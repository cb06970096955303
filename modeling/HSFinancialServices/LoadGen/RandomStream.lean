import HSFinancialServices.LoadGen.Walk
import Mathlib.Dynamics.PeriodicPts.Defs

/-!
# The random streams of the clients

Each client starts the same generator at a state of its own. The generator runs through all
states before it returns to one, and two clients are never in the same state after as many draws.
-/

namespace HSFinancialServices.LoadGen
open Function

def prevRand (rngState : UInt64) : UInt64 :=
  (rngState - 1442695040888963407) * 13877824140714322085

theorem prevRand_nextRand : LeftInverse prevRand nextRand := by
  intro x
  have hinverse : (6364136223846793005 : UInt64) * 13877824140714322085 = 1 := by decide
  rw [prevRand, nextRand, UInt64.add_sub_cancel, UInt64.mul_assoc, hinverse, UInt64.mul_one]

theorem nextRand_prevRand : RightInverse prevRand nextRand := by
  intro x
  have hinverse : (13877824140714322085 : UInt64) * 6364136223846793005 = 1 := by decide
  rw [nextRand, prevRand, UInt64.mul_assoc, hinverse, UInt64.mul_one, UInt64.sub_add_cancel]

theorem nextRand_injective : Injective nextRand := prevRand_nextRand.injective

theorem nextRand_surjective : Surjective nextRand := nextRand_prevRand.surjective

theorem iterate_nextRand_eq_iff (m n : ℕ) (x : UInt64) :
    nextRand^[m] x = nextRand^[n] x ↔ m ≡ n [MOD 2 ^ 64] := by
  rw [← Congruential.iterate_modEq_iterate_iff multiplier_mod_four increment_odd (x.toNat : ℤ)]
  constructor
  · intro h
    have hm := iterate_nextRand_modEq m x
    rw [h] at hm
    exact hm.symm.trans (iterate_nextRand_modEq n x)
  · intro h
    have hmod := (iterate_nextRand_modEq m x).trans (h.trans (iterate_nextRand_modEq n x).symm)
    have hlt := (nextRand^[n] x).toNat_lt
    have heq := toNat_eq_of_modEq ⟨by omega, by omega⟩ hmod
    exact UInt64.toNat_inj.mp (by exact_mod_cast heq)

theorem minimalPeriod_nextRand (x : UInt64) : minimalPeriod nextRand x = 2 ^ 64 := by
  apply Nat.dvd_antisymm
  · apply IsPeriodicPt.minimalPeriod_dvd
    exact (iterate_nextRand_eq_iff (2 ^ 64) 0 x).mpr (by decide)
  · have hreturn := (iterate_nextRand_eq_iff (minimalPeriod nextRand x) 0 x).mp
      (isPeriodicPt_minimalPeriod nextRand x)
    exact (Nat.modEq_zero_iff_dvd).mp hreturn

theorem seed_toNat (clientId : UInt32) :
    (seed clientId).toNat = clientId.toNat * 2654435761 + 1 := by
  have hlt := clientId.toNat_lt
  simp only [seed, UInt64.toNat_add, UInt64.toNat_mul, UInt32.toNat_toUInt64, UInt64.reduceToNat]
  omega

theorem seed_injective : Injective seed := by
  intro clientId clientId' h
  have htoNat := congrArg UInt64.toNat h
  rw [seed_toNat, seed_toNat] at htoNat
  exact UInt32.toNat_inj.mp (by omega)

theorem streams_full_and_apart :
    (∀ clientId : UInt32,
      Set.InjOn (fun n => nextRand^[n] (seed clientId)) (Set.Icc 1 (2 ^ 64)) ∧
      minimalPeriod nextRand (seed clientId) = 2 ^ 64) ∧
    ∀ (clientId clientId' : UInt32) (n : ℕ), clientId ≠ clientId' →
      nextRand^[n] (seed clientId) ≠ nextRand^[n] (seed clientId') := by
  refine ⟨?_, ?_⟩
  · intro clientId
    refine ⟨?_, minimalPeriod_nextRand _⟩
    intro m hm n hn h
    have hmod : m % 2 ^ 64 = n % 2 ^ 64 := (iterate_nextRand_eq_iff m n _).mp h
    simp only [Set.mem_Icc] at hm hn
    omega
  · intro clientId clientId' n hne h
    exact hne (seed_injective (nextRand_injective.iterate n h))

theorem streams_full_and_apart_first_clients :
    minimalPeriod nextRand (seed 0) = 2 ^ 64 ∧
      nextRand^[1000] (seed 0) ≠ nextRand^[1000] (seed 1) :=
  ⟨(streams_full_and_apart.1 0).2, streams_full_and_apart.2 0 1 1000 (by decide)⟩

end HSFinancialServices.LoadGen
