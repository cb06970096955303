import HSFinancialServices.Router

/-!
# The type of a response

A successful response carries the type of its request with the high bit set. Among the
client types only the last, `0x7FFF`, is taken to the type that `dispatch` uses for errors.
-/

namespace HSFinancialServices

variable {σ : Type*}

namespace MessageType

def IsClient (type : MessageType) : Prop := type < 0x8000

instance (type : MessageType) : Decidable (IsClient type) :=
  inferInstanceAs (Decidable (type < 0x8000))

/-- "Derive the canonical response type (set high bit on request type)" -/
def canonicalResponse (type : MessageType) : MessageType := type ||| 0x8000

theorem canonicalResponse_toNat {type : MessageType} (h : type.IsClient) :
    (canonicalResponse type).toNat = 2 ^ 15 + type.toNat := by
  have hlt : type.toNat < 2 ^ 15 := UInt16.lt_iff_toNat_lt.mp h
  have hadd := Nat.two_pow_add_eq_or_of_lt hlt 1
  rw [Nat.mul_one] at hadd
  rw [hadd, canonicalResponse, UInt16.toNat_or, Nat.or_comm]
  rfl

theorem canonicalResponse_injective {type type' : MessageType} (h : type.IsClient)
    (h' : type'.IsClient) (heq : canonicalResponse type = canonicalResponse type') :
    type = type' := by
  apply UInt16.toNat_inj.mp
  have hnat := congrArg UInt16.toNat heq
  rw [canonicalResponse_toNat h, canonicalResponse_toNat h'] at hnat
  omega

theorem canonicalResponse_eq_kError_iff {type : MessageType} (h : type.IsClient) :
    canonicalResponse type = kError ↔ type = 0x7FFF := by
  constructor
  · intro heq
    apply canonicalResponse_injective h (by decide)
    rw [heq]
    rfl
  · intro heq
    rw [heq]
    rfl

end MessageType

namespace ServiceRouter

variable (router : ServiceRouter σ)

def Fails (request : Message) (store : σ) : Prop :=
  router.handlers request.header.messageType = none ∨
    ∃ handler what, router.handlers request.header.messageType = some handler ∧
      (handler request.payload store).1 = .error what

variable {router} {request : Message} {store : σ}

theorem dispatch_type_of_fails (h : router.Fails request store) :
    (router.dispatch request store).1.header.messageType = MessageType.kError := by
  obtain hnone | ⟨handler, what, hsome, herror⟩ := h
  · simp only [dispatch, hnone]
    rfl
  · simp only [dispatch, hsome]
    generalize handler request.payload store = r at herror
    obtain ⟨result, store'⟩ := r
    subst herror
    rfl

theorem dispatch_type_of_succeeds (h : ¬ router.Fails request store) :
    (router.dispatch request store).1.header.messageType =
      MessageType.canonicalResponse request.header.messageType := by
  cases hhandler : router.handlers request.header.messageType with
  | none => exact absurd (.inl hhandler) h
  | some handler =>
    cases hresult : handler request.payload store with
    | mk result store' =>
    cases result with
    | error what => exact absurd (.inr ⟨handler, what, hhandler, by rw [hresult]⟩) h
    | ok payload =>
      simp only [dispatch, hhandler, hresult]
      rfl

/-- Errors are told apart by their type except at `0x7FFF`; successes are told apart by it
everywhere. -/
theorem success_told_from_failure_iff (router : ServiceRouter σ) (request : Message) (store : σ)
    (hclient : request.header.messageType.IsClient) :
    (((router.dispatch request store).1.header.messageType = MessageType.kError ↔
        router.Fails request store) ↔
      (request.header.messageType = 0x7FFF → router.Fails request store)) ∧
    ∀ (request' : Message) (store' : σ), request'.header.messageType.IsClient →
      ¬ router.Fails request store → ¬ router.Fails request' store' →
      request.header.messageType ≠ request'.header.messageType →
      (router.dispatch request store).1.header.messageType ≠
        (router.dispatch request' store').1.header.messageType := by
  refine ⟨?_, ?_⟩
  · by_cases hfails : router.Fails request store
    · simp only [dispatch_type_of_fails hfails, hfails, implies_true]
    · rw [dispatch_type_of_succeeds hfails, MessageType.canonicalResponse_eq_kError_iff hclient]
      simp only [hfails, iff_false, imp_false]
  · intro request' store' hclient' hok hok' hne heq
    rw [dispatch_type_of_succeeds hok, dispatch_type_of_succeeds hok'] at heq
    exact hne (MessageType.canonicalResponse_injective hclient hclient' heq)

theorem success_told_from_failure_echo :
    let echo : ServiceHandler Unit := fun payload s => (.ok payload, s)
    let router : ServiceRouter Unit :=
      ⟨fun type => if type = MessageType.kPing ∨ type = MessageType.kSqlQuery then some echo
        else none⟩
    let ping := Message.make MessageType.kPing [] 0
    let sql := Message.make MessageType.kSqlQuery [] 0
    ((router.dispatch ping ()).1.header.messageType = MessageType.kError ↔
        router.Fails ping ()) ∧
      (router.dispatch ping ()).1.header.messageType ≠
        (router.dispatch sql ()).1.header.messageType := by
  intro echo router ping sql
  have hping : ¬ router.Fails ping () := by
    rintro (h | ⟨handler, what, hsome, herror⟩)
    · cases h
    · cases hsome
      cases herror
  have hsql : ¬ router.Fails sql () := by
    rintro (h | ⟨handler, what, hsome, herror⟩)
    · cases h
    · cases hsome
      cases herror
  obtain ⟨htold, hdistinct⟩ := success_told_from_failure_iff router ping () (by decide)
  refine ⟨htold.mpr ?_, hdistinct sql () (by decide) hping hsql (by decide)⟩
  intro h
  exact absurd h (by decide)

theorem success_at_last_type_is_error :
    ¬ ∀ (router : ServiceRouter Unit) (request : Message) (store : Unit),
      (∀ type, router.handlers type ≠ none → MessageType.IsClient type) →
      MessageType.IsClient request.header.messageType →
      ((router.dispatch request store).1.header.messageType = MessageType.kError ↔
        router.Fails request store) := by
  intro h
  let echo : ServiceHandler Unit := fun payload s => (.ok payload, s)
  let router : ServiceRouter Unit := ⟨fun type => if type = 0x7FFF then some echo else none⟩
  have hclient : ∀ type, router.handlers type ≠ none → MessageType.IsClient type := by
    intro type htype
    by_cases hlast : type = 0x7FFF
    · rw [hlast]
      decide
    · exact absurd (if_neg hlast) htype
  have htold := h router (Message.make 0x7FFF [] 0) () hclient (by decide)
  obtain hnone | ⟨handler, what, hsome, herror⟩ := htold.mp (by rfl)
  · cases hnone
  · cases hsome
    cases herror

end ServiceRouter

end HSFinancialServices
