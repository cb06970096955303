import HSFinancialServices.Lib.Ascii
import HSFinancialServices.Lib.TextSearch

/-!
# Field extraction in the services

Every service has its own copy of `extract_string`, all of the same text. The
extractors search for the quoted key and a colon, byte by byte, wherever these
stand in the request.
-/

namespace HSFinancialServices.Services
open Ascii TextSearch

def stringNeedle (key : Bytes) : Bytes := quote :: key ++ [quote, colon, quote]

def numberNeedle (key : Bytes) : Bytes := quote :: key ++ [quote, colon]

def extractString (json key : Bytes) : Bytes :=
  let needle := stringNeedle key
  match find needle json with
  | none => []
  | some pos =>
    let pos := pos + needle.length
    match find [quote] (json.drop pos) with
    | none => []
    | some len => (json.drop pos).take len

/-- The bytes that `extract_number` takes to belong to a number. -/
def isNumberChar (b : UInt8) : Bool := isDigit b || b == point || b == minus

def extractNumber (json key : Bytes) : Bytes :=
  let needle := numberNeedle key
  match find needle json with
  | none => ascii "0"
  | some pos =>
    let text := (json.drop (pos + needle.length)).dropWhile fun b => b == space || b == tab
    text.takeWhile isNumberChar

/-- Overflow of `int` is undefined in the source; the model wraps, as the machine does. -/
def wrapInt (z : ℤ) : ℤ := z.bmod (2 ^ 32)

def extractInt (json key : Bytes) (dflt : ℤ) : ℤ :=
  let needle := numberNeedle key
  match find needle json with
  | none => dflt
  | some pos =>
    let text := (json.drop (pos + needle.length)).dropWhile fun b => b == space
    let digits := text.takeWhile isDigit
    if digits = [] then dflt
    else digits.foldl (fun val b => wrapInt (val * 10 + (b.toNat - 48 : ℤ))) 0

theorem stringNeedle_ne_nil (key : Bytes) : stringNeedle key ≠ [] := List.cons_ne_nil _ _

theorem numberNeedle_ne_nil (key : Bytes) : numberNeedle key ≠ [] := List.cons_ne_nil _ _

theorem extractString_eq_cut (json key : Bytes) :
    extractString json key = cut (stringNeedle key) quote json := rfl

theorem quote_notMem_extractString (json key : Bytes) : quote ∉ extractString json key := by
  rw [extractString_eq_cut]
  cases cut_eq_nil_or (stringNeedle_ne_nil key) quote json with
  | inl h => simp [h]
  | inr h =>
    obtain ⟨_, _, _, hquote⟩ := h
    exact hquote

theorem length_extractString_le (json key : Bytes) :
    (extractString json key).length ≤ json.length :=
  length_cut_le (stringNeedle_ne_nil key) quote json

theorem extractString_front {key v : Bytes} (hquote : quote ∉ v) (rest : Bytes) :
    extractString (openBrace :: (stringNeedle key ++ (v ++ quote :: rest))) key = v := by
  have hfirst : ¬ stringNeedle key <+: openBrace :: (stringNeedle key ++ (v ++ quote :: rest)) := by
    intro h
    have hhead : quote = openBrace := (List.cons_prefix_cons.mp h).1
    exact absurd hhead (by decide)
  have hafter : after (stringNeedle key) (openBrace :: (stringNeedle key ++ (v ++ quote :: rest))) =
      some (v ++ quote :: rest) := by
    rw [after_cons, if_neg hfirst, after_append_self (stringNeedle_ne_nil key)]
  exact cut_of_after hafter hquote

theorem isNumberChar_of_mem_extractNumber {json key : Bytes} {b : UInt8}
    (h : b ∈ extractNumber json key) : isNumberChar b = true := by
  simp only [extractNumber] at h
  split at h
  · exact List.all_eq_true.mp (by decide) b h
  · exact List.mem_takeWhile_imp h

end HSFinancialServices.Services
