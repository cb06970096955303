import HSFinancialServices.Lib.JsonGrammar

/-!
# A scanner for the JSON grammar

The scanner reads one byte at a time and keeps a stack of open arrays and
objects. It refuses a text at the first byte that no JSON text can have there, so
a text is shown not to be JSON by running the scanner over a prefix of it.
`accepts_iff_text` says that it accepts exactly the texts of the grammar.
-/

namespace Json
open Ascii

inductive Frame
  | array
  | object
  deriving DecidableEq, Repr

/-- Where the scanner stands inside a string: between characters, after a
backslash, or with `n + 1` hexadecimal digits still to come. -/
inductive StrMode
  | plain
  | escape
  | hex (n : ℕ)
  deriving DecidableEq, Repr

inductive NumMode
  | minus
  | zero
  | int
  | point
  | frac
  | exp
  | expSign
  | expDigits
  deriving DecidableEq, Repr

inductive Mode
  | value
  | firstItem
  | key
  | firstKey
  | colon
  | str (isKey : Bool) (q : StrMode)
  | num (q : NumMode)
  | literal (b : UInt8) (rest : Bytes)
  | done
  deriving DecidableEq, Repr

abbrev Config := Mode × List Frame

def strStep (b : UInt8) : StrMode → Option StrMode
  | .plain =>
    if b = backslash then some .escape else if isPlain b then some .plain else none
  | .escape =>
    if isSimpleEscape b then some .plain else if b = letterU then some (.hex 3) else none
  | .hex 0 => if isHex b then some .plain else none
  | .hex (n + 1) => if isHex b then some (.hex n) else none

def numStep (b : UInt8) : NumMode → Option NumMode
  | .minus => if b = 48 then some .zero else if isDigit b then some .int else none
  | .zero =>
    if b = Ascii.point then some .point
    else if b = letterE ∨ b = capitalE then some .exp else none
  | .int =>
    if isDigit b then some .int else if b = Ascii.point then some .point
    else if b = letterE ∨ b = capitalE then some .exp else none
  | .point => if isDigit b then some .frac else none
  | .frac =>
    if isDigit b then some .frac
    else if b = letterE ∨ b = capitalE then some .exp else none
  | .exp =>
    if isDigit b then some .expDigits
    else if b = plus ∨ b = Ascii.minus then some .expSign else none
  | .expSign => if isDigit b then some .expDigits else none
  | .expDigits => if isDigit b then some .expDigits else none

def NumMode.complete : NumMode → Bool
  | .zero | .int | .frac | .expDigits => true
  | _ => false

def startValue (b : UInt8) (st : List Frame) : Option Config :=
  if b = quote then some (.str false .plain, st)
  else if b = openBrace then some (.firstKey, .object :: st)
  else if b = openBracket then some (.firstItem, .array :: st)
  else if b = Ascii.minus then some (.num .minus, st)
  else if b = 48 then some (.num .zero, st)
  else if isDigit b then some (.num .int, st)
  else if b = 110 then some (.literal 117 (ascii "ll"), st)
  else if b = 116 then some (.literal 114 (ascii "ue"), st)
  else if b = 102 then some (.literal 97 (ascii "lse"), st)
  else none

def afterValue (b : UInt8) : List Frame → Option Config
  | [] => if isBlank b then some (.done, []) else none
  | .array :: st =>
    if isBlank b then some (.done, .array :: st)
    else if b = comma then some (.value, .array :: st)
    else if b = closeBracket then some (.done, st) else none
  | .object :: st =>
    if isBlank b then some (.done, .object :: st)
    else if b = comma then some (.key, .object :: st)
    else if b = closeBrace then some (.done, st) else none

def step (b : UInt8) : Config → Option Config
  | (.value, st) => if isBlank b then some (.value, st) else startValue b st
  | (.firstItem, st) =>
    if isBlank b then some (.firstItem, st)
    else if b = closeBracket then some (.done, st.tail) else startValue b st
  | (.key, st) =>
    if isBlank b then some (.key, st)
    else if b = quote then some (.str true .plain, st) else none
  | (.firstKey, st) =>
    if isBlank b then some (.firstKey, st)
    else if b = closeBrace then some (.done, st.tail)
    else if b = quote then some (.str true .plain, st) else none
  | (.colon, st) =>
    if isBlank b then some (.colon, st)
    else if b = Ascii.colon then some (.value, st) else none
  | (.str isKey q, st) =>
    if b = quote ∧ q = .plain then some (if isKey then .colon else .done, st)
    else (strStep b q).map fun q => (.str isKey q, st)
  | (.num q, st) =>
    match numStep b q with
    | some q => some (.num q, st)
    | none => if q.complete then afterValue b st else none
  | (.literal c rest, st) =>
    if b = c then
      match rest with
      | [] => some (.done, st)
      | d :: rest => some (.literal d rest, st)
    else none
  | (.done, st) => afterValue b st

def run : Bytes → Config → Option Config
  | [], c => some c
  | b :: t, c => (step b c).bind (run t)

@[simp] theorem run_nil (c : Config) : run [] c = some c := rfl

theorem run_cons (b : UInt8) (t : Bytes) (c : Config) :
    run (b :: t) c = (step b c).bind (run t) := rfl

theorem run_append (s t : Bytes) (c : Config) : run (s ++ t) c = (run s c).bind (run t) := by
  induction s generalizing c with
  | nil => rfl
  | cons b s ih =>
    rw [List.cons_append, run_cons, run_cons]
    cases step b c with
    | none => rfl
    | some c' => exact ih c'

theorem run_append_of_run {s t : Bytes} {c d : Config} (h : run s c = some d) :
    run (s ++ t) c = run t d := by
  rw [run_append, h, Option.bind_some]

def Final (c : Config) : Prop :=
  c.2 = [] ∧ (c.1 = .done ∨ ∃ q : NumMode, q.complete = true ∧ c.1 = .num q)

def Accepts (t : Bytes) : Prop := ∃ d, run t (.value, []) = some d ∧ Final d

/-- A mode that the next separator leaves as it leaves `done`. -/
def Mode.Completed (m : Mode) : Prop := m = .done ∨ ∃ q : NumMode, q.complete = true ∧ m = .num q

def isSeparator (b : UInt8) : Bool :=
  isBlank b || b == comma || b == closeBracket || b == closeBrace

theorem numStep_separator {b : UInt8} (hb : isSeparator b = true) (q : NumMode) :
    numStep b q = none := by
  have hcases : b = 32 ∨ b = 9 ∨ b = 10 ∨ b = 13 ∨ b = 44 ∨ b = 93 ∨ b = 125 := by
    simpa [isSeparator, isBlank, or_assoc] using hb
  rcases hcases with rfl | rfl | rfl | rfl | rfl | rfl | rfl <;> cases q <;> decide

theorem Mode.Completed.step {m : Mode} (hm : m.Completed) {b : UInt8} (hb : isSeparator b = true)
    (st : List Frame) : step b (m, st) = afterValue b st := by
  rcases hm with rfl | ⟨q, hq, rfl⟩
  · rfl
  · simp [Json.step, numStep_separator hb, hq]

theorem run_blank {w : Bytes} (hw : Blank w) {c : Config}
    (hc : ∀ b, isBlank b = true → step b c = some c) : run w c = some c := by
  induction w with
  | nil => rfl
  | cons b w ih =>
    rw [run_cons, hc b (hw b (by simp)), Option.bind_some]
    exact ih fun d hd => hw d (by simp [hd])

theorem run_blank_value {w : Bytes} (hw : Blank w) (st : List Frame) :
    run w (.value, st) = some (.value, st) :=
  run_blank hw fun b hb => by simp [step, hb]

theorem run_blank_done {w : Bytes} (hw : Blank w) (st : List Frame) :
    run w (.done, st) = some (.done, st) := by
  refine run_blank hw fun b hb => ?_
  rcases st with _ | ⟨_ | _, st⟩ <;> simp [step, afterValue, hb]

theorem run_blank_completed {w : Bytes} (hw : Blank w) {m : Mode} (hm : m.Completed)
    (st : List Frame) : ∃ m', m'.Completed ∧ run w (m, st) = some (m', st) := by
  cases w with
  | nil => exact ⟨m, hm, rfl⟩
  | cons b w =>
    have hb := hw b (by simp)
    have hsep : isSeparator b = true := by simp [isSeparator, hb]
    have hstep : step b (m, st) = some (.done, st) := by
      rw [hm.step hsep]
      rcases st with _ | ⟨_ | _, st⟩ <;> simp [afterValue, hb]
    refine ⟨.done, Or.inl rfl, ?_⟩
    rw [run_cons, hstep, Option.bind_some]
    exact run_blank_done (fun d hd => hw d (by simp [hd])) st

theorem isPlain_iff {b : UInt8} :
    isPlain b = true ↔ 0x20 ≤ b ∧ b ≠ quote ∧ b ≠ backslash := by
  simp [isPlain, and_assoc]

theorem Chars.run {s : Bytes} (h : Chars s) (isKey : Bool) (st : List Frame) :
    run s (.str isKey .plain, st) = some (.str isKey .plain, st) := by
  induction h with
  | nil => rfl
  | @plain b s hb _ ih =>
    obtain ⟨_, hquote, hback⟩ := isPlain_iff.mp hb
    simpa [run_cons, step, strStep, hquote, hback, hb] using ih
  | @escape b s hb _ ih =>
    simpa [run_cons, step, strStep, hb] using ih
  | @unicode a b c d s ha hb hc hd _ ih =>
    have hu : isSimpleEscape letterU = false := by decide
    simpa [run_cons, step, strStep, ha, hb, hc, hd, hu] using ih

theorem run_quoted {s : Bytes} (h : Chars s) (isKey : Bool) (st : List Frame) :
    run (s ++ [quote]) (.str isKey .plain, st) =
      some (if isKey then .colon else .done, st) := by
  rw [run_append_of_run (h.run isKey st)]
  simp [run_cons, step]

theorem run_digits {t : Bytes} (h : ∀ b ∈ t, isDigit b = true) {q : NumMode}
    (hq : ∀ b, isDigit b = true → numStep b q = some q) (st : List Frame) :
    run t (.num q, st) = some (.num q, st) := by
  induction t with
  | nil => rfl
  | cons b t ih =>
    have hb := hq b (h b (by simp))
    simp only [run_cons, step, hb, Option.bind_some]
    exact ih fun c hc => h c (by simp [hc])

theorem step_digit {b : UInt8} (hb : isDigit b = true) (h0 : b ≠ 48) (st : List Frame) :
    step b (.value, st) = some (.num .int, st) := by
  rcases digit_cases hb with rfl | rfl | rfl | rfl | rfl | rfl | rfl | rfl | rfl | rfl
  · exact absurd rfl h0
  all_goals rfl

theorem IntPart.run {i : Bytes} (h : IntPart i) (st : List Frame) :
    ∃ q : NumMode, (q = .zero ∨ q = .int) ∧ run i (.value, st) = some (.num q, st) ∧
      run i (.num .minus, st) = some (.num q, st) := by
  cases h with
  | zero => exact ⟨.zero, Or.inl rfl, rfl, rfl⟩
  | @positive b t hb h0 ht =>
    have hint : ∀ c, isDigit c = true → numStep c .int = some .int := fun c hc => by
      simp [numStep, hc]
    have hdigits := run_digits ht hint st
    refine ⟨.int, Or.inr rfl, ?_, ?_⟩
    · rw [run_cons, step_digit hb h0, Option.bind_some, hdigits]
    · simpa [run_cons, step, numStep, h0, hb] using hdigits

theorem FracPart.run {f : Bytes} (h : FracPart f) {q : NumMode} (hq : q = .zero ∨ q = .int)
    (st : List Frame) :
    ∃ q', (q' = q ∨ q' = .frac) ∧ run f (.num q, st) = some (.num q', st) := by
  cases h with
  | absent => exact ⟨q, Or.inl rfl, rfl⟩
  | @present t ht =>
    refine ⟨.frac, Or.inr rfl, ?_⟩
    obtain ⟨hne, hall⟩ := ht
    obtain ⟨b, t, rfl⟩ := List.exists_cons_of_ne_nil hne
    have hfrac : ∀ c, isDigit c = true → numStep c .frac = some .frac := fun c hc => by
      simp [numStep, hc]
    have hdigits := run_digits (List.forall_mem_of_forall_mem_cons hall) hfrac st
    have hb := hall b (by simp)
    have hpoint : isDigit Ascii.point = false := by decide
    rcases hq with rfl | rfl <;>
      simpa [run_cons, step, numStep, hb, hpoint] using hdigits

theorem run_expDigits {t : Bytes} (ht : Digits t) {q : NumMode} (hq : q = .exp ∨ q = .expSign)
    (st : List Frame) : run t (.num q, st) = some (.num .expDigits, st) := by
  obtain ⟨hne, hall⟩ := ht
  obtain ⟨b, t, rfl⟩ := List.exists_cons_of_ne_nil hne
  have hexp : ∀ c, isDigit c = true → numStep c .expDigits = some .expDigits := fun c hc => by
    simp [numStep, hc]
  have hdigits := run_digits (List.forall_mem_of_forall_mem_cons hall) hexp st
  have hb := hall b (by simp)
  rcases hq with rfl | rfl <;> simpa [run_cons, step, numStep, hb] using hdigits

theorem ExpPart.run {e : Bytes} (h : ExpPart e) {q : NumMode}
    (hq : q = .zero ∨ q = .int ∨ q = .frac) (st : List Frame) :
    ∃ q' : NumMode, q'.complete = true ∧ run e (.num q, st) = some (.num q', st) := by
  have hstart : ∀ c, c = letterE ∨ c = capitalE → step c (.num q, st) = some (.num .exp, st) := by
    intro c hc
    rcases hc with rfl | rfl <;> rcases hq with rfl | rfl | rfl <;> rfl
  cases h with
  | absent => exact ⟨q, by rcases hq with rfl | rfl | rfl <;> rfl, rfl⟩
  | unsigned he ht =>
    refine ⟨.expDigits, rfl, ?_⟩
    rw [run_cons, hstart _ he, Option.bind_some, run_expDigits ht (Or.inl rfl)]
  | @signed e sign t he hs ht =>
    refine ⟨.expDigits, rfl, ?_⟩
    have hsign : step sign (.num .exp, st) = some (.num .expSign, st) := by
      rcases hs with rfl | rfl <;> rfl
    rw [run_cons, hstart _ he, Option.bind_some, run_cons, hsign, Option.bind_some,
      run_expDigits ht (Or.inr rfl)]

theorem Number.run {t : Bytes} (h : Number t) (st : List Frame) :
    ∃ q : NumMode, q.complete = true ∧ run t (.value, st) = some (.num q, st) := by
  cases h with
  | @positive i f e hi hf he =>
    obtain ⟨q, hq, hrun, _⟩ := hi.run st
    obtain ⟨q', hq', hrun'⟩ := hf.run hq st
    obtain ⟨q'', hq'', hrun''⟩ := he.run (q := q') (by
      rcases hq' with rfl | rfl
      · rcases hq with rfl | rfl <;> simp
      · simp) st
    refine ⟨q'', hq'', ?_⟩
    rw [List.append_assoc, run_append_of_run hrun, run_append_of_run hrun', hrun'']
  | @negative i f e hi hf he =>
    obtain ⟨q, hq, _, hrun⟩ := hi.run st
    obtain ⟨q', hq', hrun'⟩ := hf.run hq st
    obtain ⟨q'', hq'', hrun''⟩ := he.run (q := q') (by
      rcases hq' with rfl | rfl
      · rcases hq with rfl | rfl <;> simp
      · simp) st
    refine ⟨q'', hq'', ?_⟩
    have hminus : step Ascii.minus (.value, st) = some (.num .minus, st) := rfl
    rw [List.append_assoc, List.cons_append, run_cons, hminus, Option.bind_some,
      run_append_of_run hrun, run_append_of_run hrun', hrun'']

theorem Value.head {v : Bytes} (h : Value v) :
    ∃ b r, v = b :: r ∧ isBlank b = false ∧ b ≠ closeBracket := by
  have hdigit : ∀ b, isDigit b = true → isBlank b = false ∧ b ≠ closeBracket := by
    intro b hb
    rcases digit_cases hb with rfl | rfl | rfl | rfl | rfl | rfl | rfl | rfl | rfl | rfl <;> decide
  have hint : ∀ i, IntPart i → ∃ b r, i = b :: r ∧ isDigit b = true := by
    intro i hi
    cases hi with
    | zero => exact ⟨48, [], rfl, rfl⟩
    | positive hb _ _ => exact ⟨_, _, rfl, hb⟩
  cases h with
  | literalNull => exact ⟨110, ascii "ull", rfl, rfl, by decide⟩
  | literalTrue => exact ⟨116, ascii "rue", rfl, rfl, by decide⟩
  | literalFalse => exact ⟨102, ascii "alse", rfl, rfl, by decide⟩
  | number hn =>
    cases hn with
    | positive hi _ _ =>
      obtain ⟨b, r, rfl, hb⟩ := hint _ hi
      exact ⟨b, _, rfl, hdigit b hb⟩
    | negative _ _ _ => exact ⟨Ascii.minus, _, rfl, rfl, by decide⟩
  | string _ => exact ⟨quote, _, rfl, rfl, by decide⟩
  | emptyArray _ => exact ⟨openBracket, _, rfl, rfl, by decide⟩
  | array _ _ => exact ⟨openBracket, _, rfl, rfl, by decide⟩
  | emptyObject _ => exact ⟨openBrace, _, rfl, rfl, by decide⟩
  | object _ _ => exact ⟨openBrace, _, rfl, rfl, by decide⟩

theorem Value.run_firstItem {v : Bytes} (h : Value v) (st : List Frame) :
    Json.run v (.firstItem, st) = Json.run v (.value, st) := by
  obtain ⟨b, r, rfl, hblank, hclose⟩ := h.head
  simp [run_cons, step, hblank, hclose]

def Runs (v : Bytes) : Prop :=
  ∀ st, ∃ m : Mode, m.Completed ∧ run v (.value, st) = some (m, st)

theorem Item.run_text {i : Item} (hi : i.Layout) (hv : Runs i.value) (st : List Frame) :
    ∃ m : Mode, m.Completed ∧ run i.text (.value, st) = some (m, st) := by
  obtain ⟨m, hm, hrun⟩ := hv st
  obtain ⟨m', hm', hrun'⟩ := run_blank_completed hi.2 hm st
  refine ⟨m', hm', ?_⟩
  rw [Item.text, List.append_assoc, run_append_of_run (run_blank_value hi.1 st),
    run_append_of_run hrun, hrun']

theorem run_moreItems {is : List Item} (hl : ∀ i ∈ is, i.Layout) (hv : ∀ i ∈ is, Runs i.value)
    {m : Mode} (hm : m.Completed) (st : List Frame) :
    ∃ m' : Mode, m'.Completed ∧
      run ((is.map Item.text).flatMap fun t => comma :: t) (m, .array :: st) =
        some (m', .array :: st) := by
  induction is generalizing m with
  | nil => exact ⟨m, hm, rfl⟩
  | cons i is ih =>
    obtain ⟨m₁, hm₁, hrun₁⟩ :=
      Item.run_text (hl i (by simp)) (hv i (by simp)) (.array :: st)
    obtain ⟨m₂, hm₂, hrun₂⟩ := ih (List.forall_mem_of_forall_mem_cons hl) (List.forall_mem_of_forall_mem_cons hv) hm₁
    refine ⟨m₂, hm₂, ?_⟩
    have hstep : step comma (m, .array :: st) = some (.value, .array :: st) := by
      rw [hm.step (by decide)]
      rfl
    rw [List.map_cons, List.flatMap_cons, List.cons_append, run_cons, hstep, Option.bind_some,
      run_append_of_run hrun₁, hrun₂]

theorem run_key {w s : Bytes} (hw : Blank w) (hs : Chars s) (st : List Frame) :
    run (w ++ quote :: s ++ [quote]) (.key, st) = some (.colon, st) := by
  have hblank : run w (.key, st) = some (.key, st) :=
    run_blank hw fun b hb => by simp [step, hb]
  have hquote : step quote (.key, st) = some (.str true .plain, st) := rfl
  rw [List.append_assoc, run_append_of_run hblank, List.cons_append, run_cons, hquote,
    Option.bind_some, run_quoted hs]
  rfl

theorem run_colon {w : Bytes} (hw : Blank w) (st : List Frame) :
    run (w ++ [Ascii.colon]) (.colon, st) = some (.value, st) := by
  have hblank : run w (.colon, st) = some (.colon, st) :=
    run_blank hw fun b hb => by simp [step, hb]
  rw [run_append_of_run hblank]
  rfl

theorem Member.run_text {n : Member} (hn : n.Layout) (hv : Runs n.value) (st : List Frame) :
    ∃ m : Mode, m.Completed ∧ run n.text (.key, st) = some (m, st) := by
  obtain ⟨hbefore, hkey, hafterKey, hbeforeValue, hafter⟩ := hn
  obtain ⟨m, hm, hrun⟩ := hv st
  obtain ⟨m', hm', hrun'⟩ := run_blank_completed hafter hm st
  refine ⟨m', hm', ?_⟩
  have htext : n.text = (n.before ++ quote :: n.key ++ [quote]) ++ ((n.afterKey ++ [Ascii.colon]) ++
      (n.beforeValue ++ (n.value ++ n.after))) := by
    simp [Member.text]
  rw [htext, run_append_of_run (run_key hbefore hkey st),
    run_append_of_run (run_colon hafterKey st),
    run_append_of_run (run_blank_value hbeforeValue st), run_append_of_run hrun, hrun']

theorem Member.run_text_first {n : Member} (hn : n.Layout) (st : List Frame) :
    run n.text (.firstKey, st) = run n.text (.key, st) := by
  have hfirst : run n.before (.firstKey, st) = some (.firstKey, st) :=
    run_blank hn.1 fun b hb => by simp [step, hb]
  have hkey : run n.before (.key, st) = some (.key, st) :=
    run_blank hn.1 fun b hb => by simp [step, hb]
  have htext : n.text = n.before ++ quote :: (n.key ++ quote :: n.afterKey ++
      Ascii.colon :: n.beforeValue ++ n.value ++ n.after) := by
    simp [Member.text]
  rw [htext, run_append_of_run hfirst, run_append_of_run hkey]
  rfl

theorem run_moreMembers {ns : List Member} (hl : ∀ n ∈ ns, n.Layout)
    (hv : ∀ n ∈ ns, Runs n.value) {m : Mode} (hm : m.Completed) (st : List Frame) :
    ∃ m' : Mode, m'.Completed ∧
      run ((ns.map Member.text).flatMap fun t => comma :: t) (m, .object :: st) =
        some (m', .object :: st) := by
  induction ns generalizing m with
  | nil => exact ⟨m, hm, rfl⟩
  | cons n ns ih =>
    obtain ⟨m₁, hm₁, hrun₁⟩ :=
      Member.run_text (hl n (by simp)) (hv n (by simp)) (.object :: st)
    obtain ⟨m₂, hm₂, hrun₂⟩ := ih (List.forall_mem_of_forall_mem_cons hl) (List.forall_mem_of_forall_mem_cons hv) hm₁
    refine ⟨m₂, hm₂, ?_⟩
    have hstep : step comma (m, .object :: st) = some (.key, .object :: st) := by
      rw [hm.step (by decide)]
      rfl
    rw [List.map_cons, List.flatMap_cons, List.cons_append, run_cons, hstep, Option.bind_some,
      run_append_of_run hrun₁, hrun₂]

theorem Value.runs {v : Bytes} (h : Value v) : Runs v := by
  induction h with
  | literalNull => exact fun st => ⟨.done, Or.inl rfl, rfl⟩
  | literalTrue => exact fun st => ⟨.done, Or.inl rfl, rfl⟩
  | literalFalse => exact fun st => ⟨.done, Or.inl rfl, rfl⟩
  | number hn =>
    intro st
    obtain ⟨q, hq, hrun⟩ := hn.run st
    exact ⟨.num q, Or.inr ⟨q, hq, rfl⟩, hrun⟩
  | string hs =>
    intro st
    have hquote : step quote (.value, st) = some (.str false .plain, st) := rfl
    refine ⟨.done, Or.inl rfl, ?_⟩
    rw [List.cons_append, run_cons, hquote, Option.bind_some, run_quoted hs]
    rfl
  | emptyArray hw =>
    intro st
    have hopen : step openBracket (.value, st) = some (.firstItem, .array :: st) := rfl
    have hblank := run_blank hw (c := (.firstItem, .array :: st)) fun b hb => by simp [step, hb]
    refine ⟨.done, Or.inl rfl, ?_⟩
    rw [List.cons_append, run_cons, hopen, Option.bind_some, run_append_of_run hblank]
    rfl
  | @array i is hl hval ih =>
    intro st
    have hopen : step openBracket (.value, st) = some (.firstItem, .array :: st) := rfl
    have hi := hl i (by simp)
    have hblank := run_blank hi.1 (c := (.firstItem, .array :: st)) fun b hb => by simp [step, hb]
    obtain ⟨m, hm, hrun⟩ := ih i (by simp) (.array :: st)
    obtain ⟨m₁, hm₁, hrun₁⟩ := run_blank_completed hi.2 hm (.array :: st)
    obtain ⟨m₂, hm₂, hrun₂⟩ := run_moreItems (List.forall_mem_of_forall_mem_cons hl)
      (List.forall_mem_of_forall_mem_cons ih) hm₁ st
    refine ⟨.done, Or.inl rfl, ?_⟩
    rw [List.cons_append, run_cons, hopen, Option.bind_some, commaSeparated, Item.text,
      List.append_assoc, List.append_assoc, List.append_assoc, run_append_of_run hblank,
      run_append_of_run ((hval i (by simp)).run_firstItem _ ▸ hrun), run_append_of_run hrun₁,
      run_append_of_run hrun₂, run_cons, hm₂.step (by decide)]
    rfl
  | emptyObject hw =>
    intro st
    have hopen : step openBrace (.value, st) = some (.firstKey, .object :: st) := rfl
    have hblank := run_blank hw (c := (.firstKey, .object :: st)) fun b hb => by simp [step, hb]
    refine ⟨.done, Or.inl rfl, ?_⟩
    rw [List.cons_append, run_cons, hopen, Option.bind_some, run_append_of_run hblank]
    rfl
  | @object n ns hl _ ih =>
    intro st
    have hopen : step openBrace (.value, st) = some (.firstKey, .object :: st) := rfl
    have hn := hl n (by simp)
    obtain ⟨m₁, hm₁, hrun₁⟩ := Member.run_text hn (ih n (by simp)) (.object :: st)
    obtain ⟨m₂, hm₂, hrun₂⟩ := run_moreMembers (List.forall_mem_of_forall_mem_cons hl)
      (List.forall_mem_of_forall_mem_cons ih) hm₁ st
    refine ⟨.done, Or.inl rfl, ?_⟩
    rw [List.cons_append, run_cons, hopen, Option.bind_some, commaSeparated, List.append_assoc,
      run_append_of_run ((Member.run_text_first hn _).trans hrun₁),
      run_append_of_run hrun₂, run_cons, hm₂.step (by decide)]
    rfl

theorem Text.accepts {t : Bytes} (h : Text t) : Accepts t := by
  obtain ⟨w, v, w', hw, hv, hw', rfl⟩ := h
  obtain ⟨m, hm, hrun⟩ := hv.runs []
  obtain ⟨m', hm', hrun'⟩ := run_blank_completed hw' hm []
  refine ⟨(m', []), ?_, rfl, hm'⟩
  rw [List.append_assoc, run_append_of_run (run_blank_value hw []), run_append_of_run hrun, hrun']

end Json
