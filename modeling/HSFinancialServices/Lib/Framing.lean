import Mathlib.Data.List.Infix

/-!
# Length-prefixed frames in a stream

A header of fixed size announces how long the body after it is, or is refused.
A stream then has at most one reading as a sequence of frames, and a stream that
starts with known frames cannot be read in any other way.
-/

namespace Framing
variable {α : Type*}

structure Format (α : Type*) where
  headerSize : ℕ
  /-- The announced body length; `none` for a refused header. -/
  bodyLength : List α → Option ℕ

structure Frame (α : Type*) where
  header : List α
  body : List α

def Frame.bytes (f : Frame α) : List α := f.header ++ f.body

def concat (fs : List (Frame α)) : List α := fs.flatMap Frame.bytes

@[simp] theorem concat_nil : concat ([] : List (Frame α)) = [] := rfl

@[simp] theorem concat_cons (f : Frame α) (fs : List (Frame α)) :
    concat (f :: fs) = f.bytes ++ concat fs := rfl

@[simp] theorem concat_append (fs gs : List (Frame α)) :
    concat (fs ++ gs) = concat fs ++ concat gs := List.flatMap_append ..

variable (fmt : Format α)

def Format.WellFormed (f : Frame α) : Prop :=
  f.header.length = fmt.headerSize ∧ fmt.bodyLength f.header = some f.body.length

/-- No complete acceptable frame stands at the front of the stream: the header is
incomplete, or refused, or announces more than there is. -/
def Format.Stuck (stream : List α) : Prop :=
  stream.length < fmt.headerSize ∨
    ∀ n, fmt.bodyLength (stream.take fmt.headerSize) = some n →
      (stream.drop fmt.headerSize).length < n

variable {fmt}

theorem Format.WellFormed.bytes_append_inj {f g : Frame α} {s t : List α}
    (hf : fmt.WellFormed f) (hg : fmt.WellFormed g) (h : f.bytes ++ s = g.bytes ++ t) :
    f = g ∧ s = t := by
  obtain ⟨header, body⟩ := f
  obtain ⟨header', body'⟩ := g
  obtain ⟨hsize, hlen⟩ := hf
  obtain ⟨hsize', hlen'⟩ := hg
  simp only [Frame.bytes, List.append_assoc] at h
  obtain ⟨rfl, hrest⟩ := List.append_inj h (hsize.trans hsize'.symm)
  have hbody : body.length = body'.length := Option.some.inj (hlen.symm.trans hlen')
  obtain ⟨rfl, rfl⟩ := List.append_inj hrest hbody
  exact ⟨rfl, rfl⟩

theorem Format.WellFormed.not_stuck {f : Frame α} (hf : fmt.WellFormed f) (s : List α) :
    ¬ fmt.Stuck (f.bytes ++ s) := by
  obtain ⟨hsize, hlen⟩ := hf
  have htake : (f.bytes ++ s).take fmt.headerSize = f.header := by
    simp [Frame.bytes, ← hsize]
  have hdrop : (f.bytes ++ s).drop fmt.headerSize = f.body ++ s := by
    simp [Frame.bytes, ← hsize]
  intro h
  rcases h with hshort | hbody
  · simp only [Frame.bytes, List.length_append] at hshort
    omega
  · have hlt := hbody f.body.length (by rw [htake, hlen])
    rw [hdrop, List.length_append] at hlt
    omega

theorem prefix_of_concat_append_eq {fs gs : List (Frame α)} {s t : List α}
    (hf : ∀ f ∈ fs, fmt.WellFormed f) (hg : ∀ g ∈ gs, fmt.WellFormed g) (ht : fmt.Stuck t)
    (h : concat fs ++ s = concat gs ++ t) : fs <+: gs := by
  induction fs generalizing gs with
  | nil => exact List.nil_prefix
  | cons f fs ih =>
    have hhead := hf f (by simp)
    cases gs with
    | nil =>
      refine absurd ht ?_
      rw [← List.nil_append t, ← concat_nil, ← h, concat_cons, List.append_assoc]
      exact hhead.not_stuck _
    | cons g gs =>
      rw [concat_cons, concat_cons, List.append_assoc, List.append_assoc] at h
      obtain ⟨rfl, hrest⟩ := hhead.bytes_append_inj (hg g (by simp)) h
      have htail := ih (List.forall_mem_of_forall_mem_cons hf)
        (List.forall_mem_of_forall_mem_cons hg) hrest
      exact List.cons_prefix_cons.mpr ⟨rfl, htail⟩

theorem concat_append_inj_of_length {fs gs : List (Frame α)} {s t : List α}
    (hf : ∀ f ∈ fs, fmt.WellFormed f) (hg : ∀ g ∈ gs, fmt.WellFormed g)
    (hlength : fs.length = gs.length) (h : concat fs ++ s = concat gs ++ t) :
    fs = gs ∧ s = t := by
  induction fs generalizing gs with
  | nil =>
    obtain rfl := List.length_eq_zero_iff.mp hlength.symm
    exact ⟨rfl, h⟩
  | cons f fs ih =>
    cases gs with
    | nil => cases hlength
    | cons g gs =>
      rw [concat_cons, concat_cons, List.append_assoc, List.append_assoc] at h
      obtain ⟨rfl, hrest⟩ := (hf f (by simp)).bytes_append_inj (hg g (by simp)) h
      obtain ⟨rfl, rfl⟩ := ih (List.forall_mem_of_forall_mem_cons hf)
        (List.forall_mem_of_forall_mem_cons hg) (Nat.succ.inj hlength) hrest
      exact ⟨rfl, rfl⟩

theorem frame_unique {fs gs : List (Frame α)} {s t : List α}
    (hf : ∀ f ∈ fs, fmt.WellFormed f) (hg : ∀ g ∈ gs, fmt.WellFormed g)
    (h : concat fs ++ s = concat gs ++ t) {i : ℕ} {f g : Frame α} (hi : fs[i]? = some f)
    (hi' : gs[i]? = some g) : f = g := by
  induction fs generalizing gs i with
  | nil => cases hi
  | cons a fs ih =>
    cases gs with
    | nil => cases hi'
    | cons b gs =>
      rw [concat_cons, concat_cons, List.append_assoc, List.append_assoc] at h
      obtain ⟨rfl, hrest⟩ := (hf a (by simp)).bytes_append_inj (hg b (by simp)) h
      cases i with
      | zero => exact Option.some.inj (hi.symm.trans hi')
      | succ i =>
        exact ih (List.forall_mem_of_forall_mem_cons hf) (List.forall_mem_of_forall_mem_cons hg)
          hrest hi hi'

/-- A stream is read in one way only. -/
theorem concat_append_inj {fs gs : List (Frame α)} {s t : List α}
    (hf : ∀ f ∈ fs, fmt.WellFormed f) (hg : ∀ g ∈ gs, fmt.WellFormed g)
    (hs : fmt.Stuck s) (ht : fmt.Stuck t) (h : concat fs ++ s = concat gs ++ t) :
    fs = gs ∧ s = t := by
  have hle := prefix_of_concat_append_eq hf hg ht h
  have hge := prefix_of_concat_append_eq hg hf hs h.symm
  obtain rfl := hle.eq_of_length (le_antisymm hle.length_le hge.length_le)
  exact ⟨rfl, List.append_cancel_left h⟩

end Framing
