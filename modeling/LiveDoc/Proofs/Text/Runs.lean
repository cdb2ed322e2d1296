import LiveDoc.Text.WhiteSpace
import Mathlib.Data.List.TakeWhile

/-!
Runs at the front of a text. A run of the characters that a class picks is taken as a whole when
the character behind it is not of the class, and it is all that is taken.
-/
namespace LiveDoc.Text

variable {α : Type} {p : α → Bool}

theorem takeWhile_run {run rest : List α} (hrun : ∀ c ∈ run, p c = true)
    (hrest : ∀ c ∈ rest.head?, p c = false) : (run ++ rest).takeWhile p = run := by
  rw [List.takeWhile_append_of_pos hrun]
  cases rest with
  | nil => simp
  | cons c more => simp [hrest c rfl]

theorem dropWhile_run {run rest : List α} (hrun : ∀ c ∈ run, p c = true)
    (hrest : ∀ c ∈ rest.head?, p c = false) : (run ++ rest).dropWhile p = rest := by
  rw [List.dropWhile_append_of_pos hrun]
  cases rest with
  | nil => rfl
  | cons c more => simp [hrest c rfl]

/-- Any text is a run of the class and a rest that does not begin with it. -/
theorem exists_run (p : α → Bool) (text : List α) :
    ∃ run rest, text = run ++ rest ∧ (∀ c ∈ run, p c = true) ∧ ∀ c ∈ rest.head?, p c = false := by
  refine ⟨text.takeWhile p, text.dropWhile p, List.takeWhile_append_dropWhile.symm,
    List.all_eq_true.mp List.all_takeWhile, ?_⟩
  intro c hc
  have hnot := List.head?_dropWhile_not p text
  rw [Option.mem_def.mp hc] at hnot
  simpa using hnot

/-! ### A text that stops a run -/

theorem takeWhile_append_of_head {rest : List α} (hrest : ∀ c ∈ rest.head?, p c = false)
    (text : List α) : (text ++ rest).takeWhile p = text.takeWhile p := by
  have hnone : ([] ++ rest).takeWhile p = [] := takeWhile_run (by simp) hrest
  rw [List.takeWhile_append, ← List.nil_append rest, hnone, List.append_nil]
  split
  · rename_i hlength
    exact ((List.takeWhile_prefix p).eq_of_length hlength).symm
  · rfl

theorem takeWhile_append_of_stop {text : List α} {c : α} (hc : c ∈ text)
    (hstop : p c = false) (more : List α) :
    (text ++ more).takeWhile p = text.takeWhile p := by
  rw [List.takeWhile_append, if_neg]
  intro hlength
  have hall := List.takeWhile_eq_self_iff.mp
    ((List.takeWhile_prefix p).eq_of_length hlength) c hc
  rw [hstop] at hall
  exact Bool.noConfusion hall

theorem dropWhile_ne_nil_of_stop {text : List α} {c : α} (hc : c ∈ text)
    (hstop : p c = false) : text.dropWhile p ≠ [] := by
  intro hnil
  have hall := List.dropWhile_eq_nil_iff.mp hnil c hc
  rw [hstop] at hall
  exact Bool.noConfusion hall

theorem dropWhile_append_of_stop {text : List α} {c : α} (hc : c ∈ text)
    (hstop : p c = false) (more : List α) :
    (text ++ more).dropWhile p = text.dropWhile p ++ more := by
  rw [List.dropWhile_append, if_neg]
  simpa using dropWhile_ne_nil_of_stop hc hstop

/-! ### White space -/

theorem isBlank_iff {text : List Char} :
    isBlank text = true ↔ ∀ c ∈ text, isWhiteSpace c = true :=
  List.all_eq_true

theorem isBlank_cons {c : Char} {rest : List Char} :
    isBlank (c :: rest) = true ↔ isWhiteSpace c = true ∧ isBlank rest = true := by
  simp [isBlank]

end LiveDoc.Text
