import Mathlib.Data.List.Count

/-!
The newlines of a text. Their number is that of its ends of lines, so it adds up over the parts of
a text, and a run of other characters has none.
-/
namespace LiveDoc

def newlines (text : List Char) : Nat := text.count '\n'

@[simp] theorem newlines_nil : newlines [] = 0 := rfl

@[simp] theorem newlines_append (a b : List Char) :
    newlines (a ++ b) = newlines a + newlines b :=
  List.count_append

@[simp] theorem newlines_newline (text : List Char) :
    newlines ('\n' :: text) = newlines text + 1 :=
  List.count_cons_self

theorem newlines_cons_of_ne {c : Char} (h : c ≠ '\n') (text : List Char) :
    newlines (c :: text) = newlines text :=
  List.count_cons_of_ne h

theorem newlines_eq_zero {text : List Char} (h : '\n' ∉ text) : newlines text = 0 :=
  List.count_eq_zero.mpr h

theorem newlines_takeWhile {p : Char → Bool} (h : p '\n' = false) (text : List Char) :
    newlines (text.takeWhile p) = 0 := by
  apply newlines_eq_zero
  intro hmem
  have hp := List.all_eq_true.mp (List.all_takeWhile (l := text) (p := p)) '\n' hmem
  rw [h] at hp
  exact Bool.noConfusion hp

theorem newlines_take_add (a b : Nat) (text : List Char) :
    newlines (text.take (a + b)) = newlines (text.take a) + newlines ((text.drop a).take b) := by
  rw [List.take_add, newlines_append]

theorem newlines_take_length_takeWhile {p : Char → Bool} (h : p '\n' = false)
    (text : List Char) : newlines (text.take (text.takeWhile p).length) = 0 := by
  rw [← List.prefix_iff_eq_take.mp (List.takeWhile_prefix p)]
  exact newlines_takeWhile h text

end LiveDoc
