import LiveDoc.Text.Search

/-!
The occurrences of a text inside another, taken from the left. A cut of a text holds the parts
between them. Every text has exactly one cut, which splitting finds and replacing puts together
again with another text in between.
-/
namespace LiveDoc.Text

variable {separator target text run rest : List Char} {parts : List (List Char)}

/-- No occurrence of the separator begins within a text that stands in front of `rest`, not even
one that ends in `rest`. -/
def NoneBegins (separator rest : List Char) : List Char → Prop
  | [] => True
  | c :: run => ¬ separator <+: c :: (run ++ rest) ∧ NoneBegins separator rest run

/-- The parts of a text between the occurrences of the separator, each one found behind the end of
the one before it. -/
inductive Cut (separator : List Char) : List (List Char) → List Char → Prop where
  | last {run : List Char} : NoneBegins separator [] run → Cut separator [run] run
  | next {run rest : List Char} {parts : List (List Char)} :
      NoneBegins separator (separator ++ rest) run → Cut separator parts rest →
      Cut separator (run :: parts) (run ++ (separator ++ rest))

/-! ### Cuts of a text -/

theorem NoneBegins.not_infix (h : NoneBegins separator rest run) (hseparator : separator ≠ []) :
    ¬ separator <:+: run := by
  induction run with
  | nil => simpa using hseparator
  | cons c run ih =>
    intro hinfix
    rcases List.infix_cons_iff.mp hinfix with hbegins | hinfix
    · exact h.1 (hbegins.trans (List.prefix_append (c :: run) rest))
    · exact ih h.2 hinfix

theorem exists_first (separator text : List Char) :
    NoneBegins separator [] text ∨ ∃ run rest, text = run ++ (separator ++ rest) ∧
      NoneBegins separator (separator ++ rest) run := by
  induction text with
  | nil => exact .inl trivial
  | cons c text ih =>
    by_cases hhere : separator <+: c :: text
    · obtain ⟨rest, hrest⟩ := hhere
      exact .inr ⟨[], rest, hrest.symm, trivial⟩
    · rcases ih with hnone | ⟨run, rest, rfl, hnone⟩
      · exact .inl ⟨by rwa [List.append_nil], hnone⟩
      · exact .inr ⟨c :: run, rest, rfl, hhere, hnone⟩

theorem exists_cut (hseparator : separator ≠ []) (text : List Char) :
    ∃ parts, Cut separator parts text := by
  induction hsize : text.length using Nat.strongRecOn generalizing text with
  | ind size ih =>
    rcases exists_first separator text with hnone | ⟨run, rest, rfl, hnone⟩
    · exact ⟨[text], .last hnone⟩
    · have hshorter : rest.length < size := by
        have hpos := List.length_pos_iff.mpr hseparator
        simp only [List.length_append] at hsize
        omega
      obtain ⟨parts, hparts⟩ := ih rest.length hshorter rest rfl
      exact ⟨run :: parts, .next hnone hparts⟩

theorem intercalate_cons (first : List Char) (hparts : parts ≠ []) :
    intercalate target (first :: parts) = first ++ (target ++ intercalate target parts) := by
  cases parts with
  | nil => exact absurd rfl hparts
  | cons second rest => simp [intercalate]

namespace Cut

theorem ne_nil (h : Cut separator parts text) : parts ≠ [] := by
  cases h with
  | last => exact List.cons_ne_nil _ _
  | next => exact List.cons_ne_nil _ _

theorem intercalate_eq (h : Cut separator parts text) : intercalate separator parts = text := by
  induction h with
  | last => exact List.append_nil _
  | next hnone hparts ih => rw [intercalate_cons _ hparts.ne_nil, ih]

theorem not_infix (h : Cut separator parts text) (hseparator : separator ≠ []) :
    ∀ part ∈ parts, ¬ separator <:+: part := by
  induction h with
  | last hnone => exact List.forall_mem_singleton.mpr (hnone.not_infix hseparator)
  | next hnone hparts ih => exact List.forall_mem_cons.mpr ⟨hnone.not_infix hseparator, ih⟩

end Cut

/-! ### Splitting -/

section Splitting

variable {piece : List Char} {done : List (List Char)}

theorem splitFrom_run (h : NoneBegins separator rest run) :
    splitFrom separator 0 piece done (run ++ rest) =
      splitFrom separator 0 (run.reverse ++ piece) done rest := by
  induction run generalizing piece with
  | nil => rfl
  | cons c run ih =>
    have hhere : separator.isPrefixOf (c :: (run ++ rest)) = false := by
      simpa [← List.isPrefixOf_iff_prefix] using h.1
    rw [List.cons_append, splitFrom, hhere, if_neg Bool.false_ne_true, ih h.2, List.reverse_cons,
      List.append_assoc, List.singleton_append]

theorem splitFrom_skip (skipped : List Char) :
    splitFrom separator skipped.length piece done (skipped ++ rest) =
      splitFrom separator 0 piece done rest := by
  induction skipped with
  | nil => rfl
  | cons c skipped ih => exact ih

theorem splitFrom_separator (hseparator : separator ≠ []) :
    splitFrom separator 0 piece done (separator ++ rest) =
      splitFrom separator 0 [] (piece.reverse :: done) rest := by
  cases separator with
  | nil => exact absurd rfl hseparator
  | cons c more =>
    have hhere : (c :: more).isPrefixOf (c :: (more ++ rest)) = true :=
      List.isPrefixOf_iff_prefix.mpr (List.prefix_append (c :: more) rest)
    rw [List.cons_append, splitFrom, if_pos hhere]
    exact splitFrom_skip more

theorem splitFrom_of_cut (hseparator : separator ≠ []) (h : Cut separator parts text) :
    splitFrom separator 0 [] done text = done.reverse ++ parts := by
  induction h generalizing done with
  | @last run hnone =>
    rw [← List.append_nil run, splitFrom_run hnone, splitFrom, List.append_nil, List.append_nil,
      List.reverse_reverse, List.reverse_cons]
  | next hnone hparts ih =>
    rw [splitFrom_run hnone, splitFrom_separator hseparator, ih, List.append_nil,
      List.reverse_reverse, List.reverse_cons, List.append_assoc, List.singleton_append]

/-- Splitting finds the only cut. -/
theorem cut_iff (hseparator : separator ≠ []) :
    Cut separator parts text ↔ splitOn separator text = parts := by
  refine ⟨fun h => splitFrom_of_cut hseparator h, ?_⟩
  rintro rfl
  obtain ⟨parts, hparts⟩ := exists_cut hseparator text
  rwa [show splitOn separator text = parts from splitFrom_of_cut hseparator hparts]

end Splitting

/-! ### Replacing -/

section Replacing

variable {done : List Char}

theorem replaceFrom_run (h : NoneBegins separator rest run) :
    replaceFrom separator target 0 done (run ++ rest) =
      replaceFrom separator target 0 (run.reverse ++ done) rest := by
  induction run generalizing done with
  | nil => rfl
  | cons c run ih =>
    have hhere : separator.isPrefixOf (c :: (run ++ rest)) = false := by
      simpa [← List.isPrefixOf_iff_prefix] using h.1
    rw [List.cons_append, replaceFrom, hhere, if_neg Bool.false_ne_true, ih h.2,
      List.reverse_cons, List.append_assoc, List.singleton_append]

theorem replaceFrom_skip (skipped : List Char) :
    replaceFrom separator target skipped.length done (skipped ++ rest) =
      replaceFrom separator target 0 done rest := by
  induction skipped with
  | nil => rfl
  | cons c skipped ih => exact ih

theorem replaceFrom_separator (hseparator : separator ≠ []) :
    replaceFrom separator target 0 done (separator ++ rest) =
      replaceFrom separator target 0 (target.reverse ++ done) rest := by
  cases separator with
  | nil => exact absurd rfl hseparator
  | cons c more =>
    have hhere : (c :: more).isPrefixOf (c :: (more ++ rest)) = true :=
      List.isPrefixOf_iff_prefix.mpr (List.prefix_append (c :: more) rest)
    rw [List.cons_append, replaceFrom, if_pos hhere]
    exact replaceFrom_skip more

theorem replaceFrom_of_cut (hseparator : separator ≠ []) (h : Cut separator parts text) :
    replaceFrom separator target 0 done text = done.reverse ++ intercalate target parts := by
  induction h generalizing done with
  | @last run hnone =>
    rw [← List.append_nil run, replaceFrom_run hnone, replaceFrom, List.append_nil,
      List.reverse_append, List.reverse_reverse, intercalate, List.flatMap_nil, List.append_nil]
  | next hnone hparts ih =>
    rw [replaceFrom_run hnone, replaceFrom_separator hseparator, ih,
      intercalate_cons _ hparts.ne_nil, List.reverse_append, List.reverse_append,
      List.reverse_reverse, List.reverse_reverse]
    simp only [List.append_assoc]

theorem replace_of_cut (hseparator : separator ≠ []) (h : Cut separator parts text) :
    replace separator target text = intercalate target parts := by
  rw [replace, if_neg (by simpa using hseparator), replaceFrom_of_cut hseparator h]
  rfl

end Replacing

end LiveDoc.Text
