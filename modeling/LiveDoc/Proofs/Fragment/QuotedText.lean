import LiveDoc.Fragment.Quoted

/-!
Texts in quotes. A text is quoted by writing each of its characters in turn, some of them with a
backslash. If every character that is so written is read without ending the literal, the literal
ends at the closing quote and has the body that the characters give.
-/
namespace LiveDoc.Fragment

variable {keepEscapes : Bool} {quote : Char} {write kept : Char → List Char} {rest : List Char}

/-- A character that is not special in a literal stands for itself. -/
theorem readBody_plain {q : Quoting} {before : Body} {c : Char} (hbackslash : c ≠ '\\')
    (hline : c ≠ '\n') (hends : q.endsAt (c :: rest) = false) :
    readBody keepEscapes q before (c :: rest) =
      readBody keepEscapes q ⟨c :: before.text, before.size + 1, before.newlines⟩ rest := by
  simp [readBody, hbackslash, hline, hends]

theorem endsAt_quote (quote : Char) (rest : List Char) :
    Quoting.endsAt ⟨quote, false⟩ (quote :: rest) = true := by
  simp [Quoting.endsAt, Quoting.width, List.isPrefixOf]

theorem endsAt_of_ne {c : Char} (hc : c ≠ quote) (rest : List Char) :
    Quoting.endsAt ⟨quote, false⟩ (c :: rest) = false := by
  simpa [Quoting.endsAt, Quoting.width, List.isPrefixOf] using Ne.symm hc

/-- Inside a literal the characters `written` are passed over, and they give `kept`. -/
def PassedOver (keepEscapes : Bool) (quote : Char) (written kept : List Char) : Prop :=
  ∀ (before : Body) (rest : List Char),
    readBody keepEscapes ⟨quote, false⟩ before (written ++ rest) =
      readBody keepEscapes ⟨quote, false⟩
        ⟨kept.reverse ++ before.text, before.size + written.length, before.newlines⟩ rest

namespace PassedOver

variable {written kept others more : List Char}

theorem nil (keepEscapes : Bool) (quote : Char) : PassedOver keepEscapes quote [] [] :=
  fun _ _ => rfl

theorem append (h : PassedOver keepEscapes quote written kept)
    (hothers : PassedOver keepEscapes quote others more) :
    PassedOver keepEscapes quote (written ++ others) (kept ++ more) := by
  intro before rest
  rw [List.append_assoc, h, hothers]
  simp [Nat.add_assoc]

theorem flatMap {α : Type} {write keep : α → List Char} {items : List α}
    (h : ∀ a ∈ items, PassedOver keepEscapes quote (write a) (keep a)) :
    PassedOver keepEscapes quote (items.flatMap write) (items.flatMap keep) := by
  induction items with
  | nil => exact nil keepEscapes quote
  | cons a rest ih =>
    obtain ⟨ha, hrest⟩ := List.forall_mem_cons.mp h
    exact ha.append (ih hrest)

/-- A character that is not special in a literal stands for itself. -/
theorem plain {c : Char} (hbackslash : c ≠ '\\') (hline : c ≠ '\n') (hquote : c ≠ quote) :
    PassedOver keepEscapes quote [c] [c] := fun _ rest =>
  readBody_plain hbackslash hline (endsAt_of_ne hquote rest)

/-- The literal ends at the quote behind the characters. It is not a long one: another character
than a quote stands behind its first quote, or no third quote stands behind the two of an empty
literal. -/
theorem readQuoted (h : PassedOver keepEscapes quote written kept)
    (hspecial : quote ≠ '\\' ∧ quote ≠ '\n') (hfirst : ∀ c ∈ written.head?, c ≠ quote)
    (hrest : ∀ c ∈ rest.head?, c ≠ quote) :
    readQuoted keepEscapes quote (written ++ quote :: rest) =
      .ok ⟨kept, written.length + 1, 0⟩ := by
  have hquoting : Quoting.of quote (written ++ quote :: rest) = ⟨quote, false⟩ := by
    cases written with
    | nil =>
      cases rest with
      | nil => simp [Quoting.of, List.isPrefixOf]
      | cons c rest => simp [Quoting.of, List.isPrefixOf, Ne.symm (hrest c rfl)]
    | cons c others => simp [Quoting.of, List.isPrefixOf, Ne.symm (hfirst c rfl)]
  obtain ⟨hbackslash, hline⟩ := hspecial
  rw [Fragment.readQuoted, hquoting]
  change readBody keepEscapes ⟨quote, false⟩ ⟨[], 0, 0⟩ (written ++ quote :: rest) = _
  rw [h]
  simp [readBody, hbackslash, hline, endsAt_quote, Quoting.width]

end PassedOver

/-- Characters can be written with `write` in a literal, which then has what `kept` gives. -/
structure Quotable (keepEscapes : Bool) (quote : Char) (write kept : Char → List Char) : Prop where
  special : quote ≠ '\\' ∧ quote ≠ '\n'
  first : ∀ c, ∀ d ∈ (write c).head?, d ≠ quote
  reads : ∀ c, PassedOver keepEscapes quote (write c) (kept c)

theorem head_flatMap_ne {α : Type} {items : List α} {write : α → List Char}
    (h : ∀ a ∈ items, ∀ c ∈ (write a).head?, c ≠ quote) :
    ∀ c ∈ (items.flatMap write).head?, c ≠ quote := by
  induction items with
  | nil => simp
  | cons a rest ih =>
    obtain ⟨ha, hrest⟩ := List.forall_mem_cons.mp h
    intro c hc
    rw [List.flatMap_cons, List.head?_append, Option.mem_def, Option.or_eq_some_iff] at hc
    rcases hc with hc | ⟨-, hc⟩
    · exact ha c hc
    · exact ih hrest c hc

theorem Quotable.readQuoted (h : Quotable keepEscapes quote write kept) (text : List Char)
    (hrest : ∀ c ∈ rest.head?, c ≠ quote) :
    readQuoted keepEscapes quote (text.flatMap write ++ quote :: rest) =
      .ok ⟨text.flatMap kept, (text.flatMap write).length + 1, 0⟩ :=
  (PassedOver.flatMap fun c _ => h.reads c).readQuoted h.special
    (head_flatMap_ne fun c _ => h.first c) hrest

end LiveDoc.Fragment
