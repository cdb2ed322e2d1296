import LiveDoc.Evaluation.Expression
import LiveDoc.Execution.MarkdownWriter
import LiveDoc.Proofs.Text.Occurrences
import Mathlib.Data.List.Forall2

/-!
Splitting, joining and replacing as fragments see them. A string split at a separator has no
separator left in its parts, joined with the separator the parts are the string again, and joined
with another string they are what replacing the separator by that string gives.
-/
namespace LiveDoc

open Evaluation Fragment

variable {σ : Type} {h : Host σ} {env : Environment}

namespace StringMethod

theorem ofName?_name (m : StringMethod) : ofName? m.name = some m := by
  cases m <;> rfl

theorem pieces_ofChars (place : Nat) (texts : List (List Char)) :
    pieces place (texts.map ofChars) = .ok texts := by
  induction texts generalizing place with
  | nil => rfl
  | cons text rest ih =>
    rw [List.map_cons, ofChars, pieces, ih, String.toList_ofList]
    rfl

theorem apply_split (s : String) {separator : String} (hseparator : separator ≠ "") :
    split.apply s [.str separator] = .ok (strings (Text.splitOn separator.toList s.toList)) := by
  obtain ⟨c, more, hcons⟩ := List.exists_cons_of_ne_nil (mt String.toList_eq_nil_iff.mp hseparator)
  simp [apply, optionalText, textArgument, splitAt, hcons]
  rfl

theorem apply_join (separator : String) (texts : List (List Char)) :
    join.apply separator [strings texts] =
      .ok (ofChars (Text.intercalate separator.toList texts)) := by
  simp only [apply, joined, strings, Value.visited, bind, Except.bind, pieces_ofChars]
  rfl

theorem apply_replace (s separator target : String) :
    replace.apply s [.str separator, .str target] =
      .ok (ofChars (Text.replace separator.toList target.toList s.toList)) := rfl

end StringMethod

/-- A call of a string method, as in `object.method(args)`. -/
def Fragment.Expr.methodCall (object : Expr) (m : StringMethod) (args : List Expr) : Expr :=
  .call (.attribute object m.name) args []

theorem evalItems_of_pure {args : List Expr} {values : List Value}
    (hargs : List.Forall₂ (fun e v => e.eval h env = pure v) args values) :
    evalItems h env args = pure values := by
  induction hargs with
  | nil => rfl
  | cons hfirst hrest ih => rw [evalItems, hfirst, ih, pure_bind, pure_bind]

theorem eval_methodCall {object : Expr} {m : StringMethod} {args : List Expr} {s : String}
    {values : List Value} {v : Value} (hobject : object.eval h env = pure (.str s))
    (hargs : List.Forall₂ (fun e v => e.eval h env = pure v) args values)
    (hvalue : m.apply s values = .ok v) : (object.methodCall m args).eval h env = pure v := by
  have hmethod : Value.attributeOf (.str s) m.name = .ok (.method s m) := by
    simp [Value.attributeOf, StringMethod.ofName?_name]
  have hcall : (Value.method s m).call h ⟨values, []⟩ = pure v := by
    simp only [Value.call, StringMethod.call, hvalue]
    rfl
  rw [Expr.methodCall, Expr.eval, Expr.eval, hobject, pure_bind, hmethod,
    evalItems_of_pure hargs]
  exact hcall

/-- For all strings and every separator but the empty one, whatever expressions they come from. -/
theorem eval_split_join_replace {text separator target : Expr} {s sep t : String}
    (htext : text.eval h env = pure (.str s))
    (hseparator : separator.eval h env = pure (.str sep))
    (htarget : target.eval h env = pure (.str t)) (hsep : sep ≠ "") :
    let split := text.methodCall .split [separator]
    (∃ parts : List (List Char), split.eval h env = pure (StringMethod.strings parts) ∧
      Text.Cut sep.toList parts s.toList ∧ ∀ part ∈ parts, ¬ sep.toList <:+: part) ∧
    (separator.methodCall .join [split]).eval h env = pure (.str s) ∧
    ∃ replaced : String,
      (text.methodCall .replace [separator, target]).eval h env = pure (.str replaced) ∧
      (target.methodCall .join [split]).eval h env = pure (.str replaced) := by
  intro split
  have hnonempty : sep.toList ≠ [] := mt String.toList_eq_nil_iff.mp hsep
  have hcut := (Text.cut_iff hnonempty).mpr (rfl : Text.splitOn sep.toList s.toList = _)
  have hsplit : split.eval h env =
      pure (StringMethod.strings (Text.splitOn sep.toList s.toList)) :=
    eval_methodCall htext (.cons hseparator .nil) (StringMethod.apply_split s hsep)
  refine ⟨⟨_, hsplit, hcut, hcut.not_infix hnonempty⟩, ?_,
    String.ofList (Text.replace sep.toList t.toList s.toList), ?_, ?_⟩
  · rw [eval_methodCall hseparator (.cons hsplit .nil) (StringMethod.apply_join sep _),
      hcut.intercalate_eq, StringMethod.ofChars, String.ofList_toList]
  · exact eval_methodCall htext (.cons hseparator (.cons htarget .nil))
      (StringMethod.apply_replace s sep t)
  · rw [Text.replace_of_cut hnonempty hcut]
    exact eval_methodCall htarget (.cons hsplit .nil) (StringMethod.apply_join t _)

/-- A separator that overlaps itself and stands at both ends, and a character of two bytes. -/
def overlapping : Environment := ⟨[("s", .str "aaaéaaaa"), ("sep", .str "aa"), ("t", .str "-")], []⟩

theorem eval_split_of_overlapping :
    let s : Expr := .name "s"
    let sep : Expr := .name "sep"
    let t : Expr := .name "t"
    let h : Host (MarkdownWriter TextSink) := MarkdownWriter.host TextSink.put .halt
    s.eval h overlapping = pure (.str "aaaéaaaa") ∧ sep.eval h overlapping = pure (.str "aa") ∧
      t.eval h overlapping = pure (.str "-") ∧ "aa" ≠ "" ∧
      (s.methodCall .split [sep]).eval h overlapping =
        pure (.list [.str "", .str "aé", .str "", .str ""]) ∧
      (sep.methodCall .join [s.methodCall .split [sep]]).eval h overlapping =
        pure (.str "aaaéaaaa") ∧
      ∃ replaced : String,
        (s.methodCall .replace [sep, t]).eval h overlapping = pure (.str replaced) ∧
        (t.methodCall .join [s.methodCall .split [sep]]).eval h overlapping =
          pure (.str replaced) := by
  intro s sep t h
  have hs : s.eval h overlapping = pure (.str "aaaéaaaa") := rfl
  have hsep : sep.eval h overlapping = pure (.str "aa") := rfl
  have ht : t.eval h overlapping = pure (.str "-") := rfl
  have hnonempty : "aa" ≠ "" := by decide
  obtain ⟨-, hjoined, hreplaced⟩ := eval_split_join_replace hs hsep ht hnonempty
  exact ⟨hs, hsep, ht, hnonempty, rfl, hjoined, hreplaced⟩

end LiveDoc
