import LiveDoc.Value
import Mathlib.Data.List.Basic

/-!
Lists and dictionaries hold other values, and all that lies in a value, however deep, are its parts.
What is asked of a value without regard to its depth is asked of each of its parts.
-/
namespace LiveDoc.Value

/-- Values that hold no others. -/
def isAtom : Value → Bool
  | list _ | dict _ => false
  | nothing | bool _ | int _ | float _ | str _ | scope _ | builtin _ | method _ _ => true

/-- Values that hold neither others nor a text. -/
def isPlain : Value → Bool
  | nothing | bool _ | int _ | float _ => true
  | str _ | list _ | dict _ | scope _ | builtin _ | method _ _ => false

theorem isAtom_of_isPlain {v : Value} (hv : v.isPlain = true) : v.isAtom = true := by
  cases v with
  | list items => exact hv
  | dict entries => exact hv
  | _ => rfl

/-- That `u` lies in a value; it also lies in itself. -/
inductive Part (u : Value) : Value → Prop
  | whole : Part u u
  | item {x : Value} {items : List Value} : x ∈ items → Part u x → Part u (list items)
  | entry {key : String} {x : Value} {entries : List (String × Value)} :
      (key, x) ∈ entries → Part u x → Part u (dict entries)

def Everywhere (P : Value → Prop) (v : Value) : Prop := ∀ u, Part u v → P u

/-- No key stands in front of two entries of one dictionary. -/
def KeysDiffer : Value → Prop
  | dict entries => (entries.map Prod.fst).Nodup
  | _ => True

/-- Values all of whose dictionaries have different keys. -/
def DistinctKeys (v : Value) : Prop := v.Everywhere KeysDiffer

variable {P : Value → Prop} {v : Value} {items : List Value} {entries : List (String × Value)}

theorem Everywhere.whole (h : v.Everywhere P) : P v := h v .whole

theorem everywhere_list_iff :
    (list items).Everywhere P ↔ P (list items) ∧ ∀ x ∈ items, x.Everywhere P := by
  constructor
  · intro h
    exact ⟨h.whole, fun x hx u hu => h u (.item hx hu)⟩
  · intro h u hu
    cases hu with
    | whole => exact h.1
    | item hx hu => exact h.2 _ hx u hu

theorem everywhere_dict_iff :
    (dict entries).Everywhere P ↔
      P (dict entries) ∧ ∀ entry ∈ entries, entry.2.Everywhere P := by
  constructor
  · intro h
    exact ⟨h.whole, fun entry hentry u hu => h u (.entry hentry hu)⟩
  · intro h u hu
    cases hu with
    | whole => exact h.1
    | entry hentry hu => exact h.2 _ hentry u hu

theorem everywhere_of_isAtom (hv : v.isAtom = true) : v.Everywhere P ↔ P v := by
  constructor
  · exact Everywhere.whole
  · intro h u hu
    cases hu with
    | whole => exact h
    | item hx hu => exact absurd hv Bool.false_ne_true
    | entry hx hu => exact absurd hv Bool.false_ne_true

theorem distinctKeys_list_iff :
    (list items).DistinctKeys ↔ ∀ x ∈ items, x.DistinctKeys := by
  refine everywhere_list_iff.trans ⟨And.right, fun h => ⟨trivial, h⟩⟩

theorem distinctKeys_dict_iff :
    (dict entries).DistinctKeys ↔
      (entries.map Prod.fst).Nodup ∧ ∀ entry ∈ entries, entry.2.DistinctKeys :=
  everywhere_dict_iff

theorem distinctKeys_of_isAtom (hv : v.isAtom = true) : v.DistinctKeys := by
  refine (everywhere_of_isAtom hv).mpr ?_
  cases v with
  | dict entries => exact absurd hv Bool.false_ne_true
  | _ => exact trivial

/-- What holds of a value as soon as it holds of all that the value holds itself. -/
@[elab_as_elim]
theorem induction_on_parts {motive : Value → Prop}
    (list : ∀ items, (∀ x ∈ items, motive x) → motive (list items))
    (dict : ∀ entries, (∀ key x, (key, x) ∈ entries → motive x) → motive (dict entries))
    (atom : ∀ v, v.isAtom = true → motive v) : ∀ v, motive v
  | .list items => list items fun x _ => induction_on_parts list dict atom x
  | .dict entries => dict entries fun _ x _ => induction_on_parts list dict atom x
  | .nothing => atom _ rfl
  | .bool _ => atom _ rfl
  | .int _ => atom _ rfl
  | .float _ => atom _ rfl
  | .str _ => atom _ rfl
  | .scope _ => atom _ rfl
  | .builtin _ => atom _ rfl
  | .method _ _ => atom _ rfl
termination_by v => sizeOf v
decreasing_by
  · rename_i hx
    have hsmaller := List.sizeOf_lt_of_mem hx
    simp only [Value.list.sizeOf_spec]
    omega
  · rename_i hx
    have hsmaller := List.sizeOf_lt_of_mem hx
    simp only [Prod.mk.sizeOf_spec] at hsmaller
    simp only [Value.dict.sizeOf_spec]
    omega

end LiveDoc.Value
