import LiveDoc.Proofs.Value.Kinds
import Mathlib.Data.List.Nodup

/-!
Values in which no dictionary has a key twice. Storing an item adds a key to a dictionary only if it
is not there.
-/
namespace LiveDoc.Value

variable {v : Value} {entries : List (String × Value)}

/-- A new key is behind the others only if it is not among them. -/
theorem nodup_setEntry {key : String} (h : (entries.map Prod.fst).Nodup) :
    ((setEntry key v entries).map Prod.fst).Nodup := by
  rw [keys_setEntry]
  split
  · exact h
  · rename_i hkey
    exact h.append (List.nodup_singleton key) (List.disjoint_singleton.mpr hkey)

theorem keysDiffer_of_isAtom (hv : v.isAtom = true) : KeysDiffer v :=
  (distinctKeys_of_isAtom hv).whole

theorem closed_keysDiffer : Closed KeysDiffer where
  plain hv := keysDiffer_of_isAtom (isAtom_of_isPlain hv)
  text _ := trivial
  list _ := trivial
  noEntries := List.nodup_nil
  set _ _ _ := trivial
  key _ _ := trivial
  setEntry _ hentries _ := nodup_setEntry hentries

end LiveDoc.Value
