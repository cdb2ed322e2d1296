import LiveDoc.Environment
import Mathlib.Data.List.Nodup
import Mathlib.Data.List.Perm.Basic

/-!
Look-up after binding. A name that is given a value has this value, and the values of all other
names stay as they were. Where no name stands twice, look-up finds each pair, in whatever order they
are.
-/
namespace LiveDoc

theorem Value.lookup_setEntry (key name : String) (v : Value) (entries : List (String × Value)) :
    (setEntry key v entries).lookup name =
      if name = key then some v else entries.lookup name := by
  induction entries with
  | nil =>
    by_cases hname : name = key
    · simp [setEntry, hname]
    · simp [setEntry, hname]
  | cons entry rest ih =>
    obtain ⟨k, old⟩ := entry
    by_cases hkey : k = key
    · subst hkey
      by_cases hname : name = k
      · simp [setEntry, hname]
      · simp [setEntry, List.lookup_cons, beq_eq_false_iff_ne.mpr hname, hname]
    · rw [setEntry, if_neg hkey, List.lookup_cons, List.lookup_cons, ih]
      by_cases hname : name = k
      · have hother : ¬ name = key := by
          rw [hname]
          exact hkey
        simp [hname, hkey]
      · simp [beq_eq_false_iff_ne.mpr hname]

theorem Value.mem_of_lookup {key : String} {v : Value} {entries : List (String × Value)}
    (h : entries.lookup key = some v) : (key, v) ∈ entries := by
  obtain ⟨front, back, rfl, -⟩ := List.lookup_eq_some_iff.mp h
  simp

theorem Value.lookup_eq_none_iff {key : String} {entries : List (String × Value)} :
    entries.lookup key = none ↔ key ∉ entries.map Prod.fst := by
  rw [List.lookup_eq_none_iff]
  constructor
  · intro h hmem
    obtain ⟨entry, hentry, rfl⟩ := List.mem_map.mp hmem
    simpa using h entry hentry
  · intro h entry hentry
    rw [bne_iff_ne]
    rintro rfl
    exact h (List.mem_map_of_mem hentry)

theorem Value.entry_unique {key : String} {v w : Value} {entries : List (String × Value)}
    (hkeys : (entries.map Prod.fst).Nodup) (hv : (key, v) ∈ entries) (hw : (key, w) ∈ entries) :
    v = w := by
  have hsame := List.inj_on_of_nodup_map hkeys hv hw rfl
  exact (Prod.mk.inj hsame).2

theorem Value.lookup_eq_some_iff {key : String} {v : Value} {entries : List (String × Value)}
    (hkeys : (entries.map Prod.fst).Nodup) :
    entries.lookup key = some v ↔ (key, v) ∈ entries := by
  refine ⟨mem_of_lookup, fun hmem => ?_⟩
  cases hfound : entries.lookup key with
  | none => exact absurd (List.mem_map_of_mem hmem) (lookup_eq_none_iff.mp hfound)
  | some w => rw [entry_unique hkeys (mem_of_lookup hfound) hmem]

theorem Value.lookup_of_perm {entries others : List (String × Value)}
    (hperm : entries.Perm others) (hkeys : (entries.map Prod.fst).Nodup) (key : String) :
    entries.lookup key = others.lookup key := by
  have hothers : (others.map Prod.fst).Nodup := (hperm.map Prod.fst).nodup_iff.mp hkeys
  ext v
  rw [lookup_eq_some_iff hkeys, lookup_eq_some_iff hothers, hperm.mem_iff]

namespace Environment

theorem get?_set (env : Environment) (key name : String) (v : Value) :
    (env.set key v).get? name = if name = key then some v else env.get? name := by
  rw [get?, set, Value.lookup_setEntry]
  by_cases hname : name = key
  · simp [hname]
  · simp [hname, get?]

theorem load_eq_ok_iff {env : Environment} {name : String} {v : Value} :
    env.load name = .ok v ↔ env.get? name = some v := by
  rw [load]
  cases env.get? name with
  | none => simp
  | some found => simp

/-- A fragment finds its scope and its place, whatever their names were bound to before. -/
theorem get?_bindUnit (env : Environment) (scope : Scope) (place : String) :
    (env.bindUnit scope place).get? "self" = some (.scope scope) ∧
      (env.bindUnit scope place).get? "__file__" = some (.str place) := by
  constructor
  · rw [bindUnit, get?_set, if_neg (by decide), get?_set, if_pos rfl]
  · rw [bindUnit, get?_set, if_pos rfl]

/-- A fragment finds what was bound before, apart from its scope and its place. -/
theorem load_bindUnit {env : Environment} {scope : Scope} {place name : String}
    (hself : name ≠ "self") (hplace : name ≠ "__file__") :
    (env.bindUnit scope place).load name = env.load name := by
  rw [load, bindUnit, get?_set, if_neg hplace, get?_set, if_neg hself]
  rfl

/-- At first every built-in function is bound to its name. -/
theorem load_initial (f : Builtin) : initial.load f.name = .ok (.builtin f) := by
  cases f <;> rfl

end Environment

end LiveDoc
