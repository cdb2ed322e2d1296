import LiveDoc.Proofs.Environment

/-!
Items stored and read. An index denotes a slot of its container: a place of a list, counted from the
front or from the end, or a key of a dictionary. What is stored under an index is read under each
index of the same slot, and all others read what they read before.
-/
namespace LiveDoc

namespace Value

/-- Where a list or a dictionary holds an item. -/
inductive Slot where
  | place (k : Nat)
  | key (s : String)
deriving DecidableEq, Repr

/-- Places are counted from zero at the front and from minus one at the end. -/
def counted? (length : Nat) : Int → Option Nat
  | .ofNat k => if k < length then some k else none
  | .negSucc k => if k < length then some (length - 1 - k) else none

/-- The slot that an index denotes. -/
def slot? : Value → Value → Option Slot
  | list items, index => (index.toInt?.bind (counted? items.length)).map .place
  | dict _, str key => some (.key key)
  | _, _ => none

/-- The value `after` is the container with `v` stored in the slot of an index. -/
structure Stored (container index v after : Value) : Prop where
  read : ∀ same, container.slot? same = container.slot? index → after.item same = .ok v
  others : ∀ other, container.slot? other ≠ container.slot? index →
    after.item other = container.item other
  list : ∀ items, container = list items →
    ∃ items', after = .list items' ∧ items'.length = items.length
  dict : ∀ entries, container = dict entries →
    ∃ key entries', index = str key ∧ after = .dict entries' ∧
      entries'.map Prod.fst =
        if key ∈ entries.map Prod.fst then entries.map Prod.fst
        else entries.map Prod.fst ++ [key]

variable {items : List Value} {entries : List (String × Value)} {container index v after : Value}
  {k : Nat}

/-! ### Lists -/

theorem place?_eq_counted? (length : Nat) (i : Int) : place? length i = counted? length i := by
  unfold place?
  cases i with
  | ofNat k =>
    have hsign : ¬ Int.ofNat k < 0 := Int.not_lt.mpr (Int.natCast_nonneg k)
    rw [if_neg hsign, counted?]
    by_cases hk : k < length
    · simp [hk]
    · simp [hk]
  | negSucc k =>
    rw [if_pos (Int.negSucc_lt_zero k), counted?]
    by_cases hk : k < length
    · have hplace : (Int.negSucc k + length).toNat = length - 1 - k := by omega
      have hinside : 0 ≤ Int.negSucc k + length ∧ Int.negSucc k + length < length := by omega
      simp [hk, hplace, hinside]
    · have hbefore : ¬ 0 ≤ Int.negSucc k + length := by omega
      simp [hk, hbefore]

theorem counted?_lt {length : Nat} {i : Int} (h : counted? length i = some k) : k < length := by
  cases i with
  | ofNat j =>
    simp only [counted?, Option.ite_none_right_eq_some, Option.some_inj] at h
    omega
  | negSucc j =>
    simp only [counted?, Option.ite_none_right_eq_some, Option.some_inj] at h
    omega

theorem slot?_list_eq_some_iff : (list items).slot? index = some (.place k) ↔
    ∃ i, index.toInt? = some i ∧ place? items.length i = some k := by
  simp [slot?, place?_eq_counted?, Option.bind_eq_some_iff]

theorem slot?_list_eq_none_iff : (list items).slot? index = none ↔
    ∀ i, index.toInt? = some i → place? items.length i = none := by
  simp [slot?, place?_eq_counted?, Option.bind_eq_none_iff]

/-- The slots of a list are the places of its items. -/
theorem lt_of_slot?_list {slot : Slot} (h : (list items).slot? index = some slot) :
    ∃ k < items.length, slot = .place k := by
  obtain ⟨k, hk, rfl⟩ := Option.map_eq_some_iff.mp h
  obtain ⟨i, -, hi⟩ := Option.bind_eq_some_iff.mp hk
  exact ⟨k, counted?_lt hi, rfl⟩

theorem item_of_slot (hslot : (list items).slot? index = some (.place k))
    (hv : items[k]? = some v) : (list items).item index = .ok v := by
  obtain ⟨i, hi, hplace⟩ := slot?_list_eq_some_iff.mp hslot
  simp [item, itemAt, toPosition, hi, hplace, hv, bind, Except.bind]

/-- Why no item is read under an index that denotes no place. -/
def noPlace (index : Value) : Fault :=
  match index.toInt? with
  | some _ => .outOfRange .list
  | none => .badPosition .list index.kind

theorem item_of_no_slot (hslot : (list items).slot? index = none) :
    (list items).item index = .error (noPlace index) := by
  have hplace := slot?_list_eq_none_iff.mp hslot
  cases hi : index.toInt? with
  | none => simp [item, itemAt, toPosition, hi, noPlace, bind, Except.bind, kind]
  | some i =>
    simp [item, itemAt, toPosition, hi, noPlace, hplace i hi, bind, Except.bind, kind]

theorem setItem_of_slot (hslot : (list items).slot? index = some (.place k)) (v : Value) :
    (list items).setItem index v = .ok (list (items.set k v)) := by
  obtain ⟨i, hi, hplace⟩ := slot?_list_eq_some_iff.mp hslot
  simp [setItem, toPosition, hi, hplace, bind, Except.bind]

theorem setItem_of_no_slot (hslot : (list items).slot? index = none) (v : Value) :
    ∃ fault, (list items).setItem index v = .error fault := by
  have hplace := slot?_list_eq_none_iff.mp hslot
  cases hi : index.toInt? with
  | none => simp [setItem, toPosition, hi, bind, Except.bind]
  | some i => simp [setItem, toPosition, hi, hplace i hi, bind, Except.bind]

/-- On a list, an item can be stored exactly where one can be read. -/
theorem isOk_setItem_list (items : List Value) (index v : Value) :
    ((list items).setItem index v).isOk = ((list items).item index).isOk := by
  cases hslot : (list items).slot? index with
  | none =>
    obtain ⟨fault, hset⟩ := setItem_of_no_slot hslot v
    rw [hset, item_of_no_slot hslot]
    rfl
  | some slot =>
    obtain ⟨k, hk, rfl⟩ := lt_of_slot?_list hslot
    rw [setItem_of_slot hslot, item_of_slot hslot (List.getElem?_eq_getElem hk)]
    rfl

theorem stored_list (h : (list items).setItem index v = .ok after) :
    Stored (.list items) index v after := by
  cases hslot : (list items).slot? index with
  | none =>
    obtain ⟨fault, hset⟩ := setItem_of_no_slot hslot v
    rw [hset] at h
    cases h
  | some slot =>
    obtain ⟨k, hk, rfl⟩ := lt_of_slot?_list hslot
    rw [setItem_of_slot hslot] at h
    obtain rfl := Except.ok.inj h
    have hlength : (items.set k v).length = items.length := List.length_set
    -- the same index denotes the same slot as before, for the list is as long as before
    have hslots (other : Value) :
        (Value.list (items.set k v)).slot? other = (Value.list items).slot? other := by
      rw [slot?, slot?, hlength]
    constructor
    · intro same hsame
      exact item_of_slot ((hslots same).trans (hsame.trans hslot)) (by simp [hk])
    · intro other hother
      cases hfound : (list items).slot? other with
      | none => rw [item_of_no_slot hfound, item_of_no_slot ((hslots other).trans hfound)]
      | some slot =>
        obtain ⟨j, hj, rfl⟩ := lt_of_slot?_list hfound
        have hne : k ≠ j := by
          rintro rfl
          exact hother (hfound.trans hslot.symm)
        have hsame : (items.set k v)[j]? = items[j]? := List.getElem?_set_ne hne
        have hitem := List.getElem?_eq_getElem hj
        rw [item_of_slot hfound hitem]
        exact item_of_slot ((hslots other).trans hfound) (hsame.trans hitem)
    · rintro items' ⟨rfl⟩
      exact ⟨_, rfl, hlength⟩
    · rintro entries ⟨⟩

/-! ### Dictionaries -/

theorem keys_setEntry (key : String) (v : Value) (entries : List (String × Value)) :
    (setEntry key v entries).map Prod.fst =
      if key ∈ entries.map Prod.fst then entries.map Prod.fst
      else entries.map Prod.fst ++ [key] := by
  induction entries with
  | nil => rfl
  | cons entry rest ih =>
    obtain ⟨k, old⟩ := entry
    rw [setEntry]
    by_cases hkey : k = key
    · simp [hkey]
    · rw [if_neg hkey, List.map_cons, ih]
      by_cases hrest : key ∈ rest.map Prod.fst
      · simp [hrest]
      · simp [hrest, Ne.symm hkey]

/-- In a dictionary, an item can be stored under every string and under nothing else. -/
theorem isOk_setItem_dict (entries : List (String × Value)) (index v : Value) :
    ((dict entries).setItem index v).isOk = true ↔ ∃ key, index = str key := by
  cases index with
  | str key => exact ⟨fun _ => ⟨key, rfl⟩, fun _ => rfl⟩
  | _ => simp [setItem, Except.isOk, Except.toBool]

theorem stored_dict (h : (dict entries).setItem index v = .ok after) :
    Stored (.dict entries) index v after := by
  cases index with
  | str key =>
    obtain rfl := Except.ok.inj h
    constructor
    · intro same hsame
      cases same with
      | str name =>
        obtain rfl : name = key := by simpa [slot?] using hsame
        simp [item, lookup_setEntry]
      | _ => cases hsame
    · intro other hother
      cases other with
      | str name =>
        have hname : name ≠ key := by
          rintro rfl
          exact hother rfl
        simp [item, lookup_setEntry, hname]
      | _ => rfl
    · rintro items ⟨⟩
    · rintro entries' ⟨rfl⟩
      exact ⟨key, _, rfl, rfl, keys_setEntry key v entries⟩
  | _ => cases h

theorem stored_of_setItem (h : container.setItem index v = .ok after) :
    Stored container index v after := by
  cases container with
  | list items => exact stored_list h
  | dict entries => exact stored_dict h
  | _ => cases h

end Value

end LiveDoc
