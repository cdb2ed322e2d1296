import LiveDoc.Proofs.Environment
import LiveDoc.Proofs.Evaluation.IntegerOrder
import LiveDoc.Proofs.Value.Parts
import Mathlib.Data.List.Forall2
import Mathlib.Data.List.Perm.Subperm

/-!
Which values are equal. Without floating-point numbers equality is an equivalence: numbers are
equal when they are the same integer, truth values as one and zero; lists item by item; and
dictionaries, in which no key comes twice, when they have the same keys with equal values. Any other
value is equal to itself alone.
-/
namespace LiveDoc.Value

open Binary64

/-- A value other than a floating-point number as the language can hold it: integers have 64 bits,
and the keys of a dictionary differ. -/
def IsExact : Value → Prop
  | float _ => False
  | int n => Integer64.fits n = true
  | v => v.KeysDiffer

/-- Values built without floating-point numbers. -/
def FloatFree (v : Value) : Prop := v.Everywhere IsExact

variable {a b : Int} {u v w : Value} {xs ys : List Value} {es fs : List (String × Value)}

/-! ### Values that hold no others -/

theorem ofInt_beq_iff (ha : Integer64.fits a = true) (hb : Integer64.fits b = true) :
    (Float.ofInt a == Float.ofInt b) = true ↔ nearest a = nearest b := by
  have hsmall := Integer64.natAbs_le_of_fits ha
  have hsmall' := Integer64.natAbs_le_of_fits hb
  have hleft := standsFor_ofInt (a := a) (by omega)
  have hright := standsFor_ofInt (a := b) (by omega)
  rw [float_beq_iff, hleft.compare_eq hright, Option.some_inj, compare_eq_iff_eq]

/-- A truth value and an integer are compared as floating-point numbers, which tells zero and one
from all other integers. -/
theorem equal_bool_int (c : Bool) (ha : Integer64.fits a = true) :
    ((bool c).equal (int a) = true ↔ (bool c).toInt? = some a) ∧
      ((int a).equal (bool c) = true ↔ (bool c).toInt? = some a) := by
  have hbit : Integer64.fits (if c then 1 else 0) = true := by
    cases c
    · rfl
    · rfl
  have hsmall : (if c then 1 else 0 : Int).natAbs < 2 ^ 53 := by
    cases c
    · decide
    · decide
  have hapart := nearest_eq_iff (a := a) hsmall
  have hforth : (bool c).equal (int a) = (Float.ofInt (if c then 1 else 0) == Float.ofInt a) := by
    simp [equal, equalNumbers, toFloat?, toInt?]
  have hback : (int a).equal (bool c) = (Float.ofInt a == Float.ofInt (if c then 1 else 0)) := by
    simp [equal, equalNumbers, toFloat?, toInt?]
  rw [toInt?, Option.some_inj, eq_comm (b := a), ← hapart]
  constructor
  · rw [hforth, ofInt_beq_iff hbit ha, eq_comm]
  · rw [hback, ofInt_beq_iff ha hbit]

theorem equal_of_toInt? (hv : v.IsExact) (hw : w.IsExact) (ha : v.toInt? = some a) :
    v.equal w = true ↔ w.toInt? = some a := by
  cases v with
  | int m =>
    obtain rfl := Option.some_inj.mp ha
    cases w with
    | int n => rw [equal_int, decide_eq_true_iff, toInt?, Option.some_inj, eq_comm]
    | bool c => exact (equal_bool_int c hv).2
    | float x => exact hw.elim
    | _ => simp [equal, equalNumbers, toFloat?, toInt?]
  | bool b =>
    obtain rfl := Option.some_inj.mp ha
    cases w with
    | int n =>
      rw [(equal_bool_int b hw).1, toInt?, toInt?, Option.some_inj, Option.some_inj, eq_comm]
    | bool c => cases b <;> cases c <;> decide
    | float x => exact hw.elim
    | _ => simp [equal, equalNumbers, toFloat?, toInt?]
  | _ => cases ha

theorem equal_of_not_number (hv : v.IsExact) (hatom : v.isAtom = true) (hnumber : v.toInt? = none) :
    v.equal w = true ↔ v = w := by
  cases v with
  | bool b => cases hnumber
  | int n => cases hnumber
  | float x => exact hv.elim
  | list items => cases hatom
  | dict entries => cases hatom
  | _ => cases w <;> simp [equal, equalNumbers, toFloat?, toInt?]

/-- Values that hold no others are equal if they are the same or stand for the same integer. -/
theorem equal_atom_iff (hv : v.IsExact) (hw : w.IsExact) (hatom : v.isAtom = true) :
    v.equal w = true ↔ v = w ∨ ∃ n, v.toInt? = some n ∧ w.toInt? = some n := by
  cases hnumber : v.toInt? with
  | none => simp [equal_of_not_number hv hatom hnumber]
  | some a =>
    rw [equal_of_toInt? hv hw hnumber]
    constructor
    · intro hsame
      exact .inr ⟨a, rfl, hsame⟩
    · intro h
      rcases h with rfl | ⟨n, hn, hsame⟩
      · exact hnumber
      · rw [hsame, hn]

/-! ### Lists and dictionaries -/

theorem equalItems_iff :
    equalItems xs ys = true ↔ List.Forall₂ (fun x y => x.equal y = true) xs ys := by
  induction xs generalizing ys with
  | nil => cases ys <;> simp [equalItems]
  | cons x xs ih => cases ys <;> simp [equalItems, ih]

theorem entriesWithin_iff : entriesWithin fs es = true ↔
    ∀ key v, (key, v) ∈ es → ∃ w, (key, w) ∈ fs ∧ v.equal w = true := by
  induction es with
  | nil => simp [entriesWithin]
  | cons entry es ih =>
    obtain ⟨key, v⟩ := entry
    have hfirst : (fs.any fun other => key == other.1 && v.equal other.2) = true ↔
        ∃ w, (key, w) ∈ fs ∧ v.equal w = true := by
      rw [List.any_eq_true]
      constructor
      · rintro ⟨⟨key', w⟩, hw, hsame⟩
        obtain ⟨hkey, hequal⟩ := Bool.and_eq_true_iff.mp hsame
        obtain rfl := beq_iff_eq.mp hkey
        exact ⟨w, hw, hequal⟩
      · rintro ⟨w, hw, hequal⟩
        exact ⟨(key, w), hw, by rw [beq_self_eq_true, hequal, Bool.and_self]⟩
    rw [entriesWithin, Bool.and_eq_true, hfirst, ih]
    constructor
    · intro h key' v' hmem
      rcases List.mem_cons.mp hmem with heq | hrest
      · obtain ⟨rfl, rfl⟩ := Prod.mk.inj heq
        exact h.1
      · exact h.2 key' v' hrest
    · intro h
      exact ⟨h key v List.mem_cons_self, fun key' v' hrest => h key' v' (.tail _ hrest)⟩

theorem equal_list_iff : (list xs).equal w = true ↔
    ∃ ys, w = list ys ∧ List.Forall₂ (fun x y => x.equal y = true) xs ys := by
  cases w with
  | list ys => simp [equal, equalItems_iff]
  | _ => simp [equal, equalNumbers, toFloat?, toInt?]

theorem equal_dict_iff : (dict es).equal w = true ↔
    ∃ fs, w = dict fs ∧ es.length = fs.length ∧
      ∀ key v, (key, v) ∈ es → ∃ w, (key, w) ∈ fs ∧ v.equal w = true := by
  cases w with
  | dict fs => simp [equal, entriesWithin_iff]
  | _ => simp [equal, equalNumbers, toFloat?, toInt?]

theorem exists_entry_iff {key : String} : (∃ v, (key, v) ∈ es) ↔ key ∈ es.map Prod.fst := by
  simp

/-- Equally many different keys, all of which are among those of another dictionary, are all keys of
that one. -/
theorem equal_dict_of_keys (hes : (es.map Prod.fst).Nodup) (hfs : (fs.map Prod.fst).Nodup) :
    (dict es).equal (dict fs) = true ↔
      (∀ key, key ∈ es.map Prod.fst ↔ key ∈ fs.map Prod.fst) ∧
        ∀ key v w, (key, v) ∈ es → (key, w) ∈ fs → v.equal w = true := by
  rw [equal_dict_iff]
  constructor
  · rintro ⟨fs, ⟨rfl⟩, hlength, hwithin⟩
    have hsubset : es.map Prod.fst ⊆ fs.map Prod.fst := by
      intro key hkey
      obtain ⟨v, hv⟩ := exists_entry_iff.mpr hkey
      obtain ⟨w, hw, -⟩ := hwithin key v hv
      exact exists_entry_iff.mp ⟨w, hw⟩
    have hperm : (es.map Prod.fst).Perm (fs.map Prod.fst) := by
      apply (List.subperm_of_subset hes hsubset).perm_of_length_le
      rw [List.length_map, List.length_map, hlength]
    refine ⟨fun key => hperm.mem_iff, ?_⟩
    intro key v w hv hw
    obtain ⟨w', hw', hequal⟩ := hwithin key v hv
    rwa [entry_unique hfs hw hw']
  · rintro ⟨hkeys, hvalues⟩
    have hperm := (List.perm_ext_iff_of_nodup hes hfs).mpr hkeys
    refine ⟨fs, rfl, by simpa using hperm.length_eq, ?_⟩
    intro key v hv
    obtain ⟨w, hw⟩ := exists_entry_iff.mpr ((hkeys key).mp (exists_entry_iff.mp ⟨v, hv⟩))
    exact ⟨w, hw, hvalues key v w hv hw⟩

/-! ### Equality as an equivalence -/

theorem FloatFree.item (h : (list xs).FloatFree) {x : Value} (hx : x ∈ xs) : x.FloatFree :=
  (everywhere_list_iff.mp h).2 x hx

theorem FloatFree.entry (h : (dict es).FloatFree) {key : String} (hv : (key, v) ∈ es) :
    v.FloatFree :=
  (everywhere_dict_iff.mp h).2 (key, v) hv

theorem FloatFree.keys (h : (dict es).FloatFree) : (es.map Prod.fst).Nodup := h.whole

theorem isAtom_of_toInt? (h : v.toInt? = some a) : v.isAtom = true := by
  cases v with
  | list xs => cases h
  | dict es => cases h
  | _ => rfl

theorem equal_self (hv : v.FloatFree) : v.equal v = true := by
  induction v using induction_on_parts with
  | list xs ih =>
    exact equal_list_iff.mpr ⟨xs, rfl, List.forall₂_same.mpr fun x hx => ih x hx (hv.item hx)⟩
  | dict es ih =>
    refine (equal_dict_of_keys hv.keys hv.keys).mpr ⟨fun key => Iff.rfl, ?_⟩
    intro key v w hx hx'
    obtain rfl := entry_unique hv.keys hx hx'
    exact ih key v hx (hv.entry hx)
  | atom v hatom => exact (equal_atom_iff hv.whole hv.whole hatom).mpr (.inl rfl)

theorem equal_symm (hv : v.FloatFree) (hw : w.FloatFree) (h : v.equal w = true) :
    w.equal v = true := by
  induction v using induction_on_parts generalizing w with
  | list xs ih =>
    obtain ⟨ys, rfl, hitems⟩ := equal_list_iff.mp h
    refine equal_list_iff.mpr ⟨xs, rfl, ?_⟩
    rw [List.forall₂_iff_get] at hitems ⊢
    refine ⟨hitems.1.symm, fun i hy hx => ?_⟩
    have hmem := List.get_mem xs ⟨i, hx⟩
    exact ih _ hmem (hv.item hmem) (hw.item (List.get_mem ys ⟨i, hy⟩)) (hitems.2 i hx hy)
  | dict es ih =>
    obtain ⟨fs, rfl, -⟩ := equal_dict_iff.mp h
    obtain ⟨hkeys, hvalues⟩ := (equal_dict_of_keys hv.keys hw.keys).mp h
    refine (equal_dict_of_keys hw.keys hv.keys).mpr ⟨fun key => (hkeys key).symm, ?_⟩
    intro key y x hy hx
    exact ih key x hx (hv.entry hx) (hw.entry hy) (hvalues key x y hx hy)
  | atom v hatom =>
    rcases (equal_atom_iff hv.whole hw.whole hatom).mp h with rfl | ⟨n, hn, hn'⟩
    · exact h
    · exact (equal_atom_iff hw.whole hv.whole (isAtom_of_toInt? hn')).mpr (.inr ⟨n, hn', hn⟩)

theorem equal_trans (hu : u.FloatFree) (hv : v.FloatFree) (hw : w.FloatFree)
    (h : u.equal v = true) (h' : v.equal w = true) : u.equal w = true := by
  induction u using induction_on_parts generalizing v w with
  | list xs ih =>
    obtain ⟨ys, rfl, hitems⟩ := equal_list_iff.mp h
    obtain ⟨zs, rfl, hitems'⟩ := equal_list_iff.mp h'
    refine equal_list_iff.mpr ⟨zs, rfl, ?_⟩
    rw [List.forall₂_iff_get] at hitems hitems' ⊢
    refine ⟨hitems.1.trans hitems'.1, fun i hx hz => ?_⟩
    have hy : i < ys.length := hitems.1 ▸ hx
    have hmem := List.get_mem xs ⟨i, hx⟩
    exact ih _ hmem (hu.item hmem) (hv.item (List.get_mem ys ⟨i, hy⟩))
      (hw.item (List.get_mem zs ⟨i, hz⟩)) (hitems.2 i hx hy) (hitems'.2 i hy hz)
  | dict es ih =>
    obtain ⟨fs, rfl, -⟩ := equal_dict_iff.mp h
    obtain ⟨gs, rfl, -⟩ := equal_dict_iff.mp h'
    obtain ⟨hkeys, hvalues⟩ := (equal_dict_of_keys hu.keys hv.keys).mp h
    obtain ⟨hkeys', hvalues'⟩ := (equal_dict_of_keys hv.keys hw.keys).mp h'
    refine (equal_dict_of_keys hu.keys hw.keys).mpr ⟨fun key => (hkeys key).trans (hkeys' key), ?_⟩
    intro key x z hx hz
    obtain ⟨y, hy⟩ := exists_entry_iff.mpr ((hkeys key).mp (exists_entry_iff.mp ⟨x, hx⟩))
    exact ih key x hx (hu.entry hx) (hv.entry hy) (hw.entry hz) (hvalues key x y hx hy)
      (hvalues' key y z hy hz)
  | atom u hatom =>
    rcases (equal_atom_iff hu.whole hv.whole hatom).mp h with rfl | ⟨n, hn, hn'⟩
    · exact h'
    · have hsame := (equal_of_toInt? hv.whole hw.whole hn').mp h'
      exact (equal_of_toInt? hu.whole hw.whole hn).mpr hsame

/-- Among values without floating-point numbers equality is an equivalence, and dictionaries are
equal if they have the same keys with equal values, in whatever order these were inserted. -/
theorem equal_equivalence :
    Equivalence (fun v w : {v : Value // v.FloatFree} => v.1.equal w.1 = true) ∧
      ∀ es fs, (dict es).FloatFree → (dict fs).FloatFree →
        ((dict es).equal (dict fs) = true ↔
          (∀ key, key ∈ es.map Prod.fst ↔ key ∈ fs.map Prod.fst) ∧
            ∀ key v w, (key, v) ∈ es → (key, w) ∈ fs → v.equal w = true) := by
  refine ⟨⟨?_, ?_, ?_⟩, ?_⟩
  · intro v
    exact equal_self v.2
  · intro v w h
    exact equal_symm v.2 w.2 h
  · intro u v w h h'
    exact equal_trans u.2 v.2 w.2 h h'
  · intro es fs hes hfs
    exact equal_dict_of_keys hes.keys hfs.keys

/-- Two entries in one order, -/
def truthFirst : List (String × Value) := [("a", bool true), ("b", list [dict [("c", int 2)]])]

/-- and in the other, with an integer in the place of a truth value. -/
def truthLast : List (String × Value) := [("b", list [dict [("c", int 2)]]), ("a", int 1)]

theorem truthFirst_equal_truthLast :
    (dict truthFirst).FloatFree ∧ (dict truthLast).FloatFree ∧
      (dict truthFirst).equal (dict truthLast) = true := by
  have hint (n : Int) (hn : Integer64.fits n = true) : (int n).Everywhere IsExact :=
    (everywhere_of_isAtom rfl).mpr hn
  have htruth : (bool true).Everywhere IsExact := (everywhere_of_isAtom rfl).mpr trivial
  have hinner : (list [dict [("c", int 2)]]).Everywhere IsExact := by
    simp [everywhere_list_iff, everywhere_dict_iff, IsExact, KeysDiffer, hint 2 rfl]
  have hfirst : (dict truthFirst).FloatFree := by
    simp [truthFirst, FloatFree, everywhere_dict_iff, IsExact, KeysDiffer, htruth, hinner]
  have hlast : (dict truthLast).FloatFree := by
    simp [truthLast, FloatFree, everywhere_dict_iff, IsExact, KeysDiffer, hint 1 rfl, hinner]
  refine ⟨hfirst, hlast, (equal_equivalence.2 _ _ hfirst hlast).mpr ⟨?_, ?_⟩⟩
  · intro key
    simp [truthFirst, truthLast, or_comm]
  · intro key v w hv hw
    simp only [truthFirst, truthLast, List.mem_cons, List.not_mem_nil, Prod.mk.injEq,
      or_false] at hv hw
    rcases hv with ⟨rfl, rfl⟩ | ⟨rfl, rfl⟩
    · obtain ⟨-, rfl⟩ := hw.resolve_left (by simp)
      rfl
    · obtain ⟨-, rfl⟩ := hw.resolve_right (by simp)
      rfl

end LiveDoc.Value
