import LiveDoc.Call.Arguments
import LiveDoc.Proofs.Environment
import LiveDoc.Proofs.Outcome

/-!
Arguments and the parameters that take them. A call can be bound if the positional values find a
parameter each and the keywords name other parameters, each of them once. What a parameter then
holds is told by its place and by its name alone, so that neither the order of the keywords matters
nor whether the last value is given by its place or by the name of its parameter.
-/
namespace LiveDoc

theorem map_fst_zip_eq_take (names : List String) (values : List Value) :
    (names.zip values).map Prod.fst = names.take values.length := by
  induction names generalizing values with
  | nil => simp
  | cons name rest ih =>
    cases values with
    | nil => rfl
    | cons v values => simp [ih]

/-- A name stands for the value at its place. -/
theorem lookup_zip {names : List String} (hnames : names.Nodup) (values : List Value) {i : Nat}
    {name : String} (hname : names[i]? = some name) :
    (names.zip values).lookup name = values[i]? := by
  induction names generalizing values i with
  | nil => simp at hname
  | cons first rest ih =>
    obtain ⟨hfirst, hrest⟩ := List.nodup_cons.mp hnames
    cases values with
    | nil => rfl
    | cons v values =>
      cases i with
      | zero =>
        obtain rfl : first = name := by simpa using hname
        simp
      | succ i =>
        rw [List.getElem?_cons_succ] at hname
        have hother : (name == first) = false := by
          rw [beq_eq_false_iff_ne]
          rintro rfl
          exact hfirst (List.mem_of_getElem? hname)
        rw [List.zip_cons_cons, List.lookup_cons, hother, List.getElem?_cons_succ]
        exact ih hrest values hname

namespace Arguments

variable {function : String} {parameters : List String} {args : Arguments} {bound : Binding}
  {named : List (String × Value)}

/-- The positional values find a parameter each, and the keywords name parameters behind those. -/
structure Fits (args : Arguments) (parameters : List String) : Prop where
  few : args.positional.length ≤ parameters.length
  known : ∀ key ∈ args.named.map Prod.fst, key ∈ parameters
  free : ∀ key ∈ args.named.map Prod.fst, key ∉ parameters.take args.positional.length

/-- What the parameters hold in turn, if the arguments can be bound. -/
def slots? (args : Arguments) (function : String) (parameters : List String) :
    Option (List (Option Value)) :=
  (args.bind function parameters).toOption.map fun bound =>
    parameters.map fun name => bound.lookup name

/-- The value at the place of each parameter, or else the value of its name. -/
def held (args : Arguments) (parameters : List String) : List (Option Value) :=
  parameters.mapIdx fun i name => args.positional[i]?.or (args.named.lookup name)

theorem eq_held {slots : List (Option Value)} (hlength : slots.length = parameters.length)
    (h : ∀ (i : Nat) (name : String), parameters[i]? = some name →
      slots[i]? = some (args.positional[i]?.or (args.named.lookup name))) :
    slots = args.held parameters := by
  refine List.ext_getElem? fun i => ?_
  rw [held, List.getElem?_mapIdx]
  cases hname : parameters[i]? with
  | none =>
    rw [List.getElem?_eq_none_iff] at hname
    simp [hlength, hname]
  | some name => exact h i name hname

/-- A keyword is bound if it names a parameter that has no value yet. -/
theorem bindNamed_cons_eq_ok_iff {keyword : String} {v : Value} {bound' : Binding} :
    bindNamed function parameters bound ((keyword, v) :: named) = .ok bound' ↔
      (keyword ∈ parameters ∧ keyword ∉ bound.map Prod.fst) ∧
        bindNamed function parameters ((keyword, v) :: bound) named = .ok bound' := by
  rw [bindNamed]
  constructor
  · intro h
    split at h
    · cases h
    · rename_i hknown
      split at h
      · cases h
      · rename_i hfree
        have hnone : bound.lookup keyword = none := Option.not_isSome_iff_eq_none.mp hfree
        exact ⟨⟨by simpa using hknown, Value.lookup_eq_none_iff.mp hnone⟩, h⟩
  · rintro ⟨⟨hknown, hfree⟩, h⟩
    rw [if_neg (by simpa using hknown), if_neg (by simp [Value.lookup_eq_none_iff.mpr hfree])]
    exact h

/-- Keywords are bound if each names a parameter, none of them names one that has a value, and no
two of them are the same. -/
theorem bindNamed_eq_ok_iff {bound' : Binding} :
    bindNamed function parameters bound named = .ok bound' ↔
      (∀ key ∈ named.map Prod.fst, key ∈ parameters ∧ key ∉ bound.map Prod.fst) ∧
        (named.map Prod.fst).Nodup ∧ bound' = named.reverse ++ bound := by
  induction named generalizing bound with
  | nil => simp [bindNamed, eq_comm (a := bound)]
  | cons entry rest ih =>
    obtain ⟨keyword, v⟩ := entry
    rw [bindNamed_cons_eq_ok_iff, ih, List.map_cons, List.map_cons, List.forall_mem_cons,
      List.nodup_cons, List.reverse_cons, List.append_assoc, List.singleton_append]
    constructor
    · rintro ⟨hfirst, hrest, hkeys, hbound⟩
      have hapart : keyword ∉ rest.map Prod.fst := fun hmem =>
        (hrest keyword hmem).2 List.mem_cons_self
      refine ⟨⟨hfirst, fun key hkey => ⟨(hrest key hkey).1, ?_⟩⟩, ⟨hapart, hkeys⟩, hbound⟩
      exact (List.ne_and_not_mem_of_not_mem_cons (hrest key hkey).2).2
    · rintro ⟨⟨hfirst, hrest⟩, ⟨hapart, hkeys⟩, hbound⟩
      refine ⟨hfirst, fun key hkey => ⟨(hrest key hkey).1, ?_⟩, hkeys, hbound⟩
      rw [List.mem_cons, not_or]
      refine ⟨?_, (hrest key hkey).2⟩
      rintro rfl
      exact hapart hkey

/-- What a binding is made of: the keywords and the positional values with their parameters. -/
theorem bind_eq_ok_iff :
    args.bind function parameters = .ok bound ↔
      args.Fits parameters ∧ (args.named.map Prod.fst).Nodup ∧
        bound = args.named.reverse ++ parameters.zip args.positional := by
  rw [bind]
  constructor
  · intro h
    split at h
    · cases h
    · rename_i hfew
      obtain ⟨hall, hkeys, hbound⟩ := bindNamed_eq_ok_iff.mp h
      rw [map_fst_zip_eq_take] at hall
      exact ⟨⟨Nat.le_of_not_lt hfew, fun key hkey => (hall key hkey).1,
        fun key hkey => (hall key hkey).2⟩, hkeys, hbound⟩
  · rintro ⟨hfits, hkeys, hbound⟩
    rw [if_neg (Nat.not_lt_of_le hfits.few)]
    refine bindNamed_eq_ok_iff.mpr ⟨fun key hkey => ⟨hfits.known key hkey, ?_⟩, hkeys, hbound⟩
    rw [map_fst_zip_eq_take]
    exact hfits.free key hkey

theorem isOk_bind_iff (function : String) :
    (args.bind function parameters).isOk = true ↔
      args.Fits parameters ∧ (args.named.map Prod.fst).Nodup := by
  simp only [Outcome.isOk_iff_exists, bind_eq_ok_iff, exists_and_left, exists_eq, and_true]

/-- A parameter holds the value at its place or that of its keyword. -/
theorem lookup_of_bind (hparameters : parameters.Nodup)
    (h : args.bind function parameters = .ok bound) {i : Nat} {name : String}
    (hname : parameters[i]? = some name) :
    bound.lookup name = args.positional[i]?.or (args.named.lookup name) := by
  obtain ⟨hfits, hkeys, rfl⟩ := bind_eq_ok_iff.mp h
  have hnamed : args.named.reverse.lookup name = args.named.lookup name :=
    (Value.lookup_of_perm args.named.reverse_perm.symm hkeys name).symm
  rw [List.lookup_append, hnamed, lookup_zip hparameters args.positional hname]
  cases hvalue : args.positional[i]? with
  | none => simp
  | some v =>
    have hplace : name ∈ parameters.take args.positional.length := by
      have hlt : i < args.positional.length := (List.getElem?_eq_some_iff.mp hvalue).1
      refine List.mem_of_getElem? (i := i) ?_
      rw [List.getElem?_take_of_lt hlt, hname]
    have hnone : args.named.lookup name = none :=
      Value.lookup_eq_none_iff.mpr fun hmem => hfits.free name hmem hplace
    rw [hnone]
    rfl

/-- Arguments that can be bound give each parameter what it holds. -/
theorem slots?_eq_some_iff (hparameters : parameters.Nodup) {slots : List (Option Value)} :
    args.slots? function parameters = some slots ↔
      (args.Fits parameters ∧ (args.named.map Prod.fst).Nodup) ∧ args.held parameters = slots := by
  have hheld {bound : Binding} (h : args.bind function parameters = .ok bound) :
      (parameters.map fun name => bound.lookup name) = args.held parameters := by
    refine eq_held (List.length_map _) fun i name hname => ?_
    rw [List.getElem?_map, hname, Option.map_some, lookup_of_bind hparameters h hname]
  rw [slots?, Outcome.map_toOption_eq_some_iff, ← isOk_bind_iff function,
    Outcome.isOk_iff_exists]
  constructor
  · rintro ⟨bound, hbound, rfl⟩
    exact ⟨⟨bound, hbound⟩, (hheld hbound).symm⟩
  · rintro ⟨⟨bound, hbound⟩, rfl⟩
    exact ⟨bound, hbound, hheld hbound⟩

/-! ### Other orders and other styles -/

variable {positional front : List Value} {others : List (String × Value)} {name : String}
  {v : Value}

theorem Fits.perm (h : Fits ⟨positional, named⟩ parameters) (hperm : named.Perm others) :
    Fits ⟨positional, others⟩ parameters where
  few := h.few
  known key hkey := h.known key ((hperm.map Prod.fst).mem_iff.mpr hkey)
  free key hkey := h.free key ((hperm.map Prod.fst).mem_iff.mpr hkey)

theorem slots?_of_perm (function : String) (hparameters : parameters.Nodup)
    (hperm : named.Perm others) :
    slots? ⟨positional, named⟩ function parameters =
      slots? ⟨positional, others⟩ function parameters := by
  have hsame {a b : List (String × Value)} (hperm : a.Perm b) (slots : List (Option Value))
      (h : slots? ⟨positional, a⟩ function parameters = some slots) :
      slots? ⟨positional, b⟩ function parameters = some slots := by
    obtain ⟨⟨hfits, hkeys⟩, rfl⟩ := (slots?_eq_some_iff hparameters).mp h
    refine (slots?_eq_some_iff hparameters).mpr
      ⟨⟨hfits.perm hperm, (hperm.map Prod.fst).nodup_iff.mp hkeys⟩, ?_⟩
    simp only [held, Value.lookup_of_perm hperm hkeys]
  exact Option.ext fun slots => ⟨hsame hperm slots, hsame hperm.symm slots⟩

/-- The value behind the others is the one of its parameter's name. -/
theorem held_concat (hparameters : parameters.Nodup)
    (hname : parameters[front.length]? = some name) :
    held ⟨front ++ [v], named⟩ parameters = held ⟨front, (name, v) :: named⟩ parameters := by
  refine eq_held List.length_mapIdx fun i other hother => ?_
  rw [held, List.getElem?_mapIdx, hother, Option.map_some, Option.some_inj]
  rcases Nat.lt_trichotomy i front.length with hlt | rfl | hgt
  · simp [List.getElem?_append_left hlt, List.getElem?_eq_getElem hlt]
  · obtain rfl : name = other := Option.some.inj (hname.symm.trans hother)
    simp
  · have hne : (other == name) = false := by
      rw [beq_eq_false_iff_ne]
      rintro rfl
      have hlt := (List.getElem?_eq_some_iff.mp hother).1
      have hsame := (List.getElem?_inj hlt hparameters).mp (hother.trans hname.symm)
      exact absurd hsame (Nat.ne_of_gt hgt)
    have hbehind : (front ++ [v])[i]? = none := by
      rw [List.getElem?_eq_none_iff, List.length_append, List.length_singleton]
      exact hgt
    rw [hbehind, List.getElem?_eq_none (Nat.le_of_lt hgt), List.lookup_cons, hne]

theorem not_mem_take_of_getElem? (hparameters : parameters.Nodup)
    (hname : parameters[front.length]? = some name) : name ∉ parameters.take front.length := by
  have hnodup := (List.take_sublist (front.length + 1) parameters).nodup hparameters
  rw [List.take_add_one, hname, Option.toList_some] at hnodup
  exact fun hmem => List.disjoint_of_nodup_append hnodup hmem (List.mem_singleton.mpr rfl)

/-- A parameter that has its value by its place is no keyword. -/
theorem free_concat_iff {keys : List String} (hname : parameters[front.length]? = some name) :
    (∀ key ∈ keys, key ∉ parameters.take (front ++ [v]).length) ↔
      name ∉ keys ∧ ∀ key ∈ keys, key ∉ parameters.take front.length := by
  rw [List.length_append, List.length_singleton, List.take_add_one, hname, Option.toList_some]
  simp only [List.mem_append, List.mem_singleton, not_or]
  constructor
  · intro hfree
    exact ⟨fun hmem => (hfree name hmem).2 rfl, fun key hkey => (hfree key hkey).1⟩
  · rintro ⟨hapart, hfree⟩ key hkey
    refine ⟨hfree key hkey, ?_⟩
    rintro rfl
    exact hapart hkey

theorem fits_concat_iff (hparameters : parameters.Nodup)
    (hname : parameters[front.length]? = some name) :
    (Fits ⟨front ++ [v], named⟩ parameters ∧ (named.map Prod.fst).Nodup) ↔
      Fits ⟨front, (name, v) :: named⟩ parameters ∧
        (((name, v) :: named).map Prod.fst).Nodup := by
  have hlt : front.length < parameters.length := (List.getElem?_eq_some_iff.mp hname).1
  have hfirst := not_mem_take_of_getElem? hparameters hname
  rw [List.map_cons, List.nodup_cons]
  constructor
  · rintro ⟨hfits, hkeys⟩
    obtain ⟨hapart, hfree⟩ := (free_concat_iff hname).mp hfits.free
    have hknown := List.forall_mem_cons.mpr ⟨List.mem_of_getElem? hname, hfits.known⟩
    exact ⟨⟨Nat.le_of_lt hlt, hknown, List.forall_mem_cons.mpr ⟨hfirst, hfree⟩⟩, hapart, hkeys⟩
  · rintro ⟨⟨-, hknown, hfree⟩, hapart, hkeys⟩
    have hfew : (front ++ [v]).length ≤ parameters.length := by
      rw [List.length_append, List.length_singleton]
      exact hlt
    have hbehind := (free_concat_iff (v := v) hname).mpr ⟨hapart, (List.forall_mem_cons.mp hfree).2⟩
    exact ⟨⟨hfew, (List.forall_mem_cons.mp hknown).2, hbehind⟩, hkeys⟩

theorem slots?_concat (function : String) (hparameters : parameters.Nodup)
    (hname : parameters[front.length]? = some name) :
    slots? ⟨front ++ [v], named⟩ function parameters =
      slots? ⟨front, (name, v) :: named⟩ function parameters := by
  refine Option.ext fun slots => ?_
  rw [slots?_eq_some_iff hparameters, slots?_eq_some_iff hparameters,
    fits_concat_iff hparameters hname, held_concat hparameters hname]

/-- For different parameters and different keywords. Arguments can be bound if there are not too
many values and if the keywords name parameters that have no value yet; each parameter then holds
the value at its place or that of its keyword. The order of the keywords does not matter, nor
whether the last value is given by its place or by the name of its parameter. -/
theorem bind_by_place_or_name (function : String) (hparameters : parameters.Nodup)
    (hnamed : (args.named.map Prod.fst).Nodup) :
    ((args.bind function parameters).isOk = true ↔
      args.positional.length ≤ parameters.length ∧
        (∀ key ∈ args.named.map Prod.fst, key ∈ parameters) ∧
        ∀ key ∈ args.named.map Prod.fst, key ∉ parameters.take args.positional.length) ∧
    (∀ bound, args.bind function parameters = .ok bound →
      ∀ (i : Nat) (name : String), parameters[i]? = some name →
        bound.lookup name = args.positional[i]?.or (args.named.lookup name)) ∧
    (∀ others, args.named.Perm others →
      slots? ⟨args.positional, others⟩ function parameters = args.slots? function parameters) ∧
    ∀ front v name, args.positional = front ++ [v] → parameters[front.length]? = some name →
      slots? ⟨front, (name, v) :: args.named⟩ function parameters =
        args.slots? function parameters := by
  refine ⟨?_, fun bound hbound i name => lookup_of_bind hparameters hbound, ?_, ?_⟩
  · rw [isOk_bind_iff]
    constructor
    · rintro ⟨hfits, -⟩
      exact ⟨hfits.few, hfits.known, hfits.free⟩
    · rintro ⟨hfew, hknown, hfree⟩
      exact ⟨⟨hfew, hknown, hfree⟩, hnamed⟩
  · intro others hperm
    exact (slots?_of_perm function hparameters hperm).symm
  · intro front v name hlast hname
    rw [← slots?_concat function hparameters hname, ← hlast]

/-- Two values by their places and two by their names, one parameter that is given none. -/
def mixedStyles : Arguments := ⟨[.int 1, .str "b"], [("e", .bool true), ("c", .nothing)]⟩

theorem bind_of_mixedStyles :
    let parameters := ["a", "b", "c", "d", "e"]
    let slots := [some (.int 1), some (.str "b"), some .nothing, none, some (.bool true)]
    parameters.Nodup ∧ (mixedStyles.named.map Prod.fst).Nodup ∧
      (mixedStyles.bind "f" parameters).isOk = true ∧
      mixedStyles.slots? "f" parameters = some slots ∧
      slots? ⟨[.int 1, .str "b"], [("c", .nothing), ("e", .bool true)]⟩ "f" parameters =
        some slots ∧
      slots? ⟨[.int 1], [("b", .str "b"), ("e", .bool true), ("c", .nothing)]⟩ "f" parameters =
        some slots := by
  intro parameters slots
  have hparameters : parameters.Nodup := by decide
  have hnamed : (mixedStyles.named.map Prod.fst).Nodup := by decide
  obtain ⟨hok, -, horder, hstyle⟩ := bind_by_place_or_name "f" hparameters hnamed
  have hslots : mixedStyles.slots? "f" parameters = some slots := rfl
  refine ⟨hparameters, hnamed, hok.mpr (by decide), hslots, ?_, ?_⟩
  · rw [← hslots]
    exact horder _ (.swap _ _ _)
  · rw [← hslots]
    exact hstyle [.int 1] (.str "b") "b" rfl rfl

end Arguments

end LiveDoc
