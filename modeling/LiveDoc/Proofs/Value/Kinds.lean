import LiveDoc.Call.Builtin
import LiveDoc.Proofs.Invariance
import LiveDoc.Proofs.Value.Items
import LiveDoc.Proofs.Value.Parts
import Mathlib.Data.String.Basic

/-!
Properties that whatever is computed from values keeps. Operators and functions make numbers, texts
and lists within the limit, or values that were there; storing an item keeps the length of a list
and the keys of a dictionary, to which it can add the key it is stored under. Some functions make
texts and lists of any length, and these are asked for apart.
-/
namespace LiveDoc

open Fragment

namespace Value

variable {a b v container index : Value} {items : List Value} {entries : List (String × Value)}
  {P : Value → Prop}

/-! ### Results that hold no others -/

theorem integer_isPlain (n : Int) : Gives (·.isPlain = true) (integer n) := by
  simp [integer, isPlain]

theorem unary_isPlain (op : UnaryOp) (v : Value) : Gives (·.isPlain = true) (unary op v) := by
  unfold unary
  split
  · simp [isPlain]
  · simp [isPlain]
  · simp [isPlain]
  · exact integer_isPlain _
  · simp [isPlain]
  · simp

theorem onIntegers_isPlain (op : BinaryOp) (m n : Int) :
    Gives (·.isPlain = true) (onIntegers op m n) := by
  cases op with
  | add | sub | mul => exact integer_isPlain _
  | div | floorDiv | mod => simp [onIntegers, isPlain]
  | pow =>
    rw [onIntegers, integerPower, gives_ite_iff, gives_ite_iff]
    refine ⟨fun _ => gives_ok_iff.mpr rfl, fun _ => ⟨fun _ => gives_error _, fun _ => ?_⟩⟩
    exact integer_isPlain _

theorem onFloats_isPlain (op : BinaryOp) (x y : Float) :
    Gives (·.isPlain = true) (onFloats op x y) := by
  cases op with
  | add | sub | mul | pow => simp [onFloats, isPlain]
  | div | floorDiv | mod => simp [onFloats, isPlain]

theorem onNumbers_isPlain (op : BinaryOp) (a b : Value) :
    Gives (·.isPlain = true) (onNumbers op a b) := by
  unfold onNumbers
  split
  · exact onIntegers_isPlain _ _ _
  · split
    · exact onFloats_isPlain _ _ _
    · simp

theorem toInteger_isPlain (v : Value) : Gives (·.isPlain = true) v.toInteger := by
  unfold toInteger
  split
  · unfold integerOfFloat
    split
    · exact gives_error _
    · split
      · simp [isPlain]
      · exact gives_error _
  · split
    · exact gives_ok_iff.mpr rfl
    · exact gives_error _
  · split
    · exact gives_ok_iff.mpr rfl
    · exact gives_error _

theorem toFloat_isPlain (v : Value) : Gives (·.isPlain = true) v.toFloat := by
  unfold toFloat
  split
  · split
    · exact gives_ok_iff.mpr rfl
    · exact gives_error _
  · split
    · exact gives_ok_iff.mpr rfl
    · exact gives_error _

theorem length_isPlain (v : Value) : Gives (·.isPlain = true) (Builtin.length v) := by
  cases v with
  | str s => exact gives_ok_iff.mpr rfl
  | list items => exact gives_ok_iff.mpr rfl
  | dict entries => exact gives_ok_iff.mpr rfl
  | _ => exact gives_error _

theorem attributeOfScope?_isAtom {s : Scope} {name : String}
    (h : attributeOfScope? s name = some v) : v.isAtom = true := by
  unfold attributeOfScope? at h
  split at h
  · cases h
    rfl
  · cases h
    rfl
  · cases h
    rfl
  · cases h

theorem attributeOf_isAtom (object : Value) (name : String) :
    Gives (·.isAtom = true) (object.attributeOf name) := by
  cases object with
  | str s =>
    cases hfound : StringMethod.ofName? name with
    | some m => simp [attributeOf, hfound, isAtom]
    | none => simp [attributeOf, hfound]
  | scope s =>
    cases hfound : attributeOfScope? s name with
    | some v => simp [attributeOf, hfound, attributeOfScope?_isAtom hfound]
    | none => simp [attributeOf, hfound]
  | _ => exact gives_error _

/-! ### Kinds of values -/

/-- A property of single values that is kept by whatever heeds the limit. -/
structure Closed (P : Value → Prop) : Prop where
  plain : ∀ {v}, v.isPlain = true → P v
  text : ∀ {s}, s.utf8ByteSize ≤ lengthLimit → P (str s)
  list : ∀ {items}, items.length ≤ lengthLimit → P (list items)
  noEntries : P (dict [])
  set : ∀ {items} (i v), P (.list items) → P (.list (items.set i v))
  key : ∀ {entries entry}, P (dict entries) → entry ∈ entries → P (str entry.1)
  setEntry : ∀ {entries key} (v), P (dict entries) → P (str key) →
    P (dict (setEntry key v entries))

theorem everywhere_plain (hP : Closed P) (hv : v.isPlain = true) : v.Everywhere P :=
  (everywhere_of_isAtom (isAtom_of_isPlain hv)).mpr (hP.plain hv)

theorem everywhere_str {s : String} : (str s).Everywhere P ↔ P (str s) := everywhere_of_isAtom rfl

theorem utf8ByteSize_singleton_le (c : Char) :
    (String.singleton c).utf8ByteSize ≤ lengthLimit := by
  have hsize := c.utf8Size_le_four
  rw [String.utf8ByteSize_singleton]
  unfold lengthLimit
  omega

theorem Closed.character (hP : Closed P) (c : Char) :
    (str (String.singleton c)).Everywhere P :=
  everywhere_str.mpr (hP.text (utf8ByteSize_singleton_le c))

/-! ### Values that hold others -/

theorem itemAt_gives {p : Value → Prop} {item? : Nat → Option Value} (container : Value)
    (length : Nat) (position : Value) (h : ∀ i v, item? i = some v → p v) :
    Gives p (itemAt container length item? position) := by
  refine gives_bind (gives_any _) fun i _ => ?_
  split
  · rename_i v hv
    obtain ⟨k, -, hk⟩ := Option.bind_eq_some_iff.mp hv
    exact gives_ok_iff.mpr (h k v hk)
  · exact gives_error _

theorem Closed.item (hP : Closed P) (h : container.Everywhere P) (index : Value) :
    Gives (Everywhere P) (container.item index) := by
  cases container with
  | list items =>
    refine itemAt_gives _ _ _ fun i v hv => ?_
    exact (everywhere_list_iff.mp h).2 v (List.mem_of_getElem? hv)
  | str s =>
    refine itemAt_gives _ _ _ fun i v hv => ?_
    obtain ⟨c, -, rfl⟩ := Option.map_eq_some_iff.mp hv
    exact hP.character c
  | dict entries =>
    cases index with
    | str key =>
      cases hfound : entries.lookup key with
      | some v =>
        rw [Value.item, hfound]
        exact gives_ok_iff.mpr ((everywhere_dict_iff.mp h).2 _ (mem_of_lookup hfound))
      | none =>
        rw [Value.item, hfound]
        exact gives_error _
    | _ => exact gives_error _
  | _ => exact gives_error _

theorem Closed.visited (hP : Closed P) (h : v.Everywhere P) :
    Gives (fun values => ∀ x ∈ values, x.Everywhere P) v.visited := by
  cases v with
  | list items => exact gives_ok_iff.mpr (everywhere_list_iff.mp h).2
  | str s =>
    refine gives_ok_iff.mpr fun x hx => ?_
    obtain ⟨c, -, rfl⟩ := List.mem_map.mp hx
    exact hP.character c
  | dict entries =>
    refine gives_ok_iff.mpr fun x hx => ?_
    obtain ⟨entry, hentry, rfl⟩ := List.mem_map.mp hx
    exact everywhere_str.mpr (hP.key h.whole hentry)
  | _ => exact gives_error _

theorem mem_setEntry {key : String} {entry : String × Value} (h : entry ∈ setEntry key v entries) :
    entry = (key, v) ∨ entry ∈ entries := by
  induction entries with
  | nil => exact .inl (List.mem_singleton.mp h)
  | cons first rest ih =>
    obtain ⟨k, old⟩ := first
    rw [setEntry] at h
    by_cases hkey : k = key
    · rw [if_pos hkey] at h
      rcases List.mem_cons.mp h with rfl | hrest
      · exact .inl (by rw [hkey])
      · exact .inr (.tail _ hrest)
    · rw [if_neg hkey] at h
      rcases List.mem_cons.mp h with rfl | hrest
      · exact .inr List.mem_cons_self
      · exact (ih hrest).imp_right (.tail _)

theorem Closed.setItem (hP : Closed P) (hcontainer : container.Everywhere P)
    (hindex : index.Everywhere P) (hv : v.Everywhere P) :
    Gives (Everywhere P) (container.setItem index v) := by
  cases container with
  | list items =>
    obtain ⟨hitems, hinner⟩ := everywhere_list_iff.mp hcontainer
    refine gives_bind (gives_any _) fun i _ => ?_
    split
    · rename_i place _
      refine gives_ok_iff.mpr (everywhere_list_iff.mpr ⟨hP.set place v hitems, fun x hx => ?_⟩)
      rcases List.mem_or_eq_of_mem_set hx with hold | rfl
      · exact hinner x hold
      · exact hv
    · exact gives_error _
  | dict entries =>
    obtain ⟨hentries, hinner⟩ := everywhere_dict_iff.mp hcontainer
    cases index with
    | str key =>
      refine gives_ok_iff.mpr
        (everywhere_dict_iff.mpr ⟨hP.setEntry v hentries hindex.whole, fun entry hentry => ?_⟩)
      rcases mem_setEntry hentry with rfl | hold
      · exact hv
      · exact hinner entry hold
    | _ => exact gives_error _
  | _ => exact gives_error _

/-! ### Operators -/

theorem length_repeat {α : Type} (xs : List α) (count : Nat) :
    (count.repeat (xs ++ ·) []).length = xs.length * count := by
  induction count with
  | zero => rfl
  | succ count ih => rw [Nat.repeat, List.length_append, ih, Nat.mul_succ, Nat.add_comm]

theorem utf8ByteSize_repeat (s : String) (count : Nat) :
    (count.repeat (· ++ s) "").utf8ByteSize = s.utf8ByteSize * count := by
  induction count with
  | zero => rfl
  | succ count ih => rw [Nat.repeat, String.utf8ByteSize_append, ih, Nat.mul_succ]

theorem mem_of_mem_repeat {α : Type} {xs : List α} {x : α} (count : Nat)
    (h : x ∈ count.repeat (xs ++ ·) []) : x ∈ xs := by
  induction count with
  | zero => cases h
  | succ count ih => exact (List.mem_append.mp h).elim id ih

theorem Closed.repeatText (hP : Closed P) (s : String) (count : Nat) :
    Gives (Everywhere P) (repeatText s count) := by
  have hempty : (str "").Everywhere P := everywhere_str.mpr (hP.text (Nat.zero_le _))
  have hshort (h : s.utf8ByteSize * count ≤ lengthLimit) :
      (str (count.repeat (· ++ s) "")).Everywhere P := by
    rw [← utf8ByteSize_repeat] at h
    exact everywhere_str.mpr (hP.text h)
  simp only [Value.repeatText, gives_ite_iff, gives_ok_iff, gives_error]
  exact ⟨fun _ => hempty, fun _ => ⟨hshort, fun _ => trivial⟩⟩

theorem Closed.repeatItems (hP : Closed P) (hitems : ∀ x ∈ items, x.Everywhere P) (count : Nat) :
    Gives (Everywhere P) (repeatItems items count) := by
  have hempty : (Value.list []).Everywhere P :=
    everywhere_list_iff.mpr ⟨hP.list (Nat.zero_le _), nofun⟩
  have hshort (h : items.length * count ≤ lengthLimit) :
      (Value.list (count.repeat (items ++ ·) [])).Everywhere P := by
    rw [← length_repeat] at h
    exact everywhere_list_iff.mpr ⟨hP.list h, fun x hx => hitems x (mem_of_mem_repeat count hx)⟩
  simp only [Value.repeatItems, gives_ite_iff, gives_ok_iff, gives_error]
  exact ⟨fun _ => hempty, fun _ => ⟨hshort, fun _ => trivial⟩⟩

theorem Closed.repeated? (hP : Closed P) {count : Value} {r : Except Fault Value}
    (h : v.Everywhere P) (hr : repeated? v count = some r) : Gives (Everywhere P) r := by
  unfold Value.repeated? at hr
  split at hr
  · obtain rfl := Option.some_inj.mp hr
    exact hP.repeatText _ _
  · obtain rfl := Option.some_inj.mp hr
    exact hP.repeatItems (everywhere_list_iff.mp h).2 _
  · cases hr

theorem Closed.binary (hP : Closed P) (ha : a.Everywhere P) (hb : b.Everywhere P)
    (op : BinaryOp) : Gives (Everywhere P) (Value.binary op a b) := by
  have hnumbers (op : BinaryOp) : Gives (Everywhere P) (onNumbers op a b) :=
    (onNumbers_isPlain op a b).mono fun _ => everywhere_plain hP
  unfold Value.binary
  split
  · rename_i s t
    have hjoined (h : s.utf8ByteSize + t.utf8ByteSize ≤ lengthLimit) :
        (str (s ++ t)).Everywhere P := by
      rw [← String.utf8ByteSize_append] at h
      exact everywhere_str.mpr (hP.text h)
    simpa [ofLength] using hjoined
  · rename_i xs ys
    have hjoined (h : xs.length + ys.length ≤ lengthLimit) :
        (Value.list (xs ++ ys)).Everywhere P := by
      rw [← List.length_append] at h
      exact everywhere_list_iff.mpr ⟨hP.list h, List.forall_mem_append.mpr
        ⟨(everywhere_list_iff.mp ha).2, (everywhere_list_iff.mp hb).2⟩⟩
    simpa only [ofLength, gives_ite_iff, gives_ok_iff, gives_error, implies_true, and_true]
      using hjoined
  · cases hleft : Value.repeated? a b with
    | some r => exact hP.repeated? ha hleft
    | none =>
      cases hright : Value.repeated? b a with
      | some r => exact hP.repeated? hb hright
      | none => exact hnumbers _
  · exact hnumbers _

theorem Closed.rangeOf (hP : Closed P) (start stop step : Int) :
    Gives (Everywhere P) (rangeOf start stop step) := by
  unfold Value.rangeOf
  simp only [gives_ite_iff, gives_ok_iff, gives_error, implies_true, true_and]
  intro _ hfew
  refine everywhere_list_iff.mpr ⟨hP.list ?_, fun x hx => ?_⟩
  · rw [List.length_map, List.length_range]
    exact Nat.not_lt.mp hfew
  · obtain ⟨i, -, rfl⟩ := List.mem_map.mp hx
    exact everywhere_plain hP rfl

theorem Closed.range (hP : Closed P) (args : List Value) : Gives (Everywhere P) (range args) := by
  refine gives_bind (gives_any _) fun bounds _ => ?_
  split
  · exact hP.rangeOf _ _ _
  · exact hP.rangeOf _ _ _
  · exact hP.rangeOf _ _ _
  · exact gives_error _

end Value

open Value

/-! ### Functions and methods -/

/-- The value of the function is no longer than the limit. The text of a value can be longer. -/
def Builtin.isBounded : Builtin → Bool
  | str | repr => false
  | text | print | note | fail | int | float | bool | len | range => true

/-- The value of the method is no longer than the limit if the string is not that it is of. -/
def StringMethod.isBounded : StringMethod → Bool
  | strip | startsWith | endsWith => true
  | upper | lower | split | join | replace => false

/-- What a call comes to, if it comes to a value of the kind or to none. -/
def Builtin.Outcome.OfKind (good : Value → Prop) : Builtin.Outcome → Prop
  | value v => good v
  | _ => True

variable {P : Value → Prop}

theorem Builtin.call_ofKind (hP : Closed P) (f : Builtin)
    (hf : f.isBounded = false → ∀ s, P (.str s)) (args : Arguments) :
    Gives (Outcome.OfKind (Everywhere P)) (f.call args) := by
  have hplain {r : Except Fault Value} (h : Gives (·.isPlain = true) r) :
      Gives (Outcome.OfKind (Everywhere P)) (r >>= fun v => pure (Outcome.value v)) :=
    gives_bind h fun v hv => gives_ok_iff.mpr (everywhere_plain hP hv)
  have htext (hunbounded : f.isBounded = false) (s : String) :
      Gives (Outcome.OfKind (Everywhere P)) (pure (.value (.str s)) : Except Fault _) :=
    gives_ok_iff.mpr (everywhere_str.mpr (hf hunbounded s))
  cases f with
  | text => exact gives_bind (gives_any _) fun bound _ => gives_ok_iff.mpr trivial
  | print =>
    simp only [Builtin.call, emitLine]
    split
    · exact gives_error _
    · exact gives_ok_iff.mpr trivial
  | note => exact gives_bind (gives_any _) fun v _ => gives_ok_iff.mpr trivial
  | fail => exact gives_bind (gives_any _) fun v _ => gives_error _
  | str => exact gives_bind (gives_any _) fun v _ => htext rfl _
  | repr => exact gives_bind (gives_any _) fun v _ => htext rfl _
  | int => exact gives_bind (gives_any _) fun v _ => hplain (toInteger_isPlain _)
  | float => exact gives_bind (gives_any _) fun v _ => hplain (toFloat_isPlain _)
  | bool =>
    exact gives_bind (gives_any _) fun v _ => gives_ok_iff.mpr (everywhere_plain hP rfl)
  | len => exact gives_bind (gives_any _) fun v _ => hplain (length_isPlain _)
  | range =>
    simp only [Builtin.call]
    split
    · exact gives_error _
    · exact gives_bind (hP.range _) fun v hv => gives_ok_iff.mpr hv

namespace StringMethod

theorem trimBy_sublist (drop : Char → Bool) (text : List Char) :
    (Text.trimBy drop text).Sublist text := by
  have hfront : (text.dropWhile drop).Sublist text := List.dropWhile_sublist drop
  have hback := List.dropWhile_sublist (l := (text.dropWhile drop).reverse) drop
  exact (List.reverse_sublist.mp (by simpa [Text.trimBy] using hback)).trans hfront

theorem utf8ByteSize_stripped_le (s : String) (drop : Option (List Char)) :
    (String.ofList (stripped s.toList drop)).utf8ByteSize ≤ s.utf8ByteSize := by
  have hsublist : (stripped s.toList drop).Sublist s.toList := by
    cases drop with
    | none => exact trimBy_sublist _ _
    | some chars => exact trimBy_sublist _ _
  rw [String.utf8ByteSize_ofList, ← String.utf8Len_toList]
  exact String.utf8Len_le_of_sublist hsublist

theorem call_kind (hP : Closed P) (m : StringMethod) {receiver : String}
    (hm : m.isBounded = false → ∀ s, P (.str s))
    (hlist : m.isBounded = false → ∀ items, P (.list items))
    (hreceiver : ∀ s, s.utf8ByteSize ≤ receiver.utf8ByteSize → P (.str s)) (args : Arguments) :
    Gives (Everywhere P) (m.call receiver args) := by
  have hanswer (b : Bool) : Gives (Everywhere P) (pure (.bool b) : Except Fault Value) :=
    gives_ok_iff.mpr (everywhere_plain hP rfl)
  have htext (hunbounded : m.isBounded = false) (text : List Char) :
      Gives (Everywhere P) (pure (ofChars text) : Except Fault Value) :=
    gives_ok_iff.mpr (everywhere_str.mpr (hm hunbounded _))
  unfold StringMethod.call
  split
  · exact gives_error _
  cases m with
  | upper => exact htext rfl _
  | lower => exact htext rfl _
  | strip =>
    exact gives_bind (gives_any _) fun drop _ => gives_ok_iff.mpr
      (everywhere_str.mpr (hreceiver _ (utf8ByteSize_stripped_le receiver drop)))
  | startsWith => exact gives_bind (gives_any _) fun _ _ => hanswer _
  | endsWith => exact gives_bind (gives_any _) fun _ _ => hanswer _
  | split =>
    refine gives_bind (gives_any _) fun _ _ => gives_bind (gives_any _) fun texts _ => ?_
    refine gives_ok_iff.mpr (everywhere_list_iff.mpr ⟨hlist rfl _, fun x hx => ?_⟩)
    obtain ⟨text, -, rfl⟩ := List.mem_map.mp hx
    exact everywhere_str.mpr (hm rfl _)
  | join =>
    simp only [apply, joined]
    split
    · exact gives_error _
    · exact gives_bind (gives_any _) fun _ _ => gives_bind (gives_any _) fun _ _ => htext rfl _
  | replace =>
    exact gives_bind (gives_any _) fun _ _ => gives_bind (gives_any _) fun _ _ => htext rfl _

end StringMethod

end LiveDoc
