import LiveDoc.Proofs.Evaluation.DistinctKeys
import LiveDoc.Proofs.Evaluation.RangeItems

/-!
The limit of texts and lists. What `+`, `*` and `range` make is within the limit or refused, so no
program makes anything longer from values within the limit, unless it stores a format string or what
comes of `str`, `repr` or one of the methods that change, cut or join texts: these do not look at
the limit.
-/
namespace LiveDoc

open Fragment Outcome Value Evaluation

variable {σ : Type} {h : Host σ} {env env' : Environment} {names : List String}

namespace Value

/-- The text or the list that the value is, or the text that it has with it, is within the limit. -/
def Short : Value → Prop
  | str s => s.utf8ByteSize ≤ lengthLimit
  | list items => items.length ≤ lengthLimit
  | dict entries => ∀ entry ∈ entries, entry.1.utf8ByteSize ≤ lengthLimit
  | scope s => s.name.utf8ByteSize ≤ lengthLimit ∧ s.path.utf8ByteSize ≤ lengthLimit
  | method receiver _ => receiver.utf8ByteSize ≤ lengthLimit
  | nothing | bool _ | int _ | float _ | builtin _ => True

def WithinLimit (v : Value) : Prop := v.Everywhere Short

/-- What the value returns when it is called is within the limit. -/
def IsBounded : Value → Prop
  | builtin f => f.isBounded = true
  | method _ m => m.isBounded = true
  | _ => True

/-- The value is within the limit, and so is what comes of calling functions in it. -/
def KeepsLimit (v : Value) : Prop := v.Everywhere fun u => u.Short ∧ u.IsBounded

variable {v w r : Value}

theorem KeepsLimit.withinLimit (hv : v.KeepsLimit) : v.WithinLimit := fun u hu => (hv u hu).1

theorem short_of_isPlain (hv : v.isPlain = true) : v.Short ∧ v.IsBounded := by
  cases v with
  | nothing => exact ⟨trivial, trivial⟩
  | bool b => exact ⟨trivial, trivial⟩
  | int n => exact ⟨trivial, trivial⟩
  | float x => exact ⟨trivial, trivial⟩
  | _ => cases hv

theorem short_setEntry {entries : List (String × Value)} {key : String} (v : Value)
    (hentries : (dict entries).Short) (hkey : (str key).Short) :
    (dict (setEntry key v entries)).Short := by
  intro entry hentry
  rcases mem_setEntry hentry with rfl | hold
  · exact hkey
  · exact hentries entry hold

theorem closed_short : Closed Short where
  plain hv := (short_of_isPlain hv).1
  text hs := hs
  list hitems := hitems
  noEntries := nofun
  set i v hitems := (List.length_set (i := i) (a := v)).trans_le hitems
  key hentries hentry := hentries _ hentry
  setEntry := short_setEntry

theorem closed_keepsLimit : Closed fun v => v.Short ∧ v.IsBounded where
  plain := short_of_isPlain
  text hs := ⟨hs, trivial⟩
  list hitems := ⟨hitems, trivial⟩
  noEntries := ⟨nofun, trivial⟩
  set i v hitems := ⟨closed_short.set i v hitems.1, trivial⟩
  key hentries hentry := ⟨hentries.1 _ hentry, trivial⟩
  setEntry v hentries hkey := ⟨short_setEntry v hentries.1 hkey.1, trivial⟩

/-! ### What operators make, however long it is -/

/-- A text or a list as often as a number says. -/
def times? (v count : Value) : Option Value :=
  match v, count.toInt? with
  | str s, some n => some (str (String.ofList (List.replicate n.toNat s.toList).flatten))
  | list items, some n => some (list (List.replicate n.toNat items).flatten)
  | _, _ => none

/-- What the operator makes of texts, lists and numbers of times. -/
def extended? (op : BinaryOp) (v w : Value) : Option Value :=
  match op, v, w with
  | .add, str s, str t => some (str (s ++ t))
  | .add, list xs, list ys => some (list (xs ++ ys))
  | .mul, v, w => (times? v w).or (times? w v)
  | _, _, _ => none

/-- The value if it is within the limit, and an exception otherwise. -/
def IfShort (r : Value) (result : Except Fault Value) : Prop :=
  (r.Short → result = .ok r) ∧ (¬ r.Short → result = .error .sequenceTooLarge)

theorem ifShort_ofLength {length : Nat} (h : r.Short ↔ length ≤ lengthLimit) :
    r.IfShort (ofLength length r) :=
  ⟨fun hr => if_pos (h.mp hr), fun hr => if_neg fun hle => hr (h.mpr hle)⟩

theorem repeat_eq_replicate {α : Type} (items : List α) (count : Nat) :
    count.repeat (items ++ ·) [] = (List.replicate count items).flatten := by
  induction count with
  | zero => rfl
  | succ count ih => rw [Nat.repeat, ih, List.replicate_succ, List.flatten_cons]

theorem repeat_eq_ofList (s : String) (count : Nat) :
    count.repeat (· ++ s) "" = String.ofList (List.replicate count s.toList).flatten := by
  induction count with
  | zero => rfl
  | succ count ih =>
    rw [Nat.repeat, ih, List.replicate_succ', List.flatten_append, String.ofList_append]
    simp

theorem ifShort_repeatText (s : String) (count : Nat) :
    (str (String.ofList (List.replicate count s.toList).flatten)).IfShort
      (repeatText s count) := by
  rw [← repeat_eq_ofList]
  have hsize := utf8ByteSize_repeat s count
  simp only [IfShort, Short, repeatText, hsize]
  by_cases hzero : s.utf8ByteSize * count = 0
  · rw [hzero] at hsize
    have hempty : count.repeat (· ++ s) "" = "" := String.utf8ByteSize_eq_zero_iff.mp hsize
    simp [hzero, hempty]
  · rw [if_neg hzero]
    exact ⟨fun hshort => if_pos hshort, fun hlong => if_neg hlong⟩

theorem ifShort_repeatItems (items : List Value) (count : Nat) :
    (list (List.replicate count items).flatten).IfShort (repeatItems items count) := by
  rw [← repeat_eq_replicate]
  have hlength := length_repeat items count
  simp only [IfShort, Short, repeatItems, hlength]
  by_cases hzero : items.length * count = 0
  · rw [hzero] at hlength
    have hempty : count.repeat (items ++ ·) [] = [] := List.length_eq_zero_iff.mp hlength
    simp [hzero, hempty]
  · rw [if_neg hzero]
    exact ⟨fun hshort => if_pos hshort, fun hlong => if_neg hlong⟩

/-- Whatever is repeated is repeated as often as the number says, if the result is short. -/
theorem repeated?_eq_of_times? (v w : Value) :
    (times? v w = none ∧ repeated? v w = none) ∨
      ∃ r result, times? v w = some r ∧ repeated? v w = some result ∧ r.IfShort result := by
  cases hcount : w.toInt? with
  | none =>
    left
    cases v with
    | _ => simp [times?, repeated?, hcount]
  | some n =>
    cases v with
    | str s =>
      exact .inr ⟨_, _, by simp only [times?, hcount], by simp only [repeated?, hcount],
        ifShort_repeatText s n.toNat⟩
    | list items =>
      exact .inr ⟨_, _, by simp only [times?, hcount], by simp only [repeated?, hcount],
        ifShort_repeatItems items n.toNat⟩
    | _ => exact .inl ⟨rfl, rfl⟩

theorem binary_of_extended? {op : BinaryOp} (h : extended? op v w = some r) :
    r.IfShort (Value.binary op v w) := by
  unfold extended? at h
  split at h
  · rename_i s t
    cases h
    exact ifShort_ofLength (by rw [Short, String.utf8ByteSize_append])
  · rename_i xs ys
    cases h
    exact ifShort_ofLength (by rw [Short, List.length_append])
  · rw [Value.binary]
    rcases repeated?_eq_of_times? v w with ⟨hnone, hleft⟩ | ⟨r', result, hr', hleft, hshort⟩
    · rw [hnone, Option.none_or] at h
      rcases repeated?_eq_of_times? w v with ⟨hnone', -⟩ | ⟨r', result, hr', hright, hshort⟩
      · rw [hnone'] at h
        cases h
      · rw [hr'] at h
        cases h
        rwa [hleft, hright]
    · rw [hr'] at h
      cases h
      rwa [hleft]
  · cases h

end Value

/-! ### Expressions and programs -/

namespace Fragment

/-- The text or the list that the expression writes out is within the limit. -/
def Expr.IsShort : Expr → Prop
  | .constant (.str s) => s.utf8ByteSize ≤ lengthLimit
  | .format parts => ∀ s, .literal s ∈ parts → s.utf8ByteSize ≤ lengthLimit
  | .list items => items.length ≤ lengthLimit
  | _ => True

/-- The expression is short itself and makes what it makes with regard to the limit, if the names
stand for values that keep it. -/
def Expr.KeepsLimit (names : List String) (e : Expr) : Prop :=
  e.IsShort ∧
    match e with
    | .name s => s ∈ names
    | .format _ => False
    | .attribute _ s => ∀ m, StringMethod.ofName? s = some m → m.isBounded = true
    | _ => True

theorem suits_keepsLimit :
    Suits (Expr.KeepsLimit names) fun v => v.Short ∧ v.IsBounded where
  toClosed := closed_keepsLimit
  constant {c} hc := by
    cases c with
    | str s => exact ⟨hc.1, trivial⟩
    | _ => exact ⟨trivial, trivial⟩
  format hparts := hparts.2.elim
  items hitems hlength := ⟨hlength.trans_le hitems.1, trivial⟩
  ofObject {object name v} hname hv := by
    cases v with
    | str s =>
      cases hfound : StringMethod.ofName? name with
      | some m => simpa [attributeOf, hfound] using ⟨hv.1, hname.2 m hfound⟩
      | none => simp [attributeOf, hfound]
    | scope s =>
      cases hfound : attributeOfScope? s name with
      | none => simp [attributeOf, hfound]
      | some v =>
        rw [attributeOf, hfound, gives_ok_iff]
        unfold attributeOfScope? at hfound
        split at hfound
        · cases hfound
          exact ⟨hv.1.1, trivial⟩
        · cases hfound
          exact ⟨trivial, trivial⟩
        · cases hfound
          exact ⟨hv.1.2, trivial⟩
        · cases hfound
    | _ => exact gives_error _
  function hf hunbounded := absurd hf.2 (by simp [IsBounded, hunbounded])
  method hm hunbounded := absurd hm.2 (by simp [IsBounded, hunbounded])
  receiver hm _ hs := ⟨Nat.le_trans hs hm.1, trivial⟩

end Fragment

/-- All values that names hold are within the limit. The values of some names also return no others
when they are called. -/
structure Environment.KeepsLimit (names : List String) (env : Environment) : Prop where
  withinLimit : env.All WithinLimit
  load : ∀ name ∈ names, Gives Value.KeepsLimit (env.load name)

namespace Environment.KeepsLimit

variable {key : String} {v index : Value}

theorem set (henv : env.KeepsLimit names) (key : String) (hv : v.KeepsLimit) :
    (env.set key v).KeepsLimit names where
  withinLimit := henv.withinLimit.set key hv.withinLimit
  load name hname u hu := by
    rw [load_eq_ok_iff, get?_set] at hu
    by_cases hkey : name = key
    · rw [if_pos hkey] at hu
      cases hu
      exact hv
    · rw [if_neg hkey] at hu
      exact henv.load name hname u (load_eq_ok_iff.mpr hu)

theorem store (henv : env.KeepsLimit names) (hindex : index.KeepsLimit) (hv : v.KeepsLimit)
    (h : env.store key index v = .ok env') : env'.KeepsLimit names where
  withinLimit := henv.withinLimit.store closed_short hindex.withinLimit hv.withinLimit h
  load name hname := by
    obtain ⟨container, hload, hrest⟩ := bind_eq_ok_iff.mp h
    obtain ⟨changed, hset, hresult⟩ := bind_eq_ok_iff.mp hrest
    cases hresult
    by_cases hkey : name = key
    · subst hkey
      rw [load_replace? hload, gives_ok_iff]
      exact closed_keepsLimit.setItem (henv.load name hname _ hload) hindex hv _ hset
    · rw [load_replace?_of_ne hkey]
      exact henv.load name hname

end Environment.KeepsLimit

theorem supplies_keepsLimit :
    SuppliesFrom (Expr.Throughout (Expr.KeepsLimit names)) h (·.KeepsLimit names)
      Value.KeepsLimit where
  eval e he henv hrun :=
    suits_keepsLimit.yieldsOnly_eval (fun name hname => henv.load name hname.2) e he
      _ _ _ trivial hrun
  item hcontainer hitem := closed_keepsLimit.item hcontainer _ _ hitem
  binary hv hw hresult := closed_keepsLimit.binary hv hw _ _ hresult
  visited hv hvalues := closed_keepsLimit.visited hv _ hvalues

theorem admits_keepsLimit (target : Target) :
    target.Admits Value.KeepsLimit (·.KeepsLimit names) := by
  cases target with
  | name s => exact fun env v henv hv => henv.set s hv
  | item s index => exact fun env env' i v henv hi hv hstore => henv.store hi hv hstore

/-- An evaluation comes to the value if it is within the limit, and to an exception otherwise. -/
def Evaluation.ComesTo (result : EStateM.Result Stop σ Value) (r : Value) (s : σ) : Prop :=
  (r.Short → result = .ok r s) ∧ (¬ r.Short → Raises result "MemoryError")

/-- A program that stores neither format strings nor what functions and methods make without regard
to the limit leaves all values within the limit, and also if it fails. What would be longer is
refused by `+`, by `*` and by `range`. -/
theorem runProgram_keepsLimit (h : Host σ) :
    (∀ (rounds : Nat) (names : List String) (program : Program) (m : Machine σ),
      (∀ e ∈ sourcesIn program, e.Throughout (Expr.KeepsLimit names)) →
      m.environment.KeepsLimit names →
      (stateOf (runProgram h rounds program m)).environment.KeepsLimit names) ∧
    (∀ env op left right v w r s s₁ s₂, left.eval h env s = .ok v s₁ →
      right.eval h env s₁ = .ok w s₂ → extended? op v w = some r →
      ComesTo ((Expr.binary op left right).eval h env s) r s₂) ∧
    ∀ env callee args start stop step s s₁ s₂, step ≠ 0 →
      callee.eval h env s = .ok (.builtin .range) s₁ →
      evalItems h env args s₁ = .ok [.int start, .int stop, .int step] s₂ →
      ComesTo ((Expr.call callee args []).eval h env s)
        (.list ((List.range (rangeLength start stop step)).map
          fun (i : Nat) => .int (start + i * step))) s₂ := by
  refine ⟨?_, ?_, ?_⟩
  · intro rounds names program m hprogram henv
    exact keeps_runProgram_of_sources supplies_keepsLimit rounds
      (fun target _ => admits_keepsLimit target) hprogram m henv
  · intro env op left right v w r s s₁ s₂ hleft hright hr
    obtain ⟨hshort, hlong⟩ := binary_of_extended? hr
    rw [eval_binary op hleft hright]
    constructor
    · intro h
      exact settle_eq_ok_iff.mpr ⟨hshort h, rfl⟩
    · intro h
      exact raises_settle_iff.mpr ⟨_, hlong h, rfl⟩
  · intro env callee args start stop step s s₁ s₂ hzero hcallee hargs
    have hcall := eval_call_builtin hcallee hargs
    rw [call_range hzero] at hcall
    rw [hcall, ComesTo, Short, List.length_map, List.length_range]
    constructor
    · intro hfew
      rw [if_neg (Nat.not_lt.mpr hfew)]
      rfl
    · intro hmany
      rw [if_pos (Nat.not_le.mp hmany)]
      exact ⟨.rangeTooLarge, s₂, rfl, rfl⟩

/-! ### Two programs -/

/-- The assignments `s = 'ab' * 2` and `s += 'c'`. -/
def doubledText : Program :=
  [.mk 1 (.assign (.name "s") (.binary .mul (.constant (.str "ab")) (.constant (.int 2)))),
    .mk 2 (.update (.name "s") .add (.constant (.str "c")))]

/-- A call of `range` with one number. -/
def countTo (n : Nat) : Expr :=
  .call (.name "range") [.constant (.int 0), .constant (.int n), .constant (.int 1)] []

theorem evalItems_countTo (n : Nat) :
    evalItems grantingRecorder .initial
        [.constant (.int 0), .constant (.int n), .constant (.int 1)] .initial =
      .ok [.int 0, .int n, .int 1] .initial := rfl

theorem Environment.keepsLimit_initial (hnames : ∀ name ∈ names, name ∉ ["str", "repr"]) :
    initial.KeepsLimit names where
  withinLimit := by
    refine ⟨nofun, fun entry hentry => ?_⟩
    obtain ⟨f, -, rfl⟩ := List.mem_map.mp hentry
    exact (everywhere_of_isAtom rfl).mpr trivial
  load name hname v hload := by
    obtain ⟨f, -, hf⟩ := List.mem_map.mp (mem_of_lookup (load_eq_ok_iff.mp hload))
    obtain ⟨rfl, rfl⟩ := Prod.mk.inj hf
    have hother := hnames _ hname
    refine (everywhere_of_isAtom rfl).mpr ⟨trivial, ?_⟩
    cases f with
    | str => exact absurd hother (by decide)
    | repr => exact absurd hother (by decide)
    | _ => rfl

/-- A text of five bytes is made; one of 10000002 bytes is refused, and so is a range of as many
numbers. -/
theorem runProgram_keepsLimit_of_doubledText :
    (∀ e ∈ sourcesIn doubledText, e.Throughout (Expr.KeepsLimit ["s"])) ∧
      Environment.initial.KeepsLimit ["s"] ∧
      (stateOf (runProgram grantingRecorder 0 doubledText
        ⟨.initial, .initial⟩)).environment.KeepsLimit ["s"] ∧
      shownLocals ["s"] (stateOf (runProgram grantingRecorder 0 doubledText
        ⟨.initial, .initial⟩)).environment = [some "'ababc'"] ∧
      Raises (evalFirst (.binary .mul (.constant (.str "ab")) (.constant (.int 5000001))))
        "MemoryError" ∧
      Raises (evalFirst (countTo 10000002)) "MemoryError" := by
  obtain ⟨hrun, hoperator, hrange⟩ := runProgram_keepsLimit grantingRecorder
  have hsources : ∀ e ∈ sourcesIn doubledText, e.Throughout (Expr.KeepsLimit ["s"]) := by
    have hab : (Expr.constant (.str "ab")).Throughout (Expr.KeepsLimit ["s"]) :=
      .mk ⟨(by decide : "ab".utf8ByteSize ≤ lengthLimit), trivial⟩ nofun
    have htwo : (Expr.constant (.int 2)).Throughout (Expr.KeepsLimit ["s"]) :=
      .mk ⟨trivial, trivial⟩ nofun
    have hname : (Expr.name "s").Throughout (Expr.KeepsLimit ["s"]) :=
      .mk ⟨trivial, by decide⟩ nofun
    have hc : (Expr.constant (.str "c")).Throughout (Expr.KeepsLimit ["s"]) :=
      .mk ⟨(by decide : "c".utf8ByteSize ≤ lengthLimit), trivial⟩ nofun
    simp only [doubledText, sourcesIn, Stmt.sources, Action.sources, List.append_nil,
      List.cons_append, List.nil_append, List.forall_mem_cons]
    refine ⟨.mk ⟨trivial, trivial⟩ ?_, hname, hc, nofun⟩
    simp only [Expr.passed, List.forall_mem_cons]
    exact ⟨hab, htwo, nofun⟩
  have hinitial : Environment.initial.KeepsLimit ["s"] :=
    Environment.keepsLimit_initial (by decide)
  refine ⟨hsources, hinitial, hrun 0 _ _ _ hsources hinitial, by decide +kernel, ?_, ?_⟩
  · refine (hoperator .initial .mul (.constant (.str "ab")) (.constant (.int 5000001)) _ _ _
      .initial _ _ rfl rfl rfl).2 ?_
    rw [Short, ← repeat_eq_ofList, utf8ByteSize_repeat]
    decide
  · refine (hrange .initial (.name "range") _ 0 10000002 1 .initial _ _ (by decide) rfl
      (evalItems_countTo 10000002)).2 ?_
    rw [Short, List.length_map, List.length_range]
    decide

/-- The expression `f"\x7b'x' * n\x7dy"`. -/
def oneMoreThan (n : Nat) : Expr :=
  .format [.field (.binary .mul (.constant (.str "x")) (.constant (.int n))), .literal "y"]

/-- The assignment of a format string to `s`. -/
def storeOneMoreThan (n : Nat) : Program := [.mk 1 (.assign (.name "s") (oneMoreThan n))]

/-- All texts and lists written out in the expression and in the fields of its format strings are
within the limit. -/
inductive Fragment.Expr.LiteralsShort : Expr → Prop
  | mk {e : Expr} (here : e.IsShort) (inside : ∀ part ∈ e.parts, LiteralsShort part.2)
      (fields : ∀ parts f, e = .format parts → .field f ∈ parts → LiteralsShort f) :
    LiteralsShort e

theorem literalsShort_oneMoreThan (n : Nat) : (oneMoreThan n).LiteralsShort := by
  have hx : (Expr.constant (.str "x")).LiteralsShort :=
    .mk (by decide : "x".utf8ByteSize ≤ lengthLimit) nofun nofun
  have hn : (Expr.constant (.int n)).LiteralsShort := .mk trivial nofun nofun
  have hproduct : (Expr.binary .mul (.constant (.str "x")) (.constant (.int n))).LiteralsShort := by
    refine .mk trivial (fun part hpart => ?_) nofun
    rcases List.mem_pair.mp hpart with rfl | rfl
    · exact hx
    · exact hn
  refine .mk (fun s hs => ?_) nofun fun parts f hparts hf => ?_
  · rcases List.mem_pair.mp hs with hfield | hliteral
    · cases hfield
    · cases hliteral
      decide
  · cases hparts
    rcases List.mem_pair.mp hf with hfield | hliteral
    · cases hfield
      exact hproduct
    · cases hliteral

theorem eval_oneMoreThan {n : Nat} (hn : n ≤ lengthLimit) (s : Recorder) :
    ∃ text, (oneMoreThan n).eval grantingRecorder .initial s = .ok (.str text) s ∧
      text.utf8ByteSize = n + 1 := by
  let xs := n.repeat (· ++ "x") ""
  have hsize : xs.utf8ByteSize = n := by
    rw [utf8ByteSize_repeat]
    exact Nat.one_mul n
  have hproduct : Value.binary .mul (.str "x") (.int n) = .ok (.str xs) := by
    have hfew : extended? .mul (.str "x") (.int n) =
        some (.str (String.ofList (List.replicate n "x".toList).flatten)) := rfl
    rw [← repeat_eq_ofList] at hfew
    exact (binary_of_extended? hfew).1 (hsize.trans_le hn)
  have hfield : (Expr.binary .mul (.constant (.str "x")) (.constant (.int n))).eval
      grantingRecorder .initial s = .ok (.str xs) s := by
    rw [eval_binary .mul (v := .str "x") (w := .int n) rfl rfl, hproduct]
    rfl
  have hy : "y".utf8ByteSize = 1 := rfl
  refine ⟨"" ++ xs ++ "y", ?_, by simp [hsize, hy]⟩
  simp only [oneMoreThan, Expr.eval, evalParts, FormatPart.eval, bind, EStateM.bind, pure,
    EStateM.pure] at hfield ⊢
  simp only [hfield]
  rfl

/-- The text stored is longer than the limit, though the field and the literal text behind it are
not. -/
theorem longer_than_lengthLimit :
    Environment.initial.All WithinLimit ∧
      (∀ e ∈ sourcesIn (storeOneMoreThan lengthLimit), e.LiteralsShort) ∧
      (∃ m', runProgram grantingRecorder 0 (storeOneMoreThan lengthLimit) ⟨.initial, .initial⟩ =
          .ok () m' ∧
        ¬ m'.environment.All WithinLimit) := by
  have hinitial : Environment.initial.KeepsLimit [] := Environment.keepsLimit_initial nofun
  refine ⟨hinitial.withinLimit, ?_, ?_⟩
  · intro e he
    obtain rfl := List.mem_singleton.mp he
    exact literalsShort_oneMoreThan _
  · obtain ⟨text, heval, hsize⟩ := eval_oneMoreThan (Nat.le_refl lengthLimit) .initial
    refine ⟨⟨Environment.initial.set "s" (.str text), .initial⟩, ?_, fun hall => ?_⟩
    · simp only [runProgram, storeOneMoreThan, runBlock, Stmt.run, Action.run, runAssign,
        Execution.evaluate, bind, EStateM.bind, heval]
      rfl
    · have hshort := (hall.load "s" (.str text) rfl).whole
      exact absurd hshort (by rw [Short, hsize]; decide)

end LiveDoc
