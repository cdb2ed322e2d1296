import LiveDoc.Proofs.Evaluation.Stores
import LiveDoc.Proofs.Fragment.TreeHeight
import LiveDoc.Proofs.Value.Kinds

/-!
The values of expressions, as far as they are of one kind. While the names hold no others, an
expression has none, if the kind is one that every operation on values keeps. What some kinds do not
take, such as a text of any length, the expression must not make.
-/
namespace LiveDoc

open Fragment Outcome Value Evaluation

variable {σ ε α β : Type} {env env' : Environment} {h : Host σ} {P : Value → Prop}
  {fine : Expr → Prop}

section Rules

variable {p : α → Prop} {q : β → Prop} {act : EStateM ε σ α} {next : α → EStateM ε σ β}

/-- From whatever state it starts, the computation has no other values than those with `p`. -/
abbrev YieldsOnly (p : α → Prop) (act : EStateM ε σ α) : Prop := Yields (fun _ => True) p act

theorem yieldsOnly_bind (hact : YieldsOnly p act) (hnext : ∀ a, p a → YieldsOnly q (next a)) :
    YieldsOnly q (act >>= next) :=
  yields_bind (fun _ _ => trivial) hact hnext

/-- A first step whose value does not matter. -/
theorem yieldsOnly_after (hnext : ∀ a, YieldsOnly q (next a)) : YieldsOnly q (act >>= next) :=
  yieldsOnly_bind (yields_any act) fun a _ => hnext a

theorem yieldsOnly_settle {r : Except Fault α} (hr : Gives p r) :
    YieldsOnly p (settle r : Evaluation σ α) :=
  fun _ a _ _ hrun => hr a (settle_eq_ok_iff.mp hrun).1

end Rules

/-! ### Expressions -/

namespace Fragment

namespace Expr

/-- The parts whose values can come to be the value of the expression or to lie in it. A comparison
is a truth value whatever it compares, and what a function returns does not hold its arguments. -/
def passed : Expr → List Expr
  | list items => items
  | dict entries => entries.flatMap fun p => [p.1, p.2]
  | binary _ left right => [left, right]
  | logic _ left right => [left, right]
  | call callee _ _ => [callee]
  | .attribute object _ => [object]
  | item object _ => [object]
  | constant _ | name _ | format _ | unary _ _ | compare _ _ => []

theorem sizeOf_lt_of_mem_passed {e f : Expr} (hf : f ∈ e.passed) : sizeOf f < sizeOf e := by
  have hparts : ∃ edge, (edge, f) ∈ e.parts := by
    cases e with
    | list items => exact ⟨.nested, List.mem_map_of_mem hf⟩
    | dict entries =>
      obtain ⟨p, hp, hmem⟩ := List.mem_flatMap.mp hf
      refine ⟨.nested, List.mem_flatMap.mpr ⟨p, hp, ?_⟩⟩
      grind
    | _ => grind [passed, parts]
  obtain ⟨edge, hpart⟩ := hparts
  exact sizeOf_lt_of_mem_parts hpart

/-- The property holds of the expression and of all that can come to be its value or to lie in
it. -/
inductive Throughout (fine : Expr → Prop) : Expr → Prop
  | mk {e : Expr} (here : fine e) (inside : ∀ f ∈ e.passed, Throughout fine f) :
    Throughout fine e

namespace Throughout

theorem here {e : Expr} (he : e.Throughout fine) : fine e := by
  cases he
  assumption

theorem inside {e f : Expr} (he : e.Throughout fine) (hf : f ∈ e.passed) : f.Throughout fine := by
  cases he with
  | mk _ hpassed => exact hpassed f hf

theorem of_all (hfine : ∀ e, fine e) (e : Expr) : e.Throughout fine :=
  .mk (hfine e) fun f _ => of_all hfine f
termination_by sizeOf e
decreasing_by exact sizeOf_lt_of_mem_passed ‹_›

end Throughout

end Expr

/-- The kind suits what fine expressions make: their constants, their texts and the lists that they
list, the methods they take from a string, and what their functions and methods return. -/
structure Suits (fine : Expr → Prop) (P : Value → Prop) : Prop extends Value.Closed P where
  constant : ∀ {c}, fine (.constant c) → P c.value
  format : ∀ {parts}, fine (.format parts) → ∀ s, P (.str s)
  items : ∀ {items : List Expr} {values : List Value}, fine (.list items) →
    values.length = items.length → P (.list values)
  ofObject : ∀ {object name v}, fine (.attribute object name) → P v → Gives P (v.attributeOf name)
  function : ∀ {f}, P (.builtin f) → f.isBounded = false → ∀ s, P (.str s)
  method : ∀ {receiver m}, P (.method receiver m) → m.isBounded = false →
    (∀ s, P (.str s)) ∧ ∀ items, P (.list items)
  receiver : ∀ {receiver m}, P (.method receiver m) →
    ∀ s, s.utf8ByteSize ≤ receiver.utf8ByteSize → P (.str s)

theorem Constant.value_isAtom (c : Constant) : c.value.isAtom = true := by
  cases c <;> rfl

namespace Suits

theorem yieldsOnly_plain (hP : Suits fine P) {v : Value} (hv : v.isPlain = true) :
    YieldsOnly (Everywhere P) (pure v : Evaluation σ Value) :=
  yields_pure (everywhere_plain hP.toClosed hv)

theorem yieldsOnly_call (hP : Suits fine P) {function : Value} (hfunction : function.Everywhere P)
    (args : Arguments) : YieldsOnly (Everywhere P) (function.call h args) := by
  cases function with
  | builtin f =>
    refine yieldsOnly_bind (yieldsOnly_settle
      (f.call_ofKind hP.toClosed (hP.function hfunction.whole) args)) fun outcome hkind => ?_
    cases outcome with
    | value v => exact yields_pure hkind
    | emit s => exact yieldsOnly_after fun _ => hP.yieldsOnly_plain rfl
    | note s => exact yieldsOnly_after fun _ => hP.yieldsOnly_plain rfl
  | method receiver m =>
    have hmethod := hP.method hfunction.whole
    exact yieldsOnly_settle (m.call_kind hP.toClosed (fun hm => (hmethod hm).1)
      (fun hm => (hmethod hm).2) (hP.receiver hfunction.whole) args)
  | _ => exact yieldsOnly_settle (gives_error _)

mutual

theorem yieldsOnly_eval (hP : Suits fine P)
    (henv : ∀ name, fine (.name name) → Gives (Everywhere P) (env.load name)) :
    (e : Expr) → e.Throughout fine → YieldsOnly (Everywhere P) (e.eval h env)
  | .constant c, he =>
    yields_pure ((everywhere_of_isAtom c.value_isAtom).mpr (hP.constant he.here))
  | .name s, he => yieldsOnly_settle (henv s he.here)
  | .format parts, he =>
    yieldsOnly_after fun s => yields_pure (everywhere_str.mpr (hP.format he.here s))
  | .list items, he =>
    yieldsOnly_bind (yieldsOnly_items hP henv items
      fun e hitem => he.inside hitem) fun _ hvalues =>
        yields_pure (everywhere_list_iff.mpr ⟨hP.items he.here hvalues.1, hvalues.2⟩)
  | .dict entries, he =>
    yieldsOnly_entries hP henv entries
      (fun entry hentry =>
        ⟨he.inside (List.mem_flatMap.mpr ⟨entry, hentry, List.mem_cons_self⟩),
          he.inside (List.mem_flatMap.mpr
            ⟨entry, hentry, List.mem_cons_of_mem _ List.mem_cons_self⟩)⟩)
      (everywhere_dict_iff.mpr ⟨hP.noEntries, nofun⟩)
  | .unary op operand, _ =>
    yieldsOnly_after fun v =>
      yieldsOnly_settle ((unary_isPlain op v).mono fun _ => everywhere_plain hP.toClosed)
  | .binary op left right, he =>
    yieldsOnly_bind (yieldsOnly_eval hP henv left (he.inside List.mem_cons_self)) fun _ ha =>
      yieldsOnly_bind (yieldsOnly_eval hP henv right
        (he.inside (List.mem_cons_of_mem _ List.mem_cons_self))) fun _ hb =>
          yieldsOnly_settle (hP.binary ha hb op)
  | .logic op left right, he => by
    refine yieldsOnly_bind (yieldsOnly_eval hP henv left (he.inside List.mem_cons_self))
      fun a ha => ?_
    cases op.decides a with
    | true => exact yields_pure ha
    | false =>
      exact yieldsOnly_eval hP henv right (he.inside (List.mem_cons_of_mem _ List.mem_cons_self))
  | .compare first others, _ =>
    yieldsOnly_after fun _ => yieldsOnly_after fun _ => hP.yieldsOnly_plain rfl
  | .call callee args named, he =>
    yieldsOnly_bind (yieldsOnly_eval hP henv callee (he.inside List.mem_cons_self))
      fun _ hfunction => yieldsOnly_after fun _ => yieldsOnly_after fun _ =>
        hP.yieldsOnly_call hfunction _
  | .attribute object name, he =>
    yieldsOnly_bind (yieldsOnly_eval hP henv object (he.inside List.mem_cons_self)) fun v hv =>
      yieldsOnly_settle fun a ha =>
        (everywhere_of_isAtom (attributeOf_isAtom v name a ha)).mpr
          (hP.ofObject he.here hv.whole a ha)
  | .item object index, he =>
    yieldsOnly_bind (yieldsOnly_eval hP henv object (he.inside List.mem_cons_self))
      fun _ hcontainer => yieldsOnly_after fun i => yieldsOnly_settle (hP.item hcontainer i)

theorem yieldsOnly_items (hP : Suits fine P)
    (henv : ∀ name, fine (.name name) → Gives (Everywhere P) (env.load name)) :
    (items : List Expr) → (∀ e ∈ items, e.Throughout fine) →
      YieldsOnly (fun values => values.length = items.length ∧ ∀ x ∈ values, x.Everywhere P)
        (evalItems h env items)
  | [], _ => yields_pure ⟨rfl, nofun⟩
  | e :: rest, hitems => by
    obtain ⟨he, hrest⟩ := List.forall_mem_cons.mp hitems
    refine yieldsOnly_bind (yieldsOnly_eval hP henv e he) fun v hv => ?_
    refine yieldsOnly_bind (yieldsOnly_items hP henv rest hrest) fun values hvalues => ?_
    exact yields_pure ⟨congrArg (· + 1) hvalues.1, List.forall_mem_cons.mpr ⟨hv, hvalues.2⟩⟩

theorem yieldsOnly_entries (hP : Suits fine P)
    (henv : ∀ name, fine (.name name) → Gives (Everywhere P) (env.load name)) {dict : Value} :
    (entries : List (Expr × Expr)) →
      (∀ entry ∈ entries, entry.1.Throughout fine ∧ entry.2.Throughout fine) →
      dict.Everywhere P → YieldsOnly (Everywhere P) (evalEntries h env entries dict)
  | [], _, hdict => yields_pure hdict
  | (key, value) :: rest, hentries, hdict => by
    obtain ⟨⟨hkey, hvalue⟩, hrest⟩ := List.forall_mem_cons.mp hentries
    refine yieldsOnly_bind (yieldsOnly_eval hP henv key hkey) fun k hk => ?_
    refine yieldsOnly_bind (yieldsOnly_eval hP henv value hvalue) fun v hv => ?_
    exact yieldsOnly_bind (yieldsOnly_settle (hP.setItem hdict hk hv)) fun _ hchanged =>
      yieldsOnly_entries hP henv rest hrest hchanged

end

end Suits

end Fragment

/-! ### Environments -/

namespace Environment

variable {good : Value → Prop} {name key : String} {v index : Value}

/-- All names hold values of the kind. -/
structure All (good : Value → Prop) (env : Environment) : Prop where
  locals : ∀ entry ∈ env.locals, good entry.2
  globals : ∀ entry ∈ env.globals, good entry.2

theorem All.load (henv : env.All good) (name : String) : Gives good (env.load name) := by
  intro v hv
  rcases Option.or_eq_some_iff.mp (load_eq_ok_iff.mp hv) with hlocal | ⟨-, hglobal⟩
  · exact henv.locals _ (mem_of_lookup hlocal)
  · exact henv.globals _ (mem_of_lookup hglobal)

theorem all_setEntry {entries : List (String × Value)} (hv : good v)
    (hentries : ∀ entry ∈ entries, good entry.2) :
    ∀ entry ∈ setEntry key v entries, good entry.2 := by
  intro entry hentry
  rcases mem_setEntry hentry with rfl | hold
  · exact hv
  · exact hentries entry hold

theorem All.set (henv : env.All good) (key : String) (hv : good v) : (env.set key v).All good :=
  ⟨all_setEntry hv henv.locals, henv.globals⟩

theorem All.setGlobal (henv : env.All good) (key : String) (hv : good v) :
    (env.setGlobal key v).All good :=
  ⟨henv.locals, all_setEntry hv henv.globals⟩

theorem All.replace? (henv : env.All good) (hv : good v) (h : env.replace? key v = some env') :
    env'.All good := by
  unfold Environment.replace? at h
  split at h
  · cases h
    exact henv.set key hv
  · split at h
    · cases h
      exact henv.setGlobal key hv
    · cases h

theorem All.store (hP : Closed P) (henv : env.All (Everywhere P)) (hindex : index.Everywhere P)
    (hv : v.Everywhere P) (h : env.store key index v = .ok env') : env'.All (Everywhere P) := by
  obtain ⟨container, hload, hrest⟩ := bind_eq_ok_iff.mp h
  obtain ⟨changed, hset, hresult⟩ := bind_eq_ok_iff.mp hrest
  have hchanged := hP.setItem (henv.load key container hload) hindex hv changed hset
  cases hresult
  cases hreplace : env.replace? key changed with
  | none => exact henv
  | some after => exact henv.replace? hchanged hreplace

end Environment

end LiveDoc
