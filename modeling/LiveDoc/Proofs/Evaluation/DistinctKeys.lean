import LiveDoc.Proofs.Evaluation.Frame
import LiveDoc.Proofs.Evaluation.Kinds
import LiveDoc.Proofs.Value.DistinctKeys

/-!
The values that the names of a document hold. While no dictionary among them has a key twice, no
expression makes one that has, and so none comes to be in any run. An item that a fragment stores is
the one that is read afterwards.
-/
namespace LiveDoc

open Fragment Outcome Value Evaluation

variable {σ ε α β : Type} {env env' : Environment} {h : Host σ}

theorem suits_keysDiffer : Suits (fun _ => True) KeysDiffer where
  toClosed := closed_keysDiffer
  constant {c} _ := keysDiffer_of_isAtom c.value_isAtom
  format _ _ := trivial
  items _ _ := trivial
  ofObject _ _ := (attributeOf_isAtom _ _).mono fun _ => keysDiffer_of_isAtom
  function _ _ _ := trivial
  method _ _ := ⟨fun _ => trivial, fun _ => trivial⟩
  receiver _ _ _ := trivial

/-! ### Environments -/

namespace Environment

variable {name key : String} {v index : Value}

theorem All.bindUnit (henv : env.All DistinctKeys) (scope : Scope) (place : String) :
    (env.bindUnit scope place).All DistinctKeys :=
  (henv.set "self" (distinctKeys_of_isAtom rfl)).set "__file__" (distinctKeys_of_isAtom rfl)

theorem all_initial : initial.All DistinctKeys := by
  refine ⟨nofun, fun entry hentry => ?_⟩
  obtain ⟨f, -, rfl⟩ := List.mem_map.mp hentry
  exact distinctKeys_of_isAtom rfl

end Environment

theorem supplies_distinctKeys :
    SuppliesFrom (fun _ => True) h (·.All DistinctKeys) DistinctKeys where
  eval e _ henv hrun :=
    suits_keysDiffer.yieldsOnly_eval (fun name _ => henv.load name) e (.of_all (fun _ => trivial) e)
      _ _ _ trivial hrun
  item hcontainer hitem := closed_keysDiffer.item hcontainer _ _ hitem
  binary hv hw hresult := closed_keysDiffer.binary hv hw _ _ hresult
  visited hv hvalues := closed_keysDiffer.visited hv _ hvalues

theorem admits_distinctKeys (target : Target) :
    target.Admits DistinctKeys (·.All DistinctKeys) := by
  cases target with
  | name s => exact fun env v henv hv => henv.set s hv
  | item s index =>
    exact fun env env' i v henv hi hv hstore => henv.store closed_keysDiffer hi hv hstore

/-- No name of a document ever holds a dictionary with a key twice, however deep it lies. -/
theorem Environment.Reachable.distinctKeys (hreach : env.Reachable) : env.All DistinctKeys := by
  induction hreach with
  | initial => exact all_initial
  | bindUnit scope place _ ih => exact ih.bindUnit scope place
  | @runFragment σ m h rounds fragment _ ih =>
    rw [LiveDoc.runFragment]
    cases parseProgram fragment with
    | error e => exact ih
    | ok program =>
      exact keeps_runProgram_of_sources supplies_distinctKeys rounds
        (fun target _ => admits_distinctKeys target) (fun _ _ => trivial) m ih

/-! ### Items of what a name holds -/

theorem Environment.get?_setGlobal (env : Environment) {key : String} (v : Value)
    (hlocal : env.locals.lookup key = none) : (env.setGlobal key v).get? key = some v := by
  rw [get?, Environment.setGlobal, hlocal, lookup_setEntry, if_pos rfl]
  rfl

/-- A name that is bound holds the value that is put in the place of its own. -/
theorem Environment.load_replace? {name : String} {container : Value}
    (hload : env.load name = .ok container) (v : Value) :
    ((env.replace? name v).getD env).load name = .ok v := by
  have hfound := load_eq_ok_iff.mp hload
  rw [load_eq_ok_iff, Environment.replace?]
  cases hlocal : env.locals.lookup name with
  | some old => simp [get?_set]
  | none =>
    rw [get?, hlocal, Option.none_or] at hfound
    simp [hfound, get?_setGlobal env v hlocal]

/-- The other names hold what they held. -/
theorem Environment.load_replace?_of_ne {name key : String} (hother : name ≠ key)
    (env : Environment) (v : Value) :
    ((env.replace? key v).getD env).load name = env.load name := by
  have hglobal : (env.setGlobal key v).get? name = env.get? name := by
    rw [get?, Environment.setGlobal, lookup_setEntry, if_neg hother]
    rfl
  rw [Environment.replace?]
  split
  · rw [Option.getD_some, load, get?_set, if_neg hother]
    rfl
  · split
    · rw [Option.getD_some, load, hglobal]
      rfl
    · rfl

/-- The name holds the changed container afterwards, or else nothing has changed. -/
theorem run_storeItem_of_load {name : String} {container : Value} {m : Machine σ}
    (hload : m.environment.load name = .ok container) (line : Nat) (index v : Value) :
    (∀ after, container.setItem index v = .ok after →
      ∃ env', Execution.storeItem line name index v m = .ok () { m with environment := env' } ∧
        env'.load name = .ok after) ∧
      ∀ fault, container.setItem index v = .error fault →
        Execution.storeItem line name index v m = .error (.raised fault line) m := by
  rw [run_storeItem]
  constructor
  · intro after hset
    have hstore : m.environment.store name index v =
        .ok ((m.environment.replace? name after).getD m.environment) := by
      rw [Environment.store, hload]
      simp only [bind, Except.bind, hset]
      rfl
    rw [hstore]
    exact ⟨_, rfl, Environment.load_replace? hload after⟩
  · intro fault hset
    have hstore : m.environment.store name index v = .error fault := by
      rw [Environment.store, hload]
      simp only [bind, Except.bind, hset]
    rw [hstore]

/-- In every environment that comes of running fragments, all dictionaries have different keys. The
items of a list or a dictionary are read as they were stored. In a list they are stored exactly
where they can be read, in a dictionary under every string. What a name holds is changed by a store
that succeeds and by no other. -/
theorem items_read_as_stored :
    (∀ env : Environment, env.Reachable → env.All DistinctKeys) ∧
      (∀ container index v after, container.setItem index v = .ok after →
        Stored container index v after) ∧
      (∀ items index v, ((Value.list items).setItem index v).isOk =
        ((Value.list items).item index).isOk) ∧
      (∀ entries index v, ((Value.dict entries).setItem index v).isOk = true ↔
        ∃ key, index = .str key) ∧
      ∀ {σ : Type} (m : Machine σ) (line : Nat) (name : String) (container index v : Value),
        m.environment.load name = .ok container →
          (∀ after, container.setItem index v = .ok after →
            ∃ env', Execution.storeItem line name index v m =
                .ok () { m with environment := env' } ∧
              env'.load name = .ok after) ∧
            ∀ fault, container.setItem index v = .error fault →
              Execution.storeItem line name index v m = .error (.raised fault line) m := by
  refine ⟨fun env hreach => hreach.distinctKeys, ?_, isOk_setItem_list, isOk_setItem_dict, ?_⟩
  · intro container index v after hset
    exact stored_of_setItem hset
  · intro σ m line name container index v hload
    exact run_storeItem_of_load hload line index v

def nestItems : List Char := "xs = [1, 2, 3]\nd = \x7b'a': xs\x7d\nd['b'] = xs[-1]\n".toList

/-- A dictionary in which a list lies. -/
def nestedItems : Environment :=
  (stateOf (runFragment recordingHost 0 nestItems
    ⟨.bindUnit .initial ⟨"d", 0, "/"⟩ "<d:1>", .initial⟩)).environment

def threeItems : Value := .list [.int 1, .int 2, .int 3]

/-- A truth value denotes the second item, and so does minus two. No item is stored under the least
integer. -/
theorem items_read_as_stored_of_three :
    nestedItems.Reachable ∧ nestedItems.All DistinctKeys ∧
      shownLocals ["xs", "d"] nestedItems =
        [some "[1, 2, 3]", some "\x7b'a': [1, 2, 3], 'b': 3\x7d"] ∧
      threeItems.setItem (.bool true) .nothing = .ok (.list [.int 1, .nothing, .int 3]) ∧
      Stored threeItems (.bool true) .nothing (.list [.int 1, .nothing, .int 3]) ∧
      threeItems.slot? (.int (-2)) = threeItems.slot? (.bool true) ∧
      (Value.list [.int 1, .nothing, .int 3]).item (.int (-2)) = .ok .nothing ∧
      (Environment.initial.set "xs" threeItems).load "xs" = .ok threeItems ∧
      threeItems.setItem (.int Integer64.least) .nothing = .error .outOfRangeToSet ∧
      Execution.storeItem 1 "xs" (.int Integer64.least) .nothing
        ⟨Environment.initial.set "xs" threeItems, ()⟩ =
          .error (.raised .outOfRangeToSet 1) ⟨Environment.initial.set "xs" threeItems, ()⟩ := by
  have hreach : nestedItems.Reachable := .runFragment _ _ _ (.bindUnit _ _ .initial)
  have hset : threeItems.setItem (.bool true) .nothing = .ok (.list [.int 1, .nothing, .int 3]) :=
    rfl
  have hload : (Environment.initial.set "xs" threeItems).load "xs" = .ok threeItems := rfl
  have hfails : threeItems.setItem (.int Integer64.least) .nothing = .error .outOfRangeToSet := rfl
  obtain ⟨hkeys, hstored, -, -, hstore⟩ := items_read_as_stored
  have hafter := hstored _ _ _ _ hset
  refine ⟨hreach, hkeys _ hreach, by decide +kernel, hset, hafter, rfl, hafter.read _ rfl, hload,
    hfails, ?_⟩
  exact (hstore ⟨_, ()⟩ 1 "xs" threeItems _ _ hload).2 _ hfails

end LiveDoc
