import LiveDoc.Proofs.Evaluation.Stores
import LiveDoc.Proofs.Execution.CallLog

/-!
Updates as assignments. To update what a name holds is to assign the result of the operation to it:
the steps are the same ones in the same order. The assignment to an item evaluates the index twice,
once to read the item and once more to store the result. An index that emits nothing has the same
value both times, wherever the host stands, and leaves nothing behind but its remarks. So an update
of the item succeeds whenever the assignment does, and makes the same of it.
-/
namespace LiveDoc

open Fragment Outcome

variable {σ α : Type} {h : Host σ} {env : Environment} {e index : Expr} {v : Value} {s : σ}
  {remarks : List String}

/-! ### Evaluations that emit nothing -/

/-- Evaluated in this environment and this state of the host, the expression does not ask the host
to take a text. -/
def Fragment.Expr.EmitsNothing (h : Host σ) (env : Environment) (s : σ) (e : Expr) : Prop :=
  ∀ text result,
    .emitted text result ∉ (stateOf (e.eval (Logged.host h) env ⟨s, []⟩)).calls

/-- The host takes remarks one after the other. -/
def Host.noteAll (h : Host σ) (remarks : List String) (s : σ) : σ :=
  remarks.foldl (fun s remark => h.note remark s) s

theorem noteAll_append (h : Host σ) (first second : List String) (s : σ) :
    h.noteAll (first ++ second) s = h.noteAll second (h.noteAll first s) :=
  List.foldl_append

/-- A host that refuses all texts and writes the remarks down. -/
def remarkHost : Host (List String) where
  openScope _ _ := throw (.rejected "")
  closeScope _ := throw (.rejected "")
  emitText _ := throw (.rejected "")
  reportError _ remarks := (.halt, remarks)
  reportFatal _ remarks := remarks
  note remark remarks := remarks ++ [remark]

/-- Up to the first text, a host and the one that refuses it go alike. Nothing is asked of the
states at the refusal. -/
theorem serveUntil_remarkHost (h : Host σ) (s : σ) :
    ServeUntil (fun t remarks => t = h.noteAll remarks s) (fun _ _ _ => True) h remarkHost where
  emit _ :=
    { ends := fun _ remarks _ => .inr ⟨_, remarks, rfl, trivial⟩
      goesOn := fun _ _ _ _ => trivial }
  note remark t remarks ht := by
    rw [ht]
    exact (noteAll_append h remarks [remark] s).symm
  noteOn _ _ _ _ _ := trivial

/-- A text is written down whether it is taken or not. -/
theorem calls_emitText (h : Host σ) (text : String) (l : Logged σ) :
    (stateOf ((Logged.host h).emitText text l)).calls =
      l.calls ++ [.emitted text (resultOf (h.emitText text l.inner))] := by
  simp only [Logged.host, Logged.stateOf_request, Logged.add]

/-- On a log, what is refused is a text that has been emitted. -/
theorem serveUntil_remarkHost_logged (h : Host σ) :
    ServeUntil (fun l remarks => ∀ call ∈ l.calls, call ∈ remarks.map HostCall.noted)
      (fun _ l _ => ∃ text result, .emitted text result ∈ l.calls) (Logged.host h) remarkHost where
  emit text :=
    { ends := by
        intro l remarks _
        refine .inr ⟨_, remarks, rfl, text, resultOf (h.emitText text l.inner), ?_⟩
        rw [calls_emitText]
        exact List.mem_concat_self
      goesOn := by
        rintro _ l _ ⟨text', result, hmem⟩
        refine ⟨text', result, ?_⟩
        rw [calls_emitText]
        exact List.mem_append_left _ hmem }
  note remark l remarks hcalls := by
    intro call hcall
    have hremarks : call ∈ remarks.map HostCall.noted ++ [HostCall.noted remark] := by
      rcases List.mem_append.mp hcall with hold | hnew
      · exact List.mem_append_left _ (hcalls call hold)
      · exact List.mem_append_right _ hnew
    simpa [remarkHost] using hremarks
  noteOn _ _ _ _ := fun ⟨text, result, hmem⟩ => ⟨text, result, List.mem_append_left _ hmem⟩

/-- What an expression without texts evaluates to is told by the host that refuses them. -/
theorem Fragment.Expr.EmitsNothing.eval_remarkHost (hsilent : e.EmitsNothing h env s) {t : σ}
    (heval : e.eval h env s = .ok v t) :
    ∃ remarks, e.eval remarkHost env [] = .ok v remarks := by
  have hplain : Alike Logged.Of (e.eval (Logged.host h) env) (e.eval h env) :=
    (until_eval (Logged.hostAlike h).toServeAlike.until env e).alike fun _ _ _ hcut => hcut
  have hlogged := hplain ⟨s, []⟩ s rfl
  have hremarks := (until_eval (serveUntil_remarkHost_logged h) env e).ends ⟨s, []⟩ [] (by simp)
  rw [heval] at hlogged
  unfold Fragment.Expr.EmitsNothing at hsilent
  generalize e.eval (Logged.host h) env ⟨s, []⟩ = left at hsilent hlogged hremarks
  cases hlogged with
  | ok hl =>
    rcases hremarks with hmatch | ⟨_, _, -, text, result, hmem⟩
    · generalize e.eval remarkHost env [] = right at hmatch
      cases hmatch with
      | ok _ => exact ⟨_, rfl⟩
    · exact absurd hmem (hsilent text result)

/-- An expression with this value on the host that refuses texts has it on every host. -/
theorem eval_of_remarkHost (heval : e.eval remarkHost env [] = .ok v remarks) (h : Host σ)
    (s : σ) : e.eval h env s = .ok v (h.noteAll remarks s) := by
  have hends := (until_eval (serveUntil_remarkHost h s) env e).ends s [] rfl
  rw [heval] at hends
  generalize e.eval h env s = left at hends
  rcases hends with hmatch | ⟨_, _, hcut, -⟩
  · cases hmatch with
    | ok ht => rw [ht]
  · cases hcut

/-- Without texts, the value and the remarks do not depend on the state of the host. -/
theorem Fragment.Expr.EmitsNothing.eval_eq (hsilent : e.EmitsNothing h env s) {t : σ}
    (heval : e.eval h env s = .ok v t) :
    ∃ remarks, ∀ s', e.eval h env s' = .ok v (h.noteAll remarks s') := by
  obtain ⟨remarks, hremarks⟩ := hsilent.eval_remarkHost heval
  exact ⟨remarks, eval_of_remarkHost hremarks h⟩

/-! ### Steps of a statement -/

theorem evaluate_eq_ok_iff {line : Nat} {act : Environment → Evaluation σ α} {m m' : Machine σ}
    {a : α} :
    Execution.evaluate line act m = .ok a m' ↔
      ∃ t, act m.environment m.host = .ok a t ∧ m' = { m with host := t } := by
  simp only [Execution.evaluate]
  cases act m.environment m.host with
  | ok b t => simp [and_assoc, eq_comm]
  | error stop t => cases stop <;> simp

theorem compute_of_ok {line : Nat} {act : Environment → Except Fault α} {m : Machine σ} {a : α}
    (hact : act m.environment = .ok a) :
    (Execution.compute line act : Execution σ α) m = .ok a m := by
  refine evaluate_eq_ok_iff.mpr ⟨m.host, ?_, rfl⟩
  rw [hact]
  rfl

theorem run_compute_bind {β : Type} {line : Nat} {act : Environment → Except Fault α}
    {next : α → Execution σ β} {m m' : Machine σ} {b : β} :
    (Execution.compute line act >>= next) m = .ok b m' ↔
      ∃ a, act m.environment = .ok a ∧ next a m = .ok b m' := by
  rw [run_bind_eq_ok_iff]
  constructor
  · rintro ⟨a, t, hact, hnext⟩
    obtain ⟨_, hsettle, rfl⟩ := evaluate_eq_ok_iff.mp hact
    obtain ⟨ha, rfl⟩ := settle_eq_ok_iff.mp hsettle
    exact ⟨a, ha, hnext⟩
  · rintro ⟨a, hact, hnext⟩
    exact ⟨a, m, compute_of_ok hact, hnext⟩

/-- The steps of an evaluation are steps of the statement. -/
theorem evaluate_bind {β : Type} (line : Nat) (act : Environment → Evaluation σ α)
    (next : Environment → α → Evaluation σ β) :
    Execution.evaluate line (fun env => act env >>= next env) =
      Execution.evaluate line act >>= fun a => Execution.evaluate line (next · a) := by
  funext m
  simp only [bind, EStateM.bind, Execution.evaluate]
  cases act m.environment m.host with
  | ok a t => rfl
  | error stop t => cases stop <;> rfl

theorem evaluate_binary (h : Host σ) (line : Nat) (op : BinaryOp) (left right : Expr) :
    Execution.evaluate line ((Expr.binary op left right).eval h ·) =
      (do
        let a ← Execution.evaluate line (left.eval h ·)
        let b ← Execution.evaluate line (right.eval h ·)
        Execution.compute line fun _ => Value.binary op a b) := by
  simp only [Expr.eval]
  rw [evaluate_bind]
  congr
  funext a
  rw [evaluate_bind]
  rfl

theorem evaluate_name (h : Host σ) (line : Nat) (x : String) :
    Execution.evaluate line ((Expr.name x).eval h ·) = Execution.compute line (·.load x) := by
  simp only [Expr.eval]
  rfl

theorem evaluate_item (h : Host σ) (line : Nat) (object index : Expr) :
    Execution.evaluate line ((Expr.item object index).eval h ·) =
      (do
        let container ← Execution.evaluate line (object.eval h ·)
        let i ← Execution.evaluate line (index.eval h ·)
        Execution.compute line fun _ => container.item i) := by
  simp only [Expr.eval]
  rw [evaluate_bind]
  congr
  funext container
  rw [evaluate_bind]
  rfl

/-! ### Updates -/

/-- An update of a name takes the steps of the assignment. -/
theorem runUpdate_name (h : Host σ) (line : Nat) (x : String) (op : BinaryOp) (e : Expr) :
    runUpdate h line (.name x) op e = runAssign h line (.name x) (.binary op (.name x) e) := by
  simp only [runUpdate, runAssign]
  rw [evaluate_binary, evaluate_name]
  simp only [bind_assoc]

/-- An update of an item takes the steps of the assignment but for the second evaluation of the
index, which has the value that is there already. -/
theorem runUpdate_item_of_assign {line : Nat} {x : String} {op : BinaryOp} {m m' : Machine σ}
    (hsilent : index.EmitsNothing h m.environment m.host)
    (hrun : runAssign h line (.item x index) (.binary op (.item (.name x) index) e) m =
      .ok () m') :
    ∃ m'' v remarks, runUpdate h line (.item x index) op e m = .ok () m'' ∧
      m''.environment = m'.environment ∧
      index.eval h m.environment m.host = .ok v (h.noteAll remarks m.host) ∧
      m'.host = h.noteAll remarks m''.host := by
  simp only [runAssign] at hrun
  rw [evaluate_binary, evaluate_item, evaluate_name] at hrun
  simp only [bind_assoc] at hrun
  obtain ⟨container, hload, hrun⟩ := run_compute_bind.mp hrun
  obtain ⟨v, m₁, hindex, hrun⟩ := run_bind_eq_ok_iff.mp hrun
  obtain ⟨s₁, hv, rfl⟩ := evaluate_eq_ok_iff.mp hindex
  obtain ⟨current, hitem, hrun⟩ := run_compute_bind.mp hrun
  obtain ⟨w, m₂, hoperand, hrun⟩ := run_bind_eq_ok_iff.mp hrun
  obtain ⟨s₂, hw, rfl⟩ := evaluate_eq_ok_iff.mp hoperand
  obtain ⟨result, hresult, hrun⟩ := run_compute_bind.mp hrun
  obtain ⟨v', m₃, hagain, hrun⟩ := run_bind_eq_ok_iff.mp hrun
  obtain ⟨s₃, hv', rfl⟩ := evaluate_eq_ok_iff.mp hagain
  obtain ⟨env', hstore, hdone⟩ := run_compute_bind.mp hrun
  obtain ⟨remarks, hconstant⟩ := hsilent.eval_eq hv
  obtain ⟨rfl, rfl⟩ : v = v' ∧ h.noteAll remarks s₂ = s₃ := by
    have hsame := (hconstant s₂).symm.trans hv'
    injection hsame with hvalue hstate
    exact ⟨hvalue, hstate⟩
  cases hdone
  have hread : (m.environment.load x >>= fun c => c.item v) = .ok current := by
    rw [hload]
    exact hitem
  refine ⟨⟨env', s₂⟩, v, remarks, ?_, rfl, hconstant m.host, rfl⟩
  simp only [runUpdate]
  rw [run_bind_of_ok hindex]
  refine run_compute_bind.mpr ⟨current, hread, ?_⟩
  rw [run_bind_of_ok hoperand]
  exact run_compute_bind.mpr ⟨result, hresult, run_compute_bind.mpr ⟨env', hstore, rfl⟩⟩

/-- An update is the assignment of the operation. For a name it makes no difference at all. For an
item, the assignment evaluates the index once more: if that emits nothing and the assignment
succeeds, then so does the update, with the same names bound to the same values and with all that
the host was asked for but the repeated remarks. -/
theorem run_update_eq_assign (h : Host σ) (rounds line : Nat) (x : String) (op : BinaryOp)
    (e : Expr) :
    (Action.update (.name x) op e).run h rounds line =
        (Action.assign (.name x) (.binary op (.name x) e)).run h rounds line ∧
      ∀ (index : Expr) (m m' : Machine σ) (flow : Flow),
        index.EmitsNothing h m.environment m.host →
        (Action.assign (.item x index) (.binary op (.item (.name x) index) e)).run h rounds line m =
          .ok flow m' →
        ∃ m'' v remarks,
          (Action.update (.item x index) op e).run h rounds line m = .ok flow m'' ∧
          m''.environment = m'.environment ∧
          index.eval h m.environment m.host = .ok v (h.noteAll remarks m.host) ∧
          m'.host = h.noteAll remarks m''.host := by
  constructor
  · simp only [Action.run]
    rw [runUpdate_name]
  · intro index m m' flow hsilent hrun
    simp only [Action.run] at hrun ⊢
    obtain ⟨_, m₁, hassign, hflow⟩ := run_bind_eq_ok_iff.mp hrun
    cases hflow
    obtain ⟨m'', v, remarks, hupdate, hsame⟩ := runUpdate_item_of_assign hsilent hassign
    exact ⟨m'', v, remarks, run_bind_of_ok hupdate, hsame⟩

/-- `note("i") or 0`. -/
def remarkedIndex : Expr :=
  .logic .or (.call (.name "note") [.constant (.str "i")] []) (.constant (.int 0))

/-- `text("t") or 5`. -/
def emittingOperand : Expr :=
  .logic .or (.call (.name "text") [.constant (.str "t")] []) (.constant (.int 5))

/-- A list with one item, and a recorder in front of it. -/
def oneItem : Machine Recorder := ⟨Environment.initial.set "xs" (.list [.int 1]), .initial⟩

def itemUpdate : Action := .update (.item "xs" remarkedIndex) .mul emittingOperand

def itemAssignment : Action :=
  .assign (.item "xs" remarkedIndex) (.binary .mul (.item (.name "xs") remarkedIndex)
    emittingOperand)

/-- The assignment makes the remark twice, and otherwise the two leave the same behind. -/
theorem run_update_eq_assign_of_remark :
    remarkedIndex.EmitsNothing grantingRecorder oneItem.environment oneItem.host ∧
      ∃ m', itemAssignment.run grantingRecorder 0 1 oneItem = .ok .normal m' ∧
        m'.host = ⟨1, 2, 0, [.emitted "t\n"], ["i", "i"]⟩ ∧
        ∃ m'' v remarks, itemUpdate.run grantingRecorder 0 1 oneItem = .ok .normal m'' ∧
          m''.environment = m'.environment ∧
          remarkedIndex.eval grantingRecorder oneItem.environment oneItem.host =
            .ok v (grantingRecorder.noteAll remarks oneItem.host) ∧
          m'.host = grantingRecorder.noteAll remarks m''.host ∧
          m''.host = ⟨1, 2, 0, [.emitted "t\n"], ["i"]⟩ := by
  have hsilent :
      remarkedIndex.EmitsNothing grantingRecorder oneItem.environment oneItem.host := by
    intro text result hmem
    have hcalls : (stateOf (remarkedIndex.eval (Logged.host grantingRecorder) oneItem.environment
        ⟨oneItem.host, []⟩)).calls = [.noted "i"] := by rfl
    rw [hcalls] at hmem
    simp at hmem
  have hok : ∃ m', itemAssignment.run grantingRecorder 0 1 oneItem = .ok .normal m' ∧
      m'.host = ⟨1, 2, 0, [.emitted "t\n"], ["i", "i"]⟩ := ⟨_, rfl, rfl⟩
  obtain ⟨m', hassign, hhost⟩ := hok
  obtain ⟨m'', v, remarks, hrun, hsame⟩ :=
    (run_update_eq_assign grantingRecorder 0 1 "xs" .mul emittingOperand).2 remarkedIndex oneItem m'
      .normal hsilent hassign
  have hupdate : itemUpdate.run grantingRecorder 0 1 oneItem = .ok .normal m'' := hrun
  have hnoted : (stateOf (itemUpdate.run grantingRecorder 0 1 oneItem)).host =
      ⟨1, 2, 0, [.emitted "t\n"], ["i"]⟩ := by rfl
  rw [hupdate] at hnoted
  exact ⟨hsilent, m', hassign, hhost, m'', v, remarks, hupdate, hsame.1, hsame.2.1, hsame.2.2,
    hnoted⟩

end LiveDoc
