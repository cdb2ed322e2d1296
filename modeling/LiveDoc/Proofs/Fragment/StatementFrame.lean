import LiveDoc.Proofs.Fragment.ExpressionFrame
import LiveDoc.Proofs.Fragment.StatementLines

/-!
Reading statements in front of other tokens. A reader of statements closes the blocks that it opens,
so where the tokens of whole statements end, it goes on with what stands behind them as it would
begin with it, unless that is a further branch. What it has read before is the same wherever the
tokens stand, apart from the lines. Where the tokens end inside blocks, the reader of the innermost
block is the one that meets what stands behind them, and if it fails there, all readers fail.
-/
namespace LiveDoc.Fragment

open TokenParser

/-! ### Statements on later lines -/

mutual

/-- The statement `n` lines further on. -/
def Stmt.moved (n : Nat) : Stmt → Stmt
  | .mk line action => .mk (line + n) (action.moved n)

def Action.moved (n : Nat) : Action → Action
  | .choose branches otherwise => .choose (movedBranches n branches) (movedBlock n otherwise)
  | .forEach name items body => .forEach name items (movedBlock n body)
  | .whileTrue condition body => .whileTrue condition (movedBlock n body)
  | action => action

def movedBranches (n : Nat) : List (Expr × List Stmt) → List (Expr × List Stmt)
  | [] => []
  | (condition, body) :: rest => (condition, movedBlock n body) :: movedBranches n rest

def movedBlock (n : Nat) : List Stmt → List Stmt
  | [] => []
  | s :: rest => s.moved n :: movedBlock n rest

end

theorem movedBlock_eq_map (n : Nat) (block : List Stmt) :
    movedBlock n block = block.map (Stmt.moved n) := by
  induction block with
  | nil => rfl
  | cons s rest ih => rw [movedBlock, ih, List.map_cons]

mutual

theorem Stmt.moved_zero : ∀ s : Stmt, s.moved 0 = s
  | .mk line action => by rw [Stmt.moved, action.moved_zero, Nat.add_zero]

theorem Action.moved_zero : ∀ action : Action, action.moved 0 = action
  | .choose branches otherwise => by
    rw [Action.moved, movedBranches_zero branches, movedBlock_zero otherwise]
  | .forEach name items body => by rw [Action.moved, movedBlock_zero body]
  | .whileTrue condition body => by rw [Action.moved, movedBlock_zero body]
  | .evaluate _ => rfl
  | .assign _ _ => rfl
  | .update _ _ _ => rfl
  | .breakLoop => rfl
  | .continueLoop => rfl
  | .pass => rfl
  | .raise _ => rfl
  | .assert _ _ => rfl

theorem movedBranches_zero :
    ∀ branches : List (Expr × List Stmt), movedBranches 0 branches = branches
  | [] => rfl
  | (condition, body) :: rest => by
    rw [movedBranches, movedBlock_zero body, movedBranches_zero rest]

theorem movedBlock_zero : ∀ block : List Stmt, movedBlock 0 block = block
  | [] => rfl
  | s :: rest => by rw [movedBlock, s.moved_zero, movedBlock_zero rest]

end

/-! ### Tokens of statements -/

/-- At most `m` tokens that close `count` blocks more than they open, but for `missing` of them, and
the same ones further on. -/
structure Stretch (S : Setting) (missing count m : Nat) (p p' : List Token) : Prop where
  same : List.Forall₂ (Token.Same S) p p'
  closed : Sealed missing count p
  length_le : p.length ≤ m

/-- There is a token, and the first ones are of the kinds `known`. -/
structure Within (S : Setting) (known : List Token.Kind) (missing count m : Nat)
    (p p' : List Token) : Prop where
  window : Window S known m p p'
  closed : Sealed missing count p

variable {α β γ δ : Type} {S : Setting} {m l missing count : Nat} {known : List Token.Kind}
  {k : Token.Kind} {p q p' q' u v : List Token} {bad : SyntaxError → Prop}

/-- A reader leaves some of the tokens `p` in front of `u`, and what comes of it in the second place
is the value `b` with their counterparts left in front of `v`, or it is a bad error. -/
def Passed (u v : List Token) (bad : SyntaxError → Prop) (behind : List Token → List Token → Prop)
    (p left : List Token) (b : β) (result : EStateM.Result SyntaxError (List Token) β) : Prop :=
  (∃ q q', left = q ++ u ∧ result = .ok b (q' ++ v) ∧ behind q q' ∧
      ∀ d, depthOver d p = depthOver d q) ∨
    ∃ e rest, result = .error e rest ∧ bad e

/-- Where the first reader reads a value in front of the tokens `u`, the second one reads its
counterpart in front of the tokens `v`, which it leaves, unless it ends there with a bad error. -/
def Passes (u v : List Token) (bad : SyntaxError → Prop)
    (before behind : List Token → List Token → Prop) (f : α → β) (act : TokenParser α)
    (act' : TokenParser β) : Prop :=
  ∀ p p' a left, before p p' → act (p ++ u) = .ok a left →
    Passed u v bad behind p left (f a) (act' (p' ++ v))

theorem Sealed.of_counts {other : Nat} (h : Sealed missing count p) (hq : q <:+ p)
    (hcloses : dedentsIn q + missing = indentsIn q + other) : Sealed missing other q where
  last := by
    intro t ht
    obtain ⟨front, rfl⟩ := hq
    refine h.last t ?_
    cases q with
    | nil => cases ht
    | cons u rest => rwa [List.getLast?_append_of_ne_nil _ (List.cons_ne_nil u rest)]
  goesOn t ht := h.goesOn t (hq.subset ht)
  closes := hcloses

namespace Sealed

variable {line : Nat}

theorem newline (h : Sealed missing count (⟨line, .newline⟩ :: q)) : Sealed missing count q := by
  refine h.of_counts (List.suffix_cons _ _) ?_
  have hcloses := h.closes
  simpa [dedentsIn, indentsIn, isDedent, isIndent] using hcloses

theorem indent (h : Sealed missing count (⟨line, .indent⟩ :: q)) :
    Sealed missing (count + 1) q := by
  refine h.of_counts (List.suffix_cons _ _) ?_
  have hcloses := h.closes
  simp only [dedentsIn, indentsIn, List.countP_cons, isDedent, isIndent, Bool.false_eq_true,
    if_true, if_false] at hcloses ⊢
  omega

theorem dedent (h : Sealed missing (count + 1) (⟨line, .dedent⟩ :: q)) :
    Sealed missing count q := by
  refine h.of_counts (List.suffix_cons _ _) ?_
  have hcloses := h.closes
  simp only [dedentsIn, indentsIn, List.countP_cons, isDedent, isIndent, Bool.false_eq_true,
    if_true, if_false] at hcloses ⊢
  omega

end Sealed

namespace Within

theorem of_takes (h : Within S known missing count m p p') (hq : Takes 0 0 p q)
    (hsame : List.Forall₂ (Token.Same S) q q') : Within S [] missing count m q q' :=
  ⟨h.window.of_takes hq hsame,
    h.closed.of_counts hq.suffix (by rw [hq.dedents, hq.indents, h.closed.closes])⟩

theorem mono (h : Within S known missing count l p p') (hl : l ≤ m) :
    Within S known missing count m p p' :=
  ⟨h.window.mono hl, h.closed⟩

theorem stretch (h : Within S known missing count m p p') : Stretch S missing count m p p' :=
  ⟨h.window.same, h.closed, h.window.length_le⟩

end Within

/-- Without tokens, the blocks that are to be closed are still open. -/
theorem Stretch.nil (hcount : count = missing) : Stretch S missing count m [] [] :=
  ⟨.nil, ⟨by simp, by simp, hcount ▸ rfl⟩, Nat.zero_le m⟩

/-- The tokens are none, or there is one. -/
theorem Stretch.eq_nil_or_within (h : Stretch S missing count m p p') :
    (p = [] ∧ p' = [] ∧ count = missing) ∨ Within S [] missing count m p p' := by
  cases hsame : h.same with
  | nil =>
    have hcloses : 0 + missing = 0 + count := h.closed.closes
    exact .inl ⟨rfl, rfl, by omega⟩
  | @cons t t' q q' ht hq =>
    obtain ⟨last, hlast⟩ : ∃ last, (t :: q).getLast? = some last :=
      Option.isSome_iff_exists.mp (by simp)
    exact .inr ⟨⟨h.same, List.nil_prefix, ⟨last, hlast, h.closed.last last hlast⟩, h.length_le⟩,
      h.closed⟩

namespace Passed

variable {behind behind' : List Token → List Token → Prop} {left : List Token} {b : β}
  {result result' : EStateM.Result SyntaxError (List Token) β}

/-- Some tokens have been read in front of those that are passed. -/
theorem after (h : Passed u v bad behind q left b result) (hrun : result' = result)
    (hdepth : ∀ d, depthOver d p = depthOver d q) : Passed u v bad behind p left b result' := by
  subst hrun
  refine h.imp_left ?_
  rintro ⟨r, r', hleft, hresult, hr, hmore⟩
  exact ⟨r, r', hleft, hresult, hr, fun d => (hdepth d).trans (hmore d)⟩

theorem mono (h : Passed u v bad behind p left b result)
    (himp : ∀ q q', behind q q' → behind' q q') : Passed u v bad behind' p left b result := by
  refine h.imp_left ?_
  rintro ⟨r, r', hleft, hresult, hr, hmore⟩
  exact ⟨r, r', hleft, hresult, himp r r' hr, hmore⟩

end Passed

namespace Passes

variable {before between behind : List Token → List Token → Prop} {act : TokenParser α}
  {act' : TokenParser β} {next : α → TokenParser γ} {next' : β → TokenParser δ} {f : α → β}
  {g : γ → δ}

theorem pure (f : α → β) (a : α) :
    Passes u v bad before before f (Pure.pure a) (Pure.pure (f a)) := by
  intro p p' b left h hrun
  cases hrun
  exact .inl ⟨p, p', rfl, rfl, h, fun _ => rfl⟩

theorem bind (hact : Passes u v bad before between f act act')
    (hnext : ∀ a, Passes u v bad between behind g (next a) (next' (f a))) :
    Passes u v bad before behind g (act >>= next) (act' >>= next') := by
  intro p p' b left h hrun
  obtain ⟨a, mid, ha, hb⟩ := Outcome.run_bind_eq_ok_iff.mp hrun
  rcases hact p p' a mid h ha with ⟨q, q', rfl, ha', hq, hdepth⟩ | ⟨e, rest, herror, he⟩
  · exact (hnext a q q' b left hq hb).after (Outcome.run_bind_of_ok ha') hdepth
  · exact .inr ⟨e, rest, Outcome.run_bind_of_error herror, he⟩

theorem imp {before' behind' : List Token → List Token → Prop}
    (h : Passes u v bad before behind f act act') (hbefore : ∀ p p', before' p p' → before p p')
    (hbehind : ∀ q q', behind q q' → behind' q q') :
    Passes u v bad before' behind' f act act' := by
  intro p p' a left hp hrun
  exact (h p p' a left (hbefore p p' hp) hrun).mono hbehind

theorem of_carries (h : Carries S known m 0 0 f act act') :
    Passes u v bad (Within S known missing count m) (Within S [] missing count m) f act act' := by
  intro p p' a left hp hrun
  obtain ⟨q, q', hleft, hrun', hq, hsame⟩ := h.exists_of_ok hp.window hrun v
  exact .inl ⟨q, q', hleft, hrun', hp.of_takes hq hsame, hq.depth⟩

theorem of_kind
    (h : ∀ k, isEof k = false →
      Passes u v bad (Within S [k] missing count m) behind f act act') :
    Passes u v bad (Within S [] missing count m) behind f act act' := by
  intro p p' a left hp hrun
  cases p with
  | nil => exact absurd rfl hp.window.ne_nil
  | cons t q =>
    exact h t.kind (hp.closed.goesOn t (List.mem_cons_self ..)) (t :: q) p' a left
      ⟨⟨hp.window.same, by simp, hp.window.closed, hp.window.length_le⟩, hp.closed⟩ hrun

theorem of_stretch
    (hnone : count = missing → Passes u v bad (fun p p' => p = [] ∧ p' = []) behind f act act')
    (hsome : Passes u v bad (Within S [] missing count m) behind f act act') :
    Passes u v bad (Stretch S missing count m) behind f act act' := by
  intro p p' a left hp hrun
  rcases hp.eq_nil_or_within with ⟨hnil, hnil', hcount⟩ | hp
  · exact hnone hcount p p' a left ⟨hnil, hnil'⟩ hrun
  · exact hsome p p' a left hp hrun

/-- In front of no tokens of its own, a reader only looks at what stands behind. -/
theorem lookBehind {a : α} {b : β} (ha : act u = .ok a u) (hb : act' v = .ok b v)
    (hnext : Passes u v bad (fun p p' => p = [] ∧ p' = []) behind g (next a) (next' b)) :
    Passes u v bad (fun p p' => p = [] ∧ p' = []) behind g (act >>= next) (act' >>= next') := by
  rintro p p' c left ⟨rfl, rfl⟩ hrun
  rw [List.nil_append, Outcome.run_bind_of_ok ha] at hrun
  rw [List.nil_append, Outcome.run_bind_of_ok hb]
  exact hnext [] [] c left ⟨rfl, rfl⟩ hrun

theorem of_pos (h : 0 < m → Passes u v bad (Within S known missing count m) behind f act act') :
    Passes u v bad (Within S known missing count m) behind f act act' := by
  intro p p' a left hp hrun
  have hm : 0 < m := (List.length_pos_iff.mpr hp.window.ne_nil).trans_le hp.window.length_le
  exact h hm p p' a left hp hrun

theorem of_error
    (h : ∀ tokens, known <+: tokens.map (·.kind) → ∃ e left, act tokens = .error e left) :
    Passes u v bad (Within S known missing count m) behind f act act' := by
  intro p p' a left hp hrun
  obtain ⟨e, rest, herror⟩ := h (p ++ u) (hp.window.prefix_append u)
  rw [herror] at hrun
  cases hrun

theorem look {a : α} {b : β} (ha : Looks known act a) (hb : Looks known act' b)
    (hnext : Passes u v bad (Within S known missing count m) behind g (next a) (next' b)) :
    Passes u v bad (Within S known missing count m) behind g (act >>= next) (act' >>= next') := by
  intro p p' c left hp hrun
  rw [Outcome.run_bind_of_ok (ha _ (hp.window.prefix_append u))] at hrun
  rw [Outcome.run_bind_of_ok (hb _ (hp.window.prefix_append' v))]
  exact hnext p p' c left hp hrun

theorem peek {next : Token → TokenParser γ} {next' : Token → TokenParser δ}
    (hk : k.isLayout = false)
    (h : ∀ line, Passes u v bad (Within S (k :: known) missing count m) behind g (next ⟨line, k⟩)
      (next' ⟨line + S.shift, k⟩)) :
    Passes u v bad (Within S (k :: known) missing count m) behind g (TokenParser.peek >>= next)
      (TokenParser.peek >>= next') := by
  intro p p' a left hp hrun
  obtain ⟨t, q, q', rfl, rfl, rfl, -⟩ := hp.window.exists_written hk
  exact h t.line _ _ a left hp hrun

/-- The next token is taken if it is no layout token. -/
theorem advance {next : Token → TokenParser γ} {next' : Token → TokenParser δ}
    (hk : k.isLayout = false) (hdepth : ∀ d, k.depthAfter d = d)
    (h : ∀ line, Passes u v bad (Within S known missing count (m - 1)) behind g (next ⟨line, k⟩)
      (next' ⟨line + S.shift, k⟩)) :
    Passes u v bad (Within S (k :: known) missing count m) behind g (TokenParser.advance >>= next)
      (TokenParser.advance >>= next') := by
  intro p p' a left hp hrun
  obtain ⟨t, q, q', rfl, rfl, rfl, -, hq⟩ := hp.window.exists_written hk
  have hrest := hp.window.tail hk
  have htakes : Takes 0 0 (t :: q) q := .cons hk hrest.ne_nil hdepth
  obtain ⟨w, rest, rfl⟩ := List.exists_cons_of_ne_nil hrest.ne_nil
  obtain ⟨w', rest', hw, hrest', rfl⟩ := List.forall₂_cons_left_iff.mp hq
  exact (h t.line _ _ a left ⟨hrest, (hp.of_takes htakes hq).closed⟩ hrun).after rfl htakes.depth

/-- A layout token is taken. -/
theorem advanceLayout {other : Nat} {next : Token → TokenParser γ} {next' : Token → TokenParser δ}
    (hu : u ≠ []) (hv : v ≠ []) (hk : k.isLayout = true)
    (hclosed : ∀ line q, Sealed missing count (⟨line, k⟩ :: q) → Sealed missing other q)
    (h : ∀ t t',
      Passes u v bad (Stretch S missing other (m - 1)) behind g (next t) (next' t')) :
    Passes u v bad (Within S (k :: known) missing count m) behind g (TokenParser.advance >>= next)
      (TokenParser.advance >>= next') := by
  intro p p' a left hp hrun
  obtain ⟨t, t', q, q', rfl, rfl, rfl, -, hq⟩ := hp.window.exists_cons
  have htaken (t : Token) (rest w : List Token) (hw : w ≠ []) :
      TokenParser.advance (t :: rest ++ w) = .ok t (rest ++ w) := by
    obtain ⟨x, more, hmore⟩ :=
      List.exists_cons_of_ne_nil (List.append_ne_nil_of_right_ne_nil rest hw)
    rw [List.cons_append, hmore]
    rfl
  rw [Outcome.run_bind_of_ok (htaken t q u hu)] at hrun
  have hlength : q.length ≤ m - 1 := Nat.le_sub_one_of_lt hp.window.length_le
  refine (h t t' q q' a left ⟨hq, hclosed t.line q hp.closed, hlength⟩ hrun).after
    (Outcome.run_bind_of_ok (htaken t' q' v hv)) fun d => ?_
  rw [← List.singleton_append, depthOver_append, depthOver_of_layout d (by simpa using hk)]

/-- A condition that stands in the way is met by both or by none. -/
theorem guard {stop : Bool} {cause : SyntaxError.Cause} {next : Unit → TokenParser α}
    {next' : Unit → TokenParser β}
    (h : Passes u v bad (Within S known missing count m) behind f (next ()) (next' ())) :
    Passes u v bad (Within S known missing count m) behind f
      (if stop = true then failHere cause >>= next else next ())
      (if stop = true then failHere cause >>= next' else next' ()) := by
  cases stop with
  | false => exact h
  | true => exact of_error fun tokens _ => failHere_bind_eq_error cause next tokens

theorem loosen (h : Passes u v bad before (Stretch S missing count l) f act act') (hl : l ≤ m) :
    Passes u v bad before (Stretch S missing count m) f act act' :=
  h.imp (fun _ _ hp => hp) fun _ _ hq => ⟨hq.same, hq.closed, hq.length_le.trans hl⟩

theorem forget (h : Passes u v bad (Within S [] missing count m) behind f act act') :
    Passes u v bad (Within S known missing count m) behind f act act' :=
  h.imp (fun _ _ hp => ⟨⟨hp.window.same, List.nil_prefix, hp.window.closed, hp.window.length_le⟩,
    hp.closed⟩) fun _ _ hq => hq

end Passes

/-! ### Simple statements -/

/-- Two readers of expressions that read the same. -/
structure Paired (S : Setting) (expr expr' : TokenParser Expr) : Prop where
  carries : ∀ m, Carries S [] m 0 0 id expr expr'
  starts : ReadsExprs expr

variable {expr expr' : TokenParser Expr} {inLoop : Bool}

theorem targetOf_eq (e : Expr) :
    (∃ target, targetOf e = pure target) ∨ ∃ cause, targetOf e = failHere cause := by
  fun_cases targetOf e with
  | case1 => exact .inl ⟨_, rfl⟩
  | case2 => exact .inl ⟨_, rfl⟩
  | case3 => exact .inr ⟨_, rfl⟩
  | case4 => exact .inr ⟨_, rfl⟩

theorem carries_store (hexpr : Paired S expr expr') (hk : k.isLayout = false)
    (hdepth : ∀ d, k.depthAfter d = d) (e : Expr) (store : Target → Expr → Action)
    (hstore : ∀ target value, (store target value).moved S.shift = store target value) :
    Carries S [k] m 0 0 (Action.moved S.shift)
      (do
        let target ← targetOf e
        let _ ← advance
        return store target (← expr))
      (do
        let target ← targetOf e
        let _ ← advance
        return store target (← expr')) := by
  rcases targetOf_eq e with ⟨target, htarget⟩ | ⟨cause, htarget⟩
  · simp only [htarget, pure_bind]
    exact .advance (j := 0) hk hdepth fun _ => (hexpr.carries _).bind fun value =>
      .pure_of_eq (hstore target value)
  · simp only [htarget]
    exact .of_failsHere ((failsHere_failHere cause).bind _) ((failsHere_failHere cause).bind _)

theorem carries_parseExpressionStatement (hexpr : Paired S expr expr') :
    Carries S [] m 0 0 (Action.moved S.shift) (parseExpressionStatement expr)
      (parseExpressionStatement expr') := by
  refine (hexpr.carries m).bind fun e => .of_kind fun k => .look looks_peekKind looks_peekKind ?_
  split
  · exact carries_store hexpr rfl (fun _ => rfl) e .assign fun _ _ => rfl
  · exact carries_store hexpr rfl (fun _ => rfl) e (.update · .add ·) fun _ _ => rfl
  · exact carries_store hexpr rfl (fun _ => rfl) e (.update · .sub ·) fun _ _ => rfl
  · exact carries_store hexpr rfl (fun _ => rfl) e (.update · .mul ·) fun _ _ => rfl
  · exact .pure (Action.moved S.shift) (.evaluate e)

theorem carries_parseSimple (hexpr : Paired S expr expr') (hk : k.isLayout = false) :
    Carries S [k] m 0 0 (Stmt.moved S.shift) (parseSimple expr inLoop)
      (parseSimple expr' inLoop) := by
  refine .peek hk fun line => ?_
  have hdone {m : Nat} (action : Action) : Carries S [] m 0 0 (Stmt.moved S.shift)
      (pure (.mk line action)) (pure (.mk (line + S.shift) (action.moved S.shift))) :=
    .pure (Stmt.moved S.shift) (.mk line action)
  dsimp only
  split
  · exact .advance rfl (fun _ => rfl) fun _ => hdone .pass
  · exact .guard (.advance rfl (fun _ => rfl) fun _ => hdone .breakLoop)
  · exact .guard (.advance rfl (fun _ => rfl) fun _ => hdone .continueLoop)
  · refine .advance rfl (fun _ => rfl) fun _ => .of_kind fun k =>
      .look looks_atStatementEnd looks_atStatementEnd ?_
    split
    · exact (hdone (.raise none)).forget
    · exact ((hexpr.carries _).bind fun what => hdone (.raise (some what))).forget
  · exact .advance rfl (fun _ => rfl) fun _ => (hexpr.carries _).bind fun test =>
      .eat (fun _ => rfl)
        ((hexpr.carries _).bind fun message => hdone (.assert test (some message)))
        (hdone (.assert test none))
  · exact ((carries_parseExpressionStatement hexpr).bind fun action => hdone action).forget

theorem failsHere_endStatement (hk : k.isLayout = false) : FailsHere (k :: known) endStatement := by
  refine failsHere_of_kind fun t rest ht => ?_
  obtain ⟨line, kind⟩ := t
  subst ht
  cases kind with
  | newline => cases hk
  | indent => cases hk
  | dedent => cases hk
  | eof => cases hk
  | _ => exact ⟨_, _, rfl, rfl⟩

theorem passes_endStatement (hu : u ≠ []) (hv : v ≠ []) :
    Passes u v bad (Within S [] missing count m) (Stretch S missing count m) id endStatement
      endStatement := by
  refine .of_kind fun k heof => .look looks_peekKind looks_peekKind ?_
  cases k with
  | newline =>
    have htaken : Passes u v bad (Within S [.newline] missing count m)
        (Stretch S missing count (m - 1)) id (advance >>= fun _ => pure ())
        (advance >>= fun _ => pure ()) :=
      .advanceLayout hu hv rfl (fun _ _ => Sealed.newline) fun _ _ => .pure id ()
    exact htaken.loosen (Nat.sub_le m 1)
  | dedent => exact (Passes.pure id ()).imp (fun _ _ hp => hp) fun _ _ hq => hq.stretch
  | eof => cases heof
  | _ => exact .of_error fun tokens _ => failHere_eq_error _ tokens

/-- A statement takes a token at least. -/
theorem passes_parseSimpleLine (hexpr : Paired S expr expr') (hu : u ≠ []) (hv : v ≠ []) :
    Passes u v bad (Within S known missing count m) (Stretch S missing count (m - 1))
      (Stmt.moved S.shift) (parseSimpleLine expr inLoop) (parseSimpleLine expr' inLoop) := by
  refine .forget (.of_kind fun k _ => ?_)
  intro p p' s left hp hrun
  obtain ⟨t, t', back, back', rfl, rfl, rfl, -⟩ := hp.window.exists_cons
  have hk := isLayout_of_isSimpleStart (isSimpleStart_of_parseSimpleLine hexpr.starts hrun)
  obtain ⟨s', mid, hs, hmid⟩ := Outcome.run_bind_eq_ok_iff.mp hrun
  obtain ⟨q, q', rfl, hs', hq, hsame⟩ := (carries_parseSimple hexpr hk).exists_of_ok hp.window hs v
  have hqp := hp.of_takes hq hsame
  -- What is left is shorter, since a statement does not end at the token that it begins with.
  have hlength : q.length ≤ m - 1 := by
    obtain ⟨front, hfront⟩ := hq.suffix
    cases front with
    | nil =>
      obtain rfl : q = t :: back := hfront
      obtain ⟨_, _, hend, -⟩ := Outcome.run_bind_eq_ok_iff.mp hmid
      obtain ⟨e, rest, herror, -⟩ :=
        (failsHere_endStatement hk).exists_error (back ++ u)
      rw [List.cons_append, herror] at hend
      cases hend
    | cons x front =>
      have htotal := congrArg List.length hfront
      have hbound := hp.window.length_le
      simp only [List.cons_append, List.length_cons, List.length_append] at htotal hbound
      omega
  have hshorter : Within S [] missing count (m - 1) q q' :=
    ⟨⟨hqp.window.same, List.nil_prefix, hqp.window.closed, hlength⟩, hqp.closed⟩
  have hclose : Passes u v bad (Within S [] missing count (m - 1))
      (Stretch S missing count (m - 1)) (Stmt.moved S.shift) (endStatement >>= fun _ => pure s')
      (endStatement >>= fun _ => pure (s'.moved S.shift)) :=
    (passes_endStatement hu hv).bind fun _ => .pure (Stmt.moved S.shift) s'
  exact (hclose q q' s left hshorter hmid).after (Outcome.run_bind_of_ok hs') hq.depth

/-! ### Blocks -/

theorem looks_eatLayout {isWanted : Token.Kind → Bool} (h : isWanted k = false) :
    Looks (k :: known) (eatLayout isWanted) false := by
  intro tokens htokens
  rw [eatLayout, Outcome.run_bind_of_ok (looks_peekKind tokens htokens), h]
  rfl

theorem looks_eatKeyword {w : Keyword} (h : k.isKeyword w = false) :
    Looks (k :: known) (eatKeyword w) false := by
  intro tokens htokens
  rw [eatKeyword, Outcome.run_bind_of_ok (looks_atKeyword w tokens htokens), h]
  rfl

namespace Passes

variable {behind : List Token → List Token → Prop} {next : Bool → TokenParser γ}
  {next' : Bool → TokenParser δ} {g : γ → δ}

/-- A layout token that is looked for is taken. -/
theorem eatLayout {other : Nat} {isWanted : Token.Kind → Bool} (hu : u ≠ []) (hv : v ≠ [])
    (hwanted : isWanted k = true) (hk : k.isLayout = true)
    (hclosed : ∀ line q, Sealed missing count (⟨line, k⟩ :: q) → Sealed missing other q)
    (h : Passes u v bad (Stretch S missing other (m - 1)) behind g (next true) (next' true)) :
    Passes u v bad (Within S (k :: known) missing count m) behind g
      (LiveDoc.Fragment.eatLayout isWanted >>= next)
      (LiveDoc.Fragment.eatLayout isWanted >>= next') := by
  rw [LiveDoc.Fragment.eatLayout, bind_assoc, bind_assoc]
  refine look looks_peekKind looks_peekKind ?_
  simp only [hwanted, if_true, bind_assoc, pure_bind]
  exact advanceLayout hu hv hk hclosed fun _ _ => h

/-- A keyword that goes on with a statement is taken if it is there. -/
theorem eatKeyword {w : Keyword} (hu : ∃ t rest, u = t :: rest ∧ t.kind.isKeyword w = false)
    (hv : ∃ t rest, v = t :: rest ∧ t.kind.isKeyword w = false)
    (hyes : Passes u v bad (Within S [] missing count (m - 1)) behind g (next true) (next' true))
    (hno : Passes u v bad (Stretch S missing count m) behind g (next false) (next' false)) :
    Passes u v bad (Stretch S missing count m) behind g (TokenParser.eatKeyword w >>= next)
      (TokenParser.eatKeyword w >>= next') := by
  have hlook {tokens : List Token}
      (h : ∃ t rest, tokens = t :: rest ∧ t.kind.isKeyword w = false) :
      TokenParser.eatKeyword w tokens = .ok false tokens := by
    obtain ⟨t, rest, rfl, ht⟩ := h
    have hnext : Looks [t.kind] (TokenParser.eatKeyword w) false := looks_eatKeyword ht
    exact hnext (t :: rest) (by simp)
  refine of_stretch (fun hcount => ?_) (of_kind fun k _ => ?_)
  · refine lookBehind (hlook hu) (hlook hv) (hno.imp ?_ fun _ _ hq => hq)
    rintro p p' ⟨rfl, rfl⟩
    exact .nil hcount
  · cases hk : k.isKeyword w with
    | false =>
      exact look (looks_eatKeyword hk) (looks_eatKeyword hk)
        (hno.imp (fun _ _ hp => hp.stretch) fun _ _ hq => hq)
    | true =>
      obtain rfl := kind_of_isKeyword hk
      rw [TokenParser.eatKeyword, bind_assoc, bind_assoc]
      refine look (looks_atKeyword w) (looks_atKeyword w) ?_
      simp only [hk, if_true, bind_assoc, pure_bind]
      exact advance rfl (fun _ => rfl) fun _ => hyes

end Passes

theorem carries_eatKeyword (w : Keyword) :
    Carries S [] m 0 0 id (eatKeyword w) (eatKeyword w) := by
  refine .of_kind fun k => .look (looks_atKeyword w) (looks_atKeyword w) ?_
  cases hk : k.isKeyword w with
  | false => exact .pure id false
  | true =>
    obtain rfl := kind_of_isKeyword hk
    exact .advance rfl (fun _ => rfl) fun _ => .pure id true

theorem passes_parseLoopVariable (line line' : Nat) :
    Passes u v bad (Within S [] missing count m) (Within S [] missing count m) id
      (parseLoopVariable line) (parseLoopVariable line') := by
  refine .of_kind fun k _ => ?_
  cases k with
  | name s =>
    refine .advance rfl (fun _ => rfl) fun _ => ?_
    exact (Passes.pure id s).imp (fun _ _ hp => hp) fun _ _ hq => hq.mono (Nat.sub_le m 1)
  | _ =>
    refine .of_error fun tokens htokens => ?_
    obtain ⟨t, rest, rfl, hk⟩ := exists_cons_of_known htokens
    obtain ⟨left, htaken, -⟩ := exists_advance t rest
    rw [parseLoopVariable, Outcome.run_bind_of_ok htaken, hk]
    exact ⟨_, _, rfl⟩

theorem kind_of_isNewline (h : isNewline k = true) : k = .newline := by
  cases k with
  | newline => rfl
  | _ => cases h

theorem kind_of_isIndent (h : isIndent k = true) : k = .indent := by
  cases k with
  | indent => rfl
  | _ => cases h

theorem kind_of_isDedent (h : isDedent k = true) : k = .dedent := by
  cases k with
  | dedent => rfl
  | _ => cases h

/-- What stands behind whole statements is no further branch of the last one. -/
def GoesOn (v : List Token) : Prop :=
  ∃ t rest, v = t :: rest ∧ t.kind.isKeyword .elseIf = false ∧ t.kind.isKeyword .otherwise = false

theorem GoesOn.elseIf (h : GoesOn v) :
    ∃ t rest, v = t :: rest ∧ t.kind.isKeyword .elseIf = false :=
  have ⟨t, rest, hsplit, ht, _⟩ := h
  ⟨t, rest, hsplit, ht⟩

theorem GoesOn.otherwise (h : GoesOn v) :
    ∃ t rest, v = t :: rest ∧ t.kind.isKeyword .otherwise = false :=
  have ⟨t, rest, hsplit, _, ht⟩ := h
  ⟨t, rest, hsplit, ht⟩

theorem GoesOn.ne_nil (h : GoesOn v) : v ≠ [] := by
  obtain ⟨t, rest, rfl, -⟩ := h
  exact List.cons_ne_nil t rest

/-- What stands behind the tokens of statements, of which `missing` blocks are still open. In the
first place these are closed there at the end; in the second place other tokens stand there, and if
a block is still open, they cannot be read as the rest of it. -/
structure Cut (missing : Nat) (expr' : TokenParser Expr) (bad : SyntaxError → Prop)
    (u v : List Token) : Prop where
  ends : ∃ line, u = List.replicate missing ⟨line, .dedent⟩ ++ [⟨line, .eof⟩]
  goesOn : GoesOn v
  fails : 0 < missing → ∀ inLoop fuel, ∃ e rest,
    parseBlock expr' inLoop (fuel + 2) v = .error e rest ∧ bad e

namespace Cut

/-- Where no block is open, other statements may stand. -/
theorem whole (line : Nat) (hv : GoesOn v) :
    Cut 0 expr' (fun _ => False) [⟨line, .eof⟩] v :=
  ⟨⟨line, rfl⟩, hv, fun h => absurd h (Nat.lt_irrefl 0)⟩

variable (h : Cut missing expr' bad u v)

include h

theorem exists_first : ∃ line rest, u = ⟨line, .eof⟩ :: rest ∨ u = ⟨line, .dedent⟩ :: rest := by
  obtain ⟨line, rfl⟩ := h.ends
  cases missing with
  | zero => exact ⟨line, [], .inl rfl⟩
  | succ missing => exact ⟨line, _, .inr rfl⟩

theorem closes : GoesOn u := by
  obtain ⟨line, rest, rfl | rfl⟩ := h.exists_first
  · exact ⟨_, rest, rfl, rfl, rfl⟩
  · exact ⟨_, rest, rfl, rfl, rfl⟩

end Cut

-- A step of the recursion that takes no token leads to one that does, so fuel for twice the tokens
-- is enough in both runs, and what is read does not depend on it.
mutual

/-- A statement is read with all its branches, and it leaves as many blocks to be closed. -/
theorem passes_parseStatement (hexpr : Paired S expr expr') (hcut : Cut missing expr' bad u v)
    (inLoop : Bool) {known : List Token.Kind} (count m fuel fuel' : Nat) (hfuel : 2 * m ≤ fuel)
    (hfuel' : 2 * m + 1 ≤ fuel') :
    Passes u v bad (Within S known missing count m) (Stretch S missing count (m - 1))
      (Stmt.moved S.shift) (parseStatement expr inLoop fuel)
      (parseStatement expr' inLoop fuel') := by
  refine .of_pos fun hm => ?_
  cases fuel with
  | zero => omega
  | succ fuel =>
    cases fuel' with
    | zero => omega
    | succ fuel' =>
      refine .forget (.of_kind fun k _ => ?_)
      cases hk : k.isLayout with
      | true =>
        refine .of_error fun tokens htokens => ?_
        obtain ⟨t, rest, rfl, rfl⟩ := exists_cons_of_known htokens
        cases hrun : parseStatement expr inLoop (fuel + 1) (t :: rest) with
        | error e left => exact ⟨e, left, rfl⟩
        | ok s left =>
          exact Bool.noConfusion (hk.symm.trans (isLayout_of_parseStatement hexpr.starts hrun))
      | false =>
        rw [parseStatement, parseStatement]
        refine .peek hk fun line => ?_
        dsimp only
        split
        · refine .advance rfl (fun _ => rfl) fun _ =>
            (Passes.of_carries (hexpr.carries (m - 1))).bind fun condition => ?_
          refine (passes_parseSuite hexpr hcut inLoop count (m - 1) fuel fuel' (by omega)
            (by omega)).bind fun body => ?_
          refine (passes_parseBranches hexpr hcut inLoop count (m - 1 - 1) fuel fuel' (by omega)
            (by omega)).bind fun branches => ?_
          have hdone {l : Nat} (otherwise : List Stmt) :
              Passes u v bad (Stretch S missing count l) (Stretch S missing count l)
                (Stmt.moved S.shift)
                (pure (.mk line (.choose ((condition, body) :: branches) otherwise))) _ :=
            .pure (Stmt.moved S.shift) _
          refine .loosen (l := m - 1 - 1)
            (.eatKeyword hcut.closes.otherwise hcut.goesOn.otherwise ?_ (hdone []))
            (Nat.sub_le _ 1)
          exact ((passes_parseSuite hexpr hcut inLoop count (m - 1 - 1 - 1) fuel fuel' (by omega)
            (by omega)).bind hdone).loosen (by omega)
        · refine .advance rfl (fun _ => rfl) fun _ =>
            (Passes.of_carries (hexpr.carries (m - 1))).bind fun condition => ?_
          exact ((passes_parseSuite hexpr hcut true count (m - 1) fuel fuel' (by omega)
            (by omega)).bind fun body => .pure (Stmt.moved S.shift)
              (.mk line (.whileTrue condition body))).loosen (Nat.sub_le _ 1)
        · refine .advance rfl (fun _ => rfl) fun _ =>
            (passes_parseLoopVariable line (line + S.shift)).bind fun name =>
            (Passes.of_carries (carries_eatKeyword .isIn)).bind fun found => .guard ?_
          refine (Passes.of_carries (hexpr.carries (m - 1))).bind fun items => ?_
          exact ((passes_parseSuite hexpr hcut true count (m - 1) fuel fuel' (by omega)
            (by omega)).bind fun body => .pure (Stmt.moved S.shift)
              (.mk line (.forEach name items body))).loosen (Nat.sub_le _ 1)
        · exact passes_parseSimpleLine hexpr hcut.closes.ne_nil hcut.goesOn.ne_nil
termination_by fuel

/-- Branches are read up to what is none. -/
theorem passes_parseBranches (hexpr : Paired S expr expr') (hcut : Cut missing expr' bad u v)
    (inLoop : Bool) (count m fuel fuel' : Nat) (hfuel : 2 * m + 1 ≤ fuel)
    (hfuel' : 2 * m + 2 ≤ fuel') :
    Passes u v bad (Stretch S missing count m) (Stretch S missing count m)
      (movedBranches S.shift) (parseBranches expr inLoop fuel)
      (parseBranches expr' inLoop fuel') := by
  cases fuel with
  | zero => omega
  | succ fuel =>
    cases fuel' with
    | zero => omega
    | succ fuel' =>
      rw [parseBranches, parseBranches]
      refine .eatKeyword hcut.closes.elseIf hcut.goesOn.elseIf (.of_pos fun hm => ?_)
        (.pure (movedBranches S.shift) [])
      refine (Passes.of_carries (hexpr.carries (m - 1))).bind fun condition => ?_
      refine (passes_parseSuite hexpr hcut inLoop count (m - 1) fuel fuel' (by omega)
        (by omega)).bind fun body => ?_
      exact ((passes_parseBranches hexpr hcut inLoop count (m - 1 - 1) fuel fuel' (by omega)
        (by omega)).bind fun more =>
          .pure (movedBranches S.shift) ((condition, body) :: more)).loosen (by omega)
termination_by fuel

/-- The dedent that closes a block is taken with it. -/
theorem passes_parseSuite (hexpr : Paired S expr expr') (hcut : Cut missing expr' bad u v)
    (inLoop : Bool) {known : List Token.Kind} (count m fuel fuel' : Nat) (hfuel : 2 * m ≤ fuel)
    (hfuel' : 2 * m + 1 ≤ fuel') :
    Passes u v bad (Within S known missing count m) (Stretch S missing count (m - 1))
      (movedBlock S.shift) (parseSuite expr inLoop fuel) (parseSuite expr' inLoop fuel') := by
  refine .of_pos fun hm => ?_
  cases fuel with
  | zero => omega
  | succ fuel =>
    cases fuel' with
    | zero => omega
    | succ fuel' =>
      have hu := hcut.closes.ne_nil
      have hv := hcut.goesOn.ne_nil
      rw [parseSuite, parseSuite]
      refine .forget ((Passes.of_carries (carries_expect _ fun _ => rfl)).bind fun _ =>
        .of_kind fun k _ => ?_)
      cases hline : isNewline k with
      | false =>
        exact .look (looks_eatLayout hline) (looks_eatLayout hline)
          ((passes_parseSimpleLine hexpr hu hv).bind fun s => .pure (movedBlock S.shift) [s])
      | true =>
        obtain rfl := kind_of_isNewline hline
        refine .eatLayout hu hv hline rfl (fun _ _ => Sealed.newline) ?_
        refine .of_stretch (fun _ => ?_) (.of_kind fun k _ => ?_)
        · -- In front of the end there is no block, so nothing has been read.
          rintro p p' body left ⟨rfl, rfl⟩ hrun
          obtain ⟨line, rest, rfl | rfl⟩ := hcut.exists_first
          · cases hrun
          · cases hrun
        · cases hindent : isIndent k with
          | false =>
            refine .look (looks_eatLayout hindent) (looks_eatLayout hindent)
              (.of_error fun tokens htokens => ?_)
            obtain ⟨t, rest, rfl, -⟩ := exists_cons_of_known htokens
            exact ⟨_, _, rfl⟩
          | true =>
            obtain rfl := kind_of_isIndent hindent
            refine .eatLayout hu hv hindent rfl (fun _ _ => Sealed.indent) ?_
            refine (passes_parseBlock hexpr hcut inLoop count (m - 1 - 1) fuel fuel' (by omega)
              (by omega)).bind fun body => ?_
            exact .eatLayout hu hv rfl rfl (fun _ _ => Sealed.dedent)
              ((Passes.pure (movedBlock S.shift) body).loosen (by omega))
termination_by fuel

/-- A block ends at the dedent that closes it, and one that is still open cannot go on. -/
theorem passes_parseBlock (hexpr : Paired S expr expr') (hcut : Cut missing expr' bad u v)
    (inLoop : Bool) (count m fuel fuel' : Nat) (hfuel : 2 * m + 1 ≤ fuel)
    (hfuel' : 2 * m + 2 ≤ fuel') :
    Passes u v bad (Stretch S missing (count + 1) m) (Within S [.dedent] missing (count + 1) m)
      (movedBlock S.shift) (parseBlock expr inLoop fuel) (parseBlock expr' inLoop fuel') := by
  cases fuel with
  | zero => omega
  | succ fuel =>
    obtain ⟨fuel', rfl⟩ : ∃ less, fuel' = less + 2 := Nat.exists_eq_add_of_le' (by omega)
    have hu := hcut.closes.ne_nil
    have hv := hcut.goesOn.ne_nil
    refine .of_stretch (fun hcount => ?_) (.of_pos fun hm => .of_kind fun k heof => ?_)
    · -- The end is reached inside the block, so the block is still open there.
      rintro p p' body left ⟨rfl, rfl⟩ -
      exact .inr (hcut.fails (by omega) inLoop fuel')
    · rw [parseBlock, parseBlock]
      refine .look looks_peekKind looks_peekKind ?_
      cases hdedent : isDedent k with
      | true =>
        obtain rfl := kind_of_isDedent hdedent
        exact .pure (movedBlock S.shift) []
      | false =>
        simp only [heof, Bool.or_self, Bool.false_eq_true, if_false]
        have hrest := passes_parseBlock hexpr hcut inLoop count (m - 1) fuel (fuel' + 1) (by omega)
          (by omega)
        cases hline : isNewline k with
        | true =>
          obtain rfl := kind_of_isNewline hline
          exact (Passes.eatLayout hu hv hline rfl (fun _ _ => Sealed.newline) hrest).imp
            (fun _ _ hp => hp) fun _ _ hq => hq.mono (Nat.sub_le m 1)
        | false =>
          refine .look (looks_eatLayout hline) (looks_eatLayout hline) ?_
          refine (passes_parseStatement hexpr hcut inLoop (count + 1) m fuel (fuel' + 1) (by omega)
            (by omega)).bind fun s => ?_
          exact (hrest.bind fun rest => .pure (movedBlock S.shift) (s :: rest)).imp
            (fun _ _ hp => hp) fun _ _ hq => hq.mono (Nat.sub_le m 1)
termination_by fuel

end

end LiveDoc.Fragment
