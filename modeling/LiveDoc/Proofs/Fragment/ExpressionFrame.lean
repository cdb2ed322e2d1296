import LiveDoc.Proofs.Fragment.ExpressionLines
import LiveDoc.Proofs.Fragment.FieldLengths
import LiveDoc.Proofs.Fragment.ScanBehind
import Mathlib.Data.List.Forall2

/-!
Reading expressions in front of other tokens. A reader of expressions takes no layout token and
looks at none behind one. So what it reads from tokens that end with a layout token does not depend
on what stands behind them: it reads the same with other tokens there, on later lines and with more
fuel, and it leaves the same of its own tokens. It closes the brackets that it opens. Where it
cannot read them, it fails at one of them; only behind a dot it takes the layout token, too, and
fails at what stands behind that.
-/
namespace LiveDoc.Fragment

open TokenParser

/-- How the same tokens stand in two places. -/
structure Setting where
  /-- So many lines further on they stand in the second place. -/
  shift : Nat
  /-- The expressions in their format strings are shorter than this. -/
  size : Nat
  /-- The lines in the second place. -/
  lines : Nat → Prop

/-- The second token is the first one in the second place. How far it is moved is of no account for
layout tokens. -/
structure Token.Same (S : Setting) (t t' : Token) : Prop where
  kind_eq : t'.kind = t.kind
  line_eq : t.kind.isLayout = false → t'.line = t.line + S.shift
  below : t.kind.FieldsBelow S.size
  onLine : S.lines t'.line

theorem kinds_of_same {S : Setting} {p p' : List Token} (h : List.Forall₂ (Token.Same S) p p') :
    p'.map (·.kind) = p.map (·.kind) := by
  induction h with
  | nil => rfl
  | cons ht _ ih => rw [List.map_cons, List.map_cons, ht.kind_eq, ih]

/-- At most `m` tokens, the first of the kinds `known` and the last one a layout token, and the same
tokens in the second place. -/
structure Window (S : Setting) (known : List Token.Kind) (m : Nat) (p p' : List Token) : Prop where
  same : List.Forall₂ (Token.Same S) p p'
  known : known <+: p.map (·.kind)
  closed : ∃ t ∈ p.getLast?, t.kind.isLayout = true
  length_le : p.length ≤ m

/-- From the tokens `p` something is taken up to `q`, with `i` more brackets open before it and `j`
behind it. -/
structure Takes (i j : Nat) (p q : List Token) : Prop where
  suffix : q <:+ p
  goesOn : q ≠ []
  depth : ∀ d, depthOver (d + i) p = depthOver (d + j) q
  indents : indentsIn q = indentsIn p
  dedents : dedentsIn q = dedentsIn p

/-- The last token stands behind a dot. -/
def EndsBehindDot (p : List Token) : Prop := ∃ line last, [⟨line, .symbol .dot⟩, last] <:+ p

/-- Where reading the tokens `p` in front of the tokens `v` may fail in the second place: at one of
its own tokens, or at the first one behind them, if a dot is the last token in front of layout. -/
def FailsOn (S : Setting) (p v : List Token) (line : Nat) : Prop :=
  S.lines line ∨ EndsBehindDot p ∧ ∃ t ∈ v.head?, t.line = line

variable {α β γ δ : Type} {S : Setting} {m i j l : Nat} {known : List Token.Kind}
  {k : Token.Kind} {p q r p' q' u v : List Token}

theorem FailsOn.of_suffix {line : Nat} (h : FailsOn S q v line) (hq : q <:+ p) :
    FailsOn S p v line := by
  rcases h with hline | ⟨⟨dot, last, hdot⟩, hbehind⟩
  · exact .inl hline
  · exact .inr ⟨⟨dot, last, hdot.trans hq⟩, hbehind⟩

namespace Takes

theorem refl (hsome : p ≠ []) : Takes i i p p :=
  ⟨List.suffix_rfl, hsome, fun _ => rfl, rfl, rfl⟩

theorem trans (hpq : Takes i j p q) (hqr : Takes j l q r) : Takes i l p r where
  suffix := hqr.suffix.trans hpq.suffix
  goesOn := hqr.goesOn
  depth d := (hpq.depth d).trans (hqr.depth d)
  indents := hqr.indents.trans hpq.indents
  dedents := hqr.dedents.trans hpq.dedents

theorem cons {t : Token} (hlayout : t.kind.isLayout = false) (hsome : q ≠ [])
    (hdepth : ∀ d, t.kind.depthAfter (d + i) = d + j) : Takes i j (t :: q) q where
  suffix := List.suffix_cons t q
  goesOn := hsome
  depth d := congrArg (depthOver · q) (hdepth d)
  indents := by simp [indentsIn, isIndent_of_written hlayout]
  dedents := by simp [dedentsIn, isDedent_of_written hlayout]

end Takes

namespace Window

theorem ne_nil (h : Window S known m p p') : p ≠ [] := by
  rintro rfl
  obtain ⟨t, ht, -⟩ := h.closed
  cases ht

theorem mono (h : Window S known m p p') (hm : m ≤ l) : Window S known l p p' :=
  ⟨h.same, h.known, h.closed, h.length_le.trans hm⟩

theorem of_takes (h : Window S known m p p') (hq : Takes i j p q)
    (hsame : List.Forall₂ (Token.Same S) q q') : Window S [] m q q' where
  same := hsame
  known := List.nil_prefix
  closed := by
    obtain ⟨front, rfl⟩ := hq.suffix
    obtain ⟨t, ht, hlayout⟩ := h.closed
    rw [List.getLast?_append_of_ne_nil _ hq.goesOn] at ht
    exact ⟨t, ht, hlayout⟩
  length_le := hq.suffix.length_le.trans h.length_le

theorem prefix_append (h : Window S known m p p') (u : List Token) :
    known <+: (p ++ u).map (·.kind) := by
  simpa using h.known.trans (List.prefix_append _ _)

theorem prefix_append' (h : Window S known m p p') (v : List Token) :
    known <+: (p' ++ v).map (·.kind) := by
  simpa [kinds_of_same h.same] using h.known.trans (List.prefix_append _ _)

/-- There is a first token. -/
theorem exists_first (h : Window S known m p p') :
    ∃ t t' q q', p = t :: q ∧ p' = t' :: q' ∧ t.Same S t' ∧ List.Forall₂ (Token.Same S) q q' := by
  cases hsame : h.same with
  | nil => exact absurd rfl h.ne_nil
  | @cons t t' q q' ht hq => exact ⟨t, t', q, q', rfl, rfl, ht, hq⟩

/-- The first token, of which the kind is known. -/
theorem exists_cons (h : Window S (k :: known) m p p') :
    ∃ t t' q q', p = t :: q ∧ p' = t' :: q' ∧ t.kind = k ∧ t.Same S t' ∧
      List.Forall₂ (Token.Same S) q q' := by
  obtain ⟨t, t', q, q', rfl, rfl, ht, hq⟩ := h.exists_first
  have hk := (List.cons_prefix_cons.mp (List.map_cons ▸ h.known)).1
  exact ⟨t, t', q, q', rfl, rfl, hk.symm, ht, hq⟩

theorem exists_written (h : Window S (k :: known) m p p') (hk : k.isLayout = false) :
    ∃ t q q', p = t :: q ∧ p' = ⟨t.line + S.shift, k⟩ :: q' ∧ t.kind = k ∧
      S.lines (t.line + S.shift) ∧ List.Forall₂ (Token.Same S) q q' := by
  obtain ⟨t, ⟨line, kind⟩, q, q', rfl, rfl, rfl, ht, hq⟩ := h.exists_cons
  obtain rfl := ht.line_eq hk
  obtain rfl := ht.kind_eq
  exact ⟨t, q, q', rfl, rfl, rfl, ht.onLine, hq⟩

/-- The tokens behind one that is no layout token. -/
theorem tail {t t' : Token} (h : Window S (k :: known) m (t :: q) (t' :: q'))
    (hlayout : t.kind.isLayout = false) : Window S known (m - 1) q q' where
  same := (List.forall₂_cons.mp h.same).2
  known := (List.cons_prefix_cons.mp (List.map_cons ▸ h.known)).2
  closed := by
    obtain ⟨last, hlast, hkind⟩ := h.closed
    cases q with
    | nil =>
      cases hlast
      exact Bool.noConfusion (hlayout.symm.trans hkind)
    | cons u rest => exact ⟨last, by simpa using hlast, hkind⟩
  length_le := by
    have := h.length_le
    simp only [List.length_cons] at this
    omega

end Window

/-! ### Failing at the next token -/

theorem exists_cons_of_known {tokens : List Token} (h : k :: known <+: tokens.map (·.kind)) :
    ∃ t rest, tokens = t :: rest ∧ t.kind = k := by
  cases tokens with
  | nil => simp at h
  | cons t rest => exact ⟨t, rest, rfl, (List.cons_prefix_cons.mp (List.map_cons ▸ h)).1.symm⟩

/-- The reader fails at the first token, if the first ones are of the given kinds. -/
def FailsHere (known : List Token.Kind) (act : TokenParser α) : Prop :=
  ∀ t rest, known <+: (t :: rest).map (·.kind) →
    ∃ e left, act (t :: rest) = .error e left ∧ e.line = t.line

theorem failsHere_of_kind {act : TokenParser α}
    (h : ∀ t rest, t.kind = k → ∃ e left, act (t :: rest) = .error e left ∧ e.line = t.line) :
    FailsHere (k :: known) act := by
  intro t rest hknown
  exact h t rest (List.cons_prefix_cons.mp (List.map_cons ▸ hknown)).1.symm

theorem FailsHere.exists_error {act : TokenParser α} {t : Token} (h : FailsHere [t.kind] act)
    (rest : List Token) : ∃ e left, act (t :: rest) = .error e left ∧ e.line = t.line :=
  h t rest (by simp)

theorem failsHere_failHere (cause : SyntaxError.Cause) :
    FailsHere known (failHere cause : TokenParser α) := by
  rintro ⟨line, kind⟩ rest -
  cases kind <;> exact ⟨_, _, rfl, rfl⟩

theorem failsHere_failTooDeep : FailsHere known (failTooDeep : TokenParser α) :=
  fun _ _ _ => ⟨_, _, rfl, rfl⟩

theorem FailsHere.bind {act : TokenParser α} (h : FailsHere known act)
    (next : α → TokenParser β) : FailsHere known (act >>= next) := by
  intro t rest hknown
  obtain ⟨e, left, herror, hline⟩ := h t rest hknown
  exact ⟨e, left, Outcome.run_bind_of_error herror, hline⟩

/-- The last token stays where it is. -/
theorem exists_advance (t : Token) (rest : List Token) :
    ∃ left, advance (t :: rest) = .ok t left ∧
      (rest = [] ∧ left = [t] ∨ rest ≠ [] ∧ left = rest) := by
  cases rest with
  | nil => exact ⟨_, rfl, .inl ⟨rfl, rfl⟩⟩
  | cons u more => exact ⟨_, rfl, .inr ⟨List.cons_ne_nil u more, rfl⟩⟩

theorem failHere_eq_error (cause : SyntaxError.Cause) (tokens : List Token) :
    ∃ e left, (failHere cause : TokenParser α) tokens = .error e left := by
  cases tokens with
  | nil => exact ⟨_, _, rfl⟩
  | cons t rest =>
    obtain ⟨e, left, herror, -⟩ := (failsHere_failHere (α := α) cause).exists_error rest
    exact ⟨e, left, herror⟩

theorem failHere_bind_eq_error (cause : SyntaxError.Cause) (next : α → TokenParser β)
    (tokens : List Token) : ∃ e left, (failHere cause >>= next) tokens = .error e left := by
  obtain ⟨e, left, herror⟩ : ∃ e left, (failHere cause : TokenParser α) tokens = .error e left :=
    failHere_eq_error cause tokens
  exact ⟨e, left, Outcome.run_bind_of_error herror⟩

/-! ### Two readers -/

/-- What comes of reading the tokens `p` in front of `u` and, in the second place, in front of `v`:
a value and its counterpart, with the same tokens left, or a failure in both places. -/
inductive Carried (S : Setting) (i j : Nat) (f : α → β) (p u v : List Token) :
    EStateM.Result SyntaxError (List Token) α → EStateM.Result SyntaxError (List Token) β →
      Prop where
  | ok {a : α} {q q' : List Token} (htakes : Takes i j p q)
      (hsame : List.Forall₂ (Token.Same S) q q') :
      Carried S i j f p u v (.ok a (q ++ u)) (.ok (f a) (q' ++ v))
  | error {e e' : SyntaxError} {left left' : List Token} (hline : FailsOn S p v e'.line) :
      Carried S i j f p u v (.error e left) (.error e' left')

/-- The second reader does in the second place what the first one does in the first place. -/
def Carries (S : Setting) (known : List Token.Kind) (m i j : Nat) (f : α → β) (act : TokenParser α)
    (act' : TokenParser β) : Prop :=
  ∀ p p' u v, Window S known m p p' → Carried S i j f p u v (act (p ++ u)) (act' (p' ++ v))

/-- The reader only looks at tokens, of which the first are of the given kinds. -/
def Looks (known : List Token.Kind) (act : TokenParser α) (a : α) : Prop :=
  ∀ tokens, known <+: tokens.map (·.kind) → act tokens = .ok a tokens

theorem Carried.of_takes {f : α → β} {result : EStateM.Result SyntaxError (List Token) α}
    {result' : EStateM.Result SyntaxError (List Token) β}
    (h : Carried S j l f q u v result result') (hq : Takes i j p q) :
    Carried S i l f p u v result result' := by
  cases h with
  | ok htakes hsame => exact .ok (hq.trans htakes) hsame
  | error hline => exact .error (hline.of_suffix hq.suffix)

namespace Carries

variable {act : TokenParser α} {act' : TokenParser β} {next : α → TokenParser γ}
  {next' : β → TokenParser δ} {f : α → β} {g : γ → δ}

/-- Where the first reader reads a value, the second one reads its counterpart. -/
theorem exists_of_ok {a : α} {left : List Token} (h : Carries S known m i j f act act')
    (hp : Window S known m p p') (hrun : act (p ++ u) = .ok a left) (v : List Token) :
    ∃ q q', left = q ++ u ∧ act' (p' ++ v) = .ok (f a) (q' ++ v) ∧ Takes i j p q ∧
      List.Forall₂ (Token.Same S) q q' := by
  have hcarried := h p p' u v hp
  rw [hrun] at hcarried
  generalize act' (p' ++ v) = result at hcarried
  cases hcarried with
  | ok htakes hsame => exact ⟨_, _, rfl, rfl, htakes, hsame⟩

theorem pure (f : α → β) (a : α) : Carries S known m i i f (Pure.pure a) (Pure.pure (f a)) :=
  fun _ _ _ _ h => .ok (.refl h.ne_nil) h.same

theorem pure_of_eq {a : α} {b : β} (h : f a = b) :
    Carries S known m i i f (Pure.pure a) (Pure.pure b) :=
  h ▸ .pure f a

theorem bind (hact : Carries S known m i j f act act')
    (hnext : ∀ a, Carries S [] m j l g (next a) (next' (f a))) :
    Carries S known m i l g (act >>= next) (act' >>= next') := by
  intro p p' u v hp
  have hcarried := hact p p' u v hp
  generalize hrun : act (p ++ u) = result, hrun' : act' (p' ++ v) = result' at hcarried
  cases hcarried with
  | ok htakes hsame =>
    rw [Outcome.run_bind_of_ok hrun, Outcome.run_bind_of_ok hrun']
    exact (hnext _ _ _ u v (hp.of_takes htakes hsame)).of_takes htakes
  | error hline =>
    rw [Outcome.run_bind_of_error hrun, Outcome.run_bind_of_error hrun']
    exact .error hline

/-- What is known may be left aside. -/
theorem forget (h : Carries S [] m i j f act act') : Carries S known m i j f act act' :=
  fun p p' u v hp => h p p' u v ⟨hp.same, List.nil_prefix, hp.closed, hp.length_le⟩

theorem throw {e e' : SyntaxError} (h : S.lines e'.line) :
    Carries S known m i j f (MonadExcept.throw e) (MonadExcept.throw e') :=
  fun _ _ _ _ _ => .error (.inl h)

theorem of_failsHere (h : FailsHere known act) (h' : FailsHere known act') :
    Carries S known m i j f act act' := by
  intro p p' u v hp
  have hknown := hp.prefix_append u
  have hknown' := hp.prefix_append' v
  obtain ⟨t, t', q, q', rfl, rfl, ht, -⟩ := hp.exists_first
  obtain ⟨e, left, herror, -⟩ := h t (q ++ u) hknown
  obtain ⟨e', left', herror', hline⟩ := h' t' (q' ++ v) hknown'
  rw [List.cons_append, List.cons_append, herror, herror']
  exact .error (.inl (hline ▸ ht.onLine))

/-- There is no token without a kind. -/
theorem of_kind (h : ∀ k, Carries S [k] m i j f act act') : Carries S [] m i j f act act' := by
  intro p p' u v hp
  cases p with
  | nil => exact absurd rfl hp.ne_nil
  | cons t q => exact h t.kind _ _ u v ⟨hp.same, by simp, hp.closed, hp.length_le⟩

/-- Another token stands behind one that is no layout token. -/
theorem of_second (hk : k.isLayout = false) (h : ∀ next, Carries S [k, next] m i j f act act') :
    Carries S [k] m i j f act act' := by
  intro p p' u v hp
  obtain ⟨t, t', q, q', rfl, rfl, rfl, -, -⟩ := hp.exists_cons
  obtain ⟨w, rest, rfl⟩ := List.exists_cons_of_ne_nil (hp.tail hk).ne_nil
  exact h w.kind _ _ u v ⟨hp.same, by simp, hp.closed, hp.length_le⟩

/-- There is no window of no tokens. -/
theorem of_bound (hm : m = 0) : Carries S known m i j f act act' := by
  intro p p' u v hp
  have hlength := hp.length_le
  rw [hm] at hlength
  exact absurd (List.eq_nil_of_length_eq_zero (Nat.le_zero.mp hlength)) hp.ne_nil

theorem of_below (h : k.FieldsBelow S.size → Carries S (k :: known) m i j f act act') :
    Carries S (k :: known) m i j f act act' := by
  intro p p' u v hp
  obtain ⟨t, t', q, q', rfl, rfl, hk, ht, -⟩ := hp.exists_cons
  exact h (hk ▸ ht.below) _ _ u v hp

/-- Inside brackets. -/
theorem inside (h : Carries S known m 0 0 f act act') : Carries S known m i i f act act' := by
  intro p p' u v hp
  have hcarried := h p p' u v hp
  generalize act (p ++ u) = result, act' (p' ++ v) = result' at hcarried
  cases hcarried with
  | ok htakes hsame =>
    exact .ok ⟨htakes.suffix, htakes.goesOn, fun d => htakes.depth (d + i), htakes.indents,
      htakes.dedents⟩ hsame
  | error hline => exact .error hline

theorem look {a : α} {b : β} (ha : Looks known act a) (hb : Looks known act' b)
    (hnext : Carries S known m i j g (next a) (next' b)) :
    Carries S known m i j g (act >>= next) (act' >>= next') := by
  intro p p' u v hp
  rw [Outcome.run_bind_of_ok (ha _ (hp.prefix_append u)),
    Outcome.run_bind_of_ok (hb _ (hp.prefix_append' v))]
  exact hnext p p' u v hp

theorem peek {next : Token → TokenParser γ} {next' : Token → TokenParser δ}
    (hk : k.isLayout = false)
    (h : ∀ line, Carries S (k :: known) m i j g (next ⟨line, k⟩) (next' ⟨line + S.shift, k⟩)) :
    Carries S (k :: known) m i j g (TokenParser.peek >>= next) (TokenParser.peek >>= next') := by
  intro p p' u v hp
  obtain ⟨t, q, q', rfl, rfl, rfl, -⟩ := hp.exists_written hk
  exact h t.line _ _ u v hp

/-- The next token is taken if it is no layout token. -/
theorem advanceOn {next : Token → TokenParser γ} {next' : Token → TokenParser δ}
    (hk : k.isLayout = false) (hdepth : ∀ d, k.depthAfter (d + i) = d + j)
    (h : ∀ line, S.lines (line + S.shift) →
      Carries S known (m - 1) j l g (next ⟨line, k⟩) (next' ⟨line + S.shift, k⟩)) :
    Carries S (k :: known) m i l g (TokenParser.advance >>= next)
      (TokenParser.advance >>= next') := by
  intro p p' u v hp
  obtain ⟨t, q, q', rfl, rfl, rfl, hline, hq⟩ := hp.exists_written hk
  have hrest := hp.tail hk
  obtain ⟨w, rest, rfl⟩ := List.exists_cons_of_ne_nil hrest.ne_nil
  obtain ⟨w', rest', hw, hrest', rfl⟩ := List.forall₂_cons_left_iff.mp hq
  exact (h t.line hline _ _ u v hrest).of_takes (.cons hk hrest.ne_nil hdepth)

theorem advance {next : Token → TokenParser γ} {next' : Token → TokenParser δ}
    (hk : k.isLayout = false) (hdepth : ∀ d, k.depthAfter (d + i) = d + j)
    (h : ∀ line, Carries S known (m - 1) j l g (next ⟨line, k⟩) (next' ⟨line + S.shift, k⟩)) :
    Carries S (k :: known) m i l g (TokenParser.advance >>= next)
      (TokenParser.advance >>= next') :=
  advanceOn hk hdepth fun line _ => h line

/-- All tokens are there as fuel. -/
theorem remaining {next : List Token → TokenParser γ} {next' : List Token → TokenParser δ}
    (h : ∀ l fuel fuel', l ≤ m → l ≤ fuel.length → l ≤ fuel'.length →
      Carries S known l i j g (next fuel) (next' fuel')) :
    Carries S known m i j g (TokenParser.remaining >>= next)
      (TokenParser.remaining >>= next') := by
  intro p p' u v hp
  have hfuel : p.length ≤ (p ++ u).length := by simp
  have hfuel' : p.length ≤ (p' ++ v).length := by
    rw [hp.same.length_eq]
    simp
  exact h p.length (p ++ u) (p' ++ v) hp.length_le hfuel hfuel' p p' u v
    ⟨hp.same, hp.known, hp.closed, le_rfl⟩

theorem failHere (cause : SyntaxError.Cause) :
    Carries S known m i j f (TokenParser.failHere cause) (TokenParser.failHere cause) :=
  of_failsHere (failsHere_failHere cause) (failsHere_failHere cause)

theorem failTooDeep :
    Carries S known m i j f LiveDoc.Fragment.failTooDeep LiveDoc.Fragment.failTooDeep :=
  of_failsHere failsHere_failTooDeep failsHere_failTooDeep

/-- A condition that stands in the way is met by both or by none. -/
theorem guard {stop : Bool} {cause : SyntaxError.Cause} {next : Unit → TokenParser α}
    {next' : Unit → TokenParser β} (h : Carries S known m i j f (next ()) (next' ())) :
    Carries S known m i j f
      (if stop = true then TokenParser.failHere cause >>= next else next ())
      (if stop = true then TokenParser.failHere cause >>= next' else next' ()) := by
  cases stop with
  | false => exact h
  | true =>
    exact of_failsHere ((failsHere_failHere cause).bind next)
      ((failsHere_failHere cause).bind next')

end Carries

/-! ### Looking at tokens -/

def Token.Kind.isSymbol (s : Symbol) : Token.Kind → Bool
  | .symbol other => decide (other = s)
  | _ => false

def Token.Kind.isKeyword (w : Keyword) : Token.Kind → Bool
  | .keyword other => decide (other = w)
  | _ => false

theorem kind_of_isSymbol {s : Symbol} (h : k.isSymbol s = true) : k = .symbol s := by
  cases k with
  | symbol other => exact congrArg _ (of_decide_eq_true h)
  | _ => cases h

theorem kind_of_isKeyword {w : Keyword} (h : k.isKeyword w = true) : k = .keyword w := by
  cases k with
  | keyword other => exact congrArg _ (of_decide_eq_true h)
  | _ => cases h

/-- Where a step is a look at the kind of the first token. -/
theorem looks_head {act : TokenParser α} {a : α}
    (h : ∀ t rest, t.kind = k → act (t :: rest) = .ok a (t :: rest)) :
    Looks (k :: known) act a := by
  intro tokens htokens
  obtain ⟨t, rest, rfl, hkind⟩ := exists_cons_of_known htokens
  exact h t rest hkind

theorem looks_peekKind : Looks (k :: known) peekKind k :=
  looks_head fun t rest hk => by subst hk; rfl

theorem looks_atSymbol (s : Symbol) : Looks (k :: known) (atSymbol s) (k.isSymbol s) := by
  refine looks_head fun t rest hk => ?_
  obtain ⟨line, kind⟩ := t
  subst hk
  cases kind <;> rfl

theorem looks_atKeyword (w : Keyword) : Looks (k :: known) (atKeyword w) (k.isKeyword w) := by
  refine looks_head fun t rest hk => ?_
  obtain ⟨line, kind⟩ := t
  subst hk
  cases kind <;> rfl

namespace Carries

variable {next next' : Bool → TokenParser γ} {g : γ → γ}

/-- A symbol is taken if it is there. -/
theorem eat {s : Symbol} (hdepth : ∀ d, s.depthAfter (d + i) = d + j)
    (hyes : Carries S [] (m - 1) j l g (next true) (next' true))
    (hno : Carries S [] m i l g (next false) (next' false)) :
    Carries S [] m i l g (TokenParser.eat s >>= next) (TokenParser.eat s >>= next') := by
  refine of_kind fun k => ?_
  rw [TokenParser.eat, bind_assoc, bind_assoc]
  refine look (looks_atSymbol s) (looks_atSymbol s) ?_
  cases hk : k.isSymbol s with
  | false => exact hno.forget
  | true =>
    obtain rfl := kind_of_isSymbol hk
    simp only [if_true, bind_assoc, pure_bind]
    exact advance rfl hdepth fun _ => hyes

end Carries

theorem carries_expect {s : Symbol} (what : String) (hdepth : ∀ d, s.depthAfter (d + i) = d + j) :
    Carries S [] m i j id (expect s what) (expect s what) :=
  Carries.eat hdepth (.pure id ()) (.failHere _)

theorem looks_peekSecond {second : Token.Kind} :
    Looks (k :: second :: known) peekSecond second := by
  intro tokens htokens
  match tokens with
  | [] => simp at htokens
  | [_] => simp at htokens
  | t :: u :: rest =>
    simp only [List.map_cons, List.cons_prefix_cons] at htokens
    obtain ⟨-, rfl, -⟩ := htokens
    rfl

/-- Where it does not count what stands behind the next token. -/
theorem Carries.second {next next' : Token.Kind → TokenParser γ} {g : γ → γ}
    (h : ∀ second second', Carries S known m i j g (next second) (next' second')) :
    Carries S known m i j g (peekSecond >>= next) (peekSecond >>= next') := by
  intro p p' u v hp
  have hpeek (tokens : List Token) : ∃ kind, peekSecond tokens = .ok kind tokens := by
    match tokens with
    | [] => exact ⟨_, rfl⟩
    | [_] => exact ⟨_, rfl⟩
    | _ :: _ :: _ => exact ⟨_, rfl⟩
  obtain ⟨second, hsecond⟩ := hpeek (p ++ u)
  obtain ⟨second', hsecond'⟩ := hpeek (p' ++ v)
  rw [Outcome.run_bind_of_ok hsecond, Outcome.run_bind_of_ok hsecond']
  exact h second second' p p' u v hp

/-- Behind a dot the next token is taken, whatever it is. -/
theorem Carries.attribute {next next' : Token → TokenParser γ} {g : γ → γ}
    (hname : ∀ name line, Carries S [] (m - 1 - 1) 0 0 g (next ⟨line, .name name⟩)
      (next' ⟨line + S.shift, .name name⟩))
    (hother : ∀ t, (∀ name, t.kind ≠ .name name) →
      next t = TokenParser.failHere .missingAttribute)
    (hother' : ∀ t, (∀ name, t.kind ≠ .name name) →
      next' t = TokenParser.failHere .missingAttribute) :
    Carries S [.symbol .dot] m 0 0 g (TokenParser.advance >>= fun _ => TokenParser.advance >>= next)
      (TokenParser.advance >>= fun _ => TokenParser.advance >>= next') := by
  refine of_second rfl fun second => ?_
  by_cases hsecond : ∃ name, second = .name name
  · obtain ⟨name, rfl⟩ := hsecond
    exact .advance rfl (fun _ => rfl) fun _ => .advance rfl (fun _ => rfl) (hname name)
  intro p p' u v hp
  obtain ⟨dot, q, q', rfl, rfl, hdot, -, -⟩ := hp.exists_written rfl
  have hrest := hp.tail (hdot ▸ rfl)
  obtain ⟨t, t', rest, rest', rfl, rfl, rfl, ht, hsame⟩ := hrest.exists_cons
  have hnone : ∀ name, t.kind ≠ .name name := fun name hname => hsecond ⟨name, hname⟩
  obtain ⟨left, htaken, -⟩ := exists_advance t (rest ++ u)
  obtain ⟨left', htaken', hleft'⟩ := exists_advance t' (rest' ++ v)
  obtain ⟨e, stop, herror⟩ := failHere_eq_error (α := γ) .missingAttribute left
  -- What is taken may be the last token in front of `v`, and then the line is the one of `v`.
  obtain ⟨x, more, rfl, hx⟩ : ∃ x more, left' = x :: more ∧
      FailsOn S (dot :: t :: rest) v x.line := by
    rcases hleft' with ⟨-, rfl⟩ | ⟨hsome, rfl⟩
    · exact ⟨t', [], rfl, .inl ht.onLine⟩
    · cases hsame with
      | nil =>
        obtain ⟨x, more, rfl⟩ := List.exists_cons_of_ne_nil hsome
        exact ⟨x, more, rfl, .inr ⟨⟨dot.line, t, by simp [← hdot]⟩, x, rfl, rfl⟩⟩
      | cons hx _ => exact ⟨_, _, rfl, .inl hx.onLine⟩
  obtain ⟨e', stop', herror', hline⟩ :=
    (failsHere_failHere (α := γ) .missingAttribute).exists_error more
  have hrun : (TokenParser.advance >>= fun _ => TokenParser.advance >>= next)
      (dot :: t :: (rest ++ u)) = .error e stop := by
    rw [Outcome.run_bind_of_ok (show TokenParser.advance (dot :: t :: (rest ++ u)) = _ from rfl),
      Outcome.run_bind_of_ok htaken, hother t hnone, herror]
  have hrun' : (TokenParser.advance >>= fun _ => TokenParser.advance >>= next')
      (⟨dot.line + S.shift, .symbol .dot⟩ :: t' :: (rest' ++ v)) = .error e' stop' := by
    rw [Outcome.run_bind_of_ok (show TokenParser.advance (_ :: t' :: (rest' ++ v)) = _ from rfl),
      Outcome.run_bind_of_ok htaken', hother' t' (ht.kind_eq ▸ hnone), herror']
  rw [List.cons_append, List.cons_append, List.cons_append, List.cons_append, hrun, hrun']
  exact .error (hline ▸ hx)

/-! ### Expressions -/

section Expressions

variable {expr expr' : TokenParser Expr} {field field' : List Char → Nat → Except SyntaxError Expr}

theorem carries_parseItems (close : Symbol) {item item' : TokenParser α}
    (hitem : ∀ m, Carries S [] m 0 0 id item item') {fuel fuel' : List Token}
    (hfuel : m ≤ fuel.length) (hfuel' : m ≤ fuel'.length) :
    Carries S [] m 0 0 id (parseItems close item fuel) (parseItems close item' fuel') := by
  induction fuel generalizing m fuel' with
  | nil => exact .of_bound (Nat.le_zero.mp hfuel)
  | cons t fuel ih =>
    cases fuel' with
    | nil => exact .of_bound (Nat.le_zero.mp hfuel')
    | cons t' fuel' =>
      refine .of_kind fun k => .look (looks_atSymbol close) (looks_atSymbol close) ?_
      split
      · exact .pure id []
      · refine ((hitem m).bind fun x => .eat (fun _ => rfl) ?_ (.pure id [x])).forget
        have hrest : Carries S [] (m - 1) 0 0 id (parseItems close item fuel)
            (parseItems close item' fuel') :=
          ih (Nat.sub_le_of_le_add hfuel) (Nat.sub_le_of_le_add hfuel')
        exact hrest.bind fun xs => .pure id (x :: xs)

theorem carries_parseArguments (hexpr : ∀ m, Carries S [] m 0 0 id expr expr') (args : List Expr)
    (named : List (String × Expr)) {fuel fuel' : List Token} (hfuel : m ≤ fuel.length)
    (hfuel' : m ≤ fuel'.length) :
    Carries S [] m 0 0 id (parseArguments expr args named fuel)
      (parseArguments expr' args named fuel') := by
  induction fuel generalizing m fuel' args named with
  | nil => exact .of_bound (Nat.le_zero.mp hfuel)
  | cons t fuel ih =>
    cases fuel' with
    | nil => exact .of_bound (Nat.le_zero.mp hfuel')
    | cons t' fuel' =>
      have hmore (l : Nat) (hl : l ≤ m) (args : List Expr) (named : List (String × Expr)) :
          Carries S [] l 0 0 id
            (eat .comma >>= fun more =>
              if more = true then parseArguments expr args named fuel else pure (args, named))
            (eat .comma >>= fun more =>
              if more = true then parseArguments expr' args named fuel'
              else pure (args, named)) := by
        simp only [List.length_cons] at hfuel hfuel'
        exact .eat (fun _ => rfl) (ih args named (by omega) (by omega)) (.pure id (args, named))
      refine .of_kind fun k => .look (looks_atSymbol _) (looks_atSymbol _) ?_
      split
      · exact .pure id (args, named)
      · refine .look looks_peekKind looks_peekKind ?_
        cases hk : k.isLayout with
        | true =>
          refine .second fun second second' => ?_
          cases k with
          | name s => cases hk
          | _ => exact .guard (.forget ((hexpr m).bind fun value => hmore m le_rfl _ named))
        | false =>
          refine .of_second hk fun second => .look looks_peekSecond looks_peekSecond ?_
          split
          · refine .advance rfl (fun _ => rfl) fun _ => .advance rfl (fun _ => rfl)
              fun _ => .guard ?_
            exact (hexpr _).bind fun value => hmore _ (by omega) args (named ++ [(_, value)])
          · exact .guard (.forget ((hexpr m).bind fun value => hmore m le_rfl _ named))

/-- The second reader reads the same fields of format strings in the second place. -/
def ReadsFields (S : Setting) (field field' : List Char → Nat → Except SyntaxError Expr) : Prop :=
  ∀ source line, source.length < S.size →
    (field' source (line + S.shift)).toOption = (field source line).toOption

theorem parseFormat_of_reads (hfield : ReadsFields S field field') (line : Nat)
    {pieces : List Piece} (hbelow : (Token.Kind.format pieces).FieldsBelow S.size) :
    (parseFormat field' (line + S.shift) pieces).toOption =
      (parseFormat field line pieces).toOption := by
  induction pieces with
  | nil => rfl
  | cons piece rest ih =>
    have hrest := ih fun source hsource => hbelow source (List.mem_cons_of_mem piece hsource)
    cases piece with
    | literal s =>
      rw [parseFormat, parseFormat, Outcome.toOption_bind, Outcome.toOption_bind, hrest]
    | field source =>
      have hsource := hfield source.toList line (hbelow source (List.mem_cons_self ..))
      simp only [parseFormat, Outcome.toOption_bind, Outcome.toOption_mapError, hrest, hsource]

theorem carries_parseAdjacent (s : String) {fuel fuel' : List Token} (hfuel : m ≤ fuel.length)
    (hfuel' : m ≤ fuel'.length) :
    Carries S [] m 0 0 id (parseAdjacent s fuel) (parseAdjacent s fuel') := by
  induction fuel generalizing m fuel' s with
  | nil => exact .of_bound (Nat.le_zero.mp hfuel)
  | cons t fuel ih =>
    cases fuel' with
    | nil => exact .of_bound (Nat.le_zero.mp hfuel')
    | cons t' fuel' =>
      refine .of_kind fun k => .look looks_peekKind looks_peekKind ?_
      split
      · exact .advance rfl (fun _ => rfl) fun _ =>
          ih _ (Nat.sub_le_of_le_add hfuel) (Nat.sub_le_of_le_add hfuel')
      · exact .pure id s

/-- What a statement may end at. -/
def Token.Kind.isStatementEnd : Token.Kind → Bool
  | .newline => true
  | .eof => true
  | .dedent => true
  | _ => false

theorem looks_atStatementEnd : Looks (k :: known) atStatementEnd k.isStatementEnd := by
  refine looks_head fun t rest hk => ?_
  obtain ⟨line, kind⟩ := t
  subst hk
  cases kind <;> rfl

theorem failsHere_parseAtom (field : List Char → Nat → Except SyntaxError Expr)
    (expr : TokenParser Expr) (hstart : k.isExprStart = false) :
    FailsHere [k] (parseAtom field expr) :=
  failsHere_of_kind fun _ rest hk => parseAtom_of_not_start field expr rest (hk ▸ hstart)

theorem carries_parseAtom (hexpr : ∀ m, Carries S [] m 0 0 id expr expr')
    (hfield : ReadsFields S field field') :
    Carries S [] m 0 0 id (parseAtom field expr) (parseAtom field' expr') := by
  refine .of_kind fun k => ?_
  cases hstart : k.isExprStart with
  | false =>
    exact .of_failsHere (failsHere_parseAtom field expr hstart)
      (failsHere_parseAtom field' expr' hstart)
  | true =>
    refine .look looks_atStatementEnd looks_atStatementEnd (.guard ?_)
    have hentry (m : Nat) : Carries S [] m 0 0 id
        (do
          let key ← expr
          expect .colon "':'"
          let value ← expr
          pure (key, value))
        (do
          let key ← expr'
          expect .colon "':'"
          let value ← expr'
          pure (key, value)) :=
      (hexpr m).bind fun key => (carries_expect _ fun _ => rfl).bind fun _ =>
        (hexpr m).bind fun value => .pure id (key, value)
    cases k with
    | int x => exact .advance rfl (fun _ => rfl) fun _ => .pure id _
    | float x => exact .advance rfl (fun _ => rfl) fun _ => .pure id _
    | name s => exact .advance rfl (fun _ => rfl) fun _ => .pure id _
    | str s =>
      exact .advance rfl (fun _ => rfl) fun _ => .remaining fun l fuel fuel' _ hfuel hfuel' =>
        (carries_parseAdjacent s hfuel hfuel').bind fun whole =>
          .pure id (Expr.constant (.str whole))
    | format pieces =>
      refine .of_below fun hbelow => .advanceOn rfl (fun _ => rfl) fun line hline => ?_
      have hsame := parseFormat_of_reads hfield line hbelow
      cases hparse : parseFormat field line pieces with
      | error e =>
        cases hparse' : parseFormat field' (line + S.shift) pieces with
        | error e' =>
          simp only [hparse, hparse']
          exact .throw (line_of_parseFormat hparse' ▸ hline)
        | ok parts =>
          rw [hparse, hparse'] at hsame
          cases hsame
      | ok parts =>
        rw [hparse] at hsame
        simp only [hparse, Outcome.toOption_eq_some_iff.mp hsame]
        exact .pure id (Expr.format parts)
    | keyword w =>
      cases w
      all_goals first
        | exact Bool.noConfusion hstart
        | exact .advance rfl (fun _ => rfl) fun _ => .pure id _
        | exact .advanceOn rfl (fun _ => rfl) fun _ hline => .throw hline
    | symbol s =>
      cases s
      case openRound =>
        exact .advance rfl (fun _ => rfl) fun _ => (hexpr _).inside.bind fun e =>
          (carries_expect _ fun _ => rfl).bind fun _ => .pure id e
      case openSquare =>
        exact .advance rfl (fun _ => rfl) fun _ => .remaining fun l fuel fuel' _ hfuel hfuel' =>
          (carries_parseItems _ hexpr hfuel hfuel').inside.bind fun items =>
            (carries_expect _ fun _ => rfl).bind fun _ => .pure id (Expr.list items)
      case openCurly =>
        exact .advance rfl (fun _ => rfl) fun _ => .remaining fun l fuel fuel' _ hfuel hfuel' =>
          (carries_parseItems _ hentry hfuel hfuel').inside.bind fun entries =>
            (carries_expect _ fun _ => rfl).bind fun _ => .pure id (Expr.dict entries)
      all_goals first
        | exact Bool.noConfusion hstart
        | exact .advanceOn rfl (fun _ => rfl) fun _ hline => .throw hline
    | _ => cases hstart

theorem carries_parseSuffixes (hexpr : ∀ m, Carries S [] m 0 0 id expr expr') (e : Expr)
    {fuel fuel' : List Token} (hfuel : m ≤ fuel.length) (hfuel' : m ≤ fuel'.length) :
    Carries S [] m 0 0 id (parseSuffixes expr e fuel) (parseSuffixes expr' e fuel') := by
  induction fuel generalizing m fuel' e with
  | nil => exact .of_bound (Nat.le_zero.mp hfuel)
  | cons t fuel ih =>
    cases fuel' with
    | nil => exact .of_bound (Nat.le_zero.mp hfuel')
    | cons t' fuel' =>
      have hmore (l : Nat) (hl : l ≤ m - 1) (e : Expr) :
          Carries S [] l 0 0 id (parseSuffixes expr e fuel) (parseSuffixes expr' e fuel') := by
        simp only [List.length_cons] at hfuel hfuel'
        exact ih e (by omega) (by omega)
      refine .of_kind fun k => .look looks_peekKind looks_peekKind ?_
      split
      · exact .advance rfl (fun _ => rfl) fun _ => .remaining fun l left left' hl hleft hleft' =>
          (carries_parseArguments hexpr [] [] hleft hleft').inside.bind fun (args, named) =>
            (carries_expect _ fun _ => rfl).bind fun _ => hmore l hl (.call e args named)
      · refine .attribute (fun name _ => hmore _ (Nat.sub_le _ 1) (.attribute e name)) ?_ ?_
        all_goals
          rintro ⟨line, kind⟩ hkind
          cases kind with
          | name s => exact absurd rfl (hkind s)
          | _ => rfl
      · exact .advance rfl (fun _ => rfl) fun _ => (hexpr _).inside.bind fun index =>
          (carries_expect _ fun _ => rfl).bind fun _ => hmore _ le_rfl (.item e index)
      · exact .pure id e

theorem carries_parseOperand {sub sub' : Nat → TokenParser Expr}
    (hsub : ∀ power m, Carries S [] m 0 0 id (sub power) (sub' power))
    (hfield : ReadsFields S field field') :
    Carries S [] m 0 0 id (parseOperand field sub) (parseOperand field' sub') := by
  refine .of_kind fun k => .look looks_peekKind looks_peekKind ?_
  cases hprefix : prefixed? k with
  | some found =>
    obtain ⟨op, power⟩ := found
    have hplain : k.isLayout = false ∧ ∀ d, k.depthAfter d = d := by
      fun_cases prefixed? k with
      | case1 => exact ⟨rfl, fun _ => rfl⟩
      | case2 => exact ⟨rfl, fun _ => rfl⟩
      | case3 => exact ⟨rfl, fun _ => rfl⟩
      | case4 => simp [prefixed?] at hprefix
    exact .advance (j := 0) hplain.1 hplain.2 fun _ => (hsub power _).bind fun operand =>
      .pure id (Expr.unary op operand)
  | none =>
    exact ((carries_parseAtom (hsub 0) hfield).bind fun atom => .remaining
      fun l fuel fuel' _ hfuel hfuel' => carries_parseSuffixes (hsub 0) atom hfuel hfuel').forget

/-- No operator is a layout token or a bracket. -/
theorem plain_of_ofTokens? {second : Token.Kind} {op : Infix}
    (h : Infix.ofTokens? k second = some op) :
    k.isLayout = false ∧ (∀ d, k.depthAfter d = d) ∧
      (op.width = 2 → second = .keyword .isIn) := by
  cases k with
  | symbol s => cases s <;> cases h <;> exact ⟨rfl, fun _ => rfl, fun hwidth => nomatch hwidth⟩
  | keyword w =>
    cases w with
    | not =>
      simp only [Infix.ofTokens?] at h
      split at h
      · exact ⟨rfl, fun _ => rfl, fun _ => rfl⟩
      · cases h
    | _ => cases h <;> exact ⟨rfl, fun _ => rfl, fun hwidth => nomatch hwidth⟩
  | _ => cases h

theorem carries_takeInfix (least : Nat) :
    Carries S [] m 0 0 id (takeInfix least) (takeInfix least) := by
  refine .of_kind fun k => .look looks_peekKind looks_peekKind ?_
  cases hk : k.isLayout with
  | true =>
    have hnone (second : Token.Kind) : Infix.ofTokens? k second = none := by
      cases hop : Infix.ofTokens? k second with
      | none => rfl
      | some op => exact Bool.noConfusion ((plain_of_ofTokens? hop).1.symm.trans hk)
    refine .second fun second second' => ?_
    rw [hnone second, hnone second']
    exact .pure id none
  | false =>
    refine .of_second hk fun second => .look looks_peekSecond looks_peekSecond ?_
    cases hop : Infix.ofTokens? k second with
    | none => exact .pure id none
    | some op =>
      obtain ⟨-, hdepth, hsecond⟩ := plain_of_ofTokens? hop
      dsimp only
      split
      · exact .pure id none
      · refine .advance (j := 0) hk hdepth fun _ => ?_
        split
        · rename_i hwidth
          obtain rfl := hsecond hwidth
          exact .advance (j := 0) rfl (fun _ => rfl) fun _ => .pure id (some op)
        · exact .pure id (some op)

mutual

theorem carries_parseExpr (hfield : ReadsFields S field field') (levels least m : Nat) :
    Carries S [] m 0 0 id (parseExpr field levels least) (parseExpr field' levels least) := by
  cases levels with
  | zero => exact .failTooDeep
  | succ levels =>
    rw [parseExpr, parseExpr]
    have hsub (power m : Nat) : Carries S [] m 0 0 id (parseExpr field levels power)
        (parseExpr field' levels power) := carries_parseExpr hfield levels power m
    exact (carries_parseOperand hsub hfield).bind fun left =>
      carries_parseOperators hfield levels least left false m

theorem carries_parseOperators (hfield : ReadsFields S field field') (levels least : Nat)
    (left : Expr) (chained : Bool) (m : Nat) :
    Carries S [] m 0 0 id (parseOperators field levels least left chained)
      (parseOperators field' levels least left chained) := by
  cases levels with
  | zero =>
    rw [parseOperators, parseOperators]
    refine (carries_takeInfix least).bind fun found => ?_
    cases found with
    | none => exact .pure id left
    | some op => exact .failTooDeep
  | succ levels =>
    rw [parseOperators, parseOperators]
    refine (carries_takeInfix least).bind fun found => ?_
    cases found with
    | none => exact .pure id left
    | some op =>
      exact (carries_parseExpr hfield levels _ m).bind fun right =>
        carries_parseOperators hfield levels least _ _ m

end

end Expressions

/-! ### The expressions in format strings -/

theorem same_moved {tokens : List Token} (hbelow : ∀ t ∈ tokens, t.kind.FieldsBelow S.size)
    (hlines : ∀ t ∈ tokens, S.lines (t.line + S.shift)) :
    List.Forall₂ (Token.Same S) tokens (tokens.map (Token.moved S.shift)) :=
  List.forall₂_map_right_iff.mpr (List.forall₂_same.mpr fun t ht =>
    ⟨rfl, fun _ => rfl, hbelow t ht, hlines t ht⟩)

/-- An expression with nothing behind it. -/
def wholeExpression (field : List Char → Nat → Except SyntaxError Expr) : TokenParser Expr := do
  let e ← parseExpr field maxDepth 0
  match ← peekKind with
  | .eof => pure e
  | _ => failHere .invalidSyntax

/-- What reads the expressions in the format strings of an expression. -/
def fieldsWithin : (nesting : Nat) → List Char → Nat → Except SyntaxError Expr
  | 0 => fun _ line => .error ⟨.tooDeep, line⟩
  | nesting + 1 => parseExpressionWithin nesting

theorem parseExpressionWithin_eq (nesting : Nat) (source : List Char) (line : Nat) :
    parseExpressionWithin nesting source line =
      tokenizeExpression source line >>= fun tokens =>
        match (wholeExpression (fieldsWithin nesting)).run tokens with
        | .ok e _ => .ok e
        | .error e _ => .error e := by
  cases nesting with
  | zero => rfl
  | succ nesting => rfl

theorem parseExpressionWithin_eq_ok_iff {nesting line : Nat} {source : List Char} {e : Expr} :
    parseExpressionWithin nesting source line = .ok e ↔
      ∃ tokens left, tokenizeExpression source line = .ok tokens ∧
        (wholeExpression (fieldsWithin nesting)).run tokens = .ok e left := by
  rw [parseExpressionWithin_eq, Outcome.bind_eq_ok_iff]
  constructor
  · rintro ⟨tokens, htokens, hrun⟩
    split at hrun
    · rename_i value left hresult
      cases hrun
      exact ⟨tokens, left, htokens, hresult⟩
    · cases hrun
  · rintro ⟨tokens, left, htokens, hrun⟩
    exact ⟨tokens, htokens, by rw [hrun]⟩

theorem carries_wholeExpression {field field' : List Char → Nat → Except SyntaxError Expr}
    (hfield : ReadsFields S field field') (m : Nat) :
    Carries S [] m 0 0 id (wholeExpression field) (wholeExpression field') := by
  refine (carries_parseExpr hfield maxDepth 0 m).bind fun e => .of_kind fun k =>
    .look looks_peekKind looks_peekKind ?_
  split
  · exact .pure id e
  · exact .failHere _

/-- The expressions in an expression have shorter sources. -/
theorem readsFields_of_fields {nesting nesting' : Nat} (S : Setting) (hsize : S.size = nesting + 1)
    (hfield : ReadsFields ⟨S.shift, nesting, fun _ => True⟩ (fieldsWithin nesting)
      (fieldsWithin nesting')) :
    ReadsFields S (parseExpressionWithin nesting) (parseExpressionWithin nesting') := by
  intro source line hsource
  rw [parseExpressionWithin_eq, parseExpressionWithin_eq, Outcome.toOption_bind,
    Outcome.toOption_bind, tokenizeExpression_moved]
  cases htokens : tokenizeExpression source line with
  | error e => simp only [Except.toOption, Option.map_none, Option.bind_none]
  | ok tokens =>
    have hbelow : ∀ t ∈ tokens, t.kind.FieldsBelow nesting :=
      fieldsBelow_of_scan htokens (by simp [Scanner.FieldsBelow]) (by omega)
    have hwindow : Window ⟨S.shift, nesting, fun _ => True⟩ [] tokens.length tokens
        (tokens.map (Token.moved S.shift)) := by
      refine ⟨same_moved hbelow fun _ _ => trivial, List.nil_prefix, ?_, le_rfl⟩
      obtain ⟨body, last, rfl⟩ := exists_eof htokens
      exact ⟨⟨last, .eof⟩, by simp, rfl⟩
    have hcarried := carries_wholeExpression hfield _ _ _ [] [] hwindow
    rw [List.append_nil, List.append_nil] at hcarried
    simp only [Except.toOption, Option.map_some, Option.bind_some, EStateM.run]
    generalize wholeExpression (fieldsWithin nesting) tokens = result,
      wholeExpression (fieldsWithin nesting') (tokens.map (Token.moved S.shift)) = result'
        at hcarried ⊢
    cases hcarried with
    | ok => rfl
    | error => rfl

/-- It makes no difference if format strings may lie deeper inside each other than in sources of the
given length. -/
theorem readsFields_parseExpressionWithin {nesting nesting' : Nat} (S : Setting)
    (hsize : S.size = nesting + 1) (h : nesting ≤ nesting') :
    ReadsFields S (parseExpressionWithin nesting) (parseExpressionWithin nesting') := by
  induction nesting generalizing nesting' S with
  | zero =>
    exact readsFields_of_fields S hsize fun source line hnone => absurd hnone (Nat.not_lt_zero _)
  | succ nesting ih =>
    obtain ⟨outer, rfl⟩ := Nat.exists_eq_add_of_lt h
    exact readsFields_of_fields S hsize (ih _ rfl (Nat.le_add_right nesting outer))

end LiveDoc.Fragment
