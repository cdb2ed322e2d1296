import LiveDoc.Proofs.Evaluation.Operators
import LiveDoc.Proofs.Integer64

/-!
The items of a range: all integers in steps from its start that stand in front of its stop. They
are counted by the distance from the start to the stop, which is cut off at the largest integer, so
that a range reaches its stop exactly where this distance fits. Whatever is computed for an item
lies between the start and the stop, or between zero and the distance, and fits.
-/
namespace LiveDoc

open Fragment Evaluation

namespace Value

open Integer64 (least largest fits fits_iff natAbs_le_of_fits saturated saturated_eq)

variable {start stop step distance size : Int}

/-- To stand in front of the stop, in the direction of the step. -/
def Precedes (step x stop : Int) : Prop := if 0 < step then x < stop else stop < x

/-- The distance that is left in the direction of the step. -/
def distanceTo (start stop step : Int) : Int := if 0 < step then stop - start else start - stop

/-- The stop, or the last place that is within the largest distance. -/
def rangeEnd (start stop step : Int) : Int :=
  if 0 < step then min stop (start + largest) else max stop (start - largest)

theorem rangeEnd_eq_stop_iff :
    rangeEnd start stop step = stop ↔ distanceTo start stop step ≤ largest := by
  unfold rangeEnd distanceTo
  split
  · omega
  · omega

theorem lt_steps_iff (hsize : 0 < size) (hdistance : 0 < distance) (i : Nat) :
    i < ((distance - 1) / size).toNat + 1 ↔ i * size < distance := by
  have hnonneg : 0 ≤ (distance - 1) / size := Int.ediv_nonneg (by omega) (Int.le_of_lt hsize)
  have hcount : (i : Int) ≤ (distance - 1) / size ↔ i * size ≤ distance - 1 :=
    Int.le_ediv_iff_mul_le hsize
  omega

/-- The size of the least step does not fit, but no second item is within a distance that does. -/
theorem mul_saturated_lt_iff (hdistance : distance ≤ largest) (hsize : 0 < size)
    (hlargest : size ≤ largest + 1) (i : Nat) :
    i * saturated size < distance ↔ i * size < distance := by
  have hsaturated := saturated_eq size
  unfold least largest at *
  by_cases hfits : size ≤ 9223372036854775807
  · have hsame : saturated size = size := by omega
    rw [hsame]
  · have hsize : size = 9223372036854775808 := by omega
    have hcut : saturated size = 9223372036854775807 := by omega
    rw [hcut, hsize]
    by_cases hi : i = 0
    · subst hi
      simp
    · omega

/-- The items are those within the distance, as far as it fits. -/
theorem lt_rangeLength_iff_mul (hzero : step ≠ 0) (hstep : fits step = true) (i : Nat) :
    i < rangeLength start stop step ↔
      i * (step.natAbs : Int) < min (distanceTo start stop step) largest := by
  have hsmall : (step.natAbs : Int) ≤ largest + 1 := by
    have hpower := natAbs_le_of_fits hstep
    unfold largest
    omega
  have hunfold : rangeLength start stop step =
      if saturated (distanceTo start stop step) ≤ 0 then 0
      else ((saturated (distanceTo start stop step) - 1) / saturated step.natAbs).toNat + 1 := rfl
  have hdistance := saturated_eq (distanceTo start stop step)
  have hsize := saturated_eq (step.natAbs : Int)
  rw [hunfold]
  by_cases hnone : distanceTo start stop step ≤ 0
  · have hempty : saturated (distanceTo start stop step) ≤ 0 := by
      unfold least largest at *
      omega
    have hproduct : 0 ≤ (i : Int) * (step.natAbs : Int) := by positivity
    rw [if_pos hempty]
    omega
  · have hpositive : 0 < min (distanceTo start stop step) largest := by
      unfold largest
      omega
    have hcut : saturated (distanceTo start stop step) =
        min (distanceTo start stop step) largest := by
      unfold least at hdistance
      omega
    have hsome : 0 < saturated (step.natAbs : Int) := by
      unfold least largest at *
      omega
    rw [hcut, if_neg (Int.not_le.mpr hpositive), lt_steps_iff hsome hpositive,
      mul_saturated_lt_iff (Int.min_le_right _ _) (by omega) hsmall]

theorem mul_natAbs_eq (i : Nat) (step : Int) :
    (i : Int) * step.natAbs = if 0 < step then i * step else -(i * step) := by
  split
  · rename_i hpos
    rw [Int.natAbs_of_nonneg (Int.le_of_lt hpos)]
  · rename_i hneg
    rw [Int.ofNat_natAbs_of_nonpos (Int.not_lt.mp hneg), Int.mul_neg]

/-- An item is within the distance where it stands in front of the end. -/
theorem precedes_rangeEnd_iff (i : Nat) :
    Precedes step (start + i * step) (rangeEnd start stop step) ↔
      i * (step.natAbs : Int) < min (distanceTo start stop step) largest := by
  rw [mul_natAbs_eq]
  unfold Precedes rangeEnd distanceTo
  split
  · omega
  · omega

/-- What is computed for an item fits. -/
theorem fits_item (hstart : fits start = true) (hstop : fits stop = true) {i : Nat}
    (hi : i * (step.natAbs : Int) < min (distanceTo start stop step) largest) :
    fits (i * step) = true ∧ fits (start + i * step) = true := by
  have hproduct : 0 ≤ (i : Int) * (step.natAbs : Int) := by positivity
  rw [fits_iff] at *
  rw [mul_natAbs_eq] at *
  unfold distanceTo at hi
  rw [fits_iff]
  unfold least largest at *
  split at hi
  · omega
  · omega

theorem fits_rangeLength (hzero : step ≠ 0) (hstep : fits step = true) :
    fits (rangeLength start stop step) = true := by
  rw [fits_iff]
  cases hlength : rangeLength start stop step with
  | zero => decide
  | succ n =>
    have hlast : (n : Int) * step.natAbs < min (distanceTo start stop step) largest := by
      rw [← lt_rangeLength_iff_mul hzero hstep, hlength]
      exact Nat.lt_succ_self n
    have hsize : (n : Int) * 1 ≤ n * step.natAbs :=
      Int.mul_le_mul_of_nonneg_left (by omega) (by omega)
    unfold least largest at *
    omega

theorem call_range (hzero : step ≠ 0) :
    Builtin.call .range ⟨[.int start, .int stop, .int step], []⟩ =
      if lengthLimit < rangeLength start stop step then .error .rangeTooLarge
      else .ok (.value (.list ((List.range (rangeLength start stop step)).map
        fun (i : Nat) => .int (start + i * step)))) := by
  have hrange : Builtin.call .range ⟨[.int start, .int stop, .int step], []⟩ =
      rangeOf start stop step >>= fun v => .ok (.value v) := rfl
  rw [hrange, rangeOf, if_neg hzero]
  split
  · rfl
  · rfl

end Value

variable {σ : Type} {h : Host σ} {env : Environment} {callee : Expr} {args : List Expr}
  {start stop step : Int} {s s₁ s₂ : σ}

/-- A range holds all items in front of its end, in order, or is refused because there are too many
of them. Its end is its stop exactly where the distance to the stop fits; neither an item nor what
is computed on the way to it leaves the integers of 64 bits. -/
theorem eval_range_items (hstart : Integer64.fits start = true)
    (hstop : Integer64.fits stop = true) (hstep : Integer64.fits step = true) (hzero : step ≠ 0)
    (hcallee : callee.eval h env s = .ok (.builtin .range) s₁)
    (hargs : evalItems h env args s₁ = .ok [.int start, .int stop, .int step] s₂) :
    ∃ n : Nat,
      (∀ i : Nat, i < n ↔
        Value.Precedes step (start + i * step) (Value.rangeEnd start stop step)) ∧
      (Value.rangeEnd start stop step = stop ↔
        Value.distanceTo start stop step ≤ Integer64.largest) ∧
      (n ≤ Value.lengthLimit → (Expr.call callee args []).eval h env s =
        .ok (.list ((List.range n).map fun (i : Nat) => .int (start + i * step))) s₂) ∧
      (Value.lengthLimit < n → Raises ((Expr.call callee args []).eval h env s) "MemoryError") ∧
      Integer64.fits n = true ∧
      ∀ i : Nat, i < n →
        Integer64.fits (i * step) = true ∧ Integer64.fits (start + i * step) = true := by
  have hwithin (i : Nat) : i < Value.rangeLength start stop step ↔ _ :=
    Value.lt_rangeLength_iff_mul hzero hstep i
  have hcall := eval_call_builtin hcallee hargs
  rw [Value.call_range hzero] at hcall
  refine ⟨Value.rangeLength start stop step, fun i => ?_, Value.rangeEnd_eq_stop_iff,
    fun hfew => ?_, fun hmany => ?_, Value.fits_rangeLength hzero hstep, fun i hi => ?_⟩
  · rw [hwithin, Value.precedes_rangeEnd_iff]
  · rw [hcall, if_neg (Nat.not_lt.mpr hfew)]
    rfl
  · rw [hcall, if_pos hmany]
    exact ⟨.rangeTooLarge, s₂, rfl, rfl⟩
  · exact Value.fits_item hstart hstop ((hwithin i).mp hi)

/-- `range(5, 0, -2)` holds 5, 3 and 1. -/
theorem eval_range_items_of_countdown :
    Integer64.fits 5 = true ∧ Integer64.fits 0 = true ∧ Integer64.fits (-2) = true ∧
      (-2 : Int) ≠ 0 ∧
      (Expr.name "range").eval grantingRecorder .initial .initial =
        .ok (.builtin .range) .initial ∧
      evalItems grantingRecorder .initial [.constant (.int 5), .constant (.int 0),
        .unary .neg (.constant (.int 2))] .initial = .ok [.int 5, .int 0, .int (-2)] .initial ∧
      evalFirst (.call (.name "range") [.constant (.int 5), .constant (.int 0),
        .unary .neg (.constant (.int 2))] []) = .ok (.list [.int 5, .int 3, .int 1]) .initial := by
  have hcallee : (Expr.name "range").eval grantingRecorder .initial .initial =
      .ok (.builtin .range) .initial := rfl
  have hargs : evalItems grantingRecorder .initial [.constant (.int 5), .constant (.int 0),
      .unary .neg (.constant (.int 2))] .initial =
        .ok [.int 5, .int 0, .int (-2)] .initial := rfl
  obtain ⟨n, hitems, hend, hfew, -⟩ :=
    eval_range_items rfl rfl rfl (by decide) hcallee hargs
  rw [hend.mpr (by decide)] at hitems
  have hthree : n = 3 := by
    have hsecond := hitems 2
    have hthird := hitems 3
    unfold Value.Precedes at hsecond hthird
    rw [if_neg (by decide)] at hsecond hthird
    omega
  subst hthree
  exact ⟨rfl, rfl, rfl, by decide, hcallee, hargs, hfew (by decide)⟩

/-- Three integers from the least one on stand in front of the largest one, in steps of this size,
but only the first of them becomes an item. -/
theorem range_cut_short :
    (∀ i : Nat, i < 3 ↔ Value.Precedes Integer64.largest
      (Integer64.least + i * Integer64.largest) Integer64.largest) ∧
    3 ≤ Value.lengthLimit ∧
    evalFirst (.call (.name "range") [leastInteger, .constant (.int 9223372036854775807),
      .constant (.int 9223372036854775807)] []) =
        .ok (.list [.int Integer64.least]) .initial := by
  refine ⟨fun i => ?_, by decide, rfl⟩
  unfold Value.Precedes Integer64.least Integer64.largest
  rw [if_pos (by decide)]
  omega

end LiveDoc
