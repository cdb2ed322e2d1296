import LiveDoc.Fragment.Tree

/-!
The height of expression trees. A part lies in its expression as the object of a suffix, as the left
operand of an operator, or in another way, and a path goes from an expression down to parts of
parts. `longest` is the greatest weight of a path if each part weighs what the way weighs in which
it lies. A format string is a leaf; the expressions of its fields are trees of their own.
-/
namespace LiveDoc.Fragment

/-- How a part lies in an expression. -/
inductive Edge where
  /-- The object of a call, an attribute or an item. -/
  | object
  /-- The left operand of an operator or the first one of a comparison. -/
  | left
  /-- Any other part. -/
  | nested

namespace Edge

/-- Counts the objects of suffixes. -/
def suffix : Edge → Nat
  | object => 1
  | left => 0
  | nested => 0

/-- Counts the parts that an expression begins with. -/
def leading : Edge → Nat
  | object => 1
  | left => 1
  | nested => 0

end Edge

namespace Expr

def parts : Expr → List (Edge × Expr)
  | constant _ => []
  | name _ => []
  | format _ => []
  | list items => items.map (.nested, ·)
  | dict entries => entries.flatMap fun p => [(.nested, p.1), (.nested, p.2)]
  | unary _ operand => [(.nested, operand)]
  | binary _ left right => [(.left, left), (.nested, right)]
  | logic _ left right => [(.left, left), (.nested, right)]
  | compare first others => (.left, first) :: others.map fun p => (.nested, p.2)
  | call callee args named =>
    (.object, callee) :: (args.map (.nested, ·) ++ named.map fun p => (.nested, p.2))
  | .attribute object _ => [(.object, object)]
  | item object index => [(.object, object), (.nested, index)]

theorem sizeOf_lt_of_pair {α : Type} [SizeOf α] {pairs : List (α × Expr)} {p : α × Expr}
    (h : p ∈ pairs) : sizeOf p.2 < sizeOf pairs := by
  have hlt := List.sizeOf_lt_of_mem h
  obtain ⟨a, e⟩ := p
  simp only [Prod.mk.sizeOf_spec] at hlt ⊢
  omega

theorem sizeOf_lt_of_entry {pairs : List (Expr × Expr)} {p : Expr × Expr} (h : p ∈ pairs) :
    sizeOf p.1 < sizeOf pairs ∧ sizeOf p.2 < sizeOf pairs := by
  have hlt := List.sizeOf_lt_of_mem h
  obtain ⟨key, value⟩ := p
  simp only [Prod.mk.sizeOf_spec] at hlt ⊢
  omega

theorem sizeOf_lt_of_mem_parts {e : Expr} {part : Edge × Expr} (h : part ∈ e.parts) :
    sizeOf part.2 < sizeOf e := by
  cases e with
  | constant => simp [parts] at h
  | name => simp [parts] at h
  | format => simp [parts] at h
  | list items =>
    obtain ⟨e, he, rfl⟩ := List.mem_map.mp h
    have hlt := List.sizeOf_lt_of_mem he
    simp only [list.sizeOf_spec]
    omega
  | dict entries =>
    obtain ⟨p, hp, hpart⟩ := List.mem_flatMap.mp h
    have hlt := sizeOf_lt_of_entry hp
    simp only [dict.sizeOf_spec]
    grind
  | compare first others =>
    have hlt : ∀ p ∈ others, sizeOf p.2 < sizeOf others := fun p => sizeOf_lt_of_pair
    simp only [compare.sizeOf_spec]
    grind [parts]
  | call callee args named =>
    have hargs : ∀ e ∈ args, sizeOf e < sizeOf args := fun e => List.sizeOf_lt_of_mem
    have hnamed : ∀ p ∈ named, sizeOf p.2 < sizeOf named := fun p => sizeOf_lt_of_pair
    simp only [call.sizeOf_spec]
    grind [parts]
  | _ => grind [parts]

/-- The greatest weight of a path down the tree. -/
def longest (weight : Edge → Nat) (e : Expr) : Nat :=
  (e.parts.attach.map fun ⟨part, _⟩ => weight part.1 + longest weight part.2).foldr max 0
termination_by sizeOf e
decreasing_by exact sizeOf_lt_of_mem_parts ‹_›

variable {weight other : Edge → Nat} {e f : Expr} {n : Nat}

theorem foldr_max_le_iff {heights : List Nat} :
    heights.foldr max 0 ≤ n ↔ ∀ height ∈ heights, height ≤ n := by
  induction heights with
  | nil => simp
  | cons height rest ih => rw [List.foldr_cons, Nat.max_le, ih, List.forall_mem_cons]

theorem longest_le_iff :
    e.longest weight ≤ n ↔ ∀ part ∈ e.parts, weight part.1 + part.2.longest weight ≤ n := by
  rw [longest, foldr_max_le_iff]
  simp only [List.forall_mem_map, List.mem_attach, true_imp_iff, Subtype.forall]

theorem longest_lt_iff :
    e.longest weight < n ↔
      0 < n ∧ ∀ part ∈ e.parts, weight part.1 + part.2.longest weight < n := by
  cases n with
  | zero => simp
  | succ n => simp only [Nat.lt_succ_iff, longest_le_iff, Nat.zero_le, true_and]

theorem longest_of_part (weight : Edge → Nat) {part : Edge × Expr} (h : part ∈ e.parts) :
    weight part.1 + part.2.longest weight ≤ e.longest weight :=
  longest_le_iff.mp (Nat.le_refl _) part h

/-- A path that is heavy by the sum of two weights is so by one of them. -/
theorem longest_add_le (weight other : Edge → Nat) (e : Expr) :
    e.longest (fun edge => weight edge + other edge) ≤ e.longest weight + e.longest other := by
  refine longest_le_iff.mpr fun part hpart => ?_
  have hrest := longest_add_le weight other part.2
  have hweight := longest_of_part weight hpart
  have hother := longest_of_part other hpart
  omega
termination_by sizeOf e
decreasing_by exact sizeOf_lt_of_mem_parts hpart

/-- The number of expressions on a longest path; a leaf has the height 1. -/
def height (e : Expr) : Nat := e.longest (fun _ => 1) + 1

theorem height_lt_of_part {part : Edge × Expr} (h : part ∈ e.parts) : part.2.height < e.height := by
  have hlongest := longest_of_part (fun _ => 1) h
  simp only [height]
  omega

/-- The greatest number of suffixes on a path. -/
def suffixes (e : Expr) : Nat := e.longest Edge.suffix

/-- The greatest number of steps on a path that go to the part that an expression begins with: the
object of a suffix or the left operand of an operator. -/
def leading (e : Expr) : Nat := e.longest Edge.leading

/-- The expression `f` is a field of a format string in the tree. -/
inductive HasField : Expr → Expr → Prop where
  | here {fields : List FormatPart} {f : Expr} (h : .field f ∈ fields) :
    HasField (.format fields) f
  | inside {e f : Expr} {part : Edge × Expr} (hpart : part ∈ e.parts)
    (h : HasField part.2 f) : HasField e f

end Expr

end LiveDoc.Fragment
