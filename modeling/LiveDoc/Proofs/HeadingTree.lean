/-!
The tree that the levels of headings span. A heading stands under the last one before it whose
level is smaller. To go through the tree depth first, each heading is entered, then what stands
under it, and then it is left. The same is done in the order of the headings with a branch of open
ones: before a heading is entered, all those are left whose level is not smaller.
-/
namespace LiveDoc.HeadingTree

variable {α : Type} (level : Nat → Nat)

/-- The last of the first `i` headings whose level is smaller than `l`. -/
def nearest (l : Nat) : (i : Nat) → Option Nat
  | 0 => none
  | i + 1 => if level i < l then some i else nearest l i

/-- The heading under which another one stands. -/
def parent? (i : Nat) : Option Nat := nearest level (level i) i

theorem nearest_eq_some {level : Nat → Nat} {l i j : Nat} (h : nearest level l i = some j) :
    j < i ∧ level j < l ∧ ∀ k, j < k → k < i → l ≤ level k := by
  induction i with
  | zero => simp [nearest] at h
  | succ i ih =>
    by_cases hi : level i < l
    · rw [nearest, if_pos hi] at h
      injection h with hj
      subst hj
      refine ⟨Nat.lt_succ_self i, hi, ?_⟩
      intro k hk hk'
      omega
    · rw [nearest, if_neg hi] at h
      obtain ⟨hji, hl, hbetween⟩ := ih h
      refine ⟨Nat.lt_succ_of_lt hji, hl, ?_⟩
      intro k hk hk'
      by_cases hlast : k = i
      · subst hlast
        exact Nat.le_of_not_lt hi
      · exact hbetween k hk (by omega)

theorem parent_lt {level : Nat → Nat} {i j : Nat} (h : parent? level i = some j) : j < i :=
  (nearest_eq_some h).1

/-- The headings from `i` on, of `n` ones, that stand under another one or under none. -/
def childrenFrom (n i : Nat) (p : Option Nat) : List Nat :=
  (List.range' i (n - i)).filter (parent? level · = p)

def children (n : Nat) (p : Option Nat) : List Nat :=
  (List.range n).filter (parent? level · = p)

theorem lt_of_mem_children {level : Nat → Nat} {n i j : Nat} (h : j ∈ children level n (some i)) :
    i < j ∧ j < n := by
  rw [children, List.mem_filter, List.mem_range, decide_eq_true_eq] at h
  exact ⟨parent_lt h.2, h.1⟩

/-- A heading with all that stands under it. -/
def visit (n : Nat) (enter leave : Nat → List α) (i : Nat) : List α :=
  enter i ++ (children level n (some i)).attach.flatMap (fun j => visit n enter leave j.1) ++
    leave i
termination_by n - i
decreasing_by
  have hbounds := lt_of_mem_children j.2
  omega

/-- All headings, depth first. -/
def tour (n : Nat) (enter leave : Nat → List α) : List α :=
  (children level n none).flatMap (visit level n enter leave)

/-- The path to a heading, from the outermost title on. -/
def path (title : Nat → String) (i : Nat) : String :=
  (match _h : parent? level i with
    | some j => path title j
    | none => "") ++ "/" ++ title i
termination_by i
decreasing_by exact parent_lt _h

/-- The headings in order, with the branch of those that are open, innermost first. -/
def walk (enter leave : Nat → List α) (branch : List Nat) : List Nat → List α
  | [] => branch.flatMap leave
  | i :: rest =>
    (branch.takeWhile (level i ≤ level ·)).flatMap leave ++ enter i ++
      walk enter leave (i :: branch.dropWhile (level i ≤ level ·)) rest

variable {level}

theorem visit_eq (n : Nat) (enter leave : Nat → List α) (i : Nat) :
    visit level n enter leave i =
      enter i ++ (children level n (some i)).flatMap (visit level n enter leave) ++ leave i := by
  rw [visit]
  simp

theorem path_eq (title : Nat → String) (i : Nat) :
    path level title i =
      ((parent? level i).map (path level title)).getD "" ++ "/" ++ title i := by
  rw [path]
  split
  · next j h => rw [h]; rfl
  · next h => rw [h]; rfl

/-! ### Branches -/

/-- Headings that are left first cannot be found. -/
theorem find?_dropWhile {l l' : Nat} (hle : l ≤ l') (branch : List Nat) :
    (branch.dropWhile (l' ≤ level ·)).find? (level · < l) = branch.find? (level · < l) := by
  induction branch with
  | nil => rfl
  | cons j rest ih =>
    by_cases hj : l' ≤ level j
    · have hnot : ¬ level j < l := by omega
      rw [List.dropWhile_cons_of_pos (by simpa using hj), ih,
        List.find?_cons_of_neg (by simpa using hnot)]
    · rw [List.dropWhile_cons_of_neg (by simpa using hj)]

theorem find?_eq_head? (l : Nat) (branch : List Nat) :
    branch.find? (level · < l) = (branch.dropWhile (l ≤ level ·)).head? := by
  rw [← find?_dropWhile (Nat.le_refl l)]
  cases hrest : branch.dropWhile (l ≤ level ·) with
  | nil => rfl
  | cons j rest =>
    have hj : ¬ l ≤ level j := by
      have hhead := List.head?_dropWhile_not (l ≤ level ·) branch
      rw [hrest] at hhead
      simpa using hhead
    rw [List.find?_cons_of_pos (by simpa using hj), List.head?_cons]

/-- Each heading stands under the next one of the list, and the last one under none. -/
def Linked (level : Nat → Nat) : List Nat → Prop
  | [] => True
  | j :: rest => parent? level j = rest.head? ∧ Linked level rest

theorem Linked.dropWhile {branch : List Nat} (h : Linked level branch) (p : Nat → Bool) :
    Linked level (branch.dropWhile p) := by
  induction branch with
  | nil => trivial
  | cons j rest ih =>
    by_cases hj : p j = true
    · rw [List.dropWhile_cons_of_pos hj]
      exact ih h.2
    · rw [List.dropWhile_cons_of_neg hj]
      exact h

/-- The titles of a branch are the path to its innermost heading. -/
theorem join_titles {branch : List Nat} (h : Linked level branch) (title : Nat → String) :
    String.join ((branch.reverse.map title).map ("/" ++ ·)) =
      (branch.head?.map (path level title)).getD "" := by
  induction branch with
  | nil => rfl
  | cons j rest ih =>
    rw [List.reverse_cons, List.map_append, List.map_append, String.join_append, ih h.2,
      List.head?_cons, Option.map_some, Option.getD_some, path_eq, h.1, String.append_assoc]
    rfl

/-- The headings above the place `i`, innermost first. -/
structure Branch (level : Nat → Nat) (i : Nat) (branch : List Nat) : Prop where
  falls : (i :: branch).Pairwise (· > ·)
  nearest : ∀ l, nearest level l i = branch.find? (level · < l)
  linked : Linked level branch

theorem branch_nil : Branch level 0 [] :=
  ⟨List.pairwise_singleton _ _, fun _ => rfl, trivial⟩

namespace Branch

variable {i : Nat} {branch : List Nat}

/-- The parent is the innermost heading that is not left. -/
theorem parent_eq (h : Branch level i branch) :
    parent? level i = (branch.dropWhile (level i ≤ level ·)).head? := by
  rw [parent?, h.nearest, find?_eq_head?]

theorem succ (h : Branch level i branch) :
    Branch level (i + 1) (i :: branch.dropWhile (level i ≤ level ·)) := by
  have hrest : (i :: branch.dropWhile (level i ≤ level ·)).Pairwise (· > ·) :=
    h.falls.sublist ((List.dropWhile_sublist _).cons_cons i)
  refine ⟨List.pairwise_cons.mpr ⟨?_, hrest⟩, ?_, h.parent_eq, h.linked.dropWhile _⟩
  · intro j hj
    rcases List.mem_cons.mp hj with rfl | hj
    · exact Nat.lt_succ_self j
    · exact Nat.lt_succ_of_lt ((List.pairwise_cons.mp hrest).1 j hj)
  · intro l
    by_cases hi : level i < l
    · rw [HeadingTree.nearest, if_pos hi, List.find?_cons_of_pos (by simpa using hi)]
    · rw [HeadingTree.nearest, if_neg hi, List.find?_cons_of_neg (by simpa using hi),
        find?_dropWhile (Nat.le_of_not_lt hi), h.nearest]

end Branch

/-! ### The rest of the tour -/

/-- What is left of the tour at the place `i`, inside of a branch. -/
def remaining (level : Nat → Nat) (n : Nat) (enter leave : Nat → List α) (i : Nat) :
    List Nat → List α
  | [] => (childrenFrom level n i none).flatMap (visit level n enter leave)
  | j :: branch =>
    (childrenFrom level n i (some j)).flatMap (visit level n enter leave) ++ leave j ++
      remaining level n enter leave i branch

variable {n i : Nat} {enter leave : Nat → List α} {branch : List Nat}

theorem childrenFrom_of_le (hi : n ≤ i) (p : Option Nat) : childrenFrom level n i p = [] := by
  rw [childrenFrom, Nat.sub_eq_zero_of_le hi]
  rfl

theorem childrenFrom_succ_of_eq {p : Option Nat} (hi : i < n) (hp : parent? level i = p) :
    childrenFrom level n i p = i :: childrenFrom level n (i + 1) p := by
  have hsize : n - i = n - (i + 1) + 1 := by omega
  rw [childrenFrom, hsize, List.range'_succ, List.filter_cons_of_pos (by simpa using hp),
    childrenFrom]

theorem childrenFrom_succ_of_ne {p : Option Nat} (hi : i < n) (hp : parent? level i ≠ p) :
    childrenFrom level n i p = childrenFrom level n (i + 1) p := by
  have hsize : n - i = n - (i + 1) + 1 := by omega
  rw [childrenFrom, hsize, List.range'_succ, List.filter_cons_of_neg (by simpa using hp),
    childrenFrom]

/-- Nothing stands under a heading before it. -/
theorem children_eq_childrenFrom (hi : i < n) :
    children level n (some i) = childrenFrom level n (i + 1) (some i) := by
  have hsplit : List.range n = List.range' 0 (i + 1) ++ List.range' (i + 1) (n - (i + 1)) := by
    have happend := List.range'_append_1 (s := 0) (m := i + 1) (n := n - (i + 1))
    rw [Nat.zero_add] at happend
    rw [happend, List.range_eq_range']
    congr 1
    omega
  have hnone : (List.range' 0 (i + 1)).filter (parent? level · = some i) = [] := by
    rw [List.filter_eq_nil_iff]
    intro j hj hparent
    have hlt := parent_lt (of_decide_eq_true hparent)
    have hbound := (List.mem_range'_1.mp hj).2
    omega
  rw [children, hsplit, List.filter_append, hnone, List.nil_append, childrenFrom]

/-- A heading that is left has nothing under it from then on. -/
theorem childrenFrom_of_left {j : Nat} (hj : j < i) (hlevel : level i ≤ level j) :
    childrenFrom level n i (some j) = [] := by
  rw [childrenFrom, List.filter_eq_nil_iff]
  intro k hk hparent
  obtain ⟨hjk, hlower, hbetween⟩ := nearest_eq_some (of_decide_eq_true hparent)
  have hik := (List.mem_range'_1.mp hk).1
  by_cases heq : k = i
  · subst heq
    omega
  · have hlow := hbetween i hj (by omega)
    omega

theorem remaining_end (branch : List Nat) (hi : n ≤ i) :
    remaining level n enter leave i branch = branch.flatMap leave := by
  induction branch with
  | nil => rw [remaining, childrenFrom_of_le hi]; rfl
  | cons j rest ih =>
    rw [remaining, childrenFrom_of_le hi, ih, List.flatMap_cons]
    rfl

theorem remaining_left {left rest : List Nat} (h : ∀ j ∈ left, j < i ∧ level i ≤ level j) :
    remaining level n enter leave i (left ++ rest) =
      left.flatMap leave ++ remaining level n enter leave i rest := by
  induction left with
  | nil => rfl
  | cons j more ih =>
    obtain ⟨hj, hlevel⟩ := h j List.mem_cons_self
    rw [List.cons_append, remaining, childrenFrom_of_left hj hlevel,
      ih fun k hk => h k (List.mem_cons_of_mem j hk), List.flatMap_cons, List.flatMap_nil,
      List.nil_append, List.append_assoc]

/-- The place `i` stands under none of the branch. -/
theorem remaining_of_other (hi : i < n) (hnone : parent? level i ≠ none)
    (h : ∀ j ∈ branch, parent? level i ≠ some j) :
    remaining level n enter leave i branch = remaining level n enter leave (i + 1) branch := by
  induction branch with
  | nil => rw [remaining, remaining, childrenFrom_succ_of_ne hi hnone]
  | cons j rest ih =>
    rw [remaining, remaining, childrenFrom_succ_of_ne hi (h j List.mem_cons_self),
      ih fun k hk => h k (List.mem_cons_of_mem j hk)]

/-- The place `i` stands under the innermost one of the branch. -/
theorem remaining_of_head (hi : i < n) (hfalls : branch.Pairwise (· > ·))
    (hparent : parent? level i = branch.head?) :
    remaining level n enter leave i branch =
      visit level n enter leave i ++ remaining level n enter leave (i + 1) branch := by
  cases branch with
  | nil =>
    have hnone : parent? level i = none := hparent
    rw [remaining, remaining, childrenFrom_succ_of_eq hi hnone, List.flatMap_cons]
  | cons j rest =>
    rw [List.head?_cons] at hparent
    have hnone : parent? level i ≠ none := by simp [hparent]
    have hother : ∀ k ∈ rest, parent? level i ≠ some k := by
      intro k hk heq
      have hlt := (List.pairwise_cons.mp hfalls).1 k hk
      rw [hparent] at heq
      injection heq with heq
      omega
    rw [remaining, remaining, childrenFrom_succ_of_eq hi hparent, List.flatMap_cons,
      remaining_of_other hi hnone hother]
    simp only [List.append_assoc]

theorem walk_eq_remaining {k : Nat} (hbranch : Branch level i branch) (hn : i + k = n) :
    walk level enter leave branch (List.range' i k) = remaining level n enter leave i branch := by
  induction k generalizing i branch with
  | zero =>
    rw [remaining_end branch (by omega)]
    rfl
  | succ k ih =>
    have hi : i < n := by omega
    have hsplit := List.takeWhile_append_dropWhile (p := fun j => decide (level i ≤ level j))
      (l := branch)
    have hleft : ∀ j ∈ branch.takeWhile (level i ≤ level ·), j < i ∧ level i ≤ level j := by
      intro j hj
      have hmem := (List.takeWhile_sublist _).subset hj
      exact ⟨(List.pairwise_cons.mp hbranch.falls).1 j hmem,
        by simpa using List.all_eq_true.mp List.all_takeWhile j hj⟩
    have hnext := ih hbranch.succ (by omega)
    have hkept : (branch.dropWhile (level i ≤ level ·)).Pairwise (· > ·) :=
      (List.pairwise_cons.mp hbranch.falls).2.sublist (List.dropWhile_sublist _)
    calc walk level enter leave branch (List.range' i (k + 1))
        = (branch.takeWhile (level i ≤ level ·)).flatMap leave ++ enter i ++
            remaining level n enter leave (i + 1)
              (i :: branch.dropWhile (level i ≤ level ·)) := by
          rw [List.range'_succ, walk, hnext]
      _ = (branch.takeWhile (level i ≤ level ·)).flatMap leave ++
            (visit level n enter leave i ++ remaining level n enter leave (i + 1)
              (branch.dropWhile (level i ≤ level ·))) := by
          rw [remaining, ← children_eq_childrenFrom hi, visit_eq]
          simp only [List.append_assoc]
      _ = remaining level n enter leave i (branch.takeWhile (level i ≤ level ·) ++
            branch.dropWhile (level i ≤ level ·)) := by
          rw [remaining_left hleft, remaining_of_head hi hkept hbranch.parent_eq]
      _ = remaining level n enter leave i branch := by rw [hsplit]

/-- To enter the headings in order, and to leave those that are in the way, is the tour. -/
theorem walk_eq_tour (level : Nat → Nat) (n : Nat) (enter leave : Nat → List α) :
    walk level enter leave [] (List.range n) = tour level n enter leave := by
  rw [List.range_eq_range', walk_eq_remaining branch_nil (Nat.zero_add n), remaining, tour,
    childrenFrom, children, List.range_eq_range', Nat.sub_zero]

end LiveDoc.HeadingTree
