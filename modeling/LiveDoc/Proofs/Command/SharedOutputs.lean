import LiveDoc.Proofs.Command.FileChanges

/-!
Outputs in one and the same file. Planning refuses two destinations that lead to one file if the
file is there, and otherwise if they are spelled alike. Two spellings of a file that is not there
yet are taken for two files, and then the later output replaces the earlier one.
-/
namespace LiveDoc.Command

open Outcome Desk

theorem sameSpelling_comm (p q : String) : Path.sameSpelling p q = Path.sameSpelling q p :=
  Bool.beq_comm

/-- Two destinations of a plan at different positions have been compared. -/
theorem Plan.Sound.spelled_apart {d : Desk} {inputs : List Input} {force : Bool} {plan : Plan}
    (h : Plan.Sound d inputs force plan) {i j : Nat} {a b : Input} {p q : String} (hij : i ≠ j)
    (hi : plan[i]? = some (a, .file p)) (hj : plan[j]? = some (b, .file q))
    (hsame : d.SameFile p q) : ¬ d.IsThere p ∧ Path.sameSpelling p q = false := by
  obtain ⟨hi, hgeti⟩ := List.getElem?_eq_some_iff.mp hi
  obtain ⟨hj, hgetj⟩ := List.getElem?_eq_some_iff.mp hj
  rcases Nat.lt_or_gt_of_ne hij with hlt | hgt
  · have hseem := List.pairwise_iff_getElem.mp h.apart i j hi hj hlt
    rw [hgeti, hgetj] at hseem
    exact spelled_apart_of_sameFile hsame (hseem p q rfl rfl)
  · have hseem := List.pairwise_iff_getElem.mp h.apart j i hj hi hgt
    rw [hgeti, hgetj] at hseem
    obtain ⟨hthere, hspelled⟩ := spelled_apart_of_sameFile hsame.symm (hseem q p rfl rfl)
    rcases locate_of_sameFile hsame with ⟨place, -, hq⟩ | ⟨hp, -⟩
    · exact absurd ⟨place, hq⟩ hthere
    · exact ⟨hp, sameSpelling_comm q p ▸ hspelled⟩

/-- Two planned destinations lead to one file only if nothing is there and they are spelled in two
ways, with a detour in one of them or with only one of them from the root. What is written to a
file stays as it is while documents are processed whose destinations lead elsewhere. -/
theorem planned_files_apart {d : Desk} {inputs : List Input} {output : Option String}
    {force : Bool} {plan : Plan}
    (hplan : (Plan.make Desk.system inputs output force d).1 = .ok plan) :
    (∀ (i j : Nat) (a b : Input) (p q : String), i ≠ j → plan[i]? = some (a, .file p) →
      plan[j]? = some (b, .file q) → d.SameFile p q →
        ¬ d.IsThere p ∧ Path.sameSpelling p q = false ∧
          ¬ (Path.IsDirect p ∧ Path.IsDirect q ∧ Path.isAbsolute p = Path.isAbsolute q)) ∧
    ∀ (front later : Plan) (a : Input) (p : String) (place : Place),
      plan = front ++ (a, .file p) :: later → d.LeadsTo p place →
      (∀ b q, (b, .file q) ∈ later → ¬ d.SameFile p q) →
      ∀ rounds mode fileId soFar d', ChangesOnly (Plan.Reaches d plan) d d' →
        (processAll Desk.system rounds mode fileId soFar later d').2.tree.files.lookup place =
          d'.tree.files.lookup place := by
  refine ⟨?_, ?_⟩
  · intro i j a b p q hij hi hj hsame
    obtain ⟨hthere, hspelled⟩ := (Plan.sound_make hplan).1.spelled_apart hij hi hj hsame
    refine ⟨hthere, hspelled, ?_⟩
    rintro ⟨hp, hq, hstart⟩
    obtain ⟨place, hplace, hplace'⟩ := hsame
    have halike := FileTree.components_eq_of_destination hp hq hstart hplace hplace'
    simp [Path.sameSpelling, halike] at hspelled
  · intro front later a p place _ hplace hlater rounds mode fileId soFar d' hd'
    have hdone : ChangesOnly (Plan.Reaches d' later) d'
        (processAll Desk.system rounds mode fileId soFar later d').2 :=
      maintains_processAll rounds mode fileId soFar later (fun _ h => h) d' (.refl _ d')
    refine hdone.files place ?_
    rintro ⟨b, q, hmem, hq⟩
    exact hlater b q hmem ⟨place, hplace, hd'.leadsTo_iff.mp hq⟩

/-! ### A file under two names -/

/-- Two documents that differ in the extension of their names only. -/
def twins : Desk :=
  ⟨⟨[], [(["a.tfd"], "one\n".toUTF8), (["a.txt"], "two\n".toUTF8)]⟩, [], "", "", []⟩

def twinPlan : Plan := [(.file "a.tfd", .file "a.md"), (.file "./a.txt", .file "./a.md")]

theorem make_twins :
    (Plan.make Desk.system [.file "a.tfd", .file "./a.txt"] none false twins).1 = .ok twinPlan := by
  rw [← toOption_eq_some_iff]
  decide +kernel

theorem twins_sameFile : twins.SameFile "a.md" "./a.md" := by
  refine ⟨["a.md"], ?_, ?_⟩
  · rw [LeadsTo, ← toOption_eq_some_iff]
    decide +kernel
  · rw [LeadsTo, ← toOption_eq_some_iff]
    decide +kernel

/-- Both outputs are planned, and the two paths make a difference only by the dot in front. -/
theorem planned_files_apart_of_twins :
    (Plan.make Desk.system [.file "a.tfd", .file "./a.txt"] none false twins).1 = .ok twinPlan ∧
      twins.SameFile "a.md" "./a.md" ∧ ¬ twins.IsThere "a.md" ∧
      Path.sameSpelling "a.md" "./a.md" = false ∧
      ¬ (Path.IsDirect "a.md" ∧ Path.IsDirect "./a.md" ∧
        Path.isAbsolute "a.md" = Path.isAbsolute "./a.md") := by
  obtain ⟨hapart, -⟩ := planned_files_apart make_twins
  exact ⟨make_twins, twins_sameFile,
    hapart 0 1 (.file "a.tfd") (.file "./a.txt") "a.md" "./a.md" (by decide) rfl rfl
      twins_sameFile⟩

/-- Two inputs of one command are written to the same file, and the first output is lost. -/
theorem first_output_lost :
    (Plan.make Desk.system [.file "a.tfd", .file "./a.txt"] none false twins).1 = .ok twinPlan ∧
      twinPlan[0]? = some (.file "a.tfd", .file "a.md") ∧
      twinPlan[1]? = some (.file "./a.txt", .file "./a.md") ∧
      twins.SameFile "a.md" "./a.md" ∧
      (invoke Desk.system 0 ["a.tfd", "./a.txt"] twins).1 = 0 ∧
      (invoke Desk.system 0 ["a.tfd", "./a.txt"] twins).2.tree.files.lookup ["a.md"] =
        some "two\n".toUTF8 := by
  refine ⟨make_twins, rfl, rfl, twins_sameFile, ?_, ?_⟩
  · decide +kernel
  · decide +kernel

end LiveDoc.Command
