import LiveDoc.Files.FileTree
import LiveDoc.Proofs.Outcome

/-!
Places that paths lead to. What a path leads to depends on the folders of a tree only, so it stays
the same while files are written. A path without detours leads down by its names, and so two such
paths that start alike lead to the same place only if they are spelled alike.
-/
namespace LiveDoc

open Outcome

namespace Path

/-- A path that begins with no dot and never leads up. -/
def IsDirect (path : String) : Prop :=
  .here ∉ components path ∧ .up ∉ components path

def names (path : String) : List (List Char) := (parts path).filter (! isIdle ·)

theorem componentOf_up : componentOf ['.', '.'] = .up := by decide

theorem isIdle_up : isIdle ['.', '.'] = false := by decide

theorem componentOf_of_ne {part : List Char} (h : part ≠ ['.', '.']) :
    componentOf part = .name part := by
  simp [componentOf, h]

/-- Two dots count as a component wherever they stand. -/
theorem IsDirect.ne_up {path : String} (h : IsDirect path) {part : List Char}
    (hpart : part ∈ parts path) : part ≠ ['.', '.'] := by
  rintro rfl
  apply h.2
  have hname : ['.', '.'] ∈ (parts path).filter (! isIdle ·) :=
    List.mem_filter.mpr ⟨hpart, by simp [isIdle_up]⟩
  rw [components, ← componentOf_up]
  exact List.mem_append_right _ (List.mem_map_of_mem hname)

theorem IsDirect.components_eq {path : String} (h : IsDirect path) :
    components path =
      (if isAbsolute path then [.root] else []) ++ (names path).map Component.name := by
  have hnames : (names path).map componentOf = (names path).map Component.name := by
    refine List.map_congr_left fun part hpart => ?_
    exact componentOf_of_ne (h.ne_up (List.mem_filter.mp hpart).1)
  have hhere := h.1
  rw [names] at hnames ⊢
  simp only [components] at hhere ⊢
  rw [hnames]
  by_cases habsolute : isAbsolute path = true
  · simp [habsolute]
  · by_cases hdot : ((parts path).head? == some ['.']) = true
    · simp [habsolute, hdot] at hhere
    · simp [habsolute, hdot]

end Path

namespace FileTree

variable {t t' : FileTree} {working place place' : Place} {path : String}

def isThereAt (t : FileTree) (place : Place) : Bool := t.isFolderAt place || t.isFileAt place

theorem locate_eq_ok_iff :
    t.locate working path = .ok place ↔
      t.destination working path = .ok place ∧ t.isThereAt place = true := by
  rw [locate, bind_eq_ok_iff]
  constructor
  · rintro ⟨place', hplace, hthere⟩
    change (if t.isThereAt place' then _ else _) = _ at hthere
    by_cases h : t.isThereAt place' = true
    · simp only [h, if_true, Except.ok.injEq] at hthere
      subst hthere
      exact ⟨hplace, h⟩
    · simp [h] at hthere
  · rintro ⟨hplace, hthere⟩
    refine ⟨place, hplace, ?_⟩
    change (if t.isThereAt place then _ else _) = _
    rw [if_pos hthere]

theorem walk_of_folder {part : List Char} {rest : List (List Char)}
    (h : t.isFolderAt place = true) :
    t.walk place (part :: rest) =
      if Path.isIdle part then t.walk place rest
      else if part = ['.', '.'] then t.walk place.dropLast rest
      else if maxNameSize < (String.ofList part).utf8ByteSize then .error .nameTooLong
      else t.walk (place ++ [String.ofList part]) rest := by
  rw [walk, h]
  simp

/-- Behind a file, or behind nothing, a path leads nowhere. -/
theorem toOption_walk_of_no_folder {part : List Char} {rest : List (List Char)}
    (h : t.isFolderAt place = false) : (t.walk place (part :: rest)).toOption = none := by
  rw [walk, h]
  cases t.isFileAt place <;> rfl

/-- A path that never leads up leads down by its names. -/
theorem walk_of_direct {parts : List (List Char)} (hdirect : ∀ part ∈ parts, part ≠ ['.', '.'])
    (h : t.walk place parts = .ok place') :
    place' = place ++ (parts.filter (! Path.isIdle ·)).map String.ofList := by
  induction parts generalizing place with
  | nil =>
    rw [walk, Except.ok.injEq] at h
    simp [h]
  | cons part rest ih =>
    obtain ⟨hpart, hrest⟩ := List.forall_mem_cons.mp hdirect
    cases hfolder : t.isFolderAt place with
    | false =>
      have hnone : (t.walk place (part :: rest)).toOption = none :=
        toOption_walk_of_no_folder hfolder
      rw [h] at hnone
      simp [Except.toOption] at hnone
    | true =>
      rw [walk_of_folder hfolder, if_neg hpart] at h
      by_cases hidle : Path.isIdle part = true
      · rw [if_pos hidle] at h
        rw [ih hrest h, List.filter_cons_of_neg (by simp [hidle])]
      · rw [if_neg hidle] at h
        by_cases hsize : maxNameSize < (String.ofList part).utf8ByteSize
        · simp [hsize] at h
        · rw [if_neg hsize] at h
          rw [ih hrest h, List.filter_cons_of_pos (by simpa using hidle), List.map_cons,
            List.append_assoc]
          rfl

/-- Files do not change where a path leads. -/
theorem toOption_walk_of_folders (hfolders : t'.folders = t.folders) (place : Place)
    (parts : List (List Char)) :
    (t'.walk place parts).toOption = (t.walk place parts).toOption := by
  have hsame (place : Place) : t'.isFolderAt place = t.isFolderAt place := by
    rw [isFolderAt, isFolderAt, hfolders]
  induction parts generalizing place with
  | nil => rfl
  | cons part rest ih =>
    cases hfolder : t.isFolderAt place with
    | false =>
      rw [toOption_walk_of_no_folder hfolder, toOption_walk_of_no_folder (hsame place ▸ hfolder)]
    | true =>
      rw [walk_of_folder hfolder, walk_of_folder (hsame place ▸ hfolder)]
      split
      · exact ih place
      · split
        · exact ih _
        · split
          · rfl
          · exact ih _

theorem destination_of_folders (hfolders : t'.folders = t.folders) :
    t'.destination working path = .ok place ↔ t.destination working path = .ok place := by
  rw [destination, destination]
  split
  · simp
  · split
    · simp
    · rw [← toOption_eq_some_iff, ← toOption_eq_some_iff, toOption_walk_of_folders hfolders]

/-- Two direct paths that start alike lead to one place only if they are spelled alike. -/
theorem components_eq_of_destination {p q : String} (hp : Path.IsDirect p) (hq : Path.IsDirect q)
    (hstart : Path.isAbsolute p = Path.isAbsolute q)
    (hplace : t.destination working p = .ok place) (hplace' : t.destination working q = .ok place) :
    Path.components p = Path.components q := by
  have hdown {path : String} (hpath : Path.IsDirect path)
      (h : t.destination working path = .ok place) :
      place = (if Path.isAbsolute path then [] else working) ++
        (Path.names path).map String.ofList := by
    rw [destination] at h
    split at h
    · simp at h
    · split at h
      · simp at h
      · exact walk_of_direct (fun part hpart => hpath.ne_up hpart) h
  have hnames : (Path.names p).map String.ofList = (Path.names q).map String.ofList := by
    have heq := (hdown hp hplace).symm.trans (hdown hq hplace')
    rw [hstart] at heq
    exact List.append_cancel_left heq
  have hchars := congrArg (List.map String.toList) hnames
  simp only [List.map_map, Function.comp_def, String.toList_ofList, List.map_id_fun', id] at hchars
  rw [hp.components_eq, hq.components_eq, hstart, hchars]

/-! ### Files that are written -/

theorem lookup_setFile (place other : Place) (bytes : ByteArray)
    (files : List (Place × ByteArray)) :
    (setFile place bytes files).lookup other =
      if other = place then some bytes else files.lookup other := by
  induction files with
  | nil =>
    by_cases hother : other = place
    · simp [setFile, hother]
    · have hne : (other == place) = false := by simpa using hother
      simp [setFile, List.lookup_cons, hne, hother]
  | cons file rest ih =>
    obtain ⟨first, old⟩ := file
    by_cases hfirst : first = place
    · subst hfirst
      by_cases hother : other = first
      · simp [setFile, hother]
      · have hne : (other == first) = false := by simpa using hother
        simp [setFile, List.lookup_cons, hne, hother]
    · rw [setFile, if_neg hfirst, List.lookup_cons, List.lookup_cons, ih]
      by_cases hother : other = first
      · simp [hother, hfirst]
      · have hne : (other == first) = false := by simpa using hother
        simp [hne]

/-- A file is written where its path leads; a path with a slash at its end is not written. -/
theorem destination_of_writable (h : t.writable working path = .ok place) :
    t.destination working path = .ok place := by
  let bare := String.ofList (path.toList.reverse.dropWhile (· = '/')).reverse
  have hlast {q : String} (hq : (t.destination working q >>= fun place' =>
      if t.isFolderAt place' || bare != path then .error .isFolder else .ok place') = .ok place) :
      t.destination working q = .ok place ∧ bare = path := by
    obtain ⟨place', hplace, hlast⟩ := bind_eq_ok_iff.mp hq
    split at hlast
    · simp at hlast
    · rename_i hwritten
      injection hlast with hlast
      subst hlast
      simp only [Bool.or_eq_true, bne_iff_ne, ne_eq, not_or] at hwritten
      exact ⟨hplace, Decidable.not_not.mp hwritten.2⟩
  rw [writable] at h
  split at h
  · exact (hlast h).1
  · obtain ⟨hplace, hbare⟩ := hlast h
    rwa [← hbare]

end FileTree

end LiveDoc
