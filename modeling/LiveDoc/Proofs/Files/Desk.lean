import LiveDoc.Proofs.Files.Places
import LiveDoc.Proofs.Invariance

/-!
What paths stand for on a desk. Two paths lead to the same file if they lead to one place, whether
something is there or not.
-/
namespace LiveDoc.Desk

open Outcome

def LeadsTo (d : Desk) (path : String) (place : Place) : Prop :=
  d.tree.destination d.working path = .ok place

/-- The path is that of a file or of a folder. -/
def IsThere (d : Desk) (path : String) : Prop :=
  ∃ place, d.tree.locate d.working path = .ok place

def SameFile (d : Desk) (p q : String) : Prop := ∃ place, d.LeadsTo p place ∧ d.LeadsTo q place

variable {d : Desk} {p q path : String} {place : Place}

theorem SameFile.symm (h : d.SameFile p q) : d.SameFile q p := by
  obtain ⟨place, hp, hq⟩ := h
  exact ⟨place, hq, hp⟩

theorem isThere_iff :
    d.IsThere path ↔ ∃ place, d.LeadsTo path place ∧ d.tree.isThereAt place = true :=
  exists_congr fun _ => FileTree.locate_eq_ok_iff

/-- Of two paths to one place, both or none stands for something that is there. -/
theorem locate_of_sameFile (h : d.SameFile p q) :
    (∃ place, d.tree.locate d.working p = .ok place ∧ d.tree.locate d.working q = .ok place) ∨
      ¬ d.IsThere p ∧ ¬ d.IsThere q := by
  obtain ⟨place, hp, hq⟩ := h
  by_cases hthere : d.tree.isThereAt place = true
  · exact .inl ⟨place, FileTree.locate_eq_ok_iff.mpr ⟨hp, hthere⟩,
      FileTree.locate_eq_ok_iff.mpr ⟨hq, hthere⟩⟩
  · have hnot {path : String} (hpath : d.LeadsTo path place) : ¬ d.IsThere path := by
      rw [isThere_iff]
      rintro ⟨place', hplace', hthere'⟩
      have hsame := hpath.symm.trans hplace'
      injection hsame with hsame
      subst hsame
      exact hthere hthere'
    exact .inr ⟨hnot hp, hnot hq⟩

theorem canonical?_eq (path : String) (d : Desk) : canonical? path d =
    (d.tree.locate d.working path).toOption.map fun place => "/" ++ "/".intercalate place := rfl

theorem canonical?_eq_none (h : ¬ d.IsThere path) : d.canonical? path = none := by
  rw [canonical?_eq]
  cases hlocate : d.tree.locate d.working path with
  | error e => rfl
  | ok place => exact absurd ⟨place, hlocate⟩ h

/-! ### Questions that a system answers -/

theorem system_isThere (path : String) (d : Desk) :
    system.isThere path d = ((d.tree.locate d.working path).isOk, d) := rfl

theorem system_canonical? (path : String) (d : Desk) :
    system.canonical? path d = (d.canonical? path, d) := rfl

theorem system_readFile (path : String) (d : Desk) :
    system.readFile path d = (d.tree.read d.working path, d) := rfl

theorem system_createFile (path : String) (d : Desk) :
    system.createFile path d = createFile path d :=
  run_state_modifyGet (createFile path) d

theorem system_appendFile (path text : String) (d : Desk) :
    system.appendFile path text d = appendFile path text d :=
  run_state_modifyGet (appendFile path text) d

/-! ### Files that are written -/

/-- Of the files only those at the given places may have changed, and no folder has. -/
structure ChangesOnly (places : Place → Prop) (d d' : Desk) : Prop where
  working : d'.working = d.working
  folders : d'.tree.folders = d.tree.folders
  files : ∀ place, ¬ places place → d'.tree.files.lookup place = d.tree.files.lookup place

variable {places : Place → Prop} {d' : Desk}

theorem ChangesOnly.refl (places : Place → Prop) (d : Desk) : ChangesOnly places d d :=
  ⟨rfl, rfl, fun _ _ => rfl⟩

/-- Paths lead to the same places as before. -/
theorem ChangesOnly.leadsTo_iff (h : ChangesOnly places d d') :
    d'.LeadsTo path place ↔ d.LeadsTo path place := by
  rw [LeadsTo, LeadsTo, h.working]
  exact FileTree.destination_of_folders h.folders

theorem ChangesOnly.write (h : ChangesOnly places d d') (hplace : places place)
    (bytes : ByteArray) :
    ChangesOnly places d { d' with tree := d'.tree.write place bytes } where
  working := h.working
  folders := h.folders
  files other hother := by
    have hne : other ≠ place := by
      rintro rfl
      exact hother hplace
    change (FileTree.setFile place bytes d'.tree.files).lookup other = _
    rw [FileTree.lookup_setFile, if_neg hne]
    exact h.files other hother

/-- A file is made and written where its path leads, from the beginning of all changes on. -/
theorem maintains_createFile (h : ∀ place, d.LeadsTo path place → places place) :
    Maintains (ChangesOnly places d) (system.createFile path) := by
  intro d' hd'
  rw [system_createFile, createFile]
  cases hplace : d'.tree.writable d'.working path with
  | error e => exact hd'
  | ok place =>
    have hleads := hd'.leadsTo_iff.mp (FileTree.destination_of_writable hplace)
    exact hd'.write (h place hleads) _

theorem maintains_appendFile (text : String) (h : ∀ place, d.LeadsTo path place → places place) :
    Maintains (ChangesOnly places d) (system.appendFile path text) := by
  intro d' hd'
  rw [system_appendFile, appendFile]
  cases hplace : d'.tree.writable d'.working path with
  | error e => exact hd'
  | ok place =>
    have hleads := hd'.leadsTo_iff.mp (FileTree.destination_of_writable hplace)
    exact hd'.write (h place hleads) _

variable (places d)

theorem maintains_print (text : String) :
    Maintains (ChangesOnly places d) (system.print text) :=
  fun _ h => ⟨h.working, h.folders, h.files⟩

theorem maintains_complain (text : String) :
    Maintains (ChangesOnly places d) (system.complain text) :=
  fun _ h => ⟨h.working, h.folders, h.files⟩

theorem maintains_readInput : Maintains (ChangesOnly places d) system.readInput :=
  fun _ h => ⟨h.working, h.folders, h.files⟩

theorem maintains_readFile (path : String) :
    Maintains (ChangesOnly places d) (system.readFile path) :=
  fun _ h => h

end LiveDoc.Desk
