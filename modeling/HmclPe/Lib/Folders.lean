import Mathlib.Data.List.DropRight
import Mathlib.Tactic

/-! File systems as partial maps from places to folders and files. A place is the list of the names
on the way to it. -/
namespace HmclPe.Lib.Folders

variable {ν β : Type}

inductive Node (β : Type)
  | folder
  | file (content : β)
deriving DecidableEq

/-- Everything stands in a folder, and under a legal name. -/
structure FileSystem (legal : ν → Prop) (β : Type) where
  entries : List ν → Option (Node β)
  root : entries [] = some .folder
  closed : ∀ place name, entries (place ++ [name]) ≠ none →
    entries place = some .folder ∧ legal name

namespace FileSystem

variable {legal : ν → Prop} (fs : FileSystem legal β)

def isFolder (place : List ν) : Bool :=
  match fs.entries place with
  | some .folder => true
  | _ => false

def isFile (place : List ν) : Bool :=
  match fs.entries place with
  | some (.file _) => true
  | _ => false

variable {fs} {place : List ν}

theorem isFolder_iff : fs.isFolder place = true ↔ fs.entries place = some .folder := by
  rw [isFolder]
  split
  · next folder => exact iff_of_true rfl folder
  · next other => exact iff_of_false (by decide) fun folder => other folder

theorem isFile_iff : fs.isFile place = true ↔ ∃ content, fs.entries place = some (.file content) := by
  rw [FileSystem.isFile]
  split
  · next content file => simp [file]
  · next other =>
    simp only [Bool.false_eq_true,false_iff,not_exists]
    exact other

theorem not_isFile_of_folder (folder : fs.entries place = some .folder) : fs.isFile place = false := by
  rw [isFile,folder]

theorem isFile_of_entries {content : β} (file : fs.entries place = some (.file content)) :
    fs.isFile place = true := by
  rw [isFile,file]

theorem legal_of_entries (there : fs.entries place ≠ none) : ∀ name ∈ place, legal name := by
  induction place using List.reverseRecOn with
  | nil =>
    intro name member
    exact absurd member List.not_mem_nil
  | append_singleton place last ih =>
    obtain ⟨folder,good⟩ := fs.closed place last there
    intro name member
    rcases List.mem_append.mp member with inside | here
    · exact ih (by rw [folder]; exact Option.some_ne_none _) name inside
    · obtain rfl := List.mem_singleton.mp here
      exact good

/-- A place where something can be moved to: free, in a folder, and not inside of what is moved. -/
structure Free (fs : FileSystem legal β) (source target : List ν) : Prop where
  free : fs.entries target = none
  folder : fs.entries target.dropLast = some .folder
  good : ∀ name ∈ target.getLast?, legal name
  outside : ¬source <+: target

theorem Free.ne_nil {source target : List ν} (free : fs.Free source target) :
    target ≠ [] := by
  rintro rfl
  exact absurd (fs.root.symm.trans free.free) (by simp)

variable [DecidableEq ν] (fs)

def writtenEntries (place : List ν) (content : β) (other : List ν) : Option (Node β) :=
  if other = place ∧ fs.isFile place = true then some (.file content) else fs.entries other

theorem writtenEntries_folder (place : List ν) (content : β) {other : List ν}
    (folder : fs.entries other = some .folder) :
    fs.writtenEntries place content other = some .folder := by
  rw [writtenEntries,if_neg]
  · exact folder
  · rintro ⟨rfl,file⟩
    rw [not_isFile_of_folder folder] at file
    cases file

/-- The content of a file is replaced; nothing happens where there is no file. -/
def write (place : List ν) (content : β) : FileSystem legal β where
  entries := fs.writtenEntries place content
  root := fs.writtenEntries_folder place content fs.root
  closed := by
    intro parent name there
    have before : fs.entries (parent ++ [name]) ≠ none := by
      intro absent
      rw [writtenEntries,absent] at there
      by_cases here : parent ++ [name] = place ∧ fs.isFile place = true
      · obtain ⟨rfl,file⟩ := here
        rw [isFile,absent] at file
        cases file
      · exact there (if_neg here)
    obtain ⟨folder,good⟩ := fs.closed parent name before
    exact ⟨fs.writtenEntries_folder place content folder,good⟩

def movedEntries (source target other : List ν) : Option (Node β) :=
  if target <+: other then fs.entries (source ++ other.drop target.length)
  else if source <+: other then none
  else fs.entries other

variable {fs} {source target : List ν}

theorem movedEntries_inside (rest : List ν) :
    fs.movedEntries source target (target ++ rest) = fs.entries (source ++ rest) := by
  rw [movedEntries,if_pos (List.prefix_append target rest),List.drop_left]

theorem movedEntries_gone {other : List ν} (elsewhere : ¬target <+: other) (moved : source <+: other) :
    fs.movedEntries source target other = none := by
  rw [movedEntries,if_neg elsewhere,if_pos moved]

theorem movedEntries_other {other : List ν} (elsewhere : ¬target <+: other)
    (outside : ¬source <+: other) : fs.movedEntries source target other = fs.entries other := by
  rw [movedEntries,if_neg elsewhere,if_neg outside]

theorem Free.closed (free : fs.Free source target) (place : List ν) (name : ν)
    (there : fs.movedEntries source target (place ++ [name]) ≠ none) :
    fs.movedEntries source target place = some .folder ∧ legal name := by
  by_cases inside : target <+: place ++ [name]
  · rcases List.prefix_concat_iff.mp inside with same | deeper
    · have above : ¬target <+: place := by
        intro before
        have shorter := before.length_le
        rw [same,List.length_append,List.length_singleton] at shorter
        omega
      have outside : ¬source <+: place := by
        intro before
        exact free.outside (same ▸ before.trans (List.prefix_append place [name]))
      rw [movedEntries_other above outside]
      obtain ⟨-,folder,good,-⟩ := free
      rw [same,List.dropLast_concat] at folder
      rw [same,List.getLast?_concat] at good
      exact ⟨folder,good name rfl⟩
    · obtain ⟨rest,rfl⟩ := deeper
      rw [List.append_assoc,movedEntries_inside,← List.append_assoc] at there
      rw [movedEntries_inside]
      exact fs.closed (source ++ rest) name there
  · have above : ¬target <+: place := fun before => inside (before.trans (List.prefix_append place _))
    by_cases moved : source <+: place ++ [name]
    · exact absurd (movedEntries_gone inside moved) there
    · have outside : ¬source <+: place :=
        fun before => moved (before.trans (List.prefix_append place _))
      rw [movedEntries_other inside moved] at there
      rw [movedEntries_other above outside]
      exact fs.closed place name there

theorem Free.root (free : fs.Free source target) :
    fs.movedEntries source target [] = some .folder := by
  have notTarget : ¬target <+: [] := fun before => free.ne_nil (List.prefix_nil.mp before)
  have notSource : ¬source <+: [] := by
    intro before
    obtain rfl := List.prefix_nil.mp before
    exact free.outside List.nil_prefix
  rw [movedEntries_other notTarget notSource]
  exact fs.root

variable (fs) (source target)

instance [DecidablePred legal] : Decidable (fs.Free source target) :=
  decidable_of_iff ((fs.entries target).isNone = true ∧ fs.isFolder target.dropLast = true ∧
    (∀ name ∈ target.getLast?, legal name) ∧ ¬source <+: target) (by
      rw [Option.isNone_iff_eq_none,isFolder_iff]
      constructor
      · rintro ⟨free,folder,good,outside⟩
        exact ⟨free,folder,good,outside⟩
      · rintro ⟨free,folder,good,outside⟩
        exact ⟨free,folder,good,outside⟩)

/-- Nothing is replaced; a move to the same place changes nothing. -/
def move [DecidablePred legal] : Option (FileSystem legal β) :=
  if fs.entries source = none then none
  else if target = source then some fs
  else if free : fs.Free source target then
    some ⟨fs.movedEntries source target,free.root,free.closed⟩
  else none

variable {fs} {source target} {place : List ν} {content : β}

theorem entries_write_self (file : fs.isFile place = true) :
    (fs.write place content).entries place = some (.file content) := if_pos ⟨rfl,file⟩

theorem entries_write_other {other : List ν} (different : other ≠ place) :
    (fs.write place content).entries other = fs.entries other :=
  if_neg fun both => different both.1

theorem entries_write_none {other : List ν} :
    (fs.write place content).entries other = none ↔ fs.entries other = none := by
  by_cases here : other = place ∧ fs.isFile place = true
  · obtain ⟨rfl,file⟩ := here
    rw [entries_write_self file]
    refine iff_of_false (by simp) ?_
    intro absent
    rw [isFile,absent] at file
    cases file
  · have same : (fs.write place content).entries other = fs.entries other := if_neg here
    rw [same]

theorem entries_write_folder {other : List ν} :
    (fs.write place content).entries other = some .folder ↔ fs.entries other = some .folder := by
  constructor
  · intro folder
    by_cases here : other = place ∧ fs.isFile place = true
    · have written : (fs.write place content).entries other = some (.file content) := if_pos here
      exact absurd (folder.symm.trans written) (by simp)
    · have same : (fs.write place content).entries other = fs.entries other := if_neg here
      exact same.symm.trans folder
  · exact fs.writtenEntries_folder place content

/-- Writing a file does not change where something can be moved to. -/
theorem free_write_iff : (fs.write place content).Free source target ↔ fs.Free source target := by
  constructor
  · rintro ⟨free,folder,good,outside⟩
    exact ⟨entries_write_none.mp free,entries_write_folder.mp folder,good,outside⟩
  · rintro ⟨free,folder,good,outside⟩
    exact ⟨entries_write_none.mpr free,entries_write_folder.mpr folder,good,outside⟩

variable [DecidablePred legal]

theorem move_same (there : fs.entries source ≠ none) : fs.move source source = some fs := by
  rw [move,if_neg there,if_pos rfl]

theorem move_free (there : fs.entries source ≠ none) (free : fs.Free source target) :
    ∃ fs', fs.move source target = some fs' ∧ fs'.entries = fs.movedEntries source target := by
  have different : target ≠ source := by
    rintro rfl
    exact there free.free
  refine ⟨⟨fs.movedEntries source target,free.root,free.closed⟩,?_,rfl⟩
  rw [move,if_neg there,if_neg different,dif_pos free]

theorem move_none (different : target ≠ source) (taken : ¬fs.Free source target) :
    fs.move source target = none := by
  rw [move,if_neg different,dif_neg taken,ite_self]

end FileSystem

end HmclPe.Lib.Folders
