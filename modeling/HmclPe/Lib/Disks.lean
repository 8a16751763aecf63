import HmclPe.Lib.Folders

/-! Finite file systems, whose folders can be listed, and what making, writing and removing an
entry does to every other one. -/
namespace HmclPe.Lib.Disks
open HmclPe.Lib.Folders

variable {ν β : Type}

/-- A file system with the places of its entries, in the order its folders are listed in. -/
structure Disk (legal : ν → Prop) (β : Type) extends FileSystem legal β where
  places : List (List ν)
  nodup : places.Nodup
  listed : ∀ place, place ∈ places ↔ entries place ≠ none

namespace Disk

variable {legal : ν → Prop} (d : Disk legal β)

/-- Nothing but the root. -/
def blank [DecidableEq ν] (legal : ν → Prop) (β : Type) : Disk legal β where
  entries place := if place = [] then some .folder else none
  root := if_pos rfl
  closed := by
    intro place name there
    exact absurd (if_neg (by simp)) there
  places := [[]]
  nodup := List.nodup_singleton _
  listed := by
    intro place
    simp

section Structure

variable {d} {place : List ν}

/-- Whatever something stands below is a folder. -/
theorem folder_above {below : List ν} (some_ : below ≠ [])
    (there : d.entries (place ++ below) ≠ none) : d.entries place = some .folder := by
  induction below using List.reverseRecOn with
  | nil => exact absurd rfl some_
  | append_singleton below name ih =>
    rw [← List.append_assoc] at there
    have parent := (d.closed _ _ there).1
    by_cases last : below = []
    · rw [last,List.append_nil] at parent
      exact parent
    · exact ih last (by rw [parent]; exact Option.some_ne_none _)

theorem folder_of_above {other : List ν} (above : place <+: other) (different : place ≠ other)
    (there : d.entries other ≠ none) : d.entries place = some .folder := by
  obtain ⟨below,rfl⟩ := above
  apply folder_above _ there
  rintro rfl
  exact different (List.append_nil place).symm

/-- Nothing stands below a file or below nothing. -/
theorem none_below {below : List ν} (some_ : below ≠ []) (other : d.entries place ≠ some .folder) :
    d.entries (place ++ below) = none := by
  by_contra there
  exact other (folder_above some_ there)

end Structure

/-- A place has fewer names than the disk has entries: all that is above it is there as well. -/
theorem length_lt_places {place : List ν} (there : d.entries place ≠ none) :
    place.length < d.places.length := by
  have parts : (List.range (place.length + 1)).map place.take ⊆ d.places := by
    intro part member
    obtain ⟨i,-,rfl⟩ := List.mem_map.mp member
    rw [d.listed]
    by_cases whole : place.take i = place
    · rw [whole]
      exact there
    · rw [folder_of_above (List.take_prefix i place) whole there]
      exact Option.some_ne_none _
  have distinct : ((List.range (place.length + 1)).map place.take).Nodup := by
    apply List.Nodup.map_on _ List.nodup_range
    intro i bound j bound' same
    rw [List.mem_range] at bound bound'
    have lengths := congrArg List.length same
    rw [List.length_take,List.length_take] at lengths
    omega
  have shorter := (List.subperm_of_subset distinct parts).length_le
  rw [List.length_map,List.length_range] at shorter
  exact shorter

/-- Of infinitely many places some is free. -/
theorem exists_free {f : Nat → List ν} (injective : Function.Injective f) :
    ∃ n, d.entries (f n) = none := by
  by_contra taken
  push Not at taken
  have inside : (List.range (d.places.length + 1)).map f ⊆ d.places := by
    intro place member
    obtain ⟨n,-,rfl⟩ := List.mem_map.mp member
    exact (d.listed _).mpr (taken n)
  have distinct : ((List.range (d.places.length + 1)).map f).Nodup :=
    List.Nodup.map injective List.nodup_range
  have shorter := (List.subperm_of_subset distinct inside).length_le
  rw [List.length_map,List.length_range] at shorter
  omega

variable [DecidableEq ν]

/-- The names in a folder. -/
def children (place : List ν) : List ν :=
  d.places.filterMap fun other =>
    if other ≠ [] ∧ other.dropLast = place then other.getLast? else none

theorem child_iff {place other : List ν} {name : ν} :
    (if other ≠ [] ∧ other.dropLast = place then other.getLast? else none) = some name ↔
      other = place ++ [name] := by
  constructor
  · intro found
    split at found
    · next shape =>
      obtain ⟨some_,parent⟩ := shape
      have whole := List.dropLast_append_getLast some_
      rw [parent] at whole
      rw [List.getLast?_eq_getLast_of_ne_nil some_] at found
      rw [← Option.some.inj found,whole]
    · cases found
  · rintro rfl
    simp

theorem mem_children {place : List ν} {name : ν} :
    name ∈ d.children place ↔ d.entries (place ++ [name]) ≠ none := by
  rw [children,List.mem_filterMap,← d.listed]
  constructor
  · rintro ⟨other,member,found⟩
    rw [child_iff] at found
    rw [← found]
    exact member
  · intro member
    exact ⟨place ++ [name],member,child_iff.mpr rfl⟩

theorem nodup_children (place : List ν) : (d.children place).Nodup := by
  apply List.Nodup.filterMap _ d.nodup
  intro other other' name found found'
  rw [Option.mem_def,child_iff] at found found'
  rw [found,found']

theorem children_nil {place : List ν} (other : d.entries place ≠ some .folder) :
    d.children place = [] := by
  rw [List.eq_nil_iff_forall_not_mem]
  intro name member
  rw [mem_children] at member
  exact member (none_below (by simp) other)

theorem none_of_children {place below : List ν} (empty : d.children place = []) (some_ : below ≠ []) :
    d.entries (place ++ below) = none := by
  cases below with
  | nil => exact absurd rfl some_
  | cons name below =>
    have absent : d.entries (place ++ [name]) = none := by
      by_contra there
      have member := d.mem_children.mpr there
      rw [empty] at member
      cases member
    by_cases last : below = []
    · rw [last,absent]
    · have further := @none_below ν β legal d (place ++ [name]) below last (by rw [absent]; simp)
      rw [List.append_assoc] at further
      exact further

/-! ## Making and writing -/

section Put

/-- A new entry in a folder, or a new content of a file. -/
structure CanPut (place : List ν) (node : Node β) : Prop where
  some_ : place ≠ []
  folder : d.entries place.dropLast = some .folder
  good : ∀ name ∈ place.getLast?, legal name
  room : d.entries place = none ∨ d.isFile place = true ∧ node ≠ .folder

def putEntries (place : List ν) (node : Node β) (other : List ν) : Option (Node β) :=
  if other = place then some node else d.entries other

variable {d} in
theorem CanPut.closed {place : List ν} {node : Node β} (can : d.CanPut place node) (other : List ν)
    (name : ν) (there : d.putEntries place node (other ++ [name]) ≠ none) :
    d.putEntries place node other = some .folder ∧ legal name := by
  rw [putEntries] at there
  have parent : d.entries other = some .folder ∧ legal name := by
    split at there
    · next here =>
      have folder := can.folder
      have good := can.good
      rw [← here] at folder good
      rw [List.dropLast_concat] at folder
      exact ⟨folder,good name (by simp)⟩
    · exact d.closed other name there
  refine ⟨?_,parent.2⟩
  rw [putEntries,if_neg]
  · exact parent.1
  · rintro rfl
    rcases can.room with free | ⟨file,-⟩
    · rw [parent.1] at free
      cases free
    · rw [FileSystem.not_isFile_of_folder parent.1] at file
      cases file

variable [DecidablePred legal]

instance (place : List ν) (node : Node β) : Decidable (d.CanPut place node) :=
  decidable_of_iff (place ≠ [] ∧ d.isFolder place.dropLast = true ∧
      (∀ name ∈ place.getLast?, legal name) ∧ ((d.entries place).isNone = true ∨
        d.isFile place = true ∧ (match node with | .folder => false | .file _ => true) = true)) (by
    have shape : (match node with | .folder => false | .file _ => true) = true ↔
        node ≠ .folder := by
      cases node <;> simp
    rw [FileSystem.isFolder_iff,Option.isNone_iff_eq_none,shape]
    exact ⟨fun ⟨some_,folder,good,room⟩ => ⟨some_,folder,good,room⟩,
      fun can => ⟨can.some_,can.folder,can.good,can.room⟩⟩)

/-- Nothing happens where the entry can not be put. -/
def put (place : List ν) (node : Node β) : Disk legal β :=
  if can : d.CanPut place node then {
    entries := d.putEntries place node
    root := by
      rw [putEntries,if_neg can.some_.symm]
      exact d.root
    closed := can.closed
    places := d.places.insert place
    nodup := d.nodup.insert
    listed := by
      intro other
      rw [putEntries]
      by_cases here : other = place
      · rw [if_pos here,here]
        simp
      · rw [if_neg here,← d.listed]
        simp [here] }
  else d

variable {d} {place other : List ν} {node : Node β}

theorem put_refused (refused : ¬ d.CanPut place node) : d.put place node = d := dif_neg refused

theorem entries_put (can : d.CanPut place node) (other : List ν) :
    (d.put place node).entries other = if other = place then some node else d.entries other := by
  rw [put,dif_pos can]
  rfl

theorem entries_put_self (can : d.CanPut place node) :
    (d.put place node).entries place = some node := by
  rw [entries_put can,if_pos rfl]

theorem entries_put_other (different : other ≠ place) :
    (d.put place node).entries other = d.entries other := by
  by_cases can : d.CanPut place node
  · rw [entries_put can,if_neg different]
  · rw [put_refused can]

/-- Putting does not take anything away, and leaves folders folders. -/
theorem entries_put_folder (folder : d.entries other = some .folder) :
    (d.put place node).entries other = some .folder := by
  by_cases here : other = place
  · subst here
    by_cases can : d.CanPut other node
    · rcases can.room with free | ⟨file,-⟩
      · rw [folder] at free
        cases free
      · rw [FileSystem.not_isFile_of_folder folder] at file
        cases file
    · rw [put_refused can]
      exact folder
  · rw [entries_put_other here]
    exact folder

end Put

/-! ## Folders with all that is above them -/

section Mkdirs

variable [DecidablePred legal] (fits : List ν → Bool)

/-- The system may refuse places, as too long ones. -/
def mkdir (place : List ν) : Disk legal β :=
  if d.entries place = none ∧ fits place = true then d.put place .folder else d

def mkdirs (place : List ν) : Disk legal β := place.inits.foldl (fun d part => d.mkdir fits part) d

variable {d fits} {place other : List ν}

theorem mkdir_there (there : d.entries place ≠ none) : d.mkdir fits place = d :=
  if_neg fun both => there both.1

theorem mkdirs_nil : d.mkdirs fits [] = d := by
  apply mkdir_there
  rw [d.root]
  exact Option.some_ne_none _

theorem mkdirs_concat (name : ν) :
    d.mkdirs fits (place ++ [name]) = (d.mkdirs fits place).mkdir fits (place ++ [name]) := by
  rw [mkdirs,List.inits_append]
  simp [mkdirs]

/-- Making a folder takes nothing away, and makes nothing but this folder. -/
theorem entries_mkdir (other : List ν) :
    (d.mkdir fits place).entries other = d.entries other ∨
      other = place ∧ d.entries other = none ∧
        (d.mkdir fits place).entries other = some .folder := by
  rw [mkdir]
  split
  · next made =>
    by_cases can : d.CanPut place .folder
    · by_cases here : other = place
      · right
        rw [entries_put can,if_pos here]
        exact ⟨here,by rw [here]; exact made.1,rfl⟩
      · exact .inl (entries_put_other here)
    · rw [put_refused can]
      exact .inl rfl
  · exact .inl rfl

theorem entries_mkdirs (other : List ν) :
    (d.mkdirs fits place).entries other = d.entries other ∨
      other <+: place ∧ d.entries other = none ∧
        (d.mkdirs fits place).entries other = some .folder := by
  induction place using List.reverseRecOn with
  | nil =>
    rw [mkdirs_nil]
    exact .inl rfl
  | append_singleton place name ih =>
    rw [mkdirs_concat]
    rcases @entries_mkdir ν β legal (d.mkdirs fits place) _ _ fits (place ++ [name]) other with
      same | ⟨here,free,made⟩
    · rw [same]
      rcases ih with same' | ⟨above,free,made⟩
      · exact .inl same'
      · exact .inr ⟨above.trans (List.prefix_append place [name]),free,made⟩
    · rcases ih with same' | ⟨above,free',made'⟩
      · rw [same'] at free
        exact .inr ⟨by rw [here],free,made⟩
      · rw [made'] at free
        cases free

theorem entries_mkdirs_some {node : Node β} (there : d.entries other = some node) :
    (d.mkdirs fits place).entries other = some node := by
  rcases @entries_mkdirs ν β legal d _ _ fits place other with same | ⟨-,free,-⟩
  · rw [same,there]
  · rw [free] at there
    cases there

theorem entries_mkdirs_apart (apart : ¬ other <+: place) :
    (d.mkdirs fits place).entries other = d.entries other := by
  rcases @entries_mkdirs ν β legal d _ _ fits place other with same | ⟨above,-⟩
  · exact same
  · exact absurd above apart

theorem fits_of_mkdirs (free : d.entries other = none)
    (made : (d.mkdirs fits place).entries other ≠ none) : fits other = true := by
  induction place using List.reverseRecOn with
  | nil =>
    rw [mkdirs_nil] at made
    exact absurd free made
  | append_singleton place name ih =>
    rw [mkdirs_concat] at made
    by_cases before : (d.mkdirs fits place).entries other = none
    · rcases @entries_mkdir ν β legal (d.mkdirs fits place) _ _ fits (place ++ [name]) other with
        same | ⟨here,-,-⟩
      · rw [same] at made
        exact absurd before made
      · rw [mkdir] at made
        split at made
        · next both =>
          rw [here]
          exact both.2
        · exact absurd before made
    · exact ih before

/-- Where no file is in the way, the folder and all above it are there afterwards. -/
theorem mkdirs_folder (clear : ∀ part, part <+: place → d.entries part = none ∧ fits part = true ∨
      d.entries part = some .folder)
    (good : ∀ name ∈ place, legal name) : (d.mkdirs fits place).entries place = some .folder := by
  induction place using List.reverseRecOn with
  | nil =>
    rw [mkdirs_nil]
    exact d.root
  | append_singleton place name ih =>
    have parent := ih (fun part above => clear part (above.trans (List.prefix_append place [name])))
      fun other member => good other (by simp [member])
    rw [mkdirs_concat]
    rcases clear _ List.prefix_rfl with ⟨free,fit⟩ | folder
    · have still : (d.mkdirs fits place).entries (place ++ [name]) = none := by
        rw [entries_mkdirs_apart]
        · exact free
        · intro above
          have shorter := above.length_le
          simp at shorter
      have can : (d.mkdirs fits place).CanPut (place ++ [name]) .folder := by
        refine ⟨by simp,?_,?_,.inl still⟩
        · rw [List.dropLast_concat]
          exact parent
        · intro other last
          apply good other
          rw [List.getLast?_concat,Option.mem_some_iff] at last
          simp [last]
      rw [mkdir,if_pos ⟨still,fit⟩,entries_put_self can]
    · have made := @entries_mkdirs_some ν β legal d _ _ fits place _ _ folder
      rw [mkdir_there (by rw [made]; exact Option.some_ne_none _)]
      exact made

end Mkdirs

/-! ## Removing -/

section Remove

/-- An entry that has nothing below it. -/
structure CanRemove (place : List ν) : Prop where
  some_ : place ≠ []
  empty : d.children place = []

instance (place : List ν) : Decidable (d.CanRemove place) :=
  decidable_of_iff (place ≠ [] ∧ d.children place = [])
    ⟨fun ⟨some_,empty⟩ => ⟨some_,empty⟩,fun can => ⟨can.some_,can.empty⟩⟩

def removedEntries (place other : List ν) : Option (Node β) :=
  if other = place then none else d.entries other

variable {d} in
theorem CanRemove.closed {place : List ν} (can : d.CanRemove place) (other : List ν) (name : ν)
    (there : d.removedEntries place (other ++ [name]) ≠ none) :
    d.removedEntries place other = some .folder ∧ legal name := by
  rw [removedEntries] at there
  split at there
  · exact absurd rfl there
  · obtain ⟨folder,good⟩ := d.closed other name there
    refine ⟨?_,good⟩
    rw [removedEntries,if_neg]
    · exact folder
    · rintro rfl
      have member := d.mem_children.mpr there
      rw [can.empty] at member
      cases member

/-- Nothing happens where something stands below. -/
def remove (place : List ν) : Disk legal β :=
  if can : d.CanRemove place then {
    entries := d.removedEntries place
    root := by
      rw [removedEntries,if_neg can.some_.symm]
      exact d.root
    closed := can.closed
    places := d.places.erase place
    nodup := d.nodup.erase place
    listed := by
      intro other
      rw [d.nodup.mem_erase_iff,removedEntries,d.listed]
      by_cases here : other = place
      · simp [here]
      · simp [here] }
  else d

variable {d} {place other : List ν}

theorem remove_refused (refused : ¬ d.CanRemove place) : d.remove place = d := dif_neg refused

theorem entries_remove (can : d.CanRemove place) (other : List ν) :
    (d.remove place).entries other = if other = place then none else d.entries other := by
  rw [remove,dif_pos can]
  rfl

theorem entries_remove_other (different : other ≠ place) :
    (d.remove place).entries other = d.entries other := by
  by_cases can : d.CanRemove place
  · rw [entries_remove can,if_neg different]
  · rw [remove_refused can]

/-- All that stands below an entry is taken away, but for what leads to a place that is kept. -/
def prunedEntries (root kept other : List ν) : Option (Node β) :=
  if root <+: other ∧ ¬other <+: kept then none else d.entries other

theorem prunedEntries_closed (root kept place : List ν) (name : ν)
    (there : d.prunedEntries root kept (place ++ [name]) ≠ none) :
    d.prunedEntries root kept place = some .folder ∧ legal name := by
  rw [prunedEntries] at there
  split at there
  · exact absurd rfl there
  · next outside =>
    obtain ⟨folder,good⟩ := d.closed place name there
    refine ⟨?_,good⟩
    rw [prunedEntries,if_neg]
    · exact folder
    · intro ⟨below,away⟩
      apply outside
      refine ⟨below.trans (List.prefix_append place [name]),?_⟩
      exact fun kept => away ((List.prefix_append place [name]).trans kept)

def prune (root kept : List ν) : Disk legal β where
  entries := d.prunedEntries root kept
  root := by
    rw [prunedEntries,if_neg]
    · exact d.root
    · intro ⟨_,away⟩
      exact away List.nil_prefix
  closed := d.prunedEntries_closed root kept
  places := d.places.filter fun other => ¬(root <+: other ∧ ¬other <+: kept)
  nodup := d.nodup.filter _
  listed := by
    intro other
    rw [List.mem_filter,d.listed,decide_eq_true_eq,prunedEntries]
    by_cases below : root <+: other ∧ ¬other <+: kept
    · rw [if_pos below]
      simp [below]
    · rw [if_neg below]
      simp [below]

theorem entries_prune (root kept other : List ν) : (d.prune root kept).entries other =
    if root <+: other ∧ ¬other <+: kept then none else d.entries other := rfl

end Remove

end Disk
end HmclPe.Lib.Disks
