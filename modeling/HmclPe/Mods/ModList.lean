import HmclPe.Java.CodeUnits
import HmclPe.Lib.KeyedSets
import HmclPe.Mods.ModManager

/-! The list of mods after the directory was read. The tree set compares mods by their names without
suffixes, so that of several files with one such name only the first is listed. -/
namespace HmclPe.Mods.ModList
open HmclPe.Java HmclPe.Lib.KeyedSets ModManager

section Model

/-- A file of the directory, or of a subdirectory of it. -/
@[ext]
structure ModPath where
  folder : Option Text
  name : Text
deriving DecidableEq

/-- What the directory holds; a subdirectory comes with the names in it. -/
structure Item where
  name : Text
  content : Option (List Text)

structure ModsDirectory where
  items : List Item
  distinct : (items.map Item.name).Nodup
  distinctWithin : ∀ item ∈ items, ∀ names ∈ item.content, names.Nodup

structure LocalModFile where
  file : ModPath
  active : Bool
  fileName : Text
deriving DecidableEq

def LocalModFile.key (modFile : LocalModFile) : List Nat := Text.codeUnits modFile.fileName

def fileName (file : Text) : Text := FileUtils.getNameWithoutExtension (getModName file)

/-- Files that are no mods are turned down. -/
def getModInfo (file : ModPath) : Option LocalModFile :=
  if accepts file.name then some ⟨file,!isDisabled file.name,fileName file.name⟩ else none

structure Manager where
  localModFiles : KeyedSet LocalModFile.key
  loaded : Bool

def addModInfo (localModFiles : KeyedSet LocalModFile.key) (file : ModPath) :
    KeyedSet LocalModFile.key :=
  match getModInfo file with
  | none => localModFiles
  | some localModFile =>
    if isOld file.name then localModFiles else localModFiles.add localModFile

def isIntVersionNumber (version : Text) : Bool :=
  version.all (fun c => c = '.' ∨ '0' ≤ c ∧ c ≤ '9') ∧ !Text.contains version ("..":String) ∧
    version.any (fun c => ' ' < c) ∧ (Text.split '.' version).all fun str => str.length ≤ 9

/-- If the folder name is game version, forge will search mod in this subdirectory. -/
def Item.files (item : Item) : List ModPath :=
  match item.content with
  | some names =>
    if isIntVersionNumber (FileUtils.getName item.name) then names.map (⟨some item.name,·⟩)
    else [⟨none,item.name⟩]
  | none => [⟨none,item.name⟩]

def addItem (localModFiles : KeyedSet LocalModFile.key) (subitem : Item) :
    KeyedSet LocalModFile.key :=
  subitem.files.foldl addModInfo localModFiles

/-- There is nothing to list while the directory is missing. -/
def refreshMods (directory : Option ModsDirectory) (_ : Manager) : Manager :=
  match directory with
  | none => ⟨.empty,true⟩
  | some directory => ⟨directory.items.foldl addItem .empty,true⟩

def getMods (directory : Option ModsDirectory) (manager : Manager) : List LocalModFile :=
  (if manager.loaded then manager else refreshMods directory manager).localModFiles.elements

end Model

section Listing

def isMod (file : ModPath) : Bool := accepts file.name && !isOld file.name

def ModsDirectory.modFiles (directory : ModsDirectory) : List ModPath :=
  (directory.items.flatMap Item.files).filter isMod

def modFiles (directory : Option ModsDirectory) : List ModPath :=
  directory.elim [] ModsDirectory.modFiles

def ofFile (file : ModPath) : LocalModFile := ⟨file,!isDisabled file.name,fileName file.name⟩

theorem addModInfo_eq (localModFiles : KeyedSet LocalModFile.key) (file : ModPath) :
    addModInfo localModFiles file =
      if isMod file then localModFiles.add (ofFile file) else localModFiles := by
  rw [addModInfo,getModInfo,isMod]
  cases accepts file.name <;> cases isOld file.name <;> rfl

theorem foldl_addModInfo (files : List ModPath) (localModFiles : KeyedSet LocalModFile.key) :
    files.foldl addModInfo localModFiles =
      localModFiles.addAll ((files.filter isMod).map ofFile) := by
  induction files generalizing localModFiles with
  | nil => rfl
  | cons file files ih =>
    rw [List.foldl_cons,ih,addModInfo_eq,List.filter_cons]
    cases isMod file <;> rfl

theorem getMods_refreshMods (directory : Option ModsDirectory) (manager : Manager) :
    getMods directory (refreshMods directory manager) =
      ((KeyedSet.empty : KeyedSet LocalModFile.key).addAll
        ((modFiles directory).map ofFile)).elements := by
  cases directory with
  | none => rfl
  | some directory =>
    have all : directory.items.foldl addItem .empty =
        (directory.items.flatMap Item.files).foldl addModInfo KeyedSet.empty := by
      rw [List.foldl_flatMap]
      rfl
    rw [getMods,refreshMods,if_pos rfl,all,foldl_addModInfo]
    rfl

theorem mem_files {item : Item} {file : ModPath} (member : file ∈ item.files) :
    file.folder.getD file.name = item.name := by
  obtain ⟨name,content⟩ := item
  cases content with
  | none =>
    obtain rfl := List.mem_singleton.mp member
    rfl
  | some names =>
    simp only [Item.files] at member
    split at member
    · obtain ⟨inner,-,rfl⟩ := List.mem_map.mp member
      rfl
    · obtain rfl := List.mem_singleton.mp member
      rfl

theorem files_nodup (directory : ModsDirectory) : (directory.items.flatMap Item.files).Nodup := by
  refine List.nodup_flatMap.mpr ⟨?_,?_⟩
  · rintro ⟨name,content⟩ member
    cases content with
    | none => exact List.nodup_singleton _
    | some names =>
      have within := directory.distinctWithin _ member names rfl
      simp only [Item.files]
      split
      · refine within.map ?_
        intro inner inner' same
        exact congrArg ModPath.name same
      · exact List.nodup_singleton _
  · refine (List.pairwise_map.mp directory.distinct).imp ?_
    intro item item' different file inside inside'
    exact different ((mem_files inside).symm.trans (mem_files inside'))

theorem modFiles_nodup (directory : Option ModsDirectory) : (modFiles directory).Nodup := by
  cases directory with
  | none => exact List.nodup_nil
  | some directory => exact (files_nodup directory).filter _

theorem ofFile_injective : Function.Injective ofFile :=
  fun _ _ same => congrArg LocalModFile.file same

theorem key_ofFile_eq_iff {file file' : ModPath} :
    (ofFile file).key = (ofFile file').key ↔ fileName file.name = fileName file'.name :=
  Text.codeUnits_injective.eq_iff

variable {directory : Option ModsDirectory} {manager : Manager}

theorem mem_getMods {modFile : LocalModFile} :
    modFile ∈ getMods directory (refreshMods directory manager) ↔
      ∃ before file after, modFiles directory = before ++ file :: after ∧ modFile = ofFile file ∧
        ∀ earlier ∈ before, fileName earlier.name ≠ fileName file.name := by
  rw [getMods_refreshMods]
  refine KeyedSet.mem_addAll_empty.trans ?_
  constructor
  · rintro ⟨before,after,cut,first⟩
    obtain ⟨front,rest,files,rfl,listed⟩ := List.map_eq_append_iff.mp cut
    obtain ⟨file,back,rfl,rfl,rfl⟩ := List.map_eq_cons_iff.mp listed
    refine ⟨front,file,back,files,rfl,?_⟩
    intro earlier member same
    exact first _ (List.mem_map_of_mem member) (key_ofFile_eq_iff.mpr same)
  · rintro ⟨before,file,after,files,rfl,first⟩
    refine ⟨before.map ofFile,after.map ofFile,by rw [files]; simp,?_⟩
    intro earlier member same
    obtain ⟨front,listed,rfl⟩ := List.mem_map.mp member
    exact first front listed (key_ofFile_eq_iff.mp same)

theorem keys_map_nodup_iff {files : List ModPath} :
    ((files.map ofFile).map LocalModFile.key).Nodup ↔
      (files.map fun file => fileName file.name).Nodup := by
  have same : (files.map ofFile).map LocalModFile.key =
      (files.map fun file => fileName file.name).map Text.codeUnits := by
    rw [List.map_map,List.map_map]
    rfl
  rw [same,List.nodup_map_iff Text.codeUnits_injective]

theorem fileNames_nodup :
    ((getMods directory (refreshMods directory manager)).map LocalModFile.fileName).Nodup := by
  rw [getMods_refreshMods]
  have keys := KeyedSet.keys_nodup ((KeyedSet.empty : KeyedSet LocalModFile.key).addAll
    ((modFiles directory).map ofFile))
  have mapped : ∀ list : List LocalModFile, list.map LocalModFile.key =
      (list.map LocalModFile.fileName).map Text.codeUnits := by
    intro list
    rw [List.map_map]
    rfl
  rw [mapped] at keys
  exact keys.of_map _

theorem listed_perm_iff :
    (getMods directory (refreshMods directory manager)).Perm ((modFiles directory).map ofFile) ↔
      ((modFiles directory).map fun file => fileName file.name).Nodup := by
  rw [getMods_refreshMods,KeyedSet.addAll_perm_iff,keys_map_nodup_iff]

theorem listed_once_iff :
    (∀ file ∈ modFiles directory, ((getMods directory (refreshMods directory manager)).map
      LocalModFile.file).count file = 1) ↔
      (getMods directory (refreshMods directory manager)).Perm
        ((modFiles directory).map ofFile) := by
  constructor
  · intro once
    have distinct := (modFiles_nodup directory).map ofFile_injective
    have listed : (getMods directory (refreshMods directory manager)).Nodup := by
      rw [getMods_refreshMods]
      exact KeyedSet.nodup _
    refine (List.perm_ext_iff_of_nodup listed distinct).mpr ?_
    intro modFile
    constructor
    · intro member
      obtain ⟨before,file,after,files,rfl,-⟩ := mem_getMods.mp member
      rw [files]
      exact List.mem_map_of_mem (List.mem_append_right _ List.mem_cons_self)
    · intro member
      obtain ⟨file,inside,rfl⟩ := List.mem_map.mp member
      have present : 0 < ((getMods directory (refreshMods directory manager)).map
          LocalModFile.file).count file := by
        rw [once file inside]
        exact Nat.one_pos
      obtain ⟨modFile,kept,rfl⟩ := List.mem_map.mp (List.count_pos_iff.mp present)
      obtain ⟨before,file,after,-,rfl,-⟩ := mem_getMods.mp kept
      exact kept
  · intro same file inside
    have files : (((modFiles directory).map ofFile).map LocalModFile.file) = modFiles directory := by
      rw [List.map_map]
      exact List.map_id _
    rw [(same.map LocalModFile.file).count_eq,files]
    exact List.count_eq_one_of_mem (modFiles_nodup directory) inside

/-- Of the mod files with one name the first is listed, once, and no other. -/
theorem refreshMods_lists (directory : Option ModsDirectory) (manager : Manager) :
    (∀ modFile, modFile ∈ getMods directory (refreshMods directory manager) ↔
      ∃ before file after, modFiles directory = before ++ file :: after ∧ modFile = ofFile file ∧
        ∀ earlier ∈ before, fileName earlier.name ≠ fileName file.name) ∧
    ((getMods directory (refreshMods directory manager)).map LocalModFile.fileName).Nodup ∧
    ((∀ file ∈ modFiles directory, ((getMods directory (refreshMods directory manager)).map
        LocalModFile.file).count file = 1) ↔
      ((modFiles directory).map fun file => fileName file.name).Nodup) :=
  ⟨fun _ => mem_getMods,fileNames_nodup,listed_once_iff.trans listed_perm_iff⟩

def jarAndZip : ModsDirectory where
  items := [⟨("foo.jar":String),none⟩,⟨("foo.zip":String),none⟩]
  distinct := by decide
  distinctWithin := by
    intro item member names within
    rcases List.mem_pair.mp member with rfl | rfl <;> cases within

theorem zip_not_listed : ¬∀ (directory : Option ModsDirectory) (manager : Manager),
    ∀ file ∈ modFiles directory, ((getMods directory (refreshMods directory manager)).map
      LocalModFile.file).count file = 1 := by
  intro every
  have once := every (some jarAndZip) ⟨.empty,false⟩ ⟨none,("foo.zip":String)⟩ (by decide)
  revert once
  decide

end Listing

end HmclPe.Mods.ModList
