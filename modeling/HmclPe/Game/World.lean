import HmclPe.Java.Text
import HmclPe.Lib.Folders

/-! Renaming a world: the name in `level.dat` is written first, then the folder is moved. -/
namespace HmclPe.Game.Worlds
open HmclPe.Java HmclPe.Lib.Folders

section Model

inductive Tag (δ : Type)
  | string (value : Text)
  | compound (tags : List (Text × Tag δ))
  | other (payload : δ)

variable {β δ : Type}

def get (tags : List (Text × Tag δ)) (name : Text) : Option (Tag δ) := tags.lookup name

/-- A tag takes the place of one with its name. -/
def put (tags : List (Text × Tag δ)) (name : Text) (tag : Tag δ) : List (Text × Tag δ) :=
  if (tags.map Prod.fst).contains name then
    tags.map fun entry => if entry.1 = name then (name,tag) else entry
  else tags ++ [(name,tag)]

/-- The compressed binary form of tags, of the NBT library; none is an exception. -/
structure Codec (β δ : Type) where
  readTag : β → Option (Tag δ)
  writeTag : Tag δ → Option β

/-- Names that a folder can hold. -/
structure ValidName (name : Text) : Prop where
  some_ : name ≠ []
  notHere : name ≠ (".":String).toList
  notAbove : name ≠ ("..":String).toList
  noSlash : '/' ∉ name
  noNul : '\x00' ∉ name

instance : DecidablePred ValidName := fun name =>
  decidable_of_iff (name ≠ [] ∧ name ≠ (".":String).toList ∧ name ≠ ("..":String).toList ∧
    List.contains name '/' = false ∧ List.contains name '\x00' = false) (by
      constructor
      · rintro ⟨some_,notHere,notAbove,slash,nul⟩
        exact ⟨some_,notHere,notAbove,by simpa using slash,by simpa using nul⟩
      · rintro ⟨some_,notHere,notAbove,slash,nul⟩
        exact ⟨some_,notHere,notAbove,by simpa using slash,by simpa using nul⟩)

abbrev Place := List Text
abbrev Files (β : Type) := FileSystem ValidName β

structure World where
  savesDir : Place
  fileName : Text

def World.file (world : World) : Place := world.savesDir ++ [world.fileName]

def levelDatName : Text := ("level.dat":String)

def World.levelDat (world : World) : Place := world.file ++ [levelDatName]

/-- What happens to the files that the call can not know. -/
structure Fate (β : Type) where
  openFails : Bool
  writeFails : Bool
  leftover : β
  moveFails : Bool

inductive Outcome
  | returns | throws
deriving DecidableEq

def parseLevelDat (codec : Codec β δ) (fs : Files β) (path : Place) : Option (List (Text × Tag δ)) :=
  match fs.entries path with
  | some (.file content) =>
    match codec.readTag content with
    | some (.compound tags) => some tags
    | _ => none
  | _ => none

def dataName : Text := ("Data":String)
def levelNameName : Text := ("LevelName":String)

/-- The tags with the new name; none where there is no compound `Data`. -/
def putLevelName (nbt : List (Text × Tag δ)) (newName : Text) : Option (Tag δ) :=
  match get nbt dataName with
  | some (.compound data) =>
    some (.compound (put nbt dataName (.compound (put data levelNameName (.string newName)))))
  | _ => none

def step (place : Place) (part : Text) : Place :=
  if part = (".":String).toList then place
  else if part = ("..":String).toList then place.dropLast
  else place ++ [part]

def resolve (fs : Files β) : Place → List Text → Option Place
  | place, [] => some place
  | place, part :: parts => if fs.isFolder place then resolve fs (step place part) parts else none

/-- Where a path next to the world leads; none where it is no path, or leads nowhere. -/
def World.resolveSibling (world : World) (fs : Files β) (newName : Text) : Option Place :=
  if List.contains newName '\x00' then none
  else
    resolve fs (if newName.head? = some '/' then [] else world.savesDir)
      ((newName.splitOn '/').filter fun part => !part.isEmpty)

/-- `Files.move` without `REPLACE_EXISTING`. -/
def World.moveTo (world : World) (moveFails : Bool) (newName : Text) (fs : Files β) :
    Option (Files β) :=
  match world.resolveSibling fs newName with
  | none => none
  | some target => if moveFails then none else fs.move world.file target

def World.rename (codec : Codec β δ) (fate : Fate β) (newName : Text) (world : World)
    (fs : Files β) : Outcome × Files β :=
  if !fs.isFolder world.file then (.throws,fs)
  else
    -- Change the name recorded in level.dat
    match (parseLevelDat codec fs world.levelDat).bind (putLevelName · newName) with
    | none => (.throws,fs)
    | some nbt =>
      if fate.openFails then (.throws,fs)
      else
        match if fate.writeFails then none else codec.writeTag nbt with
        | none => (.throws,fs.write world.levelDat fate.leftover)
        | some content =>
          -- then change the folder's name
          match world.moveTo fate.moveFails newName (fs.write world.levelDat content) with
          | none => (.throws,fs.write world.levelDat content)
          | some fs => (.returns,fs)

/-- The name that `getWorldName` finds. -/
def Codec.levelName (codec : Codec β δ) (content : β) : Option Text :=
  match codec.readTag content with
  | some (.compound nbt) =>
    match get nbt dataName with
    | some (.compound data) =>
      match get data levelNameName with
      | some (.string value) => some value
      | _ => none
    | _ => none
  | _ => none

end Model

section Tags
variable {β δ : Type}

theorem lookup_map_replace {tags : List (Text × Tag δ)} {name : Text} (tag : Tag δ)
    (named : name ∈ tags.map Prod.fst) :
    (tags.map fun entry => if entry.1 = name then (name,tag) else entry).lookup name = some tag := by
  induction tags with
  | nil => exact absurd named List.not_mem_nil
  | cons entry tags ih =>
    obtain ⟨other,old⟩ := entry
    rw [List.map_cons]
    by_cases here : other = name
    · rw [if_pos here,List.lookup_cons_self]
    · rw [if_neg here,List.lookup_cons,beq_false_of_ne (Ne.symm here)]
      rw [List.map_cons,List.mem_cons] at named
      exact ih (named.resolve_left (Ne.symm here))

theorem lookup_append_new {tags : List (Text × Tag δ)} {name : Text} (tag : Tag δ)
    (fresh : name ∉ tags.map Prod.fst) : (tags ++ [(name,tag)]).lookup name = some tag := by
  induction tags with
  | nil => exact List.lookup_cons_self
  | cons entry tags ih =>
    obtain ⟨other,old⟩ := entry
    rw [List.map_cons,List.mem_cons,not_or] at fresh
    rw [List.cons_append,List.lookup_cons,beq_false_of_ne fresh.1]
    exact ih fresh.2

theorem get_put (tags : List (Text × Tag δ)) (name : Text) (tag : Tag δ) :
    get (put tags name tag) name = some tag := by
  rw [get,put]
  split
  · next named => exact lookup_map_replace tag (by simpa using named)
  · next fresh => exact lookup_append_new tag (by simpa using fresh)

theorem levelName_of_putLevelName {codec : Codec β δ} {nbt : List (Text × Tag δ)} {newName : Text}
    {tag : Tag δ} {content : β} (renamed : putLevelName nbt newName = some tag)
    (read : codec.readTag content = some tag) : codec.levelName content = some newName := by
  rw [putLevelName] at renamed
  split at renamed
  · obtain rfl := Option.some.inj renamed
    rw [Codec.levelName,read]
    simp only [get_put]
  · cases renamed

end Tags

section Paths
variable {β : Type} {fs : Files β} {place : Place} {content : β}

theorem isFolder_write (other : Place) :
    (fs.write place content).isFolder other = fs.isFolder other := by
  rw [Bool.eq_iff_iff,FileSystem.isFolder_iff,FileSystem.isFolder_iff]
  exact FileSystem.entries_write_folder

theorem resolve_write (start : Place) (parts : List Text) :
    resolve (fs.write place content) start parts = resolve fs start parts := by
  induction parts generalizing start with
  | nil => rfl
  | cons part parts ih => rw [resolve,resolve,isFolder_write,ih]

theorem resolveSibling_write (world : World) (newName : Text) :
    world.resolveSibling (fs.write place content) newName = world.resolveSibling fs newName := by
  rw [World.resolveSibling,World.resolveSibling]
  split
  · rfl
  · exact resolve_write _ _

theorem resolveSibling_valid {world : World} {newName : Text} (valid : ValidName newName)
    (folder : fs.isFolder world.savesDir = true) :
    world.resolveSibling fs newName = some (world.savesDir ++ [newName]) := by
  obtain ⟨some_,notHere,notAbove,noSlash,noNul⟩ := valid
  have parts : ((newName.splitOn '/').filter fun part => !part.isEmpty) = [newName] := by
    rw [List.splitOn_eq_singleton noSlash,List.filter_singleton]
    cases newName with
    | nil => exact absurd rfl some_
    | cons => rfl
  have relative : newName.head? ≠ some '/' := by
    intro head
    exact noSlash (List.mem_of_mem_head? head)
  rw [World.resolveSibling,if_neg (by simpa using noNul),parts,if_neg relative,resolve,if_pos folder,
    resolve,step,if_neg notHere,if_neg notAbove]

end Paths

section Atomicity
variable {β δ : Type}

/-- The folder has the new name, and so has `level.dat` in it; all else is as before. -/
structure Renamed (codec : Codec β δ) (world : World) (newName : Text) (fs fs' : Files β) : Prop where
  levelName : ∃ content, fs'.entries (world.savesDir ++ [newName] ++ [levelDatName]) =
    some (.file content) ∧ codec.levelName content = some newName
  inside : ∀ rest, rest ≠ [levelDatName] →
    fs'.entries (world.savesDir ++ [newName] ++ rest) = fs.entries (world.file ++ rest)
  gone : ∀ place, world.file <+: place → ¬world.savesDir ++ [newName] <+: place →
    fs'.entries place = none
  elsewhere : ∀ place, ¬world.file <+: place → ¬world.savesDir ++ [newName] <+: place →
    fs'.entries place = fs.entries place

/-- All or nothing. -/
def Atomic (codec : Codec β δ) (world : World) (newName : Text) (fs : Files β)
    (result : Outcome × Files β) : Prop :=
  result.1 = .returns ∧ Renamed codec world newName fs result.2 ∨
    result.1 = .throws ∧ ∀ place, result.2.entries place = fs.entries place

/-- The tags that are written; none where the call throws before. -/
def prepared (codec : Codec β δ) (world : World) (newName : Text) (fs : Files β) : Option (Tag δ) :=
  if !fs.isFolder world.file then none
  else (parseLevelDat codec fs world.levelDat).bind (putLevelName · newName)

/-- The folder gets the place that the new name leads to. -/
def Moves (fate : Fate β) (world : World) (newName : Text) (fs : Files β) : Prop :=
  ∃ target, world.resolveSibling fs newName = some target ∧ fate.moveFails = false ∧
    (target = world.file ∨ fs.Free world.file target)

/-- When a call is atomic: nothing is written, or the new name is legal and its place is free, or
what was written was there before and the folder stays. -/
def Safe (codec : Codec β δ) (fate : Fate β) (newName : Text) (world : World) (fs : Files β) : Prop :=
  ∀ nbt, prepared codec world newName fs = some nbt → fate.openFails = false →
    match if fate.writeFails then none else codec.writeTag nbt with
    | none => fs.entries world.levelDat = some (.file fate.leftover)
    | some content =>
      (ValidName newName ∧ fate.moveFails = false ∧
        (newName = world.fileName ∨ fs.entries (world.savesDir ++ [newName]) = none)) ∨
      (¬Moves fate world newName fs ∧ fs.entries world.levelDat = some (.file content))

/-- What the library writes it reads back. -/
def Codec.ReadsBack (codec : Codec β δ) : Prop :=
  ∀ content nbt, codec.readTag content = some (.compound nbt) → ∀ newName tag content',
    putLevelName nbt newName = some tag → codec.writeTag tag = some content' →
      codec.readTag content' = some tag

variable {codec : Codec β δ} {fate : Fate β} {newName : Text} {world : World} {fs : Files β}
  {nbt : Tag δ}

theorem prepared_spec (ready : prepared codec world newName fs = some nbt) :
    fs.entries world.file = some .folder ∧
      ∃ content tags, fs.entries world.levelDat = some (.file content) ∧
        codec.readTag content = some (.compound tags) ∧ putLevelName tags newName = some nbt := by
  rw [prepared] at ready
  split at ready
  · cases ready
  · next folder =>
    refine ⟨FileSystem.isFolder_iff.mp (by simpa using folder),?_⟩
    obtain ⟨tags,parsed,renamed⟩ := Option.bind_eq_some_iff.mp ready
    rw [parseLevelDat] at parsed
    split at parsed
    · next content file =>
      split at parsed
      · next tags' read =>
        obtain rfl := Option.some.inj parsed
        exact ⟨content,tags',file,read,renamed⟩
      · cases parsed
    · cases parsed

/-- What a call does with the tags it has prepared. -/
theorem rename_prepared (ready : prepared codec world newName fs = some nbt)
    (opened : fate.openFails = false) :
    world.rename codec fate newName fs =
      match if fate.writeFails then none else codec.writeTag nbt with
      | none => (.throws,fs.write world.levelDat fate.leftover)
      | some content =>
        match world.moveTo fate.moveFails newName (fs.write world.levelDat content) with
        | none => (.throws,fs.write world.levelDat content)
        | some fs => (.returns,fs) := by
  have folder : fs.isFolder world.file = true := FileSystem.isFolder_iff.mpr (prepared_spec ready).1
  rw [prepared,folder] at ready
  rw [World.rename,folder,opened]
  simp only [Bool.not_true,Bool.false_eq_true,if_false] at ready ⊢
  rw [ready]

theorem rename_unprepared (early : ∀ nbt, prepared codec world newName fs = some nbt →
    fate.openFails = true) : world.rename codec fate newName fs = (.throws,fs) := by
  rw [World.rename]
  cases folder : fs.isFolder world.file with
  | false => rfl
  | true =>
    simp only [Bool.not_true,Bool.false_eq_true,if_false]
    cases made : (parseLevelDat codec fs world.levelDat).bind (putLevelName · newName) with
    | none => rfl
    | some nbt =>
      have ready : prepared codec world newName fs = some nbt := by
        rw [prepared,folder]
        exact made
      rw [early nbt ready]
      rfl

theorem savesDir_folder (folder : fs.entries world.file = some .folder) :
    fs.entries world.savesDir = some .folder :=
  (fs.closed world.savesDir world.fileName (folder.trans_ne (Option.some_ne_none _))).1

theorem moves_valid_iff (folder : fs.entries world.file = some .folder) (valid : ValidName newName) :
    Moves fate world newName fs ↔ fate.moveFails = false ∧
      (newName = world.fileName ∨ fs.entries (world.savesDir ++ [newName]) = none) := by
  have leads := resolveSibling_valid valid
    (FileSystem.isFolder_iff.mpr (savesDir_folder folder))
  constructor
  · rintro ⟨target,led,stays,place⟩
    obtain rfl := Option.some.inj (leads.symm.trans led)
    refine ⟨stays,?_⟩
    rcases place with same | free
    · exact .inl (List.cons.inj (List.append_cancel_left same)).1
    · exact .inr free.free
  · rintro ⟨stays,place⟩
    refine ⟨_,leads,stays,?_⟩
    rcases place with rfl | free
    · exact .inl rfl
    · refine .inr ⟨free,?_,?_,?_⟩
      · rw [List.dropLast_concat]
        exact savesDir_folder folder
      · rw [List.getLast?_concat]
        intro name member
        obtain rfl := Option.some.inj member
        exact valid
      · intro before
        have same : world.file = world.savesDir ++ [newName] := by
          apply before.eq_of_length
          rw [World.file,List.length_append,List.length_append,List.length_singleton,
            List.length_singleton]
        rw [← same,folder] at free
        cases free

variable {content : β}

theorem file_write (folder : fs.entries world.file = some .folder) :
    (fs.write world.levelDat content).entries world.file ≠ none := by
  rw [ne_eq,FileSystem.entries_write_none,folder]
  exact Option.some_ne_none _

theorem moveTo_none (stays : ¬Moves fate world newName fs) :
    world.moveTo fate.moveFails newName (fs.write world.levelDat content) = none := by
  rw [World.moveTo,resolveSibling_write]
  cases led : world.resolveSibling fs newName with
  | none => rfl
  | some target =>
    cases fails : fate.moveFails with
    | true => rfl
    | false =>
      have place : ¬(target = world.file ∨ fs.Free world.file target) :=
        fun place => stays ⟨target,led,fails,place⟩
      obtain ⟨different,taken⟩ := not_or.mp place
      exact FileSystem.move_none different fun free => taken (FileSystem.free_write_iff.mp free)

/-- The folder is moved with the new `level.dat` in it. -/
theorem moveTo_some {target : Place} (folder : fs.entries world.file = some .folder)
    (led : world.resolveSibling fs newName = some target) (moves : fate.moveFails = false)
    (place : target = world.file ∨ fs.Free world.file target) :
    ∃ fs', world.moveTo fate.moveFails newName (fs.write world.levelDat content) = some fs' ∧
      (target = world.file ∧ fs' = fs.write world.levelDat content ∨
        fs.Free world.file target ∧ fs'.entries =
          (fs.write world.levelDat content).movedEntries world.file target) := by
  have there := @file_write _ world fs content folder
  rw [World.moveTo,resolveSibling_write,led,moves]
  rcases place with rfl | free
  · exact ⟨_,FileSystem.move_same there,.inl ⟨rfl,rfl⟩⟩
  · obtain ⟨fs',moved,entries⟩ :=
      FileSystem.move_free there (FileSystem.free_write_iff.mpr free)
    exact ⟨fs',moved,.inr ⟨free,entries⟩⟩

/-- Nothing has a name that no folder can hold. -/
theorem Renamed.valid {fs' : Files β} (renamed : Renamed codec world newName fs fs') :
    ValidName newName := by
  obtain ⟨content,file,-⟩ := renamed.levelName
  have there := file.trans_ne (Option.some_ne_none _)
  apply FileSystem.legal_of_entries there
  simp

theorem renamed_of_moved {fs' : Files β} (file : fs.isFile world.levelDat = true)
    (named : codec.levelName content = some newName)
    (moved : newName = world.fileName ∧ fs' = fs.write world.levelDat content ∨
      fs'.entries = (fs.write world.levelDat content).movedEntries world.file
        (world.savesDir ++ [newName])) :
    Renamed codec world newName fs fs' := by
  have other : ∀ rest, rest ≠ [levelDatName] →
      (fs.write world.levelDat content).entries (world.file ++ rest) =
        fs.entries (world.file ++ rest) := by
    intro rest different
    apply FileSystem.entries_write_other
    exact fun same => different (List.append_cancel_left same)
  have outside : ∀ place, ¬world.file <+: place →
      (fs.write world.levelDat content).entries place = fs.entries place := by
    intro place elsewhere
    apply FileSystem.entries_write_other
    rintro rfl
    exact elsewhere (List.prefix_append world.file [levelDatName])
  have written : (fs.write world.levelDat content).entries (world.file ++ [levelDatName]) =
      some (.file content) := FileSystem.entries_write_self file
  rcases moved with ⟨rfl,rfl⟩ | entries
  · refine ⟨⟨content,written,named⟩,other,?_,fun place elsewhere _ => outside place elsewhere⟩
    intro place here elsewhere
    exact absurd here elsewhere
  · constructor
    · refine ⟨content,?_,named⟩
      rw [entries,FileSystem.movedEntries_inside]
      exact written
    · intro rest different
      rw [entries,FileSystem.movedEntries_inside]
      exact other rest different
    · intro place here elsewhere
      rw [entries]
      exact FileSystem.movedEntries_gone elsewhere here
    · intro place here elsewhere
      rw [entries,FileSystem.movedEntries_other elsewhere here]
      exact outside place here

theorem unchanged_iff (file : fs.isFile world.levelDat = true) :
    (∀ place, (fs.write world.levelDat content).entries place = fs.entries place) ↔
      fs.entries world.levelDat = some (.file content) := by
  constructor
  · intro same
    rw [← same]
    exact FileSystem.entries_write_self file
  · intro before place
    by_cases here : place = world.levelDat
    · rw [here,FileSystem.entries_write_self file,before]
    · exact FileSystem.entries_write_other here

theorem atomic_throws_iff {fs' : Files β} :
    Atomic codec world newName fs (.throws,fs') ↔
      ∀ place, fs'.entries place = fs.entries place := by
  rw [Atomic,or_iff_right (fun returned => by cases returned.1),and_iff_right rfl]

theorem atomic_returns_iff {fs' : Files β} :
    Atomic codec world newName fs (.returns,fs') ↔ Renamed codec world newName fs fs' := by
  rw [Atomic,or_iff_left (fun threw => by cases threw.1),and_iff_right rfl]

/-- The second half of a call, after the name was written. -/
theorem atomic_written_iff (folder : fs.entries world.file = some .folder)
    (file : fs.isFile world.levelDat = true) (named : codec.levelName content = some newName) :
    Atomic codec world newName fs
      (match world.moveTo fate.moveFails newName (fs.write world.levelDat content) with
        | none => (.throws,fs.write world.levelDat content)
        | some fs => (.returns,fs)) ↔
      (ValidName newName ∧ fate.moveFails = false ∧
        (newName = world.fileName ∨ fs.entries (world.savesDir ++ [newName]) = none)) ∨
      (¬Moves fate world newName fs ∧ fs.entries world.levelDat = some (.file content)) := by
  by_cases moves : Moves fate world newName fs
  · obtain ⟨target,led,stays,place⟩ := id moves
    obtain ⟨fs',moved,result⟩ := @moveTo_some _ fate newName world fs content target folder led
      stays place
    simp only [moved]
    rw [atomic_returns_iff,or_iff_left fun kept => kept.1 moves]
    constructor
    · intro done
      exact ⟨done.valid,(moves_valid_iff folder done.valid).mp moves⟩
    · rintro ⟨valid,-⟩
      have leads := resolveSibling_valid valid
        (FileSystem.isFolder_iff.mpr (savesDir_folder folder))
      obtain rfl := Option.some.inj (leads.symm.trans led)
      apply renamed_of_moved file named
      rcases result with ⟨same,rfl⟩ | ⟨-,entries⟩
      · exact .inl ⟨(List.cons.inj (List.append_cancel_left same)).1,rfl⟩
      · exact .inr entries
  · simp only [moveTo_none moves]
    rw [atomic_throws_iff,unchanged_iff file,and_iff_right moves,or_iff_right]
    rintro ⟨valid,free⟩
    exact moves ((moves_valid_iff folder valid).mpr free)

theorem rename_atomic_iff (readsBack : codec.ReadsBack) (fate : Fate β) (newName : Text)
    (world : World) (fs : Files β) :
    Atomic codec world newName fs (world.rename codec fate newName fs) ↔
      Safe codec fate newName world fs := by
  by_cases early : ∀ nbt, prepared codec world newName fs = some nbt → fate.openFails = true
  · rw [rename_unprepared early,atomic_throws_iff]
    refine iff_of_true (fun _ => rfl) ?_
    intro nbt ready opened
    rw [early nbt ready] at opened
    cases opened
  · obtain ⟨nbt,ready,opened⟩ : ∃ nbt, prepared codec world newName fs = some nbt ∧
        fate.openFails = false := by simpa using early
    obtain ⟨folder,old,tags,levelDat,read,renamed⟩ := prepared_spec ready
    have file := FileSystem.isFile_of_entries levelDat
    have only : Safe codec fate newName world fs ↔
        match if fate.writeFails then none else codec.writeTag nbt with
        | none => fs.entries world.levelDat = some (.file fate.leftover)
        | some content =>
          (ValidName newName ∧ fate.moveFails = false ∧
            (newName = world.fileName ∨ fs.entries (world.savesDir ++ [newName]) = none)) ∨
          (¬Moves fate world newName fs ∧ fs.entries world.levelDat = some (.file content)) := by
      constructor
      · intro safe
        exact safe nbt ready opened
      · intro safe nbt' ready' _
        obtain rfl := Option.some.inj (ready.symm.trans ready')
        exact safe
    rw [only,rename_prepared ready opened]
    cases written : if fate.writeFails then none else codec.writeTag nbt with
    | none => exact atomic_throws_iff.trans (unchanged_iff file)
    | some content =>
      have named : codec.levelName content = some newName := by
        apply levelName_of_putLevelName renamed
        apply readsBack old tags read newName nbt content renamed
        split at written
        · cases written
        · exact written
      exact atomic_written_iff folder file named

/-- Contents that are their own tags. -/
def plainCodec : Codec (Tag Unit) Unit := ⟨some,some⟩

theorem plainCodec_readsBack : plainCodec.ReadsBack := by
  intro content nbt _ newName tag content' _ written
  exact written.symm

def levelDatOf (levelName : Text) : Tag Unit :=
  .compound [(dataName,.compound [(levelNameName,.string levelName)])]

def savesName : Text := ("saves":String)

def twoWorldsTable : List (Place × Node (Tag Unit)) :=
  [([],.folder),([savesName],.folder),([savesName,['a']],.folder),
    ([savesName,['a'],levelDatName],.file (levelDatOf ['a'])),([savesName,['b']],.folder)]

def twoWorlds : Files (Tag Unit) where
  entries place := twoWorldsTable.lookup place
  root := rfl
  closed := by
    intro place name there
    have each : ∀ key ∈ twoWorldsTable.map Prod.fst, ∀ last ∈ key.getLast?,
        (match twoWorldsTable.lookup key.dropLast with
          | some .folder => true
          | _ => false) = true ∧ ValidName last := by decide
    have listed : place ++ [name] ∈ twoWorldsTable.map Prod.fst := by
      by_contra absent
      apply there
      rw [List.lookup_eq_none_iff]
      intro entry member
      have other : place ++ [name] ≠ entry.1 := fun same => absent (same ▸ List.mem_map_of_mem member)
      simpa using other
    obtain ⟨folder,good⟩ := each _ listed name (by rw [List.getLast?_concat]; rfl)
    rw [List.dropLast_concat] at folder
    refine ⟨?_,good⟩
    split at folder
    · assumption
    · cases folder

def worldA : World := ⟨[savesName],['a']⟩

def noFailure : Fate (Tag Unit) := ⟨false,false,levelDatOf [],false⟩

theorem rename_atomic_iff_twoWorlds :
    Atomic plainCodec worldA ['c'] twoWorlds (worldA.rename plainCodec noFailure ['c'] twoWorlds) ↔
      Safe plainCodec noFailure ['c'] worldA twoWorlds :=
  rename_atomic_iff plainCodec_readsBack noFailure ['c'] worldA twoWorlds

def writtenName : Option (Node (Tag Unit)) → Option Text
  | some (.file content) => plainCodec.levelName content
  | _ => none

/-- The call throws as there is a folder with the new name, and leaves the new name in `level.dat`. -/
theorem taken_name_written : ¬∀ (codec : Codec (Tag Unit) Unit), codec.ReadsBack →
    ∀ (fate : Fate (Tag Unit)) (newName : Text) (world : World) (fs : Files (Tag Unit)),
      Atomic codec world newName fs (world.rename codec fate newName fs) := by
  intro every
  have atomic := every plainCodec plainCodec_readsBack noFailure ['b'] worldA twoWorlds
  have threw : (worldA.rename plainCodec noFailure ['b'] twoWorlds).1 = .throws := by decide
  have same := (atomic.resolve_left fun returned => by simp [threw] at returned).2 worldA.levelDat
  have name := congrArg writtenName same
  revert name
  decide

end Atomicity

end HmclPe.Game.Worlds
