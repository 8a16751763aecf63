import HmclPe.Java.CodeUnits
import HmclPe.Lib.KeyedSets
import HmclPe.Mods.LocalModFile

/-! Rolling a mod back to an old version: both files are renamed, and both objects change their place
in the sets of their mod. -/
namespace HmclPe.Mods.Rollback
open HmclPe.Java HmclPe.Lib.Moving HmclPe.Lib.KeyedSets ModManager

section Model

/-- What never changes about an object; objects are compared by their name. -/
structure Objects where
  fileName : Nat → Text
  mod : Nat → Nat

def Objects.key (objects : Objects) (i : Nat) : List Nat := Text.codeUnits (objects.fileName i)

structure State (objects : Objects) (β : Type) where
  directory : Directory β
  modFiles : Nat → LocalModFile
  loaded : Bool
  localModFiles : KeyedSet objects.key
  files : Nat → KeyedSet objects.key
  oldFiles : Nat → KeyedSet objects.key

inductive RollbackException
  | illegalState (message : Text)
  | illegalArgument (message : Text)
  | io
deriving DecidableEq

/-- The moves of a rollback. -/
inductive Move
  | enableFrom | backupFrom | restoreTo | invertTo
deriving DecidableEq

variable {objects : Objects} {β : Type}

def State.isOld (s : State objects β) (i : Nat) : Bool := ModManager.isOld (s.modFiles i).file

def State.setActive (fails : Bool) (i : Nat) (active : Bool) (s : State objects β) :
    State objects β :=
  let (modFile,directory) := (s.modFiles i).setActive fails active s.directory
  {s with directory, modFiles := Function.update s.modFiles i modFile}

/-- None where the move throws: nothing was changed then. -/
def State.setOld (fails : Bool) (i : Nat) (old : Bool) (s : State objects β) :
    Option (State objects β) :=
  let mod := objects.mod i
  let (newPath,directory) := ModManager.setOld fails (s.modFiles i).file old s.directory
  newPath.map fun file =>
    {s with
      directory
      modFiles := Function.update s.modFiles i {s.modFiles i with file}
      localModFiles := if old then s.localModFiles.remove i else s.localModFiles.add i
      files := Function.update s.files mod
        (if old then (s.files mod).remove i else (s.files mod).add i)
      oldFiles := Function.update s.oldFiles mod
        (if old then (s.oldFiles mod).add i else (s.oldFiles mod).remove i)}

def rollingBack (what : String) (fileName : Text) : Text := what.toList ++ fileName

def rollback (fails : Move → Bool) (fromMod toMod : Nat) (s : State objects β) :
    Option RollbackException × State objects β :=
  let fromName := objects.fileName fromMod
  let toName := objects.fileName toMod
  let mod := objects.mod fromMod
  if !s.loaded then (some (.illegalState ("ModManager Not loaded":String)),s)
  else if !s.localModFiles.contains fromMod then
    (some (.illegalState (rollingBack "Rolling back an unknown mod " fromName)),s)
  else if s.isOld fromMod then
    (some (.illegalArgument (rollingBack "Rolling back an old mod " fromName)),s)
  else if !s.isOld toMod then
    (some (.illegalArgument (rollingBack "Rolling back to an old path " toName)),s)
  else if fromName = toName then
    -- We cannot roll back to the mod with the same name.
    (none,s)
  else if mod ≠ objects.mod toMod then
    (some (.illegalArgument (rollingBack "Rolling back mod " fromName ++
      rollingBack " to a different mod " toName)),s)
  else if !(s.files mod).contains fromMod || !(s.oldFiles mod).contains toMod then
    (some (.illegalState ("LocalMod state corrupt":String)),s)
  else
    let active := (s.modFiles fromMod).active
    let s := s.setActive (fails .enableFrom) fromMod true
    match s.setOld (fails .backupFrom) fromMod true with
    | none => (some .io,s)
    | some s =>
      match s.setOld (fails .restoreTo) toMod false with
      | none => (some .io,s)
      | some s => (none,s.setActive (fails .invertTo) toMod active)

end Model

section Paths
variable {file base : Text} {mark : Mark}

def shown (active : Bool) : Mark := if active then .plain else .disabled

theorem backupPath_eq (named : Named file base mark) :
    backupPath file = base ++ Mark.old.suffix := by
  rw [backupPath,named.name,remove_disabled named.mod,add_old named.mod]
  cases mark <;> decide

theorem restorePath_eq (named : Named file base .old) : restorePath file = base := by
  rw [restorePath,named.name,remove_old named.mod,if_pos rfl]
  exact List.append_nil base

theorem activePath_eq (named : Named file base mark) (notOld : mark ≠ .old) (active : Bool) :
    (if active then enabledPath file else disabledPath file) = base ++ (shown active).suffix := by
  cases active with
  | true =>
    rw [if_pos rfl,enabledPath,named.name,remove_disabled named.mod]
    cases mark with
    | plain => rfl
    | disabled => rfl
    | old => exact absurd rfl notOld
  | false =>
    rw [if_neg Bool.false_ne_true,disabledPath,named.name,add_disabled named.mod notOld]
    rfl

theorem getModName_marked (mod : modEndings.any (Text.endsWith base) = true) (mark : Mark) :
    getModName (base ++ mark.suffix) = base := by
  rw [getModName,getName_marked mod]
  cases mark with
  | plain =>
    rw [removeSuffix_other (endsWith_disabled mod .plain),
      removeSuffix_other (endsWith_old mod .plain),StringUtils.removeSuffix]
    exact List.append_nil base
  | disabled => exact removeSuffix_append base _ _
  | old =>
    rw [removeSuffix_other (endsWith_disabled mod .old)]
    exact removeSuffix_append base _ _

theorem getModName_named (named : Named file base mark) : getModName file = base := by
  have whole := getModName_marked named.mod mark
  rw [getModName,getName_marked named.mod,← named.name] at whole
  exact whole

end Paths

variable {objects : Objects} {β : Type}

section Renaming
variable {s : State objects β} {i : Nat} {base : Text} {mark : Mark}

theorem setActive_eq (named : Named (s.modFiles i).file base mark) (notOld : mark ≠ .old)
    (present : s.directory.lookup (s.modFiles i).file ≠ none) (active : Bool) :
    s.setActive false i active =
      {s with
        directory := move (s.modFiles i).file (base ++ (shown active).suffix) s.directory
        modFiles := Function.update s.modFiles i ⟨base ++ (shown active).suffix,active⟩} := by
  have notOldFile : ModManager.isOld (s.modFiles i).file = false := by
    rw [named.isOld]
    exact decide_eq_false notOld
  have moved := LocalModFile.apply_present (.setActive active) false present
  have target : (LocalModFile.Request.setActive active).operation.target (s.modFiles i).file =
      base ++ (shown active).suffix := by
    rw [← activePath_eq named notOld active]
    cases active <;>
      rw [LocalModFile.Request.operation,Operation.target,if_neg (by simp [notOldFile])] <;> rfl
  rw [if_neg Bool.false_ne_true,target] at moved
  have changed : (s.modFiles i).setActive false active s.directory = _ := moved
  rw [State.setActive,changed]
  rfl

theorem setOld_eq (old : Bool) (present : s.directory.lookup (s.modFiles i).file ≠ none)
    (path : Text)
    (target : (if old then backupPath (s.modFiles i).file else restorePath (s.modFiles i).file) =
      path) :
    s.setOld false i old = some
      {s with
        directory := move (s.modFiles i).file path s.directory
        modFiles := Function.update s.modFiles i ⟨path,(s.modFiles i).active⟩
        localModFiles := if old then s.localModFiles.remove i else s.localModFiles.add i
        files := Function.update s.files (objects.mod i)
          (if old then (s.files (objects.mod i)).remove i else (s.files (objects.mod i)).add i)
        oldFiles := Function.update s.oldFiles (objects.mod i)
          (if old then (s.oldFiles (objects.mod i)).add i
            else (s.oldFiles (objects.mod i)).remove i)} := by
  have moved : ModManager.setOld false (s.modFiles i).file old s.directory =
      (some path,move (s.modFiles i).file path s.directory) := by
    rw [← target]
    cases old with
    | true => exact (if_neg present).trans (if_neg Bool.false_ne_true)
    | false => exact (if_neg present).trans (if_neg Bool.false_ne_true)
  rw [State.setOld,moved]
  rfl

theorem setActive_at {active : Bool} (held : s.modFiles i = ⟨base,active⟩)
    (plain : Named base base .plain) (present : s.directory.lookup base ≠ none) (wanted : Bool) :
    s.setActive false i wanted =
      {s with
        directory := move base (base ++ (shown wanted).suffix) s.directory
        modFiles := Function.update s.modFiles i ⟨base ++ (shown wanted).suffix,wanted⟩} := by
  have file : (s.modFiles i).file = base := by rw [held]
  have renamed := setActive_eq (file.symm ▸ plain) (by decide) (file.symm ▸ present) wanted
  rw [file] at renamed
  exact renamed

/-- No other file has the name of the mod, whatever its suffix. -/
def Alone (file base : Text) (directory : Directory β) : Prop :=
  ∀ name, directory.lookup name ≠ none → getModName name = base → name = file

theorem Alone.free {file base : Text} {directory : Directory β} (alone : Alone file base directory)
    (mod : modEndings.any (Text.endsWith base) = true) (mark : Mark) :
    base ++ mark.suffix = file ∨ directory.lookup (base ++ mark.suffix) = none := by
  by_cases absent : directory.lookup (base ++ mark.suffix) = none
  · exact .inr absent
  · exact .inl (alone _ absent (getModName_marked mod mark))

def backedUp (s : State objects β) (i : Nat) (base : Text) (directory : Directory β) :
    State objects β :=
  {s with
    directory
    modFiles := Function.update s.modFiles i ⟨base ++ Mark.old.suffix,true⟩
    localModFiles := s.localModFiles.remove i
    files := Function.update s.files (objects.mod i) ((s.files (objects.mod i)).remove i)
    oldFiles := Function.update s.oldFiles (objects.mod i) ((s.oldFiles (objects.mod i)).add i)}

/-- The current version is enabled and then made old. -/
theorem backup_eq (named : Named (s.modFiles i).file base mark) (notOld : mark ≠ .old)
    (present : s.directory.lookup (s.modFiles i).file ≠ none)
    (alone : Alone (s.modFiles i).file base s.directory) :
    ∃ directory, Shifted (s.modFiles i).file (base ++ Mark.old.suffix) s.directory directory ∧
      (s.setActive false i true).setOld false i true = some (backedUp s i base directory) := by
  have enabled := setActive_eq named notOld present true
  have first := shifted_move present (base ++ (shown true).suffix)
  have file : ((s.setActive false i true).modFiles i) = ⟨base ++ (shown true).suffix,true⟩ := by
    rw [enabled]
    exact Function.update_self _ _ _
  have here : (s.setActive false i true).directory.lookup
      ((s.setActive false i true).modFiles i).file ≠ none := by
    rw [file,enabled]
    exact (lookup_move_target present _).symm ▸ present
  have target : (if true then backupPath ((s.setActive false i true).modFiles i).file
      else restorePath ((s.setActive false i true).modFiles i).file) = base ++ Mark.old.suffix := by
    rw [if_pos rfl,file]
    exact backupPath_eq (named_marked named.mod (shown true))
  have backup := setOld_eq true here _ target
  rw [enabled] at here
  have second := shifted_move here (base ++ Mark.old.suffix)
  rw [← enabled,file,enabled] at second
  refine ⟨_,first.trans second (alone.free named.mod (shown true)),?_⟩
  rw [backup,file,enabled]
  simp only [if_true,Function.update_idem]
  rfl

/-- The old version is restored and takes over whether the mod is active. -/
theorem restore_eq {modFile : LocalModFile} (held : s.modFiles i = modFile)
    (named : Named modFile.file base .old) (present : s.directory.lookup modFile.file ≠ none)
    (alone : Alone modFile.file base s.directory) (active : Bool) :
    ∃ directory, Shifted modFile.file (base ++ (shown active).suffix) s.directory directory ∧
      (s.setOld false i false).map (State.setActive false i active) = some
        {s with
          directory
          modFiles := Function.update s.modFiles i ⟨base ++ (shown active).suffix,active⟩
          localModFiles := s.localModFiles.add i
          files := Function.update s.files (objects.mod i) ((s.files (objects.mod i)).add i)
          oldFiles := Function.update s.oldFiles (objects.mod i)
            ((s.oldFiles (objects.mod i)).remove i)} := by
  subst held
  have restored := setOld_eq false present base (restorePath_eq named)
  have first := shifted_move present base
  have plain : Named base base .plain := by
    have whole := named_marked named.mod .plain
    rwa [Mark.suffix,List.append_nil] at whole
  have free : base = (s.modFiles i).file ∨ s.directory.lookup base = none := by
    have whole := alone.free named.mod .plain
    rwa [Mark.suffix,List.append_nil] at whole
  have here : (move (s.modFiles i).file base s.directory).lookup base ≠ none :=
    (lookup_move_target present base).symm ▸ present
  have second := shifted_move here (base ++ (shown active).suffix)
  refine ⟨_,first.trans second free,?_⟩
  rw [restored,Option.map_some,Option.some_inj]
  have file : Function.update s.modFiles i ⟨base,(s.modFiles i).active⟩ i =
      ⟨base,(s.modFiles i).active⟩ := Function.update_self _ _ _
  refine (setActive_at file plain here active).trans ?_
  simp only [Bool.false_eq_true,if_false,Function.update_idem]

end Renaming

section Involution
variable {s : State objects β} {a b : Nat} {base base' : Text} {mark : Mark}

/-- What a rollback asks for, and that no other file is in its way. -/
structure Ready (s : State objects β) (a b : Nat) (base base' : Text) (mark : Mark) : Prop where
  loaded : s.loaded = true
  listed : s.localModFiles.contains a = true
  named : Named (s.modFiles a).file base mark
  notOld : mark ≠ .old
  namedOld : Named (s.modFiles b).file base' .old
  apart : base ≠ base'
  different : objects.fileName a ≠ objects.fileName b
  sameMod : objects.mod a = objects.mod b
  current : (s.files (objects.mod a)).contains a = true
  older : (s.oldFiles (objects.mod a)).contains b = true
  present : s.directory.lookup (s.modFiles a).file ≠ none
  presentOld : s.directory.lookup (s.modFiles b).file ≠ none
  alone : Alone (s.modFiles a).file base s.directory
  aloneOld : Alone (s.modFiles b).file base' s.directory

def rolledBack (s : State objects β) (a b : Nat) (base base' : Text) (directory : Directory β) :
    State objects β :=
  let active := (s.modFiles a).active
  let mod := objects.mod a
  {s with
    directory
    modFiles := Function.update (Function.update s.modFiles a ⟨base ++ Mark.old.suffix,true⟩) b
      ⟨base' ++ (shown active).suffix,active⟩
    localModFiles := (s.localModFiles.remove a).add b
    files := Function.update s.files mod (((s.files mod).remove a).add b)
    oldFiles := Function.update s.oldFiles mod (((s.oldFiles mod).add a).remove b)}

theorem Ready.ne (ready : Ready s a b base base' mark) : a ≠ b :=
  fun same => ready.different (congrArg objects.fileName same)

theorem Ready.modName_ne (ready : Ready s a b base base' mark) (mark' : Mark) :
    getModName (base ++ mark'.suffix) ≠ base' := by
  rw [getModName_marked ready.named.mod]
  exact ready.apart

theorem Ready.modName_ne' (ready : Ready s a b base base' mark) (mark' : Mark) :
    getModName (base' ++ mark'.suffix) ≠ base := by
  rw [getModName_marked ready.namedOld.mod]
  exact ready.apart.symm

theorem Ready.rolledBack_modFiles (ready : Ready s a b base base' mark) (directory : Directory β) :
    (rolledBack s a b base base' directory).modFiles a = ⟨base ++ Mark.old.suffix,true⟩ ∧
    (rolledBack s a b base base' directory).modFiles b =
      ⟨base' ++ (shown (s.modFiles a).active).suffix,(s.modFiles a).active⟩ :=
  ⟨(Function.update_of_ne ready.ne _ _).trans (Function.update_self _ _ _),
    Function.update_self _ _ _⟩

theorem key_ne (different : objects.fileName a ≠ objects.fileName b) : objects.key a ≠ objects.key b :=
  fun same => different (Text.codeUnits_injective same)

/-- Where two mods have different names their files do, whatever the suffixes are. -/
theorem file_ne {file file' : Text} {mark' : Mark} (named : Named file base mark)
    (named' : Named file' base' mark') (apart : base ≠ base') : file ≠ file' := by
  rintro rfl
  exact apart ((getModName_named named).symm.trans (getModName_named named'))

theorem Shifted.alone {source target file : Text} {directory directory' : Directory β}
    (shifted : Shifted source target directory directory') (alone : Alone file base directory)
    (other : getModName target ≠ base) : Alone file base directory' := by
  intro name present named
  apply alone name _ named
  by_cases there : name = target
  · exact absurd (there ▸ named) other
  · rw [shifted name,if_neg there] at present
    by_cases here : name = source
    · exact absurd (if_pos here) present
    · rwa [if_neg here] at present

theorem Shifted.alone_target {source target : Text} {directory directory' : Directory β}
    (shifted : Shifted source target directory directory') (alone : Alone source base directory) :
    Alone target base directory' := by
  intro name present named
  by_contra other
  rw [shifted name,if_neg other] at present
  by_cases here : name = source
  · exact present (if_pos here)
  · rw [if_neg here] at present
    exact here (alone name present named)

theorem rollback_ready (ready : Ready s a b base base' mark) (fails : Move → Bool) :
    rollback fails a b s =
      match (s.setActive (fails .enableFrom) a true).setOld (fails .backupFrom) a true with
      | none => (some .io,s.setActive (fails .enableFrom) a true)
      | some s' =>
        match s'.setOld (fails .restoreTo) b false with
        | none => (some .io,s')
        | some s'' => (none,s''.setActive (fails .invertTo) b (s.modFiles a).active) := by
  have notOld : s.isOld a = false := by
    rw [State.isOld,ready.named.isOld]
    exact decide_eq_false ready.notOld
  have old : s.isOld b = true := by
    rw [State.isOld,ready.namedOld.isOld]
    rfl
  simp only [rollback,ready.loaded,ready.listed,notOld,old,ready.different,ready.sameMod.symm,
    ready.current,ready.older,Bool.not_true,Bool.or_self,Bool.false_eq_true,if_false,ne_eq,not_true]

theorem rollback_eq (ready : Ready s a b base base' mark) :
    ∃ between directory,
      Shifted (s.modFiles a).file (base ++ Mark.old.suffix) s.directory between ∧
      Shifted (s.modFiles b).file (base' ++ (shown (s.modFiles a).active).suffix) between directory ∧
      rollback (fun _ => false) a b s = (none,rolledBack s a b base base' directory) := by
  obtain ⟨between,first,backup⟩ := backup_eq ready.named ready.notOld ready.present ready.alone
  have held : (backedUp s a base between).modFiles b = s.modFiles b :=
    Function.update_of_ne ready.ne.symm _ _
  have files := file_ne ready.namedOld ready.named ready.apart.symm
  have there : (s.modFiles b).file ≠ base ++ Mark.old.suffix :=
    file_ne ready.namedOld (named_marked ready.named.mod .old) ready.apart.symm
  have present : between.lookup (s.modFiles b).file ≠ none := by
    rw [first.other there files]
    exact ready.presentOld
  have alone := Shifted.alone first ready.aloneOld (ready.modName_ne .old)
  obtain ⟨directory,second,restored⟩ :=
    restore_eq held ready.namedOld present alone (s.modFiles a).active
  refine ⟨between,directory,first,second,?_⟩
  obtain ⟨s'',made,same⟩ := Option.map_eq_some_iff.mp restored
  rw [rollback_ready ready,backup]
  simp only [made,same]
  simp only [rolledBack,backedUp,← ready.sameMod,Function.update_self,Function.update_idem]

/-- After a rollback the other way round is open. -/
theorem Ready.again (ready : Ready s a b base base' mark) {between directory : Directory β}
    (first : Shifted (s.modFiles a).file (base ++ Mark.old.suffix) s.directory between)
    (second : Shifted (s.modFiles b).file (base' ++ (shown (s.modFiles a).active).suffix) between
      directory) :
    Ready (rolledBack s a b base base' directory) b a base' base (shown (s.modFiles a).active) := by
  obtain ⟨mod,modOld⟩ := And.intro ready.named.mod ready.namedOld.mod
  obtain ⟨heldA,heldB⟩ := ready.rolledBack_modFiles directory
  have there : base ++ Mark.old.suffix ≠ base' ++ (shown (s.modFiles a).active).suffix :=
    file_ne (named_marked mod _) (named_marked modOld _) ready.apart
  have here : base ++ Mark.old.suffix ≠ (s.modFiles b).file :=
    file_ne (named_marked mod _) ready.namedOld ready.apart
  have arrived : directory.lookup (base ++ Mark.old.suffix) =
      s.directory.lookup (s.modFiles a).file := by
    rw [second.other there here,first _,if_pos rfl]
  have arrivedOld : directory.lookup (base' ++ (shown (s.modFiles a).active).suffix) =
      s.directory.lookup (s.modFiles b).file := by
    rw [second _,if_pos rfl,first.other]
    · exact file_ne ready.namedOld (named_marked mod _) ready.apart.symm
    · exact file_ne ready.namedOld ready.named ready.apart.symm
  constructor
  case loaded => exact ready.loaded
  case listed => exact KeyedSet.contains_add_self _ _
  case named =>
    rw [heldB]
    exact named_marked modOld _
  case notOld => cases (s.modFiles a).active <;> decide
  case namedOld =>
    rw [heldA]
    exact named_marked mod .old
  case apart => exact ready.apart.symm
  case different => exact ready.different.symm
  case sameMod => exact ready.sameMod.symm
  case current =>
    rw [← ready.sameMod]
    have files : (rolledBack s a b base base' directory).files (objects.mod a) = _ :=
      Function.update_self _ _ _
    rw [files]
    exact KeyedSet.contains_add_self _ _
  case older =>
    rw [← ready.sameMod]
    have oldFiles : (rolledBack s a b base base' directory).oldFiles (objects.mod a) = _ :=
      Function.update_self _ _ _
    rw [oldFiles]
    exact KeyedSet.contains_remove_other (KeyedSet.contains_add_self _ _) (key_ne ready.different)
  case present =>
    rw [heldB]
    exact arrivedOld.symm ▸ ready.presentOld
  case presentOld =>
    rw [heldA]
    exact arrived.symm ▸ ready.present
  case alone =>
    rw [heldB]
    have alone := Shifted.alone first ready.aloneOld (ready.modName_ne .old)
    exact Shifted.alone_target second alone
  case aloneOld =>
    rw [heldA]
    exact Shifted.alone second (Shifted.alone_target first ready.alone) (ready.modName_ne' _)

/-- A current version of a mod and an old one; no two files have one name behind their suffixes. -/
structure Versions (s : State objects β) (a b : Nat) : Prop where
  loaded : s.loaded = true
  listed : a ∈ s.localModFiles
  sameMod : objects.mod a = objects.mod b
  current : a ∈ s.files (objects.mod a)
  notOlder : a ∉ s.oldFiles (objects.mod a)
  older : b ∈ s.oldFiles (objects.mod a)
  notCurrent : b ∉ s.files (objects.mod a)
  accepted : accepts (s.modFiles a).file = true
  acceptedOld : accepts (s.modFiles b).file = true
  notOld : s.isOld a = false
  old : s.isOld b = true
  present : s.directory.lookup (s.modFiles a).file ≠ none
  presentOld : s.directory.lookup (s.modFiles b).file ≠ none
  distinct : ∀ name ∈ s.directory.keys, ∀ name' ∈ s.directory.keys,
    getModName name = getModName name' → name = name'

structure Restored (s s' : State objects β) (a b : Nat) : Prop where
  directory : ∀ name, s'.directory.lookup name = s.directory.lookup name
  modFiles : s'.modFiles = s.modFiles
  current : ∀ i, i = a ∨ i = b →
    (i ∈ s'.files (objects.mod i) ↔ i ∈ s.files (objects.mod i))
  older : ∀ i, i = a ∨ i = b →
    (i ∈ s'.oldFiles (objects.mod i) ↔ i ∈ s.oldFiles (objects.mod i))

/-- Both flags say what the names say, and no name ends with a path separator; or the names are
equal, and nothing is done. -/
def Invertible (s : State objects β) (a b : Nat) : Prop :=
  objects.fileName a = objects.fileName b ∨
    FileUtils.getName (s.modFiles a).file = (s.modFiles a).file ∧
    FileUtils.getName (s.modFiles b).file = (s.modFiles b).file ∧
    (s.modFiles a).active = !isDisabled (s.modFiles a).file ∧ (s.modFiles b).active = true

theorem rollback_sameName (same : objects.fileName a = objects.fileName b) (fails : Move → Bool)
    (s : State objects β) : (rollback fails a b s).2 = s := by
  rw [rollback,if_pos same]
  split_ifs <;> rfl

theorem Versions.ready (versions : Versions s a b)
    (different : objects.fileName a ≠ objects.fileName b) :
    ∃ base base' mark, Ready s a b base base' mark := by
  obtain ⟨base,mark,named⟩ := named_of_accepts versions.accepted
  obtain ⟨base',mark',namedOld⟩ := named_of_accepts versions.acceptedOld
  have notOld : mark ≠ .old := by
    have plain := versions.notOld
    rw [State.isOld,named.isOld] at plain
    exact of_decide_eq_false plain
  obtain rfl : mark' = .old := by
    have old := versions.old
    rw [State.isOld,namedOld.isOld] at old
    exact of_decide_eq_true old
  have key : ∀ {name}, s.directory.lookup name ≠ none → name ∈ s.directory.keys := by
    intro name present
    by_contra absent
    exact present (AList.lookup_eq_none.mpr fun member => absent (AList.mem_keys.mp member))
  have apart : base ≠ base' := by
    rintro rfl
    have same := versions.distinct _ (key versions.present) _ (key versions.presentOld)
      ((getModName_named named).trans (getModName_named namedOld).symm)
    have old := versions.old
    rw [State.isOld,← same] at old
    exact absurd (versions.notOld.symm.trans old) (by decide)
  have alone : ∀ {file base mark}, Named file base mark → s.directory.lookup file ≠ none →
      Alone file base s.directory := by
    intro file base mark named present name there same
    exact versions.distinct _ (key there) _ (key present) (same.trans (getModName_named named).symm)
  exact ⟨base,base',mark,{
    loaded := versions.loaded
    listed := KeyedSet.contains_of_mem versions.listed
    named := named
    notOld := notOld
    namedOld := namedOld
    apart := apart
    different := different
    sameMod := versions.sameMod
    current := KeyedSet.contains_of_mem versions.current
    older := KeyedSet.contains_of_mem versions.older
    present := versions.present
    presentOld := versions.presentOld
    alone := alone named versions.present
    aloneOld := alone namedOld versions.presentOld}⟩

/-- What two rollbacks leave. -/
theorem rollback_twice (ready : Ready s a b base base' mark) :
    ∃ between there back directory,
      Shifted (s.modFiles a).file (base ++ Mark.old.suffix) s.directory between ∧
      Shifted (s.modFiles b).file (base' ++ (shown (s.modFiles a).active).suffix) between there ∧
      Shifted (base' ++ (shown (s.modFiles a).active).suffix) (base' ++ Mark.old.suffix) there back ∧
      Shifted (base ++ Mark.old.suffix) (base ++ (shown (s.modFiles a).active).suffix) back
        directory ∧
      (rollback (fun _ => false) b a (rollback (fun _ => false) a b s).2).2 =
        rolledBack (rolledBack s a b base base' there) b a base' base directory := by
  obtain ⟨between,there,first,second,done⟩ := rollback_eq ready
  obtain ⟨back,directory,third,fourth,undone⟩ := rollback_eq (ready.again first second)
  obtain ⟨heldA,heldB⟩ := ready.rolledBack_modFiles there
  rw [heldB] at third
  rw [heldA,heldB] at fourth
  refine ⟨between,there,back,directory,first,second,third,fourth,?_⟩
  rw [done,undone]

theorem rolledBack_twice_modFiles (ready : Ready s a b base base' mark)
    (there directory : Directory β) :
    (rolledBack (rolledBack s a b base base' there) b a base' base directory).modFiles =
      Function.update (Function.update s.modFiles b ⟨base' ++ Mark.old.suffix,true⟩) a
        ⟨base ++ (shown (s.modFiles a).active).suffix,(s.modFiles a).active⟩ := by
  funext i
  simp only [rolledBack]
  by_cases isA : i = a
  · subst isA
    rw [Function.update_self,Function.update_self,Function.update_self]
  · rw [Function.update_of_ne isA,Function.update_of_ne isA]
    by_cases isB : i = b
    · subst isB
      rw [Function.update_self,Function.update_self]
    · rw [Function.update_of_ne isB,Function.update_of_ne isB,Function.update_of_ne isB,
        Function.update_of_ne isA]

theorem rolledBack_twice_sets (ready : Ready s a b base base' mark) (versions : Versions s a b)
    (there directory : Directory β) (i : Nat) (either : i = a ∨ i = b) :
    (i ∈ (rolledBack (rolledBack s a b base base' there) b a base' base directory).files
      (objects.mod i) ↔ i ∈ s.files (objects.mod i)) ∧
    (i ∈ (rolledBack (rolledBack s a b base base' there) b a base' base directory).oldFiles
      (objects.mod i) ↔ i ∈ s.oldFiles (objects.mod i)) := by
  have same : objects.mod i = objects.mod a := by
    rcases either with rfl | rfl
    · rfl
    · exact ready.sameMod.symm
  have keys := key_ne ready.different
  rw [same]
  simp only [rolledBack,← ready.sameMod,Function.update_self]
  have readded : b ∈ ((((s.oldFiles (objects.mod a)).add a).remove b).add b).remove a := by
    refine KeyedSet.mem_remove.mpr ⟨KeyedSet.mem_add.mpr (.inr ⟨rfl,?_⟩),keys.symm⟩
    exact KeyedSet.fresh_remove _ b
  rcases either with rfl | rfl
  · exact ⟨iff_of_true (KeyedSet.mem_readded _ keys) versions.current,
      iff_of_false (KeyedSet.not_mem_remove _ _) versions.notOlder⟩
  · exact ⟨iff_of_false (KeyedSet.not_mem_readded _ keys) versions.notCurrent,
      iff_of_true readded versions.older⟩

theorem rollback_rollback_iff (versions : Versions s a b) :
    Restored s (rollback (fun _ => false) b a (rollback (fun _ => false) a b s).2).2 a b ↔
      Invertible s a b := by
  by_cases same : objects.fileName a = objects.fileName b
  · refine iff_of_true ?_ (.inl same)
    rw [rollback_sameName same,rollback_sameName same.symm]
    exact ⟨fun _ => rfl,rfl,fun _ _ => Iff.rfl,fun _ _ => Iff.rfl⟩
  · obtain ⟨base,base',mark,ready⟩ := versions.ready same
    obtain ⟨between,there,back,directory,first,second,third,fourth,done⟩ := rollback_twice ready
    have modFiles := rolledBack_twice_modFiles ready there directory
    have sets := rolledBack_twice_sets ready versions there directory
    rw [done,Invertible,or_iff_right same]
    constructor
    · intro restored
      have whole := modFiles.symm.trans restored.modFiles
      have heldA := congrFun whole a
      have heldB := congrFun whole b
      rw [Function.update_self] at heldA
      rw [Function.update_of_ne ready.ne.symm,Function.update_self] at heldB
      have fileA := congrArg LocalModFile.file heldA
      have fileB := congrArg LocalModFile.file heldB
      have flagB := congrArg LocalModFile.active heldB
      refine ⟨?_,?_,?_,flagB.symm⟩
      · rw [← fileA]
        exact getName_marked ready.named.mod _
      · rw [← fileB]
        exact getName_marked ready.namedOld.mod _
      · rw [← fileA,(named_marked ready.named.mod (shown (s.modFiles a).active)).isDisabled]
        cases (s.modFiles a).active <;> rfl
    · rintro ⟨wholeA,wholeB,flagA,flagB⟩
      have fileA : base ++ (shown (s.modFiles a).active).suffix = (s.modFiles a).file := by
        rw [← wholeA,ready.named.name,flagA,ready.named.isDisabled]
        have notOld := ready.notOld
        cases mark with
        | plain => rfl
        | disabled => rfl
        | old => exact absurd rfl notOld
      have fileB : base' ++ Mark.old.suffix = (s.modFiles b).file := by
        rw [← wholeB,ready.namedOld.name]
      refine ⟨?_,?_,fun i either => (sets i either).1,fun i either => (sets i either).2⟩
      · rw [fileB] at third
        rw [fileA] at fourth
        have aloneOld := Shifted.alone first ready.aloneOld (ready.modName_ne .old)
        have undone := second.back third (aloneOld.free ready.namedOld.mod _)
        exact first.back (fourth.congr undone) (ready.alone.free ready.named.mod .old)
      · rw [modFiles,fileA,fileB,← flagB]
        rw [Function.update_eq_self,Function.update_eq_self]

def twoVersions : Objects := ⟨fun i => if i = 0 then ("foo-2":String) else ("foo-1":String),fun _ => 0⟩

/-- The flag of the old version is that of an update that replaced a disabled mod. -/
def updated (active : Bool) : State twoVersions Nat where
  directory := List.toAList [⟨("foo-2.jar":String),2⟩,⟨("foo-1.jar.old":String),1⟩]
  modFiles i := if i = 0 then ⟨("foo-2.jar":String),true⟩ else ⟨("foo-1.jar.old":String),active⟩
  loaded := true
  localModFiles := KeyedSet.empty.add 0
  files _ := KeyedSet.empty.add 0
  oldFiles _ := KeyedSet.empty.add 1

theorem updated_versions (active : Bool) : Versions (updated active) 0 1 where
  loaded := rfl
  listed := List.mem_singleton_self 0
  sameMod := rfl
  current := List.mem_singleton_self 0
  notOlder := by
    intro member
    cases List.mem_singleton.mp member
  older := List.mem_singleton_self 1
  notCurrent := by
    intro member
    cases List.mem_singleton.mp member
  accepted := by cases active <;> decide
  acceptedOld := by cases active <;> decide
  notOld := by cases active <;> decide
  old := by cases active <;> decide
  present := by cases active <;> decide
  presentOld := by cases active <;> decide
  distinct := by cases active <;> decide

theorem rollback_rollback_iff_updated :
    Restored (updated true) (rollback (fun _ => false) 1 0
      (rollback (fun _ => false) 0 1 (updated true)).2).2 0 1 ↔ Invertible (updated true) 0 1 :=
  rollback_rollback_iff (updated_versions true)

theorem old_flag_not_restored :
    ¬∀ (objects : Objects) (s : State objects Nat) (a b : Nat), Versions s a b →
      Restored s (rollback (fun _ => false) b a (rollback (fun _ => false) a b s).2).2 a b := by
  intro every
  have restored := every twoVersions (updated false) 0 1 (updated_versions false)
  have flag := congrArg LocalModFile.active (congrFun restored.modFiles 1)
  revert flag
  decide

end Involution

end HmclPe.Mods.Rollback
