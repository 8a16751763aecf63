import HmclPe.Java.Text
import HmclPe.Lib.Moving
import HmclPe.Lib.Runs

/-! The mods directory: file names and contents, and the operations that put the suffixes of
disabled and old mods on a name and take them off. A move that fails leaves the files as they are. -/
namespace HmclPe.Mods
open HmclPe.Java HmclPe.Lib.Moving HmclPe.Lib.Runs

def StringUtils.addSuffix (str suffix : Text) : Text :=
  if Text.endsWith str suffix then str else str ++ suffix

/-- Takes off the first of the suffixes that the text ends with. -/
def StringUtils.removeSuffix (str : Text) : List Text → Text
  | [] => str
  | suffix :: suffixes =>
    if Text.endsWith str suffix then str.take (str.length - suffix.length)
    else removeSuffix str suffixes

/-- All of a text without the delimiter. -/
def StringUtils.substringBeforeLast (str : Text) (delimiter : Char) : Text :=
  if List.contains str delimiter then (str.rdropWhile (· ≠ delimiter)).dropLast else str

/-- Nothing of a text without the delimiter. -/
def StringUtils.substringAfterLast (str : Text) (delimiter : Char) : Text :=
  if List.contains str delimiter then str.rtakeWhile (· ≠ delimiter) else []

def FileUtils.getName (file : Text) : Text :=
  StringUtils.removeSuffix file [("/" : String),("\\" : String)]

def FileUtils.getNameWithoutExtension (fileName : Text) : Text :=
  StringUtils.substringBeforeLast fileName '.'

def FileUtils.getExtension (file : Text) : Text :=
  StringUtils.substringAfterLast (FileUtils.getName file) '.'

abbrev Directory (β : Type) := Store Text β

namespace ModManager

def disabledExtension : Text := (".disabled" : String)
def oldExtension : Text := (".old" : String)

def isOld (file : Text) : Bool := Text.endsWith (FileUtils.getName file) oldExtension

def isDisabled (file : Text) : Bool := Text.endsWith (FileUtils.getName file) disabledExtension

def getModName (file : Text) : Text :=
  StringUtils.removeSuffix (FileUtils.getName file) [disabledExtension,oldExtension]

def modEndings : List Text := [(".zip" : String),(".jar" : String),(".litemod" : String)]

/-- The files that `getModInfo` does not turn down. -/
def accepts (file : Text) : Bool := modEndings.any (Text.endsWith (getModName file))

variable {β : Type}

/-- The files `refreshMods` lists. -/
def refreshMods (directory : Directory β) : List Text := directory.keys.filter accepts

def backupPath (file : Text) : Text :=
  StringUtils.addSuffix (StringUtils.removeSuffix (FileUtils.getName file) [disabledExtension])
    oldExtension

def restorePath (file : Text) : Text :=
  StringUtils.removeSuffix (FileUtils.getName file) [oldExtension]

def disabledPath (file : Text) : Text :=
  StringUtils.addSuffix (FileUtils.getName file) disabledExtension

def enabledPath (file : Text) : Text :=
  StringUtils.removeSuffix (FileUtils.getName file) [disabledExtension]

/-- The new path, or the exception of a move that fails; a file that is missing is not moved. -/
def moveIfExists (fails : Bool) (file newPath : Text) (directory : Directory β) :
    Option Text × Directory β :=
  if directory.lookup file = none then (some newPath,directory)
  else if fails then (none,directory)
  else (some newPath,move file newPath directory)

def backupMod (fails : Bool) (file : Text) (directory : Directory β) : Option Text × Directory β :=
  moveIfExists fails file (backupPath file) directory

def restoreMod (fails : Bool) (file : Text) (directory : Directory β) : Option Text × Directory β :=
  moveIfExists fails file (restorePath file) directory

def setOld (fails : Bool) (file : Text) (old : Bool) (directory : Directory β) :
    Option Text × Directory β :=
  if old then backupMod fails file directory else restoreMod fails file directory

def disableMod (fails : Bool) (file : Text) (directory : Directory β) : Option Text × Directory β :=
  if isOld file then (some file,directory) else moveIfExists fails file (disabledPath file) directory

def enableMod (fails : Bool) (file : Text) (directory : Directory β) : Option Text × Directory β :=
  if isOld file then (some file,directory) else moveIfExists fails file (enabledPath file) directory

inductive Operation where
  | disableMod | enableMod | backupMod | restoreMod
  | setOld (old : Bool)
  deriving DecidableEq, Repr

structure Call where
  operation : Operation
  file : Text
  fails : Bool
  deriving DecidableEq, Repr

def Operation.apply (fails : Bool) (file : Text) (directory : Directory β) :
    Operation → Option Text × Directory β
  | .disableMod => ModManager.disableMod fails file directory
  | .enableMod => ModManager.enableMod fails file directory
  | .backupMod => ModManager.backupMod fails file directory
  | .restoreMod => ModManager.restoreMod fails file directory
  | .setOld old => ModManager.setOld fails file old directory

def Call.run (call : Call) (directory : Directory β) : Directory β :=
  (call.operation.apply call.fails call.file directory).2

def runCalls (directory : Directory β) (calls : List Call) : Directory β :=
  calls.foldl (fun directory call => call.run directory) directory

/-- The name an operation asks for; an old mod is neither disabled nor enabled. -/
def Operation.target (file : Text) : Operation → Text
  | .disableMod => if isOld file then file else disabledPath file
  | .enableMod => if isOld file then file else enabledPath file
  | .backupMod => backupPath file
  | .restoreMod => restorePath file
  | .setOld old => if old then backupPath file else restorePath file

theorem moveIfExists_directory (fails : Bool) (file newPath : Text) (directory : Directory β) :
    (moveIfExists fails file newPath directory).2 =
      if fails then directory else move file newPath directory := by
  rw [moveIfExists]
  by_cases absent : directory.lookup file = none
  · rw [if_pos absent,move_absent absent,ite_self]
  · rw [if_neg absent]
    cases fails <;> rfl

/-- Every operation is one move to the name it asks for. -/
theorem run_eq_move (call : Call) (directory : Directory β) :
    call.run directory =
      if call.fails then directory
      else move call.file (call.operation.target call.file) directory := by
  obtain ⟨operation,file,fails⟩ := call
  have skipped : directory = if fails then directory else move file file directory := by
    rw [move_same,ite_self]
  cases operation with
  | disableMod =>
    simp only [Call.run,Operation.apply,Operation.target,disableMod]
    cases isOld file with
    | true => exact skipped
    | false => exact moveIfExists_directory fails file _ directory
  | enableMod =>
    simp only [Call.run,Operation.apply,Operation.target,enableMod]
    cases isOld file with
    | true => exact skipped
    | false => exact moveIfExists_directory fails file _ directory
  | backupMod => exact moveIfExists_directory fails file _ directory
  | restoreMod => exact moveIfExists_directory fails file _ directory
  | setOld old => cases old <;> exact moveIfExists_directory fails file _ directory

/-- No other file stands where the call moves its file to. -/
def Call.Unobstructed (call : Call) (directory : Directory β) : Prop :=
  call.fails = true ∨ Clear call.file (call.operation.target call.file) directory

theorem keeps_run_iff (call : Call) (directory : Directory β) :
    Keeps call.file directory (call.run directory) ↔ call.Unobstructed directory := by
  rw [run_eq_move,Call.Unobstructed]
  cases call.fails with
  | true => simp [Keeps]
  | false => simpa using keeps_move_iff _ _ directory

theorem card_run_le (call : Call) (directory : Directory β) :
    (contents (call.run directory)).card ≤ (contents directory).card := by
  rw [run_eq_move]
  cases call.fails with
  | true => exact Nat.le_refl _
  | false => exact card_move_le _ _ directory

theorem card_runCalls_le (calls : List Call) (directory : Directory β) :
    (contents (runCalls directory calls)).card ≤ (contents directory).card := by
  induction calls generalizing directory with
  | nil => exact Nat.le_refl _
  | cons call calls ih => exact (ih (call.run directory)).trans (card_run_le call directory)

/-- Each call renames its own file or leaves the directory unchanged, and keeps all contents. -/
def KeepsMods (directory : Directory β) (calls : List Call) : Prop :=
  Along (fun directory call => Call.run call directory)
    (fun directory call => Keeps call.file directory (call.run directory)) directory calls

def Unobstructed (directory : Directory β) (calls : List Call) : Prop :=
  Along (fun directory call => Call.run call directory)
    (fun directory call => call.Unobstructed directory) directory calls

theorem keepsMods_iff (calls : List Call) (directory : Directory β) :
    KeepsMods directory calls ↔ Unobstructed directory calls :=
  along_congr (fun directory call => keeps_run_iff call directory) directory calls

theorem contents_runCalls {calls : List Call} {directory : Directory β}
    (keeps : KeepsMods directory calls) :
    contents (runCalls directory calls) = contents directory := by
  induction calls generalizing directory with
  | nil => rfl
  | cons call calls ih => exact (ih keeps.2).trans keeps.1.2

/-- What was lost does not come back. -/
theorem unobstructed_of_card {calls : List Call} {directory : Directory β}
    (kept : (contents (runCalls directory calls)).card = (contents directory).card) :
    Unobstructed directory calls := by
  induction calls generalizing directory with
  | nil => exact True.intro
  | cons call calls ih =>
    have later := card_runCalls_le calls (call.run directory)
    have here := card_run_le call directory
    rw [show runCalls directory (call :: calls) = runCalls (call.run directory) calls from rfl]
      at kept
    have stays : (contents (call.run directory)).card = (contents directory).card := by omega
    have unobstructed : call.Unobstructed directory := by
      rw [run_eq_move] at stays
      cases fails : call.fails with
      | true => exact .inl fails
      | false =>
        rw [fails] at stays
        exact .inr ((card_move_iff _ _ directory).mp stays)
    exact ⟨unobstructed,ih (kept.trans stays.symm)⟩

/-- No mod is lost, at any call or in the end, exactly where no call finds another file at the
name it asks for. -/
theorem keepsMods_iff_unobstructed (directory : Directory β) (calls : List Call) :
    (KeepsMods directory calls ↔ Unobstructed directory calls) ∧
      (contents (runCalls directory calls) = contents directory ↔
        Unobstructed directory calls) := by
  refine ⟨keepsMods_iff calls directory,?_,?_⟩
  · intro kept
    exact unobstructed_of_card (congrArg Multiset.card kept)
  · intro unobstructed
    exact contents_runCalls ((keepsMods_iff calls directory).mpr unobstructed)

def enabledAndDisabled : Directory Nat :=
  List.toAList [⟨("foo.jar" : String),1⟩,⟨("foo.jar.disabled" : String),2⟩]

theorem disabled_file_lost :
    ¬∀ (directory : Directory Nat) (calls : List Call),
      (∀ call ∈ calls, call.file ∈ refreshMods directory ∧ call.fails = false) →
        contents (runCalls directory calls) = contents directory := by
  intro every
  have kept := every enabledAndDisabled [⟨.disableMod,("foo.jar" : String),false⟩] (by decide)
  revert kept
  decide

end ModManager

end HmclPe.Mods
