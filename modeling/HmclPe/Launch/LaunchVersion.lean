import HmclPe.Java.File
import HmclPe.Launch.ClassPath
import HmclPe.Game.Version

/-! The launcher's own reader of version files. A null dereference ends it. -/
namespace HmclPe.Launch
open HmclPe.Java HmclPe.Game HmclPe.Launch.ClassPath

structure LaunchVersion where
  assetIndex : Option AssetIndexInfo
  assets : Option Text
  downloads : Option (List (DownloadType × DownloadInfo))
  id : Option Text
  libraries : Option (List LibraryEntry)
  mainClass : Option Text
  minecraftArguments : Option Text
  minimumLauncherVersion : Int
  releaseTime : Option Text
  time : Option Text
  type : Option Text
  arguments : Option Arguments
  inheritsFrom : Option Text
  minecraftPath : Text

namespace LaunchVersion

/-- A field of the child counts when it is there and not empty. -/
def override (self result : Option Text) : Option Text :=
  match self with
  | none => result
  | some [] => result
  | some (c :: cs) => some (c :: cs)

def putAll {κ α : Type} [DecidableEq κ] (map entries : List (κ × α)) : List (κ × α) :=
  entries.foldl (fun map e => map.filter (fun f => f.1 ≠ e.1) ++ [e]) map

def inheritDownloads (self result : Option (List (DownloadType × DownloadInfo))) :
    Option (List (DownloadType × DownloadInfo)) :=
  match self with
  | none => result
  | some [] => result
  | some (e :: es) => some (putAll (result.getD []) (e :: es))

/-- The outer option is the null dereference. -/
def inheritLibraries (self result : Option (List LibraryEntry)) :
    Option (Option (List LibraryEntry)) :=
  match self with
  | none => some result
  | some [] => some result
  | some (lib :: libs) => do
    let libraries ← result
    return some (lib :: libs ++ libraries)

def inheritArguments (minimumLauncherVersion : Int) (self result : Option Arguments) :
    Option (Option Arguments) :=
  if 21 ≤ minimumLauncherVersion then do
    let own ← self
    match own.game with
    | none => return result
    | some [] => return result
    | some (arg :: args) => do
      let arguments ← result
      let game ← arguments.game
      return some { arguments with game := some (arg :: args ++ game) }
  else some result

/-- What a version file makes of the version it inherits from. -/
def inherit (self result : LaunchVersion) : Option LaunchVersion := do
  let libraries ← inheritLibraries self.libraries result.libraries
  let minimumLauncherVersion := max self.minimumLauncherVersion result.minimumLauncherVersion
  let arguments ← inheritArguments minimumLauncherVersion self.arguments result.arguments
  return {
    assetIndex := self.assetIndex.or result.assetIndex
    assets := override self.assets result.assets
    downloads := inheritDownloads self.downloads result.downloads
    id := result.id
    libraries := libraries
    mainClass := override self.mainClass result.mainClass
    minecraftArguments := override self.minecraftArguments result.minecraftArguments
    minimumLauncherVersion := minimumLauncherVersion
    releaseTime := override self.releaseTime result.releaseTime
    time := override self.time result.time
    type := override self.type result.type
    arguments := arguments
    inheritsFrom := result.inheritsFrom
    minecraftPath := if self.minecraftPath = [] then result.minecraftPath else self.minecraftPath }

/-- Reads a version directory and those it inherits from. `read` answers the parsed file of a
directory, `jarPath` the path of its jar or an empty text, and `parent` the directory that one
inherits from under a name. -/
def fromDirectory {δ : Type} (read : δ → Option LaunchVersion) (jarPath : δ → Text)
    (parent : δ → Text → δ) : Nat → δ → Option LaunchVersion
  | 0, _ => none
  | fuel + 1, file => do
    let result ← read file
    let result := { result with minecraftPath := jarPath file }
    match result.inheritsFrom with
    | none => return result
    | some [] => return result
    | some (c :: cs) => do
      let above ← fromDirectory read jarPath parent fuel (parent file (c :: cs))
      inherit result above

/-- `new File(file.getParentFile(), name)` -/
def parentFile (file : File) (name : Text) : File := File.child file.getParentFile name

/-- Version directories that are known by their names, as the entries of one directory. -/
def byName (_ name : Text) : Text := name

theorem parentFile_entry {directory id name : Text} (some_ : directory ≠ [])
    (below : directory ≠ ['/']) (named : name ≠ []) (plain : '/' ∉ id) (plain' : '/' ∉ name) :
    parentFile (.entry directory id) name = .entry directory name := by
  rw [parentFile,File.getParentFile_entry some_ plain,File.child_entry some_ below named plain']

/-- The entries of one directory are read by their names, if these have no slash. -/
theorem fromDirectory_entries {directory : Text} (some_ : directory ≠ [])
    (below : directory ≠ ['/']) {read : File → Option LaunchVersion} (jarPath : File → Text)
    (plain : ∀ file version name, read file = some version → version.inheritsFrom = some name →
      '/' ∉ name) (fuel : Nat) {id : Text} (named : '/' ∉ id) :
    fromDirectory read jarPath parentFile fuel (.entry directory id) =
      fromDirectory (fun id => read (.entry directory id)) (fun id => jarPath (.entry directory id))
        byName fuel id := by
  induction fuel generalizing id with
  | zero => rfl
  | succ fuel ih =>
    rw [fromDirectory,fromDirectory]
    cases found : read (.entry directory id) with
    | none => rfl
    | some version =>
      cases link : version.inheritsFrom with
      | none => simp [link]
      | some name =>
        cases name with
        | nil => simp [link]
        | cons c cs =>
          have plain' := plain _ version _ found link
          have same := parentFile_entry some_ below (List.cons_ne_nil c cs) named plain'
          simp [link,same,ih plain',byName]

end LaunchVersion

end HmclPe.Launch
