import HmclPe.Java.Text

/-! Maven artifacts, compatibility rules and libraries of a version file. -/
namespace HmclPe.Game
open HmclPe.Java

inductive OperatingSystem where
  | windows | linux | osx | unknown
  deriving DecidableEq, Repr

/-- What the code reads of the device it runs on. The two matchers answer whether a
regular expression matches the system version or architecture; `none` is a
pattern that does not compile. -/
structure Platform where
  currentOS : OperatingSystem
  systemArchBits : Text
  matchesSystemVersion : Text → Option Bool
  matchesSystemArch : Text → Option Bool

/-- A 64-bit device on which no pattern matches. -/
def Platform.arm64 : Platform where
  currentOS := .linux
  systemArchBits := ("64" : String)
  matchesSystemVersion _ := some false
  matchesSystemArch _ := some false

structure Artifact where
  group : Text
  name : Text
  version : Text
  classifier : Option Text
  extension : Text
  deriving DecidableEq, Repr

namespace Artifact

/-- The constructor: a missing extension is `jar`. -/
def make (group name version : Text) (classifier : Option Text) (extension : Option Text) : Artifact :=
  ⟨group,name,version,classifier,extension.getD ("jar" : String)⟩

def fileName (a : Artifact) : Text :=
  a.name ++ '-' :: a.version ++ (match a.classifier with
    | some classifier => '-' :: classifier
    | none => []) ++ '.' :: a.extension

def path (a : Artifact) : Text :=
  a.group.replaceChar '.' '/' ++ '/' :: a.name ++ '/' :: a.version ++ '/' :: a.fileName

/-- `toString`: group:name:version:classifier@extension. -/
def descriptor (a : Artifact) : Text :=
  a.group ++ ':' :: a.name ++ ':' :: a.version ++ (match a.classifier with
    | some classifier => ':' :: classifier
    | none => []) ++ (if a.extension = ("jar" : String) then [] else '@' :: a.extension)

def setClassifier (a : Artifact) (classifier : Option Text) : Artifact := { a with classifier }

/-- Cuts an extension from the last part of a descriptor; `none` is the exception
for a malformed name. -/
def cutExtension (last : Text) : Option (Text × Option Text) :=
  match last.split '@' with
  | [before,ext] => some (before,some ext)
  | _ :: _ :: _ :: _ => none
  | _ => some (last,none)

def fromDescriptor (descriptor : Text) : Option Artifact :=
  match descriptor.splitLimit ':' 4 with
  | [group,name,version] => do
    let (version,ext) ← cutExtension version
    return make (group.replaceChar '\\' '/') name version none ext
  | [group,name,version,classifier] => do
    let (classifier,ext) ← cutExtension classifier
    return make (group.replaceChar '\\' '/') name version (some classifier) ext
  | _ => none

end Artifact

inductive Action where
  | allow | disallow
  deriving DecidableEq, Repr

structure OSRestriction where
  name : Option OperatingSystem
  version : Option Text
  arch : Option Text
  deriving DecidableEq, Repr

/-- A restriction whose pattern does not compile never excludes. -/
def OSRestriction.allow (env : Platform) (os : OSRestriction) : Bool :=
  if os.name ≠ some .unknown ∧ os.name ≠ some env.currentOS then false
  else if (os.version.bind env.matchesSystemVersion) = some false then false
  else match os.arch with
    | some arch => env.matchesSystemArch arch ≠ some false
    | none => true

structure CompatibilityRule where
  action : Option Action
  os : Option OSRestriction
  features : Option (List (Text × Bool))
  deriving DecidableEq, Repr

namespace CompatibilityRule

def getAppliedAction (env : Platform) (rule : CompatibilityRule)
    (supportedFeatures : List (Text × Bool)) : Option Action :=
  if rule.os.any (fun os => !os.allow env) then none
  else if (rule.features.getD []).any (fun entry => List.lookup entry.1 supportedFeatures ≠ some entry.2)
  then none
  else rule.action

/-- The last rule that applies decides; without rules everything is allowed. -/
def appliesToCurrentEnvironment (env : Platform) (rules : Option (List CompatibilityRule))
    (features : List (Text × Bool)) : Bool :=
  match rules with
  | none => true
  | some [] => true
  | some rules =>
    rules.foldl (fun action rule => (rule.getAppliedAction env features).getD action) Action.disallow
      = Action.allow

end CompatibilityRule

structure LibraryDownloadInfo where
  path : Option Text
  url : Option Text
  sha1 : Option Text
  size : Int
  deriving DecidableEq, Repr

/-- `DownloadInfo.getSha1`: the word "invalid" stands for no digest. -/
def LibraryDownloadInfo.getSha1 (info : LibraryDownloadInfo) : Option Text :=
  if info.sha1 = some ("invalid" : String) then none else info.sha1

structure LibrariesDownloadInfo where
  artifact : Option LibraryDownloadInfo
  classifiers : List (Text × LibraryDownloadInfo)
  deriving DecidableEq, Repr

structure Library where
  artifact : Artifact
  url : Option Text
  downloads : Option LibrariesDownloadInfo
  extract : Option (List Text)
  natives : Option (List (OperatingSystem × Text))
  rules : Option (List CompatibilityRule)
  checksums : Option (List Text)
  hint : Option Text
  fileName : Option Text
  deriving DecidableEq, Repr

namespace Library

/-- The constructor for a library known by its artifact only. -/
def ofArtifact (artifact : Artifact) : Library :=
  ⟨artifact,none,none,none,none,none,none,none,none⟩

def getGroupId (lib : Library) : Text := lib.artifact.group
def getArtifactId (lib : Library) : Text := lib.artifact.name
def getVersion (lib : Library) : Text := lib.artifact.version
def getName (lib : Library) : Text := lib.artifact.descriptor

variable (env : Platform)

def getClassifier (lib : Library) : Option Text :=
  match lib.artifact.classifier with
  | some classifier => some classifier
  | none => (lib.natives.bind (List.lookup env.currentOS)).map
      (Text.replace ("${arch}" : String) env.systemArchBits)

def isNative (lib : Library) : Bool :=
  lib.natives.isSome && CompatibilityRule.appliesToCurrentEnvironment env lib.rules []

def getRawDownloadInfo (lib : Library) : Option LibraryDownloadInfo :=
  match lib.downloads with
  | none => none
  | some downloads =>
    if lib.isNative env then (lib.getClassifier env).bind (List.lookup · downloads.classifiers)
    else downloads.artifact

def getPath (lib : Library) : Text :=
  match (lib.getRawDownloadInfo env).bind (·.path) with
  | some path => path
  | none => (lib.artifact.setClassifier (lib.getClassifier env)).path

/-- `Library.equals`: the printed descriptor and nativeness, nothing else. -/
def equals (a b : Library) : Bool := a.getName = b.getName && a.isNative env == b.isNative env

end Library

end HmclPe.Game
