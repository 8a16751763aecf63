import HmclPe.Game.Library

/-! Version files and patches: every field the setters, the patch list and the
resolver of a version read or write. -/
namespace HmclPe.Game
open HmclPe.Java

structure RuledArgument where
  rules : Option (List CompatibilityRule)
  value : Option (List Text)
  deriving DecidableEq, Repr

inductive Argument where
  | string (argument : Text)
  | ruled (argument : RuledArgument)
  deriving DecidableEq, Repr

/-- `Lang.merge` of two collections: a missing one counts as empty. -/
def Lang.merge {α : Type} (a b : Option (List α)) : List α := a.getD [] ++ b.getD []

/-- `Lang.merge` of two values with an operator for the case that both are present. -/
def Lang.mergeWith {α : Type} (operator : α → α → α) : Option α → Option α → Option α
  | none, b => b
  | a, none => a
  | some a, some b => some (operator a b)

/-- `Lang.copyList`: an empty list is stored as a missing one. -/
def Lang.copyList {α : Type} : Option (List α) → Option (List α)
  | some (x :: xs) => some (x :: xs)
  | _ => none

@[simp] theorem Lang.getD_copyList {α : Type} (l : Option (List α)) :
    (copyList l).getD [] = l.getD [] := by
  match l with
  | none => rfl
  | some [] => rfl
  | some (_ :: _) => rfl

structure Arguments where
  game : Option (List Argument)
  jvm : Option (List Argument)
  deriving DecidableEq, Repr

namespace Arguments

def empty : Arguments := ⟨none,none⟩

def addGameArguments (args : Arguments) (gameArguments : List Text) : Arguments :=
  ⟨some (Lang.merge args.game (some (gameArguments.map Argument.string))),args.jvm⟩

def mergeLists (a b : Option (List Argument)) : Option (List Argument) :=
  if a = none ∧ b = none then none else some (Lang.merge a b)

def merge : Option Arguments → Option Arguments → Option Arguments
  | none, b => b
  | a, none => a
  | some a, some b => some ⟨mergeLists a.game b.game,mergeLists a.jvm b.jvm⟩

end Arguments

structure AssetIndexInfo where
  id : Text
  url : Option Text
  sha1 : Option Text
  size : Int
  totalSize : Int
  deriving DecidableEq, Repr

structure GameJavaVersion where
  component : Option Text
  majorVersion : Int
  deriving DecidableEq, Repr

inductive DownloadType where
  | client | server | windowsServer | clientMappings | serverMappings
  deriving DecidableEq, Repr

structure DownloadInfo where
  url : Option Text
  sha1 : Option Text
  size : Int
  deriving DecidableEq, Repr

structure LoggingInfo where
  file : Option DownloadInfo
  fileId : Option Text
  argument : Option Text
  type : Option Text
  deriving DecidableEq, Repr

inductive ReleaseType where
  | release | snapshot | modified | oldBeta | oldAlpha | unknown
  deriving DecidableEq, Repr

/-- A version file, or a patch inside one. Dates are milliseconds. The lists are
read through getters only, which take an empty list for a missing one. -/
structure Version where
  resolved : Bool
  id : Text
  version : Option Text
  priority : Option Int
  minecraftArguments : Option Text
  arguments : Option Arguments
  mainClass : Option Text
  inheritsFrom : Option Text
  jar : Option Text
  assetIndex : Option AssetIndexInfo
  assets : Option Text
  complianceLevel : Option Int
  javaVersion : Option GameJavaVersion
  libraries : Option (List Library)
  compatibilityRules : Option (List CompatibilityRule)
  downloads : Option (List (DownloadType × DownloadInfo))
  logging : Option (List (DownloadType × LoggingInfo))
  type : Option ReleaseType
  time : Option Int
  releaseTime : Option Int
  minimumLauncherVersion : Option Int
  hidden : Option Bool
  root : Option Bool
  patches : Option (List Version)

namespace Version

/-- The constructor for a bare version id. -/
def ofId (id : Text) : Version where
  resolved := false
  id := id
  version := none
  priority := none
  minecraftArguments := none
  arguments := none
  mainClass := none
  inheritsFrom := none
  jar := none
  assetIndex := none
  assets := none
  complianceLevel := none
  javaVersion := none
  libraries := none
  compatibilityRules := none
  downloads := none
  logging := none
  type := none
  time := none
  releaseTime := none
  minimumLauncherVersion := none
  hidden := some false
  root := some true
  patches := none

/-- The constructor for a patch. -/
def patch (id version : Text) (priority : Int) (arguments : Arguments) (mainClass : Text)
    (libraries : List Library) : Version :=
  { ofId id with
    version := some version, priority := some priority, arguments := some arguments,
    mainClass := some mainClass, libraries := Lang.copyList (some libraries),
    hidden := none, root := none }

def intMin : Int := -2147483648

def getPriority (v : Version) : Int := v.priority.getD intMin
def getPatches (v : Version) : List Version := v.patches.getD []
def getLibraries (v : Version) : List Library := v.libraries.getD []
def isHidden (v : Version) : Bool := v.hidden.getD false
def isRoot (v : Version) : Bool := v.root.getD false

def setId (v : Version) (id : Text) : Version := { v with id }
def setVersion (v : Version) (version : Option Text) : Version := { v with version }
def setPriority (v : Version) (priority : Option Int) : Version := { v with priority }
def setMinecraftArguments (v : Version) (minecraftArguments : Option Text) : Version :=
  { v with minecraftArguments }
def setArguments (v : Version) (arguments : Option Arguments) : Version := { v with arguments }
def setMainClass (v : Version) (mainClass : Option Text) : Version := { v with mainClass }
def setJar (v : Version) (jar : Option Text) : Version := { v with jar }
def setHidden (v : Version) (hidden : Bool) : Version :=
  { v with resolved := true, hidden := some hidden }
def setLibraries (v : Version) (libraries : List Library) : Version :=
  { v with libraries := Lang.copyList (some libraries) }
def setPatches (v : Version) (patches : Option (List Version)) : Version :=
  { v with patches := Lang.copyList patches }
def clearPatches (v : Version) : Version := { v with patches := none }
def markAsResolved (v : Version) : Version := { v with resolved := true }

/-- Patches with the id of an added one are dropped, the added ones go to the end. -/
def addPatches (v : Version) (additional : List Version) : Version :=
  v.setPatches (some (Lang.merge
    (v.patches.map (List.filter fun patch => patch.id ∉ additional.map Version.id))
    (some additional)))

def addPatch (v : Version) (additional : Version) : Version := v.addPatches [additional]

def removePatchById (v : Version) (patchId : Text) : Version :=
  v.setPatches (v.patches.map (List.filter fun patch => patchId ≠ patch.id))

/-- A version as it is kept inside the versions resolved from it. -/
def toPatch (v : Version) : Version :=
  (v.clearPatches.setHidden true).setId (("resolved." : String) ++ v.id)

def merge (v parent : Version) (isPatch : Bool) : Version where
  resolved := true
  id := v.id
  version := none
  priority := none
  minecraftArguments := v.minecraftArguments.or parent.minecraftArguments
  arguments := Arguments.merge parent.arguments v.arguments
  mainClass := v.mainClass.or parent.mainClass
  inheritsFrom := none
  jar := v.jar.or parent.jar
  assetIndex := v.assetIndex.or parent.assetIndex
  assets := v.assets.or parent.assets
  complianceLevel := v.complianceLevel
  javaVersion := v.javaVersion.or parent.javaVersion
  libraries := Lang.copyList (some (Lang.merge v.libraries parent.libraries))
  compatibilityRules := Lang.copyList (some (Lang.merge parent.compatibilityRules v.compatibilityRules))
  downloads := v.downloads.or parent.downloads
  logging := v.logging.or parent.logging
  type := v.type.or parent.type
  time := v.time.or parent.time
  releaseTime := v.releaseTime.or parent.releaseTime
  minimumLauncherVersion :=
    Lang.mergeWith max v.minimumLauncherVersion parent.minimumLauncherVersion
  hidden := v.hidden
  root := some true
  patches := Lang.copyList (if isPatch then parent.patches
    else some (Lang.merge (some (Lang.merge parent.patches (some [v.toPatch]))) v.patches))

def sortedPatches (v : Version) : List Version :=
  v.getPatches.mergeSort fun a b => a.getPriority ≤ b.getPriority

/-- `resolve` along the parents; `none` is the exception for a missing version, or
that the parents did not end. The set of ids guards against circles. -/
def resolveFrom (getVersion : Text → Option Version) : Nat → Version → List Text → Option Version
  | 0, _, _ => none
  | fuel + 1, v, resolvedSoFar => do
    let thisVersion ← match v.inheritsFrom with
      | none =>
        let thisVersion := if v.isRoot then (ofId v.id).setPatches v.patches else v
        some (thisVersion.setJar (some (v.jar.getD v.id)))
      | some inheritsFrom =>
        if v.id ∈ resolvedSoFar then some (if v.jar = none then v.setJar (some v.id) else v)
        else (getVersion inheritsFrom).bind fun parent =>
          (resolveFrom getVersion fuel parent (v.id :: resolvedSoFar)).map fun parent =>
            v.merge parent false
    let thisVersion := v.sortedPatches.foldl
      (fun thisVersion patch => (patch.setJar none).merge thisVersion true) thisVersion
    return thisVersion.setId v.id

def resolve (getVersion : Text → Option Version) (fuel : Nat) (v : Version) : Option Version :=
  if v.resolved then some v
  else (resolveFrom getVersion fuel v []).map markAsResolved

def withoutParent (v : Version) : Version :=
  (if v.isRoot then (ofId v.id).setPatches v.patches else v).setJar (some (v.jar.getD v.id))

def inCircle (v : Version) : Version := if v.jar = none then v.setJar (some v.id) else v

def applyPatches (v thisVersion : Version) : Version :=
  (v.sortedPatches.foldl (fun thisVersion patch => (patch.setJar none).merge thisVersion true)
    thisVersion).setId v.id

/-- `resolve` along the parents with the ids whose parents it asks the provider for. The outer
`none` is a call that is still waiting for another one, the inner `none` a version not found. -/
def resolveVisits (getVersion : Text → Option Version) :
    Nat → Version → List Text → Option (Option Version × List Text)
  | 0, _, _ => none
  | fuel + 1, v, resolvedSoFar => match v.inheritsFrom with
    | none => some (some (v.applyPatches v.withoutParent),[])
    | some inheritsFrom =>
      if v.id ∈ resolvedSoFar then some (some (v.applyPatches v.inCircle),[])
      else match getVersion inheritsFrom with
        | none => some (none,[v.id])
        | some parent =>
          (resolveVisits getVersion fuel parent (v.id :: resolvedSoFar)).map fun above =>
            (above.1.map fun parent => v.applyPatches (v.merge parent false),v.id :: above.2)

end Version

end HmclPe.Game
