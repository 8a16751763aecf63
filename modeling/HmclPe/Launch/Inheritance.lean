import HmclPe.Launch.LaunchVersion

/-! The two resolvers of inherited version files on one chain of files: the launcher's
own reader, and the resolver of the game repository. -/
namespace HmclPe.Launch.Inheritance
open HmclPe.Java HmclPe.Game HmclPe.Launch HmclPe.Launch.ClassPath

/-- The adapter for enumerations: the lower-cased constant names, anything else is missing. -/
def readReleaseType (toLowerCase : Char → Char) (type : Text) : Option ReleaseType :=
  List.lookup (type.map toLowerCase) [
    (("release" : String).toList,.release),(("snapshot" : String).toList,.snapshot),
    (("modified" : String).toList,.modified),(("old_beta" : String).toList,.oldBeta),
    (("old_alpha" : String).toList,.oldAlpha),(("unknown" : String).toList,.unknown)]

/-- One version file without patches, as its two readers see it. -/
structure VersionFile (toLowerCase : Char → Char) where
  launch : LaunchVersion
  version : Version
  mainClass : launch.mainClass = version.mainClass
  minecraftArguments : launch.minecraftArguments = version.minecraftArguments
  assetIndex : launch.assetIndex = version.assetIndex
  assets : launch.assets = version.assets
  arguments : launch.arguments = version.arguments
  inheritsFrom : launch.inheritsFrom = version.inheritsFrom
  libraries : version.libraries = launch.libraries.map (List.map LibraryEntry.library)
  type : version.type = launch.type.bind (readReleaseType toLowerCase)
  minimumLauncherVersion : launch.minimumLauncherVersion = version.minimumLauncherVersion.getD 0
  unpatched : version.getPatches = []
  unresolved : version.resolved = false

section Overriding

/-- First field that is there and not empty; the last one counts as it is. -/
def overridden : List (Option Text) → Option Text
  | [] => none
  | [f] => f
  | f :: g :: rest => LaunchVersion.override f (overridden (g :: rest))

def firstPresent {α : Type} : List (Option α) → Option α
  | [] => none
  | f :: rest => f.or (firstPresent rest)

/-- The fields the repository sees: a root version is read for its patches only. -/
def seen {α : Type} (root : Bool) : List (Option α) → List (Option α)
  | [] => []
  | [f] => [if root then none else f]
  | f :: g :: rest => f :: seen root (g :: rest)

def AllBlank : List (Option Text) → Prop
  | [] => False
  | [f] => f = some []
  | f :: g :: rest => (f = none ∨ f = some []) ∧ AllBlank (g :: rest)

/-- No empty text stands where it would win over a parent. -/
def Harmless (root : Bool) : List (Option Text) → Prop
  | [] => True
  | [f] => root → f = none
  | none :: g :: rest => Harmless root (g :: rest)
  | some [] :: g :: rest => AllBlank (g :: rest)
  | some (_ :: _) :: _ :: _ => True

def Kept {α : Type} (root : Bool) : List (Option α) → Prop
  | [] => True
  | [f] => root → f = none
  | none :: g :: rest => Kept root (g :: rest)
  | some _ :: _ :: _ => True

/-- No unreadable text hides a type a parent has. -/
def Readable {α : Type} (read : Text → Option α) (root : Bool) : List (Option Text) → Prop
  | [] => True
  | [f] => root → f.bind read = none
  | none :: g :: rest => Readable read root (g :: rest)
  | some [] :: g :: rest => Readable read root (g :: rest)
  | some (c :: cs) :: g :: rest => read (c :: cs) ≠ none ∨
      firstPresent (seen root ((g :: rest).map (·.bind read))) = none

theorem overridden_blank (fs : List (Option Text)) : overridden fs = some [] ↔ AllBlank fs := by
  induction fs with
  | nil => simp [overridden,AllBlank]
  | cons f rest ih =>
    cases rest with
    | nil => rfl
    | cons g rest =>
      unfold overridden AllBlank
      match f with
      | none => simpa [LaunchVersion.override] using ih
      | some [] => simpa [LaunchVersion.override] using ih
      | some (c :: cs) => simp [LaunchVersion.override]

theorem overridden_eq_seen (root : Bool) (fs : List (Option Text)) :
    overridden fs = firstPresent (seen root fs) ↔ Harmless root fs := by
  induction fs with
  | nil => simp [overridden,seen,firstPresent,Harmless]
  | cons f rest ih =>
    cases rest with
    | nil => cases root <;> simp [overridden,seen,firstPresent,Harmless]
    | cons g rest =>
      match f with
      | none => simpa [overridden,LaunchVersion.override,seen,firstPresent,Harmless] using ih
      | some [] =>
        have blank := overridden_blank (g :: rest)
        simpa [overridden,LaunchVersion.override,seen,firstPresent,Harmless] using blank
      | some (c :: cs) => simp [overridden,LaunchVersion.override,seen,firstPresent,Harmless]

theorem firstPresent_eq_seen {α : Type} (root : Bool) (fs : List (Option α)) :
    firstPresent fs = firstPresent (seen root fs) ↔ Kept root fs := by
  induction fs with
  | nil => simp [seen,firstPresent,Kept]
  | cons f rest ih =>
    cases rest with
    | nil => cases root <;> simp [seen,firstPresent,Kept]
    | cons g rest =>
      cases f with
      | none => simpa [seen,firstPresent,Kept] using ih
      | some a => simp [seen,firstPresent,Kept]

theorem readable_iff {α : Type} (read : Text → Option α) (empty : read [] = none) (root : Bool)
    (fs : List (Option Text)) :
    (overridden fs).bind read = firstPresent (seen root (fs.map (·.bind read))) ↔
      Readable read root fs := by
  induction fs with
  | nil => simp [overridden,seen,firstPresent,Readable]
  | cons f rest ih =>
    cases rest with
    | nil => cases root <;> simp [overridden,seen,firstPresent,Readable]
    | cons g rest =>
      match f with
      | none => simpa [overridden,LaunchVersion.override,seen,firstPresent,Readable] using ih
      | some [] => simpa [overridden,LaunchVersion.override,seen,firstPresent,Readable,empty] using ih
      | some (c :: cs) =>
        cases known : read (c :: cs) with
        | none =>
          simp [overridden,LaunchVersion.override,seen,firstPresent,Readable,known,eq_comm]
        | some t => simp [overridden,LaunchVersion.override,seen,firstPresent,Readable,known]

end Overriding

variable {toLowerCase : Char → Char}

/-- The files from a version to the one that inherits from nothing. -/
inductive Chain (files : Text → Option (VersionFile toLowerCase)) :
    Text → List (VersionFile toLowerCase) → Prop
  | root {id : Text} {file : VersionFile toLowerCase} (found : files id = some file)
      (ends : file.version.inheritsFrom = none) : Chain files id [file]
  | child {id parent : Text} {file next : VersionFile toLowerCase}
      {rest : List (VersionFile toLowerCase)} (found : files id = some file)
      (inherits : file.version.inheritsFrom = some parent) (named : parent ≠ [])
      (above : Chain files parent (next :: rest)) : Chain files id (file :: next :: rest)

namespace VersionFile

def game (file : VersionFile toLowerCase) : List Argument :=
  (file.launch.arguments.bind (·.game)).getD []

def jvm (file : VersionFile toLowerCase) : List Argument :=
  (file.launch.arguments.bind (·.jvm)).getD []

def entries (file : VersionFile toLowerCase) : List LibraryEntry := file.launch.libraries.getD []

end VersionFile

section Chains

variable (chain : List (VersionFile toLowerCase))

def minimum : List (VersionFile toLowerCase) → Int
  | [] => 0
  | [file] => file.launch.minimumLauncherVersion
  | file :: next :: rest => max file.launch.minimumLauncherVersion (minimum (next :: rest))

def rootLibraries : Option (List LibraryEntry) := chain.getLast?.bind (·.launch.libraries)

def rootArguments : Option Arguments := chain.getLast?.bind (·.launch.arguments)

def rootIsRoot : Bool := (chain.getLast?.map (·.version.isRoot)).getD false

/-- Where the launcher's reader dereferences nothing that is missing. -/
def Loads : List (VersionFile toLowerCase) → Prop
  | [] => True
  | [_] => True
  | file :: next :: rest => Loads (next :: rest) ∧
      (file.entries ≠ [] → rootLibraries (next :: rest) ≠ none) ∧
      (21 ≤ minimum (file :: next :: rest) → file.launch.arguments ≠ none ∧
        (file.game ≠ [] → (rootArguments (next :: rest)).bind (·.game) ≠ none))

def launchGame : List (VersionFile toLowerCase) → List Argument
  | [] => []
  | [file] => file.game
  | file :: next :: rest =>
    (if 21 ≤ minimum (file :: next :: rest) then file.game else []) ++ launchGame (next :: rest)

/-- The list fields the repository sees, child first. -/
def seenLists {α : Type} (get : VersionFile toLowerCase → List α) :
    List (VersionFile toLowerCase) → List α
  | [] => []
  | [file] => if file.version.isRoot then [] else get file
  | file :: next :: rest => get file ++ seenLists get (next :: rest)

def parentsFirst {α : Type} (get : VersionFile toLowerCase → List α) :
    List (VersionFile toLowerCase) → List α
  | [] => []
  | [file] => if file.version.isRoot then [] else get file
  | file :: next :: rest => parentsFirst get (next :: rest) ++ get file

structure Loaded (l : LaunchVersion) : Prop where
  mainClass : l.mainClass = overridden (chain.map (·.launch.mainClass))
  minecraftArguments : l.minecraftArguments = overridden (chain.map (·.launch.minecraftArguments))
  assets : l.assets = overridden (chain.map (·.launch.assets))
  type : l.type = overridden (chain.map (·.launch.type))
  assetIndex : l.assetIndex = firstPresent (chain.map (·.launch.assetIndex))
  minimumLauncherVersion : l.minimumLauncherVersion = minimum chain
  libraries : l.libraries.getD [] = chain.flatMap VersionFile.entries
  librariesPresent : l.libraries = none ↔ rootLibraries chain = none
  game : (l.arguments.bind (·.game)).getD [] = launchGame chain
  gamePresent : l.arguments.bind (·.game) = none ↔ (rootArguments chain).bind (·.game) = none
  jvm : l.arguments.bind (·.jvm) = (rootArguments chain).bind (·.jvm)

end Chains

section Launcher

theorem inheritLibraries_spec (self result : Option (List LibraryEntry)) :
    (LaunchVersion.inheritLibraries self result ≠ none ↔ (self.getD [] ≠ [] → result ≠ none)) ∧
      ∀ libraries, LaunchVersion.inheritLibraries self result = some libraries →
        libraries.getD [] = self.getD [] ++ result.getD [] ∧ (libraries = none ↔ result = none) := by
  match self with
  | none => simp [LaunchVersion.inheritLibraries]
  | some [] => simp [LaunchVersion.inheritLibraries]
  | some (lib :: libs) => cases result <;> simp [LaunchVersion.inheritLibraries]

theorem inheritArguments_spec (minimumLauncherVersion : Int) (self result : Option Arguments) :
    (LaunchVersion.inheritArguments minimumLauncherVersion self result ≠ none ↔
        (21 ≤ minimumLauncherVersion → self ≠ none ∧
          ((self.bind (·.game)).getD [] ≠ [] → result.bind (·.game) ≠ none))) ∧
      ∀ arguments, LaunchVersion.inheritArguments minimumLauncherVersion self result = some arguments →
        (arguments.bind (·.game)).getD [] =
          (if 21 ≤ minimumLauncherVersion then (self.bind (·.game)).getD [] else []) ++
            (result.bind (·.game)).getD [] ∧
        (arguments.bind (·.game) = none ↔ result.bind (·.game) = none) ∧
        arguments.bind (·.jvm) = result.bind (·.jvm) := by
  by_cases high : 21 ≤ minimumLauncherVersion
  · cases self with
    | none => simp [LaunchVersion.inheritArguments,high]
    | some own =>
      obtain ⟨game,jvm⟩ := own
      match game with
      | none => simp [LaunchVersion.inheritArguments,high]
      | some [] => simp [LaunchVersion.inheritArguments,high]
      | some (arg :: args) =>
        cases result with
        | none => simp [LaunchVersion.inheritArguments,high]
        | some below =>
          obtain ⟨game,jvm⟩ := below
          cases game <;> simp [LaunchVersion.inheritArguments,high]
  · simp [LaunchVersion.inheritArguments,high]

theorem inherit_some {self result l : LaunchVersion} :
    self.inherit result = some l ↔ ∃ libraries arguments,
      LaunchVersion.inheritLibraries self.libraries result.libraries = some libraries ∧
      LaunchVersion.inheritArguments
        (max self.minimumLauncherVersion result.minimumLauncherVersion)
        self.arguments result.arguments = some arguments ∧
      l = {
        assetIndex := self.assetIndex.or result.assetIndex
        assets := LaunchVersion.override self.assets result.assets
        downloads := LaunchVersion.inheritDownloads self.downloads result.downloads
        id := result.id
        libraries := libraries
        mainClass := LaunchVersion.override self.mainClass result.mainClass
        minecraftArguments :=
          LaunchVersion.override self.minecraftArguments result.minecraftArguments
        minimumLauncherVersion := max self.minimumLauncherVersion result.minimumLauncherVersion
        releaseTime := LaunchVersion.override self.releaseTime result.releaseTime
        time := LaunchVersion.override self.time result.time
        type := LaunchVersion.override self.type result.type
        arguments := arguments
        inheritsFrom := result.inheritsFrom
        minecraftPath := if self.minecraftPath = [] then result.minecraftPath
          else self.minecraftPath } := by
  unfold LaunchVersion.inherit
  constructor
  · intro built
    obtain ⟨libraries,first,built⟩ := Option.bind_eq_some_iff.mp built
    obtain ⟨arguments,second,built⟩ := Option.bind_eq_some_iff.mp built
    exact ⟨libraries,arguments,first,second,(Option.some.inj built).symm⟩
  · rintro ⟨libraries,arguments,first,second,rfl⟩
    rw [first]
    simp only [Option.bind_eq_bind,Option.bind_some,second]
    rfl

variable {files : Text → Option (VersionFile toLowerCase)} {jarPath : Text → Text}

def readLaunch (files : Text → Option (VersionFile toLowerCase)) (id : Text) : Option LaunchVersion :=
  (files id).map VersionFile.launch

theorem fromDirectory_root {id : Text} {file : VersionFile toLowerCase} (found : files id = some file)
    (ends : file.version.inheritsFrom = none) (fuel : Nat) :
    LaunchVersion.fromDirectory (readLaunch files) jarPath LaunchVersion.byName (fuel + 1) id =
      some { file.launch with minecraftPath := jarPath id } := by
  have link : file.launch.inheritsFrom = none := file.inheritsFrom.trans ends
  unfold LaunchVersion.fromDirectory readLaunch
  rw [found]
  simp [link]

theorem fromDirectory_child {id parent : Text} {file : VersionFile toLowerCase}
    (found : files id = some file) (inherits : file.version.inheritsFrom = some parent)
    (named : parent ≠ []) (fuel : Nat) :
    LaunchVersion.fromDirectory (readLaunch files) jarPath LaunchVersion.byName (fuel + 1) id =
      (LaunchVersion.fromDirectory (readLaunch files) jarPath LaunchVersion.byName fuel parent).bind
        (LaunchVersion.inherit { file.launch with minecraftPath := jarPath id }) := by
  have link : file.launch.inheritsFrom = some parent := file.inheritsFrom.trans inherits
  obtain ⟨c,cs,rfl⟩ := List.exists_cons_of_ne_nil named
  conv_lhs => unfold LaunchVersion.fromDirectory
  have read : readLaunch files id = some file.launch := by
    unfold readLaunch
    rw [found]
    rfl
  simp [read,link,LaunchVersion.byName]

theorem loaded_root (file : VersionFile toLowerCase) (path : Text) :
    Loaded [file] { file.launch with minecraftPath := path } := by
  constructor <;> simp [overridden,firstPresent,minimum,rootLibraries,rootArguments,launchGame,
    VersionFile.game,VersionFile.entries]

theorem loaded_child {file next : VersionFile toLowerCase} {rest : List (VersionFile toLowerCase)}
    {result l : LaunchVersion} {path : Text} (below : Loaded (next :: rest) result)
    (built : LaunchVersion.inherit { file.launch with minecraftPath := path } result = some l) :
    Loaded (file :: next :: rest) l := by
  obtain ⟨libraries,arguments,first,second,rfl⟩ := inherit_some.mp built
  obtain ⟨joined,present⟩ := (inheritLibraries_spec _ _).2 libraries first
  obtain ⟨game,gamePresent,jvm⟩ := (inheritArguments_spec _ _ _).2 arguments second
  constructor
  · exact congrArg (LaunchVersion.override _) below.mainClass
  · exact congrArg (LaunchVersion.override _) below.minecraftArguments
  · exact congrArg (LaunchVersion.override _) below.assets
  · exact congrArg (LaunchVersion.override _) below.type
  · exact congrArg (Option.or _) below.assetIndex
  · exact congrArg (max _) below.minimumLauncherVersion
  · rw [List.flatMap_cons,← below.libraries]
    exact joined
  · exact present.trans below.librariesPresent
  · rw [below.minimumLauncherVersion,below.game] at game
    exact game
  · exact gamePresent.trans below.gamePresent
  · exact jvm.trans below.jvm

theorem inherit_isSome {file next : VersionFile toLowerCase} {rest : List (VersionFile toLowerCase)}
    {result : LaunchVersion} (path : Text) (below : Loaded (next :: rest) result) :
    (∃ l, LaunchVersion.inherit { file.launch with minecraftPath := path } result = some l) ↔
      (file.entries ≠ [] → rootLibraries (next :: rest) ≠ none) ∧
      (21 ≤ minimum (file :: next :: rest) → file.launch.arguments ≠ none ∧
        (file.game ≠ [] → (rootArguments (next :: rest)).bind (·.game) ≠ none)) := by
  have libraries := (inheritLibraries_spec file.launch.libraries result.libraries).1
  have arguments := (inheritArguments_spec
    (max file.launch.minimumLauncherVersion result.minimumLauncherVersion)
    file.launch.arguments result.arguments).1
  rw [ne_eq result.libraries,below.librariesPresent] at libraries
  rw [ne_eq (result.arguments.bind _),below.gamePresent,below.minimumLauncherVersion] at arguments
  unfold VersionFile.entries VersionFile.game
  rw [← ne_eq] at libraries arguments
  rw [← libraries]
  refine Iff.trans ?_ (and_congr_right fun _ => arguments)
  rw [← below.minimumLauncherVersion]
  constructor
  · rintro ⟨l,built⟩
    obtain ⟨_,_,first,second,_⟩ := inherit_some.mp built
    exact ⟨by simp [first],by simp [second]⟩
  · rintro ⟨first,second⟩
    obtain ⟨_,first⟩ := Option.ne_none_iff_exists'.mp first
    obtain ⟨_,second⟩ := Option.ne_none_iff_exists'.mp second
    exact ⟨_,inherit_some.mpr ⟨_,_,first,second,rfl⟩⟩

theorem fromDirectory_spec {id : Text} {chain : List (VersionFile toLowerCase)}
    (linked : Chain files id chain) {fuel : Nat} (enough : chain.length ≤ fuel) :
    ((∃ l, LaunchVersion.fromDirectory (readLaunch files) jarPath LaunchVersion.byName fuel id =
        some l) ↔ Loads chain) ∧
      ∀ l, LaunchVersion.fromDirectory (readLaunch files) jarPath LaunchVersion.byName fuel id =
        some l → Loaded chain l := by
  induction linked generalizing fuel with
  | root found ends =>
    obtain ⟨fuel,rfl⟩ := Nat.exists_eq_add_of_le' enough
    rw [List.length_singleton,fromDirectory_root found ends]
    refine ⟨by simp [Loads],?_⟩
    intro l built
    rw [← Option.some.inj built]
    exact loaded_root _ _
  | @child id parent file next rest found inherits named above ih =>
    obtain ⟨fuel,rfl⟩ := Nat.exists_eq_add_of_le' (le_trans (by simp) enough : 1 ≤ fuel)
    obtain ⟨loads,loaded⟩ := ih (Nat.le_of_succ_le_succ enough)
    rw [fromDirectory_child found inherits named]
    constructor
    · constructor
      · rintro ⟨l,built⟩
        obtain ⟨result,parent,step⟩ := Option.bind_eq_some_iff.mp built
        exact ⟨loads.mp ⟨result,parent⟩,
          (inherit_isSome (jarPath id) (loaded result parent)).mp ⟨l,step⟩⟩
      · rintro ⟨above,here⟩
        obtain ⟨result,parent⟩ := loads.mpr above
        obtain ⟨l,step⟩ := (inherit_isSome (jarPath id) (loaded result parent)).mpr here
        exact ⟨l,Option.bind_eq_some_iff.mpr ⟨result,parent,step⟩⟩
    · intro l built
      obtain ⟨result,parent,step⟩ := Option.bind_eq_some_iff.mp built
      exact loaded_child (loaded result parent) step

end Launcher

section Repository

variable {files : Text → Option (VersionFile toLowerCase)}

def readVersion (files : Text → Option (VersionFile toLowerCase)) (id : Text) : Option Version :=
  (files id).map VersionFile.version

structure Resolved (chain : List (VersionFile toLowerCase)) (v : Version) : Prop where
  mainClass : v.mainClass =
    firstPresent (seen (rootIsRoot chain) (chain.map (·.launch.mainClass)))
  minecraftArguments : v.minecraftArguments =
    firstPresent (seen (rootIsRoot chain) (chain.map (·.launch.minecraftArguments)))
  assets : v.assets = firstPresent (seen (rootIsRoot chain) (chain.map (·.launch.assets)))
  assetIndex : v.assetIndex =
    firstPresent (seen (rootIsRoot chain) (chain.map (·.launch.assetIndex)))
  type : v.type = firstPresent (seen (rootIsRoot chain)
    ((chain.map (·.launch.type)).map (·.bind (readReleaseType toLowerCase))))
  libraries : v.getLibraries = (seenLists VersionFile.entries chain).map LibraryEntry.library
  game : (v.arguments.bind (·.game)).getD [] = parentsFirst VersionFile.game chain
  jvm : (v.arguments.bind (·.jvm)).getD [] = parentsFirst VersionFile.jvm chain

theorem merge_lists (parent own : Option Arguments) :
    ((Arguments.merge parent own).bind (·.game)).getD [] =
        (parent.bind (·.game)).getD [] ++ (own.bind (·.game)).getD [] ∧
      ((Arguments.merge parent own).bind (·.jvm)).getD [] =
        (parent.bind (·.jvm)).getD [] ++ (own.bind (·.jvm)).getD [] := by
  cases parent with
  | none => cases own <;> simp [Arguments.merge]
  | some parent =>
    cases own with
    | none => simp [Arguments.merge]
    | some own =>
      obtain ⟨pg,pj⟩ := parent
      obtain ⟨og,oj⟩ := own
      constructor
      · cases pg <;> cases og <;> simp [Arguments.merge,Arguments.mergeLists,Lang.merge]
      · cases pj <;> cases oj <;> simp [Arguments.merge,Arguments.mergeLists,Lang.merge]

theorem sortedPatches_nil {v : Version} (unpatched : v.getPatches = []) : v.sortedPatches = [] := by
  unfold Version.sortedPatches
  rw [unpatched,List.mergeSort_nil]

theorem version_libraries (file : VersionFile toLowerCase) :
    file.version.getLibraries = file.entries.map LibraryEntry.library := by
  unfold Version.getLibraries VersionFile.entries
  rw [file.libraries]
  cases file.launch.libraries <;> rfl

theorem resolved_root (file : VersionFile toLowerCase) :
    Resolved [file] (((if file.version.isRoot then
        (Version.ofId file.version.id).setPatches file.version.patches else file.version).setJar
          (some (file.version.jar.getD file.version.id))).setId file.version.id) := by
  cases root : file.version.isRoot with
  | true => constructor <;> simp [root,rootIsRoot,seen,firstPresent,seenLists,parentsFirst,
      Version.setId,Version.setJar,Version.setPatches,Version.ofId,Version.getLibraries]
  | false =>
    have libraries := version_libraries file
    unfold Version.getLibraries at libraries
    constructor <;> simp [root,rootIsRoot,seen,firstPresent,seenLists,parentsFirst,
      Version.setId,Version.setJar,Version.getLibraries,VersionFile.game,VersionFile.jvm,
      file.mainClass,file.minecraftArguments,file.assets,file.assetIndex,file.type,file.arguments,
      libraries]

theorem resolved_child {file next : VersionFile toLowerCase} {rest : List (VersionFile toLowerCase)}
    {parent : Version} (above : Resolved (next :: rest) parent) :
    Resolved (file :: next :: rest) ((file.version.merge parent false).setId file.version.id) := by
  have lists := merge_lists parent.arguments file.version.arguments
  have root : rootIsRoot (file :: next :: rest) = rootIsRoot (next :: rest) := by
    unfold rootIsRoot
    rw [List.getLast?_cons_cons]
  constructor
  · rw [root]
    refine (congrArg₂ Option.or file.mainClass.symm above.mainClass).trans ?_
    rfl
  · rw [root]
    exact congrArg₂ Option.or file.minecraftArguments.symm above.minecraftArguments
  · rw [root]
    exact congrArg₂ Option.or file.assets.symm above.assets
  · rw [root]
    exact congrArg₂ Option.or file.assetIndex.symm above.assetIndex
  · rw [root]
    exact congrArg₂ Option.or file.type above.type
  · have own := version_libraries file
    have below := above.libraries
    unfold Version.getLibraries at own below
    simp only [Version.getLibraries,Version.setId,Version.merge,Lang.getD_copyList,Option.getD_some]
    unfold Lang.merge
    rw [own,below,seenLists,List.map_append]
  · refine lists.1.trans ?_
    rw [above.game,parentsFirst,VersionFile.game,file.arguments]
  · refine lists.2.trans ?_
    rw [above.jvm,parentsFirst,VersionFile.jvm,file.arguments]

theorem resolveFrom_spec {id : Text} {chain : List (VersionFile toLowerCase)}
    (linked : Chain files id chain) {resolvedSoFar : List Text}
    (acyclic : (chain.map (·.version.id) ++ resolvedSoFar).Nodup) {fuel : Nat}
    (enough : chain.length ≤ fuel) :
    ∃ file v, files id = some file ∧
      Version.resolveFrom (readVersion files) fuel file.version resolvedSoFar = some v ∧
      Resolved chain v := by
  induction linked generalizing fuel resolvedSoFar with
  | @root id file found ends =>
    obtain ⟨fuel,rfl⟩ := Nat.exists_eq_add_of_le' enough
    refine ⟨file,_,found,?_,resolved_root file⟩
    rw [List.length_singleton]
    unfold Version.resolveFrom
    simp [ends,sortedPatches_nil file.unpatched]
  | @child id parent file next rest found inherits named above ih =>
    obtain ⟨fuel,rfl⟩ := Nat.exists_eq_add_of_le' (le_trans (by simp) enough : 1 ≤ fuel)
    have turned : ((next :: rest).map (·.version.id) ++ file.version.id :: resolvedSoFar).Nodup := by
      exact List.perm_middle.nodup_iff.mpr acyclic
    obtain ⟨upper,v,there,resolved,fields⟩ := ih turned (Nat.le_of_succ_le_succ enough)
    refine ⟨file,_,found,?_,resolved_child fields⟩
    have fresh : file.version.id ∉ resolvedSoFar := by
      have apart := List.nodup_cons.mp acyclic
      intro member
      exact apart.1 (List.mem_append_right _ member)
    have read : readVersion files parent = some upper.version := by
      unfold readVersion
      rw [there]
      rfl
    unfold Version.resolveFrom
    simp [inherits,fresh,read,resolved,sortedPatches_nil file.unpatched]

end Repository

section Agreement

def gameOf (arguments : Option Arguments) : List Argument := (arguments.bind (·.game)).getD []

def jvmOf (arguments : Option Arguments) : List Argument := (arguments.bind (·.jvm)).getD []

/-- Both resolvers give the same version, and neither loses anything of the chain.
Libraries stand child first, arguments in any order. -/
structure Agrees (chain : List (VersionFile toLowerCase)) (l : LaunchVersion) (v : Version) : Prop where
  mainClass : l.mainClass = v.mainClass
  minecraftArguments : l.minecraftArguments = v.minecraftArguments
  assetIndex : l.assetIndex = v.assetIndex
  assets : l.assets = v.assets
  type : l.type.bind (readReleaseType toLowerCase) = v.type
  launchLibraries : l.libraries.getD [] = chain.flatMap VersionFile.entries
  libraries : v.getLibraries = (chain.flatMap VersionFile.entries).map LibraryEntry.library
  launchGame : (gameOf l.arguments).Perm (chain.flatMap VersionFile.game)
  game : (gameOf v.arguments).Perm (chain.flatMap VersionFile.game)
  launchJvm : (jvmOf l.arguments).Perm (chain.flatMap VersionFile.jvm)
  jvm : (jvmOf v.arguments).Perm (chain.flatMap VersionFile.jvm)

/-- A version adds game arguments only where the chain above it is new enough. -/
def GameKept : List (VersionFile toLowerCase) → Prop
  | [] => True
  | [_] => True
  | file :: next :: rest => (file.game ≠ [] → 21 ≤ minimum (file :: next :: rest)) ∧
      GameKept (next :: rest)

/-- A root version, which the repository reads for its patches only, brings no lists. -/
def RootEmpty {α : Type} (get : VersionFile toLowerCase → List α)
    (chain : List (VersionFile toLowerCase)) : Prop :=
  rootIsRoot chain → ∀ file ∈ chain.getLast?, get file = []

structure Inheritable (chain : List (VersionFile toLowerCase)) : Prop where
  loads : Loads chain
  mainClass : Harmless (rootIsRoot chain) (chain.map (·.launch.mainClass))
  minecraftArguments : Harmless (rootIsRoot chain) (chain.map (·.launch.minecraftArguments))
  assets : Harmless (rootIsRoot chain) (chain.map (·.launch.assets))
  assetIndex : Kept (rootIsRoot chain) (chain.map (·.launch.assetIndex))
  type : Readable (readReleaseType toLowerCase) (rootIsRoot chain) (chain.map (·.launch.type))
  libraries : RootEmpty VersionFile.entries chain
  launchGame : GameKept chain
  game : RootEmpty VersionFile.game chain
  launchJvm : ∀ file ∈ chain.dropLast, file.jvm = []
  jvm : RootEmpty VersionFile.jvm chain

theorem launchGame_sublist (chain : List (VersionFile toLowerCase)) :
    (launchGame chain).Sublist (chain.flatMap VersionFile.game) := by
  induction chain with
  | nil => exact List.Sublist.refl _
  | cons file rest ih =>
    cases rest with
    | nil => simp [launchGame]
    | cons next rest =>
      unfold launchGame
      rw [List.flatMap_cons]
      split
      · exact ih.append_left file.game
      · exact ih.trans (List.sublist_append_right _ _)

theorem launchGame_perm_iff (chain : List (VersionFile toLowerCase)) :
    (launchGame chain).Perm (chain.flatMap VersionFile.game) ↔ GameKept chain := by
  have whole (chain : List (VersionFile toLowerCase)) :
      (launchGame chain).Perm (chain.flatMap VersionFile.game) ↔
        launchGame chain = chain.flatMap VersionFile.game :=
    ⟨fun perm => (launchGame_sublist chain).eq_of_length perm.length_eq,fun equal => by rw [equal]⟩
  induction chain with
  | nil => simp [launchGame,GameKept]
  | cons file rest ih =>
    cases rest with
    | nil => simp [launchGame,GameKept]
    | cons next rest =>
      rw [whole] at ih ⊢
      rw [launchGame,GameKept,List.flatMap_cons]
      refine Iff.trans ?_ (and_congr_right fun _ => ih)
      by_cases high : 21 ≤ minimum (file :: next :: rest)
      · rw [if_pos high,List.append_cancel_left_eq]
        simp [high]
      · rw [if_neg high,List.nil_append]
        have shorter := (launchGame_sublist (next :: rest)).length_le
        constructor
        · intro equal
          have lengths := congrArg List.length equal
          rw [List.length_append] at lengths
          have empty : file.game = [] := List.eq_nil_of_length_eq_zero (by omega)
          rw [empty,List.nil_append] at equal
          exact ⟨fun full => absurd empty full,equal⟩
        · rintro ⟨kept,equal⟩
          have empty : file.game = [] := by
            by_contra full
            exact high (kept full)
          rw [empty,List.nil_append,equal]

theorem seenLists_sublist {α : Type} (get : VersionFile toLowerCase → List α)
    (chain : List (VersionFile toLowerCase)) : (seenLists get chain).Sublist (chain.flatMap get) := by
  induction chain with
  | nil => exact List.Sublist.refl _
  | cons file rest ih =>
    cases rest with
    | nil =>
      unfold seenLists
      split <;> simp
    | cons next rest =>
      unfold seenLists
      rw [List.flatMap_cons]
      exact ih.append_left (get file)

theorem seenLists_eq_iff {α : Type} (get : VersionFile toLowerCase → List α)
    (chain : List (VersionFile toLowerCase)) :
    seenLists get chain = chain.flatMap get ↔ RootEmpty get chain := by
  induction chain with
  | nil => simp [seenLists,RootEmpty]
  | cons file rest ih =>
    cases rest with
    | nil =>
      cases root : file.version.isRoot <;> simp [seenLists,RootEmpty,rootIsRoot,root,eq_comm]
    | cons next rest =>
      have same : RootEmpty get (file :: next :: rest) ↔ RootEmpty get (next :: rest) := by
        unfold RootEmpty rootIsRoot
        rw [List.getLast?_cons_cons]
      rw [same,← ih,seenLists,List.flatMap_cons,List.append_cancel_left_eq]

theorem parentsFirst_perm {α : Type} (get : VersionFile toLowerCase → List α)
    (chain : List (VersionFile toLowerCase)) : (parentsFirst get chain).Perm (seenLists get chain) := by
  induction chain with
  | nil => exact List.Perm.refl _
  | cons file rest ih =>
    cases rest with
    | nil => exact List.Perm.refl _
    | cons next rest =>
      unfold parentsFirst seenLists
      exact List.perm_append_comm.trans (ih.append_left (get file))

theorem parentsFirst_perm_iff {α : Type} (get : VersionFile toLowerCase → List α)
    (chain : List (VersionFile toLowerCase)) :
    (parentsFirst get chain).Perm (chain.flatMap get) ↔ RootEmpty get chain := by
  rw [← seenLists_eq_iff]
  constructor
  · intro perm
    exact (seenLists_sublist get chain).eq_of_length
      ((parentsFirst_perm get chain).symm.trans perm).length_eq
  · intro equal
    rw [← equal]
    exact parentsFirst_perm get chain

theorem rootJvm_perm_iff (chain : List (VersionFile toLowerCase)) :
    (((rootArguments chain).bind (·.jvm)).getD []).Perm (chain.flatMap VersionFile.jvm) ↔
      ∀ file ∈ chain.dropLast, file.jvm = [] := by
  rcases List.eq_nil_or_concat chain with rfl | ⟨above,root,rfl⟩
  · simp [rootArguments]
  · rw [List.concat_eq_append]
    have last : ((rootArguments (above ++ [root])).bind (·.jvm)).getD [] = root.jvm := by
      simp [rootArguments,VersionFile.jvm]
    rw [last,List.dropLast_concat,List.flatMap_append,List.flatMap_singleton,
      ← List.flatMap_eq_nil_iff]
    constructor
    · intro perm
      have lengths := perm.length_eq
      rw [List.length_append] at lengths
      exact List.eq_nil_of_length_eq_zero (by omega)
    · intro empty
      rw [empty,List.nil_append]

theorem readReleaseType_nil : readReleaseType toLowerCase [] = none := rfl

theorem agrees_iff {chain : List (VersionFile toLowerCase)} {l : LaunchVersion} {v : Version}
    (loaded : Loaded chain l) (resolved : Resolved chain v) (loads : Loads chain) :
    Agrees chain l v ↔ Inheritable chain := by
  have mainClass := overridden_eq_seen (rootIsRoot chain) (chain.map (·.launch.mainClass))
  have minecraftArguments :=
    overridden_eq_seen (rootIsRoot chain) (chain.map (·.launch.minecraftArguments))
  have assets := overridden_eq_seen (rootIsRoot chain) (chain.map (·.launch.assets))
  have assetIndex := firstPresent_eq_seen (rootIsRoot chain) (chain.map (·.launch.assetIndex))
  have type := readable_iff (readReleaseType toLowerCase) readReleaseType_nil (rootIsRoot chain)
    (chain.map (·.launch.type))
  rw [← loaded.mainClass,← resolved.mainClass] at mainClass
  rw [← loaded.minecraftArguments,← resolved.minecraftArguments] at minecraftArguments
  rw [← loaded.assets,← resolved.assets] at assets
  rw [← loaded.assetIndex,← resolved.assetIndex] at assetIndex
  rw [← loaded.type,← resolved.type] at type
  have libraries : v.getLibraries = (chain.flatMap VersionFile.entries).map LibraryEntry.library ↔
      RootEmpty VersionFile.entries chain := by
    rw [resolved.libraries,← seenLists_eq_iff]
    constructor
    · intro equal
      apply (seenLists_sublist VersionFile.entries chain).eq_of_length
      simpa using congrArg List.length equal
    · intro equal
      rw [equal]
  have launchGame := launchGame_perm_iff chain
  have game := parentsFirst_perm_iff VersionFile.game chain
  have launchJvm := rootJvm_perm_iff chain
  have jvm := parentsFirst_perm_iff VersionFile.jvm chain
  rw [← loaded.game] at launchGame
  rw [← resolved.game] at game
  rw [← loaded.jvm] at launchJvm
  rw [← resolved.jvm] at jvm
  constructor
  · intro agrees
    exact ⟨loads,mainClass.mp agrees.mainClass,minecraftArguments.mp agrees.minecraftArguments,
      assets.mp agrees.assets,assetIndex.mp agrees.assetIndex,type.mp agrees.type,
      libraries.mp agrees.libraries,launchGame.mp agrees.launchGame,game.mp agrees.game,
      launchJvm.mp agrees.launchJvm,jvm.mp agrees.jvm⟩
  · intro fits
    exact ⟨mainClass.mpr fits.mainClass,minecraftArguments.mpr fits.minecraftArguments,
      assetIndex.mpr fits.assetIndex,assets.mpr fits.assets,type.mpr fits.type,loaded.libraries,
      libraries.mpr fits.libraries,launchGame.mpr fits.launchGame,game.mpr fits.game,
      launchJvm.mpr fits.launchJvm,jvm.mpr fits.jvm⟩

theorem parentsFirst_eq {α : Type} (get : VersionFile toLowerCase → List α)
    {chain : List (VersionFile toLowerCase)} (empty : RootEmpty get chain) :
    parentsFirst get chain = chain.reverse.flatMap get := by
  induction chain with
  | nil => rfl
  | cons file rest ih =>
    cases rest with
    | nil =>
      cases root : file.version.isRoot with
      | false => simp [parentsFirst,root]
      | true =>
        have none : get file = [] := empty (by simp [rootIsRoot,root]) file rfl
        simp [parentsFirst,root,none]
    | cons next rest =>
      have above : RootEmpty get (next :: rest) := by
        unfold RootEmpty rootIsRoot at empty ⊢
        rw [List.getLast?_cons_cons] at empty
        exact empty
      have last : (file :: next :: rest).reverse = (next :: rest).reverse ++ [file] :=
        List.reverse_cons
      rw [parentsFirst,ih above,last,List.flatMap_append,List.flatMap_singleton]

theorem game_eq_iff {chain : List (VersionFile toLowerCase)} {l : LaunchVersion} {v : Version}
    (loaded : Loaded chain l) (resolved : Resolved chain v) (fits : Inheritable chain) :
    gameOf l.arguments = gameOf v.arguments ↔
      chain.flatMap VersionFile.game = chain.reverse.flatMap VersionFile.game := by
  have kept := (launchGame_perm_iff chain).mpr fits.launchGame
  have own := (launchGame_sublist chain).eq_of_length kept.length_eq
  have left : gameOf l.arguments = launchGame chain := loaded.game
  have right : gameOf v.arguments = parentsFirst VersionFile.game chain := resolved.game
  rw [left,own,right,parentsFirst_eq VersionFile.game fits.game]

variable {files : Text → Option (VersionFile toLowerCase)}

def repositoryVersion (files : Text → Option (VersionFile toLowerCase)) (fuel : Nat) (id : Text) :
    Option Version :=
  (readVersion files id).bind (Version.resolve (readVersion files) fuel)

theorem repositoryVersion_spec {id : Text} {chain : List (VersionFile toLowerCase)}
    (linked : Chain files id chain) (acyclic : (chain.map (·.version.id)).Nodup) {fuel : Nat}
    (enough : chain.length ≤ fuel) :
    ∃ v, repositoryVersion files fuel id = some v ∧ Resolved chain v := by
  obtain ⟨file,v,found,resolved,fields⟩ :=
    resolveFrom_spec linked (by rwa [List.append_nil]) enough
  refine ⟨v.markAsResolved,?_,?_⟩
  · unfold repositoryVersion readVersion Version.resolve
    rw [found,Option.map_some,Option.bind_some,if_neg (by simp [file.unresolved])]
    exact congrArg (Option.map Version.markAsResolved) resolved
  · exact ⟨fields.1,fields.2,fields.3,fields.4,fields.5,fields.6,fields.7,fields.8⟩

/-- When the two resolvers agree on a chain, and when they even order the game
arguments alike. -/
theorem resolvers_agree_iff {id : Text} {chain : List (VersionFile toLowerCase)}
    (linked : Chain files id chain) (acyclic : (chain.map (·.version.id)).Nodup) {fuel : Nat}
    (enough : chain.length ≤ fuel) (jarPath : Text → Text) :
    ((∃ l v, LaunchVersion.fromDirectory (readLaunch files) jarPath LaunchVersion.byName fuel id =
        some l ∧ repositoryVersion files fuel id = some v ∧ Agrees chain l v) ↔ Inheritable chain) ∧
      ((∃ l v, LaunchVersion.fromDirectory (readLaunch files) jarPath LaunchVersion.byName fuel id =
        some l ∧ repositoryVersion files fuel id = some v ∧ Agrees chain l v ∧
        gameOf l.arguments = gameOf v.arguments) ↔
        Inheritable chain ∧
          chain.flatMap VersionFile.game = chain.reverse.flatMap VersionFile.game) := by
  obtain ⟨loads,loaded⟩ := @fromDirectory_spec _ files jarPath _ _ linked _ enough
  obtain ⟨v,repository,resolved⟩ := repositoryVersion_spec linked acyclic enough
  constructor
  · constructor
    · rintro ⟨l,w,launcher,same,agrees⟩
      obtain rfl : v = w := Option.some.inj (repository.symm.trans same)
      exact (agrees_iff (loaded l launcher) resolved (loads.mp ⟨l,launcher⟩)).mp agrees
    · intro fits
      obtain ⟨l,launcher⟩ := loads.mpr fits.loads
      exact ⟨l,v,launcher,repository,(agrees_iff (loaded l launcher) resolved fits.loads).mpr fits⟩
  · constructor
    · rintro ⟨l,w,launcher,same,agrees,ordered⟩
      obtain rfl : v = w := Option.some.inj (repository.symm.trans same)
      have fits := (agrees_iff (loaded l launcher) resolved (loads.mp ⟨l,launcher⟩)).mp agrees
      exact ⟨fits,(game_eq_iff (loaded l launcher) resolved fits).mp ordered⟩
    · rintro ⟨fits,ordered⟩
      obtain ⟨l,launcher⟩ := loads.mpr fits.loads
      exact ⟨l,v,launcher,repository,
        (agrees_iff (loaded l launcher) resolved fits.loads).mpr fits,
        (game_eq_iff (loaded l launcher) resolved fits).mpr ordered⟩

end Agreement

/-- A file with the keys the launcher's reader knows, and no others. -/
def VersionFile.ofLaunch (id : Text) (launch : LaunchVersion) : VersionFile Char.toLower where
  launch := launch
  version := { Version.ofId id with
    root := none
    mainClass := launch.mainClass
    minecraftArguments := launch.minecraftArguments
    assetIndex := launch.assetIndex
    assets := launch.assets
    arguments := launch.arguments
    inheritsFrom := launch.inheritsFrom
    libraries := launch.libraries.map (List.map LibraryEntry.library)
    type := launch.type.bind (readReleaseType Char.toLower)
    minimumLauncherVersion := some launch.minimumLauncherVersion }
  mainClass := rfl
  minecraftArguments := rfl
  assetIndex := rfl
  assets := rfl
  arguments := rfl
  inheritsFrom := rfl
  libraries := rfl
  type := rfl
  minimumLauncherVersion := rfl
  unpatched := rfl
  unresolved := rfl

def vanillaId : Text := ("1.17.1" : String)
def forgeVersionId : Text := ("1.17.1-forge" : String)

def gameFile : VersionFile Char.toLower := .ofLaunch vanillaId {
  assetIndex := none
  assets := some (("1.17" : String) : Text)
  downloads := none
  id := some vanillaId
  libraries := some []
  mainClass := some (("net.minecraft.client.main.Main" : String) : Text)
  minecraftArguments := none
  minimumLauncherVersion := 21
  releaseTime := none
  time := none
  type := some (("release" : String) : Text)
  arguments := some ⟨some [.string ("--demo" : String)],some []⟩
  inheritsFrom := none
  minecraftPath := [] }

def forgeFile (jvm : Option (List Argument)) : VersionFile Char.toLower := .ofLaunch forgeVersionId {
  assetIndex := none
  assets := none
  downloads := none
  id := some forgeVersionId
  libraries := some [brigadier]
  mainClass := some (("cpw.mods.bootstraplauncher.BootstrapLauncher" : String) : Text)
  minecraftArguments := none
  minimumLauncherVersion := 0
  releaseTime := none
  time := none
  type := some (("release" : String) : Text)
  arguments := some ⟨some [.string ("--launchTarget" : String)],jvm⟩
  inheritsFrom := some vanillaId
  minecraftPath := [] }

def versions (jvm : Option (List Argument)) (id : Text) : Option (VersionFile Char.toLower) :=
  if id = forgeVersionId then some (forgeFile jvm) else if id = vanillaId then some gameFile else none

theorem versions_chain (jvm : Option (List Argument)) :
    Chain (versions jvm) forgeVersionId [forgeFile jvm,gameFile] := by
  have other : vanillaId ≠ forgeVersionId := by decide
  apply Chain.child (if_pos rfl) rfl (by decide : vanillaId ≠ [])
  exact Chain.root ((if_neg other).trans (if_pos rfl)) rfl

theorem versions_acyclic (jvm : Option (List Argument)) :
    ([forgeFile jvm,gameFile].map (·.version.id)).Nodup := by
  have other : [forgeVersionId,vanillaId].Nodup := by decide
  exact other

theorem versions_notRoot (jvm : Option (List Argument)) {P : Prop}
    (root : rootIsRoot [forgeFile jvm,gameFile] = true) : P := by
  have plain : rootIsRoot [forgeFile jvm,gameFile] = false := rfl
  rw [plain] at root
  exact absurd root (by decide)

theorem versions_inheritable : Inheritable [forgeFile none,gameFile] where
  loads := ⟨trivial,fun _ => by decide,fun _ => ⟨by decide,fun _ => by decide⟩⟩
  mainClass := trivial
  minecraftArguments _ := rfl
  assets := versions_notRoot none
  assetIndex _ := rfl
  type := Or.inl (by decide)
  libraries := versions_notRoot none
  launchGame := ⟨fun _ => by decide,trivial⟩
  game := versions_notRoot none
  launchJvm file member := by
    obtain rfl := List.mem_singleton.mp member
    rfl
  jvm := versions_notRoot none

theorem resolvers_agree_without_jvm :
    ∃ l v, LaunchVersion.fromDirectory (readLaunch (versions none)) (fun _ => [])
        LaunchVersion.byName 2 forgeVersionId =
        some l ∧ repositoryVersion (versions none) 2 forgeVersionId = some v ∧
      Agrees [forgeFile none,gameFile] l v :=
  (resolvers_agree_iff (versions_chain none) (versions_acyclic none) (Nat.le_refl 2) _).1.mpr
    versions_inheritable

def modulePath : List Argument := [.string ("-p" : String)]

/-- The module path options of Forge never reach the virtual machine. -/
theorem jvm_arguments_lost :
    Chain (versions (some modulePath)) forgeVersionId [forgeFile (some modulePath),gameFile] ∧
      ([forgeFile (some modulePath),gameFile].map (·.version.id)).Nodup ∧
      (LaunchVersion.fromDirectory (readLaunch (versions (some modulePath))) (fun _ => [])
        LaunchVersion.byName 2
        forgeVersionId).map (fun l => jvmOf l.arguments) = some [] ∧
      (repositoryVersion (versions (some modulePath)) 2 forgeVersionId).map
        (fun v => jvmOf v.arguments) = some modulePath := by
  refine ⟨versions_chain _,versions_acyclic _,?_,?_⟩
  · decide +kernel
  · decide +kernel

end HmclPe.Launch.Inheritance
