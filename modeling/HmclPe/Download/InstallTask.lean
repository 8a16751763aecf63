import HmclPe.Download.CancelledFiles
import HmclPe.Launch.CheckLibTask
import HmclPe.Lib.Interactions

/-! The tasks that install the game, Forge and Fabric. Their `doInBackground` is a program that asks
for the state it shares with the user and the workers of its downloads. -/
namespace HmclPe.Download.InstallTask
open HmclPe.Java HmclPe.Game HmclPe.Lib.Runs HmclPe.Lib.Interactions
open HmclPe.Launch.CheckLibTask
open HmclPe.Download.MultipleFiles (DownloadTaskListBean)

section AsyncTask

/-- `onFailed` is the callback, `awaits` the part of `downloadMultipleFiles` that runs the pool and
waits for it, `reads` the loop over the beans it returned. -/
inductive Query where
  | isCancelled
  | onFailed
  | cancel
  | awaits (list : List DownloadTaskListBean) (maxTask : Nat)
  | reads

/-- A wait ends normally or with an `InterruptedException` and gives the list of failed beans; a loop
over them may find that a worker has added one meanwhile. -/
@[reducible] def Answer : Query → Type
  | .isCancelled => Bool
  | .onFailed => Unit
  | .cancel => Unit
  | .awaits _ _ => Bool × List (Option DownloadTaskListBean)
  | .reads => Bool

abbrev Background := Lib.Interactions.Program Query Answer

open Lib.Interactions.Program

/-- The flags of the task, the calls of its two callbacks, the beans it was to download and those it
has downloaded, and whether workers outlive the call they were started in. -/
structure Shared where
  cancelled : Bool
  byUser : Bool
  failed : Nat
  finished : List (Option Version)
  lists : List DownloadTaskListBean
  downloaded : List DownloadTaskListBean
  live : Bool

def Shared.fresh : Shared := ⟨false,false,0,[],[],[],false⟩

def Shared.cancels (s : Shared) : Shared := { s with cancelled := true, byUser := true }

def isTerminated (threadPool : ThreadPool DownloadTaskListBean CancelledFiles.Stage) : Bool :=
  threadPool.isShutdown && threadPool.queue.isEmpty && threadPool.workers.isEmpty

/-- The flag allows downloads that are lost: workers that throw, additions that race, a wait that is
too short and a list that changes while it is read. -/
def Answers (losing : Bool) : (query : Query) → Shared → Answer query → Shared → Prop
  | .isCancelled, s, cancelled, s' => cancelled = s.cancelled ∧ s' = s
  | .onFailed, s, _, s' => s' = { s with failed := s.failed + 1 }
  | .cancel, s, _, s' => s' = { s with cancelled := true }
  | .awaits list maxTask, s, (interrupted,failedFile), s' =>
    ∃ call, (CancelledFiles.downloadMultipleFiles losing list maxTask s.cancelled
        s.byUser).Reachable call ∧ call.submitter = .returned ∧
      interrupted = call.interrupted ∧ failedFile = call.session.failedFile ∧
      s' = { s with
        cancelled := call.session.cancelled
        byUser := call.session.byUser
        lists := s.lists ++ list
        downloaded := s.downloaded ++ call.session.downloaded
        live := s.live || !isTerminated call.threadPool }
  | .reads, s, changed, s' => s' = s ∧ (changed = true → losing = true ∧ s.live = true)

def environment (losing : Bool) : Environment Query Answer Shared :=
  ⟨Answers losing,fun s s' => s' = s.cancels⟩

def isCancelled : Background Bool := ask .isCancelled fun cancelled => returns cancelled

def onFailed : Background Unit := ask .onFailed fun _ => returns ()

def cancel : Background Unit := ask .cancel fun _ => returns ()

def awaits (list : List DownloadTaskListBean) (maxTask : Nat) :
    Background (Bool × List (Option DownloadTaskListBean)) :=
  ask (.awaits list maxTask) fun result => returns result

def reads : Background Bool := ask .reads fun changed => returns changed

/-- `if (!isCancelled()) callback.onFailed(e); cancel(true);` -/
def report : Background Unit := do
  let cancelled ← isCancelled
  if cancelled = true then cancel
  else
    onFailed
    cancel

/-- A pool or queue of no size is an exception. -/
def downloadMultipleFiles (list : List DownloadTaskListBean) (maxTask : Int) :
    Background (List (Option DownloadTaskListBean)) := do
  if maxTask < 1 then throws
  else
    let (interrupted,failedFile) ← awaits list maxTask.toNat
    if interrupted = true then
      report
      return failedFile
    else return failedFile

/-- The message lists the beans, and there is none for a null. -/
def reportFiles (failedFiles : List (Option DownloadTaskListBean)) : Background Unit := do
  let changed ← reads
  if changed = true ∨ none ∈ failedFiles then throws else report

/-- `failedFiles.size() > 0` -/
def reportFailed (failedFiles : List (Option DownloadTaskListBean)) : Background Unit :=
  if failedFiles = [] then return () else reportFiles failedFiles

/-- What a request gives: a text, an `IOException`, or an exception that nobody catches. -/
inductive Response where
  | text (s : Text)
  | ioException
  | runtimeException

/-- What Gson makes of a text. -/
inductive Parsed (α : Type) where
  | value (a : α)
  | null
  | throws

variable {α : Type}

/-- A missing text is parsed to a missing value. -/
def fromJson (parse : Text → Parsed α) : Option Text → Background (Option α)
  | none => return none
  | some s => match parse s with
    | .value a => return some a
    | .null => return none
    | .throws => throws

/-- A request with its `catch`. -/
def doGet : Response → Background (Option Text)
  | .text s => return some s
  | .ioException => do
    report
    return none
  | .runtimeException => throws

/-- What `doInBackground` returns, and whether it has set the command of the Forge processors. -/
structure Result where
  version : Option Version
  args : Bool

end AsyncTask

section Versions

/-- A version as it is parsed, with the nulls among its patches. A library is missing where its
getters throw: where it is null, or has nulls among its rules or natives. -/
structure VersionJson where
  version : Version
  libraries : List (Option Library)
  same : version.getLibraries = libraries.reduceOption
  patches : List (Option Version)
  samePatches : version.getPatches = patches.reduceOption

/-- `Version.addPatch` looks at the id of each patch. -/
def VersionJson.addPatch (raw : VersionJson) (additional : Version) : Option Version := do
  let _ ← raw.patches.mapM id
  return raw.version.addPatch additional

/-- An index as it is parsed, with the values of its map. -/
structure AssetIndexJson where
  objects : Option (List (Option AssetObject))

/-- `Version.getDownloadInfo` -/
def getDownloadInfo (version : Version) : DownloadInfo :=
  let jarName := version.jar.getD version.id
  ((version.downloads.getD []).lookup .client).getD ⟨
    some (("https://s3.amazonaws.com/Minecraft.Download/versions/" : String) ++ jarName ++
      '/' :: jarName ++ (".jar" : String)),none,0⟩

/-- `DownloadInfo.getSha1` -/
def getJarSha1 (info : DownloadInfo) : Option Text :=
  if info.sha1 = some ("invalid" : String) then none else info.sha1

def hasDownloadURL (env : Platform) (library : Library) : Bool :=
  match library.getRawDownloadInfo env with
  | some info => info.url.isSome
  | none => library.url.isSome

structure LauncherSetting where
  platform : Platform
  gameFileDirectory : Text
  downloadUrlSource : SourceSetting
  maxDownloadTask : Int
  autoDownloadTaskQuantity : Bool

namespace LauncherSetting

variable (setting : LauncherSetting)

def source : Int := getSource setting.downloadUrlSource

def subUrl (type : SubUrl) : Text := getSubUrl setting.source type

def maxTask : Int := if setting.autoDownloadTaskQuantity then 64 else setting.maxDownloadTask

/-- The entry of a library, which is kept below `libraries` wherever it comes from. -/
def libraryBean (url : Text) (library : Library) : DownloadTaskListBean where
  name := library.artifact.fileName
  url := url
  path := setting.gameFileDirectory ++ ("/libraries/" : String) ++ library.getPath setting.platform
  sha1 := librarySha1 setting.platform library

end LauncherSetting

end Versions

open Lib.Interactions.Program

/-- What `MinecraftInstallTask` reads: its arguments, the answers to its requests and the parsers. -/
structure MinecraftInstall where
  setting : LauncherSetting
  name : Text
  gameVersionUrl : Option Text
  getVersionJson : Text → Response
  getAssetIndexJson : Text → Response
  parseVersion : Text → Parsed VersionJson
  parseAssetIndex : Text → Parsed AssetIndexJson

namespace MinecraftInstall

variable (task : MinecraftInstall)

def withoutHosts (host host' url : Text) : Text := Text.replace host' [] (Text.replace host [] url)

def metaPath (url : Text) : Text :=
  withoutHosts ("https://launchermeta.mojang.com" : String)
    ("https://piston-meta.mojang.com" : String) url

def versionJsonUrl (url : Text) : Text := task.setting.subUrl .versionJson ++ metaPath url

def assetIndexUrl (url : Text) : Text := task.setting.subUrl .assetsIndexJson ++ metaPath url

def jarBean (version : Version) (url : Text) : DownloadTaskListBean where
  name := task.name ++ (".jar" : String)
  url := task.setting.subUrl .versionJar ++
    withoutHosts ("https://launcher.mojang.com" : String)
      ("https://piston-data.mojang.com" : String) url
  path := task.setting.gameFileDirectory ++ ("/versions/" : String) ++ task.name ++ '/' ::
    task.name ++ (".jar" : String)
  sha1 := getJarSha1 (getDownloadInfo version)

def isListed (library : Library) : Bool :=
  !(library.getPath task.setting.platform).contains ("tv/twitch" : String) &&
    !(library.getPath task.setting.platform).contains ("lwjgl-platform-2.9.1-nightly" : String)

def libraryBean (library : Library) : DownloadTaskListBean :=
  task.setting.libraryBean
    (task.setting.subUrl .libraries ++ '/' :: library.getPath task.setting.platform) library

/-- The jar and the libraries, unless a getter throws. -/
def libList (raw : VersionJson) : Option (List DownloadTaskListBean) := do
  let url ← (getDownloadInfo raw.version).url
  let libraries ← raw.libraries.mapM id
  return task.jarBean raw.version url :: (libraries.filter task.isListed).map task.libraryBean

def objectBean (object : AssetObject) : DownloadTaskListBean where
  name := object.hash
  url := task.setting.subUrl .assetsObj ++ '/' :: object.getLocation
  path := task.setting.gameFileDirectory ++ ("/assets/objects/" : String) ++ object.getLocation
  sha1 := some object.hash

def indexBean (version : Version) (assetIndexUrl : Text) : DownloadTaskListBean where
  name := (getAssetIndex version).id ++ (".json" : String)
  url := assetIndexUrl
  path := task.setting.gameFileDirectory ++ ("/assets/indexes/" : String) ++
    (getAssetIndex version).id ++ (".json" : String)
  sha1 := getSha1 (getAssetIndex version)

def assetsList (version : Version) (assetIndexUrl : Text) (index : AssetIndexJson) :
    Option (List DownloadTaskListBean) := do
  let objects ← index.objects
  let objects ← objects.mapM id
  return task.indexBean version assetIndexUrl :: objects.map task.objectBean

def doInBackground : Background Result := do
  let gameVersionUrl ← orThrow task.gameVersionUrl
  let versionJson ← doGet (task.getVersionJson (task.versionJsonUrl gameVersionUrl))
  let rawPatch ← fromJson task.parseVersion versionJson
  let rawPatch ← orThrow rawPatch
  let url ← orThrow (getAssetIndex rawPatch.version).url
  let assetIndexUrl := task.assetIndexUrl url
  let assetIndexJson ← doGet (task.getAssetIndexJson assetIndexUrl)
  let assetIndex ← fromJson task.parseAssetIndex assetIndexJson
  let libList ← orThrow (task.libList rawPatch)
  let assetIndex ← orThrow assetIndex
  let assetsList ← orThrow (task.assetsList rawPatch.version assetIndexUrl assetIndex)
  let failedLibs ← downloadMultipleFiles libList task.setting.maxTask
  reportFailed failedLibs
  let failedAssets ← downloadMultipleFiles assetsList task.setting.maxTask
  reportFailed failedAssets
  let version := rawPatch.version
  let patched ← orThrow (rawPatch.addPatch
    (((version.setId ("game" : String)).setVersion (some version.id)).setPriority (some 0)))
  return ⟨some patched,false⟩

end MinecraftInstall

/-- What `FabricInstallTask` reads. -/
structure FabricInstall where
  setting : LauncherSetting
  mcVersion : Text
  fabricVersion : Text
  getProfileJson : Text → Response
  parseVersion : Text → Parsed VersionJson

namespace FabricInstall

variable (task : FabricInstall)

def patchUrl : Text :=
  ("https://meta.fabricmc.net/v2/versions/loader/" : String) ++ task.mcVersion ++ '/' ::
    task.fabricVersion ++ ("/profile/json" : String)

def libraryUrl (library : Library) : Text :=
  if task.setting.source = 0 then getDownloadUrl task.setting.platform library
  else if task.setting.source = 1 then
    getSubUrl 1 .libraries ++ '/' :: library.getPath task.setting.platform
  else getSubUrl 2 .libraries ++ '/' :: library.getPath task.setting.platform

def list (patch : VersionJson) : Option (List DownloadTaskListBean) := do
  let libraries ← patch.libraries.mapM id
  return libraries.map fun library =>
    task.setting.libraryBean (task.libraryUrl library) library

/-- The `catch` is around the whole body, and is for an `IOException` only. -/
def doInBackground : Background Result :=
  match task.getProfileJson task.patchUrl with
  | .runtimeException => throws
  | .ioException => do
    report
    return ⟨none,false⟩
  | .text patchStr => do
    let patch ← fromJson task.parseVersion (some patchStr)
    let patch ← orThrow patch
    let list ← orThrow (task.list patch)
    let failedFiles ← downloadMultipleFiles list task.setting.maxTask
    if failedFiles = [] then
      return ⟨some (((patch.version.setId ("fabric" : String)).setVersion
        (some task.fabricVersion)).setPriority (some 30000)),false⟩
    else
      reportFiles failedFiles
      return ⟨none,false⟩

end FabricInstall

/-- The first list of libraries of a new installer is that of its version, the second this one. -/
structure ForgeNewInstallProfile where
  libraries : List (Option Library)

structure ForgeInstall where
  path : Option Artifact

structure ForgeInstallProfile where
  install : Option ForgeInstall
  versionInfo : Option VersionJson

/-- What `ForgeInstallTask` reads: the files of the installer may be missing, and the profile may
have changed when it is read again. `keys` are those of the profile read as a map. -/
structure ForgeInstaller where
  setting : LauncherSetting
  forgeVersion : Text
  unzips : Bool
  firstProfile : Option Text
  parseMap : Text → Parsed (List Text)
  versionExists : Bool
  versionText : Option Text
  profileText : Option Text
  parseVersion : Text → Parsed VersionJson
  parseNewProfile : Text → Parsed ForgeNewInstallProfile
  parseProfile : Text → Parsed ForgeInstallProfile
  copies : Bool

namespace ForgeInstaller

variable (task : ForgeInstaller)

/-- The keys of the profile, unless `fromNonNullJson` throws. -/
def profileKeys : Option (List Text) :=
  match task.firstProfile.map task.parseMap with
  | some (.value keys) => some keys
  | _ => none

/-- What `isNewInstaller` returns. -/
def isNew : Bool :=
  match task.profileKeys with
  | some keys =>
    if keys.contains ("spec" : String) then true
    else if keys.contains ("install" : String) && keys.contains ("versionInfo" : String) then false
    else task.versionExists
  | none => task.versionExists

def isNewInstaller : Background Bool :=
  match task.profileKeys with
  | some _ => return task.isNew
  | none => do
    report
    return task.isNew

def libraryUrl (library : Library) : Text :=
  task.setting.subUrl .forgeLibraries ++ '/' :: library.getPath task.setting.platform

def newBean (library : Library) : DownloadTaskListBean :=
  let url := getDownloadUrl task.setting.platform library
  task.setting.libraryBean
    (if task.setting.source = 0 ∧ url ≠ [] then url else task.libraryUrl library) library

/-- The libraries of the version and of the profile that say where they are. -/
def newList (patch : VersionJson) (profile : ForgeNewInstallProfile) :
    Option (List DownloadTaskListBean) := do
  let libraries ← patch.libraries.mapM id
  let others ← profile.libraries.mapM id
  return ((libraries ++ others).filter (hasDownloadURL task.setting.platform)).map task.newBean

def oldBean (library : Library) : DownloadTaskListBean :=
  task.setting.libraryBean
    (if task.setting.source = 0 then getDownloadUrl task.setting.platform library
      else task.libraryUrl library) library

def isListed (universal : Artifact) (library : Library) : Bool :=
  library.getPath task.setting.platform ≠ universal.path &&
    !(library.getPath task.setting.platform).contains
      ("lwjgl-platform-2.9.1-nightly-20130708-debug3" : String) &&
    hasDownloadURL task.setting.platform library

/-- The path of the universal jar is looked at for each library. -/
def oldList (patch : VersionJson) (install : Option ForgeInstall) :
    Option (List DownloadTaskListBean) :=
  match patch.libraries, install.bind (·.path) with
  | [], _ => some []
  | _ :: _, none => none
  | libraries, some universal => do
    let libraries ← libraries.mapM id
    return (libraries.filter (task.isListed universal)).map task.oldBean

def patched (patch : VersionJson) : Version :=
  ((patch.version.setId ("forge" : String)).setVersion (some task.forgeVersion)).setPriority
    (some 30000)

def installNew : Background Result := do
  let patch ← fromJson task.parseVersion task.versionText
  let profile ← fromJson task.parseNewProfile task.profileText
  let patch ← orThrow patch
  let profile ← orThrow profile
  let list ← orThrow (task.newList patch profile)
  let failedFiles ← downloadMultipleFiles list task.setting.maxTask
  if failedFiles = [] then return ⟨some (task.patched patch),true⟩
  else
    reportFiles failedFiles
    return ⟨none,false⟩

/-- The universal jar is copied below the libraries. -/
def copyUniversal (patch : VersionJson) (install : Option ForgeInstall) : Background Result := do
  let _ ← orThrow (install.bind (·.path))
  if task.copies = true then return ⟨some (task.patched patch),false⟩
  else
    report
    return ⟨none,false⟩

def installOld : Background Result := do
  let profile ← fromJson task.parseProfile task.profileText
  let profile ← orThrow profile
  let patch ← orThrow profile.versionInfo
  let list ← orThrow (task.oldList patch profile.install)
  let failedFiles ← downloadMultipleFiles list task.setting.maxTask
  if failedFiles = [] then task.copyUniversal patch profile.install
  else
    reportFiles failedFiles
    return ⟨none,false⟩

def unzipFile : Background Unit := if task.unzips = true then return () else report

def doInBackground : Background Result := do
  task.unzipFile
  let isNew ← task.isNewInstaller
  if isNew = true then task.installNew else task.installOld

end ForgeInstaller

inductive Task where
  | minecraft (task : MinecraftInstall)
  | forge (task : ForgeInstaller)
  | fabric (task : FabricInstall)

/-- What is left to do on the main thread: `finish` has not run, the server waits for the exit code
of the Forge processors or has got it, or nothing is left. -/
inductive Post where
  | waiting
  | serving (version : Version)
  | served (version : Version)
  | ended

def Post.Over : Post → Prop
  | .waiting => False
  | .serving _ => False
  | .served _ => True
  | .ended => True

namespace Task

def doInBackground : Task → Background Result
  | .minecraft task => task.doInBackground
  | .forge task => task.doInBackground
  | .fabric task => task.doInBackground

def finishes (version : Option Version) (s : Shared) : Shared :=
  { s with finished := s.finished ++ [version] }

def fails (s : Shared) : Shared := { s with failed := s.failed + 1 }

def onPostExecute (task : Task) (result : Result) (s : Shared) : Shared × Post :=
  match task,result.version with
  | .minecraft _, version => (finishes version s,.ended)
  | .forge _, none => (fails s,.ended)
  | .forge _, some version =>
    if result.args then (s,.serving version) else (finishes (some version) s,.ended)
  | .fabric _, none => (fails s,.ended)
  | .fabric _, some version => (finishes (some version) s,.ended)

/-- The exit code, or a message that `parseInt` throws at. -/
def onReceive (version : Version) (code : Option Int) (s : Shared) : Shared :=
  match code with
  | some code => if code ≠ 0 then fails s else finishes (some version) s
  | none => s

end Task

/-- A task that is not started has no program; its result waits for the main thread. -/
structure State where
  background : Option (Background Result)
  shared : Shared
  post : Post

/-- `AsyncTask`: a task that is cancelled before it starts does not run, and what follows
`doInBackground` depends on the flag of the task then. The user may cancel at any time. The service
of the Forge processors sends one number, unless the flag lets it send anything else. -/
inductive Step (task : Task) (losing : Bool) : State → State → Prop
  | start (s : State) (idle : s.background = none) (waits : s.post = .waiting)
      (goes : s.shared.cancelled = false) :
      Step task losing s { s with background := some task.doInBackground }
  | skip (s : State) (idle : s.background = none) (waits : s.post = .waiting)
      (cancelled : s.shared.cancelled = true) : Step task losing s { s with post := .ended }
  | run (s : State) (program program' : Background Result) (shared : Shared)
      (at_ : s.background = some program)
      (step : (environment losing).Step (program,s.shared) (program',shared)) :
      Step task losing s { s with background := some program', shared := shared }
  | raised (s : State) (at_ : s.background = some .throws) (waits : s.post = .waiting) :
      Step task losing s { s with shared := { s.shared with cancelled := true }, post := .ended }
  | onCancelled (s : State) (result : Result) (at_ : s.background = some (.returns result))
      (waits : s.post = .waiting) (cancelled : s.shared.cancelled = true) :
      Step task losing s { s with post := .ended }
  | onPostExecute (s : State) (result : Result) (at_ : s.background = some (.returns result))
      (waits : s.post = .waiting) (goes : s.shared.cancelled = false) :
      Step task losing s { s with
        shared := (task.onPostExecute result s.shared).1
        post := (task.onPostExecute result s.shared).2 }
  | onReceive (s : State) (version : Version) (code : Option Int)
      (at_ : s.post = .serving version) (number : losing = true ∨ code.isSome = true) :
      Step task losing s { s with
        shared := Task.onReceive version code s.shared, post := .served version }
  | onReceiveAgain (s : State) (version : Version) (code : Option Int)
      (at_ : s.post = .served version) (loses : losing = true) :
      Step task losing s { s with shared := Task.onReceive version code s.shared }
  | cancel (s : State) : Step task losing s { s with shared := s.shared.cancels }

/-- All runs of a task, with every order of its steps and those of the user. -/
def execute (task : Task) (losing : Bool) : System State :=
  ⟨fun s => s = ⟨none,.fresh,.waiting⟩,Step task losing⟩

structure ReportsOnce (s : State) : Prop where
  raises : s.background ≠ some .throws
  most : s.shared.failed + s.shared.finished.length ≤ 1
  once : s.post.Over → s.shared.byUser = false → s.shared.failed + s.shared.finished.length = 1
  downloaded : s.shared.finished ≠ [] → s.shared.lists ⊆ s.shared.downloaded

/-- The requests are answered by texts that parse to values whose fields are there. -/
def MinecraftInstall.Usable (task : MinecraftInstall) : Prop :=
  ∃ gameVersionUrl, task.gameVersionUrl = some gameVersionUrl ∧
  ∃ versionJson, task.getVersionJson (task.versionJsonUrl gameVersionUrl) = .text versionJson ∧
  ∃ raw, task.parseVersion versionJson = .value raw ∧ none ∉ raw.libraries ∧
    none ∉ raw.patches ∧ (getDownloadInfo raw.version).url ≠ none ∧
  ∃ url, (getAssetIndex raw.version).url = some url ∧
  ∃ indexJson, task.getAssetIndexJson (task.assetIndexUrl url) = .text indexJson ∧
  ∃ index, task.parseAssetIndex indexJson = .value index ∧
  ∃ objects, index.objects = some objects ∧ none ∉ objects

/-- The request fails with an `IOException`, or its answer parses to a version all of whose
libraries are there. -/
def FabricInstall.Usable (task : FabricInstall) : Prop :=
  task.getProfileJson task.patchUrl = .ioException ∨
  ∃ patchStr, task.getProfileJson task.patchUrl = .text patchStr ∧
  ∃ patch, task.parseVersion patchStr = .value patch ∧ none ∉ patch.libraries

def ForgeInstaller.UsableNew (task : ForgeInstaller) : Prop :=
  ∃ versionText, task.versionText = some versionText ∧
  ∃ profileText, task.profileText = some profileText ∧
  ∃ patch, task.parseVersion versionText = .value patch ∧ none ∉ patch.libraries ∧
  ∃ profile, task.parseNewProfile profileText = .value profile ∧ none ∉ profile.libraries

def ForgeInstaller.UsableOld (task : ForgeInstaller) : Prop :=
  ∃ profileText, task.profileText = some profileText ∧
  ∃ profile, task.parseProfile profileText = .value profile ∧
  ∃ patch, profile.versionInfo = some patch ∧ none ∉ patch.libraries ∧
    profile.install.bind (·.path) ≠ none

/-- The files of the installer that its kind needs are there and parse, whether or not the unpacking
and the look at its kind failed. -/
def ForgeInstaller.Usable (task : ForgeInstaller) : Prop :=
  if task.isNew then task.UsableNew else task.UsableOld

/-- The Fabric task does not come to its pool when its request fails. -/
def Task.Usable : Task → Prop
  | .minecraft task => task.Usable ∧ 1 ≤ task.setting.maxTask
  | .forge task => task.Usable ∧ 1 ≤ task.setting.maxTask
  | .fabric task => task.Usable ∧
      (task.getProfileJson task.patchUrl = .ioException ∨ 1 ≤ task.setting.maxTask)

end HmclPe.Download.InstallTask
