import HmclPe.Game.Version
import HmclPe.Launch.ClassPath
import HmclPe.Download.MultipleFiles

/-! The download list of the check before a launch: the asset index, the libraries and the asset
objects whose files are missing or wrong. -/
namespace HmclPe.Launch.CheckLibTask
open HmclPe.Java HmclPe.Game HmclPe.Io HmclPe.Launch.ClassPath
open HmclPe.Download.MultipleFiles hiding Platform

section Model

structure SourceSetting where
  autoSelect : Bool
  autoSourceType : Int
  fixSourceType : Int

inductive SubUrl
  | versionManifest | versionJson | versionJar | assetsIndexJson | assetsObj | libraries
  | forgeLibraries

def officialUrls : SubUrl → Text
  | .versionManifest => ("https://piston-meta.mojang.com/mc/game/version_manifest.json" : String)
  | .versionJson => ("https://piston-meta.mojang.com" : String)
  | .versionJar => ("https://piston-data.mojang.com" : String)
  | .assetsIndexJson => ("https://piston-meta.mojang.com" : String)
  | .assetsObj => ("https://resources.download.minecraft.net" : String)
  | .libraries => ("https://libraries.minecraft.net" : String)
  | .forgeLibraries => ("https://maven.minecraftforge.net" : String)

/-- The mirrors lay out their files alike. -/
def mirrorUrls (mirror : Text) : SubUrl → Text
  | .versionManifest => mirror ++ ("/mc/game/version_manifest.json" : String)
  | .versionJson => mirror
  | .versionJar => mirror
  | .assetsIndexJson => mirror
  | .assetsObj => mirror ++ ("/assets" : String)
  | .libraries => mirror ++ ("/maven" : String)
  | .forgeLibraries => mirror ++ ("/maven" : String)

def bmclapiUrls : SubUrl → Text := mirrorUrls ("https://bmclapi2.bangbang93.com" : String)

def mcbbsUrls : SubUrl → Text := mirrorUrls ("https://download.mcbbs.net" : String)

def getSubUrl (source : Int) (type : SubUrl) : Text :=
  if source = 0 then officialUrls type else if source = 1 then bmclapiUrls type else mcbbsUrls type

def getSource (setting : SourceSetting) : Int :=
  if setting.autoSelect then if setting.autoSourceType = 0 then 0 else 2 else setting.fixSourceType

/-- An object of an asset index; the hash has passed `validate`. -/
structure AssetObject where
  hash : Text
  validated : 2 ≤ hash.length

def AssetObject.getLocation (object : AssetObject) : Text :=
  object.hash.take 2 ++ '/' :: object.hash

/-- The objects of an asset index by their logical names, in the order of the file. -/
structure AssetIndex where
  objects : List (Text × AssetObject)
  nodup : (objects.map Prod.fst).Nodup

def AssetIndex.values (index : AssetIndex) : List AssetObject := index.objects.map Prod.snd

def getAssetIndex (version : Version) : AssetIndexInfo :=
  let assetsId := version.assets.getD ("legacy" : String)
  version.assetIndex.getD ⟨assetsId,
    some (("https://s3.amazonaws.com/Minecraft.Download/indexes/" : String) ++ assetsId ++
      (".json" : String)),none,0,0⟩

/-- `DownloadInfo.getSha1` -/
def getSha1 (info : AssetIndexInfo) : Option Text :=
  if info.sha1 = some ("invalid" : String) then none else info.sha1

/-- What the check reads: the settings, the files, the network (`none` is a request that fails)
and the parser of asset indexes (`none` is an exception). -/
structure Check (β : Type) where
  platform : Platform
  gameFileDirectory : Text
  downloadUrlSource : SourceSetting
  files : Files β
  getFileSha1 : β → Option Text
  getStringFromFile : β → Text
  doGet : Text → Option Text
  fromJson : Text → Option AssetIndex

variable {β : Type} (check : Check β) (version : Version)

def Check.isRight (path : Text) (sha1 : Option Text) : Bool :=
  isRightFile check.getFileSha1 check.files path sha1

def Check.subUrl (type : SubUrl) : Text := getSubUrl (getSource check.downloadUrlSource) type

def Check.indexPath : Text :=
  check.gameFileDirectory ++ ("/assets/indexes/" : String) ++ (getAssetIndex version).id ++
    (".json" : String)

/-- The text of the asset index, with its entry of the list where it was downloaded. -/
def Check.assetIndexString : Option (Text × List DownloadTaskListBean) :=
  let info := getAssetIndex version
  if check.isRight (check.indexPath version) (getSha1 info) then
    (check.files (check.indexPath version)).map fun content => (check.getStringFromFile content,[])
  else do
    let url ← info.url
    let assetIndexUrl := check.subUrl .assetsIndexJson ++
      Text.replace ("https://piston-meta.mojang.com" : String) []
        (Text.replace ("https://launchermeta.mojang.com" : String) [] url)
    let text ← check.doGet assetIndexUrl
    return (text,[⟨info.id ++ (".json" : String),assetIndexUrl,check.indexPath version,
      getSha1 info⟩])

/-- The address `Library.getDownload` gives. -/
def getDownloadUrl (env : Platform) (library : Library) : Text :=
  ((library.getRawDownloadInfo env).bind (·.url)).getD
    (library.url.getD ("https://libraries.minecraft.net/" : String) ++ library.getPath env)

def librarySha1 (env : Platform) (library : Library) : Option Text :=
  (library.getRawDownloadInfo env).bind (·.getSha1)

def Check.libraryBean (library : Library) : DownloadTaskListBean where
  name := library.artifact.fileName
  url :=
    if getDownloadUrl check.platform library ≠ [] then getDownloadUrl check.platform library
    else check.subUrl .libraries ++ '/' :: library.getPath check.platform
  path := verifiedFile check.platform check.gameFileDirectory library
  sha1 := librarySha1 check.platform library

def Check.listedLibraries : List Library :=
  librariesToDownload check.platform check.getFileSha1 check.files check.gameFileDirectory
    version.getLibraries

def Check.objectPath (object : AssetObject) : Text :=
  check.gameFileDirectory ++ ("/assets/objects/" : String) ++ object.getLocation

def Check.objectBean (object : AssetObject) : DownloadTaskListBean where
  name := object.hash
  url := check.subUrl .assetsObj ++ '/' :: object.getLocation
  path := check.objectPath object
  sha1 := some object.hash

def Check.listedObjects (index : AssetIndex) : List AssetObject :=
  index.values.filter fun object => !check.isRight (check.objectPath object) (some object.hash)

def Check.assetIndex : Option AssetIndex :=
  (check.assetIndexString version).bind fun (text,_) => check.fromJson text

/-- The list of a check, unless it ends with an exception before. -/
def Check.downloadList : Option (List DownloadTaskListBean) := do
  let (text,indexBeans) ← check.assetIndexString version
  let index ← check.fromJson text
  return indexBeans ++ (check.listedLibraries version).map check.libraryBean ++
    (check.listedObjects index).map check.objectBean

end Model

/-- A file the version needs; the check passes over two kinds of libraries. -/
structure RequiredFile where
  path : Text
  sha1 : Option Text
  exempt : Bool

/-- Where a file is put, and how it is checked there. -/
def RequiredFile.target (file : RequiredFile) : Text × Option Text := (file.path,file.sha1)

def target (bean : DownloadTaskListBean) : Text × Option Text := (bean.path,bean.sha1)

section Required
variable {β : Type} (check : Check β) (version : Version)

def Check.required (index : AssetIndex) : List RequiredFile :=
  [⟨check.indexPath version,getSha1 (getAssetIndex version),false⟩] ++
    version.getLibraries.map (fun library =>
      ⟨verifiedFile check.platform check.gameFileDirectory library,
        librarySha1 check.platform library,exempt check.platform library⟩) ++
    index.values.map fun object => ⟨check.objectPath object,some object.hash,false⟩

def Check.missing (file : RequiredFile) : Bool :=
  !check.isRight file.path file.sha1 && !file.exempt

variable {check} {version}

theorem index_listed {text : Text} {beans : List DownloadTaskListBean}
    (read : check.assetIndexString version = some (text,beans)) :
    beans.map target = (([⟨check.indexPath version,getSha1 (getAssetIndex version),false⟩] :
      List RequiredFile).filter check.missing).map RequiredFile.target := by
  unfold Check.assetIndexString at read
  cases right : check.isRight (check.indexPath version) (getSha1 (getAssetIndex version)) with
  | true =>
    simp only [right,if_true,Option.map_eq_some_iff,Prod.mk.injEq] at read
    obtain ⟨content,-,-,rfl⟩ := read
    simp [Check.missing,right]
  | false =>
    simp only [right,Bool.false_eq_true,if_false,Option.bind_eq_bind,
      Option.bind_eq_some_iff] at read
    obtain ⟨url,-,downloaded,-,given⟩ := read
    obtain ⟨-,rfl⟩ := Prod.mk.inj (Option.some.inj given)
    simp [Check.missing,right,target,RequiredFile.target]

theorem libraries_listed :
    ((check.listedLibraries version).map check.libraryBean).map target =
      ((version.getLibraries.map fun library =>
        (⟨verifiedFile check.platform check.gameFileDirectory library,
          librarySha1 check.platform library,exempt check.platform library⟩ : RequiredFile)).filter
            check.missing).map RequiredFile.target := by
  rw [List.filter_map,List.map_map,List.map_map]
  rfl

theorem objects_listed (index : AssetIndex) :
    ((check.listedObjects index).map check.objectBean).map target =
      ((index.values.map fun object =>
        (⟨check.objectPath object,some object.hash,false⟩ : RequiredFile)).filter
          check.missing).map RequiredFile.target := by
  rw [List.filter_map,List.map_map,List.map_map,Check.listedObjects]
  congr 1
  apply List.filter_congr
  intro object _
  simp [Check.missing]

theorem downloadList_some {list : List DownloadTaskListBean}
    (built : check.downloadList version = some list) :
    ∃ text beans index, check.assetIndexString version = some (text,beans) ∧
      check.assetIndex version = some index ∧
      list = beans ++ (check.listedLibraries version).map check.libraryBean ++
        (check.listedObjects index).map check.objectBean := by
  simp only [Check.downloadList,Option.bind_eq_bind,Option.bind_eq_some_iff] at built
  obtain ⟨⟨text,beans⟩,read,index,parsed,given⟩ := built
  refine ⟨text,beans,index,read,?_,(Option.some.inj given).symm⟩
  rw [Check.assetIndex,read]
  exact parsed

/-- The list has the missing files that are required, in their order. -/
theorem targets_eq {text : Text} {beans : List DownloadTaskListBean} {index : AssetIndex}
    (read : check.assetIndexString version = some (text,beans)) :
    (beans ++ (check.listedLibraries version).map check.libraryBean ++
      (check.listedObjects index).map check.objectBean).map target =
      ((check.required version index).filter check.missing).map RequiredFile.target := by
  rw [List.map_append,List.map_append,index_listed read,libraries_listed,objects_listed,
    Check.required,List.filter_append,List.filter_append,List.map_append,List.map_append]

end Required

section Paths
variable {β : Type} {check : Check β} {version : Version}

variable (check) in
theorem libraryPaths_nodup (libraries : List Library) :
    ((libraries.map check.libraryBean).map (·.path)).Nodup ↔
      (libraries.map (·.getPath check.platform)).Nodup := by
  have paths : (libraries.map check.libraryBean).map (·.path) =
      (libraries.map (·.getPath check.platform)).map
        ((check.gameFileDirectory ++ ("/libraries/" : String)) ++ ·) := by
    rw [List.map_map,List.map_map]
    rfl
  rw [paths]
  exact List.nodup_map_iff (List.append_right_injective _)

theorem getLocation_inj {object other : AssetObject}
    (same : object.getLocation = other.getLocation) : object.hash = other.hash := by
  have long := object.validated
  have long' := other.validated
  obtain ⟨-,rest⟩ := List.append_inj same (by simp [List.length_take,long,long'])
  exact (List.cons.inj rest).2

theorem objectPath_inj (object other : AssetObject) :
    check.objectPath object = check.objectPath other ↔ object.hash = other.hash := by
  constructor
  · intro same
    exact getLocation_inj (List.append_cancel_left same)
  · intro same
    rw [Check.objectPath,Check.objectPath,AssetObject.getLocation,AssetObject.getLocation,same]

variable (check) in
theorem objectPaths_nodup (objects : List AssetObject) :
    ((objects.map check.objectBean).map (·.path)).Nodup ↔ (objects.map (·.hash)).Nodup := by
  rw [List.map_map,List.nodup_iff_pairwise_ne,List.nodup_iff_pairwise_ne,List.pairwise_map,
    List.pairwise_map]
  apply List.Pairwise.iff
  intro object other
  exact not_congr (objectPath_inj object other)

theorem index_beans {text : Text} {beans : List DownloadTaskListBean}
    (read : check.assetIndexString version = some (text,beans)) :
    (beans.map (·.path)).Nodup ∧ ∀ bean ∈ beans, bean.path = check.indexPath version := by
  have listed := index_listed read
  rw [List.filter_singleton] at listed
  generalize check.missing _ = missing at listed
  cases missing with
  | false =>
    obtain rfl := List.map_eq_nil_iff.mp listed
    simp
  | true =>
    obtain ⟨bean,rfl,same⟩ := List.map_eq_singleton_iff.mp listed
    simpa using (Prod.mk.inj same).1

theorem index_ne_library (library : Library) :
    check.indexPath version ≠ (check.libraryBean library).path := by
  simp [Check.indexPath,Check.libraryBean,verifiedFile]

theorem index_ne_object (object : AssetObject) :
    check.indexPath version ≠ (check.objectBean object).path := by
  simp [Check.indexPath,Check.objectBean,Check.objectPath]

theorem library_ne_object (library : Library) (object : AssetObject) :
    (check.libraryBean library).path ≠ (check.objectBean object).path := by
  simp [Check.libraryBean,verifiedFile,Check.objectBean,Check.objectPath]

/-- The three groups of files lie in three directories. -/
theorem paths_nodup {text : Text} {beans : List DownloadTaskListBean} {index : AssetIndex}
    (read : check.assetIndexString version = some (text,beans)) :
    ((beans ++ (check.listedLibraries version).map check.libraryBean ++
      (check.listedObjects index).map check.objectBean).map (·.path)).Nodup ↔
      ((check.listedLibraries version).map (·.getPath check.platform)).Nodup ∧
        ((check.listedObjects index).map (·.hash)).Nodup := by
  obtain ⟨single,place⟩ := index_beans read
  rw [← libraryPaths_nodup,← objectPaths_nodup check,List.map_append,List.map_append]
  constructor
  · intro nodup
    obtain ⟨front,objects,-⟩ := List.nodup_append.mp nodup
    obtain ⟨-,libraries,-⟩ := List.nodup_append.mp front
    exact ⟨libraries,objects⟩
  · rintro ⟨libraries,objects⟩
    refine List.nodup_append.mpr ⟨List.nodup_append.mpr ⟨single,libraries,?_⟩,objects,?_⟩
    · simp only [List.map_map,List.forall_mem_map]
      intro bean member library _
      rw [place bean member]
      exact index_ne_library library
    · simp only [← List.map_append,List.forall_mem_map]
      intro bean member object _
      rcases List.mem_append.mp member with first | second
      · rw [place bean first]
        exact index_ne_object object
      · obtain ⟨library,-,rfl⟩ := List.mem_map.mp second
        exact library_ne_object library object

end Paths

/-- The list has the required files that are missing, and it names no file twice exactly if no
two libraries on it have one path and no two objects on it one hash. -/
theorem downloadList_iff {β : Type} (check : Check β) (version : Version)
    {list : List DownloadTaskListBean} (built : check.downloadList version = some list) :
    ∃ index, check.assetIndex version = some index ∧
      list.map target =
        ((check.required version index).filter check.missing).map RequiredFile.target ∧
      ((list.map (·.path)).Nodup ↔
        ((check.listedLibraries version).map (·.getPath check.platform)).Nodup ∧
          ((check.listedObjects index).map (·.hash)).Nodup) := by
  obtain ⟨text,beans,index,read,parsed,rfl⟩ := downloadList_some built
  exact ⟨index,parsed,targets_eq read,paths_nodup read⟩

/-- A sound with two logical names, on a device without any files. -/
def twoNames : Check Text where
  platform := .arm64
  gameFileDirectory := ("/games" : String)
  downloadUrlSource := ⟨true,0,0⟩
  files _ := none
  getFileSha1 := some
  getStringFromFile := id
  doGet := some
  fromJson _ := some ⟨[(("step1.ogg" : String),⟨("5ab3" : String),by decide⟩),
    (("step2.ogg" : String),⟨("5ab3" : String),by decide⟩)],by decide⟩

def plainVersion : Version := .ofId ("1.12.2" : String)

theorem downloadList_plainVersion : ∃ list, twoNames.downloadList plainVersion = some list ∧
    ∃ index, twoNames.assetIndex plainVersion = some index ∧
      list.map target =
        ((twoNames.required plainVersion index).filter twoNames.missing).map RequiredFile.target ∧
      ((list.map (·.path)).Nodup ↔
        ((twoNames.listedLibraries plainVersion).map (·.getPath twoNames.platform)).Nodup ∧
          ((twoNames.listedObjects index).map (·.hash)).Nodup) :=
  ⟨_,rfl,downloadList_iff twoNames plainVersion rfl⟩

theorem object_listed_twice : ∃ list, twoNames.downloadList plainVersion = some list ∧
    ¬ (list.map (·.path)).Nodup := by
  refine ⟨_,rfl,?_⟩
  decide

end HmclPe.Launch.CheckLibTask
