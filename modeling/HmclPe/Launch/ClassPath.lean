import HmclPe.Game.Library
import HmclPe.Io.Files

/-! The class path of a launch against the library check before it. The launcher cuts
the name of a library itself; the check asks the parsed library for its path. -/
namespace HmclPe.Launch.ClassPath
open HmclPe.Java HmclPe.Game HmclPe.Io

variable {β : Type}

/-- One entry of the library list of a version file, as its two readers see it. -/
structure LibraryEntry where
  name : Option Text
  library : Library
  parsed : ∀ n ∈ name, Artifact.fromDescriptor n = some library.artifact

def LibraryEntry.filtered (isJava17 : Bool) (lib : LibraryEntry) : Bool :=
  match lib.name with
  | none => true
  | some name => name = [] || name.contains ("org.lwjgl" : String) ||
      name.contains ("natives" : String) || (isJava17 && name.contains ("java-objc-bridge" : String))

/-- The file of a library on the class path; `none` is the exception for a missing part. -/
def classPathFile (gameFileDir : Text) (lib : LibraryEntry) : Option Text :=
  match (lib.name.getD []).split ':' with
  | packageName :: mainName :: versionName :: _ =>
    some (gameFileDir ++ ("/libraries/" : String) ++ packageName.replaceChar '.' '/' ++
      ('/' :: mainName) ++ ('/' :: versionName) ++ ('/' :: mainName) ++ ('-' :: versionName) ++
      (".jar" : String))
  | _ => none

def classPathFiles (gameFileDir : Text) (isJava17 : Bool) (files : Files β) :
    List LibraryEntry → Option (List Text)
  | [] => some []
  | lib :: libraries =>
    if lib.filtered isJava17 then classPathFiles gameFileDir isJava17 files libraries
    else do
      let path ← classPathFile gameFileDir lib
      let paths ← classPathFiles gameFileDir isJava17 files libraries
      return if files.exist path then path :: paths else paths

def getClassPath (gameFileDir minecraftPath : Text) (high isJava17 : Bool) (files : Files β)
    (libraries : List LibraryEntry) : Option Text := do
  let paths ← classPathFiles gameFileDir isJava17 files libraries
  let cp := [':'].intercalate paths
  let split : Text := if paths = [] then [] else [':']
  return if high then cp ++ split ++ minecraftPath else minecraftPath ++ split ++ cp

section Check

variable (env : Platform)

/-- The file the check verifies, and downloads where it is not right. -/
def verifiedFile (gameFileDir : Text) (library : Library) : Text :=
  gameFileDir ++ ("/libraries/" : String) ++ library.getPath env

def exempt (library : Library) : Bool :=
  (library.getPath env).contains ("tv/twitch" : String) ||
    (library.getPath env).contains ("lwjgl-platform-2.9.1-nightly" : String)

/-- The libraries the check puts on its download list. -/
def librariesToDownload (getFileSha1 : β → Option Text) (files : Files β) (gameFileDir : Text)
    (libraries : List Library) : List Library :=
  libraries.filter fun library =>
    !isRightFile getFileSha1 files (verifiedFile env gameFileDir library)
        ((library.getRawDownloadInfo env).bind (·.getSha1)) && !exempt env library

/-- Where a library without a path of its own is expected: three plain parts and no classifier. -/
def PlainName (name : Text) (library : Library) : Prop :=
  ∃ group artifact version, name.splitLimit ':' 4 = [group,artifact,version] ∧ version ≠ [] ∧
    '\\' ∉ group ∧ (version.split '@').length ≠ 2 ∧ library.getClassifier env = none

/-- A path of its own must be the repository path of the first three parts of the name. -/
def RepositoryPath (name path : Text) : Prop :=
  ∃ group artifact version more, name.split ':' = group :: artifact :: version :: more ∧
    path = (Artifact.make group artifact version none none).path

def SamePlace (lib : LibraryEntry) : Prop :=
  match (lib.library.getRawDownloadInfo env).bind (·.path) with
  | some path => RepositoryPath (lib.name.getD []) path
  | none => PlainName env (lib.name.getD []) lib.library

end Check

section Paths

theorem classPathFile_eq (gameFileDir : Text) (lib : LibraryEntry) (path : Text) :
    classPathFile gameFileDir lib = some (gameFileDir ++ ("/libraries/" : String) ++ path) ↔
      RepositoryPath (lib.name.getD []) path := by
  unfold classPathFile RepositoryPath
  constructor
  · intro built
    split at built
    · rename_i packageName mainName versionName more cut
      refine ⟨packageName,mainName,versionName,more,cut,?_⟩
      simp only [Option.some.injEq,List.append_assoc,List.append_cancel_left_eq] at built
      rw [← built]
      simp [Artifact.path,Artifact.make,Artifact.fileName]
    · simp at built
  · rintro ⟨group,artifact,version,more,cut,rfl⟩
    rw [cut]
    simp [Artifact.path,Artifact.make,Artifact.fileName]

theorem cutExtension_some {last before : Text} {ext : Option Text}
    (cut : Artifact.cutExtension last = some (before,ext)) :
    (ext = none ∧ before = last ∧ (last.split '@').length ≠ 2) ∨
      (ext ≠ none ∧ (last.split '@').length = 2 ∧ ∃ rest, last = before ++ '@' :: rest) := by
  unfold Artifact.cutExtension at cut
  split at cut
  · rename_i first second parts
    simp only [Option.some.injEq,Prod.mk.injEq] at cut
    obtain ⟨rfl,rfl⟩ := cut
    right
    refine ⟨by simp,by simp [parts],?_⟩
    have pieces := Text.split_prefix '@' last
    by_cases member : '@' ∈ last
    · obtain ⟨rest,whole,_,free⟩ := Text.splitAt_sep member
      refine ⟨rest,?_⟩
      rw [parts,whole,List.splitOn_append_cons_self_of_not_mem free] at pieces
      obtain ⟨more,joined⟩ := pieces
      rw [List.cons_append] at joined
      rw [(List.cons.inj joined).1]
      exact whole
    · unfold Text.split at parts
      rw [if_neg member] at parts
      simp at parts
  · simp at cut
  · rename_i other many
    simp only [Option.some.injEq,Prod.mk.injEq] at cut
    obtain ⟨rfl,rfl⟩ := cut
    left
    refine ⟨rfl,rfl,?_⟩
    intro two
    obtain ⟨a,b,parts⟩ := List.length_eq_two.mp two
    exact other a b parts

theorem replaceChar_eq {group : Text} :
    group.replaceChar '.' '/' = (group.replaceChar '\\' '/').replaceChar '.' '/' ↔ '\\' ∉ group := by
  unfold Text.replaceChar
  rw [List.map_map]
  constructor
  · intro equal member
    have here := List.map_inj_left.mp equal '\\' member
    simp at here
  · intro free
    apply List.map_inj_left.mpr
    intro c member
    have different : c ≠ '\\' := fun same => free (same ▸ member)
    simp [different]

/-- Two repository paths of one artifact, with the group printed with equal length. -/
theorem path_inj {first second name : Text} {tail rest : Text} (sizes : first.length = second.length) :
    first ++ '/' :: name ++ '/' :: tail = second ++ '/' :: name ++ '/' :: rest ↔
      first = second ∧ tail = rest := by
  constructor
  · intro equal
    simp only [List.append_assoc,List.cons_append] at equal
    obtain ⟨groups,tails⟩ := List.append_inj equal sizes
    refine ⟨groups,?_⟩
    simpa using tails
  · rintro ⟨rfl,rfl⟩
    rfl

theorem split_eq (name : Text) (many : (name.splitOn ':').length ≠ 1) :
    name.split ':' = (name.splitOn ':').rdropWhile List.isEmpty := by
  unfold Text.split
  rw [if_pos]
  by_contra free
  rw [List.splitOn_eq_singleton free] at many
  exact many rfl

/-- Three parts: the unlimited split sees them too, unless the version is empty. -/
theorem split_three {name group artifact version : Text}
    (cut : name.splitLimit ':' 4 = [group,artifact,version]) :
    name.split ':' = if version = [] then [group,artifact].rdropWhile List.isEmpty
      else [group,artifact,version] := by
  obtain ⟨joined,bound⟩ := @Text.splitOn_of_splitLimit ':' 3 name [group,artifact] version cut
  have whole : name.splitOn ':' = [group,artifact] ++ [version] := by
    rw [joined,List.splitOn_eq_singleton (bound (by simp))]
  rw [split_eq name (by simp [whole]),whole]
  by_cases empty : version = []
  · rw [if_pos empty,List.rdropWhile_concat_pos _ _ _ (by simp [empty])]
  · rw [if_neg empty,List.rdropWhile_concat_neg _ _ _ (by simpa using empty)]
    rfl

theorem split_four {name group artifact version classifier g n v : Text} {more : List Text}
    (cut : name.splitLimit ':' 4 = [group,artifact,version,classifier])
    (parts : name.split ':' = g :: n :: v :: more) : g = group ∧ n = artifact ∧ v = version := by
  obtain ⟨joined,_⟩ := @Text.splitOn_of_splitLimit ':' 3 name [group,artifact,version] classifier cut
  obtain ⟨rest,whole⟩ := Text.split_prefix ':' name
  rw [parts,joined] at whole
  simp only [List.cons_append,List.cons.injEq] at whole
  exact ⟨whole.1,whole.2.1,whole.2.2.1⟩

theorem tail_eq {name version cutVersion ext : Text} {classifier : Option Text}
    (cut : version = cutVersion ∨ ∃ rest, version = cutVersion ++ '@' :: rest) :
    version ++ '/' :: (name ++ '-' :: version ++ '.' :: ("jar" : String).toList) =
        cutVersion ++ '/' :: (name ++ '-' :: cutVersion ++ (match classifier with
          | some classifier => '-' :: classifier
          | none => []) ++ '.' :: ext) ↔
      version = cutVersion ∧ classifier = none ∧ ext = ("jar" : String).toList := by
  rcases cut with rfl | ⟨rest,rfl⟩
  · cases classifier with
    | none => simp [eq_comm]
    | some classifier => simp
  · constructor
    · intro equal
      rw [List.append_assoc,List.append_cancel_left_eq] at equal
      simp at equal
    · rintro ⟨longer,_⟩
      simp at longer

theorem make_path (group artifact version : Text) :
    (Artifact.make group artifact version none none).path =
      group.replaceChar '.' '/' ++ '/' :: artifact ++ '/' :: (version ++ '/' ::
        (artifact ++ '-' :: version ++ '.' :: ("jar" : String).toList)) := by
  simp [Artifact.path,Artifact.make,Artifact.fileName]

theorem cut_path (group artifact version ext : Text) (classifier : Option Text) :
    (Artifact.mk group artifact version classifier ext).path =
      group.replaceChar '.' '/' ++ '/' :: artifact ++ '/' :: (version ++ '/' ::
        (artifact ++ '-' :: version ++ (match classifier with
          | some classifier => '-' :: classifier
          | none => []) ++ '.' :: ext)) := by
  cases classifier <;> simp [Artifact.path,Artifact.fileName]

theorem path_eq_iff {group artifact version cutVersion ext : Text} {classifier : Option Text}
    (cut : version = cutVersion ∨ ∃ rest, version = cutVersion ++ '@' :: rest) :
    (Artifact.make group artifact version none none).path =
        (Artifact.mk (group.replaceChar '\\' '/') artifact cutVersion classifier ext).path ↔
      '\\' ∉ group ∧ version = cutVersion ∧ classifier = none ∧ ext = ("jar" : String).toList := by
  have sizes : (group.replaceChar '.' '/').length =
      ((group.replaceChar '\\' '/').replaceChar '.' '/').length := by
    simp [Text.replaceChar]
  rw [make_path,cut_path,path_inj sizes,replaceChar_eq,tail_eq cut]

theorem repositoryPath_three {name group artifact version cutVersion : Text} {ext : Option Text}
    (limited : name.splitLimit ':' 4 = [group,artifact,version])
    (cut : Artifact.cutExtension version = some (cutVersion,ext)) (classifier : Option Text) :
    RepositoryPath name (Artifact.mk (group.replaceChar '\\' '/') artifact cutVersion classifier
        (ext.getD ("jar" : String))).path ↔
      version ≠ [] ∧ '\\' ∉ group ∧ (version.split '@').length ≠ 2 ∧ classifier = none := by
  have either : version = cutVersion ∨ ∃ rest, version = cutVersion ++ '@' :: rest := by
    rcases cutExtension_some cut with ⟨_,same,_⟩ | ⟨_,_,longer⟩
    · exact Or.inl same.symm
    · exact Or.inr longer
  have parts := split_three limited
  by_cases empty : version = []
  · rw [if_pos empty] at parts
    refine iff_of_false ?_ (fun plain => plain.1 empty)
    rintro ⟨g,n,v,more,found,_⟩
    have short := (List.rdropWhile_prefix List.isEmpty [group,artifact]).length_le
    rw [← parts,found] at short
    simp at short
  · rw [if_neg empty] at parts
    have unfolded (path : Text) : RepositoryPath name path ↔
        (Artifact.make group artifact version none none).path = path := by
      unfold RepositoryPath
      rw [parts]
      constructor
      · rintro ⟨g,n,v,more,found,rfl⟩
        simp only [List.cons.injEq] at found
        obtain ⟨rfl,rfl,rfl,_⟩ := found
        rfl
      · rintro rfl
        exact ⟨group,artifact,version,[],rfl,rfl⟩
    rw [unfolded,path_eq_iff either]
    rcases cutExtension_some cut with ⟨rfl,rfl,other⟩ | ⟨present,two,rest,longer⟩
    · simp [empty,other]
    · refine iff_of_false ?_ (fun plain => plain.2.2.1 two)
      rintro ⟨_,same,_⟩
      rw [same] at longer
      simp at longer

variable (env : Platform)

/-- A library without a path of its own is found exactly when its name is plain. -/
theorem repositoryPath_iff_plainName {name : Text} {library : Library}
    (parsed : Artifact.fromDescriptor name = some library.artifact) :
    RepositoryPath name (library.artifact.setClassifier (library.getClassifier env)).path ↔
      PlainName env name library := by
  unfold Artifact.fromDescriptor at parsed
  split at parsed
  · rename_i group artifact version limited
    obtain ⟨⟨cutVersion,ext⟩,cut,made⟩ := Option.bind_eq_some_iff.mp parsed
    have shape := Option.some.inj made
    have same : library.artifact.setClassifier (library.getClassifier env) =
        Artifact.mk (group.replaceChar '\\' '/') artifact cutVersion (library.getClassifier env)
          (ext.getD ("jar" : String)) := by
      rw [← shape]
      rfl
    rw [same,repositoryPath_three limited cut]
    unfold PlainName
    rw [limited]
    constructor
    · rintro ⟨some_,free,plain,none⟩
      exact ⟨group,artifact,version,rfl,some_,free,plain,none⟩
    · rintro ⟨g,n,v,equal,some_,free,plain,none⟩
      simp only [List.cons.injEq] at equal
      obtain ⟨rfl,rfl,rfl,_⟩ := equal
      exact ⟨some_,free,plain,none⟩
  · rename_i group artifact version classifier limited
    obtain ⟨⟨cutClassifier,ext⟩,cut,made⟩ := Option.bind_eq_some_iff.mp parsed
    have shape := Option.some.inj made
    have named : library.getClassifier env = some cutClassifier := by
      unfold Library.getClassifier
      rw [← shape]
      rfl
    apply iff_of_false
    · rintro ⟨g,n,v,more,found,equal⟩
      obtain ⟨rfl,rfl,rfl⟩ := split_four limited found
      rw [named,← shape] at equal
      have plain := (path_eq_iff (Or.inl rfl)).mp equal.symm
      exact absurd plain.2.2.1 (by simp)
    · rintro ⟨g,n,v,equal,_⟩
      rw [limited] at equal
      simp at equal
  · simp at parsed

end Paths

section VerifiedFiles

variable (env : Platform)

theorem samePlace_iff {lib : LibraryEntry} {name : Text} (present : lib.name = some name) :
    RepositoryPath name (lib.library.getPath env) ↔ SamePlace env lib := by
  unfold SamePlace Library.getPath
  rw [present,Option.getD_some]
  cases (lib.library.getRawDownloadInfo env).bind (·.path) with
  | none => exact repositoryPath_iff_plainName env (lib.parsed name present)
  | some path => rfl

theorem classPathFile_iff {gameFileDir : Text} {isJava17 : Bool} {lib : LibraryEntry}
    (kept : lib.filtered isJava17 = false) :
    classPathFile gameFileDir lib = some (verifiedFile env gameFileDir lib.library) ↔
      SamePlace env lib := by
  cases present : lib.name with
  | none => simp [LibraryEntry.filtered,present] at kept
  | some name =>
    unfold verifiedFile
    rw [classPathFile_eq,present,Option.getD_some]
    exact samePlace_iff env present

/-- A kept library whose file exists is on the class path. -/
theorem classPathFile_mem {gameFileDir path : Text} {isJava17 : Bool} {files : Files β}
    {lib : LibraryEntry} (kept : lib.filtered isJava17 = false) (present : files.exist path = true)
    (found : classPathFile gameFileDir lib = some path) {libraries : List LibraryEntry}
    {paths : List Text} (member : lib ∈ libraries)
    (built : classPathFiles gameFileDir isJava17 files libraries = some paths) : path ∈ paths := by
  induction libraries generalizing paths with
  | nil => simp at member
  | cons first rest ih =>
    unfold classPathFiles at built
    split at built
    · rename_i skipped
      rcases List.mem_cons.mp member with rfl | later
      · rw [kept] at skipped
        exact absurd skipped (by simp)
      · exact ih later built
    · obtain ⟨firstPath,here,built⟩ := Option.bind_eq_some_iff.mp built
      obtain ⟨others,there,joined⟩ := Option.bind_eq_some_iff.mp built
      obtain rfl := Option.some.inj joined
      rcases List.mem_cons.mp member with rfl | later
      · obtain rfl := Option.some.inj (here.symm.trans found)
        simp [present]
      · have inside := ih later there
        split
        · exact List.mem_cons_of_mem _ inside
        · exact inside

theorem verified_exist {getFileSha1 : β → Option Text} {files : Files β} {gameFileDir : Text}
    {libraries : List Library} {library : Library} (checked : exempt env library = false)
    (member : library ∈ libraries)
    (passed : librariesToDownload env getFileSha1 files gameFileDir libraries = []) :
    files.exist (verifiedFile env gameFileDir library) = true := by
  have right := List.filter_eq_nil_iff.mp passed library member
  rw [checked] at right
  have whole : isRightFile getFileSha1 files (verifiedFile env gameFileDir library)
      ((library.getRawDownloadInfo env).bind (·.getSha1)) = true := by simpa using right
  exact isRightFile_exist whole

/-- The check looks where the class path does exactly for libraries in the same
place; once the check passes, no such library is skipped. -/
theorem verifiedFile_on_classPath {gameFileDir : Text} {isJava17 : Bool} {lib : LibraryEntry}
    (kept : lib.filtered isJava17 = false) (checked : exempt env lib.library = false) :
    (classPathFile gameFileDir lib = some (verifiedFile env gameFileDir lib.library) ↔
        SamePlace env lib) ∧
      (SamePlace env lib → ∀ (getFileSha1 : β → Option Text) (files : Files β) libraries paths,
        lib ∈ libraries →
        librariesToDownload env getFileSha1 files gameFileDir
          (libraries.map LibraryEntry.library) = [] →
        classPathFiles gameFileDir isJava17 files libraries = some paths →
        verifiedFile env gameFileDir lib.library ∈ paths) := by
  refine ⟨classPathFile_iff env kept,?_⟩
  intro same getFileSha1 files libraries paths member passed built
  have present := verified_exist env checked (List.mem_map_of_mem member) passed
  exact classPathFile_mem kept present ((classPathFile_iff env kept).mpr same) member built

end VerifiedFiles

def brigadier : LibraryEntry where
  name := some (("com.mojang:brigadier:1.0.17" : String) : Text)
  library := .ofArtifact (.make ("com.mojang" : String) ("brigadier" : String) ("1.0.17" : String) none none)
  parsed n member := by
    obtain rfl := Option.some.inj member
    decide +kernel

theorem brigadier_on_classPath :
    classPathFile [] brigadier = some (verifiedFile .arm64 [] brigadier.library) :=
  (@verifiedFile_on_classPath Unit .arm64 [] false brigadier (by decide +kernel)
    (by decide +kernel)).1.mpr
      ⟨("com.mojang" : String).toList,("brigadier" : String).toList,("1.0.17" : String).toList,
        by decide +kernel,by decide,by decide,by decide +kernel,rfl⟩

def forgeUniversal : LibraryEntry where
  name := some (("net.minecraftforge:forge:1.16.5-36.2.0:universal" : String) : Text)
  library := .ofArtifact (.make ("net.minecraftforge" : String) ("forge" : String)
    ("1.16.5-36.2.0" : String) (some (("universal" : String) : Text)) none)
  parsed n member := by
    obtain rfl := Option.some.inj member
    decide +kernel

/-- The class path drops the classifier, so the file that was checked is not the one it names. -/
theorem classifier_off_classPath :
    forgeUniversal.filtered false = false ∧ exempt .arm64 forgeUniversal.library = false ∧
      classPathFile [] forgeUniversal ≠ some (verifiedFile .arm64 [] forgeUniversal.library) := by
  refine ⟨by decide +kernel,by decide +kernel,by decide +kernel⟩

end HmclPe.Launch.ClassPath
