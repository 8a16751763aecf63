import HmclPe.Game.Version

/-! Detection of the installed loaders and their removal. Detection reads the libraries of the
resolved version and the ids of the visible patches, removal the version as it is stored. -/
namespace HmclPe.Download
open HmclPe.Java HmclPe.Game

inductive LibraryType where
  | minecraft | fabric | fabricApi | forge | liteloader | optifine | bootstrapLauncher
  deriving DecidableEq, Repr

namespace LibraryType

def values : List LibraryType :=
  [.minecraft,.fabric,.fabricApi,.forge,.liteloader,.optifine,.bootstrapLauncher]

def isModLoader : LibraryType → Bool
  | .optifine | .bootstrapLauncher => false
  | _ => true

def getPatchId : LibraryType → Text
  | .minecraft => ("game" : String)
  | .fabric => ("fabric" : String)
  | .fabricApi => ("fabric-api" : String)
  | .forge => ("forge" : String)
  | .liteloader => ("liteloader" : String)
  | .optifine => ("optifine" : String)
  | .bootstrapLauncher => ("" : String)

def matchGroup : LibraryType → Text → Bool
  | .minecraft, group => group = []
  | .fabric, group => group = ("net.fabricmc" : String)
  | .fabricApi, group => group = ("net.fabricmc" : String)
  | .forge, group => group = ("net.minecraftforge" : String)
  | .liteloader, group => group = ("com.mumfrey" : String)
  | .optifine, group => group = ("optifine" : String) ∨ group = ("net.optifine" : String)
  | .bootstrapLauncher, group => group = ("cpw.mods" : String)

def matchArtifact : LibraryType → Text → Bool
  | .minecraft, artifact => artifact = []
  | .fabric, artifact => artifact = ("fabric-loader" : String)
  | .fabricApi, artifact => artifact = ("fabric-api" : String)
  | .forge, artifact => artifact = ("forge" : String) ∨ artifact = ("fmlloader" : String)
  | .liteloader, artifact => artifact = ("liteloader" : String)
  | .optifine, artifact =>
    artifact.all (· ∉ Text.lineTerminators) && !Text.contains artifact ("launchwrapper" : String)
  | .bootstrapLauncher, artifact => artifact = ("bootstraplauncher" : String)

def matchLibrary (type : LibraryType) (library : Library) : Bool :=
  type.matchGroup library.getGroupId && type.matchArtifact library.getArtifactId

def versionNumber (s : Text) : Bool := s ≠ [] && s.all fun c => c.isDigit || c = '.'

/-- The end of a pattern also stands before a line terminator that ends the text. -/
def withoutFinalTerminator (s : Text) : Text :=
  if Text.endsWith s ['\r','\n'] then s.dropLast.dropLast
  else if s.getLast?.any (· ∈ Text.lineTerminators) then s.dropLast
  else s

/-- The group "forge" of `^([0-9.]+)-(?<forge>[0-9.]+)(-([0-9.]+))?$`. -/
def forgeVersion (libraryVersion : Text) : Option Text :=
  match (withoutFinalTerminator libraryVersion).splitOn '-' with
  | [game,own] => if versionNumber game && versionNumber own then some own else none
  | [game,own,branch] =>
    if versionNumber game && versionNumber own && versionNumber branch then some own else none
  | _ => none

def patchVersion (type : LibraryType) (libraryVersion : Text) : Text :=
  match type with
  | .forge => (forgeVersion libraryVersion).getD libraryVersion
  | _ => libraryVersion

def fromPatchId (patchId : Text) : Option LibraryType :=
  values.find? fun type => type.getPatchId = patchId

theorem mem_values (type : LibraryType) : type ∈ values := by
  cases type <;> decide

theorem fromPatchId_getPatchId (type : LibraryType) : fromPatchId type.getPatchId = some type := by
  cases type <;> decide

theorem getPatchId_injective {a b : LibraryType} (same : a.getPatchId = b.getPatchId) : a = b := by
  have found := fromPatchId_getPatchId a
  rw [same,fromPatchId_getPatchId b] at found
  exact (Option.some.inj found).symm

theorem matchGroup_unique {a b : LibraryType} {group : Text} (first : a.matchGroup group = true)
    (second : b.matchGroup group = true) :
    a = b ∨ (a = .fabric ∧ b = .fabricApi) ∨ (a = .fabricApi ∧ b = .fabric) := by
  cases a
  case optifine =>
    rcases of_decide_eq_true first with rfl | rfl <;> cases b <;> revert second <;> decide
  all_goals
    obtain rfl := of_decide_eq_true first
    cases b <;> revert second <;> decide

theorem matchLibrary_unique {a b : LibraryType} {library : Library}
    (first : a.matchLibrary library = true) (second : b.matchLibrary library = true) : a = b := by
  rw [matchLibrary,Bool.and_eq_true] at first second
  rcases matchGroup_unique first.1 second.1 with same | ⟨rfl,rfl⟩ | ⟨rfl,rfl⟩
  · exact same
  · have loader := of_decide_eq_true first.2
    have api := of_decide_eq_true second.2
    rw [loader] at api
    exact absurd api (by decide)
  · have api := of_decide_eq_true first.2
    have loader := of_decide_eq_true second.2
    rw [loader] at api
    exact absurd api (by decide)

theorem find_eq_some_iff (library : Library) (type : LibraryType) :
    values.find? (·.matchLibrary library) = some type ↔ type.matchLibrary library = true := by
  constructor
  · intro found
    simpa using List.find?_some found
  · intro matched
    cases found : values.find? (·.matchLibrary library) with
    | none => exact absurd matched (List.find?_eq_none.mp found type (mem_values type))
    | some first =>
      have chosen : first.matchLibrary library = true := by simpa using List.find?_some found
      rw [matchLibrary_unique chosen matched]

end LibraryType

/-- What is known of a loader: the library it was found by and its version. -/
abbrev Marks := List (Text × Option Library × Option Text)

def Marks.put (key : Text) (mark : Option Library × Option Text) (marks : Marks) : Marks :=
  (key,mark) :: marks.filter fun entry => entry.1 ≠ key

def Marks.containsKey (marks : Marks) (key : Text) : Bool := marks.any fun entry => entry.1 = key

@[simp] theorem Marks.containsKey_put (key other : Text) (mark : Option Library × Option Text)
    (marks : Marks) :
    (marks.put key mark).containsKey other = true ↔ key = other ∨ marks.containsKey other = true := by
  simp only [containsKey,put,List.any_cons,Bool.or_eq_true,decide_eq_true_eq,List.any_eq_true,
    List.mem_filter]
  constructor
  · rintro (same | ⟨entry,⟨inside,-⟩,same⟩)
    · exact .inl same
    · exact .inr ⟨entry,inside,same⟩
  · rintro (same | ⟨entry,inside,same⟩)
    · exact .inl same
    · by_cases first : entry.1 = key
      · exact .inl (first.symm.trans same)
      · exact .inr ⟨entry,⟨inside,first⟩,same⟩

structure LibraryAnalyzer where
  version : Version
  libraries : Marks

namespace LibraryAnalyzer

def has (analyzer : LibraryAnalyzer) (type : Text) : Bool := analyzer.libraries.containsKey type

def getVersion (analyzer : LibraryAnalyzer) (type : Text) : Option Text :=
  (analyzer.libraries.lookup type).bind Prod.snd

def getLibrary (analyzer : LibraryAnalyzer) (type : LibraryType) : Option Library :=
  (analyzer.libraries.lookup type.getPatchId).bind Prod.fst

def hasModLoader (analyzer : LibraryAnalyzer) : Bool :=
  analyzer.libraries.any fun entry => (LibraryType.fromPatchId entry.1).any LibraryType.isModLoader

def markLibraries (marks : Marks) (libraries : List Library) : Marks :=
  libraries.foldl (fun marks library =>
    match LibraryType.values.find? (·.matchLibrary library) with
    | some type =>
      marks.put type.getPatchId (some library,some (type.patchVersion library.getVersion))
    | none => marks) marks

def markPatches (marks : Marks) (patches : List Version) : Marks :=
  patches.foldl (fun marks patch =>
    if patch.isHidden then marks else marks.put patch.id (none,patch.version)) marks

/-- Only a version without a parent is analyzed, so no provider is asked. -/
def analyze (v : Version) : Except Text LibraryAnalyzer :=
  if v.inheritsFrom ≠ none then
    .error ("LibraryAnalyzer can only analyze independent game version" : String)
  else match v.resolve (fun _ => none) 1 with
    | none => .error ("NullPointerException" : String)
    | some resolved => .ok ⟨v,markPatches (markLibraries [] resolved.getLibraries) v.getPatches⟩

def removingMatchedLibrary (v : Version) (libraryId : Text) : Version :=
  match LibraryType.fromPatchId libraryId with
  | none => v
  | some type => v.setLibraries (v.getLibraries.filter fun library => !type.matchLibrary library)

def removeLibrary (analyzer : LibraryAnalyzer) (libraryId : Text) : LibraryAnalyzer :=
  if !analyzer.has libraryId then analyzer
  else
    { analyzer with
      version := (removingMatchedLibrary analyzer.version libraryId).setPatches
        (some ((analyzer.version.getPatches.filter fun patch => libraryId ≠ patch.id).map
          (removingMatchedLibrary · libraryId))) }

def build (analyzer : LibraryAnalyzer) : Version := analyzer.version

theorem containsKey_markLibraries (marks : Marks) (libraries : List Library) (type : LibraryType) :
    (markLibraries marks libraries).containsKey type.getPatchId = true ↔
      marks.containsKey type.getPatchId = true ∨
        ∃ library ∈ libraries, type.matchLibrary library = true := by
  induction libraries generalizing marks with
  | nil => simp [markLibraries]
  | cons library libraries ih =>
    rw [markLibraries,List.foldl_cons,← markLibraries,ih,List.exists_mem_cons_iff]
    cases found : LibraryType.values.find? (·.matchLibrary library) with
    | none =>
      have unmatched : ¬type.matchLibrary library = true :=
        List.find?_eq_none.mp found type (LibraryType.mem_values type)
      simp [unmatched]
    | some first =>
      have matched := LibraryType.find_eq_some_iff library
      have same : first.getPatchId = type.getPatchId ↔ type.matchLibrary library = true := by
        constructor
        · intro equal
          rw [← LibraryType.getPatchId_injective equal]
          exact (matched first).mp found
        · intro also
          rw [LibraryType.matchLibrary_unique ((matched first).mp found) also]
      simp only [Marks.containsKey_put,same]
      rw [or_assoc,or_left_comm]

theorem containsKey_markPatches (marks : Marks) (patches : List Version) (key : Text) :
    (markPatches marks patches).containsKey key = true ↔
      marks.containsKey key = true ∨ ∃ patch ∈ patches, patch.isHidden = false ∧ patch.id = key := by
  induction patches generalizing marks with
  | nil => simp [markPatches]
  | cons patch patches ih =>
    rw [markPatches,List.foldl_cons,← markPatches,ih,List.exists_mem_cons_iff]
    cases hidden : patch.isHidden with
    | true => simp
    | false =>
      simp only [Bool.false_eq_true,if_false,Marks.containsKey_put,true_and]
      rw [or_assoc,or_left_comm]

/-- The libraries an analysis reads: a resolved version shows its own, a root version those of its
patches, any other version both. -/
def Shown (v : Version) (library : Library) : Prop :=
  (v.resolved = true ∨ v.isRoot = false) ∧ library ∈ v.getLibraries ∨
    v.resolved = false ∧ ∃ patch ∈ v.getPatches, library ∈ patch.getLibraries

def Installed (v : Version) (type : LibraryType) : Prop :=
  (∃ library, Shown v library ∧ type.matchLibrary library = true) ∨
    ∃ patch ∈ v.getPatches, patch.isHidden = false ∧ patch.id = type.getPatchId

theorem getLibraries_merge (v parent : Version) (isPatch : Bool) :
    (v.merge parent isPatch).getLibraries = v.getLibraries ++ parent.getLibraries :=
  Lang.getD_copyList _

theorem mem_patched (library : Library) (patches : List Version) (base : Version) :
    library ∈ (patches.foldl
        (fun thisVersion patch => (patch.setJar none).merge thisVersion true) base).getLibraries ↔
      library ∈ base.getLibraries ∨ ∃ patch ∈ patches, library ∈ patch.getLibraries := by
  induction patches generalizing base with
  | nil => simp
  | cons patch patches ih =>
    rw [List.foldl_cons,ih,getLibraries_merge,List.mem_append,List.exists_mem_cons_iff,or_assoc,
      or_left_comm]
    rfl

theorem getLibraries_stored (v : Version) (jar : Option Text) :
    ((if v.isRoot then (Version.ofId v.id).setPatches v.patches else v).setJar jar).getLibraries =
      if v.isRoot then [] else v.getLibraries := by
  cases v.isRoot <;> rfl

theorem resolve_shows {v : Version} (independent : v.inheritsFrom = none) :
    ∃ resolved, v.resolve (fun _ => none) 1 = some resolved ∧
      ∀ library, library ∈ resolved.getLibraries ↔ Shown v library := by
  unfold Version.resolve
  cases ready : v.resolved with
  | true =>
    refine ⟨v,rfl,fun library => ?_⟩
    simp [Shown,ready]
  | false =>
    simp only [Bool.false_eq_true,if_false,Version.resolveFrom,independent]
    refine ⟨_,rfl,fun library => ?_⟩
    refine Iff.trans (mem_patched library v.sortedPatches _) ?_
    rw [getLibraries_stored]
    have same : ∀ patch, patch ∈ v.sortedPatches ↔ patch ∈ v.getPatches :=
      fun patch => List.mem_mergeSort
    simp only [same,Shown,ready]
    cases v.isRoot <;> simp

theorem analyze_spec {v : Version} (independent : v.inheritsFrom = none) :
    ∃ analyzer, analyze v = .ok analyzer ∧ analyzer.version = v ∧
      ∀ type : LibraryType, analyzer.has type.getPatchId = true ↔ Installed v type := by
  obtain ⟨resolved,succeeded,shown⟩ := resolve_shows independent
  refine ⟨⟨v,markPatches (markLibraries [] resolved.getLibraries) v.getPatches⟩,?_,rfl,?_⟩
  · rw [analyze,if_neg (by simp [independent]),succeeded]
  · intro type
    rw [has,containsKey_markPatches,containsKey_markLibraries]
    have empty : Marks.containsKey [] type.getPatchId = false := rfl
    simp only [empty,Bool.false_eq_true,false_or,shown,Installed]

def without (v : Version) (type : LibraryType) : Version :=
  (v.setLibraries (v.getLibraries.filter fun library => !type.matchLibrary library)).setPatches
    (some ((v.getPatches.filter fun patch => type.getPatchId ≠ patch.id).map fun patch =>
      patch.setLibraries (patch.getLibraries.filter fun library => !type.matchLibrary library)))

theorem getLibraries_setLibraries (v : Version) (libraries : List Library) :
    (v.setLibraries libraries).getLibraries = libraries := Lang.getD_copyList _

theorem getLibraries_without (v : Version) (type : LibraryType) :
    (without v type).getLibraries = v.getLibraries.filter fun library => !type.matchLibrary library :=
  getLibraries_setLibraries v _

theorem getPatches_without (v : Version) (type : LibraryType) :
    (without v type).getPatches =
      (v.getPatches.filter fun patch => type.getPatchId ≠ patch.id).map fun patch =>
        patch.setLibraries (patch.getLibraries.filter fun library => !type.matchLibrary library) :=
  Lang.getD_copyList _

theorem build_removeLibrary (analyzer : LibraryAnalyzer) (type : LibraryType) :
    (analyzer.removeLibrary type.getPatchId).build =
      if analyzer.has type.getPatchId then without analyzer.version type else analyzer.version := by
  rw [removeLibrary]
  cases analyzer.has type.getPatchId with
  | false => rfl
  | true =>
    simp only [build,Bool.not_true,Bool.false_eq_true,if_false,if_true,without]
    have removing : ∀ v, removingMatchedLibrary v type.getPatchId =
        v.setLibraries (v.getLibraries.filter fun library => !type.matchLibrary library) := by
      intro v
      rw [removingMatchedLibrary,LibraryType.fromPatchId_getPatchId]
    simp only [removing]

theorem not_matched_without {v : Version} {type : LibraryType} {library : Library}
    (shown : Shown (without v type) library) : type.matchLibrary library = false := by
  have kept : ∀ libraries : List Library,
      library ∈ libraries.filter (fun library => !type.matchLibrary library) →
        type.matchLibrary library = false := by
    intro libraries inside
    simpa using (List.mem_filter.mp inside).2
  rcases shown with ⟨-,own⟩ | ⟨-,patch,inside,listed⟩
  · rw [getLibraries_without] at own
    exact kept _ own
  · rw [getPatches_without,List.mem_map] at inside
    obtain ⟨old,-,rfl⟩ := inside
    rw [getLibraries_setLibraries] at listed
    exact kept _ listed

theorem not_installed_without (v : Version) (type : LibraryType) : ¬Installed (without v type) type := by
  rintro (⟨library,shown,matched⟩ | ⟨patch,inside,-,same⟩)
  · rw [not_matched_without shown] at matched
    cases matched
  · rw [getPatches_without,List.mem_map] at inside
    obtain ⟨old,kept,rfl⟩ := inside
    have different := (List.mem_filter.mp kept).2
    exact of_decide_eq_true different same.symm

/-- After a removal the loader is not found again. A loader that was found is taken out of the
stored libraries and patches and nothing else is; one that was not found leaves the version as
it is. -/
theorem removeLibrary_spec (v : Version) (type : LibraryType) (independent : v.inheritsFrom = none) :
    ∃ analyzer again w,
      analyze v = .ok analyzer ∧
      (analyzer.removeLibrary type.getPatchId).build = w ∧
      analyze w = .ok again ∧ again.has type.getPatchId = false ∧
      (analyzer.has type.getPatchId = true ↔ Installed v type) ∧
      (Installed v type → w = without v type ∧
        w.getLibraries = v.getLibraries.filter (fun library => !type.matchLibrary library) ∧
        w.getPatches = (v.getPatches.filter fun patch => type.getPatchId ≠ patch.id).map fun patch =>
          patch.setLibraries (patch.getLibraries.filter fun library =>
            !type.matchLibrary library)) ∧
      (¬Installed v type → w = v) := by
  obtain ⟨analyzer,analyzed,stored,found⟩ := analyze_spec independent
  have built := build_removeLibrary analyzer type
  rw [stored] at built
  by_cases installed : Installed v type
  · rw [if_pos ((found type).mpr installed)] at built
    obtain ⟨again,analyzedAgain,-,foundAgain⟩ := analyze_spec (v := without v type) independent
    refine ⟨analyzer,again,without v type,analyzed,built,analyzedAgain,?_,found type,?_,?_⟩
    · rw [Bool.eq_false_iff]
      intro still
      exact not_installed_without v type ((foundAgain type).mp still)
    · intro _
      exact ⟨rfl,getLibraries_without v type,getPatches_without v type⟩
    · intro absent
      exact absurd installed absent
  · have absent : ¬analyzer.has type.getPatchId = true := fun has => installed ((found type).mp has)
    rw [if_neg absent] at built
    refine ⟨analyzer,analyzer,v,analyzed,built,analyzed,?_,found type,?_,fun _ => rfl⟩
    · exact Bool.eq_false_iff.mpr absent
    · intro present
      exact absurd present installed

/-- A version installed from outside, kept as a hidden patch under a loader. -/
def loaderOverVanilla : Version :=
  { Version.ofId ("modded" : String) with
    patches := some [(Version.ofId ("vanilla" : String)).toPatch,
      { Version.ofId ("fabric" : String) with version := some ("0.11.3" : String) }] }

theorem loaderOverVanilla_installed : Installed loaderOverVanilla .fabric :=
  .inr ⟨_,List.mem_cons_of_mem _ List.mem_cons_self,rfl,rfl⟩

theorem removeLibrary_spec_loaderOverVanilla :
    ∃ analyzer again w,
      analyze loaderOverVanilla = .ok analyzer ∧
      (analyzer.removeLibrary LibraryType.fabric.getPatchId).build = w ∧
      analyze w = .ok again ∧ again.has LibraryType.fabric.getPatchId = false ∧
      w = without loaderOverVanilla .fabric := by
  obtain ⟨analyzer,again,w,analyzed,built,analyzedAgain,removed,-,present,-⟩ :=
    removeLibrary_spec loaderOverVanilla .fabric rfl
  exact ⟨analyzer,again,w,analyzed,built,analyzedAgain,removed,
    (present loaderOverVanilla_installed).1⟩

theorem hidden_patch_stays :
    ¬∀ (v : Version) (type : LibraryType) (analyzer : LibraryAnalyzer), analyze v = .ok analyzer →
      (analyzer.removeLibrary type.getPatchId).build.getPatches.map Version.id =
        (v.getPatches.filter fun patch =>
          !patch.isHidden && type.getPatchId ≠ patch.id).map Version.id := by
  intro every
  obtain ⟨analyzer,analyzed,stored,found⟩ := analyze_spec (v := loaderOverVanilla) rfl
  have built := build_removeLibrary analyzer .fabric
  rw [stored,if_pos ((found .fabric).mpr loaderOverVanilla_installed)] at built
  have patches := every loaderOverVanilla .fabric analyzer analyzed
  rw [built,getPatches_without] at patches
  revert patches
  decide

end LibraryAnalyzer

end HmclPe.Download
