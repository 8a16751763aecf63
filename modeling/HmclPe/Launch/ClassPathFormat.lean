import HmclPe.Launch.LaunchVersion

/-! The class path of a launch as the virtual machine reads it, a list of files between colons, for
library lists with arbitrary names. -/
namespace HmclPe.Launch.ClassPathFormat
open HmclPe.Java HmclPe.Io

variable {β : Type}

section Model

def retained (isJava17 : Bool) : Option Text → Bool
  | none => false
  | some name => !(name = [] || name.contains ("org.lwjgl" : String) ||
      name.contains ("natives" : String) ||
      (isJava17 && name.contains ("java-objc-bridge" : String)))

/-- The file of a library; `none` is the exception for a missing part. -/
def libraryFile (gameFileDir name : Text) : Option Text :=
  match name.split ':' with
  | packageName :: mainName :: versionName :: _ =>
    some (gameFileDir ++ ("/libraries/" : String) ++ packageName.replaceChar '.' '/' ++
      ('/' :: mainName) ++ ('/' :: versionName) ++ ('/' :: mainName) ++ ('-' :: versionName) ++
      (".jar" : String))
  | _ => none

def existingFiles (gameFileDir : Text) (isJava17 : Bool) (files : Files β) :
    List (Option Text) → Option (List Text)
  | [] => some []
  | name :: names =>
    if retained isJava17 name then do
      let path ← libraryFile gameFileDir (name.getD [])
      let paths ← existingFiles gameFileDir isJava17 files names
      return if files.exist path then path :: paths else paths
    else existingFiles gameFileDir isJava17 files names

def getClassPath (gameFileDir minecraftPath : Text) (high isJava17 : Bool) (files : Files β)
    (names : List (Option Text)) : Option Text := do
  let paths ← existingFiles gameFileDir isJava17 files names
  let cp := [':'].intercalate paths
  let split : Text := if paths = [] then [] else [':']
  return if high then cp ++ split ++ minecraftPath else minecraftPath ++ split ++ cp

end Model

section Readers
variable (gameFileDir minecraftPath : Text) (high isJava17 : Bool) (files : Files β)

theorem filtered_eq (lib : ClassPath.LibraryEntry) :
    lib.filtered isJava17 = !retained isJava17 lib.name := by
  unfold ClassPath.LibraryEntry.filtered retained
  cases lib.name <;> simp

theorem classPathFiles_eq (libraries : List ClassPath.LibraryEntry) :
    ClassPath.classPathFiles gameFileDir isJava17 files libraries =
      existingFiles gameFileDir isJava17 files (libraries.map (·.name)) := by
  induction libraries with
  | nil => rfl
  | cons lib libraries ih =>
    rw [ClassPath.classPathFiles,List.map_cons,existingFiles,ih,filtered_eq]
    cases retained isJava17 lib.name <;> rfl

/-- The library entries of a version file give the class path of their names. -/
theorem getClassPath_names (libraries : List ClassPath.LibraryEntry) :
    ClassPath.getClassPath gameFileDir minecraftPath high isJava17 files libraries =
      getClassPath gameFileDir minecraftPath high isJava17 files (libraries.map (·.name)) := by
  rw [ClassPath.getClassPath,classPathFiles_eq]
  rfl

/-- The own jar of a version is that of a directory on its chain, or none. -/
theorem minecraftPath_of_fromDirectory {δ : Type} {read : δ → Option LaunchVersion}
    {jarPath : δ → Text} {above : δ → Text → δ}
    {fuel : Nat} {file : δ} {version : LaunchVersion}
    (found : LaunchVersion.fromDirectory read jarPath above fuel file = some version) :
    ∃ directory, version.minecraftPath = jarPath directory := by
  induction fuel generalizing file version with
  | zero => exact absurd found nofun
  | succ fuel ih =>
    rw [LaunchVersion.fromDirectory,Option.bind_eq_bind,Option.bind_eq_some_iff] at found
    obtain ⟨result,-,found⟩ := found
    dsimp only at found
    split at found
    · exact ⟨file,by rw [← Option.some.inj found]⟩
    · exact ⟨file,by rw [← Option.some.inj found]⟩
    · rw [Option.bind_eq_some_iff] at found
      obtain ⟨parent,read,inherited⟩ := found
      simp only [LaunchVersion.inherit,Option.bind_eq_bind,Option.bind_eq_some_iff] at inherited
      obtain ⟨libraries,-,arguments,-,given⟩ := inherited
      rw [← Option.some.inj given]
      by_cases missing : jarPath file = []
      · simpa [missing] using ih read
      · exact ⟨file,if_neg missing⟩

end Readers

/-- The existing files of the retained libraries, in their order. -/
def jars (gameFileDir : Text) (isJava17 : Bool) (files : Files β) (names : List (Option Text)) :
    List Text :=
  ((names.filter (retained isJava17)).filterMap fun name =>
    libraryFile gameFileDir (name.getD [])).filter files.exist

def elements (cp : Text) : List Text := if cp = [] then [] else cp.splitOn ':'

/-- A version whose jar does not exist has the empty path. -/
def ownJar (minecraftPath : Text) : List Text := if minecraftPath = [] then [] else [minecraftPath]

/-- The elements are the jars, each once and in order, and the own jar at its end of the list. -/
structure WellFormed (jars : List Text) (minecraftPath : Text) (high : Bool) (cp : Text) :
    Prop where
  filled : [] ∉ elements cp
  order : ∃ each : List Text, each.Nodup ∧ each.Sublist jars ∧ (∀ jar ∈ jars, jar ∈ each) ∧
    elements cp = if high then each ++ ownJar minecraftPath else ownJar minecraftPath ++ each

section Format
variable {gameFileDir : Text} {isJava17 : Bool} {files : Files β} {names : List (Option Text)}

theorem existingFiles_some {paths : List Text} :
    existingFiles gameFileDir isJava17 files names = some paths ↔
      (∀ name ∈ names, retained isJava17 name = true →
        (libraryFile gameFileDir (name.getD [])).isSome) ∧
      paths = jars gameFileDir isJava17 files names := by
  induction names generalizing paths with
  | nil =>
    constructor
    · intro given
      exact ⟨by simp,(Option.some.inj given).symm⟩
    · rintro ⟨-,rfl⟩
      rfl
  | cons name names ih =>
    rw [existingFiles,List.forall_mem_cons]
    cases kept : retained isJava17 name with
    | false => simpa [jars,kept] using ih
    | true =>
      cases file : libraryFile gameFileDir (name.getD []) with
      | none => simp
      | some path =>
        have next : jars gameFileDir isJava17 files (name :: names) =
            if files.exist path then path :: jars gameFileDir isJava17 files names
            else jars gameFileDir isJava17 files names := by
          simp [jars,kept,file,List.filter_cons]
        rw [next]
        simp only [if_true,Option.bind_eq_bind,Option.bind_some,Option.bind_eq_some_iff,ih,
          Option.isSome_some,forall_const,true_and]
        constructor
        · rintro ⟨rest,⟨parsed,rfl⟩,given⟩
          exact ⟨parsed,(Option.some.inj given).symm⟩
        · rintro ⟨parsed,rfl⟩
          exact ⟨_,⟨parsed,rfl⟩,rfl⟩

theorem ne_nil_of_libraryFile {name path : Text} (file : libraryFile gameFileDir name = some path) :
    path ≠ [] := by
  unfold libraryFile at file
  split at file
  · rw [← Option.some.inj file]
    simp
  · exact absurd file nofun

theorem ne_nil_of_mem_jars {jar : Text} (member : jar ∈ jars gameFileDir isJava17 files names) :
    jar ≠ [] := by
  obtain ⟨listed,-⟩ := List.mem_filter.mp member
  obtain ⟨name,-,file⟩ := List.mem_filterMap.mp listed
  exact ne_nil_of_libraryFile file

end Format

/-- All parts between the colons; the own jar is one of them even where it is missing. -/
def parts (jars : List Text) (minecraftPath : Text) (high : Bool) : List Text :=
  if high then jars ++ [minecraftPath] else minecraftPath :: jars

section Elements
variable {jars : List Text} {minecraftPath : Text} {high : Bool}

theorem intercalate_concat {jars : List Text} (some_ : jars ≠ []) (last : Text) :
    [':'].intercalate (jars ++ [last]) = [':'].intercalate jars ++ ':' :: last := by
  induction jars with
  | nil => exact absurd rfl some_
  | cons jar jars ih =>
    cases jars with
    | nil => simp [List.intercalate_cons_cons]
    | cons second jars =>
      have rest := ih (List.cons_ne_nil second jars)
      simp only [List.cons_append,List.intercalate_cons_cons] at rest ⊢
      rw [rest]
      simp

/-- The separator is left out only where no jar stands on its side. -/
theorem classPath_parts (jars : List Text) (minecraftPath : Text) (high : Bool) :
    (let cp := [':'].intercalate jars
      let split : Text := if jars = [] then [] else [':']
      if high then cp ++ split ++ minecraftPath else minecraftPath ++ split ++ cp) =
      [':'].intercalate (parts jars minecraftPath high) := by
  by_cases empty : jars = []
  · cases high <;> simp [parts,empty]
  · cases high with
    | false => simp [parts,empty,List.intercalate_cons_of_ne_nil]
    | true => simp [parts,empty,intercalate_concat]

theorem getClassPath_some {gameFileDir : Text} {isJava17 : Bool} {files : Files β}
    {names : List (Option Text)} {cp : Text} :
    getClassPath gameFileDir minecraftPath high isJava17 files names = some cp ↔
      (∀ name ∈ names, retained isJava17 name = true →
        (libraryFile gameFileDir (name.getD [])).isSome) ∧
      cp = [':'].intercalate
        (parts (ClassPathFormat.jars gameFileDir isJava17 files names) minecraftPath high) := by
  rw [getClassPath,Option.bind_eq_bind,Option.bind_eq_some_iff]
  constructor
  · rintro ⟨paths,found,given⟩
    obtain ⟨parsed,rfl⟩ := existingFiles_some.mp found
    rw [← classPath_parts]
    exact ⟨parsed,(Option.some.inj given).symm⟩
  · rintro ⟨parsed,rfl⟩
    refine ⟨_,existingFiles_some.mpr ⟨parsed,rfl⟩,?_⟩
    rw [← classPath_parts]
    rfl

theorem free_of_mem_elements {cp jar : Text} (member : jar ∈ elements cp) : ':' ∉ jar := by
  unfold elements at member
  split at member
  · exact absurd member List.not_mem_nil
  · exact Text.free_of_mem_splitOn member

theorem parts_ne_nil (jars : List Text) (minecraftPath : Text) (high : Bool) :
    parts jars minecraftPath high ≠ [] := by
  cases high <;> simp [parts]

theorem intercalate_ne_nil {jars : List Text} {jar : Text} (member : jar ∈ jars)
    (some_ : jar ≠ []) :
    [':'].intercalate jars ≠ [] := by
  cases jars with
  | nil => exact absurd member List.not_mem_nil
  | cons first jars =>
    cases jars with
    | nil => simpa [List.mem_singleton.mp member] using some_
    | cons second jars => simp [List.intercalate_cons_cons]

variable (free : ∀ jar ∈ jars ++ ownJar minecraftPath, ':' ∉ jar)
include free

theorem split_parts : ([':'].intercalate (parts jars minecraftPath high)).splitOn ':' =
    parts jars minecraftPath high := by
  apply List.splitOn_intercalate ':' ?_ (parts_ne_nil _ _ _)
  have own : ':' ∉ minecraftPath := by
    by_cases missing : minecraftPath = []
    · simp [missing]
    · exact free _ (by simp [ownJar,missing])
  intro part member
  have cases_ : part ∈ jars ∨ part = minecraftPath := by
    cases high <;> simpa [parts,or_comm] using member
  rcases cases_ with listed | rfl
  · exact free _ (List.mem_append_left _ listed)
  · exact own

/-- With an own jar, or without any jar, the parts are the jars that are there. -/
theorem elements_parts (beside : minecraftPath = [] → jars = []) :
    elements ([':'].intercalate (parts jars minecraftPath high)) =
      if high then jars ++ ownJar minecraftPath else ownJar minecraftPath ++ jars := by
  by_cases missing : minecraftPath = []
  · subst missing
    obtain rfl := beside rfl
    cases high <;> rfl
  · have listed : minecraftPath ∈ parts jars minecraftPath high := by cases high <;> simp [parts]
    rw [elements,if_neg (intercalate_ne_nil listed missing),split_parts free]
    cases high <;> simp [parts,ownJar,missing]

end Elements

/-- The class path is well formed exactly if all retained names have three parts, no jar is
listed twice, libraries come only beside an own jar, and no jar has a colon. -/
theorem wellFormed_iff (gameFileDir minecraftPath : Text) (high isJava17 : Bool) (files : Files β)
    (names : List (Option Text)) :
    (∃ cp, getClassPath gameFileDir minecraftPath high isJava17 files names = some cp ∧
      WellFormed (jars gameFileDir isJava17 files names) minecraftPath high cp) ↔
    (∀ name ∈ names, retained isJava17 name = true →
      (libraryFile gameFileDir (name.getD [])).isSome) ∧
    (jars gameFileDir isJava17 files names).Nodup ∧
    (minecraftPath = [] → jars gameFileDir isJava17 files names = []) ∧
    ∀ jar ∈ jars gameFileDir isJava17 files names ++ ownJar minecraftPath, ':' ∉ jar := by
  have known : ∀ jar ∈ jars gameFileDir isJava17 files names, jar ≠ [] :=
    fun jar member => ne_nil_of_mem_jars member
  constructor
  · rintro ⟨cp,built,filled,each,nodup,sublist,all,order⟩
    obtain ⟨parsed,rfl⟩ := getClassPath_some.mp built
    have free : ∀ jar ∈ jars gameFileDir isJava17 files names ++ ownJar minecraftPath,
        ':' ∉ jar := by
      intro jar member
      apply free_of_mem_elements
      rw [order]
      rcases List.mem_append.mp member with listed | own
      · cases high <;> simp [all jar listed]
      · cases high <;> simp [own]
    have beside : minecraftPath = [] → jars gameFileDir isJava17 files names = [] := by
      rintro rfl
      by_contra some_
      obtain ⟨jar,member⟩ := List.exists_mem_of_ne_nil _ some_
      have listed : jar ∈ parts (jars gameFileDir isJava17 files names) [] high := by
        cases high <;> simp [parts,member]
      rw [elements,if_neg (intercalate_ne_nil listed (known jar member)),split_parts free] at filled
      exact filled (by cases high <;> simp [parts])
    refine ⟨parsed,?_,beside,free⟩
    rw [elements_parts free beside] at order
    have same : jars gameFileDir isJava17 files names = each := by
      cases high with
      | false => exact List.append_cancel_left order
      | true => exact List.append_cancel_right order
    rw [same]
    exact nodup
  · rintro ⟨parsed,nodup,beside,free⟩
    refine ⟨_,getClassPath_some.mpr ⟨parsed,rfl⟩,?_,_,nodup,List.Sublist.refl _,fun _ => id,
      elements_parts free beside⟩
    rw [elements_parts free beside]
    have own : [] ∉ ownJar minecraftPath := by
      unfold ownJar
      split
      · exact List.not_mem_nil
      · rename_i some_
        simpa [eq_comm] using some_
    have listed : [] ∉ jars gameFileDir isJava17 files names := fun member => known [] member rfl
    cases high <;> simp [own,listed]

def everyFile : Files Unit := fun _ => some ()

def oneLibrary : List (Option Text) := [some ("com.mojang:authlib:1.5.25" : String)]

/-- Without an own jar the separator stands before the first library. -/
theorem missing_own_jar :
    ∃ cp, getClassPath ("/games" : String) [] false false everyFile oneLibrary = some cp ∧
      ¬ WellFormed (jars ("/games" : String) false everyFile oneLibrary) [] false cp := by
  refine ⟨_,rfl,fun formed => formed.filled ?_⟩
  decide

end HmclPe.Launch.ClassPathFormat
