import HmclPe.Launch.LaunchVersion
import HmclPe.Lib.Links

/-! Which version directories the launcher's own reader comes back from. -/
namespace HmclPe.Launch.LaunchVersion
open HmclPe.Java HmclPe.Lib.Links

/-- The version directories of a disk. What a path leads to, and which file is read there under the
path's last name, is the system's matter: links, `..` and limits on paths included. -/
structure VersionDirectories (δ : Type) where
  directories : List δ
  leadsTo : File → Option δ
  read : File → Option LaunchVersion
  listed : ∀ file version, read file = some version → ∃ d ∈ directories, leadsTo file = some d

/-- The name that a version file gives its parent. -/
def parentName (version : LaunchVersion) : Option Text :=
  match version.inheritsFrom with
  | none => none
  | some [] => none
  | some (c :: cs) => some (c :: cs)

/-- `fromDirectory` with the paths that it visits. The outer `none` is a call that is
still waiting for another one, the inner `none` an error. -/
def fromDirectoryVisits (read : File → Option LaunchVersion) (jarPath : File → Text) :
    Nat → File → Option (Option LaunchVersion × List File)
  | 0, _ => none
  | fuel + 1, file => match read file with
    | none => some (none,[file])
    | some version =>
      let result := { version with minecraftPath := jarPath file }
      match result.parentName with
      | none => some (some result,[file])
      | some parent => (fromDirectoryVisits read jarPath fuel (parentFile file parent)).map
          fun above => (above.1.bind result.inherit,file :: above.2)

variable {read : File → Option LaunchVersion} {jarPath : File → Text}

/-- The path that the version read at a path inherits from. -/
def parentDirectory (read : File → Option LaunchVersion) (file : File) : Option File :=
  (read file).bind fun version => version.parentName.map (parentFile file)

theorem fromDirectory_missing {file : File} (missing : read file = none) (fuel : Nat) :
    fromDirectory read jarPath parentFile (fuel + 1) file = none := by
  rw [fromDirectory,missing]
  rfl

theorem fromDirectory_last {file : File} {version : LaunchVersion}
    (found : read file = some version) (ends : version.parentName = none) (fuel : Nat) :
    fromDirectory read jarPath parentFile (fuel + 1) file =
      some { version with minecraftPath := jarPath file } := by
  rw [fromDirectory,found]
  rw [parentName] at ends
  cases link : version.inheritsFrom with
  | none => simp [link]
  | some parent =>
    cases parent with
    | nil => simp [link]
    | cons c cs => simp [link] at ends

theorem fromDirectory_next {file : File} {parent : Text} {version : LaunchVersion}
    (found : read file = some version) (goesOn : version.parentName = some parent) (fuel : Nat) :
    fromDirectory read jarPath parentFile (fuel + 1) file =
      (fromDirectory read jarPath parentFile fuel (parentFile file parent)).bind
        (inherit { version with minecraftPath := jarPath file }) := by
  rw [fromDirectory,found]
  rw [parentName] at goesOn
  cases link : version.inheritsFrom with
  | none => simp [link] at goesOn
  | some name =>
    cases name with
    | nil => simp [link] at goesOn
    | cons c cs =>
      rw [link,Option.some.injEq] at goesOn
      simp [link,← goesOn]

theorem visits_last {file : File} (ends : parentDirectory read file = none) (fuel : Nat) :
    fromDirectoryVisits read jarPath (fuel + 1) file =
      some (fromDirectory read jarPath parentFile (fuel + 1) file,[file]) := by
  rw [fromDirectoryVisits]
  cases found : read file with
  | none => rw [fromDirectory_missing found]
  | some version =>
    have root : version.parentName = none := by
      rw [parentDirectory,found] at ends
      exact Option.map_eq_none_iff.mp ends
    rw [fromDirectory_last found root]
    change (match version.parentName with | none => _ | some parent => _) = _
    rw [root]

theorem visits_next {file above : File} (goesOn : parentDirectory read file = some above)
    (fuel : Nat) : ∃ version parent, read file = some version ∧
      version.parentName = some parent ∧ parentFile file parent = above ∧
      fromDirectoryVisits read jarPath (fuel + 1) file =
        (fromDirectoryVisits read jarPath fuel above).map fun above =>
          (above.1.bind (inherit { version with minecraftPath := jarPath file }),
            file :: above.2) := by
  obtain ⟨version,found,link⟩ := Option.bind_eq_some_iff.mp goesOn
  obtain ⟨parent,named,rfl⟩ := Option.map_eq_some_iff.mp link
  refine ⟨version,parent,found,named,rfl,?_⟩
  rw [fromDirectoryVisits,found]
  change (match version.parentName with | none => _ | some parent => _) = _
  rw [named]

/-- The result is the one of the reader, and the paths are those on the way up. -/
theorem visits_eq (fuel : Nat) (file : File) :
    fromDirectoryVisits read jarPath fuel file =
      (trail (parentDirectory read) fuel file).map fun visited =>
        (fromDirectory read jarPath parentFile fuel file,visited) := by
  induction fuel generalizing file with
  | zero => rfl
  | succ fuel ih =>
    cases goesOn : parentDirectory read file with
    | none =>
      rw [visits_last goesOn,trail_last goesOn]
      rfl
    | some above =>
      obtain ⟨version,parent,found,named,rfl,visits⟩ :=
        @visits_next read jarPath file above goesOn fuel
      rw [visits,ih,trail_next goesOn,fromDirectory_next found named,Option.map_map,
        Option.map_map]
      rfl

/-- The reader comes back from a path, with no directory visited twice, exactly where the way up
leads to no directory twice. -/
theorem fromDirectory_returns_iff {δ : Type} (disk : VersionDirectories δ) (jarPath : File → Text)
    (file : File) :
    (∃ fuel result visited, fromDirectoryVisits disk.read jarPath fuel file =
        some (result,visited) ∧ (visited.filterMap disk.leadsTo).Nodup) ↔
      ¬Revisits (parentDirectory disk.read) disk.leadsTo file := by
  have finite : ∀ a b, parentDirectory disk.read a = some b →
      ∃ d ∈ disk.directories, disk.leadsTo a = some d := by
    intro a b goesOn
    obtain ⟨version,found,_⟩ := Option.bind_eq_some_iff.mp goesOn
    exact disk.listed a version found
  rw [← exists_trail_iff finite file]
  constructor
  · rintro ⟨fuel,result,visited,returned,distinct⟩
    rw [visits_eq,Option.map_eq_some_iff] at returned
    obtain ⟨places,ended,same⟩ := returned
    obtain ⟨-,rfl⟩ := Prod.mk.inj same
    exact ⟨fuel,places,ended,distinct⟩
  · rintro ⟨fuel,places,ended,distinct⟩
    refine ⟨fuel,fromDirectory disk.read jarPath parentFile fuel file,places,?_,distinct⟩
    rw [visits_eq,ended]
    rfl

/-- A version that names itself as its parent, with a slash behind the name or without. -/
def mirror (parent : Text) : LaunchVersion where
  assetIndex := none
  assets := none
  downloads := none
  id := some ("mirror" : String)
  libraries := some []
  mainClass := none
  minecraftArguments := none
  minimumLauncherVersion := 0
  releaseTime := none
  time := none
  type := none
  arguments := none
  inheritsFrom := some parent
  minecraftPath := []

def mirrorFile : File := ⟨"/versions/mirror".toList⟩

def mirrorDisk (parent : Text) : VersionDirectories Unit where
  directories := [()]
  leadsTo file := if file = mirrorFile then some () else none
  read file := if file = mirrorFile then some (mirror parent) else none
  listed := by
    intro file version found
    by_cases here : file = mirrorFile
    · exact ⟨(),List.mem_singleton_self _,if_pos here⟩
    · rw [if_neg here] at found
      cases found

theorem mirror_again : ∀ parent ∈ ["mirror".toList,"mirror/".toList],
    parentDirectory (mirrorDisk parent).read mirrorFile = some mirrorFile := by
  decide +kernel

theorem mirror_runs_on {parent : Text} (inside : parent ∈ ["mirror".toList,"mirror/".toList]) :
    ¬∃ fuel result visited, fromDirectoryVisits (mirrorDisk parent).read (fun _ => []) fuel
      mirrorFile = some (result,visited) := by
  rintro ⟨fuel,result,visited,returned⟩
  rw [visits_eq,Option.map_eq_some_iff] at returned
  obtain ⟨places,ended,-⟩ := returned
  induction fuel generalizing places with
  | zero => cases ended
  | succ fuel ih =>
    rw [trail_next (mirror_again parent inside),Option.map_eq_some_iff] at ended
    obtain ⟨rest,later,-⟩ := ended
    exact ih rest later

theorem mirror_not_returned :
    (¬∃ fuel result visited, fromDirectoryVisits (mirrorDisk "mirror".toList).read (fun _ => [])
      fuel mirrorFile = some (result,visited)) ∧
    ¬∃ fuel result visited, fromDirectoryVisits (mirrorDisk "mirror/".toList).read (fun _ => [])
      fuel mirrorFile = some (result,visited) :=
  ⟨mirror_runs_on (by simp),mirror_runs_on (by simp)⟩

end HmclPe.Launch.LaunchVersion
