import HmclPe.Java.Text
import HmclPe.Lib.Paths

/-! Extraction of an archive: which directories and files its entries reach below the directory
they are extracted to. -/
namespace HmclPe.Io.ZipTools
open HmclPe.Java HmclPe.Lib.Paths

section Model

/-- What the extraction asks of the file system. -/
inductive Effect
  | mkdirs (path : Text)
  | delete (path : Text)
  | write (path : Text)
deriving DecidableEq

/-- A file system answers from its state; `entries` lists the names of an archive that opens. -/
structure FileSystem (σ : Type) where
  exist : σ → Text → Bool
  isDirectory : σ → Text → Bool
  entries : σ → Text → Option (List Text)
  after : Effect → σ → σ

structure Disk (σ : Type) where
  state : σ
  done : List Effect

variable {σ : Type} (fs : FileSystem σ)

def Disk.ask (disk : Disk σ) (effect : Effect) : Disk σ :=
  ⟨fs.after effect disk.state,disk.done ++ [effect]⟩

/-- `substring(0, lastIndexOf(sep))` of a text that has the separator. -/
def beforeLast (sep : Char) (s : Text) : Text := (s.rdropWhile (· ≠ sep)).dropLast

/-- `File.getName` -/
def getName (path : Text) : Text :=
  ((path.splitOn '/').filter fun piece => piece ≠ []).getLast?.getD []

/-- The directory the entries are put in; exceptions for missing paths and for an archive whose
name has no dot. -/
def unzipDir (zipFilePath unzipFilePath : Text) (includeZipFileName : Bool) : Option Text :=
  if zipFilePath = [] ∨ unzipFilePath = [] then none
  else if includeZipFileName then
    let fileName := getName zipFilePath
    if fileName = [] then some (unzipFilePath ++ '/' :: fileName)
    else if '.' ∈ fileName then some (unzipFilePath ++ '/' :: beforeLast '.' fileName)
    else none
  else some unzipFilePath

def makeDir (path : Text) (disk : Disk σ) : Disk σ :=
  if !fs.exist disk.state path || !fs.isDirectory disk.state path then disk.ask fs (.mkdirs path)
  else disk

def deleteFile (path : Text) (disk : Disk σ) : Disk σ :=
  if fs.exist disk.state path then disk.ask fs (.delete path) else disk

def entryFilePath (unzipFilePath name : Text) : Text := unzipFilePath ++ '/' :: name

/-- `ZipEntry.isDirectory`, and the names that are filtered out. -/
def skipped (filter : List Text) (name : Text) : Bool :=
  filter.contains name || name.endsWith ("/" : String)

/-- An entry that cannot be written is reported and passed over. -/
def unzipEntry (unzipFilePath : Text) (filter : List Text) (disk : Disk σ) (name : Text) :
    Disk σ :=
  if skipped filter name then disk
  else
    let path := entryFilePath unzipFilePath name
    (deleteFile fs path (makeDir fs (beforeLast '/' path) disk)).ask fs (.write path)

/-- The disk when the call returns or throws. -/
def unzipFile (zipFilePath unzipFilePath : Text) (filter : List Text)
    (includeZipFileName : Bool) (disk : Disk σ) : Disk σ :=
  match unzipDir zipFilePath unzipFilePath includeZipFileName with
  | none => disk
  | some dir =>
    let disk := makeDir fs dir disk
    match fs.entries disk.state zipFilePath with
    | none => disk
    | some names => names.foldl (unzipEntry fs dir filter) disk

/-- The names whose entries are written to files below the directory. -/
def extracted (zipFilePath dir : Text) (filter : List Text) (disk : Disk σ) : List Text :=
  ((fs.entries (makeDir fs dir disk).state zipFilePath).getD []).filter
    fun name => !skipped filter name

end Model

/-- A component of a path: empty ones and single dots stay where they are. -/
def component (piece : Text) : Move Text :=
  if piece = [] ∨ piece = ['.'] then .stay else if piece = ['.','.'] then .up else .down piece

def moves (path : Text) : List (Move Text) := (path.splitOn '/').map component

/-- The normal form of a path, from the root or from the working directory. -/
def normalize (cwd : Place Text) (path : Text) : Place Text :=
  walk (if path.head? = some '/' then [] else cwd) (moves path)

/-- Whatever `mkdirs` makes is a part of the path it is given. -/
def Contained (cwd : Place Text) (unzipFilePath : Text) : Effect → Prop
  | .mkdirs path => ∀ made, made <+: normalize cwd path →
      made <+: normalize cwd unzipFilePath ∨ normalize cwd unzipFilePath <+: made
  | .delete path => Inside (normalize cwd unzipFilePath) (normalize cwd path)
  | .write path => Inside (normalize cwd unzipFilePath) (normalize cwd path)

section Names

theorem moves_join (path name : Text) : moves (path ++ '/' :: name) = moves path ++ moves name := by
  rw [moves,List.splitOn_append_cons_self,List.map_append]
  rfl

theorem normalize_entry (cwd : Place Text) {path : Text} (some_ : path ≠ []) (name : Text) :
    normalize cwd (entryFilePath path name) = walk (normalize cwd path) (moves name) := by
  have start : (path ++ '/' :: name).head? = path.head? := by
    cases path with
    | nil => exact absurd rfl some_
    | cons c s => rfl
  rw [entryFilePath,normalize,start,moves_join,walk_append]
  rfl

theorem unzipDir_some {zipFilePath unzipFilePath dir : Text} {includeZipFileName : Bool}
    (found : unzipDir zipFilePath unzipFilePath includeZipFileName = some dir) : dir ≠ [] := by
  unfold unzipDir at found
  split at found
  · exact absurd found nofun
  · rename_i given
    have some_ : unzipFilePath ≠ [] := fun empty => given (.inr empty)
    cases includeZipFileName with
    | false =>
      obtain rfl : unzipFilePath = dir := by simpa using found
      exact some_
    | true =>
      simp only [if_true] at found
      split at found
      · rw [← Option.some.inj found]
        simp
      · split at found
        · rw [← Option.some.inj found]
          simp
        · exact absurd found nofun

theorem beforeLast_eq {sep : Char} {s : Text} (member : sep ∈ s) :
    ∃ last, sep ∉ last ∧ s = beforeLast sep s ++ sep :: last := by
  induction s using List.reverseRecOn with
  | nil => exact absurd member List.not_mem_nil
  | append_singleton s c ih =>
    by_cases stop : c = sep
    · refine ⟨[],List.not_mem_nil,?_⟩
      rw [beforeLast,List.rdropWhile_concat_neg _ _ _ (by simpa using stop),
        List.dropLast_concat,stop]
    · have earlier : sep ∈ s := by
        rcases List.mem_append.mp member with earlier | last
        · exact earlier
        · exact absurd (List.mem_singleton.mp last).symm stop
      obtain ⟨last,free,whole⟩ := ih earlier
      have same : beforeLast sep (s ++ [c]) = beforeLast sep s := by
        rw [beforeLast,List.rdropWhile_concat_pos _ _ _ (by simpa using stop)]
        rfl
      refine ⟨last ++ [c],by simp [free,Ne.symm stop],?_⟩
      rw [same]
      conv_lhs => rw [whole]
      simp

/-- A file is one move away from the directory that is made for it. -/
theorem normalize_beforeLast (cwd : Place Text) {unzipFilePath : Text}
    (some_ : unzipFilePath ≠ []) (name : Text) :
    ∃ move, normalize cwd (entryFilePath unzipFilePath name) =
      go (normalize cwd (beforeLast '/' (entryFilePath unzipFilePath name))) move := by
  set path := entryFilePath unzipFilePath name with joined
  have slash : '/' ∈ path := by simp [joined,entryFilePath]
  obtain ⟨last,free,whole⟩ := beforeLast_eq slash
  have parent : beforeLast '/' path ≠ [] := by
    intro empty
    rw [empty,List.nil_append,joined,entryFilePath] at whole
    cases unzipFilePath with
    | nil => exact some_ rfl
    | cons c s =>
      have rest : s ++ '/' :: name = last := (List.cons.inj whole).2
      exact free (rest ▸ by simp)
  refine ⟨component last,?_⟩
  have split := normalize_entry cwd parent last
  rw [entryFilePath,← whole] at split
  rw [split,moves,List.splitOn_eq_singleton free]
  rfl

end Names

section Containment
variable {σ : Type} (fs : FileSystem σ) (cwd : Place Text)

/-- The later disk was asked more, and all of that in the directory if and only if `inside`. -/
def Adds (dir : Text) (disk later : Disk σ) (inside : Prop) : Prop :=
  ∃ effects, later.done = disk.done ++ effects ∧
    ((∀ effect ∈ effects, Contained cwd dir effect) ↔ inside)

variable {fs} {cwd} {dir : Text} {disk middle later : Disk σ}

theorem Adds.trans {first second : Prop} (one : Adds cwd dir disk middle first)
    (two : Adds cwd dir middle later second) : Adds cwd dir disk later (first ∧ second) := by
  obtain ⟨effects,done,inside⟩ := one
  obtain ⟨more,done',inside'⟩ := two
  refine ⟨effects ++ more,by rw [done',done,List.append_assoc],?_⟩
  rw [← inside,← inside']
  exact List.forall_mem_append

theorem Adds.nothing : Adds cwd dir disk disk True := ⟨[],by simp,by simp⟩

theorem Adds.ask (effect : Effect) :
    Adds cwd dir disk (disk.ask fs effect) (Contained cwd dir effect) :=
  ⟨[effect],rfl,by simp⟩

theorem Adds.congr {first second : Prop} (adds : Adds cwd dir disk later first)
    (same : first ↔ second) : Adds cwd dir disk later second := by
  obtain ⟨effects,done,inside⟩ := adds
  exact ⟨effects,done,inside.trans same⟩

theorem Adds.ite (c : Prop) [Decidable c] (effect : Effect) :
    Adds cwd dir disk (if c then disk.ask fs effect else disk)
      (c → Contained cwd dir effect) := by
  by_cases asked : c
  · rw [if_pos asked]
    exact (Adds.ask effect).congr (by simp [asked])
  · rw [if_neg asked]
    exact Adds.nothing.congr (by simp [asked])

variable (fs cwd dir)

theorem makeDir_adds (path : Text) (disk : Disk σ) :
    ∃ asked : Prop, Adds cwd dir disk (makeDir fs path disk)
      (asked → Contained cwd dir (.mkdirs path)) := ⟨_,Adds.ite _ _⟩

theorem deleteFile_adds (path : Text) (disk : Disk σ) :
    ∃ asked : Prop, Adds cwd dir disk (deleteFile fs path disk)
      (asked → Contained cwd dir (.delete path)) := ⟨_,Adds.ite _ _⟩

variable {dir}

theorem contained_mkdirs {path : Text} (under : normalize cwd dir <+: normalize cwd path) :
    Contained cwd dir (.mkdirs path) := by
  intro made part
  exact List.prefix_or_prefix_of_prefix part under

/-- Whether an entry stays inside shows in the file that is written for it. -/
theorem unzipEntry_adds (some_ : dir ≠ []) (filter : List Text) (disk : Disk σ) (name : Text) :
    Adds cwd dir disk (unzipEntry fs dir filter disk name)
      (skipped filter name = false → (net (moves name)).Returns (normalize cwd dir)) := by
  cases skip : skipped filter name with
  | true =>
    rw [unzipEntry,if_pos skip]
    exact Adds.nothing.congr (by simp)
  | false =>
    set path := entryFilePath dir name with joined
    obtain ⟨made,makes⟩ := makeDir_adds fs cwd dir (beforeLast '/' path) disk
    obtain ⟨deleted,deletes⟩ := deleteFile_adds fs cwd dir path
      (makeDir fs (beforeLast '/' path) disk)
    rw [unzipEntry,if_neg (by simp [skip])]
    apply ((makes.trans deletes).trans (Adds.ask (.write path))).congr
    have inside : Contained cwd dir (.write path) ↔
        (net (moves name)).Returns (normalize cwd dir) := by
      rw [← inside_walk,← normalize_entry cwd some_ name]
      rfl
    constructor
    · rintro ⟨-,written⟩ -
      exact inside.mp written
    · intro stays
      have written := inside.mpr (stays rfl)
      obtain ⟨move,parent⟩ := normalize_beforeLast cwd some_ name
      have arrives : Inside (normalize cwd dir)
          (go (normalize cwd (beforeLast '/' path)) move) := by
        rw [← parent]
        exact written
      have under := base_of_inside arrives
      exact ⟨⟨fun _ => contained_mkdirs cwd under,fun _ => written⟩,written⟩

theorem foldl_unzipEntry_adds (some_ : dir ≠ []) (filter names : List Text) (disk : Disk σ) :
    Adds cwd dir disk (names.foldl (unzipEntry fs dir filter) disk)
      (∀ name ∈ names.filter fun name => !skipped filter name,
        (net (moves name)).Returns (normalize cwd dir)) := by
  induction names generalizing disk with
  | nil => exact Adds.nothing.congr (by simp)
  | cons name names ih =>
    have first := unzipEntry_adds fs cwd some_ filter disk name
    apply (first.trans (ih _)).congr
    simp [List.mem_filter,or_imp,forall_and]

end Containment

section Extraction
variable {σ : Type} (fs : FileSystem σ) (cwd : Place Text)

/-- An extraction asks the file system for nothing outside of its directory exactly if each name
that is extracted stays below where it starts or comes back to it. -/
theorem contained_iff (zipFilePath unzipFilePath : Text) (filter : List Text)
    (includeZipFileName : Bool) (state : σ) :
    (∀ effect ∈
        (unzipFile fs zipFilePath unzipFilePath filter includeZipFileName ⟨state,[]⟩).done,
      ∃ dir ∈ unzipDir zipFilePath unzipFilePath includeZipFileName, Contained cwd dir effect) ↔
    ∀ dir ∈ unzipDir zipFilePath unzipFilePath includeZipFileName,
      ∀ name ∈ extracted fs zipFilePath dir filter ⟨state,[]⟩,
        (net (moves name)).Returns (normalize cwd dir) := by
  unfold unzipFile
  cases found : unzipDir zipFilePath unzipFilePath includeZipFileName with
  | none => simp
  | some dir =>
    obtain ⟨asked,makes⟩ := makeDir_adds fs cwd dir dir ⟨state,[]⟩
    have made : asked → Contained cwd dir (.mkdirs dir) :=
      fun _ => contained_mkdirs cwd List.prefix_rfl
    simp only [Option.mem_some_iff,forall_eq',exists_eq_left',extracted]
    cases opened : fs.entries (makeDir fs dir ⟨state,[]⟩).state zipFilePath with
    | none =>
      obtain ⟨effects,done,inside⟩ := makes
      simp only [done,List.nil_append]
      simpa using inside.mpr made
    | some names =>
      have some_ := unzipDir_some found
      obtain ⟨effects,done,inside⟩ := makes.trans
        (foldl_unzipEntry_adds fs cwd some_ filter names (makeDir fs dir ⟨state,[]⟩))
      simp only [done,List.nil_append,Option.getD_some]
      rw [inside]
      exact and_iff_right made

end Extraction

/-- A disk on which every file is there, with an archive of one entry. -/
def oneEntry (name : Text) : FileSystem Unit where
  exist _ _ := true
  isDirectory _ _ := true
  entries _ _ := some [name]
  after _ state := state

/-- The entry `../saves.dat` is written next to the directory, not into it. -/
theorem parent_written :
    ∃ effect ∈ (unzipFile (oneEntry ("../saves.dat" : String)) ("/sdcard/pack.zip" : String)
      ("/sdcard/game" : String) [] false ⟨(),[]⟩).done,
      effect = .write ("/sdcard/game/../saves.dat" : String) ∧
      ¬ Contained [] ("/sdcard/game" : String) effect := by
  refine ⟨.write ("/sdcard/game/../saves.dat" : String),by decide,rfl,?_⟩
  rintro ⟨below,-,same⟩
  have read : normalize [] ("/sdcard/game/../saves.dat" : String) =
      [("sdcard" : String).toList,("saves.dat" : String).toList] := by decide
  have base : normalize [] ("/sdcard/game" : String) =
      [("sdcard" : String).toList,("game" : String).toList] := by decide
  rw [read,base] at same
  revert same
  simp

end HmclPe.Io.ZipTools
