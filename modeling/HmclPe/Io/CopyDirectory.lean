import HmclPe.Lib.Courses

/-! Copying a directory into another one, which may be the same, inside of it or around it, on a
disk with symbolic links. -/
namespace HmclPe.Io.CopyDirectory
open HmclPe.Lib.Disks HmclPe.Lib.Folders HmclPe.Lib.SymbolicLinks HmclPe.Lib.Courses

variable {ν β : Type} [DecidableEq ν] {legal : ν → Prop} [DecidablePred legal]

/-- What the operating system decides: how many links are followed on one path, which paths it looks
up (not those that are too long, or that lead through a folder one may not search), who may read and
write what, in which order a folder is listed and whether a write breaks off. -/
structure System (legal : ν → Prop) (β : Type) where
  empty : β
  links : Nat
  limit : Nat
  reaches : List ν → Bool
  bounded : ∀ path, reaches path = true → path.length ≤ limit
  above : ∀ path name, reaches (path ++ [name]) = true → reaches path = true
  readable : List ν → Bool
  writable : List ν → Bool
  listing : Disk legal (Leaf ν β) → List ν → List ν
  listing_perm : ∀ d place, (listing d place).Perm (d.children place)
  interrupted : List ν → Option β

/-- `NullPointerException` -/
inductive Answer
  | yes
  | no
  | exception
deriving DecidableEq

/-! ## `java.io` -/

namespace System

variable (sys : System legal β) (path : List ν) (d : Disk legal (Leaf ν β))

def found : Option (List ν) := if sys.reaches path then leads d sys.links path else none

def isFile : Bool :=
  match sys.found path d with
  | some place => d.isFile place
  | none => false

def isDirectory : Bool :=
  match sys.found path d with
  | some place => d.isFolder place
  | none => false

def listFiles : Option (List ν) :=
  match sys.found path d with
  | some place =>
    if d.isFolder place ∧ sys.readable place = true then some (sys.listing d place) else none
  | none => none

/-- All folders of the canonical path that are missing are made. -/
def mkdirs : Bool × Disk legal (Leaf ν β) :=
  if sys.reaches path ∧ (leads d sys.links path).isNone then
    let place := canonical d sys.links path
    let made := d.mkdirs sys.writable place
    ((d.entries place).isNone && made.isFolder place,made)
  else (false,d)

/-- Where a `FileOutputStream` writes to: a file that the path leads to, at least once it has been
made there. -/
def opened : Option (List ν) :=
  match target d sys.links path with
  | some place =>
    let file := Node.file (.data sys.empty)
    if sys.reaches path ∧ sys.writable place ∧ d.CanPut place file ∧
        leads (d.put place file) sys.links path = some place then some place
    else none
  | none => none

end System

/-! ## `com.tungsten.hmclpe.utils.file.FileUtils` -/

namespace System

variable (sys : System legal β)

/-- Opening the second file empties it, before anything is read from the first. -/
def copyFile (src dest : List ν) (d : Disk legal (Leaf ν β)) : Bool × Disk legal (Leaf ν β) :=
  match sys.found src d,sys.opened dest d with
  | some source, some place =>
    if d.isFile source ∧ sys.readable source = true then
      let opened := d.put place (.file (.data sys.empty))
      match opened.entries source,sys.interrupted place with
      | some (.file (.data content)), none => (true,opened.put place (.file (.data content)))
      | _, some part => (false,opened.put place (.file (.data part)))
      | _, none => (false,opened)
    else (false,d)
  | _, _ => (false,d)

/-- The loop over the files of a folder, with the copying of a folder. -/
def copyFiles (copyDirectory : List ν → List ν → Disk legal (Leaf ν β) →
      Option (Answer × Disk legal (Leaf ν β)))
    (src dest : List ν) : List ν → Disk legal (Leaf ν β) →
      Option (Answer × Disk legal (Leaf ν β))
  | [], d => some (.yes,d)
  | name :: files, d =>
    if sys.isFile (src ++ [name]) d then
      match sys.copyFile (src ++ [name]) (dest ++ [name]) d with
      | (true, d) => copyFiles copyDirectory src dest files d
      | (false, d) => some (.no,d)
    else if sys.isDirectory (src ++ [name]) d then
      match copyDirectory (src ++ [name]) (dest ++ [name]) d with
      | some (.yes, d) => copyFiles copyDirectory src dest files d
      | result => result
    else copyFiles copyDirectory src dest files d

def destination (dest : List ν) (d : Disk legal (Leaf ν β)) : Bool × Disk legal (Leaf ν β) :=
  if sys.isDirectory dest d then (true,d) else sys.mkdirs dest d

/-- Each turn goes one folder down. The list of a folder that can not be read is `null`. -/
def copyDirectory : Nat → List ν → List ν → Disk legal (Leaf ν β) →
    Option (Answer × Disk legal (Leaf ν β))
  | 0, _, _, _ => none
  | turns + 1, src, dest, d =>
    if sys.isDirectory src d then
      match sys.destination dest d with
      | (true, d) =>
        match sys.listFiles src d with
        | some files => sys.copyFiles (copyDirectory turns) src dest files d
        | none => some (.exception,d)
      | (false, d) => some (.no,d)
    else some (.no,d)

end System

section Property

variable (sys : System legal β) (src dest : List ν) (d : Disk legal (Leaf ν β))

/-- What a path leads to, whether or not the system looks it up, is a file with this content. -/
def Reads (path : List ν) (content : β) : Prop :=
  ∃ place, leads d sys.links path = some place ∧ d.entries place = some (.file (.data content))

structure Faithful (d' : Disk legal (Leaf ν β)) : Prop where
  copied : ∀ below content, Reads sys d (src ++ below) content →
    Reads sys d' (dest ++ below) content
  unchanged : ∀ below content, Reads sys d (src ++ below) content →
    Reads sys d' (src ++ below) content

/-- It terminates, and a copy that is reported is faithful. -/
structure Copies : Prop where
  terminates : ∃ turns answer, sys.copyDirectory turns src dest d = some answer
  faithful : ∀ turns d', sys.copyDirectory turns src dest d = some (.yes,d') →
    Faithful sys src dest d d'

end Property

/-! ## What is looked up -/

section Looks

variable {sys : System legal β} {path place next : List ν} {d d' : Disk legal (Leaf ν β)} {name : ν}

omit [DecidablePred legal]

theorem found_iff : sys.found path d = some place ↔
    sys.reaches path = true ∧ leads d sys.links path = some place := by
  rw [System.found]
  split
  · next reaches => simp [reaches]
  · next reaches => simp [reaches]

theorem isFile_iff : sys.isFile path d = true ↔ ∃ place content, sys.found path d = some place ∧
    d.entries place = some (.file (.data content)) := by
  rw [System.isFile]
  cases here : sys.found path d with
  | none => simp
  | some place =>
    dsimp only
    constructor
    · intro file
      rcases leads_cases (found_iff.mp here).2 with folder | ⟨content,data⟩
      · rw [FileSystem.not_isFile_of_folder folder] at file
        cases file
      · exact ⟨place,content,rfl,data⟩
    · rintro ⟨other,content,same,data⟩
      cases same
      exact FileSystem.isFile_of_entries data

theorem isDirectory_iff : sys.isDirectory path d = true ↔
    ∃ place, sys.found path d = some place ∧ d.entries place = some .folder := by
  rw [System.isDirectory]
  cases sys.found path d with
  | none => simp
  | some place => simp [FileSystem.isFolder_iff]

theorem listFiles_iff {files : List ν} : sys.listFiles path d = some files ↔
    ∃ place, sys.found path d = some place ∧ d.entries place = some .folder ∧
      sys.readable place = true ∧ files = sys.listing d place := by
  rw [System.listFiles]
  cases sys.found path d with
  | none => simp
  | some place =>
    dsimp only
    constructor
    · intro listed
      split at listed
      · next both =>
        exact ⟨place,rfl,FileSystem.isFolder_iff.mp both.1,both.2,(Option.some.inj listed).symm⟩
      · cases listed
    · rintro ⟨other,same,folder,readable,rfl⟩
      cases same
      rw [if_pos ⟨FileSystem.isFolder_iff.mpr folder,readable⟩]

theorem found_cases (here : sys.found path d = some place) :
    sys.isFile path d = true ∨ sys.isDirectory path d = true := by
  rcases leads_cases (found_iff.mp here).2 with folder | ⟨content,data⟩
  · exact .inr (isDirectory_iff.mpr ⟨place,here,folder⟩)
  · exact .inl (isFile_iff.mpr ⟨place,content,here,data⟩)

theorem found_extends (extends_ : Extends d d') (here : sys.found path d = some place) :
    sys.found path d' = some place := by
  obtain ⟨reaches,found⟩ := found_iff.mp here
  exact found_iff.mpr ⟨reaches,extends_.leads found⟩

theorem found_eq (extends_ : Extends d d') (here : sys.found path d = some place)
    (there : sys.found path d' = some next) : next = place := by
  rw [found_extends extends_ here] at there
  exact (Option.some.inj there).symm

theorem isDirectory_extends (extends_ : Extends d d') (folder : sys.isDirectory path d = true) :
    sys.isDirectory path d' = true := by
  obtain ⟨place,here,folder⟩ := isDirectory_iff.mp folder
  exact isDirectory_iff.mpr ⟨place,found_extends extends_ here,extends_.folder place folder⟩

theorem isFile_extends (extends_ : Extends d d') (file : sys.isFile path d = true) :
    sys.isFile path d' = true := by
  obtain ⟨place,content,here,data⟩ := isFile_iff.mp file
  obtain ⟨content',data'⟩ := extends_.data place content data
  exact isFile_iff.mpr ⟨place,content',found_extends extends_ here,data'⟩

theorem not_isFile (folder : sys.isDirectory path d = true) : sys.isFile path d = false := by
  obtain ⟨place,here,folder⟩ := isDirectory_iff.mp folder
  rw [Bool.eq_false_iff]
  intro file
  obtain ⟨other,content,here',data⟩ := isFile_iff.mp file
  rw [here] at here'
  cases here'
  rw [folder] at data
  cases data

theorem reaches_start {further : List ν} (reaches : sys.reaches (path ++ further) = true) :
    sys.reaches path = true := by
  induction further using List.reverseRecOn with
  | nil =>
    rw [List.append_nil] at reaches
    exact reaches
  | append_singleton further name ih =>
    rw [← List.append_assoc] at reaches
    exact ih (sys.above _ name reaches)

/-- What is found stands in a folder that is found. -/
theorem found_above (here : sys.found (path ++ [name]) d = some next) :
    ∃ place, sys.found path d = some place ∧ d.entries place = some .folder ∧
      d.entries (place ++ [name]) ≠ none := by
  obtain ⟨reaches,found⟩ := found_iff.mp here
  obtain ⟨place,above,folder,there⟩ := leads_above found
  exact ⟨place,found_iff.mpr ⟨sys.above path name reaches,above⟩,folder,there⟩

/-- What stands above something that is found is found, and a folder. -/
theorem isDirectory_above {further : List ν} (some_ : further ≠ [])
    (here : sys.found (path ++ further) d = some next) : sys.isDirectory path d = true := by
  obtain ⟨reaches,found⟩ := found_iff.mp here
  obtain ⟨place,above,folder⟩ := leads_prefix some_ found
  exact isDirectory_iff.mpr ⟨place,found_iff.mpr ⟨reaches_start reaches,above⟩,folder⟩

end Looks

/-! ## What every copy keeps -/

section Grown

/-- What is new stands where the system lets one write. -/
structure Grown (sys : System legal β) (d d' : Disk legal (Leaf ν β)) : Prop
    extends Extends d d' where
  new : ∀ place, d'.entries place ≠ none → d.entries place ≠ none ∨ sys.writable place = true

variable {sys : System legal β} {d d' d'' : Disk legal (Leaf ν β)} {path place : List ν}

omit [DecidablePred legal] in
theorem Grown.refl : Grown sys d d := ⟨Extends.refl,fun _ => .inl⟩

omit [DecidablePred legal] in
theorem Grown.trans (first : Grown sys d d') (second : Grown sys d' d'') : Grown sys d d'' := by
  refine ⟨first.toExtends.trans second.toExtends,?_⟩
  intro place there
  rcases second.new place there with before | writable
  · exact first.new place before
  · exact .inr writable

theorem opened_iff : sys.opened path d = some place ↔
    target d sys.links path = some place ∧ sys.reaches path = true ∧ sys.writable place = true ∧
      d.CanPut place (.file (.data sys.empty)) ∧
      leads (d.put place (.file (.data sys.empty))) sys.links path = some place := by
  rw [System.opened]
  cases goal : target d sys.links path with
  | none => simp
  | some other =>
    dsimp only
    constructor
    · intro here
      split at here
      · next all =>
        cases here
        exact ⟨rfl,all⟩
      · cases here
    · rintro ⟨same,all⟩
      cases same
      rw [if_pos all]

theorem opened_real (here : sys.opened path d = some place) (link : Link ν) :
    d.entries place ≠ some (.file (.link link)) :=
  target_real (opened_iff.mp here).1 link

theorem grown_put {content : β} (writable : sys.writable place = true)
    (real : ∀ link, d.entries place ≠ some (.file (.link link))) :
    Grown sys d (d.put place (.file (.data content))) := by
  refine ⟨extends_put real,?_⟩
  intro other there
  by_cases here : other = place
  · right
    rw [here,writable]
  · left
    rw [Disk.entries_put_other here] at there
    exact there

theorem grown_mkdirs : Grown sys d (sys.mkdirs path d).2 := by
  rw [System.mkdirs]
  split
  · refine ⟨extends_mkdirs,?_⟩
    intro other there
    by_cases before : d.entries other = none
    · exact .inr (Disk.fits_of_mkdirs before there)
    · exact .inl before
  · exact Grown.refl

theorem grown_destination : Grown sys d (sys.destination path d).2 := by
  rw [System.destination]
  split
  · exact Grown.refl
  · exact grown_mkdirs

/-- A folder that is there or has been made is found. -/
theorem found_destination (made : sys.destination path d = (true,d')) :
    sys.isDirectory path d' = true := by
  rw [System.destination] at made
  split at made
  · next folder =>
    cases made
    exact folder
  · have extends_ : Extends d d' := by
      have grown := (grown_mkdirs : Grown sys d (sys.mkdirs path d).2)
      rw [made] at grown
      exact grown.toExtends
    rw [System.mkdirs] at made
    split at made
    · next able =>
      obtain ⟨both,rfl⟩ := Prod.mk.inj made
      rw [Bool.and_eq_true,FileSystem.isFolder_iff] at both
      exact isDirectory_iff.mpr
        ⟨_,found_iff.mpr ⟨able.1,leads_canonical extends_ both.2⟩,both.2⟩
    · cases made

theorem grown_copyFile {src dest : List ν} {answer : Bool}
    (copied : sys.copyFile src dest d = (answer,d')) : Grown sys d d' := by
  rw [System.copyFile] at copied
  split at copied
  · next source place there here =>
    have writable := (opened_iff.mp here).2.2.1
    have first : Grown sys d (d.put place (.file (.data sys.empty))) :=
      grown_put writable (opened_real here)
    have again : ∀ content, Grown sys d
        ((d.put place (.file (.data sys.empty))).put place (.file (.data content))) :=
      fun content => first.trans (grown_put writable (first.real (opened_real here)))
    split at copied
    · dsimp only at copied
      split at copied <;> obtain ⟨-,rfl⟩ := Prod.mk.inj copied
      · exact again _
      · exact again _
      · exact first
    · obtain ⟨-,rfl⟩ := Prod.mk.inj copied
      exact Grown.refl
  · obtain ⟨-,rfl⟩ := Prod.mk.inj copied
    exact Grown.refl

variable {copyDirectory : List ν → List ν → Disk legal (Leaf ν β) →
    Option (Answer × Disk legal (Leaf ν β))} {src dest : List ν} {answer : Answer}

/-- What one turn of the loop does. -/
theorem copyFiles_cases {name : ν} {files : List ν}
    (copied : sys.copyFiles copyDirectory src dest (name :: files) d = some (answer,d')) :
    (sys.isFile (src ++ [name]) d = true ∧
        ((∃ e, sys.copyFile (src ++ [name]) (dest ++ [name]) d = (true,e) ∧
            sys.copyFiles copyDirectory src dest files e = some (answer,d')) ∨
          (sys.copyFile (src ++ [name]) (dest ++ [name]) d = (false,d') ∧ answer = .no))) ∨
      (sys.isDirectory (src ++ [name]) d = true ∧
        ((∃ e, copyDirectory (src ++ [name]) (dest ++ [name]) d = some (.yes,e) ∧
            sys.copyFiles copyDirectory src dest files e = some (answer,d')) ∨
          (copyDirectory (src ++ [name]) (dest ++ [name]) d = some (answer,d') ∧
            answer ≠ .yes))) ∨
      (sys.found (src ++ [name]) d = none ∧
        sys.copyFiles copyDirectory src dest files d = some (answer,d')) := by
  rw [System.copyFiles] at copied
  split at copied
  · next file =>
    refine .inl ⟨file,?_⟩
    split at copied
    · next e made => exact .inl ⟨e,made,copied⟩
    · next e made =>
      obtain ⟨rfl,rfl⟩ := Prod.mk.inj (Option.some.inj copied)
      exact .inr ⟨made,rfl⟩
  · next file =>
    split at copied
    · next folder =>
      refine .inr (.inl ⟨folder,?_⟩)
      split at copied
      · next e made => exact .inl ⟨e,made,copied⟩
      · next other =>
        refine .inr ⟨copied,?_⟩
        rintro rfl
        exact other d' copied
    · next folder =>
      refine .inr (.inr ⟨?_,copied⟩)
      by_contra there
      obtain ⟨place,here⟩ := Option.ne_none_iff_exists'.mp there
      rcases found_cases here with file' | folder'
      · exact file file'
      · exact folder folder'

theorem grown_copyFiles
    (grown : ∀ src dest d answer d', copyDirectory src dest d = some (answer,d') → Grown sys d d')
    {files : List ν} (copied : sys.copyFiles copyDirectory src dest files d = some (answer,d')) :
    Grown sys d d' := by
  induction files generalizing d with
  | nil =>
    obtain ⟨-,rfl⟩ := Prod.mk.inj (Option.some.inj copied)
    exact Grown.refl
  | cons name files ih =>
    rcases copyFiles_cases copied with
      ⟨-,⟨e,made,rest⟩ | ⟨made,-⟩⟩ | ⟨-,⟨e,made,rest⟩ | ⟨made,-⟩⟩ | ⟨-,rest⟩
    · exact (grown_copyFile made).trans (ih rest)
    · exact grown_copyFile made
    · exact (grown _ _ _ _ _ made).trans (ih rest)
    · exact grown _ _ _ _ _ made
    · exact ih rest

theorem copyDirectory_cases {turns : Nat}
    (copied : sys.copyDirectory (turns + 1) src dest d = some (answer,d')) :
    (sys.isDirectory src d = false ∧ answer = .no ∧ d' = d) ∨
      (sys.isDirectory src d = true ∧ sys.destination dest d = (false,d') ∧ answer = .no) ∨
      (sys.isDirectory src d = true ∧ sys.destination dest d = (true,d') ∧
        sys.listFiles src d' = none ∧ answer = .exception) ∨
      (∃ e files, sys.isDirectory src d = true ∧ sys.destination dest d = (true,e) ∧
        sys.listFiles src e = some files ∧
        sys.copyFiles (sys.copyDirectory turns) src dest files e = some (answer,d')) := by
  rw [System.copyDirectory] at copied
  split at copied
  · next folder =>
    split at copied
    · next e made =>
      split at copied
      · next files listed => exact .inr (.inr (.inr ⟨e,files,folder,made,listed,copied⟩))
      · next unlisted =>
        obtain ⟨rfl,rfl⟩ := Prod.mk.inj (Option.some.inj copied)
        exact .inr (.inr (.inl ⟨folder,made,unlisted,rfl⟩))
    · next e made =>
      obtain ⟨rfl,rfl⟩ := Prod.mk.inj (Option.some.inj copied)
      exact .inr (.inl ⟨folder,made,rfl⟩)
  · next folder =>
    obtain ⟨rfl,rfl⟩ := Prod.mk.inj (Option.some.inj copied)
    exact .inl ⟨Bool.eq_false_of_not_eq_true folder,rfl,rfl⟩

theorem starts_of_yes {turns : Nat}
    (copied : sys.copyDirectory turns src dest d = some (.yes,d')) :
    sys.isDirectory src d = true ∧ (sys.destination dest d).1 = true := by
  cases turns with
  | zero => cases copied
  | succ turns =>
    rcases copyDirectory_cases copied with
      ⟨-,no,-⟩ | ⟨-,-,no⟩ | ⟨-,-,-,no⟩ | ⟨e,files,folder,made,-⟩
    · cases no
    · cases no
    · cases no
    · exact ⟨folder,by rw [made]⟩

theorem grown_of_destination {answer : Bool} (made : sys.destination dest d = (answer,d')) :
    Grown sys d d' := by
  have grown := (grown_destination : Grown sys d (sys.destination dest d).2)
  rw [made] at grown
  exact grown

theorem grown_copyDirectory {turns : Nat}
    (copied : sys.copyDirectory turns src dest d = some (answer,d')) : Grown sys d d' := by
  induction turns generalizing src dest d answer d' with
  | zero => cases copied
  | succ turns ih =>
    rcases copyDirectory_cases copied with
      ⟨-,-,rfl⟩ | ⟨-,made,-⟩ | ⟨-,made,-⟩ | ⟨e,files,-,made,-,copied⟩
    · exact Grown.refl
    · exact grown_of_destination made
    · exact grown_of_destination made
    · exact (grown_of_destination made).trans (grown_copyFiles (fun _ _ _ _ _ => ih) copied)

end Grown

/-! ## Termination -/

section Termination

variable {sys : System legal β} {d : Disk legal (Leaf ν β)} {src dest : List ν}

theorem copyFiles_ends
    {copyDirectory : List ν → List ν → Disk legal (Leaf ν β) →
      Option (Answer × Disk legal (Leaf ν β))}
    (ends : ∀ name d, sys.isDirectory (src ++ [name]) d = true →
      ∃ result, copyDirectory (src ++ [name]) (dest ++ [name]) d = some result)
    {files : List ν} : ∃ result, sys.copyFiles copyDirectory src dest files d = some result := by
  induction files generalizing d with
  | nil => exact ⟨_,rfl⟩
  | cons name files ih =>
    rw [System.copyFiles]
    split
    · split
      · exact ih
      · exact ⟨_,rfl⟩
    · split
      · next folder =>
        obtain ⟨⟨answer,d'⟩,copied⟩ := ends name d folder
        rw [copied]
        cases answer with
        | yes => exact ih
        | no => exact ⟨_,rfl⟩
        | exception => exact ⟨_,rfl⟩
      · exact ih

/-- Each turn goes one name deeper into the source, and no path that is too long leads to a folder:
also where links lead round in circles, and where what is written is copied on. -/
theorem copyDirectory_ends {turns : Nat} (enough : sys.limit + 2 ≤ turns + src.length)
    (short : src.length ≤ sys.limit + 1) :
    ∃ result, sys.copyDirectory turns src dest d = some result := by
  induction turns generalizing src dest d with
  | zero => omega
  | succ turns ih =>
    rw [System.copyDirectory]
    split
    · split
      · split
        · apply copyFiles_ends
          intro name d folder
          obtain ⟨place,here,-⟩ := isDirectory_iff.mp folder
          have bounded := sys.bounded _ (found_iff.mp here).1
          rw [List.length_append,List.length_singleton] at bounded
          apply ih <;> rw [List.length_append,List.length_singleton] <;> omega
        · exact ⟨_,rfl⟩
      · exact ⟨_,rfl⟩
    · exact ⟨_,rfl⟩

/-- Whatever the two paths are. -/
theorem copyDirectory_terminates (sys : System legal β) (src dest : List ν)
    (d : Disk legal (Leaf ν β)) :
    ∃ turns result, sys.copyDirectory turns src dest d = some result := by
  by_cases short : src.length ≤ sys.limit
  · exact ⟨sys.limit + 2,copyDirectory_ends (by omega) (by omega)⟩
  · refine ⟨1,(.no,d),?_⟩
    rw [System.copyDirectory,if_neg]
    intro folder
    obtain ⟨place,here,-⟩ := isDirectory_iff.mp folder
    exact short (sys.bounded _ (found_iff.mp here).1)

end Termination

/-! ## Into the source itself -/

section Inside

variable {sys : System legal β} {d d' : Disk legal (Leaf ν β)} {src dest : List ν}

theorem copyFiles_yes_of_mem
    {copyDirectory : List ν → List ν → Disk legal (Leaf ν β) →
      Option (Answer × Disk legal (Leaf ν β))}
    (grown : ∀ src dest d answer d', copyDirectory src dest d = some (answer,d') → Grown sys d d')
    {files : List ν} {name : ν} (member : name ∈ files)
    (folder : sys.isDirectory (src ++ [name]) d = true)
    (copied : sys.copyFiles copyDirectory src dest files d = some (.yes,d')) :
    ∃ e e', copyDirectory (src ++ [name]) (dest ++ [name]) e = some (.yes,e') := by
  induction files generalizing d with
  | nil => cases member
  | cons first files ih =>
    rcases copyFiles_cases copied with
      ⟨file,⟨e,made,rest⟩ | ⟨-,no⟩⟩ | ⟨-,⟨e,made,rest⟩ | ⟨-,no⟩⟩ | ⟨nothing,rest⟩
    · rcases List.mem_cons.mp member with rfl | later
      · rw [not_isFile folder] at file
        cases file
      · exact ih later (isDirectory_extends (grown_copyFile made).toExtends folder) rest
    · cases no
    · rcases List.mem_cons.mp member with rfl | later
      · exact ⟨d,e,made⟩
      · exact ih later (isDirectory_extends (grown _ _ _ _ _ made).toExtends folder) rest
    · exact absurd rfl no
    · rcases List.mem_cons.mp member with rfl | later
      · obtain ⟨place,here,-⟩ := isDirectory_iff.mp folder
        rw [nothing] at here
        cases here
      · exact ih later folder rest

/-- The copy meets itself in every folder on its way down, and so goes on until the path is too
long. -/
theorem inside_not_yes {turns : Nat} {name : ν} {below : List ν}
    (copied : sys.copyDirectory turns src (src ++ name :: below) d = some (.yes,d')) : False := by
  induction turns generalizing src below name d d' with
  | zero => cases copied
  | succ turns ih =>
    rcases copyDirectory_cases copied with
      ⟨-,no,-⟩ | ⟨-,-,no⟩ | ⟨-,-,-,no⟩ | ⟨e,files,-,made,listed,copied⟩
    · cases no
    · cases no
    · cases no
    · have folder := found_destination made
      have there : sys.isDirectory (src ++ [name]) e = true := by
        rw [List.append_cons] at folder
        by_cases last : below = []
        · rw [last,List.append_nil] at folder
          exact folder
        · obtain ⟨next,here,-⟩ := isDirectory_iff.mp folder
          exact isDirectory_above last here
      obtain ⟨next,here,-⟩ := isDirectory_iff.mp there
      obtain ⟨place,above,-,entry⟩ := found_above here
      obtain ⟨place',above',-,-,rfl⟩ := listFiles_iff.mp listed
      rw [above] at above'
      cases above'
      have member : name ∈ sys.listing e place := by
        rw [(sys.listing_perm _ _).mem_iff,Disk.mem_children]
        exact entry
      obtain ⟨e₁,e₂,again⟩ :=
        copyFiles_yes_of_mem (fun _ _ _ _ _ => grown_copyDirectory) member there copied
      cases below with
      | nil => exact @ih e₁ e₂ (src ++ [name]) name [] again
      | cons next below =>
        apply @ih e₁ e₂ (src ++ [name]) next (below ++ [name])
        rw [← again]
        simp

end Inside
end HmclPe.Io.CopyDirectory
