import HmclPe.Io.ZipTools
import HmclPe.Java.Search
import HmclPe.Lib.Disks

/-! Archives of folders: an archive is written from the files below a folder under their paths from
there, and extracting it somewhere else should give the same files. -/
namespace HmclPe.Io.ZipArchive
open HmclPe.Java HmclPe.Lib.Disks HmclPe.Lib.Folders HmclPe.Lib.Paths ZipTools
open HmclPe.Lib.Disks.Disk (folder_above none_below folder_of_above)

/-- Names of files. -/
def Legal (name : Text) : Prop := name ≠ [] ∧ '/' ∉ name ∧ name ≠ ['.'] ∧ name ≠ ['.','.']

instance : DecidablePred Legal := fun name =>
  inferInstanceAs (Decidable (name ≠ [] ∧ '/' ∉ name ∧ name ≠ ['.'] ∧ name ≠ ['.','.']))

section Model

variable {β : Type}

/-- The zip library stores and returns names and contents faithfully; an archive that is still
being written has some content. -/
structure ZipLibrary (β : Type) where
  archive : List (Text × β) → β
  read : β → Option (List (Text × β))
  unfinished : β
  faithful : ∀ entries, read (archive entries) = some entries

def slashed (place : List Text) : Text := place.flatMap fun name => '/' :: name

/-- `File.getAbsolutePath` -/
def absolutePath (place : List Text) : Text := if place = [] then ['/'] else slashed place

def resolve (path : Text) : List Text := normalize [] path

def everywhere (_ : List Text) : Bool := true

/-- The name of a file's entry: its path without that of the folder before it. -/
def entryName (srcRootDir path : Text) : Option Text :=
  if path.indexOf srcRootDir ≠ -1 then path.substring (srcRootDir.length + 1) path.length
  else some path

/-- The entries below a place; a missing folder has no list. Each turn goes one folder down. -/
def zipBelow (d : Disk Legal β) (srcRootDir : Text) : Nat → List Text → Option (List (Text × β))
  | 0, _ => none
  | turns + 1, place =>
    match d.entries place with
    | some (.file content) =>
      (entryName srcRootDir (absolutePath place)).map fun name => [(name,content)]
    | some .folder =>
      ((d.children place).mapM fun name => zipBelow d srcRootDir turns (place ++ [name])).map
        List.flatten
    | none => none

/-- What the exceptions leave behind is left out. -/
def zip (lib : ZipLibrary β) (d : Disk Legal β) (srcPath zipPath zipFileName : Text) :
    Option (Disk Legal β) :=
  if srcPath = [] ∨ zipPath = [] ∨ zipFileName = [] then none
  else
    let srcFile := resolve srcPath
    if d.isFolder srcFile ∧ Text.contains zipPath srcPath then none
    else
      let d := if d.isFolder (resolve zipPath) then d else d.mkdirs everywhere (resolve zipPath)
      let zipFile := resolve (zipPath ++ '/' :: zipFileName)
      let d := d.remove zipFile
      if d.CanPut zipFile (.file lib.unfinished) then
        let d := d.put zipFile (.file lib.unfinished)
        let srcRootDir :=
          if d.isFile srcFile ∧ '/' ∈ srcPath then beforeLast '/' srcPath else srcPath
        match zipBelow d srcRootDir (d.places.length + 1) srcFile with
        | none => none
        | some entries =>
          -- a second entry of one name is an exception
          if (entries.map Prod.fst).Nodup then some (d.put zipFile (.file (lib.archive entries)))
          else none
      else none

/-- How the extraction of an archive with these entries sees a disk. -/
def onDisk (entries : List (Text × β)) (dir : Text) : ZipTools.FileSystem (Disk Legal β) where
  exist d path := (d.entries (resolve path)).isSome
  isDirectory d path := d.isFolder (resolve path)
  entries _ _ := some (entries.map Prod.fst)
  after
    | .mkdirs path, d => d.mkdirs everywhere (resolve path)
    | .delete path, d => d.remove (resolve path)
    | .write path, d =>
      match entries.find? fun entry => entryFilePath dir entry.1 = path with
      | some entry => d.put (resolve path) (.file entry.2)
      | none => d

def contentAt (d : Disk Legal β) (place : List Text) : Option β :=
  match d.entries place with
  | some (.file content) => some content
  | _ => none

/-- The disk after an archive was extracted to a directory. -/
def unzip (lib : ZipLibrary β) (d : Disk Legal β) (zipFilePath unzipFilePath : Text) :
    Disk Legal β :=
  match (contentAt d (resolve zipFilePath)).bind lib.read with
  | none => d
  | some entries =>
    (unzipFile (onDisk entries unzipFilePath) zipFilePath unzipFilePath [] false ⟨d,[]⟩).state

/-- A folder and the file its archive is written to. -/
structure Export (β : Type) where
  disk : Disk Legal β
  source : List Text
  folder : disk.entries source = some .folder
  out : List Text
  legal : ∀ name ∈ out, Legal name
  zipFileName : Text
  named : Legal zipFileName

def Export.zipFile (e : Export β) : List Text := e.out ++ [e.zipFileName]

/-- An empty directory, or one that can be made. -/
structure Empty (d : Disk Legal β) (dest : List Text) : Prop where
  legal : ∀ name ∈ dest, Legal name
  clear : ∀ part, part <+: dest → d.isFile part = false
  empty : d.children dest = []

def RoundTrips (lib : ZipLibrary β) (e : Export β) : Prop :=
  ∃ d, zip lib e.disk (absolutePath e.source) (absolutePath e.out) e.zipFileName = some d ∧
    ∀ dest, Empty d dest → ∀ below,
      contentAt (unzip lib d (absolutePath e.out ++ '/' :: e.zipFileName) (absolutePath dest))
        (dest ++ below) = contentAt e.disk (e.source ++ below)

/-- The archive can be written: the path of the folder does not stand in that of the output
directory, which can be made, and what stands at the place of the archive can be deleted and is
not the folder itself. -/
structure Writable (e : Export β) : Prop where
  apart : ¬ absolutePath e.source <:+: absolutePath e.out
  made : ∀ part, part <+: e.out → e.disk.isFile part = false
  room : e.disk.children e.zipFile = []
  other : e.zipFile ≠ e.source

end Model

/-! ## Paths -/

section Paths

theorem slashed_append (place below : List Text) :
    slashed (place ++ below) = slashed place ++ slashed below := List.flatMap_append

theorem slashed_cons (name : Text) (place : List Text) :
    slashed (name :: place) = '/' :: name ++ slashed place := rfl

theorem absolutePath_some {place : List Text} (some_ : place ≠ []) :
    absolutePath place = slashed place := if_neg some_

theorem absolutePath_ne_nil (place : List Text) : absolutePath place ≠ [] := by
  rw [absolutePath]
  split
  · simp
  · next some_ =>
    cases place with
    | nil => exact absurd rfl some_
    | cons name place => simp [slashed]

theorem moves_legal {name : Text} (legal : Legal name) : moves name = [.down name] := by
  obtain ⟨some_,free,noDot,noDots⟩ := legal
  rw [moves,List.splitOn_eq_singleton free,List.map_singleton,component,if_neg,if_neg noDots]
  rintro (empty | dot)
  · exact some_ empty
  · exact noDot dot

theorem resolve_join {path name : Text} (some_ : path ≠ []) (legal : Legal name) :
    resolve (path ++ '/' :: name) = resolve path ++ [name] := by
  have step := normalize_entry [] some_ name
  rw [entryFilePath,moves_legal legal] at step
  exact step

theorem slashed_concat (place : List Text) (name : Text) :
    slashed (place ++ [name]) = slashed place ++ '/' :: name := by
  rw [slashed_append,slashed_cons]
  simp [slashed]

theorem resolve_slashed {place : List Text} (legal : ∀ name ∈ place, Legal name) :
    resolve (slashed place) = place := by
  have whole : moves (slashed place) = .stay :: place.map .down := by
    induction place using List.reverseRecOn with
    | nil => rfl
    | append_singleton place name ih =>
      obtain ⟨good,last⟩ := List.forall_mem_append.mp legal
      rw [slashed_concat,moves_join,ih good,moves_legal (last name (by simp))]
      simp
  have walks : ∀ start rest : List Text, walk start (rest.map .down) = start ++ rest := by
    intro start rest
    induction rest generalizing start with
    | nil => simp [walk]
    | cons name rest ih =>
      rw [List.map_cons,walk,List.foldl_cons]
      exact (ih (start ++ [name])).trans (by simp)
  have down := walks [] place
  unfold resolve ZipTools.normalize
  rw [ite_self,whole]
  exact down

theorem resolve_absolutePath {place : List Text} (legal : ∀ name ∈ place, Legal name) :
    resolve (absolutePath place) = place := by
  rw [absolutePath]
  split
  · next empty =>
    rw [empty]
    rfl
  · exact resolve_slashed legal

theorem beforeLast_slashed {place : List Text} {name : Text} (free : '/' ∉ name) :
    beforeLast '/' (slashed (place ++ [name])) = slashed place := by
  have before : (slashed place ++ '/' :: name).rdropWhile (· ≠ '/') = slashed place ++ ['/'] := by
    rw [List.rdropWhile,List.reverse_append,List.reverse_cons,List.append_assoc,
      List.dropWhile_append_of_pos]
    · simp
    · intro c member
      have other : c ≠ '/' := fun same => free (same ▸ List.mem_reverse.mp member)
      exact decide_eq_true other
  rw [slashed_concat,beforeLast,before,List.dropLast_concat]

theorem slashed_injective {place other : List Text} (legal : ∀ name ∈ place, Legal name)
    (legal' : ∀ name ∈ other, Legal name) (same : slashed place = slashed other) :
    place = other := by
  rw [← resolve_slashed legal,same,resolve_slashed legal']

/-- The path of a file without the slash in front, as entries are named. -/
def relative (below : List Text) : Text := (slashed below).drop 1

theorem slashed_relative {below : List Text} (some_ : below ≠ []) :
    slashed below = '/' :: relative below := by
  cases below with
  | nil => exact absurd rfl some_
  | cons name below => rfl

theorem relative_injective {below other : List Text} (some_ : below ≠ []) (some' : other ≠ [])
    (legal : ∀ name ∈ below, Legal name) (legal' : ∀ name ∈ other, Legal name)
    (same : relative below = relative other) : below = other := by
  apply slashed_injective legal legal'
  rw [slashed_relative some_,slashed_relative some',same]

/-- The path of a file below the folder is cut right behind the folder's own. -/
theorem entryName_slashed (place : List Text) {below : List Text} (below_ : below ≠ []) :
    entryName (slashed place) (slashed (place ++ below)) = some (relative below) := by
  have whole : slashed (place ++ below) = (slashed place ++ ['/']) ++ relative below ++ [] := by
    rw [slashed_append,slashed_relative below_]
    simp
  have found : slashed place <:+: slashed (place ++ below) := by
    rw [slashed_append]
    exact (List.prefix_append _ _).isInfix
  obtain ⟨before,after,-,index⟩ := Text.indexOf_found found
  have between := Text.substring_between (slashed place ++ ['/']) (relative below) []
  rw [entryName,if_pos,whole]
  · rw [List.length_append,List.length_singleton] at between
    have length : ((slashed place ++ ['/']) ++ relative below ++ []).length =
        (slashed place).length + 1 + (relative below).length := by
      simp
      omega
    rw [length]
    exact_mod_cast between
  · rw [index]
    omega

theorem entryName_below {place below : List Text} (some_ : place ≠ []) (below_ : below ≠ []) :
    entryName (absolutePath place) (absolutePath (place ++ below)) = some (relative below) := by
  rw [absolutePath_some some_,absolutePath_some (by simp [some_])]
  exact entryName_slashed place below_

/-- What is inside of a folder has the folder's path in its own. -/
theorem infix_of_inside {place other : List Text} (inside : place <+: other) :
    absolutePath place <:+: absolutePath other := by
  obtain ⟨below,rfl⟩ := inside
  by_cases root : place = []
  · subst root
    rw [absolutePath,if_pos rfl,List.nil_append,absolutePath]
    split
    · exact List.infix_rfl
    · next some_ =>
      rw [slashed_relative some_]
      exact (List.prefix_append ['/'] _).isInfix
  · rw [absolutePath_some root,absolutePath_some (by simp [root]),slashed_append]
    exact (List.prefix_append _ _).isInfix

end Paths

/-! ## The entries of a folder -/

section Walk

variable {β : Type} {d : Disk Legal β} {source place below : List Text}

theorem contentAt_eq {content : β} :
    contentAt d place = some content ↔ d.entries place = some (.file content) := by
  rw [contentAt]
  split
  · next other found =>
    rw [found]
    simp
  · next other =>
    constructor
    · intro same
      cases same
    · intro found
      exact absurd found (other content)

theorem legal_of_contentAt {content : β} (found : contentAt d place = some content) :
    ∀ name ∈ place, Legal name := by
  apply FileSystem.legal_of_entries
  rw [contentAt_eq.mp found]
  exact Option.some_ne_none _

/-- One entry for each file below a place of the source. -/
structure Lists (d : Disk Legal β) (source below : List Text) (entries : List (Text × β)) :
    Prop where
  nodup : (entries.map Prod.fst).Nodup
  mem : ∀ name content, (name,content) ∈ entries ↔
    ∃ more, contentAt d (source ++ below ++ more) = some content ∧ name = relative (below ++ more)

theorem lists_file {content : β} (file : d.entries (source ++ below) = some (.file content)) :
    Lists d source below [(relative below,content)] := by
  refine ⟨List.nodup_singleton _,?_⟩
  intro name other
  rw [List.mem_singleton]
  constructor
  · intro same
    obtain ⟨rfl,rfl⟩ := Prod.mk.inj same
    refine ⟨[],?_,by rw [List.append_nil]⟩
    rw [List.append_nil,contentAt_eq]
    exact file
  · rintro ⟨more,found,rfl⟩
    have last : more = [] := by
      by_contra some_
      have absent := @none_below _ _ _ d (source ++ below) more some_ (by rw [file]; simp)
      rw [contentAt_eq,absent] at found
      cases found
    subst last
    rw [List.append_nil,contentAt_eq,file] at found
    obtain rfl := Node.file.inj (Option.some.inj found)
    rw [List.append_nil]

/-- The entries of several children, each of which lists its own. -/
theorem lists_children {names : List Text} (distinct : names.Nodup)
    {f : Text → Option (List (Text × β))} (each : ∀ name ∈ names, ∃ entries,
      f name = some entries ∧ Lists d source (below ++ [name]) entries) :
    ∃ lists, names.mapM f = some lists ∧ (lists.flatten.map Prod.fst).Nodup ∧
      ∀ name content, (name,content) ∈ lists.flatten ↔ ∃ child ∈ names, ∃ more,
        contentAt d (source ++ (below ++ [child]) ++ more) = some content ∧
          name = relative (below ++ [child] ++ more) := by
  induction names with
  | nil => exact ⟨[],rfl,by simp,by simp⟩
  | cons first names ih =>
    obtain ⟨absent,later⟩ := List.nodup_cons.mp distinct
    obtain ⟨here,rest⟩ := List.forall_mem_cons.mp each
    obtain ⟨entries,found,listed⟩ := here
    obtain ⟨lists,mapped,nodup,mem⟩ := ih later rest
    refine ⟨entries :: lists,?_,?_,?_⟩
    · rw [List.mapM_cons,found,mapped]
      rfl
    · rw [List.flatten_cons,List.map_append,List.nodup_append]
      refine ⟨listed.nodup,nodup,?_⟩
      intro name inFirst name' inRest same
      obtain ⟨⟨_,content⟩,member,rfl⟩ := List.mem_map.mp inFirst
      obtain ⟨⟨_,content'⟩,member',rfl⟩ := List.mem_map.mp inRest
      obtain ⟨more,there,shape⟩ := (listed.mem _ _).mp member
      obtain ⟨child,among,more',there',shape'⟩ := (mem _ _).mp member'
      have legal := legal_of_contentAt there
      have legal' := legal_of_contentAt there'
      rw [List.append_assoc,List.forall_mem_append] at legal legal'
      have places := relative_injective (by simp) (by simp) legal.2 legal'.2
        (shape.symm.trans (same.trans shape'))
      rw [List.append_assoc,List.append_assoc,List.append_cancel_left_eq] at places
      obtain ⟨rfl,-⟩ := List.cons.inj places
      exact absent among
    · intro name content
      rw [List.flatten_cons,List.mem_append,listed.mem,mem]
      simp

/-- A content below a folder stands at or below one of its children. -/
theorem child_of_content {place more : List Text} {content : β}
    (folder : d.entries place = some .folder) (found : contentAt d (place ++ more) = some content) :
    ∃ child ∈ d.children place, ∃ rest, more = child :: rest := by
  cases more with
  | nil =>
    rw [List.append_nil,contentAt_eq,folder] at found
    cases found
  | cons child rest =>
    refine ⟨child,?_,rest,rfl⟩
    rw [d.mem_children]
    by_cases last : rest = []
    · rw [last,contentAt_eq] at found
      rw [found]
      exact Option.some_ne_none _
    · have above : (place ++ [child]) ++ rest = place ++ child :: rest := by simp
      rw [folder_above last]
      · exact Option.some_ne_none _
      · rw [above,contentAt_eq.mp found]
        exact Option.some_ne_none _

theorem lists_folder (folder : d.entries (source ++ below) = some .folder)
    {lists : List (List (Text × β))} (nodup : (lists.flatten.map Prod.fst).Nodup)
    (mem : ∀ name content, (name,content) ∈ lists.flatten ↔
      ∃ child ∈ d.children (source ++ below), ∃ more,
        contentAt d (source ++ (below ++ [child]) ++ more) = some content ∧
          name = relative (below ++ [child] ++ more)) :
    Lists d source below lists.flatten := by
  refine ⟨nodup,?_⟩
  intro name content
  rw [mem]
  constructor
  · rintro ⟨child,-,more,found,shape⟩
    refine ⟨child :: more,?_,?_⟩
    · simpa using found
    · simpa using shape
  · rintro ⟨more,found,shape⟩
    obtain ⟨child,member,rest,rfl⟩ := child_of_content folder found
    exact ⟨child,member,rest,by simpa using found,by simpa using shape⟩

theorem zipBelow_lists (some_ : source ≠ []) (turns : Nat)
    (there : d.entries (source ++ below) ≠ none) (inside : below = [] →
      d.entries source = some .folder)
    (enough : d.places.length < (source ++ below).length + turns) :
    ∃ entries, zipBelow d (absolutePath source) turns (source ++ below) = some entries ∧
      Lists d source below entries := by
  induction turns generalizing below with
  | zero =>
    have shorter := d.length_lt_places there
    omega
  | succ turns ih =>
    rw [zipBelow]
    cases node : d.entries (source ++ below) with
    | none => exact absurd node there
    | some node_ =>
      cases node_ with
      | file content =>
        have below_ : below ≠ [] := by
          intro empty
          rw [empty,List.append_nil,inside empty] at node
          cases node
        refine ⟨[(relative below,content)],?_,lists_file node⟩
        simp only
        rw [entryName_below some_ below_]
        rfl
      | folder =>
        have each : ∀ name ∈ d.children (source ++ below), ∃ entries,
            zipBelow d (absolutePath source) turns (source ++ below ++ [name]) = some entries ∧
              Lists d source (below ++ [name]) entries := by
          intro name member
          rw [d.mem_children,List.append_assoc] at member
          rw [List.append_assoc]
          apply ih member
          · intro empty
            simp at empty
          · simp only [List.length_append,List.length_singleton] at enough ⊢
            omega
        obtain ⟨lists,mapped,nodup,mem⟩ := lists_children (d.nodup_children _) each
        refine ⟨lists.flatten,?_,lists_folder node nodup mem⟩
        simp only [mapped]
        rfl

end Walk

/-! ## Extracting them elsewhere -/

section Extraction

variable {β : Type}

/-- Contents by path, where nothing stands below a file. -/
structure Tree (tree : List Text → Option β) : Prop where
  legal : ∀ below content, tree below = some content → ∀ name ∈ below, Legal name
  some_ : tree [] = none
  apart : ∀ below more content content', tree below = some content →
    tree (below ++ more) = some content' → more = []

theorem tree_source {d : Disk Legal β} {source : List Text}
    (folder : d.entries source = some .folder) :
    Tree fun below => contentAt d (source ++ below) := by
  refine ⟨?_,?_,?_⟩
  · intro below content found
    exact (List.forall_mem_append.mp (legal_of_contentAt found)).2
  · simp [contentAt,folder]
  · intro below more content content' found found'
    by_contra some_
    rw [← List.append_assoc] at found'
    have absent := @none_below _ _ _ d (source ++ below) more some_ (by
      rw [contentAt_eq.mp found]
      simp)
    rw [contentAt_eq,absent] at found'
    cases found'

/-- The disk after some entries were extracted: their files, and folders above them only. -/
structure Extracted (tree : List Text → Option β) (dest : List Text) (done : List (Text × β))
    (s : Disk Legal β) : Prop where
  folder : s.entries dest = some .folder
  files : ∀ below content, s.entries (dest ++ below) = some (.file content) ↔
    below ≠ [] ∧ tree below = some content ∧ (relative below,content) ∈ done
  folders : ∀ below ≠ [], s.entries (dest ++ below) = some .folder →
    ∃ more content, tree (below ++ more) = some content ∧ (relative (below ++ more),content) ∈ done

variable {tree : List Text → Option β} {dest below : List Text} {done entries : List (Text × β)}
  {s : Disk Legal β} {content : β}

theorem entryFilePath_slashed (some_ : below ≠ []) :
    entryFilePath (slashed dest) (relative below) = slashed (dest ++ below) := by
  rw [entryFilePath,← slashed_relative some_,slashed_append]

theorem skipped_relative (some_ : below ≠ []) (legal : ∀ name ∈ below, Legal name) :
    skipped [] (relative below) = false := by
  obtain ⟨init,last,rfl⟩ := List.eq_nil_or_concat below |>.resolve_left some_
  rw [List.concat_eq_append] at legal ⊢
  have good := legal last (by simp)
  have whole := @slashed_relative (init ++ [last]) (by simp)
  have ends : Text.endsWith (relative (init ++ [last])) ("/" : String) = false := by
    rw [Bool.eq_false_iff]
    intro ends
    rw [Text.endsWith,List.isSuffixOf_iff_suffix] at ends
    obtain ⟨front,shape⟩ := ends
    have slash : ("/" : String).toList = ['/'] := rfl
    rw [slash] at shape
    obtain ⟨inner,c,rfl⟩ := List.eq_nil_or_concat last |>.resolve_left good.1
    rw [← shape,slashed_concat,List.concat_eq_append,← List.cons_append,← List.cons_append,
      ← List.append_assoc] at whole
    obtain ⟨-,same⟩ := List.append_inj' whole rfl
    obtain ⟨rfl,-⟩ := List.cons.inj same
    exact good.2.1 (by simp)
  rw [skipped,ends]
  rfl

theorem find_entry (distinct : (entries.map Prod.fst).Nodup) {name : Text}
    (member : (name,content) ∈ entries) (dir : Text) :
    entries.find? (fun entry => entryFilePath dir entry.1 = entryFilePath dir name) =
      some (name,content) := by
  induction entries with
  | nil => cases member
  | cons entry entries ih =>
    rw [List.map_cons,List.nodup_cons] at distinct
    rcases List.mem_cons.mp member with rfl | later
    · rw [List.find?_cons_of_pos (by simp)]
    · rw [List.find?_cons_of_neg]
      · exact ih distinct.2 later
      · simp only [entryFilePath]
        intro same
        have names := List.cons.inj (List.append_cancel_left (of_decide_eq_true same))
        apply distinct.1
        rw [names.2]
        exact List.mem_map.mpr ⟨_,later,rfl⟩

/-- Nothing stands yet where an entry is extracted, and no file above it. -/
theorem Extracted.free (extracted : Extracted tree dest done s) (isTree : Tree tree)
    (found : tree below = some content) (new : relative below ∉ done.map Prod.fst) :
    s.entries (dest ++ below) = none := by
  have some_ : below ≠ [] := by
    rintro rfl
    rw [isTree.some_] at found
    cases found
  cases node : s.entries (dest ++ below) with
  | none => rfl
  | some node_ =>
    cases node_ with
    | file other =>
      have among := ((extracted.files _ _).mp node).2.2
      exact absurd (List.mem_map.mpr ⟨_,among,rfl⟩) new
    | folder =>
      obtain ⟨more,other,found',among⟩ := extracted.folders below some_ node
      obtain rfl := isTree.apart _ _ _ _ found found'
      rw [List.append_nil] at among
      exact absurd (List.mem_map.mpr ⟨_,among,rfl⟩) new

theorem Extracted.above (extracted : Extracted tree dest done s) (isTree : Tree tree)
    (found : tree below = some content) {part : List Text} (above : part <+: dest ++ below)
    (proper : part ≠ dest ++ below) : s.entries part = none ∨ s.entries part = some .folder := by
  rcases List.prefix_or_prefix_of_prefix above (List.prefix_append dest below) with out | inside
  · right
    by_cases whole : part = dest
    · rw [whole]
      exact extracted.folder
    · apply folder_of_above out whole
      rw [extracted.folder]
      exact Option.some_ne_none _
  · obtain ⟨here,rfl⟩ := inside
    cases node : s.entries (dest ++ here) with
    | none => exact .inl rfl
    | some node_ =>
      cases node_ with
      | folder => exact .inr rfl
      | file other =>
        have known := ((extracted.files _ _).mp node).2.1
        rw [List.prefix_append_right_inj] at above
        obtain ⟨more,rfl⟩ := above
        obtain rfl := isTree.apart _ _ _ _ known found
        exact absurd (by rw [List.append_nil]) proper

variable {dir : Text}

/-- A directory is there, and only folders above it are new. -/
structure Opened (s next : Disk Legal β) (place : List Text) : Prop where
  made : next.entries place = some .folder
  others : ∀ other, next.entries other = s.entries other ∨
    other <+: place ∧ s.entries other = none ∧ next.entries other = some .folder

theorem makeDir_opened {place : List Text} (disk : ZipTools.Disk (Disk Legal β))
    (legal : ∀ name ∈ place, Legal name)
    (clear : ∀ part, part <+: place → disk.state.entries part = none ∨
      disk.state.entries part = some .folder) {path : Text} (resolved : resolve path = place) :
    Opened disk.state (makeDir (onDisk entries dir) path disk).state place := by
  rw [makeDir]
  split
  · have state : (disk.ask (onDisk entries dir) (.mkdirs path)).state =
        disk.state.mkdirs everywhere place := by
      rw [← resolved]
      rfl
    rw [state]
    constructor
    · apply Disk.mkdirs_folder _ legal
      intro part above
      rcases clear part above with free | folder
      · exact .inl ⟨free,rfl⟩
      · exact .inr folder
    · exact fun other => Disk.entries_mkdirs other
  · next there =>
    simp only [onDisk,resolved,Bool.or_eq_true,Bool.not_eq_true',not_or,Bool.not_eq_false] at there
    exact ⟨FileSystem.isFolder_iff.mp there.2,fun other => .inl rfl⟩

variable {next : Disk Legal β} {place init : List Text} {last : Text}

theorem Opened.file_iff (opened : Opened s next place) (other : List Text) (content : β) :
    next.entries other = some (.file content) ↔ s.entries other = some (.file content) := by
  rcases opened.others other with same | ⟨-,absent,folder⟩
  · rw [same]
  · rw [absent,folder]
    simp

theorem Opened.folder (opened : Opened s next place) {other : List Text}
    (folder : s.entries other = some .folder) : next.entries other = some .folder := by
  rcases opened.others other with same | ⟨-,-,here⟩
  · rw [same,folder]
  · exact here

/-- Nothing is made below the directory. -/
theorem Opened.still (opened : Opened s next place) (some_ : below ≠ [])
    (free : s.entries (place ++ below) = none) : next.entries (place ++ below) = none := by
  rcases opened.others (place ++ below) with same | ⟨above,-⟩
  · rw [same,free]
  · have shorter := above.length_le
    rw [List.length_append] at shorter
    exact absurd (List.eq_nil_of_length_eq_zero (by omega)) some_

theorem Opened.canPut (opened : Opened s next place) (free : s.entries (place ++ [last]) = none)
    (legal : ∀ name ∈ place ++ [last], Legal name) :
    next.CanPut (place ++ [last]) (.file content) := by
  refine ⟨by simp,?_,?_,.inl (opened.still (by simp) free)⟩
  · rw [List.dropLast_concat]
    exact opened.made
  · intro name lastOne
    exact legal name (List.mem_of_getLast? lastOne)

theorem Extracted.put_files (extracted : Extracted tree dest done s) (isTree : Tree tree)
    (opened : Opened s next place) (some_ : below ≠ []) (found : tree below = some content)
    (can : next.CanPut (dest ++ below) (.file content)) (other : List Text) (content' : β) :
    (next.put (dest ++ below) (.file content)).entries (dest ++ other) = some (.file content') ↔
      other ≠ [] ∧ tree other = some content' ∧
        (relative other,content') ∈ done ++ [(relative below,content)] := by
  by_cases here : other = below
  · subst here
    rw [Disk.entries_put_self can,found]
    constructor
    · intro same
      obtain rfl := Node.file.inj (Option.some.inj same)
      exact ⟨some_,rfl,by simp⟩
    · rintro ⟨-,same,-⟩
      rw [Option.some.inj same]
  · rw [Disk.entries_put_other fun same => here (List.append_cancel_left same),opened.file_iff,
      extracted.files]
    apply and_congr_right
    intro other_
    apply and_congr_right
    intro found'
    rw [List.mem_append,List.mem_singleton]
    constructor
    · exact Or.inl
    · rintro (among | same)
      · exact among
      · have names := (Prod.mk.inj same).1
        have legal := isTree.legal below content found
        exact absurd (relative_injective other_ some_ (isTree.legal _ _ found') legal names) here

theorem Extracted.put_folders (extracted : Extracted tree dest done s)
    (opened : Opened s next (dest ++ init)) (found : tree (init ++ [last]) = some content)
    (can : next.CanPut (dest ++ (init ++ [last])) (.file content)) {other : List Text}
    (other_ : other ≠ [])
    (node : (next.put (dest ++ (init ++ [last])) (.file content)).entries (dest ++ other) =
      some .folder) :
    ∃ more content', tree (other ++ more) = some content' ∧
      (relative (other ++ more),content') ∈ done ++ [(relative (init ++ [last]),content)] := by
  have here : other ≠ init ++ [last] := by
    intro here
    rw [here,Disk.entries_put_self can] at node
    cases node
  rw [Disk.entries_put_other fun same => here (List.append_cancel_left same)] at node
  rcases opened.others (dest ++ other) with same | ⟨above,-,-⟩
  · rw [same] at node
    obtain ⟨more,content',found',among⟩ := extracted.folders other other_ node
    exact ⟨more,content',found',by simp [among]⟩
  · rw [List.prefix_append_right_inj] at above
    obtain ⟨more,rfl⟩ := above
    rw [List.append_assoc] at found
    refine ⟨more ++ [last],content,found,?_⟩
    simp

/-- A file is written into its folder, which was opened for it. -/
theorem Extracted.put (extracted : Extracted tree dest done s) (isTree : Tree tree)
    (opened : Opened s next (dest ++ init)) (found : tree (init ++ [last]) = some content)
    (can : next.CanPut (dest ++ (init ++ [last])) (.file content)) :
    Extracted tree dest (done ++ [(relative (init ++ [last]),content)])
      (next.put (dest ++ (init ++ [last])) (.file content)) := by
  refine ⟨?_,?_,?_⟩
  · rw [Disk.entries_put_other]
    · exact opened.folder extracted.folder
    · intro same
      have length := congrArg List.length same
      simp at length
  · exact extracted.put_files isTree opened (by simp) found can
  · intro other other_ node
    exact extracted.put_folders opened found can other_ node

/-- What an entry does whose place is free. -/
theorem unzipEntry_state {disk : ZipTools.Disk (Disk Legal β)} (some_ : below ≠ [])
    (legal : ∀ name ∈ below, Legal name) (wholeLegal : ∀ name ∈ dest ++ below, Legal name)
    (member : (relative below,content) ∈ entries) (distinct : (entries.map Prod.fst).Nodup)
    (still : (makeDir (onDisk entries (slashed dest)) (beforeLast '/' (slashed (dest ++ below)))
      disk).state.entries (dest ++ below) = none) :
    (unzipEntry (onDisk entries (slashed dest)) (slashed dest) [] disk (relative below)).state =
      (makeDir (onDisk entries (slashed dest)) (beforeLast '/' (slashed (dest ++ below)))
        disk).state.put (dest ++ below) (.file content) := by
  rw [unzipEntry,skipped_relative some_ legal,entryFilePath_slashed some_]
  simp only [Bool.false_eq_true,if_false]
  generalize makeDir (onDisk entries (slashed dest)) (beforeLast '/' (slashed (dest ++ below))) disk
    = next at still ⊢
  have kept : deleteFile (onDisk entries (slashed dest)) (slashed (dest ++ below)) next = next := by
    rw [deleteFile,if_neg]
    simp only [onDisk]
    rw [resolve_slashed wholeLegal,still]
    simp
  have search := find_entry distinct member (slashed dest)
  rw [entryFilePath_slashed some_] at search
  rw [kept]
  simp only [ZipTools.Disk.ask,onDisk]
  rw [search,resolve_slashed wholeLegal]

theorem extract_entry {disk : ZipTools.Disk (Disk Legal β)}
    (extracted : Extracted tree dest done disk.state) (isTree : Tree tree)
    (destLegal : ∀ name ∈ dest, Legal name) (found : tree below = some content)
    (new : relative below ∉ done.map Prod.fst) (member : (relative below,content) ∈ entries)
    (distinct : (entries.map Prod.fst).Nodup) :
    Extracted tree dest (done ++ [(relative below,content)])
      (unzipEntry (onDisk entries (slashed dest)) (slashed dest) [] disk (relative below)).state := by
  have legal := isTree.legal _ _ found
  have some_ : below ≠ [] := by
    rintro rfl
    rw [isTree.some_] at found
    cases found
  have free := extracted.free isTree found new
  have wholeLegal : ∀ name ∈ dest ++ below, Legal name :=
    List.forall_mem_append.mpr ⟨destLegal,legal⟩
  obtain ⟨init,last,rfl⟩ := List.eq_nil_or_concat below |>.resolve_left some_
  rw [List.concat_eq_append] at *
  have whole : dest ++ (init ++ [last]) = dest ++ init ++ [last] :=
    (List.append_assoc dest init [last]).symm
  have parentLegal : ∀ name ∈ dest ++ init, Legal name := by
    rw [whole] at wholeLegal
    exact (List.forall_mem_append.mp wholeLegal).1
  have parent : resolve (beforeLast '/' (slashed (dest ++ (init ++ [last])))) = dest ++ init := by
    have lastLegal := legal last (by simp)
    rw [whole,beforeLast_slashed lastLegal.2.1,resolve_slashed parentLegal]
  have clear : ∀ part, part <+: dest ++ init → disk.state.entries part = none ∨
      disk.state.entries part = some .folder := by
    intro part above
    apply extracted.above isTree found
    · rw [whole]
      exact above.trans (List.prefix_append _ _)
    · rintro rfl
      have shorter := above.length_le
      simp at shorter
  have opened := @makeDir_opened β entries (slashed dest) _ disk parentLegal clear _ parent
  rw [whole] at free
  have still := opened.still (by simp) free
  have can := @Opened.canPut _ _ content _ _ _ opened free (by rwa [whole] at wholeLegal)
  rw [← whole] at still can
  rw [unzipEntry_state some_ legal wholeLegal member distinct still]
  exact extracted.put isTree opened found can

theorem extract_all {disk : ZipTools.Disk (Disk Legal β)} {rest : List (Text × β)}
    (extracted : Extracted tree dest done disk.state) (isTree : Tree tree)
    (destLegal : ∀ name ∈ dest, Legal name)
    (listed : ∀ entry ∈ entries, ∃ below, tree below = some entry.2 ∧ entry.1 = relative below)
    (distinct : (entries.map Prod.fst).Nodup) (cut : entries = done ++ rest) :
    Extracted tree dest entries ((rest.map Prod.fst).foldl
      (unzipEntry (onDisk entries (slashed dest)) (slashed dest) []) disk).state := by
  induction rest generalizing done disk with
  | nil =>
    rw [List.append_nil] at cut
    rw [cut]
    exact extracted
  | cons entry rest ih =>
    obtain ⟨name,content⟩ := entry
    have member : (name,content) ∈ entries := by
      rw [cut]
      simp
    obtain ⟨below,found,rfl⟩ := listed _ member
    have new : relative below ∉ done.map Prod.fst := by
      rw [cut,List.map_append,List.map_cons] at distinct
      intro before
      have apart := List.disjoint_of_nodup_append distinct
      exact apart before (by simp)
    rw [List.map_cons,List.foldl_cons]
    apply ih (extract_entry extracted isTree destLegal found new member distinct)
    rw [cut]
    simp

theorem extracted_start {disk : ZipTools.Disk (Disk Legal β)}
    (empty : Empty disk.state dest) {path : Text} (resolved : resolve path = dest) :
    Extracted tree dest [] (makeDir (onDisk entries dir) path disk).state := by
  have clear : ∀ part, part <+: dest → disk.state.entries part = none ∨
      disk.state.entries part = some .folder := by
    intro part above
    have noFile := empty.clear part above
    cases node : disk.state.entries part with
    | none => exact .inl rfl
    | some node_ =>
      cases node_ with
      | folder => exact .inr rfl
      | file content =>
        rw [FileSystem.isFile_of_entries node] at noFile
        cases noFile
  have opened := @makeDir_opened β entries dir dest disk empty.legal clear path resolved
  have nothing : ∀ below ≠ [],
      (makeDir (onDisk entries dir) path disk).state.entries (dest ++ below) = none := by
    intro below some_
    exact opened.still some_ (Disk.none_of_children disk.state empty.empty some_)
  refine ⟨opened.made,?_,?_⟩
  · intro below content
    by_cases some_ : below = []
    · rw [some_,List.append_nil,opened.made]
      simp
    · rw [nothing below some_]
      simp
  · intro below some_ node
    rw [nothing below some_] at node
    cases node

/-- Extracting an archive into an empty directory gives the files of its tree. -/
theorem unzip_extracts (lib : ZipLibrary β) {d : Disk Legal β} {zipFilePath : Text}
    (stored : contentAt d (resolve zipFilePath) = some (lib.archive entries))
    (path_ : zipFilePath ≠ []) (dest_ : dest ≠ []) (empty : Empty d dest) (isTree : Tree tree)
    (listed : ∀ name content, (name,content) ∈ entries ↔
      ∃ below, tree below = some content ∧ name = relative below)
    (distinct : (entries.map Prod.fst).Nodup) (below : List Text) :
    contentAt (unzip lib d zipFilePath (absolutePath dest)) (dest ++ below) = tree below := by
  have start := @extracted_start β tree dest entries (slashed dest) ⟨d,[]⟩ empty _
    (resolve_slashed empty.legal)
  have each : ∀ entry ∈ entries, ∃ below, tree below = some entry.2 ∧ entry.1 = relative below :=
    fun entry member => (listed entry.1 entry.2).mp member
  have extracted := extract_all start isTree empty.legal each distinct (List.nil_append _).symm
  have state : (unzip lib d zipFilePath (absolutePath dest)) =
      ((entries.map Prod.fst).foldl (unzipEntry (onDisk entries (slashed dest)) (slashed dest) [])
        (makeDir (onDisk entries (slashed dest)) (slashed dest) ⟨d,[]⟩)).state := by
    have opened : (contentAt d (resolve zipFilePath)).bind lib.read = some entries := by
      rw [stored]
      exact lib.faithful entries
    have directory : unzipDir zipFilePath (slashed dest) false = some (slashed dest) := by
      have some_ : slashed dest ≠ [] := by
        rw [← absolutePath_some dest_]
        exact absolutePath_ne_nil dest
      rw [unzipDir,if_neg (by simp [path_,some_])]
      rfl
    rw [unzip,opened,absolutePath_some dest_]
    simp only [unzipFile,directory]
    rfl
  rw [state]
  cases found : tree below with
  | none =>
    rw [Option.eq_none_iff_forall_not_mem]
    intro content there
    rw [Option.mem_def,contentAt_eq,extracted.files,found] at there
    cases there.2.1
  | some content =>
    rw [contentAt_eq,extracted.files]
    refine ⟨?_,found,(listed _ _).mpr ⟨below,found,rfl⟩⟩
    rintro rfl
    rw [isTree.some_] at found
    cases found

end Extraction

/-! ## The round trip -/

section RoundTrip

variable {β : Type} (lib : ZipLibrary β) (e : Export β)

theorem Export.legalSource : ∀ name ∈ e.source, Legal name := by
  apply FileSystem.legal_of_entries
  rw [e.folder]
  exact Option.some_ne_none _

/-- The disk when the archive is about to be made. -/
def Export.cleared : Disk Legal β :=
  (if e.disk.isFolder e.out then e.disk else e.disk.mkdirs everywhere e.out).remove e.zipFile

theorem zip_eq : zip lib e.disk (absolutePath e.source) (absolutePath e.out) e.zipFileName =
    if Text.contains (absolutePath e.out) (absolutePath e.source) then none
    else if e.cleared.CanPut e.zipFile (.file lib.unfinished) then
      let d := e.cleared.put e.zipFile (.file lib.unfinished)
      let srcRootDir := if d.isFile e.source ∧ '/' ∈ absolutePath e.source then
        beforeLast '/' (absolutePath e.source) else absolutePath e.source
      match zipBelow d srcRootDir (d.places.length + 1) e.source with
      | none => none
      | some entries =>
        if (entries.map Prod.fst).Nodup then some (d.put e.zipFile (.file (lib.archive entries)))
        else none
    else none := by
  have given : ¬ (absolutePath e.source = [] ∨ absolutePath e.out = [] ∨ e.zipFileName = []) := by
    rintro (empty | empty | empty)
    · exact absolutePath_ne_nil _ empty
    · exact absolutePath_ne_nil _ empty
    · exact e.named.1 empty
  have source := resolve_absolutePath e.legalSource
  have out := resolve_absolutePath e.legal
  have zipFile : resolve (absolutePath e.out ++ '/' :: e.zipFileName) = e.zipFile := by
    rw [resolve_join (absolutePath_ne_nil _) e.named,out,Export.zipFile]
  have folder : e.disk.isFolder e.source = true := FileSystem.isFolder_iff.mpr e.folder
  rw [zip,if_neg given]
  simp only [source,out,zipFile,folder,true_and]
  rfl

variable {lib e}

theorem entries_made (other : List Text) (apart : ¬ other <+: e.out) :
    (if e.disk.isFolder e.out then e.disk else e.disk.mkdirs everywhere e.out).entries other =
      e.disk.entries other := by
  split
  · rfl
  · exact Disk.entries_mkdirs_apart apart

theorem zipFile_apart (below : List Text) : ¬ e.zipFile ++ below <+: e.out := by
  intro above
  have shorter := above.length_le
  rw [Export.zipFile] at shorter
  simp at shorter

/-- With the way clear, the place of the archive is free, its folder there, and nothing else
but that changed. -/
theorem cleared_writable (writable : Writable e) :
    e.cleared.entries e.zipFile = none ∧ e.cleared.entries e.out = some .folder ∧
      ∀ other, ¬ other <+: e.out → other ≠ e.zipFile →
        e.cleared.entries other = e.disk.entries other := by
  have folder : (if e.disk.isFolder e.out then e.disk
      else e.disk.mkdirs everywhere e.out).entries e.out = some .folder := by
    split
    · next there => exact FileSystem.isFolder_iff.mp there
    · apply Disk.mkdirs_folder _ e.legal
      intro part above
      have noFile := writable.made part above
      cases node : e.disk.entries part with
      | none => exact .inl ⟨rfl,rfl⟩
      | some node_ =>
        cases node_ with
        | folder => exact .inr rfl
        | file content =>
          rw [FileSystem.isFile_of_entries node] at noFile
          cases noFile
  have can : (if e.disk.isFolder e.out then e.disk
      else e.disk.mkdirs everywhere e.out).CanRemove e.zipFile := by
    refine ⟨by simp [Export.zipFile],?_⟩
    rw [List.eq_nil_iff_forall_not_mem]
    intro name member
    rw [Disk.mem_children,entries_made _ (zipFile_apart [name])] at member
    exact member (Disk.none_of_children _ writable.room (by simp))
  have different : e.out ≠ e.zipFile := by
    intro same
    have lengths := congrArg List.length same
    simp [Export.zipFile] at lengths
  refine ⟨?_,?_,?_⟩
  · rw [Export.cleared,Disk.entries_remove can,if_pos rfl]
  · rw [Export.cleared,Disk.entries_remove_other different,folder]
  · intro other apart other_
    rw [Export.cleared,Disk.entries_remove_other other_,entries_made other apart]

theorem apart_of_infix (apart : ¬ absolutePath e.source <:+: absolutePath e.out) :
    ¬ e.source <+: e.out := fun inside => apart (infix_of_inside inside)

theorem not_contains (apart : ¬ absolutePath e.source <:+: absolutePath e.out) :
    ¬ Text.contains (absolutePath e.out) (absolutePath e.source) = true := by
  rw [Text.contains,decide_eq_true_eq]
  exact apart

/-- The new archive stands outside of the folder. -/
theorem zipFile_outside (writable : Writable e) (below : List Text) :
    e.source ++ below ≠ e.zipFile := by
  intro same
  by_cases last : below = []
  · rw [last,List.append_nil] at same
    exact writable.other same.symm
  · have parents := congrArg List.dropLast same
    rw [List.dropLast_append_of_ne_nil last,Export.zipFile,List.dropLast_concat] at parents
    exact apart_of_infix writable.apart ⟨_,parents⟩

theorem canPut_zipFile (writable : Writable e) (content : β) :
    e.cleared.CanPut e.zipFile (.file content) := by
  obtain ⟨free,folder,-⟩ := cleared_writable writable
  refine ⟨by simp [Export.zipFile],?_,?_,.inl free⟩
  · rw [Export.zipFile,List.dropLast_concat]
    exact folder
  · intro name last
    rw [Export.zipFile,List.getLast?_concat,Option.mem_some_iff] at last
    rw [← last]
    exact e.named

/-- The archive is rewritten where it was opened. -/
theorem entries_archive {d : Disk Legal β} {content content' : β}
    (can : d.CanPut e.zipFile (.file content)) :
    ((d.put e.zipFile (.file content)).put e.zipFile (.file content')).entries e.zipFile =
      some (.file content') := by
  apply Disk.entries_put_self
  refine ⟨can.some_,?_,can.good,.inr ⟨?_,by simp⟩⟩
  · rw [Disk.entries_put_other]
    · exact can.folder
    · intro same
      have lengths := congrArg List.length same
      simp [Export.zipFile] at lengths
  · exact FileSystem.isFile_of_entries (Disk.entries_put_self can)

theorem zip_writable (writable : Writable e) :
    ∃ d entries, zip lib e.disk (absolutePath e.source) (absolutePath e.out) e.zipFileName =
        some d ∧ d.entries e.zipFile = some (.file (lib.archive entries)) ∧
      (entries.map Prod.fst).Nodup ∧ ∀ name content, (name,content) ∈ entries ↔
        ∃ below, contentAt e.disk (e.source ++ below) = some content ∧ name = relative below := by
  have can := canPut_zipFile writable lib.unfinished
  have source_ : e.source ≠ [] := by
    intro root
    exact apart_of_infix writable.apart (by rw [root]; exact List.nil_prefix)
  have kept : ∀ below, (e.cleared.put e.zipFile (.file lib.unfinished)).entries
      (e.source ++ below) = e.disk.entries (e.source ++ below) := by
    intro below
    obtain ⟨-,-,others⟩ := cleared_writable writable
    rw [Disk.entries_put_other (zipFile_outside writable below)]
    apply others _ _ (zipFile_outside writable below)
    exact fun inside => apart_of_infix writable.apart ((List.prefix_append _ _).trans inside)
  have folder : (e.cleared.put e.zipFile (.file lib.unfinished)).entries e.source =
      some .folder := by
    have here := kept []
    rw [List.append_nil,e.folder] at here
    exact here
  obtain ⟨entries,listed,lists⟩ := @zipBelow_lists β
    (e.cleared.put e.zipFile (.file lib.unfinished)) e.source [] source_
    ((e.cleared.put e.zipFile (.file lib.unfinished)).places.length + 1)
    (by rw [List.append_nil,folder]; simp) (fun _ => folder) (by simp; omega)
  refine ⟨_,entries,?_,entries_archive can,lists.nodup,?_⟩
  · have noFile := FileSystem.not_isFile_of_folder folder
    rw [List.append_nil] at listed
    rw [zip_eq,if_neg (not_contains writable.apart),if_pos can]
    simp only [noFile,Bool.false_eq_true,false_and,if_false]
    rw [listed]
    simp only
    rw [if_pos lists.nodup]
  · intro name content
    rw [lists.mem]
    simp only [List.append_nil,List.nil_append]
    have same : ∀ below, contentAt (e.cleared.put e.zipFile (.file lib.unfinished))
        (e.source ++ below) = contentAt e.disk (e.source ++ below) := by
      intro below
      rw [contentAt,contentAt,kept]
    simp only [same]

theorem resolve_zipFile :
    resolve (absolutePath e.out ++ '/' :: e.zipFileName) = e.zipFile := by
  rw [resolve_join (absolutePath_ne_nil _) e.named,resolve_absolutePath e.legal,Export.zipFile]

theorem dest_ne_nil {d : Disk Legal β} {dest : List Text} (empty : Empty d dest)
    (there : d.entries e.zipFile ≠ none) : dest ≠ [] := by
  rintro rfl
  have absent := @Disk.none_of_children _ _ _ d _ [] e.zipFile empty.empty (by simp [Export.zipFile])
  exact there absent

theorem roundTrips_of_writable (writable : Writable e) : RoundTrips lib e := by
  obtain ⟨d,entries,zipped,stored,distinct,listed⟩ := @zip_writable β lib e writable
  refine ⟨d,zipped,?_⟩
  intro dest empty below
  have dest_ := dest_ne_nil empty (by rw [stored]; simp)
  apply unzip_extracts lib _ (by simp) dest_ empty (tree_source e.folder) listed distinct
  rw [resolve_zipFile,contentAt_eq,stored]

/-! ### Where it fails -/

theorem made_of_canPut {content : β} (can : e.cleared.CanPut e.zipFile (.file content))
    {part : List Text} (above : part <+: e.out) : e.disk.isFile part = false := by
  have folder := can.folder
  rw [Export.zipFile,List.dropLast_concat,Export.cleared,Disk.entries_remove_other] at folder
  · rw [Bool.eq_false_iff]
    intro file
    have there : (if e.disk.isFolder e.out then e.disk
        else e.disk.mkdirs everywhere e.out).entries part = e.disk.entries part := by
      split
      · rfl
      · rcases @Disk.entries_mkdirs _ _ _ e.disk _ _ everywhere e.out part with
          same | ⟨-,free,-⟩
        · exact same
        · rw [FileSystem.isFile,free] at file
          cases file
    have partFolder : e.disk.entries part = some .folder := by
      rw [← there]
      by_cases whole : part = e.out
      · rw [whole]
        exact folder
      · apply folder_of_above above whole
        rw [folder]
        simp
    rw [FileSystem.not_isFile_of_folder partFolder] at file
    cases file
  · intro same
    have lengths := congrArg List.length same
    simp [Export.zipFile] at lengths

theorem room_of_canPut {content : β} (can : e.cleared.CanPut e.zipFile (.file content)) :
    e.disk.children e.zipFile = [] := by
  by_contra some_
  obtain ⟨name,member⟩ := List.exists_mem_of_ne_nil _ some_
  rw [Disk.mem_children] at member
  have folder := folder_above (List.cons_ne_nil name []) member
  have kept : ∀ other node, e.disk.entries other = some node →
      (if e.disk.isFolder e.out then e.disk
        else e.disk.mkdirs everywhere e.out).entries other = some node := by
    intro other node there
    split
    · exact there
    · exact Disk.entries_mkdirs_some there
  have refused : ¬ (if e.disk.isFolder e.out then e.disk
      else e.disk.mkdirs everywhere e.out).CanRemove e.zipFile := by
    intro removable
    obtain ⟨node,there⟩ := Option.ne_none_iff_exists'.mp member
    have absent := Disk.none_of_children _ removable.empty (List.cons_ne_nil name [])
    rw [kept _ _ there] at absent
    cases absent
  have still : e.cleared.entries e.zipFile = some .folder := by
    rw [Export.cleared,Disk.remove_refused refused]
    exact kept _ _ folder
  rcases can.room with free | ⟨file,-⟩
  · rw [still] at free
    cases free
  · rw [FileSystem.not_isFile_of_folder still] at file
    cases file

/-- There is an empty directory to extract to. -/
theorem exists_empty (d : Disk Legal β) : ∃ dest, dest ≠ [] ∧ Empty d dest := by
  have injective : Function.Injective fun n => [List.replicate (n + 1) 'a'] := by
    intro n m same
    have lengths := congrArg List.length (List.cons.inj same).1
    simpa using lengths
  obtain ⟨n,free⟩ := d.exists_free injective
  have legal : Legal (List.replicate (n + 1) 'a') := by
    have first : ∀ c ∈ List.replicate (n + 1) 'a', c = 'a' := fun c => List.eq_of_mem_replicate
    refine ⟨by simp,?_,?_,?_⟩
    · intro slash
      exact absurd (first _ slash) (by decide)
    · intro dot
      have c := first '.' (by rw [dot]; simp)
      exact absurd c (by decide)
    · intro dots
      have c := first '.' (by rw [dots]; simp)
      exact absurd c (by decide)
  refine ⟨[List.replicate (n + 1) 'a'],by simp,by simpa using legal,?_,?_⟩
  · intro part above
    by_cases whole : part = [List.replicate (n + 1) 'a']
    · rw [whole,FileSystem.isFile,free]
    · have root : part = [] := by
        have shorter := above.length_le
        rcases part with _ | ⟨name,_ | ⟨_,_⟩⟩
        · rfl
        · have same := List.prefix_cons_iff.mp above
          simp at same
          exact absurd (by rw [same]) whole
        · simp at shorter
      rw [root]
      exact FileSystem.not_isFile_of_folder d.root
  · apply Disk.children_nil
    rw [free]
    simp

/-- An archive put in the place of an empty folder holds an entry of itself. -/
theorem zip_itself {d : Disk Legal β} (same : e.zipFile = e.source)
    (zipped : zip lib e.disk (absolutePath e.source) (absolutePath e.out) e.zipFileName = some d) :
    d.entries e.zipFile = some (.file (lib.archive
      [(relative [e.zipFileName],lib.unfinished)])) := by
  rw [zip_eq] at zipped
  split at zipped
  · cases zipped
  · split at zipped
    · next can =>
      have stands := Disk.entries_put_self can
      have file : (e.cleared.put e.zipFile (.file lib.unfinished)).isFile e.source = true := by
        rw [← same]
        exact FileSystem.isFile_of_entries stands
      have path : absolutePath e.source = slashed (e.out ++ [e.zipFileName]) := by
        rw [← same,Export.zipFile,absolutePath_some (by simp)]
      have slash : '/' ∈ absolutePath e.source := by
        rw [path,slashed_concat]
        simp
      have listed : zipBelow (e.cleared.put e.zipFile (.file lib.unfinished))
          (beforeLast '/' (absolutePath e.source))
          ((e.cleared.put e.zipFile (.file lib.unfinished)).places.length + 1) e.source =
          some [(relative [e.zipFileName],lib.unfinished)] := by
        rw [same] at stands
        rw [zipBelow,same,stands,path,beforeLast_slashed e.named.2.1]
        simp only
        rw [entryName_slashed e.out (List.cons_ne_nil _ _)]
        rfl
      simp only [file,slash,and_self,if_true] at zipped
      rw [listed] at zipped
      simp only [List.map_cons,List.map_nil,List.nodup_singleton,if_true] at zipped
      obtain rfl := Option.some.inj zipped
      exact entries_archive can
    · cases zipped

theorem other_of_roundTrips (round : RoundTrips lib e) (room : e.disk.children e.zipFile = []) :
    e.zipFile ≠ e.source := by
  intro same
  obtain ⟨d,zipped,restores⟩ := round
  have stored := zip_itself same zipped
  obtain ⟨dest,dest_,empty⟩ := exists_empty d
  have isTree : Tree fun below : List Text =>
      if below = [e.zipFileName] then some lib.unfinished else none := by
    refine ⟨?_,rfl,?_⟩
    · intro below content found
      split at found
      · next here =>
        rw [here]
        simpa using e.named
      · cases found
    · intro below more content content' found found'
      split at found
      · next here =>
        rw [here] at found'
        split at found'
        · next whole => simpa using whole
        · cases found'
      · cases found
  have listed : ∀ name content,
      (name,content) ∈ [(relative [e.zipFileName],lib.unfinished)] ↔ ∃ below : List Text,
        (if below = [e.zipFileName] then some lib.unfinished else none) = some content ∧
          name = relative below := by
    intro name content
    rw [List.mem_singleton]
    constructor
    · intro entry
      obtain ⟨rfl,rfl⟩ := Prod.mk.inj entry
      exact ⟨[e.zipFileName],if_pos rfl,rfl⟩
    · rintro ⟨below,found,rfl⟩
      split at found
      · next here => rw [here,Option.some.inj found]
      · cases found
  have opened : contentAt d (resolve (absolutePath e.out ++ '/' :: e.zipFileName)) =
      some (lib.archive [(relative [e.zipFileName],lib.unfinished)]) := by
    rw [resolve_zipFile,contentAt_eq,stored]
  have extracted := unzip_extracts lib opened (by simp) dest_ empty isTree listed
    (List.nodup_singleton _) [e.zipFileName]
  rw [restores dest empty,if_pos rfl,contentAt_eq] at extracted
  have absent := Disk.none_of_children _ room (List.cons_ne_nil e.zipFileName [])
  rw [← same,absent] at extracted
  cases extracted

theorem writable_of_roundTrips (round : RoundTrips lib e) : Writable e := by
  obtain ⟨d,zipped,-⟩ := id round
  rw [zip_eq] at zipped
  split at zipped
  · cases zipped
  · next apart =>
    split at zipped
    · next can =>
      have room := room_of_canPut can
      refine ⟨?_,fun part above => made_of_canPut can above,room,other_of_roundTrips round room⟩
      rw [Text.contains,decide_eq_true_eq] at apart
      exact apart
    · cases zipped

variable (lib e)

/-- An export comes back as it was exactly when its archive can be written. -/
theorem zip_roundTrips_iff : RoundTrips lib e ↔ Writable e :=
  ⟨writable_of_roundTrips,roundTrips_of_writable⟩

end RoundTrip

/-- Contents that are archives or not. -/
inductive Content where
  | plain
  | archive (entries : List (Text × Content))

def zipLibrary : ZipLibrary Content where
  archive := .archive
  read
    | .archive entries => some entries
    | .plain => none
  unfinished := .plain
  faithful _ := rfl

def world : Text := ("world":String)
def world2 : Text := ("world2":String)

/-- A world, exported to a directory whose name goes on where that of the world ends. -/
def exportWorld : Export Content where
  disk := (Disk.blank Legal Content).mkdirs everywhere [world]
  source := [world]
  folder := by
    apply Disk.mkdirs_folder
    · intro part above
      by_cases root : part = []
      · exact .inr (if_pos root)
      · exact .inl ⟨if_neg root,rfl⟩
    · intro name member
      obtain rfl := List.mem_singleton.mp member
      decide
  out := [world2]
  legal := by
    intro name member
    obtain rfl := List.mem_singleton.mp member
    decide
  zipFileName := ("world.zip":String)
  named := by decide

theorem not_roundTrips_exportWorld : ¬ RoundTrips zipLibrary exportWorld := by
  rintro ⟨d,zipped,-⟩
  rw [zip_eq,if_pos (by decide)] at zipped
  cases zipped

end HmclPe.Io.ZipArchive
