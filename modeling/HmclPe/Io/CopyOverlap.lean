import HmclPe.Io.CopyDirectory

/-! The states that the copying of a directory goes through, and where the files get their contents
from when source and destination overlap. -/
namespace HmclPe.Io.CopyDirectory
open HmclPe.Lib.Disks HmclPe.Lib.Folders HmclPe.Lib.SymbolicLinks HmclPe.Lib.Courses

variable {ν β : Type} [DecidableEq ν] {legal : ν → Prop} [DecidablePred legal]

section Meeting

variable (sys : System legal β) (src dest : List ν) (d : Disk legal (Leaf ν β))

/-- The paths that are met in the source: what a folder holds from the start, and what is made in it
by an earlier copy. A folder is listed when what it is copied to is there, but nothing below. -/
inductive Met : List ν → Prop
  | start : Met []
  | listed {part place name} (met : Met part)
      (found : target d sys.links (src ++ part) = some place)
      (there : d.entries (place ++ [name]) ≠ none) : Met (part ++ [name])
  | made {part place name other spot} (met : Met part)
      (found : target d sys.links (src ++ part) = some place) (before : Met other)
      (reaches : sys.reaches (src ++ other) = true) (earlier : part <+: other → other = part)
      (goal : target d sys.links (dest ++ other) = some spot) (below : place ++ [name] <+: spot) :
      Met (part ++ [name])

/-- What may be written to a place: a content that stood at another one from the start or that was
itself written there. A file that is copied onto itself is emptied. -/
inductive Written : List ν → β → Prop
  | copied {path source place content} (met : Met sys src dest d path)
      (reaches : sys.reaches (src ++ path) = true)
      (found : target d sys.links (src ++ path) = some source)
      (goal : target d sys.links (dest ++ path) = some place)
      (held : d.entries source = some (.file (.data content))) :
      Written place (if source = place then sys.empty else content)
  | again {path source place content} (met : Met sys src dest d path)
      (reaches : sys.reaches (src ++ path) = true)
      (found : target d sys.links (src ++ path) = some source)
      (goal : target d sys.links (dest ++ path) = some place) (held : Written source content) :
      Written place (if source = place then sys.empty else content)

/-- What can be copied next, when all the paths visited have been. -/
structure Due (visited : Set (List ν)) (e : Disk legal (Leaf ν β)) (path : List ν) : Prop where
  met : Met sys src dest d path
  fresh : ∀ other ∈ visited, ¬path <+: other
  ready : ∀ part name, path = part ++ [name] → sys.isDirectory (dest ++ part) e = true

/-- The states of the copying: one file or folder after the other. -/
inductive Came : Set (List ν) → Disk legal (Leaf ν β) → Prop
  | start : Came ∅ d
  | file {visited e e' path} (came : Came visited e) (due : Due sys src dest d visited e path)
      (copied : sys.copyFile (src ++ path) (dest ++ path) e = (true,e')) :
      Came (insert path visited) e'
  | folder {visited e e' path files} (came : Came visited e)
      (due : Due sys src dest d visited e path)
      (folder : sys.isDirectory (src ++ path) e = true)
      (made : sys.destination (dest ++ path) e = (true,e'))
      (listed : sys.listFiles (src ++ path) e' = some files) : Came (insert path visited) e'

/-- What is due can not be copied. -/
inductive Stuck (e : Disk legal (Leaf ν β)) (path : List ν) : Prop
  | file (file : sys.isFile (src ++ path) e = true)
      (failed : (sys.copyFile (src ++ path) (dest ++ path) e).1 = false)
  | folder (folder : sys.isDirectory (src ++ path) e = true)
      (failed : (sys.destination (dest ++ path) e).1 = false)
  | listed {e'} (folder : sys.isDirectory (src ++ path) e = true)
      (made : sys.destination (dest ++ path) e = (true,e'))
      (failed : sys.listFiles (src ++ path) e' = none)

end Meeting

/-! ## What each step does -/

section Steps

variable {sys : System legal β} {src dest path place : List ν} {d e e' : Disk legal (Leaf ν β)}
  {visited : Set (List ν)}

theorem copyFile_yes (copied : sys.copyFile src dest d = (true,e)) :
    ∃ source place content, sys.found src d = some source ∧ sys.isFile src d = true ∧
      sys.readable source = true ∧ sys.opened dest d = some place ∧
      sys.interrupted place = none ∧
      (if source = place then content = sys.empty
        else d.entries source = some (.file (.data content))) ∧
      ∀ other, e.entries other =
        if other = place then some (.file (.data content)) else d.entries other := by
  rw [System.copyFile] at copied
  split at copied
  · next source place there here =>
    split at copied
    · next able =>
      obtain ⟨file,readable⟩ := able
      have can := (opened_iff.mp here).2.2.2.1
      have again : ∀ content : β, (d.put place (.file (.data sys.empty))).CanPut place
          (.file (.data content)) := by
        intro content
        refine ⟨can.some_,Disk.entries_put_folder can.folder,can.good,.inr ⟨?_,by simp⟩⟩
        exact FileSystem.isFile_of_entries (Disk.entries_put_self can)
      dsimp only at copied
      split at copied
      · next content opened whole =>
        obtain ⟨-,rfl⟩ := Prod.mk.inj copied
        refine ⟨source,place,content,there,?_,readable,here,whole,?_,?_⟩
        · rw [System.isFile,there]
          exact file
        · rw [Disk.entries_put can] at opened
          split
          · next same =>
            rw [if_pos same] at opened
            cases opened
            rfl
          · next different =>
            rw [if_neg different] at opened
            exact opened
        · intro other
          rw [Disk.entries_put (again content)]
          split
          · rfl
          · next different => exact Disk.entries_put_other different
      · cases (Prod.mk.inj copied).1
      · cases (Prod.mk.inj copied).1
    · cases (Prod.mk.inj copied).1
  · cases (Prod.mk.inj copied).1

/-- The folder is there already, or nothing is where the path leads to then. -/
theorem destination_cases (made : sys.destination path e = (true,e')) :
    (sys.isDirectory path e = true ∧ e' = e) ∨ ∃ spot, leads e' sys.links path = some spot ∧
      e.entries spot = none ∧ leads e sys.links path = none ∧ spot = canonical e sys.links path ∧
      ∀ place, e'.entries place = e.entries place ∨
        place <+: spot ∧ e.entries place = none ∧ e'.entries place = some .folder := by
  have extends_ := (grown_of_destination made).toExtends
  rw [System.destination] at made
  split at made
  · next folder =>
    cases made
    exact .inl ⟨folder,rfl⟩
  · rw [System.mkdirs] at made
    split at made
    · next able =>
      obtain ⟨both,rfl⟩ := Prod.mk.inj made
      rw [Bool.and_eq_true,FileSystem.isFolder_iff,Option.isNone_iff_eq_none] at both
      exact .inr ⟨_,leads_canonical extends_ both.2,both.1,
        Option.isNone_iff_eq_none.mp able.2,rfl,Disk.entries_mkdirs⟩
    · cases made

/-- The folders that are made are those on the way to the one that the path leads to then. -/
theorem entries_destination (made : sys.destination path e = (true,e')) (place : List ν) :
    e'.entries place = e.entries place ∨ e.entries place = none ∧ e'.entries place = some .folder ∧
      ∃ spot, leads e' sys.links path = some spot ∧ place <+: spot := by
  rcases destination_cases made with ⟨-,rfl⟩ | ⟨spot,leads_,-,-,-,entries⟩
  · exact .inl rfl
  · rcases entries place with same | ⟨part,absent,folder⟩
    · exact .inl same
    · exact .inr ⟨absent,folder,spot,leads_,part⟩

theorem destination_data (made : sys.destination path e = (true,e')) {place : List ν} {content : β}
    (data : e'.entries place = some (.file (.data content))) :
    e.entries place = some (.file (.data content)) := by
  rcases entries_destination made place with same | ⟨-,folder,-⟩
  · rw [← same,data]
  · rw [folder] at data
    cases data

end Steps

/-! ## What holds in every state -/

section States

variable {sys : System legal β} {src dest path place : List ν} {d e e' : Disk legal (Leaf ν β)}
  {visited : Set (List ν)}

theorem Came.grown (came : Came sys src dest d visited e) : Grown sys d e := by
  induction came with
  | start => exact Grown.refl
  | file came due copied ih => exact ih.trans (grown_copyFile copied)
  | folder came due folder made listed ih => exact ih.trans (grown_of_destination made)

theorem Came.met (came : Came sys src dest d visited e) :
    ∀ path ∈ visited, Met sys src dest d path ∧ sys.reaches (src ++ path) = true := by
  induction came with
  | start => exact fun path member => absurd member (Set.notMem_empty path)
  | file came due copied ih =>
    obtain ⟨source,spot,content,found,-⟩ := copyFile_yes copied
    rintro path (rfl | member)
    · exact ⟨due.met,(found_iff.mp found).1⟩
    · exact ih path member
  | folder came due folder made listed ih =>
    obtain ⟨source,found,-⟩ := isDirectory_iff.mp folder
    rintro path (rfl | member)
    · exact ⟨due.met,(found_iff.mp found).1⟩
    · exact ih path member

/-- Where something is new, it is what a path was copied to or a folder above that. -/
theorem Came.new (came : Came sys src dest d visited e) (there : e.entries place ≠ none) :
    d.entries place ≠ none ∨ ∃ path ∈ visited, ∃ spot,
      target d sys.links (dest ++ path) = some spot ∧ place <+: spot := by
  induction came with
  | start => exact .inl there
  | @file visited e e' path came due copied ih =>
    obtain ⟨source,spot,content,-,-,-,opened,-,-,entries⟩ := copyFile_yes copied
    by_cases before : e.entries place = none
    · rw [entries] at there
      split at there
      · next here =>
        have goal := (opened_iff.mp opened).1
        rw [came.grown.target] at goal
        exact .inr ⟨path,Set.mem_insert _ _,spot,goal,by rw [here]⟩
      · exact absurd before there
    · rcases ih before with first | ⟨other,member,rest⟩
      · exact .inl first
      · exact .inr ⟨other,Set.mem_insert_of_mem _ member,rest⟩
  | @folder visited e e' path files came due folder made listed ih =>
    rcases entries_destination made place with same | ⟨-,-,spot,found,part⟩
    · rw [same] at there
      rcases ih there with first | ⟨other,member,rest⟩
      · exact .inl first
      · exact .inr ⟨other,Set.mem_insert_of_mem _ member,rest⟩
    · have goal := target_of_leads found
      rw [(came.grown.trans (grown_of_destination made)).target] at goal
      exact .inr ⟨path,Set.mem_insert _ _,spot,goal,part⟩

/-- What a step of the copying writes. -/
theorem Came.writes (came : Came sys src dest d visited e)
    (held : ∀ place content, e.entries place = some (.file (.data content)) →
      d.entries place = some (.file (.data content)) ∨ Written sys src dest d place content)
    (due : Due sys src dest d visited e path)
    (copied : sys.copyFile (src ++ path) (dest ++ path) e = (true,e')) :
    ∃ spot content, sys.found (dest ++ path) e' = some spot ∧ sys.writable spot = true ∧
      sys.interrupted spot = none ∧ Written sys src dest d spot content ∧
      ∀ other, e'.entries other =
        if other = spot then some (.file (.data content)) else e.entries other := by
  obtain ⟨source,spot,content,found,file,-,opened,whole,read,entries⟩ := copyFile_yes copied
  obtain ⟨source',before,found',data⟩ := isFile_iff.mp file
  rw [found] at found'
  cases found'
  obtain ⟨reaches,leads_⟩ := found_iff.mp found
  obtain ⟨goal,reaches',writable,can,leads'⟩ := opened_iff.mp opened
  have origin := target_of_leads leads_
  rw [came.grown.target] at goal origin
  have written : Written sys src dest d spot (if source = spot then sys.empty else before) := by
    rcases held source before data with first | earlier
    · exact .copied due.met reaches origin goal first
    · exact .again due.met reaches origin goal earlier
  have same : (if source = spot then sys.empty else before) = content := by
    split at read
    · next here => rw [if_pos here,read]
    · next different =>
      rw [if_neg different]
      rw [data] at read
      cases read
      rfl
  rw [same] at written
  refine ⟨spot,content,found_iff.mpr ⟨reaches',?_⟩,writable,whole,written,entries⟩
  have extends_ : Extends (e.put spot (.file (.data sys.empty))) e' := by
    have emptied := Disk.entries_put_self can
    apply extends_write (by rw [emptied]; simp) (by rw [emptied]; simp)
    intro other
    rw [entries]
    split
    · rfl
    · next different => rw [Disk.entries_put_other different]
  exact extends_.leads leads'

omit [DecidablePred legal] in
theorem data_written {spot place : List ν} {content content' : β}
    (written : Written sys src dest d spot content) (entries : ∀ other, e'.entries other =
      if other = spot then some (.file (.data content)) else e.entries other)
    (data : e'.entries place = some (.file (.data content'))) :
    e.entries place = some (.file (.data content')) ∨ Written sys src dest d place content' := by
  rw [entries] at data
  split at data
  · next here =>
    cases data
    rw [here]
    exact .inr written
  · exact .inl data

/-- A file holds what it held, or what may be written to it. -/
theorem Came.held (came : Came sys src dest d visited e) : ∀ place content,
    e.entries place = some (.file (.data content)) →
      d.entries place = some (.file (.data content)) ∨ Written sys src dest d place content := by
  induction came with
  | start => exact fun _ _ => .inl
  | file came due copied ih =>
    obtain ⟨spot,content,-,-,-,written,entries⟩ := came.writes ih due copied
    intro place content' data
    rcases data_written written entries data with before | written'
    · exact ih place content' before
    · exact .inr written'
  | folder came due folder made listed ih =>
    intro place content data
    exact ih place content (destination_data made data)

/-- A path that has been copied was due once. -/
theorem Came.due (came : Came sys src dest d visited e) (member : path ∈ visited) :
    ∃ visited₁ e₁ e₂, Came sys src dest d visited₁ e₁ ∧ Due sys src dest d visited₁ e₁ path ∧
      (sys.copyFile (src ++ path) (dest ++ path) e₁ = (true,e₂) ∨
        sys.isDirectory (src ++ path) e₁ = true ∧
          sys.destination (dest ++ path) e₁ = (true,e₂)) := by
  induction came with
  | start => exact absurd member (Set.notMem_empty path)
  | file came due copied ih =>
    rcases member with rfl | member
    · exact ⟨_,_,_,came,due,.inl copied⟩
    · exact ih member
  | folder came due folder made listed ih =>
    rcases member with rfl | member
    · exact ⟨_,_,_,came,due,.inr ⟨folder,made⟩⟩
    · exact ih member

/-- A path that has been copied. -/
structure Passed (sys : System legal β) (src dest : List ν) (d e : Disk legal (Leaf ν β))
    (path : List ν) : Prop where
  read : ∀ source, sys.found (src ++ path) d = some source → sys.readable source = true
  file : sys.isFile (src ++ path) d = true → ∃ spot content,
    sys.found (dest ++ path) e = some spot ∧ sys.writable spot = true ∧
      sys.interrupted spot = none ∧ e.entries spot = some (.file (.data content)) ∧
      Written sys src dest d spot content
  folder : sys.isDirectory (src ++ path) d = true → sys.isDirectory (dest ++ path) e = true

omit [DecidablePred legal] in
theorem Passed.later (passed : Passed sys src dest d e path) (extends_ : Extends e e')
    (writes : ∀ place content, e'.entries place = some (.file (.data content)) →
      e.entries place = some (.file (.data content)) ∨ Written sys src dest d place content) :
    Passed sys src dest d e' path := by
  refine ⟨passed.read,?_,fun folder => isDirectory_extends extends_ (passed.folder folder)⟩
  intro file
  obtain ⟨spot,content,found,writable,whole,data,written⟩ := passed.file file
  obtain ⟨content',data'⟩ := extends_.data spot content data
  refine ⟨spot,content',found_extends extends_ found,writable,whole,data',?_⟩
  rcases writes spot content' data' with same | written'
  · rw [data] at same
    cases same
    exact written
  · exact written'

theorem Came.passed (came : Came sys src dest d visited e) :
    ∀ path ∈ visited, Passed sys src dest d e path := by
  induction came with
  | start => exact fun path member => absurd member (Set.notMem_empty path)
  | @file visited e e' path came due copied ih =>
    have extends_ := (grown_copyFile copied).toExtends
    obtain ⟨source,-,-,there,file,readable,-⟩ := copyFile_yes copied
    obtain ⟨spot,content,found,writable,whole,written,entries⟩ := came.writes came.held due copied
    rintro other (rfl | member)
    · refine ⟨?_,?_,?_⟩
      · intro source' first
        rw [found_eq came.grown.toExtends first there] at readable
        exact readable
      · intro _
        exact ⟨spot,content,found,writable,whole,by rw [entries,if_pos rfl],written⟩
      · intro folder
        rw [not_isFile (isDirectory_extends came.grown.toExtends folder)] at file
        cases file
    · exact (ih other member).later extends_ fun _ _ => data_written written entries
  | @folder visited e e' path files came due folder made listed ih =>
    have extends_ := (grown_of_destination made).toExtends
    rintro other (rfl | member)
    · refine ⟨?_,?_,?_⟩
      · intro source first
        obtain ⟨place,there,-,readable,-⟩ := listFiles_iff.mp listed
        rw [found_eq (came.grown.toExtends.trans extends_) first there] at readable
        exact readable
      · intro file
        have file' := isFile_extends came.grown.toExtends file
        rw [not_isFile folder] at file'
        cases file'
      · intro _
        exact found_destination made
    · exact (ih other member).later extends_ fun place content data =>
        .inl (destination_data made data)

end States

/-! ## The states of a call -/

section Calls

variable {sys : System legal β} {src dest path : List ν} {d e e' : Disk legal (Leaf ν β)}
  {visited visited' : Set (List ν)} {answer : Answer}

/-- What a call at a path, or a loop over paths, leaves: all that was found at or below these paths
has been visited. -/
structure Visits (sys : System legal β) (src : List ν) (d : Disk legal (Leaf ν β))
    (paths visited visited' : Set (List ν)) : Prop where
  kept : visited ⊆ visited'
  below : ∀ path ∈ visited', path ∈ visited ∨ ∃ start ∈ paths, start <+: path
  all : ∀ start ∈ paths, ∀ path source, start <+: path →
    sys.found (src ++ path) d = some source → path ∈ visited'

/-- It is reported that all has been copied, or something was due that could not be. -/
def Ends (sys : System legal β) (src dest : List ν) (d : Disk legal (Leaf ν β))
    (paths visited : Set (List ν)) (answer : Answer) (e' : Disk legal (Leaf ν β)) : Prop :=
  (answer = .yes ∧ ∃ visited', Came sys src dest d visited' e' ∧
    Visits sys src d paths visited visited') ∨
  (answer ≠ .yes ∧ ∃ visited' e path, Came sys src dest d visited' e ∧
    Due sys src dest d visited' e path ∧ Stuck sys src dest e path)

def Serves (sys : System legal β) (src dest : List ν) (d : Disk legal (Leaf ν β))
    (copyDirectory : List ν → List ν → Disk legal (Leaf ν β) →
      Option (Answer × Disk legal (Leaf ν β))) : Prop :=
  ∀ path visited e answer e', Came sys src dest d visited e → Due sys src dest d visited e path →
    sys.isDirectory (src ++ path) e = true →
    copyDirectory (src ++ path) (dest ++ path) e = some (answer,e') →
    Ends sys src dest d {path} visited answer e'

omit [DecidableEq ν] in
theorem eq_of_both_below {path other : List ν} {name name' : ν} (under : path ++ [name] <+: other)
    (under' : path ++ [name'] <+: other) : name = name' := by
  have part := List.prefix_of_prefix_length_le under under' (by simp)
  have same := part.eq_of_length (by simp)
  rwa [List.append_right_inj,List.singleton_inj] at same

omit [DecidablePred legal] in
/-- Nothing is found below a file. -/
theorem eq_of_below_file (file : sys.isFile (src ++ path) e = true) (extends_ : Extends d e)
    {other source : List ν} (under : path <+: other)
    (found : sys.found (src ++ other) d = some source) : other = path := by
  obtain ⟨rest,rfl⟩ := under
  by_cases last : rest = []
  · rw [last,List.append_nil]
  · rw [← List.append_assoc] at found
    rw [not_isFile (isDirectory_extends extends_ (isDirectory_above last found))] at file
    cases file

variable {copyDirectory : List ν → List ν → Disk legal (Leaf ν β) →
    Option (Answer × Disk legal (Leaf ν β))}

/-- One file or folder of the loop. -/
theorem ends_turn (serves : Serves sys src dest d copyDirectory)
    (grows : ∀ src dest d answer d', copyDirectory src dest d = some (answer,d') → Grown sys d d')
    {name : ν} {files : List ν} (came : Came sys src dest d visited e)
    (due : Due sys src dest d visited e (path ++ [name]))
    (copied : sys.copyFiles copyDirectory (src ++ path) (dest ++ path) (name :: files) e =
      some (answer,e')) :
    (∃ visited₁ e₁, Came sys src dest d visited₁ e₁ ∧
      Visits sys src d {path ++ [name]} visited visited₁ ∧ Extends e e₁ ∧
      sys.copyFiles copyDirectory (src ++ path) (dest ++ path) files e₁ = some (answer,e')) ∨
    (answer ≠ .yes ∧ ∃ visited' e path, Came sys src dest d visited' e ∧
      Due sys src dest d visited' e path ∧ Stuck sys src dest e path) := by
  have cases_ := copyFiles_cases copied
  simp only [List.append_assoc] at cases_
  rcases cases_ with
    ⟨file,⟨e₁,made,rest⟩ | ⟨failed,rfl⟩⟩ | ⟨folder,⟨e₁,made,rest⟩ | ⟨made,no⟩⟩ | ⟨nothing,rest⟩
  · refine .inl ⟨_,e₁,.file came due made,⟨Set.subset_insert _ _,?_,?_⟩,
      (grown_copyFile made).toExtends,rest⟩
    · rintro other (rfl | member)
      · exact .inr ⟨_,rfl,List.prefix_rfl⟩
      · exact .inl member
    · rintro _ rfl other source under found
      exact .inl (eq_of_below_file file came.grown.toExtends under found)
  · exact .inr ⟨by simp,visited,e,_,came,due,.file file (by rw [failed])⟩
  · rcases serves _ visited e .yes e₁ came due folder made with ⟨-,visited₁,came₁,visits⟩ | ⟨no,-⟩
    · exact .inl ⟨visited₁,e₁,came₁,visits,(grows _ _ _ _ _ made).toExtends,rest⟩
    · exact absurd rfl no
  · rcases serves _ visited e answer e' came due folder made with ⟨yes,-⟩ | stuck
    · exact absurd yes no
    · exact .inr stuck
  · refine .inl ⟨visited,e,came,⟨subset_rfl,fun _ => .inl,?_⟩,Extends.refl,rest⟩
    rintro _ rfl other source ⟨below,rfl⟩ found
    exfalso
    rw [← List.append_assoc] at found
    by_cases last : below = []
    · rw [last,List.append_nil] at found
      rw [found_extends came.grown.toExtends found] at nothing
      cases nothing
    · obtain ⟨place,here,-⟩ := isDirectory_iff.mp (isDirectory_above last found)
      rw [found_extends came.grown.toExtends here] at nothing
      cases nothing

theorem ends_files (serves : Serves sys src dest d copyDirectory)
    (grows : ∀ src dest d answer d', copyDirectory src dest d = some (answer,d') → Grown sys d d')
    {files : List ν} (nodup : files.Nodup) (came : Came sys src dest d visited e)
    (met : ∀ name ∈ files, Met sys src dest d (path ++ [name]))
    (fresh : ∀ name ∈ files, ∀ other ∈ visited, ¬path ++ [name] <+: other)
    (ready : sys.isDirectory (dest ++ path) e = true)
    (copied : sys.copyFiles copyDirectory (src ++ path) (dest ++ path) files e =
      some (answer,e')) :
    Ends sys src dest d {start | ∃ name ∈ files, start = path ++ [name]} visited answer e' := by
  induction files generalizing e visited with
  | nil =>
    obtain ⟨rfl,rfl⟩ := Prod.mk.inj (Option.some.inj copied)
    exact .inl ⟨rfl,visited,came,subset_rfl,fun _ => .inl,fun _ ⟨_,member,_⟩ => by cases member⟩
  | cons name files ih =>
    rw [List.nodup_cons] at nodup
    have due : Due sys src dest d visited e (path ++ [name]) := by
      refine ⟨met name List.mem_cons_self,fresh name List.mem_cons_self,?_⟩
      intro part last same
      obtain ⟨rfl,-⟩ := List.append_inj' same rfl
      exact ready
    rcases ends_turn serves grows came due copied with ⟨visited₁,e₁,came₁,first,grown,rest⟩ | stuck
    · have fresh₁ : ∀ other ∈ files, ∀ visit ∈ visited₁, ¬path ++ [other] <+: visit := by
        intro other member visit inside under
        rcases first.below visit inside with before | ⟨_,rfl,under'⟩
        · exact fresh other (List.mem_cons_of_mem _ member) visit before under
        · rw [eq_of_both_below under under'] at member
          exact nodup.1 member
      rcases ih nodup.2 came₁ (fun other member => met other (List.mem_cons_of_mem _ member)) fresh₁
        (isDirectory_extends grown ready) rest with ⟨yes,visited₂,came₂,later⟩ | stuck
      · refine .inl ⟨yes,visited₂,came₂,first.kept.trans later.kept,?_,?_⟩
        · intro other member
          rcases later.below other member with before | ⟨start,⟨next,inside,rfl⟩,under⟩
          · rcases first.below other before with earlier | ⟨_,rfl,under⟩
            · exact .inl earlier
            · exact .inr ⟨_,⟨name,List.mem_cons_self,rfl⟩,under⟩
          · exact .inr ⟨_,⟨next,List.mem_cons_of_mem _ inside,rfl⟩,under⟩
        · rintro start ⟨next,inside,rfl⟩ other source under found
          rcases List.mem_cons.mp inside with rfl | inside
          · exact later.kept (first.all _ rfl other source under found)
          · exact later.all _ ⟨next,inside,rfl⟩ other source under found
      · exact .inr stuck
    · exact .inr stuck

/-- What is listed has been there from the start, or was made by what was copied before. -/
theorem Came.listed (came : Came sys src dest d visited e) (met : Met sys src dest d path)
    (fresh : ∀ other ∈ visited, path <+: other → other = path) {place : List ν}
    (found : sys.found (src ++ path) e = some place) {name : ν}
    (there : e.entries (place ++ [name]) ≠ none) : Met sys src dest d (path ++ [name]) := by
  have goal := target_of_leads (found_iff.mp found).2
  rw [came.grown.target] at goal
  rcases came.new there with first | ⟨other,member,spot,goal',below⟩
  · exact .listed met goal first
  · obtain ⟨met',reaches⟩ := came.met other member
    exact .made met goal met' reaches (fresh other member) goal' below

theorem serves_copyDirectory (turns : Nat) :
    Serves sys src dest d (sys.copyDirectory turns) := by
  induction turns with
  | zero =>
    intro path visited e answer e' _ _ _ copied
    cases copied
  | succ turns ih =>
    intro path visited e answer e' came due folder copied
    rcases copyDirectory_cases copied with
      ⟨other,-⟩ | ⟨-,failed,rfl⟩ | ⟨-,made,unlisted,rfl⟩ | ⟨e₁,files,-,made,listed,copied⟩
    · rw [folder] at other
      cases other
    · exact .inr ⟨by simp,visited,e,path,came,due,.folder folder (by rw [failed])⟩
    · exact .inr ⟨by simp,visited,e,path,came,due,.listed folder made unlisted⟩
    · have came' := Came.folder came due folder made listed
      obtain ⟨place,found,-,-,rfl⟩ := listFiles_iff.mp listed
      have fresh : ∀ other ∈ insert path visited, path <+: other → other = path := by
        rintro other (rfl | member) under
        · rfl
        · exact absurd under (due.fresh other member)
      have ended := ends_files ih (fun _ _ _ _ _ => grown_copyDirectory)
        ((sys.listing_perm _ _).nodup_iff.mpr (Disk.nodup_children _ _)) came' (by
          intro name member
          rw [(sys.listing_perm _ _).mem_iff,Disk.mem_children] at member
          exact came'.listed due.met fresh found member) (by
          intro name _ other member under
          have same := fresh other member ((List.prefix_append path [name]).trans under)
          have short := under.length_le
          rw [same,List.length_append,List.length_singleton] at short
          omega) (found_destination made) copied
      rcases ended with ⟨yes,visited',final,visits⟩ | stuck
      · refine .inl ⟨yes,visited',final,(Set.subset_insert _ _).trans visits.kept,?_,?_⟩
        · intro other member
          rcases visits.below other member with before | ⟨_,⟨name,-,rfl⟩,under⟩
          · rcases before with rfl | before
            · exact .inr ⟨_,rfl,List.prefix_rfl⟩
            · exact .inl before
          · exact .inr ⟨_,rfl,(List.prefix_append path [name]).trans under⟩
        · rintro start rfl other source ⟨rest,rfl⟩ first
          cases rest with
          | nil =>
            apply visits.kept
            rw [List.append_nil]
            exact Set.mem_insert _ _
          | cons name rest =>
            apply visits.all _ ⟨name,?_,rfl⟩ _ source ⟨rest,by simp⟩ first
            rw [(sys.listing_perm _ _).mem_iff,Disk.mem_children]
            have still := found_extends came'.grown.toExtends first
            have inside : ∃ next, sys.found (src ++ start ++ [name]) e₁ = some next := by
              rw [List.append_cons,← List.append_assoc,← List.append_assoc] at still
              by_cases last : rest = []
              · rw [last,List.append_nil] at still
                exact ⟨source,still⟩
              · obtain ⟨next,here,-⟩ := isDirectory_iff.mp (isDirectory_above last still)
                exact ⟨next,here⟩
            obtain ⟨next,here⟩ := inside
            obtain ⟨above,found',-,entry⟩ := found_above here
            rw [found] at found'
            cases found'
            exact entry
      · exact .inr stuck

/-- What the whole call goes through. -/
theorem ends_copyDirectory {turns : Nat} (folder : sys.isDirectory src d = true)
    (copied : sys.copyDirectory turns src dest d = some (answer,e')) :
    Ends sys src dest d {[]} ∅ answer e' := by
  apply serves_copyDirectory turns [] ∅ d answer e' .start
  · refine ⟨.start,fun _ member => absurd member (Set.notMem_empty _),?_⟩
    intro part name same
    simp at same
  · rw [List.append_nil]
    exact folder
  · rw [List.append_nil,List.append_nil]
    exact copied

/-- Where a copy is reported, all that is found in the source has been copied. -/
theorem came_of_yes {turns : Nat} (copied : sys.copyDirectory turns src dest d = some (.yes,e')) :
    ∃ visited, Came sys src dest d visited e' ∧
      ∀ path source, sys.found (src ++ path) d = some source → path ∈ visited := by
  rcases ends_copyDirectory (starts_of_yes copied).1 copied with ⟨-,visited,came,visits⟩ | ⟨no,-⟩
  · exact ⟨visited,came,fun path source => visits.all [] rfl path source List.nil_prefix⟩
  · exact absurd rfl no

end Calls
end HmclPe.Io.CopyDirectory
