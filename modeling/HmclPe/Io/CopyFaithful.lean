import HmclPe.Io.CopyReported

/-! When the copying of a directory does what it reports. -/
namespace HmclPe.Io.CopyDirectory
open HmclPe.Lib.Disks HmclPe.Lib.Folders HmclPe.Lib.SymbolicLinks HmclPe.Lib.Courses

variable {ν β : Type} [DecidableEq ν] {legal : ν → Prop} [DecidablePred legal]

section Necessary

variable {sys : System legal β} {src dest path : List ν} {d d' e e' : Disk legal (Leaf ν β)}
  {visited : Set (List ν)}

omit [DecidablePred legal] in
/-- What is read at a path stands where its course ends. -/
theorem reads_eq (extends_ : Extends d e) {place : List ν} {content : β}
    (reads : Reads sys e path content) (goal : target d sys.links path = some place) :
    e.entries place = some (.file (.data content)) := by
  obtain ⟨place',found,data⟩ := reads
  have goal' := target_of_leads found
  rw [extends_.target,goal] at goal'
  cases goal'
  exact data

omit [DecidablePred legal] in
theorem agree_of_faithful (extends_ : Extends d e) (faithful : Faithful sys src dest d e) :
    Agree sys src dest d := by
  intro path content other content' reads reads' root which place goal goal'
  have here : Reads sys e (root ++ path) content := by
    rcases which with rfl | rfl
    · exact faithful.unchanged path content reads
    · exact faithful.copied path content reads
  have data := reads_eq extends_ here goal
  rw [reads_eq extends_ (faithful.copied other content' reads') goal'] at data
  cases data
  rfl

/-- What is copied on is found in the source. -/
theorem Settled.origin (settled : Settled sys src dest d) (met : Met sys src dest d path)
    (reaches : sys.reaches (src ++ path) = true) {source : List ν}
    (goal : target d sys.links (src ++ path) = some source)
    (there : d.entries source ≠ none ∨ ∃ other source', sys.found (src ++ other) d = some source' ∧
      target d sys.links (dest ++ other) = some source) :
    sys.found (src ++ path) d = some source := by
  cases first : leads d sys.links (src ++ path) with
  | some place =>
    have goal' := target_of_leads first
    rw [goal] at goal'
    cases goal'
    exact found_iff.mpr ⟨reaches,first⟩
  | none =>
    obtain ⟨absent,apart⟩ := settled.met path met reaches first source goal
    rcases there with there | ⟨other,source',found,goal'⟩
    · exact absurd absent there
    · exact absurd List.prefix_rfl (apart other source' source found goal')

variable {source place : List ν} {content : β}

/-- What a file is copied to is a file. -/
theorem isFile_of_copied (came : Came sys src dest d visited e)
    (all : ∀ path source, sys.found (src ++ path) d = some source → path ∈ visited)
    (found : sys.found (src ++ path) d = some source) {other : List ν}
    (file : sys.isFile (src ++ other) d = true)
    (goal : target d sys.links (dest ++ other) = some source) :
    sys.isFile (src ++ path) d = true := by
  rcases found_cases found with file' | folder
  · exact file'
  · obtain ⟨first,-,there,-⟩ := isFile_iff.mp file
    obtain ⟨spot,content,found',-,-,data,-⟩ := (came.passed other (all other first there)).file file
    have goal' := target_of_leads (found_iff.mp found').2
    rw [came.grown.target,goal] at goal'
    cases goal'
    obtain ⟨place,here,folder⟩ := isDirectory_iff.mp folder
    rw [found] at here
    cases here
    rw [came.grown.folder _ folder] at data
    cases data

/-- What is written somewhere is written there by a file of the source. -/
theorem Settled.writer (settled : Settled sys src dest d) (came : Came sys src dest d visited e)
    (all : ∀ path source, sys.found (src ++ path) d = some source → path ∈ visited)
    (written : Written sys src dest d place content) :
    ∃ path source, sys.isFile (src ++ path) d = true ∧
      target d sys.links (src ++ path) = some source ∧
      target d sys.links (dest ++ path) = some place ∧ (source = place → content = sys.empty) := by
  induction written with
  | copied met reaches found goal held =>
    have here := settled.origin met reaches found (.inl (by rw [held]; exact Option.some_ne_none _))
    exact ⟨_,_,isFile_iff.mpr ⟨_,_,here,held⟩,found,goal,fun same => if_pos same⟩
  | again met reaches found goal held ih =>
    obtain ⟨other,-,file,-,goal',-⟩ := ih
    obtain ⟨source',-,there,-⟩ := isFile_iff.mp file
    have here := settled.origin met reaches found (.inr ⟨other,source',there,goal'⟩)
    exact ⟨_,_,isFile_of_copied came all here file goal',found,goal,fun same => if_pos same⟩

/-- Where a copy is faithful, only empty files are copied onto themselves. -/
theorem Settled.itself_empty (settled : Settled sys src dest d)
    (came : Came sys src dest d visited e)
    (all : ∀ path source, sys.found (src ++ path) d = some source → path ∈ visited)
    (faithful : Faithful sys src dest d e) (found : sys.found (src ++ path) d = some place)
    (held : d.entries place = some (.file (.data content)))
    (goal : target d sys.links (dest ++ path) = some place) : content = sys.empty := by
  have file := isFile_iff.mpr ⟨place,content,found,held⟩
  have leads_ := (found_iff.mp found).2
  obtain ⟨spot,content',there,-,-,data,written⟩ :=
    (came.passed path (all path place found)).file file
  have goal' := target_of_leads (found_iff.mp there).2
  rw [came.grown.target,goal] at goal'
  cases goal'
  obtain ⟨other,source,file',from_,goal',emptied⟩ := settled.writer came all written
  have same := settled.itself path other place file file' (target_of_leads leads_) goal goal'
  rw [from_] at same
  cases same
  rw [reads_eq came.grown.toExtends (faithful.unchanged path content ⟨place,leads_,held⟩)
    (target_of_leads leads_)] at data
  cases data
  exact emptied rfl

/-- What has been written is what a file of the source held. -/
theorem Settled.written (settled : Settled sys src dest d) (came : Came sys src dest d visited e)
    (all : ∀ path source, sys.found (src ++ path) d = some source → path ∈ visited)
    (faithful : Faithful sys src dest d e) (written : Written sys src dest d place content) :
    ∃ path, Reads sys d (src ++ path) content ∧
      target d sys.links (dest ++ path) = some place := by
  have turn : ∀ path source place content, sys.found (src ++ path) d = some source →
      d.entries source = some (.file (.data content)) →
      target d sys.links (dest ++ path) = some place →
      Reads sys d (src ++ path) (if source = place then sys.empty else content) := by
    intro path source place content found held goal
    split
    · next same =>
      rw [← same] at goal
      rw [← settled.itself_empty came all faithful found held goal]
      exact ⟨source,(found_iff.mp found).2,held⟩
    · exact ⟨source,(found_iff.mp found).2,held⟩
  induction written with
  | copied met reaches found goal held =>
    have here := settled.origin met reaches found (.inl (by rw [held]; exact Option.some_ne_none _))
    exact ⟨_,turn _ _ _ _ here held goal,goal⟩
  | @again path source place content met reaches found goal held ih =>
    obtain ⟨other,reads,goal'⟩ := ih
    obtain ⟨writer,-,file,-,goal'',-⟩ := settled.writer came all held
    obtain ⟨first,-,there,-⟩ := isFile_iff.mp file
    have here := settled.origin met reaches found (.inr ⟨writer,first,there,goal''⟩)
    obtain ⟨source',before,here',held'⟩ :=
      isFile_iff.mp (isFile_of_copied came all here file goal'')
    rw [here] at here'
    cases here'
    -- the file held the same all the time
    have same := agree_of_faithful came.grown.toExtends faithful path before other content
      ⟨source,(found_iff.mp here).2,held'⟩ reads src (.inl rfl) source found goal'
    rw [same]
    exact ⟨path,turn _ _ _ _ here held' goal,goal⟩

theorem harmless_of_faithful (settled : Settled sys src dest d) {turns : Nat}
    (copied : sys.copyDirectory turns src dest d = some (.yes,d'))
    (faithful : Faithful sys src dest d d') : Harmless sys src dest d := by
  obtain ⟨visited,came,all⟩ := came_of_yes copied
  have extends_ := came.grown.toExtends
  refine ⟨?_,?_⟩
  · intro path content reads root which place goal other written
    obtain ⟨origin,reads',goal'⟩ := settled.written came all faithful written
    exact agree_of_faithful extends_ faithful path content origin other reads reads' root which
      place goal goal'
  · intro path content reads reaches
    obtain ⟨spot,found,data⟩ := faithful.copied path content reads
    have goal := target_of_leads found
    rw [extends_.target] at goal
    obtain ⟨apart,leads_⟩ := settled.skipped path content spot reads reaches goal
    rcases came.held spot content data with before | written
    · obtain ⟨place,first⟩ := Option.ne_none_iff_exists'.mp
        (leads_ (by rw [before]; exact Option.some_ne_none _))
      have goal' := target_of_leads first
      rw [goal] at goal'
      cases goal'
      exact ⟨spot,first,before⟩
    · exact absurd written (apart content)

end Necessary

section Main

variable {sys : System legal β} {src dest : List ν} {d : Disk legal (Leaf ν β)}

theorem harmless_of_copies (settled : Settled sys src dest d) (copies : Copies sys src dest d)
    (allowed : Allowed sys src dest d) : Harmless sys src dest d := by
  obtain ⟨turns,d',copied⟩ := copies_reported settled allowed
  exact harmless_of_faithful settled copied (copies.faithful turns d' copied)

theorem agree_of_copies (copies : Copies sys src dest d) {turns : Nat} {d' : Disk legal (Leaf ν β)}
    (copied : sys.copyDirectory turns src dest d = some (.yes,d')) : Agree sys src dest d := by
  obtain ⟨visited,came,-⟩ := came_of_yes copied
  exact agree_of_faithful came.grown.toExtends (copies.faithful turns d' copied)

/-- A reported copy is faithful where nothing else is written over the files of the source and over
their copies. It is so only there when what is done first does not matter, and in any case only
where files that are copied to one place, or one over the other, are the same. -/
theorem copies_iff (sys : System legal β) (src dest : List ν) (d : Disk legal (Leaf ν β)) :
    ((Allowed sys src dest d → Harmless sys src dest d) → Copies sys src dest d) ∧
      ((Allowed sys src dest d → Settled sys src dest d) →
        (Copies sys src dest d ↔ (Allowed sys src dest d → Harmless sys src dest d))) ∧
      ∀ turns d', sys.copyDirectory turns src dest d = some (.yes,d') → Copies sys src dest d →
        Agree sys src dest d :=
  ⟨copies_of_harmless,
    fun settled => ⟨fun copies allowed => harmless_of_copies (settled allowed) copies allowed,
      copies_of_harmless⟩,
    fun _ _ copied copies => agree_of_copies copies copied⟩

end Main

section Example

/-- Everything is allowed on paths which are not too long. -/
def ordinary : System (fun _ : List Char => True) (List Char) where
  empty := []
  links := 40
  limit := 2048
  reaches path := path.length ≤ 2048
  bounded _ := of_decide_eq_true
  above path name := by
    intro reaches
    rw [decide_eq_true_eq,List.length_append,List.length_singleton] at reaches
    rw [decide_eq_true_eq]
    omega
  readable _ := true
  writable _ := true
  listing d place := d.children place
  listing_perm _ _ := List.Perm.refl _
  interrupted _ := none

/-- A directory `d` with a file `f`. -/
def oneFile : Disk (fun _ : List Char => True) (Leaf (List Char) (List Char)) :=
  ((Disk.blank _ _).put [['d']] .folder).put [['d'],['f']] (.file (.data ['x']))

/-- Copied onto itself, the file is emptied, and the copy is reported. -/
theorem not_copies_itself : ¬Copies ordinary [['d']] [['d']] oneFile := by
  intro copies
  obtain ⟨d',copied,emptied⟩ : ∃ d', ordinary.copyDirectory 2 [['d']] [['d']] oneFile =
      some (.yes,d') ∧ d'.entries [['d'],['f']] = some (.file (.data [])) := ⟨_,rfl,rfl⟩
  have reads : Reads ordinary oneFile ([['d']] ++ [['f']]) ['x'] := ⟨_,rfl,rfl⟩
  have data : d'.entries [['d'],['f']] = some (.file (.data ['x'])) :=
    reads_eq (grown_copyDirectory copied).toExtends
      ((copies.faithful 2 d' copied).unchanged [['f']] ['x'] reads) rfl
  rw [emptied] at data
  cases data

/-- A directory `s` with a file `f` below, and a directory `t` with a link into the first one. -/
def linkedInside : Disk (fun _ : List Char => True) (Leaf (List Char) (List Char)) :=
  (((((Disk.blank _ _).put [['s']] .folder).put [['s'],['s']] .folder).put [['s'],['s'],['f']]
    (.file (.data ['x']))).put [['t']] .folder).put [['t'],['s']]
      (.file (.link ⟨true,[.down ['s'],.down ['s']]⟩))

/-- The same happens through a link at a destination that lies apart from the source. -/
example : ¬Copies ordinary [['s']] [['t']] linkedInside := by
  intro copies
  obtain ⟨d',copied,emptied⟩ : ∃ d', ordinary.copyDirectory 3 [['s']] [['t']] linkedInside =
      some (.yes,d') ∧ d'.entries [['s'],['s'],['f']] = some (.file (.data [])) := ⟨_,rfl,rfl⟩
  have reads : Reads ordinary linkedInside ([['s']] ++ [['s'],['f']]) ['x'] := ⟨_,rfl,rfl⟩
  have data : d'.entries [['s'],['s'],['f']] = some (.file (.data ['x'])) :=
    reads_eq (grown_copyDirectory copied).toExtends
      ((copies.faithful 3 d' copied).unchanged [['s'],['f']] ['x'] reads) rfl
  rw [emptied] at data
  cases data

end Example
end HmclPe.Io.CopyDirectory
