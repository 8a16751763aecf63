import HmclPe.Io.CopyOverlap

/-! What a reported copy of a directory needs, and what makes it faithful. -/
namespace HmclPe.Io.CopyDirectory
open HmclPe.Lib.Disks HmclPe.Lib.Folders HmclPe.Lib.SymbolicLinks HmclPe.Lib.Courses

variable {ν β : Type} [DecidableEq ν] {legal : ν → Prop} [DecidablePred legal]

section Conditions

variable (sys : System legal β) (src dest : List ν) (d : Disk legal (Leaf ν β))

/-- Where a path is to be copied to there is a link, which for a file leads below a missing folder,
and for a folder to a missing one. -/
structure Waits (part : List ν) (name : ν) (missing : List ν) : Prop where
  link : ∃ place link, leads d sys.links (dest ++ part) = some place ∧
    d.entries (place ++ [name]) = some (.file (.link link))
  absent : d.entries missing = none
  spot : ∃ spot, target d sys.links (dest ++ (part ++ [name])) = some spot ∧
    (sys.isFile (src ++ (part ++ [name])) d = true ∧ missing = spot.dropLast ∨
      sys.isDirectory (src ++ (part ++ [name])) d = true ∧ missing = spot)

/-- The source is a folder, the destination is one or can be made outside of it, all that is found
in the source can be read, and there is room for it at the destination. -/
structure Allowed : Prop where
  folder : sys.isDirectory src d = true
  outside : src <+: dest → dest = src
  made : (sys.destination dest d).1 = true
  read : ∀ path source, sys.found (src ++ path) d = some source →
    sys.readable source = true ∧ sys.reaches (dest ++ path) = true
  whole : ∀ path spot, sys.isFile (src ++ path) d = true →
    target d sys.links (dest ++ path) = some spot →
    sys.writable spot = true ∧ sys.interrupted spot = none
  room : ∃ e, Grown sys d e ∧ ∀ path source, sys.found (src ++ path) d = some source →
    ∃ spot, leads e sys.links (dest ++ path) = some spot ∧
      (e.entries spot = some .folder ↔ d.entries source = some .folder)
  waits : ∀ part name missing, Waits sys src dest d part name missing → ∃ other spot,
    other ≠ part ++ [name] ∧ Met sys src dest d other ∧ sys.reaches (src ++ other) = true ∧
      target d sys.links (dest ++ other) = some spot ∧ missing <+: spot

/-- Wherever a file of the source stands or is copied to, nothing else is written; and where it is
not looked up, it has been copied already. -/
structure Harmless : Prop where
  kept : ∀ path content, Reads sys d (src ++ path) content → ∀ root, root = src ∨ root = dest →
    ∀ place, target d sys.links (root ++ path) = some place →
    ∀ other, Written sys src dest d place other → other = content
  skipped : ∀ path content, Reads sys d (src ++ path) content → sys.reaches (src ++ path) = false →
    Reads sys d (dest ++ path) content

/-- Nothing is copied on from a place that it was just copied to, and no link at the destination
waits for a folder: what is done first does not matter. -/
structure Settled : Prop where
  met : ∀ path, Met sys src dest d path → sys.reaches (src ++ path) = true →
    leads d sys.links (src ++ path) = none →
    ∀ place, target d sys.links (src ++ path) = some place → d.entries place = none ∧
      ∀ other source spot, sys.found (src ++ other) d = some source →
        target d sys.links (dest ++ other) = some spot → ¬place <+: spot
  links : ∀ part name place link, leads d sys.links (dest ++ part) = some place →
    d.entries (place ++ [name]) = some (.file (.link link)) →
    ∀ source, sys.found (src ++ (part ++ [name])) d = some source →
    leads d sys.links (dest ++ (part ++ [name])) ≠ none ∨
      (sys.isFile (src ++ (part ++ [name])) d = true ∧
        ∃ spot, sys.opened (dest ++ (part ++ [name])) d = some spot ∧ d.entries spot = none) ∨
      ∃ missing, Waits sys src dest d part name missing ∧ ∀ other spot, other ≠ part ++ [name] →
        Met sys src dest d other → sys.reaches (src ++ other) = true →
        target d sys.links (dest ++ other) = some spot → ¬missing <+: spot
  itself : ∀ path other place, sys.isFile (src ++ path) d = true →
    sys.isFile (src ++ other) d = true → target d sys.links (src ++ path) = some place →
    target d sys.links (dest ++ path) = some place →
    target d sys.links (dest ++ other) = some place →
    target d sys.links (src ++ other) = some place
  skipped : ∀ path content spot, Reads sys d (src ++ path) content →
    sys.reaches (src ++ path) = false → target d sys.links (dest ++ path) = some spot →
    (∀ other, ¬Written sys src dest d spot other) ∧
      (d.entries spot ≠ none → leads d sys.links (dest ++ path) ≠ none)

/-- Files of the source that are copied to the same place, or one to the place of the other, are the
same. -/
def Agree : Prop :=
  ∀ path content other content', Reads sys d (src ++ path) content →
    Reads sys d (src ++ other) content' → ∀ root, root = src ∨ root = dest → ∀ place,
    target d sys.links (root ++ path) = some place →
    target d sys.links (dest ++ other) = some place → content' = content

end Conditions

section Sufficient

variable {sys : System legal β} {src dest : List ν} {d d' : Disk legal (Leaf ν β)}

theorem faithful_of_harmless (harmless : Harmless sys src dest d) {turns : Nat}
    (copied : sys.copyDirectory turns src dest d = some (.yes,d')) :
    Faithful sys src dest d d' := by
  obtain ⟨visited,came,all⟩ := came_of_yes copied
  have extends_ := came.grown.toExtends
  have same : ∀ path content, Reads sys d (src ++ path) content → ∀ root, root = src ∨ root = dest →
      Reads sys d (root ++ path) content → Reads sys d' (root ++ path) content := by
    rintro path content reads root which ⟨place,found,data⟩
    obtain ⟨content',data'⟩ := extends_.data place content data
    refine ⟨place,extends_.leads found,?_⟩
    rcases came.held place content' data' with before | written
    · rw [data] at before
      cases before
      exact data'
    · have goal := target_of_leads found
      rw [harmless.kept path content reads root which place goal content' written] at data'
      exact data'
  refine ⟨?_,fun path content reads => same path content reads src (.inl rfl) reads⟩
  intro path content reads
  cases reaches : sys.reaches (src ++ path) with
  | false =>
    exact same path content reads dest (.inr rfl) (harmless.skipped path content reads reaches)
  | true =>
    obtain ⟨source,found,data⟩ := reads
    have here := found_iff.mpr ⟨reaches,found⟩
    have file := isFile_iff.mpr ⟨source,content,here,data⟩
    obtain ⟨spot,content',there,-,-,data',written⟩ :=
      (came.passed path (all path source here)).file file
    have leads_ := (found_iff.mp there).2
    have goal := target_of_leads leads_
    rw [extends_.target] at goal
    rw [harmless.kept path content ⟨source,found,data⟩ dest (.inr rfl) spot goal content' written]
      at data'
    exact ⟨spot,leads_,data'⟩

/-- What a link waits for is made by another copy. -/
theorem Came.waits {visited : Set (List ν)} (came : Came sys src dest d visited d')
    {part missing : List ν} {name : ν} (member : part ++ [name] ∈ visited)
    (waits : Waits sys src dest d part name missing) : ∃ other spot, other ≠ part ++ [name] ∧
      Met sys src dest d other ∧ sys.reaches (src ++ other) = true ∧
      target d sys.links (dest ++ other) = some spot ∧ missing <+: spot := by
  obtain ⟨visited₁,e,e',came₁,due,step⟩ := came.due member
  have extends_ := came₁.grown.toExtends
  obtain ⟨⟨place,link,above,there⟩,absent,spot,goal,kind⟩ := waits
  have made : e.entries missing ≠ none := by
    rcases step with copied | ⟨folder,made⟩
    · obtain ⟨source,spot',content,-,file,-,opened,-⟩ := copyFile_yes copied
      obtain ⟨goal',-,-,can,-⟩ := opened_iff.mp opened
      rw [extends_.target,goal] at goal'
      cases goal'
      rcases kind with ⟨-,rfl⟩ | ⟨folder,-⟩
      · rw [can.folder]
        exact Option.some_ne_none _
      · rw [not_isFile (isDirectory_extends extends_ folder)] at file
        cases file
    · rcases kind with ⟨file,-⟩ | ⟨-,rfl⟩
      · have file' := isFile_extends extends_ file
        rw [not_isFile folder] at file'
        cases file'
      · rcases destination_cases made with ⟨folder,-⟩ | ⟨spot',-,free,nothing,same,-⟩
        · obtain ⟨spot',found,-⟩ := isDirectory_iff.mp folder
          have leads_ := (found_iff.mp found).2
          have goal' := target_of_leads leads_
          rw [extends_.target,goal] at goal'
          cases goal'
          exact leads_there leads_
        · -- the link itself is in the way
          rw [← List.append_assoc] at nothing same
          rw [same,canonical_concat (extends_.leads above) nothing,
            (extends_.link _ link).mp there] at free
          cases free
  rcases came₁.new made with before | ⟨other,member,spot',goal',below⟩
  · exact absurd absent before
  · obtain ⟨met,reaches⟩ := came₁.met other member
    refine ⟨other,spot',?_,met,reaches,goal',below⟩
    rintro rfl
    exact due.fresh _ member List.prefix_rfl

theorem allowed_of_yes {turns : Nat}
    (copied : sys.copyDirectory turns src dest d = some (.yes,d')) : Allowed sys src dest d := by
  obtain ⟨visited,came,all⟩ := came_of_yes copied
  have extends_ := came.grown.toExtends
  have passed := fun path source found => came.passed path (all path source found)
  have there : ∀ path source, sys.found (src ++ path) d = some source →
      ∃ spot, sys.found (dest ++ path) d' = some spot ∧
        (d'.entries spot = some .folder ↔ d.entries source = some .folder) := by
    intro path source found
    rcases leads_cases (found_iff.mp found).2 with folder | ⟨content,data⟩
    · obtain ⟨spot,here,folder'⟩ := isDirectory_iff.mp
        ((passed path source found).folder (isDirectory_iff.mpr ⟨source,found,folder⟩))
      exact ⟨spot,here,by rw [folder,folder']⟩
    · obtain ⟨spot,content',here,-,-,data',-⟩ :=
        (passed path source found).file (isFile_iff.mpr ⟨source,content,found,data⟩)
      refine ⟨spot,here,?_⟩
      rw [data,data']
      simp
  refine ⟨(starts_of_yes copied).1,?_,(starts_of_yes copied).2,?_,?_,⟨d',came.grown,?_⟩,?_⟩
  · rintro ⟨rest,rfl⟩
    cases rest with
    | nil => exact List.append_nil src
    | cons name below => exact (inside_not_yes copied).elim
  · intro path source found
    obtain ⟨spot,here,-⟩ := there path source found
    exact ⟨(passed path source found).read source found,(found_iff.mp here).1⟩
  · intro path spot file goal
    obtain ⟨source,content,found,-⟩ := isFile_iff.mp file
    obtain ⟨spot',content',here,writable,whole,-⟩ := (passed path source found).file file
    have goal' := target_of_leads (found_iff.mp here).2
    rw [extends_.target,goal] at goal'
    cases goal'
    exact ⟨writable,whole⟩
  · intro path source found
    obtain ⟨spot,here,kinds⟩ := there path source found
    exact ⟨spot,(found_iff.mp here).2,kinds⟩
  · intro part name missing waits
    have member : part ++ [name] ∈ visited := by
      obtain ⟨-,-,spot,-,⟨file,-⟩ | ⟨folder,-⟩⟩ := waits
      · obtain ⟨source,-,found,-⟩ := isFile_iff.mp file
        exact all _ source found
      · obtain ⟨source,found,-⟩ := isDirectory_iff.mp folder
        exact all _ source found
    exact came.waits member waits

theorem copies_of_harmless (harmless : Allowed sys src dest d → Harmless sys src dest d) :
    Copies sys src dest d :=
  ⟨copyDirectory_terminates sys src dest d,fun _ _ copied =>
    faithful_of_harmless (harmless (allowed_of_yes copied)) copied⟩

end Sufficient
end HmclPe.Io.CopyDirectory
