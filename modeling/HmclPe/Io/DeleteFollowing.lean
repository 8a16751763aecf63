import HmclPe.Io.DeleteDirectory

/-! The other deletion of a directory, of `com.tungsten.hmclpe.utils.file.FileUtils`. It follows
links, and does not look at what becomes of the files in the directory. -/
namespace HmclPe.Io.DeleteFollowing
open HmclPe.Lib.Disks HmclPe.Lib.Folders HmclPe.Lib.SymbolicLinks HmclPe.Io.DeleteDirectory

variable {ν : Type} [DecidableEq ν] {legal : ν → Prop}

section Model

variable (sys : System legal)

/-- The loop over the files of a directory. -/
def deleteFiles
    (deleteDirectory : List (Step ν) → Disk legal (Leaf ν Unit) → Option (Bool × Disk legal (Leaf ν Unit)))
    (path : List (Step ν)) : List ν → Disk legal (Leaf ν Unit) → Option (Disk legal (Leaf ν Unit))
  | [], d => some d
  | name :: files, d =>
    match deleteDirectory (path ++ [.down name]) d with
    | some (_, d) => deleteFiles deleteDirectory path files d
    | none => none

/-- Each turn goes one name down. -/
def deleteDirectory :
    Nat → List (Step ν) → Disk legal (Leaf ν Unit) → Option (Bool × Disk legal (Leaf ν Unit))
  | 0, _, _ => none
  | turns + 1, path, d =>
    if sys.present d path then
      if sys.isFile d path then some (true,(sys.delete d path).2)
      else
        match sys.listFiles d path with
        | none => some (false,d)
        | some files =>
          match deleteFiles (deleteDirectory turns) path files d with
          | none => none
          | some d => some (true,(sys.delete d path).2)
    else some (true,d)

end Model

section Cases

variable {sys : System legal} {d d' : Disk legal (Leaf ν Unit)} {path : List (Step ν)}
  {root place : List ν} {success : Bool}

theorem deleteDirectory_absent {turns : Nat} (absent : sys.way d path = none) :
    deleteDirectory sys (turns + 1) path d = some (true,d) := by
  rw [deleteDirectory,if_neg]
  rw [System.present,absent]
  simp

theorem isFile_of_way {way : Nat × List ν} (found : sys.way d path = some way) :
    sys.isFile d path = d.isFile way.2 := by
  rw [System.isFile,found]

theorem deleteDirectory_cases {turns : Nat}
    (deleted : deleteDirectory sys (turns + 1) path d = some (success,d')) :
    (sys.way d path = none ∧ success = true ∧ d' = d) ∨
      (∃ way, sys.way d path = some way ∧ d.isFile way.2 = true ∧ success = true ∧
        d' = (sys.delete d path).2) ∨
      (sys.way d path ≠ none ∧ sys.isFile d path = false ∧ sys.listFiles d path = none ∧
        success = false ∧ d' = d) ∨
      (∃ left place between, sys.way d path = some (left,place) ∧
        d.entries place = some .folder ∧ sys.listable place = true ∧
        deleteFiles (deleteDirectory sys turns) path (sys.listing d place) d = some between ∧
        success = true ∧ d' = (sys.delete between path).2) := by
  rw [deleteDirectory] at deleted
  cases found : sys.way d path with
  | none =>
    rw [if_neg (by rw [System.present,found]; simp)] at deleted
    cases deleted
    exact .inl ⟨rfl,rfl,rfl⟩
  | some way =>
    rw [if_pos (by rw [System.present,found]; rfl)] at deleted
    split at deleted
    · next file =>
      cases deleted
      rw [isFile_of_way found] at file
      exact .inr (.inl ⟨way,rfl,file,rfl,rfl⟩)
    · next file =>
      split at deleted
      · next unlisted =>
        cases deleted
        exact .inr (.inr (.inl ⟨by simp,Bool.eq_false_of_not_eq_true file,unlisted,rfl,rfl⟩))
      · next files listed =>
        obtain ⟨left,place,here,folder,listable,rfl⟩ := listFiles_iff.mp listed
        rw [found] at here
        split at deleted
        · cases deleted
        · next between through =>
          cases deleted
          exact .inr (.inr (.inr ⟨left,place,between,here,folder,listable,through,rfl,rfl⟩))

omit [DecidableEq ν] in
theorem sub_deleteFiles
    {f : List (Step ν) → Disk legal (Leaf ν Unit) → Option (Bool × Disk legal (Leaf ν Unit))}
    (subs : ∀ path d success d', f path d = some (success,d') → Sub d' d) {files : List ν}
    (deleted : deleteFiles f path files d = some d') : Sub d' d := by
  induction files generalizing d with
  | nil =>
    cases deleted
    exact Sub.refl
  | cons name files ih =>
    rw [deleteFiles] at deleted
    split at deleted
    · next first => exact (ih deleted).trans (subs _ _ _ _ first)
    · cases deleted

theorem sub_delete : Sub (sys.delete d path).2 d :=
  (trims_delete (fun _ _ _ => List.nil_prefix) rfl : Trims [] d (sys.delete d path).2).sub

theorem sub_deleteDirectory {turns : Nat}
    (deleted : deleteDirectory sys turns path d = some (success,d')) : Sub d' d := by
  induction turns generalizing path d success d' with
  | zero => cases deleted
  | succ turns ih =>
    rcases deleteDirectory_cases deleted with ⟨-,-,rfl⟩ | ⟨way,-,-,-,rfl⟩ | ⟨-,-,-,-,rfl⟩ |
      ⟨left,place,between,-,-,-,through,-,rfl⟩
    · exact Sub.refl
    · exact sub_delete
    · exact Sub.refl
    · exact sub_delete.trans (sub_deleteFiles (fun _ _ _ _ => ih) through)

omit [DecidableEq ν] in
theorem deleteFiles_ends {d₀ : Disk legal (Leaf ν Unit)} (sub : Sub d d₀)
    {f : List (Step ν) → Disk legal (Leaf ν Unit) → Option (Bool × Disk legal (Leaf ν Unit))}
    (subs : ∀ path d success d', f path d = some (success,d') → Sub d' d)
    (ends : ∀ name d, Sub d d₀ → ∃ result, f (path ++ [.down name]) d = some result)
    {files : List ν} : ∃ result, deleteFiles f path files d = some result := by
  induction files generalizing d with
  | nil => exact ⟨_,rfl⟩
  | cons name files ih =>
    obtain ⟨⟨success,between⟩,first⟩ := ends name d sub
    rw [deleteFiles,first]
    exact ih ((subs _ _ _ _ first).trans sub)

/-- The number of links on a path is limited, and so is what lies below each of them. -/
theorem deleteDirectory_ends {most turns : Nat}
    (within : ∀ place, d.entries place ≠ none → place.length ≤ most)
    (enough : ∀ way, sys.way d path = some way → reserve most way + 1 < turns) (some_ : 0 < turns) :
    ∃ result, deleteDirectory sys turns path d = some result := by
  induction turns generalizing path d with
  | zero => cases some_
  | succ turns ih =>
    rw [deleteDirectory]
    cases found : sys.way d path with
    | none =>
      rw [if_neg (by rw [System.present,found]; simp)]
      exact ⟨_,rfl⟩
    | some way =>
      have bound := enough way found
      split
      · split
        · exact ⟨_,rfl⟩
        · split
          · exact ⟨_,rfl⟩
          · next files _ =>
            have through : ∃ result,
                deleteFiles (deleteDirectory sys turns) path files d = some result := by
              apply deleteFiles_ends Sub.refl (fun _ _ _ _ => sub_deleteDirectory)
              intro name d' sub
              refine ih (fun place there => within place fun absent => there (sub.absent absent)) ?_
                (by omega)
              intro further found'
              have less := reserve_step within (way_there found)
                (way_onward found (way_sub sub found'))
              rw [Prod.mk.eta] at less
              omega
            obtain ⟨between,through⟩ := through
            rw [through]
            exact ⟨_,rfl⟩
      · exact ⟨_,rfl⟩

theorem deleteDirectory_terminates (sys : System legal) (d : Disk legal (Leaf ν Unit))
    (path : List (Step ν)) : ∃ turns result, deleteDirectory sys turns path d = some result := by
  cases found : sys.way d path with
  | none => exact ⟨1,_,deleteDirectory_absent found⟩
  | some way =>
    refine ⟨reserve d.places.length way + 2,?_⟩
    apply deleteDirectory_ends (fun place there => (d.length_lt_places there).le)
    · intro way' found'
      rw [found] at found'
      cases found'
      exact Nat.lt_succ_self _
    · exact Nat.succ_pos _

end Cases

/-! ## Where links lead to -/

section Leads

/-- Where a link at a place leads to, with so many links left before it. -/
def lead (d : Disk legal (Leaf ν Unit)) : Nat → List ν → Link ν → Option (Nat × List ν)
  | 0, _, _ => none
  | left + 1, place, link => walk d left (link.start place.dropLast) link.target

variable {sys : System legal} {d₀ d d' : Disk legal (Leaf ν Unit)} {path : List (Step ν)}
  {root place : List ν} {left : Nat}

omit [DecidableEq ν] in
theorem walk_lead {folder : List ν} {name : ν} {link : Link ν}
    (there : d.entries (folder ++ [name]) = some (.file (.link link))) :
    walk d left folder [.down name] = lead d left (folder ++ [name]) link := by
  cases left with
  | zero => exact walk_link_none [] there
  | succ left => rw [walk_link left [] there,lead,List.dropLast_concat,List.append_nil]

omit [DecidableEq ν] in
theorem lead_sub (sub : Sub d' d) {link : Link ν} {way : Nat × List ν}
    (found : lead d' left place link = some way) : lead d left place link = some way := by
  cases left with
  | zero => cases found
  | succ left => exact sub.walk found

/-- What a path leads to is what it names, or what the link leads to that it names. -/
theorem landing (sub : Sub d d₀) (located : sys.located d₀ path = some (left,place))
    {way : Nat × List ν} (found : sys.way d path = some way) : way = (left,place) ∨
      ∃ link, d.entries place = some (.file (.link link)) ∧ lead d left place link = some way := by
  have found := resolved_of_way found
  cases path using List.reverseRecOn with
  | nil =>
    left
    have located' : sys.resolved d₀ [] = some (left,place) := located
    rw [resolved_sub sub found] at located'
    exact Option.some.inj located'
  | append_singleton path step =>
    cases step with
    | up =>
      left
      rw [System.located,List.getLast?_concat] at located
      rw [resolved_sub sub found] at located
      exact Option.some.inj located
    | down name =>
      rw [located_concat] at located
      obtain ⟨parent,above,same⟩ := Option.map_eq_some_iff.mp located
      cases same
      rw [resolved_concat] at found
      obtain ⟨parent',above',last⟩ := Option.bind_eq_some_iff.mp found
      rw [resolved_sub sub above'] at above
      cases above
      cases kind : d.entries (parent.2 ++ [name]) with
      | none =>
        rw [walk_none _ _ kind] at last
        cases last
      | some node =>
        by_cases real : ∀ link, node ≠ .file (.link link)
        · left
          rw [walk_down _ _ kind real,walk_nil] at last
          exact (Option.some.inj last).symm
        · right
          push Not at real
          obtain ⟨link,rfl⟩ := real
          rw [walk_lead kind] at last
          exact ⟨link,rfl,last⟩

/-- The path names this place, if anything. -/
theorem inside_located (located : sys.located d₀ path = some (left,place)) :
    Inside sys d₀ place path := by
  intro left' place' found
  rw [located] at found
  cases found
  exact List.prefix_rfl

theorem located_child (found : sys.resolved d₀ path = some (left,place)) (name : ν) :
    sys.located d₀ (path ++ [.down name]) = some (left,place ++ [name]) := by
  rw [located_concat,found]
  rfl

theorem delete_removes {other : List ν} (there : d.entries other ≠ none)
    (gone : (sys.delete d path).2.entries other = none) : ∃ left place,
      sys.located d path = some (left,place) ∧ other = place ∧ sys.deletable place = true ∧
      d.CanRemove place ∧ ∃ name, path.getLast? = some (.down name) := by
  have both : sys.delete d path = ((sys.delete d path).1,(sys.delete d path).2) := rfl
  rcases delete_cases both with
    ⟨-,same⟩ | ⟨-,left,place,located,deletable,can,named,removed⟩
  · rw [same] at gone
    exact absurd gone there
  · rw [removed,Disk.entries_remove can] at gone
    split at gone
    · next here => exact ⟨left,place,located,here,deletable,can,named⟩
    · exact absurd gone there

theorem delete_gone {name : ν} (last : path.getLast? = some (.down name))
    (located : sys.located d path = some (left,place)) (there : d.entries place ≠ none)
    (deletable : sys.deletable place = true) (can : d.CanRemove place) :
    (sys.delete d path).2.entries place = none := by
  rw [System.delete,last,located]
  dsimp only
  rw [if_pos ⟨there,deletable,can⟩,Disk.entries_remove can,if_pos rfl]

/-- As long as an entry of the tree is there, so is all that is outside and all that leads to it. -/
theorem prune_sub (trims : Trims root d₀ d) (there : d.entries place ≠ none) :
    Sub (d₀.prune root place) d := by
  intro other node found
  rw [Disk.entries_prune] at found
  split at found
  · cases found
  · next kept =>
    by_cases above : other <+: place
    · have still : d.entries other ≠ none := by
        by_cases same : other = place
        · rw [same]
          exact there
        · rw [Disk.folder_of_above above same there]
          exact Option.some_ne_none _
      rw [trims.sub.eq still]
      exact found
    · rw [trims.outside other fun below => kept ⟨below,above⟩]
      exact found

omit [DecidableEq ν] in
theorem not_below_self {name : ν} : ¬place ++ [name] <+: place := by
  intro below
  have short := below.length_le
  rw [List.length_append,List.length_singleton] at short
  omega

omit [DecidableEq ν] in
theorem trims_between (first : Sub d' d) (second : Sub d d₀) (trims : Trims root d₀ d') :
    Trims root d₀ d := by
  refine ⟨second,?_⟩
  intro other outside
  have same := trims.outside other outside
  cases kind : d₀.entries other with
  | none => exact second.absent kind
  | some node =>
    rw [kind] at same
    exact first other node same

end Leads

end HmclPe.Io.DeleteFollowing
