import HmclPe.Io.DeleteBeyond

/-! The deletion that follows links, in a tree whose links lead past it: when all of the tree is
removed, and nothing else. -/
namespace HmclPe.Io.DeleteTree
open HmclPe.Lib.Disks HmclPe.Lib.Folders HmclPe.Lib.SymbolicLinks HmclPe.Io.DeleteDirectory
open HmclPe.Io.DeleteFollowing HmclPe.Io.DeleteBeyond

variable {ν : Type} [DecidableEq ν] {legal : ν → Prop}

section Staying

variable {sys : System legal} {d₀ d d' : Disk legal (Leaf ν Unit)} {start path path' : List (Step ν)}
  {root place : List ν} {left : Nat} {success : Bool}

/-- A path goes on, by names, to a place in the tree that another one names. -/
def Part (start : List (Step ν)) (root : List ν) (path : List (Step ν)) (place : List ν) : Prop :=
  ∃ below, path = start ++ below.map .down ∧ place = root ++ below

omit [DecidableEq ν] in
theorem Part.refl : Part path root path root := ⟨[],by simp,by simp⟩

omit [DecidableEq ν] in
theorem Part.child (part : Part start root path place) (name : ν) :
    Part start root (path ++ [.down name]) (place ++ [name]) := by
  obtain ⟨below,rfl,rfl⟩ := part
  exact ⟨below ++ [name],by simp,by simp⟩

omit [DecidableEq ν] in
theorem Part.inside (part : Part start root path place) : root <+: place := by
  obtain ⟨below,-,rfl⟩ := part
  exact List.prefix_append root below

omit [DecidableEq ν] in
theorem Part.unique (part : Part start root path place) (part' : Part start root path' place) :
    path' = path := by
  obtain ⟨below,rfl,rfl⟩ := part
  obtain ⟨below',rfl,same⟩ := part'
  rw [List.append_cancel_left same]

omit [DecidableEq ν] in
theorem deleteFiles_trims
    {f : List (Step ν) → Disk legal (Leaf ν Unit) → Option (Bool × Disk legal (Leaf ν Unit))}
    (inside : root <+: place)
    (trims : ∀ name d success d', Trims root d₀ d → f (path ++ [.down name]) d = some (success,d') →
      Trims (place ++ [name]) d d') (before : Trims root d₀ d) {files : List ν}
    (deleted : deleteFiles f path files d = some d') :
    Sub d' d ∧ ∀ other, (∀ name, ¬place ++ [name] <+: other) → d'.entries other = d.entries other := by
  induction files generalizing d with
  | nil =>
    cases deleted
    exact ⟨Sub.refl,fun _ _ => rfl⟩
  | cons name files ih =>
    rw [deleteFiles] at deleted
    split at deleted
    · next success between first =>
      have here := trims name d success between before first
      have below := inside.trans (List.prefix_append place [name])
      obtain ⟨sub',outside⟩ := ih (before.trans (here.above below)) deleted
      refine ⟨sub'.trans here.sub,?_⟩
      intro other apart
      rw [outside other apart,here.outside other (apart name)]
    · cases deleted

/-- A link in the tree is followed past it, and nothing changes there. -/
theorem quiet_link (away : Away sys d₀ left root) (harmless : Harmless sys d₀ start left root)
    (trims : Trims root d₀ d) (part : Part start root path place) {link : Link ν}
    (links : d.entries place = some (.file (.link link))) {way : Nat × List ν}
    (leads : lead d left place link = some way) (found : sys.way d path = some way)
    (folder : d.entries way.2 = some .folder) (listable : sys.listable way.2 = true) {turns : Nat}
    (through : deleteFiles (DeleteFollowing.deleteDirectory sys turns) path (sys.listing d way.2) d =
      some d') : Sub d d' := by
  have links₀ := trims.sub _ _ links
  have leads₀ := lead_sub trims.sub leads
  have beyond : Beyond sys d₀ left root place way := ⟨part.inside,link,links₀,way,leads₀,.refl⟩
  have there : d.entries place ≠ none := by
    rw [links]
    exact Option.some_ne_none _
  have loop := beyond_files away beyond ⟨trims.sub _ _ folder,listable⟩ trims there found through
  rcases loop with ⟨same,-⟩ | ⟨exposed,-⟩
  · exact same
  · obtain ⟨below,rfl,rfl⟩ := part
    exact absurd exposed (harmless below link way links₀ leads₀)

omit [DecidableEq ν] in
theorem trims_of_same (same : Sub d d') (sub : Sub d' d) : Trims place d d' := by
  refine ⟨sub,fun other _ => ?_⟩
  cases kind : d.entries other with
  | none => exact sub.absent kind
  | some node => exact same _ _ kind

/-- Where nothing can be removed by way of links, a call stays below what its path names. -/
theorem trims_deleteDirectory (away : Away sys d₀ left root)
    (harmless : Harmless sys d₀ start left root) {turns : Nat} (trims : Trims root d₀ d)
    (located : sys.located d₀ path = some (left,place)) (part : Part start root path place)
    (deleted : DeleteFollowing.deleteDirectory sys turns path d = some (success,d')) :
    Trims place d d' := by
  induction turns generalizing path place d success d' with
  | zero => cases deleted
  | succ turns ih =>
    have last : ∀ between, Sub between d₀ → Trims place between (sys.delete between path).2 :=
      fun between sub => (inside_located located).delete sub rfl
    rcases deleteDirectory_cases deleted with ⟨-,-,rfl⟩ | ⟨way,-,-,-,rfl⟩ | ⟨-,-,-,-,rfl⟩ |
      ⟨left',target,between,found,folder,listable,through,-,rfl⟩
    · exact Trims.refl
    · exact last d trims.sub
    · exact Trims.refl
    · have loop : Trims place d between := by
        rcases landing trims.sub located found with here | ⟨link,there,leads⟩
        · cases here
          have step : ∀ name d success d', Trims root d₀ d →
              DeleteFollowing.deleteDirectory sys turns (path ++ [.down name]) d = some (success,d') →
              Trims (place ++ [name]) d d' := by
            intro name d₁ success d₂ trims₁ deleted
            exact ih trims₁ (located_child (resolved_of_way (way_sub trims.sub found)) name)
              (part.child name) deleted
          obtain ⟨sub',outside⟩ := deleteFiles_trims part.inside step trims through
          refine ⟨sub',?_⟩
          intro other apart
          apply outside
          intro name below
          exact apart ((List.prefix_append place [name]).trans below)
        · exact trims_of_same (quiet_link away harmless trims part there leads found folder listable
            through) (sub_deleteFiles (fun _ _ _ _ => sub_deleteDirectory) through)
      exact loop.trans (last between (loop.sub.trans trims.sub))

end Staying

/-! ## What a deletion removes -/

section Removing

variable {sys : System legal} {d₀ d d' : Disk legal (Leaf ν Unit)} {start path : List (Step ν)}
  {root place : List ν} {left : Nat} {success : Bool}

/-- The system looks the entry up and removes it, and the directory that it is or leads to can be
listed. -/
structure Removable (sys : System legal) (d : Disk legal (Leaf ν Unit)) (path : List (Step ν))
    (left : Nat) (place : List ν) : Prop where
  reached : sys.reaches path = true
  deletable : sys.deletable place = true
  listable : d.entries place = some .folder → sys.listable place = true
  leads : ∀ link, d.entries place = some (.file (.link link)) →
    ∃ way, lead d left place link = some way ∧
      (d.entries way.2 = some .folder → sys.listable way.2 = true)

/-- An entry that a deletion removes is one that its path names. -/
theorem delete_removable (sub : Sub d d₀) (located : sys.located d₀ path = some (left,place))
    {between : Disk legal (Leaf ν Unit)} (sub' : Sub between d) {way : Nat × List ν}
    (found : sys.way d path = some way)
    (listable : d.entries way.2 = some .folder → sys.listable way.2 = true) {other : List ν}
    (there : between.entries other ≠ none) (gone : (sys.delete between path).2.entries other = none) :
    other = place ∧ Removable sys d₀ path left place := by
  obtain ⟨left',place',located',rfl,deletable,-,-⟩ := delete_removes there gone
  have same := located_sub (sub'.trans sub) located'
  rw [located] at same
  cases same
  refine ⟨rfl,?_⟩
  rcases landing sub located found with here | ⟨link,links,leads⟩
  · rw [here] at listable
    have kind := sub.eq (sub'.eq there ▸ there)
    refine ⟨reached_of_way found,deletable,?_,?_⟩
    · intro folder
      apply listable
      rw [kind,folder]
    · intro link links
      have real := way_real found link
      rw [here,kind] at real
      exact absurd links real
  · have links' := sub _ _ links
    refine ⟨reached_of_way found,deletable,?_,?_⟩
    · intro folder
      rw [folder] at links'
      cases links'
    · intro link' same
      rw [links'] at same
      cases same
      refine ⟨way,lead_sub sub leads,?_⟩
      intro folder
      apply listable
      rw [sub.eq (way_there found),folder]

omit [DecidableEq ν] in
/-- What a loop removes is removed by one of its calls. -/
theorem deleteFiles_removes {f : List (Step ν) → Disk legal (Leaf ν Unit) →
      Option (Bool × Disk legal (Leaf ν Unit))} {Inv : Disk legal (Leaf ν Unit) → Prop}
    (keeps : ∀ name d success d', Inv d → f (path ++ [.down name]) d = some (success,d') → Inv d')
    (before : Inv d) {files : List ν} (deleted : deleteFiles f path files d = some d')
    {other : List ν} (there : d.entries other ≠ none) (gone : d'.entries other = none) :
    ∃ name d₁ success d₂, Inv d₁ ∧ d₁.entries other ≠ none ∧
      f (path ++ [.down name]) d₁ = some (success,d₂) ∧ d₂.entries other = none := by
  induction files generalizing d with
  | nil =>
    cases deleted
    exact absurd gone there
  | cons name files ih =>
    rw [deleteFiles] at deleted
    split at deleted
    · next success between first =>
      by_cases here : between.entries other = none
      · exact ⟨name,d,success,between,before,there,first,here⟩
      · exact ih (keeps _ _ _ _ before first) deleted here
    · cases deleted

/-- Each entry that a call removes could be removed. -/
theorem removed_removable (away : Away sys d₀ left root)
    (harmless : Harmless sys d₀ start left root) {turns : Nat} (trims : Trims root d₀ d)
    (located : sys.located d₀ path = some (left,place)) (part : Part start root path place)
    (deleted : DeleteFollowing.deleteDirectory sys turns path d = some (success,d'))
    {other : List ν} (there : d.entries other ≠ none) (gone : d'.entries other = none) :
    ∃ named, Part start root named other ∧ Removable sys d₀ named left other := by
  induction turns generalizing path place d success d' with
  | zero => cases deleted
  | succ turns ih =>
    -- an entry that the last step removes is the one that the path names
    have last {between : Disk legal (Leaf ν Unit)} (sub' : Sub between d) {way : Nat × List ν}
        (found : sys.way d path = some way)
        (listable : d.entries way.2 = some .folder → sys.listable way.2 = true)
        (there : between.entries other ≠ none)
        (gone : (sys.delete between path).2.entries other = none) :
        ∃ named, Part start root named other ∧ Removable sys d₀ named left other := by
      obtain ⟨rfl,removable⟩ := delete_removable trims.sub located sub' found listable there gone
      exact ⟨path,part,removable⟩
    rcases deleteDirectory_cases deleted with ⟨-,-,rfl⟩ | ⟨way,found,file,-,rfl⟩ | ⟨-,-,-,-,rfl⟩ |
      ⟨left',target,between,found,folder,listable,through,-,rfl⟩
    · exact absurd gone there
    · refine last Sub.refl found ?_ there gone
      intro folder
      rw [FileSystem.not_isFile_of_folder folder] at file
      cases file
    · exact absurd gone there
    · have sub' := sub_deleteFiles (fun _ _ _ _ => sub_deleteDirectory) through
      by_cases between_ : between.entries other = none
      · rcases landing trims.sub located found with here | ⟨link,links,leads⟩
        · cases here
          have child (name : ν) := located_child (resolved_of_way (way_sub trims.sub found)) name
          obtain ⟨name,d₁,success₁,d₂,trims₁,there₁,call,gone₂⟩ :=
            deleteFiles_removes (fun name d₁ success₁ d₂ trims₁ call => trims₁.trans
              ((trims_deleteDirectory away harmless trims₁ (child name) (part.child name) call).above
                (part.child name).inside)) trims through there between_
          exact ih trims₁ (child name) (part.child name) call there₁ gone₂
        · have same := quiet_link away harmless trims part links leads found folder listable through
          exact absurd (same.absent between_) there
      · exact last sub' found (fun _ => listable) between_ gone

/-- As long as something stands there, the path leads to its folder. -/
def Open (sys : System legal) (d₀ : Disk legal (Leaf ν Unit)) (root : List ν) (left : Nat)
    (path : List (Step ν)) (folder : List ν) (name : ν) : Prop :=
  ∀ d, Trims root d₀ d → d.entries (folder ++ [name]) ≠ none →
    sys.resolved d path = some (left,folder)

theorem Open.child {folder : List ν} {name : ν} (open_ : Open sys d₀ root left path folder name)
    (next : ν) : Open sys d₀ root left (path ++ [.down name]) (folder ++ [name]) next := by
  intro d trims there
  have above := (d.closed _ _ there).1
  rw [resolved_concat,open_ d trims (by rw [above]; exact Option.some_ne_none _),Option.bind_some,
    walk_down _ _ above (by simp),walk_nil]

omit [DecidableEq ν] in
theorem deleteFiles_clears {f : List (Step ν) → Disk legal (Leaf ν Unit) →
      Option (Bool × Disk legal (Leaf ν Unit))}
    (trims : ∀ name d success d', Trims root d₀ d → f (path ++ [.down name]) d = some (success,d') →
      Trims root d d')
    (clears : ∀ name d success d', Trims root d₀ d → f (path ++ [.down name]) d = some (success,d') →
      d'.entries (place ++ [name]) = none) (before : Trims root d₀ d) {files : List ν}
    (deleted : deleteFiles f path files d = some d') :
    Trims root d d' ∧ ∀ name ∈ files, d'.entries (place ++ [name]) = none := by
  induction files generalizing d with
  | nil =>
    cases deleted
    exact ⟨Trims.refl,fun _ member => by cases member⟩
  | cons name files ih =>
    rw [deleteFiles] at deleted
    split at deleted
    · next success between first =>
      have here := trims name d success between before first
      obtain ⟨later,gone⟩ := ih (before.trans here) deleted
      refine ⟨here.trans later,?_⟩
      intro other member
      rcases List.mem_cons.mp member with rfl | member
      · exact later.sub.absent (clears other d success between before first)
      · exact gone other member
    · cases deleted

/-- Where the path leads to: a link in the tree leads past what was removed so far. -/
theorem landed (away : Away sys d₀ left root) {folder : List ν} {name : ν}
    (removable : Removable sys d₀ (path ++ [.down name]) left (folder ++ [name]))
    (trims : Trims root d₀ d) (inside : root <+: folder ++ [name])
    (parent : sys.resolved d path = some (left,folder))
    (there : d.entries (folder ++ [name]) ≠ none) :
    ∃ way, sys.way d (path ++ [.down name]) = some way ∧
      (way = (left,folder ++ [name]) ∨
        ∃ link, d.entries (folder ++ [name]) = some (.file (.link link)) ∧
          lead d left (folder ++ [name]) link = some way) ∧
      (d.entries way.2 = some .folder → sys.listable way.2 = true) := by
  have first := trims.sub.eq there
  rw [way_reached removable.reached,resolved_concat,parent,Option.bind_some]
  cases kind : d.entries (folder ++ [name]) with
  | none => exact absurd kind there
  | some node =>
    by_cases real : ∀ link, node ≠ .file (.link link)
    · refine ⟨(left,folder ++ [name]),?_,.inl rfl,?_⟩
      · rw [walk_down _ _ kind real,walk_nil]
      · intro folder'
        apply removable.listable
        rw [← first,folder']
    · push Not at real
      obtain ⟨link,rfl⟩ := real
      rw [kind] at first
      obtain ⟨way,leads,listable⟩ := removable.leads link first.symm
      have past := away.past _ link way inside first.symm leads
      have still := lead_sub (prune_sub trims there) past
      refine ⟨way,?_,.inr ⟨link,rfl,still⟩,?_⟩
      · rw [walk_lead kind,still]
      · intro folder'
        exact listable (trims.sub _ _ folder')

/-- The directory itself goes when all that was listed in it is gone. -/
theorem delete_emptied {folder : List ν} {name : ν}
    (open_ : Open sys d₀ root left path folder name) {between : Disk legal (Leaf ν Unit)}
    (trims : Trims root d₀ d) (trims' : Trims root d between)
    (deletable : sys.deletable (folder ++ [name]) = true)
    (gone : ∀ next ∈ sys.listing d (folder ++ [name]),
      between.entries (folder ++ [name] ++ [next]) = none) :
    (sys.delete between (path ++ [.down name])).2.entries (folder ++ [name]) = none := by
  by_cases still : between.entries (folder ++ [name]) = none
  · exact sub_delete.absent still
  · have parent := open_ between (trims.trans trims') still
    refine delete_gone List.getLast?_concat (located_child parent name) still deletable
      ⟨by simp,?_⟩
    rw [List.eq_nil_iff_forall_not_mem]
    intro next member
    rw [Disk.mem_children] at member
    apply member
    apply gone next
    rw [(sys.listing_perm _ _).mem_iff,Disk.mem_children]
    exact fun absent => member (trims'.sub.absent absent)

theorem listFiles_folder {way : Nat × List ν} (found : sys.way d path = some way)
    (file : sys.isFile d path = false)
    (listed : d.entries way.2 = some .folder → sys.listable way.2 = true) :
    sys.listFiles d path ≠ none := by
  have folder := folder_of_unlisted found file
  rw [listFiles_iff.mpr ⟨way.1,way.2,found,folder,listed folder,rfl⟩]
  exact Option.some_ne_none _

/-- Where all can be removed, and the path does not lead through the tree, a call leaves nothing. -/
theorem clears_deleteDirectory (away : Away sys d₀ left root)
    (harmless : Harmless sys d₀ start left root)
    (removable : ∀ below, d₀.entries (root ++ below) ≠ none →
      Removable sys d₀ (start ++ below.map .down) left (root ++ below))
    {turns : Nat} {folder : List ν} {name : ν} (open_ : Open sys d₀ root left path folder name)
    (trims : Trims root d₀ d) (part : Part start root (path ++ [.down name]) (folder ++ [name]))
    (deleted : DeleteFollowing.deleteDirectory sys turns (path ++ [.down name]) d =
      some (success,d')) :
    d'.entries (folder ++ [name]) = none := by
  induction turns generalizing path folder name d success d' with
  | zero => cases deleted
  | succ turns ih =>
    by_cases there : d.entries (folder ++ [name]) = none
    · exact (sub_deleteDirectory deleted).absent there
    · have parent := open_ d trims there
      have here : Removable sys d₀ (path ++ [.down name]) left (folder ++ [name]) := by
        obtain ⟨below,named,place_⟩ := part
        rw [named,place_]
        apply removable
        rw [← place_,← trims.sub.eq there]
        exact there
      have leaf (between : Disk legal (Leaf ν Unit)) (same : Sub d between) (sub : Sub between d)
          (other : d.entries (folder ++ [name]) ≠ some .folder) :
          (sys.delete between (path ++ [.down name])).2.entries (folder ++ [name]) = none := by
        refine delete_gone List.getLast?_concat (located_child (resolved_sub same parent) name)
          (fun absent => there (same.absent absent)) here.deletable ⟨by simp,?_⟩
        exact between.children_nil fun folder' => other (sub _ _ folder')
      obtain ⟨way,found,landing,listed⟩ := landed away here trims part.inside parent there
      rcases deleteDirectory_cases deleted with ⟨absent,-,-⟩ | ⟨way',found',file,-,rfl⟩ |
        ⟨-,file,unlisted,-,-⟩ | ⟨left',target,between,found',folder',listable',through,-,rfl⟩
      · rw [found] at absent
        cases absent
      · rw [found] at found'
        cases found'
        apply leaf d Sub.refl Sub.refl
        intro folder'
        rcases landing with rfl | ⟨link,links,-⟩
        · rw [FileSystem.not_isFile_of_folder folder'] at file
          cases file
        · rw [folder'] at links
          cases links
      · exact absurd unlisted (listFiles_folder found file listed)
      · rw [found] at found'
        cases found'
        rcases landing with same | ⟨link,links,leads⟩
        · cases same
          have known : sys.resolved d₀ (path ++ [.down name]) = some (left,folder ++ [name]) :=
            resolved_of_way (way_sub trims.sub found)
          obtain ⟨trims',gone⟩ := deleteFiles_clears
            (fun next d₁ success d₂ trims₁ deleted₁ =>
              (trims_deleteDirectory away harmless trims₁ (located_child known next)
                (part.child next) deleted₁).above (part.child next).inside)
            (fun next d₁ success d₂ trims₁ deleted₁ =>
              ih (open_.child next) trims₁ (part.child next) deleted₁) trims through
          exact delete_emptied open_ trims trims' here.deletable gone
        · have same := quiet_link away harmless trims part links leads found folder' listable' through
          have sub := sub_deleteFiles (fun _ _ _ _ => sub_deleteDirectory) through
          apply leaf between same sub
          rw [links]
          simp

end Removing

/-! ## When it does what is asked -/

section Main

variable {sys : System legal} {d d' : Disk legal (Leaf ν Unit)} {path : List (Step ν)}
  {root : List ν} {left : Nat} {success : Bool}

/-- Everything in the tree can be removed, and the path to it does not lead through it. -/
structure Clearable (sys : System legal) (d : Disk legal (Leaf ν Unit)) (path : List (Step ν))
    (left : Nat) (root : List ν) : Prop where
  named : ∃ name, path.getLast? = some (.down name)
  independent : sys.resolved (d.prune root root) path.dropLast = some (left,root.dropLast)
  removable : ∀ below, d.entries (root ++ below) ≠ none →
    Removable sys d (path ++ below.map .down) left (root ++ below)

/-- The path leads to a directory that can not be listed. -/
def Unlisted (sys : System legal) (d : Disk legal (Leaf ν Unit)) (path : List (Step ν)) : Prop :=
  sys.way d path ≠ none ∧ sys.isFile d path = false ∧ sys.listFiles d path = none

/-- The path leads somewhere, and either to a directory that can not be listed, where no success is
reported, or all can be removed and nothing else. -/
structure Ready (sys : System legal) (d : Disk legal (Leaf ν Unit)) (path : List (Step ν))
    (left : Nat) (root : List ν) : Prop where
  found : sys.way d path ≠ none
  rest : Unlisted sys d path ∨ Clearable sys d path left root ∧ Harmless sys d path left root

def fileDeletes (sys : System legal) (d : Disk legal (Leaf ν Unit)) (path : List (Step ν)) (turns : Nat) :
    Option (Bool × Disk legal (Leaf ν Unit)) :=
  DeleteFollowing.deleteDirectory sys turns path d

theorem unlisted_of_failure {turns : Nat}
    (deleted : DeleteFollowing.deleteDirectory sys turns path d = some (false,d')) :
    Unlisted sys d path := by
  cases turns with
  | zero => cases deleted
  | succ turns =>
    rcases deleteDirectory_cases deleted with ⟨-,no,-⟩ | ⟨-,-,-,no,-⟩ | ⟨found,file,unlisted,-⟩ |
      ⟨-,-,-,-,-,-,-,no,-⟩
    · cases no
    · cases no
    · exact ⟨found,file,unlisted⟩
    · cases no

theorem failure_of_unlisted {turns : Nat} (unlisted : Unlisted sys d path)
    (deleted : DeleteFollowing.deleteDirectory sys turns path d = some (success,d')) :
    success = false ∧ d' = d := by
  obtain ⟨found,file,unlisted⟩ := unlisted
  cases turns with
  | zero => cases deleted
  | succ turns =>
    rcases deleteDirectory_cases deleted with ⟨absent,-,-⟩ | ⟨way,here,file',-,-⟩ | ⟨-,-,-,no,same⟩ |
      ⟨left,place,-,here,folder,listable,-,-,-⟩
    · exact absurd absent found
    · rw [isFile_of_way here,file'] at file
      cases file
    · exact ⟨no,same⟩
    · have listing := listFiles_iff.mpr ⟨left,place,here,folder,listable,rfl⟩
      rw [unlisted] at listing
      cases listing

theorem clearable_open (located : sys.located d path = some (left,root))
    (clearable : Clearable sys d path left root) :
    ∃ parent folder name, path = parent ++ [.down name] ∧ root = folder ++ [name] ∧
      Open sys d root left parent folder name := by
  obtain ⟨⟨name,last⟩,independent,-⟩ := clearable
  cases path using List.reverseRecOn with
  | nil => cases last
  | append_singleton parent step =>
    rw [List.getLast?_concat] at last
    cases last
    rw [located_concat] at located
    obtain ⟨way,above,same⟩ := Option.map_eq_some_iff.mp located
    cases same
    refine ⟨parent,way.2,name,rfl,rfl,?_⟩
    intro d₁ trims there
    rw [List.dropLast_concat,List.dropLast_concat] at independent
    exact resolved_sub (prune_sub trims there) independent

theorem gone_of_clearable (away : Away sys d left root) (harmless : Harmless sys d path left root)
    (located : sys.located d path = some (left,root))
    (clearable : Clearable sys d path left root) {turns : Nat}
    (deleted : DeleteFollowing.deleteDirectory sys turns path d = some (success,d')) :
    d'.entries root = none := by
  obtain ⟨parent,folder,name,rfl,rfl,open_⟩ := clearable_open located clearable
  exact clears_deleteDirectory away harmless clearable.removable open_ Trims.refl Part.refl deleted

/-- A call that removes its root does so by its last deletion. -/
theorem ended_of_gone (away : Away sys d left root) (harmless : Harmless sys d path left root)
    (located : sys.located d path = some (left,root)) (there : d.entries root ≠ none) {turns : Nat}
    (deleted : DeleteFollowing.deleteDirectory sys turns path d = some (success,d'))
    (gone : d'.entries root = none) :
    ∃ between, Trims root d between ∧ between.entries root ≠ none ∧
      d' = (sys.delete between path).2 := by
  cases turns with
  | zero => cases deleted
  | succ turns =>
    rcases deleteDirectory_cases deleted with ⟨-,-,rfl⟩ | ⟨-,-,-,-,same⟩ | ⟨-,-,-,-,rfl⟩ |
      ⟨left',target,between,found,folder,listable,through,-,same⟩
    · exact absurd gone there
    · exact ⟨d,Trims.refl,there,same⟩
    · exact absurd gone there
    · rcases landing Sub.refl located found with here | ⟨link,links,leads⟩
      · cases here
        obtain ⟨sub,outside⟩ := deleteFiles_trims List.prefix_rfl
          (fun name d₁ success d₂ trims₁ deleted₁ => trims_deleteDirectory away harmless trims₁
            (located_child (resolved_of_way found) name) (Part.refl.child name) deleted₁)
          Trims.refl through
        refine ⟨between,⟨sub,?_⟩,?_,same⟩
        · intro other apart
          apply outside
          intro name below
          exact apart ((List.prefix_append root [name]).trans below)
        · rw [outside root fun name => not_below_self]
          exact there
      · have quiet := quiet_link away harmless Trims.refl Part.refl links leads found folder
          listable through
        have sub := sub_deleteFiles (fun _ _ _ _ => sub_deleteDirectory) through
        exact ⟨between,trims_of_same quiet sub,fun absent => there (quiet.absent absent),same⟩

/-- When its root can be removed, nothing is left of a tree but what the pruned disk has. -/
theorem sub_prune {between : Disk legal (Leaf ν Unit)} (trims : Trims root d between)
    (can : between.CanRemove root) : Sub between (d.prune root root) := by
  intro other node found
  rw [Disk.entries_prune,if_neg]
  · exact trims.sub other node found
  · rintro ⟨⟨below,rfl⟩,away⟩
    have some_ : below ≠ [] := by
      rintro rfl
      exact away (by rw [List.append_nil])
    rw [Disk.none_of_children between can.empty some_] at found
    cases found

omit [DecidableEq ν] in
theorem gone_inside {place : List ν} (inside : root <+: place) (gone : d.entries root = none) :
    d.entries place = none := by
  obtain ⟨below,rfl⟩ := inside
  by_cases top : below = []
  · rw [top,List.append_nil]
    exact gone
  · exact Disk.none_below top (by rw [gone]; simp)

/-- A root that is gone was removed by the last deletion, when nothing else was left of the tree. -/
theorem clearable_of_gone (away : Away sys d left root) (harmless : Harmless sys d path left root)
    (located : sys.located d path = some (left,root)) (there : d.entries root ≠ none) {turns : Nat}
    (deleted : DeleteFollowing.deleteDirectory sys turns path d = some (success,d'))
    (gone : d'.entries root = none) : Clearable sys d path left root := by
  have removable : ∀ below, d.entries (root ++ below) ≠ none →
      Removable sys d (path ++ below.map .down) left (root ++ below) := by
    intro below there'
    obtain ⟨named,part,removable⟩ := removed_removable away harmless Trims.refl located Part.refl
      deleted there' (gone_inside (List.prefix_append root below) gone)
    rw [part.unique ⟨below,rfl,rfl⟩]
    exact removable
  obtain ⟨between,trims,still,rfl⟩ := ended_of_gone away harmless located there deleted gone
  obtain ⟨left',place',located',here,-,can,named⟩ := delete_removes still gone
  refine ⟨named,?_,removable⟩
  obtain ⟨name,last⟩ := named
  rw [← here] at can
  rw [System.located,last] at located located'
  obtain ⟨way,above,same⟩ := Option.map_eq_some_iff.mp located
  obtain ⟨way',above',-⟩ := Option.map_eq_some_iff.mp located'
  have equal := resolved_sub trims.sub above'
  rw [above] at equal
  cases equal
  cases same
  rw [List.dropLast_concat]
  exact resolved_sub (sub_prune trims can) above'

omit [DecidableEq ν] in
/-- Nothing that a loop's calls keep is removed by the loop, as long as the places outside are left
alone. -/
theorem deleteFiles_keeps {d₀ : Disk legal (Leaf ν Unit)}
    {f : List (Step ν) → Disk legal (Leaf ν Unit) → Option (Bool × Disk legal (Leaf ν Unit))} {place : List ν}
    (subs : ∀ path d success d', f path d = some (success,d') → Sub d' d)
    (keeps : ∀ name d success d', Trims root d₀ d → Trims root d₀ d' →
      f (path ++ [.down name]) d = some (success,d') → d.entries place ≠ none →
      d'.entries place ≠ none) {files : List ν}
    (sub : Sub d d₀) (trims : Trims root d₀ d') (through : deleteFiles f path files d = some d')
    (there : d.entries place ≠ none) : d'.entries place ≠ none := by
  induction files generalizing d with
  | nil =>
    cases through
    exact there
  | cons next files ih =>
    have before := trims_between (sub_deleteFiles subs through) sub trims
    rw [deleteFiles] at through
    split at through
    · next success between first =>
      have sub' := (subs _ _ _ _ first).trans sub
      have trims' := trims_between (sub_deleteFiles subs through) sub' trims
      exact ih sub' through (keeps _ _ _ _ before trims' first there)
    · cases through

/-- A link by way of which something outside can be removed stays as long as nothing is: the call
that would remove it goes through the directory first. -/
theorem exposed_stays {d₀ : Disk legal (Leaf ν Unit)} {place other : List ν} {link : Link ν}
    {way : Nat × List ν} {start named : List (Step ν)} (away : Away sys d₀ left root)
    (links : d₀.entries other = some (.file (.link link)))
    (leads : lead d₀ left other link = some way) (to_link : Part start root named other)
    (exposed : Exposed sys d₀ named way) {turns : Nat}
    (trims : Trims root d₀ d) (trims' : Trims root d₀ d')
    (located : sys.located d₀ path = some (left,place)) (part : Part start root path place)
    (deleted : DeleteFollowing.deleteDirectory sys turns path d = some (success,d'))
    (there : d.entries other ≠ none) : d'.entries other ≠ none := by
  induction turns generalizing path place d success d' with
  | zero => cases deleted
  | succ turns ih =>
    have here := (trims.sub.eq there).trans links
    -- the last step removes what the path names
    have last {between : Disk legal (Leaf ν Unit)} (sub : Sub between d)
        (still : between.entries other ≠ none)
        (gone : (sys.delete between path).2.entries other = none) : other = place := by
      obtain ⟨left',place',located',rfl,-⟩ := delete_removes still gone
      have same := located_sub (sub.trans trims.sub) located'
      rw [located] at same
      cases same
      rfl
    -- a call that names the link comes to where it leads
    have lands {on : Nat × List ν} (found : sys.way d path = some on) (same : other = place) :
        on = way := by
      subst same
      rcases landing trims.sub located found with rfl | ⟨link',links',leads'⟩
      · exact absurd here (way_real found link)
      · rw [here] at links'
        cases links'
        have first := lead_sub trims.sub leads'
        rw [leads] at first
        cases first
        rfl
    rcases deleteDirectory_cases deleted with ⟨-,-,rfl⟩ | ⟨on,found,file,-,rfl⟩ |
      ⟨-,-,-,-,rfl⟩ | ⟨left',target,between,found,folder,listable,through,-,rfl⟩
    · exact there
    · intro gone
      have same := lands found (last Sub.refl there gone)
      obtain ⟨content,file⟩ := FileSystem.isFile_iff.mp file
      rw [same] at file
      have folder := (exposed_iff.mp exposed).1.1
      rw [trims.sub _ _ file] at folder
      cases folder
    · exact there
    · have sub := sub_deleteFiles (fun _ _ _ _ => sub_deleteDirectory) through
      have between_ := trims_between sub_delete (sub.trans trims.sub) trims'
      rcases landing trims.sub located found with at_ | ⟨link',links',leads'⟩
      · cases at_
        have still := deleteFiles_keeps (fun _ _ _ _ => sub_deleteDirectory)
          (fun name d₁ success d₂ trims₁ trims₂ call there₁ => ih trims₁ trims₂
            (located_child (resolved_of_way (way_sub trims.sub found)) name) (part.child name) call
            there₁) trims.sub between_ through there
        intro gone
        rw [last sub still gone,folder] at here
        cases here
      · have beyond : Beyond sys d₀ left root place (left',target) :=
          ⟨part.inside,link',trims.sub _ _ links',_,lead_sub trims.sub leads',.refl⟩
        have there' : d.entries place ≠ none := by
          rw [links']
          exact Option.some_ne_none _
        have loop := beyond_files away beyond ⟨trims.sub _ _ folder,listable⟩ trims there' found through
        rcases loop with ⟨same,quiet⟩ | ⟨-,lost⟩
        · intro gone
          have at_ := last sub (fun absent => there (same.absent absent)) gone
          rw [lands found at_] at quiet
          subst at_
          rw [part.unique to_link] at exposed
          exact quiet exposed
        · exact absurd lost (not_lost between_)

/-- What a deletion that does what is asked leaves alone. -/
theorem deletes_trims (deletes : Deletes sys d path (fileDeletes sys d path))
    (located : sys.located d path = some (left,root)) {turns : Nat}
    (run : fileDeletes sys d path turns = some (success,d')) : Trims root d d' := by
  refine ⟨sub_deleteDirectory run,?_⟩
  intro other outside
  apply deletes.inside turns success d' run other
  intro left' root' located'
  rw [located] at located'
  cases located'
  exact outside

theorem located_there (located : sys.located d path = some (left,root))
    (found : sys.way d path ≠ none) : d.entries root ≠ none := by
  obtain ⟨way,found⟩ := Option.ne_none_iff_exists'.mp found
  rcases landing Sub.refl located found with rfl | ⟨link,links,-⟩
  · exact way_there found
  · rw [links]
    exact Option.some_ne_none _

/-- `utils.file.FileUtils.deleteDirectory`, where nothing that the links in the tree lead to leads
back: it does what is asked exactly where the path leads to something and all can be removed but
nothing else, or nothing can be listed. -/
theorem fileDeletes_iff (sys : System legal) (d : Disk legal (Leaf ν Unit)) (path : List (Step ν))
    (away : ∀ left root, sys.located d path = some (left,root) →
      Unlisted sys d path ∨ Away sys d left root) :
    Deletes sys d path (fileDeletes sys d path) ↔
      ∀ left root, sys.located d path = some (left,root) → d.entries root ≠ none →
        Ready sys d path left root := by
  constructor
  · intro deletes left root located there
    have found : sys.way d path ≠ none := by
      intro absent
      exact there (deletes.gone 1 d (deleteDirectory_absent absent) left root located)
    refine ⟨found,?_⟩
    rcases away left root located with unlisted | away
    · exact .inl unlisted
    · obtain ⟨turns,⟨success,d'⟩,run⟩ := deletes.ends
      cases success with
      | false => exact .inl (unlisted_of_failure run)
      | true =>
        have gone := deletes.gone turns d' run left root located
        have harmless : Harmless sys d path left root := by
          intro below link way links leads exposed
          have here : d.entries (root ++ below) ≠ none := by
            rw [links]
            exact Option.some_ne_none _
          exact exposed_stays away links leads ⟨below,rfl,rfl⟩ exposed Trims.refl
            (deletes_trims deletes located run) located Part.refl run here
            (gone_inside (List.prefix_append root below) gone)
        exact .inr ⟨clearable_of_gone away harmless located there run gone,harmless⟩
  · intro ready
    refine ⟨deleteDirectory_terminates sys d path,?_,?_⟩
    · intro turns success d' run place outside
      by_cases found : sys.way d path = none
      · cases turns with
        | zero => cases run
        | succ turns =>
          rw [fileDeletes,DeleteFollowing.deleteDirectory_absent found] at run
          cases run
          rfl
      · obtain ⟨⟨left,root⟩,located⟩ := Option.ne_none_iff_exists'.mp (mt way_none found)
        have there := located_there located found
        rcases (ready left root located there).rest with unlisted | ⟨-,harmless⟩
        · rw [(failure_of_unlisted unlisted run).2]
        · rcases away left root located with unlisted | away
          · rw [(failure_of_unlisted unlisted run).2]
          · exact (trims_deleteDirectory away harmless Trims.refl located Part.refl run).outside place
              (outside left root located)
    · intro turns d' run left root located
      by_cases there : d.entries root = none
      · exact (sub_deleteDirectory run).absent there
      · obtain ⟨found,unlisted | ⟨clearable,harmless⟩⟩ := ready left root located there
        · cases (failure_of_unlisted unlisted run).1
        · rcases away left root located with unlisted | away
          · cases (failure_of_unlisted unlisted run).1
          · exact gone_of_clearable away harmless located clearable run

end Main

end HmclPe.Io.DeleteTree
