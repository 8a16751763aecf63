import HmclPe.Lib.SymbolicLinks

/-! Where a path through symbolic links leads to once what it misses has been made, and what making
files and folders does to every other path. -/
namespace HmclPe.Lib.Courses
open HmclPe.Lib.Disks HmclPe.Lib.Folders HmclPe.Lib.SymbolicLinks

variable {ν β : Type} {legal : ν → Prop}

/-! ## The course of a path -/

def courseWith (d : Disk legal (Leaf ν β)) (links : Nat)
    (follow : List ν → List (Step ν) → Option (Nat × List ν)) :
    List ν → List (Step ν) → Option (Nat × List ν)
  | place, [] => some (links,place)
  | place, .up :: path => courseWith d links follow place.dropLast path
  | place, .down name :: path =>
    match d.entries (place ++ [name]) with
    | some (.file (.link link)) => follow (link.start place) (link.target ++ path)
    | _ => courseWith d links follow (place ++ [name]) path

/-- As `walk`, but what is absent is passed like a folder. -/
def course (d : Disk legal (Leaf ν β)) : Nat → List ν → List (Step ν) → Option (Nat × List ν)
  | 0 => courseWith d 0 fun _ _ => none
  | links + 1 => courseWith d (links + 1) (course d links)

section Course

variable {d d' : Disk legal (Leaf ν β)} (links : Nat) {place : List ν} (path : List (Step ν))
  {name : ν}

@[simp]
theorem course_nil : course d links place [] = some (links,place) := by
  cases links <;> rfl

theorem course_up : course d links place (.up :: path) = course d links place.dropLast path := by
  cases links <;> rfl

theorem course_down (real : ∀ link, d.entries (place ++ [name]) ≠ some (.file (.link link))) :
    course d links place (.down name :: path) = course d links (place ++ [name]) path := by
  cases there : d.entries (place ++ [name]) with
  | none => cases links <;> simp [course,courseWith,there]
  | some node =>
    cases node with
    | folder => cases links <;> simp [course,courseWith,there]
    | file leaf =>
      cases leaf with
      | data content => cases links <;> simp [course,courseWith,there]
      | link link => exact absurd there (real link)

variable {link : Link ν}

theorem course_link (there : d.entries (place ++ [name]) = some (.file (.link link))) :
    course d (links + 1) place (.down name :: path) =
      course d links (link.start place) (link.target ++ path) := by
  simp [course,courseWith,there]

theorem course_link_none (there : d.entries (place ++ [name]) = some (.file (.link link))) :
    course d 0 place (.down name :: path) = none := by
  simp [course,courseWith,there]

/-- A way is the course of its path. -/
theorem course_of_walk {links : Nat} {path : List (Step ν)} {way : Nat × List ν}
    (found : walk d links place path = some way) : course d links place path = some way := by
  induction links,place,path using walk_induction d with
  | nil links place =>
    rw [walk_nil] at found
    rw [course_nil,found]
  | up links place path ih =>
    rw [walk_up] at found
    rw [course_up]
    split at found
    · exact ih found
    · cases found
  | none links place name path absent =>
    rw [walk_none _ _ absent] at found
    cases found
  | down links place name path node there real ih =>
    rw [walk_down _ _ there real] at found
    rw [course_down _ _ (by rw [there]; exact fun link same => real link (Option.some.inj same))]
    exact ih found
  | last place name path link there =>
    rw [walk_link_none _ there] at found
    cases found
  | link links place name path link there ih =>
    rw [walk_link _ _ there] at found
    rw [course_link _ _ there]
    exact ih found

theorem course_append (d : Disk legal (Leaf ν β)) (links : Nat) (place : List ν)
    (path further : List (Step ν)) : course d links place (path ++ further) =
      (course d links place path).bind fun way => course d way.1 way.2 further := by
  induction links,place,path using path_induction d with
  | nil links place => simp
  | up links place path ih =>
    rw [List.cons_append,course_up,course_up]
    exact ih
  | down links place name path real ih =>
    rw [List.cons_append,course_down _ _ real,course_down _ _ real]
    exact ih
  | last place name path link there =>
    rw [List.cons_append,course_link_none _ there,course_link_none _ there]
    rfl
  | link links place name path link there ih =>
    rw [List.cons_append,course_link _ _ there,course_link _ _ there,← List.append_assoc]
    exact ih

/-- No course ends on a link, nor below one. -/
theorem course_real {links left : Nat} {target : List ν} {path : List (Step ν)}
    (real : ∀ part, part <+: place → ∀ link, d.entries part ≠ some (.file (.link link)))
    (found : course d links place path = some (left,target)) :
    ∀ part, part <+: target → ∀ link, d.entries part ≠ some (.file (.link link)) := by
  induction links,place,path using path_induction d with
  | nil links place =>
    rw [course_nil] at found
    cases found
    exact real
  | up links place path ih =>
    rw [course_up] at found
    exact ih (fun part above => real part (above.trans (List.dropLast_prefix place))) found
  | down links place name path real' ih =>
    rw [course_down _ _ real'] at found
    refine ih ?_ found
    intro part above
    rcases List.prefix_concat_iff.mp above with rfl | above
    · exact real'
    · exact real part above
  | last place name path link there =>
    rw [course_link_none _ there] at found
    cases found
  | link links place name path link there ih =>
    rw [course_link _ _ there] at found
    refine ih ?_ found
    intro part above
    rw [Link.start] at above
    split at above
    · rw [List.prefix_nil.mp above,d.root]
      simp
    · exact real part above

end Course

/-! ## Making files and folders -/

section Extends

/-- Files and folders are made, and contents changed: everything is still of its kind, and there are
the same links. -/
structure Extends (d d' : Disk legal (Leaf ν β)) : Prop where
  folder : ∀ place, d.entries place = some .folder → d'.entries place = some .folder
  data : ∀ place content, d.entries place = some (.file (.data content)) →
    ∃ content', d'.entries place = some (.file (.data content'))
  link : ∀ place link, d.entries place = some (.file (.link link)) ↔
    d'.entries place = some (.file (.link link))

variable {d d' d'' : Disk legal (Leaf ν β)}

theorem Extends.refl : Extends d d :=
  ⟨fun _ => id,fun _ content there => ⟨content,there⟩,fun _ _ => Iff.rfl⟩

theorem Extends.trans (first : Extends d d') (second : Extends d' d'') : Extends d d'' := by
  refine ⟨?_,?_,?_⟩
  · intro place folder
    exact second.folder place (first.folder place folder)
  · intro place content data
    obtain ⟨content',data'⟩ := first.data place content data
    exact second.data place content' data'
  · intro place link
    rw [first.link,second.link]

theorem Extends.there (extends_ : Extends d d') {place : List ν} (there : d.entries place ≠ none) :
    d'.entries place ≠ none := by
  cases kind : d.entries place with
  | none => exact absurd kind there
  | some node =>
    cases node with
    | folder =>
      rw [extends_.folder place kind]
      exact Option.some_ne_none _
    | file leaf =>
      cases leaf with
      | data content =>
        obtain ⟨content',data⟩ := extends_.data place content kind
        rw [data]
        exact Option.some_ne_none _
      | link link =>
        rw [(extends_.link place link).mp kind]
        exact Option.some_ne_none _

theorem Extends.absent (extends_ : Extends d d') {place : List ν}
    (absent : d'.entries place = none) : d.entries place = none := by
  by_contra there
  exact extends_.there there absent

theorem Extends.real (extends_ : Extends d d') {place : List ν}
    (real : ∀ link, d.entries place ≠ some (.file (.link link))) (link : Link ν) :
    d'.entries place ≠ some (.file (.link link)) := by
  rw [Ne,← extends_.link]
  exact real link

theorem Extends.walk (extends_ : Extends d d') {links : Nat} {place : List ν}
    {path : List (Step ν)} {way : Nat × List ν} (found : walk d links place path = some way) :
    walk d' links place path = some way := by
  induction links,place,path using walk_induction d with
  | nil links place =>
    rw [walk_nil] at found ⊢
    exact found
  | up links place path ih =>
    rw [walk_up] at found ⊢
    split at found
    · next folder =>
      rw [FileSystem.isFolder_iff] at folder
      rw [if_pos (FileSystem.isFolder_iff.mpr (extends_.folder _ folder))]
      exact ih found
    · cases found
  | none links place name path absent =>
    rw [walk_none _ _ absent] at found
    cases found
  | down links place name path node there real ih =>
    rw [walk_down _ _ there real] at found
    have still : d'.entries (place ++ [name]) ≠ none :=
      extends_.there (by rw [there]; exact Option.some_ne_none _)
    obtain ⟨node',there'⟩ := Option.ne_none_iff_exists'.mp still
    rw [walk_down _ _ there']
    · exact ih found
    · rintro link rfl
      rw [← extends_.link,there] at there'
      exact real link (Option.some.inj there')
  | last place name path link there =>
    rw [walk_link_none _ there] at found
    cases found
  | link links place name path link there ih =>
    rw [walk_link _ _ there] at found
    rw [walk_link _ _ ((extends_.link _ _).mp there)]
    exact ih found

theorem Extends.course (extends_ : Extends d d') (links : Nat) (place : List ν)
    (path : List (Step ν)) : course d' links place path = course d links place path := by
  induction links,place,path using path_induction d with
  | nil links place => rw [course_nil,course_nil]
  | up links place path ih => rw [course_up,course_up,ih]
  | down links place name path real ih =>
    rw [course_down _ _ real,course_down _ _ (extends_.real real),ih]
  | last place name path link there =>
    rw [course_link_none _ there,course_link_none _ ((extends_.link _ _).mp there)]
  | link links place name path link there ih =>
    rw [course_link _ _ there,course_link _ _ ((extends_.link _ _).mp there),ih]

variable [DecidableEq ν] [DecidablePred legal]

omit [DecidablePred legal] in
theorem extends_write {place : List ν} {content : β}
    (real : ∀ link, d.entries place ≠ some (.file (.link link)))
    (free : d.entries place ≠ some .folder) (written : ∀ other, d'.entries other =
      if other = place then some (.file (.data content)) else d.entries other) :
    Extends d d' := by
  refine ⟨?_,?_,?_⟩
  · intro other folder
    rw [written,if_neg]
    · exact folder
    · rintro rfl
      exact free folder
  · intro other content' data
    rw [written]
    split
    · exact ⟨content,rfl⟩
    · exact ⟨content',data⟩
  · intro other link
    rw [written]
    split
    · next here =>
      rw [here]
      simp [real]
    · rfl

theorem extends_put {place : List ν} {content : β}
    (real : ∀ link, d.entries place ≠ some (.file (.link link))) :
    Extends d (d.put place (.file (.data content))) := by
  by_cases can : d.CanPut place (.file (.data content))
  · refine extends_write real ?_ (Disk.entries_put can)
    intro folder
    rcases can.room with free | ⟨file,-⟩
    · rw [folder] at free
      cases free
    · rw [FileSystem.not_isFile_of_folder folder] at file
      cases file
  · rw [Disk.put_refused can]
    exact Extends.refl

theorem Extends.put (extends_ : Extends d d') {place : List ν} {node : Node (Leaf ν β)}
    (can : d.CanPut place node) (can' : d'.CanPut place node) :
    Extends (d.put place node) (d'.put place node) := by
  refine ⟨?_,?_,?_⟩
  · intro other folder
    rw [Disk.entries_put can] at folder
    rw [Disk.entries_put can']
    split at folder
    · next here => rw [if_pos here,folder]
    · next different =>
      rw [if_neg different]
      exact extends_.folder other folder
  · intro other content data
    rw [Disk.entries_put can] at data
    rw [Disk.entries_put can']
    split at data
    · next here => exact ⟨content,by rw [if_pos here,data]⟩
    · next different =>
      rw [if_neg different]
      exact extends_.data other content data
  · intro other link
    rw [Disk.entries_put can,Disk.entries_put can']
    split
    · rfl
    · exact extends_.link other link

theorem extends_mkdirs {fits : List ν → Bool} {place : List ν} :
    Extends d (d.mkdirs fits place) := by
  refine ⟨fun _ => Disk.entries_mkdirs_some,?_,?_⟩
  · intro other content data
    exact ⟨content,Disk.entries_mkdirs_some data⟩
  · intro other link
    refine ⟨Disk.entries_mkdirs_some,?_⟩
    intro there
    rcases @Disk.entries_mkdirs ν _ legal d _ _ fits place other with same | ⟨-,-,folder⟩
    · rw [← same,there]
    · rw [folder] at there
      cases there

end Extends

/-! ## The places of paths -/

section Places

variable (d : Disk legal (Leaf ν β)) (links : Nat)

/-- What the system finds at an absolute path. -/
def leads (path : List ν) : Option (List ν) :=
  (walk d links [] (path.map .down)).map Prod.snd

def target (path : List ν) : Option (List ν) :=
  (course d links [] (path.map .down)).map Prod.snd

/-- Behind the last name that is there, the names of the path are kept. -/
def canonicalFrom : Nat → List ν → List ν → List ν
  | _, place, [] => place
  | links, place, name :: path =>
    match walk d links place [.down name] with
    | some (left, next) => canonicalFrom left next path
    | none => place ++ name :: path

def canonical (path : List ν) : List ν := canonicalFrom d links [] path

variable {d links} {d' : Disk legal (Leaf ν β)} {path place next : List ν} {name : ν}

theorem leads_iff : leads d links path = some place ↔
    ∃ left, walk d links [] (path.map .down) = some (left,place) := by
  rw [leads,Option.map_eq_some_iff]
  constructor
  · rintro ⟨⟨left,other⟩,found,rfl⟩
    exact ⟨left,found⟩
  · rintro ⟨left,found⟩
    exact ⟨(left,place),found,rfl⟩

theorem target_iff : target d links path = some place ↔
    ∃ left, course d links [] (path.map .down) = some (left,place) := by
  rw [target,Option.map_eq_some_iff]
  constructor
  · rintro ⟨⟨left,other⟩,found,rfl⟩
    exact ⟨left,found⟩
  · rintro ⟨left,found⟩
    exact ⟨(left,place),found,rfl⟩

theorem target_of_leads (found : leads d links path = some place) :
    target d links path = some place := by
  obtain ⟨left,found⟩ := leads_iff.mp found
  exact target_iff.mpr ⟨left,course_of_walk found⟩

theorem Extends.leads (extends_ : Extends d d') (found : leads d links path = some place) :
    leads d' links path = some place := by
  obtain ⟨left,found⟩ := leads_iff.mp found
  exact leads_iff.mpr ⟨left,extends_.walk found⟩

theorem Extends.target (extends_ : Extends d d') (path : List ν) :
    target d' links path = target d links path := by
  rw [Courses.target,extends_.course]
  rfl

/-- Of two disks of which one extends the other, a path leads to the same place on both. -/
theorem Extends.leads_eq (extends_ : Extends d d') (found : Courses.leads d links path = some place)
    (found' : Courses.leads d' links path = some next) : next = place := by
  have here := target_of_leads found'
  rw [extends_.target,target_of_leads found] at here
  exact (Option.some.inj here).symm

theorem leads_there (found : leads d links path = some place) : d.entries place ≠ none := by
  obtain ⟨left,found⟩ := leads_iff.mp found
  exact walk_there (by rw [d.root]; exact Option.some_ne_none _) found

theorem leads_real (found : leads d links path = some place) (link : Link ν) :
    d.entries place ≠ some (.file (.link link)) := by
  obtain ⟨left,found⟩ := leads_iff.mp found
  exact walk_real (by rw [d.root]; simp) found link

theorem target_real (found : target d links path = some place) (link : Link ν) :
    d.entries place ≠ some (.file (.link link)) := by
  obtain ⟨left,found⟩ := target_iff.mp found
  refine course_real ?_ found place List.prefix_rfl link
  intro part above
  rw [List.prefix_nil.mp above,d.root]
  simp

/-- What is found at a place is a folder or has a content. -/
theorem leads_cases (found : leads d links path = some place) :
    d.entries place = some .folder ∨ ∃ content, d.entries place = some (.file (.data content)) := by
  cases kind : d.entries place with
  | none => exact absurd kind (leads_there found)
  | some node =>
    cases node with
    | folder => exact .inl rfl
    | file leaf =>
      cases leaf with
      | data content => exact .inr ⟨content,rfl⟩
      | link link => exact absurd kind (leads_real found link)

theorem walk_concat {left : Nat} (found : walk d links [] (path.map .down) = some (left,place)) :
    walk d links [] ((path ++ [name]).map .down) = walk d left place [.down name] := by
  rw [List.map_append,walk_append,found]
  rfl

theorem leads_concat {node : Node (Leaf ν β)} (found : leads d links path = some place)
    (there : d.entries (place ++ [name]) = some node)
    (real : ∀ link, node ≠ .file (.link link)) :
    leads d links (path ++ [name]) = some (place ++ [name]) := by
  obtain ⟨left,found⟩ := leads_iff.mp found
  refine leads_iff.mpr ⟨left,?_⟩
  rw [walk_concat found,walk_down _ _ there real,walk_nil]

theorem leads_concat_none (found : leads d links path = some place)
    (absent : d.entries (place ++ [name]) = none) : leads d links (path ++ [name]) = none := by
  obtain ⟨left,found⟩ := leads_iff.mp found
  rw [leads,walk_concat found,walk_none _ _ absent]
  rfl

/-- Above what is found there is a folder with the name. -/
theorem leads_above (found : leads d links (path ++ [name]) = some next) :
    ∃ place, leads d links path = some place ∧ d.entries place = some .folder ∧
      d.entries (place ++ [name]) ≠ none := by
  obtain ⟨left,found⟩ := leads_iff.mp found
  rw [List.map_append,walk_append,Option.bind_eq_some_iff] at found
  obtain ⟨⟨left',place⟩,above,found⟩ := found
  have there : d.entries (place ++ [name]) ≠ none := by
    intro absent
    rw [List.map_singleton,walk_none _ _ absent] at found
    cases found
  exact ⟨place,leads_iff.mpr ⟨left',above⟩,(d.closed place name there).1,there⟩

theorem leads_prefix {further : List ν} (some_ : further ≠ [])
    (found : leads d links (path ++ further) = some next) :
    ∃ place, leads d links path = some place ∧ d.entries place = some .folder := by
  induction further using List.reverseRecOn generalizing next with
  | nil => exact absurd rfl some_
  | append_singleton further name ih =>
    rw [← List.append_assoc] at found
    obtain ⟨place,above,folder,-⟩ := leads_above found
    by_cases last : further = []
    · rw [last,List.append_nil] at above
      exact ⟨place,above,folder⟩
    · exact ih last above

theorem target_concat (found : target d links path = some place)
    (real : ∀ link, d.entries (place ++ [name]) ≠ some (.file (.link link))) :
    target d links (path ++ [name]) = some (place ++ [name]) := by
  obtain ⟨left,found⟩ := target_iff.mp found
  refine target_iff.mpr ⟨left,?_⟩
  rw [List.map_append,course_append,found]
  exact (course_down _ _ real).trans (course_nil _)

end Places

/-! ## Making folders at a canonical path -/

section Canonical

variable {d d' : Disk legal (Leaf ν β)} {links : Nat} {place path : List ν}

/-- Through folders the way is straight. -/
theorem walk_folders {names : List ν} (there : d.entries (place ++ names) ≠ none)
    (real : ∀ link, d.entries (place ++ names) ≠ some (.file (.link link))) :
    walk d links place (names.map .down) = some (links,place ++ names) := by
  induction names generalizing place with
  | nil => rw [List.map_nil,walk_nil,List.append_nil]
  | cons name names ih =>
    rw [List.append_cons] at there real ⊢
    rw [List.map_cons]
    by_cases last : names = []
    · subst last
      rw [List.append_nil] at there real ⊢
      obtain ⟨node,kind⟩ := Option.ne_none_iff_exists'.mp there
      rw [walk_down _ _ kind (by rintro link rfl; exact real link kind),List.map_nil,walk_nil]
    · have folder := Disk.folder_above last there
      rw [walk_down _ _ folder (by simp)]
      exact ih there real

theorem walk_canonicalFrom (extends_ : Extends d d')
    (folder : d'.entries (canonicalFrom d links place path) = some .folder) :
    ∃ left, walk d' links place (path.map .down) =
      some (left,canonicalFrom d links place path) := by
  induction path generalizing links place with
  | nil => exact ⟨links,walk_nil _ _ _⟩
  | cons name path ih =>
    rw [canonicalFrom] at folder ⊢
    split at folder
    · next left next found =>
      obtain ⟨left',further⟩ := ih folder
      refine ⟨left',?_⟩
      rw [List.map_cons,← List.singleton_append,walk_append,extends_.walk found]
      exact further
    · refine ⟨links,walk_folders ?_ ?_⟩
      · rw [folder]
        exact Option.some_ne_none _
      · rw [folder]
        simp

/-- Once the folder is there, the path leads to it. -/
theorem leads_canonical (extends_ : Extends d d')
    (folder : d'.entries (canonical d links path) = some .folder) :
    leads d' links path = some (canonical d links path) :=
  leads_iff.mpr (walk_canonicalFrom extends_ folder)

theorem canonicalFrom_append {left : Nat} {above next : List ν} {name : ν}
    (found : walk d links place (above.map .down) = some (left,next))
    (nothing : walk d left next [.down name] = none) :
    canonicalFrom d links place (above ++ [name]) = next ++ [name] := by
  induction above generalizing links place with
  | nil =>
    rw [List.map_nil,walk_nil] at found
    cases found
    rw [List.nil_append,canonicalFrom,nothing]
  | cons first above ih =>
    rw [List.map_cons,← List.singleton_append,walk_append,Option.bind_eq_some_iff] at found
    obtain ⟨⟨links',place'⟩,first_,found⟩ := found
    rw [List.cons_append,canonicalFrom,first_]
    exact ih found

theorem canonical_concat {next : List ν} {name : ν} (found : leads d links path = some next)
    (nothing : leads d links (path ++ [name]) = none) :
    canonical d links (path ++ [name]) = next ++ [name] := by
  obtain ⟨left,found⟩ := leads_iff.mp found
  rw [leads,walk_concat found,Option.map_eq_none_iff] at nothing
  exact canonicalFrom_append found nothing

end Canonical
end HmclPe.Lib.Courses
