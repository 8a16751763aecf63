import HmclPe.Lib.Disks

/-! Disks with symbolic links, and the way that a path takes through them. -/
namespace HmclPe.Lib.SymbolicLinks
open HmclPe.Lib.Disks HmclPe.Lib.Folders

variable {ν β : Type} {legal : ν → Prop}

inductive Step (ν : Type)
  | down (name : ν)
  | up

/-- A link leads on from the root or from the folder it stands in. -/
structure Link (ν : Type) where
  absolute : Bool
  target : List (Step ν)

inductive Leaf (ν β : Type)
  | data (content : β)
  | link (link : Link ν)

def Link.start (link : Link ν) (folder : List ν) : List ν := if link.absolute then [] else folder

def walkWith (d : Disk legal (Leaf ν β)) (links : Nat)
    (follow : List ν → List (Step ν) → Option (Nat × List ν)) :
    List ν → List (Step ν) → Option (Nat × List ν)
  | place, [] => some (links,place)
  | place, .up :: path =>
    if d.isFolder place then walkWith d links follow place.dropLast path else none
  | place, .down name :: path =>
    match d.entries (place ++ [name]) with
    | none => none
    | some (.file (.link link)) => follow (link.start place) (link.target ++ path)
    | some _ => walkWith d links follow (place ++ [name]) path

/-- Where a path leads to from a place, and how many of the links that may be followed are left
there. -/
def walk (d : Disk legal (Leaf ν β)) : Nat → List ν → List (Step ν) → Option (Nat × List ν)
  | 0 => walkWith d 0 fun _ _ => none
  | links + 1 => walkWith d (links + 1) (walk d links)

section Equations

variable (d : Disk legal (Leaf ν β)) (links : Nat) (place : List ν) (path : List (Step ν)) {name : ν}

@[simp]
theorem walk_nil : walk d links place [] = some (links,place) := by
  cases links <;> rfl

theorem walk_up : walk d links place (.up :: path) =
    if d.isFolder place then walk d links place.dropLast path else none := by
  cases links <;> rfl

variable {d place}

theorem walk_none (absent : d.entries (place ++ [name]) = none) :
    walk d links place (.down name :: path) = none := by
  cases links <;> simp [walk,walkWith,absent]

theorem walk_down {node : Node (Leaf ν β)} (there : d.entries (place ++ [name]) = some node)
    (real : ∀ link, node ≠ .file (.link link)) :
    walk d links place (.down name :: path) = walk d links (place ++ [name]) path := by
  cases node with
  | folder => cases links <;> simp [walk,walkWith,there]
  | file leaf =>
    cases leaf with
    | data content => cases links <;> simp [walk,walkWith,there]
    | link link => exact absurd rfl (real link)

variable {link : Link ν}

theorem walk_link (there : d.entries (place ++ [name]) = some (.file (.link link))) :
    walk d (links + 1) place (.down name :: path) =
      walk d links (link.start place) (link.target ++ path) := by
  simp [walk,walkWith,there]

theorem walk_link_none (there : d.entries (place ++ [name]) = some (.file (.link link))) :
    walk d 0 place (.down name :: path) = none := by
  simp [walk,walkWith,there]

end Equations

/-- Induction along a path: over the links that may be followed, and over the path between two
links. -/
theorem path_induction {motive : Nat → List ν → List (Step ν) → Prop}
    (d : Disk legal (Leaf ν β)) (nil : ∀ links place, motive links place [])
    (up : ∀ links place path, motive links place.dropLast path →
      motive links place (.up :: path))
    (down : ∀ links place name path,
      (∀ link, d.entries (place ++ [name]) ≠ some (.file (.link link))) →
      motive links (place ++ [name]) path → motive links place (.down name :: path))
    (last : ∀ place name path link, d.entries (place ++ [name]) = some (.file (.link link)) →
      motive 0 place (.down name :: path))
    (link : ∀ links place name path link, d.entries (place ++ [name]) = some (.file (.link link)) →
      motive links (link.start place) (link.target ++ path) →
      motive (links + 1) place (.down name :: path)) :
    ∀ links place path, motive links place path := by
  have inner : ∀ links, (∀ place name path link,
      d.entries (place ++ [name]) = some (.file (.link link)) →
      motive links place (.down name :: path)) → ∀ place path, motive links place path := by
    intro links along place path
    induction path generalizing place with
    | nil => exact nil links place
    | cons step path ih =>
      cases step with
      | up => exact up links place path (ih place.dropLast)
      | down name =>
        by_cases real : ∀ link, d.entries (place ++ [name]) ≠ some (.file (.link link))
        · exact down links place name path real (ih (place ++ [name]))
        · push Not at real
          obtain ⟨link,there⟩ := real
          exact along place name path link there
  intro links
  induction links with
  | zero => exact inner 0 last
  | succ links ih =>
    apply inner
    intro place name path target there
    exact link links place name path target there (ih _ _)

/-- The same along a way, which ends where nothing is. -/
theorem walk_induction {motive : Nat → List ν → List (Step ν) → Prop}
    (d : Disk legal (Leaf ν β)) (nil : ∀ links place, motive links place [])
    (up : ∀ links place path, motive links place.dropLast path →
      motive links place (.up :: path))
    (none : ∀ links place name path, d.entries (place ++ [name]) = none →
      motive links place (.down name :: path))
    (down : ∀ links place name path node, d.entries (place ++ [name]) = some node →
      (∀ link, node ≠ .file (.link link)) → motive links (place ++ [name]) path →
      motive links place (.down name :: path))
    (last : ∀ place name path link, d.entries (place ++ [name]) = some (.file (.link link)) →
      motive 0 place (.down name :: path))
    (link : ∀ links place name path link, d.entries (place ++ [name]) = some (.file (.link link)) →
      motive links (link.start place) (link.target ++ path) →
      motive (links + 1) place (.down name :: path)) :
    ∀ links place path, motive links place path := by
  apply path_induction d nil up _ last link
  intro links place name path real ih
  cases there : d.entries (place ++ [name]) with
  | none => exact none links place name path there
  | some node =>
    apply down links place name path node there _ ih
    rintro link rfl
    exact real link there

section Ways

variable {d d' : Disk legal (Leaf ν β)}

theorem walk_append (d : Disk legal (Leaf ν β)) (links : Nat) (place : List ν)
    (path further : List (Step ν)) : walk d links place (path ++ further) =
      (walk d links place path).bind fun way => walk d way.1 way.2 further := by
  induction links,place,path using walk_induction d with
  | nil links place => simp
  | up links place path ih =>
    rw [List.cons_append,walk_up,walk_up]
    split
    · exact ih
    · rfl
  | none links place name path absent =>
    rw [List.cons_append,walk_none _ _ absent,walk_none _ _ absent]
    rfl
  | down links place name path node there real ih =>
    rw [List.cons_append,walk_down _ _ there real,walk_down _ _ there real]
    exact ih
  | last place name path link there =>
    rw [List.cons_append,walk_link_none _ there,walk_link_none _ there]
    rfl
  | link links place name path link there ih =>
    rw [List.cons_append,walk_link _ _ there,walk_link _ _ there,← List.append_assoc]
    exact ih

/-- Some entries are gone, the others are as they were. -/
def Sub (d' d : Disk legal (Leaf ν β)) : Prop :=
  ∀ place node, d'.entries place = some node → d.entries place = some node

theorem Sub.refl : Sub d d := fun _ _ => id

theorem Sub.trans {d'' : Disk legal (Leaf ν β)} (first : Sub d'' d') (second : Sub d' d) :
    Sub d'' d :=
  fun place node there => second place node (first place node there)

theorem Sub.absent (sub : Sub d' d) {place : List ν} (absent : d.entries place = none) :
    d'.entries place = none := by
  cases there : d'.entries place with
  | none => rfl
  | some node =>
    rw [sub place node there] at absent
    cases absent

theorem Sub.eq (sub : Sub d' d) {place : List ν} (there : d'.entries place ≠ none) :
    d'.entries place = d.entries place := by
  cases kind : d'.entries place with
  | none => exact absurd kind there
  | some node => exact (sub place node kind).symm

/-- A way through fewer entries is the same through more. -/
theorem Sub.walk (sub : Sub d' d) {links : Nat} {place : List ν} {path : List (Step ν)}
    {way : Nat × List ν} (found : walk d' links place path = some way) :
    walk d links place path = some way := by
  induction links,place,path using walk_induction d' with
  | nil links place =>
    rw [walk_nil] at found ⊢
    exact found
  | up links place path ih =>
    rw [walk_up] at found ⊢
    split at found
    · next folder =>
      rw [FileSystem.isFolder_iff] at folder
      rw [if_pos (FileSystem.isFolder_iff.mpr (sub _ _ folder))]
      exact ih found
    · cases found
  | none links place name path absent =>
    rw [walk_none _ _ absent] at found
    cases found
  | down links place name path node there real ih =>
    rw [walk_down _ _ there real] at found
    rw [walk_down _ _ (sub _ _ there) real]
    exact ih found
  | last place name path link there =>
    rw [walk_link_none _ there] at found
    cases found
  | link links place name path link there ih =>
    rw [walk_link _ _ there] at found
    rw [walk_link _ _ (sub _ _ there)]
    exact ih found

theorem walk_le {links left : Nat} {place target : List ν} {path : List (Step ν)}
    (found : walk d links place path = some (left,target)) : left ≤ links := by
  induction links,place,path using walk_induction d with
  | nil links place =>
    rw [walk_nil] at found
    cases found
    exact le_rfl
  | up links place path ih =>
    rw [walk_up] at found
    split at found
    · exact ih found
    · cases found
  | none links place name path absent =>
    rw [walk_none _ _ absent] at found
    cases found
  | down links place name path node there real ih =>
    rw [walk_down _ _ there real] at found
    exact ih found
  | last place name path link there =>
    rw [walk_link_none _ there] at found
    cases found
  | link links place name path link there ih =>
    rw [walk_link _ _ there] at found
    exact (ih found).trans (Nat.le_succ links)

theorem entries_dropLast {place : List ν} (there : d.entries place ≠ none) :
    d.entries place.dropLast ≠ none := by
  cases place using List.reverseRecOn with
  | nil => exact there
  | append_singleton place name =>
    rw [List.dropLast_concat,(d.closed place name there).1]
    exact Option.some_ne_none _

theorem walk_there {links left : Nat} {place target : List ν} {path : List (Step ν)}
    (there : d.entries place ≠ none) (found : walk d links place path = some (left,target)) :
    d.entries target ≠ none := by
  induction links,place,path using walk_induction d with
  | nil links place =>
    rw [walk_nil] at found
    cases found
    exact there
  | up links place path ih =>
    rw [walk_up] at found
    split at found
    · exact ih (entries_dropLast there) found
    · cases found
  | none links place name path absent =>
    rw [walk_none _ _ absent] at found
    cases found
  | down links place name path node there' real ih =>
    rw [walk_down _ _ there' real] at found
    exact ih (by rw [there']; exact Option.some_ne_none _) found
  | last place name path link there' =>
    rw [walk_link_none _ there'] at found
    cases found
  | link links place name path link there' ih =>
    rw [walk_link _ _ there'] at found
    apply ih _ found
    rw [Link.start]
    split
    · rw [d.root]
      exact Option.some_ne_none _
    · exact there

/-- More links may be followed, and the way is the same. -/
theorem walk_more {links left : Nat} {place target : List ν} {path : List (Step ν)}
    (found : walk d links place path = some (left,target)) (more : Nat) :
    walk d (links + more) place path = some (left + more,target) := by
  induction links,place,path using walk_induction d with
  | nil links place =>
    rw [walk_nil] at found ⊢
    cases found
    rfl
  | up links place path ih =>
    rw [walk_up] at found ⊢
    split at found
    · next folder =>
      rw [if_pos folder]
      exact ih found
    · cases found
  | none links place name path absent =>
    rw [walk_none _ _ absent] at found
    cases found
  | down links place name path node there real ih =>
    rw [walk_down _ _ there real] at found ⊢
    exact ih found
  | last place name path link there =>
    rw [walk_link_none _ there] at found
    cases found
  | link links place name path link there ih =>
    rw [walk_link _ _ there] at found
    rw [Nat.add_right_comm,walk_link _ _ there]
    exact ih found

theorem walk_fewer {links left more : Nat} {place target : List ν} {path : List (Step ν)}
    (found : walk d (links + more) place path = some (left + more,target)) :
    walk d links place path = some (left,target) := by
  generalize total : links + more = most at found
  induction most,place,path using walk_induction d generalizing links with
  | nil most place =>
    rw [walk_nil] at found ⊢
    have both := Prod.mk.inj (Option.some.inj found)
    rw [both.2,show links = left by omega]
  | up most place path ih =>
    rw [walk_up] at found ⊢
    split at found
    · next folder =>
      rw [if_pos folder]
      exact ih total found
    · cases found
  | none most place name path absent =>
    rw [walk_none _ _ absent] at found
    cases found
  | down most place name path node there real ih =>
    rw [walk_down _ _ there real] at found ⊢
    exact ih total found
  | last place name path link there =>
    rw [walk_link_none _ there] at found
    cases found
  | link most place name path link there ih =>
    rw [walk_link _ _ there] at found
    have fewer := walk_le found
    cases links with
    | zero => omega
    | succ links =>
      rw [walk_link _ _ there]
      exact ih (by omega) found

/-- No way ends on a link. -/
theorem walk_real {links left : Nat} {place target : List ν} {path : List (Step ν)}
    (real : ∀ link, d.entries place ≠ some (.file (.link link)))
    (found : walk d links place path = some (left,target)) (link : Link ν) :
    d.entries target ≠ some (.file (.link link)) := by
  induction links,place,path using walk_induction d with
  | nil links place =>
    rw [walk_nil] at found
    cases found
    exact real link
  | up links place path ih =>
    rw [walk_up] at found
    split at found
    · next folder =>
      rw [FileSystem.isFolder_iff] at folder
      apply ih _ found
      intro link'
      cases place using List.reverseRecOn with
      | nil => exact real link'
      | append_singleton place name =>
        have parent := (d.closed place name (by rw [folder]; exact Option.some_ne_none _)).1
        rw [List.dropLast_concat,parent]
        simp
    · cases found
  | none links place name path absent =>
    rw [walk_none _ _ absent] at found
    cases found
  | down links place name path node there real' ih =>
    rw [walk_down _ _ there real'] at found
    apply ih _ found
    intro link' same
    rw [there] at same
    exact real' link' (Option.some.inj same)
  | last place name path link' there =>
    rw [walk_link_none _ there] at found
    cases found
  | link links place name path link' there ih =>
    rw [walk_link _ _ there] at found
    apply ih _ found
    intro link''
    rw [Link.start]
    split
    · rw [d.root]
      simp
    · rw [(d.closed place name (by rw [there]; exact Option.some_ne_none _)).1]
      simp

/-- How much further down one can go: the places are no longer than `most`, and what a link leads
to may be as long again. -/
def reserve (most : Nat) (way : Nat × List ν) : Nat := way.1 * (most + 1) + (most - way.2.length)

theorem reserve_step {most links : Nat} {place : List ν} {name : ν} {way : Nat × List ν}
    (within : ∀ place, d.entries place ≠ none → place.length ≤ most)
    (there : d.entries place ≠ none)
    (found : walk d links place [.down name] = some way) :
    reserve most way < reserve most (links,place) := by
  have short := within place there
  cases kind : d.entries (place ++ [name]) with
  | none =>
    rw [walk_none _ _ kind] at found
    cases found
  | some node =>
    by_cases real : ∀ link, node ≠ .file (.link link)
    · rw [walk_down _ _ kind real,walk_nil] at found
      cases found
      have deeper := within (place ++ [name]) (by rw [kind]; exact Option.some_ne_none _)
      rw [List.length_append,List.length_singleton] at deeper
      simp only [reserve,List.length_append,List.length_singleton]
      omega
    · push Not at real
      obtain ⟨link,rfl⟩ := real
      cases links with
      | zero =>
        rw [walk_link_none _ kind] at found
        cases found
      | succ links =>
        rw [walk_link _ _ kind] at found
        have fewer := walk_le found
        have used := Nat.mul_le_mul_right (most + 1) fewer
        simp only [reserve,Nat.succ_mul]
        omega

end Ways
end HmclPe.Lib.SymbolicLinks
