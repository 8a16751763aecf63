import HmclPe.Lib.SymbolicLinks

/-! Deleting a directory with all that is in it, on a disk with symbolic links. There are two
functions for it; this is what both rest on, and the one that looks at links. -/
namespace HmclPe.Io.DeleteDirectory
open HmclPe.Lib.Disks HmclPe.Lib.Folders HmclPe.Lib.SymbolicLinks

variable {ν : Type} [DecidableEq ν] {legal : ν → Prop}

/-- What the operating system decides: which paths it looks up (a path may be too long, or lead
through a folder that is not searched), what may be removed and listed, in which order a folder is
listed, and how many links are followed on one path. -/
structure System (legal : ν → Prop) where
  reaches : List (Step ν) → Bool
  above : ∀ path step, reaches (path ++ [step]) = true → reaches path = true
  deletable : List ν → Bool
  listable : List ν → Bool
  links : Nat
  listing : Disk legal (Leaf ν Unit) → List ν → List ν
  listing_perm : ∀ d place, (listing d place).Perm (d.children place)

/-! ## `java.io.File` -/

namespace System

variable (sys : System legal) (d : Disk legal (Leaf ν Unit)) (path : List (Step ν))

def resolved : Option (Nat × List ν) := walk d sys.links [] path

/-- What is found by a look at a path. -/
def way : Option (Nat × List ν) := if sys.reaches path then sys.resolved d path else none

def present : Bool := (sys.way d path).isSome

def isDirectory : Bool :=
  match sys.way d path with
  | some (_,place) => d.isFolder place
  | none => false

def isFile : Bool :=
  match sys.way d path with
  | some (_,place) => d.isFile place
  | none => false

def listFiles : Option (List ν) :=
  match sys.way d path with
  | some (_,place) =>
    if d.isFolder place ∧ sys.listable place = true then some (sys.listing d place) else none
  | none => none

/-- The entry that a path names: a link at its end is not followed. -/
def located : Option (Nat × List ν) :=
  match path.getLast? with
  | some (.down name) => (sys.resolved d path.dropLast).map fun way => (way.1,way.2 ++ [name])
  | _ => sys.resolved d path

def delete : Bool × Disk legal (Leaf ν Unit) :=
  match path.getLast?,sys.located d path with
  | some (.down _),some (_,place) =>
    if d.entries place ≠ none ∧ sys.deletable place = true ∧ d.CanRemove place then
      (true,d.remove place)
    else (false,d)
  | _,_ => (false,d)

/-- The canonical path is another one than that of the name in the canonical parent. -/
def isSymlink : Bool :=
  match path.getLast?,sys.resolved d path.dropLast with
  | some .up,some _ => true
  | some (.down name),some (_,folder) =>
    match walk d sys.links folder [.down name] with
    | some (_,place) => place ≠ folder ++ [name]
    | none => false
  | _,_ => false

end System

/-- How a call ends. -/
inductive Outcome
  | returned
  | ioException
  | illegalArgument
deriving DecidableEq

/-! ## `com.tungsten.hmclpe.utils.io.FileUtils` -/

section IoFileUtils

variable (sys : System legal)

def forceDelete
    (deleteDirectory : List (Step ν) → Disk legal (Leaf ν Unit) → Option (Outcome × Disk legal (Leaf ν Unit)))
    (file : List (Step ν)) (d : Disk legal (Leaf ν Unit)) : Option (Outcome × Disk legal (Leaf ν Unit)) :=
  if sys.isDirectory d file then deleteDirectory file d
  else
    match sys.delete d file with
    | (true, d) => some (.returned,d)
    | (false, d) => some (.ioException,d)

/-- The loop of `cleanDirectory`: an `IOException` is kept for its end. -/
def forceDeletes
    (deleteDirectory : List (Step ν) → Disk legal (Leaf ν Unit) → Option (Outcome × Disk legal (Leaf ν Unit)))
    (directory : List (Step ν)) :
    Outcome → List ν → Disk legal (Leaf ν Unit) → Option (Outcome × Disk legal (Leaf ν Unit))
  | exception, [], d => some (exception,d)
  | exception, name :: files, d =>
    match forceDelete sys deleteDirectory (directory ++ [.down name]) d with
    | some (.returned, d) => forceDeletes deleteDirectory directory exception files d
    | some (.ioException, d) => forceDeletes deleteDirectory directory .ioException files d
    | result => result

/-- It is only called where something exists, so that nothing is made. -/
def cleanDirectory
    (deleteDirectory : List (Step ν) → Disk legal (Leaf ν Unit) → Option (Outcome × Disk legal (Leaf ν Unit)))
    (directory : List (Step ν)) (d : Disk legal (Leaf ν Unit)) :
    Option (Outcome × Disk legal (Leaf ν Unit)) :=
  if sys.isDirectory d directory then
    match sys.listFiles d directory with
    | none => some (.ioException,d)
    | some files => forceDeletes sys deleteDirectory directory .returned files d
  else some (.illegalArgument,d)

/-- Each turn goes one folder down. -/
def deleteDirectory :
    Nat → List (Step ν) → Disk legal (Leaf ν Unit) → Option (Outcome × Disk legal (Leaf ν Unit))
  | 0, _, _ => none
  | turns + 1, directory, d =>
    if sys.present d directory then
      match (if sys.isSymlink d directory then some (.returned,d)
        else cleanDirectory sys (deleteDirectory turns) directory d) with
      | some (.returned, d) =>
        match sys.delete d directory with
        | (true, d) => some (.returned,d)
        | (false, d) => some (.ioException,d)
      | result => result
    else some (.returned,d)

end IoFileUtils

/-! ## What is asked of a deletion -/

section Property

variable (sys : System legal) (d : Disk legal (Leaf ν Unit)) (path : List (Step ν))

/-- Nothing but entries of the tree below a place is taken away, and nothing is added. -/
structure Trims (root : List ν) (d d' : Disk legal (Leaf ν Unit)) : Prop where
  sub : Sub d' d
  outside : ∀ place, ¬root <+: place → d'.entries place = d.entries place

/-- A function that deletes the tree at a path, from its runs with so many turns: it ends, stays in
the tree, and leaves nothing where it reports a success. -/
structure Deletes (run : Nat → Option (Bool × Disk legal (Leaf ν Unit))) : Prop where
  ends : ∃ turns result, run turns = some result
  inside : ∀ turns success d', run turns = some (success,d') → ∀ place,
    (∀ left root, sys.located d path = some (left,root) → ¬root <+: place) →
    d'.entries place = d.entries place
  gone : ∀ turns d', run turns = some (true,d') → ∀ left root,
    sys.located d path = some (left,root) → d'.entries root = none

def ioDeletes (turns : Nat) : Option (Bool × Disk legal (Leaf ν Unit)) :=
  (deleteDirectory sys turns path d).map fun result => (decide (result.1 = .returned),result.2)

end Property

/-! ## Paths and files -/

section Files

variable {sys : System legal} {d d' d'' : Disk legal (Leaf ν Unit)} {path : List (Step ν)}
  {root place : List ν}

omit [DecidableEq ν] in
theorem Trims.refl : Trims root d d := ⟨Sub.refl,fun _ _ => rfl⟩

omit [DecidableEq ν] in
theorem Trims.trans (first : Trims root d d') (second : Trims root d' d'') : Trims root d d'' := by
  refine ⟨second.sub.trans first.sub,?_⟩
  intro place outside
  rw [second.outside place outside,first.outside place outside]

omit [DecidableEq ν] in
theorem Trims.above (trims : Trims place d d') (inside : root <+: place) : Trims root d d' :=
  ⟨trims.sub,fun other outside => trims.outside other fun below => outside (inside.trans below)⟩

theorem resolved_concat (name : ν) : sys.resolved d (path ++ [.down name]) =
    (sys.resolved d path).bind fun way => walk d way.1 way.2 [.down name] :=
  walk_append d sys.links [] path [.down name]

theorem located_concat (name : ν) : sys.located d (path ++ [.down name]) =
    (sys.resolved d path).map fun way => (way.1,way.2 ++ [name]) := by
  simp [System.located]

theorem way_iff {way : Nat × List ν} : sys.way d path = some way ↔
    sys.reaches path = true ∧ sys.resolved d path = some way := by
  rw [System.way]
  split
  · next reached => exact (and_iff_right reached).symm
  · next missed => exact iff_of_false (by simp) fun found => missed found.1

theorem reached_of_way {way : Nat × List ν} (found : sys.way d path = some way) :
    sys.reaches path = true :=
  (way_iff.mp found).1

theorem resolved_of_way {way : Nat × List ν} (found : sys.way d path = some way) :
    sys.resolved d path = some way :=
  (way_iff.mp found).2

theorem way_reached (reached : sys.reaches path = true) : sys.way d path = sys.resolved d path := by
  rw [System.way,if_pos reached]

theorem reached_before {rest : List (Step ν)} (reached : sys.reaches (path ++ rest) = true) :
    sys.reaches path = true := by
  induction rest using List.reverseRecOn with
  | nil =>
    rw [List.append_nil] at reached
    exact reached
  | append_singleton rest step ih =>
    rw [← List.append_assoc] at reached
    exact ih (sys.above _ _ reached)

/-- A look goes on from where the path leads before its last name. -/
theorem way_concat {name : ν} (reached : sys.reaches (path ++ [.down name]) = true) :
    sys.way d (path ++ [.down name]) =
      (sys.way d path).bind fun way => walk d way.1 way.2 [.down name] := by
  rw [way_reached reached,way_reached (sys.above path _ reached),resolved_concat]

theorem way_onward {name : ν} {way next : Nat × List ν} (found : sys.way d path = some way)
    (found' : sys.way d (path ++ [.down name]) = some next) :
    walk d way.1 way.2 [.down name] = some next := by
  rw [way_concat (reached_of_way found'),found] at found'
  exact found'

theorem resolved_sub (sub : Sub d' d) {way : Nat × List ν} (found : sys.resolved d' path = some way) :
    sys.resolved d path = some way :=
  sub.walk found

theorem way_sub (sub : Sub d' d) {way : Nat × List ν} (found : sys.way d' path = some way) :
    sys.way d path = some way :=
  way_iff.mpr ⟨reached_of_way found,resolved_sub sub (resolved_of_way found)⟩

theorem located_sub (sub : Sub d' d) {way : Nat × List ν}
    (found : sys.located d' path = some way) : sys.located d path = some way := by
  rw [System.located] at found ⊢
  split at found
  · obtain ⟨parent,above,same⟩ := Option.map_eq_some_iff.mp found
    rw [resolved_sub sub above,← same]
    rfl
  · exact resolved_sub sub found

theorem way_there {way : Nat × List ν} (found : sys.way d path = some way) :
    d.entries way.2 ≠ none := by
  apply walk_there _ (resolved_of_way found)
  rw [d.root]
  exact Option.some_ne_none _

theorem way_real {way : Nat × List ν} (found : sys.way d path = some way) (link : Link ν) :
    d.entries way.2 ≠ some (.file (.link link)) := by
  apply walk_real _ (resolved_of_way found)
  intro link'
  rw [d.root]
  simp

theorem delete_cases {success : Bool} (deleted : sys.delete d path = (success,d')) :
    (success = false ∧ d' = d) ∨ (success = true ∧ ∃ left place,
      sys.located d path = some (left,place) ∧ sys.deletable place = true ∧ d.CanRemove place ∧
      (∃ name, path.getLast? = some (.down name)) ∧ d' = d.remove place) := by
  rw [System.delete] at deleted
  split at deleted
  · next name _ place last found =>
    split at deleted
    · next can =>
      obtain ⟨rfl,rfl⟩ := Prod.mk.inj deleted
      exact .inr ⟨rfl,_,place,found,can.2.1,can.2.2,⟨name,last⟩,rfl⟩
    · obtain ⟨rfl,rfl⟩ := Prod.mk.inj deleted
      exact .inl ⟨rfl,rfl⟩
  · obtain ⟨rfl,rfl⟩ := Prod.mk.inj deleted
    exact .inl ⟨rfl,rfl⟩

theorem trims_remove : Trims place d (d.remove place) := by
  refine ⟨?_,?_⟩
  · intro other node there
    by_cases here : other = place
    · by_cases can : d.CanRemove place
      · rw [Disk.entries_remove can,if_pos here] at there
        cases there
      · rw [Disk.remove_refused can] at there
        exact there
    · rw [Disk.entries_remove_other here] at there
      exact there
  · intro other outside
    apply Disk.entries_remove_other
    rintro rfl
    exact outside List.prefix_rfl

theorem trims_delete {success : Bool}
    (inside : ∀ left place, sys.located d path = some (left,place) → root <+: place)
    (deleted : sys.delete d path = (success,d')) : Trims root d d' := by
  rcases delete_cases deleted with ⟨-,rfl⟩ | ⟨-,left,place,found,-,-,-,rfl⟩
  · exact Trims.refl
  · exact trims_remove.above (inside left place found)

theorem gone_delete (deleted : sys.delete d path = (true,d')) :
    ∃ left place, sys.located d path = some (left,place) ∧ d'.entries place = none := by
  rcases delete_cases deleted with ⟨false,-⟩ | ⟨-,left,place,found,-,can,-,rfl⟩
  · cases false
  · refine ⟨left,place,found,?_⟩
    rw [Disk.entries_remove can,if_pos rfl]

/-- What is not taken for a link is none. -/
theorem located_of_not_symlink {left : Nat} (found : sys.way d path = some (left,place))
    (real : sys.isSymlink d path = false) : ∃ left', sys.located d path = some (left',place) := by
  rw [System.isSymlink] at real
  have found := resolved_of_way found
  cases path using List.reverseRecOn with
  | nil => exact ⟨left,found⟩
  | append_singleton path step =>
    rw [List.getLast?_concat,List.dropLast_concat] at real
    have split := walk_append d sys.links [] path [step]
    rw [← System.resolved,← System.resolved,found] at split
    cases parent : sys.resolved d path with
    | none =>
      rw [parent] at split
      cases split
    | some way =>
      rw [parent] at real
      cases step with
      | up => cases real
      | down name =>
        rw [parent,Option.bind_some] at split
        have fewer := walk_le parent
        have more := walk_more split.symm (sys.links - way.1)
        rw [Nat.add_sub_cancel' fewer] at more
        dsimp only at real
        rw [more] at real
        dsimp only at real
        rw [decide_eq_false_iff_not,not_not] at real
        refine ⟨way.1,?_⟩
        rw [located_concat,parent,real]
        rfl

theorem isDirectory_iff : sys.isDirectory d path = true ↔
    ∃ left place, sys.way d path = some (left,place) ∧ d.entries place = some .folder := by
  rw [System.isDirectory]
  split
  · next left place found =>
    rw [FileSystem.isFolder_iff]
    refine ⟨fun folder => ⟨left,place,found,folder⟩,?_⟩
    intro ⟨left',place',found',folder⟩
    rw [found] at found'
    cases found'
    exact folder
  · next absent => simp [absent]

theorem listFiles_iff {files : List ν} : sys.listFiles d path = some files ↔
    ∃ left place, sys.way d path = some (left,place) ∧ d.entries place = some .folder ∧
      sys.listable place = true ∧ files = sys.listing d place := by
  rw [System.listFiles]
  split
  · next left place found =>
    by_cases both : d.isFolder place = true ∧ sys.listable place = true
    · rw [if_pos both,Option.some_inj]
      rw [FileSystem.isFolder_iff] at both
      refine ⟨fun same => ⟨left,place,found,both.1,both.2,same.symm⟩,?_⟩
      intro ⟨left',place',found',_,_,same⟩
      rw [found] at found'
      cases found'
      exact same.symm
    · rw [if_neg both]
      refine ⟨fun found => (by cases found),?_⟩
      intro ⟨left',place',found',folder,listable,_⟩
      rw [found] at found'
      cases found'
      exact absurd ⟨FileSystem.isFolder_iff.mpr folder,listable⟩ both
  · next absent => simp [absent]

end Files

/-! ## The deletion that looks at links -/

section Looking

variable {sys : System legal} {d₀ d d' : Disk legal (Leaf ν Unit)} {path : List (Step ν)}
  {root place : List ν} {outcome : Outcome}
  {f : List (Step ν) → Disk legal (Leaf ν Unit) → Option (Outcome × Disk legal (Leaf ν Unit))}

/-- The path names something in the tree, if anything. -/
def Inside (sys : System legal) (d : Disk legal (Leaf ν Unit)) (root : List ν) (path : List (Step ν)) :
    Prop :=
  ∀ left place, sys.located d path = some (left,place) → root <+: place

theorem inside_child {left : Nat} (found : sys.way d path = some (left,place))
    (inside : root <+: place) (name : ν) : Inside sys d root (path ++ [.down name]) := by
  intro left' place' located
  rw [located_concat,resolved_of_way found] at located
  cases located
  exact inside.trans (List.prefix_append place [name])

theorem Inside.delete (inside : Inside sys d₀ root path) (sub : Sub d d₀) {success : Bool}
    (deleted : sys.delete d path = (success,d')) : Trims root d d' :=
  trims_delete (fun left place found => inside left place (located_sub sub found)) deleted

theorem trims_forceDelete (inside : Inside sys d₀ root path) (sub : Sub d d₀)
    (trims : ∀ path d outcome d', Sub d d₀ → Inside sys d₀ root path → f path d = some (outcome,d') →
      Trims root d d')
    (deleted : forceDelete sys f path d = some (outcome,d')) : Trims root d d' := by
  rw [forceDelete] at deleted
  split at deleted
  · exact trims path d outcome d' sub inside deleted
  · split at deleted
    · next gone =>
      obtain ⟨-,rfl⟩ := Prod.mk.inj (Option.some.inj deleted)
      exact inside.delete sub gone
    · next gone =>
      obtain ⟨-,rfl⟩ := Prod.mk.inj (Option.some.inj deleted)
      exact inside.delete sub gone

theorem trims_forceDeletes {left : Nat} (found : sys.way d₀ path = some (left,place))
    (inside : root <+: place) (sub : Sub d d₀)
    (trims : ∀ path d outcome d', Sub d d₀ → Inside sys d₀ root path → f path d = some (outcome,d') →
      Trims root d d') {files : List ν} {exception : Outcome}
    (deleted : forceDeletes sys f path exception files d = some (outcome,d')) :
    Trims root d d' := by
  induction files generalizing exception d with
  | nil =>
    obtain ⟨-,rfl⟩ := Prod.mk.inj (Option.some.inj deleted)
    exact Trims.refl
  | cons name files ih =>
    have child := inside_child found inside name
    rw [forceDeletes] at deleted
    split at deleted
    · next between gone =>
      have first := trims_forceDelete child sub trims gone
      exact first.trans (ih (first.sub.trans sub) deleted)
    · next between gone =>
      have first := trims_forceDelete child sub trims gone
      exact first.trans (ih (first.sub.trans sub) deleted)
    · exact trims_forceDelete child sub trims deleted

/-- A link is never followed into another place. -/
theorem trims_deleteDirectory {turns : Nat} (sub : Sub d d₀) (inside : Inside sys d₀ root path)
    (deleted : deleteDirectory sys turns path d = some (outcome,d')) : Trims root d d' := by
  induction turns generalizing path d outcome d' with
  | zero => cases deleted
  | succ turns ih =>
    rw [deleteDirectory] at deleted
    split at deleted
    · have cleaned : ∀ outcome between,
          (if sys.isSymlink d path then some (.returned,d)
            else cleanDirectory sys (deleteDirectory sys turns) path d) = some (outcome,between) →
          Trims root d between := by
        intro outcome between cleaned
        split at cleaned
        · obtain ⟨-,rfl⟩ := Prod.mk.inj (Option.some.inj cleaned)
          exact Trims.refl
        · next real =>
          rw [cleanDirectory] at cleaned
          split at cleaned
          · next directory =>
            obtain ⟨left,place,found,-⟩ := isDirectory_iff.mp directory
            split at cleaned
            · obtain ⟨-,rfl⟩ := Prod.mk.inj (Option.some.inj cleaned)
              exact Trims.refl
            · obtain ⟨left',located⟩ :=
                located_of_not_symlink found (Bool.eq_false_of_not_eq_true real)
              have below := inside left' place (located_sub sub located)
              exact trims_forceDeletes (way_sub sub found) below sub
                (fun _ _ _ _ sub inside deleted => ih sub inside deleted) cleaned
          · obtain ⟨-,rfl⟩ := Prod.mk.inj (Option.some.inj cleaned)
            exact Trims.refl
      split at deleted
      · next between clean =>
        have first := cleaned _ _ clean
        split at deleted
        · next gone =>
          obtain ⟨-,rfl⟩ := Prod.mk.inj (Option.some.inj deleted)
          exact first.trans (inside.delete (first.sub.trans sub) gone)
        · next gone =>
          obtain ⟨-,rfl⟩ := Prod.mk.inj (Option.some.inj deleted)
          exact first.trans (inside.delete (first.sub.trans sub) gone)
      · exact cleaned _ _ deleted
    · obtain ⟨-,rfl⟩ := Prod.mk.inj (Option.some.inj deleted)
      exact Trims.refl

theorem inside_nil : Inside sys d [] path := fun _ _ _ => List.nil_prefix

theorem sub_deleteDirectory {turns : Nat}
    (deleted : deleteDirectory sys turns path d = some (outcome,d')) : Sub d' d :=
  (trims_deleteDirectory Sub.refl inside_nil deleted).sub

theorem forceDeletes_ends (sub : Sub d d₀)
    (subs : ∀ path d outcome d', f path d = some (outcome,d') → Sub d' d)
    (ends : ∀ name d, Sub d d₀ → sys.isDirectory d (path ++ [.down name]) = true →
      ∃ result, f (path ++ [.down name]) d = some result) {files : List ν} {exception : Outcome} :
    ∃ result, forceDeletes sys f path exception files d = some result := by
  induction files generalizing exception d with
  | nil => exact ⟨_,rfl⟩
  | cons name files ih =>
    have first : ∃ result, forceDelete sys f (path ++ [.down name]) d = some result := by
      rw [forceDelete]
      split
      · next directory => exact ends name d sub directory
      · split
        · exact ⟨_,rfl⟩
        · exact ⟨_,rfl⟩
    obtain ⟨⟨outcome,between⟩,gone⟩ := first
    have sub' := (trims_forceDelete inside_nil Sub.refl
      (fun path d outcome d' _ _ deleted => ⟨subs path d outcome d' deleted,
        fun place outside => absurd List.nil_prefix outside⟩) gone).sub.trans sub
    rw [forceDeletes,gone]
    cases outcome with
    | returned => exact ih sub'
    | ioException => exact ih sub'
    | illegalArgument => exact ⟨_,rfl⟩

theorem deleteDirectory_ends {most turns : Nat} {way : Nat × List ν}
    (within : ∀ place, d.entries place ≠ none → place.length ≤ most)
    (found : sys.way d path = some way) (enough : reserve most way < turns) :
    ∃ result, deleteDirectory sys turns path d = some result := by
  induction turns generalizing path d way with
  | zero => cases enough
  | succ turns ih =>
    have cleaned : ∃ result, (if sys.isSymlink d path then some (.returned,d)
        else cleanDirectory sys (deleteDirectory sys turns) path d) = some result := by
      split
      · exact ⟨_,rfl⟩
      · rw [cleanDirectory]
        split
        · split
          · exact ⟨_,rfl⟩
          · apply forceDeletes_ends Sub.refl (fun _ _ _ _ => sub_deleteDirectory)
            intro name d' sub directory
            obtain ⟨left,place,further,-⟩ := isDirectory_iff.mp directory
            have less := reserve_step within (way_there found)
              (way_onward found (way_sub sub further))
            rw [Prod.mk.eta] at less
            exact ih (fun place there => within place (fun absent => there (sub.absent absent)))
              further (by omega)
        · exact ⟨_,rfl⟩
    obtain ⟨⟨outcome,between⟩,cleaned⟩ := cleaned
    have present : sys.present d path = true := by
      rw [System.present,found]
      rfl
    rw [deleteDirectory,if_pos present,cleaned]
    cases outcome with
    | returned =>
      dsimp only
      split
      · exact ⟨_,rfl⟩
      · exact ⟨_,rfl⟩
    | ioException => exact ⟨_,rfl⟩
    | illegalArgument => exact ⟨_,rfl⟩

theorem deleteDirectory_absent {turns : Nat} (absent : sys.way d path = none) :
    deleteDirectory sys (turns + 1) path d = some (.returned,d) := by
  rw [deleteDirectory,if_neg]
  rw [System.present,absent]
  simp

/-- A deletion that returns normally has removed the entry, or found nothing to follow the path
to. -/
theorem gone_deleteDirectory {turns : Nat}
    (deleted : deleteDirectory sys turns path d = some (.returned,d')) {left : Nat}
    (located : sys.located d path = some (left,root)) (present : sys.way d path ≠ none) :
    d'.entries root = none := by
  cases turns with
  | zero => cases deleted
  | succ turns =>
    have all := sub_deleteDirectory deleted
    rw [deleteDirectory,if_pos (by rw [System.present]; exact Option.isSome_iff_ne_none.mpr present)]
      at deleted
    split at deleted
    · next between cleaned =>
      have sub : Sub between d := by
        split at cleaned
        · obtain ⟨-,rfl⟩ := Prod.mk.inj (Option.some.inj cleaned)
          exact Sub.refl
        · rw [cleanDirectory] at cleaned
          split at cleaned
          · next directory =>
            obtain ⟨left',place,found,-⟩ := isDirectory_iff.mp directory
            split at cleaned
            · cases (Prod.mk.inj (Option.some.inj cleaned)).1
            · exact (trims_forceDeletes found List.nil_prefix Sub.refl
                (fun path d outcome d' _ _ deleted => ⟨sub_deleteDirectory deleted,
                  fun place outside => absurd List.nil_prefix outside⟩) cleaned).sub
          · cases (Prod.mk.inj (Option.some.inj cleaned)).1
      split at deleted
      · next gone =>
        obtain ⟨-,rfl⟩ := Prod.mk.inj (Option.some.inj deleted)
        obtain ⟨left',place,found,absent⟩ := gone_delete gone
        have same := located_sub sub found
        rw [located] at same
        cases same
        exact absent
      · cases (Prod.mk.inj (Option.some.inj deleted)).1
    · next other => exact absurd deleted (other _)

theorem way_none (absent : sys.located d path = none) : sys.way d path = none := by
  have nowhere : sys.resolved d path = none := by
    cases path using List.reverseRecOn with
    | nil => exact absent
    | append_singleton path step =>
      cases step with
      | up =>
        rw [System.located,List.getLast?_concat] at absent
        exact absent
      | down name =>
        rw [located_concat,Option.map_eq_none_iff] at absent
        rw [resolved_concat,absent]
        rfl
  rw [System.way,nowhere,ite_self]

/-- `utils.io.FileUtils.deleteDirectory` does what is asked of it but for a link that leads nowhere
and an entry that the system does not look up: these are taken for nothing at all. -/
theorem ioDeletes_iff (sys : System legal) (d : Disk legal (Leaf ν Unit)) (path : List (Step ν)) :
    Deletes sys d path (ioDeletes sys d path) ↔
      ∀ left root, sys.located d path = some (left,root) → d.entries root ≠ none →
        sys.way d path ≠ none := by
  constructor
  · intro deletes left root located there absent
    have run : ioDeletes sys d path 1 = some (true,d) := by
      rw [ioDeletes,deleteDirectory_absent absent]
      rfl
    exact there (deletes.gone 1 d run left root located)
  · intro seen
    refine ⟨?_,?_,?_⟩
    · cases found : sys.way d path with
      | none =>
        refine ⟨1,(true,d),?_⟩
        rw [ioDeletes,deleteDirectory_absent found]
        rfl
      | some way =>
        obtain ⟨result,ended⟩ := deleteDirectory_ends
          (fun place there => (d.length_lt_places there).le) found
          (Nat.lt_succ_self (reserve d.places.length way))
        refine ⟨reserve d.places.length way + 1,(decide (result.1 = .returned),result.2),?_⟩
        rw [ioDeletes,ended]
        rfl
    · intro turns success d' run place outside
      obtain ⟨⟨outcome,d''⟩,deleted,same⟩ := Option.map_eq_some_iff.mp run
      cases same
      cases located : sys.located d path with
      | none =>
        cases turns with
        | zero => cases deleted
        | succ turns =>
          rw [deleteDirectory_absent (way_none located)] at deleted
          cases deleted
          rfl
      | some way =>
        have inside : Inside sys d way.2 path := by
          intro left other found
          rw [located] at found
          cases found
          exact List.prefix_rfl
        exact (trims_deleteDirectory Sub.refl inside deleted).outside place (outside way.1 way.2 located)
    · intro turns d' run left root located
      obtain ⟨⟨outcome,d''⟩,deleted,same⟩ := Option.map_eq_some_iff.mp run
      obtain ⟨returned,rfl⟩ := Prod.mk.inj same
      have returned' := of_decide_eq_true returned
      dsimp only at returned' deleted
      subst returned'
      by_cases there : d.entries root = none
      · exact (sub_deleteDirectory deleted).absent there
      · exact gone_deleteDirectory deleted located (seen left root located there)

end Looking

end HmclPe.Io.DeleteDirectory
