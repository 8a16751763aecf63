import Mathlib.Logic.Relation
import HmclPe.Io.DeleteFollowing

/-! What a deletion that follows links does where they lead past its tree. As long as nothing leads
back, it removes an entry there or changes nothing. -/
namespace HmclPe.Io.DeleteBeyond
open HmclPe.Lib.Disks HmclPe.Lib.Folders HmclPe.Lib.SymbolicLinks
open HmclPe.Io.DeleteDirectory HmclPe.Io.DeleteFollowing Relation

variable {ν : Type} [DecidableEq ν] {legal : ν → Prop}

section Places

variable (sys : System legal) (d : Disk legal (Leaf ν Unit))

/-- A directory that a deletion goes through. -/
def Opens (on : Nat × List ν) : Prop := d.entries on.2 = some .folder ∧ sys.listable on.2 = true

/-- A deletion goes from a directory on to what its entries lead to. -/
def Descends (on next : Nat × List ν) : Prop :=
  Opens sys d on ∧ ∃ name, walk d on.1 on.2 [.down name] = some next

/-- What a link in the tree leads to, and where a deletion goes on from there. -/
def Beyond (left : Nat) (root place : List ν) (on : Nat × List ν) : Prop :=
  root <+: place ∧ ∃ link, d.entries place = some (.file (.link link)) ∧
    ∃ way, lead d left place link = some way ∧ ReflTransGen (Descends sys d) way on

/-- Nothing leads back to the tree or above it: what is beyond a link is found without the other
entries of the tree. -/
structure Away (left : Nat) (root : List ν) : Prop where
  past : ∀ place link way, root <+: place → d.entries place = some (.file (.link link)) →
    lead d left place link = some way → lead (d.prune root place) left place link = some way
  onward : ∀ place on name next, Beyond sys d left root place on → Opens sys d on →
    walk d on.1 on.2 [.down name] = some next →
    walk (d.prune root place) on.1 on.2 [.down name] = some next
  above : ∀ place on, Beyond sys d left root place on → Opens sys d on → ¬on.2 <+: root
  inside : ∀ place on, Beyond sys d left root place on → Opens sys d on → ¬root <+: on.2

/-- The deletion removes an entry of a directory when it comes to it by a path: a file, a link that
leads somewhere or a directory that is empty. -/
structure Takes (path : List (Step ν)) (on : Nat × List ν) (name : ν) : Prop where
  reached : sys.reaches (path ++ [.down name]) = true
  deletable : sys.deletable (on.2 ++ [name]) = true
  leads : ∃ next, walk d on.1 on.2 [.down name] = some next ∧
    (d.entries next.2 = some .folder → sys.listable next.2 = true ∧
      (next.2 = on.2 ++ [name] → d.children next.2 = []))

/-- Something is removed when the deletion goes through the directory that a path leads to. -/
inductive Exposed : List (Step ν) → Nat × List ν → Prop
  | here (path : List (Step ν)) (on : Nat × List ν) (name : ν) : Opens sys d on →
      Takes sys d path on name → Exposed path on
  | onward (path : List (Step ν)) (on : Nat × List ν) (name : ν) (next : Nat × List ν) :
      Opens sys d on → sys.reaches (path ++ [.down name]) = true →
      walk d on.1 on.2 [.down name] = some next → Exposed (path ++ [.down name]) next →
      Exposed path on

/-- Something is removed when the deletion comes to an entry of a directory. -/
def ExposedAt (path : List (Step ν)) (on : Nat × List ν) (name : ν) : Prop :=
  Takes sys d path on name ∨ ∃ next, sys.reaches (path ++ [.down name]) = true ∧
    walk d on.1 on.2 [.down name] = some next ∧ Exposed sys d (path ++ [.down name]) next

/-- Nothing outside can be removed by way of the links in the tree at a path. -/
def Harmless (path : List (Step ν)) (left : Nat) (root : List ν) : Prop :=
  ∀ below link way, d.entries (root ++ below) = some (.file (.link link)) →
    lead d left (root ++ below) link = some way → ¬Exposed sys d (path ++ below.map .down) way

/-- An entry outside the tree is gone. -/
def Lost (root : List ν) (d d' : Disk legal (Leaf ν Unit)) : Prop :=
  ∃ other, ¬root <+: other ∧ d.entries other ≠ none ∧ d'.entries other = none

end Places

section Beyond

variable {sys : System legal} {d₀ d d' : Disk legal (Leaf ν Unit)} {path : List (Step ν)}
  {root place : List ν} {left : Nat} {success : Bool} {on next : Nat × List ν} {name : ν}

theorem exposed_iff :
    Exposed sys d path on ↔ Opens sys d on ∧ ∃ name, ExposedAt sys d path on name := by
  constructor
  · intro exposed
    cases exposed with
    | here _ _ name opens takes => exact ⟨opens,name,.inl takes⟩
    | onward _ _ name next opens reached found exposed =>
      exact ⟨opens,name,.inr ⟨next,reached,found,exposed⟩⟩
  · rintro ⟨opens,name,takes | ⟨next,reached,found,exposed⟩⟩
    · exact .here path on name opens takes
    · exact .onward path on name next opens reached found exposed

theorem beyond_next (beyond : Beyond sys d left root place on) (opens : Opens sys d on)
    (found : walk d on.1 on.2 [.down name] = some next) : Beyond sys d left root place next := by
  obtain ⟨inside,link,links,way,leads,goes⟩ := beyond
  exact ⟨inside,link,links,way,leads,goes.tail ⟨opens,name,found⟩⟩

omit [DecidableEq ν] in
theorem Lost.sub (lost : Lost root d₀ d) (sub : Sub d' d) : Lost root d₀ d' := by
  obtain ⟨other,outside,there,gone⟩ := lost
  exact ⟨other,outside,there,sub.absent gone⟩

omit [DecidableEq ν] in
theorem not_lost (trims : Trims root d₀ d) : ¬Lost root d₀ d := by
  rintro ⟨other,outside,there,gone⟩
  rw [trims.outside other outside] at gone
  exact there gone

theorem same_walk (away : Away sys d₀ left root) (beyond : Beyond sys d₀ left root place on)
    (opens : Opens sys d₀ on) (trims : Trims root d₀ d) (there : d.entries place ≠ none) (name : ν) :
    walk d on.1 on.2 [.down name] = walk d₀ on.1 on.2 [.down name] := by
  cases found : walk d on.1 on.2 [.down name] with
  | some next => exact (trims.sub.walk found).symm
  | none =>
    cases first : walk d₀ on.1 on.2 [.down name] with
    | none => rfl
    | some next =>
      have pruned := away.onward place on name next beyond opens first
      rw [(prune_sub trims there).walk pruned] at found
      cases found

/-- The entries of a directory beyond a link are outside the tree. -/
theorem outside_child (away : Away sys d₀ left root) (beyond : Beyond sys d₀ left root place on)
    (opens : Opens sys d₀ on) (name : ν) : ¬root <+: on.2 ++ [name] := by
  intro below
  rcases List.prefix_concat_iff.mp below with same | inside
  · apply away.above place on beyond opens
    rw [same]
    exact List.prefix_append _ _
  · exact away.inside place on beyond opens inside

theorem same_children (away : Away sys d₀ left root) (beyond : Beyond sys d₀ left root place on)
    (opens : Opens sys d₀ on) (trims : Trims root d₀ d) (name : ν) :
    name ∈ d.children on.2 ↔ name ∈ d₀.children on.2 := by
  rw [Disk.mem_children,Disk.mem_children,
    trims.outside _ (outside_child away beyond opens name)]

/-- The last step of a call beyond a link. -/
theorem beyond_delete (away : Away sys d₀ left root) (beyond : Beyond sys d₀ left root place on)
    (opens : Opens sys d₀ on) (trims : Trims root d₀ d) (found : sys.way d path = some on)
    (reached : sys.reaches (path ++ [.down name]) = true)
    (first : walk d₀ on.1 on.2 [.down name] = some next)
    (listed : d₀.entries next.2 = some .folder → sys.listable next.2 = true) :
    Sub d (sys.delete d (path ++ [.down name])).2 ∧ ¬Takes sys d₀ path on name ∨
      Takes sys d₀ path on name ∧ Lost root d₀ (sys.delete d (path ++ [.down name])).2 := by
  have outside := outside_child away beyond opens name
  have located := located_child (resolved_of_way found) name
  have there₀ : d₀.entries (on.2 ++ [name]) ≠ none := by
    intro absent
    rw [walk_none _ _ absent] at first
    cases first
  have same := trims.outside _ outside
  have there : d.entries (on.2 ++ [name]) ≠ none := by rwa [same]
  -- the entry is a directory itself, or a link or a file
  have empty_iff : d.children (on.2 ++ [name]) = [] ↔
      (d₀.entries next.2 = some .folder → next.2 = on.2 ++ [name] → d₀.children next.2 = []) := by
    by_cases folder : next.2 = on.2 ++ [name] ∧ d₀.entries next.2 = some .folder
    · obtain ⟨here,folder⟩ := folder
      have members := same_children away (beyond_next beyond opens first) ⟨folder,listed folder⟩ trims
      rw [here] at members ⊢
      rw [here] at folder
      simp only [folder,forall_const,List.eq_nil_iff_forall_not_mem,members]
    · refine iff_of_true (d.children_nil ?_) fun folder' here => absurd ⟨here,folder'⟩ folder
      rw [same]
      intro folder'
      apply folder
      rw [walk_down _ _ folder' (by simp),walk_nil] at first
      cases first
      exact ⟨rfl,folder'⟩
  by_cases takes : Takes sys d₀ path on name
  · refine .inr ⟨takes,on.2 ++ [name],outside,there₀,?_⟩
    obtain ⟨-,deletable,next',found',leads⟩ := takes
    rw [first] at found'
    cases found'
    exact delete_gone List.getLast?_concat located there deletable
      ⟨by simp,empty_iff.mpr fun folder => (leads folder).2⟩
  · refine .inl ⟨?_,takes⟩
    have both : sys.delete d (path ++ [.down name]) =
        ((sys.delete d (path ++ [.down name])).1,(sys.delete d (path ++ [.down name])).2) := rfl
    rcases delete_cases both with ⟨-,kept⟩ | ⟨-,left',place',located',deletable,can,-,-⟩
    · rw [kept]
      exact Sub.refl
    · rw [located] at located'
      cases located'
      exact absurd ⟨reached,deletable,next,first,
        fun folder => ⟨listed folder,empty_iff.mp can.empty folder⟩⟩ takes

omit [DecidableEq ν] in
/-- A loop of calls of which each changes nothing, or something is lost. -/
theorem deleteFiles_quiet {Q : ν → Prop}
    {f : List (Step ν) → Disk legal (Leaf ν Unit) → Option (Bool × Disk legal (Leaf ν Unit))}
    (subs : ∀ path d success d', f path d = some (success,d') → Sub d' d)
    (calls : ∀ name d₁ success d₂, Sub d₁ d → Sub d d₁ → f (path ++ [.down name]) d₁ = some (success,d₂) →
      Sub d₁ d₂ ∧ ¬Q name ∨ Q name ∧ Lost root d₀ d₂) {files : List ν}
    (deleted : deleteFiles f path files d = some d') :
    (Sub d d' ∧ ∀ name ∈ files, ¬Q name) ∨ (∃ name, Q name) ∧ Lost root d₀ d' := by
  induction files generalizing d with
  | nil =>
    cases deleted
    exact .inl ⟨Sub.refl,fun _ member => absurd member List.not_mem_nil⟩
  | cons name files ih =>
    rw [deleteFiles] at deleted
    split at deleted
    · next success between first =>
      have sub := subs _ _ _ _ first
      rcases calls name d success between Sub.refl Sub.refl first with ⟨same,quiet⟩ | ⟨takes,lost⟩
      · have later := ih (fun name d₁ success d₂ sub₁ sub₂ call =>
          calls name d₁ success d₂ (sub₁.trans sub) (same.trans sub₂) call) deleted
        rcases later with ⟨same',quiets⟩ | lost
        · refine .inl ⟨same.trans same',?_⟩
          intro other member
          rcases List.mem_cons.mp member with rfl | member
          · exact quiet
          · exact quiets other member
        · exact .inr lost
      · exact .inr ⟨⟨name,takes⟩,lost.sub (sub_deleteFiles subs deleted)⟩
    · cases deleted

theorem folder_of_unlisted (found : sys.way d path = some next) (other : sys.isFile d path = false) :
    d.entries next.2 = some .folder := by
  rw [isFile_of_way found] at other
  cases kind : d.entries next.2 with
  | none => exact absurd kind (way_there found)
  | some node =>
    cases node with
    | folder => rfl
    | file content =>
      rw [FileSystem.isFile_of_entries kind] at other
      cases other

/-- An entry that is reached is in the directory. -/
theorem exposedAt_mem (exposed : ExposedAt sys d path on name) : name ∈ d.children on.2 := by
  rw [Disk.mem_children]
  intro absent
  rcases exposed with takes | ⟨next,-,found,-⟩
  · obtain ⟨next,found,-⟩ := takes.leads
    rw [walk_none _ _ absent] at found
    cases found
  · rw [walk_none _ _ absent] at found
    cases found

/-- The loop over a directory beyond a link. -/
theorem beyond_loop (away : Away sys d₀ left root)
    {f : List (Step ν) → Disk legal (Leaf ν Unit) → Option (Bool × Disk legal (Leaf ν Unit))}
    (subs : ∀ path d success d', f path d = some (success,d') → Sub d' d)
    (beyond : Beyond sys d₀ left root place on) (opens : Opens sys d₀ on) (trims : Trims root d₀ d)
    (there : d.entries place ≠ none) (found : sys.way d path = some on)
    (calls : ∀ name d₁ success d₂, Trims root d₀ d₁ → d₁.entries place ≠ none →
      sys.way d₁ path = some on → f (path ++ [.down name]) d₁ = some (success,d₂) →
      Sub d₁ d₂ ∧ ¬ExposedAt sys d₀ path on name ∨ ExposedAt sys d₀ path on name ∧ Lost root d₀ d₂)
    (through : deleteFiles f path (sys.listing d on.2) d = some d') :
    Sub d d' ∧ ¬Exposed sys d₀ path on ∨ Exposed sys d₀ path on ∧ Lost root d₀ d' := by
  have loop := deleteFiles_quiet subs
    (fun name d₁ success d₂ sub₁ same₁ call => calls name d₁ success d₂
      (trims_between same₁ (sub₁.trans trims.sub) trims)
      (fun absent => there (same₁.absent absent)) (way_sub same₁ found) call) through
  rcases loop with ⟨same,quiet⟩ | ⟨exposed,lost⟩
  · refine .inl ⟨same,fun exposed => ?_⟩
    obtain ⟨-,name,exposed⟩ := exposed_iff.mp exposed
    apply quiet name _ exposed
    rw [(sys.listing_perm _ _).mem_iff,same_children away beyond opens trims]
    exact exposedAt_mem exposed
  · exact .inr ⟨exposed_iff.mpr ⟨opens,exposed⟩,lost⟩

/-- A call beyond a link, on an entry of a directory there. -/
theorem beyond_call (away : Away sys d₀ left root) {turns : Nat}
    (beyond : Beyond sys d₀ left root place on) (opens : Opens sys d₀ on) (trims : Trims root d₀ d)
    (there : d.entries place ≠ none) (found : sys.way d path = some on)
    (deleted : DeleteFollowing.deleteDirectory sys turns (path ++ [.down name]) d =
      some (success,d')) :
    Sub d d' ∧ ¬ExposedAt sys d₀ path on name ∨ ExposedAt sys d₀ path on name ∧ Lost root d₀ d' := by
  induction turns generalizing path on name d success d' with
  | zero => cases deleted
  | succ turns ih =>
    have same_ := same_walk away beyond opens trims there name
    -- where nothing is exposed below, the entry itself decides
    have ends {next : Nat × List ν} (first : walk d₀ on.1 on.2 [.down name] = some next)
        (below : ¬Exposed sys d₀ (path ++ [.down name]) next) :
        ExposedAt sys d₀ path on name ↔ Takes sys d₀ path on name := by
      refine ⟨fun exposed => exposed.resolve_right ?_,.inl⟩
      rintro ⟨next',-,found',exposed⟩
      rw [first] at found'
      cases found'
      exact below exposed
    rcases deleteDirectory_cases deleted with ⟨absent,-,rfl⟩ | ⟨next,found',file,-,rfl⟩ |
      ⟨present,other,unlisted,-,rfl⟩ | ⟨left',target,between,found',folder,listable,through,-,rfl⟩
    · -- it is not looked up, or nothing is found
      have none_ (reached : sys.reaches (path ++ [.down name]) = true) {next : Nat × List ν}
          (first : walk d₀ on.1 on.2 [.down name] = some next) : False := by
        rw [way_concat reached,found,Option.bind_some,same_,first] at absent
        cases absent
      refine .inl ⟨Sub.refl,?_⟩
      rintro (takes | ⟨next,reached,first,-⟩)
      · obtain ⟨next,first,-⟩ := takes.leads
        exact none_ takes.reached first
      · exact none_ reached first
    · have reached := reached_of_way found'
      have first := same_.symm.trans (way_onward found found')
      obtain ⟨content,file⟩ := FileSystem.isFile_iff.mp file
      have not_folder : d₀.entries next.2 ≠ some .folder := by
        rw [trims.sub _ _ file]
        simp
      rw [ends first fun exposed => not_folder (exposed_iff.mp exposed).1.1]
      exact beyond_delete away beyond opens trims found reached first
        fun folder => absurd folder not_folder
    · obtain ⟨next,found'⟩ := Option.ne_none_iff_exists'.mp present
      have folder := folder_of_unlisted found' other
      have closed : ¬sys.listable next.2 = true := by
        intro listable
        rw [listFiles_iff.mpr ⟨next.1,next.2,found',folder,listable,rfl⟩] at unlisted
        cases unlisted
      have first := same_.symm.trans (way_onward found found')
      rw [ends first fun exposed => closed (exposed_iff.mp exposed).1.2]
      refine .inl ⟨Sub.refl,fun takes => ?_⟩
      obtain ⟨next',first',leads⟩ := takes.leads
      rw [first] at first'
      cases first'
      exact closed (leads (trims.sub _ _ folder)).1
    · have reached := reached_of_way found'
      have first := same_.symm.trans (way_onward found found')
      have opens' : Opens sys d₀ (left',target) := ⟨trims.sub _ _ folder,listable⟩
      have beyond' := beyond_next beyond opens first
      rcases beyond_loop away (fun _ _ _ _ => DeleteFollowing.sub_deleteDirectory) beyond' opens' trims
        there found' (fun _ _ _ _ trims there found call => ih beyond' opens' trims there found call)
        through with ⟨same,below⟩ | ⟨exposed,lost⟩
      · have sub := sub_deleteFiles (fun _ _ _ _ => DeleteFollowing.sub_deleteDirectory) through
        have trims' := trims_between same (sub.trans trims.sub) trims
        rw [ends first below]
        have last := beyond_delete away beyond opens trims' (way_sub same found) reached first
          fun _ => listable
        exact last.imp_left fun last => ⟨same.trans last.1,last.2⟩
      · exact .inr ⟨.inr ⟨_,reached,first,exposed⟩,lost.sub sub_delete⟩

/-- The loop over the directory that a link leads to. -/
theorem beyond_files (away : Away sys d₀ left root) {turns : Nat}
    (beyond : Beyond sys d₀ left root place on) (opens : Opens sys d₀ on) (trims : Trims root d₀ d)
    (there : d.entries place ≠ none) (found : sys.way d path = some on)
    (through : deleteFiles (DeleteFollowing.deleteDirectory sys turns) path (sys.listing d on.2) d =
      some d') : Sub d d' ∧ ¬Exposed sys d₀ path on ∨ Exposed sys d₀ path on ∧ Lost root d₀ d' :=
  beyond_loop away (fun _ _ _ _ => DeleteFollowing.sub_deleteDirectory) beyond opens trims there
    found (fun _ _ _ _ trims there found call => beyond_call away beyond opens trims there found call)
    through

end Beyond

end HmclPe.Io.DeleteBeyond
