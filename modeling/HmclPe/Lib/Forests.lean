import Mathlib.Logic.Relation
import Mathlib.Data.List.Nodup
import Mathlib.Data.List.Perm.Subperm
import Mathlib.Tactic

/-! Forests that are unfolded from lists of children. Where no place is listed twice, what is reached
from the roots unfolds into finitely many trees, however the other places are linked. -/
namespace HmclPe.Lib.Forests

variable {α : Type}

inductive Tree (α : Type) where
  | node (label : α) (subtrees : List (Tree α))

def Tree.label : Tree α → α
  | .node label _ => label

mutual

def Tree.labels : Tree α → List α
  | .node label subtrees => label :: labelsOf subtrees

def labelsOf : List (Tree α) → List α
  | [] => []
  | tree :: trees => tree.labels ++ labelsOf trees

end

/-- Each node and the roots of its subtrees are linked. -/
inductive Tree.Linked (link : α → α → Prop) : Tree α → Prop
  | node (label : α) (subtrees : List (Tree α))
      (here : ∀ tree ∈ subtrees, link label tree.label)
      (below : ∀ tree ∈ subtrees, Linked link tree) : Linked link (.node label subtrees)

theorem Tree.Linked.mono {link link' : α → α → Prop} {tree : Tree α}
    (weaker : ∀ above below, link above below → link' above below) (linked : tree.Linked link) :
    tree.Linked link' := by
  induction linked with
  | node label subtrees here _ ih =>
    exact .node label subtrees (fun tree member => weaker _ _ (here tree member)) ih

theorem mem_labelsOf {trees : List (Tree α)} {a : α} :
    a ∈ labelsOf trees ↔ ∃ tree ∈ trees, a ∈ tree.labels := by
  induction trees with
  | nil => simp [labelsOf]
  | cons tree trees ih => simp [labelsOf,ih]

/-- The tree under a place; none while it is higher than the fuel. -/
def unfold (children : α → List α) : Nat → α → Option (Tree α)
  | 0, _ => none
  | fuel + 1, a => ((children a).mapM (unfold children fuel)).map (.node a)

def unfoldAll (children : α → List α) (fuel : Nat) (places : List α) : Option (List (Tree α)) :=
  places.mapM (unfold children fuel)

section Mapping
variable {β : Type} {f : α → Option β} {a : α} {list : List α} {results : List β}

theorem mapM_cons_some (mapped : (a :: list).mapM f = some results) :
    ∃ result rest, f a = some result ∧ list.mapM f = some rest ∧ results = result :: rest := by
  rw [List.mapM_cons,Option.bind_eq_bind,Option.bind_eq_some_iff] at mapped
  obtain ⟨result,first,mapped⟩ := mapped
  rw [Option.bind_eq_bind,Option.bind_eq_some_iff] at mapped
  obtain ⟨rest,later,same⟩ := mapped
  exact ⟨result,rest,first,later,(Option.some.inj same).symm⟩

theorem exists_mapM (each : ∀ a ∈ list, ∃ result, f a = some result) :
    ∃ results, list.mapM f = some results := by
  induction list with
  | nil => exact ⟨[],rfl⟩
  | cons a list ih =>
    obtain ⟨result,first⟩ := each a List.mem_cons_self
    obtain ⟨rest,later⟩ := ih fun other member => each other (List.mem_cons_of_mem a member)
    exact ⟨result :: rest,by rw [List.mapM_cons,first,later]; rfl⟩

theorem mem_of_mapM (mapped : list.mapM f = some results) {result : β} (member : result ∈ results) :
    ∃ a ∈ list, f a = some result := by
  induction list generalizing results with
  | nil =>
    obtain rfl := Option.some.inj mapped
    exact absurd member List.not_mem_nil
  | cons a list ih =>
    obtain ⟨first,rest,one,later,rfl⟩ := mapM_cons_some mapped
    rcases List.mem_cons.mp member with rfl | inside
    · exact ⟨a,List.mem_cons_self,one⟩
    · obtain ⟨other,listed,made⟩ := ih later inside
      exact ⟨other,List.mem_cons_of_mem a listed,made⟩

theorem mapM_mem (mapped : list.mapM f = some results) (member : a ∈ list) :
    ∃ result ∈ results, f a = some result := by
  induction list generalizing results with
  | nil => exact absurd member List.not_mem_nil
  | cons other list ih =>
    obtain ⟨first,rest,one,later,rfl⟩ := mapM_cons_some mapped
    rcases List.mem_cons.mp member with rfl | inside
    · exact ⟨first,List.mem_cons_self,one⟩
    · obtain ⟨result,listed,made⟩ := ih later inside
      exact ⟨result,List.mem_cons_of_mem first listed,made⟩

end Mapping

section Unfolding
variable {children : α → List α} {fuel : Nat} {a : α} {tree : Tree α}

theorem unfold_succ (unfolded : unfold children (fuel + 1) a = some tree) :
    ∃ subtrees, (children a).mapM (unfold children fuel) = some subtrees ∧
      tree = .node a subtrees := by
  rw [unfold,Option.map_eq_some_iff] at unfolded
  obtain ⟨subtrees,mapped,rfl⟩ := unfolded
  exact ⟨subtrees,mapped,rfl⟩

theorem label_of_unfold (unfolded : unfold children fuel a = some tree) : tree.label = a := by
  cases fuel with
  | zero => cases unfolded
  | succ fuel =>
    obtain ⟨subtrees,-,rfl⟩ := unfold_succ unfolded
    rfl

theorem linked_of_unfold (unfolded : unfold children fuel a = some tree) :
    tree.Linked fun above below => below ∈ children above := by
  induction fuel generalizing a tree with
  | zero => cases unfolded
  | succ fuel ih =>
    obtain ⟨subtrees,mapped,rfl⟩ := unfold_succ unfolded
    refine .node a subtrees ?_ ?_
    · intro subtree member
      obtain ⟨child,listed,made⟩ := mem_of_mapM mapped member
      rw [label_of_unfold made]
      exact listed
    · intro subtree member
      obtain ⟨child,-,made⟩ := mem_of_mapM mapped member
      exact ih made

/-- What is below a place is in its tree. -/
theorem mem_labels_of_reached {b : α}
    (reached : Relation.ReflTransGen (fun above below => below ∈ children above) a b)
    (unfolded : unfold children fuel a = some tree) : b ∈ tree.labels := by
  induction reached using Relation.ReflTransGen.head_induction_on generalizing fuel tree with
  | refl =>
    cases fuel with
    | zero => cases unfolded
    | succ fuel =>
      obtain ⟨subtrees,-,rfl⟩ := unfold_succ unfolded
      rw [Tree.labels]
      exact List.mem_cons_self
  | head first _ ih =>
    cases fuel with
    | zero => cases unfolded
    | succ fuel =>
      obtain ⟨subtrees,mapped,rfl⟩ := unfold_succ unfolded
      obtain ⟨subtree,member,made⟩ := mapM_mem mapped first
      rw [Tree.labels]
      exact List.mem_cons_of_mem _ (mem_labelsOf.mpr ⟨subtree,member,ih made⟩)

end Unfolding

/-- No place is listed twice, be it as a root or as a child. -/
structure SingleParent (roots : List α) (children : α → List α) : Prop where
  rootsOnce : roots.Nodup
  childrenOnce : ∀ a, (children a).Nodup
  apart : ∀ a, ∀ b ∈ roots, b ∉ children a
  unique : ∀ a a' b, b ∈ children a → b ∈ children a' → a = a'

/-- The way from a root to a place, the place first. -/
inductive Path (roots : List α) (children : α → List α) : List α → Prop
  | root (a : α) (member : a ∈ roots) : Path roots children [a]
  | child (a b : α) (path : List α) (leads : Path roots children (a :: path))
      (member : b ∈ children a) : Path roots children (b :: a :: path)

section Paths
variable {roots : List α} {children : α → List α}

theorem Path.unique (single : SingleParent roots children) {a : α} {path path' : List α}
    (leads : Path roots children (a :: path)) (leads' : Path roots children (a :: path')) :
    path = path' := by
  induction path generalizing a path' with
  | nil =>
    cases leads with
    | root _ member =>
      cases leads' with
      | root => rfl
      | child above _ path' _ listed => exact absurd listed (single.apart above a member)
  | cons above path ih =>
    cases leads with
    | child _ _ _ before listed =>
      cases leads' with
      | root _ member => exact absurd listed (single.apart above a member)
      | child above' _ path' before' listed' =>
        obtain rfl := single.unique above above' a listed listed'
        rw [ih before before']

theorem Path.tail {a : α} {path : List α} (front : List α)
    (leads : Path roots children (front ++ a :: path)) : Path roots children (a :: path) := by
  induction front with
  | nil => exact leads
  | cons b front ih =>
    apply ih
    cases front with
    | nil =>
      cases leads with
      | child _ _ _ before _ => exact before
    | cons c front =>
      cases leads with
      | child _ _ _ before _ => exact before

/-- A way never comes back to where it was. -/
theorem Path.fresh (single : SingleParent roots children) {a : α} {path : List α}
    (leads : Path roots children (a :: path)) : a ∉ path := by
  intro again
  obtain ⟨front,rest,rfl⟩ := List.append_of_mem again
  have shorter : Path roots children (a :: rest) := Path.tail (a :: front) leads
  have same := congrArg List.length (leads.unique single shorter)
  simp only [List.length_append,List.length_cons] at same
  omega

theorem Path.nodup (single : SingleParent roots children) {path : List α}
    (leads : Path roots children path) : path.Nodup := by
  induction leads with
  | root a _ => exact List.nodup_singleton a
  | child a b path before listed ih =>
    exact List.nodup_cons.mpr ⟨(Path.child a b path before listed).fresh single,ih⟩

theorem Path.subset {places : List α} (inside : roots ⊆ places)
    (closed : ∀ a, children a ⊆ places) {path : List α} (leads : Path roots children path) :
    path ⊆ places := by
  induction leads with
  | root a member => exact List.cons_subset.mpr ⟨inside member,List.nil_subset _⟩
  | child a b path _ listed ih => exact List.cons_subset.mpr ⟨closed a listed,ih⟩

/-- The way leaves fewer and fewer places, so that the tree under it is finite. -/
theorem Path.exists_unfold (single : SingleParent roots children) {places : List α}
    (inside : roots ⊆ places) (closed : ∀ a, children a ⊆ places) {fuel : Nat} {a : α}
    {path : List α} (leads : Path roots children (a :: path))
    (enough : places.length < path.length + 1 + fuel) :
    ∃ tree, unfold children fuel a = some tree := by
  induction fuel generalizing a path with
  | zero =>
    have bound := ((leads.nodup single).subperm (leads.subset inside closed)).length_le
    rw [List.length_cons] at bound
    omega
  | succ fuel ih =>
    obtain ⟨subtrees,mapped⟩ : ∃ subtrees,
        (children a).mapM (unfold children fuel) = some subtrees := by
      apply exists_mapM
      intro b listed
      apply ih (.child a b path leads listed)
      rw [List.length_cons]
      omega
    exact ⟨.node a subtrees,by rw [unfold,mapped]; rfl⟩

/-- A node that stands under a place has its way through that place. -/
def Under (roots : List α) (children : α → List α) (above : List α) (b : α) : Prop :=
  ∃ path, Path roots children (b :: path) ∧ above <:+ b :: path

theorem labels_of_siblings (single : SingleParent roots children) {fuel : Nat} {path : List α}
    (each : ∀ a tree, Path roots children (a :: path) → unfold children fuel a = some tree →
      tree.labels.Nodup ∧ ∀ b ∈ tree.labels, Under roots children (a :: path) b)
    {siblings : List α} {trees : List (Tree α)}
    (leads : ∀ a ∈ siblings, Path roots children (a :: path)) (once : siblings.Nodup)
    (mapped : siblings.mapM (unfold children fuel) = some trees) :
    (labelsOf trees).Nodup ∧
      ∀ b ∈ labelsOf trees, ∃ a ∈ siblings, Under roots children (a :: path) b := by
  induction siblings generalizing trees with
  | nil =>
    obtain rfl := Option.some.inj mapped
    exact ⟨List.nodup_nil,fun b member => absurd member List.not_mem_nil⟩
  | cons a siblings ih =>
    obtain ⟨tree,rest,made,later,rfl⟩ := mapM_cons_some mapped
    obtain ⟨fresh,once⟩ := List.nodup_cons.mp once
    obtain ⟨here,under⟩ := each a tree (leads a List.mem_cons_self) made
    obtain ⟨there,others⟩ := ih (fun b member => leads b (List.mem_cons_of_mem a member)) once later
    rw [labelsOf]
    constructor
    · refine List.nodup_append.mpr ⟨here,there,?_⟩
      rintro b inside c inside' rfl
      obtain ⟨way,leads,above⟩ := under b inside
      obtain ⟨a',member,way',leads',above'⟩ := others b inside'
      rw [leads'.unique single leads] at above'
      have same := List.suffix_of_suffix_length_le above above' (le_of_eq rfl)
      have equal : a = a' := (List.cons.inj (same.eq_of_length rfl)).1
      exact fresh (equal ▸ member)
    · intro b member
      rcases List.mem_append.mp member with inside | inside
      · exact ⟨a,List.mem_cons_self,under b inside⟩
      · obtain ⟨a',listed,below⟩ := others b inside
        exact ⟨a',List.mem_cons_of_mem a listed,below⟩

theorem labels_of_unfold (single : SingleParent roots children) {fuel : Nat} {a : α}
    {path : List α} {tree : Tree α} (leads : Path roots children (a :: path))
    (unfolded : unfold children fuel a = some tree) :
    tree.labels.Nodup ∧ ∀ b ∈ tree.labels, Under roots children (a :: path) b := by
  induction fuel generalizing a path tree with
  | zero => cases unfolded
  | succ fuel ih =>
    obtain ⟨subtrees,mapped,rfl⟩ := unfold_succ unfolded
    obtain ⟨once,under⟩ := labels_of_siblings single
      (fun b subtree leads made => ih leads made)
      (fun b listed => .child a b path leads listed) (single.childrenOnce a) mapped
    rw [Tree.labels]
    constructor
    · refine List.nodup_cons.mpr ⟨?_,once⟩
      intro below
      obtain ⟨b,-,way,leads',above⟩ := under a below
      rw [leads'.unique single leads] at above
      have shorter := above.length_le
      simp only [List.length_cons] at shorter
      omega
    · intro b member
      rcases List.mem_cons.mp member with rfl | below
      · exact ⟨path,leads,List.suffix_rfl⟩
      · obtain ⟨c,-,way,leads',above⟩ := under b below
        exact ⟨way,leads',(List.suffix_cons c (a :: path)).trans above⟩

theorem Path.reached {a : α} {path : List α} (leads : Path roots children (a :: path)) :
    ∃ root ∈ roots, Relation.ReflTransGen (fun above below => below ∈ children above) root a := by
  induction path generalizing a with
  | nil =>
    cases leads with
    | root _ member => exact ⟨a,member,.refl⟩
  | cons above path ih =>
    cases leads with
    | child _ _ _ before listed =>
      obtain ⟨root,member,way⟩ := ih before
      exact ⟨root,member,.tail way listed⟩

/-- All that is reached from the roots, each place once, and nothing else. -/
theorem exists_forest (single : SingleParent roots children) {places : List α}
    (inside : roots ⊆ places) (closed : ∀ a, children a ⊆ places) :
    ∃ forest, unfoldAll children places.length roots = some forest ∧
      (labelsOf forest).Nodup ∧
      (∀ tree ∈ forest, tree.label ∈ roots ∧
        tree.Linked fun above below => below ∈ children above) ∧
      ∀ a, a ∈ labelsOf forest ↔ ∃ root ∈ roots,
        Relation.ReflTransGen (fun above below => below ∈ children above) root a := by
  have leads : ∀ a ∈ roots, Path roots children [a] := Path.root
  obtain ⟨forest,mapped⟩ : ∃ forest, roots.mapM (unfold children places.length) = some forest := by
    apply exists_mapM
    intro a member
    apply (leads a member).exists_unfold single inside closed
    rw [List.length_nil]
    omega
  obtain ⟨once,under⟩ := labels_of_siblings single
    (fun a tree leads made => labels_of_unfold single leads made) leads single.rootsOnce mapped
  refine ⟨forest,mapped,once,?_,?_⟩
  · intro tree member
    obtain ⟨a,listed,made⟩ := mem_of_mapM mapped member
    rw [label_of_unfold made]
    exact ⟨listed,linked_of_unfold made⟩
  · intro a
    constructor
    · intro member
      obtain ⟨b,-,path,leads,-⟩ := under a member
      exact leads.reached
    · rintro ⟨root,listed,way⟩
      obtain ⟨tree,member,made⟩ := mapM_mem mapped listed
      exact mem_labelsOf.mpr ⟨tree,member,mem_labels_of_reached way made⟩

end Paths

end HmclPe.Lib.Forests
