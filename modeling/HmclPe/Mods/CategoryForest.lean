import HmclPe.Lib.Forests

/-! The flat list of categories that a repository of mods answers with, as a forest. A category is
named by its place in the list. -/
namespace HmclPe.Mods
open HmclPe.Lib.Forests

section Model

structure Category where
  id : Int
  parentCategoryId : Int
deriving DecidableEq

/-- What was added to the result and to the subcategories of each category. -/
structure Organization where
  result : List Nat
  subcategories : Nat → List Nat

def putCategory (categoryMap : Int → Option Nat) (entry : Category × Nat) : Int → Option Nat :=
  Function.update categoryMap entry.1.id (some entry.2)

def categoryMap (categories : List Category) : Int → Option Nat :=
  categories.zipIdx.foldl putCategory fun _ => none

def addCategory (rootId : Int) (categoryMap : Int → Option Nat) (organization : Organization)
    (entry : Category × Nat) : Organization :=
  if entry.1.parentCategoryId = rootId then
    {organization with result := organization.result ++ [entry.2]}
  else match categoryMap entry.1.parentCategoryId with
    -- Category list is not correct, so we ignore this item.
    | none => organization
    | some parent => {organization with
        subcategories := Function.update organization.subcategories parent
          (organization.subcategories parent ++ [entry.2])}

def reorganizeCategories (categories : List Category) (rootId : Int) : Organization :=
  categories.zipIdx.foldl (addCategory rootId (categoryMap categories)) ⟨[],fun _ => []⟩

/-- The categories of `getCategories`; `toCategory` descends into the subcategories, at most as deep
as the fuel. -/
def Organization.toCategories (organization : Organization) (fuel : Nat) :
    Option (List (Lib.Forests.Tree Nat)) :=
  unfoldAll organization.subcategories fuel organization.result

end Model

section Parents
variable (categories : List Category) (rootId : Int)

def LastOf (id : Int) (i : Nat) : Prop :=
  (∃ category, categories[i]? = some category ∧ category.id = id) ∧
    ∀ j category, categories[j]? = some category → category.id = id → j ≤ i

def TopLevel (i : Nat) : Prop :=
  ∃ category, categories[i]? = some category ∧ category.parentCategoryId = rootId

def ParentOf (above below : Nat) : Prop :=
  ∃ parent category, categories[above]? = some parent ∧ categories[below]? = some category ∧
    category.parentCategoryId = parent.id

/-- A chain of parents leads to the root. -/
inductive Rooted : Nat → Prop
  | top (i : Nat) (here : TopLevel categories rootId i) : Rooted i
  | child (i parent : Nat) (category : Category) (listed : categories[i]? = some category)
      (last : LastOf categories category.parentCategoryId parent) (rooted : Rooted parent) : Rooted i

end Parents

variable {categories : List Category} {rootId : Int}

section Map

theorem categoryMap_concat (category : Category) :
    categoryMap (categories ++ [category]) =
      Function.update (categoryMap categories) category.id (some categories.length) := by
  rw [categoryMap,List.zipIdx_append,List.foldl_append]
  simp [categoryMap,putCategory]

theorem lastOf_concat (category : Category) (id : Int) (i : Nat) :
    LastOf (categories ++ [category]) id i ↔
      if id = category.id then i = categories.length else LastOf categories id i := by
  have here : (categories ++ [category])[categories.length]? = some category :=
    List.getElem?_concat_length
  split
  · next same =>
    constructor
    · rintro ⟨⟨other,found,-⟩,last⟩
      have above := last categories.length category here same.symm
      obtain ⟨within,-⟩ := List.getElem?_eq_some_iff.mp found
      rw [List.length_append,List.length_singleton] at within
      omega
    · rintro rfl
      refine ⟨⟨category,here,same.symm⟩,?_⟩
      intro j other found _
      obtain ⟨within,-⟩ := List.getElem?_eq_some_iff.mp found
      rw [List.length_append,List.length_singleton] at within
      omega
  · next different =>
    have old : ∀ (j : Nat) (other : Category), other.id = id →
        ((categories ++ [category])[j]? = some other ↔ categories[j]? = some other) := by
      rintro j other rfl
      rcases lt_trichotomy j categories.length with inside | rfl | outside
      · rw [List.getElem?_append_left inside]
      · rw [here,List.getElem?_eq_none le_rfl]
        constructor
        · intro same
          exact absurd (congrArg Category.id (Option.some.inj same)).symm different
        · intro impossible
          cases impossible
      · rw [List.getElem?_eq_none outside.le,List.getElem?_eq_none]
        rw [List.length_append,List.length_singleton]
        omega
    constructor
    · rintro ⟨⟨other,found,named⟩,last⟩
      refine ⟨⟨other,(old i other named).mp found,named⟩,?_⟩
      intro j another listed same
      exact last j another ((old j another same).mpr listed) same
    · rintro ⟨⟨other,found,named⟩,last⟩
      refine ⟨⟨other,(old i other named).mpr found,named⟩,?_⟩
      intro j another listed same
      exact last j another ((old j another same).mp listed) same

theorem categoryMap_eq_some {id : Int} {i : Nat} :
    categoryMap categories id = some i ↔ LastOf categories id i := by
  induction categories using List.reverseRecOn with
  | nil => simp [categoryMap,LastOf]
  | append_singleton categories category ih =>
    rw [categoryMap_concat,lastOf_concat,Function.update_apply]
    split
    · rw [Option.some_inj,eq_comm]
    · exact ih

end Map

section Organize
variable {map : Int → Option Nat} {entries : List (Category × Nat)} {organization : Organization}

def isTop (rootId : Int) (entry : Category × Nat) : Bool :=
  entry.1.parentCategoryId = rootId

def isChild (rootId : Int) (map : Int → Option Nat) (parent : Nat) (entry : Category × Nat) : Bool :=
  entry.1.parentCategoryId ≠ rootId ∧ map entry.1.parentCategoryId = some parent

theorem result_foldl :
    (entries.foldl (addCategory rootId map) organization).result =
      organization.result ++ (entries.filter (isTop rootId)).map Prod.snd := by
  induction entries generalizing organization with
  | nil => simp
  | cons entry entries ih =>
    rw [List.foldl_cons,ih,List.filter_cons]
    by_cases top : entry.1.parentCategoryId = rootId
    · simp [addCategory,isTop,top]
    · have same : (addCategory rootId map organization entry).result = organization.result := by
        rw [addCategory,if_neg top]
        cases map entry.1.parentCategoryId <;> rfl
      simp [isTop,top,same]

theorem subcategories_foldl (parent : Nat) :
    (entries.foldl (addCategory rootId map) organization).subcategories parent =
      organization.subcategories parent ++
        (entries.filter (isChild rootId map parent)).map Prod.snd := by
  induction entries generalizing organization with
  | nil => simp
  | cons entry entries ih =>
    rw [List.foldl_cons,ih,List.filter_cons]
    by_cases top : entry.1.parentCategoryId = rootId
    · simp [addCategory,isChild,top]
    · cases found : map entry.1.parentCategoryId with
      | none => simp [addCategory,isChild,top,found]
      | some other =>
        by_cases same : parent = other
        · subst same
          simp [addCategory,isChild,top,found]
        · simp [addCategory,isChild,top,found,same,Ne.symm same]

theorem result_eq : (reorganizeCategories categories rootId).result =
    (categories.zipIdx.filter (isTop rootId)).map Prod.snd := by
  rw [reorganizeCategories,result_foldl,List.nil_append]

theorem subcategories_eq (parent : Nat) :
    (reorganizeCategories categories rootId).subcategories parent =
      (categories.zipIdx.filter (isChild rootId (categoryMap categories) parent)).map Prod.snd := by
  rw [reorganizeCategories,subcategories_foldl,List.nil_append]

theorem filter_nodup (test : Category × Nat → Bool) :
    ((categories.zipIdx.filter test).map Prod.snd).Nodup := by
  have once : (categories.zipIdx.map Prod.snd).Nodup := by
    rw [List.zipIdx_map_snd]
    exact List.nodup_range'
  exact once.sublist (List.filter_sublist.map _)

theorem mem_result {i : Nat} :
    i ∈ (reorganizeCategories categories rootId).result ↔ TopLevel categories rootId i := by
  rw [result_eq,List.mem_map]
  constructor
  · rintro ⟨⟨category,j⟩,member,rfl⟩
    obtain ⟨listed,top⟩ := List.mem_filter.mp member
    exact ⟨category,List.mem_zipIdx_iff_getElem?.mp listed,of_decide_eq_true top⟩
  · rintro ⟨category,listed,top⟩
    exact ⟨⟨category,i⟩,List.mem_filter.mpr
      ⟨List.mem_zipIdx_iff_getElem?.mpr listed,decide_eq_true top⟩,rfl⟩

theorem mem_subcategories {parent i : Nat} :
    i ∈ (reorganizeCategories categories rootId).subcategories parent ↔
      ∃ category, categories[i]? = some category ∧ category.parentCategoryId ≠ rootId ∧
        LastOf categories category.parentCategoryId parent := by
  rw [subcategories_eq,List.mem_map]
  constructor
  · rintro ⟨⟨category,j⟩,member,rfl⟩
    obtain ⟨listed,child⟩ := List.mem_filter.mp member
    obtain ⟨other,found⟩ := of_decide_eq_true child
    exact ⟨category,List.mem_zipIdx_iff_getElem?.mp listed,other,categoryMap_eq_some.mp found⟩
  · rintro ⟨category,listed,other,last⟩
    exact ⟨⟨category,i⟩,List.mem_filter.mpr ⟨List.mem_zipIdx_iff_getElem?.mpr listed,
      decide_eq_true ⟨other,categoryMap_eq_some.mpr last⟩⟩,rfl⟩

/-- Each category is added to at most one list, and only once. -/
theorem singleParent : SingleParent (reorganizeCategories categories rootId).result
    (reorganizeCategories categories rootId).subcategories where
  rootsOnce := by
    rw [result_eq]
    exact filter_nodup _
  childrenOnce parent := by
    rw [subcategories_eq]
    exact filter_nodup _
  apart := by
    intro parent i top child
    obtain ⟨category,listed,root⟩ := mem_result.mp top
    obtain ⟨category',listed',other,-⟩ := mem_subcategories.mp child
    obtain rfl := Option.some.inj (listed.symm.trans listed')
    exact other root
  unique := by
    intro parent parent' i child child'
    obtain ⟨category,listed,-,last⟩ := mem_subcategories.mp child
    obtain ⟨category',listed',-,last'⟩ := mem_subcategories.mp child'
    obtain rfl := Option.some.inj (listed.symm.trans listed')
    have found := categoryMap_eq_some.mpr last
    rw [categoryMap_eq_some.mpr last'] at found
    exact (Option.some.inj found).symm

end Organize

section Forest

theorem TopLevel.lt {i : Nat} (top : TopLevel categories rootId i) : i < categories.length := by
  obtain ⟨category,listed,-⟩ := top
  exact (List.getElem?_eq_some_iff.mp listed).1

theorem parentOf_of_child {above below : Nat}
    (child : below ∈ (reorganizeCategories categories rootId).subcategories above) :
    ParentOf categories above below := by
  obtain ⟨category,listed,-,⟨parent,found,named⟩,-⟩ := mem_subcategories.mp child
  exact ⟨parent,category,found,listed,named.symm⟩

theorem rooted_iff_reached {i : Nat} :
    Rooted categories rootId i ↔
      ∃ root ∈ (reorganizeCategories categories rootId).result,
        Relation.ReflTransGen (fun above below =>
          below ∈ (reorganizeCategories categories rootId).subcategories above) root i := by
  constructor
  · intro rooted
    induction rooted with
    | top i here => exact ⟨i,mem_result.mpr here,.refl⟩
    | child i parent category listed last _ ih =>
      by_cases top : category.parentCategoryId = rootId
      · exact ⟨i,mem_result.mpr ⟨category,listed,top⟩,.refl⟩
      · obtain ⟨root,member,way⟩ := ih
        exact ⟨root,member,way.tail (mem_subcategories.mpr ⟨category,listed,top,last⟩)⟩
  · rintro ⟨root,member,way⟩
    induction way with
    | refl => exact .top root (mem_result.mp member)
    | tail _ child ih =>
      obtain ⟨category,listed,-,last⟩ := mem_subcategories.mp child
      exact .child _ _ category listed last ih

theorem reorganizeCategories_forest (categories : List Category) (rootId : Int) :
    ∃ forest, (reorganizeCategories categories rootId).toCategories categories.length = some forest ∧
      (labelsOf forest).Nodup ∧
      (∀ tree ∈ forest, TopLevel categories rootId tree.label ∧ tree.Linked (ParentOf categories)) ∧
      ∀ i, i ∈ labelsOf forest ↔ Rooted categories rootId i := by
  have inside : (reorganizeCategories categories rootId).result ⊆ List.range categories.length := by
    intro i member
    exact List.mem_range.mpr (mem_result.mp member).lt
  have closed : ∀ parent, (reorganizeCategories categories rootId).subcategories parent ⊆
      List.range categories.length := by
    intro parent i child
    obtain ⟨category,listed,-⟩ := mem_subcategories.mp child
    exact List.mem_range.mpr (List.getElem?_eq_some_iff.mp listed).1
  obtain ⟨forest,made,once,linked,reached⟩ := exists_forest singleParent inside closed
  rw [List.length_range] at made
  refine ⟨forest,made,once,?_,?_⟩
  · intro tree member
    obtain ⟨top,links⟩ := linked tree member
    exact ⟨mem_result.mp top,links.mono fun _ _ => parentOf_of_child⟩
  · intro i
    rw [reached,rooted_iff_reached]

end Forest

end HmclPe.Mods
