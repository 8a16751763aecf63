import Mathlib.Data.List.Sort
import Mathlib.Data.List.Nodup
import Mathlib.Tactic

/-! Sets that compare their elements by a key. Of two elements with one key the first that was added
stays, and the elements are listed in the order of their keys. -/
namespace HmclPe.Lib.KeyedSets

variable {α κ : Type} [LinearOrder κ]

structure KeyedSet (key : α → κ) where
  elements : List α
  sorted : elements.Pairwise fun a b => key a < key b

variable {key : α → κ}

def insertByKey (key : α → κ) (a : α) : List α → List α
  | [] => [a]
  | b :: list =>
    if key b < key a then b :: insertByKey key a list
    else if key a < key b then a :: b :: list
    else b :: list

theorem mem_insertByKey {list : List α} (sorted : list.Pairwise fun a b => key a < key b) {a b : α} :
    b ∈ insertByKey key a list ↔ b ∈ list ∨ b = a ∧ ∀ c ∈ list, key c ≠ key a := by
  induction list with
  | nil => simp [insertByKey]
  | cons c list ih =>
    obtain ⟨below,sorted⟩ := List.pairwise_cons.mp sorted
    rw [insertByKey]
    rcases lt_trichotomy (key c) (key a) with before | same | behind
    · rw [if_pos before,List.mem_cons,ih sorted,List.mem_cons,List.forall_mem_cons,or_assoc,
        and_iff_right before.ne]
    · rw [if_neg same.not_lt,if_neg same.symm.not_lt,List.forall_mem_cons]
      simp [same]
    · have apart : ∀ d ∈ list, key d ≠ key a := fun d member => (behind.trans (below d member)).ne'
      rw [if_neg behind.asymm,if_pos behind,List.forall_mem_cons,List.mem_cons,or_comm]
      rw [and_iff_left (show key c ≠ key a ∧ ∀ d ∈ list, key d ≠ key a from ⟨behind.ne',apart⟩)]

theorem insertByKey_sorted {list : List α} (sorted : list.Pairwise fun a b => key a < key b) (a : α) :
    (insertByKey key a list).Pairwise fun a b => key a < key b := by
  induction list with
  | nil => exact List.pairwise_singleton _ a
  | cons c list ih =>
    obtain ⟨below,later⟩ := List.pairwise_cons.mp sorted
    rw [insertByKey]
    split
    · next before =>
      refine List.pairwise_cons.mpr ⟨?_,ih later⟩
      intro b member
      rcases (mem_insertByKey later).mp member with old | ⟨rfl,-⟩
      · exact below b old
      · exact before
    · split
      · next behind =>
        refine List.pairwise_cons.mpr ⟨?_,sorted⟩
        intro b member
        rcases List.mem_cons.mp member with rfl | deeper
        · exact behind
        · exact behind.trans (below b deeper)
      · exact sorted

namespace KeyedSet

variable {s t : KeyedSet key} {a b : α}

instance : Membership α (KeyedSet key) := ⟨fun s a => a ∈ s.elements⟩

def empty : KeyedSet key := ⟨[],List.Pairwise.nil⟩

/-- What `contains` asks: an element with the key, not the element itself. -/
def contains (s : KeyedSet key) (a : α) : Bool := s.elements.any fun b => key b = key a

def add (a : α) (s : KeyedSet key) : KeyedSet key :=
  ⟨insertByKey key a s.elements,insertByKey_sorted s.sorted a⟩

def remove (a : α) (s : KeyedSet key) : KeyedSet key :=
  ⟨s.elements.filter fun b => key b ≠ key a,s.sorted.filter _⟩

def addAll (list : List α) (s : KeyedSet key) : KeyedSet key := list.foldl (fun s a => s.add a) s

theorem not_mem_empty (a : α) : a ∉ (empty : KeyedSet key) := List.not_mem_nil

theorem contains_iff : s.contains a = true ↔ ∃ b ∈ s, key b = key a := by
  rw [contains,List.any_eq_true]
  simp only [decide_eq_true_eq]
  rfl

theorem mem_add : b ∈ s.add a ↔ b ∈ s ∨ b = a ∧ ∀ c ∈ s, key c ≠ key a := mem_insertByKey s.sorted

theorem mem_remove : b ∈ s.remove a ↔ b ∈ s ∧ key b ≠ key a := by
  change b ∈ s.elements.filter _ ↔ _
  rw [List.mem_filter,decide_eq_true_iff]
  rfl

theorem contains_of_mem (member : a ∈ s) : s.contains a = true := contains_iff.mpr ⟨a,member,rfl⟩

theorem contains_add_self (s : KeyedSet key) (a : α) : (s.add a).contains a = true := by
  rw [contains_iff]
  by_cases old : ∃ b ∈ s, key b = key a
  · obtain ⟨b,member,same⟩ := old
    exact ⟨b,mem_add.mpr (.inl member),same⟩
  · exact ⟨a,mem_add.mpr (.inr ⟨rfl,fun b member same => old ⟨b,member,same⟩⟩),rfl⟩

theorem contains_remove_other (contained : s.contains a = true) (different : key a ≠ key b) :
    (s.remove b).contains a = true := by
  obtain ⟨c,member,same⟩ := contains_iff.mp contained
  exact contains_iff.mpr ⟨c,mem_remove.mpr ⟨member,same ▸ different⟩,same⟩

theorem nodup (s : KeyedSet key) : s.elements.Nodup :=
  s.sorted.imp fun before same => before.ne (congrArg key same)

theorem keys_nodup (s : KeyedSet key) : (s.elements.map key).Nodup :=
  List.pairwise_map.mpr (s.sorted.imp fun before => before.ne)

theorem ext (same : ∀ a, a ∈ s ↔ a ∈ t) : s = t := by
  obtain ⟨elements,sorted⟩ := s
  obtain ⟨elements',sorted'⟩ := t
  have irrefl : Std.Irrefl fun a b => key a < key b := ⟨fun a => lt_irrefl (key a)⟩
  have antisymm : Std.Antisymm fun a b => key a < key b :=
    ⟨fun a b before behind => absurd before behind.asymm⟩
  obtain rfl := sorted.eq_of_mem_iff sorted' same
  rfl

theorem fresh_add_iff {k : κ} :
    (∀ b ∈ s.add a, key b ≠ k) ↔ key a ≠ k ∧ ∀ b ∈ s, key b ≠ k := by
  constructor
  · intro fresh
    have old : ∀ b ∈ s, key b ≠ k := fun b member => fresh b (mem_add.mpr (.inl member))
    refine ⟨?_,old⟩
    rintro rfl
    exact fresh a (mem_add.mpr (.inr ⟨rfl,old⟩)) rfl
  · rintro ⟨here,old⟩ b member
    rcases mem_add.mp member with early | ⟨rfl,-⟩
    · exact old b early
    · exact here

theorem fresh_remove (s : KeyedSet key) (a : α) : ∀ b ∈ s.remove a, key b ≠ key a :=
  fun _ member => (mem_remove.mp member).2

theorem not_mem_remove (s : KeyedSet key) (a : α) : a ∉ s.remove a :=
  fun member => fresh_remove s a a member rfl

/-- An element that is taken out comes back, whatever came and went in between. -/
theorem mem_readded (s : KeyedSet key) (different : key a ≠ key b) :
    a ∈ (((s.remove a).add b).remove b).add a := by
  refine mem_add.mpr (.inr ⟨rfl,?_⟩)
  intro c member
  rcases mem_add.mp (mem_remove.mp member).1 with old | ⟨rfl,-⟩
  · exact fresh_remove s a c old
  · exact different.symm

theorem not_mem_readded (s : KeyedSet key) (different : key a ≠ key b) :
    b ∉ (((s.remove a).add b).remove b).add a := by
  intro member
  rcases mem_add.mp member with old | ⟨rfl,-⟩
  · exact not_mem_remove _ _ old
  · exact different rfl

/-- Of the elements with one key that are added, the first is in the set. -/
theorem mem_addAll {list : List α} : a ∈ s.addAll list ↔ a ∈ s ∨
    (∃ before after, list = before ++ a :: after ∧ ∀ b ∈ before, key b ≠ key a) ∧
      ∀ b ∈ s, key b ≠ key a := by
  induction list generalizing s with
  | nil =>
    rw [or_iff_left]
    · rfl
    · rintro ⟨⟨before,after,cut,-⟩,-⟩
      exact absurd cut (by simp)
  | cons b list ih =>
    rw [addAll,List.foldl_cons,← addAll,ih,mem_add,fresh_add_iff,or_assoc]
    refine or_congr_right ?_
    constructor
    · rintro (⟨rfl,fresh⟩ | ⟨⟨before,after,rfl,first⟩,different,fresh⟩)
      · exact ⟨⟨[],list,rfl,fun b member => absurd member List.not_mem_nil⟩,fresh⟩
      · exact ⟨⟨b :: before,after,rfl,List.forall_mem_cons.mpr ⟨different,first⟩⟩,fresh⟩
    · rintro ⟨⟨before,after,cut,first⟩,fresh⟩
      cases before with
      | nil =>
        obtain ⟨rfl,-⟩ := List.cons.inj cut
        exact .inl ⟨rfl,fresh⟩
      | cons c before =>
        obtain ⟨rfl,rest⟩ := List.cons.inj cut
        obtain ⟨different,first⟩ := List.forall_mem_cons.mp first
        exact .inr ⟨⟨before,after,rest,first⟩,different,fresh⟩

theorem mem_addAll_empty {list : List α} : a ∈ (empty : KeyedSet key).addAll list ↔
    ∃ before after, list = before ++ a :: after ∧ ∀ b ∈ before, key b ≠ key a := by
  rw [mem_addAll,or_iff_right (not_mem_empty a),and_iff_left]
  intro b member
  exact absurd member (not_mem_empty b)

theorem mem_addAll_of_nodup {list : List α} (distinct : (list.map key).Nodup) :
    a ∈ (empty : KeyedSet key).addAll list ↔ a ∈ list := by
  rw [mem_addAll_empty]
  constructor
  · rintro ⟨before,after,rfl,-⟩
    exact List.mem_append_right _ List.mem_cons_self
  · intro member
    obtain ⟨before,after,rfl⟩ := List.append_of_mem member
    refine ⟨before,after,rfl,?_⟩
    intro b early same
    rw [List.map_append,List.map_cons] at distinct
    exact List.disjoint_of_nodup_append distinct (List.mem_map_of_mem early)
      (same ▸ List.mem_cons_self)

/-- No element is dropped exactly where no two of them have one key. -/
theorem addAll_perm_iff {list : List α} :
    ((empty : KeyedSet key).addAll list).elements.Perm list ↔ (list.map key).Nodup := by
  constructor
  · intro same
    exact (same.map key).nodup_iff.mp (keys_nodup _)
  · intro distinct
    refine (List.perm_ext_iff_of_nodup (nodup _) (List.Nodup.of_map key distinct)).mpr ?_
    intro a
    exact mem_addAll_of_nodup distinct

end KeyedSet

end HmclPe.Lib.KeyedSets
