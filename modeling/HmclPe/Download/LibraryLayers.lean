import HmclPe.Download.PatchMerger
import HmclPe.Lib.KeyedRemoval

/-! What merging libraries leaves. When no patch names two versions of one artifact,
the libraries a patch touches go and its own are put behind the others. -/
namespace HmclPe.Download.LibraryLayers
open HmclPe.Java HmclPe.Game HmclPe.Download.PatchMerger HmclPe.Lib.KeyedRemoval

variable (env : Platform)

/-- What two equal libraries have in common. -/
structure Identity where
  name : Text
  native : Bool
  deriving DecidableEq

def identity (lib : Library) : Identity := ⟨lib.getName,lib.isNative env⟩

def Differs (a b : Library) : Prop :=
  a.getArtifactId = b.getArtifactId ∧ a.getVersion ≠ b.getVersion

instance (a b : Library) : Decidable (Differs a b) := inferInstanceAs (Decidable (_ ∧ _))

/-- The two reasons for which a merged library displaces another one. -/
def Touches (a b : Library) : Prop := identity env a = identity env b ∨ Differs a b

instance (a b : Library) : Decidable (Touches env a b) := inferInstanceAs (Decidable (_ ∨ _))

def Untouched (added : List Library) (lib : Library) : Prop := ∀ other ∈ added, ¬ Touches env lib other

instance (added : List Library) (lib : Library) : Decidable (Untouched env added lib) :=
  inferInstanceAs (Decidable (∀ _ ∈ _, _))

/-- Libraries with one printed name name one version of one artifact. -/
def Unambiguous (pool : List Library) : Prop :=
  ∀ a ∈ pool, ∀ b ∈ pool, identity env a = identity env b →
    a.getArtifactId = b.getArtifactId ∧ a.getVersion = b.getVersion

/-- No library of the list displaces another one of it. -/
def Clean (added : List Library) : Prop := added.Pairwise fun a b => ¬ Touches env a b

section Merge

theorem equals_iff (a b : Library) : a.equals env b = true ↔ identity env a = identity env b := by
  unfold Library.equals identity
  simp

theorem remove_eq (libraries : List Library) (lib : Library) :
    remove env libraries lib = removeFirst (identity env) libraries (identity env lib) := by
  unfold remove removeFirst
  congr 1
  funext other
  rw [Bool.eq_iff_iff,equals_iff,decide_eq_true_iff]
  exact eq_comm

/-- How many removals a library of the base causes, all of its own identity. -/
def weight (added : List Library) (library : Library) : Nat :=
  added.countP (fun lib => identity env library = identity env lib) +
    added.countP (fun lib => Differs library lib)

def requests (base added : List Library) : List (Identity) :=
  base.flatMap fun library => List.replicate (weight env added library) (identity env library)

theorem inner_loop (library : Library) (added libraries : List Library) :
    added.foldl (fun libraries lib =>
      let libraries := if library.equals env lib then remove env libraries lib else libraries
      if library.getArtifactId = lib.getArtifactId ∧ library.getVersion ≠ lib.getVersion
      then remove env libraries library else libraries) libraries =
    removeAll (identity env) libraries
      (List.replicate (weight env added library) (identity env library)) := by
  induction added generalizing libraries with
  | nil => rfl
  | cons lib rest ih =>
    rw [List.foldl_cons,ih]
    have split : weight env (lib :: rest) library =
        (if identity env library = identity env lib then 1 else 0) +
          ((if Differs library lib then 1 else 0) + weight env rest library) := by
      unfold weight
      simp only [List.countP_cons,decide_eq_true_eq]
      omega
    rw [split,List.replicate_add,List.replicate_add,removeAll_append_requests,
      removeAll_append_requests]
    congr 1
    have same : library.equals env lib = true ↔ identity env library = identity env lib :=
      equals_iff env library lib
    have differs : (library.getArtifactId = lib.getArtifactId ∧
        library.getVersion ≠ lib.getVersion) ↔ Differs library lib := Iff.rfl
    simp only [same,differs,remove_eq]
    by_cases equal : identity env library = identity env lib <;>
      by_cases other : Differs library lib <;>
        simp [equal,other,removeAll]

theorem mergeLibraries_eq (base added : List Library) :
    mergeLibraries env base added =
      removeAll (identity env) (base ++ added) (requests env base added) := by
  have loop (rest libraries : List Library) :
      rest.foldl (fun libraries library => removeAll (identity env) libraries
        (List.replicate (weight env added library) (identity env library))) libraries =
      removeAll (identity env) libraries (requests env rest added) := by
    induction rest generalizing libraries with
    | nil => rfl
    | cons library rest ih =>
      unfold requests at ih ⊢
      rw [List.foldl_cons,ih,List.flatMap_cons,removeAll_append_requests]
  rw [← loop]
  unfold mergeLibraries Lang.merge
  simp only [inner_loop,Option.getD_some]

theorem weight_congr {a b : Library} (same : identity env a = identity env b)
    (artifact : a.getArtifactId = b.getArtifactId ∧ a.getVersion = b.getVersion)
    (added : List Library) : weight env added a = weight env added b := by
  have differs (lib : Library) : Differs a lib ↔ Differs b lib := by
    unfold Differs
    rw [artifact.1,artifact.2]
  unfold weight
  simp only [same,differs]

theorem weight_eq_zero (added : List Library) (library : Library) :
    weight env added library = 0 ↔ Untouched env added library := by
  unfold weight Untouched Touches
  rw [Nat.add_eq_zero_iff,List.countP_eq_zero,List.countP_eq_zero]
  constructor
  · rintro ⟨alike,differs⟩ other member (equal | apart)
    · exact alike other member (decide_eq_true equal)
    · exact differs other member (decide_eq_true apart)
  · intro none
    exact ⟨fun other member equal => none other member (Or.inl (of_decide_eq_true equal)),
      fun other member apart => none other member (Or.inr (of_decide_eq_true apart))⟩

/-- A library that a clean list names itself is removed exactly once. -/
theorem weight_eq_one {pool added : List Library} (unambiguous : Unambiguous env pool)
    (inside : ∀ lib ∈ added, lib ∈ pool) (clean : Clean env added) {library lib : Library}
    (pooled : library ∈ pool) (member : lib ∈ added)
    (same : identity env library = identity env lib) : weight env added library = 1 := by
  have artifact := unambiguous library pooled lib (inside lib member) same
  rw [weight_congr env same artifact]
  obtain ⟨before,after,rfl⟩ := List.append_of_mem member
  have apart := List.pairwise_append.mp clean
  have behind := (List.pairwise_cons.mp apart.2.1).1
  have ahead (a : Library) (first : a ∈ before) : ¬ Touches env a lib := apart.2.2 a first lib (by simp)
  have beforeZero : weight env before lib = 0 := by
    rw [weight_eq_zero]
    intro a first touched
    apply ahead a first
    rcases touched with equal | differs
    · exact Or.inl equal.symm
    · exact Or.inr ⟨differs.1.symm,differs.2.symm⟩
  have afterZero : weight env after lib = 0 := (weight_eq_zero env after lib).mpr behind
  have self : ¬ Differs lib lib := fun differs => differs.2 rfl
  unfold weight at beforeZero afterZero ⊢
  simp only [List.countP_append,List.countP_cons,self,decide_true,decide_false,if_true] at *
  simp
  omega

theorem requests_count (added : List Library) (k : Identity) (n : Nat) (base : List Library)
    (weighs : ∀ library ∈ base, identity env library = k → weight env added library = n) :
    (requests env base added).count k = n * base.countP (fun library => identity env library = k) := by
  induction base with
  | nil => simp [requests]
  | cons library rest ih =>
    have later := ih fun other member => weighs other (by simp [member])
    unfold requests at later ⊢
    rw [List.flatMap_cons,List.count_append,later,List.count_replicate,List.countP_cons]
    by_cases same : identity env library = k
    · simp [same,weighs library (by simp) same,Nat.mul_add,Nat.add_comm]
    · simp [same]

theorem mem_requests {base added : List Library} {k : Identity} :
    k ∈ requests env base added ↔
      ∃ library ∈ base, weight env added library ≠ 0 ∧ identity env library = k := by
  unfold requests
  simp only [List.mem_flatMap,List.mem_replicate,eq_comm]

/-- Merging a clean list drops what it touches and puts it behind the rest. -/
theorem mergeLibraries_clean {pool base added : List Library} (unambiguous : Unambiguous env pool)
    (based : ∀ lib ∈ base, lib ∈ pool) (inside : ∀ lib ∈ added, lib ∈ pool)
    (clean : Clean env added) :
    mergeLibraries env base added =
      base.filter (fun lib => Untouched env added lib) ++ added := by
  have alike {a b : Library} (left : a ∈ base) (right : b ∈ base)
      (same : identity env a = identity env b) : weight env added a = weight env added b :=
    weight_congr env same (unambiguous a (based a left) b (based b right) same) added
  rw [mergeLibraries_eq,removeAll_append]
  · congr 1
    apply List.filter_congr
    intro x member
    rw [decide_eq_decide,mem_requests,← weight_eq_zero]
    constructor
    · intro absent
      by_contra heavy
      exact absent ⟨x,member,heavy,rfl⟩
    · rintro zero ⟨y,other,heavy,same⟩
      exact heavy ((alike other member same).trans zero)
  · intro x member requested
    obtain ⟨y,other,heavy,same⟩ := (mem_requests env).mp requested
    rw [requests_count env added (identity env x) (weight env added y) base]
    · exact Nat.le_mul_of_pos_left _ (Nat.pos_of_ne_zero heavy)
    · intro z third equal
      exact alike third other (equal.trans same.symm)
  · intro lib member
    rw [requests_count env added (identity env lib) 1 base,Nat.one_mul]
    intro z first equal
    exact weight_eq_one env unambiguous inside clean (based z first) member equal

end Merge

section Layers

def UntouchedBy (stack : List (List Library)) (lib : Library) : Prop :=
  ∀ added ∈ stack, Untouched env added lib

instance (stack : List (List Library)) (lib : Library) : Decidable (UntouchedBy env stack lib) :=
  inferInstanceAs (Decidable (∀ _ ∈ _, _))

/-- Of every list of the stack what no later list touches. -/
def layered : List (List Library) → List Library
  | [] => []
  | added :: later => added.filter (fun lib => UntouchedBy env later lib) ++ layered later

def mergeAll (base : List Library) (stack : List (List Library)) : List Library :=
  stack.foldl (mergeLibraries env) base

/-- Lists that merge cleanly, all drawn from one pool. -/
structure CleanStack (pool : List Library) (stack : List (List Library)) : Prop where
  unambiguous : Unambiguous env pool
  inside : ∀ added ∈ stack, ∀ lib ∈ added, lib ∈ pool
  clean : ∀ added ∈ stack, Clean env added

theorem CleanStack.of_subset {pool : List Library} {stack part : List (List Library)}
    (tidy : CleanStack env pool stack) (subset : part ⊆ stack) : CleanStack env pool part :=
  ⟨tidy.unambiguous,fun added member => tidy.inside added (subset member),
    fun added member => tidy.clean added (subset member)⟩

theorem layered_mem {stack : List (List Library)} {lib : Library} (member : lib ∈ layered env stack) :
    ∃ added ∈ stack, lib ∈ added := by
  induction stack with
  | nil => simp [layered] at member
  | cons added later ih =>
    rcases List.mem_append.mp member with first | rest
    · exact ⟨added,by simp,(List.mem_filter.mp first).1⟩
    · obtain ⟨other,inside,found⟩ := ih rest
      exact ⟨other,by simp [inside],found⟩

theorem mergeAll_clean {pool : List Library} {stack : List (List Library)}
    (tidy : CleanStack env pool stack) {base : List Library} (based : ∀ lib ∈ base, lib ∈ pool) :
    mergeAll env base stack =
      base.filter (fun lib => UntouchedBy env stack lib) ++ layered env stack := by
  induction stack generalizing base with
  | nil => simp [mergeAll,layered,UntouchedBy]
  | cons added later ih =>
    have inside := tidy.inside added (by simp)
    have merged := mergeLibraries_clean env tidy.unambiguous based inside (tidy.clean added (by simp))
    have rest := tidy.of_subset env (List.subset_cons_self added later)
    unfold mergeAll at ih ⊢
    rw [List.foldl_cons,merged,ih rest]
    · rw [List.filter_append,List.filter_filter,List.append_assoc,layered]
      congr 1
      apply List.filter_congr
      intro lib _
      rw [Bool.eq_iff_iff,Bool.and_eq_true,decide_eq_true_iff,decide_eq_true_iff,decide_eq_true_iff]
      unfold UntouchedBy
      rw [List.forall_mem_cons,and_comm]
    · intro lib member
      rcases List.mem_append.mp member with first | second
      · exact based lib (List.mem_filter.mp first).1
      · exact inside lib second

theorem mergeAll_pooled {pool : List Library} {stack : List (List Library)}
    (tidy : CleanStack env pool stack) {base : List Library} (based : ∀ lib ∈ base, lib ∈ pool) :
    ∀ lib ∈ mergeAll env base stack, lib ∈ pool := by
  intro lib member
  rw [mergeAll_clean env tidy based] at member
  rcases List.mem_append.mp member with first | second
  · exact based lib (List.mem_filter.mp first).1
  · obtain ⟨added,inside,found⟩ := layered_mem env second
    exact tidy.inside added inside lib found

/-- A library of the stack is touched by the stack. -/
theorem filter_untouchedBy {stack : List (List Library)} {libraries : List Library}
    (drawn : ∀ lib ∈ libraries, ∃ added ∈ stack, lib ∈ added) :
    libraries.filter (fun lib => UntouchedBy env stack lib) = [] := by
  apply List.filter_eq_nil_iff.mpr
  intro lib member untouched
  obtain ⟨added,inside,found⟩ := drawn lib member
  exact of_decide_eq_true untouched added inside lib found (Or.inl rfl)

/-- Merging a stack again changes nothing. -/
theorem mergeAll_again {pool : List Library} {stack : List (List Library)}
    (tidy : CleanStack env pool stack) {base : List Library} (based : ∀ lib ∈ base, lib ∈ pool) :
    mergeAll env (mergeAll env base stack) stack = mergeAll env base stack := by
  rw [mergeAll_clean env tidy (mergeAll_pooled env tidy based),mergeAll_clean env tidy based,
    List.filter_append,List.filter_filter,filter_untouchedBy env fun lib member => layered_mem env member]
  simp

theorem layered_without (before after : List (List Library)) (added : List Library) :
    (layered env (before ++ added :: after)).filter
        (fun lib => UntouchedBy env (before ++ after) lib) =
      added.filter (fun lib => UntouchedBy env (before ++ after) lib) := by
  have rest : (layered env after).filter (fun lib => UntouchedBy env (before ++ after) lib) = [] := by
    apply filter_untouchedBy
    intro lib member
    obtain ⟨other,inside,found⟩ := layered_mem env member
    exact ⟨other,by simp [inside],found⟩
  have whole (more : List (List Library)) (drawn : more ⊆ before) :
      (layered env (more ++ added :: after)).filter
          (fun lib => UntouchedBy env (before ++ after) lib) =
        added.filter (fun lib => UntouchedBy env (before ++ after) lib) := by
    induction more with
    | nil =>
      rw [List.nil_append,layered,List.filter_append,rest,List.append_nil,List.filter_filter]
      apply List.filter_congr
      intro lib _
      rw [Bool.eq_iff_iff,Bool.and_eq_true,decide_eq_true_iff,decide_eq_true_iff]
      apply and_iff_left_of_imp
      intro untouched other inside
      exact untouched other (by simp [inside])
    | cons first more ih =>
      obtain ⟨member,drawn⟩ := List.cons_subset.mp drawn
      rw [List.cons_append,layered,List.filter_append,ih drawn,filter_untouchedBy,List.nil_append]
      intro lib inside
      exact ⟨first,by simp [member],(List.mem_filter.mp inside).1⟩
  exact whole before (fun _ member => member)

/-- What is left when one list of a merged stack is taken out and the others are merged again. -/
theorem mergeAll_without {pool : List Library} {before after : List (List Library)}
    {added : List Library} (tidy : CleanStack env pool (before ++ added :: after))
    {base : List Library} (based : ∀ lib ∈ base, lib ∈ pool) :
    mergeAll env (mergeAll env base (before ++ added :: after)) (before ++ after) =
      base.filter (fun lib => UntouchedBy env (before ++ added :: after) lib) ++
        added.filter (fun lib => UntouchedBy env (before ++ after) lib) ++
        layered env (before ++ after) := by
  have fewer : before ++ after ⊆ before ++ added :: after := by
    intro other member
    rcases List.mem_append.mp member with first | second
    · exact List.mem_append_left _ first
    · exact List.mem_append_right _ (List.mem_cons_of_mem _ second)
  rw [mergeAll_clean env (tidy.of_subset env fewer) (mergeAll_pooled env tidy based),
    mergeAll_clean env tidy based,List.filter_append,layered_without,List.filter_filter]
  congr 2
  apply List.filter_congr
  intro lib _
  rw [Bool.eq_iff_iff,Bool.and_eq_true,decide_eq_true_iff,decide_eq_true_iff]
  apply and_iff_right_of_imp
  intro untouched other inside
  exact untouched other (fewer inside)

end Layers

end HmclPe.Download.LibraryLayers
