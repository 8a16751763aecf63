import HmclPe.Download.LibraryLayers

/-! What one merge of a patch leaves of the libraries of the version and of its own, for lists
with any number of copies and versions of one artifact. -/
namespace HmclPe.Download.LibraryLaw
open HmclPe.Java HmclPe.Game HmclPe.Download.PatchMerger HmclPe.Download.LibraryLayers
open HmclPe.Lib.KeyedRemoval

variable (env : Platform)

def Contains (libraries : List Library) (library : Library) : Prop :=
  ∃ other ∈ libraries, other.equals env library = true

def NoTwoEqual (libraries : List Library) : Prop :=
  libraries.Pairwise fun library other => library.equals env other = false

def OtherVersion (library other : Library) : Prop :=
  other.getGroupId = library.getGroupId ∧ other.getArtifactId = library.getArtifactId ∧
    other.getVersion ≠ library.getVersion

structure Lawful (base added merged : List Library) : Prop where
  whole : ∀ library ∈ added, Contains env merged library
  absent : ∀ library ∈ base, ¬Contains env merged library →
    ∃ other ∈ added, OtherVersion library other
  distinct : NoTwoEqual env base → NoTwoEqual env added → NoTwoEqual env merged
  inOrder : ∃ kept taken, merged = kept ++ taken ∧ kept.Sublist base ∧ taken.Sublist added

def copies (libraries : List Library) (library : Library) : Nat :=
  libraries.countP fun other => library.equals env other

/-- How often an added library has the artifact id, but not the version, of a copy of the
library in the base. -/
def displacements (base added : List Library) (library : Library) : Nat :=
  ((base.filter fun twin => library.equals env twin).map fun twin =>
    added.countP fun other => Differs twin other).sum

/-- What a library of both lists, and one of the base alone, have to be spared. -/
structure Spared (base added : List Library) : Prop where
  shared : ∀ library ∈ base, 0 < copies env added library →
    (∀ other ∈ added, ¬Differs library other) ∧
      (copies env base library = 1 ∨ copies env added library = 1)
  displaced : ∀ library ∈ base, copies env added library = 0 →
    (∃ other ∈ added, OtherVersion library other) ∨
      displacements env base added library < copies env base library

variable {env}

theorem equals_comm (library other : Library) :
    library.equals env other = other.equals env library := by
  rw [Bool.eq_iff_iff,equals_iff,equals_iff]
  exact eq_comm

theorem copies_eq (libraries : List Library) (library : Library) :
    copies env libraries library =
      libraries.countP fun other => identity env other = identity env library := by
  unfold copies
  congr 1
  funext other
  rw [Bool.eq_iff_iff,equals_iff,decide_eq_true_iff]
  exact eq_comm

theorem copies_congr {library other : Library} (same : library.equals env other = true)
    (libraries : List Library) : copies env libraries library = copies env libraries other := by
  rw [copies_eq,copies_eq,(equals_iff env library other).mp same]

theorem contains_iff (libraries : List Library) (library : Library) :
    Contains env libraries library ↔ 0 < copies env libraries library := by
  unfold Contains copies
  rw [List.countP_pos_iff]
  simp only [equals_comm library]

theorem copies_append (front back : List Library) (library : Library) :
    copies env (front ++ back) library = copies env front library + copies env back library :=
  List.countP_append

theorem displacements_cons (first : Library) (base added : List Library) (library : Library) :
    displacements env (first :: base) added library =
      (if library.equals env first then added.countP fun other => Differs first other else 0) +
        displacements env base added library := by
  unfold displacements
  rw [List.filter_cons]
  split
  · rw [List.map_cons,List.sum_cons]
  · rw [Nat.zero_add]

/-- Each copy in the base has one copy removed for each of those the patch brings. -/
theorem count_requests (base added : List Library) (library : Library) :
    (requests env base added).count (identity env library) =
      copies env base library * copies env added library +
        displacements env base added library := by
  induction base with
  | nil => simp [requests,copies,displacements]
  | cons first rest ih =>
    have later : requests env (first :: rest) added =
        List.replicate (weight env added first) (identity env first) ++ requests env rest added :=
      List.flatMap_cons
    rw [later,List.count_append,ih,displacements_cons,List.count_replicate]
    by_cases same : library.equals env first = true
    · have alike := (equals_iff env library first).mp same
      have counted : copies env (first :: rest) library = copies env rest library + 1 := by
        unfold copies
        rw [List.countP_cons_of_pos same]
      have own : added.countP (fun other => identity env first = identity env other) =
          copies env added library := by
        rw [copies_eq,alike]
        simp only [eq_comm]
      rw [if_pos same,if_pos (by simp [alike]),counted,weight,own,Nat.succ_mul]
      omega
    · have other : ¬identity env first = identity env library := by
        intro alike
        exact same ((equals_iff env library first).mpr alike.symm)
      have counted : copies env (first :: rest) library = copies env rest library := by
        unfold copies
        rw [List.countP_cons_of_neg same]
      rw [if_neg same,if_neg (by simpa using other),counted]
      omega

theorem copies_mergeLibraries (base added : List Library) (library : Library) :
    copies env (mergeLibraries env base added) library =
      copies env base library + copies env added library -
        (copies env base library * copies env added library +
          displacements env base added library) := by
  rw [copies_eq,mergeLibraries_eq,countP_removeAll,count_requests,← copies_eq,copies_append]

theorem displacements_eq_zero (base added : List Library) (library : Library) :
    displacements env base added library = 0 ↔
      ∀ twin ∈ base, library.equals env twin = true → ∀ other ∈ added, ¬Differs twin other := by
  unfold displacements
  rw [List.sum_eq_zero_iff]
  constructor
  · intro none twin inside same
    have zero := none _ (List.mem_map.mpr ⟨twin,List.mem_filter.mpr ⟨inside,same⟩,rfl⟩)
    simpa only [List.countP_eq_zero,decide_eq_true_eq] using zero
  · intro spared count counted
    obtain ⟨twin,member,rfl⟩ := List.mem_map.mp counted
    obtain ⟨inside,same⟩ := List.mem_filter.mp member
    simpa only [List.countP_eq_zero,decide_eq_true_eq] using spared twin inside same

theorem displacements_of_absent {base : List Library} (added : List Library) {library : Library}
    (absent : copies env base library = 0) : displacements env base added library = 0 := by
  rw [displacements_eq_zero]
  intro twin inside same
  exact absurd same (List.countP_eq_zero.mp absent twin inside)

theorem copies_pos {libraries : List Library} {library : Library} (inside : library ∈ libraries) :
    0 < copies env libraries library :=
  List.countP_pos_iff.mpr ⟨library,inside,(equals_iff env library library).mpr rfl⟩

/-- One removal for each pair of copies leaves one only where a list has a single copy. -/
theorem mul_lt_add_iff {m n : Nat} (first : 0 < m) (second : 0 < n) :
    m * n < m + n ↔ m = 1 ∨ n = 1 := by
  obtain ⟨m,rfl⟩ := Nat.exists_eq_succ_of_ne_zero (Nat.ne_of_gt first)
  obtain ⟨n,rfl⟩ := Nat.exists_eq_succ_of_ne_zero (Nat.ne_of_gt second)
  have product : (m + 1) * (n + 1) = m * n + m + n + 1 := by ring
  simp only [Nat.succ_eq_add_one,product,Nat.add_eq_right]
  constructor
  · intro less
    have none : m * n = 0 := by omega
    exact Nat.mul_eq_zero.mp none
  · intro single
    have none : m * n = 0 := Nat.mul_eq_zero.mpr single
    omega

theorem noTwoEqual_iff (libraries : List Library) :
    NoTwoEqual env libraries ↔ ∀ library, copies env libraries library ≤ 1 := by
  have nodup : NoTwoEqual env libraries ↔ (libraries.map (identity env)).Nodup := by
    rw [List.Nodup,List.pairwise_map]
    refine List.Pairwise.iff fun library other => ?_
    rw [← Bool.not_eq_true,equals_iff]
  have counted (library : Library) :
      copies env libraries library = (libraries.map (identity env)).count (identity env library) := by
    rw [copies_eq,List.count,List.countP_map]
    rfl
  rw [nodup,List.nodup_iff_count_le_one]
  constructor
  · intro single library
    rw [counted]
    exact single _
  · intro single k
    by_cases member : k ∈ libraries.map (identity env)
    · obtain ⟨library,_,rfl⟩ := List.mem_map.mp member
      rw [← counted]
      exact single library
    · rw [List.count_eq_zero.mpr member]
      exact Nat.zero_le _

theorem mergeLibraries_inOrder (base added : List Library) : ∃ kept taken,
    mergeLibraries env base added = kept ++ taken ∧ kept.Sublist base ∧ taken.Sublist added := by
  rw [mergeLibraries_eq]
  exact List.sublist_append_iff.mp (removeAll_sublist (identity env) (base ++ added) _)

theorem contains_mergeLibraries (base added : List Library) (library : Library) :
    Contains env (mergeLibraries env base added) library ↔
      copies env base library * copies env added library + displacements env base added library <
        copies env base library + copies env added library := by
  rw [contains_iff,copies_mergeLibraries]
  omega

theorem mergeLibraries_distinct {base added : List Library} (own : NoTwoEqual env base)
    (brought : NoTwoEqual env added) : NoTwoEqual env (mergeLibraries env base added) := by
  rw [noTwoEqual_iff] at own brought ⊢
  intro library
  have first := own library
  have second := brought library
  rw [copies_mergeLibraries]
  by_cases none : copies env base library = 0
  · omega
  · have one : copies env base library = 1 := by omega
    rw [one,Nat.one_mul]
    omega

theorem spared_of_lawful {base added : List Library}
    (lawful : Lawful env base added (mergeLibraries env base added)) : Spared env base added := by
  obtain ⟨whole,absent,_,_⟩ := lawful
  refine ⟨?_,?_⟩
  · intro library inside brought
    obtain ⟨twin,member,same⟩ := List.countP_pos_iff.mp brought
    have left := (contains_mergeLibraries base added twin).mp (whole twin member)
    rw [← copies_congr same,← copies_congr same] at left
    have own : 0 < copies env base library := copies_pos inside
    have displaced : displacements env base added twin = displacements env base added library := by
      unfold displacements
      have alike : ∀ other : Library, twin.equals env other = library.equals env other := by
        intro other
        rw [Bool.eq_iff_iff,equals_iff,equals_iff,(equals_iff env library twin).mp same]
      simp only [alike]
    rw [displaced] at left
    have single := (mul_lt_add_iff own brought).mp (by omega)
    refine ⟨?_,single⟩
    have none : displacements env base added library = 0 := by
      cases single with
      | inl one =>
        rw [one,Nat.one_mul] at left
        omega
      | inr one =>
        rw [one,Nat.mul_one] at left
        omega
    exact (displacements_eq_zero base added library).mp none library inside
      ((equals_iff env library library).mpr rfl)
  · intro library inside unbrought
    by_cases other : ∃ other ∈ added, OtherVersion library other
    · exact Or.inl other
    · right
      have there : Contains env (mergeLibraries env base added) library := by
        by_contra gone
        exact other (absent library inside gone)
      rw [contains_mergeLibraries,unbrought] at there
      simpa using there

theorem lawful_of_spared {base added : List Library} (spared : Spared env base added) :
    Lawful env base added (mergeLibraries env base added) := by
  obtain ⟨shared,displaced⟩ := spared
  have whole : ∀ library, 0 < copies env added library →
      Contains env (mergeLibraries env base added) library := by
    intro library brought
    rw [contains_mergeLibraries]
    by_cases own : copies env base library = 0
    · rw [own,displacements_of_absent added own]
      omega
    · have none : displacements env base added library = 0 := by
        rw [displacements_eq_zero]
        intro twin inside same
        exact (shared twin inside (copies_congr same added ▸ brought)).1
      obtain ⟨twin,inside,same⟩ := List.countP_pos_iff.mp (Nat.pos_of_ne_zero own)
      have single := (shared twin inside (copies_congr same added ▸ brought)).2
      rw [← copies_congr same,← copies_congr same] at single
      rw [none]
      exact (mul_lt_add_iff (Nat.pos_of_ne_zero own) brought).mpr single
  refine ⟨fun library inside => whole library (copies_pos inside),?_,mergeLibraries_distinct,
    mergeLibraries_inOrder base added⟩
  intro library inside gone
  by_cases brought : copies env added library = 0
  · cases displaced library inside brought with
    | inl other => exact other
    | inr left =>
      rw [contains_mergeLibraries,brought] at gone
      exact absurd (by simpa using left) gone
  · exact absurd (whole library (Nat.pos_of_ne_zero brought)) gone

theorem lawful_mergeLibraries (base added : List Library) :
    Lawful env base added (mergeLibraries env base added) ↔ Spared env base added :=
  ⟨spared_of_lawful,lawful_of_spared⟩

/-- Where equal libraries name one artifact, only the ids of what the patch brings count. -/
theorem displacements_lt_iff {base : List Library} (added : List Library) {library : Library}
    (unambiguous : Unambiguous env base) (inside : library ∈ base) :
    displacements env base added library < copies env base library ↔
      ∀ other ∈ added, ¬Differs library other := by
  have alike : displacements env base added library =
      copies env base library * added.countP fun other => Differs library other := by
    have same : ∀ twin ∈ base.filter (fun twin => library.equals env twin),
        (added.countP fun other => Differs twin other) =
          added.countP fun other => Differs library other := by
      intro twin member
      obtain ⟨there,equal⟩ := List.mem_filter.mp member
      have artifact := unambiguous library inside twin there ((equals_iff env library twin).mp equal)
      have differs : ∀ other, Differs twin other ↔ Differs library other := by
        intro other
        rw [Differs,Differs,artifact.1,artifact.2]
      simp only [differs]
    rw [displacements,copies,List.map_congr_left same,List.map_const',List.sum_replicate,
      smul_eq_mul,← List.countP_eq_length_filter]
  have own : 0 < copies env base library := copies_pos inside
  rw [alike,mul_lt_iff_lt_one_right own,Nat.lt_one_iff,List.countP_eq_zero]
  simp only [decide_eq_true_eq]

theorem mergePatch_libraries (gameVersionJson patch : Version) :
    (mergePatch env gameVersionJson patch).getLibraries =
        mergeLibraries env gameVersionJson.getLibraries patch.getLibraries ∧
      (mergeOptifinePatch env gameVersionJson patch).getLibraries =
        mergeLibraries env gameVersionJson.getLibraries patch.getLibraries := by
  refine ⟨?_,?_⟩
  · simp only [mergePatch,mergeArgumentsOf_eq,mergeMinecraftArgumentsOf_eq,
      setLibraries_getLibraries]
    rfl
  · simp only [mergeOptifinePatch,mergeArgumentsOf_eq,mergeMinecraftArgumentsOf_eq,
      setLibraries_getLibraries]
    split <;> rfl

theorem lawful_iff_spared (gameVersionJson patch : Version) :
    (Lawful env gameVersionJson.getLibraries patch.getLibraries
        (mergePatch env gameVersionJson patch).getLibraries ↔
      Spared env gameVersionJson.getLibraries patch.getLibraries) ∧
    (Lawful env gameVersionJson.getLibraries patch.getLibraries
        (mergeOptifinePatch env gameVersionJson patch).getLibraries ↔
      Spared env gameVersionJson.getLibraries patch.getLibraries) := by
  obtain ⟨plain,optifine⟩ := @mergePatch_libraries env gameVersionJson patch
  rw [plain,optifine]
  exact ⟨lawful_mergeLibraries _ _,lawful_mergeLibraries _ _⟩

def lib (group name version : Text) : Library :=
  Library.ofArtifact (Artifact.make group name version none none)

def asm (version : Text) : Library := lib ("org.ow2.asm" : String) ("asm" : String) version

/-- A patch with two versions of a library loses the one that the game has too, and a library
of another group that shares the artifact id displaces one of the game. -/
theorem mergePatch_not_lawful :
    ¬Lawful .arm64 [asm ("9.1" : String)] [asm ("9.1" : String),asm ("9.3" : String)]
      (mergePatch .arm64 ((Version.ofId ("1.18" : String)).setLibraries [asm ("9.1" : String)])
        ((Version.ofId ("fabric" : String)).setLibraries
          [asm ("9.1" : String),asm ("9.3" : String)])).getLibraries ∧
    ¬Lawful .arm64 [lib ("io.netty" : String) ("netty" : String) ("4.1" : String)]
      [lib ("org.jboss.netty" : String) ("netty" : String) ("3.2" : String)]
      (mergePatch .arm64
        ((Version.ofId ("1.18" : String)).setLibraries
          [lib ("io.netty" : String) ("netty" : String) ("4.1" : String)])
        ((Version.ofId ("fabric" : String)).setLibraries
          [lib ("org.jboss.netty" : String) ("netty" : String) ("3.2" : String)])).getLibraries := by
  refine ⟨?_,?_⟩
  · intro lawful
    have kept := lawful.whole (asm ("9.1" : String)) List.mem_cons_self
    exact absurd kept (by unfold Contains; decide +kernel)
  · intro lawful
    have gone := lawful.absent (lib ("io.netty" : String) ("netty" : String) ("4.1" : String))
      List.mem_cons_self (by unfold Contains; decide +kernel)
    exact absurd gone (by unfold OtherVersion; decide +kernel)

end HmclPe.Download.LibraryLaw
