import HmclPe.Download.PatchHistory
import HmclPe.Download.LibraryLayers

/-! Versions without a game patch. Every call then merges its patches onto what the
earlier calls have merged already, which is harmless only where merging adds nothing. -/
namespace HmclPe.Download.Accumulation
open HmclPe.Java HmclPe.Game HmclPe.Download.PatchMerger HmclPe.Download.PatchHistory
open HmclPe.Download.LibraryLayers

section Arguments

theorem mergeLists_assoc (a b c : Option (List Argument)) :
    Arguments.mergeLists (Arguments.mergeLists a b) c =
      Arguments.mergeLists a (Arguments.mergeLists b c) := by
  cases a <;> cases b <;> cases c <;> simp [Arguments.mergeLists,Lang.merge]

theorem mergeLists_absorb {a b c : Option (List Argument)}
    (absorbed : Arguments.mergeLists a (Arguments.mergeLists b c) = a) :
    Arguments.mergeLists a b = a := by
  cases a <;> cases b <;> cases c <;> simp_all [Arguments.mergeLists,Lang.merge]

theorem merge_assoc (a b c : Option Arguments) :
    Arguments.merge (Arguments.merge a b) c = Arguments.merge a (Arguments.merge b c) := by
  cases a <;> cases b <;> cases c <;> simp [Arguments.merge,mergeLists_assoc]

/-- Merged arguments never shrink, so a total that adds nothing has no part that does. -/
theorem merge_absorb {a b c : Option Arguments}
    (absorbed : Arguments.merge a (Arguments.merge b c) = a) : Arguments.merge a b = a := by
  cases a with
  | none => cases b <;> cases c <;> simp_all [Arguments.merge]
  | some a =>
    cases b with
    | none => rfl
    | some b =>
      cases c with
      | none => exact absorbed
      | some c =>
        have lists := Option.some.inj absorbed
        have game := mergeLists_absorb (congrArg Arguments.game lists)
        have jvm := mergeLists_absorb (congrArg Arguments.jvm lists)
        exact congrArg some (congrArg₂ Arguments.mk game jvm)

theorem foldl_merge (a : Option Arguments) (added : List (Option Arguments)) :
    added.foldl Arguments.merge a = Arguments.merge a (added.foldl Arguments.merge none) := by
  induction added generalizing a with
  | nil => cases a <;> rfl
  | cons b rest ih =>
    rw [List.foldl_cons,ih,List.foldl_cons,ih (Arguments.merge none b),merge_assoc]
    cases b <;> rfl

theorem foldl_merge_eq (a : Option Arguments) (added : List (Option Arguments)) :
    added.foldl Arguments.merge a = a ↔ ∀ b ∈ added, Arguments.merge a b = a := by
  induction added with
  | nil => simp
  | cons b rest ih =>
    rw [List.foldl_cons,List.forall_mem_cons]
    constructor
    · intro whole
      have first : Arguments.merge a b = a := by
        rw [foldl_merge,merge_assoc] at whole
        exact merge_absorb whole
      rw [first] at whole
      exact ⟨first,ih.mp whole⟩
    · rintro ⟨first,later⟩
      rw [first]
      exact ih.mpr later

end Arguments

section Loop

variable (env : Platform)

def forgeAmong (patches : List Version) : Bool := patches.any fun (q : Version) => q.id = forgeId

def contribution (forge : Bool) (q : Version) : Option Arguments :=
  if q.id = optifineId ∧ forge then q.arguments.map fun _ => optiFineForgeTweaker
  else q.arguments

/-- OptiFine on Forge is the only patch that leaves the main class alone. -/
def setsMainClass (forge : Bool) (q : Version) : Bool := ¬ (q.id = optifineId ∧ forge)

def lastMainClass (forge : Bool) (mainClass : Option Text) (patches : List Version) : Option Text :=
  patches.foldl (fun mainClass q => if setsMainClass forge q then q.mainClass else mainClass) mainClass

def libraryStack (patches : List Version) : List (List Library) := patches.map Version.getLibraries

theorem forgeAmong_perm {l m : List Version} (same : l.Perm m) : forgeAmong l = forgeAmong m := by
  unfold forgeAmong
  rw [Bool.eq_iff_iff,List.any_eq_true,List.any_eq_true]
  simp only [same.mem_iff]

/-- While the loop runs, the patches merged already wait behind those to come. -/
theorem foldl_mergeLoader_spec (todo : List Version) (done : List Version) {v : Version}
    (patches : v.getPatches = todo ++ done) (ids : ((todo ++ done).map Version.id).Nodup) :
    (todo.foldl (mergeLoader env) v).getPatches = done ++ todo ∧
      (todo.foldl (mergeLoader env) v).arguments =
        (todo.map (contribution (forgeAmong (todo ++ done)))).foldl Arguments.merge v.arguments ∧
      (todo.foldl (mergeLoader env) v).mainClass =
        lastMainClass (forgeAmong (todo ++ done)) v.mainClass todo ∧
      (todo.foldl (mergeLoader env) v).getLibraries =
        mergeAll env v.getLibraries (libraryStack todo) := by
  induction todo generalizing v done with
  | nil => exact ⟨by simpa using patches,rfl,rfl,rfl⟩
  | cons q rest ih =>
    obtain ⟨mainClass,_,arguments,libraries,moved⟩ := mergeLoader_fields env v q
    have turned : (q :: rest ++ done).Perm (rest ++ (done ++ [q])) := by
      rw [← List.append_assoc]
      exact (List.perm_append_singleton q (rest ++ done)).symm
    have others : (rest ++ done).filter (fun (p : Version) => p.id ≠ q.id) = rest ++ done := by
      apply List.filter_eq_self.mpr
      intro p member
      have apart := (List.nodup_cons.mp ids).1
      have different : p.id ≠ q.id := fun equal => apart (equal ▸ List.mem_map_of_mem member)
      exact decide_eq_true different
    have next : (mergeLoader env v q).getPatches = rest ++ (done ++ [q]) := by
      rw [moved,patches,List.cons_append,List.filter_cons_of_neg (by simp),others,List.append_assoc]
    have forge : hasForge v = forgeAmong (q :: rest ++ done) := by
      unfold hasForge forgeAmong
      rw [patches]
    obtain ⟨p,a,m,l⟩ := ih (done ++ [q]) next ((turned.map _).nodup_iff.mp ids)
    rw [← forgeAmong_perm turned] at a m
    rw [List.foldl_cons]
    refine ⟨by simpa using p,?_,?_,?_⟩
    · rw [a,arguments]
      unfold addedArguments
      rw [forge]
      rfl
    · rw [m,mainClass,forge]
      unfold lastMainClass
      rw [List.foldl_cons]
      congr 1
      unfold setsMainClass
      simp only [decide_not,Bool.not_eq_true',decide_eq_false_iff_not,ite_not]
    · rw [l,libraries]
      rfl

theorem exchangePatch_fields (v : Version) (patch : Option Version) (type : Text) :
    (exchangePatch v patch type).arguments = v.arguments ∧
      (exchangePatch v patch type).mainClass = v.mainClass ∧
      (exchangePatch v patch type).getLibraries = v.getLibraries := by
  cases patch <;> exact ⟨rfl,rfl,rfl⟩

theorem reMergePatch_spec {v : Version} {patch : Option Version} {type : Text} {patches : List Version}
    (exchanged : (exchangePatch v patch type).getPatches = patches)
    (noGame : ∀ q ∈ patches, q.id ≠ gameId) (few : patches.length < TimSort.minMerge)
    (ids : (patches.map Version.id).Nodup) :
    (reMergePatch env v patch type).getPatches = inPriorityOrder patches ∧
      (reMergePatch env v patch type).arguments =
        ((inPriorityOrder patches).map (contribution (forgeAmong patches))).foldl
          Arguments.merge v.arguments ∧
      (reMergePatch env v patch type).mainClass =
        lastMainClass (forgeAmong patches) v.mainClass (inPriorityOrder patches) ∧
      (reMergePatch env v patch type).getLibraries =
        mergeAll env v.getLibraries (libraryStack (inPriorityOrder patches)) := by
  have order := inPriorityOrder_perm patches
  have absent : findGame patches = none := by
    unfold findGame
    rw [List.find?_eq_none]
    intro q member equal
    exact noGame q member (of_decide_eq_true equal)
  have kept : (inPriorityOrder patches).filter (fun (q : Version) => q.id ≠ gameId) =
      inPriorityOrder patches := by
    apply List.filter_eq_self.mpr
    intro q member
    exact decide_eq_true (noGame q (order.mem_iff.mp member))
  obtain ⟨arguments,mainClass,libraries⟩ := exchangePatch_fields v patch type
  have loop := @foldl_mergeLoader_spec env (inPriorityOrder patches) []
    ((exchangePatch v patch type).setPatches (some (inPriorityOrder patches))) (by simp)
    (by simpa using (order.map Version.id).nodup_iff.mpr ids)
  have forge : forgeAmong (inPriorityOrder patches) = forgeAmong patches := forgeAmong_perm order
  simp only [List.append_nil,List.nil_append,forge] at loop
  unfold reMergePatch
  simp only [exchanged,absent,foldl_loaders,sort_eq_inPriorityOrder few,kept]
  obtain ⟨p,a,m,l⟩ := loop
  refine ⟨p,a.trans ?_,m.trans ?_,l.trans ?_⟩
  · exact congrArg (fun start => List.foldl Arguments.merge start _) arguments
  · exact congrArg (fun start => lastMainClass _ start _) mainClass
  · exact congrArg (fun start => mergeAll env start _) libraries

theorem lastMainClass_start (forge : Bool) {patches : List Version}
    (sets : ∃ q ∈ patches, setsMainClass forge q) (first second : Option Text) :
    lastMainClass forge first patches = lastMainClass forge second patches := by
  induction patches generalizing first second with
  | nil => simp at sets
  | cons q rest ih =>
    unfold lastMainClass at ih ⊢
    rw [List.foldl_cons,List.foldl_cons]
    by_cases here : setsMainClass forge q
    · rw [if_pos here,if_pos here]
    · rw [if_neg here,if_neg here]
      apply ih
      obtain ⟨p,member,found⟩ := sets
      rcases List.mem_cons.mp member with rfl | later
      · exact absurd found here
      · exact ⟨p,later,found⟩

/-- Some patch of a version with patches sets the main class, Forge if no other. -/
theorem exists_setsMainClass {patches : List Version} (some_ : patches ≠ []) :
    ∃ q ∈ patches, setsMainClass (forgeAmong patches) q := by
  cases forge : forgeAmong patches with
  | false =>
    obtain ⟨q,member⟩ := List.exists_mem_of_ne_nil patches some_
    exact ⟨q,member,by simp [setsMainClass]⟩
  | true =>
    obtain ⟨q,member,named⟩ := List.any_eq_true.mp forge
    refine ⟨q,member,?_⟩
    have id := of_decide_eq_true named
    unfold setsMainClass
    rw [id]
    decide

end Loop

section Order

theorem inPriorityOrder_classes_congr {l m : List Version}
    (same : TimSort.SameClasses (fun v : Version => -v.getPriority) l m) :
    inPriorityOrder l = inPriorityOrder m := by
  apply TimSort.ordered_unique (inPriorityOrder_ordered l) (inPriorityOrder_ordered m)
  exact (inPriorityOrder_classes l).trans (same.trans (inPriorityOrder_classes m).symm)

theorem inPriorityOrder_again (l more : List Version) :
    inPriorityOrder (inPriorityOrder l ++ more) = inPriorityOrder (l ++ more) :=
  inPriorityOrder_classes_congr ((inPriorityOrder_classes l).append_right more)

theorem filter_fresh {patches : List Version} {p : Version} (fresh : ∀ q ∈ patches, q.id ≠ p.id) :
    patches.filter (fun (q : Version) => q.id ≠ p.id) = patches := by
  apply List.filter_eq_self.mpr
  intro q member
  exact decide_eq_true (fresh q member)

theorem inPriorityOrder_without {patches : List Version} {p : Version}
    (fresh : ∀ q ∈ patches, q.id ≠ p.id) :
    (inPriorityOrder (patches ++ [p])).filter (fun (q : Version) => q.id ≠ p.id) =
      inPriorityOrder patches := by
  have classes := (inPriorityOrder_classes (patches ++ [p])).filter
    (fun (q : Version) => q.id ≠ p.id)
  rw [List.filter_append,filter_fresh fresh,List.filter_cons_of_neg (by simp),List.filter_nil,
    List.append_nil] at classes
  apply TimSort.ordered_unique _ (inPriorityOrder_ordered patches)
  · exact classes.trans (inPriorityOrder_classes patches).symm
  · exact (inPriorityOrder_ordered _).sublist List.filter_sublist

theorem inPriorityOrder_split {patches : List Version} {p : Version}
    (fresh : ∀ q ∈ patches, q.id ≠ p.id) (ids : (patches.map Version.id).Nodup) :
    ∃ before after, inPriorityOrder (patches ++ [p]) = before ++ p :: after ∧
      inPriorityOrder patches = before ++ after := by
  have order := inPriorityOrder_perm (patches ++ [p])
  obtain ⟨before,after,split⟩ := List.append_of_mem (order.mem_iff.mpr (by simp : p ∈ patches ++ [p]))
  refine ⟨before,after,split,?_⟩
  have without := inPriorityOrder_without fresh
  have single : ((before ++ p :: after).map Version.id).Nodup := by
    rw [← split,(order.map Version.id).nodup_iff,List.map_append,List.nodup_append]
    refine ⟨ids,by simp,?_⟩
    intro a first b last equal
    obtain ⟨q,member,rfl⟩ := List.mem_map.mp first
    obtain rfl : b = p.id := by simpa using last
    exact fresh q member equal
  have middle := (@List.perm_middle _ p before after).map Version.id
  have apart := (List.nodup_cons.mp (middle.nodup_iff.mp single)).1
  have others (q : Version) (member : q ∈ before ++ after) : q.id ≠ p.id :=
    fun equal => apart (equal ▸ List.mem_map_of_mem member)
  rw [← without,split,List.filter_append,List.filter_cons_of_neg (by simp),← List.filter_append,
    filter_fresh others]

end Order

section Merging

variable (env : Platform)

/-- Installing a patch again changes nothing, and taking it out restores what was there. -/
structure ReMerges (v p : Version) : Prop where
  againArguments : (reMergePatch env (reMergePatch env v (some p) p.id) (some p) p.id).arguments =
    (reMergePatch env v (some p) p.id).arguments
  againLibraries : (reMergePatch env (reMergePatch env v (some p) p.id) (some p) p.id).getLibraries =
    (reMergePatch env v (some p) p.id).getLibraries
  againMainClass : (reMergePatch env (reMergePatch env v (some p) p.id) (some p) p.id).mainClass =
    (reMergePatch env v (some p) p.id).mainClass
  againPatches : (reMergePatch env (reMergePatch env v (some p) p.id) (some p) p.id).getPatches =
    (reMergePatch env v (some p) p.id).getPatches
  undoneArguments : (reMergePatch env (reMergePatch env v (some p) p.id) none p.id).arguments =
    v.arguments
  undoneLibraries : (reMergePatch env (reMergePatch env v (some p) p.id) none p.id).getLibraries =
    v.getLibraries
  undoneMainClass : (reMergePatch env (reMergePatch env v (some p) p.id) none p.id).mainClass =
    v.mainClass

/-- Patches as the merger itself leaves them: few, one to an id, and none that names
two versions of one artifact. -/
structure Tame (v p : Version) : Prop where
  few : v.getPatches.length + 1 < TimSort.minMerge
  ids : (v.getPatches.map Version.id).Nodup
  unambiguous : Unambiguous env
    (v.getLibraries ++ (v.getPatches ++ [p]).flatMap Version.getLibraries)
  clean : ∀ q ∈ v.getPatches ++ [p], Clean env q.getLibraries

/-- The version already holds all that its patches and the new one bring. -/
structure Settled (v p : Version) : Prop where
  arguments : ∀ q ∈ v.getPatches ++ [p],
    Arguments.merge v.arguments (contribution (forgeAmong (v.getPatches ++ [p])) q) = v.arguments
  mainClass : lastMainClass (forgeAmong v.getPatches) p.mainClass (inPriorityOrder v.getPatches) =
    v.mainClass
  libraries : v.getLibraries =
    v.getLibraries.filter
        (fun lib => UntouchedBy env (libraryStack (v.getPatches ++ [p])) lib) ++
      p.getLibraries.filter (fun lib => UntouchedBy env (libraryStack v.getPatches) lib) ++
      layered env (libraryStack (inPriorityOrder v.getPatches))

theorem untouchedBy_perm {l m : List Version} (same : l.Perm m) (lib : Library) :
    UntouchedBy env (libraryStack l) lib ↔ UntouchedBy env (libraryStack m) lib := by
  unfold UntouchedBy libraryStack
  simp only [List.mem_map,forall_exists_index,and_imp,forall_apply_eq_imp_iff₂,same.mem_iff]

theorem Tame.cleanStack {v p : Version} (tame : Tame env v p) :
    CleanStack env (v.getLibraries ++ (v.getPatches ++ [p]).flatMap Version.getLibraries)
      (libraryStack (inPriorityOrder (v.getPatches ++ [p]))) := by
  have order := inPriorityOrder_perm (v.getPatches ++ [p])
  refine ⟨tame.unambiguous,?_,?_⟩
  · intro added member lib inside
    obtain ⟨q,found,rfl⟩ := List.mem_map.mp member
    apply List.mem_append_right
    exact List.mem_flatMap.mpr ⟨q,order.mem_iff.mp found,inside⟩
  · intro added member
    obtain ⟨q,found,rfl⟩ := List.mem_map.mp member
    exact tame.clean q (order.mem_iff.mp found)

theorem tweaker_counts (a : Option Arguments) :
    Arguments.merge a (some optiFineForgeTweaker) ≠ a := by
  cases a with
  | none => simp [Arguments.merge]
  | some a =>
    intro absorbed
    have game := congrArg Arguments.game (Option.some.inj absorbed)
    unfold optiFineForgeTweaker Arguments.addGameArguments Arguments.empty Arguments.mergeLists at game
    cases own : a.game <;> simp [own,Lang.merge] at game

theorem contribution_settled {a : Option Arguments} {l m : List Version} (part : l ⊆ m) {q : Version}
    (settled : Arguments.merge a (contribution (forgeAmong m) q) = a) :
    Arguments.merge a (contribution (forgeAmong l) q) = a := by
  unfold contribution at settled ⊢
  by_cases tweaked : q.id = optifineId ∧ forgeAmong m = true
  · rw [if_pos tweaked] at settled
    cases own : q.arguments with
    | none => cases a <;> simp [Arguments.merge]
    | some _ =>
      rw [own] at settled
      exact absurd settled (tweaker_counts a)
  · rw [if_neg tweaked] at settled
    have before : ¬ (q.id = optifineId ∧ forgeAmong l = true) := by
      rintro ⟨named,forge⟩
      obtain ⟨r,member,found⟩ := List.any_eq_true.mp forge
      exact tweaked ⟨named,List.any_eq_true.mpr ⟨r,part member,found⟩⟩
    rw [if_neg before]
    exact settled

variable {v p : Version}

/-- A new loader for a version that carries no game patch. -/
structure NewLoader (v p : Version) : Prop where
  noGame : ∀ q ∈ v.getPatches, q.id ≠ gameId
  priorities : ∀ q ∈ v.getPatches, q.priority ≠ none
  loader : p.id ≠ gameId
  fresh : ∀ q ∈ v.getPatches, q.id ≠ p.id

/-- What the loop needs of a list of patches. -/
structure Mergeable (patches : List Version) : Prop where
  noGame : ∀ q ∈ patches, q.id ≠ gameId
  few : patches.length < TimSort.minMerge
  ids : (patches.map Version.id).Nodup

theorem Mergeable.perm {l m : List Version} (mergeable : Mergeable l) (same : l.Perm m) :
    Mergeable m where
  noGame q member := mergeable.noGame q (same.mem_iff.mpr member)
  few := same.length_eq ▸ mergeable.few
  ids := (same.map _).nodup_iff.mp mergeable.ids

theorem NewLoader.mergeable (new : NewLoader v p) (tame : Tame env v p) :
    Mergeable (v.getPatches ++ [p]) where
  noGame := by
    intro q member
    rcases List.mem_append.mp member with first | last
    · exact new.noGame q first
    · rw [List.mem_singleton.mp last]
      exact new.loader
  few := by simpa using tame.few
  ids := by
    rw [List.map_append,List.nodup_append]
    refine ⟨tame.ids,by simp,?_⟩
    intro a first b last equal
    obtain ⟨q,member,rfl⟩ := List.mem_map.mp first
    obtain rfl : b = p.id := by simpa using last
    exact new.fresh q member equal

/-- The fields one call leaves, for the patch list it works on. -/
structure Leaves (v w : Version) (held : List Version) : Prop where
  patches : w.getPatches = inPriorityOrder held
  arguments : w.arguments =
    ((inPriorityOrder held).map (contribution (forgeAmong held))).foldl Arguments.merge v.arguments
  mainClass : w.mainClass = lastMainClass (forgeAmong held) v.mainClass (inPriorityOrder held)
  libraries : w.getLibraries = mergeAll env v.getLibraries (libraryStack (inPriorityOrder held))

theorem reMergePatch_leaves {patch : Option Version} {type : Text} {patches : List Version}
    (exchanged : (exchangePatch v patch type).getPatches = patches) (mergeable : Mergeable patches) :
    Leaves env v (reMergePatch env v patch type) patches := by
  obtain ⟨p,a,m,l⟩ := reMergePatch_spec env exchanged mergeable.noGame mergeable.few mergeable.ids
  exact ⟨p,a,m,l⟩

theorem once_leaves (new : NewLoader v p) (tame : Tame env v p) :
    Leaves env v (reMergePatch env v (some p) p.id) (v.getPatches ++ [p]) := by
  apply reMergePatch_leaves env _ (new.mergeable env tame)
  have edited := edited_getPatches v (.install p)
  unfold Call.installs Call.type Call.patch at edited
  rwa [filter_fresh new.fresh] at edited

theorem twice_leaves (new : NewLoader v p) (tame : Tame env v p) :
    Leaves env (reMergePatch env v (some p) p.id)
      (reMergePatch env (reMergePatch env v (some p) p.id) (some p) p.id)
      (inPriorityOrder v.getPatches ++ [p]) := by
  have once := once_leaves env new tame
  apply reMergePatch_leaves env
  · have edited := edited_getPatches (reMergePatch env v (some p) p.id) (.install p)
    unfold Call.installs Call.type Call.patch at edited
    rwa [once.patches,inPriorityOrder_without new.fresh] at edited
  · exact (new.mergeable env tame).perm ((inPriorityOrder_perm v.getPatches).symm.append_right [p])

theorem undone_leaves (new : NewLoader v p) (tame : Tame env v p) :
    Leaves env (reMergePatch env v (some p) p.id)
      (reMergePatch env (reMergePatch env v (some p) p.id) none p.id)
      (inPriorityOrder v.getPatches) := by
  have once := once_leaves env new tame
  have order := inPriorityOrder_perm v.getPatches
  apply reMergePatch_leaves env
  · have edited := edited_getPatches (reMergePatch env v (some p) p.id) (.uninstall p.id)
    unfold Call.installs Call.type Call.patch at edited
    rw [once.patches,inPriorityOrder_without new.fresh] at edited
    simpa using edited
  · refine ⟨?_,?_,?_⟩
    · intro q member
      exact new.noGame q (order.mem_iff.mp member)
    · rw [order.length_eq]
      exact lt_trans (Nat.lt_succ_self _) tame.few
    · exact (order.map Version.id).nodup_iff.mpr tame.ids

theorem undone_arguments_iff (new : NewLoader v p) (tame : Tame env v p) :
    (reMergePatch env (reMergePatch env v (some p) p.id) none p.id).arguments = v.arguments ↔
      ∀ q ∈ v.getPatches ++ [p],
        Arguments.merge v.arguments (contribution (forgeAmong (v.getPatches ++ [p])) q) =
          v.arguments := by
  have order := inPriorityOrder_perm (v.getPatches ++ [p])
  have rest := inPriorityOrder_perm v.getPatches
  rw [(undone_leaves env new tame).arguments,(once_leaves env new tame).arguments,
    ← List.foldl_append,foldl_merge_eq]
  constructor
  · intro whole q member
    apply whole
    exact List.mem_append_left _ (List.mem_map_of_mem (order.mem_iff.mpr member))
  · intro each b member
    rcases List.mem_append.mp member with first | second
    · obtain ⟨q,inside,rfl⟩ := List.mem_map.mp first
      exact each q (order.mem_iff.mp inside)
    · obtain ⟨q,inside,rfl⟩ := List.mem_map.mp second
      have original : q ∈ v.getPatches := rest.mem_iff.mp ((inPriorityOrder_perm _).mem_iff.mp inside)
      rw [forgeAmong_perm rest]
      exact contribution_settled (List.subset_append_left _ _)
        (each q (List.mem_append_left _ original))

theorem undone_mainClass (new : NewLoader v p) (tame : Tame env v p) :
    (reMergePatch env (reMergePatch env v (some p) p.id) none p.id).mainClass =
      lastMainClass (forgeAmong v.getPatches) p.mainClass (inPriorityOrder v.getPatches) := by
  have rest := inPriorityOrder_perm v.getPatches
  rw [(undone_leaves env new tame).mainClass,(once_leaves env new tame).mainClass,
    forgeAmong_perm rest]
  have again := inPriorityOrder_again v.getPatches []
  rw [List.append_nil,List.append_nil] at again
  rw [again]
  cases none : v.getPatches with
  | nil =>
    have alone : setsMainClass (forgeAmong [p]) p := by
      obtain ⟨q,member,found⟩ := @exists_setsMainClass [p] (by simp)
      rwa [List.mem_singleton.mp member] at found
    have single : inPriorityOrder [p] = [p] := List.mergeSort_singleton p
    have empty : inPriorityOrder [] = [] := List.mergeSort_nil
    rw [List.nil_append,single,empty]
    unfold lastMainClass
    simp [alone]
  | cons q others =>
    apply lastMainClass_start
    obtain ⟨r,member,found⟩ := @exists_setsMainClass (q :: others) (by simp)
    exact ⟨r,(inPriorityOrder_perm _).mem_iff.mpr member,found⟩

theorem undone_libraries (new : NewLoader v p) (tame : Tame env v p) :
    (reMergePatch env (reMergePatch env v (some p) p.id) none p.id).getLibraries =
      v.getLibraries.filter
          (fun lib => UntouchedBy env (libraryStack (v.getPatches ++ [p])) lib) ++
        p.getLibraries.filter (fun lib => UntouchedBy env (libraryStack v.getPatches) lib) ++
        layered env (libraryStack (inPriorityOrder v.getPatches)) := by
  have again := inPriorityOrder_again v.getPatches []
  rw [List.append_nil,List.append_nil] at again
  have tidy := tame.cleanStack
  obtain ⟨before,after,split,rest⟩ := inPriorityOrder_split new.fresh tame.ids
  have based (lib : Library) (member : lib ∈ v.getLibraries) :
      lib ∈ v.getLibraries ++ (v.getPatches ++ [p]).flatMap Version.getLibraries :=
    List.mem_append_left _ member
  rw [(undone_leaves env new tame).libraries,(once_leaves env new tame).libraries,again]
  simp only [← untouchedBy_perm env (inPriorityOrder_perm (v.getPatches ++ [p])),
    ← untouchedBy_perm env (inPriorityOrder_perm v.getPatches)]
  rw [split] at tidy ⊢
  rw [rest]
  unfold libraryStack at tidy ⊢
  rw [List.map_append,List.map_cons] at tidy ⊢
  rw [List.map_append]
  exact mergeAll_without env tidy based

theorem again_order (v p : Version) : inPriorityOrder (inPriorityOrder v.getPatches ++ [p]) =
    inPriorityOrder (v.getPatches ++ [p]) :=
  inPriorityOrder_again v.getPatches [p]

theorem again_forge (v p : Version) : forgeAmong (inPriorityOrder v.getPatches ++ [p]) =
    forgeAmong (v.getPatches ++ [p]) :=
  forgeAmong_perm ((inPriorityOrder_perm v.getPatches).append_right [p])

theorem again_mainClass (new : NewLoader v p) (tame : Tame env v p) :
    (reMergePatch env (reMergePatch env v (some p) p.id) (some p) p.id).mainClass =
      (reMergePatch env v (some p) p.id).mainClass := by
  rw [(twice_leaves env new tame).mainClass,(once_leaves env new tame).mainClass,
    again_order,again_forge]
  apply lastMainClass_start
  obtain ⟨q,member,found⟩ := @exists_setsMainClass (v.getPatches ++ [p]) (by simp)
  exact ⟨q,(inPriorityOrder_perm _).mem_iff.mpr member,found⟩

theorem again_libraries (new : NewLoader v p) (tame : Tame env v p) :
    (reMergePatch env (reMergePatch env v (some p) p.id) (some p) p.id).getLibraries =
      (reMergePatch env v (some p) p.id).getLibraries := by
  rw [(twice_leaves env new tame).libraries,(once_leaves env new tame).libraries,again_order]
  apply mergeAll_again env tame.cleanStack
  intro lib member
  exact List.mem_append_left _ member

theorem once_arguments (new : NewLoader v p) (tame : Tame env v p) (settled : Settled env v p) :
    (reMergePatch env v (some p) p.id).arguments = v.arguments ∧
      (reMergePatch env (reMergePatch env v (some p) p.id) (some p) p.id).arguments =
        v.arguments := by
  have order := inPriorityOrder_perm (v.getPatches ++ [p])
  have unchanged : ((inPriorityOrder (v.getPatches ++ [p])).map
      (contribution (forgeAmong (v.getPatches ++ [p])))).foldl Arguments.merge v.arguments =
        v.arguments := by
    rw [foldl_merge_eq]
    intro b member
    obtain ⟨q,inside,rfl⟩ := List.mem_map.mp member
    exact settled.arguments q (order.mem_iff.mp inside)
  have once := (once_leaves env new tame).arguments.trans unchanged
  refine ⟨once,?_⟩
  rw [(twice_leaves env new tame).arguments,once,again_order,again_forge]
  exact unchanged

theorem remerges_iff (new : NewLoader v p) (tame : Tame env v p) :
    ReMerges env v p ↔ Settled env v p := by
  constructor
  · intro remerges
    constructor
    · exact (undone_arguments_iff env new tame).mp remerges.undoneArguments
    · exact (undone_mainClass env new tame).symm.trans remerges.undoneMainClass
    · exact remerges.undoneLibraries.symm.trans (undone_libraries env new tame)
  · intro settled
    obtain ⟨once,twice⟩ := once_arguments env new tame settled
    constructor
    · exact twice.trans once.symm
    · exact again_libraries env new tame
    · exact again_mainClass env new tame
    · rw [(twice_leaves env new tame).patches,(once_leaves env new tame).patches,again_order]
    · exact (undone_arguments_iff env new tame).mpr settled.arguments
    · exact (undone_libraries env new tame).trans settled.libraries.symm
    · exact (undone_mainClass env new tame).trans settled.mainClass

/-- Re-merging onto a version without a game patch never accumulates where that
version is settled, and among tame patches nowhere else. -/
theorem remerges_of_settled (new : NewLoader v p) :
    (Tame env v p ∧ Settled env v p → ReMerges env v p) ∧
      (Tame env v p → ReMerges env v p → Settled env v p) := by
  constructor
  · rintro ⟨tame,settled⟩
    exact (remerges_iff env new tame).mpr settled
  · intro tame remerges
    exact (remerges_iff env new tame).mp remerges

end Merging

def launchwrapper : Library :=
  .ofArtifact (.make ("net.minecraft" : String) ("launchwrapper" : String) ("1.12" : String) none none)

def launch : Text := ("net.minecraft.launchwrapper.Launch" : String)

/-- A version file of another launcher: merged already, and without patches. -/
def merged : Version :=
  { Version.ofId ("1.12.2-forge" : String) with
    mainClass := some launch
    libraries := some [launchwrapper] }

def silentLoader : Version :=
  { Version.ofId forgeId with
    priority := some 30000
    mainClass := some launch
    libraries := some [launchwrapper] }

def tweakingLoader : Version :=
  Version.patch forgeId ("14.23.5" : String) 30000
    (Arguments.empty.addGameArguments [("--tweakClass" : String)]) launch []

theorem merged_newLoader : NewLoader merged silentLoader := by
  constructor <;> decide +kernel

theorem merged_tame : Tame .arm64 merged silentLoader := by
  constructor
  · decide +kernel
  · decide +kernel
  · intro a first b second _
    have only (lib : Library) (member : lib ∈ merged.getLibraries ++
        (merged.getPatches ++ [silentLoader]).flatMap Version.getLibraries) :
        lib = launchwrapper := by simpa [merged,silentLoader,Version.getLibraries,Version.getPatches,
          Version.ofId] using member
    rw [only a first,only b second]
    exact ⟨rfl,rfl⟩
  · intro q member
    obtain rfl : q = silentLoader := by simpa [merged,Version.getPatches,Version.ofId] using member
    exact List.pairwise_singleton _ launchwrapper

theorem remerges_of_settled_merged : ReMerges .arm64 merged silentLoader :=
  (remerges_of_settled .arm64 merged_newLoader).1
    ⟨merged_tame,⟨by decide +kernel,by decide +kernel,by decide +kernel⟩⟩

/-- The second installation adds the arguments again and uninstalling leaves them. -/
theorem tweaks_accumulate :
    NewLoader merged tweakingLoader ∧
      (reMergePatch .arm64 (reMergePatch .arm64 merged (some tweakingLoader) forgeId)
          (some tweakingLoader) forgeId).arguments ≠
        (reMergePatch .arm64 merged (some tweakingLoader) forgeId).arguments ∧
      (reMergePatch .arm64 (reMergePatch .arm64 merged (some tweakingLoader) forgeId)
          none forgeId).arguments ≠ merged.arguments := by
  refine ⟨?_,by decide +kernel,by decide +kernel⟩
  constructor <;> decide +kernel

end HmclPe.Download.Accumulation
