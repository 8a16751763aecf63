import HmclPe.Download.PatchMerger

/-! Histories of loader installations. A version that carries its game patch is
rebuilt from it by every call, so what a history leaves behind is the fold of the
installed loaders in descending priority. -/
namespace HmclPe.Download.PatchHistory
open HmclPe.Java HmclPe.Game HmclPe.Download.PatchMerger

/-- The patch the game installer stores inside the version it downloaded. -/
def gamePatch (raw : Version) : Version :=
  ((raw.setId gameId).setVersion (some raw.id)).setPriority (some 0)

def gameInstall (raw : Version) : Version := raw.addPatch (gamePatch raw)

/-- A version as the game installer stores it, built from its only patch. -/
structure Stored (game v : Version) : Prop where
  id : game.id = gameId
  version : game.version ≠ none
  priority : game.priority = some 0
  patches : v.getPatches = [game]
  fields : SameFields v (gameBase game)

inductive Call where
  | install (p : Version)
  | uninstall (id : Text)

namespace Call

def type : Call → Text
  | install p => p.id
  | uninstall id => id

def patch : Call → Option Version
  | install p => some p
  | uninstall _ => none

def installs (call : Call) (loaders : List Version) : List Version :=
  loaders.filter (fun (q : Version) => q.id ≠ call.type) ++ call.patch.toList

end Call

/-- The loaders a history leaves installed, in the order of their installation. -/
def installed (calls : List Call) : List Version :=
  calls.foldl (fun loaders call => call.installs loaders) []

/-- No call names the game itself, an installed patch has a priority, and no other
loader that stays has the same one. -/
def AdmissibleFrom (loaders : List Version) : List Call → Prop
  | [] => True
  | call :: rest => call.type ≠ gameId ∧
      (∀ p ∈ call.patch, p.priority ≠ none ∧
        ∀ q ∈ loaders, q.id ≠ p.id → q.getPriority ≠ p.getPriority) ∧
      AdmissibleFrom (call.installs loaders) rest

def Admissible (calls : List Call) : Prop := AdmissibleFrom [] calls

/-- After every call the game and its loaders stay below the merge threshold of the sort. -/
def Small (calls : List Call) : Prop :=
  ∀ n, (installed (calls.take n)).length + 1 < TimSort.minMerge

def inPriorityOrder (loaders : List Version) : List Version :=
  loaders.mergeSort fun p q => q.getPriority ≤ p.getPriority

section History

variable (env : Platform)

def Call.apply (v : Version) (call : Call) : Version :=
  reMergePatch env v call.patch call.type

def run (v : Version) (calls : List Call) : Version := calls.foldl (Call.apply env) v

/-- The fields of a version that holds the given loaders. -/
def loaded (game : Version) (loaders : List Version) : Version :=
  (inPriorityOrder loaders).foldl (mergeLoader env) (gameBase game)

end History

def Descending (loaders : List Version) : Prop :=
  loaders.Pairwise fun p q => q.getPriority < p.getPriority

/-- Loaders as they can be installed together. -/
structure Distinct (loaders : List Version) : Prop where
  loader : ∀ p ∈ loaders, p.id ≠ gameId
  ids : (loaders.map Version.id).Nodup
  priorities : (loaders.map Version.getPriority).Nodup

theorem Distinct.perm {l m : List Version} (distinct : Distinct l) (same : l.Perm m) : Distinct m where
  loader p member := distinct.loader p (same.mem_iff.mpr member)
  ids := (same.map _).nodup_iff.mp distinct.ids
  priorities := (same.map _).nodup_iff.mp distinct.priorities

theorem Distinct.sublist {l m : List Version} (distinct : Distinct m) (part : l.Sublist m) :
    Distinct l where
  loader p member := distinct.loader p (part.subset member)
  ids := distinct.ids.sublist (part.map _)
  priorities := distinct.priorities.sublist (part.map _)

theorem inPriorityOrder_perm (loaders : List Version) : (inPriorityOrder loaders).Perm loaders :=
  List.mergeSort_perm _ _

theorem inPriorityOrder_eq (loaders : List Version) :
    inPriorityOrder loaders = loaders.mergeSort fun p q => -p.getPriority ≤ -q.getPriority := by
  unfold inPriorityOrder
  simp only [neg_le_neg_iff]

theorem inPriorityOrder_ordered (loaders : List Version) :
    TimSort.Ordered (fun v : Version => -v.getPriority) (inPriorityOrder loaders) := by
  rw [inPriorityOrder_eq]
  exact TimSort.mergeSort_ordered _ loaders

theorem inPriorityOrder_classes (loaders : List Version) :
    TimSort.SameClasses (fun v : Version => -v.getPriority) (inPriorityOrder loaders) loaders := by
  rw [inPriorityOrder_eq]
  exact TimSort.mergeSort_classes _ loaders

theorem inPriorityOrder_descending {loaders : List Version} (distinct : Distinct loaders) :
    Descending (inPriorityOrder loaders) := by
  have apart := List.pairwise_map.mp (distinct.perm (inPriorityOrder_perm loaders).symm).priorities
  exact ((inPriorityOrder_ordered loaders).and apart).imp fun both =>
    lt_of_le_of_ne (neg_le_neg_iff.mp both.1) fun equal => both.2 equal.symm

theorem descending_unique {l m : List Version} (left : Descending l) (right : Descending m)
    (same : l.Perm m) : l = m :=
  same.eq_of_pairwise (fun _ _ _ _ first second => absurd first (lt_asymm second)) left right

theorem inPriorityOrder_congr {l m : List Version} (distinct : Distinct l) (same : l.Perm m) :
    inPriorityOrder l = inPriorityOrder m := by
  apply descending_unique (inPriorityOrder_descending distinct)
  · exact inPriorityOrder_descending (distinct.perm same)
  · exact (inPriorityOrder_perm l).trans (same.trans (inPriorityOrder_perm m).symm)

theorem comparePriority_follows :
    TimSort.Follows comparePriority (fun v : Version => -v.getPriority) := by
  intro a b
  unfold comparePriority
  split
  · simpa
  · simpa using not_lt.mp ‹_›

theorem sort_eq_inPriorityOrder {patches : List Version} (few : patches.length < TimSort.minMerge) :
    TimSort.sort comparePriority patches = inPriorityOrder patches := by
  rw [inPriorityOrder_eq]
  exact TimSort.sort_eq_mergeSort comparePriority_follows patches few

/-- The patches sorted by one call, the game left out, are the loaders in order. -/
theorem sorted_loaders {patches loaders : List Version} {game : Version} (named : game.id = gameId)
    (distinct : Distinct loaders) (patched : patches.Perm (game :: loaders))
    (small : patches.length < TimSort.minMerge) :
    (TimSort.sort comparePriority patches).filter (fun (q : Version) => q.id ≠ gameId) =
      inPriorityOrder loaders := by
  have kept : (game :: loaders).filter (fun (q : Version) => q.id ≠ gameId) = loaders := by
    rw [List.filter_cons_of_neg (by simpa using named)]
    apply List.filter_eq_self.mpr
    intro p member
    simpa using distinct.loader p member
  have same := ((inPriorityOrder_perm patches).trans patched).filter
    (fun (q : Version) => q.id ≠ gameId)
  rw [kept] at same
  rw [sort_eq_inPriorityOrder small]
  apply descending_unique _ (inPriorityOrder_descending distinct)
  · exact same.trans (inPriorityOrder_perm loaders).symm
  · have apart := List.pairwise_map.mp (distinct.perm same.symm).priorities
    have weak := (inPriorityOrder_ordered patches).sublist (List.filter_sublist
      (p := fun (q : Version) => q.id ≠ gameId))
    exact (weak.and apart).imp fun both =>
      lt_of_le_of_ne (neg_le_neg_iff.mp both.1) fun equal => both.2 equal.symm

section Rebuild

variable (env : Platform)

/-- Re-adding loaders in some order leaves the game patch first. -/
theorem foldl_mergeLoader_getPatches (loaders : List Version) (v : Version)
    (fresh : (v.getPatches ++ loaders).map Version.id |>.Nodup) :
    (loaders.foldl (mergeLoader env) v).getPatches = v.getPatches ++ loaders := by
  induction loaders generalizing v with
  | nil => simp
  | cons p rest ih =>
    have added : (mergeLoader env v p).getPatches = v.getPatches ++ [p] := by
      rw [(mergeLoader_fields env v p).2.2.2.2,List.filter_eq_self.mpr]
      intro q member
      rw [List.map_append,List.nodup_append] at fresh
      have apart := fresh.2.2 q.id (List.mem_map_of_mem member) p.id (by simp)
      simpa using apart
    rw [List.foldl_cons,ih,added,List.append_assoc,List.singleton_append]
    rw [added,List.append_assoc]
    exact fresh

theorem loaded_getPatches {game : Version} (named : game.id = gameId)
    (base : (gameBase game).getPatches = [game]) {loaders : List Version}
    (distinct : Distinct loaders) :
    (loaded env game loaders).getPatches = game :: inPriorityOrder loaders := by
  have ordered := distinct.perm (inPriorityOrder_perm loaders).symm
  unfold loaded
  rw [foldl_mergeLoader_getPatches,base,List.singleton_append]
  rw [base,List.singleton_append,List.map_cons,List.nodup_cons]
  refine ⟨fun member => ?_,ordered.ids⟩
  obtain ⟨p,inside,equal⟩ := List.mem_map.mp member
  exact ordered.loader p inside (equal.trans named)

/-- A call edits the patch list of a version as it edits the list of loaders. -/
theorem edited_getPatches (v : Version) (call : Call) :
    (exchangePatch v call.patch call.type).getPatches = call.installs v.getPatches := by
  cases call with
  | install p =>
    unfold Call.installs Call.patch Call.type exchangePatch
    rw [addPatch_getPatches,removePatchById_getPatches,List.filter_filter]
    simp
  | uninstall id =>
    unfold Call.installs Call.patch Call.type exchangePatch
    rw [removePatchById_getPatches]
    simp

theorem installs_game {game : Version} (named : game.id = gameId) (call : Call)
    (other : call.type ≠ gameId) (loaders : List Version) :
    call.installs (game :: loaders) = game :: call.installs loaders := by
  unfold Call.installs
  rw [List.filter_cons_of_pos (by simpa [named] using other.symm),List.cons_append]

theorem installs_perm {l m : List Version} (same : l.Perm m) (call : Call) :
    (call.installs l).Perm (call.installs m) :=
  (same.filter _).append_right _

/-- One call on a version that holds its game patch and some loaders. -/
theorem apply_loaded {game v : Version} (named : game.id = gameId) {loaders : List Version}
    (patches : v.getPatches = game :: inPriorityOrder loaders) (call : Call)
    (other : call.type ≠ gameId) (distinct : Distinct (call.installs loaders))
    (small : (call.installs loaders).length + 1 < TimSort.minMerge) :
    Call.apply env v call = loaded env game (call.installs loaders) := by
  have edited := edited_getPatches v call
  rw [patches,installs_game named call other] at edited
  have same : (game :: call.installs (inPriorityOrder loaders)).Perm
      (game :: call.installs loaders) :=
    (installs_perm (inPriorityOrder_perm loaders) call).cons game
  have found : findGame (game :: call.installs (inPriorityOrder loaders)) = some game := by
    unfold findGame
    rw [List.find?_cons_of_pos (by simpa using named)]
  unfold Call.apply reMergePatch
  simp only [edited,found]
  rw [foldl_loaders,sorted_loaders named distinct same]
  · rfl
  · rw [same.length_eq]
    exact small

theorem installs_distinct {loaders : List Version} (distinct : Distinct loaders) (call : Call)
    (other : call.type ≠ gameId)
    (fresh : ∀ p ∈ call.patch, p.priority ≠ none ∧
      ∀ q ∈ loaders, q.id ≠ p.id → q.getPriority ≠ p.getPriority) :
    Distinct (call.installs loaders) := by
  have kept := distinct.sublist (List.filter_sublist
    (p := fun (q : Version) => q.id ≠ call.type) (l := loaders))
  cases call with
  | uninstall id => simpa [Call.installs,Call.patch] using kept
  | install p =>
    obtain ⟨_,apart⟩ := fresh p rfl
    have left (q : Version) (member : q ∈ loaders.filter (fun (q : Version) => q.id ≠ p.id)) :
        q ∈ loaders ∧ q.id ≠ p.id := by simpa using List.mem_filter.mp member
    constructor
    · intro q member
      rcases List.mem_append.mp member with inside | last
      · exact kept.loader q inside
      · obtain rfl := List.mem_singleton.mp last
        exact other
    · rw [Call.installs,List.map_append]
      refine List.nodup_append.mpr ⟨kept.ids,by simp [Call.patch],?_⟩
      intro a before b after equal
      obtain ⟨q,inside,rfl⟩ := List.mem_map.mp before
      obtain rfl : b = p.id := by simpa [Call.patch] using after
      exact (left q inside).2 equal
    · rw [Call.installs,List.map_append]
      refine List.nodup_append.mpr ⟨kept.priorities,by simp [Call.patch],?_⟩
      intro a before b after equal
      obtain ⟨q,inside,rfl⟩ := List.mem_map.mp before
      obtain rfl : b = p.getPriority := by simpa [Call.patch] using after
      exact apart q (left q inside).1 (left q inside).2 equal

theorem run_loaded {game : Version} (named : game.id = gameId)
    (base : (gameBase game).getPatches = [game]) (calls : List Call) {v : Version}
    {loaders : List Version} (distinct : Distinct loaders)
    (admissible : AdmissibleFrom loaders calls)
    (small : ∀ n, ((calls.take n).foldl (fun loaders call => call.installs loaders)
      loaders).length + 1 < TimSort.minMerge)
    (same : SameFields v (loaded env game loaders)) :
    Distinct (calls.foldl (fun loaders call => call.installs loaders) loaders) ∧
      SameFields (run env v calls)
        (loaded env game (calls.foldl (fun loaders call => call.installs loaders) loaders)) := by
  induction calls generalizing v loaders with
  | nil => exact ⟨distinct,same⟩
  | cons call rest ih =>
    obtain ⟨other,fresh,later⟩ := admissible
    have next := installs_distinct distinct call other fresh
    have patches := same.patches.trans (loaded_getPatches env named base distinct)
    have step := apply_loaded env named patches call other next (small 1)
    apply ih next later
    · intro n
      exact small (n + 1)
    · rw [step]
      exact SameFields.refl _

end Rebuild

section Stored

variable (env : Platform) {game v0 : Version}

/-- The invariant of a history, at its end. -/
theorem run_installed (stored : Stored game v0) {calls : List Call} (admissible : Admissible calls)
    (small : Small calls) :
    Distinct (installed calls) ∧
      SameFields (run env v0 calls) (loaded env game (installed calls)) := by
  have base := stored.fields.patches.symm.trans stored.patches
  apply run_loaded env stored.id base calls _ admissible small
  · have empty : inPriorityOrder [] = [] := List.mergeSort_nil
    rw [loaded,empty]
    exact stored.fields
  · exact ⟨by simp,by simp,by simp⟩

theorem installed_nodup {loaders : List Version} (distinct : Distinct loaders) : loaders.Nodup :=
  distinct.ids.of_map

theorem run_congr (stored : Stored game v0) {calls other : List Call}
    (admissible : Admissible calls) (small : Small calls) (admissibleOther : Admissible other)
    (smallOther : Small other) (same : ∀ p, p ∈ installed other ↔ p ∈ installed calls) :
    SameFields (run env v0 other) (run env v0 calls) := by
  obtain ⟨distinct,fields⟩ := run_installed env stored admissible small
  obtain ⟨distinctOther,fieldsOther⟩ := run_installed env stored admissibleOther smallOther
  have perm : (installed other).Perm (installed calls) :=
    (List.perm_ext_iff_of_nodup (installed_nodup distinctOther) (installed_nodup distinct)).mpr same
  have order := inPriorityOrder_congr distinctOther perm
  apply fieldsOther.trans
  rw [loaded,order]
  exact fields.symm

end Stored

section Installs

theorem installs_fresh {loaders : List Version} {p : Version} (distinct : Distinct (loaders ++ [p])) :
    (Call.install p).installs loaders = loaders ++ [p] := by
  unfold Call.installs
  rw [List.filter_eq_self.mpr]
  · rfl
  · intro q member
    have ids := distinct.ids
    rw [List.map_append,List.nodup_append] at ids
    have apart := ids.2.2 q.id (List.mem_map_of_mem member) p.id (by simp)
    exact decide_eq_true apart

theorem installs_all (ps : List Version) {loaders : List Version} (distinct : Distinct (loaders ++ ps)) :
    (ps.map Call.install).foldl (fun loaders call => call.installs loaders) loaders =
      loaders ++ ps := by
  induction ps generalizing loaders with
  | nil => simp
  | cons p rest ih =>
    have joined : loaders ++ p :: rest = (loaders ++ [p]) ++ rest := by simp
    rw [joined] at distinct ⊢
    have head := distinct.sublist (List.sublist_append_left _ _)
    rw [List.map_cons,List.foldl_cons,installs_fresh head]
    exact ih distinct

theorem installs_admissible (ps : List Version) (present : ∀ p ∈ ps, p.priority ≠ none)
    {loaders : List Version} (distinct : Distinct (loaders ++ ps)) :
    AdmissibleFrom loaders (ps.map Call.install) := by
  induction ps generalizing loaders with
  | nil => trivial
  | cons p rest ih =>
    have joined : loaders ++ p :: rest = (loaders ++ [p]) ++ rest := by simp
    have loader := distinct.loader p (by simp)
    have apart := distinct.priorities
    rw [joined] at distinct
    have head := distinct.sublist (List.sublist_append_left _ _)
    refine ⟨loader,?_,?_⟩
    · intro r equal
      obtain rfl : p = r := by simpa [Call.patch] using equal
      refine ⟨present p (by simp),?_⟩
      intro q member _
      rw [List.map_append,List.nodup_append] at apart
      exact apart.2.2 _ (List.mem_map_of_mem member) _ (by simp)
    · rw [installs_fresh head]
      exact ih (fun q member => present q (by simp [member])) distinct

theorem installed_map {ps : List Version} (distinct : Distinct ps) :
    installed (ps.map Call.install) = ps :=
  installs_all ps distinct

theorem small_map {ps : List Version} (distinct : Distinct ps)
    (few : ps.length + 1 < TimSort.minMerge) : Small (ps.map Call.install) := by
  intro n
  rw [← List.map_take,installed_map (distinct.sublist (List.take_sublist n ps))]
  have shorter := List.length_take_le n ps
  have below := List.length_take_le' n ps
  omega

end Installs

section Dialog

/-- Loader patches as the install tasks make them, chosen as the game installer
offers them: Fabric and Quilt go with LiteLoader at most. -/
structure InstallChoice where
  liteLoader : Option Version
  forge : Option Version
  optifine : Option Version
  fabric : Option Version
  quilt : Option Version
  isLiteLoader : ∀ p ∈ liteLoader, p.id = ("liteloader" : String) ∧ p.priority = some 60000
  isForge : ∀ p ∈ forge, p.id = forgeId ∧ p.priority = some 30000
  isOptifine : ∀ p ∈ optifine, p.id = optifineId ∧ p.priority = some 10000
  isFabric : ∀ p ∈ fabric, p.id = ("fabric" : String) ∧ p.priority = some 30000
  isQuilt : ∀ p ∈ quilt, p.id = ("quilt" : String) ∧ p.priority = some 30000
  forgeAlone : forge ≠ none → fabric = none ∧ quilt = none
  optifineAlone : optifine ≠ none → fabric = none ∧ quilt = none
  fabricAlone : fabric ≠ none → quilt = none

variable (env : Platform) (choice : InstallChoice)

def mergeChosen (merge : Version → Version → Version) (v : Version) : Option Version → Version
  | some patch => merge v patch
  | none => v

/-- The chain of install tasks of `GameInstallDialog`, from the finished game installation on. -/
def gameInstallDialog (v : Version) : Version :=
  let v := mergeChosen (mergePatch env) v choice.liteLoader
  let v := mergeChosen (mergePatch env) v choice.forge
  let v := mergeChosen (mergeOptifinePatch env) v choice.optifine
  let v := mergeChosen (mergePatch env) v choice.fabric
  mergeChosen (mergePatch env) v choice.quilt

namespace InstallChoice

def loaders : List Version :=
  choice.liteLoader.toList ++ choice.forge.toList ++ choice.optifine.toList ++
    choice.fabric.toList ++ choice.quilt.toList

end InstallChoice

theorem mergeChosen_eq (merge : Version → Version → Version) (v : Version) (patch : Option Version)
    (same : ∀ p ∈ patch, merge v p = mergeLoader env v p) :
    mergeChosen merge v patch = patch.toList.foldl (mergeLoader env) v := by
  cases patch with
  | none => rfl
  | some p => exact same p rfl

theorem mergePatch_eq_mergeLoader {id : Text} (other : id ≠ optifineId) (v p : Version)
    (named : p.id = id) : mergePatch env v p = mergeLoader env v p := by
  unfold mergeLoader
  rw [named,if_neg other]

theorem gameInstallDialog_eq (v : Version) :
    gameInstallDialog env choice v = choice.loaders.foldl (mergeLoader env) v := by
  unfold gameInstallDialog InstallChoice.loaders
  dsimp only
  rw [mergeChosen_eq env _ _ choice.liteLoader,mergeChosen_eq env _ _ choice.forge,
    mergeChosen_eq env _ _ choice.optifine,mergeChosen_eq env _ _ choice.fabric,
    mergeChosen_eq env _ _ choice.quilt]
  · simp only [List.foldl_append]
  · intro p member
    exact mergePatch_eq_mergeLoader env (by decide) _ p (choice.isQuilt p member).1
  · intro p member
    exact mergePatch_eq_mergeLoader env (by decide) _ p (choice.isFabric p member).1
  · intro p member
    unfold mergeLoader
    rw [if_pos (choice.isOptifine p member).1]
  · intro p member
    exact mergePatch_eq_mergeLoader env (by decide) _ p (choice.isForge p member).1
  · intro p member
    exact mergePatch_eq_mergeLoader env (by decide) _ p (choice.isLiteLoader p member).1

theorem distinct_iff (ps : List Version) : Distinct ps ↔ (∀ p ∈ ps, p.id ≠ gameId) ∧
    (ps.map Version.id).Nodup ∧ (ps.map Version.getPriority).Nodup :=
  ⟨fun h => ⟨h.1,h.2,h.3⟩,fun h => ⟨h.1,h.2.1,h.2.2⟩⟩

/-- The dialog merges in descending priority. -/
theorem InstallChoice.loaders_spec : Descending choice.loaders ∧ Distinct choice.loaders ∧
    (∀ p ∈ choice.loaders, p.priority ≠ none) ∧ choice.loaders.length ≤ 5 := by
  obtain ⟨liteLoader,forge,optifine,fabric,quilt,l,f,o,b,q,alone,single,last⟩ := choice
  have game : gameId = "game".toList := rfl
  have mod : forgeId = "forge".toList := rfl
  have shaders : optifineId = "optifine".toList := rfl
  rw [distinct_iff]
  unfold Descending
  cases liteLoader <;> cases forge <;> cases optifine <;> cases fabric <;> cases quilt <;>
    simp_all [loaders,Version.getPriority]

theorem run_gameInstallDialog {game v0 : Version} (stored : Stored game v0) {order : List Version}
    (same : order.Perm choice.loaders) :
    SameFields (run env v0 (order.map Call.install)) (gameInstallDialog env choice v0) := by
  obtain ⟨descending,distinct,present,few⟩ := choice.loaders_spec
  have distinctOrder := distinct.perm same.symm
  have admissible : Admissible (order.map Call.install) :=
    installs_admissible order (fun p member => present p (same.mem_iff.mp member)) distinctOrder
  have small : Small (order.map Call.install) := by
    apply small_map distinctOrder
    rw [same.length_eq]
    exact lt_of_le_of_lt (Nat.succ_le_succ few) (by decide)
  obtain ⟨_,fields⟩ := run_installed env stored admissible small
  have sorted : inPriorityOrder order = choice.loaders :=
    descending_unique (inPriorityOrder_descending distinctOrder) descending
      ((inPriorityOrder_perm order).trans same)
  rw [installed_map distinctOrder,loaded,sorted] at fields
  rw [gameInstallDialog_eq]
  exact fields.trans (foldl_mergeLoader_congr env _ stored.fields.symm)

end Dialog

section Extend

theorem installed_append (calls more : List Call) :
    installed (calls ++ more) =
      more.foldl (fun loaders call => call.installs loaders) (installed calls) :=
  List.foldl_append

theorem admissibleFrom_append (calls more : List Call) (loaders : List Version) :
    AdmissibleFrom loaders (calls ++ more) ↔ AdmissibleFrom loaders calls ∧
      AdmissibleFrom (calls.foldl (fun loaders call => call.installs loaders) loaders) more := by
  induction calls generalizing loaders with
  | nil => simp [AdmissibleFrom]
  | cons call rest ih => simp only [List.cons_append,AdmissibleFrom,ih,List.foldl_cons,and_assoc]

theorem small_last {calls : List Call} (small : Small calls) :
    (installed calls).length + 1 < TimSort.minMerge := by
  have whole := small calls.length
  rwa [List.take_length] at whole

theorem small_snoc {calls : List Call} (small : Small calls) (call : Call)
    (last : (installed (calls ++ [call])).length + 1 < TimSort.minMerge) :
    Small (calls ++ [call]) := by
  intro n
  rcases Nat.lt_or_ge calls.length n with beyond | inside
  · rw [List.take_of_length_le]
    · exact last
    · simpa using beyond
  · rw [List.take_append_of_le_length inside]
    exact small n

variable {calls : List Call} {p : Version}

theorem installs_twice (loaders : List Version) :
    (Call.install p).installs ((Call.install p).installs loaders) =
      (Call.install p).installs loaders := by
  unfold Call.installs Call.type Call.patch
  simp

theorem uninstalls_installed {loaders : List Version} (absent : ∀ q ∈ loaders, q.id ≠ p.id) :
    (Call.uninstall p.id).installs ((Call.install p).installs loaders) = loaders := by
  unfold Call.installs Call.type Call.patch
  simpa using absent

theorem again_admissible (admissible : Admissible (calls ++ [.install p])) :
    Admissible ((calls ++ [.install p]) ++ [.install p]) := by
  obtain ⟨_,other,fresh,_⟩ := (admissibleFrom_append calls [.install p] []).mp admissible
  refine (admissibleFrom_append _ _ _).mpr ⟨admissible,other,?_,trivial⟩
  intro q equal
  obtain rfl : p = q := by simpa [Call.patch] using equal
  obtain ⟨present,apart⟩ := fresh p rfl
  refine ⟨present,?_⟩
  intro r member different
  rw [List.foldl_append] at member
  rcases List.mem_append.mp member with before | last
  · exact apart r (List.mem_filter.mp before).1 different
  · obtain rfl : r = p := by simpa [Call.patch] using last
    exact absurd rfl different

theorem undone_admissible (admissible : Admissible (calls ++ [.install p])) :
    Admissible ((calls ++ [.install p]) ++ [.uninstall p.id]) := by
  obtain ⟨_,other,_⟩ := (admissibleFrom_append calls [.install p] []).mp admissible
  refine (admissibleFrom_append _ _ _).mpr ⟨admissible,other,?_,trivial⟩
  intro q equal
  simp [Call.patch] at equal

theorem again_small (small : Small (calls ++ [.install p])) :
    Small ((calls ++ [.install p]) ++ [.install p]) := by
  apply small_snoc small
  have last := small_last small
  rw [installed_append] at last
  rw [installed_append,installed_append]
  simpa [installs_twice] using last

theorem undone_small (small : Small (calls ++ [.install p])) :
    Small ((calls ++ [.install p]) ++ [.uninstall p.id]) := by
  apply small_snoc small
  have last := small_last small
  rw [installed_append _ [Call.uninstall p.id]]
  have fewer : ((Call.uninstall p.id).installs (installed (calls ++ [.install p]))).length ≤
      (installed (calls ++ [.install p])).length := by
    unfold Call.installs Call.patch
    simpa using List.length_filter_le _ _
  exact lt_of_le_of_lt (Nat.succ_le_succ fewer) last

end Extend

/-- What the game installer returns is a stored version. -/
theorem gameInstall_stored (raw : Version) (unpatched : raw.patches = none) :
    Stored (gamePatch raw) (gameInstall raw) := by
  have patches : (gameInstall raw).getPatches = [gamePatch raw] := by
    unfold gameInstall
    rw [addPatch_getPatches]
    simp [Version.getPatches,unpatched]
  refine ⟨rfl,by simp [gamePatch,Version.setPriority,Version.setVersion],rfl,patches,?_⟩
  refine ⟨rfl,rfl,rfl,rfl,?_⟩
  rw [patches]
  unfold gameBase
  rw [addPatch_getPatches]
  simp [gamePatch,Version.getPatches,Version.setId,Version.setVersion,Version.setPriority,unpatched]

/-- A history whose calls all stay below the merge threshold of the sort leaves the
fold of its installed loaders; what led to them is forgotten. -/
theorem run_path_independent (env : Platform) {game v0 : Version} (stored : Stored game v0)
    (calls : List Call) (admissible : Admissible calls) (small : Small calls) :
    SameFields (run env v0 calls) (loaded env game (installed calls)) ∧
      (∀ other, Admissible other → Small other →
        (∀ p, p ∈ installed other ↔ p ∈ installed calls) →
        SameFields (run env v0 other) (run env v0 calls)) ∧
      (∀ p, Admissible (calls ++ [.install p]) → Small (calls ++ [.install p]) →
        SameFields (run env v0 ((calls ++ [.install p]) ++ [.install p]))
            (run env v0 (calls ++ [.install p])) ∧
          ((∀ q ∈ installed calls, q.id ≠ p.id) →
            SameFields (run env v0 ((calls ++ [.install p]) ++ [.uninstall p.id]))
              (run env v0 calls))) ∧
      ∀ (choice : InstallChoice) (order : List Version), order.Perm choice.loaders →
        SameFields (run env v0 (order.map Call.install)) (gameInstallDialog env choice v0) := by
  refine ⟨(run_installed env stored admissible small).2,?_,?_,?_⟩
  · intro other admissibleOther smallOther same
    exact run_congr env stored admissible small admissibleOther smallOther same
  · intro p admissibleNext smallNext
    have step := installed_append calls [.install p]
    constructor
    · apply run_congr env stored admissibleNext smallNext
      · exact again_admissible admissibleNext
      · exact again_small smallNext
      · intro q
        rw [installed_append _ [Call.install p],step,List.foldl_cons,List.foldl_nil,List.foldl_cons,
          List.foldl_nil,installs_twice]
    · intro absent
      apply run_congr env stored admissible small
      · exact undone_admissible admissibleNext
      · exact undone_small smallNext
      · intro q
        rw [installed_append _ [Call.uninstall p.id],step,List.foldl_cons,List.foldl_nil,
          List.foldl_cons,List.foldl_nil,uninstalls_installed absent]
  · intro choice order same
    exact run_gameInstallDialog env choice stored same

def release : Version := Version.ofId ("1.12.2" : String)

def numbered (n : Nat) : Version :=
  { Version.ofId (("loader" : String) ++ Nat.toDigits 10 n) with
    version := some (("1" : String) : Text)
    priority := some (n : Int)
    minecraftArguments := if n = 100 ∨ n = 30 then some (Nat.toDigits 10 n) else none }

theorem numbered_distinct : Distinct [numbered 100,numbered 30] := by
  constructor <;> decide +kernel

theorem run_path_independent_two :
    SameFields (run .arm64 (gameInstall release) ([numbered 100,numbered 30].map Call.install))
      (loaded .arm64 (gamePatch release)
        (installed ([numbered 100,numbered 30].map Call.install))) :=
  (run_path_independent .arm64 (gameInstall_stored release rfl) _
    (installs_admissible _ (by decide +kernel) numbered_distinct)
    (small_map numbered_distinct (by decide))).1

def thirtyLoaders : List Version := (List.range 30).map fun i => numbered (30 - i)

theorem thirtyOne_distinct : Distinct (thirtyLoaders ++ [numbered 100]) := by
  constructor <;> decide +kernel

/-- With the game patch these are 32 patches. The sort no longer moves the loader
that came last to the front, so its arguments win. -/
theorem run_depends_on_order :
    Stored (gamePatch release) (gameInstall release) ∧
      Admissible ((numbered 100 :: thirtyLoaders).map Call.install) ∧
      Admissible ((thirtyLoaders ++ [numbered 100]).map Call.install) ∧
      (∀ p, p ∈ installed ((numbered 100 :: thirtyLoaders).map Call.install) ↔
        p ∈ installed ((thirtyLoaders ++ [numbered 100]).map Call.install)) ∧
      (run .arm64 (gameInstall release)
          ((numbered 100 :: thirtyLoaders).map Call.install)).minecraftArguments ≠
        (run .arm64 (gameInstall release)
          ((thirtyLoaders ++ [numbered 100]).map Call.install)).minecraftArguments := by
  have turned : (thirtyLoaders ++ [numbered 100]).Perm (numbered 100 :: thirtyLoaders) :=
    List.perm_append_singleton _ _
  have distinct := thirtyOne_distinct.perm turned
  refine ⟨gameInstall_stored release rfl,?_,?_,?_,by decide +kernel⟩
  · exact installs_admissible _ (by decide +kernel) distinct
  · exact installs_admissible _ (by decide +kernel) thirtyOne_distinct
  · rw [installed_map distinct,installed_map thirtyOne_distinct]
    intro p
    exact turned.mem_iff.symm

end HmclPe.Download.PatchHistory
