import HmclPe.Java.TimSort
import HmclPe.Game.Version

/-! Merging loader patches into a game version, and rebuilding a version from its
stored game patch each time a loader is installed, replaced or removed. -/
namespace HmclPe.Download.PatchMerger
open HmclPe.Java HmclPe.Game

def gameId : Text := ("game" : String)
def optifineId : Text := ("optifine" : String)
def forgeId : Text := ("forge" : String)

def comparePriority (version t1 : Version) : Int :=
  if version.getPriority > t1.getPriority then -1
  -- The second test repeats the first one, so no pair is ever answered by 1.
  else if version.getPriority > t1.getPriority then 1
  else 0

section Merge

variable (env : Platform)

/-- `List.remove` of an object: the first element that equals it goes. -/
def remove (libraries : List Library) (lib : Library) : List Library :=
  libraries.eraseP (fun other => lib.equals env other)

def mergeLibraries (base added : List Library) : List Library :=
  base.foldl (fun libraries library =>
    added.foldl (fun libraries lib =>
      let libraries := if library.equals env lib then remove env libraries lib else libraries
      if library.getArtifactId = lib.getArtifactId ∧ library.getVersion ≠ lib.getVersion
      then remove env libraries library else libraries) libraries)
    (Lang.merge (some base) (some added))

def mergeArgumentsOf (gameVersionJson : Version) (added : Option Arguments) : Version :=
  match added with
  | none => gameVersionJson
  | some added => match gameVersionJson.arguments with
    | some own => gameVersionJson.setArguments (Arguments.merge (some own) (some added))
    | none => gameVersionJson.setArguments (some added)

def mergeMinecraftArgumentsOf (gameVersionJson patch : Version) : Version :=
  match patch.minecraftArguments with
  | some minecraftArguments => gameVersionJson.setMinecraftArguments (some minecraftArguments)
  | none => gameVersionJson

def mergePatch (gameVersionJson patch : Version) : Version :=
  let gameVersionJson := gameVersionJson.addPatch patch
  let gameVersionJson := gameVersionJson.setMainClass patch.mainClass
  let gameVersionJson := mergeMinecraftArgumentsOf gameVersionJson patch
  let gameVersionJson := mergeArgumentsOf gameVersionJson patch.arguments
  gameVersionJson.setLibraries (mergeLibraries env gameVersionJson.getLibraries patch.getLibraries)

def optiFineForgeTweaker : Arguments :=
  Arguments.empty.addGameArguments [("--tweakClass" : String),("optifine.OptiFineForgeTweaker" : String)]

def mergeOptifinePatch (gameVersionJson patch : Version) : Version :=
  let forge := gameVersionJson.getPatches.any fun (v : Version) => v.id = forgeId
  let gameVersionJson := gameVersionJson.addPatch patch
  let gameVersionJson := mergeMinecraftArgumentsOf gameVersionJson patch
  let gameVersionJson :=
    if forge then mergeArgumentsOf gameVersionJson (patch.arguments.map fun _ => optiFineForgeTweaker)
    else mergeArgumentsOf (gameVersionJson.setMainClass patch.mainClass) patch.arguments
  gameVersionJson.setLibraries (mergeLibraries env gameVersionJson.getLibraries patch.getLibraries)

/-- The body of the merge loop for a patch that is not the game itself. -/
def mergeLoader (gameVersionJson patch : Version) : Version :=
  if patch.id = optifineId then mergeOptifinePatch env gameVersionJson patch
  else mergePatch env gameVersionJson patch

/-- The version a stored game patch stands for; it always carries its version. -/
def gameBase (game : Version) : Version :=
  (((game.setId (game.version.getD [])).setVersion none).setPriority none).addPatch game

def findGame (patches : List Version) : Option Version :=
  patches.find? fun (v : Version) => v.id = gameId

/-- The patch of the given type goes, the new one comes. -/
def exchangePatch (gameVersionJson : Version) (patch : Option Version) (type : Text) : Version :=
  match patch with
  | some patch => (gameVersionJson.removePatchById type).addPatch patch
  | none => gameVersionJson.removePatchById type

/-- The failure branch of the source asks for a null version, which no assignment
before it produces. -/
def reMergePatch (gameVersionJson : Version) (patch : Option Version) (type : Text) : Version :=
  let gameVersionJson := exchangePatch gameVersionJson patch type
  let patches := TimSort.sort comparePriority gameVersionJson.getPatches
  let gameVersionJson := match findGame gameVersionJson.getPatches with
    | some game => gameBase game
    -- Without a game patch the sorted list is still the version's own.
    | none => gameVersionJson.setPatches (some patches)
  patches.foldl (fun (gameVersionJson v : Version) =>
    if v.id = gameId then gameVersionJson else mergeLoader env gameVersionJson v)
    gameVersionJson

end Merge

section Fields

variable (env : Platform)

@[simp] theorem setPatches_getPatches (v : Version) (patches : List Version) :
    (v.setPatches (some patches)).getPatches = patches := by
  simp [Version.setPatches,Version.getPatches]

@[simp] theorem setLibraries_getLibraries (v : Version) (libraries : List Library) :
    (v.setLibraries libraries).getLibraries = libraries := by
  simp [Version.setLibraries,Version.getLibraries]

theorem addPatch_getPatches (v patch : Version) :
    (v.addPatch patch).getPatches = v.getPatches.filter (fun q => q.id ≠ patch.id) ++ [patch] := by
  cases h : v.patches <;>
    simp [Version.addPatch,Version.addPatches,Version.getPatches,Version.setPatches,Lang.merge,h]

theorem removePatchById_getPatches (v : Version) (id : Text) :
    (v.removePatchById id).getPatches = v.getPatches.filter (fun q => q.id ≠ id) := by
  cases h : v.patches <;>
    simp [Version.removePatchById,Version.getPatches,Version.setPatches,h,eq_comm]

/-- What a version launches with, and the patches it was built from. -/
structure SameFields (v w : Version) : Prop where
  mainClass : v.mainClass = w.mainClass
  minecraftArguments : v.minecraftArguments = w.minecraftArguments
  arguments : v.arguments = w.arguments
  libraries : v.getLibraries = w.getLibraries
  patches : v.getPatches = w.getPatches

theorem SameFields.refl (v : Version) : SameFields v v := ⟨rfl,rfl,rfl,rfl,rfl⟩

theorem SameFields.symm {v w : Version} (h : SameFields v w) : SameFields w v :=
  ⟨h.1.symm,h.2.symm,h.3.symm,h.4.symm,h.5.symm⟩

theorem SameFields.trans {u v w : Version} (h : SameFields u v) (k : SameFields v w) :
    SameFields u w :=
  ⟨h.1.trans k.1,h.2.trans k.2,h.3.trans k.3,h.4.trans k.4,h.5.trans k.5⟩

theorem mergeArgumentsOf_eq (v : Version) (added : Option Arguments) :
    mergeArgumentsOf v added = { v with arguments := Arguments.merge v.arguments added } := by
  obtain ⟨_,_,_,_,_,arguments⟩ := v
  cases added <;> cases arguments <;> rfl

theorem mergeMinecraftArgumentsOf_eq (v patch : Version) :
    mergeMinecraftArgumentsOf v patch =
      { v with minecraftArguments := patch.minecraftArguments.or v.minecraftArguments } := by
  unfold mergeMinecraftArgumentsOf
  obtain ⟨_,_,_,_,own⟩ := v
  cases patch.minecraftArguments with
  | none => cases own <;> rfl
  | some minecraftArguments => rfl

def hasForge (v : Version) : Bool := v.getPatches.any fun (q : Version) => q.id = forgeId

/-- The arguments a loader contributes: OptiFine on Forge brings its own tweaker. -/
def addedArguments (v patch : Version) : Option Arguments :=
  if patch.id = optifineId ∧ hasForge v then
    patch.arguments.map fun _ => optiFineForgeTweaker
  else patch.arguments

theorem mergeLoader_fields (v patch : Version) :
    (mergeLoader env v patch).mainClass =
        (if patch.id = optifineId ∧ hasForge v then v.mainClass else patch.mainClass) ∧
      (mergeLoader env v patch).minecraftArguments =
        patch.minecraftArguments.or v.minecraftArguments ∧
      (mergeLoader env v patch).arguments =
        Arguments.merge v.arguments (addedArguments v patch) ∧
      (mergeLoader env v patch).getLibraries =
        mergeLibraries env v.getLibraries patch.getLibraries ∧
      (mergeLoader env v patch).getPatches =
        v.getPatches.filter (fun q => q.id ≠ patch.id) ++ [patch] := by
  have patches := addPatch_getPatches v patch
  have kept : (v.addPatch patch).getLibraries = v.getLibraries := rfl
  unfold mergeLoader addedArguments
  by_cases optifine : patch.id = optifineId
  · cases forge : hasForge v
    all_goals
      unfold hasForge at forge
      simp only [optifine,if_true,true_and,Bool.false_eq_true,if_false,mergeOptifinePatch,forge,
        mergeArgumentsOf_eq,mergeMinecraftArgumentsOf_eq,setLibraries_getLibraries]
      rw [optifine] at patches
      exact ⟨rfl,rfl,rfl,congrArg (mergeLibraries env · _) kept,patches⟩
  · simp only [optifine,if_false,false_and,mergePatch,mergeArgumentsOf_eq,
      mergeMinecraftArgumentsOf_eq,setLibraries_getLibraries]
    exact ⟨rfl,rfl,rfl,congrArg (mergeLibraries env · _) kept,patches⟩

theorem mergeLoader_congr {v w : Version} (same : SameFields v w) (patch : Version) :
    SameFields (mergeLoader env v patch) (mergeLoader env w patch) := by
  obtain ⟨vm,va,vg,vl,vp⟩ := mergeLoader_fields env v patch
  obtain ⟨wm,wa,wg,wl,wp⟩ := mergeLoader_fields env w patch
  have forge : hasForge v = hasForge w := by rw [hasForge,hasForge,same.patches]
  have added : addedArguments v patch = addedArguments w patch := by
    rw [addedArguments,addedArguments,forge]
  constructor
  · rw [vm,wm,forge,same.mainClass]
  · rw [va,wa,same.minecraftArguments]
  · rw [vg,wg,added,same.arguments]
  · rw [vl,wl,same.libraries]
  · rw [vp,wp,same.patches]

theorem foldl_mergeLoader_congr (loaders : List Version) {v w : Version} (same : SameFields v w) :
    SameFields (loaders.foldl (mergeLoader env) v) (loaders.foldl (mergeLoader env) w) := by
  induction loaders generalizing v w with
  | nil => exact same
  | cons patch rest ih => exact ih (mergeLoader_congr env same patch)

theorem foldl_loaders (patches : List Version) (v : Version) :
    patches.foldl (fun (v q : Version) =>
        if q.id = gameId then v else mergeLoader env v q) v =
      (patches.filter fun (q : Version) => q.id ≠ gameId).foldl (mergeLoader env) v := by
  induction patches generalizing v with
  | nil => rfl
  | cons q rest ih =>
    rw [List.foldl_cons,ih]
    by_cases game : q.id = gameId
    · rw [if_pos game,List.filter_cons_of_neg (by simpa using game)]
    · rw [if_neg game,List.filter_cons_of_pos (by simpa using game),List.foldl_cons]

end Fields

end HmclPe.Download.PatchMerger
