import HmclPe.Java.Text
import HmclPe.Lib.Edits

/-! The touch injector: how it rewrites the argument vector of a launch, which it reads text by
text, and what it is to change in it. -/
namespace HmclPe.Launch.TouchInjector
open HmclPe.Java HmclPe.Lib.Edits

section Model

inductive Loader
  | fabric | quilt
  deriving DecidableEq

def Loader.knotClient : Loader → Text
  | .fabric => ("net.fabricmc.loader.impl.launch.knot.KnotClient" : String)
  | .quilt => ("org.quiltmc.loader.impl.launch.knot.KnotClient" : String)

def Loader.injectorClient : Loader → Text
  | .fabric => ("com.tungsten.touchinjector.launch.FabricKnotClient" : String)
  | .quilt => ("com.tungsten.touchinjector.launch.QuiltKnotClient" : String)

variable (pluginDir : Text)

def agent (mode : Text) : Text :=
  ("-javaagent:" : String) ++ pluginDir ++ ("/touch/TouchInjector.jar=" : String) ++ mode

def versionItem (version : Text) : Text := ("-Dtouchinjector.version=" : String) ++ version

/-- What is appended to a class path. -/
def forgeJar : Text := ':' :: pluginDir ++ ("/touch/TouchInjector-forge.jar" : String)

def knotJar : Text := ':' :: pluginDir ++ ("/touch/TouchInjector.jar" : String)

def isXms (arg : Text) : Bool := arg.startsWith ("-Xms" : String)

def isClassPathFlag (arg : Text) : Bool := decide (arg = ("-cp" : String))

def versionOf (arg : Text) : Text :=
  if arg.startsWith ("1.17" : String) then ("1.17" : String)
  else if arg.startsWith ("1.18" : String) then ("1.18" : String)
  else if arg.startsWith ("1.19" : String) then ("1.19" : String)
  else ("unknown" : String)

/-- The first value of `--assetIndex` decides; what looks like an option is no value. -/
def assetVersion : Bool → List Text → Text
  | _, [] => ("unknown" : String)
  | hit, arg :: args =>
    if hit && !arg.startsWith ("--" : String) then versionOf arg
    else assetVersion (decide (arg = ("--assetIndex" : String))) args

def agentArguments (mode : Text) (args : List Text) : List Text :=
  args.flatMap fun arg => if isXms arg then [agent pluginDir mode,arg] else [arg]

def bootstrapArguments (version : Text) : Bool → List Text → List Text
  | _, [] => []
  | hit, arg :: args =>
    if hit then (arg ++ forgeJar pluginDir) :: bootstrapArguments version false args
    else if isXms arg then versionItem version :: arg :: bootstrapArguments version false args
    else if isClassPathFlag arg then arg :: bootstrapArguments version true args
    else arg :: bootstrapArguments version false args

def knotArguments (loader : Loader) : Bool → List Text → List Text
  | _, [] => []
  | hit, arg :: args =>
    if hit then (arg ++ knotJar pluginDir) :: knotArguments loader false args
    else if arg = loader.knotClient then loader.injectorClient :: knotArguments loader false args
    else if isClassPathFlag arg then arg :: knotArguments loader true args
    else arg :: knotArguments loader false args

def isForge (args : List Text) : Bool :=
  args.contains ("Forge" : String).toList ||
    args.contains ("cpw.mods.fml.common.launcher.FMLTweaker" : String).toList ||
    args.contains ("fmlclient" : String).toList || args.contains ("forgeclient" : String).toList

def isBootstrap (args : List Text) : Bool :=
  args.contains ("cpw.mods.bootstraplauncher.BootstrapLauncher" : String).toList

def isOptiFine (args : List Text) : Bool :=
  args.contains ("optifine.OptiFineTweaker" : String).toList ||
    args.contains ("com.mumfrey.liteloader.launch.LiteLoaderTweaker" : String).toList

def rebaseArguments (touchInjector : Bool) (args : List Text) : List Text :=
  if !touchInjector then args
  else if isForge args then
    if isBootstrap args then bootstrapArguments pluginDir (assetVersion false args) false args
    else agentArguments pluginDir ("forge" : String) args
  else if isOptiFine args then agentArguments pluginDir ("optifine" : String) args
  else if args.contains Loader.fabric.knotClient then knotArguments pluginDir .fabric false args
  else if args.contains Loader.quilt.knotClient then knotArguments pluginDir .quilt false args
  else agentArguments pluginDir ("vanilla" : String) args

end Model

/-- What a version needs: an agent (vanilla, OptiFine and old Forge), the bootstrap launcher of
Forge, or the client of a loader. -/
inductive Kind
  | agent
  | bootstrap
  | knot (loader : Loader)
  deriving DecidableEq

/-- What the launcher knows of an argument it writes. -/
inductive Role
  | xms | flag | classPath | mainClass | other
  deriving DecidableEq

structure Item where
  role : Role
  text : Text

structure Item.Fits (item : Item) : Prop where
  xms : item.role = .xms → isXms item.text = true
  flag : item.role = .flag → isClassPathFlag item.text = true
  classPath : item.role = .classPath → item.text.head? = some '/'

/-- An argument vector as a launcher builds it: one size flag, one class path behind its flag,
one main class, and arbitrary texts. -/
structure ArgumentVector where
  items : List Item
  fits : ∀ item ∈ items, item.Fits
  once : ∀ role, role ≠ .other → (items.map Item.role).count role = 1
  paired : items.IsChain fun item next => item.role = .flag ↔ next.role = .classPath
  starts : ∀ item ∈ items.head?, item.role ≠ .classPath

def ArgumentVector.args (vector : ArgumentVector) : List Text := vector.items.map Item.text

section Intention
variable (pluginDir label : Text)

/-- The one change that each item of a vector is to see. -/
def intended : Kind → Item → Edit Text
  | .agent, item => match item.role with
    | .xms => ⟨some (agent pluginDir label),item.text⟩
    | _ => ⟨none,item.text⟩
  | .bootstrap, item => match item.role with
    | .xms => ⟨some (versionItem label),item.text⟩
    | .classPath => ⟨none,item.text ++ forgeJar pluginDir⟩
    | _ => ⟨none,item.text⟩
  | .knot loader, item => match item.role with
    | .classPath => ⟨none,item.text ++ knotJar pluginDir⟩
    | .mainClass => ⟨none,loader.injectorClient⟩
    | _ => ⟨none,item.text⟩

/-- The change that the scan makes, which knows an item by its text and the flag before it. -/
def performed : Kind → Bool × Item → Edit Text
  | .agent, (_,item) =>
    if isXms item.text then ⟨some (agent pluginDir label),item.text⟩ else ⟨none,item.text⟩
  | .bootstrap, (hit,item) =>
    if hit then ⟨none,item.text ++ forgeJar pluginDir⟩
    else if isXms item.text then ⟨some (versionItem label),item.text⟩
    else ⟨none,item.text⟩
  | .knot loader, (hit,item) =>
    if hit then ⟨none,item.text ++ knotJar pluginDir⟩
    else if item.text = loader.knotClient then ⟨none,loader.injectorClient⟩
    else ⟨none,item.text⟩

end Intention

/-- Only the intended changes were made, whatever mode or version was written. -/
def Rewritten (pluginDir : Text) (kind : Kind) (vector : ArgumentVector) (args : List Text) :
    Prop :=
  ∃ label, args = render (vector.items.map (intended pluginDir label kind))

/-- The kind that the texts of a vector show. -/
def detect (args : List Text) : Kind :=
  if isForge args then if isBootstrap args then .bootstrap else .agent
  else if isOptiFine args then .agent
  else if args.contains Loader.fabric.knotClient then .knot .fabric
  else if args.contains Loader.quilt.knotClient then .knot .quilt
  else .agent

/-- No text of a vector is taken for what it is not. -/
structure Unambiguous (kind : Kind) (vector : ArgumentVector) : Prop where
  detected : detect vector.args = kind
  xms : (∀ loader, kind ≠ .knot loader) →
    ∀ item ∈ vector.items, isXms item.text = true → item.role = .xms
  flags : kind ≠ .agent →
    ∀ item ∈ vector.items.dropLast, isClassPathFlag item.text = true → item.role = .flag
  client : ∀ loader, kind = .knot loader →
    ∀ item ∈ vector.items, item.text = loader.knotClient ↔ item.role = .mainClass

section Texts

theorem isXms_iff {s : Text} : isXms s = true ↔ ("-Xms" : String).toList <+: s :=
  List.isPrefixOf_iff_prefix

theorem isClassPathFlag_iff {s : Text} : isClassPathFlag s = true ↔ s = ("-cp" : String) :=
  decide_eq_true_iff

/-- The second letter tells the texts apart that are written. -/
theorem xms_second {s : Text} (sized : isXms s = true) (more : Text) :
    (s ++ more)[1]? = some 'X' := by
  obtain ⟨rest,rfl⟩ := isXms_iff.mp sized
  rfl

theorem xms_not_flag {s : Text} (sized : isXms s = true) : isClassPathFlag s = false := by
  rw [Bool.eq_false_iff]
  intro flag
  rw [isClassPathFlag_iff.mp flag] at sized
  exact absurd sized (by decide)

theorem knotClient_not_flag (loader : Loader) : isClassPathFlag loader.knotClient = false := by
  cases loader <;> decide

variable {s : Text} (absolute : s.head? = some '/')
include absolute

theorem absolute_not_flag : isClassPathFlag s = false := by
  rw [Bool.eq_false_iff]
  intro flag
  rw [isClassPathFlag_iff.mp flag] at absolute
  exact absurd absolute (by decide)

theorem absolute_not_xms : isXms s = false := by
  rw [Bool.eq_false_iff]
  intro sized
  obtain ⟨rest,rfl⟩ := isXms_iff.mp sized
  exact absurd absolute (by simp)

theorem absolute_not_client (loader : Loader) : s ≠ loader.knotClient := by
  rintro rfl
  cases loader <;> exact absurd absolute (by decide)

end Texts

section Scans
variable (pluginDir : Text)

/-- The items with whether the scan takes each for the value of a class path flag. -/
def scanned (hit : Bool) (items : List Item) : List (Bool × Item) :=
  values (fun item : Item => isClassPathFlag item.text) hit items

theorem agentArguments_eq (mode : Text) (hit : Bool) (items : List Item) :
    agentArguments pluginDir mode (items.map Item.text) =
      render ((scanned hit items).map (performed pluginDir mode .agent)) := by
  induction items generalizing hit with
  | nil => rfl
  | cons item items ih =>
    have cut : agentArguments pluginDir mode ((item :: items).map Item.text) =
        (performed pluginDir mode .agent (hit,item)).entries ++
          agentArguments pluginDir mode (items.map Item.text) := by
      rw [List.map_cons,agentArguments,List.flatMap_cons,performed]
      split <;> rfl
    rw [cut,ih]
    rfl

theorem bootstrapArguments_eq (version : Text) (hit : Bool) (items : List Item) :
    bootstrapArguments pluginDir version hit (items.map Item.text) =
      render ((scanned hit items).map (performed pluginDir version .bootstrap)) := by
  induction items generalizing hit with
  | nil => rfl
  | cons item items ih =>
    have cut : render ((scanned hit (item :: items)).map (performed pluginDir version .bootstrap)) =
        (performed pluginDir version .bootstrap (hit,item)).entries ++
          bootstrapArguments pluginDir version (!hit && isClassPathFlag item.text)
            (items.map Item.text) := by
      rw [ih]
      rfl
    rw [cut,List.map_cons,bootstrapArguments,performed]
    cases hit with
    | true => rfl
    | false =>
      by_cases sized : isXms item.text = true
      · simp [sized,xms_not_flag sized,Edit.entries]
      · by_cases flag : isClassPathFlag item.text = true <;> simp [sized,flag,Edit.entries]

theorem knotArguments_eq (loader : Loader) (label : Text) (hit : Bool) (items : List Item) :
    knotArguments pluginDir loader hit (items.map Item.text) =
      render ((scanned hit items).map (performed pluginDir label (.knot loader))) := by
  induction items generalizing hit with
  | nil => rfl
  | cons item items ih =>
    have cut :
        render ((scanned hit (item :: items)).map (performed pluginDir label (.knot loader))) =
        (performed pluginDir label (.knot loader) (hit,item)).entries ++
          knotArguments pluginDir loader (!hit && isClassPathFlag item.text)
            (items.map Item.text) := by
      rw [ih]
      rfl
    rw [cut,List.map_cons,knotArguments,performed]
    cases hit with
    | true => rfl
    | false =>
      by_cases client : item.text = loader.knotClient
      · simp [client,knotClient_not_flag,Edit.entries]
      · by_cases flag : isClassPathFlag item.text = true <;> simp [client,flag,Edit.entries]

/-- The mode or version that is written, if any. -/
def label (args : List Text) : Text :=
  if isForge args then if isBootstrap args then assetVersion false args else ("forge" : String)
  else if isOptiFine args then ("optifine" : String)
  else ("vanilla" : String)

theorem rebaseArguments_eq (items : List Item) :
    rebaseArguments pluginDir true (items.map Item.text) =
      render ((scanned false items).map (performed pluginDir (label (items.map Item.text))
        (detect (items.map Item.text)))) := by
  unfold rebaseArguments detect label
  cases isForge (items.map Item.text) with
  | true =>
    cases isBootstrap (items.map Item.text) with
    | true => exact bootstrapArguments_eq pluginDir _ false items
    | false => exact agentArguments_eq pluginDir _ false items
  | false =>
    cases isOptiFine (items.map Item.text) with
    | true => exact agentArguments_eq pluginDir _ false items
    | false =>
      cases (items.map Item.text).contains Loader.fabric.knotClient with
      | true => exact knotArguments_eq pluginDir .fabric _ false items
      | false =>
        cases (items.map Item.text).contains Loader.quilt.knotClient with
        | true => exact knotArguments_eq pluginDir .quilt _ false items
        | false => exact agentArguments_eq pluginDir _ false items

theorem detect_knot {args : List Text} {loader : Loader} (detected : detect args = .knot loader) :
    loader.knotClient ∈ args := by
  unfold detect at detected
  split at detected
  · split at detected <;> exact absurd detected nofun
  · split at detected
    · exact absurd detected nofun
    · split at detected
      · rename_i found
        obtain rfl := Kind.knot.inj detected
        exact List.contains_iff_mem.mp found
      · split at detected
        · rename_i found
          obtain rfl := Kind.knot.inj detected
          exact List.contains_iff_mem.mp found
        · exact absurd detected nofun

end Scans

section Changes
variable (pluginDir : Text)

/-- What both kinds of edits keep to: only a size flag gets a new item before it. -/
structure Shaped (item : Item) (edit : Edit Text) : Prop where
  before : ∀ new, edit.before = some new →
    isXms item.text = true ∧ (new[1]? = some 'j' ∨ new[1]? = some 'D')
  here : isXms item.text = true → edit.here[1]? = some 'X' ∨ edit.here[1]? = some 'o'

theorem Shaped.fresh {item : Item} {edit other : Edit Text} (shaped : Shaped item edit)
    (shaped' : Shaped item other) : Fresh edit other := by
  intro new inserted _ same
  obtain ⟨sized,second⟩ := shaped.before new inserted
  have second' := shaped'.here sized
  rw [← same] at second'
  rcases second with second | second <;> simp [second] at second'

theorem Shaped.kept {item : Item} (more : Text) : Shaped item ⟨none,item.text ++ more⟩ :=
  ⟨nofun,fun sized => .inl (xms_second sized more)⟩

theorem Shaped.same {item : Item} : Shaped item ⟨none,item.text⟩ :=
  ⟨nofun,fun sized => .inl (by simpa using xms_second sized [])⟩

theorem Shaped.insert {item : Item} {new : Text} (sized : isXms item.text = true)
    (second : new[1]? = some 'j' ∨ new[1]? = some 'D') : Shaped item ⟨some new,item.text⟩ := by
  refine ⟨fun other inserted => ⟨sized,?_⟩,fun _ => .inl (by simpa using xms_second sized [])⟩
  rw [← Option.some.inj inserted]
  exact second

theorem Shaped.client {item : Item} (loader : Loader) : Shaped item ⟨none,loader.injectorClient⟩ :=
  ⟨nofun,fun _ => .inr (by cases loader <;> rfl)⟩

theorem performed_shaped (label : Text) (kind : Kind) (hit : Bool) (item : Item) :
    Shaped item (performed pluginDir label kind (hit,item)) := by
  cases kind with
  | agent =>
    rw [performed]
    split
    · rename_i sized
      exact .insert sized (.inl rfl)
    · exact .same
  | bootstrap =>
    rw [performed]
    split
    · exact .kept _
    · split
      · rename_i sized
        exact .insert sized (.inr rfl)
      · exact .same
  | knot loader =>
    rw [performed]
    split
    · exact .kept _
    · split
      · exact .client loader
      · exact .same

theorem intended_shaped (label : Text) (kind : Kind) {item : Item} (fits : item.Fits) :
    Shaped item (intended pluginDir label kind item) := by
  obtain ⟨role,text⟩ := item
  cases kind with
  | agent =>
    cases role with
    | xms => exact .insert (fits.xms rfl) (.inl rfl)
    | _ => exact .same
  | bootstrap =>
    cases role with
    | xms => exact .insert (fits.xms rfl) (.inr rfl)
    | classPath => exact .kept _
    | _ => exact .same
  | knot loader =>
    cases role with
    | classPath => exact .kept _
    | mainClass => exact .client loader
    | _ => exact .same

end Changes

section Vectors
variable (vector : ArgumentVector)

theorem exists_role (role : Role) (known : role ≠ .other) :
    ∃ item ∈ vector.items, item.role = role := by
  have member : role ∈ vector.items.map Item.role :=
    List.count_pos_iff.mp (by rw [vector.once role known]; exact Nat.one_pos)
  exact List.mem_map.mp member

theorem mem_scanned {item : Item} {items : List Item} (member : item ∈ items) :
    ∃ hit, (hit,item) ∈ scanned false items := by
  have listed : item ∈ (scanned false items).map Prod.snd := by
    rw [scanned,values_snd]
    exact member
  obtain ⟨⟨hit,_⟩,found,rfl⟩ := List.mem_map.mp listed
  exact ⟨hit,found⟩

theorem item_of_scanned {marked : Bool × Item} (member : marked ∈ scanned false vector.items) :
    marked.2 ∈ vector.items := mem_of_mem_values _ member

theorem fits_of_scanned {marked : Bool × Item} (member : marked ∈ scanned false vector.items) :
    marked.2.Fits := vector.fits _ (item_of_scanned vector member)

/-- The scan finds the class path alone if nothing else that looks like its flag is followed. -/
theorem scanned_iff :
    (∀ marked ∈ scanned false vector.items, marked.1 = true ↔ marked.2.role = .classPath) ↔
      ∀ item ∈ vector.items.dropLast, isClassPathFlag item.text = true → item.role = .flag := by
  apply values_iff _ (fun item : Item => item.role = .flag)
    (fun item : Item => item.role = .classPath)
  · intro item member flag
    exact ⟨(vector.fits item member).flag flag,by rw [flag]; exact nofun⟩
  · intro item member path
    exact absolute_not_flag ((vector.fits item member).classPath path)
  · exact vector.paired
  · intro item first
    exact ⟨nofun,fun path => absurd path (vector.starts item first)⟩

variable (pluginDir : Text)

theorem rewritten_pointwise (kind : Kind) :
    Rewritten pluginDir kind vector (rebaseArguments pluginDir true vector.args) ↔
      ∃ new, ∀ marked ∈ scanned false vector.items,
        performed pluginDir (label vector.args) (detect vector.args) marked =
          intended pluginDir new kind marked.2 := by
  apply exists_congr
  intro new
  have items : vector.items.map (intended pluginDir new kind) =
      (scanned false vector.items).map fun marked => intended pluginDir new kind marked.2 := by
    conv_lhs => rw [← values_snd (fun item : Item => isClassPathFlag item.text) false vector.items]
    rw [List.map_map]
    rfl
  rw [items,ArgumentVector.args,rebaseArguments_eq]
  apply render_map_iff
  rintro ⟨hit,item⟩ member
  have shaped := performed_shaped pluginDir (label vector.args) (detect vector.args) hit item
  have shaped' := intended_shaped pluginDir new kind (fits_of_scanned vector member)
  exact ⟨shaped.fresh shaped',shaped'.fresh shaped⟩

theorem agent_ne_version (mode version : Text) : agent pluginDir mode ≠ versionItem version := by
  intro same
  have second : (agent pluginDir mode)[1]? = some 'j' := rfl
  have second' : (versionItem version)[1]? = some 'D' := rfl
  rw [same,second'] at second
  exact absurd second (by decide)

theorem forgeJar_ne (s : Text) : s ++ forgeJar pluginDir ≠ s := by simp [forgeJar]

theorem knotJar_ne (s : Text) : s ++ knotJar pluginDir ≠ s := by simp [knotJar]

theorem knotJar_ne_client (s : Text) (loader : Loader) :
    s ++ knotJar pluginDir ≠ loader.injectorClient := by
  intro same
  have colon : ':' ∈ s ++ knotJar pluginDir := by simp [knotJar]
  rw [same] at colon
  cases loader <;> exact absurd colon (by decide)

theorem injectorClient_ne (loader : Loader) : loader.injectorClient ≠ loader.knotClient := by
  cases loader <;> decide

theorem injectorClient_inj {loader other : Loader}
    (same : loader.injectorClient = other.injectorClient) : loader = other := by
  revert same
  cases loader <;> cases other <;> decide

/-- Two clients are told apart at the item that one of them was found in. -/
theorem loader_of_changes {label new : Text} {found loader : Loader}
    (client : found.knotClient ∈ vector.args)
    (same : ∀ marked ∈ scanned false vector.items,
      performed pluginDir label (.knot found) marked =
        intended pluginDir new (.knot loader) marked.2) : found = loader := by
  obtain ⟨⟨role,text⟩,member,rfl⟩ := List.mem_map.mp client
  obtain ⟨hit,listed⟩ := mem_scanned member
  have change := same _ listed
  have absolute := (vector.fits _ member).classPath
  rw [performed] at change
  cases hit with
  | true =>
    cases role with
    | classPath => exact absurd rfl (absolute_not_client (absolute rfl) found)
    | mainClass => exact absurd (Edit.mk.inj change).2 (knotJar_ne_client pluginDir _ _)
    | _ => exact absurd (Edit.mk.inj change).2 (knotJar_ne pluginDir _)
  | false =>
    rw [if_neg (by decide),if_pos rfl] at change
    cases role with
    | classPath => exact absurd rfl (absolute_not_client (absolute rfl) found)
    | mainClass => exact injectorClient_inj (Edit.mk.inj change).2
    | _ => exact absurd (Edit.mk.inj change).2 (injectorClient_ne found)

/-- The change at the size flag, and at the client that was found, shows the kind. -/
theorem kind_of_changes {label new : Text} {found kind : Kind}
    (client : ∀ loader, found = .knot loader → loader.knotClient ∈ vector.args)
    (same : ∀ marked ∈ scanned false vector.items,
      performed pluginDir label found marked = intended pluginDir new kind marked.2) :
    found = kind := by
  obtain ⟨⟨role,text⟩,member,rfl⟩ := exists_role vector .xms nofun
  obtain ⟨hit,listed⟩ := mem_scanned member
  have sized : isXms text = true := (vector.fits _ member).xms rfl
  have change := same _ listed
  cases found with
  | agent =>
    simp only [performed,sized,if_true] at change
    cases kind with
    | agent => rfl
    | bootstrap =>
      have inserted := Option.some.inj (Edit.mk.inj change).1
      exact absurd inserted (agent_ne_version pluginDir _ _)
    | knot loader => exact absurd (Edit.mk.inj change).1 nofun
  | bootstrap =>
    simp only [performed,sized,if_true] at change
    cases kind with
    | agent =>
      cases hit with
      | true => exact absurd (Edit.mk.inj change).1 nofun
      | false =>
        have inserted := Option.some.inj (Edit.mk.inj change).1
        exact absurd inserted.symm (agent_ne_version pluginDir _ _)
    | bootstrap => rfl
    | knot loader =>
      cases hit with
      | true => exact absurd (Edit.mk.inj change).2 (forgeJar_ne pluginDir _)
      | false => exact absurd (Edit.mk.inj change).1 nofun
  | knot found =>
    have nothing : (performed pluginDir label (.knot found) (hit,⟨.xms,text⟩)).before = none := by
      rw [performed]
      split
      · rfl
      · split <;> rfl
    rw [change] at nothing
    cases kind with
    | agent => exact absurd nothing nofun
    | bootstrap => exact absurd nothing nofun
    | knot loader => rw [loader_of_changes vector pluginDir (client found rfl) same]

theorem role_unique {role : Role} (known : role ≠ .other) {item other : Item}
    (member : item ∈ vector.items) (member' : other ∈ vector.items) (same : item.role = role)
    (same' : other.role = role) : item = other := by
  have single := vector.once role known
  rw [List.count,List.countP_map,List.countP_eq_length_filter] at single
  obtain ⟨only,listed⟩ := List.length_eq_one_iff.mp single
  have first : item ∈ [only] := listed ▸ List.mem_filter.mpr ⟨member,by simp [same]⟩
  have second : other ∈ [only] := listed ▸ List.mem_filter.mpr ⟨member',by simp [same']⟩
  rw [List.mem_singleton.mp first,List.mem_singleton.mp second]

end Vectors

section Kinds
variable (pluginDir : Text) {label new : Text} {hit : Bool} {item : Item}

theorem agent_change
    (same : performed pluginDir label .agent (hit,item) = intended pluginDir new .agent item) :
    isXms item.text = true → item.role = .xms := by
  intro sized
  rw [performed,if_pos sized] at same
  obtain ⟨role,text⟩ := item
  cases role with
  | xms => rfl
  | _ => exact absurd (Edit.mk.inj same).1 nofun

theorem agent_change_of (fits : item.Fits) (xms : isXms item.text = true → item.role = .xms) :
    performed pluginDir label .agent (hit,item) = intended pluginDir label .agent item := by
  obtain ⟨role,text⟩ := item
  rw [performed]
  cases role with
  | xms => exact if_pos (fits.xms rfl)
  | _ => exact if_neg fun sized => absurd (xms sized) nofun

theorem bootstrap_change (fits : item.Fits)
    (same : performed pluginDir label .bootstrap (hit,item) =
      intended pluginDir new .bootstrap item) :
    (hit = true ↔ item.role = .classPath) ∧ (isXms item.text = true → item.role = .xms) := by
  obtain ⟨role,text⟩ := item
  rw [performed] at same
  cases hit with
  | true =>
    cases role with
    | xms => exact absurd (Edit.mk.inj same).1 nofun
    | classPath =>
      have short := absolute_not_xms (fits.classPath rfl)
      exact ⟨by simp,fun sized => absurd sized (by simpa using short)⟩
    | _ => exact absurd (Edit.mk.inj same).2 (forgeJar_ne pluginDir _)
  | false =>
    cases role with
    | xms => simp
    | classPath =>
      have short := absolute_not_xms (fits.classPath rfl)
      rw [if_neg nofun,if_neg (by simpa using short)] at same
      exact absurd (Edit.mk.inj same).2.symm (forgeJar_ne pluginDir _)
    | _ =>
      refine ⟨by simp,fun sized => ?_⟩
      rw [if_neg nofun,if_pos sized] at same
      exact absurd (Edit.mk.inj same).1 nofun

theorem bootstrap_change_of (fits : item.Fits) (path : hit = true ↔ item.role = .classPath)
    (xms : isXms item.text = true → item.role = .xms) :
    performed pluginDir label .bootstrap (hit,item) = intended pluginDir label .bootstrap item := by
  obtain ⟨role,text⟩ := item
  rw [performed]
  cases role with
  | xms => rw [if_neg (fun inside => absurd (path.mp inside) nofun),if_pos (fits.xms rfl)]; rfl
  | classPath => exact if_pos (path.mpr rfl)
  | _ =>
    rw [if_neg (fun inside => absurd (path.mp inside) nofun),
      if_neg (fun sized => absurd (xms sized) nofun)]
    rfl

variable {loader : Loader}

theorem knot_change (fits : item.Fits)
    (same : performed pluginDir label (.knot loader) (hit,item) =
      intended pluginDir new (.knot loader) item) :
    (hit = true ↔ item.role = .classPath) ∧
      (item.text = loader.knotClient → item.role = .mainClass) := by
  obtain ⟨role,text⟩ := item
  rw [performed] at same
  cases hit with
  | true =>
    cases role with
    | classPath =>
      exact ⟨by simp,fun client => absurd client (absolute_not_client (fits.classPath rfl) loader)⟩
    | mainClass => exact absurd (Edit.mk.inj same).2 (knotJar_ne_client pluginDir _ _)
    | _ => exact absurd (Edit.mk.inj same).2 (knotJar_ne pluginDir _)
  | false =>
    cases role with
    | mainClass => simp
    | classPath =>
      rw [if_neg nofun,if_neg (absolute_not_client (fits.classPath rfl) loader)] at same
      exact absurd (Edit.mk.inj same).2.symm (knotJar_ne pluginDir _)
    | _ =>
      refine ⟨by simp,fun client => ?_⟩
      rw [if_neg nofun,if_pos client] at same
      have written := (Edit.mk.inj same).2
      exact absurd (written.trans client) (injectorClient_ne loader)

theorem knot_change_of (path : hit = true ↔ item.role = .classPath)
    (client : item.text = loader.knotClient ↔ item.role = .mainClass) :
    performed pluginDir label (.knot loader) (hit,item) =
      intended pluginDir label (.knot loader) item := by
  obtain ⟨role,text⟩ := item
  rw [performed]
  cases role with
  | classPath => exact if_pos (path.mpr rfl)
  | mainClass =>
    rw [if_neg (fun inside => absurd (path.mp inside) nofun),if_pos (client.mpr rfl)]
    rfl
  | _ =>
    rw [if_neg (fun inside => absurd (path.mp inside) nofun),
      if_neg (fun found => absurd (client.mp found) nofun)]
    rfl

end Kinds

section Clear
variable {pluginDir label new : Text} {vector : ArgumentVector}

theorem xms_of_changes {kind : Kind} (other : ∀ loader, kind ≠ .knot loader)
    (same : ∀ marked ∈ scanned false vector.items,
      performed pluginDir label kind marked = intended pluginDir new kind marked.2)
    {item : Item} (member : item ∈ vector.items) :
    isXms item.text = true → item.role = .xms := by
  obtain ⟨hit,listed⟩ := mem_scanned member
  have change := same _ listed
  cases kind with
  | agent => exact agent_change pluginDir change
  | bootstrap => exact (bootstrap_change pluginDir (vector.fits item member) change).2
  | knot loader => exact absurd rfl (other loader)

theorem flags_of_changes {kind : Kind} (other : kind ≠ .agent)
    (same : ∀ marked ∈ scanned false vector.items,
      performed pluginDir label kind marked = intended pluginDir new kind marked.2) :
    ∀ item ∈ vector.items.dropLast, isClassPathFlag item.text = true → item.role = .flag := by
  apply (scanned_iff vector).mp
  rintro ⟨hit,item⟩ listed
  have fits := fits_of_scanned vector listed
  have change := same _ listed
  cases kind with
  | agent => exact absurd rfl other
  | bootstrap => exact (bootstrap_change pluginDir fits change).1
  | knot loader => exact (knot_change pluginDir fits change).1

/-- The client was found in some item, which can only be the main class. -/
theorem client_of_changes {loader : Loader} (client : loader.knotClient ∈ vector.args)
    (same : ∀ marked ∈ scanned false vector.items,
      performed pluginDir label (.knot loader) marked =
        intended pluginDir new (.knot loader) marked.2)
    {item : Item} (member : item ∈ vector.items) :
    item.text = loader.knotClient ↔ item.role = .mainClass := by
  have only : ∀ other ∈ vector.items, other.text = loader.knotClient → other.role = .mainClass := by
    intro other inside
    obtain ⟨hit,listed⟩ := mem_scanned inside
    exact (knot_change pluginDir (vector.fits other inside) (same _ listed)).2
  refine ⟨only item member,fun main => ?_⟩
  obtain ⟨found,inside,text⟩ := List.mem_map.mp client
  have known : Role.mainClass ≠ .other := nofun
  rw [role_unique vector known member inside main (only found inside text),text]

theorem changes_of_unambiguous {kind : Kind} (clear : Unambiguous kind vector) (label : Text) :
    ∀ marked ∈ scanned false vector.items,
      performed pluginDir label kind marked = intended pluginDir label kind marked.2 := by
  rintro ⟨hit,item⟩ listed
  have member : item ∈ vector.items := item_of_scanned vector listed
  have fits := vector.fits item member
  cases kind with
  | agent => exact agent_change_of pluginDir fits (clear.xms nofun item member)
  | bootstrap =>
    have path := (scanned_iff vector).mpr (clear.flags nofun) _ listed
    exact bootstrap_change_of pluginDir fits path (clear.xms nofun item member)
  | knot loader =>
    have path := (scanned_iff vector).mpr (clear.flags nofun) _ listed
    exact knot_change_of pluginDir path (clear.client loader rfl item member)

end Clear

/-- A vector is rewritten as its kind needs exactly if no text in it is taken for another. -/
theorem rewritten_iff (pluginDir : Text) (kind : Kind) (vector : ArgumentVector) :
    Rewritten pluginDir kind vector (rebaseArguments pluginDir true vector.args) ↔
      Unambiguous kind vector := by
  rw [rewritten_pointwise]
  constructor
  · rintro ⟨new,same⟩
    have detected := kind_of_changes vector pluginDir (fun loader found => detect_knot found) same
    rw [detected] at same
    refine ⟨detected,fun other item => xms_of_changes other same,
      fun other => flags_of_changes other same,?_⟩
    rintro loader rfl item member
    exact client_of_changes (detect_knot detected) same member
  · intro clear
    refine ⟨label vector.args,?_⟩
    rw [clear.detected]
    exact changes_of_unambiguous clear _

end HmclPe.Launch.TouchInjector
