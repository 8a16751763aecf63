import HmclPe.Launch.LaunchVersion
import HmclPe.Launch.Boundaries

/-! The game and virtual machine arguments of a launch. Both are built as one text,
in which the keys are replaced, and split at blanks afterwards. -/
namespace HmclPe.Launch.LaunchVersion
open HmclPe.Java HmclPe.Game HmclPe.Launch.Expansion HmclPe.Launch.Boundaries

structure Account where
  authPlayerName : Text
  authSession : Text
  authUuid : Text
  authAccessToken : Text
  userType : Text

structure GameLaunchSetting where
  account : Account
  currentVersion : Text
  gameDirectory : Text
  gameFileDirectory : Text

/-- `File.getName`: the last name of a path, which may end in separators. -/
def fileName (path : Text) : Text := (((path.splitOn '/').filter (· ≠ [])).getLast?).getD []

def keyValues (version : LaunchVersion) (setting : GameLaunchSetting) : List (Text × Text) :=
  [("version_name",Text.orNull version.id),
    ("launcher_name","HMCL-PE"),
    ("launcher_version","1.0.0"),
    ("version_type",Text.orNull version.type),
    ("assets_index_name",match version.assetIndex with
      | some assetIndex => assetIndex.id
      | none => Text.orNull version.assets),
    ("game_directory",setting.gameDirectory),
    ("assets_root",setting.gameFileDirectory ++ ("/assets" : Text)),
    ("user_properties","{}"),
    ("auth_player_name",setting.account.authPlayerName),
    ("auth_session",setting.account.authSession),
    ("auth_uuid",setting.account.authUuid),
    ("auth_access_token",setting.account.authAccessToken),
    ("user_type",setting.account.userType),
    ("primary_jar_name",fileName setting.currentVersion ++ (".jar" : Text)),
    ("library_directory",setting.gameFileDirectory ++ ("/libraries" : Text)),
    ("classpath_separator",":")]

/-- An unknown key counts as empty. -/
def value (version : LaunchVersion) (setting : GameLaunchSetting) (key : Text) : Text :=
  ((keyValues version setting).lookup key).getD []

/-- Entries with rules are passed over. -/
def strings (objs : List Argument) : List Text :=
  objs.filterMap fun obj => match obj with
    | .string argument => some argument
    | .ruled _ => none

def retainedJVM (argument : Text) : Bool :=
  !argument.startsWith ("-Djava.library.path" : String) &&
    !argument.startsWith ("-cp" : String) && !argument.startsWith ("$\x7bclasspath\x7d" : String)

def appendEach (objs : List Text) : Text := objs.flatMap (· ++ [' '])

def getJVMArguments (version : LaunchVersion) (setting : GameLaunchSetting) : List Text :=
  match version.arguments.bind Arguments.jvm with
  | none => []
  | some jvmObjs =>
    (scan (value version setting) .text
      (appendEach ((strings jvmObjs).filter retainedJVM))).split ' '

/-- Without the list or the text that the branch reads the call ends in a null dereference. -/
def getMinecraftArguments (version : LaunchVersion) (setting : GameLaunchSetting)
    (isHighVer : Bool) : Option (List Text) :=
  if isHighVer then do
    let arguments ← version.arguments
    let objs ← arguments.game
    return (scan (value version setting) .text (appendEach (strings objs))).split ' '
  else do
    let test ← version.minecraftArguments
    let objs := (version.arguments.bind Arguments.game).getD []
    return (scan (value version setting) .text test ++
      (strings objs).flatMap (' ' :: ·)).split ' '

theorem value_of_blank (version : LaunchVersion) (setting : GameLaunchSetting) (key : Text)
    (blank : ' ' ∈ key) : value version setting key = [] := by
  unfold value
  rw [List.lookup_eq_none_iff.mpr]
  · rfl
  · intro entry member
    have free : ' ' ∉ entry.1 := by
      have keys : ∀ k ∈ (keyValues version setting).map Prod.fst, ' ' ∉ k := by
        simp only [keyValues,List.map_cons,List.map_nil]
        decide
      exact keys entry.1 (List.mem_map_of_mem member)
    simp
    rintro rfl
    exact free blank

theorem appendEach_eq_join (templates : List Text) :
    appendEach templates = join (templates ++ [[]]) := by
  induction templates with
  | nil => rfl
  | cons t rest ih =>
    unfold appendEach at ih ⊢
    rw [List.flatMap_cons,ih]
    cases rest with
    | nil => simp [join_cons]
    | cons r rest => simp [join_cons]

section Templates

/-- The templates that each call is to expand, one argument each. -/
def gameTemplates (version : LaunchVersion) : Option (List Text) :=
  (version.arguments.bind Arguments.game).map strings

def jvmTemplates (version : LaunchVersion) : Option (List Text) :=
  (version.arguments.bind Arguments.jvm).map fun objs => (strings objs).filter retainedJVM

def lowTemplates (version : LaunchVersion) : Option (List Text) :=
  version.minecraftArguments.map fun text => words text ++ (gameTemplates version).getD []

variable (version : LaunchVersion) (setting : GameLaunchSetting)

def expandAll (templates : List Text) : List Text :=
  templates.map (expandTemplate (value version setting))

theorem highArguments_iff :
    getMinecraftArguments version setting true =
        (gameTemplates version).map (expandAll version setting) ↔
      ∀ templates, gameTemplates version = some templates → Kept (value version setting) templates := by
  unfold getMinecraftArguments gameTemplates
  cases found : version.arguments.bind Arguments.game with
  | none =>
    cases arguments : version.arguments with
    | none => simp
    | some a =>
      rw [arguments,Option.bind_some] at found
      simp [found]
  | some objs =>
    obtain ⟨a,arguments,game⟩ := Option.bind_eq_some_iff.mp found
    have same := split_eq_iff (value version setting) (value_of_blank version setting) (strings objs)
    rw [← appendEach_eq_join] at same
    simpa [arguments,game,expandAll] using same

theorem jvmArguments_iff :
    getJVMArguments version setting = ((jvmTemplates version).map (expandAll version setting)).getD [] ↔
      ∀ templates, jvmTemplates version = some templates → Kept (value version setting) templates := by
  unfold getJVMArguments jvmTemplates
  cases found : version.arguments.bind Arguments.jvm with
  | none => simp
  | some objs =>
    have same := split_eq_iff (value version setting) (value_of_blank version setting)
      ((strings objs).filter retainedJVM)
    rw [← appendEach_eq_join] at same
    simpa [expandAll] using same

theorem lowArguments_eq : getMinecraftArguments version setting false =
    version.minecraftArguments.map fun text =>
      (lowText (value version setting) text ((gameTemplates version).getD [])).split ' ' := by
  unfold getMinecraftArguments gameTemplates
  cases version.minecraftArguments with
  | none => rfl
  | some text => cases version.arguments.bind Arguments.game <;> rfl

def LowKept : Prop :=
  ∀ text, version.minecraftArguments = some text →
    KeptTail (value version setting) text ((gameTemplates version).getD [])

/-- Either no word opens a key without closing it or no entry behind them has a key. -/
def Regular : Prop :=
  (∀ text, version.minecraftArguments = some text → ∀ w ∈ words text, Closed w) ∨
    ∀ o ∈ (gameTemplates version).getD [], expandTemplate (value version setting) o = o

theorem lowArguments_of_kept (kept : LowKept version setting) :
    getMinecraftArguments version setting false =
      (lowTemplates version).map (expandAll version setting) := by
  rw [lowArguments_eq,lowTemplates]
  cases found : version.minecraftArguments with
  | none => rfl
  | some text =>
    simp only [Option.map_some,expandAll,List.map_append]
    rw [split_lowText_of_kept (value version setting) (kept text found)]

theorem lowKept_of_arguments (regular : Regular version setting)
    (same : getMinecraftArguments version setting false =
      (lowTemplates version).map (expandAll version setting)) : LowKept version setting := by
  intro text found
  rw [lowArguments_eq,lowTemplates,found] at same
  simp only [Option.map_some,Option.some.injEq,expandAll,List.map_append] at same
  apply kept_of_split_lowText _ (value_of_blank version setting) _ same
  rcases regular with closed | plain
  · exact Or.inl (closed text found)
  · exact Or.inr plain

/-- When the arguments of a launch are their templates, each expanded by itself. -/
theorem arguments_expanded_iff :
    (getMinecraftArguments version setting true =
        (gameTemplates version).map (expandAll version setting) ↔
      ∀ templates, gameTemplates version = some templates → Kept (value version setting) templates) ∧
    (getJVMArguments version setting =
        ((jvmTemplates version).map (expandAll version setting)).getD [] ↔
      ∀ templates, jvmTemplates version = some templates → Kept (value version setting) templates) ∧
    (LowKept version setting → getMinecraftArguments version setting false =
        (lowTemplates version).map (expandAll version setting)) ∧
    (Regular version setting → getMinecraftArguments version setting false =
        (lowTemplates version).map (expandAll version setting) → LowKept version setting) :=
  ⟨highArguments_iff version setting,jvmArguments_iff version setting,
    lowArguments_of_kept version setting,lowKept_of_arguments version setting⟩

end Templates

section Runs

def texts (l : List String) : List Text := l.map String.toList

def gameVersion (minecraftArguments : Option Text) (game : List String) : LaunchVersion where
  assetIndex := none
  assets := none
  downloads := none
  id := none
  libraries := none
  mainClass := none
  minecraftArguments := minecraftArguments
  minimumLauncherVersion := 0
  releaseTime := none
  time := none
  type := none
  arguments := some ⟨some ((texts game).map Argument.string),none⟩
  inheritsFrom := none
  minecraftPath := []

def playerSetting (name : Text) : GameLaunchSetting := ⟨⟨name,[],[],[],[]⟩,[],[],[]⟩

/-- A player name with a blank becomes two arguments. -/
theorem player_name_split :
    let version := gameVersion none ["--username","$\x7bauth_player_name\x7d"]
    let setting := playerSetting ("Alex Smith" : String)
    let expected := (gameTemplates version).map (expandAll version setting)
    getMinecraftArguments version setting true = some (texts ["--username","Alex","Smith"]) ∧
      expected = some (texts ["--username","Alex Smith"]) ∧
      getMinecraftArguments version setting true ≠ expected := by decide +kernel

def demoVersion : LaunchVersion :=
  gameVersion (some ("--username $\x7bauth_player_name\x7d" : String)) ["--demo"]

theorem demo_arguments_kept :
    getMinecraftArguments demoVersion (playerSetting ("Alex" : String)) false =
      some (texts ["--username","Alex","--demo"]) := by
  have tail : (gameTemplates demoVersion).getD [] = texts ["--demo"] := by decide +kernel
  have kept : LowKept demoVersion (playerSetting ("Alex" : String)) := by
    intro text found
    obtain rfl := Option.some.inj found
    rw [tail]
    refine ⟨?_,?_,?_,?_,?_,?_⟩ <;> decide +kernel
  rw [(arguments_expanded_iff demoVersion (playerSetting ("Alex" : String))).2.2.1 kept]
  decide +kernel

/-- Losses and gains can cancel out: the open key swallows what the entry keeps. -/
example :
    let version := gameVersion (some ("x$\x7by z\x7d$\x7bauth_player_name\x7d" : String))
      ["z\x7d$\x7by z\x7d"]
    let setting := playerSetting ("$\x7by" : String)
    getMinecraftArguments version setting false =
      (lowTemplates version).map (expandAll version setting) := by decide +kernel

end Runs

end HmclPe.Launch.LaunchVersion
