import HmclPe.Launch.ClassPathFormat
import HmclPe.Launch.LaunchArguments
import HmclPe.Launch.TouchInjector

/-! The argument vectors of the two launchers, with what each launcher knows of the items that it
writes itself. -/
namespace HmclPe.Launch.McArgs
open HmclPe.Java HmclPe.Io HmclPe.Launch.TouchInjector
open HmclPe.Launch.LaunchVersion (GameLaunchSetting fileName getJVMArguments getMinecraftArguments)

section Layout

def plain (texts : List Text) : List Item := texts.map fun text => ⟨.other,text⟩

/-- The class path follows its flag and nothing else. -/
structure Paired (items : List Item) : Prop where
  chain : items.IsChain fun item next => item.role = .flag ↔ next.role = .classPath
  starts : ∀ item ∈ items.head?, item.role ≠ .classPath

theorem Paired.cons {item : Item} {items : List Item} (paired : Paired items)
    (flag : item.role ≠ .flag) (path : item.role ≠ .classPath) : Paired (item :: items) := by
  refine ⟨?_,by simpa using path⟩
  cases items with
  | nil => exact .singleton _
  | cons next items =>
    have starts := paired.starts next rfl
    exact List.isChain_cons_cons.mpr ⟨by simp [flag,starts],paired.chain⟩

theorem Paired.plain {items : List Item} (paired : Paired items) (texts : List Text) :
    Paired (McArgs.plain texts ++ items) := by
  induction texts with
  | nil => exact paired
  | cons text texts ih => exact ih.cons nofun nofun

theorem plain_count (texts : List Text) {role : Role} (known : role ≠ .other) :
    ((plain texts).map Item.role).count role = 0 := by
  rw [List.count_eq_zero]
  intro member
  obtain ⟨item,listed,rfl⟩ := List.mem_map.mp member
  obtain ⟨text,-,rfl⟩ := List.mem_map.mp listed
  exact known rfl

theorem plain_fits {texts : List Text} {item : Item} (member : item ∈ plain texts) : item.Fits := by
  obtain ⟨text,-,rfl⟩ := List.mem_map.mp member
  exact ⟨nofun,nofun,nofun⟩

/-- The directory of a launcher, an absolute path. -/
structure Directory where
  path : Text
  absolute : path.head? = some '/'

def xmsItem (minRam : Int) : Item :=
  ⟨.xms,("-Xms" : String).toList ++ (toString minRam).toList ++ ("M" : String).toList⟩

def flagItem : Item := ⟨.flag,("-cp" : String)⟩

theorem xmsItem_fits (minRam : Int) : (xmsItem minRam).Fits :=
  ⟨fun _ => isXms_iff.mpr ⟨(toString minRam).toList ++ ("M" : String).toList,by simp [xmsItem]⟩,
    nofun,nofun⟩

theorem flagItem_fits : flagItem.Fits := ⟨nofun,fun _ => by decide,nofun⟩

variable (front middle late back : List Text) (classPath : Directory) (minRam : Int)
  (mainClass : Text)

def pathItem : Item := ⟨.classPath,classPath.path⟩

theorem pathItem_fits : (pathItem classPath).Fits := ⟨nofun,nofun,fun _ => classPath.absolute⟩

def mainItem : Item := ⟨.mainClass,mainClass⟩

theorem mainItem_fits : (mainItem mainClass).Fits := ⟨nofun,nofun,nofun⟩

theorem paired_nil : Paired [] := ⟨.nil,nofun⟩

theorem Paired.xms {items : List Item} (paired : Paired items) (minRam : Int) :
    Paired (xmsItem minRam :: items) := paired.cons nofun nofun

theorem Paired.main {items : List Item} (paired : Paired items) (mainClass : Text) :
    Paired (mainItem mainClass :: items) := paired.cons nofun nofun

theorem Paired.path {items : List Item} (paired : Paired items) (classPath : Directory) :
    Paired (flagItem :: pathItem classPath :: items) := by
  refine ⟨List.isChain_cons_cons.mpr ⟨by simp [flagItem,pathItem],?_⟩,by simp [flagItem]⟩
  cases items with
  | nil => exact .singleton _
  | cons next items =>
    have starts := paired.starts next rfl
    exact List.isChain_cons_cons.mpr ⟨by simp [pathItem,starts],paired.chain⟩

def boatItems : List Item :=
  plain front ++ flagItem :: pathItem classPath :: (plain middle ++ xmsItem minRam ::
    (plain late ++ mainItem mainClass :: (plain back ++ [])))

def pojavItems : List Item :=
  plain front ++ xmsItem minRam :: (plain middle ++ flagItem :: pathItem classPath ::
    mainItem mainClass :: (plain back ++ []))

theorem boatItems_paired :
    Paired (boatItems front middle late back classPath minRam mainClass) := by
  have sized := (((paired_nil.plain back).main mainClass).plain late).xms minRam
  exact ((sized.plain middle).path classPath).plain front

theorem pojavItems_paired :
    Paired (pojavItems front middle back classPath minRam mainClass) := by
  have listed := ((paired_nil.plain back).main mainClass).path classPath
  exact ((listed.plain middle).xms minRam).plain front

/-- The class path stands before the size flag. -/
def boatLayout : ArgumentVector where
  items := boatItems front middle late back classPath minRam mainClass
  fits item member := by
    simp only [boatItems,List.mem_append,List.mem_cons,List.not_mem_nil,or_false] at member
    rcases member with text | rfl | rfl | text | rfl | text | rfl | text
    · exact plain_fits text
    · exact flagItem_fits
    · exact pathItem_fits classPath
    · exact plain_fits text
    · exact xmsItem_fits minRam
    · exact plain_fits text
    · exact mainItem_fits mainClass
    · exact plain_fits text
  once role known := by
    simp only [boatItems,List.map_append,List.map_cons,List.map_nil,List.count_append,
      List.count_cons,List.count_nil,plain_count _ known]
    cases role <;> first | rfl | exact absurd rfl known
  paired := (boatItems_paired front middle late back classPath minRam mainClass).chain
  starts := (boatItems_paired front middle late back classPath minRam mainClass).starts

theorem mem_boatLayout {text : Text} (member : text ∈ late) : ⟨.other,text⟩ ∈
    (boatLayout front middle late back classPath minRam mainClass).items := by
  simp [boatLayout,boatItems,plain,member]

/-- The class path stands behind the size flag, just before the main class. -/
def pojavLayout : ArgumentVector where
  items := pojavItems front middle back classPath minRam mainClass
  fits item member := by
    simp only [pojavItems,List.mem_append,List.mem_cons,List.not_mem_nil,or_false] at member
    rcases member with text | rfl | text | rfl | rfl | rfl | text
    · exact plain_fits text
    · exact xmsItem_fits minRam
    · exact plain_fits text
    · exact flagItem_fits
    · exact pathItem_fits classPath
    · exact mainItem_fits mainClass
    · exact plain_fits text
  once role known := by
    simp only [pojavItems,List.map_append,List.map_cons,List.map_nil,List.count_append,
      List.count_cons,List.count_nil,plain_count _ known]
    cases role <;> first | rfl | exact absurd rfl known
  paired := (pojavItems_paired front middle back classPath minRam mainClass).chain
  starts := (pojavItems_paired front middle back classPath minRam mainClass).starts

end Layout

section Model

structure LaunchSetting extends GameLaunchSetting where
  javaPath : Text
  extraJavaFlags : Text
  extraMinecraftFlags : Text
  boatRenderer : Text
  pojavRenderer : Text
  touchInjector : Bool
  minRam : Int
  maxRam : Int

/-- The account as it is patched in; a skin server that started has a port. -/
structure Login where
  loginType : Int
  offlineSkin : Option (Option Nat)
  loginServer : Text

/-- The directories of the app and what is asked of the device. -/
structure Device where
  filesDir : Text
  filesParent : Text
  pluginDir : Text
  cacheDir : Text
  runtimeDir : Text
  cacioDir : Text
  nativeLibraryDir : Text
  boatLibDir : Directory
  lwjgl3Jars : List Directory
  cacioJars : List Text
  javaVersion : Option Text
  userLanguage : Option Text
  release : Text
  windowWidth : Int
  windowHeight : Int
  physicalWidth : Int
  physicalHeight : Int

/-- A launch of a version; the names of its libraries need not be those of artifacts. -/
structure GameLaunch (β : Type) where
  device : Device
  setting : LaunchSetting
  login : Login
  version : LaunchVersion
  libraryNames : Option (List (Option Text))
  files : Files β
  width : Int
  height : Int
  server : Option Text

def intText (n : Int) : Text := (toString n).toList

def Directory.join (directory : Directory) (rest : Text) : Directory where
  path := directory.path ++ rest
  absolute := by
    have absolute := directory.absolute
    cases path : directory.path with
    | nil => rw [path] at absolute; exact absurd absolute nofun
    | cons c s => rwa [path] at absolute

/-- `File.getParent` -/
def getParent (path : Text) : Option Text :=
  let root : Text := if path.head? = some '/' then ['/'] else []
  match (path.splitOn '/').filter (· ≠ []) with
  | [] => none
  | [_] => if root = [] then none else some root
  | names => some (root ++ ['/'].intercalate names.dropLast)

def getAccountArgs (device : Device) (login : Login) : Option (List Text) :=
  let authlibPath : Text := device.filesDir ++
    ("/plugin/login/authlib-injector/authlib-injector.jar" : Text)
  match login.loginType with
  | 1 => match login.offlineSkin with
    | some (some port) => some [("-javaagent:" : Text) ++ authlibPath ++
        ("=http://localhost:" : Text) ++ intText port,"-Dauthlibinjector.side=client"]
    | _ => some []
  | 4 => some [("-javaagent:" : Text) ++ authlibPath ++ '=' :: login.loginServer,
      "-Dauthlibinjector.side=client"]
  | 5 =>
    if login.loginServer.length < 33 then none
    else some [("-javaagent:" : Text) ++ device.filesDir ++
        ("/plugin/login/nide8auth/nide8auth.jar=" : Text) ++
        (login.loginServer.drop (login.loginServer.length - 33)).take 32,
      "-Dnide8auth.client=true"]
  | _ => some []

variable {β : Type} (launch : GameLaunch β)

/-- The arguments of the version for the virtual machine, with its jar on the ignore list. -/
def patchedJVMArguments : List Text :=
  let jar : Text := ',' :: fileName launch.setting.currentVersion ++ (".jar" : Text)
  let patched := (getJVMArguments launch.version launch.setting.toGameLaunchSetting).map fun arg =>
    if arg.startsWith ("-DignoreList" : Text) && !arg.endsWith jar then arg ++ jar else arg
  patched.filter fun arg => !arg.startsWith ("-DFabricMcEmu" : Text) &&
    !arg.startsWith ("net.minecraft.client.main.Main" : Text)

def highVersion : Bool := decide (21 ≤ launch.version.minimumLauncherVersion)

def isJava17 : Bool := launch.setting.javaPath.endsWith ("JRE17" : Text)

def maxRamFlag : Text := ("-Xmx" : Text) ++ intText launch.setting.maxRam ++ ("M" : Text)

def extraJavaFlags : List Text :=
  if launch.setting.extraJavaFlags = [] then [] else launch.setting.extraJavaFlags.split ' '

/-- Blanks are what `trim` removes; a server of separators only is an exception. -/
def serverArgs : Option (List Text) :=
  let server := launch.server.getD []
  if server.all fun c => c.toNat ≤ 32 then some []
  else match server.split ':' with
    | [] => none
    | host :: port => some ["--server",host,"--port",port.head?.getD ("25565" : Text)]

/-- What follows the main class in both vectors. -/
def gameArguments : Option (List Text) := do
  let minecraftArgs ← getMinecraftArguments launch.version launch.setting.toGameLaunchSetting
    (highVersion launch)
  let server ← serverArgs launch
  return minecraftArgs ++
    [("--width" : Text),intText launch.width,"--height",intText launch.height] ++ server ++
    launch.setting.extraMinecraftFlags.split ' '

def versionClassPath (high isJava17 : Bool) : Option Text := do
  let names ← launch.libraryNames
  ClassPathFormat.getClassPath launch.setting.gameFileDirectory launch.version.minecraftPath high
    isJava17 launch.files names

namespace BoatLauncher

def renderer : Text := if launch.setting.boatRenderer = ("VirGL" : Text) then "virgl" else "gl4es"

def libraryPath : Text :=
  let javaPath := launch.setting.javaPath
  let boat := launch.device.boatLibDir.path
  let start : Text :=
    if !highVersion launch then
      javaPath ++ ("/lib/aarch64/jli:" : Text) ++ javaPath ++ ("/lib/aarch64:" : Text) ++ boat ++
        ':' :: boat ++ ("/lwjgl-2:" : Text)
    else if isJava17 launch then
      javaPath ++ ("/lib:" : Text) ++ boat ++ ':' :: boat ++ ("/lwjgl-3:" : Text)
    else
      javaPath ++ ("/lib/jli:" : Text) ++ javaPath ++ ("/lib:" : Text) ++ boat ++
        ':' :: boat ++ ("/lwjgl-3:" : Text)
  start ++ boat ++ ("/renderer/" : Text) ++ renderer launch ++
    ':' :: launch.device.nativeLibraryDir ++ (":/system/lib64" : Text)

/-- The jars of the launcher, each with the colon behind it. -/
def lwjglJars : List Text :=
  if highVersion launch then
    ["/lwjgl-3/lwjgl-jemalloc.jar:","/lwjgl-3/lwjgl-tinyfd.jar:","/lwjgl-3/lwjgl-opengl.jar:",
      "/lwjgl-3/lwjgl-openal.jar:","/lwjgl-3/lwjgl-glfw.jar:","/lwjgl-3/lwjgl-stb.jar:",
      "/lwjgl-3/lwjgl.jar:"]
  else ["/lwjgl-2/lwjgl.jar:","/lwjgl-2/lwjgl_util.jar:"]

def classPath (versionClassPath : Text) : Directory :=
  let boat := launch.device.boatLibDir
  boat.join (boat.path.intercalate (lwjglJars launch) ++ versionClassPath)

def front : List Text :=
  [launch.setting.javaPath ++ ("/bin/java" : Text),
    ("-Dext.net.resolvPath=" : Text) ++ launch.device.runtimeDir ++ ("/resolv.conf" : Text)] ++
  if isJava17 launch then []
  else
    let cacio : Text := launch.device.cacioDir
    [("-Djava.awt.headless=false" : Text),
      ("-Dcacio.managed.screensize=" : Text) ++ intText launch.width ++
        'x' :: intText launch.height,
      "-Dcacio.font.fontmanager=sun.awt.X11FontManager",
      "-Dcacio.font.fontscaler=sun.font.FreetypeFontScaler",
      "-Dswing.defaultlaf=javax.swing.plaf.metal.MetalLookAndFeel",
      "-Dawt.toolkit=net.java.openjdk.cacio.ctc.CTCToolkit",
      "-Djava.awt.graphicsenv=net.java.openjdk.cacio.ctc.CTCGraphicsEnvironment",
      ("-Xbootclasspath/p:" : Text) ++ cacio ++ ("/cacio-shared-1.10-SNAPSHOT.jar:" : Text) ++
        cacio ++ ("/ResConfHack.jar:" : Text) ++
        cacio ++ ("/cacio-androidnw-1.10-SNAPSHOT.jar" : Text)]

def middle (accountArgs : List Text) : List Text :=
  [("-Djava.library.path=" : Text) ++ libraryPath launch,
    "-Dfml.earlyprogresswindow=false",
    "-Dorg.lwjgl.util.DebugLoader=true",
    "-Dorg.lwjgl.util.Debug=true",
    "-Dos.name=Linux",
    "-Dlwjgl.platform=Boat",
    if launch.setting.boatRenderer = ("VirGL" : Text) then "-Dorg.lwjgl.opengl.libname=libGL.so.1"
      else "-Dorg.lwjgl.opengl.libname=libgl4es_114.so",
    ("-Djava.io.tmpdir=" : Text) ++ launch.device.cacheDir] ++
  accountArgs ++ patchedJVMArguments launch

/-- A version without a main class, whose vector has a null, counts as an exception. -/
def vector : Option ArgumentVector := do
  let path ← versionClassPath launch (highVersion launch) (highVersion launch && isJava17 launch)
  let accountArgs ← getAccountArgs launch.device launch.login
  let mainClass ← launch.version.mainClass
  let back ← gameArguments launch
  return boatLayout (front launch) (middle launch accountArgs)
    (maxRamFlag launch :: extraJavaFlags launch) back (classPath launch path)
    launch.setting.minRam mainClass

end BoatLauncher

namespace PojavLauncher

/-- Without a jar the removal of the last colon is an exception. -/
def getLWJGL3ClassPath : List Directory → Option Directory
  | [] => none
  | jar :: jars => some (jar.join (jars.flatMap fun other => ':' :: other.path))

def getCacioJavaArgs (device : Device) : List Text :=
  ["-Djava.awt.headless=false",
    ("-Dcacio.managed.screensize=" : Text) ++ intText device.physicalWidth ++
      'x' :: intText device.physicalHeight,
    "-Dcacio.font.fontmanager=sun.awt.X11FontManager",
    "-Dcacio.font.fontscaler=sun.font.FreetypeFontScaler",
    "-Dswing.defaultlaf=javax.swing.plaf.metal.MetalLookAndFeel",
    "-Dawt.toolkit=net.java.openjdk.cacio.ctc.CTCToolkit",
    "-Djava.awt.graphicsenv=net.java.openjdk.cacio.ctc.CTCGraphicsEnvironment",
    ("-Xbootclasspath/p" : Text) ++ device.cacioJars.flatMap (':' :: ·)]

def getJavaArgs (device : Device) : List Text :=
  [("-Dglfwstub.windowWidth=" : Text) ++ intText device.windowWidth,
    ("-Dglfwstub.windowHeight=" : Text) ++ intText device.windowHeight,
    "-Dglfwstub.initEgl=false",
    ("-Dext.net.resolvPath=" : Text) ++ device.filesParent ++ ("/resolv.conf" : Text),
    "-Dlog4j2.formatMsgNoLookups=true"]

def getGraphicsLibrary (renderer : Text) : Text :=
  if renderer = ("opengles3_virgl" : Text) ∨ renderer = ("vulkan_zink" : Text) then "libOSMesa_8.so"
  else "libgl4es_114.so"

def front (javaVersion : Text) (accountArgs : List Text) : List Text :=
  (if javaVersion = ("1.8.0" : Text) then getCacioJavaArgs launch.device else []) ++
  [("-Djava.home=" : Text) ++ launch.setting.javaPath,
    ("-Djava.io.tmpdir=" : Text) ++ launch.device.cacheDir,
    ("-Duser.home=" : Text) ++ Text.orNull (getParent launch.setting.gameFileDirectory),
    ("-Duser.language=" : Text) ++ Text.orNull launch.device.userLanguage,
    "-Dos.name=Linux",
    ("-Dos.version=Android-" : Text) ++ launch.device.release,
    ("-Dpojav.path.minecraft=" : Text) ++ launch.setting.gameFileDirectory] ++
  getJavaArgs launch.device ++
  [("-Dnet.minecraft.clientmodname=Hello Minecraft! Launcher Pocket Edition" : Text),
    "-Dfml.earlyprogresswindow=false"] ++
  accountArgs ++ patchedJVMArguments launch

def vector : Option ArgumentVector := do
  let lwjgl ← getLWJGL3ClassPath launch.device.lwjgl3Jars
  let path ← versionClassPath launch (highVersion launch) (isJava17 launch)
  let javaVersion ← launch.device.javaVersion
  let accountArgs ← getAccountArgs launch.device launch.login
  let mainClass ← launch.version.mainClass
  let back ← gameArguments launch
  return pojavLayout (front launch javaVersion accountArgs)
    (maxRamFlag launch :: extraJavaFlags launch ++
      [("-Dorg.lwjgl.opengl.libname=" : Text) ++ getGraphicsLibrary launch.setting.pojavRenderer])
    back (lwjgl.join (':' :: path)) launch.setting.minRam mainClass

end PojavLauncher

inductive Launcher
  | boat | pojav

def Launcher.vector : Launcher → Option ArgumentVector
  | .boat => BoatLauncher.vector launch
  | .pojav => PojavLauncher.vector launch

/-- The rewritten vector, or null after an exception. -/
def Launcher.getMcArgs (launcher : Launcher) : Option (List Text) :=
  (launcher.vector launch).map fun vector =>
    rebaseArguments launch.device.pluginDir launch.setting.touchInjector vector.args

end Model

/-- With the injector switched on, the arguments of a launch are rewritten as the kind of its
version needs exactly if no text in them is taken for another. -/
theorem getMcArgs_iff {β : Type} (launcher : Launcher) (launch : GameLaunch β) (kind : Kind)
    {vector : ArgumentVector} (built : launcher.vector launch = some vector)
    (injected : launch.setting.touchInjector = true) :
    (∃ args, launcher.getMcArgs launch = some args ∧
      Rewritten launch.device.pluginDir kind vector args) ↔ Unambiguous kind vector := by
  rw [← rewritten_iff launch.device.pluginDir kind vector,Launcher.getMcArgs,built,injected]
  simp

def plainDevice : Device where
  filesDir := "/data/files"
  filesParent := "/data"
  pluginDir := "/data/files/plugin"
  cacheDir := "/data/cache"
  runtimeDir := "/data/runtime"
  cacioDir := "/data/runtime/caciocavallo"
  nativeLibraryDir := "/data/lib"
  boatLibDir := ⟨"/data/runtime/boat",rfl⟩
  lwjgl3Jars := [⟨"/data/runtime/pojav/lwjgl3/lwjgl.jar",rfl⟩]
  cacioJars := []
  javaVersion := some "1.8.0"
  userLanguage := some "en"
  release := "10"
  windowWidth := 800
  windowHeight := 600
  physicalWidth := 800
  physicalHeight := 600

/-- A launch without libraries of a version that is neither Forge nor OptiFine. -/
def vanillaLaunch (extraJavaFlags : Text) : GameLaunch Unit where
  device := plainDevice
  setting := {
    account := ⟨"Alex",[],[],[],[]⟩
    currentVersion := "/games/versions/1.7.10"
    gameDirectory := "/games"
    gameFileDirectory := "/games"
    javaPath := "/data/runtime/java/JRE8"
    extraJavaFlags := extraJavaFlags
    extraMinecraftFlags := []
    boatRenderer := "VirGL"
    pojavRenderer := "opengles2"
    touchInjector := true
    minRam := 512
    maxRam := 1024 }
  login := ⟨0,none,[]⟩
  version := { LaunchVersion.gameVersion (some "--demo") [] with
    mainClass := some "net.minecraft.client.main.Main"
    minecraftPath := "/games/versions/1.7.10/1.7.10.jar" }
  libraryNames := some []
  files _ := none
  width := 800
  height := 600
  server := none

theorem getMcArgs_vanilla :
    ∃ vector, Launcher.boat.vector (vanillaLaunch []) = some vector ∧
      ((∃ args, Launcher.boat.getMcArgs (vanillaLaunch []) = some args ∧
        Rewritten (vanillaLaunch []).device.pluginDir .agent vector args) ↔
          Unambiguous .agent vector) :=
  ⟨_,rfl,getMcArgs_iff .boat (vanillaLaunch []) .agent rfl rfl⟩

/-- A size flag among the user's own flags gets a second agent. -/
theorem second_size_flag :
    ∃ vector args, Launcher.boat.vector (vanillaLaunch ("-Xms256M" : String)) = some vector ∧
      Launcher.boat.getMcArgs (vanillaLaunch ("-Xms256M" : String)) = some args ∧
      ¬ Rewritten plainDevice.pluginDir .agent vector args := by
  refine ⟨_,_,rfl,rfl,fun rewritten => ?_⟩
  have clear := (rewritten_iff _ _ _).mp rewritten
  have listed : ("-Xms256M" : String).toList ∈
      extraJavaFlags (vanillaLaunch ("-Xms256M" : String)) := by decide
  have plain := clear.xms nofun ⟨.other,("-Xms256M" : String)⟩
    (mem_boatLayout _ _ _ _ _ _ _ (List.mem_cons_of_mem _ listed)) rfl
  exact absurd plain nofun

end HmclPe.Launch.McArgs
