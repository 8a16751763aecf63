import HmclPe.Auth.YggdrasilServer
import HmclPe.Lib.Growth
import HmclPe.Mods.ModManager
import HmclPe.Skin.NormalizedSkin

/-! What a launch adds for an account: a server for the skin of an offline one, an agent for the
others. -/
namespace HmclPe.Launch.AccountPatch
open HmclPe.Java HmclPe.Auth HmclPe.Io.HttpServer HmclPe.Lib.Growth HmclPe.Mods HmclPe.Skin

section Model

/-- Work on the cache of textures, which a failure leaves as it is by then. -/
abbrev Load := Work LoadFailure Textures

structure TextureJson where
  defaultSkin : Option Text
  slim : Option Text
  cape : Option Text

structure SkinJson where
  username : Option Text
  skin : Option Text
  cape : Option Text
  textures : Option TextureJson

namespace SkinJson

def hasSkin (json : SkinJson) : Bool := json.username.any fun username => username.any (' ' < ·)

def getModel (json : SkinJson) : Option TextureModel :=
  match json.textures with
  | some textures =>
    if textures.slim.isSome then some .alex
    else if textures.defaultSkin.isSome then some .steve
    else none
  | none => none

def getAlexModelHash (json : SkinJson) : Option Text := json.textures.bind (·.slim)

def getSteveModelHash (json : SkinJson) : Option Text :=
  (json.textures.bind (·.defaultSkin)).or json.skin

def getHash (json : SkinJson) : Option Text :=
  match json.getModel with
  | some .alex => json.getAlexModelHash
  | some .steve => json.getSteveModelHash
  | none => none

def getCapeHash (json : SkinJson) : Option Text := (json.textures.bind (·.cape)).or json.cape

end SkinJson

structure OfflineSkinSetting where
  type : Int
  skinPath : Text
  capePath : Text
  server : Text

/-- The surroundings of a launch. The inner `none` of `fromJson` is its null. -/
structure Device where
  assets : Text → Option (List (BitVec 8))
  files : Text → Option (List (BitVec 8))
  skinAlex : Bitmap
  wellFormed : Text → Bool
  doGet : Text → Option Text
  fromJson : Text → Option (Option SkinJson)
  connect : Text → Option (List (BitVec 8))

def orIo {α : Type} (result : Option α) : Load α := result.elim (throw .io) pure

def orRuntime {α : Type} (result : Option α) : Load α := result.elim (throw .runtime) pure

/-- The `catch` of the checked exceptions, which gives null. -/
def catchIo {α : Type} (load : Load (Option α)) : Load (Option α) := ExceptT.mk do
  match ← load.run with
  | .error .io => return .ok none
  | ended => return ended

variable (sha256 : Texture.MessageDigest) (factory : BitmapFactory) (device : Device)

def load (stream : Option (List (BitVec 8))) : Load (Option Texture) :=
  ExceptT.mk fun textures => loadTexture sha256 factory stream textures

def bitmap2InputStream (bm : Bitmap) : Option (List (BitVec 8)) := some (factory.compress bm)

/-- `InvalidSkinException` is caught as an `IOException` is. -/
def normalized (skin : Bitmap) : Load NormalizedSkin :=
  match NormalizedSkin.make skin with
  | .ok normalizedSkin => pure normalizedSkin
  | .error (.invalidSkin _) => throw .io
  | .error .illegalArgument => throw .runtime

def loadedSkin (skin : Bitmap) (cape : Option Bitmap) : Load LoadedSkin := do
  let normalizedSkin ← normalized skin
  let slim ← orRuntime normalizedSkin.isSlim
  let shown := if normalizedSkin.oldFormat then normalizedSkin.normalizedTexture
    else normalizedSkin.texture
  let skin ← load sha256 factory (bitmap2InputStream factory shown)
  let cape ← match cape with
    | none => pure none
    | some cape => load sha256 factory (bitmap2InputStream factory cape)
  return ⟨if slim then .alex else .steve,skin,cape⟩

/-- The bitmap of a file that exists; one that is no image ends in a `NullPointerException`. -/
def decodeFile (path : Text) : Load (Option Bitmap) :=
  match device.files path with
  | none => pure none
  | some data => do
    let bitmap ← orRuntime (factory.decodeStream data)
    return some bitmap

def skinFile (path : Text) : Load Bitmap := do
  match ← decodeFile factory device path with
  | some skin =>
    return if skin.width = 64 ∧ (skin.height = 32 ∨ skin.height = 64) then skin
      else device.skinAlex
  | none => return device.skinAlex

def capeFile (path : Text) : Load (Option Bitmap) := do
  match ← decodeFile factory device path with
  | some cape => return if cape.width = 64 ∧ cape.height = 32 then some cape else none
  | none => return none

/-- The bitmap behind a URL, null when it is none. -/
def download (url : Text) : Load (Option Bitmap) :=
  if device.wellFormed url then do
    let stream ← orIo (device.connect url)
    return factory.decodeStream stream
  else throw .io

def cslApi (setting : OfflineSkinSetting) : Text :=
  let api : Text := if setting.type = 4 then ("https://mcskin.littleservice.cn" : String)
    else if ("http://" : String).toList.isPrefixOf setting.server then
      Text.replace ("http://" : String) ("https://" : String) setting.server
    else setting.server
  StringUtils.removeSuffix api [("/" : String)]

/-- The bitmap of a hash, or the one that stands in for it. -/
def fetched (setting : OfflineSkinSetting) (default : Option Bitmap) (hash : Option Text) :
    Load (Option Bitmap) :=
  match hash with
  | none => pure default
  | some hash => download factory device (cslApi setting ++ ("/textures/" : String).toList ++ hash)

def resultSkin (setting : OfflineSkinSetting) (result : SkinJson) :
    Load (Option LoadedSkin) := do
  let skin ← fetched factory device setting (some device.skinAlex) result.getHash
  let cape ← fetched factory device setting none result.getCapeHash
  let skin ← orRuntime skin
  let loaded ← loadedSkin sha256 factory skin cape
  return some loaded

def jsonUrl (setting : OfflineSkinSetting) (name : Text) : Text :=
  cslApi setting ++ '/' :: name ++ (".json" : String).toList

def customSkin (setting : OfflineSkinSetting) (name : Text) : Load (Option LoadedSkin) :=
  if device.wellFormed (jsonUrl setting name) then do
    let resultText ← orIo (device.doGet (jsonUrl setting name))
    let result ← orRuntime (device.fromJson resultText)
    match result with
    | none => return none
    | some result =>
      if result.hasSkin then resultSkin sha256 factory device setting result else return none
  else throw .io

def assetSkin (model : TextureModel) (stream : List (BitVec 8)) : Load (Option LoadedSkin) := do
  let skin ← load sha256 factory (some stream)
  return some ⟨model,skin,none⟩

def getOfflineSkin (setting : OfflineSkinSetting) (name : Text) : Load (Option LoadedSkin) :=
  catchIo do
    let alex ← orIo (device.assets ("img/alex.png" : String))
    let steve ← orIo (device.assets ("img/steve.png" : String))
    if setting.type = 1 then assetSkin sha256 factory .steve steve
    else if setting.type = 2 then assetSkin sha256 factory .alex alex
    else if setting.type = 3 then
      let skin ← skinFile factory device setting.skinPath
      let cape ← capeFile factory device setting.capePath
      let loaded ← loadedSkin sha256 factory skin cape
      return some loaded
    else if setting.type = 4 ∨ setting.type = 5 then customSkin sha256 factory device setting name
    else return none

structure Account where
  loginType : Int
  auth_uuid : Text
  auth_player_name : Text
  loginServer : Text
  offlineSkinSetting : Option OfflineSkinSetting

def offlineArgs (authlibPath : Text) (server : YggdrasilServer) : List Text :=
  [("-javaagent:" : String).toList ++ authlibPath ++ '=' :: server.getRootUrl,
    ("-Dauthlibinjector.side=client" : String)]

def newCharacter (account : Account) (setting : OfflineSkinSetting) : Load Character := do
  let uuid ← orRuntime (UUIDTypeAdapter.fromString account.auth_uuid)
  let skin ← getOfflineSkin sha256 factory device setting account.auth_player_name
  return ⟨uuid,account.auth_player_name,skin⟩

/-- The arguments of a launch or the exception that ends it, the server that it has started, and
the cache after it. -/
structure Launched where
  args : Except LoadFailure (List Text)
  server : Option YggdrasilServer
  textures : Textures

/-- The server runs before its character is loaded, and an exception of the loading leaves it. -/
def startServer (authlibPath : Text) (account : Account) (setting : OfflineSkinSetting)
    (port : Nat) (textures : Textures) : Launched :=
  let server := YggdrasilServer.start port
  match (newCharacter sha256 factory device account setting).run.run textures with
  | (.ok character,textures) =>
    let server := server.addCharacter character
    ⟨.ok (offlineArgs authlibPath server),some server,textures⟩
  | (.error failure,textures) => ⟨.error failure,some server,textures⟩

/-- The last characters of a server's address but the very last; a shorter one throws. -/
def serverId (loginServer : Text) : Except LoadFailure Text :=
  if 33 ≤ loginServer.length then
    .ok ((loginServer.drop (loginServer.length - 33)).take 32)
  else .error .runtime

/-- The port is missing where the server does not start. -/
def getAccountArgs (filesDir : Text) (account : Account) (port : Option Nat)
    (textures : Textures) : Launched :=
  let authlibPath := filesDir ++
    ("/plugin/login/authlib-injector/authlib-injector.jar" : String).toList
  if account.loginType = 1 then
    match account.offlineSkinSetting,port with
    | some setting,some port =>
      startServer sha256 factory device authlibPath account setting port textures
    | _,_ => ⟨.ok [],none,textures⟩
  else if account.loginType = 4 then
    ⟨.ok [("-javaagent:" : String).toList ++ authlibPath ++ '=' :: account.loginServer,
      ("-Dauthlibinjector.side=client" : String)],none,textures⟩
  else if account.loginType = 5 then
    let nide8authPath := filesDir ++ ("/plugin/login/nide8auth/nide8auth.jar" : String).toList
    let args := (serverId account.loginServer).map fun id =>
      [("-javaagent:" : String).toList ++ nide8authPath ++ '=' :: id,
        ("-Dnide8auth.client=true" : String).toList]
    ⟨args,none,textures⟩
  else ⟨.ok [],none,textures⟩

end Model

section Cache
variable (sha256 : Texture.MessageDigest) (factory : BitmapFactory)

/-- Each texture stands under the hash of the image it was made of. -/
def Sound (textures : Textures) : Prop :=
  ∀ hash texture, textures.lookup hash = some texture → texture.hash = hash ∧
    ∃ img, Texture.computeTextureHash sha256 img = some hash ∧
      texture.data = factory.compress img

/-- No texture goes or changes. -/
def Extends (textures later : Textures) : Prop :=
  ∀ hash texture, textures.lookup hash = some texture → later.lookup hash = some texture

def Cached (textures : Textures) (texture : Auth.Texture) : Prop :=
  textures.lookup texture.hash = some texture

theorem Extends.refl (textures : Textures) : Extends textures textures := fun _ _ => id

theorem Extends.trans {first second third : Textures} (early : Extends first second)
    (late : Extends second third) : Extends first third :=
  fun hash texture member => late hash texture (early hash texture member)

/-- The cache grows by images under their hashes. -/
def cache : Growing Textures := ⟨Sound sha256 factory,Extends,Extends.refl,Extends.trans⟩

variable {sha256 factory} {α : Type} {before : Textures → Prop}

theorem run_load (stream : Option (List (BitVec 8))) (textures : Textures) :
    (load sha256 factory stream).run.run textures = loadTexture sha256 factory stream textures :=
  rfl

theorem keeps_load (stream : Option (List (BitVec 8))) :
    (cache sha256 factory).Keeps before (load sha256 factory stream) fun texture textures =>
      ∀ t, texture = some t → Cached textures t := by
  intro textures sound begun
  rw [run_load]
  unfold loadTexture
  split
  · refine ⟨sound,Extends.refl _,?_⟩
    rintro _ ⟨⟩ _ ⟨⟩
  rename_i stream
  split
  · exact ⟨sound,Extends.refl _,nofun⟩
  rename_i img decoded
  split
  · exact ⟨sound,Extends.refl _,nofun⟩
  rename_i hash hashed
  split
  · rename_i existent there
    refine ⟨sound,Extends.refl _,?_⟩
    rintro _ ⟨⟩ _ ⟨⟩
    rw [Cached,(sound hash existent there).1]
    exact there
  · rename_i absent
    refine ⟨?_,?_,?_⟩
    · intro other texture member
      by_cases same : other = hash
      · subst same
        rw [AList.lookup_insert,Option.some.injEq] at member
        subst member
        exact ⟨rfl,img,hashed,rfl⟩
      · rw [AList.lookup_insert_ne same] at member
        exact sound other texture member
    · intro other texture member
      have different : other ≠ hash := by
        rintro rfl
        rw [absent] at member
        cases member
      rw [AList.lookup_insert_ne different]
      exact member
    · rintro _ ⟨⟩ _ ⟨⟩
      exact AList.lookup_insert _

theorem keeps_orIo {result : Option α} :
    (cache sha256 factory).Keeps before (orIo result) fun _ => before := by
  cases result with
  | none => exact keeps_throw
  | some a => exact keeps_pure fun _ => id

theorem keeps_orRuntime {result : Option α} :
    (cache sha256 factory).Keeps before (orRuntime result) fun _ => before := by
  cases result with
  | none => exact keeps_throw
  | some a => exact keeps_pure fun _ => id

theorem run_catchIo (load : Load (Option α)) (textures : Textures) :
    (catchIo load).run.run textures =
      match load.run.run textures with
      | (.error .io,later) => (.ok none,later)
      | ran => ran := by
  change (match (load.run.run textures).1 with
    | .error .io => pure (.ok none)
    | ended => pure ended : StateM Textures (Except LoadFailure (Option α))).run
      (load.run.run textures).2 = _
  rcases load.run.run textures with ⟨result,later⟩
  rcases result with failure | a
  · cases failure <;> rfl
  · rfl

theorem keeps_catchIo {load : Load (Option α)} {after : Option α → Textures → Prop}
    (kept : (cache sha256 factory).Keeps before load after)
    (null : ∀ textures, after none textures) :
    (cache sha256 factory).Keeps before (catchIo load) after := by
  intro textures sound begun
  have ended := kept textures sound begun
  cases ran : load.run.run textures with
  | mk result later =>
    rw [ran] at ended
    rw [run_catchIo,ran]
    obtain ⟨sound,grown,given⟩ := ended
    rcases result with failure | a
    · cases failure with
      | io =>
        refine ⟨sound,grown,?_⟩
        rintro _ ⟨⟩
        exact null later
      | runtime => exact ⟨sound,grown,nofun⟩
    · exact ⟨sound,grown,given⟩

end Cache

section Skins
variable {sha256 : Texture.MessageDigest} {factory : BitmapFactory} {device : Device}
  {before : Textures → Prop}

/-- The textures that a skin shows. -/
def shownTextures (loaded : LoadedSkin) : List Auth.Texture :=
  loaded.skin.toList ++ loaded.cape.toList

def AllCached (loaded : LoadedSkin) (textures : Textures) : Prop :=
  ∀ texture ∈ shownTextures loaded, Cached textures texture

theorem AllCached.later {loaded : LoadedSkin} {textures later : Textures}
    (grown : Extends textures later) (cached : AllCached loaded textures) :
    AllCached loaded later := fun texture member => grown _ _ (cached texture member)

def SkinCached (loaded : Option LoadedSkin) (textures : Textures) : Prop :=
  ∀ skin, loaded = some skin → AllCached skin textures

theorem keeps_normalized (skin : Bitmap) :
    (cache sha256 factory).Keeps before (normalized skin) fun _ => before := by
  unfold normalized
  split
  · exact keeps_pure fun _ => id
  · exact keeps_throw
  · exact keeps_throw

theorem keeps_loadedSkin (skin : Bitmap) (cape : Option Bitmap) :
    (cache sha256 factory).Keeps before (loadedSkin sha256 factory skin cape) AllCached := by
  apply (keeps_normalized skin).bind
  intro normalizedSkin
  apply keeps_orRuntime.bind
  intro slim
  apply (keeps_load _).bind
  intro skin
  have stable : ∀ {textures later}, Extends textures later →
      (∀ t, skin = some t → Cached textures t) → ∀ t, skin = some t → Cached later t :=
    fun grown cached t same => grown _ _ (cached t same)
  have shown : ∀ cape : Option Auth.Texture, (cache sha256 factory).Keeps
      (fun textures => (∀ t, cape = some t → Cached textures t) ∧
        ∀ t, skin = some t → Cached textures t)
      (pure ⟨if slim then .alex else .steve,skin,cape⟩ : Load LoadedSkin) AllCached := by
    intro cape
    apply keeps_pure
    intro textures cached texture member
    rw [shownTextures,List.mem_append,Option.mem_toList,Option.mem_toList] at member
    rcases member with skin | cape
    · exact cached.2 texture skin
    · exact cached.1 texture cape
  cases cape with
  | none =>
    have none_ : (cache sha256 factory).Keeps
        (fun textures => ∀ t, skin = some t → Cached textures t)
        (pure none : Load (Option Auth.Texture)) fun cape textures =>
          (∀ t, cape = some t → Cached textures t) ∧ ∀ t, skin = some t → Cached textures t :=
      keeps_pure fun textures cached => ⟨nofun,cached⟩
    exact none_.bind shown
  | some cape => exact ((keeps_load _).frame stable).bind shown

theorem keeps_decodeFile (path : Text) :
    (cache sha256 factory).Keeps before (decodeFile factory device path) fun _ => before := by
  unfold decodeFile
  split
  · exact keeps_pure fun _ => id
  · apply keeps_orRuntime.bind
    intro bitmap
    exact keeps_pure fun _ => id

theorem keeps_skinFile (path : Text) :
    (cache sha256 factory).Keeps before (skinFile factory device path) fun _ => before := by
  apply (keeps_decodeFile path).bind
  intro skin
  cases skin with
  | none => exact keeps_pure fun _ => id
  | some skin => exact keeps_pure fun _ => id

theorem keeps_capeFile (path : Text) :
    (cache sha256 factory).Keeps before (capeFile factory device path) fun _ => before := by
  apply (keeps_decodeFile path).bind
  intro cape
  cases cape with
  | none => exact keeps_pure fun _ => id
  | some cape => exact keeps_pure fun _ => id

theorem keeps_download (url : Text) :
    (cache sha256 factory).Keeps before (download factory device url) fun _ => before := by
  unfold download
  split
  · apply keeps_orIo.bind
    intro stream
    exact keeps_pure fun _ => id
  · exact keeps_throw

theorem keeps_fetched (setting : OfflineSkinSetting) (default : Option Bitmap)
    (hash : Option Text) :
    (cache sha256 factory).Keeps before (fetched factory device setting default hash)
      fun _ => before := by
  cases hash with
  | none => exact keeps_pure fun _ => id
  | some hash => exact keeps_download _

theorem keeps_null :
    (cache sha256 factory).Keeps before (pure none : Load (Option LoadedSkin)) SkinCached :=
  keeps_pure fun _ _ => nofun

theorem keeps_some (load : Load LoadedSkin)
    (kept : (cache sha256 factory).Keeps before load AllCached) :
    (cache sha256 factory).Keeps before (load >>= fun loaded => pure (some loaded)) SkinCached := by
  apply kept.bind
  intro loaded
  apply keeps_pure
  rintro textures cached _ ⟨⟩
  exact cached

theorem keeps_resultSkin (setting : OfflineSkinSetting) (result : SkinJson) :
    (cache sha256 factory).Keeps before (resultSkin sha256 factory device setting result)
      SkinCached := by
  apply (keeps_fetched _ _ _).bind
  intro skin
  apply (keeps_fetched _ _ _).bind
  intro cape
  apply keeps_orRuntime.bind
  intro skin
  exact keeps_some _ (keeps_loadedSkin skin cape)

theorem keeps_customSkin (setting : OfflineSkinSetting) (name : Text) :
    (cache sha256 factory).Keeps before (customSkin sha256 factory device setting name)
      SkinCached := by
  unfold customSkin
  split
  · apply keeps_orIo.bind
    intro resultText
    apply keeps_orRuntime.bind
    intro result
    split
    · exact keeps_null
    split
    · exact keeps_resultSkin _ _
    · exact keeps_null
  · exact keeps_throw

theorem keeps_assetSkin (model : TextureModel) (stream : List (BitVec 8)) :
    (cache sha256 factory).Keeps before (assetSkin sha256 factory model stream) SkinCached := by
  apply (keeps_load _).bind
  intro skin
  apply keeps_pure
  rintro textures cached _ ⟨⟩ texture member
  rw [shownTextures,Option.toList_none,List.append_nil,Option.mem_toList] at member
  exact cached texture member

theorem keeps_getOfflineSkin (setting : OfflineSkinSetting) (name : Text) :
    (cache sha256 factory).Keeps before (getOfflineSkin sha256 factory device setting name)
      SkinCached := by
  refine keeps_catchIo ?_ fun _ => nofun
  apply keeps_orIo.bind
  intro alex
  apply keeps_orIo.bind
  intro steve
  split
  · exact keeps_assetSkin _ _
  split
  · exact keeps_assetSkin _ _
  split
  · apply (keeps_skinFile _).bind
    intro skin
    apply (keeps_capeFile _).bind
    intro cape
    exact keeps_some _ (keeps_loadedSkin skin cape)
  split
  · exact keeps_customSkin _ _
  · exact keeps_null

/-- The account's own character. -/
def Portrays (account : Account) (character : Character) : Prop :=
  UUIDTypeAdapter.fromString account.auth_uuid = some character.uuid ∧
    character.name = account.auth_player_name

theorem keeps_newCharacter (account : Account) (setting : OfflineSkinSetting) :
    (cache sha256 factory).Keeps before (newCharacter sha256 factory device account setting)
      fun character textures => Portrays account character ∧
        SkinCached character.skin textures := by
  unfold newCharacter
  cases read : UUIDTypeAdapter.fromString account.auth_uuid with
  | none =>
    have failed : (cache sha256 factory).Keeps before (orRuntime (none : Option UUID))
        fun _ _ => False :=
      keeps_throw
    exact failed.bind fun _ _ _ => False.elim
  | some uuid =>
    rw [show orRuntime (some uuid) = pure uuid from rfl,pure_bind]
    apply (keeps_getOfflineSkin setting account.auth_player_name).bind
    intro skin
    apply keeps_pure
    intro textures cached
    exact ⟨⟨read,rfl⟩,cached⟩

/-- What a server shows after a launch: its account's character, or none where it threw. -/
inductive Left (account : Account) : Launched → Prop
  | without (args : Except LoadFailure (List Text)) (textures : Textures) :
      Left account ⟨args,none,textures⟩
  | threw (failure : LoadFailure) (port : Nat) (textures : Textures) :
      Left account ⟨.error failure,some (.start port),textures⟩
  | shows (args : List Text) (port : Nat) (character : Character) (textures : Textures)
      (portrays : Portrays account character) (cached : SkinCached character.skin textures) :
      Left account ⟨.ok args,some (.added port [character]),textures⟩

/-- A launch keeps the cache and leaves its server so. -/
def Keeping (sha256 : Texture.MessageDigest) (factory : BitmapFactory) (account : Account)
    (textures : Textures) (launched : Launched) : Prop :=
  Sound sha256 factory launched.textures ∧ Extends textures launched.textures ∧
    Left account launched

theorem startServer_keeping (authlibPath : Text) (account : Account)
    (setting : OfflineSkinSetting) (port : Nat) {textures : Textures}
    (sound : Sound sha256 factory textures) : Keeping sha256 factory account textures
      (startServer sha256 factory device authlibPath account setting port textures) := by
  have kept : (cache sha256 factory).Keeps (fun _ => True) _ _ :=
    @keeps_newCharacter sha256 factory device _ account setting
  obtain ⟨soundNow,grown,given⟩ := kept textures sound trivial
  unfold startServer
  cases ran : (newCharacter sha256 factory device account setting).run.run textures with
  | mk result later =>
    rw [ran] at soundNow grown given
    cases result with
    | error failure => exact ⟨soundNow,grown,.threw failure port later⟩
    | ok character =>
      obtain ⟨portrays,cached⟩ := given character rfl
      exact ⟨soundNow,grown,.shows _ port character later portrays cached⟩

theorem getAccountArgs_keeping (filesDir : Text) (account : Account) (port : Option Nat)
    {textures : Textures} (sound : Sound sha256 factory textures) :
    Keeping sha256 factory account textures
      (getAccountArgs sha256 factory device filesDir account port textures) := by
  have without (args : Except LoadFailure (List Text)) :
      Keeping sha256 factory account textures ⟨args,none,textures⟩ :=
    ⟨sound,Extends.refl textures,.without args textures⟩
  unfold getAccountArgs
  simp only
  split
  · cases account.offlineSkinSetting with
    | none => exact without _
    | some setting =>
      cases port with
      | none => exact without _
      | some port => exact startServer_keeping _ account setting port sound
  split
  · exact without _
  split
  · exact without _
  · exact without _

end Skins

section Hashes

theorem bigInteger_lt (bytes : List Texture.Byte) :
    Texture.bigInteger bytes < 16 ^ (2 * bytes.length) := by
  induction bytes using List.reverseRecOn with
  | nil => exact Nat.one_pos
  | append_singleton bytes last ih =>
    have byte := last.isLt
    rw [Texture.bigInteger,List.foldl_concat,← Texture.bigInteger,List.length_append,
      List.length_singleton,Nat.mul_add,Nat.pow_add]
    omega

theorem toDigits_hex (n : Nat) : ∀ c ∈ Nat.toDigits 16 n, isHex c = true := by
  have digit : ∀ d < 16, isHex (Nat.digitChar d) = true := by decide
  induction n using Nat.strong_induction_on with
  | _ n ih =>
    intro c member
    rw [Nat.toDigits_eq_if (by omega)] at member
    split at member
    · rename_i small
      obtain rfl := List.mem_singleton.mp member
      exact digit n small
    · rename_i large
      rw [List.mem_append,List.mem_singleton] at member
      rcases member with earlier | rfl
      · exact ih (n / 16) (by omega) c earlier
      · exact digit (n % 16) (Nat.mod_lt n (by omega))

theorem hexFormat_hex (bytes : List Texture.Byte) :
    ∀ c ∈ Texture.hexFormat bytes, isHex c = true := by
  intro c member
  rw [Texture.hexFormat,List.mem_append] at member
  rcases member with zero | digit
  · rw [List.eq_of_mem_replicate zero]
    rfl
  · exact toDigits_hex _ c digit

theorem length_hexFormat {bytes : List Texture.Byte} (some_ : 0 < bytes.length) :
    (Texture.hexFormat bytes).length = 2 * bytes.length := by
  have short := (@Nat.length_toDigits_le_iff 16 (Texture.bigInteger bytes) (2 * bytes.length)
    (by omega) (by omega)).mpr (bigInteger_lt bytes)
  rw [Texture.hexFormat,List.length_append,List.length_replicate]
  omega

/-- A hash is written with the digits that its route reads. -/
theorem hash_format {sha256 : Texture.MessageDigest}
    (sized : ∀ s, (sha256.digest s).length = 32) {img : Bitmap} {hash : Text}
    (hashed : Texture.computeTextureHash sha256 img = some hash) :
    hash.length = 64 ∧ ∀ c ∈ hash, isHex c = true := by
  simp only [Texture.computeTextureHash,Option.bind_eq_bind,Option.bind_eq_some_iff,
    Option.pure_def,Option.some.injEq] at hashed
  obtain ⟨-,-,-,-,-,-,rfl⟩ := hashed
  refine ⟨?_,hexFormat_hex _⟩
  rw [length_hexFormat] <;> rw [sized]
  exact Nat.zero_lt_succ _

end Hashes

section Launches
variable (sha256 : Texture.MessageDigest) (factory : BitmapFactory)

structure GameLaunch where
  device : Device
  filesDir : Text
  account : Account
  port : Option Nat

def GameLaunch.perform (launch : GameLaunch) (textures : Textures) : Launched :=
  getAccountArgs sha256 factory launch.device launch.filesDir launch.account launch.port textures

/-- The cache outlives the launches. -/
def cacheAfter (launches : List GameLaunch) : Textures :=
  launches.foldl (fun textures launch => (launch.perform sha256 factory textures).textures) ∅

variable {sha256 factory}

theorem GameLaunch.keeping (launch : GameLaunch) {textures : Textures}
    (sound : Sound sha256 factory textures) :
    Keeping sha256 factory launch.account textures (launch.perform sha256 factory textures) :=
  getAccountArgs_keeping launch.filesDir launch.account launch.port sound

theorem sound_cacheAfter (launches : List GameLaunch) :
    Sound sha256 factory (cacheAfter sha256 factory launches) := by
  induction launches using List.reverseRecOn with
  | nil => exact fun _ _ => nofun
  | append_singleton launches last ih =>
    rw [cacheAfter,List.foldl_concat]
    exact (last.keeping ih).1

theorem extends_cacheAfter (earlier later : List GameLaunch) :
    Extends (cacheAfter sha256 factory earlier) (cacheAfter sha256 factory (earlier ++ later)) := by
  induction later using List.reverseRecOn with
  | nil =>
    rw [List.append_nil]
    exact Extends.refl _
  | append_singleton later last ih =>
    apply ih.trans
    rw [← List.append_assoc,cacheAfter,cacheAfter,List.foldl_concat]
    exact (last.keeping (sound_cacheAfter (earlier ++ later))).2.1

theorem extends_perform (earlier later : List GameLaunch) (launch : GameLaunch) :
    Extends (launch.perform sha256 factory (cacheAfter sha256 factory earlier)).textures
      (cacheAfter sha256 factory (earlier ++ launch :: later)) := by
  have here : cacheAfter sha256 factory (earlier ++ [launch]) =
      (launch.perform sha256 factory (cacheAfter sha256 factory earlier)).textures := by
    rw [cacheAfter,List.foldl_concat,← cacheAfter]
  rw [← here,List.append_cons earlier launch later]
  exact extends_cacheAfter _ _

/-- The profiles of a server to which some characters were added, from the last to the first. -/
theorem answers_added (formats : Formats) (textures : Textures) (now port : Nat)
    (coding : UrlCoding) (characters : List Character) (uuid : UUID)
    {character : Option Character}
    (found : (characters.reverse.find? fun character => decide (character.uuid = uuid)) =
      character) :
    (YggdrasilServer.added port characters).Answers formats textures now coding .get
      (YggdrasilServer.profilePath ++ UUIDTypeAdapter.fromUUID uuid) fun _ _ =>
        (YggdrasilServer.added port characters).found formats now character := by
  rw [← found,← YggdrasilServer.findCharacterByUuid_added port]
  exact YggdrasilServer.answers_profile uuid

/-- A server that a launch has started shows its account, and whatever textures it names it still
sends, after any number of further launches. After a launch that threw it shows no one. -/
theorem launched_serves (sized : ∀ s, (sha256.digest s).length = 32)
    (earlier later : List GameLaunch) (launch : GameLaunch) {server : YggdrasilServer}
    (started : (launch.perform sha256 factory (cacheAfter sha256 factory earlier)).server =
      some server) (formats : Formats) (now : Nat) (coding : UrlCoding) :
    let answers := server.Answers formats
      (cacheAfter sha256 factory (earlier ++ launch :: later)) now coding
    let profile uuid := YggdrasilServer.profilePath ++ UUIDTypeAdapter.fromUUID uuid
    let ended := (launch.perform sha256 factory (cacheAfter sha256 factory earlier)).args
    (∀ failure, ended = .error failure →
      ∀ uuid, answers .get (profile uuid) fun _ _ => noContent) ∧
    ∀ args, ended = .ok args → ∃ character, Portrays launch.account character ∧
      answers .get (profile character.uuid)
        (fun _ _ => ok (character.toCompleteResponse formats server.getRootUrl now)) ∧
      (∀ uuid ≠ character.uuid, answers .get (profile uuid) fun _ _ => noContent) ∧
      ∀ loaded, character.skin = some loaded → ∀ texture ∈ shownTextures loaded, ∃ path img,
        Character.textureUrl server.getRootUrl texture = server.getRootUrl ++ path ∧
        Texture.computeTextureHash sha256 img = some texture.hash ∧
        answers .get path fun _ _ =>
          YggdrasilServer.image ⟨texture.hash,factory.compress img⟩ texture.hash := by
  intro answers profile ended
  have before := @sound_cacheAfter sha256 factory earlier
  have sound := @sound_cacheAfter sha256 factory (earlier ++ launch :: later)
  have grown := @extends_perform sha256 factory earlier later launch
  have left := (launch.keeping before).2.2
  subst ended
  generalize launch.perform sha256 factory (cacheAfter sha256 factory earlier) = launched at *
  cases left with
  | without => cases started
  | threw failure port textures =>
    obtain rfl := Option.some.inj started
    refine ⟨?_,fun _ => nofun⟩
    intro _ _ uuid
    exact answers_added formats _ now port coding [] uuid rfl
  | shows args port character textures portrays cached =>
    obtain rfl := Option.some.inj started
    refine ⟨fun _ => nofun,?_⟩
    intro _ _
    refine ⟨character,portrays,?_,?_,?_⟩
    · exact answers_added formats _ now port coding [character] character.uuid
        (List.find?_cons_of_pos (by simp))
    · intro uuid other
      exact answers_added formats _ now port coding [character] uuid
        (List.find?_cons_of_neg (by simpa using other.symm))
    · intro loaded skin texture member
      have there := grown _ _ (cached loaded skin texture member)
      obtain ⟨-,img,hashed,data⟩ := sound _ _ there
      obtain ⟨length,hex⟩ := hash_format sized hashed
      refine ⟨YggdrasilServer.texturesPath ++ texture.hash,img,?_,hashed,?_⟩
      · rw [Character.textureUrl,List.append_assoc]
        rfl
      · have answered := @YggdrasilServer.answers_texture (YggdrasilServer.added port [character])
          formats (cacheAfter sha256 factory (earlier ++ launch :: later)) now coding _ hex length
        rw [there] at answered
        rw [← data]
        exact answered

/-- A digest that knows the bytes of one image. -/
def dotDigest : Texture.MessageDigest where
  State := List Texture.Byte
  initial := []
  take := (· ++ ·)
  take_nil := List.append_nil
  take_append := List.append_assoc
  digest state := if state = [0,0,0,1,0,0,0,1,0xff,0,0,0] then
      [109,106,221,209,76,120,201,47,65,3,126,144,111,111,180,191,59,197,251,203,6,70,213,174,228,
        51,247,72,172,63,40,16]
    else List.replicate 32 0

def dot : Bitmap := ⟨1,1,fun _ => 0xff000000⟩

def dotFactory : BitmapFactory := ⟨fun _ => [137,80,78,71],fun _ => some dot⟩

def steveLaunch : GameLaunch where
  device := ⟨fun _ => some [137,80,78,71],fun _ => none,dot,fun _ => false,fun _ => none,
    fun _ => none,fun _ => none⟩
  filesDir := ("/data" : String)
  account := ⟨1,("069a79f444e94726a5befca90e38aaf5" : String),("Steve" : String),[],
    some ⟨1,[],[],[]⟩⟩
  port := some 25565

def dotHash : Text := ("6d6addd14c78c92f41037e906f6fb4bf3bc5fbcb0646d5aee433f748ac3f2810" : String)

theorem dot_hash : Texture.computeTextureHash dotDigest dot = some dotHash := by decide +kernel

theorem load_dot (textures : Textures) (absent : textures.lookup dotHash = none) :
    (load dotDigest dotFactory (some [137,80,78,71])).run.run textures =
      (.ok (some ⟨dotHash,[137,80,78,71]⟩),
        textures.insert dotHash ⟨dotHash,[137,80,78,71]⟩) := by
  rw [run_load]
  simp only [loadTexture,dotFactory,dot_hash,absent]

theorem steve_uuid : UUIDTypeAdapter.fromString ("069a79f444e94726a5befca90e38aaf5" : String) =
    some ⟨0x069a79f444e94726,0xa5befca90e38aaf5⟩ := by decide +kernel

theorem steve_skin : (getOfflineSkin dotDigest dotFactory steveLaunch.device ⟨1,[],[],[]⟩
    ("Steve" : String)).run.run ∅ = (.ok (some ⟨.steve,some ⟨dotHash,[137,80,78,71]⟩,none⟩),
      (∅ : Textures).insert dotHash ⟨dotHash,[137,80,78,71]⟩) := by
  rw [getOfflineSkin,run_catchIo]
  simp only [steveLaunch,orIo,Option.elim_some,pure_bind]
  rw [if_pos trivial,assetSkin,run_bind,load_dot ∅ rfl]
  rfl

def steveServer : YggdrasilServer :=
  .added 25565 [⟨⟨0x069a79f444e94726,0xa5befca90e38aaf5⟩,("Steve" : String),
    some ⟨.steve,some ⟨dotHash,[137,80,78,71]⟩,none⟩⟩]

theorem steve_started : steveLaunch.perform dotDigest dotFactory ∅ =
    ⟨.ok (offlineArgs ("/data/plugin/login/authlib-injector/authlib-injector.jar" : String)
      steveServer),some steveServer,
        (∅ : Textures).insert dotHash ⟨dotHash,[137,80,78,71]⟩⟩ := by
  have loaded : (newCharacter dotDigest dotFactory steveLaunch.device steveLaunch.account
      ⟨1,[],[],[]⟩).run.run ∅ = (.ok ⟨⟨0x069a79f444e94726,0xa5befca90e38aaf5⟩,
        ("Steve" : String),some ⟨.steve,some ⟨dotHash,[137,80,78,71]⟩,none⟩⟩,
          (∅ : Textures).insert dotHash ⟨dotHash,[137,80,78,71]⟩) := by
    rw [newCharacter]
    simp only [steveLaunch,steve_uuid]
    rw [show ∀ uuid : UUID, orRuntime (some uuid) = pure uuid from fun _ => rfl,pure_bind,run_bind]
    have skin := steve_skin
    simp only [steveLaunch] at skin
    rw [skin]
    rfl
  have setting : steveLaunch.account.offlineSkinSetting = some ⟨1,[],[],[]⟩ := rfl
  have port : steveLaunch.port = some 25565 := rfl
  simp only [GameLaunch.perform,getAccountArgs]
  rw [if_pos (show steveLaunch.account.loginType = 1 from rfl)]
  simp only [setting,port,startServer]
  rw [loaded]
  rfl

def plainFormats : Formats := ⟨fun _ => [],id,[],fun _ => none⟩

theorem launched_serves_steve :
    (steveLaunch.perform dotDigest dotFactory (cacheAfter dotDigest dotFactory [])).server =
      some steveServer ∧
    ∃ character, Portrays steveLaunch.account character ∧
      ∀ loaded, character.skin = some loaded → ∀ texture ∈ shownTextures loaded, ∃ path img,
        Character.textureUrl steveServer.getRootUrl texture = steveServer.getRootUrl ++ path ∧
        Texture.computeTextureHash dotDigest img = some texture.hash ∧
        steveServer.Answers plainFormats
          (cacheAfter dotDigest dotFactory ([] ++ steveLaunch :: [steveLaunch])) 0 .utf8 .get path
          fun _ _ => YggdrasilServer.image ⟨texture.hash,dotFactory.compress img⟩ texture.hash := by
  have sized : ∀ s, (dotDigest.digest s).length = 32 := by
    intro s
    simp only [dotDigest]
    split <;> rfl
  have server := congrArg Launched.server steve_started
  obtain ⟨character,portrays,-,-,sent⟩ := (launched_serves sized [] [steveLaunch] steveLaunch
    server plainFormats 0 .utf8).2 _ (congrArg Launched.args steve_started)
  exact ⟨server,character,portrays,sent⟩

end Launches

end HmclPe.Launch.AccountPatch
