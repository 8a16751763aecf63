import HmclPe.Auth.Texture
import HmclPe.Auth.UUIDTypeAdapter
import HmclPe.Io.HttpServer

/-! The server that shows the skins of offline accounts to the game, and the cache of textures
behind it. -/
namespace HmclPe.Auth
open HmclPe.Java HmclPe.Game HmclPe.Io.HttpServer HmclPe.Skin

structure Texture where
  hash : Text
  data : List (BitVec 8)

/-- `Bitmap.compress` to a PNG and `BitmapFactory.decodeStream`, `none` being the null of bytes
that are no image. -/
structure BitmapFactory where
  compress : Bitmap → List (BitVec 8)
  decodeStream : List (BitVec 8) → Option Bitmap

/-- What ends the loading of a texture or a skin: an exception that the callers catch, or one that
they do not. -/
inductive LoadFailure | io | runtime
deriving DecidableEq

abbrev Textures := Table Text Texture

/-- A stream that is null gives null; the second result is the cache afterwards. -/
def loadTexture (sha256 : Texture.MessageDigest) (factory : BitmapFactory)
    (stream : Option (List (BitVec 8))) (textures : Textures) :
    Except LoadFailure (Option Texture) × Textures :=
  match stream with
  | none => (.ok none,textures)
  | some stream =>
    match factory.decodeStream stream with
    | none => (.error .io,textures)
    | some img =>
      match Texture.computeTextureHash sha256 img with
      | none => (.error .runtime,textures)
      | some hash =>
        match textures.lookup hash with
        | some existent => (.ok (some existent),textures)
        | none =>
          let texture := ⟨hash,factory.compress img⟩
          (.ok (some texture),textures.insert hash texture)

inductive TextureModel | steve | alex
deriving DecidableEq

structure LoadedSkin where
  model : TextureModel
  skin : Option Texture
  cape : Option Texture

structure Character where
  uuid : UUID
  name : Text
  skin : Option LoadedSkin

def string (s : Text) : JsonElement := .primitive (.string s)

def number (n : Nat) : JsonElement := .primitive (.number (Nat.toDigits 10 n))

/-- What the responses take from Gson, from the encoder of Base64 and from the key pair; the names
of a body are missing where Gson throws. -/
structure Formats where
  encode : JsonElement → Text
  sign : Text → Text
  signaturePublickey : Text
  readNames : Text → Option (List (Option Text))

def fromUUID (uuid : UUID) : JsonElement := string (UUIDTypeAdapter.fromUUID uuid)

namespace Character

def toSimpleResponse (character : Character) : JsonElement :=
  .object [(("id" : String),fromUUID character.uuid),(("name" : String),string character.name)]

def textureUrl (rootUrl : Text) (texture : Texture) : Text :=
  rootUrl ++ ("/textures/" : String).toList ++ texture.hash

def skinEntry (rootUrl : Text) (model : TextureModel) (texture : Texture) : JsonElement :=
  if model = .alex then
    .object [(("url" : String),string (textureUrl rootUrl texture)),
      (("metadata" : String),.object [(("model" : String),string ("slim" : String))])]
  else .object [(("url" : String),string (textureUrl rootUrl texture))]

def realTextures (rootUrl : Text) (character : Character) : List (Text × JsonElement) :=
  match character.skin with
  | none => []
  | some loaded =>
    (match loaded.skin with
      | some skin => [(("SKIN" : String).toList,skinEntry rootUrl loaded.model skin)]
      | none => []) ++
    match loaded.cape with
    | some cape => [(("CAPE" : String).toList,
        .object [(("url" : String),string (textureUrl rootUrl cape))])]
    | none => []

def textureResponse (rootUrl : Text) (currentTimeMillis : Nat) (character : Character) :
    JsonElement :=
  .object [(("timestamp" : String),number currentTimeMillis),
    (("profileId" : String),fromUUID character.uuid),
    (("profileName" : String),string character.name),
    (("textures" : String),.object (realTextures rootUrl character))]

def toCompleteResponse (formats : Formats) (rootUrl : Text) (currentTimeMillis : Nat)
    (character : Character) : JsonElement :=
  let value := formats.encode (textureResponse rootUrl currentTimeMillis character)
  .object [(("id" : String),fromUUID character.uuid),(("name" : String),string character.name),
    (("properties" : String),.array [.object [(("name" : String),string ("textures" : String)),
      (("value" : String),string value),(("signature" : String),string (formats.sign value))]])]

end Character

structure YggdrasilServer where
  listeningPort : Nat
  charactersByUuid : Table UUID Character
  charactersByName : Table Text Character

namespace YggdrasilServer

def start (port : Nat) : YggdrasilServer := ⟨port,∅,∅⟩

section Model
variable (server : YggdrasilServer)

def getRootUrl : Text :=
  ("http://localhost:" : String).toList ++ Nat.toDigits 10 server.listeningPort

def findCharacterByUuid (uuid : UUID) : Option Character := server.charactersByUuid.lookup uuid

def findCharacterByName (name : Text) : Option Character := server.charactersByName.lookup name

def addCharacter (character : Character) : YggdrasilServer :=
  { server with
    charactersByUuid := server.charactersByUuid.insert character.uuid character
    charactersByName := server.charactersByName.insert character.name character }

variable (formats : Formats) (textures : Textures) (currentTimeMillis : Nat)

def root (_ : Request) : Except Failure Response :=
  .ok (ok (.object [(("signaturePublickey" : String),string formats.signaturePublickey),
    (("skinDomains" : String),.array [string ("127.0.0.1" : String),string ("localhost" : String)]),
    (("meta" : String),.object [(("serverName" : String),string ("HMCL-PE" : String)),
      (("implementationName" : String),string ("HMCL-PE" : String)),
      (("implementationVersion" : String),string ("1.0" : String)),
      (("feature.non_email_login" : String),.primitive (.boolean true))])]))

def status (_ : Request) : Except Failure Response :=
  .ok (ok (.object [(("user.count" : String),number server.charactersByUuid.entries.length),
    (("token.count" : String),number 0),(("pendingAuthentication.count" : String),number 0)]))

def profiles (request : Request) : Except Failure Response := do
  let body ← request.session.inputStream.elim (.error .other) .ok
  let names ← (formats.readNames body).elim (.error .jsonParse) .ok
  let found := names.eraseDups.filterMap fun name => name.bind server.findCharacterByName
  return ok (.array (found.map Character.toSimpleResponse))

def found (character : Option Character) : Response :=
  match character with
  | some character =>
    ok (character.toCompleteResponse formats server.getRootUrl currentTimeMillis)
  | none => noContent

def hasJoined (request : Request) : Except Failure Response :=
  match request.query.lookup ("username" : String).toList with
  | none => .ok badRequest
  | some username =>
    .ok (server.found formats currentTimeMillis (username.bind server.findCharacterByName))

def joinServer (_ : Request) : Except Failure Response := .ok noContent

def profile (request : Request) : Except Failure Response := do
  let uuid ← (UUIDTypeAdapter.fromString request.pathVariables).elim (.error .other) .ok
  return server.found formats currentTimeMillis (server.findCharacterByUuid uuid)

def textureHeader (hash : Text) : List (Text × Text) :=
  [(("Etag" : String).toList,'"' :: hash ++ ['"']),
    (("Cache-Control" : String).toList,("max-age=2592000, public" : String).toList)]

def image (texture : Texture) (hash : Text) : Response :=
  ⟨.ok,("image/png" : String),.bytes texture.data,textureHeader hash⟩

def texture (request : Request) : Except Failure Response :=
  match textures.lookup request.pathVariables with
  | some texture => .ok (image texture request.pathVariables)
  | none => .ok notFound

def statusPath : Text := ("/status" : String)

def profilesPath : Text := ("/api/profiles/minecraft" : String)

def hasJoinedPath : Text := ("/sessionserver/session/minecraft/hasJoined" : String)

def joinPath : Text := ("/sessionserver/session/minecraft/join" : String)

def profilePath : Text := ("/sessionserver/session/minecraft/profile/" : String)

def texturesPath : Text := ("/textures/" : String)

def routes : List Route :=
  [⟨.get,.root,root formats⟩,⟨.get,.literal statusPath,server.status⟩,
    ⟨.post,.literal profilesPath,server.profiles formats⟩,
    ⟨.get,.literal hasJoinedPath,server.hasJoined formats currentTimeMillis⟩,
    ⟨.post,.literal joinPath,joinServer⟩,
    ⟨.get,.group profilePath 32,server.profile formats currentTimeMillis⟩,
    ⟨.get,.group texturesPath 64,texture textures⟩]

def serve (coding : UrlCoding) (session : Session) : Option Response :=
  Io.HttpServer.serve coding (server.routes formats textures currentTimeMillis) session

end Model

section Paths

/-- A route for the path of one route does not fit the path of another with a group behind it. -/
theorem paths_apart {group : Text} (hex : ∀ c ∈ group, isHex c = true) :
    ¬statusPath <:+: profilePath ++ group ∧ ¬hasJoinedPath <:+: profilePath ++ group ∧
      ¬statusPath <:+: texturesPath ++ group ∧ ¬hasJoinedPath <:+: texturesPath ++ group ∧
      ¬profilePath <:+: texturesPath ++ group := by
  refine ⟨?_,?_,?_,?_,?_⟩
  · exact not_infix_append hex (by decide) (by decide)
  · exact not_infix_append hex (by decide +kernel) (by decide +kernel)
  · exact not_infix_append hex (by decide) (by decide)
  · exact not_infix_append hex (by decide +kernel) (by decide +kernel)
  · exact not_infix_append hex (by decide +kernel) (by decide +kernel)

end Paths

section Answers
variable (server : YggdrasilServer) (formats : Formats) (textures : Textures)
  (currentTimeMillis : Nat) (coding : UrlCoding)

/-- What the server says to a request for a path, whatever query it bears that can be read. -/
def Answers (method : Method) (uri : Text)
    (response : Table Text (Option Text) → Option Text → Response) : Prop :=
  ∀ session : Session, session.method = method → session.uri = uri →
    ∀ query, Io.NetworkUtils.parseQuery coding session.queryParameterString = some query →
      server.serve formats textures currentTimeMillis coding session =
        some (response (mapOf query) session.inputStream)

variable {server formats textures currentTimeMillis coding}

theorem answers_of_fits (index : Nat) (route : Route) {method : Method} {uri group : Text}
    {response : Table Text (Option Text) → Option Text → Response}
    (stands : (server.routes formats textures currentTimeMillis)[index]? = some route)
    (same : route.method = method) (found : route.pathPattern.find uri = some group)
    (passed : ∀ earlier ∈ (server.routes formats textures currentTimeMillis).take index,
      earlier.method = method → earlier.pathPattern.find uri = none)
    (handled : ∀ query session,
      route.serve ⟨group,query,session⟩ = response query session.inputStream) :
    server.Answers formats textures currentTimeMillis coding method uri response := by
  intro session sent asked query parsed
  have fits : route.fits session = some (route,group) :=
    fits_some (same.trans sent.symm) (by rw [asked]; exact found)
  have missed : ∀ earlier ∈ (server.routes formats textures currentTimeMillis).take index,
      earlier.fits session = none := by
    intro earlier member
    by_cases other : earlier.method = session.method
    · apply fits_none
      rw [asked]
      exact passed earlier member (other.trans sent)
    · exact fits_method other
  rw [serve,serve_route stands missed fits parsed,handled]

/-- The routes before those with a group. -/
theorem earlier_missed {path : Text} (status : ¬statusPath <:+: path)
    (joined : ¬hasJoinedPath <:+: path) (more : Pattern.root.find path = none) :
    ∀ earlier ∈ (server.routes formats textures currentTimeMillis).take 5,
      earlier.method = .get → earlier.pathPattern.find path = none := by
  simp only [routes,List.take_succ_cons,List.take_zero,List.forall_mem_cons,List.not_mem_nil,
    false_implies,implies_true,and_true]
  exact ⟨fun _ => more,fun _ => find_literal_none status,Method.noConfusion,
    fun _ => find_literal_none joined,Method.noConfusion⟩

theorem answers_profile (uuid : UUID) :
    server.Answers formats textures currentTimeMillis coding .get
      (profilePath ++ UUIDTypeAdapter.fromUUID uuid) fun _ _ =>
        server.found formats currentTimeMillis (server.findCharacterByUuid uuid) := by
  have hex : ∀ c ∈ UUIDTypeAdapter.fromUUID uuid, isHex c = true := by
    have digits : hexDigits.all isHex = true := rfl
    intro c member
    exact List.all_eq_true.mp digits c (UUIDTypeAdapter.mem_fromUUID member)
  obtain ⟨status,joined,-⟩ := paths_apart hex
  have group := @find_group profilePath _ 32 hex (UUIDTypeAdapter.length_fromUUID uuid)
  apply answers_of_fits 5 ⟨.get,.group profilePath 32,server.profile formats currentTimeMillis⟩
    rfl rfl group
  · exact earlier_missed status joined (find_root_none (by decide))
  · intro query session
    simp only [Route.serve,profile]
    rw [UUIDTypeAdapter.fromString_fromUUID]
    rfl

theorem answers_texture {hash : Text} (hex : ∀ c ∈ hash, isHex c = true)
    (length : hash.length = 64) :
    server.Answers formats textures currentTimeMillis coding .get (texturesPath ++ hash)
      fun _ _ => match textures.lookup hash with
        | some texture => image texture hash
        | none => notFound := by
  obtain ⟨-,-,status,joined,profile⟩ := paths_apart hex
  have group := @find_group texturesPath _ 64 hex length
  apply answers_of_fits 6 ⟨.get,.group texturesPath 64,texture textures⟩ rfl rfl group
  · intro earlier member get
    rw [List.take_add_one,List.mem_append] at member
    rcases member with member | last
    · exact earlier_missed status joined (find_root_none (by decide)) earlier member get
    · obtain rfl := Option.some.inj (Option.mem_toList.mp last)
      exact find_group_none profile
  · intro query session
    simp only [Route.serve,texture]
    cases textures.lookup hash <;> rfl

/-- The path of a route that is asked for itself, after others that do not stand in it. -/
theorem find_path {path : Text} : (Pattern.literal path).find path = some [] := by
  have whole := @find_literal path [] []
  rwa [List.nil_append,List.append_nil] at whole

theorem answers_hasJoined :
    server.Answers formats textures currentTimeMillis coding .get hasJoinedPath fun query _ =>
      match query.lookup ("username" : String).toList with
      | none => badRequest
      | some username =>
        server.found formats currentTimeMillis (username.bind server.findCharacterByName) := by
  apply answers_of_fits 3 ⟨.get,.literal hasJoinedPath,server.hasJoined formats currentTimeMillis⟩
    rfl rfl find_path
  · simp only [routes,List.take_succ_cons,List.take_zero,List.forall_mem_cons,List.not_mem_nil,
      false_implies,implies_true,and_true]
    exact ⟨fun _ => find_root_none (by decide),fun _ => find_literal_none (by decide +kernel),
      Method.noConfusion⟩
  · intro query session
    simp only [Route.serve,hasJoined]
    cases query.lookup ("username" : String).toList <;> rfl

theorem answers_profiles :
    server.Answers formats textures currentTimeMillis coding .post profilesPath fun _ body =>
      match body with
      | none => internalError
      | some body =>
        match formats.readNames body with
        | none => badRequest
        | some names => ok (.array ((names.eraseDups.filterMap fun name =>
            name.bind server.findCharacterByName).map Character.toSimpleResponse)) := by
  apply answers_of_fits 2 ⟨.post,.literal profilesPath,server.profiles formats⟩ rfl rfl find_path
  · simp only [routes,List.take_succ_cons,List.take_zero,List.forall_mem_cons,List.not_mem_nil,
      false_implies,implies_true,and_true]
    exact ⟨Method.noConfusion,Method.noConfusion⟩
  · intro query session
    simp only [Route.serve,profiles]
    cases session.inputStream with
    | none => rfl
    | some body =>
      simp only [Option.elim_some]
      cases read : formats.readNames body with
      | none => simp [bind,Except.bind,read]
      | some names =>
        simp only [bind,Except.bind,read]
        rfl

end Answers

section Added

theorem lookup_foldl_insert {κ α : Type} [DecidableEq κ] (key : α → κ) (k : κ) (items : List α) :
    (items.foldl (fun table item => table.insert (key item) item) (∅ : Table κ α)).lookup k =
      items.reverse.find? fun item => decide (key item = k) := by
  induction items using List.reverseRecOn with
  | nil => rfl
  | append_singleton items last ih =>
    rw [List.foldl_concat,List.reverse_concat]
    by_cases same : key last = k
    · subst same
      rw [AList.lookup_insert,List.find?_cons,decide_eq_true rfl]
    · rw [AList.lookup_insert_ne (Ne.symm same),ih,List.find?_cons,decide_eq_false same]

/-- The server after characters were added to it. -/
def added (port : Nat) (characters : List Character) : YggdrasilServer :=
  characters.foldl addCharacter (start port)

theorem added_eq (port : Nat) (characters : List Character) : added port characters =
    ⟨port,characters.foldl (fun table character => table.insert character.uuid character) ∅,
      characters.foldl (fun table character => table.insert character.name character) ∅⟩ := by
  induction characters using List.reverseRecOn with
  | nil => rfl
  | append_singleton characters last ih =>
    rw [added,List.foldl_concat,← added,ih,List.foldl_concat,List.foldl_concat]
    rfl

theorem findCharacterByUuid_added (port : Nat) (characters : List Character) (uuid : UUID) :
    (added port characters).findCharacterByUuid uuid =
      characters.reverse.find? fun character => decide (character.uuid = uuid) := by
  rw [added_eq,findCharacterByUuid]
  exact lookup_foldl_insert Character.uuid uuid characters

theorem findCharacterByName_added (port : Nat) (characters : List Character) (name : Text) :
    (added port characters).findCharacterByName name =
      characters.reverse.find? fun character => decide (character.name = name) := by
  rw [added_eq,findCharacterByName]
  exact lookup_foldl_insert Character.name name characters

/-- What a game server asks for a player with. -/
def joinedQuery (name id : Text) : List (Text × Option Text) :=
  [(("username" : String),some name),(("serverId" : String),some id)]

open Io.NetworkUtils in
theorem parseQuery_joined (coding : UrlCoding) {name : Text} (named : name ≠ []) (id : Text) :
    ∃ query, parseQuery coding (some (withQuery coding [] (joinedQuery name id))) = some query ∧
      (mapOf query).lookup ("username" : String).toList = some (some name) := by
  let pairs : List (Text × Text) := [(("username" : String),name),(("serverId" : String),id)]
  have written : withQuery coding [] (joinedQuery name id) =
      ['&'].intercalate (pairs.map (encodePair coding)) := by
    rw [withQuery_some]
    · rfl
    · exact List.cons_ne_nil _ _
  have keys : ∀ pair ∈ pairs, pair.1 ≠ [] := by
    simp [pairs]
  rw [written]
  refine ⟨_,parseQuery_named coding (List.cons_ne_nil _ _) keys,?_⟩
  simp only [pairs,mapOf,List.map_cons,List.map_nil,List.foldl_cons,List.foldl_nil,if_neg named]
  rw [AList.lookup_insert_ne (by decide)]
  exact AList.lookup_insert _

/-- The answers about characters come from those that were added last. -/
theorem answers_last (formats : Formats) (textures : Textures) (now port : Nat)
    (coding : UrlCoding) (characters : List Character) :
    let server := added port characters
    let answers := server.Answers formats textures now coding
    let byName name := characters.reverse.find? fun character => decide (character.name = name)
    (∀ uuid, answers .get (profilePath ++ UUIDTypeAdapter.fromUUID uuid) fun _ _ =>
      server.found formats now
        (characters.reverse.find? fun character => decide (character.uuid = uuid))) ∧
    (∀ name id, name ≠ [] → ∀ session : Session, session.method = .get →
      session.uri = hasJoinedPath →
      session.queryParameterString =
        some (Io.NetworkUtils.withQuery coding [] (joinedQuery name id)) →
      server.serve formats textures now coding session =
        some (server.found formats now (byName name))) ∧
    (∀ body names, formats.readNames body = some names → ∀ session : Session,
      session.method = .post → session.uri = profilesPath → session.inputStream = some body →
      session.queryParameterString = none →
      server.serve formats textures now coding session = some (ok (.array
        ((names.eraseDups.filterMap fun name => name.bind byName).map
          Character.toSimpleResponse)))) := by
  intro server answers byName
  refine ⟨?_,?_,?_⟩
  · intro uuid
    rw [← findCharacterByUuid_added port]
    exact answers_profile uuid
  · intro name id named session get path asked
    obtain ⟨query,parsed,found⟩ := parseQuery_joined coding named id
    rw [← asked] at parsed
    rw [answers_hasJoined session get path _ parsed]
    simp only [found,Option.bind_some]
    rw [findCharacterByName_added]
  · intro body names read session post path sent asked
    have parsed : Io.NetworkUtils.parseQuery coding session.queryParameterString = some [] := by
      rw [asked]
      rfl
    rw [answers_profiles session post path _ parsed,sent]
    simp only [read]
    have same : server.findCharacterByName = byName := funext (findCharacterByName_added port _)
    rw [same]

end Added

end YggdrasilServer

end HmclPe.Auth
