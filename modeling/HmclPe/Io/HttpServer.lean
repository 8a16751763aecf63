import HmclPe.Game.Descriptor
import HmclPe.Io.NetworkUtils
import Mathlib.Data.List.AList

/-! The small HTTP server of the launcher: the first route that fits answers. -/
namespace HmclPe.Io.HttpServer
open HmclPe.Java HmclPe.Game

section Model

/-- No route is about another method. -/
inductive Method | get | post | other
deriving DecidableEq

structure Session where
  method : Method
  uri : Text
  queryParameterString : Option Text
  /-- `none` is an `IOException` of the input stream. -/
  inputStream : Option Text

def isHex (c : Char) : Bool := decide ('a' ≤ c ∧ c ≤ 'f' ∨ '0' ≤ c ∧ c ≤ '9')

/-- The patterns of the routes: `^/$`, a path anywhere, and a path with so many hexadecimal digits
in a group behind it. -/
inductive Pattern
  | root
  | literal (path : Text)
  | group (path : Text) (count : Nat)

/-- The end of a text for a dollar sign, which a last line terminator may follow. -/
def atEnd (rest : Text) : Bool :=
  rest == [] || rest == ['\r','\n'] || Text.lineTerminators.any fun c => rest == [c]

/-- A match of a group at the start of a text. -/
def groupAt (path : Text) (count : Nat) (uri : Text) : Option Text :=
  let group := (uri.drop path.length).take count
  if path.isPrefixOf uri ∧ group.length = count ∧ group.all isHex then some group else none

/-- `Matcher.find`, with the group of the match. -/
def Pattern.find : Pattern → Text → Option Text
  | root, uri =>
    match uri with
    | '/' :: rest => if atEnd rest then some [] else none
    | _ => none
  | literal path, uri => if Text.contains uri path then some [] else none
  | group path count, uri => uri.tails.findSome? (groupAt path count)

/-- A map without an order that anyone looks at. -/
abbrev Table (κ ν : Type) := AList fun _ : κ => ν

def mapOf {κ ν : Type} [DecidableEq κ] (pairs : List (κ × ν)) : Table κ ν :=
  pairs.foldl (fun map pair => map.insert pair.1 pair.2) ∅

structure Request where
  pathVariables : Text
  query : Table Text (Option Text)
  session : Session

inductive Status | ok | noContent | badRequest | notFound | internalError
deriving DecidableEq

inductive Body
  | text (content : Text)
  | json (element : JsonElement)
  | bytes (data : List (BitVec 8))

structure Response where
  status : Status
  mimeType : Text
  body : Body
  header : List (Text × Text) := []

def mimeHtml : Text := ("text/html" : String)

def ok (response : JsonElement) : Response := ⟨.ok,("text/json" : String),.json response,[]⟩

def notFound : Response := ⟨.notFound,mimeHtml,.text ("404 not found" : String),[]⟩

def noContent : Response := ⟨.noContent,mimeHtml,.text [],[]⟩

def badRequest : Response := ⟨.badRequest,mimeHtml,.text ("400 bad request" : String),[]⟩

def internalError : Response := ⟨.internalError,mimeHtml,.text ("500 internal error" : String),[]⟩

inductive Failure | jsonParse | other

structure Route where
  method : Method
  pathPattern : Pattern
  server : Request → Except Failure Response

def Route.serve (route : Route) (request : Request) : Response :=
  match route.server request with
  | .ok response => response
  | .error .jsonParse => badRequest
  | .error .other => internalError

/-- The group of a route that fits. -/
def Route.fits (session : Session) (route : Route) : Option (Route × Text) :=
  if route.method ≠ session.method then none
  else (route.pathPattern.find session.uri).map (route,·)

/-- `none` is the exception for a bad query string, which is not caught here. -/
def serve (coding : UrlCoding) (routes : List Route) (session : Session) : Option Response :=
  match routes.findSome? (Route.fits session) with
  | none => some notFound
  | some (route,pathVariables) => do
    let query ← NetworkUtils.parseQuery coding session.queryParameterString
    return route.serve ⟨pathVariables,mapOf query,session⟩

end Model

section Find
variable {path group : Text} {count : Nat}

theorem find_group (hex : ∀ c ∈ group, isHex c = true) (length : group.length = count) :
    (Pattern.group path count).find (path ++ group) = some group := by
  have here : groupAt path count (path ++ group) = some group := by
    have starts : path.isPrefixOf (path ++ group) = true :=
      List.isPrefixOf_iff_prefix.mpr (List.prefix_append path group)
    rw [groupAt,List.drop_left,List.take_of_length_le (Nat.le_of_eq length),
      if_pos ⟨starts,length,List.all_eq_true.mpr hex⟩]
  rw [Pattern.find]
  cases whole : path ++ group with
  | nil =>
    rw [whole] at here
    rw [List.tails,List.findSome?_cons,here]
  | cons c rest =>
    rw [whole] at here
    rw [List.tails_cons,List.findSome?_cons,here]

/-- Where no path stands there is no group of it. -/
theorem find_group_none {uri : Text} (absent : ¬path <:+: uri) :
    (Pattern.group path count).find uri = none := by
  rw [Pattern.find,List.findSome?_eq_none_iff]
  intro rest member
  rw [List.mem_tails] at member
  rw [groupAt,if_neg]
  rintro ⟨starts,-⟩
  exact absent ((List.isPrefixOf_iff_prefix.mp starts).isInfix.trans member.isInfix)

theorem find_literal_none {uri : Text} (absent : ¬path <:+: uri) :
    (Pattern.literal path).find uri = none := by
  rw [Pattern.find,Text.contains,if_neg (by simpa using absent)]

theorem find_literal (front back : Text) : (Pattern.literal path).find (front ++ path ++ back) =
    some [] := by
  rw [Pattern.find,Text.contains,if_pos (decide_eq_true ⟨front,back,rfl⟩)]

theorem find_root_none {c : Char} {uri : Text} (more : c ∉ Text.lineTerminators) :
    Pattern.root.find ('/' :: c :: uri) = none := by
  have inside : atEnd (c :: uri) = false := by
    rw [Bool.eq_false_iff]
    intro ends
    simp only [atEnd,Bool.or_eq_true,beq_iff_eq,List.any_eq_true] at ends
    rcases ends with (empty | ends) | ⟨d,member,one⟩
    · cases empty
    · obtain ⟨rfl,-⟩ := List.cons.inj ends
      exact more (by decide)
    · obtain ⟨rfl,-⟩ := List.cons.inj one
      exact more member
  rw [Pattern.find,inside,if_neg Bool.false_ne_true]

/-- A text stands in a path with a group behind it only where it stands in the path itself, when
no cut of it puts its rest among the digits. -/
theorem not_infix_append {text : Text} (hex : ∀ c ∈ group, isHex c = true)
    (absent : ¬text <:+: path)
    (cuts : ∀ cut ∈ List.range (text.length + 1),
      (text.take cut).isSuffixOf path = true → (text.drop cut).all isHex = false) :
    ¬text <:+: path ++ group := by
  intro inside
  rcases List.infix_append_iff.mp inside with early | late | ⟨first,second,whole,ends,starts⟩
  · exact absent early
  · have apart := cuts 0 (by simp) (by simp)
    rw [List.drop_zero,List.all_eq_false] at apart
    obtain ⟨c,member,other⟩ := apart
    exact other (hex c (late.subset member))
  · have apart := cuts first.length (by rw [whole,List.length_append]; simp)
    rw [whole,List.take_left,List.drop_left,List.isSuffixOf_iff_suffix,List.all_eq_false] at apart
    obtain ⟨c,member,other⟩ := apart ends
    exact other (hex c (starts.subset member))

end Find

section Serve
variable {session : Session} {route : Route}

theorem fits_method (other : route.method ≠ session.method) : route.fits session = none :=
  if_pos other

theorem fits_none (missed : route.pathPattern.find session.uri = none) :
    route.fits session = none := by
  rw [Route.fits,missed]
  split <;> rfl

theorem fits_some {group : Text} (method : route.method = session.method)
    (found : route.pathPattern.find session.uri = some group) :
    route.fits session = some (route,group) := by
  rw [Route.fits,if_neg (not_not_intro method),found]
  rfl

/-- The first route that fits is the one that answers. -/
theorem serve_route {coding : UrlCoding} {routes : List Route} {index : Nat} {group : Text}
    {query : List (Text × Option Text)} (stands : routes[index]? = some route)
    (passed : ∀ earlier ∈ routes.take index, earlier.fits session = none)
    (found : route.fits session = some (route,group))
    (parsed : NetworkUtils.parseQuery coding session.queryParameterString = some query) :
    serve coding routes session = some (route.serve ⟨group,mapOf query,session⟩) := by
  obtain ⟨inside,same⟩ := List.getElem?_eq_some_iff.mp stands
  have cut : routes = routes.take index ++ route :: routes.drop (index + 1) := by
    rw [← same,List.cons_getElem_drop_succ,List.take_append_drop]
  have first : routes.findSome? (Route.fits session) = some (route,group) := by
    rw [cut,List.findSome?_append,List.findSome?_eq_none_iff.mpr passed,List.findSome?_cons,found]
    rfl
  rw [serve,first,parsed]
  rfl

end Serve

end HmclPe.Io.HttpServer
