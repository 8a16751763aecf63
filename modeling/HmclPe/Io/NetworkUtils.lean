import HmclPe.Java.UrlCoding

/-! The query of a URL, written from pairs and read back by a scanner. -/
namespace HmclPe.Io.NetworkUtils
open HmclPe.Java

/-- The tokens of a `Scanner` with a single character as its delimiter: one delimiter is
skipped before each token, and at the end no token is left. -/
def tokens (delimiter : Char) (s : Text) : List Text :=
  let pieces := s.splitOn delimiter
  let pieces := if pieces.head? = some [] then pieces.tail else pieces
  if pieces.getLast? = some [] then pieces.dropLast else pieces

variable (coding : UrlCoding)

/-- A parameter without a value is passed over. -/
def appendParam (baseUrl : Text) : Text × Bool → Text × Option Text → Text × Bool
  | (sb,first), (_,none) => (sb,first)
  | (sb,first), (key,some value) =>
    let separator : Text := if first then (if baseUrl = [] then [] else ['?']) else ['&']
    (sb ++ separator ++ coding.encode key ++ '=' :: coding.encode value,false)

def withQuery (baseUrl : Text) (params : List (Text × Option Text)) : Text :=
  (params.foldl (appendParam coding baseUrl) (baseUrl,true)).1

/-- One token of a query; `none` is the exception for a bad query string. -/
def parsePair (token : Text) : Option (Text × Option Text) :=
  match token.split '=' with
  | [name] => do
    let name ← coding.decode name
    return (name,none)
  | [name,value] => do
    let name ← coding.decode name
    let value ← coding.decode value
    return (name,some value)
  | _ => none

def parseQuery (queryParameterString : Option Text) : Option (List (Text × Option Text)) :=
  match queryParameterString with
  | none => some []
  | some query => (tokens '&' query).mapM (parsePair coding)

/-- `URI.getRawQuery`: between the first question mark and the fragment. -/
def getRawQuery (uri : Text) : Option Text :=
  let uri := uri.takeWhile (· ≠ '#')
  if '?' ∈ uri then some ((uri.dropWhile (· ≠ '?')).drop 1) else none

/-- A URL without a query; the empty one stands for the query alone. -/
structure BaseUrl where
  text : Text
  plain : '?' ∉ text

/-- What `withQuery` has added to the URL. -/
def BaseUrl.queryPart (base : BaseUrl) (url : Text) : Option Text :=
  if base.text = [] then some url else getRawQuery url

def RoundTrips (base : BaseUrl) (params : List (Text × Option Text)) : Prop :=
  parseQuery coding (base.queryPart (withQuery coding base.text params)) =
    some (params.filter (·.2.isSome))

section Writing

/-- The pairs that are written. -/
def valued (params : List (Text × Option Text)) : List (Text × Text) :=
  params.filterMap fun param => param.2.map (param.1,·)

def encodePair (pair : Text × Text) : Text := coding.encode pair.1 ++ '=' :: coding.encode pair.2

theorem filter_isSome (params : List (Text × Option Text)) :
    params.filter (·.2.isSome) = (valued params).map fun pair => (pair.1,some pair.2) := by
  unfold valued
  induction params with
  | nil => rfl
  | cons param params ih =>
    obtain ⟨key,value⟩ := param
    cases value with
    | none => simpa using ih
    | some value => simpa using ih

theorem foldl_appendParam (baseUrl sb : Text) (params : List (Text × Option Text)) :
    (params.foldl (appendParam coding baseUrl) (sb,false)).1 =
      sb ++ (valued params).flatMap fun pair => '&' :: encodePair coding pair := by
  induction params generalizing sb with
  | nil => simp [valued]
  | cons param params ih =>
    obtain ⟨key,value⟩ := param
    rw [List.foldl_cons]
    cases value with
    | none => exact ih sb
    | some value =>
      have whole := ih (sb ++ '&' :: encodePair coding (key,value))
      simpa [valued,appendParam,encodePair] using whole

theorem foldl_start (baseUrl : Text) (params : List (Text × Option Text)) :
    (params.foldl (appendParam coding baseUrl) (baseUrl,true)).1 = baseUrl ++
      match valued params with
      | [] => []
      | pair :: pairs => (if baseUrl = [] then [] else ['?']) ++ encodePair coding pair ++
          pairs.flatMap fun pair => '&' :: encodePair coding pair := by
  induction params with
  | nil => simp [valued]
  | cons param params ih =>
    obtain ⟨key,value⟩ := param
    rw [List.foldl_cons]
    cases value with
    | none => exact ih
    | some value =>
      have later := foldl_appendParam coding baseUrl
        (baseUrl ++ (if baseUrl = [] then [] else ['?']) ++ encodePair coding (key,value)) params
      simpa [valued,appendParam,encodePair] using later

theorem intercalate_cons (sep : Char) (piece : Text) (pieces : List Text) :
    [sep].intercalate (piece :: pieces) = piece ++ pieces.flatMap (sep :: ·) := by
  induction pieces generalizing piece with
  | nil => simp
  | cons second pieces ih =>
    rw [List.intercalate_cons_cons,ih second]
    simp

/-- A URL without parameters is left alone, and so is its query. -/
theorem withQuery_nil {baseUrl : Text} {params : List (Text × Option Text)}
    (none_ : valued params = []) : withQuery coding baseUrl params = baseUrl := by
  unfold withQuery
  rw [foldl_start,none_,List.append_nil]

theorem withQuery_some {baseUrl : Text} {params : List (Text × Option Text)}
    (some_ : valued params ≠ []) : withQuery coding baseUrl params =
      baseUrl ++ (if baseUrl = [] then [] else ['?']) ++
        ['&'].intercalate ((valued params).map (encodePair coding)) := by
  unfold withQuery
  rw [foldl_start]
  cases pairs : valued params with
  | nil => exact absurd pairs some_
  | cons pair rest => simp [intercalate_cons,List.flatMap_map]

end Writing

section Reading

theorem tokens_intercalate {delimiter : Char} {pieces : List Text} (some_ : pieces ≠ [])
    (free : ∀ piece ∈ pieces, delimiter ∉ piece) (shown : ∀ piece ∈ pieces, piece ≠ []) :
    tokens delimiter ([delimiter].intercalate pieces) = pieces := by
  unfold tokens
  rw [List.splitOn_intercalate delimiter free some_]
  have head : pieces.head? ≠ some [] := fun same => shown [] (List.mem_of_mem_head? same) rfl
  have last : pieces.getLast? ≠ some [] := fun same => shown [] (List.mem_of_mem_getLast? same) rfl
  simp [head,last]

theorem encodePair_free (pair : Text × Text) {c : Char} (other : c.isAlphanum = false)
    (no_mark : c ∉ ['.','-','*','_','+','%','=']) : c ∉ encodePair coding pair := by
  have free (s : Text) : c ∉ coding.encode s :=
    coding.encode_free s other fun member => no_mark (List.mem_append_left ['='] member)
  have no_equals : c ≠ '=' := by
    rintro rfl
    exact no_mark (by decide)
  simp [encodePair,free,no_equals]

theorem parsePair_some {pair : Text × Text} (some_ : pair.2 ≠ []) :
    parsePair coding (encodePair coding pair) = some (pair.1,some pair.2) := by
  have freeK := coding.encode_free pair.1 (c := '=') (by decide) (by decide)
  have freeV := coding.encode_free pair.2 (c := '=') (by decide) (by decide)
  unfold parsePair encodePair
  rw [Text.split_two freeK freeV (coding.encode_ne_nil some_)]
  simp [coding.decode_encode]

/-- The equals sign of an empty value is lost, and with it the value or the whole pair. -/
theorem parsePair_nil {pair : Text × Text} (empty : pair.2 = []) :
    parsePair coding (encodePair coding pair) ≠ some (pair.1,some pair.2) := by
  have free := coding.encode_free pair.1 (c := '=') (by decide) (by decide)
  unfold parsePair encodePair
  rw [empty,coding.encode_nil,Text.split_last free]
  by_cases no_name : coding.encode pair.1 = []
  · simp [no_name]
  · simp [no_name,coding.decode_encode]

theorem parsePair_iff (pair : Text × Text) :
    parsePair coding (encodePair coding pair) = some (pair.1,some pair.2) ↔ pair.2 ≠ [] :=
  ⟨fun read empty => parsePair_nil coding empty read,parsePair_some coding⟩

theorem mapM_map_iff {α β γ : Type} (f : β → Option γ) (e : α → β) (g : α → γ) (l : List α) :
    (l.map e).mapM f = some (l.map g) ↔ ∀ x ∈ l, f (e x) = some (g x) := by
  induction l with
  | nil => simp
  | cons x l ih =>
    rw [List.map_cons,List.mapM_cons,List.forall_mem_cons,← ih]
    cases f (e x) with
    | none => simp
    | some y => cases (l.map e).mapM f <;> simp

theorem parsePair_named {pair : Text × Text} (named : pair.1 ≠ []) :
    parsePair coding (encodePair coding pair) =
      some (pair.1,if pair.2 = [] then none else some pair.2) := by
  by_cases empty : pair.2 = []
  · have free := coding.encode_free pair.1 (c := '=') (by decide) (by decide)
    unfold parsePair encodePair
    rw [empty,coding.encode_nil,Text.split_last free]
    simp [coding.encode_ne_nil named,coding.decode_encode]
  · rw [if_neg empty,parsePair_some coding empty]

theorem parseQuery_written {pairs : List (Text × Text)} (some_ : pairs ≠ []) :
    parseQuery coding (some (['&'].intercalate (pairs.map (encodePair coding)))) =
      (pairs.map (encodePair coding)).mapM (parsePair coding) := by
  have free : ∀ piece ∈ pairs.map (encodePair coding), '&' ∉ piece := by
    intro piece member
    obtain ⟨pair,_,rfl⟩ := List.mem_map.mp member
    exact encodePair_free coding pair (by decide) (by decide)
  have shown : ∀ piece ∈ pairs.map (encodePair coding), piece ≠ [] := by
    intro piece member
    obtain ⟨pair,_,rfl⟩ := List.mem_map.mp member
    simp [encodePair]
  unfold parseQuery
  simp only
  rw [tokens_intercalate (by simpa using some_) free shown]

theorem parseQuery_pairs {pairs : List (Text × Text)} (some_ : pairs ≠ []) :
    parseQuery coding (some (['&'].intercalate (pairs.map (encodePair coding)))) =
        some (pairs.map fun pair => (pair.1,some pair.2)) ↔ ∀ pair ∈ pairs, pair.2 ≠ [] := by
  rw [parseQuery_written coding some_,mapM_map_iff]
  simp only [parsePair_iff]

/-- A named value that is empty is read as none. -/
theorem parseQuery_named {pairs : List (Text × Text)} (some_ : pairs ≠ [])
    (named : ∀ pair ∈ pairs, pair.1 ≠ []) :
    parseQuery coding (some (['&'].intercalate (pairs.map (encodePair coding)))) =
      some (pairs.map fun pair => (pair.1,if pair.2 = [] then none else some pair.2)) := by
  rw [parseQuery_written coding some_,mapM_map_iff]
  intro pair member
  exact parsePair_named coding (named pair member)

theorem getRawQuery_none {uri : Text} (plain : '?' ∉ uri.takeWhile (· ≠ '#')) :
    getRawQuery uri = none := if_neg plain

theorem getRawQuery_some {base query : Text} (plain : '?' ∉ base) (whole : '#' ∉ base)
    (free : '#' ∉ query) : getRawQuery (base ++ '?' :: query) = some query := by
  have kept : (base ++ '?' :: query).takeWhile (· ≠ '#') = base ++ '?' :: query := by
    rw [List.takeWhile_eq_self_iff]
    intro c member
    refine decide_eq_true ?_
    rintro rfl
    simp [whole,free] at member
  have stop : ∀ c ∈ base, decide (c ≠ '?') = true := by
    intro c member
    refine decide_eq_true ?_
    rintro rfl
    exact plain member
  unfold getRawQuery
  simp only
  rw [kept,if_pos (by simp),List.dropWhile_append_of_pos stop]
  simp

/-- A fragment in front of it swallows the query. -/
theorem getRawQuery_fragment {base query : Text} (plain : '?' ∉ base) (fragment : '#' ∈ base) :
    getRawQuery (base ++ query) = none := by
  apply getRawQuery_none
  obtain ⟨rest,whole,_,_⟩ := Text.splitAt_sep fragment
  have before : ∀ c ∈ base.takeWhile (· ≠ '#'), decide (c ≠ '#') = true :=
    fun c member => @List.mem_takeWhile_imp _ (fun c => decide (c ≠ '#')) base c member
  have stop : (base ++ query).takeWhile (· ≠ '#') = base.takeWhile (· ≠ '#') := by
    conv_lhs => rw [whole]
    rw [List.append_assoc,List.takeWhile_append_of_pos before]
    simp
  rw [stop]
  intro member
  exact plain ((List.takeWhile_prefix _).subset member)

end Reading

section RoundTrip

theorem valued_eq_nil (params : List (Text × Option Text)) :
    valued params = [] ↔ ∀ param ∈ params, param.2 = none := by
  simp [valued,List.filterMap_eq_nil_iff]

theorem valued_shown (params : List (Text × Option Text)) :
    (∀ pair ∈ valued params, pair.2 ≠ []) ↔ ∀ param ∈ params, param.2 ≠ some [] := by
  unfold valued
  constructor
  · intro shown param member empty
    refine shown (param.1,[]) (List.mem_filterMap.mpr ⟨param,member,?_⟩) rfl
    rw [empty]
    rfl
  · intro shown pair member empty
    obtain ⟨param,inside,made⟩ := List.mem_filterMap.mp member
    obtain ⟨value,present,rfl⟩ := Option.map_eq_some_iff.mp made
    exact shown param inside (present.trans (congrArg some empty))

theorem intercalate_free (pairs : List (Text × Text)) :
    '#' ∉ ['&'].intercalate (pairs.map (encodePair coding)) := by
  cases pairs with
  | nil => simp
  | cons pair pairs =>
    have free (pair : Text × Text) : '#' ∉ encodePair coding pair :=
      encodePair_free coding pair (by decide) (by decide)
    rw [List.map_cons,intercalate_cons]
    simp [free]

theorem queryPart_some (base : BaseUrl) {params : List (Text × Option Text)}
    (some_ : valued params ≠ []) (whole : '#' ∉ base.text) :
    base.queryPart (withQuery coding base.text params) =
      some (['&'].intercalate ((valued params).map (encodePair coding))) := by
  unfold BaseUrl.queryPart
  rw [withQuery_some coding some_]
  by_cases empty : base.text = []
  · simp [empty]
  · rw [if_neg empty,if_neg empty,List.append_assoc,List.singleton_append]
    exact getRawQuery_some base.plain whole (intercalate_free coding _)

theorem queryPart_fragment (base : BaseUrl) {params : List (Text × Option Text)}
    (some_ : valued params ≠ []) (fragment : '#' ∈ base.text) :
    base.queryPart (withQuery coding base.text params) = none := by
  have present : base.text ≠ [] := List.ne_nil_of_mem fragment
  unfold BaseUrl.queryPart
  rw [withQuery_some coding some_,if_neg present,List.append_assoc]
  exact getRawQuery_fragment base.plain fragment

theorem parseQuery_nil (base : BaseUrl) {params : List (Text × Option Text)}
    (none_ : valued params = []) :
    parseQuery coding (base.queryPart (withQuery coding base.text params)) = some [] := by
  unfold BaseUrl.queryPart
  rw [withQuery_nil coding none_]
  by_cases empty : base.text = []
  · rw [if_pos empty,empty]
    rfl
  · have plain : '?' ∉ base.text.takeWhile (· ≠ '#') :=
      fun member => base.plain ((List.takeWhile_prefix _).subset member)
    rw [if_neg empty,getRawQuery_none plain]
    rfl

/-- Pairs come back exactly when no value is empty, on a URL without a fragment. -/
theorem roundTrips_iff (base : BaseUrl) (params : List (Text × Option Text)) :
    RoundTrips coding base params ↔ (∀ param ∈ params, param.2 = none) ∨
      ('#' ∉ base.text ∧ ∀ param ∈ params, param.2 ≠ some []) := by
  unfold RoundTrips
  rw [filter_isSome,← valued_eq_nil,← valued_shown]
  by_cases none_ : valued params = []
  · rw [parseQuery_nil coding base none_,none_]
    simp
  · by_cases fragment : '#' ∈ base.text
    · rw [queryPart_fragment coding base none_ fragment]
      simp [parseQuery,none_,fragment]
    · rw [queryPart_some coding base none_ fragment,parseQuery_pairs coding none_]
      simp [none_,fragment]

def searchUrl : BaseUrl where
  text := ("https://search.mcmod.cn/s" : String)
  plain := by decide

/-- An empty value is written as such and read as no value. -/
theorem empty_value_lost :
    ¬RoundTrips .utf8 searchUrl [(("key" : String).toList,some [])] := by
  have some_ : valued [(("key" : String).toList,some [])] ≠ [] := by decide
  unfold RoundTrips
  rw [filter_isSome,queryPart_some .utf8 searchUrl some_ (by decide),parseQuery_pairs _ some_]
  decide

end RoundTrip

end HmclPe.Io.NetworkUtils
