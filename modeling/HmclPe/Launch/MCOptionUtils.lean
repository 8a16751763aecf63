import HmclPe.Java.Text

/-! The options of the game: a map that is saved as lines and loaded from them, with lists
written into single values. -/
namespace HmclPe.Launch.MCOptionUtils
open HmclPe.Java

/-- A hash map with the order in which its keys happen to be visited. -/
structure ParameterMap where
  get : Text → Option Text
  keySet : List Text
  nodup : keySet.Nodup
  mem_keySet : ∀ key, key ∈ keySet ↔ (get key).isSome

namespace ParameterMap

/-- The same map, possibly visited in another order. -/
def Same (map other : ParameterMap) : Prop := ∀ key, map.get key = other.get key

def empty : ParameterMap where
  get _ := none
  keySet := []
  nodup := List.nodup_nil
  mem_keySet _ := by simp

def put (map : ParameterMap) (key value : Text) : ParameterMap where
  get other := if other = key then some value else map.get other
  keySet := if map.keySet.contains key then map.keySet else map.keySet ++ [key]
  nodup := by
    split
    · exact map.nodup
    · rename_i fresh
      have absent : key ∉ map.keySet := by simpa using fresh
      simpa using List.Nodup.concat absent map.nodup
  mem_keySet other := by
    by_cases same : other = key
    · by_cases present : key ∈ map.keySet <;> simp [same,present]
    · by_cases present : key ∈ map.keySet <;> simp [same,present,map.mem_keySet other]

@[simp] theorem put_get (map : ParameterMap) (key value other : Text) :
    (map.put key value).get other = if other = key then some value else map.get other := rfl

end ParameterMap

section Model

/-- `List.toString` -/
def listToString (values : List Text) : Text :=
  '[' :: ((", " : String).toList.intercalate values ++ [']'])

/-- `set` with a list of values. -/
def setList (map : ParameterMap) (key : Text) (values : List Text) : ParameterMap :=
  map.put key (listToString values)

def getAsList (map : ParameterMap) (key : Text) : List Text :=
  match map.get key with
  | none => []
  | some value =>
    let value := Text.replace ("]" : String) [] (Text.replace ("[" : String) [] value)
    if value = [] then [] else value.split ','

/-- The text that `save` writes; a null value would be written as the four letters. -/
def save (map : ParameterMap) : Text :=
  map.keySet.flatMap fun key => key ++ ':' :: Text.orNull (map.get key) ++ ['\n']

/-- `BufferedReader.readLine` until the end, with the line read so far. -/
def readLines (line : Text) : Text → List Text
  | [] => if line = [] then [] else [line]
  | '\r' :: '\n' :: s => line :: readLines [] s
  | c :: s => if c = '\n' ∨ c = '\r' then line :: readLines [] s else readLines (line ++ [c]) s

/-- Lines without a colon are passed over. -/
def loadLine (map : ParameterMap) (line : Text) : ParameterMap :=
  if ':' ∈ line then
    map.put (line.takeWhile (· ≠ ':')) ((line.dropWhile (· ≠ ':')).drop 1)
  else map

def load (text : Text) : ParameterMap := (readLines [] text).foldl loadLine .empty

end Model

/-- A text that stays on one line. -/
def OneLine (s : Text) : Prop := '\n' ∉ s ∧ '\r' ∉ s

/-- What keys and values of the options look like. -/
structure Plain (key value : Text) : Prop where
  colonFree : ':' ∉ key
  key : OneLine key
  value : OneLine value

structure Options where
  map : ParameterMap
  plain : ∀ key, ∀ value ∈ map.get key, Plain key value

structure OptionKey where
  text : Text
  some_ : text ≠ []
  colonFree : ':' ∉ text
  oneLine : OneLine text

section Lines

theorem readLines_cons (line : Text) {c : Char} (plain : c ≠ '\n' ∧ c ≠ '\r') (s : Text) :
    readLines line (c :: s) = readLines (line ++ [c]) s := by
  cases s with
  | nil => simp [readLines,plain]
  | cons d s =>
    rw [readLines,if_neg (by simp [plain])]
    intro
    simp [plain]

theorem readLines_line {s : Text} (oneLine : OneLine s) (line rest : Text) :
    readLines line (s ++ '\n' :: rest) = (line ++ s) :: readLines [] rest := by
  induction s generalizing line with
  | nil => simp [readLines]
  | cons c s ih =>
    obtain ⟨no_feed,no_return⟩ := oneLine
    simp only [List.mem_cons,not_or] at no_feed no_return
    rw [List.cons_append,readLines_cons line ⟨Ne.symm no_feed.1,Ne.symm no_return.1⟩,
      ih ⟨no_feed.2,no_return.2⟩]
    simp

/-- Lines that are written with line feeds are read again. -/
theorem readLines_flatMap {lines : List Text} (oneLine : ∀ line ∈ lines, OneLine line) :
    readLines [] (lines.flatMap (· ++ ['\n'])) = lines := by
  induction lines with
  | nil => rfl
  | cons line lines ih =>
    have cut : (line :: lines).flatMap (· ++ ['\n']) =
        line ++ '\n' :: lines.flatMap (· ++ ['\n']) := by simp
    rw [cut,readLines_line (oneLine line (by simp)),List.nil_append,
      ih fun other member => oneLine other (by simp [member])]

theorem mem_readLines {line : Text} (oneLine : OneLine line) (s : Text) :
    ∀ read ∈ readLines line s, OneLine read := by
  fun_induction readLines line s with
  | case1 => simp
  | case2 line some_ => simpa using oneLine
  | case3 line s ih =>
    intro read member
    rcases List.mem_cons.mp member with rfl | later
    · exact oneLine
    · exact ih ⟨List.not_mem_nil,List.not_mem_nil⟩ read later
  | case4 line c s other stop ih =>
    intro read member
    rcases List.mem_cons.mp member with rfl | later
    · exact oneLine
    · exact ih ⟨List.not_mem_nil,List.not_mem_nil⟩ read later
  | case5 line c s other go ih =>
    apply ih
    obtain ⟨no_feed,no_return⟩ := not_or.mp go
    exact ⟨by simp [oneLine.1,Ne.symm no_feed],by simp [oneLine.2,Ne.symm no_return]⟩

end Lines

section Reloading

def optionLine (map : ParameterMap) (key : Text) : Text := key ++ ':' :: Text.orNull (map.get key)

theorem save_eq (map : ParameterMap) :
    save map = (map.keySet.map (optionLine map)).flatMap (· ++ ['\n']) := by
  unfold save optionLine
  rw [List.flatMap_map]

theorem loadLine_colon (map : ParameterMap) {key : Text} (free : ':' ∉ key) (value : Text) :
    loadLine map (key ++ ':' :: value) = map.put key value := by
  have stop : ∀ c ∈ key, decide (c ≠ ':') = true := by
    intro c member
    refine decide_eq_true ?_
    rintro rfl
    exact free member
  unfold loadLine
  rw [if_pos (by simp),List.takeWhile_append_of_pos stop,List.dropWhile_append_of_pos stop]
  simp

namespace Options

variable (options : Options)

theorem value_of_mem {key : Text} (member : key ∈ options.map.keySet) :
    ∃ value, options.map.get key = some value ∧ Plain key value := by
  obtain ⟨value,present⟩ := Option.isSome_iff_exists.mp ((options.map.mem_keySet key).mp member)
  exact ⟨value,present,options.plain key value present⟩

theorem optionLine_oneLine {key : Text} (member : key ∈ options.map.keySet) :
    OneLine (optionLine options.map key) := by
  obtain ⟨value,present,plain⟩ := options.value_of_mem member
  unfold optionLine OneLine
  rw [present]
  simp [Text.orNull,plain.key.1,plain.key.2,plain.value.1,plain.value.2]

/-- The lines of some keys put the values of these keys. -/
theorem foldl_loadLine {keys : List Text} (inside : ∀ key ∈ keys, key ∈ options.map.keySet)
    (map : ParameterMap) (key : Text) :
    ((keys.map (optionLine options.map)).foldl loadLine map).get key =
      if key ∈ keys then options.map.get key else map.get key := by
  induction keys generalizing map with
  | nil => simp
  | cons first keys ih =>
    obtain ⟨value,present,plain⟩ := options.value_of_mem (inside first (by simp))
    have line : optionLine options.map first = first ++ ':' :: value := by
      rw [optionLine,present]
      rfl
    rw [List.map_cons,List.foldl_cons,line,loadLine_colon map plain.colonFree,
      ih fun other member => inside other (by simp [member])]
    by_cases later : key ∈ keys
    · simp [later]
    · by_cases here : key = first
      · simp [here,present]
      · simp [later,here]

/-- What was saved is loaded again. -/
theorem load_save : (load (save options.map)).Same options.map := by
  intro key
  have lines : ∀ line ∈ options.map.keySet.map (optionLine options.map), OneLine line := by
    intro line member
    obtain ⟨other,inside,rfl⟩ := List.mem_map.mp member
    exact options.optionLine_oneLine inside
  unfold load
  rw [save_eq,readLines_flatMap lines,options.foldl_loadLine fun _ member => member]
  split
  · rfl
  · rename_i absent
    rw [options.map.mem_keySet] at absent
    have none_ : options.map.get key = none := by simpa using absent
    rw [none_]
    rfl

end Options

/-- No value that is loaded has a line break. -/
theorem load_oneLine (text key : Text) : ∀ value ∈ (load text).get key, OneLine value := by
  have lines (read : List Text) (oneLine : ∀ line ∈ read, OneLine line) (map : ParameterMap)
      (before : ∀ value ∈ map.get key, OneLine value) :
      ∀ value ∈ (read.foldl loadLine map).get key, OneLine value := by
    induction read generalizing map with
    | nil => exact before
    | cons line read ih =>
      apply ih fun other member => oneLine other (by simp [member])
      unfold loadLine
      split
      · intro value member
        rw [ParameterMap.put_get] at member
        split at member
        · obtain rfl := Option.some.inj member
          have within : ∀ c ∈ (line.dropWhile (· ≠ ':')).drop 1, c ∈ line :=
            fun c inside => (List.dropWhile_suffix _).subset (List.mem_of_mem_drop inside)
          obtain ⟨no_feed,no_return⟩ := oneLine line (by simp)
          exact ⟨fun inside => no_feed (within _ inside),fun inside => no_return (within _ inside)⟩
        · exact before value member
      · exact before
  have start : OneLine [] := ⟨List.not_mem_nil,List.not_mem_nil⟩
  exact lines _ (mem_readLines start text) .empty (by simp [ParameterMap.empty])

end Reloading

section Values

/-- Replacing a character by nothing. -/
theorem replace_nil (c : Char) (s : Text) : Text.replace [c] [] s = s.filter (· ≠ c) := by
  unfold Text.replace
  induction s with
  | nil => rfl
  | cons d s ih =>
    rw [Text.replaceFrom,List.filter_cons]
    by_cases same : d = c
    · simpa [same] using ih
    · have other : ¬c = d := fun equal => same equal.symm
      simpa [same,other] using ih

def stripped (value : Text) : Text := value.filter fun c => c ≠ '[' ∧ c ≠ ']'

theorem getAsList_some {map : ParameterMap} {key value : Text}
    (present : map.get key = some value) :
    getAsList map key = if stripped value = [] then [] else (stripped value).split ',' := by
  have both : Text.replace ("]" : String) [] (Text.replace ("[" : String) [] value) =
      stripped value := by
    have second := replace_nil ']' (value.filter (· ≠ '['))
    rw [List.filter_filter,← replace_nil '[' value] at second
    unfold stripped
    refine second.trans (List.filter_congr fun c _ => ?_)
    simp [Bool.and_comm]
  unfold getAsList
  rw [present]
  simp only
  rw [both]

/-- What the reader of lists treats in a special way. -/
structure Clean (x : Text) : Prop where
  opening : '[' ∉ x
  closing : ']' ∉ x
  comma : ',' ∉ x

theorem stripped_clean {x : Text} (clean : Clean x) : stripped x = x := by
  unfold stripped
  rw [List.filter_eq_self]
  intro c member
  refine decide_eq_true ⟨?_,?_⟩
  · rintro rfl
    exact clean.opening member
  · rintro rfl
    exact clean.closing member

theorem stripped_intercalate (values : List Text) :
    stripped ((", " : String).toList.intercalate values) =
      (", " : String).toList.intercalate (values.map stripped) := by
  induction values with
  | nil => rfl
  | cons first values ih =>
    cases values with
    | nil => simp
    | cons second values =>
      rw [List.map_cons,List.map_cons,List.intercalate_cons_cons,List.intercalate_cons_cons,
        ← List.map_cons,← ih]
      simp [stripped]

theorem stripped_listToString (values : List Text) :
    stripped (listToString values) = (", " : String).toList.intercalate (values.map stripped) := by
  rw [← stripped_intercalate]
  simp [stripped,listToString]

/-- Every value that is read from a list is clean, and has only characters of the text. -/
theorem getAsList_clean {map : ParameterMap} {key : Text} :
    ∀ x ∈ getAsList map key, Clean x ∧ ∃ value ∈ map.get key, ∀ c ∈ x, c ∈ value := by
  intro x member
  cases present : map.get key with
  | none =>
    unfold getAsList at member
    rw [present] at member
    simp at member
  | some value =>
    rw [getAsList_some present] at member
    split at member
    · simp at member
    · have within : ∀ c ∈ x, c ∈ value ∧ c ≠ '[' ∧ c ≠ ']' := by
        intro c inside
        simpa [stripped] using Text.mem_of_split member inside
      have pieces := Text.split_prefix ',' (stripped value)
      refine ⟨⟨?_,?_,Text.free_of_mem_splitOn (pieces.subset member)⟩,value,rfl,?_⟩
      · exact fun inside => (within _ inside).2.1 rfl
      · exact fun inside => (within _ inside).2.2 rfl
      · exact fun c inside => (within c inside).1

end Values

section ListOptions

theorem getAsList_congr {map other : ParameterMap} (same : map.Same other) (key : Text) :
    getAsList map key = getAsList other key := by
  unfold getAsList
  rw [same key]

theorem getAsList_setList (map : ParameterMap) (key : Text) (values : List Text) :
    getAsList (setList map key values) key =
      if stripped (listToString values) = [] then []
      else (stripped (listToString values)).split ',' :=
  getAsList_some (if_pos rfl)

/-- A space is read in front of every value but the first. -/
theorem second_value {map : ParameterMap} {key first second : Text} {values : List Text}
    (clean : ∀ x ∈ first :: second :: values, Clean x) :
    getAsList (setList map key (first :: second :: values)) key ≠ first :: second :: values := by
  have text : stripped (listToString (first :: second :: values)) =
      first ++ ',' :: ' ' :: (", " : String).toList.intercalate (second :: values) := by
    have same : (first :: second :: values).map stripped = first :: second :: values := by
      conv_rhs => rw [← List.map_id (first :: second :: values)]
      exact List.map_congr_left fun x member => stripped_clean (clean x member)
    rw [stripped_listToString,same,List.intercalate_cons_cons]
    simp
  intro back
  rw [getAsList_setList,text,if_neg (by simp)] at back
  have pieces := Text.split_prefix ',' (first ++ ',' :: ' ' ::
    (", " : String).toList.intercalate (second :: values))
  rw [back,List.splitOn_append_cons_self_of_not_mem (clean first (by simp)).comma] at pieces
  have free : ',' ∉ ' ' :: second := by simp [(clean second (by simp)).comma]
  have tail : ∃ more, (' ' :: (", " : String).toList.intercalate (second :: values)).splitOn ',' =
      (' ' :: second) :: more := by
    cases values with
    | nil => exact ⟨[],by simpa using List.splitOn_eq_singleton free⟩
    | cons third values =>
      refine ⟨(' ' :: (", " : String).toList.intercalate (third :: values)).splitOn ',',?_⟩
      rw [List.intercalate_cons_cons]
      simpa using List.splitOn_append_cons_self_of_not_mem free
        (' ' :: (", " : String).toList.intercalate (third :: values))
  obtain ⟨more,cut⟩ := tail
  rw [cut] at pieces
  have longer := (List.cons_prefix_cons.mp (List.cons_prefix_cons.mp pieces).2).1
  simpa using congrArg List.length longer

theorem single_value {map : ParameterMap} {key x : Text} (clean : Clean x) :
    getAsList (setList map key [x]) key = if x = [] then [] else [x] := by
  have text : stripped (listToString [x]) = x := by
    rw [stripped_listToString]
    simpa using stripped_clean clean
  rw [getAsList_setList,text,Text.split_free clean.comma]

/-- A list comes back when it is empty, or one clean value that is not empty. -/
theorem getAsList_iff (map : ParameterMap) (key : Text) (values : List Text) :
    getAsList (setList map key values) key = values ↔
      values = [] ∨ ∃ x, values = [x] ∧ x ≠ [] ∧ Clean x := by
  constructor
  · intro back
    have clean : ∀ x ∈ values, Clean x := by
      intro x member
      rw [← back] at member
      exact (getAsList_clean x member).1
    match values with
    | [] => exact Or.inl rfl
    | [x] =>
      refine Or.inr ⟨x,rfl,?_,clean x (by simp)⟩
      intro empty
      rw [single_value (clean x (by simp)),if_pos empty] at back
      simp at back
    | first :: second :: values => exact absurd back (second_value clean)
  · rintro (rfl | ⟨x,rfl,some_,clean⟩)
    · rw [getAsList_setList]
      rfl
    · rw [single_value clean,if_neg some_]

/-- Options and lists survive the file, whatever the order in which the map is visited. -/
structure Faithful (options : Options) (key : OptionKey) (values : List Text) : Prop where
  reload : ∀ saved : ParameterMap, saved.Same options.map →
    (load (save saved)).Same options.map
  list : getAsList (setList options.map key.text values) key.text = values
  reloadList : ∀ saved : ParameterMap, saved.Same (setList options.map key.text values) →
    getAsList (load (save saved)) key.text = values

/-- A list in one line leaves plain options. -/
def Options.setList (options : Options) (key : OptionKey) (values : List Text)
    (oneLine : OneLine (listToString values)) : Options where
  map := MCOptionUtils.setList options.map key.text values
  plain other value member := by
    unfold MCOptionUtils.setList at member
    rw [ParameterMap.put_get] at member
    split at member
    · rename_i same
      obtain rfl := Option.some.inj member
      rw [same]
      exact ⟨key.colonFree,key.oneLine,oneLine⟩
    · exact options.plain other value member

/-- The same options, visited in another order. -/
def Options.visit (options : Options) (saved : ParameterMap) (same : saved.Same options.map) :
    Options where
  map := saved
  plain key value member := options.plain key value (by rwa [← same key])

theorem Options.reload (options : Options) {saved : ParameterMap}
    (same : saved.Same options.map) : (load (save saved)).Same options.map :=
  fun key => ((options.visit saved same).load_save key).trans (same key)

theorem Options.reloadList (options : Options) (key : OptionKey) {values : List Text}
    (oneLine : OneLine (listToString values)) {saved : ParameterMap}
    (same : saved.Same (MCOptionUtils.setList options.map key.text values)) :
    getAsList (load (save saved)) key.text =
      getAsList (MCOptionUtils.setList options.map key.text values) key.text :=
  getAsList_congr ((options.setList key values oneLine).reload same) key.text

theorem listToString_oneLine {values : List Text}
    (shape : values = [] ∨ ∃ x, values = [x] ∧ OneLine x) : OneLine (listToString values) := by
  rcases shape with rfl | ⟨x,rfl,no_feed,no_return⟩
  · exact ⟨by decide,by decide⟩
  · simp [OneLine,listToString,no_feed,no_return]

/-- Options survive the file, and a list survives exactly when it is empty or one clean
value in one line that is not empty. -/
theorem faithful_iff (options : Options) (key : OptionKey) (values : List Text) :
    Faithful options key values ↔
      values = [] ∨ ∃ x, values = [x] ∧ x ≠ [] ∧ Clean x ∧ OneLine x := by
  constructor
  · intro faithful
    rcases (getAsList_iff _ _ _).mp faithful.list with none_ | ⟨x,rfl,some_,clean⟩
    · exact Or.inl none_
    · refine Or.inr ⟨x,rfl,some_,clean,?_⟩
      have back := faithful.reloadList (setList options.map key.text [x]) fun _ => rfl
      have member : x ∈ getAsList (load (save (setList options.map key.text [x]))) key.text := by
        rw [back]
        exact List.mem_singleton_self x
      obtain ⟨_,value,loaded,within⟩ := getAsList_clean x member
      obtain ⟨no_feed,no_return⟩ := load_oneLine _ _ value loaded
      exact ⟨fun inside => no_feed (within _ inside),fun inside => no_return (within _ inside)⟩
  · intro shape
    have direct : getAsList (setList options.map key.text values) key.text = values :=
      (getAsList_iff _ _ _).mpr
        (shape.imp_right fun ⟨x,single,some_,clean,_⟩ => ⟨x,single,some_,clean⟩)
    have oneLine := listToString_oneLine
      (shape.imp_right fun ⟨x,single,_,_,oneLine⟩ => ⟨x,single,oneLine⟩)
    exact ⟨fun _ same => options.reload same,direct,
      fun _ same => (options.reloadList key oneLine same).trans direct⟩

def resourcePacks : OptionKey where
  text := ("resourcePacks" : String)
  some_ := by decide
  colonFree := by decide
  oneLine := ⟨by decide,by decide⟩

def noOptions : Options where
  map := .empty
  plain key value member := by simp [ParameterMap.empty] at member

/-- A list of two values is written with a blank that is read as part of the second one. -/
theorem blank_before_second :
    ¬Faithful noOptions resourcePacks [("vanilla" : String),("faithful" : String)] ∧
      getAsList (setList noOptions.map resourcePacks.text
        [("vanilla" : String),("faithful" : String)]) resourcePacks.text =
          [("vanilla" : String),(" faithful" : String)] := by
  have read : getAsList (setList noOptions.map resourcePacks.text
      [("vanilla" : String),("faithful" : String)]) resourcePacks.text =
        [("vanilla" : String),(" faithful" : String)] := by decide +kernel
  refine ⟨?_,read⟩
  intro faithful
  have back := faithful.list
  rw [read] at back
  exact absurd back (by decide)

end ListOptions

end HmclPe.Launch.MCOptionUtils
