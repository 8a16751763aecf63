import HmclPe.Java.TimSort
import HmclPe.Mods.LongestCommonSubsequence
import Mathlib.Data.List.DropRight

/-! The translations of mod names, which are read from a resource when they are asked for, and the
search in them. -/
namespace HmclPe.Mods.ModTranslations
open HmclPe.Lib.Subsequences HmclPe.Versioning HmclPe.Java.TimSort

section Model

structure Mod where
  curseforge : JavaString
  mcmod : JavaString
  mcbbs : JavaString
  modIds : List JavaString
  name : JavaString
  subname : JavaString
  abbr : JavaString
deriving DecidableEq

/-- The content is none where it can not be read. -/
structure Resource where
  resourceName : JavaString
  content : Option JavaString

abbrev Keyword := JavaString × Mod

/-- Fields are none until they are loaded. -/
structure Translations where
  mods : Option (List Mod)
  modIdMap : Option (JavaString → Option Mod)
  curseForgeMap : Option (JavaString → Option Mod)
  keywords : Option (List Keyword)
  maxKeywordLength : Int

def Translations.new : Translations := ⟨none,none,none,none,-1⟩

def isNotBlank (str : JavaString) : Bool := str.any fun c => 32 < c.val

/-- `Character.isSpaceChar`: the separators of spaces, lines and paragraphs. -/
def spaceChars : List Nat :=
  [0x20,0xa0,0x1680,0x2000,0x2001,0x2002,0x2003,0x2004,0x2005,0x2006,0x2007,0x2008,0x2009,0x200a,
    0x2028,0x2029,0x202f,0x205f,0x3000]

def isSpaceChar (ch : CodeUnit) : Bool := spaceChars.contains ch.val

/-- `String.split` with the limit 0. -/
def split (separator : CodeUnit) (str : JavaString) : List JavaString :=
  if List.contains str separator then (str.splitOn separator).rdropWhile List.isEmpty else [str]

def newline : CodeUnit := ⟨10,by decide⟩
def semicolon : CodeUnit := ⟨59,by decide⟩
def comma : CodeUnit := ⟨44,by decide⟩

/-- None is the exception about a line with more or less than 7 items. -/
def Mod.ofLine (line : JavaString) : Option Mod :=
  match line.splitOn semicolon with
  | [curseforge,mcmod,mcbbs,modIds,name,subname,abbr] =>
    some ⟨curseforge,mcmod,mcbbs,split comma modIds,name,subname,abbr⟩
  | _ => none

def readMods (modData : JavaString) : Option (List Mod) :=
  ((split newline modData).filter fun line => !(codeUnits "#").isPrefixOf line).mapM Mod.ofLine

variable (resource : Resource)

def loadFromResource (translations : Translations) : Bool × Translations :=
  if translations.mods.isSome then (true,translations)
  else if !isNotBlank resource.resourceName then (true,{translations with mods := some []})
  else
    match resource.content.bind readMods with
    | some mods => (true,{translations with mods := some mods})
    | none => (false,translations)

/-- What the three loaders do first. -/
def loadMods (translations : Translations) : Bool × Translations :=
  if translations.mods.isNone then loadFromResource resource translations else (true,translations)

def putCurseForge (map : JavaString → Option Mod) (mod : Mod) : JavaString → Option Mod :=
  if isNotBlank mod.curseforge then Function.update map mod.curseforge (some mod) else map

def loadCurseForgeMap (translations : Translations) : Bool × Translations :=
  if translations.curseForgeMap.isSome then (true,translations)
  else
    match loadMods resource translations with
    | (false,translations) => (false,translations)
    | (true,translations) =>
      (true,{translations with
        curseForgeMap := some ((translations.mods.getD []).foldl putCurseForge fun _ => none)})

def putModId (mod : Mod) (map : JavaString → Option Mod) (id : JavaString) :
    JavaString → Option Mod :=
  if isNotBlank id && id != codeUnits "examplemod" then Function.update map id (some mod) else map

def loadModIdMap (translations : Translations) : Bool × Translations :=
  if translations.modIdMap.isSome then (true,translations)
  else
    match loadMods resource translations with
    | (false,translations) => (false,translations)
    | (true,translations) =>
      (true,{translations with
        modIdMap := some ((translations.mods.getD []).foldl
          (fun map mod => mod.modIds.foldl (putModId mod) map) fun _ => none)})

/-- The keywords so far and the length of the longest. -/
def addKeyword (mod : Mod) (loaded : List Keyword × Int) (text : JavaString) : List Keyword × Int :=
  if isNotBlank text then (loaded.1 ++ [(text,mod)],max loaded.2 text.length) else loaded

def addMod (loaded : List Keyword × Int) (mod : Mod) : List Keyword × Int :=
  [mod.name,mod.subname,mod.abbr].foldl (addKeyword mod) loaded

def loadKeywords (translations : Translations) : Bool × Translations :=
  if translations.keywords.isSome then (true,translations)
  else
    match loadMods resource translations with
    | (false,translations) => (false,translations)
    | (true,translations) =>
      let (keywords,maxKeywordLength) := (translations.mods.getD []).foldl addMod ([],-1)
      (true,{translations with keywords := some keywords, maxKeywordLength})

/-- The array and the mods with their values so far; none is an exception. -/
def rateKeyword (query : JavaString) (state : LongestCommonSubsequence × List (Nat × Mod))
    (keyword : Keyword) : Option (LongestCommonSubsequence × List (Nat × Mod)) := do
  let (value,lcs) ← state.1.calculate query keyword.1
  return (lcs,if (value : Int) ≥ max 1 ((query.length : Int) - 3) then
    state.2 ++ [(value,keyword.2)] else state.2)

/-- The sort of a stream is stable. -/
def searchMod (query : JavaString) (translations : Translations) :
    Option (List Mod) × Translations :=
  match loadKeywords resource translations with
  | (false,translations) => (some [],translations)
  | (true,translations) =>
    let query := query.filter fun ch => !isSpaceChar ch
    let lcs := LongestCommonSubsequence.new query.length translations.maxKeywordLength
    let rated := (translations.keywords.getD []).foldlM (rateKeyword query) (lcs,[])
    (rated.map fun state => (state.2.mergeSort fun a b => b.1 ≤ a.1).map Prod.snd,translations)

def getModByCurseForgeId (id : JavaString) (translations : Translations) :
    Option Mod × Translations :=
  if !isNotBlank id then (none,translations)
  else
    match loadCurseForgeMap resource translations with
    | (false,translations) => (none,translations)
    | (true,translations) => (translations.curseForgeMap.bind fun map => map id,translations)

def getModById (id : JavaString) (translations : Translations) : Option Mod × Translations :=
  if !isNotBlank id then (none,translations)
  else
    match loadModIdMap resource translations with
    | (false,translations) => (none,translations)
    | (true,translations) => (translations.modIdMap.bind fun map => map id,translations)

inductive Call
  | searchMod (query : JavaString)
  | getModByCurseForgeId (id : JavaString)
  | getModById (id : JavaString)

def perform (translations : Translations) : Call → Translations
  | .searchMod query => (searchMod resource query translations).2
  | .getModByCurseForgeId id => (getModByCurseForgeId resource id translations).2
  | .getModById id => (getModById resource id translations).2

end Model

section Table

/-- The mods of the resource, where it can be loaded. -/
def table (resource : Resource) : Option (List Mod) :=
  if !isNotBlank resource.resourceName then some [] else resource.content.bind readMods

def keywordsOf (mods : List Mod) : List Keyword :=
  mods.flatMap fun mod => ([mod.name,mod.subname,mod.abbr].filter isNotBlank).map fun text => (text,mod)

def withoutSpaces (query : JavaString) : JavaString := query.filter fun ch => !isSpaceChar ch

/-- The mods of the keywords with a value, the value being the length of a longest common
subsequence, from the highest value down to the lowest that is enough. -/
def found (mods : List Mod) (query : JavaString) : List Mod :=
  (List.range (query.length + 1)).reverse.flatMap fun value =>
    if max 1 (query.length - 3) ≤ value then
      ((keywordsOf mods).filter fun keyword => longestCommon query keyword.1 = value).map Prod.snd
    else []

def longest (keywords : List Keyword) (bound : Int) : Int :=
  keywords.foldl (fun longest keyword => max longest keyword.1.length) bound

/-- What is loaded is what the resource holds. -/
structure Consistent (resource : Resource) (translations : Translations) : Prop where
  mods : ∀ mods, translations.mods = some mods → table resource = some mods
  keywords : ∀ keywords, translations.keywords = some keywords → ∃ mods,
    table resource = some mods ∧ keywords = keywordsOf mods ∧
      translations.maxKeywordLength = longest keywords (-1)

variable {resource : Resource} {translations : Translations}

theorem new_consistent : Consistent resource Translations.new where
  mods _ impossible := by cases impossible
  keywords _ impossible := by cases impossible

theorem loadMods_eq (consistent : Consistent resource translations) :
    loadMods resource translations =
      ((table resource).isSome,{translations with mods := table resource}) := by
  obtain ⟨mods,modIdMap,curseForgeMap,keywords,maxKeywordLength⟩ := translations
  cases mods with
  | some mods =>
    rw [consistent.mods mods rfl]
    rfl
  | none =>
    rw [loadMods,loadFromResource,table]
    cases isNotBlank resource.resourceName with
    | false => rfl
    | true =>
      cases resource.content.bind readMods <;> rfl

theorem loadMods_consistent (consistent : Consistent resource translations) :
    Consistent resource {translations with mods := table resource} where
  mods _ same := same
  keywords := consistent.keywords

end Table

section Keywords
variable {resource : Resource} {translations : Translations}

theorem foldl_addKeyword (mod : Mod) (texts : List JavaString) (loaded : List Keyword × Int) :
    texts.foldl (addKeyword mod) loaded =
      (loaded.1 ++ (texts.filter isNotBlank).map (fun text => (text,mod)),
        longest ((texts.filter isNotBlank).map fun text => (text,mod)) loaded.2) := by
  induction texts generalizing loaded with
  | nil =>
    rw [List.foldl_nil,List.filter_nil,List.map_nil,List.append_nil]
    rfl
  | cons text texts ih =>
    rw [List.foldl_cons,ih,addKeyword,List.filter_cons]
    split
    · rw [List.append_assoc,List.map_cons]
      rfl
    · rfl

theorem keywordsOf_cons (mod : Mod) (mods : List Mod) :
    keywordsOf (mod :: mods) =
      ([mod.name,mod.subname,mod.abbr].filter isNotBlank).map (fun text => (text,mod)) ++
        keywordsOf mods := List.flatMap_cons

theorem longest_append (keywords later : List Keyword) (bound : Int) :
    longest (keywords ++ later) bound = longest later (longest keywords bound) := List.foldl_append

theorem foldl_addMod (mods : List Mod) (loaded : List Keyword × Int) :
    mods.foldl addMod loaded = (loaded.1 ++ keywordsOf mods,longest (keywordsOf mods) loaded.2) := by
  induction mods generalizing loaded with
  | nil =>
    rw [List.foldl_nil,keywordsOf,List.flatMap_nil,List.append_nil]
    rfl
  | cons mod mods ih =>
    rw [List.foldl_cons,ih,addMod,foldl_addKeyword,keywordsOf_cons,List.append_assoc,
      longest_append]

theorem le_longest (keywords : List Keyword) (bound : Int) :
    bound ≤ longest keywords bound ∧
      ∀ keyword ∈ keywords, (keyword.1.length : Int) ≤ longest keywords bound := by
  induction keywords generalizing bound with
  | nil => exact ⟨le_rfl,fun _ member => absurd member List.not_mem_nil⟩
  | cons first keywords ih =>
    obtain ⟨above,inside⟩ := ih (max bound first.1.length)
    refine ⟨(le_max_left _ _).trans above,?_⟩
    intro keyword member
    rcases List.mem_cons.mp member with rfl | later
    · exact (le_max_right _ _).trans above
    · exact inside keyword later

/-- The keywords of the table are there once it is loaded. -/
theorem loadKeywords_spec (consistent : Consistent resource translations) :
    ∃ loaded, loadKeywords resource translations = ((table resource).isSome,loaded) ∧
      Consistent resource loaded ∧
      ∀ mods, table resource = some mods → loaded.keywords = some (keywordsOf mods) ∧
        loaded.maxKeywordLength = longest (keywordsOf mods) (-1) := by
  rw [loadKeywords]
  split
  · next some_ =>
    obtain ⟨keywords,there⟩ := Option.isSome_iff_exists.mp some_
    obtain ⟨mods,known,rfl,length⟩ := consistent.keywords keywords there
    refine ⟨translations,by rw [known]; rfl,consistent,?_⟩
    intro mods' same
    obtain rfl := Option.some.inj (known.symm.trans same)
    exact ⟨there,length⟩
  · rw [loadMods_eq consistent]
    cases known : table resource with
    | none =>
      refine ⟨_,rfl,known ▸ loadMods_consistent consistent,?_⟩
      intro mods impossible
      cases impossible
    | some mods =>
      have loaded : mods.foldl addMod ([],-1) = (keywordsOf mods,longest (keywordsOf mods) (-1)) :=
        foldl_addMod mods ([],-1)
      simp only [Option.isSome_some,Option.getD_some,loaded]
      refine ⟨_,rfl,⟨?_,?_⟩,?_⟩
      · intro mods' same
        rw [known]
        exact same
      · intro keywords same
        obtain rfl := Option.some.inj same
        exact ⟨mods,known,rfl,rfl⟩
      · intro mods' same
        obtain rfl := Option.some.inj same
        exact ⟨rfl,rfl⟩

end Keywords

section Search
variable {resource : Resource} {translations : Translations} {query : JavaString}

def rate (query : JavaString) (keyword : Keyword) : Nat × Mod :=
  (longestCommon query keyword.1,keyword.2)

def enough (query : JavaString) (rated : Nat × Mod) : Bool :=
  (rated.1 : Int) ≥ max 1 ((query.length : Int) - 3)

theorem rateKeyword_eq {lcs lcs' : LongestCommonSubsequence} {keyword : Keyword}
    (value : lcs.calculate query keyword.1 = some (longestCommon query keyword.1,lcs'))
    (modList : List (Nat × Mod)) :
    rateKeyword query (lcs,modList) keyword =
      some (lcs',modList ++ [rate query keyword].filter (enough query)) := by
  have unfolded : rateKeyword query (lcs,modList) keyword = some (lcs',
      if (longestCommon query keyword.1 : Int) ≥ max 1 ((query.length : Int) - 3) then
        modList ++ [rate query keyword] else modList) := by
    rw [rateKeyword,value]
    rfl
  rw [unfolded,List.filter_singleton,enough,rate]
  split
  · next passes => rw [decide_eq_true passes]; rfl
  · next fails =>
    rw [decide_eq_false fails]
    exact congrArg (fun list => some (lcs',list)) (List.append_nil modList).symm

/-- The array is large enough for the query and all keywords. -/
theorem rateKeywords_eq (keywords : List Keyword) {lcs : LongestCommonSubsequence}
    (bordered : lcs.Bordered) (fitsQuery : (query.length : Int) ≤ lcs.maxLengthA)
    (fits : ∀ keyword ∈ keywords, (keyword.1.length : Int) ≤ lcs.maxLengthB)
    (modList : List (Nat × Mod)) :
    (keywords.foldlM (rateKeyword query) (lcs,modList)).map Prod.snd =
      some (modList ++ (keywords.map (rate query)).filter (enough query)) := by
  induction keywords generalizing lcs modList with
  | nil => exact congrArg some (List.append_nil _).symm
  | cons keyword keywords ih =>
    obtain ⟨here,later⟩ := List.forall_mem_cons.mp fits
    obtain ⟨lcs',value,same,bordered'⟩ :=
      LongestCommonSubsequence.calculate_eq fitsQuery here bordered
    rw [List.foldlM_cons,rateKeyword_eq value,Option.bind_eq_bind,Option.bind_some,
      ih bordered' (same.a ▸ fitsQuery) (same.b ▸ later),List.append_assoc,← List.filter_append]
    rfl

/-- The rated mods in their order are those that are to be found. -/
theorem sorted_eq_found (mods : List Mod) (query : JavaString) :
    ((((keywordsOf mods).map (rate query)).filter (enough query)).mergeSort
      fun a b => b.1 ≤ a.1).map Prod.snd = found mods query := by
  have below : ∀ rated ∈ ((keywordsOf mods).map (rate query)).filter (enough query),
      rated.1 < query.length + 1 := by
    intro rated member
    obtain ⟨keyword,-,rfl⟩ := List.mem_map.mp (List.mem_filter.mp member).1
    exact Nat.lt_succ_of_le (longestCommon_le_left query keyword.1)
  rw [mergeSort_descending below,ranked,found,List.map_flatMap]
  apply List.flatMap_congr
  intro value _
  have passes : ∀ keyword, longestCommon query keyword.1 = value →
      (enough query (rate query keyword) = true ↔ max 1 (query.length - 3) ≤ value) := by
    intro keyword same
    rw [enough,rate,same,decide_eq_true_iff]
    omega
  rw [List.filter_filter,List.filter_map,List.map_map]
  split
  · next high =>
    refine congrArg (List.map Prod.snd) (List.filter_congr ?_)
    intro keyword _
    rw [Bool.eq_iff_iff,Function.comp_apply,Bool.and_eq_true,decide_eq_true_iff,decide_eq_true_iff]
    constructor
    · rintro ⟨same,-⟩
      exact same
    · intro same
      exact ⟨same,(passes keyword same).mpr high⟩
  · next low =>
    rw [List.map_eq_nil_iff,List.filter_eq_nil_iff]
    intro keyword _ both
    rw [Function.comp_apply,Bool.and_eq_true,decide_eq_true_iff] at both
    exact low ((passes keyword both.1).mp both.2)

theorem searchMod_eq (consistent : Consistent resource translations) (query : JavaString) :
    (searchMod resource query translations).1 =
      some ((table resource).elim [] fun mods => found mods (withoutSpaces query)) := by
  obtain ⟨loaded,done,-,known⟩ := loadKeywords_spec consistent
  rw [searchMod,done]
  cases there : table resource with
  | none => rfl
  | some mods =>
    obtain ⟨keywords,length⟩ := known mods there
    have fits : ∀ keyword ∈ keywordsOf mods,
        (keyword.1.length : Int) ≤ loaded.maxKeywordLength := by
      rw [length]
      exact (le_longest (keywordsOf mods) (-1)).2
    have rated := rateKeywords_eq (keywordsOf mods) (LongestCommonSubsequence.new_bordered
      (withoutSpaces query).length loaded.maxKeywordLength) le_rfl fits []
    obtain ⟨state,filled,list⟩ := Option.map_eq_some_iff.mp rated
    have sorted := sorted_eq_found mods (withoutSpaces query)
    rw [← List.nil_append (List.filter _ _),← list] at sorted
    simp only [Option.isSome_some,keywords,Option.getD_some,Option.elim_some]
    rw [← sorted]
    exact congrArg (Option.map _) filled

theorem loadCurseForgeMap_consistent (consistent : Consistent resource translations) :
    Consistent resource (loadCurseForgeMap resource translations).2 := by
  have loads := loadMods_consistent consistent
  rw [loadCurseForgeMap]
  split
  · exact consistent
  · rw [loadMods_eq consistent]
    cases (table resource).isSome <;> exact ⟨loads.mods,loads.keywords⟩

theorem loadModIdMap_consistent (consistent : Consistent resource translations) :
    Consistent resource (loadModIdMap resource translations).2 := by
  have loads := loadMods_consistent consistent
  rw [loadModIdMap]
  split
  · exact consistent
  · rw [loadMods_eq consistent]
    cases (table resource).isSome <;> exact ⟨loads.mods,loads.keywords⟩

theorem perform_consistent (consistent : Consistent resource translations) (call : Call) :
    Consistent resource (perform resource translations call) := by
  cases call with
  | searchMod query =>
    obtain ⟨loaded,done,kept,-⟩ := loadKeywords_spec consistent
    rw [perform,searchMod,done]
    cases table resource <;> exact kept
  | getModByCurseForgeId id =>
    have kept := loadCurseForgeMap_consistent consistent
    rw [perform,getModByCurseForgeId]
    split
    · exact consistent
    · generalize loadCurseForgeMap resource translations = loaded at kept ⊢
      obtain ⟨found,loaded⟩ := loaded
      cases found <;> exact kept
  | getModById id =>
    have kept := loadModIdMap_consistent consistent
    rw [perform,getModById]
    split
    · exact consistent
    · generalize loadModIdMap resource translations = loaded at kept ⊢
      obtain ⟨found,loaded⟩ := loaded
      cases found <;> exact kept

/-- Whatever was asked before, a search finds the mods of the table that it is to find. -/
theorem searchMod_after (resource : Resource) (calls : List Call) (query : JavaString) :
    (searchMod resource query (calls.foldl (perform resource) Translations.new)).1 =
      some ((table resource).elim [] fun mods => found mods (withoutSpaces query)) := by
  apply searchMod_eq
  induction calls using List.reverseRecOn with
  | nil => exact new_consistent
  | append_singleton calls call ih =>
    rw [List.foldl_append]
    exact perform_consistent ih call

end Search

end HmclPe.Mods.ModTranslations
