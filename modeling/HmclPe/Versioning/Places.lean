import Mathlib.Data.List.Forall2
import Mathlib.Data.List.ReduceOption
import HmclPe.Versioning.Canonical

/-! A version as its letters and numbers, each with the separators before it. Of a separator the
order sees whether it is a dot, and the canonical text shows it if it is a mark. -/
namespace HmclPe.Versioning
open HmclPe.Lib.VoidEnds Lexeme

inductive Glyph where
  | letter (c : CodeUnit)
  | number (value : Nat)
  deriving DecidableEq

/-- Which separators are dots; the others open a sub-list each. -/
def stepsOf (gap : List (Option CodeUnit)) : List Bool :=
  gap.map fun separator => separator = some dot

/-- A turn between digits and letters separates without a mark. -/
structure Place where
  gap : List (Option CodeUnit)
  glyph : Glyph
  deriving DecidableEq

namespace Place

def steps (p : Place) : List Bool := stepsOf p.gap

def marks (p : Place) : List CodeUnit := p.gap.reduceOption

/-- What the order sees. -/
def level (p : Place) : Glyph × List Bool := (p.glyph,p.steps)

/-- What the canonical text shows. -/
def shown (p : Place) : Glyph × List CodeUnit := (p.glyph,p.marks)

end Place

/-- The letters of a string stand without a gap. -/
def spell (gap : List (Option CodeUnit)) : JavaString → List Place
  | [] => []
  | c :: rest => ⟨gap,.letter c⟩ :: spell [] rest

mutual

def Item.places (gap : List (Option CodeUnit)) : Item → List Place
  | .integer value => [⟨gap,.number value⟩]
  | .string value => spell gap value
  | .list separator items => Versioning.places (gap ++ [separator]) false items

/-- A dot stands before an item that is not a list and has one before it. -/
def places (gap : List (Option CodeUnit)) (behind : Bool) : List Item → List Place
  | [] => []
  | item :: rest =>
    item.places (if behind && !item.isList then [some dot] else gap) ++ places [] true rest

end

def versionPlaces (version : JavaString) : List Place := places [] false (parseVersion version)

/-- The zero is dropped, but both turns beside it open a sub-list. -/
example : versionPlaces (codeUnits "a0b.2") =
    [⟨[],.letter 97⟩,⟨[none,none],.letter 98⟩,⟨[some dot],.number 2⟩] := by decide +kernel

/-- The same letters and numbers on the same levels, with another mark somewhere. -/
structure Remarked (a b : JavaString) : Prop where
  levels : (versionPlaces a).map Place.level = (versionPlaces b).map Place.level
  differs : ∃ p ∈ (versionPlaces a).zip (versionPlaces b), p.1.marks ≠ p.2.marks

/-- The same letters and numbers behind the same marks, with more sub-lists opened somewhere. -/
structure Regrouped (a b : JavaString) : Prop where
  shown : (versionPlaces a).map Place.shown = (versionPlaces b).map Place.shown
  differs : ∃ p ∈ (versionPlaces a).zip (versionPlaces b), p.1.steps ≠ p.2.steps

theorem map_eq_map_iff_zip {α β : Type} {f : α → β} {l l' : List α} :
    l.map f = l'.map f ↔ l.length = l'.length ∧ ∀ p ∈ l.zip l', f p.1 = f p.2 := by
  rw [← List.forall₂_eq_eq_eq,List.forall₂_map_left_iff,List.forall₂_map_right_iff,
    List.forall₂_iff_zip]
  exact and_congr_right fun _ => ⟨fun all p inside => all inside,fun all _ _ inside => all _ inside⟩

/-- Where the levels agree the marks decide. -/
theorem Remarked.iff {a b : JavaString}
    (levels : (versionPlaces a).map Place.level = (versionPlaces b).map Place.level) :
    ¬Remarked a b ↔ (versionPlaces a).map Place.shown = (versionPlaces b).map Place.shown := by
  obtain ⟨length,same⟩ := map_eq_map_iff_zip.mp levels
  rw [map_eq_map_iff_zip,and_iff_right length]
  constructor
  · intro clean p inside
    have glyph := congrArg Prod.fst (same p inside)
    have marks : p.1.marks = p.2.marks := by
      by_contra differs
      exact clean ⟨levels,p,inside,differs⟩
    exact Prod.ext glyph marks
  · rintro shown ⟨_,p,inside,differs⟩
    exact differs (congrArg Prod.snd (shown p inside))

/-- Where the texts agree the openings decide. -/
theorem Regrouped.iff {a b : JavaString}
    (shown : (versionPlaces a).map Place.shown = (versionPlaces b).map Place.shown) :
    ¬Regrouped a b ↔ (versionPlaces a).map Place.level = (versionPlaces b).map Place.level := by
  obtain ⟨length,same⟩ := map_eq_map_iff_zip.mp shown
  rw [map_eq_map_iff_zip,and_iff_right length]
  constructor
  · intro clean p inside
    have glyph := congrArg Prod.fst (same p inside)
    have steps : p.1.steps = p.2.steps := by
      by_contra differs
      exact clean ⟨shown,p,inside,differs⟩
    exact Prod.ext glyph steps
  · rintro levels ⟨_,p,inside,differs⟩
    exact differs (congrArg Prod.snd (levels p inside))

section Spelling

theorem spell_append {gap : List (Option CodeUnit)} {s : JavaString} (some_ : s ≠ [])
    (t : JavaString) : spell gap (s ++ t) = spell gap s ++ spell [] t := by
  induction s generalizing gap with
  | nil => exact absurd rfl some_
  | cons c s ih =>
    by_cases last : s = []
    · rw [last]
      rfl
    · exact congrArg (Place.mk gap (.letter c) :: ·) (ih last)

/-- A view of the places that goes by the gaps one by one sees the gap before a string only. -/
theorem spell_map {β : Type} {view : Place → β} {gap gap' : List (Option CodeUnit)}
    (same : ∀ glyph, view ⟨gap,glyph⟩ = view ⟨gap',glyph⟩) (s : JavaString) :
    (spell gap s).map view = (spell gap' s).map view := by
  cases s with
  | nil => rfl
  | cons c s => exact congrArg (· :: (spell [] s).map view) (same _)

end Spelling

section Levels

/-- The places of tokens, without the marks. -/
def placesOfTokens (gap : List (Option CodeUnit)) (behind : Bool) : List Token → List Place
  | [] => []
  | .opening :: rest => placesOfTokens (gap ++ [none]) false rest
  | .integer value :: rest =>
    ⟨if behind then [some dot] else gap,.number value⟩ :: placesOfTokens [] true rest
  | .string value :: rest =>
    spell (if behind then [some dot] else gap) value ++ placesOfTokens [] true rest

theorem stepsOf_append (gap gap' : List (Option CodeUnit)) :
    stepsOf (gap ++ gap') = stepsOf gap ++ stepsOf gap' := List.map_append

theorem level_congr {gap gap' : List (Option CodeUnit)}
    (same : stepsOf gap = stepsOf gap')
    (glyph : Glyph) : Place.level ⟨gap,glyph⟩ = Place.level ⟨gap',glyph⟩ :=
  congrArg (Prod.mk glyph) same

theorem mark_ne_dot {separator : Option CodeUnit} (mark : ∀ c ∈ separator, c ∈ punctuation) :
    separator ≠ some dot := by
  rintro rfl
  exact absurd (mark dot rfl) (by decide)

theorem levels_places {items : List Item} (normal : Normal items) (behind : Bool)
    {gap gap' : List (Option CodeUnit)}
    (same : stepsOf gap = stepsOf gap') :
    (places gap behind items).map Place.level =
      (placesOfTokens gap' behind (tokens items)).map Place.level := by
  have before : stepsOf (if behind then [some dot] else gap) =
      stepsOf (if behind then [some dot] else gap') := by
    cases behind
    · exact same
    · rfl
  induction normal generalizing behind gap gap' with
  | nil => rfl
  | @integer value rest tail zero turn ih =>
    have later := @ih true [] [] rfl rfl
    have here := level_congr before (.number value)
    simpa [places,Item.places,Item.isList,tokens,Item.tokens,placesOfTokens,later] using here
  | @string value rest shown letters tail ih =>
    have later := @ih true [] [] rfl rfl
    have here := spell_map (level_congr before) value
    simpa [places,Item.places,Item.isList,tokens,Item.tokens,placesOfTokens,later] using here
  | @list separator items some_ mark inner ih =>
    have opened : stepsOf (gap ++ [separator]) = stepsOf (gap' ++ [none]) := by
      rw [stepsOf_append,stepsOf_append,same]
      simp [stepsOf,mark_ne_dot mark]
    have later := ih false opened opened
    simpa [places,Item.places,Item.isList,tokens,Item.tokens,placesOfTokens] using later

/-- The openings among the steps. -/
def openingsOf (steps : List Bool) : List Token := (steps.filter (! ·)).map fun _ => .opening

/-- A letter that is not separated from the next one is in its string. -/
def join (c : CodeUnit) : List (Glyph × List Bool) → List Token → List Token
  | (.letter _,[]) :: _, .string s :: later => .string (c :: s) :: later
  | _, later => .string [c] :: later

/-- The tokens are read back from the levels. -/
def tokensOfLevels : List (Glyph × List Bool) → List Token
  | [] => []
  | (.number value,steps) :: rest =>
    openingsOf steps ++ .integer value :: tokensOfLevels rest
  | (.letter c,steps) :: rest =>
    openingsOf steps ++ join c rest (tokensOfLevels rest)

theorem tokensOfLevels_spell {gap : List (Option CodeUnit)} {s : JavaString} (some_ : s ≠ [])
    {l : List (Glyph × List Bool)} (apart : ∀ p ∈ l.head?, p.2 ≠ []) :
    tokensOfLevels ((spell gap s).map Place.level ++ l) =
      openingsOf (stepsOf gap) ++ .string s :: tokensOfLevels l := by
  induction s generalizing gap with
  | nil => exact absurd rfl some_
  | cons c s ih =>
    cases s with
    | nil =>
      have alone : join c l (tokensOfLevels l) = .string [c] :: tokensOfLevels l := by
        cases l with
        | nil => rfl
        | cons p l =>
          obtain ⟨glyph,steps⟩ := p
          cases steps with
          | nil => exact absurd rfl (apart _ rfl)
          | cons step steps => cases glyph <;> rfl
      exact congrArg (_ ++ ·) alone
    | cons d s =>
      have later := @ih [] (by simp)
      have joined : join c ((spell [] (d :: s)).map Place.level ++ l)
          (tokensOfLevels ((spell [] (d :: s)).map Place.level ++ l)) =
          .string (c :: d :: s) :: tokensOfLevels l := by
        rw [later]
        rfl
      exact congrArg (_ ++ ·) joined

/-- Something stands before every place but the first. -/
theorem places_apart {items : List Item} (normal : Normal items) {gap : List (Option CodeUnit)}
    {behind : Bool} (after : behind = true ∨ gap ≠ []) :
    ∀ p ∈ (places gap behind items).head?, p.gap ≠ [] := by
  induction normal generalizing behind gap with
  | nil => simp [places]
  | integer tail zero turn => cases behind <;> simp_all [places,Item.places,Item.isList]
  | @string value rest shown letters tail ih =>
    cases value with
    | nil => exact absurd rfl shown
    | cons c s => cases behind <;> simp_all [places,Item.places,Item.isList,spell]
  | @list separator items some_ mark inner ih =>
    have later := @ih (gap ++ [separator]) false (.inr (by simp))
    simpa [places,Item.places,Item.isList] using later

theorem openingsOf_append (steps steps' : List Bool) :
    openingsOf (steps ++ steps') = openingsOf steps ++ openingsOf steps' := by
  simp [openingsOf]

theorem tokensOfLevels_places {items : List Item} (normal : Normal items) {behind : Bool}
    {gap : List (Option CodeUnit)} (some_ : items = [] → gap = [])
    (first : behind = true → gap = []) :
    tokensOfLevels ((places gap behind items).map Place.level) =
      openingsOf (stepsOf gap) ++ tokens items := by
  have before : openingsOf (stepsOf (if behind then [some dot] else gap)) =
      openingsOf (stepsOf gap) := by
    cases behind with
    | true =>
      rw [first rfl]
      rfl
    | false => rfl
  induction normal generalizing behind gap with
  | nil =>
    rw [some_ rfl]
    rfl
  | @integer value rest tail zero turn ih =>
    have later : tokensOfLevels ((places [] true rest).map Place.level) = tokens rest :=
      @ih true [] (fun _ => rfl) (fun _ => rfl) rfl
    simp only [places,Item.places,Item.isList,tokens,Item.tokens,Bool.not_false,Bool.and_true]
    exact congrArg₂ (fun front rest => front ++ Token.integer value :: rest) before later
  | @string value rest shown letters tail ih =>
    have later : tokensOfLevels ((places [] true rest).map Place.level) = tokens rest :=
      @ih true [] (fun _ => rfl) (fun _ => rfl) rfl
    have apart : ∀ p ∈ ((places [] true rest).map Place.level).head?, p.2 ≠ [] := by
      intro p inside
      rw [List.head?_map] at inside
      obtain ⟨q,first,rfl⟩ := Option.mem_map.mp inside
      exact fun none => places_apart tail (.inl rfl) q first (List.map_eq_nil_iff.mp none)
    have spelt := @tokensOfLevels_spell (if behind then [some dot] else gap) value shown _ apart
    rw [later,before] at spelt
    simp only [places,Item.places,Item.isList,tokens,Item.tokens,Bool.not_false,Bool.and_true,
      List.map_append]
    exact spelt
  | @list separator items inner_ mark inner ih =>
    have later := @ih false (gap ++ [separator]) (fun none => absurd none inner_) Bool.noConfusion rfl
    have opened : openingsOf (stepsOf (gap ++ [separator])) =
        openingsOf (stepsOf gap) ++ [.opening] := by
      rw [stepsOf_append,openingsOf_append]
      simp [openingsOf,stepsOf,mark_ne_dot mark]
    rw [opened] at later
    simpa [places,Item.places,Item.isList,tokens,Item.tokens] using later

/-- The order sees the letters and numbers and the steps between them. -/
theorem versionTokens_eq_iff (a b : JavaString) :
    versionTokens a = versionTokens b ↔
      (versionPlaces a).map Place.level = (versionPlaces b).map Place.level := by
  constructor
  · intro same
    have seen (v : JavaString) : (versionPlaces v).map Place.level =
        (placesOfTokens [] false (versionTokens v)).map Place.level :=
      levels_places (parseVersion_normal v) false rfl
    rw [seen a,seen b,same]
  · intro same
    have read (v : JavaString) :=
      @tokensOfLevels_places _ (parseVersion_normal v) false [] (fun _ => rfl) nofun
    exact (read a).symm.trans ((congrArg tokensOfLevels same).trans (read b))

end Levels

section Texts

/-- The places of lexemes, without the openings that are not marked. -/
def placesOfLexemes (gap : List (Option CodeUnit)) : List Lexeme → List Place
  | [] => []
  | mark c :: rest => placesOfLexemes (gap ++ [some c]) rest
  | integer value :: rest => ⟨gap,.number value⟩ :: placesOfLexemes [] rest
  | string value :: rest => spell gap value ++ placesOfLexemes [] rest

theorem placesOfLexemes_absorb {s : JavaString} (some_ : s ≠ []) (gap : List (Option CodeUnit))
    (l : List Lexeme) : placesOfLexemes gap (absorb s l) = placesOfLexemes gap (string s :: l) := by
  rcases absorb_cases s l with ⟨t,rest,rfl,joined⟩ | ⟨apart,_⟩
  · rw [joined]
    unfold placesOfLexemes
    rw [spell_append some_,List.append_assoc]
    rfl
  · rw [apart]

/-- Strings that are joined have the same letters at the same places. -/
theorem placesOfLexemes_closeUp {l : List Lexeme} (shown : ∀ x ∈ l, x.text ≠ [])
    (gap : List (Option CodeUnit)) : placesOfLexemes gap (closeUp l) = placesOfLexemes gap l := by
  induction l generalizing gap with
  | nil => rfl
  | cons x l ih =>
    have later := ih fun y inside => shown y (List.mem_cons_of_mem x inside)
    cases x with
    | mark c => exact later _
    | integer value => exact congrArg (_ :: ·) (later [])
    | string s =>
      have some_ : s ≠ [] := shown (string s) List.mem_cons_self
      rw [closeUp,placesOfLexemes_absorb some_]
      exact congrArg (_ ++ ·) (later [])

theorem shown_congr {gap gap' : List (Option CodeUnit)}
    (same : gap.reduceOption = gap'.reduceOption) (glyph : Glyph) :
    Place.shown ⟨gap,glyph⟩ = Place.shown ⟨gap',glyph⟩ :=
  congrArg (Prod.mk glyph) same

theorem placesOfLexemes_dot (behind : Bool) (gap : List (Option CodeUnit)) (l : List Lexeme) :
    placesOfLexemes gap ((if behind then [mark dot] else []) ++ l) =
      placesOfLexemes (if behind then gap ++ [some dot] else gap) l := by
  cases behind <;> rfl

theorem shown_places {items : List Item} (normal : Normal items) {behind : Bool}
    {gap gap' : List (Option CodeUnit)} (first : behind = true → gap = [])
    (same : gap.reduceOption = gap'.reduceOption) :
    (places gap behind items).map Place.shown =
      (placesOfLexemes gap' (lexemes behind items)).map Place.shown := by
  have before : (if behind then [some dot] else gap).reduceOption =
      (if behind then gap' ++ [some dot] else gap').reduceOption := by
    cases behind with
    | false => exact same
    | true =>
      rw [first rfl] at same
      rw [if_pos rfl,if_pos rfl,List.reduceOption_append,← same]
      rfl
  induction normal generalizing behind gap gap' with
  | nil => rfl
  | @integer value rest tail zero turn ih =>
    have later := @ih true [] [] (fun _ => rfl) rfl rfl
    have here := shown_congr before (.number value)
    simpa [places,Item.places,Item.isList,lexemes,Item.lexemes,placesOfLexemes_dot,placesOfLexemes,
      later] using here
  | @string value rest shown letters tail ih =>
    have later := @ih true [] [] (fun _ => rfl) rfl rfl
    have here := spell_map (shown_congr before) value
    simpa [places,Item.places,Item.isList,lexemes,Item.lexemes,placesOfLexemes_dot,placesOfLexemes,
      later] using here
  | @list separator items some_ mark inner ih =>
    cases separator with
    | none =>
      have opened : (gap ++ [none]).reduceOption = gap'.reduceOption := by
        rw [List.reduceOption_append,same]
        exact List.append_nil _
      simpa [places,Item.places,Item.isList,lexemes,Item.lexemes] using
        @ih false (gap ++ [none]) gap' Bool.noConfusion opened opened
    | some c =>
      have opened : (gap ++ [some c]).reduceOption = (gap' ++ [some c]).reduceOption := by
        rw [List.reduceOption_append,List.reduceOption_append,same]
      simpa [places,Item.places,Item.isList,lexemes,Item.lexemes,placesOfLexemes] using
        @ih false (gap ++ [some c]) (gap' ++ [some c]) Bool.noConfusion opened opened

/-- A letter or number with the marks before it. -/
def textOf : Glyph × List CodeUnit → JavaString
  | (.letter c,marks) => marks ++ [c]
  | (.number value,marks) => marks ++ decimal value

theorem textOf_spell {gap : List (Option CodeUnit)} {s : JavaString} (some_ : s ≠ []) :
    ((spell gap s).map Place.shown).flatMap textOf = gap.reduceOption ++ s := by
  induction s generalizing gap with
  | nil => exact absurd rfl some_
  | cons c s ih =>
    by_cases last : s = []
    · simp [last,spell,Place.shown,Place.marks,textOf]
    · have later := @ih [] last
      simp only [spell,List.map_cons,List.flatMap_cons,later]
      simp [Place.shown,Place.marks,textOf]

theorem textOf_places {items : List Item} (normal : Normal items) {behind : Bool}
    {gap : List (Option CodeUnit)} (some_ : items = [] → gap = [])
    (first : behind = true → gap = []) :
    ((places gap behind items).map Place.shown).flatMap textOf =
      gap.reduceOption ++ print (lexemes behind items) := by
  have before : (if behind then [some dot] else gap).reduceOption =
      gap.reduceOption ++ print (if behind then [mark dot] else []) := by
    cases behind with
    | false => exact (List.append_nil _).symm
    | true =>
      rw [first rfl]
      rfl
  induction normal generalizing behind gap with
  | nil =>
    rw [some_ rfl]
    rfl
  | @integer value rest tail zero turn ih =>
    have later := @ih true [] (fun _ => rfl) (fun _ => rfl) rfl
    have here : textOf (Place.shown ⟨if behind then [some dot] else gap,.number value⟩) =
        gap.reduceOption ++ (print (if behind then [mark dot] else []) ++ decimal value) := by
      rw [← List.append_assoc,← before]
      rfl
    simpa [places,Item.places,Item.isList,lexemes,Item.lexemes,print,text,here] using later
  | @string value rest shown letters tail ih =>
    have later := @ih true [] (fun _ => rfl) (fun _ => rfl) rfl
    have here := @textOf_spell (if behind then [some dot] else gap) value shown
    rw [before] at here
    simp only [places,Item.places,Item.isList,Bool.not_false,Bool.and_true,List.map_append,
      List.flatMap_append,here,later]
    simp [lexemes,Item.lexemes,Item.isList,print,text]
  | @list separator items inner_ mark inner ih =>
    have opened : (gap ++ [separator]).reduceOption = gap.reduceOption ++ separator.toList := by
      rw [List.reduceOption_append]
      cases separator <;> rfl
    have later := @ih false (gap ++ [separator]) (fun none => absurd none inner_) Bool.noConfusion
      (List.append_nil _).symm
    rw [opened] at later
    cases separator <;>
      simpa [places,Item.places,Item.isList,lexemes,Item.lexemes,print,text] using later

/-- The canonical text shows the letters and numbers and the marks between them. -/
theorem canonical_eq_iff_shown (a b : JavaString) :
    canonical a = canonical b ↔
      (versionPlaces a).map Place.shown = (versionPlaces b).map Place.shown := by
  constructor
  · intro same
    have seen (v : JavaString) : (versionPlaces v).map Place.shown =
        (placesOfLexemes [] (closeUp (versionLexemes v))).map Place.shown := by
      rw [placesOfLexemes_closeUp fun x inside => ((versionLexemes_apart v).1 x inside).1]
      exact shown_places (parseVersion_normal v) nofun rfl
    rw [seen a,seen b,(canonical_eq_iff a b).mp same]
  · intro same
    have read (v : JavaString) :
        ((versionPlaces v).map Place.shown).flatMap textOf = canonical v := by
      rw [canonical_eq]
      exact textOf_places (parseVersion_normal v) (fun _ => rfl) nofun
    rw [← read a,← read b,same]

end Texts

/-- When the order takes two versions as equal exactly if their canonical texts are. -/
theorem compareTo_zero_iff_canonical (a b : JavaString) :
    (compareTo a b = 0 ↔ canonical a = canonical b) ↔
      ¬Tie VoidEnd (versionTokens a) (versionTokens b) ∧ ¬Remarked a b ∧ ¬Regrouped a b := by
  rw [compareTo_compares.zero,versionTokens_eq_iff,canonical_eq_iff_shown]
  constructor
  · intro agree
    have untied : ¬Tie VoidEnd (versionTokens a) (versionTokens b) := by
      intro tie
      have shown := agree.mp (.inr tie)
      rw [← canonical_eq_iff_shown,canonical_eq_iff] at shown
      exact closeUp_ne_of_tie tie shown
    refine ⟨untied,?_,?_⟩
    · intro remarked
      exact (Remarked.iff remarked.levels).mpr (agree.mp (.inl remarked.levels)) remarked
    · intro regrouped
      have levels := (agree.mpr regrouped.shown).resolve_right untied
      exact (Regrouped.iff regrouped.shown).mpr levels regrouped
  · rintro ⟨untied,marks,groups⟩
    constructor
    · rintro (levels | tie)
      · exact (Remarked.iff levels).mp marks
      · exact absurd tie untied
    · exact fun shown => .inl ((Regrouped.iff shown).mp groups)

/-- Marks are no part of the order, and dropped zeros are no part of the text. -/
theorem compareTo_zero_not_canonical :
    (compareTo (codeUnits "1-1") (codeUnits "1_1") = 0 ∧
        canonical (codeUnits "1-1") ≠ canonical (codeUnits "1_1")) ∧
      (compareTo (codeUnits "a0b") (codeUnits "ab") ≠ 0 ∧
        canonical (codeUnits "a0b") = canonical (codeUnits "ab")) ∧
      ¬∀ a b, compareTo a b = 0 ↔ canonical a = canonical b := by
  have marks : compareTo (codeUnits "1-1") (codeUnits "1_1") = 0 := by decide +kernel
  have texts : canonical (codeUnits "1-1") ≠ canonical (codeUnits "1_1") := by decide +kernel
  refine ⟨⟨marks,texts⟩,⟨by decide +kernel,by decide +kernel⟩,?_⟩
  intro agree
  exact texts ((agree _ _).mp marks)

end HmclPe.Versioning
