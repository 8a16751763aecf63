import HmclPe.Versioning.TotalOrder

/-! The canonical text of a version as a list of lexemes. The text determines the lexemes once
strings that a dropped zero has left side by side are joined. -/
namespace HmclPe.Versioning
open HmclPe.Lib.VoidEnds

inductive Lexeme where
  | mark (c : CodeUnit)
  | string (value : JavaString)
  | integer (value : Nat)
  deriving DecidableEq

namespace Lexeme

def text : Lexeme → JavaString
  | mark c => [c]
  | string value => value
  | integer value => decimal value

def kind : Lexeme → Kind
  | mark _ => .mark
  | string _ => .letter
  | integer _ => .digit

/-- The text of a lexeme shows its kind. -/
def Shown (l : Lexeme) : Prop := l.text ≠ [] ∧ ∀ c ∈ l.text, Versioning.kind c = l.kind

end Lexeme

open Lexeme

def print (l : List Lexeme) : JavaString := l.flatMap Lexeme.text

mutual

def Item.lexemes : Item → List Lexeme
  | .integer value => [integer value]
  | .string value => [string value]
  | .list separator items => separator.toList.map mark ++ Versioning.lexemes false items

/-- A dot stands before an item that is not a list and has one before it. -/
def lexemes (behind : Bool) : List Item → List Lexeme
  | [] => []
  | item :: rest =>
    (if behind && !item.isList then [mark dot] else []) ++ item.lexemes ++ lexemes true rest

end

theorem decimal_ne_nil (value : Nat) : decimal value ≠ [] := by
  unfold decimal
  simp [Nat.toDigits_ne_nil]

theorem appendItems_eq {items : List Item} (normal : Normal items) (buffer : JavaString) :
    appendItems buffer items = buffer ++ print (lexemes (buffer ≠ []) items) := by
  induction normal generalizing buffer with
  | nil => simp [appendItems,lexemes,print]
  | @integer value rest tail zero turn ih =>
    unfold appendItems
    rw [ih]
    by_cases empty : buffer = []
    · simp [empty,lexemes,Item.lexemes,print,Item.toText,Item.isList,text,decimal_ne_nil]
    · simp [empty,lexemes,Item.lexemes,print,Item.toText,Item.isList,text]
  | @string value rest shown letters tail ih =>
    unfold appendItems
    rw [ih]
    by_cases empty : buffer = []
    · simp [empty,lexemes,Item.lexemes,print,Item.toText,Item.isList,text,shown]
    · simp [empty,lexemes,Item.lexemes,print,Item.toText,Item.isList,text]
  | @list separator items some_ mark inner ih =>
    have whole := ih []
    cases separator with
    | none => simp [appendItems,lexemes,Item.lexemes,print,Item.toText,Item.isList,whole]
    | some c => simp [appendItems,lexemes,Item.lexemes,print,Item.toText,Item.isList,whole,text]

section Decimal

theorem decimal_digit {d : Char} (member : d.isDigit = true) :
    digit (Fin.ofNat 65536 d.toNat) = some (d.toNat - '0'.toNat) := by
  have bounds : 48 ≤ d.toNat ∧ d.toNat ≤ 57 := by
    simpa [Char.isDigit,UInt32.le_iff_toNat_le] using member
  obtain ⟨low,high⟩ := bounds
  generalize d.toNat = n at low high
  interval_cases n <;> decide

theorem bigInteger_decimal (value : Nat) : bigInteger (decimal value) = value := by
  unfold bigInteger decimal
  rw [List.foldl_map]
  refine Eq.trans ?_ (@Nat.ofDigitChars_ten_toDigits value)
  apply List.foldl_ext
  intro sofar d member
  rw [decimal_digit (Nat.isDigit_of_mem_toDigits (by decide) (by decide) member)]
  rfl

theorem decimal_injective {n m : Nat} (same : decimal n = decimal m) : n = m := by
  rw [← bigInteger_decimal n,same,bigInteger_decimal]

theorem decimal_kind (value : Nat) : ∀ c ∈ decimal value, kind c = .digit := by
  intro c member
  obtain ⟨d,inside,rfl⟩ := List.mem_map.mp member
  have read := decimal_digit (Nat.isDigit_of_mem_toDigits (by decide) (by decide) inside)
  apply if_pos
  rw [isDigit,read]
  rfl

end Decimal

section Reading

/-- Next to each other stand lexemes of different kinds, or marks. -/
def Proper (l : List Lexeme) : Prop :=
  (∀ x ∈ l, x.Shown) ∧ l.IsChain fun x y => x.kind = y.kind → x.kind = .mark

theorem print_head {x : Lexeme} (shown : x.Shown) (l : List Lexeme) :
    ∃ c s, print (x :: l) = c :: s ∧ kind c = x.kind := by
  obtain ⟨some_,kinds⟩ := shown
  cases text : x.text with
  | nil => exact absurd text some_
  | cons c s =>
    rw [text] at kinds
    exact ⟨c,s ++ print l,by simp [print,text],kinds c (by simp)⟩

theorem print_tail_head {x : Lexeme} {l : List Lexeme} (proper : Proper (x :: l))
    (plain : x.kind ≠ .mark) : ∀ c ∈ (print l).head?, kind c ≠ x.kind := by
  obtain ⟨shown,chain⟩ := proper
  cases l with
  | nil => simp [print]
  | cons y l =>
    obtain ⟨c,s,first,same⟩ := print_head (shown y (by simp)) l
    rw [first]
    intro d member
    obtain rfl : c = d := by simpa using member
    rw [same]
    exact fun equal => plain ((List.isChain_cons_cons.mp chain).1 equal.symm)

/-- The longest front of one kind is determined by the text. -/
theorem span_unique {k : Kind} {s t p q : JavaString} (allS : ∀ c ∈ s, kind c = k)
    (allT : ∀ c ∈ t, kind c = k) (stopP : ∀ c ∈ p.head?, kind c ≠ k)
    (stopQ : ∀ c ∈ q.head?, kind c ≠ k) (same : s ++ p = t ++ q) : s = t ∧ p = q := by
  induction s generalizing t with
  | nil =>
    cases t with
    | nil => exact ⟨rfl,same⟩
    | cons d t =>
      rw [List.nil_append] at same
      exact absurd (allT d (by simp)) (stopP d (by simp [same]))
  | cons c s ih =>
    cases t with
    | nil =>
      rw [List.nil_append] at same
      exact absurd (allS c (by simp)) (stopQ c (by simp [← same]))
    | cons d t =>
      obtain ⟨rfl,rest⟩ := List.cons.inj same
      obtain ⟨rfl,equal⟩ := ih (fun c member => allS c (by simp [member]))
        (fun d member => allT d (by simp [member])) rest
      exact ⟨rfl,equal⟩

theorem text_injective {x y : Lexeme} (kinds : x.kind = y.kind) (same : x.text = y.text) :
    x = y := by
  cases x <;> cases y <;> simp_all [Lexeme.kind,text]
  exact decimal_injective same

theorem print_injective {l l' : List Lexeme} (proper : Proper l) (proper' : Proper l')
    (same : print l = print l') : l = l' := by
  induction l generalizing l' with
  | nil =>
    cases l' with
    | nil => rfl
    | cons y l' =>
      obtain ⟨c,s,first,_⟩ := print_head (proper'.1 y (by simp)) l'
      rw [first] at same
      simp [print] at same
  | cons x l ih =>
    cases l' with
    | nil =>
      obtain ⟨c,s,first,_⟩ := print_head (proper.1 x (by simp)) l
      rw [first] at same
      simp [print] at same
    | cons y l' =>
      obtain ⟨c,s,first,kindX⟩ := print_head (proper.1 x (by simp)) l
      obtain ⟨d,t,first',kindY⟩ := print_head (proper'.1 y (by simp)) l'
      have kinds : x.kind = y.kind := by
        rw [← kindX,← kindY]
        rw [first,first'] at same
        rw [(List.cons.inj same).1]
      have rest : Proper l := ⟨fun z member => proper.1 z (by simp [member]),proper.2.tail⟩
      have rest' : Proper l' := ⟨fun z member => proper'.1 z (by simp [member]),proper'.2.tail⟩
      have cut : x.text = y.text ∧ print l = print l' := by
        by_cases mark : x.kind = .mark
        · cases x <;> cases y <;> simp_all [Lexeme.kind,print,text]
        · apply span_unique (proper.1 x (by simp)).2
          · rw [kinds]
            exact (proper'.1 y (by simp)).2
          · exact print_tail_head proper mark
          · rw [kinds]
            exact print_tail_head proper' (by rwa [← kinds])
          · exact same
      rw [text_injective kinds cut.1,ih rest rest' cut.2]

end Reading

section Joining

/-- A string takes up the string that follows it. -/
def absorb (s : JavaString) : List Lexeme → List Lexeme
  | string t :: rest => string (s ++ t) :: rest
  | rest => string s :: rest

/-- Strings that stand side by side are joined. -/
def closeUp : List Lexeme → List Lexeme
  | [] => []
  | string s :: rest => absorb s (closeUp rest)
  | x :: rest => x :: closeUp rest

theorem print_absorb (s : JavaString) (l : List Lexeme) : print (absorb s l) = s ++ print l := by
  unfold absorb
  split <;> simp [print,text]

theorem print_closeUp (l : List Lexeme) : print (closeUp l) = print l := by
  induction l with
  | nil => rfl
  | cons x l ih =>
    cases x with
    | string s =>
      rw [closeUp,print_absorb,ih]
      rfl
    | mark c => simpa [closeUp,print] using ih
    | integer value => simpa [closeUp,print] using ih

theorem absorb_head (s : JavaString) (l : List Lexeme) :
    (absorb s l).head?.map Lexeme.kind = some .letter := by
  unfold absorb
  split <;> rfl

theorem closeUp_head (l : List Lexeme) :
    (closeUp l).head?.map Lexeme.kind = l.head?.map Lexeme.kind := by
  cases l with
  | nil => rfl
  | cons x l =>
    cases x with
    | string s => exact absorb_head s (closeUp l)
    | mark c => rfl
    | integer value => rfl

/-- What lexemes of a version look like: no two numbers stand side by side. -/
def Apart (l : List Lexeme) : Prop :=
  (∀ x ∈ l, x.Shown) ∧ l.IsChain fun x y => x.kind = .digit → y.kind ≠ .digit

theorem proper_cons {x : Lexeme} {l : List Lexeme} (shown : x.Shown)
    (next : ∀ k ∈ l.head?.map Lexeme.kind, x.kind = k → x.kind = .mark) (proper : Proper l) :
    Proper (x :: l) := by
  refine ⟨?_,List.isChain_cons.mpr ⟨?_,proper.2⟩⟩
  · intro y member
    rcases List.mem_cons.mp member with rfl | inside
    · exact shown
    · exact proper.1 y inside
  · intro y member
    apply next
    rw [Option.mem_def.mp member]
    rfl

theorem absorb_cases (s : JavaString) (l : List Lexeme) :
    (∃ t rest, l = string t :: rest ∧ absorb s l = string (s ++ t) :: rest) ∨
      (absorb s l = string s :: l ∧ ∀ k ∈ l.head?.map Lexeme.kind, k ≠ .letter) := by
  cases l with
  | nil => exact Or.inr ⟨rfl,by simp⟩
  | cons x l =>
    cases x with
    | string t => exact Or.inl ⟨t,l,rfl,rfl⟩
    | mark c => exact Or.inr ⟨rfl,by simp [Lexeme.kind]⟩
    | integer value => exact Or.inr ⟨rfl,by simp [Lexeme.kind]⟩

theorem absorb_proper {s : JavaString} (shown : (string s).Shown) {l : List Lexeme}
    (proper : Proper l) : Proper (absorb s l) := by
  rcases absorb_cases s l with ⟨t,rest,rfl,joined⟩ | ⟨apart,other⟩
  · rw [joined]
    obtain ⟨some_,kinds⟩ := shown
    obtain ⟨_,kinds'⟩ := proper.1 (string t) (by simp)
    obtain ⟨next,chain⟩ := List.isChain_cons.mp proper.2
    refine ⟨?_,List.isChain_cons.mpr ⟨next,chain⟩⟩
    intro y member
    rcases List.mem_cons.mp member with rfl | inside
    · refine ⟨fun empty => some_ (List.append_eq_nil_iff.mp empty).1,?_⟩
      intro c inside
      rcases List.mem_append.mp inside with left | right
      · exact kinds c left
      · exact kinds' c right
    · exact proper.1 y (List.mem_cons_of_mem _ inside)
  · rw [apart]
    exact proper_cons shown (fun k member same => absurd same.symm (other k member)) proper

theorem closeUp_proper {l : List Lexeme} (apart : Apart l) : Proper (closeUp l) := by
  induction l with
  | nil => exact ⟨by simp [closeUp],by simp [closeUp]⟩
  | cons x l ih =>
    obtain ⟨shown,chain⟩ := apart
    obtain ⟨next,tail⟩ := List.isChain_cons.mp chain
    have later := ih ⟨fun y member => shown y (by simp [member]),tail⟩
    have here := shown x (by simp)
    cases x with
    | string s => exact absorb_proper here later
    | mark c => exact proper_cons here (fun _ _ _ => rfl) later
    | integer value =>
      refine proper_cons here ?_ later
      intro k member same
      rw [closeUp_head] at member
      cases l with
      | nil => simp at member
      | cons y l =>
        obtain rfl : y.kind = k := by simpa using member
        exact absurd same.symm (next y (by simp) rfl)

/-- The joined lexemes carry the same information as the text. -/
theorem print_eq_iff {l l' : List Lexeme} (apart : Apart l) (apart' : Apart l') :
    print l = print l' ↔ closeUp l = closeUp l' := by
  constructor
  · intro same
    apply print_injective (closeUp_proper apart) (closeUp_proper apart')
    rw [print_closeUp,print_closeUp,same]
  · intro same
    rw [← print_closeUp l,same,print_closeUp]

def Lexeme.atom : Lexeme → Option Token
  | mark _ => none
  | string value => some (.string value)
  | integer value => some (.integer value)

@[simp] theorem filterMap_mark (c : CodeUnit) (l : List Lexeme) :
    (mark c :: l).filterMap Lexeme.atom = l.filterMap Lexeme.atom := rfl

@[simp] theorem filterMap_string (value : JavaString) (l : List Lexeme) :
    (string value :: l).filterMap Lexeme.atom = .string value :: l.filterMap Lexeme.atom := rfl

@[simp] theorem filterMap_integer (value : Nat) (l : List Lexeme) :
    (integer value :: l).filterMap Lexeme.atom = .integer value :: l.filterMap Lexeme.atom := rfl

/-- How much of a version its strings and numbers are. -/
def weight (l : List Token) : Nat := (l.map fun t => match t with
  | .string value => value.length
  | .opening => 0
  | .integer _ => 1).sum

theorem weight_closeUp (l : List Lexeme) :
    weight ((closeUp l).filterMap Lexeme.atom) = weight (l.filterMap Lexeme.atom) := by
  have absorbed (s : JavaString) (l : List Lexeme) :
      weight ((absorb s l).filterMap Lexeme.atom) =
        s.length + weight (l.filterMap Lexeme.atom) := by
    rcases absorb_cases s l with ⟨t,rest,rfl,joined⟩ | ⟨apart,_⟩
    · rw [joined]
      simp [weight,Nat.add_assoc]
    · rw [apart]
      simp [weight]
  induction l with
  | nil => rfl
  | cons x l ih =>
    cases x with
    | mark c => exact ih
    | integer value => simpa [closeUp,weight] using ih
    | string s =>
      rw [closeUp,absorbed,ih]
      simp [weight]

end Joining

section Versions

theorem kind_letter {c : CodeUnit} (letter : Letter c) : kind c = .letter := by
  obtain ⟨not_digit,not_dot,plain⟩ := letter
  simp [kind,not_digit,not_dot,plain]

theorem kind_mark {c : CodeUnit} (member : c = dot ∨ c ∈ punctuation) : kind c = .mark := by
  have all : (dot :: punctuation).all (fun d => isDigit d = false) = true := by decide +kernel
  have not_digit : isDigit c = false := by
    simpa using List.all_eq_true.mp all c (List.mem_cons.mpr member)
  unfold kind
  rw [not_digit,if_neg (by simp),if_pos member]

theorem mark_shown {c : CodeUnit} (member : c = dot ∨ c ∈ punctuation) : (mark c).Shown :=
  ⟨by simp [text],by simpa [text,Lexeme.kind] using kind_mark member⟩

theorem integer_shown (value : Nat) : (integer value).Shown :=
  ⟨decimal_ne_nil value,decimal_kind value⟩

theorem string_shown {value : JavaString} (shown : value ≠ []) (letters : ∀ c ∈ value, Letter c) :
    (string value).Shown := ⟨shown,fun c member => kind_letter (letters c member)⟩

/-- No number directly follows a number of the list around it. -/
theorem lexemes_after {items : List Item} {value : Nat}
    (normal : Normal (.integer value :: items)) :
    ∀ x ∈ (lexemes true items).head?, x.kind ≠ .digit := by
  cases normal with
  | integer tail zero turn =>
    intro x member
    cases items with
    | nil => simp [lexemes] at member
    | cons item rest =>
      cases item with
      | integer other =>
        obtain rfl : mark dot = x := by simpa [lexemes,Item.isList] using member
        simp [Lexeme.kind]
      | string other =>
        obtain rfl : mark dot = x := by simpa [lexemes,Item.isList] using member
        simp [Lexeme.kind]
      | list separator inner =>
        cases separator with
        | some c =>
          obtain rfl : mark c = x := by simpa [lexemes,Item.isList,Item.lexemes] using member
          simp [Lexeme.kind]
        | none =>
          cases tail with
          | list some_ mark_ inner_ =>
            obtain ⟨s,more,rfl⟩ := turn inner rfl
            obtain rfl : string s = x := by
              simpa [lexemes,Item.isList,Item.lexemes] using member
            simp [Lexeme.kind]

theorem apart_dot {behind : Bool} {l : List Lexeme} (apart : Apart l) :
    Apart ((if behind then [mark dot] else []) ++ l) := by
  cases behind with
  | false => exact apart
  | true =>
    refine ⟨?_,List.isChain_cons.mpr ⟨by simp [Lexeme.kind],apart.2⟩⟩
    intro x member
    rcases List.mem_cons.mp member with rfl | inside
    · exact mark_shown (Or.inl rfl)
    · exact apart.1 x inside

theorem apart_cons {x : Lexeme} {l : List Lexeme} (shown : x.Shown) (apart : Apart l)
    (next : x.kind = .digit → ∀ y ∈ l.head?, y.kind ≠ .digit) : Apart (x :: l) := by
  refine ⟨?_,List.isChain_cons.mpr ⟨fun y member digit => next digit y member,apart.2⟩⟩
  intro y member
  rcases List.mem_cons.mp member with rfl | inside
  · exact shown
  · exact apart.1 y inside

theorem lexemes_apart {items : List Item} (normal : Normal items) (behind : Bool) :
    Apart (lexemes behind items) := by
  induction normal generalizing behind with
  | nil => exact ⟨by simp [lexemes],by simp [lexemes]⟩
  | @integer value rest tail zero turn ih =>
    have after := lexemes_after (Normal.integer tail zero turn)
    have whole := apart_cons (integer_shown value) (ih true) fun _ => after
    simpa [lexemes,Item.lexemes,Item.isList] using @apart_dot behind _ whole
  | @string value rest shown letters tail ih =>
    have whole := apart_cons (string_shown shown letters) (ih true) (by simp [Lexeme.kind])
    simpa [lexemes,Item.lexemes,Item.isList] using @apart_dot behind _ whole
  | @list separator items some_ mark_ inner ih =>
    cases separator with
    | none => simpa [lexemes,Item.lexemes,Item.isList] using ih false
    | some c =>
      have whole := apart_cons (mark_shown (Or.inr (mark_ c rfl))) (ih false) (by simp [Lexeme.kind])
      simpa [lexemes,Item.lexemes,Item.isList] using whole

theorem lexemes_atoms {items : List Item} (normal : Normal items) (behind : Bool) :
    (lexemes behind items).filterMap Lexeme.atom = (tokens items).filter (· ≠ .opening) := by
  induction normal generalizing behind with
  | nil => simp [lexemes,tokens]
  | @integer value rest tail zero turn ih =>
    have later := ih true
    cases behind <;> simp [lexemes,Item.lexemes,Item.isList,tokens,Item.tokens,later]
  | @string value rest shown letters tail ih =>
    have later := ih true
    cases behind <;> simp [lexemes,Item.lexemes,Item.isList,tokens,Item.tokens,later]
  | @list separator items some_ mark inner ih =>
    have later := ih false
    cases separator <;> simp [lexemes,Item.lexemes,Item.isList,tokens,Item.tokens,later]

def versionLexemes (version : JavaString) : List Lexeme := lexemes false (parseVersion version)

theorem canonical_eq (version : JavaString) : canonical version = print (versionLexemes version) := by
  have printed := appendItems_eq (parseVersion_normal version) []
  rw [List.nil_append] at printed
  exact printed

theorem versionLexemes_apart (version : JavaString) : Apart (versionLexemes version) :=
  lexemes_apart (parseVersion_normal version) false

theorem canonical_eq_iff (a b : JavaString) :
    canonical a = canonical b ↔ closeUp (versionLexemes a) = closeUp (versionLexemes b) := by
  rw [canonical_eq,canonical_eq]
  exact print_eq_iff (versionLexemes_apart a) (versionLexemes_apart b)

theorem versionLexemes_atoms (version : JavaString) :
    (versionLexemes version).filterMap Lexeme.atom =
      (versionTokens version).filter (· ≠ .opening) :=
  lexemes_atoms (parseVersion_normal version) false

theorem weight_versionLexemes (version : JavaString) :
    weight ((closeUp (versionLexemes version)).filterMap Lexeme.atom) =
      weight (versionTokens version) := by
  rw [weight_closeUp,versionLexemes_atoms]
  induction versionTokens version with
  | nil => rfl
  | cons t rest ih =>
    cases t with
    | opening => simpa [weight] using ih
    | string value => simpa [weight] using ih
    | integer value => simpa [weight] using ih

/-- A tie leaves a zero behind one of the two texts. -/
theorem closeUp_ne_of_tie {a b : JavaString}
    (tie : Tie VoidEnd (versionTokens a) (versionTokens b)) :
    closeUp (versionLexemes a) ≠ closeUp (versionLexemes b) := by
  intro same
  have equal := congrArg (fun l => weight (l.filterMap Lexeme.atom)) same
  simp only [weight_versionLexemes] at equal
  have heavy {w : List Token} (void : VoidEnd w) (x : List Token) : weight x < weight (x ++ w) := by
    obtain ⟨depth,more,rfl⟩ := (voidEnd_iff w).mp void
    simp [weight]
  obtain ⟨w,void,longer | longer⟩ := tie
  · have less := heavy void (versionTokens a)
    rw [← longer] at less
    omega
  · have less := heavy void (versionTokens b)
    rw [← longer] at less
    omega

end Versions

end HmclPe.Versioning
