import HmclPe.Versioning.Canonical

/-! The canonical text is read back: a mark without an item before it adds a zero, which
normalization drops again, and joined strings are read as one. -/
namespace HmclPe.Versioning
open Lexeme

namespace VersionNumber

/-- `VersionNumber.normalize` -/
def normalize (str : JavaString) : JavaString := canonical str

/-- `equals` of two version numbers. -/
def equals (a b : JavaString) : Bool := canonical a = canonical b

end VersionNumber

section Growing

def Lexeme.item : Lexeme → Item
  | mark _ => .integer 0
  | string value => .string value
  | integer value => .integer value

/-- The items that lexemes add to the open list, with the lists in it normalized.
An item is pending when its text is read but not yet added. -/
def grow : Option Item → List Lexeme → List Item
  | pending, [] => pending.toList
  | pending, mark c :: rest =>
    if c = dot then pending.getD (.integer 0) :: grow none rest
    else [pending.getD (.integer 0),.list (some c) (normalize (grow none rest))]
  | none, x :: rest => grow (some x.item) rest
  | some item, x :: rest => [item,.list none (normalize (grow (some x.item) rest))]

/-- The items of a version once the open lists are closed. -/
def Parser.items (parser : Parser) : List Item :=
  close parser.finish.list.items parser.finish.list.separator parser.finish.stack

/-- The text from `startIndex` on and the item it will be. -/
def Pending (parser : Parser) : Option Item → Prop
  | none => parser.buf = []
  | some item => parser.buf ≠ [] ∧ parseItem parser.buf = item

theorem pending_getD {parser : Parser} {pending : Option Item} (waiting : Pending parser pending) :
    parser.addItem = parser.add (pending.getD (.integer 0)) := by
  unfold Parser.addItem
  cases pending with
  | none =>
    have empty : parser.buf = [] := waiting
    rw [if_pos empty,Option.getD_none]
  | some item => rw [if_neg waiting.1,waiting.2,Option.getD_some]

theorem items_pending {parser : Parser} {pending : Option Item} (waiting : Pending parser pending) :
    parser.items =
      Parser.close (parser.list.items ++ pending.toList) parser.list.separator parser.stack := by
  unfold Parser.items
  cases pending with
  | none => rw [finish_empty waiting,Option.toList_none,List.append_nil]
  | some item =>
    rw [finish_some waiting.1,waiting.2]
    rfl

theorem kind_plain {c : CodeUnit} {flag : Bool} :
    kind c = (if flag then .digit else .letter) ↔ isDigit c = flag ∧ c ≠ dot ∧ c ∉ punctuation := by
  have marks : c = dot ∨ c ∈ punctuation → isDigit c = false := by
    intro member
    have mark := kind_mark member
    unfold kind at mark
    split at mark
    · simp at mark
    · simpa using ‹¬isDigit c = true›
  unfold kind
  by_cases member : c = dot ∨ c ∈ punctuation
  · rw [marks member,if_neg (by simp),if_pos member]
    constructor
    · cases flag <;> simp
    · rintro ⟨_,no_dot,no_mark⟩
      exact absurd member (by simp [no_dot,no_mark])
  · rw [if_neg member]
    obtain ⟨no_dot,no_mark⟩ := not_or.mp member
    cases flag <;> cases isDigit c <;> simp [no_dot,no_mark]

/-- A character that goes on with the text that is pending. -/
theorem step_same {parser : Parser} {c : CodeUnit} {flag : Bool}
    (plain : kind c = if flag then .digit else .letter)
    (same : parser.buf = [] ∨ parser.isDigit = flag) :
    parser.step c = { parser with isDigit := flag, buf := parser.buf ++ [c] } := by
  obtain ⟨digit,no_dot,no_mark⟩ := kind_plain.mp plain
  unfold Parser.step
  rw [if_neg no_dot,if_neg no_mark,digit,if_neg]
  rintro ⟨turn,some_⟩
  exact same.elim some_ turn

theorem foldl_same {parser : Parser} {text : JavaString} {flag : Bool} (some_ : text ≠ [])
    (plain : ∀ c ∈ text, kind c = if flag then .digit else .letter)
    (same : parser.buf = [] ∨ parser.isDigit = flag) :
    text.foldl Parser.step parser =
      { parser with isDigit := flag, buf := parser.buf ++ text } := by
  induction text generalizing parser with
  | nil => exact absurd rfl some_
  | cons c text ih =>
    rw [List.foldl_cons,step_same (plain c (by simp)) same]
    by_cases last : text = []
    · rw [last,List.foldl_nil]
    · rw [ih last (fun d member => plain d (by simp [member])) (Or.inr rfl)]
      simp

/-- A turn between digits and letters opens a list, as if it had been open before. -/
theorem step_turn {parser : Parser} {c : CodeUnit} {flag : Bool} (some_ : parser.buf ≠ [])
    (turn : parser.isDigit ≠ flag) (plain : kind c = if flag then .digit else .letter) :
    parser.step c = Parser.step ((parser.add (parseItem parser.buf)).open_ none) c := by
  have opened : ((parser.add (parseItem parser.buf)).open_ none).buf = [] := rfl
  rw [step_same plain (Or.inl opened),opened]
  obtain ⟨digit,no_dot,no_mark⟩ := kind_plain.mp plain
  unfold Parser.step
  rw [if_neg no_dot,if_neg no_mark,digit,if_pos ⟨turn,some_⟩]
  rfl

theorem kind_mark_iff {x : Lexeme} : x.kind = .mark ↔ ∃ c, x = mark c := by
  cases x <;> simp [Lexeme.kind]

theorem mark_of_shown {c : CodeUnit} (shown : (mark c).Shown) : c = dot ∨ c ∈ punctuation := by
  have kinds : kind c = .mark := shown.2 c (by simp [text])
  unfold kind at kinds
  split at kinds
  · cases kinds
  · split at kinds
    · assumption
    · cases kinds

/-- A lexeme that is no mark, with the kind of its characters as the parser keeps it. -/
theorem shown_plain {x : Lexeme} (shown : x.Shown) (plain : x.kind ≠ .mark) :
    ∃ flag, x.kind = (if flag = true then .digit else .letter) ∧
      ∀ c ∈ x.text, kind c = if flag then .digit else .letter := by
  cases x with
  | mark c => exact absurd rfl plain
  | string value => exact ⟨false,rfl,shown.2⟩
  | integer value => exact ⟨true,rfl,shown.2⟩

theorem parseItem_text {x : Lexeme} (shown : x.Shown) (plain : x.kind ≠ .mark) :
    parseItem x.text = x.item := by
  cases x with
  | mark c => exact absurd rfl plain
  | string value =>
    exact parseItem_letters shown.1 fun c member =>
      ((@kind_plain c false).mp (shown.2 c member)).1
  | integer value =>
    have digits := fun c member => ((@kind_plain c true).mp (shown.2 c member)).1
    rw [parseItem_digits digits]
    exact congrArg Item.integer (bigInteger_decimal value)

/-- Reading the text of lexemes from any state of the parser. -/
theorem items_foldl {l : List Lexeme} (proper : Proper l) {parser : Parser}
    {pending : Option Item} (waiting : Pending parser pending)
    (next : pending ≠ none → ∀ x ∈ l.head?, x.kind ≠ .mark →
      x.kind ≠ if parser.isDigit then .digit else .letter) :
    ((print l).foldl Parser.step parser).items =
      Parser.close (parser.list.items ++ grow pending l) parser.list.separator parser.stack := by
  induction l generalizing parser pending with
  | nil =>
    have read : (print []).foldl Parser.step parser = parser := rfl
    rw [read,items_pending waiting]
    cases pending <;> rfl
  | cons x l ih =>
    obtain ⟨shown,chain⟩ := proper
    obtain ⟨apart,later⟩ := List.isChain_cons.mp chain
    have rest : Proper l := ⟨fun y member => shown y (by simp [member]),later⟩
    have here := shown x (by simp)
    have cut : print (x :: l) = x.text ++ print l := rfl
    by_cases plain : x.kind = .mark
    · obtain ⟨c,rfl⟩ := kind_mark_iff.mp plain
      have one : print (mark c :: l) = c :: print l := rfl
      rw [one,List.foldl_cons]
      by_cases is_dot : c = dot
      · have read : parser.step c = parser.add (pending.getD (.integer 0)) := by
          rw [← pending_getD waiting]
          exact if_pos is_dot
        have added := @ih rest (parser.add (pending.getD (.integer 0))) none rfl (by simp)
        rw [read,added]
        cases pending <;> simp [grow,is_dot,Parser.add]
      · have read : parser.step c = (parser.add (pending.getD (.integer 0))).open_ (some c) := by
          rw [← pending_getD waiting]
          unfold Parser.step
          rw [if_neg is_dot,if_pos ((mark_of_shown here).resolve_left is_dot)]
        have added := @ih rest ((parser.add (pending.getD (.integer 0))).open_ (some c)) none
          rfl (by simp)
        rw [read,added]
        cases pending <;> simp [grow,is_dot,Parser.add,Parser.open_,Parser.close]
    · obtain ⟨flag,kinds,texts⟩ := shown_plain here plain
      -- the text of x is read into an empty buffer, in a new list where another item is pending
      have fresh (parser : Parser) (empty : parser.buf = []) :
          ((print (x :: l)).foldl Parser.step parser).items =
            Parser.close (parser.list.items ++ grow (some x.item) l) parser.list.separator
              parser.stack := by
        rw [cut,List.foldl_append,foldl_same here.1 texts (Or.inl empty),empty,List.nil_append]
        refine ih rest ⟨here.1,parseItem_text here plain⟩ ?_
        intro _ y member other same
        refine other ?_
        rw [same,← kinds]
        exact apart y member (kinds.trans same.symm)
      cases pending with
      | none =>
        rw [fresh parser waiting]
        cases x <;> first | rfl | exact absurd rfl plain
      | some item =>
        obtain ⟨some_,item_eq⟩ := waiting
        have turn : parser.isDigit ≠ flag := by
          intro same
          exact next (by simp) x (by simp) plain (by rw [same,kinds])
        have opened := fresh ((parser.add (parseItem parser.buf)).open_ none) rfl
        cases text : x.text with
        | nil => exact absurd text here.1
        | cons c s =>
          rw [cut,text,List.cons_append,List.foldl_cons] at opened ⊢
          rw [step_turn some_ turn (texts c (by simp [text])),opened,item_eq]
          cases x <;> first
            | exact absurd rfl plain
            | simp [grow,Parser.add,Parser.open_,Parser.close]

end Growing

section Trim

/-- What may follow a lexeme of a canonical text. -/
def Follows : Lexeme → Lexeme → Prop
  | integer value, y => value = 0 → y = mark dot
  | mark c, y => y ≠ mark dot ∧ (c = dot → y.kind ≠ .mark)
  | string _, _ => True

/-- A zero stands before a dot only, and behind a mark something follows. -/
structure Trim (l : List Lexeme) : Prop where
  chain : l.IsChain Follows
  last : ∀ x ∈ l.getLast?, x.kind ≠ .mark ∧ x ≠ integer 0

theorem Trim.cons {x : Lexeme} {l : List Lexeme} (trim : Trim l)
    (next : ∀ y ∈ l.head?, Follows x y) (last : l = [] → x.kind ≠ .mark ∧ x ≠ integer 0) :
    Trim (x :: l) := by
  refine ⟨List.isChain_cons.mpr ⟨next,trim.chain⟩,?_⟩
  intro y member
  cases l with
  | nil =>
    obtain rfl : x = y := by simpa using member
    exact last rfl
  | cons z l => exact trim.last y (by rwa [List.getLast?_cons_cons] at member)

theorem Trim.tail {x : Lexeme} {l : List Lexeme} (trim : Trim (x :: l)) : Trim l := by
  refine ⟨trim.chain.tail,?_⟩
  intro y member
  apply trim.last
  cases l with
  | nil => simp at member
  | cons z l => rwa [List.getLast?_cons_cons]

/-- A null item goes from the end, and nothing before an item that stays. -/
theorem normalize_cons {item : Item} {items : List Item}
    (kept : ∃ other ∈ normalize items, other.isList = false) :
    normalize (item :: items) = item :: normalize items := by
  have reversed (l : List Item) (kept : ∃ other ∈ normalizeReversed l, other.isList = false) :
      normalizeReversed (l ++ [item]) = normalizeReversed l ++ [item] := by
    induction l with
    | nil =>
      obtain ⟨other,member,_⟩ := kept
      simp [normalizeReversed] at member
    | cons first l ih =>
      rw [List.cons_append]
      unfold normalizeReversed at kept ⊢
      by_cases null : first.isNull = true
      · rw [if_pos null] at kept ⊢
        rw [if_pos null]
        exact ih kept
      · rw [if_neg null] at kept ⊢
        rw [if_neg null]
        by_cases list : first.isList = true
        · rw [if_pos list] at kept ⊢
          rw [if_pos list,List.cons_append,ih]
          obtain ⟨other,member,plain⟩ := kept
          rcases List.mem_cons.mp member with rfl | inside
          · rw [list] at plain
            simp at plain
          · exact ⟨other,inside,plain⟩
        · rw [if_neg list,if_neg list]
          rfl
  unfold normalize at kept ⊢
  rw [List.reverse_cons,reversed items.reverse]
  · simp
  · obtain ⟨other,member,plain⟩ := kept
    exact ⟨other,List.mem_reverse.mp member,plain⟩

theorem lexemes_true (items : List Item) :
    lexemes true items =
      (if (items.head?.map Item.isList) = some false then [mark dot] else []) ++
        lexemes false items := by
  cases items with
  | nil => rfl
  | cons item rest => cases list : item.isList <;> simp [lexemes,list]

/-- Where a list begins with an item that is no list, its text begins with that item. -/
theorem lexemes_head {items : List Item} (plain : items.head?.map Item.isList = some false) :
    ∃ x l, lexemes false items = x :: l ∧ x.kind ≠ .mark := by
  cases items with
  | nil => simp at plain
  | cons item rest =>
    cases item with
    | integer value => exact ⟨integer value,lexemes true rest,rfl,by simp [Lexeme.kind]⟩
    | string value => exact ⟨string value,lexemes true rest,rfl,by simp [Lexeme.kind]⟩
    | list separator inner => simp [Item.isList] at plain

theorem lexemes_ne_nil {items : List Item} (normal : Normal items) (some_ : items ≠ []) :
    lexemes false items ≠ [] := by
  induction normal with
  | nil => exact absurd rfl some_
  | integer => simp [lexemes,Item.lexemes]
  | string => simp [lexemes,Item.lexemes]
  | list inside mark inner ih =>
    have shown := ih inside
    simp [lexemes,Item.lexemes,Item.isList,shown]

theorem dot_plain : dot ∉ punctuation := by decide

theorem lexemes_first {items : List Item} (normal : Normal items) :
    ∀ x ∈ (lexemes false items).head?, x ≠ mark dot := by
  induction normal with
  | nil => simp [lexemes]
  | integer => simp [lexemes,Item.lexemes]
  | string => simp [lexemes,Item.lexemes]
  | @list separator inner some_ marks inside ih =>
    cases separator with
    | none => simpa [lexemes,Item.lexemes,Item.isList] using ih
    | some c =>
      have plain : c ≠ dot := fun same => dot_plain (same ▸ marks c rfl)
      simpa [lexemes,Item.lexemes,Item.isList] using plain

theorem trim_dot {items : List Item} (trim : Trim (lexemes false items)) :
    Trim (lexemes true items) := by
  rw [lexemes_true]
  split
  · rename_i plain
    obtain ⟨x,l,head,shown⟩ := lexemes_head plain
    rw [List.singleton_append]
    apply trim.cons
    · rw [head]
      intro y member
      obtain rfl : x = y := by simpa using member
      exact ⟨fun same => shown (by rw [same]; rfl),fun _ => shown⟩
    · intro empty
      rw [head] at empty
      simp at empty
  · exact trim

theorem lexemes_trim {items : List Item} (normal : Normal items) : Trim (lexemes false items) := by
  induction normal with
  | nil => exact ⟨by simp [lexemes],by simp [lexemes]⟩
  | @integer value rest tail zero turn ih =>
    have whole : lexemes false (.integer value :: rest) = integer value :: lexemes true rest := rfl
    rw [whole]
    apply (trim_dot ih).cons
    · intro y member null
      obtain ⟨next,more,rfl,plain⟩ := zero null
      rw [lexemes_true,if_pos (by simp [plain])] at member
      exact (Option.some.inj member).symm
    · intro empty
      refine ⟨by simp [Lexeme.kind],?_⟩
      intro same
      obtain ⟨next,more,rfl,plain⟩ := zero (Lexeme.integer.inj same)
      simp [lexemes,plain] at empty
  | @string value rest shown letters tail ih =>
    have whole : lexemes false (.string value :: rest) = string value :: lexemes true rest := rfl
    rw [whole]
    exact (trim_dot ih).cons (fun _ _ => trivial) fun _ => by simp [Lexeme.kind]
  | @list separator inner some_ marks inside ih =>
    cases separator with
    | none => simpa [lexemes,Item.lexemes,Item.isList] using ih
    | some c =>
      have plain : c ≠ dot := fun same => dot_plain (same ▸ marks c rfl)
      have whole : lexemes false [.list (some c) inner] = mark c :: lexemes false inner := by
        simp [lexemes,Item.lexemes,Item.isList]
      rw [whole]
      apply ih.cons
      · exact fun y member => ⟨lexemes_first inside y member,fun same => absurd same plain⟩
      · exact fun empty => absurd empty (lexemes_ne_nil inside some_)

/-- Joined strings stand in the place of a string. -/
theorem closeUp_first (l : List Lexeme) :
    ∀ y ∈ (closeUp l).head?, ∃ x ∈ l.head?, x = y ∨ (x.kind = .letter ∧ y.kind = .letter) := by
  cases l with
  | nil => simp [closeUp]
  | cons x l =>
    cases x with
    | mark c => simp [closeUp]
    | integer value => simp [closeUp]
    | string s =>
      intro y member
      have kinds := absorb_head s (closeUp l)
      have first : (absorb s (closeUp l)).head? = some y := member
      rw [first] at kinds
      exact ⟨string s,rfl,Or.inr ⟨rfl,by simpa using kinds⟩⟩

theorem Follows.letter {x y z : Lexeme} (follows : Follows x y)
    (like : y = z ∨ (y.kind = .letter ∧ z.kind = .letter)) : Follows x z := by
  rcases like with rfl | ⟨letter,letter'⟩
  · exact follows
  · have no_dot {w : Lexeme} (kind : w.kind = .letter) : w ≠ mark dot := by
      rintro rfl
      cases kind
    cases x with
    | string s => trivial
    | integer value => exact fun zero => absurd (follows zero) (no_dot letter)
    | mark c => exact ⟨no_dot letter',fun _ => by simp [letter']⟩

theorem absorb_trim {s : JavaString} {l : List Lexeme} (trim : Trim l) : Trim (absorb s l) := by
  rcases absorb_cases s l with ⟨t,rest,rfl,joined⟩ | ⟨apart,other⟩
  · rw [joined]
    exact trim.tail.cons (fun _ _ => trivial) fun _ => by simp [Lexeme.kind]
  · rw [apart]
    exact trim.cons (fun _ _ => trivial) fun _ => by simp [Lexeme.kind]

theorem closeUp_trim {l : List Lexeme} (trim : Trim l) : Trim (closeUp l) := by
  induction l with
  | nil => exact trim
  | cons x l ih =>
    have later := ih trim.tail
    have grown : Trim (x :: closeUp l) := by
      apply later.cons
      · intro y member
        obtain ⟨z,first,like⟩ := closeUp_first l y member
        exact ((List.isChain_cons.mp trim.chain).1 z first).letter like
      · intro empty
        have whole : l = [] := by
          cases l with
          | nil => rfl
          | cons y l =>
            have head := closeUp_head (y :: l)
            rw [empty] at head
            simp at head
        exact trim.last x (by simp [whole])
    cases x with
    | string s => exact absorb_trim later
    | mark c => exact grown
    | integer value => exact grown

end Trim

section Regrowing

/-- What the reading of a trimmed text leaves after normalization is its lexemes: from
the start of a list, and behind an item. -/
structure Regrown (l : List Lexeme) : Prop where
  whole : (∀ x ∈ l.head?, x ≠ mark dot) → Trim l → lexemes false (normalize (grow none l)) = l
  atom : Trim l → (∃ x ∈ l.head?, x.kind ≠ .mark) →
    (normalize (grow none l)).head?.map Item.isList = some false
  behind : ∀ x : Lexeme, x.Shown → x.kind ≠ .mark → Trim (x :: l) →
    ∃ rest, normalize (grow (some x.item) l) = x.item :: rest ∧ lexemes true rest = l

theorem item_isList (x : Lexeme) : x.item.isList = false := by
  cases x <;> rfl

theorem item_isNull {x : Lexeme} (shown : x.Shown) (plain : x.kind ≠ .mark)
    (not_zero : x ≠ integer 0) : x.item.isNull = false := by
  cases x with
  | mark c => exact absurd rfl plain
  | string value =>
    have some_ : value ≠ [] := shown.1
    simpa [item,Item.isNull] using some_
  | integer value =>
    have positive : value ≠ 0 := fun zero => not_zero (by rw [zero])
    simpa [item,Item.isNull] using positive

theorem normalize_single {item : Item} (shown : item.isNull = false) (plain : item.isList = false) :
    normalize [item] = [item] := by
  simp [normalize,normalizeReversed,shown,plain]

/-- An item that is not null stays, with the list behind it. -/
theorem normalize_kept {item : Item} (shown : item.isNull = false) (plain : item.isList = false)
    (separator : Option CodeUnit) {inner : List Item} (some_ : inner ≠ []) :
    normalize [item,.list separator inner] = [item,.list separator inner] := by
  have whole := normalize_append_list [item] separator inner
  rw [normalize_single shown plain,if_neg some_] at whole
  exact whole

theorem lexemes_plain {x : Lexeme} (plain : x.kind ≠ .mark) (rest : List Item) :
    lexemes false (x.item :: rest) = x :: lexemes true rest := by
  cases x with
  | mark c => exact absurd rfl plain
  | string value => rfl
  | integer value => rfl

theorem not_zero_of_follows {x y : Lexeme} (follows : Follows x y) (other : y ≠ mark dot) :
    x ≠ integer 0 := by
  rintro rfl
  exact other (follows rfl)

theorem regrown_nil : Regrown [] where
  whole _ _ := rfl
  atom _ some_ := by simp at some_
  behind x shown plain trim := by
    have not_zero := (trim.last x (by simp)).2
    exact ⟨[],normalize_single (item_isNull shown plain not_zero) (item_isList x),rfl⟩

theorem regrown_dot {l : List Lexeme} (regrown : Regrown l) : Regrown (mark dot :: l) where
  whole first _ := absurd rfl (first (mark dot) rfl)
  atom _ some_ := by simp [Lexeme.kind] at some_
  behind x shown plain trim := by
    have chain := (List.isChain_cons.mp trim.tail.chain).1
    have some_ : ∃ y ∈ l.head?, y.kind ≠ .mark := by
      cases l with
      | nil => exact absurd rfl (trim.tail.last (mark dot) rfl).1
      | cons y l => exact ⟨y,rfl,(chain y rfl).2 rfl⟩
    have atom := regrown.atom trim.tail.tail some_
    have text := regrown.whole (fun y member => (chain y member).1) trim.tail.tail
    have kept : ∃ other ∈ normalize (grow none l), other.isList = false := by
      cases items : normalize (grow none l) with
      | nil => simp [items] at atom
      | cons first more => exact ⟨first,by simp,by simpa [items] using atom⟩
    refine ⟨normalize (grow none l),?_,?_⟩
    · rw [grow,if_pos rfl,Option.getD_some]
      exact normalize_cons kept
    · rw [lexemes_true,if_pos atom,text]
      rfl

theorem regrown_mark {l : List Lexeme} (regrown : Regrown l) {c : CodeUnit} (plain : c ≠ dot) :
    Regrown (mark c :: l) := by
  have inner (trim : Trim (mark c :: l)) :
      lexemes false (normalize (grow none l)) = l ∧ normalize (grow none l) ≠ [] := by
    have chain := (List.isChain_cons.mp trim.chain).1
    have text := regrown.whole (fun y member => (chain y member).1) trim.tail
    refine ⟨text,?_⟩
    intro empty
    rw [empty] at text
    cases l with
    | nil => exact absurd rfl (trim.last (mark c) rfl).1
    | cons y l => simp [lexemes] at text
  refine ⟨?_,by simp [Lexeme.kind],?_⟩
  · intro _ trim
    obtain ⟨text,some_⟩ := inner trim
    have dropped := normalize_append_list [.integer 0] (some c) (normalize (grow none l))
    rw [if_neg some_] at dropped
    rw [grow,if_neg plain,Option.getD_none]
    refine (congrArg (lexemes false) dropped).trans ?_
    have zero : normalize [.integer 0] = [] := rfl
    rw [zero]
    simp [lexemes,Item.lexemes,Item.isList,text]
  · intro x shown kind trim
    obtain ⟨text,some_⟩ := inner trim.tail
    have not_zero : x ≠ integer 0 := by
      apply not_zero_of_follows ((List.isChain_cons.mp trim.chain).1 (mark c) rfl)
      simpa using plain
    refine ⟨[.list (some c) (normalize (grow none l))],?_,?_⟩
    · rw [grow,if_neg plain,Option.getD_some]
      exact normalize_kept (item_isNull shown kind not_zero) (item_isList x) _ some_
    · simp [lexemes,Item.lexemes,Item.isList,text]

theorem regrown_plain {l : List Lexeme} (regrown : Regrown l) {y : Lexeme} (shown' : y.Shown)
    (plain' : y.kind ≠ .mark) : Regrown (y :: l) := by
  have none_ : grow none (y :: l) = grow (some y.item) l := by
    cases y <;> first | rfl | exact absurd rfl plain'
  refine ⟨?_,?_,?_⟩
  · intro _ trim
    obtain ⟨rest,items,text⟩ := regrown.behind y shown' plain' trim
    rw [none_,items,lexemes_plain plain',text]
  · intro trim _
    obtain ⟨rest,items,_⟩ := regrown.behind y shown' plain' trim
    rw [none_,items]
    simp [item_isList]
  · intro x shown plain trim
    obtain ⟨rest,items,text⟩ := regrown.behind y shown' plain' trim.tail
    have not_zero : x ≠ integer 0 := by
      apply not_zero_of_follows ((List.isChain_cons.mp trim.chain).1 y rfl)
      rintro rfl
      exact plain' rfl
    have opened : grow (some x.item) (y :: l) =
        [x.item,.list none (normalize (grow (some y.item) l))] := by
      cases y <;> first | rfl | exact absurd rfl plain'
    refine ⟨[.list none (normalize (grow (some y.item) l))],?_,?_⟩
    · rw [opened]
      exact normalize_kept (item_isNull shown plain not_zero) (item_isList x) _ (by simp [items])
    · have shown := lexemes_plain plain' rest
      rw [text,← items] at shown
      simp [lexemes,Item.lexemes,Item.isList,shown]

theorem regrown {l : List Lexeme} (shown : ∀ x ∈ l, x.Shown) : Regrown l := by
  induction l with
  | nil => exact regrown_nil
  | cons x l ih =>
    have later := ih fun y member => shown y (by simp [member])
    by_cases plain : x.kind = .mark
    · obtain ⟨c,rfl⟩ := kind_mark_iff.mp plain
      by_cases is_dot : c = dot
      · rw [is_dot]
        exact regrown_dot later
      · exact regrown_mark later is_dot
    · exact regrown_plain later (shown x (by simp)) plain

end Regrowing

section Idempotence

theorem parseVersion_print {l : List Lexeme} (proper : Proper l) :
    parseVersion (print l) = normalize (grow none l) :=
  @items_foldl l proper Parser.start none rfl (by simp)

theorem canonical_print {l : List Lexeme} (proper : Proper l) (trim : Trim l)
    (first : ∀ x ∈ l.head?, x ≠ mark dot) : canonical (print l) = print l := by
  have whole := (regrown proper.1).whole first trim
  rw [canonical_eq,versionLexemes,parseVersion_print proper,whole]

theorem canonical_canonical (version : JavaString) :
    canonical (canonical version) = canonical version := by
  have normal := parseVersion_normal version
  have first : ∀ x ∈ (closeUp (versionLexemes version)).head?, x ≠ mark dot := by
    intro y member
    obtain ⟨x,head,like⟩ := closeUp_first _ y member
    rcases like with rfl | ⟨_,letter⟩
    · exact lexemes_first normal x head
    · rintro rfl
      cases letter
  rw [canonical_eq version,← print_closeUp]
  exact canonical_print (closeUp_proper (versionLexemes_apart version))
    (closeUp_trim (lexemes_trim normal)) first

namespace VersionNumber

/-- Normalizing again changes nothing, and a version equals its normal form. -/
theorem normalize_normalize (s : JavaString) :
    normalize (normalize s) = normalize s ∧ equals s (normalize s) = true := by
  have same : normalize (normalize s) = normalize s := canonical_canonical s
  exact ⟨same,decide_eq_true same.symm⟩

end VersionNumber

end Idempotence

end HmclPe.Versioning
