import Mathlib.Data.List.DropRight
import HmclPe.Versioning.TokenOrder

/-! The parser keeps its open lists flat and turns from numbers to strings where it opens a
list without a mark. Closing and normalizing the lists then gives normal items. -/
namespace HmclPe.Versioning
open HmclPe.Lib.VoidEnds

/-- An item as the parser reads it from the text. -/
inductive Atom : Item → Prop
  | integer (value : Nat) : Atom (.integer value)
  | string {value : JavaString} (shown : value ≠ []) (letters : ∀ c ∈ value, Letter c) :
      Atom (.string value)

def Flat (items : List Item) : Prop := ∀ item ∈ items, Atom item

theorem Atom.isList {item : Item} (atom : Atom item) : item.isList = false := by
  cases atom <;> rfl

/-- A list opened at a mark, or between the digits and the letters of one text. -/
def Linked (separator : Option CodeUnit) (before items : List Item) : Prop :=
  match separator with
  | some c => c ∈ punctuation
  | none => (∃ value, before.getLast? = some (.integer value)) → StartsWithString items

section Normalize

theorem normalizeReversed_flat {items : List Item} (flat : Flat items) :
    normalizeReversed items = items.dropWhile Item.isNull := by
  induction items with
  | nil => rfl
  | cons item rest ih =>
    have here := (flat item (by simp)).isList
    have later := ih fun other member => flat other (by simp [member])
    rw [normalizeReversed,List.dropWhile_cons,later]
    simp [here]

theorem normalize_flat {items : List Item} (flat : Flat items) :
    normalize items = items.rdropWhile Item.isNull := by
  unfold normalize
  rw [normalizeReversed_flat fun item member => flat item (List.mem_reverse.mp member)]
  rfl

theorem normalize_append_list (items : List Item) (separator : Option CodeUnit)
    (inner : List Item) : normalize (items ++ [.list separator inner]) = normalize items ++
      if inner = [] then [] else [.list separator inner] := by
  unfold normalize
  rw [List.reverse_append,List.reverse_singleton,List.singleton_append,normalizeReversed]
  cases inner with
  | nil => simp [Item.isNull]
  | cons first inner => simp [Item.isNull,Item.isList]

theorem normalize_startsWithString {items : List Item} {tail : List Item}
    (flat : Flat items) (starts : StartsWithString items) :
    StartsWithString (normalize items ++ tail) := by
  obtain ⟨value,rest,rfl⟩ := starts
  have shown : (Item.string value).isNull = false := by
    cases flat (.string value) (by simp) with
    | string shown letters => simpa [Item.isNull] using shown
  rw [normalize_flat flat]
  induction rest using List.reverseRecOn with
  | nil =>
    rw [List.rdropWhile_singleton,if_neg (by simp [shown])]
    exact ⟨value,tail,rfl⟩
  | append_singleton rest item ih =>
    rw [← List.cons_append,List.rdropWhile_concat]
    split
    · apply ih
      intro other member
      exact flat other (by
        rw [← List.cons_append]
        exact List.mem_append_left _ member)
    · exact ⟨value,rest ++ item :: tail,by simp⟩

theorem normalize_last_integer {items : List Item} (flat : Flat items) {value : Nat}
    (last : (normalize items).getLast? = some (.integer value)) :
    ∃ other, items.getLast? = some (.integer other) := by
  rw [normalize_flat flat] at last
  cases items using List.reverseRecOn with
  | nil => simp at last
  | append_singleton rest item =>
    rw [List.rdropWhile_concat] at last
    rw [List.getLast?_concat]
    cases flat item (by simp) with
    | integer other => exact ⟨other,rfl⟩
    | string shown letters =>
      rw [if_neg (by simpa [Item.isNull] using shown),List.getLast?_concat] at last
      simp at last

/-- Items without a null one at the end, and normal items behind them. -/
theorem normal_append {items tail : List Item} (flat : Flat items)
    (last : ∀ item ∈ items.getLast?, item.isNull = false) (normal : Normal tail)
    (turn : ∀ inner, tail = [.list none inner] →
      (∃ value, items.getLast? = some (.integer value)) → StartsWithString inner) :
    Normal (items ++ tail) := by
  induction items with
  | nil => exact normal
  | cons item rest ih =>
    have later : Normal (rest ++ tail) := by
      apply ih
      · exact fun other member => flat other (by simp [member])
      · intro other member
        cases rest with
        | nil => simp at member
        | cons next rest => exact last other (by rwa [List.getLast?_cons_cons])
      · intro inner same more
        cases rest with
        | nil => simp at more
        | cons next rest => exact turn inner same (by rwa [List.getLast?_cons_cons])
    rw [List.cons_append]
    cases flat item (by simp) with
    | string shown letters => exact Normal.string shown letters later
    | integer value =>
      apply Normal.integer later
      · intro zero
        cases rest with
        | nil =>
          have not_null := last (.integer value) (by simp)
          simp [Item.isNull,zero] at not_null
        | cons next rest => exact ⟨next,rest ++ tail,rfl,(flat next (by simp)).isList⟩
      · intro inner same
        cases rest with
        | nil => exact turn inner same ⟨value,by simp⟩
        | cons next rest =>
          have atom := (flat next (by simp)).isList
          obtain ⟨rfl,_⟩ := List.cons.inj same
          simp [Item.isList] at atom

theorem normalize_last {items : List Item} (flat : Flat items) :
    ∀ item ∈ (normalize items).getLast?, item.isNull = false := by
  intro item member
  rw [normalize_flat flat] at member
  have nonempty : items.rdropWhile Item.isNull ≠ [] := by
    intro empty
    simp [empty] at member
  rw [List.getLast?_eq_some_getLast nonempty] at member
  obtain rfl := Option.some.inj member
  simpa using List.rdropWhile_last_not Item.isNull items nonempty

theorem normalize_subset {items : List Item} (flat : Flat items) : Flat (normalize items) := by
  intro item member
  rw [normalize_flat flat] at member
  exact flat item ((List.rdropWhile_prefix _ _).subset member)

theorem normal_normalize {items : List Item} (flat : Flat items) : Normal (normalize items) := by
  rw [← List.append_nil (normalize items)]
  exact normal_append (normalize_subset flat) (normalize_last flat) Normal.nil (by simp)

/-- A list and the normalized list in it. -/
theorem normal_normalize_list {items inner : List Item} {separator : Option CodeUnit}
    (flat : Flat items) (normal : Normal inner) (linked : inner ≠ [] → Linked separator items inner) :
    Normal (normalize (items ++ [.list separator inner])) := by
  rw [normalize_append_list]
  split
  · rw [List.append_nil]
    exact normal_normalize flat
  · rename_i some_
    have link := linked some_
    apply normal_append (normalize_subset flat) (normalize_last flat)
    · apply Normal.list some_ _ normal
      intro c member
      obtain rfl := Option.mem_def.mp member
      exact link
    · intro other same more
      obtain ⟨⟨rfl,rfl⟩,_⟩ : (separator = none ∧ inner = other) ∧ True := by simpa using same
      obtain ⟨value,last⟩ := more
      exact link (normalize_last_integer flat last)

end Normalize

section Parser

/-- The open lists from the top of the stack down. -/
def Chained : OpenList → List OpenList → Prop
  | list, [] => Flat list.items
  | list, parent :: stack =>
    Flat list.items ∧ Linked list.separator parent.items list.items ∧ Chained parent stack

theorem Chained.flat {list : OpenList} {stack : List OpenList} (chained : Chained list stack) :
    Flat list.items := by
  cases stack with
  | nil => exact chained
  | cons parent stack => exact chained.1

theorem close_normal {items tail : List Item} {separator : Option CodeUnit}
    {stack : List OpenList} (chained : Chained ⟨separator,items⟩ stack)
    (single : tail = [] ∨ ∃ mark inner, tail = [.list mark inner] ∧ Normal inner ∧
      (inner ≠ [] → Linked mark items inner)) :
    Normal (Parser.close (items ++ tail) separator stack) := by
  have flat := chained.flat
  have normal : Normal (normalize (items ++ tail)) := by
    rcases single with rfl | ⟨mark,inner,rfl,normal,linked⟩
    · rw [List.append_nil]
      exact normal_normalize flat
    · exact normal_normalize_list flat normal linked
  have starts (first : StartsWithString items) : StartsWithString (normalize (items ++ tail)) := by
    rcases single with rfl | ⟨mark,inner,rfl,_,_⟩
    · rw [List.append_nil,← List.append_nil (normalize items)]
      exact normalize_startsWithString flat first
    · rw [normalize_append_list]
      exact normalize_startsWithString flat first
  induction stack generalizing items tail separator with
  | nil => exact normal
  | cons parent stack ih =>
    obtain ⟨_,linked,below⟩ := chained
    have link : Linked separator parent.items (normalize (items ++ tail)) := by
      cases separator with
      | some c => exact linked
      | none => exact fun before => starts (linked before)
    apply ih below (Or.inr ⟨separator,_,rfl,normal,fun _ => link⟩) below.flat
    · exact normal_normalize_list below.flat normal fun _ => link
    · intro first
      rw [normalize_append_list]
      exact normalize_startsWithString below.flat first

/-- The lists as they stand once the text read so far is an item, and that text is of one kind. -/
structure Reading (parser : Parser) : Prop where
  chained : Chained parser.finish.list parser.finish.stack
  kind : ∀ c ∈ parser.buf, isDigit c = parser.isDigit ∧ c ≠ dot ∧ c ∉ punctuation

theorem parseItem_digits {buf : JavaString} (digits : ∀ c ∈ buf, isDigit c = true) :
    parseItem buf = .integer (bigInteger buf) := if_pos (List.all_eq_true.mpr digits)

theorem parseItem_letters {buf : JavaString} (some_ : buf ≠ [])
    (letters : ∀ c ∈ buf, isDigit c = false) : parseItem buf = .string buf := by
  apply if_neg
  cases buf with
  | nil => exact absurd rfl some_
  | cons c buf => simp [letters c (by simp)]

theorem parseItem_atom {buf : JavaString} (some_ : buf ≠ []) {flag : Bool}
    (kind : ∀ c ∈ buf, isDigit c = flag ∧ c ≠ dot ∧ c ∉ punctuation) : Atom (parseItem buf) := by
  cases flag with
  | true =>
    rw [parseItem_digits fun c member => (kind c member).1]
    exact Atom.integer _
  | false =>
    rw [parseItem_letters some_ fun c member => (kind c member).1]
    exact Atom.string some_ kind

theorem Flat.concat {items : List Item} (flat : Flat items) {item : Item} (atom : Atom item) :
    Flat (items ++ [item]) := by
  intro other member
  rcases List.mem_append.mp member with inside | last
  · exact flat other inside
  · rw [List.mem_singleton.mp last]
    exact atom

/-- Items may be added behind those that a list has. -/
theorem Chained.mono {list other : OpenList} {stack : List OpenList}
    (chained : Chained list stack) (flat : Flat other.items) (same : other.separator = list.separator)
    (starts : StartsWithString list.items → StartsWithString other.items) : Chained other stack := by
  cases stack with
  | nil => exact flat
  | cons parent stack =>
    obtain ⟨_,linked,below⟩ := chained
    refine ⟨flat,?_,below⟩
    rw [same]
    cases mark : list.separator with
    | some c =>
      rw [mark] at linked
      exact linked
    | none =>
      rw [mark] at linked
      exact fun before => starts (linked before)

theorem StartsWithString.append {items : List Item} (starts : StartsWithString items)
    (more : List Item) : StartsWithString (items ++ more) := by
  obtain ⟨value,rest,rfl⟩ := starts
  exact ⟨value,rest ++ more,rfl⟩

theorem start_reading : Reading Parser.start :=
  ⟨by simp [Parser.finish,Parser.start,Chained,Flat],by simp [Parser.start]⟩

theorem Reading.addItem {parser : Parser} (reading : Reading parser) :
    Chained parser.addItem.list parser.stack := by
  have chained := reading.chained
  unfold Parser.finish at chained
  unfold Parser.addItem
  by_cases empty : parser.buf = []
  · rw [if_pos empty] at chained ⊢
    exact chained.mono (chained.flat.concat (Atom.integer 0)) rfl fun starts => starts.append _
  · rw [if_neg empty] at chained ⊢
    exact chained

theorem finish_empty {parser : Parser} (empty : parser.buf = []) : parser.finish = parser :=
  if_pos empty

theorem finish_some {parser : Parser} (some_ : parser.buf ≠ []) :
    parser.finish = parser.add (parseItem parser.buf) := if_neg some_

theorem parseItem_string {buf : JavaString} {flag : Bool} (kind : ∀ c ∈ buf, isDigit c = flag)
    (starts : StartsWithString [parseItem buf]) : flag = false := by
  cases flag with
  | false => rfl
  | true =>
    obtain ⟨value,rest,same⟩ := starts
    rw [parseItem_digits kind] at same
    simp at same

/-- A new list where digits turn to letters or letters to digits. -/
theorem turn_linked {before : List Item} {buf : JavaString} (some_ : buf ≠ []) {flag : Bool}
    (kind : ∀ c ∈ buf, isDigit c = flag) {c : CodeUnit} (turn : flag ≠ isDigit c) :
    Linked none (before ++ [parseItem buf]) [parseItem [c]] := by
  rintro ⟨value,last⟩
  rw [List.getLast?_concat] at last
  cases flag with
  | false =>
    rw [parseItem_letters some_ kind] at last
    simp at last
  | true =>
    have letter : isDigit c = false := by simpa using turn.symm
    exact ⟨[c],[],by rw [parseItem_letters (by simp) (by simpa using letter)]⟩

/-- One more character of the kind that the text read so far has. -/
theorem grown_startsWithString {items : List Item} {buf : JavaString} {flag : Bool}
    (kind : ∀ c ∈ buf, isDigit c = flag) {c : CodeUnit} (same : isDigit c = flag)
    (starts : StartsWithString (items ++ [parseItem buf])) :
    StartsWithString (items ++ [parseItem (buf ++ [c])]) := by
  cases items with
  | nil =>
    have letters := parseItem_string kind starts
    subst letters
    refine ⟨buf ++ [c],[],?_⟩
    rw [List.nil_append,parseItem_letters (by simp)]
    intro d member
    rcases List.mem_append.mp member with inside | last
    · exact kind d inside
    · rw [List.mem_singleton.mp last]
      exact same
  | cons first items =>
    obtain ⟨value,rest,whole⟩ := starts
    rw [List.cons_append] at whole
    obtain ⟨rfl,_⟩ := List.cons.inj whole
    exact ⟨value,items ++ [parseItem (buf ++ [c])],rfl⟩

theorem step_reading {parser : Parser} (reading : Reading parser) (c : CodeUnit) :
    Reading (parser.step c) := by
  have added := reading.addItem
  obtain ⟨chained,kind⟩ := reading
  unfold Parser.step
  split
  · exact ⟨added,by simp [Parser.addItem,Parser.add]⟩
  rename_i not_dot
  split
  · rename_i mark
    rw [← finish_empty (show (parser.addItem.open_ (some c)).buf = [] from rfl)]
    have flat : Flat ([] : List Item) := by simp [Flat]
    exact ⟨⟨flat,mark,added⟩,by simp [Parser.finish,Parser.open_,Parser.addItem,Parser.add]⟩
  rename_i plain
  have here : ∀ d ∈ [c], isDigit d = isDigit c ∧ d ≠ dot ∧ d ∉ punctuation := by
    intro d member
    rw [List.mem_singleton.mp member]
    exact ⟨rfl,not_dot,plain⟩
  by_cases turn : parser.isDigit ≠ isDigit c ∧ parser.buf ≠ []
  · obtain ⟨other,some_⟩ := turn
    rw [finish_some some_] at chained
    simp only [if_pos (And.intro other some_)]
    refine ⟨?_,here⟩
    rw [finish_some (by simp [Parser.open_,Parser.add])]
    refine ⟨?_,turn_linked some_ (fun d member => (kind d member).1) other,chained⟩
    exact fun item member => by
      rw [List.mem_singleton.mp member]
      exact parseItem_atom (by simp) here
  · simp only [if_neg turn]
    have grown : ∀ d ∈ parser.buf ++ [c],
        isDigit d = isDigit c ∧ d ≠ dot ∧ d ∉ punctuation := by
      intro d member
      rcases List.mem_append.mp member with inside | last
      · have same : parser.isDigit = isDigit c := by
          by_contra other
          exact turn ⟨other,List.ne_nil_of_mem inside⟩
        rw [← same]
        exact kind d inside
      · exact here d last
    refine ⟨?_,grown⟩
    rw [finish_some (by simp)]
    have atom := parseItem_atom (by simp) grown
    by_cases empty : parser.buf = []
    · rw [finish_empty empty] at chained
      exact chained.mono (chained.flat.concat atom) rfl fun starts => starts.append _
    · have same : parser.isDigit = isDigit c := by
        by_contra other
        exact turn ⟨other,empty⟩
      rw [finish_some empty] at chained
      have flat : Flat parser.list.items :=
        fun item member => chained.flat item (List.mem_append_left _ member)
      refine chained.mono (flat.concat atom) rfl ?_
      exact grown_startsWithString (fun d member => (kind d member).1) same.symm

theorem foldl_reading {parser : Parser} (reading : Reading parser) (version : JavaString) :
    Reading (version.foldl Parser.step parser) := by
  induction version generalizing parser with
  | nil => exact reading
  | cons c version ih => exact ih (step_reading reading c)

/-- Every version is parsed to normal items. -/
theorem parseVersion_normal (version : JavaString) : Normal (parseVersion version) := by
  have reading := foldl_reading start_reading version
  have closed := @close_normal _ [] _ _ reading.chained (Or.inl rfl)
  rw [List.append_nil] at closed
  exact closed

end Parser

end HmclPe.Versioning
