import Mathlib.Data.Prod.Lex
import HmclPe.Lib.VoidEnds
import HmclPe.Versioning.VersionNumber

/-! Normalized version items as flat token lists. The order on nested items is the
lexicographic order on tokens, but for sub-lists that count as nothing. -/
namespace HmclPe.Versioning
open HmclPe.Lib.VoidEnds

inductive Token where
  | string (value : JavaString)
  | opening
  | integer (value : Nat)
  deriving DecidableEq

namespace Token

def rank : Token → Nat ×ₗ (JavaString ×ₗ Nat)
  | string value => toLex (0,toLex (value,0))
  | opening => toLex (1,toLex ([],0))
  | integer value => toLex (2,toLex ([],value))

theorem rank_injective : Function.Injective rank := by
  intro s t same
  cases s <;> cases t <;> simp_all [rank]

instance : LinearOrder Token := LinearOrder.lift' rank rank_injective

theorem lt_iff (s t : Token) : s < t ↔ s.rank < t.rank := Iff.rfl

@[simp] theorem string_lt_string (s t : JavaString) : string s < string t ↔ s < t := by
  simp [lt_iff,rank,Prod.Lex.toLex_lt_toLex]

@[simp] theorem integer_lt_integer (n m : Nat) : integer n < integer m ↔ n < m := by
  simp [lt_iff,rank,Prod.Lex.toLex_lt_toLex]

@[simp] theorem string_lt_opening (s : JavaString) : string s < opening := by
  simp [lt_iff,rank,Prod.Lex.toLex_lt_toLex]

@[simp] theorem opening_lt_integer (n : Nat) : opening < integer n := by
  simp [lt_iff,rank,Prod.Lex.toLex_lt_toLex]

@[simp] theorem string_lt_integer (s : JavaString) (n : Nat) : string s < integer n :=
  (string_lt_opening s).trans (opening_lt_integer n)

end Token

open Token

mutual

def Item.tokens : Item → List Token
  | .integer value => [integer value]
  | .string value => [string value]
  | .list _ items => opening :: Versioning.tokens items

def tokens : List Item → List Token
  | [] => []
  | item :: rest => item.tokens ++ tokens rest

end

/-- Zero behind any number of openings. -/
def startsWithZero : List Token → Bool
  | opening :: rest => startsWithZero rest
  | integer value :: _ => value = 0
  | _ => false

/-- A continuation that counts as nothing against the end of a list. -/
def VoidEnd : List Token → Prop
  | opening :: rest => startsWithZero rest
  | _ => False

theorem voidEnd_nil : ¬VoidEnd [] := id

/-- Another item of the same list follows. -/
def Further (rest : List Item) : Prop := ∃ next more, rest = next :: more ∧ next.isList = false

def Letter (c : CodeUnit) : Prop := isDigit c = false ∧ c ≠ dot ∧ c ∉ punctuation

def StartsWithString (items : List Item) : Prop := ∃ value rest, items = .string value :: rest

/-- What normalization leaves of a parsed version: a sub-list is not empty and stands last,
and a zero is followed by another item of its list. -/
inductive Normal : List Item → Prop
  | nil : Normal []
  | integer {value : Nat} {rest : List Item} (tail : Normal rest)
      (zero : value = 0 → Further rest)
      (turn : ∀ items, rest = [.list none items] → StartsWithString items) :
      Normal (.integer value :: rest)
  | string {value : JavaString} {rest : List Item} (shown : value ≠ [])
      (letters : ∀ c ∈ value, Letter c) (tail : Normal rest) : Normal (.string value :: rest)
  | list {separator : Option CodeUnit} {items : List Item} (some_ : items ≠ [])
      (mark : ∀ c ∈ separator, c ∈ punctuation) (inner : Normal items) :
      Normal [.list separator items]

theorem compareStrings_lt (s t : JavaString) :
    (compareStrings s t < 0 ↔ s < t) ∧ (0 < compareStrings s t ↔ t < s) := by
  induction s generalizing t with
  | nil =>
    cases t with
    | nil => simp [compareStrings]
    | cons d t =>
      have negative : compareStrings [] (d :: t) < 0 := by
        simp only [compareStrings,List.length_cons,List.length_nil]
        omega
      exact ⟨iff_of_true negative (List.nil_lt_cons _ _),
        iff_of_false (not_lt.mpr negative.le) (List.not_lt_nil _)⟩
  | cons c s ih =>
    cases t with
    | nil =>
      have positive : 0 < compareStrings (c :: s) [] := by
        simp only [compareStrings,List.length_cons,List.length_nil]
        omega
      exact ⟨iff_of_false (not_lt.mpr positive.le) (List.not_lt_nil _),
        iff_of_true positive (List.nil_lt_cons _ _)⟩
    | cons d t =>
      unfold compareStrings
      rw [List.cons_lt_cons_iff,List.cons_lt_cons_iff]
      split
      · rename_i same
        subst same
        simpa using ih t
      · rename_i different
        have below : ((c.val : Int) - d.val < 0) ↔ c < d := by
          rw [Fin.lt_def]
          omega
        have above : (0 < (c.val : Int) - d.val) ↔ d < c := by
          rw [Fin.lt_def]
          omega
        rw [below,above]
        simp [different,Ne.symm different]

theorem compareIntegers_lt (n m : Nat) :
    (compareIntegers n m < 0 ↔ n < m) ∧ (0 < compareIntegers n m ↔ m < n) := by
  unfold compareIntegers
  split
  · simp
    omega
  · split
    · simp
      omega
    · simp
      omega

/-- Against the end of a list a sub-list is zero or above. -/
theorem compareToNull_list {separator : Option CodeUnit} {items : List Item} (some_ : items ≠ [])
    (normal : Normal items) :
    (Item.list separator items).compareToNull = if startsWithZero (tokens items) then 0 else 1 := by
  induction normal generalizing separator with
  | nil => exact absurd rfl some_
  | integer tail zero turn => simp [Item.compareToNull,firstToNull,tokens,Item.tokens,startsWithZero]
  | string shown letters tail => simp [Item.compareToNull,firstToNull,tokens,Item.tokens,startsWithZero]
  | @list separator' items' some_' mark inner ih =>
    have deeper := @ih separator' some_'
    simpa [Item.compareToNull,firstToNull,tokens,Item.tokens,startsWithZero] using deeper

theorem compareRest_further {rest : List Item} (normal : Normal rest) (further : Further rest) :
    compareRest rest = 1 := by
  induction normal with
  | nil =>
    obtain ⟨_,_,absurd_,_⟩ := further
    simp at absurd_
  | @integer value rest tail zero turn ih =>
    by_cases null : value = 0
    · have later := ih (zero null)
      simpa [compareRest,Item.compareToNull,null] using later
    · simp [compareRest,Item.compareToNull,null]
  | string shown letters tail => simp [compareRest,Item.compareToNull]
  | list some_ mark inner =>
    obtain ⟨next,more,same,flat⟩ := further
    obtain ⟨rfl,rfl⟩ := List.cons.inj same
    simp [Item.isList] at flat

theorem compareRest_normal {rest : List Item} (normal : Normal rest) :
    0 ≤ compareRest rest ∧ (0 < compareRest rest ↔ tokens rest ≠ [] ∧ ¬VoidEnd (tokens rest)) := by
  cases normal with
  | nil => simp [compareRest,tokens]
  | @integer value rest tail zero turn =>
    rw [compareRest_further (Normal.integer tail zero turn) ⟨_,_,rfl,rfl⟩]
    simp [tokens,Item.tokens,VoidEnd]
  | @string value rest shown letters tail =>
    rw [compareRest_further (Normal.string shown letters tail) ⟨_,_,rfl,rfl⟩]
    simp [tokens,Item.tokens,VoidEnd]
  | @list separator items some_ mark inner =>
    have null := @compareToNull_list separator items some_ inner
    simp only [compareRest,null,tokens,Item.tokens,VoidEnd]
    split <;> simp_all

/-- The comparison of two lists reads off the order of their tokens. -/
def Reads (result : Int) (s t : List Token) : Prop :=
  (result < 0 ↔ Below VoidEnd s t) ∧ (0 < result ↔ Below VoidEnd t s)

theorem reads_step {first later : Int} {s t : Token} {x y : List Token}
    (below : first < 0 ↔ s < t) (above : 0 < first ↔ t < s) (rest : Reads later x y) :
    Reads (if first ≠ 0 then first else later) (s :: x) (t :: y) := by
  unfold Reads
  rcases lt_trichotomy s t with less | same | more
  · have negative := below.mpr less
    rw [if_pos (by omega),below_cons_of_ne less.ne,below_cons_of_ne less.ne']
    exact ⟨below,above⟩
  · subst same
    have zero : first = 0 := by
      have not_less := mt below.mp (lt_irrefl s)
      have not_more := mt above.mp (lt_irrefl s)
      omega
    rw [if_neg (by simp [zero]),below_cons,below_cons]
    exact rest
  · have positive := above.mpr more
    rw [if_pos (by omega),below_cons_of_ne more.ne',below_cons_of_ne more.ne]
    exact ⟨below,above⟩

theorem neg_one_lt : (-1 : Int) < 0 := by decide

theorem reads_less {first later : Int} (negative : first < 0) {s t : Token} (less : s < t)
    (x y : List Token) : Reads (if first ≠ 0 then first else later) (s :: x) (t :: y) := by
  unfold Reads
  rw [if_pos (by omega),below_cons_of_ne less.ne,below_cons_of_ne less.ne']
  exact ⟨iff_of_true negative less,iff_of_false (by omega) (lt_asymm less)⟩

theorem Reads.swap {result : Int} {s t : List Token} (reads : Reads result s t) :
    Reads (-1 * result) t s := by
  obtain ⟨below,above⟩ := reads
  unfold Reads
  rw [← above,← below]
  omega

theorem reads_more {first later : Int} (positive : 0 < first) {s t : Token} (more : t < s)
    (x y : List Token) : Reads (if first ≠ 0 then first else later) (s :: x) (t :: y) := by
  unfold Reads
  rw [if_pos (by omega),below_cons_of_ne more.ne',below_cons_of_ne more.ne]
  exact ⟨iff_of_false (by omega) (lt_asymm more),iff_of_true positive more⟩

theorem reads_rest {rest : List Item} (normal : Normal rest) :
    Reads (compareRest rest) (tokens rest) [] := by
  obtain ⟨bound,positive⟩ := compareRest_normal normal
  unfold Reads
  rw [nil_below voidEnd_nil]
  exact ⟨iff_of_false (by omega) (below_nil _),positive⟩

theorem compareItems_reads {left right : List Item} (normalL : Normal left)
    (normalR : Normal right) : Reads (compareItems left right) (tokens left) (tokens right) := by
  induction normalL generalizing right with
  | nil =>
    unfold compareItems
    exact (reads_rest normalR).swap
  | @integer value rest tail zero turn ih =>
    cases normalR with
    | nil =>
      unfold compareItems
      exact reads_rest (Normal.integer tail zero turn)
    | @integer other rest' tail' zero' turn' =>
      unfold compareItems
      simp only [Item.compareTo]
      obtain ⟨below,above⟩ := compareIntegers_lt value other
      exact reads_step (below.trans (integer_lt_integer _ _).symm)
        (above.trans (integer_lt_integer _ _).symm) (ih tail')
    | string shown' letters' tail' =>
      unfold compareItems
      simp only [Item.compareTo]
      exact reads_more Int.one_pos (string_lt_integer _ _) _ _
    | list some_' mark' inner' =>
      unfold compareItems
      simp only [Item.compareTo]
      exact reads_more Int.one_pos (opening_lt_integer _) _ _
  | @string value rest shown letters tail ih =>
    cases normalR with
    | nil =>
      unfold compareItems
      exact reads_rest (Normal.string shown letters tail)
    | integer tail' zero' turn' =>
      unfold compareItems
      simp only [Item.compareTo]
      exact reads_less neg_one_lt (string_lt_integer _ _) _ _
    | @string other rest' shown' letters' tail' =>
      unfold compareItems
      simp only [Item.compareTo]
      obtain ⟨below,above⟩ := compareStrings_lt value other
      exact reads_step (below.trans (string_lt_string _ _).symm)
        (above.trans (string_lt_string _ _).symm) (ih tail')
    | list some_' mark' inner' =>
      unfold compareItems
      simp only [Item.compareTo]
      exact reads_less neg_one_lt (string_lt_opening _) _ _
  | @list separator items some_ mark inner ih =>
    cases normalR with
    | nil =>
      unfold compareItems
      exact reads_rest (Normal.list some_ mark inner)
    | integer tail' zero' turn' =>
      unfold compareItems
      simp only [Item.compareTo]
      exact reads_less neg_one_lt (opening_lt_integer _) _ _
    | string shown' letters' tail' =>
      unfold compareItems
      simp only [Item.compareTo]
      exact reads_more Int.one_pos (string_lt_opening _) _ _
    | @list separator' items' some_' mark' inner' =>
      obtain ⟨below,above⟩ := ih inner'
      have ended : compareItems [] [] = 0 := by simp [compareItems,compareRest]
      unfold compareItems
      simp only [Item.compareTo,ended,tokens,Item.tokens,List.append_nil]
      unfold Reads
      rw [below_cons,below_cons,← below,← above]
      split <;> omega

end HmclPe.Versioning
