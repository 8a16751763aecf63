import Mathlib.Data.List.Basic
import Mathlib.Tactic

/-! Numbers written with a fixed count of digits, the highest first, and read back. -/
namespace HmclPe.Lib.Numerals
universe u
variable {α : Type u}

section Model
variable (base : Nat)

def write (digit : Nat → α) : Nat → Nat → List α
  | 0, _ => []
  | width + 1, n => write digit width (n / base) ++ [digit (n % base)]

/-- One more digit behind the number that is read so far. -/
def readDigit (value : α → Option Nat) (n : Nat) (a : α) : Option Nat :=
  (value a).map (base * n + ·)

def read (value : α → Option Nat) (digits : List α) : Option Nat :=
  digits.foldlM (readDigit base value) 0

end Model

variable {base : Nat} {digit : Nat → α} {value : α → Option Nat}

@[simp] theorem length_write (width n : Nat) : (write base digit width n).length = width := by
  induction width generalizing n with
  | zero => rfl
  | succ width ih => rw [write,List.length_append,ih,List.length_singleton]

theorem mem_write {width n : Nat} (positive : 0 < base) {a : α}
    (member : a ∈ write base digit width n) : ∃ d < base, a = digit d := by
  induction width generalizing n with
  | zero => exact absurd member List.not_mem_nil
  | succ width ih =>
    rw [write,List.mem_append] at member
    rcases member with earlier | last
    · exact ih earlier
    · exact ⟨n % base,Nat.mod_lt n positive,List.mem_singleton.mp last⟩

theorem read_append (front back : List α) :
    read base value (front ++ back) =
      (read base value front).bind fun n => back.foldlM (readDigit base value) n := by
  rw [read,List.foldlM_append]
  rfl

/-- The digits that are written carry the number up to their count. -/
theorem read_write (values : ∀ d < base, value (digit d) = some d) (positive : 0 < base)
    (width n : Nat) : read base value (write base digit width n) = some (n % base ^ width) := by
  induction width generalizing n with
  | zero =>
    rw [Nat.pow_zero,Nat.mod_one]
    rfl
  | succ width ih =>
    have last := values (n % base) (Nat.mod_lt n positive)
    rw [write,read_append,ih,Option.bind_some,List.foldlM_cons,readDigit,last,Nat.pow_succ',
      Nat.mod_mul]
    simp [Nat.add_comm]

end HmclPe.Lib.Numerals
