import Mathlib.Data.List.Basic
import Mathlib.Tactic

/-! A buffer of fixed size that is filled word by word and sent on whenever it is full, to a receiver
that takes in pieces and does not see where they end. -/
namespace HmclPe.Lib.Blocks

variable {β : Type}

structure Receiver (β : Type) where
  State : Type
  initial : State
  take : State → List β → State
  take_nil : ∀ s, take s [] = s
  take_append : ∀ s first second, take (take s first) second = take s (first ++ second)

section Cells

/-- Puts a word over what stands in the cells from a position on. -/
def overwrite (cells : List β) (position : Nat) (word : List β) : List β :=
  cells.take position ++ word ++ cells.drop (position + word.length)

variable {cells word : List β} {position : Nat}

theorem length_overwrite (fits : position + word.length ≤ cells.length) :
    (overwrite cells position word).length = cells.length := by
  simp only [overwrite,List.length_append,List.length_take,List.length_drop]
  omega

theorem take_overwrite (fits : position + word.length ≤ cells.length) :
    (overwrite cells position word).take (position + word.length) = cells.take position ++ word := by
  have front : (cells.take position ++ word).length = position + word.length := by
    simp only [List.length_append,List.length_take]
    omega
  rw [overwrite,List.take_append_of_le_length (le_of_eq front.symm),← front,List.take_length]

theorem overwrite_nil (cells : List β) (position : Nat) : overwrite cells position [] = cells := by
  simp [overwrite]

/-- A word is written cell by cell. -/
theorem overwrite_cons (cell : β) (inside : position < cells.length) :
    overwrite cells position (cell :: word) =
      overwrite (cells.set position cell) (position + 1) word := by
  have before : (cells.set position cell).take (position + 1) = cells.take position ++ [cell] := by
    rw [List.take_add_one,List.take_set_of_le (Nat.le_refl position),
      List.getElem?_set_self inside]
    rfl
  have after : (cells.set position cell).drop (position + 1 + word.length) =
      cells.drop (position + (word.length + 1)) := by
    rw [List.drop_set_of_lt (by omega)]
    congr 1
    omega
  rw [overwrite,overwrite,before,after,List.length_cons,List.append_assoc,List.append_assoc,
    List.append_assoc]
  rfl

theorem set_overwrite {index : Nat} (cell : β) (room : position ≤ cells.length)
    (inside : index < word.length) :
    (overwrite cells position word).set (position + index) cell =
      overwrite cells position (word.set index cell) := by
  have front : (cells.take position).length = position := List.length_take_of_le room
  rw [overwrite,overwrite,List.length_set,List.append_assoc,List.append_assoc,
    List.set_append_right _ _ (by omega),front,Nat.add_sub_cancel_left,
    List.set_append_left _ _ inside]

theorem getElem?_overwrite {index : Nat} (room : position ≤ cells.length)
    (inside : index < word.length) :
    (overwrite cells position word)[position + index]? = word[index]? := by
  have front : (cells.take position).length = position := List.length_take_of_le room
  rw [overwrite,List.append_assoc,List.getElem?_append_right (by omega),front,
    Nat.add_sub_cancel_left,List.getElem?_append_left inside]

end Cells

structure Buffered (receiver : Receiver β) where
  cells : List β
  position : Nat
  received : receiver.State

variable {receiver : Receiver β}

def push (buffer : Buffered receiver) (word : List β) : Buffered receiver :=
  let cells := overwrite buffer.cells buffer.position word
  let position := buffer.position + word.length
  if position = cells.length then ⟨cells,0,receiver.take buffer.received cells⟩
  else ⟨cells,position,buffer.received⟩

/-- What the receiver has once the waiting cells are sent on. -/
def flushed (buffer : Buffered receiver) : receiver.State :=
  receiver.take buffer.received (buffer.cells.take buffer.position)

/-- The buffer has room, in words of one width. -/
structure Aligned (width : Nat) (buffer : Buffered receiver) : Prop where
  capacity : width ∣ buffer.cells.length
  position : width ∣ buffer.position
  room : buffer.position < buffer.cells.length

variable {buffer : Buffered receiver} {width : Nat} {word : List β}

theorem Aligned.fits (aligned : Aligned width buffer) :
    buffer.position + width ≤ buffer.cells.length := by
  obtain ⟨whole,capacity⟩ := aligned.capacity
  obtain ⟨full,position⟩ := aligned.position
  have room := aligned.room
  rw [capacity,position] at room ⊢
  have fewer : full < whole := lt_of_mul_lt_mul_left' room
  calc width * full + width = width * (full + 1) := (Nat.mul_succ width full).symm
    _ ≤ width * whole := Nat.mul_le_mul_left width fewer

theorem Aligned.push (aligned : Aligned width buffer) (size : word.length = width) :
    Aligned width (push buffer word) := by
  have fits := size ▸ aligned.fits
  have length := length_overwrite fits
  have room := aligned.room
  have advanced : width ∣ buffer.position + word.length := by
    rw [size]
    exact Nat.dvd_add aligned.position (Nat.dvd_refl width)
  unfold Blocks.push
  dsimp only
  split
  · rename_i full
    exact ⟨length ▸ aligned.capacity,Nat.dvd_zero width,by simp only [length]; omega⟩
  · rename_i more
    rw [length] at more
    exact ⟨length ▸ aligned.capacity,advanced,by simp only [length]; omega⟩

theorem flushed_push (aligned : Aligned width buffer) (size : word.length = width) :
    flushed (push buffer word) = receiver.take (flushed buffer) word := by
  have fits := size ▸ aligned.fits
  have written := take_overwrite fits
  have length := length_overwrite fits
  unfold Blocks.push flushed
  dsimp only
  rw [receiver.take_append,← written]
  split
  · rename_i full
    rw [List.take_zero,receiver.take_nil,full,List.take_length]
  · rfl

/-- The receiver gets the words one after the other, however many fill a buffer. -/
theorem flushed_foldl {words : List (List β)} (aligned : Aligned width buffer)
    (sizes : ∀ word ∈ words, word.length = width) :
    Aligned width (words.foldl push buffer) ∧
      flushed (words.foldl push buffer) = receiver.take (flushed buffer) words.flatten := by
  induction words generalizing buffer with
  | nil => exact ⟨aligned,(receiver.take_nil _).symm⟩
  | cons word words ih =>
    have size := sizes word List.mem_cons_self
    obtain ⟨still,rest⟩ := ih (aligned.push size)
      fun other member => sizes other (List.mem_cons_of_mem word member)
    refine ⟨still,?_⟩
    rw [List.foldl_cons,rest,flushed_push aligned size,receiver.take_append]
    rfl

end HmclPe.Lib.Blocks
