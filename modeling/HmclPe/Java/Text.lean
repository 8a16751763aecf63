import Mathlib.Data.List.DropRight
import Mathlib.Tactic

/-! Java strings as character lists, with the library operations the launcher
calls on them. All separators in use are single ASCII characters, so UTF-16
surrogate pairs are never split and a list of characters carries the same text. -/
namespace HmclPe.Java

abbrev Text := List Char

instance : Coe String Text := ⟨String.toList⟩

namespace Text

/-- `String.split` with the limit 0: pieces between separators without the empty
ones at the end; a text without separator is its own only piece. -/
def split (sep : Char) (s : Text) : List Text :=
  if sep ∈ s then (s.splitOn sep).rdropWhile List.isEmpty else [s]

/-- `String.split` with a positive limit: the last piece keeps its separators. -/
def splitLimit (sep : Char) : Nat → Text → List Text
  | 0, s => [s]
  | 1, s => [s]
  | limit + 2, s =>
    if sep ∈ s then
      s.takeWhile (· ≠ sep) ::
        splitLimit sep (limit + 1) ((s.dropWhile (· ≠ sep)).drop 1)
    else [s]

/-- `String.replace` of one character by another. -/
def replaceChar (old new : Char) (s : Text) : Text := s.map fun c => if c = old then new else c

/-- `String.replace` of a non-empty text; the counter skips the rest of a match. -/
def replaceFrom (target replacement : Text) : Nat → Text → Text
  | _, [] => []
  | skip + 1, _ :: s => replaceFrom target replacement skip s
  | 0, c :: s =>
    if target.isPrefixOf (c :: s) then
      replacement ++ replaceFrom target replacement (target.length - 1) s
    else c :: replaceFrom target replacement 0 s

def replace (target replacement s : Text) : Text := replaceFrom target replacement 0 s

def contains (s part : Text) : Bool := decide (part <:+: s)

def startsWith (s start : Text) : Bool := start.isPrefixOf s

def endsWith (s stop : Text) : Bool := stop.isSuffixOf s

/-- The characters a dot of a pattern does not stand for. -/
def lineTerminators : List Char := ['\n','\r','\u0085','\u2028','\u2029']

/-- String concatenation writes a null reference as the four letters. -/
def orNull : Option Text → Text
  | some s => s
  | none => ("null" : String)

theorem splitAt_sep {sep : Char} {s : Text} (member : sep ∈ s) :
    ∃ rest, s = s.takeWhile (· ≠ sep) ++ sep :: rest ∧
      (s.dropWhile (· ≠ sep)).drop 1 = rest ∧ sep ∉ s.takeWhile (· ≠ sep) := by
  have free : sep ∉ s.takeWhile (· ≠ sep) := by
    intro inside
    have different := List.mem_takeWhile_imp inside
    simp at different
  have whole := s.takeWhile_append_dropWhile (p := (· ≠ sep))
  cases tail : s.dropWhile (· ≠ sep) with
  | nil =>
    rw [tail,List.append_nil] at whole
    rw [whole] at free
    exact absurd member free
  | cons c rest =>
    have stop := List.head?_dropWhile_not (· ≠ sep) s
    rw [tail] at stop
    obtain rfl : c = sep := by simpa using stop
    refine ⟨rest,?_,rfl,free⟩
    rw [tail] at whole
    exact whole.symm

theorem splitLimit_ne_nil (sep : Char) (limit : Nat) (s : Text) : splitLimit sep limit s ≠ [] := by
  match limit with
  | 0 => simp [splitLimit]
  | 1 => simp [splitLimit]
  | limit + 2 =>
    unfold splitLimit
    split <;> simp

/-- A limited split is a split of which the last piece is left whole. -/
theorem splitOn_of_splitLimit {sep : Char} (limit : Nat) {s : Text} {pieces : List Text} {last : Text}
    (cut : splitLimit sep (limit + 1) s = pieces ++ [last]) :
    s.splitOn sep = pieces ++ last.splitOn sep ∧ (pieces.length < limit → sep ∉ last) := by
  induction limit generalizing s pieces with
  | zero =>
    have single : [s] = pieces ++ [last] := cut
    cases pieces with
    | nil =>
      obtain rfl : s = last := by simpa using single
      simp
    | cons p rest => simp at single
  | succ limit ih =>
    unfold splitLimit at cut
    by_cases member : sep ∈ s
    · obtain ⟨tail,whole,dropped,free⟩ := splitAt_sep member
      rw [if_pos member,dropped] at cut
      cases pieces with
      | nil =>
        have none := (List.cons.inj cut).2
        exact absurd none (splitLimit_ne_nil sep _ tail)
      | cons p pieces =>
        obtain ⟨rfl,later⟩ := List.cons.inj cut
        obtain ⟨joined,bound⟩ := ih later
        constructor
        · conv_lhs => rw [whole]
          rw [List.splitOn_append_cons_self_of_not_mem free,joined,List.cons_append]
        · intro few
          exact bound (by simpa using few)
    · rw [if_neg member] at cut
      cases pieces with
      | nil =>
        obtain rfl : s = last := by simpa using cut
        exact ⟨rfl,fun _ => member⟩
      | cons p rest => simp at cut

theorem free_of_mem_splitOn {sep : Char} {s piece : Text} (member : piece ∈ s.splitOn sep) :
    sep ∉ piece := by
  induction s generalizing piece with
  | nil =>
    obtain rfl : piece = [] := by simpa using member
    exact List.not_mem_nil
  | cons c s ih =>
    rw [List.splitOn_cons_eq_if_modifyHead] at member
    cases tail : s.splitOn sep with
    | nil => exact absurd tail (List.splitOn_ne_nil _ _)
    | cons p rest =>
      rw [tail] at member ih
      split at member
      · rcases List.mem_cons.mp member with rfl | later
        · exact List.not_mem_nil
        · exact ih later
      · rename_i other
        rcases List.mem_cons.mp member with rfl | later
        · intro inside
          rcases List.mem_cons.mp inside with rfl | deeper
          · exact other (beq_self_eq_true sep)
          · exact ih (List.mem_cons_self) deeper
        · exact ih (by simp [later])

/-- The pieces of an unlimited split are the first pieces between separators. -/
theorem split_prefix (sep : Char) (s : Text) : s.split sep <+: s.splitOn sep := by
  unfold split
  split
  · exact List.rdropWhile_prefix _ _
  · rename_i free
    rw [List.splitOn_eq_singleton free]

section Splitting

theorem splitLimit_cons {sep : Char} {piece : Text} (free : sep ∉ piece) (limit : Nat) (s : Text) :
    splitLimit sep (limit + 2) (piece ++ sep :: s) =
      piece :: splitLimit sep (limit + 1) s := by
  have stop : ∀ c ∈ piece, decide (c ≠ sep) = true := by
    intro c member
    have other : c ≠ sep := fun same => free (same ▸ member)
    exact decide_eq_true other
  rw [splitLimit,if_pos (by simp),List.takeWhile_append_of_pos stop,
    List.dropWhile_append_of_pos stop]
  simp

theorem splitLimit_free {sep : Char} {s : Text} (free : sep ∉ s) (limit : Nat) :
    splitLimit sep (limit + 1) s = [s] := by
  cases limit with
  | zero => rfl
  | succ limit => rw [splitLimit,if_neg free]

theorem split_free {sep : Char} {s : Text} (free : sep ∉ s) : s.split sep = [s] := if_neg free

theorem split_two {sep : Char} {s t : Text} (freeS : sep ∉ s) (freeT : sep ∉ t) (some_ : t ≠ []) :
    split sep (s ++ sep :: t) = [s,t] := by
  unfold split
  rw [if_pos (by simp),List.splitOn_append_cons_self_of_not_mem freeS,
    List.splitOn_eq_singleton freeT]
  have kept := List.rdropWhile_concat_neg (p := List.isEmpty) [s] t (by simpa using some_)
  exact kept

/-- A separator at the end leaves an empty piece, which goes. -/
theorem split_last {sep : Char} {s : Text} (free : sep ∉ s) :
    Text.split sep (s ++ [sep]) = if s = [] then [] else [s] := by
  have pieces : (s ++ [sep]).splitOn sep = [s] ++ [[]] := by
    rw [List.splitOn_append_cons_self_of_not_mem free,List.splitOn_nil]
    rfl
  unfold split
  rw [if_pos (by simp),pieces,List.rdropWhile_concat_pos _ _ _ rfl]
  by_cases empty : s = []
  · rw [if_pos empty,empty]
    rfl
  · rw [if_neg empty]
    exact List.rdropWhile_concat_neg (p := List.isEmpty) [] s (by simpa using empty)

/-- What the pieces of a text split in two look like. -/
theorem of_split_two {sep : Char} {s first second : Text} (cut : s.split sep = [first,second]) :
    sep ∉ first ∧ sep ∉ second ∧ second ≠ [] := by
  have pieces := split_prefix sep s
  rw [cut] at pieces
  refine ⟨?_,?_,?_⟩
  · exact free_of_mem_splitOn (pieces.subset (by simp))
  · exact free_of_mem_splitOn (pieces.subset (by simp))
  · unfold split at cut
    split at cut
    · have last := List.rdropWhile_last_not List.isEmpty (s.splitOn sep) (by simp [cut])
      simpa [cut] using last
    · simp at cut

theorem mem_intercalate {sep piece : Text} {pieces : List Text} {c : Char}
    (member : piece ∈ pieces) (inside : c ∈ piece) : c ∈ sep.intercalate pieces := by
  induction pieces with
  | nil => simp at member
  | cons first pieces ih =>
    cases pieces with
    | nil =>
      obtain rfl := List.mem_singleton.mp member
      rwa [List.intercalate_singleton]
    | cons second pieces =>
      rw [List.intercalate_cons_cons]
      rcases List.mem_cons.mp member with rfl | later
      · simp [inside]
      · exact List.mem_append_right _ (ih later)

theorem mem_of_split {sep c : Char} {s piece : Text} (member : piece ∈ s.split sep)
    (inside : c ∈ piece) : c ∈ s := by
  rw [← @List.intercalate_splitOn _ s _ _ sep]
  have pieces := split_prefix sep s
  exact mem_intercalate (pieces.subset member) inside

end Splitting

end Text

end HmclPe.Java
