import HmclPe.Download.DownloadTask
import Mathlib.Tactic

/-! What a download reports while it copies: percentages, byte counts and speeds, for every length
the server may send and every sequence of pieces. -/
namespace HmclPe.Download.DownloadTask

/-- The number `updateProgress` shows; `none` is the division by zero. -/
def percentage (curr max : Int) : Option Int :=
  if max = 0 then none else some (int ((100 * curr).tdiv max))

def updateProgress : Monitor := fun curr max => (percentage curr max).isSome

/-- The percentages are in range and do not fall, the counts are the bytes written, and the bytes
of the speeds with those after the last speed are all bytes. -/
structure Accounted (pieces : List Piece) (copy : Copy) : Prop where
  progress : ∃ values : List Int,
    copy.progress.map (fun report => percentage report.1 report.2) = values.map some ∧
      (∀ value ∈ values, 0 ≤ value ∧ value ≤ 100) ∧ values.Pairwise (· ≤ ·)
  counts : copy.progress.map Prod.fst = (totals 0 pieces).map fun total : Nat => (total : Int)
  speeds : copy.speeds.sum + (copy.content.length - copy.lastLen) = copy.content.length

section Totals

theorem int_small {n : Nat} (small : n < 2 ^ 31) : int n = n :=
  Int.bmod_eq_of_le (by omega) (by omega)

theorem int_lt (n : Int) : int n < 2 ^ 31 := by
  have bound := Int.bmod_lt (x := n) (m := 2 ^ 32) (by omega)
  rw [int]
  omega

theorem le_of_mem_totals {done total : Nat} {pieces : List Piece}
    (member : total ∈ totals done pieces) :
    done < total ∧ total ≤ done + (stream pieces).length := by
  induction pieces generalizing done with
  | nil => exact absurd member List.not_mem_nil
  | cons piece pieces ih =>
    have positive := List.length_pos_of_ne_nil piece.some_
    have whole : (stream (piece :: pieces)).length =
        piece.bytes.length + (stream pieces).length := List.length_append
    rcases List.mem_cons.mp member with rfl | later
    · omega
    · obtain ⟨lower,upper⟩ := ih later
      omega

theorem last_mem_totals (done : Nat) {pieces : List Piece} (some_ : pieces ≠ []) :
    done + (stream pieces).length ∈ totals done pieces := by
  induction pieces generalizing done with
  | nil => exact absurd rfl some_
  | cons piece pieces ih =>
    have whole : (stream (piece :: pieces)).length =
        piece.bytes.length + (stream pieces).length := List.length_append
    rw [whole,← Nat.add_assoc]
    cases pieces with
    | nil => simp [totals,stream]
    | cons second pieces => exact List.mem_cons_of_mem _ (ih _ (by simp))

theorem totals_pairwise (done : Nat) (pieces : List Piece) :
    (totals done pieces).Pairwise (· ≤ ·) := by
  induction pieces generalizing done with
  | nil => exact List.Pairwise.nil
  | cons piece pieces ih =>
    exact List.Pairwise.cons (fun total member => (le_of_mem_totals member).1.le) (ih _)

end Totals

section Percentages
variable {len : Int}

theorem percentage_nat {total : Nat} {length : Nat} (positive : 0 < length)
    (small : 100 * total / length < 2 ^ 31) :
    percentage total length = some ((100 * total / length : Nat) : Int) := by
  have quotient : (100 * (total : Int)).tdiv length = (100 * total / length : Nat) := by
    rw [Int.tdiv_eq_ediv_of_nonneg (by omega)]
    norm_cast
  rw [percentage,if_neg (by omega),quotient,int_small small]

/-- A percentage in range before one more piece shows one in range after it. -/
theorem percentages_bounded {length done : Nat} (positive : 0 < length) {pieces : List Piece}
    (start : 100 * done < 101 * length)
    (range : ∀ total ∈ totals done pieces, ∃ value,
      percentage total length = some value ∧ value ≤ 100) :
    ∀ total ∈ totals done pieces, 100 * total < 101 * length := by
  induction pieces generalizing done with
  | nil => simp [totals]
  | cons piece pieces ih =>
    obtain ⟨value,shown,bound⟩ := range _ List.mem_cons_self
    have fits := piece.fits
    have small : 100 * (done + piece.bytes.length) / length < 6553601 := by
      rw [Nat.div_lt_iff_lt_mul positive]
      nlinarith
    rw [percentage_nat positive (by omega)] at shown
    have first : 100 * (done + piece.bytes.length) < 101 * length := by
      rw [← Nat.div_lt_iff_lt_mul positive]
      have same := Option.some.inj shown
      omega
    intro total member
    rcases List.mem_cons.mp member with rfl | later
    · exact first
    · exact ih first (fun other inside => range other (List.mem_cons_of_mem _ inside)) total later

end Percentages

section Steps
variable {len : Int}

/-- One round of the loop with a monitor that returns. -/
def round (len : Int) (copy : Copy) (piece : Piece) : Copy :=
  ((account true piece copy).write piece.bytes).report len

theorem loop_rounds (known : len ≠ 0) (pieces : List Piece) (copy : Copy) :
    loop (some updateProgress) len pieces copy = (true,pieces.foldl (round len) copy) := by
  induction pieces generalizing copy with
  | nil => rfl
  | cons piece pieces ih =>
    have returns : ∀ curr, updateProgress curr len = true := by
      intro curr
      simp [updateProgress,percentage,known]
    rw [loop,Option.isSome_some,returns,if_pos rfl]
    exact ih _

theorem round_progress (copy : Copy) (piece : Piece) (counted : copy.Counted) :
    (round len copy piece).progress = copy.progress ++
      [(int (copy.content.length + piece.bytes.length : Nat),len)] := by
  have total := counted.next true piece
  rw [Copy.Counted,next_content,List.length_append] at total
  rw [round,Copy.report,total]
  unfold account
  split <;> rfl

theorem rounds_progress (pieces : List Piece) {copy : Copy} (counted : copy.Counted) :
    (pieces.foldl (round len) copy).progress = copy.progress ++
      (totals copy.content.length pieces).map fun total : Nat => (int total,len) := by
  induction pieces generalizing copy with
  | nil => simp [totals]
  | cons piece pieces ih =>
    have next : (round len copy piece).Counted := counted.next true piece
    have content : (round len copy piece).content = copy.content ++ piece.bytes := next_content _ _
    rw [List.foldl_cons,ih next,round_progress copy piece counted,content,List.length_append,totals,
      List.map_cons,List.append_assoc]
    rfl

theorem rounds_content (pieces : List Piece) (copy : Copy) :
    (pieces.foldl (round len) copy).content = copy.content ++ stream pieces := by
  induction pieces generalizing copy with
  | nil => simp [stream]
  | cons piece pieces ih =>
    have content : (round len copy piece).content = copy.content ++ piece.bytes := next_content _ _
    rw [List.foldl_cons,ih,content,List.append_assoc]
    rfl

/-- Each speed is taken after the count it is measured from was moved up to it. -/
theorem rounds_speeds (pieces : List Piece) {copy : Copy} (none : copy.speeds.sum = 0) :
    (pieces.foldl (round len) copy).speeds.sum = 0 := by
  induction pieces generalizing copy with
  | nil => exact none
  | cons piece pieces ih =>
    apply ih
    show (account true piece copy).speeds.sum = 0
    unfold account
    split
    · simp [none]
    · exact none

/-- A round of a piece that comes in time leaves the last speed where it was. -/
theorem round_early {copy : Copy} {piece : Piece} (early : piece.now - copy.lastTime < 1000) :
    (round len copy piece).lastLen = copy.lastLen ∧
      (round len copy piece).lastTime = copy.lastTime := by
  have skipped : account true piece copy =
      { copy with oval := int (copy.oval + piece.bytes.length) } := if_neg (by omega)
  rw [round,skipped]
  exact ⟨rfl,rfl⟩

theorem round_late {copy : Copy} {piece : Piece} (late : 1000 ≤ piece.now - copy.lastTime) :
    (round len copy piece).lastLen = int (copy.oval + piece.bytes.length) := by
  show (account true piece copy).lastLen = _
  rw [account,if_pos late]

theorem rounds_early (pieces : List Piece) {copy : Copy}
    (early : ∀ piece ∈ pieces, piece.now - copy.lastTime < 1000) :
    (pieces.foldl (round len) copy).lastLen = copy.lastLen := by
  induction pieces generalizing copy with
  | nil => rfl
  | cons piece pieces ih =>
    obtain ⟨same,time⟩ := round_early (early piece List.mem_cons_self)
    rw [List.foldl_cons,ih,same]
    rw [time]
    exact fun other member => early other (List.mem_cons_of_mem _ member)

theorem lastLen_positive {copy : Copy} (piece : Piece) (counted : copy.Counted)
    (small : copy.content.length + piece.bytes.length < 2 ^ 31)
    (positive : 0 < copy.lastLen ∨ 1000 ≤ piece.now - copy.lastTime) :
    0 < (round len copy piece).lastLen := by
  by_cases late : 1000 ≤ piece.now - copy.lastTime
  · have bytes := List.length_pos_of_ne_nil piece.some_
    rw [round_late late,counted,int_add,int_small small]
    omega
  · rw [(round_early (by omega)).1]
    exact positive.resolve_right late

theorem rounds_positive (pieces : List Piece) {copy : Copy} (counted : copy.Counted)
    (small : copy.content.length + (stream pieces).length < 2 ^ 31)
    (positive : 0 < copy.lastLen ∨ ∃ piece ∈ pieces, 1000 ≤ piece.now - copy.lastTime) :
    0 < (pieces.foldl (round len) copy).lastLen := by
  induction pieces generalizing copy with
  | nil => simpa using positive
  | cons piece pieces ih =>
    have next : (round len copy piece).Counted := counted.next true piece
    have content : (round len copy piece).content = copy.content ++ piece.bytes := next_content _ _
    have whole : (stream (piece :: pieces)).length =
        piece.bytes.length + (stream pieces).length := List.length_append
    apply ih next
    · rw [content,List.length_append]
      omega
    · have step : (0 < copy.lastLen ∨ 1000 ≤ piece.now - copy.lastTime) →
          0 < (round len copy piece).lastLen := lastLen_positive piece counted (by omega)
      by_cases late : 1000 ≤ piece.now - copy.lastTime
      · exact .inl (step (.inr late))
      · rcases positive with reported | ⟨other,member,later⟩
        · exact .inl (step (.inl reported))
        · rcases List.mem_cons.mp member with rfl | rest
          · exact absurd later late
          · rw [(round_early (by omega)).2]
            exact .inr ⟨other,rest,later⟩

/-- Without wrapping, a speed was reported exactly if a piece came late. -/
theorem rounds_lastLen (pieces : List Piece) (start : Int)
    (small : (stream pieces).length < 2 ^ 31) :
    (pieces.foldl (round len) (.begin start)).lastLen = 0 ↔
      ∀ piece ∈ pieces, piece.now - start < 1000 := by
  constructor
  · intro zero piece member
    by_contra late
    have positive : 0 < (pieces.foldl (round len) (.begin start)).lastLen :=
      rounds_positive pieces (begin_counted start) (by simpa [Copy.begin] using small)
        (.inr ⟨piece,member,by simpa [Copy.begin] using late⟩)
    omega
  · intro early
    exact rounds_early pieces early

end Steps

section Reports
variable {length : Nat} {pieces : List Piece}

/-- The shown percentages are right exactly if no total is over the length or an int. -/
theorem bounded_iff (positive : 0 < length) :
    ((∃ values : List Int,
      ((totals 0 pieces).map fun total : Nat => percentage (int total) length) = values.map some ∧
        (∀ value ∈ values, 0 ≤ value ∧ value ≤ 100) ∧ values.Pairwise (· ≤ ·)) ∧
      ((totals 0 pieces).map fun total : Nat => int total) =
        ((totals 0 pieces).map fun total : Nat => (total : Int))) ↔
    ∀ total ∈ totals 0 pieces, 100 * total < 101 * length ∧ total < 2 ^ 31 := by
  constructor
  · rintro ⟨⟨values,shown,range,-⟩,counts⟩
    rw [List.map_inj_left] at counts
    have small : ∀ total ∈ totals 0 pieces, total < 2 ^ 31 := by
      intro total member
      have bound := int_lt total
      rw [counts total member] at bound
      omega
    have ranged : ∀ total ∈ totals 0 pieces, ∃ value,
        percentage total length = some value ∧ value ≤ 100 := by
      intro total member
      have inside : percentage (int total) length ∈ values.map some :=
        shown ▸ List.mem_map_of_mem member
      obtain ⟨value,listed,same⟩ := List.mem_map.mp inside
      rw [counts total member] at same
      exact ⟨value,same.symm,(range value listed).2⟩
    intro total member
    exact ⟨percentages_bounded positive (by omega) ranged total member,small total member⟩
  · intro bounded
    have quotient : ∀ total ∈ totals 0 pieces, 100 * total / length ≤ 100 := by
      intro total member
      have bound := (Nat.div_lt_iff_lt_mul positive).mpr (bounded total member).1
      omega
    have counts : ∀ total ∈ totals 0 pieces, int total = total :=
      fun total member => int_small (bounded total member).2
    refine ⟨⟨(totals 0 pieces).map fun total : Nat => ((100 * total / length : Nat) : Int),
      ?_,?_,?_⟩,List.map_inj_left.mpr counts⟩
    · rw [List.map_map,List.map_inj_left]
      intro total member
      have bound := quotient total member
      rw [counts total member,percentage_nat positive (by omega)]
      rfl
    · simp only [List.forall_mem_map]
      intro total member
      exact ⟨Int.natCast_nonneg _,by exact_mod_cast quotient total member⟩
    · rw [List.pairwise_map]
      apply (totals_pairwise 0 pieces).imp
      intro total later le
      exact_mod_cast Nat.div_le_div_right (Nat.mul_le_mul_left 100 le)

end Reports

theorem getContentLength_nonpos {header : Option Nat} (unknown : getContentLength header ≤ 0) :
    getContentLength header = 0 ∨ getContentLength header = -1 := by
  unfold getContentLength at unknown ⊢
  cases header with
  | none => exact .inr rfl
  | some length =>
    simp only at unknown ⊢
    split at unknown <;> omega

theorem first_progress (header : Option Nat) (start : Int) (piece : Piece) (pieces : List Piece) :
    ∃ rest, (copied (some updateProgress) header start (piece :: pieces)).2.progress =
      ((piece.bytes.length : Int),getContentLength header) :: rest := by
  have fits := piece.fits
  have small : int piece.bytes.length = piece.bytes.length := int_small (by omega)
  by_cases known : getContentLength header = 0
  · have throws : ∀ curr, updateProgress curr 0 = false := fun _ => rfl
    have reported : (round 0 (.begin start) piece).progress = [((piece.bytes.length : Int),0)] := by
      rw [round_progress _ piece (begin_counted start)]
      simpa [Copy.begin] using small
    refine ⟨[],?_⟩
    rw [copied,known,loop,Option.isSome_some,throws]
    exact reported
  · rw [copied,loop_rounds known,rounds_progress _ (begin_counted start)]
    exact ⟨_,by simp [totals,Copy.begin,small]; rfl⟩

/-- Without a length, or with the length zero, the first report is already wrong. -/
theorem not_accounted {header : Option Nat} (unknown : getContentLength header ≤ 0) (start : Int)
    (piece : Piece) (pieces : List Piece) :
    ¬ Accounted (piece :: pieces)
      (copied (some updateProgress) header start (piece :: pieces)).2 := by
  intro accounted
  obtain ⟨values,shown,range,-⟩ := accounted.progress
  obtain ⟨rest,first⟩ := first_progress header start piece pieces
  rw [first,List.map_cons] at shown
  cases values with
  | nil => simp at shown
  | cons value values =>
    have head := (List.cons.inj shown).1
    have positive := List.length_pos_of_ne_nil piece.some_
    have fits := piece.fits
    rcases getContentLength_nonpos unknown with zero | missing
    · rw [zero] at head
      exact absurd head nofun
    · have quotient : (100 * (piece.bytes.length : Int)).tdiv (-1) =
          -(100 * piece.bytes.length) := by
        rw [Int.tdiv_neg,Int.tdiv_one]
      have negative : int (-(100 * piece.bytes.length)) = -(100 * piece.bytes.length) :=
        Int.bmod_eq_of_le (by omega) (by omega)
      rw [missing,percentage,if_neg (by omega),quotient,negative] at head
      have bound := (range value List.mem_cons_self).1
      have same := Option.some.inj head
      omega

section Known
variable {len : Int} (start : Int) (pieces : List Piece)

theorem rounds_accounted :
    Accounted pieces (pieces.foldl (round len) (.begin start)) ↔
      ((∃ values : List Int,
        ((totals 0 pieces).map fun total : Nat => percentage (int total) len) = values.map some ∧
          (∀ value ∈ values, 0 ≤ value ∧ value ≤ 100) ∧ values.Pairwise (· ≤ ·)) ∧
        ((totals 0 pieces).map fun total : Nat => int total) =
          ((totals 0 pieces).map fun total : Nat => (total : Int))) ∧
        (pieces.foldl (round len) (.begin start)).lastLen = 0 := by
  have progress : (pieces.foldl (round len) (.begin start)).progress =
      (totals 0 pieces).map fun total : Nat => (int total,len) :=
    rounds_progress pieces (begin_counted start)
  have shows : (pieces.foldl (round len) (.begin start)).progress.map
        (fun report => percentage report.1 report.2) =
      (totals 0 pieces).map fun total : Nat => percentage (int total) len := by
    simp only [progress,List.map_map,Function.comp_def]
  have counted : (pieces.foldl (round len) (.begin start)).progress.map Prod.fst =
      (totals 0 pieces).map fun total : Nat => int total := by
    simp only [progress,List.map_map,Function.comp_def]
  have speeds : (pieces.foldl (round len) (.begin start)).speeds.sum = 0 := rounds_speeds pieces rfl
  constructor
  · rintro ⟨shown,counts,sum⟩
    rw [shows] at shown
    rw [counted] at counts
    rw [speeds] at sum
    exact ⟨⟨shown,counts⟩,by omega⟩
  · rintro ⟨⟨shown,counts⟩,zero⟩
    rw [← shows] at shown
    rw [← counted] at counts
    refine ⟨shown,counts,?_⟩
    rw [speeds,zero]
    omega

end Known

/-- The accounting of a download is right exactly if it has no bytes, or the length is known, not
exceeded and below two gigabytes, and no piece comes a second after the start. -/
theorem accounted_iff (header : Option Nat) (start : Int) (pieces : List Piece) :
    Accounted pieces (copied (some updateProgress) header start pieces).2 ↔
      pieces = [] ∨ (0 < getContentLength header ∧
        100 * ((stream pieces).length : Int) < 101 * getContentLength header ∧
        (stream pieces).length < 2 ^ 31 ∧ ∀ piece ∈ pieces, piece.now - start < 1000) := by
  cases pieces with
  | nil =>
    simp only [true_or,iff_true]
    exact ⟨⟨[],rfl,by simp,.nil⟩,rfl,rfl⟩
  | cons piece pieces =>
    by_cases known : 0 < getContentLength header
    · obtain ⟨length,same⟩ := Int.eq_ofNat_of_zero_le known.le
      have last := last_mem_totals 0 (List.cons_ne_nil piece pieces)
      rw [copied,loop_rounds (by omega),rounds_accounted]
      rw [same] at known ⊢
      rw [bounded_iff (by omega)]
      simp only [reduceCtorEq,false_or,known,true_and]
      constructor
      · rintro ⟨bounded,zero⟩
        obtain ⟨inside,small⟩ := bounded _ last
        rw [Nat.zero_add] at inside small
        exact ⟨by exact_mod_cast inside,small,(rounds_lastLen _ start small).mp zero⟩
      · rintro ⟨inside,small,early⟩
        refine ⟨fun total member => ?_,(rounds_lastLen _ start small).mpr early⟩
        have le := (le_of_mem_totals member).2
        rw [Nat.zero_add] at le
        exact ⟨by omega,by omega⟩
    · have unknown : getContentLength header ≤ 0 := by omega
      have wrong := not_accounted unknown start piece pieces
      simp [wrong,known]

/-- Three bytes of three, the last one a second after the start. -/
def slowPieces : List Piece :=
  [⟨[80,75],by simp,by simp,0,0⟩,⟨[3],by simp,by simp,1000,1000⟩]

/-- The speed that is reported then is zero, and nothing remains unreported. -/
theorem slow_not_accounted :
    ¬ Accounted slowPieces (copied (some updateProgress) (some 3) 0 slowPieces).2 := by
  intro accounted
  have sum := accounted.speeds
  revert sum
  decide

end HmclPe.Download.DownloadTask
