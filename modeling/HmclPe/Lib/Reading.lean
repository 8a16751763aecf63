import Mathlib.Data.Vector.Basic
import Mathlib.Tactic

/-! Buffers that are read front to back by someone who counts down what is left of them. -/
namespace HmclPe.Lib.Reading
universe u
variable {β α γ : Type u}

/-- A buffer, how much of it is left and where it goes on. -/
structure Reader (β : Type u) where
  base : List β
  rem : Nat
  idx : Nat

namespace Reader

/-- What is left lies inside of the buffer. -/
def Inside (r : Reader β) : Prop := r.idx + r.rem ≤ r.base.length

/-- The reader behind some more cells. -/
def advance (r : Reader β) (size : Nat) : Reader β :=
  { r with rem := r.rem - size, idx := r.idx + size }

/-- The reader between two parts of a buffer. -/
def between (front back : List β) : Reader β := ⟨front ++ back,back.length,front.length⟩

theorem Inside.advance {r : Reader β} (inside : r.Inside) {size : Nat} (enough : size ≤ r.rem) :
    (r.advance size).Inside := by
  unfold Inside Reader.advance at *
  simp only
  omega

theorem advance_between (front cells back : List β) :
    (between front (cells ++ back)).advance cells.length = between (front ++ cells) back := by
  simp [between,Reader.advance]

theorem advance_advance (r : Reader β) (size more : Nat) :
    (r.advance size).advance more = r.advance (size + more) := by
  simp [Reader.advance,Nat.sub_sub,Nat.add_assoc]

end Reader

/-- A fault is an access outside of a buffer. -/
abbrev Decoder (β α : Type u) := StateT (Reader β) Option α

/-- The cell at some distance from where a reader stands. -/
def cell (distance : Nat) (r : Reader β) : Option β := r.base[r.idx + distance]?

section Reads

/-- What a decoder makes of cells wherever they stand. -/
def Reads (decoder : Decoder β α) (cells : List β) (a : α) : Prop :=
  ∀ front back, decoder (.between front (cells ++ back)) = some (a,.between (front ++ cells) back)

theorem cell_inside {r : Reader β} (inside : r.Inside) {distance : Nat}
    (bound : distance < r.rem) (other : β) :
    cell distance r = some (r.base.getD (r.idx + distance) other) := by
  have within : r.idx + distance < r.base.length := by
    unfold Reader.Inside at inside
    omega
  rw [cell,List.getD_eq_getElem?_getD,List.getElem?_eq_getElem within,Option.getD_some]

/-- It is enough to be given the cells in front of the reader. -/
theorem reads_of_cells {decoder : Decoder β α} {cells : List β} {a : α}
    (run : ∀ r : Reader β, cells.length ≤ r.rem →
      (∀ distance (bound : distance < cells.length), cell distance r = some cells[distance]) →
      decoder r = some (a,r.advance cells.length)) : Reads decoder cells a := by
  intro front back
  rw [← Reader.advance_between]
  apply run
  · simp [Reader.between]
  · intro distance bound
    simp only [cell,Reader.between]
    rw [List.getElem?_append_right (Nat.le_add_right ..),Nat.add_sub_cancel_left,
      List.getElem?_append_left bound]
    exact List.getElem?_eq_getElem bound

theorem reads_pure (a : α) : Reads (pure a : Decoder β α) [] a := by
  intro front back
  rw [List.nil_append,List.append_nil]
  rfl

theorem bind_some {decoder : Decoder β α} {next : α → Decoder β γ} {r later : Reader β} {a : α}
    (ran : decoder r = some (a,later)) : (decoder >>= next) r = next a later := by
  change (decoder r).bind (fun p => next p.1 p.2) = _
  rw [ran]
  rfl

theorem Reads.bind {decoder : Decoder β α} {next : α → Decoder β γ} {cells more : List β} {a : α}
    {c : γ} (first : Reads decoder cells a) (second : Reads (next a) more c) :
    Reads (decoder >>= next) (cells ++ more) c := by
  intro front back
  rw [List.append_assoc,bind_some (first front (more ++ back)),second]
  simp only [List.append_assoc]

end Reads

section Yields

variable {decoder : Decoder β α} {next : α → Decoder β γ} {P : α → Prop} {Q : γ → Prop}

/-- Whatever a decoder comes up with, wherever it reads. -/
def Yields (decoder : Decoder β α) (P : α → Prop) : Prop :=
  ∀ r a later, decoder r = some (a,later) → P a

theorem yields_pure {a : α} (holds : P a) : Yields (pure a : Decoder β α) P := by
  intro r b later ran
  cases ran
  exact holds

theorem Yields.bind (first : Yields decoder P) (second : ∀ a, P a → Yields (next a) Q) :
    Yields (decoder >>= next) Q := by
  intro r c later ran
  obtain ⟨⟨a,middle⟩,ran_first,ran_second⟩ := Option.bind_eq_some_iff.mp ran
  exact second a (first r a middle ran_first) middle c later ran_second

/-- Where nothing is asked of what comes first. -/
theorem yields_after (second : ∀ a, Yields (next a) Q) : Yields (decoder >>= next) Q := by
  have first : Yields decoder fun _ => True := fun _ _ _ _ => trivial
  exact first.bind fun a _ => second a

end Yields

section Runs

variable {limit : Nat} {decoder : Decoder β α} {next : α → Decoder β γ} {Q : Reader β → Prop}
  {after : Reader β → Reader β}

/-- When a decoder faults and where it ends, up to ends that leave little behind them. -/
structure Runs (limit : Nat) (decoder : Decoder β α) (Q : Reader β → Prop)
    (after : Reader β → Reader β) : Prop where
  fault : ∀ r, r.Inside → Q r → decoder r = none
  large : ∀ r, Q r → limit ≤ r.rem
  less : ∀ r, (after r).rem ≤ r.rem
  run : ∀ r, r.Inside → ¬ Q r → ∃ a later, decoder r = some (a,later) ∧ later.Inside ∧
    later.rem ≤ r.rem ∧ (later = after r ∨ later.rem < limit ∧ (after r).rem < limit)

/-- What a decoder reads where it leaves enough behind it. -/
def Finds (limit : Nat) (decoder : Decoder β α) (value : Reader β → α) : Prop :=
  ∀ r a later, decoder r = some (a,later) → a = value r ∨ later.rem < limit

theorem Runs.none_iff (runs : Runs limit decoder Q after) {r : Reader β} (inside : r.Inside) :
    decoder r = none ↔ Q r := by
  refine ⟨fun faulted => ?_,runs.fault r inside⟩
  by_contra calm
  obtain ⟨a,later,ran,-⟩ := runs.run r inside calm
  cases faulted.symm.trans ran

theorem runs_pure (a : α) : Runs limit (pure a : Decoder β α) (fun _ => False) id where
  fault _ _ false := false.elim
  large _ false := false.elim
  less _ := le_rfl
  run r inside _ := ⟨a,r,rfl,inside,le_rfl,.inl rfl⟩

theorem Runs.bind_value {value : Reader β → α} {Q' : α → Reader β → Prop}
    {after' : α → Reader β → Reader β} (first : Runs limit decoder Q after)
    (finds : Finds limit decoder value) (second : ∀ a, Runs limit (next a) (Q' a) (after' a)) :
    Runs limit (decoder >>= next) (fun r => Q r ∨ Q' (value r) (after r))
      (fun r => after' (value r) (after r)) where
  large := by
    rintro r (faults | faults)
    · exact first.large r faults
    · exact ((second _).large _ faults).trans (first.less r)
  less r := ((second _).less _).trans (first.less r)
  fault := by
    intro r inside faults
    by_cases early : Q r
    · change (decoder r).bind _ = none
      rw [first.fault r inside early]
      rfl
    · have late := faults.resolve_left early
      obtain ⟨a,later,ran,within,-,place⟩ := first.run r inside early
      have enough := (second _).large _ late
      rw [bind_some ran]
      rcases place with rfl | ⟨-,small⟩
      · rcases finds r a _ ran with rfl | small
        · exact (second _).fault _ within late
        · omega
      · omega
  run := by
    intro r inside calm
    have early : ¬ Q r := fun faults => calm (.inl faults)
    have late : ¬ Q' (value r) (after r) := fun faults => calm (.inr faults)
    obtain ⟨a,later,ran,within,less,place⟩ := first.run r inside early
    rw [bind_some ran]
    by_cases small : later.rem < limit
    · -- Too little is left for a fault, and for the end to matter.
      have calm : ¬ Q' a later := fun faults =>
        absurd ((second a).large later faults) (Nat.not_le.mpr small)
      obtain ⟨c,last,ended,within',less',-⟩ := (second a).run later within calm
      have end_small : (after r).rem < limit := by
        rcases place with rfl | ⟨-,small⟩
        · exact small
        · exact small
      exact ⟨c,last,ended,within',less'.trans less,
        .inr ⟨less'.trans_lt small,((second _).less _).trans_lt end_small⟩⟩
    · obtain rfl := place.resolve_right fun short => small short.1
      obtain rfl := (finds r a _ ran).resolve_right small
      obtain ⟨c,last,ended,within',less',place'⟩ := (second _).run _ within late
      exact ⟨c,last,ended,within',less'.trans less,place'⟩

theorem Runs.nonempty (positive : 0 < limit) (runs : Runs limit decoder Q after) :
    Nonempty α := by
  have calm : ¬ Q ⟨[],0,0⟩ := fun faults => absurd (runs.large _ faults) (Nat.not_le.mpr positive)
  obtain ⟨a,-⟩ := runs.run ⟨[],0,0⟩ le_rfl calm
  exact ⟨a⟩

theorem finds_ran (decoder : Decoder β α) (a : α) :
    Finds limit decoder fun r => ((decoder r).map Prod.fst).getD a := by
  intro r c later ran
  apply Or.inl
  simp only [ran,Option.map_some,Option.getD_some]

/-- What comes first does not matter, but for where it ends. -/
theorem Runs.bind (positive : 0 < limit) {Q' : Reader β → Prop} {after' : Reader β → Reader β}
    (first : Runs limit decoder Q after) (second : ∀ a, Runs limit (next a) Q' after') :
    Runs limit (decoder >>= next) (fun r => Q r ∨ Q' (after r)) (fun r => after' (after r)) := by
  obtain ⟨a⟩ := first.nonempty positive
  exact first.bind_value (finds_ran decoder a) second

/-- A decoder that stays inside of the buffer and takes so many cells where there are enough. -/
def Takes (limit : Nat) (decoder : Decoder β α) (size : Reader β → Nat) : Prop :=
  Runs limit decoder (fun _ => False) fun r => r.advance (size r)

theorem takes_pure (a : α) : Takes limit (pure a : Decoder β α) fun _ => 0 := runs_pure a

theorem Takes.bind (positive : 0 < limit) {size size' : Reader β → Nat}
    (first : Takes limit decoder size) (second : ∀ a, Takes limit (next a) size') :
    Takes limit (decoder >>= next) fun r => size r + size' (r.advance (size r)) := by
  have runs := Runs.bind positive first second
  simp only [or_self,Reader.advance_advance] at runs
  exact runs

/-- Nothing is taken where too little is left. -/
theorem takes_of_short (positive : 0 < limit) {size : Nat} (small : size ≤ limit)
    (short : ∀ r : Reader β, r.rem < size → ∃ a, decoder r = some (a,r))
    (enough : ∀ r : Reader β, r.Inside → size ≤ r.rem → ∃ a, decoder r = some (a,r.advance size)) :
    Takes limit decoder fun _ => size where
  fault _ _ false := false.elim
  large _ false := false.elim
  less r := Nat.sub_le ..
  run := by
    intro r inside _
    by_cases left : r.rem < size
    · obtain ⟨a,ran⟩ := short r left
      have none_left : (r.advance size).rem < limit := by
        simp only [Reader.advance]
        omega
      exact ⟨a,r,ran,inside,le_rfl,.inr ⟨left.trans_le small,none_left⟩⟩
    · obtain ⟨a,ran⟩ := enough r inside (Nat.not_lt.mp left)
      exact ⟨a,_,ran,inside.advance (Nat.not_lt.mp left),Nat.sub_le ..,.inl rfl⟩

/-- What does not fault can come first. -/
theorem Takes.before (positive : 0 < limit) {size : Reader β → Nat} {Q' : Reader β → Prop}
    {after' : Reader β → Reader β} (first : Takes limit decoder size)
    (second : ∀ a, Runs limit (next a) Q' after') :
    Runs limit (decoder >>= next) (fun r => Q' (r.advance (size r)))
      (fun r => after' (r.advance (size r))) := by
  have runs := Runs.bind positive first second
  simp only [false_or] at runs
  exact runs

/-- What does not fault can come last. -/
theorem Runs.followed (positive : 0 < limit) {size : Reader β → Nat}
    (first : Runs limit decoder Q after) (second : ∀ a, Takes limit (next a) size) :
    Runs limit (decoder >>= next) Q fun r => (after r).advance (size (after r)) := by
  have runs := Runs.bind positive first second
  simp only [or_false] at runs
  exact runs

/-- Where a decoder faults, wherever it ends. -/
def Faults (limit : Nat) (decoder : Decoder β α) (Q : Reader β → Prop) : Prop :=
  ∃ after, Runs limit decoder Q after

theorem Takes.never {size : Reader β → Nat} (takes : Takes limit decoder size) :
    Faults limit decoder fun _ => False := ⟨_,takes⟩

theorem Faults.map (positive : 0 < limit) (faults : Faults limit decoder Q) (f : α → γ) :
    Faults limit (decoder >>= fun a => pure (f a)) Q := by
  obtain ⟨after,runs⟩ := faults
  exact ⟨_,runs.followed positive fun a => takes_pure (f a)⟩

/-- What follows may fault by what is found. -/
theorem Runs.bind_faults {value : Reader β → α} {Q' : α → Reader β → Prop}
    (first : Runs limit decoder Q after) (finds : Finds limit decoder value)
    (second : ∀ a, Faults limit (next a) (Q' a)) :
    Faults limit (decoder >>= next) fun r => Q r ∨ Q' (value r) (after r) := by
  choose after' second using second
  exact ⟨_,first.bind_value finds second⟩

theorem Takes.before_faults (positive : 0 < limit) {size : Reader β → Nat}
    {Q' : Reader β → Prop} (first : Takes limit decoder size)
    (second : ∀ a, Faults limit (next a) Q') :
    Faults limit (decoder >>= next) fun r => Q' (r.advance (size r)) := by
  obtain ⟨a⟩ := first.nonempty positive
  have faults := first.bind_faults (finds_ran decoder a) second
  simp only [false_or] at faults
  exact faults

end Runs

end HmclPe.Lib.Reading
