import Mathlib.Data.List.Lex
import Mathlib.Data.Int.Order.Basic
import Mathlib.Data.Set.Basic
import Mathlib.Tactic

/-! Lists in lexicographic order, except that some continuations count as nothing: a list
ties with its extension by such a continuation. Which sets a comparison of this kind
orders at all. -/
namespace HmclPe.Lib.VoidEnds

/-- What a sorting algorithm asks of the comparator on the values it is given. -/
def TotalPreorderOn {β : Type*} (compare : β → β → Int) (S : Set β) : Prop :=
  ∀ a ∈ S, ∀ b ∈ S, ∀ c ∈ S,
    (compare a b).sign = -(compare b a).sign ∧
      (compare a b ≤ 0 → compare b c ≤ 0 → compare a c ≤ 0) ∧
      (compare a b = 0 → (compare a c).sign = (compare b c).sign)

section Ties

variable {α : Type*} (Void : List α → Prop)

def Tie (x y : List α) : Prop := ∃ w, Void w ∧ (y = x ++ w ∨ x = y ++ w)

variable {Void}

theorem Tie.symm {x y : List α} (tie : Tie Void x y) : Tie Void y x := by
  obtain ⟨w,void,sides⟩ := tie
  exact ⟨w,void,sides.symm⟩

@[simp] theorem tie_cons (t : α) (x y : List α) : Tie Void (t :: x) (t :: y) ↔ Tie Void x y := by
  simp [Tie]

theorem tie_nil_left (y : List α) : Tie Void [] y ↔ Void y ∨ (Void [] ∧ y = []) := by
  constructor
  · rintro ⟨w,void,rfl | empty⟩
    · exact Or.inl void
    · obtain ⟨rfl,rfl⟩ := List.append_eq_nil_iff.mp empty.symm
      exact Or.inr ⟨void,rfl⟩
  · rintro (void | ⟨void,rfl⟩)
    · exact ⟨y,void,Or.inl rfl⟩
    · exact ⟨[],void,Or.inl rfl⟩

theorem not_tie_of_ne {s t : α} (different : s ≠ t) (x y : List α) :
    ¬Tie Void (s :: x) (t :: y) := by
  rintro ⟨w,_,same | same⟩
  · exact different (List.cons.inj same).1.symm
  · exact different (List.cons.inj same).1

end Ties

section Order

variable {α : Type*} [LinearOrder α] (Void : List α → Prop)

def Below (x y : List α) : Prop := x < y ∧ ¬Tie Void x y

variable {Void}

@[simp] theorem below_nil (x : List α) : ¬Below Void x [] := by
  intro below
  exact absurd below.1 (by simp)

@[simp] theorem below_cons (t : α) (x y : List α) :
    Below Void (t :: x) (t :: y) ↔ Below Void x y := by
  unfold Below
  rw [tie_cons]
  simp

theorem below_append (p x y : List α) : Below Void (p ++ x) (p ++ y) ↔ Below Void x y := by
  induction p with
  | nil => rfl
  | cons t p ih => rw [List.cons_append,List.cons_append,below_cons,ih]

theorem below_cons_of_ne {s t : α} (different : s ≠ t) (x y : List α) :
    Below Void (s :: x) (t :: y) ↔ s < t := by
  unfold Below
  rw [List.cons_lt_cons_iff]
  simp [different,not_tie_of_ne different]

theorem nil_below (notNil : ¬Void []) (y : List α) : Below Void [] y ↔ y ≠ [] ∧ ¬Void y := by
  unfold Below
  rw [tie_nil_left]
  cases y with
  | nil => simp
  | cons t y => simp [notNil]

theorem not_below_self (x : List α) : ¬Below Void x x := fun below => lt_irrefl x below.1

theorem Below.asymm {x y : List α} (below : Below Void x y) : ¬Below Void y x :=
  fun above => lt_asymm below.1 above.1

theorem eq_or_tie {x y : List α} (not_below : ¬Below Void x y) (not_above : ¬Below Void y x) :
    x = y ∨ Tie Void x y := by
  by_contra neither
  obtain ⟨different,untied⟩ := not_or.mp neither
  rcases lt_or_gt_of_ne different with less | more
  · exact not_below ⟨less,untied⟩
  · exact not_above ⟨more,fun tie => untied tie.symm⟩

/-- How one list stands to another: it stops first, goes on from it, or leaves it. -/
theorem position (z x : List α) : (∃ u, u ≠ [] ∧ x = z ++ u) ∨ (∃ v, z = x ++ v) ∨
    ∃ p s t z' x', s ≠ t ∧ z = p ++ s :: z' ∧ x = p ++ t :: x' := by
  induction z generalizing x with
  | nil =>
    cases x with
    | nil => exact Or.inr (Or.inl ⟨[],rfl⟩)
    | cons t x => exact Or.inl ⟨t :: x,by simp,rfl⟩
  | cons s z ih =>
    cases x with
    | nil => exact Or.inr (Or.inl ⟨s :: z,rfl⟩)
    | cons t x =>
      by_cases same : s = t
      · subst same
        rcases ih x with ⟨u,some_,rfl⟩ | ⟨v,rfl⟩ | ⟨p,s',t',z',x',different,rfl,rfl⟩
        · exact Or.inl ⟨u,some_,rfl⟩
        · exact Or.inr (Or.inl ⟨v,rfl⟩)
        · exact Or.inr (Or.inr ⟨s :: p,s',t',z',x',different,rfl,rfl⟩)
      · exact Or.inr (Or.inr ⟨[],s,t,z,x,same,rfl,rfl⟩)

/-- A list that stands in one relation to both sides of a tie. -/
def SameSide (Void : List α → Prop) (x y z : List α) : Prop :=
  (Below Void x z ↔ Below Void y z) ∧ (Below Void z x ↔ Below Void z y)

theorem sameSide_of_leaves {p z' x' : List α} {s t : α} (different : s ≠ t) (w : List α) :
    SameSide Void (p ++ t :: x') (p ++ t :: x' ++ w) (p ++ s :: z') := by
  unfold SameSide
  rw [List.append_assoc,List.cons_append,below_append,below_append,below_append,below_append]
  simp [below_cons_of_ne different,below_cons_of_ne different.symm]

theorem sameSide_of_stops (notNil : ¬Void []) {z u w : List α} (some_ : u ≠ [])
    (ends : Void (u ++ w) ↔ Void u) : SameSide Void (z ++ u) (z ++ u ++ w) z := by
  unfold SameSide
  have stop (v : List α) : Below Void (z ++ v) z ↔ False := by
    have cut := @below_append α _ Void z v []
    rw [List.append_nil] at cut
    simp [cut]
  have onward (v : List α) : Below Void z (z ++ v) ↔ v ≠ [] ∧ ¬Void v := by
    have cut := @below_append α _ Void z [] v
    rw [List.append_nil] at cut
    rw [cut,nil_below notNil]
  rw [List.append_assoc,stop,stop,onward,onward,ends]
  simp [some_]

/-- After a tie the third list must go on as well as the tied continuation does. -/
def GoesOn (Void : List α → Prop) (w v : List α) : Prop :=
  v = [] ∨ (Void v ∧ (v = w ∨ Tie Void v w)) ∨ (¬Void v ∧ Below Void w v)

theorem sameSide_iff_goesOn (notNil : ¬Void []) {x w : List α} (void : Void w) (v : List α) :
    SameSide Void x (x ++ w) (x ++ v) ↔ GoesOn Void w v := by
  unfold SameSide GoesOn
  have stop := @below_append α _ Void x v []
  have onward := @below_append α _ Void x [] v
  rw [List.append_nil] at stop onward
  rw [stop,onward,below_append,below_append,nil_below notNil]
  by_cases empty : v = []
  · subst empty
    simp [nil_below notNil,void]
  · by_cases also : Void v
    · simp only [empty,also,not_true_eq_false,and_false,false_and,or_false,false_or,true_and,
        below_nil,false_iff]
      constructor
      · intro neither
        exact eq_or_tie neither.2 neither.1
      · rintro (rfl | tie)
        · exact ⟨not_below_self v,not_below_self v⟩
        · exact ⟨fun below => below.2 tie.symm,fun below => below.2 tie⟩
    · simp only [empty,also,ne_eq,not_false_eq_true,and_self,true_iff,false_and,false_or,true_and,
        below_nil,false_iff]
      exact ⟨And.left,fun below => ⟨below,below.asymm⟩⟩

section Compare

variable {β : Type*} {compare : β → β → Int} {key : β → List α}

/-- A comparison that reads the order off the keys. -/
structure Compares (Void : List α → Prop) (compare : β → β → Int) (key : β → List α) : Prop where
  below : ∀ a b, compare a b < 0 ↔ Below Void (key a) (key b)
  above : ∀ a b, 0 < compare a b ↔ Below Void (key b) (key a)

theorem Compares.zero (compares : Compares Void compare key) (a b : β) :
    compare a b = 0 ↔ key a = key b ∨ Tie Void (key a) (key b) := by
  have below := compares.below a b
  have above := compares.above a b
  constructor
  · intro zero
    rw [zero] at below above
    exact eq_or_tie (fun yes => lt_irrefl _ (below.mpr yes)) (fun yes => lt_irrefl _ (above.mpr yes))
  · intro tied
    have not_below : ¬Below Void (key a) (key b) := by
      rcases tied with same | tie
      · rw [same]
        exact not_below_self _
      · exact fun yes => yes.2 tie
    have not_above : ¬Below Void (key b) (key a) := by
      rcases tied with same | tie
      · rw [same]
        exact not_below_self _
      · exact fun yes => yes.2 tie.symm
    have not_negative := mt below.mp not_below
    have not_positive := mt above.mp not_above
    omega

theorem Compares.sign (compares : Compares Void compare key) (a b : β) :
    (compare a b).sign = -(compare b a).sign := by
  rcases lt_trichotomy (compare a b) 0 with less | zero | more
  · have swapped := (compares.above b a).mpr ((compares.below a b).mp less)
    rw [Int.sign_eq_neg_one_of_neg less,Int.sign_eq_one_of_pos swapped]
  · have swapped : compare b a = 0 := by
      rw [compares.zero] at zero ⊢
      exact zero.imp Eq.symm Tie.symm
    simp [zero,swapped]
  · have swapped := (compares.below b a).mpr ((compares.above a b).mp more)
    rw [Int.sign_eq_one_of_pos more,Int.sign_eq_neg_one_of_neg swapped]
    rfl

theorem Compares.sign_congr (compares : Compares Void compare key) {a b c : β} :
    (compare a c).sign = (compare b c).sign ↔
      SameSide Void (key a) (key b) (key c) := by
  unfold SameSide
  rw [← compares.below,← compares.below,← compares.above,← compares.above]
  rcases lt_trichotomy (compare a c) 0 with less | zero | more
  · rw [Int.sign_eq_neg_one_of_neg less]
    have rest := @Int.sign_eq_neg_one_iff_neg (compare b c)
    omega
  · rw [zero]
    have rest := @Int.sign_eq_zero_iff_zero (compare b c)
    simp only [Int.sign_zero]
    omega
  · rw [Int.sign_eq_one_of_pos more]
    have rest := @Int.sign_eq_one_iff_pos (compare b c)
    omega

/-- The comparison is a total preorder exactly where no tie can be told apart. -/
theorem Compares.totalPreorderOn_iff (compares : Compares Void compare key) (S : Set β) :
    TotalPreorderOn compare S ↔
      ∀ a ∈ S, ∀ b ∈ S, ∀ c ∈ S, Tie Void (key a) (key b) →
        SameSide Void (key a) (key b) (key c) := by
  constructor
  · intro laws a inA b inB c inC tie
    have zero := (compares.zero a b).mpr (Or.inr tie)
    exact compares.sign_congr.mp ((laws a inA b inB c inC).2.2 zero)
  · intro ties
    have congr {a b c : β} (inA : a ∈ S) (inB : b ∈ S) (inC : c ∈ S) (zero : compare a b = 0) :
        (compare a c).sign = (compare b c).sign := by
      rw [compares.sign_congr]
      rcases (compares.zero a b).mp zero with same | tie
      · rw [same]
        exact ⟨Iff.rfl,Iff.rfl⟩
      · exact ties a inA b inB c inC tie
    intro a inA b inB c inC
    refine ⟨compares.sign a b,?_,congr inA inB inC⟩
    intro ab bc
    rcases lt_or_eq_of_le ab with less | zero
    · rcases lt_or_eq_of_le bc with less' | zero'
      · by_contra more
        have first := (compares.below a b).mp less
        have second := (compares.below b c).mp less'
        have third := (compares.above a c).mp (not_le.mp more)
        exact lt_irrefl _ (first.1.trans (second.1.trans third.1))
      · have same := congr inB inC inA zero'
        have left := compares.sign a b
        have right := compares.sign a c
        rw [same,← right] at left
        rw [Int.sign_eq_neg_one_of_neg less] at left
        exact le_of_lt (Int.sign_eq_neg_one_iff_neg.mp left.symm)
    · have same := congr inA inB inC zero
      by_contra more
      rw [Int.sign_eq_one_of_pos (not_le.mp more)] at same
      have positive := Int.sign_eq_one_iff_pos.mp same.symm
      omega

/-- Only a third list that goes on from the shorter side can tell a tie apart. -/
theorem Compares.totalPreorderOn_iff_goesOn (compares : Compares Void compare key)
    (notNil : ¬Void []) (S : Set β)
    (ends : ∀ a ∈ S, ∀ p u w, key a = p ++ u → u ≠ [] → Void w → (Void (u ++ w) ↔ Void u)) :
    TotalPreorderOn compare S ↔
      ∀ a ∈ S, ∀ b ∈ S, ∀ c ∈ S, ∀ w v, Void w → key b = key a ++ w → key c = key a ++ v →
        GoesOn Void w v := by
  rw [compares.totalPreorderOn_iff]
  constructor
  · intro same a inA b inB c inC w v void longer further
    have side := same a inA b inB c inC ⟨w,void,Or.inl longer⟩
    rw [longer,further] at side
    exact (sameSide_iff_goesOn notNil void v).mp side
  · intro goes
    have right {a b c : β} (inA : a ∈ S) (inB : b ∈ S) (inC : c ∈ S) {w : List α} (void : Void w)
        (longer : key b = key a ++ w) : SameSide Void (key a) (key b) (key c) := by
      rcases position (key c) (key a) with ⟨u,some_,cut⟩ | ⟨v,further⟩ | leaves
      · rw [longer,cut]
        exact sameSide_of_stops notNil some_ (ends a inA (key c) u w cut some_ void)
      · rw [longer,further]
        exact (sameSide_iff_goesOn notNil void v).mpr
          (goes a inA b inB c inC w v void longer further)
      · obtain ⟨p,s,t,z,x,different,atC,atA⟩ := leaves
        rw [longer,atA,atC]
        exact sameSide_of_leaves different w
    intro a inA b inB c inC tie
    obtain ⟨w,void,longer | longer⟩ := tie
    · exact right inA inB inC void longer
    · obtain ⟨first,second⟩ := right inB inA inC void longer
      exact ⟨first.symm,second.symm⟩

end Compare

end Order

end HmclPe.Lib.VoidEnds
