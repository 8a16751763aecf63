import HmclPe.Versioning.Parsing

/-! Which sets of versions the comparator orders. Two versions tie where one ends and the
other goes on with a sub-list that begins with zero, and a third may tell them apart. -/
namespace HmclPe.Versioning
open HmclPe.Lib.VoidEnds Token

def versionTokens (version : JavaString) : List Token := tokens (parseVersion version)

theorem tokens_ne_nil {items : List Item} (some_ : items ≠ []) : tokens items ≠ [] := by
  cases items with
  | nil => exact absurd rfl some_
  | cons item rest => cases item <;> simp [tokens,Item.tokens]

/-- A version never stops at an opening. -/
theorem tokens_last {items : List Item} (normal : Normal items) :
    (tokens items).getLast? ≠ some opening := by
  induction normal with
  | nil => simp [tokens]
  | @integer value rest tail zero turn ih =>
    intro last
    cases after : tokens rest with
    | nil => simp [tokens,Item.tokens,after] at last
    | cons t more =>
      rw [after] at ih
      apply ih
      simpa [tokens,Item.tokens,after,List.getLast?_cons_cons] using last
  | @string value rest shown letters tail ih =>
    intro last
    cases after : tokens rest with
    | nil => simp [tokens,Item.tokens,after] at last
    | cons t more =>
      rw [after] at ih
      apply ih
      simpa [tokens,Item.tokens,after,List.getLast?_cons_cons] using last
  | @list separator items some_ mark inner ih =>
    intro last
    cases after : tokens items with
    | nil => exact tokens_ne_nil some_ after
    | cons t more =>
      rw [after] at ih
      apply ih
      simpa [tokens,Item.tokens,after,List.getLast?_cons_cons] using last

theorem compareTo_compares : Compares VoidEnd compareTo versionTokens := by
  have reads (a b : JavaString) : Reads (compareTo a b) (versionTokens a) (versionTokens b) :=
    compareItems_reads (parseVersion_normal a) (parseVersion_normal b)
  exact ⟨fun a b => (reads a b).1,fun a b => (reads a b).2⟩

section Openings

theorem openings (v : List Token) (last : v.getLast? ≠ some opening) (some_ : v ≠ []) :
    ∃ depth t rest, t ≠ opening ∧ v = List.replicate depth opening ++ t :: rest := by
  induction v with
  | nil => exact absurd rfl some_
  | cons t v ih =>
    by_cases opens : t = opening
    · subst opens
      cases v with
      | nil => simp at last
      | cons s v =>
        obtain ⟨depth,t,rest,atom,same⟩ := ih (by rwa [List.getLast?_cons_cons] at last) (by simp)
        exact ⟨depth + 1,t,rest,atom,by rw [same]; rfl⟩
    · exact ⟨0,t,v,opens,rfl⟩

theorem startsWithZero_openings (depth : Nat) (rest : List Token) :
    startsWithZero (List.replicate depth opening ++ rest) = startsWithZero rest := by
  induction depth with
  | zero => rfl
  | succ depth ih => exact ih

theorem startsWithZero_iff (w : List Token) : startsWithZero w = true ↔
    ∃ depth more, w = List.replicate depth opening ++ integer 0 :: more := by
  constructor
  · intro zero
    induction w with
    | nil => simp [startsWithZero] at zero
    | cons t w ih =>
      cases t with
      | string value => simp [startsWithZero] at zero
      | integer value =>
        obtain rfl : value = 0 := by simpa [startsWithZero] using zero
        exact ⟨0,w,rfl⟩
      | opening =>
        obtain ⟨depth,more,rfl⟩ := ih zero
        exact ⟨depth + 1,more,rfl⟩
  · rintro ⟨depth,more,rfl⟩
    rw [startsWithZero_openings]
    rfl

theorem voidEnd_iff (w : List Token) : VoidEnd w ↔
    ∃ depth more, w = List.replicate (depth + 1) opening ++ integer 0 :: more := by
  cases w with
  | nil => simp [VoidEnd]
  | cons t w =>
    cases t with
    | opening => simp [VoidEnd,startsWithZero_iff,List.replicate_succ]
    | string value => simp [VoidEnd,List.replicate_succ]
    | integer value => simp [VoidEnd,List.replicate_succ]

theorem voidEnd_openings {depth : Nat} {t : Token} (atom : t ≠ opening) (rest : List Token) :
    VoidEnd (List.replicate depth opening ++ t :: rest) ↔ 0 < depth ∧ t = integer 0 := by
  cases depth with
  | zero => cases t <;> simp_all [VoidEnd]
  | succ depth =>
    have deeper : VoidEnd (List.replicate (depth + 1) opening ++ t :: rest) ↔
        startsWithZero (t :: rest) = true := by
      rw [← startsWithZero_openings depth]
      rfl
    rw [deeper]
    cases t <;> simp_all [startsWithZero]

theorem voidEnd_append {u : List Token} (last : u.getLast? ≠ some opening) (some_ : u ≠ [])
    (w : List Token) : VoidEnd (u ++ w) ↔ VoidEnd u := by
  obtain ⟨depth,t,rest,atom,rfl⟩ := openings u last some_
  rw [List.append_assoc,List.cons_append,voidEnd_openings atom,voidEnd_openings atom]

/-- A number behind no more openings than the tied continuation has, and a positive one
behind any. -/
def Rises (depth : Nat) (v : List Token) : Prop :=
  ∃ before n rest, v = List.replicate before opening ++ integer n :: rest ∧ before ≤ depth ∧
    (before = 0 ∨ 0 < n)

theorem openings_unique {depth depth' : Nat} {t t' : Token} (atom : t ≠ opening)
    (atom' : t' ≠ opening) {rest rest' : List Token}
    (same : List.replicate depth opening ++ t :: rest =
      List.replicate depth' opening ++ t' :: rest') : depth = depth' ∧ t = t' := by
  induction depth generalizing depth' with
  | zero =>
    cases depth' with
    | zero => exact ⟨rfl,(List.cons.inj same).1⟩
    | succ depth' => exact absurd (List.cons.inj same).1 atom
  | succ depth ih =>
    cases depth' with
    | zero => exact absurd (List.cons.inj same).1.symm atom'
    | succ depth' =>
      obtain ⟨rfl,equal⟩ := ih (List.cons.inj same).2
      exact ⟨rfl,equal⟩

theorem rises_openings {depth before : Nat} {t : Token} (atom : t ≠ opening) (rest : List Token) :
    Rises depth (List.replicate before opening ++ t :: rest) ↔
      ∃ n, t = integer n ∧ before ≤ depth ∧ (before = 0 ∨ 0 < n) := by
  constructor
  · rintro ⟨before',n,rest',same,bound,positive⟩
    obtain ⟨rfl,rfl⟩ := openings_unique atom (by simp) same
    exact ⟨n,rfl,bound,positive⟩
  · rintro ⟨n,rfl,bound,positive⟩
    exact ⟨before,n,rest,rfl,bound,positive⟩

theorem below_openings {depth before : Nat} {t : Token} (atom : t ≠ opening)
    (more rest : List Token) :
    Below VoidEnd (List.replicate depth opening ++ integer 0 :: more)
        (List.replicate before opening ++ t :: rest) ↔
      (before < depth ∧ opening < t) ∨
        (before = depth ∧ Below VoidEnd (integer 0 :: more) (t :: rest)) := by
  induction depth generalizing before with
  | zero =>
    cases before with
    | zero => simp
    | succ before =>
      rw [List.replicate_succ,List.cons_append]
      have other : integer 0 ≠ opening := by simp
      have high : ¬integer 0 < opening := (opening_lt_integer 0).asymm
      simpa [below_cons_of_ne other] using high
  | succ depth ih =>
    cases before with
    | zero =>
      rw [List.replicate_succ,List.cons_append,List.replicate_zero,List.nil_append,
        below_cons_of_ne (Ne.symm atom)]
      simp
    | succ before =>
      rw [List.replicate_succ,List.replicate_succ,List.cons_append,List.cons_append,below_cons,ih]
      simp

theorem below_iff_rises {depth : Nat} (more : List Token) {v : List Token}
    (last : v.getLast? ≠ some opening) (some_ : v ≠ []) :
    (¬VoidEnd v ∧ Below VoidEnd
        (List.replicate (depth + 1) opening ++ integer 0 :: more) v) ↔ Rises (depth + 1) v := by
  obtain ⟨before,t,rest,atom,rfl⟩ := openings v last some_
  rw [voidEnd_openings atom,below_openings atom,rises_openings atom]
  cases t with
  | opening => exact absurd rfl atom
  | string value =>
    have low : ¬opening < string value := (string_lt_opening value).asymm
    have lower : ¬integer 0 < string value := (string_lt_integer value 0).asymm
    simp [low,below_cons_of_ne,lower]
  | integer n =>
    by_cases zero : n = 0
    · subst zero
      have first : before = 0 ↔ ¬(0 < before ∧ integer 0 = integer 0) := by
        simp
      rw [← first]
      constructor
      · rintro ⟨rfl,_⟩
        exact ⟨0,rfl,Nat.zero_le _,Or.inl rfl⟩
      · rintro ⟨n,same,_,none | positive⟩
        · exact ⟨none,Or.inl ⟨by omega,opening_lt_integer 0⟩⟩
        · obtain rfl : 0 = n := by simpa using same
          exact absurd positive (lt_irrefl 0)
    · have different : integer 0 ≠ integer n := by simpa [eq_comm] using zero
      have positive := Nat.pos_of_ne_zero zero
      simp [below_cons_of_ne different,zero,positive,opening_lt_integer]
      omega

end Openings

/-- Wherever one version ends and another goes on with openings and a zero, each version that
also goes on there does so in the same way, up to further such ends, or it rises. -/
def Settled (S : Set JavaString) : Prop :=
  ∀ a ∈ S, ∀ b ∈ S, ∀ c ∈ S, ∀ depth more v,
    versionTokens b =
        versionTokens a ++ (List.replicate (depth + 1) opening ++ integer 0 :: more) →
      versionTokens c = versionTokens a ++ v →
      v = [] ∨
        (v = List.replicate (depth + 1) opening ++ integer 0 :: more ∨
          Tie VoidEnd v (List.replicate (depth + 1) opening ++ integer 0 :: more)) ∨
        Rises (depth + 1) v

theorem versionTokens_last (version : JavaString) :
    (versionTokens version).getLast? ≠ some opening := tokens_last (parseVersion_normal version)

theorem suffix_last {version : JavaString} {p u : List Token}
    (cut : versionTokens version = p ++ u) (some_ : u ≠ []) : u.getLast? ≠ some opening := by
  have last := versionTokens_last version
  rwa [cut,List.getLast?_append_of_ne_nil _ some_] at last

/-- A continuation that ties with one that counts as nothing counts as nothing too. -/
theorem voidEnd_of_tie {v w : List Token} (last : v.getLast? ≠ some opening) (some_ : v ≠ [])
    (void : VoidEnd w) (tie : v = w ∨ Tie VoidEnd v w) : VoidEnd v := by
  rcases tie with rfl | ⟨u,_,rfl | rfl⟩
  · exact void
  · exact (voidEnd_append last some_ u).mp void
  · obtain ⟨depth,more,rfl⟩ := (voidEnd_iff w).mp void
    rw [List.append_assoc]
    exact (voidEnd_iff _).mpr ⟨depth,more ++ u,rfl⟩

theorem goesOn_iff {depth : Nat} {more v : List Token} (last : v ≠ [] → v.getLast? ≠ some opening) :
    GoesOn VoidEnd (List.replicate (depth + 1) opening ++ integer 0 :: more) v ↔
      v = [] ∨
        (v = List.replicate (depth + 1) opening ++ integer 0 :: more ∨
          Tie VoidEnd v (List.replicate (depth + 1) opening ++ integer 0 :: more)) ∨
        Rises (depth + 1) v := by
  unfold GoesOn
  have void := (voidEnd_iff _).mpr ⟨depth,more,rfl⟩
  by_cases empty : v = []
  · simp [empty]
  · rw [below_iff_rises more (last empty) empty]
    refine or_congr Iff.rfl (or_congr ?_ Iff.rfl)
    exact ⟨And.right,fun tie => ⟨voidEnd_of_tie (last empty) empty void tie,tie⟩⟩

/-- The comparator is a total preorder exactly on the settled sets of versions. -/
theorem totalPreorderOn_iff_settled (S : Set JavaString) :
    TotalPreorderOn compareTo S ↔ Settled S := by
  rw [compareTo_compares.totalPreorderOn_iff_goesOn voidEnd_nil]
  · constructor
    · intro goes a inA b inB c inC depth more v longer further
      have void := (voidEnd_iff _).mpr ⟨depth,more,rfl⟩
      exact (goesOn_iff fun some_ => suffix_last further some_).mp
        (goes a inA b inB c inC _ v void longer further)
    · intro settled a inA b inB c inC w v void longer further
      obtain ⟨depth,more,rfl⟩ := (voidEnd_iff w).mp void
      exact (goesOn_iff fun some_ => suffix_last further some_).mpr
        (settled a inA b inB c inC depth more v longer further)
  · intro a _ p u w cut some_ _
    exact voidEnd_append (suffix_last cut some_) some_ w

/-- 1 equals both 1-0.1 and 1-0.2, of which the first is below the second. -/
theorem not_totalPreorderOn :
    compareTo (codeUnits "1-0.1") (codeUnits "1") = 0 ∧
      compareTo (codeUnits "1") (codeUnits "1-0.2") = 0 ∧
      compareTo (codeUnits "1-0.1") (codeUnits "1-0.2") = -1 ∧
      ¬TotalPreorderOn compareTo Set.univ := by
  have left : compareTo (codeUnits "1-0.1") (codeUnits "1") = 0 := by decide +kernel
  have right : compareTo (codeUnits "1") (codeUnits "1-0.2") = 0 := by decide +kernel
  have across : compareTo (codeUnits "1-0.1") (codeUnits "1-0.2") = -1 := by decide +kernel
  refine ⟨left,right,across,?_⟩
  intro laws
  have congr := (laws _ (Set.mem_univ _) _ (Set.mem_univ _) (codeUnits "1-0.2") (Set.mem_univ _)).2.2 left
  rw [right,across] at congr
  exact absurd congr (by decide)

end HmclPe.Versioning
