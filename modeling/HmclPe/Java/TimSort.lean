import Mathlib.Data.List.TakeWhile
import Mathlib.Tactic

/-! The list sort of the Java library for arrays of objects, run by run.
A comparator is only asked for the sign of its answer, so its behaviour is
defined for comparators that break their contract as well. -/
namespace HmclPe.Java.TimSort

variable {α : Type}

def minMerge : Nat := 32

/-- Binary search of the insertion point of `pivot` between `left` and `right`. -/
def search (c : α → α → Int) (pivot : α) (a : List α) : Nat → Nat → Nat → Nat
  | 0, left, _ => left
  | fuel + 1, left, right =>
    if left < right then
      let mid := (left + right) / 2
      match a[mid]? with
      | some x => if c pivot x < 0 then search c pivot a fuel left mid
          else search c pivot a fuel (mid + 1) right
      | none => left
    else left

def insertPivot (c : α → α → Int) (a : List α) (pivot : α) : List α :=
  let at_ := search c pivot a a.length 0 a.length
  a.take at_ ++ pivot :: a.drop at_

def binarySort (c : α → α → Int) (sorted rest : List α) : List α :=
  rest.foldl (insertPivot c) sorted

def descending (c : α → α → Int) (last : α) : List α → List α × List α
  | [] => ([],[])
  | x :: xs => if c x last < 0 then
      let (run,rest) := descending c x xs
      (x :: run,rest) else ([],x :: xs)

def ascending (c : α → α → Int) (last : α) : List α → List α × List α
  | [] => ([],[])
  | x :: xs => if 0 ≤ c x last then
      let (run,rest) := ascending c x xs
      (x :: run,rest) else ([],x :: xs)

/-- The run at the head of the array, already in ascending order, and the rest. -/
def countRunAndMakeAscending (c : α → α → Int) : List α → List α × List α
  | [] => ([],[])
  | [a] => ([a],[])
  | a :: b :: xs =>
    if c b a < 0 then
      let (run,rest) := descending c b xs
      ((a :: b :: run).reverse,rest)
    else
      let (run,rest) := ascending c b xs
      (a :: b :: run,rest)

def minRunLength : Nat → Nat → Nat → Nat
  | 0, n, r => n + r
  | fuel + 1, n, r =>
    if minMerge ≤ n then minRunLength fuel (n / 2) (if n % 2 = 1 then 1 else r) else n + r

/-- Doubling phase of both gallops: `stop` says that the probe went far enough. -/
def gallop (stop : Nat → Bool) (maxOfs : Nat) : Nat → Nat → Nat → Nat × Nat
  | 0, lastOfs, ofs => (lastOfs,min ofs maxOfs)
  | fuel + 1, lastOfs, ofs =>
    if ofs < maxOfs && !stop ofs then gallop stop maxOfs fuel ofs (2 * ofs + 1)
    else (lastOfs,min ofs maxOfs)

/-- Bisection phase of both gallops over the positions `low ≤ m < high`. -/
def bisect (after : Nat → Bool) : Nat → Nat → Nat → Nat
  | 0, _, high => high
  | fuel + 1, low, high =>
    if low < high then
      let m := low + (high - low) / 2
      if after m then bisect after fuel (m + 1) high else bisect after fuel low m
    else high

/-- How many elements of `a` stay before `key`, probing from the left end. -/
def gallopRight (c : α → α → Int) (key : α) (a : List α) : Nat :=
  let below (i : Nat) : Bool := match a[i]? with
    | some x => c key x < 0
    | none => true
  if below 0 then 0 else
    let (lastOfs,ofs) := gallop below a.length a.length 0 1
    bisect (fun m => !below m) a.length (lastOfs + 1) ofs

/-- How many elements of `a` go before `key`, probing from the right end. -/
def gallopLeft (c : α → α → Int) (key : α) (a : List α) : Nat :=
  let above (i : Nat) : Bool := match a[i]? with
    | some x => 0 < c key x
    | none => false
  let hint := a.length - 1
  if above hint then a.length else
    let (lastOfs,ofs) := gallop (fun ofs => above (hint - ofs)) (hint + 1) a.length 0 1
    bisect above a.length (hint + 1 - ofs) (hint - lastOfs)

/-- Merge of two adjacent runs. The galloping merge of the middle part is stated
by its result for the elements the two gallops leave to be moved. -/
def mergeAt (c : α → α → Int) (left right : List α) : List α :=
  match right.head?, left.getLast? with
  | some first, some last =>
    let k := gallopRight c first left
    let m := gallopLeft c last right
    if left.length ≤ k ∨ m = 0 then left ++ right
    else left.take k ++ List.merge (left.drop k) (right.take m) (fun a b => !decide (c b a < 0))
      ++ right.drop m
  | _, _ => left ++ right

/-- The pending runs, the last one pushed first. -/
def mergeCollapse (c : α → α → Int) : Nat → List (List α) → List (List α)
  | 0, stack => stack
  | fuel + 1, z :: y :: rest =>
    let tooShort := match rest with
      | [] => false
      | x :: below => x.length ≤ y.length + z.length || (match below with
        | [] => false
        | w :: _ => w.length ≤ x.length + y.length)
    match rest with
    | x :: below =>
      if tooShort then
        if x.length < z.length then mergeCollapse c fuel (z :: mergeAt c x y :: below)
        else mergeCollapse c fuel (mergeAt c y z :: x :: below)
      else if y.length ≤ z.length then mergeCollapse c fuel (mergeAt c y z :: x :: below)
      else z :: y :: x :: below
    | [] => if y.length ≤ z.length then mergeCollapse c fuel [mergeAt c y z] else [z,y]
  | _ + 1, stack => stack

def mergeForceCollapse (c : α → α → Int) : Nat → List (List α) → List α
  | _, [] => []
  | _, [z] => z
  | 0, stack => stack.reverse.flatten
  | fuel + 1, z :: y :: x :: below =>
    if x.length < z.length then mergeForceCollapse c fuel (z :: mergeAt c x y :: below)
    else mergeForceCollapse c fuel (mergeAt c y z :: x :: below)
  | fuel + 1, [z,y] => mergeForceCollapse c fuel [mergeAt c y z]

/-- The main loop: cut the next run, extend it to `minRun`, push it. -/
def collectRuns (c : α → α → Int) (minRun : Nat) : Nat → List α → List (List α) → List α
  | _, [], stack => mergeForceCollapse c stack.length stack
  | 0, rest, stack => mergeForceCollapse c stack.length (rest :: stack)
  | fuel + 1, rest, stack =>
    let (run,left) := countRunAndMakeAscending c rest
    let force := minRun - run.length
    let run := binarySort c run (left.take force)
    let stack := run :: stack
    collectRuns c minRun fuel (left.drop force) (mergeCollapse c stack.length stack)

def sort (c : α → α → Int) (a : List α) : List α :=
  if a.length < 2 then a
  else if a.length < minMerge then
    let (run,rest) := countRunAndMakeAscending c a
    binarySort c run rest
  else collectRuns c (minRunLength a.length a.length 0) a.length a []

section Keyed

variable {κ : Type} [LinearOrder κ]

/-- The only question the small-array sort asks its comparator: is the answer negative? -/
def Follows (c : α → α → Int) (key : α → κ) : Prop := ∀ a b, c a b < 0 ↔ key a < key b

def Ordered (key : α → κ) (l : List α) : Prop := l.Pairwise (fun a b => key a ≤ key b)

/-- The elements of each key stand in the same order in both lists. -/
def SameClasses (key : α → κ) (l m : List α) : Prop :=
  ∀ k, l.filter (fun a => decide (key a = k)) = m.filter (fun a => decide (key a = k))

variable {c : α → α → Int} {key : α → κ}

theorem lt_takeWhile_iff (s : List α) (ordered : Ordered key s) (bound : κ) (i : Nat)
    (inside : i < s.length) :
    i < (s.takeWhile (fun x => decide (key x ≤ bound))).length ↔ key s[i] ≤ bound := by
  induction s generalizing i with
  | nil => simp at inside
  | cons x xs ih =>
    obtain ⟨first,rest⟩ := List.pairwise_cons.mp ordered
    by_cases small : key x ≤ bound
    · rw [List.takeWhile_cons_of_pos (by simpa using small)]
      cases i with
      | zero => simpa using small
      | succ i => simpa using ih rest i (by simpa using inside)
    · rw [List.takeWhile_cons_of_neg (by simpa using small)]
      cases i with
      | zero => simpa using small
      | succ i =>
        have bounded : i < xs.length := by simpa using inside
        have above := first xs[i] (List.getElem_mem bounded)
        simpa using lt_of_lt_of_le (not_le.mp small) above

theorem search_eq (follows : Follows c key) (s : List α) (ordered : Ordered key s) (pivot : α)
    (fuel left right : Nat) (enough : right - left ≤ fuel) (inside : right ≤ s.length)
    (lower : left ≤ (s.takeWhile (fun x => decide (key x ≤ key pivot))).length)
    (upper : (s.takeWhile (fun x => decide (key x ≤ key pivot))).length ≤ right) :
    search c pivot s fuel left right =
      (s.takeWhile (fun x => decide (key x ≤ key pivot))).length := by
  induction fuel generalizing left right with
  | zero =>
    simp only [search]
    omega
  | succ fuel ih =>
    simp only [search]
    split
    next proper =>
      have bound : (left + right) / 2 < s.length := by omega
      have place := lt_takeWhile_iff s ordered (key pivot) _ bound
      rw [List.getElem?_eq_getElem bound]
      dsimp only
      split
      next before =>
        have above := (follows _ _).mp before
        have beyond := mt place.mp (not_le.mpr above)
        exact ih _ _ (by omega) (by omega) lower (by omega)
      next after =>
        have below := not_lt.mp (mt (follows _ _).mpr after)
        have within := place.mpr below
        exact ih _ _ (by omega) inside (by omega) upper
    next closed => omega

theorem insertPivot_eq (follows : Follows c key) (s : List α) (ordered : Ordered key s) (pivot : α) :
    insertPivot c s pivot = s.takeWhile (fun x => decide (key x ≤ key pivot)) ++
      pivot :: s.dropWhile (fun x => decide (key x ≤ key pivot)) := by
  have split := List.takeWhile_append_dropWhile (p := fun x => decide (key x ≤ key pivot)) (l := s)
  have short : (s.takeWhile (fun x => decide (key x ≤ key pivot))).length ≤ s.length :=
    (List.takeWhile_prefix _).length_le
  simp only [insertPivot]
  rw [search_eq follows s ordered pivot s.length 0 s.length (by omega) le_rfl (Nat.zero_le _) short]
  conv_lhs => rw [← split]
  rw [List.take_left' (by rw [split]), List.drop_left' (by rw [split])]

theorem above_dropWhile (s : List α) (ordered : Ordered key s) (bound : κ) (x : α)
    (member : x ∈ s.dropWhile (fun x => decide (key x ≤ bound))) : bound < key x := by
  induction s with
  | nil => simp at member
  | cons y ys ih =>
    obtain ⟨first,rest⟩ := List.pairwise_cons.mp ordered
    by_cases small : key y ≤ bound
    · rw [List.dropWhile_cons_of_pos (by simpa using small)] at member
      exact ih rest member
    · rw [List.dropWhile_cons_of_neg (by simpa using small)] at member
      rcases List.mem_cons.mp member with rfl | inside
      · exact not_le.mp small
      · exact lt_of_lt_of_le (not_le.mp small) (first x inside)

theorem insertPivot_ordered (follows : Follows c key) (s : List α) (ordered : Ordered key s)
    (pivot : α) : Ordered key (insertPivot c s pivot) := by
  rw [insertPivot_eq follows s ordered pivot]
  have below (x : α) (member : x ∈ s.takeWhile (fun x => decide (key x ≤ key pivot))) :
      key x ≤ key pivot := by simpa using List.mem_takeWhile_imp member
  have above := above_dropWhile s ordered (key pivot)
  refine List.pairwise_append.mpr ⟨ordered.sublist (List.takeWhile_sublist _),?_,?_⟩
  · exact List.pairwise_cons.mpr ⟨fun x member => (above x member).le,
      ordered.sublist (List.dropWhile_sublist _)⟩
  · intro x left y right
    rcases List.mem_cons.mp right with rfl | right
    · exact below x left
    · exact (below x left).trans (above y right).le

/-- A pivot is placed behind every element that has its key. -/
theorem insertPivot_classes (follows : Follows c key) (s : List α) (ordered : Ordered key s)
    (pivot : α) : SameClasses key (insertPivot c s pivot) (s ++ [pivot]) := by
  intro k
  rw [insertPivot_eq follows s ordered pivot]
  conv_rhs => rw [← List.takeWhile_append_dropWhile
    (p := fun x => decide (key x ≤ key pivot)) (l := s)]
  simp only [List.filter_append,List.filter_cons,List.filter_nil,List.append_assoc]
  by_cases same : key pivot = k
  · subst k
    have none : (s.dropWhile (fun x => decide (key x ≤ key pivot))).filter
        (fun a => decide (key a = key pivot)) = [] := by
      refine List.filter_eq_nil_iff.mpr fun x member => ?_
      have above := above_dropWhile s ordered (key pivot) x member
      simpa using above.ne'
    simp [none]
  · simp [same]

theorem SameClasses.trans {l m n : List α} (first : SameClasses key l m)
    (second : SameClasses key m n) : SameClasses key l n :=
  fun k => (first k).trans (second k)

theorem SameClasses.append_right {l m : List α} (same : SameClasses key l m) (n : List α) :
    SameClasses key (l ++ n) (m ++ n) := by
  intro k
  rw [List.filter_append,List.filter_append,same k]

theorem binarySort_stable (follows : Follows c key) (rest sorted : List α)
    (ordered : Ordered key sorted) :
    Ordered key (binarySort c sorted rest) ∧
      SameClasses key (binarySort c sorted rest) (sorted ++ rest) := by
  induction rest generalizing sorted with
  | nil => exact ⟨ordered,fun k => by simp [binarySort]⟩
  | cons pivot rest ih =>
    obtain ⟨result,classes⟩ := ih _ (insertPivot_ordered follows sorted ordered pivot)
    refine ⟨result,classes.trans ?_⟩
    have placed := (insertPivot_classes follows sorted ordered pivot).append_right rest
    simpa using placed

theorem descending_spec (follows : Follows c key) (last : α) (xs : List α) :
    (descending c last xs).1 ++ (descending c last xs).2 = xs ∧
      (last :: (descending c last xs).1).Pairwise (fun a b => key b < key a) := by
  induction xs generalizing last with
  | nil => simp [descending]
  | cons x xs ih =>
    obtain ⟨joined,chain⟩ := ih x
    by_cases below : c x last < 0
    · simp only [descending,below,if_true,List.cons_append,joined,true_and]
      have first := (follows _ _).mp below
      refine List.pairwise_cons.mpr ⟨fun y member => ?_,chain⟩
      rcases List.mem_cons.mp member with rfl | inside
      · exact first
      · exact ((List.pairwise_cons.mp chain).1 y inside).trans first
    · simp [descending,below]

theorem ascending_spec (follows : Follows c key) (last : α) (xs : List α) :
    (ascending c last xs).1 ++ (ascending c last xs).2 = xs ∧
      Ordered key (last :: (ascending c last xs).1) := by
  induction xs generalizing last with
  | nil => simp [ascending,Ordered]
  | cons x xs ih =>
    obtain ⟨joined,chain⟩ := ih x
    by_cases above : 0 ≤ c x last
    · simp only [ascending,above,if_true,List.cons_append,joined,true_and]
      have first : key last ≤ key x := not_lt.mp (mt (follows _ _).mpr (by omega))
      refine List.pairwise_cons.mpr ⟨fun y member => ?_,chain⟩
      rcases List.mem_cons.mp member with rfl | inside
      · exact first
      · exact first.trans ((List.pairwise_cons.mp chain).1 y inside)
    · simp [ascending,above,Ordered]

/-- A strictly descending run has one element to a key, so reversing it is stable. -/
theorem reverse_classes (l : List α) (strict : l.Pairwise (fun a b => key b < key a)) :
    SameClasses key l.reverse l := by
  intro k
  rw [List.filter_reverse]
  have lone := strict.sublist (List.filter_sublist (p := fun a => decide (key a = k)))
  have equal (x : α) (member : x ∈ l.filter (fun a => decide (key a = k))) : key x = k := by
    simpa using (List.mem_filter.mp member).2
  generalize l.filter (fun a => decide (key a = k)) = m at lone equal
  match m with
  | [] => rfl
  | [x] => rfl
  | x :: y :: rest =>
    have less := (List.pairwise_cons.mp lone).1 y (by simp)
    rw [equal x (by simp),equal y (by simp)] at less
    exact absurd less (lt_irrefl _)

theorem countRun_stable (follows : Follows c key) (a : List α) :
    Ordered key (countRunAndMakeAscending c a).1 ∧
      SameClasses key ((countRunAndMakeAscending c a).1 ++ (countRunAndMakeAscending c a).2) a := by
  match a with
  | [] => exact ⟨List.Pairwise.nil,fun _ => rfl⟩
  | [x] => exact ⟨List.pairwise_singleton _ _,fun _ => rfl⟩
  | x :: y :: rest =>
    by_cases below : c y x < 0
    · obtain ⟨joined,chain⟩ := descending_spec follows y rest
      have first := (follows _ _).mp below
      have strict : (x :: y :: (descending c y rest).1).Pairwise (fun a b => key b < key a) := by
        refine List.pairwise_cons.mpr ⟨fun z member => ?_,chain⟩
        rcases List.mem_cons.mp member with rfl | inside
        · exact first
        · exact ((List.pairwise_cons.mp chain).1 z inside).trans first
      simp only [countRunAndMakeAscending,below,if_true]
      refine ⟨List.pairwise_reverse.mpr (strict.imp fun less => less.le),?_⟩
      have turned := (reverse_classes _ strict).append_right (descending c y rest).2
      simpa [joined] using turned
    · obtain ⟨joined,chain⟩ := ascending_spec follows y rest
      have first : key x ≤ key y := not_lt.mp (mt (follows _ _).mpr below)
      simp only [countRunAndMakeAscending,below,if_false]
      refine ⟨List.pairwise_cons.mpr ⟨fun z member => ?_,chain⟩,?_⟩
      · rcases List.mem_cons.mp member with rfl | inside
        · exact first
        · exact first.trans ((List.pairwise_cons.mp chain).1 z inside)
      · intro k
        simp [joined]

/-- Below the merge threshold a comparator whose negative answers follow a key
sorts by that key and keeps equal keys in order, whatever else it answers. -/
theorem sort_stable (follows : Follows c key) (a : List α) (small : a.length < minMerge) :
    Ordered key (sort c a) ∧ SameClasses key (sort c a) a := by
  by_cases trivial : a.length < 2
  · simp only [sort,trivial,if_true]
    refine ⟨?_,fun _ => rfl⟩
    match a, trivial with
    | [], _ => exact List.Pairwise.nil
    | [x], _ => exact List.pairwise_singleton _ _
  · simp only [sort,trivial,if_false,small,if_true]
    obtain ⟨ordered,classes⟩ := countRun_stable follows a
    obtain ⟨result,kept⟩ := binarySort_stable follows (countRunAndMakeAscending c a).2 _ ordered
    exact ⟨result,kept.trans classes⟩

theorem SameClasses.mem_iff {l m : List α} (same : SameClasses key l m) (x : α) :
    x ∈ l ↔ x ∈ m := by
  have classes := congrArg (x ∈ ·) (same (key x))
  simpa using classes

theorem SameClasses.perm {l m : List α} (same : SameClasses key l m) : l.Perm m := by
  classical
  rw [List.perm_iff_count]
  intro x
  have classes := congrArg (List.count x) (same (key x))
  rwa [List.count_filter (by simp),List.count_filter (by simp)] at classes

theorem SameClasses.symm {l m : List α} (same : SameClasses key l m) : SameClasses key m l :=
  fun k => (same k).symm

theorem SameClasses.filter {l m : List α} (same : SameClasses key l m) (p : α → Bool) :
    SameClasses key (l.filter p) (m.filter p) := by
  intro k
  rw [List.filter_comm,same k,List.filter_comm]

/-- An ordered list is determined by its classes. -/
theorem ordered_unique {l m : List α} (left : Ordered key l) (right : Ordered key m)
    (same : SameClasses key l m) : l = m := by
  induction l generalizing m with
  | nil =>
    match m with
    | [] => rfl
    | y :: _ => exact absurd ((same.mem_iff y).mpr (by simp)) (by simp)
  | cons x xs ih =>
    match m with
    | [] => exact absurd ((same.mem_iff x).mp (by simp)) (by simp)
    | y :: ys =>
      obtain ⟨first,rest⟩ := List.pairwise_cons.mp left
      obtain ⟨lead,tail⟩ := List.pairwise_cons.mp right
      have low : key x ≤ key y := by
        rcases List.mem_cons.mp ((same.mem_iff y).mpr (by simp)) with equal | inside
        · exact (congrArg key equal).ge
        · exact first y inside
      have high : key y ≤ key x := by
        rcases List.mem_cons.mp ((same.mem_iff x).mp (by simp)) with equal | inside
        · exact (congrArg key equal).ge
        · exact lead x inside
      have keys : key x = key y := le_antisymm low high
      have heads := same (key x)
      simp only [List.filter_cons,keys,decide_true,if_true,List.cons.injEq] at heads
      obtain ⟨rfl,_⟩ := heads
      congr 1
      refine ih rest tail fun k => ?_
      have classes := same k
      simp only [List.filter_cons] at classes
      split at classes
      · exact (List.cons.inj classes).2
      · exact classes

theorem mergeSort_ordered (key : α → κ) (l : List α) :
    Ordered key (l.mergeSort fun a b => key a ≤ key b) := by
  have sorted : (l.mergeSort fun a b => key a ≤ key b).Pairwise
      (fun a b => decide (key a ≤ key b) = true) := by
    apply List.pairwise_mergeSort
    · intro a b c first second
      exact decide_eq_true ((of_decide_eq_true first).trans (of_decide_eq_true second))
    · intro a b
      simpa using le_total (key a) (key b)
  exact sorted.imp of_decide_eq_true

theorem mergeSort_classes (key : α → κ) (l : List α) :
    SameClasses key (l.mergeSort fun a b => key a ≤ key b) l := by
  intro k
  have equal (a : α) (member : a ∈ l.filter (fun a => decide (key a = k))) : key a = k := by
    simpa using (List.mem_filter.mp member).2
  have chain : (l.filter (fun a => decide (key a = k))).Pairwise
      (fun a b => decide (key a ≤ key b) = true) := by
    apply List.pairwise_of_forall_mem_list
    intro a first b second
    rw [equal a first,equal b second]
    simp
  have part : (l.filter (fun a => decide (key a = k))).Sublist
      (l.mergeSort fun a b => key a ≤ key b) := by
    apply List.sublist_mergeSort _ _ chain List.filter_sublist
    · intro a b c first second
      exact decide_eq_true ((of_decide_eq_true first).trans (of_decide_eq_true second))
    · intro a b
      simpa using le_total (key a) (key b)
  have kept := part.filter (fun a => decide (key a = k))
  rw [List.filter_filter] at kept
  simp only [Bool.and_self] at kept
  refine (kept.eq_of_length ?_).symm
  exact ((List.mergeSort_perm l _).symm.filter _).length_eq

/-- Below the merge threshold the sort is the stable sort by the key. -/
theorem sort_eq_mergeSort (follows : Follows c key) (a : List α)
    (small : a.length < minMerge) : sort c a = a.mergeSort fun a b => key a ≤ key b := by
  obtain ⟨ordered,classes⟩ := sort_stable follows a small
  apply ordered_unique ordered (mergeSort_ordered key a)
  exact classes.trans (mergeSort_classes key a).symm

end Keyed

section Ranks

/-- The elements of each rank below a bound, from the highest rank down. -/
def ranked (rank : α → Nat) (l : List α) (bound : Nat) : List α :=
  (List.range bound).reverse.flatMap fun value => l.filter fun a => rank a = value

variable {rank : α → Nat} {l : List α}

theorem ranked_succ (bound : Nat) :
    ranked rank l (bound + 1) = (l.filter fun a => rank a = bound) ++ ranked rank l bound := by
  rw [ranked,List.range_succ,List.reverse_append,List.reverse_singleton,List.singleton_append,
    List.flatMap_cons]
  rfl

theorem mem_ranked {bound : Nat} {a : α} : a ∈ ranked rank l bound ↔ a ∈ l ∧ rank a < bound := by
  rw [ranked,List.mem_flatMap]
  constructor
  · rintro ⟨value,below,member⟩
    obtain ⟨listed,same⟩ := List.mem_filter.mp member
    rw [of_decide_eq_true same]
    exact ⟨listed,List.mem_range.mp (List.mem_reverse.mp below)⟩
  · rintro ⟨listed,below⟩
    exact ⟨rank a,List.mem_reverse.mpr (List.mem_range.mpr below),
      List.mem_filter.mpr ⟨listed,decide_eq_true rfl⟩⟩

theorem ranked_ordered (bound : Nat) :
    Ordered (fun a => OrderDual.toDual (rank a)) (ranked rank l bound) := by
  induction bound with
  | zero => exact List.Pairwise.nil
  | succ bound ih =>
    rw [ranked_succ]
    refine List.pairwise_append.mpr ⟨?_,ih,?_⟩
    · apply List.pairwise_of_forall_mem_list
      intro a first b second
      have equal : rank a = rank b := by
        rw [of_decide_eq_true (List.mem_filter.mp first).2,
          of_decide_eq_true (List.mem_filter.mp second).2]
      exact OrderDual.toDual_le_toDual.mpr equal.ge
    · intro a first b second
      have below := (mem_ranked.mp second).2
      rw [← of_decide_eq_true (List.mem_filter.mp first).2] at below
      exact OrderDual.toDual_le_toDual.mpr below.le

theorem filter_ranked (bound value : Nat) :
    (ranked rank l bound).filter (fun a => rank a = value) =
      if value < bound then l.filter (fun a => rank a = value) else [] := by
  induction bound with
  | zero => rfl
  | succ bound ih =>
    rw [ranked_succ,List.filter_append,ih,List.filter_filter]
    rcases Nat.lt_trichotomy value bound with below | rfl | above
    · rw [if_pos below,if_pos (by omega),List.filter_eq_nil_iff.mpr,List.nil_append]
      intro a _ both
      simp only [Bool.and_eq_true,decide_eq_true_eq] at both
      omega
    · rw [if_neg (by omega),if_pos (by omega),List.append_nil]
      simp only [Bool.and_self]
    · rw [if_neg (by omega),if_neg (by omega),List.append_nil,List.filter_eq_nil_iff]
      intro a _ both
      simp only [Bool.and_eq_true,decide_eq_true_eq] at both
      omega

/-- The stable sort by descending rank puts the elements of each rank one after the other. -/
theorem mergeSort_descending {bound : Nat} (below : ∀ a ∈ l, rank a < bound) :
    (l.mergeSort fun a b => rank b ≤ rank a) = ranked rank l bound := by
  apply ordered_unique (mergeSort_ordered (fun a => OrderDual.toDual (rank a)) l)
    (ranked_ordered bound)
  apply (mergeSort_classes (fun a => OrderDual.toDual (rank a)) l).trans
  intro value
  have filtered := @filter_ranked α rank l bound (OrderDual.ofDual value)
  refine Eq.trans ?_ filtered.symm
  split
  · rfl
  · next high =>
    rw [List.filter_eq_nil_iff]
    intro a member same
    have low := below a member
    rw [← of_decide_eq_true same] at high
    exact high low

end Ranks

end HmclPe.Java.TimSort
