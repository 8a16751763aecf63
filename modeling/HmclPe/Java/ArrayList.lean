import Mathlib.Data.List.Basic
import Mathlib.Tactic

/-! Iterating a Java `ArrayList` whose loop body may modify it. The iterator compares the list's
modification count before each element only, and the two libraries differ in how it finds the end. -/
namespace HmclPe.Java

structure ArrayList (α : Type) where
  elements : List α
  modCount : Nat
  deriving DecidableEq, Repr

/-- OpenJDK's iterator ends at the present size, Android's at the size it started with. -/
inductive ClassLibrary where
  | openjdk | android
  deriving DecidableEq, Repr

structure Itr where
  cursor : Nat
  expectedModCount : Nat
  limit : Nat

/-- How a loop ends: in a state, by an exception thrown in a state, or not within its turns. -/
inductive Outcome (σ : Type) where
  | done (s : σ)
  | thrown (s : σ)
  | unfinished (s : σ)
  deriving DecidableEq, Repr

namespace ArrayList

variable {α σ : Type}

/-- `remove` of an object takes its first occurrence away. -/
def remove [DecidableEq α] (list : ArrayList α) (o : α) : ArrayList α :=
  if list.elements.contains o then ⟨list.elements.erase o,list.modCount + 1⟩ else list

def iterator (list : ArrayList α) : Itr := ⟨0,list.modCount,list.elements.length⟩

def hasNext (library : ClassLibrary) (list : ArrayList α) (it : Itr) : Bool :=
  match library with
  | .openjdk => it.cursor ≠ list.elements.length
  | .android => it.cursor < it.limit

/-- A modified list makes it throw, and so does one without the element. -/
def next (list : ArrayList α) (it : Itr) : Option (α × Itr) :=
  if list.modCount ≠ it.expectedModCount then none
  else match list.elements[it.cursor]? with
    | some a => some (a,{ it with cursor := it.cursor + 1 })
    | none => none

/-- The turns of a for-each loop over the list of a state. -/
def loop (library : ClassLibrary) (list : σ → ArrayList α) (body : σ → α → σ) :
    Nat → Itr → σ → Outcome σ
  | 0, _, s => .unfinished s
  | turns + 1, it, s =>
    if hasNext library (list s) it then
      match next (list s) it with
      | some (a,it) => loop library list body turns it (body s a)
      | none => .thrown s
    else .done s

/-- One turn for each element and one for the end: a loop that is in an element after these has
modified its list, and throws. -/
def forEach (library : ClassLibrary) (list : σ → ArrayList α) (body : σ → α → σ) (s : σ) : Outcome σ :=
  loop library list body ((list s).elements.length + 1) (list s).iterator s

variable {library : ClassLibrary} {list : σ → ArrayList α} {body : σ → α → σ}

theorem hasNext_at {l : ArrayList α} {before rest : List α} {a : α}
    (cut : l.elements = before ++ a :: rest) :
    hasNext library l ⟨before.length,l.modCount,l.elements.length⟩ = true := by
  have room : before.length < l.elements.length := by
    rw [cut]
    simp
  cases library with
  | openjdk => simpa [hasNext] using room.ne
  | android => simpa [hasNext] using room

theorem next_at {l : ArrayList α} {before rest : List α} {a : α}
    (cut : l.elements = before ++ a :: rest) :
    next l ⟨before.length,l.modCount,l.elements.length⟩ =
      some (a,⟨before.length + 1,l.modCount,l.elements.length⟩) := by
  have element : l.elements[before.length]? = some a := by
    rw [cut]
    simp
  rw [next,if_neg (by simp),element]

/-- Turns whose bodies leave the list alone go on to the elements after them. -/
theorem loop_calm {l : ArrayList α} {calm : α → Prop}
    (keeps : ∀ s a, calm a → list s = l → list (body s a) = l)
    {before here rest : List α} (cut : l.elements = before ++ here ++ rest)
    (each : ∀ a ∈ here, calm a) (turns : Nat) {s : σ} (same : list s = l) :
    loop library list body (here.length + turns) ⟨before.length,l.modCount,l.elements.length⟩ s =
      loop library list body turns ⟨(before ++ here).length,l.modCount,l.elements.length⟩
        (here.foldl body s) := by
  induction here generalizing before s with
  | nil => simp
  | cons a here ih =>
    have cut' : l.elements = before ++ a :: (here ++ rest) := by
      rw [cut]
      simp
    have more : hasNext library (list s) ⟨before.length,l.modCount,l.elements.length⟩ = true := by
      rw [same]
      exact hasNext_at cut'
    have taken : next (list s) ⟨before.length,l.modCount,l.elements.length⟩ =
        some (a,⟨before.length + 1,l.modCount,l.elements.length⟩) := by
      rw [same]
      exact next_at cut'
    have calmly := keeps s a (each a (by simp)) same
    have later := @ih (before ++ [a]) (by rw [cut]; simp)
      (fun b member => each b (by simp [member])) (body s a) calmly
    have length : (a :: here).length + turns = here.length + turns + 1 := by
      rw [List.length_cons]
      omega
    rw [length,loop,if_pos more,taken,List.foldl_cons]
    rw [List.length_append,List.length_singleton] at later
    simp only [later]
    simp

theorem foldl_calm {l : ArrayList α} {calm : α → Prop}
    (keeps : ∀ s a, calm a → list s = l → list (body s a) = l) {here : List α}
    (each : ∀ a ∈ here, calm a) {s : σ} (same : list s = l) : list (here.foldl body s) = l := by
  induction here generalizing s with
  | nil => exact same
  | cons a here ih =>
    have calmly := keeps s a (each a (by simp)) same
    exact ih (fun b member => each b (by simp [member])) calmly

theorem forEach_calm {l : ArrayList α} {calm : α → Prop}
    (keeps : ∀ s a, calm a → list s = l → list (body s a) = l) (each : ∀ a ∈ l.elements, calm a)
    {s : σ} (same : list s = l) :
    forEach library list body s = .done (l.elements.foldl body s) := by
  have whole := @loop_calm α σ library list body l calm keeps [] l.elements [] (by simp) each 1 s
    same
  have ended : hasNext library (list (l.elements.foldl body s))
      ⟨l.elements.length,l.modCount,l.elements.length⟩ = false := by
    rw [foldl_calm keeps each same]
    cases library <;> simp [hasNext]
  rw [List.length_nil,List.nil_append] at whole
  rw [forEach,same,iterator,whole,loop,ended]
  simp

/-- Whether the iterator takes a list for finished after one of its elements was removed, with these
elements behind that one. -/
def endsAfterRemoval (library : ClassLibrary) (rest : List α) : Bool :=
  match library with
  | .openjdk => rest.length = 1
  | .android => rest.isEmpty

/-- After an element was removed the iterator stands behind it, in a list that is shorter by one. -/
theorem hasNext_removed {l : ArrayList α} {before : Nat} {rest : List α} {it : Itr}
    (shorter : l.elements.length = before + rest.length) (behind : it.cursor = before + 1)
    (total : it.limit = before + rest.length + 1) :
    hasNext library l it = !endsAfterRemoval library rest := by
  cases library with
  | openjdk =>
    simp only [hasNext,endsAfterRemoval,shorter,behind]
    by_cases one : rest.length = 1
    · simp [one]
    · simp [one]
      omega
  | android =>
    simp only [hasNext,endsAfterRemoval,total,behind]
    cases rest with
    | nil => simp
    | cons b rest => simp

/-- The first turn that removes an element is the last one of the loop. -/
theorem forEach_removal {l : ArrayList α} {calm : α → Prop}
    (keeps : ∀ s a, calm a → list s = l → list (body s a) = l) {before rest : List α} {a : α}
    (cut : l.elements = before ++ a :: rest) (each : ∀ b ∈ before, calm b) {s s' : σ}
    (same : list s = l) (turn : body (before.foldl body s) a = s')
    (shorter : (list s').elements.length = before.length + rest.length)
    (modified : (list s').modCount ≠ l.modCount) :
    forEach library list body s =
      if endsAfterRemoval library rest then .done s' else .thrown s' := by
  have whole := @loop_calm α σ library list body l calm keeps [] before (a :: rest)
    (by simpa using cut) each (rest.length + 2) s same
  have total : l.elements.length = before.length + rest.length + 1 := by
    rw [cut,List.length_append,List.length_cons]
    omega
  have turns : before.length + (rest.length + 2) = l.elements.length + 1 := by omega
  have calmly := foldl_calm keeps each same
  have more : hasNext library (list (before.foldl body s))
      ⟨before.length,l.modCount,l.elements.length⟩ = true := by
    rw [calmly]
    exact hasNext_at cut
  have taken : next (list (before.foldl body s)) ⟨before.length,l.modCount,l.elements.length⟩ =
      some (a,⟨before.length + 1,l.modCount,l.elements.length⟩) := by
    rw [calmly]
    exact next_at cut
  have ending : hasNext library (list s') ⟨before.length + 1,l.modCount,l.elements.length⟩ =
      !endsAfterRemoval library rest := hasNext_removed shorter rfl total
  have fails : next (list s') ⟨before.length + 1,l.modCount,l.elements.length⟩ = none := by
    rw [next,if_pos modified]
  rw [List.nil_append,turns] at whole
  rw [forEach,same,iterator]
  rw [List.length_nil] at whole
  rw [whole,loop,if_pos more,taken]
  simp only [turn]
  rw [loop,ending,fails]
  cases endsAfterRemoval library rest <;> simp

end ArrayList
end HmclPe.Java
