import Mathlib.Data.List.Chain
import Mathlib.Tactic

/-! Lists rewritten entry by entry, where an edit may put one new entry before what it makes of an
old one, and scans that treat the entry after a flag as its value. -/
namespace HmclPe.Lib.Edits

variable {α β : Type}

section Rendering

structure Edit (α : Type) where
  before : Option α
  here : α

def Edit.entries (edit : Edit α) : List α := edit.before.toList ++ [edit.here]

def render (edits : List (Edit α)) : List α := edits.flatMap Edit.entries

def Fresh (edit other : Edit α) : Prop :=
  ∀ new, edit.before = some new → other.before = none → new ≠ other.here

/-- What only one of two edits inserts is not what the other writes in its place. -/
def Apart (edit other : Edit α) : Prop := Fresh edit other ∧ Fresh other edit

theorem entries_cancel {edit other : Edit α} (apart : Apart edit other) {rest rest' : List α}
    (same : edit.entries ++ rest = other.entries ++ rest') : edit = other ∧ rest = rest' := by
  obtain ⟨before,here⟩ := edit
  obtain ⟨before',here'⟩ := other
  obtain ⟨fresh,fresh'⟩ := apart
  cases before with
  | none =>
    cases before' with
    | none => simpa [Edit.entries] using same
    | some new =>
      have first := (List.cons.inj same).1
      exact absurd first.symm (fresh' new rfl rfl)
  | some new =>
    cases before' with
    | none =>
      have first := (List.cons.inj same).1
      exact absurd first (fresh new rfl rfl)
    | some new' => simpa [Edit.entries,and_assoc] using same

theorem render_map_iff (f g : β → Edit α) {items : List β}
    (apart : ∀ item ∈ items, Apart (f item) (g item)) :
    render (items.map f) = render (items.map g) ↔ ∀ item ∈ items, f item = g item := by
  induction items with
  | nil => simp [render]
  | cons item items ih =>
    have later := ih fun other member => apart other (List.mem_cons_of_mem _ member)
    rw [List.forall_mem_cons,← later]
    constructor
    · intro same
      exact entries_cancel (apart item List.mem_cons_self) same
    · rintro ⟨first,rest⟩
      have cut : render ((item :: items).map f) = (f item).entries ++ render (items.map f) := rfl
      rw [cut,first,rest]
      rfl

end Rendering

section Flags
variable (flag : α → Bool)

/-- The entries with whether each is the value of the flag before it. -/
def values : Bool → List α → List (Bool × α)
  | _, [] => []
  | value, entry :: entries => (value,entry) :: values (!value && flag entry) entries

theorem values_snd (value : Bool) (entries : List α) :
    (values flag value entries).map Prod.snd = entries := by
  induction entries generalizing value with
  | nil => rfl
  | cons entry entries ih => exact congrArg _ (ih _)

theorem mem_of_mem_values {value : Bool} {entries : List α} {marked : Bool × α}
    (member : marked ∈ values flag value entries) : marked.2 ∈ entries := by
  have listed := List.mem_map_of_mem (f := Prod.snd) member
  rwa [values_snd] at listed

/-- Where known flags have known values, a scan finds exactly these if nothing else that looks
like a flag has an entry after it. -/
theorem values_iff (isFlag isValue : α → Prop) {entries : List α}
    (looks : ∀ entry ∈ entries, isFlag entry → flag entry = true ∧ ¬ isValue entry)
    (plain : ∀ entry ∈ entries, isValue entry → flag entry = false)
    (paired : entries.IsChain fun entry next => isFlag entry ↔ isValue next) {value : Bool}
    (start : ∀ entry ∈ entries.head?, value = true ↔ isValue entry) :
    (∀ marked ∈ values flag value entries, marked.1 = true ↔ isValue marked.2) ↔
      ∀ entry ∈ entries.dropLast, flag entry = true → isFlag entry := by
  induction entries generalizing value with
  | nil => simp [values]
  | cons entry entries ih =>
    have first := start entry rfl
    cases entries with
    | nil => simpa [values] using first
    | cons second entries =>
      rw [List.isChain_cons_cons] at paired
      obtain ⟨pair,chain⟩ := paired
      have looks' := fun other (member : other ∈ second :: entries) =>
        looks other (List.mem_cons_of_mem _ member)
      have plain' := fun other (member : other ∈ second :: entries) =>
        plain other (List.mem_cons_of_mem _ member)
      have listed : entry ∈ entry :: second :: entries := List.mem_cons_self
      have next : (flag entry = true → isFlag entry) ↔
          ((!value && flag entry) = true ↔ isValue second) := by
        rw [← pair,Bool.and_eq_true,Bool.not_eq_true']
        constructor
        · intro only
          refine ⟨fun both => only both.2,fun known => ?_⟩
          obtain ⟨flagged,notValue⟩ := looks entry listed known
          exact ⟨Bool.eq_false_iff.mpr fun inside => notValue (first.mp inside),flagged⟩
        · intro both flagged
          refine both.mp ⟨Bool.eq_false_iff.mpr fun inside => ?_,flagged⟩
          rw [plain entry listed (first.mp inside)] at flagged
          exact absurd flagged nofun
      rw [values,List.forall_mem_cons,List.dropLast_cons_cons,List.forall_mem_cons,next]
      constructor
      · rintro ⟨-,rest⟩
        have head := rest _ List.mem_cons_self
        exact ⟨head,(ih looks' plain' chain (by simpa using head)).mp rest⟩
      · rintro ⟨head,later⟩
        exact ⟨first,(ih looks' plain' chain (by simpa using head)).mpr later⟩

end Flags

end HmclPe.Lib.Edits
