import Mathlib.Logic.Function.Basic

/-! An index whose entries refer to stored contents by name. What writing and deleting contents does
to the entries that refer to them. -/
namespace HmclPe.Lib.References

variable {κ ι η β : Type}

/-- Each entry refers to a content that is there and is right for its name. -/
def Backed (refers : ι → η) (right : η → β → Prop) (index : κ → Option ι) (store : η → Option β) :
    Prop :=
  ∀ key entry, index key = some entry →
    ∃ content, store (refers entry) = some content ∧ right (refers entry) content

variable {refers : ι → η} {right : η → β → Prop} {index : κ → Option ι} {store : η → Option β}

theorem Backed.write [DecidableEq η] (backed : Backed refers right index store) {name : η} {content : β}
    (fits : right name content) :
    Backed refers right index (Function.update store name (some content)) := by
  intro key entry found
  by_cases same : refers entry = name
  · rw [same,Function.update_self]
    exact ⟨content,rfl,fits⟩
  · rw [Function.update_of_ne same]
    exact backed key entry found

theorem Backed.enter [DecidableEq κ] (backed : Backed refers right index store) (key : κ)
    {entry : ι} {content : β} (stored : store (refers entry) = some content)
    (fits : right (refers entry) content) :
    Backed refers right (Function.update index key (some entry)) store := by
  intro other found present
  by_cases same : other = key
  · rw [same,Function.update_self] at present
    rw [← Option.some.inj present]
    exact ⟨content,stored,fits⟩
  · rw [Function.update_of_ne same] at present
    exact backed other found present

/-- A content can be deleted exactly when no entry refers to it. -/
theorem Backed.delete_iff [DecidableEq η] (backed : Backed refers right index store) (name : η) :
    Backed refers right index (Function.update store name none) ↔
      ∀ key entry, index key = some entry → refers entry ≠ name := by
  constructor
  · intro still key entry found same
    obtain ⟨content,stored,-⟩ := still key entry found
    rw [same,Function.update_self] at stored
    cases stored
  · intro unused key entry found
    rw [Function.update_of_ne (unused key entry found)]
    exact backed key entry found

end HmclPe.Lib.References
