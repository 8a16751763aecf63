import Mathlib.Data.List.Basic
import Mathlib.Tactic

/-! Presses and releases of keys in the order they were sent, the last one first. A key is held
when the last that was sent for it is a press. -/
namespace HmclPe.Lib.Presses

variable {κ : Type} [DecidableEq κ]

abbrev Sent (κ : Type) := List (κ × Bool)

def Held (sent : Sent κ) (key : κ) : Prop := sent.lookup key = some true

instance (sent : Sent κ) (key : κ) : Decidable (Held sent key) :=
  inferInstanceAs (Decidable (sent.lookup key = some true))

def Quiet (sent : Sent κ) : Prop := ∀ key, ¬Held sent key

def sendAll (press : Bool) (keys : List κ) (sent : Sent κ) : Sent κ :=
  keys.foldl (fun sent key => (key,press) :: sent) sent

theorem lookup_send (key other : κ) (press : Bool) (sent : Sent κ) :
    List.lookup other ((key,press) :: sent) = if other = key then some press else sent.lookup other := by
  by_cases same : other = key
  · rw [if_pos same,same,List.lookup_cons_self]
  · rw [if_neg same,List.lookup_cons,beq_false_of_ne same]

@[simp] theorem not_held_nil (key : κ) : ¬Held ([] : Sent κ) key := by
  intro held
  cases held

@[simp] theorem held_press (key other : κ) (sent : Sent κ) :
    Held ((key,true) :: sent) other ↔ other = key ∨ Held sent other := by
  rw [Held,Held,lookup_send]
  by_cases same : other = key <;> simp [same]

@[simp] theorem held_release (key other : κ) (sent : Sent κ) :
    Held ((key,false) :: sent) other ↔ other ≠ key ∧ Held sent other := by
  rw [Held,Held,lookup_send]
  by_cases same : other = key <;> simp [same]

@[simp] theorem held_sendAll_press (keys : List κ) (other : κ) (sent : Sent κ) :
    Held (sendAll true keys sent) other ↔ other ∈ keys ∨ Held sent other := by
  induction keys generalizing sent with
  | nil => simp [sendAll]
  | cons key keys ih =>
    rw [sendAll,List.foldl_cons,← sendAll,ih,held_press,List.mem_cons,or_left_comm,or_assoc]

@[simp] theorem held_sendAll_release (keys : List κ) (other : κ) (sent : Sent κ) :
    Held (sendAll false keys sent) other ↔ other ∉ keys ∧ Held sent other := by
  induction keys generalizing sent with
  | nil => simp [sendAll]
  | cons key keys ih =>
    rw [sendAll,List.foldl_cons,← sendAll,ih,held_release,List.mem_cons,not_or,and_left_comm,and_assoc]

theorem quiet_nil : Quiet ([] : Sent κ) := not_held_nil

/-- A press that is released at once changes nothing for the other keys and leaves its own up. -/
theorem held_click (key other : κ) (sent : Sent κ) :
    Held ((key,false) :: (key,true) :: sent) other ↔ other ≠ key ∧ Held sent other := by
  rw [held_release,held_press]
  constructor
  · rintro ⟨different,same | held⟩
    · exact absurd same different
    · exact ⟨different,held⟩
  · rintro ⟨different,held⟩
    exact ⟨different,.inr held⟩

end HmclPe.Lib.Presses
