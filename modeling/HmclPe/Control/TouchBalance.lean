import HmclPe.Control.TouchPad
import HmclPe.Lib.Runs

/-! When the touch pad lets go of all it pressed. -/
namespace HmclPe.Control.TouchPad
open HmclPe.Lib.Presses HmclPe.Lib.Runs InputBridge

/-- The keys an event lets go that ends a gesture outside the inventory bar. -/
def releasedButtons (s : TouchPad) (e : MotionEvent) : List Int :=
  (if s.directMouse then [mouseLeft] else []) ++
    if e.pointerId = s.pointerID then
      (if s.viewTouch then (aimed s.env).toList else []) ++
        if s.shortTap e then
          (if s.env.mouseMode = 1 ∧ s.env.gameCursorMode = 0 then [mouseLeft] else []) ++
            if s.viewTouch && s.env.enableTouch then (tapped s.env).toList else []
        else []
    else []

def Button (button : Option Int) : Prop :=
  button = none ∨ button = some mouseLeft ∨ button = some mouseRight

theorem button_aimed (env : Environment) : Button (aimed env) := by
  unfold aimed Button
  split <;> first | exact .inr (.inl rfl) | exact .inr (.inr rfl) | (split_ifs <;> simp)

theorem button_left : Button (some mouseLeft) := .inr (.inl rfl)

theorem sendMouse_eq {button : Option Int} (valid : Button button) (press : Bool) (s : TouchPad) :
    s.sendMouse button press = { s with sent := sendAll press button.toList s.sent } := by
  rcases valid with rfl | rfl | rfl
  · rfl
  · rw [sendMouse,sendMouseEvent_left]
    rfl
  · rw [sendMouse,sendMouseEvent_right]
    rfl

/-- From one state to another some keys were let go, and the pending long presses replaced. -/
def LetsGo (s s' : TouchPad) (pressing : Nat) (keys : List Int) : Prop :=
  ∃ sent, s' = { s with pressing, sent } ∧ ∀ key, Held sent key ↔ key ∉ keys ∧ Held s.sent key

theorem LetsGo.refl (s : TouchPad) : LetsGo s s s.pressing [] := by
  refine ⟨s.sent,rfl,fun key => ?_⟩
  simp

theorem LetsGo.trans {s s' s'' : TouchPad} {pressing pressing' : Nat} {keys keys' : List Int}
    (first : LetsGo s s' pressing keys) (second : LetsGo s' s'' pressing' keys') :
    LetsGo s s'' pressing' (keys ++ keys') := by
  obtain ⟨sent,rfl,held⟩ := first
  obtain ⟨sent',rfl,held'⟩ := second
  refine ⟨sent',rfl,fun key => ?_⟩
  rw [held',held,List.mem_append,not_or,and_left_comm,and_assoc]

def releasedKeys (s : TouchPad) (e : MotionEvent) : List Int :=
  if s.onInventory then (if e.action = .up then numberKeys else []) else s.releasedButtons e

def pressingAfter (s : TouchPad) (e : MotionEvent) : Nat :=
  if s.onInventory = false ∧ e.pointerId = s.pointerID ∧ s.viewTouch then 0 else s.pressing

theorem sendKeys_eq {keys : List Int} (press : Bool) (s : TouchPad)
    (valid : ∀ key ∈ keys, holds s.launcher key = true) :
    s.sendKeys keys press = { s with sent := sendAll press keys s.sent } := by
  induction keys generalizing s with
  | nil => rfl
  | cons key keys ih =>
    have sent : s.send key press = { s with sent := (key,press) :: s.sent } := by
      rw [send,sendEvent_eq,if_pos (valid key List.mem_cons_self)]
    rw [sendKeys,List.foldl_cons,← sendKeys,sent]
    exact ih _ fun other inside => valid other (List.mem_cons_of_mem _ inside)

theorem fire_press (s : TouchPad) :
    s.fire .press = { s with
      pressing := s.pressing - 1,
      sent := if s.pressing = 0 then s.sent
        else sendAll true (if s.env.enableTouch then aimed s.env else none).toList s.sent } := by
  rw [fire]
  by_cases none : s.pressing = 0
  · have still : s.pressing - 1 = s.pressing := by rw [none]
    rw [if_pos none,if_pos none,still]
  · rw [if_neg none,if_neg none,runnable]
    cases s.env.enableTouch with
    | false => rfl
    | true =>
      rw [if_pos rfl,if_pos rfl,sendMouse_eq (button_aimed _)]

theorem fire_throw (s : TouchPad) :
    s.fire .throw = { s with
      throwing := s.throwing - 1,
      sent := if s.throwing = 0 then s.sent else (keyQ,false) :: (keyQ,true) :: s.sent } := by
  rw [fire]
  by_cases none : s.throwing = 0
  · have still : s.throwing - 1 = s.throwing := by rw [none]
    rw [if_pos none,if_pos none,still]
  · rw [if_neg none,if_neg none,throwRunnable,send,send,sendEvent_eq,sendEvent_eq]
    have valid : holds s.launcher keyQ = true := by simp [holds,keyQ,mouseScrollUp,mouseScrollDown]
    rw [if_pos valid,if_pos valid]

theorem fire_delayed (s : TouchPad) :
    s.fire .delayed = { s with
      delayed := s.delayed - 1,
      sent := if s.delayed = 0 then s.sent else (mouseLeft,true) :: s.sent } := by
  rw [fire]
  by_cases none : s.delayed = 0
  · have still : s.delayed - 1 = s.delayed := by rw [none]
    rw [if_pos none,if_pos none,still]
  · rw [if_neg none,if_neg none,sendMouse_eq button_left]
    rfl

def pressedBy (env : Environment) : Option Int := if env.enableTouch then aimed env else none

/-- Nothing is held, and no pending timer will hold anything. -/
structure Calm (s : TouchPad) : Prop where
  quiet : Quiet s.sent
  pressing : s.pressing = 0 ∨ pressedBy s.env = none
  delayed : s.delayed = 0

theorem Calm.fire {s : TouchPad} (calm : Calm s) (timer : Timer) : Calm (s.fire timer) := by
  obtain ⟨quiet,pressing,delayed⟩ := calm
  cases timer with
  | press =>
    rw [fire_press]
    refine ⟨?_,?_,delayed⟩
    · intro key
      by_cases none : s.pressing = 0
      · rw [if_pos none]
        exact quiet key
      · rw [if_neg none,held_sendAll_press,← pressedBy,pressing.resolve_left none]
        simpa using quiet key
    · cases pressing with
      | inl none => exact .inl (by rw [none])
      | inr nothing => exact .inr nothing
  | throw =>
    rw [fire_throw]
    refine ⟨?_,pressing,delayed⟩
    intro key
    by_cases none : s.throwing = 0
    · rw [if_pos none]
      exact quiet key
    · rw [if_neg none,held_click]
      exact fun held => quiet key held.2
  | delayed =>
    rw [fire_delayed,if_pos delayed]
    exact ⟨quiet,pressing,by rw [delayed]⟩

/-- Which steps keep the pad balanced. The last event of a gesture lets go of every key held, no
20 ms press is pending by then and no long press is left that would press something; and while no
finger is on the pad, the game does not change so that a pending long press would. -/
def Harmless (s : TouchPad) : Step → Prop
  | .touch e => e.action = .up ∨ e.action = .cancel → fingersAfter s.fingers e ≠ none →
    (∀ key, Held s.sent key → key ∈ s.releasedKeys e) ∧
      (s.pressingAfter e = 0 ∨ pressedBy s.env = none) ∧ s.delayed = 0
  | .fire _ => True
  | .change env => s.fingers = [] → s.pressing = 0 ∨ pressedBy env = none
  | .rayTrace msg => s.fingers = [] →
    s.pressing = 0 ∨ pressedBy (s.handleRayTraceResult msg).env = none

structure Untouched (s : TouchPad) : Prop where
  sent : s.sent = []
  pressing : s.pressing = 0
  throwing : s.throwing = 0
  delayed : s.delayed = 0

end HmclPe.Control.TouchPad
