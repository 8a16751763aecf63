import HmclPe.Control.TouchPad
import HmclPe.Lib.Runs
import Mathlib.Algebra.Module.Prod
import Mathlib.Algebra.Module.Rat
import Mathlib.Logic.Function.Basic

/-! The camera pointer, which the touch pad and any number of buttons move, and which of them it
belongs to. -/
namespace HmclPe.Control.ViewPointer
open HmclPe.Lib.Runs

abbrev Point := ℚ × ℚ

/-- `"1"` and the buttons' ids -/
inductive ViewId (ι : Type)
  | pad
  | button (uuid : ι)
deriving DecidableEq

structure BaseButton where
  functionType : Int
  viewMove : Bool
  initial : Point
  fingers : List (Int × Point)

/-- The pointers of `MenuHelper`, the owner of the camera pointer (none is `"0"`) and the views, with
the fingers on each of them in the order that an event reports them in. -/
structure State (ι : Type) where
  mouseSpeed : ℚ
  screenHeight : Int
  pointer : Point
  current : Point
  cursor : Point
  startCursor : Point
  viewMovingType : Option (ViewId ι)
  pad : TouchPad
  padFingers : List (Int × Point)
  buttons : ι → BaseButton

/-- What the fingers on a view do, and where they are then. -/
structure Touch where
  action : Action
  id : Int
  index : Nat
  places : Int → Point
  time : Int

/-- An event, with all the fingers it reports and where the first of them was before. -/
structure Report where
  fingers : List (Int × Point)
  event : MotionEvent
  before : Point

def ids (fingers : List (Int × Point)) : List Int := fingers.map Prod.fst

def moved (t : Touch) (fingers : List (Int × Point)) : List (Int × Point) :=
  fingers.map fun finger => (finger.1,t.places finger.1)

/-- What does not continue the gesture is not delivered. -/
def reported (fingers : List (Int × Point)) (t : Touch) : Option (List (Int × Point)) :=
  match t.action with
  | .down => if fingers = [] then some [(t.id,t.places t.id)] else none
  | .pointerDown =>
    if fingers ≠ [] ∧ t.id ∉ ids fingers ∧ t.index ≤ fingers.length then
      some ((moved t fingers).insertIdx t.index (t.id,t.places t.id))
    else none
  | .move => if fingers ≠ [] then some (moved t fingers) else none
  | .pointerUp =>
    if t.id ∈ ids fingers ∧ 2 ≤ fingers.length then some (moved t fingers) else none
  | .up => if ids fingers = [t.id] then some (moved t fingers) else none
  | .cancel => if fingers ≠ [] then some (moved t fingers) else none

def remaining (t : Touch) (fingers : List (Int × Point)) : List (Int × Point) :=
  match t.action with
  | .pointerUp => fingers.eraseP fun finger => finger.1 = t.id
  | .up => []
  | .cancel => []
  | _ => fingers

/-- The place is that of the first pointer; a move and a cancel are about it. -/
def report (fingers : List (Int × Point)) (t : Touch) : Option Report :=
  match reported fingers t with
  | some ((id,place) :: rest) => some {
      fingers := (id,place) :: rest
      event := {
        action := t.action
        x := place.1
        y := place.2
        pointerId := if t.action = .move ∨ t.action = .cancel then id else t.id
        time := t.time }
      before := ((fingers.find? fun finger => finger.1 = id).map Prod.snd).getD place }
  | _ => none

namespace State

variable {ι : Type} [DecidableEq ι] (s : State ι)

def gameCursorMode : Int := s.pad.env.gameCursorMode

def place (e : MotionEvent) : Point := (e.x,e.y)

def initial : ViewId ι → Point
  | .pad => (s.pad.initialX,s.pad.initialY)
  | .button uuid => (s.buttons uuid).initial

def fingers : ViewId ι → List (Int × Point)
  | .pad => s.padFingers
  | .button uuid => (s.buttons uuid).fingers

def setFingers (view : ViewId ι) (fingers : List (Int × Point)) : State ι :=
  match view with
  | .pad => { s with padFingers := fingers }
  | .button uuid =>
    { s with buttons := Function.update s.buttons uuid { s.buttons uuid with fingers } }

def setGamePointer (uuid : ViewId ι) (isMoving : Bool) (delta : Point) : State ι :=
  if s.viewMovingType = none ∨ s.viewMovingType = some uuid then
    if isMoving then
      { s with current := s.pointer + s.mouseSpeed • delta, viewMovingType := some uuid }
    else
      { s with
        current := s.pointer + s.mouseSpeed • delta
        pointer := s.pointer + s.mouseSpeed • delta
        viewMovingType := none }
  else s

def clamp (low high value : ℚ) : ℚ := if value < low then low else if value > high then high else value

/-- What the touch pad does to the cursor, which the camera pointer starts from. -/
def moveCursor (e : MotionEvent) : State ι :=
  let s := if s.pad.directMouse then { s with cursor := place e, pointer := place e } else s
  if s.pad.env.mouseMode = 1 ∧ s.gameCursorMode = 0 then
    match e.action with
    | .down => { s with startCursor := s.cursor }
    | .move =>
      let target := s.startCursor + s.mouseSpeed • (place e - s.initial .pad)
      let target :=
        (clamp 0 s.pad.screenWidth target.1,clamp 0 s.screenHeight target.2)
      { s with cursor := target, pointer := target }
    | _ => s
  else s

def turnView (e : MotionEvent) : State ι :=
  if s.pad.viewTouch ∧ e.pointerId = s.pad.pointerID then
    match e.action with
    | .move => s.setGamePointer .pad true (place e - s.initial .pad)
    | .pointerUp => s.setGamePointer .pad false (place e - s.initial .pad)
    | .up => s.setGamePointer .pad false (place e - s.initial .pad)
    | .cancel => s.setGamePointer .pad false (place e - s.initial .pad)
    | _ => s
  else s

/-- `TouchPad.onTouchEvent` -/
def padTouchEvent (e : MotionEvent) : State ι :=
  let down := if e.action = .down then { s.pad with downX := e.x, downY := e.y } else s.pad
  let after := if down.onInventory then s else (s.moveCursor e).turnView e
  { after with pad := s.pad.onTouchEvent e }

/-- `BaseButton.onTouchEvent`, which is the same for both kinds of buttons in this. -/
def buttonTouchEvent (uuid : ι) (e : MotionEvent) : State ι :=
  let b := s.buttons uuid
  if b.functionType = 0 ∨ b.functionType = 1 then
    match e.action with
    | .down => { s with buttons := Function.update s.buttons uuid { b with initial := place e } }
    | .move =>
      if b.viewMove ∧ s.gameCursorMode = 1 then
        s.setGamePointer (.button uuid) true (place e - b.initial)
      else s
    | .up =>
      if b.viewMove ∧ s.gameCursorMode = 1 then
        s.setGamePointer (.button uuid) false (place e - b.initial)
      else s
    | .cancel =>
      if b.viewMove ∧ s.gameCursorMode = 1 then
        s.setGamePointer (.button uuid) false (place e - b.initial)
      else s
    | _ => s
  else s

def onTouchEvent : ViewId ι → MotionEvent → State ι
  | .pad, e => s.padTouchEvent e
  | .button uuid, e => s.buttonTouchEvent uuid e

/-- Whether a view sets the camera pointer on an event, and whether it keeps it then. -/
def sets : ViewId ι → MotionEvent → Option Bool
  | .pad, e =>
    if ¬s.pad.onInventory ∧ s.pad.viewTouch ∧ e.pointerId = s.pad.pointerID then
      match e.action with
      | .move => some true
      | .pointerUp => some false
      | .up => some false
      | .cancel => some false
      | _ => none
    else none
  | .button uuid, e =>
    if ((s.buttons uuid).functionType = 0 ∨ (s.buttons uuid).functionType = 1) ∧
        (s.buttons uuid).viewMove ∧ s.gameCursorMode = 1 then
      match e.action with
      | .move => some true
      | .up => some false
      | .cancel => some false
      | _ => none
    else none

/-- The view sets the camera pointer, which is free or its own. -/
def Turns (view : ViewId ι) (e : MotionEvent) : Prop :=
  s.sets view e ≠ none ∧ (s.viewMovingType = none ∨ s.viewMovingType = some view)

instance (view : ViewId ι) (e : MotionEvent) : Decidable (s.Turns view e) :=
  inferInstanceAs
    (Decidable (s.sets view e ≠ none ∧ (s.viewMovingType = none ∨ s.viewMovingType = some view)))

def touch (view : ViewId ι) (t : Touch) : State ι :=
  match report (s.fingers view) t with
  | none => s
  | some r => (s.onTouchEvent view r.event).setFingers view (remaining t r.fingers)

def setMode (gameCursorMode : Int) : State ι :=
  { s with pad := { s.pad with env := { s.pad.env with gameCursorMode } } }

def enableCursor : State ι := s.setMode 0

def disableCursor : State ι := { s.setMode 1 with viewMovingType := none }

/-- No finger is down. -/
def Idle : Prop := ∀ view, s.fingers view = []

/-- In the game no view owns the camera pointer when no finger is down. -/
def LetGo : Prop := s.gameCursorMode = 1 → s.Idle → s.viewMovingType = none

end State

open State

variable {ι : Type} [DecidableEq ι]

inductive Step (ι : Type)
  | touch (view : ViewId ι) (t : Touch)
  | enableCursor
  | disableCursor

def step (s : State ι) : Step ι → State ι
  | .touch view t => s.touch view t
  | .enableCursor => s.enableCursor
  | .disableCursor => s.disableCursor

/-- How far the finger that owns the camera pointer moves. -/
def drag (s : State ι) : Step ι → Point
  | .touch view t =>
    match report (s.fingers view) t with
    | none => 0
    | some r => if s.Turns view r.event then place r.event - r.before else 0
  | _ => 0

/-- The camera pointer moves with the finger that owns it, and only a finger owns it. -/
def Follows (s : State ι) (call : Step ι) : Prop :=
  (step s call).current - s.current = s.mouseSpeed • drag s call ∧ (step s call).LetGo

/-- The finger that turns the view is as far from where it was put down as the camera pointer is
from its base, and when the last finger leaves, the pad is not left with the camera pointer. -/
def Meets (s : State ι) : Step ι → Prop
  | .touch view t => ∀ r, report (s.fingers view) t = some r →
    (s.Turns view r.event →
      s.current - s.pointer = s.mouseSpeed • (r.before - s.initial view)) ∧
    (s.gameCursorMode = 1 → s.viewMovingType = some .pad → remaining t r.fingers = [] →
      (∀ other, other ≠ view → s.fingers other = []) → view = .pad ∧ s.sets .pad r.event ≠ none)
  | _ => True

end HmclPe.Control.ViewPointer
