import HmclPe.Control.InputBridge
import Mathlib.Algebra.Order.Field.Rat
import Mathlib.Algebra.Order.Group.Abs

/-! The touch pad: what gestures, timers and changes of the game send to the game. Which button a
gesture presses and which it releases are each looked up when they happen. -/
namespace HmclPe.Control
open HmclPe.Lib.Presses

/-- The place is that of the first pointer, the id that of the pointer the action is about. -/
structure MotionEvent where
  action : Action
  x : ℚ
  y : ℚ
  pointerId : Int
  time : Int
  deriving DecidableEq, Repr

inductive RayTraceResult where
  | unknown | miss | block | entity
  deriving DecidableEq, Repr

/-- What the pad reads of the game and its settings. The scale of the inventory is -1 while no game
directory is set. -/
structure Environment where
  gameCursorMode : Int
  touchMode : Int
  mouseMode : Int
  enableTouch : Bool
  disableHalfScreen : Bool
  rayTraceResultType : Option RayTraceResult
  guiScale : Int
  deriving DecidableEq, Repr

structure TouchPad where
  launcher : Launcher
  screenWidth : Int
  width : Int
  height : Int
  env : Environment
  fingers : List Int
  downX : ℚ
  downY : ℚ
  initialX : ℚ
  initialY : ℚ
  downTime : Int
  pointerID : Int
  /-- posts of the 400 ms, the 800 ms and the 20 ms timer that have neither fired nor been removed -/
  pressing : Nat
  throwing : Nat
  delayed : Nat
  sent : Sent Int

namespace TouchPad

open InputBridge

def keyOne : Int := 49
def keyQ : Int := 81

/-- The button a long press holds, and a release lets go. -/
def aimed (env : Environment) : Option Int :=
  match env.rayTraceResultType with
  | some .block => some mouseLeft
  | some .entity => some mouseRight
  | some .miss => some mouseRight
  | _ =>
    if env.touchMode = 0 then some mouseLeft
    else if env.touchMode = 1 then some mouseRight
    else none

/-- The button a short tap clicks. -/
def tapped (env : Environment) : Option Int :=
  match env.rayTraceResultType with
  | some .block => some mouseRight
  | some .entity => some mouseLeft
  | some .miss => some mouseLeft
  | _ =>
    if env.touchMode = 0 then some mouseRight
    else if env.touchMode = 1 then some mouseLeft
    else none

def send (key : Int) (press : Bool) (s : TouchPad) : TouchPad :=
  { s with sent := sendEvent s.launcher key press s.sent }

def sendMouse (button : Option Int) (press : Bool) (s : TouchPad) : TouchPad :=
  match button with
  | none => s
  | some button => { s with sent := sendMouseEvent s.launcher button press s.sent }

def runnable (s : TouchPad) : TouchPad :=
  if s.env.enableTouch then s.sendMouse (aimed s.env) true else s

def throwRunnable (s : TouchPad) : TouchPad := (s.send keyQ true).send keyQ false

def inventoryHeight (s : TouchPad) : Int := if s.env.guiScale ≠ -1 then 20 * s.env.guiScale else 0

def inventoryWidth (s : TouchPad) : Int := if s.env.guiScale ≠ -1 then 20 * s.env.guiScale * 9 else 0

def start (s : TouchPad) : Int := s.width.tdiv 2 - s.inventoryWidth.tdiv 2

def onInventory (s : TouchPad) : Bool :=
  s.env.gameCursorMode = 1 ∧ (s.start : ℚ) ≤ s.downX ∧
    s.downX ≤ (s.width.tdiv 2 + s.inventoryWidth.tdiv 2 : Int) ∧
    ((s.height - s.inventoryHeight : Int) : ℚ) ≤ s.downY

def numberKeys : List Int := (List.range 9).map fun slot : Nat => keyOne + slot

def slotKeys (s : TouchPad) (x : ℚ) : List Int :=
  ((List.range 9).filter fun slot : Nat =>
    (slot = 0 ∨ ((s.start + slot * s.inventoryHeight : Int) : ℚ) < x) ∧
      (slot = 8 ∨ x ≤ (s.start + (slot + 1) * s.inventoryHeight : Int))).map
    fun slot : Nat => keyOne + slot

def sendKeys (keys : List Int) (press : Bool) (s : TouchPad) : TouchPad :=
  keys.foldl (fun s key => s.send key press) s

def movedBeyond (s : TouchPad) (e : MotionEvent) (distance : ℚ) : Bool :=
  |e.x - s.initialX| > distance ∨ |e.y - s.initialY| > distance

def inventoryTouch (s : TouchPad) (e : MotionEvent) : TouchPad :=
  match e.action with
  | .down =>
    { ({ s with initialX := e.x, initialY := e.y, downTime := e.time }.sendKeys
        (s.slotKeys e.x) true) with throwing := s.throwing + 1 }
  | .move =>
    if s.movedBeyond e 1 ∧ e.time - s.downTime < 800 then { s with throwing := 0 } else s
  | .up => { s with throwing := 0 }.sendKeys numberKeys false
  | _ => s

/-- The half of the screen in which the pad turns the view. -/
def inViewHalf (s : TouchPad) : Bool :=
  !s.env.disableHalfScreen || s.initialX > (s.screenWidth / 2 : Int)

def viewTouch (s : TouchPad) : Bool := s.env.gameCursorMode = 1 && s.inViewHalf

def directMouse (s : TouchPad) : Bool := s.env.mouseMode = 0 && s.env.gameCursorMode = 0

def click (button : Option Int) (s : TouchPad) : TouchPad :=
  (s.sendMouse button true).sendMouse button false

def shortTap (s : TouchPad) (e : MotionEvent) : Bool :=
  e.time - s.downTime ≤ 200 ∧ ¬s.movedBeyond e 10

def postPress (s : TouchPad) : TouchPad :=
  if s.viewTouch then { s with pressing := s.pressing + 1 } else s

def pressDirect (s : TouchPad) : TouchPad :=
  if s.directMouse then
    match s.launcher with
    | .boat => s.sendMouse (some mouseLeft) true
    | .pojav => { s with delayed := s.delayed + 1 }
  else s

def releaseDirect (s : TouchPad) : TouchPad :=
  if s.directMouse then s.sendMouse (some mouseLeft) false else s

def releaseAimed (s : TouchPad) : TouchPad :=
  if s.viewTouch then { s with pressing := 0 }.sendMouse (aimed s.env) false else s

def tapCursor (s : TouchPad) : TouchPad :=
  if s.env.mouseMode = 1 ∧ s.env.gameCursorMode = 0 then s.click (some mouseLeft) else s

def tapView (s : TouchPad) : TouchPad :=
  if s.viewTouch && s.env.enableTouch then s.click (tapped s.env) else s

def release (s : TouchPad) (e : MotionEvent) : TouchPad :=
  if e.pointerId = s.pointerID then
    if s.shortTap e then s.releaseDirect.releaseAimed.tapCursor.tapView
    else s.releaseDirect.releaseAimed
  else s.releaseDirect

def padTouch (s : TouchPad) (e : MotionEvent) : TouchPad :=
  match e.action with
  | .down =>
    { s with
      initialX := e.x,
      initialY := e.y,
      downTime := e.time,
      pointerID := e.pointerId }.postPress.pressDirect
  | .move =>
    if s.viewTouch ∧ e.pointerId = s.pointerID ∧ s.movedBeyond e 1 ∧ e.time - s.downTime < 400 then
      { s with pressing := 0 }
    else s
  | .pointerDown => s
  | .pointerUp => s.release e
  | .up => s.release e
  | .cancel => s.release e

def onTouchEvent (s : TouchPad) (e : MotionEvent) : TouchPad :=
  let s := if e.action = .down then { s with downX := e.x, downY := e.y } else s
  if s.onInventory then s.inventoryTouch e else s.padTouch e

def handleRayTraceResult (s : TouchPad) (msg : String) : TouchPad :=
  let result : RayTraceResult :=
    if msg = "MISS" then .miss
    else if msg = "BLOCK" then .block
    else if msg = "ENTITY" then .entity
    else .unknown
  { s with env := { s.env with rayTraceResultType := some result } }

/-- The fingers on the pad after an event; an event that does not continue the gesture is not
delivered. -/
def fingersAfter (fingers : List Int) (e : MotionEvent) : Option (List Int) :=
  match e.action with
  | .down => if fingers = [] then some [e.pointerId] else none
  | .pointerDown =>
    if fingers ≠ [] ∧ e.pointerId ∉ fingers then some (e.pointerId :: fingers) else none
  | .move => if e.pointerId ∈ fingers then some fingers else none
  | .pointerUp =>
    if e.pointerId ∈ fingers ∧ fingers.erase e.pointerId ≠ [] then
      some (fingers.erase e.pointerId)
    else none
  | .up => if fingers = [e.pointerId] then some [] else none
  | .cancel => if e.pointerId ∈ fingers then some [] else none

def touch (s : TouchPad) (e : MotionEvent) : TouchPad :=
  match fingersAfter s.fingers e with
  | none => s
  | some fingers => { s.onTouchEvent e with fingers }

inductive Timer where
  | press | throw | delayed
  deriving DecidableEq, Repr

def fire (s : TouchPad) : Timer → TouchPad
  | .press => if s.pressing = 0 then s else { s with pressing := s.pressing - 1 }.runnable
  | .throw => if s.throwing = 0 then s else { s with throwing := s.throwing - 1 }.throwRunnable
  | .delayed =>
    if s.delayed = 0 then s
    else { s with delayed := s.delayed - 1 }.sendMouse (some mouseLeft) true

inductive Step where
  | touch (e : MotionEvent)
  | fire (timer : Timer)
  | change (env : Environment)
  | rayTrace (msg : String)
  deriving DecidableEq, Repr

def step (s : TouchPad) : Step → TouchPad
  | .touch e => s.touch e
  | .fire timer => s.fire timer
  | .change env => { s with env }
  | .rayTrace msg => s.handleRayTraceResult msg

end TouchPad

end HmclPe.Control
