import HmclPe.Lib.Presses

/-! What the controls get from the screen and send to the game: key codes with the mouse buttons as
the first five. -/
namespace HmclPe.Control
open HmclPe.Lib.Presses

inductive Launcher where
  | boat | pojav
  deriving DecidableEq, Repr

inductive Action where
  | down | pointerDown | move | pointerUp | up | cancel
  deriving DecidableEq, Repr

namespace InputBridge

def mouseLeft : Int := 0
def mouseRight : Int := 1
def mouseMiddle : Int := 2
def mouseScrollUp : Int := 3
def mouseScrollDown : Int := 4

def sendKeycode (keyCode : Int) (press : Bool) (sent : Sent Int) : Sent Int :=
  (keyCode,press) :: sent

/-- The second launcher turns the scroll buttons into single scrolls, which nothing holds. -/
def sendMouseEvent (launcher : Launcher) (bridge : Int) (press : Bool) (sent : Sent Int) : Sent Int :=
  if launcher = .pojav ∧ (bridge = mouseScrollUp ∨ bridge = mouseScrollDown) then sent
  else (bridge,press) :: sent

def sendEvent (launcher : Launcher) (keyCode : Int) (press : Bool) (sent : Sent Int) : Sent Int :=
  if keyCode = 0 ∨ keyCode = 1 ∨ keyCode = 2 ∨ keyCode = 3 ∨ keyCode = 4 then
    sendMouseEvent launcher keyCode press sent
  else sendKeycode keyCode press sent

/-- Whether a key code stands for a key or button that can be held. -/
def holds (launcher : Launcher) (keyCode : Int) : Bool :=
  launcher = .boat || (keyCode ≠ mouseScrollUp && keyCode ≠ mouseScrollDown)

theorem sendEvent_eq (launcher : Launcher) (keyCode : Int) (press : Bool) (sent : Sent Int) :
    sendEvent launcher keyCode press sent =
      if holds launcher keyCode then (keyCode,press) :: sent else sent := by
  unfold sendEvent sendMouseEvent sendKeycode holds
  cases launcher with
  | boat => simp
  | pojav =>
    by_cases up : keyCode = mouseScrollUp
    · simp [up,mouseScrollUp]
    · by_cases down : keyCode = mouseScrollDown
      · simp [down,mouseScrollDown]
      · simp [up,down]

@[simp] theorem sendMouseEvent_left (launcher : Launcher) (press : Bool) (sent : Sent Int) :
    sendMouseEvent launcher mouseLeft press sent = (mouseLeft,press) :: sent :=
  if_neg (by simp [mouseLeft,mouseScrollUp,mouseScrollDown])

@[simp] theorem sendMouseEvent_right (launcher : Launcher) (press : Bool) (sent : Sent Int) :
    sendMouseEvent launcher mouseRight press sent = (mouseRight,press) :: sent :=
  if_neg (by simp [mouseRight,mouseScrollUp,mouseScrollDown])

end InputBridge

end HmclPe.Control
