import HmclPe.Control.InputBridge
import Mathlib.Data.Set.Basic

/-! The rocker: a finger on it names a direction, for which it shows pads and holds movement
keys. -/
namespace HmclPe.Control
open HmclPe.Lib.Presses

namespace LwjglGlfwKeycode

def keyA : Int := 65
def keyD : Int := 68
def keyS : Int := 83
def keyW : Int := 87
def keyLeftShift : Int := 340

end LwjglGlfwKeycode

open LwjglGlfwKeycode

namespace Rocker

inductive State where
  | normal | press | hide
  deriving DecidableEq, Repr

inductive Direction where
  | left | right | up | down | upLeft | upRight | downLeft | downRight | center
  deriving DecidableEq, Repr

structure MotionEvent (Place : Type) where
  action : Action
  place : Place
  time : Int

/-- What the floating-point formulas give for a place on the view: whether its distance to the
centre is at most a sixth and half of the width, and its angle as `radian2Angle` rounds it. -/
structure Geometry (Place : Type) where
  inCenter : Place → Bool
  inRocker : Place → Bool
  degrees : Place → Int
  bounded : ∀ place, -180 ≤ degrees place ∧ degrees place ≤ 180

structure Pads where
  up : State
  down : State
  left : State
  right : State
  upLeft : State
  downLeft : State
  upRight : State
  downRight : State
  deriving DecidableEq, Repr

/-- The pads with no direction shown. -/
def Pads.plain : Pads where
  up := .normal
  down := .normal
  left := .normal
  right := .normal
  upLeft := .hide
  downLeft := .hide
  upRight := .hide
  downRight := .hide

structure BaseRockerViewInfo where
  followType : Int
  shift : Bool

/-- The view with what its listener has sent. -/
structure BaseRockerView where
  followType : Int
  doubleClick : Bool
  center : State
  pads : Pads
  tempDirection : Direction
  touching : Bool
  clickCount : Int
  firstClickTime : Int
  shiftMode : Bool
  sent : Sent Int

/-! Angles are in tenths of a degree. -/

def angle0 : Int := 0
def angle360 : Int := 3600
def angle8dOf0p : Int := 225
def angle8dOf1p : Int := 675
def angle8dOf2p : Int := 1125
def angle8dOf3p : Int := 1575
def angle8dOf4p : Int := 2025
def angle8dOf5p : Int := 2475
def angle8dOf6p : Int := 2925
def angle8dOf7p : Int := 3375

def radian2Angle (rounded : Int) : Int :=
  if rounded ≥ 0 then 10 * rounded else angle360 + 10 * rounded

namespace BaseRockerView

variable {Place : Type}

def create (info : BaseRockerViewInfo) : BaseRockerView where
  followType := info.followType
  doubleClick := info.shift
  center := .normal
  pads := .plain
  tempDirection := .center
  touching := false
  clickCount := 0
  firstClickTime := 0
  shiftMode := false
  sent := []

def sendKeys (launcher : Launcher) (w a s d : Bool) (sent : Sent Int) : Sent Int :=
  let sent := InputBridge.sendEvent launcher keyW w sent
  let sent := InputBridge.sendEvent launcher keyA a sent
  let sent := InputBridge.sendEvent launcher keyS s sent
  InputBridge.sendEvent launcher keyD d sent

def getDirectionEvent (launcher : Launcher) (direction : Direction) (sent : Sent Int) : Sent Int :=
  match direction with
  | .center => sendKeys launcher false false false false sent
  | .up => sendKeys launcher true false false false sent
  | .down => sendKeys launcher false false true false sent
  | .left => sendKeys launcher false true false false sent
  | .right => sendKeys launcher false false false true sent
  | .upLeft => sendKeys launcher true true false false sent
  | .upRight => sendKeys launcher true false false true sent
  | .downLeft => sendKeys launcher false true true false sent
  | .downRight => sendKeys launcher false false true true sent

def onTouch (info : BaseRockerViewInfo) (v : BaseRockerView) : BaseRockerView :=
  { v with followType := info.followType, doubleClick := info.shift }

def onShake (launcher : Launcher) (v : BaseRockerView) : BaseRockerView :=
  { v with sent := getDirectionEvent launcher v.tempDirection v.sent }

def onCenterDoubleClick (launcher : Launcher) (v : BaseRockerView) : BaseRockerView :=
  { v with
    sent := InputBridge.sendEvent launcher keyLeftShift (!v.shiftMode) v.sent
    shiftMode := !v.shiftMode }

def onFinish (info : BaseRockerViewInfo) (v : BaseRockerView) : BaseRockerView :=
  { v with followType := info.followType, doubleClick := info.shift }

def setDirection (angle : Int) (v : BaseRockerView) : BaseRockerView :=
  if (angle0 ≤ angle ∧ angle8dOf0p > angle ∨ angle8dOf7p ≤ angle ∧ angle360 > angle) ∧
      v.tempDirection ≠ .right then
    { v with
      tempDirection := .right
      center := .normal
      pads := ⟨.normal,.normal,.normal,.press,.hide,.hide,.normal,.normal⟩ }
  else if (angle8dOf0p ≤ angle ∧ angle8dOf1p > angle) ∧ v.tempDirection ≠ .downRight then
    { v with
      tempDirection := .downRight
      center := .normal
      pads := { v.pads with
        up := .normal, down := .normal, left := .normal, right := .normal, downRight := .press } }
  else if (angle8dOf1p ≤ angle ∧ angle8dOf2p > angle) ∧ v.tempDirection ≠ .down then
    { v with
      tempDirection := .down
      center := .normal
      pads := ⟨.normal,.press,.normal,.normal,.hide,.normal,.hide,.normal⟩ }
  else if (angle8dOf2p ≤ angle ∧ angle8dOf3p > angle) ∧ v.tempDirection ≠ .downLeft then
    { v with
      tempDirection := .downLeft
      center := .normal
      pads := { v.pads with
        up := .normal, down := .normal, left := .normal, right := .normal, downLeft := .press } }
  else if (angle8dOf3p ≤ angle ∧ angle8dOf4p > angle) ∧ v.tempDirection ≠ .left then
    { v with
      tempDirection := .left
      center := .normal
      pads := ⟨.normal,.normal,.press,.normal,.normal,.normal,.hide,.hide⟩ }
  else if (angle8dOf4p ≤ angle ∧ angle8dOf5p > angle) ∧ v.tempDirection ≠ .upLeft then
    { v with
      tempDirection := .upLeft
      center := .normal
      pads := { v.pads with
        up := .normal, down := .normal, left := .normal, right := .normal, upLeft := .press } }
  else if (angle8dOf5p ≤ angle ∧ angle8dOf6p > angle) ∧ v.tempDirection ≠ .up then
    { v with
      tempDirection := .up
      center := .normal
      pads := ⟨.press,.normal,.normal,.normal,.normal,.hide,.normal,.hide⟩ }
  else if (angle8dOf6p ≤ angle ∧ angle8dOf7p > angle) ∧ v.tempDirection ≠ .upRight then
    { v with
      tempDirection := .upRight
      center := .normal
      pads := { v.pads with
        up := .normal, down := .normal, left := .normal, right := .normal, upRight := .press } }
  else v

def refreshView (launcher : Launcher) (geometry : Geometry Place) (e : MotionEvent Place)
    (v : BaseRockerView) : BaseRockerView :=
  if geometry.inCenter e.place then
    if v.tempDirection ≠ .center then
      onShake launcher { v with tempDirection := .center, center := .press, pads := .plain }
    else v
  else onShake launcher (setDirection (radian2Angle (geometry.degrees e.place)) v)

def countClick (launcher : Launcher) (time : Int) (v : BaseRockerView) : BaseRockerView :=
  if v.clickCount + 1 = 1 then { v with clickCount := 1, firstClickTime := time }
  else if v.clickCount + 1 = 2 then
    if time - v.firstClickTime ≤ 500 then { onCenterDoubleClick launcher v with clickCount := 0 }
    else { v with clickCount := 1, firstClickTime := time }
  else { v with clickCount := v.clickCount + 1 }

/-- What a touch does before the view is refreshed. -/
def touched (launcher : Launcher) (info : BaseRockerViewInfo) (geometry : Geometry Place)
    (e : MotionEvent Place) (v : BaseRockerView) : BaseRockerView :=
  let touched := onTouch info { v with touching := true }
  if geometry.inCenter e.place then
    onShake launcher { touched with tempDirection := .center, center := .press, pads := .plain }
  else touched

def down (launcher : Launcher) (info : BaseRockerViewInfo) (geometry : Geometry Place)
    (e : MotionEvent Place) (v : BaseRockerView) : BaseRockerView :=
  if geometry.inRocker e.place then
    let shown := refreshView launcher geometry e (touched launcher info geometry e v)
    if (geometry.inCenter e.place ∨ shown.followType = 2) ∧ shown.doubleClick then
      countClick launcher e.time shown
    else shown
  else v

def up (launcher : Launcher) (info : BaseRockerViewInfo) (v : BaseRockerView) : BaseRockerView :=
  if v.touching then
    let plain := { v with center := .normal, pads := .plain }
    let still := if plain.tempDirection ≠ .center then
        onShake launcher { plain with tempDirection := .center }
      else plain
    { onFinish info still with touching := false }
  else v

def onTouchEvent (launcher : Launcher) (info : BaseRockerViewInfo) (geometry : Geometry Place)
    (v : BaseRockerView) (e : MotionEvent Place) : BaseRockerView :=
  match e.action with
  | .down => down launcher info geometry e v
  | .move => if v.touching then refreshView launcher geometry e v else v
  | .up => up launcher info v
  | .cancel => up launcher info v
  | _ => v

/-- The view after a sequence of events. -/
def after (launcher : Launcher) (info : BaseRockerViewInfo) (geometry : Geometry Place)
    (events : List (MotionEvent Place)) : BaseRockerView :=
  events.foldl (onTouchEvent launcher info geometry) (create info)

end BaseRockerView

end Rocker

end HmclPe.Control
