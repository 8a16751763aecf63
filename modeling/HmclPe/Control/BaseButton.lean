import HmclPe.Control.InputBridge

/-! The on-screen buttons and the panel that shows them. A button knows whether it is kept; which keys
are held only the game knows. -/
namespace HmclPe.Control
open HmclPe.Lib.Presses

structure BaseButtonInfo where
  child : String
  showType : Int
  functionType : Int
  autoKeep : Bool
  autoClick : Bool
  visibilityControl : List String
  outputText : String
  outputKeycode : List Int
  deriving DecidableEq, Repr

def functionTypeTouch : Int := 0
def functionTypeDoubleClick : Int := 1

/-- A button posts its clicks anew each time they run, until they are removed. -/
structure BaseButton where
  info : BaseButtonInfo
  isKeeping : Bool
  isShowing : Bool
  visible : Bool
  clickCount : Int
  firstClickTime : Int
  clicking : Bool
  touched : Bool
  deriving DecidableEq, Repr

/-- A touch of a button, with the layouts that the files of its pattern name at that time. -/
structure ButtonEvent where
  action : Action
  time : Int
  childNames : List String
  deriving DecidableEq, Repr

def sendCodes (launcher : Launcher) (codes : List Int) (press : Bool) (sent : Sent Int) : Sent Int :=
  codes.foldl (fun sent code => InputBridge.sendEvent launcher code press sent) sent

namespace BaseButton

def pressKeys (launcher : Launcher) (b : BaseButton) (sent : Sent Int) : Sent Int :=
  sendCodes launcher b.info.outputKeycode true sent

def releaseKeys (launcher : Launcher) (b : BaseButton) (sent : Sent Int) : Sent Int :=
  sendCodes launcher b.info.outputKeycode false sent

def clickKeys (launcher : Launcher) (b : BaseButton) (sent : Sent Int) : Sent Int :=
  b.info.outputKeycode.foldl (fun sent code =>
    InputBridge.sendEvent launcher code false (InputBridge.sendEvent launcher code true sent)) sent

def toggleKeep (launcher : Launcher) (b : BaseButton) (sent : Sent Int) : BaseButton × Sent Int :=
  let kept := { b with isKeeping := !b.isKeeping }
  if b.info.autoClick then
    if b.isKeeping then ({ kept with clicking := false },b.releaseKeys launcher sent)
    else ({ kept with clicking := true },sent)
  else if b.isKeeping then (kept,b.releaseKeys launcher sent)
  else (kept,b.pressKeys launcher sent)

def down (launcher : Launcher) (b : BaseButton) (sent : Sent Int) : BaseButton × Sent Int :=
  if b.info.autoKeep then b.toggleKeep launcher sent
  else if b.info.autoClick then ({ b with clicking := true },sent)
  else (b,b.pressKeys launcher sent)

def up (launcher : Launcher) (b : BaseButton) (sent : Sent Int) : BaseButton × Sent Int :=
  if b.info.autoKeep then (b,sent)
  else if b.info.autoClick then ({ b with clicking := false },b.releaseKeys launcher sent)
  else (b,b.releaseKeys launcher sent)

def handleDoubleClick (launcher : Launcher) (b : BaseButton) (sent : Sent Int) :
    BaseButton × Sent Int :=
  if b.info.autoKeep then b.toggleKeep launcher sent
  else (b,b.clickKeys launcher sent)

def clickedTwice (b : BaseButton) (time : Int) : Bool :=
  b.clickCount + 1 = 2 && time - b.firstClickTime ≤ 500

def countClick (b : BaseButton) (time : Int) : BaseButton :=
  if b.clickCount + 1 = 1 then { b with clickCount := 1, firstClickTime := time }
  else if b.clickCount + 1 = 2 then
    if time - b.firstClickTime ≤ 500 then { b with clickCount := 0 }
    else { b with clickCount := 1, firstClickTime := time }
  else { b with clickCount := b.clickCount + 1 }

def onTouchEvent (launcher : Launcher) (editMode : Bool) (e : ButtonEvent) (b : BaseButton)
    (sent : Sent Int) : BaseButton × Sent Int :=
  if editMode then (b,sent)
  else if b.info.functionType = functionTypeTouch then
    match e.action with
    | .down => b.down launcher sent
    | .up => b.up launcher sent
    | .cancel => b.up launcher sent
    | _ => (b,sent)
  else if b.info.functionType = functionTypeDoubleClick then
    match e.action with
    | .down =>
      if b.clickedTwice e.time then (b.countClick e.time).handleDoubleClick launcher sent
      else (b.countClick e.time,sent)
    | _ => (b,sent)
  else (b,sent)

/-- Whether a touch goes on to the layouts the button controls and the text it types. -/
def acts (editMode : Bool) (e : ButtonEvent) (b : BaseButton) : Bool :=
  !editMode && e.action = .down &&
    (b.info.functionType = functionTypeTouch ||
      b.info.functionType = functionTypeDoubleClick && b.clickedTwice e.time)

def goesOn (e : ButtonEvent) : Bool := e.action ≠ .up && e.action ≠ .cancel

/-- A touch begins on a button that is shown, and goes on until it is lifted. -/
def receives (e : ButtonEvent) (b : BaseButton) : Bool :=
  if e.action = .down then b.visible && !b.touched else b.touched

end BaseButton

structure ChildLayout where
  name : String
  visibility : Int
  baseButtonList : List BaseButtonInfo
  deriving DecidableEq, Repr

/-- The layouts of a pattern, whose buttons output pairwise different key codes. -/
structure ChildList where
  layouts : List ChildLayout
  distinct : (layouts.flatMap ChildLayout.baseButtonList).Pairwise fun info other =>
    info.outputKeycode.Disjoint other.outputKeycode

/-- Removed views stay as long as what they posted runs. -/
structure ViewManager where
  launcher : Launcher
  gameCursorMode : Int
  editMode : Bool
  buttons : List BaseButton
  removed : List BaseButton
  typing : Nat
  sent : Sent Int
  crashed : Bool

namespace ViewManager

def keyT : Int := 84
def keyEnter : Int := 257
def viewVisible : Int := 0

def tap (key : Int) (s : ViewManager) : ViewManager :=
  let pressed := InputBridge.sendEvent s.launcher key true s.sent
  { s with sent := InputBridge.sendEvent s.launcher key false pressed }

def shows (mode showType : Int) : Bool :=
  showType = 0 || (mode = 1 && showType = 1) || (mode = 0 && showType = 2)

def refreshVisibility (s : ViewManager) (b : BaseButton) : BaseButton :=
  { b with visible := s.editMode || (b.isShowing && shows s.gameCursorMode b.info.showType) }

def setIsShowing (s : ViewManager) (showing : Bool) (b : BaseButton) : BaseButton :=
  s.refreshVisibility { b with isShowing := showing }

def toggleChild (s : ViewManager) (b : BaseButton) (child : String) : BaseButton :=
  if b.info.child = child then s.setIsShowing (!b.isShowing) b else b

def setChildVisibility (child : String) (s : ViewManager) : ViewManager :=
  { s with buttons := s.buttons.map fun b => s.toggleChild b child }

/-- The layouts that a button toggles. A name that no layout has is removed during the iteration.
Android's iterator goes by the size at its start: it ends if that was the last name, and fails at
any other. -/
def controlled (childNames : List String) : List String → List String × Bool
  | [] => ([],true)
  | child :: rest =>
    if child ∈ childNames then
      let (names,completed) := controlled childNames rest
      (child :: names,completed)
    else ([],rest.isEmpty)

def withoutUnknown (childNames : List String) (b : BaseButton) : BaseButton :=
  let known := b.info.visibilityControl.eraseP fun child => child ∉ childNames
  { b with info := { b.info with visibilityControl := known } }

def typesText (s : ViewManager) (info : BaseButtonInfo) : Bool :=
  info.outputText ≠ "" && s.gameCursorMode ≠ 0

def typeText (info : BaseButtonInfo) (s : ViewManager) : ViewManager :=
  if s.typesText info then { s.tap keyT with typing := s.typing + 1 } else s

def act (b : BaseButton) (childNames : List String) (s : ViewManager) : ViewManager :=
  let names := controlled childNames b.info.visibilityControl
  let s := names.1.foldl (fun s child => s.setChildVisibility child) s
  if names.2 then s.typeText b.info else { s with crashed := true }

def touch (i : Nat) (e : ButtonEvent) (s : ViewManager) : ViewManager :=
  match s.buttons[i]? with
  | none => s
  | some b =>
    if b.receives e then
      let (after,sent) := { b with touched := BaseButton.goesOn e }.onTouchEvent
        s.launcher s.editMode e s.sent
      if b.acts s.editMode e then
        { s with buttons := s.buttons.set i (withoutUnknown e.childNames after), sent }.act b
          e.childNames
      else { s with buttons := s.buttons.set i after, sent }
    else s

inductive Timer where
  | click (which : Nat)
  | text
  deriving DecidableEq, Repr

def fire (s : ViewManager) : Timer → ViewManager
  | .click which =>
    match (s.buttons ++ s.removed)[which]? with
    | none => s
    | some b => if b.clicking then { s with sent := b.pressKeys s.launcher s.sent } else s
  | .text => if s.typing = 0 then s else { s with typing := s.typing - 1 }.tap keyEnter

def refreshCursor (mode : Int) (s : ViewManager) : ViewManager :=
  { s with
    gameCursorMode := mode,
    buttons := s.buttons.map { s with gameCursorMode := mode }.refreshVisibility }

def enableCursor (s : ViewManager) : ViewManager := s.refreshCursor 0

def disableCursor (s : ViewManager) : ViewManager := s.refreshCursor 1

/-- A view that is removed while it is touched gets a cancel. -/
def removeView (s : ViewManager) (b : BaseButton) : ViewManager :=
  if b.touched then
    let (after,sent) :=
      { b with touched := false }.onTouchEvent s.launcher s.editMode ⟨.cancel,0,[]⟩ s.sent
    { s with removed := s.removed ++ [after], sent }
  else { s with removed := s.removed ++ [b] }

def loadButton (s : ViewManager) (visibility : Int) (info : BaseButtonInfo) : BaseButton :=
  s.setIsShowing (visibility = viewVisible) {
    info
    isKeeping := false
    isShowing := true
    visible := true
    clickCount := 0
    firstClickTime := 0
    clicking := false
    touched := false }

def refreshLayout (childLayouts : List ChildLayout) (child : String) (editMode : Bool)
    (s : ViewManager) : ViewManager :=
  let s := { s.buttons.foldl removeView s with buttons := [] }
  if childLayouts = [] then s
  else if editMode then
    match childLayouts.find? fun layout => layout.name = child with
    | none => { s with crashed := true }
    | some layout => { s with buttons := layout.baseButtonList.map (s.loadButton viewVisible) }
  else { s with
    buttons := childLayouts.flatMap fun layout =>
      layout.baseButtonList.map (s.loadButton layout.visibility) }

inductive Step where
  | touch (i : Nat) (e : ButtonEvent)
  | fire (timer : Timer)
  | enableCursor
  | disableCursor
  | refreshLayout (childLayouts : ChildList) (child : String) (editMode : Bool)

/-- The edit mode is set before the layout is refreshed for it. -/
def step (s : ViewManager) (call : Step) : ViewManager :=
  if s.crashed then s
  else match call with
  | .touch i e => s.touch i e
  | .fire timer => s.fire timer
  | .enableCursor => s.enableCursor
  | .disableCursor => s.disableCursor
  | .refreshLayout childLayouts child editMode =>
    { s with editMode }.refreshLayout childLayouts.layouts child editMode

end ViewManager

end HmclPe.Control
