import HmclPe.Control.ViewPointer
import Mathlib.Tactic.LinearCombination

/-! When the camera pointer follows the finger that owns it. -/
namespace HmclPe.Control.ViewPointer
open HmclPe.Lib.Runs State

variable {ι : Type} [DecidableEq ι]

section Mode

open TouchPad

@[simp] theorem send_env (key : Int) (press : Bool) (pad : TouchPad) :
    (pad.send key press).env = pad.env := rfl

@[simp] theorem sendMouse_env (button : Option Int) (press : Bool) (pad : TouchPad) :
    (pad.sendMouse button press).env = pad.env := by
  cases button with
  | none => rfl
  | some button => rfl

@[simp] theorem sendKeys_env (keys : List Int) (press : Bool) (pad : TouchPad) :
    (pad.sendKeys keys press).env = pad.env := by
  induction keys generalizing pad with
  | nil => rfl
  | cons key keys ih => exact (ih (pad.send key press)).trans (send_env key press pad)

theorem inventoryTouch_env (pad : TouchPad) (e : MotionEvent) :
    (pad.inventoryTouch e).env = pad.env := by
  unfold inventoryTouch
  cases e.action with
  | down => exact sendKeys_env _ _ _
  | move =>
    dsimp only
    split_ifs
    · rfl
    · rfl
  | up => exact sendKeys_env _ _ _
  | pointerDown => rfl
  | pointerUp => rfl
  | cancel => rfl

theorem release_env (pad : TouchPad) (e : MotionEvent) : (pad.release e).env = pad.env := by
  have direct (p : TouchPad) : p.releaseDirect.env = p.env := by
    unfold releaseDirect
    split_ifs <;> simp
  have aim (p : TouchPad) : p.releaseAimed.env = p.env := by
    unfold releaseAimed
    split_ifs <;> simp
  have cursor (p : TouchPad) : p.tapCursor.env = p.env := by
    unfold tapCursor click
    split_ifs <;> simp
  have view (p : TouchPad) : p.tapView.env = p.env := by
    unfold tapView click
    split_ifs <;> simp
  unfold release
  split_ifs <;> simp [direct,aim,cursor,view]

theorem padTouch_env (pad : TouchPad) (e : MotionEvent) : (pad.padTouch e).env = pad.env := by
  have press (p : TouchPad) : p.postPress.env = p.env := by
    unfold postPress
    split_ifs <;> rfl
  have direct (p : TouchPad) : p.pressDirect.env = p.env := by
    unfold pressDirect
    split_ifs
    · cases p.launcher with
      | boat => exact sendMouse_env _ _ _
      | pojav => rfl
    · rfl
  unfold padTouch
  cases e.action with
  | down => exact (direct _).trans (press _)
  | move =>
    dsimp only
    split_ifs
    · rfl
    · rfl
  | pointerDown => rfl
  | pointerUp => exact release_env pad e
  | up => exact release_env pad e
  | cancel => exact release_env pad e

theorem onTouchEvent_env (pad : TouchPad) (e : MotionEvent) :
    (pad.onTouchEvent e).env = pad.env := by
  unfold TouchPad.onTouchEvent
  dsimp only
  split_ifs
  · exact inventoryTouch_env _ e
  · exact padTouch_env _ e
  · exact inventoryTouch_env _ e
  · exact padTouch_env _ e

end Mode

section Events

/-- What a button may do to the view, which no event changes. -/
def BaseButton.turns (b : BaseButton) : Prop :=
  (b.functionType = 0 ∨ b.functionType = 1) ∧ b.viewMove = true

theorem setGamePointer_granted {s : State ι} {view : ViewId ι} (moving : Bool) (delta : Point)
    (granted : s.viewMovingType = none ∨ s.viewMovingType = some view) :
    (s.setGamePointer view moving delta).current = s.pointer + s.mouseSpeed • delta ∧
      (s.setGamePointer view moving delta).viewMovingType =
        if moving then some view else none := by
  rw [setGamePointer,if_pos granted]
  cases moving with
  | true => exact ⟨rfl,rfl⟩
  | false => exact ⟨rfl,rfl⟩

theorem setGamePointer_refused {s : State ι} {view : ViewId ι} (moving : Bool) (delta : Point)
    (refused : ¬(s.viewMovingType = none ∨ s.viewMovingType = some view)) :
    s.setGamePointer view moving delta = s := if_neg refused

omit [DecidableEq ι] in
theorem moveCursor_keeps (s : State ι) (e : MotionEvent) :
    (s.moveCursor e).current = s.current ∧ (s.moveCursor e).viewMovingType = s.viewMovingType ∧
      (s.moveCursor e).pad = s.pad := by
  unfold moveCursor
  dsimp only
  split_ifs
  all_goals
    cases e.action <;> exact ⟨rfl,rfl,rfl⟩

omit [DecidableEq ι] in
/-- The cursor rests while the pad turns the view. -/
theorem moveCursor_game {s : State ι} (e : MotionEvent) (game : s.gameCursorMode = 1) :
    s.moveCursor e = s := by
  have mode : s.pad.env.gameCursorMode = 1 := game
  have direct : s.pad.directMouse = false := by
    rw [TouchPad.directMouse,mode]
    simp
  have cursor : ¬(s.pad.env.mouseMode = 1 ∧ s.gameCursorMode = 0) := by
    intro both
    rw [game] at both
    exact absurd both.2 one_ne_zero
  unfold moveCursor
  rw [direct]
  exact if_neg cursor

theorem padTouchEvent_sets {s : State ι} {e : MotionEvent} {moving : Bool}
    (sets : s.sets .pad e = some moving) :
    (s.padTouchEvent e).current =
        (s.setGamePointer .pad moving (place e - s.initial .pad)).current ∧
      (s.padTouchEvent e).viewMovingType =
        (s.setGamePointer .pad moving (place e - s.initial .pad)).viewMovingType := by
  unfold State.sets at sets
  dsimp only at sets
  split_ifs at sets with turns
  obtain ⟨outside,view,finger⟩ := turns
  have game : s.gameCursorMode = 1 := of_decide_eq_true (Bool.and_eq_true_iff.mp view).1
  have notDown : e.action ≠ .down := by
    intro down
    rw [down] at sets
    cases sets
  have turned : (s.moveCursor e).turnView e =
      s.setGamePointer .pad moving (place e - s.initial .pad) := by
    rw [moveCursor_game e game,turnView,if_pos ⟨view,finger⟩]
    cases acts : e.action <;> rw [acts] at sets <;> cases sets <;> rfl
  unfold padTouchEvent
  dsimp only
  rw [if_neg notDown,if_neg outside,turned]
  exact ⟨rfl,rfl⟩

theorem padTouchEvent_rests {s : State ι} {e : MotionEvent} (rests : s.sets .pad e = none) :
    (s.padTouchEvent e).current = s.current ∧
      (s.padTouchEvent e).viewMovingType = s.viewMovingType := by
  obtain ⟨current,owner,pad⟩ := moveCursor_keeps s e
  unfold padTouchEvent
  dsimp only
  by_cases inventory : (if e.action = .down then { s.pad with downX := e.x, downY := e.y }
      else s.pad).onInventory
  · rw [if_pos inventory]
    exact ⟨rfl,rfl⟩
  · rw [if_neg inventory]
    suffices still : (s.moveCursor e).turnView e = s.moveCursor e by
      rw [still]
      exact ⟨current,owner⟩
    rw [turnView,pad]
    split_ifs with turns
    · cases acts : e.action
      case down => rfl
      case pointerDown => rfl
      all_goals
        rw [if_neg (by rw [acts]; decide)] at inventory
        simp [State.sets,acts,inventory,turns] at rests
    · rfl

theorem buttonTouchEvent_sets {s : State ι} {uuid : ι} {e : MotionEvent} {moving : Bool}
    (sets : s.sets (.button uuid) e = some moving) :
    s.buttonTouchEvent uuid e =
      s.setGamePointer (.button uuid) moving (place e - s.initial (.button uuid)) := by
  unfold State.sets at sets
  dsimp only at sets
  split_ifs at sets with turns
  unfold buttonTouchEvent
  dsimp only
  rw [if_pos turns.1]
  cases acts : e.action <;> rw [acts] at sets <;> cases sets <;> exact if_pos turns.2

theorem buttonTouchEvent_rests {s : State ι} {uuid : ι} {e : MotionEvent}
    (rests : s.sets (.button uuid) e = none) :
    (s.buttonTouchEvent uuid e).current = s.current ∧
      (s.buttonTouchEvent uuid e).viewMovingType = s.viewMovingType := by
  unfold buttonTouchEvent
  dsimp only
  by_cases works : (s.buttons uuid).functionType = 0 ∨ (s.buttons uuid).functionType = 1
  · rw [if_pos works]
    cases acts : e.action
    case down => exact ⟨rfl,rfl⟩
    case pointerDown => exact ⟨rfl,rfl⟩
    case pointerUp => exact ⟨rfl,rfl⟩
    all_goals
      have still : ¬((s.buttons uuid).viewMove = true ∧ s.gameCursorMode = 1) := by
        intro turns
        simp [State.sets,acts,works,turns] at rests
      dsimp only
      rw [if_neg still]
      exact ⟨rfl,rfl⟩
  · rw [if_neg works]
    exact ⟨rfl,rfl⟩

theorem onTouchEvent_sets {s : State ι} {view : ViewId ι} {e : MotionEvent} {moving : Bool}
    (sets : s.sets view e = some moving) :
    (s.onTouchEvent view e).current =
        (s.setGamePointer view moving (place e - s.initial view)).current ∧
      (s.onTouchEvent view e).viewMovingType =
        (s.setGamePointer view moving (place e - s.initial view)).viewMovingType := by
  cases view with
  | pad => exact padTouchEvent_sets sets
  | button uuid =>
    rw [onTouchEvent,buttonTouchEvent_sets sets]
    exact ⟨rfl,rfl⟩

/-- What an event does that turns the view. -/
theorem onTouchEvent_turns {s : State ι} {view : ViewId ι} {e : MotionEvent}
    (turns : s.Turns view e) :
    (s.onTouchEvent view e).current = s.pointer + s.mouseSpeed • (place e - s.initial view) ∧
      (s.onTouchEvent view e).viewMovingType =
        if s.sets view e = some true then some view else none := by
  obtain ⟨moving,sets⟩ := Option.ne_none_iff_exists'.mp turns.1
  obtain ⟨current,owner⟩ := onTouchEvent_sets sets
  obtain ⟨current',owner'⟩ :=
    setGamePointer_granted moving (place e - s.initial view) turns.2
  refine ⟨current.trans current',(owner.trans owner').trans ?_⟩
  rw [sets]
  cases moving with
  | true => rfl
  | false => rfl

theorem onTouchEvent_rests {s : State ι} {view : ViewId ι} {e : MotionEvent}
    (rests : ¬s.Turns view e) :
    (s.onTouchEvent view e).current = s.current ∧
      (s.onTouchEvent view e).viewMovingType = s.viewMovingType := by
  cases sets : s.sets view e with
  | none =>
    cases view with
    | pad => exact padTouchEvent_rests sets
    | button uuid => exact buttonTouchEvent_rests sets
  | some moving =>
    have refused : ¬(s.viewMovingType = none ∨ s.viewMovingType = some view) := by
      intro granted
      apply rests
      exact ⟨by rw [sets]; exact Option.some_ne_none moving,granted⟩
    obtain ⟨current,owner⟩ := onTouchEvent_sets sets
    rw [setGamePointer_refused moving _ refused] at current owner
    exact ⟨current,owner⟩

/-- What no event changes. -/
structure Same (s s' : State ι) : Prop where
  mode : s'.gameCursorMode = s.gameCursorMode
  fingers : ∀ view, s'.fingers view = s.fingers view
  turns : ∀ uuid, (s'.buttons uuid).turns ↔ (s.buttons uuid).turns

theorem setGamePointer_same (s : State ι) (view : ViewId ι) (moving : Bool) (delta : Point) :
    Same s (s.setGamePointer view moving delta) := by
  unfold setGamePointer
  split_ifs
  all_goals
    exact ⟨rfl,fun view => by cases view <;> rfl,fun _ => Iff.rfl⟩

omit [DecidableEq ι] in
theorem Same.trans {s s' s'' : State ι} (first : Same s s') (second : Same s' s'') :
    Same s s'' where
  mode := second.mode.trans first.mode
  fingers view := (second.fingers view).trans (first.fingers view)
  turns uuid := (second.turns uuid).trans (first.turns uuid)

omit [DecidableEq ι] in
theorem Same.refl (s : State ι) : Same s s := ⟨rfl,fun _ => rfl,fun _ => Iff.rfl⟩

omit [DecidableEq ι] in
theorem moveCursor_same (s : State ι) (e : MotionEvent) : Same s (s.moveCursor e) := by
  unfold moveCursor
  dsimp only
  split_ifs
  all_goals
    cases e.action <;> exact ⟨rfl,fun view => by cases view <;> rfl,fun _ => Iff.rfl⟩

theorem turnView_same (s : State ι) (e : MotionEvent) : Same s (s.turnView e) := by
  unfold turnView
  split_ifs
  · cases e.action
    case down => exact Same.refl s
    case pointerDown => exact Same.refl s
    all_goals exact setGamePointer_same s _ _ _
  · exact Same.refl s

theorem padTouchEvent_same (s : State ι) (e : MotionEvent) : Same s (s.padTouchEvent e) := by
  unfold padTouchEvent
  dsimp only
  generalize (if e.action = .down then { s.pad with downX := e.x, downY := e.y } else s.pad) = down
  have after : Same s (if down.onInventory then s else (s.moveCursor e).turnView e) := by
    split_ifs
    · exact Same.refl s
    · exact (moveCursor_same s e).trans (turnView_same _ e)
  refine ⟨?_,fun view => ?_,after.turns⟩
  · exact congrArg Environment.gameCursorMode (onTouchEvent_env s.pad e)
  · rw [← after.fingers view]
    cases view with
    | pad => rfl
    | button uuid => rfl

theorem buttonTouchEvent_same (s : State ι) (uuid : ι) (e : MotionEvent) :
    Same s (s.buttonTouchEvent uuid e) := by
  have set (moving : Bool) (delta : Point) :
      Same s (if (s.buttons uuid).viewMove ∧ s.gameCursorMode = 1 then
        s.setGamePointer (.button uuid) moving delta else s) := by
    split_ifs
    · exact setGamePointer_same s _ moving delta
    · exact Same.refl s
  unfold buttonTouchEvent
  dsimp only
  by_cases works : (s.buttons uuid).functionType = 0 ∨ (s.buttons uuid).functionType = 1
  · rw [if_pos works]
    cases e.action with
    | down =>
      refine ⟨rfl,fun view => ?_,fun other => ?_⟩
      · cases view with
        | pad => rfl
        | button other =>
          by_cases here : other = uuid
          · simp [State.fingers,here]
          · simp [State.fingers,here]
      · by_cases here : other = uuid
        · simp [BaseButton.turns,here]
        · simp [here]
    | pointerDown => exact Same.refl s
    | pointerUp => exact Same.refl s
    | move => exact set true _
    | up => exact set false _
    | cancel => exact set false _
  · rw [if_neg works]
    exact Same.refl s

theorem onTouchEvent_same (s : State ι) (view : ViewId ι) (e : MotionEvent) :
    Same s (s.onTouchEvent view e) := by
  cases view with
  | pad => exact padTouchEvent_same s e
  | button uuid => exact buttonTouchEvent_same s uuid e

theorem setFingers_fingers (s : State ι) (view : ViewId ι) (fingers : List (Int × Point)) :
    (s.setFingers view fingers).fingers = Function.update s.fingers view fingers := by
  funext other
  cases view with
  | pad =>
    cases other with
    | pad => simp [State.fingers,setFingers]
    | button uuid => simp [State.fingers,setFingers]
  | button uuid =>
    cases other with
    | pad => simp [State.fingers,setFingers]
    | button other =>
      by_cases here : other = uuid
      · simp [State.fingers,setFingers,here]
      · simp [State.fingers,setFingers,here]

theorem setFingers_turns (s : State ι) (view : ViewId ι) (fingers : List (Int × Point))
    (uuid : ι) : ((s.setFingers view fingers).buttons uuid).turns ↔ (s.buttons uuid).turns := by
  cases view with
  | pad => exact Iff.rfl
  | button other =>
    by_cases here : uuid = other
    · simp [setFingers,BaseButton.turns,here]
    · simp [setFingers,here]

theorem setFingers_keeps (s : State ι) (view : ViewId ι) (fingers : List (Int × Point)) :
    (s.setFingers view fingers).current = s.current ∧
      (s.setFingers view fingers).viewMovingType = s.viewMovingType ∧
      (s.setFingers view fingers).gameCursorMode = s.gameCursorMode := by
  cases view with
  | pad => exact ⟨rfl,rfl,rfl⟩
  | button uuid => exact ⟨rfl,rfl,rfl⟩

end Events

section Gestures

variable {s : State ι} {view : ViewId ι} {t : Touch} {r : Report}

theorem touch_eq (reports : report (s.fingers view) t = some r) :
    s.touch view t = (s.onTouchEvent view r.event).setFingers view (remaining t r.fingers) := by
  rw [touch,reports]

theorem touch_turns (reports : report (s.fingers view) t = some r) (turns : s.Turns view r.event) :
    (s.touch view t).current =
        s.pointer + s.mouseSpeed • (place r.event - s.initial view) ∧
      (s.touch view t).viewMovingType =
        if s.sets view r.event = some true then some view else none := by
  obtain ⟨current,owner⟩ := onTouchEvent_turns turns
  rw [touch_eq reports]
  obtain ⟨current',owner',_⟩ :=
    setFingers_keeps (s.onTouchEvent view r.event) view (remaining t r.fingers)
  exact ⟨current'.trans current,owner'.trans owner⟩

theorem touch_rests (reports : report (s.fingers view) t = some r)
    (rests : ¬s.Turns view r.event) :
    (s.touch view t).current = s.current ∧
      (s.touch view t).viewMovingType = s.viewMovingType := by
  obtain ⟨current,owner⟩ := onTouchEvent_rests rests
  rw [touch_eq reports]
  obtain ⟨current',owner',_⟩ :=
    setFingers_keeps (s.onTouchEvent view r.event) view (remaining t r.fingers)
  exact ⟨current'.trans current,owner'.trans owner⟩

theorem touch_mode (reports : report (s.fingers view) t = some r) :
    (s.touch view t).gameCursorMode = s.gameCursorMode := by
  rw [touch_eq reports]
  obtain ⟨_,_,mode⟩ :=
    setFingers_keeps (s.onTouchEvent view r.event) view (remaining t r.fingers)
  exact mode.trans (onTouchEvent_same s view r.event).mode

theorem touch_fingers (reports : report (s.fingers view) t = some r) :
    (s.touch view t).fingers = Function.update s.fingers view (remaining t r.fingers) := by
  rw [touch_eq reports,setFingers_fingers]
  exact congrArg (Function.update · view (remaining t r.fingers))
    (funext (onTouchEvent_same s view r.event).fingers)

theorem touch_buttons (reports : report (s.fingers view) t = some r) (uuid : ι) :
    ((s.touch view t).buttons uuid).turns ↔ (s.buttons uuid).turns := by
  rw [touch_eq reports]
  exact (setFingers_turns _ view _ uuid).trans ((onTouchEvent_same s view r.event).turns uuid)

theorem touch_idle (reports : report (s.fingers view) t = some r) :
    (s.touch view t).Idle ↔
      remaining t r.fingers = [] ∧ ∀ other, other ≠ view → s.fingers other = [] := by
  rw [Idle,touch_fingers reports]
  constructor
  · intro idle
    constructor
    · have here := idle view
      rwa [Function.update_self] at here
    · intro other elsewhere
      have there := idle other
      rwa [Function.update_of_ne elsewhere] at there
  · intro last other
    by_cases here : other = view
    · rw [here,Function.update_self]
      exact last.1
    · rw [Function.update_of_ne here]
      exact last.2 other here

theorem report_eq {fingers : List (Int × Point)} (reports : report fingers t = some r) :
    reported fingers t = some r.fingers ∧ r.fingers ≠ [] ∧ r.event.action = t.action := by
  unfold report at reports
  cases places : reported fingers t with
  | none => simp [places] at reports
  | some after =>
    rw [places] at reports
    cases after with
    | nil => cases reports
    | cons first rest =>
      cases reports
      exact ⟨rfl,List.cons_ne_nil first rest,rfl⟩

/-- Only the end of a gesture leaves no finger on the view. -/
theorem action_of_remaining {fingers : List (Int × Point)} (reports : report fingers t = some r)
    (last : remaining t r.fingers = []) : t.action = .up ∨ t.action = .cancel := by
  obtain ⟨places,some_,_⟩ := report_eq reports
  unfold remaining at last
  unfold reported at places
  cases acts : t.action with
  | up => exact .inl rfl
  | cancel => exact .inr rfl
  | down =>
    rw [acts] at last
    exact absurd last some_
  | pointerDown =>
    rw [acts] at last
    exact absurd last some_
  | move =>
    rw [acts] at last
    exact absurd last some_
  | pointerUp =>
    rw [acts] at last places
    dsimp only at last places
    split_ifs at places with two
    have length : r.fingers.length = fingers.length := by
      rw [← Option.some.inj places,moved,List.length_map]
    cases List.eraseP_eq_nil_iff.mp last with
    | inl empty => exact absurd empty some_
    | inr single =>
      obtain ⟨finger,_,single⟩ := single
      rw [single] at length
      have one : fingers.length = 1 := length.symm
      omega

end Gestures

section Owners

omit [DecidableEq ι] in
theorem sets_ends {s : State ι} {view : ViewId ι} {e : MotionEvent}
    (ends : e.action = .up ∨ e.action = .cancel) : s.sets view e ≠ some true := by
  intro moves
  unfold State.sets at moves
  cases view with
  | pad => cases ends with | inl acts | inr acts => simp [acts] at moves
  | button uuid => cases ends with | inl acts | inr acts => simp [acts] at moves

omit [DecidableEq ι] in
/-- A button that may turn the view in the game sets the camera pointer when its gesture ends. -/
theorem sets_button {s : State ι} {uuid : ι} {e : MotionEvent} (turns : (s.buttons uuid).turns)
    (game : s.gameCursorMode = 1) (ends : e.action = .up ∨ e.action = .cancel) :
    s.sets (.button uuid) e ≠ none := by
  unfold State.sets
  dsimp only
  rw [if_pos ⟨turns.1,turns.2,game⟩]
  cases ends with
  | inl acts => simp [acts]
  | inr acts => simp [acts]

omit [DecidableEq ι] in
theorem turns_of_sets {s : State ι} {uuid : ι} {e : MotionEvent}
    (sets : s.sets (.button uuid) e ≠ none) : (s.buttons uuid).turns := by
  unfold State.sets at sets
  dsimp only at sets
  split_ifs at sets with turns
  · exact ⟨turns.1,turns.2.1⟩
  · exact absurd rfl sets

/-- No owner is left over without a finger, but for the pad with fingers on other views; a button
that owns the camera pointer has a finger. -/
structure Kept (s : State ι) : Prop where
  letGo : s.LetGo
  held : ∀ uuid, s.gameCursorMode = 1 → s.viewMovingType = some (.button uuid) →
    (s.buttons uuid).turns ∧ s.fingers (.button uuid) ≠ []

variable {s : State ι} {view : ViewId ι} {t : Touch} {r : Report}

theorem touch_held (kept : Kept s) (reports : report (s.fingers view) t = some r) (uuid : ι)
    (game : (s.touch view t).gameCursorMode = 1)
    (owns : (s.touch view t).viewMovingType = some (.button uuid)) :
    ((s.touch view t).buttons uuid).turns ∧ (s.touch view t).fingers (.button uuid) ≠ [] := by
  rw [touch_mode reports] at game
  rw [touch_buttons reports,touch_fingers reports]
  obtain ⟨_,_,acts⟩ := report_eq reports
  by_cases turns : s.Turns view r.event
  · obtain ⟨_,owner⟩ := touch_turns reports turns
    rw [owner] at owns
    split_ifs at owns with moves
    obtain rfl := Option.some.inj owns
    refine ⟨turns_of_sets turns.1,?_⟩
    rw [Function.update_self]
    intro last
    have ends := action_of_remaining reports last
    rw [← acts] at ends
    exact sets_ends ends moves
  · rw [(touch_rests reports turns).2] at owns
    obtain ⟨may,finger⟩ := kept.held uuid game owns
    refine ⟨may,?_⟩
    by_cases here : ViewId.button uuid = view
    · subst here
      rw [Function.update_self]
      intro last
      have ends := action_of_remaining reports last
      rw [← acts] at ends
      exact turns ⟨sets_button may game ends,.inr owns⟩
    · rw [Function.update_of_ne here]
      exact finger

theorem touch_letGo (kept : Kept s) (reports : report (s.fingers view) t = some r) :
    (s.touch view t).LetGo ↔
      (s.gameCursorMode = 1 → s.viewMovingType = some .pad → remaining t r.fingers = [] →
        (∀ other, other ≠ view → s.fingers other = []) →
          view = .pad ∧ s.sets .pad r.event ≠ none) := by
  obtain ⟨_,_,acts⟩ := report_eq reports
  rw [LetGo,touch_mode reports,touch_idle reports]
  constructor
  · intro letGo game owns last others
    have free := letGo game ⟨last,others⟩
    by_cases turns : s.Turns view r.event
    · obtain ⟨sets,granted⟩ := turns
      rw [owns] at granted
      cases granted with
      | inl none_ => cases none_
      | inr same =>
        obtain rfl := Option.some.inj same
        exact ⟨rfl,sets⟩
    · rw [(touch_rests reports turns).2,owns] at free
      cases free
  · intro meets game last
    obtain ⟨last,others⟩ := last
    have ends := action_of_remaining reports last
    rw [← acts] at ends
    by_cases turns : s.Turns view r.event
    · rw [(touch_turns reports turns).2,if_neg (sets_ends ends)]
    · rw [(touch_rests reports turns).2]
      cases owns : s.viewMovingType with
      | none => rfl
      | some owner =>
        cases owner with
        | pad =>
          obtain ⟨rfl,sets⟩ := meets game owns last others
          exact absurd ⟨sets,.inr owns⟩ turns
        | button uuid =>
          obtain ⟨may,finger⟩ := kept.held uuid game owns
          by_cases here : ViewId.button uuid = view
          · subst here
            exact absurd ⟨sets_button may game ends,.inr owns⟩ turns
          · exact absurd (others _ here) finger

theorem touch_moves (reports : report (s.fingers view) t = some r) :
    (s.touch view t).current - s.current = s.mouseSpeed • drag s (.touch view t) ↔
      (s.Turns view r.event →
        s.current - s.pointer = s.mouseSpeed • (r.before - s.initial view)) := by
  rw [drag,reports]
  dsimp only
  by_cases turns : s.Turns view r.event
  · rw [if_pos turns,(touch_turns reports turns).1]
    have whole : s.mouseSpeed • (place r.event - s.initial view) =
        s.mouseSpeed • (place r.event - r.before) + s.mouseSpeed • (r.before - s.initial view) := by
      rw [← smul_add,sub_add_sub_cancel]
    constructor
    · intro moves _
      rw [whole] at moves
      linear_combination -moves
    · intro meets
      rw [whole]
      linear_combination -meets turns
  · rw [if_neg turns,(touch_rests reports turns).1,smul_zero,sub_self]
    exact ⟨fun _ here => absurd here turns,fun _ => rfl⟩

/-- A call meets the condition exactly when the camera pointer follows its finger. -/
theorem follows_iff (call : Step ι) (kept : Kept s) : Follows s call ↔ Meets s call := by
  cases call with
  | touch view t =>
    cases reports : report (s.fingers view) t with
    | none =>
      have stays : s.touch view t = s := by rw [touch,reports]
      constructor
      · intro _ r here
        rw [reports] at here
        cases here
      · intro _
        refine ⟨?_,?_⟩
        · change (s.touch view t).current - s.current = _
          rw [stays,drag,reports,sub_self]
          exact (smul_zero _).symm
        · change (s.touch view t).LetGo
          rw [stays]
          exact kept.letGo
    | some r =>
      constructor
      · intro follows r' here
        obtain rfl := Option.some.inj (reports.symm.trans here)
        exact ⟨(touch_moves reports).mp follows.1,(touch_letGo kept reports).mp follows.2⟩
      · intro meets
        obtain ⟨moves,letGo⟩ := meets r reports
        exact ⟨(touch_moves reports).mpr moves,(touch_letGo kept reports).mpr letGo⟩
  | enableCursor =>
    refine ⟨fun _ => True.intro,fun _ => ⟨?_,?_⟩⟩
    · exact (sub_self _).trans (smul_zero _).symm
    · intro game
      exact absurd game zero_ne_one
  | disableCursor =>
    refine ⟨fun _ => True.intro,fun _ => ⟨?_,?_⟩⟩
    · exact (sub_self _).trans (smul_zero _).symm
    · intro _ _
      rfl

theorem step_kept (call : Step ι) (kept : Kept s) (follows : Follows s call) :
    Kept (step s call) := by
  refine ⟨follows.2,?_⟩
  intro uuid game owns
  cases call with
  | touch view t =>
    cases reports : report (s.fingers view) t with
    | none =>
      have stays : s.touch view t = s := by rw [touch,reports]
      rw [step,stays] at game owns ⊢
      exact kept.held uuid game owns
    | some r => exact touch_held kept reports uuid game owns
  | enableCursor => exact absurd game zero_ne_one
  | disableCursor => cases owns

end Owners

section Drags

/-- One finger is on a button that turns the view, and the camera pointer is where it took it. -/
structure Dragging (s : State ι) (uuid : ι) (id : Int) (point : Point) : Prop where
  game : s.gameCursorMode = 1
  turns : (s.buttons uuid).turns
  finger : (s.buttons uuid).fingers = [(id,point)]
  granted : s.viewMovingType = none ∨ s.viewMovingType = some (.button uuid)
  taken : s.current - s.pointer = s.mouseSpeed • (point - (s.buttons uuid).initial)

/-- A button that turns the view can be touched, and the camera pointer is at its base. -/
structure Ready (s : State ι) (uuid : ι) : Prop where
  game : s.gameCursorMode = 1
  turns : (s.buttons uuid).turns
  finger : (s.buttons uuid).fingers = []
  free : s.viewMovingType = none
  taken : s.current = s.pointer

variable {s : State ι} {uuid : ι} {id : Int} {point : Point}

omit [DecidableEq ι] in
theorem Dragging.sets (dragging : Dragging s uuid id point) {e : MotionEvent}
    (acts : e.action = .move ∨ e.action = .up) :
    s.sets (.button uuid) e = some (decide (e.action = .move)) := by
  unfold State.sets
  dsimp only
  rw [if_pos ⟨dragging.turns.1,dragging.turns.2,dragging.game⟩]
  cases acts with
  | inl moves => simp [moves]
  | inr ends => simp [ends]

theorem report_single {t : Touch} (acts : t.action = .move ∨ t.action = .up ∧ t.id = id) :
    report [(id,point)] t = some {
      fingers := [(id,t.places id)]
      event := {
        action := t.action
        x := (t.places id).1
        y := (t.places id).2
        pointerId := id
        time := t.time }
      before := point } := by
  cases acts with
  | inl moves => simp [report,reported,moved,moves]
  | inr ends => simp [report,reported,moved,ids,ends]

theorem Ready.touched (ready : Ready s uuid) {t : Touch} (acts : t.action = .down) :
    Meets s (.touch (.button uuid) t) ∧
      Dragging (s.touch (.button uuid) t) uuid t.id (t.places t.id) := by
  have reports : report (s.fingers (.button uuid)) t = some {
      fingers := [(t.id,t.places t.id)]
      event := {
        action := .down
        x := (t.places t.id).1
        y := (t.places t.id).2
        pointerId := t.id
        time := t.time }
      before := t.places t.id } := by
    simp [report,reported,State.fingers,ready.finger,acts]
  constructor
  · intro r here
    obtain rfl := Option.some.inj (reports.symm.trans here)
    refine ⟨fun turns => ?_,fun _ owns => ?_⟩
    · apply absurd _ turns.1
      simp [State.sets]
    · rw [ready.free] at owns
      cases owns
  · have touched := touch_eq reports
    rw [onTouchEvent,buttonTouchEvent,if_pos ready.turns.1] at touched
    rw [touched]
    refine ⟨ready.game,?_,?_,.inl ready.free,?_⟩
    · simpa [setFingers,BaseButton.turns] using ready.turns
    · simp [setFingers,remaining,acts]
    · simp [setFingers,ready.taken,place]

omit [DecidableEq ι] in
theorem Dragging.reports (dragging : Dragging s uuid id point) {t : Touch}
    (acts : t.action = .move ∨ t.action = .up ∧ t.id = id) :
    report (s.fingers (.button uuid)) t = some {
      fingers := [(id,t.places id)]
      event := {
        action := t.action
        x := (t.places id).1
        y := (t.places id).2
        pointerId := id
        time := t.time }
      before := point } := by
  rw [State.fingers,dragging.finger]
  exact report_single acts

omit [DecidableEq ι] in
theorem Dragging.meets (dragging : Dragging s uuid id point) {t : Touch}
    (acts : t.action = .move ∨ t.action = .up ∧ t.id = id) :
    Meets s (.touch (.button uuid) t) := by
  intro r here
  obtain rfl := Option.some.inj ((dragging.reports acts).symm.trans here)
  refine ⟨fun _ => dragging.taken,fun _ owns => ?_⟩
  have granted := dragging.granted
  rw [owns] at granted
  cases granted with
  | inl none_ => cases none_
  | inr same => cases same

theorem Dragging.touch_eq (dragging : Dragging s uuid id point) {t : Touch}
    (acts : t.action = .move ∨ t.action = .up ∧ t.id = id) :
    s.touch (.button uuid) t =
      (s.setGamePointer (.button uuid) (t.action = .move)
        (t.places id - (s.buttons uuid).initial)).setFingers (.button uuid)
          (remaining t [(id,t.places id)]) := by
  rw [ViewPointer.touch_eq (dragging.reports acts),onTouchEvent]
  rw [buttonTouchEvent_sets (dragging.sets (acts.imp_right And.left))]
  rfl

theorem Dragging.moved (dragging : Dragging s uuid id point) {t : Touch}
    (acts : t.action = .move) : Dragging (s.touch (.button uuid) t) uuid id (t.places id) := by
  rw [dragging.touch_eq (.inl acts),setGamePointer,if_pos dragging.granted,
    if_pos (decide_eq_true acts)]
  refine ⟨dragging.game,?_,?_,.inr rfl,?_⟩
  · simpa [setFingers,BaseButton.turns] using dragging.turns
  · simp [setFingers,remaining,acts]
  · simp [setFingers]

theorem Dragging.released (dragging : Dragging s uuid id point) {t : Touch}
    (acts : t.action = .up) (finger : t.id = id) : Ready (s.touch (.button uuid) t) uuid := by
  have notMove : ¬decide (t.action = .move) = true := by
    rw [acts]
    decide
  rw [dragging.touch_eq (.inr ⟨acts,finger⟩),setGamePointer,if_pos dragging.granted,
    if_neg notMove]
  refine ⟨dragging.game,?_,?_,rfl,rfl⟩
  · simpa [setFingers,BaseButton.turns] using dragging.turns
  · simp [setFingers,remaining,acts]

def Touch.on (action : Action) (id : Int) (point : Point) : Touch :=
  { action, id, index := 0, places := fun _ => point, time := 0 }

/-- A finger goes down on a button, moves through some places and is lifted. -/
def dragOver (uuid : ι) (id : Int) (first : Point) (points : List Point) (last : Point) :
    List (Step ι) :=
  .touch (.button uuid) (.on .down id first) ::
    (points.map fun point => .touch (.button uuid) (.on .move id point)) ++
      [.touch (.button uuid) (.on .up id last)]

/-- The view does not jump while single fingers drag it by one button. -/
theorem dragOver_meets (ready : Ready s uuid) (id : Int) (first : Point) (points : List Point)
    (last : Point) : Along step Meets s (dragOver uuid id first points last) := by
  obtain ⟨meets,dragging⟩ := @Ready.touched _ _ _ _ ready (.on .down id first) rfl
  refine ⟨meets,?_⟩
  change Dragging (step s (.touch (.button uuid) (.on .down id first))) uuid id first at dragging
  generalize step s (.touch (.button uuid) (.on .down id first)) = s' at dragging
  clear meets ready
  induction points generalizing s' first with
  | nil => exact ⟨dragging.meets (.inr ⟨rfl,rfl⟩),True.intro⟩
  | cons point points ih =>
    refine ⟨dragging.meets (.inl rfl),?_⟩
    exact ih _ _ (dragging.moved rfl)

end Drags

/-- The camera pointer follows the finger that owns it in all of a run exactly when each finger
that turns the view is as far from where it was put down as the camera pointer is from its base. -/
theorem run_follows_iff (s : State ι) (free : s.viewMovingType = none)
    (steps : List (Step ι)) : Along step Follows s steps ↔ Along step Meets s steps := by
  have kept : Kept s := by
    refine ⟨fun _ _ => free,?_⟩
    intro uuid _ owns
    rw [free] at owns
    cases owns
  exact @along_iff _ _ step Kept Follows Meets (fun _ call kept => follows_iff call kept)
    (fun _ call kept follows => step_kept call kept follows) s kept steps

/-- Two buttons that turn the view in the game. -/
def twoButtons : State Bool where
  mouseSpeed := 1
  screenHeight := 1080
  pointer := (0,0)
  current := (0,0)
  cursor := (0,0)
  startCursor := (0,0)
  viewMovingType := none
  pad := {
    launcher := .boat
    screenWidth := 1920
    width := 1920
    height := 1080
    env := {
      gameCursorMode := 1
      touchMode := 0
      mouseMode := 0
      enableTouch := true
      disableHalfScreen := false
      rayTraceResultType := none
      guiScale := -1 }
    fingers := []
    downX := 0
    downY := 0
    initialX := 0
    initialY := 0
    downTime := 0
    pointerID := 0
    pressing := 0
    throwing := 0
    delayed := 0
    sent := [] }
  padFingers := []
  buttons _ := { functionType := 0, viewMove := true, initial := (0,0), fingers := [] }

theorem run_follows_drag :
    Along step Follows twoButtons (dragOver true 0 (900,500) [(910,500),(930,520)] (931,520)) := by
  have ready : Ready twoButtons true := ⟨rfl,⟨.inl rfl,rfl⟩,rfl,rfl,rfl⟩
  apply (run_follows_iff twoButtons rfl _).mpr
  exact dragOver_meets ready 0 (900,500) _ (931,520)

/-- The second finger moves while the pointer belongs to the first button, and goes on after it. -/
def handedOver : List (Step Bool) := [
  .touch (.button true) (.on .down 0 (900,500)),
  .touch (.button false) (.on .down 1 (1200,500)),
  .touch (.button true) (.on .move 0 (910,500)),
  .touch (.button false) (.on .move 1 (1500,500)),
  .touch (.button true) (.on .up 0 (910,500)),
  .touch (.button false) (.on .move 1 (1501,500))]

theorem not_run_follows : ¬∀ s : State Bool, s.Idle → s.viewMovingType = none →
    s.gameCursorMode = 1 → ∀ steps, Along step Follows s steps := by
  intro follows
  have idle : twoButtons.Idle := by
    intro view
    cases view with
    | pad => rfl
    | button uuid => rfl
  have last := (follows twoButtons idle rfl rfl handedOver).2.2.2.2.2.1.1
  revert last
  decide +kernel

end HmclPe.Control.ViewPointer
