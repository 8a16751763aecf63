import HmclPe.Control.RockerView

/-! The keys of the rocker follow the finger. Its pads do so as long as each diagonal is entered
from one direction only, as entering a diagonal leaves the other diagonals as they were. -/
namespace HmclPe.Control.Rocker
open HmclPe.Lib.Presses LwjglGlfwKeycode

section Finger

variable {Place : Type}

def Direction.diagonal : Direction → Bool
  | .upLeft | .upRight | .downLeft | .downRight => true
  | _ => false

def movementKeys : List Int := [keyW,keyA,keyS,keyD]

def Direction.keys : Direction → List Int
  | .center => []
  | .up => [keyW]
  | .down => [keyS]
  | .left => [keyA]
  | .right => [keyD]
  | .upLeft => [keyW,keyA]
  | .upRight => [keyW,keyD]
  | .downLeft => [keyA,keyS]
  | .downRight => [keyS,keyD]

def sector (angle : Int) : Direction :=
  if angle < angle8dOf0p then .right
  else if angle < angle8dOf1p then .downRight
  else if angle < angle8dOf2p then .down
  else if angle < angle8dOf3p then .downLeft
  else if angle < angle8dOf4p then .left
  else if angle < angle8dOf5p then .upLeft
  else if angle < angle8dOf6p then .up
  else if angle < angle8dOf7p then .upRight
  else .right

def Geometry.direction (geometry : Geometry Place) (place : Place) : Direction :=
  if geometry.inCenter place then .center
  else sector (radian2Angle (geometry.degrees place))

/-- The finger on the rocker, as the events alone give it. -/
structure Finger where
  touching : Bool
  direction : Direction
  deriving DecidableEq, Repr

def Finger.follow (geometry : Geometry Place) (finger : Finger) (e : MotionEvent Place) : Finger :=
  match e.action with
  | .down => if geometry.inRocker e.place then ⟨true,geometry.direction e.place⟩ else finger
  | .move => if finger.touching then ⟨true,geometry.direction e.place⟩ else finger
  | .up => if finger.touching then ⟨false,.center⟩ else finger
  | .cancel => if finger.touching then ⟨false,.center⟩ else finger
  | _ => finger

def fingerAfter (geometry : Geometry Place) (events : List (MotionEvent Place)) : Finger :=
  events.foldl (Finger.follow geometry) ⟨false,.center⟩

/-- What the pads become when a direction is entered. -/
def paint (direction : Direction) (pads : Pads) : Pads :=
  match direction with
  | .center => .plain
  | .right => ⟨.normal,.normal,.normal,.press,.hide,.hide,.normal,.normal⟩
  | .down => ⟨.normal,.press,.normal,.normal,.hide,.normal,.hide,.normal⟩
  | .left => ⟨.normal,.normal,.press,.normal,.normal,.normal,.hide,.hide⟩
  | .up => ⟨.press,.normal,.normal,.normal,.normal,.hide,.normal,.hide⟩
  | .downRight => ⟨.normal,.normal,.normal,.normal,pads.upLeft,pads.downLeft,pads.upRight,.press⟩
  | .downLeft => ⟨.normal,.normal,.normal,.normal,pads.upLeft,.press,pads.upRight,pads.downRight⟩
  | .upLeft => ⟨.normal,.normal,.normal,.normal,.press,pads.downLeft,pads.upRight,pads.downRight⟩
  | .upRight => ⟨.normal,.normal,.normal,.normal,pads.upLeft,pads.downLeft,.press,pads.downRight⟩

theorem paint_side {direction : Direction} (side : direction.diagonal = false) (pads : Pads) :
    paint direction pads = paint direction .plain := by
  cases direction <;> first | rfl | cases side

/-- The bounds that the source tests, one for each sector. -/
theorem sector_bounds {angle : Int} (range : angle0 ≤ angle ∧ angle < angle360) :
    ((angle0 ≤ angle ∧ angle8dOf0p > angle ∨ angle8dOf7p ≤ angle ∧ angle360 > angle) ↔
      sector angle = .right) ∧
    ((angle8dOf0p ≤ angle ∧ angle8dOf1p > angle) ↔ sector angle = .downRight) ∧
    ((angle8dOf1p ≤ angle ∧ angle8dOf2p > angle) ↔ sector angle = .down) ∧
    ((angle8dOf2p ≤ angle ∧ angle8dOf3p > angle) ↔ sector angle = .downLeft) ∧
    ((angle8dOf3p ≤ angle ∧ angle8dOf4p > angle) ↔ sector angle = .left) ∧
    ((angle8dOf4p ≤ angle ∧ angle8dOf5p > angle) ↔ sector angle = .upLeft) ∧
    ((angle8dOf5p ≤ angle ∧ angle8dOf6p > angle) ↔ sector angle = .up) ∧
    ((angle8dOf6p ≤ angle ∧ angle8dOf7p > angle) ↔ sector angle = .upRight) ∧
    sector angle ≠ .center := by
  unfold sector
  unfold angle0 angle360 at *
  unfold angle8dOf0p angle8dOf1p angle8dOf2p angle8dOf3p angle8dOf4p angle8dOf5p angle8dOf6p
    angle8dOf7p
  split_ifs <;> simp <;> omega

theorem radian2Angle_range {rounded : Int} (bounded : -180 ≤ rounded ∧ rounded ≤ 180) :
    angle0 ≤ radian2Angle rounded ∧ radian2Angle rounded < angle360 := by
  unfold radian2Angle angle0 angle360
  split <;> omega

end Finger

namespace BaseRockerView

section Steps

variable {Place : Type} (launcher : Launcher) (info : BaseRockerViewInfo)
  (geometry : Geometry Place)

theorem setDirection_eq {angle : Int} (range : angle0 ≤ angle ∧ angle < angle360)
    (v : BaseRockerView) : setDirection angle v =
      if v.tempDirection = sector angle then v
      else { v with
        tempDirection := sector angle
        center := .normal
        pads := paint (sector angle) v.pads } := by
  have bounds := sector_bounds range
  unfold setDirection
  generalize sector angle = direction at bounds ⊢
  obtain ⟨right,downRight,down,downLeft,left,upLeft,up,upRight,outer⟩ := bounds
  simp only [right,downRight,down,downLeft,left,upLeft,up,upRight]
  cases direction with
  | center => cases outer rfl
  | _ => simp [paint]

/-- The movement keys that are held are those of a direction. -/
def HoldsKeysOf (direction : Direction) (sent : Sent Int) : Prop :=
  ∀ key ∈ movementKeys, Held sent key ↔ key ∈ direction.keys

theorem sendEvent_key {key : Int} (notScroll : 5 ≤ key) (press : Bool) (sent : Sent Int) :
    InputBridge.sendEvent launcher key press sent = (key,press) :: sent := by
  rw [InputBridge.sendEvent_eq,if_pos]
  cases launcher with
  | boat => rfl
  | pojav =>
    have up : key ≠ InputBridge.mouseScrollUp := by unfold InputBridge.mouseScrollUp; omega
    have down : key ≠ InputBridge.mouseScrollDown := by unfold InputBridge.mouseScrollDown; omega
    simp [InputBridge.holds,up,down]

theorem sendKeys_eq (w a s d : Bool) (sent : Sent Int) :
    sendKeys launcher w a s d sent = (keyD,d) :: (keyS,s) :: (keyA,a) :: (keyW,w) :: sent := by
  unfold sendKeys
  rw [sendEvent_key launcher (by decide),sendEvent_key launcher (by decide),
    sendEvent_key launcher (by decide),sendEvent_key launcher (by decide)]

/-- All four keys are sent for each direction. -/
theorem getDirectionEvent_holds (direction : Direction) (sent : Sent Int) :
    HoldsKeysOf direction (getDirectionEvent launcher direction sent) := by
  intro key movement
  simp only [movementKeys,List.mem_cons,List.not_mem_nil,or_false] at movement
  rcases movement with rfl | rfl | rfl | rfl <;> cases direction <;>
    simp [getDirectionEvent,sendKeys_eq,Direction.keys,keyW,keyA,keyS,keyD]

theorem holdsKeysOf_shift {direction : Direction} {sent : Sent Int} (press : Bool)
    (holds : HoldsKeysOf direction sent) :
    HoldsKeysOf direction (InputBridge.sendEvent launcher keyLeftShift press sent) := by
  intro key movement
  have other : key ≠ keyLeftShift := by
    rintro rfl
    revert movement
    decide
  rw [sendEvent_key launcher (by decide),Held,lookup_send,if_neg other]
  exact holds key movement

/-- What the view has to do with the finger, whatever came before. -/
structure Tracks (finger : Finger) (v : BaseRockerView) : Prop where
  touching : v.touching = finger.touching
  direction : v.tempDirection = finger.direction
  lifted : finger.touching = false → finger.direction = .center
  keys : HoldsKeysOf finger.direction v.sent
  centered : v.center = .press → finger.direction = .center
  painted : ∃ pads, v.pads = paint finger.direction pads

/-- What one event does to the pads. -/
structure Steps (before : Direction) (next : Finger) (v v' : BaseRockerView) : Prop where
  tracks : Tracks next v'
  pads : v'.pads = if next.direction = before then v.pads else paint next.direction v.pads

theorem Tracks.pads_of_side {finger : Finger} {v : BaseRockerView} (tracks : Tracks finger v)
    (side : finger.direction.diagonal = false) : v.pads = paint finger.direction .plain := by
  obtain ⟨pads,painted⟩ := tracks.painted
  rw [painted,paint_side side]

theorem tracks_create : Tracks ⟨false,.center⟩ (create info) where
  touching := rfl
  direction := rfl
  lifted _ := rfl
  keys key _ := by simp [create,Direction.keys]
  centered := nofun
  painted := ⟨.plain,rfl⟩

/-- A view that shows a direction and then tells its listener. -/
theorem onShake_steps {finger : Finger} {direction : Direction} {v shown : BaseRockerView}
    (tracks : Tracks finger v) (current : shown.tempDirection = direction)
    (touching : shown.touching = true) (centered : shown.center = .press → direction = .center)
    (pads : shown.pads = if direction = finger.direction then v.pads else paint direction v.pads) :
    Steps finger.direction ⟨true,direction⟩ v (onShake launcher shown) where
  pads := pads
  tracks :=
    { touching := touching
      direction := current
      lifted := nofun
      keys := by
        rw [← current]
        exact getDirectionEvent_holds launcher shown.tempDirection shown.sent
      centered := centered
      painted := by
        rw [onShake,pads]
        split_ifs with same
        · obtain ⟨under,painted⟩ := tracks.painted
          exact ⟨under,by rw [painted,same]⟩
        · exact ⟨v.pads,rfl⟩ }

theorem steps_same {finger : Finger} {v v' : BaseRockerView} (tracks : Tracks finger v')
    (pads : v'.pads = v.pads) : Steps finger.direction finger v v' :=
  ⟨tracks,by rw [if_pos rfl,pads]⟩

theorem plain_eq {finger : Finger} {v : BaseRockerView} (tracks : Tracks finger v) :
    Pads.plain = if Direction.center = finger.direction then v.pads else paint .center v.pads := by
  split_ifs with same
  · rw [tracks.pads_of_side (by rw [← same]; rfl),← same]
    rfl
  · rfl

theorem refreshView_steps (e : MotionEvent Place) {finger : Finger} {v : BaseRockerView}
    (tracks : Tracks finger v) (touching : finger.touching = true) :
    Steps finger.direction ⟨true,geometry.direction e.place⟩ v
      (refreshView launcher geometry e v) := by
  have touched : v.touching = true := tracks.touching.trans touching
  unfold refreshView Geometry.direction
  by_cases inCenter : geometry.inCenter e.place = true
  · rw [if_pos inCenter,if_pos inCenter]
    by_cases moved : v.tempDirection ≠ .center
    · rw [if_pos moved]
      exact onShake_steps launcher tracks rfl touched (fun _ => rfl) (plain_eq tracks)
    · rw [if_neg moved]
      have there : finger.direction = .center := tracks.direction.symm.trans (not_not.mp moved)
      have same : finger = ⟨true,.center⟩ := by
        rw [← touching,← there]
      rw [← same]
      exact steps_same tracks rfl
  · rw [if_neg inCenter,if_neg inCenter,
      setDirection_eq (radian2Angle_range (geometry.bounded e.place))]
    by_cases stays : v.tempDirection = sector (radian2Angle (geometry.degrees e.place))
    · rw [if_pos stays]
      apply onShake_steps launcher tracks stays touched
      · intro pressed
        rw [← stays,tracks.direction]
        exact tracks.centered pressed
      · rw [if_pos (stays.symm.trans tracks.direction)]
    · rw [if_neg stays]
      refine onShake_steps launcher tracks ?_ touched nofun ?_
      · rfl
      · rw [if_neg]
        intro same
        exact stays (tracks.direction.trans same.symm)

theorem countClick_steps (time : Int) {before : Direction} {next : Finger} {v v' : BaseRockerView}
    (steps : Steps before next v v') : Steps before next v (countClick launcher time v') := by
  obtain ⟨tracks,pads⟩ := steps
  have keys := holdsKeysOf_shift launcher (!v'.shiftMode) tracks.keys
  unfold countClick onCenterDoubleClick
  split_ifs
  · exact ⟨{ tracks with },pads⟩
  · exact ⟨{ tracks with keys },pads⟩
  · exact ⟨{ tracks with },pads⟩
  · exact ⟨{ tracks with },pads⟩

theorem down_steps (e : MotionEvent Place) {finger : Finger} {v : BaseRockerView}
    (tracks : Tracks finger v) (inside : geometry.inRocker e.place = true) :
    Steps finger.direction ⟨true,geometry.direction e.place⟩ v
      (down launcher info geometry e v) := by
  have shown : Steps finger.direction ⟨true,geometry.direction e.place⟩ v
      (refreshView launcher geometry e (touched launcher info geometry e v)) := by
    unfold touched
    by_cases inCenter : geometry.inCenter e.place = true
    · have there : geometry.direction e.place = .center := by
        rw [Geometry.direction,if_pos inCenter]
      rw [if_pos inCenter,refreshView,if_pos inCenter,if_neg (by simp [onShake]),there]
      exact onShake_steps launcher tracks rfl rfl (fun _ => rfl) (plain_eq tracks)
    · rw [if_neg inCenter]
      have begun : Tracks ⟨true,finger.direction⟩ (onTouch info { v with touching := true }) :=
        { tracks with touching := rfl, lifted := nofun }
      obtain ⟨follows,pads⟩ := refreshView_steps launcher geometry e begun rfl
      exact ⟨follows,pads⟩
  unfold down
  rw [if_pos inside]
  dsimp only
  split_ifs
  · exact countClick_steps launcher e.time shown
  · exact shown

theorem up_steps {finger : Finger} {v : BaseRockerView} (tracks : Tracks finger v)
    (touching : finger.touching = true) :
    Steps finger.direction ⟨false,.center⟩ v (up launcher info v) := by
  have sends : HoldsKeysOf .center (if v.tempDirection ≠ .center then
      getDirectionEvent launcher .center v.sent else v.sent) := by
    split_ifs with moved
    · exact getDirectionEvent_holds launcher .center v.sent
    · have keys := tracks.keys
      rw [← tracks.direction,not_not.mp moved] at keys
      exact keys
  unfold up
  rw [if_pos (tracks.touching.trans touching)]
  by_cases moved : v.tempDirection ≠ .center
  · rw [if_pos moved] at sends
    simp only [if_pos moved]
    exact ⟨⟨rfl,rfl,fun _ => rfl,sends,fun _ => rfl,⟨.plain,rfl⟩⟩,plain_eq tracks⟩
  · rw [if_neg moved] at sends
    simp only [if_neg moved]
    exact ⟨⟨rfl,not_not.mp moved,fun _ => rfl,sends,fun _ => rfl,⟨.plain,rfl⟩⟩,plain_eq tracks⟩

theorem onTouchEvent_steps (e : MotionEvent Place) {finger : Finger} {v : BaseRockerView}
    (tracks : Tracks finger v) :
    Steps finger.direction (finger.follow geometry e) v
      (onTouchEvent launcher info geometry v e) := by
  unfold onTouchEvent Finger.follow
  have lift : Steps finger.direction (if finger.touching then ⟨false,.center⟩ else finger) v
      (up launcher info v) := by
    split_ifs with touching
    · exact up_steps launcher info tracks touching
    · rw [up,if_neg (by rwa [tracks.touching])]
      exact steps_same tracks rfl
  cases e.action with
  | down =>
    dsimp only
    split_ifs with inside
    · exact down_steps launcher info geometry e tracks inside
    · rw [down,if_neg inside]
      exact steps_same tracks rfl
  | move =>
    dsimp only
    rw [tracks.touching]
    split_ifs with touching
    · exact refreshView_steps launcher geometry e tracks touching
    · exact steps_same tracks rfl
  | up => exact lift
  | cancel => exact lift
  | pointerDown => exact steps_same tracks rfl
  | pointerUp => exact steps_same tracks rfl

theorem after_tracks (events : List (MotionEvent Place)) :
    Tracks (fingerAfter geometry events) (after launcher info geometry events) := by
  induction events using List.reverseRecOn with
  | nil => exact tracks_create info
  | append_singleton events e ih =>
    unfold fingerAfter after at *
    rw [List.foldl_concat,List.foldl_concat]
    exact (onTouchEvent_steps launcher info geometry e ih).tracks

/-- An event repaints the pads only where it takes the finger to another direction. -/
theorem after_concat_pads (events : List (MotionEvent Place)) (e : MotionEvent Place) :
    (after launcher info geometry (events ++ [e])).pads =
      if (fingerAfter geometry (events ++ [e])).direction = (fingerAfter geometry events).direction
      then (after launcher info geometry events).pads
      else paint (fingerAfter geometry (events ++ [e])).direction
        (after launcher info geometry events).pads := by
  have tracks := after_tracks launcher info geometry events
  unfold fingerAfter after at *
  rw [List.foldl_concat,List.foldl_concat]
  exact (onTouchEvent_steps launcher info geometry e tracks).pads

end Steps

def states (v : BaseRockerView) : List State :=
  [v.center,v.pads.up,v.pads.down,v.pads.left,v.pads.right,v.pads.upLeft,v.pads.downLeft,
    v.pads.upRight,v.pads.downRight]

structure KeysFollow (finger : Finger) (v : BaseRockerView) : Prop where
  direction : v.tempDirection = finger.direction
  keys : HoldsKeysOf finger.direction v.sent
  opposite : ¬(Held v.sent keyW ∧ Held v.sent keyS) ∧ ¬(Held v.sent keyA ∧ Held v.sent keyD)
  lifted : finger.touching = false → ∀ key ∈ movementKeys, ¬Held v.sent key

/-- A view that follows the finger: the keys are those of its direction and the pads a function of
its direction. -/
structure Following (display : Direction → Pads) (finger : Finger) (v : BaseRockerView) : Prop
    extends KeysFollow finger v where
  pads : v.pads = display finger.direction
  pressed : v.states.count .press ≤ 1

section Runs

variable {Place : Type} (launcher : Launcher) (info : BaseRockerViewInfo)
  (geometry : Geometry Place)

/-- One display for all states of a set of runs. -/
def FollowsFinger (runs : Set (List (MotionEvent Place))) : Prop :=
  ∃ display : Direction → Pads, ∀ events ∈ runs, ∀ done rest, events = done ++ rest →
    Following display (fingerAfter geometry done) (after launcher info geometry done)

def Entered (runs : Set (List (MotionEvent Place))) (origin direction : Direction) : Prop :=
  origin ≠ direction ∧ ∃ events ∈ runs, ∃ done e rest, events = done ++ e :: rest ∧
    (fingerAfter geometry done).direction = origin ∧
    (fingerAfter geometry (done ++ [e])).direction = direction

/-- Each diagonal is entered from one direction only, which is no diagonal. -/
def OneWayIn (runs : Set (List (MotionEvent Place))) : Prop :=
  ∀ direction : Direction, direction.diagonal = true → ∃ side : Direction, side.diagonal = false ∧
    ∀ origin, Entered geometry runs origin direction → origin = side

theorem opposite_of_keys {direction : Direction} {sent : Sent Int}
    (keys : HoldsKeysOf direction sent) :
    ¬(Held sent keyW ∧ Held sent keyS) ∧ ¬(Held sent keyA ∧ Held sent keyD) := by
  rw [keys keyW (by decide),keys keyS (by decide),keys keyA (by decide),keys keyD (by decide)]
  cases direction <;> decide

theorem Tracks.keysFollow {finger : Finger} {v : BaseRockerView} (tracks : Tracks finger v) :
    KeysFollow finger v where
  direction := tracks.direction
  keys := tracks.keys
  opposite := opposite_of_keys tracks.keys
  lifted := by
    intro up key movement held
    have member := (tracks.keys key movement).mp held
    rw [tracks.lifted up] at member
    cases member

/-- Two diagonals are pressed after one is entered from another. -/
theorem pressed_of_diagonals {origin direction : Direction} (diagonal : direction.diagonal = true)
    (origins : origin.diagonal = true) (moves : origin ≠ direction) {v : BaseRockerView}
    {pads : Pads} (painted : v.pads = paint direction (paint origin pads)) :
    1 < v.states.count .press := by
  unfold states
  rw [painted]
  cases direction <;> cases diagonal <;> cases origin <;> cases origins <;>
    first
      | cases moves rfl
      | (simp [paint,List.count_cons]; omega)

/-- Which direction a diagonal was entered from shows on the other diagonals. -/
theorem paint_injective {direction side side' : Direction} (diagonal : direction.diagonal = true)
    (isSide : side.diagonal = false) (isSide' : side'.diagonal = false)
    (same : paint direction (paint side .plain) = paint direction (paint side' .plain)) :
    side = side' := by
  revert same
  cases direction <;> cases diagonal <;> cases side <;> cases isSide <;> cases side' <;>
    cases isSide' <;> decide

theorem pressed_le {finger : Finger} {v : BaseRockerView} (tracks : Tracks finger v)
    {side : Direction} (isSide : side.diagonal = false)
    (painted : v.pads = paint finger.direction (paint side .plain)) :
    v.states.count .press ≤ 1 := by
  have centered := tracks.centered
  unfold states
  rw [painted]
  generalize finger.direction = direction at centered ⊢
  generalize v.center = center at centered ⊢
  cases center with
  | press =>
    rw [centered rfl,paint_side rfl]
    decide
  | normal => cases side <;> cases isSide <;> cases direction <;> decide
  | hide => cases side <;> cases isSide <;> cases direction <;> decide

theorem entered_shows {runs : Set (List (MotionEvent Place))} {display : Direction → Pads}
    (following : ∀ events ∈ runs, ∀ done rest, events = done ++ rest →
      Following display (fingerAfter geometry done) (after launcher info geometry done))
    {origin direction : Direction} (diagonal : direction.diagonal = true)
    (entered : Entered geometry runs origin direction) :
    origin.diagonal = false ∧ display direction = paint direction (paint origin .plain) := by
  obtain ⟨moves,events,member,done,e,rest,cut,before,next⟩ := entered
  have shown := following events member (done ++ [e]) rest (by rw [cut,List.append_assoc]; rfl)
  have tracks := after_tracks launcher info geometry done
  have pads := after_concat_pads launcher info geometry done e
  rw [before,next,if_neg moves.symm] at pads
  have side : origin.diagonal = false := by
    rw [← Bool.not_eq_true]
    intro origins
    obtain ⟨under,painted⟩ := tracks.painted
    rw [painted,before] at pads
    exact absurd shown.pressed (Nat.not_le.mpr (pressed_of_diagonals diagonal origins moves pads))
  refine ⟨side,?_⟩
  have plain := tracks.pads_of_side (by rw [before]; exact side)
  rw [← next,← shown.pads,next,pads,plain,before]

theorem pads_of_oneWayIn {runs : Set (List (MotionEvent Place))} {side : Direction → Direction}
    (isSide : ∀ direction, (side direction).diagonal = false)
    (only : ∀ direction, direction.diagonal = true →
      ∀ origin, Entered geometry runs origin direction → origin = side direction)
    {events : List (MotionEvent Place)} (member : events ∈ runs) (done : List (MotionEvent Place)) :
    ∀ rest, events = done ++ rest → (after launcher info geometry done).pads =
      paint (fingerAfter geometry done).direction
        (paint (side (fingerAfter geometry done).direction) .plain) := by
  induction done using List.reverseRecOn with
  | nil => exact fun _ _ => rfl
  | append_singleton done e ih =>
    intro rest cut
    rw [List.append_assoc] at cut
    have before := ih _ cut
    rw [after_concat_pads]
    split_ifs with same
    · rw [same]
      exact before
    · cases diagonal : (fingerAfter geometry (done ++ [e])).direction.diagonal with
      | false => rw [paint_side diagonal,paint_side diagonal (paint _ _)]
      | true =>
        have origin := only _ diagonal (fingerAfter geometry done).direction
          ⟨fun here => same here.symm,events,member,done,e,rest,cut,rfl,rfl⟩
        have plain := (after_tracks launcher info geometry done).pads_of_side
          (by rw [origin]; exact isSide _)
        rw [plain,← origin]

theorem followsFinger_iff (runs : Set (List (MotionEvent Place))) :
    (∀ events, KeysFollow (fingerAfter geometry events) (after launcher info geometry events)) ∧
    (FollowsFinger launcher info geometry runs ↔ OneWayIn geometry runs) := by
  refine ⟨fun events => (after_tracks launcher info geometry events).keysFollow,?_⟩
  constructor
  · rintro ⟨display,following⟩ direction diagonal
    by_cases entered : ∃ origin, Entered geometry runs origin direction
    · obtain ⟨side,first⟩ := entered
      obtain ⟨isSide,shown⟩ := entered_shows launcher info geometry following diagonal first
      refine ⟨side,isSide,?_⟩
      intro origin enters
      obtain ⟨isSide',shown'⟩ := entered_shows launcher info geometry following diagonal enters
      exact paint_injective diagonal isSide' isSide (shown'.symm.trans shown)
    · exact ⟨.center,rfl,fun origin enters => absurd ⟨origin,enters⟩ entered⟩
  · intro oneWay
    have sides : ∀ direction, ∃ side : Direction, side.diagonal = false ∧
        (direction.diagonal = true → ∀ origin, Entered geometry runs origin direction →
          origin = side) := by
      intro direction
      cases diagonal : direction.diagonal with
      | false => exact ⟨.center,rfl,nofun⟩
      | true =>
        obtain ⟨side,isSide,only⟩ := oneWay direction diagonal
        exact ⟨side,isSide,fun _ => only⟩
    choose side isSide only using sides
    refine ⟨fun direction => paint direction (paint (side direction) .plain),?_⟩
    intro events member done rest cut
    have tracks := after_tracks launcher info geometry done
    have pads := pads_of_oneWayIn launcher info geometry isSide only member done rest cut
    exact ⟨tracks.keysFollow,pads,pressed_le tracks (isSide _) pads⟩

end Runs

/-- Places as the angles of the finger, half way to the rim. -/
def rim : Geometry Int where
  inCenter _ := false
  inRocker _ := true
  degrees place := max (-180) (min place 180)
  bounded place := by omega

/-- A finger that goes down on a diagonal and slides to the next leaves two pads pressed. -/
theorem two_pads_pressed : ¬∀ (launcher : Launcher) (info : BaseRockerViewInfo)
    (geometry : Geometry Int), FollowsFinger launcher info geometry Set.univ := by
  intro every
  obtain ⟨display,following⟩ := every .boat ⟨0,false⟩ rim
  have shown := following [⟨.down,45,0⟩,⟨.move,-45,0⟩] trivial _ [] (List.append_nil _).symm
  have pressed := shown.pressed
  revert pressed
  decide

end BaseRockerView

end HmclPe.Control.Rocker
