import HmclPe.Control.BaseButton

/-! What a touch does to the keys of one button, and to the flags that say who holds them. -/
namespace HmclPe.Control
open HmclPe.Lib.Presses

theorem sendCodes_eq (launcher : Launcher) (codes : List Int) (press : Bool) (sent : Sent Int) :
    sendCodes launcher codes press sent =
      sendAll press (codes.filter (InputBridge.holds launcher)) sent := by
  induction codes generalizing sent with
  | nil => rfl
  | cons code codes ih =>
    rw [sendCodes,List.foldl_cons,← sendCodes,ih,InputBridge.sendEvent_eq]
    cases held : InputBridge.holds launcher code with
    | true =>
      rw [if_pos rfl,List.filter_cons_of_pos held]
      rfl
    | false =>
      rw [if_neg Bool.false_ne_true,List.filter_cons_of_neg (by simp [held])]

namespace BaseButton

/-- The codes of a button that stand for something the game can hold. -/
def keys (launcher : Launcher) (b : BaseButton) : List Int :=
  b.info.outputKeycode.filter (InputBridge.holds launcher)

variable {launcher : Launcher} {b : BaseButton} {sent : Sent Int} {key : Int}

theorem held_pressKeys :
    Held (b.pressKeys launcher sent) key ↔ key ∈ b.keys launcher ∨ Held sent key := by
  rw [pressKeys,sendCodes_eq,held_sendAll_press,keys]

theorem held_releaseKeys :
    Held (b.releaseKeys launcher sent) key ↔ key ∉ b.keys launcher ∧ Held sent key := by
  rw [releaseKeys,sendCodes_eq,held_sendAll_release,keys]

theorem held_tapped (code : Int) :
    Held (InputBridge.sendEvent launcher code false (InputBridge.sendEvent launcher code true sent))
      key ↔ ¬(key = code ∧ InputBridge.holds launcher code) ∧ Held sent key := by
  rw [InputBridge.sendEvent_eq,InputBridge.sendEvent_eq]
  cases InputBridge.holds launcher code with
  | true => simp only [if_true,held_click,ne_eq,and_true]
  | false => simp

theorem held_clickKeys :
    Held (b.clickKeys launcher sent) key ↔ key ∉ b.keys launcher ∧ Held sent key := by
  rw [clickKeys,keys]
  generalize b.info.outputKeycode = codes
  induction codes generalizing sent with
  | nil => simp
  | cons code codes ih =>
    rw [List.foldl_cons,ih,held_tapped,List.filter_cons]
    cases held : InputBridge.holds launcher code with
    | true =>
      rw [if_pos rfl,List.mem_cons,not_or,and_iff_left rfl,and_left_comm,and_assoc]
    | false => simp

/-- Who clicks repeats its clicks, who is kept can be, and the clicks counted are none or one. -/
structure Sound (b : BaseButton) : Prop where
  clicks : b.clicking = true → b.info.autoClick = true
  keeps : b.isKeeping = true → b.info.autoKeep = true ∧
    (b.info.functionType = functionTypeTouch ∨ b.info.functionType = functionTypeDoubleClick)
  counts : b.clickCount = 0 ∨ b.clickCount = 1

/-- A button that may hold its keys: it is kept, or a touch that will let them go is on it. -/
def Holding (b : BaseButton) : Prop :=
  b.isKeeping = true ∨
    b.touched = true ∧ b.info.functionType = functionTypeTouch ∧ b.info.autoKeep = false

/-- A key of the button is held or will be by its repeated clicks. -/
def Pressing (sent : Sent Int) (b : BaseButton) (key : Int) : Prop :=
  Held sent key ∨ b.clicking = true

structure Alike (b after : BaseButton) : Prop where
  info : after.info = b.info
  isShowing : after.isShowing = b.isShowing
  visible : after.visible = b.visible
  touched : after.touched = b.touched

theorem toggleKeep_alike : Alike b (b.toggleKeep launcher sent).1 := by
  unfold toggleKeep
  split <;> split <;> exact ⟨rfl,rfl,rfl,rfl⟩

theorem toggleKeep_others (other : key ∉ b.keys launcher) :
    Held (b.toggleKeep launcher sent).2 key ↔ Held sent key := by
  unfold toggleKeep
  split
  · split
    · simp [held_releaseKeys,other]
    · exact Iff.rfl
  · split
    · simp [held_releaseKeys,other]
    · simp [held_pressKeys,other]

theorem toggleKeep_isKeeping : (b.toggleKeep launcher sent).1.isKeeping = !b.isKeeping := by
  unfold toggleKeep
  split <;> split <;> rfl

theorem toggleKeep_clicking : (b.toggleKeep launcher sent).1.clicking =
    if b.info.autoClick then !b.isKeeping else b.clicking := by
  unfold toggleKeep
  cases b.info.autoClick <;> cases b.isKeeping <;> rfl

theorem toggleKeep_clickCount : (b.toggleKeep launcher sent).1.clickCount = b.clickCount := by
  unfold toggleKeep
  split <;> split <;> rfl

theorem toggleKeep_own (sound : b.Sound) (own : key ∈ b.keys launcher)
    (before : b.isKeeping = false → ¬Pressing sent b key) :
    (Held (b.toggleKeep launcher sent).2 key ↔
      b.isKeeping = false ∧ b.info.autoClick = false) ∧
    ((b.toggleKeep launcher sent).1.clicking = true ↔
      b.isKeeping = false ∧ b.info.autoClick = true) := by
  unfold toggleKeep
  cases click : b.info.autoClick with
  | true =>
    cases keep : b.isKeeping with
    | true => simp [held_releaseKeys,own]
    | false => simpa using fun held => before keep (.inl held)
  | false =>
    have still : b.clicking = false := by
      by_contra clicking
      have auto := sound.clicks (by simpa using clicking)
      rw [click] at auto
      cases auto
    cases keep : b.isKeeping with
    | true => simp [held_releaseKeys,own,still]
    | false => simp [held_pressKeys,own,still]

theorem countClick_eq (time : Int) : ∃ clickCount firstClickTime,
    b.countClick time = { b with clickCount, firstClickTime } := by
  unfold countClick
  split
  · exact ⟨1,time,rfl⟩
  · split
    · split
      · exact ⟨0,b.firstClickTime,rfl⟩
      · exact ⟨1,time,rfl⟩
    · exact ⟨b.clickCount + 1,b.firstClickTime,rfl⟩

theorem countClick_counts (counts : b.clickCount = 0 ∨ b.clickCount = 1) (time : Int) :
    (b.countClick time).clickCount = 0 ∨ (b.countClick time).clickCount = 1 := by
  unfold countClick
  rcases counts with none | one
  · rw [if_pos (by omega)]
    exact .inr rfl
  · rw [if_neg (by omega),if_pos (by omega)]
    split
    · exact .inl rfl
    · exact .inr rfl

def lets (editMode : Bool) (e : ButtonEvent) (b : BaseButton) : Bool :=
  !editMode && (e.action = .up || e.action = .cancel) &&
    b.info.functionType = functionTypeTouch && !b.info.autoKeep

/-- A touch that acts leaves the keys pressed. -/
def presses (b : BaseButton) : Bool :=
  if b.info.autoKeep then !b.isKeeping else b.info.functionType = functionTypeTouch

variable {editMode : Bool} {e : ButtonEvent}

theorem onTouchEvent_lets (letting : b.lets editMode e = true) :
    b.onTouchEvent launcher editMode e sent =
      ({ b with clicking := b.clicking && !b.info.autoClick },b.releaseKeys launcher sent) := by
  unfold lets at letting
  simp only [Bool.and_eq_true,Bool.not_eq_true',Bool.or_eq_true,decide_eq_true_eq] at letting
  obtain ⟨⟨⟨editing,released⟩,touch⟩,keep⟩ := letting
  have lifted : b.up launcher sent =
      ({ b with clicking := b.clicking && !b.info.autoClick },b.releaseKeys launcher sent) := by
    rw [up,if_neg (by simp [keep])]
    cases b.info.autoClick with
    | true => simp
    | false => simp
  rw [onTouchEvent,if_neg (by simp [editing]),if_pos touch]
  cases released with
  | inl up =>
    rw [up]
    exact lifted
  | inr cancel =>
    rw [cancel]
    exact lifted

theorem onTouchEvent_acts (acting : b.acts editMode e = true) :
    b.onTouchEvent launcher editMode e sent =
      if b.info.functionType = functionTypeTouch then b.down launcher sent
      else (b.countClick e.time).handleDoubleClick launcher sent := by
  unfold acts at acting
  simp only [Bool.and_eq_true,Bool.not_eq_true',Bool.or_eq_true,decide_eq_true_eq] at acting
  obtain ⟨⟨editing,down⟩,function⟩ := acting
  rw [onTouchEvent,if_neg (by simp [editing]),down]
  by_cases touch : b.info.functionType = functionTypeTouch
  · rw [if_pos touch,if_pos touch]
  · obtain ⟨double,twice⟩ := function.resolve_left touch
    rw [if_neg touch,if_neg touch,if_pos double]
    simp only
    rw [if_pos twice]

theorem onTouchEvent_double (double : b.info.functionType = functionTypeDoubleClick)
    (once : e.action = .down → b.clickedTwice e.time = false) :
    b.onTouchEvent launcher editMode e sent =
      (if editMode = false ∧ e.action = .down then b.countClick e.time else b,sent) := by
  have other : b.info.functionType ≠ functionTypeTouch := by
    rw [double]
    decide
  rw [onTouchEvent]
  cases editMode with
  | true => simp
  | false =>
    rw [if_neg Bool.false_ne_true,if_neg other,if_pos double]
    cases action : e.action with
    | down => simp [once action]
    | pointerDown => simp
    | move => simp
    | pointerUp => simp
    | up => simp
    | cancel => simp

theorem onTouchEvent_idle (rests : b.acts editMode e = false) (keeps : b.lets editMode e = false) :
    b.onTouchEvent launcher editMode e sent = (b,sent) ∨
      b.onTouchEvent launcher editMode e sent = (b.countClick e.time,sent) := by
  unfold onTouchEvent
  unfold acts at rests
  unfold lets at keeps
  split
  · exact .inl rfl
  · rename_i editing
    split
    · rename_i touch
      split
      · rename_i down
        simp [editing,touch,down] at rests
      · rename_i released
        have auto : b.info.autoKeep = true := by simpa [editing,touch,released] using keeps
        rw [up,if_pos auto]
        exact .inl rfl
      · rename_i released
        have auto : b.info.autoKeep = true := by simpa [editing,touch,released] using keeps
        rw [up,if_pos auto]
        exact .inl rfl
      · exact .inl rfl
    · split
      · rename_i double
        split
        · rename_i down
          have once : ¬functionTypeDoubleClick = functionTypeTouch ∧
              b.clickedTwice e.time = false := by simpa [editing,double,down] using rests
          rw [once.2]
          exact .inr rfl
        · exact .inl rfl
      · exact .inl rfl

theorem acts_function (acting : b.acts editMode e = true) :
    b.info.functionType = functionTypeTouch ∨ b.info.functionType = functionTypeDoubleClick := by
  unfold acts at acting
  simp only [Bool.and_eq_true,Bool.or_eq_true,decide_eq_true_eq] at acting
  exact acting.2.imp_right And.left

def acted (launcher : Launcher) (b : BaseButton) (sent : Sent Int) : BaseButton × Sent Int :=
  if b.info.autoKeep then b.toggleKeep launcher sent
  else if b.info.functionType = functionTypeTouch then
    if b.info.autoClick then ({ b with clicking := true },sent)
    else (b,b.pressKeys launcher sent)
  else (b,b.clickKeys launcher sent)

theorem countClick_twice {time : Int} (twice : b.clickedTwice time = true) :
    b.countClick time = { b with clickCount := 0 } := by
  unfold clickedTwice at twice
  simp only [Bool.and_eq_true,decide_eq_true_eq] at twice
  rw [countClick,if_neg (by omega),if_pos twice.1,if_pos twice.2]

theorem countClick_once {time : Int} (counts : b.clickCount = 0 ∨ b.clickCount = 1)
    (once : b.clickedTwice time = false) :
    b.countClick time = { b with clickCount := 1, firstClickTime := time } := by
  unfold clickedTwice at once
  rw [countClick]
  cases counts with
  | inl none => rw [if_pos (by omega)]
  | inr one =>
    have late : ¬time - b.firstClickTime ≤ 500 := by simpa [one] using once
    rw [if_neg (by omega),if_pos (by omega),if_neg late]

def countAfter (b : BaseButton) : Int :=
  if b.info.functionType = functionTypeTouch then b.clickCount else 0

theorem countAfter_counts (counts : b.clickCount = 0 ∨ b.clickCount = 1) :
    b.countAfter = 0 ∨ b.countAfter = 1 := by
  unfold countAfter
  split
  · exact counts
  · exact .inl rfl

theorem onTouchEvent_acted (launcher : Launcher) (sent : Sent Int)
    (acting : b.acts editMode e = true) :
    b.onTouchEvent launcher editMode e sent =
      { b with clickCount := b.countAfter }.acted launcher sent := by
  rw [onTouchEvent_acts acting,countAfter]
  unfold acts at acting
  simp only [Bool.and_eq_true,Bool.or_eq_true,decide_eq_true_eq] at acting
  by_cases touch : b.info.functionType = functionTypeTouch
  · rw [if_pos touch,if_pos touch,down,acted,if_pos touch]
  · obtain ⟨-,twice⟩ := acting.2.resolve_left touch
    rw [if_neg touch,if_neg touch,countClick_twice twice,handleDoubleClick,acted,if_neg touch]

theorem acted_alike : Alike b (b.acted launcher sent).1 := by
  unfold acted
  split
  · exact toggleKeep_alike
  · split
    · split <;> exact ⟨rfl,rfl,rfl,rfl⟩
    · exact ⟨rfl,rfl,rfl,rfl⟩

theorem acted_others (other : key ∉ b.keys launcher) :
    Held (b.acted launcher sent).2 key ↔ Held sent key := by
  unfold acted
  split
  · exact toggleKeep_others other
  · split
    · split
      · exact Iff.rfl
      · rw [held_pressKeys]
        simp [other]
    · rw [held_clickKeys]
      simp [other]

theorem acted_isKeeping : (b.acted launcher sent).1.isKeeping =
    if b.info.autoKeep then !b.isKeeping else b.isKeeping := by
  unfold acted
  split
  · exact toggleKeep_isKeeping
  · split
    · split <;> rfl
    · rfl

theorem acted_clickCount : (b.acted launcher sent).1.clickCount = b.clickCount := by
  unfold acted
  split
  · exact toggleKeep_clickCount
  · split
    · split <;> rfl
    · rfl

theorem acted_own (sound : b.Sound) (own : key ∈ b.keys launcher)
    (before : b.isKeeping = false → ¬Pressing sent b key) :
    (Held (b.acted launcher sent).2 key ↔ b.presses = true ∧ b.info.autoClick = false) ∧
      ((b.acted launcher sent).1.clicking = true ↔ b.presses = true ∧ b.info.autoClick = true) := by
  unfold acted presses
  by_cases auto : b.info.autoKeep = true
  · rw [if_pos auto,if_pos auto]
    simpa using toggleKeep_own sound own before
  · have idle : ¬Pressing sent b key := by
      apply before
      by_contra keeping
      exact auto (sound.keeps (by simpa using keeping)).1
    obtain ⟨quiet,still⟩ := not_or.mp idle
    rw [if_neg auto,if_neg auto]
    by_cases touch : b.info.functionType = functionTypeTouch
    · rw [if_pos touch]
      cases click : b.info.autoClick with
      | true => simp [touch,quiet]
      | false => simp [touch,held_pressKeys,own,still]
    · rw [if_neg touch]
      simp [touch,held_clickKeys,own,still]

theorem acted_sound (sound : b.Sound) (function : b.info.functionType = functionTypeTouch ∨
    b.info.functionType = functionTypeDoubleClick) : (b.acted launcher sent).1.Sound := by
  have same := @acted_alike launcher b sent
  refine ⟨?_,?_,?_⟩
  · rw [same.info]
    unfold acted
    split
    · rw [toggleKeep_clicking]
      cases click : b.info.autoClick with
      | true => exact fun _ => rfl
      | false =>
        intro clicking
        rw [← click]
        exact sound.clicks clicking
    · split
      · split
        · rename_i click
          exact fun _ => click
        · exact sound.clicks
      · exact sound.clicks
  · rw [same.info,acted_isKeeping]
    intro keeping
    cases auto : b.info.autoKeep with
    | true => exact ⟨rfl,function⟩
    | false =>
      rw [if_neg (by simp [auto])] at keeping
      have kept := (sound.keeps keeping).1
      rw [auto] at kept
      cases kept
  · rw [acted_clickCount]
    exact sound.counts

theorem acted_holding (touched : b.touched = true) (pressing : b.presses = true) :
    (b.acted launcher sent).1.Holding := by
  have same := @acted_alike launcher b sent
  rw [presses] at pressing
  split at pressing
  · rename_i auto
    apply Or.inl
    rw [acted_isKeeping,if_pos auto]
    exact pressing
  · rename_i manual
    apply Or.inr
    rw [same.touched,same.info]
    exact ⟨touched,by simpa using pressing,by simpa using manual⟩

end BaseButton

end HmclPe.Control
