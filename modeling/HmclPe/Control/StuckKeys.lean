import HmclPe.Control.ButtonKeys
import HmclPe.Lib.Runs

/-! No key stays down without a button that lets it go. The state of the buttons and that of the game
agree as long as no button that presses its keys is hidden or discarded. -/
namespace HmclPe.Control.ViewManager
open HmclPe.Lib.Presses HmclPe.Lib.Runs BaseButton

/-- One more touch of a button, for a double-click button one more double click. -/
def touchAgain (s : ViewManager) (i : Nat) (b : BaseButton) (time time' : Int)
    (childNames : List String) : ViewManager :=
  let once := s.touch i ⟨.down,time,childNames⟩
  if b.info.functionType = functionTypeDoubleClick then
    (once.touch i ⟨.up,time,childNames⟩).touch i ⟨.down,time',childNames⟩
  else once

/-- Whatever posted clicks run, a key is held only if a button on the screen that outputs it is
touched, or is kept and lets it go when touched again. -/
def NoStuckKey (s : ViewManager) : Prop :=
  s.crashed = false → ∀ (timers : List Timer) (key : Int), Held (timers.foldl fire s).sent key →
    ∃ i b, s.buttons[i]? = some b ∧ b.visible = true ∧ key ∈ b.info.outputKeycode ∧
      (b.touched = true ∨ b.isKeeping = true ∧ ∀ time time' childNames,
        time ≤ time' → time' - time ≤ 500 →
          ¬Held ((timers.foldl fire s).touchAgain i b time time' childNames).sent key)

/-- A button of the panel that outputs a key the game can hold. -/
def Owns (s : ViewManager) (i : Nat) (b : BaseButton) (key : Int) : Prop :=
  s.buttons[i]? = some b ∧ key ∈ b.keys s.launcher

/-- The flags of the buttons account for all keys the game holds. -/
structure Steady (s : ViewManager) : Prop where
  distinct : ∀ i j b c key, s.Owns i b key → s.Owns j c key → i = j
  discarded : ∀ b ∈ s.removed, b.clicking = true → ∀ key, key ∉ b.keys s.launcher
  sound : ∀ (i : Nat) (b : BaseButton), s.buttons[i]? = some b → b.Sound
  owned : ∀ key, Held s.sent key → ∃ i b, s.Owns i b key
  holding : ∀ (i : Nat) (b : BaseButton) (key : Int),
    s.Owns i b key → Pressing s.sent b key → b.Holding
  editing : s.editMode = true → ∀ (i : Nat) (b : BaseButton) (key : Int),
    s.Owns i b key → ¬Pressing s.sent b key

def Shown (s : ViewManager) : Prop :=
  ∀ (i : Nat) (b : BaseButton) (key : Int),
    s.Owns i b key → Pressing s.sent b key → b.visible = true

section Panel

variable {s s' : ViewManager} {i : Nat} {b after : BaseButton} {sent : Sent Int}

theorem Steady.owner (steady : Steady s) {j : Nat} {c : BaseButton} {key : Int}
    (own : s.Owns i b key) (other : s.Owns j c key) : i = j ∧ b = c := by
  obtain rfl := steady.distinct i j b c key own other
  exact ⟨rfl,Option.some.inj (own.1.symm.trans other.1)⟩

theorem owns_put (found : s.buttons[i]? = some b)
    (codes : after.info.outputKeycode = b.info.outputKeycode) {j : Nat} {c : BaseButton} {key : Int} :
    Owns { s with buttons := s.buttons.set i after, sent } j c key ↔
      j = i ∧ c = after ∧ key ∈ b.keys s.launcher ∨ j ≠ i ∧ s.Owns j c key := by
  have bound : i < s.buttons.length := (List.getElem?_eq_some_iff.mp found).1
  unfold Owns
  simp only [List.getElem?_set]
  by_cases same : i = j
  · subst same
    have kept : after.keys s.launcher = b.keys s.launcher := by rw [keys,codes,keys]
    constructor
    · intro own
      rw [if_pos rfl,if_pos bound,Option.some.injEq] at own
      obtain ⟨rfl,inside⟩ := own
      exact .inl ⟨rfl,rfl,kept ▸ inside⟩
    · intro own
      rw [if_pos rfl,if_pos bound]
      cases own with
      | inl own =>
        obtain ⟨-,rfl,inside⟩ := own
        exact ⟨rfl,kept ▸ inside⟩
      | inr other => exact absurd rfl other.1
  · rw [if_neg same]
    constructor
    · intro own
      exact .inr ⟨Ne.symm same,own⟩
    · intro own
      cases own with
      | inl own => exact absurd own.1.symm same
      | inr other => exact other.2

theorem Steady.put (steady : Steady s) (found : s.buttons[i]? = some b)
    (codes : after.info.outputKeycode = b.info.outputKeycode) (sound : after.Sound)
    (others : ∀ key, key ∉ b.keys s.launcher → (Held sent key ↔ Held s.sent key))
    (own : ∀ key ∈ b.keys s.launcher, Pressing sent after key →
      after.Holding ∧ s.editMode = false) :
    Steady { s with buttons := s.buttons.set i after, sent } := by
  have apart : ∀ {j c key}, j ≠ i → s.Owns j c key → key ∉ b.keys s.launcher := by
    intro j c key other owns inside
    exact other (steady.distinct j i c b key owns ⟨found,inside⟩)
  have before : ∀ {j c key}, j ≠ i → s.Owns j c key → Pressing sent c key →
      Pressing s.sent c key := by
    intro j c key other owns pressing
    exact pressing.imp_left (others key (apart other owns)).mp
  refine ⟨?_,steady.discarded,?_,?_,?_,?_⟩
  · intro j k c d key left right
    rw [owns_put found codes] at left right
    rcases left with ⟨rfl,-,inside⟩ | ⟨other,owns⟩
    · rcases right with ⟨rfl,-,-⟩ | ⟨other',owns'⟩
      · rfl
      · exact absurd inside (apart other' owns')
    · rcases right with ⟨rfl,-,inside⟩ | ⟨-,owns'⟩
      · exact absurd inside (apart other owns)
      · exact steady.distinct j k c d key owns owns'
  · intro j c at_j
    rw [List.getElem?_set] at at_j
    split at at_j
    · split at at_j
      · exact Option.some.inj at_j ▸ sound
      · cases at_j
    · exact steady.sound j c at_j
  · intro key held
    by_cases inside : key ∈ b.keys s.launcher
    · exact ⟨i,after,(owns_put found codes).mpr (.inl ⟨rfl,rfl,inside⟩)⟩
    · obtain ⟨j,c,owns⟩ := steady.owned key ((others key inside).mp held)
      refine ⟨j,c,(owns_put found codes).mpr (.inr ⟨?_,owns⟩)⟩
      rintro rfl
      obtain rfl := Option.some.inj (found.symm.trans owns.1)
      exact inside owns.2
  · intro j c key owns pressing
    rw [owns_put found codes] at owns
    rcases owns with ⟨-,rfl,inside⟩ | ⟨other,owns⟩
    · exact (own key inside pressing).1
    · exact steady.holding j c key owns (before other owns pressing)
  · intro editing j c key owns pressing
    rw [owns_put found codes] at owns
    rcases owns with ⟨-,rfl,inside⟩ | ⟨other,owns⟩
    · exact Bool.noConfusion (editing.symm.trans (own key inside pressing).2)
    · exact steady.editing editing j c key owns (before other owns pressing)

/-- Some buttons are shown or hidden, and of the keys only those of posted clicks go down. -/
structure Redrawn (f : BaseButton → BaseButton) (s s' : ViewManager) : Prop where
  buttons : s'.buttons = s.buttons.map f
  shown : ∀ c, ∃ isShowing visible, f c = { c with isShowing, visible }
  launcher : s'.launcher = s.launcher
  editMode : s'.editMode = s.editMode
  removed : s'.removed = s.removed
  held : ∀ key, Held s'.sent key → Held s.sent key ∨ ∃ i b, s.Owns i b key ∧ b.clicking = true

theorem Redrawn.owns_iff {f : BaseButton → BaseButton} (redrawn : Redrawn f s s') {c : BaseButton}
    {key : Int} : s'.Owns i c key ↔ ∃ b, s.Owns i b key ∧ f b = c := by
  unfold Owns
  rw [redrawn.buttons,redrawn.launcher,List.getElem?_map]
  have kept : ∀ b : BaseButton, (f b).keys s.launcher = b.keys s.launcher := by
    intro b
    obtain ⟨isShowing,visible,same⟩ := redrawn.shown b
    rw [same]
    rfl
  constructor
  · rintro ⟨found,inside⟩
    obtain ⟨b,at_i,rfl⟩ := Option.map_eq_some_iff.mp found
    exact ⟨b,⟨at_i,kept b ▸ inside⟩,rfl⟩
  · rintro ⟨b,⟨at_i,inside⟩,rfl⟩
    exact ⟨Option.map_eq_some_iff.mpr ⟨b,at_i,rfl⟩,(kept b).symm ▸ inside⟩

theorem Redrawn.pressing {f : BaseButton → BaseButton} (redrawn : Redrawn f s s')
    (steady : Steady s) {key : Int} (own : s.Owns i b key)
    (pressing : Pressing s'.sent (f b) key) : Pressing s.sent b key := by
  cases pressing with
  | inl held =>
    cases redrawn.held key held with
    | inl before => exact .inl before
    | inr click =>
      obtain ⟨j,c,owns,clicking⟩ := click
      obtain ⟨-,rfl⟩ := steady.owner own owns
      exact .inr clicking
  | inr clicking =>
    obtain ⟨isShowing,visible,same⟩ := redrawn.shown b
    rw [same] at clicking
    exact .inr clicking

theorem Redrawn.steady {f : BaseButton → BaseButton} (redrawn : Redrawn f s s') (steady : Steady s) :
    Steady s' := by
  refine ⟨?_,?_,?_,?_,?_,?_⟩
  · intro j k c d key left right
    obtain ⟨b,own,-⟩ := redrawn.owns_iff.mp left
    obtain ⟨b',own',-⟩ := redrawn.owns_iff.mp right
    exact steady.distinct j k b b' key own own'
  · rw [redrawn.removed,redrawn.launcher]
    exact steady.discarded
  · intro j c found
    rw [redrawn.buttons,List.getElem?_map] at found
    obtain ⟨b,at_j,rfl⟩ := Option.map_eq_some_iff.mp found
    obtain ⟨isShowing,visible,same⟩ := redrawn.shown b
    obtain ⟨clicks,keeps,counts⟩ := steady.sound j b at_j
    rw [same]
    exact ⟨clicks,keeps,counts⟩
  · intro key held
    have before : ∃ j b, s.Owns j b key := by
      cases redrawn.held key held with
      | inl held => exact steady.owned key held
      | inr click =>
        obtain ⟨j,b,own,-⟩ := click
        exact ⟨j,b,own⟩
    obtain ⟨j,b,own⟩ := before
    exact ⟨j,f b,redrawn.owns_iff.mpr ⟨b,own,rfl⟩⟩
  · intro j c key owns pressing
    obtain ⟨b,own,rfl⟩ := redrawn.owns_iff.mp owns
    obtain ⟨isShowing,visible,same⟩ := redrawn.shown b
    have holding := steady.holding j b key own (redrawn.pressing steady own pressing)
    rw [same]
    exact holding
  · intro editing j c key owns pressing
    obtain ⟨b,own,rfl⟩ := redrawn.owns_iff.mp owns
    rw [redrawn.editMode] at editing
    exact steady.editing editing j b key own (redrawn.pressing steady own pressing)

theorem Redrawn.shown_of {f : BaseButton → BaseButton} (redrawn : Redrawn f s s')
    (steady : Steady s) (visible : ∀ c, (f c).visible = c.visible) (shown : Shown s) : Shown s' := by
  intro i c key owns pressing
  obtain ⟨b,own,rfl⟩ := redrawn.owns_iff.mp owns
  rw [visible]
  exact shown i b key own (redrawn.pressing steady own pressing)

theorem fire_redrawn (steady : Steady s) (timer : Timer) : Redrawn id s (s.fire timer) := by
  have same : ∀ c : BaseButton, ∃ isShowing visible, id c = { c with isShowing, visible } :=
    fun c => ⟨c.isShowing,c.visible,rfl⟩
  cases timer with
  | click which =>
    rw [fire]
    cases found : (s.buttons ++ s.removed)[which]? with
    | none => exact ⟨by simp,same,rfl,rfl,rfl,fun key held => .inl held⟩
    | some b =>
      simp only
      split
      · rename_i clicking
        refine ⟨by simp,same,rfl,rfl,rfl,?_⟩
        intro key held
        cases held_pressKeys.mp held with
        | inl inside =>
          cases List.mem_append.mp (List.mem_of_getElem? found) with
          | inl listed =>
            obtain ⟨i,at_i⟩ := List.mem_iff_getElem?.mp listed
            exact .inr ⟨i,b,⟨at_i,inside⟩,clicking⟩
          | inr removed => exact absurd inside (steady.discarded b removed clicking key)
        | inr before => exact .inl before
      · exact ⟨by simp,same,rfl,rfl,rfl,fun key held => .inl held⟩
  | text =>
    rw [fire]
    split
    · exact ⟨by simp,same,rfl,rfl,rfl,fun key held => .inl held⟩
    · exact ⟨by simp [tap],same,rfl,rfl,rfl,fun key held => .inl ((held_tapped keyEnter).mp held).2⟩

theorem steady_fired (steady : Steady s) (timers : List Timer) : Steady (timers.foldl fire s) := by
  induction timers generalizing s with
  | nil => exact steady
  | cons timer timers ih => exact ih ((fire_redrawn steady timer).steady steady)

theorem fire_frame (timer : Timer) : (s.fire timer).buttons = s.buttons ∧
    (s.fire timer).launcher = s.launcher ∧ (s.fire timer).editMode = s.editMode := by
  cases timer with
  | click which =>
    rw [fire]
    split
    · exact ⟨rfl,rfl,rfl⟩
    · split <;> exact ⟨rfl,rfl,rfl⟩
  | text =>
    rw [fire]
    split <;> exact ⟨rfl,rfl,rfl⟩

theorem fired_frame (timers : List Timer) : (timers.foldl fire s).buttons = s.buttons ∧
    (timers.foldl fire s).launcher = s.launcher ∧ (timers.foldl fire s).editMode = s.editMode := by
  induction timers generalizing s with
  | nil => exact ⟨rfl,rfl,rfl⟩
  | cons timer timers ih =>
    obtain ⟨buttons,launcher,editMode⟩ := fire_frame (s := s) timer
    obtain ⟨buttons',launcher',editMode'⟩ := ih (s := s.fire timer)
    exact ⟨buttons'.trans buttons,launcher'.trans launcher,editMode'.trans editMode⟩

theorem held_fired (steady : Steady s) {timers : List Timer} {key : Int}
    (held : Held (timers.foldl fire s).sent key) :
    ∃ i b, s.Owns i b key ∧ Pressing s.sent b key := by
  induction timers generalizing s with
  | nil =>
    obtain ⟨i,b,own⟩ := steady.owned key held
    exact ⟨i,b,own,.inl held⟩
  | cons timer timers ih =>
    have redrawn := fire_redrawn steady timer
    obtain ⟨i,c,owns,pressing⟩ := ih (redrawn.steady steady) held
    obtain ⟨b,own,rfl⟩ := redrawn.owns_iff.mp owns
    exact ⟨i,b,own,redrawn.pressing steady own pressing⟩

end Panel

section Acting

variable {s : ViewManager} {i : Nat} {b : BaseButton} {e : ButtonEvent} {key : Int}

def toggled (s : ViewManager) (names : List String) (c : BaseButton) : BaseButton :=
  names.foldl s.toggleChild c

theorem toggleChild_shown (child : String) (c : BaseButton) :
    ∃ isShowing visible, s.toggleChild c child = { c with isShowing, visible } := by
  unfold toggleChild
  split
  · exact ⟨_,_,rfl⟩
  · exact ⟨c.isShowing,c.visible,rfl⟩

theorem toggled_shown (names : List String) (c : BaseButton) :
    ∃ isShowing visible, s.toggled names c = { c with isShowing, visible } := by
  induction names generalizing c with
  | nil => exact ⟨c.isShowing,c.visible,rfl⟩
  | cons child names ih =>
    obtain ⟨isShowing,visible,same⟩ := toggleChild_shown (s := s) child c
    obtain ⟨isShowing',visible',same'⟩ := ih (s.toggleChild c child)
    refine ⟨isShowing',visible',?_⟩
    rw [toggled,List.foldl_cons,← toggled,same',same]

theorem toggled_visible {c d : BaseButton} (child : c.info.child = d.info.child)
    (showType : c.info.showType = d.info.showType) (isShowing : c.isShowing = d.isShowing)
    (visible : c.visible = d.visible) (names : List String) :
    (s.toggled names c).visible = (s.toggled names d).visible := by
  induction names generalizing c d with
  | nil => exact visible
  | cons name names ih =>
    rw [toggled,toggled,List.foldl_cons,List.foldl_cons,← toggled,← toggled]
    unfold toggleChild
    rw [child]
    split
    · apply ih
      · exact child
      · exact showType
      · exact congrArg Bool.not isShowing
      · simp only [setIsShowing,refreshVisibility,showType,isShowing]
    · exact ih child showType isShowing visible

theorem foldl_setChildVisibility (names : List String) :
    names.foldl (fun s child => s.setChildVisibility child) s =
      { s with buttons := s.buttons.map (s.toggled names) } := by
  induction names generalizing s with
  | nil =>
    have same : s.toggled [] = id := rfl
    rw [List.foldl_nil,same,List.map_id]
  | cons child names ih =>
    rw [List.foldl_cons,ih,setChildVisibility,List.map_map]
    rfl

theorem act_held {childNames : List String} (held : Held (s.act b childNames).sent key) :
    Held s.sent key := by
  rw [act,foldl_setChildVisibility] at held
  simp only at held
  split at held
  · unfold typeText at held
    split at held
    · exact ((held_tapped keyT).mp held).2
    · exact held
  · exact held

theorem act_redrawn (childNames : List String) :
    Redrawn (s.toggled (controlled childNames b.info.visibilityControl).1) s (s.act b childNames) := by
  have frame : (s.act b childNames).buttons =
      s.buttons.map (s.toggled (controlled childNames b.info.visibilityControl).1) ∧
      (s.act b childNames).launcher = s.launcher ∧ (s.act b childNames).editMode = s.editMode ∧
      (s.act b childNames).removed = s.removed := by
    rw [act,foldl_setChildVisibility]
    simp only
    split
    · unfold typeText
      split <;> exact ⟨rfl,rfl,rfl,rfl⟩
    · exact ⟨rfl,rfl,rfl,rfl⟩
  obtain ⟨buttons,launcher,editMode,removed⟩ := frame
  exact ⟨buttons,toggled_shown _,launcher,editMode,removed,fun key held => .inl (act_held held)⟩

theorem held_act {childNames : List String}
    (completed : (controlled childNames b.info.visibilityControl).2 = true) :
    Held (s.act b childNames).sent key ↔
      ¬(s.typesText b.info = true ∧ key = keyT) ∧ Held s.sent key := by
  have valid : InputBridge.holds s.launcher keyT = true := by
    simp [InputBridge.holds,keyT,InputBridge.mouseScrollUp,InputBridge.mouseScrollDown]
  have same : ∀ buttons, typesText { s with buttons } b.info = s.typesText b.info := fun _ => rfl
  rw [act,foldl_setChildVisibility,if_pos completed,typeText,same]
  cases s.typesText b.info with
  | true =>
    rw [if_pos rfl,tap,held_tapped]
    simp only [valid,and_true,true_and]
  | false =>
    rw [if_neg Bool.false_ne_true]
    simp

theorem act_crashed {childNames : List String} : (s.act b childNames).crashed =
    (s.crashed || !(controlled childNames b.info.visibilityControl).2) := by
  rw [act,foldl_setChildVisibility]
  cases (controlled childNames b.info.visibilityControl).2 with
  | true =>
    rw [if_pos rfl,typeText]
    split <;> simp [tap]
  | false => simp

theorem touch_eq (found : s.buttons[i]? = some b) (received : b.receives e = true) :
    s.touch i e =
      let done := { b with touched := goesOn e }.onTouchEvent s.launcher s.editMode e s.sent
      if b.acts s.editMode e then
        let after := withoutUnknown e.childNames done.1
        { s with buttons := s.buttons.set i after, sent := done.2 }.act b e.childNames
      else { s with buttons := s.buttons.set i done.1, sent := done.2 } := by
  rw [touch,found]
  simp only
  rw [if_pos received]

theorem touch_absent (absent : ∀ b, s.buttons[i]? = some b → b.receives e = false) :
    s.touch i e = s := by
  rw [touch]
  cases found : s.buttons[i]? with
  | none => rfl
  | some b =>
    simp only
    rw [if_neg (by simp [absent b found])]

theorem acts_down (acting : b.acts s.editMode e = true) :
    e.action = .down ∧ s.editMode = false := by
  unfold acts at acting
  simp only [Bool.and_eq_true,Bool.not_eq_true',decide_eq_true_eq] at acting
  exact ⟨acting.1.2,acting.1.1⟩

theorem receives_down (down : e.action = .down) (received : b.receives e = true) :
    b.visible = true ∧ b.touched = false := by
  rw [receives,if_pos down] at received
  simpa using received

/-- A button that was touched, as the layouts it controls and the text it types find it. -/
structure Acted (s : ViewManager) (i : Nat) (b : BaseButton) (e : ButtonEvent) (after : BaseButton)
    (sent : Sent Int) : Prop where
  touch : s.touch i e = { s with buttons := s.buttons.set i after, sent }.act b e.childNames
  codes : after.info.outputKeycode = b.info.outputKeycode
  child : after.info.child = b.info.child
  showType : after.info.showType = b.info.showType
  isShowing : after.isShowing = b.isShowing
  visible : after.visible = b.visible
  sound : after.Sound
  others : ∀ key, key ∉ b.keys s.launcher → (Held sent key ↔ Held s.sent key)
  own : ∀ key ∈ b.keys s.launcher,
    (Held sent key ↔ b.presses = true ∧ b.info.autoClick = false) ∧
      (after.clicking = true ↔ b.presses = true ∧ b.info.autoClick = true)
  holding : b.presses = true → after.Holding
  function : after.info.functionType = b.info.functionType
  clickCount : after.clickCount = b.countAfter

theorem acted_spec (steady : Steady s) (found : s.buttons[i]? = some b)
    (received : b.receives e = true) (acting : b.acts s.editMode e = true) :
    ∃ after sent, Acted s i b e after sent := by
  obtain ⟨down,-⟩ := acts_down acting
  obtain ⟨-,untouched⟩ := receives_down down received
  have on : goesOn e = true := by simp [goesOn,down]
  have before : ∀ key ∈ b.keys s.launcher, b.isKeeping = false → ¬Pressing s.sent b key := by
    intro key inside off pressing
    cases steady.holding i b key ⟨found,inside⟩ pressing with
    | inl keeping => exact Bool.noConfusion (off.symm.trans keeping)
    | inr touching => exact Bool.noConfusion (untouched.symm.trans touching.1)
  -- the button with the touch on it and its clicks counted
  obtain ⟨c,info,isKeeping,isShowing,visible,touched,sound,done⟩ : ∃ c : BaseButton,
      c.info = b.info ∧ c.isKeeping = b.isKeeping ∧ c.isShowing = b.isShowing ∧
      c.visible = b.visible ∧ c.touched = true ∧
      (c.Sound ∧ c.clicking = b.clicking ∧ c.clickCount = b.countAfter) ∧
      { b with touched := goesOn e }.onTouchEvent s.launcher s.editMode e s.sent =
        c.acted s.launcher s.sent := by
    have acting' : ({ b with touched := goesOn e } : BaseButton).acts s.editMode e = true := acting
    obtain ⟨clicks,keeps,counts⟩ := steady.sound i b found
    exact ⟨{ b with touched := goesOn e, clickCount := b.countAfter },rfl,rfl,rfl,rfl,on,
      ⟨⟨clicks,keeps,countAfter_counts counts⟩,rfl,rfl⟩,onTouchEvent_acted s.launcher s.sent acting'⟩
  obtain ⟨sound,clicking,count⟩ := sound
  have same := @acted_alike s.launcher c s.sent
  have keys : c.keys s.launcher = b.keys s.launcher := by rw [BaseButton.keys,info,BaseButton.keys]
  have presses : c.presses = b.presses := by
    rw [BaseButton.presses,info,isKeeping,BaseButton.presses]
  have touch := (touch_eq found received).trans (if_pos acting)
  rw [done] at touch
  refine ⟨_,_,touch,?_,?_,?_,?_,?_,?_,?_,?_,?_,?_,?_⟩
  · rw [← info,← same.info]
    rfl
  · rw [← info,← same.info]
    rfl
  · rw [← info,← same.info]
    rfl
  · rw [← isShowing,← same.isShowing]
    rfl
  · rw [← visible,← same.visible]
    rfl
  · have function := acts_function acting
    rw [← info] at function
    obtain ⟨clicks,keeps,counts⟩ := @acted_sound s.launcher c s.sent sound function
    exact ⟨clicks,keeps,counts⟩
  · intro key other
    exact acted_others (keys ▸ other)
  · intro key inside
    rw [← presses,← info]
    apply acted_own sound (keys ▸ inside)
    rw [isKeeping]
    intro off pressing
    exact before key inside off (pressing.imp_right clicking.symm.trans)
  · intro pressing
    exact acted_holding touched (presses.trans pressing)
  · rw [← info,← same.info]
    rfl
  · rw [← count,← @acted_clickCount s.launcher c s.sent]
    rfl

/-- A button after a touch that neither presses keys nor goes on to other buttons. -/
structure Rested (s : ViewManager) (i : Nat) (b : BaseButton) (e : ButtonEvent) (after : BaseButton)
    (sent : Sent Int) : Prop where
  touch : s.touch i e = { s with buttons := s.buttons.set i after, sent }
  codes : after.info.outputKeycode = b.info.outputKeycode
  visible : after.visible = b.visible
  sound : after.Sound
  others : ∀ key, key ∉ b.keys s.launcher → (Held sent key ↔ Held s.sent key)
  own : ∀ key ∈ b.keys s.launcher, Pressing sent after key →
    Pressing s.sent b key ∧ after.Holding ∧ s.editMode = false

theorem rested_spec (steady : Steady s) (found : s.buttons[i]? = some b)
    (received : b.receives e = true) (rests : b.acts s.editMode e = false) :
    ∃ after sent, Rested s i b e after sent := by
  obtain ⟨clicks,keeps,counts⟩ := steady.sound i b found
  have touch := (touch_eq found received).trans (if_neg (by simp [rests]))
  have rests' : ({ b with touched := goesOn e } : BaseButton).acts s.editMode e = false := rests
  cases letting : b.lets s.editMode e with
  | true =>
    have letting' : ({ b with touched := goesOn e } : BaseButton).lets s.editMode e = true := letting
    rw [onTouchEvent_lets letting'] at touch
    refine ⟨_,_,touch,rfl,rfl,⟨?_,keeps,counts⟩,?_,?_⟩
    · intro clicking
      exact clicks (Bool.and_elim_left clicking)
    · intro key other
      rw [held_releaseKeys]
      exact and_iff_right other
    · intro key inside pressing
      cases pressing with
      | inl held => exact absurd inside (held_releaseKeys.mp held).1
      | inr clicking =>
        have both := (Bool.and_eq_true_iff.mp clicking)
        rw [clicks both.1] at both
        cases both.2
  | false =>
    have letting' : ({ b with touched := goesOn e } : BaseButton).lets s.editMode e = false := letting
    have kept : ∀ key ∈ b.keys s.launcher, Pressing s.sent b key →
        ({ b with touched := goesOn e } : BaseButton).Holding ∧ s.editMode = false := by
      intro key inside pressing
      have editing : s.editMode = false := by
        by_contra editing
        exact steady.editing (by simpa using editing) i b key ⟨found,inside⟩ pressing
      refine ⟨?_,editing⟩
      cases steady.holding i b key ⟨found,inside⟩ pressing with
      | inl keeping => exact .inl keeping
      | inr touching =>
        obtain ⟨touched,function,auto⟩ := touching
        refine .inr ⟨?_,function,auto⟩
        -- a touch that is lifted would have let the keys go
        simpa [lets,goesOn,editing,function,auto] using letting
    cases onTouchEvent_idle rests' letting' with
    | inl same =>
      rw [same] at touch
      exact ⟨_,_,touch,rfl,rfl,⟨clicks,keeps,counts⟩,fun _ _ => Iff.rfl,
        fun key inside pressing => ⟨pressing,kept key inside pressing⟩⟩
    | inr same =>
      obtain ⟨clickCount,firstClickTime,counted⟩ :=
        countClick_eq (b := { b with touched := goesOn e }) e.time
      have count := countClick_counts (b := { b with touched := goesOn e }) counts e.time
      rw [counted] at count same
      rw [same] at touch
      exact ⟨_,_,touch,rfl,rfl,⟨clicks,keeps,count⟩,fun _ _ => Iff.rfl,
        fun key inside pressing => ⟨pressing,kept key inside pressing⟩⟩

theorem touch_steady (steady : Steady s) (i : Nat) (e : ButtonEvent) : Steady (s.touch i e) := by
  by_cases reached : ∃ b, s.buttons[i]? = some b ∧ b.receives e = true
  · obtain ⟨b,found,received⟩ := reached
    cases acting : b.acts s.editMode e with
    | true =>
      obtain ⟨after,sent,acted⟩ := acted_spec steady found received acting
      have put := steady.put found acted.codes acted.sound acted.others (by
        intro key inside pressing
        obtain ⟨held,clicking⟩ := acted.own key inside
        have presses : b.presses = true := by
          cases pressing with
          | inl down => exact (held.mp down).1
          | inr clicks => exact (clicking.mp clicks).1
        exact ⟨acted.holding presses,(acts_down acting).2⟩)
      rw [acted.touch]
      exact (act_redrawn e.childNames).steady put
    | false =>
      obtain ⟨after,sent,rested⟩ := rested_spec steady found received acting
      rw [rested.touch]
      exact steady.put found rested.codes rested.sound rested.others fun key inside pressing =>
        (rested.own key inside pressing).2
  · rw [touch_absent fun b found => by
      by_contra received
      exact reached ⟨b,found,by simpa using received⟩]
    exact steady

/-- A key of a button of the panel that is pressed when another button, or itself, has been touched:
the touched button presses its own, the text it types lets one key go. -/
def LeftPressed (s : ViewManager) (i : Nat) (b : BaseButton) (j : Nat) (c : BaseButton) (key : Int) :
    Prop :=
  let untyped := ¬(s.typesText b.info = true ∧ key = keyT)
  if j = i then b.presses = true ∧ (b.info.autoClick = true ∨ untyped)
  else c.clicking = true ∨ untyped ∧ Held s.sent key

def HidesNone (s : ViewManager) (i : Nat) (e : ButtonEvent) : Prop :=
  ∀ b, s.buttons[i]? = some b → b.receives e = true → b.acts s.editMode e = true →
    (controlled e.childNames b.info.visibilityControl).2 = true →
      ∀ j c key, s.Owns j c key → s.LeftPressed i b j c key →
        (s.toggled (controlled e.childNames b.info.visibilityControl).1 c).visible = true

theorem Acted.owns_iff {after : BaseButton} {sent : Sent Int} (acted : Acted s i b e after sent)
    (found : s.buttons[i]? = some b) {j : Nat} {d : BaseButton} :
    (s.touch i e).Owns j d key ↔ ∃ c, s.Owns j c key ∧
      d = s.toggled (controlled e.childNames b.info.visibilityControl).1
        (if j = i then after else c) := by
  rw [acted.touch,(act_redrawn e.childNames).owns_iff]
  constructor
  · rintro ⟨c,owns,rfl⟩
    rw [owns_put found acted.codes] at owns
    rcases owns with ⟨rfl,rfl,inside⟩ | ⟨other,own⟩
    · exact ⟨b,⟨found,inside⟩,by rw [if_pos rfl]; rfl⟩
    · exact ⟨c,own,by rw [if_neg other]; rfl⟩
  · rintro ⟨c,own,rfl⟩
    refine ⟨_,(owns_put found acted.codes).mpr ?_,rfl⟩
    by_cases same : j = i
    · subst same
      obtain rfl := Option.some.inj (found.symm.trans own.1)
      exact .inl ⟨rfl,if_pos rfl,own.2⟩
    · exact .inr ⟨same,(if_neg same).symm ▸ own⟩

theorem Acted.visible_toggled {after : BaseButton} {sent : Sent Int}
    (acted : Acted s i b e after sent) (found : s.buttons[i]? = some b) {j : Nat} {c : BaseButton}
    (own : s.Owns j c key) (names : List String) :
    (s.toggled names (if j = i then after else c)).visible = (s.toggled names c).visible := by
  split
  · rename_i same
    subst same
    obtain rfl := Option.some.inj (found.symm.trans own.1)
    exact toggled_visible acted.child acted.showType acted.isShowing acted.visible names
  · rfl

theorem Acted.leftPressed {after : BaseButton} {sent : Sent Int} (acted : Acted s i b e after sent)
    (steady : Steady s) (found : s.buttons[i]? = some b)
    (completed : (controlled e.childNames b.info.visibilityControl).2 = true) {j : Nat}
    {c : BaseButton} (own : s.Owns j c key) (names : List String) :
    Pressing (s.touch i e).sent (s.toggled names (if j = i then after else c)) key ↔
      s.LeftPressed i b j c key := by
  have types : ∀ buttons, typesText { s with buttons, sent } b.info = s.typesText b.info :=
    fun _ => rfl
  obtain ⟨isShowing,visible,same⟩ := toggled_shown (s := s) names (if j = i then after else c)
  rw [Pressing,same,acted.touch,held_act completed,types,LeftPressed]
  simp only
  by_cases same : j = i
  · subst same
    rw [if_pos rfl,if_pos rfl]
    obtain rfl := Option.some.inj (found.symm.trans own.1)
    obtain ⟨held,clicking⟩ := acted.own key own.2
    rw [held,clicking]
    cases b.info.autoClick with
    | true => simp
    | false => simp [and_comm]
  · rw [if_neg same,if_neg same]
    have other : key ∉ b.keys s.launcher := by
      intro inside
      exact same (steady.distinct j i c b key own ⟨found,inside⟩)
    rw [acted.others key other,or_comm]

theorem Acted.shown_iff {after : BaseButton} {sent : Sent Int} (acted : Acted s i b e after sent)
    (steady : Steady s) (found : s.buttons[i]? = some b)
    (completed : (controlled e.childNames b.info.visibilityControl).2 = true) :
    Shown (s.touch i e) ↔ ∀ j c key, s.Owns j c key → s.LeftPressed i b j c key →
      (s.toggled (controlled e.childNames b.info.visibilityControl).1 c).visible = true := by
  constructor
  · intro shown j c key own left
    rw [← acted.visible_toggled found own]
    apply shown j _ key
    · exact (acted.owns_iff found).mpr ⟨c,own,rfl⟩
    · exact (acted.leftPressed steady found completed own _).mpr left
  · intro hides j d key owns pressing
    obtain ⟨c,own,rfl⟩ := (acted.owns_iff found).mp owns
    rw [acted.visible_toggled found own]
    exact hides j c key own ((acted.leftPressed steady found completed own _).mp pressing)

theorem Rested.shown {after : BaseButton} {sent : Sent Int} (rested : Rested s i b e after sent)
    (steady : Steady s) (shown : Shown s) (found : s.buttons[i]? = some b) :
    Shown (s.touch i e) := by
  rw [rested.touch]
  intro j c key owns pressing
  rw [owns_put found rested.codes] at owns
  rcases owns with ⟨rfl,rfl,inside⟩ | ⟨other,owns⟩
  · rw [rested.visible]
    exact shown j b key ⟨found,inside⟩ (rested.own key inside pressing).1
  · have apart : key ∉ b.keys s.launcher := by
      intro inside
      exact other (steady.distinct j i c b key owns ⟨found,inside⟩)
    exact shown j c key owns (pressing.imp_left (rested.others key apart).mp)

theorem touch_shown_iff (steady : Steady s) (shown : Shown s)
    (running : (s.touch i e).crashed = false) : Shown (s.touch i e) ↔ s.HidesNone i e := by
  by_cases reached : ∃ b, s.buttons[i]? = some b ∧ b.receives e = true
  · obtain ⟨b,found,received⟩ := reached
    have only : ∀ {c}, s.buttons[i]? = some c → c = b :=
      fun found' => Option.some.inj (found'.symm.trans found)
    cases acting : b.acts s.editMode e with
    | true =>
      obtain ⟨after,sent,acted⟩ := acted_spec steady found received acting
      rw [acted.touch,act_crashed] at running
      have completed : (controlled e.childNames b.info.visibilityControl).2 = true := by
        simpa using (Bool.or_eq_false_iff.mp running).2
      rw [acted.shown_iff steady found completed]
      constructor
      · intro hides b' found' _ _ _
        obtain rfl := only found'
        exact hides
      · intro hides
        exact hides b found received acting completed
    | false =>
      obtain ⟨after,sent,rested⟩ := rested_spec steady found received acting
      refine iff_of_true (rested.shown steady shown found) ?_
      intro b' found' _ acting'
      obtain rfl := only found'
      exact Bool.noConfusion (acting.symm.trans acting')
  · have absent : ∀ b, s.buttons[i]? = some b → b.receives e = false := by
      intro b found
      by_contra received
      exact reached ⟨b,found,by simpa using received⟩
    rw [touch_absent absent]
    refine iff_of_true shown ?_
    intro b found received
    exact Bool.noConfusion ((absent b found).symm.trans received)

end Acting

section Again

variable {s : ViewManager} {i : Nat} {b : BaseButton} {key : Int}

theorem touch_releases {e : ButtonEvent} (steady : Steady s) (own : s.Owns i b key)
    (received : b.receives e = true) (acting : b.acts s.editMode e = true)
    (keeping : b.isKeeping = true) : ¬Held (s.touch i e).sent key := by
  obtain ⟨after,sent,acted⟩ := acted_spec steady own.1 received acting
  have released : b.presses = false := by
    rw [BaseButton.presses,if_pos ((steady.sound i b own.1).keeps keeping).1,keeping]
    rfl
  rw [acted.touch]
  intro held
  have pressed := ((acted.own key own.2).1.mp (act_held held)).1
  rw [released] at pressed
  cases pressed

theorem set_found (found : s.buttons[i]? = some b) : s.buttons.set i b = s.buttons := by
  obtain ⟨bound,rfl⟩ := List.getElem?_eq_some_iff.mp found
  exact List.set_getElem_self bound

theorem found_set (found : s.buttons[i]? = some b) (c : BaseButton) :
    ({ s with buttons := s.buttons.set i c } : ViewManager).buttons[i]? = some c :=
  List.getElem?_set_self (List.getElem?_eq_some_iff.mp found).1

/-- A touch of a double-click button that is not its second click only counts. -/
theorem touch_double (found : s.buttons[i]? = some b)
    (double : b.info.functionType = functionTypeDoubleClick) {e : ButtonEvent}
    (received : b.receives e = true) (once : e.action = .down → b.clickedTwice e.time = false) :
    s.touch i e = { s with
      buttons := s.buttons.set i (if s.editMode = false ∧ e.action = .down then
        { b with touched := goesOn e }.countClick e.time else { b with touched := goesOn e }) } := by
  have rests : b.acts s.editMode e = false := by
    unfold acts
    rw [double]
    by_cases down : e.action = .down
    · rw [once down]
      simp [functionTypeDoubleClick,functionTypeTouch]
    · simp [down]
  have still := @onTouchEvent_double s.launcher { b with touched := goesOn e } s.sent s.editMode e
    double once
  rw [touch_eq found received,rests,still]
  rfl

theorem touch_double_up (found : s.buttons[i]? = some b)
    (double : b.info.functionType = functionTypeDoubleClick) (time : Int) (childNames : List String) :
    s.touch i ⟨.up,time,childNames⟩ =
      { s with buttons := s.buttons.set i { b with touched := false } } := by
  cases touched : b.touched with
  | true =>
    rw [touch_double found double (by simp [receives,touched]) (by simp)]
    simp [goesOn]
  | false =>
    have same : ({ b with touched := false } : BaseButton) = b := by rw [← touched]
    rw [same,set_found found]
    apply touch_absent
    intro c at_i
    obtain rfl := Option.some.inj (found.symm.trans at_i)
    simp [receives,touched]

theorem touch_double_sent (found : s.buttons[i]? = some b)
    (double : b.info.functionType = functionTypeDoubleClick) {e : ButtonEvent}
    (once : e.action = .down → b.clickedTwice e.time = false) : (s.touch i e).sent = s.sent := by
  cases received : b.receives e with
  | true => rw [touch_double found double received once]
  | false =>
    rw [touch_absent]
    intro c at_i
    obtain rfl := Option.some.inj (found.symm.trans at_i)
    exact received

theorem touchAgain_releases (steady : Steady s) (own : s.Owns i b key) (visible : b.visible = true)
    (untouched : b.touched = false) (keeping : b.isKeeping = true) (editing : s.editMode = false)
    {time time' : Int} (soon : time' - time ≤ 500) (childNames : List String) :
    ¬Held (s.touchAgain i b time time' childNames).sent key := by
  obtain ⟨found,inside⟩ := own
  have sound := steady.sound i b found
  have received : ∀ time, b.receives ⟨.down,time,childNames⟩ = true := by
    intro time
    simp [receives,visible,untouched]
  rw [touchAgain]
  by_cases double : b.info.functionType = functionTypeDoubleClick
  · rw [if_pos double]
    cases twice : b.clickedTwice time with
    | true =>
      -- the first touch completes a double click that was begun before, the second one only counts
      have acting : b.acts s.editMode ⟨.down,time,childNames⟩ = true := by
        simp [acts,editing,double,twice]
      obtain ⟨after,sent,acted⟩ := acted_spec steady found (received time) acting
      have released := touch_releases steady ⟨found,inside⟩ (received time) acting keeping
      have next := (acted.owns_iff found).mpr ⟨b,⟨found,inside⟩,rfl⟩
      rw [if_pos rfl] at next
      obtain ⟨isShowing,visible',same⟩ := toggled_shown (s := s)
        (controlled childNames b.info.visibilityControl).1 after
      generalize s.toggled (controlled childNames b.info.visibilityControl).1 after = c at next same
      have double' : c.info.functionType = functionTypeDoubleClick := by
        rw [same]
        exact acted.function.trans double
      have none : c.clickCount = 0 := by
        rw [same]
        refine acted.clickCount.trans (if_neg ?_)
        rw [double]
        decide
      rw [touch_double_up next.1 double',
        touch_double_sent (found_set next.1 { c with touched := false }) double']
      · exact released
      · intro _
        simp [clickedTwice,none]
    | false =>
      have once := touch_double found double (received time) (fun _ => twice)
      have counted := countClick_once (b := { b with touched := true }) sound.counts twice
      have on : goesOn ⟨.down,time,childNames⟩ = true := by simp [goesOn]
      rw [if_pos ⟨editing,rfl⟩,on,counted] at once
      have up := touch_double_up (found_set found
        { b with touched := true, clickCount := 1, firstClickTime := time }) double time childNames
      rw [← once] at up
      have steady' := touch_steady (touch_steady steady i ⟨.down,time,childNames⟩) i
        ⟨.up,time,childNames⟩
      rw [up,once,List.set_set] at steady' ⊢
      refine touch_releases steady' ⟨found_set found _,inside⟩ ?_ ?_ keeping
      · simp [receives,visible]
      · simp [acts,editing,double,clickedTwice,soon]
  · rw [if_neg double]
    have function := (sound.keeps keeping).2.resolve_right double
    refine touch_releases steady ⟨found,inside⟩ (received time) ?_ keeping
    simp [acts,editing,function]

end Again

section Runs

variable {s : ViewManager}

theorem noStuck_iff (steady : Steady s) (running : s.crashed = false) : NoStuckKey s ↔ Shown s := by
  constructor
  · intro noStuck i b key own pressing
    obtain ⟨timers,held⟩ : ∃ timers : List Timer, Held (timers.foldl fire s).sent key := by
      cases pressing with
      | inl held => exact ⟨[],held⟩
      | inr clicking =>
        have bound := (List.getElem?_eq_some_iff.mp own.1).1
        have first : (s.buttons ++ s.removed)[i]? = some b := by
          rw [List.getElem?_append_left bound]
          exact own.1
        refine ⟨[.click i],?_⟩
        rw [List.foldl_cons,List.foldl_nil,fire,first]
        simp only
        rw [if_pos clicking]
        exact held_pressKeys.mpr (.inl own.2)
    obtain ⟨j,c,found,visible,inside,-⟩ := noStuck running timers key held
    have owns : s.Owns j c key :=
      ⟨found,List.mem_filter.mpr ⟨inside,(List.mem_filter.mp own.2).2⟩⟩
    obtain ⟨-,rfl⟩ := steady.owner own owns
    exact visible
  · intro shown _ timers key held
    obtain ⟨i,b,own,pressing⟩ := held_fired steady held
    have visible := shown i b key own pressing
    refine ⟨i,b,own.1,visible,(List.mem_filter.mp own.2).1,?_⟩
    cases touched : b.touched with
    | true => exact .inl rfl
    | false =>
      cases steady.holding i b key own pressing with
      | inr touching => exact Bool.noConfusion (touched.symm.trans touching.1)
      | inl keeping =>
        refine .inr ⟨keeping,?_⟩
        intro time time' childNames _ soon
        have editing : s.editMode = false := by
          by_contra editing
          exact steady.editing (by simpa using editing) i b key own pressing
        obtain ⟨buttons,launcher,editMode⟩ := fired_frame (s := s) timers
        have own' : (timers.foldl fire s).Owns i b key := by
          rw [Owns,buttons,launcher]
          exact own
        exact touchAgain_releases (steady_fired steady timers) own' visible touched keeping
          (editMode.trans editing) soon childNames

/-- The cursor is shown or taken away while the buttons for it alone do not press their keys. -/
def CursorHidesNone (s : ViewManager) (mode : Int) : Prop :=
  ∀ (i : Nat) (b : BaseButton) (key : Int), s.Owns i b key → Pressing s.sent b key →
    (s.editMode || (b.isShowing && shows mode b.info.showType)) = true

theorem refreshCursor_redrawn (s : ViewManager) (mode : Int) :
    Redrawn { s with gameCursorMode := mode }.refreshVisibility s (s.refreshCursor mode) :=
  ⟨rfl,fun c => ⟨c.isShowing,_,rfl⟩,rfl,rfl,rfl,fun _ held => .inl held⟩

theorem refreshCursor_shown_iff (steady : Steady s) (mode : Int) :
    Shown (s.refreshCursor mode) ↔ s.CursorHidesNone mode := by
  have redrawn := refreshCursor_redrawn s mode
  constructor
  · intro shown i b key own pressing
    exact shown i _ key (redrawn.owns_iff.mpr ⟨b,own,rfl⟩) pressing
  · intro hides i c key owns pressing
    obtain ⟨b,own,rfl⟩ := redrawn.owns_iff.mp owns
    exact hides i b key own (redrawn.pressing steady own pressing)

end Runs

end HmclPe.Control.ViewManager
