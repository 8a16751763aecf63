import HmclPe.Control.StuckKeys

/-! Refreshing the layout discards the buttons. Over a whole run no key gets stuck exactly when no
button is discarded or hidden while it presses its keys. -/
namespace HmclPe.Control.ViewManager
open HmclPe.Lib.Presses HmclPe.Lib.Runs BaseButton

section Removal

variable {s : ViewManager} {b : BaseButton} {key : Int}

/-- The cancel that a removed button gets lets its keys go. -/
def cancelled (s : ViewManager) (b : BaseButton) : Bool :=
  b.touched && b.lets s.editMode ⟨.cancel,0,[]⟩

/-- A removed button goes on clicking unless its cancel ended that. -/
def clicksOn (s : ViewManager) (b : BaseButton) : Bool :=
  b.clicking && !(s.cancelled b && b.info.autoClick)

theorem removeView_spec (s : ViewManager) (b : BaseButton) : ∃ after sent,
    s.removeView b = { s with removed := s.removed ++ [after], sent } ∧
      after.info.outputKeycode = b.info.outputKeycode ∧ after.clicking = s.clicksOn b ∧
      ∀ key, Held sent key ↔
        Held s.sent key ∧ ¬(s.cancelled b = true ∧ key ∈ b.keys s.launcher) := by
  rw [removeView,clicksOn,cancelled]
  cases b.touched with
  | false => exact ⟨b,s.sent,rfl,rfl,by simp,by simp⟩
  | true =>
    rw [if_pos rfl]
    have rests : ({ b with touched := false } : BaseButton).acts s.editMode ⟨.cancel,0,[]⟩ = false := by
      simp [acts]
    cases letting : b.lets s.editMode ⟨.cancel,0,[]⟩ with
    | true =>
      have letting' :
        ({ b with touched := false } : BaseButton).lets s.editMode ⟨.cancel,0,[]⟩ = true := letting
      rw [onTouchEvent_lets letting']
      refine ⟨_,_,rfl,rfl,by simp,?_⟩
      intro key
      rw [held_releaseKeys,and_comm]
      simp [keys]
    | false =>
      have letting' :
        ({ b with touched := false } : BaseButton).lets s.editMode ⟨.cancel,0,[]⟩ = false := letting
      cases onTouchEvent_idle rests letting' with
      | inl same =>
        rw [same]
        exact ⟨_,_,rfl,rfl,by simp,by simp⟩
      | inr same =>
        obtain ⟨clickCount,firstClickTime,counted⟩ :=
          countClick_eq (b := { b with touched := false }) 0
        rw [same,counted]
        exact ⟨_,_,rfl,rfl,by simp,by simp⟩

/-- What the removal of all views leaves: the clicks that go on and the keys no cancel let go. -/
theorem removeViews_spec (views : List BaseButton) (s : ViewManager) : ∃ removed sent,
    views.foldl removeView s = { s with removed := s.removed ++ removed, sent } ∧
      (∀ key, (∃ c ∈ removed, c.clicking = true ∧ key ∈ c.keys s.launcher) ↔
        ∃ b ∈ views, s.clicksOn b = true ∧ key ∈ b.keys s.launcher) ∧
      ∀ key, Held sent key ↔
        Held s.sent key ∧ ∀ b ∈ views, s.cancelled b = true → key ∉ b.keys s.launcher := by
  induction views generalizing s with
  | nil => exact ⟨[],s.sent,by simp,by simp,by simp⟩
  | cons b views ih =>
    obtain ⟨after,sent,same,codes,clicks,held⟩ := removeView_spec s b
    obtain ⟨removed,sent',same',clicks',held'⟩ := ih (s.removeView b)
    have keys : after.keys s.launcher = b.keys s.launcher := by
      rw [BaseButton.keys,codes,BaseButton.keys]
    rw [same] at clicks' held'
    refine ⟨after :: removed,sent',?_,?_,?_⟩
    · rw [List.foldl_cons,same',same]
      simp
    · intro key
      simp only [List.exists_mem_cons_iff,clicks,keys]
      exact or_congr_right (clicks' key)
    · intro key
      rw [held' key]
      simp only [held key,List.forall_mem_cons,not_and]
      rw [and_assoc]
      rfl

end Removal

section Refresh

variable {s : ViewManager}

structure Fresh (b : BaseButton) : Prop where
  isKeeping : b.isKeeping = false
  touched : b.touched = false
  clicking : b.clicking = false
  clickCount : b.clickCount = 0

structure Laid (s : ViewManager) : Prop where
  fresh : ∀ b ∈ s.buttons, Fresh b
  distinct : s.buttons.Pairwise fun b c => b.info.outputKeycode.Disjoint c.info.outputKeycode

/-- Nothing is held, and what is still posted by removed buttons presses nothing. -/
structure Silent (s : ViewManager) : Prop where
  held : Quiet s.sent
  removed : ∀ b ∈ s.removed, b.clicking = true → ∀ key, key ∉ b.keys s.launcher

theorem Laid.steady (laid : Laid s) (silent : Silent s) : Steady s := by
  have none : ∀ i b key, s.Owns i b key → ¬Pressing s.sent b key := by
    intro i b key own pressing
    cases pressing with
    | inl held => exact silent.held key held
    | inr clicking =>
      have fresh := laid.fresh b (List.mem_of_getElem? own.1)
      exact Bool.noConfusion (fresh.clicking.symm.trans clicking)
  refine ⟨?_,silent.removed,?_,?_,?_,?_⟩
  · intro i j b c key own other
    obtain ⟨bound,rfl⟩ := List.getElem?_eq_some_iff.mp own.1
    obtain ⟨bound',rfl⟩ := List.getElem?_eq_some_iff.mp other.1
    have first := (List.mem_filter.mp own.2).1
    have second := (List.mem_filter.mp other.2).1
    rcases Nat.lt_trichotomy i j with less | same | more
    · exact absurd second (List.pairwise_iff_getElem.mp laid.distinct i j bound bound' less first)
    · exact same
    · exact absurd first (List.pairwise_iff_getElem.mp laid.distinct j i bound' bound more second)
  · intro i b found
    have fresh := laid.fresh b (List.mem_of_getElem? found)
    refine ⟨?_,?_,.inl fresh.clickCount⟩
    · intro clicking
      exact Bool.noConfusion (fresh.clicking.symm.trans clicking)
    · intro keeping
      exact Bool.noConfusion (fresh.isKeeping.symm.trans keeping)
  · intro key held
    exact absurd held (silent.held key)
  · intro i b key own pressing
    exact absurd pressing (none i b key own)
  · intro _ i b key own
    exact none i b key own

theorem Laid.noStuck_iff (laid : Laid s) (running : s.crashed = false) :
    NoStuckKey s ↔ Silent s := by
  constructor
  · intro noStuck
    have never : ∀ (timers : List Timer) (key : Int), ¬Held (timers.foldl fire s).sent key := by
      intro timers key held
      obtain ⟨i,b,found,-,-,active⟩ := noStuck running timers key held
      have fresh := laid.fresh b (List.mem_of_getElem? found)
      cases active with
      | inl touched => exact Bool.noConfusion (fresh.touched.symm.trans touched)
      | inr kept => exact Bool.noConfusion (fresh.isKeeping.symm.trans kept.1)
    refine ⟨never [],?_⟩
    intro b removed clicking key inside
    obtain ⟨which,found⟩ := List.mem_iff_getElem?.mp (List.mem_append_right s.buttons removed)
    refine never [.click which] key ?_
    rw [List.foldl_cons,List.foldl_nil,fire,found]
    simp only
    rw [if_pos clicking]
    exact held_pressKeys.mpr (.inl inside)
  · intro silent
    have steady := laid.steady silent
    apply (ViewManager.noStuck_iff steady running).mpr
    intro i b key own pressing
    cases pressing with
    | inl held => exact absurd held (silent.held key)
    | inr clicking =>
      have fresh := laid.fresh b (List.mem_of_getElem? own.1)
      exact Bool.noConfusion (fresh.clicking.symm.trans clicking)

def loads (childLayouts : List ChildLayout) (child : String) (editMode : Bool) : Bool :=
  childLayouts = [] || !editMode || (childLayouts.find? fun layout => layout.name = child).isSome

theorem refreshLayout_frame (childLayouts : List ChildLayout) (child : String) (editMode : Bool)
    (s : ViewManager) :
    (s.refreshLayout childLayouts child editMode).sent = (s.buttons.foldl removeView s).sent ∧
      (s.refreshLayout childLayouts child editMode).removed =
        (s.buttons.foldl removeView s).removed ∧
      (s.refreshLayout childLayouts child editMode).launcher =
        (s.buttons.foldl removeView s).launcher ∧
      (s.refreshLayout childLayouts child editMode).crashed =
        ((s.buttons.foldl removeView s).crashed || !loads childLayouts child editMode) := by
  rw [refreshLayout,loads]
  by_cases empty : childLayouts = []
  · simp [empty]
  · cases editMode with
    | false => simp [empty]
    | true =>
      cases found : childLayouts.find? fun layout => layout.name = child with
      | none => simp [empty]
      | some layout => simp [empty]

theorem loaded_laid {buttons : List BaseButton} {infos : List BaseButtonInfo}
    (fresh : ∀ b ∈ buttons, Fresh b) (loaded : buttons.map BaseButton.info = infos)
    (distinct : infos.Pairwise fun info other =>
      info.outputKeycode.Disjoint other.outputKeycode) : Laid { s with buttons } := by
  subst loaded
  exact ⟨fresh,(List.pairwise_map (f := BaseButton.info)).mp distinct⟩

theorem nothing_laid (s : ViewManager) : Laid { s with buttons := [] } := by
  refine ⟨?_,List.Pairwise.nil⟩
  intro b member
  cases member

theorem loadButton_fresh (visibility : Int) (info : BaseButtonInfo) :
    Fresh (s.loadButton visibility info) := ⟨rfl,rfl,rfl,rfl⟩

theorem loadButtons_fresh (visibility : Int) (infos : List BaseButtonInfo) :
    ∀ b ∈ infos.map (s.loadButton visibility), Fresh b := by
  intro b member
  obtain ⟨info,-,rfl⟩ := List.mem_map.mp member
  exact loadButton_fresh visibility info

theorem loadButtons_info (visibility : Int) (infos : List BaseButtonInfo) :
    (infos.map (s.loadButton visibility)).map BaseButton.info = infos := by
  rw [List.map_map]
  exact List.map_id infos

theorem refreshLayout_laid (childLayouts : ChildList) (child : String) (editMode : Bool) :
    Laid (s.refreshLayout childLayouts.layouts child editMode) := by
  rw [refreshLayout]
  simp only
  split
  · exact nothing_laid _
  · split
    · split
      · exact ⟨(nothing_laid s).fresh,(nothing_laid s).distinct⟩
      · rename_i layout found
        refine loaded_laid (loadButtons_fresh _ _) (loadButtons_info _ _) ?_
        have member := List.mem_of_find?_eq_some found
        refine List.Pairwise.sublist ?_ childLayouts.distinct
        rw [List.flatMap_def]
        exact List.sublist_flatten_of_mem (List.mem_map_of_mem member)
    · refine loaded_laid ?_ ?_ childLayouts.distinct
      · intro b member
        obtain ⟨layout,-,inside⟩ := List.mem_flatMap.mp member
        exact loadButtons_fresh layout.visibility layout.baseButtonList b inside
      · rw [List.map_flatMap]
        congr 1
        funext layout
        exact loadButtons_info layout.visibility layout.baseButtonList

/-- The layout is refreshed while no kept button presses its keys, and for the edit mode, in which a
cancel lets no key go, while no button at all does. -/
def LeavesNone (s : ViewManager) (editMode : Bool) : Prop :=
  ∀ (i : Nat) (b : BaseButton) (key : Int), s.Owns i b key → Pressing s.sent b key →
    b.isKeeping = false ∧ editMode = false

theorem cancelled_iff {b : BaseButton} : s.cancelled b = true ↔
    b.touched = true ∧ s.editMode = false ∧ b.info.functionType = functionTypeTouch ∧
      b.info.autoKeep = false := by
  simp [cancelled,lets,and_assoc]

/-- A button that presses a key gets it let go by its cancel unless it is kept. -/
theorem cancelled_iff_of_pressing (steady : Steady s) {i : Nat} {b : BaseButton} {key : Int}
    (own : s.Owns i b key) (pressing : Pressing s.sent b key) (editMode : Bool) :
    cancelled { s with editMode } b = true ↔ b.isKeeping = false ∧ editMode = false := by
  rw [cancelled_iff]
  constructor
  · rintro ⟨-,editing,-,manual⟩
    refine ⟨?_,editing⟩
    by_contra keeping
    have auto := ((steady.sound i b own.1).keeps (by simpa using keeping)).1
    exact Bool.noConfusion (manual.symm.trans auto)
  · rintro ⟨off,editing⟩
    cases steady.holding i b key own pressing with
    | inl keeping => exact Bool.noConfusion (off.symm.trans keeping)
    | inr touching => exact ⟨touching.1,editing,touching.2⟩

theorem refreshLayout_silent_iff_cancelled (steady : Steady s) (childLayouts : List ChildLayout)
    (child : String) (editMode : Bool) :
    Silent ({ s with editMode }.refreshLayout childLayouts child editMode) ↔
      ∀ i b key, s.Owns i b key → Pressing s.sent b key →
        cancelled { s with editMode } b = true := by
  obtain ⟨sent_eq,removed_eq,launcher_eq,-⟩ :=
    refreshLayout_frame childLayouts child editMode { s with editMode }
  obtain ⟨removed,sent,same,clicks,held⟩ := removeViews_spec s.buttons { s with editMode }
  rw [same] at sent_eq removed_eq launcher_eq
  have launcher : ({ s with editMode }.refreshLayout childLayouts child editMode).launcher =
      s.launcher := launcher_eq
  constructor
  · intro silent i b key own pressing
    by_contra stays
    cases pressing with
    | inl down =>
      refine silent.held key ?_
      rw [sent_eq]
      refine (held key).mpr ⟨down,?_⟩
      intro c member cancels inside
      obtain ⟨j,found⟩ := List.mem_iff_getElem?.mp member
      obtain ⟨-,rfl⟩ := steady.owner own ⟨found,inside⟩
      exact stays cancels
    | inr clicking =>
      have on : clicksOn { s with editMode } b = true := by
        rw [clicksOn,clicking,Bool.eq_false_of_not_eq_true stays]
        rfl
      obtain ⟨c,member,clicking',inside⟩ :=
        (clicks key).mpr ⟨b,List.mem_of_getElem? own.1,on,own.2⟩
      refine silent.removed c ?_ clicking' key ?_
      · rw [removed_eq]
        exact List.mem_append_right _ member
      · rw [launcher]
        exact inside
  · intro cancels
    refine ⟨?_,?_⟩
    · intro key down
      rw [sent_eq] at down
      obtain ⟨before,released⟩ := (held key).mp down
      obtain ⟨i,b,own⟩ := steady.owned key before
      exact released b (List.mem_of_getElem? own.1) (cancels i b key own (.inl before)) own.2
    · intro c member clicking key inside
      rw [removed_eq] at member
      rw [launcher] at inside
      cases List.mem_append.mp member with
      | inl before => exact steady.discarded c before clicking key inside
      | inr now =>
        obtain ⟨b,listed,on,owned⟩ := (clicks key).mp ⟨c,now,clicking,inside⟩
        obtain ⟨i,found⟩ := List.mem_iff_getElem?.mp listed
        unfold clicksOn at on
        obtain ⟨clicking',stays⟩ := Bool.and_eq_true_iff.mp on
        have auto := (steady.sound i b found).clicks clicking'
        rw [cancels i b key ⟨found,owned⟩ (.inr clicking'),auto] at stays
        cases stays

theorem refreshLayout_silent_iff (steady : Steady s) (childLayouts : List ChildLayout)
    (child : String) (editMode : Bool) :
    Silent ({ s with editMode }.refreshLayout childLayouts child editMode) ↔
      s.LeavesNone editMode := by
  rw [refreshLayout_silent_iff_cancelled steady]
  constructor
  · intro cancels i b key own pressing
    exact (cancelled_iff_of_pressing steady own pressing editMode).mp (cancels i b key own pressing)
  · intro leaves i b key own pressing
    exact (cancelled_iff_of_pressing steady own pressing editMode).mpr (leaves i b key own pressing)

end Refresh

section Runs

/-- The steps that strand no key: a touch or the cursor hides no button that presses its keys, and a
refresh of the layout discards none. -/
def Harmless (s : ViewManager) (call : Step) : Prop :=
  s.crashed = false →
    match call with
    | .touch i e => s.HidesNone i e
    | .fire _ => True
    | .enableCursor => s.CursorHidesNone 0
    | .disableCursor => s.CursorHidesNone 1
    | .refreshLayout childLayouts child editMode =>
      loads childLayouts.layouts child editMode = true → s.LeavesNone editMode

def Running (s : ViewManager) : Prop := s.crashed = false → Steady s

theorem fire_crashed (s : ViewManager) (timer : Timer) : (s.fire timer).crashed = s.crashed := by
  cases timer with
  | click which =>
    rw [fire]
    split
    · rfl
    · split <;> rfl
  | text =>
    rw [fire]
    split <;> rfl

theorem crashed_noStuck {s : ViewManager} (crashed : s.crashed = true) : NoStuckKey s := by
  intro running
  exact Bool.noConfusion (crashed.symm.trans running)

theorem hidesNone_of_crashed {s : ViewManager} {i : Nat} {e : ButtonEvent}
    (alive : s.crashed = false) (crashed : (s.touch i e).crashed = true) : s.HidesNone i e := by
  intro b found received acting completed
  rw [touch_eq found received,acting] at crashed
  simp only [if_true,act_crashed,completed,Bool.not_true,Bool.or_false] at crashed
  exact Bool.noConfusion (alive.symm.trans crashed)

theorem refreshLayout_crashed {s : ViewManager} (alive : s.crashed = false)
    (childLayouts : List ChildLayout) (child : String) (editMode : Bool) :
    ({ s with editMode }.refreshLayout childLayouts child editMode).crashed =
      !loads childLayouts child editMode := by
  obtain ⟨removed,sent,same,-⟩ := removeViews_spec s.buttons { s with editMode }
  rw [(refreshLayout_frame childLayouts child editMode { s with editMode }).2.2.2,same,alive]
  rfl

theorem step_of_crashed {s : ViewManager} (crashed : s.crashed = true) (call : Step) :
    s.step call = s := by
  unfold step
  exact if_pos crashed

theorem noStuck_touch_iff {s : ViewManager} (steady : Steady s) (shown : Shown s)
    (alive : s.crashed = false) (i : Nat) (e : ButtonEvent) :
    NoStuckKey (s.touch i e) ↔ s.HidesNone i e := by
  rcases Bool.eq_false_or_eq_true (s.touch i e).crashed with crashed | running
  · exact iff_of_true (crashed_noStuck crashed) (hidesNone_of_crashed alive crashed)
  · rw [← touch_shown_iff steady shown running]
    exact noStuck_iff (touch_steady steady i e) running

theorem noStuck_cursor_iff {s : ViewManager} (steady : Steady s) (alive : s.crashed = false)
    (mode : Int) : NoStuckKey (s.refreshCursor mode) ↔ s.CursorHidesNone mode := by
  rw [← refreshCursor_shown_iff steady]
  exact noStuck_iff ((refreshCursor_redrawn s mode).steady steady) alive

theorem noStuck_fire {s : ViewManager} (steady : Steady s) (shown : Shown s)
    (alive : s.crashed = false) (timer : Timer) : NoStuckKey (s.fire timer) := by
  have redrawn := fire_redrawn steady timer
  apply (noStuck_iff (redrawn.steady steady) ((fire_crashed s timer).trans alive)).mpr
  exact redrawn.shown_of steady (fun _ => rfl) shown

theorem noStuck_refresh_iff {s : ViewManager} (steady : Steady s) (alive : s.crashed = false)
    (childLayouts : ChildList) (child : String) (editMode : Bool) :
    NoStuckKey ({ s with editMode }.refreshLayout childLayouts.layouts child editMode) ↔
      (loads childLayouts.layouts child editMode = true → s.LeavesNone editMode) := by
  have crashed := refreshLayout_crashed alive childLayouts.layouts child editMode
  cases loaded : loads childLayouts.layouts child editMode with
  | false =>
    rw [loaded] at crashed
    exact iff_of_true (crashed_noStuck crashed) (fun no => Bool.noConfusion no)
  | true =>
    rw [loaded] at crashed
    refine Iff.trans ?_ ⟨fun leaves _ => leaves,fun leaves => leaves rfl⟩
    exact ((refreshLayout_laid childLayouts child editMode).noStuck_iff crashed).trans
      (refreshLayout_silent_iff steady childLayouts.layouts child editMode)

theorem noStuck_step_iff (s : ViewManager) (call : Step) (running : Running s)
    (noStuck : NoStuckKey s) : NoStuckKey (s.step call) ↔ s.Harmless call := by
  rcases Bool.eq_false_or_eq_true s.crashed with crashed | alive
  · rw [step_of_crashed crashed]
    exact iff_of_true noStuck (fun alive => Bool.noConfusion (crashed.symm.trans alive))
  · have steady := running alive
    have shown := (noStuck_iff steady alive).mp noStuck
    unfold step Harmless
    rw [if_neg (by simp [alive])]
    refine Iff.trans ?_ ⟨fun harmless _ => harmless,fun harmless => harmless alive⟩
    cases call with
    | touch i e => exact noStuck_touch_iff steady shown alive i e
    | fire timer => exact iff_of_true (noStuck_fire steady shown alive timer) True.intro
    | enableCursor => exact noStuck_cursor_iff steady alive 0
    | disableCursor => exact noStuck_cursor_iff steady alive 1
    | refreshLayout childLayouts child editMode =>
      exact noStuck_refresh_iff steady alive childLayouts child editMode

theorem running_step (s : ViewManager) (call : Step) (running : Running s)
    (harmless : s.Harmless call) : Running (s.step call) := by
  rcases Bool.eq_false_or_eq_true s.crashed with crashed | alive
  · rw [step_of_crashed crashed]
    exact running
  · have steady := running alive
    have harmless := harmless alive
    unfold step
    rw [if_neg (by simp [alive])]
    intro alive'
    cases call with
    | touch i e => exact touch_steady steady i e
    | fire timer => exact (fire_redrawn steady timer).steady steady
    | enableCursor => exact (refreshCursor_redrawn s 0).steady steady
    | disableCursor => exact (refreshCursor_redrawn s 1).steady steady
    | refreshLayout childLayouts child editMode =>
      have crashed := refreshLayout_crashed alive childLayouts.layouts child editMode
      have loaded : loads childLayouts.layouts child editMode = true := by
        simpa using crashed.symm.trans alive'
      have silent := (refreshLayout_silent_iff steady childLayouts.layouts child editMode).mpr
        (harmless loaded)
      exact (refreshLayout_laid childLayouts child editMode).steady silent

/-- A panel just laid out, before anything was sent. -/
structure Untouched (s : ViewManager) : Prop where
  laid : Laid s
  removed : s.removed = []
  sent : s.sent = []

/-- No key is stuck in any state of a run exactly when all its steps are harmless. -/
theorem noStuckKey_throughout_iff (s : ViewManager) (untouched : Untouched s) (steps : List Step) :
    (∀ done rest, steps = done ++ rest → NoStuckKey (done.foldl step s)) ↔
      Along step Harmless s steps := by
  have silent : Silent s := by
    refine ⟨?_,?_⟩
    · rw [untouched.sent]
      exact quiet_nil
    · rw [untouched.removed]
      intro b member
      cases member
  have first : NoStuckKey s := by
    intro running
    exact (untouched.laid.noStuck_iff running).mpr silent running
  exact throughout_iff (fun s call running _ harmless => running_step s call running harmless)
    noStuck_step_iff (fun _ => untouched.laid.steady silent) first steps

def sneak : BaseButtonInfo where
  child := "game"
  showType := 1
  functionType := functionTypeTouch
  autoKeep := true
  autoClick := false
  visibilityControl := []
  outputText := ""
  outputKeycode := [340]

def sneakLayouts : ChildList := ⟨[⟨"game",viewVisible,[sneak]⟩],List.pairwise_singleton _ sneak⟩

def inGame : ViewManager where
  launcher := .boat
  gameCursorMode := 1
  editMode := false
  buttons := []
  removed := []
  typing := 0
  sent := []
  crashed := false

def sneaking : ViewManager := inGame.refreshLayout sneakLayouts.layouts "game" false

theorem untouched_sneaking : Untouched sneaking :=
  ⟨refreshLayout_laid sneakLayouts "game" false,rfl,rfl⟩

def keepAndRefresh : List Step :=
  [.touch 0 ⟨.down,0,["game"]⟩,.touch 0 ⟨.up,100,["game"]⟩,.refreshLayout sneakLayouts "game" false]

theorem noStuckKey_throughout_sneaking :
    (∀ done rest, keepAndRefresh = done ++ rest → NoStuckKey (done.foldl step sneaking)) ↔
      Along step Harmless sneaking keepAndRefresh :=
  noStuckKey_throughout_iff sneaking untouched_sneaking keepAndRefresh

/-- The refreshed layout has a new button that is not kept, and the key stays down. -/
theorem sneak_key_stuck :
    ¬∀ (s : ViewManager) (steps : List Step), Untouched s → NoStuckKey (steps.foldl step s) := by
  intro always
  have noStuck := always sneaking keepAndRefresh untouched_sneaking
  have held : Held (keepAndRefresh.foldl step sneaking).sent 340 := by decide +kernel
  have idle : ∀ b ∈ (keepAndRefresh.foldl step sneaking).buttons,
      b.touched = false ∧ b.isKeeping = false := by decide +kernel
  obtain ⟨i,b,found,-,-,active⟩ := noStuck (by decide +kernel) [] 340 held
  obtain ⟨untouched,off⟩ := idle b (List.mem_of_getElem? found)
  cases active with
  | inl touched => exact Bool.noConfusion (untouched.symm.trans touched)
  | inr kept => exact Bool.noConfusion (off.symm.trans kept.1)

end Runs

end HmclPe.Control.ViewManager
