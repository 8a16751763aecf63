import HmclPe.Control.BaseButton
import HmclPe.Java.ArrayList

/-! The child layouts a button shows and hides. Names of layouts that no longer exist are removed
from the button's list while it is iterated. -/
namespace HmclPe.Control.VisibilityControl
open HmclPe.Java HmclPe.Java.ArrayList

/-- What buttons and rockers share: the layout they belong to and whether they are shown. -/
structure ChildView where
  child : String
  showType : Int
  isShowing : Bool
  visible : Bool
  deriving DecidableEq, Repr

inductive PanelView where
  | button (view : ChildView)
  | rocker (view : ChildView)
  | other
  deriving DecidableEq, Repr

/-- Outside the edit mode, in which a touch moves the button instead. -/
def ChildView.setIsShowing (gameCursorMode : Int) (isShowing : Bool) (v : ChildView) : ChildView :=
  { v with isShowing, visible := isShowing && ViewManager.shows gameCursorMode v.showType }

def ChildView.toggled (gameCursorMode : Int) (v : ChildView) : ChildView :=
  v.setIsShowing gameCursorMode (!v.isShowing)

namespace PanelView

def child : PanelView → Option String
  | .button v => some v.child
  | .rocker v => some v.child
  | .other => none

def isShowing : PanelView → Bool
  | .button v => v.isShowing
  | .rocker v => v.isShowing
  | .other => false

def toggled (gameCursorMode : Int) : PanelView → PanelView
  | .button v => .button (v.toggled gameCursorMode)
  | .rocker v => .rocker (v.toggled gameCursorMode)
  | .other => .other

end PanelView

/-- The panel's views and the list of the touched button. -/
structure State where
  views : List PanelView
  visibilityControl : ArrayList String
  deriving DecidableEq, Repr

def setChildVisibility (gameCursorMode : Int) (child : String) (views : List PanelView) :
    List PanelView :=
  views.map fun view => if view.child = some child then view.toggled gameCursorMode else view

/-- A turn of the loop; outside the edit mode nothing is saved. -/
def turn (gameCursorMode : Int) (childNames : List String) (s : State) (child : String) : State :=
  if childNames.contains child then
    { s with views := setChildVisibility gameCursorMode child s.views }
  else { s with visibilityControl := s.visibilityControl.remove child }

def controlVisibility (library : ClassLibrary) (gameCursorMode : Int) (childNames : List String)
    (s : State) : Outcome State :=
  forEach library State.visibilityControl (turn gameCursorMode childNames) s

/-- A touch of a button, as far as the layouts it controls go: a tap of one kind of button, the
second tap of a double click of the other. -/
def touch (library : ClassLibrary) (gameCursorMode : Int) (e : ButtonEvent) (b : BaseButton)
    (views : List PanelView) : Outcome State :=
  let s := ⟨views,⟨b.info.visibilityControl,0⟩⟩
  if b.acts false e then controlVisibility library gameCursorMode e.childNames s else .done s

/-! ## What a tap is for -/

/-- How often a tap toggles the views of a layout. -/
def times (childNames names : List String) (view : PanelView) : Nat :=
  match view.child with
  | some child => if childNames.contains child then names.count child else 0
  | none => 0

structure Controls (gameCursorMode : Int) (childNames names : List String)
    (views : List PanelView) (outcome : Outcome State) (s : State) : Prop where
  completes : outcome = .done s
  kept : s.visibilityControl.elements = names.filter childNames.contains
  toggles : s.views =
    views.map fun view => (PanelView.toggled gameCursorMode)^[times childNames names view] view

/-- No name is stale, or the removal of the only one does not spoil the iteration: on Android it is
the last, on OpenJDK the one before a last name whose layout has no view. -/
def Harmless (library : ClassLibrary) (childNames names : List String) (views : List PanelView) : Prop :=
  (∀ child ∈ names, child ∈ childNames) ∨
    match library with
    | .android => ∃ init stale, names = init ++ [stale] ∧ ∀ child ∈ init, child ∈ childNames
    | .openjdk => ∃ init stale last, names = init ++ [stale,last] ∧
        (∀ child ∈ init, child ∈ childNames) ∧ last ∈ childNames ∧
        ∀ view ∈ views, view.child ≠ some last

/-! ## Toggling -/

section Toggling

variable {gameCursorMode : Int} {childNames : List String}

@[simp] theorem child_toggled (view : PanelView) : (view.toggled gameCursorMode).child = view.child := by
  cases view <;> rfl

theorem isShowing_toggled {view : PanelView} {child : String} (of : view.child = some child) :
    (view.toggled gameCursorMode).isShowing = !view.isShowing := by
  cases view with
  | button v => rfl
  | rocker v => rfl
  | other => cases of

theorem foldl_setChildVisibility (names : List String) (views : List PanelView) :
    names.foldl (fun views child => setChildVisibility gameCursorMode child views) views =
      views.map fun view =>
        (PanelView.toggled gameCursorMode)^[names.countP fun child => view.child = some child]
          view := by
  induction names generalizing views with
  | nil => simp
  | cons child names ih =>
    rw [List.foldl_cons,ih,setChildVisibility,List.map_map]
    apply List.map_congr_left
    intro view _
    simp only [Function.comp_apply]
    by_cases of : view.child = some child
    · rw [if_pos of,child_toggled,List.countP_cons_of_pos (by simpa using of),
        Function.iterate_succ_apply]
    · rw [if_neg of,List.countP_cons_of_neg (by simpa using of)]

theorem child_iterate (k : Nat) (view : PanelView) :
    ((PanelView.toggled gameCursorMode)^[k] view).child = view.child := by
  induction k generalizing view with
  | zero => rfl
  | succ k ih => rw [Function.iterate_succ_apply,ih,child_toggled]

/-- One toggle more is seen. -/
theorem iterate_succ_ne {view : PanelView} {child : String} (of : view.child = some child)
    (k : Nat) : (PanelView.toggled gameCursorMode)^[k + 1] view ≠
      (PanelView.toggled gameCursorMode)^[k] view := by
  intro same
  have shown := congrArg PanelView.isShowing same
  rw [Function.iterate_succ_apply',isShowing_toggled ((child_iterate k view).trans of)] at shown
  exact Bool.not_ne_self _ shown

theorem times_eq (names : List String) (view : PanelView) :
    times childNames names view =
      (names.filter childNames.contains).countP fun child => view.child = some child := by
  cases of : view.child with
  | none => simp [times,of]
  | some child =>
    rw [List.countP_filter]
    simp only [times,of]
    split
    case isTrue known =>
      rw [List.count]
      apply List.countP_congr
      intro name _
      simp only [beq_iff_eq,Option.some.injEq,Bool.and_eq_true,decide_eq_true_eq]
      constructor
      · rintro rfl
        exact ⟨rfl,known⟩
      · rintro ⟨rfl,-⟩
        rfl
    case isFalse unknown =>
      symm
      rw [List.countP_eq_zero]
      intro name _
      simp only [Option.some.injEq,Bool.and_eq_true,decide_eq_true_eq]
      rintro ⟨rfl,known⟩
      exact unknown known

end Toggling

/-! ## How the loop ends -/

section Loop

variable {library : ClassLibrary} {gameCursorMode : Int} {childNames names : List String}
  {views : List PanelView} {modCount : Nat}

theorem turn_known {s : State} {child : String} (known : child ∈ childNames) :
    turn gameCursorMode childNames s child =
      { s with views := setChildVisibility gameCursorMode child s.views } := by
  rw [turn,if_pos (by simpa using known)]

theorem filter_known (known : ∀ child ∈ names, child ∈ childNames) :
    names.filter childNames.contains = names := by
  rw [List.filter_eq_self]
  intro child member
  simpa using known child member

theorem foldl_turn (known : ∀ child ∈ names, child ∈ childNames) (s : State) :
    names.foldl (turn gameCursorMode childNames) s =
      { s with views := s.views.map fun view =>
        (PanelView.toggled gameCursorMode)^[times childNames names view] view } := by
  simp only [times_eq,filter_known known]
  rw [← foldl_setChildVisibility]
  induction names generalizing s with
  | nil => rfl
  | cons child names ih =>
    rw [List.foldl_cons,List.foldl_cons,turn_known (known child (by simp)),
      ih fun name member => known name (by simp [member])]

theorem keeps_known (s : State) (child : String) (known : child ∈ childNames)
    {l : ArrayList String} (same : s.visibilityControl = l) :
    (turn gameCursorMode childNames s child).visibilityControl = l := by
  rw [turn_known known]
  exact same

theorem controlVisibility_known (known : ∀ child ∈ names, child ∈ childNames) :
    controlVisibility library gameCursorMode childNames ⟨views,⟨names,modCount⟩⟩ =
      .done ⟨views.map fun view =>
        (PanelView.toggled gameCursorMode)^[times childNames names view] view,
        ⟨names,modCount⟩⟩ := by
  rw [controlVisibility,forEach_calm (fun s child known same => keeps_known s child known same)
    known rfl,foldl_turn known]

theorem controlVisibility_stale {init rest : List String} {stale : String}
    (cut : names = init ++ stale :: rest) (known : ∀ child ∈ init, child ∈ childNames)
    (unknown : stale ∉ childNames) :
    controlVisibility library gameCursorMode childNames ⟨views,⟨names,modCount⟩⟩ =
      let s := ⟨views.map fun view =>
        (PanelView.toggled gameCursorMode)^[times childNames init view] view,
        ⟨init ++ rest,modCount + 1⟩⟩
      if endsAfterRemoval library rest then .done s else .thrown s := by
  have absent : stale ∉ init := fun member => unknown (known stale member)
  have removes : turn gameCursorMode childNames
      (init.foldl (turn gameCursorMode childNames) ⟨views,⟨names,modCount⟩⟩) stale =
      ⟨views.map fun view => (PanelView.toggled gameCursorMode)^[times childNames init view] view,
        ⟨init ++ rest,modCount + 1⟩⟩ := by
    have present : names.contains stale = true := by simp [cut]
    have erased : names.erase stale = init ++ rest := by
      rw [cut,List.erase_append_right _ absent,List.erase_cons_head]
    rw [foldl_turn known,turn,if_neg (by simpa using unknown),ArrayList.remove,if_pos present,
      erased]
  exact @forEach_removal String State library State.visibilityControl _ ⟨names,modCount⟩
    (· ∈ childNames) (fun s child known same => keeps_known s child known same) init rest stale cut
    known ⟨views,⟨names,modCount⟩⟩ _ rfl removes (by simp) (by simp)

theorem first_stale (some_ : ¬ ∀ child ∈ names, child ∈ childNames) :
    ∃ init stale rest, names = init ++ stale :: rest ∧ (∀ child ∈ init, child ∈ childNames) ∧
      stale ∉ childNames := by
  induction names with
  | nil => exact absurd (fun child member => absurd member List.not_mem_nil) some_
  | cons name names ih =>
    by_cases known : name ∈ childNames
    · have later : ¬ ∀ child ∈ names, child ∈ childNames := by
        intro all
        exact some_ (List.forall_mem_cons.mpr ⟨known,all⟩)
      obtain ⟨init,stale,rest,rfl,each,unknown⟩ := ih later
      exact ⟨name :: init,stale,rest,rfl,List.forall_mem_cons.mpr ⟨known,each⟩,unknown⟩
    · exact ⟨[],name,names,rfl,by simp,known⟩

/-- A list cut behind known names is cut before its first stale one. -/
theorem cut_before {init rest init' tail : List String} {stale : String}
    (same : init ++ stale :: rest = init' ++ tail) (known : ∀ child ∈ init', child ∈ childNames)
    (unknown : stale ∉ childNames) : ∃ mid, tail = mid ++ stale :: rest ∧ init = init' ++ mid := by
  rcases List.append_eq_append_iff.mp same with ⟨mid,first,second⟩ | ⟨mid,first,second⟩
  · cases mid with
    | nil => exact ⟨[],by simpa using second.symm,by simpa using first.symm⟩
    | cons name mid =>
      obtain ⟨rfl,-⟩ := List.cons.inj second
      exact absurd (known stale (by simp [first])) unknown
  · exact ⟨mid,second,first⟩

theorem rest_of_ended {rest : List String} (ended : endsAfterRemoval library rest = true) :
    rest = [] ∨ ∃ last, rest = [last] := by
  cases library with
  | openjdk =>
    right
    exact List.length_eq_one_iff.mp (by simpa [endsAfterRemoval] using ended)
  | android =>
    left
    simpa [endsAfterRemoval] using ended

/-- The views of a name that was left out can not be as they should be. -/
theorem last_unseen {init : List String} {last : String}
    (known : ∀ child ∈ init, child ∈ childNames)
    (filtered : names.filter childNames.contains = init ++ [last])
    (toggles : (views.map fun view =>
        (PanelView.toggled gameCursorMode)^[times childNames init view] view) =
      views.map fun view => (PanelView.toggled gameCursorMode)^[times childNames names view] view)
    {view : PanelView} (inside : view ∈ views) : view.child ≠ some last := by
  intro of
  have same := List.map_inj_left.mp toggles view inside
  have one : [last].countP (fun name => view.child = some name) = 1 := by simp [of]
  rw [times_eq,times_eq,filtered,filter_known known,List.countP_append,one] at same
  exact iterate_succ_ne of _ same.symm

/-- With a stale name the loop has to end right after its removal and to have nothing left to do. -/
theorem controls_stale_iff {init rest : List String} {stale : String}
    (cut : names = init ++ stale :: rest) (known : ∀ child ∈ init, child ∈ childNames)
    (unknown : stale ∉ childNames) :
    (∃ s, Controls gameCursorMode childNames names views
      (controlVisibility library gameCursorMode childNames ⟨views,⟨names,modCount⟩⟩) s) ↔
    endsAfterRemoval library rest = true ∧
      ∀ child ∈ rest, child ∈ childNames ∧ ∀ view ∈ views, view.child ≠ some child := by
  have filtered : names.filter childNames.contains =
      init ++ rest.filter childNames.contains := by
    rw [cut,List.filter_append,filter_known known,
      List.filter_cons_of_neg (by simpa using unknown)]
  have ends := @controlVisibility_stale library gameCursorMode childNames names views modCount
    init rest stale cut known unknown
  constructor
  · rintro ⟨s,completes,kept,toggles⟩
    rw [ends] at completes
    cases ended : endsAfterRemoval library rest with
    | false =>
      rw [ended] at completes
      cases completes
    | true =>
      rw [ended] at completes
      obtain rfl := (Outcome.done.inj completes).symm
      refine ⟨rfl,?_⟩
      rw [filtered,List.append_cancel_left_eq] at kept
      rcases rest_of_ended ended with rfl | ⟨last,rfl⟩
      · intro child member
        cases member
      · intro child member
        obtain rfl := List.mem_singleton.mp member
        have lastKnown : child ∈ childNames := by
          by_contra missing
          rw [List.filter_cons_of_neg (by simpa using missing)] at kept
          cases kept
        rw [← kept] at filtered
        exact ⟨lastKnown,fun view inside => last_unseen known filtered toggles inside⟩
  · rintro ⟨ended,later⟩
    have kept : rest.filter childNames.contains = rest :=
      filter_known fun child member => (later child member).1
    rw [ended] at ends
    refine ⟨_,ends,?_,?_⟩
    · rw [filtered,kept]
    · apply List.map_congr_left
      intro view inside
      have none_ : rest.countP (fun child => view.child = some child) = 0 := by
        rw [List.countP_eq_zero]
        intro child member
        simpa using (later child member).2 view inside
      rw [times_eq,times_eq,filtered,filter_known known,kept,List.countP_append,none_,Nat.add_zero]

/-- Behind a stale name there is only the last one of two. -/
theorem rest_of_two {mid rest : List String} {stale first last : String}
    (tail : [first,last] = mid ++ stale :: rest) (lastKnown : last ∈ childNames)
    (unknown : stale ∉ childNames) : rest = [last] := by
  cases mid with
  | nil => exact (List.cons.inj tail).2.symm
  | cons name mid =>
    obtain ⟨-,later⟩ := List.cons.inj tail
    cases mid with
    | nil =>
      obtain ⟨rfl,-⟩ := List.cons.inj later
      exact absurd lastKnown unknown
    | cons other mid =>
      have length := congrArg List.length later
      simp at length

theorem harmless_stale_iff {init rest : List String} {stale : String}
    (cut : names = init ++ stale :: rest) (known : ∀ child ∈ init, child ∈ childNames)
    (unknown : stale ∉ childNames) :
    Harmless library childNames names views ↔ endsAfterRemoval library rest = true ∧
      ∀ child ∈ rest, child ∈ childNames ∧ ∀ view ∈ views, view.child ≠ some child := by
  have some_ : ¬ ∀ child ∈ names, child ∈ childNames :=
    fun all => unknown (all stale (by simp [cut]))
  unfold Harmless
  rw [or_iff_right some_]
  cases library with
  | android =>
    constructor
    · rintro ⟨init',stale',cut',known'⟩
      obtain ⟨mid,tail,-⟩ := cut_before (cut.symm.trans cut') known' unknown
      have ended : rest = [] := by
        have length := congrArg List.length tail
        simp at length
        exact List.eq_nil_of_length_eq_zero (by omega)
      subst ended
      exact ⟨rfl,by simp⟩
    · rintro ⟨ended,-⟩
      obtain rfl : rest = [] := by simpa [endsAfterRemoval] using ended
      exact ⟨init,stale,cut,known⟩
  | openjdk =>
    constructor
    · rintro ⟨init',stale',last,cut',known',lastKnown,noView⟩
      obtain ⟨mid,tail,-⟩ := cut_before (cut.symm.trans cut') known' unknown
      obtain rfl := rest_of_two tail lastKnown unknown
      refine ⟨rfl,?_⟩
      intro child member
      obtain rfl := List.mem_singleton.mp member
      exact ⟨lastKnown,noView⟩
    · rintro ⟨ended,later⟩
      obtain ⟨last,rfl⟩ := List.length_eq_one_iff.mp (by simpa [endsAfterRemoval] using ended)
      obtain ⟨lastKnown,noView⟩ := later last (by simp)
      exact ⟨init,stale,last,cut,known,lastKnown,noView⟩

open ViewManager in
theorem controlled_known (known : ∀ child ∈ names, child ∈ childNames) :
    controlled childNames names = (names,true) := by
  induction names with
  | nil => rfl
  | cons child names ih =>
    obtain ⟨here,later⟩ := List.forall_mem_cons.mp known
    rw [controlled,if_pos here,ih later]

open ViewManager in
theorem controlled_stale {init rest : List String} {stale : String}
    (known : ∀ child ∈ init, child ∈ childNames) (unknown : stale ∉ childNames) :
    controlled childNames (init ++ stale :: rest) = (init,rest.isEmpty) := by
  induction init with
  | nil => rw [List.nil_append,controlled,if_neg unknown]
  | cons child init ih =>
    obtain ⟨here,later⟩ := List.forall_mem_cons.mp known
    rw [List.cons_append,controlled,if_pos here,ih later]

/-- On Android the loop toggles the layouts of `controlled`, and fails where that says so. -/
theorem controlVisibility_controlled : ∃ kept,
    controlVisibility .android gameCursorMode childNames ⟨views,⟨names,modCount⟩⟩ =
      let toggles := ViewManager.controlled childNames names
      let s := ⟨toggles.1.foldl (fun views child => setChildVisibility gameCursorMode child views)
        views,kept⟩
      if toggles.2 then .done s else .thrown s := by
  by_cases all : ∀ child ∈ names, child ∈ childNames
  · refine ⟨⟨names,modCount⟩,?_⟩
    rw [controlVisibility_known all,controlled_known all]
    simp only [foldl_setChildVisibility,times_eq,filter_known all]
    rfl
  · obtain ⟨init,stale,rest,cut,known,unknown⟩ := first_stale all
    refine ⟨⟨init ++ rest,modCount + 1⟩,?_⟩
    rw [controlVisibility_stale cut known unknown,cut,controlled_stale known unknown]
    simp only [foldl_setChildVisibility,times_eq,filter_known known]
    rfl

theorem controls_controlVisibility_iff :
    (∃ s, Controls gameCursorMode childNames names views
      (controlVisibility library gameCursorMode childNames ⟨views,⟨names,modCount⟩⟩) s) ↔
    Harmless library childNames names views := by
  by_cases all : ∀ child ∈ names, child ∈ childNames
  · constructor
    · intro _
      exact .inl all
    · intro _
      exact ⟨_,controlVisibility_known all,(filter_known all).symm,rfl⟩
  · obtain ⟨init,stale,rest,cut,known,unknown⟩ := first_stale all
    rw [controls_stale_iff cut known unknown,harmless_stale_iff cut known unknown]

end Loop

/-- A tap or double click does to the layouts what the button's list says exactly when the list is
harmless. -/
theorem controls_touch_iff (library : ClassLibrary) (gameCursorMode : Int) (e : ButtonEvent)
    (b : BaseButton) (views : List PanelView) (acts : b.acts false e = true) :
    (∃ s, Controls gameCursorMode e.childNames b.info.visibilityControl views
      (touch library gameCursorMode e b views) s) ↔
    Harmless library e.childNames b.info.visibilityControl views := by
  rw [touch,if_pos acts]
  exact controls_controlVisibility_iff

def button (visibilityControl : List String) : BaseButton where
  info := ⟨"here",0,functionTypeTouch,false,false,visibilityControl,"",[]⟩
  isKeeping := false
  isShowing := true
  visible := true
  clickCount := 0
  firstClickTime := 0
  clicking := false
  touched := false

def tapped : ButtonEvent := ⟨.down,0,["here"]⟩

def view : PanelView := .button ⟨"here",0,true,true⟩

theorem controls_touch_here :
    ∃ s, Controls 0 ["here"] ["here"] [view] (touch .android 0 tapped (button ["here"]) [view]) s :=
  (controls_touch_iff .android 0 tapped (button ["here"]) [view] rfl).mpr
    (.inl fun _ member => member)

/-- The removal of a first name stops the loop, so the second is not toggled. -/
theorem not_controls_gone :
    (¬ ∃ s, Controls 0 ["here"] ["gone","here"] [view]
      (touch .android 0 tapped (button ["gone","here"]) [view]) s) ∧
    ¬ ∃ s, Controls 0 ["here"] ["gone","here"] [view]
      (touch .openjdk 0 tapped (button ["gone","here"]) [view]) s := by
  have cut : ["gone","here"] = [] ++ "gone" :: ["here"] := rfl
  have unknown : "gone" ∉ ["here"] := by decide
  have acts : (button ["gone","here"]).acts false tapped = true := rfl
  constructor
  · rw [touch,if_pos acts]
    intro controls
    have ended := ((controls_stale_iff cut (by simp) unknown).mp controls).1
    cases ended
  · rw [touch,if_pos acts]
    intro controls
    have noView := ((controls_stale_iff cut (by simp) unknown).mp controls).2 "here" (by simp)
    exact noView.2 view (by simp) rfl

end HmclPe.Control.VisibilityControl
