import HmclPe.Control.InputBridge
import HmclPe.Lib.Runs
import HmclPe.Versioning.VersionNumber

/-! The hidden input field of the soft keyboard, whose changes are typed into the game's text
field. The game edits its field at the end only. -/
namespace HmclPe.Control
open HmclPe.Lib.Runs HmclPe.Versioning

/-- What the sender asks of the bridges: the first of the boat, the others of pojav. -/
inductive BridgeCall where
  | setKey (keyCode : Nat) (keyChar : CodeUnit) (press : Bool)
  | sendKeycode (keyCode : Nat) (keyChar : CodeUnit) (press : Bool)
  | sendChar (keyChar : CodeUnit)
  deriving DecidableEq, Repr

namespace LwjglCharSender

def keyBackspace : Nat := 14
def glfwKeyBackspace : Nat := 259
def backspaceChar : CodeUnit := ⟨8,by decide⟩

def sendBackspace : Launcher → List BridgeCall
  | .boat => [.setKey keyBackspace backspaceChar true,.setKey keyBackspace backspaceChar false]
  | .pojav => [.sendKeycode glfwKeyBackspace backspaceChar true,
      .sendKeycode glfwKeyBackspace backspaceChar false]

def sendChar (launcher : Launcher) (character : CodeUnit) : List BridgeCall :=
  match launcher with
  | .boat => [.setKey 0 character true,.setKey 0 character false]
  | .pojav => [.sendChar character]

end LwjglCharSender

namespace TouchCharInput
open LwjglCharSender

/-- The text is the one after the change; without sender nothing is sent. -/
def onTextChanged (mIsDoingInternalChanges : Bool) (mCharacterSender : Option Launcher)
    (text : JavaString) (start lengthBefore lengthAfter : Nat) : List BridgeCall :=
  match mIsDoingInternalChanges,mCharacterSender with
  | false,some launcher =>
    (List.replicate lengthBefore (sendBackspace launcher)).flatten ++
      ((List.range lengthAfter).filterMap fun count => text[start + count]?).flatMap
        (sendChar launcher)
  | _,_ => []

/-- The thirty blanks the field is reset to. -/
def blanks : JavaString := List.replicate 30 ⟨32,by decide⟩

/-- Replaces `lengthBefore` characters from `start` by others. -/
structure Edit where
  start : Nat
  lengthBefore : Nat
  inserted : JavaString

def Edit.apply (edit : Edit) (text : JavaString) : JavaString :=
  text.take edit.start ++ edit.inserted ++ text.drop (edit.start + edit.lengthBefore)

/-! ## The game's field -/

/-- A pressed backspace takes the last character away, a typed character is put at the end. -/
def receive (field : JavaString) : BridgeCall → JavaString
  | .setKey keyCode keyChar press =>
    if press then
      if keyCode = keyBackspace then field.dropLast
      else if keyCode = 0 then field ++ [keyChar] else field
    else field
  | .sendKeycode keyCode _ press =>
    if press ∧ keyCode = glfwKeyBackspace then field.dropLast else field
  | .sendChar keyChar => field ++ [keyChar]

structure State where
  text : JavaString
  field : JavaString

/-- An emptied field is reset by `clear`, whose own change is not sent. -/
def step (launcher : Launcher) (s : State) (edit : Edit) : State :=
  let text := edit.apply s.text
  let sent := onTextChanged false (some launcher) text edit.start edit.lengthBefore
    edit.inserted.length
  let reset := onTextChanged true (some launcher) blanks 0 text.length blanks.length
  if text.length < 1 then ⟨blanks,(sent ++ reset).foldl receive s.field⟩
  else ⟨text,sent.foldl receive s.field⟩

/-- The edit replaces a range of the text and leaves some text. -/
def LeavesText (s : State) (edit : Edit) : Prop :=
  edit.start + edit.lengthBefore ≤ s.text.length ∧ edit.apply s.text ≠ []

def Mirrors (P : JavaString) (s : State) : Prop := s.field = P ++ s.text

/-- What stands behind the replaced range. -/
def Edit.rest (edit : Edit) (text : JavaString) : JavaString :=
  text.drop (edit.start + edit.lengthBefore)

/-- As many characters as stand behind the range, taken from its start. -/
def Edit.kept (edit : Edit) (text : JavaString) : JavaString :=
  (text.drop edit.start).take (edit.rest text).length

/-- Typing at the end of what is kept is typing before what stands behind. -/
def Commutes (s : State) (edit : Edit) : Prop :=
  edit.kept s.text ++ edit.inserted = edit.inserted ++ edit.rest s.text

/-! ## What one edit does to the game's field -/

theorem receive_backspaces (launcher : Launcher) (field removed : JavaString) :
    (List.replicate removed.length (sendBackspace launcher)).flatten.foldl receive
      (field ++ removed) = field := by
  induction removed using List.reverseRecOn with
  | nil => simp
  | append_singleton removed c ih =>
    have one : (sendBackspace launcher).foldl receive (field ++ (removed ++ [c])) =
        field ++ removed := by
      rw [← List.append_assoc]
      cases launcher <;> simp [sendBackspace,receive]
    rw [List.length_append,List.length_singleton,List.replicate_succ,List.flatten_cons,
      List.foldl_append,one,ih]

theorem receive_chars (launcher : Launcher) (field typed : JavaString) :
    (typed.flatMap (sendChar launcher)).foldl receive field = field ++ typed := by
  induction typed generalizing field with
  | nil => simp
  | cons c typed ih =>
    have one : (sendChar launcher c).foldl receive field = field ++ [c] := by
      cases launcher <;> simp [sendChar,receive,keyBackspace]
    rw [List.flatMap_cons,List.foldl_append,one,ih,List.append_assoc,List.singleton_append]

theorem filterMap_range_getElem? (l : JavaString) :
    (List.range l.length).filterMap (fun i => l[i]?) = l := by
  induction l using List.reverseRecOn with
  | nil => rfl
  | append_singleton l c ih =>
    have inside : ∀ i ∈ List.range l.length, (l ++ [c])[i]? = l[i]? := by
      intro i member
      exact List.getElem?_append_left (List.mem_range.mp member)
    have before := List.filterMap_congr inside
    rw [List.length_append,List.length_singleton,List.range_succ,List.filterMap_append,before,ih]
    simp

/-- The loop over the new characters reads what was inserted. -/
theorem typed_eq (before inserted rest : JavaString) :
    (List.range inserted.length).filterMap
      (fun count => (before ++ inserted ++ rest)[before.length + count]?) = inserted := by
  have inside : ∀ count ∈ List.range inserted.length,
      (before ++ inserted ++ rest)[before.length + count]? = inserted[count]? := by
    intro count member
    rw [List.append_assoc,List.getElem?_append_right (by omega),Nat.add_sub_cancel_left,
      List.getElem?_append_left (List.mem_range.mp member)]
  rw [List.filterMap_congr inside,filterMap_range_getElem?]

/-- The game's field loses as many characters as were replaced, at its end. -/
theorem receive_onTextChanged (launcher : Launcher) (P : JavaString) {text : JavaString}
    {edit : Edit} (inside : edit.start + edit.lengthBefore ≤ text.length) :
    (onTextChanged false (some launcher) (edit.apply text) edit.start edit.lengthBefore
      edit.inserted.length).foldl receive (P ++ text) =
    P ++ text.take (text.length - edit.lengthBefore) ++ edit.inserted := by
  have start : (text.take edit.start).length = edit.start := by
    rw [List.length_take,Nat.min_eq_left (by omega)]
  have typed := typed_eq (text.take edit.start) edit.inserted
    (text.drop (edit.start + edit.lengthBefore))
  rw [start] at typed
  have removed : (text.drop (text.length - edit.lengthBefore)).length = edit.lengthBefore := by
    rw [List.length_drop]
    omega
  have taken := receive_backspaces launcher (P ++ text.take (text.length - edit.lengthBefore))
    (text.drop (text.length - edit.lengthBefore))
  rw [removed,List.append_assoc,List.take_append_drop] at taken
  simp only [onTextChanged,Edit.apply]
  rw [List.foldl_append,taken,typed,receive_chars]

theorem take_kept {text : JavaString} {edit : Edit}
    (inside : edit.start + edit.lengthBefore ≤ text.length) :
    text.take (text.length - edit.lengthBefore) = text.take edit.start ++ edit.kept text := by
  have cut : text.length - edit.lengthBefore =
      edit.start + (text.length - (edit.start + edit.lengthBefore)) := by omega
  rw [Edit.kept,Edit.rest,List.length_drop,cut,List.take_add]

theorem step_leaves (launcher : Launcher) {s : State} {edit : Edit}
    (leaves : LeavesText s edit) :
    step launcher s edit = ⟨edit.apply s.text,
      (onTextChanged false (some launcher) (edit.apply s.text) edit.start edit.lengthBefore
        edit.inserted.length).foldl receive s.field⟩ := by
  have some_ : ¬ (edit.apply s.text).length < 1 := by
    have positive := List.length_pos_iff.mpr leaves.2
    omega
  simp only [step]
  rw [if_neg some_]

/-- The game's field follows an edit exactly when the edit could have been made at the end. -/
theorem mirrors_step_iff (launcher : Launcher) (P : JavaString) {s : State} {edit : Edit}
    (leaves : LeavesText s edit) (mirrors : Mirrors P s) :
    Mirrors P (step launcher s edit) ↔ Commutes s edit := by
  rw [step_leaves launcher leaves,Mirrors,mirrors,receive_onTextChanged launcher P leaves.1,
    take_kept leaves.1,Edit.apply,List.append_assoc,List.append_assoc,List.append_assoc,
    List.append_cancel_left_eq,List.append_cancel_left_eq,Commutes,Edit.rest]

theorem commutes_at_end {s : State} {edit : Edit}
    (atEnd : edit.start + edit.lengthBefore = s.text.length) : Commutes s edit := by
  have nothing : edit.rest s.text = [] := by
    rw [Edit.rest,atEnd,List.drop_length]
  rw [Commutes,Edit.kept,nothing,List.length_nil,List.take_zero,List.nil_append,List.append_nil]

/-- Along any edits the game's field holds the same text exactly when each of them could have
been made at the end. -/
theorem mirrors_throughout_iff (launcher : Launcher) (P text : JavaString) (edits : List Edit)
    (leaves : Along (step launcher) LeavesText ⟨text,P ++ text⟩ edits) :
    (∀ done rest, edits = done ++ rest →
      Mirrors P (done.foldl (step launcher) ⟨text,P ++ text⟩)) ↔
    Along (step launcher) Commutes ⟨text,P ++ text⟩ edits := by
  have starts : Mirrors P ⟨text,P ++ text⟩ := rfl
  have stays : ∀ s edit, True → Mirrors P s → LeavesText s edit → Commutes s edit → True := by
    intros
    exact True.intro
  have keeps : ∀ s edit, True → Mirrors P s → LeavesText s edit →
      (Mirrors P (step launcher s edit) ↔ Commutes s edit) := by
    intro s edit _ mirrors admitted
    exact mirrors_step_iff launcher P admitted mirrors
  exact admitted_throughout_iff stays keeps True.intro starts leaves

def letterA : CodeUnit := ⟨97,by decide⟩
def letterB : CodeUnit := ⟨98,by decide⟩

theorem mirrors_typed :
    Mirrors [letterB] ([⟨1,0,[letterB]⟩].foldl (step .pojav) ⟨[letterA],[letterB] ++ [letterA]⟩) :=
  (mirrors_throughout_iff .pojav [letterB] [letterA] [⟨1,0,[letterB]⟩] ⟨⟨by decide,by decide⟩,True.intro⟩).mpr
    ⟨commutes_at_end rfl,True.intro⟩ _ [] rfl

/-- A character typed before the others lands behind them. -/
theorem not_mirrors_inserted :
    LeavesText ⟨[letterA],[letterA]⟩ ⟨0,0,[letterB]⟩ ∧
    ¬ Mirrors [] (step .boat ⟨[letterA],[letterA]⟩ ⟨0,0,[letterB]⟩) :=
  ⟨⟨by decide,by decide⟩,by rw [Mirrors]; decide⟩

end TouchCharInput
end HmclPe.Control
