import HmclPe.Mods.ModManager

/-! The mod objects of the list. An object keeps whether its mod is active and where its file is;
both are copies of what the name on the disk says, made at different moments. -/
namespace HmclPe.Mods
open HmclPe.Java HmclPe.Lib.Moving HmclPe.Lib.Runs ModManager

/-- What the name of an accepted file carries behind the name of the mod. -/
inductive Mark where
  | plain | disabled | old
  deriving DecidableEq, Repr

def Mark.suffix : Mark → Text
  | .plain => []
  | .disabled => disabledExtension
  | .old => oldExtension

structure Named (file base : Text) (mark : Mark) : Prop where
  mod : modEndings.any (Text.endsWith base) = true
  name : FileUtils.getName file = base ++ mark.suffix

def ModManager.Operation.next : Operation → Mark → Mark
  | .disableMod, .old => .old
  | .disableMod, _ => .disabled
  | .enableMod, .old => .old
  | .enableMod, _ => .plain
  | .backupMod, _ => .old
  | .restoreMod, .old => .plain
  | .restoreMod, mark => mark
  | .setOld true, _ => .old
  | .setOld false, .old => .plain
  | .setOld false, mark => mark

theorem endsWith_append (base suffix : Text) : Text.endsWith (base ++ suffix) suffix = true := by
  rw [Text.endsWith,List.isSuffixOf_iff_suffix]
  exact List.suffix_append base suffix

theorem not_endsWith {s a b : Text} (ends : Text.endsWith s a = true) (first : ¬a <:+ b)
    (second : ¬b <:+ a) : Text.endsWith s b = false := by
  rw [Bool.eq_false_iff]
  intro also
  rw [Text.endsWith,List.isSuffixOf_iff_suffix] at ends also
  cases List.suffix_or_suffix_of_suffix ends also with
  | inl inside => exact first inside
  | inr inside => exact second inside

theorem removeSuffix_append (base suffix : Text) (suffixes : List Text) :
    StringUtils.removeSuffix (base ++ suffix) (suffix :: suffixes) = base := by
  rw [StringUtils.removeSuffix,if_pos (endsWith_append base suffix),List.length_append,
    Nat.add_sub_cancel]
  exact List.take_left

theorem removeSuffix_other {s suffix : Text} (different : Text.endsWith s suffix = false)
    (suffixes : List Text) :
    StringUtils.removeSuffix s (suffix :: suffixes) = StringUtils.removeSuffix s suffixes := by
  rw [StringUtils.removeSuffix,if_neg (by simp [different])]

/-- What a name with a mark can not end with: a path separator, or the suffix of another mark. -/
theorem not_endsWith_of_mod {base other : Text} (mod : modEndings.any (Text.endsWith base) = true)
    (separate : ∀ ending ∈ modEndings, ¬ending <:+ other ∧ ¬other <:+ ending) :
    Text.endsWith base other = false := by
  obtain ⟨ending,listed,ends⟩ := List.any_eq_true.mp mod
  exact not_endsWith ends (separate ending listed).1 (separate ending listed).2

theorem getName_marked {base : Text} (mod : modEndings.any (Text.endsWith base) = true)
    (mark : Mark) : FileUtils.getName (base ++ mark.suffix) = base ++ mark.suffix := by
  have free : ∀ separator ∈ [(("/" : String) : Text),("\\" : String)],
      Text.endsWith (base ++ mark.suffix) separator = false := by
    intro separator listed
    cases mark with
    | plain =>
      rw [Mark.suffix,List.append_nil]
      exact not_endsWith_of_mod mod (by revert separator; decide)
    | disabled =>
      refine not_endsWith (endsWith_append base _) ?_ ?_ <;> revert separator <;> decide
    | old =>
      refine not_endsWith (endsWith_append base _) ?_ ?_ <;> revert separator <;> decide
  rw [FileUtils.getName,removeSuffix_other (free _ (by simp)),removeSuffix_other (free _ (by simp)),
    StringUtils.removeSuffix]

theorem endsWith_disabled {base : Text} (mod : modEndings.any (Text.endsWith base) = true)
    (mark : Mark) :
    Text.endsWith (base ++ mark.suffix) disabledExtension = decide (mark = .disabled) := by
  cases mark with
  | plain =>
    rw [Mark.suffix,List.append_nil]
    exact not_endsWith_of_mod mod (by decide)
  | disabled => exact endsWith_append base _
  | old => exact not_endsWith (endsWith_append base _) (by decide) (by decide)

theorem endsWith_old {base : Text} (mod : modEndings.any (Text.endsWith base) = true) (mark : Mark) :
    Text.endsWith (base ++ mark.suffix) oldExtension = decide (mark = .old) := by
  cases mark with
  | plain =>
    rw [Mark.suffix,List.append_nil]
    exact not_endsWith_of_mod mod (by decide)
  | disabled => exact not_endsWith (endsWith_append base _) (by decide) (by decide)
  | old => exact endsWith_append base _

variable {file base : Text} {mark : Mark}

theorem Named.isDisabled (named : Named file base mark) :
    isDisabled file = decide (mark = .disabled) := by
  rw [ModManager.isDisabled,named.name,endsWith_disabled named.mod]

theorem Named.isOld (named : Named file base mark) : isOld file = decide (mark = .old) := by
  rw [ModManager.isOld,named.name,endsWith_old named.mod]

theorem named_marked (mod : modEndings.any (Text.endsWith base) = true) (mark : Mark) :
    Named (base ++ mark.suffix) base mark :=
  ⟨mod,getName_marked mod mark⟩

theorem named_of_accepts (accepted : accepts file = true) : ∃ base mark, Named file base mark := by
  rw [accepts,getModName] at accepted
  by_cases disabled : Text.endsWith (FileUtils.getName file) disabledExtension = true
  · obtain ⟨base,name⟩ := List.isSuffixOf_iff_suffix.mp disabled
    rw [← name,removeSuffix_append] at accepted
    exact ⟨base,.disabled,accepted,name.symm⟩
  · rw [removeSuffix_other (Bool.eq_false_iff.mpr disabled)] at accepted
    by_cases old : Text.endsWith (FileUtils.getName file) oldExtension = true
    · obtain ⟨base,name⟩ := List.isSuffixOf_iff_suffix.mp old
      rw [← name,removeSuffix_append] at accepted
      exact ⟨base,.old,accepted,name.symm⟩
    · rw [removeSuffix_other (Bool.eq_false_iff.mpr old),StringUtils.removeSuffix] at accepted
      exact ⟨FileUtils.getName file,.plain,accepted,(List.append_nil _).symm⟩

theorem remove_disabled (mod : modEndings.any (Text.endsWith base) = true) (mark : Mark) :
    StringUtils.removeSuffix (base ++ mark.suffix) [disabledExtension] =
      base ++ (if mark = .disabled then Mark.plain else mark).suffix := by
  cases mark with
  | disabled =>
    refine (removeSuffix_append base _ []).trans ?_
    exact (List.append_nil base).symm
  | plain =>
    rw [removeSuffix_other (endsWith_disabled mod .plain)]
    rfl
  | old =>
    rw [removeSuffix_other (endsWith_disabled mod .old)]
    rfl

theorem remove_old (mod : modEndings.any (Text.endsWith base) = true) (mark : Mark) :
    StringUtils.removeSuffix (base ++ mark.suffix) [oldExtension] =
      base ++ (if mark = .old then Mark.plain else mark).suffix := by
  cases mark with
  | old =>
    refine (removeSuffix_append base _ []).trans ?_
    exact (List.append_nil base).symm
  | plain =>
    rw [removeSuffix_other (endsWith_old mod .plain)]
    rfl
  | disabled =>
    rw [removeSuffix_other (endsWith_old mod .disabled)]
    rfl

theorem add_disabled (mod : modEndings.any (Text.endsWith base) = true) (notOld : mark ≠ .old) :
    StringUtils.addSuffix (base ++ mark.suffix) disabledExtension =
      base ++ Mark.disabled.suffix := by
  rw [StringUtils.addSuffix,endsWith_disabled mod]
  cases mark with
  | plain => rw [Mark.suffix,List.append_nil]; rfl
  | disabled => rfl
  | old => exact absurd rfl notOld

theorem add_old (mod : modEndings.any (Text.endsWith base) = true) (notDisabled : mark ≠ .disabled) :
    StringUtils.addSuffix (base ++ mark.suffix) oldExtension = base ++ Mark.old.suffix := by
  rw [StringUtils.addSuffix,endsWith_old mod]
  cases mark with
  | plain => rw [Mark.suffix,List.append_nil]; rfl
  | old => rfl
  | disabled => exact absurd rfl notDisabled

theorem Named.backup (named : Named file base mark) : Named (backupPath file) base .old := by
  rw [backupPath,named.name,remove_disabled named.mod,add_old named.mod]
  · exact named_marked named.mod .old
  · cases mark <;> decide

theorem Named.restore (named : Named file base mark) :
    Named (restorePath file) base (if mark = .old then .plain else mark) := by
  rw [restorePath,named.name,remove_old named.mod]
  exact named_marked named.mod _

/-- An accepted name stays an accepted name, and its mark says what was done to it. -/
theorem Named.target (named : Named file base mark) (operation : Operation) :
    Named (operation.target file) base (operation.next mark) := by
  cases operation with
  | disableMod =>
    rw [Operation.target,named.isOld]
    by_cases old : mark = .old
    · rw [if_pos (decide_eq_true old)]
      subst old
      exact named
    · rw [if_neg (by simpa using old),disabledPath,named.name,add_disabled named.mod old]
      have next : Operation.disableMod.next mark = .disabled := by
        cases mark <;> first | rfl | exact absurd rfl old
      rw [next]
      exact named_marked named.mod .disabled
  | enableMod =>
    rw [Operation.target,named.isOld]
    by_cases old : mark = .old
    · rw [if_pos (decide_eq_true old)]
      subst old
      exact named
    · rw [if_neg (by simpa using old),enabledPath,named.name,remove_disabled named.mod]
      have next : (if mark = .disabled then Mark.plain else mark) = Operation.enableMod.next mark := by
        cases mark <;> rfl
      rw [next]
      exact named_marked named.mod _
  | backupMod => exact named.backup
  | restoreMod =>
    have next : (if mark = .old then Mark.plain else mark) = Operation.restoreMod.next mark := by
      cases mark <;> rfl
    exact next ▸ named.restore
  | setOld old =>
    cases old with
    | true => exact named.backup
    | false =>
      have next : (if mark = .old then Mark.plain else mark) = (Operation.setOld false).next mark := by
        cases mark <;> rfl
      exact next ▸ named.restore

structure LocalModFile where
  file : Text
  active : Bool
  deriving DecidableEq, Repr

namespace LocalModFile

variable {β : Type}

def ofFile (file : Text) : LocalModFile := ⟨file,!ModManager.isDisabled file⟩

/-- The flag is set first; the exception of the move is logged. -/
def setActive (fails : Bool) (modFile : LocalModFile) (active : Bool) (directory : Directory β) :
    LocalModFile × Directory β :=
  let modFile := { modFile with active }
  let (moved,directory) :=
    if active then enableMod fails modFile.file directory
    else disableMod fails modFile.file directory
  match moved with
  | some file => ({ modFile with file },directory)
  | none => (modFile,directory)

/-- The exception of the move is passed on. -/
def setOld (fails : Bool) (modFile : LocalModFile) (old : Bool) (directory : Directory β) :
    LocalModFile × Directory β :=
  let (moved,directory) := ModManager.setOld fails modFile.file old directory
  match moved with
  | some file => ({ modFile with file },directory)
  | none => (modFile,directory)

inductive Request where
  | setActive (active : Bool)
  | setOld (old : Bool)
  deriving DecidableEq, Repr

def Request.apply (fails : Bool) (modFile : LocalModFile) (directory : Directory β) :
    Request → LocalModFile × Directory β
  | .setActive active => LocalModFile.setActive fails modFile active directory
  | .setOld old => LocalModFile.setOld fails modFile old directory

structure State (β : Type) where
  directory : Directory β
  modFiles : List LocalModFile

structure Call where
  index : Nat
  request : Request
  fails : Bool
  deriving DecidableEq, Repr

def State.call (s : State β) (call : Call) : State β :=
  match s.modFiles[call.index]? with
  | none => s
  | some modFile =>
    let (modFile,directory) := call.request.apply call.fails modFile s.directory
    ⟨directory,s.modFiles.set call.index modFile⟩

/-- After `refreshMods` the objects in use are some of those made for the listed files: the tree
set keeps one object a name. -/
def State.Refreshed (s : State β) : Prop :=
  s.modFiles.Sublist ((refreshMods s.directory).map ofFile)

/-- The flag says what the name says, and there is a file of that name. -/
structure Shown (directory : Directory β) (modFile : LocalModFile) : Prop where
  active : modFile.active = !ModManager.isDisabled modFile.file
  present : directory.lookup modFile.file ≠ none

def State.Truthful (s : State β) : Prop := ∀ modFile ∈ s.modFiles, Shown s.directory modFile

def State.Accepted (s : State β) : Prop :=
  ∀ modFile ∈ s.modFiles, ∃ base mark, Named modFile.file base mark

def Request.operation : Request → Operation
  | .setActive true => .enableMod
  | .setActive false => .disableMod
  | .setOld old => .setOld old

def Request.flag (active : Bool) : Request → Bool
  | .setActive active => active
  | .setOld _ => active

theorem apply_present (request : Request) (fails : Bool) {modFile : LocalModFile}
    {directory : Directory β} (present : directory.lookup modFile.file ≠ none) :
    request.apply fails modFile directory =
      if fails then (⟨modFile.file,request.flag modFile.active⟩,directory)
      else (⟨request.operation.target modFile.file,request.flag modFile.active⟩,
        move modFile.file (request.operation.target modFile.file) directory) := by
  obtain ⟨file,active⟩ := modFile
  have moved : ∀ newPath, moveIfExists fails file newPath directory =
      if fails then (none,directory) else (some newPath,move file newPath directory) := by
    intro newPath
    rw [moveIfExists,if_neg present]
  cases request with
  | setActive wanted =>
    cases old : ModManager.isOld file <;> cases wanted <;> cases fails <;>
      simp [Request.apply,LocalModFile.setActive,enableMod,disableMod,Request.flag,
        Request.operation,Operation.target,old,moved,move_same]
  | setOld old =>
    cases old <;> cases fails <;>
      simp [Request.apply,LocalModFile.setOld,ModManager.setOld,backupMod,restoreMod,
        Request.flag,Request.operation,Operation.target,moved]

/-- When a request leaves the list truthful: a skipped or failing activation asks for what the name
says, no disabled mod is made old, and a file that is renamed belongs to no other object. -/
def Request.Harmless (fails : Bool) (modFile : LocalModFile) : Request → Prop
  | .setActive active => ModManager.isOld modFile.file = true ∨ fails = true →
      active = !ModManager.isDisabled modFile.file
  | .setOld old => fails = false → old = true → ModManager.isDisabled modFile.file = false

def State.Alone (s : State β) (index : Nat) (file : Text) : Prop :=
  ∀ other modFile, s.modFiles[other]? = some modFile → modFile.file = file → other = index

def State.Harmless (s : State β) (call : Call) : Prop :=
  ∀ modFile, s.modFiles[call.index]? = some modFile →
    call.request.Harmless call.fails modFile ∧
      (call.fails = true ∨ call.request.operation.target modFile.file = modFile.file ∨
        s.Alone call.index modFile.file)

theorem flag_eq_iff {base : Text} {mark : Mark} {modFile : LocalModFile}
    (named : Named modFile.file base mark) (active : modFile.active = !ModManager.isDisabled modFile.file)
    (request : Request) :
    (request.flag modFile.active = !ModManager.isDisabled (request.operation.target modFile.file)) ↔
      request.Harmless false modFile := by
  rw [(named.target request.operation).isDisabled,active,named.isDisabled]
  cases request with
  | setActive wanted =>
    rw [Request.Harmless,named.isOld,named.isDisabled]
    cases wanted <;> cases mark <;> decide
  | setOld old =>
    rw [Request.Harmless,named.isDisabled]
    cases old <;> cases mark <;> decide

theorem flag_eq_iff_fails {modFile : LocalModFile}
    (active : modFile.active = !ModManager.isDisabled modFile.file) (request : Request) :
    (request.flag modFile.active = !ModManager.isDisabled modFile.file) ↔
      request.Harmless true modFile := by
  cases request with
  | setActive wanted => simp [Request.Harmless,Request.flag]
  | setOld old => simp [Request.Harmless,Request.flag,active]

theorem call_absent {s : State β} {call : Call} (absent : s.modFiles[call.index]? = none) :
    s.call call = s := by
  rw [State.call,absent]

theorem call_present {s : State β} {call : Call} {modFile : LocalModFile}
    (held : s.modFiles[call.index]? = some modFile)
    (present : s.directory.lookup modFile.file ≠ none) :
    s.call call =
      if call.fails then
        ⟨s.directory,s.modFiles.set call.index ⟨modFile.file,call.request.flag modFile.active⟩⟩
      else
        ⟨move modFile.file (call.request.operation.target modFile.file) s.directory,
          s.modFiles.set call.index
            ⟨call.request.operation.target modFile.file,call.request.flag modFile.active⟩⟩ := by
  rw [State.call,held]
  simp only [apply_present call.request call.fails present]
  cases call.fails <;> rfl

/-- An object takes the place of another: the list is truthful exactly when the new object and all
others are shown. -/
theorem truthful_set_iff {directory : Directory β} {modFiles : List LocalModFile} {index : Nat}
    {old new : LocalModFile} (held : modFiles[index]? = some old) :
    State.Truthful ⟨directory,modFiles.set index new⟩ ↔
      Shown directory new ∧
        ∀ other modFile, modFiles[other]? = some modFile → other ≠ index →
          Shown directory modFile := by
  obtain ⟨inside,-⟩ := List.getElem?_eq_some_iff.mp held
  constructor
  · intro truthful
    refine ⟨truthful new (List.mem_set inside new),?_⟩
    intro other modFile found different
    refine truthful modFile ?_
    rw [← List.getElem?_set_ne (Ne.symm different)] at found
    exact List.mem_of_getElem? found
  · rintro ⟨shown,others⟩ modFile member
    obtain ⟨other,found⟩ := List.mem_iff_getElem?.mp member
    by_cases same : index = other
    · subst same
      rw [List.getElem?_set_self inside] at found
      exact Option.some.inj found ▸ shown
    · rw [List.getElem?_set_ne same] at found
      exact others other modFile found (Ne.symm same)

theorem lookup_moved_iff {directory : Directory β} {source target other : Text}
    (present : directory.lookup source ≠ none) (shown : directory.lookup other ≠ none) :
    (move source target directory).lookup other ≠ none ↔ target = source ∨ other ≠ source := by
  by_cases same : target = source
  · rw [same,move_same]
    exact iff_of_true shown (.inl rfl)
  · by_cases moved : other = source
    · rw [moved,lookup_move_source (Ne.symm same)]
      exact iff_of_false (fun absent => absent rfl) (by simp [same])
    · refine iff_of_true ?_ (.inr moved)
      by_cases replaced : other = target
      · rw [replaced,lookup_move_target present]
        exact present
      · rw [lookup_move_other _ moved replaced]
        exact shown

theorem truthful_call_iff {s : State β} (accepted : s.Accepted) (truthful : s.Truthful)
    (call : Call) : (s.call call).Truthful ↔ s.Harmless call := by
  cases held : s.modFiles[call.index]? with
  | none =>
    rw [call_absent held]
    refine iff_of_true truthful ?_
    intro modFile found
    rw [held] at found
    cases found
  | some modFile =>
    have member := List.mem_of_getElem? held
    obtain ⟨active,present⟩ := truthful modFile member
    obtain ⟨base,mark,named⟩ := accepted modFile member
    have harmless : s.Harmless call ↔ call.request.Harmless call.fails modFile ∧
        (call.fails = true ∨ call.request.operation.target modFile.file = modFile.file ∨
          s.Alone call.index modFile.file) := by
      constructor
      · intro every
        exact every modFile held
      · intro this other found
        rw [held] at found
        exact Option.some.inj found ▸ this
    rw [harmless,call_present held present]
    cases fails : call.fails with
    | true =>
      rw [if_pos rfl,truthful_set_iff held,← flag_eq_iff_fails active call.request]
      constructor
      · intro shown
        exact ⟨shown.1.active,.inl rfl⟩
      · intro shown
        refine ⟨⟨shown.1,present⟩,?_⟩
        intro other otherFile found _
        exact truthful otherFile (List.mem_of_getElem? found)
    | false =>
      rw [if_neg Bool.false_ne_true,truthful_set_iff held,← flag_eq_iff named active call.request]
      refine and_congr ?_ ?_
      · constructor
        · exact Shown.active
        · intro flag
          exact ⟨flag,by rw [lookup_move_target present]; exact present⟩
      · simp only [Bool.false_eq_true,false_or]
        constructor
        · intro others
          by_cases same : call.request.operation.target modFile.file = modFile.file
          · exact .inl same
          · refine .inr fun other otherFile found shared => ?_
            by_contra different
            have there := (others other otherFile found different).present
            have still := (truthful otherFile (List.mem_of_getElem? found)).present
            cases (lookup_moved_iff present still).mp there with
            | inl unmoved => exact same unmoved
            | inr elsewhere => exact elsewhere shared
        · intro safe other otherFile found different
          have shown := truthful otherFile (List.mem_of_getElem? found)
          refine ⟨shown.active,(lookup_moved_iff present shown.present).mpr ?_⟩
          cases safe with
          | inl same => exact .inl same
          | inr alone => exact .inr fun shared => different (alone other otherFile found shared)

theorem apply_file (request : Request) (fails : Bool) (modFile : LocalModFile)
    (directory : Directory β) :
    (request.apply fails modFile directory).1.file = modFile.file ∨
      (request.apply fails modFile directory).1.file = request.operation.target modFile.file := by
  by_cases present : directory.lookup modFile.file = none
  · right
    obtain ⟨file,active⟩ := modFile
    have unmoved : ∀ newPath, moveIfExists fails file newPath directory =
        (some newPath,directory) := fun newPath => if_pos present
    cases request with
    | setActive wanted =>
      cases old : ModManager.isOld file <;> cases wanted <;>
        simp [Request.apply,LocalModFile.setActive,enableMod,disableMod,Request.operation,
          Operation.target,old,unmoved]
    | setOld old =>
      cases old <;>
        simp [Request.apply,LocalModFile.setOld,ModManager.setOld,backupMod,restoreMod,
          Request.operation,Operation.target,unmoved]
  · rw [apply_present request fails present]
    cases fails with
    | true => exact .inl rfl
    | false => exact .inr rfl

theorem accepted_call (s : State β) (call : Call) (accepted : s.Accepted) :
    (s.call call).Accepted := by
  cases held : s.modFiles[call.index]? with
  | none =>
    rw [call_absent held]
    exact accepted
  | some modFile =>
    obtain ⟨base,mark,named⟩ := accepted modFile (List.mem_of_getElem? held)
    rw [State.call,held]
    intro other member
    cases List.mem_or_eq_of_mem_set member with
    | inl old => exact accepted other old
    | inr new =>
      rw [new]
      cases apply_file call.request call.fails modFile s.directory with
      | inl same => exact ⟨base,mark,same ▸ named⟩
      | inr moved => exact ⟨base,_,moved ▸ named.target call.request.operation⟩

theorem refreshed_shown {s : State β} (refreshed : s.Refreshed) {modFile : LocalModFile}
    (member : modFile ∈ s.modFiles) :
    Shown s.directory modFile ∧ ∃ base mark, Named modFile.file base mark := by
  obtain ⟨file,listed,rfl⟩ := List.mem_map.mp (refreshed.subset member)
  obtain ⟨key,accepted⟩ := List.mem_filter.mp listed
  refine ⟨⟨rfl,?_⟩,named_of_accepts accepted⟩
  intro absent
  exact AList.lookup_eq_none.mp absent (AList.mem_keys.mpr key)

/-- The list tells the truth in all states of a run exactly when all its calls are harmless. -/
theorem truthful_throughout_iff (s : State β) (refreshed : s.Refreshed) (calls : List Call) :
    (∀ done rest, calls = done ++ rest → (done.foldl State.call s).Truthful) ↔
      Along State.call State.Harmless s calls := by
  have accepted : s.Accepted := fun _ member => (refreshed_shown refreshed member).2
  have truthful : s.Truthful := fun _ member => (refreshed_shown refreshed member).1
  exact throughout_iff (fun s call ready _ _ => accepted_call s call ready)
    (fun _ call ready shown => truthful_call_iff ready shown call) accepted truthful calls

def singleMod : State Nat := ⟨List.toAList [⟨("foo.jar" : String),1⟩],[ofFile ("foo.jar" : String)]⟩

theorem truthful_throughout_iff_singleMod :
    (∀ done rest, [⟨0,.setActive false,false⟩,⟨0,.setActive true,false⟩] = done ++ rest →
        (done.foldl State.call singleMod).Truthful) ↔
      Along State.call State.Harmless singleMod
        [⟨0,.setActive false,false⟩,⟨0,.setActive true,false⟩] :=
  truthful_throughout_iff singleMod (List.Sublist.refl _) _

/-- A mod whose file could not be renamed is shown as disabled. -/
theorem failed_move_shown_as_disabled :
    ¬∀ (s : State Nat) (calls : List Call), s.Refreshed → (calls.foldl State.call s).Truthful := by
  intro every
  have truthful := every singleMod [⟨0,.setActive false,true⟩] (List.Sublist.refl _)
  have shown := (truthful ⟨("foo.jar" : String),false⟩ List.mem_cons_self).active
  revert shown
  decide

end LocalModFile

end HmclPe.Mods
