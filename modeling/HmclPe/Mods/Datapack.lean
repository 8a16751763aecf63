import HmclPe.Lib.Runs
import HmclPe.Mods.LocalModFile
import HmclPe.Mods.ModList

/-! Data packs of a world. A pack is switched on and off by renaming its file; neither the flag nor
the name is looked at before. -/
namespace HmclPe.Mods.Datapack
open HmclPe.Java HmclPe.Lib.Moving HmclPe.Lib.Runs ModManager
open ModList (ModPath)

section Model
variable {β δ : Type}

/-- The text before the last occurrence, or all of a text without one. -/
def StringUtils.substringBeforeLastOf (str delimiter : Text) : Text :=
  match (List.range (str.length + 1)).reverse.find? fun index =>
      delimiter.isPrefixOf (str.drop index) with
  | some index => str.take index
  | none => str

def disabledExt : Text := ("disabled":String)
def mcmetaName : Text := ("pack.mcmeta":String)

structure Pack (δ : Type) where
  file : ModPath
  active : Bool
  id : Text
  description : δ
deriving DecidableEq

def Pack.new (file : ModPath) (id : Text) (description : δ) : Pack δ :=
  ⟨file,!decide (FileUtils.getExtension file.name = disabledExt),id,description⟩

/-- What a zip file says about its `pack.mcmeta`; a broken zip file can not be searched for it. -/
inductive ZipMeta (δ : Type)
  | broken
  | missing
  | malformed
  | description (description : δ)

/-- What the `pack.mcmeta` of a folder says. An exception that is caught passes it over, another one
ends the loading. -/
inductive McMeta (δ : Type)
  | malformed
  | incomplete
  | description (description : δ)

/-- How contents are read. -/
structure Reader (β δ : Type) where
  packMcMeta : β → McMeta δ
  zipMeta : β → ZipMeta δ

inductive Subitem
  | folder (name : Text)
  | file (name : Text)

variable (reader : Reader β δ) (directory : Store ModPath β)

def loadMcMeta (name : Text) (mcmeta : ModPath) (content : β) : Option (List (Pack δ)) :=
  match reader.packMcMeta content with
  | .description description => some [Pack.new mcmeta (FileUtils.getName name) description]
  | .malformed => some []
  | .incomplete => none

def loadFolder (name : Text) : Option (List (Pack δ)) :=
  let mcmeta : ModPath := ⟨some name,mcmetaName⟩
  let mcmetaDisabled : ModPath := ⟨some name,mcmetaName ++ disabledExtension⟩
  match directory.lookup mcmeta with
  | some content => loadMcMeta reader name mcmeta content
  | none =>
    match directory.lookup mcmetaDisabled with
    | some content => loadMcMeta reader name mcmetaDisabled content
    | none => some []

/-- None where a zip file ends the loading with an exception. -/
def loadZip (fileName : Text) (content : β) : Option (List (Pack δ)) :=
  let name := StringUtils.removeSuffix (FileUtils.getName fileName) [disabledExtension]
  match reader.zipMeta content with
  | .broken => none
  | .missing => some []
  | .malformed => if !Text.endsWith name (".zip":String) then some [] else none
  | .description description =>
    if !Text.endsWith name (".zip":String) then some []
    else some [Pack.new ⟨none,fileName⟩
      (StringUtils.substringBeforeLastOf name (".zip":String)) description]

def loadSubitem : Subitem → Option (List (Pack δ))
  | .folder name => loadFolder reader directory name
  | .file name =>
    match directory.lookup ⟨none,name⟩ with
    | some content => loadZip reader name content
    | none => some []

def addSubitem (info : List (Pack δ)) (subitem : Subitem) : Option (List (Pack δ)) :=
  (loadSubitem reader directory subitem).map (info ++ ·)

def loadFromDir (subitems : List Subitem) : Option (List (Pack δ)) :=
  subitems.foldlM (addSubitem reader directory) []

variable {directory : Store ModPath β}

/-- `Files.move` without `REPLACE_EXISTING`; an empty name is that of the directory itself. -/
def Movable (fails : Bool) (source target : ModPath) (directory : Store ModPath β) : Prop :=
  fails = false ∧ directory.lookup source ≠ none ∧
    (target = source ∨ target.name ≠ [] ∧ directory.lookup target = none)

instance (fails : Bool) (source target : ModPath) (directory : Store ModPath β) :
    Decidable (Movable fails source target directory) :=
  decidable_of_iff (fails = false ∧ (directory.lookup source).isSome = true ∧
    (target = source ∨ target.name ≠ [] ∧ (directory.lookup target).isNone = true)) (by
      rw [Movable,Option.isSome_iff_ne_none,Option.isNone_iff_eq_none])

def Pack.newFile (pack : Pack δ) (active : Bool) : ModPath :=
  let name := FileUtils.getName pack.file.name
  {pack.file with
    name := if active then FileUtils.getNameWithoutExtension name
      else name ++ ("." : String).toList ++ disabledExt}

/-- The exception of the move is printed. -/
def Pack.setActive (fails : Bool) (active : Bool) (pack : Pack δ) (directory : Store ModPath β) :
    Pack δ × Store ModPath β :=
  let newF := pack.newFile active
  let pack := {pack with active}
  if Movable fails pack.file newF directory then
    ({pack with file := newF},move pack.file newF directory)
  else (pack,directory)

structure State (β δ : Type) where
  directory : Store ModPath β
  packs : List (Pack δ)

structure Call where
  index : Nat
  active : Bool
  fails : Bool

def State.call (s : State β δ) (call : Call) : State β δ :=
  match s.packs[call.index]? with
  | none => s
  | some pack =>
    let (pack,directory) := pack.setActive call.fails call.active s.directory
    ⟨directory,s.packs.set call.index pack⟩

end Model

section Names

def enabledName (name : Text) : Text :=
  StringUtils.removeSuffix (FileUtils.getName name) [disabledExtension]

structure Extension (ext : Text) : Prop where
  some_ : ext ≠ []
  noDot : '.' ∉ ext
  noSeparator : '/' ∉ ext ∧ '\\' ∉ ext

variable {stem ext : Text}

theorem substringBeforeLast_dotted (noDot : '.' ∉ ext) :
    StringUtils.substringBeforeLast (stem ++ '.' :: ext) '.' = stem := by
  have before : (stem ++ '.' :: ext).rdropWhile (· ≠ '.') = stem ++ ['.'] := by
    rw [List.rdropWhile,List.reverse_append,List.reverse_cons,List.append_assoc,
      List.dropWhile_append_of_pos]
    · simp
    · intro c member
      have other : c ≠ '.' := fun same => noDot (same ▸ List.mem_reverse.mp member)
      exact decide_eq_true other
  rw [StringUtils.substringBeforeLast,if_pos (by simp),before,List.dropLast_concat]

theorem substringAfterLast_dotted (noDot : '.' ∉ ext) :
    StringUtils.substringAfterLast (stem ++ '.' :: ext) '.' = ext := by
  have after : (stem ++ '.' :: ext).rtakeWhile (· ≠ '.') = ext := by
    rw [List.rtakeWhile,List.reverse_append,List.reverse_cons,List.append_assoc,
      List.takeWhile_append_of_pos]
    · simp
    · intro c member
      have other : c ≠ '.' := fun same => noDot (same ▸ List.mem_reverse.mp member)
      exact decide_eq_true other
  rw [StringUtils.substringAfterLast,if_pos (by simp),after]

theorem getName_dotted (extension : Extension ext) :
    FileUtils.getName (stem ++ '.' :: ext) = stem ++ '.' :: ext := by
  have other : ∀ c, c ∉ ext → Text.endsWith (stem ++ '.' :: ext) [c] = false := by
    intro c absent
    rw [Bool.eq_false_iff]
    intro ends
    rw [Text.endsWith,List.isSuffixOf_iff_suffix] at ends
    obtain ⟨front,whole⟩ := ends
    obtain ⟨init,last,rfl⟩ := List.eq_nil_or_concat ext |>.resolve_left extension.some_
    rw [List.concat_eq_append,← List.cons_append,← List.append_assoc] at whole
    obtain ⟨-,same⟩ := List.append_inj' whole rfl
    exact absent (by simp [List.cons.inj same])
  obtain ⟨noSlash,noBackslash⟩ := extension.noSeparator
  have slash : Text.endsWith (stem ++ '.' :: ext) ("/":String) = false := other _ noSlash
  have backslash : Text.endsWith (stem ++ '.' :: ext) ("\\":String) = false := other _ noBackslash
  rw [FileUtils.getName,removeSuffix_other slash,removeSuffix_other backslash,
    StringUtils.removeSuffix]

/-- Names of enabled packs: those of zip files and `pack.mcmeta`. -/
def Enabled (name : Text) : Prop :=
  ∃ stem, ∃ ext ∈ [("zip":String).toList,("mcmeta":String).toList], name = stem ++ '.' :: ext

def shownName (base : Text) (active : Bool) : Text :=
  if active then base else base ++ disabledExtension

theorem disabledExtension_eq : disabledExtension = '.' :: disabledExt := rfl

theorem extension_disabled : Extension disabledExt := ⟨by decide,by decide,by decide⟩

theorem Enabled.extension {base : Text} (enabled : Enabled base) :
    ∃ stem ext, base = stem ++ '.' :: ext ∧ Extension ext ∧ ext ≠ disabledExt := by
  obtain ⟨stem,ext,listed,rfl⟩ := enabled
  refine ⟨stem,ext,rfl,?_⟩
  rcases List.mem_pair.mp listed with rfl | rfl <;> exact ⟨⟨by decide,by decide,by decide⟩,by decide⟩

theorem Enabled.getName {base : Text} (enabled : Enabled base) (active : Bool) :
    FileUtils.getName (shownName base active) = shownName base active := by
  cases active with
  | true =>
    obtain ⟨stem,ext,rfl,extension,-⟩ := enabled.extension
    exact getName_dotted extension
  | false => exact getName_dotted extension_disabled

theorem Enabled.withoutExtension {base : Text} (enabled : Enabled base) :
    FileUtils.getNameWithoutExtension base ≠ base := by
  obtain ⟨stem,ext,rfl,extension,-⟩ := enabled.extension
  rw [FileUtils.getNameWithoutExtension,substringBeforeLast_dotted extension.noDot]
  intro same
  have shorter := congrArg List.length same
  rw [List.length_append,List.length_cons] at shorter
  omega

theorem length_disabledExtension : disabledExtension.length = 9 := rfl

theorem length_shownName (base : Text) (active : Bool) :
    (shownName base active).length = base.length + if active then 0 else 9 := by
  cases active with
  | true => rfl
  | false =>
    rw [shownName,if_neg Bool.false_ne_true,List.length_append,length_disabledExtension]
    rfl

theorem shownName_injective {base : Text} {active active' : Bool}
    (same : shownName base active = shownName base active') : active = active' := by
  have lengths := congrArg List.length same
  rw [length_shownName,length_shownName] at lengths
  cases active <;> cases active' <;> first | rfl | exact absurd lengths (by simp)

theorem Enabled.isActive {base : Text} (enabled : Enabled base) (active : Bool) :
    (!decide (FileUtils.getExtension (shownName base active) = disabledExt)) = active := by
  rw [FileUtils.getExtension,enabled.getName]
  cases active with
  | true =>
    obtain ⟨stem,ext,rfl,extension,other⟩ := enabled.extension
    rw [shownName,if_pos rfl,substringAfterLast_dotted extension.noDot,decide_eq_false other]
    rfl
  | false =>
    rw [shownName,if_neg Bool.false_ne_true,disabledExtension_eq,
      substringAfterLast_dotted extension_disabled.noDot]
    rfl

theorem removeSuffix_shownName {base : Text} (enabled : Enabled base) (active : Bool) :
    StringUtils.removeSuffix (shownName base active) [disabledExtension] = base := by
  cases active with
  | true =>
    obtain ⟨stem,ext,rfl,extension,other⟩ := enabled.extension
    have plain : Text.endsWith (stem ++ '.' :: ext) disabledExtension = false := by
      rw [Bool.eq_false_iff]
      intro ends
      rw [Text.endsWith,List.isSuffixOf_iff_suffix] at ends
      obtain ⟨front,whole⟩ := ends
      have last := congrArg (StringUtils.substringAfterLast · '.') whole
      simp only [disabledExtension_eq,substringAfterLast_dotted extension_disabled.noDot,
        substringAfterLast_dotted extension.noDot] at last
      exact other last.symm
    rw [shownName,if_pos rfl,removeSuffix_other plain,StringUtils.removeSuffix]
  | false => exact removeSuffix_append base _ []

/-- The name of a loaded pack is the enabled or the disabled name, up to a separator at its end. -/
structure Shown (base fileName : Text) (active : Bool) : Prop where
  enabled : Enabled base
  name : FileUtils.getName fileName = shownName base active

variable {base fileName : Text} {active : Bool}

theorem Shown.enabledName (shown : Shown base fileName active) : enabledName fileName = base := by
  rw [Datapack.enabledName,shown.name,removeSuffix_shownName shown.enabled]

theorem Shown.new {δ : Type} (shown : Shown base fileName active) (folder : Option Text) (id : Text)
    (description : δ) : (Pack.new ⟨folder,fileName⟩ id description).active = active := by
  have here := shown.enabled.isActive active
  rw [FileUtils.getExtension,shown.enabled.getName,← shown.name] at here
  exact here

theorem shown_zip (zip : Text.endsWith (StringUtils.removeSuffix (FileUtils.getName fileName)
    [disabledExtension]) (".zip":String) = true) :
    ∃ base active, Shown base fileName active := by
  rw [Text.endsWith,List.isSuffixOf_iff_suffix] at zip
  obtain ⟨stem,whole⟩ := zip
  have enabled : Enabled (stem ++ (".zip":String).toList) := ⟨stem,_,List.mem_cons_self,rfl⟩
  by_cases disabled : Text.endsWith (FileUtils.getName fileName) disabledExtension = true
  · obtain ⟨front,name⟩ := List.isSuffixOf_iff_suffix.mp disabled
    rw [← name,removeSuffix_append] at whole
    exact ⟨_,false,enabled,by rw [← name,← whole]; rfl⟩
  · rw [removeSuffix_other (Bool.eq_false_iff.mpr disabled),StringUtils.removeSuffix] at whole
    exact ⟨_,true,enabled,whole.symm⟩

theorem shown_mcmeta (active : Bool) : Shown mcmetaName (shownName mcmetaName active) active := by
  have enabled : Enabled mcmetaName := ⟨("pack":String),("mcmeta":String),by simp,by decide⟩
  exact ⟨enabled,enabled.getName active⟩

end Names

section Toggling
variable {β δ : Type}

def Mirrors (base : Text) (pack : Pack δ) : Prop := pack.file.name = shownName base pack.active

theorem newFile_name {pack : Pack δ} (active : Bool) :
    (pack.newFile active).name =
      if active then FileUtils.getNameWithoutExtension (FileUtils.getName pack.file.name)
      else shownName (FileUtils.getName pack.file.name) false := by
  cases active with
  | true => rfl
  | false =>
    have added : (pack.newFile false).name =
        FileUtils.getName pack.file.name ++ ("." : String).toList ++ disabledExt := rfl
    rw [added,List.append_assoc]
    rfl

/-- A mirrored pack asks for the other name exactly where it is to change. -/
theorem newFile_name_iff {base : Text} (enabled : Enabled base) {pack : Pack δ}
    (mirrors : Mirrors base pack) (active : Bool) :
    (pack.newFile active).name = shownName base active ↔ active ≠ pack.active := by
  rw [newFile_name,mirrors,enabled.getName]
  cases now : pack.active <;> cases active
  · refine iff_of_false ?_ (fun different => different rfl)
    intro same
    have lengths := congrArg List.length same
    rw [if_neg Bool.false_ne_true,length_shownName,length_shownName] at lengths
    simp at lengths
  · refine iff_of_true ?_ (by decide)
    exact substringBeforeLast_dotted extension_disabled.noDot
  · exact iff_of_true rfl (by decide)
  · exact iff_of_false enabled.withoutExtension (fun different => different rfl)

theorem mirrors_setActive_iff {base : Text} (enabled : Enabled base) {pack : Pack δ}
    (mirrors : Mirrors base pack) (fails active : Bool) (directory : Store ModPath β) :
    Mirrors base (pack.setActive fails active directory).1 ↔
      (Movable fails pack.file (pack.newFile active) directory ↔ active ≠ pack.active) := by
  rw [Pack.setActive]
  by_cases moved : Movable fails pack.file (pack.newFile active) directory
  · rw [if_pos moved,iff_true_left moved]
    exact newFile_name_iff enabled mirrors active
  · rw [if_neg moved,iff_false_left moved,not_not]
    constructor
    · intro stays
      exact (shownName_injective (mirrors.symm.trans stays)).symm
    · rintro rfl
      exact mirrors

variable {bases : Nat → Text}

def State.Mirrors (bases : Nat → Text) (s : State β δ) : Prop :=
  ∀ i pack, s.packs[i]? = some pack → Datapack.Mirrors (bases i) pack

/-- The file is moved exactly where the call asks for a change. -/
def State.Matches (s : State β δ) (call : Call) : Prop :=
  ∀ pack, s.packs[call.index]? = some pack →
    (Movable call.fails pack.file (pack.newFile call.active) s.directory ↔
      call.active ≠ pack.active)

theorem call_absent {s : State β δ} {call : Call} (absent : s.packs[call.index]? = none) :
    s.call call = s := by
  rw [State.call,absent]

theorem call_present {s : State β δ} {call : Call} {pack : Pack δ}
    (held : s.packs[call.index]? = some pack) :
    s.call call = ⟨(pack.setActive call.fails call.active s.directory).2,
      s.packs.set call.index (pack.setActive call.fails call.active s.directory).1⟩ := by
  rw [State.call,held]

theorem length_call (s : State β δ) (call : Call) : (s.call call).packs.length = s.packs.length := by
  cases held : s.packs[call.index]? with
  | none => rw [call_absent held]
  | some pack => rw [call_present held,List.length_set]

theorem mirrors_call_iff {s : State β δ} (enabled : ∀ i < s.packs.length, Enabled (bases i))
    (mirrors : s.Mirrors bases) (call : Call) : (s.call call).Mirrors bases ↔ s.Matches call := by
  cases held : s.packs[call.index]? with
  | none =>
    rw [call_absent held]
    refine iff_of_true mirrors ?_
    intro pack found
    rw [held] at found
    cases found
  | some pack =>
    obtain ⟨inside,-⟩ := List.getElem?_eq_some_iff.mp held
    have here := mirrors_setActive_iff (enabled _ inside) (mirrors _ pack held) call.fails
      call.active s.directory
    rw [call_present held]
    constructor
    · intro after other found
      obtain rfl := Option.some.inj (held.symm.trans found)
      exact here.mp (after call.index _ (List.getElem?_set_self inside))
    · intro matched i other found
      by_cases same : call.index = i
      · subst same
        rw [List.getElem?_set_self inside] at found
        exact Option.some.inj found ▸ here.mpr (matched pack held)
      · rw [List.getElem?_set_ne same] at found
        exact mirrors i other found

/-- A call for what is already there changes nothing, where its move is not made. -/
theorem call_idle {s : State β δ} {call : Call} (matched : s.Matches call) {pack : Pack δ}
    (held : s.packs[call.index]? = some pack) (same : call.active = pack.active) :
    s.call call = s := by
  have unmoved : ¬Movable call.fails pack.file (pack.newFile call.active) s.directory :=
    fun moved => (matched pack held).mp moved same
  rw [call_present held,Pack.setActive,if_neg unmoved]
  obtain ⟨inside,there⟩ := List.getElem?_eq_some_iff.mp held
  have kept : s.packs.set call.index {pack with active := call.active} = s.packs := by
    rw [same,← there]
    exact List.set_getElem_self inside
  exact congrArg (State.mk s.directory) kept

end Toggling

section Runs
variable {β δ : Type}

def bases (s : State β δ) (i : Nat) : Text :=
  (s.packs[i]?.map fun pack => enabledName pack.file.name).getD []

/-- What is asked of all calls of a run. -/
structure Toggles (s : State β δ) (calls : List Call) : Prop where
  mirrors : ∀ done rest, calls = done ++ rest →
    (done.foldl State.call s).Mirrors (bases s)
  repeats : ∀ done call rest, calls = done ++ call :: rest → ∀ pack,
    (done.foldl State.call s).packs[call.index]? = some pack → call.active = pack.active →
      (done.foldl State.call s).call call = done.foldl State.call s
  restores : ∀ done off on rest, calls = done ++ off :: on :: rest → off.index = on.index →
    off.active = false → on.active = true → ∀ pack pack',
      (done.foldl State.call s).packs[off.index]? = some pack → pack.active = true →
      (((done.foldl State.call s).call off).call on).packs[off.index]? = some pack' →
        pack'.file = pack.file ∧ pack'.active = true

variable {reader : Reader β δ} {directory : Store ModPath β} {subitems : List Subitem}
  {packs : List (Pack δ)}

theorem shown_of_loadFolder {name : Text} {list : List (Pack δ)}
    (made : loadFolder reader directory name = some list) {pack : Pack δ} (member : pack ∈ list) :
    ∃ base, Shown base pack.file.name pack.active := by
  have read : ∀ active content, loadMcMeta reader name
      ⟨some name,shownName mcmetaName active⟩ content = some list →
      ∃ base, Shown base pack.file.name pack.active := by
    intro active content inside
    rw [loadMcMeta] at inside
    split at inside
    · obtain rfl := Option.some.inj inside
      obtain rfl := List.mem_singleton.mp member
      have shown := shown_mcmeta active
      exact ⟨mcmetaName,by rw [shown.new]; exact shown⟩
    · obtain rfl := Option.some.inj inside
      exact absurd member List.not_mem_nil
    · cases inside
  rw [loadFolder] at made
  split at made
  · exact read true _ made
  · split at made
    · exact read false _ made
    · obtain rfl := Option.some.inj made
      exact absurd member List.not_mem_nil

theorem shown_of_loadZip {name : Text} {content : β} {list : List (Pack δ)}
    (made : loadZip reader name content = some list) {pack : Pack δ} (member : pack ∈ list) :
    ∃ base, Shown base pack.file.name pack.active := by
  rw [loadZip] at made
  split at made
  · cases made
  · obtain rfl := Option.some.inj made
    exact absurd member List.not_mem_nil
  · split at made
    · obtain rfl := Option.some.inj made
      exact absurd member List.not_mem_nil
    · cases made
  · split at made
    · obtain rfl := Option.some.inj made
      exact absurd member List.not_mem_nil
    · rename_i zip
      obtain rfl := Option.some.inj made
      obtain rfl := List.mem_singleton.mp member
      obtain ⟨base,active,shown⟩ := shown_zip (by simpa using zip)
      exact ⟨base,by rw [shown.new]; exact shown⟩

theorem shown_of_loadSubitem {subitem : Subitem} {list : List (Pack δ)}
    (made : loadSubitem reader directory subitem = some list) {pack : Pack δ}
    (member : pack ∈ list) : ∃ base, Shown base pack.file.name pack.active := by
  cases subitem with
  | folder name => exact shown_of_loadFolder made member
  | file name =>
    rw [loadSubitem] at made
    split at made
    · exact shown_of_loadZip made member
    · obtain rfl := Option.some.inj made
      exact absurd member List.not_mem_nil

theorem shown_of_loaded {info : List (Pack δ)}
    (loaded : subitems.foldlM (addSubitem reader directory) info = some packs)
    (before : ∀ pack ∈ info, ∃ base, Shown base pack.file.name pack.active) :
    ∀ pack ∈ packs, ∃ base, Shown base pack.file.name pack.active := by
  induction subitems generalizing info with
  | nil =>
    obtain rfl := Option.some.inj loaded
    exact before
  | cons subitem subitems ih =>
    rw [List.foldlM_cons,Option.bind_eq_bind,Option.bind_eq_some_iff] at loaded
    obtain ⟨next,first,rest⟩ := loaded
    obtain ⟨list,made,rfl⟩ := Option.map_eq_some_iff.mp first
    apply ih rest
    intro pack member
    rcases List.mem_append.mp member with old | new
    · exact before pack old
    · exact shown_of_loadSubitem made new

theorem loaded_shown (loaded : loadFromDir reader directory subitems = some packs) {i : Nat}
    {pack : Pack δ} (held : packs[i]? = some pack) :
    Shown (bases ⟨directory,packs⟩ i) pack.file.name pack.active := by
  obtain ⟨base,shown⟩ := shown_of_loaded loaded
    (fun pack member => absurd member List.not_mem_nil) pack (List.mem_of_getElem? held)
  have same : bases ⟨directory,packs⟩ i = base := by
    rw [bases,held]
    exact shown.enabledName
  rw [same]
  exact shown

theorem loaded_mirrors_iff (loaded : loadFromDir reader directory subitems = some packs) :
    State.Mirrors (bases ⟨directory,packs⟩) ⟨directory,packs⟩ ↔
      ∀ pack ∈ packs, FileUtils.getName pack.file.name = pack.file.name := by
  constructor
  · intro mirrors pack member
    obtain ⟨i,held⟩ := List.mem_iff_getElem?.mp member
    rw [(loaded_shown loaded held).name]
    exact (mirrors i pack held).symm
  · intro whole i pack held
    have name := (loaded_shown loaded held).name
    rw [whole pack (List.mem_of_getElem? held)] at name
    exact name

theorem folder_setActive (pack : Pack δ) (fails active : Bool) (directory : Store ModPath β) :
    (pack.setActive fails active directory).1.file.folder = pack.file.folder ∧
      (pack.setActive fails active directory).1.active = active := by
  rw [Pack.setActive]
  split <;> exact ⟨rfl,rfl⟩

theorem held_call {s : State β δ} {call : Call} {pack : Pack δ}
    (held : s.packs[call.index]? = some pack) :
    ∃ pack', (s.call call).packs[call.index]? = some pack' ∧
      pack'.file.folder = pack.file.folder ∧ pack'.active = call.active := by
  obtain ⟨inside,-⟩ := List.getElem?_eq_some_iff.mp held
  refine ⟨_,?_,folder_setActive pack call.fails call.active s.directory⟩
  rw [call_present held]
  exact List.getElem?_set_self inside

/-- The packs follow their calls exactly where a move is made for a change and for nothing else. -/
theorem toggles_iff (loaded : loadFromDir reader directory subitems = some packs)
    (calls : List Call) :
    Toggles ⟨directory,packs⟩ calls ↔
      (∀ pack ∈ packs, FileUtils.getName pack.file.name = pack.file.name) ∧
        Along State.call State.Matches ⟨directory,packs⟩ calls := by
  have enabled : ∀ i < packs.length, Enabled (bases ⟨directory,packs⟩ i) := by
    intro i inside
    exact (loaded_shown loaded (List.getElem?_eq_getElem inside)).enabled
  have throughout : State.Mirrors (bases ⟨directory,packs⟩) ⟨directory,packs⟩ →
      ((∀ done rest, calls = done ++ rest → State.Mirrors (bases ⟨directory,packs⟩)
        (done.foldl State.call ⟨directory,packs⟩)) ↔
          Along State.call State.Matches ⟨directory,packs⟩ calls) := by
    intro starts
    apply @throughout_iff (State β δ) Call State.call (fun s => s.packs.length = packs.length)
      (State.Mirrors (bases ⟨directory,packs⟩)) State.Matches _ _ _ rfl starts calls
    · intro s call length _ _
      exact (length_call s call).trans length
    · intro s call length mirrors
      exact mirrors_call_iff (by rw [length]; exact enabled) mirrors call
  rw [← loaded_mirrors_iff loaded]
  constructor
  · intro toggles
    have starts := toggles.mirrors [] calls rfl
    exact ⟨starts,(throughout starts).mp toggles.mirrors⟩
  · rintro ⟨starts,along⟩
    have mirrors := (throughout starts).mpr along
    refine ⟨mirrors,?_,?_⟩
    · intro done call rest cut pack held same
      exact call_idle (cut ▸ along).at held same
    · intro done off on rest cut index wanted again pack pack' held active held'
      have before := mirrors done (off :: on :: rest) cut off.index pack held
      have after := mirrors (done ++ [off,on]) rest (by rw [cut]; simp) off.index pack'
        (by rw [List.foldl_append]; exact held')
      obtain ⟨between,heldBetween,folder,-⟩ := held_call held
      rw [index] at heldBetween held'
      obtain ⟨last,heldLast,folder',on_⟩ := held_call heldBetween
      obtain rfl := Option.some.inj (held'.symm.trans heldLast)
      have active' : pack'.active = true := on_.trans again
      refine ⟨?_,active'⟩
      have name : pack'.file.name = pack.file.name := by
        rw [before,after,active,active']
      exact ModPath.ext (folder'.trans folder) name

def anyPack : Reader Nat Unit := ⟨fun _ => .description (),fun _ => .description ()⟩

def zipDirectory : Store ModPath Nat := List.toAList [⟨⟨none,("x.zip":String)⟩,1⟩]

def zipPack : Pack Unit := ⟨⟨none,("x.zip":String)⟩,true,("x":String),()⟩

theorem zipPack_loaded :
    loadFromDir anyPack zipDirectory [.file ("x.zip":String)] = some [zipPack] := by
  decide

theorem toggles_iff_zipPack :
    Toggles ⟨zipDirectory,[zipPack]⟩ [⟨0,false,false⟩,⟨0,true,false⟩] ↔
      (∀ pack ∈ [zipPack], FileUtils.getName pack.file.name = pack.file.name) ∧
        Along State.call State.Matches ⟨zipDirectory,[zipPack]⟩ [⟨0,false,false⟩,⟨0,true,false⟩] :=
  toggles_iff zipPack_loaded _

/-- Switching on what is on takes the extension off the zip file. -/
theorem enabled_twice : ¬∀ (subitems : List Subitem) (directory : Store ModPath Nat)
    (packs : List (Pack Unit)) (calls : List Call),
      loadFromDir anyPack directory subitems = some packs → Toggles ⟨directory,packs⟩ calls := by
  intro every
  have toggles := every [.file ("x.zip":String)] zipDirectory [zipPack] [⟨0,true,false⟩]
    zipPack_loaded
  have mirrors := toggles.mirrors [⟨0,true,false⟩] [] rfl 0
    ⟨⟨none,("x":String)⟩,true,("x":String),()⟩ (by decide)
  revert mirrors
  rw [Mirrors]
  decide

end Runs

end HmclPe.Mods.Datapack
