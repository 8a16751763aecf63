import HmclPe.Mods.Datapack

/-! Installing a data pack: what stands in the way of the new pack is deleted before anything that
can fail, and by other names than the packs of the directory are loaded under. -/
namespace HmclPe.Mods.DatapackInstall
open HmclPe.Java Datapack ModManager
open ModList (ModPath)

variable {β δ : Type}

/-- An entry of the directory; a folder with all that stands below it, files with contents. -/
inductive Node (β : Type)
  | file (content : β)
  | folder (below : List (List Text × Option β))

abbrev Entries (β : Type) := Text → Option (Node β)

def Entries.set (entries : Entries β) (name : Text) (node : Option (Node β)) : Entries β :=
  fun other => if other = name then node else entries other

/-- What stands at `datapacks` in the folder of the world. -/
inductive Datapacks (β : Type)
  | missing
  | file
  | folder (entries : Entries β)

def Datapacks.entries : Datapacks β → Entries β
  | .folder entries => entries
  | _ => fun _ => none

/-- A world with the order its directory is listed in. -/
structure World (β : Type) where
  datapacks : Datapacks β
  names : List Text
  listed : ∀ name, name ∈ names ↔ datapacks.entries name ≠ none
  named : datapacks.entries [] = none

/-- How the disk answers; a deletion or copy that fails leaves something at its place. -/
structure Disk (β : Type) where
  lists : Bool
  makes : Bool
  writable : Text → Bool
  deletion : Text → Option (Option (Node β))
  copying : Option (Option (Node β))

/-- What is found at a path. -/
inductive Stands (β : Type)
  | nothing
  | directory
  | file (content : β)

/-- The file of a pack: outside of the directory, or below one of its entries. -/
inductive Source (β : Type)
  | outside (fileName : Text) (stands : Stands β)
  | inside (name : Text) (below : List Text)

def Source.fileName : Source β → Text
  | .outside fileName _ => fileName
  | .inside name below => below.getLast?.getD name

def Source.stands (entries : Entries β) : Source β → Stands β
  | .outside _ stands => stands
  | .inside name below =>
    match entries name, below with
    | none, _ => .nothing
    | some (.file content), [] => .file content
    | some (.file _), _ => .nothing
    | some (.folder _), [] => .directory
    | some (.folder inner), _ =>
      match inner.lookup below with
      | none => .nothing
      | some none => .directory
      | some (some content) => .file content

structure Datapack (β δ : Type) where
  isMultiple : Bool
  path : Source β
  info : List (Pack δ)

/-- The name the archive gets in the directory; an empty one is that of the directory itself. -/
def Datapack.archive (datapack : Datapack β δ) : Text := FileUtils.getName datapack.path.fileName

def Datapack.packs (datapack : Datapack β δ) : List Text := datapack.info.map Pack.id

/-- Whether the installation deletes an entry. -/
def matched (packs : List Text) (name : Text) : Node β → Bool
  | .folder _ => packs.contains (FileUtils.getName name)
  | .file _ => packs.contains (FileUtils.getNameWithoutExtension (FileUtils.getName name))

def deleteEntry (disk : Disk β) (packs : List Text) (entries : Entries β) (name : Text) :
    Except (Entries β) (Entries β) :=
  match entries name with
  | none => .ok entries
  | some node =>
    if matched packs name node then
      match disk.deletion name with
      | none => .ok (entries.set name none)
      | some left => .error (entries.set name left)
    else .ok entries

def deleteInstalled (disk : Disk β) (packs : List Text) (w : World β) :
    Except (Datapacks β) (Datapacks β) :=
  match w.datapacks with
  | .folder entries =>
    if disk.lists then
      match w.names.foldlM (deleteEntry disk packs) entries with
      | .ok entries => .ok (.folder entries)
      | .error entries => .error (.folder entries)
    else .error (.folder entries)
  | other => .ok other

/-- What a copy finds at its destination. -/
inductive Target
  | free | file | emptyFolder | fullFolder
  deriving DecidableEq

def target (names : List Text) (archive : Text) (d : Datapacks β) : Target :=
  if archive = [] then
    match d with
    | .missing => .free
    | .file => .file
    | .folder entries => if names.all fun name => (entries name).isNone then .emptyFolder
      else .fullFolder
  else match d.entries archive with
    | none => .free
    | some (.file _) => .file
    | some (.folder []) => .emptyFolder
    | some (.folder _) => .fullFolder

/-- `makeDirectory` of the destination's parent. -/
def makeParent (disk : Disk β) (archive : Text) (d : Datapacks β) : Option (Datapacks β) :=
  match d with
  | .missing => if disk.makes then some (if archive = [] then .missing else .folder fun _ => none)
    else none
  | .file => if archive = [] then some .file else none
  | .folder entries => some (.folder entries)

def put (archive : Text) (node : Option (Node β)) (d : Datapacks β) : Datapacks β :=
  if archive = [] then match node with
    | none => .missing
    | some (.file _) => .file
    | some (.folder _) => .folder fun _ => none
  else .folder (d.entries.set archive node)

def copyFile (disk : Disk β) (source : Source β) (archive : Text) (names : List Text)
    (d : Datapacks β) : Except (Datapacks β) (Datapacks β) :=
  match source.stands d.entries with
  | .nothing => .error d
  | .directory => .error d
  | .file content =>
    match source with
    | .inside name [] => if name = archive then .error d else write content
    | _ => write content
where
  write (content : β) : Except (Datapacks β) (Datapacks β) :=
    match makeParent disk archive d with
    | none => .error d
    | some d =>
      if target names archive d ≠ .free ∧ disk.writable archive = false then .error d
      else if target names archive d = .fullFolder then .error d
      else match disk.copying with
        | some left => .error (put archive left d)
        | none => .ok (put archive (some (.file content)) d)

def installTo (disk : Disk β) (datapack : Datapack β δ) (w : World β) :
    Except (Datapacks β) (Datapacks β) := do
  let d ← deleteInstalled disk datapack.packs w
  if datapack.isMultiple then .error d
  else copyFile disk datapack.path datapack.archive w.names d

/-! ## What an installation is for -/

/-- The id an entry of the directory is loaded under, if it is a pack. -/
def packId (reader : Reader β δ) (name : Text) : Node β → Option Text
  | .folder below =>
    match below.lookup [mcmetaName] with
    | some none => none
    | some (some content) => single (loadMcMeta reader name ⟨some name,mcmetaName⟩ content)
    | none =>
      match below.lookup [mcmetaName ++ disabledExtension] with
      | some (some content) =>
        single (loadMcMeta reader name ⟨some name,mcmetaName ++ disabledExtension⟩ content)
      | _ => none
  | .file content => single (loadZip reader name content)
where
  single (packs : Option (List (Pack δ))) : Option Text :=
    packs.bind fun packs => packs.head?.map Pack.id

def installed (reader : Reader β δ) (packs : List Text) (name : Text) (node : Node β) : Bool :=
  match packId reader name node with
  | some id => packs.contains id
  | none => false

/-- An exception leaves the directory as it was; otherwise it holds the archive and all other
entries but those of the installed packs. -/
def AllOrNothing (reader : Reader β δ) (datapack : Datapack β δ) (before : Entries β) :
    Except (Datapacks β) (Datapacks β) → Prop
  | .error after => after.entries = before
  | .ok after => ∃ content, datapack.path.stands before = .file content ∧
      after.entries datapack.archive = some (.file content) ∧
      ∀ name ≠ datapack.archive, after.entries name =
        (before name).filter fun node => !installed reader datapack.packs name node

/-! ## When it keeps its promise -/

section Conditions

def matchedEntry (packs : List Text) (entries : Entries β) (name : Text) : Bool :=
  match entries name with
  | some node => matched packs name node
  | none => false

variable (disk : Disk β) (datapack : Datapack β δ) (w : World β)

def Matched (name : Text) : Prop := matchedEntry datapack.packs w.datapacks.entries name = true

instance (name : Text) : Decidable (Matched datapack w name) :=
  inferInstanceAs (Decidable (_ = true))

/-- The directory without the matched entries. -/
def swept : Datapacks β :=
  match w.datapacks with
  | .folder entries =>
    .folder fun name => if matchedEntry datapack.packs entries name then none else entries name
  | other => other

/-- The directory can be listed, and what is to be deleted can be. -/
structure Clears : Prop where
  lists : (∃ entries, w.datapacks = .folder entries) → disk.lists = true
  deletes : ∀ name, Matched datapack w name → disk.deletion name = none

/-- The source is a file other than the destination, and the destination can be written. -/
structure Accepts (source : Source β) (archive : Text) (names : List Text) (d : Datapacks β) :
    Prop where
  file : ∃ content, source.stands d.entries = .file content
  other : source ≠ .inside archive []
  parent : (makeParent disk archive d).isSome = true
  writable : target names archive d ≠ .free → disk.writable archive = true
  room : target names archive d ≠ .fullFolder

/-- There is one pack only, and its file can be copied once the matched entries are gone. -/
structure Copyable : Prop where
  single : datapack.isMultiple = false
  accepts : Accepts disk datapack.path datapack.archive w.names (swept datapack w)

/-- The first matched entry of the listing, if there is one, can not even be begun to delete. -/
def Spared : Prop :=
  (∃ entries, w.datapacks = .folder entries) → disk.lists = true →
    ∀ name, w.names.find? (matchedEntry datapack.packs w.datapacks.entries) = some name →
      disk.deletion name = some (w.datapacks.entries name)

/-- The name rule of the deletion and the ids of the loading agree on all other entries. -/
def Agrees (reader : Reader β δ) : Prop :=
  ∀ name ≠ datapack.archive, ∀ node, w.datapacks.entries name = some node →
    matched datapack.packs name node = installed reader datapack.packs name node

/-- An installation that can be refused finds nothing it would delete first; a copy that breaks off
leaves what was there; and one that succeeds deletes just the installed packs. -/
def Sound (reader : Reader β δ) : Prop :=
  (¬ (Clears disk datapack w ∧ Copyable disk datapack w) → Spared disk datapack w) ∧
  (Clears disk datapack w ∧ Copyable disk datapack w → match disk.copying with
    | some left => (∀ name ≠ datapack.archive, ¬ Matched datapack w name) ∧
        (datapack.archive ≠ [] → left = w.datapacks.entries datapack.archive)
    | none => datapack.archive ≠ [] ∧ Agrees datapack w reader)

end Conditions

/-! ## The deletions -/

section Deletions

variable {disk : Disk β} {packs : List Text} {entries : Entries β} {name other : Text}

theorem set_self {node : Option (Node β)} : entries.set name node name = node := if_pos rfl

theorem set_other {node : Option (Node β)} (different : other ≠ name) :
    entries.set name node other = entries other := if_neg different

theorem set_eq_iff {node : Option (Node β)} :
    entries.set name node = entries ↔ node = entries name := by
  constructor
  · intro same
    rw [← congrFun same name,set_self]
  · intro same
    funext other
    by_cases here : other = name
    · rw [here,set_self,same]
    · rw [set_other here]

theorem deleteEntry_other (other : matchedEntry packs entries name = false) :
    deleteEntry disk packs entries name = .ok entries := by
  rw [matchedEntry] at other
  rw [deleteEntry]
  cases found : entries name with
  | none => rfl
  | some node =>
    rw [found] at other
    simp only [other]
    rfl

theorem deleteEntry_matched (here : matchedEntry packs entries name = true) :
    deleteEntry disk packs entries name = match disk.deletion name with
      | none => .ok (entries.set name none)
      | some left => .error (entries.set name left) := by
  rw [matchedEntry] at here
  rw [deleteEntry]
  cases found : entries name with
  | none =>
    rw [found] at here
    cases here
  | some node =>
    rw [found] at here
    simp only [here]
    rfl

theorem matchedEntry_none (free : entries name = none) : matchedEntry packs entries name = false := by
  rw [matchedEntry,free]

theorem matchedEntry_set {node : Option (Node β)} (different : other ≠ name) :
    matchedEntry packs (entries.set name node) other = matchedEntry packs entries other := by
  rw [matchedEntry,matchedEntry,set_other different]

/-- A turn of the loop touches its own entry only, and makes none where there was none. -/
theorem deleteEntry_free (free : entries other = none) :
    match deleteEntry disk packs entries name with
    | .ok after => after other = none
    | .error after => other ≠ name → after other = none := by
  cases here : matchedEntry packs entries name with
  | false =>
    rw [deleteEntry_other here]
    exact free
  | true =>
    rw [deleteEntry_matched here]
    have different : other ≠ name := by
      rintro rfl
      rw [matchedEntry_none free] at here
      cases here
    cases disk.deletion name with
    | none =>
      simp only
      rw [set_other different,free]
    | some left =>
      intro _
      rw [set_other different,free]

/-- The matched entries of the listed names are taken away. -/
def sweptOf (packs : List Text) (names : List Text) (entries : Entries β) : Entries β :=
  fun name => if matchedEntry packs entries name ∧ names.contains name then none else entries name

theorem sweptOf_nil : sweptOf packs [] entries = entries := by
  funext name
  simp [sweptOf]

theorem sweptOf_other {names : List Text} (here : matchedEntry packs entries name = false) :
    sweptOf packs (name :: names) entries = sweptOf packs names entries := by
  funext other
  by_cases equal : other = name
  · rw [sweptOf,sweptOf,equal,here]
    simp
  · simp [sweptOf,equal]

theorem sweptOf_matched {names : List Text} (here : matchedEntry packs entries name = true) :
    sweptOf packs (name :: names) entries = sweptOf packs names (entries.set name none) := by
  funext other
  by_cases equal : other = name
  · rw [sweptOf,sweptOf,equal,if_pos ⟨here,by simp⟩,set_self]
    simp
  · rw [sweptOf,sweptOf,matchedEntry_set equal,set_other equal]
    simp [equal]

theorem foldlM_deleteEntry {names : List Text}
    (deletes : ∀ name ∈ names, matchedEntry packs entries name = true → disk.deletion name = none) :
    names.foldlM (deleteEntry disk packs) entries = .ok (sweptOf packs names entries) := by
  induction names generalizing entries with
  | nil =>
    rw [sweptOf_nil]
    rfl
  | cons name names ih =>
    rw [List.foldlM_cons]
    cases here : matchedEntry packs entries name with
    | false =>
      rw [deleteEntry_other here,sweptOf_other here]
      exact ih fun other member => deletes other (List.mem_cons_of_mem name member)
    | true =>
      rw [deleteEntry_matched here,deletes name List.mem_cons_self here,sweptOf_matched here]
      apply ih
      intro other member yes
      apply deletes other (List.mem_cons_of_mem name member)
      have different : other ≠ name := by
        rintro rfl
        rw [matchedEntry_none set_self] at yes
        cases yes
      rwa [matchedEntry_set different] at yes

/-- Nothing is made where there was nothing, however the deletions end. -/
theorem foldlM_free {names : List Text} {after : Entries β}
    (fails : names.foldlM (deleteEntry disk packs) entries = .error after)
    (free : entries other = none) : after other = none := by
  induction names generalizing entries with
  | nil => cases fails
  | cons name names ih =>
    rw [List.foldlM_cons] at fails
    have turn := @deleteEntry_free β disk packs entries name other free
    cases here : deleteEntry disk packs entries name with
    | ok next =>
      rw [here] at fails turn
      exact ih fails turn
    | error next =>
      rw [here] at fails turn
      obtain rfl := Except.error.inj fails
      apply turn
      rintro rfl
      rw [deleteEntry_other (matchedEntry_none free)] at here
      cases here

/-- Where some deletion fails, the entries are as before exactly when it is the first. -/
theorem foldlM_fails {names : List Text}
    (fails : ∃ name ∈ names, matchedEntry packs entries name = true ∧ disk.deletion name ≠ none) :
    ∃ after, names.foldlM (deleteEntry disk packs) entries = .error after ∧
      (after = entries ↔ ∀ name, names.find? (matchedEntry packs entries) = some name →
        disk.deletion name = some (entries name)) := by
  induction names generalizing entries with
  | nil =>
    obtain ⟨name,member,-⟩ := fails
    cases member
  | cons name names ih =>
    obtain ⟨other,member,yes,failing⟩ := fails
    rw [List.foldlM_cons]
    cases here : matchedEntry packs entries name with
    | false =>
      have different : other ≠ name := by
        rintro rfl
        rw [here] at yes
        cases yes
      have inside := (List.mem_cons.mp member).resolve_left different
      rw [deleteEntry_other here,List.find?_cons_of_neg (by simp [here])]
      exact ih ⟨other,inside,yes,failing⟩
    | true =>
      rw [deleteEntry_matched here,List.find?_cons_of_pos here]
      cases deletion : disk.deletion name with
      | some left =>
        refine ⟨entries.set name left,rfl,?_⟩
        rw [set_eq_iff]
        constructor
        · intro same first found
          obtain rfl := Option.some.inj found
          rw [deletion,same]
        · intro first
          exact Option.some.inj (deletion.symm.trans (first name rfl))
      | none =>
        have different : other ≠ name := by
          rintro rfl
          exact failing deletion
        have inside := (List.mem_cons.mp member).resolve_left different
        obtain ⟨after,ends,-⟩ := ih ⟨other,inside,(matchedEntry_set different).trans yes,failing⟩
        have gone : after name = none := foldlM_free ends set_self
        refine ⟨after,ends,?_⟩
        constructor
        · intro same
          rw [same] at gone
          rw [matchedEntry_none gone] at here
          cases here
        · intro first
          cases deletion.symm.trans (first name rfl)

end Deletions

/-! ## The copy -/

section Copy

variable {disk : Disk β} {datapack : Datapack β δ} {w : World β}

theorem swept_entries (name : Text) : (swept datapack w).entries name =
    if matchedEntry datapack.packs w.datapacks.entries name then none
    else w.datapacks.entries name := by
  rw [swept]
  cases w.datapacks with
  | missing =>
    rw [matchedEntry_none rfl]
    rfl
  | file =>
    rw [matchedEntry_none rfl]
    rfl
  | folder entries => rfl

theorem listed_of_matched {entries : Entries β} (folder : w.datapacks = .folder entries) {name : Text}
    (here : matchedEntry datapack.packs entries name = true) : name ∈ w.names := by
  rw [w.listed,folder]
  intro free
  have absent : entries name = none := free
  rw [matchedEntry_none absent] at here
  cases here

theorem sweptOf_world {entries : Entries β} (folder : w.datapacks = .folder entries) :
    .folder (sweptOf datapack.packs w.names entries) = swept datapack w := by
  rw [swept,folder]
  congr
  funext name
  rw [sweptOf]
  by_cases here : matchedEntry datapack.packs entries name = true
  · have listed := List.contains_iff_mem.mpr (listed_of_matched folder here)
    rw [if_pos ⟨here,listed⟩,if_pos here]
  · rw [if_neg (fun both => here both.1),if_neg here]

theorem deleteInstalled_clears (clears : Clears disk datapack w) :
    deleteInstalled disk datapack.packs w = .ok (swept datapack w) := by
  rw [deleteInstalled]
  cases shape : w.datapacks with
  | missing => rw [swept,shape]
  | file => rw [swept,shape]
  | folder entries =>
    have deletes : ∀ name ∈ w.names, matchedEntry datapack.packs entries name = true →
        disk.deletion name = none := by
      intro name _ here
      apply clears.deletes
      rw [Matched,shape]
      exact here
    simp only
    rw [if_pos (clears.lists ⟨entries,shape⟩),foldlM_deleteEntry deletes]
    simp only
    rw [sweptOf_world shape]

/-- Where there is no directory there is nothing to delete. -/
theorem clears_of_empty (free : w.datapacks.entries = fun _ => none)
    (other : ¬∃ entries, w.datapacks = .folder entries) : Clears disk datapack w := by
  refine ⟨fun folder => absurd folder other,?_⟩
  intro name here
  rw [Matched,free,matchedEntry_none rfl] at here
  cases here

theorem deleteInstalled_fails (fails : ¬ Clears disk datapack w) :
    ∃ after, deleteInstalled disk datapack.packs w = .error after ∧
      (after.entries = w.datapacks.entries ↔ Spared disk datapack w) := by
  cases shape : w.datapacks with
  | missing =>
    refine absurd (clears_of_empty ?_ ?_) fails
    · rw [shape]
      rfl
    · rintro ⟨entries,folder⟩
      rw [shape] at folder
      cases folder
  | file =>
    refine absurd (clears_of_empty ?_ ?_) fails
    · rw [shape]
      rfl
    · rintro ⟨entries,folder⟩
      rw [shape] at folder
      cases folder
  | folder entries =>
    rw [deleteInstalled,shape]
    cases lists : disk.lists with
    | false =>
      refine ⟨.folder entries,rfl,?_⟩
      constructor
      · intro _ _ listed
        rw [lists] at listed
        cases listed
      · intro _
        rfl
    | true =>
      have failing : ∃ name ∈ w.names, matchedEntry datapack.packs entries name = true ∧
          disk.deletion name ≠ none := by
        by_contra none_
        push Not at none_
        apply fails
        refine ⟨fun _ => lists,?_⟩
        intro name here
        rw [Matched,shape] at here
        exact none_ name (listed_of_matched shape here) here
      obtain ⟨after,ends,same⟩ := foldlM_fails failing
      refine ⟨.folder after,?_,?_⟩
      · simp only [if_true]
        rw [ends]
      · rw [Spared,shape]
        constructor
        · intro equal _ _
          exact same.mp equal
        · intro spared
          exact same.mpr (spared ⟨entries,rfl⟩ lists)

/-- What the copy leaves when all its checks pass. -/
def copied (disk : Disk β) (archive : Text) (content : β) (d : Datapacks β) :
    Except (Datapacks β) (Datapacks β) :=
  match disk.copying with
  | some left => .error (put archive left d)
  | none => .ok (put archive (some (.file content)) d)

theorem makeParent_entries {archive : Text} {d d' : Datapacks β}
    (made : makeParent disk archive d = some d') : d'.entries = d.entries := by
  unfold makeParent at made
  split at made
  · split at made
    · obtain rfl := Option.some.inj made
      split <;> rfl
    · cases made
  · split at made
    · obtain rfl := Option.some.inj made
      rfl
    · cases made
  · obtain rfl := Option.some.inj made
    rfl

theorem target_makeParent {archive : Text} {names : List Text} {d d' : Datapacks β}
    (made : makeParent disk archive d = some d') :
    target names archive d' = target names archive d := by
  have entries := makeParent_entries made
  rw [target.eq_def,target.eq_def]
  by_cases itself : archive = []
  · rw [if_pos itself,if_pos itself]
    unfold makeParent at made
    simp only [if_pos itself] at made
    split at made
    · split at made
      · obtain rfl := Option.some.inj made
        rfl
      · cases made
    · obtain rfl := Option.some.inj made
      rfl
    · obtain rfl := Option.some.inj made
      rfl
  · rw [if_neg itself,if_neg itself,entries]

section Checks

variable {source : Source β} {archive : Text} {names : List Text} {d : Datapacks β}

theorem write_made {content : β} {d' : Datapacks β} (made : makeParent disk archive d = some d') :
    copyFile.write disk archive names d content =
      if target names archive d ≠ .free ∧ disk.writable archive = false then .error d'
      else if target names archive d = .fullFolder then .error d'
      else copied disk archive content d' := by
  rw [copyFile.write,made]
  simp only
  rw [target_makeParent made,copied]

/-- A check that does not pass leaves the entries as they are. -/
theorem copyFile_refuses (refuses : ¬ Accepts disk source archive names d) :
    ∃ d', copyFile disk source archive names d = .error d' ∧ d'.entries = d.entries := by
  rw [copyFile]
  cases stands : source.stands d.entries with
  | nothing => exact ⟨d,rfl,rfl⟩
  | directory => exact ⟨d,rfl,rfl⟩
  | file content =>
    have writes : source ≠ .inside archive [] →
        ∃ d', copyFile.write disk archive names d content = .error d' ∧
          d'.entries = d.entries := by
      intro other
      cases made : makeParent disk archive d with
      | none => exact ⟨d,by rw [copyFile.write,made],rfl⟩
      | some d' =>
        refine ⟨d',?_,makeParent_entries made⟩
        rw [write_made made]
        split
        · rfl
        · next writable =>
          split
          · rfl
          · next room =>
            apply absurd _ refuses
            refine ⟨⟨content,stands⟩,other,by rw [made]; rfl,?_,room⟩
            intro taken
            by_contra locked
            exact writable ⟨taken,Bool.eq_false_iff.mpr locked⟩
    cases source with
    | outside fileName there => exact writes (by simp)
    | inside name below =>
      cases below with
      | nil =>
        simp only
        split
        · exact ⟨d,rfl,rfl⟩
        · next different => exact writes (by simp [different])
      | cons first below => exact writes (by simp)

theorem copyFile_accepts (accepts : Accepts disk source archive names d) :
    ∃ content d', source.stands d.entries = .file content ∧ d'.entries = d.entries ∧
      copyFile disk source archive names d = copied disk archive content d' := by
  obtain ⟨content,stands⟩ := accepts.file
  obtain ⟨d',made⟩ := Option.isSome_iff_exists.mp accepts.parent
  refine ⟨content,d',stands,makeParent_entries made,?_⟩
  have writes : copyFile.write disk archive names d content =
      copied disk archive content d' := by
    rw [write_made made,if_neg,if_neg accepts.room]
    rintro ⟨taken,locked⟩
    rw [accepts.writable taken] at locked
    cases locked
  rw [copyFile,stands]
  cases source with
  | outside fileName there => exact writes
  | inside name below =>
    cases below with
    | nil =>
      have different : name ≠ archive := by
        rintro rfl
        exact accepts.other rfl
      simp only
      rw [if_neg different]
      exact writes
    | cons first below => exact writes

end Checks

theorem put_entries {archive : Text} (named : archive ≠ []) (node : Option (Node β))
    (d : Datapacks β) : (put archive node d).entries = d.entries.set archive node := by
  unfold put
  rw [if_neg named]
  rfl

theorem put_itself {archive : Text} (itself : archive = []) (node : Option (Node β))
    (d : Datapacks β) : (put archive node d).entries = fun _ => none := by
  unfold put
  rw [if_pos itself]
  split <;> rfl

theorem stands_swept {content : β}
    (stands : datapack.path.stands (swept datapack w).entries = .file content) :
    datapack.path.stands w.datapacks.entries = .file content := by
  cases path : datapack.path with
  | outside fileName there =>
    rw [path] at stands
    exact stands
  | inside name below =>
    rw [path] at stands
    have kept : (swept datapack w).entries name = w.datapacks.entries name := by
      rw [swept_entries]
      split
      · next gone =>
        simp only [Source.stands] at stands
        rw [swept_entries,if_pos gone] at stands
        cases stands
      · rfl
    simp only [Source.stands] at stands ⊢
    rw [kept] at stands
    exact stands

theorem swept_matched {name : Text} (here : Matched datapack w name) :
    (swept datapack w).entries name = none := by
  rw [Matched] at here
  rw [swept_entries,if_pos here]

theorem swept_other {name : Text} (other : ¬ Matched datapack w name) :
    (swept datapack w).entries name = w.datapacks.entries name := by
  rw [Matched] at other
  rw [swept_entries,if_neg other]

theorem swept_iff : (swept datapack w).entries = w.datapacks.entries ↔
    ∀ name, ¬ Matched datapack w name := by
  constructor
  · intro same name here
    have gone := congrFun same name
    rw [swept_matched here] at gone
    rw [Matched,matchedEntry_none gone.symm] at here
    cases here
  · intro none_
    funext name
    exact swept_other (none_ name)

theorem spared_iff (clears : Clears disk datapack w) :
    Spared disk datapack w ↔ ∀ name, ¬ Matched datapack w name := by
  constructor
  · intro spared name here
    cases shape : w.datapacks with
    | missing =>
      rw [Matched,shape] at here
      cases here
    | file =>
      rw [Matched,shape] at here
      cases here
    | folder entries =>
      have first := spared ⟨entries,shape⟩ (clears.lists ⟨entries,shape⟩)
      have listed : name ∈ w.names := by
        rw [w.listed]
        intro free
        rw [Matched,matchedEntry_none free] at here
        cases here
      obtain ⟨found,at_⟩ := Option.isSome_iff_exists.mp (List.find?_isSome.mpr ⟨name,listed,here⟩)
      have whole := first found at_
      rw [clears.deletes found (List.find?_some at_)] at whole
      cases whole
  · intro none_ _ _ name found
    exact absurd (List.find?_some found) (none_ name)

end Copy

section Install

variable {disk : Disk β} {datapack : Datapack β δ} {w : World β} (reader : Reader β δ)

theorem installTo_fails (fails : ¬ Clears disk datapack w) :
    ∃ after, installTo disk datapack w = .error after ∧
      (after.entries = w.datapacks.entries ↔ Spared disk datapack w) := by
  obtain ⟨after,ends,same⟩ := deleteInstalled_fails fails
  exact ⟨after,by rw [installTo,ends]; rfl,same⟩

theorem installTo_clears (clears : Clears disk datapack w) :
    installTo disk datapack w =
      if datapack.isMultiple then .error (swept datapack w)
      else copyFile disk datapack.path datapack.archive w.names (swept datapack w) := by
  rw [installTo,deleteInstalled_clears clears]
  rfl

theorem installTo_refused (clears : Clears disk datapack w)
    (refused : ¬ Copyable disk datapack w) :
    ∃ after, installTo disk datapack w = .error after ∧
      after.entries = (swept datapack w).entries := by
  rw [installTo_clears clears]
  cases multiple : datapack.isMultiple with
  | true => exact ⟨_,rfl,rfl⟩
  | false => exact copyFile_refuses fun accepts => refused ⟨multiple,accepts⟩

theorem installTo_copies (clears : Clears disk datapack w) (copyable : Copyable disk datapack w) :
    ∃ content d', datapack.path.stands w.datapacks.entries = .file content ∧
      d'.entries = (swept datapack w).entries ∧
      installTo disk datapack w = copied disk datapack.archive content d' := by
  obtain ⟨content,d',stands,entries,copies⟩ := copyFile_accepts copyable.accepts
  refine ⟨content,d',stands_swept stands,entries,?_⟩
  rw [installTo_clears clears,copyable.single,copies]
  rfl

theorem agrees_iff : (∀ name ≠ datapack.archive, (swept datapack w).entries name =
      (w.datapacks.entries name).filter fun node => !installed reader datapack.packs name node) ↔
    Agrees datapack w reader := by
  rw [Agrees]
  apply forall_congr'
  intro name
  apply forall_congr'
  intro _
  rw [swept_entries,matchedEntry]
  cases w.datapacks.entries name with
  | none => simp
  | some node =>
    simp only [Option.some.injEq,forall_eq',Option.filter_some]
    by_cases deletes : matched datapack.packs name node = true
    · by_cases installs : installed reader datapack.packs name node = true
      · simp [deletes,installs]
      · simp [deletes,installs]
    · by_cases installs : installed reader datapack.packs name node = true
      · simp [deletes,installs]
      · simp [deletes,installs]

/-- A copy goes over the directory itself only when nothing is left in it. -/
theorem swept_itself (copyable : Copyable disk datapack w) (itself : datapack.archive = [])
    (name : Text) : (swept datapack w).entries name = none := by
  have room := copyable.accepts.room
  by_contra there
  cases shape : swept datapack w with
  | missing =>
    rw [shape] at there
    exact there rfl
  | file =>
    rw [shape] at there
    exact there rfl
  | folder entries =>
    rw [shape,target.eq_def,if_pos itself] at room
    rw [shape] at there
    have listed : name ∈ w.names := by
      rw [w.listed]
      intro free
      have absent := @swept_entries β δ datapack w name
      rw [matchedEntry_none free,if_neg Bool.false_ne_true,free,shape] at absent
      exact there absent
    apply room
    simp only
    rw [if_neg]
    intro all
    have gone := List.all_eq_true.mp all name listed
    exact there (Option.isNone_iff_eq_none.mp gone)

theorem breaksOff_iff (copyable : Copyable disk datapack w) {left : Option (Node β)}
    {d : Datapacks β} (entries : d.entries = (swept datapack w).entries) :
    (put datapack.archive left d).entries = w.datapacks.entries ↔
      (∀ name ≠ datapack.archive, ¬ Matched datapack w name) ∧
        (datapack.archive ≠ [] → left = w.datapacks.entries datapack.archive) := by
  by_cases itself : datapack.archive = []
  · rw [put_itself itself]
    constructor
    · intro same
      refine ⟨?_,fun named => absurd itself named⟩
      intro name _ here
      rw [Matched,matchedEntry_none (congrFun same name).symm] at here
      cases here
    · rintro ⟨none_,-⟩
      funext name
      by_cases empty : name = []
      · rw [empty,w.named]
      · rw [← swept_other (none_ name (by rw [itself]; exact empty)),
          swept_itself copyable itself name]
  · rw [put_entries itself,entries]
    constructor
    · intro same
      constructor
      · intro name different here
        have gone := congrFun same name
        rw [set_other different,swept_matched here] at gone
        rw [Matched,matchedEntry_none gone.symm] at here
        cases here
      · intro _
        rw [← same,set_self]
    · rintro ⟨none_,whole⟩
      funext name
      by_cases here : name = datapack.archive
      · rw [here,set_self,whole itself]
      · rw [set_other here,swept_other (none_ name here)]

theorem succeeds_iff {content : β} (stands : datapack.path.stands w.datapacks.entries = .file content)
    {d : Datapacks β} (entries : d.entries = (swept datapack w).entries) :
    AllOrNothing reader datapack w.datapacks.entries
      (.ok (put datapack.archive (some (.file content)) d)) ↔
    datapack.archive ≠ [] ∧ Agrees datapack w reader := by
  rw [AllOrNothing,← agrees_iff]
  by_cases itself : datapack.archive = []
  · rw [put_itself itself]
    constructor
    · rintro ⟨_,-,there,-⟩
      cases there
    · rintro ⟨named,-⟩
      exact absurd itself named
  · rw [put_entries itself,entries]
    constructor
    · rintro ⟨_,-,-,others⟩
      refine ⟨itself,?_⟩
      intro name different
      rw [← others name different,set_other different]
    · rintro ⟨-,others⟩
      refine ⟨content,stands,set_self,?_⟩
      intro name different
      rw [set_other different,others name different]

/-- The installation is all or nothing exactly when it is sound. -/
theorem allOrNothing_iff (disk : Disk β) (datapack : Datapack β δ) (w : World β) :
    AllOrNothing reader datapack w.datapacks.entries (installTo disk datapack w) ↔
      Sound disk datapack w reader := by
  by_cases clears : Clears disk datapack w
  · by_cases copyable : Copyable disk datapack w
    · obtain ⟨content,d',stands,entries,copies⟩ := installTo_copies clears copyable
      have both : Clears disk datapack w ∧ Copyable disk datapack w := ⟨clears,copyable⟩
      have reduced : Sound disk datapack w reader ↔ match disk.copying with
          | some left => (∀ name ≠ datapack.archive, ¬ Matched datapack w name) ∧
              (datapack.archive ≠ [] → left = w.datapacks.entries datapack.archive)
          | none => datapack.archive ≠ [] ∧ Agrees datapack w reader :=
        ⟨fun sound => sound.2 both,fun here => ⟨fun not => absurd both not,fun _ => here⟩⟩
      rw [copies,reduced,copied]
      cases disk.copying with
      | some left => exact breaksOff_iff copyable entries
      | none => exact succeeds_iff reader stands entries
    · obtain ⟨after,ends,entries⟩ := installTo_refused clears copyable
      have refused : ¬ (Clears disk datapack w ∧ Copyable disk datapack w) :=
        fun both => copyable both.2
      rw [ends,AllOrNothing,entries,swept_iff,← spared_iff clears]
      exact ⟨fun spared => ⟨fun _ => spared,fun both => absurd both refused⟩,
        fun sound => sound.1 refused⟩
  · obtain ⟨after,ends,same⟩ := installTo_fails clears
    have refused : ¬ (Clears disk datapack w ∧ Copyable disk datapack w) :=
      fun both => clears both.1
    rw [ends,AllOrNothing,same]
    exact ⟨fun spared => ⟨fun _ => spared,fun both => absurd both refused⟩,
      fun sound => sound.1 refused⟩

end Install

def fooZip : Text := ("foo.zip":String)

/-- A world with one data pack. -/
def fooWorld : World Unit where
  datapacks := .folder fun name => if name = fooZip then some (.file ()) else none
  names := [fooZip]
  listed := by
    intro name
    simp [Datapacks.entries]
  named := by
    rw [Datapacks.entries,if_neg]
    exact by decide

def answering : Disk Unit := ⟨true,true,fun _ => true,fun _ => none,none⟩

def collection : Datapack Unit Unit where
  isMultiple := true
  path := .outside ("packs.zip":String) (.file ())
  info := [Pack.new ⟨none,("packs.zip":String)⟩ ("foo":String) ()]

def reading : Reader Unit Unit := ⟨fun _ => .description (),fun _ => .description ()⟩

/-- A collection of packs is refused after the pack of the world is deleted. -/
theorem not_allOrNothing_collection :
    ¬ AllOrNothing reading collection fooWorld.datapacks.entries
      (installTo answering collection fooWorld) := by
  have clears : Clears answering collection fooWorld := ⟨fun _ => rfl,fun _ _ => rfl⟩
  have refused : ¬ Copyable answering collection fooWorld := fun copyable => by
    cases copyable.single
  obtain ⟨after,ends,entries⟩ := installTo_refused clears refused
  rw [ends,AllOrNothing,entries,swept_iff]
  intro none_
  apply none_ fooZip
  rw [Matched,matchedEntry,fooWorld,Datapacks.entries,if_pos rfl]
  decide

end HmclPe.Mods.DatapackInstall
