import HmclPe.Io.CacheRepository

/-! When the cache index stays sound over the history of a repository. -/
namespace HmclPe.Io.CacheRepository
open HmclPe.Java HmclPe.Lib.References HmclPe.Lib.Runs

variable {β τ : Type} [LinearOrder τ] {parse : Text → Option τ} {sha1 : β → Text}

def Keyed (index : ETagIndex) : Prop := ∀ url item, index.lookup url = some item → item.url = url

theorem files_set (files : Files (CachedFile β)) (hash : Text) (file : Option (CachedFile β)) :
    files.set hash file = Function.update files hash file := by
  funext other
  rw [Files.set,Function.update_apply]

theorem compareTo_self (item : ETagItem) : item.compareTo parse item = .eq := by
  rw [ETagItem.compareTo]
  cases item.remoteLastModified.bind parse with
  | none => rfl
  | some time => exact compare_eq_iff_eq.mpr rfl

theorem updateEntity_self (item : ETagItem) (files : Files (CachedFile β)) :
    updateEntity parse item (some item) files = (item,files) := by
  simp [updateEntity,compareTo_self]

theorem compute_fst_lookup (index : ETagIndex) (files : Files (CachedFile β)) (item : ETagItem)
    (url : Text) :
    (compute parse (index,files) item).1.lookup url =
      if url = item.url then some (updateEntity parse item (index.lookup item.url) files).1
      else index.lookup url := by
  rw [compute]
  by_cases same : url = item.url
  · rw [if_pos same,same]
    exact AList.lookup_insert _
  · rw [if_neg same]
    exact AList.lookup_insert_ne same

theorem join_known (parse : Text → Option τ) (items : List ETagItem) (index : ETagIndex)
    (files : Files (CachedFile β))
    (known : ∀ item ∈ items, index.lookup item.url = some item) :
    (∀ url, (items.foldl (compute parse) (index,files)).1.lookup url = index.lookup url) ∧
      (items.foldl (compute parse) (index,files)).2 = files := by
  induction items generalizing index files with
  | nil => exact ⟨fun _ => rfl,rfl⟩
  | cons item items ih =>
    have here := known item List.mem_cons_self
    have unchanged : ∀ url, (compute parse (index,files) item).1.lookup url = index.lookup url := by
      intro url
      rw [compute_fst_lookup,here,updateEntity_self]
      by_cases same : url = item.url
      · rw [if_pos same,same,here]
      · rw [if_neg same]
    have kept : (compute parse (index,files) item).2 = files := by
      rw [compute,here,updateEntity_self]
    have next : ∀ other ∈ items,
        (compute parse (index,files) item).1.lookup other.url = some other := by
      intro other inside
      rw [unchanged]
      exact known other (List.mem_cons_of_mem _ inside)
    obtain ⟨lookups,rest⟩ :=
      ih (compute parse (index,files) item).1 (compute parse (index,files) item).2 next
    rw [List.foldl_cons]
    exact ⟨fun url => (lookups url).trans (unchanged url),rest.trans kept⟩

theorem join_fresh (parse : Text → Option τ) (entries : List (Sigma fun _ : Text => ETagItem))
    (distinct : entries.NodupKeys)
    (keyed : ∀ entry ∈ entries, entry.2.url = entry.1) (index : ETagIndex)
    (files : Files (CachedFile β)) (fresh : ∀ entry ∈ entries, index.lookup entry.1 = none) :
    (∀ url, ((entries.map Sigma.snd).foldl (compute parse) (index,files)).1.lookup url =
        (entries.dlookup url).or (index.lookup url)) ∧
      ((entries.map Sigma.snd).foldl (compute parse) (index,files)).2 = files := by
  induction entries generalizing index with
  | nil => exact ⟨fun _ => rfl,rfl⟩
  | cons entry entries ih =>
    obtain ⟨url,item⟩ := entry
    have own : item.url = url := keyed ⟨url,item⟩ List.mem_cons_self
    have absent := fresh ⟨url,item⟩ List.mem_cons_self
    obtain ⟨notLater,distinctLater⟩ := List.nodupKeys_cons.mp distinct
    have entered : compute parse (index,files) item = (index.insert url item,files) := by
      rw [compute,own,absent]
      rfl
    have next : ∀ other ∈ entries, (index.insert url item).lookup other.1 = none := by
      intro other inside
      have different : other.1 ≠ url := by
        intro same
        exact notLater (List.mem_map.mpr ⟨other,inside,same⟩)
      rw [AList.lookup_insert_ne different]
      exact fresh other (List.mem_cons_of_mem _ inside)
    obtain ⟨lookups,rest⟩ := ih distinctLater
      (fun other inside => keyed other (List.mem_cons_of_mem _ inside)) (index.insert url item) next
    rw [List.map_cons,List.foldl_cons,entered]
    refine ⟨fun other => ?_,rest⟩
    rw [lookups]
    by_cases same : other = url
    · subst same
      rw [AList.lookup_insert,List.dlookup_cons_eq,List.dlookup_eq_none.mpr notLater]
      rfl
    · rw [AList.lookup_insert_ne same,List.dlookup_cons_ne _ _ same]

theorem lookup_of_mem_values {index : ETagIndex} (keyed : Keyed index) {item : ETagItem}
    (inside : item ∈ values index) : index.lookup item.url = some item := by
  obtain ⟨entry,member,rfl⟩ := List.mem_map.mp inside
  have found : index.lookup entry.1 = some entry.2 := AList.mem_lookup_iff.mpr member
  rw [keyed _ _ found,found]

/-- What holds of a repository between its operations: the index file stores the index, and every
item has its cached file. -/
structure Consistent (sha1 : β → Text) (s : CacheRepository β) : Prop where
  keyed : Keyed s.index
  stored : ∃ onDisk : ETagIndex, s.indexFile.getD [] = values onDisk ∧
    ∀ url, onDisk.lookup url = s.index.lookup url
  backed : Backed ETagItem.hash (fun hash file => sha1 file.content = hash)
    (fun url => s.index.lookup url) s.files

theorem join_stored (parse : Text → Option τ) {onDisk index : ETagIndex} (keyed : Keyed index)
    (same : ∀ url, onDisk.lookup url = index.lookup url) (files : Files (CachedFile β)) :
    (∀ url, ((values onDisk).foldl (compute parse) (∅,files)).1.lookup url = index.lookup url) ∧
      ((values onDisk).foldl (compute parse) (∅,files)).2 = files := by
  have urls : ∀ entry ∈ onDisk.entries, entry.2.url = entry.1 := by
    intro entry inside
    have found : onDisk.lookup entry.1 = some entry.2 := AList.mem_lookup_iff.mpr inside
    exact keyed entry.1 entry.2 ((same entry.1).symm.trans found)
  obtain ⟨lookups,rest⟩ := join_fresh parse onDisk.entries onDisk.nodupKeys urls ∅ files
    (fun entry _ => AList.lookup_empty entry.1)
  refine ⟨fun url => ?_,rest⟩
  refine (lookups url).trans ?_
  rw [AList.lookup_empty,Option.or_none,← same url]
  rfl

/-- Meeting the same older item a second time changes nothing more. -/
theorem updateEntity_again (item : ETagItem) (old : Option ETagItem) (files : Files (CachedFile β)) :
    updateEntity parse (updateEntity parse item old files).1 old (updateEntity parse item old files).2 =
      updateEntity parse item old files := by
  cases old with
  | none => rfl
  | some old =>
    by_cases older : old.compareTo parse item = .lt
    · have first : updateEntity parse item (some old) files = (item,files.set old.hash none) :=
        if_pos older
      have second : updateEntity parse item (some old) (files.set old.hash none) =
          (item,(files.set old.hash none).set old.hash none) := if_pos older
      rw [first,second,files_set,files_set,Function.update_idem]
    · have first : updateEntity parse item (some old) files = (old,files) := if_neg older
      rw [first,updateEntity_self]

theorem updateEntity_url {item : ETagItem} {old : Option ETagItem}
    (same : ∀ kept, old = some kept → kept.url = item.url) (files : Files (CachedFile β)) :
    (updateEntity parse item old files).1.url = item.url := by
  cases old with
  | none => rfl
  | some old =>
    rw [updateEntity]
    split
    · rfl
    · exact same old rfl

/-- The save after an update stores the updated index and leaves the files as the update did. -/
theorem saveETagIndex_compute (parse : Text → Option τ) {s : CacheRepository β}
    (consistent : Consistent sha1 s)
    (files : Files (CachedFile β)) (item : ETagItem) :
    let updated := compute parse (s.index,files) item
    let saved := saveETagIndex parse ⟨updated.1,s.indexFile,updated.2⟩
    Keyed saved.index ∧ saved.indexFile = some (values saved.index) ∧
      (∀ url, saved.index.lookup url = updated.1.lookup url) ∧ saved.files = updated.2 := by
  intro updated saved
  obtain ⟨onDisk,content,same⟩ := consistent.stored
  have url : (updateEntity parse item (s.index.lookup item.url) files).1.url = item.url :=
    updateEntity_url (fun kept found => consistent.keyed _ _ found) files
  have keyed : Keyed updated.1 := by
    intro other kept found
    rw [compute_fst_lookup] at found
    by_cases here : other = item.url
    · rw [if_pos here,Option.some.injEq] at found
      rw [← found,url,here]
    · rw [if_neg here] at found
      exact consistent.keyed other kept found
  obtain ⟨loaded,untouched⟩ := join_stored parse consistent.keyed same updated.2
  generalize first : (values onDisk).foldl (compute parse) (∅,updated.2) = disk at loaded untouched
  have listed : values updated.1 = (updateEntity parse item (s.index.lookup item.url) files).1 ::
      values (s.index.erase item.url) := rfl
  have again : updateEntity parse (updateEntity parse item (s.index.lookup item.url) files).1
      (disk.1.lookup item.url) disk.2 =
        updateEntity parse item (s.index.lookup item.url) files := by
    rw [loaded,untouched]
    exact updateEntity_again item _ files
  have lookups : ∀ other, (compute parse disk
      (updateEntity parse item (s.index.lookup item.url) files).1).1.lookup other =
        updated.1.lookup other := by
    intro other
    rw [compute_fst_lookup,compute_fst_lookup,url,again,loaded]
  have kept : (compute parse disk
      (updateEntity parse item (s.index.lookup item.url) files).1).2 = updated.2 := by
    rw [compute,url,again]
    rfl
  have known : ∀ other ∈ values (s.index.erase item.url), (compute parse disk
      (updateEntity parse item (s.index.lookup item.url) files).1).1.lookup other.url = some other := by
    intro other inside
    rw [lookups]
    exact lookup_of_mem_values keyed (by rw [listed]; exact List.mem_cons_of_mem _ inside)
  obtain ⟨rest,files_eq⟩ := join_known parse (values (s.index.erase item.url)) _ _ known
  have joined : joinETagIndexes parse [s.indexFile.getD [],values updated.1] updated.2 =
      (values (s.index.erase item.url)).foldl (compute parse) (compute parse disk
        (updateEntity parse item (s.index.lookup item.url) files).1) := by
    rw [joinETagIndexes,List.flatten_cons,List.flatten_cons,List.flatten_nil,List.append_nil,
      List.foldl_append,content,first,listed,List.foldl_cons]
  have result : saved = ⟨(joinETagIndexes parse [s.indexFile.getD [],values updated.1] updated.2).1,
      some (values (joinETagIndexes parse [s.indexFile.getD [],values updated.1] updated.2).1),
      (joinETagIndexes parse [s.indexFile.getD [],values updated.1] updated.2).2⟩ := rfl
  rw [joined] at result
  have all : ∀ other, saved.index.lookup other = updated.1.lookup other := by
    intro other
    rw [result]
    exact (rest other).trans (lookups other)
  refine ⟨?_,?_,all,?_⟩
  · intro other found present
    rw [all] at present
    exact keyed other found present
  · rw [result]
  · rw [result]
    exact files_eq.trans kept

inductive Operation (β : Type) where
  | cacheRemoteFile (downloaded : β) (time : Int) (conn : Response)
  | cacheBytes (bytes : β) (time : Int) (conn : Response)
  | changeDirectory

def run (parse : Text → Option τ) (sha1 : β → Text) (s : CacheRepository β) :
    Operation β → CacheRepository β
  | .cacheRemoteFile downloaded time conn => s.cacheRemoteFile parse sha1 downloaded time conn
  | .cacheBytes bytes time conn => s.cacheBytes parse sha1 bytes time conn
  | .changeDirectory => s.changeDirectory parse

/-- At most one item a url, in memory and in the index file, and each item has its cached file. -/
structure Sound (sha1 : β → Text) (s : CacheRepository β) : Prop where
  inMemory : ((values s.index).map ETagItem.url).Nodup
  onDisk : ((s.indexFile.getD []).map ETagItem.url).Nodup
  cached : ∀ item ∈ values s.index, ∃ file, s.files item.hash = some file ∧
    sha1 file.content = item.hash

/-- The item of the url just stored describes the newest response. -/
def Newest (sha1 : β → Text) (s : CacheRepository β) (content : β) (conn : Response) : Prop :=
  ∀ eTag, conn.eTag = some eTag →
    ∃ item, s.index.lookup conn.url = some item ∧ item.eTag = eTag ∧ item.hash = sha1 content

def Describes (sha1 : β → Text) (s : CacheRepository β) : Operation β → Prop
  | .cacheRemoteFile downloaded _ conn => Newest sha1 s downloaded conn
  | .cacheBytes bytes _ conn => Newest sha1 s bytes conn
  | .changeDirectory => True

/-- An item of the same url is older than the response and no item still needs its file, or it
already describes the response. -/
def Replaceable (parse : Text → Option τ) (sha1 : β → Text) (s : CacheRepository β) (content : β)
    (time : Int) (conn : Response) : Prop :=
  ∀ eTag, conn.eTag = some eTag → ∀ old, s.index.lookup conn.url = some old →
    if old.compareTo parse (conn.eTagItem eTag (sha1 content) time) = .lt then
      sha1 content ≠ old.hash ∧
        ∀ url item, s.index.lookup url = some item → url ≠ conn.url → item.hash ≠ old.hash
    else old.eTag = eTag ∧ old.hash = sha1 content

def Clean (parse : Text → Option τ) (sha1 : β → Text) (s : CacheRepository β) :
    Operation β → Prop
  | .cacheRemoteFile downloaded time conn => Replaceable parse sha1 s downloaded time conn
  | .cacheBytes bytes time conn => Replaceable parse sha1 s bytes time conn
  | .changeDirectory => True

theorem values_urls {index : ETagIndex} (keyed : Keyed index) :
    (values index).map ETagItem.url = index.keys := by
  rw [values,List.map_map]
  refine List.map_congr_left fun entry inside => ?_
  exact keyed entry.1 entry.2 (AList.mem_lookup_iff.mpr inside)

theorem keyed_of_same {first second : ETagIndex} (keyed : Keyed second)
    (same : ∀ url, first.lookup url = second.lookup url) : Keyed first := by
  intro url item found
  exact keyed url item ((same url).symm.trans found)

theorem sound_iff {s : CacheRepository β} (keyed : Keyed s.index)
    (stored : ∃ onDisk : ETagIndex, s.indexFile.getD [] = values onDisk ∧
      ∀ url, onDisk.lookup url = s.index.lookup url) :
    Sound sha1 s ↔ Backed ETagItem.hash (fun hash file => sha1 file.content = hash)
      (fun url => s.index.lookup url) s.files := by
  constructor
  · intro sound url item found
    refine sound.cached item ?_
    exact List.mem_map.mpr ⟨⟨url,item⟩,AList.mem_lookup_iff.mp found,rfl⟩
  · intro backed
    obtain ⟨onDisk,content,same⟩ := stored
    refine ⟨?_,?_,?_⟩
    · rw [values_urls keyed]
      exact s.index.keys_nodup
    · rw [content,values_urls (keyed_of_same keyed same)]
      exact onDisk.keys_nodup
    · intro item inside
      exact backed item.url item (lookup_of_mem_values keyed inside)

/-- An update keeps every item its file and lets the new item in exactly when the item it meets is
older and its file is no longer needed, or says the same already. -/
theorem updateEntity_iff {index : Text → Option ETagItem} {files : Files (CachedFile β)}
    {item : ETagItem} {file : CachedFile β}
    (backed : Backed ETagItem.hash (fun hash file => sha1 file.content = hash) index files)
    (present : files item.hash = some file) (right : sha1 file.content = item.hash) :
    let updated := updateEntity parse item (index item.url) files
    (Backed ETagItem.hash (fun hash file => sha1 file.content = hash)
          (Function.update index item.url (some updated.1)) updated.2 ∧
        updated.1.eTag = item.eTag ∧ updated.1.hash = item.hash) ↔
      ∀ old, index item.url = some old →
        if old.compareTo parse item = .lt then
          item.hash ≠ old.hash ∧
            ∀ url other, index url = some other → url ≠ item.url → other.hash ≠ old.hash
        else old.eTag = item.eTag ∧ old.hash = item.hash := by
  have entered := backed.enter item.url present right
  cases met : index item.url with
  | none =>
    refine iff_of_true ⟨entered,rfl,rfl⟩ ?_
    intro old found
    cases found
  | some old =>
    simp only [Option.some.injEq,forall_eq']
    by_cases older : old.compareTo parse item = .lt
    · have updated : updateEntity parse item (some old) files =
          (item,Function.update files old.hash none) := by
        rw [← files_set]
        exact if_pos older
      rw [updated,if_pos older]
      refine (and_iff_left ⟨rfl,rfl⟩).trans ((entered.delete_iff old.hash).trans ?_)
      constructor
      · intro unused
        refine ⟨unused item.url _ (Function.update_self _ _ _),?_⟩
        intro url other found different
        exact unused url other (by rw [Function.update_of_ne different]; exact found)
      · intro unused url other found
        by_cases here : url = item.url
        · rw [here,Function.update_self,Option.some.injEq] at found
          rw [← found]
          exact unused.1
        · rw [Function.update_of_ne here] at found
          exact unused.2 url other found here
    · have updated : updateEntity parse item (some old) files = (old,files) := if_neg older
      have unchanged : Function.update index item.url (some old) = index := by
        rw [← met]
        exact Function.update_eq_self item.url index
      rw [updated,unchanged,if_neg older]
      exact and_iff_right backed

variable {s : CacheRepository β} {conn : Response} {eTag : Text}

theorem cacheData_none (missing : conn.eTag = none)
    (supplier : Files (CachedFile β) → Text × Files (CachedFile β)) :
    s.cacheData parse supplier conn = s := by
  rw [cacheData,missing]

theorem cacheData_some (given : conn.eTag = some eTag) (content : β) (time : Int) :
    s.cacheData parse (store sha1 content time) conn =
      saveETagIndex parse
        ⟨(compute parse (s.index,s.files.set (sha1 content) (some ⟨content,time⟩))
            (conn.eTagItem eTag (sha1 content) time)).1,s.indexFile,
          (compute parse (s.index,s.files.set (sha1 content) (some ⟨content,time⟩))
            (conn.eTagItem eTag (sha1 content) time)).2⟩ := by
  rw [cacheData,given]
  simp only [store,Files.set_same,Option.map_some,Option.getD_some]

theorem cacheData_spec (parse : Text → Option τ) (consistent : Consistent sha1 s)
    (given : conn.eTag = some eTag) (content : β) (time : Int) :
    let item := conn.eTagItem eTag (sha1 content) time
    let written := Function.update s.files (sha1 content) (some ⟨content,time⟩)
    let updated := updateEntity parse item (s.index.lookup conn.url) written
    let after := s.cacheData parse (store sha1 content time) conn
    Keyed after.index ∧ after.indexFile = some (values after.index) ∧
      (fun url => after.index.lookup url) =
        Function.update (fun url => s.index.lookup url) conn.url (some updated.1) ∧
      after.files = updated.2 := by
  intro item written updated after
  have saved := saveETagIndex_compute parse consistent
    (s.files.set (sha1 content) (some ⟨content,time⟩)) item
  have after_eq : after = _ := cacheData_some given content time
  rw [files_set] at saved after_eq
  obtain ⟨keyed,stored,lookups,files⟩ := saved
  rw [after_eq]
  refine ⟨keyed,stored,?_,files⟩
  funext url
  rw [lookups,compute_fst_lookup,Function.update_apply]
  rfl

theorem newest_iff {after : CacheRepository β} {before : Text → Option ETagItem} {kept : ETagItem}
    (given : conn.eTag = some eTag)
    (lookups : (fun url => after.index.lookup url) = Function.update before conn.url (some kept))
    (content : β) :
    Newest sha1 after content conn ↔ kept.eTag = eTag ∧ kept.hash = sha1 content := by
  have here : after.index.lookup conn.url = some kept := by
    have applied := congrFun lookups conn.url
    rwa [Function.update_self] at applied
  constructor
  · intro newest
    obtain ⟨item,found,tag,hash⟩ := newest eTag given
    rw [here,Option.some.injEq] at found
    rw [found]
    exact ⟨tag,hash⟩
  · intro fits other present
    rw [given,Option.some.injEq] at present
    exact ⟨kept,here,present ▸ fits.1,fits.2⟩

/-- Storing a response keeps the index sound and describes the response exactly when the item it
meets can be replaced. -/
theorem stored_iff (parse : Text → Option τ) (consistent : Consistent sha1 s) (content : β)
    (time : Int) (conn : Response) :
    Sound sha1 (s.cacheData parse (store sha1 content time) conn) ∧
        Newest sha1 (s.cacheData parse (store sha1 content time) conn) content conn ↔
      Replaceable parse sha1 s content time conn := by
  rw [Replaceable]
  cases given : conn.eTag with
  | none =>
    rw [cacheData_none given]
    refine iff_of_true ⟨(sound_iff consistent.keyed consistent.stored).mpr consistent.backed,?_⟩ ?_
    · intro eTag present
      rw [given] at present
      cases present
    · intro eTag present
      cases present
  | some eTag =>
    obtain ⟨keyed,stored,lookups,files⟩ := cacheData_spec parse consistent given content time
    have written := consistent.backed.write
      (show sha1 (⟨content,time⟩ : CachedFile β).content = sha1 content from rfl)
    rw [sound_iff keyed ⟨_,by rw [stored]; rfl,fun _ => rfl⟩,newest_iff given lookups content,
      lookups,files]
    simp only [Option.some.injEq,forall_eq']
    exact @updateEntity_iff _ _ _ _ _ _ _ (conn.eTagItem eTag (sha1 content) time) ⟨content,time⟩
      written (Function.update_self _ _ _) rfl

theorem changeDirectory_spec (parse : Text → Option τ) (consistent : Consistent sha1 s) :
    (∀ url, (s.changeDirectory parse).index.lookup url = s.index.lookup url) ∧
      (s.changeDirectory parse).indexFile = s.indexFile ∧
      (s.changeDirectory parse).files = s.files := by
  obtain ⟨onDisk,content,same⟩ := consistent.stored
  rw [changeDirectory]
  cases read : s.indexFile with
  | none =>
    rw [read] at content
    have empty : onDisk.entries = [] := List.map_eq_nil_iff.mp content.symm
    refine ⟨?_,rfl,rfl⟩
    intro url
    have absent : onDisk.lookup url = none := by
      rw [AList.lookup,empty]
      rfl
    rw [← same url,absent]
    exact AList.lookup_empty url
  | some raw =>
    rw [read,Option.getD_some] at content
    obtain ⟨lookups,files⟩ := join_stored parse consistent.keyed same s.files
    have joined : joinETagIndexes parse [raw] s.files =
        (values onDisk).foldl (compute parse) (∅,s.files) := by
      rw [content,joinETagIndexes,List.flatten_singleton]
    rw [← joined] at lookups files
    exact ⟨lookups,rfl,files⟩

theorem changeDirectory_consistent (parse : Text → Option τ) (consistent : Consistent sha1 s) :
    Consistent sha1 (s.changeDirectory parse) := by
  obtain ⟨lookups,stored,files⟩ := changeDirectory_spec parse consistent
  refine ⟨keyed_of_same consistent.keyed lookups,?_,?_⟩
  · obtain ⟨onDisk,content,same⟩ := consistent.stored
    exact ⟨onDisk,by rw [stored,content],fun url => (same url).trans (lookups url).symm⟩
  · rw [funext lookups,files]
    exact consistent.backed

theorem cacheData_consistent (parse : Text → Option τ) (consistent : Consistent sha1 s) (content : β)
    (time : Int) (conn : Response)
    (sound : Sound sha1 (s.cacheData parse (store sha1 content time) conn)) :
    Consistent sha1 (s.cacheData parse (store sha1 content time) conn) := by
  cases given : conn.eTag with
  | none =>
    rw [cacheData_none given]
    exact consistent
  | some eTag =>
    obtain ⟨keyed,stored,-,-⟩ := cacheData_spec parse consistent given content time
    have onDisk : ∃ onDisk : ETagIndex,
        (s.cacheData parse (store sha1 content time) conn).indexFile.getD [] = values onDisk ∧
          ∀ url, onDisk.lookup url =
            (s.cacheData parse (store sha1 content time) conn).index.lookup url :=
      ⟨_,by rw [stored]; rfl,fun _ => rfl⟩
    exact ⟨keyed,onDisk,(sound_iff keyed onDisk).mp sound⟩

theorem run_iff (consistent : Consistent sha1 s) (operation : Operation β) :
    Sound sha1 (run parse sha1 s operation) ∧
        Describes sha1 (run parse sha1 s operation) operation ↔
      Clean parse sha1 s operation := by
  cases operation with
  | cacheRemoteFile downloaded time conn => exact stored_iff parse consistent downloaded time conn
  | cacheBytes bytes time conn => exact stored_iff parse consistent bytes time conn
  | changeDirectory =>
    have after := changeDirectory_consistent parse consistent
    exact iff_of_true ⟨(sound_iff after.keyed after.stored).mpr after.backed,True.intro⟩ True.intro

theorem run_consistent (consistent : Consistent sha1 s) (operation : Operation β)
    (sound : Sound sha1 (run parse sha1 s operation)) :
    Consistent sha1 (run parse sha1 s operation) := by
  cases operation with
  | cacheRemoteFile downloaded time conn =>
    exact cacheData_consistent parse consistent downloaded time conn sound
  | cacheBytes bytes time conn => exact cacheData_consistent parse consistent bytes time conn sound
  | changeDirectory => exact changeDirectory_consistent parse consistent

theorem getCachedRemoteFile_spec (consistent : Consistent sha1 s) {url : Text} {item : ETagItem}
    (found : s.index.lookup url = some item) (written : item.hash.all (· ≤ ' ') = false) :
    ∃ file, s.getCachedRemoteFile sha1 url = some file ∧ sha1 file.content = item.hash := by
  obtain ⟨file,stored,right⟩ := consistent.backed url item found
  have exist : s.fileExists sha1 item.hash = true := by
    rw [fileExists,stored]
    exact decide_eq_true (congrArg (List.map Char.toLower) right)
  refine ⟨file,?_,right⟩
  rw [getCachedRemoteFile,found]
  simp only [written,exist,stored,right,Bool.not_true,Bool.or_false,Bool.false_eq_true,if_false,
    ne_eq,not_true_eq_false,and_false]

def fresh (files : Files (CachedFile β)) : CacheRepository β := ⟨∅,none,files⟩

theorem fresh_consistent (sha1 : β → Text) (files : Files (CachedFile β)) :
    Consistent sha1 (fresh files) := by
  refine ⟨?_,⟨∅,rfl,fun _ => rfl⟩,?_⟩
  · intro url item found
    cases found
  · intro url item found
    cases found

/-- Over any history the index is sound after each operation, and describes the response just
stored, exactly when each operation is clean. -/
theorem sound_throughout_iff (parse : Text → Option τ) (sha1 : β → Text)
    (files : Files (CachedFile β)) (operations : List (Operation β)) :
    Along (run parse sha1)
        (fun s operation => Sound sha1 (run parse sha1 s operation) ∧
          Describes sha1 (run parse sha1 s operation) operation) (fresh files) operations ↔
      Along (run parse sha1) (Clean parse sha1) (fresh files) operations := by
  refine along_iff ?_ ?_ (fresh_consistent sha1 files) operations
  · intro s operation consistent
    exact run_iff consistent operation
  · intro s operation consistent met
    exact run_consistent consistent operation met.1

def helloDigest : Text → Text
  | ['h','e','l','l','o'] => ("aaf4c61ddcc5e8a2dabede0f3b482cd9aea9434d" : String)
  | content => content

def twoDays (date : Text) : Option Int :=
  List.lookup date [(("Wed, 21 Oct 2015 07:28:00 GMT" : String),1445412480),
    (("Thu, 22 Oct 2015 07:28:00 GMT" : String),1445498880)]

def sameContentLater : List (Operation Text) :=
  [.cacheBytes ("hello" : String) 1 ⟨("https://host/file" : String),some ("a" : String),
      some ("Wed, 21 Oct 2015 07:28:00 GMT" : String)⟩,
    .cacheBytes ("hello" : String) 2 ⟨("https://host/file" : String),some ("b" : String),
      some ("Thu, 22 Oct 2015 07:28:00 GMT" : String)⟩]

theorem same_content_deleted :
    ¬∀ operations : List (Operation Text),
      Sound helloDigest (operations.foldl (run twoDays helloDigest) (fresh fun _ => none)) := by
  intro every
  have sound := every sameContentLater
  have listed : ⟨("https://host/file" : String),("b" : String),helloDigest ("hello" : String),2,
      some ("Thu, 22 Oct 2015 07:28:00 GMT" : String)⟩ ∈
        values (sameContentLater.foldl (run twoDays helloDigest) (fresh fun _ => none)).index := by
    decide +kernel
  obtain ⟨file,stored,-⟩ := sound.cached _ listed
  have deleted : (sameContentLater.foldl (run twoDays helloDigest) (fresh fun _ => none)).files
      (helloDigest ("hello" : String)) = none := by
    decide +kernel
  rw [deleted] at stored
  cases stored

end HmclPe.Io.CacheRepository
