import HmclPe.Io.Files
import HmclPe.Lib.References
import HmclPe.Lib.Runs
import Mathlib.Data.List.AList

/-! The cache of downloads: an index of the responses by url, kept in memory and in an index file,
and the contents by digest. The index in memory and the one on disk are joined at every save, and
an item that gives way to another takes its file along. -/
namespace HmclPe.Io
open HmclPe.Java HmclPe.Lib.References HmclPe.Lib.Runs

structure ETagItem where
  url : Text
  eTag : Text
  hash : Text
  localLastModified : Int
  remoteLastModified : Option Text
  deriving DecidableEq, Repr

abbrev ETagIndex := AList fun _ : Text => ETagItem

structure CachedFile (β : Type) where
  content : β
  lastModified : Int
  deriving DecidableEq, Repr

/-- The cached files are known by their digest, from which `getFile` makes the path. -/
structure CacheRepository (β : Type) where
  index : ETagIndex
  indexFile : Option (List ETagItem)
  files : Files (CachedFile β)

structure Response where
  url : Text
  eTag : Option Text
  lastModified : Option Text
  deriving DecidableEq, Repr

def Response.eTagItem (conn : Response) (eTag hash : Text) (localLastModified : Int) : ETagItem :=
  ⟨conn.url,eTag,hash,localLastModified,conn.lastModified⟩

section

variable {β τ : Type} [LinearOrder τ] (parse : Text → Option τ) (sha1 : β → Text)

/-- A date that is missing or can not be read comes before all others. Only items of one url are
compared, so the check of the urls never fails. -/
def ETagItem.compareTo (item other : ETagItem) : Ordering :=
  match item.remoteLastModified.bind parse, other.remoteLastModified.bind parse with
  | none, none => .eq
  | none, some _ => .lt
  | some _, none => .gt
  | some thisTime, some otherTime => compare thisTime otherTime

namespace CacheRepository

def values (index : ETagIndex) : List ETagItem := index.entries.map Sigma.snd

def updateEntity (newItem : ETagItem) (oldItem : Option ETagItem) (files : Files (CachedFile β)) :
    ETagItem × Files (CachedFile β) :=
  match oldItem with
  | none => (newItem,files)
  | some oldItem =>
    if oldItem.compareTo parse newItem = .lt then (newItem,files.set oldItem.hash none)
    else (oldItem,files)

def compute (state : ETagIndex × Files (CachedFile β)) (item : ETagItem) :
    ETagIndex × Files (CachedFile β) :=
  let (kept,files) := updateEntity parse item (state.1.lookup item.url) state.2
  (state.1.insert item.url kept,files)

def joinETagIndexes (indexes : List (List ETagItem)) (files : Files (CachedFile β)) :
    ETagIndex × Files (CachedFile β) :=
  indexes.flatten.foldl (compute parse) (∅,files)

/-- An index file that is missing or malformed counts as empty. -/
def saveETagIndex (s : CacheRepository β) : CacheRepository β :=
  let (newIndex,files) := joinETagIndexes parse [s.indexFile.getD [],values s.index] s.files
  ⟨newIndex,some (values newIndex),files⟩

/-- The supplier writes the cached file and gives its digest; without an ETag it is not asked. -/
def cacheData (cacheSupplier : Files (CachedFile β) → Text × Files (CachedFile β)) (conn : Response)
    (s : CacheRepository β) : CacheRepository β :=
  match conn.eTag with
  | none => s
  | some eTag =>
    let (hash,files) := cacheSupplier s.files
    let modified := ((files hash).map CachedFile.lastModified).getD 0
    let (index,files) := compute parse (s.index,files) (conn.eTagItem eTag hash modified)
    saveETagIndex parse ⟨index,s.indexFile,files⟩

/-- The supplier of `cacheRemoteFile` and of `cacheBytes`. -/
def store (content : β) (time : Int) (files : Files (CachedFile β)) :
    Text × Files (CachedFile β) :=
  (sha1 content,files.set (sha1 content) (some ⟨content,time⟩))

def cacheRemoteFile (downloaded : β) (time : Int) (conn : Response) (s : CacheRepository β) :
    CacheRepository β := cacheData parse (store sha1 downloaded time) conn s

def cacheBytes (bytes : β) (time : Int) (conn : Response) (s : CacheRepository β) :
    CacheRepository β := cacheData parse (store sha1 bytes time) conn s

def changeDirectory (s : CacheRepository β) : CacheRepository β :=
  match s.indexFile with
  | none => { s with index := ∅ }
  | some raw =>
    let (index,files) := joinETagIndexes parse [raw] s.files
    { s with index := index, files := files }

def fileExists (s : CacheRepository β) (hash : Text) : Bool :=
  match s.files hash with
  | none => false
  | some file => (sha1 file.content).map Char.toLower = hash.map Char.toLower

/-- The cached file for a url; `none` is an exception. -/
def getCachedRemoteFile (url : Text) (s : CacheRepository β) : Option (CachedFile β) :=
  match s.index.lookup url with
  | none => none
  | some eTagItem =>
    if eTagItem.hash.all (· ≤ ' ') || !fileExists sha1 s eTagItem.hash then none
    else match s.files eTagItem.hash with
      | none => none
      | some file =>
        if file.lastModified ≠ eTagItem.localLastModified ∧ sha1 file.content ≠ eTagItem.hash
        then none else some file

end CacheRepository

end

end HmclPe.Io
