import HmclPe.Java.Text

/-! Files by path, and the test that decides whether a file has to be downloaded.
The digest of a file is missing when the file cannot be read. -/
namespace HmclPe.Io
open HmclPe.Java

variable {β : Type}

abbrev Files (β : Type) := Text → Option β

def Files.exist (files : Files β) (path : Text) : Bool := (files path).isSome

def isRightFile (getFileSha1 : β → Option Text) (files : Files β) (path : Text) (sha1 : Option Text) :
    Bool :=
  match files path with
  | none => false
  | some content => match sha1 with
    | none => true
    | some sha1 => sha1 = [] || getFileSha1 content = some sha1

/-- The file at a path is written, or deleted. -/
def Files.set (files : Files β) (path : Text) (content : Option β) : Files β :=
  fun other => if other = path then content else files other

theorem Files.set_same (files : Files β) (path : Text) (content : Option β) :
    files.set path content path = content := if_pos rfl

theorem Files.set_other (files : Files β) {path other : Text} (content : Option β)
    (different : other ≠ path) : files.set path content other = files other := if_neg different

theorem isRightFile_congr {getFileSha1 : β → Option Text} {files files' : Files β} {path : Text}
    {sha1 : Option Text} (same : files' path = files path) :
    isRightFile getFileSha1 files' path sha1 = isRightFile getFileSha1 files path sha1 := by
  rw [isRightFile,isRightFile,same]

theorem isRightFile_exist {getFileSha1 : β → Option Text} {files : Files β} {path : Text}
    {sha1 : Option Text} (right : isRightFile getFileSha1 files path sha1 = true) :
    files.exist path = true := by
  unfold isRightFile at right
  unfold Files.exist
  cases found : files path with
  | none => simp [found] at right
  | some content => rfl

end HmclPe.Io
