import HmclPe.Io.Files
import HmclPe.Java.File
import HmclPe.Java.ThreadPool
import HmclPe.Lib.Runs

/-! `downloadMultipleFiles` as a step relation: the loop that submits, the workers of the pool
and the files that they write. Nothing is cancelled and `awaitTermination` does not time out. -/
namespace HmclPe.Download.MultipleFiles
open HmclPe.Java HmclPe.Io HmclPe.Lib.Runs

structure DownloadTaskListBean where
  name : Text
  url : Text
  path : Text
  sha1 : Option Text
  deriving DecidableEq

abbrev Content := List UInt8

structure Downloads where
  files : Files Content
  failedFile : List DownloadTaskListBean

/-- The digest of a content, and the urls whose connection cannot be cast to an
`HttpURLConnection`, as those of local files. -/
structure Platform where
  digest : Content → Option Text
  castFails : Text → Bool

/-- A reading of digests that may fail at any file. -/
def Reads (digest read : Content → Option Text) : Prop :=
  ∀ content, read content = digest content ∨ read content = none

def tryTimes : Nat := 5

/-- Where a worker is in the body of the loop over the attempts, of which one call of
`downloadFileMonitored` is from `called` to `answered`. The answer of the server announces a length.
An exception that is no `IOException` ends the run. -/
inductive Stage where
  | begun
  | loop (i : Nat)
  | called (i : Nat)
  | connecting (i : Nat)
  | writing (i : Nat) (len : Int)
  | reporting (i : Nat) (len : Int)
  | written (i : Nat)
  | answered (i : Nat) (success : Bool)
  | ended
  | thrown

structure Run where
  stage : Stage
  attempts : Nat

open Stage

def getFileSha1 (read : Content → Option Text) (files : Files Content) (path : Text) :
    Option Text := (files path).bind read

def isNeeded (read : Content → Option Text) (files : Files Content) (bean : DownloadTaskListBean) :
    Bool :=
  !files.exist bean.path ||
    (files.exist bean.path && !decide (getFileSha1 read files bean.path = bean.sha1))

/-- `getParentFile` is null. -/
def parentless (path : Text) : Bool := (File.getParentFile ⟨File.normalize path⟩).isNone

/-- The result of `delete` is not looked at. -/
def Deleted (files files' : Files Content) (path : Text) : Prop :=
  files' = files.set path none ∨ files' = files

inductive RunStep (platform : Platform) (looks : Bool) (bean : DownloadTaskListBean) :
    Run → Downloads → Run → Downloads → Prop
  | skip (attempts : Nat) (s : Downloads) (read : Content → Option Text)
      (reads : Reads platform.digest read) (looks_ : looks = true)
      (present : isNeeded read s.files bean = false) :
      RunStep platform looks bean ⟨begun,attempts⟩ s ⟨ended,attempts⟩ s
  | enter (attempts : Nat) (s : Downloads) (read : Content → Option Text)
      (reads : Reads platform.digest read) (needed : looks = true → isNeeded read s.files bean = true) :
      RunStep platform looks bean ⟨begun,attempts⟩ s ⟨loop 0,attempts⟩ s
  | call (i attempts : Nat) (s : Downloads) (again : i < tryTimes) :
      RunStep platform looks bean ⟨loop i,attempts⟩ s ⟨called i,attempts + 1⟩ s
  | leave (i attempts : Nat) (s : Downloads) (enough : ¬i < tryTimes) :
      RunStep platform looks bean ⟨loop i,attempts⟩ s ⟨ended,attempts⟩ s
  | noParent (i attempts : Nat) (s : Downloads) (missing : s.files.exist bean.path = false)
      (none_ : parentless bean.path = true) :
      RunStep platform looks bean ⟨called i,attempts⟩ s ⟨thrown,attempts⟩ s
  | mkdirs (i attempts : Nat) (s : Downloads) (missing : s.files.exist bean.path = false)
      (below : parentless bean.path = false) :
      RunStep platform looks bean ⟨called i,attempts⟩ s ⟨connecting i,attempts⟩ s
  | keep (i attempts : Nat) (s : Downloads) (read : Content → Option Text)
      (reads : Reads platform.digest read) (exist : s.files.exist bean.path = true)
      (right : isRightFile read s.files bean.path bean.sha1 = true) :
      RunStep platform looks bean ⟨called i,attempts⟩ s ⟨connecting i,attempts⟩ s
  | delete (i attempts : Nat) (s : Downloads) (read : Content → Option Text)
      (files : Files Content) (reads : Reads platform.digest read)
      (exist : s.files.exist bean.path = true)
      (wrong : isRightFile read s.files bean.path bean.sha1 = false)
      (deleted : Deleted s.files files bean.path) :
      RunStep platform looks bean ⟨called i,attempts⟩ s ⟨connecting i,attempts⟩
        { s with files := files }
  | castFails (i attempts : Nat) (s : Downloads) (other : platform.castFails bean.url = true) :
      RunStep platform looks bean ⟨connecting i,attempts⟩ s ⟨thrown,attempts⟩ s
  | opens (i attempts : Nat) (s : Downloads) (len : Int)
      (http : platform.castFails bean.url = false) :
      RunStep platform looks bean ⟨connecting i,attempts⟩ s ⟨writing i len,attempts⟩
        { s with files := s.files.set bean.path (some []) }
  | write (i attempts : Nat) (s : Downloads) (len : Int) (content chunk : Content)
      (found : s.files bean.path = some content) (some_ : chunk ≠ []) :
      RunStep platform looks bean ⟨writing i len,attempts⟩ s ⟨reporting i len,attempts⟩
        { s with files := s.files.set bean.path (some (content ++ chunk)) }
  | updateProgress (i attempts : Nat) (s : Downloads) (len : Int) (announced : len ≠ 0) :
      RunStep platform looks bean ⟨reporting i len,attempts⟩ s ⟨writing i len,attempts⟩ s
  | divides (i attempts : Nat) (s : Downloads) :
      RunStep platform looks bean ⟨reporting i 0,attempts⟩ s ⟨thrown,attempts⟩ s
  | close (i attempts : Nat) (s : Downloads) (len : Int) :
      RunStep platform looks bean ⟨writing i len,attempts⟩ s ⟨written i,attempts⟩ s
  | refused (i attempts : Nat) (s : Downloads) (http : platform.castFails bean.url = false) :
      RunStep platform looks bean ⟨connecting i,attempts⟩ s ⟨answered i false,attempts⟩ s
  | broken (i attempts : Nat) (s : Downloads) (len : Int) :
      RunStep platform looks bean ⟨writing i len,attempts⟩ s ⟨answered i false,attempts⟩ s
  | right (i attempts : Nat) (s : Downloads) (read : Content → Option Text)
      (reads : Reads platform.digest read)
      (right : isRightFile read s.files bean.path bean.sha1 = true) :
      RunStep platform looks bean ⟨written i,attempts⟩ s ⟨answered i true,attempts⟩ s
  | wrong (i attempts : Nat) (s : Downloads) (read : Content → Option Text)
      (files : Files Content) (reads : Reads platform.digest read)
      (wrong : isRightFile read s.files bean.path bean.sha1 = false)
      (deleted : Deleted s.files files bean.path) :
      RunStep platform looks bean ⟨written i,attempts⟩ s ⟨answered i false,attempts⟩
        { s with files := files }
  | breaks (i attempts : Nat) (s : Downloads) :
      RunStep platform looks bean ⟨answered i true,attempts⟩ s ⟨ended,attempts⟩ s
  | again (i attempts : Nat) (s : Downloads) :
      RunStep platform looks bean ⟨answered i false,attempts⟩ s ⟨loop (i + 1),attempts⟩
        { s with failedFile :=
            if i = tryTimes - 1 then s.failedFile ++ [bean] else s.failedFile }

/-- A worker is about to throw: without a directory to make, with a connection that is not HTTP, or
with bytes where none were announced. -/
def Throws (platform : Platform) (bean : DownloadTaskListBean) (run : Run) (s : Downloads) : Prop :=
  match run.stage with
  | called _ => s.files.exist bean.path = false ∧ parentless bean.path = true
  | connecting _ => platform.castFails bean.url = true
  | reporting _ len => len = 0
  | _ => False

/-- What is given to `execute` for a bean. Two of the three loops over beans look at the file
before the first attempt. -/
def runnable (platform : Platform) (looks : Bool) :
    Program DownloadTaskListBean Run Downloads where
  start _ := ⟨begun,0⟩
  Step := RunStep platform looks
  Done run := run.stage = ended ∨ run.stage = thrown

/-- The thread that submits the beans one by one. -/
inductive Submitter where
  | executes (list : List DownloadTaskListBean)
  | spins (list : List DownloadTaskListBean)
  | awaits
  | returned

def Submitter.waiting : Submitter → List DownloadTaskListBean
  | executes list => list
  | spins list => list
  | awaits => []
  | returned => []

structure State where
  submitter : Submitter
  threadPool : ThreadPool DownloadTaskListBean Run
  downloads : Downloads

inductive Step (platform : Platform) (looks : Bool) (maxTask : Nat) :
    State → State → Prop
  | execute (s : State) (bean : DownloadTaskListBean) (rest : List DownloadTaskListBean)
      (at_ : s.submitter = .executes (bean :: rest)) :
      Step platform looks maxTask s { s with
        submitter := .spins rest
        threadPool := s.threadPool.execute maxTask maxTask (runnable platform looks) bean }
  | isEmpty (s : State) (rest : List DownloadTaskListBean) (at_ : s.submitter = .spins rest)
      (drained : s.threadPool.queue = []) :
      Step platform looks maxTask s { s with submitter := .executes rest }
  | shutdown (s : State) (at_ : s.submitter = .executes []) :
      Step platform looks maxTask s { s with
        submitter := .awaits, threadPool := s.threadPool.shutdown }
  | awaitTermination (s : State) (at_ : s.submitter = .awaits)
      (terminated : s.threadPool.Terminated) :
      Step platform looks maxTask s { s with submitter := .returned }
  | work (s : State) (threadPool : ThreadPool DownloadTaskListBean Run) (downloads : Downloads)
      (step : ThreadPool.Step (runnable platform looks) s.threadPool s.downloads threadPool
        downloads) :
      Step platform looks maxTask s { s with threadPool := threadPool, downloads := downloads }

/-- No worker is about to throw. -/
def Calm (platform : Platform) (s : State) : Prop :=
  ∀ bean run, some (bean,run) ∈ s.threadPool.workers → ¬Throws platform bean run s.downloads

def started (list : List DownloadTaskListBean) (files : Files Content) : State :=
  ⟨.executes list,ThreadPool.empty,⟨files,[]⟩⟩

def downloads (platform : Platform) (looks : Bool) (list : List DownloadTaskListBean)
    (maxTask : Nat) : System State :=
  ⟨fun s => ∃ files, s = started list files,Step platform looks maxTask⟩

/-- All runs over a list of beans and the files that were there before. -/
def downloadMultipleFiles (platform : Platform) (list : List DownloadTaskListBean)
    (maxTask : Nat) : System State := downloads platform true list maxTask

/-- The downloads of `CheckLibTask`, whose list holds the files found wrong beforehand. -/
def checkLib (platform : Platform) (list : List DownloadTaskListBean) (maxTask : Nat) :
    System State := downloads platform false list maxTask

end HmclPe.Download.MultipleFiles
