import HmclPe.Io.Files

/-! The download of one file: the loop that copies the response with its accounting, the failures
that leave it, and the test that decides about the file. -/
namespace HmclPe.Download.DownloadTask
open HmclPe.Java HmclPe.Io

section Model

abbrev Content := List UInt8

/-- What one `read` fills the buffer with, and the clock at the two places it is read. -/
structure Piece where
  bytes : Content
  some_ : bytes ≠ []
  fits : bytes.length ≤ 65535
  now : Int
  later : Int

/-- How the loop is left: a failing `read`, a failing `write` of a last piece that has put some
bytes into the file, or the end of the stream, after which closing may fail. -/
inductive Ending
  | readFails
  | writeFails (piece : Piece) (written : Nat)
  | ends (closed : Bool)

/-- The header is the length the server sends, if it sends one. -/
inductive Response
  | refused
  | opened (header : Option Nat) (start : Int) (pieces : List Piece) (ending : Ending)

/-- Whether `updateProgress` returns normally. -/
abbrev Monitor := Int → Int → Bool

/-- The variables of the loop, the file, and what was reported: the bytes of each speed, and the
two numbers of each progress. -/
structure Copy where
  content : Content
  oval : Int
  lastLen : Int
  lastTime : Int
  speeds : List Int
  progress : List (Int × Int)

inductive Outcome
  | returned (success : Bool)
  | thrown
  deriving DecidableEq

def int (n : Int) : Int := n.bmod (2 ^ 32)

/-- Lengths that do not fit are reported like missing ones. -/
def getContentLength : Option Nat → Int
  | some length => if length < 2 ^ 31 then length else -1
  | none => -1

def Copy.begin (start : Int) : Copy := ⟨[],0,0,start,[],[]⟩

/-- The piece is counted, and a speed reported a second after the last one. -/
def account (monitored : Bool) (piece : Piece) (copy : Copy) : Copy :=
  let oval := int (copy.oval + piece.bytes.length)
  if 1000 ≤ piece.now - copy.lastTime then
    let lastLen := oval
    { copy with
      oval := oval
      lastLen := lastLen
      lastTime := piece.later
      speeds := if monitored then copy.speeds ++ [oval - lastLen] else copy.speeds }
  else { copy with oval := oval }

def Copy.write (bytes : Content) (copy : Copy) : Copy :=
  { copy with content := copy.content ++ bytes }

def Copy.report (len : Int) (copy : Copy) : Copy :=
  { copy with progress := copy.progress ++ [(copy.oval,len)] }

/-- The loop over the pieces; the flag is cleared when the monitor throws. -/
def loop (monitor : Option Monitor) (len : Int) : List Piece → Copy → Bool × Copy
  | [], copy => (true,copy)
  | piece :: pieces, copy =>
    let copy := (account monitor.isSome piece copy).write piece.bytes
    match monitor with
    | none => loop none len pieces copy
    | some updateProgress =>
      if updateProgress copy.oval len then loop (some updateProgress) len pieces (copy.report len)
      else (false,copy.report len)

def copied (monitor : Option Monitor) (header : Option Nat) (start : Int) (pieces : List Piece) :
    Bool × Copy := loop monitor (getContentLength header) pieces (.begin start)

/-- Whether `getParentFile` has an answer. -/
def hasParent (path : Text) : Bool :=
  let names := (path.splitOn '/').filter fun name => name ≠ []
  2 ≤ names.length || (path.head? = some '/' && names ≠ [])

variable (getFileSha1 : Content → Option Text)

def delete (deleted : Bool) (path : Text) (files : Files Content) : Files Content :=
  if deleted then files.set path none else files

/-- A wrong file is deleted first; a path without a parent directory is an exception. -/
def prepare (nameOutput : Text) (sha1 : Option Text) (deleted : Bool) (files : Files Content) :
    Option (Files Content) :=
  if files.exist nameOutput then
    if isRightFile getFileSha1 files nameOutput sha1 then some files
    else some (delete deleted nameOutput files)
  else if hasParent nameOutput then some files else none

/-- What follows the last piece that was copied; a wrong file is deleted, a broken one is not. -/
def settle (nameOutput : Text) (sha1 : Option Text) (deleted : Bool) (files : Files Content)
    (content : Content) : Ending → Outcome × Files Content
  | .readFails => (.returned false,files.set nameOutput (some content))
  | .writeFails piece written =>
    (.returned false,files.set nameOutput (some (content ++ piece.bytes.take written)))
  | .ends false => (.returned false,files.set nameOutput (some content))
  | .ends true =>
    let files := files.set nameOutput (some content)
    if isRightFile getFileSha1 files nameOutput sha1 then (.returned true,files)
    else (.returned false,delete deleted nameOutput files)

/-- The two flags tell whether the deletions before and after succeed. -/
def downloadFileMonitored (nameOutput : Text) (sha1 : Option Text) (monitor : Option Monitor)
    (response : Response) (deletedBefore deletedAfter : Bool) (files : Files Content) :
    Outcome × Files Content :=
  match prepare getFileSha1 nameOutput sha1 deletedBefore files with
  | none => (.thrown,files)
  | some files =>
    match response with
    | .refused => (.returned false,files)
    | .opened header start pieces ending =>
      match copied monitor header start pieces with
      | (false,copy) => (.thrown,files.set nameOutput (some copy.content))
      | (true,copy) => settle getFileSha1 nameOutput sha1 deletedAfter files copy.content ending

end Model

section Loop

def stream (pieces : List Piece) : Content := pieces.flatMap (·.bytes)

/-- The bytes counted after each piece. -/
def totals (done : Nat) : List Piece → List Nat
  | [] => []
  | piece :: pieces => (done + piece.bytes.length) :: totals (done + piece.bytes.length) pieces

/-- The monitor returns from each report of the totals. -/
def Quiet (monitor : Option Monitor) (len : Int) (done : Nat) (pieces : List Piece) : Prop :=
  ∀ updateProgress ∈ monitor, ∀ total ∈ totals done pieces, updateProgress (int total) len = true

/-- The count agrees with the file, up to the width of an int. -/
def Copy.Counted (copy : Copy) : Prop := copy.oval = int copy.content.length

theorem int_add (n : Nat) (m : Nat) : int (int n + m) = int (n + m : Nat) := by
  simp [int]

theorem account_content (monitored : Bool) (piece : Piece) (copy : Copy) :
    (account monitored piece copy).content = copy.content := by
  unfold account
  split <;> rfl

theorem account_oval (monitored : Bool) (piece : Piece) (copy : Copy) :
    (account monitored piece copy).oval = int (copy.oval + piece.bytes.length) := by
  unfold account
  split <;> rfl

variable {copy : Copy}

theorem Copy.Counted.next (counted : copy.Counted) (monitored : Bool) (piece : Piece) :
    ((account monitored piece copy).write piece.bytes).Counted := by
  unfold Copy.Counted at counted ⊢
  rw [Copy.write,account_oval,account_content,counted,List.length_append]
  exact int_add _ _

theorem next_content (monitored : Bool) (piece : Piece) :
    ((account monitored piece copy).write piece.bytes).content = copy.content ++ piece.bytes := by
  rw [Copy.write,account_content]

theorem begin_counted (start : Int) : (Copy.begin start).Counted := by
  simp [Copy.Counted,Copy.begin,int]

theorem Copy.Counted.reported (counted : copy.Counted) (len : Int) : (copy.report len).Counted :=
  counted

/-- The loop runs to its end exactly if the monitor lets it, and has written all pieces then. -/
theorem loop_content (monitor : Option Monitor) (len : Int) (pieces : List Piece)
    (counted : copy.Counted) :
    ((loop monitor len pieces copy).1 = true ↔ Quiet monitor len copy.content.length pieces) ∧
      ((loop monitor len pieces copy).1 = true →
        (loop monitor len pieces copy).2.content = copy.content ++ stream pieces) := by
  induction pieces generalizing copy with
  | nil => simp [loop,Quiet,totals,stream]
  | cons piece pieces ih =>
    have next := counted.next monitor.isSome piece
    have written := @next_content copy monitor.isSome piece
    have whole : stream (piece :: pieces) = piece.bytes ++ stream pieces := rfl
    rw [whole,← List.append_assoc]
    cases monitor with
    | none =>
      obtain ⟨runs,ends⟩ := ih next
      rw [loop]
      constructor
      · rw [runs]
        simp [Quiet]
      · intro quiet
        rw [ends quiet,written]
    | some updateProgress =>
      obtain ⟨runs,ends⟩ := ih (next.reported len)
      have total : ((account true piece copy).write piece.bytes).oval =
          int (copy.content.length + piece.bytes.length : Nat) := by
        rw [← List.length_append,← written]
        exact next
      have content : (((account true piece copy).write piece.bytes).report len).content =
          copy.content ++ piece.bytes := written
      have first : Quiet (some updateProgress) len copy.content.length (piece :: pieces) ↔
          updateProgress (int (copy.content.length + piece.bytes.length : Nat)) len = true ∧
            Quiet (some updateProgress) len (copy.content.length + piece.bytes.length) pieces := by
        simp [Quiet,totals]
      rw [loop,first]
      simp only [Option.isSome_some] at runs ends ⊢
      rw [content,List.length_append] at runs
      rw [total]
      cases updateProgress (int (copy.content.length + piece.bytes.length : Nat)) len with
      | false => simp
      | true =>
        simp only [if_true,true_and]
        refine ⟨runs,fun quiet => ?_⟩
        rw [ends quiet,content]

end Loop

/-- The test of a file by its content. -/
def passes (getFileSha1 : Content → Option Text) (sha1 : Option Text) (content : Content) :
    Bool :=
  match sha1 with
  | none => true
  | some sha1 => sha1 = [] || getFileSha1 content = some sha1

/-- What an exception leaves in the file after it was opened. -/
def leftover : Response → Option Content
  | .opened _ _ pieces .readFails => some (stream pieces)
  | .opened _ _ pieces (.writeFails piece written) =>
    some (stream pieces ++ piece.bytes.take written)
  | .opened _ _ pieces (.ends false) => some (stream pieces)
  | _ => none

/-- The monitor returns from each report. -/
def Undisturbed (monitor : Option Monitor) : Response → Prop
  | .refused => True
  | .opened header _ pieces _ => Quiet monitor (getContentLength header) 0 pieces

def Response.stream : Response → Content
  | .refused => []
  | .opened _ _ pieces _ => DownloadTask.stream pieces

/-- A refusal leaves no acceptable file, and a success leaves the whole response, accepted. -/
structure Honest (getFileSha1 : Content → Option Text) (nameOutput : Text) (sha1 : Option Text)
    (response : Response) (outcome : Outcome) (files : Files Content) : Prop where
  refused : outcome = .returned false → isRightFile getFileSha1 files nameOutput sha1 = false
  succeeded : outcome = .returned true → files nameOutput = some response.stream ∧
    isRightFile getFileSha1 files nameOutput sha1 = true

section Failures
variable (getFileSha1 : Content → Option Text) {nameOutput : Text} {sha1 : Option Text}
  {files : Files Content}

theorem isRightFile_set (content : Content) :
    isRightFile getFileSha1 (files.set nameOutput (some content)) nameOutput sha1 =
      passes getFileSha1 sha1 content := by
  rw [isRightFile,Files.set_same]
  rfl

theorem isRightFile_none (free : files nameOutput = none) :
    isRightFile getFileSha1 files nameOutput sha1 = false := by
  rw [isRightFile,free]

theorem isRightFile_delete {deleted : Bool}
    (wrong : isRightFile getFileSha1 files nameOutput sha1 = false) :
    isRightFile getFileSha1 (delete deleted nameOutput files) nameOutput sha1 = false := by
  cases deleted with
  | false => exact wrong
  | true => exact isRightFile_none getFileSha1 (Files.set_same _ _ _)

theorem prepare_none (free : files nameOutput = none) (deleted : Bool) :
    prepare getFileSha1 nameOutput sha1 deleted files =
      if hasParent nameOutput then some files else none := by
  simp [prepare,Files.exist,free]

theorem copied_content (monitor : Option Monitor) (header : Option Nat) (start : Int)
    (pieces : List Piece) :
    ((copied monitor header start pieces).1 = true ↔
      Quiet monitor (getContentLength header) 0 pieces) ∧
    ((copied monitor header start pieces).1 = true →
      (copied monitor header start pieces).2.content = stream pieces) := by
  exact loop_content monitor (getContentLength header) pieces (begin_counted start)

theorem honest_thrown (response : Response) (files : Files Content) :
    Honest getFileSha1 nameOutput sha1 response .thrown files := ⟨nofun,nofun⟩

/-- A call that fails is honest exactly if the test refuses what it leaves. -/
theorem honest_failed (response : Response) (files : Files Content) :
    Honest getFileSha1 nameOutput sha1 response (.returned false) files ↔
      isRightFile getFileSha1 files nameOutput sha1 = false :=
  ⟨fun honest => honest.refused rfl,fun wrong => ⟨fun _ => wrong,nofun⟩⟩

theorem honest_settle (header : Option Nat) (start : Int) (pieces : List Piece) (deleted : Bool)
    (ending : Ending) :
    Honest getFileSha1 nameOutput sha1 (.opened header start pieces ending)
      (settle getFileSha1 nameOutput sha1 deleted files (stream pieces) ending).1
      (settle getFileSha1 nameOutput sha1 deleted files (stream pieces) ending).2 ↔
    ∀ content ∈ leftover (.opened header start pieces ending),
      passes getFileSha1 sha1 content = false := by
  cases ending with
  | readFails => simp [settle,leftover,honest_failed,isRightFile_set]
  | writeFails piece written => simp [settle,leftover,honest_failed,isRightFile_set]
  | ends closed =>
    cases closed with
    | false => simp [settle,leftover,honest_failed,isRightFile_set]
    | true =>
      cases right : isRightFile getFileSha1 (files.set nameOutput (some (stream pieces)))
          nameOutput sha1 with
      | true =>
        have kept : settle getFileSha1 nameOutput sha1 deleted files (stream pieces) (.ends true) =
            (.returned true,files.set nameOutput (some (stream pieces))) := if_pos right
        rw [kept]
        have honest : Honest getFileSha1 nameOutput sha1 (.opened header start pieces (.ends true))
            (.returned true) (files.set nameOutput (some (stream pieces))) :=
          ⟨nofun,fun _ => ⟨Files.set_same _ _ _,right⟩⟩
        simpa [leftover] using honest
      | false =>
        have gone : settle getFileSha1 nameOutput sha1 deleted files (stream pieces) (.ends true) =
            (.returned false,
              delete deleted nameOutput (files.set nameOutput (some (stream pieces)))) :=
          if_neg (by simp [right])
        rw [gone,honest_failed,isRightFile_delete getFileSha1 right]
        simp [leftover]

/-- A download to a path without a file is honest exactly if the test refuses what an exception
leaves there. -/
theorem honest_iff (free : files nameOutput = none) (monitor : Option Monitor)
    (response : Response) (deletedBefore deletedAfter : Bool) :
    Honest getFileSha1 nameOutput sha1 response
      (downloadFileMonitored getFileSha1 nameOutput sha1 monitor response deletedBefore
        deletedAfter files).1
      (downloadFileMonitored getFileSha1 nameOutput sha1 monitor response deletedBefore
        deletedAfter files).2 ↔
    (hasParent nameOutput = true → Undisturbed monitor response →
      ∀ content ∈ leftover response, passes getFileSha1 sha1 content = false) := by
  unfold downloadFileMonitored
  rw [prepare_none getFileSha1 free]
  cases parent : hasParent nameOutput with
  | false => simp [honest_thrown]
  | true =>
    cases response with
    | refused => simp [honest_failed,isRightFile_none getFileSha1 free,leftover]
    | opened header start pieces ending =>
      obtain ⟨runs,written⟩ := copied_content monitor header start pieces
      rw [Undisturbed,← runs]
      cases result : copied monitor header start pieces with
      | mk quiet copy =>
        rw [result] at written
        cases quiet with
        | false => simp [result,honest_thrown]
        | true =>
          have content : copy.content = stream pieces := written rfl
          simpa [result,content] using honest_settle getFileSha1 header start pieces deletedAfter
            ending

end Failures

/-- A connection that breaks after the first byte. -/
def broken : Response := .opened (some 2) 0 [⟨[80],by simp,by simp,0,0⟩] .readFails

def target : Text := ("/games/libraries/a.jar" : String)

/-- The digests of the first byte and of both bytes. -/
def firstSha1 : Text := ("511993d3c99719e38a6779073019dacd7178ddb9" : String)

def wholeSha1 : Text := ("e14e7438ed45ff5dc2ea8f847854b2fdc2afe1cf" : String)

def knownSha1 (content : Content) : Option Text :=
  if content = [80] then some firstSha1 else if content = [80,75] then some wholeSha1 else none

theorem broken_refused :
    Honest knownSha1 target (some wholeSha1) broken
      (downloadFileMonitored knownSha1 target (some wholeSha1) none broken true true
        fun _ => none).1
      (downloadFileMonitored knownSha1 target (some wholeSha1) none broken true true
        fun _ => none).2 := by
  refine (honest_iff knownSha1 rfl none broken true true).mpr fun _ _ content left => ?_
  obtain rfl : [80] = content := Option.some.inj left
  decide

/-- Without a digest the first byte passes for the file. -/
theorem broken_accepted :
    (downloadFileMonitored knownSha1 target none none broken true true fun _ => none).1 =
        .returned false ∧
      isRightFile knownSha1
        (downloadFileMonitored knownSha1 target none none broken true true fun _ => none).2 target
        none = true := by
  decide

end HmclPe.Download.DownloadTask
