import HmclPe.Boat.EventQueue
import HmclPe.Lib.Runs

/-! Threads that push input events and threads that poll them: the queue under its mutex, with a
byte in a pipe for each event. -/
namespace HmclPe.Boat
open Lib.Runs

def KeyPress : Int32 := 2
def KeyRelease : Int32 := 3
def ButtonPress : Int32 := 4
def ButtonRelease : Int32 := 5
def MotionNotify : Int32 := 6
def ConfigureNotify : Int32 := 22
def BoatMessage : Int32 := 37

structure Push where
  time : Int64
  type : Int32
  p1 : Int32
  p2 : Int32
  deriving DecidableEq

/-- The fields that `pushEvent` writes, the others stay as they were allocated. -/
def Push.fill (push : Push) (event : BoatEvent) : BoatEvent :=
  let event := { event with time := push.time, type := push.type, state := 0 }
  if push.type = MotionNotify then { event with x := push.p1, y := push.p2 }
  else if push.type = ButtonPress ∨ push.type = ButtonRelease then { event with button := push.p1 }
  else if push.type = KeyPress ∨ push.type = KeyRelease then
    { event with keycode := push.p1, keychar := push.p2 }
  else if push.type = ConfigureNotify then { event with width := push.p1, height := push.p2 }
  else if push.type = BoatMessage then { event with message := push.p1 }
  else event

/-- What the game has to find in an event. -/
structure Carries (push : Push) (event : BoatEvent) : Prop where
  time : event.time = push.time
  type : event.type = push.type
  state : event.state = 0
  motion : push.type = MotionNotify → event.x = push.p1 ∧ event.y = push.p2
  button : push.type = ButtonPress ∨ push.type = ButtonRelease → event.button = push.p1
  key : push.type = KeyPress ∨ push.type = KeyRelease →
    event.keycode = push.p1 ∧ event.keychar = push.p2
  configure : push.type = ConfigureNotify → event.width = push.p1 ∧ event.height = push.p2
  message : push.type = BoatMessage → event.message = push.p1

theorem Push.fill_carries (push : Push) (event : BoatEvent) : Carries push (push.fill event) := by
  obtain ⟨time,type,p1,p2⟩ := push
  unfold Push.fill
  split_ifs with motion button key configure message
  · obtain rfl : type = MotionNotify := motion
    constructor <;> simp [MotionNotify,ButtonPress,ButtonRelease,KeyPress,KeyRelease,
      ConfigureNotify,BoatMessage]
  · rcases button with rfl | rfl <;>
      constructor <;> simp [MotionNotify,ButtonPress,ButtonRelease,KeyPress,KeyRelease,
        ConfigureNotify,BoatMessage]
  · rcases key with rfl | rfl <;>
      constructor <;> simp [MotionNotify,ButtonPress,ButtonRelease,KeyPress,KeyRelease,
        ConfigureNotify,BoatMessage]
  · obtain rfl : type = ConfigureNotify := configure
    constructor <;> simp [MotionNotify,ButtonPress,ButtonRelease,KeyPress,KeyRelease,
      ConfigureNotify,BoatMessage]
  · obtain rfl : type = BoatMessage := message
    constructor <;> simp [MotionNotify,ButtonPress,ButtonRelease,KeyPress,KeyRelease,
      ConfigureNotify,BoatMessage]
  · constructor <;> simp_all

/-- How many bytes the pipe holds, and whether signals may end a blocked call. -/
structure Kernel where
  capacity : Nat
  interrupts : Bool

/-- Where a thread is. Outside of the library it may know that there was something to read. -/
inductive Thread
  | outside (ready : Bool)
  | pipeCreating
  | epollCreating
  | queueInit
  | mutexInit
  | pipeSetting
  | pushLocking (push : Push)
  | pushAdding (push : Push)
  | pushFilling (push : Push) (event : Address)
  | pushWriting
  | pushUnlocking
  | pollLocking
  | pollReading
  | pollTaking
  | pollUnlocking
  deriving DecidableEq

/-- The library's state, with the history of what was pushed and polled. -/
structure BoatInternal (ι : Type) where
  memory : Memory
  eventQueue : EventQueue
  eventQueueMutex : Option ι
  hasEventPipe : Bool
  eventPipe : Nat
  threads : ι → Thread
  crashed : Bool
  pushed : List Push
  polled : List BoatEvent
  unwritten : Nat

/-- What a caller or the system chooses in a step. -/
inductive Label
  | setEventPipe
  | pushEvent (push : Push)
  | boatPollEvent
  | boatWaitForEvent (found : Bool)
  | malloc (granted : Option (Address × QueueElement))
  | proceed
  | failed
  | interrupted

variable {ι : Type} [DecidableEq ι]

namespace BoatInternal

def start : BoatInternal ι :=
  ⟨Memory.empty,EventQueue.init,none,false,0,fun _ => .outside false,false,[],[],0⟩

def goto (s : BoatInternal ι) (thread : ι) (next : Thread) : BoatInternal ι :=
  { s with threads := Function.update s.threads thread next }

inductive Step (kernel : Kernel) (s : BoatInternal ι) (thread : ι) :
    Label → BoatInternal ι → Prop
  | setEventPipe (ready : Bool) (here : s.threads thread = .outside ready) :
      Step kernel s thread .setEventPipe (s.goto thread .pipeCreating)
  | pipeFailed (here : s.threads thread = .pipeCreating) :
      Step kernel s thread .failed (s.goto thread (.outside false))
  | pipe (here : s.threads thread = .pipeCreating) :
      Step kernel s thread .proceed ({ s with eventPipe := 0 }.goto thread .epollCreating)
  | epollFailed (here : s.threads thread = .epollCreating) :
      Step kernel s thread .failed (s.goto thread (.outside false))
  | epoll (here : s.threads thread = .epollCreating) :
      Step kernel s thread .proceed (s.goto thread .queueInit)
  | queueInit (here : s.threads thread = .queueInit) :
      Step kernel s thread .proceed
        ({ s with eventQueue := EventQueue.init }.goto thread .mutexInit)
  | mutexInit (here : s.threads thread = .mutexInit) :
      Step kernel s thread .proceed ({ s with eventQueueMutex := none }.goto thread .pipeSetting)
  | pipeSet (here : s.threads thread = .pipeSetting) :
      Step kernel s thread .proceed
        ({ s with hasEventPipe := true }.goto thread (.outside false))
  | pushUnset (push : Push) (ready : Bool) (here : s.threads thread = .outside ready)
      (unset : s.hasEventPipe = false) :
      Step kernel s thread (.pushEvent push) (s.goto thread (.outside false))
  | push (push : Push) (ready : Bool) (here : s.threads thread = .outside ready)
      (set : s.hasEventPipe = true) :
      Step kernel s thread (.pushEvent push) (s.goto thread (.pushLocking push))
  | pushLock (push : Push) (here : s.threads thread = .pushLocking push)
      (unlocked : s.eventQueueMutex = none) :
      Step kernel s thread .proceed
        ({ s with eventQueueMutex := some thread }.goto thread (.pushAdding push))
  | addCrash (push : Push) (granted : Option (Address × QueueElement))
      (here : s.threads thread = .pushAdding push)
      (undefined : s.eventQueue.add s.memory granted = none) :
      Step kernel s thread (.malloc granted) { s with crashed := true }
  -- The call returns with the mutex locked.
  | addFailed (push : Push) (granted : Option (Address × QueueElement)) (memory : Memory)
      (queue : EventQueue) (here : s.threads thread = .pushAdding push)
      (refused : s.eventQueue.add s.memory granted = some (memory,queue,none)) :
      Step kernel s thread (.malloc granted)
        ({ s with memory := memory, eventQueue := queue }.goto thread (.outside false))
  | add (push : Push) (granted : Option (Address × QueueElement)) (memory : Memory)
      (queue : EventQueue) (event : Address) (here : s.threads thread = .pushAdding push)
      (added : s.eventQueue.add s.memory granted = some (memory,queue,some event)) :
      Step kernel s thread (.malloc granted)
        ({ s with memory := memory, eventQueue := queue }.goto thread (.pushFilling push event))
  | fillCrash (push : Push) (event : Address) (here : s.threads thread = .pushFilling push event)
      (undefined : s.memory.write (some event)
        (fun element => { element with event := push.fill element.event }) = none) :
      Step kernel s thread .proceed { s with crashed := true }
  | fill (push : Push) (event : Address) (memory : Memory)
      (here : s.threads thread = .pushFilling push event)
      (filled : s.memory.write (some event)
        (fun element => { element with event := push.fill element.event }) = some memory) :
      Step kernel s thread .proceed
        ({ s with memory := memory, pushed := s.pushed ++ [push] }.goto thread .pushWriting)
  | write (here : s.threads thread = .pushWriting) (room : s.eventPipe < kernel.capacity) :
      Step kernel s thread .proceed
        ({ s with eventPipe := s.eventPipe + 1 }.goto thread .pushUnlocking)
  -- The result of the write is not looked at.
  | writeInterrupted (here : s.threads thread = .pushWriting)
      (interrupts : kernel.interrupts = true) :
      Step kernel s thread .interrupted
        ({ s with unwritten := s.unwritten + 1 }.goto thread .pushUnlocking)
  | pushUnlock (here : s.threads thread = .pushUnlocking) :
      Step kernel s thread .proceed
        ({ s with eventQueueMutex := none }.goto thread (.outside false))
  | pollUnset (ready : Bool) (here : s.threads thread = .outside ready)
      (unset : s.hasEventPipe = false) :
      Step kernel s thread .boatPollEvent (s.goto thread (.outside false))
  | poll (ready : Bool) (here : s.threads thread = .outside ready)
      (set : s.hasEventPipe = true) :
      Step kernel s thread .boatPollEvent (s.goto thread .pollLocking)
  | pollLock (here : s.threads thread = .pollLocking) (unlocked : s.eventQueueMutex = none) :
      Step kernel s thread .proceed
        ({ s with eventQueueMutex := some thread }.goto thread .pollReading)
  | read (here : s.threads thread = .pollReading) (filled : 0 < s.eventPipe) :
      Step kernel s thread .proceed
        ({ s with eventPipe := s.eventPipe - 1 }.goto thread .pollTaking)
  | readInterrupted (here : s.threads thread = .pollReading)
      (interrupts : kernel.interrupts = true) :
      Step kernel s thread .interrupted (s.goto thread .pollUnlocking)
  | takeCrash (here : s.threads thread = .pollTaking)
      (undefined : s.eventQueue.take s.memory true = none) :
      Step kernel s thread .proceed { s with crashed := true }
  | take (memory : Memory) (queue : EventQueue) (ret : Bool) (event : Option BoatEvent)
      (here : s.threads thread = .pollTaking)
      (taken : s.eventQueue.take s.memory true = some (memory,queue,ret,event)) :
      Step kernel s thread .proceed
        ({ s with memory := memory, eventQueue := queue, polled := s.polled ++ event.toList }.goto
          thread .pollUnlocking)
  | pollUnlock (here : s.threads thread = .pollUnlocking) :
      Step kernel s thread .proceed
        ({ s with eventQueueMutex := none }.goto thread (.outside false))
  -- It may also give up after its timeout.
  | wait (found ready : Bool) (here : s.threads thread = .outside ready)
      (reads : found = true → s.hasEventPipe = true ∧ 0 < s.eventPipe) :
      Step kernel s thread (.boatWaitForEvent found) (s.goto thread (.outside found))

end BoatInternal

namespace Thread

/-- In the call that sets the pipe up. -/
def setsUp : Thread → Bool
  | .pipeCreating | .epollCreating | .queueInit | .mutexInit | .pipeSetting => true
  | _ => false

end Thread

omit [DecidableEq ι] in
/-- What the library does not check: the pipe is set up by one call at a time, and not again when
it is there. -/
def SetUpOnce (s : BoatInternal ι) : Label → Prop
  | .setEventPipe => s.hasEventPipe = false ∧ ∀ thread, (s.threads thread).setsUp = false
  | _ => True

def system (ι : Type) [DecidableEq ι] (kernel : Kernel) : System (BoatInternal ι) where
  Start s := s = BoatInternal.start
  Step s s' := ∃ thread label, BoatInternal.Step kernel s thread label s' ∧ SetUpOnce s label

namespace Thread

/-- Between locking the mutex and unlocking it. -/
def inside : Thread → Bool
  | .pushAdding _ | .pushFilling _ _ | .pushWriting | .pushUnlocking => true
  | .pollReading | .pollTaking | .pollUnlocking => true
  | .outside _ | .pushLocking _ | .pollLocking => false
  | .pipeCreating | .epollCreating | .queueInit | .mutexInit | .pipeSetting => false

/-- In a push or a poll that found the pipe. -/
def uses : Thread → Bool
  | .pushLocking _ | .pollLocking => true
  | thread => thread.inside

/-- Where the set-up leaves a thread, which knows of nothing to read. -/
def rests : Thread → Bool
  | .outside ready => !ready
  | thread => thread.setsUp

/-- How many elements the queue has without a byte for them in the pipe. -/
@[simp] def owes : Thread → Nat
  | .pushFilling _ _ | .pushWriting | .pollTaking => 1
  | _ => 0

theorem uses_of_inside {thread : Thread} (inside : thread.inside = true) : thread.uses = true := by
  cases thread <;> first | rfl | exact Bool.noConfusion inside

/-- The element that is linked in and not written yet. -/
def fills : Thread → Option Address
  | .pushFilling _ event => some event
  | _ => none

theorem owes_outside {thread : Thread} (outside : thread.inside = false) : thread.owes = 0 := by
  cases thread <;> first | rfl | exact Bool.noConfusion outside

theorem outside_of_setsUp {thread : Thread} (setsUp : thread.setsUp = true) :
    thread.inside = false := by
  cases thread <;> first | rfl | exact Bool.noConfusion setsUp

theorem unused_of_rests {thread : Thread} (rests : thread.rests = true) :
    thread.uses = false := by
  cases thread <;> first | rfl | exact Bool.noConfusion rests

theorem outside_of_unused {thread : Thread} (unused : thread.uses = false) :
    thread.inside = false := by
  cases thread <;> first | rfl | exact Bool.noConfusion unused

theorem fills_outside {thread : Thread} (outside : thread.inside = false) :
    thread.fills = none := by
  cases thread <;> first | rfl | exact Bool.noConfusion outside

end Thread

namespace BoatInternal

/-- The thread that has the mutex, which is outside after a failed allocation. -/
def holder (s : BoatInternal ι) : Thread :=
  match s.eventQueueMutex with
  | none => .outside false
  | some thread => s.threads thread

/-- The queue holds what was pushed and not polled, and each element but those owed and those
whose write failed has its byte. -/
def Accounted (s : BoatInternal ι) (holder : Thread) : Prop :=
  ∃ entries filling : List (Address × BoatEvent),
    Represents s.memory s.eventQueue (entries ++ filling) ∧
    List.Forall₂ Carries s.pushed (s.polled ++ entries.map Prod.snd) ∧
    filling.map Prod.fst = holder.fills.toList ∧
    s.eventPipe + s.unwritten + holder.owes = (entries ++ filling).length

/-- The thread that sets the pipe up is alone, and the pipe is not there yet. -/
def Alone (s : BoatInternal ι) : Prop :=
  ∀ thread, (s.threads thread).setsUp = true →
    s.hasEventPipe = false ∧ ∀ other, (s.threads other).setsUp = true → other = thread

structure Sound (kernel : Kernel) (s : BoatInternal ι) : Prop where
  runs : s.crashed = false
  unset : s.hasEventPipe = false → s.eventQueue = EventQueue.init ∧ s.eventQueueMutex = none ∧
    s.eventPipe = 0 ∧ ∀ thread, (s.threads thread).uses = false
  alone : s.Alone
  exclusive : ∀ thread, (s.threads thread).inside = true → s.eventQueueMutex = some thread
  bounded : s.eventPipe ≤ kernel.capacity
  written : kernel.interrupts = false → s.unwritten = 0
  accounted : s.Accounted s.holder

theorem goto_self (s : BoatInternal ι) (thread : ι) (next : Thread) :
    (s.goto thread next).threads thread = next :=
  Function.update_self ..

theorem goto_other (s : BoatInternal ι) {thread other : ι} (next : Thread)
    (different : other ≠ thread) : (s.goto thread next).threads other = s.threads other :=
  Function.update_of_ne different ..

theorem holder_goto (s : BoatInternal ι) {thread : ι} (next : Thread)
    (holds : s.eventQueueMutex = some thread) : (s.goto thread next).holder = next := by
  have held : (s.goto thread next).eventQueueMutex = some thread := holds
  rw [holder,held]
  exact goto_self s thread next

theorem holder_goto_other (s : BoatInternal ι) {thread : ι} (next : Thread)
    (others : s.eventQueueMutex ≠ some thread) : (s.goto thread next).holder = s.holder := by
  have same : (s.goto thread next).eventQueueMutex = s.eventQueueMutex := rfl
  rw [holder,holder,same]
  rcases mutex : s.eventQueueMutex with _ | owner
  · rfl
  · apply goto_other
    intro equal
    exact others (by rw [mutex,equal])

omit [DecidableEq ι] in
theorem holder_free {s : BoatInternal ι} (unlocked : s.eventQueueMutex = none) :
    s.holder = .outside false := by
  rw [holder,unlocked]

variable {kernel : Kernel} {s : BoatInternal ι}

theorem Alone.goto (alone : s.Alone) (thread : ι) (next : Thread)
    (first : next.setsUp = true →
      s.hasEventPipe = false ∧ ∀ other, (s.threads other).setsUp = true → other = thread) :
    (s.goto thread next).Alone := by
  intro one sets
  rcases eq_or_ne one thread with rfl | different
  · rw [goto_self] at sets
    obtain ⟨unset,only⟩ := first sets
    refine ⟨unset,?_⟩
    intro other also
    by_contra differs
    rw [goto_other s next differs] at also
    exact differs (only other also)
  · rw [goto_other s next different] at sets
    obtain ⟨unset,only⟩ := alone one sets
    refine ⟨unset,?_⟩
    intro other also
    rcases eq_or_ne other thread with rfl | differs
    · rw [goto_self] at also
      exact ((first also).2 one sets).symm
    · rw [goto_other s next differs] at also
      exact only other also

namespace Sound

omit [DecidableEq ι] in
theorem start (kernel : Kernel) : Sound kernel (start : BoatInternal ι) where
  runs := rfl
  unset := fun _ => ⟨rfl,rfl,rfl,fun _ => rfl⟩
  alone := fun _ sets => Bool.noConfusion sets
  exclusive := by
    intro thread inside
    exact Bool.noConfusion inside
  bounded := Nat.zero_le _
  written := fun _ => rfl
  accounted := ⟨[],[],Represents.init,List.Forall₂.nil,rfl,rfl⟩

omit [DecidableEq ι] in
theorem set_of_uses (sound : Sound kernel s) {thread : ι}
    (uses : (s.threads thread).uses = true) : s.hasEventPipe = true := by
  by_contra unset
  obtain ⟨-,-,-,unused⟩ := sound.unset (Bool.eq_false_iff.mpr unset)
  exact Bool.noConfusion (uses.symm.trans (unused thread))

omit [DecidableEq ι] in
theorem set_of_inside (sound : Sound kernel s) {thread : ι}
    (inside : (s.threads thread).inside = true) : s.hasEventPipe = true :=
  sound.set_of_uses (Thread.uses_of_inside inside)

omit [DecidableEq ι] in
theorem holder_eq (sound : Sound kernel s) {thread : ι}
    (inside : (s.threads thread).inside = true) : s.holder = s.threads thread := by
  rw [holder,sound.exclusive thread inside]

/-- A thread outside goes on without the mutex. -/
theorem move (sound : Sound kernel s) {thread : ι} {next : Thread}
    (here : (s.threads thread).inside = false) (there : next.inside = false)
    (uses : s.hasEventPipe = true ∨ next.uses = false)
    (first : next.setsUp = true →
      s.hasEventPipe = false ∧ ∀ other, (s.threads other).setsUp = true → other = thread) :
    Sound kernel (s.goto thread next) where
  runs := sound.runs
  unset := by
    intro unset
    obtain ⟨queue,mutex,pipe,unused⟩ := sound.unset unset
    refine ⟨queue,mutex,pipe,?_⟩
    intro other
    rcases eq_or_ne other thread with rfl | different
    · rw [goto_self]
      apply uses.resolve_left
      intro set
      exact Bool.noConfusion (set.symm.trans unset)
    · rw [goto_other s next different]
      exact unused other
  alone := sound.alone.goto thread next first
  exclusive := by
    intro other inside
    rcases eq_or_ne other thread with rfl | different
    · rw [goto_self,there] at inside
      exact Bool.noConfusion inside
    · rw [goto_other s next different] at inside
      exact sound.exclusive other inside
  bounded := sound.bounded
  written := sound.written
  accounted := by
    obtain ⟨entries,filling,represents,carried,filled,owed⟩ := sound.accounted
    refine ⟨entries,filling,represents,carried,?_,?_⟩ <;>
      rcases eq_or_ne s.eventQueueMutex (some thread) with holds | others
    · rw [holder,holds] at filled
      rw [filled,holder_goto s next holds,Thread.fills_outside here,Thread.fills_outside there]
    · rw [filled,holder_goto_other s next others]
    · rw [holder,holds] at owed
      rw [← owed,holder_goto s next holds,Thread.owes_outside here,Thread.owes_outside there]
      rfl
    · rw [← owed,holder_goto_other s next others]
      rfl

/-- A thread takes the free mutex. -/
theorem lock (sound : Sound kernel s) {thread : ι} {next : Thread}
    (set : s.hasEventPipe = true) (unlocked : s.eventQueueMutex = none)
    (owes : next.owes = 0) (fills : next.fills = none) (sets : next.setsUp = false) :
    Sound kernel ({ s with eventQueueMutex := some thread }.goto thread next) where
  runs := sound.runs
  unset := by
    intro unset
    exact absurd (set.symm.trans unset) Bool.noConfusion
  alone := Alone.goto sound.alone thread next
    fun first => Bool.noConfusion (first.symm.trans sets)
  exclusive := by
    intro other inside
    rcases eq_or_ne other thread with rfl | different
    · rfl
    · rw [goto_other _ next different] at inside
      exact absurd ((sound.exclusive other inside).symm.trans unlocked) (Option.some_ne_none _)
  bounded := sound.bounded
  written := sound.written
  accounted := by
    obtain ⟨entries,filling,represents,carried,filled,owed⟩ := sound.accounted
    rw [holder_free unlocked] at filled owed
    refine ⟨entries,filling,represents,carried,?_,?_⟩
    · rw [filled,holder_goto _ next rfl,fills]
      rfl
    · rw [← owed,holder_goto _ next rfl,owes]
      rfl

/-- The thread that has the mutex changes what it protects. -/
theorem within (sound : Sound kernel s) {thread : ι} {next : Thread} {s' : BoatInternal ι}
    (inside : (s.threads thread).inside = true) (mutex : s'.eventQueueMutex = s.eventQueueMutex)
    (set : s'.hasEventPipe = s.hasEventPipe) (threads : s'.threads = s.threads)
    (runs : s'.crashed = false) (bounded : s'.eventPipe ≤ kernel.capacity)
    (written : kernel.interrupts = false → s'.unwritten = 0)
    (accounted : s'.Accounted next) (sets : next.setsUp = false) :
    Sound kernel (s'.goto thread next) where
  runs := runs
  unset := by
    intro unset
    have set_ := sound.set_of_inside inside
    rw [← set] at set_
    exact absurd (set_.symm.trans unset) Bool.noConfusion
  alone := by
    have alone : s'.Alone := by
      rw [Alone,threads,set]
      exact sound.alone
    exact alone.goto thread next fun first => Bool.noConfusion (first.symm.trans sets)
  exclusive := by
    intro other within
    have held : (s'.goto thread next).eventQueueMutex = s.eventQueueMutex := mutex
    rw [held]
    rcases eq_or_ne other thread with rfl | different
    · exact sound.exclusive other inside
    · rw [goto_other _ next different,threads] at within
      exact sound.exclusive other within
  bounded := bounded
  written := written
  accounted := by
    have holds := sound.exclusive thread inside
    rw [← mutex] at holds
    rw [holder_goto _ next holds]
    exact accounted

theorem unlock (sound : Sound kernel s) {thread : ι}
    (inside : (s.threads thread).inside = true) (owes : (s.threads thread).owes = 0)
    (fills : (s.threads thread).fills = none) :
    Sound kernel ({ s with eventQueueMutex := none }.goto thread (.outside false)) where
  runs := sound.runs
  unset := by
    intro unset
    exact absurd ((sound.set_of_inside inside).symm.trans unset) Bool.noConfusion
  alone := Alone.goto sound.alone thread _ Bool.noConfusion
  exclusive := by
    intro other within
    rcases eq_or_ne other thread with rfl | different
    · rw [goto_self] at within
      exact Bool.noConfusion within
    · rw [goto_other _ _ different] at within
      have same := (sound.exclusive other within).symm.trans (sound.exclusive thread inside)
      exact absurd (Option.some.inj same) different
  bounded := sound.bounded
  written := sound.written
  accounted := by
    obtain ⟨entries,filling,represents,carried,filled,owed⟩ := sound.accounted
    rw [sound.holder_eq inside] at filled owed
    rw [fills] at filled
    rw [owes] at owed
    exact ⟨entries,filling,represents,carried,filled,owed⟩

omit [DecidableEq ι] in
/-- What an allocation does, which is never undefined. -/
theorem adds (sound : Sound kernel s) {thread : ι} {push : Push}
    (here : s.threads thread = .pushAdding push) (granted : Option (Address × QueueElement)) :
    (s.eventQueue.add s.memory granted = some (s.memory,s.eventQueue,none) ∧
      ∀ address content, granted = some (address,content) → s.memory address ≠ none) ∨
    ∃ memory queue event, s.eventQueue.add s.memory granted = some (memory,queue,some event) ∧
      { s with memory := memory, eventQueue := queue }.Accounted (.pushFilling push event) := by
  have inside : (s.threads thread).inside = true := by rw [here]; rfl
  obtain ⟨entries,filling,represents,carried,filled,owed⟩ := sound.accounted
  rw [sound.holder_eq inside,here] at filled owed
  obtain rfl : filling = [] := List.map_eq_nil_iff.mp filled
  rw [List.append_nil] at represents owed
  rcases granted with _ | ⟨address,content⟩
  · exact Or.inl ⟨rfl,by simp⟩
  by_cases member : address ∈ entries.map Prod.fst
  · have held := (represents.held_iff address).mpr member
    exact Or.inl ⟨represents.add_refused (by simpa using member),by simpa using held⟩
  · obtain ⟨memory,queue,added,-,after⟩ := represents.add member content
    refine Or.inr ⟨memory,queue,address,added,entries,[(address,content.event)],after,carried,
      rfl,?_⟩
    change s.eventPipe + s.unwritten + 0 = entries.length at owed
    change s.eventPipe + s.unwritten + 1 = (entries ++ [(address,content.event)]).length
    simpa using owed

omit [DecidableEq ι] in
theorem fills (sound : Sound kernel s) {thread : ι} {push : Push} {event : Address}
    (here : s.threads thread = .pushFilling push event) :
    ∃ memory, s.memory.write (some event)
        (fun element => { element with event := push.fill element.event }) = some memory ∧
      { s with memory := memory, pushed := s.pushed ++ [push] }.Accounted .pushWriting := by
  have inside : (s.threads thread).inside = true := by rw [here]; rfl
  obtain ⟨entries,filling,represents,carried,filled,owed⟩ := sound.accounted
  rw [sound.holder_eq inside,here] at filled owed
  obtain ⟨⟨address,content⟩,rest,rfl,rfl,nothing⟩ := List.map_eq_cons_iff.mp filled
  obtain rfl := List.map_eq_nil_iff.mp nothing
  obtain ⟨memory,written,after⟩ := represents.fill push.fill
  refine ⟨memory,written,entries ++ [(address,push.fill content)],[],?_,?_,rfl,?_⟩
  · rw [List.append_nil]
    exact after
  · change List.Forall₂ Carries (s.pushed ++ [push]) _
    rw [List.map_append,← List.append_assoc]
    exact List.rel_append carried (.cons (push.fill_carries content) .nil)
  · rw [List.append_nil]
    simpa using owed

omit [DecidableEq ι] in
theorem takes (sound : Sound kernel s) {thread : ι} (here : s.threads thread = .pollTaking) :
    ∃ memory queue event, s.eventQueue.take s.memory true =
        some (memory,queue,true,some event) ∧
      { s with memory := memory, eventQueue := queue, polled := s.polled ++ [event] }.Accounted
        .pollUnlocking := by
  have inside : (s.threads thread).inside = true := by rw [here]; rfl
  obtain ⟨entries,filling,represents,carried,filled,owed⟩ := sound.accounted
  rw [sound.holder_eq inside,here] at filled owed
  obtain rfl : filling = [] := List.map_eq_nil_iff.mp filled
  rw [List.append_nil] at represents owed
  change s.eventPipe + s.unwritten + 1 = entries.length at owed
  rcases entries with _ | ⟨entry,entries⟩
  · exact absurd owed (Nat.succ_ne_zero _)
  · obtain ⟨memory,queue,taken,rest⟩ := represents.take true
    refine ⟨memory,queue,entry.2,taken,entries,[],by simpa using rest,?_,rfl,?_⟩
    · simpa using carried
    · simpa using owed

/-- Until the pipe is there its set-up writes only what was there before. -/
theorem sets_up (sound : Sound kernel s) {thread : ι} {label : Label} {s' : BoatInternal ι}
    (here : (s.threads thread).setsUp = true) (steps : Step kernel s thread label s') :
    (∃ next : Thread, next.rests = true ∧ s' = s.goto thread next) ∨
      s' = { s with hasEventPipe := true }.goto thread (.outside false) := by
  obtain ⟨queue,mutex,pipe,-⟩ := sound.unset (sound.alone thread here).1
  cases steps with
  | pipeFailed | epollFailed | epoll => exact Or.inl ⟨_,rfl,rfl⟩
  | pipe => exact Or.inl ⟨.epollCreating,rfl,by rw [← pipe]⟩
  | queueInit => exact Or.inl ⟨.mutexInit,rfl,by rw [← queue]⟩
  | mutexInit => exact Or.inl ⟨.pipeSetting,rfl,by rw [← mutex]⟩
  | pipeSet => exact Or.inr rfl
  | _ => simp_all [Thread.setsUp]

theorem sets (sound : Sound kernel s) {thread : ι} (here : (s.threads thread).setsUp = true) :
    Sound kernel ({ s with hasEventPipe := true }.goto thread (.outside false)) := by
  have outside : (s.threads thread).inside = false := Thread.outside_of_setsUp here
  obtain ⟨runs,-,-,exclusive,bounded,written,accounted⟩ :=
    @move _ _ _ _ sound thread (.outside false) outside rfl (Or.inr rfl) Bool.noConfusion
  refine ⟨runs,Bool.noConfusion,?_,exclusive,bounded,written,accounted⟩
  intro other also
  rcases eq_or_ne other thread with rfl | different
  · rw [goto_self] at also
    exact Bool.noConfusion also
  · rw [goto_other _ _ different] at also
    exact absurd ((sound.alone thread here).2 other also) different

theorem step (sound : Sound kernel s) {thread : ι} {label : Label} {s' : BoatInternal ι}
    (steps : Step kernel s thread label s') (once : SetUpOnce s label) : Sound kernel s' := by
  rcases setsUp : (s.threads thread).setsUp with _ | _
  swap
  · rcases sound.sets_up setsUp steps with ⟨next,rests,rfl⟩ | rfl
    · have unused := Thread.unused_of_rests rests
      exact sound.move (Thread.outside_of_setsUp setsUp) (Thread.outside_of_unused unused)
        (Or.inr unused) fun _ => sound.alone thread setsUp
    · exact sound.sets setsUp
  cases steps with
  | pipeFailed here | pipe here | epollFailed here | epoll here | queueInit here
  | mutexInit here | pipeSet here =>
    rw [here] at setsUp
    exact Bool.noConfusion setsUp
  | setEventPipe ready here =>
    obtain ⟨unset,free⟩ := once
    apply sound.move (by rw [here]; rfl) rfl (Or.inr rfl)
    intro _
    refine ⟨unset,?_⟩
    intro other sets
    exact Bool.noConfusion (sets.symm.trans (free other))
  | pushUnset push ready here unset =>
    exact sound.move (by rw [here]; rfl) rfl (Or.inr rfl) Bool.noConfusion
  | push push ready here set =>
    exact sound.move (by rw [here]; rfl) rfl (Or.inl set) Bool.noConfusion
  | pushLock push here unlocked =>
    exact sound.lock (sound.set_of_uses (by rw [here]; rfl)) unlocked rfl rfl rfl
  | addCrash push granted here undefined =>
    rcases sound.adds here granted with ⟨refused,-⟩ | ⟨_,_,_,added,-⟩
    · exact absurd (refused.symm.trans undefined) (Option.some_ne_none _)
    · exact absurd (added.symm.trans undefined) (Option.some_ne_none _)
  | addFailed push granted memory queue here refused =>
    rcases sound.adds here granted with ⟨same,-⟩ | ⟨_,_,_,added,-⟩
    · obtain ⟨rfl,rfl,-⟩ := by simpa using same.symm.trans refused
      have inside : (s.threads thread).inside = true := by rw [here]; rfl
      have accounted := sound.accounted
      rw [sound.holder_eq inside,here] at accounted
      exact sound.within inside rfl rfl rfl sound.runs sound.bounded sound.written accounted rfl
    · simp [added] at refused
  | add push granted memory queue event here added =>
    rcases sound.adds here granted with ⟨same,-⟩ | ⟨_,_,_,same,accounted⟩
    · simp [same] at added
    · obtain ⟨rfl,rfl,rfl⟩ := by simpa using same.symm.trans added
      exact sound.within (by rw [here]; rfl) rfl rfl rfl sound.runs sound.bounded
        sound.written accounted rfl
  | fillCrash push event here undefined =>
    obtain ⟨memory,filled,-⟩ := sound.fills here
    exact absurd (filled.symm.trans undefined) (Option.some_ne_none _)
  | fill push event memory here filled =>
    obtain ⟨memory',same,accounted⟩ := sound.fills here
    obtain rfl := Option.some.inj (same.symm.trans filled)
    exact sound.within (by rw [here]; rfl) rfl rfl rfl sound.runs sound.bounded
      sound.written accounted rfl
  | write here room =>
    have inside : (s.threads thread).inside = true := by rw [here]; rfl
    obtain ⟨entries,filling,represents,carried,filled,owed⟩ := sound.accounted
    rw [sound.holder_eq inside,here] at filled owed
    refine sound.within inside rfl rfl rfl sound.runs room sound.written
      ⟨entries,filling,represents,carried,filled,?_⟩ rfl
    simp only [Thread.owes] at owed ⊢
    omega
  | writeInterrupted here interrupts =>
    have inside : (s.threads thread).inside = true := by rw [here]; rfl
    obtain ⟨entries,filling,represents,carried,filled,owed⟩ := sound.accounted
    rw [sound.holder_eq inside,here] at filled owed
    refine sound.within inside rfl rfl rfl sound.runs sound.bounded ?_
      ⟨entries,filling,represents,carried,filled,owed⟩ rfl
    intro quiet
    exact Bool.noConfusion (quiet.symm.trans interrupts)
  | pushUnlock here =>
    exact sound.unlock (by rw [here]; rfl) (by rw [here]; rfl) (by rw [here]; rfl)
  | pollUnset ready here unset =>
    exact sound.move (by rw [here]; rfl) rfl (Or.inr rfl) Bool.noConfusion
  | poll ready here set =>
    exact sound.move (by rw [here]; rfl) rfl (Or.inl set) Bool.noConfusion
  | pollLock here unlocked =>
    exact sound.lock (sound.set_of_uses (by rw [here]; rfl)) unlocked rfl rfl rfl
  | read here filled_ =>
    have inside : (s.threads thread).inside = true := by rw [here]; rfl
    obtain ⟨entries,filling,represents,carried,filled,owed⟩ := sound.accounted
    rw [sound.holder_eq inside,here] at filled owed
    refine sound.within inside rfl rfl rfl sound.runs ?_ sound.written
      ⟨entries,filling,represents,carried,filled,?_⟩ rfl
    · exact Nat.le_trans (Nat.sub_le ..) sound.bounded
    · simp only [Thread.owes] at owed ⊢
      omega
  | readInterrupted here interrupts =>
    have inside : (s.threads thread).inside = true := by rw [here]; rfl
    have accounted := sound.accounted
    rw [sound.holder_eq inside,here] at accounted
    exact sound.within inside rfl rfl rfl sound.runs sound.bounded sound.written accounted rfl
  | takeCrash here undefined =>
    obtain ⟨_,_,_,taken,-⟩ := sound.takes here
    exact absurd (taken.symm.trans undefined) (Option.some_ne_none _)
  | take memory queue ret event here taken =>
    obtain ⟨_,_,_,same,accounted⟩ := sound.takes here
    obtain ⟨rfl,rfl,rfl,rfl⟩ := by simpa using same.symm.trans taken
    exact sound.within (by rw [here]; rfl) rfl rfl rfl sound.runs sound.bounded
      sound.written accounted rfl
  | pollUnlock here =>
    exact sound.unlock (by rw [here]; rfl) (by rw [here]; rfl) (by rw [here]; rfl)
  | wait found ready here reads =>
    exact sound.move (by rw [here]; rfl) rfl (Or.inr rfl) Bool.noConfusion

end Sound

theorem sound_invariant (ι : Type) [DecidableEq ι] (kernel : Kernel) :
    (system ι kernel).Invariant (Sound kernel) where
  start := by
    rintro s rfl
    exact Sound.start kernel
  step := by
    intro s s' _ sound steps
    obtain ⟨thread,label,step,once⟩ := steps
    exact sound.step step once

/-- In every run the events polled and those that wait are what was pushed, in its order, and one
thread at a time has the queue, which is never used where it is undefined. -/
theorem delivered {kernel : Kernel} {s : BoatInternal ι}
    (reached : (system ι kernel).Reachable s) :
    s.crashed = false ∧
    (∀ thread other, (s.threads thread).inside = true → (s.threads other).inside = true →
      thread = other) ∧
    ∃ waiting : List (Address × BoatEvent),
      List.Forall₂ Carries s.pushed (s.polled ++ waiting.map Prod.snd) ∧
      ((∀ thread, (s.threads thread).inside = false) →
        Represents s.memory s.eventQueue waiting ∧ s.eventPipe + s.unwritten = waiting.length ∧
          (kernel.interrupts = false → s.unwritten = 0)) := by
  have sound := (sound_invariant ι kernel).reachable reached
  refine ⟨sound.runs,?_,?_⟩
  · intro thread other here there
    exact Option.some.inj ((sound.exclusive thread here).symm.trans (sound.exclusive other there))
  · obtain ⟨waiting,filling,represents,carried,filled,owed⟩ := sound.accounted
    refine ⟨waiting,carried,?_⟩
    intro outside
    have holder : s.holder.inside = false := by
      rw [BoatInternal.holder]
      split
      · rfl
      · exact outside _
    rw [Thread.fills_outside holder] at filled
    obtain rfl : filling = [] := List.map_eq_nil_iff.mp filled
    rw [Thread.owes_outside holder,List.append_nil] at owed
    rw [List.append_nil] at represents
    exact ⟨represents,owed,sound.written⟩

theorem reaches {kernel : Kernel} {s s' : BoatInternal ι}
    (reached : (system ι kernel).Reachable s) (thread : ι) {label : Label}
    (steps : Step kernel s thread label s') (once : SetUpOnce s label) :
    (system ι kernel).Reachable s' :=
  .step s s' reached ⟨thread,label,steps,once⟩

/-- The set-up before all else, wherever its steps are allowed. -/
theorem sets_up_run (kernel : Kernel) (thread : ι)
    {allowed : BoatInternal ι → BoatInternal ι → Prop}
    (allows : ∀ s label s', Step kernel s thread label s' → SetUpOnce s label →
      label = .setEventPipe ∨ label = .proceed → allowed s s') :
    Relation.ReflTransGen allowed start { start with hasEventPipe := true } := by
  have proceeds {s s' : BoatInternal ι} (steps : Step kernel s thread .proceed s') :
      allowed s s' := allows s _ s' steps trivial (Or.inr rfl)
  have run := Relation.ReflTransGen.refl.tail
    (allows start _ _ (.setEventPipe false rfl) ⟨rfl,fun _ => rfl⟩ (Or.inl rfl))
    |>.tail (proceeds (.pipe (goto_self ..)))
    |>.tail (proceeds (.epoll (goto_self ..)))
    |>.tail (proceeds (.queueInit (goto_self ..)))
    |>.tail (proceeds (.mutexInit (goto_self ..)))
    |>.tail (proceeds (.pipeSet (goto_self ..)))
  simpa [goto,start] using run

theorem reaches_set (kernel : Kernel) (thread : ι) :
    (system ι kernel).Reachable { start with hasEventPipe := true } := by
  refine (System.Reachable.start start rfl).run (sets_up_run kernel thread ?_)
  intro s label s' steps once _
  exact ⟨thread,label,steps,once⟩

/-- The pointer moves and the game sees it. -/
theorem delivered_motion : ∃ s : BoatInternal Bool, (system Bool ⟨1,false⟩).Reachable s ∧
    s.polled = [⟨7,6,0,0,0,3,4,0,0,0,0⟩] ∧ ∃ waiting : List (Address × BoatEvent),
      List.Forall₂ Carries s.pushed (s.polled ++ waiting.map Prod.snd) := by
  have set : (system Bool ⟨1,false⟩).Reachable _ := reaches_set ⟨1,false⟩ true
  have pushing := reaches set true (.push ⟨7,6,3,4⟩ false rfl rfl) trivial
  have locked := reaches pushing true (.pushLock _ rfl rfl) trivial
  have added := reaches locked true
    (.add _ (some (1,⟨none,⟨0,0,0,0,0,0,0,0,0,0,0⟩⟩)) _ _ _ rfl rfl) trivial
  have filled := reaches added true (.fill _ _ _ rfl rfl) trivial
  have written := reaches filled true (.write rfl (by decide)) trivial
  have unlocked := reaches written true (.pushUnlock rfl) trivial
  have found := reaches unlocked false (.wait true false rfl fun _ => ⟨rfl,by decide⟩) trivial
  have polling := reaches found false (.poll true rfl rfl) trivial
  have relocked := reaches polling false (.pollLock rfl rfl) trivial
  have read := reaches relocked false (.read rfl (by decide)) trivial
  have taken := reaches read false (.take _ _ _ _ rfl rfl) trivial
  obtain ⟨-,-,waiting,carried,-⟩ := delivered taken
  exact ⟨_,taken,rfl,waiting,carried⟩

end BoatInternal

end HmclPe.Boat
