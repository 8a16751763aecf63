import HmclPe.Boat.Deadlock

/-! A game that polls in one thread, each time after a wait that found something, and threads that
push with memory to spare: when all that was pushed can still be polled. -/
namespace HmclPe.Boat
open Lib.Runs Relation

namespace Thread

/-- In a push, with the mutex and before its byte. -/
def fillsPipe : Thread → Bool
  | .pushAdding _ | .pushFilling _ _ | .pushWriting => true
  | _ => false

def pushes : Thread → Bool
  | .pushLocking _ | .pushAdding _ | .pushFilling _ _ | .pushWriting | .pushUnlocking => true
  | _ => false

def polls : Thread → Bool
  | .pollLocking | .pollReading | .pollTaking | .pollUnlocking => true
  | _ => false

/-- After a wait that found something, or on the way to reading that. -/
def reads : Thread → Bool
  | .outside ready => ready
  | .pollLocking | .pollReading => true
  | _ => false

theorem inside_of_fillsPipe {thread : Thread} (fills : thread.fillsPipe = true) :
    thread.inside = true := by
  cases thread <;> first | rfl | exact Bool.noConfusion fills

theorem quiet_of_rests {thread : Thread} (rests : thread.rests = true) :
    thread.pushes = false ∧ thread.polls = false ∧ thread.reads = false := by
  cases thread <;> simp_all [Thread.rests,setsUp,pushes,polls,reads]

end Thread

variable {ι : Type}

def Disciplined (consumer : ι) (s : BoatInternal ι) (thread : ι) : Label → Prop
  | .pushEvent _ => thread ≠ consumer
  | .boatPollEvent => thread = consumer ∧ s.threads thread = .outside true
  | .malloc granted =>
    ∃ address content, granted = some (address,content) ∧ s.memory address = none
  | .setEventPipe => SetUpOnce s .setEventPipe
  | .boatWaitForEvent _ | .proceed | .failed | .interrupted => True

theorem Disciplined.once {consumer : ι} {s : BoatInternal ι} {thread : ι} {label : Label}
    (keeps : Disciplined consumer s thread label) : SetUpOnce s label := by
  cases label <;> first | exact keeps | trivial

variable [DecidableEq ι]

def disciplined (ι : Type) [DecidableEq ι] (kernel : Kernel) (consumer : ι) :
    System (BoatInternal ι) where
  Start s := s = BoatInternal.start
  Step s s' := ∃ thread label, BoatInternal.Step kernel s thread label s' ∧
    Disciplined consumer s thread label

namespace BoatInternal

variable {kernel : Kernel} {consumer : ι} {s s' : BoatInternal ι}

structure Ready (consumer : ι) (s : BoatInternal ι) : Prop where
  owned : ∀ owner, s.eventQueueMutex = some owner → (s.threads owner).inside = true
  only : ∀ thread, (s.threads thread).polls = true → thread = consumer
  never : (s.threads consumer).pushes = false
  reads : (s.threads consumer).reads = true → 0 < s.eventPipe

namespace Ready

/-- What a step has to keep, of which thread it is and of the state beside the threads. -/
theorem goto (ready : Ready consumer s) {thread : ι} {next : Thread} {s₁ : BoatInternal ι}
    (threads : s₁.threads = s.threads)
    (owned : ∀ owner, s₁.eventQueueMutex = some owner →
      owner = thread ∧ next.inside = true ∨ owner ≠ thread ∧ s.eventQueueMutex = some owner)
    (only : next.polls = true → thread = consumer)
    (never : thread = consumer → next.pushes = false)
    (reads : thread = consumer → next.reads = true → 0 < s₁.eventPipe)
    (pipe : thread ≠ consumer → 0 < s.eventPipe → 0 < s₁.eventPipe) :
    Ready consumer (s₁.goto thread next) where
  owned := by
    intro owner holds
    rcases owned owner holds with ⟨rfl,inside⟩ | ⟨different,before⟩
    · rw [goto_self]
      exact inside
    · rw [goto_other s₁ next different,threads]
      exact ready.owned owner before
  only := by
    intro other polls
    rcases eq_or_ne other thread with rfl | different
    · rw [goto_self] at polls
      exact only polls
    · rw [goto_other s₁ next different,threads] at polls
      exact ready.only other polls
  never := by
    rcases eq_or_ne consumer thread with rfl | different
    · rw [goto_self]
      exact never rfl
    · rw [goto_other s₁ next different,threads]
      exact ready.never
  reads := by
    intro reading
    rcases eq_or_ne consumer thread with rfl | different
    · rw [goto_self] at reading
      exact reads rfl reading
    · rw [goto_other s₁ next different,threads] at reading
      exact pipe different.symm (ready.reads reading)

/-- A thread goes on outside. -/
theorem outside (ready : Ready consumer s) {thread : ι} {next : Thread}
    (here : (s.threads thread).inside = false) (only : next.polls = true → thread = consumer)
    (never : thread = consumer → next.pushes = false)
    (reads : thread = consumer → next.reads = true → 0 < s.eventPipe) :
    Ready consumer (s.goto thread next) := by
  refine ready.goto rfl ?_ only never reads fun _ filled => filled
  intro owner holds
  refine Or.inr ⟨?_,holds⟩
  rintro rfl
  exact Bool.noConfusion (here.symm.trans (ready.owned owner holds))

/-- The owner of the mutex goes on with it. -/
theorem inside (ready : Ready consumer s) {thread : ι} {next : Thread} {s₁ : BoatInternal ι}
    (threads : s₁.threads = s.threads) (holds : s₁.eventQueueMutex = some thread)
    (there : next.inside = true) (only : next.polls = true → thread = consumer)
    (never : thread = consumer → next.pushes = false)
    (reads : thread = consumer → next.reads = true → 0 < s₁.eventPipe)
    (pipe : thread ≠ consumer → 0 < s.eventPipe → 0 < s₁.eventPipe) :
    Ready consumer (s₁.goto thread next) := by
  refine ready.goto threads ?_ only never reads pipe
  intro owner owns
  exact Or.inl ⟨Option.some.inj (owns.symm.trans holds),there⟩

theorem unlock (ready : Ready consumer s) {thread : ι} :
    Ready consumer ({ s with eventQueueMutex := none }.goto thread (.outside false)) :=
  ready.goto rfl (fun _ holds => Option.noConfusion rfl (heq_of_eq holds))
    (fun polls => Bool.noConfusion polls) (fun _ => rfl)
    (fun _ reads => Bool.noConfusion reads) (fun _ filled => filled)

omit [DecidableEq ι] in
theorem not_consumer (ready : Ready consumer s) {thread : ι}
    (pushes : (s.threads thread).pushes = true) : thread ≠ consumer := by
  rintro rfl
  exact Bool.noConfusion (pushes.symm.trans ready.never)

theorem step (ready : Ready consumer s) (sound : Sound kernel s) {thread : ι} {label : Label}
    (steps : Step kernel s thread label s') (keeps : Disciplined consumer s thread label) :
    Ready consumer s' := by
  rcases setsUp : (s.threads thread).setsUp with _ | _
  swap
  · have outside := Thread.outside_of_setsUp setsUp
    rcases sound.sets_up setsUp steps with ⟨next,rests,rfl⟩ | rfl
    · obtain ⟨pushes,polls,reads⟩ := Thread.quiet_of_rests rests
      exact ready.outside outside (fun also => Bool.noConfusion (polls.symm.trans also))
        (fun _ => pushes) (fun _ also => Bool.noConfusion (reads.symm.trans also))
    · obtain ⟨owned,only,never,reads⟩ := @Ready.outside _ _ _ _ ready thread (.outside false)
        outside Bool.noConfusion (fun _ => rfl) (fun _ => Bool.noConfusion)
      exact ⟨owned,only,never,reads⟩
  cases steps with
  | pipeFailed here | pipe here | epollFailed here | epoll here | queueInit here
  | mutexInit here | pipeSet here =>
    rw [here] at setsUp
    exact Bool.noConfusion setsUp
  | setEventPipe ready_ here =>
    exact ready.outside (by rw [here]; rfl) (fun polls => Bool.noConfusion polls)
      (fun _ => rfl) (fun _ reads => Bool.noConfusion reads)
  | pushUnset push ready_ here unset | pollUnset ready_ here unset =>
    exact ready.outside (by rw [here]; rfl) (fun polls => Bool.noConfusion polls)
      (fun _ => rfl) (fun _ reads => Bool.noConfusion reads)
  | push push ready_ here set =>
    exact ready.outside (by rw [here]; rfl) (fun polls => Bool.noConfusion polls)
      (fun same => absurd same keeps) (fun same => absurd same keeps)
  | pushLock push here unlocked =>
    have other := ready.not_consumer (by rw [here]; rfl)
    exact ready.inside rfl rfl rfl (fun polls => Bool.noConfusion polls)
      (fun same => absurd same other) (fun same => absurd same other) (fun _ filled => filled)
  | addCrash push granted here undefined =>
    exact ⟨ready.owned,ready.only,ready.never,ready.reads⟩
  | addFailed push granted memory queue here refused =>
    obtain ⟨address,content,rfl,free⟩ := keeps
    obtain ⟨_,_,_,added⟩ := sound.adds_free here free content
    simp [added] at refused
  | add push granted memory queue event here added =>
    have other := ready.not_consumer (by rw [here]; rfl)
    have holds := sound.exclusive thread (by rw [here]; rfl)
    exact ready.inside rfl holds rfl (fun polls => Bool.noConfusion polls)
      (fun same => absurd same other) (fun same => absurd same other) (fun _ filled => filled)
  | fillCrash push event here undefined =>
    exact ⟨ready.owned,ready.only,ready.never,ready.reads⟩
  | fill push event memory here filled =>
    have other := ready.not_consumer (by rw [here]; rfl)
    have holds := sound.exclusive thread (by rw [here]; rfl)
    exact ready.inside rfl holds rfl (fun polls => Bool.noConfusion polls)
      (fun same => absurd same other) (fun same => absurd same other) (fun _ filled => filled)
  | write here room =>
    have other := ready.not_consumer (by rw [here]; rfl)
    have holds := sound.exclusive thread (by rw [here]; rfl)
    exact ready.inside rfl holds rfl (fun polls => Bool.noConfusion polls)
      (fun same => absurd same other) (fun same => absurd same other)
      (fun _ _ => Nat.succ_pos _)
  | writeInterrupted here interrupts =>
    have other := ready.not_consumer (by rw [here]; rfl)
    have holds := sound.exclusive thread (by rw [here]; rfl)
    exact ready.inside rfl holds rfl (fun polls => Bool.noConfusion polls)
      (fun same => absurd same other) (fun same => absurd same other) (fun _ filled => filled)
  | pushUnlock here => exact ready.unlock
  | poll ready_ here set =>
    obtain ⟨rfl,there⟩ := keeps
    exact ready.outside (by rw [here]; rfl) (fun _ => rfl) (fun _ => rfl)
      (fun _ _ => ready.reads (by rw [there]; rfl))
  | pollLock here unlocked =>
    obtain rfl := ready.only thread (by rw [here]; rfl)
    exact ready.inside rfl rfl rfl (fun _ => rfl) (fun _ => rfl)
      (fun _ _ => ready.reads (by rw [here]; rfl)) (fun _ filled => filled)
  | read here filled =>
    obtain rfl := ready.only thread (by rw [here]; rfl)
    have holds := sound.exclusive thread (by rw [here]; rfl)
    exact ready.inside rfl holds rfl (fun _ => rfl) (fun _ => rfl)
      (fun _ reads => Bool.noConfusion reads) (fun other => absurd rfl other)
  | readInterrupted here interrupts =>
    obtain rfl := ready.only thread (by rw [here]; rfl)
    have holds := sound.exclusive thread (by rw [here]; rfl)
    exact ready.inside rfl holds rfl (fun _ => rfl) (fun _ => rfl)
      (fun _ reads => Bool.noConfusion reads) (fun other => absurd rfl other)
  | takeCrash here undefined => exact ⟨ready.owned,ready.only,ready.never,ready.reads⟩
  | take memory queue ret event here taken =>
    obtain rfl := ready.only thread (by rw [here]; rfl)
    have holds := sound.exclusive thread (by rw [here]; rfl)
    exact ready.inside rfl holds rfl (fun _ => rfl) (fun _ => rfl)
      (fun _ reads => Bool.noConfusion reads) (fun other => absurd rfl other)
  | pollUnlock here => exact ready.unlock
  | wait found ready_ here reads =>
    exact ready.outside (by rw [here]; rfl) (fun polls => Bool.noConfusion polls)
      (fun _ => rfl) (fun _ found => (reads found).2)

end Ready

theorem Step.set {thread : ι} {label : Label} (steps : Step kernel s thread label s')
    (set : s.hasEventPipe = true) : s'.hasEventPipe = true := by
  cases steps with
  | pipeSet => rfl
  | _ => exact set

/-- What holds in every state of a disciplined run once the pipe is there. -/
structure Good (kernel : Kernel) (consumer : ι) (s : BoatInternal ι) : Prop where
  sound : Sound kernel s
  ready : Ready consumer s
  set : s.hasEventPipe = true

omit [DecidableEq ι] in
theorem Ready.start (consumer : ι) : Ready consumer start where
  owned := by
    intro owner holds
    exact absurd holds.symm (Option.some_ne_none owner)
  only := fun _ polls => Bool.noConfusion polls
  never := rfl
  reads := fun reads => Bool.noConfusion reads

theorem disciplined_invariant (kernel : Kernel) (consumer : ι) :
    (disciplined ι kernel consumer).Invariant fun s => Sound kernel s ∧ Ready consumer s where
  start := by
    rintro s rfl
    exact ⟨Sound.start kernel,Ready.start consumer⟩
  step := by
    intro s s' _ before steps
    obtain ⟨thread,label,step,keeps⟩ := steps
    exact ⟨before.1.step step keeps.once,before.2.step before.1 step keeps⟩

namespace Good

theorem step (good : Good kernel consumer s) {thread : ι} {label : Label}
    (steps : Step kernel s thread label s') (keeps : Disciplined consumer s thread label) :
    Good kernel consumer s' :=
  ⟨good.sound.step steps keeps.once,good.ready.step good.sound steps keeps,steps.set good.set⟩

/-! ### Letting the owner of the mutex go -/

/-- A run to a state with the mutex free, with so many bytes in the pipe. -/
def Frees (kernel : Kernel) (consumer : ι) (s : BoatInternal ι) (pipe : Nat → Prop) : Prop :=
  ∃ s', ReflTransGen (disciplined ι kernel consumer).Step s s' ∧ Good kernel consumer s' ∧
    s'.eventQueueMutex = none ∧ pipe s'.eventPipe

theorem Frees.head {pipe : Nat → Prop} {s₁ : BoatInternal ι} {thread : ι} {label : Label}
    (steps : Step kernel s thread label s₁) (keeps : Disciplined consumer s thread label)
    (later : Frees kernel consumer s₁ pipe) : Frees kernel consumer s pipe := by
  obtain ⟨s',run,good,unlocked,holds⟩ := later
  exact ⟨s',.head ⟨thread,label,steps,keeps⟩ run,good,unlocked,holds⟩

theorem push_unlocks (good : Good kernel consumer s) {thread : ι}
    (here : s.threads thread = .pushUnlocking) :
    Frees kernel consumer s (fun pipe => pipe = s.eventPipe) := by
  have steps : Step kernel s thread _ _ := .pushUnlock here
  exact .head steps trivial ⟨_,.refl,good.step steps trivial,rfl,rfl⟩

theorem poll_unlocks (good : Good kernel consumer s) {thread : ι}
    (here : s.threads thread = .pollUnlocking) :
    Frees kernel consumer s (fun pipe => pipe = s.eventPipe) := by
  have steps : Step kernel s thread _ _ := .pollUnlock here
  exact .head steps trivial ⟨_,.refl,good.step steps trivial,rfl,rfl⟩

theorem writes (good : Good kernel consumer s) {thread : ι}
    (here : s.threads thread = .pushWriting) (room : s.eventPipe < kernel.capacity) :
    Frees kernel consumer s (fun pipe => pipe = s.eventPipe + 1) := by
  have steps : Step kernel s thread _ _ := .write here room
  exact .head steps trivial ((good.step steps trivial).push_unlocks (goto_self ..))

theorem fills (good : Good kernel consumer s) {thread : ι} {push : Push} {event : Address}
    (here : s.threads thread = .pushFilling push event) (room : s.eventPipe < kernel.capacity) :
    Frees kernel consumer s (fun pipe => pipe = s.eventPipe + 1) := by
  obtain ⟨memory,filled,-⟩ := good.sound.fills here
  have steps : Step kernel s thread _ _ := .fill push event memory here filled
  exact .head steps trivial ((good.step steps trivial).writes (goto_self ..) room)

theorem adds (good : Good kernel consumer s) {thread : ι} {push : Push}
    (here : s.threads thread = .pushAdding push) (room : s.eventPipe < kernel.capacity) :
    Frees kernel consumer s (fun pipe => pipe = s.eventPipe + 1) := by
  obtain ⟨address,free⟩ := good.sound.exists_free
  obtain ⟨memory,queue,event,added⟩ := good.sound.adds_free here free default
  have steps : Step kernel s thread _ _ := .add push _ memory queue event here added
  have keeps : Disciplined consumer s thread (.malloc (some (address,default))) :=
    ⟨address,default,rfl,free⟩
  exact .head steps keeps ((good.step steps keeps).fills (goto_self ..) room)

theorem takes (good : Good kernel consumer s) {thread : ι}
    (here : s.threads thread = .pollTaking) :
    Frees kernel consumer s (fun pipe => pipe = s.eventPipe) := by
  obtain ⟨memory,queue,event,taken,-⟩ := good.sound.takes here
  have steps : Step kernel s thread _ _ := .take memory queue true (some event) here taken
  exact .head steps trivial ((good.step steps trivial).poll_unlocks (goto_self ..))

theorem reads (good : Good kernel consumer s) {thread : ι}
    (here : s.threads thread = .pollReading) :
    Frees kernel consumer s (fun pipe => pipe = s.eventPipe - 1) := by
  obtain rfl := good.ready.only thread (by rw [here]; rfl)
  have filled := good.ready.reads (by rw [here]; rfl)
  have steps : Step kernel s thread _ _ := .read here filled
  exact .head steps trivial ((good.step steps trivial).takes (goto_self ..))

/-- Unless it pushes and the pipe is full. -/
theorem frees (good : Good kernel consumer s)
    (room : ∀ thread, (s.threads thread).fillsPipe = true → s.eventPipe < kernel.capacity) :
    Frees kernel consumer s (fun _ => True) := by
  have anyhow {pipe : Nat → Prop} (frees : Frees kernel consumer s pipe) :
      Frees kernel consumer s (fun _ => True) := by
    obtain ⟨s',run,after,unlocked,-⟩ := frees
    exact ⟨s',run,after,unlocked,trivial⟩
  rcases mutex : s.eventQueueMutex with _ | owner
  · exact ⟨s,.refl,good,mutex,trivial⟩
  have inside := good.ready.owned owner mutex
  cases here : s.threads owner with
  | pushAdding push => exact anyhow (good.adds here (room owner (by rw [here]; rfl)))
  | pushFilling push event => exact anyhow (good.fills here (room owner (by rw [here]; rfl)))
  | pushWriting => exact anyhow (good.writes here (room owner (by rw [here]; rfl)))
  | pushUnlocking => exact anyhow (good.push_unlocks here)
  | pollReading => exact anyhow (good.reads here)
  | pollTaking => exact anyhow (good.takes here)
  | pollUnlocking => exact anyhow (good.poll_unlocks here)
  | outside ready | pushLocking push | pollLocking | pipeCreating | epollCreating | queueInit
  | mutexInit | pipeSetting =>
    rw [here] at inside
    exact Bool.noConfusion inside

/-! ### Polling all there is -/

theorem locks (good : Good kernel consumer s) (here : s.threads consumer = .pollLocking)
    (unlocked : s.eventQueueMutex = none) :
    Frees kernel consumer s (fun pipe => pipe = s.eventPipe - 1) := by
  have steps : Step kernel s consumer _ _ := .pollLock here unlocked
  exact .head steps trivial ((good.step steps trivial).reads (goto_self ..))

/-- One event is polled. -/
theorem polls (good : Good kernel consumer s) (unlocked : s.eventQueueMutex = none)
    (filled : 0 < s.eventPipe) :
    Frees kernel consumer s (fun pipe => pipe = s.eventPipe - 1) := by
  rcases inside : (s.threads consumer).inside with _ | _
  swap
  · have holds := good.sound.exclusive consumer inside
    exact absurd (holds.symm.trans unlocked) (Option.some_ne_none _)
  cases here : s.threads consumer with
  | pollLocking => exact good.locks here unlocked
  | outside ready =>
    have waits : Step kernel s consumer _ _ := .wait true ready here fun _ => ⟨good.set,filled⟩
    have found := good.step waits trivial
    have calls : Step kernel (s.goto consumer (.outside true)) consumer _ _ :=
      .poll true (goto_self ..) good.set
    have keeps : Disciplined consumer (s.goto consumer (.outside true)) consumer
        .boatPollEvent := ⟨rfl,goto_self ..⟩
    exact .head waits trivial (.head calls keeps
      ((found.step calls keeps).locks (goto_self ..) unlocked))
  | pushLocking push =>
    have never := good.ready.never
    rw [here] at never
    exact Bool.noConfusion never
  | pipeCreating | epollCreating | queueInit | mutexInit | pipeSetting =>
    have unset := (good.sound.alone consumer (by rw [here]; rfl)).1
    exact absurd (good.set.symm.trans unset) Bool.noConfusion
  | pushAdding push | pushFilling push event | pushWriting | pushUnlocking | pollReading
  | pollTaking | pollUnlocking =>
    rw [here] at inside
    exact Bool.noConfusion inside

theorem drains (good : Good kernel consumer s) (unlocked : s.eventQueueMutex = none) :
    Frees kernel consumer s (fun pipe => pipe = 0) := by
  induction pipe : s.eventPipe generalizing s with
  | zero => exact ⟨s,.refl,good,unlocked,pipe⟩
  | succ n ih =>
    have filled : 0 < s.eventPipe := by
      rw [pipe]
      exact Nat.succ_pos n
    obtain ⟨s₁,run,after,free,less⟩ := good.polls unlocked filled
    rw [pipe] at less
    obtain ⟨s',later,ends,unlocked,empty⟩ := ih after free less
    exact ⟨s',run.trans later,ends,unlocked,empty⟩

omit [DecidableEq ι] in
/-- What waits in the queue, by the bytes in the pipe. -/
theorem backlog (good : Good kernel consumer s) (quiet : kernel.interrupts = false) :
    ∃ waiting, s.pushed.length = s.polled.length + waiting ∧ s.eventPipe ≤ waiting ∧
      (s.eventQueueMutex = none → s.eventPipe = waiting) := by
  obtain ⟨entries,filling,represents,carried,filled,owed⟩ := good.sound.accounted
  have unwritten := good.sound.written quiet
  have lengths := carried.length_eq
  rw [List.length_append,List.length_map] at lengths
  rw [unwritten,List.length_append] at owed
  refine ⟨entries.length,lengths,?_,?_⟩
  · have most : filling.length ≤ s.holder.owes := by
      have size : filling.length = s.holder.fills.toList.length := by
        rw [← filled,List.length_map]
      rw [size]
      cases s.holder <;> simp [Thread.fills]
    omega
  · intro unlocked
    rw [holder_free unlocked] at filled owed
    obtain rfl : filling = [] := List.map_eq_nil_iff.mp filled
    simpa using owed

/-! ### A full pipe -/

/-- A push has the mutex and the pipe is full. -/
def Jammed (kernel : Kernel) (s : BoatInternal ι) : Prop :=
  ∃ thread, (s.threads thread).fillsPipe = true ∧ s.eventPipe = kernel.capacity

theorem jammed_step (good : Good kernel consumer s) (quiet : kernel.interrupts = false)
    (jammed : Jammed kernel s) {thread : ι} {label : Label}
    (steps : Step kernel s thread label s') (keeps : Disciplined consumer s thread label) :
    Jammed kernel s' := by
  obtain ⟨owner,fills,full⟩ := jammed
  have holds := good.sound.exclusive owner (Thread.inside_of_fillsPipe fills)
  rcases eq_or_ne thread owner with rfl | different
  · cases steps with
    | addFailed push granted memory queue here refused =>
      obtain ⟨address,content,rfl,free⟩ := keeps
      obtain ⟨_,_,_,added⟩ := good.sound.adds_free here free content
      simp [added] at refused
    | addCrash push granted here undefined => exact ⟨thread,fills,full⟩
    | add push granted memory queue event here added =>
      exact ⟨thread,by rw [goto_self]; rfl,full⟩
    | fillCrash push event here undefined => exact ⟨thread,fills,full⟩
    | fill push event memory here filled => exact ⟨thread,by rw [goto_self]; rfl,full⟩
    | write here room =>
      rw [full] at room
      exact absurd room (Nat.lt_irrefl _)
    | writeInterrupted here interrupts =>
      exact Bool.noConfusion (quiet.symm.trans interrupts)
    | setEventPipe ready here | pipeFailed here | pipe here | epollFailed here | epoll here
    | queueInit here | mutexInit here | pipeSet here | pushUnset push ready here
    | push push ready here | pushLock push here | pushUnlock here | pollUnset ready here | poll ready here
    | pollLock here | read here | readInterrupted here | takeCrash here
    | take memory queue ret event here | pollUnlock here | wait found ready here =>
      rw [here] at fills
      exact Bool.noConfusion fills
  · have outside : (s.threads thread).inside = false := by
      by_contra within
      have same := good.sound.exclusive thread (by simpa using within)
      exact different (Option.some.inj (same.symm.trans holds))
    obtain ⟨next,-,rfl⟩ := good.sound.outside steps good.set holds outside
    exact ⟨owner,by rw [goto_other s next different.symm]; exact fills,full⟩

theorem jammed_run (good : Good kernel consumer s) (quiet : kernel.interrupts = false)
    (jammed : Jammed kernel s)
    (run : ReflTransGen (disciplined ι kernel consumer).Step s s') :
    Good kernel consumer s' ∧ Jammed kernel s' := by
  induction run with
  | refl => exact ⟨good,jammed⟩
  | tail _ last ih =>
    obtain ⟨good,jammed⟩ := ih
    obtain ⟨thread,label,steps,keeps⟩ := last
    exact ⟨good.step steps keeps,good.jammed_step quiet jammed steps keeps⟩

end Good

/-- With one polling thread that waits before each poll, and memory for all that is pushed, the
game can always poll everything, but where a push has the mutex while the pipe is full. -/
theorem catches_up_iff (quiet : kernel.interrupts = false) (room : 0 < kernel.capacity)
    (reached : (disciplined ι kernel consumer).Reachable s) (set : s.hasEventPipe = true) :
    (∃ s', ReflTransGen (disciplined ι kernel consumer).Step s s' ∧
      s'.polled.length = s'.pushed.length) ↔
    ¬ ∃ thread, (s.threads thread).fillsPipe = true ∧ s.eventPipe = kernel.capacity := by
  obtain ⟨sound,ready⟩ := (disciplined_invariant kernel consumer).reachable reached
  have good : Good kernel consumer s := ⟨sound,ready,set⟩
  constructor
  · rintro ⟨s',run,all⟩ jammed
    obtain ⟨after,_,-,full⟩ := good.jammed_run quiet jammed run
    obtain ⟨waiting,lengths,most,-⟩ := after.backlog quiet
    omega
  · intro free
    have spare : ∀ thread, (s.threads thread).fillsPipe = true →
        s.eventPipe < kernel.capacity := by
      intro thread fills
      apply Nat.lt_of_le_of_ne sound.bounded
      intro full
      exact free ⟨thread,fills,full⟩
    obtain ⟨s₁,first,after,unlocked,-⟩ := good.frees spare
    obtain ⟨s',second,ends,unlocked,empty⟩ := after.drains unlocked
    obtain ⟨waiting,lengths,-,same⟩ := ends.backlog quiet
    refine ⟨s',first.trans second,?_⟩
    rw [lengths,← same unlocked,empty]
    rfl

theorem disciplined_set (kernel : Kernel) (consumer thread : ι) :
    (disciplined ι kernel consumer).Reachable { start with hasEventPipe := true } := by
  refine (System.Reachable.start start rfl).run (sets_up_run kernel thread ?_)
  rintro s label s' steps once (rfl | rfl)
  · exact ⟨thread,_,steps,once⟩
  · exact ⟨thread,_,steps,trivial⟩

/-- One push into an empty pipe. -/
theorem catches_up_pushed : ∃ s : BoatInternal Bool, s.pushed = [⟨7,6,3,4⟩] ∧ s.polled = [] ∧
    ∃ s', ReflTransGen (disciplined Bool ⟨1,false⟩ false).Step s s' ∧
      s'.polled.length = s'.pushed.length := by
  have set : (disciplined Bool ⟨1,false⟩ false).Reachable _ := disciplined_set _ _ true
  have pushing := set.step _ _ ⟨true,_,.push ⟨7,6,3,4⟩ false rfl rfl,Bool.noConfusion⟩
  have locked := pushing.step _ _ ⟨true,_,.pushLock _ rfl rfl,trivial⟩
  have added := locked.step _ _ ⟨true,_,.add _ (some (1,⟨none,⟨0,0,0,0,0,0,0,0,0,0,0⟩⟩))
    _ _ _ rfl rfl,1,_,rfl,rfl⟩
  have filled := added.step _ _ ⟨true,_,.fill _ _ _ rfl rfl,trivial⟩
  refine ⟨_,rfl,rfl,(catches_up_iff rfl (by decide) filled rfl).mpr ?_⟩
  rintro ⟨thread,-,full⟩
  exact absurd full (by decide)

end BoatInternal

end HmclPe.Boat
