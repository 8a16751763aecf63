import HmclPe.Boat.EventPipe
import Mathlib.Data.Fintype.EquivFin

/-! When the threads that push and poll events block each other for good. -/
namespace HmclPe.Boat
open Lib.Runs Relation

variable {ι : Type} [DecidableEq ι] {kernel : Kernel} {s s' : BoatInternal ι}

namespace BoatInternal

/-- Nothing can be pushed or polled any more. -/
inductive Blocked (kernel : Kernel) (s : BoatInternal ι) : Prop
  /-- A call left the library with the mutex. -/
  | orphaned (thread : ι) (holds : s.eventQueueMutex = some thread)
      (outside : (s.threads thread).inside = false)
  | reading (thread : ι) (here : s.threads thread = .pollReading) (empty : s.eventPipe = 0)
  | writing (thread : ι) (here : s.threads thread = .pushWriting)
      (full : s.eventPipe = kernel.capacity)
  | drained (unlocked : s.eventQueueMutex = none) (empty : s.eventPipe = 0)
      (all : ∀ thread, s.threads thread = .pollLocking)

def Unchanged (s s' : BoatInternal ι) : Prop := s'.pushed = s.pushed ∧ s'.polled = s.polled

/-- A thread outside can do nothing else while another one has the mutex. -/
theorem Sound.outside (sound : Sound kernel s) {thread owner : ι} {label : Label}
    (steps : Step kernel s thread label s') (set : s.hasEventPipe = true)
    (holds : s.eventQueueMutex = some owner) (outside : (s.threads thread).inside = false) :
    ∃ next : Thread, next.inside = false ∧ s' = s.goto thread next := by
  have locked : s.eventQueueMutex ≠ none := by
    rw [holds]
    exact Option.some_ne_none owner
  cases steps with
  | setEventPipe ready here => exact ⟨_,rfl,rfl⟩
  | pipeFailed here | pipe here | epollFailed here | epoll here | queueInit here
  | mutexInit here | pipeSet here =>
    have unset := (sound.alone thread (by rw [here]; rfl)).1
    exact absurd (set.symm.trans unset) Bool.noConfusion
  | pushUnset push ready here unset => exact ⟨_,rfl,rfl⟩
  | push push ready here set => exact ⟨_,rfl,rfl⟩
  | pollUnset ready here unset => exact ⟨_,rfl,rfl⟩
  | poll ready here set => exact ⟨_,rfl,rfl⟩
  | wait found ready here reads => exact ⟨_,rfl,rfl⟩
  | pushLock push here unlocked => exact absurd unlocked locked
  | pollLock here unlocked => exact absurd unlocked locked
  | addCrash push granted here | addFailed push granted memory queue here
  | add push granted memory queue event here | fillCrash push event here
  | fill push event memory here | write here | writeInterrupted here | pushUnlock here
  | read here | readInterrupted here | takeCrash here | take memory queue ret event here
  | pollUnlock here =>
    rw [here] at outside
    exact Bool.noConfusion outside

/-- The same while the owner of the mutex waits for the kernel, whichever thread steps. -/
theorem Sound.halted (sound : Sound kernel s) {thread owner : ι} {label : Label}
    (steps : Step kernel s thread label s') (holds : s.eventQueueMutex = some owner)
    (inside : (s.threads owner).inside = true)
    (waits : ∀ label s', ¬ Step kernel s owner label s') :
    s'.threads owner = s.threads owner ∧ s'.eventQueueMutex = some owner ∧
      s'.eventPipe = s.eventPipe ∧ Unchanged s s' := by
  have different : thread ≠ owner := by
    rintro rfl
    exact waits label s' steps
  have outside : (s.threads thread).inside = false := by
    by_contra within
    have same := sound.exclusive thread (by simpa using within)
    exact different (Option.some.inj (same.symm.trans holds))
  obtain ⟨next,-,rfl⟩ := sound.outside steps (sound.set_of_inside inside) holds outside
  exact ⟨goto_other s next different.symm,holds,rfl,rfl,rfl⟩

theorem Step.not_reading {thread : ι} {label : Label} (here : s.threads thread = .pollReading)
    (empty : s.eventPipe = 0) (quiet : kernel.interrupts = false) :
    ¬ Step kernel s thread label s' := by
  intro steps
  cases steps with
  | read here filled => exact absurd filled (by rw [empty]; exact Nat.lt_irrefl 0)
  | readInterrupted here interrupts =>
    exact Bool.noConfusion (quiet.symm.trans interrupts)
  | _ => simp_all

theorem Step.not_writing {thread : ι} {label : Label} (here : s.threads thread = .pushWriting)
    (full : s.eventPipe = kernel.capacity) (quiet : kernel.interrupts = false) :
    ¬ Step kernel s thread label s' := by
  intro steps
  cases steps with
  | write here room => exact absurd room (by rw [full]; exact Nat.lt_irrefl _)
  | writeInterrupted here interrupts =>
    exact Bool.noConfusion (quiet.symm.trans interrupts)
  | _ => simp_all

theorem Blocked.step (blocked : Blocked kernel s) (sound : Sound kernel s)
    (set : s.hasEventPipe = true) (quiet : kernel.interrupts = false) {thread : ι}
    {label : Label} (steps : Step kernel s thread label s') (once : SetUpOnce s label) :
    Blocked kernel s' ∧ s'.hasEventPipe = true ∧ Unchanged s s' := by
  cases blocked with
  | orphaned owner holds outside =>
    have idle : (s.threads thread).inside = false := by
      by_contra within
      have same := sound.exclusive thread (by simpa using within)
      obtain rfl := Option.some.inj (same.symm.trans holds)
      exact within outside
    obtain ⟨next,there,rfl⟩ := sound.outside steps set holds idle
    refine ⟨.orphaned owner holds ?_,set,rfl,rfl⟩
    rcases eq_or_ne owner thread with rfl | different
    · rw [goto_self]
      exact there
    · rw [goto_other s next different]
      exact outside
  | reading owner here empty =>
    have inside : (s.threads owner).inside = true := by rw [here]; rfl
    have holds := sound.exclusive owner inside
    obtain ⟨same,-,pipe,unchanged⟩ := sound.halted steps holds inside
      fun _ _ => Step.not_reading here empty quiet
    have after := (sound.step steps once).set_of_inside (by rw [same]; exact inside)
    exact ⟨.reading owner (same.trans here) (pipe.trans empty),after,unchanged⟩
  | writing owner here full =>
    have inside : (s.threads owner).inside = true := by rw [here]; rfl
    have holds := sound.exclusive owner inside
    obtain ⟨same,-,pipe,unchanged⟩ := sound.halted steps holds inside
      fun _ _ => Step.not_writing here full quiet
    have after := (sound.step steps once).set_of_inside (by rw [same]; exact inside)
    exact ⟨.writing owner (same.trans here) (pipe.trans full),after,unchanged⟩
  | drained unlocked empty all =>
    have here := all thread
    cases steps with
    | pollLock here unlocked => exact ⟨.reading thread (goto_self ..) empty,set,rfl,rfl⟩
    | _ => simp_all

theorem Blocked.run (blocked : Blocked kernel s) (sound : Sound kernel s)
    (set : s.hasEventPipe = true) (quiet : kernel.interrupts = false)
    (run : ReflTransGen (system ι kernel).Step s s') : Unchanged s s' := by
  have stays : Blocked kernel s' ∧ Sound kernel s' ∧ s'.hasEventPipe = true ∧ Unchanged s s' := by
    induction run with
    | refl => exact ⟨blocked,sound,set,rfl,rfl⟩
    | tail _ last ih =>
      obtain ⟨blocked,sound,set,pushed,polled⟩ := ih
      obtain ⟨thread,label,steps,once⟩ := last
      obtain ⟨blocked,set,pushed_,polled_⟩ := blocked.step sound set quiet steps once
      exact ⟨blocked,sound.step steps once,set,pushed_.trans pushed,polled_.trans polled⟩
  exact stays.2.2.2

/-! ### Going on -/

omit [DecidableEq ι] in
theorem Sound.exists_free (sound : Sound kernel s) : ∃ address, s.memory address = none := by
  obtain ⟨entries,filling,represents,-⟩ := sound.accounted
  obtain ⟨address,absent⟩ :=
    Infinite.exists_notMem_finset ((entries ++ filling).map Prod.fst).toFinset
  refine ⟨address,?_⟩
  by_contra held
  exact absent (List.mem_toFinset.mpr ((represents.held_iff address).mp held))

omit [DecidableEq ι] in
/-- An allocation that is granted is linked in. -/
theorem Sound.adds_free (sound : Sound kernel s) {thread : ι} {push : Push}
    (here : s.threads thread = .pushAdding push) {address : Address}
    (free : s.memory address = none) (content : QueueElement) :
    ∃ memory queue event, s.eventQueue.add s.memory (some (address,content)) =
      some (memory,queue,some event) := by
  rcases sound.adds here (some (address,content)) with ⟨-,held⟩ | ⟨memory,queue,event,added,-⟩
  · exact absurd free (held address content rfl)
  · exact ⟨memory,queue,event,added⟩

def Progress (kernel : Kernel) (s : BoatInternal ι) : Prop :=
  ∃ s', ReflTransGen (system ι kernel).Step s s' ∧ ¬ Unchanged s s'

theorem Progress.head {s₁ : BoatInternal ι} {thread : ι} {label : Label}
    (steps : Step kernel s thread label s₁) (once : SetUpOnce s label) (same : Unchanged s s₁)
    (later : Progress kernel s₁) : Progress kernel s := by
  obtain ⟨s',run,changed⟩ := later
  refine ⟨s',.head ⟨thread,label,steps,once⟩ run,?_⟩
  intro unchanged
  exact changed ⟨unchanged.1.trans same.1.symm,unchanged.2.trans same.2.symm⟩

namespace Sound

theorem fills_progress (sound : Sound kernel s) {thread : ι} {push : Push} {event : Address}
    (here : s.threads thread = .pushFilling push event) : Progress kernel s := by
  obtain ⟨memory,filled,-⟩ := sound.fills here
  refine ⟨_,.single ⟨thread,_,.fill push event memory here filled,trivial⟩,?_⟩
  intro unchanged
  have longer : s.pushed ++ [push] = s.pushed := unchanged.1
  simp at longer

theorem adds_progress (sound : Sound kernel s) {thread : ι} {push : Push}
    (here : s.threads thread = .pushAdding push) : Progress kernel s := by
  obtain ⟨address,free⟩ := sound.exists_free
  obtain ⟨memory,queue,event,added⟩ := sound.adds_free here free default
  have steps : Step kernel s thread _ _ := .add push _ memory queue event here added
  exact .head steps trivial ⟨rfl,rfl⟩ ((sound.step steps trivial).fills_progress (goto_self ..))

theorem takes_progress (sound : Sound kernel s) {thread : ι}
    (here : s.threads thread = .pollTaking) : Progress kernel s := by
  obtain ⟨memory,queue,event,taken,-⟩ := sound.takes here
  refine ⟨_,.single ⟨thread,_,.take memory queue true (some event) here taken,trivial⟩,?_⟩
  intro unchanged
  have longer : s.polled ++ [event] = s.polled := unchanged.2
  simp at longer

theorem reads_progress (sound : Sound kernel s) {thread : ι}
    (here : s.threads thread = .pollReading) (filled : 0 < s.eventPipe) : Progress kernel s := by
  have steps : Step kernel s thread _ _ := .read here filled
  exact .head steps trivial ⟨rfl,rfl⟩ ((sound.step steps trivial).takes_progress (goto_self ..))

theorem locks_progress (sound : Sound kernel s) {thread : ι} {push : Push}
    (here : s.threads thread = .pushLocking push) (unlocked : s.eventQueueMutex = none) :
    Progress kernel s := by
  have steps : Step kernel s thread _ _ := .pushLock push here unlocked
  exact .head steps trivial ⟨rfl,rfl⟩ ((sound.step steps trivial).adds_progress (goto_self ..))

theorem outside_progress (sound : Sound kernel s) {thread : ι} {ready : Bool}
    (here : s.threads thread = .outside ready) (set : s.hasEventPipe = true)
    (unlocked : s.eventQueueMutex = none) : Progress kernel s := by
  have steps : Step kernel s thread _ _ := .push ⟨0,0,0,0⟩ ready here set
  exact .head steps trivial ⟨rfl,rfl⟩ ((sound.step steps trivial).locks_progress (goto_self ..) unlocked)

/-- Without an owner of the mutex, unless all wait to poll an empty queue. -/
theorem free_progress [Nonempty ι] (sound : Sound kernel s) (set : s.hasEventPipe = true)
    (unlocked : s.eventQueueMutex = none) (free : ¬ Blocked kernel s) : Progress kernel s := by
  obtain ⟨thread,apart⟩ : ∃ thread, s.threads thread = .pollLocking → 0 < s.eventPipe := by
    by_contra none_
    have all := not_exists.mp none_
    have empty : s.eventPipe = 0 := by
      by_contra filled
      exact all (Classical.arbitrary ι) fun _ => Nat.pos_of_ne_zero filled
    refine free (.drained unlocked empty ?_)
    intro thread
    by_contra other
    exact all thread fun here => absurd here other
  rcases inside : (s.threads thread).inside with _ | _
  swap
  · exact absurd ((sound.exclusive thread inside).symm.trans unlocked) (Option.some_ne_none _)
  cases here : s.threads thread with
  | outside ready => exact sound.outside_progress here set unlocked
  | pushLocking push => exact sound.locks_progress here unlocked
  | pollLocking =>
    have steps : Step kernel s thread _ _ := .pollLock here unlocked
    exact .head steps trivial ⟨rfl,rfl⟩ ((sound.step steps trivial).reads_progress (goto_self ..) (apart here))
  | pipeCreating | epollCreating | queueInit | mutexInit | pipeSetting =>
    have unset := (sound.alone thread (by rw [here]; rfl)).1
    exact absurd (set.symm.trans unset) Bool.noConfusion
  | pushAdding push | pushFilling push event | pushWriting | pushUnlocking | pollReading
  | pollTaking | pollUnlocking =>
    rw [here] at inside
    exact Bool.noConfusion inside

theorem push_unlocks_progress (sound : Sound kernel s) {thread : ι}
    (here : s.threads thread = .pushUnlocking) : Progress kernel s := by
  have set : s.hasEventPipe = true := sound.set_of_inside (by rw [here]; rfl)
  have steps : Step kernel s thread _ _ := .pushUnlock here
  exact .head steps trivial ⟨rfl,rfl⟩ ((sound.step steps trivial).outside_progress (goto_self ..) set rfl)

theorem poll_unlocks_progress (sound : Sound kernel s) {thread : ι}
    (here : s.threads thread = .pollUnlocking) : Progress kernel s := by
  have set : s.hasEventPipe = true := sound.set_of_inside (by rw [here]; rfl)
  have steps : Step kernel s thread _ _ := .pollUnlock here
  exact .head steps trivial ⟨rfl,rfl⟩ ((sound.step steps trivial).outside_progress (goto_self ..) set rfl)

theorem progress [Nonempty ι] (sound : Sound kernel s) (set : s.hasEventPipe = true)
    (free : ¬ Blocked kernel s) : Progress kernel s := by
  rcases mutex : s.eventQueueMutex with _ | owner
  · exact sound.free_progress set mutex free
  have inside : (s.threads owner).inside = true := by
    by_contra outside
    exact free (.orphaned owner mutex (by simpa using outside))
  cases here : s.threads owner with
  | pushAdding push => exact sound.adds_progress here
  | pushFilling push event => exact sound.fills_progress here
  | pushWriting =>
    have room : s.eventPipe < kernel.capacity := by
      apply Nat.lt_of_le_of_ne sound.bounded
      intro full
      exact free (.writing owner here full)
    have steps : Step kernel s owner _ _ := .write here room
    exact .head steps trivial ⟨rfl,rfl⟩ ((sound.step steps trivial).push_unlocks_progress (goto_self ..))
  | pushUnlocking => exact sound.push_unlocks_progress here
  | pollReading =>
    apply sound.reads_progress here
    by_contra empty
    exact free (.reading owner here (Nat.eq_zero_of_not_pos empty))
  | pollTaking => exact sound.takes_progress here
  | pollUnlocking => exact sound.poll_unlocks_progress here
  | outside ready | pushLocking push | pollLocking | pipeCreating | epollCreating | queueInit
  | mutexInit | pipeSetting =>
    rw [here] at inside
    exact Bool.noConfusion inside

end Sound

/-- In a run the library stays silent for ever exactly where its mutex is left locked, where a
poll reads an empty pipe or a push writes to a full one with the mutex, or where all wait to do
the former. -/
theorem silent_iff [Nonempty ι] (quiet : kernel.interrupts = false)
    (reached : (system ι kernel).Reachable s) (set : s.hasEventPipe = true) :
    (∀ s', ReflTransGen (system ι kernel).Step s s' →
      s'.pushed = s.pushed ∧ s'.polled = s.polled) ↔ Blocked kernel s := by
  have sound := (sound_invariant ι kernel).reachable reached
  constructor
  · intro silent
    by_contra free
    obtain ⟨s',run,changed⟩ := sound.progress set free
    exact changed (silent s' run)
  · intro blocked s' run
    exact blocked.run sound set quiet run

/-- A poll without a wait before it. -/
theorem silent_poll : ∃ s : BoatInternal Bool, Blocked ⟨1,false⟩ s ∧
    ∀ s', ReflTransGen (system Bool ⟨1,false⟩).Step s s' →
      s'.pushed = s.pushed ∧ s'.polled = s.polled := by
  have set : (system Bool ⟨1,false⟩).Reachable _ := reaches_set ⟨1,false⟩ true
  have polling := reaches set false (.poll false rfl rfl) trivial
  have locked := reaches polling false (.pollLock rfl rfl) trivial
  exact ⟨_,.reading false rfl rfl,(silent_iff rfl locked rfl).mpr (.reading false rfl rfl)⟩

end BoatInternal

end HmclPe.Boat
