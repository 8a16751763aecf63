import HmclPe.Lib.Chains

/-! The queue of input events of the native library, a linked list in allocated memory. What
touches a cell that is not allocated is undefined and yields nothing here. -/
namespace HmclPe.Boat
open Lib.Chains

structure BoatEvent where
  time : Int64
  type : Int32
  state : Int32
  button : Int32
  message : Int32
  x : Int32
  y : Int32
  keycode : Int32
  keychar : Int32
  width : Int32
  height : Int32
  deriving DecidableEq, Inhabited

abbrev Address := Nat

structure QueueElement where
  next : Option Address
  event : BoatEvent
  deriving DecidableEq, Inhabited

/-- The count is an `int`: this is the queue while fewer than 2^31 events wait. -/
structure EventQueue where
  count : Nat
  head : Option Address
  tail : Option Address
  deriving DecidableEq

/-- The allocated elements, `NULL` is `none`. -/
abbrev Memory := Address → Option QueueElement

namespace Memory

def empty : Memory := fun _ => none

def read (memory : Memory) (pointer : Option Address) : Option QueueElement :=
  pointer.bind memory

def write (memory : Memory) (pointer : Option Address) (f : QueueElement → QueueElement) :
    Option Memory := do
  let address ← pointer
  let element ← memory address
  pure (Function.update memory address (some (f element)))

/-- The allocator may refuse. What it grants was free and holds anything. -/
def malloc (memory : Memory) (granted : Option (Address × QueueElement)) :
    Memory × Option Address :=
  match granted with
  | none => (memory,none)
  | some (address,content) =>
    if (memory address).isSome then (memory,none)
    else (Function.update memory address (some content),some address)

def free (memory : Memory) (pointer : Option Address) : Option Memory :=
  match pointer with
  | none => some memory
  | some address =>
    if (memory address).isSome then some (Function.update memory address none) else none

end Memory

namespace EventQueue

def init : EventQueue := ⟨0,none,none⟩

def add (memory : Memory) (queue : EventQueue) (granted : Option (Address × QueueElement)) :
    Option (Memory × EventQueue × Option Address) := do
  let (memory,e) := memory.malloc granted
  if e.isSome then
    let memory ← memory.write e fun element => { element with next := none }
    let (memory,queue) ←
      if queue.count > 0 then do
        let memory ← memory.write queue.tail fun element => { element with next := e }
        pure (memory,{ queue with tail := e })
      else pure (memory,{ queue with head := e, tail := e })
    let queue := { queue with count := queue.count + 1 }
    pure (memory,queue,queue.tail)
  else pure (memory,queue,none)

/-- The result is whether an event was taken, with the copy of it that the caller wanted. -/
def take (memory : Memory) (queue : EventQueue) (wanted : Bool) :
    Option (Memory × EventQueue × Bool × Option BoatEvent) := do
  if queue.count > 0 then
    let e := queue.head
    let queue ←
      if queue.count = 1 then pure { queue with head := none, tail := none }
      else do
        let element ← memory.read e
        pure { queue with head := element.next }
    let queue := { queue with count := queue.count - 1 }
    let copied ←
      if wanted then do
        let element ← memory.read e
        pure (some element.event)
      else pure none
    let memory ← memory.free e
    pure (memory,queue,true,copied)
  else pure (memory,queue,false,none)

/-- The loop of `clear`, for at most so many rounds. -/
def clearLoop : Nat → Memory → EventQueue → Option (Memory × EventQueue)
  | 0, _, _ => none
  | rounds + 1, memory, queue =>
    if queue.count > 0 then do
      let (memory,queue,_) ← take memory queue false
      clearLoop rounds memory queue
    else some (memory,queue)

def clear (memory : Memory) (queue : EventQueue) : Option (Memory × EventQueue) :=
  clearLoop (queue.count + 1) memory queue

end EventQueue

/-- The queue is a chain of exactly the allocated elements and they hold the events in order. -/
def Represents (memory : Memory) (queue : EventQueue) (entries : List (Address × BoatEvent)) :
    Prop :=
  ∃ cells : List (Address × QueueElement), Fills QueueElement.next memory queue.head cells ∧
    queue.tail = cells.getLast?.map Prod.fst ∧ queue.count = cells.length ∧
    cells.map (Prod.map id QueueElement.event) = entries

namespace Represents
open EventQueue

variable {memory : Memory} {queue : EventQueue} {entries : List (Address × BoatEvent)}

theorem init : Represents Memory.empty EventQueue.init [] := ⟨[],Fills.empty,rfl,rfl,rfl⟩

theorem count (represents : Represents memory queue entries) : queue.count = entries.length := by
  obtain ⟨cells,-,-,count,rfl⟩ := represents
  rw [count,List.length_map]

theorem held_iff (represents : Represents memory queue entries) (address : Address) :
    memory address ≠ none ↔ address ∈ entries.map Prod.fst := by
  obtain ⟨cells,fills,-,-,rfl⟩ := represents
  have same : (cells.map (Prod.map id QueueElement.event)).map Prod.fst = cells.map Prod.fst := by
    simp [Function.comp_def]
  rw [same]
  constructor
  · exact fills.complete address
  · intro member absent
    exact fills.unheld absent member

theorem released (represents : Represents memory queue []) : memory = Memory.empty := by
  funext address
  by_contra held
  exact List.not_mem_nil ((represents.held_iff address).mp held)

theorem add_refused (represents : Represents memory queue entries)
    {granted : Option (Address × QueueElement)}
    (taken : ∀ address content, granted = some (address,content) →
      address ∈ entries.map Prod.fst) :
    EventQueue.add memory queue granted = some (memory,queue,none) := by
  rcases granted with _ | ⟨address,content⟩
  · rfl
  · have held := (represents.held_iff address).mpr (taken address content rfl)
    obtain ⟨element,at_⟩ := Option.ne_none_iff_exists'.mp held
    simp [EventQueue.add,Memory.malloc,at_]

/-- What is granted is linked in at the end. -/
theorem add (represents : Represents memory queue entries) {address : Address}
    (free : address ∉ entries.map Prod.fst) (content : QueueElement) :
    ∃ memory' queue', EventQueue.add memory queue (some (address,content)) =
        some (memory',queue',some address) ∧ queue'.tail = some address ∧
      Represents memory' queue' (entries ++ [(address,content.event)]) := by
  have held : memory address = none := by
    by_contra held
    exact free ((represents.held_iff address).mp held)
  obtain ⟨cells,fills,tail,count,rfl⟩ := represents
  rcases List.eq_nil_or_concat cells with rfl | ⟨before,⟨last,cell⟩,rfl⟩
  · have none_ : ¬ queue.count > 0 := by simp [count]
    refine ⟨Function.update memory address (some { content with next := none }),
      ⟨queue.count + 1,some address,some address⟩,?_,rfl,?_⟩
    · simp [EventQueue.add,Memory.malloc,held,Memory.write,none_]
    · refine ⟨[(address,{ content with next := none })],fills.single rfl,rfl,?_,rfl⟩
      simp [count]
  · rw [List.concat_eq_append] at fills tail count ⊢
    have some_ : queue.count > 0 := by simp [count]
    have at_ : queue.tail = some last := by simp [tail]
    have outside := fills.unheld held
    have apart : last ≠ address := by
      intro equal
      exact outside (by simp [equal])
    obtain ⟨here,-⟩ := fills.last
    refine ⟨Function.update (Function.update memory address
        (some { content with next := none })) last (some { cell with next := some address }),
      ⟨queue.count + 1,queue.head,some address⟩,?_,rfl,?_⟩
    · simp [EventQueue.add,Memory.malloc,held,Memory.write,some_,at_,here,
        Function.update_of_ne apart]
    · have extended := @Fills.extend _ _ _ _ _ _ before last address cell
        { cell with next := some address } { content with next := none } fills held rfl rfl
      refine ⟨_,extended,by simp,?_,by simp⟩
      simp [count]

/-- The first event is taken and its element released. -/
theorem take {entry : Address × BoatEvent}
    (represents : Represents memory queue (entry :: entries)) (wanted : Bool) :
    ∃ memory' queue', EventQueue.take memory queue wanted =
        some (memory',queue',true,if wanted then some entry.2 else none) ∧
      Represents memory' queue' entries := by
  obtain ⟨cells,fills,tail,count,same⟩ := represents
  obtain ⟨⟨address,cell⟩,cells,rfl,rfl,rfl⟩ := List.map_eq_cons_iff.mp same
  have here := fills.first
  rcases cells with _ | ⟨second,cells⟩
  · have one : queue.count = 1 := by simp [count]
    refine ⟨Function.update memory address none,⟨0,none,none⟩,?_,[],?_,rfl,rfl,rfl⟩
    · cases wanted <;> simp [EventQueue.take,one,Memory.read,Memory.free,here,fills.start_eq]
    · have dropped := fills.drop
      rw [dropped.linked] at dropped
      exact dropped
  · have some_ : queue.count > 0 := by simp [count]
    have many : queue.count ≠ 1 := by simp [count]
    refine ⟨Function.update memory address none,⟨queue.count - 1,cell.next,queue.tail⟩,?_,
      second :: cells,fills.drop,?_,?_,rfl⟩
    · cases wanted <;>
        simp [EventQueue.take,some_,many,Memory.read,Memory.free,here,fills.start_eq]
    · rw [tail,List.getLast?_cons_cons]
    · simp [count]

theorem take_empty (represents : Represents memory queue []) (wanted : Bool) :
    EventQueue.take memory queue wanted = some (memory,queue,false,none) := by
  have none_ : ¬ queue.count > 0 := by simp [represents.count]
  simp [EventQueue.take,none_]

theorem clearLoop (represents : Represents memory queue entries) {rounds : Nat}
    (enough : entries.length < rounds) :
    ∃ queue', EventQueue.clearLoop rounds memory queue = some (Memory.empty,queue') ∧
      Represents Memory.empty queue' [] := by
  induction entries generalizing memory queue rounds with
  | nil =>
    obtain ⟨rounds,rfl⟩ : ∃ r, rounds = r + 1 := ⟨rounds - 1,by omega⟩
    have none_ : ¬ queue.count > 0 := by simp [represents.count]
    obtain rfl := represents.released
    exact ⟨queue,by simp [EventQueue.clearLoop,none_],represents⟩
  | cons entry entries ih =>
    obtain ⟨rounds,rfl⟩ : ∃ r, rounds = r + 1 := ⟨rounds - 1,by omega⟩
    have some_ : queue.count > 0 := by simp [represents.count]
    obtain ⟨memory',queue',taken,rest⟩ := represents.take false
    obtain ⟨queue'',cleared,ends⟩ := ih rest (by simpa using enough)
    refine ⟨queue'',?_,ends⟩
    simp [EventQueue.clearLoop,some_,taken,cleared]

theorem clear (represents : Represents memory queue entries) :
    ∃ queue', EventQueue.clear memory queue = some (Memory.empty,queue') ∧
      Represents Memory.empty queue' [] := by
  apply represents.clearLoop
  rw [represents.count]
  exact Nat.lt_succ_self _

/-- What is written through the pointer to the last event changes only that event. -/
theorem fill {address : Address} {event : BoatEvent}
    (represents : Represents memory queue (entries ++ [(address,event)]))
    (f : BoatEvent → BoatEvent) :
    ∃ memory', memory.write (some address) (fun element =>
        { element with event := f element.event }) = some memory' ∧
      Represents memory' queue (entries ++ [(address,f event)]) := by
  obtain ⟨cells,fills,tail,count,same⟩ := represents
  obtain ⟨before,final,rfl,rfl,one⟩ := List.map_eq_append_iff.mp same
  obtain ⟨⟨last,cell⟩,rest,rfl,equal,nothing⟩ := List.map_eq_cons_iff.mp one
  obtain rfl := List.map_eq_nil_iff.mp nothing
  obtain ⟨rfl,rfl⟩ := Prod.mk.inj equal
  obtain ⟨here,ends⟩ := fills.last
  refine ⟨_,?_,before ++ [(last,{ cell with event := f cell.event })],fills.replace ends,?_,?_,?_⟩
  · simp [Memory.write,here]
  · simp [tail]
  · simp [count]
  · simp

end Represents

/-- A use of the queue. Who adds an event writes it through the pointer it gets. -/
inductive Call
  | add (granted : Option (Address × QueueElement)) (fill : BoatEvent → BoatEvent)
  | take (wanted : Bool)
  | clear

inductive Returned
  | added (event : Option Address)
  | taken (ret : Bool) (event : Option BoatEvent)
  | cleared
  deriving DecidableEq

/-- One call over the memory and the queue, nothing where it is undefined. -/
def call (memory : Memory) (queue : EventQueue) : Call → Option (Memory × EventQueue × Returned)
  | .add granted fill => do
    let (memory,queue,event) ← queue.add memory granted
    if event.isSome then
      let memory ← memory.write event fun element => { element with event := fill element.event }
      pure (memory,queue,.added event)
    else pure (memory,queue,.added none)
  | .take wanted => do
    let (memory,queue,ret,event) ← queue.take memory wanted
    pure (memory,queue,.taken ret event)
  | .clear => do
    let (memory,queue) ← queue.clear memory
    pure (memory,queue,.cleared)

def calls (memory : Memory) (queue : EventQueue) :
    List Call → Option (Memory × EventQueue × List Returned)
  | [] => some (memory,queue,[])
  | first :: rest => do
    let (memory,queue,returned) ← call memory queue first
    let (memory,queue,later) ← calls memory queue rest
    pure (memory,queue,returned :: later)

namespace Fifo

/-- What a queue of events is for, over the list of the events and where each one is. -/
def call (entries : List (Address × BoatEvent)) : Call → List (Address × BoatEvent) × Returned
  | .add none _ => (entries,.added none)
  | .add (some (address,content)) fill =>
    if address ∈ entries.map Prod.fst then (entries,.added none)
    else (entries ++ [(address,fill content.event)],.added (some address))
  | .take wanted =>
    match entries with
    | [] => ([],.taken false none)
    | entry :: entries => (entries,.taken true (if wanted then some entry.2 else none))
  | .clear => ([],.cleared)

def calls (entries : List (Address × BoatEvent)) :
    List Call → List (Address × BoatEvent) × List Returned
  | [] => (entries,[])
  | first :: rest =>
    let (entries,returned) := call entries first
    let (entries,later) := calls entries rest
    (entries,returned :: later)

end Fifo

theorem call_refines {memory : Memory} {queue : EventQueue} {entries : List (Address × BoatEvent)}
    (represents : Represents memory queue entries) (first : Call) :
    ∃ memory' queue', call memory queue first =
        some (memory',queue',(Fifo.call entries first).2) ∧
      Represents memory' queue' (Fifo.call entries first).1 := by
  cases first with
  | add granted fill =>
    rcases granted with _ | ⟨address,content⟩
    · have refused := @Represents.add_refused _ _ _ represents none (by simp)
      exact ⟨memory,queue,by simp [call,refused,Fifo.call],represents⟩
    by_cases member : address ∈ entries.map Prod.fst
    · have refused := @Represents.add_refused _ _ _ represents (some (address,content)) (by simpa using member)
      have fifo : Fifo.call entries (.add (some (address,content)) fill) =
          (entries,.added none) := if_pos member
      exact ⟨memory,queue,by simp [call,refused,fifo],by rw [fifo]; exact represents⟩
    · have fifo : Fifo.call entries (.add (some (address,content)) fill) =
          (entries ++ [(address,fill content.event)],.added (some address)) := if_neg member
      obtain ⟨memory',queue',added,-,after⟩ := represents.add member content
      obtain ⟨memory'',filled,ends⟩ := after.fill fill
      exact ⟨memory'',queue',by simp [call,added,filled,fifo],by rw [fifo]; exact ends⟩
  | take wanted =>
    cases entries with
    | nil => exact ⟨memory,queue,by simp [call,represents.take_empty,Fifo.call],represents⟩
    | cons entry entries =>
      obtain ⟨memory',queue',taken,rest⟩ := represents.take wanted
      exact ⟨memory',queue',by rw [call,taken]; rfl,rest⟩
  | clear =>
    obtain ⟨queue',cleared,ends⟩ := represents.clear
    exact ⟨Memory.empty,queue',by simp [call,cleared,Fifo.call],ends⟩

/-- No sequence of calls touches what is not allocated or leaves anything behind, and all returns
what the list of the events would. -/
theorem calls_refine {memory : Memory} {queue : EventQueue} {entries : List (Address × BoatEvent)}
    (represents : Represents memory queue entries) (list : List Call) :
    ∃ memory' queue', calls memory queue list =
        some (memory',queue',(Fifo.calls entries list).2) ∧
      Represents memory' queue' (Fifo.calls entries list).1 := by
  induction list generalizing memory queue entries with
  | nil => exact ⟨memory,queue,rfl,represents⟩
  | cons first rest ih =>
    obtain ⟨memory',queue',stepped,after⟩ := call_refines represents first
    obtain ⟨memory'',queue'',ran,ends⟩ := ih after
    exact ⟨memory'',queue'',by simp [calls,stepped,ran,Fifo.calls],ends⟩

/-- The same from the queue that `init` leaves, with what stays allocated. -/
theorem queue_refines (list : List Call) :
    ∃ memory queue, calls Memory.empty EventQueue.init list =
        some (memory,queue,(Fifo.calls [] list).2) ∧
      queue.count = (Fifo.calls [] list).1.length ∧
      (∀ address, memory address ≠ none ↔ address ∈ (Fifo.calls [] list).1.map Prod.fst) ∧
      ∃ queue', queue.clear memory = some (Memory.empty,queue') := by
  obtain ⟨memory,queue,ran,ends⟩ := calls_refine Represents.init list
  obtain ⟨queue',cleared,-⟩ := ends.clear
  exact ⟨memory,queue,ran,ends.count,ends.held_iff,queue',cleared⟩

end HmclPe.Boat
