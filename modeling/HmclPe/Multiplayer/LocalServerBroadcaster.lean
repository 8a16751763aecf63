import HmclPe.Lib.Runs
import HmclPe.Lib.Shares
import Mathlib.Logic.Function.Basic
import Mathlib.Logic.Relation

/-! The launcher between a game server and the local clients that join it: one connection to the
server that all clients share, two threads for each client. -/
namespace HmclPe.Multiplayer
open Lib.Runs Lib.Shares Relation

abbrev Byte := BitVec 8

/-- A socket and all that went over it. The peer has sent what is in `sent`, of which `unread` was
not read yet, and was given what is in `received`. -/
structure Socket where
  sent : List Byte
  unread : List Byte
  ended : Bool
  received : List Byte
  isClosed : Bool

def Socket.fresh : Socket := ⟨[],[],false,[],false⟩

def Socket.close (socket : Socket) : Socket := { socket with isClosed := true }

/-- The peer sends. -/
def Socket.send (socket : Socket) (bytes : List Byte) : Socket :=
  { socket with sent := socket.sent ++ bytes, unread := socket.unread ++ bytes }

/-- A thread in `forwardTraffic`. At its end it may have lost a chunk that it could not write. -/
inductive Thread
  | starting
  | opening
  | reading
  | writing (buf : List Byte)
  | ending (lost : List Byte)
  | closing (lost : List Byte)
  | done (lost : List Byte)

namespace Thread

def held : Option Thread → List Byte
  | some (.writing buf) => buf
  | some (.ending lost) | some (.closing lost) | some (.done lost) => lost
  | _ => []

def isDone : Option Thread → Bool
  | some (.done _) => true
  | _ => false

/-- With its source as the last to close. -/
def isClosing : Option Thread → Bool
  | some (.closing _) => true
  | _ => false

end Thread

inductive Traffic
  | none
  | read (chunk : List Byte)
  | write (chunk : List Byte)

namespace Traffic

def wasRead : Traffic → List Byte
  | .read chunk => chunk
  | _ => []

def wasWritten : Traffic → List Byte
  | .write chunk => chunk
  | _ => []

end Traffic

/-- What a thread of `forwardTraffic` does next with its two sockets. Closing one of the streams
closes its socket, the output's first, and the network may fail at any time. -/
inductive ForwardTraffic (src dest : Socket) : Thread → Traffic → Socket → Socket → Thread → Prop
  | input (input : src.isClosed = false) :
      ForwardTraffic src dest .starting .none src dest .opening
  | noInput (input : src.isClosed = true) :
      ForwardTraffic src dest .starting .none src dest (.done [])
  | output (output : dest.isClosed = false) :
      ForwardTraffic src dest .opening .none src dest .reading
  | noOutput (output : dest.isClosed = true) :
      ForwardTraffic src dest .opening .none src dest (.closing [])
  | read (chunk rest : List Byte) (input : src.isClosed = false)
      (unread : src.unread = chunk ++ rest) (something : chunk ≠ [])
      (fits : chunk.length ≤ 1024) :
      ForwardTraffic src dest .reading (.read chunk) { src with unread := rest } dest
        (.writing chunk)
  | atEnd (input : src.isClosed = false) (nothing : src.unread = []) (ended : src.ended = true) :
      ForwardTraffic src dest .reading .none src dest (.ending [])
  | readFails : ForwardTraffic src dest .reading .none src dest (.ending [])
  | write (buf : List Byte) (output : dest.isClosed = false) :
      ForwardTraffic src dest (.writing buf) (.write buf) src
        { dest with received := dest.received ++ buf } .reading
  | writeFails (buf : List Byte) :
      ForwardTraffic src dest (.writing buf) .none src dest (.ending buf)
  | closeOutput (lost : List Byte) :
      ForwardTraffic src dest (.ending lost) .none src dest.close (.closing lost)
  | closeInput (lost : List Byte) :
      ForwardTraffic src dest (.closing lost) .none src.close dest (.done lost)

/-- Where the thread `ForwardPort` is. -/
inductive ForwardPort
  | checking
  | accepting
  | over
  deriving DecidableEq

structure LocalServerBroadcaster (ι : Type) where
  running : Bool
  forwardPort : ForwardPort
  forwardingSocket : Socket
  forwardedSocket : ι → Socket
  toClient : ι → Option Thread
  toServer : ι → Option Thread
  readLog : List (ι × List Byte)
  writeLog : List (ι × List Byte)

variable {ι : Type} [DecidableEq ι]

namespace LocalServerBroadcaster

/-- The server is connected and the port is bound. -/
def start : LocalServerBroadcaster ι :=
  ⟨true,.checking,Socket.fresh,fun _ => Socket.fresh,fun _ => none,fun _ => none,[],[]⟩

inductive Step (s : LocalServerBroadcaster ι) : LocalServerBroadcaster ι → Prop
  | serverSends (bytes : List Byte) (open_ : s.forwardingSocket.ended = false) :
      Step s { s with forwardingSocket := s.forwardingSocket.send bytes }
  | serverEnds : Step s { s with forwardingSocket := { s.forwardingSocket with ended := true } }
  | clientSends (client : ι) (bytes : List Byte)
      (open_ : (s.forwardedSocket client).ended = false) :
      Step s { s with
        forwardedSocket := Function.update s.forwardedSocket client
          ((s.forwardedSocket client).send bytes) }
  | clientEnds (client : ι) :
      Step s { s with
        forwardedSocket := Function.update s.forwardedSocket client
          { s.forwardedSocket client with ended := true } }
  | close : Step s { s with running := false }
  | goOn (here : s.forwardPort = .checking) (running : s.running = true) :
      Step s { s with forwardPort := .accepting }
  | leave (here : s.forwardPort = .checking) (stopped : s.running = false) :
      Step s { s with forwardPort := .over, forwardingSocket := s.forwardingSocket.close }
  | accept (client : ι) (here : s.forwardPort = .accepting) (new : s.toClient client = none) :
      Step s { s with
        forwardPort := .checking
        toClient := Function.update s.toClient client (some .starting)
        toServer := Function.update s.toServer client (some .starting) }
  | acceptFails (here : s.forwardPort = .accepting) :
      Step s { s with
        running := false, forwardPort := .over, forwardingSocket := s.forwardingSocket.close }
  | forwardToClient (client : ι) (thread thread' : Thread) (traffic : Traffic)
      (forwarding forwarded : Socket) (here : s.toClient client = some thread)
      (forwards : ForwardTraffic s.forwardingSocket (s.forwardedSocket client) thread traffic
        forwarding forwarded thread') :
      Step s { s with
        forwardingSocket := forwarding
        forwardedSocket := Function.update s.forwardedSocket client forwarded
        toClient := Function.update s.toClient client (some thread')
        readLog := s.readLog ++ [(client,traffic.wasRead)] }
  | forwardToServer (client : ι) (thread thread' : Thread) (traffic : Traffic)
      (forwarding forwarded : Socket) (here : s.toServer client = some thread)
      (forwards : ForwardTraffic (s.forwardedSocket client) s.forwardingSocket thread traffic
        forwarded forwarding thread') :
      Step s { s with
        forwardingSocket := forwarding
        forwardedSocket := Function.update s.forwardedSocket client forwarded
        toServer := Function.update s.toServer client (some thread')
        writeLog := s.writeLog ++ [(client,traffic.wasWritten)] }

end LocalServerBroadcaster

open LocalServerBroadcaster in
def broadcaster (ι : Type) [DecidableEq ι] : System (LocalServerBroadcaster ι) where
  Start s := s = start
  Step := Step

namespace ForwardTraffic

variable {src dest src' dest' : Socket} {thread thread' : Thread} {traffic : Traffic}

theorem source (forwards : ForwardTraffic src dest thread traffic src' dest' thread') :
    src'.sent = src.sent ∧ src'.received = src.received ∧
      src.unread = traffic.wasRead ++ src'.unread := by
  cases forwards with
  | read chunk rest input unread => exact ⟨rfl,rfl,unread⟩
  | _ => exact ⟨rfl,rfl,rfl⟩

theorem target (forwards : ForwardTraffic src dest thread traffic src' dest' thread') :
    dest'.sent = dest.sent ∧ dest'.unread = dest.unread ∧
      dest'.received = dest.received ++ traffic.wasWritten := by
  cases forwards with
  | write buf output => exact ⟨rfl,rfl,rfl⟩
  | _ => exact ⟨rfl,rfl,(List.append_nil _).symm⟩

/-- What a thread holds it has read and not written. -/
theorem holds (forwards : ForwardTraffic src dest thread traffic src' dest' thread') :
    Thread.held (some thread) ++ traffic.wasRead =
      traffic.wasWritten ++ Thread.held (some thread') := by
  cases forwards with
  | write buf output => rfl
  | writeFails buf | closeOutput buf | closeInput buf => exact List.append_nil buf
  | _ => rfl

/-- A thread closes its target before its source, unless it was closed already. -/
theorem closes (forwards : ForwardTraffic src dest thread traffic src' dest' thread') :
    (src.isClosed = true → src'.isClosed = true) ∧
    (dest.isClosed = true → dest'.isClosed = true) ∧
    (src'.isClosed = true → src.isClosed = true ∨ Thread.isClosing (some thread) = true) ∧
    (dest'.isClosed = true → dest.isClosed = true ∨ Thread.isClosing (some thread') = true) := by
  cases forwards <;> simp_all [Socket.close,Thread.isClosing]

theorem ends (forwards : ForwardTraffic src dest thread traffic src' dest' thread') :
    (Thread.isClosing (some thread) = true → src'.isClosed = true) ∧
    (Thread.isClosing (some thread') = true → dest'.isClosed = true) ∧
    (Thread.isDone (some thread') = true → src'.isClosed = true) ∧
    Thread.isDone (some thread) = false := by
  cases forwards <;> simp_all [Socket.close,Thread.isClosing,Thread.isDone]

theorem closed_source (forwards : ForwardTraffic src dest thread traffic src' dest' thread')
    (closed : src.isClosed = true) : src'.unread = src.unread := by
  cases forwards with
  | read chunk rest input => exact Bool.noConfusion (closed.symm.trans input)
  | _ => rfl

theorem closed_target (forwards : ForwardTraffic src dest thread traffic src' dest' thread')
    (closed : dest.isClosed = true) : dest'.received = dest.received := by
  cases forwards with
  | write buf output => exact Bool.noConfusion (closed.symm.trans output)
  | _ => rfl

end ForwardTraffic

namespace LocalServerBroadcaster

variable {s s' : LocalServerBroadcaster ι}

/-- The books of all bytes. -/
structure Booked (s : LocalServerBroadcaster ι) : Prop where
  fromServer : s.forwardingSocket.sent = whole s.readLog ++ s.forwardingSocket.unread
  client : ∀ client, (s.forwardedSocket client).received ++ Thread.held (s.toClient client) =
    share s.readLog client
  server : s.forwardingSocket.received = whole s.writeLog
  fromClient : ∀ client, (s.forwardedSocket client).sent = share s.writeLog client ++
    (Thread.held (s.toServer client) ++ (s.forwardedSocket client).unread)
  readers : ∀ entry ∈ s.readLog, s.toClient entry.1 ≠ none
  writers : ∀ entry ∈ s.writeLog, s.toServer entry.1 ≠ none
  pairs : ∀ client, s.toServer client = none ↔ s.toClient client = none

theorem Booked.start : Booked (start : LocalServerBroadcaster ι) where
  fromServer := rfl
  client := fun _ => rfl
  server := rfl
  fromClient := fun _ => rfl
  readers := by
    intro entry member
    exact absurd member List.not_mem_nil
  writers := by
    intro entry member
    exact absurd member List.not_mem_nil
  pairs := fun _ => Iff.rfl

section Known

variable {log : List (ι × List Byte)} {threads : ι → Option Thread}

/-- The clients of a log have threads, and one more thread takes none away. -/
theorem known_update (known : ∀ entry ∈ log, threads entry.1 ≠ none) (client : ι) (thread : Thread) :
    ∀ entry ∈ log, Function.update threads client (some thread) entry.1 ≠ none := by
  intro entry member absent
  rcases eq_or_ne entry.1 client with same | different
  · rw [same,Function.update_self] at absent
    exact Option.some_ne_none _ absent
  · rw [Function.update_of_ne different] at absent
    exact known entry member absent

theorem known_append (known : ∀ entry ∈ log, threads entry.1 ≠ none) (client : ι) (thread : Thread)
    (chunk : List Byte) : ∀ entry ∈ log ++ [(client,chunk)],
      Function.update threads client (some thread) entry.1 ≠ none := by
  intro entry member
  rcases List.mem_append.mp member with before | last
  · exact known_update known client thread entry before
  · rw [List.mem_singleton.mp last,Function.update_self]
    exact Option.some_ne_none _

end Known

theorem Booked.step (booked : Booked s) (steps : Step s s') : Booked s' := by
  obtain ⟨fromServer,client_,server,fromClient,readers,writers,pairs⟩ := booked
  cases steps with
  | serverSends bytes open_ =>
    refine ⟨?_,client_,server,fromClient,readers,writers,pairs⟩
    change s.forwardingSocket.sent ++ bytes = whole s.readLog ++ (s.forwardingSocket.unread ++ bytes)
    rw [fromServer,List.append_assoc]
  | serverEnds => exact ⟨fromServer,client_,server,fromClient,readers,writers,pairs⟩
  | clientSends client bytes open_ =>
    refine ⟨fromServer,?_,server,?_,readers,writers,pairs⟩
    · intro other
      dsimp only
      rcases eq_or_ne other client with rfl | different
      · rw [Function.update_self]
        exact client_ other
      · rw [Function.update_of_ne different]
        exact client_ other
    · intro other
      dsimp only
      rcases eq_or_ne other client with rfl | different
      · rw [Function.update_self]
        change (s.forwardedSocket other).sent ++ bytes = share s.writeLog other ++
          (Thread.held (s.toServer other) ++ ((s.forwardedSocket other).unread ++ bytes))
        rw [fromClient other,List.append_assoc,List.append_assoc]
      · rw [Function.update_of_ne different]
        exact fromClient other
  | clientEnds client =>
    refine ⟨fromServer,?_,server,?_,readers,writers,pairs⟩ <;> intro other <;> dsimp only <;>
      rcases eq_or_ne other client with rfl | different
    · rw [Function.update_self]
      exact client_ other
    · rw [Function.update_of_ne different]
      exact client_ other
    · rw [Function.update_self]
      exact fromClient other
    · rw [Function.update_of_ne different]
      exact fromClient other
  | close | goOn here running | leave here stopped | acceptFails here =>
    exact ⟨fromServer,client_,server,fromClient,readers,writers,pairs⟩
  | accept client here new =>
    have new_ := (pairs client).mpr new
    refine ⟨fromServer,?_,server,?_,known_update readers client _,known_update writers client _,?_⟩
    · intro other
      dsimp only
      rcases eq_or_ne other client with rfl | different
      · rw [Function.update_self,← client_ other,new]
        rfl
      · rw [Function.update_of_ne different]
        exact client_ other
    · intro other
      dsimp only
      rcases eq_or_ne other client with rfl | different
      · rw [Function.update_self,fromClient other,new_]
        rfl
      · rw [Function.update_of_ne different]
        exact fromClient other
    · intro other
      dsimp only
      rcases eq_or_ne other client with rfl | different
      · simp
      · rw [Function.update_of_ne different,Function.update_of_ne different]
        exact pairs other
  | forwardToClient client thread thread' traffic forwarding forwarded here forwards =>
    obtain ⟨sent,received,unread⟩ := forwards.source
    obtain ⟨sent_,unread_,received_⟩ := forwards.target
    have holds := forwards.holds
    rw [← here] at holds
    refine ⟨?_,?_,received.trans server,?_,known_append readers client _ _,writers,?_⟩
    · change forwarding.sent = whole (s.readLog ++ [(client,traffic.wasRead)]) ++ forwarding.unread
      rw [sent,fromServer,unread,whole_append,whole_single,List.append_assoc]
    · intro other
      dsimp only
      rw [share_append]
      rcases eq_or_ne other client with rfl | different
      · rw [Function.update_self,Function.update_self,received_,List.append_assoc,← holds,
          ← List.append_assoc,client_ other,share_single]
      · rw [Function.update_of_ne different,Function.update_of_ne different,
          share_other different,List.append_nil]
        exact client_ other
    · intro other
      dsimp only
      rcases eq_or_ne other client with rfl | different
      · rw [Function.update_self,sent_,unread_]
        exact fromClient other
      · rw [Function.update_of_ne different]
        exact fromClient other
    · intro other
      dsimp only
      rcases eq_or_ne other client with rfl | different
      · rw [Function.update_self,pairs other,here]
        simp
      · rw [Function.update_of_ne different]
        exact pairs other
  | forwardToServer client thread thread' traffic forwarding forwarded here forwards =>
    obtain ⟨sent,received,unread⟩ := forwards.source
    obtain ⟨sent_,unread_,received_⟩ := forwards.target
    have holds := forwards.holds
    rw [← here] at holds
    refine ⟨?_,?_,?_,?_,readers,known_append writers client _ _,?_⟩
    · change forwarding.sent = whole s.readLog ++ forwarding.unread
      rw [sent_,unread_,fromServer]
    · intro other
      dsimp only
      rcases eq_or_ne other client with rfl | different
      · rw [Function.update_self,received]
        exact client_ other
      · rw [Function.update_of_ne different]
        exact client_ other
    · change forwarding.received = whole (s.writeLog ++ [(client,traffic.wasWritten)])
      rw [received_,server,whole_append,whole_single]
    · intro other
      dsimp only
      rw [share_append]
      rcases eq_or_ne other client with rfl | different
      · rw [Function.update_self,Function.update_self,sent,fromClient other,unread,share_single,
          ← List.append_assoc (Thread.held (s.toServer other)),holds]
        simp only [List.append_assoc]
      · rw [Function.update_of_ne different,Function.update_of_ne different,
          share_other different,List.append_nil]
        exact fromClient other
    · intro other
      dsimp only
      rcases eq_or_ne other client with rfl | different
      · rw [Function.update_self,← pairs other,here]
        simp
      · rw [Function.update_of_ne different]
        exact pairs other

theorem booked_invariant (ι : Type) [DecidableEq ι] : (broadcaster ι).Invariant Booked where
  start := by
    rintro s rfl
    exact Booked.start
  step := by
    intro s s' _ booked steps
    exact booked.step steps

/-- In every run each byte of the server goes to one client, in order, and each byte of a client
to the server. What a client does not have its thread holds or no thread has read. -/
theorem traffic (reached : (broadcaster ι).Reachable s) :
    (∃ log : List (ι × List Byte),
      s.forwardingSocket.sent = whole log ++ s.forwardingSocket.unread ∧
      ∀ client, (s.forwardedSocket client).received ++ Thread.held (s.toClient client) =
        share log client) ∧
    (∃ log : List (ι × List Byte), s.forwardingSocket.received = whole log ∧
      ∀ client, (s.forwardedSocket client).sent = share log client ++
        (Thread.held (s.toServer client) ++ (s.forwardedSocket client).unread)) ∧
    (∀ clients : List ι, clients.Nodup → (∀ client, s.toClient client ≠ none → client ∈ clients) →
      ((clients.map fun client => (s.forwardedSocket client).received ++
        Thread.held (s.toClient client)).flatten ++ s.forwardingSocket.unread).Perm
          s.forwardingSocket.sent) ∧
    ∀ client, (∀ other, s.toClient other ≠ none → other = client) →
      s.forwardingSocket.sent = (s.forwardedSocket client).received ++
        Thread.held (s.toClient client) ++ s.forwardingSocket.unread ∧
      (s.forwardedSocket client).sent = s.forwardingSocket.received ++
        (Thread.held (s.toServer client) ++ (s.forwardedSocket client).unread) := by
  have booked := (booked_invariant ι).reachable reached
  refine ⟨⟨s.readLog,booked.fromServer,booked.client⟩,⟨s.writeLog,booked.server,booked.fromClient⟩,
    ?_,?_⟩
  · intro clients distinct all
    have shares : (clients.map fun client => (s.forwardedSocket client).received ++
        Thread.held (s.toClient client)) = clients.map (share s.readLog) := by
      apply List.map_congr_left
      intro client _
      exact booked.client client
    rw [shares,booked.fromServer]
    apply List.Perm.append_right
    exact whole_perm distinct fun entry member => all entry.1 (booked.readers entry member)
  · intro client alone
    have read : share s.readLog client = whole s.readLog :=
      share_alone fun entry member => alone entry.1 (booked.readers entry member)
    have written : share s.writeLog client = whole s.writeLog := by
      apply share_alone
      intro entry member
      apply alone entry.1
      intro absent
      exact booked.writers entry member ((booked.pairs entry.1).mpr absent)
    rw [booked.client client,read,booked.fromServer,booked.fromClient client,written,booked.server]
    exact ⟨rfl,rfl⟩

/-! ### The end of the session -/

/-- The connection to the server is closed, or the thread to this client closes it next. -/
def Cut (s : LocalServerBroadcaster ι) (client : ι) : Prop :=
  s.forwardingSocket.isClosed = true ∨ Thread.isClosing (s.toClient client) = true

/-- A socket of a client is closed and a thread has ended only when the connection is cut. -/
structure Tied (s : LocalServerBroadcaster ι) : Prop where
  clients : ∀ client, (s.forwardedSocket client).isClosed = true → Cut s client
  toClient : ∀ client, Thread.isDone (s.toClient client) = true →
    s.forwardingSocket.isClosed = true
  closing : ∀ client, Thread.isClosing (s.toServer client) = true →
    s.forwardingSocket.isClosed = true
  toServer : ∀ client, Thread.isDone (s.toServer client) = true → Cut s client

/-- A thread to a client has the connection as its source. -/
theorem Cut.toClient {client other : ι} {thread thread' : Thread} {traffic : Traffic}
    {forwarding forwarded : Socket} (cut : Cut s other) (here : s.toClient client = some thread)
    (forwards : ForwardTraffic s.forwardingSocket (s.forwardedSocket client) thread traffic
      forwarding forwarded thread') :
    forwarding.isClosed = true ∨
      Thread.isClosing (Function.update s.toClient client (some thread') other) = true := by
  rcases cut with closed | closing
  · exact Or.inl (forwards.closes.1 closed)
  · rcases eq_or_ne other client with rfl | different
    · rw [here] at closing
      exact Or.inl (forwards.ends.1 closing)
    · rw [Function.update_of_ne different]
      exact Or.inr closing

theorem Tied.step (tied : Tied s) (steps : Step s s') : Tied s' := by
  obtain ⟨clients,toClient,closing_,toServer⟩ := tied
  cases steps with
  | serverSends bytes open_ => exact ⟨clients,toClient,closing_,toServer⟩
  | serverEnds => exact ⟨clients,toClient,closing_,toServer⟩
  | close => exact ⟨clients,toClient,closing_,toServer⟩
  | goOn here running => exact ⟨clients,toClient,closing_,toServer⟩
  | clientSends client bytes open_ | clientEnds client =>
    refine ⟨?_,toClient,closing_,toServer⟩
    intro other closed
    dsimp only at closed
    rcases eq_or_ne other client with rfl | different
    · rw [Function.update_self] at closed
      exact clients other closed
    · rw [Function.update_of_ne different] at closed
      exact clients other closed
  | leave here stopped | acceptFails here =>
    exact ⟨fun _ _ => Or.inl rfl,fun _ _ => rfl,fun _ _ => rfl,fun _ _ => Or.inl rfl⟩
  | accept client here new =>
    have cut {other : ι} (before : Cut s other) : s.forwardingSocket.isClosed = true ∨
        Thread.isClosing (Function.update s.toClient client (some .starting) other) = true := by
      rcases before with closed | closing
      · exact Or.inl closed
      · rcases eq_or_ne other client with rfl | different
        · rw [new] at closing
          exact Bool.noConfusion closing
        · rw [Function.update_of_ne different]
          exact Or.inr closing
    refine ⟨fun other closed => cut (clients other closed),?_,?_,?_⟩ <;> intro other done <;>
      dsimp only at done <;> rcases eq_or_ne other client with rfl | different
    · rw [Function.update_self] at done
      exact Bool.noConfusion done
    · rw [Function.update_of_ne different] at done
      exact toClient other done
    · rw [Function.update_self] at done
      exact Bool.noConfusion done
    · rw [Function.update_of_ne different] at done
      exact closing_ other done
    · rw [Function.update_self] at done
      exact Bool.noConfusion done
    · rw [Function.update_of_ne different] at done
      exact cut (toServer other done)
  | forwardToClient client thread thread' traffic forwarding forwarded here forwards =>
    obtain ⟨stays,-,-,both⟩ := forwards.closes
    refine ⟨?_,?_,fun other closing => stays (closing_ other closing),
      fun other done => (toServer other done).toClient here forwards⟩
    · intro other closed
      dsimp only at closed
      rcases eq_or_ne other client with rfl | different
      · rw [Function.update_self] at closed
        rcases both closed with before | after
        · exact (clients other before).toClient here forwards
        · refine Or.inr ?_
          dsimp only
          rw [Function.update_self]
          exact after
      · rw [Function.update_of_ne different] at closed
        exact (clients other closed).toClient here forwards
    · intro other done
      dsimp only at done
      rcases eq_or_ne other client with rfl | different
      · rw [Function.update_self] at done
        exact forwards.ends.2.2.1 done
      · rw [Function.update_of_ne different] at done
        exact stays (toClient other done)
  | forwardToServer client thread thread' traffic forwarding forwarded here forwards =>
    obtain ⟨-,stays,both,-⟩ := forwards.closes
    have cut {other : ι} (before : Cut s other) : forwarding.isClosed = true ∨
        Thread.isClosing (s.toClient other) = true := before.imp_left stays
    have closes : forwarded.isClosed = true → forwarding.isClosed = true ∨
        Thread.isClosing (s.toClient client) = true := by
      intro closed
      rcases both closed with before | closing
      · exact cut (clients client before)
      · rw [← here] at closing
        exact Or.inl (stays (closing_ client closing))
    refine ⟨?_,fun other done => stays (toClient other done),?_,?_⟩
    · intro other closed
      dsimp only at closed
      rcases eq_or_ne other client with rfl | different
      · rw [Function.update_self] at closed
        exact closes closed
      · rw [Function.update_of_ne different] at closed
        exact cut (clients other closed)
    · intro other closing
      dsimp only at closing
      rcases eq_or_ne other client with rfl | different
      · rw [Function.update_self] at closing
        exact forwards.ends.2.1 closing
      · rw [Function.update_of_ne different] at closing
        exact stays (closing_ other closing)
    · intro other done
      dsimp only at done
      rcases eq_or_ne other client with rfl | different
      · rw [Function.update_self] at done
        exact closes (forwards.ends.2.2.1 done)
      · rw [Function.update_of_ne different] at done
        exact cut (toServer other done)

theorem tied_invariant (ι : Type) [DecidableEq ι] : (broadcaster ι).Invariant Tied where
  start := by
    rintro s rfl
    exact ⟨fun _ => Or.inl,fun _ done => done,fun _ closing => closing,fun _ => Or.inl⟩
  step := by
    intro s s' _ tied steps
    exact tied.step steps

/-- Over a closed socket nothing goes, what the server still sends stays unread. -/
def Silent (s s' : LocalServerBroadcaster ι) : Prop :=
  s'.forwardingSocket.isClosed = true ∧
    s'.forwardingSocket.received = s.forwardingSocket.received ∧
    ∃ more, s'.forwardingSocket.sent = s.forwardingSocket.sent ++ more ∧
      s'.forwardingSocket.unread = s.forwardingSocket.unread ++ more

theorem Step.silent (steps : Step s s') (closed : s.forwardingSocket.isClosed = true) :
    Silent s s' := by
  have same : ∀ socket : Socket, socket.isClosed = true →
      socket.received = s.forwardingSocket.received → socket.sent = s.forwardingSocket.sent →
      socket.unread = s.forwardingSocket.unread → socket.isClosed = true ∧
        socket.received = s.forwardingSocket.received ∧
        ∃ more, socket.sent = s.forwardingSocket.sent ++ more ∧
          socket.unread = s.forwardingSocket.unread ++ more := by
    intro socket closed received sent unread
    exact ⟨closed,received,[],by rw [sent,List.append_nil],by rw [unread,List.append_nil]⟩
  cases steps with
  | serverSends bytes open_ => exact ⟨closed,rfl,bytes,rfl,rfl⟩
  | leave here stopped | acceptFails here => exact same _ rfl rfl rfl rfl
  | serverEnds => exact same _ closed rfl rfl rfl
  | clientSends client bytes open_ | clientEnds client | close | goOn here running
  | accept client here new => exact same _ closed rfl rfl rfl
  | forwardToClient client thread thread' traffic forwarding forwarded here forwards =>
    obtain ⟨stays,-⟩ := forwards.closes
    obtain ⟨sent,received,-⟩ := forwards.source
    exact same _ (stays closed) received sent (forwards.closed_source closed)
  | forwardToServer client thread thread' traffic forwarding forwarded here forwards =>
    obtain ⟨-,stays,-⟩ := forwards.closes
    obtain ⟨sent,unread,-⟩ := forwards.target
    exact same _ (stays closed) (forwards.closed_target closed) sent unread

theorem Silent.run (closed : s.forwardingSocket.isClosed = true) (run : ReflTransGen Step s s') :
    Silent s s' := by
  induction run with
  | refl => exact ⟨closed,rfl,[],(List.append_nil _).symm,(List.append_nil _).symm⟩
  | tail _ last ih =>
    obtain ⟨closed,received,more,sent,unread⟩ := ih
    obtain ⟨closed,received_,more_,sent_,unread_⟩ := last.silent closed
    refine ⟨closed,received_.trans received,more ++ more_,?_,?_⟩
    · rw [sent_,sent,List.append_assoc]
    · rw [unread_,unread,List.append_assoc]

/-- A thread that has closed its client has only the connection left to close. -/
theorem Step.closing (steps : Step s s') {client : ι}
    (closing : Thread.isClosing (s.toClient client) = true)
    (goes : s'.toClient client ≠ s.toClient client) : s'.forwardingSocket.isClosed = true := by
  cases steps with
  | accept other here new =>
    rcases eq_or_ne client other with rfl | different
    · rw [new] at closing
      exact Bool.noConfusion closing
    · exact absurd (Function.update_of_ne different ..) goes
  | forwardToClient other thread thread' traffic forwarding forwarded here forwards =>
    rcases eq_or_ne client other with rfl | different
    · rw [here] at closing
      exact forwards.ends.1 closing
    · exact absurd (Function.update_of_ne different ..) goes
  | _ => exact absurd rfl goes

/-- Once a thread has ended, as it does when one client leaves, the connection to the server is
closed for all clients, or is the next that the thread to this client closes: from then on nothing
more comes from the server or goes there. -/
theorem ends_for_all (reached : (broadcaster ι).Reachable s) {client : ι}
    (done : Thread.isDone (s.toClient client) = true ∨
      Thread.isDone (s.toServer client) = true) :
    (s.forwardingSocket.isClosed = true ∨ Thread.isClosing (s.toClient client) = true ∧
      ∀ s', Step s s' → s'.toClient client ≠ s.toClient client →
        s'.forwardingSocket.isClosed = true) ∧
    ∀ s' s'', ReflTransGen Step s s' → s'.forwardingSocket.isClosed = true →
      ReflTransGen Step s' s'' → s''.forwardingSocket.isClosed = true ∧
        s''.forwardingSocket.received = s'.forwardingSocket.received ∧
        ∃ more, s''.forwardingSocket.sent = s'.forwardingSocket.sent ++ more ∧
          s''.forwardingSocket.unread = s'.forwardingSocket.unread ++ more := by
  have tied := (tied_invariant ι).reachable reached
  have cut : Cut s client := by
    rcases done with done | done
    · exact Or.inl (tied.toClient client done)
    · exact tied.toServer client done
  constructor
  · rcases cut with closed | closing
    · exact Or.inl closed
    · exact Or.inr ⟨closing,fun _ steps goes => steps.closing closing goes⟩
  · intro s' s'' _ closed run
    exact Silent.run closed run

/-- Two clients, the second reads what the server sent and the first leaves. -/
theorem traffic_shared : ∃ s : LocalServerBroadcaster Bool, (broadcaster Bool).Reachable s ∧
    s.forwardingSocket.sent = [1,2] ∧ (s.forwardedSocket true).received = [1] ∧
    (∃ log : List (Bool × List Byte),
      s.forwardingSocket.sent = whole log ++ s.forwardingSocket.unread ∧
      ∀ client, (s.forwardedSocket client).received ++ Thread.held (s.toClient client) =
        share log client) := by
  have first : (broadcaster Bool).Reachable start := .start _ rfl
  have listening := first.step _ _ (.goOn rfl rfl)
  have joined := listening.step _ _ (.accept false rfl rfl)
  have again := joined.step _ _ (.goOn rfl rfl)
  have both := again.step _ _ (.accept true rfl rfl)
  have sent := both.step _ _ (.serverSends [1,2] rfl)
  have opening := sent.step _ _ (.forwardToClient true _ _ _ _ _ rfl (.input rfl))
  have started := opening.step _ _ (.forwardToClient true _ _ _ _ _ rfl (.output rfl))
  have read := started.step _ _ (.forwardToClient true _ _ _ _ _ rfl
    (.read [1] [2] rfl rfl (by decide) (by decide)))
  have written := read.step _ _ (.forwardToClient true _ _ _ _ _ rfl (.write _ rfl))
  exact ⟨_,written,rfl,rfl,(traffic written).1⟩

theorem ends_for_all_left : ∃ s : LocalServerBroadcaster Bool, (broadcaster Bool).Reachable s ∧
    s.toClient true = some .starting ∧ s.forwardingSocket.isClosed = true := by
  have first : (broadcaster Bool).Reachable start := .start _ rfl
  have listening := first.step _ _ (.goOn rfl rfl)
  have joined := listening.step _ _ (.accept false rfl rfl)
  have again := joined.step _ _ (.goOn rfl rfl)
  have both := again.step _ _ (.accept true rfl rfl)
  have ended := both.step _ _ (.clientEnds false)
  have opening := ended.step _ _ (.forwardToServer false _ _ _ _ _ rfl (.input rfl))
  have started := opening.step _ _ (.forwardToServer false _ _ _ _ _ rfl (.output rfl))
  have ending := started.step _ _ (.forwardToServer false _ _ _ _ _ rfl (.atEnd rfl rfl rfl))
  have closing := ending.step _ _ (.forwardToServer false _ _ _ _ _ rfl (.closeOutput []))
  have left := closing.step _ _ (.forwardToServer false _ _ _ _ _ rfl (.closeInput []))
  exact ⟨_,left,rfl,((@ends_for_all _ _ _ left false (Or.inr rfl)).2 _ _ .refl rfl .refl).1⟩

end LocalServerBroadcaster

end HmclPe.Multiplayer
