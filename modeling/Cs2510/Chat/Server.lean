import Cs2510.Lib.TransitionSystem
import Cs2510.Chat.MessageNet
import Mathlib.Logic.Function.Basic

/-!
# The chat server (`a1/server.c`)

The state is the log, the send queue, the client hash, the descriptor table of the process, the
program point of the sender and of every listener, and, as history, what has been written to
every connection. A listener is named by its connection: the one thread that `main` starts for an
accepted descriptor and that closes it.

An event is one thread's next action between two accesses to shared data. The critical sections
of `clients_lock` that touch one entry are single events; the delivery pass of the sender and the
catch-up of a listener, which hold their lock over many sends, are several, so the two interleave
with each other wherever the locks allow it. A pass holds `clients_lock` while the sender is in
`visit` or `fanOut`; `log_readers` are the listeners inside the read section of `log->lock`.

Undefined behaviour ends the run: the server is `crashed`.
-/

namespace Cs2510.Chat

/-- A file descriptor. -/
abbrev Fd := Nat

/-- A listener thread and its connection. -/
abbrev Tid := Nat

/-- `struct client`; `last_read` is a position in the log, `none` for NULL. -/
structure Client where
  sockfds : List Fd
  last_read : Option Nat
  deriving DecidableEq, Repr

/-- The next action of a listener. -/
inductive ListenerPc
  | unborn
  | handshake
  | lookup
  /-- about to send the refusal; `false` when the handshake message is NULL -/
  | refuse (received : Bool)
  | refused (received : Bool)
  | reply
  | announce
  | fastForward
  /-- in the loop of `fast_forward`, holding `log->lock` -/
  | catchUp (cursor : Option Nat)
  | register
  | receive
  | payload (m : Message)
  | out
  | closing
  | finished
  deriving DecidableEq, Repr

structure Listener where
  pc : ListenerPc
  fd : Fd
  client_id : UInt16
  deriving DecidableEq, Repr

/-- The next action of the sender; `last_node` is a position in the log. -/
inductive SenderPc
  | dequeue
  | append (m : Message)
  | lockClients (m : Message) (last_node : Nat)
  /-- at the head of the outer loop, with the clients still to visit -/
  | visit (m : Message) (last_node : Nat) (rest : List UInt16)
  /-- in the inner loop for client `c`, with the descriptors still to send to -/
  | fanOut (m : Message) (last_node : Nat) (c : UInt16) (rest : List UInt16) (fds : List Fd)
  deriving DecidableEq, Repr

/-- What a frame written to a connection carries. -/
inductive Frame
  /-- a message of the server itself (id 0) -/
  | reply (kind : UInt16)
  /-- the log entry at a position -/
  | entry (pos : Nat)
  deriving DecidableEq, Repr

/-- A `send_message` on a connection, and whether it returned 0. -/
structure Sent where
  frame : Frame
  ok : Bool
  deriving DecidableEq, Repr

structure Server where
  log : List Message
  log_readers : List Tid
  sendqueue : List Message
  sender : SenderPc
  /-- the ids in the order of the hash's list -/
  clients : List UInt16
  client : UInt16 → Client
  /-- the connection an open descriptor stands for -/
  socket : Fd → Option Tid
  listener : Tid → Listener
  /-- history: what was sent on a connection -/
  wire : Tid → List Sent
  crashed : Bool

/-- The next action of a thread. An event carries the thread's locals it uses, and what the
environment answers: the message a `recv` made up, or whether a `send_message` succeeded. -/
inductive Event
  | accept (t : Tid) (fd : Fd)
  | handshake (t : Tid) (m : Option Message)
  | client_hash_get (t : Tid)
  | refuse (t : Tid) (received ok : Bool)
  | free_message (t : Tid) (received : Bool)
  | reply (t : Tid) (ok : Bool)
  | announce (t : Tid)
  | fast_forward (t : Tid)
  | catchUp (t : Tid) (cursor : Nat) (m : Message) (ok : Bool)
  | storeMark (t : Tid)
  | client_hash_add_connection (t : Tid)
  | recv_header (t : Tid) (m : Option Message)
  | recv_payload (t : Tid) (m : Message) (r : Option Message)
  | client_hash_remove_connection (t : Tid)
  | close (t : Tid)
  | jobqueue_dequeue (m : Message) (rest : List Message)
  | message_log_append (m : Message)
  | lockClients (m : Message) (last_node : Nat)
  | visit (m : Message) (last_node : Nat) (c : UInt16) (rest : List UInt16)
  | send (m : Message) (last_node : Nat) (c : UInt16) (rest : List UInt16) (fd : Fd) (fds : List Fd)
      (ok : Bool)
  | mark (m : Message) (last_node : Nat) (c : UInt16) (rest : List UInt16)
  | unlockClients (m : Message) (last_node : Nat)
  deriving DecidableEq, Repr

/-- Whether the sender holds `clients_lock`. -/
def SenderPc.holdsClientsLock : SenderPc → Bool
  | .visit .. | .fanOut .. => true
  | _ => false

/-- What `recv_payload` can have made of the header `m`. -/
def Message.ReceivedAs (m m' : Message) : Prop :=
  m'.id = m.id ∧ m'.kind = m.kind ∧ m'.length = clip m.length ∧
    m'.payload.map List.length = some m'.length.toNat

instance (m m' : Message) : Decidable (m.ReceivedAs m') := inferInstanceAs (Decidable (_ ∧ _))

namespace Server

/-! ## Elementary updates -/

def goto (s : Server) (t : Tid) (pc : ListenerPc) : Server :=
  { s with listener := Function.update s.listener t { s.listener t with pc } }

/-- `send_message` on a descriptor: it reaches the connection the descriptor stands for. -/
def transmit (s : Server) (fd : Fd) (frame : Frame) (ok : Bool) : Server :=
  match s.socket fd with
  | none => s
  | some t => { s with wire := Function.update s.wire t (s.wire t ++ [⟨frame, ok⟩]) }

def jobqueue_enqueue (s : Server) (m : Message) : Server :=
  { s with sendqueue := s.sendqueue ++ [m] }

def setMark (s : Server) (c : UInt16) (node : Option Nat) : Server :=
  { s with client := Function.update s.client c { s.client c with last_read := node } }

def setFds (s : Server) (c : UInt16) (fds : List Fd) : Server :=
  { s with client := Function.update s.client c { s.client c with sockfds := fds } }

def unlockLog (s : Server) (t : Tid) : Server :=
  { s with log_readers := s.log_readers.erase t }

def crash (s : Server) : Server := { s with crashed := true }

/-- `log->list->tail` -/
def tail (s : Server) : Option Nat :=
  if s.log.length = 0 then none else some (s.log.length - 1)

/-- `node->next` -/
def nextNode (s : Server) (i : Nat) : Option Nat :=
  if i + 1 < s.log.length then some (i + 1) else none

/-- `cursor = (c->last_read == NULL) ? log->list->head : c->last_read` -/
def firstUnread (s : Server) (c : UInt16) : Option Nat :=
  match (s.client c).last_read with
  | none => if s.log.length = 0 then none else some 0
  | some p => some p

/-! ## The server at start-up -/

/-- `client_hash_add_client`: an id is added once, at the end of the hash's list. -/
def client_hash_add_client (clients : List UInt16) (id : UInt16) : List UInt16 :=
  if id ∈ clients then clients else clients ++ [id]

def init (client_ids : List UInt16) : Server where
  log := []
  log_readers := []
  sendqueue := []
  sender := .dequeue
  clients := client_ids.foldl client_hash_add_client []
  client := fun _ => ⟨[], none⟩
  socket := fun _ => none
  listener := fun _ => ⟨.unborn, 0, 0⟩
  wire := fun _ => []
  crashed := false

/-! ## Events -/

/-- When a thread can take an action: it stands there, its locks are free, and a transfer succeeds
only on an open descriptor. -/
def enabled (s : Server) : Event → Prop
  | .accept t fd => (s.listener t).pc = .unborn ∧ s.socket fd = none
  | .handshake t m => (s.listener t).pc = .handshake ∧ m.bind (·.payload) = none
  | .client_hash_get t => (s.listener t).pc = .lookup ∧ s.sender.holdsClientsLock = false
  | .refuse t received ok =>
    (s.listener t).pc = .refuse received ∧ (ok → (s.socket (s.listener t).fd).isSome)
  | .free_message t received => (s.listener t).pc = .refused received
  | .reply t ok => (s.listener t).pc = .reply ∧ (ok → (s.socket (s.listener t).fd).isSome)
  | .announce t => (s.listener t).pc = .announce
  | .fast_forward t => (s.listener t).pc = .fastForward
  | .catchUp t cursor m ok =>
    (s.listener t).pc = .catchUp (some cursor) ∧ s.log[cursor]? = some m ∧
      (ok → (s.socket (s.listener t).fd).isSome)
  | .storeMark t => (s.listener t).pc = .catchUp none
  | .client_hash_add_connection t =>
    (s.listener t).pc = .register ∧ s.sender.holdsClientsLock = false
  | .recv_header t m => (s.listener t).pc = .receive ∧ m.bind (·.payload) = none
  | .recv_payload t m r => (s.listener t).pc = .payload m ∧ ∀ m' ∈ r, m.ReceivedAs m'
  | .client_hash_remove_connection t =>
    (s.listener t).pc = .out ∧ s.sender.holdsClientsLock = false
  | .close t => (s.listener t).pc = .closing
  | .jobqueue_dequeue m rest => s.sender = .dequeue ∧ s.sendqueue = m :: rest
  | .message_log_append m => s.sender = .append m ∧ s.log_readers = []
  | .lockClients m last_node => s.sender = .lockClients m last_node
  | .visit m last_node c rest => s.sender = .visit m last_node (c :: rest)
  | .send m last_node c rest fd fds ok =>
    s.sender = .fanOut m last_node c rest (fd :: fds) ∧ (ok → (s.socket fd).isSome)
  | .mark m last_node c rest => s.sender = .fanOut m last_node c rest []
  | .unlockClients m last_node => s.sender = .visit m last_node []

/-- The effect of an action. -/
def next (s : Server) : Event → Server
  | .accept t fd =>
    { s with
      listener := Function.update s.listener t { s.listener t with pc := .handshake, fd }
      socket := Function.update s.socket fd (some t) }
  | .handshake t none => s.goto t (.refuse false)
  | .handshake t (some m) =>
    if m.kind ≠ MESG_CONN ∨ m.id = 0 then s.goto t (.refuse true)
    else
      { s with
        listener := Function.update s.listener t
          { s.listener t with pc := .lookup, client_id := m.id } }
  | .client_hash_get t =>
    if (s.listener t).client_id ∈ s.clients then s.goto t .reply else s.goto t (.refuse true)
  | .refuse t received ok =>
    (s.transmit (s.listener t).fd (.reply MESG_DCON) ok).goto t (.refused received)
  -- `free_message(NULL)` reads through the pointer
  | .free_message t received => if received then s.goto t .closing else s.crash
  | .reply t ok => (s.transmit (s.listener t).fd (.reply MESG_CONN) ok).goto t .announce
  | .announce t =>
    (s.jobqueue_enqueue (create_message_header 0 (s.listener t).client_id MESG_CONN)).goto t
      .fastForward
  | .fast_forward t =>
    { s with
      log_readers := t :: s.log_readers
      listener := Function.update s.listener t
        { s.listener t with pc := .catchUp (s.firstUnread (s.listener t).client_id) } }
  | .catchUp t cursor m ok =>
    if m.id = (s.listener t).client_id then s.goto t (.catchUp (s.nextNode cursor))
    else if ¬ m.Marshals then s.crash
    else if ok then
      (s.transmit (s.listener t).fd (.entry cursor) true).goto t (.catchUp (s.nextNode cursor))
    else ((s.transmit (s.listener t).fd (.entry cursor) false).unlockLog t).goto t .register
  | .storeMark t => ((s.setMark (s.listener t).client_id s.tail).unlockLog t).goto t .register
  | .client_hash_add_connection t =>
    let c := (s.listener t).client_id
    (s.setFds c ((s.client c).sockfds ++ [(s.listener t).fd])).goto t .receive
  -- `m->kind` of a NULL message
  | .recv_header _ none => s.crash
  | .recv_header t (some m) =>
    if m.kind = MESG_DCON then (s.jobqueue_enqueue m).goto t .out
    else if m.kind = MESG_CONN then s
    else s.goto t (.payload m)
  | .recv_payload t _ none => s.goto t .out
  | .recv_payload t m (some m') =>
    -- `m->payload[m->length - 1]` of an empty payload
    if m.length = 0 then s.crash else (s.jobqueue_enqueue m').goto t .receive
  | .client_hash_remove_connection t =>
    let c := (s.listener t).client_id
    (s.setFds c ((s.client c).sockfds.erase (s.listener t).fd)).goto t .closing
  | .close t =>
    { s.goto t .finished with socket := Function.update s.socket (s.listener t).fd none }
  | .jobqueue_dequeue m rest => { s with sendqueue := rest, sender := .append m }
  | .message_log_append m => { s with log := s.log ++ [m], sender := .lockClients m s.log.length }
  | .lockClients m last_node => { s with sender := .visit m last_node s.clients }
  | .visit m last_node c rest =>
    if (s.client c).sockfds = [] then { s with sender := .visit m last_node rest }
    else if c ≠ m.id then { s with sender := .fanOut m last_node c rest (s.client c).sockfds }
    else { s.setMark c (some last_node) with sender := .visit m last_node rest }
  | .send m last_node c rest fd fds ok =>
    if ¬ m.Marshals then s.crash
    else { s.transmit fd (.entry last_node) ok with sender := .fanOut m last_node c rest fds }
  | .mark m last_node c rest =>
    { s.setMark c (some last_node) with sender := .visit m last_node rest }
  | .unlockClients _ _ => { s with sender := .dequeue }

instance (s : Server) (e : Event) : Decidable (s.enabled e) :=
  match e with
  | .accept .. | .handshake .. | .client_hash_get .. | .refuse .. | .reply .. | .catchUp ..
  | .client_hash_add_connection .. | .recv_header .. | .recv_payload ..
  | .client_hash_remove_connection .. | .jobqueue_dequeue .. | .message_log_append .. | .send .. =>
    inferInstanceAs (Decidable (_ ∧ _))
  | .free_message .. | .announce .. | .fast_forward .. | .storeMark .. | .close ..
  | .lockClients .. | .visit .. | .mark .. | .unlockClients .. =>
    inferInstanceAs (Decidable (_ = _))

end Server

/-- The server started with the given client ids. -/
def server (client_ids : List UInt16) : TransitionSystem Server Event where
  init := .init client_ids
  enabled s e := s.crashed = false ∧ s.enabled e
  next := Server.next

instance (client_ids : List UInt16) (s : Server) (e : Event) :
    Decidable ((server client_ids).enabled s e) :=
  inferInstanceAs (Decidable (_ ∧ _))

end Cs2510.Chat
