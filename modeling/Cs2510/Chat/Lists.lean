import Cs2510.Chat.ListenerStep
import Cs2510.Chat.LinkedList
import Cs2510.Chat.JobQueue
import Cs2510.Chat.NoDuplicate

/-!
# The lists of the server in memory

The log, the send queue and the connections of each client are linked lists on one heap, worked on
by the functions of `a1/linked_list.c` and `a1/jobqueue.c`, and threads keep pointers to their nodes
while other threads work on the lists: `last_read` in `struct client`, `cursor` in `fast_forward`,
`last_node` and `n` in `sender`. `lists_hold` says that the server runs on them as
`Cs2510.Chat.Server` has it, with plain lists and positions: no pointer dangles, no list gets hold
of a node of another, and what a thread reads at its pointer is what its next action is about.
-/

namespace Cs2510.Chat
open LinkedNodes

/-- What the `void *data` of a node is. -/
inductive Datum
  | message (m : Message)
  | fd (fd : Fd)
  deriving DecidableEq, Repr

/-- `(void *) 0` -/
def Datum.NULL : Datum := .fd 0

/-- The heap of the nodes, with the pointers to them. -/
structure Lists (ι : Type) where
  heap : Heap ι (Node ι Datum)
  log : Llist ι
  sendqueue : JobQueue ι
  sockfds : UInt16 → Llist ι
  last_read : UInt16 → Option ι
  /-- in `fast_forward` -/
  cursor : Tid → Option ι
  /-- in `sender` -/
  last_node : Option ι
  /-- in the inner loop of `sender` -/
  n : Option ι

/-- What an action learns from the lists: the data of a node, or whether a list or its rest is
empty. -/
inductive Seen
  | nothing
  | data (d : Datum)
  | test (empty : Bool)
  deriving DecidableEq, Repr

namespace Lists

variable {ι : Type}

def create (h : Heap ι (Node ι Datum)) : Lists ι where
  heap := h
  log := create_llist
  sendqueue := .create_jobqueue false
  sockfds := fun _ => create_llist
  last_read := fun _ => none
  cursor := fun _ => none
  last_node := none
  n := none

def setMark (l : Lists ι) (c : UInt16) (node : Option ι) : Lists ι :=
  { l with last_read := Function.update l.last_read c node }

variable [DecidableEq ι]

def jobqueue_enqueue (l : Lists ι) (node : ι) (m : Message) : Option (Lists ι × Seen) := do
  let (heap, sendqueue) ← JobQueue.jobqueue_enqueue
    (l.heap.put node (.live (JobQueue.create_node (.message m)))) l.sendqueue node
  return ({ l with heap, sendqueue }, .nothing)

/-- What an action does with the lists, and what it learns: `none` if it dereferences NULL or a node
that is not live. It comes with the node it may allocate, and how often a loop may test its cursor.
Of the server it uses the thread's own variables. -/
def act (l : Lists ι) (s : Server) (node : ι) (steps : Nat) : Event → Option (Lists ι × Seen)
  | .announce t =>
    l.jobqueue_enqueue node (create_message_header 0 (s.listener t).client_id MESG_CONN)
  | .fast_forward t =>
    let c := (s.listener t).client_id
    let cursor := if l.last_read c = none then l.log.head else l.last_read c
    some ({ l with cursor := Function.update l.cursor t cursor }, .nothing)
  | .catchUp t _ m ok => do
    let { next, data, .. } ← l.heap.load (l.cursor t)
    -- a `send_message` that fails, or does not return, leaves `cursor` where it is
    if m.id = (s.listener t).client_id ∨ m.Marshals ∧ ok then
      return ({ l with cursor := Function.update l.cursor t next }, .data data)
    else
      return (l, .data data)
  | .storeMark t =>
    some (l.setMark (s.listener t).client_id l.log.tail, .test (l.cursor t).isNone)
  | .client_hash_add_connection t => do
    let { client_id, fd, .. } := s.listener t
    let (heap, sockfds) ← llist_insert_tail l.heap (l.sockfds client_id) node (.fd fd)
    return ({ l with heap, sockfds := Function.update l.sockfds client_id sockfds }, .nothing)
  | .recv_header _ (some m) =>
    if m.kind = MESG_DCON then l.jobqueue_enqueue node m else some (l, .nothing)
  | .recv_payload _ m (some m') =>
    if m.length = 0 then some (l, .nothing) else l.jobqueue_enqueue node m'
  | .client_hash_remove_connection t => do
    let { client_id, fd, .. } := s.listener t
    let (heap, sockfds, _) ← llist_remove_value l.heap (l.sockfds client_id) .NULL steps (.fd fd)
    return ({ l with heap, sockfds := Function.update l.sockfds client_id sockfds }, .nothing)
  | .jobqueue_dequeue .. => do
    let (heap, sendqueue, data) ← JobQueue.jobqueue_dequeue l.heap l.sendqueue
    return ({ l with heap, sendqueue }, .data data)
  | .message_log_append m => do
    let (heap, log) ← llist_insert_tail l.heap l.log node (.message m)
    return ({ l with heap, log, last_node := log.tail }, .nothing)
  | .visit m _ c _ =>
    if llist_is_empty (l.sockfds c) then some (l, .test true)
    else if c ≠ m.id then some ({ l with n := (l.sockfds c).head }, .test false)
    else some (l.setMark c l.last_node, .test false)
  | .send m .. => do
    let { next, data, .. } ← l.heap.load l.n
    return (if m.Marshals then { l with n := next } else l, .data data)
  | .mark _ _ c _ => some (l.setMark c l.last_node, .test l.n.isNone)
  | _ => some (l, .nothing)

end Lists

/-- What an action should learn. -/
def Server.sees (s : Server) : Event → Seen
  | .jobqueue_dequeue m _ | .catchUp _ _ m _ => .data (.message m)
  | .send _ _ _ _ fd _ _ => .data (.fd fd)
  | .storeMark _ | .mark .. => .test true
  | .visit _ _ c _ => .test (decide ((s.client c).sockfds = []))
  | _ => .nothing

/-! ## The server on its lists -/

structure OnLists (ι : Type) where
  server : Server
  lists : Lists ι
  /-- an action has dereferenced NULL or a node that is not live -/
  faulted : Bool

structure ListEvent (ι : Type) where
  event : Event
  node : ι
  steps : Nat
  deriving DecidableEq

/-- Where the loop of `llist_remove_value` may have to go. -/
def Server.searched (s : Server) : Event → List Fd
  | .client_hash_remove_connection t => (s.client (s.listener t).client_id).sockfds
  | _ => []

variable {ι : Type}

def on_lists [DecidableEq ι] (client_ids : List UInt16) (h : Heap ι (Node ι Datum)) :
    TransitionSystem (OnLists ι) (ListEvent ι) where
  init := ⟨.init client_ids, .create h, false⟩
  enabled x e := (server client_ids).enabled x.server e.event ∧ x.lists.heap e.node = .unborn ∧
    (x.server.searched e.event).length < e.steps
  next x e :=
    match x.lists.act x.server e.node e.steps e.event with
    | some (lists, _) => { x with server := x.server.next e.event, lists }
    | none => { x with faulted := true }

/-! ## The lists as the heap has them -/

/-- The names of the lists. -/
inductive ListName
  | log
  | sendqueue
  | sockfds (client_id : UInt16)
  deriving DecidableEq

/-- What a list holds. -/
def Server.listed (s : Server) : ListName → List Datum
  | .log => s.log.map .message
  | .sendqueue => s.sendqueue.map .message
  | .sockfds c => (s.client c).sockfds.map .fd

/-- The node the sender keeps while it delivers a message. -/
def SenderPc.last_node : SenderPc → Option Nat
  | .dequeue | .append _ => none
  | .lockClients _ last_node | .visit _ last_node _ | .fanOut _ last_node _ _ _ => some last_node

namespace Lists

def head (l : Lists ι) : ListName → Option ι
  | .log => l.log.head
  | .sendqueue => l.sendqueue.head
  | .sockfds id => (l.sockfds id).head

def tail (l : Lists ι) : ListName → Option ι
  | .log => l.log.tail
  | .sendqueue => l.sendqueue.tail
  | .sockfds id => (l.sockfds id).tail

/-- The nodes of a list. -/
def At (l : Lists ι) (h : Heap ι (Node ι Datum)) (c : List (ι × Datum)) : ListName → Prop
  | .log => l.log.Holds h c
  | .sendqueue => ∃ before, l.sendqueue.Holds h before c
  | .sockfds id => (l.sockfds id).Holds h c

/-- The nodes of the lists, which are apart. -/
structure Stand (l : Lists ι) (nodes : ListName → List (ι × Datum)) : Prop where
  at_heap : ∀ k, l.At l.heap (nodes k) k
  apart : Apart nodes

/-- The lists and the pointers are what the server model has them to be. -/
structure Hold (l : Lists ι) (nodes : ListName → List (ι × Datum)) (s : Server) : Prop where
  data : ∀ k, (nodes k).map Prod.snd = s.listed k
  last_read : ∀ c, l.last_read c = nodeAt (nodes .log) (s.client c).last_read
  cursor : ∀ t i, (s.listener t).pc = .catchUp i → l.cursor t = nodeAt (nodes .log) i
  last_node : ∀ i, s.sender.last_node = some i → l.last_node = nodeAt (nodes .log) (some i)
  n : ∀ m i c rest fds, s.sender = .fanOut m i c rest fds → ∃ done left,
    nodes (.sockfds c) = done ++ left ∧ left.map Prod.snd = fds.map .fd ∧ l.n = first left none

variable {l l' : Lists ι} {nodes : ListName → List (ι × Datum)} {s s' : Server}
  {h h' : Heap ι (Node ι Datum)} {c c' : List (ι × Datum)} {k : ListName} {node : ι} {m : Message}

/-! ## The calls, on the lists in the heap -/

theorem At.congr (hk : l.At h c k) (hsame : ∀ b ∈ addrs c, h' b = h b) : l.At h' c k := by
  cases k with
  | sendqueue =>
    obtain ⟨before, hq⟩ := hk
    exact ⟨before, hq.congr hsame⟩
  | log | sockfds =>
    obtain ⟨hseg, hnodup, hhead, htail⟩ := hk
    exact ⟨hseg.congr hsame, hnodup, hhead, htail⟩

theorem At.live (hk : l.At h c k) {a : ι} (ha : a ∈ addrs c) : ∃ n, h a = .live n := by
  cases k with
  | sendqueue =>
    obtain ⟨before, hq⟩ := hk
    exact hq.seg.live ha
  | log | sockfds =>
    obtain ⟨hseg, -⟩ := hk
    exact hseg.live ha

theorem stand_create (h : Heap ι (Node ι Datum)) : (create h).Stand fun _ => [] where
  at_heap k := by
    cases k with
    | sendqueue => exact ⟨none, trivial, List.nodup_nil, rfl, fun hne => absurd rfl hne⟩
    | log | sockfds => exact ⟨trivial, List.nodup_nil, rfl, rfl⟩
  apart _ _ _ _ ha := absurd ha List.not_mem_nil

namespace Stand

theorem along (hst : l.Stand nodes) (k : ListName) :
    Along l.heap Node.next (l.head k) (nodes k) := by
  have hk := hst.at_heap k
  cases k with
  | sendqueue =>
    obtain ⟨before, hq⟩ := hk
    exact hq.along
  | log | sockfds =>
    obtain ⟨hseg, -, hhead, -⟩ := hk
    have halong := hseg.along_next
    rw [← hhead] at halong
    exact halong

theorem doublyLinked (hst : l.Stand nodes) (hne : k ≠ .sendqueue) :
    DoublyLinked l.heap (l.head k) (l.tail k) (addrs (nodes k)) := by
  have hk := hst.at_heap k
  cases k with
  | sendqueue => exact absurd rfl hne
  | log | sockfds =>
    obtain ⟨hseg, hnodup, hhead, htail⟩ := hk
    have hlinked := hseg.doublyLinked hnodup
    rw [← hhead, ← htail] at hlinked
    exact hlinked

theorem fresh (hst : l.Stand nodes) (hnew : l.heap node = .unborn) (k : ListName) :
    node ∉ addrs (nodes k) := by
  intro hmem
  obtain ⟨_, hlive⟩ := (hst.at_heap k).live hmem
  rw [hnew] at hlive
  cases hlive

/-- A call changes one list, and no node but those of this list and a new one. -/
theorem replace (hst : l.Stand nodes) (hnew : l.heap node = .unborn) (hk : l'.At l'.heap c' k)
    (hother : ∀ k', k' ≠ k → ∀ h c, l.At h c k' → l'.At h c k')
    (hsame : ∀ b, b ∉ addrs (nodes k) → b ≠ node → l'.heap b = l.heap b)
    (hin : ∀ a ∈ addrs c', a ∈ addrs (nodes k) ∨ a = node) :
    l'.Stand (Function.update nodes k c') where
  at_heap k' := by
    by_cases hne : k' = k
    · subst hne
      rwa [Function.update_self]
    · rw [Function.update_of_ne hne]
      refine (hother k' hne _ _ (hst.at_heap k')).congr fun b hb => hsame b ?_ ?_
      · exact fun hmem => hst.apart k' k hne b hb hmem
      · rintro rfl
        exact hst.fresh hnew k' hb
  apart := hst.apart.update fun a ha => (hin a ha).imp_right (by
    rintro rfl k'
    exact hst.fresh hnew k')

/-- Another list than the connections of a client. -/
theorem at_update {id : UInt16} {sockfds : Llist ι} (hne : k ≠ .sockfds id)
    (hk : l.At h c k) :
    At { l with heap := h', sockfds := Function.update l.sockfds id sockfds } h c k := by
  cases k with
  | log | sendqueue => exact hk
  | sockfds id' =>
    have hid : id' ≠ id := fun heq => hne (heq ▸ rfl)
    change (Function.update l.sockfds id sockfds id').Holds h c
    rw [Function.update_of_ne hid]
    exact hk

variable [DecidableEq ι]

theorem jobqueue_enqueue (hst : l.Stand nodes) (hnew : l.heap node = .unborn) (m : Message) :
    ∃ heap sendqueue,
      l.jobqueue_enqueue node m = some ({ l with heap, sendqueue }, .nothing) ∧
      Stand { l with heap, sendqueue }
        (Function.update nodes .sendqueue (nodes .sendqueue ++ [(node, .message m)])) := by
  obtain ⟨before, hq⟩ := hst.at_heap .sendqueue
  have hfresh := hst.fresh hnew .sendqueue
  have hput : l.sendqueue.Holds (l.heap.put node (.live (JobQueue.create_node (.message m)))) before
      (nodes .sendqueue) :=
    hq.congr fun b hb => Heap.put_of_ne (by rintro rfl; exact hfresh hb)
  obtain ⟨heap, sendqueue, heq, hq', -, helse⟩ := hput.enqueue Heap.put_self hfresh
  refine ⟨heap, sendqueue, by simp [Lists.jobqueue_enqueue, heq], hst.replace hnew ⟨_, hq'⟩ ?_
    (fun b hb hne => ?_) fun a => mem_concat.mp⟩
  · rintro (_ | _ | _) hne h c hk
    · exact hk
    · exact absurd rfl hne
    · exact hk
  · exact (helse b (mt mem_concat.mp (not_or.mpr ⟨hb, hne⟩))).trans (Heap.put_of_ne hne)

theorem jobqueue_dequeue (hst : l.Stand nodes) (hnew : l.heap node = .unborn) {z : ι × Datum}
    (hc : nodes .sendqueue = z :: c) :
    ∃ heap sendqueue,
      JobQueue.jobqueue_dequeue l.heap l.sendqueue = some (heap, sendqueue, z.2) ∧
      Stand { l with heap, sendqueue } (Function.update nodes .sendqueue c) := by
  obtain ⟨before, hq⟩ := hst.at_heap .sendqueue
  rw [hc] at hq
  obtain ⟨heap, sendqueue, heq, hq', -, -, helse⟩ := hq.dequeue
  refine ⟨heap, sendqueue, heq, hst.replace hnew ⟨_, hq'⟩ ?_ (fun b hb _ => helse b ?_) ?_⟩
  · rintro (_ | _ | _) hne h c hk
    · exact hk
    · exact absurd rfl hne
    · exact hk
  · rintro rfl
    exact hb (hc ▸ List.mem_cons_self)
  · exact fun a ha => .inl (hc ▸ List.mem_cons_of_mem _ ha)

theorem message_log_append (hst : l.Stand nodes) (hnew : l.heap node = .unborn) (d : Datum)
    (last_node : Option ι) :
    ∃ heap log, llist_insert_tail l.heap l.log node d = some (heap, log) ∧
      log.tail = some node ∧
      Stand { l with heap, log, last_node }
        (Function.update nodes .log (nodes .log ++ [(node, d)])) := by
  have hlog : l.log.Holds l.heap (nodes .log) := hst.at_heap .log
  obtain ⟨heap, log, heq, hlog', helse⟩ := hlog.insert_tail hnew d
  refine ⟨heap, log, heq, hlog'.tail.trans last_concat, hst.replace hnew hlog' ?_
    (fun b hb hne => helse b (mt mem_concat.mp (not_or.mpr ⟨hb, hne⟩))) fun a => mem_concat.mp⟩
  rintro (_ | _ | _) hne h c hk
  · exact absurd rfl hne
  · exact hk
  · exact hk

theorem client_hash_add_connection (hst : l.Stand nodes) (hnew : l.heap node = .unborn)
    (id : UInt16) (d : Datum) :
    ∃ heap sockfds, llist_insert_tail l.heap (l.sockfds id) node d = some (heap, sockfds) ∧
      Stand { l with heap, sockfds := Function.update l.sockfds id sockfds }
        (Function.update nodes (.sockfds id) (nodes (.sockfds id) ++ [(node, d)])) := by
  have hfds : (l.sockfds id).Holds l.heap (nodes (.sockfds id)) := hst.at_heap (.sockfds id)
  obtain ⟨heap, sockfds, heq, hfds', helse⟩ := hfds.insert_tail hnew d
  refine ⟨heap, sockfds, heq, hst.replace hnew ?_ (fun k' hne h c hk => at_update hne hk)
    (fun b hb hne => helse b (mt mem_concat.mp (not_or.mpr ⟨hb, hne⟩))) fun a => mem_concat.mp⟩
  change (Function.update l.sockfds id sockfds id).Holds heap _
  rw [Function.update_self]
  exact hfds'

theorem client_hash_remove_connection (hst : l.Stand nodes) (hnew : l.heap node = .unborn)
    (id : UInt16) (d : Datum) {steps : Nat} (hsteps : (nodes (.sockfds id)).length < steps) :
    ∃ heap sockfds r,
      llist_remove_value l.heap (l.sockfds id) .NULL steps d = some (heap, sockfds, r) ∧
      Stand { l with heap, sockfds := Function.update l.sockfds id sockfds }
        (Function.update nodes (.sockfds id) ((nodes (.sockfds id)).eraseP fun z => z.2 = d)) := by
  have hfds : (l.sockfds id).Holds l.heap (nodes (.sockfds id)) := hst.at_heap (.sockfds id)
  obtain ⟨heap, sockfds, heq, hfds', helse⟩ := hfds.remove_value .NULL hsteps d
  refine ⟨heap, sockfds, _, heq, hst.replace hnew ?_ (fun k' hne h c hk => at_update hne hk)
    (fun b hb _ => helse b hb) fun a ha => ?_⟩
  · change (Function.update l.sockfds id sockfds id).Holds heap _
    rw [Function.update_self]
    exact hfds'
  · exact .inl ((List.eraseP_sublist.map Prod.fst).subset ha)

end Stand

/-! ## What the pointers lead to -/

namespace Hold

theorem length (hh : l.Hold nodes s) : (nodes .log).length = s.log.length := by
  have hdata := congrArg List.length (hh.data .log)
  rwa [List.length_map, Server.listed, List.length_map] at hdata

theorem of_same (hh : l.Hold nodes s) (hlog : s'.log = s.log) (hqueue : s'.sendqueue = s.sendqueue)
    (hclient : s'.client = s.client) (hsender : s'.sender = s.sender)
    (hcursor : ∀ t i, (s'.listener t).pc = .catchUp i → (s.listener t).pc = .catchUp i) :
    l.Hold nodes s' where
  data k := by
    rw [hh.data k]
    cases k <;> simp only [Server.listed, hlog, hqueue, hclient]
  last_read c := by rw [hh.last_read c, hclient]
  cursor t i hpc := hh.cursor t i (hcursor t i hpc)
  last_node i hi := hh.last_node i (hsender ▸ hi)
  n m i c rest fds hpc := hh.n m i c rest fds (hsender ▸ hpc)

theorem goto (hh : l.Hold nodes s) {t : Tid} {pc : ListenerPc} (hpc : pc.catching = false) :
    l.Hold nodes (s.goto t pc) := by
  refine hh.of_same rfl rfl rfl rfl fun t' i hi => ?_
  rw [Server.goto_listener] at hi
  split at hi
  · rw [show pc = .catchUp i from hi] at hpc
    cases hpc
  · exact hi

theorem transmit (hh : l.Hold nodes s) (fd : Fd) (frame : Frame) (ok : Bool) :
    l.Hold nodes (s.transmit fd frame ok) :=
  hh.of_same (by simp) (by simp) (by simp) (by simp) fun t i hpc => by simpa using hpc

theorem crash (hh : l.Hold nodes s) : l.Hold nodes s.crash :=
  hh.of_same rfl rfl rfl rfl fun _ _ hpc => hpc

theorem unlockLog (hh : l.Hold nodes s) (t : Tid) : l.Hold nodes (s.unlockLog t) :=
  hh.of_same rfl rfl rfl rfl fun _ _ hpc => hpc

theorem goto_catchUp (hh : l.Hold nodes s) (t : Tid) (i : Option Nat) {cursor : Option ι}
    (hcursor : cursor = nodeAt (nodes .log) i) :
    Hold { l with cursor := Function.update l.cursor t cursor } nodes (s.goto t (.catchUp i)) where
  data := hh.data
  last_read := hh.last_read
  cursor t' j hj := by
    rw [Server.goto_listener] at hj
    by_cases ht : t' = t
    · subst ht
      rw [if_pos rfl] at hj
      cases hj
      exact (Function.update_self ..).trans hcursor
    · rw [if_neg ht] at hj
      exact (Function.update_of_ne ht ..).trans (hh.cursor t' j hj)
  last_node := hh.last_node
  n := hh.n

theorem setMark (hh : l.Hold nodes s) (id : UInt16) {p : Option ι} {i : Option Nat}
    (hp : p = nodeAt (nodes .log) i) : (l.setMark id p).Hold nodes (s.setMark id i) where
  data k := by
    rw [hh.data k]
    cases k with
    | log | sendqueue => rfl
    | sockfds id' => simp only [Server.listed, Server.setMark_sockfds]
  last_read id' := by
    rw [Server.setMark_last_read]
    by_cases hid : id' = id
    · subst hid
      rw [if_pos rfl]
      exact (Function.update_self ..).trans hp
    · rw [if_neg hid]
      exact (Function.update_of_ne hid ..).trans (hh.last_read id')
  cursor := hh.cursor
  last_node := hh.last_node
  n := hh.n

/-- The sender goes on: to the same message, and to the rest of a client's connections. -/
theorem setSender (hh : l.Hold nodes s) {pc : SenderPc} {n : Option ι}
    (hlast : ∀ i, pc.last_node = some i → s.sender.last_node = some i)
    (hn : ∀ m i c rest fds, pc = .fanOut m i c rest fds → ∃ done left,
      nodes (.sockfds c) = done ++ left ∧ left.map Prod.snd = fds.map .fd ∧ n = first left none) :
    Hold { l with n } nodes { s with sender := pc } where
  data k := (hh.data k).trans (by cases k <;> rfl)
  last_read := hh.last_read
  cursor := hh.cursor
  last_node i hi := hh.last_node i (hlast i hi)
  n := hn

theorem setQueue (hh : l.Hold nodes s) {queue : List Message}
    (hc : c.map Prod.snd = queue.map .message) {heap : Heap ι (Node ι Datum)}
    {sendqueue : JobQueue ι} :
    Hold { l with heap, sendqueue } (Function.update nodes .sendqueue c)
      { s with sendqueue := queue } where
  data k := by
    cases k with
    | sendqueue => exact hc
    | log => exact hh.data .log
    | sockfds id => exact hh.data (.sockfds id)
  last_read := hh.last_read
  cursor := hh.cursor
  last_node := hh.last_node
  n := hh.n

/-- The connections of a client change while the sender is not among them. -/
theorem setFds (hh : l.Hold nodes s) (hlock : s.sender.holdsClientsLock = false) {id : UInt16}
    {fds : List Fd} (hc : c.map Prod.snd = fds.map .fd) {heap : Heap ι (Node ι Datum)}
    {sockfds : UInt16 → Llist ι} :
    Hold { l with heap, sockfds } (Function.update nodes (.sockfds id) c) (s.setFds id fds) where
  data k := by
    by_cases hk : k = .sockfds id
    · subst hk
      rw [Function.update_self, hc, Server.listed, Server.setFds_sockfds, if_pos rfl]
    · rw [Function.update_of_ne hk, hh.data k]
      cases k with
      | log | sendqueue => rfl
      | sockfds id' =>
        have hid : id' ≠ id := fun heq => hk (heq ▸ rfl)
        rw [Server.listed, Server.listed, Server.setFds_sockfds, if_neg hid]
  last_read id' := by
    rw [Server.setFds_last_read]
    exact hh.last_read id'
  cursor := hh.cursor
  last_node := hh.last_node
  n m i id' rest fds hpc := by
    rw [Server.setFds_sender] at hpc
    rw [hpc] at hlock
    cases hlock

/-- What has been appended to the log does not move the nodes before it. -/
theorem append (hh : l.Hold nodes s) (hwf : s.Wf) (m : Message) {heap : Heap ι (Node ι Datum)}
    {log : Llist ι} :
    Hold { l with heap, log, last_node := some node }
      (Function.update nodes .log (nodes .log ++ [(node, .message m)]))
      { s with log := s.log ++ [m], sender := .lockClients m s.log.length } where
  data k := by
    cases k with
    | log =>
      have hdata : (nodes .log).map Prod.snd = s.log.map .message := hh.data .log
      rw [Function.update_self, List.map_append, hdata, Server.listed, List.map_append]
      rfl
    | sendqueue => exact hh.data .sendqueue
    | sockfds id => exact hh.data (.sockfds id)
  last_read id := by
    refine (hh.last_read id).trans (nodeAt_append fun i hi => ?_).symm
    rw [hh.length]
    exact hwf.mark id i hi
  cursor t i hpc := by
    refine (hh.cursor t i hpc).trans (nodeAt_append fun j hj => ?_).symm
    obtain rfl : i = some j := hj
    rw [hh.length]
    exact hwf.cursor t j hpc
  last_node i hi := by
    cases hi
    have hlast := last_eq_nodeAt (l := nodes .log ++ [(node, Datum.message m)]) (by simp)
    rw [last_concat, List.length_append, hh.length] at hlast
    exact hlast
  n m i c rest fds hpc := by cases hpc

end Hold

theorem hold_create (client_ids : List UInt16) (h : Heap ι (Node ι Datum)) :
    (create h).Hold (fun _ => []) (Server.init client_ids) where
  data k := by cases k <;> rfl
  last_read _ := rfl
  cursor t i hpc := by cases hpc
  last_node i hi := by cases hi
  n m i c rest fds hpc := by cases hpc

/-! ## What an action does -/

/-- The node at a position of the log, and the pointers to it and to the next one. -/
theorem Hold.load_log (hst : l.Stand nodes) (hh : l.Hold nodes s) {i : Nat}
    (hi : s.log[i]? = some m) :
    ∃ b, l.heap.load (nodeAt (nodes .log) (some i)) =
      some ⟨b, nodeAt (nodes .log) (s.nextNode i), .message m⟩ := by
  have hlog : l.log.Holds l.heap (nodes .log) := hst.at_heap .log
  have hdata : ((nodes .log)[i]?).map Prod.snd = some (.message m) := by
    have hmap : (nodes .log).map Prod.snd = s.log.map .message := hh.data .log
    rw [← List.getElem?_map, hmap, List.getElem?_map, hi]
    rfl
  obtain ⟨⟨a, d⟩, hz, hd⟩ := Option.map_eq_some_iff.mp hdata
  obtain rfl : d = .message m := hd
  obtain ⟨hat, b, hlive⟩ := hlog.seg.getElem hz
  refine ⟨b, ?_⟩
  have hnext : nodeAt (nodes .log) (some (i + 1)) = nodeAt (nodes .log) (s.nextNode i) := by
    unfold Server.nextNode
    split
    · rfl
    · next hend =>
      rw [← hh.length] at hend
      simpa [nodeAt, addrs] using hend
  rw [hat, Heap.load_live hlive, hnext]

theorem Hold.firstUnread (hst : l.Stand nodes) (hh : l.Hold nodes s) (hwf : s.Wf) (id : UInt16) :
    (if l.last_read id = none then l.log.head else l.last_read id) =
      nodeAt (nodes .log) (s.firstUnread id) := by
  have hlog : l.log.Holds l.heap (nodes .log) := hst.at_heap .log
  unfold Server.firstUnread
  rw [hh.last_read id, hlog.head]
  cases hmark : (s.client id).last_read with
  | none =>
    have hnull : nodeAt (nodes .log) none = none := rfl
    rw [if_pos hnull, first_eq_nodeAt, ← hh.length]
    dsimp only
    split
    · next hempty =>
      rw [List.length_eq_zero_iff.mp hempty]
      rfl
    · rfl
  | some i =>
    have hlt := hwf.mark id i hmark
    rw [← hh.length] at hlt
    exact if_neg (by simpa [nodeAt, addrs] using hlt)

theorem Hold.tail (hst : l.Stand nodes) (hh : l.Hold nodes s) :
    l.log.tail = nodeAt (nodes .log) s.tail := by
  have hlog : l.log.Holds l.heap (nodes .log) := hst.at_heap .log
  rw [hlog.tail, Server.tail, ← hh.length]
  by_cases hempty : nodes .log = []
  · rw [hempty]
    rfl
  · rw [last_eq_nodeAt hempty, if_neg (mt List.length_eq_zero_iff.mp hempty)]

variable [DecidableEq ι] {e : Event} {steps : Nat}

/-- A node with the message is put on the queue. -/
theorem enqueue_step (hst : l.Stand nodes) (hh : l.Hold nodes s) (hnew : l.heap node = .unborn)
    (m : Message) :
    ∃ l' nodes', l.jobqueue_enqueue node m = some (l', .nothing) ∧ l'.Stand nodes' ∧
      l'.Hold nodes' (s.jobqueue_enqueue m) := by
  obtain ⟨heap, sendqueue, heq, hst'⟩ := hst.jobqueue_enqueue hnew m
  refine ⟨_, _, heq, hst', hh.setQueue ?_⟩
  have hdata : (nodes .sendqueue).map Prod.snd = s.sendqueue.map .message := hh.data .sendqueue
  rw [List.map_append, hdata, List.map_append]
  rfl

/-- The action does not go astray, and learns what it should. -/
def Acts (l : Lists ι) (s : Server) (node : ι) (steps : Nat) (e : Event) : Prop :=
  ∃ l' nodes', l.act s node steps e = some (l', s.sees e) ∧ l'.Stand nodes' ∧
    l'.Hold nodes' (s.next e)

attribute [local simp] act

theorem act_handshake (hst : l.Stand nodes) (hh : l.Hold nodes s) (t : Tid) (m : Option Message) :
    l.Acts s node steps (.handshake t m) := by
  refine ⟨l, nodes, rfl, hst, ?_⟩
  cases m with
  | none => exact hh.goto rfl
  | some m =>
    simp only [Server.next]
    split
    · exact hh.goto rfl
    · refine hh.of_same rfl rfl rfl rfl fun t' i hi => ?_
      simp only [Function.update_apply] at hi
      split at hi
      · cases hi
      · exact hi

theorem act_catchUp (hst : l.Stand nodes) (hh : l.Hold nodes s) {t : Tid} {cursor : Nat} {ok : Bool}
    (he : s.enabled (.catchUp t cursor m ok)) :
    l.Acts s node steps (.catchUp t cursor m ok) := by
  obtain ⟨hpc, hm, -⟩ := he
  obtain ⟨b, hload⟩ := hh.load_log hst hm
  rw [← hh.cursor t _ hpc] at hload
  simp only [Acts, act, hload, Option.bind_eq_bind, Option.bind_some, Server.next]
  have hon := hh.goto_catchUp t (s.nextNode cursor) rfl
  by_cases hid : m.id = (s.listener t).client_id
  · rw [if_pos (.inl hid), if_pos hid]
    exact ⟨_, nodes, rfl, ⟨hst.at_heap, hst.apart⟩, hon⟩
  rw [if_neg hid]
  by_cases hmar : m.Marshals
  swap
  · rw [if_neg (by simp [hid, hmar]), if_pos hmar]
    exact ⟨l, nodes, rfl, hst, hh.crash⟩
  rw [if_neg (not_not.mpr hmar)]
  cases ok with
  | true =>
    rw [if_pos (.inr ⟨hmar, rfl⟩), if_pos rfl]
    exact ⟨_, nodes, rfl, ⟨hst.at_heap, hst.apart⟩, (hh.transmit ..).goto_catchUp t _ rfl⟩
  | false =>
    rw [if_neg (by simp [hid]), if_neg Bool.false_ne_true]
    exact ⟨l, nodes, rfl, hst, ((hh.transmit ..).unlockLog t).goto rfl⟩

theorem act_client_hash_add_connection (hst : l.Stand nodes) (hh : l.Hold nodes s)
    (hnew : l.heap node = .unborn) {t : Tid} (he : s.enabled (.client_hash_add_connection t)) :
    l.Acts s node steps (.client_hash_add_connection t) := by
  obtain ⟨heap, sockfds, heq, hst'⟩ :=
    hst.client_hash_add_connection hnew (s.listener t).client_id (.fd (s.listener t).fd)
  refine ⟨_, _, by simp only [act, heq]; rfl, hst', (hh.setFds he.2 ?_).goto rfl⟩
  have hdata : (nodes (.sockfds (s.listener t).client_id)).map Prod.snd =
      (s.client (s.listener t).client_id).sockfds.map .fd := hh.data _
  rw [List.map_append, hdata, List.map_append]
  rfl

theorem act_recv_header (hst : l.Stand nodes) (hh : l.Hold nodes s)
    (hnew : l.heap node = .unborn) (t : Tid) (m : Option Message) :
    l.Acts s node steps (.recv_header t m) := by
  cases m with
  | none => exact ⟨l, nodes, rfl, hst, hh.crash⟩
  | some m =>
    simp only [Acts, act, Server.next]
    split
    · obtain ⟨l', nodes', heq, hst', hh'⟩ := enqueue_step hst hh hnew m
      exact ⟨l', nodes', heq, hst', hh'.goto rfl⟩
    split
    · exact ⟨l, nodes, rfl, hst, hh⟩
    · exact ⟨l, nodes, rfl, hst, hh.goto rfl⟩

theorem act_recv_payload (hst : l.Stand nodes) (hh : l.Hold nodes s)
    (hnew : l.heap node = .unborn) (t : Tid) (m : Message) (r : Option Message) :
    l.Acts s node steps (.recv_payload t m r) := by
  cases r with
  | none => exact ⟨l, nodes, rfl, hst, hh.goto rfl⟩
  | some m' =>
    simp only [Acts, act, Server.next]
    split
    · exact ⟨l, nodes, rfl, hst, hh.crash⟩
    · obtain ⟨l', nodes', heq, hst', hh'⟩ := enqueue_step hst hh hnew m'
      exact ⟨l', nodes', heq, hst', hh'.goto rfl⟩

theorem act_client_hash_remove_connection (hst : l.Stand nodes) (hh : l.Hold nodes s)
    (hnew : l.heap node = .unborn) {t : Tid} (he : s.enabled (.client_hash_remove_connection t))
    (hsteps : (s.client (s.listener t).client_id).sockfds.length < steps) :
    l.Acts s node steps (.client_hash_remove_connection t) := by
  have hdata : (nodes (.sockfds (s.listener t).client_id)).map Prod.snd =
      (s.client (s.listener t).client_id).sockfds.map .fd := hh.data _
  have hlength : (nodes (.sockfds (s.listener t).client_id)).length < steps := by
    have hsame := congrArg List.length hdata
    rw [List.length_map, List.length_map] at hsame
    exact hsame ▸ hsteps
  obtain ⟨heap, sockfds, r, heq, hst'⟩ := hst.client_hash_remove_connection hnew
    (s.listener t).client_id (.fd (s.listener t).fd) hlength
  refine ⟨_, _, by simp only [act, heq]; rfl, hst', (hh.setFds he.2 ?_).goto rfl⟩
  have herase := LlistOp.plain_data .NULL (nodes (.sockfds (s.listener t).client_id))
    (.remove_value steps (.fd (s.listener t).fd))
  rw [hdata] at herase
  exact herase.trans (List.map_erase (fun _ _ heq => Datum.fd.inj heq) ..).symm

theorem act_jobqueue_dequeue (hst : l.Stand nodes) (hh : l.Hold nodes s)
    (hnew : l.heap node = .unborn) {rest : List Message}
    (he : s.enabled (.jobqueue_dequeue m rest)) :
    l.Acts s node steps (.jobqueue_dequeue m rest) := by
  obtain ⟨hpc, hqueue⟩ := he
  have hdata : (nodes .sendqueue).map Prod.snd = s.sendqueue.map .message := hh.data .sendqueue
  rw [hqueue, List.map_cons] at hdata
  obtain ⟨z, c, hc, hz, hrest⟩ := List.map_eq_cons_iff.mp hdata
  obtain ⟨heap, sendqueue, heq, hst'⟩ := hst.jobqueue_dequeue hnew hc
  refine ⟨_, _, by simp only [act, heq, hz]; rfl, hst', ?_⟩
  exact (hh.setQueue hrest).setSender (by rintro i ⟨⟩) (by rintro m i c rest fds ⟨⟩)

theorem act_visit (hst : l.Stand nodes) (hh : l.Hold nodes s) {i : Nat} {c : UInt16}
    {rest : List UInt16} (he : s.enabled (.visit m i c rest)) :
    l.Acts s node steps (.visit m i c rest) := by
  have hpc : s.sender = .visit m i (c :: rest) := he
  have hlast : ∀ j, some i = some j → s.sender.last_node = some j := fun j hj => by
    rw [hpc]
    exact hj
  have hfds : (l.sockfds c).Holds l.heap (nodes (.sockfds c)) := hst.at_heap (.sockfds c)
  have hdata : (nodes (.sockfds c)).map Prod.snd = (s.client c).sockfds.map .fd := hh.data _
  have hempty : llist_is_empty (l.sockfds c) = true ↔ (s.client c).sockfds = [] := by
    rw [hfds.is_empty, ← List.map_eq_nil_iff (f := Prod.snd), hdata, List.map_eq_nil_iff]
  simp only [Acts, act, Server.next, Server.sees, ← hempty]
  by_cases hnone : llist_is_empty (l.sockfds c) = true
  · rw [if_pos hnone, if_pos hnone]
    exact ⟨l, nodes, by rw [decide_eq_true hnone], hst,
      hh.setSender hlast (by rintro m i c rest fds ⟨⟩)⟩
  rw [if_neg hnone, if_neg hnone, decide_eq_false hnone]
  by_cases hid : c ≠ m.id
  · rw [if_pos hid, if_pos hid]
    refine ⟨_, nodes, rfl, ⟨hst.at_heap, hst.apart⟩, hh.setSender hlast ?_⟩
    rintro m i c rest fds ⟨⟩
    exact ⟨[], _, rfl, hdata, hfds.head⟩
  · rw [if_neg hid, if_neg hid]
    have hmark := hh.last_node i (hlast i rfl)
    refine ⟨_, nodes, rfl, ⟨hst.at_heap, hst.apart⟩, ?_⟩
    exact (hh.setMark c hmark).setSender hlast (by rintro m i c rest fds ⟨⟩)

theorem act_send (hst : l.Stand nodes) (hh : l.Hold nodes s) {i : Nat} {c : UInt16}
    {rest : List UInt16} {fd : Fd} {fds : List Fd} {ok : Bool}
    (he : s.enabled (.send m i c rest fd fds ok)) :
    l.Acts s node steps (.send m i c rest fd fds ok) := by
  obtain ⟨hpc, -⟩ := he
  obtain ⟨done, left, hc, hleft, hn⟩ := hh.n m i c rest (fd :: fds) hpc
  obtain ⟨⟨a, d⟩, left, rfl, hd, hrest⟩ := List.map_eq_cons_iff.mp hleft
  obtain rfl : d = .fd fd := hd
  have hfds : (l.sockfds c).Holds l.heap (nodes (.sockfds c)) := hst.at_heap (.sockfds c)
  have hseg := hfds.seg
  rw [hc] at hseg
  have hload := Heap.load_live hseg.node
  rw [show some a = l.n from hn.symm] at hload
  simp only [Acts, act, hload, Option.bind_eq_bind, Option.bind_some, Server.next]
  by_cases hmar : m.Marshals
  · rw [if_pos hmar, if_neg (not_not.mpr hmar)]
    refine ⟨_, nodes, rfl, ⟨hst.at_heap, hst.apart⟩, (hh.transmit ..).setSender ?_ ?_⟩
    · intro j hj
      rw [Server.transmit_sender, hpc]
      exact hj
    · rintro m i c rest fds ⟨⟩
      exact ⟨done ++ [(a, .fd fd)], left, by rw [hc, List.append_assoc]; rfl, hrest, rfl⟩
  · rw [if_neg hmar, if_pos hmar]
    exact ⟨l, nodes, rfl, hst, hh.crash⟩

theorem act_mark (hst : l.Stand nodes) (hh : l.Hold nodes s) {i : Nat} {c : UInt16}
    {rest : List UInt16} (he : s.enabled (.mark m i c rest)) :
    l.Acts s node steps (.mark m i c rest) := by
  have hpc : s.sender = .fanOut m i c rest [] := he
  have hlast : ∀ j, some i = some j → s.sender.last_node = some j := fun j hj => by
    rw [hpc]
    exact hj
  obtain ⟨done, left, -, hleft, hn⟩ := hh.n m i c rest [] hpc
  obtain rfl : left = [] := List.map_eq_nil_iff.mp hleft
  have hmark := hh.last_node i (hlast i rfl)
  refine ⟨l.setMark c l.last_node, nodes, by rw [act, hn]; rfl, ⟨hst.at_heap, hst.apart⟩, ?_⟩
  exact (hh.setMark c hmark).setSender hlast (by rintro m i c rest fds ⟨⟩)

/-- No action goes astray, and each learns what it should. -/
theorem act_spec (hst : l.Stand nodes) (hh : l.Hold nodes s) (hwf : s.Wf) (he : s.enabled e)
    (hnew : l.heap node = .unborn) (hsteps : (s.searched e).length < steps) :
    l.Acts s node steps e := by
  cases e with
  | accept t fd =>
    refine ⟨l, nodes, rfl, hst, hh.of_same rfl rfl rfl rfl fun t' i hi => ?_⟩
    simp only [Server.next, Function.update_apply] at hi
    split at hi
    · cases hi
    · exact hi
  | handshake t m => exact act_handshake hst hh t m
  | client_hash_get t =>
    refine ⟨l, nodes, rfl, hst, ?_⟩
    simp only [Server.next]
    split
    · exact hh.goto rfl
    · exact hh.goto rfl
  | refuse t received ok => exact ⟨l, nodes, rfl, hst, (hh.transmit ..).goto rfl⟩
  | free_message t received =>
    refine ⟨l, nodes, rfl, hst, ?_⟩
    simp only [Server.next]
    split
    · exact hh.goto rfl
    · exact hh.crash
  | reply t ok => exact ⟨l, nodes, rfl, hst, (hh.transmit ..).goto rfl⟩
  | announce t =>
    obtain ⟨l', nodes', heq, hst', hh'⟩ := enqueue_step hst hh hnew
      (create_message_header 0 (s.listener t).client_id MESG_CONN)
    exact ⟨l', nodes', heq, hst', hh'.goto rfl⟩
  | fast_forward t =>
    refine ⟨_, nodes, rfl, ⟨hst.at_heap, hst.apart⟩, ?_⟩
    exact (hh.goto_catchUp t _ (hh.firstUnread hst hwf _)).of_same rfl rfl rfl rfl fun _ _ hi => hi
  | catchUp t cursor m ok => exact act_catchUp hst hh he
  | storeMark t =>
    have hcursor : l.cursor t = none := hh.cursor t none he
    refine ⟨l.setMark (s.listener t).client_id l.log.tail, nodes, by rw [act, hcursor]; rfl,
      ⟨hst.at_heap, hst.apart⟩, ?_⟩
    exact ((hh.setMark _ (hh.tail hst)).unlockLog t).goto rfl
  | client_hash_add_connection t => exact act_client_hash_add_connection hst hh hnew he
  | recv_header t m => exact act_recv_header hst hh hnew t m
  | recv_payload t m r => exact act_recv_payload hst hh hnew t m r
  | client_hash_remove_connection t => exact act_client_hash_remove_connection hst hh hnew he hsteps
  | close t =>
    have hon : l.Hold nodes (s.goto t .finished) := hh.goto rfl
    exact ⟨l, nodes, rfl, hst, hon.of_same rfl rfl rfl rfl fun _ _ hi => hi⟩
  | jobqueue_dequeue m rest => exact act_jobqueue_dequeue hst hh hnew he
  | message_log_append m =>
    obtain ⟨heap, log, heq, htail, hst'⟩ :=
      hst.message_log_append hnew (.message m) (some node)
    refine ⟨_, _, ?_, hst', hh.append hwf m⟩
    simp only [act, heq, Option.bind_eq_bind, Option.bind_some, htail]
    rfl
  | lockClients m i =>
    have hpc : s.sender = .lockClients m i := he
    refine ⟨l, nodes, rfl, hst, hh.setSender (fun j hj => ?_) (by rintro m i c rest fds ⟨⟩)⟩
    rw [hpc]
    exact hj
  | visit m i c rest => exact act_visit hst hh he
  | send m i c rest fd fds ok => exact act_send hst hh he
  | mark m i c rest => exact act_mark hst hh he
  | unlockClients m i =>
    exact ⟨l, nodes, rfl, hst, hh.setSender (by rintro i ⟨⟩) (by rintro m i c rest fds ⟨⟩)⟩

end Lists

/-! ## Every run -/

/-- No action has gone astray, and the lists are those of the server. -/
structure Lists.Sound (x : OnLists ι) : Prop where
  alive : x.faulted = false
  wf : x.server.Wf
  lists : ∃ nodes, x.lists.Stand nodes ∧ x.lists.Hold nodes x.server

section run

variable [DecidableEq ι] {client_ids : List UInt16} {h : Heap ι (Node ι Datum)} {x : OnLists ι}

theorem on_lists_next {e : ListEvent ι} {l' : Lists ι} {r : Seen}
    (heq : x.lists.act x.server e.node e.steps e.event = some (l', r)) :
    (on_lists client_ids h).next x e = ⟨x.server.next e.event, l', x.faulted⟩ := by
  simp only [on_lists, heq]

theorem sound_of_reach (hr : (on_lists client_ids h).Reachable x) : Lists.Sound x := by
  have hlists := Lists.hold_create client_ids h
  refine hr.invariant ⟨rfl, Server.wf_init client_ids, _, Lists.stand_create h, hlists⟩ ?_
  rintro x e ⟨hok, hwf, nodes, hst, hh⟩ ⟨he, hnew, hsteps⟩ -
  obtain ⟨l', nodes', heq, hst', hh'⟩ := Lists.act_spec hst hh hwf he.2 hnew hsteps
  rw [on_lists_next heq]
  exact ⟨hok, hwf.step he.2, nodes', hst', hh'⟩

/-- Seen without the lists, the runs are those of the server. -/
theorem on_lists_refine (hr : (on_lists client_ids h).Reachable x) :
    (server client_ids).Reachable x.server := by
  refine hr.refines (fun _ => sound_of_reach) rfl ?_
  rintro x e ⟨-, hwf, nodes, hst, hh⟩ ⟨he, hnew, hsteps⟩
  obtain ⟨l', nodes', heq, -⟩ := Lists.act_spec hst hh hwf he.2 hnew hsteps
  exact .inr ⟨e.event, he, congrArg OnLists.server (on_lists_next heq)⟩

/-- **The server on its lists.** In every state of every run the log, the queue and the connections
of each client stand in the heap as the server model has them, on nodes of their own; each pointer
that is kept leads to the node at the position the model keeps; and no action of the model can go
astray, or learn anything but what it stands for. -/
theorem lists_hold (hr : (on_lists client_ids h).Reachable x) :
    (server client_ids).Reachable x.server ∧ ∃ nodes : ListName → List (ι × Datum),
      Apart nodes ∧ x.lists.Hold nodes x.server ∧
      (∀ k, Along x.lists.heap Node.next (x.lists.head k) (nodes k)) ∧
      (∀ k, k ≠ .sendqueue →
        DoublyLinked x.lists.heap (x.lists.head k) (x.lists.tail k) (addrs (nodes k))) ∧
      ∀ e, (on_lists client_ids h).enabled x e → ∃ lists,
        x.lists.act x.server e.node e.steps e.event = some (lists, x.server.sees e.event) ∧
        (on_lists client_ids h).next x e = ⟨x.server.next e.event, lists, false⟩ := by
  obtain ⟨hok, hwf, nodes, hst, hh⟩ := sound_of_reach hr
  refine ⟨on_lists_refine hr, nodes, hst.apart, hh, hst.along, fun k => hst.doublyLinked, ?_⟩
  rintro e ⟨he, hnew, hsteps⟩
  obtain ⟨l', nodes', heq, -⟩ := Lists.act_spec hst hh hwf he.2 hnew hsteps
  exact ⟨l', heq, hok ▸ on_lists_next heq⟩

instance (client_ids : List UInt16) (h : Heap ι (Node ι Datum)) (x : OnLists ι)
    (e : ListEvent ι) : Decidable ((on_lists client_ids h).enabled x e) :=
  inferInstanceAs (Decidable (_ ∧ _ ∧ _))

end run

theorem lists_hold_oneAfterTheOther : ∃ (x : OnLists Nat) (nodes : ListName → List (Nat × Datum)),
    (on_lists [1, 2] fun _ => .unborn).Reachable x ∧ Apart nodes ∧ (nodes .log).length = 2 ∧
    (nodes (.sockfds 1)).map Prod.snd = [.fd 4] ∧
    x.lists.last_read 2 = nodeAt (nodes .log) (some 0) ∧
    Along x.lists.heap Node.next x.lists.log.head (nodes .log) := by
  have hrun : ((on_lists [1, 2] fun _ : Nat => .unborn).exec (fun _ _ => True)
      (on_lists [1, 2] fun _ => .unborn).init
      (oneAfterTheOther.mapIdx fun i e => ⟨e, i, 9⟩)).any
      (fun x => x.server.log.length = 2 ∧ (x.server.client 1).sockfds = [4] ∧
        (x.server.client 2).last_read = some 0) = true := by
    decide +kernel
  obtain ⟨x, hr, hx⟩ := TransitionSystem.exists_reach_of_exec hrun
  obtain ⟨hlog, hfds, hmark⟩ := of_decide_eq_true hx
  obtain ⟨-, nodes, hapart, hh, halong, -⟩ := lists_hold hr
  refine ⟨x, nodes, hr, hapart, hh.length.trans hlog, ?_, ?_, halong .log⟩
  · rw [hh.data (.sockfds 1), Server.listed, hfds]
    rfl
  · rw [hh.last_read 2, hmark]

end Cs2510.Chat
