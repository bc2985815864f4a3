import Cs2510.Chat.Sender
import Cs2510.Chat.Streams
import Cs2510.Chat.ReceiveError

/-!
# The server on its sockets

`server` leaves open what a call on a socket returns: any message may come in, and any send may
fail. `host` is the same program on sockets with bytes in them, where every answer is computed by
the functions of `a1/message_net.c` from the bytes that a client sends and the answers of the
kernel.

`host_refines` says that each run of the host is one of the server, that a call reads or writes
outside its blocks exactly in the steps where the server is said to crash, and that what is on the
stream of a connection are the frames of what has been sent on it, each whole if the send succeeded
and cut off somewhere if it failed.
-/

namespace Cs2510.Chat
open Net

/-! ## Calls -/

/-- What `recv_header` returns. -/
def headerResult (s : Socket) : Option (Option Message) :=
  match recv_header s with
  | .ret m _ => some m
  | .waiting | .fault _ => none

/-- What `listener` makes of `recv_payload`. In a fault, which ends the run, the result stands for
the empty payload that is written to. -/
def payloadResult (m : Message) (s : Socket) : Option (Option Message) :=
  match recv_payload m s with
  | .ret (ret, m') _ => some (if ret ≠ 0 then none else some m')
  | .waiting => none
  | .fault _ => some (some { m with payload := some [] })

/-- Whether `send_message` returns 0. -/
def sendResult (m : Message) (s : Socket) : Option Bool :=
  match send_message m s with
  | .ret ret _ => some (decide (ret = 0))
  | .waiting => none
  | .fault _ => some false

/-- A call on the socket of a connection, and what it is to return. -/
inductive Call
  | recv_header (t : Tid) (m : Option Message)
  | recv_payload (t : Tid) (m : Message) (r : Option Message)
  | send_message (t : Tid) (m : Message) (ok : Bool)
  deriving DecidableEq, Repr

namespace Call

def tid : Call → Tid
  | recv_header t _ | recv_payload t _ _ | send_message t _ _ => t

def Answered (s : Socket) : Call → Prop
  | recv_header _ m => headerResult s = some m
  | recv_payload _ m r => payloadResult m s = some r
  | send_message _ m ok => sendResult m s = some ok

instance decidableAnswered (s : Socket) (c : Call) : Decidable (c.Answered s) :=
  match c with
  | recv_header .. | recv_payload .. | send_message .. => inferInstanceAs (Decidable (_ = _))

def after (s : Socket) : Call → Socket
  | recv_header _ _ => (Chat.recv_header s).socket s
  | recv_payload _ m _ => (Chat.recv_payload m s).socket s
  | send_message _ m _ => (Chat.send_message m s).socket s

def Faults (s : Socket) : Call → Prop
  | recv_header _ _ => (Chat.recv_header s).faults
  | recv_payload _ m _ => (Chat.recv_payload m s).faults
  | send_message _ m _ => (Chat.send_message m s).faults

end Call

namespace Server

/-- The reason for a refusal: the handshake has failed, or its id is unknown. -/
def reason (s : Server) (t : Tid) : String :=
  if (s.listener t).client_id = 0 then incorrectKind else unknownId

/-- The call that an event makes. A descriptor that is not open has no socket. -/
def call (s : Server) : Event → Option Call
  | .handshake t m | .recv_header t m => some (.recv_header t m)
  | .recv_payload t m r => some (.recv_payload t m r)
  | .refuse t _ ok =>
    (s.socket (s.listener t).fd).map (.send_message · (refusalMessage (s.reason t)) ok)
  | .reply t ok =>
    (s.socket (s.listener t).fd).map (.send_message · (create_message_header 0 0 MESG_CONN) ok)
  | .catchUp t _ m ok =>
    if m.id = (s.listener t).client_id then none
    else (s.socket (s.listener t).fd).map (.send_message · m ok)
  | .send m _ _ _ fd _ ok => (s.socket fd).map (.send_message · m ok)
  | _ => none

/-- Where a listener receives. -/
def receivesAt : Event → Option (Tid × ListenerPc)
  | .handshake t _ => some (t, .handshake)
  | .recv_header t _ => some (t, .receive)
  | .recv_payload t m _ => some (t, .payload m)
  | _ => none

/-- When a thread can take an action, whatever is received. -/
def stands (s : Server) (e : Event) : Option (Tid × ListenerPc) → Prop
  | some (t, pc) => (s.listener t).pc = pc
  | none => s.enabled e

instance decidableStands (s : Server) (e : Event) (place : Option (Tid × ListenerPc)) :
    Decidable (s.stands e place) :=
  match place with
  | some _ => inferInstanceAs (Decidable (_ = _))
  | none => inferInstanceAs (Decidable (s.enabled e))

end Server

/-! ## The system -/

/-- The server, and for each connection the socket: the bytes that the client is still to send,
those written to it, and the answers of the kernel to come. -/
structure Host where
  server : Server
  sock : Tid → Socket

namespace Host

def enabled (x : Host) (e : Event) : Prop :=
  x.server.stands e (Server.receivesAt e) ∧ ∀ c ∈ x.server.call e, c.Answered (x.sock c.tid)

instance decidableEnabled (x : Host) (e : Event) : Decidable (x.enabled e) :=
  inferInstanceAs (Decidable (_ ∧ _))

def next (x : Host) (e : Event) : Host where
  server := x.server.next e
  sock :=
    match x.server.call e with
    | none => x.sock
    | some c => Function.update x.sock c.tid (c.after (x.sock c.tid))

end Host

/-- The server started with the given client ids, on the given sockets. -/
def host (client_ids : List UInt16) (sock : Tid → Socket) : TransitionSystem Host Event where
  init := ⟨.init client_ids, sock⟩
  enabled x e := x.server.crashed = false ∧ x.enabled e
  next := Host.next

instance (client_ids : List UInt16) (sock : Tid → Socket) (x : Host) (e : Event) :
    Decidable ((host client_ids sock).enabled x e) :=
  inferInstanceAs (Decidable (_ ∧ _))

/-! ## What the calls return -/

section results

variable {s : Socket} {m : Message}

theorem recv_header_of_result {r : Option Message} (h : headerResult s = some r) :
    recv_header s = .ret r ((recv_header s).socket s) := by
  unfold headerResult at h
  split at h
  · next heq =>
    obtain rfl := Option.some.inj h
    rw [heq]
    rfl
  all_goals cases h

theorem send_message_of_result {ok : Bool} (h : sendResult m s = some ok) :
    (∃ ret, send_message m s = .ret ret ((send_message m s).socket s) ∧ ok = decide (ret = 0)) ∨
      (∃ f, send_message m s = .fault f) ∧ ok = false := by
  unfold sendResult at h
  split at h
  · next ret s' heq =>
    obtain rfl := Option.some.inj h
    rw [heq]
    exact .inl ⟨ret, rfl, rfl⟩
  · cases h
  · next f heq =>
    obtain rfl := Option.some.inj h
    exact .inr ⟨⟨f, heq⟩, rfl⟩

theorem recv_payload_of_result {r : Option Message} (h : payloadResult m s = some r) :
    (∃ ret m', recv_payload m s = .ret (ret, m') ((recv_payload m s).socket s) ∧
      r = if ret ≠ 0 then none else some m') ∨
      (∃ f, recv_payload m s = .fault f) ∧ r = some { m with payload := some [] } := by
  unfold payloadResult at h
  split at h
  · next ret m' s' heq =>
    obtain rfl := Option.some.inj h
    rw [heq]
    exact .inl ⟨ret, m', rfl, rfl⟩
  · cases h
  · next f heq =>
    obtain rfl := Option.some.inj h
    exact .inr ⟨⟨f, heq⟩, rfl⟩

theorem payload_of_result {r : Option Message} (h : headerResult s = some r) :
    r.bind (·.payload) = none := by
  cases r with
  | none => rfl
  | some m => exact recv_header_ret (recv_header_of_result h)

/-- What `recv_payload` makes of a header is what the server may receive for it. -/
theorem receivedAs_of_result {r : Option Message} (h : payloadResult m s = some r) :
    ∀ m' ∈ r, m.ReceivedAs m' := by
  rintro m' rfl
  obtain ⟨ret, m'', hrun, hr⟩ | ⟨⟨f, hfault⟩, hr⟩ := recv_payload_of_result h
  · by_cases hret : ret ≠ 0
    · rw [if_pos hret] at hr
      cases hr
    rw [if_neg hret] at hr
    obtain rfl := Option.some.inj hr
    obtain ⟨inp, -, hok⟩ := recv_payload_took hrun
    obtain ⟨hpos, hlen, rfl⟩ := hok (not_not.mp hret)
    have hclip := toNat_clip m.length
    refine ⟨rfl, rfl, rfl, ?_⟩
    change some ((inp.take (min m.length.toNat 2040 - 1) ++ [0]).length) =
      some (clip m.length).toNat
    rw [hclip, List.length_append, List.length_take, hlen, List.length_singleton]
    unfold Message.awaited
    congr 1
    split <;> omega
  · obtain rfl := Option.some.inj hr
    have hlength : m.length = 0 := by
      by_contra hne
      exact recv_payload_no_fault hne s f hfault
    rw [Message.ReceivedAs, hlength]
    exact ⟨rfl, rfl, rfl, rfl⟩

end results

/-! ## The messages in the server -/

/-- Every message on its way through the server is one that a listener can queue. -/
theorem Server.queued_of_reach {client_ids : List UInt16} {G : Server → Event → Prop} {s : Server}
    (h : (server client_ids).Reach G s) : ∀ m ∈ s.pipeline, Queued m := by
  refine h.invariant (I := fun s => ∀ m ∈ s.pipeline, Queued m) (by rintro m ⟨⟩) ?_
  intro s e hi he _ m hm
  replace he : s.enabled e := And.right he
  change m ∈ (s.next e).pipeline at hm
  rw [Server.pipeline_next he] at hm
  obtain hm | hm := List.mem_append.mp hm
  · exact hi m hm
  obtain ⟨⟨t, m⟩, hm, rfl⟩ := List.mem_map.mp hm
  change Queued m
  cases e with
  | announce =>
    cases List.mem_singleton.mp hm
    exact .of_header rfl (show MESG_CONN ≠ MESG_DATA by decide)
  | recv_header t' m₀ =>
    cases m₀ with
    | none => cases hm
    | some m₀ =>
      rw [Server.enqueues] at hm
      split at hm
      · next hkind =>
        cases List.mem_singleton.mp hm
        exact .of_header he.2 (by rw [hkind]; decide)
      · cases hm
  | recv_payload t' m₀ r =>
    cases r with
    | none => cases hm
    | some m' =>
      rw [Server.enqueues] at hm
      split at hm
      · cases hm
      · next hlength =>
        cases List.mem_singleton.mp hm
        obtain ⟨-, -, hlen, hpayload⟩ := he.2 _ rfl
        have hpos : m₀.length.toNat ≠ 0 := fun h => hlength (UInt32.toNat_inj.mp h)
        have hclip := toNat_clip m₀.length
        rw [← hlen] at hclip
        refine ⟨fun b hb => ?_, fun _ => ⟨by omega, by omega, ?_⟩⟩
        · rw [hb] at hpayload
          exact Option.some.inj hpayload
        · rw [← Option.isSome_map (f := List.length), hpayload]
          rfl
  | _ => cases hm

theorem Server.queued_of_log {client_ids : List UInt16} {G : Server → Event → Prop} {s : Server}
    (h : (server client_ids).Reach G s) {i : Nat} {m : Message} (hm : s.log[i]? = some m) :
    Queued m := by
  refine queued_of_reach h m ?_
  rw [pipeline, List.append_assoc]
  exact List.mem_append_left _ (List.mem_of_getElem? hm)

/-! ## What a frame carries -/

/-- The message that a frame written to a connection carries. -/
inductive Frame.Carries (log : List Message) : Frame → Message → Prop
  | accepted : Carries log (.reply MESG_CONN) (create_message_header 0 0 MESG_CONN)
  | refused {estr : String} :
      estr ∈ refusals → Carries log (.reply MESG_DCON) (refusalMessage estr)
  | entry {i : Nat} {m : Message} : log[i]? = some m → Carries log (.entry i) m

/-- The bytes `out` are what the sends `w` leave on a stream. -/
inductive Wrote (log : List Message) : List Sent → List UInt8 → Prop
  | nil : Wrote log [] []
  | send {w : List Sent} {out out' : List UInt8} {x : Sent} {m : Message} :
      Wrote log w out → x.frame.Carries log m → m.Leaves x.ok out' →
        Wrote log (w ++ [x]) (out ++ out')

theorem Frame.Carries.append {log : List Message} {frame : Frame} {m : Message}
    (h : frame.Carries log m) (more : List Message) : frame.Carries (log ++ more) m := by
  cases h with
  | accepted => exact .accepted
  | refused hestr => exact .refused hestr
  | entry hm =>
    exact .entry (by rw [List.getElem?_append_left (List.getElem?_eq_some_iff.mp hm).1, hm])

theorem Wrote.append {log : List Message} {w : List Sent} {out : List UInt8} (h : Wrote log w out)
    (more : List Message) : Wrote (log ++ more) w out := by
  induction h with
  | nil => exact .nil
  | send _ hcarries hleaves ih => exact ih.send (hcarries.append more) hleaves

theorem queued_refusal {estr : String} (h : estr ∈ refusals) : Queued (refusalMessage estr) where
  payloadOk := by
    rintro _ ⟨⟩
    rw [(length_refusalMessage h).1, List.length_append, List.length_singleton]
  data hkind := absurd hkind (show MESG_DCON ≠ MESG_DATA by decide)

theorem marshals_refusal {estr : String} (h : estr ∈ refusals) :
    (refusalMessage estr).Marshals := by
  have := length_refusalMessage h
  unfold Message.Marshals
  omega

theorem Server.reason_mem (s : Server) (t : Tid) : s.reason t ∈ refusals := by
  unfold reason
  split
  · exact List.mem_cons_self
  · exact List.mem_cons_of_mem _ List.mem_cons_self

/-! ## The steps -/

/-- The event reads through a NULL pointer: `free_message(NULL)`, or `m->kind` of a NULL header. -/
def Event.dereferencesNull : Event → Prop
  | .free_message _ received => received = false
  | .recv_header _ m => m = none
  | _ => False

namespace Server

variable {s : Server} {e : Event}

/-- The event writes outside a block, in the marshaller or at the end of an empty payload. -/
def LeavesBlock (s : Server) : Event → Prop
  | .catchUp t _ m _ => m.id ≠ (s.listener t).client_id ∧ ¬m.Marshals
  | .send m _ _ _ _ _ _ => ¬m.Marshals
  | .recv_payload _ m (some _) => m.length = 0
  | _ => False

/-- Which steps crash the server. -/
theorem crashed_next (hs : s.crashed = false) :
    (s.next e).crashed = true ↔ e.dereferencesNull ∨ s.LeavesBlock e := by
  cases e with
  | handshake t m =>
    cases m with
    | none => simp [next, goto, hs, Event.dereferencesNull, LeavesBlock]
    | some m => rw [next]; split <;> simp [goto, hs, Event.dereferencesNull, LeavesBlock]
  | client_hash_get t =>
    rw [next]; split <;> simp [goto, hs, Event.dereferencesNull, LeavesBlock]
  | free_message t received =>
    cases received <;> simp [next, goto, crash, hs, Event.dereferencesNull, LeavesBlock]
  | catchUp t cursor m ok =>
    rw [next]
    split_ifs <;>
      simp_all [goto, crash, unlockLog, transmit_crashed, Event.dereferencesNull, LeavesBlock]
  | recv_header t m =>
    cases m with
    | none => simp [next, crash, Event.dereferencesNull]
    | some m =>
      rw [next]
      split_ifs <;> simp [goto, jobqueue_enqueue, hs, Event.dereferencesNull, LeavesBlock]
  | recv_payload t m r =>
    cases r with
    | none => simp [next, goto, hs, Event.dereferencesNull, LeavesBlock]
    | some m' =>
      rw [next]
      split_ifs <;>
        simp_all [goto, crash, jobqueue_enqueue, Event.dereferencesNull, LeavesBlock]
  | visit m q c rest =>
    rw [next]; split_ifs <;> simp [setMark, hs, Event.dereferencesNull, LeavesBlock]
  | send m q c rest fd fds ok =>
    rw [next]; split_ifs <;> simp_all [crash, transmit_crashed, Event.dereferencesNull, LeavesBlock]
  | _ =>
    simp [next, goto, jobqueue_enqueue, setMark, setFds, unlockLog, transmit_crashed, hs,
      Event.dereferencesNull, LeavesBlock]

/-- Which calls write, and what. -/
theorem call_cases (hwf : Wf s) (he : s.enabled e) :
    (∃ t m ok frame, s.call e = some (.send_message t m ok) ∧ frame.Carries s.log m ∧
      ∀ t', s.writes t' e = if t = t' ∧ m.Marshals then [⟨frame, ok⟩] else []) ∨
    (∀ t', s.writes t' e = []) ∧
      ∀ c ∈ s.call e, (∃ t m, c = .recv_header t m) ∨ ∃ t m r, c = .recv_payload t m r := by
  have hsock : ∀ {t pc}, (s.listener t).pc = pc → pc.live →
      s.socket (s.listener t).fd = some t := fun hpc hlive => hwf.socket (hpc ▸ hlive)
  cases e with
  | handshake t m | recv_header t m =>
    exact .inr ⟨fun _ => rfl, fun c hc => .inl ⟨t, m, (Option.some.inj hc).symm⟩⟩
  | recv_payload t m r =>
    exact .inr ⟨fun _ => rfl, fun c hc => .inr ⟨t, m, r, (Option.some.inj hc).symm⟩⟩
  | refuse t received ok =>
    have hestr := s.reason_mem t
    refine .inl ⟨t, _, ok, _, by rw [call, hsock he.1 rfl]; rfl, .refused hestr, fun t' => ?_⟩
    have hsize := marshals_refusal hestr
    rw [writes]
    simp only [hsize, and_true]
  | reply t ok =>
    refine .inl ⟨t, _, ok, _, by rw [call, hsock he.1 rfl]; rfl, .accepted, fun t' => ?_⟩
    have hsize : (create_message_header 0 0 MESG_CONN).Marshals := by decide
    rw [writes]
    simp only [hsize, and_true]
  | catchUp t cursor m ok =>
    by_cases hown : m.id = (s.listener t).client_id
    · refine .inr ⟨fun t' => ?_, fun c hc => ?_⟩
      · rw [writes, if_neg fun h => h.2.1 hown]
      · rw [call, if_pos hown] at hc
        cases hc
    · refine .inl ⟨t, m, ok, .entry cursor, ?_, .entry he.2.1, fun t' => ?_⟩
      · rw [call, if_neg hown, hsock he.1 rfl]
        rfl
      · rw [writes]
        simp only [ne_eq, hown, not_false_eq_true, true_and]
  | send m q c rest fd fds ok =>
    obtain ⟨hpc, -⟩ := he
    obtain ⟨⟨-, hlog⟩, -, -, hfds⟩ : s.SenderOk (.fanOut m q c rest (fd :: fds)) :=
      hpc ▸ hwf.sender
    obtain ⟨t, hfd, -, -⟩ := hwf.socket_of_mem (hfds.mem List.mem_cons_self)
    refine .inl ⟨t, m, ok, .entry q, by rw [call, hfd]; rfl, .entry hlog, fun t' => ?_⟩
    rw [writes, hfd]
    simp only [Option.some.injEq]
  | _ =>
    refine .inr ⟨fun _ => rfl, ?_⟩
    rintro c ⟨⟩

end Server

/-! ## The refinement -/

namespace Host

variable {x : Host} {e : Event}

theorem enabled_server (h : x.enabled e) : x.server.enabled e := by
  obtain ⟨hstands, hcall⟩ := h
  cases e with
  | handshake t m => exact ⟨hstands, payload_of_result (hcall _ rfl)⟩
  | recv_header t m => exact ⟨hstands, payload_of_result (hcall _ rfl)⟩
  | recv_payload t m r => exact ⟨hstands, receivedAs_of_result (hcall _ rfl)⟩
  | _ => exact hstands

theorem sock_next_of_none (h : x.server.call e = none) : (x.next e).sock = x.sock := by
  rw [next, h]

theorem sock_next_of_some {c : Call} (h : x.server.call e = some c) :
    (x.next e).sock = Function.update x.sock c.tid (c.after (x.sock c.tid)) := by
  rw [next, h]

/-- A call that receives does not write. -/
theorem output_recv (c : Call) (s : Socket)
    (hc : (∃ t m, c = .recv_header t m) ∨ ∃ t m r, c = .recv_payload t m r) :
    (c.after s).output = s.output := by
  obtain ⟨t, m, rfl⟩ | ⟨t, m, r, rfl⟩ := hc
  · change ((recv_header s).socket s).output = _
    cases hrun : recv_header s with
    | ret r s' =>
      obtain ⟨inp, htook, -⟩ := recv_header_took hrun
      exact htook.output
    | waiting | fault => rfl
  · change ((recv_payload m s).socket s).output = _
    cases hrun : recv_payload m s with
    | ret r s' =>
      obtain ⟨inp, htook, -⟩ := recv_payload_took hrun
      exact htook.output
    | waiting | fault => rfl

theorem output_next_of_recv
    (hc : ∀ c ∈ x.server.call e, (∃ t m, c = .recv_header t m) ∨ ∃ t m r, c = .recv_payload t m r)
    (t : Tid) : ((x.next e).sock t).output = (x.sock t).output := by
  cases hcall : x.server.call e with
  | none => rw [sock_next_of_none hcall]
  | some c =>
    rw [sock_next_of_some hcall]
    by_cases ht : t = c.tid
    · subst ht
      rw [Function.update_self, output_recv c _ (hc c hcall)]
    · rw [Function.update_of_ne ht]

/-- What a call that sends does to the socket. -/
theorem after_send {t : Tid} {m : Message} {ok : Bool} {s : Socket} (hm : m.PayloadOk)
    (h : (Call.send_message t m ok).Answered s) :
    ((Call.send_message t m ok).after s).input = s.input ∧
      ∃ out, ((Call.send_message t m ok).after s).output = s.output ++ out ∧
        if m.Marshals then m.Leaves ok out else out = [] := by
  obtain ⟨ret, hrun, rfl⟩ | ⟨⟨f, hfault⟩, rfl⟩ := send_message_of_result h
  · by_cases hsize : m.Marshals
    · obtain ⟨hinput, out, hout, hleaves⟩ := send_message_ret hsize hm hrun
      exact ⟨hinput, out, hout, by rwa [if_pos hsize]⟩
    · obtain ⟨f, hf⟩ := send_message_fault hsize
      rw [hf] at hrun
      cases hrun
  · by_cases hsize : m.Marshals
    · exact absurd hfault (send_message_no_fault hsize hm s f)
    · have hafter : (Call.send_message t m false).after s = s := by
        rw [Call.after, hfault]
        rfl
      rw [hafter]
      exact ⟨rfl, [], (List.append_nil _).symm, by rw [if_neg hsize]⟩

/-- A step leaves on the stream of a connection what it is said to send on it. -/
theorem wrote_next (hwf : Server.Wf x.server)
    (hqueued : ∀ (i : Nat) (m : Message), x.server.log[i]? = some m → Queued m)
    (he : x.enabled e) {t : Tid} {pre out : List UInt8}
    (hout : (x.sock t).output = pre ++ out) (hw : Wrote x.server.log (x.server.wire t) out) :
    ∃ out', ((x.next e).sock t).output = pre ++ out' ∧
      Wrote (x.next e).server.log ((x.next e).server.wire t) out' := by
  have hserver := enabled_server he
  change ∃ out', _ ∧ Wrote (x.server.next e).log ((x.server.next e).wire t) out'
  rw [Server.log_next, Server.wire_next hwf hserver]
  obtain ⟨t', m, ok, frame, hcall, hcarries, hwrites⟩ | ⟨hwrites, hcall⟩ :=
    Server.call_cases hwf hserver
  · have hm : m.PayloadOk := by
      cases hcarries with
      | accepted => exact Message.payloadOk_of_none rfl
      | refused hestr => exact (queued_refusal hestr).payloadOk
      | entry hlog => exact (hqueued _ _ hlog).payloadOk
    obtain ⟨-, out', hout', hleaves⟩ := after_send hm (he.2 _ hcall)
    rw [sock_next_of_some hcall, hwrites]
    by_cases ht : t = t'
    · subst ht
      change ∃ out'', (Function.update x.sock t _ t).output = _ ∧ _
      rw [Function.update_self]
      refine ⟨out ++ out', by rw [← List.append_assoc, ← hout]; exact hout', ?_⟩
      by_cases hsize : m.Marshals
      · rw [if_pos hsize] at hleaves
        rw [if_pos ⟨rfl, hsize⟩]
        exact (hw.append _).send (hcarries.append _) hleaves
      · rw [if_neg hsize] at hleaves
        rw [if_neg fun h => hsize h.2, hleaves, List.append_nil, List.append_nil]
        exact hw.append _
    · rw [if_neg fun h => ht h.1.symm, List.append_nil]
      change ∃ out'', (Function.update x.sock t' _ t).output = _ ∧ _
      rw [Function.update_of_ne ht]
      exact ⟨out, hout, hw.append _⟩
  · rw [hwrites, List.append_nil]
    exact ⟨out, (output_next_of_recv hcall t).trans hout, hw.append _⟩

/-- The calls of a step fault exactly where the server is said to leave a block. -/
theorem faults_iff (hwf : Server.Wf x.server)
    (hqueued : ∀ (i : Nat) (m : Message), x.server.log[i]? = some m → Queued m)
    (he : x.enabled e) :
    (∃ c ∈ x.server.call e, c.Faults (x.sock c.tid)) ↔ x.server.LeavesBlock e := by
  have hsend : ∀ {t m ok}, m.PayloadOk →
      ((Call.send_message t m ok).Faults (x.sock t) ↔ ¬m.Marshals) := by
    intro t m ok hm
    constructor
    · intro hfault hsize
      change (send_message m (x.sock t)).faults = true at hfault
      cases hrun : send_message m (x.sock t) with
      | fault f => exact send_message_no_fault hsize hm _ f hrun
      | ret | waiting =>
        rw [hrun] at hfault
        cases hfault
    · intro hsize
      obtain ⟨f, hf⟩ := send_message_fault hsize
      change (send_message m (x.sock t)).faults = true
      rw [hf]
      rfl
  have hsock : ∀ {t pc}, (x.server.listener t).pc = pc → pc.live →
      x.server.socket (x.server.listener t).fd = some t := fun hpc hlive => hwf.socket (hpc ▸ hlive)
  have hsingle : ∀ {c : Call}, x.server.call e = some c →
      ((∃ c ∈ x.server.call e, c.Faults (x.sock c.tid)) ↔ c.Faults (x.sock c.tid)) := by
    intro c hc
    rw [hc]
    simp
  have hserver := enabled_server he
  cases e with
  | handshake t m | recv_header t m =>
    rw [hsingle rfl]
    refine iff_of_false ?_ id
    change ¬(recv_header (x.sock t)).faults = true
    cases hrun : recv_header (x.sock t) with
    | fault f => exact absurd hrun (recv_header_no_fault _ f)
    | ret | waiting => exact Bool.false_ne_true
  | recv_payload t m r =>
    rw [hsingle rfl]
    change (recv_payload m (x.sock t)).faults = true ↔ _
    have hanswer : payloadResult m (x.sock t) = some r := he.2 _ rfl
    by_cases hlength : m.length = 0
    · have hrun := recv_payload_fault hlength (x.sock t)
      rw [payloadResult, hrun] at hanswer
      cases hanswer
      rw [hrun]
      exact iff_of_true rfl hlength
    · refine iff_of_false ?_ ?_
      · cases hrun : recv_payload m (x.sock t) with
        | fault f => exact absurd hrun (recv_payload_no_fault hlength _ f)
        | ret | waiting => exact Bool.false_ne_true
      · cases r with
        | none => exact id
        | some m' => exact hlength
  | refuse t received ok =>
    rw [hsingle (by rw [Server.call, hsock hserver.1 rfl]; rfl)]
    have hestr := x.server.reason_mem t
    rw [show (Call.send_message t _ ok).tid = t from rfl, hsend (queued_refusal hestr).payloadOk]
    exact iff_of_false (not_not.mpr (marshals_refusal hestr)) id
  | reply t ok =>
    rw [hsingle (by rw [Server.call, hsock hserver.1 rfl]; rfl)]
    rw [show (Call.send_message t _ ok).tid = t from rfl, hsend (Message.payloadOk_of_none rfl)]
    exact iff_of_false (not_not.mpr (by decide)) id
  | catchUp t cursor m ok =>
    by_cases hown : m.id = (x.server.listener t).client_id
    · refine iff_of_false ?_ fun h => h.1 hown
      rw [Server.call, if_pos hown]
      rintro ⟨c, ⟨⟩, -⟩
    · rw [hsingle (by rw [Server.call, if_neg hown, hsock hserver.1 rfl]; rfl)]
      rw [show (Call.send_message t _ ok).tid = t from rfl,
        hsend (hqueued _ _ hserver.2.1).payloadOk]
      exact ⟨fun h => ⟨hown, h⟩, fun h => h.2⟩
  | send m q c rest fd fds ok =>
    obtain ⟨hpc, -⟩ := hserver
    obtain ⟨⟨-, hlog⟩, -, -, hfds⟩ : x.server.SenderOk (.fanOut m q c rest (fd :: fds)) :=
      hpc ▸ hwf.sender
    obtain ⟨t, hfd, -, -⟩ := hwf.socket_of_mem (hfds.mem List.mem_cons_self)
    rw [hsingle (by rw [Server.call, hfd]; rfl)]
    rw [show (Call.send_message t _ ok).tid = t from rfl, hsend (hqueued _ _ hlog).payloadOk]
    exact Iff.rfl
  | _ =>
    refine iff_of_false ?_ id
    rintro ⟨c, ⟨⟩, -⟩

end Host

/-- The steps of a host as the server makes them. -/
def Host.project (h : List (Host × Event)) : History := h.map fun y => (y.1.server, y.2)

/-- What a run of the host is to the server. -/
structure Host.Refines (client_ids : List UInt16) (sock : Tid → Socket) (h : List (Host × Event))
    (x : Host) : Prop where
  run : (Chat.server client_ids).Run (fun _ _ => True) (Host.project h) x.server
  wrote : ∀ t, ∃ out, (x.sock t).output = (sock t).output ++ out ∧
    Wrote x.server.log (x.server.wire t) out
  crashes : ∀ y ∈ h, (y.1.server.next y.2).crashed = true ↔
    y.2.dereferencesNull ∨ ∃ c ∈ y.1.server.call y.2, c.Faults (y.1.sock c.tid)

theorem refines_of_run {client_ids : List UInt16} {sock : Tid → Socket} {h : List (Host × Event)}
    {x : Host} {G : Host → Event → Prop} (hr : (host client_ids sock).Run G h x) :
    Host.Refines client_ids sock h x := by
  refine hr.invariant (I := Host.Refines client_ids sock) ?_ ?_
  · exact ⟨.init, fun t => ⟨[], (List.append_nil _).symm, .nil⟩, by rintro y ⟨⟩⟩
  rintro h x e - ⟨hrun, hwrote, hcrashes⟩ ⟨hcrashed, he⟩ -
  have hwf := Server.wf_of_reach hrun.reach
  have hqueued : ∀ (i : Nat) (m : Message), x.server.log[i]? = some m → Queued m :=
    fun i m hm => Server.queued_of_log hrun.reach hm
  refine ⟨?_, fun t => ?_, fun y hy => ?_⟩
  · have hstep := hrun.step (a := e) ⟨hcrashed, Host.enabled_server he⟩ trivial
    rw [Host.project, List.map_append]
    exact hstep
  · obtain ⟨out, hout, hw⟩ := hwrote t
    exact Host.wrote_next hwf hqueued he hout hw
  · obtain hy | hy := List.mem_append.mp hy
    · exact hcrashes y hy
    · obtain rfl := List.mem_singleton.mp hy
      rw [Server.crashed_next hcrashed, Host.faults_iff hwf hqueued he]

/-- **The host refines the server**, for any bytes that clients send and any answers of the
kernel. -/
theorem host_refines {client_ids : List UInt16} {sock : Tid → Socket} {h : List (Host × Event)}
    {x : Host} (hr : (host client_ids sock).Run (fun _ _ => True) h x) :
    Host.Refines client_ids sock h x :=
  refines_of_run hr

/-! ### A run -/

/-- On connection 0 the client 1 says hi, on the others come in handshakes of client 2. -/
def chatSockets (t : Tid) : Socket where
  input := frames (if t = 0 then clientMessages 1 [104, 105, 10] else clientMessages 2 [])
  output := []
  sched := List.replicate 40 (.moves 99)

/-- Clients 1 and 2 connect, and what client 1 says is delivered to client 2. -/
def chatting : List Event :=
  let conn id := create_message_header 0 id MESG_CONN
  let hi : Message := ⟨1, MESG_DATA, 3, some [104, 105, 0]⟩
  connecting 0 4 1 ++ [.fast_forward 0, .storeMark 0, .client_hash_add_connection 0] ++
  connecting 1 5 2 ++ [.fast_forward 1, .storeMark 1, .client_hash_add_connection 1,
    .recv_header 0 (some { hi with payload := none }),
    .recv_payload 0 { hi with payload := none } (some hi)] ++
  appending (conn 1) 0 [conn 2, hi] ++
    [.visit (conn 1) 0 1 [2]] ++ delivering (conn 1) 0 2 [] 5 ++ [.unlockClients (conn 1) 0] ++
  appending (conn 2) 1 [hi] ++
    delivering (conn 2) 1 1 [2] 4 ++ [.visit (conn 2) 1 2 [], .unlockClients (conn 2) 1] ++
  appending hi 2 [] ++ [.visit hi 2 1 [2]] ++ delivering hi 2 2 [] 5

/-- The log after this run. -/
def chatLog : List Message :=
  [create_message_header 0 1 MESG_CONN, create_message_header 0 2 MESG_CONN,
    ⟨1, MESG_DATA, 3, some [104, 105, 0]⟩]

theorem exists_chatting : ∃ h x, (host [1, 2] chatSockets).Run (fun _ _ => True) h x ∧
    x.server.wire 1 = [⟨.reply MESG_CONN, true⟩, ⟨.entry 0, true⟩, ⟨.entry 2, true⟩] ∧
      x.server.log = chatLog := by
  have hrun : ((host [1, 2] chatSockets).exec (fun _ _ => True) (host [1, 2] chatSockets).init
      chatting).any (fun x => x.server.wire 1 =
        [⟨.reply MESG_CONN, true⟩, ⟨.entry 0, true⟩, ⟨.entry 2, true⟩] ∧
          x.server.log = chatLog) = true := by
    decide +kernel
  obtain ⟨h, x, hr, hw⟩ := TransitionSystem.exists_run_of_exec (p := fun _ (x : Host) =>
    x.server.wire 1 = [⟨.reply MESG_CONN, true⟩, ⟨.entry 0, true⟩, ⟨.entry 2, true⟩] ∧
      x.server.log = chatLog) hrun
  exact ⟨h, x, hr, of_decide_eq_true hw⟩

theorem host_refines_chatting : ∃ h x, (host [1, 2] chatSockets).Run (fun _ _ => True) h x ∧
    Host.Refines [1, 2] chatSockets h x := by
  obtain ⟨h, x, hr, -, -⟩ := exists_chatting
  exact ⟨h, x, hr, host_refines hr⟩

end Cs2510.Chat
