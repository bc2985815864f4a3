import Cs2510.Lib.Run
import Cs2510.Chat.ServerStep

/-!
# What a listener does

`Moves` lists the ways a listener goes from one program point to the next, `enqueues` is what a
step puts on the send queue and `writes` what it writes to a connection. With `moves_next`,
`pipeline_next` and `wire_next` the properties of a listener's whole life are derived from these
three, without unfolding `next` again.
-/

namespace Cs2510.Chat

/-- The listener whose action an event is. -/
def Event.listener : Event → Option Tid
  | .accept t _ | .handshake t _ | .client_hash_get t | .refuse t _ _ | .free_message t _
  | .reply t _ | .announce t | .fast_forward t | .catchUp t _ _ _ | .storeMark t
  | .client_hash_add_connection t | .recv_header t _ | .recv_payload t _ _
  | .client_hash_remove_connection t | .close t => some t
  | .jobqueue_dequeue .. | .message_log_append .. | .lockClients .. | .visit .. | .send ..
  | .mark .. | .unlockClients .. => none

/-- The message the sender has dequeued and not yet appended. -/
def SenderPc.held : SenderPc → List Message
  | .append m => [m]
  | _ => []

namespace Server

/-- The steps of listener `t`, from one program point to the next. Those of the last four crash the
server. -/
inductive Moves (s : Server) (t : Tid) : Event → ListenerPc → ListenerPc → Prop
  | accept (fd : Fd) : Moves s t (.accept t fd) .unborn .handshake
  | no_handshake : Moves s t (.handshake t none) .handshake (.refuse false)
  | bad_handshake {m : Message} : m.kind ≠ MESG_CONN ∨ m.id = 0 →
      Moves s t (.handshake t (some m)) .handshake (.refuse true)
  | handshake {m : Message} : m.kind = MESG_CONN → m.id ≠ 0 →
      Moves s t (.handshake t (some m)) .handshake .lookup
  | unknown : (s.listener t).client_id ∉ s.clients →
      Moves s t (.client_hash_get t) .lookup (.refuse true)
  | known : (s.listener t).client_id ∈ s.clients → Moves s t (.client_hash_get t) .lookup .reply
  | refuse (received ok : Bool) :
      Moves s t (.refuse t received ok) (.refuse received) (.refused received)
  | free_message : Moves s t (.free_message t true) (.refused true) .closing
  | reply (ok : Bool) : Moves s t (.reply t ok) .reply .announce
  | announce : Moves s t (.announce t) .announce .fastForward
  | fast_forward : Moves s t (.fast_forward t) .fastForward
      (.catchUp (s.firstUnread (s.listener t).client_id))
  | skip {cursor : Nat} {m : Message} (ok : Bool) : m.id = (s.listener t).client_id →
      Moves s t (.catchUp t cursor m ok) (.catchUp (some cursor)) (.catchUp (s.nextNode cursor))
  | catchUp {cursor : Nat} {m : Message} : m.id ≠ (s.listener t).client_id → m.Marshals →
      Moves s t (.catchUp t cursor m true) (.catchUp (some cursor)) (.catchUp (s.nextNode cursor))
  | abandon {cursor : Nat} {m : Message} : m.id ≠ (s.listener t).client_id → m.Marshals →
      Moves s t (.catchUp t cursor m false) (.catchUp (some cursor)) .register
  | storeMark : Moves s t (.storeMark t) (.catchUp none) .register
  | register : Moves s t (.client_hash_add_connection t) .register .receive
  | leave {m : Message} : m.kind = MESG_DCON → Moves s t (.recv_header t (some m)) .receive .out
  | drop {m : Message} : m.kind = MESG_CONN →
      Moves s t (.recv_header t (some m)) .receive .receive
  | header {m : Message} : m.kind ≠ MESG_DCON → m.kind ≠ MESG_CONN →
      Moves s t (.recv_header t (some m)) .receive (.payload m)
  | payload {m m' : Message} : m.length ≠ 0 → m.ReceivedAs m' →
      Moves s t (.recv_payload t m (some m')) (.payload m) .receive
  | failed (m : Message) : Moves s t (.recv_payload t m none) (.payload m) .out
  | remove : Moves s t (.client_hash_remove_connection t) .out .closing
  | close : Moves s t (.close t) .closing .finished
  | null_handshake : Moves s t (.free_message t false) (.refused false) (.refused false)
  | oversized {cursor : Nat} {m : Message} (ok : Bool) : m.id ≠ (s.listener t).client_id →
      ¬m.Marshals → Moves s t (.catchUp t cursor m ok) (.catchUp (some cursor))
        (.catchUp (some cursor))
  | null_header : Moves s t (.recv_header t none) .receive .receive
  | empty_payload {m : Message} (m' : Message) : m.length = 0 →
      Moves s t (.recv_payload t m (some m')) (.payload m) (.payload m)

variable {s : Server} {e : Event} {t : Tid}

/-- A listener moves by its own steps only. -/
theorem listener_next_of_ne (ht : e.listener ≠ some t) :
    (s.next e).listener t = s.listener t := by
  have hupdate : ∀ {t' : Tid} {l : Listener}, some t' ≠ some t →
      Function.update s.listener t' l t = s.listener t := fun h =>
    Function.update_of_ne (fun h' => h (by rw [h'])) _ _
  have hgoto : ∀ {s' : Server} {t' : Tid} {pc : ListenerPc}, some t' ≠ some t →
      (s'.goto t' pc).listener t = s'.listener t := fun h => by
    rw [goto_listener, if_neg fun h' => h (by rw [h'])]
  cases hby : e.bySender with
  | true => rw [listener_next_of_bySender hby]
  | false =>
    unfold next
    split <;> cases hby <;> (try split_ifs) <;> first
      | rfl
      | exact hupdate ht
      | exact (hgoto ht).trans (by simp)

theorem next_goto_pc {s' : Server} {pc : ListenerPc} : ((s'.goto t pc).listener t).pc = pc := by
  rw [goto_listener, if_pos rfl]

theorem moves_next (he : s.enabled e) (ht : e.listener = some t) :
    s.Moves t e (s.listener t).pc ((s.next e).listener t).pc := by
  cases e with
  | accept t' fd =>
    cases ht
    obtain ⟨hpc, -⟩ := he
    rw [hpc]
    simpa [next] using .accept fd
  | handshake t' m =>
    cases ht
    obtain ⟨hpc, -⟩ := he
    rw [hpc]
    cases m with
    | none =>
      rw [next, next_goto_pc]
      exact .no_handshake
    | some m =>
      rw [next]
      split
      · next h =>
        rw [next_goto_pc]
        exact .bad_handshake h
      · next h =>
        obtain ⟨hkind, hid⟩ := not_or.mp h
        simpa using .handshake (not_not.mp hkind) hid
  | client_hash_get t' =>
    cases ht
    obtain ⟨hpc, -⟩ := he
    rw [hpc, next]
    split
    all_goals rw [next_goto_pc]
    · next h => exact .known h
    · next h => exact .unknown h
  | refuse t' received ok =>
    cases ht
    rw [he.1, next, next_goto_pc]
    exact .refuse received ok
  | free_message t' received =>
    cases ht
    rw [show (s.listener t).pc = .refused received from he]
    cases received with
    | false =>
      rw [show ((s.next (.free_message t false)).listener t).pc = .refused false from he]
      exact .null_handshake
    | true =>
      rw [next, if_pos rfl, next_goto_pc]
      exact .free_message
  | reply t' ok =>
    cases ht
    rw [he.1, next, next_goto_pc]
    exact .reply ok
  | announce t' =>
    cases ht
    rw [show (s.listener t).pc = .announce from he, next, next_goto_pc]
    exact .announce
  | fast_forward t' =>
    cases ht
    rw [show (s.listener t).pc = .fastForward from he]
    simpa [next] using .fast_forward
  | catchUp t' cursor m ok =>
    cases ht
    obtain ⟨hpc, -, -⟩ := he
    by_cases hown : m.id = (s.listener t).client_id
    · rw [hpc, next, if_pos hown, next_goto_pc]
      exact .skip ok hown
    by_cases hm : m.Marshals
    · rw [hpc]
      cases ok with
      | true =>
        rw [next, if_neg hown, if_neg (not_not.mpr hm), if_pos rfl, next_goto_pc]
        exact .catchUp hown hm
      | false =>
        rw [next, if_neg hown, if_neg (not_not.mpr hm), if_neg (by decide), next_goto_pc]
        exact .abandon hown hm
    · rw [next, if_neg hown, if_pos hm, crash, hpc]
      exact .oversized ok hown hm
  | storeMark t' =>
    cases ht
    rw [show (s.listener t).pc = .catchUp none from he, next, next_goto_pc]
    exact .storeMark
  | client_hash_add_connection t' =>
    cases ht
    rw [he.1]
    simpa [next, goto_listener] using .register
  | recv_header t' m =>
    cases ht
    obtain ⟨hpc, -⟩ := he
    cases m with
    | none =>
      rw [next, crash, hpc]
      exact .null_header
    | some m =>
      rw [next]
      split
      · next hkind =>
        rw [hpc, next_goto_pc]
        exact .leave hkind
      split
      · next hkind =>
        rw [hpc]
        exact .drop hkind
      · next hdcon hconn =>
        rw [hpc, next_goto_pc]
        exact .header hdcon hconn
  | recv_payload t' m r =>
    cases ht
    obtain ⟨hpc, hr⟩ := he
    cases r with
    | none =>
      rw [hpc, next, next_goto_pc]
      exact .failed m
    | some m' =>
      by_cases hlength : m.length = 0
      · rw [hpc, next, if_pos hlength, crash, hpc]
        exact .empty_payload m' hlength
      · rw [hpc, next, if_neg hlength, next_goto_pc]
        exact .payload hlength (hr m' rfl)
  | client_hash_remove_connection t' =>
    cases ht
    rw [he.1]
    simpa [next, goto_listener] using .remove
  | close t' =>
    cases ht
    rw [show (s.listener t).pc = .closing from he]
    simpa [next, goto_listener] using .close
  | _ => cases ht

/-! ## The send queue and the log -/

/-- What a step puts on the send queue, and which listener does. -/
def enqueues (s : Server) : Event → List (Tid × Message)
  | .announce t => [(t, create_message_header 0 (s.listener t).client_id MESG_CONN)]
  | .recv_header t (some m) => if m.kind = MESG_DCON then [(t, m)] else []
  | .recv_payload t m (some m') => if m.length = 0 then [] else [(t, m')]
  | _ => []

/-- The log, the message the sender holds and the queue: what has been enqueued. -/
def pipeline (s : Server) : List Message := s.log ++ s.sender.held ++ s.sendqueue

@[simp] theorem transmit_sendqueue (s : Server) (fd : Fd) (frame : Frame) (ok : Bool) :
    (s.transmit fd frame ok).sendqueue = s.sendqueue := by
  unfold transmit; split <;> rfl

theorem sendqueue_next (h : e.bySender = false) :
    (s.next e).sendqueue = s.sendqueue ++ (s.enqueues e).map Prod.snd := by
  have hkinds : MESG_CONN ≠ MESG_DCON := by decide
  unfold next
  split <;> cases h <;> (try split_ifs) <;>
    simp [goto, jobqueue_enqueue, setMark, setFds, unlockLog, crash, enqueues, *]

/-- A message passes through the queue and the sender's hands into the log, in order. -/
theorem pipeline_next (he : s.enabled e) :
    (s.next e).pipeline = s.pipeline ++ (s.enqueues e).map Prod.snd := by
  cases hby : e.bySender with
  | false =>
    have hlog : appended e = [] := by cases e <;> first | rfl | cases hby
    rw [pipeline, log_next, hlog, sender_next hby, sendqueue_next hby, pipeline]
    simp
  | true =>
    cases e with
    | jobqueue_dequeue m rest =>
      obtain ⟨hpc, hqueue⟩ := he
      simp [pipeline, next, hpc, hqueue, SenderPc.held, enqueues]
    | message_log_append m =>
      obtain ⟨hpc, -⟩ := he
      simp [pipeline, next, hpc, SenderPc.held, enqueues]
    | lockClients m q =>
      have hpc : s.sender = .lockClients m q := he
      simp [pipeline, next, hpc, SenderPc.held, enqueues]
    | visit m q c rest =>
      have hpc : s.sender = .visit m q (c :: rest) := he
      simp only [pipeline, next, hpc, SenderPc.held, enqueues]
      split_ifs <;> simp [setMark]
    | send m q c rest fd fds ok =>
      obtain ⟨hpc, -⟩ := he
      simp only [pipeline, next, hpc, SenderPc.held, enqueues]
      split_ifs <;> simp [crash, hpc]
    | mark m q c rest =>
      have hpc : s.sender = .fanOut m q c rest [] := he
      simp [pipeline, next, hpc, SenderPc.held, enqueues, setMark]
    | unlockClients m q =>
      have hpc : s.sender = .visit m q [] := he
      simp [pipeline, next, hpc, SenderPc.held, enqueues]
    | _ => cases hby

/-! ## What is written to a connection -/

theorem wire_transmit {fd : Fd} {t' : Tid} (hfd : s.socket fd = some t') (frame : Frame)
    (ok : Bool) (t : Tid) : (s.transmit fd frame ok).wire t =
      if t = t' then s.wire t ++ [⟨frame, ok⟩] else s.wire t := by
  unfold transmit
  rw [hfd]
  by_cases ht : t = t'
  · subst ht; simp
  · simp [ht]

/-- What a step writes to connection `t`. -/
def writes (s : Server) (t : Tid) : Event → List Sent
  | .refuse t' _ ok => if t' = t then [⟨.reply MESG_DCON, ok⟩] else []
  | .reply t' ok => if t' = t then [⟨.reply MESG_CONN, ok⟩] else []
  | .catchUp t' cursor m ok =>
    if t' = t ∧ m.id ≠ (s.listener t').client_id ∧ m.Marshals then [⟨.entry cursor, ok⟩] else []
  | .send m q _ _ fd _ ok =>
    if s.socket fd = some t ∧ m.Marshals then [⟨.entry q, ok⟩] else []
  | _ => []

theorem wire_next (h : Wf s) (he : s.enabled e) (t : Tid) :
    (s.next e).wire t = s.wire t ++ s.writes t e := by
  have hsock : ∀ {t' pc}, (s.listener t').pc = pc → pc.live →
      s.socket (s.listener t').fd = some t' := fun hpc hlive => h.socket (hpc ▸ hlive)
  have hwrite : ∀ {t' : Tid} (frame : Frame) (ok : Bool),
      s.socket (s.listener t').fd = some t' →
      (s.transmit (s.listener t').fd frame ok).wire t =
        s.wire t ++ if t' = t then [⟨frame, ok⟩] else [] := by
    intro t' frame ok hfd
    rw [wire_transmit hfd]
    by_cases ht : t = t'
    · rw [if_pos ht, if_pos ht.symm]
    · rw [if_neg ht, if_neg (Ne.symm ht), List.append_nil]
  rw [writes.eq_def]
  cases e with
  | handshake t' m => cases m <;> simp only [next] <;> [simp; (split <;> simp)]
  | client_hash_get t' => simp only [next]; split <;> simp
  | refuse t' received ok => exact hwrite _ ok (hsock he.1 rfl)
  | free_message t' received => simp only [next]; split <;> simp [crash]
  | reply t' ok => exact hwrite _ ok (hsock he.1 rfl)
  | catchUp t' cursor m ok =>
    have hw := hwrite (.entry cursor) ok (hsock he.1 rfl)
    by_cases hown : m.id = (s.listener t').client_id
    · simp [next, hown]
    by_cases hm : m.Marshals
    · cases ok <;> simpa [next, hown, hm, unlockLog] using hw
    · simp [next, hown, hm, crash]
  | recv_header t' m =>
    cases m with
    | none => simp [next, crash]
    | some m => simp only [next]; split <;> [simp [jobqueue_enqueue]; (split <;> simp)]
  | recv_payload t' m r =>
    cases r with
    | none => simp [next]
    | some m' => simp only [next]; split <;> simp [crash, jobqueue_enqueue]
  | visit m q c rest => simp only [next]; split <;> [simp; (split <;> simp [setMark])]
  | send m q c rest fd fds ok =>
    obtain ⟨hpc, -⟩ := he
    by_cases hm : m.Marshals
    swap
    · simp [next, hm, crash]
    obtain ⟨-, -, -, hfds⟩ : s.SenderOk (.fanOut m q c rest (fd :: fds)) := hpc ▸ h.sender
    obtain ⟨t', hfd, -, -⟩ := h.socket_of_mem (hfds.mem List.mem_cons_self)
    simp only [next, hm, not_true_eq_false, if_false, and_true]
    rw [wire_transmit hfd, hfd]
    by_cases ht : t = t'
    · rw [if_pos ht, if_pos (by rw [ht])]
    · rw [if_neg ht, if_neg (by simpa using Ne.symm ht), List.append_nil]
  | _ => simp [next, jobqueue_enqueue, setMark, unlockLog, setFds, goto]

/-- The sender writes to registered connections. -/
theorem registered_of_writes (h : Wf s) (he : s.enabled e) (hby : e.bySender)
    (hw : s.writes t e ≠ []) :
    (s.listener t).pc.registered ∧ ∃ i ok, s.writes t e = [⟨.entry i, ok⟩] := by
  cases e with
  | send m q c rest fd fds ok =>
    obtain ⟨hpc, -⟩ := he
    obtain ⟨-, -, -, hfds⟩ : s.SenderOk (.fanOut m q c rest (fd :: fds)) := hpc ▸ h.sender
    obtain ⟨t', hfd, -, hreg⟩ := h.socket_of_mem (hfds.mem List.mem_cons_self)
    rw [writes] at hw ⊢
    by_cases hcond : s.socket fd = some t ∧ m.Marshals
    · rw [if_pos hcond]
      rw [hfd] at hcond
      obtain rfl := Option.some.inj hcond.1
      exact ⟨hreg, q, ok, rfl⟩
    · rw [if_neg hcond] at hw
      exact absurd rfl hw
  | jobqueue_dequeue | message_log_append | lockClients | visit | mark | unlockClients =>
    exact absurd rfl hw
  | _ => cases hby

end Server

end Cs2510.Chat
