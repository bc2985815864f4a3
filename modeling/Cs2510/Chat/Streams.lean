import Cs2510.Chat.Descriptors

/-!
# From the listeners to the log

Each listener puts a stream of messages on the send queue: its client's announcement, the frames
it reads but the duplicate announcements, and the farewell last. The sender takes the messages
off in the order in which they were put on, so the log, the message in the sender's hands and the
queue are together an interleaving of the streams.
-/

namespace Cs2510.Chat

/-- The messages put on the send queue in a run, each with the listener that did. -/
def enqueued (h : History) : List (Tid × Message) := h.flatMap fun x => x.1.enqueues x.2

/-- The messages listener `t` has put on the send queue, in order. -/
def stream (h : History) (t : Tid) : List Message :=
  ((enqueued h).filter (·.1 = t)).map Prod.snd

/-- The frame listener `t` has read completely in a step: a header alone, or a header with its
payload. -/
def Event.frame (t : Tid) : Event → List Message
  | .handshake t' (some m) => if t' = t then [m] else []
  | .recv_header t' (some m) =>
    if t' = t ∧ (m.kind = MESG_DCON ∨ m.kind = MESG_CONN) then [m] else []
  | .recv_payload t' m (some m') => if t' = t ∧ m.length ≠ 0 then [m'] else []
  | _ => []

/-- The frames listener `t` has read from its socket, in order. -/
def framesRead (h : History) (t : Tid) : List Message := h.flatMap fun x => x.2.frame t

/-- The stream `st` is the announcement of the client that handshaked with the first of the frames
`fr`, followed by the others that are no `MESG_CONN`. -/
def Relays (fr st : List Message) : Prop :=
  ∃ first rest, fr = first :: rest ∧ first.kind = MESG_CONN ∧ first.id ≠ 0 ∧
    st = create_message_header 0 first.id MESG_CONN :: rest.filter (·.kind ≠ MESG_CONN)

theorem Relays.frame {fr st : List Message} {m : Message} (h : Relays fr st)
    (hm : m.kind ≠ MESG_CONN) : Relays (fr ++ [m]) (st ++ [m]) := by
  obtain ⟨first, rest, rfl, hkind, hid, rfl⟩ := h
  exact ⟨first, rest ++ [m], rfl, hkind, hid, by simp [hm]⟩

theorem Relays.drop {fr st : List Message} {m : Message} (h : Relays fr st)
    (hm : m.kind = MESG_CONN) : Relays (fr ++ [m]) st := by
  obtain ⟨first, rest, rfl, hkind, hid, rfl⟩ := h
  exact ⟨first, rest ++ [m], rfl, hkind, hid, by simp [hm]⟩

/-- The log, the message the sender holds and the queue are a fair copy of the streams. -/
structure Server.FairCopy (h : History) (s : Server) : Prop where
  interleaving : Interleaving (stream h) (s.log ++ s.sender.held ++ s.sendqueue)
  relays : ∀ t, stream h t = [] ∨ Relays (framesRead h t) (stream h t)
  dcon_last : ∀ t, ∀ m ∈ (stream h t).dropLast, m.kind ≠ MESG_DCON

namespace Server

variable {s : Server} {e : Event} {t : Tid} {h : History} {pc pc' : ListenerPc}

/-! ## The queue -/

theorem listener_of_enqueues {x : Tid × Message} (hx : x ∈ s.enqueues e) :
    e.listener = some x.1 := by
  unfold enqueues at hx
  split at hx
  · obtain rfl := List.mem_singleton.mp hx
    rfl
  · split at hx <;> [obtain rfl := List.mem_singleton.mp hx; cases hx]
    rfl
  · split at hx <;> [cases hx; obtain rfl := List.mem_singleton.mp hx]
    rfl
  · cases hx

theorem enqueued_append : enqueued (h ++ [(s, e)]) = enqueued h ++ s.enqueues e := by
  simp [enqueued]

theorem framesRead_append : framesRead (h ++ [(s, e)]) t = framesRead h t ++ e.frame t := by
  simp [framesRead]

theorem stream_append_of_ne (ht : e.listener ≠ some t) :
    stream (h ++ [(s, e)]) t = stream h t := by
  have hnil : (s.enqueues e).filter (·.1 = t) = [] := by
    rw [List.filter_eq_nil_iff]
    intro x hx hxt
    exact ht ((listener_of_enqueues hx).trans (congrArg some (of_decide_eq_true hxt)))
  rw [stream, enqueued_append, List.filter_append, hnil, List.append_nil, stream]

theorem stream_append (ht : e.listener = some t) :
    stream (h ++ [(s, e)]) t = stream h t ++ (s.enqueues e).map Prod.snd := by
  have hall : (s.enqueues e).filter (·.1 = t) = s.enqueues e := by
    rw [List.filter_eq_self]
    intro x hx
    have := (listener_of_enqueues hx).symm.trans ht
    simpa using this
  rw [stream, enqueued_append, List.filter_append, hall, List.map_append, stream]

theorem frame_of_ne (ht : e.listener ≠ some t) : e.frame t = [] := by
  unfold Event.frame
  split
  · exact if_neg fun h => ht (congrArg some h)
  · exact if_neg fun h => ht (congrArg some h.1)
  · exact if_neg fun h => ht (congrArg some h.1)
  · rfl

/-- What has been put on the queue is in the log, in the sender's hands or still on the queue. -/
theorem pipeline_of_run {client_ids : List UInt16} {G : Server → Event → Prop}
    (hr : (server client_ids).Run G h s) : (enqueued h).map Prod.snd = s.pipeline := by
  refine hr.invariant (I := fun h s => (enqueued h).map Prod.snd = s.pipeline) rfl ?_
  intro h s e _ hi he _
  change _ = (s.next e).pipeline
  rw [enqueued_append, List.map_append, hi, pipeline_next (And.right he)]

/-! ## The stream of a listener -/

/-- What a listener at `pc` whose client has the id `c` has read and queued. -/
def StreamOk (c : UInt16) (fr st : List Message) : ListenerPc → Prop
  | .unborn | .handshake => fr = [] ∧ st = []
  | .lookup | .reply | .announce =>
    st = [] ∧ ∃ m, fr = [m] ∧ m.kind = MESG_CONN ∧ m.id ≠ 0 ∧ m.id = c
  | .refuse _ | .refused _ => st = []
  | .fastForward | .catchUp _ | .register | .receive =>
    Relays fr st ∧ ∀ m ∈ st, m.kind ≠ MESG_DCON
  | .payload m =>
    (Relays fr st ∧ ∀ m ∈ st, m.kind ≠ MESG_DCON) ∧ m.kind ≠ MESG_DCON ∧ m.kind ≠ MESG_CONN
  | .out | .closing | .finished =>
    st = [] ∨ Relays fr st ∧ ∀ m ∈ st.dropLast, m.kind ≠ MESG_DCON

theorem no_dcon_append {st : List Message} {m : Message} (h : ∀ m ∈ st, m.kind ≠ MESG_DCON)
    (hm : m.kind ≠ MESG_DCON) : ∀ m' ∈ st ++ [m], m'.kind ≠ MESG_DCON := by
  intro m' hm'
  rcases List.mem_append.mp hm' with hm' | hm'
  · exact h m' hm'
  · obtain rfl := List.mem_singleton.mp hm'
    exact hm

/-- A step of the listener keeps its stream in order. -/
theorem StreamOk.moves {fr st : List Message} (h : StreamOk (s.listener t).client_id fr st pc)
    (hm : s.Moves t e pc pc') :
    StreamOk ((s.next e).listener t).client_id (fr ++ e.frame t)
      (st ++ (s.enqueues e).map Prod.snd) pc' := by
  cases hm with
  | accept fd =>
    obtain ⟨rfl, rfl⟩ := h
    exact ⟨rfl, rfl⟩
  | no_handshake | bad_handshake =>
    obtain ⟨-, rfl⟩ := h
    exact List.append_nil _
  | @handshake m hkind hid =>
    obtain ⟨rfl, rfl⟩ := h
    exact ⟨rfl, m, by simp [Event.frame], hkind, hid, by simp [next, hkind, hid]⟩
  | unknown hid =>
    obtain ⟨rfl, -⟩ := h
    exact List.append_nil _
  | known hid =>
    obtain ⟨rfl, m, rfl, hm⟩ := h
    exact ⟨rfl, m, rfl, by simpa [next, hid, goto_listener] using hm⟩
  | refuse | null_handshake => exact (List.append_nil _).trans h
  | free_message => exact .inl ((List.append_nil _).trans h)
  | reply ok =>
    obtain ⟨rfl, m, rfl, hm⟩ := h
    exact ⟨rfl, m, rfl, by simpa [next, goto_listener] using hm⟩
  | announce =>
    obtain ⟨rfl, m, rfl, hkind, hid, hc⟩ := h
    refine ⟨⟨m, [], rfl, hkind, hid, by simp [enqueues, hc]⟩, ?_⟩
    simp [enqueues, create_message_header, show MESG_CONN ≠ MESG_DCON by decide]
  | @leave m hkind =>
    obtain ⟨hrelays, hst⟩ := h
    have hconn : m.kind ≠ MESG_CONN := by rw [hkind]; decide
    simp only [Event.frame, enqueues, hkind, true_or, and_true, if_true]
    exact .inr ⟨hrelays.frame hconn, by rwa [List.map_singleton, List.dropLast_concat]⟩
  | @drop m hkind =>
    obtain ⟨hrelays, hst⟩ := h
    have hdcon : m.kind ≠ MESG_DCON := by rw [hkind]; decide
    simp only [Event.frame, enqueues, hkind, or_true, and_true, if_true, if_neg (hkind ▸ hdcon),
      List.map_nil, List.append_nil]
    exact ⟨hrelays.drop hkind, hst⟩
  | @header m hdcon hconn =>
    simp only [Event.frame, enqueues, hdcon, hconn, or_self, and_false, if_false, List.map_nil,
      List.append_nil]
    exact ⟨h, hdcon, hconn⟩
  | @payload m m' hlength hrecv =>
    obtain ⟨⟨hrelays, hst⟩, hdcon, hconn⟩ := h
    obtain ⟨-, hkind, -⟩ := hrecv
    simp only [Event.frame, enqueues, hlength, ne_eq, not_false_eq_true, and_true, if_true,
      if_false, List.map_singleton]
    exact ⟨hrelays.frame (hkind ▸ hconn), no_dcon_append hst (hkind ▸ hdcon)⟩
  | failed m =>
    obtain ⟨⟨hrelays, hst⟩, -⟩ := h
    simp only [Event.frame, enqueues, List.map_nil, List.append_nil]
    exact .inr ⟨hrelays, fun m hm => hst m (List.dropLast_subset _ hm)⟩
  | null_header =>
    simp only [Event.frame, enqueues, List.map_nil, List.append_nil]
    exact h
  | empty_payload m' hlength =>
    simp only [Event.frame, enqueues, hlength, ne_eq, not_true_eq_false, and_false, if_true,
      if_false, List.map_nil, List.append_nil]
    exact h
  | fast_forward | skip | catchUp | abandon | storeMark | register | remove | close
  | oversized =>
    simp only [Event.frame, enqueues, List.map_nil, List.append_nil]
    exact h

theorem streamOk_of_run {client_ids : List UInt16} {G : Server → Event → Prop}
    (hr : (server client_ids).Run G h s) (t : Tid) :
    StreamOk (s.listener t).client_id (framesRead h t) (stream h t) (s.listener t).pc := by
  refine hr.invariant (I := fun h s =>
    StreamOk (s.listener t).client_id (framesRead h t) (stream h t) (s.listener t).pc) ?_ ?_
  · exact (⟨rfl, rfl⟩ : framesRead [] t = [] ∧ stream [] t = [])
  intro h s e _ hi he _
  change StreamOk ((s.next e).listener t).client_id _ _ ((s.next e).listener t).pc
  rw [framesRead_append]
  by_cases ht : e.listener = some t
  · rw [stream_append ht]
    exact hi.moves (moves_next (And.right he) ht)
  · rw [stream_append_of_ne ht, listener_next_of_ne ht, frame_of_ne ht, List.append_nil]
    exact hi

theorem StreamOk.relays {c : UInt16} {fr st : List Message} (h : StreamOk c fr st pc) :
    (st = [] ∨ Relays fr st) ∧ ∀ m ∈ st.dropLast, m.kind ≠ MESG_DCON := by
  have hnil : st = [] → (st = [] ∨ Relays fr st) ∧ ∀ m ∈ st.dropLast, m.kind ≠ MESG_DCON := by
    rintro rfl
    exact ⟨.inl rfl, by simp⟩
  have hlast : Relays fr st ∧ (∀ m ∈ st, m.kind ≠ MESG_DCON) →
      (st = [] ∨ Relays fr st) ∧ ∀ m ∈ st.dropLast, m.kind ≠ MESG_DCON :=
    fun ⟨hrelays, hst⟩ => ⟨.inr hrelays, fun m hm => hst m (List.dropLast_subset _ hm)⟩
  cases pc with
  | unborn | handshake => exact hnil h.2
  | lookup | reply | announce => exact hnil h.1
  | refuse | refused => exact hnil h
  | fastForward | catchUp | register | receive => exact hlast h
  | payload => exact hlast h.1
  | out | closing | finished =>
    rcases h with h | ⟨hrelays, hst⟩
    · exact hnil h
    · exact ⟨.inr hrelays, hst⟩

end Server

/-- **The log is a fair copy of what the listeners produced**, in every run. -/
theorem fair_copy {client_ids : List UInt16} {h : History} {s : Server}
    (hr : (server client_ids).Run (fun _ _ => True) h s) : s.FairCopy h where
  interleaving := ⟨enqueued h, Server.pipeline_of_run hr, fun _ => rfl⟩
  relays t := (Server.streamOk_of_run hr t).relays.1
  dcon_last t := (Server.streamOk_of_run hr t).relays.2

/-- The stream of client 3, which connects and leaves. -/
theorem fair_copy_threeClients : ∃ h s, (server [1, 2, 3]).Run (fun _ _ => True) h s ∧
    stream h 2 = [⟨3, MESG_CONN, 0, none⟩, ⟨3, MESG_DCON, 0, none⟩] ∧ s.log.length = 4 ∧
      s.FairCopy h := by
  have hrun : ((server [1, 2, 3]).exec (fun _ _ => True) (server [1, 2, 3]).init threeClients).any
      (fun s => stream ((server [1, 2, 3]).trace (server [1, 2, 3]).init threeClients) 2 =
        [⟨3, MESG_CONN, 0, none⟩, ⟨3, MESG_DCON, 0, none⟩] ∧ s.log.length = 4) = true := by
    decide +kernel
  obtain ⟨h, s, hr, hw⟩ := TransitionSystem.exists_run_of_exec (p := fun h (s : Server) =>
    stream h 2 = [⟨3, MESG_CONN, 0, none⟩, ⟨3, MESG_DCON, 0, none⟩] ∧ s.log.length = 4) hrun
  obtain ⟨h₁, h₂⟩ := of_decide_eq_true hw
  exact ⟨h, s, hr, h₁, h₂, fair_copy hr⟩

end Cs2510.Chat
