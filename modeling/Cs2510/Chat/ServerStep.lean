import Cs2510.Chat.ServerInvariant

/-!
# What a step of the chat server does

Each lemma of this module says, for any event, what it does to one part of the state: the entries
sent to a connection (`entries_next`), a listener (`listener_next`), the log, the sender, the
marks and the descriptor lists of the clients. The invariants of the delivery are derived from
them, without unfolding `next` again.
-/

namespace Cs2510.Chat

/-- The log entries sent to a connection, and whether `send_message` succeeded. -/
def entries (w : List Sent) : List (Nat × Bool) :=
  w.filterMap fun x => match x.frame with
    | .reply _ => none
    | .entry i => some (i, x.ok)

/-- The log positions of the entries sent to a connection. -/
def positions (w : List Sent) : List Nat := (entries w).map Prod.fst

/-- The log positions of the entries sent to a connection successfully. -/
def received (w : List Sent) : List Nat := ((entries w).filter Prod.snd).map Prod.fst

theorem received_sublist (w : List Sent) : (received w).Sublist (positions w) :=
  List.filter_sublist.map _

/-- The entries that may have been sent to a connection whose listener stands here. -/
def ListenerPc.Covers : ListenerPc → Nat → Prop
  | .catchUp (some cursor), i => i < cursor
  | .catchUp none, _ | .register, _ | .receive, _ | .payload _, _ | .out, _ | .closing, _
  | .finished, _ => True
  | _, _ => False

theorem ListenerPc.covers_of_registered {pc : ListenerPc} (h : pc.registered) (i : Nat) :
    pc.Covers i := by
  cases pc <;> trivial

/-- What an action `e` does to the listener `t`: it covers no less than before, takes its id in the
handshake and its descriptor at birth, is registered by `client_hash_add_connection` only, and moves
in the read section by `fast_forward` and its loop only. -/
structure Listener.Extends (e : Event) (t : Tid) (l l' : Listener) : Prop where
  covers : ∀ i, l.pc.Covers i → l'.pc.Covers i
  client_id : l.pc ≠ .handshake → l'.client_id = l.client_id
  fd : l.pc ≠ .unborn → l'.fd = l.fd
  registered : l'.pc.registered → l.pc.registered ∨ e = .client_hash_add_connection t
  catching : l'.pc.catching →
    l' = l ∨ e = .fast_forward t ∨ ∃ cursor m ok, e = .catchUp t cursor m ok

theorem Listener.Extends.refl {e : Event} {t : Tid} (l : Listener) : l.Extends e t l :=
  ⟨fun _ h => h, fun _ => rfl, fun _ => rfl, .inl, fun _ => .inl rfl⟩

/-- Whether an action is the sender's. -/
def Event.bySender : Event → Bool
  | .jobqueue_dequeue .. | .message_log_append .. | .lockClients .. | .visit .. | .send ..
  | .mark .. | .unlockClients .. => true
  | _ => false

namespace Server

variable {s : Server} {e : Event}

/-- A step of the catch-up covers the entry it was at. -/
theorem covers_nextNode {cursor i : Nat} (h : i < cursor ∨ i = cursor) :
    (ListenerPc.catchUp (s.nextNode cursor)).Covers i := by
  unfold nextNode
  split
  · simp only [ListenerPc.Covers]; omega
  · trivial

theorem Wf.socket (h : Wf s) {t : Tid} (hlive : (s.listener t).pc.live) :
    s.socket (s.listener t).fd = some t :=
  (h.socket_iff _ t).mpr ⟨rfl, hlive⟩

/-- A descriptor in the list of a client is a registered connection of it. -/
theorem Wf.socket_of_mem (h : Wf s) {c : UInt16} {fd : Fd} (hfd : fd ∈ (s.client c).sockfds) :
    ∃ t, s.socket fd = some t ∧ (s.listener t).client_id = c ∧ (s.listener t).pc.registered := by
  obtain ⟨t, rfl, hid, hreg⟩ := (h.sockfds_iff c _).mp hfd
  exact ⟨t, h.socket (ListenerPc.live_of_registered hreg), hid, hreg⟩

theorem entries_transmit_reply (fd : Fd) (kind : UInt16) (ok : Bool) (t : Tid) :
    entries ((s.transmit fd (.reply kind) ok).wire t) = entries (s.wire t) := by
  unfold transmit
  split
  · rfl
  · next t' _ =>
    by_cases ht : t = t'
    · subst ht; simp [entries]
    · simp [ht]

theorem entries_transmit_entry {fd : Fd} {t' : Tid} (hfd : s.socket fd = some t') (i : Nat)
    (ok : Bool) (t : Tid) : entries ((s.transmit fd (.entry i) ok).wire t) =
      if t = t' then entries (s.wire t) ++ [(i, ok)] else entries (s.wire t) := by
  unfold transmit
  rw [hfd]
  by_cases ht : t = t'
  · subst ht; simp [entries]
  · simp [ht]

/-- A catch-up sends a foreign entry to its own connection. -/
theorem entries_catchUp {t : Tid} {m : Message}
    (hsock : s.socket (s.listener t).fd = some t) (hid : m.id ≠ (s.listener t).client_id)
    (hm : m.Marshals) (cursor : Nat) (ok : Bool) (t' : Tid) :
    entries ((s.next (.catchUp t cursor m ok)).wire t') =
      if t' = t then entries (s.wire t') ++ [(cursor, ok)] else entries (s.wire t') := by
  rw [← entries_transmit_entry hsock cursor ok t']
  cases ok <;> simp [next, hid, hm, unlockLog]

/-- The sender sends to a registered connection of the client it is at. -/
theorem entries_send (h : Wf s) {m : Message} {q : Nat} {c : UInt16} {rest : List UInt16} {fd : Fd}
    {fds : List Fd} {ok : Bool} (he : s.enabled (.send m q c rest fd fds ok)) (hm : m.Marshals) :
    ∃ t, (s.listener t).fd = fd ∧ (s.listener t).client_id = c ∧ (s.listener t).pc.registered ∧
      ∀ t', entries ((s.next (.send m q c rest fd fds ok)).wire t') =
        if t' = t then entries (s.wire t') ++ [(q, ok)] else entries (s.wire t') := by
  obtain ⟨hpc, -⟩ := he
  obtain ⟨-, -, -, hfds⟩ : s.SenderOk (.fanOut m q c rest (fd :: fds)) := hpc ▸ h.sender
  obtain ⟨t, hsock, hid, hreg⟩ := h.socket_of_mem (hfds.mem List.mem_cons_self)
  refine ⟨t, ((h.socket_iff _ _).mp hsock).1, hid, hreg, fun t' => ?_⟩
  rw [← entries_transmit_entry hsock q ok t']
  simp [next, hm]

/-- What a step adds to the entries sent to a connection. -/
theorem entries_next (h : Wf s) (he : s.enabled e) (t : Tid) :
    entries ((s.next e).wire t) = entries (s.wire t) ∨
    (∃ cursor m ok, e = .catchUp t cursor m ok ∧ m.id ≠ (s.listener t).client_id ∧
      ((s.next e).listener t).pc.Covers cursor ∧
      entries ((s.next e).wire t) = entries (s.wire t) ++ [(cursor, ok)]) ∨
    (∃ m q rest fd fds ok, e = .send m q (s.listener t).client_id rest fd fds ok ∧ m.Marshals ∧
      (s.listener t).fd = fd ∧ (s.listener t).pc.registered ∧
      entries ((s.next e).wire t) = entries (s.wire t) ++ [(q, ok)]) := by
  cases e with
  | handshake t' m =>
    left
    cases m with
    | none => rfl
    | some m => simp only [next]; split <;> rfl
  | client_hash_get t' => left; simp only [next]; split <;> rfl
  | refuse t' received ok => left; exact entries_transmit_reply ..
  | free_message t' received => left; simp only [next]; split <;> rfl
  | reply t' ok => left; exact entries_transmit_reply ..
  | catchUp t' cursor m ok =>
    by_cases hid : m.id = (s.listener t').client_id
    · left; simp [next, hid]
    by_cases hm : m.Marshals
    swap
    · left; simp [next, hid, hm, crash]
    have hsock : s.socket (s.listener t').fd = some t' := h.socket (by rw [he.1]; rfl)
    have hentries := entries_catchUp hsock hid hm cursor ok t
    by_cases ht : t = t'
    · subst ht
      have hcovers : ((s.next (.catchUp t cursor m ok)).listener t).pc.Covers cursor := by
        cases ok
        · simp [next, hid, hm, goto_listener, ListenerPc.Covers]
        · simpa [next, hid, hm, goto_listener] using covers_nextNode (.inr rfl)
      exact .inr (.inl ⟨cursor, m, ok, rfl, hid, hcovers, by rw [hentries, if_pos rfl]⟩)
    · left; rw [hentries, if_neg ht]
  | recv_header t' m =>
    left
    cases m with
    | none => rfl
    | some m => simp only [next]; split <;> [rfl; (split <;> rfl)]
  | recv_payload t' m r =>
    left
    cases r with
    | none => rfl
    | some m' => simp only [next]; split <;> rfl
  | visit m q c rest => left; simp only [next]; split <;> [rfl; (split <;> rfl)]
  | send m q c rest fd fds ok =>
    by_cases hm : m.Marshals
    swap
    · left; simp [next, hm, crash]
    obtain ⟨t', rfl, rfl, hreg, hentries⟩ := entries_send h he hm
    by_cases ht : t = t'
    · subst ht
      exact .inr (.inr ⟨m, q, rest, _, fds, ok, rfl, hm, rfl, hreg, by rw [hentries, if_pos rfl]⟩)
    · left; rw [hentries, if_neg ht]
  | _ => left; rfl

theorem extends_goto {s' : Server} {t' : Tid} {old pc : ListenerPc}
    (hl : s'.listener = s.listener) (hpc : (s.listener t').pc = old)
    (hcovers : ∀ i, old.Covers i → pc.Covers i)
    (hreg : pc.registered = false ∨ old.registered ∨ e = .client_hash_add_connection t')
    (hcatch : pc.catching = false ∨ ∃ cursor m ok, e = .catchUp t' cursor m ok) (t : Tid) :
    (s.listener t).Extends e t ((s'.goto t' pc).listener t) := by
  subst hpc
  rw [goto_listener, hl]
  split
  · next ht =>
    subst ht
    refine ⟨hcovers, fun _ => rfl, fun _ => rfl, fun h => ?_, fun h => .inr (.inr ?_)⟩
    · exact hreg.resolve_left (by rw [show pc.registered = true from h]; decide)
    · exact hcatch.resolve_left (by rw [show pc.catching = true from h]; decide)
  · exact .refl _

/-- A listener goes on before its catch-up. -/
theorem extends_goto_early {s' : Server} {t' : Tid} {old pc : ListenerPc}
    (hl : s'.listener = s.listener) (hpc : (s.listener t').pc = old)
    (hcovers : ∀ i, ¬old.Covers i) (hreg : pc.registered = false) (hcatch : pc.catching = false)
    (t : Tid) : (s.listener t).Extends e t ((s'.goto t' pc).listener t) :=
  extends_goto hl hpc (fun i h => absurd h (hcovers i)) (.inl hreg) (.inl hcatch) t

/-- A listener goes on after its catch-up. -/
theorem extends_goto_late {s' : Server} {t' : Tid} {old pc : ListenerPc}
    (hl : s'.listener = s.listener) (hpc : (s.listener t').pc = old) (hcovers : ∀ i, pc.Covers i)
    (hreg : pc.registered = false ∨ old.registered ∨ e = .client_hash_add_connection t')
    (hcatch : pc.catching = false) (t : Tid) :
    (s.listener t).Extends e t ((s'.goto t' pc).listener t) :=
  extends_goto hl hpc (fun i _ => hcovers i) hreg (.inl hcatch) t

theorem extends_update {t' : Tid} {l : Listener} (h : (s.listener t').Extends e t' l) (t : Tid) :
    (s.listener t).Extends e t (Function.update s.listener t' l t) := by
  by_cases ht : t = t'
  · subst ht; simpa using h
  · simpa [ht] using .refl _

theorem listener_next (he : s.enabled e) (t : Tid) :
    (s.listener t).Extends e t ((s.next e).listener t) := by
  cases e with
  | accept t' fd =>
    obtain ⟨hpc, -⟩ := he
    exact extends_update ⟨by simp [hpc, ListenerPc.Covers], fun _ => by rfl, (absurd hpc ·),
      by rintro ⟨⟩, by rintro ⟨⟩⟩ t
  | handshake t' m =>
    obtain ⟨hpc, -⟩ := he
    cases m with
    | none => exact extends_goto_early rfl hpc (fun _ => id) (by rfl) (by rfl) t
    | some m =>
      simp only [next]
      split
      · exact extends_goto_early rfl hpc (fun _ => id) (by rfl) (by rfl) t
      · exact extends_update ⟨by simp [hpc, ListenerPc.Covers], (absurd hpc ·), fun _ => by rfl,
          by rintro ⟨⟩, by rintro ⟨⟩⟩ t
  | client_hash_get t' =>
    simp only [next]
    split <;> exact extends_goto_early rfl he.1 (fun _ => id) (by rfl) (by rfl) t
  | refuse t' received ok =>
    exact extends_goto_early (by simp) he.1 (fun _ => id) (by rfl) (by rfl) t
  | free_message t' received =>
    simp only [next]
    split
    · exact extends_goto_early rfl he (fun _ => id) (by rfl) (by rfl) t
    · exact .refl _
  | reply t' ok => exact extends_goto_early (by simp) he.1 (fun _ => id) (by rfl) (by rfl) t
  | announce t' => exact extends_goto_early rfl he (fun _ => id) (by rfl) (by rfl) t
  | fast_forward t' =>
    have hpc : (s.listener t').pc = .fastForward := he
    exact extends_update ⟨by simp [hpc, ListenerPc.Covers], fun _ => by rfl, fun _ => by rfl,
      by rintro ⟨⟩, fun _ => .inr (.inl rfl)⟩ t
  | catchUp t' cursor m ok =>
    obtain ⟨hpc, -, -⟩ := he
    have hcatch : ∃ cursor' m' ok', Event.catchUp t' cursor m ok = .catchUp t' cursor' m' ok' :=
      ⟨_, _, _, rfl⟩
    simp only [next]
    split
    · exact extends_goto rfl hpc (fun i hi => covers_nextNode (.inl hi)) (.inl (by rfl))
        (.inr hcatch) t
    split
    · exact .refl _
    split
    · exact extends_goto (by simp) hpc (fun i hi => covers_nextNode (.inl hi)) (.inl (by rfl))
        (.inr hcatch) t
    · exact extends_goto_late (by simp) hpc (fun _ => by trivial) (.inl (by rfl)) (by rfl) t
  | storeMark t' => exact extends_goto_late rfl he (fun _ => by trivial) (.inl (by rfl)) (by rfl) t
  | client_hash_add_connection t' =>
    exact extends_goto_late rfl he.1 (fun _ => by trivial) (.inr (.inr rfl)) (by rfl) t
  | recv_header t' m =>
    obtain ⟨hpc, -⟩ := he
    cases m with
    | none => exact .refl _
    | some m =>
      simp only [next]
      split
      · exact extends_goto_late rfl hpc (fun _ => by trivial) (.inr (.inl rfl)) (by rfl) t
      split
      · exact .refl _
      · exact extends_goto_late rfl hpc (fun _ => by trivial) (.inr (.inl rfl)) (by rfl) t
  | recv_payload t' m r =>
    obtain ⟨hpc, -⟩ := he
    cases r with
    | none => exact extends_goto_late rfl hpc (fun _ => by trivial) (.inr (.inl rfl)) (by rfl) t
    | some m' =>
      simp only [next]
      split
      · exact .refl _
      · exact extends_goto_late rfl hpc (fun _ => by trivial) (.inr (.inl rfl)) (by rfl) t
  | client_hash_remove_connection t' =>
    exact extends_goto_late rfl he.1 (fun _ => by trivial) (.inl (by rfl)) (by rfl) t
  | close t' => exact extends_goto_late rfl he (fun _ => by trivial) (.inl (by rfl)) (by rfl) t
  | visit m q c rest => simp only [next]; split <;> [exact .refl _; (split <;> exact .refl _)]
  | send m q c rest fd fds ok =>
    simp only [next]
    split
    · exact .refl _
    · simpa using .refl _
  | _ => exact .refl _

theorem listener_next_of_bySender (h : e.bySender) : (s.next e).listener = s.listener := by
  unfold next
  split <;> cases h <;> (try split_ifs) <;> first | rfl | simp

theorem sender_next (h : e.bySender = false) : (s.next e).sender = s.sender := by
  unfold next
  split <;> cases h <;> (try split_ifs) <;> first | rfl | simp

theorem clients_next (s : Server) (e : Event) : (s.next e).clients = s.clients := by
  unfold next
  split <;> (try split_ifs) <;> simp

/-- The entries a step appends to the log. -/
def appended : Event → List Message
  | .message_log_append m => [m]
  | _ => []

theorem log_next (s : Server) (e : Event) : (s.next e).log = s.log ++ appended e := by
  unfold next
  split <;> (try split_ifs) <;> simp [appended]

/-- Who moves the mark of a client, and where to. -/
theorem last_read_next (s : Server) (e : Event) (c : UInt16) :
    ((s.next e).client c).last_read = (s.client c).last_read ∨
    (∃ t, e = .storeMark t ∧ (s.listener t).client_id = c ∧
      ((s.next e).client c).last_read = s.tail) ∨
    (∃ m q rest, (e = .visit m q c rest ∧ (s.client c).sockfds ≠ [] ∧ m.id = c ∨
      e = .mark m q c rest) ∧ ((s.next e).client c).last_read = some q) := by
  cases e with
  | storeMark t =>
    by_cases hc : c = (s.listener t).client_id
    · exact .inr (.inl ⟨t, rfl, hc.symm, by simp [next, setMark_last_read, hc]⟩)
    · left; simp [next, setMark_last_read, hc]
  | visit m q c' rest =>
    by_cases hfds : (s.client c').sockfds = []
    · left; simp [next, hfds]
    by_cases hid : c' = m.id
    swap
    · left; simp [next, hfds, hid]
    by_cases hc : c = c'
    · subst hc
      exact .inr (.inr ⟨m, q, rest, .inl ⟨rfl, hfds, hid.symm⟩,
        by rw [next, if_neg hfds, if_neg (not_not.mpr hid)]; simp [setMark_last_read]⟩)
    · left; rw [next, if_neg hfds, if_neg (not_not.mpr hid)]; simp [setMark_last_read, hc]
  | mark m q c' rest =>
    by_cases hc : c = c'
    · subst hc
      exact .inr (.inr ⟨m, q, rest, .inr rfl, by simp [next, setMark_last_read]⟩)
    · left; simp [next, setMark_last_read, hc]
  | handshake t m => left; cases m <;> simp only [next] <;> [skip; split] <;> simp
  | catchUp t cursor m ok => left; simp only [next]; split_ifs <;> simp
  | recv_header t m => left; cases m <;> simp only [next] <;> [skip; split_ifs] <;> simp
  | recv_payload t m r => left; cases r <;> simp only [next] <;> [skip; split_ifs] <;> simp
  | client_hash_get t | free_message t | send => left; simp only [next]; split_ifs <;> simp
  | _ => left; simp [next]

/-- The descriptor lists stay as they are while the sender holds `clients_lock`. -/
theorem sockfds_next (he : s.enabled e) (c : UInt16) :
    ((s.next e).client c).sockfds = (s.client c).sockfds ∨ s.sender.holdsClientsLock = false := by
  cases e with
  | client_hash_add_connection t => exact .inr he.2
  | client_hash_remove_connection t => exact .inr he.2
  | handshake t m => left; cases m <;> simp only [next] <;> [skip; split] <;> simp
  | catchUp t cursor m ok => left; simp only [next]; split_ifs <;> simp
  | recv_header t m => left; cases m <;> simp only [next] <;> [skip; split_ifs] <;> simp
  | recv_payload t m r => left; cases r <;> simp only [next] <;> [skip; split_ifs] <;> simp
  | client_hash_get t | free_message t | send | visit =>
    left; simp only [next]; split_ifs <;> simp
  | _ => left; simp [next]

end Server

end Cs2510.Chat
