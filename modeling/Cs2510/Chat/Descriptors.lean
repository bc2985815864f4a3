import Cs2510.Chat.TotalOrder
import Cs2510.Chat.ListenerStep

/-!
# The owner of a descriptor

A descriptor in the list of a client is open, in no other list, and the connection of one live
listener, on which the client's id was handshaked. The listener is done with writing to it when
the sender can reach it, and what it wrote first was its reply. A refused connection touches
nothing that the chat is made of.
-/

namespace Cs2510.Chat

/-- The steps of a run, each with the state it was made in. -/
abbrev History := List (Server × Event)

/-- The client on connection `t` has presented itself with `id`. -/
def Handshaked (h : History) (t : Tid) (id : UInt16) : Prop :=
  ∃ s m, (s, .handshake t (some m)) ∈ h ∧ m.kind = MESG_CONN ∧ m.id ≠ 0 ∧ m.id = id

/-- The connection was refused: no handshake message, one of the wrong kind, the id 0, or an id
that the server does not know. -/
def Refused (h : History) (t : Tid) : Prop :=
  ∃ s, (s, .handshake t none) ∈ h ∨
    (∃ m : Message, (m.kind ≠ MESG_CONN ∨ m.id = 0) ∧ (s, .handshake t (some m)) ∈ h) ∨
    (s.listener t).client_id ∉ s.clients ∧ (s, .client_hash_get t) ∈ h

/-- The listener has handshaked an id. -/
def ListenerPc.handshaked : ListenerPc → Bool
  | .lookup | .reply | .announce | .fastForward | .catchUp _ | .register | .receive | .payload _
  | .out => true
  | _ => false

/-- The listener writes to its connection: its reply, or its catch-up. -/
def ListenerPc.writing : ListenerPc → Bool
  | .refuse _ | .reply | .announce | .fastForward | .catchUp _ => true
  | _ => false

/-- Before the listener's reply. -/
def ListenerPc.silent : ListenerPc → Bool
  | .unborn | .handshake | .lookup | .refuse _ | .reply => true
  | _ => false

/-- Before the announcement, or on the way out of a refusal. -/
def ListenerPc.unannounced : ListenerPc → Bool
  | .unborn | .handshake | .lookup | .refuse _ | .refused _ | .reply | .announce => true
  | _ => false

/-- A refused listener. -/
def ListenerPc.turnedAway : ListenerPc → Bool
  | .refuse _ | .refused _ | .closing | .finished => true
  | _ => false

namespace Server

/-- The sender is in a delivery pass that may write to `fd`. -/
def SenderWrites (s : Server) (fd : Fd) : Prop :=
  s.sender.holdsClientsLock ∧ ∃ c, fd ∈ (s.client c).sockfds

/-- The listener of `fd` is in its writing phase. -/
def ListenerWrites (s : Server) (fd : Fd) : Prop :=
  ∃ t, (s.listener t).fd = fd ∧ (s.listener t).pc.writing

/-- The log, the send queue and the client entries are the same. -/
structure SameChat (s s' : Server) : Prop where
  log : s'.log = s.log
  sendqueue : s'.sendqueue = s.sendqueue
  client : s'.client = s.client

/-- One owner for each descriptor, and the reply first. -/
structure OneOwner (h : History) (s : Server) : Prop where
  owner : ∀ c fd, fd ∈ (s.client c).sockfds → (s.socket fd).isSome ∧
    (s.client c).sockfds.count fd = 1 ∧ (∀ c', fd ∈ (s.client c').sockfds → c' = c) ∧
    ∃ t, Handshaked h t c ∧ ∀ t', (s.listener t').fd = fd ∧ (s.listener t').pc.live ↔ t' = t
  written : ∀ e t, s.enabled e → s.writes t e ≠ [] →
    e.listener = some t ∧ (s.listener t).pc.writing ∨
    e.listener = none ∧ s.SenderWrites (s.listener t).fd
  phases : ∀ fd, ¬ (s.SenderWrites fd ∧ s.ListenerWrites fd)
  reply_first : ∀ t, ∀ x ∈ (s.wire t).head?,
    x.frame = .reply MESG_CONN ∨ x.frame = .reply MESG_DCON
  refused : ∀ t, Refused h t → ∀ x ∈ h, x.2.listener = some t → x.1.SameChat (x.1.next x.2)

variable {s : Server} {e : Event} {t : Tid} {h : History} {pc pc' : ListenerPc}

/-! ## The handshake -/

theorem Moves.handshaked (hm : s.Moves t e pc pc') (hpc' : pc'.handshaked) :
    pc.handshaked ∨ ∃ m, e = .handshake t (some m) ∧ m.kind = MESG_CONN ∧ m.id ≠ 0 := by
  cases hm with
  | handshake hkind hid => exact .inr ⟨_, rfl, hkind, hid⟩
  | accept | no_handshake | bad_handshake | unknown | refuse | free_message | remove | close
  | null_handshake => cases hpc'
  | _ => exact .inl rfl

/-- The id of a listener is the one it has handshaked. -/
theorem handshaked_next (he : s.enabled e)
    (hi : (s.listener t).pc.handshaked → Handshaked h t (s.listener t).client_id)
    (hpc : ((s.next e).listener t).pc.handshaked) :
    Handshaked (h ++ [(s, e)]) t ((s.next e).listener t).client_id := by
  have hmono : ∀ {id}, Handshaked h t id → Handshaked (h ++ [(s, e)]) t id :=
    fun ⟨s', m, hmem, hm⟩ => ⟨s', m, List.mem_append_left _ hmem, hm⟩
  by_cases ht : e.listener = some t
  · rcases (moves_next he ht).handshaked hpc with hpc | ⟨m, rfl, hkind, hid⟩
    · rw [(listener_next he t).client_id (by rintro h'; rw [h'] at hpc; cases hpc)]
      exact hmono (hi hpc)
    · refine ⟨s, m, List.mem_append_right _ List.mem_cons_self, hkind, hid, ?_⟩
      simp [next, hkind, hid]
  · rw [listener_next_of_ne ht] at hpc ⊢
    exact hmono (hi hpc)

theorem handshaked_of_run {client_ids : List UInt16} {G : Server → Event → Prop}
    (hr : (server client_ids).Run G h s) (t : Tid) (hpc : (s.listener t).pc.handshaked) :
    Handshaked h t (s.listener t).client_id := by
  refine hr.invariant (I := fun h s => (s.listener t).pc.handshaked →
    Handshaked h t (s.listener t).client_id) (by rintro ⟨⟩) ?_ hpc
  exact fun h s e _ hi he _ => handshaked_next (And.right he) hi

/-! ## The reply -/

/-- What has been written to a connection whose listener stands at `pc`. -/
def Greeted (pc : ListenerPc) (w : List Sent) : Prop :=
  if pc.silent then w = []
  else ∃ x ∈ w.head?, x.frame = .reply MESG_CONN ∨ x.frame = .reply MESG_DCON

theorem Greeted.append {w w' : List Sent} (hg : Greeted pc w) (hpc : pc.silent = false)
    (hpc' : pc'.silent = false) : Greeted pc' (w ++ w') := by
  rw [Greeted, hpc] at hg
  rw [Greeted, hpc']
  obtain ⟨x, hx, hframe⟩ := hg
  exact ⟨x, by rw [List.head?_append, hx]; rfl, hframe⟩

theorem Greeted.moves {w : List Sent} (hg : Greeted pc w) (hm : s.Moves t e pc pc') :
    Greeted pc' (w ++ s.writes t e) := by
  cases hm with
  | accept | no_handshake | bad_handshake | handshake | unknown | known =>
    obtain rfl : w = [] := hg
    rfl
  | refuse received ok =>
    obtain rfl : w = [] := hg
    exact ⟨⟨.reply MESG_DCON, ok⟩, by simp [writes], .inr rfl⟩
  | reply ok =>
    obtain rfl : w = [] := hg
    exact ⟨⟨.reply MESG_CONN, ok⟩, by simp [writes], .inl rfl⟩
  | _ => exact hg.append rfl rfl

theorem greeted_of_reach {client_ids : List UInt16} {G : Server → Event → Prop}
    (hr : (server client_ids).Reach G s) (t : Tid) :
    Greeted (s.listener t).pc (s.wire t) := by
  refine hr.invariant_of (fun _ => wf_of_reach)
    (I := fun s => Greeted (s.listener t).pc (s.wire t)) (by rfl) fun s e hwf hg he _ => ?_
  replace he : s.enabled e := And.right he
  change Greeted ((s.next e).listener t).pc ((s.next e).wire t)
  rw [wire_next hwf he]
  by_cases ht : e.listener = some t
  · exact hg.moves (moves_next he ht)
  · rw [listener_next_of_ne ht]
    by_cases hw : s.writes t e = []
    · rwa [hw, List.append_nil]
    · -- only the sender writes to a connection of another listener
      have hreg := (registered_of_writes hwf he ?_ hw).1
      · have hpc : (s.listener t).pc.silent = false := by
          revert hreg
          cases (s.listener t).pc <;> first | (intro; rfl) | rintro ⟨⟩
        exact hg.append hpc hpc
      · revert ht hw
        cases e <;> simp +contextual [Event.listener, Event.bySender, writes]

/-! ## A refused connection -/

theorem Moves.sameChat (hm : s.Moves t e pc pc') (hpc : pc'.unannounced ∨ pc.turnedAway) :
    s.SameChat (s.next e) := by
  cases hm with
  | bad_handshake hbad => rw [next, if_pos hbad]; exact ⟨rfl, rfl, rfl⟩
  | handshake hkind hid => rw [next, if_neg (by simp [hkind, hid])]; exact ⟨rfl, rfl, rfl⟩
  | unknown hid => rw [next, if_neg hid]; exact ⟨rfl, rfl, rfl⟩
  | known hid => rw [next, if_pos hid]; exact ⟨rfl, rfl, rfl⟩
  | refuse | reply => exact ⟨transmit_log .., transmit_sendqueue .., transmit_client ..⟩
  | accept | no_handshake | free_message | close | null_handshake => exact ⟨rfl, rfl, rfl⟩
  | _ => rcases hpc with hpc | hpc <;> cases hpc

theorem Moves.unannounced (hm : s.Moves t e pc pc') (hpc' : pc'.unannounced) : pc.unannounced := by
  cases hm <;> first | rfl | cases hpc'

theorem Moves.turnedAway (hm : s.Moves t e pc pc') (hpc : pc.turnedAway) : pc'.turnedAway := by
  cases hm <;> first | rfl | cases hpc

/-- A refusal takes a listener from before the announcement to the way out. -/
theorem Moves.of_refused (hm : s.Moves t e pc pc') (h : Refused [(s, e)] t) :
    pc.unannounced ∧ pc'.unannounced ∧ pc'.turnedAway := by
  obtain ⟨s', h⟩ := h
  cases hm with
  | no_handshake | bad_handshake | unknown => exact ⟨rfl, rfl, rfl⟩
  | handshake hkind hid =>
    obtain h | ⟨m, hbad, h⟩ | ⟨-, h⟩ := h
    all_goals cases List.mem_singleton.mp h
    exact absurd hbad (by simp [hkind, hid])
  | known hid =>
    obtain h | ⟨m, -, h⟩ | ⟨hunknown, h⟩ := h
    all_goals cases List.mem_singleton.mp h
    exact absurd hid hunknown
  | _ =>
    obtain h | ⟨m, -, h⟩ | ⟨-, h⟩ := h
    all_goals cases List.mem_singleton.mp h

theorem refused_append {h h' : History} (hr : Refused (h ++ h') t) :
    Refused h t ∨ Refused h' t := by
  obtain ⟨s, hr⟩ := hr
  simp only [List.mem_append] at hr
  obtain (h | h) | ⟨m, hbad, h | h⟩ | ⟨hid, h | h⟩ := hr
  · exact .inl ⟨s, .inl h⟩
  · exact .inr ⟨s, .inl h⟩
  · exact .inl ⟨s, .inr (.inl ⟨m, hbad, h⟩)⟩
  · exact .inr ⟨s, .inr (.inl ⟨m, hbad, h⟩)⟩
  · exact .inl ⟨s, .inr (.inr ⟨hid, h⟩)⟩
  · exact .inr ⟨s, .inr (.inr ⟨hid, h⟩)⟩

/-- The steps of a listener before its announcement, and those of a refused one, leave the chat
alone. -/
structure Harmless (h : History) (s : Server) (t : Tid) : Prop where
  turnedAway : Refused h t → (s.listener t).pc.turnedAway
  same : (s.listener t).pc.unannounced ∨ Refused h t →
    ∀ x ∈ h, x.2.listener = some t → x.1.SameChat (x.1.next x.2)

theorem Harmless.step (hi : Harmless h s t) (he : s.enabled e) :
    Harmless (h ++ [(s, e)]) (s.next e) t := by
  by_cases ht : e.listener = some t
  · have hm := moves_next he ht
    have hold : ((s.next e).listener t).pc.unannounced ∨ Refused (h ++ [(s, e)]) t →
        (s.listener t).pc.unannounced ∨ Refused h t := by
      rintro (hpc | hr)
      · exact .inl (hm.unannounced hpc)
      · rcases refused_append hr with hr | hr
        · exact .inr hr
        · exact .inl (hm.of_refused hr).1
    constructor
    · intro hr
      rcases refused_append hr with hr | hr
      · exact hm.turnedAway (hi.turnedAway hr)
      · exact (hm.of_refused hr).2.2
    · intro hpc x hx hxt
      rcases List.mem_append.mp hx with hx | hx
      · exact hi.same (hold hpc) x hx hxt
      · obtain rfl := List.mem_singleton.mp hx
        refine hm.sameChat ?_
        rcases hpc with hpc | hr
        · exact .inl hpc
        · rcases refused_append hr with hr | hr
          · exact .inr (hi.turnedAway hr)
          · exact .inl (hm.of_refused hr).2.1
  · have hold : Refused (h ++ [(s, e)]) t → Refused h t := by
      intro hr
      rcases refused_append hr with hr | ⟨s', hr⟩
      · exact hr
      · exfalso
        obtain hr | ⟨m, -, hr⟩ | ⟨-, hr⟩ := hr
        all_goals
          cases List.mem_singleton.mp hr
          exact ht rfl
    have hpc : (s.next e).listener t = s.listener t := listener_next_of_ne ht
    refine ⟨fun hr => ?_, fun hquiet x hx hxt => ?_⟩
    · rw [hpc]
      exact hi.turnedAway (hold hr)
    · rcases List.mem_append.mp hx with hx | hx
      · rw [hpc] at hquiet
        exact hi.same (hquiet.imp_right hold) x hx hxt
      · obtain rfl := List.mem_singleton.mp hx
        exact absurd hxt ht

theorem harmless_of_run {client_ids : List UInt16} {G : Server → Event → Prop}
    (hr : (server client_ids).Run G h s) (t : Tid) : Harmless h s t := by
  refine hr.invariant (I := fun h s => Harmless h s t) ⟨?_, ?_⟩
    fun _ _ _ _ hi he _ => hi.step (And.right he)
  · rintro ⟨s', h | ⟨m, -, h⟩ | ⟨-, h⟩⟩ <;> cases h
  · rintro - x ⟨⟩

/-! ## The phases of writing -/

/-- A descriptor the sender may write to belongs to a registered connection. -/
theorem registered_of_senderWrites (h : Wf s) {fd : Fd} (hs : s.SenderWrites fd)
    (hfd : (s.listener t).fd = fd) (hlive : (s.listener t).pc.live) :
    (s.listener t).pc.registered := by
  obtain ⟨-, c, hmem⟩ := hs
  obtain ⟨t', hfd', -, hreg⟩ := (h.sockfds_iff c fd).mp hmem
  obtain rfl := h.fd_inj (hfd'.trans hfd.symm) hlive (ListenerPc.live_of_registered hreg)
  exact hreg

theorem written_in_phase (h : Wf s) (he : s.enabled e) (hw : s.writes t e ≠ []) :
    e.listener = some t ∧ (s.listener t).pc.writing ∨
    e.listener = none ∧ s.SenderWrites (s.listener t).fd := by
  cases e with
  | refuse t' received ok =>
    rw [writes] at hw
    obtain rfl : t' = t := by by_contra hne; exact hw (if_neg hne)
    exact .inl ⟨rfl, by rw [he.1]; rfl⟩
  | reply t' ok =>
    rw [writes] at hw
    obtain rfl : t' = t := by by_contra hne; exact hw (if_neg hne)
    exact .inl ⟨rfl, by rw [he.1]; rfl⟩
  | catchUp t' cursor m ok =>
    rw [writes] at hw
    obtain rfl : t' = t := by by_contra hne; exact hw (if_neg fun h => hne h.1)
    exact .inl ⟨rfl, by rw [he.1]; rfl⟩
  | send m q c rest fd fds ok =>
    right
    obtain ⟨hpc, -⟩ := he
    obtain ⟨-, -, -, hfds⟩ : s.SenderOk (.fanOut m q c rest (fd :: fds)) := hpc ▸ h.sender
    rw [writes] at hw
    have hsock : s.socket fd = some t := by by_contra hne; exact hw (if_neg fun h => hne h.1)
    rw [((h.socket_iff fd t).mp hsock).1]
    exact ⟨rfl, by rw [hpc]; rfl, c, hfds.mem List.mem_cons_self⟩
  | _ => exact absurd rfl hw

end Server

/-- **One owner for each descriptor**, in every state of every run. -/
theorem one_owner {client_ids : List UInt16} {h : History} {s : Server}
    (hr : (server client_ids).Run (fun _ _ => True) h s) : s.OneOwner h where
  owner c fd hmem := by
    have hwf := Server.wf_of_reach hr.reach
    have hother : ∀ c' t, (s.listener t).fd = fd → (s.listener t).client_id = c →
        (s.listener t).pc.registered → fd ∈ (s.client c').sockfds → c' = c := by
      rintro c' t rfl rfl hreg hmem'
      obtain ⟨t', hfd, rfl, hreg'⟩ := (hwf.sockfds_iff c' _).mp hmem'
      rw [hwf.fd_inj hfd (ListenerPc.live_of_registered hreg)
        (ListenerPc.live_of_registered hreg')]
    obtain ⟨t, rfl, rfl, hreg⟩ := (hwf.sockfds_iff c fd).mp hmem
    have hlive := ListenerPc.live_of_registered hreg
    refine ⟨by rw [hwf.socket hlive]; rfl, by rw [(hwf.sockfds_nodup _).count, if_pos hmem],
      fun c' => hother c' t rfl rfl hreg, t, ?_, fun t' => ?_⟩
    · apply Server.handshaked_of_run hr
      revert hreg
      cases (s.listener t).pc <;> first | (intro; rfl) | rintro ⟨⟩
    · constructor
      · rintro ⟨hfd, hlive'⟩
        exact hwf.fd_inj hfd hlive hlive'
      · rintro rfl
        exact ⟨rfl, hlive⟩
  written _ _ he hw := Server.written_in_phase (Server.wf_of_reach hr.reach) he hw
  phases fd := by
    rintro ⟨hs, t, rfl, hpc⟩
    have hreg := Server.registered_of_senderWrites (Server.wf_of_reach hr.reach) hs rfl
    revert hreg hpc
    cases (s.listener t).pc <;> simp [ListenerPc.writing, ListenerPc.live, ListenerPc.registered]
  reply_first t x hx := by
    have hg := Server.greeted_of_reach hr.reach t
    unfold Server.Greeted at hg
    split at hg
    · rw [hg] at hx
      cases hx
    · obtain ⟨y, hy, hframe⟩ := hg
      rwa [Option.mem_unique hx hy]
  refused t hr' := (Server.harmless_of_run hr t).same (.inr hr')

/-- Client 1 connects; a second connection, which sends a message of the wrong kind, is refused
while the sender delivers. -/
def refusedMeanwhile : List Event :=
  let conn := create_message_header 0 1 MESG_CONN
  connecting 0 4 1 ++ [.fast_forward 0, .storeMark 0, .client_hash_add_connection 0] ++
  appending conn 0 [] ++
  [.accept 1 5, .handshake 1 (some (create_message_header 0 1 MESG_DCON)), .refuse 1 true true,
    .free_message 1 true]

theorem one_owner_refusedMeanwhile : ∃ h s, (server [1, 2]).Run (fun _ _ => True) h s ∧
    (s.client 1).sockfds = [4] ∧ (s.wire 1).length = 1 ∧ s.OneOwner h := by
  have hrun : ((server [1, 2]).exec (fun _ _ => True) (server [1, 2]).init refusedMeanwhile).any
      (fun s => (s.client 1).sockfds = [4] ∧ (s.wire 1).length = 1) = true := by
    decide +kernel
  obtain ⟨h, s, hr, hw⟩ := TransitionSystem.exists_run_of_exec
    (p := fun _ (s : Server) => (s.client 1).sockfds = [4] ∧ (s.wire 1).length = 1) hrun
  obtain ⟨h₁, h₂⟩ := of_decide_eq_true hw
  exact ⟨h, s, hr, h₁, h₂, one_owner hr⟩

end Cs2510.Chat
