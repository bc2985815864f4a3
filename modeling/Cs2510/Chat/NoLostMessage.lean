import Cs2510.Chat.TotalOrder

/-!
# Lost messages

`client->last_read` is meant to be the end of what the client has been sent, and the catch-up of a
later connection starts there. The delivery pass moves it to the entry delivered, whatever lies
between: an entry appended after the catch-up of a connection whose own delivery pass came before
the connection was registered is skipped. In the runs in which no pass moves the mark over an
unread entry (`Server.NoGap`) no message is lost (`no_lost_message`); `not_no_lost_message` is a
run that loses one.
-/

namespace Cs2510.Chat

/-- Every `send_message` returns 0. -/
def Event.Sends : Event → Prop
  | .refuse _ _ ok | .reply _ ok | .catchUp _ _ _ ok | .send _ _ _ _ _ _ ok => ok = true
  | _ => True

instance (e : Event) : Decidable e.Sends :=
  match e with
  | .refuse .. | .reply .. | .catchUp .. | .send .. => inferInstanceAs (Decidable (_ = true))
  | .accept .. | .handshake .. | .client_hash_get .. | .free_message .. | .announce ..
  | .fast_forward .. | .storeMark .. | .client_hash_add_connection .. | .recv_header ..
  | .recv_payload .. | .client_hash_remove_connection .. | .close .. | .jobqueue_dequeue ..
  | .message_log_append .. | .lockClients .. | .visit .. | .mark .. | .unlockClients .. =>
    .isTrue trivial

/-- The catch-up is past the entry at a position. -/
def ListenerPc.Past : ListenerPc → Nat → Prop
  | .catchUp (some cursor), i => i < cursor
  | .catchUp none, _ => True
  | _, _ => False

instance (pc : ListenerPc) (i : Nat) : Decidable (pc.Past i) :=
  match pc with
  | .catchUp (some cursor) => inferInstanceAs (Decidable (i < cursor))
  | .catchUp none => .isTrue trivial
  | .unborn | .handshake | .lookup | .refuse _ | .refused _ | .reply | .announce | .fastForward
  | .register | .receive | .payload _ | .out | .closing | .finished => .isFalse id

theorem ListenerPc.catching_of_past {pc : ListenerPc} {i : Nat} (h : pc.Past i) : pc.catching := by
  cases pc <;> trivial

namespace Server

/-- The log has an entry at `i` that is not client `c`'s own. -/
def Foreign (s : Server) (c : UInt16) (i : Nat) : Prop := ∃ m ∈ s.log[i]?, m.id ≠ c

instance (s : Server) (c : UInt16) (i : Nat) : Decidable (s.Foreign c i) :=
  inferInstanceAs (Decidable (∃ m ∈ s.log[i]?, m.id ≠ c))

/-- The entry at `i` was sent on a connection of client `c`. -/
def SentTo (s : Server) (c : UInt16) (i : Nat) : Prop :=
  ∃ t, (s.listener t).client_id = c ∧ (i, true) ∈ entries (s.wire t)

/-- What `last_read` means: every foreign entry up to it has been sent to the client. -/
def NoLostMessage (s : Server) : Prop :=
  ∀ c, ∀ p ∈ (s.client c).last_read, ∀ i ≤ p, s.Foreign c i → s.SentTo c i

/-- A `fast_forward` of client `c` that is in progress is past the entry at `i`. -/
def CaughtUp (s : Server) (c : UInt16) (i : Nat) : Prop :=
  ∃ t ∈ s.log_readers, (s.listener t).client_id = c ∧ (s.listener t).pc.Past i

instance (s : Server) (c : UInt16) (i : Nat) : Decidable (s.CaughtUp c i) :=
  inferInstanceAs (Decidable (∃ t ∈ s.log_readers, _ ∧ _))

/-- A delivery pass visits a connected client only if every foreign entry between its mark and the
entry delivered has been passed by a `fast_forward` of the client in progress. -/
def NoGap (s : Server) : Event → Prop
  | .visit _ last_node c _ => (s.client c).sockfds ≠ [] →
      ∀ i < last_node, (∀ p ∈ (s.client c).last_read, p < i) → s.Foreign c i → s.CaughtUp c i
  | _ => True

instance (s : Server) (e : Event) : Decidable (s.NoGap e) :=
  match e with
  | .visit _ last_node c _ => inferInstanceAs (Decidable ((s.client c).sockfds ≠ [] →
      ∀ i < last_node, (∀ p ∈ (s.client c).last_read, p < i) → s.Foreign c i → s.CaughtUp c i))
  | .accept .. | .handshake .. | .client_hash_get .. | .refuse .. | .free_message .. | .reply ..
  | .announce .. | .fast_forward .. | .catchUp .. | .storeMark .. | .client_hash_add_connection ..
  | .recv_header .. | .recv_payload .. | .client_hash_remove_connection .. | .close ..
  | .jobqueue_dequeue .. | .message_log_append .. | .lockClients .. | .send .. | .mark ..
  | .unlockClients .. => .isTrue trivial

variable {s : Server} {e : Event} {c : UInt16} {i : Nat}

theorem Foreign.lt_length (h : s.Foreign c i) : i < s.log.length := by
  obtain ⟨m, hm, -⟩ := h
  exact (List.getElem?_eq_some_iff.mp hm).1

/-- The entries the log had are foreign to whom they were. -/
theorem Foreign.of_next (h : (s.next e).Foreign c i) (hi : i < s.log.length) : s.Foreign c i := by
  obtain ⟨m, hm, hid⟩ := h
  rw [log_next, List.getElem?_append_left hi] at hm
  exact ⟨m, hm, hid⟩

/-- A connection that has been sent something keeps its client. -/
theorem Ordered.client_id_next (ho : Ordered s) (he : s.enabled e) {t : Tid} {i : Nat}
    (hi : i ∈ positions (s.wire t)) :
    ((s.next e).listener t).client_id = (s.listener t).client_id := by
  refine (listener_next he t).client_id fun hpc => ?_
  have hcov := ho.covered t i hi
  rw [hpc] at hcov
  exact hcov

/-- What was sent on a connection, or failed to be, stays so, and the connection keeps its
client. -/
theorem entries_mono (hwf : Wf s) (ho : Ordered s) (he : s.enabled e) {t : Tid} {x : Nat × Bool}
    (hx : x ∈ entries (s.wire t)) : x ∈ entries ((s.next e).wire t) ∧
      ((s.next e).listener t).client_id = (s.listener t).client_id := by
  constructor
  · rcases entries_next hwf he t with hw | ⟨_, _, _, _, _, _, hw⟩ |
      ⟨_, _, _, _, _, _, _, _, _, _, hw⟩
    all_goals rw [hw]
    · exact hx
    · exact List.mem_append_left _ hx
    · exact List.mem_append_left _ hx
  · exact ho.client_id_next he (List.mem_map.mpr ⟨x, hx, rfl⟩)

/-- What was sent to a client stays sent to it. -/
theorem SentTo.next (h : s.SentTo c i) (hwf : Wf s) (ho : Ordered s) (he : s.enabled e) :
    (s.next e).SentTo c i := by
  obtain ⟨t, rfl, hsent⟩ := h
  obtain ⟨hsent', hid⟩ := entries_mono hwf ho he hsent
  exact ⟨t, hid, hsent'⟩

/-- The mark, the catch-ups in progress and the fan-out in progress each account for what the
client has been sent. -/
structure Delivered (s : Server) : Prop where
  noLost : s.NoLostMessage
  caughtUp : ∀ t i, (s.listener t).pc.Past i → s.Foreign (s.listener t).client_id i →
    s.SentTo (s.listener t).client_id i
  fannedOut : ∀ m q c rest fds, s.sender = .fanOut m q c rest fds →
    (∀ i < q, s.Foreign c i → s.SentTo c i) ∧ (fds = (s.client c).sockfds ∨ s.SentTo c q)

theorem delivered_init (client_ids : List UInt16) : Delivered (init client_ids) where
  noLost := by simp [NoLostMessage, init]
  caughtUp := by simp [init, ListenerPc.Past]
  fannedOut := by simp [init]

/-- Where a delivery pass leaves no gap, the client has been sent everything before the entry. -/
theorem Delivered.sentTo_of_noGap (h : Delivered s) {m : Message} {q : Nat} {rest : List UInt16}
    (hg : s.NoGap (.visit m q c rest)) (hfds : (s.client c).sockfds ≠ []) (hi : i < q)
    (hf : s.Foreign c i) : s.SentTo c i := by
  by_cases hp : ∀ p ∈ (s.client c).last_read, p < i
  · obtain ⟨t, -, rfl, hpast⟩ := hg hfds i hi hp hf
    exact h.caughtUp t i hpast hf
  · push Not at hp
    obtain ⟨p, hp, hle⟩ := hp
    exact h.noLost c p hp i hle hf

/-- The mark a step leaves is one the client has been sent everything up to. -/
theorem Delivered.noLost_next (h : Delivered s) (hwf : Wf s) (ho : Ordered s) (he : s.enabled e)
    (hg : s.NoGap e) : (s.next e).NoLostMessage := by
  intro c p hp i hi hf'
  suffices p < s.log.length ∧ (s.Foreign c i → s.SentTo c i) from
    (this.2 (hf'.of_next (by omega))).next hwf ho he
  clear hf'
  rcases last_read_next s e c with hsame | ⟨t, rfl, rfl, htail⟩ | ⟨m, q, rest, hby, hq⟩
  · rw [hsame] at hp
    exact ⟨hwf.mark c p hp, h.noLost c p hp i hi⟩
  · -- the catch-up is over
    rw [htail] at hp
    unfold tail at hp
    split at hp
    · cases hp
    · cases hp
      have hpc : (s.listener t).pc = .catchUp none := he
      exact ⟨by omega, fun hf => h.caughtUp t i (by rw [hpc]; trivial) hf⟩
  · rw [hq] at hp
    obtain rfl : q = p := Option.some.inj hp
    obtain ⟨rfl, hfds, rfl⟩ | rfl := hby
    · -- the client's own entry
      obtain ⟨hlast, hm⟩ : s.SenderOk (.visit m q (m.id :: rest)) := he ▸ hwf.sender
      refine ⟨by omega, fun hf => ?_⟩
      obtain hi | rfl := Nat.lt_or_eq_of_le hi
      · exact h.sentTo_of_noGap hg hfds hi hf
      · obtain ⟨m', hm', hid⟩ := hf
        rw [hm] at hm'
        cases hm'
        exact absurd rfl hid
    · -- the entry has been fanned out
      obtain ⟨⟨hlast, -⟩, -, hfds, -⟩ : s.SenderOk (.fanOut m q c rest []) := he ▸ hwf.sender
      obtain ⟨hbefore, hq⟩ := h.fannedOut m q c rest [] he
      refine ⟨by omega, fun hf => ?_⟩
      obtain hi | rfl := Nat.lt_or_eq_of_le hi
      · exact hbefore i hi hf
      · exact hq.resolve_left (Ne.symm hfds)

/-- A catch-up starts past entries before the mark only. -/
theorem past_fast_forward {t : Tid}
    (hpast : ((s.next (.fast_forward t)).listener t).pc.Past i)
    (hf : s.Foreign (s.listener t).client_id i) :
    ∃ p ∈ (s.client (s.listener t).client_id).last_read, i < p := by
  have hstart : (ListenerPc.catchUp (s.firstUnread (s.listener t).client_id)).Past i := by
    simpa [next] using hpast
  unfold firstUnread at hstart
  split at hstart
  · split at hstart
    · next hlog =>
      have := hf.lt_length
      omega
    · exact absurd hstart (Nat.not_lt_zero i)
  · next p hp => exact ⟨p, hp, hstart⟩

/-- A step of the catch-up loop moves it past the entry it was at, and no further. -/
theorem past_nextNode {cursor : Nat} (h : (ListenerPc.catchUp (s.nextNode cursor)).Past i)
    (hi : i < s.log.length) : i < cursor ∨ i = cursor := by
  unfold nextNode at h
  split at h
  · simp only [ListenerPc.Past] at h
    omega
  · omega

/-- What the catch-up loop gets past has been sent, if what it was past before has been. -/
theorem sentTo_of_catchUp (hwf : Wf s) (ho : Ordered s) {t : Tid} {cursor : Nat} {m : Message}
    {ok : Bool} (he : s.enabled (.catchUp t cursor m ok))
    (hold : i < cursor → s.SentTo (s.listener t).client_id i)
    (hpast : ((s.next (.catchUp t cursor m ok)).listener t).pc.Past i)
    (hf : s.Foreign (s.listener t).client_id i) :
    (s.next (.catchUp t cursor m ok)).SentTo (s.listener t).client_id i := by
  have hid := (listener_next he t).client_id (by rw [he.1]; nofun)
  have hold' : i < cursor → (s.next (.catchUp t cursor m ok)).SentTo (s.listener t).client_id i :=
    fun hi => (hold hi).next hwf ho he
  by_cases hown : m.id = (s.listener t).client_id
  · simp only [next, if_pos hown, goto_listener, if_true] at hpast
    obtain hi | rfl := past_nextNode hpast hf.lt_length
    · exact hold' hi
    · obtain ⟨m', hm', hne⟩ := hf
      rw [he.2.1] at hm'
      cases hm'
      exact absurd hown hne
  by_cases hm : m.Marshals
  · cases ok with
    | false =>
      simp only [next, if_neg hown, if_neg (not_not.mpr hm), Bool.false_eq_true, if_false,
        goto_listener, if_true] at hpast
      cases hpast
    | true =>
      simp only [next, if_neg hown, if_neg (not_not.mpr hm), if_true, goto_listener] at hpast
      obtain hi | rfl := past_nextNode hpast hf.lt_length
      · exact hold' hi
      · refine ⟨t, hid, ?_⟩
        rw [entries_catchUp (hwf.socket (by rw [he.1]; rfl)) hown hm, if_pos rfl]
        exact List.mem_append_right _ List.mem_cons_self
  · simp only [next, if_neg hown, if_pos hm, crash, he.1] at hpast
    exact hold' hpast

/-- The log does not grow during a catch-up. -/
theorem log_next_of_past (hwf : Wf s) (he : s.enabled e) {t : Tid}
    (hpast : ((s.next e).listener t).pc.Past i) : (s.next e).log = s.log := by
  have hcatch := ListenerPc.catching_of_past hpast
  rw [log_next]
  cases e with
  | message_log_append m =>
    have hmem : t ∈ s.log_readers := hwf.readers t hcatch
    rw [he.2] at hmem
    cases hmem
  | _ => exact List.append_nil _

theorem Delivered.caughtUp_next (h : Delivered s) (hwf : Wf s) (ho : Ordered s) (he : s.enabled e)
    {t : Tid} (hpast : ((s.next e).listener t).pc.Past i)
    (hf : (s.next e).Foreign ((s.next e).listener t).client_id i) :
    (s.next e).SentTo ((s.next e).listener t).client_id i := by
  have hext := listener_next he t
  have hlog := log_next_of_past hwf he hpast
  rcases hext.catching (ListenerPc.catching_of_past hpast) with hsame | rfl | ⟨cursor, m, ok, rfl⟩
  · rw [hsame] at hpast hf ⊢
    exact (h.caughtUp t i hpast (hf.of_next (hlog ▸ hf.lt_length))).next hwf ho he
  · have hpc : (s.listener t).pc = .fastForward := he
    rw [hext.client_id (by rw [hpc]; nofun)] at hf ⊢
    replace hf := hf.of_next (hlog ▸ hf.lt_length)
    obtain ⟨p, hp, hlt⟩ := past_fast_forward hpast hf
    exact (h.noLost _ p hp i (Nat.le_of_lt hlt) hf).next hwf ho he
  · rw [hext.client_id (by rw [he.1]; nofun)] at hf ⊢
    replace hf := hf.of_next (hlog ▸ hf.lt_length)
    exact sentTo_of_catchUp hwf ho he (fun hi => h.caughtUp t i (by rw [he.1]; exact hi) hf) hpast
      hf

theorem Delivered.fannedOut_next (h : Delivered s) (hwf : Wf s) (ho : Ordered s)
    (he : s.enabled e) (hg : s.NoGap e) (hsends : e.Sends) {m : Message} {q : Nat}
    {rest : List UInt16} {fds : List Fd} (hpc : (s.next e).sender = .fanOut m q c rest fds) :
    (∀ i < q, (s.next e).Foreign c i → (s.next e).SentTo c i) ∧
      (fds = ((s.next e).client c).sockfds ∨ (s.next e).SentTo c q) := by
  by_cases hsame : (s.next e).sender = s.sender
  · rw [hsame] at hpc
    have hlock : s.sender.holdsClientsLock = true := by rw [hpc]; rfl
    have hlast : s.SenderOk (.fanOut m q c rest fds) := hpc ▸ hwf.sender
    obtain ⟨hbefore, hq⟩ := h.fannedOut m q c rest fds hpc
    rw [(sockfds_next he c).resolve_right (by rw [hlock]; nofun)]
    refine ⟨fun i hi hf => ?_, hq.imp_right fun hq => hq.next hwf ho he⟩
    exact (hbefore i hi (hf.of_next (by have := hlast.1.1; omega))).next hwf ho he
  cases e with
  | visit m' q' c' rest' =>
    have hs : s.SenderOk (.visit m' q' (c' :: rest')) := he ▸ hwf.sender
    simp only [next] at hpc
    split_ifs at hpc with hfds hid
    cases hpc
    refine ⟨fun i hi hf => ?_, .inl ?_⟩
    · exact (h.sentTo_of_noGap hg hfds hi (hf.of_next (by have := hs.1; omega))).next hwf ho he
    · simp [next, hfds, hid]
  | send m' q' c' rest' fd fds' ok =>
    by_cases hm : m'.Marshals
    swap
    · exact absurd (by simp [next, hm, crash]) hsame
    have hs : s.SenderOk (.fanOut m' q' c' rest' (fd :: fds')) := he.1 ▸ hwf.sender
    obtain ⟨hbefore, -⟩ := h.fannedOut m' q' c' rest' (fd :: fds') he.1
    obtain ⟨t, -, hid, hreg, hentries⟩ := entries_send hwf he hm
    rw [next, if_neg (not_not.mpr hm)] at hpc
    cases hpc
    refine ⟨fun i hi hf => ?_, .inr ⟨t, ?_, ?_⟩⟩
    · exact (hbefore i hi (hf.of_next (by have := hs.1.1; omega))).next hwf ho he
    · rw [listener_next_of_bySender rfl, hid]
    · obtain rfl : ok = true := hsends
      rw [hentries, if_pos rfl]
      exact List.mem_append_right _ List.mem_cons_self
  | jobqueue_dequeue | message_log_append | lockClients | mark | unlockClients => cases hpc
  | _ => exact absurd (sender_next rfl) hsame

theorem Delivered.step (h : Delivered s) (hwf : Wf s) (ho : Ordered s) (he : s.enabled e)
    (hg : s.NoGap e) (hsends : e.Sends) : Delivered (s.next e) where
  noLost := h.noLost_next hwf ho he hg
  caughtUp _ _ := h.caughtUp_next hwf ho he
  fannedOut _ _ _ _ _ := h.fannedOut_next hwf ho he hg hsends

theorem delivered_of_reach {client_ids : List UInt16}
    (h : (server client_ids).Reach (fun s e => e.Sends ∧ s.NoGap e) s) : Delivered s :=
  h.invariant_of (fun _ hr => (⟨wf_of_reach hr, ordered_of_reach hr⟩ : _ ∧ _))
    (delivered_init client_ids)
    fun _ _ hj hd he hg => hd.step hj.1 hj.2 (And.right he) hg.2 hg.1

end Server

/-- **No lost message**, in every run in which every send succeeds and no delivery pass moves a
mark over an unread entry. -/
theorem no_lost_message {client_ids : List UInt16} {s : Server}
    (h : (server client_ids).Reach (fun s e => e.Sends ∧ s.NoGap e) s) : s.NoLostMessage :=
  (Server.delivered_of_reach h).noLost

/-- Client 2 gets client 1's announcement in its catch-up, leaves, and comes back: its second
catch-up starts at its mark. -/
def reconnecting : List Event :=
  let conn id := create_message_header 0 id MESG_CONN
  let bye := create_message_header 0 2 MESG_DCON
  connecting 0 4 1 ++ [.fast_forward 0, .storeMark 0, .client_hash_add_connection 0] ++
  appending (conn 1) 0 [] ++
    [.visit (conn 1) 0 1 [2], .visit (conn 1) 0 2 [], .unlockClients (conn 1) 0] ++
  connecting 1 5 2 ++ [.fast_forward 1, .catchUp 1 0 (conn 1) true, .storeMark 1,
    .client_hash_add_connection 1, .recv_header 1 (some bye), .client_hash_remove_connection 1,
    .close 1] ++
  appending (conn 2) 1 [bye] ++ delivering (conn 2) 1 1 [2] 4 ++
    [.visit (conn 2) 1 2 [], .unlockClients (conn 2) 1] ++
  connecting 2 5 2 ++ [.fast_forward 2, .catchUp 2 0 (conn 1) true, .catchUp 2 1 (conn 2) true,
    .storeMark 2, .client_hash_add_connection 2] ++
  appending bye 2 [conn 2] ++ delivering bye 2 1 [2] 4 ++ [.visit bye 2 2 []]

theorem no_lost_message_reconnecting :
    ∃ s, (server [1, 2]).Reach (fun s e => e.Sends ∧ s.NoGap e) s ∧
      (s.client 1).last_read = some 2 ∧ (s.client 2).last_read = some 2 ∧ s.NoLostMessage := by
  have hrun : ((server [1, 2]).exec (fun s e => e.Sends ∧ s.NoGap e) (server [1, 2]).init
      reconnecting).any
      (fun s => (s.client 1).last_read = some 2 ∧ (s.client 2).last_read = some 2) = true := by
    decide +kernel
  obtain ⟨s, hs, hw⟩ := TransitionSystem.exists_reach_of_exec hrun
  obtain ⟨h₁, h₂⟩ := of_decide_eq_true hw
  exact ⟨s, hs, h₁, h₂, no_lost_message hs⟩

/-! ### A lost message -/

/-- An action that sends no log entry. -/
def Event.quiet : Event → Bool
  | .catchUp .. | .send .. => false
  | _ => true

theorem Server.entries_of_quiet {client_ids : List UInt16} {s : Server}
    (h : (server client_ids).Reach (fun _ e => e.Sends ∧ e.quiet) s) (t : Tid) :
    entries (s.wire t) = [] := by
  refine h.invariant_of (fun _ => wf_of_reach) (I := fun s => entries (s.wire t) = []) rfl
    fun s e hwf hnil he hg => ?_
  rcases entries_next hwf (And.right he) t with hsame | ⟨_, _, _, rfl, _⟩ |
    ⟨_, _, _, _, _, _, rfl, _⟩
  · exact hsame.trans hnil
  · cases hg.2
  · cases hg.2

/-- Client 1 catches up with the empty log; client 2's announcement is appended and delivered before
client 1's connection is registered; then client 1's own announcement moves its mark over it. -/
def announcedBetween : List Event :=
  let conn id := create_message_header 0 id MESG_CONN
  connecting 1 5 2 ++ connecting 0 4 1 ++ [.fast_forward 0, .storeMark 0] ++
  appending (conn 2) 0 [conn 1] ++
    [.visit (conn 2) 0 1 [2], .visit (conn 2) 0 2 [], .unlockClients (conn 2) 0] ++
  [.client_hash_add_connection 0] ++
  appending (conn 1) 1 [] ++ [.visit (conn 1) 1 1 [2]]

/-- Client 1 never gets client 2's announcement. -/
theorem not_no_lost_message : ¬ ∀ s, (server [1, 2]).Reach (fun _ e => e.Sends) s →
    s.NoLostMessage := by
  have hrun : ((server [1, 2]).exec (fun _ e => e.Sends ∧ e.quiet) (server [1, 2]).init
      announcedBetween).any (fun s => (s.client 1).last_read = some 1 ∧ s.Foreign 1 0) = true := by
    decide +kernel
  obtain ⟨s, hs, hw⟩ := TransitionSystem.exists_reach_of_exec hrun
  obtain ⟨hmark, hforeign⟩ := of_decide_eq_true hw
  intro h
  obtain ⟨t, -, hsent⟩ := h s (hs.mono fun _ _ hg => hg.1) 1 1 hmark 0 (by omega) hforeign
  rw [Server.entries_of_quiet hs t] at hsent
  cases hsent

end Cs2510.Chat
