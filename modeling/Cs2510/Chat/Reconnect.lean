import Cs2510.Chat.CatchUp
import Cs2510.Chat.NoDuplicate

/-!
# What a client is sent over its connections

A client that connects, leaves and comes back is caught up by `fast_forward` and served by the
sender in turns, and both move its mark. In the runs in which its connections follow each other,
the sender is idle when a catch-up starts, and every catch-up starts from a mark that is NULL or at
an entry of the client's own, nothing is sent to the client twice.
-/

namespace Cs2510.Chat

/-- The entry that the delivery pass has still to deal with at client `c`. -/
def SenderPc.Pending : SenderPc → UInt16 → Nat → Prop
  | .lockClients _ last_node, _, q => q = last_node
  | .visit _ last_node rest, c, q => q = last_node ∧ c ∈ rest
  | .fanOut _ last_node c' rest _, c, q => q = last_node ∧ (c = c' ∨ c ∈ rest)
  | _, _, _ => False

namespace Server

/-- The connections of a client follow each other: a catch-up starts while the sender is idle and no
other connection of the client is catching up, a connection is registered when no other one is, and
every send succeeds. -/
def InTurn (s : Server) : Event → Prop
  | .fast_forward t => s.sender = .dequeue ∧
      ∀ t' ∈ s.log_readers, (s.listener t').client_id ≠ (s.listener t).client_id
  | .client_hash_add_connection t => (s.client (s.listener t).client_id).sockfds = []
  | e => e.Sends

instance (s : Server) (e : Event) : Decidable (s.InTurn e) :=
  match e with
  | .fast_forward _ => inferInstanceAs (Decidable (_ ∧ _))
  | .client_hash_add_connection _ => inferInstanceAs (Decidable (_ = []))
  | .refuse .. | .reply .. | .catchUp .. | .send .. => inferInstanceAs (Decidable (_ = true))
  | .accept .. | .handshake .. | .client_hash_get .. | .free_message .. | .announce ..
  | .storeMark .. | .recv_header .. | .recv_payload .. | .client_hash_remove_connection ..
  | .close .. | .jobqueue_dequeue .. | .message_log_append .. | .lockClients .. | .visit ..
  | .mark .. | .unlockClients .. => .isTrue trivial

/-- A catch-up starts from a mark that is NULL or at an entry of the client's own. -/
def ReadsOn (s : Server) : Event → Prop
  | .fast_forward t => s.OwnMark (s.listener t).client_id
  | _ => True

instance (s : Server) (e : Event) : Decidable (s.ReadsOn e) :=
  match e with
  | .fast_forward t => inferInstanceAs (Decidable (s.OwnMark (s.listener t).client_id))
  | .accept .. | .handshake .. | .client_hash_get .. | .refuse .. | .free_message .. | .reply ..
  | .announce .. | .catchUp .. | .storeMark .. | .client_hash_add_connection .. | .recv_header ..
  | .recv_payload .. | .client_hash_remove_connection .. | .close .. | .jobqueue_dequeue ..
  | .message_log_append .. | .lockClients .. | .visit .. | .send .. | .mark ..
  | .unlockClients .. => .isTrue trivial

theorem InTurn.sends {s : Server} {e : Event} (h : s.InTurn e) : e.Sends := by
  cases e <;> first | exact h | trivial

/-- No entry is sent to a client twice, on one connection or on two. -/
structure SentOnce (s : Server) : Prop where
  nodup : ∀ t, (positions (s.wire t)).Nodup
  single : ∀ t t' i, (s.listener t').client_id = (s.listener t).client_id →
    i ∈ positions (s.wire t) → i ∈ positions (s.wire t') → t' = t

/-- What a client has been sent is up to its mark, or the catch-up or the fan-out that sent it is
not over; and both start behind what has been sent. -/
structure Session (s : Server) : Prop extends SentOnce s where
  accounted : ∀ t, ∀ i ∈ positions (s.wire t),
    (∃ p ∈ (s.client (s.listener t).client_id).last_read, i ≤ p) ∨
    (s.listener t).pc.catching ∨
    ∃ m rest, s.sender = .fanOut m i (s.listener t).client_id rest []
  behind : ∀ t cursor, (s.listener t).pc = .catchUp (some cursor) → ∀ t', t' ≠ t →
    (s.listener t').client_id = (s.listener t).client_id → ∀ i ∈ positions (s.wire t'), i < cursor
  catching : ∀ t t', (s.listener t).pc.catching → (s.listener t').pc.catching →
    (s.listener t').client_id = (s.listener t).client_id → t' = t
  idle : ∀ t, (s.listener t).pc.catching → s.sender = .dequeue ∨ ∃ m, s.sender = .append m
  connections : ∀ c, (s.client c).sockfds.length ≤ 1
  pending : ∀ c q, s.sender.Pending c q → ∀ p ∈ (s.client c).last_read, p < q
  clients : s.clients.Nodup
  toVisit : s.sender.toVisit.Nodup

variable {s : Server} {e : Event} {t : Tid} {c : UInt16} {pc pc' : ListenerPc}

theorem session_init (client_ids : List UInt16) : Session (init client_ids) where
  nodup := by simp [init, positions, entries]
  single := by simp [init, positions, entries]
  accounted := by simp [init, positions, entries]
  behind := by simp [init]
  catching := by simp [init, ListenerPc.catching]
  idle := by simp [init]
  connections := by simp [init]
  pending := by simp [init]
  clients := nodup_init client_ids
  toVisit := .nil

/-! ## Program points -/

theorem catching_of_pc {cursor : Option Nat} (h : pc = .catchUp cursor) : pc.catching := by
  rw [h]; rfl

theorem ne_handshake_of_catching (h : pc.catching) : pc ≠ .handshake := by
  rintro rfl; cases h

theorem Moves.left_catching (hm : s.Moves t e pc pc') (hpc : pc.catching) :
    pc'.catching ∨ e = .storeMark t ∨ ∃ cursor m, e = .catchUp t cursor m false := by
  cases hm with
  | storeMark => exact .inr (.inl rfl)
  | abandon => exact .inr (.inr ⟨_, _, rfl⟩)
  | skip | catchUp | oversized => exact .inl rfl
  | _ => cases hpc

theorem Moves.still_catching {cursor : Nat} {m : Message}
    (hm : s.Moves t (.catchUp t cursor m true) pc pc') : pc'.catching := by
  cases hm <;> rfl

theorem Moves.cursor_le {i j : Nat} (hm : s.Moves t e pc pc') (hpc : pc = .catchUp (some i))
    (hpc' : pc' = .catchUp (some j)) : i ≤ j := by
  have hnext : ∀ {k}, s.nextNode i = some k → i ≤ k := by
    intro k hk
    unfold nextNode at hk
    split at hk <;> cases hk
    omega
  cases hm with
  | skip =>
    cases hpc
    exact hnext (ListenerPc.catchUp.inj hpc')
  | catchUp =>
    cases hpc
    exact hnext (ListenerPc.catchUp.inj hpc')
  | oversized =>
    cases hpc
    cases hpc'
    exact Nat.le_refl _
  | _ => first | cases hpc' | cases hpc

/-- Who is catching up after a step was so before it, or has just started. -/
theorem catching_next (he : s.enabled e) (hpc : ((s.next e).listener t).pc.catching) :
    ((s.listener t).pc.catching ∧
      ((s.next e).listener t).client_id = (s.listener t).client_id) ∨ e = .fast_forward t := by
  have hid : (s.listener t).pc.catching →
      ((s.next e).listener t).client_id = (s.listener t).client_id :=
    fun h => (listener_next he t).client_id (ne_handshake_of_catching h)
  rcases (listener_next he t).catching hpc with hsame | rfl | ⟨cursor, m, ok, rfl⟩
  · rw [hsame] at hpc
    exact .inl ⟨hpc, hid hpc⟩
  · exact .inr rfl
  · have hold := catching_of_pc he.1
    exact .inl ⟨hold, hid hold⟩

/-! ## What is sent -/

theorem positions_of_entries {s' : Server} (h : entries (s'.wire t) = entries (s.wire t)) :
    positions (s'.wire t) = positions (s.wire t) := by
  rw [positions, h, positions]

/-- The entry the sender delivers has not been sent to the client. -/
theorem Session.not_sent (h : Session s) {m : Message} {q : Nat} {rest : List UInt16} {fd : Fd}
    {fds : List Fd} (hpc : s.sender = .fanOut m q c rest (fd :: fds)) {t' : Tid}
    (ht' : (s.listener t').client_id = c) : q ∉ positions (s.wire t') := by
  intro hq
  rcases h.accounted t' q hq with ⟨p, hp, hle⟩ | hcatch | ⟨m', rest', hpc'⟩
  · rw [ht'] at hp
    have hlt := h.pending c q (by rw [hpc]; exact ⟨rfl, .inl rfl⟩) p hp
    omega
  · rcases h.idle t' hcatch with hs | ⟨m', hs⟩
    all_goals
      rw [hpc] at hs
      cases hs
  · rw [hpc] at hpc'
    cases hpc'

/-- A step sends a connection at most one entry, which its client has not been sent, and nothing
to the others. -/
theorem Session.positions_next (h : Session s) (hwf : Wf s) (ho : Ordered s) (he : s.enabled e)
    (t : Tid) : positions ((s.next e).wire t) = positions (s.wire t) ∨
    ∃ i, positions ((s.next e).wire t) = positions (s.wire t) ++ [i] ∧
      (s.listener t).pc ≠ .handshake ∧
      (∀ t', (s.listener t').client_id = (s.listener t).client_id → i ∉ positions (s.wire t')) ∧
      ∀ t', t' ≠ t → positions ((s.next e).wire t') = positions (s.wire t') := by
  rcases entries_next hwf he t with hw | ⟨cursor, m, ok, rfl, -, -, hw⟩ |
    ⟨m, q, rest, fd, fds, ok, rfl, -, hfd, hreg, hw⟩
  · exact .inl (positions_of_entries hw)
  · refine .inr ⟨cursor, by rw [positions, hw, List.map_append]; rfl, ?_, fun t' ht' hmem => ?_,
      fun t' ht' => ?_⟩
    · exact ne_handshake_of_catching (catching_of_pc he.1)
    · by_cases htt : t' = t
      · have hcov := ho.covered t cursor (htt ▸ hmem)
        rw [he.1] at hcov
        exact Nat.lt_irrefl _ hcov
      · exact Nat.lt_irrefl _ (h.behind t cursor he.1 t' htt ht' cursor hmem)
    · rcases entries_next hwf he t' with hw' | ⟨_, _, _, heq, -⟩ | ⟨_, _, _, _, _, _, heq, -⟩
      · exact positions_of_entries hw'
      · cases heq
        exact absurd rfl ht'
      · cases heq
  · refine .inr ⟨q, by rw [positions, hw, List.map_append]; rfl, ?_,
      fun t' ht' => h.not_sent he.1 ht', fun t' ht' => ?_⟩
    · rintro hpc
      rw [hpc] at hreg
      cases hreg
    · rcases entries_next hwf he t' with hw' | ⟨_, _, _, heq, -⟩ |
        ⟨_, _, _, _, _, _, heq, -, hfd', hreg', -⟩
      · exact positions_of_entries hw'
      · cases heq
      · have hfds : fd = _ := (Event.send.inj heq).2.2.2.2.1
        exact absurd (hwf.fd_inj ((hfd'.trans hfds.symm).trans hfd.symm)
          (ListenerPc.live_of_registered hreg) (ListenerPc.live_of_registered hreg')) ht'

theorem Session.sentOnce_next (h : Session s) (hwf : Wf s) (ho : Ordered s) (he : s.enabled e) :
    SentOnce (s.next e) := by
  constructor
  · intro t
    rcases h.positions_next hwf ho he t with hw | ⟨i, hw, -, hnew, -⟩
    · rw [hw]
      exact h.nodup t
    · rw [hw, List.nodup_append]
      refine ⟨h.nodup t, by simp, fun a ha b hb hab => ?_⟩
      rw [List.mem_singleton.mp hb] at hab
      exact hnew t rfl (hab ▸ ha)
  · intro t t' i hid hi hi'
    by_contra hne
    rcases h.positions_next hwf ho he t with hw | ⟨j, hw, hpc, hnew, hrest⟩
    · rcases h.positions_next hwf ho he t' with hw' | ⟨j, hw', hpc, hnew, -⟩
      · rw [hw] at hi
        rw [hw'] at hi'
        rw [ho.client_id_next he hi, ho.client_id_next he hi'] at hid
        exact hne (h.single t t' i hid hi hi')
      · rw [hw] at hi
        rw [ho.client_id_next he hi, (listener_next he t').client_id hpc] at hid
        rw [hw'] at hi'
        rcases List.mem_append.mp hi' with hi' | hi'
        · exact hne (h.single t t' i hid hi hi')
        · rw [List.mem_singleton.mp hi'] at hi
          exact hnew t hid.symm hi
    · rw [hrest t' hne] at hi'
      rw [ho.client_id_next he hi', (listener_next he t).client_id hpc] at hid
      rw [hw] at hi
      rcases List.mem_append.mp hi with hi | hi
      · exact hne (h.single t t' i hid hi hi')
      · rw [List.mem_singleton.mp hi] at hi'
        exact hnew t' hid hi'

/-! ## The mark -/

/-- The mark a step leaves is behind no entry that the old one was not behind. -/
theorem mark_next (hwf : Wf s) (he : s.enabled e) {i : Nat} (hi : i < s.log.length)
    (hp : ∃ p ∈ (s.client c).last_read, i ≤ p) :
    ∃ p ∈ ((s.next e).client c).last_read, i ≤ p := by
  rcases last_read_next s e c with hsame | ⟨t, -, -, htail⟩ | ⟨m, q, rest, hby, hq⟩
  · rwa [hsame]
  · refine ⟨s.log.length - 1, ?_, by omega⟩
    rw [htail, tail, if_neg (by omega)]
    rfl
  · refine ⟨q, hq, ?_⟩
    have hlast : q + 1 = s.log.length := by
      obtain ⟨rfl, -⟩ | rfl := hby
      · obtain ⟨hlast, -⟩ : s.SenderOk (.visit m q (c :: rest)) :=
          (show s.sender = _ from he) ▸ hwf.sender
        exact hlast
      · obtain ⟨⟨hlast, -⟩, -⟩ : s.SenderOk (.fanOut m q c rest []) :=
          (show s.sender = _ from he) ▸ hwf.sender
        exact hlast
    omega

/-- The mark reaches the end of the log when a catch-up is over. -/
theorem mark_storeMark {i : Nat} (hi : i < s.log.length) :
    ∃ p ∈ ((s.next (.storeMark t)).client (s.listener t).client_id).last_read, i ≤ p := by
  refine ⟨s.log.length - 1, ?_, by omega⟩
  simp only [next, goto_client, unlockLog_client, setMark_last_read, if_true, tail]
  rw [if_neg (by omega)]
  rfl

/-- What was accounted for is so after a step in which every send succeeds. -/
theorem Session.accounted_old (h : Session s) (hwf : Wf s) (ho : Ordered s) (he : s.enabled e)
    (hsends : e.Sends) {i : Nat} (hi : i ∈ positions (s.wire t)) :
    (∃ p ∈ ((s.next e).client ((s.next e).listener t).client_id).last_read, i ≤ p) ∨
    ((s.next e).listener t).pc.catching ∨
    ∃ m rest, (s.next e).sender = .fanOut m i ((s.next e).listener t).client_id rest [] := by
  have hlt := ho.lt_length hi
  rw [ho.client_id_next he hi]
  rcases h.accounted t i hi with hp | hcatch | ⟨m, rest, hpc⟩
  · exact .inl (mark_next hwf he hlt hp)
  · by_cases ht : e.listener = some t
    · rcases (moves_next he ht).left_catching hcatch with hcatch | rfl | ⟨cursor, m, rfl⟩
      · exact .inr (.inl hcatch)
      · exact .inl (mark_storeMark hlt)
      · cases hsends
    · rw [listener_next_of_ne ht]
      exact .inr (.inl hcatch)
  · cases hby : e.bySender with
    | false => exact .inr (.inr ⟨m, rest, by rw [sender_next hby, hpc]⟩)
    | true =>
      cases e with
      | mark m' q c' rest' =>
        rw [show s.sender = .fanOut m' q c' rest' [] from he] at hpc
        cases hpc
        exact .inl ⟨i, by simp [next, setMark_last_read], Nat.le_refl i⟩
      | send =>
        have := he.1.symm.trans hpc
        cases this
      | jobqueue_dequeue | message_log_append =>
        have := he.1.symm.trans hpc
        cases this
      | lockClients | visit | unlockClients =>
        have := (show s.sender = _ from he).symm.trans hpc
        cases this
      | _ => cases hby

theorem Session.accounted_next (h : Session s) (hwf : Wf s) (ho : Ordered s) (he : s.enabled e)
    (hsends : e.Sends) (t : Tid) {i : Nat} (hi : i ∈ positions ((s.next e).wire t)) :
    (∃ p ∈ ((s.next e).client ((s.next e).listener t).client_id).last_read, i ≤ p) ∨
    ((s.next e).listener t).pc.catching ∨
    ∃ m rest, (s.next e).sender = .fanOut m i ((s.next e).listener t).client_id rest [] := by
  rcases entries_next hwf he t with hw | ⟨cursor, m, ok, rfl, -, -, -⟩ |
    ⟨m, q, rest, fd, fds, ok, rfl, hm, -, -, hw⟩
  · rw [positions_of_entries hw] at hi
    exact h.accounted_old hwf ho he hsends hi
  · obtain rfl : ok = true := hsends
    exact .inr (.inl (moves_next he rfl).still_catching)
  · rw [positions, hw, List.map_append, ← positions] at hi
    rcases List.mem_append.mp hi with hi | hi
    · exact h.accounted_old hwf ho he hsends hi
    · obtain rfl := List.mem_singleton.mp hi
      -- the client has one connection
      obtain ⟨-, -, -, hsuff⟩ : s.SenderOk (.fanOut m i _ rest (fd :: fds)) := he.1 ▸ hwf.sender
      have hlen := hsuff.length_le.trans (h.connections _)
      obtain rfl : fds = [] := List.eq_nil_of_length_eq_zero (by simpa using hlen)
      refine .inr (.inr ⟨m, rest, ?_⟩)
      rw [listener_next_of_bySender rfl, next, if_neg (not_not.mpr hm)]

/-! ## Catching up -/

/-- A catch-up starts behind everything the client has been sent. -/
theorem Session.behind_fast_forward (h : Session s) (hwf : Wf s) (ho : Ordered s)
    (hturn : s.InTurn (.fast_forward t)) (hreads : s.ReadsOn (.fast_forward t)) {cursor : Nat}
    (hfirst : s.firstUnread (s.listener t).client_id = some cursor) {t' : Tid}
    (hid : (s.listener t').client_id = (s.listener t).client_id) {i : Nat}
    (hi : i ∈ positions (s.wire t')) : i < cursor := by
  obtain ⟨hsender, hreaders⟩ := hturn
  rcases h.accounted t' i hi with ⟨p, hp, hle⟩ | hcatch | ⟨m, rest, hpc⟩
  · rw [hid] at hp
    obtain rfl : p = cursor := by
      rw [firstUnread, hp] at hfirst
      exact Option.some.inj hfirst
    refine Nat.lt_of_le_of_ne hle ?_
    rintro rfl
    obtain ⟨m, hm, hne⟩ := ho.foreign t' i hi
    exact hreads i hp ⟨m, hm, hid ▸ hne⟩
  · exact absurd hid (hreaders t' (hwf.readers t' hcatch))
  · rw [hsender] at hpc
    cases hpc

/-- Nobody but a listener itself sends to a client while it catches up. -/
theorem Session.quiet_while_catching (h : Session s) (hwf : Wf s) (he : s.enabled e)
    (hcatch : (s.listener t).pc.catching) {t' : Tid} (ht' : t' ≠ t)
    (hid : (s.listener t').client_id = (s.listener t).client_id) :
    positions ((s.next e).wire t') = positions (s.wire t') := by
  rcases entries_next hwf he t' with hw | ⟨cursor, m, ok, rfl, -⟩ |
    ⟨m, q, rest, fd, fds, ok, rfl, -⟩
  · exact positions_of_entries hw
  · exact absurd (h.catching t t' hcatch (catching_of_pc he.1) hid) ht'
  · rcases h.idle t hcatch with hs | ⟨m', hs⟩
    all_goals
      have := he.1.symm.trans hs
      cases this

theorem Session.behind_next (h : Session s) (hwf : Wf s) (ho : Ordered s) (he : s.enabled e)
    (hturn : s.InTurn e) (hreads : s.ReadsOn e) {cursor : Nat}
    (hpc : ((s.next e).listener t).pc = .catchUp (some cursor)) {t' : Tid} (ht' : t' ≠ t)
    (hid : ((s.next e).listener t').client_id = ((s.next e).listener t).client_id) {i : Nat}
    (hi : i ∈ positions ((s.next e).wire t')) : i < cursor := by
  rcases catching_next he (catching_of_pc hpc) with ⟨hcatch, hidt⟩ | rfl
  · -- the id of `t'` is the one it has sent under
    have hid' : i ∈ positions (s.wire t') →
        (s.listener t').client_id = (s.listener t).client_id := by
      intro hmem
      rw [← hidt, ← hid, ho.client_id_next he hmem]
    have hold : i ∈ positions (s.wire t') := by
      rcases h.positions_next hwf ho he t' with hw | ⟨j, hw, hne, -⟩
      · rwa [hw] at hi
      · have hidt' : (s.listener t').client_id = (s.listener t).client_id := by
          rw [← hidt, ← hid, (listener_next he t').client_id hne]
        rwa [h.quiet_while_catching hwf he hcatch ht' hidt'] at hi
    obtain ⟨cursor₀, hcursor₀⟩ : ∃ cursor₀, (s.listener t).pc = .catchUp cursor₀ := by
      revert hcatch
      cases (s.listener t).pc with
      | catchUp cursor₀ => exact fun _ => ⟨cursor₀, rfl⟩
      | _ => rintro ⟨⟩
    by_cases ht : e.listener = some t
    · cases cursor₀ with
      | none =>
        have hmoves := moves_next he ht
        rw [hcursor₀, hpc] at hmoves
        cases hmoves
      | some j =>
        have hle := (moves_next he ht).cursor_le hcursor₀ hpc
        have := h.behind t j hcursor₀ t' ht' (hid' hold) i hold
        omega
    · rw [listener_next_of_ne ht] at hpc
      exact h.behind t cursor hpc t' ht' (hid' hold) i hold
  · have hold : i ∈ positions (s.wire t') := by
      rcases entries_next hwf he t' with hw | ⟨_, _, _, heq, -⟩ | ⟨_, _, _, _, _, _, heq, -⟩
      · rwa [positions_of_entries hw] at hi
      · cases heq
      · cases heq
    have hfirst : s.firstUnread (s.listener t).client_id = some cursor := by
      have hstart : ((s.next (.fast_forward t)).listener t).pc =
          .catchUp (s.firstUnread (s.listener t).client_id) := by simp [next]
      exact ListenerPc.catchUp.inj (hstart.symm.trans hpc)
    have hidt : ((s.next (.fast_forward t)).listener t).client_id = (s.listener t).client_id := by
      simp [next]
    refine h.behind_fast_forward hwf ho hturn hreads hfirst ?_ hold
    rw [← hidt, ← hid, ho.client_id_next he hold]

theorem Session.catching_next (h : Session s) (hwf : Wf s) (he : s.enabled e)
    (hturn : s.InTurn e) {t' : Tid} (ht : ((s.next e).listener t).pc.catching)
    (ht' : ((s.next e).listener t').pc.catching)
    (hid : ((s.next e).listener t').client_id = ((s.next e).listener t).client_id) : t' = t := by
  have hsame : ∀ t₁ t₂, e = .fast_forward t₁ → (s.listener t₂).pc.catching →
      ((s.next e).listener t₂).client_id = (s.listener t₂).client_id →
      ((s.next e).listener t₂).client_id ≠ ((s.next e).listener t₁).client_id := by
    rintro t₁ t₂ rfl hcatch hid₂ heq
    have hid₁ : ((s.next (.fast_forward t₁)).listener t₁).client_id =
        (s.listener t₁).client_id := by simp [next]
    rw [hid₁, hid₂] at heq
    exact hturn.2 t₂ (hwf.readers t₂ hcatch) heq
  rcases Server.catching_next he ht with ⟨hcatch, hidt⟩ | heq <;>
    rcases Server.catching_next he ht' with ⟨hcatch', hidt'⟩ | heq'
  · rw [hidt, hidt'] at hid
    exact h.catching t t' hcatch hcatch' hid
  · exact absurd hid.symm (hsame t' t heq' hcatch hidt)
  · exact absurd hid (hsame t t' heq hcatch' hidt')
  · exact (Event.fast_forward.inj (heq'.symm.trans heq))

theorem Session.idle_next (h : Session s) (hwf : Wf s) (he : s.enabled e) (hturn : s.InTurn e)
    (ht : ((s.next e).listener t).pc.catching) :
    (s.next e).sender = .dequeue ∨ ∃ m, (s.next e).sender = .append m := by
  rcases Server.catching_next he ht with ⟨hcatch, -⟩ | rfl
  · have hidle := h.idle t hcatch
    cases hby : e.bySender with
    | false => rwa [sender_next hby]
    | true =>
      cases e with
      | jobqueue_dequeue m rest => exact .inr ⟨m, rfl⟩
      | message_log_append m =>
        have hmem := hwf.readers t hcatch
        rw [he.2] at hmem
        cases hmem
      | send =>
        rcases hidle with hs | ⟨m', hs⟩
        all_goals
          have := he.1.symm.trans hs
          cases this
      | lockClients | visit | mark | unlockClients =>
        rcases hidle with hs | ⟨m', hs⟩
        all_goals
          have := (show s.sender = _ from he).symm.trans hs
          cases this
      | _ => cases hby
  · exact .inl hturn.1

/-! ## The sender -/

/-- How a step changes the descriptors of a client. -/
theorem sockfds_cases (s : Server) (e : Event) (c : UInt16) :
    ((s.next e).client c).sockfds = (s.client c).sockfds ∨
    (∃ t, e = .client_hash_add_connection t ∧ (s.listener t).client_id = c ∧
      ((s.next e).client c).sockfds = (s.client c).sockfds ++ [(s.listener t).fd]) ∨
    ∃ fd, ((s.next e).client c).sockfds = (s.client c).sockfds.erase fd := by
  cases e with
  | client_hash_add_connection t =>
    by_cases hc : c = (s.listener t).client_id
    · exact .inr (.inl ⟨t, rfl, hc.symm, by simp [next, setFds_sockfds, hc]⟩)
    · left; simp [next, setFds_sockfds, hc]
  | client_hash_remove_connection t =>
    by_cases hc : c = (s.listener t).client_id
    · exact .inr (.inr ⟨(s.listener t).fd, by simp [next, setFds_sockfds, hc]⟩)
    · left; simp [next, setFds_sockfds, hc]
  | handshake t m => left; cases m <;> simp only [next] <;> [skip; split] <;> simp
  | catchUp t cursor m ok => left; simp only [next]; split_ifs <;> simp
  | recv_header t m => left; cases m <;> simp only [next] <;> [skip; split_ifs] <;> simp
  | recv_payload t m r => left; cases r <;> simp only [next] <;> [skip; split_ifs] <;> simp
  | client_hash_get t | free_message t | send | visit =>
    left; simp only [next]; split_ifs <;> simp
  | _ => left; simp [next]

theorem Session.connections_next (h : Session s) (hturn : s.InTurn e) (c : UInt16) :
    ((s.next e).client c).sockfds.length ≤ 1 := by
  rcases sockfds_cases s e c with hsame | ⟨t, rfl, rfl, hadd⟩ | ⟨fd, herase⟩
  · rw [hsame]
    exact h.connections c
  · rw [hadd, show (s.client (s.listener t).client_id).sockfds = [] from hturn]
    exact Nat.le_refl 1
  · rw [herase]
    exact List.erase_sublist.length_le.trans (h.connections c)

theorem pending_of_next (he : s.enabled e) (hby : e.bySender) {q : Nat}
    (hp : (s.next e).sender.Pending c q) : s.sender.Pending c q ∨ q = s.log.length := by
  cases e with
  | message_log_append m => exact .inr hp
  | lockClients m q' =>
    left
    rw [show s.sender = .lockClients m q' from he]
    exact hp.1
  | visit m q' c' rest =>
    left
    rw [show s.sender = .visit m q' (c' :: rest) from he]
    simp only [next] at hp
    split_ifs at hp
    · exact ⟨hp.1, List.mem_cons_of_mem _ hp.2⟩
    · obtain ⟨rfl, rfl | hmem⟩ := hp
      · exact ⟨rfl, List.mem_cons_self⟩
      · exact ⟨rfl, List.mem_cons_of_mem _ hmem⟩
    · exact ⟨hp.1, List.mem_cons_of_mem _ hp.2⟩
  | send m q' c' rest fd fds ok =>
    left
    obtain ⟨hpc, -⟩ := he
    simp only [next] at hp
    split_ifs at hp
    · rw [hpc]
      exact hp
    · exact hp
  | mark m q' c' rest =>
    left
    rw [show s.sender = .fanOut m q' c' rest [] from he]
    exact ⟨hp.1, .inr hp.2⟩
  | jobqueue_dequeue | unlockClients => cases hp
  | _ => cases hby

theorem Session.pending_next (h : Session s) (hwf : Wf s) (he : s.enabled e) {q : Nat}
    (hp : (s.next e).sender.Pending c q) : ∀ p ∈ ((s.next e).client c).last_read, p < q := by
  intro p hmark
  rcases last_read_next s e c with hsame | ⟨t, rfl, -, -⟩ | ⟨m, q', rest, hby, -⟩
  · rw [hsame] at hmark
    cases hsender : e.bySender with
    | false =>
      rw [sender_next hsender] at hp
      exact h.pending c q hp p hmark
    | true =>
      rcases pending_of_next he hsender hp with hp | rfl
      · exact h.pending c q hp p hmark
      · exact hwf.mark c p hmark
  · -- the sender is idle at the end of a catch-up
    rw [sender_next rfl] at hp
    rcases h.idle t (catching_of_pc he) with hs | ⟨m, hs⟩
    all_goals
      rw [hs] at hp
      cases hp
  · -- the pass is over for the client that it marks
    exfalso
    have hvisit := h.toVisit
    obtain ⟨rfl, hfds, hown⟩ | rfl := hby
    · rw [show s.sender = .visit m q' (c :: rest) from he] at hvisit
      rw [next, if_neg hfds, if_neg (not_not.mpr hown.symm)] at hp
      exact (List.nodup_cons.mp hvisit).1 hp.2
    · rw [show s.sender = .fanOut m q' c rest [] from he] at hvisit
      exact (List.nodup_cons.mp hvisit).1 hp.2

theorem Session.step (h : Session s) (hwf : Wf s) (ho : Ordered s) (he : s.enabled e)
    (hturn : s.InTurn e) (hreads : s.ReadsOn e) : Session (s.next e) where
  toSentOnce := h.sentOnce_next hwf ho he
  accounted t _ := h.accounted_next hwf ho he hturn.sends t
  behind _ _ hpc _ ht' hid _ := h.behind_next hwf ho he hturn hreads hpc ht' hid
  catching _ _ := h.catching_next hwf he hturn
  idle _ := h.idle_next hwf he hturn
  connections := h.connections_next hturn
  pending _ _ := h.pending_next hwf he
  clients := by rw [clients_next]; exact h.clients
  toVisit := by
    cases hby : e.bySender with
    | false => rw [sender_next hby]; exact h.toVisit
    | true =>
      rcases toVisit_next he hby with hsuff | hall
      · exact h.toVisit.sublist hsuff.sublist
      · rw [hall]; exact h.clients

theorem session_of_reach {client_ids : List UInt16}
    (h : (server client_ids).Reach (fun s e => s.InTurn e ∧ s.ReadsOn e) s) : Session s :=
  h.invariant_of (fun _ hr => (⟨wf_of_reach hr, ordered_of_reach hr⟩ : _ ∧ _))
    (session_init client_ids)
    fun _ _ hj hi he hg => hi.step hj.1 hj.2 (And.right he) hg.1 hg.2

end Server

/-- **Catch-up.** Undisturbed, on any log and from any mark, `fast_forward` comes to its end and has
then sent the unread part of the log exactly if the mark was NULL or at an entry of the client's
own; and if all marks are, a client whose connections follow each other is sent nothing twice. -/
theorem catch_up (client_ids : List UInt16) :
    (∀ (s : Server) t, s.crashed = false → s.socket (s.listener t).fd = some t →
      (∀ p ∈ (s.client (s.listener t).client_id).last_read, p < s.log.length) →
      (s.listener t).pc = .fastForward → s.Sendable (s.listener t).client_id →
      (∃ s', Server.Alone client_ids s t s' ∧ (s'.listener t).pc = .register) ∧
      ∀ s', Server.Alone client_ids s t s' → (s'.listener t).pc = .register →
        (s.CaughtUpWith s' t (s.unread (s.listener t).client_id) ↔
          s.OwnMark (s.listener t).client_id)) ∧
    ∀ s, (server client_ids).Reach (fun s e => s.InTurn e ∧ s.ReadsOn e) s → s.SentOnce :=
  ⟨fun _ _ hcrashed hsocket hmark hpc hm =>
      Server.fast_forward_iff hsocket hmark hcrashed hpc hm,
    fun _ hr => (Server.session_of_reach hr).toSentOnce⟩

/-- Client 1 connects and leaves, client 2 connects, and client 1 comes back, up to its second
`fast_forward`: its mark is at its own announcement. -/
def backToOwn : List Event :=
  let conn id := create_message_header 0 id MESG_CONN
  let bye := create_message_header 0 1 MESG_DCON
  connecting 0 4 1 ++ [.fast_forward 0, .storeMark 0, .client_hash_add_connection 0] ++
  appending (conn 1) 0 [] ++
    [.visit (conn 1) 0 1 [2], .visit (conn 1) 0 2 [], .unlockClients (conn 1) 0] ++
  [.recv_header 0 (some bye), .client_hash_remove_connection 0, .close 0] ++
  appending bye 1 [] ++ [.visit bye 1 1 [2], .visit bye 1 2 [], .unlockClients bye 1] ++
  connecting 1 5 2 ++ [.fast_forward 1, .catchUp 1 0 (conn 1) true, .catchUp 1 1 bye true,
    .storeMark 1, .client_hash_add_connection 1] ++
  appending (conn 2) 2 [] ++
    [.visit (conn 2) 2 1 [2], .visit (conn 2) 2 2 [], .unlockClients (conn 2) 2] ++
  connecting 2 4 1

/-- The second catch-up of client 1 sends client 2's announcement. -/
theorem catch_up_backToOwn : ∃ s s', (server [1, 2]).Reach (fun s e => s.InTurn e ∧ s.ReadsOn e) s ∧
    Server.Alone [1, 2] s 2 s' ∧ s.unread 1 = [2] ∧
      s.CaughtUpWith s' 2 (s.unread (s.listener 2).client_id) ∧ s.SentOnce := by
  have hrun : ((server [1, 2]).exec (fun s e => s.InTurn e ∧ s.ReadsOn e) (server [1, 2]).init
      backToOwn).any (fun s => s.crashed = false ∧ (s.listener 2).pc = .fastForward ∧
        (∀ m ∈ s.log, m.Marshals) ∧ s.unread 1 = [2] ∧ s.OwnMark (s.listener 2).client_id) =
      true := by
    decide +kernel
  obtain ⟨s, hs, hw⟩ := TransitionSystem.exists_reach_of_exec hrun
  obtain ⟨hcrashed, hpc, hm, hunread, hown⟩ := of_decide_eq_true hw
  have hready := Server.ready_of_reach hs.reachable hpc
  obtain ⟨⟨s', hs', hpc'⟩, hiff⟩ := (catch_up [1, 2]).1 s 2 hcrashed hready.socket hready.mark hpc
    fun i m hget _ => hm m (List.mem_of_getElem? hget)
  exact ⟨s, s', hs, hs', hunread, (hiff s' hs' hpc').mpr hown, (catch_up [1, 2]).2 s hs⟩

/-- Client 2 is sent client 1's announcement, leaves and comes back, up to its second
`fast_forward`: its mark is at the announcement it was sent. -/
def backToForeign : List Event :=
  let conn id := create_message_header 0 id MESG_CONN
  let bye := create_message_header 0 2 MESG_DCON
  connecting 0 4 1 ++ [.fast_forward 0, .storeMark 0, .client_hash_add_connection 0] ++
  appending (conn 1) 0 [] ++
    [.visit (conn 1) 0 1 [2], .visit (conn 1) 0 2 [], .unlockClients (conn 1) 0] ++
  connecting 1 5 2 ++ [.fast_forward 1, .catchUp 1 0 (conn 1) true, .storeMark 1,
    .client_hash_add_connection 1, .recv_header 1 (some bye), .client_hash_remove_connection 1,
    .close 1] ++
  connecting 2 5 2

/-- The second catch-up of client 2 sends the announcement again. -/
theorem not_catch_up :
    (¬ ∀ s t s', (server [1, 2]).Reachable s → s.crashed = false →
      (s.listener t).pc = .fastForward → s.Sendable (s.listener t).client_id →
      Server.Alone [1, 2] s t s' → (s'.listener t).pc = .register →
      s.CaughtUpWith s' t (s.unread (s.listener t).client_id)) ∧
    ¬ ∀ s, (server [1, 2]).Reach Server.InTurn s → s.SentOnce := by
  constructor
  · have hrun : ((server [1, 2]).exec (fun _ _ => True) (server [1, 2]).init backToForeign).any
        (fun s => s.crashed = false ∧ (s.listener 2).pc = .fastForward ∧
          (∀ m ∈ s.log, m.Marshals) ∧ ¬s.OwnMark (s.listener 2).client_id) = true := by
      decide +kernel
    obtain ⟨s, hs, hw⟩ := TransitionSystem.exists_reach_of_exec hrun
    obtain ⟨hcrashed, hpc, hm, hforeign⟩ := of_decide_eq_true hw
    have hsendable : s.Sendable (s.listener 2).client_id :=
      fun i m hget _ => hm m (List.mem_of_getElem? hget)
    have hready := Server.ready_of_reach hs hpc
    obtain ⟨⟨s', hs', hpc'⟩, hiff⟩ :=
      Server.fast_forward_iff hready.socket hready.mark hcrashed hpc hsendable
    intro h
    exact hforeign ((hiff s' hs' hpc').mp (h s 2 s' hs hcrashed hpc hsendable hs' hpc'))
  · have hrun : ((server [1, 2]).exec Server.InTurn (server [1, 2]).init
        (backToForeign ++ [.fast_forward 2,
          .catchUp 2 0 (create_message_header 0 1 MESG_CONN) true])).any
        (fun s => positions (s.wire 1) = [0] ∧ positions (s.wire 2) = [0] ∧
          (s.listener 2).client_id = (s.listener 1).client_id) = true := by
      decide +kernel
    obtain ⟨s, hs, hw⟩ := TransitionSystem.exists_reach_of_exec hrun
    obtain ⟨h₁, h₂, hid⟩ := of_decide_eq_true hw
    intro h
    have hsame := (h s hs).single 1 2 0 hid (by rw [h₁]; exact List.mem_cons_self)
      (by rw [h₂]; exact List.mem_cons_self)
    cases hsame

end Cs2510.Chat
