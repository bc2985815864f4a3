import Cs2510.Chat.TotalOrder
import Mathlib.Data.List.Nodup

/-!
# Duplicates on a connection

An entry is sent twice on a connection exactly when the connection is registered in the gap
between the append of the entry and its delivery pass after the catch-up has already sent it.
`Server.HandsOver` excludes that step; in the runs that avoid it no connection is sent an entry
twice (`no_duplicate`), and `not_no_duplicate` is a run with it.
-/

namespace Cs2510.Chat

/-- The entry that is appended and whose delivery pass has not begun. -/
def SenderPc.undelivered : SenderPc → Option Nat
  | .lockClients _ last_node => some last_node
  | _ => none

/-- A listener registers its connection while an entry waits for its delivery pass only if it has
not sent the entry in `fast_forward`. -/
def Server.HandsOver (s : Server) : Event → Prop
  | .client_hash_add_connection t => ∀ q ∈ s.sender.undelivered, q ∉ positions (s.wire t)
  | _ => True

instance (s : Server) (e : Event) : Decidable (s.HandsOver e) :=
  match e with
  | .client_hash_add_connection t =>
    inferInstanceAs (Decidable (∀ q ∈ s.sender.undelivered, q ∉ positions (s.wire t)))
  | .accept .. | .handshake .. | .client_hash_get .. | .refuse .. | .free_message .. | .reply ..
  | .announce .. | .fast_forward .. | .catchUp .. | .storeMark .. | .recv_header ..
  | .recv_payload .. | .client_hash_remove_connection .. | .close .. | .jobqueue_dequeue ..
  | .message_log_append .. | .lockClients .. | .visit .. | .send .. | .mark ..
  | .unlockClients .. => .isTrue trivial

/-- No connection is sent a log entry twice. -/
def Server.NoDuplicate (s : Server) : Prop := ∀ t, (positions (s.wire t)).Nodup

/-- The clients a delivery pass has still to visit, the one it is at included. -/
def SenderPc.toVisit : SenderPc → List UInt16
  | .visit _ _ rest => rest
  | .fanOut _ _ c rest _ => c :: rest
  | _ => []

/-- The pass still has to send the entry at `i` to a registered connection. -/
def SenderPc.Owes : SenderPc → Listener → Nat → Prop
  | .lockClients _ last_node, _, i => i = last_node
  | .visit _ last_node rest, l, i => i = last_node ∧ l.client_id ∈ rest
  | .fanOut _ last_node c rest fds, l, i =>
    i = last_node ∧ (l.client_id ∈ rest ∨ l.client_id = c ∧ l.fd ∈ fds)
  | _, _, _ => False

theorem SenderPc.Owes.congr {pc : SenderPc} {l l' : Listener} {i : Nat} (h : pc.Owes l' i)
    (hid : l'.client_id = l.client_id) (hfd : l'.fd = l.fd) : pc.Owes l i := by
  cases pc <;> simp only [Owes, hid, hfd] at h ⊢ <;> exact h

namespace Server

variable {s : Server} {e : Event}

/-- Nothing was sent twice, and what the sender still owes a connection was not sent to it. -/
structure Fresh (s : Server) : Prop where
  nodup : s.NoDuplicate
  clients : s.clients.Nodup
  toVisit : s.sender.toVisit.Nodup
  owed : ∀ t i, (s.listener t).pc.registered → s.sender.Owes (s.listener t) i →
    i ∉ positions (s.wire t)

theorem client_hash_add_client_nodup {clients : List UInt16} (h : clients.Nodup) (id : UInt16) :
    (client_hash_add_client clients id).Nodup := by
  unfold client_hash_add_client
  split
  · exact h
  · next hid =>
    rw [List.nodup_append]
    exact ⟨h, by simp, fun a ha b hb hab => hid (by simp_all)⟩

theorem nodup_init (client_ids : List UInt16) : (init client_ids).clients.Nodup := by
  suffices ∀ clients : List UInt16, clients.Nodup →
      (client_ids.foldl client_hash_add_client clients).Nodup from this [] .nil
  induction client_ids with
  | nil => exact fun _ h => h
  | cons id ids ih => exact fun clients h => ih _ (client_hash_add_client_nodup h id)

theorem fresh_init (client_ids : List UInt16) : Fresh (init client_ids) where
  nodup := by simp [NoDuplicate, init, positions, entries]
  clients := nodup_init client_ids
  toVisit := .nil
  owed := by simp [init, ListenerPc.registered]

/-- A step of the sender leaves it with no new debt but the entry it appends. -/
theorem owes_next (he : s.enabled e) (hby : e.bySender) {l : Listener} {i : Nat}
    (ho : (s.next e).sender.Owes l i) : s.sender.Owes l i ∨ i = s.log.length := by
  cases e with
  | message_log_append m => exact .inr ho
  | lockClients m q =>
    left
    rw [show s.sender = .lockClients m q from he]
    exact ho.1
  | visit m q c rest =>
    left
    rw [show s.sender = .visit m q (c :: rest) from he]
    simp only [next] at ho
    split_ifs at ho
    · exact ⟨ho.1, List.mem_cons_of_mem _ ho.2⟩
    · obtain ⟨rfl, hmem | ⟨rfl, -⟩⟩ := ho
      · exact ⟨rfl, List.mem_cons_of_mem _ hmem⟩
      · exact ⟨rfl, List.mem_cons_self⟩
    · exact ⟨ho.1, List.mem_cons_of_mem _ ho.2⟩
  | send m q c rest fd fds ok =>
    left
    obtain ⟨hpc, -⟩ := he
    simp only [next] at ho
    split_ifs at ho
    · rw [hpc]
      exact ⟨ho.1, ho.2.imp_right fun h => ⟨h.1, List.mem_cons_of_mem _ h.2⟩⟩
    · exact ho
  | mark m q c rest =>
    left
    rw [show s.sender = .fanOut m q c rest [] from he]
    exact ⟨ho.1, .inl ho.2⟩
  | jobqueue_dequeue | unlockClients => cases ho
  | _ => cases hby

theorem toVisit_next (he : s.enabled e) (hby : e.bySender) :
    (s.next e).sender.toVisit <:+ s.sender.toVisit ∨ (s.next e).sender.toVisit = s.clients := by
  cases e with
  | lockClients m q => exact .inr rfl
  | visit m q c rest =>
    left
    rw [show s.sender = .visit m q (c :: rest) from he]
    simp only [next]
    split_ifs
    · exact List.suffix_cons _ _
    · exact List.suffix_refl _
    · exact List.suffix_cons _ _
  | send m q c rest fd fds ok =>
    left
    obtain ⟨hpc, -⟩ := he
    simp only [next]
    split_ifs
    · rw [hpc]; exact List.suffix_refl _
    · exact List.suffix_refl _
  | mark m q c rest =>
    left
    rw [show s.sender = .fanOut m q c rest [] from he]
    exact List.suffix_cons _ _
  | jobqueue_dequeue | unlockClients | message_log_append => exact .inl List.nil_suffix
  | _ => cases hby

/-- What the sender owes a registered connection after a step was not sent to it before. -/
theorem Fresh.owed_next (h : Fresh s) (ho : Ordered s) (he : s.enabled e) (hg : s.HandsOver e)
    {t : Tid} {i : Nat} (hreg : ((s.next e).listener t).pc.registered)
    (howes : (s.next e).sender.Owes ((s.next e).listener t) i) : i ∉ positions (s.wire t) := by
  cases hby : e.bySender with
  | true =>
    rw [listener_next_of_bySender hby] at hreg howes
    rcases owes_next he hby howes with howes | rfl
    · exact h.owed t i hreg howes
    · exact fun hi => absurd (ho.lt_length hi) (Nat.lt_irrefl _)
  | false =>
    rw [sender_next hby] at howes
    have hext := listener_next he t
    rcases hext.registered hreg with hreg' | rfl
    · have hne : ∀ pc : ListenerPc, pc.registered = false → (s.listener t).pc ≠ pc := by
        rintro _ hpc rfl
        rw [hpc] at hreg'
        cases hreg'
      exact h.owed t i hreg' (howes.congr (hext.client_id (hne _ rfl)) (hext.fd (hne _ rfl)))
    · obtain ⟨-, hlock⟩ := he
      revert howes hlock
      cases hs : s.sender with
      | lockClients m q =>
        rintro rfl -
        exact hg _ (by rw [hs]; rfl)
      | dequeue | append => nofun
      | visit | fanOut => nofun

theorem Fresh.step (h : Fresh s) (hwf : Wf s) (ho : Ordered s) (he : s.enabled e)
    (hg : s.HandsOver e) : Fresh (s.next e) := by
  refine ⟨fun t => ?_, by rw [clients_next]; exact h.clients, ?_, fun t i hreg howes => ?_⟩
  · rcases entries_next hwf he t with hsame | ⟨cursor, m, ok, rfl, -, -, hw⟩ |
      ⟨m, q, rest, fd, fds, ok, rfl, -, rfl, hreg, hw⟩
    · rw [positions, hsame]
      exact h.nodup t
    · rw [positions, hw, List.map_append, ← positions]
      refine (h.nodup t).append (List.nodup_singleton _) ?_
      rintro j hj hj'
      obtain rfl := List.mem_singleton.mp hj'
      have hcov := ho.covered t j hj
      rw [he.1] at hcov
      exact Nat.lt_irrefl _ hcov
    · rw [positions, hw, List.map_append, ← positions]
      refine (h.nodup t).append (List.nodup_singleton _) ?_
      rintro j hj hj'
      obtain rfl := List.mem_singleton.mp hj'
      refine h.owed t _ hreg ?_ hj
      rw [he.1]
      exact ⟨rfl, .inr ⟨rfl, List.mem_cons_self⟩⟩
  · cases hby : e.bySender with
    | true =>
      rcases toVisit_next he hby with hsuff | hall
      · exact h.toVisit.sublist hsuff.sublist
      · rw [hall]; exact h.clients
    | false => rw [sender_next hby]; exact h.toVisit
  · have hold := h.owed_next ho he hg hreg howes
    rcases entries_next hwf he t with hsame | ⟨cursor, m, ok, rfl, -, -, hw⟩ |
      ⟨m, q, rest, fd, fds, ok, rfl, hm, rfl, -, -⟩
    · rwa [positions, hsame]
    · -- a listener in its catch-up is not registered
      rcases (listener_next he t).registered hreg with hreg | hjoin
      · rw [he.1] at hreg; cases hreg
      · cases hjoin
    · -- the debt to this connection is paid
      exfalso
      obtain ⟨hpc, -⟩ := he
      have hfds := hwf.sender
      have hvisit := h.toVisit
      rw [hpc] at hfds hvisit
      have hnodup := (hwf.sockfds_nodup _).sublist hfds.2.2.2.sublist
      rw [listener_next_of_bySender rfl] at howes
      rw [next, if_neg (not_not.mpr hm)] at howes
      obtain ⟨-, hmem | ⟨-, hmem⟩⟩ := howes
      · exact (List.nodup_cons.mp hvisit).1 hmem
      · exact (List.nodup_cons.mp hnodup).1 hmem

theorem fresh_of_reach {client_ids : List UInt16} {G : Server → Event → Prop}
    (hG : ∀ s e, G s e → s.HandsOver e) (h : (server client_ids).Reach G s) : Fresh s :=
  h.invariant_of (fun _ hr => (⟨wf_of_reach hr, ordered_of_reach hr⟩ : _ ∧ _))
    (fresh_init client_ids)
    fun _ _ hj hf he hg => hf.step hj.1 hj.2 (And.right he) (hG _ _ hg)

end Server

/-- **No duplicate on a connection**, in every run in which the connections are handed over. -/
theorem no_duplicate {client_ids : List UInt16} {s : Server}
    (h : (server client_ids).Reach Server.HandsOver s) : s.NoDuplicate :=
  (Server.fresh_of_reach (fun _ _ hg => hg) h).nodup

/-- Clients 1 and 2 connect one after the other; each gets the announcement of the other, client 2
in its catch-up and client 1 from the sender. -/
def oneAfterTheOther : List Event :=
  let conn id := create_message_header 0 id MESG_CONN
  connecting 0 4 1 ++ [.fast_forward 0, .storeMark 0, .client_hash_add_connection 0] ++
  appending (conn 1) 0 [] ++
    [.visit (conn 1) 0 1 [2], .visit (conn 1) 0 2 [], .unlockClients (conn 1) 0] ++
  connecting 1 5 2 ++ [.fast_forward 1, .catchUp 1 0 (conn 1) true, .storeMark 1,
    .client_hash_add_connection 1] ++
  appending (conn 2) 1 [] ++ delivering (conn 2) 1 1 [2] 4

theorem no_duplicate_oneAfterTheOther : ∃ s, (server [1, 2]).Reach Server.HandsOver s ∧
    positions (s.wire 0) = [1] ∧ positions (s.wire 1) = [0] ∧ s.NoDuplicate := by
  have hrun : ((server [1, 2]).exec Server.HandsOver (server [1, 2]).init oneAfterTheOther).any
      (fun s => positions (s.wire 0) = [1] ∧ positions (s.wire 1) = [0]) = true := by
    decide +kernel
  obtain ⟨s, hs, hw⟩ := TransitionSystem.exists_reach_of_exec hrun
  obtain ⟨h₀, h₁⟩ := of_decide_eq_true hw
  exact ⟨s, hs, h₀, h₁, no_duplicate hs⟩

/-- Client 2 catches up and is registered between the append and the delivery of client 1's
announcement. -/
def registeredBetween : List Event :=
  let conn id := create_message_header 0 id MESG_CONN
  connecting 0 4 1 ++ connecting 1 5 2 ++
  [.jobqueue_dequeue (conn 1) [conn 2], .message_log_append (conn 1),
    .fast_forward 1, .catchUp 1 0 (conn 1) true, .storeMark 1, .client_hash_add_connection 1,
    .lockClients (conn 1) 0, .visit (conn 1) 0 1 [2]] ++ delivering (conn 1) 0 2 [] 5

/-- The announcement is sent to client 2 twice. -/
theorem not_no_duplicate : ¬ ∀ s, (server [1, 2]).Reachable s → s.NoDuplicate := by
  have hrun : ((server [1, 2]).exec (fun _ _ => True) (server [1, 2]).init registeredBetween).any
      (fun s => positions (s.wire 1) = [0, 0]) = true := by
    decide +kernel
  obtain ⟨s, hs, hw⟩ := TransitionSystem.exists_reach_of_exec hrun
  intro h
  have hdup := h s hs 1
  rw [of_decide_eq_true hw] at hdup
  cases hdup with
  | cons hne _ => exact hne 0 List.mem_cons_self rfl

end Cs2510.Chat
