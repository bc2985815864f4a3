import Cs2510.Chat.ServerStep

/-!
# The order of delivery

The two threads that write to a connection, its listener in `fast_forward` and the sender, hand
over without a common lock. What makes them agree on an order is that a connection that may have
been sent the entry at a position stands at a program point that covers it
(`ListenerPc.Covers`), and that the sender's node is the last of the log.
-/

namespace Cs2510.Chat
namespace Server

variable {s : Server} {e : Event}

/-- On each connection the positions sent are non-decreasing, foreign to its client, and covered
by the program point of its listener. -/
structure Ordered (s : Server) : Prop where
  sorted : ∀ t, (positions (s.wire t)).Pairwise (· ≤ ·)
  foreign : ∀ t, ∀ i ∈ positions (s.wire t),
    ∃ m, s.log[i]? = some m ∧ m.id ≠ (s.listener t).client_id
  covered : ∀ t, ∀ i ∈ positions (s.wire t), (s.listener t).pc.Covers i

theorem ordered_init (client_ids : List UInt16) : Ordered (init client_ids) where
  sorted := by simp [init, positions, entries]
  foreign := by simp [init, positions, entries]
  covered := by simp [init, positions, entries]

theorem Ordered.lt_length (h : Ordered s) {t : Tid} {i : Nat} (hi : i ∈ positions (s.wire t)) :
    i < s.log.length := by
  obtain ⟨m, hm, -⟩ := h.foreign t i hi
  exact (List.getElem?_eq_some_iff.mp hm).1

/-- A step sends a connection at most one entry: a foreign one, at no position before an earlier
one. -/
theorem Ordered.positions_next (h : Ordered s) (hwf : Wf s) (he : s.enabled e) (t : Tid) :
    positions ((s.next e).wire t) = positions (s.wire t) ∨
    ∃ i m, positions ((s.next e).wire t) = positions (s.wire t) ++ [i] ∧
      (∀ j ∈ positions (s.wire t), j ≤ i) ∧ s.log[i]? = some m ∧
      m.id ≠ (s.listener t).client_id ∧ (s.listener t).pc ≠ .handshake ∧
      ((s.next e).listener t).pc.Covers i := by
  rcases entries_next hwf he t with hsame | ⟨cursor, m, ok, rfl, hid, hcovers, hw⟩ |
    ⟨m, q, rest, fd, fds, ok, rfl, -, -, hreg, hw⟩
  · left; rw [positions, hsame, positions]
  · obtain ⟨hpc, hlog, -⟩ := he
    refine .inr ⟨cursor, m, by rw [positions, hw, List.map_append]; rfl, fun j hj => ?_, hlog, hid,
      by rw [hpc]; nofun, hcovers⟩
    have hj := h.covered t j hj
    rw [hpc] at hj
    exact Nat.le_of_lt hj
  · have hext := listener_next he t
    obtain ⟨hpc, -⟩ := he
    obtain ⟨⟨hq, hlog⟩, hc, -⟩ : s.SenderOk (.fanOut m q _ rest (fd :: fds)) := hpc ▸ hwf.sender
    refine .inr ⟨q, m, by rw [positions, hw, List.map_append]; rfl, fun j hj => ?_, hlog, hc.symm,
      ?_, hext.covers _ (ListenerPc.covers_of_registered hreg _)⟩
    · have := h.lt_length hj
      omega
    · intro hpc'
      rw [hpc'] at hreg
      cases hreg

theorem Ordered.step (h : Ordered s) (hwf : Wf s) (he : s.enabled e) : Ordered (s.next e) := by
  have hlog : ∀ (i : Nat) (m : Message), s.log[i]? = some m → (s.next e).log[i]? = some m := by
    intro i m hm
    rw [log_next, List.getElem?_append_left (List.getElem?_eq_some_iff.mp hm).1, hm]
  have hforeign : ∀ t, ∀ i ∈ positions (s.wire t),
      ∃ m, (s.next e).log[i]? = some m ∧ m.id ≠ ((s.next e).listener t).client_id := by
    intro t i hi
    obtain ⟨m, hm, hid⟩ := h.foreign t i hi
    refine ⟨m, hlog i m hm, ?_⟩
    rwa [(listener_next he t).client_id]
    intro hpc
    have := h.covered t i hi
    rw [hpc] at this
    exact this
  have hcovered : ∀ t, ∀ i ∈ positions (s.wire t), ((s.next e).listener t).pc.Covers i :=
    fun t i hi => (listener_next he t).covers i (h.covered t i hi)
  constructor
  all_goals
    intro t
    rcases h.positions_next hwf he t with hsame | ⟨i, m, hw, hle, hm, hid, hpc, hcovers⟩
  · rw [hsame]; exact h.sorted t
  · rw [hw, List.pairwise_append]
    exact ⟨h.sorted t, List.pairwise_singleton _ _, by simpa using hle⟩
  · rw [hsame]; exact hforeign t
  · rw [hw]
    intro j hj
    rcases List.mem_append.mp hj with hj | hj
    · exact hforeign t j hj
    · obtain rfl := List.mem_singleton.mp hj
      exact ⟨m, hlog j m hm, by rwa [(listener_next he t).client_id hpc]⟩
  · rw [hsame]; exact hcovered t
  · rw [hw]
    intro j hj
    rcases List.mem_append.mp hj with hj | hj
    · exact hcovered t j hj
    · obtain rfl := List.mem_singleton.mp hj
      exact hcovers

theorem ordered_of_reach {client_ids : List UInt16} {G : Server → Event → Prop}
    (h : (server client_ids).Reach G s) : Ordered s :=
  h.invariant_of (fun _ => wf_of_reach) (ordered_init client_ids)
    fun _ _ hwf ho he _ => ho.step hwf (And.right he)

end Server

/-! ## Total order -/

/-- In a sorted list the first occurrences are in the order of the elements. -/
theorem idxOf_lt_idxOf_iff {l : List Nat} (hl : l.Pairwise (· ≤ ·)) {i j : Nat} (hi : i ∈ l)
    (hj : j ∈ l) : l.idxOf i < l.idxOf j ↔ i < j := by
  induction hl with
  | nil => cases hi
  | @cons a l ha _ ih =>
    simp only [List.idxOf_cons, Bool.cond_eq_ite, beq_iff_eq]
    rw [List.mem_cons] at hi hj
    by_cases hai : a = i <;> by_cases haj : a = j
    · simp [← hai, ← haj]
    · have := ha j (hj.resolve_left (Ne.symm haj))
      simp only [if_pos hai, if_neg haj]
      omega
    · have := ha i (hi.resolve_left (Ne.symm hai))
      simp only [if_neg hai, if_pos haj]
      omega
    · have := ih (hi.resolve_left (Ne.symm hai)) (hj.resolve_left (Ne.symm haj))
      simp only [if_neg hai, if_neg haj]
      omega

/-- What the clients see: each connection gets foreign entries in the order of the log, so any two
connections first receive any two entries in the same order. -/
structure Server.TotalOrder (s : Server) : Prop where
  nondecreasing : ∀ t, (positions (s.wire t)).Pairwise (· ≤ ·)
  foreign : ∀ t, ∀ i ∈ positions (s.wire t),
    ∃ m, s.log[i]? = some m ∧ m.id ≠ (s.listener t).client_id
  agree : ∀ t t' i j, i ∈ received (s.wire t) → j ∈ received (s.wire t) →
    i ∈ received (s.wire t') → j ∈ received (s.wire t') →
    ((received (s.wire t)).idxOf i < (received (s.wire t)).idxOf j ↔
      (received (s.wire t')).idxOf i < (received (s.wire t')).idxOf j)

/-- **Total order.** -/
theorem total_order {client_ids : List UInt16} {s : Server}
    (h : (server client_ids).Reachable s) : s.TotalOrder := by
  have ho := Server.ordered_of_reach h
  refine ⟨ho.sorted, ho.foreign, fun t t' i j hi hj hi' hj' => ?_⟩
  rw [idxOf_lt_idxOf_iff ((ho.sorted t).sublist (received_sublist _)) hi hj,
    idxOf_lt_idxOf_iff ((ho.sorted t').sublist (received_sublist _)) hi' hj']

/-! ### A run -/

/-- Client `id` connects: the steps of its listener `t` up to `fast_forward`. -/
def connecting (t : Tid) (fd : Fd) (id : UInt16) : List Event :=
  [.accept t fd, .handshake t (some (create_message_header 0 id MESG_CONN)), .client_hash_get t,
    .reply t true, .announce t]

/-- The sender takes `m` off the queue, appends it at `q` and starts the delivery. -/
def appending (m : Message) (q : Nat) (rest : List Message) : List Event :=
  [.jobqueue_dequeue m rest, .message_log_append m, .lockClients m q]

/-- The sender delivers to client `c`, whose only connection is `fd`. -/
def delivering (m : Message) (q : Nat) (c : UInt16) (rest : List UInt16) (fd : Fd) : List Event :=
  [.visit m q c rest, .send m q c rest fd [] true, .mark m q c rest]

/-- Clients 1, 2 and 3 connect, and client 3 leaves: each announcement and the farewell are
delivered to the others. -/
def threeClients : List Event :=
  let conn id := create_message_header 0 id MESG_CONN
  let bye := create_message_header 0 3 MESG_DCON
  connecting 0 4 1 ++ [.fast_forward 0, .storeMark 0, .client_hash_add_connection 0] ++
  connecting 1 5 2 ++ [.fast_forward 1, .storeMark 1, .client_hash_add_connection 1] ++
  connecting 2 6 3 ++ [.fast_forward 2, .storeMark 2, .client_hash_add_connection 2,
    .recv_header 2 (some bye)] ++
  appending (conn 1) 0 [conn 2, conn 3, bye] ++
    [.visit (conn 1) 0 1 [2, 3]] ++ delivering (conn 1) 0 2 [3] 5 ++ delivering (conn 1) 0 3 [] 6 ++
    [.unlockClients (conn 1) 0] ++
  appending (conn 2) 1 [conn 3, bye] ++
    delivering (conn 2) 1 1 [2, 3] 4 ++ [.visit (conn 2) 1 2 [3]] ++
    delivering (conn 2) 1 3 [] 6 ++ [.unlockClients (conn 2) 1] ++
  appending (conn 3) 2 [bye] ++
    delivering (conn 3) 2 1 [2, 3] 4 ++ delivering (conn 3) 2 2 [3] 5 ++
    [.visit (conn 3) 2 3 [], .unlockClients (conn 3) 2] ++
  appending bye 3 [] ++
    delivering bye 3 1 [2, 3] 4 ++ delivering bye 3 2 [3] 5

theorem total_order_threeClients : ∃ s, (server [1, 2, 3]).Reachable s ∧
    received (s.wire 0) = [1, 2, 3] ∧ received (s.wire 1) = [0, 2, 3] ∧ s.TotalOrder := by
  have hrun : ((server [1, 2, 3]).exec (fun _ _ => True) (server [1, 2, 3]).init threeClients).any
      (fun s => received (s.wire 0) = [1, 2, 3] ∧ received (s.wire 1) = [0, 2, 3]) = true := by
    decide +kernel
  obtain ⟨s, hs, hw⟩ := TransitionSystem.exists_reach_of_exec hrun
  obtain ⟨h₀, h₁⟩ := of_decide_eq_true hw
  exact ⟨s, hs, h₀, h₁, total_order hs⟩

end Cs2510.Chat
