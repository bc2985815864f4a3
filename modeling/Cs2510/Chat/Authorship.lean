import Cs2510.Chat.Streams

/-!
# The author of a message

The listener takes the id of a message from its header, not from the handshake. As long as every
client puts its own id into the frames it sends, each entry of the log carries the id that was
handshaked on the connection it came from (`authentic`); a client that does not can write in the
name of another, or of the server itself (`not_authentic`).
-/

namespace Cs2510.Chat

/-- The step completes no frame, other than a duplicate `MESG_CONN`, that carries another id than
the one handshaked on its connection. -/
def Server.OwnId (s : Server) : Event → Prop
  | .recv_header t (some m) => m.kind = MESG_DCON → m.id = (s.listener t).client_id
  | .recv_payload t _ (some m') => m'.id = (s.listener t).client_id
  | _ => True

instance (s : Server) (e : Event) : Decidable (s.OwnId e) :=
  match e with
  | .recv_header t (some m) =>
    inferInstanceAs (Decidable (m.kind = MESG_DCON → m.id = (s.listener t).client_id))
  | .recv_payload t _ (some m') => inferInstanceAs (Decidable (m'.id = (s.listener t).client_id))
  | .recv_header _ none | .recv_payload _ _ none | .accept .. | .handshake .. | .client_hash_get ..
  | .refuse .. | .free_message .. | .reply .. | .announce .. | .fast_forward .. | .catchUp ..
  | .storeMark .. | .client_hash_add_connection .. | .client_hash_remove_connection .. | .close ..
  | .jobqueue_dequeue .. | .message_log_append .. | .lockClients .. | .visit .. | .send ..
  | .mark .. | .unlockClients .. => .isTrue trivial

/-- Every log entry was put on the queue by a listener whose client handshaked the id it carries,
and only such entries, none of them with the server's id 0, are relayed. -/
structure Server.Authentic (h : History) (s : Server) : Prop where
  author : ∀ (i : Nat) (m : Message), s.log[i]? = some m →
    ∃ t, (enqueued h)[i]? = some (t, m) ∧ Handshaked h t m.id
  relayed : ∀ t, ∀ i ∈ positions (s.wire t),
    ∃ t' m, (enqueued h)[i]? = some (t', m) ∧ Handshaked h t' m.id ∧ m.id ≠ 0

theorem Handshaked.append {h : History} {t : Tid} {id : UInt16} (hs : Handshaked h t id)
    (h' : History) : Handshaked (h ++ h') t id := by
  obtain ⟨s, m, hmem, hm⟩ := hs
  exact ⟨s, m, List.mem_append_left _ hmem, hm⟩

namespace Server

variable {s : Server} {e : Event} {t : Tid} {h : History} {pc pc' : ListenerPc}

/-- What a listener queues carries its client's id. -/
theorem Moves.own_id (hm : s.Moves t e pc pc') (hown : s.OwnId e) {x : Tid × Message}
    (hx : x ∈ s.enqueues e) :
    x.1 = t ∧ x.2.id = (s.listener t).client_id ∧ pc.handshaked := by
  cases hm with
  | announce =>
    obtain rfl := List.mem_singleton.mp hx
    exact ⟨rfl, rfl, rfl⟩
  | @leave m hkind =>
    rw [enqueues, if_pos hkind] at hx
    obtain rfl := List.mem_singleton.mp hx
    exact ⟨rfl, hown hkind, rfl⟩
  | @drop m hkind =>
    rw [enqueues, if_neg (by rw [hkind]; decide)] at hx
    cases hx
  | header hdcon =>
    rw [enqueues, if_neg hdcon] at hx
    cases hx
  | payload hlength =>
    rw [enqueues, if_neg hlength] at hx
    obtain rfl := List.mem_singleton.mp hx
    exact ⟨rfl, hown, rfl⟩
  | empty_payload _ hlength =>
    rw [enqueues, if_pos hlength] at hx
    cases hx
  | _ => cases hx

theorem own_of_run {client_ids : List UInt16} (hr : (server client_ids).Run OwnId h s) :
    ∀ x ∈ enqueued h, Handshaked h x.1 x.2.id := by
  refine hr.invariant (I := fun h _ => ∀ x ∈ enqueued h, Handshaked h x.1 x.2.id)
    (by rintro x ⟨⟩) fun h s e hr hi he hown x hx => ?_
  rw [enqueued_append] at hx
  rcases List.mem_append.mp hx with hx | hx
  · exact (hi x hx).append _
  · have ht := listener_of_enqueues hx
    obtain ⟨-, hid, hpc⟩ := (moves_next (And.right he) ht).own_id hown hx
    rw [hid]
    exact (handshaked_of_run hr x.1 hpc).append _

theorem enqueued_of_log {client_ids : List UInt16} {G : Server → Event → Prop}
    (hr : (server client_ids).Run G h s) {i : Nat} {m : Message} (hm : s.log[i]? = some m) :
    ∃ t, (enqueued h)[i]? = some (t, m) := by
  have hmap : ((enqueued h).map Prod.snd)[i]? = some m := by
    rw [pipeline_of_run hr, pipeline, List.append_assoc,
      List.getElem?_append_left (List.getElem?_eq_some_iff.mp hm).1, hm]
  rw [List.getElem?_map] at hmap
  obtain ⟨x, hx, rfl⟩ := Option.map_eq_some_iff.mp hmap
  exact ⟨x.1, hx⟩

end Server

/-- **Author authenticity**, in every run in which the clients put their own id into the frames
they send. -/
theorem authentic {client_ids : List UInt16} {h : History} {s : Server}
    (hr : (server client_ids).Run Server.OwnId h s) : s.Authentic h := by
  have hauthor : ∀ (i : Nat) (m : Message), s.log[i]? = some m →
      ∃ t, (enqueued h)[i]? = some (t, m) ∧ Handshaked h t m.id := by
    intro i m hm
    obtain ⟨t, ht⟩ := Server.enqueued_of_log hr hm
    exact ⟨t, ht, Server.own_of_run hr _ (List.mem_of_getElem? ht)⟩
  refine ⟨hauthor, fun t i hi => ?_⟩
  obtain ⟨m, hm, -⟩ := (Server.ordered_of_reach hr.reach).foreign t i hi
  obtain ⟨t', ht', hs⟩ := hauthor i m hm
  obtain ⟨s', m', hmem, hkind, hid, heq⟩ := hs
  exact ⟨t', m, ht', ⟨s', m', hmem, hkind, hid, heq⟩, heq ▸ hid⟩

theorem authentic_threeClients : ∃ h s, (server [1, 2, 3]).Run Server.OwnId h s ∧
    s.log.length = 4 ∧ s.Authentic h := by
  have hrun : ((server [1, 2, 3]).exec Server.OwnId (server [1, 2, 3]).init threeClients).any
      (fun s => s.log.length = 4) = true := by
    decide +kernel
  obtain ⟨h, s, hr, hw⟩ := TransitionSystem.exists_run_of_exec
    (p := fun _ (s : Server) => s.log.length = 4) hrun
  exact ⟨h, s, hr, of_decide_eq_true hw, authentic hr⟩

/-- Client 2 sends a `MESG_DCON` with the id 0, which is relayed to client 1 as if it were the
server's. -/
def forging : List Event :=
  let conn id := create_message_header 0 id MESG_CONN
  let bye := create_message_header 0 0 MESG_DCON
  connecting 0 4 1 ++ [.fast_forward 0, .storeMark 0, .client_hash_add_connection 0] ++
  connecting 1 5 2 ++ [.fast_forward 1, .storeMark 1, .client_hash_add_connection 1,
    .recv_header 1 (some bye)] ++
  appending (conn 1) 0 [conn 2, bye] ++
    [.visit (conn 1) 0 1 [2]] ++ delivering (conn 1) 0 2 [] 5 ++ [.unlockClients (conn 1) 0] ++
  appending (conn 2) 1 [bye] ++
    delivering (conn 2) 1 1 [2] 4 ++ [.visit (conn 2) 1 2 [], .unlockClients (conn 2) 1] ++
  appending bye 2 [] ++ delivering bye 2 1 [2] 4

/-- Client 1 gets a frame with the id 0 that the server did not write. -/
theorem not_authentic : ¬ ∀ h s, (server [1, 2]).Run (fun _ _ => True) h s → s.Authentic h := by
  have hrun : ((server [1, 2]).exec (fun _ _ => True) (server [1, 2]).init forging).any
      (fun s => s.log.map Message.id = [1, 2, 0] ∧ positions (s.wire 0) = [1, 2]) = true := by
    decide +kernel
  obtain ⟨h, s, hr, hw⟩ := TransitionSystem.exists_run_of_exec (p := fun _ (s : Server) =>
    s.log.map Message.id = [1, 2, 0] ∧ positions (s.wire 0) = [1, 2]) hrun
  obtain ⟨hlog, -⟩ := of_decide_eq_true hw
  have hget : (s.log.map Message.id)[2]? = some 0 := by rw [hlog]; rfl
  rw [List.getElem?_map] at hget
  obtain ⟨bye, hbye, hzero⟩ := Option.map_eq_some_iff.mp hget
  intro hall
  obtain ⟨t, -, s', m, -, -, hid, heq⟩ := (hall h s hr).author 2 bye hbye
  exact hid (heq.trans hzero)

end Cs2510.Chat
