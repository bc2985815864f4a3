import Cs2510.Chat.ListenerStep
import Cs2510.Chat.TotalOrder

/-!
# Receive errors

A `recv` can fail in the header of the handshake, in a later header and in a payload, its discarded
part included. `contained_iff` says for which of them the error costs the connection only: the
listener leaves, takes its descriptor out of its client's list and closes it, whatever the other
threads do meanwhile, and changes nothing else. A failed header is a NULL message, which the
error branch of the handshake frees and the receive loop looks into.
-/

namespace Cs2510.Chat

/-- On the way out of the receive loop. -/
def ListenerPc.leaving : ListenerPc → Bool
  | .out | .closing | .finished => true
  | _ => false

/-- The actions of the listener `t` in which a `recv` has failed. -/
inductive RecvFails (t : Tid) : Event → Prop
  | handshake : RecvFails t (.handshake t none)
  | header : RecvFails t (.recv_header t none)
  | payload (m : Message) : RecvFails t (.recv_payload t m none)

namespace Server

/-- Nothing has changed but the listener `t` and its connection, which its client may have lost. -/
structure OnlyOwn (t : Tid) (s s' : Server) : Prop where
  alive : s'.crashed = false
  log : s'.log = s.log
  sendqueue : s'.sendqueue = s.sendqueue
  last_read : ∀ c, (s'.client c).last_read = (s.client c).last_read
  sockfds : ∀ c, (s'.client c).sockfds = (s.client c).sockfds ∨ c = (s.listener t).client_id ∧
    (s'.client c).sockfds = (s.client c).sockfds.erase (s.listener t).fd
  socket : ∀ fd, fd ≠ (s.listener t).fd → s'.socket fd = s.socket fd
  others : ∀ t', t' ≠ t → s'.listener t' = s.listener t' ∧ s'.wire t' = s.wire t'

/-- The states that follow `s`, in any order of the steps of all threads. -/
def After (client_ids : List UInt16) (s : Server) : Server → Prop :=
  TransitionSystem.Reachable { server client_ids with init := s }

/-- The failure `e` of a `recv` costs the listener `t` its connection, and nobody anything else. -/
structure Contained (s : Server) (client_ids : List UInt16) (t : Tid) (e : Event) : Prop where
  /-- the failing call itself -/
  failure : s.OnlyOwn t (s.next e)
  /-- what the listener does from then on -/
  own : ∀ s' e', After client_ids (s.next e) s' → (server client_ids).enabled s' e' →
    e'.listener = some t → s'.OnlyOwn t (s'.next e')
  /-- it is not stuck -/
  goes_on : ∀ s', After client_ids (s.next e) s' → s'.sender.holdsClientsLock = false →
    (s'.listener t).pc ≠ .finished → ∃ e', e'.listener = some t ∧ s'.enabled e'
  /-- it has only so many steps left -/
  ends : ∃ rank : ListenerPc → Nat, ∀ s' e', After client_ids (s.next e) s' →
    (server client_ids).enabled s' e' → e'.listener = some t →
    rank ((s'.next e').listener t).pc < rank (s'.listener t).pc
  removed : ∀ s', After client_ids (s.next e) s' → (s'.listener t).pc = .closing →
    ∀ c, ∀ fd ∈ (s'.client c).sockfds, s'.socket fd ≠ some t
  closed : ∀ s', After client_ids (s.next e) s' → (s'.listener t).pc = .finished →
    ∀ fd, s'.socket fd ≠ some t

variable {client_ids : List UInt16} {s s' : Server} {e : Event} {t : Tid} {pc pc' : ListenerPc}

theorem After.refl (client_ids : List UInt16) (s : Server) : After client_ids s s := .init

theorem After.step (hs' : After client_ids s s') (halive : s'.crashed = false)
    (he : s'.enabled e) : After client_ids s (s'.next e) :=
  TransitionSystem.Reach.step (T := { server client_ids with init := s }) hs' ⟨halive, he⟩
    trivial

/-- A listener on its way out has two steps left. -/
theorem Moves.of_leaving (hm : s.Moves t e pc pc') (hpc : pc.leaving) :
    e = .client_hash_remove_connection t ∧ pc = .out ∧ pc' = .closing ∨
      e = .close t ∧ pc = .closing ∧ pc' = .finished := by
  cases hm with
  | remove => exact .inl ⟨rfl, rfl, rfl⟩
  | close => exact .inr ⟨rfl, rfl, rfl⟩
  | _ => cases hpc

theorem leaving_of_after (hpc : (s.listener t).pc.leaving) (hs' : After client_ids s s') :
    (s'.listener t).pc.leaving := by
  have hstep : ∀ (s' : Server) e', (s'.listener t).pc.leaving → s'.enabled e' →
      ((s'.next e').listener t).pc.leaving := by
    intro s' e' hpc he
    by_cases ht : e'.listener = some t
    · obtain ⟨-, -, hpc'⟩ | ⟨-, -, hpc'⟩ := (moves_next he ht).of_leaving hpc
      all_goals
        rw [hpc']
        rfl
    · rwa [listener_next_of_ne ht]
  refine hs'.invariant (I := fun s' => (s'.listener t).pc.leaving) hpc ?_
  rintro s' e' hpc ⟨-, he⟩ -
  exact hstep s' e' hpc he

theorem onlyOwn_goto (halive : s.crashed = false) (pc : ListenerPc) :
    s.OnlyOwn t (s.goto t pc) where
  alive := halive
  log := rfl
  sendqueue := rfl
  last_read _ := rfl
  sockfds _ := .inl rfl
  socket _ _ := rfl
  others t' ht' := ⟨by rw [goto_listener, if_neg ht'], rfl⟩

theorem onlyOwn_remove (halive : s.crashed = false) :
    s.OnlyOwn t (s.next (.client_hash_remove_connection t)) where
  alive := halive
  log := rfl
  sendqueue := rfl
  last_read c := by simp [next]
  sockfds c := by
    simp only [next, goto_client, setFds_sockfds]
    split
    · next hc => exact .inr ⟨hc, by rw [hc]⟩
    · exact .inl rfl
  socket _ _ := rfl
  others t' ht' := ⟨by simp [next, goto_listener, ht'], rfl⟩

theorem onlyOwn_close (halive : s.crashed = false) : s.OnlyOwn t (s.next (.close t)) where
  alive := halive
  log := rfl
  sendqueue := rfl
  last_read _ := rfl
  sockfds _ := .inl rfl
  socket fd hfd := Function.update_of_ne hfd ..
  others t' ht' := ⟨by simp [next, goto_listener, ht'], rfl⟩

/-- A listener on its way out leaves in order. -/
theorem contained_of_leaving (hr : (server client_ids).Reachable s)
    (he : (server client_ids).enabled s e) (hown : s.OnlyOwn t (s.next e))
    (hpc : ((s.next e).listener t).pc.leaving) : s.Contained client_ids t e := by
  have hnext : (server client_ids).Reachable (s.next e) := hr.step he trivial
  have hwf : ∀ s', After client_ids (s.next e) s' → Wf s' := fun s' hs' =>
    wf_of_reach (hnext.trans hs')
  have hmoves : ∀ s' e', After client_ids (s.next e) s' → (server client_ids).enabled s' e' →
      e'.listener = some t → _ := fun s' e' hs' he' ht =>
    (moves_next he'.2 ht).of_leaving (leaving_of_after hpc hs')
  refine ⟨hown, ?_, ?_, ?_, ?_, ?_⟩
  · intro s' e' hs' he' ht
    obtain ⟨rfl, -, -⟩ | ⟨rfl, -, -⟩ := hmoves s' e' hs' he' ht
    · exact onlyOwn_remove he'.1
    · exact onlyOwn_close he'.1
  · intro s' hs' hlock hne
    have hleaving := leaving_of_after hpc hs'
    cases hpc' : (s'.listener t).pc with
    | out => exact ⟨.client_hash_remove_connection t, rfl, hpc', hlock⟩
    | closing => exact ⟨.close t, rfl, hpc'⟩
    | finished => exact absurd hpc' hne
    | _ => rw [hpc'] at hleaving; cases hleaving
  · let rank : ListenerPc → Nat
      | .out => 2
      | .closing => 1
      | _ => 0
    refine ⟨rank, fun s' e' hs' he' ht => ?_⟩
    obtain ⟨-, hold, hnew⟩ | ⟨-, hold, hnew⟩ := hmoves s' e' hs' he' ht
    all_goals
      rw [hold, hnew]
      decide
  · intro s' hs' hclosing c fd hfd hsocket
    obtain ⟨t', hsock, -, hreg⟩ := (hwf s' hs').socket_of_mem hfd
    rw [hsocket] at hsock
    cases hsock
    rw [hclosing] at hreg
    cases hreg
  · intro s' hs' hfinished fd hsocket
    have hlive := (((hwf s' hs').socket_iff fd t).mp hsocket).2
    rw [hfinished] at hlive
    cases hlive

theorem transmit_crashed (s : Server) (fd : Fd) (frame : Frame) (ok : Bool) :
    (s.transmit fd frame ok).crashed = s.crashed := by
  unfold transmit
  split <;> rfl

/-- Without a handshake message there is nothing to free. -/
theorem not_contained_handshake (halive : s.crashed = false) :
    ¬ s.Contained client_ids t (.handshake t none) := by
  intro h
  have hrefuse : (s.next (.handshake t none)).enabled (.refuse t false false) :=
    ⟨next_goto_pc, by rintro ⟨⟩⟩
  have hafter := (After.refl client_ids (s.next (.handshake t none))).step halive hrefuse
  have halive' : ((s.next (.handshake t none)).next (.refuse t false false)).crashed = false :=
    (transmit_crashed ..).trans halive
  have hfree := h.own _ (.free_message t false) hafter ⟨halive', next_goto_pc⟩ rfl
  cases hfree.alive

/-- **Receive errors.** A failing `recv` costs its own connection only, if it is one of a payload,
and in no other case. -/
theorem contained_iff (hr : (server client_ids).Reachable s)
    (he : (server client_ids).enabled s e) (hf : RecvFails t e) :
    s.Contained client_ids t e ↔ ∃ m, e = .recv_payload t m none := by
  constructor
  · intro h
    cases hf with
    | handshake => exact absurd h (not_contained_handshake he.1)
    | header => cases h.failure.alive
    | payload m => exact ⟨m, rfl⟩
  · rintro ⟨m, rfl⟩
    exact contained_of_leaving hr he (onlyOwn_goto he.1 .out) (by rw [next, next_goto_pc]; rfl)

end Server

/-- Client 1 connects and sends the header of a message. -/
def headerOnly : List Event :=
  connecting 0 4 1 ++ [.fast_forward 0, .storeMark 0, .client_hash_add_connection 0,
    .recv_header 0 (some (create_message_header 5 1 MESG_DATA))]

theorem contained_headerOnly : ∃ s, (server [1]).Reachable s ∧ (s.client 1).sockfds = [4] ∧
    s.Contained [1] 0 (.recv_payload 0 (create_message_header 5 1 MESG_DATA) none) := by
  let m := create_message_header 5 1 MESG_DATA
  have hrun : ((server [1]).exec (fun _ _ => True) (server [1]).init headerOnly).any (fun s =>
      (s.client 1).sockfds = [4] ∧ (server [1]).enabled s (.recv_payload 0 m none)) = true := by
    decide +kernel
  obtain ⟨s, hr, hs⟩ := TransitionSystem.exists_reach_of_exec hrun
  obtain ⟨hfds, he⟩ := of_decide_eq_true hs
  exact ⟨s, hr, hfds, (Server.contained_iff hr he (.payload m)).mpr ⟨m, rfl⟩⟩

/-- A connection that is cut before the handshake takes the server down. -/
theorem not_contained : ¬ ∀ client_ids s t e, (server client_ids).Reachable s →
    (server client_ids).enabled s e → RecvFails t e → s.Contained client_ids t e := by
  intro h
  have hrun : ((server [1]).exec (fun _ _ => True) (server [1]).init [.accept 0 4]).any (fun s =>
      (server [1]).enabled s (.handshake 0 none)) = true := by
    decide +kernel
  obtain ⟨s, hr, hs⟩ := TransitionSystem.exists_reach_of_exec hrun
  have he := of_decide_eq_true hs
  exact Server.not_contained_handshake he.1 (h [1] s 0 _ hr he .handshake)

end Cs2510.Chat
