import Cs2510.Store.Service

/-!
# Who orders the writes

`POST /data` broadcasts a write on the leader only, but `POST /data/leader` does so on whichever
server it is sent to. The updates of the broadcasts come from leaders in the runs in which no such
request reaches a server that does not lead.
-/

namespace Cs2510.Store

variable {K V : Type}

/-- The broadcast a thread belongs to. -/
def Thread.broadcast : Thread K V → Option (Broadcast K V)
  | .broadcast_post b | .loop b _ | .posted b _ _ => some b
  | .request_post .. | .requested .. | .replied .. => none

/-- `leader_set` finds all it needs. -/
def Body.Complete (data : Body K V) : Prop :=
  data.key.isSome ∧ data.value.isSome ∧ data.port.isSome

instance (data : Body K V) : Decidable data.Complete := inferInstanceAs (Decidable (_ ∧ _ ∧ _))

variable [DecidableEq K] [DecidableEq V] [JsonValue K] [JsonValue V]

/-- A `POST /data/leader` is answered with an error, starts no thread and changes nothing. -/
def Server.Refuses (srv : Server K V) (data : Body K V) : Prop :=
  ∃ text code, 400 ≤ code ∧ srv.leader_set data = (srv, none, .text text code)

omit [DecidableEq V] [JsonValue K] [JsonValue V] in
theorem Server.refuses_iff (srv : Server K V) (data : Body K V) :
    srv.Refuses data ↔ ¬ data.Complete := by
  obtain ⟨key, value, port⟩ := data
  constructor
  · rintro ⟨text, code, -, h⟩ hcomplete
    obtain ⟨key, rfl⟩ := Option.isSome_iff_exists.mp hcomplete.1
    obtain ⟨value, rfl⟩ := Option.isSome_iff_exists.mp hcomplete.2.1
    obtain ⟨port, rfl⟩ := Option.isSome_iff_exists.mp hcomplete.2.2
    cases congrArg (·.2.1) h
  · intro hcomplete
    refine ⟨"Error, missing info", 400, Nat.le_refl _, ?_⟩
    unfold leader_set
    split
    · next hkey hvalue hport =>
      dsimp only at hkey hvalue hport
      subst hkey hvalue hport
      exact absurd ⟨rfl, rfl, rfl⟩ hcomplete
    · rfl

namespace Service

/-- No `POST /data/leader` with all it needs is handled by a server that does not lead. -/
def OrderedByLeader (s : Service K V) : Action K V → Prop
  | .store (.leader_set p data) => (s.system.server p).leader = true ∨ ¬ data.Complete
  | .store (.serve _ _ _ ldr _ _) => (s.system.server ldr).leader = true
  | _ => True

instance (s : Service K V) (a : Action K V) : Decidable (s.OrderedByLeader a) :=
  match a with
  | .store e =>
    match e with
    | .leader_set p data =>
      inferInstanceAs (Decidable ((s.system.server p).leader = true ∨ ¬ data.Complete))
    | .serve _ _ _ ldr _ _ => inferInstanceAs (Decidable ((s.system.server ldr).leader = true))
    | .post_data .. | .loop .. | .skip .. | .refused .. | .post .. | .follower_set .. | .lost ..
    | .finish .. | .request_raised .. | .request_refused .. | .request .. | .request_lost ..
    | .reply .. | .crash .. | .start .. | .check_election .. | .leader_sync .. | .sync_done ..
    | .sync_lost .. => .isTrue trivial
  | .create .. | .count .. | .check_election .. | .step .. | .ask .. | .leader_sync ..
  | .install .. | .abandon .. => .isTrue trivial

/-- The write of a broadcast was accepted by a server that led at that moment. -/
def AcceptedByLeader (h : History K V) (b : Broadcast K V) : Prop :=
  ∃ x ∈ h, x.1.accepted x.2 = some ⟨b.key, b.val, b.owner⟩ ∧
    x.1.system.writes.length = b.stamp ∧ (x.1.system.server b.owner).leader = true

variable {s : Service K V} {a : Action K V} {h : History K V}

omit [DecidableEq V] in
theorem AcceptedByLeader.append {b : Broadcast K V} (hb : AcceptedByLeader h b)
    (h' : History K V) : AcceptedByLeader (h ++ h') b := by
  obtain ⟨x, hx, hacc⟩ := hb
  exact ⟨x, List.mem_append_left _ hx, hacc⟩

instance (h : History K V) (b : Broadcast K V) : Decidable (AcceptedByLeader h b) :=
  inferInstanceAs (Decidable (∃ x ∈ h, _ ∧ _ ∧ _))

omit [DecidableEq V] in
/-- A write that starts a broadcast is accepted by a leader. -/
theorem leader_of_accepted (hg : s.OrderedByLeader a) {w : Write K V}
    (hacc : s.accepted a = some w)
    (hby : ∀ owner key val, a ≠ .store (.request_refused owner key val)) :
    (s.system.server w.port).leader = true := by
  cases a with
  | store e =>
    cases e with
    | post_data p data =>
      simp only [accepted, System.accepted] at hacc
      obtain ⟨r, h⟩ | ⟨key, val, r, -, h⟩ | ⟨key, val, r, hleader, h⟩ :=
        System.post_data_cases (s.system.server p) data
      all_goals
        rw [h] at hacc
        cases hacc
      exact hleader
    | leader_set p data =>
      rcases hg with hleader | hincomplete
      · simp only [accepted, System.accepted] at hacc
        split at hacc <;> cases hacc
        exact hleader
      · obtain ⟨text, code, -, h⟩ := (Server.refuses_iff (s.system.server p) data).mpr hincomplete
        simp only [accepted, System.accepted, h] at hacc
        cases hacc
    | serve owner key val ldr waiting answered => cases hacc; exact hg
    | request_refused owner key val => exact absurd rfl (hby owner key val)
    | _ => cases hacc
  | _ => cases hacc

omit [DecidableEq K] [DecidableEq V] [JsonValue K] [JsonValue V] in
theorem broadcast_of_succeeds {s : System K V} {e : Event K V} {old th : Thread K V}
    (h : System.Succeeds s e old th) : th.broadcast = old.broadcast := by
  cases h <;> rfl

/-- The broadcasts under way are of writes accepted by leaders. -/
theorem acceptedByLeader_of_run (hr : (service K V).Run OrderedByLeader h s) :
    ∀ th ∈ s.system.threads, ∀ b ∈ th.broadcast, AcceptedByLeader h b := by
  apply hr.invariant (I := fun h s => ∀ th ∈ s.system.threads, ∀ b ∈ th.broadcast,
    AcceptedByLeader h b)
  · intro th hth
    cases hth
  · intro h s a _ ih he hg th hth b hb
    rcases threads_next he hth with hold | ⟨t, e, hev, ⟨old, hold, hsucc⟩ | hstart⟩
    · exact (ih th hold b hb).append _
    · rw [broadcast_of_succeeds hsucc] at hb
      exact (ih old hold b hb).append _
    · cases hstart with
      | broadcast_post w skip_port hacc hby =>
        cases hb
        rw [accepted_view hev] at hacc
        have hleader := leader_of_accepted hg hacc (by
          rintro owner key val rfl
          cases hev
          exact hby owner key val rfl)
        exact ⟨(s, a), List.mem_append_right _ List.mem_cons_self, hacc, rfl, hleader⟩
      | request_post | replied => cases hb

end Service

/-- **Who orders the writes.** Where `POST /data/leader` reaches leaders only, so do the updates
that a broadcast sends come from leaders; a server that does not lead refuses the request when
something is missing from it, and only then. -/
theorem leader_orders :
    (∀ (h : Service.History K V) s, (service K V).Run Service.OrderedByLeader h s →
      ∀ b p todo, s.enabled (.store (.post b p todo)) → Service.AcceptedByLeader h b) ∧
    ∀ srv : Server K V, (srv.leader = false → srv.leader_sync = .text "" 409) ∧
      ∀ data, (srv.leader = false → srv.Refuses data) ↔ (srv.leader = true ∨ ¬ data.Complete) := by
  refine ⟨fun h s hr b p todo he => ?_, fun srv => ⟨fun hleader => ?_, fun data => ?_⟩⟩
  · exact Service.acceptedByLeader_of_run hr _ he.2.1 b rfl
  · simp [Server.leader_sync, hleader]
  · rw [srv.refuses_iff]
    cases srv.leader <;> simp

/-- Server 1 forwards a client's write to the leader, which sends the update to itself. -/
theorem leader_orders_forwarded : ∃ h s, (service _ _).Run Service.OrderedByLeader h s ∧
    s.enabled (.store (.post (copy 7 1 (some 1) 0) 0 [])) ∧
      Service.AcceptedByLeader h (copy 7 1 (some 1) 0) := by
  have hrun : ((service _ _).exec Service.OrderedByLeader .init (twoStarted ++ forwarding)).any
      (fun s => s.enabled (.store (.post (copy 7 1 (some 1) 0) 0 []))) = true := by
    decide +kernel
  obtain ⟨h, s, hr, hw⟩ := TransitionSystem.exists_run_of_exec
    (p := fun _ (s : Service (Option Nat) (Option Nat)) =>
      s.enabled (.store (.post (copy 7 1 (some 1) 0) 0 []))) hrun
  have he := of_decide_eq_true hw
  exact ⟨h, s, hr, he, leader_orders.1 h s hr _ _ _ he⟩

/-- Server 0 crashes and starts again on its port; server 1, whose znode is now the lowest, still
takes it for the leader and forwards a client's write to it. -/
def restartedLeader : List (Action (Option Nat) (Option Nat)) :=
  twoStarted ++ [.store (.crash 0)] ++ starting 0 2 ++ polling 0 [(1, 1), (2, 0)] 12 ++
    forwarding ++ [.store (.skip (copy 7 1 (some 1) 0) 1 [0])]

theorem not_leader_orders :
    (¬ ∀ (h : Service.History (Option Nat) (Option Nat)) s,
      (service _ _).Run (fun _ _ => True) h s →
      ∀ b p todo, s.enabled (.store (.post b p todo)) → Service.AcceptedByLeader h b) ∧
    ¬ ∀ (srv : Server (Option Nat) (Option Nat)) data, srv.leader = false → srv.Refuses data := by
  constructor
  · have hrun : ((service _ _).exec (fun _ _ => True) .init restartedLeader).any (fun s =>
        s.enabled (.store (.post (copy 7 1 (some 1) 0) 0 [])) ∧ ¬ Service.AcceptedByLeader
          ((service _ _).trace .init restartedLeader) (copy 7 1 (some 1) 0)) = true := by
      decide +kernel
    obtain ⟨h, s, hr, hw⟩ := TransitionSystem.exists_run_of_exec
      (p := fun h (s : Service (Option Nat) (Option Nat)) =>
        s.enabled (.store (.post (copy 7 1 (some 1) 0) 0 [])) ∧
          ¬ Service.AcceptedByLeader h (copy 7 1 (some 1) 0)) hrun
    obtain ⟨he, hnot⟩ := of_decide_eq_true hw
    intro hall
    exact hnot (hall h s hr _ _ _ he)
  · intro hall
    have hrefuses := hall (.start 1) ⟨some (some 7), some (some 1), some 1⟩ rfl
    exact (Server.refuses_iff _ _).mp hrefuses ⟨rfl, rfl, rfl⟩

end Cs2510.Store
