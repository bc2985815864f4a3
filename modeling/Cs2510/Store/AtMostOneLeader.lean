import Cs2510.Store.ElectionStep

/-!
# At most one leader

A server that finds its own znode the lowest child leads, and stays the lowest while it is live. But
`check_election` runs for the first time before the server has a znode: on an empty `/election` both
`min_path` and `zk_path` are `None`, the comparison succeeds, and the server leads without a znode.
Two servers that start together then both lead (`not_at_most_one_leader`). In the runs in which this
happens to one server at a time (`Cluster.OneAtATime`) there is at most one leader
(`at_most_one_leader`).
-/

namespace Cs2510.Store.Election

variable {K V : Type}

/-- The loop is over, and has found no minimum. -/
def Call.foundNone : Call → Bool
  | .loop _ [] none => true
  | _ => false

namespace Process

/-- The thread `t` has found the server's znode the lowest, and is about to set `leader`. -/
def Elects (p : Process K V) (t : Thread) : Prop := (p.call t).map Prod.snd = some .lead

/-- The server leads, or a thread of it is about to make it lead. -/
def Elected (p : Process K V) : Prop :=
  p.server.leader = true ∨ p.Elects .zk_init_election ∨ p.Elects .election_watch

/-- The next step of the thread `t` compares a `min_path` that is `None` with a `zk_path` that is
`None`. -/
def ComparesNone (p : Process K V) (t : Thread) : Prop :=
  (p.call t).any (fun c => c.2.foundNone) = true ∧ p.server.zk_path = none

instance (p : Process K V) (t : Thread) : Decidable (p.Elects t) :=
  inferInstanceAs (Decidable (_ = _))

instance (p : Process K V) : Decidable p.Elected :=
  inferInstanceAs (Decidable (_ ∨ _ ∨ _))

instance (p : Process K V) (t : Thread) : Decidable (p.ComparesNone t) :=
  inferInstanceAs (Decidable (_ ∧ _))

theorem Elects.elected {p : Process K V} {t : Thread} (h : p.Elects t) : p.Elected := by
  cases t with
  | zk_init_election => exact .inr (.inl h)
  | election_watch => exact .inr (.inr h)

theorem Elected.cases {p : Process K V} (h : p.Elected) :
    p.server.leader = true ∨ ∃ t, p.Elects t :=
  h.imp_right fun h => h.elim (fun h => ⟨_, h⟩) fun h => ⟨_, h⟩

end Process

namespace Cluster

/-- The server `j` has a znode, and `i` has none before it. -/
def Precedes (s : Cluster K V) (j i : Nat) : Prop :=
  ∃ z ∈ (s.process j).znode, ∀ z' ∈ (s.process i).znode, z < z'

instance (s : Cluster K V) (j i : Nat) : Decidable (s.Precedes j i) :=
  inferInstanceAs (Decidable (∃ z ∈ (s.process j).znode, _))

/-- The server is elected and has no znode. -/
def Bare (s : Cluster K V) (i : Nat) : Prop :=
  (s.process i).Elected ∧ (s.process i).znode = none

instance (s : Cluster K V) (i : Nat) : Decidable (s.Bare i) := inferInstanceAs (Decidable (_ ∧ _))

/-- A server compares `None` with `None` only when no other live server precedes it or is elected
without a znode, and creates its znode only when no other live server is elected without one. -/
def OneAtATime (s : Cluster K V) : Event K V → Prop
  | .check_election i t _ => (s.process i).ComparesNone t →
    ∀ j < s.count, j ≠ i → (s.process j).live = true → ¬s.Precedes j i ∧ ¬s.Bare j
  | .create i => ∀ j < s.count, j ≠ i → (s.process j).live = true → ¬s.Bare j
  | _ => True

instance (s : Cluster K V) (e : Event K V) : Decidable (s.OneAtATime e) :=
  match e with
  | .check_election .. => inferInstanceAs (Decidable (_ → ∀ j < s.count, _))
  | .create _ => inferInstanceAs (Decidable (∀ j < s.count, _))
  | .start _ | .assign .. | .get_children .. | .count .. | .watch .. | .crash _ | .expire _ =>
    .isTrue trivial

def AtMostOneLeader (s : Cluster K V) : Prop :=
  ∀ i j, (s.process i).live = true → (s.process j).live = true →
    (s.process i).server.leader = true → (s.process j).server.leader = true → i = j

/-- No live server precedes one that is elected, and one server at a time is elected without a
znode. -/
structure Led (s : Cluster K V) : Prop where
  first : ∀ i j, (s.process i).live = true → (s.process j).live = true → j ≠ i →
    (s.process i).Elected → ¬s.Precedes j i
  bare : ∀ i j, (s.process i).live = true → (s.process j).live = true → s.Bare i → s.Bare j →
    i = j

variable {s : Cluster K V} {e : Event K V}

theorem not_elected_start (port : Port) : ¬(Process.start port : Process K V).Elected := by
  rintro (h | h | h) <;> cases h

/-- A server that is elected after a step was so before it, or has compared `min_path` and
`zk_path`. -/
theorem elected_next (he : s.enabled e) {i : Nat} (h : ((s.next e).process i).Elected) :
    (s.process i).Elected ∨
    ∃ t sync v old_leader_port min_path, e = .check_election i t sync ∧
      (s.process i).call t = some (v, .loop old_leader_port [] min_path) ∧
      min_path = (s.process i).server.zk_path := by
  rcases h.cases with hleader | ⟨t, ht⟩
  · left
    obtain ⟨p, hp, rfl | hacts⟩ := process_next he i
    · rw [hp] at hleader
      exact .inl hleader
    · rw [hp] at hleader
      cases hacts with
      | start port => cases hleader
      | check_election i t sync version call hcall =>
        rw [Process.after_server] at hleader
        rcases Call.step_leader hleader with hleader | rfl
        · exact .inl hleader
        · exact Process.Elects.elected (t := t) (by rw [Process.Elects, hcall]; rfl)
      | _ => exact .inl hleader
  · obtain ⟨⟨v, c⟩, hcall, rfl⟩ := Option.map_eq_some_iff.mp ht
    rcases call_next he hcall with hold | ⟨sync, d, rfl, hd, hstep⟩ | ⟨_, hc, -⟩ | ⟨_, hc, -⟩
    · exact .inl (Process.Elects.elected (t := t) (by rw [Process.Elects, hold]; rfl))
    · obtain ⟨old, min_path, rfl, hmin⟩ := Call.step_lead hstep
      exact .inr ⟨t, sync, v, old, min_path, rfl, hd, hmin⟩
    · cases hc
    · cases hc

/-- A server that is elected anew is preceded by none, and is not the second without a znode. -/
theorem first_of_compared (hw : Wf s) (hl : Listing s) {i j : Nat} {t : Thread} {sync : Sync K V}
    {v : Nat} {old min_path : Option Nat} (hg : s.OneAtATime (.check_election i t sync))
    (hcall : (s.process i).call t = some (v, .loop old [] min_path))
    (hmin : min_path = (s.process i).server.zk_path)
    (hj : (s.process j).live = true) (hne : j ≠ i) :
    ¬s.Precedes j i ∧ ((s.process i).znode = none → ¬s.Bare j) := by
  cases min_path with
  | none =>
    have hnone : (s.process i).ComparesNone t := ⟨by rw [hcall]; rfl, hmin.symm⟩
    exact (hg hnone j (hw.started j hj) hne hj).imp_right fun h _ => h
  | some m =>
    have hm : (s.process i).znode = some m := by
      have hun := hw.unassigned i
      unfold Process.znode
      split
      · next h => rw [hun (.inl h)] at hmin; cases hmin
      · next h => rw [hun (.inr ⟨_, h⟩)] at hmin; cases hmin
      · exact hmin.symm
      · exact hmin.symm
      · exact hmin.symm
    refine ⟨?_, fun h => by rw [hm] at h; cases h⟩
    rintro ⟨z, hz, hlt⟩
    have hmem : z ∈ s.children := List.mem_map.mpr ⟨_, hw.member j hj z hz, rfl⟩
    have hcovers : s.Covers [] (some m) := hl.calls i t v _ hcall
    exact Nat.not_lt.mpr (hcovers.le hmem) (hlt m hm)

/-- A server without a znode is preceded by every server that has one. -/
theorem znode_none_of_not_precedes {i j : Nat} (hi : (s.process i).znode = none)
    (h : ¬s.Precedes j i) : (s.process j).znode = none := by
  cases hj : (s.process j).znode with
  | none => rfl
  | some z => exact absurd ⟨z, hj, fun z' hz' => by rw [hi] at hz'; cases hz'⟩ h

theorem bare_of_next (he : s.enabled e) {i : Nat} (hlive : (s.process i).live = true)
    (hlive' : ((s.next e).process i).live = true) (hw : Wf s) (h : (s.next e).Bare i) :
    (s.process i).znode = none := by
  rcases znode_next he hlive' with hsame | ⟨-, -, hnew⟩ | ⟨port, -, rfl, -⟩
  · rw [← hsame]
    exact h.2
  · rw [h.2] at hnew
    cases hnew
  · exact absurd (hw.started _ hlive) (Nat.lt_irrefl _)

theorem Led.step (h : Led s) (hw : Wf s) (hl : Listing s) (he : s.enabled e)
    (hg : s.OneAtATime e) : Led (s.next e) where
  first i j hi hj hne helected hprec := by
    rcases live_next he hi with hi' | ⟨port, -, -, heq⟩
    swap
    · rw [heq] at helected
      exact not_elected_start port helected
    rcases live_next he hj with hj' | ⟨port, -, -, heq⟩
    swap
    · obtain ⟨z, hz, -⟩ := hprec
      rw [heq] at hz
      cases hz
    have hstart : ∀ {k : Nat}, (s.process k).live = true →
        ¬∃ port, e = .start port ∧ k = s.count ∧ (s.next e).process k = .start port := by
      rintro k hk ⟨port, -, rfl, -⟩
      exact Nat.lt_irrefl _ (hw.started _ hk)
    -- before the step, `j` did not precede `i`
    have hold : ¬s.Precedes j i := by
      rcases elected_next he helected with hbefore | ⟨t, sync, v, old, min_path, rfl, hcall, hmin⟩
      · exact h.first i j hi' hj' hne hbefore
      · exact (first_of_compared hw hl hg hcall hmin hj' hne).1
    obtain ⟨z, hz, hlt⟩ := hprec
    rcases (or_assoc.mpr (znode_next he hi)).resolve_right (hstart hi') with hsi | ⟨rfl, hnone, -⟩
    · rcases (or_assoc.mpr (znode_next he hj)).resolve_right (hstart hj') with hsj | ⟨rfl, -, hnew⟩
      · exact hold ⟨z, hsj ▸ hz, hsi ▸ hlt⟩
      · rw [hnew] at hz
        cases hz
        rcases elected_next he helected with hbefore | ⟨_, _, _, _, _, hcontra, -⟩
        · cases hzi : (s.process i).znode with
          | none => exact hg i (hw.started i hi') hne.symm hi' ⟨hbefore, hzi⟩
          | some z' =>
            have hz' : z' < s.sequence := hw.below _ (hw.member i hi' z' hzi)
            exact Nat.lt_asymm hz' (hlt z' (hsi.trans hzi))
        · cases hcontra
    · have hnone' := znode_none_of_not_precedes hnone hold
      rcases (or_assoc.mpr (znode_next he hj)).resolve_right (hstart hj') with hsj | ⟨hcontra, -⟩
      · rw [hsj, hnone'] at hz
        cases hz
      · cases hcontra
        exact hne rfl
  bare i j hi hj hbi hbj := by
    by_contra hne
    rcases live_next he hi with hi' | ⟨port, -, -, heq⟩
    swap
    · rw [Bare, heq] at hbi
      exact not_elected_start port hbi.1
    rcases live_next he hj with hj' | ⟨port, -, -, heq⟩
    swap
    · rw [Bare, heq] at hbj
      exact not_elected_start port hbj.1
    have hzi := bare_of_next he hi' hi hw hbi
    have hzj := bare_of_next he hj' hj hw hbj
    rcases elected_next he hbi.1 with hi'' | ⟨t, sync, v, old, min_path, rfl, hcall, hmin⟩
    · rcases elected_next he hbj.1 with hj'' | ⟨t, sync, v, old, min_path, rfl, hcall, hmin⟩
      · exact hne (h.bare i j hi' hj' ⟨hi'', hzi⟩ ⟨hj'', hzj⟩)
      · exact (first_of_compared hw hl hg hcall hmin hi' hne).2 hzj ⟨hi'', hzi⟩
    · rcases elected_next he hbj.1 with hj'' | ⟨_, _, _, _, _, hcontra, -⟩
      · exact (first_of_compared hw hl hg hcall hmin hj' (Ne.symm hne)).2 hzi ⟨hj'', hzj⟩
      · cases hcontra
        exact hne rfl

theorem led_of_reach (h : (election K V).Reach OneAtATime s) : Led s :=
  h.invariant_of (fun _ hr => And.intro (wf_of_reach hr) (listing_of_reach hr))
    ⟨fun i j h => (by cases h), fun i j h => (by cases h)⟩
    fun _ _ hw hled he hg => hled.step hw.1 hw.2 he hg

end Cluster

/-- **At most one leader**, in every run in which one server at a time is elected without a
znode. -/
theorem at_most_one_leader {s : Cluster K V}
    (h : (election K V).Reach Cluster.OneAtATime s) : s.AtMostOneLeader := by
  have hw := Cluster.wf_of_reach h
  have hled := Cluster.led_of_reach h
  intro i j hi hj hli hlj
  by_contra hne
  have hij := hled.first i j hi hj (Ne.symm hne) (.inl hli)
  have hji := hled.first j i hj hi hne (.inl hlj)
  cases hzi : (s.process i).znode with
  | none =>
    have hzj := Cluster.znode_none_of_not_precedes hzi hij
    exact hne (hled.bare i j hi hj ⟨.inl hli, hzi⟩ ⟨.inl hlj, hzj⟩)
  | some z =>
    cases hzj : (s.process j).znode with
    | none =>
      rw [Cluster.znode_none_of_not_precedes hzj hji] at hzi
      cases hzi
    | some z' =>
      have hle : z ≤ z' := by
        by_contra hlt
        exact hij ⟨z', hzj, fun y hy => by rw [hzi] at hy; cases hy; exact Nat.lt_of_not_le hlt⟩
      have hge : z' ≤ z := by
        by_contra hlt
        exact hji ⟨z, hzi, fun y hy => by rw [hzj] at hy; cases hy; exact Nat.lt_of_not_le hlt⟩
      exact hne (hw.znode_unique hi hj hzi (Nat.le_antisymm hle hge ▸ hzj))

/-- The first server crashes, and the second takes over. -/
def takeover : List (Event Nat Nat) :=
  firstServer ++ secondServer ++ [.crash 0, .expire ⟨0, 7777, 0⟩, .watch 1 [1]] ++
  calling 1 .election_watch 9

theorem at_most_one_leader_takeover :
    ∃ s, (election Nat Nat).Reach Cluster.OneAtATime s ∧
      (s.process 1).live ∧ (s.process 1).server.leader ∧ s.AtMostOneLeader := by
  have hrun : ((election Nat Nat).exec Cluster.OneAtATime (election Nat Nat).init takeover).any
      (fun s => (s.process 1).live ∧ (s.process 1).server.leader) = true := by
    decide +kernel
  obtain ⟨s, hs, hend⟩ := TransitionSystem.exists_reach_of_exec hrun
  obtain ⟨hlive, hleader⟩ := of_decide_eq_true hend
  exact ⟨s, hs, hlive, hleader, at_most_one_leader hs⟩

/-- Two servers load their modules before either has created its znode. -/
def together : List (Event Nat Nat) :=
  [.start 7777, .start 7778, .watch 0 [], .watch 1 []] ++ calling 0 .election_watch 7 ++
  calling 1 .election_watch 7

/-- Both lead. -/
theorem not_at_most_one_leader :
    ¬ ∀ s : Cluster Nat Nat, (election Nat Nat).Reachable s → s.AtMostOneLeader := by
  have hrun : ((election Nat Nat).exec (fun _ _ => True) (election Nat Nat).init together).any
      (fun s => (s.process 0).live ∧ (s.process 1).live ∧ (s.process 0).server.leader ∧
        (s.process 1).server.leader) = true := by
    decide +kernel
  obtain ⟨s, hs, hend⟩ := TransitionSystem.exists_reach_of_exec hrun
  obtain ⟨hlive₀, hlive₁, hleader₀, hleader₁⟩ := of_decide_eq_true hend
  intro h
  have heq := h s hs 0 1 hlive₀ hlive₁ hleader₀ hleader₁
  cases heq

end Cs2510.Store.Election
