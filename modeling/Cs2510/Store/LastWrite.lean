import Cs2510.Store.SystemStep

/-!
# The last write on the leader

`check_election` puts the leader's own port into its `peer_ports`, so every write it accepts comes
back to it through `follower_set`, at a time of its own. A copy that comes back after the next write
to its key undoes that write (`not_last_write_wins`). In the runs in which a write is accepted only
when the copies still on their way to the leader carry its value (`System.Settled`), the leader's
datastore holds the last write it accepted (`last_write_wins`).
-/

namespace Cs2510.Store

variable {K V : Type} [DecidableEq K] [DecidableEq V] [JsonValue K] [JsonValue V]

/-- The leader is fixed: it does not crash, nobody elects or syncs, and a `POST /data/leader` goes
to it. -/
def Config.Fixed (cfg : Config K V) : Event K V → Prop
  | .leader_set p _ => p = cfg.leader
  | .crash p | .start p => p ≠ cfg.leader
  | .check_election .. | .leader_sync _ | .sync_done _ | .sync_lost _ => False
  | _ => True

instance (cfg : Config K V) (e : Event K V) : Decidable (cfg.Fixed e) :=
  match e with
  | .leader_set .. => inferInstanceAs (Decidable (_ = _))
  | .crash _ | .start _ => inferInstanceAs (Decidable (_ ≠ _))
  | .check_election .. | .leader_sync _ | .sync_done _ | .sync_lost _ => .isFalse id
  | .post_data .. | .loop _ | .skip .. | .refused .. | .post .. | .follower_set .. | .lost ..
  | .finish _ | .request_raised .. | .request_refused .. | .request .. | .serve ..
  | .request_lost .. | .reply .. => .isTrue trivial

namespace System

/-- The last write to `k` that the server at `p` has accepted. -/
def latest (s : System K V) (p : Port) (k : K) : Option (Write K V) :=
  (s.writes.filter fun w => w.port = p ∧ w.key = k).getLast?

/-- The leader's datastore holds the last write to each key that it has accepted. -/
def LastWriteWins (cfg : Config K V) (s : System K V) : Prop :=
  ∀ k, ∀ w ∈ s.latest cfg.leader k, (s.server cfg.leader).datastore k = some w.val

/-- The leader accepts a write only when the copies of earlier writes to the key that are still on
their way to the leader itself carry the same value. -/
def Settled (cfg : Config K V) (s : System K V) (e : Event K V) : Prop :=
  ∀ w ∈ s.accepted e, w.port = cfg.leader → ∀ th ∈ s.threads,
    th.Reaches (fun p => (s.server p).peer_ports) cfg.leader →
    ∀ u ∈ th.update, u.1 = w.key → u.2.1 = w.val

instance (cfg : Config K V) (s : System K V) (e : Event K V) : Decidable (s.Settled cfg e) :=
  inferInstanceAs (Decidable (∀ w ∈ s.accepted e, w.port = cfg.leader → ∀ th ∈ s.threads,
    th.Reaches (fun p => (s.server p).peer_ports) cfg.leader →
    ∀ u ∈ th.update, u.1 = w.key → u.2.1 = w.val))

end System

/-- The threads there are while the leader at `ldr` is fixed. -/
def Thread.Of (ldr : Port) : Thread K V → Prop
  | .broadcast_post b | .loop b _ | .posted b _ _ => b.owner = ldr
  | .request_post owner _ _ | .replied owner _ _ _ => owner ≠ ldr
  | .requested owner _ _ p _ => owner ≠ ldr ∧ p = ldr

namespace System

variable {s : System K V} {e : Event K V} {cfg : Config K V}

/-- Only the leader leads, and what is on its way to the leader agrees with its datastore. -/
structure Leading (cfg : Config K V) (s : System K V) : Prop where
  leader : (s.server cfg.leader).leader = true
  others : ∀ p, p ≠ cfg.leader → (s.server p).leader = false
  leader_port : ∀ p ldr, (s.server p).leader_port = some ldr → ldr = cfg.leader
  threads : ∀ th ∈ s.threads, th.Of cfg.leader
  settled : ∀ th ∈ s.threads, th.Reaches (fun p => (s.server p).peer_ports) cfg.leader →
    ∀ u, th.update = some u → (s.server cfg.leader).datastore u.1 = some u.2.1
  latest : s.LastWriteWins cfg

omit [DecidableEq V] [JsonValue K] [JsonValue V] in
theorem leading_init (cfg : Config K V) : Leading cfg (init cfg) where
  leader := by simp [init]
  others p hp := by simp [init, hp]
  leader_port p ldr h := (Option.some.inj h).symm
  threads := by simp [init]
  settled := by simp [init]
  latest := by simp [LastWriteWins, latest, init]

omit [DecidableEq V] in
/-- What a step puts into the leader's datastore is a write it accepts or a copy on its way to
it. -/
theorem Leading.effect_leader (h : Leading cfg s) (he : s.enabled e) {k : K} {v : V} {i : Nat}
    (heffect : s.effect e = some (cfg.leader, k, v, i)) :
    s.accepted e = some ⟨k, v, cfg.leader⟩ ∨ ∃ th ∈ s.threads,
      th.Reaches (fun p => (s.server p).peer_ports) cfg.leader ∧ th.update = some (k, v, i) := by
  rcases effect_source he heffect with ⟨b, todo, hth, rfl, rfl, rfl⟩ | hth | ⟨hacc, -⟩
  · exact .inr ⟨_, hth, .inl rfl, rfl⟩
  · exact absurd rfl (h.threads _ hth)
  · exact .inl hacc

omit [DecidableEq V] in
/-- Only the leader accepts writes; a follower's fallback is its own. -/
theorem Leading.accepted_port (h : Leading cfg s) (he : s.enabled e) (hf : cfg.Fixed e)
    {w : Write K V} (hacc : s.accepted e = some w)
    (hby : ∀ owner key val, e ≠ .request_refused owner key val) : w.port = cfg.leader := by
  cases e with
  | post_data p data =>
    obtain ⟨r, h'⟩ | ⟨key, val, r, -, h'⟩ | ⟨key, val, r, hleader, h'⟩ :=
      post_data_cases (s.server p) data
    all_goals
      rw [accepted, h'] at hacc
      cases hacc
    by_contra hp
    rw [h.others p hp] at hleader
    cases hleader
  | leader_set p data =>
    obtain rfl : p = cfg.leader := hf
    obtain ⟨r, h'⟩ | ⟨key, val, skip, r, h'⟩ := leader_set_cases (s.server cfg.leader) data
    all_goals
      rw [accepted, h'] at hacc
      cases hacc
    rfl
  | serve owner key val ldr waiting answered =>
    cases hacc
    exact (h.threads _ he.1).2
  | request_refused owner key val => exact absurd rfl (hby owner key val)
  | _ => cases hacc

theorem Leading.of_next (h : Leading cfg s) (he : s.enabled e) (hf : cfg.Fixed e) {th : Thread K V}
    (hth : th ∈ (s.next e).threads) : th.Of cfg.leader := by
  rcases threads_next he hth with hold | ⟨old, hold, hsucc⟩ | hstart
  · exact h.threads th hold
  · have hof := h.threads old hold
    cases hsucc with
    | request owner key val ldr hldr => exact ⟨hof, h.leader_port owner ldr hldr⟩
    | _ => exact hof
  · cases hstart with
    | request_post p key val hlive hleader =>
      rintro rfl
      rw [h.leader] at hleader
      cases hleader
    | broadcast_post w skip_port hacc hby => exact h.accepted_port he hf hacc hby
    | replied w owner hacc hreq => exact (h.threads _ hreq).1

/-- A thread that reaches the leader after a step reached it before, or is the broadcast of a write
the leader has just accepted. -/
theorem Leading.reaches_next (h : Leading cfg s) (he : s.enabled e) (hf : cfg.Fixed e)
    {th : Thread K V} (hth : th ∈ (s.next e).threads)
    (hr : th.Reaches (fun p => ((s.next e).server p).peer_ports) cfg.leader) :
    (∃ old ∈ s.threads, old.Reaches (fun p => (s.server p).peer_ports) cfg.leader ∧
      old.update = th.update) ∨
    ∃ w, s.accepted e = some w ∧ w.port = cfg.leader ∧
      th.update = some (w.key, w.val, s.writes.length) := by
  have hpeers : ((s.next e).server cfg.leader).peer_ports = (s.server cfg.leader).peer_ports := by
    rcases server_next s e cfg.leader with hsame | rfl | ⟨_, rfl⟩
    · exact hsame.peer_ports
    · exact absurd rfl hf
    · cases hf
  rcases threads_next he hth with hold | ⟨old, hold, hsucc⟩ | hstart
  · refine .inl ⟨th, hold, ?_, rfl⟩
    cases th with
    | broadcast_post b =>
      have howner : b.owner = cfg.leader := h.threads _ hold
      simp only [Thread.Reaches, howner, hpeers] at hr ⊢
      exact hr
    | _ => exact hr
  · left
    cases hsucc with
    | loop b => exact ⟨_, hold, hr, rfl⟩
    | rest b p todo => exact ⟨_, hold, ⟨List.mem_cons_of_mem _ hr.1, hr.2⟩, rfl⟩
    | post b p todo hskip =>
      refine ⟨_, hold, ?_, rfl⟩
      obtain rfl | ⟨l, hl, hmem, hskip'⟩ := hr
      · exact ⟨List.mem_cons_self, Ne.symm hskip⟩
      · cases hl
        exact ⟨List.mem_cons_of_mem _ hmem, hskip'⟩
    | answered b p todo => exact ⟨_, hold, .inr ⟨todo, rfl, hr.1, hr.2⟩, rfl⟩
    | orphaned b p todo =>
      refine ⟨_, hold, .inl (hr.resolve_right ?_), rfl⟩
      rintro ⟨l, hl, -⟩
      cases hl
    | request | unheard => cases hr
  · cases hstart with
    | request_post => cases hr
    | broadcast_post w skip_port hacc hby =>
      exact .inr ⟨w, hacc, h.accepted_port he hf hacc hby, rfl⟩
    | replied w owner hacc hreq => exact absurd hr (h.threads _ hreq).1

/-- A copy on its way to the leader leaves the leader's datastore as it is, and an accepted write
puts its value there. -/
theorem Leading.datastore_next (h : Leading cfg s) (he : s.enabled e) (hf : cfg.Fixed e) (k : K) :
    ((s.next e).server cfg.leader).datastore k = (s.server cfg.leader).datastore k ∨
    ∃ w, s.accepted e = some w ∧ w.port = cfg.leader ∧ w.key = k := by
  suffices ((s.next e).cell cfg.leader k).1 = (s.server cfg.leader).datastore k ∨
    ∃ w, s.accepted e = some w ∧ w.port = cfg.leader ∧ w.key = k from this
  rcases cell_next s e cfg.leader k with hsame | ⟨v, i, heffect, hcell⟩ | ⟨rfl, -⟩ |
    ⟨_, _, _, rfl, -, -⟩
  · exact .inl (by rw [hsame]; rfl)
  · rcases h.effect_leader he heffect with hacc | ⟨th, hth, hr, hu⟩
    · exact .inr ⟨_, hacc, rfl, rfl⟩
    · exact .inl (by rw [hcell, h.settled th hth hr _ hu])
  · exact absurd rfl hf
  · cases hf

omit [DecidableEq V] in
theorem effect_of_accepted {w : Write K V} (h : s.accepted e = some w) :
    s.effect e = some (w.port, w.key, w.val, s.writes.length) := by
  cases e with
  | post_data p data =>
    simp only [accepted] at h
    split at h
    · next h' => cases h; simp [effect, h']
    · cases h
  | leader_set p data =>
    simp only [accepted] at h
    split at h
    · next h' => cases h; simp [effect, h']
    · cases h
  | request_refused | serve => cases h; rfl
  | _ => cases h

theorem datastore_of_accepted {w : Write K V} (h : s.accepted e = some w) :
    ((s.next e).server w.port).datastore w.key = some w.val :=
  congrArg Prod.fst (cell_of_effect (effect_of_accepted h))

theorem latest_of_accepted {w : Write K V} (h : s.accepted e = some w) :
    (s.next e).latest w.port w.key = some w := by
  simp [latest, writes_next, h, List.filter_append]

theorem latest_next (s : System K V) (e : Event K V) (p : Port) (k : K) :
    (s.next e).latest p k = s.latest p k ∨
    ∃ w, s.accepted e = some w ∧ w.port = p ∧ w.key = k := by
  unfold latest
  rw [writes_next]
  cases s.accepted e with
  | none => left; simp
  | some w =>
    by_cases hw : w.port = p ∧ w.key = k
    · exact .inr ⟨w, rfl, hw⟩
    · left; simp [List.filter_append, hw]

theorem Leading.step (h : Leading cfg s) (he : s.enabled e) (hf : cfg.Fixed e)
    (hg : s.Settled cfg e) : Leading cfg (s.next e) where
  leader := by
    rcases server_next s e cfg.leader with hsame | rfl | ⟨_, rfl⟩
    · rw [hsame.leader, h.leader]
    · exact absurd rfl hf
    · cases hf
  others p hp := by
    rcases server_next s e p with hsame | rfl | ⟨_, rfl⟩
    · rw [hsame.leader, h.others p hp]
    · simp [next, setServer, Server.start]
    · cases hf
  leader_port p ldr hldr := by
    rcases server_next s e p with hsame | rfl | ⟨_, rfl⟩
    · rw [hsame.leader_port] at hldr
      exact h.leader_port p ldr hldr
    · simp [next, setServer, Server.start] at hldr
    · cases hf
  threads th hth := h.of_next he hf hth
  settled th hth hr u hu := by
    rcases h.reaches_next he hf hth hr with ⟨old, hold, hr', hu'⟩ | ⟨w, hacc, hport, hu'⟩
    · have hval := h.settled old hold hr' u (hu'.trans hu)
      rcases h.datastore_next he hf u.1 with hsame | ⟨w, hacc, hport, hkey⟩
      · rw [hsame, hval]
      · rw [hg w hacc hport old hold hr' u (hu'.trans hu) hkey.symm, ← hkey, ← hport]
        exact datastore_of_accepted hacc
    · rw [hu] at hu'
      cases hu'
      rw [← hport]
      exact datastore_of_accepted hacc
  latest k w hw := by
    have hacc : ∀ w', s.accepted e = some w' → w'.port = cfg.leader → w'.key = k →
        ((s.next e).server cfg.leader).datastore k = some w.val := by
      rintro w' hacc hport rfl
      rw [← hport, latest_of_accepted hacc] at hw
      cases hw
      rw [← hport]
      exact datastore_of_accepted hacc
    rcases latest_next s e cfg.leader k with hsame | ⟨w', hacc', hport, hkey⟩
    · rcases h.datastore_next he hf k with hsame' | ⟨w', hacc', hport, hkey⟩
      · rw [hsame']
        exact h.latest k w (hsame ▸ hw)
      · exact hacc w' hacc' hport hkey
    · exact hacc w' hacc' hport hkey

theorem leading_of_reach
    (h : (store cfg).Reach (fun s e => cfg.Fixed e ∧ s.Settled cfg e) s) : Leading cfg s :=
  h.invariant (leading_init cfg) fun _ _ hl he hg => hl.step he hg.1 hg.2

end System

/-- **Last write wins on the leader**, in every run in which it accepts a write only when the copies
of earlier writes to the key on their way to it carry the same value. -/
theorem last_write_wins {cfg : Config K V} {s : System K V}
    (h : (store cfg).Reach (fun s e => cfg.Fixed e ∧ s.Settled cfg e) s) : s.LastWriteWins cfg :=
  (System.leading_of_reach h).latest

/-- The leader accepts the second write when the copy of the first has come back to it, but not yet
reached the other server. -/
def copyCameBack : List (Event (Option Nat) (Option Nat)) :=
  [.post_data 0 (pair 7 1), .loop (copy 7 1 none 0)] ++ delivering (copy 7 1 none 0) 0 [1] ++
  [.post_data 0 (pair 7 2), .loop (copy 7 2 none 1)] ++ delivering (copy 7 1 none 0) 1 [] ++
  delivering (copy 7 2 none 1) 0 [1]

theorem last_write_wins_copyCameBack :
    ∃ s, (store twoServers).Reach (fun s e => twoServers.Fixed e ∧ s.Settled twoServers e) s ∧
      s.latest 0 (some 7) = some ⟨some 7, some 2, 0⟩ ∧ s.LastWriteWins twoServers := by
  have hrun : ((store twoServers).exec (fun s e => twoServers.Fixed e ∧ s.Settled twoServers e)
      (store twoServers).init copyCameBack).any
      (fun s => s.latest 0 (some 7) = some ⟨some 7, some 2, 0⟩) = true := by
    decide +kernel
  obtain ⟨s, hs, hend⟩ := TransitionSystem.exists_reach_of_exec hrun
  exact ⟨s, hs, of_decide_eq_true hend, last_write_wins hs⟩

/-- The copy of the first write comes back to the leader after it has accepted the second. -/
def copyComesLate : List (Event (Option Nat) (Option Nat)) :=
  [.post_data 0 (pair 7 1), .post_data 0 (pair 7 2), .loop (copy 7 1 none 0)] ++
  delivering (copy 7 1 none 0) 0 [1]

/-- The leader is back at the first value. -/
theorem not_last_write_wins : ¬ ∀ cfg : Config (Option Nat) (Option Nat),
    cfg.leader ∈ cfg.peer_ports cfg.leader →
    ∀ s, (store cfg).Reach (fun _ e => cfg.Fixed e) s → s.LastWriteWins cfg := by
  have hrun : ((store twoServers).exec (fun _ e => twoServers.Fixed e) (store twoServers).init
      copyComesLate).any (fun s => s.latest 0 (some 7) = some ⟨some 7, some 2, 0⟩ ∧
        (s.server 0).datastore (some 7) = some (some 1)) = true := by
    decide +kernel
  obtain ⟨s, hs, hend⟩ := TransitionSystem.exists_reach_of_exec hrun
  obtain ⟨hlatest, hval⟩ := of_decide_eq_true hend
  intro h
  have hwins := h twoServers (by decide) s hs (some 7) _ hlatest
  rw [show twoServers.leader = 0 from rfl, hval] at hwins
  cases hwins

end Cs2510.Store
