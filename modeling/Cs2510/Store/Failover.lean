import Cs2510.Store.Version

/-!
# Failover

The leader crashes, the survivors run `check_election` on the znodes that are left, and the
followers install the datastore of the new leader. The new leader is the survivor with the lowest
znode, whatever it has received: a write that only another survivor had applied is lost
(`not_acknowledged_survives`). What the new leader had applied is kept (`applied_survives`), if no
older update is put over it there, nor in a follower's datastore after its install. The keys are
strings, so that what a follower installs is what the new leader has
(`represents_sync_with_leader`).
-/

namespace Cs2510.Store

variable {K V : Type}

/-- The survivor with the lowest znode once the leader has crashed. -/
def Config.Lowest (cfg : Config K V) (p : Port) : Prop :=
  p ∈ cfg.ports ∧ p ≠ cfg.leader ∧ ∀ q ∈ cfg.ports, q ≠ cfg.leader → cfg.path p ≤ cfg.path q

instance (cfg : Config K V) (p : Port) : Decidable (cfg.Lowest p) :=
  inferInstanceAs (Decidable (_ ∧ _ ∧ ∀ q ∈ cfg.ports, _))

theorem Config.Lowest.unique {cfg : Config K V} {p q : Port} (hp : cfg.Lowest p)
    (hq : cfg.Lowest q) : p = q :=
  cfg.path_inj p hp.1 q hq.1
    (Nat.le_antisymm (hp.2.2 q hq.1 hq.2.1) (hq.2.2 p hp.1 hp.2.1))

namespace System

/-- The znodes of the live servers, and the ports stored in them. -/
def members (s : System K V) (cfg : Config K V) : List (Path × Port) :=
  (cfg.ports.filter s.live).map fun p => (cfg.path p, p)

/-- Only the leader crashes, and then the survivors run `check_election` on their znodes. -/
def Failover (s : System K V) (cfg : Config K V) : Event K V → Prop
  | .crash p => p = cfg.leader
  | .start _ => False
  | .check_election _ children => s.live cfg.leader = false ∧ children.Perm (s.members cfg)
  | _ => True

instance (s : System K V) (cfg : Config K V) (e : Event K V) : Decidable (s.Failover cfg e) :=
  match e with
  | .crash _ => inferInstanceAs (Decidable (_ = _))
  | .check_election .. => inferInstanceAs (Decidable (_ ∧ _))
  | .start _ => .isFalse id
  | .post_data .. | .leader_set .. | .loop _ | .skip .. | .refused .. | .post ..
  | .follower_set .. | .lost .. | .finish _ | .request_raised .. | .request_refused ..
  | .request .. | .serve .. | .request_lost .. | .reply .. | .leader_sync _ | .sync_done _
  | .sync_lost _ => .isTrue trivial

/-- The leader has crashed, and every survivor but the new leader has installed a snapshot since. -/
def Recovered (s : System K V) (cfg : Config K V) : Prop :=
  s.live cfg.leader = false ∧ ∀ p ∈ cfg.ports, s.live p → cfg.Lowest p ∨ (s.synced p).isSome

instance (s : System K V) (cfg : Config K V) : Decidable (s.Recovered cfg) :=
  inferInstanceAs (Decidable (_ ∧ ∀ p ∈ cfg.ports, _))

/-- The server at `p` holds, for the key of the write `i`, its value or that of a later one. -/
def Holds (s : System K V) (p : Port) (i : Nat) (k : K) : Prop :=
  ∃ j w, i ≤ j ∧ s.writes[j]? = some w ∧ w.key = k ∧ (s.server p).datastore k = some w.val

/-- The cell of a datastore has been given the write `i` to `k` or a later one, and holds its value
or that of a later one. -/
def Reflects (s : System K V) (k : K) (i : Nat) (cell : Option V × Option Nat) : Prop :=
  (∃ j ∈ cell.2, i ≤ j) ∧ ∃ j v, i ≤ j ∧ s.Wrote j k v ∧ cell.1 = some v

variable {s : System K V} {e : Event K V} {cfg : Config K V} {k : K} {i : Nat}

theorem Reflects.holds {p : Port} (h : s.Reflects k i (s.cell p k)) : s.Holds p i k := by
  obtain ⟨-, j, -, hij, ⟨w, hw, hkey, rfl⟩, hv⟩ := h
  exact ⟨j, w, hij, hw, hkey, hv⟩

/-! ## The election -/

/-- Who leads and who syncs, and which datastores and snapshots reflect the write `i` to `k`. -/
structure FailingOver (cfg : Config K V) (k : K) (i : Nat) (s : System K V) : Prop where
  zk_path : ∀ p, (s.server p).zk_path = some (cfg.path p)
  live : ∀ p, s.live p = true → p ∈ cfg.ports
  survivors : ∀ p ∈ cfg.ports, p ≠ cfg.leader → s.live p = true
  leader : ∀ p, (s.server p).leader = true →
    p = cfg.leader ∨ s.live cfg.leader = false ∧ cfg.Lowest p
  sync : ∀ p, s.sync p = .idle ∨ s.live cfg.leader = false ∧ ¬cfg.Lowest p
  asked : ∀ p ldr, s.sync p = .asked ldr → cfg.Lowest ldr
  stamped : ∀ p, (p, i) ∈ s.applied → i < s.writes.length
  kept : ∀ u ∈ s.applied_before, u ∈ s.applied
  applied : ∀ p, cfg.Lowest p → (p, i) ∈ s.applied → ∀ v, s.Wrote i k v →
    s.Reflects k i (s.cell p k)
  answered : ∀ p ldr datastore version, s.sync p = .answered ldr datastore version →
    cfg.Lowest ldr ∧ ((ldr, i) ∈ s.applied_before → ∀ v, s.Wrote i k v →
      s.Reflects k i (datastore k, version k))
  synced : ∀ p ldr, s.synced p = some ldr → s.live cfg.leader = false ∧ cfg.Lowest ldr ∧
    ((ldr, i) ∈ s.applied_before → ∀ v, s.Wrote i k v → s.Reflects k i (s.cell p k))

theorem failingOver_init (cfg : Config K V) (k : K) (i : Nat) :
    FailingOver cfg k i (init cfg) where
  zk_path _ := rfl
  live p := of_decide_eq_true
  survivors p hp _ := decide_eq_true hp
  leader p hp := .inl (of_decide_eq_true hp)
  sync _ := .inl rfl
  asked := by simp [init]
  stamped := by simp [init]
  kept := by simp [init]
  applied := by simp [init]
  answered := by simp [init]
  synced := by simp [init]

/-- The survivors agree on the lowest znode. -/
theorem FailingOver.lowest_of_scan (h : FailingOver cfg k i s) (hdown : s.live cfg.leader = false)
    {children : List (Path × Port)} (hperm : children.Perm (s.members cfg)) {c : Path} {p : Port}
    (hmin : (Server.scan children).2 = some (c, p)) : c = cfg.path p ∧ cfg.Lowest p := by
  obtain ⟨hmem, hle⟩ := Server.scan_min hmin
  obtain ⟨p', hp', heq⟩ := List.mem_map.mp (hperm.mem_iff.mp hmem)
  cases heq
  obtain ⟨hports, hlive⟩ := List.mem_filter.mp hp'
  refine ⟨rfl, hports, ?_, fun q hq hne => ?_⟩
  · rintro rfl
    rw [hdown] at hlive
    cases hlive
  · have hqlive := h.survivors q hq hne
    exact hle (cfg.path q, q) (hperm.mem_iff.mpr
      (List.mem_map.mpr ⟨q, List.mem_filter.mpr ⟨hq, hqlive⟩, rfl⟩))

theorem FailingOver.elects (h : FailingOver cfg k i s) (hdown : s.live cfg.leader = false)
    {p : Port} (hp : s.live p = true) {children : List (Path × Port)}
    (hperm : children.Perm (s.members cfg))
    (hmin : (Server.scan children).2.map Prod.fst = (s.server p).zk_path) : cfg.Lowest p := by
  rw [h.zk_path p] at hmin
  obtain ⟨⟨c, q⟩, hcq, hpath⟩ := Option.map_eq_some_iff.mp hmin
  obtain ⟨rfl, hlow⟩ := h.lowest_of_scan hdown hperm hcq
  rwa [← cfg.path_inj q hlow.1 p (h.live p hp) hpath]

/-- A follower asks the new leader, and the new leader asks nobody. -/
theorem FailingOver.asks (h : FailingOver cfg k i s) (hdown : s.live cfg.leader = false) {p : Port}
    {children : List (Path × Port)} (hperm : children.Perm (s.members cfg)) {ldr : Port}
    (hldr : ((s.server p).check_election children).2 = some ldr) :
    cfg.Lowest ldr ∧ ¬cfg.Lowest p := by
  obtain ⟨c, hmin, hne⟩ := Server.check_election_sync hldr
  obtain ⟨rfl, hlow⟩ := h.lowest_of_scan hdown hperm hmin
  refine ⟨hlow, fun hp => hne ?_⟩
  rw [h.zk_path p, hp.unique hlow]

theorem FailingOver.down_of_sync (h : FailingOver cfg k i s) {p : Port} (hp : s.sync p ≠ .idle) :
    s.live cfg.leader = false :=
  ((h.sync p).resolve_left hp).1

variable [DecidableEq K] [DecidableEq V] [JsonValue K] [JsonValue V]

/-- A step puts no update of `k` that is older than the write `i` over it or over a newer one,
unless it carries the same value, in the datastore of the new leader, nor in that of another server
once it has installed a snapshot. -/
def Spares (s : System K V) (cfg : Config K V) (k : K) (i : Nat) (e : Event K V) : Prop :=
  ∀ u ∈ s.effect e, u.2.1 = k → cfg.Lowest u.1 ∨ (s.synced u.1).isSome →
    (∀ j ∈ s.version u.1 k, i ≤ j → i ≤ u.2.2.2) ∨ (s.server u.1).datastore k = some u.2.2.1

instance (s : System K V) (cfg : Config K V) (k : K) (i : Nat) (e : Event K V) :
    Decidable (s.Spares cfg k i e) :=
  inferInstanceAs (Decidable (∀ u ∈ s.effect e, _ → _ → _ ∨ _))

/-! ## Cells that reflect a write -/

theorem Reflects.next {cell : Option V × Option Nat} (h : s.Reflects k i cell) (e : Event K V) :
    (s.next e).Reflects k i cell := by
  obtain ⟨hversion, j, v, hij, hw, hv⟩ := h
  exact ⟨hversion, j, v, hij, hw.next e, hv⟩

theorem reflects_of_effect (hs : s.Stamped) (he : s.enabled e) {p : Port} {v : V}
    (heffect : s.effect e = some (p, k, v, i)) : (s.next e).Reflects k i ((s.next e).cell p k) := by
  rw [cell_of_effect heffect]
  exact ⟨⟨_, rfl, Nat.le_max_left _ _⟩, i, v, Nat.le_refl i, hs.wrote_of_effect he heffect, rfl⟩

/-- A datastore in the care of `Spares` goes on reflecting the write. -/
theorem Reflects.cell_next (hs : s.Stamped) (he : s.enabled e) (hspare : s.Spares cfg k i e)
    {p : Port} (hp : cfg.Lowest p ∨ (s.synced p).isSome) (h : s.Reflects k i (s.cell p k))
    (hstart : e ≠ .start p) (hsync : e ≠ .sync_done p) :
    (s.next e).Reflects k i ((s.next e).cell p k) := by
  rcases System.cell_next s e p k with hsame | ⟨val, stamp, heffect, hcell⟩ | ⟨heq, -⟩ |
    ⟨_, _, _, heq, -, -⟩
  · rw [hsame]
    exact h.next e
  · obtain ⟨⟨j, hver, hij⟩, j', v, hij', hw, hv⟩ := h
    have hj : s.version p k = some j := hver
    have hnewer : i ≤ max stamp j := Nat.le_trans hij (Nat.le_max_right _ _)
    rw [hcell, hj, Option.getD_some]
    refine ⟨⟨_, rfl, hnewer⟩, ?_⟩
    rcases hspare _ heffect rfl hp with hstamp | hsame
    · exact ⟨stamp, val, hstamp j hj hij, hs.wrote_of_effect he heffect, rfl⟩
    · -- the update carries the value that is there
      have hval : some v = some val := hv.symm.trans hsame
      exact ⟨j', v, hij', hw.next e, hval.symm⟩
  · exact absurd heq hstart
  · exact absurd heq hsync

/-! ## Steps -/

theorem down_next (hg : s.Failover cfg e) (hdown : s.live cfg.leader = false) :
    (s.next e).live cfg.leader = false := by
  rcases live_next s e cfg.leader with hsame | rfl | rfl
  · rw [hsame, hdown]
  · simp [next]
  · cases hg

/-- There is one crash. -/
theorem applied_before_of_down (he : s.enabled e) (hg : s.Failover cfg e)
    (hdown : s.live cfg.leader = false) :
    (s.next e).applied_before = s.applied_before := by
  refine (applied_before_next s e).resolve_right ?_
  rintro ⟨p, rfl, -⟩
  obtain rfl : p = cfg.leader := hg
  rw [show s.live cfg.leader = true from he] at hdown
  cases hdown

omit [DecidableEq V] in
theorem effect_of_applied {p : Port}
    (h : (p, i) ∈ ((s.effect e).map fun u => (u.1, u.2.2.2)).toList) :
    ∃ k v, s.effect e = some (p, k, v, i) := by
  rw [Option.mem_toList] at h
  obtain ⟨⟨p', k, v, i'⟩, heffect, heq⟩ := Option.map_eq_some_iff.mp h
  cases heq
  exact ⟨k, v, heffect⟩

/-- A write that a server had applied before the crash was in the history. -/
theorem FailingOver.wrote_of_next (h : FailingOver cfg k i s) {p : Port}
    (hp : (p, i) ∈ s.applied_before) {v : V} (hw : (s.next e).Wrote i k v) : s.Wrote i k v :=
  hw.of_next (h.stamped p (h.kept _ hp))

theorem FailingOver.step (h : FailingOver cfg k i s) (hs : s.Stamped) (he : s.enabled e)
    (hg : s.Failover cfg e) (hspare : s.Spares cfg k i e) : FailingOver cfg k i (s.next e) where
  zk_path p := by
    rcases server_next s e p with hsame | rfl | ⟨children, rfl⟩
    · rw [hsame.zk_path, h.zk_path]
    · cases hg
    · rw [server_check_election, Server.check_election_zk_path, h.zk_path]
  live p hp := by
    rcases live_next s e p with hsame | rfl | rfl
    · exact h.live p (hsame ▸ hp)
    · simp [next] at hp
    · cases hg
  survivors p hp hne := by
    rcases live_next s e p with hsame | rfl | rfl
    · rw [hsame, h.survivors p hp hne]
    · exact absurd hg hne
    · cases hg
  leader p hp := by
    rcases server_next s e p with hsame | rfl | ⟨children, rfl⟩
    · rcases h.leader p (hsame.leader ▸ hp) with rfl | ⟨hdown, hlow⟩
      · exact .inl rfl
      · exact .inr ⟨down_next hg hdown, hlow⟩
    · cases hg
    · have hdown' := down_next hg hg.1
      rw [server_check_election] at hp
      rcases Server.check_election_leader hp with hp' | hmin
      · rcases h.leader p hp' with rfl | ⟨-, hlow⟩
        · exact .inl rfl
        · exact .inr ⟨hdown', hlow⟩
      · exact .inr ⟨hdown', h.elects hg.1 he.1 hg.2 hmin⟩
  sync p := by
    rcases sync_cases s e p with hsame | hidle | ⟨children, ldr, rfl, hldr, -⟩ |
      ⟨ldr, rfl, hasked, -, -⟩
    · rw [hsame]
      exact (h.sync p).imp_right (And.imp_left (down_next hg))
    · exact .inl hidle
    · exact .inr ⟨down_next hg hg.1, (h.asks hg.1 hg.2 hldr).2⟩
    · obtain ⟨hdown, hlow⟩ := (h.sync p).resolve_left (by rw [hasked]; rintro ⟨⟩)
      exact .inr ⟨down_next hg hdown, hlow⟩
  asked p ldr hasked := by
    rcases asked_next hasked with hold | ⟨children, rfl, hldr⟩
    · exact h.asked p ldr hold
    · exact (h.asks hg.1 hg.2 hldr).1
  stamped p hi := by
    rw [applied_next, List.mem_append] at hi
    rcases hi with hold | hnew
    · exact Nat.lt_of_lt_of_le (h.stamped p hold) (by simp [writes_next])
    · obtain ⟨k', v, heffect⟩ := effect_of_applied hnew
      exact (hs.wrote_of_effect he heffect).lt_length
  kept u hu := by
    rw [applied_next]
    rcases applied_before_next s e with hsame | ⟨p, -, hcrash⟩
    · exact List.mem_append_left _ (h.kept u (hsame ▸ hu))
    · exact List.mem_append_left _ (hcrash ▸ hu)
  applied p hlow hi v hw := by
    rw [applied_next, List.mem_append] at hi
    rcases hi with hold | hnew
    · refine (h.applied p hlow hold v (hw.of_next (h.stamped p hold))).cell_next hs he hspare
        (.inl hlow) ?_ ?_
      · rintro rfl
        cases hg
      · rintro rfl
        rcases h.sync p with hidle | ⟨-, hnot⟩
        · simp [enabled, hidle] at he
        · exact hnot hlow
    · obtain ⟨k', v', heffect⟩ := effect_of_applied hnew
      obtain ⟨rfl, -⟩ := (hs.wrote_of_effect he heffect).unique hw
      exact reflects_of_effect hs he heffect
  answered p ldr datastore version hsync := by
    rcases sync_next hsync with hold | ⟨rfl, hasked, -, rfl, rfl⟩
    · have hdown := h.down_of_sync (p := p) (by rw [hold]; rintro ⟨⟩)
      obtain ⟨hlow, hreflects⟩ := h.answered p ldr datastore version hold
      refine ⟨hlow, fun hi v hw => ?_⟩
      rw [applied_before_of_down he hg hdown] at hi
      exact (hreflects hi v (h.wrote_of_next hi hw)).next e
    · have hdown := h.down_of_sync (p := p) (by rw [hasked]; rintro ⟨⟩)
      have hlow := h.asked p ldr hasked
      refine ⟨hlow, fun hi v hw => ?_⟩
      rw [applied_before_of_down he hg hdown] at hi
      exact (h.applied ldr hlow (h.kept _ hi) v (h.wrote_of_next hi hw)).next _
  synced p ldr hldr := by
    -- a snapshot that has just been installed
    have hinstalled : ∀ datastore version, e = .sync_done p →
        s.sync p = .answered ldr datastore version → (s.next e).live cfg.leader = false ∧
        cfg.Lowest ldr ∧ ((ldr, i) ∈ (s.next e).applied_before → ∀ v, (s.next e).Wrote i k v →
          (s.next e).Reflects k i ((s.next e).cell p k)) := by
      rintro datastore version rfl hsync
      have hdown := h.down_of_sync (p := p) (by rw [hsync]; rintro ⟨⟩)
      obtain ⟨hlow, hreflects⟩ := h.answered p ldr datastore version hsync
      refine ⟨down_next hg hdown, hlow, fun hi v hw => ?_⟩
      rw [applied_before_of_down he hg hdown] at hi
      rw [(sync_done_of_answered hsync).1]
      exact (hreflects hi v (h.wrote_of_next hi hw)).next _
    rcases synced_next hldr with hold | ⟨datastore, version, hdone, hsync⟩
    · by_cases hdone : e = .sync_done p
      · cases hsync : s.sync p with
        | answered ldr' datastore version =>
          rw [hdone, (sync_done_of_answered hsync).2] at hldr
          cases hldr
          exact hinstalled datastore version hdone hsync
        | idle | asked =>
          rw [hdone] at he
          simp [enabled, hsync] at he
      · obtain ⟨hdown, hlow, hreflects⟩ := h.synced p ldr hold
        refine ⟨down_next hg hdown, hlow, fun hi v hw => ?_⟩
        rw [applied_before_of_down he hg hdown] at hi
        exact (hreflects hi v (h.wrote_of_next hi hw)).cell_next hs he hspare
          (.inr (Option.isSome_of_mem hold)) (by rintro rfl; cases hg) hdone
    · exact hinstalled datastore version hdone hsync

theorem failingOver_of_reach
    (h : (store cfg).Reach (fun s e => s.Failover cfg e ∧ s.Spares cfg k i e) s) :
    FailingOver cfg k i s :=
  h.invariant_of (fun _ => stamped_of_reach) (failingOver_init cfg k i)
    fun _ _ hs hf he hg => hf.step hs he hg.1 hg.2

end System

/-- **What the new leader had applied survives the failover**, in every run in which no older update
is put over it in the new leader's datastore, or in a follower's after its install. -/
theorem applied_survives [DecidableEq V] [JsonValue V] {cfg : Config String V}
    {s : System String V} {i : Nat} {w : Write String V}
    (h : (store cfg).Reach (fun s e => s.Failover cfg e ∧ s.Spares cfg w.key i e) s)
    (hrec : s.Recovered cfg) {ldr : Port} (hldr : cfg.Lowest ldr)
    (hi : (ldr, i) ∈ s.applied_before) (hw : s.writes[i]? = some w) {p : Port} (hp : s.live p) :
    s.Holds p i w.key := by
  have hf := System.failingOver_of_reach h
  rcases hrec.2 p (hf.live p hp) hp with hlow | hsome
  · obtain rfl := hlow.unique hldr
    exact (hf.applied p hlow (hf.kept _ hi) w.val ⟨w, hw, rfl, rfl⟩).holds
  · obtain ⟨ldr', hsynced⟩ := Option.isSome_iff_exists.mp hsome
    obtain ⟨-, hlow, hreflects⟩ := hf.synced p ldr' hsynced
    obtain rfl := hlow.unique hldr
    exact (hreflects hi w.val ⟨w, hw, rfl, rfl⟩).holds

/-! ## Runs -/

/-- Servers 0, 1 and 2 with nothing stored; server 0 is the leader, and server 1 the next. -/
def threeServers (peer_ports : List Port) : Config String (Option Nat) where
  ports := [0, 1, 2]
  leader := 0
  path := id
  peer_ports _ := peer_ports
  num_children := 3
  datastore _ := none
  leader_mem := List.mem_cons_self
  path_inj _ _ _ _ h := h

/-- Servers 1 and 2 elect server 1, and server 2 installs its datastore. -/
def electing : List (Event String (Option Nat)) :=
  [.check_election 1 [(1, 1), (2, 2)], .check_election 2 [(2, 2), (1, 1)], .leader_sync 2,
    .sync_done 2]

/-- The leader crashes when its write has reached the server after it only. -/
def reachedOne (p q : Port) : List (Event String (Option Nat)) :=
  [.post_data 0 (textPair "x" 1), .loop (textCopy "x" 1 none 0)] ++
  delivering (textCopy "x" 1 none 0) 0 [p, q] ++ delivering (textCopy "x" 1 none 0) p [q] ++
  [.crash 0] ++ electing

theorem applied_survives_reachedOne :
    ∃ s, (store (threeServers [0, 1, 2])).Reach (fun s e =>
        s.Failover (threeServers [0, 1, 2]) e ∧ s.Spares (threeServers [0, 1, 2]) "x" 0 e) s ∧
      s.live 2 ∧ s.Holds 2 0 "x" := by
  have hrun : ((store (threeServers [0, 1, 2])).exec (fun s e =>
        s.Failover (threeServers [0, 1, 2]) e ∧ s.Spares (threeServers [0, 1, 2]) "x" 0 e)
      (store (threeServers [0, 1, 2])).init (reachedOne 1 2)).any (fun s =>
        s.Recovered (threeServers [0, 1, 2]) ∧ (1, 0) ∈ s.applied_before ∧
        s.writes[0]? = some ⟨"x", some 1, 0⟩ ∧ s.live 2) = true := by
    decide +kernel
  obtain ⟨s, hs, hend⟩ := TransitionSystem.exists_reach_of_exec hrun
  obtain ⟨hrec, hi, hw, hlive⟩ := of_decide_eq_true hend
  exact ⟨s, hs, hlive, applied_survives hs hrec (by decide) hi hw hlive⟩

/-- A write that only server 2 had applied is gone when it follows server 1. -/
theorem not_acknowledged_survives : ¬ ∀ cfg : Config String (Option Nat),
    (∀ p ∈ cfg.ports, ∀ q ∈ cfg.ports, q ∈ cfg.peer_ports p) →
    cfg.num_children = cfg.ports.length →
    ∀ s, (store cfg).Reach (fun s e => s.Failover cfg e) s → s.Recovered cfg →
    ∀ q i w, s.live q → (q, i) ∈ s.applied_before → s.writes[i]? = some w →
    ∀ p, s.live p → s.Holds p i w.key := by
  have hrun : ((store (threeServers [0, 2, 1])).exec
      (fun s e => s.Failover (threeServers [0, 2, 1]) e)
      (store (threeServers [0, 2, 1])).init (reachedOne 2 1)).any (fun s =>
        s.Recovered (threeServers [0, 2, 1]) ∧ (2, 0) ∈ s.applied_before ∧
        s.writes[0]? = some ⟨"x", some 1, 0⟩ ∧ s.live 2 ∧
        (s.server 2).datastore "x" = none) = true := by
    decide +kernel
  obtain ⟨s, hs, hend⟩ := TransitionSystem.exists_reach_of_exec hrun
  obtain ⟨hrec, hi, hw, hlive, hnone⟩ := of_decide_eq_true hend
  intro h
  obtain ⟨_, _, -, -, -, hval⟩ :=
    h (threeServers [0, 2, 1]) (by decide) rfl s hs hrec 2 0 _ hlive hi hw 2 hlive
  rw [hnone] at hval
  cases hval

/-- The copies of two writes to one key overtake each other on the way to server 1, and then the
leader crashes. -/
def overtakenBefore : List (Event String (Option Nat)) :=
  [.post_data 0 (textPair "x" 1), .post_data 0 (textPair "x" 2), .loop (textCopy "x" 1 none 0),
    .loop (textCopy "x" 2 none 1)] ++
  delivering (textCopy "x" 2 none 1) 0 [1, 2] ++ delivering (textCopy "x" 2 none 1) 1 [2] ++
  delivering (textCopy "x" 1 none 0) 0 [1, 2] ++ delivering (textCopy "x" 1 none 0) 1 [2] ++
  [.crash 0] ++ electing

/-- Out of order, even the new leader can be left with the older of two writes it had applied. -/
theorem not_applied_survives_outOfOrder : ¬ ∀ cfg : Config String (Option Nat),
    ∀ s, (store cfg).Reach (fun s e => s.Failover cfg e) s → s.Recovered cfg →
    ∀ ldr i w, cfg.Lowest ldr → (ldr, i) ∈ s.applied_before → s.writes[i]? = some w →
    ∀ p, s.live p → s.Holds p i w.key := by
  have hrun : ((store (threeServers [0, 1, 2])).exec
      (fun s e => s.Failover (threeServers [0, 1, 2]) e)
      (store (threeServers [0, 1, 2])).init overtakenBefore).any (fun s =>
        s.Recovered (threeServers [0, 1, 2]) ∧ (1, 1) ∈ s.applied_before ∧
        s.writes = [⟨"x", some 1, 0⟩, ⟨"x", some 2, 0⟩] ∧ s.live 1 ∧
        (s.server 1).datastore "x" = some (some 1)) = true := by
    decide +kernel
  obtain ⟨s, hs, hend⟩ := TransitionSystem.exists_reach_of_exec hrun
  obtain ⟨hrec, hi, hwrites, hlive, hval⟩ := of_decide_eq_true hend
  intro h
  obtain ⟨j, w, hj, hw, -, hval'⟩ :=
    h (threeServers [0, 1, 2]) s hs hrec 1 1 ⟨"x", some 2, 0⟩ (by decide) hi (by simp [hwrites]) 1
      hlive
  rw [hval] at hval'
  rw [hwrites] at hw
  obtain rfl : j = 1 := by
    have := (List.getElem?_eq_some_iff.mp hw).1
    simp only [List.length_cons, List.length_nil] at this
    omega
  cases hw
  cases hval'

end Cs2510.Store
