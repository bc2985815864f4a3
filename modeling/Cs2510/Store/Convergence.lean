import Cs2510.Store.Version

/-!
# Convergence

A write accepted by the leader reaches every server: by the `broadcast_post` thread it starts, or,
on the server that asked for it, by the answer to its `request_post`. Nothing orders these
deliveries, so two writes to one key can reach two servers in different orders and leave them with
different values (`not_convergence`). When no datastore is given an update over a newer one, the
servers agree as soon as nothing is under way (`convergence`).
-/

namespace Cs2510.Store

variable {K V : Type} [DecidableEq K] [DecidableEq V] [JsonValue K] [JsonValue V]

/-- `POST /data` requests and the steps of the threads they start, with no failure: only a port
without a server refuses a connection, and every request is answered. -/
def System.Undisturbed (s : System K V) : Event K V → Prop
  | .refused _ p _ => s.live p = false
  | .follower_set _ _ _ answered | .serve _ _ _ _ _ answered => answered = true
  | .leader_set .. | .lost .. | .request_raised .. | .request_refused .. | .request_lost ..
  | .crash _ | .start _ | .check_election .. | .leader_sync _ | .sync_done _ | .sync_lost _ => False
  | .post_data .. | .loop _ | .skip .. | .post .. | .finish _ | .request .. | .reply .. => True

instance (s : System K V) (e : Event K V) : Decidable (s.Undisturbed e) :=
  match e with
  | .refused .. | .follower_set .. | .serve .. => inferInstanceAs (Decidable (_ = _))
  | .leader_set .. | .lost .. | .request_raised .. | .request_refused .. | .request_lost ..
  | .crash _ | .start _ | .check_election .. | .leader_sync _ | .sync_done _ | .sync_lost _ =>
    .isFalse id
  | .post_data .. | .loop _ | .skip .. | .post .. | .finish _ | .request .. | .reply .. =>
    .isTrue trivial

/-- The thread is going to give the write `i` to the server at `p`. -/
def Thread.Brings (peer_ports : Port → List Port) (p : Port) (i : Nat) (th : Thread K V) : Prop :=
  th.Reaches peer_ports p ∧ ∃ k v, th.update = some (k, v, i)

/-- Where a thread of an undisturbed run can be. -/
def Thread.Within (ports : List Port) : Thread K V → Prop
  | .broadcast_post _ | .loop .. => True
  | .posted _ _ todo => todo.isSome
  | .request_post owner _ _ | .replied owner _ _ _ => owner ∈ ports
  | .requested owner _ _ ldr waiting => owner ∈ ports ∧ ldr ∈ ports ∧ waiting = true

namespace System

variable {s : System K V} {e : Event K V} {cfg : Config K V}

/-- The servers are those of the configuration, and every write has reached or is going to reach
each of them. -/
structure Converging (cfg : Config K V) (s : System K V) : Prop where
  live : ∀ p, s.live p ↔ p ∈ cfg.ports
  globals : ∀ p, SameGlobals ((init cfg).server p) (s.server p)
  within : ∀ th ∈ s.threads, th.Within cfg.ports
  original : ∀ p k, s.version p k = none → (s.server p).datastore k = cfg.datastore k
  reaches : ∀ p ∈ cfg.ports, ∀ i k v, s.Wrote i k v →
    (∃ j, s.version p k = some j ∧ i ≤ j) ∨ ∃ th ∈ s.threads, th.Brings cfg.peer_ports p i

omit [DecidableEq K] [DecidableEq V] [JsonValue K] [JsonValue V] in
theorem converging_init (cfg : Config K V) : Converging cfg (init cfg) where
  live := by simp [init]
  globals p := .refl _
  within := by simp [init]
  original := by simp [init]
  reaches := by simp [init, Wrote]

/-- A thread goes on bringing a write until the server has been given it. -/
theorem Converging.brings_next (h : Converging cfg s) (he : s.enabled e) (hg : s.Undisturbed e)
    {p : Port} (hp : p ∈ cfg.ports) {i : Nat} {th : Thread K V} (hth : th ∈ s.threads)
    (hb : th.Brings cfg.peer_ports p i) :
    (∃ th' ∈ (s.next e).threads, th'.Brings cfg.peer_ports p i) ∨
      ∃ k v, s.effect e = some (p, k, v, i) := by
  have hmove : ∀ {s' : System K V} {old new : Thread K V}, s'.threads = s.threads →
      new.update = old.update →
      (old.Reaches cfg.peer_ports p → new.Reaches cfg.peer_ports p) →
      ∃ th' ∈ (s'.move old new).threads, th'.Brings cfg.peer_ports p i := by
    intro s' old new hs hupdate hnew
    rw [move_threads, hs]
    by_cases heq : th = old
    · subst heq
      exact ⟨new, List.mem_append_right _ List.mem_cons_self, hnew hb.1, hupdate ▸ hb.2⟩
    · exact ⟨th, List.mem_append_left _ ((List.mem_erase_of_ne heq).mpr hth), hb⟩
  have hstop : ∀ {s' : System K V} {old : Thread K V}, s'.threads = s.threads → th ≠ old →
      ∃ th' ∈ (s'.stop old).threads, th'.Brings cfg.peer_ports p i := by
    intro s' old hs hne
    rw [stop_threads, hs]
    exact ⟨th, (List.mem_erase_of_ne hne).mpr hth, hb⟩
  cases e with
  | post_data q data =>
    left
    rw [next_post_data]
    obtain ⟨r, h⟩ | ⟨key, val, r, -, h⟩ | ⟨key, val, r, -, h⟩ := post_data_cases (s.server q) data
    all_goals rw [h]
    · exact ⟨th, hth, hb⟩
    · exact ⟨th, List.mem_append_left _ hth, hb⟩
    · exact ⟨th, List.mem_append_left _ hth, hb⟩
  | loop b =>
    refine .inl (hmove rfl rfl fun ⟨hmem, hskip⟩ => ⟨?_, hskip⟩)
    rw [(h.globals b.owner).peer_ports]
    exact hmem
  | skip b q todo =>
    refine .inl (hmove rfl rfl fun ⟨hmem, hskip⟩ => ⟨?_, hskip⟩)
    refine (List.mem_cons.mp hmem).resolve_left ?_
    rintro rfl
    exact hskip he.2.2.symm
  | refused b q todo =>
    refine .inl (hmove rfl rfl fun ⟨hmem, hskip⟩ => ⟨?_, hskip⟩)
    refine (List.mem_cons.mp hmem).resolve_left ?_
    rintro rfl
    have hlive := (h.live p).mpr hp
    rw [show s.live p = false from hg] at hlive
    cases hlive
  | post b q todo =>
    refine .inl (hmove rfl rfl fun ⟨hmem, hskip⟩ => ?_)
    exact (List.mem_cons.mp hmem).imp_right fun hmem => ⟨todo, rfl, hmem, hskip⟩
  | follower_set b q todo answered =>
    obtain rfl : answered = true := hg
    by_cases hq : p = q
    · by_cases hth' : th = .posted b q todo
      · -- the server has been given the write
        obtain ⟨-, k, v, hu⟩ := hb
        rw [hth'] at hu
        cases hu
        exact .inr ⟨b.key, b.val, by rw [hq]; rfl⟩
      · left
        obtain ⟨todo, rfl⟩ := Option.isSome_iff_exists.mp (h.within _ he.1)
        exact ⟨th, List.mem_append_left _ ((List.mem_erase_of_ne hth').mpr hth), hb⟩
    · left
      obtain ⟨todo, rfl⟩ := Option.isSome_iff_exists.mp (h.within _ he.1)
      refine hmove rfl rfl fun hmem => ?_
      obtain ⟨l, hl, hmem, hskip⟩ := hmem.resolve_left hq
      cases hl
      exact ⟨hmem, hskip⟩
  | finish b => exact .inl (hstop rfl (by rintro rfl; exact List.not_mem_nil hb.1.1))
  | request owner key val ldr => exact .inl (hmove rfl rfl id)
  | serve owner key val ldr waiting answered =>
    left
    have hmem : ∀ new, th ∈ (s.threads ++ [new]).erase (.requested owner key val ldr waiting) :=
      fun new => (List.mem_erase_of_ne (by rintro rfl; exact hb.1)).mpr
        (List.mem_append_left _ hth)
    simp only [next, Server.leader_set, handled]
    split
    · exact ⟨th, List.mem_append_left _ (hmem _), hb⟩
    · exact ⟨th, hmem _, hb⟩
  | reply owner key val stamp =>
    by_cases hth' : th = .replied owner key val stamp
    · obtain ⟨hreach, k, v, hu⟩ := hb
      rw [hth'] at hreach hu
      cases hu
      exact .inr ⟨key, val, by rw [← show owner = p from hreach]; rfl⟩
    · exact .inl (hstop rfl hth')
  | _ => cases hg

/-- A write that is accepted reaches the server that accepts it at once, and each other by the
threads it leaves. -/
theorem Converging.brings_accepted (h : Converging cfg s) (he : s.enabled e) (hg : s.Undisturbed e)
    (hlisted : ∀ p ∈ cfg.ports, ∀ q ∈ cfg.ports, q ∈ cfg.peer_ports p) {w : Write K V}
    (hacc : s.accepted e = some w) {p : Port} (hp : p ∈ cfg.ports) :
    (∃ th ∈ (s.next e).threads, th.Brings cfg.peer_ports p s.writes.length) ∨
      s.effect e = some (p, w.key, w.val, s.writes.length) := by
  cases e with
  | post_data q data =>
    left
    have hq : q ∈ cfg.ports := (h.live q).mp he
    rw [next_post_data]
    obtain ⟨r, h⟩ | ⟨key, val, r, -, h⟩ | ⟨key, val, r, -, h⟩ := post_data_cases (s.server q) data
    all_goals rw [accepted, h] at hacc
    · cases hacc
    · cases hacc
    · rw [h]
      exact ⟨_, List.mem_append_right _ List.mem_cons_self,
        ⟨hlisted q hq p hp, by rintro ⟨⟩⟩, _, _, rfl⟩
  | serve owner key val ldr waiting answered =>
    obtain ⟨-, hldr, rfl⟩ := h.within _ he.1
    obtain rfl : answered = true := hg
    left
    by_cases howner : owner = p
    · exact ⟨_, List.mem_append_right _ List.mem_cons_self, howner, _, _, rfl⟩
    · refine ⟨.broadcast_post ⟨ldr, key, val, some owner, s.writes.length⟩, ?_,
        ⟨hlisted ldr hldr p hp, ?_⟩, _, _, rfl⟩
      · refine List.mem_append_left _ ((List.mem_erase_of_ne (by rintro ⟨⟩)).mpr ?_)
        exact List.mem_append_right _ List.mem_cons_self
      · rintro ⟨⟩; exact howner rfl
  | leader_set | request_refused => cases hg
  | _ => cases hacc

theorem Converging.within_next (h : Converging cfg s) (he : s.enabled e) (hg : s.Undisturbed e)
    {th : Thread K V} (hth : th ∈ (s.next e).threads) : th.Within cfg.ports := by
  rcases threads_next he hth with hold | ⟨old, hold, hsucc⟩ | hstart
  · exact h.within th hold
  · have hw := h.within old hold
    cases hsucc with
    | loop | rest | answered => trivial
    | post => rfl
    | request owner key val ldr hldr hlive => exact ⟨hw, (h.live ldr).mp hlive, rfl⟩
    | orphaned _ _ _ hcrash | unheard _ _ _ _ _ hcrash => rw [hcrash] at hg; cases hg
  · cases hstart with
    | request_post p key val hlive => exact (h.live p).mp hlive
    | broadcast_post => trivial
    | replied w owner hacc hreq => exact (h.within _ hreq).1

theorem Converging.step (h : Converging cfg s) (hc : Consistent s) (he : s.enabled e)
    (hg : s.Undisturbed e) (hlisted : ∀ p ∈ cfg.ports, ∀ q ∈ cfg.ports, q ∈ cfg.peer_ports p) :
    Converging cfg (s.next e) where
  live p := by
    rcases live_next s e p with hsame | rfl | rfl
    · rw [hsame]; exact h.live p
    · cases hg
    · cases hg
  globals p := by
    rcases server_next s e p with hsame | rfl | ⟨_, rfl⟩
    · exact (h.globals p).trans hsame
    · cases hg
    · cases hg
  within th hth := h.within_next he hg hth
  original p k hk := by
    have hk' : ((s.next e).cell p k).2 = none := hk
    suffices ((s.next e).cell p k).1 = cfg.datastore k from this
    rcases cell_next s e p k with hsame | ⟨val, stamp, -, hcell⟩ | ⟨rfl, -⟩ | ⟨_, _, _, rfl, -, -⟩
    · rw [hsame] at hk' ⊢
      exact h.original p k hk'
    · rw [hcell] at hk'; cases hk'
    · cases hg
    · cases hg
  reaches p hp i k v hw := by
    by_cases hi : i < s.writes.length
    · rcases h.reaches p hp i k v (hw.of_next hi) with ⟨j, hj, hij⟩ | ⟨th, hth, hb⟩
      · obtain ⟨j', hj', hjj'⟩ :=
          version_next (e := e) hj (by rintro rfl; exact hg) (by rintro rfl; exact hg)
        exact .inl ⟨j', hj', Nat.le_trans hij hjj'⟩
      · rcases h.brings_next he hg hp hth hb with hb | ⟨k', v', heffect⟩
        · exact .inr hb
        · obtain ⟨rfl, -⟩ := (hc.threads.wrote_of_effect he heffect).unique hw
          exact .inl (version_of_effect heffect)
    · obtain ⟨w, hget, rfl, rfl⟩ := hw
      obtain ⟨hacc, rfl⟩ := accepted_of_writes_next hget (Nat.le_of_not_lt hi)
      rcases h.brings_accepted he hg hlisted hacc hp with hb | heffect
      · exact .inr hb
      · exact .inl (version_of_effect heffect)

theorem converging_of_reach
    (hlisted : ∀ p ∈ cfg.ports, ∀ q ∈ cfg.ports, q ∈ cfg.peer_ports p)
    (h : (store cfg).Reach (fun s e => s.Undisturbed e ∧ s.InOrder e) s) :
    Consistent s ∧ Converging cfg s := by
  have hc : ∀ s, (store cfg).Reach (fun s e => s.Undisturbed e ∧ s.InOrder e) s → Consistent s :=
    fun s => consistent_of_reach fun _ _ hg => hg.2
  exact ⟨hc s h, h.invariant_of hc (converging_init cfg)
    fun _ _ hc hv he hg => hv.step hc he hg.1 hlisted⟩

omit [DecidableEq K] [DecidableEq V] [JsonValue K] [JsonValue V] in
/-- With nothing under way, the version of a key on a server is at least that on another. -/
theorem Converging.version_le (h : Converging cfg s) (hc : Consistent s) (hnil : s.threads = [])
    {p q : Port} (hq : q ∈ cfg.ports) {k : K} {i : Nat} (hi : s.version p k = some i) :
    ∃ j, s.version q k = some j ∧ i ≤ j := by
  obtain ⟨v, -, hw⟩ := hc.version p k i hi
  refine (h.reaches q hq i k v hw).resolve_right ?_
  rintro ⟨th, hth, -⟩
  rw [hnil] at hth
  cases hth

omit [DecidableEq K] [DecidableEq V] [JsonValue K] [JsonValue V] in
theorem Converging.agree (h : Converging cfg s) (hc : Consistent s) (hnil : s.threads = [])
    {p q : Port} (hp : p ∈ cfg.ports) (hq : q ∈ cfg.ports) (k : K) :
    (s.server p).datastore k = (s.server q).datastore k := by
  cases hi : s.version p k with
  | none =>
    have hnone : s.version q k = none := by
      cases hj : s.version q k with
      | none => rfl
      | some j =>
        obtain ⟨i, hi', -⟩ := h.version_le hc hnil hp hj
        rw [hi] at hi'
        cases hi'
    rw [h.original p k hi, h.original q k hnone]
  | some i =>
    obtain ⟨j, hj, hij⟩ := h.version_le hc hnil hq hi
    obtain ⟨i', hi', hji⟩ := h.version_le hc hnil hp hj
    rw [hi] at hi'
    cases hi'
    obtain rfl : i = j := by omega
    obtain ⟨v, hv, hw⟩ := hc.version p k i hi
    obtain ⟨v', hv', hw'⟩ := hc.version q k i hj
    rw [hv, hv', (hw.unique hw').2]

end System

/-- Every server holds what the leader holds. -/
def System.Agree (cfg : Config K V) (s : System K V) : Prop :=
  ∀ p ∈ cfg.ports, ∀ k, (s.server p).datastore k = (s.server cfg.leader).datastore k

/-- **Convergence**, in every run in which no datastore is given an update over a newer one. -/
theorem convergence {cfg : Config K V} {s : System K V}
    (hlisted : ∀ p ∈ cfg.ports, ∀ q ∈ cfg.ports, q ∈ cfg.peer_ports p)
    (h : (store cfg).Reach (fun s e => s.Undisturbed e ∧ s.InOrder e) s) (hnil : s.threads = []) :
    s.Agree cfg := by
  obtain ⟨hc, hv⟩ := System.converging_of_reach hlisted h
  exact fun p hp k => hv.agree hc hnil hp cfg.leader_mem k

theorem twoServers_listed :
    ∀ p ∈ twoServers.ports, ∀ q ∈ twoServers.ports, q ∈ twoServers.peer_ports p :=
  fun _ _ _ hq => hq

/-- A write through the follower, and then one to the same key on the leader. -/
def oneAfterTheOther : List (Event (Option Nat) (Option Nat)) :=
  [.post_data 1 (pair 7 1), .request 1 (some 7) (some 1) 0,
    .serve 1 (some 7) (some 1) 0 true true, .reply 1 (some 7) (some 1) 0,
    .loop (copy 7 1 (some 1) 0)] ++ delivering (copy 7 1 (some 1) 0) 0 [1] ++
  [.skip (copy 7 1 (some 1) 0) 1 [], .finish (copy 7 1 (some 1) 0), .post_data 0 (pair 7 2),
    .loop (copy 7 2 none 1)] ++ delivering (copy 7 2 none 1) 0 [1] ++
  delivering (copy 7 2 none 1) 1 [] ++ [.finish (copy 7 2 none 1)]

theorem convergence_oneAfterTheOther :
    ∃ s, (store twoServers).Reach (fun s e => s.Undisturbed e ∧ s.InOrder e) s ∧
      s.threads = [] ∧ (s.server 1).datastore (some 7) = some (some 2) ∧ s.Agree twoServers := by
  have hrun : ((store twoServers).exec (fun s e => s.Undisturbed e ∧ s.InOrder e)
      (store twoServers).init oneAfterTheOther).any (fun s =>
        s.threads = [] ∧ (s.server 1).datastore (some 7) = some (some 2)) = true := by
    decide +kernel
  obtain ⟨s, hs, hend⟩ := TransitionSystem.exists_reach_of_exec hrun
  obtain ⟨hnil, hval⟩ := of_decide_eq_true hend
  exact ⟨s, hs, hnil, hval, convergence twoServers_listed hs hnil⟩

/-- Two writes to one key on the leader; their copies overtake each other on the way to server 1. -/
def overtaking : List (Event (Option Nat) (Option Nat)) :=
  [.post_data 0 (pair 7 1), .post_data 0 (pair 7 2), .loop (copy 7 1 none 0),
    .loop (copy 7 2 none 1)] ++
  delivering (copy 7 1 none 0) 0 [1] ++ delivering (copy 7 2 none 1) 0 [1] ++
  delivering (copy 7 2 none 1) 1 [] ++ delivering (copy 7 1 none 0) 1 [] ++
  [.finish (copy 7 1 none 0), .finish (copy 7 2 none 1)]

/-- The leader is left with the second value, the other server with the first. -/
theorem not_convergence : ¬ ∀ cfg : Config (Option Nat) (Option Nat),
    (∀ p ∈ cfg.ports, ∀ q ∈ cfg.ports, q ∈ cfg.peer_ports p) →
    ∀ s, (store cfg).Reach System.Undisturbed s → s.threads = [] → s.Agree cfg := by
  have hrun : ((store twoServers).exec System.Undisturbed (store twoServers).init overtaking).any
      (fun s => s.threads = [] ∧
        (s.server 1).datastore (some 7) ≠ (s.server 0).datastore (some 7)) = true := by
    decide +kernel
  obtain ⟨s, hs, hend⟩ := TransitionSystem.exists_reach_of_exec hrun
  obtain ⟨hnil, hne⟩ := of_decide_eq_true hend
  exact fun h => hne (h twoServers twoServers_listed s hs hnil 1 (by decide) (some 7))

end Cs2510.Store
