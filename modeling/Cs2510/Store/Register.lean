import Cs2510.Lib.Register
import Cs2510.Store.Settling

/-!
# The store as a register

A client that waits with a write until the one before to the same key has settled finds in the store
a register: a `GET /data` on any server returns the value that was posted last, or, while the
post is under way, the one before (`reads_regular`). Writes to different keys need not wait for each
other.
-/

namespace Cs2510.Store

variable {K V : Type} [DecidableEq K] [DecidableEq V] [JsonValue K] [JsonValue V]

/-- The thread is going to give its pair to the server at `p`, or to have it given. -/
def Thread.Carries (peer_ports : Port → List Port) (p : Port) : Thread K V → Prop
  | .request_post .. | .requested .. => True
  | th => th.Reaches peer_ports p

namespace System

/-- A thread for the key is there. -/
def UnderWay (s : System K V) (key : K) : Prop := ∃ th ∈ s.threads, th.pair.1 = key

/-- A client waits with a write until nothing is under way for its key. -/
def Waits (s : System K V) (e : Event K V) : Prop :=
  ∀ w ∈ s.posted e, ∀ th ∈ s.threads, th.pair.1 ≠ w.1

instance (s : System K V) (e : Event K V) : Decidable (s.Waits e) :=
  inferInstanceAs (Decidable (∀ w ∈ s.posted e, ∀ th ∈ s.threads, _))

/-- The register that the posts of a run make of the data it starts with. -/
def register (cfg : Config K V) (h : List (System K V × Event K V)) : Register K V :=
  (h.filterMap fun x => x.1.posted x.2).foldl .write (.fresh cfg.datastore)

variable {cfg : Config K V} {s : System K V} {e : Event K V} {old : Thread K V}
  {new : List (Thread K V)} {h : List (System K V × Event K V)}

omit [DecidableEq V] in
theorem register_next (hposted : s.posted e = none) :
    register cfg (h ++ [(s, e)]) = register cfg h := by
  simp [register, hposted]

omit [DecidableEq V] in
theorem register_post {w : K × V} (hposted : s.posted e = some w) :
    register cfg (h ++ [(s, e)]) = (register cfg h).write w := by
  simp [register, hposted]

omit [DecidableEq V] in
theorem posted_of_turn (hturn : s.turn e = some (old, new)) : s.posted e = none := by
  cases e with
  | post_data => cases hturn
  | _ => rfl

omit [DecidableEq K] [DecidableEq V] [JsonValue K] [JsonValue V] in
/-- A thread goes on with the pair it has. -/
theorem pair_of_turn (hturn : s.turn e = some (old, new)) {th : Thread K V} (hth : th ∈ new) :
    th.pair = old.pair := by
  cases e with
  | loop | skip | refused | post | follower_set | request =>
    cases hturn
    cases List.mem_singleton.mp hth
    rfl
  | serve =>
    cases hturn
    obtain rfl | hth := List.mem_cons.mp hth
    · rfl
    · cases List.mem_singleton.mp hth
      rfl
  | finish | reply =>
    cases hturn
    cases hth
  | _ => cases hturn

omit [DecidableEq V] in
/-- A turn puts into a datastore the pair of its thread. -/
theorem pair_of_effect (hturn : s.turn e = some (old, new)) {p : Port} {k : K} {v : V} {i : Nat}
    (heffect : s.effect e = some (p, k, v, i)) : old.pair = (k, v) := by
  cases e with
  | follower_set | serve | reply =>
    cases hturn
    cases heffect
    rfl
  | loop | skip | refused | post | finish | request => cases heffect
  | _ => cases hturn

omit [DecidableEq V] in
/-- A server that a thread carries its pair to is given it, or one of the threads that a turn
leaves carries it on. -/
theorem Steady.carries_turn (h : Steady cfg s)
    (hlisted : ∀ p ∈ cfg.ports, ∀ q ∈ cfg.ports, q ∈ cfg.peer_ports p) (he : s.enabled e)
    (hg : s.Undisturbed e) (hturn : s.turn e = some (old, new)) {p : Port} (hp : p ∈ cfg.ports)
    (hcarries : old.Carries cfg.peer_ports p) :
    (∃ th ∈ new, th.Carries cfg.peer_ports p) ∨
      ∃ i, s.effect e = some (p, old.pair.1, old.pair.2, i) := by
  have hamong := h.among old (mem_of_turn he hturn)
  cases e with
  | loop b =>
    cases hturn
    refine .inl ⟨_, List.mem_cons_self, ?_, hcarries.2⟩
    rw [(h.globals b.owner).peer_ports]
    exact hcarries.1
  | skip b q todo =>
    cases hturn
    refine .inl ⟨_, List.mem_cons_self, (List.mem_cons.mp hcarries.1).resolve_left ?_, hcarries.2⟩
    rintro rfl
    exact hcarries.2 he.2.2.symm
  | refused b q todo =>
    cases hturn
    refine .inl ⟨_, List.mem_cons_self, (List.mem_cons.mp hcarries.1).resolve_left ?_, hcarries.2⟩
    rintro rfl
    have hlive := (h.live p).mpr hp
    rw [show s.live p = false from hg] at hlive
    cases hlive
  | post b q todo =>
    cases hturn
    refine .inl ⟨_, List.mem_cons_self, ?_⟩
    exact (List.mem_cons.mp hcarries.1).imp_right fun hmem => ⟨todo, rfl, hmem, hcarries.2⟩
  | follower_set b q todo answered =>
    cases hturn
    obtain rfl | ⟨l, hl, hmem, hskip⟩ := hcarries
    · exact .inr ⟨b.stamp, rfl⟩
    · cases hl
      exact .inl ⟨_, List.mem_cons_self, hmem, hskip⟩
  | finish =>
    cases hturn
    exact absurd hcarries.1 List.not_mem_nil
  | request =>
    cases hturn
    exact .inl ⟨_, List.mem_cons_self, trivial⟩
  | serve owner key val ldr waiting answered =>
    cases hturn
    left
    by_cases howner : owner = p
    · exact ⟨_, List.mem_cons_of_mem _ List.mem_cons_self, howner⟩
    · refine ⟨_, List.mem_cons_self, hlisted ldr hamong.2.1 p hp, ?_⟩
      rintro ⟨⟩
      exact howner rfl
  | reply owner key val stamp =>
    cases hturn
    obtain rfl : owner = p := hcarries
    exact .inr ⟨stamp, rfl⟩
  | _ => cases hturn

/-! ## The invariant -/

/-- The threads carry the last write to their key, to all servers that do not have it. -/
structure Regular (cfg : Config K V) (r : Register K V) (s : System K V) : Prop where
  carried : ∀ th ∈ s.threads, r.last th.pair.1 = some th.pair.2
  reached : ∀ p ∈ cfg.ports, ∀ k, (s.server p).datastore k = r.last k ∨
    ∃ th ∈ s.threads, th.pair.1 = k ∧ th.Carries cfg.peer_ports p
  regular : ∀ p ∈ cfg.ports, ∀ k, r.Regular k (s.UnderWay k) ((s.server p).datastore k)

omit [DecidableEq K] [DecidableEq V] [JsonValue K] [JsonValue V] in
theorem regular_init (cfg : Config K V) : Regular cfg (.fresh cfg.datastore) (init cfg) where
  carried := by simp [init]
  reached _ _ _ := .inl rfl
  regular _ _ _ := .inl rfl

variable {r : Register K V}

/-- What a turn does to a datastore. -/
theorem Regular.datastore_turn (h : Regular cfg r s) (he : s.enabled e)
    (hturn : s.turn e = some (old, new)) (p : Port) (k : K) :
    ((s.next e).server p).datastore k = (s.server p).datastore k ∨
      ((s.next e).server p).datastore k = r.last k := by
  rcases cell_next s e p k with hsame | ⟨val, stamp, heffect, hcell⟩ | ⟨rfl, -⟩ |
    ⟨_, _, _, rfl, -, -⟩
  · exact .inl (congrArg Prod.fst hsame)
  · have hlast := h.carried old (mem_of_turn he hturn)
    rw [pair_of_effect hturn heffect] at hlast
    exact .inr ((congrArg Prod.fst hcell).trans hlast.symm)
  · cases hturn
  · cases hturn

theorem Regular.turn (h : Regular cfg r s) (hs : Steady cfg s)
    (hlisted : ∀ p ∈ cfg.ports, ∀ q ∈ cfg.ports, q ∈ cfg.peer_ports p) (he : s.enabled e)
    (hg : s.Undisturbed e) (hturn : s.turn e = some (old, new)) : Regular cfg r (s.next e) := by
  have hold := mem_of_turn he hturn
  have hthreads := hs.threads_turn he hg hturn
  have hreached : ∀ p ∈ cfg.ports, ∀ k, ((s.next e).server p).datastore k = r.last k ∨
      ∃ th ∈ (s.next e).threads, th.pair.1 = k ∧ th.Carries cfg.peer_ports p := by
    intro p hp k
    obtain hlast | ⟨th, hth, hk, hcarries⟩ := h.reached p hp k
    · exact .inl ((h.datastore_turn he hturn p k).elim (·.trans hlast) id)
    · by_cases heq : th = old
      · subst heq hk
        obtain ⟨th', hth', hcarries'⟩ | ⟨i, heffect⟩ :=
          hs.carries_turn hlisted he hg hturn hp hcarries
        · refine .inr ⟨th', ?_, by rw [pair_of_turn hturn hth'], hcarries'⟩
          rw [hthreads]
          exact List.mem_append_right _ hth'
        · exact .inl ((congrArg Prod.fst (cell_of_effect heffect)).trans (h.carried _ hold).symm)
      · refine .inr ⟨th, ?_, hk, hcarries⟩
        rw [hthreads]
        exact List.mem_append_left _ ((List.mem_erase_of_ne heq).mpr hth)
  refine ⟨fun th hth => ?_, hreached, fun p hp k => ?_⟩
  · rw [hthreads] at hth
    obtain hth | hth := List.mem_append.mp hth
    · exact h.carried th (List.mem_of_mem_erase hth)
    · rw [pair_of_turn hturn hth]
      exact h.carried old hold
  · obtain hlast | ⟨th, hth, hk, -⟩ := hreached p hp k
    · exact .inl hlast
    · obtain hsame | hlast := h.datastore_turn he hturn p k
      · rw [hsame]
        exact (h.regular p hp k).still ⟨th, hth, hk⟩
      · exact .inl hlast

/-- What a post does to a datastore. -/
theorem datastore_post {p : Port} {data : Body K V} {key : K} {val : V}
    (hposted : s.posted (.post_data p data) = some (key, val)) (q : Port) (k : K) :
    ((s.next (.post_data p data)).server q).datastore k = (s.server q).datastore k ∨
      k = key ∧ ((s.next (.post_data p data)).server q).datastore k = some val := by
  rcases cell_next s (.post_data p data) q k with hsame | ⟨val', stamp, heffect, hcell⟩ | ⟨⟨⟩, -⟩ |
    ⟨_, _, _, ⟨⟩, -, -⟩
  · exact .inl (congrArg Prod.fst hsame)
  · obtain ⟨r, h⟩ | ⟨key', val', r, -, h⟩ | ⟨key', val', r, -, h⟩ :=
      post_data_cases (s.server p) data
    all_goals
      rw [effect, h] at heffect
      rw [posted, h] at hposted
      cases heffect
    cases hposted
    exact .inr ⟨rfl, congrArg Prod.fst hcell⟩

theorem Regular.post (h : Regular cfg r s) (hs : Steady cfg s)
    (hlisted : ∀ p ∈ cfg.ports, ∀ q ∈ cfg.ports, q ∈ cfg.peer_ports p) {p : Port}
    {data : Body K V} (he : s.live p) (hwaits : s.Waits (.post_data p data)) {key : K} {val : V}
    (hposted : s.posted (.post_data p data) = some (key, val)) {th : Thread K V}
    (hthreads : (s.next (.post_data p data)).threads = s.threads ++ [th])
    (hth : th = .request_post p key val ∨
      th = .broadcast_post ⟨p, key, val, none, s.writes.length⟩) :
    Regular cfg (r.write (key, val)) (s.next (.post_data p data)) := by
  have hothers : ∀ th' ∈ s.threads, th'.pair.1 ≠ key := hwaits (key, val) hposted
  have hmem : th ∈ (s.next (.post_data p data)).threads := by
    rw [hthreads]
    exact List.mem_append_right _ List.mem_cons_self
  have hpair : th.pair = (key, val) := by obtain rfl | rfl := hth <;> rfl
  have hkey : th.pair.1 = key := congrArg Prod.fst hpair
  have hsame : ∀ (q : Port) {k : K}, k ≠ key →
      ((s.next (.post_data p data)).server q).datastore k = (s.server q).datastore k :=
    fun q k hk => (datastore_post hposted q k).resolve_right fun hset => hk hset.1
  refine ⟨fun th' hth' => ?_, fun q hq k => ?_, fun q hq k => ?_⟩
  · rw [hthreads] at hth'
    obtain hth' | hth' := List.mem_append.mp hth'
    · rw [Register.last_write_of_ne (hothers th' hth')]
      exact h.carried th' hth'
    · rw [List.mem_singleton.mp hth', hpair]
      exact Register.last_write
  · by_cases hk : k = key
    · refine .inr ⟨th, hmem, hkey.trans hk.symm, ?_⟩
      obtain rfl | rfl := hth
      · trivial
      · exact ⟨hlisted p ((hs.live p).mp he) q hq, by rintro ⟨⟩⟩
    · rw [hsame q hk, Register.last_write_of_ne hk]
      refine (h.reached q hq k).imp_right fun ⟨th', hth', hcarries⟩ => ⟨th', ?_, hcarries⟩
      rw [hthreads]
      exact List.mem_append_left _ hth'
  · by_cases hk : k = key
    · subst hk
      obtain heq | ⟨-, hset⟩ := datastore_post hposted q k
      · rw [heq]
        refine .written ((h.regular q hq k).eq_last ?_) ⟨th, hmem, hkey⟩
        rintro ⟨th', hth', hk⟩
        exact hothers th' hth' hk
      · rw [hset]
        exact .inl Register.last_write.symm
    · rw [hsame q hk, Register.regular_write_of_ne hk]
      refine (h.regular q hq k).imp_right fun ⟨⟨th', hth', hk'⟩, hbefore⟩ =>
        ⟨⟨th', ?_, hk'⟩, hbefore⟩
      rw [hthreads]
      exact List.mem_append_left _ hth'

theorem regular_of_run (hlisted : ∀ p ∈ cfg.ports, ∀ q ∈ cfg.ports, q ∈ cfg.peer_ports p)
    (hr : (store cfg).Run (fun s e => s.Undisturbed e ∧ s.Waits e) h s) :
    Regular cfg (register cfg h) s := by
  refine TransitionSystem.Run.invariant (T := store cfg)
    (I := fun h s => Regular cfg (register cfg h) s) (regular_init cfg)
    (fun h s e hr hreg he hg => ?_) hr
  have hs := steady_of_reach (hr.reach.mono fun _ _ hg => hg.1)
  obtain ⟨p, data, rfl⟩ | ⟨old, new, hturn⟩ := post_data_or_turn hg.1
  · obtain ⟨hposted, hsame⟩ | ⟨key, val, th, hposted, hthreads, hth⟩ := threads_post_data s p data
    · rw [register_next hposted, show (store cfg).next s (.post_data p data) = s from hsame]
      exact hreg
    · rw [register_post hposted]
      exact hreg.post hs hlisted he hg.2 hposted hthreads hth
  · rw [register_next (posted_of_turn hturn)]
    exact hreg.turn hs hlisted he hg.1 hturn

end System

/-- **Regular reads.** While clients wait with each write until the one before to its key has
settled, and every server's `peer_ports` lists every server, a `GET /data` on any server returns the
value posted last, or the one before if a post to the key is under way. -/
theorem reads_regular {cfg : Config K V} {s : System K V} {h : List (System K V × Event K V)}
    (hlisted : ∀ p ∈ cfg.ports, ∀ q ∈ cfg.ports, q ∈ cfg.peer_ports p)
    (hr : (store cfg).Run (fun s e => s.Undisturbed e ∧ s.Waits e) h s) {p : Port}
    (hp : p ∈ cfg.ports) {data : Body K V} {key : K} (hkey : data.key = some key)
    (hnull : JsonValue.isNone key = false) :
    (s.server p).get_data data = Server.found key ((System.register cfg h).last key) ∨
      s.UnderWay key ∧
        (s.server p).get_data data = Server.found key ((System.register cfg h).before key) := by
  have hget : (s.server p).get_data data = Server.found key ((s.server p).datastore key) := by
    unfold Server.get_data
    rw [hkey]
    simp only [hnull, Bool.false_eq_true, if_false]
  rw [hget]
  exact ((System.regular_of_run hlisted hr).regular p hp key).imp (congrArg _)
    (And.imp_right (congrArg _))

/-- A post through the follower that settles, and one on the leader that has not reached the
follower. -/
def underWay : List (Event (Option Nat) (Option Nat)) :=
  .post_data 1 (pair 7 1) :: throughFollower ++ [.post_data 0 (pair 7 2)]

theorem reads_regular_underWay :
    ∃ h s, (store twoServers).Run (fun s e => s.Undisturbed e ∧ s.Waits e) h s ∧
      (s.server 1).datastore (some 7) = some (some 1) ∧
      ((s.server 1).get_data ⟨some (some 7), none, none⟩ = Server.found (some 7) (some (some 2)) ∨
        s.UnderWay (some 7) ∧
          (s.server 1).get_data ⟨some (some 7), none, none⟩ =
            Server.found (some 7) (some (some 1))) := by
  have hrun : ((store twoServers).exec (fun s e => s.Undisturbed e ∧ s.Waits e)
      (store twoServers).init underWay).any (fun s =>
        (s.server 1).datastore (some 7) = some (some 1) ∧
        (System.register twoServers ((store twoServers).trace (store twoServers).init
          underWay)).last (some 7) = some (some 2) ∧
        (System.register twoServers ((store twoServers).trace (store twoServers).init
          underWay)).before (some 7) = some (some 1)) = true := by
    decide +kernel
  obtain ⟨h, s, hr, hend⟩ := TransitionSystem.exists_run_of_exec (T := store twoServers)
    (p := fun h s => (s.server 1).datastore (some 7) = some (some 1) ∧
      (System.register twoServers h).last (some 7) = some (some 2) ∧
      (System.register twoServers h).before (some 7) = some (some 1)) hrun
  obtain ⟨hold, hlast, hbefore⟩ := of_decide_eq_true hend
  have hkey : (⟨some (some 7), none, none⟩ : Body (Option Nat) (Option Nat)).key = some (some 7) :=
    rfl
  have hreads := reads_regular twoServers_listed hr (p := 1) (by decide) hkey rfl
  rw [hlast, hbefore] at hreads
  exact ⟨h, s, hr, hold, hreads⟩

end Cs2510.Store
