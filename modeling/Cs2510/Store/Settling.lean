import Cs2510.Lib.Run
import Cs2510.Store.Convergence
import Cs2510.Store.Origin
import Mathlib.Algebra.BigOperators.Group.List.Basic
import Mathlib.Algebra.GroupWithZero.Nat

/-!
# Settling

In an undisturbed run a step is a request of a client, or the turn of one thread, which leaves the
threads that go on from it (`threads_turn`). A turn lowers the work that the threads have before
them, and while there is a thread one of them can take a turn; so after a write the threads come to
an end, however they are scheduled (`settles`).
-/

namespace Cs2510.Store

variable {K V : Type}

/-- The servers that a thread has to do with are there, and the sender of a request waits. -/
def Thread.Among (ports : List Port) : Thread K V → Prop
  | .broadcast_post b | .loop b _ => b.owner ∈ ports
  | .posted b p todo => b.owner ∈ ports ∧ p ∈ ports ∧ todo.isSome
  | .request_post owner _ _ | .replied owner _ _ _ => owner ∈ ports
  | .requested owner _ _ ldr waiting => owner ∈ ports ∧ ldr ∈ ports ∧ waiting = true

/-- A bound on the turns of a thread and of those that it leaves. -/
def Thread.work (cfg : Config K V) : Thread K V → Nat
  | .broadcast_post b => 2 * (cfg.peer_ports b.owner).length + 2
  | .loop _ todo => 2 * todo.length + 1
  | .posted _ _ todo => 2 * (todo.getD []).length + 2
  | .request_post .. => 2 * (cfg.peer_ports cfg.leader).length + 5
  | .requested _ _ _ ldr _ => 2 * (cfg.peer_ports ldr).length + 4
  | .replied .. => 1

namespace System

/-- Whose turn an event is, and the threads that it leaves. -/
def turn (s : System K V) : Event K V → Option (Thread K V × List (Thread K V))
  | .loop b => some (.broadcast_post b, [.loop b (s.server b.owner).peer_ports])
  | .skip b p todo | .refused b p todo => some (.loop b (p :: todo), [.loop b todo])
  | .post b p todo => some (.loop b (p :: todo), [.posted b p (some todo)])
  | .follower_set b p todo _ => some (.posted b p todo, [.loop b (todo.getD [])])
  | .finish b => some (.loop b [], [])
  | .request owner key val ldr =>
    some (.request_post owner key val, [.requested owner key val ldr true])
  | .serve owner key val ldr waiting _ =>
    some (.requested owner key val ldr waiting,
      [.broadcast_post ⟨ldr, key, val, some owner, s.writes.length⟩,
        .replied owner key val s.writes.length])
  | .reply owner key val stamp => some (.replied owner key val stamp, [])
  | _ => none

/-- The turn of a thread in an undisturbed run. -/
def Working (s : System K V) (e : Event K V) : Prop :=
  s.Undisturbed e ∧ (s.turn e).isSome

instance (s : System K V) (e : Event K V) : Decidable (s.Working e) :=
  inferInstanceAs (Decidable (_ ∧ _))

/-- The turns that the threads have before them at most. -/
def work (cfg : Config K V) (s : System K V) : Nat := (s.threads.map (Thread.work cfg)).sum

/-- The servers are those of the configuration, and so is whom the threads have to do with. -/
structure Steady (cfg : Config K V) (s : System K V) : Prop where
  live : ∀ p, s.live p ↔ p ∈ cfg.ports
  globals : ∀ p, SameGlobals ((init cfg).server p) (s.server p)
  among : ∀ th ∈ s.threads, th.Among cfg.ports

theorem steady_init (cfg : Config K V) : Steady cfg (init cfg) where
  live := by simp [init]
  globals p := .refl _
  among := by simp [init]

variable {cfg : Config K V} {s : System K V} {e : Event K V} {old : Thread K V}
  {new : List (Thread K V)}

theorem mem_of_turn (he : s.enabled e) (hturn : s.turn e = some (old, new)) :
    old ∈ s.threads := by
  cases e with
  | loop | skip | refused | post | follower_set | finish | request | serve | reply =>
    cases hturn
    exact he.1
  | _ => cases hturn

/-- An undisturbed step is a request of a client or the turn of a thread. -/
theorem post_data_or_turn (hg : s.Undisturbed e) :
    (∃ p data, e = .post_data p data) ∨ ∃ old new, s.turn e = some (old, new) := by
  cases e with
  | post_data p data => exact .inl ⟨p, data, rfl⟩
  | loop | skip | refused | post | follower_set | finish | request | serve | reply =>
    exact .inr ⟨_, _, rfl⟩
  | _ => exact hg.elim

theorem Steady.among_turn (h : Steady cfg s) (he : s.enabled e)
    (hturn : s.turn e = some (old, new)) {th : Thread K V} (hth : th ∈ new) :
    th.Among cfg.ports := by
  have hold := h.among old (mem_of_turn he hturn)
  cases e with
  | loop | skip | refused =>
    cases hturn
    cases List.mem_singleton.mp hth
    exact hold
  | follower_set =>
    cases hturn
    cases List.mem_singleton.mp hth
    exact hold.1
  | post b p todo =>
    cases hturn
    cases List.mem_singleton.mp hth
    exact ⟨hold, (h.live p).mp he.2.2.2, rfl⟩
  | request owner key val ldr =>
    cases hturn
    cases List.mem_singleton.mp hth
    exact ⟨hold, (h.live ldr).mp he.2.2.2, rfl⟩
  | serve owner key val ldr waiting answered =>
    cases hturn
    obtain rfl | hth := List.mem_cons.mp hth
    · exact hold.2.1
    · cases List.mem_singleton.mp hth
      exact hold.1
  | finish | reply =>
    cases hturn
    cases hth
  | _ => cases hturn

/-- Every thread that is there can take a turn. -/
theorem Steady.exists_turn (h : Steady cfg s) (hold : old ∈ s.threads) :
    ∃ e, s.enabled e ∧ s.Working e ∧ (s.turn e).map Prod.fst = some old := by
  have hamong := h.among old hold
  cases old with
  | broadcast_post b =>
    exact ⟨.loop b, ⟨hold, (h.live _).mpr hamong⟩, ⟨trivial, rfl⟩, rfl⟩
  | loop b todo =>
    have hlive := (h.live _).mpr hamong
    cases todo with
    | nil => exact ⟨.finish b, ⟨hold, hlive⟩, ⟨trivial, rfl⟩, rfl⟩
    | cons p todo =>
      by_cases hskip : some p = b.skip_port
      · exact ⟨.skip b p todo, ⟨hold, hlive, hskip⟩, ⟨trivial, rfl⟩, rfl⟩
      · cases hp : s.live p with
        | true => exact ⟨.post b p todo, ⟨hold, hlive, hskip, hp⟩, ⟨trivial, rfl⟩, rfl⟩
        | false => exact ⟨.refused b p todo, ⟨hold, hlive, hskip⟩, ⟨hp, rfl⟩, rfl⟩
  | posted b p todo =>
    exact ⟨.follower_set b p todo true, ⟨hold, (h.live p).mpr hamong.2.1⟩, ⟨rfl, rfl⟩, rfl⟩
  | request_post owner key val =>
    have hldr : (s.server owner).leader_port = some cfg.leader := (h.globals owner).leader_port
    exact ⟨.request owner key val cfg.leader,
      ⟨hold, (h.live _).mpr hamong, hldr, (h.live _).mpr cfg.leader_mem⟩, ⟨trivial, rfl⟩, rfl⟩
  | requested owner key val ldr waiting =>
    exact ⟨.serve owner key val ldr waiting true, ⟨hold, (h.live ldr).mpr hamong.2.1⟩, ⟨rfl, rfl⟩,
      rfl⟩
  | replied owner key val stamp =>
    exact ⟨.reply owner key val stamp, ⟨hold, (h.live _).mpr hamong⟩, ⟨trivial, rfl⟩, rfl⟩

/-- What a turn leaves has less work before it than the thread had. -/
theorem Steady.work_turn (h : Steady cfg s) (he : s.enabled e)
    (hturn : s.turn e = some (old, new)) :
    (new.map (Thread.work cfg)).sum < old.work cfg := by
  cases e with
  | loop b =>
    cases hturn
    have hpeers : (s.server b.owner).peer_ports = cfg.peer_ports b.owner :=
      (h.globals b.owner).peer_ports
    simp only [List.map_cons, List.map_nil, List.sum_cons, List.sum_nil, Thread.work, hpeers]
    omega
  | request owner key val ldr =>
    cases hturn
    have hldr : (s.server owner).leader_port = some cfg.leader := (h.globals owner).leader_port
    obtain rfl : cfg.leader = ldr := Option.some.inj (hldr.symm.trans he.2.2.1)
    simp only [List.map_cons, List.map_nil, List.sum_cons, List.sum_nil, Thread.work]
    omega
  | skip | refused | post =>
    cases hturn
    simp only [List.map_cons, List.map_nil, List.sum_cons, List.sum_nil, Thread.work,
      List.length_cons, Option.getD_some]
    omega
  | follower_set | finish | serve | reply =>
    cases hturn
    simp only [List.map_cons, List.map_nil, List.sum_cons, List.sum_nil, Thread.work]
    omega
  | _ => cases hturn

variable [DecidableEq K] [DecidableEq V] [JsonValue K] [JsonValue V]

/-- A turn leaves the other threads as they are. -/
theorem Steady.threads_turn (h : Steady cfg s) (he : s.enabled e) (hg : s.Undisturbed e)
    (hturn : s.turn e = some (old, new)) : (s.next e).threads = s.threads.erase old ++ new := by
  have hold := mem_of_turn he hturn
  cases e with
  | loop | skip | refused | post | request =>
    cases hturn
    rfl
  | finish | reply =>
    cases hturn
    exact (List.append_nil _).symm
  | follower_set b p todo answered =>
    cases hturn
    obtain rfl : answered = true := hg
    obtain ⟨todo, rfl⟩ := Option.isSome_iff_exists.mp (h.among _ hold).2.2
    rfl
  | serve owner key val ldr waiting answered =>
    cases hturn
    obtain rfl : answered = true := hg
    obtain ⟨-, -, rfl⟩ := h.among _ hold
    change (s.threads ++ [_]).erase _ ++ [_] = _
    rw [List.erase_append_left _ hold, List.append_assoc]
    rfl
  | _ => cases hturn

/-- The pair that a step takes from a client. -/
def posted (s : System K V) : Event K V → Option (K × V)
  | .post_data p data => ((s.server p).post_data data).2.1.map Spawn.pair
  | _ => none

/-- A `POST /data` is turned down, or starts a thread for the pair that it posts. -/
theorem threads_post_data (s : System K V) (p : Port) (data : Body K V) :
    (s.posted (.post_data p data) = none ∧ s.next (.post_data p data) = s) ∨
    ∃ key val th, s.posted (.post_data p data) = some (key, val) ∧
      (s.next (.post_data p data)).threads = s.threads ++ [th] ∧
      (th = .request_post p key val ∨
        th = .broadcast_post ⟨p, key, val, none, s.writes.length⟩) := by
  rw [next_post_data, posted]
  obtain ⟨r, h⟩ | ⟨key, val, r, -, h⟩ | ⟨key, val, r, -, h⟩ := post_data_cases (s.server p) data
  · rw [h]
    exact .inl ⟨rfl, setServer_self s p⟩
  · rw [h]
    exact .inr ⟨key, val, _, rfl, rfl, .inl rfl⟩
  · rw [h]
    exact .inr ⟨key, val, _, rfl, rfl, .inr rfl⟩

theorem Steady.step (h : Steady cfg s) (he : s.enabled e) (hg : s.Undisturbed e) :
    Steady cfg (s.next e) where
  live p := by
    rcases live_next s e p with hsame | rfl | rfl
    · rw [hsame]; exact h.live p
    · cases hg
    · cases hg
  globals p := by
    rcases server_next s e p with hsame | rfl | ⟨_, rfl⟩
    · exact (h.globals p).trans hsame
    · cases hg
    · cases hg
  among th hth := by
    obtain ⟨p, data, rfl⟩ | ⟨old, new, hturn⟩ := post_data_or_turn hg
    · obtain ⟨-, hnext⟩ | ⟨key, val, th', -, hthreads, hth'⟩ := threads_post_data s p data
      · rw [hnext] at hth
        exact h.among th hth
      · rw [hthreads] at hth
        obtain hth | hth := List.mem_append.mp hth
        · exact h.among th hth
        · obtain rfl := List.mem_singleton.mp hth
          obtain rfl | rfl := hth'
          · exact (h.live p).mp he
          · exact (h.live p).mp he
    · rw [h.threads_turn he hg hturn] at hth
      obtain hth | hth := List.mem_append.mp hth
      · exact h.among th (List.mem_of_mem_erase hth)
      · exact h.among_turn he hturn hth

theorem steady_of_reach (h : (store cfg).Reach Undisturbed s) : Steady cfg s :=
  h.invariant (steady_init cfg) fun _ _ hs he hg => hs.step he hg

theorem Steady.work_next (h : Steady cfg s) (he : s.enabled e) (hw : s.Working e) :
    (s.next e).work cfg < s.work cfg := by
  obtain ⟨⟨old, new⟩, hturn⟩ := Option.isSome_iff_exists.mp hw.2
  have hlt := h.work_turn he hturn
  have hsum : old.work cfg + ((s.threads.erase old).map (Thread.work cfg)).sum = s.work cfg :=
    List.sum_map_erase _ (mem_of_turn he hturn)
  rw [work, h.threads_turn he hw.1 hturn, List.map_append, List.sum_append]
  omega

end System

variable [DecidableEq K] [DecidableEq V] [JsonValue K] [JsonValue V]

/-- **Settling.** In an undisturbed run, the threads come to an end after a bounded number of turns,
however these are chosen. -/
theorem settles {cfg : Config K V} {s s' : System K V} {h : List (System K V × Event K V)}
    (hs : (store cfg).Reach System.Undisturbed s)
    (hr : ((store cfg).startingAt s).Run System.Working h s') :
    h.length ≤ s.work cfg ∧ ((∀ e, s'.enabled e → ¬ s'.Working e) ↔ s'.threads = []) := by
  have hsteady := System.steady_of_reach hs
  obtain ⟨hsteady', hle⟩ := hr.length_le hsteady (m := System.work cfg) fun s e h he hw =>
    ⟨h.step he hw.1, h.work_next he hw⟩
  refine ⟨Nat.le_trans (Nat.le_add_right _ _) hle, fun hstuck => ?_, fun hnil e he hw => ?_⟩
  · refine List.eq_nil_iff_forall_not_mem.mpr fun th hth => ?_
    obtain ⟨e, he, hw, -⟩ := hsteady'.exists_turn hth
    exact hstuck e he hw
  · obtain ⟨⟨old, new⟩, hturn⟩ := Option.isSome_iff_exists.mp hw.2
    have hold := System.mem_of_turn he hturn
    rw [hnil] at hold
    cases hold

/-- The turns that a write through the follower takes. -/
def throughFollower : List (Event (Option Nat) (Option Nat)) :=
  [.request 1 (some 7) (some 1) 0, .serve 1 (some 7) (some 1) 0 true true,
    .loop (copy 7 1 (some 1) 0)] ++ delivering (copy 7 1 (some 1) 0) 0 [1] ++
  [.reply 1 (some 7) (some 1) 0, .skip (copy 7 1 (some 1) 0) 1 [], .finish (copy 7 1 (some 1) 0)]

/-- The system once a client has posted to the follower. -/
def postedToFollower : System (Option Nat) (Option Nat) :=
  (store twoServers).next (store twoServers).init (.post_data 1 (pair 7 1))

theorem settles_throughFollower :
    ∃ h s, ((store twoServers).startingAt postedToFollower).Run System.Working h s ∧
      s.threads = [] ∧ h.length ≤ 9 ∧ ∀ e, s.enabled e → ¬ s.Working e := by
  have hs : (store twoServers).Reach System.Undisturbed postedToFollower := .step .init rfl trivial
  have hwork : postedToFollower.work twoServers = 9 := by decide +kernel
  have hrun : (((store twoServers).startingAt postedToFollower).exec System.Working
      ((store twoServers).startingAt postedToFollower).init throughFollower).any
      (fun s => s.threads = []) = true := by
    decide +kernel
  obtain ⟨h, s, hr, hend⟩ :=
    TransitionSystem.exists_run_of_exec (T := (store twoServers).startingAt postedToFollower)
      (p := fun _ s => decide (s.threads = [])) hrun
  obtain ⟨hle, hstuck⟩ := settles hs hr
  rw [hwork] at hle
  have hnil : s.threads = [] := of_decide_eq_true hend
  exact ⟨h, s, hr, hnil, hle, hstuck.mpr hnil⟩

end Cs2510.Store
