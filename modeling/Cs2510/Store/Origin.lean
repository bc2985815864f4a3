import Cs2510.Store.Service

/-!
# Where the stored pairs come from

A pair travels from the client's request through the threads of several servers, and through whole
snapshots, before it is in a datastore. In a run in which only servers send `POST /data/leader`,
each pair that is stored or under way was submitted by a client before.
-/

namespace Cs2510.Store

variable {K V : Type}

/-- The pair a thread carries. -/
def Thread.pair : Thread K V → K × V
  | .broadcast_post b | .loop b _ | .posted b _ _ => (b.key, b.val)
  | .request_post _ key val | .requested _ key val _ _ | .replied _ key val _ => (key, val)

variable [DecidableEq K] [DecidableEq V] [JsonValue K] [JsonValue V]

/-- The request passes the check of `post_data` with the pair. -/
def Body.Submits (data : Body K V) (key : K) (val : V) : Prop :=
  data.key = some key ∧ data.value = some val ∧
    JsonValue.isNone key = false ∧ JsonValue.isNone val = false

instance (data : Body K V) (key : K) (val : V) : Decidable (data.Submits key val) :=
  inferInstanceAs (Decidable (_ ∧ _ ∧ _ ∧ _))

/-- The pair of the thread that `post_data` starts. -/
def Spawn.pair : Spawn K V → K × V
  | .broadcast_post key val _ | .request_post key val => (key, val)

omit [DecidableEq V] in
/-- `post_data` starts a thread for the pair it is given only. -/
theorem Server.submits_of_spawn {srv : Server K V} {data : Body K V} {th : Spawn K V}
    (h : (srv.post_data data).2.1 = some th) : data.Submits th.pair.1 th.pair.2 := by
  unfold post_data at h
  split at h
  · next key val hkey hval =>
    split at h
    · cases h
    next hnull =>
    rw [Bool.or_eq_true, not_or, Bool.not_eq_true, Bool.not_eq_true] at hnull
    split at h <;> (cases h; exact ⟨hkey, hval, hnull⟩)
  · cases h

namespace System

/-- A `request_post` is started by `post_data` only. -/
theorem request_post_next {s : System K V} {e : Event K V} {p : Port} {key : K} {val : V}
    (hth : .request_post p key val ∈ (s.next e).threads) : .request_post p key val ∈ s.threads ∨
      ∃ data, e = .post_data p data ∧
        ((s.server p).post_data data).2.1 = some (.request_post key val) := by
  have hstop : ∀ {s' : System K V} {old : Thread K V}, s'.threads = s.threads →
      .request_post p key val ∈ (s'.stop old).threads → .request_post p key val ∈ s.threads := by
    intro s' old hs hth
    rw [stop_threads, hs] at hth
    exact List.mem_of_mem_erase hth
  have hspawn : ∀ {s' : System K V} {new : Thread K V}, new ≠ .request_post p key val →
      .request_post p key val ∈ (s'.spawn new).threads →
      .request_post p key val ∈ s'.threads := by
    intro s' new hne hth
    rcases List.mem_append.mp hth with hth | hth
    · exact hth
    · exact absurd (List.mem_singleton.mp hth).symm hne
  have hmove : ∀ {s' : System K V} {old new : Thread K V}, s'.threads = s.threads →
      new ≠ .request_post p key val → .request_post p key val ∈ (s'.move old new).threads →
      .request_post p key val ∈ s.threads :=
    fun hs hne hth => hstop hs (hspawn hne hth)
  cases e with
  | post_data p' data =>
    rw [next_post_data] at hth
    obtain ⟨r, h⟩ | ⟨key', val', r, -, h⟩ | ⟨key', val', r, -, h⟩ :=
      post_data_cases (s.server p') data
    all_goals rw [h] at hth
    · exact .inl hth
    · rcases List.mem_append.mp hth with hth | hth
      · exact .inl hth
      · cases List.mem_singleton.mp hth
        exact .inr ⟨data, rfl, by rw [h]⟩
    · exact .inl (hspawn (by rintro ⟨⟩) hth)
  | leader_set p' data =>
    left
    rw [next_leader_set] at hth
    obtain ⟨r, h⟩ | ⟨key', val', skip, r, h⟩ := leader_set_cases (s.server p') data
    all_goals rw [h] at hth
    · exact hth
    · exact hspawn (by rintro ⟨⟩) hth
  | loop | skip | refused | post | request => exact .inl (hmove rfl (by rintro ⟨⟩) hth)
  | follower_set b q todo answered =>
    left
    simp only [next] at hth
    split at hth
    · exact hmove rfl (by rintro ⟨⟩) hth
    · exact hstop rfl hth
  | serve owner key' val' ldr waiting answered =>
    left
    -- the write's broadcast is spawned before the answer
    have hhandled : .request_post p key val ∈ (s.handled ldr ((s.server ldr).set key' val')
        (some (.broadcast_post key' val' (some owner)))).threads →
        .request_post p key val ∈ s.threads := hspawn (by rintro ⟨⟩)
    simp only [next, Server.leader_set] at hth
    split at hth
    · exact hhandled (List.mem_of_mem_erase (hspawn (by rintro ⟨⟩) hth))
    · exact hhandled (List.mem_of_mem_erase hth)
  | crash q =>
    left
    obtain ⟨old, hold, h⟩ := List.mem_filterMap.mp hth
    cases old <;> (simp only [Thread.afterCrash] at h; split at h <;> cases h)
    exact hold
  | leader_sync q =>
    left
    simp only [next] at hth
    split at hth
    · split at hth <;> exact hth
    · exact hth
  | sync_done q =>
    left
    simp only [next] at hth
    split at hth <;> exact hth
  | lost | finish | request_raised | request_refused | request_lost | reply =>
    exact .inl (hstop rfl hth)
  | _ => exact .inl hth

end System

namespace Service

/-- A client has submitted the pair with a `POST /data` that has passed the check. -/
def Submitted (h : History K V) (key : K) (val : V) : Prop :=
  ∃ s p data, (s, .store (.post_data p data)) ∈ h ∧ data.Submits key val

/-- No `POST /data/leader` comes from elsewhere than a server. -/
def FromServers (_ : Service K V) : Action K V → Prop
  | .store (.leader_set ..) => False
  | _ => True

instance (s : Service K V) (a : Action K V) : Decidable (s.FromServers a) :=
  match a with
  | .store (.leader_set ..) => .isFalse id
  | .store (.post_data ..) | .store (.loop ..) | .store (.skip ..) | .store (.refused ..)
  | .store (.post ..) | .store (.follower_set ..) | .store (.lost ..) | .store (.finish ..)
  | .store (.request_raised ..) | .store (.request_refused ..) | .store (.request ..)
  | .store (.serve ..) | .store (.request_lost ..) | .store (.reply ..) | .store (.crash ..)
  | .store (.start ..) | .store (.check_election ..) | .store (.leader_sync ..)
  | .store (.sync_done ..) | .store (.sync_lost ..)
  | .create .. | .count .. | .check_election .. | .step .. | .ask .. | .leader_sync ..
  | .install .. | .abandon .. => .isTrue trivial

/-- Each pair in a datastore, on its way in a thread or in a snapshot has been submitted. -/
structure Traced (h : History K V) (s : Service K V) : Prop where
  stored : ∀ p k v, (s.system.server p).datastore k = some v → Submitted h k v
  carried : ∀ th ∈ s.system.threads, Submitted h th.pair.1 th.pair.2
  snapshot : ∀ t p ldr datastore version, s.sync t p = .answered ldr datastore version →
    ∀ k v, datastore k = some v → Submitted h k v

variable {s : Service K V} {a : Action K V} {h : History K V}

omit [DecidableEq K] [DecidableEq V] in
theorem Submitted.append {key : K} {val : V} (hs : Submitted h key val) (h' : History K V) :
    Submitted (h ++ h') key val := by
  obtain ⟨s, p, data, hmem, hdata⟩ := hs
  exact ⟨s, p, data, List.mem_append_left _ hmem, hdata⟩

omit [DecidableEq V] in
/-- The write an action accepts has just been submitted, or is carried by a thread. -/
theorem submitted_of_accepted (htraced : Traced h s) (he : s.enabled a) (hg : s.FromServers a)
    {w : Write K V} (hacc : s.accepted a = some w) : Submitted (h ++ [(s, a)]) w.key w.val := by
  cases a with
  | store e =>
    cases e with
    | post_data p data =>
      simp only [accepted, System.accepted] at hacc
      split at hacc
      · next key val skip hspawn =>
        cases hacc
        exact ⟨s, p, data, List.mem_append_right _ List.mem_cons_self,
          Server.submits_of_spawn hspawn⟩
      · cases hacc
    | leader_set p data => exact hg.elim
    | request_refused owner key val => cases hacc; exact (htraced.carried _ he.2.1).append _
    | serve owner key val ldr waiting answered =>
      cases hacc; exact (htraced.carried _ he.2.1).append _
    | _ => cases hacc
  | _ => cases hacc

omit [DecidableEq V] in
theorem submitted_of_effect (htraced : Traced h s) (he : s.enabled a) (hg : s.FromServers a)
    {p : Port} {k : K} {v : V} {i : Nat} (heffect : s.effect a = some (p, k, v, i)) :
    Submitted (h ++ [(s, a)]) k v := by
  cases a with
  | store e =>
    rcases System.effect_source he.2 heffect with ⟨b, todo, hb, rfl, rfl, -⟩ | hreplied | ⟨hacc, -⟩
    · exact (htraced.carried _ hb).append _
    · exact (htraced.carried _ hreplied).append _
    · exact submitted_of_accepted htraced he hg hacc
  | _ => cases heffect

theorem submitted_of_started (htraced : Traced h s) (he : s.enabled a) (hg : s.FromServers a)
    {t : Election.Thread} {e : Event K V} (hev : a.event = some (t, e)) {th : Thread K V}
    (hth : th ∈ (s.next a).system.threads) (hstart : System.Starts (s.view t) e th) :
    Submitted (h ++ [(s, a)]) th.pair.1 th.pair.2 := by
  cases hstart with
  | request_post p key val =>
    rw [(shares_next hev).threads] at hth
    rcases System.request_post_next hth with hth | ⟨data, rfl, hspawn⟩
    · exact (htraced.carried _ hth).append _
    · cases a <;> cases hev
      exact ⟨s, p, data, List.mem_append_right _ List.mem_cons_self,
        Server.submits_of_spawn hspawn⟩
  | broadcast_post w skip_port hacc =>
    rw [accepted_view hev] at hacc
    exact submitted_of_accepted htraced he hg hacc
  | replied w owner hacc =>
    rw [accepted_view hev] at hacc
    exact submitted_of_accepted htraced he hg hacc

omit [DecidableEq K] [DecidableEq V] [JsonValue K] [JsonValue V] in
theorem pair_of_succeeds {s : System K V} {e : Event K V} {old th : Thread K V}
    (h : System.Succeeds s e old th) : th.pair = old.pair := by
  cases h <;> rfl

theorem Traced.step (htraced : Traced h s) (he : s.enabled a) (hg : s.FromServers a) :
    Traced (h ++ [(s, a)]) (s.next a) where
  stored p k v hstored := by
    obtain hsame | ⟨val, stamp, heffect, hval⟩ | ⟨-, hnone⟩ |
      ⟨t, ldr, ds, version, -, hsync, hds⟩ := datastore_next he p k
    · exact (htraced.stored p k v (hsame ▸ hstored)).append _
    · rw [hval] at hstored
      cases hstored
      exact submitted_of_effect htraced he hg heffect
    · rw [hnone] at hstored
      cases hstored
    · exact (htraced.snapshot t p ldr ds version hsync k v (hds ▸ hstored)).append _
  carried th hth := by
    rcases threads_next he hth with hold | ⟨t, e, hev, ⟨old, hold, hsucc⟩ | hstart⟩
    · exact (htraced.carried th hold).append _
    · rw [pair_of_succeeds hsucc]
      exact (htraced.carried old hold).append _
    · exact submitted_of_started htraced he hg hev hth hstart
  snapshot t p ldr ds version hsync k v hv := by
    rcases sync_next he hsync with hold | ⟨-, -, -, rfl⟩
    · exact (htraced.snapshot t p ldr ds version hold k v hv).append _
    · exact (htraced.stored ldr k v hv).append _

theorem traced_of_run (hr : (service K V).Run FromServers h s) : Traced h s := by
  apply hr.invariant (I := Traced)
  · constructor
    · intro p k v hv
      cases hv
    · intro th hth
      cases hth
    · intro t p ldr ds version hsync
      cases t <;> cases hsync
  · intro h s a _ htraced he hg
    exact htraced.step he hg

end Service

/-- **No value out of thin air.** Each pair in a datastore was submitted by a client before. -/
theorem submitted_of_stored {h : Service.History K V} {s : Service K V}
    (hr : (service K V).Run Service.FromServers h s) {p : Port} {k : K} {v : V}
    (hv : (s.system.server p).datastore k = some v) : Service.Submitted h k v :=
  (Service.traced_of_run hr).stored p k v hv

/-- A client's write comes back to server 1 with the leader's answer. -/
theorem submitted_of_stored_answered : ∃ h s, (service _ _).Run Service.FromServers h s ∧
    (s.system.server 1).datastore (some 7) = some (some 1) ∧
      Service.Submitted h (some 7) (some 1) := by
  have hrun : ((service _ _).exec Service.FromServers .init
      (twoStarted ++ forwarding ++ [.store (.reply 1 (some 7) (some 1) 0)])).any
        (fun s => (s.system.server 1).datastore (some 7) = some (some 1)) = true := by
    decide +kernel
  obtain ⟨h, s, hr, hw⟩ := TransitionSystem.exists_run_of_exec
    (p := fun _ (s : Service (Option Nat) (Option Nat)) =>
      (s.system.server 1).datastore (some 7) = some (some 1)) hrun
  have hv := of_decide_eq_true hw
  exact ⟨h, s, hr, hv, submitted_of_stored hr hv⟩

end Cs2510.Store
