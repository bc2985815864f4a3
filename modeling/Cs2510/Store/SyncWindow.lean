import Cs2510.Store.Service

/-!
# The window of a sync

Between the moment at which `leader_sync` produces a snapshot and the one at which
`sync_with_leader` installs it, the follower goes on applying updates. The snapshot replaces the
whole datastore: an update of this window survives exactly if it, or a later one of the window to
its key, writes the value that the leader had for the key already. The keys are strings, so that the
snapshot is what the leader has (`represents_sync_with_leader`).
-/

namespace Cs2510.Store

variable {K V : Type}

/-- The call of `sync_with_leader` that an action produces a snapshot for. -/
def Action.snapshot : Action K V → Option (Port × Election.Thread)
  | .leader_sync p t => some (p, t)
  | _ => none

theorem Action.eq_of_snapshot {a : Action K V} {p : Port} {t : Election.Thread}
    (h : a.snapshot = some (p, t)) : a = .leader_sync p t := by
  cases a <;> cases h
  rfl

instance (sync : Sync K V) (ldr : Port) : Decidable (sync = .asked ldr) :=
  match sync with
  | .asked ldr' => decidable_of_iff (ldr' = ldr) (by simp)
  | .idle | .answered .. => .isFalse (by rintro ⟨⟩)

namespace Service

/-- The state in which the last snapshot for a call of `sync_with_leader` was asked for, and what
has happened since. -/
def window (p : Port) (t : Election.Thread) (h : History K V) :
    Option (Service K V × History K V) :=
  h.foldl (fun w x =>
    if x.2.snapshot = some (p, t) then some (x.1, [])
    else w.map fun (s₀, since) => (s₀, since ++ [x])) none

theorem window_append (p : Port) (t : Election.Thread) (h : History K V)
    (x : Service K V × Action K V) : window p t (h ++ [x]) =
      if x.2.snapshot = some (p, t) then some (x.1, [])
      else (window p t h).map fun (s₀, since) => (s₀, since ++ [x]) := by
  rw [window, List.foldl_append]
  rfl

variable [DecidableEq K] [DecidableEq V] [JsonValue K] [JsonValue V]

/-- The update `i` to `k` was accepted by the leader and applied on `p` in the window. -/
def Late (since : History K V) (ldr p : Port) (k : K) (i : Nat) : Prop :=
  (∃ x ∈ since, ∃ w ∈ x.1.accepted x.2,
    w.key = k ∧ w.port = ldr ∧ x.1.system.writes.length = i) ∧
  ∃ x ∈ since, ∃ u ∈ x.1.effect x.2, u.1 = p ∧ u.2.1 = k ∧ u.2.2.2 = i

instance (since : History K V) (ldr p : Port) (k : K) (i : Nat) :
    Decidable (Late since ldr p k i) :=
  inferInstanceAs (Decidable ((∃ x ∈ since, _) ∧ ∃ x ∈ since, _))

/-- A datastore has for `k` the value of the update `i` or of a newer write. -/
def Reflects (s : Service K V) (datastore : K → Option V) (k : K) (i : Nat) : Prop :=
  ∃ j w, i ≤ j ∧ s.system.writes[j]? = some w ∧ w.key = k ∧ datastore k = some w.val

/-- The install loses no update that is newer than the snapshot. -/
def Keeps (h : History K V) (s : Service K V) (p : Port) (t : Election.Thread) : Prop :=
  ∀ s₀ since ldr, window p t h = some (s₀, since) → s₀.sync t p = .asked ldr →
    ∀ k i, Late since ldr p k i →
      s.Reflects ((s.next (.install p t)).system.server p).datastore k i

/-- From each such update on, itself included, a write is accepted in the window that gives the key
the value it had on the leader when the window opened. -/
def Repeated (h : History K V) (p : Port) (t : Election.Thread) : Prop :=
  ∀ s₀ since ldr, window p t h = some (s₀, since) → s₀.sync t p = .asked ldr →
    ∀ k i, Late since ldr p k i →
      ∃ x ∈ since, ∃ w ∈ x.1.accepted x.2, i ≤ x.1.system.writes.length ∧ w.key = k ∧
        (s₀.system.server ldr).datastore k = some w.val

variable {s s₀ : Service K V} {a : Action K V} {h since : History K V} {p ldr : Port}
  {t : Election.Thread}

/-! ## The window -/

/-- A snapshot under way is what the leader held when the window opened. -/
def Opened (h : History K V) (s : Service K V) : Prop :=
  ∀ p t ldr datastore version, s.sync t p = .answered ldr datastore version →
    ∃ s₀ since, window p t h = some (s₀, since) ∧ s₀.sync t p = .asked ldr ∧
      datastore = (s₀.system.server ldr).datastore

theorem Opened.step (ho : Opened h s) (he : s.enabled a) : Opened (h ++ [(s, a)]) (s.next a) := by
  intro p t ldr datastore version hsync
  rw [window_append]
  rcases sync_next he hsync with hold | ⟨rfl, hasked, -, hds⟩
  · obtain ⟨s₀, since, hw, hs₀⟩ := ho p t ldr datastore version hold
    have hne : a.snapshot ≠ some (p, t) := by
      intro heq
      obtain rfl := Action.eq_of_snapshot heq
      have hview : (s.view t).sync p = .answered ldr datastore version := hold
      simp [enabled, System.enabled, hview] at he
    rw [if_neg hne, hw]
    exact ⟨s₀, since ++ [(s, a)], rfl, hs₀⟩
  · exact ⟨s, [], if_pos rfl, hasked, hds⟩

theorem opened_of_run {G : Service K V → Action K V → Prop} (hr : (service K V).Run G h s) :
    Opened h s := by
  apply hr.invariant (I := Opened)
  · intro p t ldr datastore version hsync
    cases t <;> cases hsync
  · intro h s a _ ho he _
    exact ho.step he

/-! ## The install -/

theorem install_datastore {datastore : K → Option V} {version : K → Option Nat}
    (hsync : s.sync t p = .answered ldr datastore version) :
    ((s.next (.install p t)).system.server p).datastore = datastore := by
  have hview : (s.view t).sync p = .answered ldr datastore version := hsync
  rw [(shares_next (t := t) (e := .sync_done p) rfl).server]
  simp [System.next, hview, System.setServer, System.setSync]

/-! ## The writes of the window -/

/-- The writes of the history since the window opened are those accepted in it. -/
structure Written (s₀ : Service K V) (since : History K V) (s : Service K V) : Prop where
  le : s₀.system.writes.length ≤ s.system.writes.length
  since_le : ∀ x ∈ since, s₀.system.writes.length ≤ x.1.system.writes.length
  accepted : ∀ x ∈ since, ∀ w ∈ x.1.accepted x.2,
    s.system.writes[x.1.system.writes.length]? = some w
  writes : ∀ j w, s₀.system.writes.length ≤ j → s.system.writes[j]? = some w →
    ∃ x ∈ since, w ∈ x.1.accepted x.2 ∧ x.1.system.writes.length = j

/-- A write that an action accepts is the next one of the history. -/
theorem getElem?_writes_next (he : s.enabled a) {j : Nat} {w : Write K V} :
    (s.next a).system.writes[j]? = some w ↔
      s.system.writes[j]? = some w ∨ w ∈ s.accepted a ∧ s.system.writes.length = j := by
  rw [writes_next he, List.getElem?_append]
  split
  · next hj => exact ⟨.inl, fun hw => hw.resolve_right fun hw => absurd hw.2 (Nat.ne_of_gt hj)⟩
  · next hj =>
    have hnone : s.system.writes[j]? = none := List.getElem?_eq_none (Nat.le_of_not_lt hj)
    rw [hnone]
    cases s.accepted a with
    | none => simp
    | some w' =>
      rw [Option.toList_some, List.getElem?_singleton, Option.mem_some_iff]
      have hiff : j - s.system.writes.length = 0 ↔ s.system.writes.length = j := by omega
      simp [hiff, and_comm]

theorem Written.step (hw : Written s₀ since s) (he : s.enabled a) :
    Written s₀ (since ++ [(s, a)]) (s.next a) where
  le := by
    have hle := hw.le
    rw [writes_next he, List.length_append]
    omega
  since_le x hx := by
    rcases List.mem_append.mp hx with hx | hx
    · exact hw.since_le x hx
    · obtain rfl := List.mem_singleton.mp hx
      exact hw.le
  accepted x hx w hacc := by
    rw [getElem?_writes_next he]
    rcases List.mem_append.mp hx with hx | hx
    · exact .inl (hw.accepted x hx w hacc)
    · obtain rfl := List.mem_singleton.mp hx
      exact .inr ⟨hacc, rfl⟩
  writes j w hj hget := by
    rcases (getElem?_writes_next he).mp hget with hold | hnew
    · obtain ⟨x, hx, hrest⟩ := hw.writes j w hj hold
      exact ⟨x, List.mem_append_left _ hx, hrest⟩
    · exact ⟨(s, a), List.mem_append_right _ List.mem_cons_self, hnew⟩

omit [DecidableEq V] in
/-- At the start of a window the history has no later write. -/
theorem written_nil {s' : Service K V} (hwrites : s'.system.writes = s.system.writes) :
    Written s [] s' where
  le := Nat.le_of_eq (congrArg List.length hwrites.symm)
  since_le := by simp
  accepted := by simp
  writes j w hj hget := by
    rw [hwrites] at hget
    exact absurd (List.getElem?_eq_some_iff.mp hget).1 (Nat.not_lt_of_le hj)

theorem written_of_run {G : Service K V → Action K V → Prop} (hr : (service K V).Run G h s) :
    ∀ s₀ since, window p t h = some (s₀, since) → Written s₀ since s := by
  apply hr.invariant (I := fun h s => ∀ s₀ since, window p t h = some (s₀, since) →
    Written s₀ since s)
  · intro s₀ since hw
    cases hw
  · intro h s a _ ih he _ s₀ since hw
    rw [window_append] at hw
    split at hw
    · next hopen =>
      cases hw
      obtain rfl := Action.eq_of_snapshot hopen
      have hclosed : s.enabled (.leader_sync p t) := he
      exact written_nil ((writes_next hclosed).trans (List.append_nil _))
    · obtain ⟨⟨s₁, since₁⟩, hw₁, heq⟩ := Option.map_eq_some_iff.mp hw
      cases heq
      exact (ih _ since₁ hw₁).step he

omit [DecidableEq V] in
/-- A datastore has the value of an update of the window, or of a newer write, exactly if such a
write is accepted in the window. -/
theorem Written.reflects_iff (hw : Written s₀ since s) {datastore : K → Option V} {k : K} {i : Nat}
    (hlate : Late since ldr p k i) : s.Reflects datastore k i ↔
      ∃ x ∈ since, ∃ w ∈ x.1.accepted x.2, i ≤ x.1.system.writes.length ∧ w.key = k ∧
        datastore k = some w.val := by
  constructor
  · rintro ⟨j, w, hij, hget, hkey, hval⟩
    obtain ⟨⟨y, hy, -, -, -, -, rfl⟩, -⟩ := hlate
    obtain ⟨x, hx, hacc, rfl⟩ := hw.writes j w (Nat.le_trans (hw.since_le y hy) hij) hget
    exact ⟨x, hx, w, hacc, hij, hkey, hval⟩
  · rintro ⟨x, hx, w, hacc, hij, hkey, hval⟩
    exact ⟨_, w, hij, hw.accepted x hx w hacc, hkey, hval⟩

end Service

/-- **What an install loses.** In every run, the install of a snapshot keeps the updates newer than
the snapshot exactly if from each of them on the value that the snapshot has is written again. -/
theorem Service.keeps_iff_repeated {V : Type} [DecidableEq V] [JsonValue V] {h : History String V}
    {s : Service String V} {p : Port} {t : Election.Thread}
    (hr : (service String V).Run (fun _ _ => True) h s) (he : s.enabled (.install p t)) :
    s.Keeps h p t ↔ Repeated h p t := by
  obtain ⟨ldr, datastore, version, hsync⟩ := answered_of_enabled he
  obtain ⟨s₀, since, hw, hasked, rfl⟩ := opened_of_run hr p t ldr datastore version hsync
  have hwritten := written_of_run hr s₀ since hw
  have hinstalled := install_datastore hsync
  constructor
  · intro hkeeps s₀' since' ldr' hw' hasked' k i hlate
    have hreflects := hkeeps s₀' since' ldr' hw' hasked' k i hlate
    rw [hw] at hw'
    cases hw'
    rw [hasked] at hasked'
    cases hasked'
    rw [hinstalled] at hreflects
    exact (hwritten.reflects_iff hlate).mp hreflects
  · intro hrepeated s₀' since' ldr' hw' hasked' k i hlate
    have hreflects := hrepeated s₀' since' ldr' hw' hasked' k i hlate
    rw [hw] at hw'
    cases hw'
    rw [hasked] at hasked'
    cases hasked'
    rw [hinstalled]
    exact (hwritten.reflects_iff hlate).mpr hreflects

/-- Servers 0 and 1 start; server 0 leads and knows both, and server 1 asks for its datastore. -/
def askingTheLeader : List (Action String (Option Nat)) :=
  starting 0 0 ++ starting 1 1 ++ polling 0 [(0, 0), (1, 1)] 11 ++ polling 1 [(0, 0), (1, 1)] 12 ++
    [.ask 1 .zk_init_election]

/-- A client's write is accepted by server 0 and broadcast to itself and to server 1. -/
def broadcasting (val stamp : Nat) : List (Action String (Option Nat)) :=
  let b := textCopy "x" val none stamp
  [.post_data 0 (textPair "x" val), .loop b, .post b 0 [1], .follower_set b 0 (some [1]) true,
    .post b 1 [], .follower_set b 1 (some []) true].map .store

/-- The client repeats its write after the snapshot has been produced. -/
def repeatedWrite : List (Action String (Option Nat)) :=
  askingTheLeader ++ broadcasting 1 0 ++ [.leader_sync 1 .zk_init_election] ++ broadcasting 1 1

/-- Server 1 has the repeated write still once it has installed the snapshot. -/
theorem keeps_iff_repeated_repeatedWrite : ∃ h s,
    (service String (Option Nat)).Run (fun _ _ => True) h s ∧
    s.enabled (.install 1 .zk_init_election) ∧ Service.Keeps h s 1 .zk_init_election := by
  have hrun : ((service _ _).exec (fun _ _ => True) .init repeatedWrite).any (fun s =>
      s.enabled (.install 1 .zk_init_election) ∧
      ∀ w ∈ Service.window 1 .zk_init_election ((service _ _).trace .init repeatedWrite),
        w.1.sync .zk_init_election 1 = .asked 0 ∧ ∀ x ∈ w.2, ∀ w' ∈ x.1.accepted x.2,
          (w.1.system.server 0).datastore w'.key = some w'.val) = true := by
    decide +kernel
  obtain ⟨h, s, hr, hw⟩ := TransitionSystem.exists_run_of_exec
    (p := fun h (s : Service String (Option Nat)) =>
      s.enabled (.install 1 .zk_init_election) ∧
      ∀ w ∈ Service.window 1 .zk_init_election h,
        w.1.sync .zk_init_election 1 = .asked 0 ∧ ∀ x ∈ w.2, ∀ w' ∈ x.1.accepted x.2,
          (w.1.system.server 0).datastore w'.key = some w'.val) hrun
  obtain ⟨he, hwindow⟩ := of_decide_eq_true hw
  refine ⟨h, s, hr, he, (Service.keeps_iff_repeated hr he).mpr ?_⟩
  rintro s₀ since ldr hw hasked k i ⟨⟨x, hx, w', hw', rfl, -, rfl⟩, -⟩
  obtain ⟨hzero, hsame⟩ := hwindow _ hw
  rw [hzero] at hasked
  cases hasked
  exact ⟨x, hx, w', hw', Nat.le_refl _, rfl, hsame x hx w' hw'⟩

/-- The client writes after the snapshot has been produced. -/
def writeInTheWindow : List (Action String (Option Nat)) :=
  askingTheLeader ++ [.leader_sync 1 .zk_init_election] ++ broadcasting 1 0

/-- Server 1 applies the write and then installs the older, empty, datastore. -/
theorem not_keeps : ¬ ∀ (h : Service.History String (Option Nat)) s p t,
    (service _ _).Run (fun _ _ => True) h s → s.enabled (.install p t) → s.Keeps h p t := by
  have hrun : ((service _ _).exec (fun _ _ => True) .init writeInTheWindow).any (fun s =>
      s.enabled (.install 1 .zk_init_election) ∧
      ((s.next (.install 1 .zk_init_election)).system.server 1).datastore "x" = none ∧
      ∃ w ∈ Service.window 1 .zk_init_election ((service _ _).trace .init writeInTheWindow),
        w.1.sync .zk_init_election 1 = .asked 0 ∧ Service.Late w.2 0 1 "x" 0) = true := by
    decide +kernel
  obtain ⟨h, s, hr, hw⟩ := TransitionSystem.exists_run_of_exec
    (p := fun h (s : Service String (Option Nat)) =>
      s.enabled (.install 1 .zk_init_election) ∧
      ((s.next (.install 1 .zk_init_election)).system.server 1).datastore "x" = none ∧
      ∃ w ∈ Service.window 1 .zk_init_election h,
        w.1.sync .zk_init_election 1 = .asked 0 ∧ Service.Late w.2 0 1 "x" 0) hrun
  obtain ⟨he, hnone, w, hwindow, hasked, hlate⟩ := of_decide_eq_true hw
  intro hall
  obtain ⟨j, w', -, -, -, hval⟩ :=
    hall h s 1 _ hr he w.1 w.2 0 hwindow hasked "x" 0 hlate
  rw [hnone] at hval
  cases hval

end Cs2510.Store
