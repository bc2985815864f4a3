import Cs2510.Store.ElectionStep
import Cs2510.Store.Service

/-!
# A sync that fails

`check_election` writes `leader_port` before it calls `sync_with_leader`, and nothing else records
whether the server has the data of that leader. A later call that names the same leader finds
`leader_port` unchanged and does not sync, so a `sync_with_leader` that returns without a snapshot
is not made up for (`not_retried`). `retried` says which runs go well: those in which no call that
is still needed fails, and no adoption of a leader goes unnoticed.
-/

namespace Cs2510.Store

variable {K V : Type}

/-- The call may still end with a snapshot of `q`, if `leader_port` is `q`. -/
def Sync.May (q : Port) : Sync K V → Prop
  | .idle => True
  | .asked ldr | .answered ldr .. => ldr = q

/-- The `check_election` that an action belongs to. -/
def Action.caller : Action K V → Option (Port × Election.Thread)
  | .check_election p t _ | .step p t _ | .ask p t | .leader_sync p t | .install p t
  | .abandon p t => some (p, t)
  | .store _ | .create .. | .count .. => none

def Action.installs : Action K V → Bool
  | .install .. => true
  | _ => false

namespace Service

/-- Server `p` has installed a snapshot of `q` since its `leader_port` has been `q`. -/
def Installed (s : Service K V) (h : History K V) (p q : Port) : Prop :=
  (s.system.server p).leader_port = some q ∧
  ∃ h₁ s₁ t h₂, h = h₁ ++ (s₁, .install p t) :: h₂ ∧
    (∃ datastore version, s₁.sync t p = .answered q datastore version) ∧
    ∀ x ∈ (s₁, .install p t) :: h₂, (x.1.system.server p).leader_port = some q

/-- A thread of `p` is about to sync with `q`. -/
def Syncing (s : Service K V) (p q : Port) (t : Election.Thread) : Prop :=
  (∃ old_leader_port, s.call p t = some (.changed old_leader_port) ∧ old_leader_port ≠ some q) ∨
  s.call p t = some .sync_with_leader ∧ (s.sync t p).May q

/-- Server `p` need not get a snapshot of `q` from its thread `t`. -/
def Spared (s : Service K V) (h : History K V) (p q : Port) (t : Election.Thread) : Prop :=
  (s.system.server p).leader = true ∨ q = (s.system.server p).port ∨
    s.Installed h p q ∨ ∃ t', t' ≠ t ∧ s.Syncing p q t'

/-- A call of `sync_with_leader` that is needed does not fail, and a port is not adopted unnoticed:
where it was `old_leader_port`, it still is `leader_port`. -/
def Completes (s : Service K V) (h : History K V) : Action K V → Prop
  | .step p t _ => ∀ ldr_port, s.call p t = some (.follow_port (some ldr_port) ldr_port) →
    (s.system.server p).leader_port = some ldr_port ∨ s.Spared h p ldr_port t
  | .leader_sync p t => ∀ ldr q, s.sync t p = .asked ldr → (s.system.server ldr).leader = false →
    (s.system.server p).leader_port = some q → s.Spared h p q t
  | .abandon p t => ∀ q, (s.system.server p).leader_port = some q → s.Spared h p q t
  | _ => True

/-- A follower that is in no `check_election` and whose `leader_port` is that of another live server
has installed a snapshot of it since, or would still sync with it. -/
def Retried (s : Service K V) (h : History K V) : Prop :=
  ∀ p q, s.system.live p → (s.system.server p).leader = false → (∀ t, s.call p t = none) →
    (s.system.server p).leader_port = some q → q ≠ (s.system.server p).port → s.system.live q →
    s.Installed h p q ∨ ∃ children, ((s.system.server p).check_election children).2 = some q

variable {h : History K V} {s : Service K V} {a : Action K V} {p q : Port} {t : Election.Thread}

/-! ## The places of the calls -/

theorem setCall_call_of_ne {p' : Port} {t' : Election.Thread} (c : Option Election.Call)
    (hne : some (p', t') ≠ some (p, t)) : (s.setCall p' t' c).call p t = s.call p t := by
  unfold setCall
  by_cases hp : p' = p
  · subst hp
    have ht : t ≠ t' := by
      rintro rfl
      exact hne rfl
    simp [ht]
  · simp [Ne.symm hp]

theorem put_call (s : Service K V) (t : Election.Thread) (system : System K V) :
    (s.put t system).call = s.call := by
  cases t <;> rfl

theorem returning_call_of_ne {p' : Port} {t' : Election.Thread}
    (hne : some (p', t') ≠ some (p, t)) : (s.returning p' t').call p t = s.call p t := by
  unfold returning
  split
  · exact setCall_call_of_ne _ hne
  · rfl

theorem after_call_of_ne {p' : Port} {t' : Election.Thread} (r : Server K V × Election.Outcome)
    (hne : some (p', t') ≠ some (p, t)) : (s.after p' t' r).call p t = s.call p t := by
  unfold after
  split <;> exact setCall_call_of_ne _ hne

theorem idle_of_isIdle {sync : Sync K V} (h : sync.isIdle = true) : sync = .idle := by
  cases sync with
  | idle => rfl
  | asked | answered => cases h

theorem idle_or_call_returning (s : Service K V) (p : Port) (t : Election.Thread) :
    (s.returning p t).sync t p = .idle ∨ (s.returning p t).call p t = s.call p t := by
  rw [returning_sync]
  unfold returning
  cases s.sync t p with
  | idle => exact .inl rfl
  | asked | answered => exact .inr rfl

/-! ## What the steps of others leave -/

variable [DecidableEq K] [DecidableEq V] [JsonValue K] [JsonValue V]

/-- A call goes on only by its own steps, and ends with its server. -/
theorem call_next_of_ne (hcaller : a.caller ≠ some (p, t)) (hcrash : a ≠ .store (.crash p)) :
    (s.next a).call p t = s.call p t := by
  cases a with
  | store e =>
    cases e with
    | crash p' =>
      have hp : p ≠ p' := by
        rintro rfl
        exact hcrash rfl
      simp [next, hp]
    | _ => rfl
  | create | count => rfl
  | check_election p' t' children => exact setCall_call_of_ne _ hcaller
  | step p' t' get =>
    simp only [next]
    split
    · exact after_call_of_ne _ hcaller
    · rfl
  | ask p' t' =>
    simp only [next]
    split
    · rw [put_call]
    · exact setCall_call_of_ne _ hcaller
  | leader_sync p' t' | install p' t' | abandon p' t' =>
    rw [next, returning_call_of_ne hcaller, put_call]

/-- The step of another call leaves a `sync_with_leader` as it is, or takes its leader away. -/
theorem sync_next_of_ne (he : s.enabled a) (hcaller : a.caller ≠ some (p, t)) :
    (s.next a).sync t p = s.sync t p ∨ (s.next a).sync t p = .idle := by
  obtain hsame | hidle | ⟨ldr, rfl, -⟩ | ⟨ldr, rfl, -⟩ := sync_cases he p t
  · exact .inl hsame
  · exact .inr hidle
  · exact absurd rfl hcaller
  · exact absurd rfl hcaller

/-- A thread that is about to sync stays so while others take steps. -/
theorem Syncing.next_of_ne (hp : s.Syncing p q t) (he : s.enabled a)
    (hcaller : a.caller ≠ some (p, t)) (hcrash : a ≠ .store (.crash p)) :
    (s.next a).Syncing p q t := by
  obtain ⟨old, hcall, hne⟩ | ⟨hcall, hmay⟩ := hp
  · exact .inl ⟨old, (call_next_of_ne hcaller hcrash).trans hcall, hne⟩
  · refine .inr ⟨(call_next_of_ne hcaller hcrash).trans hcall, ?_⟩
    obtain hsame | hidle := sync_next_of_ne (t := t) (p := p) he hcaller
    · rwa [hsame]
    · rw [hidle]
      trivial

/-! ## What its own steps do -/

/-- Only a `check_election` that has come to `sync_with_leader` has a request under way. -/
def SyncsInCall (s : Service K V) : Prop :=
  ∀ p t, s.sync t p ≠ .idle → s.call p t = some .sync_with_leader

theorem SyncsInCall.next (hs : s.SyncsInCall) (he : s.enabled a) : (s.next a).SyncsInCall := by
  intro p t hsync
  by_cases hcrash : a = .store (.crash p)
  · subst hcrash
    exfalso
    apply hsync
    cases t <;> simp [next, sync, System.next]
  by_cases hcaller : a.caller = some (p, t)
  · have hreturning : ∀ e : Event K V, s.call p t = some .sync_with_leader →
        ((s.put t ((s.view t).next e)).returning p t).sync t p ≠ .idle →
        ((s.put t ((s.view t).next e)).returning p t).call p t = some .sync_with_leader := by
      intro e hcall hsync
      obtain hidle | hkept := idle_or_call_returning (s.put t ((s.view t).next e)) p t
      · exact absurd hidle hsync
      · rw [hkept, put_call, hcall]
    cases a with
    | check_election p' t' children =>
      cases hcaller
      rw [next, setCall_sync] at hsync
      have hcall := hs p t hsync
      rw [he.2] at hcall
      cases hcall
    | step p' t' get =>
      cases hcaller
      rw [sync_next_step] at hsync
      exact absurd (hs p t hsync) he.2.2
    | ask p' t' =>
      cases hcaller
      obtain ⟨-, hcall, hidle⟩ := he
      simp only [next] at hsync ⊢
      split at hsync
      · rwa [put_call]
      · rw [setCall_sync] at hsync
        exact absurd (idle_of_isIdle hidle) hsync
    | leader_sync p' t' =>
      cases hcaller
      obtain ⟨ldr, hasked⟩ := asked_of_enabled he
      exact hreturning _ (hs p t (by rw [hasked]; rintro ⟨⟩)) hsync
    | install p' t' =>
      cases hcaller
      obtain ⟨ldr, datastore, version, hanswered⟩ := answered_of_enabled he
      exact hreturning _ (hs p t (by rw [hanswered]; rintro ⟨⟩)) hsync
    | abandon p' t' =>
      cases hcaller
      exact hreturning _ he.2 hsync
    | store | create | count => cases hcaller
  · rw [call_next_of_ne hcaller hcrash]
    obtain hsame | hidle := sync_next_of_ne (p := p) (t := t) he hcaller
    · exact hs p t (hsame ▸ hsync)
    · exact absurd hidle hsync

theorem syncsInCall_of_run (hr : (service K V).Run (fun _ _ => True) h s) : s.SyncsInCall := by
  apply hr.invariant (I := fun _ s => s.SyncsInCall)
  · intro p t hsync
    cases t <;> exact absurd rfl hsync
  · intro h s a _ hs he _
    exact hs.next he

/-- The ways in which a thread that is about to sync ends. -/
inductive Over (s : Service K V) (p q : Port) (t : Election.Thread) : Action K V → Prop
  | installed {datastore : K → Option V} {version : K → Option Nat}
      (hsync : s.sync t p = .answered q datastore version) : Over s p q t (.install p t)
  /-- 409 -/
  | refused (hsync : s.sync t p = .asked q) (hleader : (s.system.server q).leader = false) :
      Over s p q t (.leader_sync p t)
  | abandoned : Over s p q t (.abandon p t)

theorem step_changed (p : Port) (t : Election.Thread) (get : Path → Option Port)
    {old_leader_port : Option Port} (hcall : s.call p t = some (.changed old_leader_port))
    (hne : old_leader_port ≠ (s.system.server p).leader_port) :
    (s.next (.step p t get)).call p t = some .sync_with_leader := by
  simp [next, hcall, Election.Call.step, hne, after, setCall]

/-- A thread that is about to sync with the port its server follows stays so, until it is over. -/
theorem Syncing.next (hp : s.Syncing p q t) (hs : s.SyncsInCall) (he : s.enabled a)
    (hcrash : a ≠ .store (.crash p)) (hcaller : a.caller = some (p, t))
    (hldr : (s.system.server p).leader_port = some q) :
    (s.next a).Syncing p q t ∨ s.Over p q t a := by
  have hview : (s.view t).sync p = s.sync t p := rfl
  cases a with
  | store | create | count => cases hcaller
  | check_election p' t' children =>
    cases hcaller
    obtain ⟨old, hcall, -⟩ | ⟨hcall, -⟩ := hp
    · rw [he.2] at hcall
      cases hcall
    · rw [he.2] at hcall
      cases hcall
  | step p' t' get =>
    cases hcaller
    obtain ⟨old, hcall, hne⟩ | ⟨hcall, -⟩ := hp
    · left
      refine .inr ⟨step_changed p t get hcall (by rwa [hldr]), ?_⟩
      have hidle : s.sync t p = .idle := by
        by_contra hsync
        rw [hs p t hsync] at hcall
        cases hcall
      rw [sync_next_step, hidle]
      trivial
    · exact absurd hcall he.2.2
  | ask p' t' =>
    cases hcaller
    left
    refine .inr ⟨?_, ?_⟩
    · simp only [Service.next, hldr, put_call]
      exact he.2.1
    · simp only [Service.next, hldr, put_sync_self, System.setSync, Function.update_self]
      rfl
  | leader_sync p' t' =>
    cases hcaller
    obtain ⟨ldr, hasked⟩ := asked_of_enabled he
    have hcall := hs p t (by rw [hasked]; rintro ⟨⟩)
    obtain ⟨old, hchanged, -⟩ | ⟨-, hmay⟩ := hp
    · rw [hcall] at hchanged
      cases hchanged
    rw [hasked] at hmay
    obtain rfl : ldr = q := hmay
    cases hleader : (s.system.server ldr).leader with
    | false => exact .inr (.refused hasked hleader)
    | true =>
      left
      have hanswered : ((s.view t).next (.leader_sync p)).sync p = .answered ldr
          (s.system.server ldr).datastore (s.system.version ldr) := by
        have hvleader : ((s.view t).server ldr).leader = true := hleader
        simp only [System.next, hview, hasked, Server.leader_sync, hvleader, if_true,
          System.setSync, Function.update_self]
        rfl
      have hsync : (s.next (.leader_sync p t)).sync t p = .answered ldr
          (s.system.server ldr).datastore (s.system.version ldr) := by
        rw [Service.next, returning_sync, put_sync_self, hanswered]
      refine .inr ⟨?_, by rw [hsync]; rfl⟩
      obtain hidle | hkept :=
        idle_or_call_returning (s.put t ((s.view t).next (.leader_sync p))) p t
      · rw [returning_sync, put_sync_self, hanswered] at hidle
        cases hidle
      · rw [Service.next, hkept, put_call, hcall]
  | install p' t' =>
    cases hcaller
    obtain ⟨ldr, datastore, version, hanswered⟩ := answered_of_enabled he
    have hcall := hs p t (by rw [hanswered]; rintro ⟨⟩)
    obtain ⟨old, hchanged, -⟩ | ⟨-, hmay⟩ := hp
    · rw [hcall] at hchanged
      cases hchanged
    rw [hanswered] at hmay
    obtain rfl : ldr = q := hmay
    exact .inr (.installed hanswered)
  | abandon p' t' =>
    cases hcaller
    exact .inr .abandoned

/-! ## `leader_port` -/

/-- What `leader_port` means depends on nothing else. -/
structure SameLeader (srv srv' : Server K V) : Prop where
  leader : srv'.leader = srv.leader
  leader_port : srv'.leader_port = srv.leader_port
  port : srv'.port = srv.port

omit [DecidableEq K] [DecidableEq V] [JsonValue K] [JsonValue V] in
theorem sameLeader_setServer {system : System K V} {srv : Server K V} (p' : Port)
    (h : p' = p → SameLeader (system.server p) srv) :
    SameLeader (system.server p) ((system.setServer p' srv).server p) := by
  rw [System.setServer_server]
  split
  · next hp => exact h hp.symm
  · exact ⟨rfl, rfl, rfl⟩

/-- Only a start and the steps of its calls change whom a server follows. -/
theorem server_next (he : s.enabled a) (p : Port) :
    SameLeader (s.system.server p) ((s.next a).system.server p) ∨ a = .store (.start p) ∨
      ∃ t get, a = .step p t get := by
  cases hev : a.event with
  | some te =>
    obtain ⟨t, e⟩ := te
    rw [(shares_next hev).server]
    obtain ⟨datastore, h⟩ | rfl | ⟨children, rfl⟩ := System.server_eq_next (s.view t) e p
    · left
      rw [h]
      exact ⟨rfl, rfl, rfl⟩
    · exact .inr (.inl (event_eq_start hev))
    · cases a with
      | store e =>
        cases hev
        cases he.1
      | _ => cases hev
  | none =>
    cases a with
    | create p' path => exact .inl (sameLeader_setServer p' (by rintro rfl; exact ⟨rfl, rfl, rfl⟩))
    | count p' n => exact .inl (sameLeader_setServer p' (by rintro rfl; exact ⟨rfl, rfl, rfl⟩))
    | check_election p' t children => exact .inl ⟨rfl, rfl, rfl⟩
    | step p' t get =>
      by_cases hp : p' = p
      · exact .inr (.inr ⟨t, get, by rw [hp]⟩)
      · left
        simp only [next]
        split
        · unfold after
          split <;> exact sameLeader_setServer p' fun h => absurd h hp
        · exact ⟨rfl, rfl, rfl⟩
    | ask p' t =>
      left
      simp only [next]
      split
      · cases t <;> exact ⟨rfl, rfl, rfl⟩
      · exact ⟨rfl, rfl, rfl⟩
    | _ => cases hev

theorem server_step {get : Path → Option Port} {c : Election.Call} (hcall : s.call p t = some c) :
    (s.next (.step p t get)).system.server p = (c.step get .kept (s.system.server p)).1 := by
  simp only [next, hcall]
  obtain ⟨srv, outcome⟩ := c.step get .kept (s.system.server p)
  cases outcome <;> simp [after, System.setServer]

theorem live_next (he : s.enabled a) (hlive : (s.next a).system.live p = true) :
    s.system.live p = true ∨ a = .store (.start p) := by
  cases hev : a.event with
  | none =>
    rw [(local_next hev he).live] at hlive
    exact .inl hlive
  | some te =>
    obtain ⟨t, e⟩ := te
    rw [(shares_next hev).live] at hlive
    obtain hsame | rfl | rfl := System.live_next (s.view t) e p
    · exact .inl (hsame ▸ hlive)
    · simp [System.next] at hlive
    · exact .inr (event_eq_start hev)

/-! ## The invariant -/

/-- A follower has the data of its leader, or is about to ask for it. -/
def Follows (h : History K V) (s : Service K V) : Prop :=
  ∀ p q, s.system.live p → (s.system.server p).leader = false →
    (s.system.server p).leader_port = some q → q ≠ (s.system.server p).port →
    s.Installed h p q ∨ ∃ t, s.Syncing p q t

theorem Installed.next (hi : s.Installed h p q)
    (hldr : ((s.next a).system.server p).leader_port = some q) :
    (s.next a).Installed (h ++ [(s, a)]) p q := by
  obtain ⟨hnow, h₁, s₁, t, h₂, rfl, hsync, hkept⟩ := hi
  refine ⟨hldr, h₁, s₁, t, h₂ ++ [(s, a)], by simp, hsync, ?_⟩
  intro x hx
  rw [← List.cons_append] at hx
  obtain hx | hx := List.mem_append.mp hx
  · exact hkept x hx
  · obtain rfl := List.mem_singleton.mp hx
    exact hnow

/-- The thread `t` may fail: the snapshot is there, or another thread gets it. -/
theorem Spared.next (hspared : s.Spared h p q t) (he : s.enabled a)
    (hcaller : a.caller = some (p, t)) (hleader : (s.system.server p).leader = false)
    (hne : q ≠ (s.system.server p).port)
    (hldr : ((s.next a).system.server p).leader_port = some q) :
    (s.next a).Installed (h ++ [(s, a)]) p q ∨ ∃ t, (s.next a).Syncing p q t := by
  obtain hleads | hown | hi | ⟨t', ht, hp⟩ := hspared
  · rw [hleader] at hleads
    cases hleads
  · exact absurd hown hne
  · exact .inl (hi.next hldr)
  · refine .inr ⟨t', hp.next_of_ne he ?_ ?_⟩
    · rw [hcaller]
      rintro ⟨⟩
      exact ht rfl
    · rintro rfl
      cases hcaller

/-- A server that goes on following a port has its data or is about to ask for it. -/
theorem Follows.next_of_leader_port (hf : Follows h s) (hs : s.SyncsInCall) (he : s.enabled a)
    (hc : s.Completes h a) (hcrash : a ≠ .store (.crash p)) (hlive : s.system.live p = true)
    (hleader : (s.system.server p).leader = false) (hne : q ≠ (s.system.server p).port)
    (hnow : (s.system.server p).leader_port = some q)
    (hldr : ((s.next a).system.server p).leader_port = some q) :
    (s.next a).Installed (h ++ [(s, a)]) p q ∨ ∃ t, (s.next a).Syncing p q t := by
  obtain hi | ⟨t, hp⟩ := hf p q hlive hleader hnow hne
  · exact .inl (hi.next hldr)
  by_cases hcaller : a.caller = some (p, t)
  · obtain hp | hover := hp.next hs he hcrash hcaller hnow
    · exact .inr ⟨t, hp⟩
    cases hover with
    | @installed datastore version hsync =>
      refine .inl ⟨hldr, h, s, t, [], rfl, ⟨datastore, version, hsync⟩, ?_⟩
      intro x hx
      obtain rfl := List.mem_singleton.mp hx
      exact hnow
    | refused hsync hrefused => exact (hc q q hsync hrefused hnow).next he rfl hleader hne hldr
    | abandoned => exact (hc q hnow).next he rfl hleader hne hldr
  · exact .inr ⟨t, hp.next_of_ne he hcaller hcrash⟩

theorem Follows.next (hf : Follows h s) (hs : s.SyncsInCall) (he : s.enabled a)
    (hc : s.Completes h a) : Follows (h ++ [(s, a)]) (s.next a) := by
  intro p q hlive hleader hldr hne
  have hcrash : a ≠ .store (.crash p) := by
    rintro rfl
    simp [Service.next, System.next] at hlive
  have hstart : a ≠ .store (.start p) := by
    rintro rfl
    simp [Service.next, System.next, System.setServer, Server.start] at hldr
  have hup := (live_next he hlive).resolve_right hstart
  obtain hsame | heq | ⟨t, get, rfl⟩ := server_next he p
  · have hldr' := hldr
    rw [hsame.leader] at hleader
    rw [hsame.port] at hne
    rw [hsame.leader_port] at hldr'
    exact hf.next_of_leader_port hs he hc hcrash hup hleader hne hldr' hldr
  · exact absurd heq hstart
  obtain ⟨c, hcall⟩ := Option.isSome_iff_exists.mp he.2.1
  have hserver : ((s.next (.step p t get)).system.server p) =
      (c.step get .kept (s.system.server p)).1 := server_step hcall
  rw [hserver, Election.Call.step_port] at hne
  have hleader : (s.system.server p).leader = false := by
    rw [hserver] at hleader
    by_contra hleads
    rw [Election.Call.leader_of_step (eq_true_of_ne_false hleads)] at hleader
    cases hleader
  by_cases hnow : (s.system.server p).leader_port = some q
  · exact hf.next_of_leader_port hs he hc hcrash hup hleader hne hnow hldr
  have hldr' := hldr
  rw [hserver] at hldr'
  -- only the step that adopts `q` is left
  obtain hsame | hown | ⟨old, ldr, rfl, hstep⟩ :=
    Election.Call.step_leader_port get .kept (s.system.server p) c
  · exact absurd (hsame ▸ hldr') hnow
  · rw [hown] at hldr'
    exact absurd (Option.some.inj hldr').symm hne
  · rw [hstep] at hldr'
    cases hldr'
    by_cases hold : old = some q
    · subst hold
      obtain hsame | hspared := hc q hcall
      · exact absurd hsame hnow
      · exact hspared.next he rfl hleader hne hldr
    · refine .inr ⟨t, .inl ⟨old, ?_, hold⟩⟩
      simp [Service.next, hcall, Election.Call.step, after, setCall]

theorem follows_of_run (hr : (service K V).Run (fun _ _ => True) h s)
    (hsteps : TransitionSystem.Steps (fun h s a => s.Completes h a) h) : Follows h s := by
  apply hr.invariant_of_steps (I := Follows) ?_ ?_ hsteps
  · intro p q hlive
    cases hlive
  · intro h s a hr hf he _ hc
    exact hf.next (syncsInCall_of_run hr) he hc

/-- **A failed sync.** In a run in which no `sync_with_leader` fails that is still needed, and no
port is adopted unnoticed, every follower that is in no `check_election` has the snapshot of the
leader it has adopted. -/
theorem retried (hr : (service K V).Run (fun _ _ => True) h s)
    (hsteps : TransitionSystem.Steps (fun h s a => s.Completes h a) h) : s.Retried h := by
  intro p q hlive hleader hcall hldr hne _
  obtain hi | ⟨t, ⟨old, hchanged, -⟩ | ⟨hsyncing, -⟩⟩ := follows_of_run hr hsteps p q hlive hleader
    hldr hne
  · exact .inl hi
  · rw [hcall t] at hchanged
    cases hchanged
  · rw [hcall t] at hsyncing
    cases hsyncing

/-! ## Two servers -/

/-- Nobody fails: every leader asked leads, and every adopted port is new. -/
def Plain (s : Service K V) : Action K V → Bool
  | .step p t _ =>
    match s.call p t with
    | some (.follow_port old_leader_port ldr_port) => old_leader_port ≠ some ldr_port
    | _ => true
  | .leader_sync p t =>
    match s.sync t p with
    | .asked ldr => (s.system.server ldr).leader
    | _ => true
  | .abandon .. => false
  | _ => true

omit [DecidableEq K] [DecidableEq V] [JsonValue K] [JsonValue V] in
theorem completes_of_plain (h : History K V) (hplain : s.Plain a = true) : s.Completes h a := by
  cases a with
  | step p t get =>
    intro ldr_port hcall
    simp [Plain, hcall] at hplain
  | leader_sync p t =>
    intro ldr q hasked hleader
    simp [Plain, hasked, hleader] at hplain
  | abandon p t => cases hplain
  | _ => trivial

end Service

/-- Server 1 installs the snapshot of server 0, which it has adopted. -/
theorem retried_installed : ∃ (h : Service.History (Option Nat) (Option Nat)) (s : _),
    (service _ _).Run (fun _ _ => True) h s ∧ s.Retried h ∧ s.system.live 1 ∧ s.system.live 0 ∧
      (s.system.server 1).leader_port = some 0 := by
  have hrun : ((service (Option Nat) (Option Nat)).exec (fun s a => s.Plain a = true) .init
      twoStarted).any (fun s => s.system.live 1 ∧ s.system.live 0 ∧
        (s.system.server 1).leader_port = some 0) = true := by
    decide +kernel
  obtain ⟨h, s, hr, hs⟩ := TransitionSystem.exists_run_of_exec
    (p := fun _ (s : Service (Option Nat) (Option Nat)) => s.system.live 1 ∧ s.system.live 0 ∧
      (s.system.server 1).leader_port = some 0) hrun
  have hr' := hr.mono (H := fun _ _ => True) fun _ _ _ => trivial
  have hsteps := hr.steps (C := fun h s a => s.Completes h a) fun h s a hplain =>
    Service.completes_of_plain h hplain
  exact ⟨h, s, hr', Service.retried hr' hsteps, of_decide_eq_true hs⟩

/-- Server 1 adopts server 0 before that has made its own `check_election`, and is answered 409. -/
def refusedSync : List (Action (Option Nat) (Option Nat)) :=
  starting 0 0 ++ starting 1 1 ++ polling 1 [(0, 0), (1, 1)] 12 ++
    [.ask 1 .zk_init_election, .leader_sync 1 .zk_init_election]

/-- Nothing makes server 1 ask again. -/
theorem not_retried : ¬ ∀ (h : Service.History (Option Nat) (Option Nat)) s,
    (service _ _).Run (fun _ _ => True) h s → s.Retried h := by
  intro hall
  have hrun : ((service (Option Nat) (Option Nat)).exec (fun _ _ => True) .init refusedSync).any
      (fun s => (s.system.live 1 ∧ s.system.live 0 ∧ (s.system.server 1).leader = false ∧
        (s.system.server 1).port = 1 ∧ (s.system.server 1).leader_port = some 0) ∧
        s.call 1 .zk_init_election = none ∧ s.call 1 .election_watch = none ∧
        ∀ x ∈ (service (Option Nat) (Option Nat)).trace .init refusedSync,
          x.2.installs = false) = true := by
    decide +kernel
  obtain ⟨h, s, hr, hs⟩ := TransitionSystem.exists_run_of_exec
    (p := fun (h : Service.History (Option Nat) (Option Nat)) s =>
      (s.system.live 1 ∧ s.system.live 0 ∧ (s.system.server 1).leader = false ∧
        (s.system.server 1).port = 1 ∧ (s.system.server 1).leader_port = some 0) ∧
        s.call 1 .zk_init_election = none ∧ s.call 1 .election_watch = none ∧
        ∀ x ∈ h, x.2.installs = false) hrun
  obtain ⟨⟨hlive, hlive₀, hleader, hport, hldr⟩, hinit, hwatch, hnone⟩ := of_decide_eq_true hs
  have hcall : ∀ t, s.call 1 t = none := by
    intro t
    cases t
    · exact hinit
    · exact hwatch
  have hne : (0 : Port) ≠ (s.system.server 1).port := by rw [hport]; decide
  obtain ⟨-, h₁, s₁, t, h₂, rfl, -⟩ | ⟨children, hasks⟩ :=
    hall h s hr 1 0 hlive hleader hcall hldr hne hlive₀
  · have hinstalls := hnone (s₁, .install 1 t) (by simp)
    cases hinstalls
  · exact Server.leader_port_of_check_election hasks hldr

end Cs2510.Store
