import Cs2510.Lib.Run
import Cs2510.Store.Election
import Cs2510.Store.SystemStep

/-!
# The servers from their start on

A run of the service begins with no server alive. Both threads of a server call `check_election`,
step by step and side by side with the handlers, and each may be in a `sync_with_leader` of its own.
What ZooKeeper answers is left open: a call is handed any children, and `zk.get` finds any port in a
znode or none.
-/

namespace Cs2510.Store

/-- The events of `System` but those of `check_election`, whose threads are in `Service`. -/
def Event.serving {K V : Type} : Event K V → Bool
  | .check_election .. | .leader_sync _ | .sync_done _ | .sync_lost _ => false
  | _ => true

structure Service (K V : Type) where
  /-- with the `sync_with_leader` of `election_watch` -/
  system : System K V
  /-- the `sync_with_leader` of `zk_init_election` -/
  init_sync : Port → Sync K V
  /-- the `check_election` a thread is in -/
  call : Port → Election.Thread → Option Election.Call

inductive Action (K V : Type)
  /-- a handler, a step of a thread it has started, a crash or a start -/
  | store (e : Event K V)
  /-- `zk_path = zk.create(..)` -/
  | create (p : Port) (path : Path)
  /-- `num_children = len(children)` in `zk_init_election` -/
  | count (p : Port) (n : Nat)
  | check_election (p : Port) (t : Election.Thread) (children : List Path)
  /-- the next step of the call before its `sync_with_leader` -/
  | step (p : Port) (t : Election.Thread) (get : Path → Option Port)
  /-- `sync_with_leader` reads `leader_port` and sends its request -/
  | ask (p : Port) (t : Election.Thread)
  | leader_sync (p : Port) (t : Election.Thread)
  | install (p : Port) (t : Election.Thread)
  /-- `sync_with_leader` returns or raises without a snapshot -/
  | abandon (p : Port) (t : Election.Thread)

/-- The event of `System` that an action makes, in the view of a thread. -/
def Action.event {K V : Type} : Action K V → Option (Election.Thread × Event K V)
  | .store e => some (.election_watch, e)
  | .leader_sync p t => some (t, .leader_sync p)
  | .install p t => some (t, .sync_done p)
  | .abandon p t => some (t, .sync_lost p)
  | .create .. | .count .. | .check_election .. | .step .. | .ask .. => none

namespace Service

variable {K V : Type} [DecidableEq K] [DecidableEq V] [JsonValue K] [JsonValue V]

/-- The `sync_with_leader` of a thread. -/
def sync (s : Service K V) (t : Election.Thread) : Port → Sync K V :=
  match t with
  | .zk_init_election => s.init_sync
  | .election_watch => s.system.sync

/-- The system as a thread sees it, with its own `sync_with_leader`. -/
def view (s : Service K V) (t : Election.Thread) : System K V := { s.system with sync := s.sync t }

/-- A thread has made a step on its view. -/
def put (s : Service K V) (t : Election.Thread) (system : System K V) : Service K V :=
  match t with
  | .zk_init_election =>
    { s with system := { system with sync := s.system.sync }, init_sync := system.sync }
  | .election_watch => { s with system }

def setCall (s : Service K V) (p : Port) (t : Election.Thread) (call : Option Election.Call) :
    Service K V :=
  { s with call := Function.update s.call p (Function.update (s.call p) t call) }

/-- A call of `sync_with_leader` that is over ends its `check_election`. -/
def returning (s : Service K V) (p : Port) (t : Election.Thread) : Service K V :=
  if (s.sync t p).isIdle then s.setCall p t none else s

/-- The thread `t` has made a step of its `check_election`. -/
def after (s : Service K V) (p : Port) (t : Election.Thread) :
    Server K V × Election.Outcome → Service K V
  | (server, .goes_on call) =>
    { s.setCall p t (some call) with system := s.system.setServer p server }
  | (server, _) => { s.setCall p t none with system := s.system.setServer p server }

def enabled (s : Service K V) : Action K V → Prop
  | .store e => e.serving ∧ s.system.enabled e
  | .create p _ => s.system.live p ∧ (s.system.server p).zk_path = none
  | .count p _ => s.system.live p
  | .check_election p t _ => s.system.live p ∧ s.call p t = none
  | .step p t _ => s.system.live p ∧ (s.call p t).isSome ∧ s.call p t ≠ some .sync_with_leader
  | .ask p t => s.system.live p ∧ s.call p t = some .sync_with_leader ∧ (s.sync t p).isIdle
  | .leader_sync p t => (s.view t).enabled (.leader_sync p)
  | .install p t => (s.view t).enabled (.sync_done p)
  | .abandon p t => s.system.live p ∧ s.call p t = some .sync_with_leader

def next (s : Service K V) : Action K V → Service K V
  | .store (.crash p) =>
    { system := s.system.next (.crash p)
      init_sync := Function.update (fun q => (s.init_sync q).afterCrash p) p .idle
      call := Function.update s.call p fun _ => none }
  | .store e => { s with system := s.system.next e }
  | .create p path =>
    { s with system := s.system.setServer p { s.system.server p with zk_path := some path } }
  | .count p n =>
    { s with system := s.system.setServer p { s.system.server p with num_children := n } }
  | .check_election p t children => s.setCall p t (some (.test children))
  | .step p t get =>
    match s.call p t with
    | some c => s.after p t (c.step get .kept (s.system.server p))
    | none => s
  | .ask p t =>
    match (s.system.server p).leader_port with
    | some ldr => s.put t ((s.view t).setSync p (.asked ldr))
    -- `int(None)` raises
    | none => s.setCall p t none
  | .leader_sync p t => (s.put t ((s.view t).next (.leader_sync p))).returning p t
  | .install p t => (s.put t ((s.view t).next (.sync_done p))).returning p t
  | .abandon p t => (s.put t ((s.view t).next (.sync_lost p))).returning p t

instance (s : Service K V) (a : Action K V) : Decidable (s.enabled a) :=
  match a with
  | .store e => inferInstanceAs (Decidable (e.serving ∧ s.system.enabled e))
  | .create .. | .check_election .. | .step .. | .ask .. | .abandon .. =>
    inferInstanceAs (Decidable (_ ∧ _))
  | .count p _ => inferInstanceAs (Decidable (s.system.live p = true))
  | .leader_sync p t => inferInstanceAs (Decidable ((s.view t).enabled (.leader_sync p)))
  | .install p t => inferInstanceAs (Decidable ((s.view t).enabled (.sync_done p)))

/-- No server has been started. -/
def init : Service K V where
  system :=
    { live := fun _ => false
      server := .start
      threads := []
      sync := fun _ => .idle
      writes := []
      version := fun _ _ => none
      applied := []
      applied_before := []
      synced := fun _ => none }
  init_sync _ := .idle
  call _ _ := none

end Service

section

variable (K V : Type) [DecidableEq K] [DecidableEq V] [JsonValue K] [JsonValue V]

def service : TransitionSystem (Service K V) (Action K V) where
  init := .init
  enabled := Service.enabled
  next := Service.next

instance (s : Service K V) (a : Action K V) : Decidable ((service K V).enabled s a) :=
  inferInstanceAs (Decidable (s.enabled a))

/-- The history of a run of the service. -/
abbrev Service.History := List (Service K V × Action K V)

end

namespace Service

variable {K V : Type} {s : Service K V} {a : Action K V}

/-! ## Actions as events -/

section

variable (s) (p : Port) (t t' : Election.Thread) (c : Option Election.Call) (system : System K V)

@[simp] theorem setCall_sync : (s.setCall p t c).sync t' = s.sync t' := by cases t' <;> rfl

@[simp] theorem returning_system : (s.returning p t).system = s.system := by
  unfold returning; split <;> rfl
@[simp] theorem returning_sync : (s.returning p t).sync t' = s.sync t' := by
  unfold returning; split <;> simp
@[simp] theorem after_sync (r : Server K V × Election.Outcome) :
    (s.after p t r).sync t' = s.sync t' := by
  unfold after; split <;> cases t' <;> rfl

theorem put_sync_self : (s.put t system).sync t = system.sync := by cases t <;> rfl

end

theorem put_sync_of_ne {t t' : Election.Thread} {system : System K V} (h : t' ≠ t) :
    (s.put t system).sync t' = s.sync t' := by
  cases t <;> cases t' <;> first | rfl | exact absurd rfl h

/-- The parts of the system that all threads share. -/
structure Shares (s s' : System K V) : Prop where
  live : s'.live = s.live
  server : s'.server = s.server
  threads : s'.threads = s.threads
  writes : s'.writes = s.writes
  version : s'.version = s.version

theorem shares_put (s : Service K V) (t : Election.Thread) (system : System K V) :
    Shares system (s.put t system).system := by
  cases t <;> exact ⟨rfl, rfl, rfl, rfl, rfl⟩

theorem enabled_event {t : Election.Thread} {e : Event K V} (h : a.event = some (t, e))
    (he : s.enabled a) : (s.view t).enabled e := by
  cases a <;> cases h
  · exact he.2
  · exact he
  · exact he
  · exact he.1

theorem asked_of_enabled {p : Port} {t : Election.Thread} (he : s.enabled (.leader_sync p t)) :
    ∃ ldr, s.sync t p = .asked ldr := by
  have hview : (s.view t).sync p = s.sync t p := rfl
  cases hsync : s.sync t p with
  | asked ldr => exact ⟨ldr, rfl⟩
  | idle | answered => simp [enabled, System.enabled, hview, hsync] at he

theorem answered_of_enabled {p : Port} {t : Election.Thread} (he : s.enabled (.install p t)) :
    ∃ ldr datastore version, s.sync t p = .answered ldr datastore version := by
  have hview : (s.view t).sync p = s.sync t p := rfl
  cases hsync : s.sync t p with
  | answered ldr datastore version => exact ⟨ldr, datastore, version, rfl⟩
  | idle | asked => simp [enabled, System.enabled, hview, hsync] at he

theorem step_datastore {c : Election.Call} (hc : c ≠ .sync_with_leader) (get : Path → Option Port)
    (sync : Election.Sync K V) (srv : Server K V) :
    (c.step get sync srv).1.datastore = srv.datastore := by
  cases c with
  | loop old_leader_port children min_path =>
    cases children with
    | nil => rfl
    | cons c children => simp only [Election.Call.step]; split <;> rfl
  | follow old_leader_port min_path => simp only [Election.Call.step]; split <;> rfl
  | sync_with_leader => exact absurd rfl hc
  | _ => rfl

/-- The other actions change no datastore, and the globals of one server at most. -/
structure Local (s s' : System K V) : Prop where
  live : s'.live = s.live
  datastore : ∀ q, (s'.server q).datastore = (s.server q).datastore
  threads : s'.threads = s.threads
  writes : s'.writes = s.writes
  version : s'.version = s.version

theorem local_setServer {s : System K V} {p : Port} {srv : Server K V}
    (h : srv.datastore = (s.server p).datastore) : Local s (s.setServer p srv) := by
  refine ⟨rfl, fun q => ?_, rfl, rfl, rfl⟩
  rw [System.setServer_server]
  split
  · next hq => rw [hq, h]
  · rfl

theorem local_refl (s : System K V) : Local s s := ⟨rfl, fun _ => rfl, rfl, rfl, rfl⟩

theorem event_eq_start {t : Election.Thread} {q : Port} (h : a.event = some (t, .start q)) :
    a = .store (.start q) := by
  cases a <;> cases h; rfl

theorem event_eq_sync_done {t : Election.Thread} {q : Port} (he : s.enabled a)
    (h : a.event = some (t, .sync_done q)) : a = .install q t := by
  cases a with
  | store e => cases h; cases he.1
  | install p t => cases h; rfl
  | _ => cases h

/-! ## What an action does -/

variable [DecidableEq K] [DecidableEq V] [JsonValue K] [JsonValue V]

/-- The datastore an action changes, with the key, the value and the stamp. -/
def effect (s : Service K V) : Action K V → Option (Port × K × V × Nat)
  | .store e => s.system.effect e
  | _ => none

/-- The write an action adds to the history. -/
def accepted (s : Service K V) : Action K V → Option (Write K V)
  | .store e => s.system.accepted e
  | _ => none

/-- An action that is an event does to the shared parts what the event does in the thread's view. -/
theorem shares_next {t : Election.Thread} {e : Event K V} (h : a.event = some (t, e)) :
    Shares ((s.view t).next e) (s.next a).system := by
  cases a with
  | store e => cases h; cases e <;> exact ⟨rfl, rfl, rfl, rfl, rfl⟩
  | leader_sync p t =>
    cases h
    rw [next, returning_system]
    exact shares_put _ _ _
  | install p t =>
    cases h
    rw [next, returning_system]
    exact shares_put _ _ _
  | abandon p t =>
    cases h
    rw [next, returning_system]
    exact shares_put _ _ _
  | _ => cases h

theorem local_next (h : a.event = none) (he : s.enabled a) :
    Local s.system (s.next a).system := by
  cases a with
  | create p path => exact local_setServer rfl
  | count p n => exact local_setServer rfl
  | check_election p t children => exact local_refl _
  | step p t get =>
    obtain ⟨-, -, hsync⟩ := he
    rw [next]
    split
    · next c hc =>
      rw [hc] at hsync
      have hds := step_datastore (fun h => hsync (congrArg some h)) get .kept (s.system.server p)
      unfold after
      split
      all_goals
        next hstep =>
        rw [hstep] at hds
        exact local_setServer hds
    · exact local_refl _
  | ask p t =>
    rw [next]
    split
    · cases t <;> exact ⟨rfl, fun _ => rfl, rfl, rfl, rfl⟩
    · exact local_refl _
  | _ => cases h

omit [DecidableEq V] in
theorem accepted_view {t : Election.Thread} {e : Event K V} (h : a.event = some (t, e)) :
    (s.view t).accepted e = s.accepted a := by
  cases a <;> cases h <;> rfl

omit [DecidableEq V] in
theorem effect_view {t : Election.Thread} {e : Event K V} (h : a.event = some (t, e)) :
    (s.view t).effect e = s.effect a := by
  cases a <;> cases h <;> rfl

/-- What an action does to a key of a datastore. -/
theorem datastore_next (he : s.enabled a) (q : Port) (k : K) :
    ((s.next a).system.server q).datastore k = (s.system.server q).datastore k ∨
    (∃ val stamp, s.effect a = some (q, k, val, stamp) ∧
      ((s.next a).system.server q).datastore k = some val) ∨
    (a = .store (.start q) ∧ ((s.next a).system.server q).datastore k = none) ∨
    ∃ t ldr datastore version, a = .install q t ∧ s.sync t q = .answered ldr datastore version ∧
      ((s.next a).system.server q).datastore k = datastore k := by
  cases hev : a.event with
  | none => exact .inl (by rw [(local_next hev he).datastore q])
  | some te =>
    obtain ⟨t, e⟩ := te
    rw [(shares_next hev).server]
    obtain h | ⟨val, stamp, heffect, h⟩ | ⟨rfl, h⟩ | ⟨ldr, datastore, version, rfl, hsync, h⟩ :=
      System.cell_next (s.view t) e q k
    · exact .inl (congrArg Prod.fst h)
    · exact .inr (.inl ⟨val, stamp, by rw [← effect_view hev, heffect], congrArg Prod.fst h⟩)
    · exact .inr (.inr (.inl ⟨event_eq_start hev, congrArg Prod.fst h⟩))
    · exact .inr (.inr (.inr ⟨t, ldr, datastore, version, event_eq_sync_done he hev, hsync,
        congrArg Prod.fst h⟩))

theorem writes_next (he : s.enabled a) :
    (s.next a).system.writes = s.system.writes ++ (s.accepted a).toList := by
  cases hev : a.event with
  | none =>
    have hacc : s.accepted a = none := by cases a <;> first | rfl | cases hev
    rw [(local_next hev he).writes, hacc]
    exact (List.append_nil _).symm
  | some te =>
    obtain ⟨t, e⟩ := te
    rw [(shares_next hev).writes, System.writes_next, accepted_view hev]
    rfl

/-- Where the threads after an action come from. -/
theorem threads_next (he : s.enabled a) {th : Thread K V} (hth : th ∈ (s.next a).system.threads) :
    th ∈ s.system.threads ∨ ∃ t e, a.event = some (t, e) ∧
      ((∃ old ∈ s.system.threads, System.Succeeds (s.view t) e old th) ∨
        System.Starts (s.view t) e th) := by
  cases hev : a.event with
  | none =>
    rw [(local_next hev he).threads] at hth
    exact .inl hth
  | some te =>
    obtain ⟨t, e⟩ := te
    rw [(shares_next hev).threads] at hth
    exact (System.threads_next (enabled_event hev he) hth).imp_right fun h => ⟨t, e, rfl, h⟩

/-- A step of the `sync_with_leader` of a thread, seen from any of them. -/
theorem sync_put_cases (s : Service K V) (p p' : Port) (t t' : Election.Thread) {e : Event K V}
    (he : e = .leader_sync p' ∨ e = .sync_done p' ∨ e = .sync_lost p') :
    ((s.put t' ((s.view t').next e)).returning p' t').sync t p = s.sync t p ∨
    ((s.put t' ((s.view t').next e)).returning p' t').sync t p = .idle ∨
    (t' = t ∧ e = .leader_sync p ∧ ∃ ldr, s.sync t p = .asked ldr ∧
      (s.system.server ldr).leader ∧
      ((s.put t' ((s.view t').next e)).returning p' t').sync t p =
        .answered ldr (s.system.server ldr).datastore (s.system.version ldr)) := by
  rw [returning_sync]
  by_cases ht : t' = t
  · subst ht
    rw [put_sync_self]
    obtain hsame | hidle | ⟨_, _, rfl, -⟩ | ⟨ldr, heq, hasked, hleader, hsync⟩ :=
      System.sync_cases (s.view t') e p
    · exact .inl hsame
    · exact .inr (.inl hidle)
    · simp at he
    · exact .inr (.inr ⟨rfl, heq, ldr, hasked, hleader, hsync⟩)
  · exact .inl (congrFun (put_sync_of_ne (Ne.symm ht)) p)

theorem sync_next_step (s : Service K V) (p : Port) (t t' : Election.Thread)
    (get : Path → Option Port) : (s.next (.step p t get)).sync t' = s.sync t' := by
  simp only [next]
  split
  · exact after_sync ..
  · rfl

/-- What an action does to the `sync_with_leader` of a thread. -/
theorem sync_cases (he : s.enabled a) (p : Port) (t : Election.Thread) :
    (s.next a).sync t p = s.sync t p ∨ (s.next a).sync t p = .idle ∨
    (∃ ldr, a = .ask p t ∧ (s.system.server p).leader_port = some ldr ∧
      (s.next a).sync t p = .asked ldr) ∨
    (∃ ldr, a = .leader_sync p t ∧ s.sync t p = .asked ldr ∧ (s.system.server ldr).leader ∧
      (s.next a).sync t p =
        .answered ldr (s.system.server ldr).datastore (s.system.version ldr)) := by
  cases a with
  | store e =>
    obtain ⟨hserving, -⟩ := he
    cases t with
    | election_watch =>
      have hsystem : (s.next (.store e)).system.sync p = (s.system.next e).sync p := by
        cases e <;> rfl
      rw [sync, hsystem]
      obtain hsame | hidle | ⟨_, _, rfl, -⟩ | ⟨_, rfl, -⟩ := System.sync_cases s.system e p
      · exact .inl hsame
      · exact .inr (.inl hidle)
      · cases hserving
      · cases hserving
    | zk_init_election =>
      cases e with
      | crash q =>
        simp only [next, sync, Function.update_apply]
        split
        · exact .inr (.inl rfl)
        · cases s.init_sync p with
          | asked ldr =>
            simp only [Sync.afterCrash]
            split
            · exact .inr (.inl rfl)
            · exact .inl rfl
          | idle | answered => exact .inl rfl
      | _ => exact .inl rfl
  | create | count => left; cases t <;> rfl
  | check_election p' t' children => exact .inl (congrFun (setCall_sync ..) p)
  | step p' t' get => exact .inl (congrFun (sync_next_step ..) p)
  | ask p' t' =>
    simp only [next]
    split
    · next ldr hldr =>
      by_cases ht : t = t'
      · subst ht
        rw [put_sync_self]
        by_cases hp : p = p'
        · subst hp
          exact .inr (.inr (.inl ⟨ldr, rfl, hldr, Function.update_self ..⟩))
        · exact .inl (Function.update_of_ne hp _ _)
      · exact .inl (congrFun (put_sync_of_ne ht) p)
    · exact .inl (congrFun (setCall_sync ..) p)
  | leader_sync p' t' =>
    obtain hsame | hidle | ⟨rfl, heq, ldr, hanswered⟩ := s.sync_put_cases p p' t t' (.inl rfl)
    · exact .inl hsame
    · exact .inr (.inl hidle)
    · cases heq
      exact .inr (.inr (.inr ⟨ldr, rfl, hanswered⟩))
  | install p' t' =>
    obtain hsame | hidle | ⟨-, heq, -⟩ := s.sync_put_cases p p' t t' (.inr (.inl rfl))
    · exact .inl hsame
    · exact .inr (.inl hidle)
    · cases heq
  | abandon p' t' =>
    obtain hsame | hidle | ⟨-, heq, -⟩ := s.sync_put_cases p p' t t' (.inr (.inr rfl))
    · exact .inl hsame
    · exact .inr (.inl hidle)
    · cases heq

/-- A snapshot under way was so before the action, or is what the leader asked holds. -/
theorem sync_next (he : s.enabled a) {t : Election.Thread} {p ldr : Port}
    {datastore : K → Option V} {version : K → Option Nat}
    (h : (s.next a).sync t p = .answered ldr datastore version) :
    s.sync t p = .answered ldr datastore version ∨
    a = .leader_sync p t ∧ s.sync t p = .asked ldr ∧ (s.system.server ldr).leader ∧
      datastore = (s.system.server ldr).datastore := by
  obtain h' | h' | ⟨ldr', -, -, h'⟩ | ⟨ldr', rfl, hasked, hleader, h'⟩ := sync_cases he p t
  all_goals rw [h'] at h
  · exact .inl h
  · cases h
  · cases h
  · cases h
    exact .inr ⟨rfl, hasked, hleader, rfl⟩

end Service

/-! ## Two servers that start -/

/-- `zk_init_election` counts the given children and makes `n` steps of its `check_election`. -/
def polling {K V : Type} (p : Port) (children : List (Path × Port)) (n : Nat) :
    List (Action K V) :=
  [.count p children.length, .check_election p .zk_init_election (children.map Prod.fst)] ++
  List.replicate n (.step p .zk_init_election fun c =>
    (children.find? fun z => z.1 = c).map Prod.snd)

/-- Server `p` starts with the znode `path`. -/
def starting {K V : Type} (p : Port) (path : Path) : List (Action K V) :=
  [.store (.start p), .create p path]

/-- Server 0 starts and leads; server 1 starts and installs its empty datastore. -/
def twoStarted {K V : Type} : List (Action K V) :=
  starting 0 0 ++ polling 0 [(0, 0)] 9 ++ starting 1 1 ++ polling 1 [(0, 0), (1, 1)] 12 ++
    [.ask 1 .zk_init_election, .leader_sync 1 .zk_init_election, .install 1 .zk_init_election]

/-- Server 1 forwards a client's write to the port of server 0, which starts to broadcast it. -/
def forwarding : List (Action (Option Nat) (Option Nat)) :=
  [.store (.post_data 1 (pair 7 1)), .store (.request 1 (some 7) (some 1) 0),
    .store (.serve 1 (some 7) (some 1) 0 true true), .store (.loop (copy 7 1 (some 1) 0))]

end Cs2510.Store
