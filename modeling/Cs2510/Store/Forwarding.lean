import Cs2510.Store.Service
import Mathlib.Data.List.Permutation

/-!
# What becomes of a forwarded write

A server that does not lead answers a `POST /data` at once and leaves the write to a `request_post`
thread. Only the sending of its request is guarded, so the thread can end with many outcomes
(`Ends`), and what has been stored by then differs. `kept_iff` says which outcomes keep the pair in
every run: those of a request that was refused, answered, or handled by a leader that is still
alive.

A request that an error status or an undecodable body answers is one that is lost (`request_lost`)
or, where the leader has handled it, one whose answer is lost.
-/

namespace Cs2510.Store

variable {K V : Type}

/-- The pair is in the datastore of a live server. -/
def System.Held (s : System K V) (key : K) (val : V) : Prop :=
  ∃ p, s.live p ∧ (s.server p).datastore key = some val

/-- A `request_post` of the pair that its server waits for. -/
def Thread.Forwards (owner : Port) (key : K) (val : V) : Thread K V → Prop
  | .request_post o k v | .replied o k v _ => o = owner ∧ k = key ∧ v = val
  | .requested o k v _ waiting => (o = owner ∧ k = key ∧ v = val) ∧ waiting = true
  | .broadcast_post _ | .loop .. | .posted .. => False

/-- The outcomes of the exchange of a `request_post`. -/
inductive Outcome
  /-- no leader is known yet -/
  | no_leader
  | refused
  /-- the request has not been handled -/
  | lost
  /-- the leader has handled the request and is alive, and the answer is lost -/
  | unread
  /-- the leader crashes before it has handled the request -/
  | crashed
  /-- the leader crashes after it has handled the request, before its answer -/
  | crashed_after
  | answered
  deriving DecidableEq, Repr

/-- The outcomes with which a live server stores the pair. -/
def Outcome.Stores : Outcome → Prop
  | .refused | .unread | .answered => True
  | .no_leader | .lost | .crashed | .crashed_after => False

namespace Service

/-- The thread is at work. -/
def Pending (s : Service K V) (owner : Port) (key : K) (val : V) : Prop :=
  ∃ th ∈ s.system.threads, th.Forwards owner key val

/-- The ways in which a `request_post` thread of `owner` ends, with the history since the `POST`. -/
inductive Ends (h : History K V) (s : Service K V) (owner : Port) (key : K) (val : V) :
    Outcome → Action K V → Prop
  | no_leader : Ends h s owner key val .no_leader (.store (.request_raised owner key val))
  | refused : Ends h s owner key val .refused (.store (.request_refused owner key val))
  | lost (ldr : Port) :
      Ends h s owner key val .lost (.store (.request_lost owner key val ldr true))
  | unread (ldr : Port) :
      Ends h s owner key val .unread (.store (.serve owner key val ldr true false))
  | crashed {ldr : Port} : .requested owner key val ldr true ∈ s.system.threads → owner ≠ ldr →
      Ends h s owner key val .crashed (.store (.crash ldr))
  | crashed_after {h₁ h₂ : History K V} {s₁ : Service K V} {ldr : Port} :
      h = h₁ ++ (s₁, .store (.serve owner key val ldr true false)) :: h₂ → owner ≠ ldr →
      (∀ x ∈ h₂, x.2 ≠ .store (.crash owner) ∧ x.2 ≠ .store (.crash ldr)) →
      Ends h s owner key val .crashed_after (.store (.crash ldr))
  | answered (stamp : Nat) :
      Ends h s owner key val .answered (.store (.reply owner key val stamp))

/-- The thread has ended, or its server has crashed. -/
def Ended (h : History K V) (owner : Port) (key : K) (val : V) : Prop :=
  ∃ h₁ s₁ a h₂, h = h₁ ++ (s₁, a) :: h₂ ∧
    ((∃ o, Ends h₁ s₁ owner key val o a) ∨ a = .store (.crash owner))

theorem Ended.mono {h : History K V} {owner : Port} {key : K} {val : V}
    (hended : Ended h owner key val) (x : Service K V × Action K V) :
    Ended (h ++ [x]) owner key val := by
  obtain ⟨h₁, s₁, a, h₂, rfl, hends⟩ := hended
  exact ⟨h₁, s₁, a, h₂ ++ [x], by simp, hends⟩

variable [DecidableEq K] [DecidableEq V] [JsonValue K] [JsonValue V]

/-- One of the writes from the stamp `n` on has put another value for the key into a datastore. -/
def Replaced (n : Nat) (h : History K V) (key : K) (val : V) : Prop :=
  ∃ x ∈ h, ∃ q val' stamp, x.1.effect x.2 = some (q, key, val', stamp) ∧ n ≤ stamp ∧ val' ≠ val

/-- The pair is stored, or a write from the stamp `n` on has replaced it. -/
def Kept (n : Nat) (h : History K V) (s : Service K V) (key : K) (val : V) : Prop :=
  s.system.Held key val ∨ Replaced n h key val

/-- A `POST /data` that `owner`, which does not lead, has answered with 200, the run up to it and
the run since. -/
structure Accepted (h₀ : History K V) (s₀ : Service K V) (h : History K V) (s : Service K V)
    (owner : Port) (key : K) (val : V) : Prop where
  run : ∃ port, (service K V).Run (fun _ _ => True)
    (h₀ ++ (s₀, .store (.post_data owner ⟨some key, some val, port⟩)) :: h) s
  key_ne_null : JsonValue.isNone key = false
  val_ne_null : JsonValue.isNone val = false
  follower : (s₀.system.server owner).leader = false

/-- In every run, a thread for the pair that ends with the outcome leaves it kept. -/
def LeavesKept (o : Outcome) (key : K) (val : V) : Prop :=
  ∀ (h₀ h : History K V) (s₀ s : Service K V) (owner : Port) (a : Action K V),
    Accepted h₀ s₀ h s owner key val → s.enabled a → Ends h s owner key val o a →
    Kept s₀.system.writes.length (h ++ [(s, a)]) (s.next a) key val

variable {h₀ h : History K V} {s₀ s : Service K V} {owner : Port} {key : K} {val : V}
  {a : Action K V}

/-! ## The life of the thread -/

omit [DecidableEq V] [JsonValue K] [JsonValue V] in
theorem pending_handled {system : System K V} {p : Port} {srv : Server K V}
    {thread : Option (Spawn K V)} {th : Thread K V} (hth : th ∈ system.threads) :
    th ∈ (system.handled p srv thread).threads := by
  obtain _ | _ | _ := thread
  · exact hth
  · exact List.mem_append_left _ hth
  · exact List.mem_append_left _ hth

/-- A step of the service leaves the thread at work, or ends it. -/
theorem Pending.next (hp : s.Pending owner key val) (he : s.enabled a) :
    (s.next a).Pending owner key val ∨ (∃ o, Ends h s owner key val o a) ∨
      a = .store (.crash owner) := by
  obtain ⟨th, hth, hf⟩ := hp
  have hsame : (s.next a).system.threads = s.system.threads →
      (s.next a).Pending owner key val := fun h => ⟨th, h ▸ hth, hf⟩
  have hmove : ∀ {s' : System K V} {old new : Thread K V}, th ≠ old →
      s'.threads = s.system.threads → ∃ th' ∈ (s'.move old new).threads,
        th'.Forwards owner key val := fun hne hs =>
    ⟨th, List.mem_append_left _ ((List.mem_erase_of_ne hne).mpr (hs ▸ hth)), hf⟩
  have hstop : ∀ {s' : System K V} {old : Thread K V}, th ≠ old →
      th ∈ s'.threads → ∃ th' ∈ (s'.stop old).threads, th'.Forwards owner key val :=
    fun hne hs => ⟨th, (List.mem_erase_of_ne hne).mpr hs, hf⟩
  cases a with
  | store e =>
    obtain ⟨hserving, he⟩ := he
    cases e with
    | post_data p data => exact .inl ⟨th, pending_handled hth, hf⟩
    | leader_set p data => exact .inl ⟨th, pending_handled hth, hf⟩
    | loop | skip | refused | post =>
      exact .inl (hmove (by rintro rfl; exact hf) rfl)
    | follower_set b p todo answered =>
      left
      have hne : th ≠ .posted b p todo := by rintro rfl; exact hf
      simp only [Pending, Service.next, System.next]
      split
      · exact hmove hne rfl
      · exact hstop hne hth
    | lost | finish => exact .inl (hstop (by rintro rfl; exact hf) hth)
    | request_raised o k v =>
      by_cases heq : th = .request_post o k v
      · subst heq
        obtain ⟨rfl, rfl, rfl⟩ := hf
        exact .inr (.inl ⟨_, .no_leader⟩)
      · exact .inl (hstop heq hth)
    | request_refused o k v =>
      by_cases heq : th = .request_post o k v
      · subst heq
        obtain ⟨rfl, rfl, rfl⟩ := hf
        exact .inr (.inl ⟨_, .refused⟩)
      · exact .inl (hstop heq hth)
    | request o k v ldr =>
      left
      by_cases heq : th = .request_post o k v
      · subst heq
        exact ⟨_, List.mem_append_right _ List.mem_cons_self, hf, rfl⟩
      · exact hmove heq rfl
    | serve o k v ldr waiting answered =>
      by_cases heq : th = .requested o k v ldr waiting
      · subst heq
        obtain ⟨⟨rfl, rfl, rfl⟩, rfl⟩ := hf
        cases answered with
        | false => exact .inr (.inl ⟨_, .unread ldr⟩)
        | true => exact .inl ⟨_, List.mem_append_right _ List.mem_cons_self, rfl, rfl, rfl⟩
      · left
        have hhandled : ∀ thread, th ∈ (s.system.handled ldr
            ((s.system.server ldr).set k v) thread).threads := fun _ => pending_handled hth
        simp only [Pending, Service.next, System.next, Server.leader_set]
        split
        · exact ⟨th, List.mem_append_left _ ((List.mem_erase_of_ne heq).mpr (hhandled _)), hf⟩
        · exact hstop heq (hhandled _)
    | request_lost o k v ldr waiting =>
      by_cases heq : th = .requested o k v ldr waiting
      · subst heq
        obtain ⟨⟨rfl, rfl, rfl⟩, rfl⟩ := hf
        exact .inr (.inl ⟨_, .lost ldr⟩)
      · exact .inl (hstop heq hth)
    | reply o k v stamp =>
      by_cases heq : th = .replied o k v stamp
      · subst heq
        obtain ⟨rfl, rfl, rfl⟩ := hf
        exact .inr (.inl ⟨_, .answered stamp⟩)
      · exact .inl (hstop heq hth)
    | crash p =>
      by_cases howner : owner = p
      · exact .inr (.inr (by rw [howner]))
      have hkeep : th.afterCrash p = some th → (s.next (.store (.crash p))).Pending owner key val :=
        fun h => ⟨th, List.mem_filterMap.mpr ⟨th, hth, h⟩, hf⟩
      cases th with
      | request_post o k v =>
        obtain ⟨rfl, rfl, rfl⟩ := hf
        exact .inl (hkeep (if_neg howner))
      | requested o k v ldr waiting =>
        obtain ⟨⟨rfl, rfl, rfl⟩, rfl⟩ := hf
        by_cases hldr : ldr = p
        · subst hldr
          exact .inr (.inl ⟨_, .crashed hth howner⟩)
        · exact .inl (hkeep (by simp [Thread.afterCrash, hldr, howner]))
      | replied o k v stamp =>
        obtain ⟨rfl, rfl, rfl⟩ := hf
        exact .inl (hkeep (if_neg howner))
      | broadcast_post | loop | posted => exact hf.elim
    | start p => exact .inl ⟨th, hth, hf⟩
    | check_election | leader_sync | sync_done | sync_lost => cases hserving
  | leader_sync p t =>
    refine .inl (hsame ((shares_next rfl).threads.trans ?_))
    simp only [System.next]
    split
    · split <;> rfl
    · rfl
  | install p t =>
    refine .inl (hsame ((shares_next rfl).threads.trans ?_))
    simp only [System.next]
    split <;> rfl
  | abandon p t => exact .inl (hsame ((shares_next rfl).threads.trans rfl))
  | create | count | check_election | step | ask => exact .inl (hsame (local_next rfl he).threads)

/-- An accepted pair has its thread, until the thread ends. -/
theorem Accepted.pending_or_ended (hacc : Accepted h₀ s₀ h s owner key val) :
    s.Pending owner key val ∨ Ended h owner key val := by
  obtain ⟨port, hr⟩ := hacc.run
  refine hr.invariant_from (I := fun h s => s.Pending owner key val ∨ Ended h owner key val)
    (fun _ _ => .inl ?_) fun h s a hi he _ => ?_
  · have hpost : ((s₀.system.server owner).post_data ⟨some key, some val, port⟩).2.1 =
        some (.request_post key val) := by
      simp [Server.post_data, hacc.key_ne_null, hacc.val_ne_null, hacc.follower]
    refine ⟨.request_post owner key val, ?_, rfl, rfl, rfl⟩
    change _ ∈ (s₀.system.next (.post_data owner ⟨some key, some val, port⟩)).threads
    rw [System.next_post_data, hpost]
    exact List.mem_append_right _ List.mem_cons_self
  · obtain hp | hended := hi
    · obtain hp | hends := hp.next (h := h) he
      · exact .inl hp
      · exact .inr ⟨h, s, a, [], rfl, hends⟩
    · exact .inr (hended.mono _)

/-- A run goes on. -/
theorem Accepted.step (hacc : Accepted h₀ s₀ h s owner key val) (he : s.enabled a) :
    Accepted h₀ s₀ (h ++ [(s, a)]) (s.next a) owner key val := by
  obtain ⟨⟨port, hr⟩, hkey, hval, hfollower⟩ := hacc
  refine ⟨⟨port, ?_⟩, hkey, hval, hfollower⟩
  have hstep := hr.step he trivial
  rwa [List.append_assoc, List.cons_append] at hstep

/-! ## What is stored at its end -/

/-- An outcome that stores the pair leaves it in a live server. -/
theorem Ends.held_of_stores {o : Outcome} (hends : Ends h s owner key val o a) (he : s.enabled a)
    (hstores : o.Stores) : (s.next a).system.Held key val := by
  have hgiven : ∀ (e : Event K V) {p : Port} {stamp : Nat},
      s.system.effect e = some (p, key, val, stamp) →
      ((s.system.next e).server p).datastore key = some val :=
    fun e _ _ heffect => congrArg Prod.fst (System.cell_of_effect heffect)
  cases hends with
  | refused =>
    obtain ⟨-, -, hlive, -⟩ := he
    exact ⟨owner, hlive, hgiven (.request_refused owner key val) (by rfl)⟩
  | unread ldr =>
    obtain ⟨-, -, hlive⟩ := he
    exact ⟨ldr, hlive, hgiven (.serve owner key val ldr true false) (by rfl)⟩
  | answered stamp =>
    obtain ⟨-, -, hlive⟩ := he
    exact ⟨owner, hlive, hgiven (.reply owner key val stamp) (by rfl)⟩
  | no_leader | lost | crashed | crashed_after => cases hstores

theorem leavesKept_of_stores {o : Outcome} (hstores : o.Stores) : LeavesKept o key val :=
  fun _ _ _ _ _ _ _ he hends => .inl (hends.held_of_stores he hstores)

omit [DecidableEq V] in
/-- Only the pair itself has been written, and no live server has it. -/
theorem not_kept_of {n : Nat} (hdatastore : ∀ p, s.system.live p = true →
      (s.system.server p).datastore key ≠ some val)
    (heffect : ∀ x ∈ h, ∀ u ∈ x.1.effect x.2, u.2.2.1 = val) : ¬Kept n h s key val := by
  rintro (⟨p, hlive, hval⟩ | ⟨x, hx, q, val', stamp, hu, -, hne⟩)
  · exact hdatastore p hlive hval
  · exact hne (heffect x hx _ hu)

/-! ## Runs of the other outcomes -/

/-- The `POST` of a pair to a server that does not lead. -/
theorem next_post_data (hkey : JsonValue.isNone key = false) (hval : JsonValue.isNone val = false)
    (hfollower : (s.system.server owner).leader = false) :
    s.next (.store (.post_data owner ⟨some key, some val, none⟩)) =
      { s with system := s.system.spawn (.request_post owner key val) } := by
  have hpost : (s.system.server owner).post_data ⟨some key, some val, none⟩ =
      (s.system.server owner, some (.request_post key val), .pair key val) := by
    simp [Server.post_data, hkey, hval, hfollower]
  have hnext : s.system.next (.post_data owner ⟨some key, some val, none⟩) =
      s.system.spawn (.request_post owner key val) := by
    rw [System.next_post_data, hpost, System.handled, System.setServer_self]
  exact congrArg (fun system => { s with system }) hnext

/-- After `h₀`, servers 0 and 1 are live, server 1 follows server 0, and nothing is stored. -/
structure Standing (h₀ : History K V) (s : Service K V) : Prop where
  run : (service K V).Run (fun _ _ => True) h₀ s
  live : s.system.live 1 = true
  follower : (s.system.server 1).leader = false
  leader_port : (s.system.server 1).leader_port = some 0
  leader_live : s.system.live 0 = true
  empty : ∀ p k, (s.system.server p).datastore k = none

theorem exists_standing : ∃ (h₀ : History K V) (s : Service K V), Standing h₀ s := by
  have hexec : (service K V).exec (fun _ _ => True) .init twoStarted =
      some (twoStarted.foldl Service.next .init) := by
    cbv
  have hrun := TransitionSystem.exec_run .init hexec
  refine ⟨_, _, hrun, by cbv, by cbv, by cbv, by cbv, fun p k => ?_⟩
  rcases p with _ | _ | p <;> cbv

/-- Server 1 has accepted the pair. -/
def posted (s : Service K V) (key : K) (val : V) : Service K V :=
  { s with system := s.system.spawn (.request_post 1 key val) }

/-- Its request has been sent. -/
def requested (s : Service K V) (key : K) (val : V) : Service K V :=
  (s.posted key val).next (.store (.request 1 key val 0))

omit [DecidableEq K] [DecidableEq V] [JsonValue K] [JsonValue V] in
theorem mem_posted (s : Service K V) (key : K) (val : V) :
    .request_post 1 key val ∈ (s.posted key val).system.threads :=
  List.mem_append_right _ List.mem_cons_self

theorem mem_requested (s : Service K V) (key : K) (val : V) :
    .requested 1 key val 0 true ∈ (s.requested key val).system.threads :=
  List.mem_append_right _ List.mem_cons_self

theorem Standing.accepted_posted (hs : Standing h₀ s) (hkey : JsonValue.isNone key = false)
    (hval : JsonValue.isNone val = false) : Accepted h₀ s [] (s.posted key val) 1 key val := by
  refine ⟨⟨none, ?_⟩, hkey, hval, hs.follower⟩
  rw [posted, ← next_post_data hkey hval hs.follower]
  exact hs.run.step ⟨rfl, hs.live⟩ trivial

theorem Standing.accepted_requested (hs : Standing h₀ s) (hkey : JsonValue.isNone key = false)
    (hval : JsonValue.isNone val = false) :
    Accepted h₀ s [(s.posted key val, .store (.request 1 key val 0))] (s.requested key val) 1
      key val :=
  (hs.accepted_posted hkey hval).step
    ⟨rfl, mem_posted s key val, hs.live, hs.leader_port, hs.leader_live⟩

theorem Standing.requested_datastore (hs : Standing h₀ s) (key : K) (val : V) (p : Port) :
    ((s.requested key val).system.server p).datastore key = none :=
  hs.empty p key

theorem not_leavesKept_no_leader (hkey : JsonValue.isNone key = false)
    (hval : JsonValue.isNone val = false) : ¬LeavesKept .no_leader key val := by
  intro hleaves
  let s₀ : Service K V := Service.init.next (.store (.start 0))
  let s₁ : Service K V := { s₀ with system := s₀.system.spawn (.request_post 0 key val) }
  have hacc : Accepted [(.init, .store (.start 0))] s₀ [] s₁ 0 key val := by
    refine ⟨⟨none, ?_⟩, hkey, hval, rfl⟩
    have hpost : s₀.next (.store (.post_data 0 ⟨some key, some val, none⟩)) = s₁ :=
      next_post_data hkey hval rfl
    have hr₀ : (service K V).Run (fun _ _ => True) [(.init, .store (.start 0))] s₀ :=
      .step (h := []) .init ⟨rfl, rfl⟩ trivial
    rw [← hpost]
    exact hr₀.step ⟨rfl, rfl⟩ trivial
  have he : s₁.enabled (.store (.request_raised 0 key val)) :=
    ⟨rfl, List.mem_cons_self, rfl, rfl⟩
  refine not_kept_of (fun p _ hp => ?_) ?_ (hleaves _ _ _ _ _ _ hacc he .no_leader)
  · have hnone : (s₁.system.server p).datastore key = none := by
      rcases p with _ | p <;> rfl
    cases hnone.symm.trans hp
  · simp [effect, System.effect]

theorem not_leavesKept_lost (hkey : JsonValue.isNone key = false)
    (hval : JsonValue.isNone val = false) : ¬LeavesKept .lost key val := by
  intro hleaves
  obtain ⟨h₀, s, hs⟩ := exists_standing (K := K) (V := V)
  have he : (s.requested key val).enabled (.store (.request_lost 1 key val 0 true)) :=
    ⟨rfl, mem_requested s key val⟩
  have hacc := hs.accepted_requested hkey hval
  refine not_kept_of (fun p _ hp => ?_) ?_ (hleaves _ _ _ _ _ _ hacc he (.lost 0))
  · cases (hs.requested_datastore key val p).symm.trans hp
  · simp [effect, System.effect]

theorem not_leavesKept_crashed (hkey : JsonValue.isNone key = false)
    (hval : JsonValue.isNone val = false) : ¬LeavesKept .crashed key val := by
  intro hleaves
  obtain ⟨h₀, s, hs⟩ := exists_standing (K := K) (V := V)
  have he : (s.requested key val).enabled (.store (.crash 0)) := ⟨rfl, hs.leader_live⟩
  have hacc := hs.accepted_requested hkey hval
  refine not_kept_of (fun p _ hp => ?_) ?_
    (hleaves _ _ _ _ _ _ hacc he (.crashed (mem_requested s key val) Nat.one_ne_zero))
  · cases (hs.requested_datastore key val p).symm.trans hp
  · simp [effect, System.effect]

theorem not_leavesKept_crashed_after (hkey : JsonValue.isNone key = false)
    (hval : JsonValue.isNone val = false) : ¬LeavesKept .crashed_after key val := by
  intro hleaves
  obtain ⟨h₀, s, hs⟩ := exists_standing (K := K) (V := V)
  let serve : Action K V := .store (.serve 1 key val 0 true false)
  have hserve : (s.requested key val).enabled serve :=
    ⟨rfl, mem_requested s key val, hs.leader_live⟩
  have hacc := (hs.accepted_requested hkey hval).step hserve
  have he : ((s.requested key val).next serve).enabled (.store (.crash 0)) :=
    ⟨rfl, hs.leader_live⟩
  refine not_kept_of (fun p hlive hp => ?_) ?_
    (hleaves _ _ _ _ _ _ hacc he (.crashed_after rfl Nat.one_ne_zero (by simp)))
  · -- server 0 has the pair, and has crashed
    have hother : p ≠ 0 → (((s.requested key val).next serve).next
        (.store (.crash 0))).system.server p = (s.requested key val).system.server p := fun hp => by
      change Function.update (s.requested key val).system.server 0 _ p = _
      exact Function.update_of_ne hp _ _
    by_cases hzero : p = 0
    · subst hzero
      simp [next, System.next] at hlive
    · rw [hother hzero, hs.requested_datastore] at hp
      cases hp
  · simp only [List.mem_append, List.mem_singleton]
    rintro x ((rfl | rfl) | rfl) u hu
    · cases hu
    · cases hu
      rfl
    · cases hu

/-- For every other outcome there is a run in which the pair is in no live server. -/
theorem not_leavesKept (hkey : JsonValue.isNone key = false)
    (hval : JsonValue.isNone val = false) {o : Outcome} (ho : ¬o.Stores) :
    ¬LeavesKept o key val := by
  cases o with
  | no_leader => exact not_leavesKept_no_leader hkey hval
  | lost => exact not_leavesKept_lost hkey hval
  | crashed => exact not_leavesKept_crashed hkey hval
  | crashed_after => exact not_leavesKept_crashed_after hkey hval
  | refused | unread | answered => exact absurd trivial ho

end Service

end Cs2510.Store
