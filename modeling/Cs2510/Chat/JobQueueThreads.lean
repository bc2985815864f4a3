import Mathlib.Data.Finset.Card
import Cs2510.Chat.JobQueue
import Cs2510.Lib.TransitionSystem

/-!
# Producers and consumers of the job queue

A critical section of `jobqueue_enqueue` or `jobqueue_dequeue` is one event: the mutex keeps the
others out until it is over. `pthread_cond_wait` ends one, and taking the mutex again begins
another. A producer creates its node before it takes the mutex.

`jobqueue_fifo` says that what has been dequeued and what the chain from `head` holds make up what
has been enqueued, and `no_lost_wakeup` that a consumer sleeps only if every item in the queue has a
consumer on its way. Both rest on one invariant of the reachable states, `Jobs.Inv`.
-/

namespace Cs2510.Chat
open LinkedNodes

/-- The queue and its threads. -/
structure Jobs (ι τ α : Type) where
  heap : Heap ι (Node ι α)
  jq : JobQueue ι
  /-- the nodes of producers that have yet to take the mutex, with their data -/
  created : List (ι × α)
  /-- the consumers in `pthread_cond_wait` that have not been woken -/
  asleep : Finset τ
  /-- the consumers that have been woken and have yet to take the mutex again -/
  woken : Finset τ
  /-- history, in the order of the critical sections -/
  enqueued : List α
  dequeued : List α
  /-- a thread has dereferenced NULL or a node that is not live -/
  faulted : Bool

/-- An event carries what the environment chooses: the allocation `malloc` returns, and the sleeper
that `pthread_cond_signal` wakes. -/
inductive JobEvent (ι τ α : Type)
  | create (n : ι) (data : α)
  | enqueue (n : ι) (data : α) (sleeper : Option τ)
  /-- a consumer calls `jobqueue_dequeue` -/
  | dequeue (t : τ)
  /-- a wake-up that nobody has caused -/
  | wake (t : τ)
  /-- a consumer that has been woken takes the mutex -/
  | retake (t : τ)

namespace Jobs

variable {ι τ α : Type}

def init (h : Heap ι (Node ι α)) (broadcast : Bool) : Jobs ι τ α where
  heap := h
  jq := .create_jobqueue broadcast
  created := []
  asleep := ∅
  woken := ∅
  enqueued := []
  dequeued := []
  faulted := false

def enabled (s : Jobs ι τ α) : JobEvent ι τ α → Prop
  | .create n _ => s.heap n = .unborn
  | .enqueue n data sleeper => (n, data) ∈ s.created ∧
    if s.jq.broadcast then sleeper = none
    else (sleeper = none → s.asleep = ∅) ∧ ∀ t ∈ sleeper, t ∈ s.asleep
  | .dequeue t => t ∉ s.asleep ∧ t ∉ s.woken
  | .wake t => t ∈ s.asleep
  | .retake t => t ∈ s.woken

variable [DecidableEq ι] [DecidableEq τ]

/-- `pthread_cond_broadcast`, or `pthread_cond_signal` with the sleeper it wakes, if any. -/
def notify (s : Jobs ι τ α) (sleeper : Option τ) : Jobs ι τ α :=
  if s.jq.broadcast then { s with asleep := ∅, woken := s.woken ∪ s.asleep }
  else
    match sleeper with
    | some t => { s with asleep := s.asleep.erase t, woken := insert t s.woken }
    | none => s

/-- A consumer that has the mutex, at the test of the loop. -/
def take (s : Jobs ι τ α) (t : τ) : Jobs ι τ α :=
  if s.jq.jobqueue_is_empty then { s with asleep := insert t s.asleep }
  else
    match JobQueue.jobqueue_dequeue s.heap s.jq with
    | some (heap, jq, val) => { s with heap, jq, dequeued := s.dequeued ++ [val] }
    | none => { s with faulted := true }

def next (s : Jobs ι τ α) : JobEvent ι τ α → Jobs ι τ α
  | .create n data =>
    { s with
      heap := s.heap.put n (.live (JobQueue.create_node data))
      created := (n, data) :: s.created }
  | .enqueue n data sleeper =>
    match JobQueue.jobqueue_enqueue s.heap s.jq n with
    | some (heap, jq) =>
      { s with
        heap, jq
        created := s.created.filter fun z => z.1 ≠ n
        enqueued := s.enqueued ++ [data] }.notify sleeper
    | none => { s with faulted := true }
  | .dequeue t => s.take t
  | .wake t => { s with asleep := s.asleep.erase t, woken := insert t s.woken }
  | .retake t => { s with woken := s.woken.erase t }.take t

end Jobs

/-- A queue that has been created in a heap, and any number of producers and consumers. -/
def jobqueue {ι τ α : Type} [DecidableEq ι] [DecidableEq τ] (h : Heap ι (Node ι α))
    (broadcast : Bool) : TransitionSystem (Jobs ι τ α) (JobEvent ι τ α) where
  init := .init h broadcast
  enabled := Jobs.enabled
  next := Jobs.next

namespace Jobs

variable {ι τ α : Type} {s : Jobs ι τ α} {before : Option ι} {c : List (ι × α)}

/-! ## The invariant -/

/-- The queue holds the nodes `c`. -/
structure Queue (s : Jobs ι τ α) (before : Option ι) (c : List (ι × α)) : Prop where
  holds : s.jq.Holds s.heap before c
  created : ∀ z ∈ s.created, s.heap z.1 = .live (JobQueue.create_node z.2)
  distinct : (addrs s.created).Nodup
  apart : ∀ z ∈ s.created, z.1 ∉ addrs c
  history : s.dequeued ++ c.map Prod.snd = s.enqueued
  ok : s.faulted = false

/-- There is a consumer on its way for every one of `items`, if any consumer sleeps. -/
structure Awake (s : Jobs ι τ α) (items : Nat) : Prop where
  disjoint : Disjoint s.asleep s.woken
  enough : s.asleep.Nonempty → items ≤ s.woken.card

def Inv (s : Jobs ι τ α) : Prop := ∃ before c, s.Queue before c ∧ s.Awake c.length

theorem inv_init (h : Heap ι (Node ι α)) (broadcast : Bool) :
    (init h broadcast : Jobs ι τ α).Inv := by
  refine ⟨none, [], ⟨⟨trivial, List.nodup_nil, rfl, nofun⟩, nofun, List.nodup_nil, nofun, rfl, rfl⟩,
    Finset.disjoint_empty_left _, fun _ => Nat.zero_le _⟩

theorem Queue.of_same {s' : Jobs ι τ α} (hq : s.Queue before c) (hheap : s'.heap = s.heap)
    (hjq : s'.jq = s.jq) (hcreated : s'.created = s.created) (henq : s'.enqueued = s.enqueued)
    (hdeq : s'.dequeued = s.dequeued) (hok : s'.faulted = s.faulted) : s'.Queue before c := by
  obtain ⟨h₁, h₂, h₃, h₄, h₅, h₆⟩ := hq
  constructor
  · rwa [hheap, hjq]
  · rwa [hheap, hcreated]
  · rwa [hcreated]
  · rwa [hcreated]
  · rwa [henq, hdeq]
  · rwa [hok]

theorem Awake.mono {m n : Nat} (ha : s.Awake n) (hle : m ≤ n) : s.Awake m :=
  ⟨ha.disjoint, fun hne => Nat.le_trans hle (ha.enough hne)⟩

variable [DecidableEq ι] [DecidableEq τ]

/-! ### The queue -/

omit [DecidableEq ι] in
theorem Queue.notify (hq : s.Queue before c) (sleeper : Option τ) :
    (s.notify sleeper).Queue before c := by
  unfold Jobs.notify
  split
  · exact hq.of_same rfl rfl rfl rfl rfl rfl
  · cases sleeper with
    | none => exact hq
    | some t => exact hq.of_same rfl rfl rfl rfl rfl rfl

theorem Queue.create (hq : s.Queue before c) {n : ι} {data : α} (hn : s.heap n = .unborn) :
    (s.next (.create n data)).Queue before c := by
  have hdead : ∀ {m : ι} {v : Node ι α}, s.heap m = .live v → m ≠ n := by
    rintro m v hlive rfl
    rw [hn] at hlive
    cases hlive
  have hfresh : n ∉ addrs c := by
    intro hmem
    obtain ⟨_, hlive⟩ := hq.holds.seg.live hmem
    exact hdead hlive rfl
  refine ⟨hq.holds.congr fun b hb => Heap.put_of_ne (by rintro rfl; exact hfresh hb), ?_, ?_, ?_,
    hq.history, hq.ok⟩
  · intro z hz
    cases hz with
    | head => exact Heap.put_self
    | tail _ hz => exact (Heap.put_of_ne (hdead (hq.created z hz))).trans (hq.created z hz)
  · refine List.nodup_cons.mpr ⟨fun hmem => ?_, hq.distinct⟩
    obtain ⟨z, hz, rfl⟩ := List.mem_map.mp hmem
    exact hdead (hq.created z hz) rfl
  · intro z hz
    cases hz with
    | head => exact hfresh
    | tail _ hz => exact hq.apart z hz

theorem Queue.enqueue (hq : s.Queue before c) {n : ι} {data : α} (hn : (n, data) ∈ s.created)
    (sleeper : Option τ) : ∃ s₁ : Jobs ι τ α, s.next (.enqueue n data sleeper) = s₁.notify sleeper ∧
      s₁.Queue (if c = [] then none else before) (c ++ [(n, data)]) ∧ s₁.asleep = s.asleep ∧
      s₁.woken = s.woken ∧ s₁.jq.broadcast = s.jq.broadcast := by
  obtain ⟨h', jq', heq, hholds, hbroadcast, helse⟩ :=
    hq.holds.enqueue (hq.created _ hn) (hq.apart _ hn)
  refine ⟨{ s with
    heap := h', jq := jq'
    created := s.created.filter fun z => z.1 ≠ n
    enqueued := s.enqueued ++ [data] }, by simp only [next, heq], ⟨hholds, ?_, ?_, ?_, ?_, hq.ok⟩,
    rfl, rfl, hbroadcast⟩
  · intro z hz
    obtain ⟨hz, hne⟩ := List.mem_filter.mp hz
    rw [← hq.created z hz]
    refine helse z.1 ?_
    simpa using ⟨hq.apart z hz, of_decide_eq_true hne⟩
  · exact hq.distinct.sublist (List.filter_sublist.map _)
  · intro z hz
    obtain ⟨hz, hne⟩ := List.mem_filter.mp hz
    simpa using ⟨hq.apart z hz, of_decide_eq_true hne⟩
  · rw [List.map_append, ← List.append_assoc, hq.history]
    rfl

/-- A consumer that finds the queue empty sleeps, and one that does not gets the first item. -/
theorem Queue.take (hq : s.Queue before c) (t : τ) :
    (c = [] ∧ s.take t = { s with asleep := insert t s.asleep }) ∨
    ∃ z c', c = z :: c' ∧ (s.take t).Queue (some z.1) c' ∧ (s.take t).asleep = s.asleep ∧
      (s.take t).woken = s.woken := by
  unfold Jobs.take
  cases c with
  | nil => exact .inl ⟨rfl, if_pos (hq.holds.is_empty.mpr rfl)⟩
  | cons z c =>
    have hne : ¬s.jq.jobqueue_is_empty = true := by
      rw [hq.holds.is_empty]
      exact List.cons_ne_nil _ _
    obtain ⟨h', jq', heq, hholds, -, -, helse⟩ := hq.holds.dequeue
    rw [if_neg hne, heq]
    refine .inr ⟨z, c, rfl, ⟨hholds, fun y hy => ?_, hq.distinct, fun y hy hmem => ?_, ?_, hq.ok⟩,
      rfl, rfl⟩
    · rw [← hq.created y hy]
      refine helse y.1 ?_
      rintro hy₁
      exact hq.apart y hy (hy₁ ▸ List.mem_cons_self)
    · exact hq.apart y hy (List.mem_cons_of_mem _ hmem)
    · rw [← hq.history, List.append_assoc]
      rfl

/-! ### The sleepers -/

omit [DecidableEq ι] in
theorem Awake.wake {n : Nat} (ha : s.Awake n) {t : τ} (ht : t ∈ s.asleep) :
    ({ s with asleep := s.asleep.erase t, woken := insert t s.woken } : Jobs ι τ α).Awake
      (n + 1) := by
  have hnew : t ∉ s.woken := Finset.disjoint_left.mp ha.disjoint ht
  constructor
  · rw [Finset.disjoint_insert_right]
    exact ⟨Finset.notMem_erase t _, Finset.disjoint_of_subset_left (Finset.erase_subset _ _)
      ha.disjoint⟩
  · intro _
    have hle := ha.enough ⟨t, ht⟩
    simp only [Finset.card_insert_of_notMem hnew]
    omega

omit [DecidableEq ι] in
/-- An item comes in, and a sleeper is woken for it. -/
theorem Awake.notify {n : Nat} (ha : s.Awake n) {sleeper : Option τ}
    (hs : if s.jq.broadcast then sleeper = none
      else (sleeper = none → s.asleep = ∅) ∧ ∀ t ∈ sleeper, t ∈ s.asleep) :
    (s.notify sleeper).Awake (n + 1) := by
  unfold Jobs.notify
  split
  · exact ⟨Finset.disjoint_empty_left _, fun hne => absurd hne Finset.not_nonempty_empty⟩
  · next hb =>
    rw [if_neg hb] at hs
    cases sleeper with
    | some t => exact ha.wake (hs.2 t rfl)
    | none =>
      refine ⟨ha.disjoint, fun hne => ?_⟩
      rw [hs.1 rfl] at hne
      exact absurd hne Finset.not_nonempty_empty

/-- A consumer with the mutex takes an item, or sleeps if there is none. -/
theorem Inv.take (hq : s.Queue before c) (hdisjoint : Disjoint s.asleep s.woken) {t : τ}
    (ht : t ∉ s.woken) (henough : s.asleep.Nonempty → c.length ≤ s.woken.card + 1) :
    (s.take t).Inv := by
  rcases hq.take t with ⟨rfl, heq⟩ | ⟨z, c', rfl, hq', hasleep, hwoken⟩
  · rw [heq]
    refine ⟨before, [], hq.of_same rfl rfl rfl rfl rfl rfl, ?_, fun _ => Nat.zero_le _⟩
    rw [Finset.disjoint_insert_left]
    exact ⟨ht, hdisjoint⟩
  · refine ⟨_, c', hq', ?_, ?_⟩
    · rwa [hasleep, hwoken]
    · rw [hasleep, hwoken]
      exact fun hne => Nat.le_of_succ_le_succ (henough hne)

/-! ### All events -/

theorem Inv.next (hi : s.Inv) {e : JobEvent ι τ α} (he : s.enabled e) : (s.next e).Inv := by
  obtain ⟨before, c, hq, ha⟩ := hi
  cases e with
  | create n data => exact ⟨before, c, hq.create he, ha.disjoint, ha.enough⟩
  | enqueue n data sleeper =>
    obtain ⟨s₁, heq, hq₁, hasleep, hwoken, hbroadcast⟩ := hq.enqueue he.1 sleeper
    rw [heq]
    refine ⟨_, _, hq₁.notify sleeper, ?_⟩
    rw [List.length_append]
    refine Awake.notify ⟨?_, ?_⟩ ?_
    · rw [hasleep, hwoken]
      exact ha.disjoint
    · rw [hasleep, hwoken]
      exact ha.enough
    · rw [hasleep, hbroadcast]
      exact he.2
  | dequeue t =>
    exact Inv.take hq ha.disjoint he.2 fun hne => Nat.le_succ_of_le (ha.enough hne)
  | wake t =>
    exact ⟨before, c, hq.of_same rfl rfl rfl rfl rfl rfl, (ha.wake he).mono (Nat.le_succ _)⟩
  | retake t =>
    refine Inv.take (s := { s with woken := s.woken.erase t })
      (hq.of_same rfl rfl rfl rfl rfl rfl) ?_ (Finset.notMem_erase t _) ?_
    · exact Finset.disjoint_of_subset_right (Finset.erase_subset _ _) ha.disjoint
    · intro hne
      rw [Finset.card_erase_add_one he]
      exact ha.enough hne

theorem inv_of_reachable {h : Heap ι (Node ι α)} {broadcast : Bool}
    (hr : (jobqueue h broadcast).Reachable s) : s.Inv :=
  hr.invariant (inv_init h broadcast) fun _ _ hi he _ => hi.next he

end Jobs

variable {ι τ α : Type} [DecidableEq ι] [DecidableEq τ]

/-- **The job queue is FIFO and loses nothing.** What has been dequeued is the front of what has
been enqueued, the chain from `head` holds the rest, and no critical section dereferences a node
that has been freed. -/
theorem jobqueue_fifo (h : Heap ι (Node ι α)) (broadcast : Bool) {s : Jobs ι τ α}
    (hr : (jobqueue h broadcast).Reachable s) :
    s.faulted = false ∧ s.dequeued <+: s.enqueued ∧
    (∃ c, Along s.heap Node.next s.jq.head c ∧ s.dequeued ++ c.map Prod.snd = s.enqueued) ∧
    ∀ e, s.enabled e → (s.next e).faulted = false := by
  have hinv := Jobs.inv_of_reachable hr
  have hok : ∀ e, s.enabled e → (s.next e).faulted = false := by
    intro e he
    obtain ⟨_, _, hq', -⟩ := hinv.next he
    exact hq'.ok
  obtain ⟨before, c, hq, -⟩ := hinv
  exact ⟨hq.ok, ⟨_, hq.history⟩, ⟨c, hq.holds.along, hq.history⟩, hok⟩

/-- **No wake-up is lost.** While a consumer sleeps, there are at most as many items as consumers
that have been woken and have yet to take the mutex again; so not every consumer sleeps when there
is an item. -/
theorem no_lost_wakeup (h : Heap ι (Node ι α)) (broadcast : Bool) {s : Jobs ι τ α}
    (hr : (jobqueue h broadcast).Reachable s) :
    (∃ c, Along s.heap Node.next s.jq.head c ∧
      (s.asleep.Nonempty → c.length ≤ s.woken.card)) ∧
    (s.jq.jobqueue_is_empty = false → s.asleep.Nonempty → s.woken.Nonempty) := by
  obtain ⟨before, c, hq, ha⟩ := Jobs.inv_of_reachable hr
  refine ⟨⟨c, hq.holds.along, ha.enough⟩, fun hitem hne => ?_⟩
  have hc : c ≠ [] := by
    intro hnil
    rw [hq.holds.is_empty.mpr hnil] at hitem
    cases hitem
  have hpos := List.length_pos_of_ne_nil hc
  exact Finset.card_pos.mp (Nat.lt_of_lt_of_le hpos (ha.enough hne))

instance (s : Jobs ι τ Nat) (e : JobEvent ι τ Nat) : Decidable (s.enabled e) :=
  match e with
  | .create .. => inferInstanceAs (Decidable (_ = _))
  | .enqueue .. => inferInstanceAs (Decidable (_ ∧ ite _ _ _))
  | .dequeue _ => inferInstanceAs (Decidable (_ ∧ _))
  | .wake t => inferInstanceAs (Decidable (t ∈ s.asleep))
  | .retake t => inferInstanceAs (Decidable (t ∈ s.woken))

instance (h : Heap ι (Node ι Nat)) (broadcast : Bool) (s : Jobs ι τ Nat) (e : JobEvent ι τ Nat) :
    Decidable ((jobqueue h broadcast).enabled s e) :=
  inferInstanceAs (Decidable (s.enabled e))

/-- Two consumers sleep and one is woken for each of two items, but a third takes the first. -/
def overtaken : List (JobEvent Nat Nat Nat) :=
  [.dequeue 0, .dequeue 1, .dequeue 2, .create 0 5, .create 1 6, .enqueue 1 6 (some 0),
    .enqueue 0 5 (some 1), .dequeue 3]

theorem jobqueue_fifo_overtaken : ∃ s : Jobs Nat Nat Nat,
    (jobqueue (fun _ => .unborn) false).Reachable s ∧ s.enqueued = [6, 5] ∧ s.dequeued = [6] ∧
    s.faulted = false ∧
    ∃ c, Along s.heap Node.next s.jq.head c ∧ s.dequeued ++ c.map Prod.snd = s.enqueued := by
  have hrun : ((jobqueue (fun _ => .unborn) false).exec (fun _ _ => True)
      (jobqueue (fun _ => .unborn) false).init overtaken).any
      (fun s => s.enqueued = [6, 5] ∧ s.dequeued = [6]) = true := by
    decide
  obtain ⟨s, hs, hend⟩ := TransitionSystem.exists_reach_of_exec hrun
  obtain ⟨henq, hdeq⟩ := of_decide_eq_true hend
  obtain ⟨hok, -, hchain, -⟩ := jobqueue_fifo _ _ hs
  exact ⟨s, hs, henq, hdeq, hok, hchain⟩

theorem no_lost_wakeup_overtaken : ∃ s : Jobs Nat Nat Nat,
    (jobqueue (fun _ => .unborn) false).Reachable s ∧ s.asleep = {2} ∧ s.woken = {0, 1} ∧
    ∃ c, Along s.heap Node.next s.jq.head c ∧ (s.asleep.Nonempty → c.length ≤ s.woken.card) := by
  have hrun : ((jobqueue (fun _ => .unborn) false).exec (fun _ _ => True)
      (jobqueue (fun _ => .unborn) false).init overtaken).any
      (fun s => s.asleep = {2} ∧ s.woken = {0, 1}) = true := by
    decide
  obtain ⟨s, hs, hend⟩ := TransitionSystem.exists_reach_of_exec hrun
  obtain ⟨hasleep, hwoken⟩ := of_decide_eq_true hend
  exact ⟨s, hs, hasleep, hwoken, (no_lost_wakeup _ _ hs).1⟩

end Cs2510.Chat
