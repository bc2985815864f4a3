import Mathlib.Data.List.Infix
import Cs2510.Lib.LinkedNodes

/-!
# The job queue (`a1/jobqueue.c`)

The nodes of the queue are doubly linked, but nothing reads `prev`, and `tail` only while there are
nodes. `jobqueue_dequeue` restores neither: it leaves the `prev` of the new first node, or `tail`,
pointing to the node it has freed. So the queue is a chain along `next` whose first node points back
to anything (`JobQueue.Holds`), and a well-formed list only where no such pointer is left
(`links_restored_iff`).

The critical sections are the functions here; what the threads make of them is in
`Cs2510.Chat.JobQueueThreads`.
-/

namespace Cs2510.Chat
open LinkedNodes

/-- `struct jobqueue`, without its mutex and condition variable. -/
structure JobQueue (ι : Type) where
  head : Option ι
  tail : Option ι
  broadcast : Bool
  deriving DecidableEq, Repr

namespace JobQueue

variable {ι α : Type}

def create_jobqueue (broadcast : Bool) : JobQueue ι := ⟨none, none, broadcast⟩

/-- `__create_node` -/
def create_node (data : α) : Node ι α := ⟨none, none, data⟩

def jobqueue_is_empty (jq : JobQueue ι) : Bool := jq.head.isNone

section program

variable [DecidableEq ι] (h : Heap ι (Node ι α)) (jq : JobQueue ι)

/-- The links `jobqueue_enqueue` makes to the node it has created. -/
def jobqueue_enqueue (node : ι) : Option (Heap ι (Node ι α) × JobQueue ι) := do
  if jq.head ≠ none then
    let h ← h.modify jq.tail (Node.setNext (some node))
    let h ← h.modify (some node) (Node.setNext none)
    let h ← h.modify (some node) (Node.setPrev jq.tail)
    return (h, { jq with tail := some node })
  else
    return (h, { jq with head := some node, tail := some node })

/-- `jobqueue_dequeue` after the loop. -/
def jobqueue_dequeue : Option (Heap ι (Node ι α) × JobQueue ι × α) := do
  let tmp := jq.head
  let node ← h.load tmp
  let jq := { jq with head := node.next }
  let h ← h.free tmp
  return (h, jq, node.data)

end program

/-! ## What the critical sections do to the queue -/

/-- The nodes of the queue, in order. The first one points back to `before`, whatever that is, and
`tail` matters only if there are nodes. -/
structure Holds (h : Heap ι (Node ι α)) (jq : JobQueue ι) (before : Option ι)
    (c : List (ι × α)) : Prop where
  seg : Seg h before c none
  nodup : (addrs c).Nodup
  head : jq.head = first c none
  tail : c ≠ [] → jq.tail = last none c

variable {h : Heap ι (Node ι α)} {jq : JobQueue ι} {before : Option ι} {c : List (ι × α)}
  {a n : ι} {d : α}

namespace Holds

theorem is_empty (hq : jq.Holds h before c) : jq.jobqueue_is_empty = true ↔ c = [] := by
  rw [jobqueue_is_empty, Option.isNone_iff_eq_none, hq.head]
  cases c <;> simp

theorem along (hq : jq.Holds h before c) : Along h Node.next jq.head c := by
  rw [hq.head]
  exact hq.seg.along_next

theorem congr {h' : Heap ι (Node ι α)} (hq : jq.Holds h before c)
    (heq : ∀ b ∈ addrs c, h' b = h b) : jq.Holds h' before c :=
  ⟨hq.seg.congr heq, hq.nodup, hq.head, hq.tail⟩

variable [DecidableEq ι]

/-- A created node comes to the end of the queue. A queue that was empty has no stale link then. -/
theorem enqueue (hq : jq.Holds h before c) (hn : h n = .live (create_node d))
    (hfresh : n ∉ addrs c) :
    ∃ h' jq', jobqueue_enqueue h jq n = some (h', jq') ∧
      jq'.Holds h' (if c = [] then none else before) (c ++ [(n, d)]) ∧
      jq'.broadcast = jq.broadcast ∧ ∀ b, b ∉ addrs (c ++ [(n, d)]) → h' b = h b := by
  have hnodup : (addrs (c ++ [(n, d)])).Nodup := nodup_concat.mpr ⟨hfresh, hq.nodup⟩
  obtain rfl | hc := eq_or_ne c []
  · have hhead : jq.head = none := hq.head
    refine ⟨h, { jq with head := some n, tail := some n }, ?_, ⟨⟨hn, trivial⟩, hnodup, rfl,
      fun _ => rfl⟩, rfl, fun _ _ => rfl⟩
    simp [jobqueue_enqueue, hhead]
  · obtain ⟨c, z, dz, rfl⟩ := last_eq_some hc
    have hhead : jq.head ≠ none := by
      rw [hq.head, first_append]
      cases c <;> simp
    have htail : jq.tail = some z := by rw [hq.tail hc, last_concat]
    have hz : z ∉ addrs c := (nodup_concat.mp hq.nodup).1
    obtain ⟨h₁, heq₁, hs₁, hsame₁⟩ := hq.seg.modify_next hz (some n)
    have hne : n ≠ z := by rintro rfl; exact hfresh (by simp)
    have hn₁ : h₁ n = .live (create_node d) := by rw [hsame₁ n hne, hn]
    have heq₂ := Heap.modify_live hn₁ (Node.setNext none)
    have heq₃ := Heap.modify_live (Heap.put_self (h := h₁) (a := n)) (Node.setPrev (some z))
      (n := Node.setNext none (create_node d))
    rw [if_neg hc]
    refine ⟨(h₁.put n (.live (Node.setNext none (create_node d)))).put n
      (.live (Node.setPrev (some z) (Node.setNext none (create_node d)))),
      { jq with tail := some n }, ?_, ⟨seg_append.mpr ⟨(hs₁.put hfresh).put hfresh, ?_, trivial⟩,
      hnodup, ?_, fun _ => last_concat.symm⟩, rfl, fun b hb => ?_⟩
    · simp only [jobqueue_enqueue, if_pos hhead, htail, heq₁, heq₂, heq₃, Option.bind_eq_bind,
        Option.bind_some]
      rfl
    · rw [Heap.put_self, last_concat]
      rfl
    · exact hq.head.trans (first_append_of_ne_nil hc none none).symm
    · simp only [addrs_append, List.mem_append, addrs_cons, addrs_nil, List.mem_singleton,
        not_or] at hb
      rw [Heap.put_of_ne hb.2, Heap.put_of_ne hb.2, hsame₁ b hb.1.2]

/-- The first node goes, and the next one still points back to it. -/
theorem dequeue (hq : jq.Holds h before ((a, d) :: c)) :
    ∃ h' jq', jobqueue_dequeue h jq = some (h', jq', d) ∧ jq'.Holds h' (some a) c ∧
      jq'.tail = jq.tail ∧ jq'.broadcast = jq.broadcast ∧ ∀ b, b ≠ a → h' b = h b := by
  have hhead : jq.head = some a := hq.head
  obtain ⟨ha, hs⟩ := hq.seg
  obtain ⟨hac, hnodup⟩ := List.nodup_cons.mp hq.nodup
  refine ⟨h.put a .freed, { jq with head := first c none }, ?_, ⟨hs.put hac, hnodup, rfl, ?_⟩,
    rfl, rfl, fun _ => Heap.put_of_ne⟩
  · simp [jobqueue_dequeue, hhead, Heap.load_live ha, Heap.free_live ha]
  · intro hne
    obtain ⟨c, z, dz, rfl⟩ := last_eq_some hne
    have htail : jq.tail = last none (((a, d) :: c) ++ [(z, dz)]) := hq.tail (List.cons_ne_nil _ _)
    rw [last_concat] at htail ⊢
    exact htail

end Holds

/-! ## The links after a sequence of operations -/

/-- The nodes from `head` on are a well-formed doubly-linked list that ends at `tail`. -/
def Linked (h : Heap ι (Node ι α)) (jq : JobQueue ι) : Prop :=
  ∃ c, Along h Node.next jq.head c ∧ DoublyLinked h jq.head jq.tail (addrs c)

theorem Holds.linked_iff (hq : jq.Holds h before c) :
    Linked h jq ↔ if c = [] then jq.tail = none else before = none := by
  cases c with
  | nil =>
    have hhead : jq.head = none := hq.head
    rw [if_pos rfl]
    constructor
    · rintro ⟨c, -, hlinked⟩
      exact hlinked.both.mp hhead
    · intro htail
      refine ⟨[], hhead, ?_⟩
      rw [hhead, htail]
      exact (seg_nil (h := h)).doublyLinked List.nodup_nil
  | cons z c =>
    rw [if_neg (List.cons_ne_nil _ _)]
    constructor
    · rintro ⟨c, -, hlinked⟩
      obtain ⟨n, hlive, hprev⟩ := hlinked.head_prev _ hq.head
      rw [hq.seg.1] at hlive
      cases hlive
      exact hprev
    · rintro rfl
      refine ⟨z :: c, hq.along, ?_⟩
      rw [hq.head, hq.tail (List.cons_ne_nil _ _)]
      exact hq.seg.doublyLinked hq.nodup

/-- An operation, with the allocation `malloc` returns. -/
inductive Job (ι α : Type)
  | enqueue (n : ι) (data : α)
  | dequeue
  deriving DecidableEq

namespace Job

def isDequeue : Job ι α → Bool
  | .enqueue .. => false
  | .dequeue => true

def alloc : Job ι α → Option ι
  | .enqueue n _ => some n
  | .dequeue => none

def dequeues (ops : List (Job ι α)) : Nat := ops.countP isDequeue

def enqueues (ops : List (Job ι α)) : Nat := ops.countP fun op => !op.isDequeue

/-- The allocations are new, and nothing is dequeued from an empty queue. -/
structure Valid (h₀ : Heap ι (Node ι α)) (ops : List (Job ι α)) : Prop where
  unborn : ∀ n ∈ ops.filterMap alloc, h₀ n = .unborn
  nodup : (ops.filterMap alloc).Nodup
  nonempty : ∀ ops', ops' <+: ops → dequeues ops' ≤ enqueues ops'

/-- Nothing has been dequeued, or the last dequeue has emptied the queue and something has been
enqueued since. -/
def Restored (ops : List (Job ι α)) : Prop :=
  dequeues ops = 0 ∨ ∃ before after, ops = before ++ .dequeue :: after ∧ dequeues after = 0 ∧
    after ≠ [] ∧ enqueues before = dequeues before + 1

section program

variable [DecidableEq ι]

def exec : Heap ι (Node ι α) × JobQueue ι → Job ι α → Option (Heap ι (Node ι α) × JobQueue ι)
  | (h, jq), .enqueue n data => jobqueue_enqueue (h.put n (.live (create_node data))) jq n
  | (h, jq), .dequeue => (jobqueue_dequeue h jq).map fun (h, jq, _) => (h, jq)

/-- A queue is created, and the operations are made on it. -/
def run (h₀ : Heap ι (Node ι α)) (broadcast : Bool) (ops : List (Job ι α)) :
    Option (Heap ι (Node ι α) × JobQueue ι) :=
  ops.foldlM exec (h₀, create_jobqueue broadcast)

end program

variable {h₀ : Heap ι (Node ι α)} {ops ops₁ ops₂ : List (Job ι α)} {op : Job ι α}

theorem dequeues_append : dequeues (ops₁ ++ ops₂) = dequeues ops₁ + dequeues ops₂ :=
  List.countP_append

theorem enqueues_append : enqueues (ops₁ ++ ops₂) = enqueues ops₁ + enqueues ops₂ :=
  List.countP_append

@[simp] theorem dequeues_nil : dequeues ([] : List (Job ι α)) = 0 := rfl
@[simp] theorem enqueues_nil : enqueues ([] : List (Job ι α)) = 0 := rfl

@[simp] theorem dequeues_dequeue : dequeues (.dequeue :: ops) = dequeues ops + 1 :=
  List.countP_cons_of_pos rfl

@[simp] theorem enqueues_dequeue : enqueues (.dequeue :: ops) = enqueues ops :=
  List.countP_cons_of_neg (by simp [isDequeue])

theorem length_eq (ops : List (Job ι α)) : ops.length = enqueues ops + dequeues ops := by
  induction ops with
  | nil => rfl
  | cons op ops ih =>
    cases op with
    | enqueue => simp only [enqueues, dequeues, List.countP_cons, isDequeue] at ih ⊢; simp; omega
    | dequeue => simp only [enqueues, dequeues, List.countP_cons, isDequeue] at ih ⊢; simp; omega

theorem Valid.init (hv : Valid h₀ (ops ++ [op])) : Valid h₀ ops where
  unborn n hn := hv.unborn n (by rw [List.filterMap_append]; exact List.mem_append_left _ hn)
  nodup := by
    have := hv.nodup
    rw [List.filterMap_append] at this
    exact (List.nodup_append.mp this).1
  nonempty ops' hpre := hv.nonempty ops' (hpre.trans (List.prefix_append _ _))

/-- The operations before and after the last dequeue. -/
theorem exists_last (hne : dequeues ops ≠ 0) :
    ∃ before after, ops = before ++ .dequeue :: after ∧ dequeues after = 0 := by
  induction ops using List.reverseRecOn with
  | nil => exact absurd rfl hne
  | append_singleton ops op ih =>
    cases op with
    | dequeue => exact ⟨ops, [], rfl, rfl⟩
    | enqueue n d =>
      rw [dequeues_append] at hne
      obtain ⟨before, after, rfl, hafter⟩ := ih hne
      refine ⟨before, after ++ [.enqueue n d], by simp, ?_⟩
      rw [dequeues_append, hafter]
      rfl

theorem not_restored_dequeue : ¬Restored (ops ++ [.dequeue]) := by
  rintro (hnone | ⟨before, after, heq, hafter, hne, -⟩)
  · rw [dequeues_append] at hnone
    cases hnone
  · obtain ⟨after, op, rfl⟩ := (List.eq_nil_or_concat after).resolve_left hne
    rw [List.concat_eq_append, ← List.cons_append, ← List.append_assoc] at heq
    obtain ⟨-, hop⟩ := List.append_inj' heq rfl
    cases hop
    rw [List.concat_eq_append, dequeues_append] at hafter
    cases hafter

/-- An enqueue restores the links of an empty queue, and leaves those of any other as they are. -/
theorem restored_enqueue_iff (hv : Valid h₀ ops) {n : ι} {d : α} :
    Restored (ops ++ [.enqueue n d]) ↔ enqueues ops = dequeues ops ∨ Restored ops := by
  have hbalance : ∀ {before after}, ops = before ++ .dequeue :: after → dequeues after = 0 →
      dequeues before + 1 ≤ enqueues before ∧
        enqueues ops - dequeues ops = enqueues before - dequeues before - 1 + after.length := by
    rintro before after rfl hafter
    have hpre := hv.nonempty (before ++ [.dequeue]) ⟨after, by simp⟩
    rw [dequeues_append, enqueues_append, dequeues_dequeue, enqueues_dequeue, dequeues_nil,
      enqueues_nil] at hpre
    rw [enqueues_append, enqueues_dequeue, dequeues_append, dequeues_dequeue, length_eq after]
    omega
  constructor
  · rintro (hnone | ⟨before, after, heq, hafter, hne, hcount⟩)
    · rw [dequeues_append] at hnone
      exact .inr (.inl (Nat.eq_zero_of_add_eq_zero_right hnone))
    · obtain ⟨after, op, rfl⟩ := (List.eq_nil_or_concat after).resolve_left hne
      rw [List.concat_eq_append] at heq hafter
      rw [← List.cons_append, ← List.append_assoc] at heq
      obtain ⟨hops, -⟩ := List.append_inj' heq rfl
      rw [dequeues_append] at hafter
      have hafter := Nat.eq_zero_of_add_eq_zero_right hafter
      have := hbalance hops hafter
      have hnonempty := hv.nonempty ops (List.prefix_refl _)
      cases after with
      | nil => exact .inl (by simp only [List.length_nil] at this; omega)
      | cons op after =>
        exact .inr (.inr ⟨before, op :: after, hops, hafter, List.cons_ne_nil _ _, hcount⟩)
  · rintro (hempty | hnone | ⟨before, after, rfl, hafter, hne, hcount⟩)
    · by_cases hnone : dequeues ops = 0
      · exact .inl (by rw [dequeues_append, hnone]; rfl)
      · obtain ⟨before, after, heq, hafter⟩ := exists_last hnone
        have := hbalance heq hafter
        refine .inr ⟨before, after ++ [.enqueue n d], by simp [heq], ?_, by simp, by omega⟩
        rw [dequeues_append, hafter]
        rfl
    · exact .inl (by rw [dequeues_append, hnone]; rfl)
    · refine .inr ⟨before, after ++ [.enqueue n d], by simp, ?_, by simp, hcount⟩
      rw [dequeues_append, hafter]
      rfl

/-- What the operations leave: the queue with what is still in it, and where its stale links are. -/
structure Leaves (h₀ : Heap ι (Node ι α)) (ops : List (Job ι α)) (h : Heap ι (Node ι α))
    (jq : JobQueue ι) (before : Option ι) (c : List (ι × α)) : Prop where
  holds : jq.Holds h before c
  count : dequeues ops + c.length = enqueues ops
  allocated : ∀ n ∈ addrs c, n ∈ ops.filterMap alloc
  others : ∀ n, n ∉ ops.filterMap alloc → h n = h₀ n
  stale_prev : c ≠ [] → (before = none ↔ Restored ops)
  stale_tail : c = [] → (jq.tail = none ↔ dequeues ops = 0)

variable [DecidableEq ι]

theorem Leaves.enqueue {n : ι} (hl : Leaves h₀ ops h jq before c)
    (hv : Valid h₀ (ops ++ [.enqueue n d])) :
    ∃ h' jq', exec (h, jq) (.enqueue n d) = some (h', jq') ∧
      Leaves h₀ (ops ++ [.enqueue n d]) h' jq' (if c = [] then none else before)
        (c ++ [(n, d)]) := by
  have hallocs : (ops ++ [Job.enqueue n d]).filterMap alloc = ops.filterMap alloc ++ [n] := by
    rw [List.filterMap_append]
    rfl
  have hnew : n ∉ ops.filterMap alloc := by
    have := hv.nodup
    rw [hallocs] at this
    exact fun hmem => (List.nodup_append.mp this).2.2 n hmem n (List.mem_singleton_self n) rfl
  have hfresh : n ∉ addrs c := fun hmem => hnew (hl.allocated n hmem)
  have hput : jq.Holds (h.put n (.live (create_node d))) before c :=
    hl.holds.congr fun b hb => Heap.put_of_ne (by rintro rfl; exact hfresh hb)
  obtain ⟨h', jq', heq, hholds, -, helse⟩ := hput.enqueue Heap.put_self hfresh
  refine ⟨h', jq', heq, hholds, ?_, fun m hm => ?_, fun m hm => ?_, fun _ => ?_, fun hnil => ?_⟩
  · rw [dequeues_append, enqueues_append, List.length_append, ← hl.count]
    exact Nat.add_right_comm ..
  · rw [addrs_append, List.mem_append] at hm
    rw [hallocs, List.mem_append]
    exact hm.imp (hl.allocated m) fun h => h
  · rw [hallocs, List.mem_append, List.mem_singleton, not_or] at hm
    have hmem : m ∉ addrs c := fun hmem => hm.1 (hl.allocated m hmem)
    rw [helse m (by simpa using ⟨hmem, hm.2⟩), Heap.put_of_ne hm.2, hl.others m hm.1]
  · rw [restored_enqueue_iff hv.init]
    have hcount := hl.count
    split
    · next hnil =>
      rw [hnil] at hcount
      exact ⟨fun _ => .inl hcount.symm, fun _ => rfl⟩
    · next hne =>
      have hpos := List.length_pos_of_ne_nil hne
      rw [hl.stale_prev hne]
      exact ⟨.inr, fun h => h.resolve_left (by omega)⟩
  · cases List.append_ne_nil_of_right_ne_nil c (List.cons_ne_nil _ _) hnil

theorem Leaves.dequeue (hl : Leaves h₀ ops h jq before ((a, d) :: c)) :
    ∃ h' jq', exec (h, jq) .dequeue = some (h', jq') ∧
      Leaves h₀ (ops ++ [.dequeue]) h' jq' (some a) c := by
  have hallocs : (ops ++ [Job.dequeue]).filterMap alloc = ops.filterMap alloc := by
    rw [List.filterMap_append]
    exact List.append_nil _
  obtain ⟨h', jq', heq, hholds, htail, -, helse⟩ := hl.holds.dequeue
  refine ⟨h', jq', by simp [exec, heq], hholds, ?_, fun m hm => ?_, fun m hm => ?_, fun _ => ?_,
    fun hnil => ?_⟩
  · rw [dequeues_append, enqueues_append, ← hl.count, List.length_cons]
    exact (Nat.add_right_comm ..).trans (Nat.add_assoc ..)
  · rw [hallocs]
    exact hl.allocated m (List.mem_cons_of_mem _ hm)
  · rw [hallocs] at hm
    have hne : m ≠ a := by
      rintro rfl
      exact hm (hl.allocated m List.mem_cons_self)
    rw [helse m hne, hl.others m hm]
  · exact iff_of_false (Option.some_ne_none a) not_restored_dequeue
  · subst hnil
    rw [htail, hl.holds.tail (List.cons_ne_nil _ _), dequeues_append]
    exact iff_of_false (Option.some_ne_none a) (Nat.succ_ne_zero _)

theorem run_append (broadcast : Bool) :
    run h₀ broadcast (ops ++ [op]) = (run h₀ broadcast ops).bind fun s => exec s op := by
  simp only [run, List.foldlM_append, List.foldlM_cons, List.foldlM_nil, Option.bind_eq_bind,
    Option.pure_def, Option.bind_fun_some]

theorem leaves_run (broadcast : Bool) (hv : Valid h₀ ops) :
    ∃ h jq before c, run h₀ broadcast ops = some (h, jq) ∧ Leaves h₀ ops h jq before c := by
  induction ops using List.reverseRecOn with
  | nil =>
    exact ⟨h₀, create_jobqueue broadcast, none, [], rfl, ⟨trivial, List.nodup_nil, rfl, nofun⟩, rfl,
      nofun, fun _ _ => rfl, nofun, fun _ => ⟨fun _ => rfl, fun _ => rfl⟩⟩
  | append_singleton ops op ih =>
    obtain ⟨h, jq, before, c, heq, hl⟩ := ih hv.init
    rw [run_append, heq]
    cases op with
    | enqueue n d =>
      obtain ⟨h', jq', heq', hl'⟩ := hl.enqueue hv
      exact ⟨h', jq', _, _, heq', hl'⟩
    | dequeue =>
      cases c with
      | nil =>
        have hcount := hl.count
        have hle := hv.nonempty _ (List.prefix_refl _)
        rw [dequeues_append, enqueues_append] at hle
        rw [dequeues_dequeue, enqueues_dequeue, dequeues_nil, enqueues_nil, ← hcount,
          List.length_nil] at hle
        omega
      | cons z c =>
        obtain ⟨h', jq', heq', hl'⟩ := hl.dequeue
        exact ⟨h', jq', _, _, heq', hl'⟩

end Job

/-- **The links of the job queue.** After a sequence of operations the nodes are a well-formed
doubly-linked list exactly if nothing has been dequeued, or the last dequeue has emptied the queue
and something has been enqueued since. -/
theorem links_restored_iff [DecidableEq ι] (h₀ : Heap ι (Node ι α)) (broadcast : Bool)
    (ops : List (Job ι α)) (hv : Job.Valid h₀ ops) :
    ∃ h jq, Job.run h₀ broadcast ops = some (h, jq) ∧ (Linked h jq ↔ Job.Restored ops) := by
  obtain ⟨h, jq, before, c, heq, hl⟩ := Job.leaves_run broadcast hv
  refine ⟨h, jq, heq, ?_⟩
  rw [hl.holds.linked_iff]
  split
  · next hnil =>
    rw [hl.stale_tail hnil]
    constructor
    · exact .inl
    · rintro (hnone | ⟨before, after, rfl, hafter, hne, hcount⟩)
      · exact hnone
      · -- what has been enqueued since is still there
        have hlen := hl.count
        have hpos := List.length_pos_of_ne_nil hne
        rw [hnil, Job.enqueues_append, Job.enqueues_dequeue, Job.dequeues_append,
          Job.dequeues_dequeue, hafter, List.length_nil] at hlen
        rw [Job.length_eq, hafter] at hpos
        omega
  · next hne => exact hl.stale_prev hne

instance (h₀ : Heap Nat (Node Nat Nat)) (ops : List (Job Nat Nat)) : Decidable (Job.Valid h₀ ops) :=
  decidable_of_iff ((∀ n ∈ ops.filterMap Job.alloc, h₀ n = .unborn) ∧
    (ops.filterMap Job.alloc).Nodup ∧ ∀ ops' ∈ ops.inits, Job.dequeues ops' ≤ Job.enqueues ops')
    ⟨fun h => ⟨h.1, h.2.1, fun ops' hpre => h.2.2 ops' ((List.mem_inits _ _).mpr hpre)⟩,
      fun h => ⟨h.1, h.2, fun ops' hmem => h.3 ops' ((List.mem_inits _ _).mp hmem)⟩⟩

/-- A queue that has been emptied and filled again. -/
theorem links_restored_refilled : ∃ (h : Heap Nat (Node Nat Nat)) (jq : JobQueue Nat),
    Job.run (fun _ => .unborn) false [.enqueue 0 5, .dequeue, .enqueue 1 6] = some (h, jq) ∧
      Linked h jq := by
  obtain ⟨h, jq, heq, hiff⟩ := links_restored_iff (fun _ => .unborn) false
    [.enqueue 0 5, .dequeue, .enqueue 1 6] (by decide)
  exact ⟨h, jq, heq, hiff.mpr (.inr ⟨[.enqueue 0 5], [.enqueue 1 6], rfl, rfl, by simp, rfl⟩)⟩

/-- The only node has been freed, and `tail` still points to it. -/
theorem not_links_restored : ¬ ∀ (h₀ : Heap Nat (Node Nat Nat)) broadcast ops, Job.Valid h₀ ops →
    ∃ h jq, Job.run h₀ broadcast ops = some (h, jq) ∧ Linked h jq := by
  intro hall
  obtain ⟨h, jq, heq, c, -, hlinked⟩ :=
    hall (fun _ => .unborn) false [.enqueue 0 5, .dequeue] (by decide)
  have hrun : (Job.run (fun _ => .unborn) false [.enqueue 0 5, .dequeue]).map
      (fun s : Heap Nat (Node Nat Nat) × JobQueue Nat => s.2) = some ⟨none, some 0, false⟩ := by
    decide
  rw [heq] at hrun
  cases hrun
  have htail := hlinked.both.mp rfl
  cases htail

end JobQueue

end Cs2510.Chat
