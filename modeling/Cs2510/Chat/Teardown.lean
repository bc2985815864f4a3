import Cs2510.Lib.Run
import Cs2510.Chat.JobQueue
import Cs2510.Chat.LinkedList
import Mathlib.Data.List.Perm.Subperm

/-!
# Taking the lists apart

`free_llist`, `free_llist_nodes` and `free_jobqueue` free the nodes that a list still holds. Those
it has held before were freed when they were removed; so a list that is taken apart at the end of
any run leaves nothing behind, has freed nothing twice, and has touched nothing else
(`llist_taken_apart`, `jobqueue_taken_apart`).
-/

namespace Cs2510.Chat
open LinkedNodes

variable {ι α σ : Type} [DecidableEq ι]

/-- The list itself, and the queue, are not among the nodes. -/
def free_llist_nodes (steps : Nat) (h : Heap ι (Node ι α)) (l : Llist ι)
    (freefn : σ → α → Option σ) (s : σ) : Option (Heap ι (Node ι α) × σ) :=
  freeNodes freefn steps l.head h s

def free_llist (steps : Nat) (h : Heap ι (Node ι α)) (l : Llist ι) : Option (Heap ι (Node ι α)) :=
  (freeNodes (fun s _ => some s) steps l.head h ()).map Prod.fst

def free_jobqueue (steps : Nat) (h : Heap ι (Node ι α)) (jq : JobQueue ι) :
    Option (Heap ι (Node ι α)) :=
  (freeNodes (fun s _ => some s) steps jq.head h ()).map Prod.fst

def llist_for_each (steps : Nat) (h : Heap ι (Node ι α)) (l : Llist ι) (fn : σ → α → Option σ)
    (arg : σ) : Option σ :=
  eachNode h fn steps l.head arg

variable {h h' : Heap ι (Node ι α)} {l l' : Llist ι} {c : List (ι × α)} {a : ι} {d : α}

/-! ## What is removed is freed -/

theorem freed_of_remove_head (hhead : l.head = some a)
    (heq : llist_remove_head h l = some (h', l', d)) : h' a = .freed := by
  simp only [llist_remove_head, hhead, Option.bind_eq_bind, Option.bind_eq_some_iff] at heq
  obtain ⟨node, -, heq⟩ := heq
  split at heq
  · obtain ⟨h₁, hfree, heq⟩ := Option.bind_eq_some_iff.mp heq
    cases heq
    exact Heap.free_some hfree
  · simp only [Option.bind_eq_some_iff] at heq
    obtain ⟨h₁, -, h₂, hfree, heq⟩ := heq
    cases heq
    exact Heap.free_some hfree

theorem freed_of_remove_tail (htail : l.tail = some a)
    (heq : llist_remove_tail h l = some (h', l', d)) : h' a = .freed := by
  simp only [llist_remove_tail, htail, Option.bind_eq_bind, Option.bind_eq_some_iff] at heq
  obtain ⟨node, -, heq⟩ := heq
  split at heq
  · obtain ⟨h₁, hfree, heq⟩ := Option.bind_eq_some_iff.mp heq
    cases heq
    exact Heap.free_some hfree
  · simp only [Option.bind_eq_some_iff] at heq
    obtain ⟨h₁, -, h₂, hfree, heq⟩ := heq
    cases heq
    exact Heap.free_some hfree

theorem freed_of_remove_node (heq : llist_remove_node h l a = some (h', l', d)) :
    h' a = .freed := by
  unfold llist_remove_node at heq
  split at heq
  · next hhead => exact freed_of_remove_head hhead.symm heq
  split at heq
  · next htail => exact freed_of_remove_tail htail.symm heq
  · simp only [Option.bind_eq_bind, Option.bind_eq_some_iff] at heq
    obtain ⟨_, -, _, -, _, -, _, -, _, hfree, heq⟩ := heq
    cases heq
    exact Heap.free_some hfree

omit [DecidableEq ι] in
/-- A node that `eraseP` takes out is the first one that passes the test. -/
theorem find_of_erased {p : ι × α → Bool} {n : ι} (hn : n ∈ addrs c)
    (hout : n ∉ addrs (c.eraseP p)) : ∃ d, c.find? p = some (n, d) := by
  obtain ⟨z, hz, rfl⟩ := List.mem_map.mp hn
  by_cases hp : ∃ y ∈ c, p y
  · obtain ⟨y, hy, hpy⟩ := hp
    obtain ⟨x, c₁, c₂, hfirst, hpx, rfl, herase⟩ := List.exists_of_eraseP hy hpy
    rw [herase, addrs_append, List.mem_append, not_or] at hout
    obtain hmem | hmem := List.mem_append.mp hz
    · exact absurd (List.mem_map_of_mem hmem) hout.1
    obtain rfl | hmem := List.mem_cons.mp hmem
    · exact ⟨z.2, List.find?_eq_some_iff_append.mpr ⟨hpx, c₁, c₂, rfl, by simpa using hfirst⟩⟩
    · exact absurd (List.mem_map_of_mem hmem) hout.2
  · rw [List.eraseP_of_forall_not fun y hy hpy => hp ⟨y, hy, hpy⟩] at hout
    exact absurd hn hout

variable [DecidableEq α]

/-- A node that an operation takes out of the list is freed by it. -/
theorem freed_of_exec {NULL : α} {op : LlistOp ι α} {r : Option α} (hl : l.Holds h c)
    (heq : op.exec NULL h l = some (h', l', r))
    (hsteps : ∀ steps value, op = .remove_value steps value → c.length < steps) {n : ι}
    (hn : n ∈ addrs (op.touches c)) (hout : n ∉ addrs (op.plain NULL c).1) : h' n = .freed := by
  cases op with
  | insert_head | elsewhere => exact absurd hn hout
  | insert_tail m data =>
    refine absurd ?_ hout
    simpa [LlistOp.plain, LlistOp.touches, or_comm] using hn
  | remove_head =>
    cases c with
    | nil => cases hn
    | cons z c =>
      obtain ⟨⟨h₁, l₁, d₁⟩, hrem, heq⟩ := Option.map_eq_some_iff.mp heq
      cases heq
      obtain rfl := (List.mem_cons.mp hn).resolve_right hout
      exact freed_of_remove_head hl.head hrem
  | remove_tail =>
    obtain rfl | hc := eq_or_ne c []
    · cases hn
    obtain ⟨c, a, d, rfl⟩ := last_eq_some hc
    obtain ⟨⟨h₁, l₁, d₁⟩, hrem, heq⟩ := Option.map_eq_some_iff.mp heq
    cases heq
    have hmem : n ∈ addrs c ++ addrs [(a, d)] := by
      rw [← addrs_append]
      exact hn
    rw [LlistOp.plain, List.dropLast_concat] at hout
    obtain rfl := List.mem_singleton.mp ((List.mem_append.mp hmem).resolve_left hout)
    exact freed_of_remove_tail (hl.tail.trans last_concat) hrem
  | remove_node m =>
    obtain ⟨⟨h₁, l₁, d₁⟩, hrem, heq⟩ := Option.map_eq_some_iff.mp heq
    cases heq
    obtain ⟨d', hfind⟩ := find_of_erased (c := c) hn hout
    have hfound := List.find?_some hfind
    obtain rfl : n = m := of_decide_eq_true hfound
    exact freed_of_remove_node hrem
  | remove_value steps value =>
    obtain ⟨⟨h₁, l₁, d₁⟩, hrem, heq⟩ := Option.map_eq_some_iff.mp heq
    cases heq
    obtain ⟨d', hfind⟩ := find_of_erased (c := c) hn hout
    have hfound := llist_find_spec hl.seg value (hsteps _ _ rfl)
    rw [← hl.head, hfind] at hfound
    simp only [llist_remove_value, hfound, Option.map_some, Option.bind_eq_bind,
      Option.bind_some] at hrem
    exact freed_of_remove_node hrem

/-! ## Runs -/

variable {NULL : α}

/-- The node that an operation allocates. -/
def LlistOp.alloc : LlistOp ι α → Option ι
  | .insert_head n _ | .insert_tail n _ => some n
  | _ => none

def LlistOp.isElsewhere : LlistOp ι α → Bool
  | .elsewhere _ => true
  | _ => false

omit [DecidableEq ι] [DecidableEq α] in
theorem LlistOp.mem_touches {op : LlistOp ι α} {n : ι} :
    n ∈ addrs (op.touches c) ↔ n ∈ addrs c ∨ n ∈ op.alloc.toList := by
  cases op with
  | insert_head m data | insert_tail m data =>
    rw [touches, addrs_cons, List.mem_cons, alloc, Option.toList_some, List.mem_singleton, or_comm]
  | _ => simp [touches, alloc]

/-- An operation puts into the list only what it works on. -/
theorem LlistOp.mem_touches_of_plain {op : LlistOp ι α} {n : ι}
    (hn : n ∈ addrs (op.plain NULL c).1) : n ∈ addrs (op.touches c) := by
  cases op with
  | insert_head | elsewhere => exact hn
  | insert_tail m data => simpa [plain, touches, or_comm] using hn
  | remove_head => exact (List.tail_sublist c).map Prod.fst |>.subset hn
  | remove_tail => exact (List.dropLast_sublist c).map Prod.fst |>.subset hn
  | remove_node m => exact (List.eraseP_sublist ..).map Prod.fst |>.subset hn
  | remove_value steps value => exact (List.eraseP_sublist ..).map Prod.fst |>.subset hn

/-- The nodes that a run has allocated. -/
def allocated (hist : List (LlistRun ι α × LlistOp ι α)) : List ι :=
  hist.filterMap fun y => y.2.alloc

/-- The operations of the list only. -/
def LlistRun.Inside (_ : LlistRun ι α) (op : LlistOp ι α) : Prop := op.isElsewhere = false

variable {h₀ : Heap ι (Node ι α)} {hist : List (LlistRun ι α × LlistOp ι α)}
  {s : LlistRun ι α}

theorem accounted_of_run (hr : (llist NULL h₀).Run LlistRun.Inside hist s) :
    Accounted h₀ (allocated hist) s.heap s.contents := by
  refine TransitionSystem.Run.invariant (T := llist NULL h₀)
    (I := fun hist s => Accounted h₀ (allocated hist) s.heap s.contents) (accounted_nil h₀)
    (fun hist s op hr ha he hg => ?_) hr
  have hl := (LlistRun.holds hr.reach.reachable).2
  obtain ⟨h', l', heq, hl', helse⟩ := LlistOp.exec_spec NULL hl he
  have helse := helse (by rintro h rfl; cases hg)
  have hallocated : allocated (hist ++ [(s, op)]) = allocated hist ++ op.alloc.toList := by
    rw [allocated, List.filterMap_append, allocated]
    cases halloc : op.alloc <;> simp [halloc]
  rw [show (llist NULL h₀).next s op = _ from LlistOp.next_eq heq, hallocated]
  refine ha.next (fun n hn => LlistOp.mem_touches.mp (LlistOp.mem_touches_of_plain hn))
    (fun n hn hout => freed_of_exec hl heq ?_ (LlistOp.mem_touches.mpr hn) hout)
    (fun n hn hnew => helse n fun hmem => (LlistOp.mem_touches.mp hmem).elim hn hnew)
  rintro steps value rfl
  exact he

/-- **The list leaves nothing behind.** Taken apart at the end of a run, it hands its data to
`freefn` in the order in which `llist_for_each` sees it; every node that the run has allocated has
been freed, once, and the rest of the heap is as it was before. -/
theorem llist_taken_apart (hr : (llist NULL h₀).Run LlistRun.Inside hist s)
    (fn : σ → α → Option σ) (x : σ) {steps : Nat} (hsteps : s.contents.length < steps) :
    llist_for_each steps s.heap s.list fn x = (s.contents.map Prod.snd).foldlM fn x ∧
      free_llist_nodes steps s.heap s.list fn x =
        ((s.contents.map Prod.snd).foldlM fn x).map (gone h₀ (allocated hist), ·) ∧
      free_llist steps s.heap s.list = some (gone h₀ (allocated hist)) := by
  have ha := accounted_of_run hr
  have hl := (LlistRun.holds hr.reach.reachable).2
  rw [llist_for_each, free_llist_nodes, free_llist, hl.head, ha.freeNodes hl.seg hl.nodup fn hsteps,
    ha.freeNodes hl.seg hl.nodup _ hsteps]
  refine ⟨hl.seg.eachNode fn hsteps x, rfl, ?_⟩
  exact congrArg (Option.map _ ∘ Option.map _) (List.foldlM_pure (f := fun x _ => x))

instance (s : LlistRun ι α) (op : LlistOp ι α) : Decidable (s.Inside op) :=
  inferInstanceAs (Decidable (_ = _))

theorem llist_taken_apart_descriptors : ∃ (s : LlistRun Nat Nat) (hist : List _),
    (llist 0 fun _ => .unborn).Run LlistRun.Inside hist s ∧
    allocated hist = [0, 1, 2, 3] ∧ s.contents.map Prod.snd = [5, 7] ∧
    free_llist_nodes 9 s.heap s.list (fun x d => some (x ++ [d])) [] =
      some (gone (fun _ => .unborn) [0, 1, 2, 3], [5, 7]) := by
  have hrun : ((llist 0 fun _ => .unborn).exec LlistRun.Inside (llist 0 fun _ => .unborn).init
      descriptors).any (fun s => s.contents = [(0, 5), (3, 7)] ∧
        allocated ((llist 0 fun _ => .unborn).trace (llist 0 fun _ => .unborn).init descriptors) =
          [0, 1, 2, 3]) = true := by
    decide
  obtain ⟨hist, s, hr, hend⟩ := TransitionSystem.exists_run_of_exec
    (T := llist (0 : Nat) fun _ : Nat => .unborn)
    (p := fun hist s => s.contents = [(0, 5), (3, 7)] ∧ allocated hist = [0, 1, 2, 3]) hrun
  obtain ⟨hc, halloc⟩ := of_decide_eq_true hend
  have hsteps : s.contents.length < 9 := by
    rw [hc]
    decide
  obtain ⟨-, hfree, -⟩ := llist_taken_apart hr (fun x d => some (x ++ [d])) ([] : List Nat) hsteps
  rw [hc, halloc] at hfree
  exact ⟨s, hist, hr, halloc, by rw [hc]; rfl, hfree⟩

/-! ## The job queue -/

namespace JobQueue

variable {jq jq' : JobQueue ι} {ops : List (Job ι α)}

omit [DecidableEq α] in
theorem freed_of_dequeue (hhead : jq.head = some a)
    (heq : jobqueue_dequeue h jq = some (h', jq', d)) : h' a = .freed := by
  simp only [jobqueue_dequeue, hhead, Option.bind_eq_bind, Option.bind_eq_some_iff] at heq
  obtain ⟨_, -, _, hfree, heq⟩ := heq
  cases heq
  exact Heap.free_some hfree

omit [DecidableEq α] in
/-- A queue has freed what it does not hold any more. -/
theorem accounted_run (broadcast : Bool) (hv : Job.Valid h₀ ops) :
    ∃ h jq before c, Job.run h₀ broadcast ops = some (h, jq) ∧ jq.Holds h before c ∧
      Accounted h₀ (ops.filterMap Job.alloc) h c := by
  induction ops using List.reverseRecOn with
  | nil =>
    exact ⟨h₀, create_jobqueue broadcast, none, [], rfl, ⟨trivial, List.nodup_nil, rfl, nofun⟩,
      accounted_nil h₀⟩
  | append_singleton ops op ih =>
    obtain ⟨h, jq, before, c, heq, hq, ha⟩ := ih hv.init
    have hrun : Job.run h₀ broadcast (ops ++ [op]) = Job.exec (h, jq) op := by
      rw [Job.run_append, heq]
      rfl
    have hallocs : (ops ++ [op]).filterMap Job.alloc =
        ops.filterMap Job.alloc ++ op.alloc.toList := by
      rw [List.filterMap_append]
      cases op <;> rfl
    rw [hrun, hallocs]
    cases op with
    | enqueue n d =>
      have hfresh : n ∉ addrs c := by
        intro hmem
        have hnodup := hv.nodup
        rw [hallocs] at hnodup
        exact (List.nodup_append.mp hnodup).2.2 n (ha.held n hmem) n List.mem_cons_self rfl
      have hput : jq.Holds (h.put n (.live (create_node d))) before c :=
        hq.congr fun b hb => Heap.put_of_ne (by rintro rfl; exact hfresh hb)
      obtain ⟨h', jq', heq', hq', -, helse⟩ := hput.enqueue Heap.put_self hfresh
      have haddrs : ∀ m, m ∈ addrs (c ++ [(n, d)]) ↔ m ∈ addrs c ∨ m ∈ [n] := fun m => by
        rw [addrs_append, List.mem_append]
        rfl
      refine ⟨h', jq', _, _, heq', hq', ha.next (fun m hm => (haddrs m).mp hm)
        (fun m hm hout => absurd ((haddrs m).mpr hm) hout) fun m hm hnew => ?_⟩
      rw [helse m fun hmem => ((haddrs m).mp hmem).elim hm hnew]
      exact Heap.put_of_ne fun heq => hnew (List.mem_singleton.mpr heq)
    | dequeue =>
      cases c with
      | nil =>
        -- the run has an end, but nothing can be taken from an empty queue
        obtain ⟨_, _, _, _, hend, -⟩ := Job.leaves_run broadcast hv
        have hhead : jq.head = none := hq.head
        rw [hrun] at hend
        simp [Job.exec, jobqueue_dequeue, hhead, Heap.load] at hend
      | cons z c =>
        obtain ⟨h', jq', heq', hq', -, -, helse⟩ := hq.dequeue
        refine ⟨h', jq', _, c, by simp [Job.exec, heq'], hq', ha.next
          (fun m hm => .inl (List.mem_cons_of_mem _ hm)) (fun m hm hout => ?_) fun m hm _ => ?_⟩
        · obtain rfl := (List.mem_cons.mp (hm.resolve_right List.not_mem_nil)).resolve_right hout
          exact freed_of_dequeue hq.head heq'
        · exact helse m fun heq => hm (List.mem_cons.mpr (.inl heq))

omit [DecidableEq α] in
/-- **The queue leaves nothing behind**, though `tail` and a `prev` may point to freed nodes. -/
theorem jobqueue_taken_apart (broadcast : Bool) (hv : Job.Valid h₀ ops) :
    ∃ h jq, Job.run h₀ broadcast ops = some (h, jq) ∧
      ∀ steps, ops.length < steps →
        free_jobqueue steps h jq = some (gone h₀ (ops.filterMap Job.alloc)) := by
  obtain ⟨h, jq, before, c, heq, hq, ha⟩ := accounted_run broadcast hv
  refine ⟨h, jq, heq, fun steps hsteps => ?_⟩
  have hlength : c.length < steps := by
    have hle := (List.Nodup.subperm hq.nodup ha.held).length_le
    rw [addrs, List.length_map] at hle
    exact Nat.lt_of_le_of_lt (Nat.le_trans hle (List.length_filterMap_le _ _)) hsteps
  rw [free_jobqueue, hq.head, ha.freeNodes hq.seg hq.nodup _ hlength]
  exact congrArg (Option.map _ ∘ Option.map _) (List.foldlM_pure (f := fun x _ => x))

theorem jobqueue_taken_apart_refilled : ∃ (h : Heap Nat (Node Nat Nat)) (jq : JobQueue Nat),
    Job.run (fun _ => .unborn) false [.enqueue 0 5, .dequeue, .enqueue 1 6, .enqueue 2 7] =
        some (h, jq) ∧ free_jobqueue 9 h jq = some (gone (fun _ => .unborn) [0, 1, 2]) := by
  have hv : Job.Valid (fun _ : Nat => .unborn)
      [.enqueue 0 (5 : Nat), .dequeue, .enqueue 1 6, .enqueue 2 7] := by
    decide
  obtain ⟨h, jq, heq, hfree⟩ := jobqueue_taken_apart false hv
  exact ⟨h, jq, heq, hfree 9 (by decide)⟩

end JobQueue

end Cs2510.Chat
