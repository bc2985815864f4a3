import Mathlib.Data.List.Induction
import Mathlib.Data.List.Nodup
import Mathlib.Logic.Function.Basic

/-!
# Heaps of linked nodes

A pointer names an allocation: storage that is reused after it has been freed is another
allocation. An access through NULL, or to an allocation that is not live, is a fault, so a program
that returns a value has made no such access, wherever its storage has been reused meanwhile.

`Seg h before l after` says that the nodes `l` are linked one to the next in both directions, and
that their ends point to `before` and `after`. The lemmas say how it comes apart (`seg_append`),
what it depends on (`Seg.congr`), and what a store to one of its ends makes of it.
-/

universe u v

/-- What has become of an allocation. -/
inductive Cell (ν : Type v)
  | unborn
  | live (node : ν)
  | freed
  deriving DecidableEq

/-- A heap of objects of one type. A pointer is an `Option ι`, with `none` for NULL. -/
abbrev Heap (ι : Type u) (ν : Type v) := ι → Cell ν

namespace Heap

variable {ι : Type u} {ν : Type v} [DecidableEq ι]

def put (h : Heap ι ν) (a : ι) (c : Cell ν) : Heap ι ν := Function.update h a c

def load (h : Heap ι ν) : Option ι → Option ν
  | none => none
  | some a =>
    match h a with
    | .live n => some n
    | .unborn | .freed => none

/-- A store through a pointer. -/
def modify (h : Heap ι ν) (p : Option ι) (f : ν → ν) : Option (Heap ι ν) :=
  match p with
  | none => none
  | some a =>
    match h a with
    | .live n => some (h.put a (.live (f n)))
    | .unborn | .freed => none

def free (h : Heap ι ν) (p : Option ι) : Option (Heap ι ν) :=
  match p with
  | none => none
  | some a =>
    match h a with
    | .live _ => some (h.put a .freed)
    | .unborn | .freed => none

variable {h : Heap ι ν} {a b : ι} {n : ν} {c : Cell ν}

@[simp] theorem put_self : h.put a c a = c := Function.update_self ..

theorem put_of_ne (hne : b ≠ a) : h.put a c b = h b := Function.update_of_ne hne ..

omit [DecidableEq ι] in
theorem load_live (hn : h a = .live n) : h.load (some a) = some n := by
  simp only [load, hn]

theorem modify_live (hn : h a = .live n) (f : ν → ν) :
    h.modify (some a) f = some (h.put a (.live (f n))) := by
  simp only [modify, hn]

theorem free_live (hn : h a = .live n) : h.free (some a) = some (h.put a .freed) := by
  simp only [free, hn]

/-- What has been freed is not live any more. -/
theorem free_some {h' : Heap ι ν} (hf : h.free (some a) = some h') : h' a = .freed := by
  simp only [free] at hf
  split at hf
  · cases hf
    exact put_self
  · cases hf
  · cases hf

end Heap

/-- A node of a doubly-linked list. -/
structure Node (ι : Type u) (α : Type v) where
  prev : Option ι
  next : Option ι
  data : α
  deriving DecidableEq

namespace Node

variable {ι : Type u} {α : Type v}

def setPrev (p : Option ι) (n : Node ι α) : Node ι α := { n with prev := p }

def setNext (p : Option ι) (n : Node ι α) : Node ι α := { n with next := p }

end Node

namespace LinkedNodes

variable {ι : Type u} {α : Type v}

/-- The allocations of the nodes. -/
def addrs (l : List (ι × α)) : List ι := l.map Prod.fst

/-- The pointer to the first node, or `after` if there is none. -/
def first (l : List (ι × α)) (after : Option ι) : Option ι :=
  match l with
  | [] => after
  | (a, _) :: _ => some a

/-- The pointer to the last node, or `before` if there is none. -/
def last (before : Option ι) : List (ι × α) → Option ι
  | [] => before
  | (a, _) :: l => last (some a) l

/-- The nodes `l` stand in the heap with their data, each linked to its neighbours. -/
def Seg (h : Heap ι (Node ι α)) : Option ι → List (ι × α) → Option ι → Prop
  | _, [], _ => True
  | before, (a, d) :: l, after => h a = .live ⟨before, first l after, d⟩ ∧ Seg h (some a) l after

/-- Following `link` from a pointer until NULL visits the nodes `l`. -/
def Along (h : Heap ι (Node ι α)) (link : Node ι α → Option ι) : Option ι → List (ι × α) → Prop
  | p, [] => p = none
  | p, (a, d) :: l => p = some a ∧ ∃ n, h a = .live n ∧ n.data = d ∧ Along h link (link n) l

/-- Between `head` and `tail` the nodes are a well-formed doubly-linked list: no link leads out of
it, and so none to an allocation that is not live. -/
structure DoublyLinked (h : Heap ι (Node ι α)) (head tail : Option ι) (nodes : List ι) : Prop where
  both : head = none ↔ tail = none
  head_prev : ∀ a ∈ head, ∃ n, h a = .live n ∧ n.prev = none
  tail_next : ∀ a ∈ tail, ∃ n, h a = .live n ∧ n.next = none
  linked : ∀ a ∈ nodes, ∃ n, h a = .live n ∧
    (∀ b ∈ n.next, b ∈ nodes ∧ ∃ m, h b = .live m ∧ m.prev = some a) ∧
    ∀ b ∈ n.prev, b ∈ nodes ∧ ∃ m, h b = .live m ∧ m.next = some a
  head_mem : ∀ a ∈ head, a ∈ nodes
  tail_mem : ∀ a ∈ tail, a ∈ nodes
  acyclic : nodes.Nodup

variable {h h' : Heap ι (Node ι α)} {p q : Option ι} {l l₁ l₂ : List (ι × α)} {a : ι} {d : α}
  {z : ι × α}

@[simp] theorem addrs_nil : addrs ([] : List (ι × α)) = [] := rfl
@[simp] theorem addrs_cons : addrs (z :: l) = z.1 :: addrs l := rfl
@[simp] theorem addrs_append : addrs (l₁ ++ l₂) = addrs l₁ ++ addrs l₂ := List.map_append
@[simp] theorem first_nil : first ([] : List (ι × α)) q = q := rfl
@[simp] theorem first_cons : first (z :: l) q = some z.1 := rfl
@[simp] theorem last_nil : last p ([] : List (ι × α)) = p := rfl
@[simp] theorem last_cons : last p (z :: l) = last (some z.1) l := rfl
@[simp] theorem seg_nil : Seg h p [] q := trivial

theorem seg_cons : Seg h p ((a, d) :: l) q ↔
    h a = .live ⟨p, first l q, d⟩ ∧ Seg h (some a) l q := .rfl

theorem first_append : first (l₁ ++ l₂) q = first l₁ (first l₂ q) := by
  cases l₁ <;> rfl

theorem first_append_of_ne_nil (hl : l₁ ≠ []) (q q' : Option ι) :
    first (l₁ ++ l₂) q = first l₁ q' := by
  cases l₁ with
  | nil => exact absurd rfl hl
  | cons => rfl

theorem last_append : last p (l₁ ++ l₂) = last (last p l₁) l₂ := by
  induction l₁ generalizing p with
  | nil => rfl
  | cons z l₁ ih => exact ih

@[simp] theorem last_concat : last p (l ++ [(a, d)]) = some a := last_append

/-- Both parts, and the links between them. -/
theorem seg_append : Seg h p (l₁ ++ l₂) q ↔ Seg h p l₁ (first l₂ q) ∧ Seg h (last p l₁) l₂ q := by
  induction l₁ generalizing p with
  | nil => simp
  | cons z l₁ ih =>
    rw [List.cons_append, seg_cons, seg_cons, ih, first_append, and_assoc]
    rfl

theorem Seg.congr (hs : Seg h p l q) (heq : ∀ b ∈ addrs l, h' b = h b) : Seg h' p l q := by
  induction l generalizing p with
  | nil => trivial
  | cons z l ih =>
    obtain ⟨hz, hl⟩ := hs
    refine ⟨?_, ih hl fun b hb => heq b (List.mem_cons_of_mem _ hb)⟩
    rw [heq z.1 List.mem_cons_self, hz]

/-- Every node is live, and its links lead to its neighbours or out at the ends. -/
theorem Seg.live (hs : Seg h p l q) (ha : a ∈ addrs l) : ∃ n, h a = .live n := by
  induction l generalizing p with
  | nil => cases ha
  | cons z l ih =>
    cases ha with
    | head => exact ⟨_, hs.1⟩
    | tail _ ha => exact ih hs.2 ha

theorem last_eq_some (hl : l ≠ []) : ∃ l' a d, l = l' ++ [(a, d)] := by
  obtain ⟨l', z, rfl⟩ := List.eq_nil_or_concat l |>.resolve_left hl
  exact ⟨l', z.1, z.2, by rw [List.concat_eq_append]⟩

theorem mem_concat {b : ι} : b ∈ addrs (l ++ [(a, d)]) ↔ b ∈ addrs l ∨ b = a := by
  rw [addrs_append, List.mem_append]
  exact or_congr_right List.mem_singleton

/-- The last node is none of those before it. -/
theorem nodup_concat : (addrs (l ++ [(a, d)])).Nodup ↔ a ∉ addrs l ∧ (addrs l).Nodup := by
  rw [addrs_append]
  exact List.nodup_append_comm.trans List.nodup_cons

/-! ## Stores -/

section stores

variable [DecidableEq ι]

theorem Seg.put (hs : Seg h p l q) {c : Cell (Node ι α)} (ha : a ∉ addrs l) :
    Seg (h.put a c) p l q :=
  hs.congr fun b hb => Heap.put_of_ne (by rintro rfl; exact ha hb)

/-- `first->prev = p'` -/
theorem Seg.modify_prev (hs : Seg h p ((a, d) :: l) q) (ha : a ∉ addrs l) (p' : Option ι) :
    ∃ h', h.modify (some a) (Node.setPrev p') = some h' ∧ Seg h' p' ((a, d) :: l) q ∧
      ∀ b, b ≠ a → h' b = h b :=
  ⟨_, Heap.modify_live hs.1 _, ⟨Heap.put_self, hs.2.put ha⟩, fun _ => Heap.put_of_ne⟩

/-- `last->next = q'` -/
theorem Seg.modify_next (hs : Seg h p (l ++ [(a, d)]) q) (ha : a ∉ addrs l) (q' : Option ι) :
    ∃ h', h.modify (some a) (Node.setNext q') = some h' ∧ Seg h' p (l ++ [(a, d)]) q' ∧
      ∀ b, b ≠ a → h' b = h b := by
  obtain ⟨hl, hz, -⟩ := seg_append.mp hs
  refine ⟨_, Heap.modify_live hz _, ?_, fun _ => Heap.put_of_ne⟩
  exact seg_append.mpr ⟨hl.put ha, Heap.put_self, trivial⟩

end stores

/-! ## What a segment between NULLs is -/

theorem Seg.along_next (hs : Seg h p l none) : Along h Node.next (first l none) l := by
  induction l generalizing p with
  | nil => rfl
  | cons z l ih => exact ⟨rfl, _, hs.1, rfl, ih hs.2⟩

theorem Seg.along_prev (hs : Seg h none l q) : Along h Node.prev (last none l) l.reverse := by
  induction l using List.reverseRecOn generalizing q with
  | nil => rfl
  | append_singleton l z ih =>
    obtain ⟨hl, hz, -⟩ := seg_append.mp hs
    rw [List.reverse_append, last_append]
    exact ⟨rfl, _, hz, rfl, ih hl⟩

/-- The node at a position, and its links. -/
theorem Seg.node (hs : Seg h p (l₁ ++ (a, d) :: l₂) q) :
    h a = .live ⟨last p l₁, first l₂ q, d⟩ :=
  (seg_append.mp hs).2.1

theorem exists_split (ha : a ∈ addrs l) : ∃ l₁ d l₂, l = l₁ ++ (a, d) :: l₂ := by
  obtain ⟨z, hz, rfl⟩ := List.mem_map.mp ha
  obtain ⟨l₁, l₂, rfl⟩ := List.append_of_mem hz
  exact ⟨l₁, z.2, l₂, rfl⟩

/-- The node at a position of the list; NULL stands for no position. -/
def nodeAt (l : List (ι × α)) (i : Option Nat) : Option ι := i.bind fun i => (addrs l)[i]?

theorem nodeAt_append {i : Option Nat} (hi : ∀ j ∈ i, j < l₁.length) :
    nodeAt (l₁ ++ l₂) i = nodeAt l₁ i := by
  cases i with
  | none => rfl
  | some i =>
    have hlt : i < (addrs l₁).length := by
      rw [addrs, List.length_map]
      exact hi i rfl
    rw [nodeAt, Option.bind_some, addrs_append, List.getElem?_append_left hlt]
    rfl

theorem first_eq_nodeAt : first l none = nodeAt l (some 0) := by
  cases l <;> rfl

theorem last_eq_nodeAt (hl : l ≠ []) : last none l = nodeAt l (some (l.length - 1)) := by
  obtain ⟨l, a, d, rfl⟩ := last_eq_some hl
  simp [nodeAt, addrs]

/-- The node at a position leads to the one at the next. -/
theorem Seg.getElem (hs : Seg h p l none) {i : Nat} (hi : l[i]? = some (a, d)) :
    nodeAt l (some i) = some a ∧ ∃ b, h a = .live ⟨b, nodeAt l (some (i + 1)), d⟩ := by
  induction l generalizing p i with
  | nil => cases hi
  | cons z l ih =>
    cases i with
    | zero =>
      cases hi
      exact ⟨rfl, p, hs.1.trans (by rw [first_eq_nodeAt]; rfl)⟩
    | succ i => exact ih hs.2 hi

/-- The node a link at the front leads to. -/
theorem Seg.of_first (hs : Seg h p l none) (ha : first l none = some a) :
    a ∈ addrs l ∧ ∃ n, h a = .live n ∧ n.prev = p := by
  cases l with
  | nil => cases ha
  | cons z l =>
    cases ha
    exact ⟨List.mem_cons_self, _, hs.1, rfl⟩

/-- The node a link at the back leads to. -/
theorem Seg.of_last (hs : Seg h none l q) (ha : last none l = some a) :
    a ∈ addrs l ∧ ∃ n, h a = .live n ∧ n.next = q := by
  obtain rfl | hl := eq_or_ne l []
  · cases ha
  · obtain ⟨l, b, d, rfl⟩ := last_eq_some hl
    rw [last_concat] at ha
    cases ha
    exact ⟨by simp, _, hs.node, rfl⟩

theorem Seg.doublyLinked (hs : Seg h none l none) (hnodup : (addrs l).Nodup) :
    DoublyLinked h (first l none) (last none l) (addrs l) where
  both := by
    obtain rfl | hl := eq_or_ne l []
    · exact ⟨fun _ => rfl, fun _ => rfl⟩
    · obtain ⟨l, b, d, rfl⟩ := last_eq_some hl
      rw [last_concat]
      cases l <;> simp
  head_prev _ ha := (hs.of_first ha).2
  tail_next _ ha := (hs.of_last ha).2
  linked a ha := by
    obtain ⟨l₁, d, l₂, rfl⟩ := exists_split ha
    obtain ⟨h₁, -, h₂⟩ := seg_append.mp hs
    refine ⟨_, hs.node, fun b hb => ?_, fun b hb => ?_⟩
    · obtain ⟨hmem, hn⟩ := h₂.of_first hb
      exact ⟨by simp [hmem], hn⟩
    · obtain ⟨hmem, hn⟩ := h₁.of_last hb
      exact ⟨by simp [hmem], hn⟩
  head_mem _ ha := (hs.of_first ha).1
  tail_mem _ ha := (hs.of_last ha).1
  acyclic := hnodup

/-! ## Going through all nodes -/

section loops

variable {σ : Type*}

/-- The loop that calls `fn` on the data of each node, for at most so many tests of its cursor. -/
def eachNode (h : Heap ι (Node ι α)) (fn : σ → α → Option σ) : Nat → Option ι → σ → Option σ
  | 0, _, _ => none
  | _ + 1, none, s => some s
  | steps + 1, some cursor, s =>
    (h.load (some cursor)).bind fun node =>
      (fn s node.data).bind (eachNode h fn steps node.next)

theorem Seg.eachNode (hs : Seg h p l none) (fn : σ → α → Option σ) {steps : Nat}
    (hsteps : l.length < steps) (s : σ) :
    eachNode h fn steps (first l none) s = (l.map Prod.snd).foldlM fn s := by
  induction l generalizing p steps s with
  | nil =>
    obtain ⟨steps, rfl⟩ := Nat.exists_eq_add_of_lt hsteps
    rfl
  | cons z l ih =>
    cases steps with
    | zero => cases hsteps
    | succ steps =>
      have hrest := ih hs.2 (Nat.lt_of_succ_lt_succ hsteps)
      rw [first_cons, LinkedNodes.eachNode, Heap.load_live hs.1, Option.bind_some, List.map_cons,
        List.foldlM_cons, Option.bind_eq_bind]
      exact congrArg _ (funext hrest)

variable [DecidableEq ι]

/-- The loop that calls `freefn` on the data of each node and then frees the node. -/
def freeNodes (freefn : σ → α → Option σ) :
    Nat → Option ι → Heap ι (Node ι α) → σ → Option (Heap ι (Node ι α) × σ)
  | 0, _, _, _ => none
  | _ + 1, none, h, s => some (h, s)
  | steps + 1, some cursor, h, s =>
    (h.load (some cursor)).bind fun node =>
      let tmp := node.next
      (freefn s node.data).bind fun s =>
        (h.free (some cursor)).bind fun h => freeNodes freefn steps tmp h s

/-- The data is seen in order, and all nodes are freed. -/
theorem Seg.freeNodes (hs : Seg h p l none) (hnodup : (addrs l).Nodup)
    (freefn : σ → α → Option σ) {steps : Nat} (hsteps : l.length < steps) :
    ∃ h', (∀ s, freeNodes freefn steps (first l none) h s =
        ((l.map Prod.snd).foldlM freefn s).map fun s => (h', s)) ∧
      (∀ b ∈ addrs l, h' b = .freed) ∧ ∀ b, b ∉ addrs l → h' b = h b := by
  induction l generalizing h p steps with
  | nil =>
    obtain ⟨steps, rfl⟩ := Nat.exists_eq_add_of_lt hsteps
    exact ⟨h, fun s => rfl, fun b hb => absurd hb List.not_mem_nil, fun _ _ => rfl⟩
  | cons z l ih =>
    cases steps with
    | zero => cases hsteps
    | succ steps =>
      obtain ⟨hz, hl⟩ := List.nodup_cons.mp hnodup
      obtain ⟨h', heq, hfreed, hsame⟩ :=
        ih (hs.2.put (c := .freed) hz) hl (Nat.lt_of_succ_lt_succ hsteps)
      refine ⟨h', fun s => ?_, fun b hb => ?_, fun b hb => ?_⟩
      · rw [first_cons, LinkedNodes.freeNodes, Heap.load_live hs.1, Option.bind_some, List.map_cons,
          List.foldlM_cons, Option.bind_eq_bind]
        simp only [Heap.free_live hs.1, Option.bind_some, heq]
        cases freefn s z.2 <;> rfl
      · obtain rfl | hb := List.mem_cons.mp hb
        · rw [hsame z.1 hz, Heap.put_self]
        · exact hfreed b hb
      · rw [addrs_cons, List.mem_cons, not_or] at hb
        rw [hsame b hb.2, Heap.put_of_ne hb.1]

end loops

/-! ## Several lists -/

section lists

variable {κ : Type*} {nodes : κ → List (ι × α)}

/-- No node is in two of the lists. -/
def Apart (nodes : κ → List (ι × α)) : Prop :=
  ∀ k k', k ≠ k' → ∀ a ∈ addrs (nodes k), a ∉ addrs (nodes k')

/-- A list changes, and takes in none but new nodes. -/
theorem Apart.update [DecidableEq κ] (hapart : Apart nodes) {k : κ}
    (hl : ∀ a ∈ addrs l, a ∈ addrs (nodes k) ∨ ∀ k', a ∉ addrs (nodes k')) :
    Apart (Function.update nodes k l) := by
  intro k₁ k₂ hne a ha₁ ha₂
  by_cases h₁ : k₁ = k
  · subst h₁
    rw [Function.update_self] at ha₁
    rw [Function.update_of_ne hne.symm] at ha₂
    exact (hl a ha₁).elim (fun ha => hapart k₁ k₂ hne a ha ha₂) fun hnew => hnew k₂ ha₂
  · rw [Function.update_of_ne h₁] at ha₁
    by_cases h₂ : k₂ = k
    · subst h₂
      rw [Function.update_self] at ha₂
      exact (hl a ha₂).elim (fun ha => hapart k₁ k₂ hne a ha₁ ha) fun hnew => hnew k₁ ha₁
    · rw [Function.update_of_ne h₂] at ha₂
      exact hapart k₁ k₂ hne a ha₁ ha₂

end lists

/-! ## Accounts -/

/-- Of the nodes that have been allocated since the heap was `h₀`, those of `l` are held, and the
others have been freed; outside them the heap is as it was. -/
structure Accounted (h₀ : Heap ι (Node ι α)) (allocs : List ι) (h : Heap ι (Node ι α))
    (l : List (ι × α)) : Prop where
  held : ∀ n ∈ addrs l, n ∈ allocs
  freed : ∀ n ∈ allocs, n ∉ addrs l → h n = .freed
  others : ∀ n, n ∉ allocs → h n = h₀ n

theorem accounted_nil (h₀ : Heap ι (Node ι α)) : Accounted h₀ [] h₀ [] :=
  ⟨fun _ hn => hn, fun _ hn => absurd hn List.not_mem_nil, fun _ _ => rfl⟩

/-- A step that frees what it takes out of the list, and touches only this and what it puts in. -/
theorem Accounted.next {h₀ : Heap ι (Node ι α)} {allocs new : List ι} {l' : List (ι × α)}
    (ha : Accounted h₀ allocs h l) (hheld : ∀ n ∈ addrs l', n ∈ addrs l ∨ n ∈ new)
    (hfreed : ∀ n, n ∈ addrs l ∨ n ∈ new → n ∉ addrs l' → h' n = .freed)
    (hsame : ∀ n, n ∉ addrs l → n ∉ new → h' n = h n) : Accounted h₀ (allocs ++ new) h' l' where
  held n hn := List.mem_append.mpr ((hheld n hn).imp_left (ha.held n))
  freed n hn hout := by
    by_cases hmem : n ∈ addrs l ∨ n ∈ new
    · exact hfreed n hmem hout
    · rw [not_or] at hmem
      rw [hsame n hmem.1 hmem.2]
      exact ha.freed n ((List.mem_append.mp hn).resolve_right hmem.2) hmem.1
  others n hn := by
    rw [List.mem_append, not_or] at hn
    rw [hsame n (fun hmem => hn.1 (ha.held n hmem)) hn.2]
    exact ha.others n hn.1

variable [DecidableEq ι]

/-- The heap `h₀` with the nodes `allocs` come and gone. -/
def gone (h₀ : Heap ι (Node ι α)) (allocs : List ι) : Heap ι (Node ι α) :=
  fun n => if n ∈ allocs then .freed else h₀ n

/-- Freeing the nodes that are held leaves none that has been allocated. -/
theorem Accounted.freeNodes {σ : Type*} {h₀ : Heap ι (Node ι α)} {allocs : List ι}
    (ha : Accounted h₀ allocs h l) (hs : Seg h p l none) (hnodup : (addrs l).Nodup)
    (freefn : σ → α → Option σ) {steps : Nat} (hsteps : l.length < steps) (s : σ) :
    freeNodes freefn steps (first l none) h s =
      ((l.map Prod.snd).foldlM freefn s).map fun s => (gone h₀ allocs, s) := by
  obtain ⟨h', heq, hfreed, hsame⟩ := hs.freeNodes hnodup freefn hsteps
  have hnone : Accounted h₀ (allocs ++ []) h' [] :=
    ha.next (fun n hn => .inl (absurd hn List.not_mem_nil))
      (fun n hn _ => hfreed n (hn.resolve_right List.not_mem_nil)) fun n hn _ => hsame n hn
  rw [List.append_nil] at hnone
  suffices h' = gone h₀ allocs by rw [heq, this]
  funext n
  by_cases hn : n ∈ allocs
  · exact (hnone.freed n hn List.not_mem_nil).trans (if_pos hn).symm
  · exact (hnone.others n hn).trans (if_neg hn).symm

end LinkedNodes
