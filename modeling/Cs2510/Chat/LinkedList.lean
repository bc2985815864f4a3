import Cs2510.Lib.LinkedNodes
import Cs2510.Lib.TransitionSystem

/-!
# The linked list (`a1/linked_list.c`)

The lists of the server (the log, the connections of a client) are doubly linked, and every
removal tells the first, the last and the only node from the others. `llist_refines` says that the
operations are those of a plain list: no pointer goes astray, and no node moves.

The allocations a caller of `calloc` gets are those the heap has not seen yet; `calloc` does not
fail. A function returns `none` if it dereferences NULL or a node that is not live.
-/

namespace Cs2510.Chat
open LinkedNodes

/-- `struct llist` -/
structure Llist (ι : Type) where
  head : Option ι
  tail : Option ι
  deriving DecidableEq, Repr

variable {ι α : Type}

def create_llist : Llist ι := ⟨none, none⟩

def create_llist_node (data : α) : Node ι α := ⟨none, none, data⟩

def llist_is_empty (l : Llist ι) : Bool := l.head.isNone && l.tail.isNone

section program

variable [DecidableEq ι] (h : Heap ι (Node ι α)) (l : Llist ι)

def llist_insert_head (n : ι) (data : α) : Option (Heap ι (Node ι α) × Llist ι) := do
  let h := h.put n (.live (create_llist_node data))
  if l.head = none then
    return (h, ⟨some n, some n⟩)
  else
    let h ← h.modify l.head (Node.setPrev (some n))
    let h ← h.modify (some n) (Node.setNext l.head)
    return (h, { l with head := some n })

def llist_insert_tail (n : ι) (data : α) : Option (Heap ι (Node ι α) × Llist ι) := do
  let h := h.put n (.live (create_llist_node data))
  if l.tail = none then
    return (h, ⟨some n, some n⟩)
  else
    let h ← h.modify l.tail (Node.setNext (some n))
    let h ← h.modify (some n) (Node.setPrev l.tail)
    return (h, { l with tail := some n })

def llist_remove_head : Option (Heap ι (Node ι α) × Llist ι × α) := do
  let tmp := l.head
  let node ← h.load tmp
  if l.head = l.tail then
    let h ← h.free tmp
    return (h, ⟨none, none⟩, node.data)
  else
    let head := node.next
    let h ← h.modify head (Node.setPrev none)
    let h ← h.free tmp
    return (h, { l with head }, node.data)

def llist_remove_tail : Option (Heap ι (Node ι α) × Llist ι × α) := do
  let tmp := l.tail
  let node ← h.load tmp
  if l.head = l.tail then
    let h ← h.free tmp
    return (h, ⟨none, none⟩, node.data)
  else
    let tail := node.prev
    let h ← h.modify tail (Node.setNext none)
    let h ← h.free tmp
    return (h, { l with tail }, node.data)

def llist_remove_node (n : ι) : Option (Heap ι (Node ι α) × Llist ι × α) := do
  if some n = l.head then
    llist_remove_head h l
  else if some n = l.tail then
    llist_remove_tail h l
  else
    let node ← h.load (some n)
    let h ← h.modify node.prev (Node.setNext node.next)
    let node ← h.load (some n)
    let h ← h.modify node.next (Node.setPrev node.prev)
    let h ← h.free (some n)
    return (h, l, node.data)

variable [DecidableEq α]

/-- The loop of `llist_remove_value`, for at most so many tests of `cursor`: the node it stops at,
if any. -/
def llist_find (value : α) : Nat → Option ι → Option (Option ι)
  | 0, _ => none
  | _ + 1, none => some none
  | steps + 1, some cursor => do
    let node ← h.load (some cursor)
    if node.data = value then return some cursor else llist_find value steps node.next

def llist_remove_value (NULL : α) (steps : Nat) (value : α) :
    Option (Heap ι (Node ι α) × Llist ι × α) := do
  match ← llist_find h value steps l.head with
  | some cursor => llist_remove_node h l cursor
  | none => return (h, l, NULL)

end program

/-! ## What each function does to the list -/

/-- The nodes of the list, in order, each with its data. -/
structure Llist.Holds (h : Heap ι (Node ι α)) (l : Llist ι) (c : List (ι × α)) : Prop where
  seg : Seg h none c none
  nodup : (addrs c).Nodup
  head : l.head = first c none
  tail : l.tail = last none c

/-- Outside the nodes `c` nothing has changed. -/
def Elsewhere (c : List (ι × α)) (h h' : Heap ι (Node ι α)) : Prop := ∀ b, b ∉ addrs c → h' b = h b

variable {h h' : Heap ι (Node ι α)} {l : Llist ι} {c c₁ c₂ : List (ι × α)} {a n : ι} {d : α}

namespace Llist.Holds

theorem is_empty (hl : l.Holds h c) : llist_is_empty l = true ↔ c = [] := by
  have hboth := (hl.seg.doublyLinked hl.nodup).both
  rw [← hl.head, ← hl.tail] at hboth
  rw [llist_is_empty, Bool.and_eq_true, Option.isNone_iff_eq_none, Option.isNone_iff_eq_none,
    ← hboth, and_self, hl.head]
  cases c <;> simp [first]

/-- A node that has been allocated is not a new one. -/
theorem fresh (hl : l.Holds h c) (hn : h n = .unborn) : n ∉ addrs c := by
  intro hmem
  obtain ⟨_, hlive⟩ := hl.seg.live hmem
  rw [hn] at hlive
  cases hlive

/-- A node with one before it is not the first. -/
theorem head_ne {x : ι} {q : Option ι} (hl : l.Holds h c) (ha : h a = .live ⟨some x, q, d⟩) :
    l.head ≠ some a := by
  intro hhead
  obtain ⟨-, n, hlive, hprev⟩ := hl.seg.of_first (hhead ▸ hl.head.symm)
  rw [ha] at hlive
  cases hlive
  cases hprev

/-- A node with one behind it is not the last. -/
theorem tail_ne {y : ι} {p : Option ι} (hl : l.Holds h c) (ha : h a = .live ⟨p, some y, d⟩) :
    l.tail ≠ some a := by
  intro htail
  obtain ⟨-, n, hlive, hnext⟩ := hl.seg.of_last (htail ▸ hl.tail.symm)
  rw [ha] at hlive
  cases hlive
  cases hnext

variable [DecidableEq ι]

theorem insert_head (hl : l.Holds h c) (hn : h n = .unborn) (data : α) :
    ∃ h' l', llist_insert_head h l n data = some (h', l') ∧ l'.Holds h' ((n, data) :: c) ∧
      Elsewhere ((n, data) :: c) h h' := by
  have hfresh := hl.fresh hn
  have hput := hl.seg.put (c := .live (create_llist_node data)) hfresh
  have hnodup : (addrs ((n, data) :: c)).Nodup := List.nodup_cons.mpr ⟨hfresh, hl.nodup⟩
  cases c with
  | nil =>
    refine ⟨_, _, if_pos hl.head, ⟨⟨Heap.put_self, trivial⟩, hnodup, rfl, rfl⟩, fun b hb => ?_⟩
    exact Heap.put_of_ne (by rintro rfl; exact hb List.mem_cons_self)
  | cons z c =>
    have hhead : l.head = some z.1 := hl.head
    obtain ⟨hz, hc⟩ := List.nodup_cons.mp hl.nodup
    obtain ⟨h₁, heq₁, hs₁, hsame₁⟩ := hput.modify_prev hz (some n)
    have hne : n ≠ z.1 := by rintro rfl; exact hfresh List.mem_cons_self
    have hn₁ : h₁ n = .live (create_llist_node data) := by rw [hsame₁ n hne, Heap.put_self]
    refine ⟨h₁.put n (.live (Node.setNext l.head (create_llist_node data))),
      { l with head := some n }, ?_, ⟨⟨?_, hs₁.put hfresh⟩, hnodup, rfl, ?_⟩, fun b hb => ?_⟩
    · simp [llist_insert_head, hhead, heq₁, Heap.modify_live hn₁]
    · rw [Heap.put_self, hhead]
      rfl
    · exact hl.tail
    · simp only [addrs_cons, List.mem_cons, not_or] at hb
      rw [Heap.put_of_ne hb.1, hsame₁ b hb.2.1, Heap.put_of_ne hb.1]

theorem insert_tail (hl : l.Holds h c) (hn : h n = .unborn) (data : α) :
    ∃ h' l', llist_insert_tail h l n data = some (h', l') ∧ l'.Holds h' (c ++ [(n, data)]) ∧
      Elsewhere (c ++ [(n, data)]) h h' := by
  have hfresh := hl.fresh hn
  have hput := hl.seg.put (c := .live (create_llist_node data)) hfresh
  have hnodup : (addrs (c ++ [(n, data)])).Nodup := nodup_concat.mpr ⟨hfresh, hl.nodup⟩
  obtain rfl | hc := eq_or_ne c []
  · refine ⟨_, _, if_pos hl.tail, ⟨⟨Heap.put_self, trivial⟩, hnodup, rfl, rfl⟩, fun b hb => ?_⟩
    exact Heap.put_of_ne (by rintro rfl; exact hb List.mem_cons_self)
  · obtain ⟨c, z, dz, rfl⟩ := last_eq_some hc
    have htail : l.tail = some z := by rw [hl.tail, last_concat]
    have hz : z ∉ addrs c := (nodup_concat.mp hl.nodup).1
    obtain ⟨h₁, heq₁, hs₁, hsame₁⟩ := hput.modify_next hz (some n)
    have hne : n ≠ z := by rintro rfl; exact hfresh (by simp)
    have hn₁ : h₁ n = .live (create_llist_node data) := by rw [hsame₁ n hne, Heap.put_self]
    refine ⟨h₁.put n (.live (Node.setPrev l.tail (create_llist_node data))),
      { l with tail := some n }, ?_,
      ⟨seg_append.mpr ⟨hs₁.put hfresh, ?_, trivial⟩, hnodup, ?_, last_concat.symm⟩, fun b hb => ?_⟩
    · simp [llist_insert_tail, htail, heq₁, Heap.modify_live hn₁]
    · rw [Heap.put_self, htail, last_concat]
      rfl
    · exact hl.head.trans (first_append_of_ne_nil hc none none).symm
    · simp only [addrs_append, List.mem_append, addrs_cons, addrs_nil, List.mem_singleton,
        not_or] at hb
      rw [Heap.put_of_ne hb.2, hsame₁ b hb.1.2, Heap.put_of_ne hb.2]

theorem remove_head (hl : l.Holds h ((a, d) :: c)) :
    ∃ h' l', llist_remove_head h l = some (h', l', d) ∧ l'.Holds h' c ∧
      Elsewhere ((a, d) :: c) h h' := by
  have hhead : l.head = some a := hl.head
  have ha : h a = .live ⟨none, first c none, d⟩ := hl.seg.1
  obtain ⟨hac, hnodup⟩ := List.nodup_cons.mp hl.nodup
  cases c with
  | nil =>
    have htail : l.tail = some a := hl.tail
    refine ⟨h.put a .freed, ⟨none, none⟩, ?_, ⟨trivial, hnodup, rfl, rfl⟩, fun b hb => ?_⟩
    · simp [llist_remove_head, hhead, htail, Heap.load_live ha, Heap.free_live ha]
    · exact Heap.put_of_ne (by rintro rfl; exact hb List.mem_cons_self)
  | cons z c =>
    obtain ⟨hz, -⟩ := List.nodup_cons.mp hnodup
    obtain ⟨h₁, heq₁, hs₁, hsame₁⟩ := hl.seg.2.modify_prev hz none
    have hne : a ≠ z.1 := by rintro rfl; exact hac List.mem_cons_self
    have ha₁ : h₁ a = .live ⟨none, some z.1, d⟩ := by rw [hsame₁ a hne, ha]; rfl
    have htail : l.tail ≠ some a := hl.tail_ne ha
    refine ⟨h₁.put a .freed, { l with head := some z.1 }, ?_,
      ⟨hs₁.put hac, hnodup, rfl, hl.tail⟩, fun b hb => ?_⟩
    · have hload := Heap.load_live ha
      simp [llist_remove_head, hhead, htail.symm, hload, first, heq₁, Heap.free_live ha₁]
    · simp only [addrs_cons, List.mem_cons, not_or] at hb
      rw [Heap.put_of_ne hb.1, hsame₁ b hb.2.1]

theorem remove_tail (hl : l.Holds h (c ++ [(a, d)])) :
    ∃ h' l', llist_remove_tail h l = some (h', l', d) ∧ l'.Holds h' c ∧
      Elsewhere (c ++ [(a, d)]) h h' := by
  have htail : l.tail = some a := by rw [hl.tail, last_concat]
  obtain ⟨hc, ha, -⟩ := seg_append.mp hl.seg
  obtain ⟨hac, hnodup⟩ := nodup_concat.mp hl.nodup
  obtain rfl | hne := eq_or_ne c []
  · have hhead : l.head = some a := hl.head
    refine ⟨h.put a .freed, ⟨none, none⟩, ?_, ⟨trivial, hnodup, rfl, rfl⟩, fun b hb => ?_⟩
    · simp [llist_remove_tail, hhead, htail, Heap.load_live ha, Heap.free_live ha]
    · exact Heap.put_of_ne (by rintro rfl; exact hb List.mem_cons_self)
  · obtain ⟨c, z, dz, rfl⟩ := last_eq_some hne
    have hz : z ∉ addrs c := (nodup_concat.mp hnodup).1
    obtain ⟨h₁, heq₁, hs₁, hsame₁⟩ := hc.modify_next hz none
    have hza : a ≠ z := by rintro rfl; exact hac (by simp)
    have hload : h a = .live ⟨some z, none, d⟩ := by rw [ha, last_concat]; rfl
    have ha₁ : h₁ a = .live ⟨some z, none, d⟩ := by rw [hsame₁ a hza, hload]
    have hhead : l.head ≠ some a := hl.head_ne hload
    refine ⟨h₁.put a .freed, { l with tail := some z }, ?_,
      ⟨hs₁.put hac, hnodup, ?_, last_concat.symm⟩, fun b hb => ?_⟩
    · simp [llist_remove_tail, htail, hhead, Heap.load_live hload, heq₁, Heap.free_live ha₁]
    · exact hl.head.trans (first_append_of_ne_nil hne none none)
    · simp only [addrs_append, List.mem_append, addrs_cons, addrs_nil, List.mem_singleton,
        not_or] at hb
      rw [Heap.put_of_ne hb.2, hsame₁ b hb.1.2]

/-- A node with neighbours on both sides. -/
theorem remove_inner {x y : ι} {dx dy : α}
    (hl : l.Holds h (c₁ ++ (x, dx) :: (a, d) :: (y, dy) :: c₂))
    (hhead : some a ≠ l.head) (htail : some a ≠ l.tail) :
    ∃ h', llist_remove_node h l a = some (h', l, d) ∧ l.Holds h' (c₁ ++ (x, dx) :: (y, dy) :: c₂) ∧
      Elsewhere (c₁ ++ (x, dx) :: (a, d) :: (y, dy) :: c₂) h h' := by
  have hsplit : c₁ ++ (x, dx) :: (a, d) :: (y, dy) :: c₂ =
      (c₁ ++ [(x, dx)]) ++ (a, d) :: (y, dy) :: c₂ := by simp
  have hseg := hl.seg
  rw [hsplit] at hseg
  obtain ⟨hs₁, ha, hs₂⟩ := seg_append.mp hseg
  rw [last_concat] at ha
  have hnodup := hl.nodup
  simp only [addrs_append, addrs_cons, List.nodup_append, List.nodup_cons, List.mem_cons,
    not_or] at hnodup
  obtain ⟨hc₁, ⟨⟨hxa, hxy, hxc⟩, ⟨hay, hac⟩, hyc, hc₂⟩, hdisjoint⟩ := hnodup
  have hx₁ : x ∉ addrs c₁ := fun hmem => hdisjoint x hmem x (.inl rfl) rfl
  have ha₁ : a ∉ addrs c₁ := fun hmem => hdisjoint a hmem a (.inr (.inl rfl)) rfl
  have hy₁ : y ∉ addrs c₁ := fun hmem => hdisjoint y hmem y (.inr (.inr (.inl rfl))) rfl
  -- `n->prev->next = n->next`
  obtain ⟨h₁, heq₁, hs₁, hsame₁⟩ := hs₁.modify_next hx₁ (some y)
  have hload₁ : h₁ a = .live ⟨some x, some y, d⟩ := by rw [hsame₁ a (Ne.symm hxa), ha]; rfl
  have hs₂ : Seg h₁ (some a) ((y, dy) :: c₂) none := by
    refine hs₂.congr fun b hb => hsame₁ b ?_
    rintro rfl
    rcases List.mem_cons.mp hb with rfl | hb
    · exact hxy rfl
    · exact hxc hb
  -- `n->next->prev = n->prev`
  obtain ⟨h₂, heq₂, hs₂, hsame₂⟩ := hs₂.modify_prev hyc (some x)
  have hload₂ : h₂ a = .live ⟨some x, some y, d⟩ := by rw [hsame₂ a hay, hload₁]
  have hs₁ : Seg h₂ none (c₁ ++ [(x, dx)]) (some y) := by
    refine hs₁.congr fun b hb => hsame₂ b ?_
    rintro rfl
    rw [addrs_append, List.mem_append] at hb
    rcases hb with hb | hb
    · exact hy₁ hb
    · exact hxy (List.mem_singleton.mp hb).symm
  refine ⟨h₂.put a .freed, ?_, ⟨?_, ?_, ?_, ?_⟩, fun b hb => ?_⟩
  · simp [llist_remove_node, hhead, htail, Heap.load_live ha, first, heq₁, Heap.load_live hload₁,
      heq₂, Heap.free_live hload₂]
  · have happend : c₁ ++ (x, dx) :: (y, dy) :: c₂ = (c₁ ++ [(x, dx)]) ++ (y, dy) :: c₂ := by simp
    rw [happend, seg_append, last_concat]
    refine ⟨hs₁.put ?_, hs₂.put ?_⟩
    · simpa [ha₁] using Ne.symm hxa
    · simpa using ⟨hay, hac⟩
  · simp only [addrs_append, addrs_cons, List.nodup_append, List.nodup_cons, List.mem_cons, not_or]
    exact ⟨hc₁, ⟨⟨hxy, hxc⟩, hyc, hc₂⟩, fun b hb b' hb' => hdisjoint b hb b' (by
      rcases hb' with rfl | rfl | hb'
      · exact .inl rfl
      · exact .inr (.inr (.inl rfl))
      · exact .inr (.inr (.inr hb')))⟩
  · rw [hl.head, first_append, first_append]
    rfl
  · rw [hl.tail, last_append, last_append]
    rfl
  · simp only [addrs_append, addrs_cons, List.mem_append, List.mem_cons, not_or] at hb
    rw [Heap.put_of_ne hb.2.2.1, hsame₂ b hb.2.2.2.1, hsame₁ b hb.2.1]

theorem remove_node (hl : l.Holds h (c₁ ++ (a, d) :: c₂)) :
    ∃ h' l', llist_remove_node h l a = some (h', l', d) ∧ l'.Holds h' (c₁ ++ c₂) ∧
      Elsewhere (c₁ ++ (a, d) :: c₂) h h' := by
  obtain rfl | hne₁ := eq_or_ne c₁ []
  · have hhead : some a = l.head := hl.head.symm
    unfold llist_remove_node
    rw [if_pos hhead]
    exact hl.remove_head
  obtain ⟨c₁, x, dx, rfl⟩ := last_eq_some hne₁
  have ha := hl.seg.node
  rw [last_concat] at ha
  have hhead : some a ≠ l.head := (hl.head_ne ha).symm
  cases c₂ with
  | nil =>
    have htail : some a = l.tail := by rw [hl.tail, last_concat]
    unfold llist_remove_node
    rw [if_neg hhead, if_pos htail, List.append_nil]
    exact hl.remove_tail
  | cons y c₂ =>
    have htail : some a ≠ l.tail := (hl.tail_ne ha).symm
    simp only [List.append_assoc, List.singleton_append] at hl ⊢
    obtain ⟨h', heq, hrest⟩ := hl.remove_inner hhead htail
    exact ⟨h', l, heq, hrest⟩

end Llist.Holds

/-- The loop stops at the first node with the value, or comes to the end. -/
theorem llist_find_spec [DecidableEq ι] [DecidableEq α] {p : Option ι} (hs : Seg h p c none)
    (value : α) {steps : Nat} (hsteps : c.length < steps) :
    llist_find h value steps (first c none) =
      some ((c.find? fun z => z.2 = value).map Prod.fst) := by
  induction c generalizing p steps with
  | nil =>
    obtain ⟨steps, rfl⟩ := Nat.exists_eq_add_of_lt hsteps
    rfl
  | cons z c ih =>
    obtain ⟨hz, hs⟩ := hs
    cases steps with
    | zero => cases hsteps
    | succ steps =>
      have hrest := ih hs (Nat.lt_of_succ_lt_succ hsteps)
      simp only [first_cons, llist_find, Heap.load_live hz, Option.bind_eq_bind, Option.bind_some]
      by_cases hv : z.2 = value
      · simp [hv]
      · simp [hv, hrest]

theorem Llist.Holds.remove_value [DecidableEq ι] [DecidableEq α] (hl : l.Holds h c) (NULL : α)
    {steps : Nat} (hsteps : c.length < steps) (value : α) :
    ∃ h' l', llist_remove_value h l NULL steps value =
        some (h', l', if value ∈ c.map Prod.snd then value else NULL) ∧
      l'.Holds h' (c.eraseP fun z => z.2 = value) ∧ Elsewhere c h h' := by
  have hfind := llist_find_spec hl.seg value hsteps
  rw [← hl.head] at hfind
  by_cases hv : value ∈ c.map Prod.snd
  · obtain ⟨z, hz, hd⟩ := List.mem_map.mp hv
    obtain ⟨⟨a, d⟩, c₁, c₂, hfirst, hd, rfl, herase⟩ :=
      List.exists_of_eraseP (p := fun y : ι × α => y.2 = value) hz (decide_eq_true hd)
    have hfound : (c₁ ++ (a, d) :: c₂).find? (fun y => y.2 = value) = some (a, d) :=
      List.find?_eq_some_iff_append.mpr ⟨hd, c₁, c₂, rfl, by simpa using hfirst⟩
    obtain ⟨h', l', heq, hl', helse⟩ := hl.remove_node
    rw [show d = value from of_decide_eq_true hd] at heq
    refine ⟨h', l', ?_, herase ▸ hl', helse⟩
    rw [if_pos hv]
    simp only [llist_remove_value, hfind, hfound, Option.map_some, Option.bind_eq_bind,
      Option.bind_some, heq]
  · have hnone : ∀ z ∈ c, ¬decide (z.2 = value) = true := by
      intro z hz hd
      exact hv (List.mem_map.mpr ⟨z, hz, of_decide_eq_true hd⟩)
    refine ⟨h, l, ?_, (List.eraseP_of_forall_not hnone).symm ▸ hl, fun _ _ => rfl⟩
    rw [if_neg hv]
    simp only [llist_remove_value, hfind, List.find?_eq_none.mpr hnone, Option.map_none,
      Option.bind_eq_bind, Option.bind_some]
    rfl

/-! ## Sequences of operations -/

/-- A call, with the allocation `calloc` returns, or with the number of tests its loop may make. -/
inductive LlistOp (ι α : Type)
  | insert_head (n : ι) (data : α)
  | insert_tail (n : ι) (data : α)
  | remove_head
  | remove_tail
  | remove_node (n : ι)
  | remove_value (steps : Nat) (value : α)
  /-- the rest of the program uses the heap -/
  | elsewhere (h : Heap ι (Node ι α))

/-- A list in a heap, and as history what it should hold. -/
structure LlistRun (ι α : Type) where
  heap : Heap ι (Node ι α)
  list : Llist ι
  contents : List (ι × α)
  failed : Bool

namespace LlistOp

variable [DecidableEq ι] [DecidableEq α]

/-- The call, and what it returns, if anything. -/
def exec (NULL : α) (h : Heap ι (Node ι α)) (l : Llist ι) :
    LlistOp ι α → Option (Heap ι (Node ι α) × Llist ι × Option α)
  | .insert_head n data => (llist_insert_head h l n data).map fun (h, l) => (h, l, none)
  | .insert_tail n data => (llist_insert_tail h l n data).map fun (h, l) => (h, l, none)
  | .remove_head => (llist_remove_head h l).map fun (h, l, data) => (h, l, some data)
  | .remove_tail => (llist_remove_tail h l).map fun (h, l, data) => (h, l, some data)
  | .remove_node n => (llist_remove_node h l n).map fun (h, l, data) => (h, l, some data)
  | .remove_value steps value =>
    (llist_remove_value h l NULL steps value).map fun (h, l, data) => (h, l, some data)
  | .elsewhere h => some (h, l, none)

/-- The operation on a plain list, and what it returns. -/
def plain (NULL : α) (c : List (ι × α)) : LlistOp ι α → List (ι × α) × Option α
  | .insert_head n data => ((n, data) :: c, none)
  | .insert_tail n data => (c ++ [(n, data)], none)
  | .remove_head => (c.tail, c.head?.map Prod.snd)
  | .remove_tail => (c.dropLast, c.getLast?.map Prod.snd)
  | .remove_node n => (c.eraseP fun z => z.1 = n, (c.find? fun z => z.1 = n).map Prod.snd)
  | .remove_value _ value =>
    (c.eraseP fun z => z.2 = value, some (if value ∈ c.map Prod.snd then value else NULL))
  | .elsewhere _ => (c, none)

/-- The operation on the data alone; a node stands for its position in the list. -/
def onData (nodes : List ι) (data : List α) : LlistOp ι α → List α
  | .insert_head _ d => d :: data
  | .insert_tail _ d => data ++ [d]
  | .remove_head => data.tail
  | .remove_tail => data.dropLast
  | .remove_node n => data.eraseIdx (nodes.idxOf n)
  | .remove_value _ value => data.erase value
  | .elsewhere _ => data

/-- The nodes an operation works on. -/
def touches (c : List (ι × α)) : LlistOp ι α → List (ι × α)
  | .insert_head n data | .insert_tail n data => (n, data) :: c
  | _ => c

theorem plain_data (NULL : α) (c : List (ι × α)) (op : LlistOp ι α) :
    (op.plain NULL c).1.map Prod.snd = op.onData (addrs c) (c.map Prod.snd) := by
  cases op with
  | insert_head | remove_head | elsewhere => simp [plain, onData]
  | insert_tail => simp [plain, onData]
  | remove_tail => simp [plain, onData, List.map_dropLast]
  | remove_node n =>
    simp only [plain, onData]
    induction c with
    | nil => rfl
    | cons z c ih =>
      by_cases hz : z.1 = n
      · simp [hz]
      · simp [hz, ih]
  | remove_value _ value =>
    simp only [plain, onData]
    induction c with
    | nil => rfl
    | cons z c ih =>
      by_cases hz : z.2 = value
      · simp [hz]
      · simp [hz, ih]

end LlistOp

namespace LlistRun

def enabled (s : LlistRun ι α) : LlistOp ι α → Prop
  | .insert_head n _ | .insert_tail n _ => s.heap n = .unborn
  | .remove_head | .remove_tail => llist_is_empty s.list = false
  | .remove_node n => n ∈ addrs s.contents
  | .remove_value steps _ => s.contents.length < steps
  | .elsewhere h => ∀ a ∈ addrs s.contents, h a = s.heap a

variable [DecidableEq ι] [DecidableEq α]

def next (NULL : α) (s : LlistRun ι α) (op : LlistOp ι α) : LlistRun ι α :=
  match op.exec NULL s.heap s.list with
  | some (heap, list, _) => { s with heap, list, contents := (op.plain NULL s.contents).1 }
  | none => { s with failed := true }

end LlistRun

/-- The operations on a list that has been created in a heap. -/
def llist [DecidableEq ι] [DecidableEq α] (NULL : α) (h : Heap ι (Node ι α)) :
    TransitionSystem (LlistRun ι α) (LlistOp ι α) where
  init := ⟨h, create_llist, [], false⟩
  enabled := LlistRun.enabled
  next := LlistRun.next NULL

/-- What one operation does: it returns what it should, and leaves the other nodes as they are. -/
theorem LlistOp.exec_spec [DecidableEq ι] [DecidableEq α] (NULL : α) {s : LlistRun ι α}
    (hl : s.list.Holds s.heap s.contents) {op : LlistOp ι α} (he : s.enabled op) :
    ∃ h' l', op.exec NULL s.heap s.list = some (h', l', (op.plain NULL s.contents).2) ∧
      l'.Holds h' (op.plain NULL s.contents).1 ∧
      ((∀ h, op ≠ .elsewhere h) → Elsewhere (op.touches s.contents) s.heap h') := by
  have hne : llist_is_empty s.list = false → s.contents ≠ [] := by
    intro hfalse hnil
    rw [hl.is_empty.mpr hnil] at hfalse
    cases hfalse
  cases op with
  | insert_head n data =>
    obtain ⟨h', l', heq, hl', helse⟩ := hl.insert_head he data
    exact ⟨h', l', by simp [exec, plain, heq], hl', fun _ => helse⟩
  | insert_tail n data =>
    obtain ⟨h', l', heq, hl', helse⟩ := hl.insert_tail he data
    refine ⟨h', l', by simp [exec, plain, heq], hl', fun _ b hb => helse b ?_⟩
    simpa [touches, and_comm] using hb
  | remove_head =>
    obtain ⟨z, c, hc⟩ := List.exists_cons_of_ne_nil (hne he)
    rw [hc] at hl ⊢
    obtain ⟨h', l', heq, hl', helse⟩ := hl.remove_head
    exact ⟨h', l', by simp [exec, plain, heq], hl', fun _ => helse⟩
  | remove_tail =>
    obtain ⟨c, a, d, hc⟩ := last_eq_some (hne he)
    rw [hc] at hl ⊢
    obtain ⟨h', l', heq, hl', helse⟩ := hl.remove_tail
    refine ⟨h', l', by simp [exec, plain, heq], ?_, fun _ => helse⟩
    simpa [plain] using hl'
  | remove_node n =>
    obtain ⟨z, hz, rfl⟩ := List.mem_map.mp he
    obtain ⟨⟨a, d⟩, c₁, c₂, hfirst, hd, hc, herase⟩ :=
      List.exists_of_eraseP (p := fun y : ι × α => y.1 = z.1) hz (decide_eq_true rfl)
    have hfound : s.contents.find? (fun y => y.1 = z.1) = some (a, d) :=
      List.find?_eq_some_iff_append.mpr ⟨hd, c₁, c₂, hc, by simpa using hfirst⟩
    have hl₁ := hl
    rw [hc] at hl₁
    obtain ⟨h', l', heq, hl', helse⟩ := hl₁.remove_node
    rw [show a = z.1 from of_decide_eq_true hd] at heq
    refine ⟨h', l', by simp [exec, plain, heq, hfound], ?_, fun _ => ?_⟩
    · simpa only [plain, herase] using hl'
    · simpa only [touches, hc] using helse
  | remove_value steps value =>
    obtain ⟨h', l', heq, hl', helse⟩ := hl.remove_value NULL he value
    exact ⟨h', l', by simp [exec, plain, heq], hl', fun _ => helse⟩
  | elsewhere h =>
    exact ⟨h, s.list, rfl, ⟨hl.seg.congr he, hl.nodup, hl.head, hl.tail⟩,
      fun hother => absurd rfl (hother h)⟩

theorem LlistOp.next_eq [DecidableEq ι] [DecidableEq α] {NULL : α} {s : LlistRun ι α}
    {op : LlistOp ι α} {l' : Llist ι} {r : Option α}
    (heq : op.exec NULL s.heap s.list = some (h', l', r)) :
    s.next NULL op =
      { s with heap := h', list := l', contents := (op.plain NULL s.contents).1 } := by
  unfold LlistRun.next
  rw [heq]

theorem LlistRun.holds [DecidableEq ι] [DecidableEq α] {NULL : α} {h : Heap ι (Node ι α)}
    {s : LlistRun ι α} (hr : (llist NULL h).Reachable s) :
    s.failed = false ∧ s.list.Holds s.heap s.contents := by
  refine hr.invariant (I := fun s => s.failed = false ∧ s.list.Holds s.heap s.contents)
    ⟨rfl, trivial, List.nodup_nil, rfl, rfl⟩ ?_
  rintro s op ⟨hok, hl⟩ he -
  obtain ⟨h', l', heq, hl', -⟩ := LlistOp.exec_spec NULL hl he
  rw [show (llist NULL h).next s op = _ from LlistOp.next_eq heq]
  exact ⟨hok, hl'⟩

/-- **The linked list is a list.** After any sequence of operations the nodes are well linked; read
along `next` they hold the data of the plain list, and along `prev` its reverse. The next operation
changes both alike, returns what it removes from the plain list, and touches no other node. -/
theorem llist_refines [DecidableEq ι] [DecidableEq α] (NULL : α) (h : Heap ι (Node ι α))
    {s : LlistRun ι α} (hr : (llist NULL h).Reachable s) :
    s.failed = false ∧
    DoublyLinked s.heap s.list.head s.list.tail (addrs s.contents) ∧
    Along s.heap Node.next s.list.head s.contents ∧
    Along s.heap Node.prev s.list.tail s.contents.reverse ∧
    ∀ op, s.enabled op → ∃ h' l' contents',
      op.exec NULL s.heap s.list = some (h', l', (op.plain NULL s.contents).2) ∧
      (op.plain NULL s.contents).1 = contents' ∧
      contents'.map Prod.snd = op.onData (addrs s.contents) (s.contents.map Prod.snd) ∧
      s.next NULL op = ⟨h', l', contents', false⟩ ∧
      ((∀ h, op ≠ .elsewhere h) → Elsewhere (op.touches s.contents) s.heap h') := by
  obtain ⟨hok, hl⟩ := LlistRun.holds hr
  refine ⟨hok, ?_, ?_, ?_, fun op he => ?_⟩
  · rw [hl.head, hl.tail]
    exact hl.seg.doublyLinked hl.nodup
  · rw [hl.head]
    exact hl.seg.along_next
  · rw [hl.tail]
    exact hl.seg.along_prev
  · obtain ⟨h', l', heq, -, helse⟩ := LlistOp.exec_spec NULL hl he
    have hnext := LlistOp.next_eq heq
    rw [hok] at hnext
    exact ⟨h', l', _, heq, rfl, LlistOp.plain_data NULL _ op, hnext, helse⟩

/-- A value that occurs twice is removed once. -/
def descriptors : List (LlistOp Nat Nat) :=
  [.insert_tail 0 5, .insert_tail 1 7, .insert_head 2 6, .insert_tail 3 7, .remove_value 9 7,
    .remove_head]

instance [DecidableEq ι] [DecidableEq α] (s : LlistRun ι α) (op : LlistOp ι α) :
    Decidable (s.enabled op) :=
  match op with
  | .insert_head .. | .insert_tail .. | .remove_head | .remove_tail =>
    inferInstanceAs (Decidable (_ = _))
  | .remove_node n => inferInstanceAs (Decidable (n ∈ addrs s.contents))
  | .remove_value steps _ => inferInstanceAs (Decidable (_ < steps))
  | .elsewhere _ => inferInstanceAs (Decidable (∀ a ∈ addrs s.contents, _))

instance [DecidableEq ι] [DecidableEq α] (NULL : α) (h : Heap ι (Node ι α)) (s : LlistRun ι α)
    (op : LlistOp ι α) : Decidable ((llist NULL h).enabled s op) :=
  inferInstanceAs (Decidable (s.enabled op))

theorem llist_refines_descriptors : ∃ s : LlistRun Nat Nat,
    (llist 0 fun _ => .unborn).Reachable s ∧ s.contents = [(0, 5), (3, 7)] ∧
    DoublyLinked s.heap s.list.head s.list.tail [0, 3] ∧
    Along s.heap Node.next s.list.head [(0, 5), (3, 7)] ∧
    Along s.heap Node.prev s.list.tail [(3, 7), (0, 5)] := by
  have hrun : ((llist 0 fun _ => .unborn).exec (fun _ _ => True) (llist 0 fun _ => .unborn).init
      descriptors).any (fun s => s.contents = [(0, 5), (3, 7)]) = true := by
    decide
  obtain ⟨s, hs, hc⟩ := TransitionSystem.exists_reach_of_exec hrun
  obtain ⟨-, hlinked, hnext, hprev, -⟩ := llist_refines 0 _ hs
  rw [of_decide_eq_true hc] at hlinked hnext hprev
  exact ⟨s, hs, of_decide_eq_true hc, hlinked, hnext, hprev⟩

end Cs2510.Chat
