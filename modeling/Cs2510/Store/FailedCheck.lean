import Cs2510.Store.Serial

/-!
# A check that fails

`zk.get` raises if a znode of the list has been deleted meanwhile: in the loop, at any of the
children, or at `min_path` after it. By then `num_children` has been overwritten, and `peer_ports`
emptied and filled again up to the child that is gone. `leader` and `leader_port` are only assigned
when nothing can be missing any more.
-/

namespace Cs2510.Store

variable {K V : Type}

/-- What a check that fails should leave as it was. -/
def Server.Unchanged (s s' : Server K V) : Prop :=
  s'.peer_ports = s.peer_ports ∧ s'.leader = s.leader ∧ s'.leader_port = s.leader_port ∧
    s'.num_children = s.num_children

namespace Election

namespace Fetch

/-- From `s`, the rest `c` of a call comes to a `zk.get` that raises, with the globals as in
`s'`. -/
inductive Raises (f : Fetch) : Server K V → Call → Server K V → Prop
  | raised {s s' : Server K V} {c : Call} (h : f.step .kept s c = (s', .raised)) :
    Raises f s c s'
  | goes_on {s s₁ s' : Server K V} {c c₁ : Call} (h : f.step .kept s c = (s₁, .goes_on c₁))
    (hrest : Raises f s₁ c₁ s') : Raises f s c s'

/-- The ports that the loop reads before it comes to a znode that is gone. -/
def found (f : Fetch) : List Path → List Port
  | [] => []
  | c :: children =>
    match f.get c with
    | some p => p :: f.found children
    | none => []

/-- The loop comes to a znode that is gone, or the one of `min_path` is. -/
def Gone (f : Fetch) (zk_path : Option Path) : List Path → Option Path → Prop
  | [], min_path => min_path ≠ zk_path ∧ min_path.bind f.get_min = none
  | c :: children, min_path =>
    match f.get c with
    | some _ => f.Gone zk_path children (some (lower min_path c))
    | none => True

end Fetch

/-! ## What a check that fails leaves -/

namespace Fetch

variable (f : Fetch) {s s' : Server K V} {c : Call}

theorem raises_step : f.Raises s c s' ↔
    match f.step .kept s c with
    | (s₁, .goes_on c₁) => f.Raises s₁ c₁ s'
    | (s₁, .raised) => s₁ = s'
    | (_, .returned) => False := by
  constructor
  · intro h
    cases h with
    | raised h => rw [h]
    | goes_on h hrest =>
      rw [h]
      exact hrest
  · intro h
    cases hstep : f.step .kept s c with
    | mk s₁ outcome =>
      rw [hstep] at h
      cases outcome with
      | goes_on c₁ => exact .goes_on hstep h
      | raised =>
        subst h
        exact .raised hstep
      | returned => exact h.elim

/-- `sync_with_leader` comes after every `zk.get`. -/
theorem not_raises_changed (old : Option Port) : ¬ f.Raises s (.changed old) s' := by
  have hsync : ¬ f.Raises s .sync_with_leader s' := by
    rw [raises_step]
    exact not_false
  rw [raises_step]
  simp only [step, Call.step]
  by_cases hold : old ≠ s.leader_port
  · rw [if_pos hold]
    exact hsync
  · rw [if_neg hold]
    exact not_false

theorem raises_follow (old : Option Port) (min_path : Option Path) :
    f.Raises s (.follow old min_path) s' ↔ min_path.bind f.get_min = none ∧ s' = s := by
  rw [raises_step]
  simp only [step, find, Call.step]
  cases min_path.bind f.get_min with
  | none => simp [eq_comm]
  | some ldr_port =>
    simp only [reduceCtorEq, false_and, iff_false]
    intro h
    rw [raises_step] at h
    exact f.not_raises_changed old h

theorem raises_min (old : Option Port) (min_path : Option Path) :
    f.Raises s (.loop old [] min_path) s' ↔
      (min_path ≠ s.zk_path ∧ min_path.bind f.get_min = none) ∧ s' = s := by
  rw [raises_step]
  simp only [step, Call.step]
  split
  · next hmin =>
    simp only [hmin, ne_eq, not_true, false_and, iff_false]
    intro h
    rw [raises_step] at h
    simp only [step, Call.step] at h
    rw [raises_step] at h
    exact h
  · next hmin =>
    rw [raises_follow, and_assoc]
    exact (and_iff_right hmin).symm

theorem raises_loop (old : Option Port) (children : List Path) (min_path : Option Path) :
    f.Raises s (.loop old children min_path) s' ↔
      f.Gone s.zk_path children min_path ∧
        s' = { s with peer_ports := s.peer_ports ++ f.found children } := by
  induction children generalizing s min_path with
  | nil =>
    rw [raises_min, found, List.append_nil]
    rfl
  | cons c children ih =>
    rw [raises_step]
    simp only [step, find, Call.step, Gone, found]
    cases hget : f.get c with
    | none => simp [eq_comm]
    | some p =>
      simp only
      rw [raises_step]
      simp only [step, Call.step]
      rw [ih]
      simp only [List.append_assoc, List.singleton_append]

/-- When a check raises, and what it leaves then. -/
theorem raises_check_election : f.Raises s (.test f.children) s' ↔
    f.children.length ≤ s.num_children ∧ f.Gone s.zk_path f.children none ∧
      s' = { s with num_children := f.children.length, peer_ports := f.found f.children } := by
  rw [raises_step]
  simp only [step, Call.step]
  by_cases hgrown : f.children.length > s.num_children
  · rw [if_pos hgrown, raises_step]
    simp only [step, Call.step, false_iff]
    intro h
    omega
  · rw [if_neg hgrown, raises_step]
    simp only [step, Call.step]
    -- `num_children`, `old_leader_port` and `peer_ports` before the loop
    rw [raises_step]
    simp only [step, Call.step]
    rw [raises_step]
    simp only [step, Call.step]
    rw [raises_loop]
    simp only [List.nil_append]
    exact (and_iff_right (Nat.le_of_not_gt hgrown)).symm

end Fetch

/-- **A failed check.** Of the globals, `leader` and `leader_port` are as they were; `peer_ports`
and `num_children` are if and only if the list is as long as the one before it, and the ports found
before the `zk.get` that raised are those that were in `peer_ports`. -/
theorem failed_check_iff {f : Fetch} {s s' : Server K V} (h : f.Raises s (.test f.children) s') :
    s.Unchanged s' ↔
      f.children.length = s.num_children ∧ f.found f.children = s.peer_ports := by
  obtain ⟨-, -, rfl⟩ := f.raises_check_election.mp h
  constructor
  · rintro ⟨hports, -, -, hcount⟩
    exact ⟨hcount, hports⟩
  · rintro ⟨hcount, hports⟩
    exact ⟨hports, rfl, rfl, hcount⟩

/-! ## The third server -/

/-- The third of three servers, which follows the first. -/
def third : Server Nat Nat :=
  { Server.start 7779 with
    zk_path := some 2
    num_children := 3
    peer_ports := [7777, 7778, 7779]
    leader_port := some 7777 }

/-- The first server goes after the loop has read its znode. -/
theorem failed_check_after_loop : ∃ s',
    Fetch.Raises ⟨[0, 1, 2], fun c => some (7777 + c), fun _ => none⟩ third (.test [0, 1, 2]) s' ∧
      third.Unchanged s' := by
  have hraises : Fetch.Raises ⟨[0, 1, 2], fun c => some (7777 + c), fun _ => none⟩ third
      (.test [0, 1, 2]) third := by
    apply (Fetch.raises_check_election _).mpr
    exact ⟨by decide, ⟨by decide, by decide⟩, rfl⟩
  exact ⟨third, hraises, (failed_check_iff hraises).mpr ⟨by decide, by decide⟩⟩

/-- The first server goes, and the second before its znode is read: no peer is left. -/
theorem not_failed_check_unchanged : ¬ ∀ (f : Fetch) (s s' : Server Nat Nat),
    f.Raises s (.test f.children) s' → s.Unchanged s' := by
  intro hall
  have hraises : Fetch.Raises ⟨[1, 2], fun c => if c = 1 then none else some 7779, fun _ => none⟩
      third (.test [1, 2]) { third with num_children := 2, peer_ports := [] } := by
    apply (Fetch.raises_check_election _).mpr
    exact ⟨by decide, trivial, rfl⟩
  have hports := (hall _ _ _ hraises).1
  cases hports

end Election

end Cs2510.Store
