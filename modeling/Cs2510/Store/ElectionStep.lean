import Mathlib.Data.List.Nodup
import Cs2510.Store.Election

/-!
# What a step of the election does

`Acts` says what an event does to the server it is about. From it come the facts that both results
on the election rest on: a live server's znode is a child of `/election`, and the children a call
has still to visit, with the minimum it has found, cover the membership (`Covers`).
-/

namespace Cs2510.Store.Election

variable {K V : Type}

/-! ## Calls -/

section step

variable (get : Path → Option Port) (sync : Sync K V) (s : Server K V) (c : Call)

theorem Call.step_port : (c.step get sync s).1.port = s.port := by
  unfold Call.step
  split <;> try rfl
  all_goals split <;> rfl

theorem Call.step_zk_path : (c.step get sync s).1.zk_path = s.zk_path := by
  unfold Call.step
  split <;> try rfl
  all_goals split <;> rfl

/-- What a step does to `leader_port`. -/
theorem Call.step_leader_port :
    (c.step get sync s).1.leader_port = s.leader_port ∨
    (c.step get sync s).1.leader_port = some s.port ∨
    ∃ old_leader_port ldr_port, c = .follow_port old_leader_port ldr_port ∧
      c.step get sync s =
        ({ s with leader_port := some ldr_port }, .goes_on (.changed old_leader_port)) := by
  cases c with
  | loop old_leader_port children min_path =>
    left
    cases children with
    | nil => rfl
    | cons c children => simp only [Call.step]; split <;> rfl
  | follow old_leader_port min_path => left; simp only [Call.step]; split <;> rfl
  | sync_with_leader => left; simp only [Call.step]; split <;> rfl
  | lead_port => exact .inr (.inl rfl)
  | follow_port old_leader_port ldr_port => exact .inr (.inr ⟨_, _, rfl, rfl⟩)
  | _ => exact .inl rfl

variable {get sync s c}

theorem Call.step_leader (h : (c.step get sync s).1.leader = true) :
    s.leader = true ∨ c = .lead := by
  unfold Call.step at h
  split at h
  case h_9 => exact .inr rfl
  all_goals first
    | exact .inl h
    | split at h <;> exact .inl h

theorem Call.leader_of_step (h : s.leader = true) : (c.step get sync s).1.leader = true := by
  unfold Call.step
  split
  case h_9 => rfl
  all_goals first
    | exact h
    | split <;> exact h

/-- Only the comparison of `min_path` with `zk_path` makes a call lead. -/
theorem Call.step_lead (h : (c.step get sync s).2 = .goes_on .lead) :
    ∃ old_leader_port min_path, c = .loop old_leader_port [] min_path ∧ min_path = s.zk_path := by
  unfold Call.step at h
  split at h
  case h_8 old_leader_port min_path =>
    split at h
    · next hmin => exact ⟨old_leader_port, min_path, rfl, hmin⟩
    · cases h
  all_goals first
    | cases h
    | split at h <;> cases h

end step

namespace Process

variable (p : Process K V) (t t' : Thread) (v : Nat) (c : Call) (r : Server K V × Outcome)

theorem note_eq : ∃ clearer built, p.note t v c = { p with clearer, built } := by
  unfold note
  split
  · exact ⟨_, _, rfl⟩
  · split <;> exact ⟨_, _, rfl⟩
  · split <;> exact ⟨_, _, rfl⟩
  · exact ⟨_, _, rfl⟩

@[simp] theorem note_live : (p.note t v c).live = p.live := by
  obtain ⟨_, _, h⟩ := p.note_eq t v c; rw [h]

@[simp] theorem note_init : (p.note t v c).init = p.init := by
  obtain ⟨_, _, h⟩ := p.note_eq t v c; rw [h]

@[simp] theorem note_call : (p.note t v c).call = p.call := by
  obtain ⟨_, _, h⟩ := p.note_eq t v c; rw [h]

@[simp] theorem after_server : (p.after t v r).server = r.1 := by
  obtain ⟨srv, _ | _ | _⟩ := r <;> rfl

@[simp] theorem after_init : (p.after t v r).init = p.init := by
  obtain ⟨srv, _ | _ | _⟩ := r <;> rfl

@[simp] theorem after_clearer : (p.after t v r).clearer = p.clearer := by
  obtain ⟨srv, _ | _ | _⟩ := r <;> rfl

@[simp] theorem after_built : (p.after t v r).built = p.built := by
  obtain ⟨srv, _ | _ | _⟩ := r <;> rfl

variable {p t t' v c r}

theorem live_of_after (h : (p.after t v r).live = true) : p.live = true := by
  obtain ⟨srv, _ | _ | _⟩ := r
  · exact h
  · exact h
  · exact (Bool.and_eq_true_iff.mp h).1

/-- The calls after a step are the other thread's, and that of the thread itself if it goes on. -/
theorem call_after {w : Nat} {d : Call} (h : (p.after t v r).call t' = some (w, d)) :
    t' ≠ t ∧ p.call t' = some (w, d) ∨ t' = t ∧ w = v ∧ r.2 = .goes_on d := by
  obtain ⟨srv, o⟩ := r
  by_cases ht : t' = t
  · subst ht
    cases o with
    | goes_on call =>
      simp only [after, setCall, Function.update_self, Option.some.injEq, Prod.mk.injEq] at h
      obtain ⟨rfl, rfl⟩ := h
      exact .inr ⟨rfl, rfl, rfl⟩
    | returned | raised => simp [after, setCall] at h
  · left
    refine ⟨ht, ?_⟩
    cases o <;> simpa [after, setCall, ht] using h

end Process

/-! ## Servers -/

/-- What an event does to the server it is about. -/
inductive Acts (s : Cluster K V) : Event K V → Nat → Process K V → Prop
  | start (port : Port) : Acts s (.start port) s.count (.start port)
  | create (i : Nat) (h : (s.process i).init = .sleeping) :
    Acts s (.create i) i { s.process i with init := .created s.sequence }
  | assign (i : Nat) (path : Path) (h : (s.process i).init = .created path) :
    Acts s (.assign i path) i { s.process i with
      init := .assigned
      server := { (s.process i).server with zk_path := some path } }
  | get_children (i : Nat) (children : List Path) (h : (s.process i).init = .assigned)
      (hperm : children.Perm s.children) :
    Acts s (.get_children i children) i { s.process i with init := .listed s.version children }
  | count (i version : Nat) (children : List Path)
      (h : (s.process i).init = .listed version children) :
    Acts s (.count i version children) i
      { (s.process i).setCall .zk_init_election (some (version, .test children)) with
        init := .called
        server := { (s.process i).server with num_children := children.length } }
  | watch (i : Nat) (children : List Path) (hperm : children.Perm s.children) :
    Acts s (.watch i children) i
      { (s.process i).setCall .election_watch (some (s.version, .test children)) with
        seen := some s.version }
  | check_election (i : Nat) (t : Thread) (sync : Sync K V) (version : Nat) (call : Call)
      (h : (s.process i).call t = some (version, call)) :
    Acts s (.check_election i t sync) i (((s.process i).note t version call).after t version
      (call.step s.get sync (s.process i).server))
  | crash (i : Nat) : Acts s (.crash i) i { s.process i with live := false }

namespace Cluster

variable {s : Cluster K V} {e : Event K V}

theorem set_process (s : Cluster K V) (i : Nat) (p : Process K V) (j : Nat) :
    (s.set i p).process j = if j = i then p else s.process j := by
  simp [set, Function.update_apply]

/-- A step leaves a server as it is, or is about it. -/
theorem process_next (he : s.enabled e) (j : Nat) :
    ∃ p, (s.next e).process j = p ∧ (p = s.process j ∨ Acts s e j p) := by
  have hset : ∀ {i : Nat} {p : Process K V}, Acts s e i p →
      ∃ p', (s.set i p).process j = p' ∧ (p' = s.process j ∨ Acts s e j p') := by
    intro i p hacts
    refine ⟨_, rfl, ?_⟩
    rw [set_process]
    split
    · next h => subst h; exact .inr hacts
    · exact .inl rfl
  cases e with
  | start port => exact hset (.start port)
  | create i => exact hset (.create i he.2)
  | assign i path => exact hset (.assign i path he.2)
  | get_children i children => exact hset (.get_children i children he.2.1 he.2.2)
  | count i version children => exact hset (.count i version children he.2)
  | watch i children => exact hset (.watch i children he.2.2.2)
  | check_election i t sync =>
    obtain ⟨⟨version, call⟩, hcall⟩ := Option.isSome_iff_exists.mp he.2
    simp only [next, hcall]
    exact hset (.check_election i t sync version call hcall)
  | crash i => exact hset (.crash i)
  | expire z => exact ⟨_, rfl, .inl rfl⟩

/-- The membership changes when a znode is created or removed, and its version with it. -/
theorem members_next (s : Cluster K V) (e : Event K V) :
    ((s.next e).members = s.members ∧ (s.next e).sequence = s.sequence ∧
      (s.next e).version = s.version) ∨
    (∃ i, e = .create i ∧
      (s.next e).members = s.members ++ [⟨s.sequence, (s.process i).server.port, i⟩] ∧
      (s.next e).sequence = s.sequence + 1 ∧ (s.next e).version = s.version + 1) ∨
    (∃ z, e = .expire z ∧ (s.next e).members = s.members.erase z ∧
      (s.next e).sequence = s.sequence ∧ (s.next e).version = s.version + 1) := by
  cases e with
  | create i => exact .inr (.inl ⟨i, rfl, rfl, rfl, rfl⟩)
  | expire z => exact .inr (.inr ⟨z, rfl, rfl, rfl, rfl⟩)
  | check_election i t sync =>
    left
    simp only [next]
    split <;> exact ⟨rfl, rfl, rfl⟩
  | _ => exact .inl ⟨rfl, rfl, rfl⟩

/-! ### What a step leaves of a server -/

/-- A server that is live after a step was live before it, or has just started. -/
theorem live_next (he : s.enabled e) {j : Nat} (h : ((s.next e).process j).live = true) :
    (s.process j).live = true ∨
      ∃ port, e = .start port ∧ j = s.count ∧ (s.next e).process j = .start port := by
  obtain ⟨p, hp, rfl | hacts⟩ := process_next he j
  · rw [hp] at h
    exact .inl h
  · rw [hp] at h ⊢
    cases hacts with
    | start port => exact .inr ⟨port, rfl, rfl, rfl⟩
    | check_election i t sync version call hcall =>
      exact .inl (by simpa using Process.live_of_after h)
    | crash => cases h
    | _ => exact .inl h

/-- The znode of a server is the same after a step, or has just been created. -/
theorem znode_next (he : s.enabled e) {j : Nat}
    (hlive : ((s.next e).process j).live = true) :
    ((s.next e).process j).znode = (s.process j).znode ∨
    (e = .create j ∧ (s.process j).znode = none ∧
      ((s.next e).process j).znode = some s.sequence) ∨
    (∃ port, e = .start port ∧ j = s.count ∧ (s.next e).process j = .start port) := by
  obtain ⟨p, hp, rfl | hacts⟩ := process_next he j
  · rw [hp]
    exact .inl rfl
  · rw [hp] at hlive ⊢
    cases hacts with
    | start port => exact .inr (.inr ⟨port, rfl, rfl, rfl⟩)
    | create i h => exact .inr (.inl ⟨rfl, by simp [Process.znode, h], rfl⟩)
    | assign i path h => left; simp [Process.znode, h]
    | get_children i children h => left; simp [Process.znode, h]
    | count i version children h => left; simp [Process.znode, h]
    | check_election i t sync version call hcall =>
      left
      simp only [Process.znode, Process.after_init, Process.note_init, Process.after_server,
        Call.step_zk_path]
    | crash => cases hlive
    | watch => exact .inl rfl

theorem port_next (he : s.enabled e) (j : Nat) :
    ((s.next e).process j).server.port = (s.process j).server.port ∨
      ∃ port, e = .start port ∧ j = s.count ∧ (s.next e).process j = .start port := by
  obtain ⟨p, hp, rfl | hacts⟩ := process_next he j
  · rw [hp]
    exact .inl rfl
  · rw [hp]
    cases hacts with
    | start port => exact .inr ⟨port, rfl, rfl, rfl⟩
    | check_election i t sync version call hcall =>
      left
      simp only [Process.after_server, Call.step_port]
    | _ => exact .inl rfl

/-- A call after a step was there before it, is at its next step, or has just begun, on children
that are the membership. -/
theorem call_next (he : s.enabled e) {j : Nat} {t : Thread} {v : Nat} {c : Call}
    (h : ((s.next e).process j).call t = some (v, c)) :
    (s.process j).call t = some (v, c) ∨
    (∃ sync d, e = .check_election j t sync ∧ (s.process j).call t = some (v, d) ∧
      (d.step s.get sync (s.process j).server).2 = .goes_on c) ∨
    (∃ children, c = .test children ∧ v = s.version ∧ children.Perm s.children) ∨
    (∃ children, c = .test children ∧ (s.process j).init = .listed v children) := by
  obtain ⟨p, hp, rfl | hacts⟩ := process_next he j
  · rw [hp] at h
    exact .inl h
  · rw [hp] at h
    cases hacts with
    | start port => cases h
    | create | assign | get_children | crash => exact .inl h
    | count i version children hlisted =>
      simp only [Process.setCall, Function.update_apply] at h
      split at h
      · cases h
        exact .inr (.inr (.inr ⟨children, rfl, hlisted⟩))
      · exact .inl h
    | watch i children hperm =>
      simp only [Process.setCall, Function.update_apply] at h
      split at h
      · cases h
        exact .inr (.inr (.inl ⟨children, rfl, rfl, hperm⟩))
      · exact .inl h
    | check_election i t' sync version call hcall =>
      rcases Process.call_after h with ⟨-, hold⟩ | ⟨rfl, rfl, hstep⟩
      · exact .inl (by simpa using hold)
      · exact .inr (.inl ⟨sync, call, rfl, hcall, hstep⟩)

/-- The children `zk_init_election` has read were so before the step, or are the membership. -/
theorem listed_next (he : s.enabled e) {j v : Nat} {children : List Path}
    (h : ((s.next e).process j).init = .listed v children) :
    (s.process j).init = .listed v children ∨ v = s.version ∧ children.Perm s.children := by
  obtain ⟨p, hp, rfl | hacts⟩ := process_next he j
  · rw [hp] at h
    exact .inl h
  · rw [hp] at h
    cases hacts with
    | get_children i children _ hperm => cases h; exact .inr ⟨rfl, hperm⟩
    | start | create | assign | count => cases h
    | check_election => exact .inl (by simpa using h)
    | watch | crash => exact .inl h

/-! ## Znodes -/

/-- The children of `/election` are the znodes of sequence numbers that have been given out, and a
live server's is among them. -/
structure Wf (s : Cluster K V) : Prop where
  started : ∀ i, (s.process i).live = true → i < s.count
  unassigned : ∀ i, (s.process i).init = .sleeping ∨ (∃ z, (s.process i).init = .created z) →
    (s.process i).server.zk_path = none
  below : ∀ z ∈ s.members, z.path < s.sequence
  nodup : s.children.Nodup
  member : ∀ i, (s.process i).live = true → ∀ z, (s.process i).znode = some z →
    ⟨z, (s.process i).server.port, i⟩ ∈ s.members

theorem wf_init : Wf (init : Cluster K V) where
  started _ h := by cases h
  unassigned _ _ := rfl
  below _ h := by cases h
  nodup := .nil
  member _ h := by cases h

theorem children_next (h : Wf s) (e : Event K V) : (s.next e).children.Nodup := by
  rcases members_next s e with ⟨hmem, -⟩ | ⟨i, -, hmem, -⟩ | ⟨z, -, hmem, -⟩
  · rw [children, hmem]
    exact h.nodup
  · rw [children, hmem, List.map_append]
    refine List.nodup_append.mpr ⟨h.nodup, List.nodup_singleton _, ?_⟩
    rintro path hold path' hnew rfl
    obtain ⟨z, hz, rfl⟩ := List.mem_map.mp hold
    exact Nat.lt_irrefl _ (List.mem_singleton.mp hnew ▸ h.below z hz)
  · rw [children, hmem]
    exact h.nodup.sublist (List.erase_sublist.map _)

/-- Two znodes of the membership with one sequence number are the same. -/
theorem Wf.member_unique (h : Wf s) {z z' : Znode} (hz : z ∈ s.members) (hz' : z' ∈ s.members)
    (hpath : z.path = z'.path) : z = z' :=
  List.inj_on_of_nodup_map h.nodup hz hz' hpath

theorem Wf.step (h : Wf s) (he : s.enabled e) : Wf (s.next e) where
  started i hi := by
    have hcount : s.count ≤ (s.next e).count := by
      cases e with
      | start port => exact Nat.le_succ _
      | check_election i t sync => simp only [next]; split <;> exact Nat.le_refl _
      | _ => exact Nat.le_refl _
    rcases live_next he hi with hold | ⟨port, rfl, rfl, -⟩
    · exact Nat.lt_of_lt_of_le (h.started i hold) hcount
    · exact Nat.lt_succ_self _
  unassigned i hi := by
    obtain ⟨p, hp, rfl | hacts⟩ := process_next he i
    · rw [hp] at hi ⊢
      exact h.unassigned i hi
    · rw [hp] at hi ⊢
      cases hacts with
      | start port => rfl
      | create i hinit => exact h.unassigned i (.inl hinit)
      | assign | get_children | count => obtain hi | ⟨_, hi⟩ := hi <;> cases hi
      | check_election i t sync version call hcall =>
        rw [Process.after_init, Process.note_init] at hi
        rw [Process.after_server, Call.step_zk_path]
        exact h.unassigned i hi
      | watch | crash => exact h.unassigned i hi
  below z hz := by
    rcases members_next s e with ⟨hmem, hseq, -⟩ | ⟨i, -, hmem, hseq, -⟩ | ⟨z', -, hmem, hseq, -⟩
    · rw [hmem] at hz
      rw [hseq]
      exact h.below z hz
    · rw [hmem] at hz
      rw [hseq]
      rcases List.mem_append.mp hz with hold | hnew
      · exact Nat.lt_succ_of_lt (h.below z hold)
      · rw [List.mem_singleton.mp hnew]
        exact Nat.lt_succ_self _
    · rw [hmem] at hz
      rw [hseq]
      exact h.below z (List.mem_of_mem_erase hz)
  nodup := children_next h e
  member i hlive z hz := by
    have hkeep : ∀ m ∈ s.members, (s.process m.owner).live = true → m ∈ (s.next e).members := by
      intro m hm howner
      rcases members_next s e with ⟨hmem, -⟩ | ⟨i, -, hmem, -⟩ | ⟨z', rfl, hmem, -⟩
      · rw [hmem]
        exact hm
      · rw [hmem]
        exact List.mem_append_left _ hm
      · rw [hmem]
        refine (List.mem_erase_of_ne ?_).mpr hm
        rintro rfl
        rw [he.2] at howner
        cases howner
    rcases live_next he hlive with hlive' | ⟨port, rfl, rfl, heq⟩
    · have hport : ((s.next e).process i).server.port = (s.process i).server.port := by
        refine (port_next he i).resolve_right ?_
        rintro ⟨port, rfl, rfl, -⟩
        exact absurd (h.started _ hlive') (Nat.lt_irrefl _)
      rw [hport]
      rcases znode_next he hlive with hsame | ⟨rfl, -, hnew⟩ | ⟨port, -, -, heq⟩
      · rw [hsame] at hz
        exact hkeep _ (h.member i hlive' z hz) hlive'
      · rw [hnew] at hz
        cases hz
        exact List.mem_append_right _ List.mem_cons_self
      · rw [heq] at hz
        cases hz
    · rw [heq] at hz
      cases hz

/-- Two live servers with one znode are the same. -/
theorem Wf.znode_unique (h : Wf s) {i j : Nat} {z : Path} (hi : (s.process i).live = true)
    (hj : (s.process j).live = true) (hiz : (s.process i).znode = some z)
    (hjz : (s.process j).znode = some z) : i = j :=
  congrArg Znode.owner
    (h.member_unique (h.member i hi z hiz) (h.member j hj z hjz) rfl)

theorem wf_of_reach {G : Cluster K V → Event K V → Prop} (h : (election K V).Reach G s) : Wf s :=
  h.invariant wf_init fun _ _ hw he _ => hw.step he

/-! ## The children of a call -/

/-- Every znode of the membership is still to be visited, or not below the minimum found, or newer
than all the children of a call that has found no minimum yet. -/
structure Covers (s : Cluster K V) (todo : List Path) (min_path : Option Path) : Prop where
  todo_lt : ∀ c ∈ todo, c < s.sequence
  min_lt : ∀ m ∈ min_path, m < s.sequence
  members : ∀ z ∈ s.children, z ∈ todo ∨ (∃ m ∈ min_path, m ≤ z) ∨
    min_path = none ∧ ∀ c ∈ todo, c ≤ z

theorem covers_of_perm (h : Wf s) {children : List Path} (hperm : children.Perm s.children) :
    s.Covers children none where
  todo_lt c hc := by
    obtain ⟨z, hz, rfl⟩ := List.mem_map.mp (hperm.mem_iff.mp hc)
    exact h.below z hz
  min_lt _ hm := by cases hm
  members _ hz := .inl (hperm.mem_iff.mpr hz)

theorem Covers.next {todo : List Path} {min_path : Option Path} (h : s.Covers todo min_path)
    (e : Event K V) : (s.next e).Covers todo min_path := by
  rcases members_next s e with ⟨hmem, hseq, -⟩ | ⟨i, -, hmem, hseq, -⟩ | ⟨z, -, hmem, hseq, -⟩
  · refine ⟨hseq ▸ h.todo_lt, hseq ▸ h.min_lt, fun z hz => h.members z ?_⟩
    rwa [children, hmem] at hz
  · refine ⟨fun c hc => ?_, fun m hm => ?_, fun z hz => ?_⟩
    · rw [hseq]
      exact Nat.lt_succ_of_lt (h.todo_lt c hc)
    · rw [hseq]
      exact Nat.lt_succ_of_lt (h.min_lt m hm)
    · rw [children, hmem, List.map_append, List.mem_append] at hz
      rcases hz with hold | hnew
      · exact h.members z hold
      · obtain rfl : z = s.sequence := List.mem_singleton.mp hnew
        cases min_path with
        | none => exact .inr (.inr ⟨rfl, fun c hc => Nat.le_of_lt (h.todo_lt c hc)⟩)
        | some m => exact .inr (.inl ⟨m, rfl, Nat.le_of_lt (h.min_lt m rfl)⟩)
  · refine ⟨hseq ▸ h.todo_lt, hseq ▸ h.min_lt, fun z' hz => h.members z' ?_⟩
    rw [children, hmem] at hz
    exact (List.erase_sublist.map _).subset hz

theorem lower_le (min_path : Option Path) (c : Path) : lower min_path c ≤ c := by
  cases min_path with
  | none => exact Nat.le_refl _
  | some m =>
    simp only [lower]
    split
    · exact Nat.le_refl _
    · next hlt => exact Nat.le_of_not_lt hlt

theorem lower_le_of_mem {min_path : Option Path} {m : Path} (hm : m ∈ min_path) (c : Path) :
    lower min_path c ≤ m := by
  cases hm
  simp only [lower]
  split
  · next hlt => exact Nat.le_of_lt hlt
  · exact Nat.le_refl _

/-- One child visited. -/
theorem Covers.visit {c : Path} {todo : List Path} {min_path : Option Path}
    (h : s.Covers (c :: todo) min_path) : s.Covers todo (some (lower min_path c)) where
  todo_lt d hd := h.todo_lt d (List.mem_cons_of_mem _ hd)
  min_lt m hm := by
    cases hm
    exact Nat.lt_of_le_of_lt (lower_le min_path c) (h.todo_lt c List.mem_cons_self)
  members z hz := by
    have hc : c ≤ z → ∃ m ∈ some (lower min_path c), m ≤ z :=
      fun hle => ⟨_, rfl, Nat.le_trans (lower_le min_path c) hle⟩
    rcases h.members z hz with hmem | ⟨m, hm, hle⟩ | ⟨-, hall⟩
    · rcases List.mem_cons.mp hmem with rfl | hmem
      · exact .inr (.inl (hc (Nat.le_refl _)))
      · exact .inl hmem
    · exact .inr (.inl ⟨_, rfl, Nat.le_trans (lower_le_of_mem hm c) hle⟩)
    · exact .inr (.inl (hc (hall c List.mem_cons_self)))

/-- With all children visited, no znode is below the minimum. -/
theorem Covers.le {m : Path} (h : s.Covers [] (some m)) {z : Path} (hz : z ∈ s.children) :
    m ≤ z := by
  rcases h.members z hz with hmem | ⟨m', hm', hle⟩ | ⟨hnone, -⟩
  · cases hmem
  · cases hm'
    exact hle
  · cases hnone

/-- The children a call still has, and its minimum, cover the membership. -/
def Covered (s : Cluster K V) : Call → Prop
  | .test children | .grown children | .shrunk children | .read_leader_port children
  | .clear _ children => s.Covers children none
  | .loop _ children min_path => s.Covers children min_path
  | .append _ c _ children min_path => s.Covers (c :: children) min_path
  | .lead | .lead_port | .follow .. | .follow_port .. | .changed _ | .sync_with_leader => True

theorem Covered.next {c : Call} (h : s.Covered c) (e : Event K V) : (s.next e).Covered c := by
  cases c <;> first | exact Covers.next h e | trivial

theorem Covered.step {get : Path → Option Port} {sync : Sync K V} {srv : Server K V} {c d : Call}
    (h : s.Covered c) (hstep : (c.step get sync srv).2 = .goes_on d) : s.Covered d := by
  cases c with
  | test children =>
    cases hstep
    split <;> exact h
  | loop old_leader_port children min_path =>
    cases children with
    | nil =>
      cases hstep
      split <;> trivial
    | cons c children =>
      simp only [Call.step] at hstep
      split at hstep <;> cases hstep
      exact h
  | append old_leader_port c p children min_path =>
    cases hstep
    exact Covers.visit h
  | shrunk | read_leader_port | clear => cases hstep; exact h
  | grown | lead_port => cases hstep
  | lead | follow_port => cases hstep; trivial
  | follow old_leader_port min_path =>
    simp only [Call.step] at hstep
    split at hstep <;> cases hstep
    trivial
  | changed old_leader_port =>
    simp only [Call.step] at hstep
    split at hstep <;> cases hstep
    trivial
  | sync_with_leader =>
    simp only [Call.step] at hstep
    split at hstep <;> cases hstep

/-- All calls, and the children read by `zk_init_election`, cover the membership. -/
structure Listing (s : Cluster K V) : Prop where
  calls : ∀ i t v c, (s.process i).call t = some (v, c) → s.Covered c
  listed : ∀ i v children, (s.process i).init = .listed v children → s.Covers children none

theorem listing_init : Listing (init : Cluster K V) where
  calls _ _ _ _ h := by cases h
  listed _ _ _ h := by cases h

theorem Listing.step (h : Listing s) (hw : Wf s) (he : s.enabled e) : Listing (s.next e) where
  calls i t v c hc := by
    rcases call_next he hc with hold | ⟨sync, d, -, hd, hstep⟩ | ⟨children, rfl, -, hperm⟩ |
      ⟨children, rfl, hlisted⟩
    · exact (h.calls i t v c hold).next e
    · exact ((h.calls i t v d hd).step hstep).next e
    · exact (covers_of_perm hw hperm).next e
    · exact (h.listed i v children hlisted).next e
  listed i v children hi := by
    rcases listed_next he hi with hold | ⟨-, hperm⟩
    · exact (h.listed i v children hold).next e
    · exact (covers_of_perm hw hperm).next e

theorem listing_of_reach {G : Cluster K V → Event K V → Prop} (h : (election K V).Reach G s) :
    Listing s :=
  h.invariant_of (fun _ => wf_of_reach) listing_init
    fun _ _ hw hl he _ => hl.step hw he

end Cluster

end Cs2510.Store.Election
