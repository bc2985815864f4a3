import Mathlib.Data.List.Count
import Mathlib.Data.List.Perm.Basic
import Cs2510.Store.ElectionStep

/-!
# The leader's view of the servers

`check_election` rebuilds `peer_ports` from the children it is given, but only when their number has
not grown. A leader that is told about a server that has joined returns early and goes on without
its port (`not_leader_knows`). When the last rebuilding of the leader's `peer_ports` was on the
current membership and on one thread, it has the port of every server once (`leader_knows`).
-/

namespace Cs2510.Store.Election

variable {K V : Type}

namespace Cluster

/-- The live server with the lowest znode of a live server. -/
def Leads (s : Cluster K V) (i : Nat) : Prop :=
  (s.process i).live = true ∧ ∃ z ∈ (s.process i).znode,
    ∀ j, (s.process j).live = true → ∀ z' ∈ (s.process j).znode, z ≤ z'

/-- The watch of `i` has been told about the current membership, and its call has ended. -/
def Processed (s : Cluster K V) (i : Nat) : Prop :=
  (s.process i).seen = some s.version ∧ (s.process i).call .election_watch = none

/-- `peer_ports` of `i` has the port of every live server once. -/
def KnowsEvery (s : Cluster K V) (i : Nat) : Prop :=
  ∀ j, (s.process j).live = true →
    (s.process i).server.peer_ports.count (s.process j).server.port = 1

/-- A leader that has processed the current membership knows every live server. -/
def LeaderKnows (s : Cluster K V) : Prop := ∀ i, s.Leads i → s.Processed i → s.KnowsEvery i

/-- The call that rebuilt `peer_ports` of `i` last had the current children, and the other thread
did not rebuild it meanwhile. -/
def Rebuilt (s : Cluster K V) (i : Nat) : Prop := (s.process i).built = some s.version

/-- Every live server has created its znode, and no two znodes have the same port. -/
def Joined (s : Cluster K V) : Prop :=
  (∀ j < s.count, (s.process j).live = true → (s.process j).znode ≠ none) ∧
    (s.members.map Znode.port).Nodup

instance (s : Cluster K V) (i : Nat) : Decidable (s.Processed i) :=
  inferInstanceAs (Decidable (_ ∧ _))

instance (s : Cluster K V) (i : Nat) : Decidable (s.Rebuilt i) :=
  inferInstanceAs (Decidable (_ = _))

instance (s : Cluster K V) : Decidable s.Joined :=
  inferInstanceAs (Decidable ((∀ j < s.count, _) ∧ _))

/-! ## Rebuilding -/

/-- `peer_ports`, with the ports still to come, are those of the membership. -/
def Lists (s : Cluster K V) (peer_ports : List Port) (rest : List (Option Port)) : Prop :=
  (peer_ports.map some ++ rest).Perm (s.members.map fun z => some z.port)

/-- What a call on the current children has done to `peer_ports`, if it cleared them last. -/
def Building (s : Cluster K V) (p : Process K V) (t : Thread) : Call → Prop
  | .test children | .grown children | .shrunk children | .read_leader_port children
  | .clear _ children => children.Perm s.children
  | .loop _ children _ => p.clearer = some t → s.Lists p.server.peer_ports (children.map s.get)
  | .append _ _ port children _ =>
    p.clearer = some t → s.Lists p.server.peer_ports (some port :: children.map s.get)
  | .lead | .lead_port | .follow .. | .follow_port .. | .changed _ | .sync_with_leader => True

end Cluster

/-- The call is at its loop. -/
def Call.Loops : Call → Prop
  | .loop .. | .append .. => True
  | _ => False

namespace Cluster

variable {s : Cluster K V} {e : Event K V}

/-- The children a server has read are no newer than the membership; those of the current version
are the membership, and `peer_ports` rebuilt from them are its ports. -/
structure Sound (s : Cluster K V) (p : Process K V) : Prop where
  listed_le : ∀ v children, p.init = .listed v children → v ≤ s.version
  listed : ∀ children, p.init = .listed s.version children → children.Perm s.children
  call_le : ∀ t v c, p.call t = some (v, c) → v ≤ s.version
  call : ∀ t c, p.call t = some (s.version, c) → s.Building p t c
  unbuilt : ∀ t v c, p.call t = some (v, c) → c.Loops → p.clearer = some t → p.built = none
  built_le : ∀ v, p.built = some v → v ≤ s.version
  built : p.built = some s.version → p.server.peer_ports.Perm (s.members.map Znode.port)

theorem sound_start (s : Cluster K V) (port : Port) : Sound s (.start port : Process K V) where
  listed_le _ _ h := by cases h
  listed _ h := by cases h
  call_le _ _ _ h := by cases h
  call _ _ h := by cases h
  unbuilt _ _ _ h := by cases h
  built_le _ h := by cases h
  built h := by cases h

theorem get_of_mem (h : Wf s) {z : Znode} (hz : z ∈ s.members) : s.get z.path = some z.port := by
  rw [get, Option.map_eq_some_iff]
  cases hfind : s.members.find? fun y => y.path = z.path with
  | none => simpa using List.find?_eq_none.mp hfind z hz
  | some y =>
    have hpath : y.path = z.path := by simpa using List.find?_some hfind
    rw [h.member_unique (List.mem_of_find?_eq_some hfind) hz hpath]
    exact ⟨z, rfl, rfl⟩

theorem lists_of_perm (h : Wf s) {children : List Path} (hperm : children.Perm s.children) :
    s.Lists [] (children.map s.get) := by
  refine (hperm.map s.get).trans (.of_eq ?_)
  rw [Cluster.children, List.map_map]
  exact List.map_congr_left fun z hz => get_of_mem h hz

theorem Lists.append {peer_ports : List Port} {port : Port} {rest : List (Option Port)}
    (h : s.Lists peer_ports (some port :: rest)) : s.Lists (peer_ports ++ [port]) rest := by
  simpa [Lists, List.append_assoc] using h

theorem Lists.done {peer_ports : List Port} (h : s.Lists peer_ports []) :
    peer_ports.Perm (s.members.map Znode.port) := by
  refine (List.map_perm_map_iff (fun _ _ => Option.some.inj)).mp ?_
  simpa [Lists, Function.comp_def] using h

/-! ### Another membership -/

theorem Sound.of_members {s' : Cluster K V} {p : Process K V} (h : Sound s p)
    (hmem : s'.members = s.members) (hversion : s'.version = s.version) : Sound s' p := by
  obtain ⟨count, process, members, sequence, version⟩ := s'
  cases hmem
  cases hversion
  exact ⟨h.listed_le, h.listed, h.call_le, h.call, h.unbuilt, h.built_le, h.built⟩

theorem Sound.of_lt {s' : Cluster K V} {p : Process K V} (h : Sound s p)
    (hlt : s.version < s'.version) : Sound s' p where
  listed_le v children hl := Nat.le_trans (h.listed_le v children hl) (Nat.le_of_lt hlt)
  listed children hl := absurd (h.listed_le _ children hl) (Nat.not_le.mpr hlt)
  call_le t v c hc := Nat.le_trans (h.call_le t v c hc) (Nat.le_of_lt hlt)
  call t c hc := absurd (h.call_le t _ c hc) (Nat.not_le.mpr hlt)
  unbuilt := h.unbuilt
  built_le v hb := Nat.le_trans (h.built_le v hb) (Nat.le_of_lt hlt)
  built hb := absurd (h.built_le _ hb) (Nat.not_le.mpr hlt)

/-! ### A step of a call -/

section after

variable {get : Path → Option Port} {sync : Sync K V} {p : Process K V} {t t' : Thread} {v : Nat}
  {c d : Call}

/-- What the other thread has cleared, the step of a call leaves as it is. -/
theorem after_of_clearer
    (h : ((p.note t v c).after t v (c.step get sync p.server)).clearer = some t') (hne : t' ≠ t) :
    p.clearer = some t' ∧ (p.note t v c).built = p.built ∧
      (c.step get sync p.server).1.peer_ports = p.server.peer_ports := by
  rw [Process.after_clearer] at h
  cases c with
  | clear => exact absurd (Option.some.inj h).symm hne
  | append =>
    simp only [Process.note] at h
    split at h
    · next hclearer => exact absurd (Option.some.inj (h.symm.trans hclearer)) hne
    · cases h
  | loop old_leader_port children min_path =>
    cases children with
    | nil =>
      simp only [Process.note] at h ⊢
      split at h
      · next hclearer => exact absurd (Option.some.inj (h.symm.trans hclearer)) hne
      · next hclearer => exact ⟨h, by rw [if_neg hclearer], rfl⟩
    | cons => exact ⟨h, rfl, by simp only [Call.step]; split <;> rfl⟩
  | follow | sync_with_leader => exact ⟨h, rfl, by simp only [Call.step]; split <;> rfl⟩
  | _ => exact ⟨h, rfl, rfl⟩

theorem Building.other (h : s.Building p t' d) (hne : t' ≠ t) :
    s.Building ((p.note t v c).after t v (c.step get sync p.server)) t' d := by
  cases d with
  | loop | append =>
    intro hclearer
    obtain ⟨hclearer', -, hpeers⟩ := after_of_clearer hclearer hne
    rw [Process.after_server, hpeers]
    exact h hclearer'
  | _ => exact h

theorem Building.step (hw : Wf s) (h : s.Building p t c)
    (hstep : (c.step s.get sync p.server).2 = .goes_on d) :
    s.Building ((p.note t v c).after t v (c.step s.get sync p.server)) t d := by
  cases c with
  | test children =>
    cases hstep
    split <;> exact h
  | shrunk | read_leader_port => cases hstep; exact h
  | clear old_leader_port children =>
    cases hstep
    exact fun _ => lists_of_perm hw h
  | loop old_leader_port children min_path =>
    cases children with
    | nil =>
      cases hstep
      split <;> trivial
    | cons c children =>
      simp only [Call.step] at hstep ⊢
      cases hget : s.get c with
      | none => rw [hget] at hstep; cases hstep
      | some port =>
        rw [hget] at hstep
        cases hstep
        intro hclearer
        have hlists := h hclearer
        rwa [List.map_cons, hget] at hlists
  | append old_leader_port c port children min_path =>
    cases hstep
    intro hclearer
    rw [Process.after_clearer] at hclearer
    rw [Process.after_server]
    simp only [Process.note] at hclearer
    split at hclearer
    · next h' => exact (h h').append
    · cases hclearer
  | grown | lead_port => cases hstep
  | lead | follow_port => cases hstep; trivial
  | follow | changed =>
    simp only [Call.step] at hstep
    split at hstep <;> cases hstep
    trivial
  | sync_with_leader =>
    simp only [Call.step] at hstep
    split at hstep <;> cases hstep

variable (get sync) in
/-- `peer_ports` counts as built because it did before, or because the loop has ended. -/
theorem built_after {w : Nat} (hunbuilt : c.Loops → p.clearer = some t → p.built = none)
    (h : (p.note t v c).built = some w) :
    (c.step get sync p.server).1.peer_ports = p.server.peer_ports ∧
    (p.built = some w ∨ ∃ old_leader_port min_path, c = .loop old_leader_port [] min_path ∧
      p.clearer = some t ∧ w = v) := by
  cases c with
  | clear => cases h
  | append =>
    simp only [Process.note] at h
    split at h
    · next hclearer =>
      rw [hunbuilt trivial hclearer] at h
      cases h
    · cases h
  | loop old_leader_port children min_path =>
    cases children with
    | nil =>
      simp only [Process.note] at h
      split at h
      · next hclearer =>
        exact ⟨rfl, .inr ⟨_, _, rfl, hclearer, (Option.some.inj h).symm⟩⟩
      · exact ⟨rfl, .inl h⟩
    | cons => exact ⟨by simp only [Call.step]; split <;> rfl, .inl h⟩
  | follow | sync_with_leader => exact ⟨by simp only [Call.step]; split <;> rfl, .inl h⟩
  | _ => exact ⟨rfl, .inl h⟩

/-- A call that goes on in its loop has not built `peer_ports` yet. -/
theorem unbuilt_after (hunbuilt : c.Loops → p.clearer = some t → p.built = none)
    (hstep : (c.step get sync p.server).2 = .goes_on d) (hd : d.Loops)
    (hclearer : (p.note t v c).clearer = some t) : (p.note t v c).built = none := by
  cases c with
  | clear => rfl
  | append =>
    simp only [Process.note] at hclearer ⊢
    split at hclearer
    · next h => rw [if_pos h]; exact hunbuilt trivial h
    · cases hclearer
  | loop old_leader_port children min_path =>
    cases children with
    | nil =>
      cases hstep
      split at hd <;> cases hd
    | cons => exact hunbuilt trivial hclearer
  | test =>
    cases hstep
    split at hd <;> cases hd
  | shrunk | read_leader_port | lead | follow_port => cases hstep; cases hd
  | grown | lead_port => cases hstep
  | follow | changed =>
    simp only [Call.step] at hstep
    split at hstep <;> cases hstep
    cases hd
  | sync_with_leader =>
    simp only [Call.step] at hstep
    split at hstep <;> cases hstep

end after

theorem Sound.after (hw : Wf s) {p : Process K V} (h : Sound s p) {t : Thread} {v : Nat} {c : Call}
    (hcall : p.call t = some (v, c)) (sync : Sync K V) :
    Sound s ((p.note t v c).after t v (c.step s.get sync p.server)) where
  listed_le := by simpa using h.listed_le
  listed := by simpa using h.listed
  call_le t' w d hd := by
    rcases Process.call_after hd with ⟨-, hold⟩ | ⟨-, rfl, -⟩
    · exact h.call_le t' w d (by simpa using hold)
    · exact h.call_le t w c hcall
  call t' d hd := by
    rcases Process.call_after hd with ⟨hne, hold⟩ | ⟨rfl, rfl, hstep⟩
    · exact Building.other (h.call t' d (by simpa using hold)) hne
    · exact Building.step hw (h.call t' c hcall) hstep
  unbuilt t' w d hd hloops hclearer := by
    rw [Process.after_built]
    rcases Process.call_after hd with ⟨hne, hold⟩ | ⟨rfl, rfl, hstep⟩
    · obtain ⟨hclearer', hbuilt, -⟩ := after_of_clearer hclearer hne
      rw [hbuilt]
      exact h.unbuilt t' w d (by simpa using hold) hloops hclearer'
    · rw [Process.after_clearer] at hclearer
      exact unbuilt_after (h.unbuilt t' w c hcall) hstep hloops hclearer
  built_le w hb := by
    rw [Process.after_built] at hb
    rcases (built_after s.get sync (h.unbuilt t v c hcall) hb).2 with
      hold | ⟨_, _, -, -, rfl⟩
    · exact h.built_le w hold
    · exact h.call_le t w c hcall
  built hb := by
    rw [Process.after_built] at hb
    obtain ⟨hpeers, hb⟩ := built_after s.get sync (h.unbuilt t v c hcall) hb
    rw [Process.after_server, hpeers]
    rcases hb with hold | ⟨old, min_path, rfl, hclearer, rfl⟩
    · exact h.built hold
    · exact Lists.done (h.call t _ hcall hclearer)

/-! ### Runs -/

/-- A thread begins a call. -/
theorem Sound.begin {p : Process K V} (h : Sound s p) (t : Thread) {v : Nat} {children : List Path}
    (hv : v ≤ s.version) (hperm : v = s.version → children.Perm s.children) :
    Sound s (p.setCall t (some (v, .test children))) where
  listed_le := h.listed_le
  listed := h.listed
  call_le t' w d hd := by
    simp only [Process.setCall, Function.update_apply] at hd
    split at hd
    · cases hd; exact hv
    · exact h.call_le t' w d hd
  call t' d hd := by
    simp only [Process.setCall, Function.update_apply] at hd
    split at hd
    · cases hd; exact hperm rfl
    · exact h.call t' d hd
  unbuilt t' w d hd hloops hclearer := by
    simp only [Process.setCall, Function.update_apply] at hd
    split at hd
    · cases hd; cases hloops
    · exact h.unbuilt t' w d hd hloops hclearer
  built_le := h.built_le
  built := h.built

/-- A process with other variables than `peer_ports`. -/
theorem Sound.congr {p p' : Process K V} (h : Sound s p)
    (hlisted : ∀ v children, p'.init = .listed v children → v ≤ s.version ∧
      (v = s.version → children.Perm s.children))
    (hcall : p'.call = p.call) (hclearer : p'.clearer = p.clearer) (hbuilt : p'.built = p.built)
    (hpeers : p'.server.peer_ports = p.server.peer_ports) : Sound s p' where
  listed_le v children hl := (hlisted v children hl).1
  listed children hl := (hlisted _ children hl).2 rfl
  call_le := hcall ▸ h.call_le
  call t c hc := by
    have hbuilding := h.call t c (hcall ▸ hc)
    cases c with
    | loop | append => exact fun hown => hpeers ▸ hbuilding (hclearer ▸ hown)
    | _ => exact hbuilding
  unbuilt := by
    rw [hcall, hclearer, hbuilt]
    exact h.unbuilt
  built_le := hbuilt ▸ h.built_le
  built hb := hpeers ▸ h.built (hbuilt ▸ hb)

theorem Acts.sound (hw : Wf s) {i : Nat} {p : Process K V} (h : Sound s (s.process i))
    (hacts : Acts s e i p) : Sound s p := by
  have hlisted : ∀ v children, (s.process i).init = .listed v children → v ≤ s.version ∧
      (v = s.version → children.Perm s.children) := by
    intro v children hl
    refine ⟨h.listed_le v children hl, ?_⟩
    rintro rfl
    exact h.listed children hl
  cases hacts with
  | start port => exact sound_start s port
  | create i hinit => exact h.congr nofun rfl rfl rfl rfl
  | assign i path hinit => exact h.congr nofun rfl rfl rfl rfl
  | get_children i children hinit hperm =>
    refine h.congr ?_ rfl rfl rfl rfl
    intro v children' hl
    cases hl
    exact ⟨Nat.le_refl _, fun _ => hperm⟩
  | count i version children hinit =>
    obtain ⟨hle, hperm⟩ := hlisted version children hinit
    exact (h.begin .zk_init_election hle hperm).congr nofun rfl rfl rfl rfl
  | watch i children hperm =>
    exact (h.begin .election_watch (Nat.le_refl _) fun _ => hperm).congr hlisted rfl rfl rfl rfl
  | check_election i t sync version call hcall => exact h.after hw hcall sync
  | crash i => exact h.congr hlisted rfl rfl rfl rfl

theorem sound_of_reach {G : Cluster K V → Event K V → Prop} (h : (election K V).Reach G s) :
    ∀ i, Sound s (s.process i) := by
  refine h.invariant_of (I := fun s => ∀ i, Sound s (s.process i)) (fun _ => wf_of_reach)
    (fun _ => (sound_start _ 0).congr (by nofun) rfl rfl rfl rfl) fun s e hw hs he _ i => ?_
  have hsound : Sound s ((s.next e).process i) := by
    obtain ⟨p, hp, rfl | hacts⟩ := process_next he i
    · exact hp ▸ hs i
    · exact hp ▸ Acts.sound hw (hs i) hacts
  rcases members_next s e with ⟨hmem, -, hversion⟩ | ⟨_, -, -, -, hversion⟩ | ⟨_, -, -, -, hversion⟩
  · exact hsound.of_members hmem hversion
  · exact hsound.of_lt (hversion ▸ Nat.lt_succ_self _)
  · exact hsound.of_lt (hversion ▸ Nat.lt_succ_self _)

end Cluster

/-- **The leader knows every live server**, in every state reached in which its `peer_ports` were
rebuilt from the current membership, all live servers have joined it, and no two znodes have the
same port. -/
theorem leader_knows {s : Cluster K V} (h : (election K V).Reachable s)
    (hrebuilt : ∀ i, s.Leads i → s.Processed i → s.Rebuilt i) (hjoined : s.Joined) :
    s.LeaderKnows := by
  intro i hleads hprocessed j hj
  have hw := Cluster.wf_of_reach h
  have hperm := (Cluster.sound_of_reach h i).built (hrebuilt i hleads hprocessed)
  obtain ⟨z, hz⟩ := Option.ne_none_iff_exists'.mp (hjoined.1 j (hw.started j hj) hj)
  have hmem := List.mem_map_of_mem (f := Znode.port) (hw.member j hj z hz)
  rw [hperm.count_eq]
  exact List.count_eq_one_of_mem hjoined.2 hmem

/-- A third server joins and leaves again, and the leader is told about both. -/
def thirdServer : List (Event Nat Nat) :=
  [.start 7779, .watch 2 [0, 1]] ++ calling 2 .election_watch 2 ++
  [.create 2, .watch 0 [0, 1, 2]] ++ calling 0 .election_watch 2 ++
  [.crash 2, .expire ⟨2, 7779, 2⟩, .watch 0 [0, 1]] ++ calling 0 .election_watch 11

theorem leader_knows_thirdServer :
    ∃ s, (election Nat Nat).Reachable s ∧ s.Processed 0 ∧
      (s.process 0).server.peer_ports = [7777, 7778] ∧ s.LeaderKnows := by
  have hrun : ((election Nat Nat).exec (fun _ _ => True) (election Nat Nat).init
      (firstServer ++ secondServer ++ thirdServer)).any (fun s =>
        s.Processed 0 ∧ (s.process 0).server.peer_ports = [7777, 7778] ∧ s.Joined ∧ s.Rebuilt 0 ∧
        s.count = 3 ∧ (s.process 0).znode = some 0 ∧ (s.process 1).znode = some 1 ∧
        (s.process 0).live ∧ (s.process 2).live = false) = true := by
    decide +kernel
  obtain ⟨s, hs, hend⟩ := TransitionSystem.exists_reach_of_exec hrun
  obtain ⟨hprocessed, hpeers, hjoined, hrebuilt, hcount, hz₀, hz₁, hlive₀, hdead₂⟩ :=
    of_decide_eq_true hend
  refine ⟨s, hs, hprocessed, hpeers, leader_knows hs ?_ hjoined⟩
  rintro i ⟨hlive, z, hz, hfirst⟩ -
  have hi : i < 3 := hcount ▸ (Cluster.wf_of_reach hs).started i hlive
  have hle := hfirst 0 hlive₀ 0 hz₀
  obtain rfl | rfl | rfl : i = 0 ∨ i = 1 ∨ i = 2 := by omega
  · exact hrebuilt
  · rw [hz₁] at hz
    cases hz
    exact absurd hle (by decide)
  · rw [hdead₂] at hlive
    cases hlive

/-- The leader has been told about the second server, and does not know its port. -/
theorem not_leader_knows :
    ¬ ∀ s : Cluster Nat Nat, (election Nat Nat).Reachable s → s.Joined → s.LeaderKnows := by
  have hrun : ((election Nat Nat).exec (fun _ _ => True) (election Nat Nat).init
      (firstServer ++ secondServer)).any (fun s =>
        s.Processed 0 ∧ (s.process 0).server.peer_ports = [7777] ∧ s.Joined ∧ s.count = 2 ∧
        (s.process 0).znode = some 0 ∧ (s.process 1).znode = some 1 ∧ (s.process 0).live ∧
        (s.process 1).live ∧ (s.process 1).server.port = 7778) = true := by
    decide +kernel
  obtain ⟨s, hs, hend⟩ := TransitionSystem.exists_reach_of_exec hrun
  obtain ⟨hprocessed, hpeers, hjoined, hcount, hz₀, hz₁, hlive₀, hlive₁, hport⟩ :=
    of_decide_eq_true hend
  intro h
  have hleads : s.Leads 0 := by
    refine ⟨hlive₀, 0, hz₀, fun j hj z hz => Nat.zero_le z⟩
  have hknows := h s hs hjoined 0 hleads hprocessed 1 hlive₁
  rw [hpeers, hport] at hknows
  cases hknows

end Cs2510.Store.Election
