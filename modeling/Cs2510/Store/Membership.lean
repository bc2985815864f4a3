import Mathlib.Data.List.Nodup
import Cs2510.Store.Election

/-!
# Elections over a sequence of memberships

`check_election` is called for one list of children after the other. A list that is longer than the
one before it is only counted: the server follows the last list that was not, and takes the owner of
the lowest znode of that list for the leader.
-/

namespace Cs2510.Store

/-- The children handed to a call of `check_election`, with their ports. If a znode has been deleted
since, `zk.get` raises: `gone` is the number of children visited before that. -/
structure Notification where
  children : List (Path × Port)
  gone : Option Nat
  deriving DecidableEq, Repr

/-- The znode with the lowest name. -/
def LowestNamed (children : List (Path × Port)) (z : Path × Port) : Prop :=
  z ∈ children ∧ ∀ y ∈ children, z.1 ≤ y.1

instance (children : List (Path × Port)) (z : Path × Port) : Decidable (LowestNamed children z) :=
  inferInstanceAs (Decidable (_ ∧ ∀ y ∈ children, _))

/-- The lists are the memberships at successive moments, with the server's own znode: ZooKeeper
numbers the znodes in the order in which they are created. -/
structure Memberships (own : Path × Port) (ns : List Notification) : Prop where
  own_mem : ∀ n ∈ ns, own ∈ n.children
  nodup : ∀ n ∈ ns, (n.children.map Prod.fst).Nodup
  joined : ns.Pairwise fun n n' => ∀ z ∈ n'.children, z ∈ n.children ∨ ∀ y ∈ n.children, y.1 < z.1

namespace Server

variable {K V : Type}

/-- `check_election` on children of which the one at `k` has been deleted: `zk.get` raises there. -/
def check_election_raised (s : Server K V) (children : List (Path × Port)) (k : Nat) :
    Server K V :=
  if children.length > s.num_children then { s with num_children := children.length }
  else
    { s with
      num_children := children.length
      peer_ports := (children.take k).map Prod.snd }

def notified (s : Server K V) (n : Notification) : Server K V :=
  match n.gone with
  | none => (s.check_election n.children).1
  | some k => s.check_election_raised n.children k

/-- A server that has created its znode `own` and counted `num` children. -/
def registered (own : Path × Port) (num : Nat) : Server K V :=
  { start own.2 with zk_path := some own.1, num_children := num }

/-- The server after the calls for a sequence of lists. -/
def handed (own : Path × Port) (num : Nat) (ns : List Notification) : Server K V :=
  ns.foldl notified (registered own num)

/-- The server takes the owner of the lowest znode for the leader, and itself if that is its own. -/
def Follows (s : Server K V) (own : Path × Port) (children : List (Path × Port)) : Prop :=
  ∃ z, LowestNamed children z ∧ s.leader_port = some z.2 ∧ (s.leader = true ↔ z.1 = own.1)

end Server

/-- The number of children counted last, and the list followed: the last one that is not longer than
the one before it, nor cut off by `zk.get`. -/
def progress (num : Nat) (ns : List Notification) : Nat × Option (List (Path × Port)) :=
  ns.foldl (fun (num, d) n => (n.children.length,
    if n.gone = none ∧ n.children.length ≤ num then some n.children else d)) (num, none)

def decided (num : Nat) (ns : List Notification) : Option (List (Path × Port)) :=
  (progress num ns).2

/-- The lowest znode of the list followed has the port of the lowest one of the last list, and is
the server's own if that is. -/
def Settled (own : Path × Port) (num : Nat) (ns : List Notification)
    (children : List (Path × Port)) : Prop :=
  ∃ d ∈ decided num ns, ∃ z z', LowestNamed d z ∧ LowestNamed children z' ∧ z.2 = z'.2 ∧
    (z'.1 = own.1 → z.1 = own.1)

/-! ## A call that raises -/

namespace Election

variable {K V : Type} {get : Path → Option Port}

/-- A call that runs alone and does not find the znode of a child does what
`Server.check_election_raised` says. -/
theorem alone_check_election_raised (s : Server K V) {children rest : List (Path × Port)}
    (hget : ∀ z ∈ children, get z.1 = some z.2) {c : Path × Port} (hgone : get c.1 = none) :
    ∃ outcome, Call.Alone get (s, .goes_on (.test ((children ++ c :: rest).map Prod.fst)))
      (s.check_election_raised (children ++ c :: rest) children.length, outcome) ∧
      (outcome = .returned ∨ outcome = .raised) := by
  unfold Server.check_election_raised
  by_cases hgrown : (children ++ c :: rest).length > s.num_children
  · rw [if_pos hgrown]
    refine ⟨.returned, .step .kept ?_, .inl rfl⟩
    simp only [Call.step, List.length_map, if_pos hgrown]
    refine .step .kept ?_
    simpa [Call.step] using .refl _
  · rw [if_neg hgrown, List.take_left]
    refine ⟨.raised, .step .kept ?_, .inr rfl⟩
    simp only [Call.step, List.length_map, if_neg hgrown]
    refine .step .kept (.step .kept (.step .kept ?_))
    have hloop := Call.alone_loop s.leader_port hget ((c :: rest).map Prod.fst)
      { s with num_children := (children ++ c :: rest).length, peer_ports := [] } none
    rw [← List.map_append] at hloop
    simp only [Call.step, List.length_map]
    refine hloop.trans (.step .kept ?_)
    simp only [List.map_cons, Call.step, hgone]
    exact .refl _

end Election

/-! ## The lowest znode -/

variable {K V : Type} {children children' : List (Path × Port)} {z z' own : Path × Port} {num : Nat}
  {ns : List Notification} {n : Notification}

theorem LowestNamed.unique (h : LowestNamed children z) (h' : LowestNamed children z')
    (hnodup : (children.map Prod.fst).Nodup) : z = z' :=
  List.inj_on_of_nodup_map hnodup h.1 h'.1 (Nat.le_antisymm (h.2 z' h'.1) (h'.2 z h.1))

/-- A server that owns the lowest znode owns the lowest one of every later membership it is in. -/
theorem LowestNamed.stays (h : LowestNamed children z) (h' : LowestNamed children' z')
    (hjoined : ∀ z ∈ children', z ∈ children ∨ ∀ y ∈ children, y.1 < z.1) (hown : own ∈ children)
    (hown' : own ∈ children') (hz : z.1 = own.1) : z'.1 = own.1 := by
  have hle := h'.2 own hown'
  rcases hjoined z' h'.1 with hmem | hnew
  · exact Nat.le_antisymm hle (hz ▸ h.2 z' hmem)
  · exact absurd (hnew own hown) (Nat.not_lt.mpr hle)

theorem Memberships.init (hm : Memberships own (ns ++ [n])) :
    Memberships own ns where
  own_mem m hmem := hm.own_mem m (List.mem_append_left _ hmem)
  nodup m hmem := hm.nodup m (List.mem_append_left _ hmem)
  joined := (List.pairwise_append.mp hm.joined).1

namespace Server

variable {s : Server K V}

/-- A call that gets past the test follows the lowest znode. -/
theorem check_election_decides (hle : children.length ≤ s.num_children) (hown : own ∈ children)
    (hnodup : (children.map Prod.fst).Nodup) (hpath : s.zk_path = some own.1)
    (hport : s.port = own.2) :
    ∃ z, LowestNamed children z ∧ (s.check_election children).1.leader_port = some z.2 ∧
      ((s.check_election children).1.leader = true ↔ s.leader = true ∨ z.1 = own.1) := by
  rcases s.check_election_cases children with
    ⟨hgrown, -⟩ | ⟨-, hmin, heq⟩ | ⟨-, hscan, -, -⟩ | ⟨-, c, ldr, hscan, hne, heq⟩
  · omega
  · rw [hpath] at hmin
    obtain ⟨z, hscan, hz⟩ := Option.map_eq_some_iff.mp hmin
    have hlowest : LowestNamed children z := scan_min hscan
    obtain rfl := List.inj_on_of_nodup_map hnodup hlowest.1 hown hz
    refine ⟨z, hlowest, ?_, ?_⟩ <;> rw [heq]
    · rw [hport]
    · simp
  · rw [scan_none hscan] at hown
    cases hown
  · refine ⟨(c, ldr), scan_min hscan, ?_, ?_⟩ <;> rw [heq]
    rw [hpath] at hne
    constructor
    · exact .inl
    · rintro (hleader | rfl)
      · exact hleader
      · exact absurd rfl hne

/-- What the server has decided after the calls for `ns`. -/
structure After (own : Path × Port) (num : Nat) (ns : List Notification) (s : Server K V) :
    Prop where
  zk_path : s.zk_path = some own.1
  port : s.port = own.2
  num_children : s.num_children = (progress num ns).1
  undecided : decided num ns = none → s.leader = false ∧ s.leader_port = none
  follows : ∀ d ∈ decided num ns, (∃ n ∈ ns, d = n.children) ∧ s.Follows own d

theorem progress_append (num : Nat) (ns : List Notification) (n : Notification) :
    progress num (ns ++ [n]) = (n.children.length,
      if n.gone = none ∧ n.children.length ≤ (progress num ns).1 then some n.children
      else (progress num ns).2) := by
  rw [progress, List.foldl_append]
  rfl

/-- A call that decides nothing only counts the children. -/
theorem After.counted (h : After own num ns s) {s' : Server K V}
    (hn : ¬ (n.gone = none ∧ n.children.length ≤ s.num_children))
    (hpath : s'.zk_path = s.zk_path) (hport : s'.port = s.port) (hleader : s'.leader = s.leader)
    (hldr : s'.leader_port = s.leader_port) (hcount : s'.num_children = n.children.length) :
    After own num (ns ++ [n]) s' := by
  have hdecided : decided num (ns ++ [n]) = decided num ns := by
    rw [h.num_children] at hn
    rw [decided, progress_append, if_neg hn, decided]
  refine ⟨hpath.trans h.zk_path, hport.trans h.port, by rw [hcount, progress_append], ?_, ?_⟩
  · rw [hdecided, hleader, hldr]
    exact h.undecided
  · rw [hdecided]
    intro d hd
    obtain ⟨⟨m, hm, heq⟩, z, hz, hport', hleader'⟩ := h.follows d hd
    exact ⟨⟨m, List.mem_append_left _ hm, heq⟩, z, hz, hldr.trans hport', by rw [hleader, hleader']⟩

theorem After.followed (h : After own num ns s) (hm : Memberships own (ns ++ [n]))
    (hgone : n.gone = none) (hle : n.children.length ≤ s.num_children) :
    After own num (ns ++ [n]) (s.check_election n.children).1 := by
  have hn : n ∈ ns ++ [n] := List.mem_append_right _ List.mem_cons_self
  obtain ⟨z, hz, hldr, hleader⟩ :=
    check_election_decides hle (hm.own_mem n hn) (hm.nodup n hn) h.zk_path h.port
  have hdecided : decided num (ns ++ [n]) = some n.children := by
    rw [decided, progress_append, if_pos ⟨hgone, by rwa [← h.num_children]⟩]
  -- a server that leads already owned the lowest znode of an earlier list
  have hstays : s.leader = true → z.1 = own.1 := by
    intro hlead
    cases hd : decided num ns with
    | none =>
      rw [(h.undecided hd).1] at hlead
      cases hlead
    | some d =>
      obtain ⟨⟨m, hmem, rfl⟩, y, hy, -, hyown⟩ := h.follows d hd
      have hjoined := (List.pairwise_append.mp hm.joined).2.2 m hmem n List.mem_cons_self
      exact hy.stays hz hjoined (hm.own_mem m (List.mem_append_left _ hmem)) (hm.own_mem n hn)
        (hyown.mp hlead)
  refine ⟨?_, ?_, ?_, ?_, ?_⟩
  · rw [check_election_zk_path, h.zk_path]
  · rw [check_election_port, h.port]
  · rw [check_election_num_children, progress_append]
  · rw [hdecided]
    rintro ⟨⟩
  · rw [hdecided]
    rintro d ⟨⟩
    refine ⟨⟨n, hn, rfl⟩, z, hz, hldr, hleader.trans ⟨?_, .inr⟩⟩
    rintro (hlead | hown)
    · exact hstays hlead
    · exact hown

theorem After.step (h : After own num ns s) (hm : Memberships own (ns ++ [n])) :
    After own num (ns ++ [n]) (s.notified n) := by
  unfold notified
  split
  · next hgone =>
    by_cases hle : n.children.length ≤ s.num_children
    · exact h.followed hm hgone hle
    · rw [check_election, if_pos (Nat.lt_of_not_le hle)]
      exact h.counted (fun hd => hle hd.2) rfl rfl rfl rfl rfl
  · next k hgone =>
    have hn : ¬ (n.gone = none ∧ n.children.length ≤ s.num_children) := by
      rintro ⟨hnone, -⟩
      rw [hnone] at hgone
      cases hgone
    unfold check_election_raised
    split <;> exact h.counted hn rfl rfl rfl rfl rfl

theorem after_handed (hm : Memberships own ns) :
    After (K := K) (V := V) own num ns (handed own num ns) := by
  unfold handed
  induction ns using List.reverseRecOn with
  | nil => exact ⟨rfl, rfl, rfl, fun _ => ⟨rfl, rfl⟩, by rintro d ⟨⟩⟩
  | append_singleton ns n ih =>
    rw [List.foldl_append]
    exact (ih hm.init).step hm

/-- A server follows the last list it is handed exactly if it is settled. -/
theorem follows_iff (hm : Memberships own (ns ++ [n])) :
    (handed own num (ns ++ [n]) : Server K V).Follows own n.children ↔
      Settled own num (ns ++ [n]) n.children := by
  have hn : n ∈ ns ++ [n] := List.mem_append_right _ List.mem_cons_self
  have hafter : After own num (ns ++ [n]) (handed own num (ns ++ [n]) : Server K V) :=
    after_handed hm
  constructor
  · rintro ⟨z', hz', hport', hleader'⟩
    cases hd : decided num (ns ++ [n]) with
    | none =>
      rw [(hafter.undecided hd).2] at hport'
      cases hport'
    | some d =>
      obtain ⟨-, z, hz, hport, hleader⟩ := hafter.follows d hd
      rw [hport] at hport'
      exact ⟨d, hd, z, z', hz, hz', Option.some.inj hport',
        fun hown => hleader.mp (hleader'.mpr hown)⟩
  · rintro ⟨d, hd, z, z', hz, hz', hport', hown'⟩
    obtain ⟨⟨m, hmem, rfl⟩, y, hy, hport, hleader⟩ := hafter.follows d hd
    obtain rfl := hy.unique hz (hm.nodup m hmem)
    refine ⟨z', hz', by rw [hport, hport'], hleader.trans ⟨fun hown => ?_, hown'⟩⟩
    rcases List.mem_append.mp hmem with hold | hlast
    · have hjoined := (List.pairwise_append.mp hm.joined).2.2 m hold n List.mem_cons_self
      exact hz.stays hz' hjoined (hm.own_mem m hmem) (hm.own_mem n hn) hown
    · obtain rfl := List.mem_singleton.mp hlast
      rwa [← hz.unique hz' (hm.nodup m hmem)]

/-- Servers that follow the same list agree on the leader. -/
theorem Follows.agree {s' : Server K V} {own' : Path × Port} (h : s.Follows own children)
    (h' : s'.Follows own' children) (hnodup : (children.map Prod.fst).Nodup) :
    s.leader_port = s'.leader_port ∧
      (s.leader = true → s'.leader = true → own.1 = own'.1) := by
  obtain ⟨z, hz, hport, hleader⟩ := h
  obtain ⟨z', hz', hport', hleader'⟩ := h'
  obtain rfl := hz.unique hz' hnodup
  exact ⟨hport.trans hport'.symm, fun hl hl' => (hleader.mp hl).symm.trans (hleader'.mp hl')⟩

end Server

instance (own : Path × Port) (ns : List Notification) : Decidable (Memberships own ns) :=
  decidable_of_iff ((∀ n ∈ ns, own ∈ n.children) ∧ (∀ n ∈ ns, (n.children.map Prod.fst).Nodup) ∧
    ns.Pairwise fun n n' => ∀ z ∈ n'.children, z ∈ n.children ∨ ∀ y ∈ n.children, y.1 < z.1)
    ⟨fun h => ⟨h.1, h.2.1, h.2.2⟩, fun h => ⟨h.1, h.2, h.3⟩⟩

/-- The znode of the second server to start. -/
def secondZnode : Path × Port := (1, 7778)

def both : Notification := ⟨[(0, 7777), (1, 7778)], none⟩

end Cs2510.Store
