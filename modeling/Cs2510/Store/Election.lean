import Cs2510.Lib.TransitionSystem
import Cs2510.Store.Server

/-!
# The election, step by step

A server runs `check_election` on two threads: `zk_init_election` calls it once, after it has
created the server's znode, and `election_watch` whenever the children of `/election` change. The
watch also calls it while the module is being loaded, and an exception there ends the process.
The threads share the global variables and no lock covers a whole call, so a call is cut into its
accesses to the globals and to ZooKeeper.

Servers are numbered in the order in which they start: a server that is started again on the port
of a crashed one has a new number, and a new session. ZooKeeper numbers the znodes it creates, lists
the children in any order, and removes a znode some time after the crash of its server.
-/

namespace Cs2510.Store.Election

/-- A child of `/election`: its sequence number, the port stored in it, and the server whose session
owns it. -/
structure Znode where
  path : Path
  port : Port
  owner : Nat
  deriving DecidableEq, Repr

/-- The threads that call `check_election`. -/
inductive Thread
  | zk_init_election
  | election_watch
  deriving DecidableEq, Repr

/-! ## `check_election` -/

/-- Where a call of `check_election` is, with the local variables it still needs. -/
inductive Call
  | test (children : List Path)
  /-- `num_children = len(children)`, and return -/
  | grown (children : List Path)
  /-- `num_children = len(children)` -/
  | shrunk (children : List Path)
  | read_leader_port (children : List Path)
  /-- `peer_ports = []` -/
  | clear (old_leader_port : Option Port) (children : List Path)
  /-- before `zk.get(c)` for the next child, or before the comparison of `min_path` -/
  | loop (old_leader_port : Option Port) (children : List Path) (min_path : Option Path)
  /-- `peer_ports.append(p)` -/
  | append (old_leader_port : Option Port) (c : Path) (p : Port) (children : List Path)
      (min_path : Option Path)
  /-- `leader = True` -/
  | lead
  /-- `leader_port = port` -/
  | lead_port
  /-- before `zk.get(min_path)` -/
  | follow (old_leader_port : Option Port) (min_path : Option Path)
  /-- `leader_port = ldr_port` -/
  | follow_port (old_leader_port : Option Port) (ldr_port : Port)
  /-- `old_leader_port != leader_port` -/
  | changed (old_leader_port : Option Port)
  | sync_with_leader
  deriving DecidableEq, Repr

/-- How `sync_with_leader` ends. -/
inductive Sync (K V : Type)
  | installed (datastore : K → Option V)
  | kept
  | raised

inductive Outcome
  | goes_on (call : Call)
  | returned
  | raised
  deriving DecidableEq, Repr

variable {K V : Type}

/-- The minimum of `min_path` and `c`. -/
def lower (min_path : Option Path) (c : Path) : Path :=
  match min_path with
  | none => c
  | some m => if c < m then c else m

/-- The next step of a call. `get` is what `zk.get` finds in a znode, `sync` what
`sync_with_leader` does if this is the step. -/
def Call.step (get : Path → Option Port) (sync : Sync K V) (s : Server K V) :
    Call → Server K V × Outcome
  | .test children =>
    (s, .goes_on (if children.length > s.num_children then .grown children else .shrunk children))
  | .grown children => ({ s with num_children := children.length }, .returned)
  | .shrunk children =>
    ({ s with num_children := children.length }, .goes_on (.read_leader_port children))
  | .read_leader_port children => (s, .goes_on (.clear s.leader_port children))
  | .clear old_leader_port children =>
    ({ s with peer_ports := [] }, .goes_on (.loop old_leader_port children none))
  | .loop old_leader_port (c :: children) min_path =>
    match get c with
    | some p => (s, .goes_on (.append old_leader_port c p children min_path))
    | none => (s, .raised)
  | .append old_leader_port c p children min_path =>
    ({ s with peer_ports := s.peer_ports ++ [p] },
      .goes_on (.loop old_leader_port children (some (lower min_path c))))
  | .loop old_leader_port [] min_path =>
    (s, .goes_on (if min_path = s.zk_path then .lead else .follow old_leader_port min_path))
  | .lead => ({ s with leader := true }, .goes_on .lead_port)
  | .lead_port => ({ s with leader_port := some s.port }, .returned)
  | .follow old_leader_port min_path =>
    match min_path.bind get with
    | some ldr_port => (s, .goes_on (.follow_port old_leader_port ldr_port))
    | none => (s, .raised)
  | .follow_port old_leader_port ldr_port =>
    ({ s with leader_port := some ldr_port }, .goes_on (.changed old_leader_port))
  | .changed old_leader_port =>
    (s, if old_leader_port ≠ s.leader_port then .goes_on .sync_with_leader else .returned)
  | .sync_with_leader =>
    match sync with
    | .installed datastore => ({ s with datastore }, .returned)
    | .kept => (s, .returned)
    | .raised => (s, .raised)

/-! ## Processes -/

/-- Where `zk_init_election` is. Lists of children come with the version of the membership. -/
inductive Init
  /-- before `zk.create` -/
  | sleeping
  /-- `zk.create` has created the znode; `zk_path` is not assigned yet -/
  | created (path : Path)
  /-- before `zk.get_children` -/
  | assigned
  /-- `num_children = len(children)` -/
  | listed (version : Nat) (children : List Path)
  /-- in `check_election`, or ended -/
  | called
  deriving DecidableEq, Repr

structure Process (K V : Type) where
  live : Bool
  server : Server K V
  init : Init
  /-- the first call of `election_watch` has returned -/
  loaded : Bool
  /-- the version of the membership that the watch has read last -/
  seen : Option Nat
  /-- the call a thread is in, and the version of its children -/
  call : Thread → Option (Nat × Call)
  /-- history: the thread that has cleared `peer_ports` last, if the other has not appended since -/
  clearer : Option Thread
  /-- history: the version of the children whose ports are `peer_ports` -/
  built : Option Nat

namespace Process

def start (port : Port) : Process K V where
  live := true
  server := .start port
  init := .sleeping
  loaded := false
  seen := none
  call _ := none
  clearer := none
  built := none

/-- The znode the server has created. -/
def znode (p : Process K V) : Option Path :=
  match p.init with
  | .sleeping => none
  | .created path => some path
  | .assigned | .listed .. | .called => p.server.zk_path

def setCall (p : Process K V) (t : Thread) (call : Option (Nat × Call)) : Process K V :=
  { p with call := Function.update p.call t call }

/-- History: the thread `t` is about to make the next step of its call. -/
def note (p : Process K V) (t : Thread) (version : Nat) : Call → Process K V
  | .clear .. => { p with clearer := some t, built := none }
  | .append .. => if p.clearer = some t then p else { p with clearer := none, built := none }
  | .loop _ [] _ => if p.clearer = some t then { p with built := some version } else p
  | _ => p

/-- The thread `t` has made a step of its call. -/
def after (p : Process K V) (t : Thread) (version : Nat) : Server K V × Outcome → Process K V
  | (server, .goes_on call) => { p.setCall t (some (version, call)) with server }
  | (server, .returned) =>
    { p.setCall t none with server, loaded := p.loaded || t == .election_watch }
  | (server, .raised) =>
    { p.setCall t none with server, live := p.live && (p.loaded || t != .election_watch) }

end Process

/-! ## Servers and ZooKeeper -/

structure Cluster (K V : Type) where
  /-- the number of servers started so far -/
  count : Nat
  process : Nat → Process K V
  /-- the children of `/election` -/
  members : List Znode
  /-- the sequence number of the next znode -/
  sequence : Path
  /-- how often the membership has changed -/
  version : Nat

inductive Event (K V : Type)
  | start (port : Port)
  | create (i : Nat)
  | assign (i : Nat) (path : Path)
  | get_children (i : Nat) (children : List Path)
  | count (i : Nat) (version : Nat) (children : List Path)
  /-- the watch is registered or fires, and reads the children -/
  | watch (i : Nat) (children : List Path)
  | check_election (i : Nat) (t : Thread) (sync : Sync K V)
  | crash (i : Nat)
  | expire (z : Znode)

namespace Cluster

def init : Cluster K V where
  count := 0
  process _ := { Process.start 0 with live := false }
  members := []
  sequence := 0
  version := 0

def children (s : Cluster K V) : List Path := s.members.map Znode.path

/-- `zk.get` -/
def get (s : Cluster K V) (c : Path) : Option Port :=
  (s.members.find? fun z => z.path = c).map Znode.port

def set (s : Cluster K V) (i : Nat) (p : Process K V) : Cluster K V :=
  { s with process := Function.update s.process i p }

def enabled (s : Cluster K V) : Event K V → Prop
  | .start port => ∀ i < s.count, (s.process i).live → (s.process i).server.port ≠ port
  | .create i => (s.process i).live ∧ (s.process i).init = .sleeping
  | .assign i path => (s.process i).live ∧ (s.process i).init = .created path
  | .get_children i children =>
    (s.process i).live ∧ (s.process i).init = .assigned ∧ children.Perm s.children
  | .count i version children =>
    (s.process i).live ∧ (s.process i).init = .listed version children
  | .watch i children =>
    (s.process i).live ∧ (s.process i).call .election_watch = none ∧
      (s.process i).seen ≠ some s.version ∧ children.Perm s.children
  | .check_election i t _ => (s.process i).live ∧ ((s.process i).call t).isSome
  | .crash i => (s.process i).live
  | .expire z => z ∈ s.members ∧ (s.process z.owner).live = false

def next (s : Cluster K V) : Event K V → Cluster K V
  | .start port => { s.set s.count (.start port) with count := s.count + 1 }
  | .create i =>
    { s.set i { s.process i with init := .created s.sequence } with
      members := s.members ++ [⟨s.sequence, (s.process i).server.port, i⟩]
      sequence := s.sequence + 1
      version := s.version + 1 }
  | .assign i path =>
    s.set i { s.process i with
      init := .assigned
      server := { (s.process i).server with zk_path := some path } }
  | .get_children i children => s.set i { s.process i with init := .listed s.version children }
  | .count i version children =>
    s.set i { (s.process i).setCall .zk_init_election (some (version, .test children)) with
      init := .called
      server := { (s.process i).server with num_children := children.length } }
  | .watch i children =>
    s.set i { (s.process i).setCall .election_watch (some (s.version, .test children)) with
      seen := some s.version }
  | .check_election i t sync =>
    match (s.process i).call t with
    | some (version, call) =>
      s.set i (((s.process i).note t version call).after t version
        (call.step s.get sync (s.process i).server))
    | none => s
  | .crash i => s.set i { s.process i with live := false }
  | .expire z => { s with members := s.members.erase z, version := s.version + 1 }

instance (s : Cluster K V) (e : Event K V) : Decidable (s.enabled e) :=
  match e with
  | .start _ => inferInstanceAs (Decidable (∀ i < s.count, _))
  | .create _ | .assign .. | .get_children .. | .count .. | .watch .. | .check_election ..
  | .expire _ => inferInstanceAs (Decidable (_ ∧ _))
  | .crash _ => inferInstanceAs (Decidable (_ = _))

end Cluster

variable (K V) in
def election : TransitionSystem (Cluster K V) (Event K V) where
  init := .init
  enabled := Cluster.enabled
  next := Cluster.next

instance (s : Cluster K V) (e : Event K V) : Decidable ((election K V).enabled s e) :=
  inferInstanceAs (Decidable (s.enabled e))

/-! ## A call that runs alone -/

/-- The steps of a call while nothing else happens to its server and the znodes. -/
inductive Call.Alone (get : Path → Option Port) :
    Server K V × Outcome → Server K V × Outcome → Prop
  | refl (r : Server K V × Outcome) : Alone get r r
  | step {s : Server K V} {call : Call} {r : Server K V × Outcome} (sync : Sync K V)
      (h : Alone get (call.step get sync s) r) : Alone get (s, .goes_on call) r

namespace Call

variable {get : Path → Option Port}

theorem Alone.trans {r r' r'' : Server K V × Outcome} (h : Alone get r r')
    (h' : Alone get r' r'') : Alone get r r'' := by
  induction h with
  | refl => exact h'
  | step sync _ ih => exact .step sync (ih h')

/-- The minimum found by the loop. -/
def lowest (min_path : Option Path) (children : List Path) : Option Path :=
  children.foldl (fun m c => some (lower m c)) min_path

theorem lowest_scan (children : List (Path × Port)) :
    lowest none (children.map Prod.fst) = (Server.scan children).2.map Prod.fst := by
  induction children using List.reverseRecOn with
  | nil => rfl
  | append_singleton children z ih =>
    rw [Server.scan_append, List.map_append, lowest, List.foldl_append]
    rw [lowest] at ih
    rw [ih]
    cases (Server.scan children).2 with
    | none => rfl
    | some m =>
      simp only [Option.map_some, List.map_cons, List.map_nil, List.foldl_cons, List.foldl_nil,
        lower]
      split <;> rfl

theorem alone_loop (old : Option Port) {children : List (Path × Port)}
    (hget : ∀ z ∈ children, get z.1 = some z.2) (rest : List Path) (s : Server K V)
    (min_path : Option Path) :
    Alone get (s, .goes_on (.loop old (children.map Prod.fst ++ rest) min_path))
      ({ s with peer_ports := s.peer_ports ++ children.map Prod.snd },
        .goes_on (.loop old rest (lowest min_path (children.map Prod.fst)))) := by
  induction children generalizing s min_path with
  | nil => simpa [lowest] using .refl _
  | cons z children ih =>
    have hz : get z.1 = some z.2 := hget z List.mem_cons_self
    have hrest := ih (fun y hy => hget y (List.mem_cons_of_mem _ hy))
      { s with peer_ports := s.peer_ports ++ [z.2] } (some (lower min_path z.1))
    refine .step .kept ?_
    simp only [List.map_cons, List.cons_append, Call.step, hz]
    refine .step .kept ?_
    simpa [Call.step, lowest, List.append_assoc] using hrest

/-- A call that runs alone does what `Server.check_election` says, up to the call of
`sync_with_leader`. -/
theorem alone_check_election (s : Server K V) {children : List (Path × Port)}
    (hget : ∀ z ∈ children, get z.1 = some z.2) :
    ∃ outcome, Alone get (s, .goes_on (.test (children.map Prod.fst)))
        ((s.check_election children).1, outcome) ∧
      if (s.check_election children).2.isSome then outcome = .goes_on .sync_with_leader
      else outcome = .returned ∨ outcome = .raised := by
  -- up to the comparison of `min_path` with `zk_path`
  have hloop : children.length ≤ s.num_children →
      Alone get (s, .goes_on (.test (children.map Prod.fst)))
        ({ s with num_children := children.length, peer_ports := children.map Prod.snd },
          .goes_on (.loop s.leader_port [] ((Server.scan children).2.map Prod.fst))) := by
    intro hle
    refine .step .kept ?_
    simp only [Call.step, List.length_map, if_neg (Nat.not_lt.mpr hle)]
    refine .step .kept (.step .kept (.step .kept ?_))
    have hrest := alone_loop s.leader_port hget []
      { s with num_children := children.length, peer_ports := [] } none
    simpa [Call.step, lowest_scan] using hrest
  rcases s.check_election_cases children with
    ⟨hgrown, heq⟩ | ⟨hle, hmin, heq⟩ | ⟨hle, hscan, hne, heq⟩ | ⟨hle, c, ldr, hscan, hne, heq⟩
  all_goals rw [heq]
  · refine ⟨.returned, .step .kept ?_, .inl rfl⟩
    simp only [Call.step, List.length_map, if_pos hgrown]
    refine .step .kept ?_
    simpa [Call.step] using .refl _
  · refine ⟨.returned, (hloop hle).trans (.step .kept ?_), .inl rfl⟩
    simp only [Call.step, if_pos hmin]
    exact .step .kept (.step .kept (.refl _))
  · refine ⟨.raised, (hloop hle).trans (.step .kept ?_), .inr rfl⟩
    simp only [Call.step, hscan, Option.map_none, if_neg hne]
    exact .step .kept (.refl _)
  · have hc : get c = some ldr := hget _ (Server.scan_min hscan).1
    have hfollow : Alone get (s, .goes_on (.test (children.map Prod.fst)))
        ({ s with
            num_children := children.length
            peer_ports := children.map Prod.snd
            leader_port := some ldr },
          if s.leader_port ≠ some ldr then .goes_on .sync_with_leader else .returned) := by
      refine (hloop hle).trans (.step .kept ?_)
      simp only [Call.step, hscan, Option.map_some, if_neg hne]
      refine .step .kept ?_
      simp only [Call.step, Option.bind_some, hc]
      exact .step .kept (.step .kept (.refl _))
    by_cases hold : s.leader_port = some ldr
    · simp only [hold, ne_eq, not_true, if_false] at hfollow ⊢
      exact ⟨_, hfollow, .inl rfl⟩
    · simp only [hold, ne_eq, not_false_iff, if_true] at hfollow ⊢
      exact ⟨_, hfollow, rfl⟩

end Call

/-! ## The first two servers -/

/-- The next `n` steps of a call. -/
def calling (i : Nat) (t : Thread) (n : Nat) : List (Event Nat Nat) :=
  List.replicate n (.check_election i t .kept)

/-- A server starts on an empty `/election`, and leads it. -/
def firstServer : List (Event Nat Nat) :=
  [.start 7777, .watch 0 []] ++ calling 0 .election_watch 7 ++
  [.create 0, .assign 0 0, .watch 0 [0]] ++ calling 0 .election_watch 2 ++
  [.get_children 0 [0], .count 0 1 [0]] ++ calling 0 .zk_init_election 9

/-- A second server joins; the first is told about it. -/
def secondServer : List (Event Nat Nat) :=
  [.start 7778, .watch 1 [0]] ++ calling 1 .election_watch 2 ++
  [.create 1, .assign 1 1, .get_children 1 [0, 1], .count 1 2 [0, 1]] ++
  calling 1 .zk_init_election 13 ++ [.watch 0 [0, 1]] ++ calling 0 .election_watch 2

end Cs2510.Store.Election
