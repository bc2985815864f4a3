import Mathlib.Logic.Basic
import Mathlib.Logic.Function.Basic
import Mathlib.Data.List.Induction

/-!
# One server of the replicated store (`a2/src/server.py`)

`Server` holds the module's global variables; each handler of the HTTP interface is a function of
them that returns the variables it leaves, the thread it spawns, if any, and its response.
`K` and `V` are the JSON values used as keys and values. The names of znodes are their sequence
numbers: `/election/node_` followed by ten digits orders them in the same way.
-/

namespace Cs2510.Store

abbrev Port := Nat

/-- A znode of `/election`, by its sequence number. -/
abbrev Path := Nat

/-- `isNone x` is `x == None`. -/
class JsonValue (α : Type) where
  isNone : α → Bool

instance {α : Type} : JsonValue (Option α) := ⟨Option.isNone⟩

instance : JsonValue String := ⟨fun _ => false⟩

/-- The global variables of a server. -/
structure Server (K V : Type) where
  zk_path : Option Path
  port : Port
  datastore : K → Option V
  leader : Bool
  leader_port : Option Port
  num_children : Nat
  peer_ports : List Port

/-- The body of a request; a field is `none` when the JSON object lacks it. -/
structure Body (K V : Type) where
  key : Option K
  value : Option V
  port : Option Port
  deriving DecidableEq, Repr

/-- A thread a handler starts. -/
inductive Spawn (K V : Type)
  | broadcast_post (key : K) (val : V) (skip_port : Option Port)
  | request_post (key : K) (val : V)
  deriving DecidableEq, Repr

inductive Response (K V : Type)
  /-- `jsonify({'key': key, 'value': val})` -/
  | pair (key : K) (val : V)
  /-- `jsonify(datastore)` -/
  | snapshot (datastore : K → Option V)
  | text (body : String) (code : Nat)
  /-- a handler that raised: 500 -/
  | raised

namespace Server

variable {K V : Type}

/-- The variables of a server that has just been started on `port`. -/
def start (port : Port) : Server K V where
  zk_path := none
  port
  datastore := fun _ => none
  leader := false
  leader_port := none
  num_children := 0
  peer_ports := []

section handlers

variable [DecidableEq K] (s : Server K V)

/-- `datastore[key] = val` -/
def set (key : K) (val : V) : Server K V :=
  { s with datastore := Function.update s.datastore key (some val) }

/-- `POST /data` -/
def post_data [JsonValue K] [JsonValue V] (data : Body K V) :
    Server K V × Option (Spawn K V) × Response K V :=
  match data.key, data.value with
  | some key, some val =>
    if JsonValue.isNone key || JsonValue.isNone val then (s, none, .text "Missing data" 400)
    else if s.leader then (s.set key val, some (.broadcast_post key val none), .pair key val)
    else (s, some (.request_post key val), .pair key val)
  | _, _ => (s, none, .raised)

/-- `POST /data/leader` -/
def leader_set (data : Body K V) : Server K V × Option (Spawn K V) × Response K V :=
  match data.key, data.value, data.port with
  | some key, some val, some p =>
    (s.set key val, some (.broadcast_post key val (some p)), .pair key val)
  | _, _, _ => (s, none, .text "Error, missing info" 400)

/-- `POST /data/follower` -/
def follower_set (data : Body K V) : Server K V × Response K V :=
  match data.key, data.value with
  | some key, some val => (s.set key val, .text "Success" 200)
  | _, _ => (s, .text "Missing data" 400)

/-- `GET /data/leader/sync` -/
def leader_sync : Response K V :=
  if s.leader then .snapshot s.datastore else .text "" 409

/-- The answer to a request for `key`, where `ret` is what the datastore holds for it. -/
def found [JsonValue V] (key : K) : Option V → Response K V
  | none => .text "Key not found" 404
  | some ret => if JsonValue.isNone ret then .text "Key not found" 404 else .pair key ret

/-- `GET /data` -/
def get_data [JsonValue K] [JsonValue V] (data : Body K V) : Response K V :=
  match data.key with
  | none => .raised
  | some key =>
    if JsonValue.isNone key then .text "Error, missing key" 400
    else found key (s.datastore key)

end handlers

/-! ## `check_election` -/

/-- The rebuilding of `peer_ports` and the search of the minimum, over the znodes of the children
and the ports stored in them. -/
def scan (children : List (Path × Port)) : List Port × Option (Path × Port) :=
  children.foldl
    (fun (peer_ports, min) (c, p) =>
      (peer_ports ++ [p],
        match min with
        | none => some (c, p)
        | some (min_path, q) => if c < min_path then some (c, p) else some (min_path, q)))
    ([], none)

/-- `check_election` on the children and the ports `zk.get` finds in them, run without
interference. The second component is the port `sync_with_leader` is called for. -/
def check_election (s : Server K V) (children : List (Path × Port)) :
    Server K V × Option Port :=
  if children.length > s.num_children then ({ s with num_children := children.length }, none)
  else
    let old_leader_port := s.leader_port
    let (peer_ports, min) := scan children
    let s := { s with num_children := children.length, peer_ports }
    if min.map Prod.fst = s.zk_path then
      ({ s with leader := true, leader_port := some s.port }, none)
    else
      match min with
      -- `zk.get(None)` raises
      | none => (s, none)
      | some (_, ldr_port) =>
        ({ s with leader_port := some ldr_port },
          if old_leader_port ≠ some ldr_port then some ldr_port else none)

theorem scan_append (children : List (Path × Port)) (c : Path) (p : Port) :
    scan (children ++ [(c, p)]) =
      ((scan children).1 ++ [p],
        match (scan children).2 with
        | none => some (c, p)
        | some (min_path, q) => if c < min_path then some (c, p) else some (min_path, q)) := by
  simp only [scan, List.foldl_append, List.foldl_cons, List.foldl_nil]

/-- `peer_ports` are the ports of the children, in their order. -/
theorem scan_peer_ports (children : List (Path × Port)) :
    (scan children).1 = children.map Prod.snd := by
  induction children using List.reverseRecOn with
  | nil => rfl
  | append_singleton children z ih => rw [scan_append, ih, List.map_append]; rfl

theorem scan_none {children : List (Path × Port)} (h : (scan children).2 = none) :
    children = [] := by
  induction children using List.reverseRecOn with
  | nil => rfl
  | append_singleton children z ih =>
    rw [scan_append] at h
    dsimp only at h
    split at h
    · cases h
    · split at h <;> cases h

/-- The minimum found is a child, and no child is below it. -/
theorem scan_min {children : List (Path × Port)} {c : Path} {p : Port}
    (h : (scan children).2 = some (c, p)) : (c, p) ∈ children ∧ ∀ z ∈ children, c ≤ z.1 := by
  induction children using List.reverseRecOn generalizing c p with
  | nil => cases h
  | append_singleton children z ih =>
    rw [scan_append] at h
    cases hmin : (scan children).2 with
    | none =>
      rw [hmin] at h
      cases h
      simp [scan_none hmin]
    | some m =>
      obtain ⟨hmem, hle⟩ := ih hmin
      rw [hmin] at h
      dsimp only at h
      split at h
      · next hlt =>
        cases h
        refine ⟨by simp, fun y hy => ?_⟩
        rcases List.mem_append.mp hy with hy | hy
        · exact Nat.le_of_lt (Nat.lt_of_lt_of_le hlt (hle y hy))
        · exact Nat.le_of_eq (by rw [List.mem_singleton.mp hy])
      · next hlt =>
        cases h
        refine ⟨List.mem_append_left _ hmem, fun y hy => ?_⟩
        rcases List.mem_append.mp hy with hy | hy
        · exact hle y hy
        · rw [List.mem_singleton.mp hy]
          exact Nat.le_of_not_lt hlt

/-- The four ways through `check_election`: the membership has grown, the server's own znode is the
lowest, there is none to follow, or the server follows the owner of the lowest. -/
theorem check_election_cases (s : Server K V) (children : List (Path × Port)) :
    (children.length > s.num_children ∧
      s.check_election children = ({ s with num_children := children.length }, none)) ∨
    (children.length ≤ s.num_children ∧ (scan children).2.map Prod.fst = s.zk_path ∧
      s.check_election children =
        ({ s with
            num_children := children.length
            peer_ports := children.map Prod.snd
            leader := true
            leader_port := some s.port }, none)) ∨
    (children.length ≤ s.num_children ∧ (scan children).2 = none ∧ none ≠ s.zk_path ∧
      s.check_election children =
        ({ s with
            num_children := children.length
            peer_ports := children.map Prod.snd }, none)) ∨
    (children.length ≤ s.num_children ∧ ∃ c ldr_port, (scan children).2 = some (c, ldr_port) ∧
      some c ≠ s.zk_path ∧ s.check_election children =
        ({ s with
            num_children := children.length
            peer_ports := children.map Prod.snd
            leader_port := some ldr_port },
          if s.leader_port ≠ some ldr_port then some ldr_port else none)) := by
  unfold check_election
  rw [← scan_peer_ports]
  by_cases hgrown : children.length > s.num_children
  · exact .inl ⟨hgrown, if_pos hgrown⟩
  · have hle := Nat.le_of_not_gt hgrown
    rw [if_neg hgrown]
    dsimp only
    by_cases hmin : (scan children).2.map Prod.fst = s.zk_path
    · exact .inr (.inl ⟨hle, hmin, if_pos hmin⟩)
    · rw [if_neg hmin]
      cases hscan : (scan children).2 with
      | none => exact .inr (.inr (.inl ⟨hle, rfl, by rwa [hscan] at hmin, rfl⟩))
      | some m => exact .inr (.inr (.inr ⟨hle, m.1, m.2, rfl, by rwa [hscan] at hmin, rfl⟩))

@[simp] theorem check_election_datastore (s : Server K V) (children : List (Path × Port)) :
    (s.check_election children).1.datastore = s.datastore := by
  rcases s.check_election_cases children with
    ⟨-, h⟩ | ⟨-, -, h⟩ | ⟨-, -, -, h⟩ | ⟨-, _, _, -, -, h⟩ <;> rw [h]

theorem check_election_zk_path (s : Server K V) (children : List (Path × Port)) :
    (s.check_election children).1.zk_path = s.zk_path := by
  rcases s.check_election_cases children with
    ⟨-, h⟩ | ⟨-, -, h⟩ | ⟨-, -, -, h⟩ | ⟨-, _, _, -, -, h⟩ <;> rw [h]

theorem check_election_port (s : Server K V) (children : List (Path × Port)) :
    (s.check_election children).1.port = s.port := by
  rcases s.check_election_cases children with
    ⟨-, h⟩ | ⟨-, -, h⟩ | ⟨-, -, -, h⟩ | ⟨-, _, _, -, -, h⟩ <;> rw [h]

theorem check_election_num_children (s : Server K V) (children : List (Path × Port)) :
    (s.check_election children).1.num_children = children.length := by
  rcases s.check_election_cases children with
    ⟨-, h⟩ | ⟨-, -, h⟩ | ⟨-, -, -, h⟩ | ⟨-, _, _, -, -, h⟩ <;> rw [h]

/-- Only a port that was not the leader's before is asked for its data. -/
theorem leader_port_of_check_election {s : Server K V} {children : List (Path × Port)} {q : Port}
    (h : (s.check_election children).2 = some q) : s.leader_port ≠ some q := by
  rcases s.check_election_cases children with
    ⟨-, heq⟩ | ⟨-, -, heq⟩ | ⟨-, -, -, heq⟩ | ⟨-, c, ldr, -, -, heq⟩ <;> rw [heq] at h
  · cases h
  · cases h
  · cases h
  · dsimp only at h
    split at h
    · next hne =>
      cases h
      exact hne
    · cases h

/-- A server becomes the leader when its znode is the lowest. -/
theorem check_election_leader {s : Server K V} {children : List (Path × Port)}
    (h : (s.check_election children).1.leader = true) :
    s.leader = true ∨ (scan children).2.map Prod.fst = s.zk_path := by
  rcases s.check_election_cases children with
    ⟨-, heq⟩ | ⟨-, hmin, -⟩ | ⟨-, -, -, heq⟩ | ⟨-, _, _, -, -, heq⟩
  · rw [heq] at h
    exact .inl h
  · exact .inr hmin
  · rw [heq] at h
    exact .inl h
  · rw [heq] at h
    exact .inl h

/-- A server asks the owner of the lowest znode, which is not its own. -/
theorem check_election_sync {s : Server K V} {children : List (Path × Port)} {ldr : Port}
    (h : (s.check_election children).2 = some ldr) :
    ∃ c, (scan children).2 = some (c, ldr) ∧ s.zk_path ≠ some c := by
  rcases s.check_election_cases children with
    ⟨-, heq⟩ | ⟨-, -, heq⟩ | ⟨-, -, -, heq⟩ | ⟨-, c, ldr_port, hmin, hne, heq⟩
  · rw [heq] at h
    cases h
  · rw [heq] at h
    cases h
  · rw [heq] at h
    cases h
  · rw [heq] at h
    dsimp only at h
    split at h
    · cases h
      exact ⟨c, hmin, hne.symm⟩
    · cases h

end Server

end Cs2510.Store
