import Cs2510.Lib.TransitionSystem
import Cs2510.Store.Server

/-!
# The servers and their threads

The state of the replicated store: the variables of every server, the `broadcast_post` and
`request_post` threads with the requests they have under way, and the snapshots being installed.
An event is the next action of one thread, or the handling of one request under its
`datastore_lock`. The outcome of a request (refused, lost before its handling or before its
answer) is the environment's.

The history numbers the writes in the order in which they were first put into a datastore: by
`post_data` or `leader_set`, or by `request_post` when it finds no leader. The number of a write
is its stamp; `version` is the newest stamp a datastore reflects for a key.

A snapshot is installed as the leader's datastore was, which is what becomes of one with string keys
(`represents_sync_with_leader` in `Snapshot.lean`, where other keys are dealt with as well). A
broadcast visits the ports that `peer_ports` has when its loop starts: `check_election` puts a new
list in its place. Left out are the ports that a `check_election` still adds to its new list while a
loop that has started on it is under way.
-/

namespace Cs2510.Store

/-- The arguments of a `broadcast_post`, the server it runs on, and the stamp of its write. -/
structure Broadcast (K V : Type) where
  owner : Port
  key : K
  val : V
  skip_port : Option Port
  stamp : Nat
  deriving DecidableEq, Repr

inductive Thread (K V : Type)
  /-- `broadcast_post` before its loop -/
  | broadcast_post (b : Broadcast K V)
  /-- at the head of the loop of `broadcast_post`, with the ports still to visit -/
  | loop (b : Broadcast K V) (todo : List Port)
  /-- with a request to `p` under way; `todo` is `none` when the sender has crashed -/
  | posted (b : Broadcast K V) (p : Port) (todo : Option (List Port))
  /-- `request_post` before its request -/
  | request_post (owner : Port) (key : K) (val : V)
  /-- with a request to `ldr` under way; `waiting` is false when the sender has crashed -/
  | requested (owner : Port) (key : K) (val : V) (ldr : Port) (waiting : Bool)
  /-- `request_post` with the answer `val` of the leader -/
  | replied (owner : Port) (key : K) (val : V) (stamp : Nat)
  deriving DecidableEq, Repr

/-- What a crash of `p` leaves of a thread: requests that `p` has sent stay under way, and those it
has not answered are lost, which ends their senders. -/
def Thread.afterCrash {K V : Type} (p : Port) : Thread K V → Option (Thread K V)
  | .broadcast_post b => if b.owner = p then none else some (.broadcast_post b)
  | .loop b todo => if b.owner = p then none else some (.loop b todo)
  | .posted b q todo =>
    if q = p then none else some (.posted b q (if b.owner = p then none else todo))
  | .request_post owner key val => if owner = p then none else some (.request_post owner key val)
  | .requested owner key val ldr waiting =>
    if ldr = p then none else some (.requested owner key val ldr (waiting && owner != p))
  | .replied owner key val stamp => if owner = p then none else some (.replied owner key val stamp)

/-- `sync_with_leader` on a server. -/
inductive Sync (K V : Type)
  | idle
  | asked (ldr : Port)
  | answered (ldr : Port) (datastore : K → Option V) (version : K → Option Nat)

def Sync.isIdle {K V : Type} : Sync K V → Bool
  | .idle => true
  | _ => false

/-- What a crash of `p` leaves of the call on another server. -/
def Sync.afterCrash {K V : Type} (p : Port) : Sync K V → Sync K V
  | .asked ldr => if ldr = p then .idle else .asked ldr
  | sync => sync

/-- A write in the history, and the server that first made it. -/
structure Write (K V : Type) where
  key : K
  val : V
  port : Port
  deriving DecidableEq, Repr

structure System (K V : Type) where
  live : Port → Bool
  server : Port → Server K V
  threads : List (Thread K V)
  sync : Port → Sync K V
  /-- history: the writes in the order of their stamps -/
  writes : List (Write K V)
  /-- history: the newest stamp a server's datastore reflects for a key -/
  version : Port → K → Option Nat
  /-- history: which server has put which write into its datastore -/
  applied : List (Port × Nat)
  /-- history: `applied` at the last crash -/
  applied_before : List (Port × Nat)
  /-- history: the leader whose snapshot a server has installed last -/
  synced : Port → Option Port

inductive Event (K V : Type)
  | post_data (p : Port) (data : Body K V)
  /-- a `POST /data/leader` that no server sent -/
  | leader_set (p : Port) (data : Body K V)
  | loop (b : Broadcast K V)
  | skip (b : Broadcast K V) (p : Port) (todo : List Port)
  /-- `conn.request` raises -/
  | refused (b : Broadcast K V) (p : Port) (todo : List Port)
  | post (b : Broadcast K V) (p : Port) (todo : List Port)
  /-- `answered` is false when the answer is lost -/
  | follower_set (b : Broadcast K V) (p : Port) (todo : Option (List Port)) (answered : Bool)
  /-- the request is lost, and `getresponse` raises -/
  | lost (b : Broadcast K V) (p : Port) (todo : Option (List Port))
  | finish (b : Broadcast K V)
  /-- `int(None)` raises -/
  | request_raised (owner : Port) (key : K) (val : V)
  | request_refused (owner : Port) (key : K) (val : V)
  | request (owner : Port) (key : K) (val : V) (ldr : Port)
  /-- `leader_set` for a `request_post`; `answered` is false when the answer is lost -/
  | serve (owner : Port) (key : K) (val : V) (ldr : Port) (waiting answered : Bool)
  | request_lost (owner : Port) (key : K) (val : V) (ldr : Port) (waiting : Bool)
  | reply (owner : Port) (key : K) (val : V) (stamp : Nat)
  | crash (p : Port)
  | start (p : Port)
  | check_election (p : Port) (children : List (Path × Port))
  | leader_sync (p : Port)
  | sync_done (p : Port)
  | sync_lost (p : Port)

namespace System

variable {K V : Type} [DecidableEq K] [DecidableEq V] [JsonValue K] [JsonValue V]

/-! ## Elementary updates -/

def setServer (s : System K V) (p : Port) (srv : Server K V) : System K V :=
  { s with server := Function.update s.server p srv }

def spawn (s : System K V) (th : Thread K V) : System K V :=
  { s with threads := s.threads ++ [th] }

def stop (s : System K V) (th : Thread K V) : System K V :=
  { s with threads := s.threads.erase th }

/-- A thread goes on. -/
def move (s : System K V) (th th' : Thread K V) : System K V := (s.stop th).spawn th'

def setSync (s : System K V) (p : Port) (sync : Sync K V) : System K V :=
  { s with sync := Function.update s.sync p sync }

/-- History: the datastore of `p` has been given the write `stamp` to `key`. -/
def record (s : System K V) (p : Port) (key : K) (stamp : Nat) : System K V :=
  { s with
    version := Function.update s.version p
      (Function.update (s.version p) key (some (max stamp ((s.version p key).getD 0))))
    applied := s.applied ++ [(p, stamp)] }

/-- History: a new write, first made by `p`. -/
def addWrite (s : System K V) (p : Port) (key : K) (val : V) : System K V :=
  ({ s with writes := s.writes ++ [⟨key, val, p⟩] } : System K V).record p key s.writes.length

/-- What a handler leaves: its server's variables, and the thread it spawned. A `broadcast_post`
is for a write the handler has accepted. -/
def handled (s : System K V) (p : Port) (srv : Server K V) : Option (Spawn K V) → System K V
  | none => s.setServer p srv
  | some (.broadcast_post key val skip_port) =>
    ((s.setServer p srv).addWrite p key val).spawn
      (.broadcast_post ⟨p, key, val, skip_port, s.writes.length⟩)
  | some (.request_post key val) => (s.setServer p srv).spawn (.request_post p key val)

/-! ## Events -/

def enabled (s : System K V) : Event K V → Prop
  | .post_data p _ | .leader_set p _ => s.live p
  | .loop b => .broadcast_post b ∈ s.threads ∧ s.live b.owner
  | .skip b p todo => .loop b (p :: todo) ∈ s.threads ∧ s.live b.owner ∧ some p = b.skip_port
  | .refused b p todo => .loop b (p :: todo) ∈ s.threads ∧ s.live b.owner ∧ some p ≠ b.skip_port
  | .post b p todo =>
    .loop b (p :: todo) ∈ s.threads ∧ s.live b.owner ∧ some p ≠ b.skip_port ∧ s.live p
  | .follower_set b p todo _ => .posted b p todo ∈ s.threads ∧ s.live p
  | .lost b p todo => .posted b p todo ∈ s.threads
  | .finish b => .loop b [] ∈ s.threads ∧ s.live b.owner
  | .request_raised owner key val =>
    .request_post owner key val ∈ s.threads ∧ s.live owner ∧ (s.server owner).leader_port = none
  | .request_refused owner key val =>
    .request_post owner key val ∈ s.threads ∧ s.live owner ∧
      (s.server owner).leader_port.isSome
  | .request owner key val ldr =>
    .request_post owner key val ∈ s.threads ∧ s.live owner ∧
      (s.server owner).leader_port = some ldr ∧ s.live ldr
  | .serve owner key val ldr waiting _ =>
    .requested owner key val ldr waiting ∈ s.threads ∧ s.live ldr
  | .request_lost owner key val ldr waiting => .requested owner key val ldr waiting ∈ s.threads
  | .reply owner key val stamp => .replied owner key val stamp ∈ s.threads ∧ s.live owner
  | .crash p => s.live p
  | .start p => s.live p = false
  | .check_election p _ => s.live p ∧ (s.sync p).isIdle
  | .leader_sync p =>
    match s.sync p with
    | .asked ldr => s.live p ∧ s.live ldr
    | _ => False
  | .sync_done p =>
    match s.sync p with
    | .answered .. => s.live p
    | _ => False
  | .sync_lost p => s.live p

def next (s : System K V) : Event K V → System K V
  | .post_data p data =>
    let (srv, thread, _) := (s.server p).post_data data
    s.handled p srv thread
  | .leader_set p data =>
    let (srv, thread, _) := (s.server p).leader_set data
    s.handled p srv thread
  | .loop b => s.move (.broadcast_post b) (.loop b (s.server b.owner).peer_ports)
  | .skip b p todo | .refused b p todo => s.move (.loop b (p :: todo)) (.loop b todo)
  | .post b p todo => s.move (.loop b (p :: todo)) (.posted b p (some todo))
  | .follower_set b p todo answered =>
    let (srv, _) := (s.server p).follower_set ⟨some b.key, some b.val, none⟩
    let s := (s.setServer p srv).record p b.key b.stamp
    match todo, answered with
    | some todo, true => s.move (.posted b p (some todo)) (.loop b todo)
    | _, _ => s.stop (.posted b p todo)
  | .lost b p todo => s.stop (.posted b p todo)
  | .finish b => s.stop (.loop b [])
  | .request_raised owner key val => s.stop (.request_post owner key val)
  | .request_refused owner key val =>
    -- `conn.getresponse()` raises after the fallback
    ((s.setServer owner ((s.server owner).set key val)).addWrite owner key val).stop
      (.request_post owner key val)
  | .request owner key val ldr =>
    s.move (.request_post owner key val) (.requested owner key val ldr true)
  | .serve owner key val ldr waiting answered =>
    let (srv, thread, _) := (s.server ldr).leader_set ⟨some key, some val, some owner⟩
    let stamp := s.writes.length
    let s := s.handled ldr srv thread
    if waiting && answered then
      s.move (.requested owner key val ldr waiting) (.replied owner key val stamp)
    else s.stop (.requested owner key val ldr waiting)
  | .request_lost owner key val ldr waiting => s.stop (.requested owner key val ldr waiting)
  | .reply owner key val stamp =>
    ((s.setServer owner ((s.server owner).set key val)).record owner key stamp).stop
      (.replied owner key val stamp)
  | .crash p =>
    { s with
      live := Function.update s.live p false
      threads := s.threads.filterMap (Thread.afterCrash p)
      sync := Function.update (fun q => (s.sync q).afterCrash p) p .idle
      applied_before := s.applied }
  | .start p =>
    { s.setServer p (.start p) with
      live := Function.update s.live p true
      version := Function.update s.version p fun _ => none
      synced := Function.update s.synced p none }
  | .check_election p children =>
    let (srv, ldr_port) := (s.server p).check_election children
    (s.setServer p srv).setSync p (ldr_port.elim .idle .asked)
  | .leader_sync p =>
    match s.sync p with
    | .asked ldr =>
      match (s.server ldr).leader_sync with
      | .snapshot datastore => s.setSync p (.answered ldr datastore (s.version ldr))
      -- `code != 200`
      | _ => s.setSync p .idle
    | _ => s
  | .sync_done p =>
    match s.sync p with
    | .answered ldr datastore version =>
      { (s.setServer p { s.server p with datastore }).setSync p .idle with
        version := Function.update s.version p version
        synced := Function.update s.synced p (some ldr) }
    | _ => s
  | .sync_lost p => s.setSync p .idle

instance (s : System K V) (e : Event K V) : Decidable (s.enabled e) :=
  match e with
  | .post_data .. | .leader_set .. | .crash .. | .start .. | .sync_lost .. =>
    inferInstanceAs (Decidable (_ = _))
  | .lost .. | .request_lost .. => inferInstanceAs (Decidable (_ ∈ _))
  | .loop .. | .skip .. | .refused .. | .post .. | .follower_set .. | .finish ..
  | .request_raised .. | .request_refused .. | .request .. | .serve .. | .reply ..
  | .check_election .. => inferInstanceAs (Decidable (_ ∧ _))
  | .leader_sync p =>
    match h : s.sync p with
    | .asked ldr => decidable_of_iff (s.live p ∧ s.live ldr) (by simp [enabled, h])
    | .idle | .answered .. => .isFalse (by simp [enabled, h])
  | .sync_done p =>
    match h : s.sync p with
    | .answered .. => decidable_of_iff (s.live p = true) (by simp [enabled, h])
    | .idle | .asked _ => .isFalse (by simp [enabled, h])

end System

/-! ## A system at rest, with its leader -/

/-- Servers that have elected a leader and hold the same data. -/
structure Config (K V : Type) where
  ports : List Port
  leader : Port
  path : Port → Path
  peer_ports : Port → List Port
  num_children : Nat
  datastore : K → Option V
  leader_mem : leader ∈ ports
  path_inj : ∀ p ∈ ports, ∀ q ∈ ports, path p = path q → p = q

variable {K V : Type} [DecidableEq K] [DecidableEq V] [JsonValue K] [JsonValue V]

def System.init (cfg : Config K V) : System K V where
  live p := p ∈ cfg.ports
  server p :=
    { zk_path := some (cfg.path p)
      port := p
      datastore := cfg.datastore
      leader := p = cfg.leader
      leader_port := some cfg.leader
      num_children := cfg.num_children
      peer_ports := cfg.peer_ports p }
  threads := []
  sync _ := .idle
  writes := []
  version _ _ := none
  applied := []
  applied_before := []
  synced _ := none

def store (cfg : Config K V) : TransitionSystem (System K V) (Event K V) where
  init := .init cfg
  enabled := System.enabled
  next := System.next

instance (cfg : Config K V) (s : System K V) (e : Event K V) :
    Decidable ((store cfg).enabled s e) :=
  inferInstanceAs (Decidable (s.enabled e))

/-! ## Two servers -/

/-- Servers 0 and 1 with nothing stored; server 0 is the leader. -/
def twoServers : Config (Option Nat) (Option Nat) where
  ports := [0, 1]
  leader := 0
  path := id
  peer_ports _ := [0, 1]
  num_children := 2
  datastore _ := none
  leader_mem := List.mem_cons_self
  path_inj _ _ _ _ h := h

/-- The body of a client's `POST /data`. -/
def pair (key val : Nat) : Body (Option Nat) (Option Nat) :=
  ⟨some (some key), some (some val), none⟩

/-- The broadcast of a write by server 0. -/
def copy (key val : Nat) (skip_port : Option Port) (stamp : Nat) :
    Broadcast (Option Nat) (Option Nat) :=
  ⟨0, some key, some val, skip_port, stamp⟩

/-- The same with a string for the key. -/
def textPair (key : String) (val : Nat) : Body String (Option Nat) := ⟨key, some (some val), none⟩

def textCopy (key : String) (val : Nat) (skip_port : Option Port) (stamp : Nat) :
    Broadcast String (Option Nat) :=
  ⟨0, key, some val, skip_port, stamp⟩

/-- A copy is posted to `p` and handled there. -/
def delivering {K V : Type} (b : Broadcast K V) (p : Port) (todo : List Port) :
    List (Event K V) :=
  [.post b p todo, .follower_set b p (some todo) true]

end Cs2510.Store
