import Mathlib.Logic.Function.Conjugate
import Cs2510.Store.ElectionStep

/-!
# Two threads in `check_election`

The call of `zk_init_election` and those of `election_watch` interleave in one server, access by
access. `serialises` says when that makes no difference: if the test of every call comes out as
against the list before its own, and a call writes `peer_ports` and `leader_port` only when the
calls with earlier lists have written them for the last time, then the globals end as if the calls
had been made one after the other, in the order in which their lists were fetched.

What is left of a call is a function on the globals (`Fetch.rest`). The proof rests on what it
commutes with.
-/

namespace Cs2510.Store.Election

variable {K V : Type}

/-! ## Calls one after the other -/

/-- The children a call is made with, and what `zk.get` finds in their znodes: in the loop, and in
that of `min_path` afterwards. -/
structure Fetch where
  children : List Path
  get : Path → Option Port
  get_min : Path → Option Port

namespace Fetch

def find (f : Fetch) : Call → Path → Option Port
  | .follow .. => f.get_min
  | _ => f.get

def step (f : Fetch) (sync : Sync K V) (s : Server K V) (c : Call) : Server K V × Outcome :=
  c.step (f.find c) sync s

/-- At most `n` steps of a call. -/
def run (f : Fetch) : Nat → Server K V → Call → Server K V
  | 0, s, _ => s
  | n + 1, s, c =>
    match f.step .kept s c with
    | (s, .goes_on c) => f.run n s c
    | (s, _) => s

/-- `check_election`, with nothing else going on. -/
def check_election (f : Fetch) (s : Server K V) : Server K V :=
  f.run (2 * f.children.length + 9) s (.test f.children)

end Fetch

/-- What a thread does with its children before it calls `check_election`: `zk_init_election` counts
them. -/
def Thread.enter (t : Thread) (f : Fetch) (s : Server K V) : Server K V :=
  match t with
  | .zk_init_election => { s with num_children := f.children.length }
  | .election_watch => s

/-- The calls of the two threads, one after the other. -/
def serial (s : Server K V) (order : List (Thread × Fetch)) : Server K V :=
  order.foldl (fun s (t, f) => f.check_election (t.enter f s)) s

/-! ## Both threads at once -/

/-- Where a call is: its thread has the children, makes the call, and comes to its end. -/
inductive Stage
  | waiting
  | running (c : Call)
  | ended
  deriving DecidableEq, Repr

structure Turn where
  thread : Thread
  fetch : Fetch
  /-- how many children are counted when the calls are made one after the other -/
  counted : Nat
  stage : Stage

/-- The calls in the order in which their children were fetched, with `n` children counted. -/
def turns (n : Nat) : List (Thread × Fetch) → List Turn
  | [] => []
  | (.zk_init_election, f) :: order =>
    ⟨.zk_init_election, f, f.children.length, .waiting⟩ :: turns f.children.length order
  | (.election_watch, f) :: order =>
    ⟨.election_watch, f, n, .waiting⟩ :: turns f.children.length order

structure Checks (K V : Type) where
  server : Server K V
  turns : List Turn

inductive Check (K V : Type)
  /-- a thread makes its next call -/
  | enter (k : Nat)
  /-- the next step of a call -/
  | step (k : Nat) (sync : Sync K V)

namespace Checks

def setStage (s : Checks K V) (k : Nat) (stage : Stage) : Checks K V :=
  { s with turns := s.turns.modify k fun x => { x with stage } }

/-- The call `k` has made a step. One that raises has ended like any other. -/
def after (s : Checks K V) (k : Nat) : Server K V × Outcome → Checks K V
  | (server, .goes_on c) => { s.setStage k (.running c) with server }
  | (server, _) => { s.setStage k .ended with server }

def enabled (s : Checks K V) : Check K V → Prop
  | .enter k => ∃ x ∈ s.turns[k]?, x.stage = .waiting ∧
    ∀ y ∈ s.turns.take k, y.thread = x.thread → y.stage = .ended
  | .step k _ => ∃ x ∈ s.turns[k]?, x.stage ≠ .waiting ∧ x.stage ≠ .ended

def next (s : Checks K V) : Check K V → Checks K V
  | .enter k =>
    match s.turns[k]? with
    | some x =>
      { s.setStage k (.running (.test x.fetch.children)) with
        server := x.thread.enter x.fetch s.server }
    | none => s
  | .step k sync =>
    match s.turns[k]? with
    | some ⟨_, f, _, .running c⟩ => s.after k (f.step sync s.server c)
    | _ => s

/-- All the calls have been made. -/
def Done (s : Checks K V) : Prop := ∀ x ∈ s.turns, x.stage = .ended

instance (s : Checks K V) : Decidable s.Done := inferInstanceAs (Decidable (∀ x ∈ s.turns, _))

instance (s : Checks K V) (a : Check K V) : Decidable (s.enabled a) :=
  match a with
  | .enter _ | .step .. => inferInstanceAs (Decidable (∃ x ∈ _, _))

end Checks

/-- The threads have their children, and make their calls. -/
def checks (s : Server K V) (order : List (Thread × Fetch)) :
    TransitionSystem (Checks K V) (Check K V) where
  init := ⟨s, turns s.num_children order⟩
  enabled := Checks.enabled
  next := Checks.next

instance (srv : Server K V) (order : List (Thread × Fetch)) (s : Checks K V) (a : Check K V) :
    Decidable ((checks srv order).enabled s a) :=
  inferInstanceAs (Decidable (s.enabled a))

/-! ## The order of the accesses -/

/-- The globals that a call overwrites; `leader` is only ever set. -/
inductive Global
  | peer_ports
  | leader_port
  deriving DecidableEq

/-- The global that the next step of a call writes. -/
def Call.touches : Call → Option Global
  | .clear .. | .append .. => some .peer_ports
  | .lead_port | .follow_port .. => some .leader_port
  | _ => none

/-- A call may still write a global; `grows` is how its test comes out. -/
def Call.ahead (grows : Bool) : Global → Call → Bool
  | _, .test _ => !grows
  | _, .grown _ | _, .changed _ | _, .sync_with_leader => false
  | .peer_ports, .shrunk _ | .peer_ports, .read_leader_port _ | .peer_ports, .clear ..
  | .peer_ports, .loop _ (_ :: _) _ | .peer_ports, .append .. => true
  | .peer_ports, _ => false
  | .leader_port, _ => true

namespace Turn

/-- The membership has grown since the list before. -/
def grows (x : Turn) : Bool := x.fetch.children.length > x.counted

def ahead (x : Turn) (g : Global) : Bool :=
  match x.stage with
  | .waiting => !x.grows
  | .running c => c.ahead x.grows g
  | .ended => false

/-- The next step of a call comes in its turn: its test comes out as it should, and it writes
nothing that an earlier call has yet to write. -/
def inTurn (x : Turn) (num_children : Nat) (earlier : List Turn) : Bool :=
  match x.stage with
  | .running (.test children) => (children.length > num_children : Bool) == x.grows
  | .running c => c.touches.all fun g => earlier.all fun y => !y.ahead g
  | .waiting | .ended => true

end Turn

def Checks.InTurn (s : Checks K V) : Check K V → Prop
  | .enter _ => True
  | .step k _ => ∀ x ∈ s.turns[k]?, x.inTurn s.server.num_children (s.turns.take k) = true

instance (s : Checks K V) (a : Check K V) : Decidable (s.InTurn a) :=
  match a with
  | .enter _ => .isTrue trivial
  | .step .. => inferInstanceAs (Decidable (∀ x ∈ _, _))

/-! ## What is left of a call -/

/-- What the calls leave in the globals, and what they compare it with. -/
structure Globals where
  zk_path : Option Path
  port : Port
  leader : Bool
  leader_port : Option Port
  peer_ports : List Port

namespace Globals

def setPorts (peer_ports : List Port) (g : Globals) : Globals := { g with peer_ports }
def lead (g : Globals) : Globals := { g with leader := true }
def follow (ldr_port : Port) (g : Globals) : Globals := { g with leader_port := some ldr_port }

end Globals

def globals (s : Server K V) : Globals where
  zk_path := s.zk_path
  port := s.port
  leader := s.leader
  leader_port := s.leader_port
  peer_ports := s.peer_ports

namespace Fetch

/-- The comparison of `min_path`, and what follows. -/
def elect (f : Fetch) (min_path : Option Path) (g : Globals) : Globals :=
  if min_path = g.zk_path then g.lead.follow g.port
  else
    match min_path.bind f.get_min with
    | some ldr_port => g.follow ldr_port
    | none => g

/-- The loop from here on, and what follows. -/
def scan (f : Fetch) : List Path → Option Path → Globals → Globals
  | [], min_path, g => f.elect min_path g
  | c :: children, min_path, g =>
    match f.get c with
    | some p => f.scan children (some (lower min_path c)) (g.setPorts (g.peer_ports ++ [p]))
    | none => g

/-- What the rest of a call does, if its test comes out as `grows`. -/
def rest (f : Fetch) (grows : Bool) : Call → Globals → Globals
  | .test children, g => if grows then g else f.scan children none (g.setPorts [])
  | .shrunk children, g | .read_leader_port children, g | .clear _ children, g =>
    f.scan children none (g.setPorts [])
  | .loop _ children min_path, g => f.scan children min_path g
  | .append _ c p children min_path, g =>
    f.scan children (some (lower min_path c)) (g.setPorts (g.peer_ports ++ [p]))
  | .lead, g => g.lead.follow g.port
  | .lead_port, g => g.follow g.port
  | .follow _ min_path, g =>
    match min_path.bind f.get_min with
    | some ldr_port => g.follow ldr_port
    | none => g
  | .follow_port _ ldr_port, g => g.follow ldr_port
  | .grown _, g | .changed _, g | .sync_with_leader, g => g

/-- What is left after a step. -/
def left (f : Fetch) (grows : Bool) : Outcome → Globals → Globals
  | .goes_on c => f.rest grows c
  | .returned | .raised => id

end Fetch

def Turn.rest (x : Turn) : Globals → Globals :=
  match x.stage with
  | .waiting => x.fetch.rest x.grows (.test x.fetch.children)
  | .running c => x.fetch.rest x.grows c
  | .ended => id

/-- What is left of several calls, one after the other. -/
def rests (turns : List Turn) (g : Globals) : Globals := turns.foldl (fun g x => x.rest g) g

/-! ## What it commutes with -/

section commute

variable {f : Fetch} {grows : Bool} {w : Globals → Globals}

/-- An update that leaves a global alone. -/
def Spares (w : Globals → Globals) : Global → Prop
  | .peer_ports =>
    (∀ g, (w g).peer_ports = g.peer_ports) ∧ ∀ ps, Function.Commute (Globals.setPorts ps) w
  | .leader_port => ∀ q, Function.Commute (Globals.follow q) w

/-- An update that leaves alone what is compared and never reset. -/
structure Plain (w : Globals → Globals) : Prop where
  zk_path (g : Globals) : (w g).zk_path = g.zk_path
  port (g : Globals) : (w g).port = g.port
  lead : Function.Commute Globals.lead w

theorem Plain.elect (hw : Plain w) (hldr : Spares w .leader_port) (min_path : Option Path) :
    Function.Commute (f.elect min_path) w := by
  intro g
  simp only [Fetch.elect, hw.zk_path, hw.port]
  split
  · rw [hw.lead g, hldr _ g.lead]
  · split
    · exact hldr _ g
    · rfl

theorem Plain.scan (hw : Plain w) (hports : Spares w .peer_ports) (hldr : Spares w .leader_port)
    (children : List Path) (min_path : Option Path) :
    Function.Commute (f.scan children min_path) w := by
  induction children generalizing min_path with
  | nil => exact hw.elect hldr min_path
  | cons c children ih =>
    intro g
    simp only [Fetch.scan]
    split
    · rw [hports.1, hports.2 _ g, ih]
    · rfl

/-- The loop from its start. -/
theorem Plain.rescan (hw : Plain w) (hports : Spares w .peer_ports)
    (hldr : Spares w .leader_port) (children : List Path) (g : Globals) :
    f.scan children none ((w g).setPorts []) = w (f.scan children none (g.setPorts [])) := by
  rw [hports.2 [] g, hw.scan hports hldr]

/-- The rest of a call commutes with an update of what it does not write any more. -/
theorem Plain.rest (hw : Plain w) (c : Call) (hspares : ∀ x, c.ahead grows x = true → Spares w x) :
    Function.Commute (f.rest grows c) w := by
  intro g
  cases c with
  | test children =>
    cases grows with
    | true => rfl
    | false => exact hw.rescan (hspares .peer_ports rfl) (hspares .leader_port rfl) children g
  | shrunk children | read_leader_port children | clear old_leader_port children =>
    exact hw.rescan (hspares .peer_ports rfl) (hspares .leader_port rfl) children g
  | loop old_leader_port children min_path =>
    cases children with
    | nil => exact hw.elect (hspares .leader_port rfl) min_path g
    | cons c children =>
      exact hw.scan (hspares .peer_ports rfl) (hspares .leader_port rfl) (c :: children) min_path g
  | append old_leader_port c p children min_path =>
    have hports := hspares .peer_ports rfl
    simp only [Fetch.rest]
    rw [hports.1, hports.2 _ g, hw.scan hports (hspares .leader_port rfl)]
  | lead =>
    have hldr := hspares .leader_port rfl
    simp only [Fetch.rest, hw.port]
    rw [hw.lead g, hldr _ g.lead]
  | lead_port =>
    simp only [Fetch.rest, hw.port]
    exact hspares .leader_port rfl _ g
  | follow old_leader_port min_path =>
    simp only [Fetch.rest]
    split
    · exact hspares .leader_port rfl _ g
    · rfl
  | follow_port old_leader_port ldr_port => exact hspares .leader_port rfl _ g
  | grown | changed | sync_with_leader => rfl

end commute

/-- What a step writes. -/
inductive Update
  | lead
  | setPorts (peer_ports : List Port)
  | follow (ldr_port : Port)

namespace Update

def apply : Update → Globals → Globals
  | .lead => .lead
  | .setPorts peer_ports => .setPorts peer_ports
  | .follow ldr_port => .follow ldr_port

def touches : Update → Option Global
  | .lead => none
  | .setPorts _ => some .peer_ports
  | .follow _ => some .leader_port

theorem plain (u : Update) : Plain u.apply := by
  cases u <;> exact ⟨fun _ => rfl, fun _ => rfl, fun _ => rfl⟩

theorem spares (u : Update) {x : Global} (h : u.touches ≠ some x) : Spares u.apply x := by
  cases u <;> cases x <;> first
    | exact absurd rfl h
    | exact ⟨fun _ => rfl, fun _ _ => rfl⟩
    | exact fun _ _ => rfl

theorem commute_rest (u : Update) (f : Fetch) {grows : Bool} {c : Call}
    (h : ∀ x, u.touches = some x → c.ahead grows x = false) :
    Function.Commute (f.rest grows c) u.apply := by
  apply u.plain.rest
  intro x hx
  apply u.spares
  intro heq
  rw [h x heq] at hx
  cases hx

theorem commute_turn (u : Update) {x : Turn} (h : ∀ g, u.touches = some g → x.ahead g = false) :
    Function.Commute x.rest u.apply := by
  unfold Turn.rest
  unfold Turn.ahead at h
  cases hstage : x.stage with
  | waiting =>
    rw [hstage] at h
    exact u.commute_rest x.fetch h
  | running c =>
    rw [hstage] at h
    exact u.commute_rest x.fetch h
  | ended => exact Function.Commute.id_left

theorem commute_rests (u : Update) {turns : List Turn}
    (h : ∀ x ∈ turns, ∀ g, u.touches = some g → x.ahead g = false) :
    Function.Commute (rests turns) u.apply := by
  induction turns with
  | nil => exact Function.Commute.id_left
  | cons x turns ih =>
    have hturns := ih fun y hy => h y (List.mem_cons_of_mem _ hy)
    exact hturns.comp_left (u.commute_turn (h x List.mem_cons_self))

end Update

/-! ## What stays -/

namespace Fetch

variable (f : Fetch) (g : Globals)

theorem elect_same (min_path : Option Path) :
    (f.elect min_path g).zk_path = g.zk_path ∧ (f.elect min_path g).port = g.port := by
  unfold elect
  split
  · exact ⟨rfl, rfl⟩
  · split <;> exact ⟨rfl, rfl⟩

theorem scan_same (children : List Path) (min_path : Option Path) :
    (f.scan children min_path g).zk_path = g.zk_path ∧
      (f.scan children min_path g).port = g.port := by
  induction children generalizing g min_path with
  | nil => exact f.elect_same g min_path
  | cons c children ih =>
    unfold scan
    split
    · exact ih _ _
    · exact ⟨rfl, rfl⟩

theorem rest_same (grows : Bool) (c : Call) :
    (f.rest grows c g).zk_path = g.zk_path ∧ (f.rest grows c g).port = g.port := by
  cases c with
  | test children =>
    simp only [rest]
    split
    · exact ⟨rfl, rfl⟩
    · exact f.scan_same _ _ _
  | shrunk | read_leader_port | clear | loop | append => exact f.scan_same _ _ _
  | follow =>
    simp only [rest]
    split <;> exact ⟨rfl, rfl⟩
  | _ => exact ⟨rfl, rfl⟩

end Fetch

theorem Turn.rest_same (x : Turn) (g : Globals) :
    (x.rest g).zk_path = g.zk_path ∧ (x.rest g).port = g.port := by
  unfold Turn.rest
  cases x.stage with
  | waiting => exact x.fetch.rest_same ..
  | running c => exact x.fetch.rest_same ..
  | ended => exact ⟨rfl, rfl⟩

theorem rests_same (turns : List Turn) (g : Globals) :
    (rests turns g).zk_path = g.zk_path ∧ (rests turns g).port = g.port := by
  induction turns generalizing g with
  | nil => exact ⟨rfl, rfl⟩
  | cons x turns ih =>
    obtain ⟨hpath, hport⟩ := x.rest_same g
    obtain ⟨hpath', hport'⟩ := ih (x.rest g)
    exact ⟨hpath'.trans hpath, hport'.trans hport⟩

/-! ## A step -/

namespace Fetch

variable (f : Fetch) {grows : Bool} {c : Call} {s : Server K V}

/-- A step that is made before the rest `r` of other calls might as well be made after it, if `r`
commutes with what the step writes and its test comes out as it should. -/
theorem step_before {r : Globals → Globals}
    (hsame : ∀ g, (r g).zk_path = g.zk_path ∧ (r g).port = g.port)
    (hcommute : ∀ u : Update, (∀ x, u.touches = some x → c.touches = some x) →
      Function.Commute r u.apply)
    (htest : ∀ children, c = .test children →
      (children.length > s.num_children ↔ grows = true)) (sync : Sync K V) :
    f.left grows (f.step sync s c).2 (r (globals (f.step sync s c).1)) =
      f.rest grows c (r (globals s)) := by
  have hports : c.touches = some .peer_ports → ∀ ps, Function.Commute r (.setPorts ps) :=
    fun h ps => hcommute (.setPorts ps) fun x hx => h.trans hx
  have hfollow : c.touches = some .leader_port → ∀ q, Function.Commute r (.follow q) :=
    fun h q => hcommute (.follow q) fun x hx => h.trans hx
  cases c with
  | test children =>
    have hgrown := htest children rfl
    simp only [step, Call.step, left]
    cases grows with
    | true => rw [if_pos (hgrown.mpr rfl)]; rfl
    | false => rw [if_neg fun h => Bool.false_ne_true (hgrown.mp h)]; rfl
  | clear old_leader_port children =>
    exact congrArg (f.rest grows (.loop old_leader_port children none)) (hports rfl [] (globals s))
  | loop old_leader_port children min_path =>
    cases children with
    | nil =>
      simp only [step, Call.step, left, rest, scan, elect, (hsame _).1]
      by_cases hmin : min_path = s.zk_path
      · simp [hmin, globals]
      · simp [hmin, globals]
    | cons c children =>
      simp only [step, find, Call.step, rest, scan]
      cases f.get c with
      | some p => rfl
      | none => rfl
  | append old_leader_port c p children min_path =>
    have hkept : (r (globals s)).peer_ports = s.peer_ports :=
      congrArg Globals.peer_ports (hports rfl s.peer_ports (globals s))
    simp only [step, Call.step, left, rest, hkept]
    exact congrArg (f.scan children _) (hports rfl (s.peer_ports ++ [p]) (globals s))
  | lead =>
    have h := hcommute .lead (fun x hx => by cases hx) (globals s)
    exact congrArg (f.rest grows .lead_port) h
  | lead_port =>
    simp only [rest, (hsame _).2]
    exact hfollow rfl s.port (globals s)
  | follow old_leader_port min_path =>
    simp only [step, find, Call.step, rest]
    cases min_path.bind f.get_min with
    | some ldr_port => rfl
    | none => rfl
  | follow_port old_leader_port ldr_port => exact hfollow rfl ldr_port (globals s)
  | changed old_leader_port =>
    simp only [step, Call.step, rest]
    split <;> rfl
  | sync_with_leader => cases sync <;> rfl
  | grown | shrunk | read_leader_port => rfl

/-- A step does the first part of what is left. -/
theorem left_step (htest : ∀ children, c = .test children →
    (children.length > s.num_children ↔ grows = true)) (sync : Sync K V) :
    f.left grows (f.step sync s c).2 (globals (f.step sync s c).1) = f.rest grows c (globals s) :=
  f.step_before (r := id) (fun _ => ⟨rfl, rfl⟩) (fun _ _ => Function.Commute.id_left) htest sync

end Fetch

/-! ## A call that runs alone -/

/-- An upper bound on the steps that are left. -/
def Call.steps : Call → Nat
  | .test children => 2 * children.length + 9
  | .shrunk children => 2 * children.length + 8
  | .read_leader_port children => 2 * children.length + 7
  | .clear _ children | .append _ _ _ children _ => 2 * children.length + 6
  | .loop _ children _ => 2 * children.length + 5
  | .follow .. => 4
  | .follow_port .. => 3
  | .lead | .changed _ => 2
  | .grown _ | .lead_port | .sync_with_leader => 1

/-- The number of children a call has yet to count. -/
def Call.counts : Call → Option Nat
  | .test children | .grown children | .shrunk children => some children.length
  | _ => none

namespace Fetch

/-- A step counts the children, or leaves that to the rest of the call. -/
theorem step_counts (f : Fetch) (sync : Sync K V) (s : Server K V) (c : Call) :
    (match (f.step sync s c).2 with
      | .goes_on c' => c'.counts.getD (f.step sync s c).1.num_children
      | .returned | .raised => (f.step sync s c).1.num_children) =
      c.counts.getD s.num_children := by
  cases c with
  | test children =>
    simp only [step, Call.step]
    by_cases hgrown : children.length > s.num_children
    · simp [hgrown, Call.counts]
    · simp [hgrown, Call.counts]
  | loop old_leader_port children min_path =>
    cases children with
    | nil =>
      simp only [step, Call.step]
      by_cases hmin : min_path = s.zk_path
      · simp [hmin, Call.counts]
      · simp [hmin, Call.counts]
    | cons c children =>
      simp only [step, find, Call.step]
      cases f.get c <;> rfl
  | follow old_leader_port min_path =>
    simp only [step, find, Call.step]
    cases min_path.bind f.get_min <;> rfl
  | changed old_leader_port =>
    simp only [step, Call.step]
    by_cases hchanged : old_leader_port ≠ s.leader_port
    · simp [hchanged, Call.counts]
    · simp [hchanged, Call.counts]
  | sync_with_leader => cases sync <;> rfl
  | grown | shrunk | read_leader_port | clear | append | lead | lead_port | follow_port => rfl

theorem steps_lt {f : Fetch} {sync : Sync K V} {s : Server K V} {c c' : Call}
    (h : (f.step sync s c).2 = .goes_on c') :
    c'.steps < c.steps ∧ ∀ children, c' ≠ .test children := by
  cases c with
  | test children =>
    simp only [step, Call.step, Outcome.goes_on.injEq] at h
    subst h
    split <;> simp [Call.steps]
  | loop old_leader_port children min_path =>
    cases children with
    | nil =>
      simp only [step, Call.step, Outcome.goes_on.injEq] at h
      subst h
      split <;> simp [Call.steps]
    | cons c children =>
      simp only [step, Call.step] at h
      split at h
      · cases h
        simp [Call.steps]
        omega
      · cases h
  | follow old_leader_port min_path =>
    simp only [step, Call.step] at h
    split at h
    · cases h
      simp [Call.steps]
    · cases h
  | changed old_leader_port =>
    simp only [step, Call.step] at h
    split at h
    · cases h
      simp [Call.steps]
    · cases h
  | sync_with_leader => cases sync <;> cases h
  | shrunk | read_leader_port | clear | append | lead | follow_port =>
    cases h
    simp [Call.steps]
  | grown | lead_port => cases h

theorem run_spec (f : Fetch) {n : Nat} {s : Server K V} {c : Call} (hn : c.steps ≤ n)
    {grows : Bool}
    (htest : ∀ children, c = .test children → (children.length > s.num_children ↔ grows = true)) :
    globals (f.run n s c) = f.rest grows c (globals s) ∧
      (f.run n s c).num_children = c.counts.getD s.num_children := by
  induction n generalizing s c with
  | zero => cases c <;> simp [Call.steps] at hn
  | succ n ih =>
    have hleft := f.left_step htest .kept
    have hcounts := f.step_counts .kept s c
    have hlt := @steps_lt K V f .kept s c
    unfold run
    cases hstep : f.step .kept s c with
    | mk s' outcome =>
      rw [hstep] at hleft hcounts hlt
      rw [← hleft, ← hcounts]
      cases outcome with
      | goes_on c' =>
        obtain ⟨hless, hne⟩ := hlt rfl
        exact ih (Nat.le_of_lt_succ (Nat.lt_of_lt_of_le hless hn)) fun children h =>
          absurd h (hne children)
      | returned | raised => exact ⟨rfl, rfl⟩

theorem check_election_spec (f : Fetch) (s : Server K V) :
    globals (f.check_election s) =
        f.rest (f.children.length > s.num_children) (.test f.children) (globals s) ∧
      (f.check_election s).num_children = f.children.length := by
  refine f.run_spec (c := .test f.children) (Nat.le_refl _) ?_
  rintro children ⟨⟩
  exact decide_eq_true_iff.symm

/-- The loop finds the children at their ports. -/
theorem scan_found {f : Fetch} {children : List (Path × Port)}
    (hget : ∀ z ∈ children, f.get z.1 = some z.2) (min_path : Option Path) (g : Globals) :
    f.scan (children.map Prod.fst) min_path g =
      f.elect (Call.lowest min_path (children.map Prod.fst))
        (g.setPorts (g.peer_ports ++ children.map Prod.snd)) := by
  induction children generalizing min_path g with
  | nil => simp [scan, Call.lowest, Globals.setPorts]
  | cons z children ih =>
    have hrest : ∀ y ∈ children, f.get y.1 = some y.2 := fun y hy =>
      hget y (List.mem_cons_of_mem _ hy)
    simp only [List.map_cons, scan, hget z List.mem_cons_self]
    rw [ih hrest]
    simp [Globals.setPorts, Call.lowest]

/-- If `zk.get` finds all the children, this is what `Server.check_election` does. -/
theorem globals_check_election {f : Fetch} {children : List (Path × Port)}
    (hchildren : f.children = children.map Prod.fst)
    (hget : ∀ z ∈ children, f.get z.1 = some z.2)
    (hmin : ∀ z ∈ children, f.get_min z.1 = some z.2) (s : Server K V) :
    globals (f.check_election s) = globals (s.check_election children).1 := by
  rw [(f.check_election_spec s).1, hchildren]
  simp only [rest, List.length_map, scan_found hget, Call.lowest_scan, decide_eq_true_eq]
  rcases s.check_election_cases children with
    ⟨hgrown, heq⟩ | ⟨hle, hlowest, heq⟩ | ⟨hle, hscan, hne, heq⟩ | ⟨hle, c, ldr, hscan, hne, heq⟩
  · rw [if_pos hgrown, heq]
    rfl
  · rw [if_neg (Nat.not_lt.mpr hle), heq, hlowest]
    exact if_pos rfl
  · rw [if_neg (Nat.not_lt.mpr hle), heq, hscan]
    exact if_neg hne
  · have hldr := hmin _ (Server.scan_min hscan).1
    rw [if_neg (Nat.not_lt.mpr hle), heq, hscan]
    refine (if_neg hne).trans ?_
    simp only [Option.map_some, Option.bind_some, hldr]
    rfl

/-- The loop adds to `peer_ports` what it finds, in the order of the children. -/
theorem scan_peer_ports (f : Fetch) (children : List Path) (min_path : Option Path) (g : Globals) :
    ∃ found, (f.scan children min_path g).peer_ports = g.peer_ports ++ found ∧
      found.Sublist (children.filterMap f.get) := by
  induction children generalizing min_path g with
  | nil =>
    refine ⟨[], ?_, List.nil_sublist _⟩
    simp only [scan, elect, List.append_nil]
    split
    · rfl
    · split <;> rfl
  | cons c children ih =>
    simp only [scan]
    split
    · next p hp =>
      obtain ⟨found, heq, hsub⟩ := ih (some (lower min_path c)) (g.setPorts (g.peer_ports ++ [p]))
      refine ⟨p :: found, ?_, ?_⟩
      · rw [heq]
        simp [Globals.setPorts]
      · rw [List.filterMap_cons_some hp]
        exact hsub.cons_cons p
    · exact ⟨[], (List.append_nil _).symm, List.nil_sublist _⟩

theorem nodup_check_election {f : Fetch} (hf : (f.children.filterMap f.get).Nodup)
    {s : Server K V} (hs : s.peer_ports.Nodup) : (f.check_election s).peer_ports.Nodup := by
  change (globals (f.check_election s)).peer_ports.Nodup
  rw [(f.check_election_spec s).1]
  simp only [rest]
  split
  · exact hs
  · obtain ⟨found, heq, hsub⟩ := f.scan_peer_ports f.children none ((globals s).setPorts [])
    rw [heq]
    exact hsub.nodup hf

end Fetch

theorem rests_turns (s : Server K V) (order : List (Thread × Fetch)) :
    rests (turns s.num_children order) (globals s) = globals (serial s order) := by
  induction order generalizing s with
  | nil => rfl
  | cons z order ih =>
    obtain ⟨t, f⟩ := z
    obtain ⟨hglobals, hnum⟩ := f.check_election_spec (t.enter f s)
    have hrest := ih (f.check_election (t.enter f s))
    rw [hnum, hglobals] at hrest
    cases t <;> exact hrest

theorem nodup_serial {order : List (Thread × Fetch)}
    (hf : ∀ z ∈ order, (z.2.children.filterMap z.2.get).Nodup) {s : Server K V}
    (hs : s.peer_ports.Nodup) : (serial s order).peer_ports.Nodup := by
  induction order generalizing s with
  | nil => exact hs
  | cons z order ih =>
    obtain ⟨t, f⟩ := z
    apply ih fun y hy => hf y (List.mem_cons_of_mem _ hy)
    apply Fetch.nodup_check_election (hf (t, f) List.mem_cons_self)
    cases t <;> exact hs

/-! ## A run -/

namespace Checks

variable {s : Checks K V} {a : Check K V}

/-- The globals at the end, if the calls come to their ends one after the other. -/
def outcome (s : Checks K V) : Globals := rests s.turns (globals s.server)

theorem rests_cons (x : Turn) (turns : List Turn) (g : Globals) :
    rests (x :: turns) g = rests turns (x.rest g) :=
  rfl

theorem rests_append (before after : List Turn) (g : Globals) :
    rests (before ++ after) g = rests after (rests before g) :=
  List.foldl_append ..

/-- The turns before and after one of them. -/
theorem exists_turn {turns : List Turn} {k : Nat} {x : Turn} (h : turns[k]? = some x) :
    ∃ before after, turns = before ++ x :: after ∧ turns.take k = before ∧
      ∀ f, turns.modify k f = before ++ f x :: after := by
  obtain ⟨hk, hx⟩ := List.getElem?_eq_some_iff.mp h
  refine ⟨turns.take k, turns.drop (k + 1), ?_, rfl, fun f => ?_⟩
  · rw [← hx, List.getElem_cons_drop, List.take_append_drop]
  · rw [List.modify_eq_take_cons_drop hk, hx]

/-- A step of the call `k` leaves all the others as they are. -/
theorem exists_turn_after {k : Nat} {x : Turn} (h : s.turns[k]? = some x)
    (r : Server K V × Outcome) :
    ∃ before after x', s.turns = before ++ x :: after ∧ s.turns.take k = before ∧
      (s.after k r).turns = before ++ x' :: after ∧ x'.rest = x.fetch.left x.grows r.2 := by
  obtain ⟨before, after, heq, htake, hmodify⟩ := exists_turn h
  obtain ⟨server, c | _ | _⟩ := r
  · exact ⟨before, after, { x with stage := .running c }, heq, htake, hmodify _, rfl⟩
  · exact ⟨before, after, { x with stage := .ended }, heq, htake, hmodify _, rfl⟩
  · exact ⟨before, after, { x with stage := .ended }, heq, htake, hmodify _, rfl⟩

theorem after_server (s : Checks K V) (k : Nat) (r : Server K V × Outcome) :
    (s.after k r).server = r.1 := by
  obtain ⟨server, _ | _ | _⟩ := r <;> rfl

theorem inTurn_spec {x : Turn} {num_children : Nat} {earlier : List Turn} {c : Call}
    (hstage : x.stage = .running c) (h : x.inTurn num_children earlier = true) :
    (∀ children, c = .test children → (children.length > num_children ↔ x.grows = true)) ∧
      ∀ g, c.touches = some g → ∀ y ∈ earlier, y.ahead g = false := by
  unfold Turn.inTurn at h
  rw [hstage] at h
  constructor
  · rintro children rfl
    rw [← beq_iff_eq.mp h]
    exact decide_eq_true_iff.symm
  · intro g hg y hy
    cases c with
    | test => cases hg
    | _ =>
      simp only [hg, Option.all_some, List.all_eq_true, Bool.not_eq_true'] at h
      exact h y hy

theorem outcome_enter {k : Nat} (he : s.enabled (.enter k)) :
    (s.next (.enter k)).outcome = s.outcome := by
  obtain ⟨x, hmem, hwaiting, -⟩ := he
  have hx : s.turns[k]? = some x := hmem
  obtain ⟨before, after, heq, -, hmodify⟩ := exists_turn hx
  have hserver : globals (x.thread.enter x.fetch s.server) = globals s.server := by
    cases x.thread <;> rfl
  have hrest : Turn.rest { x with stage := .running (.test x.fetch.children) } = x.rest := by
    rw [Turn.rest, Turn.rest, hwaiting]
    rfl
  simp only [next, hx, outcome, setStage, hmodify, hserver]
  rw [heq, rests_append, rests_append, rests_cons, rests_cons, hrest]

/-- A step in its turn does not change how it all ends. -/
theorem outcome_step {k : Nat} {sync : Sync K V} (he : s.enabled (.step k sync))
    (ht : s.InTurn (.step k sync)) : (s.next (.step k sync)).outcome = s.outcome := by
  obtain ⟨x, hmem, hstarted, hgoing⟩ := he
  have hturn := ht x hmem
  have hx : s.turns[k]? = some x := hmem
  obtain ⟨t, f, n, stage⟩ := x
  cases stage with
  | waiting => exact absurd rfl hstarted
  | ended => exact absurd rfl hgoing
  | running c =>
    obtain ⟨before, after, x', heq, htake, hafter, hleft⟩ :=
      exists_turn_after hx (f.step sync s.server c)
    have hnext : s.next (.step k sync) = s.after k (f.step sync s.server c) := by
      simp only [next, hx]
    rw [hnext, outcome, outcome, hafter, heq, after_server, rests_append, rests_append,
      rests_cons, rests_cons, hleft]
    refine congrArg (rests after) ?_
    obtain ⟨htest, hahead⟩ := inTurn_spec rfl hturn
    refine f.step_before (rests_same before) (fun u hu => ?_) htest sync
    apply u.commute_rests
    intro y hy g hg
    exact hahead g (hu g hg) y (htake ▸ hy)

theorem outcome_of_done (h : s.Done) : s.outcome = globals s.server := by
  have hrests : ∀ (turns : List Turn) g, (∀ x ∈ turns, x.stage = .ended) → rests turns g = g := by
    intro turns g hover
    induction turns with
    | nil => rfl
    | cons x turns ih =>
      have hx : x.rest = id := by rw [Turn.rest, hover x List.mem_cons_self]
      rw [rests_cons, hx]
      exact ih fun y hy => hover y (List.mem_cons_of_mem _ hy)
  exact hrests _ _ h

end Checks

/-- **Concurrent checks.** If every step of an interleaving comes in its turn, `peer_ports`,
`leader` and `leader_port` are in the end what they are when the calls are made one after the other,
in the order in which their lists were fetched. In particular no port appears twice in
`peer_ports`. -/
theorem serialises {srv : Server K V} {order : List (Thread × Fetch)} {s : Checks K V}
    (hr : (checks srv order).Reach Checks.InTurn s) (hdone : s.Done) :
    (s.server.peer_ports = (serial srv order).peer_ports ∧
      s.server.leader = (serial srv order).leader ∧
      s.server.leader_port = (serial srv order).leader_port) ∧
    ((∀ z ∈ order, (z.2.children.filterMap z.2.get).Nodup) → srv.peer_ports.Nodup →
      s.server.peer_ports.Nodup) := by
  have houtcome : s.outcome = globals (serial srv order) := by
    rw [← rests_turns]
    apply hr.invariant
      (I := fun s => s.outcome = rests (turns srv.num_children order) (globals srv))
    · rfl
    intro s a hs he ht
    cases a with
    | enter k => exact (Checks.outcome_enter he).trans hs
    | step k sync => exact (Checks.outcome_step he ht).trans hs
  rw [Checks.outcome_of_done hdone] at houtcome
  have hports : s.server.peer_ports = (serial srv order).peer_ports :=
    congrArg Globals.peer_ports houtcome
  refine ⟨⟨hports, congrArg Globals.leader houtcome, congrArg Globals.leader_port houtcome⟩, ?_⟩
  intro hdistinct hnodup
  rw [hports]
  exact nodup_serial hdistinct hnodup

/-! ## A server whose leader goes -/

/-- The server 1 has joined; when `zk_init_election` has read the port of server 0, that server
goes, so that the second `zk.get` of its znode raises. -/
def leaderGoes : List (Thread × Fetch) :=
  [(.zk_init_election, ⟨[0, 1], some, fun _ => none⟩), (.election_watch, ⟨[1], some, some⟩)]

def joined : Server Nat Nat := { Server.start 1 with zk_path := some 1 }

/-- `n` steps of the call `k`. -/
def stepping (k n : Nat) : List (Check Nat Nat) := List.replicate n (.step k .kept)

/-- The watch overtakes only with what `zk_init_election` has left behind. -/
theorem serialises_overlapping : ∃ s : Checks Nat Nat, s.Done ∧
    s.server.peer_ports = (serial joined leaderGoes).peer_ports ∧
    s.server.leader = (serial joined leaderGoes).leader ∧
    s.server.leader_port = (serial joined leaderGoes).leader_port := by
  have hrun : ((checks joined leaderGoes).exec Checks.InTurn (checks joined leaderGoes).init
      ([.enter 0] ++ stepping 0 8 ++ [.enter 1] ++ stepping 1 5 ++ stepping 0 2 ++
        stepping 1 4)).any (fun s => s.Done) = true := by
    decide
  obtain ⟨s, hr, hs⟩ := TransitionSystem.exists_reach_of_exec
    (p := fun s : Checks Nat Nat => s.Done) hrun
  have hdone := of_decide_eq_true hs
  exact ⟨s, hdone, (serialises hr hdone).1⟩

/-- The two threads interleave so that port 1 is in `peer_ports` twice. -/
theorem not_serialises : ¬ ∀ (srv : Server Nat Nat) order s,
    (checks srv order).Reachable s → s.Done →
    (s.server.peer_ports = (serial srv order).peer_ports ∧
      s.server.leader = (serial srv order).leader ∧
      s.server.leader_port = (serial srv order).leader_port) ∧
    ((∀ z ∈ order, (z.2.children.filterMap z.2.get).Nodup) → srv.peer_ports.Nodup →
      s.server.peer_ports.Nodup) := by
  intro hall
  have hrun : ((checks joined leaderGoes).exec (fun _ _ => True) (checks joined leaderGoes).init
      ([.enter 0] ++ stepping 0 6 ++ [.enter 1] ++ stepping 1 4 ++ stepping 0 2 ++
        stepping 1 5 ++ stepping 0 2)).any (fun s => s.Done ∧ s.server.peer_ports = [1, 1]) =
          true := by
    decide
  obtain ⟨s, hr, hs⟩ := TransitionSystem.exists_reach_of_exec
    (p := fun s : Checks Nat Nat => s.Done ∧ s.server.peer_ports = [1, 1]) hrun
  obtain ⟨hdone, hports⟩ := of_decide_eq_true hs
  have hserial : (serial joined leaderGoes).peer_ports = [1] := by decide
  have hsame := (hall joined leaderGoes s hr hdone).1.1
  rw [hports, hserial] at hsame
  cases hsame

end Cs2510.Store.Election
