import Cs2510.Store.System

/-!
# What a step of the store does

`effect` says which datastore a step gives which write, and `accepted` which write it adds to the
history. The lemmas of this module say what a step does to a datastore and its version
(`cell_next`), to the history and to the updates under way, in these terms.
-/

namespace Cs2510.Store

variable {K V : Type}

/-- The update a thread carries: a key, a value and the stamp of the write. -/
def Thread.update : Thread K V → Option (K × V × Nat)
  | .broadcast_post b | .loop b _ | .posted b _ _ => some (b.key, b.val, b.stamp)
  | .replied _ key val stamp => some (key, val, stamp)
  | .request_post .. | .requested .. => none

/-- The thread is going to give its update to the server at `p`. -/
def Thread.Reaches (peer_ports : Port → List Port) (p : Port) : Thread K V → Prop
  | .broadcast_post b => p ∈ peer_ports b.owner ∧ b.skip_port ≠ some p
  | .loop b todo => p ∈ todo ∧ b.skip_port ≠ some p
  | .posted b q todo => p = q ∨ ∃ l ∈ todo, p ∈ l ∧ b.skip_port ≠ some p
  | .replied owner _ _ _ => owner = p
  | .request_post .. | .requested .. => False

instance (peer_ports : Port → List Port) (p : Port) (th : Thread K V) :
    Decidable (th.Reaches peer_ports p) :=
  match th with
  | .broadcast_post _ | .loop .. => inferInstanceAs (Decidable (_ ∧ _))
  | .posted b q todo =>
    inferInstanceAs (Decidable (p = q ∨ ∃ l ∈ todo, p ∈ l ∧ b.skip_port ≠ some p))
  | .replied .. => inferInstanceAs (Decidable (_ = _))
  | .request_post .. | .requested .. => .isFalse id

namespace System

/-! ## The elementary updates -/

section updates

variable (s : System K V) (p q : Port) (srv : Server K V) (th th' : Thread K V) (sync : Sync K V)
  (key : K) (val : V) (stamp : Nat)

@[simp] theorem setServer_writes : (s.setServer p srv).writes = s.writes := rfl
@[simp] theorem setServer_applied : (s.setServer p srv).applied = s.applied := rfl
@[simp] theorem setServer_sync : (s.setServer p srv).sync = s.sync := rfl
@[simp] theorem setServer_self : s.setServer p (s.server p) = s := by
  simp [setServer]
theorem setServer_server :
    (s.setServer p srv).server q = if q = p then srv else s.server q := by
  simp [setServer, Function.update_apply]

@[simp] theorem spawn_threads : (s.spawn th).threads = s.threads ++ [th] := rfl
@[simp] theorem spawn_writes : (s.spawn th).writes = s.writes := rfl
@[simp] theorem spawn_applied : (s.spawn th).applied = s.applied := rfl

@[simp] theorem setSync_writes : (s.setSync p sync).writes = s.writes := rfl
@[simp] theorem setSync_applied : (s.setSync p sync).applied = s.applied := rfl

variable [DecidableEq K]

@[simp] theorem record_writes : (s.record p key stamp).writes = s.writes := rfl
@[simp] theorem record_applied : (s.record p key stamp).applied = s.applied ++ [(p, stamp)] := rfl

@[simp] theorem addWrite_writes :
    (s.addWrite p key val).writes = s.writes ++ [⟨key, val, p⟩] := rfl
@[simp] theorem addWrite_applied :
    (s.addWrite p key val).applied = s.applied ++ [(p, s.writes.length)] := rfl

variable [DecidableEq V]

@[simp] theorem stop_threads : (s.stop th).threads = s.threads.erase th := rfl
@[simp] theorem stop_writes : (s.stop th).writes = s.writes := rfl
@[simp] theorem stop_applied : (s.stop th).applied = s.applied := rfl

@[simp] theorem move_threads : (s.move th th').threads = s.threads.erase th ++ [th'] := rfl
@[simp] theorem move_writes : (s.move th th').writes = s.writes := rfl
@[simp] theorem move_applied : (s.move th th').applied = s.applied := rfl

end updates

/-! ## Datastores and versions -/

/-- The value of a key in a datastore, and its version. -/
def cell (s : System K V) (p : Port) (k : K) : Option V × Option Nat :=
  ((s.server p).datastore k, s.version p k)

theorem cell_congr {s s' : System K V} (hserver : s'.server = s.server)
    (hversion : s'.version = s.version) (q : Port) (k : K) : s'.cell q k = s.cell q k := by
  rw [cell, hserver, hversion, cell]

/-! ## The other globals -/

/-- The globals of a server but its datastore change at a start and in `check_election` only. -/
structure SameGlobals (srv srv' : Server K V) : Prop where
  leader : srv'.leader = srv.leader
  leader_port : srv'.leader_port = srv.leader_port
  peer_ports : srv'.peer_ports = srv.peer_ports
  zk_path : srv'.zk_path = srv.zk_path

theorem SameGlobals.refl (srv : Server K V) : SameGlobals srv srv := ⟨rfl, rfl, rfl, rfl⟩

theorem SameGlobals.trans {srv srv' srv'' : Server K V} (h : SameGlobals srv srv')
    (h' : SameGlobals srv' srv'') : SameGlobals srv srv'' :=
  ⟨h'.leader.trans h.leader, h'.leader_port.trans h.leader_port,
    h'.peer_ports.trans h.peer_ports, h'.zk_path.trans h.zk_path⟩

theorem sameGlobals_datastore (srv : Server K V) (datastore : K → Option V) :
    SameGlobals srv { srv with datastore } :=
  ⟨rfl, rfl, rfl, rfl⟩

theorem setServer_datastore {s : System K V} {p : Port} {srv : Server K V}
    (h : ∃ datastore, srv = { s.server p with datastore }) (q : Port) :
    ∃ datastore, (s.setServer p srv).server q = { s.server q with datastore } := by
  rw [setServer_server]
  split
  · next hq => subst hq; exact h
  · exact ⟨(s.server q).datastore, rfl⟩

/-! ## The handlers -/

section handlers

variable [DecidableEq K]

/-- A datastore that is given a write. -/
theorem cell_set (s : System K V) (p : Port) (key : K) (val : V) (stamp : Nat) (q : Port) (k : K) :
    ((s.setServer p ((s.server p).set key val)).record p key stamp).cell q k =
      if q = p ∧ k = key then (some val, some (max stamp ((s.version p key).getD 0)))
      else s.cell q k := by
  by_cases hq : q = p
  · subst hq
    by_cases hk : k = key
    · subst hk; simp [cell, setServer, record, Server.set]
    · simp [cell, setServer, record, Server.set, hk]
  · simp [cell, setServer, record, hq]

/-- A handler either leaves the variables and spawns no broadcast, or sets the key of the broadcast
it spawns. -/
theorem leader_set_cases (srv : Server K V) (data : Body K V) :
    (∃ r, srv.leader_set data = (srv, none, r)) ∨
    (∃ key val p r,
      srv.leader_set data = (srv.set key val, some (.broadcast_post key val (some p)), r)) := by
  unfold Server.leader_set
  split
  · exact .inr ⟨_, _, _, _, rfl⟩
  · exact .inl ⟨_, rfl⟩

variable [JsonValue K] [JsonValue V]

theorem post_data_cases (srv : Server K V) (data : Body K V) :
    (∃ r, srv.post_data data = (srv, none, r)) ∨
    (∃ key val r, srv.leader = false ∧
      srv.post_data data = (srv, some (.request_post key val), r)) ∨
    (∃ key val r, srv.leader = true ∧
      srv.post_data data = (srv.set key val, some (.broadcast_post key val none), r)) := by
  unfold Server.post_data
  split
  · next key val _ _ =>
    split
    · exact .inl ⟨_, rfl⟩
    split
    · next h => exact .inr (.inr ⟨key, val, _, h, rfl⟩)
    · next h => exact .inr (.inl ⟨key, val, _, by simpa using h, rfl⟩)
  · exact .inl ⟨_, rfl⟩

end handlers

variable [DecidableEq K] [DecidableEq V] [JsonValue K] [JsonValue V]

/-! ## What a step does to the datastores -/

/-- The server whose datastore a step changes, with the key, the value and the stamp. -/
def effect (s : System K V) : Event K V → Option (Port × K × V × Nat)
  | .post_data p data =>
    match ((s.server p).post_data data).2.1 with
    | some (.broadcast_post key val _) => some (p, key, val, s.writes.length)
    | _ => none
  | .leader_set p data =>
    match ((s.server p).leader_set data).2.1 with
    | some (.broadcast_post key val _) => some (p, key, val, s.writes.length)
    | _ => none
  | .follower_set b p _ _ => some (p, b.key, b.val, b.stamp)
  | .request_refused owner key val => some (owner, key, val, s.writes.length)
  | .serve _ key val ldr _ _ => some (ldr, key, val, s.writes.length)
  | .reply owner key val stamp => some (owner, key, val, stamp)
  | _ => none

/-- The write a step adds to the history. -/
def accepted (s : System K V) : Event K V → Option (Write K V)
  | .post_data p data =>
    match ((s.server p).post_data data).2.1 with
    | some (.broadcast_post key val _) => some ⟨key, val, p⟩
    | _ => none
  | .leader_set p data =>
    match ((s.server p).leader_set data).2.1 with
    | some (.broadcast_post key val _) => some ⟨key, val, p⟩
    | _ => none
  | .request_refused owner key val => some ⟨key, val, owner⟩
  | .serve _ key val ldr _ _ => some ⟨key, val, ldr⟩
  | _ => none

variable {s : System K V} {e : Event K V}

theorem next_post_data (s : System K V) (p : Port) (data : Body K V) :
    s.next (.post_data p data) =
      s.handled p ((s.server p).post_data data).1 ((s.server p).post_data data).2.1 := rfl

theorem next_leader_set (s : System K V) (p : Port) (data : Body K V) :
    s.next (.leader_set p data) =
      s.handled p ((s.server p).leader_set data).1 ((s.server p).leader_set data).2.1 := rfl

attribute [local simp] next

/-- What a step does to a key of a datastore and its version. -/
theorem cell_next (s : System K V) (e : Event K V) (q : Port) (k : K) :
    (s.next e).cell q k = s.cell q k ∨
    (∃ val stamp, s.effect e = some (q, k, val, stamp) ∧
      (s.next e).cell q k = (some val, some (max stamp ((s.version q k).getD 0)))) ∨
    (e = .start q ∧ (s.next e).cell q k = (none, none)) ∨
    (∃ ldr datastore version, e = .sync_done q ∧ s.sync q = .answered ldr datastore version ∧
      (s.next e).cell q k = (datastore k, version k)) := by
  have hset : ∀ {s' : System K V} {p : Port} {key : K} {val : V} {stamp : Nat},
      s.effect e = some (p, key, val, stamp) →
      s'.cell q k = ((s.setServer p ((s.server p).set key val)).record p key stamp).cell q k →
      s'.cell q k = s.cell q k ∨
      ∃ val stamp, s.effect e = some (q, k, val, stamp) ∧
        s'.cell q k = (some val, some (max stamp ((s.version q k).getD 0))) := by
    intro s' p key val stamp heffect hs'
    rw [cell_set] at hs'
    split at hs'
    · next h =>
      obtain ⟨rfl, rfl⟩ := h
      exact .inr ⟨val, stamp, heffect, hs'⟩
    · exact .inl hs'
  have hhandled : ∀ {p : Port} {srv : Server K V} {th : Option (Spawn K V)},
      (srv = s.server p ∧ (th = none ∨ ∃ key val, th = some (.request_post key val)) ∨
        ∃ key val skip, srv = (s.server p).set key val ∧
          th = some (.broadcast_post key val skip) ∧
          s.effect e = some (p, key, val, s.writes.length)) →
      (s.handled p srv th).cell q k = s.cell q k ∨
      ∃ val stamp, s.effect e = some (q, k, val, stamp) ∧ (s.handled p srv th).cell q k =
        (some val, some (max stamp ((s.version q k).getD 0))) := by
    rintro p srv th (⟨rfl, rfl | ⟨key, val, rfl⟩⟩ | ⟨key, val, skip, rfl, rfl, heffect⟩)
    · exact .inl (by rw [handled, setServer_self])
    · exact .inl (by rw [handled, setServer_self]; exact cell_congr rfl rfl q k)
    · exact hset heffect (cell_congr rfl rfl q k)
  have hsame : ∀ {s' : System K V}, s'.server = s.server → s'.version = s.version →
      s'.cell q k = s.cell q k := fun h₁ h₂ => cell_congr h₁ h₂ q k
  cases e with
  | post_data p data =>
    rw [next_post_data]
    refine (hhandled ?_).imp_right .inl
    obtain ⟨r, h⟩ | ⟨key, val, r, -, h⟩ | ⟨key, val, r, -, h⟩ := post_data_cases (s.server p) data
    · exact .inl ⟨by rw [h], .inl (by rw [h])⟩
    · exact .inl ⟨by rw [h], .inr ⟨key, val, by rw [h]⟩⟩
    · exact .inr ⟨key, val, none, by rw [h], by rw [h], by simp [effect, h]⟩
  | leader_set p data =>
    rw [next_leader_set]
    refine (hhandled ?_).imp_right .inl
    obtain ⟨r, h⟩ | ⟨key, val, skip, r, h⟩ := leader_set_cases (s.server p) data
    · exact .inl ⟨by rw [h], .inl (by rw [h])⟩
    · exact .inr ⟨key, val, skip, by rw [h], by rw [h], by simp [effect, h]⟩
  | follower_set b p todo answered =>
    refine (hset rfl ?_).imp_right .inl
    simp only [next]
    split <;> exact cell_congr rfl rfl q k
  | request_refused owner key val => exact (hset rfl (cell_congr rfl rfl q k)).imp_right .inl
  | serve owner key val ldr waiting answered =>
    refine (hset rfl ?_).imp_right .inl
    simp only [next]
    split <;> exact cell_congr rfl rfl q k
  | reply owner key val stamp => exact (hset rfl (cell_congr rfl rfl q k)).imp_right .inl
  | start p =>
    by_cases hq : q = p
    · subst hq
      exact .inr (.inr (.inl ⟨rfl, by simp [next, cell, setServer, Server.start]⟩))
    · exact .inl (by simp [next, cell, setServer, hq])
  | check_election p children =>
    left
    by_cases hq : q = p
    · subst hq; simp [next, cell, setServer, setSync]
    · simp [next, cell, setServer, setSync, hq]
  | leader_sync p =>
    left
    simp only [next]
    split
    · split <;> exact hsame rfl rfl
    · rfl
  | sync_done p =>
    cases hsync : s.sync p with
    | answered ldr datastore version =>
      by_cases hq : q = p
      · subst hq
        exact .inr (.inr (.inr ⟨ldr, datastore, version, rfl, hsync,
          by simp [next, hsync, cell, setServer, setSync]⟩))
      · exact .inl (by simp [next, hsync, cell, setServer, setSync, hq])
    | idle => exact .inl (by simp [next, hsync])
    | asked => exact .inl (by simp [next, hsync])
  | _ => exact .inl (hsame rfl rfl)

/-- What a step gives a datastore is there after it. -/
theorem cell_of_effect {p : Port} {k : K} {v : V} {i : Nat}
    (h : s.effect e = some (p, k, v, i)) :
    (s.next e).cell p k = (some v, some (max i ((s.version p k).getD 0))) := by
  have hset : ∀ {s' : System K V},
      s'.cell p k = ((s.setServer p ((s.server p).set k v)).record p k i).cell p k →
      s'.cell p k = (some v, some (max i ((s.version p k).getD 0))) := by
    intro s' hs'
    rw [hs', cell_set, if_pos ⟨rfl, rfl⟩]
  cases e with
  | post_data q data =>
    rw [next_post_data]
    obtain ⟨r, h'⟩ | ⟨key, val, r, -, h'⟩ | ⟨key, val, r, -, h'⟩ :=
      post_data_cases (s.server q) data
    all_goals
      rw [effect, h'] at h
      cases h
    rw [h']
    exact hset (cell_congr rfl rfl _ _)
  | leader_set q data =>
    rw [next_leader_set]
    obtain ⟨r, h'⟩ | ⟨key, val, skip, r, h'⟩ := leader_set_cases (s.server q) data
    all_goals
      rw [effect, h'] at h
      cases h
    rw [h']
    exact hset (cell_congr rfl rfl _ _)
  | follower_set b q todo answered =>
    cases h
    apply hset
    simp only [next]
    split <;> exact cell_congr rfl rfl _ _
  | serve owner key val ldr waiting answered =>
    cases h
    apply hset
    simp only [next]
    split <;> exact cell_congr rfl rfl _ _
  | request_refused owner key val => cases h; exact hset (cell_congr rfl rfl _ _)
  | reply owner key val stamp => cases h; exact hset (cell_congr rfl rfl _ _)
  | _ => cases h

/-! ## The history -/

theorem writes_next (s : System K V) (e : Event K V) :
    (s.next e).writes = s.writes ++ (s.accepted e).toList := by
  cases e with
  | post_data p data =>
    rw [next_post_data, accepted]
    obtain ⟨r, h⟩ | ⟨key, val, r, -, h⟩ | ⟨key, val, r, -, h⟩ := post_data_cases (s.server p) data
    all_goals rw [h]; simp [handled]
  | leader_set p data =>
    rw [next_leader_set, accepted]
    obtain ⟨r, h⟩ | ⟨key, val, skip, r, h⟩ := leader_set_cases (s.server p) data
    all_goals rw [h]; simp [handled]
  | follower_set b p todo answered => simp only [next]; split <;> simp [accepted]
  | serve owner key val ldr waiting answered =>
    simp only [next]
    split <;> simp [accepted, handled, Server.leader_set]
  | leader_sync p =>
    simp only [next]
    split
    · split <;> simp [accepted]
    · simp [accepted]
  | sync_done p => simp only [next]; split <;> simp [accepted]
  | _ => simp [next, accepted]

/-- A write of the history that was not there is the one the step has accepted. -/
theorem accepted_of_writes_next {i : Nat} {w : Write K V} (h : (s.next e).writes[i]? = some w)
    (hi : s.writes.length ≤ i) : s.accepted e = some w ∧ i = s.writes.length := by
  rw [writes_next, List.getElem?_append_right hi] at h
  cases hacc : s.accepted e with
  | none => simp [hacc] at h
  | some w' =>
    rw [hacc, Option.toList_some] at h
    obtain ⟨hlt, hw⟩ := List.getElem?_eq_some_iff.mp h
    rw [List.length_singleton] at hlt
    refine ⟨?_, by omega⟩
    simp only [List.getElem_singleton] at hw
    rw [hw]

theorem applied_next (s : System K V) (e : Event K V) :
    (s.next e).applied = s.applied ++ ((s.effect e).map fun u => (u.1, u.2.2.2)).toList := by
  cases e with
  | post_data p data =>
    rw [next_post_data, effect]
    obtain ⟨r, h⟩ | ⟨key, val, r, -, h⟩ | ⟨key, val, r, -, h⟩ := post_data_cases (s.server p) data
    all_goals rw [h]; simp [handled]
  | leader_set p data =>
    rw [next_leader_set, effect]
    obtain ⟨r, h⟩ | ⟨key, val, skip, r, h⟩ := leader_set_cases (s.server p) data
    all_goals rw [h]; simp [handled]
  | follower_set b p todo answered => simp only [next]; split <;> simp [effect]
  | serve owner key val ldr waiting answered =>
    simp only [next]
    split <;> simp [effect, handled, Server.leader_set]
  | leader_sync p =>
    simp only [next]
    split
    · split <;> simp [effect]
    · simp [effect]
  | sync_done p => simp only [next]; split <;> simp [effect]
  | _ => simp [next, effect]

/-! ## The updates under way -/

omit [DecidableEq V] in
/-- What a step puts into a datastore is a copy posted to its server, an answer to it, or a write
the step accepts. -/
theorem effect_source (he : s.enabled e) {p : Port} {k : K} {v : V} {i : Nat}
    (heffect : s.effect e = some (p, k, v, i)) :
    (∃ b todo, .posted b p todo ∈ s.threads ∧ b.key = k ∧ b.val = v ∧ b.stamp = i) ∨
      .replied p k v i ∈ s.threads ∨
      s.accepted e = some ⟨k, v, p⟩ ∧ i = s.writes.length := by
  cases e with
  | post_data p' data =>
    right; right
    simp only [effect] at heffect
    split at heffect
    · next h => cases heffect; exact ⟨by simp [accepted, h], rfl⟩
    · cases heffect
  | leader_set p' data =>
    right; right
    simp only [effect] at heffect
    split at heffect
    · next h => cases heffect; exact ⟨by simp [accepted, h], rfl⟩
    · cases heffect
  | follower_set b p' todo answered => cases heffect; exact .inl ⟨b, todo, he.1, rfl, rfl, rfl⟩
  | request_refused owner key val => cases heffect; exact .inr (.inr ⟨rfl, rfl⟩)
  | serve owner key val ldr waiting answered => cases heffect; exact .inr (.inr ⟨rfl, rfl⟩)
  | reply owner key val stamp => cases heffect; exact .inr (.inl he.1)
  | _ => cases heffect

/-! ## Threads -/

/-- How a thread goes on, and what is left of a request when its sender crashes. -/
inductive Succeeds (s : System K V) (e : Event K V) : Thread K V → Thread K V → Prop
  | loop (b : Broadcast K V) :
    Succeeds s e (.broadcast_post b) (.loop b (s.server b.owner).peer_ports)
  | rest (b : Broadcast K V) (p : Port) (todo : List Port) :
    Succeeds s e (.loop b (p :: todo)) (.loop b todo)
  | post (b : Broadcast K V) (p : Port) (todo : List Port) (hskip : some p ≠ b.skip_port) :
    Succeeds s e (.loop b (p :: todo)) (.posted b p (some todo))
  | answered (b : Broadcast K V) (p : Port) (todo : List Port) :
    Succeeds s e (.posted b p (some todo)) (.loop b todo)
  | orphaned (b : Broadcast K V) (p : Port) (todo : Option (List Port)) (he : e = .crash b.owner) :
    Succeeds s e (.posted b p todo) (.posted b p none)
  | request (owner : Port) (key : K) (val : V) (ldr : Port)
      (hldr : (s.server owner).leader_port = some ldr) (hlive : s.live ldr) :
    Succeeds s e (.request_post owner key val) (.requested owner key val ldr true)
  | unheard (owner : Port) (key : K) (val : V) (ldr : Port) (waiting : Bool)
      (he : e = .crash owner) :
    Succeeds s e (.requested owner key val ldr waiting) (.requested owner key val ldr false)

/-- The threads a step starts: the `request_post` of a server that does not lead, the broadcast of
the write it accepts, and the answer to the request it serves. -/
inductive Starts (s : System K V) (e : Event K V) : Thread K V → Prop
  | request_post (p : Port) (key : K) (val : V) (hlive : s.live p)
      (hleader : (s.server p).leader = false) : Starts s e (.request_post p key val)
  | broadcast_post (w : Write K V) (skip_port : Option Port) (hacc : s.accepted e = some w)
      (hby : ∀ owner key val, e ≠ .request_refused owner key val) :
    Starts s e (.broadcast_post ⟨w.port, w.key, w.val, skip_port, s.writes.length⟩)
  | replied (w : Write K V) (owner : Port) (hacc : s.accepted e = some w)
      (hreq : .requested owner w.key w.val w.port true ∈ s.threads) :
    Starts s e (.replied owner w.key w.val s.writes.length)

omit [DecidableEq K] [DecidableEq V] [JsonValue K] [JsonValue V] in
theorem succeeds_of_afterCrash {p : Port} {old th : Thread K V} (h : old.afterCrash p = some th) :
    th = old ∨ Succeeds s (.crash p) old th := by
  cases old with
  | posted b q todo =>
    simp only [Thread.afterCrash] at h
    split at h
    · cases h
    by_cases hb : b.owner = p
    · rw [if_pos hb] at h
      cases h
      exact .inr (.orphaned b q todo (by rw [hb]))
    · rw [if_neg hb] at h
      cases h
      exact .inl rfl
  | requested owner key val ldr waiting =>
    simp only [Thread.afterCrash] at h
    split at h
    · cases h
    by_cases howner : owner = p
    · subst howner
      rw [bne_self_eq_false, Bool.and_false] at h
      cases h
      exact .inr (.unheard owner key val ldr waiting rfl)
    · rw [bne_iff_ne.mpr howner, Bool.and_true] at h
      cases h
      exact .inl rfl
  | _ =>
    simp only [Thread.afterCrash] at h
    split at h <;> cases h
    exact .inl rfl

/-- Where the threads after a step come from. -/
theorem threads_next (he : s.enabled e) {th : Thread K V} (hth : th ∈ (s.next e).threads) :
    th ∈ s.threads ∨ (∃ old ∈ s.threads, Succeeds s e old th) ∨ Starts s e th := by
  have hmove : ∀ {s' : System K V} {old new : Thread K V}, s'.threads = s.threads →
      old ∈ s.threads → Succeeds s e old new → th ∈ (s'.move old new).threads →
      th ∈ s.threads ∨ (∃ old ∈ s.threads, Succeeds s e old th) ∨ Starts s e th := by
    intro s' old new hs hold hnew hth
    rw [move_threads, hs] at hth
    rcases List.mem_append.mp hth with hth | hth
    · exact .inl (List.mem_of_mem_erase hth)
    · obtain rfl := List.mem_singleton.mp hth
      exact .inr (.inl ⟨old, hold, hnew⟩)
  have hspawn : ∀ {s' : System K V} {new : Thread K V}, s'.threads = s.threads →
      Starts s e new → th ∈ (s'.spawn new).threads → th ∈ s.threads ∨ Starts s e th := by
    intro s' new hs hnew hth
    rw [spawn_threads, hs] at hth
    rcases List.mem_append.mp hth with hth | hth
    · exact .inl hth
    · exact .inr (List.mem_singleton.mp hth ▸ hnew)
  have hstop : ∀ {s' : System K V} {old : Thread K V}, s'.threads = s.threads →
      th ∈ (s'.stop old).threads → th ∈ s.threads := by
    intro s' old hs hth
    rw [stop_threads, hs] at hth
    exact List.mem_of_mem_erase hth
  cases e with
  | post_data p data =>
    rw [next_post_data] at hth
    obtain ⟨r, h⟩ | ⟨key, val, r, hleader, h⟩ | ⟨key, val, r, -, h⟩ :=
      post_data_cases (s.server p) data
    all_goals rw [h] at hth
    · exact .inl hth
    · exact (hspawn rfl (.request_post p key val he hleader) hth).imp_right .inr
    · refine (hspawn rfl (.broadcast_post ⟨key, val, p⟩ none (by simp [accepted, h]) ?_)
        hth).imp_right .inr
      rintro _ _ _ ⟨⟩
  | leader_set p data =>
    rw [next_leader_set] at hth
    obtain ⟨r, h⟩ | ⟨key, val, skip, r, h⟩ := leader_set_cases (s.server p) data
    all_goals rw [h] at hth
    · exact .inl hth
    · refine (hspawn rfl (.broadcast_post ⟨key, val, p⟩ (some skip) (by simp [accepted, h]) ?_)
        hth).imp_right .inr
      rintro _ _ _ ⟨⟩
  | loop b => exact hmove rfl he.1 (.loop b) hth
  | skip b p todo => exact hmove rfl he.1 (.rest b p todo) hth
  | refused b p todo => exact hmove rfl he.1 (.rest b p todo) hth
  | post b p todo => exact hmove rfl he.1 (.post b p todo he.2.2.1) hth
  | follower_set b p todo answered =>
    simp only [next] at hth
    split at hth
    · exact hmove rfl he.1 (.answered b p _) hth
    · exact .inl (hstop rfl hth)
  | request owner key val ldr =>
    exact hmove rfl he.1 (.request owner key val ldr he.2.2.1 he.2.2.2) hth
  | serve owner key val ldr waiting answered =>
    have hhandled : ∀ th', th' ∈ (s.handled ldr ((s.server ldr).set key val)
        (some (.broadcast_post key val (some owner)))).threads → th' ∈ s.threads ∨
        Starts s (.serve owner key val ldr waiting answered) th' := by
      intro th' hth'
      rcases List.mem_append.mp hth' with hth' | hth'
      · exact .inl hth'
      · obtain rfl := List.mem_singleton.mp hth'
        exact .inr (.broadcast_post ⟨key, val, ldr⟩ (some owner) rfl (by rintro _ _ _ ⟨⟩))
    simp only [next, Server.leader_set] at hth
    split at hth
    · next hw =>
      rcases List.mem_append.mp hth with hth | hth
      · exact (hhandled th (List.mem_of_mem_erase hth)).imp_right .inr
      · have hreq := he.1
        rw [(Bool.and_eq_true_iff.mp hw).1] at hreq
        exact .inr (.inr (List.mem_singleton.mp hth ▸ .replied ⟨key, val, ldr⟩ owner rfl hreq))
    · exact (hhandled th (List.mem_of_mem_erase hth)).imp_right .inr
  | crash p =>
    obtain ⟨old, hold, h⟩ := List.mem_filterMap.mp hth
    rcases succeeds_of_afterCrash h with rfl | hsucc
    · exact .inl hold
    · exact .inr (.inl ⟨old, hold, hsucc⟩)
  | leader_sync p =>
    left
    simp only [next] at hth
    split at hth
    · split at hth <;> exact hth
    · exact hth
  | sync_done p =>
    left
    simp only [next] at hth
    split at hth <;> exact hth
  | lost | finish | request_raised | request_refused | request_lost | reply =>
    exact .inl (hstop rfl hth)
  | _ => exact .inl hth

/-- An update under way after a step was under way before it, or is that of a write the step
accepts. -/
theorem update_next (he : s.enabled e) {th : Thread K V} (hth : th ∈ (s.next e).threads)
    {u : K × V × Nat} (hu : th.update = some u) :
    (∃ th' ∈ s.threads, th'.update = some u) ∨
      ∃ w, s.accepted e = some w ∧ u = (w.key, w.val, s.writes.length) := by
  rcases threads_next he hth with hold | ⟨old, hold, hsucc⟩ | hstart
  · exact .inl ⟨th, hold, hu⟩
  · refine .inl ⟨old, hold, ?_⟩
    cases hsucc <;> exact hu
  · cases hstart with
    | request_post => cases hu
    | broadcast_post w skip_port hacc => exact .inr ⟨w, hacc, (Option.some.inj hu).symm⟩
    | replied w owner hacc => exact .inr ⟨w, hacc, (Option.some.inj hu).symm⟩

/-! ## Snapshots -/

/-- What a step does to the `sync_with_leader` of a server. -/
theorem sync_cases (s : System K V) (e : Event K V) (p : Port) :
    (s.next e).sync p = s.sync p ∨ (s.next e).sync p = .idle ∨
    (∃ children ldr, e = .check_election p children ∧
      ((s.server p).check_election children).2 = some ldr ∧ (s.next e).sync p = .asked ldr) ∨
    (∃ ldr, e = .leader_sync p ∧ s.sync p = .asked ldr ∧ (s.server ldr).leader ∧
      (s.next e).sync p = .answered ldr (s.server ldr).datastore (s.version ldr)) := by
  cases e with
  | post_data p' data =>
    rw [next_post_data]
    obtain ⟨r, h⟩ | ⟨key, val, r, -, h⟩ | ⟨key, val, r, -, h⟩ := post_data_cases (s.server p') data
    all_goals rw [h]; exact .inl rfl
  | leader_set p' data =>
    rw [next_leader_set]
    obtain ⟨r, h⟩ | ⟨key, val, skip, r, h⟩ := leader_set_cases (s.server p') data
    all_goals rw [h]; exact .inl rfl
  | follower_set b q todo answered => left; simp only [next]; split <;> rfl
  | serve owner key val ldr waiting answered => left; simp only [next]; split <;> rfl
  | crash q =>
    simp only [next, Function.update_apply]
    split
    · exact .inr (.inl rfl)
    · cases s.sync p with
      | asked ldr =>
        simp only [Sync.afterCrash]
        split
        · exact .inr (.inl rfl)
        · exact .inl rfl
      | idle | answered => exact .inl rfl
  | check_election q children =>
    by_cases hq : p = q
    · subst hq
      simp only [next, setSync, Function.update_self]
      cases hldr : ((s.server p).check_election children).2 with
      | none => exact .inr (.inl rfl)
      | some ldr => exact .inr (.inr (.inl ⟨children, ldr, rfl, hldr, rfl⟩))
    · exact .inl (by simp [next, setSync, hq])
  | leader_sync q =>
    by_cases hq : p = q
    · subst hq
      cases hsync : s.sync p with
      | asked ldr =>
        unfold next Server.leader_sync
        by_cases hleader : (s.server ldr).leader
        · exact .inr (.inr (.inr ⟨ldr, rfl, rfl, hleader, by simp [hsync, hleader, setSync]⟩))
        · exact .inr (.inl (by simp [hsync, hleader, setSync]))
      | idle | answered => exact .inl (by simp [next, hsync])
    · left
      simp only [next]
      split
      · split <;> simp [setSync, hq]
      · rfl
  | sync_done q =>
    by_cases hq : p = q
    · subst hq
      cases hsync : s.sync p with
      | answered => exact .inr (.inl (by simp [next, hsync, setSync]))
      | idle | asked => exact .inl (by simp [next, hsync])
    · left; simp only [next]; split <;> simp [setSync, hq]
  | sync_lost q =>
    by_cases hq : p = q
    · subst hq
      exact .inr (.inl (by simp [next, setSync]))
    · exact .inl (by simp [next, setSync, hq])
  | _ => exact .inl rfl

/-- A snapshot under way was so before the step, or is what the leader asked holds. -/
theorem sync_next {p ldr : Port} {datastore : K → Option V} {version : K → Option Nat}
    (h : (s.next e).sync p = .answered ldr datastore version) :
    s.sync p = .answered ldr datastore version ∨
    e = .leader_sync p ∧ s.sync p = .asked ldr ∧ (s.server ldr).leader ∧
      datastore = (s.server ldr).datastore ∧ version = s.version ldr := by
  rcases sync_cases s e p with h' | h' | ⟨_, _, -, -, h'⟩ | ⟨ldr', rfl, hsync, hleader, h'⟩
  all_goals rw [h'] at h
  · exact .inl h
  · cases h
  · cases h
  · cases h
    exact .inr ⟨rfl, hsync, hleader, rfl, rfl⟩

/-- A server that asks a leader for its data did so before the step, or has just elected it. -/
theorem asked_next {p ldr : Port} (h : (s.next e).sync p = .asked ldr) :
    s.sync p = .asked ldr ∨
    ∃ children, e = .check_election p children ∧
      ((s.server p).check_election children).2 = some ldr := by
  rcases sync_cases s e p with h' | h' | ⟨children, ldr', rfl, hldr, h'⟩ | ⟨_, -, -, -, h'⟩
  all_goals rw [h'] at h
  · exact .inl h
  · cases h
  · cases h
    exact .inr ⟨children, rfl, hldr⟩
  · cases h

theorem synced_next {p ldr : Port} (h : (s.next e).synced p = some ldr) :
    s.synced p = some ldr ∨
    ∃ datastore version, e = .sync_done p ∧ s.sync p = .answered ldr datastore version := by
  cases e with
  | post_data p' data =>
    rw [next_post_data] at h
    obtain ⟨r, h'⟩ | ⟨key, val, r, -, h'⟩ | ⟨key, val, r, -, h'⟩ :=
      post_data_cases (s.server p') data
    all_goals rw [h'] at h; exact .inl h
  | leader_set p' data =>
    rw [next_leader_set] at h
    obtain ⟨r, h'⟩ | ⟨key, val, skip, r, h'⟩ := leader_set_cases (s.server p') data
    all_goals rw [h'] at h; exact .inl h
  | follower_set b q todo answered => simp only [next] at h; split at h <;> exact .inl h
  | serve owner key val ldr' waiting answered =>
    simp only [next, Server.leader_set, handled] at h
    split at h <;> exact .inl h
  | start q =>
    simp only [next, Function.update_apply] at h
    split at h
    · cases h
    · exact .inl h
  | leader_sync q =>
    left
    simp only [next] at h
    split at h
    · split at h <;> exact h
    · exact h
  | sync_done q =>
    cases hsync : s.sync q with
    | answered ldr' datastore version =>
      simp only [next, hsync, Function.update_apply] at h
      split at h
      · next hq =>
        subst hq
        cases h
        exact .inr ⟨datastore, version, rfl, hsync⟩
      · exact .inl h
    | idle | asked => simp only [next, hsync] at h; exact .inl h
  | _ => exact .inl h

/-- What a server holds once it has installed a snapshot. -/
theorem sync_done_of_answered {p ldr : Port} {datastore : K → Option V} {version : K → Option Nat}
    (h : s.sync p = .answered ldr datastore version) :
    (∀ k, (s.next (.sync_done p)).cell p k = (datastore k, version k)) ∧
      (s.next (.sync_done p)).synced p = some ldr := by
  simp [next, h, cell, setServer, setSync]

/-- The history of the last crash changes at a crash only. -/
theorem applied_before_next (s : System K V) (e : Event K V) :
    (s.next e).applied_before = s.applied_before ∨
    ∃ p, e = .crash p ∧ (s.next e).applied_before = s.applied := by
  cases e with
  | post_data p data =>
    rw [next_post_data]
    obtain ⟨r, h⟩ | ⟨key, val, r, -, h⟩ | ⟨key, val, r, -, h⟩ := post_data_cases (s.server p) data
    all_goals rw [h]; exact .inl rfl
  | leader_set p data =>
    rw [next_leader_set]
    obtain ⟨r, h⟩ | ⟨key, val, skip, r, h⟩ := leader_set_cases (s.server p) data
    all_goals rw [h]; exact .inl rfl
  | follower_set b q todo answered => left; simp only [next]; split <;> rfl
  | serve owner key val ldr waiting answered => left; simp only [next]; split <;> rfl
  | crash p => exact .inr ⟨p, rfl, rfl⟩
  | leader_sync q =>
    left
    simp only [next]
    split
    · split <;> rfl
    · rfl
  | sync_done q => left; simp only [next]; split <;> rfl
  | _ => exact .inl rfl

/-! ## What stays -/

/-- Every other step changes at most the datastore of a server. -/
theorem server_eq_next (s : System K V) (e : Event K V) (q : Port) :
    (∃ datastore, (s.next e).server q = { s.server q with datastore }) ∨ e = .start q ∨
      ∃ children, e = .check_election q children := by
  have hsame : ∀ srv : Server K V, ∃ datastore, srv = { srv with datastore } :=
    fun srv => ⟨srv.datastore, rfl⟩
  have hset : ∀ (srv : Server K V) (key : K) (val : V),
      ∃ datastore, srv.set key val = { srv with datastore } := fun srv key val => ⟨_, rfl⟩
  cases e with
  | post_data p data =>
    left
    rw [next_post_data]
    obtain ⟨r, h⟩ | ⟨key, val, r, -, h⟩ | ⟨key, val, r, -, h⟩ := post_data_cases (s.server p) data
    all_goals rw [h]
    · exact setServer_datastore (hsame _) q
    · exact setServer_datastore (hsame _) q
    · exact setServer_datastore (hset _ _ _) q
  | leader_set p data =>
    left
    rw [next_leader_set]
    obtain ⟨r, h⟩ | ⟨key, val, skip, r, h⟩ := leader_set_cases (s.server p) data
    all_goals rw [h]
    · exact setServer_datastore (hsame _) q
    · exact setServer_datastore (hset _ _ _) q
  | follower_set b p todo answered =>
    left
    simp only [next]
    split <;> exact setServer_datastore (hset _ _ _) q
  | request_refused owner key val => exact .inl (setServer_datastore (hset _ _ _) q)
  | serve owner key val ldr waiting answered =>
    left
    simp only [next]
    split <;> exact setServer_datastore (hset _ _ _) q
  | reply owner key val stamp => exact .inl (setServer_datastore (hset _ _ _) q)
  | start p =>
    by_cases hq : q = p
    · exact .inr (.inl (by rw [hq]))
    · left; simpa [next, setServer, hq] using hsame _
  | check_election p children =>
    by_cases hq : q = p
    · exact .inr (.inr ⟨children, by rw [hq]⟩)
    · left; simpa [next, setServer, setSync, hq] using hsame _
  | leader_sync p =>
    left
    simp only [next]
    split
    · split <;> exact hsame _
    · exact hsame _
  | sync_done p =>
    left
    simp only [next]
    split
    · exact setServer_datastore ⟨_, rfl⟩ q
    · exact hsame _
  | _ => exact .inl (hsame _)

theorem server_next (s : System K V) (e : Event K V) (q : Port) :
    SameGlobals (s.server q) ((s.next e).server q) ∨ e = .start q ∨
      ∃ children, e = .check_election q children := by
  obtain ⟨datastore, h⟩ | hother := server_eq_next s e q
  · rw [h]
    exact .inl (sameGlobals_datastore _ _)
  · exact .inr hother

theorem server_check_election (s : System K V) (p : Port) (children : List (Path × Port)) :
    (s.next (.check_election p children)).server p =
      ((s.server p).check_election children).1 := by
  simp [next, setServer, setSync]

theorem live_next (s : System K V) (e : Event K V) (q : Port) :
    (s.next e).live q = s.live q ∨ e = .crash q ∨ e = .start q := by
  cases e with
  | post_data p data =>
    rw [next_post_data]
    obtain ⟨r, h⟩ | ⟨key, val, r, -, h⟩ | ⟨key, val, r, -, h⟩ := post_data_cases (s.server p) data
    all_goals rw [h]; exact .inl rfl
  | leader_set p data =>
    rw [next_leader_set]
    obtain ⟨r, h⟩ | ⟨key, val, skip, r, h⟩ := leader_set_cases (s.server p) data
    all_goals rw [h]; exact .inl rfl
  | follower_set b p todo answered => left; simp only [next]; split <;> rfl
  | serve owner key val ldr waiting answered => left; simp only [next]; split <;> rfl
  | crash p =>
    by_cases hq : q = p
    · exact .inr (.inl (by rw [hq]))
    · left; simp [next, hq]
  | start p =>
    by_cases hq : q = p
    · exact .inr (.inr (by rw [hq]))
    · left; simp [next, hq]
  | leader_sync p =>
    left
    simp only [next]
    split
    · split <;> rfl
    · rfl
  | sync_done p => left; simp only [next]; split <;> rfl
  | _ => exact .inl rfl

end System

end Cs2510.Store
