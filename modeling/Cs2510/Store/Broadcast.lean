import Cs2510.Store.System

/-!
# A broadcast and its failing peers

`broadcast_post` goes through the peers one after the other. A refused connection and a status other
than 200 are passed over, but an exception of `getresponse` ends the thread. `survives_iff` says
that the update is sent to every peer exactly if no exchange with a lost answer has another one
behind it. `broadcast_reaches` ties the function to the threads of `System`.
-/

namespace Cs2510.Store

/-- What becomes of one `POST /data/follower`. -/
inductive Delivery
  /-- the peer answers 200 -/
  | success
  /-- `conn.request` raises -/
  | refused
  /-- the connection is lost before the answer, and `conn.getresponse` raises; the peer may have
  handled the request before -/
  | lost (handled : Bool)
  /-- the peer answers another status -/
  | error
  deriving DecidableEq, Repr

section

variable {K V : Type} [DecidableEq K]

/-- The peer at `p` handles the request. -/
def deliver (key : K) (val : V) (servers : Port → Server K V) (p : Port) : Port → Server K V :=
  Function.update servers p ((servers p).follower_set ⟨some key, some val, none⟩).1

/-- The loop of `broadcast_post` over the peers, with the outcome of each request: the ports that
requests are made to, and the servers it leaves. -/
def broadcast_post (key : K) (val : V) (skip_port : Option Port) :
    List (Port × Delivery) → (Port → Server K V) → List Port × (Port → Server K V)
  | [], servers => ([], servers)
  | (p, delivery) :: peers, servers =>
    if some p = skip_port then broadcast_post key val skip_port peers servers
    else
      match delivery with
      | .refused | .error =>
        let (sent, servers) := broadcast_post key val skip_port peers servers
        (p :: sent, servers)
      | .lost handled => ([p], if handled then deliver key val servers p else servers)
      | .success =>
        let (sent, servers) :=
          broadcast_post key val skip_port peers (deliver key val servers p)
        (p :: sent, servers)

/-- The update is sent to every peer but `skip_port`, and is in place where the exchange itself has
succeeded. -/
structure Survives (key : K) (val : V) (skip_port : Option Port) (peers : List (Port × Delivery))
    (servers : Port → Server K V) : Prop where
  sent : (broadcast_post key val skip_port peers servers).1 =
    (peers.map Prod.fst).filter fun p => some p ≠ skip_port
  applied : ∀ p, (p, .success) ∈ peers → some p ≠ skip_port →
    ((broadcast_post key val skip_port peers servers).2 p).datastore key = some val

/-- An exchange with a lost answer has only skipped peers behind it. -/
def LostLast (skip_port : Option Port) (peers : List (Port × Delivery)) : Prop :=
  ∀ before p handled after, peers = before ++ (p, .lost handled) :: after →
    some p ≠ skip_port → ∀ x ∈ after, some x.1 = skip_port

variable {key : K} {val : V} {skip_port : Option Port} {p : Port} {delivery : Delivery}
  {peers : List (Port × Delivery)} {servers : Port → Server K V}

theorem lostLast_nil : LostLast skip_port [] := by
  intro before p handled after heq
  cases before <;> cases heq

theorem lostLast_cons : LostLast skip_port ((p, delivery) :: peers) ↔
    ((∃ handled, delivery = .lost handled) → some p ≠ skip_port →
      ∀ x ∈ peers, some x.1 = skip_port) ∧ LostLast skip_port peers := by
  constructor
  · intro h
    constructor
    · rintro ⟨handled, rfl⟩ hp
      exact h [] p handled peers rfl hp
    · intro before q handled after heq hq
      exact h ((p, delivery) :: before) q handled after (by rw [heq, List.cons_append]) hq
  · rintro ⟨hhead, htail⟩ before q handled after heq hq
    cases before with
    | nil =>
      cases heq
      exact hhead ⟨handled, rfl⟩ hq
    | cons x before =>
      cases heq
      exact htail before q handled after rfl hq

theorem deliver_datastore (q : Port) (hq : q = p ∨ (servers q).datastore key = some val) :
    (deliver key val servers p q).datastore key = some val := by
  by_cases hqp : q = p
  · subst hqp
    simp [deliver, Server.follower_set, Server.set]
  · rw [deliver, Function.update_of_ne hqp]
    exact hq.resolve_left hqp

/-- What is in place stays so. -/
theorem broadcast_post_keeps (q : Port) (h : (servers q).datastore key = some val) :
    ((broadcast_post key val skip_port peers servers).2 q).datastore key = some val := by
  induction peers generalizing servers with
  | nil => exact h
  | cons x peers ih =>
    obtain ⟨p, delivery⟩ := x
    unfold broadcast_post
    split
    · exact ih h
    · cases delivery with
      | success => exact ih (deliver_datastore q (.inr h))
      | refused | error => exact ih h
      | lost handled =>
        cases handled with
        | true => exact deliver_datastore q (.inr h)
        | false => exact h

/-- All that is left is skipped. -/
theorem lostLast_of_skipped (h : ∀ x ∈ peers, some x.1 = skip_port) : LostLast skip_port peers := by
  rintro before p handled after rfl hp
  exact absurd (h _ (List.mem_append_right _ List.mem_cons_self)) hp

theorem sent_iff : (broadcast_post key val skip_port peers servers).1 =
    ((peers.map Prod.fst).filter fun p => some p ≠ skip_port) ↔ LostLast skip_port peers := by
  induction peers generalizing servers with
  | nil => exact iff_of_true rfl lostLast_nil
  | cons x peers ih =>
    obtain ⟨p, delivery⟩ := x
    rw [lostLast_cons, List.map_cons]
    unfold broadcast_post
    by_cases hskip : some p = skip_port
    · rw [if_pos hskip, List.filter_cons_of_neg (by simp [hskip]), ih]
      exact (and_iff_right fun _ hne => absurd hskip hne).symm
    rw [if_neg hskip, List.filter_cons_of_pos (by simp [hskip])]
    cases delivery with
    | success | refused | error =>
      rw [List.cons_inj_right, ih]
      exact (and_iff_right (by rintro ⟨_, ⟨⟩⟩)).symm
    | lost handled =>
      have hnil : [p] = p :: ((peers.map Prod.fst).filter fun p => some p ≠ skip_port) ↔
          ∀ x ∈ peers, some x.1 = skip_port := by
        rw [List.cons_inj_right, eq_comm, List.filter_eq_nil_iff]
        simp
      rw [hnil]
      exact ⟨fun h => ⟨fun _ _ => h, lostLast_of_skipped h⟩, fun h => h.1 ⟨handled, rfl⟩ hskip⟩

theorem applied_of_lostLast (h : LostLast skip_port peers) {q : Port} (hq : (q, .success) ∈ peers)
    (hne : some q ≠ skip_port) :
    ((broadcast_post key val skip_port peers servers).2 q).datastore key = some val := by
  induction peers generalizing servers with
  | nil => cases hq
  | cons x peers ih =>
    obtain ⟨p, delivery⟩ := x
    obtain ⟨hlast, htail⟩ := lostLast_cons.mp h
    unfold broadcast_post
    split
    · next hskip =>
      obtain heq | hq := List.mem_cons.mp hq
      · cases heq
        exact absurd hskip hne
      · exact ih htail hq
    · next hskip =>
      cases delivery with
      | success =>
        obtain heq | hq := List.mem_cons.mp hq
        · cases heq
          exact broadcast_post_keeps q (deliver_datastore q (.inl rfl))
        · exact ih htail hq
      | refused | error =>
        obtain heq | hq := List.mem_cons.mp hq
        · cases heq
        · exact ih htail hq
      | lost handled =>
        obtain heq | hq := List.mem_cons.mp hq
        · cases heq
        · exact absurd (hlast ⟨handled, rfl⟩ hskip _ hq) hne

/-- **A broadcast survives its failing peers** if and only if an exchange with a lost answer has
only skipped peers behind it. -/
theorem survives_iff (key : K) (val : V) (skip_port : Option Port) (peers : List (Port × Delivery))
    (servers : Port → Server K V) :
    Survives key val skip_port peers servers ↔ LostLast skip_port peers :=
  ⟨fun h => sent_iff.mp h.sent,
    fun h => ⟨sent_iff.mpr h, fun _ hq hne => applied_of_lostLast h hq hne⟩⟩

end

/-! ## The thread -/

namespace System

variable {K V : Type} [DecidableEq K] [DecidableEq V] [JsonValue K] [JsonValue V]

/-- The states that follow `s`. -/
def After (cfg : Config K V) (s : System K V) : System K V → Prop :=
  TransitionSystem.Reachable { store cfg with init := s }

variable {cfg : Config K V} {s s₁ s' : System K V} {e : Event K V} {b : Broadcast K V}

theorem After.refl (cfg : Config K V) (s : System K V) : After cfg s s := .init

theorem After.head (he : s.enabled e) (h : After cfg (s.next e) s') : After cfg s s' := by
  have hstep : After cfg s (s.next e) :=
    TransitionSystem.Reach.step (T := { store cfg with init := s }) .init he trivial
  exact hstep.trans h

omit [JsonValue K] [JsonValue V] in
theorem mem_move (s : System K V) (th th' : Thread K V) : th' ∈ (s.move th th').threads :=
  List.mem_append_right _ List.mem_cons_self

/-- The thread of a broadcast at its loop goes through the peers as the function does: refused
connections are the environment's choice, the others reach servers that are alive. -/
theorem broadcast_reaches {peers : List (Port × Delivery)}
    (hthread : .loop b (peers.map Prod.fst) ∈ s.threads) (howner : s.live b.owner)
    (hlive : ∀ x ∈ peers, x.2 ≠ .refused → s.live x.1) (hstatus : ∀ x ∈ peers, x.2 ≠ .error) :
    ∃ s', After cfg s s' ∧
      s'.server = (broadcast_post b.key b.val b.skip_port peers s.server).2 := by
  induction peers generalizing s with
  | nil => exact ⟨s, .refl cfg s, rfl⟩
  | cons x peers ih =>
    obtain ⟨p, delivery⟩ := x
    obtain ⟨hlivep, hlive⟩ := List.forall_mem_cons.mp hlive
    obtain ⟨hstatusp, hstatus⟩ := List.forall_mem_cons.mp hstatus
    let todo := peers.map Prod.fst
    have hloop : ∀ s₁ : System K V, .loop b todo ∈ s₁.threads → s₁.live = s.live →
        ∃ s', After cfg s₁ s' ∧
          s'.server = (broadcast_post b.key b.val b.skip_port peers s₁.server).2 :=
      fun s₁ hth hl => ih hth (by rw [hl]; exact howner) (by rw [hl]; exact hlive) hstatus
    unfold broadcast_post
    by_cases hskip : some p = b.skip_port
    · rw [if_pos hskip]
      have he : s.enabled (.skip b p todo) := ⟨hthread, howner, hskip⟩
      obtain ⟨s', hs', hserver⟩ := hloop (s.next (.skip b p todo)) (mem_move ..) rfl
      exact ⟨s', hs'.head he, hserver⟩
    rw [if_neg hskip]
    cases delivery with
    | refused =>
      have he : s.enabled (.refused b p todo) := ⟨hthread, howner, hskip⟩
      obtain ⟨s', hs', hserver⟩ := hloop (s.next (.refused b p todo)) (mem_move ..) rfl
      exact ⟨s', hs'.head he, hserver⟩
    | error => exact absurd rfl hstatusp
    | success =>
      have hp : s.live p := hlivep (by simp)
      have hpost : s.enabled (.post b p todo) := ⟨hthread, howner, hskip, hp⟩
      have hset : (s.next (.post b p todo)).enabled (.follower_set b p (some todo) true) :=
        ⟨mem_move .., hp⟩
      obtain ⟨s', hs', hserver⟩ := hloop
        ((s.next (.post b p todo)).next (.follower_set b p (some todo) true)) (mem_move ..) rfl
      exact ⟨s', (hs'.head hset).head hpost, hserver⟩
    | lost handled =>
      have hp : s.live p := hlivep (by simp)
      have hpost : s.enabled (.post b p todo) := ⟨hthread, howner, hskip, hp⟩
      cases handled with
      | true =>
        have hset : (s.next (.post b p todo)).enabled (.follower_set b p (some todo) false) :=
          ⟨mem_move .., hp⟩
        exact ⟨_, ((After.refl cfg _).head hset).head hpost, rfl⟩
      | false =>
        have hlost : (s.next (.post b p todo)).enabled (.lost b p (some todo)) := mem_move ..
        exact ⟨_, ((After.refl cfg _).head hlost).head hpost, rfl⟩

end System

/-- The answer of port 1 is lost, and port 2 is never sent the update. -/
theorem not_survives : ¬ ∀ (key : Nat) (val : Nat) skip_port peers servers,
    Survives key val skip_port peers servers := by
  intro h
  have hsent := (h 7 1 none [(1, .lost true), (2, .success)] .start).sent
  cases hsent

end Cs2510.Store
