import Cs2510.Chat.Authorship

/-!
# The balance of the presence notices

A client is announced once for each of its connections and bids farewell when the listener reads
its `MESG_DCON`. A listener that leaves its loop because a payload failed queues no farewell, so
what is announced is what was taken back, what is present and what has failed
(`presence_of_run`); the notices balance in the runs without a failed payload and in no others
(`balanced_iff`).
-/

namespace Cs2510.Chat

/-- Announced, and not yet at the label `out`. -/
def ListenerPc.present : ListenerPc → Bool
  | .fastForward | .catchUp _ | .register | .receive | .payload _ => true
  | _ => false

/-- The connection a step announces. -/
def Event.announces : Event → List Tid
  | .announce t => [t]
  | _ => []

/-- The payload of a frame could not be received. -/
def Event.failed : Event → Bool
  | .recv_payload _ _ none => true
  | _ => false

/-- The connections whose announcement has been queued. -/
def announced (h : History) : List Tid := h.flatMap fun x => x.2.announces

/-- How many messages of a kind with the id `c` have been queued. -/
def notices (h : History) (kind c : UInt16) : Nat :=
  (enqueued h).countP fun x => x.2.kind = kind ∧ x.2.id = c

namespace Server

/-- Whether `t` is a connection of client `c` that is present. -/
def presentAs (s : Server) (c : UInt16) (t : Tid) : Bool :=
  (s.listener t).client_id = c ∧ (s.listener t).pc.present

/-- How many connections of client `c` have been announced and are present. -/
def presence (h : History) (s : Server) (c : UInt16) : Nat := (announced h).countP (s.presentAs c)

/-- How often the payload of a frame from client `c` has failed. -/
def failures (h : History) (c : UInt16) : Nat :=
  h.countP fun x => x.2.failed ∧ (x.2.listener.map fun t => (x.1.listener t).client_id) = some c

/-- The notices balance, and an announced connection that is gone has queued its farewell. -/
structure Balanced (h : History) (s : Server) : Prop where
  balance : ∀ c, notices h MESG_CONN c = notices h MESG_DCON c + s.presence h c
  once : (announced h).Nodup
  farewell : ∀ t ∈ announced h, (s.listener t).pc.present = false →
    ∃ m, (t, m) ∈ enqueued h ∧ m.kind = MESG_DCON ∧ m.id = (s.listener t).client_id

variable {s : Server} {e : Event} {t : Tid} {h : History} {pc pc' : ListenerPc} {c : UInt16}

/-- A step of a listener announces it, bids farewell, fails, or is no matter of presence. -/
theorem Moves.presence (hm : s.Moves t e pc pc')
    (hkind : ∀ m, pc = .payload m → m.kind ≠ MESG_DCON ∧ m.kind ≠ MESG_CONN) :
    (e = .announce t ∧ pc.unannounced ∧ pc.present = false ∧ pc'.present) ∨
    (∃ m, e = .recv_header t (some m) ∧ m.kind = MESG_DCON ∧ pc.present ∧ pc'.present = false) ∨
    (∃ m, e = .recv_payload t m none ∧ pc.present ∧ pc'.present = false) ∨
    (pc'.present = pc.present ∧ e.announces = [] ∧ e.failed = false ∧
      ∀ x ∈ s.enqueues e, x.2.kind ≠ MESG_CONN ∧ x.2.kind ≠ MESG_DCON) := by
  have hquiet : s.enqueues e = [] →
      ∀ x ∈ s.enqueues e, x.2.kind ≠ MESG_CONN ∧ x.2.kind ≠ MESG_DCON := by
    intro hnil x hx
    rw [hnil] at hx
    cases hx
  cases hm with
  | announce => exact .inl ⟨rfl, rfl, rfl, rfl⟩
  | leave hdcon => exact .inr (.inl ⟨_, rfl, hdcon, rfl, rfl⟩)
  | failed m => exact .inr (.inr (.inl ⟨m, rfl, rfl, rfl⟩))
  | drop hconn =>
    exact .inr (.inr (.inr ⟨rfl, rfl, rfl, hquiet (if_neg (by rw [hconn]; decide))⟩))
  | header hdcon => exact .inr (.inr (.inr ⟨rfl, rfl, rfl, hquiet (if_neg hdcon)⟩))
  | @payload m m' hlength hrecv =>
    refine .inr (.inr (.inr ⟨rfl, rfl, rfl, fun x hx => ?_⟩))
    rw [enqueues, if_neg hlength] at hx
    obtain rfl := List.mem_singleton.mp hx
    obtain ⟨hdcon, hconn⟩ := hkind m rfl
    rw [← hrecv.2.1] at hdcon hconn
    exact ⟨hconn, hdcon⟩
  | empty_payload _ hlength => exact .inr (.inr (.inr ⟨rfl, rfl, rfl, hquiet (if_pos hlength)⟩))
  | _ => exact .inr (.inr (.inr ⟨rfl, rfl, rfl, hquiet rfl⟩))

theorem payload_kind {client_ids : List UInt16} {G : Server → Event → Prop}
    (hr : (server client_ids).Run G h s) (t : Tid) (m : Message)
    (hpc : (s.listener t).pc = .payload m) : m.kind ≠ MESG_DCON ∧ m.kind ≠ MESG_CONN := by
  have hok := streamOk_of_run hr t
  rw [hpc] at hok
  exact hok.2

/-! ## Counting -/

theorem announced_append : announced (h ++ [(s, e)]) = announced h ++ e.announces := by
  simp [announced]

theorem notices_append (kind : UInt16) : notices (h ++ [(s, e)]) kind c =
    notices h kind c + (s.enqueues e).countP fun x => x.2.kind = kind ∧ x.2.id = c := by
  rw [notices, enqueued_append, List.countP_append, notices]

/-- Predicates that differ at one element of a list without duplicates only. -/
theorem countP_except {p q : Tid → Bool} {l : List Tid} (hl : l.Nodup) (ht : t ∈ l)
    (hpq : ∀ x ∈ l, x ≠ t → p x = q x) :
    l.countP p + (if q t then 1 else 0) = l.countP q + if p t then 1 else 0 := by
  have hrest : (l.erase t).countP p = (l.erase t).countP q := by
    refine List.countP_congr fun x hx => ?_
    obtain ⟨hne, hmem⟩ := hl.mem_erase_iff.mp hx
    rw [hpq x hmem hne]
  rw [(List.perm_cons_erase ht).countP_eq p, (List.perm_cons_erase ht).countP_eq q,
    List.countP_cons, List.countP_cons, hrest]
  omega

/-- What a step leaves of the presence of other connections, and of this one if it keeps its
place. -/
theorem presentAs_next (he : s.enabled e) {t' : Tid}
    (hkeep : e.listener = some t' →
      ((s.next e).listener t').pc.present = (s.listener t').pc.present) :
    (s.next e).presentAs c t' = s.presentAs c t' := by
  by_cases ht : e.listener = some t'
  · have hpc := hkeep ht
    rw [presentAs, presentAs, hpc]
    by_cases hpresent : (s.listener t').pc.present
    · rw [(listener_next he t').client_id]
      rintro hpc'
      rw [hpc'] at hpresent
      cases hpresent
    · simp [hpresent]
  · rw [presentAs, presentAs, listener_next_of_ne ht]

/-- The account of a run: announcements are taken back, present or failed. -/
structure Account (h : History) (s : Server) : Prop where
  nodup : (announced h).Nodup
  present : ∀ t, (s.listener t).pc.present → t ∈ announced h
  announced : ∀ t ∈ announced h, (s.listener t).pc.unannounced = false
  law : ∀ c, notices h MESG_CONN c = notices h MESG_DCON c + s.presence h c + failures h c
  farewell : ∀ t ∈ Chat.announced h, (s.listener t).pc.present ∨
    (∃ m, (t, m) ∈ enqueued h ∧ m.kind = MESG_DCON ∧ m.id = (s.listener t).client_id) ∨
    ∃ x ∈ h, x.2.failed

theorem Account.farewell_next (hi : Account h s) (he : s.enabled e) {t' : Tid}
    (ht' : t' ∈ Chat.announced h)
    (hgone : (s.listener t').pc.present → ((s.next e).listener t').pc.present = false →
      (∃ m, (t', m) ∈ s.enqueues e ∧ m.kind = MESG_DCON ∧ m.id = (s.listener t').client_id) ∨
        e.failed) :
    ((s.next e).listener t').pc.present ∨
    (∃ m, (t', m) ∈ enqueued (h ++ [(s, e)]) ∧ m.kind = MESG_DCON ∧
      m.id = ((s.next e).listener t').client_id) ∨
    ∃ x ∈ h ++ [(s, e)], x.2.failed := by
  have hid : ((s.next e).listener t').client_id = (s.listener t').client_id := by
    refine (listener_next he t').client_id fun hpc => ?_
    have := hi.announced t' ht'
    rw [hpc] at this
    cases this
  rw [hid, enqueued_append]
  rcases hi.farewell t' ht' with hpresent | ⟨m, hm, hdcon⟩ | ⟨x, hx, hfailed⟩
  · cases hpresent' : ((s.next e).listener t').pc.present with
    | true => exact .inl rfl
    | false =>
      rcases hgone hpresent hpresent' with ⟨m, hm, hdcon⟩ | hfailed
      · exact .inr (.inl ⟨m, List.mem_append_right _ hm, hdcon⟩)
      · exact .inr (.inr ⟨(s, e), List.mem_append_right _ List.mem_cons_self, hfailed⟩)
  · exact .inr (.inl ⟨m, List.mem_append_left _ hm, hdcon⟩)
  · exact .inr (.inr ⟨x, List.mem_append_left _ hx, hfailed⟩)

theorem unannounced_next (he : s.enabled e) (t' : Tid)
    (h : (s.listener t').pc.unannounced = false) :
    ((s.next e).listener t').pc.unannounced = false := by
  by_cases ht : e.listener = some t'
  · rw [Bool.eq_false_iff] at h ⊢
    exact fun hpc => h ((moves_next he ht).unannounced hpc)
  · rwa [listener_next_of_ne ht]

/-- A step that announces nobody and keeps everybody present. -/
theorem Account.quiet (hi : Account h s) (he : s.enabled e)
    (hkeep : ∀ t', e.listener = some t' →
      ((s.next e).listener t').pc.present = (s.listener t').pc.present)
    (hannounces : e.announces = []) (hfailed : e.failed = false)
    (hkinds : ∀ x ∈ s.enqueues e, x.2.kind ≠ MESG_CONN ∧ x.2.kind ≠ MESG_DCON) :
    Account (h ++ [(s, e)]) (s.next e) := by
  have hpresent : ∀ t', ((s.next e).listener t').pc.present = (s.listener t').pc.present := by
    intro t'
    by_cases ht : e.listener = some t'
    · exact hkeep t' ht
    · rw [listener_next_of_ne ht]
  have hann : Chat.announced (h ++ [(s, e)]) = Chat.announced h := by
    rw [announced_append, hannounces, List.append_nil]
  constructor
  · rw [hann]
    exact hi.nodup
  · intro t' ht'
    rw [hpresent] at ht'
    rw [hann]
    exact hi.present t' ht'
  · rw [hann]
    exact fun t' ht' => unannounced_next he t' (hi.announced t' ht')
  · intro c
    have hnone : ∀ kind, kind = MESG_CONN ∨ kind = MESG_DCON →
        notices (h ++ [(s, e)]) kind c = notices h kind c := by
      intro kind hkind
      rw [notices_append, List.countP_eq_zero.mpr, Nat.add_zero]
      intro x hx
      obtain ⟨hconn, hdcon⟩ := hkinds x hx
      rcases hkind with rfl | rfl <;> simp [hconn, hdcon]
    have hpresence : (s.next e).presence (h ++ [(s, e)]) c = s.presence h c := by
      rw [presence, hann, presence]
      exact List.countP_congr fun t' _ => by rw [presentAs_next he (hkeep t')]
    have hfailures : failures (h ++ [(s, e)]) c = failures h c := by
      simp [failures, List.countP_append, hfailed]
    rw [hnone _ (.inl rfl), hnone _ (.inr rfl), hpresence, hfailures]
    exact hi.law c
  · rw [hann]
    intro t' ht'
    refine hi.farewell_next he ht' fun h₁ h₂ => ?_
    rw [hpresent, h₁] at h₂
    cases h₂

theorem Account.announce (hi : Account h s) (he : s.enabled (.announce t)) :
    Account (h ++ [(s, .announce t)]) (s.next (.announce t)) := by
  have hpc : (s.listener t).pc = .announce := he
  have hnew : t ∉ Chat.announced h := by
    intro ht
    have := hi.announced t ht
    rw [hpc] at this
    cases this
  have hother : ∀ t', t' ≠ t → (s.next (.announce t)).listener t' = s.listener t' :=
    fun t' ht' => listener_next_of_ne fun h => ht' (Option.some.inj h).symm
  have hself : (s.next (.announce t)).listener t = { s.listener t with pc := .fastForward } := by
    rw [next, goto_listener, if_pos rfl]
    rfl
  have hann : Chat.announced (h ++ [(s, .announce t)]) = Chat.announced h ++ [t] :=
    announced_append
  constructor
  · rw [hann, List.nodup_append]
    refine ⟨hi.nodup, by simp, fun a ha b hb hab => hnew ?_⟩
    rwa [← List.mem_singleton.mp hb, ← hab]
  · intro t' ht'
    rw [hann]
    by_cases htt : t' = t
    · rw [htt]
      exact List.mem_append_right _ List.mem_cons_self
    · rw [hother t' htt] at ht'
      exact List.mem_append_left _ (hi.present t' ht')
  · rw [hann]
    intro t' ht'
    rcases List.mem_append.mp ht' with ht' | ht'
    · exact unannounced_next he t' (hi.announced t' ht')
    · rw [List.mem_singleton.mp ht', hself]
      rfl
  · intro c
    have hpresence : (s.next (.announce t)).presence (h ++ [(s, .announce t)]) c =
        s.presence h c + if (s.listener t).client_id = c then 1 else 0 := by
      rw [presence, hann, List.countP_append, presence, List.countP_singleton]
      congr 1
      · refine List.countP_congr fun t' ht' => ?_
        rw [presentAs, presentAs, hother t' (by rintro rfl; exact hnew ht')]
      · simp [presentAs, hself, ListenerPc.present]
    have hfailures : failures (h ++ [(s, .announce t)]) c = failures h c := by
      simp [failures, List.countP_append, Event.failed]
    rw [hpresence, hfailures, notices_append, notices_append, hi.law c]
    simp [enqueues, create_message_header, show MESG_CONN ≠ MESG_DCON by decide,
      List.countP_cons]
    omega
  · rw [hann]
    intro t' ht'
    rcases List.mem_append.mp ht' with hold | hnow
    · refine hi.farewell_next he hold fun h₁ h₂ => ?_
      rw [hother t' (by rintro rfl; exact hnew hold), h₁] at h₂
      cases h₂
    · left
      rw [List.mem_singleton.mp hnow, hself]
      rfl

/-- A listener that is done with its loop: it has queued its farewell, or failed. -/
theorem Account.depart (hi : Account h s) (he : s.enabled e) (ht : e.listener = some t)
    (hpc : (s.listener t).pc.present) (hpc' : ((s.next e).listener t).pc.present = false)
    (hannounces : e.announces = [])
    (hlaw : ∀ c, notices (h ++ [(s, e)]) MESG_CONN c = notices h MESG_CONN c ∧
      notices (h ++ [(s, e)]) MESG_DCON c + failures (h ++ [(s, e)]) c =
        notices h MESG_DCON c + failures h c + if (s.listener t).client_id = c then 1 else 0)
    (hgone : (∃ m, (t, m) ∈ s.enqueues e ∧ m.kind = MESG_DCON ∧
      m.id = (s.listener t).client_id) ∨ e.failed) :
    Account (h ++ [(s, e)]) (s.next e) := by
  have hother : ∀ t', t' ≠ t → (s.next e).listener t' = s.listener t' :=
    fun t' ht' => listener_next_of_ne fun h => ht' (Option.some.inj (h.symm.trans ht))
  have hann : Chat.announced (h ++ [(s, e)]) = Chat.announced h := by
    rw [announced_append, hannounces, List.append_nil]
  constructor
  · rw [hann]
    exact hi.nodup
  · intro t' ht'
    rw [hann]
    refine hi.present t' ?_
    rwa [← hother t' (by rintro rfl; rw [hpc'] at ht'; cases ht')]
  · rw [hann]
    exact fun t' ht' => unannounced_next he t' (hi.announced t' ht')
  · intro c
    have hcount := countP_except (p := (s.next e).presentAs c) (q := s.presentAs c) hi.nodup
      (hi.present t hpc) fun t' _ ht' => by rw [presentAs, presentAs, hother t' ht']
    have hp : (s.next e).presentAs c t = false := by simp [presentAs, hpc']
    have hq : s.presentAs c t = decide ((s.listener t).client_id = c) := by
      simp [presentAs, hpc]
    have hold := hi.law c
    obtain ⟨hconn, hdcon⟩ := hlaw c
    rw [hp, hq] at hcount
    simp only [decide_eq_true_eq, Bool.false_eq_true, if_false, Nat.add_zero] at hcount
    rw [presence] at hold ⊢
    rw [hann, hconn]
    omega
  · rw [hann]
    intro t' ht'
    refine hi.farewell_next he ht' fun h₁ h₂ => ?_
    by_cases htt : t' = t
    · rwa [htt]
    · rw [hother t' htt, h₁] at h₂
      cases h₂

theorem Account.step {client_ids : List UInt16} (hi : Account h s)
    (hr : (server client_ids).Run OwnId h s) (he : s.enabled e) (hown : s.OwnId e) :
    Account (h ++ [(s, e)]) (s.next e) := by
  cases ht : e.listener with
  | none =>
    have hquiet : e.announces = [] ∧ e.failed = false ∧ s.enqueues e = [] := by
      cases e <;> first | exact ⟨rfl, rfl, rfl⟩ | cases ht
    obtain ⟨hannounces, hfailed, hnil⟩ := hquiet
    refine hi.quiet he (fun t' ht' => ?_) hannounces hfailed fun x hx => ?_
    · rw [ht] at ht'
      cases ht'
    · rw [hnil] at hx
      cases hx
  | some t =>
    rcases (moves_next he ht).presence (payload_kind hr t) with ⟨rfl, -⟩ |
      ⟨m, rfl, hdcon, hpc, hpc'⟩ | ⟨m, rfl, hpc, hpc'⟩ | ⟨hpc, hannounces, hfailed, hkinds⟩
    · exact hi.announce he
    · have hid : m.id = (s.listener t).client_id := hown hdcon
      have henq : s.enqueues (.recv_header t (some m)) = [(t, m)] := if_pos hdcon
      refine hi.depart he rfl hpc hpc' rfl (fun c => ⟨?_, ?_⟩)
        (.inl ⟨m, by rw [henq]; exact List.mem_cons_self, hdcon, hid⟩)
      · rw [notices_append, henq]
        simp [hdcon, show MESG_DCON ≠ MESG_CONN by decide]
      · rw [notices_append, henq]
        simp [failures, List.countP_append, List.countP_cons, Event.failed, hdcon, hid]
        omega
    · refine hi.depart he rfl hpc hpc' rfl (fun c => ⟨?_, ?_⟩) (.inr rfl)
      · rw [notices_append]
        rfl
      · rw [notices_append]
        simp [failures, List.countP_append, List.countP_cons, Event.failed, Event.listener,
          enqueues]
        omega
    · refine hi.quiet he (fun t' ht' => ?_) hannounces hfailed hkinds
      obtain rfl : t = t' := Option.some.inj (ht.symm.trans ht')
      exact hpc

theorem account_of_run {client_ids : List UInt16} (hr : (server client_ids).Run OwnId h s) :
    Account h s := by
  refine hr.invariant (I := Account) ?_ fun h s e hr hi he hown => hi.step hr (And.right he) hown
  exact ⟨.nil, by rintro t ⟨⟩, by rintro t ⟨⟩, fun _ => rfl, by rintro t ⟨⟩⟩

end Server

/-- **The presence notices balance** in exactly the runs in which no payload fails, for clients
that put their own id into their frames. -/
theorem balanced_iff {client_ids : List UInt16} {h : History} {s : Server}
    (hr : (server client_ids).Run Server.OwnId h s) :
    s.Balanced h ↔ ∀ x ∈ h, x.2.failed = false := by
  have hacc := Server.account_of_run hr
  constructor
  · intro hb x hx
    by_contra hfailed
    obtain ⟨s', e⟩ := x
    cases e with
    | recv_payload t m r =>
      cases r with
      | some m' => exact hfailed rfl
      | none =>
        have hpos : 0 < Server.failures h (s'.listener t).client_id :=
          List.countP_pos_iff.mpr ⟨_, hx, by simp [Event.failed, Event.listener]⟩
        have hlaw := hacc.law (s'.listener t).client_id
        have hbalance := hb.balance (s'.listener t).client_id
        omega
    | _ => exact hfailed rfl
  · intro hnone
    refine ⟨fun c => ?_, hacc.nodup, fun t ht hgone => ?_⟩
    · have hzero : Server.failures h c = 0 := by
        refine List.countP_eq_zero.mpr fun x hx => ?_
        simp [hnone x hx]
      have hlaw := hacc.law c
      omega
    · rcases hacc.farewell t ht with hpresent | hdcon | ⟨x, hx, hfailed⟩
      · rw [hgone] at hpresent
        cases hpresent
      · exact hdcon
      · rw [hnone x hx] at hfailed
        cases hfailed

theorem balanced_threeClients : ∃ h s, (server [1, 2, 3]).Run Server.OwnId h s ∧
    notices h MESG_CONN 3 = 1 ∧ notices h MESG_DCON 3 = 1 ∧ s.Balanced h := by
  have hrun : ((server [1, 2, 3]).exec Server.OwnId (server [1, 2, 3]).init threeClients).any
      (fun _ => ((server [1, 2, 3]).trace (server [1, 2, 3]).init threeClients).countP
          (fun x => x.2.failed) = 0 ∧
        notices ((server [1, 2, 3]).trace (server [1, 2, 3]).init threeClients) MESG_CONN 3 = 1 ∧
        notices ((server [1, 2, 3]).trace (server [1, 2, 3]).init threeClients) MESG_DCON 3 = 1) =
      true := by
    decide +kernel
  obtain ⟨h, s, hr, hw⟩ := TransitionSystem.exists_run_of_exec
    (p := fun (h : History) (_ : Server) => h.countP (fun x => x.2.failed) = 0 ∧
      notices h MESG_CONN 3 = 1 ∧ notices h MESG_DCON 3 = 1) hrun
  obtain ⟨hnone, hconn, hdcon⟩ := of_decide_eq_true hw
  refine ⟨h, s, hr, hconn, hdcon, (balanced_iff hr).mpr fun x hx => ?_⟩
  simpa using List.countP_eq_zero.mp hnone x hx

/-- The payload of a frame from client 1 fails: its connection is dropped without a farewell. -/
def failing : List Event :=
  let m : Message := ⟨1, MESG_DATA, 5, none⟩
  connecting 0 4 1 ++ [.fast_forward 0, .storeMark 0, .client_hash_add_connection 0,
    .recv_header 0 (some m), .recv_payload 0 m none, .client_hash_remove_connection 0, .close 0]

theorem not_balanced : ¬ ∀ h s, (server [1]).Run Server.OwnId h s → s.Balanced h := by
  have hrun : ((server [1]).exec Server.OwnId (server [1]).init failing).any
      (fun s => notices ((server [1]).trace (server [1]).init failing) MESG_CONN 1 = 1 ∧
        notices ((server [1]).trace (server [1]).init failing) MESG_DCON 1 = 0 ∧
        s.presence ((server [1]).trace (server [1]).init failing) 1 = 0) = true := by
    decide +kernel
  obtain ⟨h, s, hr, hw⟩ := TransitionSystem.exists_run_of_exec
    (p := fun (h : History) (s : Server) =>
      notices h MESG_CONN 1 = 1 ∧ notices h MESG_DCON 1 = 0 ∧ s.presence h 1 = 0) hrun
  obtain ⟨hconn, hdcon, hpresence⟩ := of_decide_eq_true hw
  intro hall
  have hbalance := (hall h s hr).balance 1
  omega

end Cs2510.Chat
