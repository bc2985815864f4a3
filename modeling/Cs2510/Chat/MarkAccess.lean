import Cs2510.Chat.Reconnect

/-!
# The accesses to the mark

`fast_forward` reads and writes `last_read` under `log->lock` alone, the sender writes it under
`clients_lock`. Here every access of `fast_forward` is an event, so those of the sender (`visit` and
`mark`) and of the client's other connections come between them in any order. `accesses_refine`
says that these runs are runs of the server as it is modelled elsewhere, where `fast_forward` and
`storeMark` are single events.

A write of the mark cannot be stale: the sender's node is the last of the log until it has visited
all clients, and the log does not grow while a catch-up holds the tail it has read.
-/

namespace Cs2510.Chat
open TransitionSystem

/-- What a thread in `fast_forward` has read and is about to use. -/
inductive Read
  | nothing
  /-- `c->last_read`, which was not NULL -/
  | marked
  /-- `log->list->tail` -/
  | tail (node : Option Nat)
  deriving DecidableEq, Repr

structure Accesses where
  /-- Its `log_readers` are the threads in the loop; those in `readers` hold the lock. -/
  server : Server
  readers : List Tid
  read : Tid → Read

/-- The accesses of `fast_forward`, and the events of the server apart from it. -/
inductive Access
  | rdlock (t : Tid)
  /-- reads `c->last_read`, and if that is NULL the list's head, which does not change while the
  lock is held -/
  | test (t : Tid)
  /-- reads `c->last_read` again -/
  | load (t : Tid)
  | tail (t : Tid)
  /-- writes `c->last_read` -/
  | store (t : Tid) (node : Option Nat)
  | unlock (t : Tid)
  | event (e : Event)
  deriving DecidableEq, Repr

namespace Server

/-- `log->list->head` -/
def head (s : Server) : Option Nat := if s.log.length = 0 then none else some 0

/-- The mark of the client of a listener. -/
def markOf (s : Server) (t : Tid) : Option Nat := (s.client (s.listener t).client_id).last_read

end Server

namespace Accesses

def init (client_ids : List UInt16) : Accesses where
  server := .init client_ids
  readers := []
  read _ := .nothing

def setRead (s : Accesses) (t : Tid) (r : Read) : Accesses :=
  { s with read := Function.update s.read t r }

/-- The thread has its first cursor. -/
def enter (s : Accesses) (t : Tid) (cursor : Option Nat) : Accesses :=
  { s.setRead t .nothing with
    server := { s.server with
      log_readers := t :: s.server.log_readers
      listener := Function.update s.server.listener t
        { s.server.listener t with pc := .catchUp cursor } } }

def enabled (s : Accesses) : Access → Prop
  | .rdlock t => (s.server.listener t).pc = .fastForward ∧ t ∉ s.readers
  | .test t => (s.server.listener t).pc = .fastForward ∧ t ∈ s.readers ∧ s.read t = .nothing
  | .load t => (s.server.listener t).pc = .fastForward ∧ s.read t = .marked
  | .tail t => (s.server.listener t).pc = .catchUp none ∧ s.read t = .nothing
  | .store t node => (s.server.listener t).pc = .catchUp none ∧ s.read t = .tail node
  | .unlock t => (s.server.listener t).pc = .register ∧ t ∈ s.readers
  | .event (.fast_forward _) | .event (.storeMark _) => False
  | .event (.message_log_append m) => s.server.sender = .append m ∧ s.readers = []
  | .event (.client_hash_add_connection t) =>
    s.server.enabled (.client_hash_add_connection t) ∧ t ∉ s.readers
  | .event e => s.server.enabled e

def next (s : Accesses) : Access → Accesses
  | .rdlock t => { s with readers := t :: s.readers }
  | .test t => if s.server.markOf t = none then s.enter t s.server.head else s.setRead t .marked
  | .load t => s.enter t (s.server.markOf t)
  | .tail t => s.setRead t (.tail s.server.tail)
  | .store t node =>
    { s.setRead t .nothing with
      server := ((s.server.setMark (s.server.listener t).client_id node).unlockLog t).goto t
        .register }
  | .unlock t => { s with readers := s.readers.erase t }
  | .event e => { s with server := s.server.next e }

instance (s : Accesses) (a : Access) : Decidable (s.enabled a) :=
  match a with
  | .event (.fast_forward _) | .event (.storeMark _) => .isFalse id
  | .rdlock _ | .test _ | .load _ | .tail _ | .store .. | .unlock _
  | .event (.message_log_append _) | .event (.client_hash_add_connection _)
  | .event (.accept ..) | .event (.handshake ..) | .event (.client_hash_get _)
  | .event (.refuse ..) | .event (.reply ..) | .event (.catchUp ..) | .event (.recv_header ..)
  | .event (.recv_payload ..) | .event (.client_hash_remove_connection _)
  | .event (.jobqueue_dequeue ..) | .event (.send ..) => inferInstanceAs (Decidable (_ ∧ _))
  | .event (.free_message ..) | .event (.announce _) | .event (.close _)
  | .event (.lockClients ..) | .event (.visit ..) | .event (.mark ..)
  | .event (.unlockClients ..) => inferInstanceAs (Decidable (_ = _))

end Accesses

def accesses (client_ids : List UInt16) : TransitionSystem Accesses Access where
  init := .init client_ids
  enabled s a := s.server.crashed = false ∧ s.enabled a
  next := Accesses.next

namespace Server

variable {s : Server} {e : Event} {t : Tid}

/-! ## The readers of the log -/

/-- The threads in the loop of `fast_forward`, each once. -/
structure Reading (s : Server) : Prop where
  nodup : s.log_readers.Nodup
  catching : ∀ t ∈ s.log_readers, (s.listener t).pc.catching

theorem log_readers_next (s : Server) (e : Event) : (s.next e).log_readers =
    match e with
    | .fast_forward t => t :: s.log_readers
    | .storeMark t => s.log_readers.erase t
    | .catchUp t _ m ok =>
      if m.id ≠ (s.listener t).client_id ∧ m.Marshals ∧ ok = false then s.log_readers.erase t
      else s.log_readers
    | _ => s.log_readers := by
  cases e with
  | catchUp t cursor m ok =>
    simp only [next]
    split_ifs <;> simp_all [goto, unlockLog, crash]
  | handshake t m => cases m <;> simp only [next] <;> [rfl; (split <;> rfl)]
  | recv_header t m => cases m <;> simp only [next] <;> [rfl; (split_ifs <;> rfl)]
  | recv_payload t m r => cases r <;> simp only [next] <;> [rfl; (split_ifs <;> rfl)]
  | refuse t received ok | reply t ok => simp [next, goto]
  | client_hash_get t | free_message t | visit =>
    simp only [next]
    split_ifs <;> rfl
  | send =>
    simp only [next]
    split_ifs <;> simp [crash]
  | _ => rfl

theorem reader_of_next (ht : t ∈ (s.next e).log_readers) :
    t ∈ s.log_readers ∨ e = .fast_forward t := by
  rw [log_readers_next] at ht
  split at ht
  · cases ht with
    | head => exact .inr rfl
    | tail _ ht => exact .inl ht
  · exact .inl (List.mem_of_mem_erase ht)
  · split at ht
    · exact .inl (List.mem_of_mem_erase ht)
    · exact .inl ht
  · exact .inl ht

theorem Moves.catching_of_sent {cursor : Nat} {m : Message} {pc pc' : ListenerPc}
    (hm : s.Moves t (.catchUp t cursor m false) pc pc')
    (hsent : ¬(m.id ≠ (s.listener t).client_id ∧ m.Marshals)) : pc'.catching := by
  cases hm with
  | skip | oversized => rfl
  | abandon hid hmarshals => exact absurd ⟨hid, hmarshals⟩ hsent

/-- The thread that makes the step leaves the loop. -/
theorem Reading.leave (h : s.Reading) (ht : e.listener = some t)
    (hreaders : (s.next e).log_readers = s.log_readers.erase t) : (s.next e).Reading := by
  constructor
  · rw [hreaders]
    exact h.nodup.erase t
  · intro t' ht'
    rw [hreaders] at ht'
    obtain ⟨hne, hmem⟩ := h.nodup.mem_erase_iff.mp ht'
    have hother : e.listener ≠ some t' := by
      rw [ht]
      exact fun heq => hne (Option.some.inj heq).symm
    rw [listener_next_of_ne hother]
    exact h.catching t' hmem

/-- Nobody leaves the loop. -/
theorem Reading.stay (h : s.Reading) (hreaders : (s.next e).log_readers = s.log_readers)
    (hstays : ∀ t ∈ s.log_readers, e.listener = some t →
      ((s.next e).listener t).pc.catching) : (s.next e).Reading := by
  constructor
  · rw [hreaders]
    exact h.nodup
  · intro t ht
    rw [hreaders] at ht
    by_cases hlistener : e.listener = some t
    · exact hstays t ht hlistener
    · rw [listener_next_of_ne hlistener]
      exact h.catching t ht

theorem Reading.enter (h : s.Reading) (he : s.enabled (.fast_forward t)) :
    (s.next (.fast_forward t)).Reading := by
  have hpc : (s.listener t).pc = .fastForward := he
  constructor
  · refine List.nodup_cons.mpr ⟨fun hmem => ?_, h.nodup⟩
    have hcatch := h.catching t hmem
    rw [hpc] at hcatch
    cases hcatch
  · intro t' ht'
    by_cases hsame : t' = t
    · subst hsame
      simp [next, ListenerPc.catching]
    · have hother : (Event.fast_forward t).listener ≠ some t' := fun heq =>
        hsame (Option.some.inj heq).symm
      rw [listener_next_of_ne hother]
      exact h.catching t' ((List.mem_cons.mp ht').resolve_left hsame)

theorem Reading.step (h : s.Reading) (he : s.enabled e) : (s.next e).Reading := by
  have hreaders := log_readers_next s e
  cases e with
  | fast_forward t => exact h.enter he
  | storeMark t => exact h.leave rfl hreaders
  | catchUp t cursor m ok =>
    simp only at hreaders
    by_cases hfailed : m.id ≠ (s.listener t).client_id ∧ m.Marshals ∧ ok = false
    · rw [if_pos hfailed] at hreaders
      exact h.leave rfl hreaders
    · rw [if_neg hfailed] at hreaders
      apply h.stay hreaders
      rintro t' ht' ⟨⟩
      obtain hcatch | hby | ⟨_, _, hby⟩ := (moves_next he rfl).left_catching (h.catching t ht')
      · exact hcatch
      · cases hby
      · cases hby
        exact (moves_next he rfl).catching_of_sent fun hgiven => hfailed ⟨hgiven.1, hgiven.2, rfl⟩
  | _ =>
    apply h.stay hreaders
    intro t' ht' hlistener
    obtain hcatch | hby | ⟨_, _, hby⟩ := (moves_next he hlistener).left_catching (h.catching t' ht')
    · exact hcatch
    · cases hby
    · cases hby

end Server

/-! ## The invariant -/

namespace Accesses

variable {s : Accesses} {a : Access} {e : Event} {t : Tid}

/-- What has been read is still so. -/
structure Wf (s : Accesses) : Prop where
  server : s.server.Wf
  reading : s.server.Reading
  readers : ∀ t ∈ s.server.log_readers, t ∈ s.readers
  marked : ∀ t, s.read t = .marked → (s.server.listener t).pc = .fastForward ∧ t ∈ s.readers ∧
    s.server.markOf t ≠ none
  tail : ∀ t node, s.read t = .tail node → (s.server.listener t).pc = .catchUp none ∧
    node = s.server.tail

theorem wf_init (client_ids : List UInt16) : Wf (init client_ids) where
  server := Server.wf_init client_ids
  reading := ⟨List.nodup_nil, nofun⟩
  readers := nofun
  marked := nofun
  tail := nofun

theorem firstUnread_of_markOf_none (h : s.server.markOf t = none) :
    s.server.firstUnread (s.server.listener t).client_id = s.server.head := by
  rw [Server.markOf] at h
  simp only [Server.firstUnread, h, Server.head]

theorem firstUnread_of_markOf (h : s.server.markOf t ≠ none) :
    s.server.firstUnread (s.server.listener t).client_id = s.server.markOf t := by
  obtain ⟨p, hp⟩ := Option.ne_none_iff_exists'.mp h
  rw [hp]
  rw [Server.markOf] at hp
  simp only [Server.firstUnread, hp]

theorem Wf.enabled_event (h : Wf s) (he : s.enabled (.event e)) : s.server.enabled e := by
  cases e with
  | fast_forward t | storeMark t => exact he.elim
  | message_log_append m =>
    refine ⟨he.1, ?_⟩
    apply List.eq_nil_iff_forall_not_mem.mpr
    intro t ht
    have hmem := h.readers t ht
    rw [he.2] at hmem
    cases hmem
  | client_hash_add_connection t => exact he.1
  | _ => exact he

/-- An access leaves the server as it is, or is an event of it. -/
theorem Wf.effect (h : Wf s) (he : s.enabled a) : (s.next a).server = s.server ∨
    ∃ e, s.server.enabled e ∧ (s.next a).server = s.server.next e := by
  cases a with
  | rdlock t | tail t | unlock t => exact .inl rfl
  | test t =>
    simp only [next]
    by_cases hmark : s.server.markOf t = none
    · rw [if_pos hmark]
      refine .inr ⟨.fast_forward t, he.1, ?_⟩
      simp only [enter, setRead, Server.next, firstUnread_of_markOf_none hmark]
    · rw [if_neg hmark]
      exact .inl rfl
  | load t =>
    obtain ⟨hpc, -, hmark⟩ := h.marked t he.2
    refine .inr ⟨.fast_forward t, hpc, ?_⟩
    simp only [enter, setRead, next, Server.next, firstUnread_of_markOf hmark]
  | store t node =>
    obtain ⟨hpc, rfl⟩ := h.tail t node he.2
    exact .inr ⟨.storeMark t, hpc, rfl⟩
  | event e => exact .inr ⟨e, h.enabled_event he, rfl⟩

/-- A thread that has read something uses it next. -/
theorem Wf.uses (h : Wf s) (he : s.server.enabled e) (hread : s.read t ≠ .nothing)
    (ht : e.listener = some t) : e = .fast_forward t ∨ e = .storeMark t := by
  have hmoves := Server.moves_next he ht
  cases hr : s.read t with
  | nothing => exact absurd hr hread
  | marked =>
    rw [(h.marked t hr).1] at hmoves
    generalize ((s.server.next e).listener t).pc = pc at hmoves
    cases hmoves
    exact .inl rfl
  | tail node =>
    rw [(h.tail t node hr).1] at hmoves
    generalize ((s.server.next e).listener t).pc = pc at hmoves
    cases hmoves
    exact .inr rfl

/-- An event of the server leaves what other threads have read as it is. -/
theorem Wf.after (h : Wf s) (he : s.server.enabled e) {read : Tid → Read}
    (hread : ∀ t, read t ≠ .nothing → read t = s.read t ∧ e.listener ≠ some t)
    (henter : ∀ t, e = .fast_forward t → t ∈ s.readers) :
    Wf { s with server := s.server.next e, read } := by
  refine ⟨h.server.step he, h.reading.step he, ?_, ?_, ?_⟩
  · intro t ht
    obtain hold | hnew := Server.reader_of_next ht
    · exact h.readers t hold
    · exact henter t hnew
  · intro t (hr : read t = .marked)
    obtain ⟨heq, hother⟩ := hread t (by rw [hr]; nofun)
    obtain ⟨hpc, hmem, hmark⟩ := h.marked t (heq ▸ hr)
    have hlistener := Server.listener_next_of_ne (s := s.server) hother
    simp only [Server.markOf, hlistener]
    refine ⟨hpc, hmem, ?_⟩
    obtain ⟨p, hp⟩ := Option.ne_none_iff_exists'.mp hmark
    obtain ⟨p', hp', -⟩ :=
      Server.mark_next h.server he (h.server.mark _ p hp) ⟨p, hp, Nat.le_refl p⟩
    rw [Option.mem_def.mp hp']
    nofun
  · intro t node (hr : read t = .tail node)
    obtain ⟨heq, hother⟩ := hread t (by rw [hr]; nofun)
    obtain ⟨hpc, hnode⟩ := h.tail t node (heq ▸ hr)
    have hlistener := Server.listener_next_of_ne (s := s.server) hother
    have hlog : (s.server.next e).log = s.server.log := by
      apply Server.log_next_of_past h.server he (t := t) (i := 0)
      rw [hlistener, hpc]
      trivial
    simp only [Server.tail, hlistener, hlog]
    exact ⟨hpc, hnode⟩

theorem setRead_same (s : Accesses) (t : Tid) (r : Read) : (s.setRead t r).read t = r :=
  Function.update_self ..

theorem setRead_other {t' : Tid} (hne : t' ≠ t) (s : Accesses) (r : Read) :
    (s.setRead t r).read t' = s.read t' :=
  Function.update_of_ne hne ..

/-- An event of the server that uses what its thread has read. -/
theorem Wf.use (h : Wf s) (he : s.server.enabled e) (ht : e.listener = some t)
    (henter : ∀ t', e = .fast_forward t' → t' ∈ s.readers) :
    Wf { s.setRead t .nothing with server := s.server.next e } := by
  apply h.after he _ henter
  intro t' hr
  have hne : t' ≠ t := by
    rintro rfl
    exact hr (s.setRead_same ..)
  refine ⟨setRead_other hne .., ?_⟩
  rw [ht]
  exact fun heq => hne (Option.some.inj heq).symm

/-- A thread reads what is there. -/
theorem Wf.setRead (h : Wf s) {r : Read}
    (hmarked : r = .marked → (s.server.listener t).pc = .fastForward ∧ t ∈ s.readers ∧
      s.server.markOf t ≠ none)
    (htail : ∀ node, r = .tail node → (s.server.listener t).pc = .catchUp none ∧
      node = s.server.tail) : Wf (s.setRead t r) := by
  refine ⟨h.server, h.reading, h.readers, ?_, ?_⟩
  · intro t' hr
    by_cases hsame : t' = t
    · subst hsame
      rw [setRead_same] at hr
      exact hmarked hr
    · rw [setRead_other hsame] at hr
      exact h.marked t' hr
  · intro t' node hr
    by_cases hsame : t' = t
    · subst hsame
      rw [setRead_same] at hr
      exact htail node hr
    · rw [setRead_other hsame] at hr
      exact h.tail t' node hr

theorem Wf.step (h : Wf s) (he : s.enabled a) : (s.next a).Wf := by
  cases a with
  | rdlock t =>
    refine ⟨h.server, h.reading, ?_, ?_, h.tail⟩
    · intro t' ht'
      exact List.mem_cons_of_mem _ (h.readers t' ht')
    · intro t' hr
      obtain ⟨hpc, hmem, hmark⟩ := h.marked t' hr
      exact ⟨hpc, List.mem_cons_of_mem _ hmem, hmark⟩
  | test t =>
    obtain ⟨hpc, hmem, -⟩ := he
    simp only [next]
    split
    · next hmark =>
      rw [enter, ← firstUnread_of_markOf_none hmark]
      exact h.use (e := .fast_forward t) hpc rfl (by rintro _ ⟨⟩; exact hmem)
    · next hmark => exact h.setRead (fun _ => ⟨hpc, hmem, hmark⟩) nofun
  | load t =>
    obtain ⟨hpc, hmem, hmark⟩ := h.marked t he.2
    rw [next, enter, ← firstUnread_of_markOf hmark]
    exact h.use (e := .fast_forward t) hpc rfl (by rintro _ ⟨⟩; exact hmem)
  | tail t => exact h.setRead nofun (by rintro _ ⟨⟩; exact ⟨he.1, rfl⟩)
  | store t node =>
    obtain ⟨hpc, rfl⟩ := h.tail t node he.2
    exact h.use (e := .storeMark t) hpc rfl nofun
  | unlock t =>
    obtain ⟨hpc, -⟩ := he
    refine ⟨h.server, h.reading, ?_, ?_, h.tail⟩
    · intro t' ht'
      have hne : t' ≠ t := by
        rintro rfl
        have hcatch := h.reading.catching t' ht'
        rw [hpc] at hcatch
        cases hcatch
      exact (List.mem_erase_of_ne hne).mpr (h.readers t' ht')
    · intro t' hr
      obtain ⟨hpc', hmem, hmark⟩ := h.marked t' hr
      have hne : t' ≠ t := by
        rintro rfl
        rw [hpc] at hpc'
        cases hpc'
      exact ⟨hpc', (List.mem_erase_of_ne hne).mpr hmem, hmark⟩
  | event e =>
    have henabled := h.enabled_event he
    apply h.after henabled
    · intro t hr
      refine ⟨rfl, fun ht => ?_⟩
      obtain rfl | rfl := h.uses henabled hr ht
      · exact he
      · exact he
    · rintro t rfl
      exact he.elim

end Accesses

theorem wf_of_accesses {client_ids : List UInt16} {s : Accesses}
    (h : (accesses client_ids).Reachable s) : s.Wf :=
  h.invariant (Accesses.wf_init client_ids) fun _ _ hwf he _ => hwf.step (And.right he)

/-- Seen without the accesses, the runs are those of the server. -/
theorem accesses_refine {client_ids : List UInt16} {s : Accesses}
    (h : (accesses client_ids).Reachable s) : (server client_ids).Reachable s.server := by
  apply h.refines (fun _ => wf_of_accesses) rfl
  intro s a hwf he
  obtain hsame | ⟨e, henabled, hnext⟩ := hwf.effect he.2
  · exact .inl hsame
  · exact .inr ⟨e, ⟨he.1, henabled⟩, hnext⟩

/-- An access moves no mark back, and removes nothing from the log. -/
theorem Accesses.Wf.mark_le {s : Accesses} {a : Access} (h : s.Wf) (he : s.enabled a) {c : UInt16}
    {p : Nat} (hp : p ∈ (s.server.client c).last_read) :
    ∃ p' ∈ ((s.next a).server.client c).last_read, p ≤ p' := by
  obtain hsame | ⟨e, henabled, hnext⟩ := h.effect he
  · rw [hsame]
    exact ⟨p, hp, Nat.le_refl p⟩
  · rw [hnext]
    exact Server.mark_next h.server henabled (h.server.mark c p hp) ⟨p, hp, Nat.le_refl p⟩

/-- The nodes of the log stay where they are. -/
theorem Accesses.Wf.log_extends {s : Accesses} {a : Access} (h : s.Wf) (he : s.enabled a) :
    s.server.log <+: (s.next a).server.log := by
  obtain hsame | ⟨e, -, hnext⟩ := h.effect he
  · have hlog : (s.next a).server.log = s.server.log := congrArg Server.log hsame
    exact hlog ▸ List.prefix_refl _
  · rw [hnext, Server.log_next]
    exact List.prefix_append ..

/-- **The read mark.** In every state the mark of a client is NULL or a node of the log. In every
state reached from there the nodes are where they were, and the mark is still a node if it was one,
at the same place or behind it. -/
theorem mark_monotone {client_ids : List UInt16} {s s' : Accesses}
    (h : (accesses client_ids).Reachable s)
    (h' : { accesses client_ids with init := s }.Reachable s') (c : UInt16) :
    (∀ p ∈ (s.server.client c).last_read, p < s.server.log.length) ∧
    s.server.log <+: s'.server.log ∧
    ∀ p ∈ (s.server.client c).last_read, ∃ p' ∈ (s'.server.client c).last_read, p ≤ p' := by
  have hwf : ∀ s'', { accesses client_ids with init := s }.Reachable s'' → s''.Wf :=
    fun s'' hr => wf_of_accesses (h.trans hr)
  refine ⟨(wf_of_accesses h).server.mark c, ?_, fun p hp => ?_⟩
  · apply h'.invariant_of (I := fun s' => s.server.log <+: s'.server.log) hwf
    · exact List.prefix_refl _
    · intro s'' a hwf hlog he _
      exact hlog.trans (hwf.log_extends he.2)
  · apply h'.invariant_of (I := fun s' => ∃ p' ∈ (s'.server.client c).last_read, p ≤ p') hwf
    · exact ⟨p, hp, Nat.le_refl p⟩
    · rintro s'' a hwf ⟨p', hp', hle⟩ he -
      obtain ⟨p'', hp'', hle'⟩ := hwf.mark_le he.2 hp'
      exact ⟨p'', hp'', Nat.le_trans hle hle'⟩

/-! ## Two connections of a client -/

instance decidableEnabledFrom (client_ids : List UInt16) (s₀ s : Accesses) (a : Access) :
    Decidable ({ accesses client_ids with init := s₀ }.enabled s a) :=
  inferInstanceAs (Decidable (_ ∧ _))

def events (es : List Event) : List Access := es.map .event

/-- Client 1 is announced to itself and connects once more. The sender has appended the second
announcement when the catch-up finds the mark at the first. -/
def secondConnection : List Access :=
  let conn := create_message_header 0 1 MESG_CONN
  events (connecting 0 4 1) ++ [.rdlock 0, .test 0, .tail 0, .store 0 none, .unlock 0] ++
  events ([.client_hash_add_connection 0] ++ appending conn 0 [] ++
    [.visit conn 0 1 [], .unlockClients conn 0] ++ connecting 1 5 1 ++ appending conn 1 []) ++
  [.rdlock 1, .test 1]

/-- The sender moves the mark on before the catch-up reads it again. -/
def secondRead : List Access :=
  let conn := create_message_header 0 1 MESG_CONN
  [.event (.visit conn 1 1 []), .load 1, .event (.catchUp 1 1 conn true), .tail 1,
    .store 1 (some 1), .unlock 1]

theorem mark_monotone_overtaken : ∃ s s' : Accesses, s.read 1 = .marked ∧
    (s.server.client 1).last_read = some 0 ∧ s.server.log <+: s'.server.log ∧
    ∃ p' ∈ (s'.server.client 1).last_read, 0 ≤ p' := by
  have hrun : ((accesses [1]).exec (fun _ _ => True) (accesses [1]).init secondConnection).any
      (fun s => s.read 1 = .marked ∧ (s.server.client 1).last_read = some 0 ∧
        (({ accesses [1] with init := s }.exec (fun _ _ => True) s secondRead).any
          fun s' : Accesses => (s'.server.client 1).last_read = some 1) = true) = true := by
    decide +kernel
  obtain ⟨s, hr, hs⟩ := TransitionSystem.exists_reach_of_exec
    (p := fun s : Accesses => s.read 1 = .marked ∧ (s.server.client 1).last_read = some 0 ∧
        (({ accesses [1] with init := s }.exec (fun _ _ => True) s secondRead).any
          fun s' : Accesses => (s'.server.client 1).last_read = some 1) = true) hrun
  obtain ⟨hread, hmark, hrun'⟩ := of_decide_eq_true hs
  obtain ⟨s', hr', -⟩ := TransitionSystem.exists_reach_of_exec
    (T := { accesses [1] with init := s })
    (p := fun s' : Accesses => (s'.server.client 1).last_read = some 1) hrun'
  obtain ⟨-, hlog, hle⟩ := mark_monotone hr hr' 1
  exact ⟨s, s', hread, hmark, hlog, hle 0 hmark⟩

end Cs2510.Chat
