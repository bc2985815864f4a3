import Cs2510.Chat.Server

/-!
# What holds in every state of the chat server

`Server.Wf` ties the program points to the shared data: the descriptor table to the threads that
are alive, the fan-out lists to the threads that are between `client_hash_add_connection` and
`client_hash_remove_connection`, the read section of `log->lock` to the catch-ups in progress,
and the sender's node to the end of the log. It holds in every reachable state
(`Server.wf_of_reach`); the properties of the delivery are proved on top of it.
-/

namespace Cs2510.Chat

/-- Between `accept` and `close`. -/
def ListenerPc.live : ListenerPc → Bool
  | .unborn | .finished => false
  | _ => true

/-- Between `client_hash_add_connection` and `client_hash_remove_connection`. -/
def ListenerPc.registered : ListenerPc → Bool
  | .receive | .payload _ | .out => true
  | _ => false

/-- In the read section of `fast_forward`. -/
def ListenerPc.catching : ListenerPc → Bool
  | .catchUp _ => true
  | _ => false

theorem ListenerPc.live_of_registered {pc : ListenerPc} (h : pc.registered) : pc.live := by
  cases pc <;> first | rfl | cases h

namespace Server

variable {s : Server}

/-! ## The elementary updates, field by field -/

section updates

variable (s) (t t' : Tid) (pc : ListenerPc) (fd : Fd) (frame : Frame) (ok : Bool)
  (c c' : UInt16) (node : Option Nat) (fds : List Fd) (m : Message)

@[simp] theorem goto_log : (s.goto t pc).log = s.log := rfl
@[simp] theorem goto_sender : (s.goto t pc).sender = s.sender := rfl
@[simp] theorem goto_client : (s.goto t pc).client = s.client := rfl
@[simp] theorem goto_socket : (s.goto t pc).socket = s.socket := rfl
@[simp] theorem goto_wire : (s.goto t pc).wire = s.wire := rfl

theorem goto_listener : (s.goto t pc).listener t' =
    if t' = t then { s.listener t with pc } else s.listener t' := by
  simp [goto, Function.update_apply]

@[simp] theorem transmit_log : (s.transmit fd frame ok).log = s.log := by
  unfold transmit; split <;> rfl
@[simp] theorem transmit_log_readers : (s.transmit fd frame ok).log_readers = s.log_readers := by
  unfold transmit; split <;> rfl
@[simp] theorem transmit_sender : (s.transmit fd frame ok).sender = s.sender := by
  unfold transmit; split <;> rfl
@[simp] theorem transmit_client : (s.transmit fd frame ok).client = s.client := by
  unfold transmit; split <;> rfl
@[simp] theorem transmit_socket : (s.transmit fd frame ok).socket = s.socket := by
  unfold transmit; split <;> rfl
@[simp] theorem transmit_listener : (s.transmit fd frame ok).listener = s.listener := by
  unfold transmit; split <;> rfl

@[simp] theorem setMark_log : (s.setMark c node).log = s.log := rfl
@[simp] theorem setMark_listener : (s.setMark c node).listener = s.listener := rfl

theorem setMark_last_read : ((s.setMark c node).client c').last_read =
    if c' = c then node else (s.client c').last_read := by
  simp only [setMark, Function.update_apply]
  split <;> rfl

@[simp] theorem setMark_sockfds :
    ((s.setMark c node).client c').sockfds = (s.client c').sockfds := by
  simp only [setMark, Function.update_apply]
  split <;> simp_all

@[simp] theorem setFds_log : (s.setFds c fds).log = s.log := rfl
@[simp] theorem setFds_sender : (s.setFds c fds).sender = s.sender := rfl
@[simp] theorem setFds_socket : (s.setFds c fds).socket = s.socket := rfl
@[simp] theorem setFds_listener : (s.setFds c fds).listener = s.listener := rfl

@[simp] theorem setFds_last_read :
    ((s.setFds c fds).client c').last_read = (s.client c').last_read := by
  simp only [setFds, Function.update_apply]
  split <;> simp_all

theorem setFds_sockfds : ((s.setFds c fds).client c').sockfds =
    if c' = c then fds else (s.client c').sockfds := by
  simp only [setFds, Function.update_apply]
  split <;> rfl

@[simp] theorem enqueue_log : (s.jobqueue_enqueue m).log = s.log := rfl
@[simp] theorem enqueue_client : (s.jobqueue_enqueue m).client = s.client := rfl
@[simp] theorem unlockLog_log : (s.unlockLog t).log = s.log := rfl
@[simp] theorem unlockLog_sender : (s.unlockLog t).sender = s.sender := rfl
@[simp] theorem unlockLog_client : (s.unlockLog t).client = s.client := rfl
@[simp] theorem unlockLog_listener : (s.unlockLog t).listener = s.listener := rfl
@[simp] theorem crash_log : s.crash.log = s.log := rfl
@[simp] theorem crash_client : s.crash.client = s.client := rfl

@[simp] theorem goto_clients : (s.goto t pc).clients = s.clients := rfl
@[simp] theorem setMark_clients : (s.setMark c node).clients = s.clients := rfl
@[simp] theorem setFds_clients : (s.setFds c fds).clients = s.clients := rfl
@[simp] theorem transmit_clients : (s.transmit fd frame ok).clients = s.clients := by
  unfold transmit; split <;> rfl
@[simp] theorem crash_clients : s.crash.clients = s.clients := rfl
@[simp] theorem unlockLog_clients : (s.unlockLog t).clients = s.clients := rfl
@[simp] theorem enqueue_clients : (s.jobqueue_enqueue m).clients = s.clients := rfl

end updates

/-! ## The invariant -/

/-- The node the sender works on is the last of the log, and the pass over a client's descriptors
is over a rest of its list, which does not change meanwhile. -/
def SenderOk (s : Server) : SenderPc → Prop
  | .dequeue | .append _ => True
  | .lockClients m last_node | .visit m last_node _ =>
    last_node + 1 = s.log.length ∧ s.log[last_node]? = some m
  | .fanOut m last_node c _ fds =>
    (last_node + 1 = s.log.length ∧ s.log[last_node]? = some m) ∧ c ≠ m.id ∧
      (s.client c).sockfds ≠ [] ∧ fds <:+ (s.client c).sockfds

theorem SenderOk.congr {s' : Server} {pc : SenderPc} (h : s.SenderOk pc) (hlog : s'.log = s.log)
    (hfds : ∀ c, (s'.client c).sockfds = (s.client c).sockfds) : s'.SenderOk pc := by
  cases pc <;> simp only [SenderOk, hlog, hfds] at h ⊢ <;> exact h

structure Wf (s : Server) : Prop where
  socket_iff : ∀ fd t, s.socket fd = some t ↔ (s.listener t).fd = fd ∧ (s.listener t).pc.live
  sockfds_iff : ∀ c fd, fd ∈ (s.client c).sockfds ↔
    ∃ t, (s.listener t).fd = fd ∧ (s.listener t).client_id = c ∧ (s.listener t).pc.registered
  sockfds_nodup : ∀ c, (s.client c).sockfds.Nodup
  readers : ∀ t, (s.listener t).pc.catching → t ∈ s.log_readers
  cursor : ∀ t i, (s.listener t).pc = .catchUp (some i) → i < s.log.length
  mark : ∀ c p, (s.client c).last_read = some p → p < s.log.length
  sender : s.SenderOk s.sender

theorem wf_init (client_ids : List UInt16) : Wf (init client_ids) where
  socket_iff := by simp [init, ListenerPc.live]
  sockfds_iff := by simp [init, ListenerPc.registered]
  sockfds_nodup := by simp [init]
  readers := by simp [init, ListenerPc.catching]
  cursor := by simp [init]
  mark := by simp [init]
  sender := trivial

namespace Wf

/-- The invariant reads neither the wire, the queue nor the crash flag. -/
theorem congr {s' : Server} (h : Wf s) (hlog : s'.log = s.log)
    (hreaders : s'.log_readers = s.log_readers) (hsender : s'.sender = s.sender)
    (hclient : s'.client = s.client) (hsocket : s'.socket = s.socket)
    (hlistener : s'.listener = s.listener) : Wf s' := by
  obtain ⟨h₁, h₂, h₃, h₄, h₅, h₆, h₇⟩ := h
  constructor
  · rwa [hsocket, hlistener]
  · rwa [hclient, hlistener]
  · rwa [hclient]
  · rwa [hreaders, hlistener]
  · rwa [hlog, hlistener]
  · rwa [hlog, hclient]
  · rw [hsender]
    exact h₇.congr hlog (by simp [hclient])

theorem transmit (h : Wf s) (fd : Fd) (frame : Frame) (ok : Bool) : Wf (s.transmit fd frame ok) :=
  h.congr (by simp) (by simp) (by simp) (by simp) (by simp) (by simp)

theorem jobqueue_enqueue (h : Wf s) (m : Message) : Wf (s.jobqueue_enqueue m) :=
  h.congr rfl rfl rfl rfl rfl rfl

theorem crash (h : Wf s) : Wf s.crash := h.congr rfl rfl rfl rfl rfl rfl

/-- A descriptor of a live thread is its alone. -/
theorem fd_inj (h : Wf s) {t t' : Tid} (hfd : (s.listener t').fd = (s.listener t).fd)
    (hlive : (s.listener t).pc.live) (hlive' : (s.listener t').pc.live) : t' = t := by
  have ht := (h.socket_iff _ t).mpr ⟨rfl, hlive⟩
  have ht' := (h.socket_iff _ t').mpr ⟨rfl, hlive'⟩
  rw [hfd, ht] at ht'
  exact (Option.some.inj ht').symm

/-- A thread that keeps its descriptor and neither starts nor ends, registers nor leaves. -/
theorem move (h : Wf s) {t : Tid} {l : Listener} {readers : List Tid}
    (hfd : l.fd = (s.listener t).fd) (hlive : l.pc.live = (s.listener t).pc.live)
    (hreg : ∀ c, l.client_id = c ∧ l.pc.registered ↔
      (s.listener t).client_id = c ∧ (s.listener t).pc.registered)
    (hcatch : l.pc.catching → t ∈ readers)
    (hreaders : ∀ t', t' ≠ t → t' ∈ s.log_readers → t' ∈ readers)
    (hcursor : ∀ i, l.pc = .catchUp (some i) → i < s.log.length) :
    Wf { s with listener := Function.update s.listener t l, log_readers := readers } := by
  refine ⟨?_, ?_, h.sockfds_nodup, ?_, ?_, h.mark, h.sender.congr rfl fun _ => rfl⟩
  · intro fd t'
    rw [h.socket_iff]
    by_cases ht : t' = t
    · subst ht; simp [hfd, hlive]
    · simp [ht]
  · intro c fd
    rw [h.sockfds_iff]
    refine exists_congr fun t' => ?_
    by_cases ht : t' = t
    · subst ht; simp [hfd, hreg c]
    · simp [ht]
  · intro t' ht'
    by_cases ht : t' = t
    · subst ht
      exact hcatch (by simpa using ht')
    · exact hreaders _ ht (h.readers _ (by simpa [ht] using ht'))
  · intro t' i ht'
    by_cases ht : t' = t
    · subst ht
      exact hcursor i (by simpa using ht')
    · exact h.cursor t' i (by simpa [ht] using ht')

/-- A jump between two program points that hold the same. -/
theorem goto (h : Wf s) {t : Tid} {old pc : ListenerPc} (hpc : (s.listener t).pc = old)
    (hlive : pc.live = old.live) (hreg : pc.registered = old.registered)
    (hcatch : pc.catching → old.catching)
    (hcursor : ∀ i, pc = .catchUp (some i) → i < s.log.length) : Wf (s.goto t pc) := by
  subst hpc
  exact h.move rfl hlive (by simp [hreg]) (fun hc => h.readers _ (hcatch hc)) (fun _ _ ht => ht)
    hcursor

theorem transmit_goto (h : Wf s) {t : Tid} {fd : Fd} {frame : Frame} {ok : Bool}
    {old pc : ListenerPc} (hpc : (s.listener t).pc = old)
    (hlive : pc.live = old.live) (hreg : pc.registered = old.registered)
    (hcatch : pc.catching → old.catching)
    (hcursor : ∀ i, pc = .catchUp (some i) → i < s.log.length) :
    Wf ((s.transmit fd frame ok).goto t pc) :=
  (h.transmit fd frame ok).goto (by rw [transmit_listener]; exact hpc) hlive hreg hcatch
    (by simpa using hcursor)

/-- A thread that leaves the read section. -/
theorem leave (h : Wf s) {t : Tid} (hcatch : (s.listener t).pc.catching) :
    Wf ((s.unlockLog t).goto t .register) := by
  have hpc : (s.listener t).pc.live ∧ (s.listener t).pc.registered = false := by
    revert hcatch
    cases (s.listener t).pc <;> simp [ListenerPc.catching, ListenerPc.live, ListenerPc.registered]
  exact h.move rfl hpc.1.symm (fun _ => by rw [hpc.2]; simp [ListenerPc.registered]) nofun
    (fun _ hne ht => (List.mem_erase_of_ne hne).mpr ht) nofun

theorem setMark (h : Wf s) {c : UInt16} {node : Option Nat}
    (hnode : ∀ p, node = some p → p < s.log.length) : Wf (s.setMark c node) := by
  refine ⟨h.socket_iff, ?_, ?_, h.readers, h.cursor, ?_, h.sender.congr rfl (by simp)⟩
  · simpa using h.sockfds_iff
  · simpa using h.sockfds_nodup
  · intro c' p hp
    rw [setMark_last_read] at hp
    split at hp
    · exact hnode p hp
    · exact h.mark _ _ hp

theorem accept (h : Wf s) {t : Tid} {fd : Fd} (hpc : (s.listener t).pc = .unborn)
    (hfd : s.socket fd = none) : Wf (s.next (.accept t fd)) := by
  have hfree : ∀ t', (s.listener t').pc.live → (s.listener t').fd ≠ fd := by
    rintro t' hlive rfl
    rw [(h.socket_iff _ t').mpr ⟨rfl, hlive⟩] at hfd
    cases hfd
  refine ⟨?_, ?_, h.sockfds_nodup, ?_, ?_, h.mark, h.sender.congr rfl fun _ => rfl⟩
  · intro fd' t'
    simp only [next, Function.update_apply]
    by_cases ht : t' = t
    · subst ht
      by_cases hfd' : fd' = fd
      · simp [hfd', ListenerPc.live]
      · simp only [if_neg hfd', if_true, h.socket_iff, hpc]
        simp [ListenerPc.live, Ne.symm hfd']
    · rw [if_neg ht]
      by_cases hfd' : fd' = fd
      · subst hfd'
        simp only [if_true, Option.some.injEq, Ne.symm ht, false_iff, not_and]
        exact fun hfd hlive => hfree _ hlive hfd
      · rw [if_neg hfd', h.socket_iff]
  · intro c fd'
    simp only [next]
    rw [h.sockfds_iff]
    refine exists_congr fun t' => ?_
    by_cases ht : t' = t
    · subst ht; simp [hpc, ListenerPc.registered]
    · simp [ht]
  · intro t' ht'
    simp only [next, Function.update_apply] at ht'
    split at ht'
    · cases ht'
    · exact h.readers _ ht'
  · intro t' i ht'
    simp only [next, Function.update_apply] at ht'
    split at ht'
    · cases ht'
    · exact h.cursor _ _ ht'

theorem firstUnread_lt (h : Wf s) {c : UInt16} {i : Nat} (hi : s.firstUnread c = some i) :
    i < s.log.length := by
  unfold firstUnread at hi
  split at hi
  · split at hi
    · cases hi
    · cases hi; omega
  · next hp => cases hi; exact h.mark _ _ hp

theorem nextNode_lt {i j : Nat} (h : s.nextNode i = some j) : j < s.log.length := by
  unfold nextNode at h
  split at h <;> cases h
  assumption

/-- Registering, or leaving: a thread and its descriptor in the list of its client change
together, while the sender is not in the list. -/
theorem setFds_goto (h : Wf s) {t : Tid} {pc : ListenerPc} {fds : List Fd}
    (hlock : s.sender.holdsClientsLock = false) (hlive : (s.listener t).pc.live)
    (hlive' : pc.live) (hcatch : pc.catching = false)
    (hfds : ∀ fd, fd ∈ fds ↔ fd ≠ (s.listener t).fd ∧
      fd ∈ (s.client (s.listener t).client_id).sockfds ∨ fd = (s.listener t).fd ∧ pc.registered)
    (hnodup : fds.Nodup) : Wf ((s.setFds (s.listener t).client_id fds).goto t pc) := by
  refine ⟨?_, ?_, ?_, ?_, ?_, ?_, ?_⟩
  · intro fd t'
    simp only [goto_socket, setFds_socket, goto_listener, setFds_listener, h.socket_iff]
    split
    · next ht => subst ht; simp [hlive, hlive']
    · rfl
  · intro c fd
    simp only [goto_client, setFds_sockfds, goto_listener, setFds_listener]
    have hother : ∀ t', t' ≠ t → (s.listener t').pc.registered →
        (s.listener t').fd ≠ (s.listener t).fd := fun t' ht hreg hfd =>
      ht (h.fd_inj hfd hlive (ListenerPc.live_of_registered hreg))
    by_cases hc : c = (s.listener t).client_id
    · rw [if_pos hc, hfds]
      constructor
      · rintro (⟨hne, hmem⟩ | ⟨rfl, hreg⟩)
        · obtain ⟨t', hfd, hid, hreg⟩ := (h.sockfds_iff _ _).mp hmem
          have ht : t' ≠ t := by rintro rfl; exact hne hfd.symm
          exact ⟨t', by simpa [ht, hc] using ⟨hfd, hid, hreg⟩⟩
        · exact ⟨t, by simpa [hc] using hreg⟩
      · rintro ⟨t', ht'⟩
        by_cases ht : t' = t
        · subst ht
          rw [if_pos rfl] at ht'
          exact .inr ⟨ht'.1.symm, ht'.2.2⟩
        · rw [if_neg ht] at ht'
          exact .inl ⟨ht'.1 ▸ hother t' ht ht'.2.2,
            (h.sockfds_iff _ _).mpr ⟨t', ht'.1, hc ▸ ht'.2.1, ht'.2.2⟩⟩
    · rw [if_neg hc, h.sockfds_iff]
      refine exists_congr fun t' => ?_
      by_cases ht : t' = t
      · subst ht; simp [Ne.symm hc]
      · simp [ht]
  · intro c
    simp only [goto_client, setFds_sockfds]
    split
    · exact hnodup
    · exact h.sockfds_nodup c
  · intro t' ht'
    simp only [goto_listener, setFds_listener] at ht'
    split at ht'
    · rw [hcatch] at ht'; cases ht'
    · exact h.readers t' ht'
  · intro t' i ht'
    simp only [goto_listener, setFds_listener] at ht'
    split at ht'
    · subst ht'; cases hcatch
    · exact h.cursor t' i ht'
  · intro c p hp
    simp only [goto_client, setFds_last_read] at hp
    exact h.mark c p hp
  · have hs := h.sender
    simp only [goto_sender, setFds_sender]
    revert hs hlock
    cases s.sender <;> simp [SenderOk, SenderPc.holdsClientsLock]

theorem add_connection (h : Wf s) {t : Tid} (hpc : (s.listener t).pc = .register)
    (hlock : s.sender.holdsClientsLock = false) :
    Wf (s.next (.client_hash_add_connection t)) := by
  have hlive : (s.listener t).pc.live := by rw [hpc]; rfl
  have hnew : (s.listener t).fd ∉ (s.client (s.listener t).client_id).sockfds := by
    intro hmem
    obtain ⟨t', hfd, -, hreg⟩ := (h.sockfds_iff _ _).mp hmem
    obtain rfl := h.fd_inj hfd hlive (ListenerPc.live_of_registered hreg)
    rw [hpc] at hreg
    cases hreg
  refine h.setFds_goto hlock hlive rfl rfl (fun fd => ?_) ?_
  · by_cases hfd : fd = (s.listener t).fd
    · simp [hfd, ListenerPc.registered]
    · simp [hfd]
  · exact List.nodup_append.mpr ⟨h.sockfds_nodup _, by simp,
      fun a ha b hb hab => hnew (by obtain rfl := List.mem_singleton.mp hb; exact hab ▸ ha)⟩

theorem remove_connection (h : Wf s) {t : Tid} (hpc : (s.listener t).pc = .out)
    (hlock : s.sender.holdsClientsLock = false) :
    Wf (s.next (.client_hash_remove_connection t)) := by
  have hlive : (s.listener t).pc.live := by rw [hpc]; rfl
  refine h.setFds_goto hlock hlive rfl rfl (fun fd => ?_) ((h.sockfds_nodup _).erase _)
  rw [(h.sockfds_nodup _).mem_erase_iff]
  simp [ListenerPc.registered]

theorem close (h : Wf s) {t : Tid} (hpc : (s.listener t).pc = .closing) :
    Wf (s.next (.close t)) := by
  have hlive : (s.listener t).pc.live := by rw [hpc]; rfl
  refine ⟨?_, ?_, h.sockfds_nodup, ?_, ?_, h.mark, h.sender.congr rfl fun _ => rfl⟩
  · intro fd t'
    simp only [next, Function.update_apply, goto_listener]
    by_cases ht : t' = t
    · subst ht
      by_cases hfd : fd = (s.listener t').fd
      · simp [hfd, ListenerPc.live]
      · simp [hfd, h.socket_iff, Ne.symm hfd]
    · rw [if_neg ht]
      by_cases hfd : fd = (s.listener t).fd
      · subst hfd
        simp only [if_true, reduceCtorEq, false_iff, not_and]
        exact fun hfd hlive' => ht (h.fd_inj hfd hlive hlive')
      · rw [if_neg hfd, h.socket_iff]
  · intro c fd
    simp only [next, goto_client, goto_listener]
    rw [h.sockfds_iff]
    refine exists_congr fun t' => ?_
    by_cases ht : t' = t
    · subst ht; simp [hpc, ListenerPc.registered]
    · simp [ht]
  · intro t' ht'
    simp only [next, goto_listener] at ht'
    split at ht'
    · cases ht'
    · exact h.readers _ ht'
  · intro t' i ht'
    simp only [next, goto_listener] at ht'
    split at ht'
    · cases ht'
    · exact h.cursor _ _ ht'

theorem setSender (h : Wf s) (pc : SenderPc) (hpc : s.SenderOk pc) : Wf { s with sender := pc } :=
  ⟨h.socket_iff, h.sockfds_iff, h.sockfds_nodup, h.readers, h.cursor, h.mark,
    hpc.congr rfl fun _ => rfl⟩

theorem message_log_append (h : Wf s) (m : Message) : Wf (s.next (.message_log_append m)) := by
  refine ⟨h.socket_iff, h.sockfds_iff, h.sockfds_nodup, h.readers, ?_, ?_, ?_⟩
  · intro t i ht
    have := h.cursor t i ht
    simp only [next, List.length_append, List.length_singleton]
    omega
  · intro c p hp
    have := h.mark c p hp
    simp only [next, List.length_append, List.length_singleton]
    omega
  · simp [next, SenderOk]

/-- The sender steps of the delivery pass. -/
theorem visit (h : Wf s) {m : Message} {last_node : Nat} {c : UInt16} {rest : List UInt16}
    (hpc : s.sender = .visit m last_node (c :: rest)) :
    Wf (s.next (.visit m last_node c rest)) := by
  have hs := h.sender
  rw [hpc] at hs
  simp only [next]
  split
  · exact h.setSender (.visit m last_node rest) hs
  · next hne =>
    split
    · next hc => exact h.setSender (.fanOut ..) ⟨hs, hc, hne, List.suffix_refl _⟩
    · have hmark : Wf (s.setMark c (some last_node)) :=
        h.setMark (by rintro _ ⟨⟩; have := hs.1; omega)
      exact hmark.setSender (.visit m last_node rest) hs

theorem send (h : Wf s) {m : Message} {last_node : Nat} {c : UInt16} {rest : List UInt16} {fd : Fd}
    {fds : List Fd} {ok : Bool} (hpc : s.sender = .fanOut m last_node c rest (fd :: fds)) :
    Wf (s.next (.send m last_node c rest fd fds ok)) := by
  obtain ⟨hnode, hc, hne, hfds⟩ : s.SenderOk (.fanOut m last_node c rest (fd :: fds)) :=
    hpc ▸ h.sender
  simp only [next]
  split
  · exact h.crash
  · refine (h.transmit fd (.entry last_node) ok).setSender (.fanOut ..) ?_
    have : s.SenderOk (.fanOut m last_node c rest fds) :=
      ⟨hnode, hc, hne, (List.suffix_cons _ _).trans hfds⟩
    exact this.congr (by simp) (by simp)

theorem step (h : Wf s) {e : Event} (he : s.enabled e) : Wf (s.next e) := by
  cases e with
  | accept t fd => exact h.accept he.1 he.2
  | handshake t m =>
    obtain ⟨hpc, -⟩ := he
    cases m with
    | none => exact h.goto hpc rfl rfl nofun nofun
    | some m =>
      simp only [next]
      split
      · exact h.goto hpc rfl rfl nofun nofun
      · exact h.move rfl (by rw [hpc]; rfl) (by simp [hpc, ListenerPc.registered]) nofun
          (fun _ _ ht => ht) nofun
  | client_hash_get t =>
    simp only [next]
    split <;> exact h.goto he.1 rfl rfl nofun nofun
  | refuse t received ok => exact h.transmit_goto he.1 rfl rfl nofun nofun
  | free_message t received =>
    simp only [next]
    split
    · exact h.goto he rfl rfl nofun nofun
    · exact h.crash
  | reply t ok => exact h.transmit_goto he.1 rfl rfl nofun nofun
  | announce t => exact (h.jobqueue_enqueue _).goto he rfl rfl nofun nofun
  | fast_forward t =>
    have hpc : (s.listener t).pc = .fastForward := he
    refine h.move rfl (by rw [hpc]; rfl) (by simp [hpc, ListenerPc.registered])
      (fun _ => List.mem_cons_self) (fun _ _ ht => List.mem_cons_of_mem _ ht) fun i hi => ?_
    exact h.firstUnread_lt (ListenerPc.catchUp.inj hi)
  | catchUp t cursor m ok =>
    obtain ⟨hpc, -, -⟩ := he
    have hnext : ∀ i, ListenerPc.catchUp (s.nextNode cursor) = .catchUp (some i) →
        i < s.log.length := fun i hi => nextNode_lt (ListenerPc.catchUp.inj hi)
    simp only [next]
    split
    · exact h.goto hpc rfl rfl id hnext
    split
    · exact h.crash
    split
    · exact h.transmit_goto hpc rfl rfl id hnext
    · exact (h.transmit _ _ _).leave (by rw [transmit_listener, hpc]; rfl)
  | storeMark t =>
    have hpc : (s.listener t).pc = .catchUp none := he
    refine (h.setMark fun p hp => ?_).leave (by rw [setMark_listener, hpc]; rfl)
    unfold tail at hp
    split at hp <;> cases hp
    omega
  | client_hash_add_connection t => exact h.add_connection he.1 he.2
  | recv_header t m =>
    obtain ⟨hpc, -⟩ := he
    cases m with
    | none => exact h.crash
    | some m =>
      simp only [next]
      split
      · exact (h.jobqueue_enqueue _).goto hpc rfl rfl nofun nofun
      split
      · exact h
      · exact h.goto hpc rfl rfl nofun nofun
  | recv_payload t m r =>
    obtain ⟨hpc, -⟩ := he
    cases r with
    | none => exact h.goto hpc rfl rfl nofun nofun
    | some m' =>
      simp only [next]
      split
      · exact h.crash
      · exact (h.jobqueue_enqueue _).goto hpc rfl rfl nofun nofun
  | client_hash_remove_connection t => exact h.remove_connection he.1 he.2
  | close t => exact h.close he
  | jobqueue_dequeue m rest =>
    exact (show Wf { s with sendqueue := rest } from h.congr rfl rfl rfl rfl rfl rfl).setSender
      (.append m) trivial
  | message_log_append m => exact h.message_log_append m
  | lockClients m last_node =>
    have hs : s.SenderOk (.lockClients m last_node) := he ▸ h.sender
    exact h.setSender (.visit m last_node s.clients) hs
  | visit m last_node c rest => exact h.visit he
  | send m last_node c rest fd fds ok => exact h.send he.1
  | mark m last_node c rest =>
    obtain ⟨hnode, -⟩ : s.SenderOk (.fanOut m last_node c rest []) := he ▸ h.sender
    have hmark : Wf (s.setMark c (some last_node)) :=
      h.setMark (by rintro _ ⟨⟩; have := hnode.1; omega)
    exact hmark.setSender (.visit m last_node rest) hnode
  | unlockClients m last_node => exact h.setSender (.dequeue) trivial

end Wf

theorem wf_of_reach {client_ids : List UInt16} {G : Server → Event → Prop}
    (h : (server client_ids).Reach G s) : Wf s :=
  h.invariant (wf_init client_ids) fun _ _ hwf he _ => hwf.step (And.right he)

end Server

end Cs2510.Chat
