import Cs2510.Chat.NoLostMessage
import Cs2510.Chat.ListenerStep

/-!
# What `fast_forward` sends

A listener that runs `fast_forward` without interference sends the foreign entries from the
client's mark on, the entry at the mark included, and moves the mark to the end of the log
(`caughtUp_of_alone`). The cursor is inclusive, so what is sent is the unread part exactly when
the mark is NULL or at an entry of the client's own (`unread_iff`).
-/

namespace Cs2510.Chat
namespace Server

/-- The positions of the foreign entries from `i` on. -/
def foreignFrom (s : Server) (c : UInt16) (i : Nat) : List Nat :=
  (List.range' i (s.log.length - i)).filter fun j => s.Foreign c j

/-- What client `c` has not read: the foreign entries strictly after its mark. -/
def unread (s : Server) (c : UInt16) : List Nat :=
  s.foreignFrom c (match (s.client c).last_read with | none => 0 | some p => p + 1)

/-- What `fast_forward` has still to send when its cursor is here. -/
def toSend (s : Server) (c : UInt16) : Option Nat → List Nat
  | none => []
  | some i => s.foreignFrom c i

/-- The mark of client `c` is NULL or at an entry of its own. -/
def OwnMark (s : Server) (c : UInt16) : Prop := ∀ p ∈ (s.client c).last_read, ¬s.Foreign c p

instance (s : Server) (c : UInt16) : Decidable (s.OwnMark c) :=
  inferInstanceAs (Decidable (∀ p ∈ (s.client c).last_read, _))

/-- From `s` to `s'`, listener `t` has sent the positions `sent` and moved the mark to the tail of
the log. -/
structure CaughtUpWith (s s' : Server) (t : Tid) (sent : List Nat) : Prop where
  entries : entries (s'.wire t) = entries (s.wire t) ++ sent.map (·, true)
  mark : (s'.client (s.listener t).client_id).last_read = s.tail

variable {s s₀ : Server} {e : Event} {t : Tid} {c : UInt16}

/-- The steps of `fast_forward` on listener `t` whose sends succeed. -/
def CatchingUp (t : Tid) (_ : Server) (e : Event) : Prop :=
  e = .fast_forward t ∨ (∃ cursor m, e = .catchUp t cursor m true) ∨ e = .storeMark t

/-- The states that listener `t` reaches from `s` in `fast_forward`, alone. -/
def Alone (client_ids : List UInt16) (s : Server) (t : Tid) : Server → Prop :=
  TransitionSystem.Reach { server client_ids with init := s } (CatchingUp t)

/-! ## The suffix to send -/

theorem foreignFrom_of_le {i : Nat} (h : s.log.length ≤ i) : s.foreignFrom c i = [] := by
  simp [foreignFrom, Nat.sub_eq_zero_of_le h]

theorem foreignFrom_eq {i : Nat} (h : i < s.log.length) : s.foreignFrom c i =
    if s.Foreign c i then i :: s.foreignFrom c (i + 1) else s.foreignFrom c (i + 1) := by
  obtain ⟨n, hn⟩ : ∃ n, s.log.length - i = n + 1 := ⟨s.log.length - i - 1, by omega⟩
  rw [foreignFrom, hn, List.range'_succ, List.filter_cons, foreignFrom,
    show s.log.length - (i + 1) = n by omega]
  simp

theorem toSend_nextNode (i : Nat) : s.toSend c (s.nextNode i) = s.foreignFrom c (i + 1) := by
  unfold nextNode
  split
  · rfl
  · exact (foreignFrom_of_le (by omega)).symm

theorem toSend_firstUnread : s.toSend c (s.firstUnread c) =
    s.foreignFrom c ((s.client c).last_read.getD 0) := by
  unfold firstUnread
  cases hmark : (s.client c).last_read with
  | some p => rfl
  | none =>
    by_cases hlog : s.log.length = 0
    · rw [if_pos hlog]
      exact (foreignFrom_of_le (by omega)).symm
    · rw [if_neg hlog]
      rfl

/-- Starting at the mark instead of behind it sends the unread part exactly when the entry at the
mark is not sent. -/
theorem unread_iff (h : ∀ p ∈ (s.client c).last_read, p < s.log.length) :
    s.toSend c (s.firstUnread c) = s.unread c ↔ s.OwnMark c := by
  rw [toSend_firstUnread, unread, OwnMark]
  cases hmark : (s.client c).last_read with
  | none => simp
  | some p =>
    have hp := h p hmark
    rw [Option.getD_some, foreignFrom_eq hp]
    by_cases hf : s.Foreign c p
    · rw [if_pos hf]
      refine iff_of_false (fun heq => ?_) (fun hown => hown p rfl hf)
      exact absurd (congrArg List.length heq) (by simp)
    · rw [if_neg hf]
      exact iff_of_true rfl (by rintro q ⟨⟩; exact hf)

/-! ## `fast_forward` alone -/

/-- What `fast_forward` relies on: the descriptor is the listener's, and the client's mark and the
cursor are nodes of the log. -/
structure Ready (s : Server) (t : Tid) : Prop where
  socket : s.socket (s.listener t).fd = some t
  mark : ∀ p ∈ (s.client (s.listener t).client_id).last_read, p < s.log.length
  cursor : ∀ i, (s.listener t).pc = .catchUp (some i) → i < s.log.length

theorem tail_lt {p : Nat} (h : p ∈ s.tail) : p < s.log.length := by
  unfold tail at h
  split at h <;> cases h
  omega

theorem nextNode_lt {i j : Nat} (h : s.nextNode i = some j) : j < s.log.length := by
  unfold nextNode at h
  split at h <;> cases h
  assumption

theorem Ready.goto (h : Ready s t) {pc : ListenerPc}
    (hpc : ∀ i, pc = .catchUp (some i) → i < s.log.length) : Ready (s.goto t pc) t where
  socket := by simpa [goto_listener] using h.socket
  mark := by simpa [goto_listener] using h.mark
  cursor := by simpa [goto_listener] using hpc

theorem Ready.fast_forward (h : Ready s t) : Ready (s.next (.fast_forward t)) t where
  socket := by simpa [next] using h.socket
  mark := by simpa [next] using h.mark
  cursor i hi := by
    have hfirst : s.firstUnread (s.listener t).client_id = some i := by simpa [next] using hi
    unfold firstUnread at hfirst
    split at hfirst
    · split at hfirst <;> cases hfirst
      exact Nat.pos_of_ne_zero ‹_›
    · next p hp =>
      cases hfirst
      exact h.mark _ hp

theorem Ready.catchUp (h : Ready s t) (cursor : Nat) (m : Message) :
    Ready (s.next (.catchUp t cursor m true)) t := by
  have hnext : ∀ i, ListenerPc.catchUp (s.nextNode cursor) = .catchUp (some i) →
      i < s.log.length :=
    fun i hi => nextNode_lt (ListenerPc.catchUp.inj hi)
  by_cases hown : m.id = (s.listener t).client_id
  · rw [next, if_pos hown]
    exact h.goto hnext
  by_cases hm : m.Marshals
  · rw [next, if_neg hown, if_neg (not_not.mpr hm), if_pos rfl]
    have htransmit : Ready (s.transmit (s.listener t).fd (.entry cursor) true) t :=
      ⟨by simpa using h.socket, by simpa using h.mark, by simpa using h.cursor⟩
    exact htransmit.goto (by simpa using hnext)
  · rw [next, if_neg hown, if_pos hm]
    exact ⟨h.socket, h.mark, h.cursor⟩

theorem Ready.storeMark (h : Ready s t) : Ready (s.next (.storeMark t)) t := by
  have hmarked : Ready ((s.setMark (s.listener t).client_id s.tail).unlockLog t) t := by
    refine ⟨h.socket, fun p hp => ?_, h.cursor⟩
    simp only [unlockLog_client, unlockLog_listener, setMark_listener, setMark_last_read,
      if_true] at hp
    exact tail_lt hp
  exact hmarked.goto (by rintro i ⟨⟩)

/-- How far listener `t` has got since it stood before `fast_forward` in `s₀`. -/
inductive Progress (s₀ : Server) (t : Tid) (s : Server) : Prop
  | before : s = s₀ → Progress s₀ t s
  | catching (cursor : Option Nat) : (s.listener t).pc = .catchUp cursor → s.log = s₀.log →
      s.client = s₀.client → (s.listener t).client_id = (s₀.listener t).client_id →
      entries (s.wire t) ++ (s.toSend (s₀.listener t).client_id cursor).map (·, true) =
        entries (s₀.wire t) ++ (s₀.toSend (s₀.listener t).client_id
          (s₀.firstUnread (s₀.listener t).client_id)).map (·, true) →
      Progress s₀ t s
  | done : (s.listener t).pc = .register →
      s₀.CaughtUpWith s t (s₀.toSend (s₀.listener t).client_id
        (s₀.firstUnread (s₀.listener t).client_id)) →
      Progress s₀ t s

theorem Progress.fast_forward : Progress s t (s.next (.fast_forward t)) := by
  refine .catching (s.firstUnread (s.listener t).client_id) ?_ rfl rfl ?_ rfl
  · simp [next]
  · simp [next]

theorem Progress.catchUp (hready : Ready s t) {cursor : Nat} {m : Message}
    (hp : Progress s₀ t s) (hpc₀ : (s₀.listener t).pc = .fastForward)
    (he : s.enabled (.catchUp t cursor m true)) (hm : s.Foreign (s.listener t).client_id cursor →
      m.Marshals) : Progress s₀ t (s.next (.catchUp t cursor m true)) := by
  obtain ⟨hpc, hget, -⟩ := id he
  cases hp with
  | before h =>
    rw [h, hpc₀] at hpc
    cases hpc
  | done hreg =>
    rw [hreg] at hpc
    cases hpc
  | catching cursor' hpc' hlog hclient hid hsent =>
    rw [hpc] at hpc'
    obtain rfl := (ListenerPc.catchUp.inj hpc').symm
    have hlt : cursor < s.log.length := (List.getElem?_eq_some_iff.mp hget).1
    have hstep := toSend_nextNode (s := s) (c := (s₀.listener t).client_id) cursor
    have hforeign : s.Foreign (s₀.listener t).client_id cursor ↔
        m.id ≠ (s.listener t).client_id := by
      rw [Foreign, hget, hid]
      simp
    rw [toSend, foreignFrom_eq hlt] at hsent
    by_cases hown : m.id = (s.listener t).client_id
    · have hnext : s.next (.catchUp t cursor m true) = s.goto t (.catchUp (s.nextNode cursor)) := by
        rw [next, if_pos hown]
      rw [if_neg (by rw [hforeign]; exact not_not.mpr hown)] at hsent
      rw [hnext]
      refine .catching (s.nextNode cursor) next_goto_pc hlog hclient ?_ ?_
      · rw [goto_listener, if_pos rfl]
        exact hid
      · rw [← hsent, ← hstep]
        rfl
    · have hmarshals := hm (by rw [hid]; exact hforeign.mpr hown)
      have hentries := entries_catchUp hready.socket hown hmarshals cursor true t
      have hnext : s.next (.catchUp t cursor m true) =
          (s.transmit (s.listener t).fd (.entry cursor) true).goto t
            (.catchUp (s.nextNode cursor)) := by
        rw [next, if_neg hown, if_neg (not_not.mpr hmarshals), if_pos rfl]
      rw [if_pos rfl] at hentries
      rw [if_pos (hforeign.mpr hown)] at hsent
      rw [hnext] at hentries ⊢
      refine .catching (s.nextNode cursor) next_goto_pc ((transmit_log ..).trans hlog)
        ((transmit_client ..).trans hclient) ?_ ?_
      · rw [goto_listener, if_pos rfl, transmit_listener]
        exact hid
      · have hsame : ∀ c i, ((s.transmit (s.listener t).fd (.entry cursor) true).goto t
            (.catchUp (s.nextNode cursor))).toSend c i = s.toSend c i := by
          intro c i
          cases i <;> simp [toSend, foreignFrom, Foreign]
        rw [hentries, hsame, hstep, ← hsent]
        simp

theorem Progress.storeMark (hp : Progress s₀ t s) (hpc₀ : (s₀.listener t).pc = .fastForward)
    (he : s.enabled (.storeMark t)) : Progress s₀ t (s.next (.storeMark t)) := by
  have hpc : (s.listener t).pc = .catchUp none := he
  cases hp with
  | before h =>
    rw [h, hpc₀] at hpc
    cases hpc
  | done hreg =>
    rw [hreg] at hpc
    cases hpc
  | catching cursor' hpc' hlog hclient hid hsent =>
    rw [hpc] at hpc'
    obtain rfl := (ListenerPc.catchUp.inj hpc').symm
    refine .done (by rw [next, next_goto_pc]) ⟨?_, ?_⟩
    · rw [← hsent]
      exact (List.append_nil _).symm
    · simp [next, setMark_last_read, hid, tail, hlog]

/-- The entries that `fast_forward` would send can be marshalled. -/
def Sendable (s : Server) (c : UInt16) : Prop :=
  ∀ (i : Nat) (m : Message), s.log[i]? = some m → m.id ≠ c → m.Marshals

theorem Progress.log (hp : Progress s₀ t s) (hpc : (s.listener t).pc ≠ .register) :
    s.log = s₀.log := by
  cases hp with
  | before h => rw [h]
  | catching _ _ hlog => exact hlog
  | done hreg => exact absurd hreg hpc

theorem Progress.client_id (hp : Progress s₀ t s) (hpc : (s.listener t).pc ≠ .register) :
    (s.listener t).client_id = (s₀.listener t).client_id := by
  cases hp with
  | before h => rw [h]
  | catching _ _ _ _ hid => exact hid
  | done hreg => exact absurd hreg hpc

theorem Progress.marshals (hp : Progress s₀ t s) (hm : s₀.Sendable (s₀.listener t).client_id)
    {cursor : Nat} {m : Message} {ok : Bool} (he : s.enabled (.catchUp t cursor m ok))
    (hown : m.id ≠ (s.listener t).client_id) : m.Marshals := by
  have hreg : (s.listener t).pc ≠ .register := by rw [he.1]; rintro ⟨⟩
  rw [hp.client_id hreg] at hown
  exact hm cursor m (by rw [← hp.log hreg]; exact he.2.1) hown

theorem crashed_catchUp {cursor : Nat} {m : Message}
    (hm : m.id ≠ (s.listener t).client_id → m.Marshals) :
    (s.next (.catchUp t cursor m true)).crashed = s.crashed := by
  by_cases hown : m.id = (s.listener t).client_id
  · rw [next, if_pos hown]
    rfl
  · rw [next, if_neg hown, if_neg (not_not.mpr (hm hown)), if_pos rfl]
    unfold transmit
    split <;> rfl

theorem progress_of_alone {client_ids : List UInt16} (hready : Ready s₀ t)
    (hcrashed : s₀.crashed = false) (hpc₀ : (s₀.listener t).pc = .fastForward)
    (hm : s₀.Sendable (s₀.listener t).client_id) (hs : Alone client_ids s₀ t s) :
    Ready s t ∧ s.crashed = false ∧ Progress s₀ t s := by
  refine hs.invariant (I := fun s => Ready s t ∧ s.crashed = false ∧ Progress s₀ t s)
    ⟨hready, hcrashed, .before rfl⟩ ?_
  rintro s e ⟨hready, hcrashed, hp⟩ he hg
  replace he : s.enabled e := And.right he
  obtain rfl | ⟨cursor, m, rfl⟩ | rfl := hg
  · have hpc : (s.listener t).pc = .fastForward := he
    refine ⟨hready.fast_forward, ?_⟩
    cases hp with
    | before h => subst h; exact ⟨hcrashed, .fast_forward⟩
    | catching _ hpc' => rw [hpc] at hpc'; cases hpc'
    | done hpc' => rw [hpc] at hpc'; cases hpc'
  · refine ⟨hready.catchUp cursor m, (crashed_catchUp (hp.marshals hm he)).trans hcrashed,
      hp.catchUp hready hpc₀ he ?_⟩
    rintro ⟨m', hget, hid⟩
    rw [he.2.1] at hget
    cases hget
    exact hp.marshals hm he hid
  · exact ⟨hready.storeMark, hcrashed, hp.storeMark hpc₀ he⟩

theorem alone_storeMark {client_ids : List UInt16} (hs : Alone client_ids s₀ t s)
    (hcrashed : s.crashed = false) (hpc : (s.listener t).pc = .catchUp none) :
    ∃ s', Alone client_ids s₀ t s' ∧ (s'.listener t).pc = .register := by
  have he : s.enabled (.storeMark t) := hpc
  exact ⟨_, hs.step ⟨hcrashed, he⟩ (.inr (.inr rfl)), next_goto_pc⟩

/-- A listener that is alone gets to the end of its catch-up. -/
theorem exists_register {client_ids : List UInt16} (hready : Ready s₀ t)
    (hcrashed : s₀.crashed = false) (hpc₀ : (s₀.listener t).pc = .fastForward)
    (hm : s₀.Sendable (s₀.listener t).client_id) (n : Nat) {cursor : Option Nat}
    (hs : Alone client_ids s₀ t s) (hpc : (s.listener t).pc = .catchUp cursor)
    (hn : ∀ i ∈ cursor, s.log.length - i ≤ n) :
    ∃ s', Alone client_ids s₀ t s' ∧ (s'.listener t).pc = .register := by
  induction n generalizing s cursor with
  | zero =>
    obtain ⟨hready', hcrashed', -⟩ := progress_of_alone hready hcrashed hpc₀ hm hs
    cases cursor with
    | none => exact alone_storeMark hs hcrashed' hpc
    | some i =>
      have := hready'.cursor i hpc
      have := hn i rfl
      omega
  | succ n ih =>
    obtain ⟨hready', hcrashed', hp⟩ := progress_of_alone hready hcrashed hpc₀ hm hs
    cases cursor with
    | none => exact alone_storeMark hs hcrashed' hpc
    | some i =>
      have hlt := hready'.cursor i hpc
      have he : s.enabled (.catchUp t i (s.log[i]) true) :=
        ⟨hpc, List.getElem?_eq_getElem hlt, fun _ => by rw [hready'.socket]; rfl⟩
      have hpc' : ((s.next (.catchUp t i (s.log[i]) true)).listener t).pc =
          .catchUp (s.nextNode i) := by
        by_cases hown : s.log[i].id = (s.listener t).client_id
        · rw [next, if_pos hown, next_goto_pc]
        · rw [next, if_neg hown, if_neg (not_not.mpr (hp.marshals hm he hown)), if_pos rfl,
            next_goto_pc]
      refine ih (hs.step ⟨hcrashed', he⟩ (.inr (.inl ⟨i, _, rfl⟩))) hpc' fun j hj => ?_
      have hlog : (s.next (.catchUp t i (s.log[i]) true)).log = s.log := by
        rw [log_next]
        exact List.append_nil _
      unfold nextNode at hj
      split at hj
      · cases hj
        change (s.next (.catchUp t i (s.log[i]) true)).log.length - (i + 1) ≤ n
        have := hn i rfl
        rw [hlog]
        omega
      · cases hj

/-- A listener that gets to `fast_forward` finds what this relies on. -/
theorem ready_of_reach {client_ids : List UInt16} (hr : (server client_ids).Reachable s)
    (hpc : (s.listener t).pc = .fastForward) : Ready s t where
  socket := (wf_of_reach hr).socket (by rw [hpc]; rfl)
  mark := (wf_of_reach hr).mark _
  cursor := by rw [hpc]; rintro i ⟨⟩

/-- **What `fast_forward` sends.** Alone, with every send succeeding, it comes to its end, and it
has then sent the unread part and moved the mark to the tail exactly if it started from a mark that
is NULL or at an entry of the client's own. -/
theorem fast_forward_iff {client_ids : List UInt16}
    (hsocket : s.socket (s.listener t).fd = some t)
    (hmark : ∀ p ∈ (s.client (s.listener t).client_id).last_read, p < s.log.length)
    (hcrashed : s.crashed = false) (hpc : (s.listener t).pc = .fastForward)
    (hm : s.Sendable (s.listener t).client_id) :
    (∃ s', Alone client_ids s t s' ∧ (s'.listener t).pc = .register) ∧
    ∀ s', Alone client_ids s t s' → (s'.listener t).pc = .register →
      (s.CaughtUpWith s' t (s.unread (s.listener t).client_id) ↔
        s.OwnMark (s.listener t).client_id) := by
  have hready : Ready s t := ⟨hsocket, hmark, by rw [hpc]; rintro i ⟨⟩⟩
  constructor
  · have he : s.enabled (.fast_forward t) := hpc
    have hpc' : ((s.next (.fast_forward t)).listener t).pc =
        .catchUp (s.firstUnread (s.listener t).client_id) := by simp [next]
    exact exists_register hready hcrashed hpc hm _ (.step .init ⟨hcrashed, he⟩ (.inl rfl)) hpc'
      fun i _ => Nat.sub_le _ i
  · intro s' hs' hpc'
    obtain ⟨-, -, hp⟩ := progress_of_alone hready hcrashed hpc hm hs'
    cases hp with
    | before h =>
      rw [h, hpc] at hpc'
      cases hpc'
    | catching _ hcatch =>
      rw [hcatch] at hpc'
      cases hpc'
    | done _ hsent =>
      rw [← unread_iff hmark]
      constructor
      · intro hunread
        have heq := List.append_cancel_left (hsent.entries.symm.trans hunread.entries)
        exact List.map_injective_iff.mpr (fun _ _ h => congrArg Prod.fst h) heq
      · intro heq
        rwa [← heq]

end Server

end Cs2510.Chat
