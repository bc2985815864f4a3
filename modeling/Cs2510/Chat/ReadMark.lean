import Cs2510.Chat.Descriptors
import Cs2510.Chat.Reconnect

/-!
# Failed sends and the mark

A client has missed an entry of another author if sending it was tried, or given up together with
an earlier one by `fast_forward`, and never succeeded. The mark should stay before such an entry, so
that a later catch-up sends it. The delivery pass sets the mark to the entry delivered whether or
not a send has succeeded, and `listener` registers a connection whose `fast_forward` has failed, so
that later passes move the mark on. `read_mark` says which failures the mark outlives (`InTime`):
those of a pass in which another send of the entry to the client succeeds, and those that end a
`fast_forward`, if the mark has not moved since it began and no pass moves it before a
`fast_forward` of the client has run to its end.
-/

namespace Cs2510.Chat
open TransitionSystem

namespace Server

/-- A `send_message` of the entry at `i` to client `c` has failed, or a `fast_forward` of the client
has stopped at or before it. -/
def Tried (h : History) (s : Server) (c : UInt16) (i : Nat) : Prop :=
  (∃ t, (s.listener t).client_id = c ∧ (i, false) ∈ entries (s.wire t)) ∨
  ∃ (s' : Server) (t : Tid) (j : Nat) (m : Message), (s', .catchUp t j m false) ∈ h ∧
    (s'.listener t).client_id = c ∧ m.id ≠ c ∧ m.Marshals ∧ j ≤ i ∧ i < s'.log.length

/-- It has been tried, and no attempt has returned 0. -/
structure Missed (h : History) (s : Server) (c : UInt16) (i : Nat) : Prop where
  foreign : s.Foreign c i
  tried : s.Tried h c i
  unsent : ¬s.SentTo c i

/-- The mark is before every entry that the client has missed, so the next catch-up sends it. -/
def MarkKept (h : History) (s : Server) : Prop :=
  ∀ c i, s.Missed h c i →
    (∀ p ∈ (s.client c).last_read, p < i) ∧ i ∈ s.toSend c (s.firstUnread c)

/-- A `fast_forward` of client `c` stops at a failing send, at or before an entry that the client
has not been sent. -/
def GivesUp (s : Server) (c : UInt16) : Event → Prop
  | .catchUp t cursor m false => (s.listener t).client_id = c ∧ m.id ≠ c ∧ m.Marshals ∧
      ∃ i ≥ cursor, s.Foreign c i ∧ ¬s.SentTo c i
  | _ => False

/-- A `fast_forward` of client `c` has given up, and none has run to its end since. -/
def GaveUp (h : History) (c : UInt16) : Prop :=
  ∃ h₁ x h₂, h = h₁ ++ x :: h₂ ∧ x.1.GivesUp c x.2 ∧
    ∀ y ∈ h₂, ∀ t, y.2 = .storeMark t → (y.1.listener t).client_id ≠ c

/-- Which failures come in time for the mark. A delivery pass moves the mark of a client only if a
send of the entry to it has succeeded, and no `fast_forward` of it has given up before. A
`fast_forward` gives up only while the mark is not behind the entry that it stops at. -/
def InTime (h : History) (s : Server) : Event → Prop
  | .visit m _ c _ => m.id = c → (s.client c).sockfds ≠ [] → ¬GaveUp h c
  | .mark _ last_node c _ => ¬GaveUp h c ∧ s.SentTo c last_node
  | .catchUp t cursor m false =>
    s.GivesUp (s.listener t).client_id (.catchUp t cursor m false) →
      ∀ p ∈ (s.client (s.listener t).client_id).last_read, p ≤ cursor
  | _ => True

/-- A delivery pass moves no mark over a missed entry, the delivered one included, and a
`fast_forward` gives up on no unsent entry that the mark has already passed. -/
def NoSkip (h : History) (s : Server) : Event → Prop
  | .visit m last_node c _ => m.id = c → (s.client c).sockfds ≠ [] →
      ∀ i ≤ last_node, ¬s.Missed h c i
  | .mark _ last_node c _ => ∀ i ≤ last_node, ¬s.Missed h c i
  | .catchUp t cursor m false => m.id ≠ (s.listener t).client_id → m.Marshals →
      ∀ i ≥ cursor, s.Foreign (s.listener t).client_id i → ¬s.SentTo (s.listener t).client_id i →
        ∀ p ∈ (s.client (s.listener t).client_id).last_read, p < i
  | _ => True

variable {h : History} {s : Server} {e : Event} {c : UInt16} {i : Nat}

theorem mem_foreignFrom {j : Nat} : i ∈ s.foreignFrom c j ↔ j ≤ i ∧ s.Foreign c i := by
  have hlt : s.Foreign c i → i < s.log.length := Foreign.lt_length
  simp only [foreignFrom, List.mem_filter, List.mem_range'_1, decide_eq_true_eq]
  constructor
  · rintro ⟨⟨hle, -⟩, hf⟩
    exact ⟨hle, hf⟩
  · rintro ⟨hle, hf⟩
    have := hlt hf
    exact ⟨⟨hle, by omega⟩, hf⟩

/-- A foreign entry behind the mark is among those the next catch-up sends. -/
theorem mem_toSend (hf : s.Foreign c i) (hmark : ∀ p ∈ (s.client c).last_read, p < i) :
    i ∈ s.toSend c (s.firstUnread c) := by
  rw [toSend_firstUnread, mem_foreignFrom]
  refine ⟨?_, hf⟩
  cases hp : (s.client c).last_read with
  | none => exact Nat.zero_le i
  | some p => exact Nat.le_of_lt (hmark p hp)

/-! ## What a step tries -/

theorem Tried.mono (ht : s.Tried h c i) (hwf : Wf s) (ho : Ordered s) (he : s.enabled e) :
    (s.next e).Tried (h ++ [(s, e)]) c i := by
  obtain ⟨t, hid, hfailed⟩ | ⟨s', t, j, m, hmem, hrest⟩ := ht
  · obtain ⟨hfailed', hid'⟩ := entries_mono hwf ho he hfailed
    exact .inl ⟨t, hid'.trans hid, hfailed'⟩
  · exact .inr ⟨s', t, j, m, List.mem_append_left _ hmem, hrest⟩

/-- The two kinds of steps that try an entry anew without success. -/
inductive TriedBy (s : Server) (c : UInt16) (i : Nat) : Event → Prop
  | catchUp {t : Tid} {cursor : Nat} {m : Message} : (s.listener t).client_id = c → m.id ≠ c →
      m.Marshals → cursor ≤ i → i < s.log.length → TriedBy s c i (.catchUp t cursor m false)
  | send (m : Message) (rest : List UInt16) (fd : Fd) (fds : List Fd) :
      TriedBy s c i (.send m i c rest fd fds false)

theorem tried_next (hwf : Wf s) (ho : Ordered s) (he : s.enabled e)
    (ht : (s.next e).Tried (h ++ [(s, e)]) c i) : s.Tried h c i ∨ s.TriedBy c i e := by
  obtain ⟨t, rfl, hfailed⟩ | ⟨s', t, j, m, hmem, hid, hforeign, hm, hle, hlt⟩ := ht
  · have hold : (i, false) ∈ entries (s.wire t) →
        s.Tried h ((s.next e).listener t).client_id i := fun hx =>
      .inl ⟨t, (entries_mono hwf ho he hx).2.symm, hx⟩
    rcases entries_next hwf he t with hw | ⟨cursor, m, ok, rfl, hforeign, -, hw⟩ |
      ⟨m, q, rest, fd, fds, ok, rfl, -, -, hreg, hw⟩
    · rw [hw] at hfailed
      exact .inl (hold hfailed)
    · have hid := (listener_next he t).client_id (by rw [he.1]; nofun)
      rw [hw] at hfailed
      obtain hx | hx := List.mem_append.mp hfailed
      · exact .inl (hold hx)
      · cases List.mem_singleton.mp hx
        have hm : m.Marshals := by
          by_contra hm
          rw [next, if_neg hforeign, if_pos hm, crash] at hw
          simp at hw
        rw [hid]
        exact .inr (.catchUp rfl hforeign hm (Nat.le_refl _)
          (List.getElem?_eq_some_iff.mp he.2.1).1)
    · have hid : ((s.next (.send m q (s.listener t).client_id rest fd fds ok)).listener t).client_id
          = (s.listener t).client_id := by rw [listener_next_of_bySender rfl]
      rw [hw] at hfailed
      obtain hx | hx := List.mem_append.mp hfailed
      · exact .inl (hold hx)
      · cases List.mem_singleton.mp hx
        rw [hid]
        exact .inr (.send m rest fd fds)
  · obtain hmem | hmem := List.mem_append.mp hmem
    · exact .inl (.inr ⟨s', t, j, m, hmem, hid, hforeign, hm, hle, hlt⟩)
    · cases List.mem_singleton.mp hmem
      exact .inr (.catchUp hid hforeign hm hle hlt)

/-! ## The invariant -/

/-- What keeps the mark before the missed entries, while the failures come in time. -/
structure Keeping (h : History) (s : Server) : Prop where
  kept : ∀ c i, s.Missed h c i → ∀ p ∈ (s.client c).last_read, p < i
  passed : ∀ t i, (s.listener t).pc.Past i → s.Foreign (s.listener t).client_id i →
    (∀ p ∈ (s.client (s.listener t).client_id).last_read, p < i) →
      s.SentTo (s.listener t).client_id i
  at_mark : ∀ c, ∀ p ∈ (s.client c).last_read, s.Foreign c p → s.SentTo c p
  fanned : ∀ m q c rest fds, s.sender = .fanOut m q c rest fds →
    fds = (s.client c).sockfds ∨ s.SentTo c q ∨ s.Tried h c q
  givenUp : ∀ c i, s.Missed h c i →
    GaveUp h c ∨ ∃ m rest fds, s.sender = .fanOut m i c rest fds
  older : ∀ x ∈ h, x.1.log.length ≤ s.log.length

theorem keeping_init (client_ids : List UInt16) : Keeping [] (init client_ids) where
  kept := by simp [init]
  passed := by simp [init, ListenerPc.Past]
  at_mark := by simp [init]
  fanned := by simp [init]
  givenUp := by
    rintro c i ⟨⟨m, hm, -⟩, -, -⟩
    cases hm
  older := by simp

/-- Failures that come in time skip no missed entry. -/
theorem Keeping.noSkip (hk : Keeping h s) (he : s.enabled e) (hin : s.InTime h e) :
    s.NoSkip h e := by
  cases e with
  | visit m q c rest =>
    intro hid hfds i _ hmiss
    obtain hgave | ⟨_, _, _, hpc⟩ := hk.givenUp c i hmiss
    · exact hin hid hfds hgave
    · rw [show s.sender = .visit m q (c :: rest) from he] at hpc
      cases hpc
  | mark m q c rest =>
    obtain ⟨hnot, hsent⟩ := hin
    intro i _ hmiss
    obtain hgave | ⟨_, _, _, hpc⟩ := hk.givenUp c i hmiss
    · exact hnot hgave
    · rw [show s.sender = .fanOut m q c rest [] from he] at hpc
      cases hpc
      exact hmiss.unsent hsent
  | catchUp t cursor m ok =>
    cases ok with
    | true => trivial
    | false =>
      intro hforeign hm i hge hf hunsent p hp
      have hle := hin ⟨rfl, hforeign, hm, i, hge, hf, hunsent⟩ p hp
      refine Nat.lt_of_le_of_ne (Nat.le_trans hle hge) ?_
      rintro rfl
      exact hunsent (hk.at_mark _ p hp hf)
  | _ => trivial

theorem Keeping.lt_length (hk : Keeping h s) (ho : Ordered s) (ht : s.Tried h c i) :
    i < s.log.length := by
  obtain ⟨t, -, hfailed⟩ | ⟨s', t, j, m, hmem, -, -, -, -, hlt⟩ := ht
  · exact ho.lt_length (List.mem_map.mpr ⟨_, hfailed, rfl⟩)
  · exact Nat.lt_of_lt_of_le hlt (hk.older _ hmem)

theorem Keeping.passed_next (hk : Keeping h s) (hwf : Wf s) (ho : Ordered s) (he : s.enabled e)
    {t : Tid} (hpast : ((s.next e).listener t).pc.Past i)
    (hf : (s.next e).Foreign ((s.next e).listener t).client_id i)
    (hmark : ∀ p ∈ ((s.next e).client ((s.next e).listener t).client_id).last_read, p < i) :
    (s.next e).SentTo ((s.next e).listener t).client_id i := by
  have hext := listener_next he t
  have hlog := log_next_of_past hwf he hpast
  have hlt : i < s.log.length := hlog ▸ hf.lt_length
  -- the mark was before the entry already
  have hmark' : ∀ {c'}, (∀ p ∈ ((s.next e).client c').last_read, p < i) →
      ∀ p ∈ (s.client c').last_read, p < i := by
    intro c' hnew p hp
    by_contra hle
    obtain ⟨p', hp', hle'⟩ := mark_next hwf he hlt ⟨p, hp, Nat.le_of_not_lt hle⟩
    have := hnew p' hp'
    omega
  rcases hext.catching (ListenerPc.catching_of_past hpast) with hsame | rfl | ⟨cursor, m, ok, rfl⟩
  · rw [hsame] at hpast hf hmark ⊢
    exact (hk.passed t i hpast (hf.of_next hlt) (hmark' hmark)).next hwf ho he
  · have hpc : (s.listener t).pc = .fastForward := he
    rw [hext.client_id (by rw [hpc]; nofun)] at hf hmark ⊢
    obtain ⟨p, hp, hle⟩ := past_fast_forward hpast (hf.of_next hlt)
    have := hmark' hmark p hp
    omega
  · rw [hext.client_id (by rw [he.1]; nofun)] at hf hmark ⊢
    refine sentTo_of_catchUp hwf ho he (fun hi => ?_) hpast (hf.of_next hlt)
    exact hk.passed t i (by rw [he.1]; exact hi) (hf.of_next hlt) (hmark' hmark)

/-- Where the mark is moved to has been sent, if it is another client's entry. -/
theorem Keeping.at_mark_next (hk : Keeping h s) (hwf : Wf s) (ho : Ordered s) (he : s.enabled e)
    (hskip : s.NoSkip h e) {p : Nat} (hp : p ∈ ((s.next e).client c).last_read)
    (hf : (s.next e).Foreign c p) : (s.next e).SentTo c p := by
  rcases last_read_next s e c with hsame | ⟨t, rfl, rfl, htail⟩ | ⟨m, q, rest, hby, hq⟩
  · rw [hsame] at hp
    exact (hk.at_mark c p hp (hf.of_next (hwf.mark c p hp))).next hwf ho he
  · rw [htail] at hp
    have hlast : p + 1 = s.log.length := by
      unfold tail at hp
      split at hp <;> cases hp
      omega
    replace hf := hf.of_next (by omega)
    have hpc : (s.listener t).pc = .catchUp none := he
    by_cases hold : ∀ p' ∈ (s.client (s.listener t).client_id).last_read, p' < p
    · exact (hk.passed t p (by rw [hpc]; trivial) hf hold).next hwf ho he
    · push Not at hold
      obtain ⟨p', hp', hle⟩ := hold
      have hlt := hwf.mark _ p' hp'
      obtain rfl : p' = p := by omega
      exact (hk.at_mark _ p' hp' hf).next hwf ho he
  · rw [hq] at hp
    obtain rfl : q = p := Option.some.inj hp
    obtain ⟨rfl, hfds, rfl⟩ | rfl := hby
    · -- the client's own entry
      obtain ⟨hlast, hm⟩ : s.SenderOk (.visit m q (m.id :: rest)) := he ▸ hwf.sender
      obtain ⟨m', hm', hid⟩ := hf.of_next (by omega)
      rw [hm] at hm'
      cases hm'
      exact absurd rfl hid
    · obtain ⟨⟨hlast, -⟩, -, hfds, -⟩ : s.SenderOk (.fanOut m q c rest []) := he ▸ hwf.sender
      replace hf := hf.of_next (by omega)
      obtain hall | hsent | htried := hk.fanned m q c rest [] he
      · exact absurd hall.symm hfds
      · exact hsent.next hwf ho he
      · by_cases hsent : s.SentTo c q
        · exact hsent.next hwf ho he
        · exact absurd ⟨hf, htried, hsent⟩ (hskip q (Nat.le_refl q))

/-- A step that tries an entry without success leaves it after the mark. -/
theorem Keeping.lt_of_triedBy (hk : Keeping h s) (hwf : Wf s) (hskip : s.NoSkip h e)
    (he : s.enabled e) (hby : s.TriedBy c i e) (hf : s.Foreign c i) (hunsent : ¬s.SentTo c i)
    {p : Nat} (hp : p ∈ (s.client c).last_read) : p < i := by
  cases hby with
  | catchUp hid hforeign hm hle hlt =>
    subst hid
    exact hskip hforeign hm i hle hf hunsent p hp
  | send m rest fd fds =>
    obtain ⟨⟨hlast, -⟩, -⟩ : s.SenderOk (.fanOut m i c rest (fd :: fds)) := he.1 ▸ hwf.sender
    have hlt := hwf.mark c p hp
    by_contra hle
    obtain rfl : p = i := by omega
    exact hunsent (hk.at_mark c p hp hf)

theorem Keeping.kept_next (hk : Keeping h s) (hwf : Wf s) (ho : Ordered s) (he : s.enabled e)
    (hskip : s.NoSkip h e) (hmiss : (s.next e).Missed (h ++ [(s, e)]) c i) {p : Nat}
    (hp : p ∈ ((s.next e).client c).last_read) : p < i := by
  have hunsent : ¬s.SentTo c i := fun hsent => hmiss.unsent (hsent.next hwf ho he)
  have htried := tried_next hwf ho he hmiss.tried
  have hlt : i < s.log.length := by
    obtain hold | hby := htried
    · exact hk.lt_length ho hold
    · cases hby with
      | catchUp _ _ _ _ hlt => exact hlt
      | send m rest fd fds =>
        obtain ⟨⟨hlast, -⟩, -⟩ : s.SenderOk (.fanOut m i c rest (fd :: fds)) := he.1 ▸ hwf.sender
        omega
  have hf := hmiss.foreign.of_next hlt
  rcases last_read_next s e c with hsame | ⟨t, rfl, rfl, htail⟩ | ⟨m, q, rest, hby, hq⟩
  · rw [hsame] at hp
    obtain hold | hby := htried
    · exact hk.kept c i ⟨hf, hold, hunsent⟩ p hp
    · exact hk.lt_of_triedBy hwf hskip he hby hf hunsent hp
  · -- a catch-up that is over has sent what was missed
    have hpc : (s.listener t).pc = .catchUp none := he
    obtain hold | hby := htried
    · exact absurd (hk.passed t i (by rw [hpc]; trivial) hf (hk.kept _ i ⟨hf, hold, hunsent⟩))
        hunsent
    · cases hby
  · rw [hq] at hp
    obtain rfl : q = p := Option.some.inj hp
    by_contra hle
    have hold : s.Tried h c i := by
      refine htried.resolve_right fun hby' => ?_
      obtain ⟨rfl, -⟩ | rfl := hby <;> cases hby'
    have hmissed : s.Missed h c i := ⟨hf, hold, hunsent⟩
    obtain ⟨rfl, hfds, hid⟩ | rfl := hby
    · exact hskip hid hfds i (by omega) hmissed
    · exact hskip i (by omega) hmissed

theorem Keeping.fanned_next (hk : Keeping h s) (hwf : Wf s) (ho : Ordered s) (he : s.enabled e)
    {m : Message} {q : Nat} {rest : List UInt16} {fds : List Fd}
    (hpc : (s.next e).sender = .fanOut m q c rest fds) :
    fds = ((s.next e).client c).sockfds ∨ (s.next e).SentTo c q ∨
      (s.next e).Tried (h ++ [(s, e)]) c q := by
  by_cases hsame : (s.next e).sender = s.sender
  · rw [hsame] at hpc
    have hlock : s.sender.holdsClientsLock = true := by rw [hpc]; rfl
    rw [(sockfds_next he c).resolve_right (by rw [hlock]; nofun)]
    exact (hk.fanned m q c rest fds hpc).imp_right (Or.imp (·.next hwf ho he) (·.mono hwf ho he))
  cases e with
  | visit m' q' c' rest' =>
    simp only [next] at hpc
    split_ifs at hpc with hfds hid
    cases hpc
    left
    simp [next, hfds, hid]
  | send m' q' c' rest' fd fds' ok =>
    by_cases hm : m'.Marshals
    swap
    · exact absurd (by simp [next, hm, crash]) hsame
    obtain ⟨t, -, hid, hreg, hentries⟩ := entries_send hwf he hm
    rw [next, if_neg (not_not.mpr hm)] at hpc
    cases hpc
    have hid' : ((s.next (.send m q c rest fd fds ok)).listener t).client_id = c := by
      rw [listener_next_of_bySender rfl, hid]
    have hlast : (q, ok) ∈ entries ((s.next (.send m q c rest fd fds ok)).wire t) := by
      rw [hentries, if_pos rfl]
      exact List.mem_append_right _ List.mem_cons_self
    right
    cases ok with
    | true => exact .inl ⟨t, hid', hlast⟩
    | false => exact .inr (.inl ⟨t, hid', hlast⟩)
  | jobqueue_dequeue | message_log_append | lockClients | mark | unlockClients => cases hpc
  | _ => exact absurd (sender_next rfl) hsame

/-- A `fast_forward` that gives up has given up. -/
theorem gaveUp_of_givesUp (hgives : s.GivesUp c e) : GaveUp (h ++ [(s, e)]) c :=
  ⟨h, (s, e), [], rfl, hgives, by simp⟩

/-- It stays so until one runs to its end. -/
theorem GaveUp.next (hgave : GaveUp h c)
    (hnot : ∀ t, e = .storeMark t → (s.listener t).client_id ≠ c) : GaveUp (h ++ [(s, e)]) c := by
  obtain ⟨h₁, x, h₂, rfl, hgives, hnone⟩ := hgave
  refine ⟨h₁, x, h₂ ++ [(s, e)], by simp, hgives, fun y hy => ?_⟩
  obtain hy | hy := List.mem_append.mp hy
  · exact hnone y hy
  · obtain rfl := List.mem_singleton.mp hy
    exact hnot

/-- A missed entry is one that a `fast_forward` has given up on, or the one of the pass that has
come to the client. -/
theorem Keeping.givenUp_next (hk : Keeping h s) (hwf : Wf s) (ho : Ordered s) (he : s.enabled e)
    (hin : s.InTime h e) (hmiss : (s.next e).Missed (h ++ [(s, e)]) c i) :
    GaveUp (h ++ [(s, e)]) c ∨ ∃ m rest fds, (s.next e).sender = .fanOut m i c rest fds := by
  have hunsent : ¬s.SentTo c i := fun hsent => hmiss.unsent (hsent.next hwf ho he)
  obtain hold | hby := tried_next hwf ho he hmiss.tried
  · have hmissed : s.Missed h c i :=
      ⟨hmiss.foreign.of_next (hk.lt_length ho hold), hold, hunsent⟩
    obtain hgave | ⟨m, rest, fds, hpc⟩ := hk.givenUp c i hmissed
    · left
      refine hgave.next fun t heq hid => ?_
      subst heq hid
      -- a catch-up that is over has sent what was missed
      have hpast : (s.listener t).pc = .catchUp none := he
      exact hunsent (hk.passed t i (by rw [hpast]; trivial) hmissed.foreign
        (hk.kept _ i hmissed))
    · right
      cases e with
      | send m' q c' rest' fd fds' ok =>
        obtain ⟨hsender, -⟩ := he
        rw [hpc] at hsender
        cases hsender
        by_cases hm : m.Marshals
        · exact ⟨m, rest, fds', by simp [next, hm]⟩
        · exact ⟨m, rest, fd :: fds', by simp [next, hm, crash, hpc]⟩
      | mark m' q c' rest' =>
        rw [show s.sender = .fanOut m' q c' rest' [] from he] at hpc
        cases hpc
        exact absurd hin.2 hunsent
      | jobqueue_dequeue m' rest' =>
        rw [he.1] at hpc
        cases hpc
      | message_log_append m' =>
        rw [he.1] at hpc
        cases hpc
      | lockClients m' q =>
        rw [show s.sender = .lockClients m' q from he] at hpc
        cases hpc
      | visit m' q c' rest' =>
        rw [show s.sender = .visit m' q (c' :: rest') from he] at hpc
        cases hpc
      | unlockClients m' q =>
        rw [show s.sender = .visit m' q [] from he] at hpc
        cases hpc
      | _ => exact ⟨m, rest, fds, (sender_next rfl).trans hpc⟩
  · cases hby with
    | catchUp hid hforeign hm hle hlt =>
      exact .inl (gaveUp_of_givesUp ⟨hid, hforeign, hm, i, hle, hmiss.foreign.of_next hlt, hunsent⟩)
    | send m rest fd fds =>
      right
      by_cases hm : m.Marshals
      · exact ⟨m, rest, fds, by simp [next, hm]⟩
      · exact ⟨m, rest, fd :: fds, by simp [next, hm, crash, he.1]⟩

theorem Keeping.step (hk : Keeping h s) (hwf : Wf s) (ho : Ordered s) (he : s.enabled e)
    (hin : s.InTime h e) : Keeping (h ++ [(s, e)]) (s.next e) where
  kept _ _ hmiss _ hp := hk.kept_next hwf ho he (hk.noSkip he hin) hmiss hp
  passed _ _ := hk.passed_next hwf ho he
  at_mark _ _ := hk.at_mark_next hwf ho he (hk.noSkip he hin)
  fanned _ _ _ _ _ := hk.fanned_next hwf ho he
  givenUp _ _ := hk.givenUp_next hwf ho he hin
  older x hx := by
    have hgrows : s.log.length ≤ (s.next e).log.length := by
      rw [log_next, List.length_append]
      omega
    obtain hx | hx := List.mem_append.mp hx
    · exact (hk.older x hx).trans hgrows
    · obtain rfl := List.mem_singleton.mp hx
      exact hgrows

/-! ## Runs -/

theorem keeping_of_run {client_ids : List UInt16}
    (hr : (server client_ids).Run (fun _ _ => True) h s) (hin : Steps InTime h) : Keeping h s :=
  hr.invariant_of_steps (keeping_init client_ids)
    (fun _ _ _ hr hk he _ hin => hk.step (wf_of_reach hr.reach) (ordered_of_reach hr.reach)
      (And.right he) hin) hin

end Server

/-- **Failed sends.** In every run in which the failures come in time, the mark is before every
missed entry, so that a reconnect sends it. -/
theorem read_mark {client_ids : List UInt16} {h : History} {s : Server}
    (hr : (server client_ids).Run (fun _ _ => True) h s) (hin : Steps Server.InTime h) :
    s.MarkKept h := by
  intro c i hmiss
  have hmark := (Server.keeping_of_run hr hin).kept c i hmiss
  exact ⟨hmark, Server.mem_toSend hmiss.foreign hmark⟩

/-! ### Runs with failures -/

/-- A step that passes no entry but a client's own, and gives up only where the mark is NULL. -/
def Server.PassesNone (s : Server) : Event → Bool
  | .visit m _ c _ => m.id ≠ c ∨ (s.client c).sockfds = []
  | .mark .. => false
  | .catchUp t _ _ ok => ok ∨ (s.client (s.listener t).client_id).last_read = none
  | _ => true

theorem Server.PassesNone.inTime {h : History} {s : Server} {e : Event} (hg : s.PassesNone e) :
    s.InTime h e := by
  cases e with
  | visit m q c rest =>
    intro hid hfds
    obtain hne | hnil := of_decide_eq_true hg
    · exact absurd hid hne
    · exact absurd hnil hfds
  | mark m q c rest => cases hg
  | catchUp t cursor m ok =>
    cases ok with
    | true => trivial
    | false =>
      intro _ p hp
      rw [(of_decide_eq_true hg).resolve_left (by decide)] at hp
      cases hp
  | _ => trivial

/-- Client 1 is announced; the catch-up of client 2, which connects later, fails at that entry. -/
def givenUp : List Event :=
  let conn := create_message_header 0 1 MESG_CONN
  connecting 0 4 1 ++ appending conn 0 [] ++
  [.visit conn 0 1 [2], .visit conn 0 2 [], .unlockClients conn 0] ++
  connecting 1 5 2 ++ [.fast_forward 1, .catchUp 1 0 conn false]

theorem read_mark_givenUp : ∃ h s, (server [1, 2]).Run (fun _ _ => True) h s ∧
    s.Tried h 2 0 ∧ s.MarkKept h := by
  have hrun : ((server [1, 2]).exec (fun s e => s.PassesNone e) (server [1, 2]).init givenUp).any
      (fun s => (s.listener 1).client_id = 2 ∧ (0, false) ∈ entries (s.wire 1)) = true := by
    decide +kernel
  obtain ⟨h, s, hr, hs⟩ := TransitionSystem.exists_run_of_exec
    (p := fun _ (s : Server) => (s.listener 1).client_id = 2 ∧ (0, false) ∈ entries (s.wire 1)) hrun
  obtain ⟨hid, hfailed⟩ := of_decide_eq_true hs
  exact ⟨h, s, hr.mono fun _ _ _ => trivial, .inl ⟨1, hid, hfailed⟩,
    read_mark (hr.mono fun _ _ _ => trivial)
      (hr.steps fun _ _ _ hg => Server.PassesNone.inTime hg)⟩

/-- A log entry is sent successfully. -/
def Event.delivers : Event → Bool
  | .catchUp _ _ _ ok | .send _ _ _ _ _ _ ok => ok
  | _ => false

/-- Only a successful send adds to what was sent. -/
theorem Server.SentTo.of_next {s : Server} {e : Event} {c : UInt16} {i : Nat}
    (h : (s.next e).SentTo c i) (hwf : Wf s) (ho : Ordered s)
    (he : s.enabled e) : s.SentTo c i ∨ (∃ t cursor m, e = .catchUp t cursor m true) ∨
      ∃ m q c' rest fd fds, e = .send m q c' rest fd fds true := by
  obtain ⟨t, rfl, hsent⟩ := h
  have hold : (i, true) ∈ entries (s.wire t) → s.SentTo ((s.next e).listener t).client_id i :=
    fun hx => ⟨t, (entries_mono hwf ho he hx).2.symm, hx⟩
  rcases entries_next hwf he t with hw | ⟨cursor, m, ok, rfl, -, -, hw⟩ |
    ⟨m, q, rest, fd, fds, ok, rfl, -, -, -, hw⟩
  · rw [hw] at hsent
    exact .inl (hold hsent)
  · rw [hw] at hsent
    obtain hx | hx := List.mem_append.mp hsent
    · exact .inl (hold hx)
    · cases List.mem_singleton.mp hx
      exact .inr (.inl ⟨t, _, m, rfl⟩)
  · rw [hw] at hsent
    obtain hx | hx := List.mem_append.mp hsent
    · exact .inl (hold hx)
    · cases List.mem_singleton.mp hx
      exact .inr (.inr ⟨m, _, _, rest, fd, fds, rfl⟩)

theorem Server.not_sentTo {client_ids : List UInt16} {s : Server}
    (hr : (server client_ids).Reach (fun _ e => e.delivers = false) s) (c : UInt16) (i : Nat) :
    ¬s.SentTo c i := by
  induction hr generalizing c i with
  | init =>
    rintro ⟨t, -, hsent⟩
    cases hsent
  | step hr he hg ih =>
    intro hsent
    obtain hold | ⟨_, _, _, rfl⟩ | ⟨_, _, _, _, _, _, rfl⟩ :=
      hsent.of_next (wf_of_reach hr) (ordered_of_reach hr) he.2
    · exact ih c i hold
    · cases hg
    · cases hg

/-- The announcement of client 1 cannot be sent to the only connection of client 2. -/
def sendFailed : List Event :=
  let conn id := create_message_header 0 id MESG_CONN
  connecting 0 4 1 ++ connecting 1 5 2 ++
  [.fast_forward 1, .storeMark 1, .client_hash_add_connection 1] ++
  appending (conn 1) 0 [conn 2] ++
  [.visit (conn 1) 0 1 [2], .visit (conn 1) 0 2 [], .send (conn 1) 0 2 [] 5 [] false,
    .mark (conn 1) 0 2 []]

/-- The mark of client 2 is moved to the entry all the same. -/
theorem not_read_mark : ¬ ∀ client_ids h s, (server client_ids).Run (fun _ _ => True) h s →
    s.MarkKept h := by
  have hrun : ((server [1, 2]).exec (fun _ e => e.delivers = false) (server [1, 2]).init
      sendFailed).any (fun s => (s.listener 1).client_id = 2 ∧ (0, false) ∈ entries (s.wire 1) ∧
        s.Foreign 2 0 ∧ (s.client 2).last_read = some 0) = true := by
    decide +kernel
  obtain ⟨h, s, hr, hs⟩ := TransitionSystem.exists_run_of_exec
    (p := fun _ (s : Server) => (s.listener 1).client_id = 2 ∧ (0, false) ∈ entries (s.wire 1) ∧
      s.Foreign 2 0 ∧ (s.client 2).last_read = some 0) hrun
  obtain ⟨hid, hfailed, hforeign, hmark⟩ := of_decide_eq_true hs
  intro hall
  have hmiss : s.Missed h 2 0 :=
    ⟨hforeign, .inl ⟨1, hid, hfailed⟩, Server.not_sentTo hr.reach 2 0⟩
  have hlt := (hall [1, 2] h s (hr.mono fun _ _ _ => trivial) 2 0 hmiss).1 0 hmark
  omega

end Cs2510.Chat
