import Cs2510.Chat.Host
import Mathlib.Data.List.Forall2

/-!
# What a user sees

`conversation` is what the client prints: in its handshake, and then in the rounds of `receiver`.
Fed with what the server has written on its connection, in any chunks, it prints the lines of the
log entries that were sent to it, in this order (`conversation_eq`). It stops early only if one of
them is a `MESG_DCON` with the id 0.
-/

namespace Cs2510.Chat
open Net

/-- What the client prints, and how it stands, after its handshake and at most `fuel` rounds of
`receiver`. -/
def conversation (id : Int) (fuel : Nat) (s : Socket) : List UInt8 × ReceiverEnd :=
  match client_handshake id s with
  | .ret (ret, said) s =>
    if ret ≠ 0 then (said, .disconnected)
    else (said ++ (receiver fuel s).1, (receiver fuel s).2)
  | .waiting => ([], .running)
  | .fault _ => ([], .crashed)

/-- The messages of the log that the sends `w` carry. -/
def delivered (log : List Message) (w : List Sent) : List Message :=
  (positions w).filterMap (log[·]?)

theorem positions_cons (x : Sent) (w : List Sent) : positions (x :: w) =
    match x.frame with
    | .reply _ => positions w
    | .entry i => i :: positions w := by
  unfold positions entries
  rw [List.filterMap_cons]
  cases x.frame <;> rfl

/-! ## Whole frames -/

section Wrote

variable {log : List Message} {w w' : List Sent} {out : List UInt8}

theorem Wrote.split (h : Wrote log (w ++ w') out) :
    ∃ out₁ out₂, out = out₁ ++ out₂ ∧ Wrote log w out₁ := by
  induction w' using List.reverseRecOn generalizing out with
  | nil =>
    rw [List.append_nil] at h
    exact ⟨out, [], (List.append_nil _).symm, h⟩
  | append_singleton w' x ih =>
    rw [← List.append_assoc] at h
    generalize hw : w ++ w' ++ [x] = w'' at h
    cases h with
    | nil => simp at hw
    | @send w₀ out₀ out' x' m h hcarries hleaves =>
      obtain ⟨rfl, -⟩ := List.append_inj' hw rfl
      obtain ⟨out₁, out₂, rfl, h₁⟩ := ih h
      exact ⟨out₁, out₂ ++ out', List.append_assoc .., h₁⟩

theorem Wrote.whole (h : Wrote log w out) (hok : ∀ x ∈ w, x.ok = true) :
    ∃ ms, List.Forall₂ (fun x m => x.frame.Carries log m) w ms ∧ out = frames ms := by
  induction h with
  | nil => exact ⟨[], .nil, rfl⟩
  | @send w out out' x m _ hcarries hleaves ih =>
    obtain ⟨ms, hms, rfl⟩ := ih fun y hy => hok y (List.mem_append_left _ hy)
    have hx : x.ok = true := hok x (List.mem_append_right _ List.mem_cons_self)
    refine ⟨ms ++ [m], List.rel_append hms (.cons hcarries .nil), ?_⟩
    rw [hleaves.whole.mp hx, frames, frames, List.flatMap_append, List.flatMap_singleton]
    rfl

theorem carries_delivered {ms : List Message} (hw : ∀ x ∈ w, ∃ i, x.frame = .entry i)
    (h : List.Forall₂ (fun (x : Sent) m => x.frame.Carries log m) w ms) : ms = delivered log w := by
  induction h with
  | nil => rfl
  | @cons x m w ms hx _ ih =>
    obtain ⟨i, hi⟩ := hw x List.mem_cons_self
    rw [hi] at hx
    cases hx with
    | entry hm =>
      have hrest := ih fun y hy => hw y (List.mem_cons_of_mem _ hy)
      rw [delivered, positions_cons, hi]
      simp only [List.filterMap_cons, hm]
      rw [hrest, delivered]

end Wrote

namespace Server

theorem entries_of_reach {client_ids : List UInt16} {G : Server → Event → Prop} {s : Server}
    (hr : (server client_ids).Reach G s) (t : Tid) :
    ∀ x ∈ (s.wire t).tail, ∃ i, x.frame = .entry i := by
  refine hr.invariant_of (J := fun s => Wf s ∧ Greeted (s.listener t).pc (s.wire t))
    (I := fun s => ∀ x ∈ (s.wire t).tail, ∃ i, x.frame = .entry i)
    (fun s hs => ⟨wf_of_reach hs, greeted_of_reach hs t⟩) (by rintro x ⟨⟩) ?_
  rintro s e ⟨hwf, hg⟩ hi he - x hx
  replace he : s.enabled e := And.right he
  change x ∈ ((s.next e).wire t).tail at hx
  rw [wire_next hwf he] at hx
  have hsilent : ∀ {y : Sent}, (s.listener t).pc.silent = true → s.writes t e = [y] →
      x ∈ (s.wire t ++ s.writes t e).tail → ∃ i, x.frame = .entry i := by
    intro y hpc hw hx
    rw [Greeted, if_pos hpc] at hg
    rw [hg, hw] at hx
    cases hx
  have hentry : (∀ y ∈ s.writes t e, ∃ i, y.frame = .entry i) →
      x ∈ (s.wire t ++ s.writes t e).tail → ∃ i, x.frame = .entry i := by
    intro hall hx
    cases hwire : s.wire t with
    | nil =>
      rw [hwire, List.nil_append] at hx
      exact hall x (List.mem_of_mem_tail hx)
    | cons y w =>
      rw [hwire, List.cons_append, List.tail_cons] at hx
      obtain hx | hx := List.mem_append.mp hx
      · exact hi x (by rw [hwire]; exact hx)
      · exact hall x hx
  cases e with
  | refuse t' received ok =>
    by_cases ht : t' = t
    · subst ht
      exact hsilent (by rw [he.1]; rfl) (if_pos rfl) hx
    · exact hentry (by rw [writes, if_neg ht]; rintro y ⟨⟩) hx
  | reply t' ok =>
    by_cases ht : t' = t
    · subst ht
      exact hsilent (by rw [he.1]; rfl) (if_pos rfl) hx
    · exact hentry (by rw [writes, if_neg ht]; rintro y ⟨⟩) hx
  | catchUp t' cursor m ok =>
    refine hentry (fun y hy => ?_) hx
    rw [writes] at hy
    split at hy
    · obtain rfl := List.mem_singleton.mp hy
      exact ⟨_, rfl⟩
    · cases hy
  | send m q c rest fd fds ok =>
    refine hentry (fun y hy => ?_) hx
    rw [writes] at hy
    split at hy
    · obtain rfl := List.mem_singleton.mp hy
      exact ⟨_, rfl⟩
    · cases hy
  | _ => exact hentry (by rintro y ⟨⟩) hx

end Server

/-! ## The screen -/

/-- What is read from the output of the server on a connection. -/
theorem conversation_of_run {client_ids : List UInt16} {sock : Tid → Socket}
    {h : List (Host × Event)} {x : Host} (hr : (host client_ids sock).Run (fun _ _ => True) h x)
    {t : Tid} (hsock : (sock t).output = []) {sent rest : List Sent}
    (hwire : x.server.wire t = ⟨.reply MESG_CONN, true⟩ :: sent ++ rest)
    (hok : ∀ y ∈ sent, y.ok = true)
    (hframes : ∀ m ∈ delivered x.server.log sent, m.kind = MESG_DATA ∨ m.length = 0)
    (id : Int) {sched : List Answer} (hsched : Ready ((x.sock t).output.length + 8) sched) :
    conversation id sent.length ⟨(x.sock t).output, [], sched⟩ =
      (Line.accepted.bytes ++ (display (delivered x.server.log sent)).1,
        (display (delivered x.server.log sent)).2) := by
  obtain ⟨hrun, hwrote, -⟩ := refines_of_run hr
  obtain ⟨out, hout, hw⟩ := hwrote t
  rw [hsock, List.nil_append] at hout
  rw [hwire] at hw
  obtain ⟨out₁, out₂, rfl, hw₁⟩ := hw.split
  obtain ⟨ms, hms, rfl⟩ := hw₁.whole fun y hy => by
    obtain rfl | hy := List.mem_cons.mp hy
    · rfl
    · exact hok y hy
  obtain _ | ⟨haccepted, hms⟩ := hms
  next m ms =>
  have hm : m = create_message_header 0 0 MESG_CONN := by
    cases haccepted
    rfl
  have hentries : ∀ y ∈ sent, ∃ i, y.frame = .entry i := fun y hy =>
    Server.entries_of_reach hrun.reach t y (by
      rw [hwire]
      exact List.mem_append_left _ hy)
  obtain rfl := carries_delivered hentries hms
  have hlength : sent.length = (delivered x.server.log sent).length := hms.length_eq
  have hrelayable : ∀ m ∈ delivered x.server.log sent, Relayable m := by
    intro m hmem
    obtain ⟨i, -, hi⟩ := List.mem_filterMap.mp hmem
    exact ⟨Server.queued_of_log hrun.reach hi, hframes m hmem⟩
  have hinput : (x.sock t).output =
      m.header ++ (frames (delivered x.server.log sent) ++ out₂) := by
    rw [hout, frames_cons, Message.frame, hm, List.append_assoc, List.append_assoc]
    rfl
  rw [hinput, hm] at hsched ⊢
  obtain ⟨_, sched', rfl, hsched', hhandshake⟩ := client_handshake_accepted id
    (frames (delivered x.server.log sent) ++ out₂) [] sched
    (frames (delivered x.server.log sent) ++ out₂).length (hsched.mono (by
      simp only [List.length_append, Message.length_header]
      omega))
  rw [conversation, hhandshake]
  simp only [verdict, if_true, ne_eq, not_true_eq_false, if_false]
  rw [hlength, receiver_frames hrelayable out₂ _ hsched']

/-- **What a user sees** once the server has accepted the client: the lines of the log entries sent
to it, as long as no send has failed and each of them is a frame that the client consumes. -/
theorem conversation_eq {client_ids : List UInt16} {sock : Tid → Socket}
    {h : List (Host × Event)} {x : Host} (hr : (host client_ids sock).Run (fun _ _ => True) h x)
    {t : Tid} (hsock : (sock t).output = []) {sent rest : List Sent}
    (hwire : x.server.wire t = ⟨.reply MESG_CONN, true⟩ :: sent ++ rest)
    (hok : ∀ y ∈ sent, y.ok = true)
    (hframes : ∀ m ∈ delivered x.server.log sent, m.kind = MESG_DATA ∨ m.length = 0)
    (id : Int) {sched : List Answer} (hsched : Ready ((x.sock t).output.length + 8) sched) :
    conversation id sent.length ⟨(x.sock t).output, [], sched⟩ =
      (Line.accepted.bytes ++ (display (delivered x.server.log sent)).1,
        (display (delivered x.server.log sent)).2) :=
  conversation_of_run hr hsock hwire hok hframes id hsched

/-- What client 2 sees of client 1, however its socket splits the bytes. -/
theorem conversation_eq_chatting : ∃ out : List UInt8, ∀ sched, Ready (out.length + 8) sched →
    conversation 2 2 ⟨out, [], sched⟩ =
      (Line.accepted.bytes ++ (Line.connected 1).bytes ++ (Line.said 1 [104, 105]).bytes,
        .running) := by
  obtain ⟨h, x, hr, hwire, hlog⟩ := exists_chatting
  have hdelivered : delivered x.server.log [⟨.entry 0, true⟩, ⟨.entry 2, true⟩] =
      [create_message_header 0 1 MESG_CONN, ⟨1, MESG_DATA, 3, some [104, 105, 0]⟩] := by
    rw [hlog]
    rfl
  refine ⟨(x.sock 1).output, fun sched hsched => ?_⟩
  have hsplit : x.server.wire 1 = ⟨.reply MESG_CONN, true⟩ ::
      [⟨.entry 0, true⟩, ⟨.entry 2, true⟩] ++ [] := hwire
  have heq := conversation_eq hr (t := 1) rfl hsplit (by decide) (by rw [hdelivered]; decide) 2
    hsched
  rw [hdelivered] at heq
  refine heq.trans ?_
  decide +kernel

end Cs2510.Chat
