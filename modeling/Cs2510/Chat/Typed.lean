import Cs2510.Chat.Conversation
import Cs2510.Chat.Authorship

/-!
# From the keyboard to the screen

A client writes its handshake and the messages of its user's lines, one frame after the other
(`WrittenBy.begins`). `framesRead_of_run` says that the server's listener reads exactly these frames
back, as far as it comes, whatever the interleaving and however the bytes are split; so what is in
the log are announcements, and lines that users have typed (`queue_typed`), and every line on a
screen is one of these (`screen_typed`).
-/

namespace Cs2510.Chat
open Net

/-! ## Frames that are read back -/

/-- A frame that is read back as the message it was made of. -/
inductive Intact : Message → Prop
  | header {id kind : UInt16} :
      kind = MESG_CONN ∨ kind = MESG_DCON → Intact (create_message_header 0 id kind)
  | data {id : UInt16} {text : List UInt8} : text.length < 2040 →
      Intact ⟨id, MESG_DATA, .ofInt (text.length + 1 : Nat), some (text ++ [0])⟩

theorem Intact.eq_header {m : Message} (h : Intact m) (hkind : m.kind ≠ MESG_DATA) :
    m.payload = none ∧ m.body = [] := by
  cases h with
  | header => exact ⟨rfl, rfl⟩
  | data => exact absurd rfl hkind

theorem Intact.eq_received {m : Message} (h : Intact m) (hkind : m.kind = MESG_DATA) :
    m.body.length = Message.awaited { m with payload := none } ∧
      Message.received { m with payload := none } m.body = m := by
  cases h with
  | @header id kind hor =>
    have hne : kind ≠ MESG_DATA := by
      rcases hor with hconn | hdcon
      · rw [hconn]
        decide
      · rw [hdcon]
        decide
    exact absurd hkind hne
  | @data id text hlen =>
    have hnat : (UInt32.ofInt (text.length + 1 : Nat)).toNat = text.length + 1 :=
      toNat_ofInt (by omega)
    have hclip : clip (UInt32.ofInt (text.length + 1 : Nat)) =
        UInt32.ofInt (text.length + 1 : Nat) := by
      apply UInt32.toNat_inj.mp
      rw [toNat_clip, hnat]
      omega
    constructor
    · rw [Message.awaited_eq (by change (UInt32.ofInt _).toNat < _; rw [hnat]; omega)]
      change (text ++ [0]).length = (UInt32.ofInt _).toNat
      rw [hnat, List.length_append, List.length_singleton]
    · change Message.mk _ _ (clip _)
        (some ((text ++ [0]).take (min (UInt32.ofInt _).toNat 2040 - 1) ++ [0])) = _
      rw [hclip, hnat, Nat.min_eq_left (by omega), Nat.add_sub_cancel, List.take_left' rfl]

theorem header_inj {m m' : Message} (h : m.header = m'.header) :
    ({ m with payload := none } : Message) = { m' with payload := none } := by
  have heq := message_unmarshal_header_eq m
  rw [h, message_unmarshal_header_eq m'] at heq
  exact (Except.ok.inj heq).symm

/-- Two beginnings of a stream, of the same length. -/
theorem begins_cut {a b c inp : List UInt8} (h : a ++ inp <+: b ++ c) (hlen : a.length = b.length) :
    a = b ∧ inp <+: c := by
  obtain ⟨rest, hrest⟩ := h
  rw [List.append_assoc] at hrest
  obtain ⟨hab, hc⟩ := List.append_inj hrest hlen
  exact ⟨hab, rest, hc⟩

/-- The header that is read is that of the next frame. -/
theorem next_frame {left : List Message} {m : Message} {inp : List UInt8}
    (h : m.header ++ inp <+: frames left) (hm : m.payload = none) :
    ∃ m₁ left', left = m₁ :: left' ∧ m = { m₁ with payload := none } ∧
      inp <+: m₁.body ++ frames left' := by
  cases left with
  | nil =>
    have hle := h.length_le
    rw [List.length_append, m.length_header] at hle
    change 8 + inp.length ≤ 0 at hle
    omega
  | cons m₁ left' =>
    rw [frames_cons, Message.frame, List.append_assoc] at h
    obtain ⟨hheader, hinp⟩ := begins_cut h (by rw [m.length_header, m₁.length_header])
    refine ⟨m₁, left', rfl, ?_, hinp⟩
    rw [← header_inj hheader]
    cases m
    cases hm
    rfl

/-! ## Reading -/

/-- A listener at a program point has read the messages `fr` of the messages `sent` its client
sends, and `inp` is still to come. -/
def ReadOk (sent fr : List Message) (inp : List UInt8) : ListenerPc → Prop
  | .unborn | .handshake => fr = [] ∧ inp <+: frames sent
  | .payload m =>
    ∃ m₁ left, sent = fr ++ m₁ :: left ∧ m₁.kind = MESG_DATA ∧ m = { m₁ with payload := none } ∧
      inp <+: m₁.body ++ frames left
  | .refuse _ | .refused _ | .out | .closing | .finished => fr <+: sent
  | _ => ∃ left, sent = fr ++ left ∧ inp <+: frames left

section ReadOk

variable {sent fr : List Message} {inp : List UInt8} {pc pc' : ListenerPc}

theorem ReadOk.begins (h : ReadOk sent fr inp pc) : fr <+: sent := by
  cases pc with
  | unborn | handshake =>
    rw [h.1]
    exact List.nil_prefix
  | payload m =>
    obtain ⟨m₁, left, rfl, -⟩ := h
    exact List.prefix_append _ _
  | refuse | refused | out | closing | finished => exact h
  | _ =>
    obtain ⟨left, rfl, -⟩ := h
    exact List.prefix_append _ _

/-- A frame without a payload has been read. -/
theorem read_header {left : List Message} (hintact : ∀ m ∈ sent, Intact m) {m : Message}
    (hsent : sent = fr ++ left) (hkind : m.kind ≠ MESG_DATA) (hm : m.payload = none)
    (h : m.header ++ inp <+: frames left) :
    ∃ left', sent = (fr ++ [m]) ++ left' ∧ inp <+: frames left' := by
  obtain ⟨m₁, left', rfl, hm₁, hinp⟩ := next_frame h hm
  have hmem : m₁ ∈ sent := by
    rw [hsent]
    exact List.mem_append_right _ List.mem_cons_self
  have hkind₁ : m₁.kind ≠ MESG_DATA := by
    rw [hm₁] at hkind
    exact hkind
  obtain ⟨hpayload, hbody⟩ := (hintact m₁ hmem).eq_header hkind₁
  have heq : m = m₁ := by
    rw [hm₁, ← hpayload]
  rw [hbody, List.nil_append] at hinp
  exact ⟨left', by rw [hsent, heq, List.append_assoc, List.singleton_append], hinp⟩

end ReadOk

theorem Server.event_of_header {s : Server} {e : Event} {t : Tid} {m : Option Message}
    (h : s.call e = some (.recv_header t m)) : e = .handshake t m ∨ e = .recv_header t m := by
  cases e with
  | handshake =>
    cases h
    exact .inl rfl
  | recv_header =>
    cases h
    exact .inr rfl
  | catchUp =>
    rw [Server.call] at h
    split at h
    · cases h
    · simp at h
  | refuse | reply | send => simp [Server.call] at h
  | _ => cases h

theorem Server.event_of_payload {s : Server} {e : Event} {t : Tid} {m : Message}
    {r : Option Message} (h : s.call e = some (.recv_payload t m r)) :
    e = .recv_payload t m r := by
  cases e with
  | recv_payload =>
    cases h
    rfl
  | catchUp =>
    rw [Server.call] at h
    split at h
    · cases h
    · simp at h
  | refuse | reply | send => simp [Server.call] at h
  | _ => cases h

namespace Host

variable {x : Host} {e : Event} {t : Tid} {sent fr : List Message} {pc pc' : ListenerPc}

/-- What an answered `recv_header` has taken. -/
theorem input_header {m : Option Message} (h : headerResult (x.sock t) = some m) :
    ∃ inp, (x.sock t).input = inp ++ ((Call.recv_header t m).after (x.sock t)).input ∧
      ∀ m' ∈ m, inp = m'.header ∧ m'.payload = none := by
  obtain ⟨inp, htook, hm⟩ := recv_header_took (recv_header_of_result h)
  exact ⟨inp, htook.input, hm⟩

theorem sock_next_self {c : Call} (h : x.server.call e = some c) (ht : c.tid = t) :
    (x.next e).sock t = c.after (x.sock t) := by
  rw [sock_next_of_some h, ht, Function.update_self]

/-- Nobody else takes anything from the stream of a listener. -/
theorem input_next (hwf : Server.Wf x.server)
    (hqueued : ∀ (i : Nat) (m : Message), x.server.log[i]? = some m → Queued m)
    (he : x.enabled e)
    (hrecv : (∀ m, e ≠ .handshake t m) ∧ (∀ m, e ≠ .recv_header t m) ∧
      ∀ m r, e ≠ .recv_payload t m r) :
    ((x.next e).sock t).input = (x.sock t).input := by
  obtain ⟨t', m, ok, frame, hcall, hcarries, -⟩ | ⟨-, hrecvs⟩ :=
    Server.call_cases hwf (enabled_server he)
  · have hm : m.PayloadOk := by
      cases hcarries with
      | accepted => exact Message.payloadOk_of_none rfl
      | refused hestr => exact (queued_refusal hestr).payloadOk
      | entry hlog => exact (hqueued _ _ hlog).payloadOk
    obtain ⟨hinput, -⟩ := after_send hm (he.2 _ hcall)
    by_cases ht : t = t'
    · subst ht
      exact (congrArg Socket.input (sock_next_self hcall rfl)).trans hinput
    · rw [sock_next_of_some hcall]
      change (Function.update x.sock t' _ t).input = _
      rw [Function.update_of_ne ht]
  · cases hcall : x.server.call e with
    | none => rw [sock_next_of_none hcall]
    | some c =>
      have ht : t ≠ c.tid := by
        rintro rfl
        obtain ⟨t', m, rfl⟩ | ⟨t', m, r, rfl⟩ := hrecvs c hcall
        · exact (Server.event_of_header hcall).elim (hrecv.1 m) (hrecv.2.1 m)
        · exact hrecv.2.2 m r (Server.event_of_payload hcall)
      rw [sock_next_of_some hcall, Function.update_of_ne ht]

/-- A step of a listener that receives nothing. -/
theorem readOk_same (hwf : Server.Wf x.server)
    (hqueued : ∀ (i : Nat) (m : Message), x.server.log[i]? = some m → Queued m)
    (he : x.enabled e) (hframe : e.frame t = [])
    (hrecv : (∀ m, e ≠ .handshake t m) ∧ (∀ m, e ≠ .recv_header t m) ∧
      ∀ m r, e ≠ .recv_payload t m r)
    (h : ReadOk sent fr (x.sock t).input pc') :
    ReadOk sent (fr ++ e.frame t) ((x.next e).sock t).input pc' := by
  rwa [input_next hwf hqueued he hrecv, hframe, List.append_nil]

/-- A step of a listener, as far as it does not crash the server. -/
theorem readOk_moves (hwf : Server.Wf x.server)
    (hqueued : ∀ (i : Nat) (m : Message), x.server.log[i]? = some m → Queued m)
    (hintact : ∀ m ∈ sent, Intact m) (hfirst : ∀ m ∈ sent.head?, m.kind = MESG_CONN)
    (he : x.enabled e) (h : ReadOk sent fr (x.sock t).input pc)
    (hm : x.server.Moves t e pc pc') :
    ReadOk sent (fr ++ e.frame t) ((x.next e).sock t).input pc' ∨
      (x.server.next e).crashed = true ∧ fr ++ e.frame t <+: sent := by
  have hself : ∀ {c : Call}, x.server.call e = some c → c.tid = t →
      (x.next e).sock t = c.after (x.sock t) := sock_next_self
  cases hm with
  | no_handshake =>
    rw [show Event.frame t (.handshake t none) = [] from rfl, List.append_nil]
    exact .inl h.begins
  | @bad_handshake m hbad =>
    obtain ⟨rfl, hinp⟩ := h
    obtain ⟨inp, hinput, hhead⟩ := input_header (t := t) (he.2 _ rfl)
    obtain ⟨rfl, hpayload⟩ := hhead m rfl
    rw [hinput] at hinp
    obtain ⟨m₁, left', rfl, heq, -⟩ := next_frame hinp hpayload
    have hkind : m₁.kind = MESG_CONN := hfirst m₁ rfl
    obtain ⟨hpayload₁, -⟩ := (hintact m₁ List.mem_cons_self).eq_header (by rw [hkind]; decide)
    have heq₁ : m = m₁ := by
      rw [heq, ← hpayload₁]
    rw [show Event.frame t (.handshake t (some m)) = [m] from if_pos rfl, heq₁]
    exact .inl ⟨left', rfl⟩
  | @handshake m hkind hid =>
    obtain ⟨rfl, hinp⟩ := h
    obtain ⟨inp, hinput, hhead⟩ := input_header (t := t) (he.2 _ rfl)
    obtain ⟨rfl, hpayload⟩ := hhead m rfl
    rw [hinput] at hinp
    obtain ⟨left', hsent, hinp'⟩ := read_header hintact (show sent = [] ++ sent from rfl)
      (by rw [hkind]; decide) hpayload hinp
    rw [show Event.frame t (.handshake t (some m)) = [m] from if_pos rfl]
    refine .inl ⟨left', hsent, ?_⟩
    rwa [hself (c := .recv_header t (some m)) rfl rfl]
  | @leave m hkind =>
    obtain ⟨left, hsent, hinp⟩ := h
    obtain ⟨inp, hinput, hhead⟩ := input_header (t := t) (he.2 _ rfl)
    obtain ⟨rfl, hpayload⟩ := hhead m rfl
    rw [hinput] at hinp
    obtain ⟨left', hsent', -⟩ := read_header hintact hsent (by rw [hkind]; decide) hpayload hinp
    rw [show Event.frame t (.recv_header t (some m)) = [m] from if_pos ⟨rfl, .inl hkind⟩]
    exact .inl ⟨left', hsent'.symm⟩
  | @drop m hkind =>
    obtain ⟨left, hsent, hinp⟩ := h
    obtain ⟨inp, hinput, hhead⟩ := input_header (t := t) (he.2 _ rfl)
    obtain ⟨rfl, hpayload⟩ := hhead m rfl
    rw [hinput] at hinp
    obtain ⟨left', hsent', hinp'⟩ :=
      read_header hintact hsent (by rw [hkind]; decide) hpayload hinp
    rw [show Event.frame t (.recv_header t (some m)) = [m] from if_pos ⟨rfl, .inr hkind⟩]
    refine .inl ⟨left', hsent', ?_⟩
    rwa [hself (c := .recv_header t (some m)) rfl rfl]
  | @header m hdcon hconn =>
    obtain ⟨left, rfl, hinp⟩ := h
    obtain ⟨inp, hinput, hhead⟩ := input_header (t := t) (he.2 _ rfl)
    obtain ⟨rfl, hpayload⟩ := hhead m rfl
    rw [hinput] at hinp
    obtain ⟨m₁, left', rfl, heq, hinp'⟩ := next_frame hinp hpayload
    have hkind₁ : m₁.kind = m.kind := by rw [heq]
    have hdata : m₁.kind = MESG_DATA := by
      cases hintact m₁ (List.mem_append_right _ List.mem_cons_self) with
      | header hor => exact absurd (hkind₁ ▸ hor) (not_or.mpr ⟨hconn, hdcon⟩)
      | data => rfl
    have hframe : Event.frame t (.recv_header t (some m)) = [] :=
      if_neg fun h => h.2.elim hdcon hconn
    rw [hframe, List.append_nil]
    refine .inl ⟨m₁, left', rfl, hdata, heq, ?_⟩
    rwa [hself (c := .recv_header t (some m)) rfl rfl]
  | @payload m m' hlength hrecv =>
    obtain ⟨m₁, left, hsent, hdata, rfl, hinp⟩ := h
    have hmem : m₁ ∈ sent := by
      rw [hsent]
      exact List.mem_append_right _ List.mem_cons_self
    obtain ⟨hbody, hreceived⟩ := (hintact m₁ hmem).eq_received hdata
    obtain ⟨ret, m'', hrun, hr⟩ | ⟨⟨f, hfault⟩, -⟩ := recv_payload_of_result (he.2 _ rfl)
    · by_cases hret : ret ≠ 0
      · rw [if_pos hret] at hr
        cases hr
      rw [if_neg hret] at hr
      obtain rfl := Option.some.inj hr
      obtain ⟨inp, htook, hok⟩ := recv_payload_took hrun
      obtain ⟨-, hlen, rfl⟩ := hok (not_not.mp hret)
      have hinput : (x.sock t).input = _ := htook.input
      rw [hinput] at hinp
      obtain ⟨rfl, hinp'⟩ := begins_cut hinp (hlen.trans hbody.symm)
      have hframe : Event.frame t (.recv_payload t { m₁ with payload := none }
          (some (Message.received { m₁ with payload := none } m₁.body))) = [m₁] := by
        rw [hreceived]
        exact if_pos ⟨rfl, hlength⟩
      rw [hframe]
      refine .inl ⟨left, by rw [hsent, List.append_assoc, List.singleton_append], ?_⟩
      rwa [hself (c := .recv_payload t _ _) rfl rfl]
    · exact absurd hfault (recv_payload_no_fault hlength _ f)
  | failed m =>
    rw [show Event.frame t (.recv_payload t m none) = [] from rfl, List.append_nil]
    exact .inl h.begins
  | null_header =>
    rw [show Event.frame t (.recv_header t none) = [] from rfl, List.append_nil]
    exact .inr ⟨rfl, h.begins⟩
  | @empty_payload m m' hlength =>
    have hframe : Event.frame t (.recv_payload t m (some m')) = [] := if_neg fun h => h.2 hlength
    rw [hframe, List.append_nil]
    exact .inr ⟨by rw [Server.next, if_pos hlength]; rfl, h.begins⟩
  | accept fd => exact .inl (readOk_same hwf hqueued he rfl (by simp) h)
  | unknown | refuse | free_message | null_handshake | remove | close =>
    exact .inl (readOk_same hwf hqueued he rfl (by simp) h.begins)
  | known | reply | announce | fast_forward | skip | catchUp | abandon | storeMark | register
  | oversized => exact .inl (readOk_same hwf hqueued he rfl (by simp) h)

/-- **The listener of a connection reads the frames that its client sends**, in every run of the
host. -/
theorem framesRead_of_run {client_ids : List UInt16} {sock : Tid → Socket}
    {h : List (Host × Event)} {x : Host} {G : Host → Event → Prop}
    (hr : (host client_ids sock).Run G h x) (t : Tid) (hintact : ∀ m ∈ sent, Intact m)
    (hfirst : ∀ m ∈ sent.head?, m.kind = MESG_CONN) (hinp : (sock t).input <+: frames sent) :
    framesRead (Host.project h) t <+: sent := by
  suffices hboth : framesRead (Host.project h) t <+: sent ∧ (x.server.crashed = false →
      ReadOk sent (framesRead (Host.project h) t) (x.sock t).input (x.server.listener t).pc) from
    hboth.1
  refine hr.invariant (I := fun h x => framesRead (Host.project h) t <+: sent ∧
    (x.server.crashed = false → ReadOk sent (framesRead (Host.project h) t) (x.sock t).input
      (x.server.listener t).pc)) ?_ ?_
  · exact ⟨List.nil_prefix, fun _ => (⟨rfl, hinp⟩ : ReadOk sent [] (sock t).input .unborn)⟩
  rintro h x e hr ⟨hbegins, hread⟩ ⟨hcrashed, he⟩ -
  obtain ⟨hrun, -, -⟩ := refines_of_run hr
  have hwf := Server.wf_of_reach hrun.reach
  have hqueued : ∀ (i : Nat) (m : Message), x.server.log[i]? = some m → Queued m :=
    fun i m hm => Server.queued_of_log hrun.reach hm
  have hframes : framesRead (Host.project (h ++ [(x, e)])) t =
      framesRead (Host.project h) t ++ e.frame t := by
    rw [Host.project, List.map_append]
    exact Server.framesRead_append
  rw [hframes]
  change _ ∧ ((x.server.next e).crashed = false →
    ReadOk sent _ ((x.next e).sock t).input ((x.server.next e).listener t).pc)
  by_cases ht : e.listener = some t
  · obtain hok | ⟨hcrash, hpre⟩ := readOk_moves hwf hqueued hintact hfirst he (hread hcrashed)
      (Server.moves_next (enabled_server he) ht)
    · exact ⟨hok.begins, fun _ => hok⟩
    · exact ⟨hpre, fun h => absurd hcrash (by rw [h]; exact Bool.false_ne_true)⟩
  · have hsame := readOk_same (t := t) hwf hqueued he (Server.frame_of_ne ht) ⟨
      (by rintro m rfl; exact ht rfl), (by rintro m rfl; exact ht rfl),
      (by rintro m r rfl; exact ht rfl)⟩ (hread hcrashed)
    rw [Server.listener_next_of_ne ht]
    exact ⟨hsame.begins, fun _ => hsame⟩

end Host

/-! ## The users -/

/-- A user of the chat: the id that the client is started with, and the file that it reads. -/
structure User where
  id : Int
  file : List UInt8
  allowed : 1 ≤ id ∧ id ≤ 65535
  typeable : Typeable file

namespace User

/-- The messages that the user's client sends. -/
def messages (u : User) : List Message := clientMessages u.id u.file

/-- The id in these messages. -/
def name (u : User) : UInt16 := .ofInt u.id

theorem name_ne_zero (u : User) : u.name ≠ 0 := by
  have hallowed := u.allowed
  intro hzero
  have hnat := congrArg UInt16.toNat hzero
  rw [name, UInt16.ofInt, UInt16.toNat_ofNat'] at hnat
  change _ = 0 at hnat
  omega

/-- What the others are told of a user: that it has connected, that it has left, or what it has
typed. -/
inductive Tells (u : User) : Line → Prop
  | connected : Tells u (.connected u.name)
  | disconnected {line : List UInt8} :
      line ∈ lines u.file → text line = quitText → Tells u (.disconnected u.name)
  | said {line : List UInt8} :
      line ∈ lines u.file → text line ≠ quitText → Tells u (.said u.name (spoken line))

end User

theorem intact_script {id : UInt16} {ls : List (List UInt8)} {m : Message}
    (h : m ∈ script id ls) : Intact m ∧ m.kind ≠ MESG_CONN := by
  induction ls with
  | nil => cases h
  | cons line rest ih =>
    rw [script] at h
    split at h
    · obtain rfl := List.mem_singleton.mp h
      exact ⟨.header (.inr rfl), show MESG_DCON ≠ MESG_CONN by decide⟩
    · obtain rfl | h := List.mem_cons.mp h
      · have hle : (spoken line).length ≤ 2039 := length_spoken_le
        exact ⟨.data (by omega), show MESG_DATA ≠ MESG_CONN by decide⟩
      · exact ih h

theorem tells_script {u : User} {ls : List (List UInt8)} (hls : ls ⊆ lines u.file) {m : Message}
    (h : m ∈ script u.name ls) : m.id = u.name ∧ ∃ l, m.line = some l ∧ u.Tells l := by
  induction ls with
  | nil => cases h
  | cons line rest ih =>
    rw [script] at h
    split at h
    · next hquit =>
      obtain rfl := List.mem_singleton.mp h
      exact ⟨rfl, _, rfl, .disconnected (hls List.mem_cons_self) hquit⟩
    · next hquit =>
      obtain rfl | h := List.mem_cons.mp h
      · exact ⟨rfl, _, line_lineMessage, .said (hls List.mem_cons_self) hquit⟩
      · exact ih (fun l hl => hls (List.mem_cons_of_mem _ hl)) h

section messages

variable {u : User} {m : Message}

theorem User.intact (h : m ∈ u.messages) : Intact m := by
  obtain rfl | h := List.mem_cons.mp h
  · exact .header (.inl rfl)
  · exact (intact_script h).1

theorem User.relayable (h : m ∈ u.messages) : Relayable m := by
  obtain rfl | h := List.mem_cons.mp h
  · exact ⟨.of_header rfl (show MESG_CONN ≠ MESG_DATA by decide), .inr rfl⟩
  · exact relayable_script h

theorem User.tells (h : m ∈ u.messages) : m.id = u.name ∧ ∃ l, m.line = some l ∧ u.Tells l := by
  obtain rfl | h := List.mem_cons.mp h
  · refine ⟨rfl, .connected u.name, ?_, .connected⟩
    have hid : (hello u.id).id ≠ 0 := u.name_ne_zero
    rw [Message.line, if_pos (show (hello u.id).kind = MESG_CONN from rfl), if_neg hid]
    rfl
  · exact tells_script (List.Subset.refl _) h

end messages

/-- On every connection comes in what the client of a user writes. -/
structure FromClients (user : Tid → User) (sock : Tid → Socket) : Prop where
  input : ∀ t, WrittenBy (user t).id (user t).file (sock t).input
  output : ∀ t, (sock t).output = []

section run

variable {client_ids : List UInt16} {sock : Tid → Socket} {user : Tid → User}
  {h : List (Host × Event)} {x : Host}

theorem framesRead_messages (hr : (host client_ids sock).Run (fun _ _ => True) h x)
    (hclients : FromClients user sock) (t : Tid) :
    framesRead (Host.project h) t <+: (user t).messages := by
  refine Host.framesRead_of_run hr t (fun m hm => User.intact hm) ?_
    ((hclients.input t).begins (user t).typeable)
  intro m hm
  obtain rfl : hello (user t).id = m := Option.some.inj hm
  rfl

/-- What a listener queues is what its client sends: the announcement is the handshake again. -/
theorem stream_messages (hr : (host client_ids sock).Run (fun _ _ => True) h x)
    (hclients : FromClients user sock) (t : Tid) :
    stream (Host.project h) t <+: (user t).messages := by
  have hframes := framesRead_messages hr hclients t
  obtain hnil | ⟨first, rest, hfr, -, -, hst⟩ :=
    (Server.streamOk_of_run (refines_of_run hr).run t).relays.1
  · rw [hnil]
    exact List.nil_prefix
  rw [hfr, User.messages, clientMessages, List.cons_prefix_cons] at hframes
  obtain ⟨rfl, hrest⟩ := hframes
  have hfilter : rest.filter (·.kind ≠ MESG_CONN) = rest := by
    rw [List.filter_eq_self]
    intro m hm
    exact decide_eq_true (intact_script (hrest.subset hm)).2
  rw [hst, hfilter, User.messages, clientMessages, List.cons_prefix_cons]
  exact ⟨rfl, hrest⟩

/-- **What is typed is what is queued.** In every run of the host whose connections are made by
clients, what each listener queues is the beginning of what its client sends, in order, and what is
in the log, in the sender's hands and on the queue is an interleaving of these. -/
theorem queue_typed (hr : (host client_ids sock).Run (fun _ _ => True) h x)
    (hclients : FromClients user sock) :
    (∀ t, stream (Host.project h) t <+: (user t).messages) ∧
      Interleaving (stream (Host.project h)) x.server.pipeline :=
  ⟨stream_messages hr hclients,
    enqueued (Host.project h), Server.pipeline_of_run (refines_of_run hr).run, fun _ => rfl⟩

end run

/-! ## The id of a connection -/

/-- Before the handshake, or refused. -/
def ListenerPc.nameless : ListenerPc → Bool
  | .unborn | .handshake | .refuse _ | .refused _ | .closing | .finished => true
  | _ => false

/-- No log entry has been sent on a connection, or an id was handshaked on it. -/
def Named (h : History) (s : Server) (t : Tid) : Prop :=
  ((s.listener t).pc.nameless = true ∧ positions (s.wire t) = []) ∨
    ((s.listener t).pc ≠ .unborn ∧ (s.listener t).pc ≠ .handshake ∧
      Handshaked h t (s.listener t).client_id)

theorem positions_append (w w' : List Sent) :
    positions (w ++ w') = positions w ++ positions w' := by
  rw [positions, entries, List.filterMap_append, List.map_append]
  rfl

namespace Server

variable {s : Server} {e : Event} {t : Tid} {h : History}

/-- A step of a listener on whose connection nothing has been sent. -/
theorem named_moves {pc pc' : ListenerPc} (hpc : pc.nameless = true)
    (hm : s.Moves t e pc pc') :
    (pc'.nameless = true ∧ positions (s.writes t e) = []) ∨
      ∃ m, e = .handshake t (some m) ∧ m.kind = MESG_CONN ∧ m.id ≠ 0 ∧ pc' = .lookup := by
  cases hm with
  | @handshake m hkind hid => exact .inr ⟨m, rfl, hkind, hid, rfl⟩
  | refuse received ok =>
    refine .inl ⟨rfl, ?_⟩
    rw [writes, if_pos rfl]
    rfl
  | accept | no_handshake | bad_handshake | free_message | null_handshake | close =>
    exact .inl ⟨rfl, rfl⟩
  | _ => cases hpc

theorem named_of_run {client_ids : List UInt16} {G : Server → Event → Prop}
    (hr : (server client_ids).Run G h s) (t : Tid) : Named h s t := by
  refine hr.invariant (I := fun h s => Named h s t) (.inl ⟨rfl, rfl⟩) ?_
  rintro h s e hr hi ⟨-, he⟩ -
  change Named _ (s.next e) t
  unfold Named
  have hwf := wf_of_reach hr.reach
  obtain ⟨hpc, hnil⟩ | ⟨hunborn, hhandshake, hshaken⟩ := hi
  · rw [wire_next hwf he, positions_append, hnil, List.nil_append]
    by_cases ht : e.listener = some t
    · obtain hsame | ⟨m, rfl, hkind, hid, hpc'⟩ := named_moves hpc (moves_next he ht)
      · exact .inl hsame
      · refine .inr ⟨by rw [hpc']; decide, by rw [hpc']; decide, s, m, ?_, hkind, hid, ?_⟩
        · exact List.mem_append_right _ List.mem_cons_self
        · simp [next, hkind, hid]
    · refine .inl ⟨by rwa [listener_next_of_ne ht], ?_⟩
      -- only the sender writes to a connection of another listener, and only to registered ones
      by_contra hne
      have hw : s.writes t e ≠ [] := fun h => hne (by rw [h]; rfl)
      have hby : e.bySender = true := by
        revert ht hw
        cases e <;> simp +contextual [Event.listener, Event.bySender, writes]
      have hreg := (registered_of_writes hwf he hby hw).1
      revert hreg hpc
      cases (s.listener t).pc <;> simp [ListenerPc.nameless, ListenerPc.registered]
  · refine .inr ?_
    rw [(listener_next he t).client_id hhandshake]
    by_cases ht : e.listener = some t
    · have hm := moves_next he ht
      generalize (s.listener t).pc = pc at hm hunborn hhandshake
      refine ⟨?_, ?_, hshaken.append _⟩
      all_goals
        generalize ((s.next e).listener t).pc = pc' at hm
        cases hm <;> simp_all
    · rw [listener_next_of_ne ht]
      exact ⟨hunborn, hhandshake, hshaken.append _⟩

end Server

section run

variable {client_ids : List UInt16} {sock : Tid → Socket} {user : Tid → User}
  {h : List (Host × Event)} {x : Host}

/-- On a connection that a log entry was sent to, the user's id was handshaked. -/
theorem client_id_of_positions (hr : (host client_ids sock).Run (fun _ _ => True) h x)
    (hclients : FromClients user sock) {t : Tid} {i : Nat}
    (hi : i ∈ positions (x.server.wire t)) :
    (x.server.listener t).client_id = (user t).name := by
  obtain ⟨-, hnil⟩ | ⟨-, -, s, m, hmem, hkind, -, hid⟩ :=
    Server.named_of_run (refines_of_run hr).run t
  · rw [hnil] at hi
    cases hi
  have hframe : m ∈ framesRead (Host.project h) t :=
    List.mem_flatMap.mpr ⟨_, hmem, by
      change m ∈ Event.frame t (.handshake t (some m))
      rw [Event.frame, if_pos rfl]
      exact List.mem_cons_self⟩
  have hmessage : m ∈ (user t).messages := (framesRead_messages hr hclients t).subset hframe
  rw [← hid]
  exact (User.tells hmessage).1

/-- Every log entry is a message of a user, queued by the listener of its client. -/
theorem message_of_log (hr : (host client_ids sock).Run (fun _ _ => True) h x)
    (hclients : FromClients user sock) {i : Nat} {m : Message} (hm : x.server.log[i]? = some m) :
    ∃ t, m ∈ stream (Host.project h) t ∧ m ∈ (user t).messages := by
  obtain ⟨t, ht⟩ := Server.enqueued_of_log (refines_of_run hr).run hm
  have hmem : m ∈ stream (Host.project h) t :=
    List.mem_map.mpr ⟨(t, m), List.mem_filter.mpr ⟨List.mem_of_getElem? ht, decide_eq_true rfl⟩,
      rfl⟩
  exact ⟨t, hmem, (stream_messages hr hclients t).subset hmem⟩

/-- The line `l` on the screen of connection `t` is the one of the log entry at `i`: what another
user tells. -/
def Heard (user : Tid → User) (h : List (Host × Event)) (x : Host) (t : Tid) (i : Nat) (l : Line) :
    Prop :=
  ∃ m t', x.server.log[i]? = some m ∧ m.line = some l ∧ m ∈ stream (Host.project h) t' ∧
    (user t').Tells l ∧ (user t').name ≠ (user t).name

theorem heard_of_position (hr : (host client_ids sock).Run (fun _ _ => True) h x)
    (hclients : FromClients user sock) {t : Tid} {i : Nat}
    (hi : i ∈ positions (x.server.wire t)) :
    ∃ m l, x.server.log[i]? = some m ∧ m.line = some l ∧ Relayable m ∧ ¬m.Closes ∧
      Heard user h x t i l := by
  obtain ⟨m, hm, hforeign⟩ :=
    (Server.ordered_of_reach (refines_of_run hr).run.reach).foreign t i hi
  obtain ⟨t', hstream, hmem⟩ := message_of_log hr hclients hm
  obtain ⟨hid, l, hl, htells⟩ := User.tells hmem
  rw [client_id_of_positions hr hclients hi, hid] at hforeign
  refine ⟨m, l, hm, hl, User.relayable hmem, fun hcloses => ?_, m, t', hm, hl, hstream, htells,
    hforeign⟩
  exact (user t').name_ne_zero (hid.symm.trans hcloses.2)

/-- **What a user sees is what others have typed.** In every run of the host whose connections are
made by clients, a client that was accepted prints a line for each log entry sent to it, as long as
no send to it has failed, in the order of the log, whatever the chunks it receives; each is what
another user tells: that it has come or gone, or a line that it has typed. -/
theorem screen_typed (hr : (host client_ids sock).Run (fun _ _ => True) h x)
    (hclients : FromClients user sock) {t : Tid} {sent rest : List Sent}
    (hwire : x.server.wire t = ⟨.reply MESG_CONN, true⟩ :: sent ++ rest)
    (hok : ∀ y ∈ sent, y.ok = true) {sched : List Answer}
    (hsched : Ready ((x.sock t).output.length + 8) sched) :
    ∃ ls : List Line,
      conversation (user t).id sent.length ⟨(x.sock t).output, [], sched⟩ =
        (Line.accepted.bytes ++ ls.flatMap Line.bytes, .running) ∧
      List.Forall₂ (Heard user h x t) (positions sent) ls ∧ (positions sent).Pairwise (· ≤ ·) := by
  have hpositions : positions (x.server.wire t) = positions sent ++ positions rest := by
    rw [hwire, List.cons_append, positions_cons, ← positions_append]
  have hsub : ∀ i ∈ positions sent, i ∈ positions (x.server.wire t) := fun i hi => by
    rw [hpositions]
    exact List.mem_append_left _ hi
  have hsorted : (positions sent).Pairwise (· ≤ ·) := by
    have h := (Server.ordered_of_reach (refines_of_run hr).run.reach).sorted t
    rw [hpositions, List.pairwise_append] at h
    exact h.1
  have hmem : ∀ m ∈ delivered x.server.log sent, ∃ i ∈ positions sent, x.server.log[i]? = some m :=
    fun m hm => List.mem_filterMap.mp hm
  have hframes : ∀ m ∈ delivered x.server.log sent, m.kind = MESG_DATA ∨ m.length = 0 := by
    intro m hm
    obtain ⟨i, hi, hlog⟩ := hmem m hm
    obtain ⟨m', l, hlog', -, hrelayable, -⟩ := heard_of_position hr hclients (hsub i hi)
    rw [hlog] at hlog'
    cases hlog'
    exact hrelayable.frame
  have hcloses : ∀ m ∈ delivered x.server.log sent, ¬m.Closes := by
    intro m hm
    obtain ⟨i, hi, hlog⟩ := hmem m hm
    obtain ⟨m', l, hlog', -, -, hcloses, -⟩ := heard_of_position hr hclients (hsub i hi)
    rw [hlog] at hlog'
    cases hlog'
    exact hcloses
  have hlines : ∀ is : List Nat, (∀ i ∈ is, i ∈ positions (x.server.wire t)) →
      ∃ ls : List Line, (is.filterMap (x.server.log[·]?)).flatMap Message.shown =
        ls.flatMap Line.bytes ∧ List.Forall₂ (Heard user h x t) is ls := by
    intro is his
    induction is with
    | nil => exact ⟨[], rfl, .nil⟩
    | cons i is ih =>
      obtain ⟨ls, hls, hheard⟩ := ih fun j hj => his j (List.mem_cons_of_mem _ hj)
      obtain ⟨m, l, hlog, hl, -, -, hi⟩ :=
        heard_of_position hr hclients (his i List.mem_cons_self)
      refine ⟨l :: ls, ?_, .cons hi hheard⟩
      simp only [List.filterMap_cons, hlog, List.flatMap_cons, hls]
      rw [Message.shown, hl]
      rfl
  obtain ⟨ls, hls, hheard⟩ := hlines _ hsub
  refine ⟨ls, ?_, hheard, hsorted⟩
  rw [conversation_of_run hr (hclients.output t) hwire hok hframes _ hsched, display_eq hcloses,
    delivered, hls]

end run

/-! ### A run -/

/-- The users of the run `chatting`. -/
def chatUser (t : Tid) : User :=
  if t = 0 then ⟨1, [104, 105, 10], by decide, by decide⟩ else ⟨2, [], by decide, by decide⟩

theorem fromClients_chatting : FromClients chatUser chatSockets where
  input t := by
    unfold chatUser chatSockets
    by_cases ht : t = 0
    · rw [if_pos ht]
      simp only [if_pos ht]
      exact written_whole 1 (by decide)
    · rw [if_neg ht]
      simp only [if_neg ht]
      exact written_whole 2 (by decide)
  output _ := rfl

theorem queue_typed_chatting : ∃ h x, (host [1, 2] chatSockets).Run (fun _ _ => True) h x ∧
    x.server.log = chatLog ∧ (∀ t, stream (Host.project h) t <+: (chatUser t).messages) ∧
      Interleaving (stream (Host.project h)) x.server.pipeline := by
  obtain ⟨h, x, hr, -, hlog⟩ := exists_chatting
  exact ⟨h, x, hr, hlog, queue_typed hr fromClients_chatting⟩

/-- Client 2 sees two lines, of the entries 0 and 2 of the log. -/
theorem screen_typed_chatting : ∃ h x, (host [1, 2] chatSockets).Run (fun _ _ => True) h x ∧
    ∀ sched, Ready ((x.sock 1).output.length + 8) sched → ∃ ls : List Line,
      conversation 2 2 ⟨(x.sock 1).output, [], sched⟩ =
        (Line.accepted.bytes ++ ls.flatMap Line.bytes, .running) ∧
      List.Forall₂ (Heard chatUser h x 1) [0, 2] ls ∧ [0, 2].Pairwise (· ≤ ·) := by
  obtain ⟨h, x, hr, hwire, -⟩ := exists_chatting
  have hsplit : x.server.wire 1 = ⟨.reply MESG_CONN, true⟩ ::
      [⟨.entry 0, true⟩, ⟨.entry 2, true⟩] ++ [] := hwire
  exact ⟨h, x, hr, fun sched hsched =>
    screen_typed hr fromClients_chatting hsplit (by decide) hsched⟩

end Cs2510.Chat
