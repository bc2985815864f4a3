import Cs2510.Lib.CString
import Cs2510.Chat.Listener

/-!
# What the client prints (`a1/client.c`)

`print_message` passes the payload to `printf` as a string, so it relies on its terminating zero
byte. `receiver` prints what it receives until the server disconnects or a payload fails.
`receiver_frames` says what it prints for the frames of queued messages: one line for each, up to a
`MESG_DCON` with the id 0, which it takes for the end of the connection, whoever sent it.
-/

namespace Cs2510.Chat
open Net
open Block (stringOf)

def ascii (s : String) : List UInt8 := s.toList.map fun c => .ofNat c.toNat

/-- `"%d"` of a number that is not negative. -/
def decimal (n : Nat) : List UInt8 := (Nat.toDigits 10 n).map fun c => .ofNat c.toNat

def stringArg : Option Block → Except Fault (List UInt8)
  | none => .error .nullDeref
  | some b => b.cstring

/-- What is printed, unless a pointer goes astray. -/
def print_message (m : Message) : Except Fault (List UInt8) := do
  if m.kind = MESG_CONN then
    if m.id = 0 then
      return ascii "<server>: connection accepted\n"
    else
      return ascii "<server>: <" ++ decimal m.id.toNat ++ ascii "> connected\n"
  else if m.kind = MESG_DCON then
    if m.id = 0 then
      if m.length > 0 then
        return ascii "<server>: disconnected" ++ ascii " - " ++ (← stringArg m.payload) ++
          ascii "\n"
      else
        return ascii "<server>: disconnected" ++ ascii "\n"
    else
      return ascii "<server>: <" ++ decimal m.id.toNat ++ ascii "> disconnected\n"
  else if m.kind = MESG_DATA then
    let name :=
      if m.id = 0 then ascii "<server>: "
      else ascii "<" ++ decimal m.id.toNat ++ ascii ">: "
    return name ++ (← stringArg m.payload) ++ ascii "\n"
  else
    return []

/-- How `receiver` stands after some rounds. -/
inductive ReceiverEnd
  /-- in its loop -/
  | running
  /-- the server has disconnected -/
  | disconnected
  /-- a payload has failed -/
  | failed
  | crashed
  deriving DecidableEq, Repr

/-- What at most `fuel` rounds of `receiver` print, and how they leave it. -/
def receiver : (fuel : Nat) → Socket → List UInt8 × ReceiverEnd
  | 0, _ => ([], .running)
  | fuel + 1, s =>
    match receiver_round s with
    | .ret none _ => (ascii "Error receiving message\n", .failed)
    | .ret (some m) s =>
      match print_message m with
      | .error _ => ([], .crashed)
      | .ok text =>
        if m.kind = MESG_DCON ∧ m.id = 0 then (text, .disconnected)
        else
          let (rest, e) := receiver fuel s
          (text ++ rest, e)
    | .waiting => ([], .running)
    | .fault _ => ([], .crashed)

/-! ## The conversation -/

/-- What a user is told. The id 0 is the server's. -/
inductive Line
  | accepted
  | connected (id : UInt16)
  | disconnected (id : UInt16)
  | refused (reason : List UInt8)
  | said (id : UInt16) (text : List UInt8)
  deriving DecidableEq, Repr

def nameOf (id : UInt16) : List UInt8 :=
  if id = 0 then ascii "<server>" else ascii "<" ++ decimal id.toNat ++ ascii ">"

def Line.bytes : Line → List UInt8
  | .accepted => ascii "<server>: connection accepted\n"
  | .connected id => ascii "<server>: " ++ nameOf id ++ ascii " connected\n"
  | .disconnected id =>
    if id = 0 then ascii "<server>: disconnected\n"
    else ascii "<server>: " ++ nameOf id ++ ascii " disconnected\n"
  | .refused reason => ascii "<server>: disconnected - " ++ reason ++ ascii "\n"
  | .said id text => nameOf id ++ ascii ": " ++ text ++ ascii "\n"

/-- What a message of the chat tells the other users; one of an unknown kind tells them nothing. -/
def Message.line (m : Message) : Option Line :=
  if m.kind = MESG_CONN then some (if m.id = 0 then .accepted else .connected m.id)
  else if m.kind = MESG_DCON then some (.disconnected m.id)
  else if m.kind = MESG_DATA then some (.said m.id (stringOf m.body.dropLast))
  else none

def Message.shown (m : Message) : List UInt8 := m.line.elim [] Line.bytes

/-- The client takes the message for the end of the connection. -/
def Message.Closes (m : Message) : Prop := m.kind = MESG_DCON ∧ m.id = 0

instance Message.decidableCloses (m : Message) : Decidable m.Closes :=
  inferInstanceAs (Decidable (_ ∧ _))

/-- What the client shows of a list of messages, and how it stands then. -/
def display : List Message → List UInt8 × ReceiverEnd
  | [] => ([], .running)
  | m :: ms =>
    if m.Closes then (m.shown, .disconnected) else (m.shown ++ (display ms).1, (display ms).2)

/-- The message is on the queue, and its frame is one that the client consumes exactly. -/
structure Relayable (m : Message) : Prop where
  queued : Queued m
  frame : m.kind = MESG_DATA ∨ m.length = 0

theorem display_eq {ms : List Message} (h : ∀ m ∈ ms, ¬m.Closes) :
    display ms = (ms.flatMap Message.shown, .running) := by
  induction ms with
  | nil => rfl
  | cons m ms ih =>
    have hrest := ih fun m hm => h m (List.mem_cons_of_mem _ hm)
    rw [display, if_neg (h m List.mem_cons_self), hrest]
    rfl

/-! ## The lines that are printed -/

section print

variable {m : Message}

theorem line_data (h : m.kind = MESG_DATA) :
    m.line = some (.said m.id (stringOf m.body.dropLast)) := by
  have hconn : m.kind ≠ MESG_CONN := by rw [h]; decide
  have hdcon : m.kind ≠ MESG_DCON := by rw [h]; decide
  rw [Message.line, if_neg hconn, if_neg hdcon, if_pos h]

theorem print_message_data (h : m.kind = MESG_DATA) {text post : List UInt8}
    (hpayload : m.payload = some (text ++ 0 :: post)) :
    print_message m = .ok (Line.said m.id (stringOf text)).bytes := by
  have hconn : m.kind ≠ MESG_CONN := by rw [h]; decide
  have hdcon : m.kind ≠ MESG_DCON := by rw [h]; decide
  have hstring : stringArg m.payload = .ok (stringOf text) := by
    rw [hpayload]
    exact Block.cstring_line text post
  rw [print_message, if_neg hconn, if_neg hdcon, if_pos h, hstring, ok_bind, Line.bytes, nameOf]
  by_cases hid : m.id = 0
  · rw [if_pos hid, if_pos hid]
    rfl
  · rw [if_neg hid, if_neg hid]
    simp only [List.append_assoc]
    rfl

theorem print_message_header (h : m.kind ≠ MESG_DATA) (hlength : m.length = 0) :
    print_message m = .ok m.shown := by
  unfold print_message Message.shown Message.line
  by_cases hconn : m.kind = MESG_CONN
  · rw [if_pos hconn, if_pos hconn]
    by_cases hid : m.id = 0
    · rw [if_pos hid, if_pos hid]
      rfl
    · rw [if_neg hid, if_neg hid, Option.elim_some, Line.bytes, nameOf, if_neg hid]
      simp only [List.append_assoc]
      rfl
  rw [if_neg hconn, if_neg hconn]
  by_cases hdcon : m.kind = MESG_DCON
  · rw [if_pos hdcon, if_pos hdcon, Option.elim_some, Line.bytes]
    by_cases hid : m.id = 0
    · rw [if_pos hid, if_pos hid, hlength]
      rfl
    · rw [if_neg hid, if_neg hid, nameOf, if_neg hid]
      simp only [List.append_assoc]
      rfl
  rw [if_neg hdcon, if_neg hdcon, if_neg h, if_neg h]
  rfl

theorem print_message_refusal (hkind : m.kind = MESG_DCON) (hid : m.id = 0)
    (hlength : 0 < m.length) {reason post : List UInt8}
    (hpayload : m.payload = some (reason ++ 0 :: post)) :
    print_message m = .ok (Line.refused (stringOf reason)).bytes := by
  have hconn : m.kind ≠ MESG_CONN := by rw [hkind]; decide
  have hstring : stringArg m.payload = .ok (stringOf reason) := by
    rw [hpayload]
    exact Block.cstring_line reason post
  rw [print_message, if_neg hconn, if_pos hkind, if_pos hid, if_pos hlength, hstring, ok_bind]
  rfl

end print

/-! ## The receive loop -/

section receiver

variable {m : Message} {bytes : List UInt8} {r : Message} {text : List UInt8} (fuel : Nat)
  (rest out : List UInt8) {sched : List Answer}

theorem receiver_round_run (hround : Exchanges receiver_round bytes [] (· = some r))
    (hprint : print_message r = .ok text) (hs : Ready (bytes ++ rest).length sched) :
    ∃ sched', Ready rest.length sched' ∧ receiver (fuel + 1) ⟨bytes ++ rest, out, sched⟩ =
      if r.Closes then (text, .disconnected)
      else (text ++ (receiver fuel ⟨rest, out, sched'⟩).1,
        (receiver fuel ⟨rest, out, sched'⟩).2) := by
  obtain ⟨_, sched', rfl, hs', hrun⟩ := hround rest out sched rest.length (hs.mono (by simp))
  rw [List.append_nil] at hrun
  refine ⟨sched', hs', ?_⟩
  rw [receiver, hrun]
  simp only [hprint]
  rfl

theorem receiver_frame (h : Relayable m) (hs : Ready (m.header ++ m.body ++ rest).length sched) :
    ∃ sched', Ready rest.length sched' ∧
      receiver (fuel + 1) ⟨m.header ++ m.body ++ rest, out, sched⟩ =
        if m.Closes then (m.shown, .disconnected)
        else (m.shown ++ (receiver fuel ⟨rest, out, sched'⟩).1,
          (receiver fuel ⟨rest, out, sched'⟩).2) := by
  by_cases hkind : m.kind = MESG_DATA
  · obtain ⟨hpos, hle, -⟩ := h.queued.data hkind
    have hlen := h.queued.payloadOk.length_body
    have hround : Exchanges receiver_round (m.header ++ m.body) [] _ :=
      exchanges_receiver_round_data hkind hpos (by rw [hlen, Message.awaited_eq (by omega)])
    -- the last byte is overwritten, and cuts nothing else off
    have htext : (m.received m.body).payload = some (m.body.dropLast ++ 0 :: []) := by
      rw [Message.received, Nat.min_eq_left hle, ← hlen, List.dropLast_eq_take]
    have hprint := print_message_data (m := m.received m.body) hkind htext
    obtain ⟨sched', hs', hrun⟩ := receiver_round_run fuel rest out hround hprint hs
    refine ⟨sched', hs', hrun.trans ?_⟩
    rw [Message.shown, line_data hkind]
    rfl
  · have hlength : m.length = 0 := h.frame.resolve_left hkind
    have hbody : m.body = [] := by
      apply List.eq_nil_of_length_eq_zero
      rw [h.queued.payloadOk.length_body, hlength]
      rfl
    have hshown : Message.shown { m with payload := none } = m.shown := by
      unfold Message.shown Message.line
      simp only [if_neg hkind]
    have hprint := print_message_header (m := { m with payload := none }) hkind hlength
    rw [hshown] at hprint
    rw [hbody, List.append_nil] at hs ⊢
    obtain ⟨sched', hs', hrun⟩ :=
      receiver_round_run fuel rest out (exchanges_receiver_round_header hkind) hprint hs
    exact ⟨sched', hs', hrun⟩

end receiver

/-- **What the client prints**, for as many rounds as there are frames: the lines of the messages,
whatever follows them on the stream, and however it is split. -/
theorem receiver_frames {ms : List Message} (h : ∀ m ∈ ms, Relayable m) (rest out : List UInt8)
    {sched : List Answer} (hs : Ready (frames ms ++ rest).length sched) :
    receiver ms.length ⟨frames ms ++ rest, out, sched⟩ = display ms := by
  induction ms generalizing sched with
  | nil => rfl
  | cons m ms ih =>
    have hsplit : frames (m :: ms) ++ rest = m.header ++ m.body ++ (frames ms ++ rest) := by
      rw [frames, List.flatMap_cons, List.append_assoc]
      rfl
    rw [hsplit] at hs ⊢
    obtain ⟨sched', hs', hrun⟩ :=
      receiver_frame ms.length (frames ms ++ rest) out (h m List.mem_cons_self) hs
    have hrest := ih (fun m hm => h m (List.mem_cons_of_mem _ hm)) hs'
    rw [List.length_cons, hrun, hrest]
    rfl

end Cs2510.Chat
