import Cs2510.Chat.Client

/-!
# What a listener reads and what it relays (`handshake` and `listener` of `a1/server.c`)

`listener` is the input side of one listener thread: the messages it puts on the send queue, for
a stream of bytes and the kernel's answers to its `recv` calls. `relayed_frame_iff` says which of
them `send_message` turns into a frame that one round of the client's receiver consumes exactly:
the server lets a payload follow every header but `MESG_CONN` and `MESG_DCON`, the marshaller
writes `length` bytes behind every header, and the client reads a payload behind `MESG_DATA` only.
-/

namespace Cs2510.Chat
open Net

/-- The id handshaked, -1 when there is none, and the message (`none` for NULL). -/
def handshake : Net (Int × Option Message) := do
  match ← recv_header with
  | none => return (-1, none)
  | some m =>
    if m.kind ≠ MESG_CONN then return (-1, some m) else return (m.id.toNat, some m)

/-- How a round of the listener's receive loop ends. -/
inductive Received
  /-- a message is queued and the loop goes on -/
  | enqueue (m : Message)
  /-- `MESG_DCON` is queued as it came and the loop is left -/
  | leave (m : Message)
  /-- a duplicate `MESG_CONN` is dropped -/
  | drop
  /-- the payload failed and the loop is left -/
  | failed
  deriving DecidableEq, Repr

/-- One round of the loop in `listener`. -/
def receive_round : Net Received := do
  match ← recv_header with
  | none => fault .nullDeref
  | some m =>
    if m.kind = MESG_DCON then return .leave m
    else if m.kind = MESG_CONN then return .drop
    else
      let (ret, m) ← recv_payload m
      if ret ≠ 0 then return .failed else return .enqueue m

/-! What a round consumes of a frame, by the kind of its message. -/

section

variable {m : Message} {bytes : List UInt8}

theorem exchanges_receive_round_dcon (h : m.kind = MESG_DCON) :
    Exchanges receive_round m.header [] (· = .leave { m with payload := none }) := by
  refine (exchanges_recv_header m).bind_pure ?_
  rintro _ rfl
  simp only [if_pos h]
  exact Exchanges.pure rfl

theorem exchanges_receive_round_conn (h : m.kind = MESG_CONN) :
    Exchanges receive_round m.header [] (· = .drop) := by
  have hdcon : m.kind ≠ MESG_DCON := by rw [h]; decide
  refine (exchanges_recv_header m).bind_pure ?_
  rintro _ rfl
  simp only [if_neg hdcon, if_pos h]
  exact Exchanges.pure rfl

theorem exchanges_receive_round_message (hdcon : m.kind ≠ MESG_DCON) (hconn : m.kind ≠ MESG_CONN)
    (hpos : 0 < m.length.toNat) (hlen : bytes.length = m.awaited) :
    Exchanges receive_round (m.header ++ bytes) [] (· = .enqueue (m.received bytes)) := by
  refine (exchanges_recv_header m).bind ?_
  rintro _ rfl
  simp only [if_neg hdcon, if_neg hconn]
  refine (exchanges_recv_payload hpos hlen).bind_pure ?_
  rintro _ rfl
  exact Exchanges.pure rfl

end

/-- The messages queued by at most `fuel` rounds, in order. -/
def listener_loop : (fuel : Nat) → Socket → List Message
  | 0, _ => []
  | fuel + 1, s =>
    match receive_round s with
    | .ret (.enqueue m) s => m :: listener_loop fuel s
    | .ret (.leave m) _ => [m]
    | .ret .drop s => listener_loop fuel s
    | .ret .failed _ | .waiting | .fault _ => []

/-- The messages a listener queues: after an accepted handshake its own `MESG_CONN`, then those of
its receive loop. `client_hash_get` says which ids are known. -/
def listener (client_hash_get : UInt16 → Bool) (fuel : Nat) (s : Socket) : List Message :=
  match handshake s with
  | .ret (client_id, some m) s =>
    if client_id ≤ 0 then []
    else if client_hash_get m.id then
      create_message_header 0 m.id MESG_CONN :: listener_loop fuel s
    else []
  | .ret (_, none) _ | .waiting | .fault _ => []

/-- The bytes `send_message` writes for `m` are what one round of the client's receiver consumes. -/
def ConsumedExactly (m : Message) : Prop :=
  ∃ frame, Exchanges (send_message m) [] frame (· = 0) ∧
    Exchanges receiver_round frame [] fun r => r.isSome

/-- What is known of every message on the send queue. -/
structure Queued (m : Message) : Prop where
  payloadOk : m.PayloadOk
  data : m.kind = MESG_DATA → 0 < m.length.toNat ∧ m.length.toNat ≤ 2040 ∧ m.payload.isSome

theorem Queued.of_header {m : Message} (hpayload : m.payload = none) (hkind : m.kind ≠ MESG_DATA) :
    Queued m :=
  ⟨Message.payloadOk_of_none hpayload, fun h => absurd h hkind⟩

/-- A header comes without a payload. -/
theorem recv_header_ret {m : Message} {s s' : Socket} (h : recv_header s = .ret (some m) s') :
    m.payload = none := by
  obtain ⟨⟨ok, _, recv_buf⟩, s₁, -, h⟩ := bind_eq_ret.mp h
  cases ok with
  | false => cases h
  | true =>
    obtain ⟨m', s₂, hm', h⟩ := bind_eq_ret.mp h
    cases h
    cases hres : message_unmarshal_header recv_buf with
    | error f => rw [hres] at hm'; cases hm'
    | ok m'' =>
      rw [hres] at hm'
      cases hm'
      simp only [message_unmarshal_header, bind_eq_ok] at hres
      obtain ⟨_, -, _, -, _, -, hres⟩ := hres
      cases hres
      rfl

theorem receive_round_queued {m : Message} {s s' : Socket}
    (h : receive_round s = .ret (.enqueue m) s' ∨ receive_round s = .ret (.leave m) s') :
    Queued m := by
  have key : ∀ r, receive_round s = .ret r s' → r = .enqueue m ∨ r = .leave m → Queued m := by
    intro r h hr
    obtain ⟨header, s₁, hheader, h⟩ := bind_eq_ret.mp h
    cases header with
    | none => cases h
    | some header =>
      have hpayload := recv_header_ret hheader
      by_cases hdcon : header.kind = MESG_DCON
      · simp only [if_pos hdcon] at h
        cases h
        obtain hr | hr := hr <;> cases hr
        exact .of_header hpayload (by rw [hdcon]; decide)
      by_cases hconn : header.kind = MESG_CONN
      · simp only [if_neg hdcon, if_pos hconn] at h
        cases h
        obtain hr | hr := hr <;> cases hr
      simp only [if_neg hdcon, if_neg hconn] at h
      obtain ⟨⟨ret, m'⟩, s₂, hrecv, h⟩ := bind_eq_ret.mp h
      by_cases hret : ret ≠ 0
      · simp only [if_pos hret] at h
        cases h
        obtain hr | hr := hr <;> cases hr
      simp only [if_neg hret] at h
      cases h
      obtain hr | hr := hr <;> cases hr
      obtain rfl : ret = 0 := not_not.mp hret
      obtain ⟨-, -, hpos, hle, payload, hpay, hlen⟩ := recv_payload_ret hrecv
      refine ⟨fun b hb => ?_, fun _ => ⟨hpos, hle, by rw [hpay]; rfl⟩⟩
      rw [hpay] at hb
      cases hb
      exact hlen
  obtain h | h := h
  · exact key _ h (.inl rfl)
  · exact key _ h (.inr rfl)

theorem listener_loop_queued {fuel : Nat} {s : Socket} {m : Message}
    (h : m ∈ listener_loop fuel s) : Queued m := by
  induction fuel generalizing s with
  | zero => cases h
  | succ fuel ih =>
    rw [listener_loop] at h
    split at h
    · next hround =>
      obtain _ | ⟨_, h⟩ := h
      · exact receive_round_queued (.inl hround)
      · exact ih h
    · next hround =>
      obtain rfl := List.mem_singleton.mp h
      exact receive_round_queued (.inr hround)
    · exact ih h
    all_goals cases h

/-- Every message a listener queues has a payload of its length, if any, and a `MESG_DATA` message
has one of 1 to 2040 bytes. -/
theorem listener_queued {client_hash_get : UInt16 → Bool} {fuel : Nat} {s : Socket} {m : Message}
    (h : m ∈ listener client_hash_get fuel s) : Queued m := by
  rw [listener] at h
  split at h
  · split at h
    · cases h
    · split at h
      · obtain _ | ⟨_, h⟩ := h
        · exact .of_header rfl (show MESG_CONN ≠ MESG_DATA by decide)
        · exact listener_loop_queued h
      · cases h
  all_goals cases h

/-- A queued message is relayed as a frame the client consumes exactly if and only if it is a
`MESG_DATA` message or its header announces no payload. -/
theorem Queued.consumedExactly_iff {m : Message} (h : Queued m) :
    ConsumedExactly m ↔ m.kind = MESG_DATA ∨ m.length = 0 := by
  constructor
  · rintro ⟨frame, hsend, hround⟩
    by_contra hneither
    obtain ⟨hkind, hlength⟩ := not_or.mp hneither
    by_cases hsize : m.Marshals
    · -- the client stops at the header, and the payload is left on the stream
      obtain rfl := hsend.output_unique (exchanges_send_message hsize h.payloadOk)
      have hbody := (exchanges_receiver_round_header hkind).input_eq_nil hround
      have hzero : m.length.toNat = 0 := by rw [← h.payloadOk.length_body, hbody]; rfl
      exact hlength (UInt32.toNat_inj.mp hzero)
    · obtain ⟨f, hf⟩ := send_message_fault hsize
      exact Exchanges.not_of_fault hf hsend
  · intro hor
    by_cases hkind : m.kind = MESG_DATA
    · obtain ⟨hpos, hle, -⟩ := h.data hkind
      exact ⟨_, exchanges_send_message (by unfold Message.Marshals; omega) h.payloadOk,
        (exchanges_receiver_round_data hkind hpos
          (by rw [h.payloadOk.length_body, Message.awaited_eq (by omega)])).mono
          fun _ hr => hr ▸ rfl⟩
    · have hlength : m.length = 0 := hor.resolve_left hkind
      have hbody : m.body = [] := by
        apply List.eq_nil_of_length_eq_zero
        rw [h.payloadOk.length_body, hlength]
        rfl
      have hsize : m.Marshals := by
        rw [Message.Marshals, hlength]
        decide
      have hsend := exchanges_send_message hsize h.payloadOk
      rw [hbody, List.append_nil] at hsend
      exact ⟨_, hsend, (exchanges_receiver_round_header hkind).mono fun _ hr => hr ▸ rfl⟩

/-- **Relayed frames.** Whatever a client sends, each message its listener queues is consumed
exactly by the receivers it is relayed to if and only if it is a `MESG_DATA` message or its header
announces no payload. -/
theorem relayed_frame_iff {client_hash_get : UInt16 → Bool} {fuel : Nat} {s : Socket} {m : Message}
    (h : m ∈ listener client_hash_get fuel s) :
    ConsumedExactly m ↔ m.kind = MESG_DATA ∨ m.length = 0 :=
  (listener_queued h).consumedExactly_iff

/-- A client with id 7 that connects, sends "hi" and leaves with a `MESG_DCON` header that
announces five bytes. -/
def dconWithLength : Socket where
  input := [0, 7, 0, 1, 0, 0, 0, 0] ++ [0, 7, 0, 0, 0, 0, 0, 3, 104, 105, 0] ++
    [0, 7, 0, 2, 0, 0, 0, 5]
  output := []
  sched := List.replicate 4 (.moves 99)

theorem relayed_frame_iff_data :
    ConsumedExactly ⟨7, MESG_DATA, 3, some [104, 105, 0]⟩ ↔
      MESG_DATA = MESG_DATA ∨ (3 : UInt32) = 0 := by
  have hm : (⟨7, MESG_DATA, 3, some [104, 105, 0]⟩ : Message) ∈
      listener (fun id => id = 7) 3 dconWithLength := by decide
  exact relayed_frame_iff hm

/-- The farewell of that client desynchronises every stream it is relayed to. -/
theorem not_consumedExactly_dcon :
    ¬ ∀ client_hash_get fuel s, ∀ m ∈ listener client_hash_get fuel s, ConsumedExactly m := by
  intro h
  have hm : (⟨7, MESG_DCON, 5, none⟩ : Message) ∈ listener (fun id => id = 7) 3 dconWithLength := by
    decide
  have hiff := (listener_queued hm).consumedExactly_iff
  exact absurd (hiff.mp (h _ _ _ _ hm)) (by decide)

end Cs2510.Chat
