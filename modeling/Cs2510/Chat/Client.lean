import Cs2510.Chat.MessageNet

/-!
# Frames as the client reads them (`a1/client.c`)

`receiver_round` is one round of the client's receive loop: a header, and a payload when the kind
is `MESG_DATA`. A message the program itself builds (`Built`) survives the trip over the wire:
`wire_round_trip` sends any sequence of them through one socket and reads the same sequence back
from another, however the transfers are split.
-/

namespace Cs2510.Chat
open Net

/-- One round of the loop in `receiver`; `none` when the loop ends on a failed payload. -/
def receiver_round : Net (Option Message) := do
  match ← recv_header with
  | none => fault .nullDeref
  | some m =>
    if m.kind = MESG_DATA then
      let (ret, m) ← recv_payload m
      if ret = -1 then return none else return some m
    else return some m

/-- What a round does on a frame whose payload it does not expect: it consumes the header. -/
theorem exchanges_receiver_round_header {m : Message} (h : m.kind ≠ MESG_DATA) :
    Exchanges receiver_round m.header [] (· = some { m with payload := none }) := by
  refine (exchanges_recv_header m).bind_pure ?_
  rintro _ rfl
  simp only [if_neg h]
  exact Exchanges.pure rfl

/-- What a round does on a `MESG_DATA` frame: it consumes the header and the payload. -/
theorem exchanges_receiver_round_data {m : Message} {bytes : List UInt8} (h : m.kind = MESG_DATA)
    (hpos : 0 < m.length.toNat) (hlen : bytes.length = m.awaited) :
    Exchanges receiver_round (m.header ++ bytes) [] (· = some (m.received bytes)) := by
  refine (exchanges_recv_header m).bind ?_
  rintro _ rfl
  simp only [if_pos h]
  refine (exchanges_recv_payload hpos hlen).bind_pure ?_
  rintro _ rfl
  exact Exchanges.pure rfl

/-- The messages the program builds itself. -/
inductive Built : Message → Prop
  | data {length : UInt32} {id : UInt16} {payload : Block} {m : Message} :
      1 ≤ length → create_message length id MESG_DATA payload = .ok m → Built m
  | conn (id : UInt16) : Built (create_message_header 0 id MESG_CONN)
  | dcon (id : UInt16) : Built (create_message_header 0 id MESG_DCON)

/-- `create_message` clips and terminates the payload just as `recv_payload` does. -/
theorem create_message_ok {length : UInt32} {id kind : UInt16} {payload : Block} {m : Message}
    (hpos : 1 ≤ length) (h : create_message length id kind payload = .ok m) :
    m = (create_message_header length id kind).received payload ∧
      min length.toNat 2040 ≤ payload.length := by
  have hclip := toNat_clip length
  have hite : (if length > MESG_MAX_LEN then MESG_MAX_LEN else length) = clip length := by
    simp only [gt_iff_lt, ← UInt32.not_le, ite_not, clip]
  have hpos' : 0 < length.toNat := UInt32.le_iff_toNat_le.mp hpos
  simp only [create_message, hite, bind_eq_ok] at h
  obtain ⟨bytes, hread, bytes', hwrite, h⟩ := h
  cases h
  unfold Block.read at hread
  split at hread
  · next hfit =>
    cases hread
    have hlen : (payload.take (clip length).toNat).length = (clip length).toNat := by simp; omega
    rw [List.drop_zero, write_last (by omega) hlen, List.take_take, hclip,
      Nat.min_eq_left (Nat.sub_le _ 1)] at hwrite
    cases hwrite
    exact ⟨rfl, by omega⟩
  · cases hread

/-- What `recv_payload` left is left as it is by a second transfer. -/
theorem Message.received_idem (m : Message) {bytes : Block} (hpos : 0 < m.length.toNat)
    (hfit : min m.length.toNat 2040 ≤ bytes.length) :
    ∃ payload, (m.received bytes).payload = some payload ∧
      payload.length = (m.received bytes).length.toNat ∧
      (m.received bytes).received payload = m.received bytes := by
  have hclip := toNat_clip m.length
  refine ⟨_, rfl, by simp [Message.received, hclip]; omega, ?_⟩
  simp only [Message.received, clip_clip, hclip]
  rw [Nat.min_eq_left (Nat.min_le_right _ 2040), List.take_append_of_le_length (by simp; omega),
    List.take_take, Nat.min_self]

/-- A header-only message is sent as its header, which one round of the receiver reads back. -/
theorem create_message_header_exchanges (id : UInt16) {kind : UInt16} (h : kind ≠ MESG_DATA) :
    let m := create_message_header 0 id kind
    Exchanges (send_message m) [] (m.header ++ m.body) (· = 0) ∧
      Exchanges receiver_round (m.header ++ m.body) [] (· = some m) :=
  ⟨exchanges_send_message (by simp [Message.Marshals, create_message_header])
      (Message.payloadOk_of_none rfl),
    exchanges_receiver_round_header h⟩

/-- A built message is sent as one frame, which one round of the receiver reads back. -/
theorem Built.exchanges {m : Message} (h : Built m) :
    Exchanges (send_message m) [] (m.header ++ m.body) (· = 0) ∧
      Exchanges receiver_round (m.header ++ m.body) [] (· = some m) := by
  cases h with
  | @data length id payload _ hpos hm =>
    obtain ⟨rfl, hfit⟩ := create_message_ok hpos hm
    have hpos' : 0 < length.toNat := UInt32.le_iff_toNat_le.mp hpos
    obtain ⟨bytes, hbytes, hlen, hidem⟩ :=
      (create_message_header length id MESG_DATA).received_idem hpos' hfit
    have hclip := toNat_clip length
    change _ = (clip length).toNat at hlen
    have hbody : ((create_message_header length id MESG_DATA).received payload).body = bytes := by
      rw [Message.body, hbytes]; rfl
    rw [hbody]
    constructor
    · have hok : ((create_message_header length id MESG_DATA).received payload).PayloadOk := by
        intro b hb
        rw [hbytes] at hb
        cases hb
        exact hlen
      have hsize : ((create_message_header length id MESG_DATA).received payload).Marshals := by
        change 8 + (clip length).toNat < 2 ^ 31
        omega
      exact hbody ▸ exchanges_send_message hsize hok
    · have hawaited := Message.awaited_eq
        (m := (create_message_header length id MESG_DATA).received payload)
        (by change (clip length).toNat < _; omega)
      have hround := @exchanges_receiver_round_data
        ((create_message_header length id MESG_DATA).received payload) bytes rfl
        (by change 0 < (clip length).toNat; omega) (hlen.trans hawaited.symm)
      rwa [hidem] at hround
  | conn id => exact create_message_header_exchanges id (by decide)
  | dcon id => exact create_message_header_exchanges id (by decide)

/-! ## Whole streams -/

def send_messages : List Message → Net (List Int)
  | [] => return []
  | m :: ms => do
    let ret ← send_message m
    let rets ← send_messages ms
    return ret :: rets

/-- The next `n` messages of the stream, as long as no payload fails. -/
def receive_messages : Nat → Net (List Message)
  | 0 => return []
  | n + 1 => do
    match ← receiver_round with
    | none => return []
    | some m =>
      let ms ← receive_messages n
      return m :: ms

def frames (ms : List Message) : List UInt8 := ms.flatMap fun m => m.header ++ m.body

theorem exchanges_send_messages {ms : List Message} (h : ∀ m ∈ ms, Built m) :
    Exchanges (send_messages ms) [] (frames ms) (· = ms.map fun _ => 0) := by
  induction ms with
  | nil => exact Exchanges.pure rfl
  | cons m ms ih =>
    have hm := (h m List.mem_cons_self).exchanges.1
    have hms := ih fun m hm => h m (List.mem_cons_of_mem _ hm)
    refine hm.bind ?_
    rintro _ rfl
    refine hms.bind_pure ?_
    rintro _ rfl
    exact Exchanges.pure rfl

theorem exchanges_receive_messages {ms : List Message} (h : ∀ m ∈ ms, Built m) :
    Exchanges (receive_messages ms.length) (frames ms) [] (· = ms) := by
  induction ms with
  | nil => exact Exchanges.pure rfl
  | cons m ms ih =>
    have hm := (h m List.mem_cons_self).exchanges.2
    have hms := ih fun m hm => h m (List.mem_cons_of_mem _ hm)
    refine hm.bind ?_
    rintro _ rfl
    refine hms.bind_pure ?_
    rintro _ rfl
    exact Exchanges.pure rfl

/-- **Round trip over the wire.** Any sequence of built messages, sent through one socket and read
from another that first delivers what was sent, comes out as it went in, and what follows on the
stream is left unread. -/
theorem wire_round_trip {ms : List Message} (h : ∀ m ∈ ms, Built m) {σ τ : List Answer}
    (hσ : Ready (frames ms).length σ) (hτ : Ready (frames ms).length τ) (rest : List UInt8) :
    ∃ sent σ' τ', send_messages ms ⟨[], [], σ⟩ = .ret (ms.map fun _ => 0) ⟨[], sent, σ'⟩ ∧
      receive_messages ms.length ⟨sent ++ rest, [], τ⟩ = .ret ms ⟨rest, [], τ'⟩ := by
  obtain ⟨_, σ', rfl, -, hsend⟩ := exchanges_send_messages h [] [] σ 0 (by simpa using hσ)
  obtain ⟨_, τ', hms, -, hrecv⟩ := exchanges_receive_messages h rest [] τ 0 (by simpa using hτ)
  rw [hms] at hrecv
  exact ⟨frames ms, σ', τ', by simpa using hsend, by simpa using hrecv⟩

/-- A data message and the two header-only ones, sent a byte at a time and read three at a time. -/
theorem wire_round_trip_three :
    let hi : Message := ⟨7, MESG_DATA, 3, some [104, 105, 0]⟩
    let ms := [create_message_header 0 7 MESG_CONN, hi, create_message_header 0 7 MESG_DCON]
    ∃ sent σ' τ',
      send_messages ms ⟨[], [], List.replicate 27 (.moves 0)⟩ = .ret [0, 0, 0] ⟨[], sent, σ'⟩ ∧
        receive_messages 3 ⟨sent ++ [9], [], List.replicate 27 (.moves 2)⟩ =
          .ret ms ⟨[9], [], τ'⟩ := by
  refine wire_round_trip ?_ (Ready.replicate _ _) (Ready.replicate _ _) [9]
  intro m hm
  simp only [List.mem_cons, List.not_mem_nil, or_false] at hm
  rcases hm with rfl | rfl | rfl
  · exact .conn 7
  · exact @Built.data 3 7 [104, 105, 106] _ (by decide) rfl
  · exact .dcon 7

end Cs2510.Chat
