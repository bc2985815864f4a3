import Cs2510.Lib.Exchange
import Cs2510.Chat.Message

/-!
# Messages over a socket (`a1/message_net.c`)

Each function is followed by what it exchanges with the socket: `recv_header` consumes the eight
header bytes, `recv_payload` the `length` bytes behind them (a length that fits an `int`), and
`send_message` writes one frame.
-/

namespace Cs2510.Chat
open Net

/-- `none` is the NULL of a failed `recv`. -/
def recv_header : Net (Option Message) := do
  let (ok, _, recv_buf) ← transfer MESG_HEADER_LEN 0 (List.replicate MESG_HEADER_LEN 0)
    fun recvd recv_buf => recv recv_buf recvd (MESG_HEADER_LEN - recvd)
  if ok then
    let m ← ofExcept (message_unmarshal_header recv_buf)
    return some m
  else return none

/-- The second half of `recv_payload`: read and drop what exceeds the kept part. -/
def discard (recvd : Nat) (recv_len : Int) : Net Bool :=
  if recvd < recv_len then do
    let discard_buf : Block := List.replicate 2048 0
    let (ok, _, _) ← transfer recv_len.toNat recvd discard_buf
      fun recvd discard_buf => recv discard_buf 0 (min (recv_len.toNat - recvd) 2048)
    return ok
  else return true

/-- `(m->length <= MESG_MAX_LEN) ? m->length : MESG_MAX_LEN` -/
def clip (length : UInt32) : UInt32 :=
  if length ≤ MESG_MAX_LEN then length else MESG_MAX_LEN

/-- The return value (0, or the negative result of a failed `recv`) and the message, which the
source changes in place. What a block from `malloc` holds is not specified; all of it is
overwritten before it is read. -/
def recv_payload (m : Message) : Net (Int × Message) := do
  let recv_len := m.length.toInt32.toInt
  let length := clip m.length
  let (ok, recvd, payload) ← transfer length.toNat 0 (List.replicate length.toNat 0)
    fun recvd payload => recv payload recvd (length.toNat - recvd)
  if ok then
    let ok ← discard recvd recv_len
    if ok then
      -- the index is unsigned: without a payload it wraps around
      let payload ← ofExcept (Block.write payload (length - 1).toNat [0])
      return (0, { m with length, payload := some payload })
    else return (-1, { m with length, payload := some payload })
  else return (-1, { m with length, payload := some payload })

def send_message (m : Message) : Net Int := do
  let (mesg_bytes, send_len) ← ofExcept (message_marshal (some m))
  match mesg_bytes with
  | none => return -1
  | some mesg_bytes =>
    if send_len = 0 then return -1
    else
      let (ok, _, _) ← transfer send_len.toNat 0 () fun sent _ => do
        let n ← send mesg_bytes sent (send_len.toNat - sent)
        pure (n, ())
      return if ok then 0 else -1

theorem toNat_clip (length : UInt32) : (clip length).toNat = min length.toNat 2040 := by
  have h : length ≤ MESG_MAX_LEN ↔ length.toNat ≤ 2040 := UInt32.le_iff_toNat_le
  unfold clip
  by_cases hle : length ≤ MESG_MAX_LEN
  · rw [if_pos hle]
    have := h.mp hle
    omega
  · rw [if_neg hle]
    have : (MESG_MAX_LEN).toNat = 2040 := rfl
    have := mt h.mpr hle
    omega

theorem clip_clip (length : UInt32) : clip (clip length) = clip length := by
  apply UInt32.toNat_inj.mp
  simp only [toNat_clip]
  omega

/-- A message as `recv_payload` leaves it: clipped, and with its last byte overwritten. -/
def Message.received (m : Message) (bytes : List UInt8) : Message :=
  { m with
    length := clip m.length
    payload := some (bytes.take (min m.length.toNat 2040 - 1) ++ [0]) }

theorem exchanges_recv_header (m : Message) :
    Exchanges recv_header m.header [] (· = some { m with payload := none }) := by
  refine (exchanges_fill List.length_replicate m.length_header).bind_pure ?_
  rintro _ rfl
  simp only [if_true, message_unmarshal_header_eq, ofExcept_ok]
  exact Exchanges.pure rfl

/-- The last byte of the payload is overwritten in place. -/
theorem write_last {length : UInt32} {payload : Block} (hpos : 0 < length.toNat)
    (hlen : payload.length = length.toNat) :
    Block.write payload (length - 1).toNat [0] =
      .ok (payload.take (length.toNat - 1) ++ [0]) := by
  have hlast : (length - 1).toNat = length.toNat - 1 := by
    rw [UInt32.toNat_sub_of_le _ _ (by rw [UInt32.le_iff_toNat_le]; exact hpos)]
    rfl
  refine Block.write_eq_ok.mpr ⟨by rw [hlast, hlen]; simp; omega, ?_⟩
  rw [hlast, List.drop_eq_nil_of_le (by simp; omega), List.append_nil]

theorem exchanges_discard {recvd n : Nat} {bytes : List UInt8} (h : bytes.length = n - recvd) :
    Exchanges (discard recvd n) bytes [] (· = true) := by
  unfold discard
  by_cases hmore : (recvd : Int) < n
  · rw [if_pos hmore, Int.toNat_natCast]
    have hbuf : (List.replicate 2048 (0 : UInt8)).length = 2048 := List.length_replicate
    have hdrain := exchanges_drain (by omega : recvd + bytes.length = n)
      (by rw [hbuf]; decide : 0 < (List.replicate 2048 (0 : UInt8)).length)
    rw [hbuf] at hdrain
    refine hdrain.bind_pure ?_
    rintro ⟨ok, recvd, buf⟩ ⟨rfl, -⟩
    exact Exchanges.pure rfl
  · have hnone : bytes = [] := List.eq_nil_of_length_eq_zero (by omega)
    rw [if_neg hmore, hnone]
    exact Exchanges.pure rfl

/-- `recv_len`: the length, read as an `int`. -/
theorem recv_len_eq (m : Message) : m.length.toInt32.toInt =
    if m.length.toNat < 2 ^ 31 then (m.length.toNat : Int) else m.length.toNat - 2 ^ 32 := by
  have hlt := m.length.toNat_lt
  change m.length.toBitVec.toInt = _
  rw [BitVec.toInt_eq_toNat_cond]
  change (if 2 * m.length.toNat < 2 ^ 32 then (m.length.toNat : Int)
    else m.length.toNat - (2 ^ 32 : Nat)) = _
  split <;> split <;> omega

/-- How many bytes `recv_payload` waits for: the length or, where that is negative as an `int`, what
is kept of it. -/
def Message.awaited (m : Message) : Nat :=
  if m.length.toNat < 2 ^ 31 then m.length.toNat else 2040

theorem Message.awaited_eq {m : Message} (h : m.length.toNat < 2 ^ 31) :
    m.awaited = m.length.toNat := if_pos h

/-- Where the length does not fit an `int`, nothing is left to be discarded. -/
theorem exchanges_discard_rest {m : Message} {bytes : List UInt8}
    (hlen : bytes.length = m.awaited - (clip m.length).toNat) :
    Exchanges (discard (clip m.length).toNat m.length.toInt32.toInt) bytes [] (· = true) := by
  have hclip := toNat_clip m.length
  have hlt := m.length.toNat_lt
  rw [recv_len_eq]
  unfold Message.awaited at hlen
  by_cases hint : m.length.toNat < 2 ^ 31
  · rw [if_pos hint] at hlen ⊢
    exact exchanges_discard hlen
  · rw [if_neg hint] at hlen ⊢
    have hnone : bytes = [] := List.eq_nil_of_length_eq_zero (by omega)
    rw [hnone, discard, if_neg (by omega)]
    exact Exchanges.pure rfl

/-- `recv_payload` consumes what it waits for, as long as the length is positive. -/
theorem exchanges_recv_payload {m : Message} {bytes : List UInt8}
    (hpos : 0 < m.length.toNat) (hlen : bytes.length = m.awaited) :
    Exchanges (recv_payload m) bytes [] (· = (0, m.received bytes)) := by
  have hclip := toNat_clip m.length
  have hrest : (bytes.drop (clip m.length).toNat).length = m.awaited - (clip m.length).toNat := by
    rw [List.length_drop, hlen]
  have hdiscard := exchanges_discard_rest hrest
  have hle : (clip m.length).toNat ≤ m.awaited := by
    unfold Message.awaited
    split <;> omega
  generalize hlength : clip m.length = length at hclip hdiscard hle
  have hkeep : (bytes.take length.toNat).length = length.toNat := by simp; omega
  have hfill := exchanges_fill (List.length_replicate (a := (0 : UInt8))) hkeep
  have hwrite := write_last (by omega : 0 < length.toNat) hkeep
  have hdone : Exchanges (do
      let payload ← ofExcept (Block.write (bytes.take length.toNat) (length - 1).toNat [0])
      return ((0 : Int), { m with length, payload := some payload })) [] []
      (· = (0, m.received bytes)) := by
    rw [hwrite, ofExcept_ok]
    refine Exchanges.pure ?_
    simp only [Message.received, hlength, ← hclip, List.take_take,
      Nat.min_eq_left (Nat.sub_le length.toNat 1)]
  have hall : Exchanges (recv_payload m) (bytes.take length.toNat ++ bytes.drop length.toNat)
      ([] ++ []) (· = (0, m.received bytes)) := by
    rw [recv_payload]
    simp only [hlength]
    refine hfill.bind ?_
    rintro _ rfl
    refine hdiscard.bind_pure ?_
    rintro _ rfl
    exact hdone
  simpa using hall

/-- An empty payload has no last byte to overwrite. -/
theorem recv_payload_fault {m : Message} (h : m.length = 0) (s : Socket) :
    recv_payload m s = .fault .outOfBounds := by
  rw [recv_payload, h]
  rfl

/-- However its calls end, `recv_payload` returns 0 only with a payload of `length` bytes, at least
one and at most `MESG_MAX_LEN`, and keeps the id and the kind. -/
theorem recv_payload_ret {m m' : Message} {s s' : Socket}
    (h : recv_payload m s = .ret (0, m') s') :
    m'.id = m.id ∧ m'.kind = m.kind ∧ 0 < m'.length.toNat ∧ m'.length.toNat ≤ 2040 ∧
      ∃ payload, m'.payload = some payload ∧ payload.length = m'.length.toNat := by
  rw [recv_payload] at h
  have hclip := toNat_clip m.length
  generalize clip m.length = length at h hclip
  obtain ⟨⟨ok, recvd, payload⟩, s₁, hloop, h⟩ := bind_eq_ret.mp h
  have hlen : payload.length = length.toNat :=
    ioLoop_invariant (I := fun b : Block => b.length = length.toNat)
      (fun _ _ _ _ _ _ hb hr => (length_recv hr).trans hb) (by simp) hloop
  cases ok with
  | false => cases h
  | true =>
    obtain ⟨ok, s₂, -, h⟩ := bind_eq_ret.mp h
    cases ok with
    | false => cases h
    | true =>
      obtain ⟨payload', s₃, hwrite, h⟩ := bind_eq_ret.mp h
      cases h
      cases hw : Block.write payload (length - 1).toNat [0] with
      | error f => rw [hw] at hwrite; cases hwrite
      | ok b =>
        rw [hw] at hwrite
        cases hwrite
        have hfit := (Block.write_eq_ok.mp hw).1
        simp only [List.length_singleton, hlen] at hfit
        have hpos : 0 < length.toNat := by omega
        have hle : length.toNat ≤ 2040 := by omega
        exact ⟨rfl, rfl, hpos, hle, _, rfl, (Block.length_write hw).trans hlen⟩

/-- `send_message` writes the header and exactly `length` bytes behind it. -/
theorem exchanges_send_message {m : Message} (hsize : m.Marshals) (hpayload : m.PayloadOk) :
    Exchanges (send_message m) [] (m.header ++ m.body) (· = 0) := by
  have hlen : (m.header ++ m.body).length = (8 + m.length.toNat : Int).toNat := by
    simp only [List.length_append, m.length_header, hpayload.length_body]
    omega
  have hne : ¬ (8 + m.length.toNat : Int) = 0 := by omega
  have hsend : send_message m = do
      let (ok, _, _) ← transfer (8 + m.length.toNat : Int).toNat 0 () fun sent _ => do
        let n ← send (m.header ++ m.body) sent ((8 + m.length.toNat : Int).toNat - sent)
        pure (n, ())
      return if ok then 0 else -1 := by
    rw [send_message, message_marshal_eq hsize hpayload, ofExcept_ok, Net.pure_bind]
    exact if_neg hne
  rw [hsend]
  refine (exchanges_flush hlen).bind_pure ?_
  rintro _ rfl
  exact Exchanges.pure rfl

/-- A message whose size does not fit an `int` is never sent: marshalling it faults. -/
theorem send_message_fault {m : Message} (h : ¬ m.Marshals) :
    ∃ f, ∀ s, send_message m s = .fault f := by
  obtain ⟨f, hf⟩ := message_marshal_fault h
  refine ⟨f, fun s => ?_⟩
  simp only [send_message, hf]
  exact bind_fault rfl

end Cs2510.Chat
