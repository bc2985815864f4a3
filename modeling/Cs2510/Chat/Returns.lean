import Cs2510.Lib.Transfer
import Cs2510.Chat.Greeting

/-!
# What is on the stream when a call of `a1/message_net.c` returns

Whatever the kernel answers: `send_message` has written the frame, or, if it returns -1, a proper
beginning of it; `recv_header` and `recv_payload` have taken the next bytes of the stream, and a
message they return is the one these bytes stand for.
-/

namespace Cs2510.Chat
open Net

/-- `out` is what a `send_message` leaves of the frame of `m`: all of it exactly if it returns 0. -/
structure Message.Leaves (m : Message) (ok : Bool) (out : List UInt8) : Prop where
  begins : out <+: m.frame
  whole : ok = true ↔ out = m.frame

/-- However its calls end, `send_message` has written the beginning of the frame, all of it if it
returns 0. -/
theorem send_message_ret {m : Message} (hsize : m.Marshals) (hpayload : m.PayloadOk)
    {s s' : Socket} {r : Int} (h : send_message m s = .ret r s') :
    s'.input = s.input ∧
      ∃ out, s'.output = s.output ++ out ∧ m.Leaves (decide (r = 0)) out := by
  have hlen : m.frame.length = 8 + m.length.toNat := by
    rw [Message.frame, List.length_append, m.length_header, hpayload.length_body]
  have hwant : (8 + m.length.toNat : Int).toNat = m.frame.length := by
    rw [hlen]
    omega
  rw [send_message, message_marshal_eq hsize hpayload, ofExcept_ok, Net.pure_bind] at h
  simp only [if_neg (by omega : ¬(8 + m.length.toNat : Int) = 0), hwant] at h
  obtain ⟨⟨ok, done, ⟨⟩⟩, s₁, hloop, h⟩ := bind_eq_ret.mp h
  obtain ⟨hinput, hok, hle, houtput⟩ := flush_ret hloop
  cases h
  refine ⟨hinput, m.frame.take done, houtput, List.take_prefix _ _, ?_⟩
  have hret : ((if ok = true then (0 : Int) else -1) = 0) ↔ ok = true := by
    cases ok <;> simp
  rw [decide_eq_true_iff, hret, hok]
  constructor
  · rintro rfl
    rw [List.take_length]
  · intro hall
    have hlength := congrArg List.length hall
    rw [List.length_take] at hlength
    omega

theorem send_message_zero_or {m : Message} {s s' : Socket} {r : Int}
    (h : send_message m s = .ret r s') : r = 0 ∨ r = -1 := by
  obtain ⟨⟨mesg_bytes, send_len⟩, s₁, -, h⟩ := bind_eq_ret.mp h
  cases mesg_bytes with
  | none =>
    cases h
    exact .inr rfl
  | some mesg_bytes =>
    simp only at h
    split at h
    · cases h
      exact .inr rfl
    · obtain ⟨⟨ok, done, b⟩, s₂, -, h⟩ := bind_eq_ret.mp h
      cases h
      cases ok
      · exact .inr rfl
      · exact .inl rfl

theorem recv_header_took {r : Option Message} {s s' : Socket} (h : recv_header s = .ret r s') :
    ∃ inp, Took s s' inp ∧ ∀ m ∈ r, inp = m.header ∧ m.payload = none := by
  obtain ⟨⟨ok, done, recv_buf⟩, s₁, hloop, h⟩ := bind_eq_ret.mp h
  obtain ⟨inp, htook, hok⟩ := fill_ret List.length_replicate hloop
  cases ok with
  | false =>
    cases h
    exact ⟨inp, htook, by rintro _ ⟨⟩⟩
  | true =>
    obtain ⟨hlen, -, rfl⟩ := hok rfl
    obtain ⟨id, kind, length, hheader⟩ := Message.exists_header hlen
    simp only [if_true, ← hheader, message_unmarshal_header_eq, ofExcept_ok] at h
    cases h
    refine ⟨recv_buf, htook, ?_⟩
    rintro _ ⟨⟩
    exact ⟨hheader.symm, rfl⟩

/-- The rest of a payload that is too long has been taken as well, unless a call has failed. -/
theorem discard_took {recvd : Nat} {recv_len : Int} {s s' : Socket} {ok : Bool}
    (h : discard recvd recv_len s = .ret ok s') :
    ∃ inp, Took s s' inp ∧ (ok = true → inp.length = recv_len.toNat - recvd) := by
  unfold discard at h
  split at h
  · next hmore =>
    obtain ⟨⟨ok', done, buf⟩, s₁, hloop, h⟩ := bind_eq_ret.mp h
    cases h
    obtain ⟨inp, htook, hok⟩ := drain_ret (by omega) hloop
    exact ⟨inp, htook, fun h => by have := hok h; omega⟩
  · cases h
    exact ⟨[], .refl _, fun _ => by rw [List.length_nil]; omega⟩

/-- The bytes the length announces have been taken, if 0 is returned. -/
theorem recv_payload_took {m m' : Message} {r : Int} {s s' : Socket}
    (h : recv_payload m s = .ret (r, m') s') :
    ∃ inp, Took s s' inp ∧
      (r = 0 → 0 < m.length.toNat ∧ inp.length = m.awaited ∧ m' = m.received inp) := by
  have hclip := toNat_clip m.length
  have hlt := m.length.toNat_lt
  rw [recv_payload] at h
  obtain ⟨⟨ok, recvd, payload⟩, s₁, hloop, h⟩ := bind_eq_ret.mp h
  obtain ⟨inp, htook, hok⟩ := fill_ret List.length_replicate hloop
  cases ok with
  | false =>
    cases h
    exact ⟨inp, htook, by rintro ⟨⟩⟩
  | true =>
    obtain ⟨hlen, hrecvd, rfl⟩ := hok rfl
    obtain ⟨ok, s₂, hdiscard, h⟩ := bind_eq_ret.mp h
    obtain ⟨inp', htook', hok'⟩ := discard_took hdiscard
    cases ok with
    | false =>
      cases h
      exact ⟨payload ++ inp', htook.trans htook', by rintro ⟨⟩⟩
    | true =>
      have hrest := hok' rfl
      have hpos : 0 < m.length.toNat := by
        by_contra hzero
        have hlength : clip m.length = 0 := UInt32.toNat_inj.mp (by rw [hclip]; change _ = 0; omega)
        have hnil : payload = [] := List.eq_nil_of_length_eq_zero (by rw [hlen, hclip]; omega)
        rw [hlength, hnil] at h
        cases h
      have hwrite := write_last (by omega : 0 < (clip m.length).toNat) hlen
      simp only [if_true, hwrite, ofExcept_ok] at h
      cases h
      refine ⟨payload ++ inp', htook.trans htook', fun _ => ⟨hpos, ?_, ?_⟩⟩
      · rw [List.length_append, hlen, hrest, recv_len_eq, hrecvd, hclip]
        unfold Message.awaited
        split <;> omega
      · rw [Message.received, ← hclip, List.take_append_of_le_length (by omega)]

/-! ## Faults -/

theorem send_message_no_fault {m : Message} (hsize : m.Marshals) (hpayload : m.PayloadOk)
    (s : Socket) (f : Fault) : send_message m s ≠ .fault f := by
  have hlen : m.frame.length = 8 + m.length.toNat := by
    rw [Message.frame, List.length_append, m.length_header, hpayload.length_body]
  rw [send_message, message_marshal_eq hsize hpayload, ofExcept_ok, Net.pure_bind]
  simp only [if_neg (by omega : ¬(8 + m.length.toNat : Int) = 0)]
  intro h
  obtain h | ⟨_, _, -, h⟩ := bind_eq_fault.mp h
  · exact flush_no_fault (by rw [← Message.frame, hlen]; omega) s f h
  · cases h

theorem recv_header_no_fault (s : Socket) (f : Fault) : recv_header s ≠ .fault f := by
  intro h
  obtain h | ⟨⟨ok, done, recv_buf⟩, s₁, hloop, h⟩ := bind_eq_fault.mp h
  · exact fill_no_fault List.length_replicate s f h
  · obtain ⟨inp, -, hok⟩ := fill_ret List.length_replicate hloop
    cases ok with
    | false => cases h
    | true =>
      obtain ⟨hlen, -, rfl⟩ := hok rfl
      obtain ⟨id, kind, length, hheader⟩ := Message.exists_header hlen
      simp only [if_true, ← hheader, message_unmarshal_header_eq, ofExcept_ok] at h
      cases h

/-- The last byte of an empty payload is the only one that is not there. -/
theorem recv_payload_no_fault {m : Message} (hlength : m.length ≠ 0) (s : Socket) (f : Fault) :
    recv_payload m s ≠ .fault f := by
  have hclip := toNat_clip m.length
  have hpos : 0 < m.length.toNat := by
    rw [Nat.pos_iff_ne_zero]
    exact fun h => hlength (UInt32.toNat_inj.mp h)
  intro h
  rw [recv_payload] at h
  obtain h | ⟨⟨ok, recvd, payload⟩, s₁, hloop, h⟩ := bind_eq_fault.mp h
  · exact fill_no_fault List.length_replicate s f h
  obtain ⟨inp, -, hok⟩ := fill_ret List.length_replicate hloop
  cases ok with
  | false => cases h
  | true =>
    obtain ⟨hlen, -, rfl⟩ := hok rfl
    obtain h | ⟨ok, s₂, -, h⟩ := bind_eq_fault.mp h
    · unfold discard at h
      split at h
      · obtain h | ⟨_, _, -, h⟩ := bind_eq_fault.mp h
        · exact drain_no_fault List.length_replicate _ f h
        · cases h
      · cases h
    cases ok with
    | false => cases h
    | true =>
      have hwrite := write_last (by omega : 0 < (clip m.length).toNat) hlen
      simp only [if_true, hwrite, ofExcept_ok] at h
      cases h

end Cs2510.Chat
