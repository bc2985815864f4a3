import Cs2510.Lib.Shutdown
import Cs2510.Chat.Listener

/-!
# Peers that go away

A `recv` that returns zero adds nothing to the count of a receive loop, so `recv_header` and
`recv_payload` return only if the stream still holds what they wait for when it ends. The listener's
loop is left at a `MESG_DCON` header, the client's at one with the id 0: if the stream ends before
it, or in the middle of a frame, the loop goes round for ever (`returns_iff`).
-/

namespace Cs2510.Chat
open Net

/-! ## The two functions -/

theorem recv_header_enough {s s' : Socket} {r : Option Message} (hs : Ready 0 s.sched)
    (h : recv_header s = .ret r s') : 8 ≤ s.input.length := by
  obtain ⟨⟨ok, recvd, recv_buf⟩, s₁, hloop, -⟩ := bind_eq_ret.mp h
  obtain ⟨-, -, hwant, hcount⟩ := ioLoop_enough (counts_recv id (MESG_HEADER_LEN - ·)) hs hloop
  change 8 ≤ recvd at hwant
  omega

theorem discard_enough {recvd : Nat} {recv_len : Int} {s s' : Socket} {ok : Bool}
    (hs : Ready 0 s.sched) (h : discard recvd recv_len s = .ret ok s') :
    recv_len ≤ (recvd + s.input.length : Nat) := by
  unfold discard at h
  split at h
  · obtain ⟨⟨ok', recvd', buf⟩, s₁, hloop, -⟩ := bind_eq_ret.mp h
    obtain ⟨-, -, hwant, hcount⟩ := ioLoop_enough
      (counts_recv (fun _ => 0) fun recvd => min (recv_len.toNat - recvd) 2048) hs hloop
    omega
  · omega

theorem recv_payload_enough {m : Message} {s s' : Socket} {r : Int × Message}
    (hs : Ready 0 s.sched) (h : recv_payload m s = .ret r s') :
    0 < m.length.toNat ∧ m.awaited ≤ s.input.length := by
  have hpos : 0 < m.length.toNat := by
    by_contra hzero
    rw [recv_payload_fault (UInt32.toNat_inj.mp (Nat.eq_zero_of_not_pos hzero))] at h
    cases h
  refine ⟨hpos, ?_⟩
  have hclip := toNat_clip m.length
  have hrecv_len := recv_len_eq m
  obtain ⟨⟨ok, recvd, payload⟩, s₁, hloop, h⟩ := bind_eq_ret.mp h
  obtain ⟨hs₁, rfl, hwant, hcount⟩ :=
    ioLoop_enough (counts_recv id fun recvd => (clip m.length).toNat - recvd) hs hloop
  obtain ⟨ok', s₂, hdiscard, -⟩ := bind_eq_ret.mp h
  have hall := discard_enough hs₁ hdiscard
  unfold Message.awaited
  split
  · next hint =>
    rw [if_pos hint] at hrecv_len
    omega
  · omega

/-! ## The two loops -/

/-- What the listener takes for a whole frame; the last one is a farewell. -/
inductive ListenerFrame : Bool → List UInt8 → Prop
  | farewell {m : Message} : m.kind = MESG_DCON → ListenerFrame true m.header
  | duplicate {m : Message} : m.kind = MESG_CONN → ListenerFrame false m.header
  | message {m : Message} {bytes : List UInt8} : m.kind ≠ MESG_DCON → m.kind ≠ MESG_CONN →
      0 < m.length.toNat → bytes.length = m.awaited → ListenerFrame false (m.header ++ bytes)

/-- What the client's receiver takes for a whole frame; the last one is a refusal. -/
inductive ReceiverFrame : Bool → List UInt8 → Prop
  | refusal {m : Message} : m.kind = MESG_DCON → m.id = 0 → ReceiverFrame true m.header
  | header {m : Message} : m.kind ≠ MESG_DATA → ¬(m.kind = MESG_DCON ∧ m.id = 0) →
      ReceiverFrame false m.header
  | data {m : Message} {bytes : List UInt8} : m.kind = MESG_DATA → 0 < m.length.toNat →
      bytes.length = m.awaited → ReceiverFrame false (m.header ++ bytes)

/-- Whether the loop in `listener` goes on after a round. -/
def Received.stays : Received → Bool
  | .enqueue _ | .drop => true
  | .leave _ | .failed => false

/-- Whether the loop in `receiver` goes on after a round. -/
def receiver_stays : Option Message → Bool
  | none => false
  | some m => ¬(m.kind = MESG_DCON ∧ m.id = 0)

theorem exchanges_listenerFrame (last : Bool) (b : List UInt8) (h : ListenerFrame last b) :
    Exchanges receive_round b [] fun r => r.stays = !last := by
  cases h with
  | farewell hkind => exact (exchanges_receive_round_dcon hkind).mono (by rintro _ rfl; rfl)
  | duplicate hkind => exact (exchanges_receive_round_conn hkind).mono (by rintro _ rfl; rfl)
  | message hdcon hconn hpos hlen =>
    exact (exchanges_receive_round_message hdcon hconn hpos hlen).mono (by rintro _ rfl; rfl)

theorem exchanges_receiverFrame (last : Bool) (b : List UInt8) (h : ReceiverFrame last b) :
    Exchanges receiver_round b [] fun r => receiver_stays r = !last := by
  cases h with
  | refusal hkind hid =>
    refine (exchanges_receiver_round_header (by rw [hkind]; decide)).mono ?_
    rintro _ rfl
    simp [receiver_stays, hkind, hid]
  | header hdata hlast =>
    refine (exchanges_receiver_round_header hdata).mono ?_
    rintro _ rfl
    simpa [receiver_stays] using not_and_or.mp hlast
  | data hkind hpos hlen =>
    refine (exchanges_receiver_round_data hkind hpos hlen).mono ?_
    rintro _ rfl
    simp [receiver_stays, Message.received, hkind, show MESG_DATA ≠ MESG_DCON by decide]

/-- A header that has been received was on the stream. -/
theorem recv_header_whole {s s₁ : Socket} {r : Option Message} (hs : Ready s.input.length s.sched)
    (h : recv_header s = .ret r s₁) :
    ∃ m : Message, r = some m ∧ m.payload = none ∧ s.input = m.header ++ s₁.input ∧
      Ready 0 s₁.sched := by
  have hlen := recv_header_enough (hs.mono (Nat.zero_le _)) h
  have htake : (s.input.take 8).length = 8 := by rw [List.length_take]; omega
  obtain ⟨id, kind, length, hheader⟩ := Message.exists_header htake
  obtain ⟨inp, out, sched⟩ := s
  have hinp : (⟨id, kind, length, none⟩ : Message).header ++ inp.drop 8 = inp := by
    rw [hheader, List.take_append_drop]
  obtain ⟨_, sched', rfl, hs', hrun⟩ :=
    exchanges_recv_header ⟨id, kind, length, none⟩ (inp.drop 8) out sched 0
      (hs.mono (by simpa using hlen))
  rw [hinp, h] at hrun
  cases hrun
  exact ⟨_, rfl, rfl, hinp.symm, hs'⟩

theorem listenerFrame_whole (s : Socket) (r : Received) (s' : Socket)
    (hs : Ready s.input.length s.sched) (h : receive_round s = .ret r s') :
    ∃ last b rest, s.input = b ++ rest ∧ ListenerFrame last b := by
  obtain ⟨header, s₁, hheader, h⟩ := bind_eq_ret.mp h
  obtain ⟨m, rfl, -, hinp, hs₁⟩ := recv_header_whole hs hheader
  by_cases hdcon : m.kind = MESG_DCON
  · exact ⟨true, _, _, hinp, .farewell hdcon⟩
  by_cases hconn : m.kind = MESG_CONN
  · exact ⟨false, _, _, hinp, .duplicate hconn⟩
  simp only [if_neg hdcon, if_neg hconn] at h
  obtain ⟨ret, s₂, hpayload, -⟩ := bind_eq_ret.mp h
  obtain ⟨hpos, hlen⟩ := recv_payload_enough hs₁ hpayload
  refine ⟨false, m.header ++ s₁.input.take m.awaited, s₁.input.drop m.awaited, ?_,
    .message hdcon hconn hpos (by rw [List.length_take]; omega)⟩
  rw [hinp, List.append_assoc, List.take_append_drop]

theorem receiverFrame_whole (s : Socket) (r : Option Message) (s' : Socket)
    (hs : Ready s.input.length s.sched) (h : receiver_round s = .ret r s') :
    ∃ last b rest, s.input = b ++ rest ∧ ReceiverFrame last b := by
  obtain ⟨header, s₁, hheader, h⟩ := bind_eq_ret.mp h
  obtain ⟨m, rfl, -, hinp, hs₁⟩ := recv_header_whole hs hheader
  by_cases hlast : m.kind = MESG_DCON ∧ m.id = 0
  · exact ⟨true, _, _, hinp, .refusal hlast.1 hlast.2⟩
  by_cases hdata : m.kind ≠ MESG_DATA
  · exact ⟨false, _, _, hinp, .header hdata hlast⟩
  replace hdata : m.kind = MESG_DATA := not_not.mp hdata
  simp only [if_pos hdata] at h
  obtain ⟨ret, s₂, hpayload, -⟩ := bind_eq_ret.mp h
  obtain ⟨hpos, hlen⟩ := recv_payload_enough hs₁ hpayload
  refine ⟨false, m.header ++ s₁.input.take m.awaited, s₁.input.drop m.awaited, ?_,
    .data hdata hpos (by rw [List.length_take]; omega)⟩
  rw [hinp, List.append_assoc, List.take_append_drop]

/-- **Receiving from a peer that goes away.** The functions return exactly if the stream holds what
they wait for, and the loops are left exactly if it holds whole frames up to the farewell. -/
theorem returns_iff (inp : List UInt8) :
    (Returns recv_header inp ↔ 8 ≤ inp.length) ∧
    (∀ m : Message, Returns (recv_payload m) inp ↔
      0 < m.length.toNat ∧ m.awaited ≤ inp.length) ∧
    (Leaves receive_round Received.stays inp ↔ Closed ListenerFrame inp) ∧
    (Leaves receiver_round receiver_stays inp ↔ Closed ReceiverFrame inp) := by
  have hready : ∀ n, Ready 0 (answers (fun _ => 0) n) := fun n => ready_answers _ (Nat.zero_le n)
  refine ⟨⟨fun h => ?_, fun h => ?_⟩, fun m => ⟨fun h => ?_, fun ⟨hpos, h⟩ => ?_⟩,
    leaves_iff exchanges_listenerFrame listenerFrame_whole inp,
    leaves_iff exchanges_receiverFrame receiverFrame_whole inp⟩
  · obtain ⟨N, hN⟩ := h fun _ => 0
    obtain ⟨r, s, hrun⟩ := hN N (Nat.le_refl N)
    exact recv_header_enough (hready N) hrun
  · have htake : (inp.take 8).length = 8 := by rw [List.length_take]; omega
    obtain ⟨id, kind, length, hheader⟩ := Message.exists_header htake
    have hreturns := (exchanges_recv_header ⟨id, kind, length, none⟩).returns (inp.drop 8)
    rwa [hheader, List.take_append_drop] at hreturns
  · obtain ⟨N, hN⟩ := h fun _ => 0
    obtain ⟨r, s, hrun⟩ := hN N (Nat.le_refl N)
    exact recv_payload_enough (hready N) hrun
  · have hlen : (inp.take m.awaited).length = m.awaited := by rw [List.length_take]; omega
    have hreturns := (exchanges_recv_payload hpos hlen).returns (inp.drop m.awaited)
    rwa [List.take_append_drop] at hreturns

/-- A peer that vanishes inside a header keeps `recv_header` busy for ever. -/
theorem not_returns : ¬ ∀ inp, Returns recv_header inp ∧ (∀ m, Returns (recv_payload m) inp) ∧
    Leaves receive_round Received.stays inp ∧ Leaves receiver_round receiver_stays inp := by
  intro h
  obtain ⟨N, hN⟩ := (h [0, 1, 0]).1 fun _ => 0
  obtain ⟨r, s, hrun⟩ := hN N (Nat.le_refl N)
  have := recv_header_enough (ready_answers _ (Nat.zero_le N)) hrun
  simp at this

end Cs2510.Chat
