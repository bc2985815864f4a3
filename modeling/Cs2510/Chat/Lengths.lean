import Cs2510.Chat.Listener

/-!
# Every length a header can announce

The length of a message is an unsigned 32-bit number that the peer chooses. `recv_payload` copies it
into an `int`, so a length from `2 ^ 31` on is negative and nothing beyond the kept part is read;
`message_marshal` adds the header to it and puts the sum into an `int`, which has no room for the
frame any more.
-/

namespace Cs2510.Chat
open Net

/-! ## Receiving -/

/-- Given its `length` bytes, split in any way, `recv_payload` consumes just these, returns 0 and
leaves the clipped and terminated payload, with every access inside the block it has allocated. -/
def Message.Accounted (m : Message) : Prop :=
  ∀ bytes : List UInt8, bytes.length = m.length.toNat →
    Exchanges (recv_payload m) bytes [] (· = (0, m.received bytes))

/-- **Payload reception** accounts for every byte of the payloads that are not empty and whose
length fits an `int`, and of no others. -/
theorem accounted_iff (m : Message) :
    m.Accounted ↔ 0 < m.length.toNat ∧ m.length.toNat < 2 ^ 31 := by
  constructor
  · intro h
    have hpos : 0 < m.length.toNat := by
      by_contra hzero
      have hlength : m.length = 0 := UInt32.toNat_inj.mp (Nat.eq_zero_of_not_pos hzero)
      have hempty := h [] (by rw [hlength]; rfl)
      exact Exchanges.not_of_fault (recv_payload_fault hlength) hempty
    refine ⟨hpos, ?_⟩
    by_contra hlarge
    -- only the kept part is consumed
    let bytes : List UInt8 := List.replicate m.length.toNat 0
    have hbytes : bytes.length = m.length.toNat := List.length_replicate
    have hall := h bytes hbytes
    rw [← List.take_append_drop m.awaited bytes] at hall
    have hawaited : m.awaited = 2040 := if_neg hlarge
    have hlen : (bytes.take m.awaited).length = m.awaited := by rw [List.length_take]; omega
    have hkept := exchanges_recv_payload hpos hlen
    have hnone := congrArg List.length (hkept.input_eq_nil hall)
    rw [List.length_drop, List.length_nil] at hnone
    omega
  · rintro ⟨hpos, hint⟩ bytes hlen
    exact exchanges_recv_payload hpos (hlen.trans (Message.awaited_eq hint).symm)

theorem not_accounted : ¬ ∀ m : Message, m.Accounted := by
  intro h
  have hempty := h (create_message_header 0 1 MESG_DATA) [] rfl
  exact Exchanges.not_of_fault (recv_payload_fault rfl) hempty

/-! ## Marshalling -/

def cString (s : String) : Block := s.toList.map (fun c => UInt8.ofNat c.toNat) ++ [0]

def refusals : List String := ["Error: incorrect handshake kind", "Error: unknown client id"]

/-- `create_message(strlen(estr) + 1, 0, MESG_DCON, estr)` -/
def refusal (estr : String) : Except Fault Message :=
  create_message (.ofNat (estr.length + 1)) 0 MESG_DCON (cString estr)

/-- The messages that the server hands to `send_message`: its own replies, and what the listeners
queue for the sender and the log. -/
inductive Handed (client_hash_get : UInt16 → Bool) : Message → Prop
  | accepted : Handed client_hash_get (create_message_header 0 0 MESG_CONN)
  | refused {estr : String} {m : Message} :
      estr ∈ refusals → refusal estr = .ok m → Handed client_hash_get m
  | queued {fuel : Nat} {s : Socket} {m : Message} :
      m ∈ listener client_hash_get fuel s → Handed client_hash_get m

/-- The size is the exact sum, the frame is allocated and filled in these bounds, and what is sent
is the header and `length` bytes behind it. -/
structure Message.MarshalsExactly (m : Message) : Prop where
  marshal : ∃ out : Block,
    message_marshal (some m) = .ok (some out, 8 + m.length.toNat) ∧ out.length = 8 + m.length.toNat
  send : ∃ body : List UInt8, body.length = m.length.toNat ∧
    Exchanges (send_message m) [] (m.header ++ body) (· = 0)

theorem Handed.payloadOk {client_hash_get : UInt16 → Bool} {m : Message}
    (h : Handed client_hash_get m) : m.PayloadOk := by
  cases h with
  | accepted => exact Message.payloadOk_of_none rfl
  | @refused estr _ hestr hm =>
    have hlengths : ∀ estr ∈ refusals, (1 : UInt32) ≤ .ofNat (estr.length + 1) := by decide
    have hlength := hlengths estr hestr
    have hpos := UInt32.le_iff_toNat_le.mp hlength
    obtain ⟨rfl, hfit⟩ := create_message_ok hlength hm
    obtain ⟨payload, hpayload, hlen, -⟩ := Message.received_idem
      (create_message_header (.ofNat (estr.length + 1)) 0 MESG_DCON) hpos hfit
    intro b hb
    rw [hpayload] at hb
    cases hb
    exact hlen
  | queued hm => exact (listener_queued hm).payloadOk

/-- **Marshalling** allocates what it writes for exactly the messages whose frame has a size that
fits an `int`. -/
theorem marshalsExactly_iff {client_hash_get : UInt16 → Bool} {m : Message}
    (h : Handed client_hash_get m) : m.MarshalsExactly ↔ 8 + m.length.toNat < 2 ^ 31 := by
  constructor
  · rintro ⟨⟨out, hout, -⟩, -⟩
    by_contra hlarge
    obtain ⟨f, hf⟩ := message_marshal_fault hlarge
    rw [hf] at hout
    cases hout
  · intro hsize
    have hbody := h.payloadOk.length_body
    refine ⟨⟨m.header ++ m.body, message_marshal_eq hsize h.payloadOk, ?_⟩, m.body, hbody,
      exchanges_send_message hsize h.payloadOk⟩
    rw [List.length_append, m.length_header, hbody]

theorem marshalsExactly_dcon :
    (⟨7, MESG_DCON, 5, none⟩ : Message).MarshalsExactly ↔ 8 + (5 : UInt32).toNat < 2 ^ 31 := by
  have hm : (⟨7, MESG_DCON, 5, none⟩ : Message) ∈
      listener (fun id => id = 7) 3 dconWithLength := by decide
  exact marshalsExactly_iff (.queued hm)

/-- A client with id 7 that connects and leaves with a header that announces `2 ^ 31 - 8` bytes. -/
def dconWithHugeLength : Socket where
  input := [0, 7, 0, 1, 0, 0, 0, 0] ++ [0, 7, 0, 2, 127, 255, 255, 248]
  output := []
  sched := List.replicate 2 (.moves 99)

theorem not_marshalsExactly :
    ¬ ∀ client_hash_get m, Handed client_hash_get m → m.MarshalsExactly := by
  intro h
  have hm : (⟨7, MESG_DCON, 2147483640, none⟩ : Message) ∈
      listener (fun id => id = 7) 1 dconWithHugeLength := by decide
  obtain ⟨⟨out, hout, -⟩, -⟩ := h _ _ (.queued hm)
  obtain ⟨f, hf⟩ := message_marshal_fault
    (m := ⟨7, MESG_DCON, 2147483640, none⟩) (by decide)
  rw [hf] at hout
  cases hout

end Cs2510.Chat
