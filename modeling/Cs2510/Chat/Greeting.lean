import Cs2510.Chat.Alignment
import Cs2510.Chat.Lengths
import Cs2510.Chat.Receiver
import Cs2510.Chat.Startup

/-!
# How a connection begins (`handshake` of `a1/client.c`, `listener` of `a1/server.c`)

The client sends its id, and the server answers with an acceptance or with the reason for a refusal.
`greet_exchanges` says what the server answers to any header, and `handshake_agrees` that the two
sides come to the same result: what the one writes is what the other reads, and the client tells its
user whether the server has taken it.
-/

namespace Cs2510.Chat
open Net
open Block (stringOf)

/-! ## The server's side -/

def incorrectKind : String := "Error: incorrect handshake kind"

def unknownId : String := "Error: unknown client id"

/-- A listener refuses its client. -/
def refuse (estr : String) : Net Int := do
  let emsg ← ofExcept (refusal estr)
  send_message emsg

/-- `listener` up to `fast_forward`: the id of the client, if it is accepted. Whether an answer
could be sent is not looked at. -/
def greet (client_hash_get : UInt16 → Bool) : Net (Option UInt16) := do
  let (client_id, handshake_msg) ← handshake
  if client_id ≤ 0 then
    let _ ← refuse incorrectKind
    match handshake_msg with
    -- `free_message(NULL)`
    | none => fault .nullDeref
    | some _ => return none
  else if client_hash_get (.ofInt client_id) then
    let _ ← send_message (create_message_header 0 0 MESG_CONN)
    return some (.ofInt client_id)
  else
    let _ ← refuse unknownId
    return none

/-! ## The client's side -/

/-- `handshake` of the client: what it returns, and what it prints. -/
def client_handshake (id : Int) : Net (Int × List UInt8) := do
  let ret ← send_message (create_message_header 0 (.ofInt id) MESG_CONN)
  if ret ≠ 0 then
    return (ret, [])
  else
    match ← recv_header with
    -- `m->kind` of a NULL message
    | none => fault .nullDeref
    | some m =>
      if m.kind = MESG_DCON then
        let (ret, m) ← recv_payload m
        -- what is in a block that has not been filled is not specified, so it must not be read
        let text ← ofExcept (print_message (if ret = 0 then m else { m with payload := none }))
        return (-1, text)
      else
        let text ← ofExcept (print_message m)
        return (if m.kind = MESG_CONN then 0 else -1, text)

/-! ## What the server answers -/

/-- The message with the reason for a refusal. -/
def refusalMessage (estr : String) : Message :=
  ⟨0, MESG_DCON, .ofNat (estr.length + 1), some (ascii estr ++ [0])⟩

/-- The id is one that may be handshaked, and is known. -/
def Welcome (client_hash_get : UInt16 → Bool) (m : Message) : Prop :=
  m.kind = MESG_CONN ∧ m.id ≠ 0 ∧ client_hash_get m.id = true

instance decidableWelcome (client_hash_get : UInt16 → Bool) (m : Message) :
    Decidable (Welcome client_hash_get m) :=
  inferInstanceAs (Decidable (_ ∧ _))

/-- The answer to a client that presents itself with the header of `m`. -/
def answerTo (client_hash_get : UInt16 → Bool) (m : Message) : Message :=
  if Welcome client_hash_get m then create_message_header 0 0 MESG_CONN
  else if m.kind ≠ MESG_CONN ∨ m.id = 0 then refusalMessage incorrectKind
  else refusalMessage unknownId

/-- What `send_message` writes. -/
def Message.frame (m : Message) : List UInt8 := m.header ++ m.body

section refusal

variable {estr : String}

theorem refusal_eq (h : estr ∈ refusals) : refusal estr = .ok (refusalMessage estr) := by
  revert estr
  decide

/-- The length counts the zero byte. -/
theorem length_refusalMessage (h : estr ∈ refusals) :
    (refusalMessage estr).length.toNat = (ascii estr).length + 1 ∧
      (ascii estr).length + 1 ≤ 2040 := by
  revert estr
  decide

theorem stringOf_refusal (h : estr ∈ refusals) : stringOf (ascii estr) = ascii estr := by
  revert estr
  decide

theorem exchanges_refuse (h : estr ∈ refusals) :
    Exchanges (refuse estr) [] (refusalMessage estr).frame (· = 0) := by
  obtain ⟨hnat, hle⟩ := length_refusalMessage h
  have hsize : (refusalMessage estr).Marshals := by
    unfold Message.Marshals
    omega
  have hpayload : (refusalMessage estr).PayloadOk := by
    rintro b ⟨⟩
    rw [hnat, List.length_append, List.length_singleton]
  rw [refuse, refusal_eq h, ofExcept_ok, pure_bind]
  exact exchanges_send_message hsize hpayload

end refusal

theorem ofInt_toNat (id : UInt16) : UInt16.ofInt id.toNat = id := by
  apply UInt16.toNat_inj.mp
  have hlt := id.toNat_lt
  rw [UInt16.ofInt, UInt16.toNat_ofNat']
  omega

/-- What `handshake` makes of the first header. -/
theorem exchanges_handshake_header (m : Message) :
    Exchanges handshake m.header []
      (· = (if m.kind ≠ MESG_CONN then (-1 : Int) else m.id.toNat,
        some { m with payload := none })) := by
  by_cases hkind : m.kind = MESG_CONN
  · rw [if_neg (not_not.mpr hkind)]
    exact exchanges_handshake hkind
  · rw [if_pos hkind]
    refine (exchanges_recv_header m).bind_pure ?_
    rintro _ rfl
    simp only [if_pos (show ({ m with payload := none } : Message).kind ≠ MESG_CONN from hkind)]
    exact Exchanges.pure rfl

/-- **The server's answer** to a client that presents itself with any header. -/
theorem greet_exchanges (client_hash_get : UInt16 → Bool) (m : Message) :
    Exchanges (greet client_hash_get) m.header (answerTo client_hash_get m).frame
      (· = if Welcome client_hash_get m then some m.id else none) := by
  suffices Exchanges (greet client_hash_get) (m.header ++ [])
      ([] ++ (answerTo client_hash_get m).frame)
      (· = if Welcome client_hash_get m then some m.id else none) by
    simpa using this
  refine (exchanges_handshake_header m).bind ?_
  rintro _ rfl
  unfold answerTo
  by_cases hbad : m.kind ≠ MESG_CONN ∨ m.id = 0
  · have hnot : ¬Welcome client_hash_get m := fun h => hbad.elim (· h.1) h.2.1
    have hneg : (if m.kind ≠ MESG_CONN then (-1 : Int) else m.id.toNat) ≤ 0 := by
      obtain hkind | hid := hbad
      · rw [if_pos hkind]
        decide
      · rw [hid]
        split <;> decide
    rw [if_neg hnot, if_neg hnot, if_pos hbad]
    simp only [if_pos hneg]
    refine (exchanges_refuse (List.mem_cons_self)).bind_pure ?_
    rintro _ rfl
    exact Exchanges.pure rfl
  · obtain ⟨hkind, hid⟩ := not_or.mp hbad
    rw [not_not] at hkind
    have hpos : ¬(m.id.toNat : Int) ≤ 0 := by
      have hne : m.id.toNat ≠ 0 := fun h => hid (UInt16.toNat_inj.mp h)
      omega
    simp only [if_neg (not_not.mpr hkind), if_neg hpos, ofInt_toNat, if_neg hbad]
    by_cases hknown : client_hash_get m.id = true
    · have hwelcome : Welcome client_hash_get m := ⟨hkind, hid, hknown⟩
      rw [if_pos hknown, if_pos hwelcome, if_pos hwelcome]
      refine (create_message_header_exchanges 0 (by decide)).1.bind_pure ?_
      rintro _ rfl
      exact Exchanges.pure rfl
    · have hnot : ¬Welcome client_hash_get m := fun h => hknown h.2.2
      rw [if_neg hknown, if_neg hnot, if_neg hnot]
      refine (exchanges_refuse (List.mem_cons_of_mem _ List.mem_cons_self)).bind_pure ?_
      rintro _ rfl
      exact Exchanges.pure rfl

/-! ## What the client makes of it -/

/-- What the client returns, and tells its user, after an answer of the server. -/
def verdict (accepted : Bool) : Int × List UInt8 :=
  if accepted then (0, Line.accepted.bytes) else (-1, (Line.refused (ascii unknownId)).bytes)

/-- What the client presents itself with. -/
def hello (id : Int) : Message := create_message_header 0 (.ofInt id) MESG_CONN

theorem exchanges_hello (id : Int) :
    Exchanges (send_message (hello id)) [] (hello id).header (· = 0) := by
  have hsend := (create_message_header_exchanges (.ofInt id)
    (show MESG_CONN ≠ MESG_DATA by decide)).1
  have hbody : (create_message_header 0 (.ofInt id) MESG_CONN).body = [] := rfl
  rwa [hbody, List.append_nil] at hsend

theorem client_handshake_accepted (id : Int) :
    Exchanges (client_handshake id) (create_message_header 0 0 MESG_CONN).header (hello id).header
      (· = verdict true) := by
  suffices Exchanges (client_handshake id) ([] ++ (create_message_header 0 0 MESG_CONN).header)
      ((hello id).header ++ []) (· = verdict true) by
    simpa using this
  refine (exchanges_hello id).bind ?_
  rintro _ rfl
  rw [if_neg (by decide)]
  refine (exchanges_recv_header (create_message_header 0 0 MESG_CONN)).bind_pure ?_
  rintro _ rfl
  exact Exchanges.pure rfl

theorem client_handshake_refused (id : Int) {estr : String} (h : estr ∈ refusals) :
    Exchanges (client_handshake id) (refusalMessage estr).frame (hello id).header
      (· = (-1, (Line.refused (ascii estr)).bytes)) := by
  obtain ⟨hnat, hle⟩ := length_refusalMessage h
  have hawaited : (ascii estr ++ [0]).length =
      Message.awaited { refusalMessage estr with payload := none } := by
    rw [Message.awaited_eq (by change (refusalMessage estr).length.toNat < _; omega)]
    change _ = (refusalMessage estr).length.toNat
    rw [hnat, List.length_append, List.length_singleton]
  have hpayload := exchanges_recv_payload
    (by change 0 < (refusalMessage estr).length.toNat; omega) hawaited
  have hkept : (Message.received { refusalMessage estr with payload := none }
      (ascii estr ++ [0])).payload = some (ascii estr ++ 0 :: []) := by
    change some ((ascii estr ++ [0]).take (min (refusalMessage estr).length.toNat 2040 - 1) ++
      [0]) = _
    rw [hnat, Nat.min_eq_left hle, Nat.add_sub_cancel, List.take_left' rfl]
  have hlength : 0 < clip (refusalMessage estr).length := by
    rw [UInt32.lt_iff_toNat_lt, toNat_clip, hnat]
    change 0 < _
    omega
  have hprint : print_message (Message.received { refusalMessage estr with payload := none }
      (ascii estr ++ [0])) = .ok (Line.refused (ascii estr)).bytes := by
    rw [print_message_refusal rfl rfl hlength hkept, stringOf_refusal h]
  have hall : Exchanges (client_handshake id)
      ([] ++ ((refusalMessage estr).header ++ (ascii estr ++ [0])))
      ((hello id).header ++ ([] ++ []))
      (· = (-1, (Line.refused (ascii estr)).bytes)) := by
    refine (exchanges_hello id).bind ?_
    rintro _ rfl
    rw [if_neg (by decide)]
    refine (exchanges_recv_header (refusalMessage estr)).bind ?_
    rintro _ rfl
    simp only [if_pos (show (refusalMessage estr).kind = MESG_DCON from rfl)]
    refine hpayload.bind_pure ?_
    rintro _ rfl
    simp only [if_true, hprint]
    exact Exchanges.pure rfl
  rw [List.nil_append, List.append_nil] at hall
  exact hall

/-- **The handshake.** For every id that the client's options allow, the two sides agree: the server
takes the client exactly if it knows the id, and the client returns 0 and says so exactly then. -/
theorem handshake_agrees (client_hash_get : UInt16 → Bool) (id : Int) (hid : 1 ≤ id ∧ id ≤ 65535) :
    ∃ said answer,
      Exchanges (client_handshake id) answer said
        (· = verdict (client_hash_get (.ofInt id))) ∧
      Exchanges (greet client_hash_get) said answer
        (· = if client_hash_get (.ofInt id) then some (.ofInt id) else none) := by
  have hne : UInt16.ofInt id ≠ 0 := by
    intro hzero
    have hnat := congrArg UInt16.toNat hzero
    rw [UInt16.ofInt, UInt16.toNat_ofNat'] at hnat
    change _ = 0 at hnat
    omega
  refine ⟨(hello id).header, (answerTo client_hash_get (hello id)).frame, ?_, ?_⟩
  · by_cases hknown : client_hash_get (.ofInt id) = true
    · have hwelcome : Welcome client_hash_get (hello id) := ⟨rfl, hne, hknown⟩
      rw [answerTo, if_pos hwelcome, hknown]
      exact client_handshake_accepted id
    · have hnot : ¬Welcome client_hash_get (hello id) := fun h => hknown h.2.2
      have hgood : ¬((hello id).kind ≠ MESG_CONN ∨ (hello id).id = 0) :=
        not_or.mpr ⟨not_not.mpr rfl, hne⟩
      rw [answerTo, if_neg hnot, if_neg hgood, Bool.eq_false_iff.mpr hknown]
      exact client_handshake_refused id (List.mem_cons_of_mem _ List.mem_cons_self)
  · have hgreet := greet_exchanges client_hash_get (hello id)
    by_cases hknown : client_hash_get (.ofInt id) = true
    · have hwelcome : Welcome client_hash_get (hello id) := ⟨rfl, hne, hknown⟩
      rw [if_pos hwelcome] at hgreet
      rw [if_pos hknown]
      exact hgreet
    · have hnot : ¬Welcome client_hash_get (hello id) := fun h => hknown h.2.2
      rw [if_neg hnot] at hgreet
      rw [if_neg hknown]
      exact hgreet

/-- The client that is started with `--client_id=7`, at a server that knows no other id. -/
theorem handshake_agrees_seven :
    ∃ said answer,
      Exchanges (client_handshake 7) answer said (· = (0, Line.accepted.bytes)) ∧
      Exchanges (greet fun id => id = 7) said answer (· = some 7) := by
  have hstart : client_options (fun _ => (none : Option Unit)) [.client_id [55]] =
      .ok (some ⟨some 7, none, none, none, none⟩) := rfl
  exact handshake_agrees (fun id => id = 7) 7 ((client_options_allowed _ hstart).1 7 rfl)

end Cs2510.Chat
