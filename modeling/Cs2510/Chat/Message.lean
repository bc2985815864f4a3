import Cs2510.Lib.Bytes

/-!
# Messages and their wire format (`a1/message.h`, `a1/message.c`)

A message is an eight byte header (sender id, kind, payload length, all in network order)
followed by the payload. `payload = none` is the NULL pointer of the header-only messages.

The fixed-width fields keep the arithmetic of the source: `message_marshal` computes its size as
an unsigned 32-bit sum that it stores in an `int`, so a length close to `2 ^ 31` or `2 ^ 32` ends
in a fault. `message_marshal_eq` says what it produces for every other message
(`Message.Marshals`), and `message_marshal_fault` that it faults on the rest.
-/

namespace Cs2510.Chat

def MESG_DATA : UInt16 := 0
def MESG_CONN : UInt16 := 1
def MESG_DCON : UInt16 := 2

def MESG_HEADER_LEN : Nat := 8
def MESG_MAX_LEN : UInt32 := 2040

/-- `struct message` -/
structure Message where
  id : UInt16
  kind : UInt16
  length : UInt32
  payload : Option Block
  deriving DecidableEq, Repr

/-- The bytes in memory of `htons(x)`. -/
def htons (x : UInt16) : List UInt8 := bigEndian 2 x.toNat

/-- The bytes in memory of `htonl(x)`. -/
def htonl (x : UInt32) : List UInt8 := bigEndian 4 x.toNat

def ntohs (bytes : List UInt8) : UInt16 := .ofNat (ofBigEndian bytes)

def ntohl (bytes : List UInt8) : UInt32 := .ofNat (ofBigEndian bytes)

@[simp] theorem length_htons (x : UInt16) : (htons x).length = 2 := length_bigEndian ..

@[simp] theorem length_htonl (x : UInt32) : (htonl x).length = 4 := length_bigEndian ..

@[simp] theorem ntohs_htons (x : UInt16) : ntohs (htons x) = x := by
  rw [ntohs, htons, ofBigEndian_bigEndian (by simpa using x.toNat_lt), UInt16.ofNat_toNat]

@[simp] theorem ntohl_htonl (x : UInt32) : ntohl (htonl x) = x := by
  rw [ntohl, htonl, ofBigEndian_bigEndian (by simpa using x.toNat_lt), UInt32.ofNat_toNat]

theorem htons_ntohs {bytes : List UInt8} (h : bytes.length = 2) : htons (ntohs bytes) = bytes := by
  have hlt := ofBigEndian_lt bytes
  rw [h] at hlt
  have hnat : (ntohs bytes).toNat = ofBigEndian bytes := by
    rw [ntohs, UInt16.toNat_ofNat']
    omega
  rw [htons, hnat, ← h, bigEndian_ofBigEndian]

theorem htonl_ntohl {bytes : List UInt8} (h : bytes.length = 4) : htonl (ntohl bytes) = bytes := by
  have hlt := ofBigEndian_lt bytes
  rw [h] at hlt
  have hnat : (ntohl bytes).toNat = ofBigEndian bytes := by
    rw [ntohl, UInt32.toNat_ofNat']
    omega
  rw [htonl, hnat, ← h, bigEndian_ofBigEndian]

/-- `calloc(size, 1)` with an `int` for the size: a negative one is a huge `size_t`, for which
there is no memory, and the result is NULL. -/
def calloc (size : Int) : Option Block :=
  if size < 0 then none else some (List.replicate size.toNat 0)

/-- A pointer about to be written through. -/
def deref : Option Block → Except Fault Block
  | none => .error .nullDeref
  | some b => .ok b

def create_message (length : UInt32) (id kind : UInt16) (payload : Block) :
    Except Fault Message := do
  let length := if length > MESG_MAX_LEN then MESG_MAX_LEN else length
  let bytes ← payload.read 0 length.toNat
  -- the index is unsigned: for an empty payload it wraps around
  let bytes ← Block.write bytes (length - 1).toNat [0]
  return { id, kind, length, payload := some bytes }

def create_message_header (length : UInt32) (id kind : UInt16) : Message :=
  { id, kind, length, payload := none }

def message_marshal : Option Message → Except Fault (Option Block × Int)
  | none => .ok (none, 0)
  | some m => do
    let size : Int := (2 + 2 + 4 + m.length).toInt32.toInt
    let out ← deref (calloc size)
    let out ← out.write 0 (htons m.id)
    let out ← out.write 2 (htons m.kind)
    let out ← out.write 4 (htonl m.length)
    let out ← match m.payload with
      | none => pure out
      | some payload => do
        let bytes ← payload.read 0 m.length.toNat
        out.write 8 bytes
    return (some out, size)

def message_unmarshal (data : Block) : Except Fault Message := do
  let id ← data.read 0 2
  let kind ← data.read 2 2
  let length ← data.read 4 4
  let payload ← data.read 8 (ntohl length).toNat
  return { id := ntohs id, kind := ntohs kind, length := ntohl length, payload := some payload }

def message_unmarshal_header (data : Block) : Except Fault Message := do
  let id ← data.read 0 2
  let kind ← data.read 2 2
  let length ← data.read 4 4
  return { id := ntohs id, kind := ntohs kind, length := ntohl length, payload := none }

namespace Message

/-- The eight bytes every frame starts with. -/
def header (m : Message) : List UInt8 := htons m.id ++ htons m.kind ++ htonl m.length

/-- What follows the header: the payload, or as many zero bytes where there is none. -/
def body (m : Message) : List UInt8 :=
  m.payload.getD (List.replicate m.length.toNat 0)

/-- The payload, if there is one, is a block of exactly `length` bytes. -/
def PayloadOk (m : Message) : Prop :=
  ∀ b, m.payload = some b → b.length = m.length.toNat

/-- The size of the frame fits an `int`. -/
def Marshals (m : Message) : Prop := 8 + m.length.toNat < 2 ^ 31

instance (m : Message) : Decidable m.Marshals := inferInstanceAs (Decidable (_ < _))

@[simp] theorem length_header (m : Message) : m.header.length = 8 := by simp [header]

/-- Any eight bytes are a header. -/
theorem exists_header {bytes : List UInt8} (h : bytes.length = 8) :
    ∃ id kind length, (⟨id, kind, length, none⟩ : Message).header = bytes := by
  refine ⟨ntohs (bytes.take 2), ntohs ((bytes.drop 2).take 2), ntohl ((bytes.drop 2).drop 2), ?_⟩
  rw [header, htons_ntohs (by simp [h]), htons_ntohs (by simp [h]), htonl_ntohl (by simp [h]),
    List.append_assoc, List.take_append_drop, List.take_append_drop]

theorem PayloadOk.length_body {m : Message} (h : m.PayloadOk) :
    m.body.length = m.length.toNat := by
  unfold body
  cases hp : m.payload with
  | none => simp
  | some b => exact h b hp

theorem payloadOk_of_none {m : Message} (h : m.payload = none) : m.PayloadOk := by
  intro b hb
  rw [h] at hb
  cases hb

/-- The size `message_marshal` computes wraps as soon as it does not fit an `int`. -/
theorem size_eq (m : Message) : (2 + 2 + 4 + m.length).toInt32.toInt =
    if m.Marshals then (8 + m.length.toNat : Int) else 8 + m.length.toNat - 2 ^ 32 := by
  have hL := m.length.toNat_lt
  change (2 + 2 + 4 + m.length).toBitVec.toInt = _
  rw [BitVec.toInt_eq_toNat_cond]
  change (if 2 * (2 + 2 + 4 + m.length).toNat < 2 ^ 32 then _ else _) = _
  have hn : (2 + 2 + 4 + m.length).toNat = (8 + m.length.toNat) % 2 ^ 32 := by simp
  change (if 2 * (2 + 2 + 4 + m.length).toNat < 2 ^ 32 then
    ((2 + 2 + 4 + m.length).toNat : Int) else (2 + 2 + 4 + m.length).toNat - (2 ^ 32 : Nat)) = _
  rw [hn]
  by_cases h : m.Marshals
  · rw [if_pos h]
    unfold Marshals at h
    split <;> omega
  · rw [if_neg h]
    unfold Marshals at h
    split <;> omega

end Message

/-- The frame of a message whose size fits an `int`: the header, then exactly `length` bytes. -/
theorem message_marshal_eq {m : Message} (hsize : m.Marshals) (hpayload : m.PayloadOk) :
    message_marshal (some m) = .ok (some (m.header ++ m.body), 8 + m.length.toNat) := by
  let zeros (n : Nat) : Block := List.replicate n 0
  have hzeros (n : Nat) : (zeros n).length = n := List.length_replicate
  have hcalloc : calloc (8 + m.length.toNat) =
      some (zeros 2 ++ (zeros 2 ++ (zeros 4 ++ zeros m.length.toNat))) := by
    rw [calloc, if_neg (by omega)]
    simp only [zeros, List.replicate_append_replicate]
    congr 2
    omega
  have hid : Block.write (zeros 2 ++ (zeros 2 ++ (zeros 4 ++ zeros m.length.toNat))) 0
      (htons m.id) = .ok (htons m.id ++ (zeros 2 ++ (zeros 4 ++ zeros m.length.toNat))) := by
    simpa using Block.write_append [] (zeros 2 ++ (zeros 4 ++ zeros m.length.toNat))
      ((hzeros 2).trans (length_htons m.id).symm)
  have hkind : Block.write (htons m.id ++ (zeros 2 ++ (zeros 4 ++ zeros m.length.toNat))) 2
      (htons m.kind) = .ok (htons m.id ++ (htons m.kind ++ (zeros 4 ++ zeros m.length.toNat))) := by
    simpa using Block.write_append (htons m.id) (zeros 4 ++ zeros m.length.toNat)
      ((hzeros 2).trans (length_htons m.kind).symm)
  have hlength : Block.write (htons m.id ++ (htons m.kind ++ (zeros 4 ++ zeros m.length.toNat))) 4
      (htonl m.length) = .ok (m.header ++ zeros m.length.toNat) := by
    simpa [Message.header] using Block.write_append (htons m.id ++ htons m.kind)
      (zeros m.length.toNat) ((hzeros 4).trans (length_htonl m.length).symm)
  simp only [message_marshal, m.size_eq, if_pos hsize, hcalloc, deref, hid, hkind, hlength, bind,
    Except.bind, pure, Except.pure]
  cases hp : m.payload with
  | none => simp [Message.body, hp, zeros]
  | some payload =>
    have hlen := hpayload payload hp
    have hread : Block.read payload 0 m.length.toNat = .ok payload := by
      simpa [hlen] using Block.read_append [] payload []
    have hwrite : Block.write (m.header ++ zeros m.length.toNat) 8 payload =
        .ok (m.header ++ payload) := by
      simpa using Block.write_append m.header []
        ((hzeros _).trans hlen.symm)
    simp [Message.body, hp, hread, hwrite]

/-- The frame of any other message is not built: the block for it is missing or too small. -/
theorem message_marshal_fault {m : Message} (h : ¬ m.Marshals) :
    ∃ f, message_marshal (some m) = .error f := by
  have hL := m.length.toNat_lt
  cases hres : message_marshal (some m) with
  | error f => exact ⟨f, rfl⟩
  | ok res =>
    exfalso
    simp only [message_marshal, bind_eq_ok, m.size_eq, if_neg h] at hres
    unfold Message.Marshals at h
    obtain ⟨b₀, hb₀, b₁, hb₁, b₂, hb₂, b₃, hb₃, -⟩ := hres
    -- the size has wrapped around to at most seven bytes, too few for the header
    have hsize : b₀.length < 8 := by
      rw [calloc] at hb₀
      split at hb₀
      · cases hb₀
      · cases hb₀
        simp only [List.length_replicate]
        omega
    have hfit := (Block.write_eq_ok.mp hb₃).1
    rw [length_htonl, Block.length_write hb₂, Block.length_write hb₁] at hfit
    omega

theorem message_unmarshal_header_eq (m : Message) :
    message_unmarshal_header m.header = .ok { m with payload := none } := by
  have hid : Block.read m.header 0 2 = .ok (htons m.id) := by
    simpa [Message.header] using Block.read_append [] (htons m.id) (htons m.kind ++ htonl m.length)
  have hkind : Block.read m.header 2 2 = .ok (htons m.kind) := by
    simpa [Message.header] using Block.read_append (htons m.id) (htons m.kind) (htonl m.length)
  have hlength : Block.read m.header 4 4 = .ok (htonl m.length) := by
    simpa [Message.header] using Block.read_append (htons m.id ++ htons m.kind) (htonl m.length) []
  simp [message_unmarshal_header, hid, hkind, hlength, bind, Except.bind, pure, Except.pure]

/-- What `message_unmarshal` makes of a block that starts with a header. -/
theorem message_unmarshal_append (m : Message) (rest : List UInt8) :
    message_unmarshal (m.header ++ rest) =
      (Block.read rest 0 m.length.toNat).map fun payload => { m with payload := some payload } := by
  have hid : Block.read (m.header ++ rest) 0 2 = .ok (htons m.id) := by
    simpa [Message.header] using
      Block.read_append [] (htons m.id) (htons m.kind ++ (htonl m.length ++ rest))
  have hkind : Block.read (m.header ++ rest) 2 2 = .ok (htons m.kind) := by
    simpa [Message.header] using
      Block.read_append (htons m.id) (htons m.kind) (htonl m.length ++ rest)
  have hlength : Block.read (m.header ++ rest) 4 4 = .ok (htonl m.length) := by
    simpa [Message.header] using
      Block.read_append (htons m.id ++ htons m.kind) (htonl m.length) rest
  have hpayload := Block.read_behind m.header rest m.length.toNat
  rw [Message.length_header] at hpayload
  simp only [message_unmarshal, hid, hkind, hlength, ntohs_htons, ntohl_htonl, hpayload, bind,
    Except.bind]
  cases Block.read rest 0 m.length.toNat <;> rfl

theorem length_of_message_unmarshal {data : Block} {m : Message}
    (h : message_unmarshal data = .ok m) : 8 ≤ data.length := by
  simp only [message_unmarshal, bind_eq_ok] at h
  obtain ⟨_, -, _, -, _, hlength, -⟩ := h
  exact (Block.read_eq_ok.mp hlength).1

/-- **The format.** A block is taken for a message that can be marshalled exactly if it starts with
the frame that `message_marshal` builds of this message; what is behind the frame is left alone. -/
theorem message_unmarshal_iff {data : Block} {m : Message} :
    message_unmarshal data = .ok m ∧ m.Marshals ↔
      m.payload.isSome ∧ m.PayloadOk ∧
        ∃ out size rest, message_marshal (some m) = .ok (some out, size) ∧ data = out ++ rest := by
  constructor
  · rintro ⟨h, hsize⟩
    have hlen : (data.take 8).length = 8 := by
      rw [List.length_take, Nat.min_eq_left (length_of_message_unmarshal h)]
    obtain ⟨id, kind, length, hheader⟩ := Message.exists_header hlen
    rw [← List.take_append_drop 8 data, ← hheader, message_unmarshal_append] at h
    cases hread : Block.read (data.drop 8) 0 length.toNat with
    | error f =>
      rw [hread] at h
      cases h
    | ok payload =>
      rw [hread] at h
      cases h
      obtain ⟨hle, hpayload⟩ := Block.read_eq_ok.mp hread
      rw [List.drop_zero] at hpayload
      have hok : (⟨id, kind, length, some payload⟩ : Message).PayloadOk := by
        rintro b ⟨⟩
        rw [hpayload, List.length_take]
        exact Nat.min_eq_left (by omega)
      refine ⟨rfl, hok, _, _, (data.drop 8).drop length.toNat, message_marshal_eq hsize hok, ?_⟩
      change data = Message.header ⟨id, kind, length, none⟩ ++ payload ++ _
      rw [hheader, hpayload, List.append_assoc, List.take_append_drop, List.take_append_drop]
  · rintro ⟨hsome, hok, out, size, rest, hmarshal, rfl⟩
    have hsize : m.Marshals := by
      by_contra hnot
      obtain ⟨f, hfault⟩ := message_marshal_fault hnot
      rw [hfault] at hmarshal
      cases hmarshal
    rw [message_marshal_eq hsize hok] at hmarshal
    cases hmarshal
    obtain ⟨payload, hpayload⟩ := Option.isSome_iff_exists.mp hsome
    refine ⟨?_, hsize⟩
    have hbody : m.body = payload := by rw [Message.body, hpayload, Option.getD_some]
    have hread := Block.read_append [] payload rest
    rw [List.nil_append, List.length_nil, hok payload hpayload] at hread
    rw [List.append_assoc, message_unmarshal_append, hbody, hread]
    change Except.ok { m with payload := some payload } = _
    rw [← hpayload]

end Cs2510.Chat
