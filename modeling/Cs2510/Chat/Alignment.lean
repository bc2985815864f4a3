import Cs2510.Chat.Hangup

/-!
# Frame alignment of one connection

A client sends a `MESG_CONN` frame, frames of any kind, and perhaps a `MESG_DCON` frame at the end.
Whether a payload is drained is decided by the branch a header is sent to: not in `handshake`, not
for a second `MESG_CONN`, not for `MESG_DCON`, and with a wrapped index for every other kind that
comes without one. So the listener stays aligned with the frames, and queues them, exactly if the
frames without payload are those of the two control kinds (`aligned_iff`).
-/

namespace Cs2510.Chat
open Net

/-! ## What a client sends -/

/-- A frame on the wire: any payload of at most `MESG_MAX_LEN` bytes, behind a header that states
its length. -/
structure WireFrame where
  id : UInt16
  kind : UInt16
  payload : List UInt8
  fits : payload.length ≤ 2040

namespace WireFrame

def header (f : WireFrame) : Message :=
  create_message_header (.ofNat f.payload.length) f.id f.kind

def bytes (f : WireFrame) : List UInt8 := f.header.header ++ f.payload

/-- The frame as a message, its payload terminated as in every message. -/
def message (f : WireFrame) : Message :=
  if f.payload = [] then f.header else f.header.received f.payload

/-- A payload follows the header unless it is of one of the two control kinds. -/
def Regular (f : WireFrame) : Prop :=
  f.payload = [] ↔ f.kind = MESG_CONN ∨ f.kind = MESG_DCON

theorem toNat_length (f : WireFrame) : f.header.length.toNat = f.payload.length := by
  have hfits := f.fits
  simp only [header, create_message_header, UInt32.toNat_ofNat']
  omega

theorem message_of_empty {f : WireFrame} (h : f.payload = []) : f.message = f.header := if_pos h

theorem message_of_payload {f : WireFrame} (h : f.payload ≠ []) :
    f.message = f.header.received f.payload := if_neg h

/-- Without its payload a frame is another message. -/
theorem header_eq_message_iff {f : WireFrame} : f.header = f.message ↔ f.payload = [] := by
  constructor
  · intro h
    by_contra hpayload
    rw [message_of_payload hpayload] at h
    cases congrArg Message.payload h
  · intro h
    exact (message_of_empty h).symm

end WireFrame

def wireBytes (frames : List WireFrame) : List UInt8 := frames.flatMap WireFrame.bytes

/-- The messages that the frames stand for; `MESG_CONN` is not relayed. -/
def relayed (frames : List WireFrame) : List Message :=
  (frames.filter fun f => f.kind ≠ MESG_CONN).map WireFrame.message

/-- Only the last frame may be a `MESG_DCON`. -/
def FarewellLast (frames : List WireFrame) : Prop :=
  ∀ sent f left, frames = sent ++ f :: left → f.kind = MESG_DCON → left = []

/-- What one client sends on one connection. -/
structure Session (client_hash_get : UInt16 → Bool) where
  first : WireFrame
  rest : List WireFrame
  conn : first.kind = MESG_CONN
  id_ne_zero : first.id ≠ 0
  known : client_hash_get first.id = true
  farewell : FarewellLast rest

def Session.frames {client_hash_get : UInt16 → Bool} (x : Session client_hash_get) :
    List WireFrame := x.first :: x.rest

/-! ## Where the headers are read -/

/-- What is left of the stream at each `recv_header` of at most `fuel` rounds. -/
def loop_headers : (fuel : Nat) → Socket → List (List UInt8)
  | 0, _ => []
  | fuel + 1, s =>
    s.input :: match receive_round s with
      | .ret (.enqueue _) s | .ret .drop s => loop_headers fuel s
      | .ret (.leave _) _ | .ret .failed _ | .waiting | .fault _ => []

/-- What is left of the stream at each `recv_header` of a listener. -/
def listener_headers (client_hash_get : UInt16 → Bool) (fuel : Nat) (s : Socket) :
    List (List UInt8) :=
  s.input :: match handshake s with
    | .ret (client_id, some m) s =>
      if client_id ≤ 0 then []
      else if client_hash_get m.id then loop_headers fuel s
      else []
    | .ret (_, none) _ | .waiting | .fault _ => []

/-- Whole frames are left. -/
def Boundary (frames : List WireFrame) (inp : List UInt8) : Prop :=
  ∃ left, left <:+ frames ∧ inp = wireBytes left

/-- In whatever pieces the stream arrives, every header is read at a boundary and the listener
queues, behind its announcement, the messages the frames stand for. -/
def Session.Aligned {client_hash_get : UInt16 → Bool} (x : Session client_hash_get) : Prop :=
  ∀ fuel sched, x.frames.length ≤ fuel → Ready (wireBytes x.frames).length sched →
    (∀ inp ∈ listener_headers client_hash_get fuel ⟨wireBytes x.frames, [], sched⟩,
      Boundary x.frames inp) ∧
    listener client_hash_get fuel ⟨wireBytes x.frames, [], sched⟩ =
      create_message_header 0 x.first.id MESG_CONN :: relayed x.frames

theorem wireBytes_cons (f : WireFrame) (frames : List WireFrame) :
    wireBytes (f :: frames) = f.header.header ++ (f.payload ++ wireBytes frames) := by
  simp [wireBytes, WireFrame.bytes]

theorem length_wireBytes_le {left frames : List WireFrame} (h : left <:+ frames) :
    (wireBytes left).length ≤ (wireBytes frames).length := by
  obtain ⟨sent, rfl⟩ := h
  simp [wireBytes]

/-- The middle of a frame is no boundary. -/
theorem not_boundary {f : WireFrame} {left frames : List WireFrame} (h : f :: left <:+ frames)
    (hpayload : f.payload ≠ []) : ¬ Boundary frames (f.payload ++ wireBytes left) := by
  rintro ⟨left', hleft', heq⟩
  have hpos : 0 < f.payload.length := List.length_pos_iff.mpr hpayload
  have hwhole := congrArg List.length (wireBytes_cons f left)
  have hlen := congrArg List.length heq
  simp only [List.length_append, Message.length_header] at hwhole hlen
  obtain hlonger | hshorter := List.suffix_or_suffix_of_suffix h hleft'
  · have := length_wireBytes_le hlonger
    omega
  · obtain rfl | hshorter := List.suffix_cons_iff.mp hshorter
    · omega
    · have := length_wireBytes_le hshorter
      omega

theorem FarewellLast.head {f : WireFrame} {left : List WireFrame} (h : FarewellLast (f :: left))
    (hkind : f.kind = MESG_DCON) : left = [] := h [] f left rfl hkind

theorem FarewellLast.tail {f : WireFrame} {left : List WireFrame} (h : FarewellLast (f :: left)) :
    FarewellLast left := by
  intro sent g left' heq
  exact h (f :: sent) g left' (by rw [heq, List.cons_append])

/-! ## The receive loop -/

/-- One round takes what it consumes and leaves the rest. -/
theorem receive_round_run {b : List UInt8} {r : Received}
    (h : Exchanges receive_round b [] (· = r)) (rest out : List UInt8) {sched : List Answer}
    (hs : Ready (b ++ rest).length sched) :
    ∃ sched', Ready rest.length sched' ∧
      receive_round ⟨b ++ rest, out, sched⟩ = .ret r ⟨rest, out, sched'⟩ := by
  obtain ⟨_, sched', rfl, hs', hrun⟩ := h rest out sched rest.length (hs.mono (by simp))
  rw [List.append_nil] at hrun
  exact ⟨sched', hs', hrun⟩

section

variable {f : WireFrame} {left frames : List WireFrame} (fuel : Nat) (out : List UInt8)
  {sched : List Answer}

/-- Behind the last frame the listener waits. -/
theorem loop_nil (hs : Ready 0 sched) :
    listener_loop (fuel + 1) ⟨wireBytes [], out, sched⟩ = [] ∧
      loop_headers (fuel + 1) ⟨wireBytes [], out, sched⟩ = [wireBytes []] := by
  cases hround : receive_round ⟨wireBytes [], out, sched⟩ with
  | ret r s =>
    obtain ⟨header, s₁, hheader, -⟩ := bind_eq_ret.mp hround
    have hlen := recv_header_enough hs hheader
    cases hlen
  | waiting => simp [loop_headers, listener_loop, hround]
  | fault e => simp [loop_headers, listener_loop, hround]

/-- At a `MESG_DCON` header the loop is left, whatever follows it. -/
theorem loop_dcon (hkind : f.kind = MESG_DCON) (hs : Ready (wireBytes (f :: left)).length sched) :
    listener_loop (fuel + 1) ⟨wireBytes (f :: left), out, sched⟩ = [f.header] ∧
      loop_headers (fuel + 1) ⟨wireBytes (f :: left), out, sched⟩ = [wireBytes (f :: left)] := by
  rw [wireBytes_cons] at hs ⊢
  obtain ⟨sched', -, hrun⟩ := receive_round_run
    (exchanges_receive_round_dcon (m := f.header) hkind) _ out hs
  constructor
  · rw [listener_loop, hrun]
    rfl
  · rw [loop_headers, hrun]

/-- Of a `MESG_CONN` frame the loop drops the header only. -/
theorem loop_conn (hkind : f.kind = MESG_CONN) (hs : Ready (wireBytes (f :: left)).length sched) :
    ∃ sched', Ready (f.payload ++ wireBytes left).length sched' ∧
      listener_loop (fuel + 1) ⟨wireBytes (f :: left), out, sched⟩ =
        listener_loop fuel ⟨f.payload ++ wireBytes left, out, sched'⟩ ∧
      loop_headers (fuel + 1) ⟨wireBytes (f :: left), out, sched⟩ =
        wireBytes (f :: left) :: loop_headers fuel ⟨f.payload ++ wireBytes left, out, sched'⟩ := by
  rw [wireBytes_cons] at hs ⊢
  obtain ⟨sched', hs', hrun⟩ := receive_round_run
    (exchanges_receive_round_conn (m := f.header) hkind) _ out hs
  refine ⟨sched', hs', ?_, ?_⟩
  · rw [listener_loop, hrun]
  · rw [loop_headers, hrun]

/-- A frame of any other kind that comes without payload is lost, with the listener. -/
theorem loop_empty (hdcon : f.kind ≠ MESG_DCON) (hconn : f.kind ≠ MESG_CONN)
    (hpayload : f.payload = []) (hs : Ready (wireBytes (f :: left)).length sched) :
    listener_loop (fuel + 1) ⟨wireBytes (f :: left), out, sched⟩ = [] := by
  rw [wireBytes_cons] at hs ⊢
  obtain ⟨_, sched', rfl, -, hrun⟩ := exchanges_recv_header f.header
    (f.payload ++ wireBytes left) out sched 0 (hs.mono (by simp))
  have hlength : f.header.length = 0 :=
    UInt32.toNat_inj.mp (by rw [f.toNat_length, hpayload]; rfl)
  have hround : receive_round ⟨f.header.header ++ (f.payload ++ wireBytes left), out, sched⟩ =
      .fault .outOfBounds := by
    rw [receive_round, bind_ret hrun]
    simp only [if_neg (show f.header.kind ≠ MESG_DCON from hdcon),
      if_neg (show f.header.kind ≠ MESG_CONN from hconn)]
    exact bind_fault (recv_payload_fault hlength _)
  rw [listener_loop, hround]

/-- With a payload it is consumed whole, and queued. -/
theorem loop_message (hdcon : f.kind ≠ MESG_DCON) (hconn : f.kind ≠ MESG_CONN)
    (hpayload : f.payload ≠ []) (hs : Ready (wireBytes (f :: left)).length sched) :
    ∃ sched', Ready (wireBytes left).length sched' ∧
      listener_loop (fuel + 1) ⟨wireBytes (f :: left), out, sched⟩ =
        f.message :: listener_loop fuel ⟨wireBytes left, out, sched'⟩ ∧
      loop_headers (fuel + 1) ⟨wireBytes (f :: left), out, sched⟩ =
        wireBytes (f :: left) :: loop_headers fuel ⟨wireBytes left, out, sched'⟩ := by
  have hfits := f.fits
  have hlen := f.toNat_length
  have hround : Exchanges receive_round (f.header.header ++ f.payload) []
      (· = .enqueue (f.header.received f.payload)) :=
    exchanges_receive_round_message hdcon hconn
      (by rw [hlen]; exact List.length_pos_iff.mpr hpayload)
      (by rw [Message.awaited_eq (by omega), hlen])
  rw [wireBytes_cons, ← List.append_assoc] at hs ⊢
  obtain ⟨sched', hs', hrun⟩ := receive_round_run hround _ out hs
  rw [← WireFrame.message_of_payload hpayload] at hrun
  refine ⟨sched', hs', ?_, ?_⟩
  · rw [listener_loop, hrun]
  · rw [loop_headers, hrun]

theorem relayed_cons (hconn : f.kind ≠ MESG_CONN) :
    relayed (f :: left) = f.message :: relayed left := by
  simp [relayed, hconn]

theorem relayed_cons_conn (hconn : f.kind = MESG_CONN) : relayed (f :: left) = relayed left := by
  simp [relayed, hconn]

/-- **The receive loop** on the frames that are left. The induction is on these frames: each branch
must have consumed the whole of its frame for the next header to be one. -/
theorem loop_aligned_iff (hleft : left <:+ frames) (hlast : FarewellLast left)
    (hfuel : left.length < fuel) (hs : Ready (wireBytes left).length sched) :
    ((∀ inp ∈ loop_headers fuel ⟨wireBytes left, out, sched⟩, Boundary frames inp) ∧
      listener_loop fuel ⟨wireBytes left, out, sched⟩ = relayed left) ↔ ∀ f ∈ left, f.Regular := by
  have hhere : Boundary frames (wireBytes left) := ⟨left, hleft, rfl⟩
  induction left generalizing fuel sched with
  | nil =>
    obtain _ | fuel := fuel
    · cases hfuel
    obtain ⟨hloop, hheaders⟩ := loop_nil fuel out hs
    rw [hloop, hheaders]
    simpa [relayed] using hhere
  | cons f left ih =>
    obtain _ | fuel := fuel
    · cases hfuel
    have hsuffix : left <:+ frames := (List.suffix_cons f left).trans hleft
    have hnext : Boundary frames (wireBytes left) := ⟨left, hsuffix, rfl⟩
    replace hfuel : left.length < fuel := Nat.lt_of_succ_lt_succ hfuel
    by_cases hdcon : f.kind = MESG_DCON
    · obtain rfl := hlast.head hdcon
      have hconn : f.kind ≠ MESG_CONN := by rw [hdcon]; decide
      obtain ⟨hloop, hheaders⟩ := loop_dcon fuel out hdcon hs
      rw [hloop, hheaders, relayed_cons hconn]
      have hnil : relayed [] = [] := rfl
      simp [WireFrame.Regular, hdcon, WireFrame.header_eq_message_iff, hhere, hnil]
    by_cases hconn : f.kind = MESG_CONN
    · obtain ⟨sched', hs', hloop, hheaders⟩ := loop_conn fuel out hconn hs
      rw [hloop, hheaders, relayed_cons_conn hconn]
      by_cases hpayload : f.payload = []
      · have hregular : f.Regular := by simp [WireFrame.Regular, hpayload, hconn]
        rw [hpayload, List.nil_append] at hs' ⊢
        have hrest := ih _ hsuffix hlast.tail hfuel hs' hnext
        rw [List.forall_mem_cons, List.forall_mem_cons, and_assoc]
        exact (and_congr_right fun _ => hrest).trans
          (and_congr_left fun _ => iff_of_true hhere hregular)
      · -- the next header is read in the payload
        have hmem : f.payload ++ wireBytes left ∈
            loop_headers fuel ⟨f.payload ++ wireBytes left, out, sched'⟩ := by
          obtain _ | fuel := fuel
          · cases hfuel
          · exact List.mem_cons_self
        constructor
        · rintro ⟨hall, -⟩
          exact absurd (hall _ (List.mem_cons_of_mem _ hmem)) (not_boundary hleft hpayload)
        · intro hall
          exact absurd ((hall f List.mem_cons_self).mpr (.inl hconn)) hpayload
    rw [relayed_cons hconn]
    by_cases hpayload : f.payload = []
    · rw [loop_empty fuel out hdcon hconn hpayload hs]
      constructor
      · rintro ⟨-, hqueue⟩
        cases hqueue
      · intro hall
        obtain hkind | hkind := (hall f List.mem_cons_self).mp hpayload
        · exact absurd hkind hconn
        · exact absurd hkind hdcon
    · have hregular : f.Regular := by simp [WireFrame.Regular, hpayload, hconn, hdcon]
      obtain ⟨sched', hs', hloop, hheaders⟩ :=
        loop_message fuel out hdcon hconn hpayload hs
      have hrest := ih _ hsuffix hlast.tail hfuel hs' hnext
      rw [hloop, hheaders, List.forall_mem_cons, List.forall_mem_cons, and_assoc,
        List.cons_inj_right]
      exact (and_congr_right fun _ => hrest).trans
        (and_congr_left fun _ => iff_of_true hhere hregular)

end

/-! ## The connection -/

theorem exchanges_handshake {m : Message} (h : m.kind = MESG_CONN) :
    Exchanges handshake m.header []
      (· = ((m.id.toNat : Int), some { m with payload := none })) := by
  refine (exchanges_recv_header m).bind_pure ?_
  rintro _ rfl
  simp only [if_neg (not_not.mpr h)]
  exact Exchanges.pure rfl

variable {client_hash_get : UInt16 → Bool}

/-- An accepted handshake takes the header of the first frame; the loop goes on behind it. -/
theorem Session.handshake_run (x : Session client_hash_get) (fuel : Nat) {sched : List Answer}
    (hs : Ready (wireBytes x.frames).length sched) :
    ∃ sched', Ready (x.first.payload ++ wireBytes x.rest).length sched' ∧
      listener client_hash_get fuel ⟨wireBytes x.frames, [], sched⟩ =
        create_message_header 0 x.first.id MESG_CONN ::
          listener_loop fuel ⟨x.first.payload ++ wireBytes x.rest, [], sched'⟩ ∧
      listener_headers client_hash_get fuel ⟨wireBytes x.frames, [], sched⟩ =
        wireBytes x.frames ::
          loop_headers fuel ⟨x.first.payload ++ wireBytes x.rest, [], sched'⟩ := by
  have hframes : wireBytes x.frames =
      x.first.header.header ++ (x.first.payload ++ wireBytes x.rest) := wireBytes_cons ..
  have hid : ¬ (x.first.header.id.toNat : Int) ≤ 0 := by
    have hne : x.first.id.toNat ≠ 0 := fun h => x.id_ne_zero (UInt16.toNat_inj.mp h)
    change ¬ (x.first.id.toNat : Int) ≤ 0
    omega
  have hknown : client_hash_get x.first.header.id = true := x.known
  rw [hframes] at hs ⊢
  obtain ⟨_, sched', rfl, hs', hrun⟩ := exchanges_handshake (m := x.first.header) x.conn
    (x.first.payload ++ wireBytes x.rest) [] sched (x.first.payload ++ wireBytes x.rest).length
    (hs.mono (by simp))
  refine ⟨sched', hs', ?_, ?_⟩
  · rw [listener, hrun]
    simp only [if_neg hid, hknown, if_true]
    rfl
  · rw [listener_headers, hrun]
    simp only [if_neg hid, hknown, if_true]
    rfl

/-- **Frame alignment**, for one way of splitting the stream. -/
theorem Session.aligned_at_iff (x : Session client_hash_get) {fuel : Nat} {sched : List Answer}
    (hfuel : x.frames.length ≤ fuel) (hs : Ready (wireBytes x.frames).length sched) :
    ((∀ inp ∈ listener_headers client_hash_get fuel ⟨wireBytes x.frames, [], sched⟩,
      Boundary x.frames inp) ∧
    listener client_hash_get fuel ⟨wireBytes x.frames, [], sched⟩ =
      create_message_header 0 x.first.id MESG_CONN :: relayed x.frames) ↔
      ∀ f ∈ x.frames, f.Regular := by
  obtain ⟨sched', hs', hlistener, hheaders⟩ := x.handshake_run fuel hs
  have hrest_fuel : x.rest.length < fuel := hfuel
  have hhere : Boundary x.frames (wireBytes x.frames) := ⟨x.frames, List.suffix_rfl, rfl⟩
  have hrelayed : relayed x.frames = relayed x.rest := relayed_cons_conn x.conn
  rw [hlistener, hheaders, hrelayed, List.cons_inj_right, List.forall_mem_cons]
  by_cases hpayload : x.first.payload = []
  · have hregular : x.first.Regular := by simp [WireFrame.Regular, hpayload, x.conn]
    rw [hpayload, List.nil_append] at hs' ⊢
    have hrest := loop_aligned_iff fuel [] (List.suffix_cons x.first x.rest) x.farewell
      hrest_fuel hs'
    rw [Session.frames, List.forall_mem_cons, and_assoc]
    exact (and_congr_right fun _ => hrest).trans
      (and_congr_left fun _ => iff_of_true hhere hregular)
  · obtain _ | fuel := fuel
    · cases hrest_fuel
    constructor
    · rintro ⟨⟨-, hall⟩, -⟩
      exact absurd (hall _ List.mem_cons_self) (not_boundary List.suffix_rfl hpayload)
    · intro hall
      exact absurd ((hall x.first List.mem_cons_self).mpr (.inl x.conn)) hpayload

/-- **Frame alignment.** The listener reads every header at a frame boundary and queues what the
frames stand for if and only if the frames without payload are the control messages. -/
theorem aligned_iff (x : Session client_hash_get) : x.Aligned ↔ ∀ f ∈ x.frames, f.Regular := by
  constructor
  · intro h
    have hs := Ready.replicate (wireBytes x.frames).length 0
    exact (x.aligned_at_iff (Nat.le_refl _) hs).mp (h _ _ (Nat.le_refl _) hs)
  · intro h fuel sched hfuel hs
    exact (x.aligned_at_iff hfuel hs).mpr h

/-- A client with id 7 that connects, and connects again with one byte of payload. -/
def secondConn : Session fun id => id = 7 where
  first := ⟨7, MESG_CONN, [], by decide⟩
  rest := [⟨7, MESG_CONN, [0], by decide⟩]
  conn := rfl
  id_ne_zero := by decide
  known := rfl
  farewell := by
    intro sent f left heq hkind
    have hf : f ∈ sent ++ f :: left := List.mem_append_right _ List.mem_cons_self
    rw [← heq] at hf
    obtain rfl := List.mem_singleton.mp hf
    cases hkind

/-- The byte is taken for the first one of a header. -/
theorem not_aligned :
    ¬ ∀ client_hash_get (x : Session client_hash_get), x.Aligned := by
  intro h
  have hs := Ready.replicate (wireBytes secondConn.frames).length 0
  have hall := (secondConn.aligned_at_iff (Nat.le_refl _) hs).mp
    (h _ secondConn _ _ (Nat.le_refl _) hs)
  have hregular := hall ⟨7, MESG_CONN, [0], by decide⟩ (by simp [secondConn, Session.frames])
  cases hregular.mpr (.inl rfl)

end Cs2510.Chat
