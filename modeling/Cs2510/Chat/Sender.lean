import Cs2510.Chat.Returns
import Cs2510.Chat.SentText

/-!
# What a client writes (`sender` of `a1/client.c`)

`sender` reads lines and sends each as a message, until the user quits or a message fails. What a
line becomes is `lineMessage`: the string without its last byte, which is the newline or, in the
last line of a file, may be a byte of the text. `sender_ret` says what has been written when the
loop ends, whatever the kernel answers, and `client_writes` the same with the handshake before it.
-/

namespace Cs2510.Chat
open Net
open Block (stringOf)

/-! ## The lines of a file -/

/-- The bytes up to the next newline, and with it, and the bytes behind it. -/
def nextLine : List UInt8 → List UInt8 × List UInt8
  | [] => ([], [])
  | c :: cs => if c = 10 then ([c], cs) else (c :: (nextLine cs).1, (nextLine cs).2)

/-- What `getline` reads; `none` at the end of the file. -/
def getline : List UInt8 → Option (List UInt8 × List UInt8)
  | [] => none
  | c :: cs => some (nextLine (c :: cs))

/-- The lines of a file, each with its newline. -/
def lines : List UInt8 → List (List UInt8)
  | [] => []
  | c :: cs =>
    if c = 10 then [c] :: lines cs
    else
      match lines cs with
      | [] => [[c]]
      | l :: ls => (c :: l) :: ls

theorem lines_nextLine {inp : List UInt8} (h : inp ≠ []) :
    lines inp = (nextLine inp).1 :: lines (nextLine inp).2 := by
  induction inp with
  | nil => exact absurd rfl h
  | cons c cs ih =>
    rw [lines, nextLine]
    split
    · rfl
    · by_cases hcs : cs = []
      · rw [hcs]
        rfl
      · rw [ih hcs]

theorem getline_of_mem {inp l : List UInt8} (h : l ∈ lines inp) : Getline l := by
  induction inp generalizing l with
  | nil => cases h
  | cons c cs ih =>
    rw [lines] at h
    split at h
    · obtain rfl | h := List.mem_cons.mp h
      · exact ⟨List.cons_ne_nil _ _, by simp⟩
      · exact ih h
    · next hc =>
      split at h
      · obtain rfl := List.mem_singleton.mp h
        exact ⟨List.cons_ne_nil _ _, by simp⟩
      · next l' ls hls =>
        obtain rfl | h := List.mem_cons.mp h
        · obtain ⟨hne, hl'⟩ := ih (l := l') (by rw [hls]; exact List.mem_cons_self)
          refine ⟨List.cons_ne_nil _ _, ?_⟩
          rw [List.dropLast_cons_of_ne_nil hne]
          rintro x hx rfl
          obtain rfl | hx := List.mem_cons.mp hx
          · exact hc rfl
          · exact hl' 10 hx rfl
        · exact ih (by rw [hls]; exact List.mem_cons_of_mem _ h)

/-! ## The program -/

/-- How `sender` stands after some rounds. -/
inductive SenderEnd
  /-- in its loop -/
  | running
  /-- there is no further line -/
  | stopped
  | quit
  /-- a message could not be sent -/
  | failed
  deriving DecidableEq, Repr

/-- At most `fuel` rounds of `sender`, for a file that holds `inp`. The block that `getline` stores
a line in may be larger; `spare` is what it holds behind the zero byte. -/
def sender (id : UInt16) (spare : List UInt8 → Block) :
    (fuel : Nat) → (inp : List UInt8) → Net SenderEnd
  | 0, _ => return .running
  | fuel + 1, inp =>
    match getline inp with
    | none => return .stopped
    | some (line, inp) => do
      match ← ofExcept (sender_line id (line ++ 0 :: spare line) line.length) with
      | .stopped => return .stopped
      | .quit =>
        let _ ← send_message (create_message_header 0 id MESG_DCON)
        return .quit
      | .message m =>
        let ret ← send_message m
        if ret = -1 then return .failed else sender id spare fuel inp

/-! ## What is said -/

/-- What of a line reaches the others. -/
def spoken (line : List UInt8) : List UInt8 := (stringOf line).dropLast.take 2039

/-- The message that a line is sent as. -/
def lineMessage (id : UInt16) (line : List UInt8) : Message :=
  ⟨id, MESG_DATA, .ofInt ((spoken line).length + 1 : Nat), some (spoken line ++ [0])⟩

/-- The messages for the lines of a file, up to the one that says to quit. -/
def script (id : UInt16) : List (List UInt8) → List Message
  | [] => []
  | line :: rest =>
    if text line = quitText then [create_message_header 0 id MESG_DCON]
    else lineMessage id line :: script id rest

/-- The lines that `sender` handles without reading outside its block: none begins with a zero byte,
and an `int` holds the length of each. -/
def Typeable (inp : List UInt8) : Prop :=
  ∀ line ∈ lines inp, stringOf line ≠ [] ∧ line.length < 2 ^ 31

instance decidableTypeable (inp : List UInt8) : Decidable (Typeable inp) :=
  inferInstanceAs (Decidable (∀ line ∈ lines inp, _))

theorem Typeable.tail {inp : List UInt8} (h : Typeable inp) (hinp : inp ≠ []) :
    (stringOf (nextLine inp).1 ≠ [] ∧ (nextLine inp).1.length < 2 ^ 31) ∧
      Typeable (nextLine inp).2 := by
  rw [Typeable, lines_nextLine hinp] at h
  exact ⟨h _ List.mem_cons_self, fun line hline => h line (List.mem_cons_of_mem _ hline)⟩

section line

variable {id : UInt16} {line : List UInt8}

theorem length_spoken (h : stringOf line ≠ []) :
    (spoken line).length + 1 = min (stringOf line).length 2040 := by
  have hpos := List.length_pos_iff.mpr h
  rw [spoken, List.length_take, List.length_dropLast]
  omega

theorem toNat_length_lineMessage :
    (lineMessage id line).length.toNat = (spoken line).length + 1 := by
  apply toNat_ofInt
  rw [spoken, List.length_take]
  omega

theorem length_spoken_le : (spoken line).length ≤ 2039 := by
  rw [spoken, List.length_take]
  exact Nat.min_le_left _ _

theorem relayable_lineMessage : Relayable (lineMessage id line) where
  queued :=
    { payloadOk := by
        rintro _ ⟨⟩
        rw [toNat_length_lineMessage, List.length_append, List.length_singleton]
      data := fun _ => by
        have hle : (spoken line).length ≤ 2039 := length_spoken_le
        rw [toNat_length_lineMessage]
        exact ⟨Nat.succ_pos _, by omega, rfl⟩ }
  frame := .inl rfl

/-- What the others are told of a line. -/
theorem line_lineMessage : (lineMessage id line).line = some (.said id (spoken line)) := by
  have hzero : ∀ c ∈ spoken line, decide (c ≠ 0) = true := fun c hc => by
    have hmem : c ∈ stringOf line := List.dropLast_subset _ (List.take_subset _ _ hc)
    exact decide_eq_true (Block.ne_zero_of_mem_stringOf hmem)
  rw [line_data rfl]
  change some (Line.said id (stringOf (spoken line ++ [0]).dropLast)) = _
  rw [List.dropLast_concat, stringOf, List.takeWhile_eq_self_iff.mpr hzero]

/-- The block without the bytes behind the ones counted. -/
theorem take_spoken {rest : List UInt8} {slen : Nat} (hslen : slen = (stringOf line).length)
    (hpos : 1 ≤ slen) (hrest : (stringOf line).dropLast <+: rest) :
    rest.take (min slen 2040 - 1) = spoken line := by
  obtain ⟨post, rfl⟩ := hrest
  have hle : min slen 2040 - 1 ≤ (stringOf line).dropLast.length := by
    rw [List.length_dropLast]
    omega
  rw [List.take_append_of_le_length hle, spoken, List.take_eq_take_iff, List.length_dropLast]
  omega

/-- A round of the loop. -/
theorem sender_line_eq (hg : Getline line) (hne : stringOf line ≠ []) (hint : line.length < 2 ^ 31)
    (spare : Block) : sender_line id (line ++ 0 :: spare) line.length =
      .ok (if text line = quitText then .quit else .message (lineMessage id line)) := by
  obtain hnil | ⟨pre, c, hs⟩ := List.eq_nil_or_concat (stringOf line)
  · exact absurd hnil hne
  rw [List.concat_eq_append] at hs
  have hpre : ∀ c ∈ pre, c ≠ 0 := fun c hc =>
    Block.ne_zero_of_mem_stringOf (by rw [hs]; exact List.mem_append_left _ hc)
  have hc : c ≠ 0 := Block.ne_zero_of_mem_stringOf (by rw [hs]; simp)
  have hlen : (stringOf line).length = pre.length + 1 := by
    rw [hs, List.length_append, List.length_singleton]
  have hle : (stringOf line).length ≤ line.length := (List.takeWhile_prefix _).length_le
  have hread : toInt line.length ≠ -1 := by
    obtain h | h := toInt_eq_or line.length <;> omega
  have hslen : toInt (stringOf line).length = (pre.length + 1 : Nat) := by
    obtain h | h := toInt_eq_or (stringOf line).length <;> omega
  obtain ⟨post, hpost⟩ := Block.exists_zero line spare
  have hline : line ++ 0 :: spare = pre ++ c :: 0 :: post := by
    rw [hpost, hs, List.append_assoc, List.singleton_append]
  have hdrop : (stringOf line).dropLast = pre := by rw [hs, List.dropLast_concat]
  have hcount : (UInt32.ofInt (min (pre.length + 1) 2040 : Nat)) =
      (lineMessage id line).length := by
    rw [lineMessage, length_spoken hne, hlen]
  have htext := hg.text_concat hs
  rw [sender_line_read hread, hslen, hline]
  by_cases hnl : c = 10
  · -- the newline is overwritten
    rw [if_pos hnl] at htext
    subst hnl
    rw [htext]
    by_cases hquit : pre = quitText
    · rw [if_pos hquit, sender_text, strip_newline, Block.load_append pre _ _ (by omega), ok_bind,
        if_pos rfl, Block.store_append pre _ _ _ (by omega), ok_bind, Block.cstring_append hpre,
        ok_bind, if_pos hquit]
      rfl
    · rw [if_neg hquit, sender_text_newline hpre post (by omega) hquit,
        sender_message_eq id (Nat.succ_pos _) (by simp), hcount,
        take_spoken hlen.symm (Nat.succ_pos _) (by rw [hdrop]; exact List.prefix_append _ _)]
      rfl
  · rw [if_neg hnl] at htext
    have hstring : Block.cstring (pre ++ c :: 0 :: post) = .ok (pre ++ [c]) := by
      have hzero : ∀ x ∈ pre ++ [c], x ≠ 0 := by
        rw [← hs]
        exact fun x => Block.ne_zero_of_mem_stringOf
      have := Block.cstring_append hzero post
      rwa [List.append_assoc, List.singleton_append] at this
    rw [htext]
    by_cases hquit : pre ++ [c] = quitText
    · rw [if_pos hquit, sender_text, strip_newline, Block.load_append pre _ _ (by omega), ok_bind,
        if_neg hnl]
      change (Block.cstring _ >>= _) = _
      rw [hstring, ok_bind, if_pos hquit]
      rfl
    · rw [if_neg hquit, sender_text_kept hstring (by omega) hnl hquit,
        sender_message_eq id (Nat.succ_pos _) (by simp), hcount,
        take_spoken hlen.symm (Nat.succ_pos _) (by rw [hdrop]; exact List.prefix_append _ _)]
      rfl

end line

/-! ## What is written -/

theorem frames_cons (m : Message) (ms : List Message) : frames (m :: ms) = m.frame ++ frames ms :=
  rfl

/-- A frame and what is written behind it. -/
theorem append_begins {m : Message} {ms : List Message} {out out' : List UInt8} (h : out = m.frame)
    (h' : out' <+: frames ms) : out ++ out' <+: frames (m :: ms) := by
  rw [frames_cons, h]
  exact List.prefix_append_right_inj _ |>.mpr h'

/-- Every message of a script is one that the server relays and the clients read. -/
theorem relayable_script {id : UInt16} {ls : List (List UInt8)} {m : Message}
    (h : m ∈ script id ls) : Relayable m := by
  induction ls with
  | nil => cases h
  | cons line rest ih =>
    rw [script] at h
    split at h
    · obtain rfl := List.mem_singleton.mp h
      exact ⟨.of_header rfl (show MESG_DCON ≠ MESG_DATA by decide), .inr rfl⟩
    · obtain rfl | h := List.mem_cons.mp h
      · exact relayable_lineMessage
      · exact ih h

theorem Relayable.marshals {m : Message} (h : Relayable m) : m.Marshals := by
  unfold Message.Marshals
  by_cases hkind : m.kind = MESG_DATA
  · have := (h.queued.data hkind).2.1
    omega
  · rw [h.frame.resolve_left hkind]
    decide

/-- A frame of a script, whatever the kernel answers. -/
theorem Relayable.send_ret {m : Message} (h : Relayable m) {s s' : Socket} {r : Int}
    (hrun : send_message m s = .ret r s') :
    s'.input = s.input ∧
      ∃ out, s'.output = s.output ++ out ∧ m.Leaves (decide (r = 0)) out :=
  send_message_ret h.marshals h.queued.payloadOk hrun

section sender

variable {id : UInt16} {spare : List UInt8 → Block} {fuel : Nat} {inp : List UInt8}

/-- A round of `sender` that has read a line. -/
theorem sender_round (hinp : inp ≠ []) (h : Typeable inp) : sender id spare (fuel + 1) inp =
    (if text (nextLine inp).1 = quitText then do
      let _ ← send_message (create_message_header 0 id MESG_DCON)
      return .quit
    else do
      let ret ← send_message (lineMessage id (nextLine inp).1)
      if ret = -1 then return .failed else sender id spare fuel (nextLine inp).2) := by
  obtain ⟨⟨hne, hint⟩, -⟩ := h.tail hinp
  have hmem : (nextLine inp).1 ∈ lines inp := by
    rw [lines_nextLine hinp]
    exact List.mem_cons_self
  have hg := getline_of_mem hmem
  have hget : getline inp = some (nextLine inp) := by
    cases inp with
    | nil => exact absurd rfl hinp
    | cons c cs => rfl
  rw [sender, hget]
  simp only [sender_line_eq hg hne hint, ofExcept_ok, Net.pure_bind]
  by_cases hquit : text (nextLine inp).1 = quitText
  · simp only [if_pos hquit]
  · simp only [if_neg hquit]

/-- **What `sender` has written when it ends**, whatever the kernel answers: the beginning of its
script, and all of it if it has come to the end of the file. -/
theorem sender_ret (h : Typeable inp) {s s' : Socket} {e : SenderEnd}
    (hrun : sender id spare fuel inp s = .ret e s') :
    s'.input = s.input ∧ ∃ out, s'.output = s.output ++ out ∧
      out <+: frames (script id (lines inp)) ∧
      (e = .stopped → out = frames (script id (lines inp))) := by
  induction fuel generalizing inp s with
  | zero =>
    cases hrun
    exact ⟨rfl, [], (List.append_nil _).symm, List.nil_prefix, by rintro ⟨⟩⟩
  | succ fuel ih =>
    by_cases hinp : inp = []
    · subst hinp
      cases hrun
      exact ⟨rfl, [], (List.append_nil _).symm, List.nil_prefix, fun _ => rfl⟩
    obtain ⟨-, htail⟩ := h.tail hinp
    rw [sender_round hinp h] at hrun
    rw [lines_nextLine hinp, script]
    split at hrun
    · next hquit =>
      rw [if_pos hquit]
      obtain ⟨r, s₁, hsend, hpure⟩ := bind_eq_ret.mp hrun
      cases hpure
      have hbye : Relayable (create_message_header 0 id MESG_DCON) :=
        ⟨.of_header rfl (show MESG_DCON ≠ MESG_DATA by decide), .inr rfl⟩
      obtain ⟨hinput, out, hout, hleaves⟩ := hbye.send_ret hsend
      refine ⟨hinput, out, hout, ?_, by rintro ⟨⟩⟩
      rw [frames_cons]
      exact hleaves.begins.trans (List.prefix_append _ _)
    · next hquit =>
      rw [if_neg hquit]
      obtain ⟨r, s₁, hsend, hrest⟩ := bind_eq_ret.mp hrun
      obtain ⟨hinput, out, hout, hleaves⟩ := relayable_lineMessage.send_ret hsend
      split at hrest
      · cases hrest
        refine ⟨hinput, out, hout, ?_, by rintro ⟨⟩⟩
        rw [frames_cons]
        exact hleaves.begins.trans (List.prefix_append _ _)
      · next hr =>
        have hr0 : r = 0 := (send_message_zero_or hsend).resolve_right hr
        have hwhole : out = _ := hleaves.whole.mp (decide_eq_true hr0)
        obtain ⟨hinput', out', hout', hbegins, hstopped⟩ := ih htail hrest
        refine ⟨hinput'.trans hinput, out ++ out', by rw [hout', hout, List.append_assoc],
          append_begins hwhole hbegins, fun he => ?_⟩
        rw [frames_cons, hwhole, hstopped he]

/-- With a kernel that lets no call fail, the whole script is written. -/
theorem exchanges_sender (h : Typeable inp) (hfuel : (lines inp).length < fuel) :
    Exchanges (sender id spare fuel inp) [] (frames (script id (lines inp)))
      (· = if ∃ line ∈ lines inp, text line = quitText then .quit else .stopped) := by
  induction fuel generalizing inp with
  | zero => cases hfuel
  | succ fuel ih =>
    by_cases hinp : inp = []
    · subst hinp
      exact Exchanges.pure (if_neg (by rintro ⟨_, ⟨⟩, -⟩)).symm
    obtain ⟨-, htail⟩ := h.tail hinp
    rw [lines_nextLine hinp, List.length_cons] at hfuel
    rw [sender_round hinp h, lines_nextLine hinp, script]
    split
    · next hquit =>
      rw [if_pos ⟨_, List.mem_cons_self, hquit⟩, frames_cons]
      have hbye :=
        (create_message_header_exchanges id (show MESG_DCON ≠ MESG_DATA by decide)).1
      rw [show frames ([] : List Message) = [] from rfl, List.append_nil]
      refine hbye.bind_pure ?_
      rintro _ rfl
      exact Exchanges.pure rfl
    · next hquit =>
      have hsend := exchanges_send_message (m := lineMessage id (nextLine inp).1)
        relayable_lineMessage.marshals relayable_lineMessage.queued.payloadOk
      have hrest := ih htail (by omega)
      have hex : (∃ line ∈ (nextLine inp).1 :: lines (nextLine inp).2, text line = quitText) ↔
          ∃ line ∈ lines (nextLine inp).2, text line = quitText := by
        simp [hquit]
      simp only [hex, frames_cons]
      change Exchanges _ ([] ++ []) _ _
      refine hsend.bind ?_
      rintro _ rfl
      exact hrest

end sender

/-! ## The client as a whole -/

/-- What `handshake` has written when it returns. -/
theorem client_handshake_ret {id : Int} {s s' : Socket} {r : Int × List UInt8}
    (h : client_handshake id s = .ret r s') :
    ∃ out, s'.output = s.output ++ out ∧ out <+: (hello id).frame ∧
      (r.1 = 0 → out = (hello id).frame) := by
  have hhello : Relayable (hello id) :=
    ⟨.of_header rfl (show MESG_CONN ≠ MESG_DATA by decide), .inr rfl⟩
  obtain ⟨ret, s₁, hsend, h⟩ := bind_eq_ret.mp h
  obtain ⟨-, out, hout, hleaves⟩ := hhello.send_ret hsend
  split at h
  · next hret =>
    cases h
    exact ⟨out, hout, hleaves.begins, fun h => absurd h hret⟩
  next hret =>
  have hwhole := hleaves.whole.mp (decide_eq_true (not_not.mp hret))
  suffices hsame : s'.output = s₁.output from
    ⟨out, hsame.trans hout, hleaves.begins, fun _ => hwhole⟩
  obtain ⟨m, s₂, hheader, h⟩ := bind_eq_ret.mp h
  obtain ⟨_, htook, -⟩ := recv_header_took hheader
  cases m with
  | none => cases h
  | some m =>
    simp only at h
    split at h
    · obtain ⟨⟨ret, m'⟩, s₃, hpayload, h⟩ := bind_eq_ret.mp h
      obtain ⟨_, htook', -⟩ := recv_payload_took hpayload
      obtain ⟨text, s₄, hprint, h⟩ := bind_eq_ret.mp h
      cases h
      rw [(ofExcept_ret hprint).2, htook'.output, htook.output]
    · obtain ⟨text, s₃, hprint, h⟩ := bind_eq_ret.mp h
      cases h
      rw [(ofExcept_ret hprint).2, htook.output]

/-- The bytes are those that a client with the id `id` writes, or the first of them, when the user's
file holds `inp`: `sender` runs once `handshake` has returned 0, while `receiver` reads from the
socket. -/
inductive WrittenBy (id : Int) (inp : List UInt8) (bytes : List UInt8) : Prop
  | handshake {r : Int × List UInt8} {s s' : Socket} : s.output = [] →
      client_handshake id s = .ret r s' → bytes <+: s'.output → WrittenBy id inp bytes
  | sender {spare : List UInt8 → Block} {fuel : Nat} {said : List UInt8} {e : SenderEnd}
      {s s₁ s₂ s' : Socket} : s.output = [] → client_handshake id s = .ret (0, said) s₁ →
      s₂.output = s₁.output → sender (.ofInt id) spare fuel inp s₂ = .ret e s' →
      bytes <+: s'.output → WrittenBy id inp bytes

/-- The messages of a client. -/
def clientMessages (id : Int) (inp : List UInt8) : List Message :=
  hello id :: script (.ofInt id) (lines inp)

/-- **What a client writes**, whatever the kernel answers, and whenever the connection breaks: the
beginning of its messages, one frame after the other. -/
theorem WrittenBy.begins {id : Int} {inp bytes : List UInt8} (hinp : Typeable inp)
    (h : WrittenBy id inp bytes) : bytes <+: frames (clientMessages id inp) := by
  cases h with
  | handshake hs hrun hbytes =>
    obtain ⟨out, hout, hbegins, -⟩ := client_handshake_ret hrun
    rw [hs, List.nil_append] at hout
    rw [hout] at hbytes
    exact (hbytes.trans hbegins).trans (List.prefix_append _ _)
  | sender hs hrun hsame hsender hbytes =>
    obtain ⟨out, hout, -, hwhole⟩ := client_handshake_ret hrun
    obtain ⟨-, out', hout', hbegins, -⟩ := sender_ret hinp hsender
    rw [hout', hsame, hout, hs, List.nil_append] at hbytes
    exact hbytes.trans (append_begins (hwhole rfl) hbegins)

/-- A client that nothing goes wrong for writes all of its messages. -/
theorem written_whole (id : Int) {inp : List UInt8} (hinp : Typeable inp) :
    WrittenBy id inp (frames (clientMessages id inp)) := by
  let m := create_message_header 0 0 MESG_CONN
  let n := m.header.length + (hello id).header.length +
    (frames (script (.ofInt id) (lines inp))).length
  obtain ⟨_, sched₁, rfl, hsched₁, hhandshake⟩ := client_handshake_accepted id [] []
    (List.replicate n (.moves 0)) (frames (script (.ofInt id) (lines inp))).length (.replicate n 0)
  have hwrites : Exchanges (sender (.ofInt id) (fun _ => []) ((lines inp).length + 1) inp) [] _ _ :=
    exchanges_sender hinp (Nat.lt_succ_self _)
  obtain ⟨e, sched₂, -, -, hsender⟩ :=
    hwrites [] ([] ++ (hello id).header) sched₁ 0 (hsched₁.mono (by simp))
  refine .sender (s := ⟨m.header ++ [], [], List.replicate n (.moves 0)⟩) rfl hhandshake rfl
    hsender ?_
  have hframes : frames (clientMessages id inp) =
      (hello id).header ++ frames (script (.ofInt id) (lines inp)) := by
    rw [clientMessages, frames_cons, Message.frame, show (hello id).body = [] from rfl,
      List.append_nil]
  exact hframes ▸ List.prefix_refl _

/-- **What a client writes** of a `Typeable` input. Whatever the kernel answers, and whenever the
connection breaks, the bytes that have come through are the beginning of the frames of the client's
messages: its handshake, a message for each line, and the farewell if the user quits; and any
beginning can come through. -/
theorem client_writes (id : Int) {inp : List UInt8} (hinp : Typeable inp) (bytes : List UInt8) :
    WrittenBy id inp bytes ↔ bytes <+: frames (clientMessages id inp) := by
  refine ⟨fun h => h.begins hinp, fun hbytes => ?_⟩
  obtain ⟨hs, hrun, h⟩ | ⟨hs, hrun, hsame, hsender, h⟩ := written_whole id hinp
  · exact .handshake hs hrun (hbytes.trans h)
  · exact .sender hs hrun hsame hsender (hbytes.trans h)

/-- Client 7, whose user says hi and quits. -/
theorem client_writes_hi : WrittenBy 7 [104, 105, 10, 60, 60, 113, 117, 105, 116, 62, 62, 10]
    ((hello 7).frame ++ (⟨7, MESG_DATA, 3, some [104, 105, 0]⟩ : Message).frame) :=
  (client_writes 7 (by decide) _).mpr (by decide)

end Cs2510.Chat
