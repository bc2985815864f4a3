import Cs2510.Lib.CString
import Cs2510.Chat.Client

/-!
# The text the client sends (`a1/client.c`)

`sender` takes the length of the text before it strips the newline, so that for a line that ends in
one the length counts the zero byte that replaces it. The last line of a file may lack the newline:
then the last byte of the text is overwritten by the terminator. `sends_text_iff` says exactly which
lines are sent as they were read; the others are those without a newline that are too short to be
clipped, and those whose length does not fit an `int`.
-/

namespace Cs2510.Chat
open Block (stringOf)

def quitText : List UInt8 := [60, 60, 113, 117, 105, 116, 62, 62]

/-- A size stored in an `int`. -/
def toInt (n : Nat) : Int := (n : Int).bmod (2 ^ 32)

/-- What a round of the loop in `sender` comes to. -/
inductive SenderRound
  /-- `getline` has returned -1 -/
  | stopped
  | quit
  | message (m : Message)
  deriving DecidableEq, Repr

/-- The loop body from the comparison with `MESG_MAX_LEN` on. -/
def sender_message (id : UInt16) (line : Block) (slen : Int) : Except Fault SenderRound := do
  let (line, send_len) ←
    if slen > MESG_MAX_LEN.toNat then
      let send_len : Int := MESG_MAX_LEN.toNat
      let line ← line.store (send_len - 1) 0
      pure (line, send_len)
    else
      pure (line, slen)
  -- the `int` is passed as a `uint32_t`
  let m ← create_message (.ofInt send_len) id MESG_DATA line
  return .message m

/-- A newline in place of the last byte of the string is overwritten. -/
def strip_newline (line : Block) (slen : Int) : Except Fault Block := do
  if (← line.load (slen - 1)) = 10 then line.store (slen - 1) 0 else return line

/-- The loop body from the test for a newline on. -/
def sender_text (id : UInt16) (line : Block) (slen : Int) : Except Fault SenderRound := do
  let line ← strip_newline line slen
  if (← line.cstring) = quitText then
    return .quit
  else
    sender_message id line slen

/-- The loop body up to `create_message`: `getline` has stored a line in the block, and returned
`count`. -/
def sender_line (id : UInt16) (line : Block) (count : Nat) : Except Fault SenderRound :=
  let read := toInt count
  if read = -1 then
    return .stopped
  else do
    sender_text id line (toInt (← line.cstring).length)

/-! ## What is sent -/

/-- What `getline` can have read: at least one byte, and no newline but at the end. -/
def Getline (bytes : List UInt8) : Prop := bytes ≠ [] ∧ ∀ c ∈ bytes.dropLast, c ≠ 10

/-- The text of the line: the bytes before the first newline or zero byte. -/
def text (bytes : List UInt8) : List UInt8 := bytes.takeWhile fun c => c ≠ 10 && c ≠ 0

/-- The line, in a block that may be larger, is sent as a message with its text, and every access is
inside the block or the payload. -/
def SendsText (id : UInt16) (bytes : List UInt8) (spare : Block) : Prop :=
  ∃ m, sender_line id (bytes ++ 0 :: spare) bytes.length = .ok (.message m) ∧
    m.id = id ∧ m.kind = MESG_DATA ∧ m.length.toNat = min (text bytes).length 2039 + 1 ∧
    m.payload = some ((text bytes).take 2039 ++ [0])

/-- The count that `getline` returns is not taken for -1, and the string is long enough to be
clipped, or else it ends in a newline. Lengths are those that the `int`s hold. -/
def Sendable (bytes : List UInt8) : Prop :=
  toInt bytes.length ≠ -1 ∧
    (2040 ≤ toInt (stringOf bytes).length ∨
      (stringOf bytes).length < 2040 ∧ (stringOf bytes).getLast? = some 10)

/-! ## The conversions -/

theorem toNat_ofInt {n : Nat} (hn : n < 2 ^ 32) : (UInt32.ofInt n).toNat = n := by
  rw [UInt32.ofInt, UInt32.toNat_ofNat']
  omega

theorem toInt_le (n : Nat) : toInt n ≤ n := by
  unfold toInt
  rw [Int.bmod_def]
  split <;> omega

theorem toInt_eq_or (n : Nat) : toInt n = n ∨ 2 ^ 31 ≤ n := by
  unfold toInt
  rw [Int.bmod_def]
  split <;> omega

/-! ## The message -/

theorem create_message_eq {n : Nat} (hpos : 1 ≤ n) (hle : n ≤ 2040) {payload : Block}
    (hlen : n ≤ payload.length) (id kind : UInt16) :
    create_message (.ofInt n) id kind payload =
      .ok ⟨id, kind, .ofInt n, some (payload.take (n - 1) ++ [0])⟩ := by
  have hnat : (UInt32.ofInt n).toNat = n := toNat_ofInt (by omega)
  have hite : ¬UInt32.ofInt n > MESG_MAX_LEN := by
    rw [gt_iff_lt, UInt32.lt_iff_toNat_lt, hnat]
    exact Nat.not_lt.mpr hle
  have hread : payload.read 0 n = .ok (payload.take n) := by
    rw [Block.read, if_pos (by omega), List.drop_zero]
  have htake : (payload.take n).length = (UInt32.ofInt n).toNat := by
    rw [List.length_take, hnat]
    omega
  have hwrite := write_last (by omega) htake
  rw [hnat, List.take_take, Nat.min_eq_left (Nat.sub_le _ _)] at hwrite
  simp only [create_message, if_neg hite, hnat, hread, bind, Except.bind, hwrite, pure, Except.pure]

theorem sender_message_eq (id : UInt16) {line : Block} {slen : Nat} (hpos : 1 ≤ slen)
    (hlen : slen ≤ line.length) :
    sender_message id line slen = .ok (.message ⟨id, MESG_DATA, .ofInt (min slen 2040 : Nat),
      some (line.take (min slen 2040 - 1) ++ [0])⟩) := by
  have hmax : (MESG_MAX_LEN).toNat = 2040 := rfl
  by_cases hlong : 2040 < slen
  · obtain ⟨c, hsplit⟩ : ∃ c, line = line.take 2039 ++ c :: line.drop 2040 :=
      ⟨(line)[2039], by simp⟩
    have hstore := Block.store_append (line.take 2039) (line.drop 2040) c 0
      (i := ((2040 : Nat) : Int) - 1) (by rw [List.length_take]; omega)
    rw [← hsplit] at hstore
    have hlength : 2040 ≤ (line.take 2039 ++ 0 :: line.drop 2040).length := by
      simp
      omega
    have hmessage := create_message_eq (by omega) (Nat.le_refl _) hlength id MESG_DATA
    rw [List.take_left' (by rw [List.length_take]; omega)] at hmessage
    rw [Nat.min_eq_right (Nat.le_of_lt hlong)]
    simp only [sender_message, hmax, gt_iff_lt, Int.ofNat_lt, if_pos hlong, hstore, hmessage, bind,
      Except.bind, pure, Except.pure]
  · have hmessage := create_message_eq hpos (Nat.le_of_not_lt hlong) hlen id MESG_DATA
    rw [Nat.min_eq_left (Nat.le_of_not_lt hlong)]
    simp only [sender_message, hmax, gt_iff_lt, Int.ofNat_lt, if_neg hlong, hmessage, bind,
      Except.bind, pure, Except.pure]

/-! ## The text of a line -/

variable {bytes : List UInt8}

theorem text_eq (bytes : List UInt8) : text bytes = (stringOf bytes).takeWhile (· ≠ 10) := by
  rw [text, stringOf, List.takeWhile_takeWhile]
  simp

theorem Getline.ne_newline (hg : Getline bytes) {pre post : List UInt8} {c d : UInt8}
    (hs : stringOf bytes = pre ++ c :: d :: post) : ∀ x ∈ pre ++ [c], x ≠ 10 := by
  intro x hx
  have hpre : pre ++ [c] <+: bytes.dropLast := by
    obtain ⟨rest, hrest⟩ : stringOf bytes <+: bytes := List.takeWhile_prefix _
    refine ⟨((d :: post) ++ rest).dropLast, ?_⟩
    rw [← List.dropLast_append_of_ne_nil (by simp), ← hrest, hs]
    simp
  exact hg.2 x (hpre.subset hx)

theorem Getline.text_concat (hg : Getline bytes) {pre : List UInt8} {c : UInt8}
    (hs : stringOf bytes = pre ++ [c]) : text bytes = if c = 10 then pre else pre ++ [c] := by
  have hpre : ∀ x ∈ pre, decide (x ≠ 10) = true := by
    intro x hx
    obtain ⟨pre₁, pre₂, rfl⟩ := List.append_of_mem hx
    cases pre₂ with
    | nil => exact decide_eq_true (hg.ne_newline (by simpa using hs) x (by simp))
    | cons y pre₂ =>
      have hs' : stringOf bytes = pre₁ ++ x :: y :: (pre₂ ++ [c]) := by simpa using hs
      exact decide_eq_true (hg.ne_newline hs' x (by simp))
  rw [text_eq, hs, List.takeWhile_append_of_pos hpre]
  by_cases hc : c = 10 <;> simp [hc]

theorem Getline.text_begins (hg : Getline bytes) :
    text bytes <+: stringOf bytes ∧ (stringOf bytes).length ≤ (text bytes).length + 1 := by
  obtain hnil | ⟨pre, c, hs⟩ := List.eq_nil_or_concat (stringOf bytes)
  · rw [text_eq, hnil]
    exact ⟨List.prefix_refl _, Nat.zero_le _⟩
  · rw [List.concat_eq_append] at hs
    rw [hg.text_concat hs, hs]
    split
    · exact ⟨List.prefix_append _ _, by simp⟩
    · exact ⟨List.prefix_refl _, Nat.le_succ _⟩

/-! ## The line -/

section line

variable {id : UInt16} {spare : Block}

theorem sender_line_stopped (hread : toInt bytes.length = -1) (line : Block) :
    sender_line id line bytes.length = .ok .stopped := by
  unfold sender_line
  exact if_pos hread

theorem sender_line_read (hread : toInt bytes.length ≠ -1) :
    sender_line id (bytes ++ 0 :: spare) bytes.length =
      sender_text id (bytes ++ 0 :: spare) (toInt (stringOf bytes).length) := by
  unfold sender_line
  rw [if_neg hread, Block.cstring_line, ok_bind]

theorem sender_text_eq {line line' : Block} {slen : Int}
    (hstrip : strip_newline line slen = .ok line') {s : List UInt8} (hs : line'.cstring = .ok s)
    (hquit : s ≠ quitText) : sender_text id line slen = sender_message id line' slen := by
  rw [sender_text, hstrip, ok_bind, hs, ok_bind, if_neg hquit]

theorem sender_text_fault (line : Block) {slen : Int} (hslen : slen ≤ 0) :
    sender_text id line slen = .error .outOfBounds := by
  rw [sender_text, strip_newline, Block.load_neg line (show slen - 1 < 0 by omega)]
  rfl

/-- The newline is replaced by the zero byte, which the length counts. -/
theorem sender_text_newline {pre : List UInt8} (hpre : ∀ c ∈ pre, c ≠ 0) (post : List UInt8)
    {slen : Int} (hslen : slen = pre.length + 1) (hquit : pre ≠ quitText) :
    sender_text id (pre ++ 10 :: 0 :: post) slen =
      sender_message id (pre ++ 0 :: 0 :: post) slen := by
  have hindex : slen - 1 = pre.length := by omega
  have hstrip : strip_newline (pre ++ 10 :: 0 :: post) slen = .ok (pre ++ 0 :: 0 :: post) := by
    rw [strip_newline, Block.load_append _ _ _ hindex, ok_bind, if_pos rfl,
      Block.store_append _ _ _ _ hindex]
  exact sender_text_eq hstrip (Block.cstring_append hpre _) hquit

theorem sender_text_kept {pre post : List UInt8} {c : UInt8} {s : List UInt8}
    (hs : Block.cstring (pre ++ c :: post) = .ok s) {slen : Int} (hslen : slen = pre.length + 1)
    (hc : c ≠ 10) (hquit : s ≠ quitText) :
    sender_text id (pre ++ c :: post) slen = sender_message id (pre ++ c :: post) slen := by
  have hstrip : strip_newline (pre ++ c :: post) slen = .ok (pre ++ c :: post) := by
    rw [strip_newline, Block.load_append pre post c (show slen - 1 = pre.length by omega), ok_bind,
      if_neg hc]
    rfl
  exact sender_text_eq hstrip hs hquit

end line

/-! ## Which lines are sent -/

theorem sendsText_iff_of_message {id : UInt16} {spare line : Block} {slen : Nat} (hpos : 1 ≤ slen)
    (hlen : slen ≤ line.length)
    (heq : sender_line id (bytes ++ 0 :: spare) bytes.length = sender_message id line slen) :
    SendsText id bytes spare ↔ min slen 2040 = min (text bytes).length 2039 + 1 ∧
      line.take (min slen 2040 - 1) = (text bytes).take 2039 := by
  have hnat : (UInt32.ofInt (min slen 2040 : Nat)).toNat = min slen 2040 := toNat_ofInt (by omega)
  unfold SendsText
  rw [heq, sender_message_eq id hpos hlen]
  constructor
  · rintro ⟨m, hm, -, -, hlength, hpayload⟩
    cases hm
    rw [hnat] at hlength
    exact ⟨hlength, List.append_cancel_right (Option.some.inj hpayload)⟩
  · rintro ⟨hlength, hpayload⟩
    refine ⟨_, rfl, rfl, rfl, ?_, ?_⟩
    · rw [hnat, hlength]
    · rw [hpayload]

section cases

variable {id : UInt16} {spare : Block} {pre post : List UInt8} {c : UInt8}

theorem sends_newline (hg : Getline bytes) (hread : toInt bytes.length ≠ -1)
    (hs : stringOf bytes = pre ++ [10]) (hslen : toInt (stringOf bytes).length = pre.length + 1)
    (hquit : text bytes ≠ quitText) : SendsText id bytes spare ∧ Sendable bytes := by
  have htext : text bytes = pre := by rw [hg.text_concat hs, if_pos rfl]
  obtain ⟨post, hpost⟩ := Block.exists_zero bytes spare
  have hline : bytes ++ 0 :: spare = pre ++ 10 :: 0 :: post := by
    rw [hpost, hs, List.append_assoc, List.singleton_append]
  have hpre : ∀ c ∈ pre, c ≠ 0 := fun c hc =>
    Block.ne_zero_of_mem_stringOf (by rw [hs]; exact List.mem_append_left _ hc)
  have heq : sender_line id (bytes ++ 0 :: spare) bytes.length =
      sender_message id (pre ++ 0 :: 0 :: post) (pre.length + 1 : Nat) := by
    rw [sender_line_read hread, hline, sender_text_newline hpre post hslen (htext ▸ hquit), hslen]
    rfl
  have hlen : (stringOf bytes).length = pre.length + 1 := by
    rw [hs, List.length_append, List.length_singleton]
  constructor
  · rw [sendsText_iff_of_message (Nat.succ_pos _) (by simp) heq, htext]
    refine ⟨by omega, ?_⟩
    rw [List.take_append_of_le_length (by omega), List.take_eq_take_iff]
    omega
  · refine ⟨hread, ?_⟩
    by_cases hlong : 2040 ≤ pre.length + 1
    · exact .inl (by omega)
    · exact .inr ⟨by omega, by rw [hs]; simp⟩

theorem sends_kept_iff (hg : Getline bytes) (hread : toInt bytes.length ≠ -1)
    (hs : stringOf bytes = pre ++ c :: post)
    (hslen : toInt (stringOf bytes).length = pre.length + 1) (hc : c ≠ 10)
    (hquit : text bytes ≠ quitText) : SendsText id bytes spare ↔ Sendable bytes := by
  have hint := toInt_eq_or (stringOf bytes).length
  have hlen : (stringOf bytes).length = pre.length + 1 + post.length := by
    rw [hs, List.length_append, List.length_cons]
    omega
  obtain ⟨hbegins, htext⟩ := hg.text_begins
  -- a string that is counted in full is the text
  have hwhole : post = [] → text bytes = stringOf bytes := by
    rintro rfl
    rw [hg.text_concat hs, if_neg hc, hs]
  have hshort : (stringOf bytes).length < 2 ^ 31 → post = [] := by
    intro hlt
    exact List.eq_nil_of_length_eq_zero (by omega)
  have hstring : stringOf bytes ≠ quitText := by
    intro heq
    have hquitlen : quitText.length = 8 := rfl
    rw [heq, hquitlen] at hshort
    exact hquit ((hwhole (hshort (by decide))).trans heq)
  obtain ⟨rest, hrest⟩ := Block.exists_zero bytes spare
  have hline : bytes ++ 0 :: spare = pre ++ c :: (post ++ 0 :: rest) := by
    rw [hrest, hs, List.append_assoc, List.cons_append]
  have heq : sender_line id (bytes ++ 0 :: spare) bytes.length =
      sender_message id (bytes ++ 0 :: spare) (pre.length + 1 : Nat) := by
    have hcstring := Block.cstring_line bytes spare
    rw [sender_line_read hread]
    rw [hline] at hcstring ⊢
    rw [sender_text_kept hcstring hslen hc hstring, hslen]
    rfl
  rw [sendsText_iff_of_message (Nat.succ_pos _) (by rw [hline]; simp) heq]
  by_cases hlong : 2040 ≤ pre.length + 1
  · refine iff_of_true ⟨by omega, ?_⟩ ⟨hread, .inl (by omega)⟩
    obtain ⟨r, hr⟩ := hbegins
    rw [hrest, ← hr, List.append_assoc, Nat.min_eq_right hlong,
      List.take_append_of_le_length (by omega)]
  · refine iff_of_false ?_ ?_
    · rintro ⟨hmin, -⟩
      by_cases hpost : post = []
      · rw [hwhole hpost, hlen, hpost, List.length_nil] at hmin
        omega
      · have hbig : ¬(stringOf bytes).length < 2 ^ 31 := fun hlt => hpost (hshort hlt)
        omega
    · rintro ⟨-, hbig | ⟨hlt, hlast⟩⟩
      · omega
      · rw [hs, hshort (by omega), List.getLast?_concat] at hlast
        exact hc (Option.some.inj hlast)

end cases

/-- **The client sends the text it read** exactly if the line is `Sendable`. -/
theorem sends_text_iff (id : UInt16) (bytes : List UInt8) (spare : Block) (hg : Getline bytes)
    (hquit : text bytes ≠ quitText) : SendsText id bytes spare ↔ Sendable bytes := by
  by_cases hread : toInt bytes.length = -1
  · refine iff_of_false ?_ fun h => h.1 hread
    rintro ⟨m, hm, -⟩
    rw [sender_line_stopped hread] at hm
    cases hm
  have hle := toInt_le (stringOf bytes).length
  have hint := toInt_eq_or (stringOf bytes).length
  by_cases hneg : toInt (stringOf bytes).length ≤ 0
  · refine iff_of_false ?_ ?_
    · rintro ⟨m, hm, -⟩
      rw [sender_line_read hread, sender_text_fault _ hneg] at hm
      cases hm
    · rintro ⟨-, hlong | ⟨hshort, hlast⟩⟩
      · omega
      · have hpos := List.length_pos_of_mem (List.mem_of_getLast? hlast)
        omega
  -- the last byte that is counted
  obtain ⟨k, hk⟩ : ∃ k : Nat, toInt (stringOf bytes).length = k + 1 :=
    ⟨(toInt (stringOf bytes).length - 1).toNat, by omega⟩
  have hlt : k < (stringOf bytes).length := by omega
  have hs : stringOf bytes =
      (stringOf bytes).take k ++ (stringOf bytes)[k] :: (stringOf bytes).drop (k + 1) := by
    simp
  have hslen : toInt (stringOf bytes).length = ((stringOf bytes).take k).length + 1 := by
    rw [hk, List.length_take, Nat.min_eq_left (Nat.le_of_lt hlt)]
  by_cases hc : (stringOf bytes)[k] = 10
  · rw [hc] at hs
    cases hrest : (stringOf bytes).drop (k + 1) with
    | nil =>
      rw [hrest] at hs
      have hboth : SendsText id bytes spare ∧ Sendable bytes :=
        sends_newline hg hread hs hslen hquit
      exact iff_of_true hboth.1 hboth.2
    | cons d rest =>
      rw [hrest] at hs
      exact absurd rfl (hg.ne_newline hs 10 (by simp))
  · exact sends_kept_iff hg hread hs hslen hc hquit

/-- The line `hi`, with its newline. -/
theorem sends_text_hi : SendsText 7 [104, 105, 10] [] :=
  (sends_text_iff 7 [104, 105, 10] [] ⟨by simp, by simp⟩ (by decide +kernel)).mpr
    ⟨by decide, .inr ⟨by decide, by decide⟩⟩

/-- The line `hi` at the end of a file, without one: `h` is sent. -/
theorem not_sends_text : ¬ ∀ id bytes spare, Getline bytes → text bytes ≠ quitText →
    SendsText id bytes spare := by
  intro h
  obtain ⟨m, hm, -, -, hlength, -⟩ := h 7 [104, 105] [] ⟨by simp, by simp⟩ (by decide +kernel)
  have hsent : sender_line 7 [104, 105, 0] 2 = .ok (.message ⟨7, MESG_DATA, 2, some [104, 0]⟩) := by
    decide +kernel
  cases hsent.symm.trans hm
  exact absurd hlength (by decide)

end Cs2510.Chat
