import Mathlib.Data.List.Forall2
import Cs2510.Lib.CString

/-!
# The client ids on the command line (`a1/server.c`)

`parse_client_ids` keeps the ids in a block that has room for five of them. Before every fifth
further id it asks `realloc` for five more, but in bytes, and a block of ten bytes does not grow.
`parse_client_ids_iff` says what this comes to: the ids are parsed exactly if at most five have to
be stored.
-/

namespace Cs2510.Chat

def UINT16_MAX : Int := 65535

/-- `sizeof(uint16_t)` -/
def uint16Size : Nat := 2

/-- The delimiters `" ,"`. -/
def isDelim (c : UInt8) : Bool := c = 32 || c = 44

/-- A `uint16_t` in memory, the low byte first. -/
def storeUint16 (x : UInt16) : List UInt8 := (bigEndian uint16Size x.toNat).reverse

/-- `ids[k]` -/
def loadUint16 (ids : Block) (k : Nat) : Except Fault UInt16 := do
  let bytes ← ids.read (k * uint16Size) uint16Size
  return .ofNat (ofBigEndian bytes.reverse)

/-- The bytes up to the new size are kept; what is in the others is not specified, and is not
read. -/
def realloc (b : Block) (size : Nat) : Block := b.take size ++ List.replicate (size - b.length) 0

/-- The loop over the tokens: `none` if it returns -1. -/
def parse_tokens : List (List UInt8) → Block → Nat → Except Fault (Option (Block × Nat))
  | [], l_ids, l_id_count => return some (l_ids, l_id_count)
  | tok :: toks, l_ids, l_id_count => do
    let i := atoi tok
    if i ≤ 0 ∨ i > UINT16_MAX then
      return none
    else
      let l_ids :=
        if l_id_count ≠ 0 ∧ l_id_count % 5 = 0 then realloc l_ids (l_id_count + 5) else l_ids
      let l_ids ← l_ids.write (l_id_count * uint16Size) (storeUint16 (.ofNat i.toNat))
      parse_tokens toks l_ids (l_id_count + 1)

/-- `ids` and `id_count`, or `none` if it returns -1. The calls of `strtok` touch nothing but the
argument, so they are made first. -/
def parse_client_ids (id_str : List UInt8) : Except Fault (Option (Block × Nat)) :=
  parse_tokens (tokens isDelim (id_str.length + 1) id_str) (List.replicate (5 * uint16Size) 0) 0

/-! ## Which ids are parsed -/

def ValidId (n : Int) : Prop := 1 ≤ n ∧ n ≤ 65535

instance (n : Int) : Decidable (ValidId n) := inferInstanceAs (Decidable (_ ∧ _))

/-- A decimal number that fits an `int`. -/
def IntToken (tok : List UInt8) (n : Int) : Prop := Decimal tok n ∧ -2 ^ 31 ≤ n ∧ n < 2 ^ 31

/-- The tokens of the argument are such numbers. -/
def TokensAre (id_str : List UInt8) (ns : List Int) : Prop :=
  List.Forall₂ IntToken (pieces isDelim id_str) ns

/-- 0 is returned exactly if all ids are valid, and then these are the ids; every access to the
block is inside it. -/
def ParsesAs (id_str : List UInt8) (ns : List Int) : Prop :=
  ∃ r, parse_client_ids id_str = .ok r ∧ (r.isSome = true ↔ ∀ n ∈ ns, ValidId n) ∧
    ∀ ids id_count, r = some (ids, id_count) → id_count = ns.length ∧
      ∀ k, (_ : k < ns.length) → ∃ x, loadUint16 ids k = .ok x ∧ (x.toNat : Int) = ns[k]

/-- The ids that are stored: those before the first one that is not valid. -/
def stored (ns : List Int) : List Int := ns.takeWhile fun n => ValidId n

/-- The ids as they stand in the block. -/
def idBytes (ns : List Int) : List UInt8 := ns.flatMap fun n => storeUint16 (.ofNat n.toNat)

@[simp] theorem length_storeUint16 (x : UInt16) : (storeUint16 x).length = uint16Size := by
  rw [storeUint16, List.length_reverse, length_bigEndian]

@[simp] theorem length_idBytes (ns : List Int) : (idBytes ns).length = ns.length * uint16Size := by
  simp [idBytes, List.length_flatMap, Nat.mul_comm]

theorem idBytes_append (ns ms : List Int) : idBytes (ns ++ ms) = idBytes ns ++ idBytes ms :=
  List.flatMap_append

theorem idBytes_cons (n : Int) (ns : List Int) :
    idBytes (n :: ns) = storeUint16 (.ofNat n.toNat) ++ idBytes ns :=
  List.flatMap_cons

theorem loadUint16_idBytes {ns : List Int} (hv : ∀ n ∈ ns, ValidId n) (rest : List UInt8) {k : Nat}
    (hk : k < ns.length) :
    ∃ x, loadUint16 (idBytes ns ++ rest) k = .ok x ∧ (x.toNat : Int) = ns[k] := by
  have hsplit : ns = ns.take k ++ ns[k] :: ns.drop (k + 1) := by simp
  have hid := hv ns[k] (List.getElem_mem hk)
  have hlen : (idBytes (ns.take k)).length = k * uint16Size := by
    rw [length_idBytes, List.length_take, Nat.min_eq_left (Nat.le_of_lt hk)]
  have hbytes : idBytes ns ++ rest = idBytes (ns.take k) ++ storeUint16 (.ofNat ns[k].toNat) ++
      (idBytes (ns.drop (k + 1)) ++ rest) := by
    conv_lhs => rw [hsplit, idBytes_append, idBytes_cons]
    simp only [List.append_assoc]
  have hread := Block.read_append (idBytes (ns.take k)) (storeUint16 (.ofNat ns[k].toNat))
    (idBytes (ns.drop (k + 1)) ++ rest)
  rw [← hbytes, hlen, length_storeUint16] at hread
  have hnat : (UInt16.ofNat ns[k].toNat).toNat = ns[k].toNat := by
    rw [UInt16.toNat_ofNat']
    unfold ValidId at hid
    omega
  have hvalue : ofBigEndian (storeUint16 (.ofNat ns[k].toNat)).reverse = ns[k].toNat := by
    rw [storeUint16, List.reverse_reverse, hnat]
    unfold ValidId at hid
    apply ofBigEndian_bigEndian
    rw [uint16Size]
    omega
  refine ⟨.ofNat ns[k].toNat, ?_, ?_⟩
  · simp only [loadUint16, hread, bind, Except.bind, pure, Except.pure, hvalue]
  · rw [hnat]
    unfold ValidId at hid
    omega

theorem stored_cons (n : Int) (ns : List Int) :
    stored (n :: ns) = if ValidId n then n :: stored ns else [] := by
  unfold stored
  rw [List.takeWhile_cons]
  by_cases hn : ValidId n <;> simp [hn]

theorem not_valid_iff {n : Int} : n ≤ 0 ∨ n > UINT16_MAX ↔ ¬ValidId n := by
  unfold ValidId UINT16_MAX
  omega

theorem parse_tokens_invalid {tok : List UInt8} {n : Int} (htok : Decimal tok n) (hn : ¬ValidId n)
    (toks : List (List UInt8)) (b : Block) (count : Nat) :
    parse_tokens (tok :: toks) b count = .ok none := by
  unfold parse_tokens
  rw [atoi_eq htok]
  exact if_pos (not_valid_iff.mpr hn)

theorem parse_tokens_valid {tok : List UInt8} {n : Int} (htok : Decimal tok n) (hn : ValidId n)
    (toks : List (List UInt8)) (b : Block) (count : Nat) :
    parse_tokens (tok :: toks) b count =
      ((if count ≠ 0 ∧ count % 5 = 0 then realloc b (count + 5) else b).write
        (count * uint16Size) (storeUint16 (.ofNat n.toNat))).bind
          fun b => parse_tokens toks b (count + 1) := by
  conv_lhs => unfold parse_tokens
  rw [atoi_eq htok]
  exact if_neg fun h => not_valid_iff.mp h hn

/-- A store among the first five ids. -/
theorem store_ok (vs : List Int) (n : Int) {post : Block}
    (hlen : post.length + vs.length * uint16Size = 10) (hroom : vs.length < 5) :
    ∃ post', Block.write (idBytes vs ++ post) (vs.length * uint16Size)
        (storeUint16 (.ofNat n.toNat)) = .ok (idBytes (vs ++ [n]) ++ post') ∧
      post'.length + (vs ++ [n]).length * uint16Size = 10 := by
  have htwo : uint16Size = 2 := rfl
  have hsize : (storeUint16 (.ofNat n.toNat)).length = uint16Size := length_storeUint16 _
  have hpost : post = post.take uint16Size ++ post.drop uint16Size :=
    (List.take_append_drop ..).symm
  rw [htwo] at hlen
  have htake : (post.take uint16Size).length = (storeUint16 (.ofNat n.toNat)).length := by
    rw [hsize, List.length_take, htwo]
    omega
  have hwrite := Block.write_append (idBytes vs) (post.drop uint16Size) htake
  rw [List.append_assoc, ← hpost, length_idBytes] at hwrite
  refine ⟨post.drop uint16Size, ?_, ?_⟩
  · rw [hwrite, idBytes_append]
    simp [idBytes]
  · rw [List.length_drop, List.length_append, List.length_singleton, htwo]
    omega

/-- The sixth id does not fit: the block still has ten bytes. -/
theorem store_fault (vs : List Int) (n : Int) {post : Block}
    (hlen : post.length + vs.length * uint16Size = 10) (hfull : vs.length = 5) :
    Block.write (realloc (idBytes vs ++ post) (vs.length + 5)) (vs.length * uint16Size)
      (storeUint16 (.ofNat n.toNat)) = .error .outOfBounds := by
  have htwo : uint16Size = 2 := rfl
  refine if_neg ?_
  simp only [realloc, List.length_append, List.length_take, List.length_replicate, length_idBytes,
    length_storeUint16, htwo] at hlen ⊢
  omega

/-- While there is room for the ids that are stored, the loop is right. -/
theorem parse_tokens_room {toks : List (List UInt8)} {ns : List Int}
    (hns : List.Forall₂ Decimal toks ns) (vs : List Int) (post : Block)
    (hlen : post.length + vs.length * uint16Size = 10)
    (hroom : vs.length + (stored ns).length ≤ 5) :
    (∃ post', parse_tokens toks (idBytes vs ++ post) vs.length =
      .ok (some (idBytes (vs ++ ns) ++ post', (vs ++ ns).length)) ∧ ∀ n ∈ ns, ValidId n) ∨
    parse_tokens toks (idBytes vs ++ post) vs.length = .ok none ∧ ¬∀ n ∈ ns, ValidId n := by
  induction hns generalizing vs post with
  | nil => exact .inl ⟨post, by simp [parse_tokens, pure, Except.pure], nofun⟩
  | @cons tok n toks ns htok _ ih =>
    rw [stored_cons] at hroom
    by_cases hn : ValidId n
    · rw [if_pos hn, List.length_cons] at hroom
      have hgrow : ¬(vs.length ≠ 0 ∧ vs.length % 5 = 0) := by omega
      obtain ⟨post', hwrite, hlen'⟩ := store_ok vs n hlen (by omega)
      have hrest := ih (vs ++ [n]) post' hlen'
        (by rw [List.length_append, List.length_singleton]; omega)
      rw [List.append_assoc, List.singleton_append, List.length_append, List.length_singleton]
        at hrest
      rw [parse_tokens_valid htok hn, if_neg hgrow, hwrite]
      rw [List.forall_mem_cons]
      simpa only [Except.bind, hn, true_and] using hrest
    · refine .inr ⟨parse_tokens_invalid htok hn _ _ _, fun hall => hn (hall n List.mem_cons_self)⟩

/-- Where there is not, a store goes past the end of the block. -/
theorem parse_tokens_full {toks : List (List UInt8)} {ns : List Int}
    (hns : List.Forall₂ Decimal toks ns) (vs : List Int) (post : Block)
    (hlen : post.length + vs.length * uint16Size = 10) (hle : vs.length ≤ 5)
    (hfull : 5 < vs.length + (stored ns).length) :
    parse_tokens toks (idBytes vs ++ post) vs.length = .error .outOfBounds := by
  induction hns generalizing vs post with
  | nil =>
    rw [stored, List.takeWhile_nil, List.length_nil] at hfull
    omega
  | @cons tok n toks ns htok _ ih =>
    rw [stored_cons] at hfull
    by_cases hn : ValidId n
    · rw [if_pos hn, List.length_cons] at hfull
      rw [parse_tokens_valid htok hn]
      by_cases hfive : vs.length = 5
      · rw [if_pos (by omega), store_fault vs n hlen hfive]
        rfl
      · obtain ⟨post', hwrite, hlen'⟩ := store_ok vs n hlen (by omega)
        have hrest := ih (vs ++ [n]) post' hlen'
          (by rw [List.length_append, List.length_singleton]; omega)
          (by rw [List.length_append, List.length_singleton]; omega)
        rw [if_neg (by omega), hwrite]
        rwa [List.length_append, List.length_singleton] at hrest
    · rw [if_neg hn, List.length_nil] at hfull
      omega

/-- **The parsing of the client ids.** For an argument whose tokens are decimal numbers that fit an
`int`, it is right exactly if at most five ids come before the first one that is not valid. -/
theorem parse_client_ids_iff (id_str : List UInt8) (ns : List Int) (hns : TokensAre id_str ns) :
    ParsesAs id_str ns ↔ (stored ns).length ≤ 5 := by
  have hdecimal : List.Forall₂ Decimal (tokens isDelim (id_str.length + 1) id_str) ns := by
    rw [tokens_eq (Nat.lt_succ_self _)]
    exact hns.imp fun _ _ h => h.1
  have hblock : List.replicate (5 * uint16Size) (0 : UInt8) =
      idBytes [] ++ List.replicate (5 * uint16Size) 0 := rfl
  have hlen : (List.replicate (5 * uint16Size) (0 : UInt8)).length +
      ([] : List Int).length * uint16Size = 10 := rfl
  unfold ParsesAs parse_client_ids
  rw [hblock]
  constructor
  · rintro ⟨r, heq, -⟩
    by_contra hfull
    have hfault := parse_tokens_full hdecimal [] _ hlen (Nat.zero_le _) (by simpa using hfull)
    rw [List.length_nil] at hfault
    rw [hfault] at heq
    cases heq
  · intro hroom
    rcases parse_tokens_room hdecimal [] _ hlen (by simpa using hroom) with
      ⟨post, heq, hall⟩ | ⟨heq, hnot⟩
    · refine ⟨_, heq, ⟨fun _ => hall, fun _ => rfl⟩, ?_⟩
      rintro ids id_count ⟨⟩
      exact ⟨rfl, fun k hk => loadUint16_idBytes hall post hk⟩
    · exact ⟨none, heq, ⟨nofun, fun hall => absurd hall hnot⟩, nofun⟩

theorem intToken_digit (c : UInt8) (n : Int) (hc : (c.toNat : Int) = 48 + n)
    (hn : 0 ≤ n ∧ n ≤ 9) : IntToken [c] n := by
  have hdigits : Digits [c] := by
    refine ⟨List.cons_ne_nil _ _, fun d hd => ?_⟩
    rw [List.mem_singleton.mp hd]
    simp only [isdigit, UInt8.le_iff_toNat_le, Bool.and_eq_true, decide_eq_true_eq]
    change 48 ≤ c.toNat ∧ c.toNat ≤ 57
    omega
  have hvalue : ((ofDigits [c] : Nat) : Int) = n := by
    simp only [ofDigits, List.foldl_cons, List.foldl_nil]
    omega
  exact ⟨hvalue ▸ .unsigned hdigits, by omega, by omega⟩

/-- The argument `2, 1,3`. -/
theorem parse_client_ids_three : ParsesAs [50, 44, 32, 49, 44, 51] [2, 1, 3] := by
  refine (parse_client_ids_iff _ _ ?_).mpr (by decide)
  exact .cons (intToken_digit 50 2 rfl (by decide)) (.cons (intToken_digit 49 1 rfl (by decide))
    (.cons (intToken_digit 51 3 rfl (by decide)) .nil))

/-- The argument `1,2,3,4,5,6`: the sixth id is stored behind the block. -/
theorem not_parse_client_ids : ¬ ∀ id_str ns, TokensAre id_str ns → ParsesAs id_str ns := by
  intro h
  have htokens : TokensAre [49, 44, 50, 44, 51, 44, 52, 44, 53, 44, 54] [1, 2, 3, 4, 5, 6] :=
    .cons (intToken_digit 49 1 rfl (by decide)) (.cons (intToken_digit 50 2 rfl (by decide))
      (.cons (intToken_digit 51 3 rfl (by decide)) (.cons (intToken_digit 52 4 rfl (by decide))
        (.cons (intToken_digit 53 5 rfl (by decide))
          (.cons (intToken_digit 54 6 rfl (by decide)) .nil)))))
  obtain ⟨r, heq, -⟩ := h _ _ htokens
  have hfault : parse_client_ids [49, 44, 50, 44, 51, 44, 52, 44, 53, 44, 54] =
      .error .outOfBounds := rfl
  rw [hfault] at heq
  cases heq

end Cs2510.Chat
