import Mathlib.Data.List.TakeWhile
import Cs2510.Lib.Bytes

/-!
# Strings of the C library

A string is the bytes of a block before the first zero byte; a block without one is read past its
end. Single bytes are accessed by an index of type `int`, which may be negative.

`strtok` is called until it finds nothing more. `tokens_eq` says that this yields the non-empty
pieces between the delimiters, and `atoi_eq` that `atoi` reads decimal numerals back.
-/

/-- What follows an access that has succeeded. -/
theorem ok_bind {α β : Type} (a : α) (f : α → Except Fault β) : Except.ok a >>= f = f a := rfl

namespace Block

/-- `b[i]` -/
def load (b : Block) (i : Int) : Except Fault UInt8 :=
  if i < 0 then .error .outOfBounds
  else
    match b[i.toNat]? with
    | some c => .ok c
    | none => .error .outOfBounds

/-- `b[i] = c` -/
def store (b : Block) (i : Int) (c : UInt8) : Except Fault Block :=
  if i < 0 then .error .outOfBounds else b.write i.toNat [c]

/-- The bytes before the first zero byte. -/
def stringOf (bytes : List UInt8) : List UInt8 := bytes.takeWhile (· ≠ 0)

/-- The string at the start of the block. -/
def cstring (b : Block) : Except Fault (List UInt8) :=
  if 0 ∈ b then .ok (stringOf b) else .error .outOfBounds

theorem load_neg (b : Block) {i : Int} (hi : i < 0) : b.load i = .error .outOfBounds :=
  if_pos hi

theorem load_append (pre post : List UInt8) (c : UInt8) {i : Int} (hi : i = pre.length) :
    load (pre ++ c :: post) i = .ok c := by
  subst hi
  simp [load]

theorem store_append (pre post : List UInt8) (c c' : UInt8) {i : Int} (hi : i = pre.length) :
    store (pre ++ c :: post) i c' = .ok (pre ++ c' :: post) := by
  subst hi
  have hwrite : write (pre ++ [c] ++ post) pre.length [c'] = .ok (pre ++ [c'] ++ post) :=
    write_append pre post rfl
  rw [List.append_assoc, List.append_assoc, List.singleton_append, List.singleton_append] at hwrite
  rw [store, if_neg (by omega)]
  exact hwrite

theorem ne_zero_of_mem_stringOf {bytes : List UInt8} {c : UInt8} (hc : c ∈ stringOf bytes) :
    c ≠ 0 := by
  simpa using List.mem_takeWhile_imp hc

theorem cstring_append {s : List UInt8} (hs : ∀ c ∈ s, c ≠ 0) (post : List UInt8) :
    cstring (s ++ 0 :: post) = .ok s := by
  have htake : stringOf (s ++ 0 :: post) = s := by
    rw [stringOf, List.takeWhile_append_of_pos fun c hc => decide_eq_true (hs c hc)]
    exact List.append_nil s
  rw [cstring, if_pos (by simp), htake]

/-- The string is followed by the first zero byte. -/
theorem exists_zero (bytes post : List UInt8) :
    ∃ post', bytes ++ 0 :: post = stringOf bytes ++ 0 :: post' := by
  have happend : stringOf bytes ++ bytes.dropWhile (· ≠ 0) = bytes :=
    List.takeWhile_append_dropWhile
  cases hrest : bytes.dropWhile (· ≠ 0) with
  | nil =>
    rw [hrest, List.append_nil] at happend
    exact ⟨post, by rw [happend]⟩
  | cons c rest =>
    have hc := List.head?_dropWhile_not (fun c : UInt8 => c ≠ 0) bytes
    rw [hrest] at hc
    obtain rfl : c = 0 := by simpa using hc
    refine ⟨rest ++ 0 :: post, ?_⟩
    conv_lhs => rw [← happend, hrest]
    rw [List.append_assoc, List.cons_append]

theorem cstring_line (bytes post : List UInt8) :
    cstring (bytes ++ 0 :: post) = .ok (stringOf bytes) := by
  obtain ⟨post', heq⟩ := exists_zero bytes post
  rw [heq]
  exact cstring_append (fun c => ne_zero_of_mem_stringOf) post'

end Block

/-! ## `strtok` -/

section strtok

variable (delim : UInt8 → Bool)

/-- The next token, and what is left of the string behind the delimiter that ends it. -/
def strtok (s : List UInt8) : Option (List UInt8 × List UInt8) :=
  match s.dropWhile delim with
  | [] => none
  | c :: s => some ((c :: s).takeWhile (!delim ·), ((c :: s).dropWhile (!delim ·)).tail)

/-- The tokens found by at most so many calls. -/
def tokens : Nat → List UInt8 → List (List UInt8)
  | 0, _ => []
  | calls + 1, s =>
    match strtok delim s with
    | none => []
    | some (tok, rest) => tok :: tokens calls rest

/-- The non-empty pieces between the delimiters. -/
def pieces (s : List UInt8) : List (List UInt8) := (s.splitOnP delim).filter (· ≠ [])

variable {delim} {s : List UInt8}

theorem pieces_cons_delim {c : UInt8} (hc : delim c = true) :
    pieces delim (c :: s) = pieces delim s := by
  rw [pieces, ← List.nil_append (c :: s), List.splitOnP_append_cons [] s hc]
  rfl

theorem pieces_dropWhile : pieces delim (s.dropWhile delim) = pieces delim s := by
  induction s with
  | nil => rfl
  | cons c s ih =>
    by_cases hc : delim c = true
    · rw [List.dropWhile_cons_of_pos hc, ih, pieces_cons_delim hc]
    · rw [List.dropWhile_cons_of_neg hc]

theorem pieces_single {tok : List UInt8} (htok : ∀ c ∈ tok, delim c = false) (hne : tok ≠ []) :
    pieces delim tok = [tok] := by
  rw [pieces, List.splitOnP_eq_singleton htok, List.filter_cons_of_pos (by simpa using hne)]
  rfl

/-- A token, and the delimiter behind it. -/
theorem pieces_token {tok : List UInt8} (htok : ∀ c ∈ tok, delim c = false) (hne : tok ≠ [])
    {c : UInt8} (hc : delim c = true) : pieces delim (tok ++ c :: s) = tok :: pieces delim s := by
  have hsingle := pieces_single htok hne
  rw [pieces] at hsingle ⊢
  rw [List.splitOnP_append_cons tok s hc, List.filter_append, hsingle]
  rfl

theorem strtok_spec : match strtok delim s with
    | none => pieces delim s = []
    | some (tok, rest) => pieces delim s = tok :: pieces delim rest ∧ rest.length < s.length := by
  unfold strtok
  rw [← pieces_dropWhile]
  have hlen : (s.dropWhile delim).length ≤ s.length := (List.dropWhile_suffix _).length_le
  cases hs : s.dropWhile delim with
  | nil => rfl
  | cons c s' =>
    have hc : delim c = false := by
      have := List.head?_dropWhile_not delim s
      rw [hs] at this
      simpa using this
    rw [hs] at hlen
    have htok : ∀ x ∈ (c :: s').takeWhile (!delim ·), delim x = false := by
      intro x hx
      simpa using List.mem_takeWhile_imp hx
    have hne : (c :: s').takeWhile (!delim ·) ≠ [] := by simp [hc]
    have happend := List.takeWhile_append_dropWhile (p := (!delim ·)) (l := c :: s')
    change pieces delim (c :: s') = (c :: s').takeWhile (!delim ·) ::
      pieces delim ((c :: s').dropWhile (!delim ·)).tail ∧
        ((c :: s').dropWhile (!delim ·)).tail.length < s.length
    cases hrest : (c :: s').dropWhile (!delim ·) with
    | nil =>
      rw [hrest, List.append_nil] at happend
      have hpieces := pieces_single htok hne
      refine ⟨?_, Nat.lt_of_lt_of_le (Nat.succ_pos _) hlen⟩
      rwa [happend] at hpieces ⊢
    | cons e rest =>
      have he : delim e = true := by
        have := List.head?_dropWhile_not (!delim ·) (c :: s')
        rw [hrest] at this
        simpa using this
      rw [hrest] at happend
      refine ⟨?_, ?_⟩
      · rw [List.tail_cons, ← pieces_token htok hne he, happend]
      · have := congrArg List.length happend
        simp only [List.length_append, List.length_cons, List.tail_cons] at this hlen ⊢
        omega

/-- Enough calls of `strtok` find all tokens. -/
theorem tokens_eq {calls : Nat} (hcalls : s.length < calls) :
    tokens delim calls s = pieces delim s := by
  induction calls generalizing s with
  | zero => cases hcalls
  | succ calls ih =>
    have hspec := @strtok_spec delim s
    unfold tokens
    cases hs : strtok delim s with
    | none =>
      rw [hs] at hspec
      exact hspec.symm
    | some r =>
      rw [hs] at hspec
      obtain ⟨tok, rest⟩ := r
      exact (congrArg _ (ih (by omega))).trans hspec.1.symm

end strtok

/-! ## `atoi` -/

def isspace (c : UInt8) : Bool := c = 32 || (9 ≤ c && c ≤ 13)

def isdigit (c : UInt8) : Bool := 48 ≤ c && c ≤ 57

/-- The number that digits stand for. -/
def ofDigits (digits : List UInt8) : Nat := digits.foldl (fun n c => 10 * n + (c.toNat - 48)) 0

/-- The number at the start of the string. C does not define the result if it does not fit an
`int`. -/
def atoi (s : List UInt8) : Int :=
  let s := s.dropWhile isspace
  if s.head? = some 45 then -ofDigits (s.tail.takeWhile isdigit)
  else if s.head? = some 43 then ofDigits (s.tail.takeWhile isdigit)
  else ofDigits (s.takeWhile isdigit)

/-- One digit or more. -/
def Digits (s : List UInt8) : Prop := s ≠ [] ∧ ∀ c ∈ s, isdigit c = true

/-- A decimal numeral, with or without a sign, and its value. -/
inductive Decimal : List UInt8 → Int → Prop
  | unsigned {s : List UInt8} : Digits s → Decimal s (ofDigits s)
  | plus {s : List UInt8} : Digits s → Decimal (43 :: s) (ofDigits s)
  | minus {s : List UInt8} : Digits s → Decimal (45 :: s) (-ofDigits s)

theorem takeWhile_digits {s : List UInt8} (hs : Digits s) : s.takeWhile isdigit = s :=
  List.takeWhile_eq_self_iff.mpr hs.2

theorem atoi_eq {s : List UInt8} {n : Int} (h : Decimal s n) : atoi s = n := by
  cases h with
  | plus hs => simp [atoi, isspace, takeWhile_digits hs]
  | minus hs => simp [atoi, isspace, takeWhile_digits hs]
  | unsigned hs =>
    obtain ⟨c, s, rfl⟩ := List.exists_cons_of_ne_nil hs.1
    have hc : 48 ≤ c.toNat ∧ c.toNat ≤ 57 := by
      simpa [isdigit, UInt8.le_iff_toNat_le] using hs.2 c List.mem_cons_self
    have hspace : ¬isspace c = true := by
      simp [isspace, UInt8.le_iff_toNat_le, ← UInt8.toNat_inj]
      omega
    have hsign : c ≠ 45 ∧ c ≠ 43 := by
      constructor <;> rintro rfl <;> exact absurd hc (by decide)
    simp only [atoi, List.dropWhile_cons_of_neg hspace, List.head?_cons, Option.some.injEq,
      if_neg hsign.1, if_neg hsign.2, takeWhile_digits hs]
