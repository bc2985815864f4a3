import Mathlib.Data.List.Basic
import Mathlib.Data.List.Induction
import Mathlib.Tactic.Ring

/-!
# Bytes in network order, and memory blocks with checked bounds

`bigEndian w n` writes the number `n` in `w` bytes, most significant byte first, and
`ofBigEndian` reads such bytes back.

A `Block` is a heap block. Reading or writing outside it is a `Fault`, so a program that
returns a value has kept every access within its blocks.
-/

/-- The number `n` in `width` bytes, most significant byte first. -/
def bigEndian : (width n : Nat) → List UInt8
  | 0, _ => []
  | width + 1, n => bigEndian width (n / 256) ++ [UInt8.ofNat n]

/-- The number a list of bytes stands for, most significant byte first. -/
def ofBigEndian (bytes : List UInt8) : Nat :=
  bytes.foldl (fun n b => 256 * n + b.toNat) 0

@[simp] theorem length_bigEndian (width n : Nat) : (bigEndian width n).length = width := by
  induction width generalizing n with
  | zero => rfl
  | succ width ih => simp [bigEndian, ih]

@[simp] theorem ofBigEndian_append_singleton (bytes : List UInt8) (b : UInt8) :
    ofBigEndian (bytes ++ [b]) = 256 * ofBigEndian bytes + b.toNat := by
  simp [ofBigEndian]

theorem ofBigEndian_bigEndian {width n : Nat} (h : n < 256 ^ width) :
    ofBigEndian (bigEndian width n) = n := by
  induction width generalizing n with
  | zero => simp only [pow_zero, Nat.lt_one_iff] at h; simp [bigEndian, ofBigEndian, h]
  | succ width ih =>
    have hq : n / 256 < 256 ^ width := by
      rw [Nat.div_lt_iff_lt_mul (by decide)]
      rwa [pow_succ] at h
    rw [bigEndian, ofBigEndian_append_singleton, ih hq, UInt8.toNat_ofNat']
    omega

theorem ofBigEndian_lt (bytes : List UInt8) : ofBigEndian bytes < 256 ^ bytes.length := by
  induction bytes using List.reverseRecOn with
  | nil => decide
  | append_singleton bytes b ih =>
    have hb := b.toNat_lt
    rw [ofBigEndian_append_singleton, List.length_append, List.length_singleton, pow_succ]
    omega

/-- Any bytes are those of the number they stand for. -/
theorem bigEndian_ofBigEndian (bytes : List UInt8) :
    bigEndian bytes.length (ofBigEndian bytes) = bytes := by
  induction bytes using List.reverseRecOn with
  | nil => rfl
  | append_singleton bytes b ih =>
    have hb := b.toNat_lt
    have hdiv : (256 * ofBigEndian bytes + b.toNat) / 256 = ofBigEndian bytes := by omega
    have hlast : UInt8.ofNat (256 * ofBigEndian bytes + b.toNat) = b := by
      apply UInt8.toNat_inj.mp
      rw [UInt8.toNat_ofNat']
      omega
    rw [List.length_append, List.length_singleton, ofBigEndian_append_singleton, bigEndian, hdiv,
      ih, hlast]

/-- What goes wrong in a memory access. -/
inductive Fault
  | nullDeref
  | outOfBounds
  deriving DecidableEq, Repr

/-- A sequence of memory accesses succeeds when each of them does. -/
theorem bind_eq_ok {α β : Type} {x : Except Fault α} {f : α → Except Fault β} {b : β} :
    x >>= f = .ok b ↔ ∃ a, x = .ok a ∧ f a = .ok b := by
  cases x <;> simp [bind, Except.bind]

/-- The contents of a heap block. -/
abbrev Block := List UInt8

namespace Block

/-- Read `len` bytes at offset `off`. -/
def read (b : Block) (off len : Nat) : Except Fault (List UInt8) :=
  if off + len ≤ b.length then .ok ((b.drop off).take len) else .error .outOfBounds

/-- Write `bytes` at offset `off`. -/
def write (b : Block) (off : Nat) (bytes : List UInt8) : Except Fault Block :=
  if off + bytes.length ≤ b.length then
    .ok (b.take off ++ bytes ++ b.drop (off + bytes.length))
  else .error .outOfBounds

/-- Reading what lies behind `pre` in a block. -/
theorem read_append (pre bytes post : List UInt8) :
    read (pre ++ bytes ++ post) pre.length bytes.length = .ok bytes := by
  simp [read]

/-- Reading behind `pre` is reading what follows it. -/
theorem read_behind (pre rest : List UInt8) (len : Nat) :
    read (pre ++ rest) pre.length len = read rest 0 len := by
  simp [read]

theorem read_eq_ok {b : Block} {off len : Nat} {bytes : List UInt8} :
    read b off len = .ok bytes ↔ off + len ≤ b.length ∧ bytes = (b.drop off).take len := by
  unfold read
  split <;> simp_all [eq_comm]

/-- Writing over the bytes `old` that lie behind `pre` replaces exactly these. -/
theorem write_append (pre post : List UInt8) {old bytes : List UInt8}
    (h : old.length = bytes.length) :
    write (pre ++ old ++ post) pre.length bytes = .ok (pre ++ bytes ++ post) := by
  simp [write, ← h, List.drop_append]

theorem write_eq_ok {b b' : Block} {off : Nat} {bytes : List UInt8} :
    write b off bytes = .ok b' ↔
      off + bytes.length ≤ b.length ∧ b' = b.take off ++ bytes ++ b.drop (off + bytes.length) := by
  unfold write
  split <;> simp_all [eq_comm]

theorem length_write {b b' : Block} {off : Nat} {bytes : List UInt8}
    (h : write b off bytes = .ok b') : b'.length = b.length := by
  obtain ⟨hle, rfl⟩ := write_eq_ok.mp h
  simp
  omega

end Block
