import Mathlib.Logic.Function.Basic

/-!
# Registers

A register holds a value for each key. Next to the value that was written last it keeps the one
before, which a copy may still have while the write is under way: a copy is regular when it has the
last value, or the one before of a key whose write is under way.
-/

universe u v

/-- What was written last to each key, and before that. -/
structure Register (K : Type u) (V : Type v) where
  last : K → Option V
  before : K → Option V

namespace Register

variable {K : Type u} {V : Type v}

/-- The copy `x` of the value of `key` is regular. -/
def Regular (r : Register K V) (key : K) (underWay : Prop) (x : Option V) : Prop :=
  x = r.last key ∨ underWay ∧ x = r.before key

variable {r : Register K V} {key k : K} {val : V} {underWay : Prop} {x : Option V}

/-- With nothing under way, a copy has the last value. -/
theorem Regular.eq_last (h : r.Regular key underWay x) (hnot : ¬ underWay) : x = r.last key :=
  h.resolve_right fun hbefore => hnot hbefore.1

/-- A copy of the value before is regular for as long as the write is under way. -/
theorem Regular.still {underWay' : Prop} (h : r.Regular key underWay x) (hunder : underWay') :
    r.Regular key underWay' x :=
  h.imp_right fun hbefore => ⟨hunder, hbefore.2⟩

/-- A register that has not been written to. -/
def fresh (values : K → Option V) : Register K V := ⟨values, values⟩

def write [DecidableEq K] (r : Register K V) (w : K × V) : Register K V :=
  ⟨Function.update r.last w.1 (some w.2), Function.update r.before w.1 (r.last w.1)⟩

variable [DecidableEq K]

@[simp] theorem last_write : (r.write (key, val)).last key = some val := Function.update_self ..

@[simp] theorem before_write : (r.write (key, val)).before key = r.last key :=
  Function.update_self ..

theorem last_write_of_ne (h : k ≠ key) : (r.write (key, val)).last k = r.last k :=
  Function.update_of_ne h ..

theorem before_write_of_ne (h : k ≠ key) : (r.write (key, val)).before k = r.before k :=
  Function.update_of_ne h ..

/-- A copy that has the last value of its key is regular when the key is written to. -/
theorem Regular.written (hx : x = r.last key) (hunder : underWay) :
    (r.write (key, val)).Regular key underWay x :=
  .inr ⟨hunder, hx.trans before_write.symm⟩

/-- A write to another key is of no concern. -/
theorem regular_write_of_ne (h : k ≠ key) :
    (r.write (key, val)).Regular k underWay x ↔ r.Regular k underWay x := by
  rw [Regular, Regular, last_write_of_ne h, before_write_of_ne h]

end Register
