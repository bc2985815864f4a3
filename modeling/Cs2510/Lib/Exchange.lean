import Cs2510.Lib.Socket

/-!
# What a socket program consumes and writes, however the transfers are split

`Exchanges p inp out Q`: with an answer left for every byte to move, `p` returns a value
satisfying `Q` after consuming exactly `inp` and writing exactly `out`, whatever positive
number of bytes each transfer moves.

`ioLoop_moves` is the rule for the transfer loop: a round that moves some of the bytes left, and
keeps the loop's invariant, moves them all. Its instances are the loop that fills a buffer
(`exchanges_fill`), the loop that reads and drops (`exchanges_drain`) and the loop that writes a
buffer (`exchanges_flush`).
-/

/-- The kernel answers at least `n` more calls, and lets none of them fail. -/
structure Ready (n : Nat) (sched : List Answer) : Prop where
  enough : n ≤ sched.length
  moves : ∀ a ∈ sched, ∃ k, a = .moves k

namespace Ready

theorem mono {m n : Nat} {sched : List Answer} (h : Ready n sched) (hmn : m ≤ n) :
    Ready m sched :=
  ⟨hmn.trans h.enough, h.moves⟩

theorem tail {n : Nat} {a : Answer} {sched : List Answer} (h : Ready (n + 1) (a :: sched)) :
    Ready n sched :=
  ⟨Nat.le_of_succ_le_succ h.enough, fun b hb => h.moves b (List.mem_cons_of_mem _ hb)⟩

theorem replicate (n k : Nat) : Ready n (List.replicate n (.moves k)) :=
  ⟨by simp, fun _ ha => ⟨k, List.eq_of_mem_replicate ha⟩⟩

end Ready

namespace Net

variable {α β : Type}

/-- `p` returns a value satisfying `Q`, having consumed exactly `inp` and written exactly `out`. -/
def Exchanges (p : Net α) (inp out : List UInt8) (Q : α → Prop) : Prop :=
  ∀ (rest done : List UInt8) (sched : List Answer) (n : Nat),
    Ready (inp.length + out.length + n) sched →
      ∃ a sched', Q a ∧ Ready n sched' ∧
        p ⟨inp ++ rest, done, sched⟩ = .ret a ⟨rest, done ++ out, sched'⟩

theorem bind_ret {p : Net α} {f : α → Net β} {s s' : Socket} {a : α} (h : p s = .ret a s') :
    (p >>= f) s = f a s' := by
  change Net.bind p f s = _
  rw [Net.bind, h]

theorem bind_fault {p : Net α} {f : α → Net β} {s : Socket} {e : Fault} (h : p s = .fault e) :
    (p >>= f) s = .fault e := by
  change Net.bind p f s = _
  rw [Net.bind, h]

theorem bind_eq_ret {p : Net α} {f : α → Net β} {s s' : Socket} {b : β} :
    (p >>= f) s = .ret b s' ↔ ∃ a s₁, p s = .ret a s₁ ∧ f a s₁ = .ret b s' := by
  change Net.bind p f s = _ ↔ _
  rw [Net.bind]
  cases p s <;> simp

@[simp] theorem pure_apply (a : α) (s : Socket) : (pure a : Net α) s = .ret a s := rfl

@[simp] theorem pure_bind (a : α) (f : α → Net β) : (pure a : Net α) >>= f = f a := rfl

@[simp] theorem ofExcept_ok (a : α) : ofExcept (.ok a) = (pure a : Net α) := rfl

/-! ## Composition -/

namespace Exchanges

variable {p : Net α} {f : α → Net β} {inp out inp' out' : List UInt8} {Q : α → Prop} {R : β → Prop}

theorem mono {Q' : α → Prop} (h : Exchanges p inp out Q) (hQ : ∀ a, Q a → Q' a) :
    Exchanges p inp out Q' := by
  intro rest done sched n hs
  obtain ⟨a, sched', ha, hs', hp⟩ := h rest done sched n hs
  exact ⟨a, sched', hQ a ha, hs', hp⟩

theorem pure {a : α} (ha : Q a) : Exchanges (Pure.pure a) [] [] Q := by
  intro rest done sched n hs
  exact ⟨a, sched, ha, by simpa using hs, by simp⟩

theorem bind (hp : Exchanges p inp out Q) (hf : ∀ a, Q a → Exchanges (f a) inp' out' R) :
    Exchanges (p >>= f) (inp ++ inp') (out ++ out') R := by
  intro rest done sched n hs
  have hs₁ : Ready (inp.length + out.length + (inp'.length + out'.length + n)) sched :=
    hs.mono (by simp only [List.length_append]; omega)
  obtain ⟨a, sched₁, ha, hr₁, hrun₁⟩ := hp (inp' ++ rest) done sched _ hs₁
  obtain ⟨b, sched₂, hb, hr₂, hrun₂⟩ := hf a ha rest (done ++ out) sched₁ n hr₁
  refine ⟨b, sched₂, hb, hr₂, ?_⟩
  rw [List.append_assoc, bind_ret hrun₁, hrun₂, List.append_assoc]

/-- A program followed by one that does not use the socket. -/
theorem bind_pure (hp : Exchanges p inp out Q) (hf : ∀ a, Q a → Exchanges (f a) [] [] R) :
    Exchanges (p >>= f) inp out R := by
  simpa using hp.bind hf

/-- A program that consumes `inp` for every splitting does not consume more of a longer stream. -/
theorem input_eq_nil {more : List UInt8} {Q' : α → Prop} (h : Exchanges p inp out Q)
    (h' : Exchanges p (inp ++ more) out' Q') : more = [] := by
  let n := (inp ++ more).length + out.length + out'.length
  have hs := Ready.replicate n 0
  obtain ⟨a, sched₁, -, -, hrun⟩ := h more [] _ 0 (hs.mono (by simp [n]; omega))
  obtain ⟨a', sched₂, -, -, hrun'⟩ := h' [] [] _ 0 (hs.mono (by simp only [n]; omega))
  rw [List.append_nil, hrun] at hrun'
  cases hrun'
  rfl

/-- A program that writes `out` for every splitting writes nothing else. -/
theorem output_unique {Q' : α → Prop} (h : Exchanges p inp out Q)
    (h' : Exchanges p inp out' Q') : out = out' := by
  let n := inp.length + out.length + out'.length
  have hs := Ready.replicate n 0
  obtain ⟨a, sched₁, -, -, hrun⟩ := h [] [] _ 0 (hs.mono (by simp only [n]; omega))
  obtain ⟨a', sched₂, -, -, hrun'⟩ := h' [] [] _ 0 (hs.mono (by simp only [n]; omega))
  rw [hrun] at hrun'
  cases hrun'
  rfl

/-- A program that faults at once exchanges nothing. -/
theorem not_of_fault {e : Fault} (h : ∀ s, p s = .fault e) : ¬ Exchanges p inp out Q := by
  intro hx
  obtain ⟨a, sched, -, -, hrun⟩ := hx [] [] _ 0 (Ready.replicate _ 0)
  rw [h] at hrun
  cases hrun

end Exchanges

/-! ## The transfer loop -/

section ioLoop

/-- The rule for the transfer loop. `sock moved left` is the socket when the bytes `moved` have
been transferred and `left` have not. The induction is on the answers of the kernel: each round
uses one and moves at least one byte. -/
theorem ioLoop_moves (io : Nat → β → Net (Option Nat × β))
    (sock : (moved left : List UInt8) → List Answer → Socket)
    (I : (moved left : List UInt8) → β → Prop) (want base : Nat)
    (hround : ∀ moved left k sched b, left ≠ [] → base + moved.length + left.length = want →
      I moved left b → ∃ m b', 0 < m ∧ m ≤ left.length ∧
        I (moved ++ left.take m) (left.drop m) b' ∧
        io (base + moved.length) b (sock moved left (.moves k :: sched)) =
          .ret (some m, b') (sock (moved ++ left.take m) (left.drop m) sched))
    (n : Nat) (moved left : List UInt8) {sched : List Answer} {b : β} {fuel : Nat}
    (hI : I moved left b) (hwant : base + moved.length + left.length = want)
    (hs : Ready (left.length + n) sched) (hfuel : sched.length < fuel) :
    ∃ b' sched', I (moved ++ left) [] b' ∧ Ready n sched' ∧
      ioLoop want io fuel (base + moved.length) b (sock moved left sched) =
        .ret (true, want, b') (sock (moved ++ left) [] sched') := by
  induction sched generalizing moved left b fuel with
  | nil =>
    have hleft : left = [] := by
      have := hs.enough
      simp only [List.length_nil, Nat.le_zero_eq, Nat.add_eq_zero_iff, List.length_eq_zero_iff]
        at this
      exact this.1
    subst hleft
    obtain _ | fuel := fuel
    · cases hfuel
    simp only [List.length_nil, Nat.add_zero] at hwant
    refine ⟨b, [], by simpa using hI, hs.mono (by simp), ?_⟩
    simp [ioLoop, hwant]
  | cons a sched ih =>
    obtain _ | fuel := fuel
    · cases hfuel
    by_cases hleft : left = []
    · subst hleft
      simp only [List.length_nil, Nat.add_zero] at hwant
      refine ⟨b, a :: sched, by simpa using hI, hs.mono (by simp), ?_⟩
      simp [ioLoop, hwant]
    have hpos : 0 < left.length := List.length_pos_iff.mpr hleft
    obtain ⟨k, rfl⟩ := hs.moves a List.mem_cons_self
    obtain ⟨m, b₁, hm, hml, hI₁, hrun⟩ := hround moved left k sched b hleft hwant hI
    have hs₁ : Ready ((left.drop m).length + n) sched :=
      (hs.mono (by simp; omega : (left.drop m).length + n + 1 ≤ left.length + n)).tail
    have hwant₁ : base + (moved ++ left.take m).length + (left.drop m).length = want := by
      simp only [List.length_append, List.length_take, List.length_drop]; omega
    obtain ⟨b', sched', hI', hs', hrun'⟩ :=
      ih _ _ hI₁ hwant₁ hs₁ (by simpa using hfuel : sched.length < fuel)
    have hcat : moved ++ left.take m ++ left.drop m = moved ++ left := by simp
    rw [hcat] at hI' hrun'
    refine ⟨b', sched', hI', hs', ?_⟩
    have hlen : base + (moved ++ left.take m).length = base + moved.length + m := by
      simp only [List.length_append, List.length_take]; omega
    have hlt : base + moved.length < want := by omega
    rw [hlen] at hrun'
    rw [ioLoop, if_pos hlt, bind_ret hrun]
    exact hrun'

/-- What every returning round keeps of the state, the loop keeps. -/
theorem ioLoop_invariant {io : Nat → β → Net (Option Nat × β)} {want : Nat} {I : β → Prop}
    (hround : ∀ done b s n b' s', I b → io done b s = .ret (n, b') s' → I b')
    {fuel done : Nat} {b b' : β} {s s' : Socket} {ok : Bool} {done' : Nat} (hI : I b)
    (h : ioLoop want io fuel done b s = .ret (ok, done', b') s') : I b' := by
  induction fuel generalizing done b s with
  | zero => cases h
  | succ fuel ih =>
    rw [ioLoop] at h
    split at h
    · obtain ⟨⟨n, b₁⟩, s₁, hio, h⟩ := bind_eq_ret.mp h
      have hI₁ := hround _ _ _ _ _ _ hI hio
      cases n with
      | none => cases h; exact hI₁
      | some n => exact ih hI₁ h
    · cases h; exact hI

end ioLoop

/-- No call changes the size of the buffer it receives into. -/
theorem length_recv {buf buf' : Block} {off len : Nat} {s s' : Socket} {n : Option Nat}
    (h : recv buf off len s = .ret (n, buf') s') : buf'.length = buf.length := by
  unfold recv at h
  split at h
  · cases h
  · cases h; rfl
  · simp only at h
    split at h
    · split at h
      · next hwrite => cases h; exact Block.length_write hwrite
      · cases h
    · cases h

/-- Filling a buffer: the loop returns the bytes that were to come, in order. -/
theorem exchanges_fill {want : Nat} {inp : List UInt8} {buf : Block} (hbuf : buf.length = want)
    (hinp : inp.length = want) :
    Exchanges (transfer want 0 buf fun done b => recv b done (want - done)) inp []
      (· = (true, want, inp)) := by
  subst hinp
  intro rest done sched n hs
  have hround : ∀ (moved left : List UInt8) k sched (b : Block), left ≠ [] →
      0 + moved.length + left.length = inp.length →
      (∃ old, old.length = left.length ∧ b = moved ++ old) → ∃ m b', 0 < m ∧ m ≤ left.length ∧
        (∃ old, old.length = (left.drop m).length ∧ b' = moved ++ left.take m ++ old) ∧
        recv b (0 + moved.length) (inp.length - (0 + moved.length))
            ⟨left ++ rest, done, .moves k :: sched⟩ =
          .ret (some m, b') ⟨left.drop m ++ rest, done, sched⟩ := by
    rintro moved left k sched _ hleft hwant ⟨old, hold, rfl⟩
    have hpos : 0 < left.length := List.length_pos_iff.mpr hleft
    let m := min (k + 1) left.length
    have hm : m ≤ left.length := Nat.min_le_right ..
    refine ⟨m, moved ++ left.take m ++ old.drop m, by omega, hm,
      ⟨old.drop m, by simp [hold], rfl⟩, ?_⟩
    have hask : min (k + 1) (inp.length - (0 + moved.length)) = m := by omega
    have hbytes : (left ++ rest).take m = left.take m := List.take_append_of_le_length hm
    have hwrite : Block.write (moved ++ old) (0 + moved.length) (left.take m) =
        .ok (moved ++ left.take m ++ old.drop m) := by
      have := Block.write_append moved (old.drop m)
        (by simp [hold] : (old.take m).length = (left.take m).length)
      simpa using this
    simp only [recv, hask, hbytes, hwrite]
    rw [if_pos (by simp only [List.length_append, hold]; omega)]
    simp [List.length_take, Nat.min_eq_left hm, List.drop_append_of_le_length hm]
  obtain ⟨_, sched', ⟨old, hold, rfl⟩, hs', hrun⟩ :=
    ioLoop_moves (fun done b => recv b done (inp.length - done))
      (fun _ left sched => ⟨left ++ rest, done, sched⟩)
      (fun moved left b => ∃ old : Block, old.length = left.length ∧ b = moved ++ old)
      inp.length 0 hround n [] inp ⟨buf, hbuf, rfl⟩ (by simp) (hs.mono (by simp))
      (Nat.lt_succ_self _)
  have hnil : old = [] := List.eq_nil_of_length_eq_zero hold
  subst hnil
  exact ⟨_, sched', rfl, hs', by simpa [transfer] using hrun⟩

/-- Reading into one scratch buffer over and over: the loop drops the bytes that were to come. -/
theorem exchanges_drain {inp : List UInt8} {buf : Block} {base want : Nat}
    (h : base + inp.length = want) (hbuf : 0 < buf.length) :
    Exchanges (transfer want base buf fun done b => recv b 0 (min (want - done) buf.length)) inp []
      (fun r => r.1 = true ∧ r.2.1 = want) := by
  intro rest done sched n hs
  have hround : ∀ (moved left : List UInt8) k sched (b : Block), left ≠ [] →
      base + moved.length + left.length = want → b.length = buf.length →
      ∃ m b', 0 < m ∧ m ≤ left.length ∧ b'.length = buf.length ∧
        recv b 0 (min (want - (base + moved.length)) buf.length)
            ⟨left ++ rest, done, .moves k :: sched⟩ =
          .ret (some m, b') ⟨left.drop m ++ rest, done, sched⟩ := by
    intro moved left k sched b hleft hwant hb
    have hpos : 0 < left.length := List.length_pos_iff.mpr hleft
    let m := min (k + 1) (min (want - (base + moved.length)) buf.length)
    have hm : m ≤ left.length := by omega
    have hmb : m ≤ b.length := by omega
    have hbytes : (left ++ rest).take m = left.take m := List.take_append_of_le_length hm
    obtain ⟨b', hwrite⟩ : ∃ b', Block.write b 0 (left.take m) = .ok b' :=
      ⟨_, Block.write_eq_ok.mpr ⟨by simp; omega, rfl⟩⟩
    refine ⟨m, b', by omega, hm, (Block.length_write hwrite).trans hb, ?_⟩
    simp only [recv]
    rw [hbytes, hwrite, if_pos (by omega)]
    simp [List.length_take, Nat.min_eq_left hm, List.drop_append_of_le_length hm]
  obtain ⟨b', sched', -, hs', hrun⟩ :=
    ioLoop_moves (fun done b => recv b 0 (min (want - done) buf.length))
      (fun _ left sched => ⟨left ++ rest, done, sched⟩) (fun _ _ b => b.length = buf.length)
      want base hround n [] inp rfl (by simpa using h) (hs.mono (by simp)) (Nat.lt_succ_self _)
  exact ⟨_, sched', ⟨rfl, rfl⟩, hs', by simpa [transfer] using hrun⟩

/-- Writing a buffer out. -/
theorem exchanges_flush {want : Nat} {bytes : Block} (h : bytes.length = want) :
    Exchanges (transfer want 0 () fun done _ => do
        let n ← send bytes done (want - done)
        pure (n, ())) [] bytes
      (· = (true, want, ())) := by
  subst h
  intro rest done sched n hs
  have hround : ∀ (moved left : List UInt8) k sched (b : Unit), left ≠ [] →
      0 + moved.length + left.length = bytes.length → moved ++ left = bytes →
      ∃ m b', 0 < m ∧ m ≤ left.length ∧ moved ++ left.take m ++ left.drop m = bytes ∧
        (do let n ← send bytes (0 + moved.length) (bytes.length - (0 + moved.length))
            pure (n, b) : Net (Option Nat × Unit)) ⟨rest, done ++ moved, .moves k :: sched⟩ =
          .ret (some m, b') ⟨rest, done ++ (moved ++ left.take m), sched⟩ := by
    rintro moved left k sched b hleft - rfl
    have hpos : 0 < left.length := List.length_pos_iff.mpr hleft
    let m := min (k + 1) left.length
    refine ⟨m, b, by omega, Nat.min_le_right .., by simp, ?_⟩
    have hread : Block.read (moved ++ left) (0 + moved.length)
        ((moved ++ left).length - (0 + moved.length)) = .ok left := by
      have := Block.read_append moved left []
      simpa using this
    have hsend : send (moved ++ left) (0 + moved.length)
        ((moved ++ left).length - (0 + moved.length)) ⟨rest, done ++ moved, .moves k :: sched⟩ =
        .ret (some m) ⟨rest, done ++ (moved ++ left.take m), sched⟩ := by
      simp only [send, hread]
      simp [m, List.take_eq_take_min]
    rw [bind_ret hsend]
    rfl
  obtain ⟨b', sched', -, hs', hrun⟩ :=
    ioLoop_moves
      (fun done _ => do let n ← send bytes done (bytes.length - done); pure (n, ()))
      (fun moved _ sched => ⟨rest, done ++ moved, sched⟩)
      (fun moved left _ => moved ++ left = bytes)
      bytes.length 0 hround n [] bytes rfl (by simp) (hs.mono (by simp)) (Nat.lt_succ_self _)
  exact ⟨_, sched', rfl, hs', by simpa [transfer] using hrun⟩

end Net
