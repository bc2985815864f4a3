import Cs2510.Lib.Exchange

/-!
# What a transfer loop has done when it returns

`Net.Exchanges` is about kernels that let no call fail. Whatever the answers are: a loop that writes
a buffer has written the beginning of it when it returns, and the whole buffer exactly if no call
has failed (`flush_ret`); a loop that reads has taken the next bytes of the stream, and if no call
has failed, as many as were to come (`fill_ret`, `drain_ret`).
-/

/-- The socket behind a program that was started on `s`. -/
def Outcome.socket {α : Type} (s : Socket) : Outcome α → Socket
  | .ret _ s' => s'
  | .waiting | .fault _ => s

def Outcome.faults {α : Type} : Outcome α → Bool
  | .fault _ => true
  | .ret .. | .waiting => false

namespace Net

variable {α β : Type}

/-- A computation on memory leaves the socket as it is. -/
theorem ofExcept_ret {x : Except Fault α} {a : α} {s s' : Socket}
    (h : ofExcept x s = .ret a s') : x = .ok a ∧ s' = s := by
  cases x with
  | error f => cases h
  | ok a' =>
    cases h
    exact ⟨rfl, rfl⟩

/-! ## Writing -/

/-- A call writes the next bytes of the buffer, or none if it fails. -/
theorem send_ret {buf : Block} {off len : Nat} {s s' : Socket} {n : Option Nat}
    (h : send buf off len s = .ret n s') :
    s'.input = s.input ∧ n.getD 0 ≤ len ∧
      s'.output = s.output ++ (buf.drop off).take (n.getD 0) := by
  unfold send at h
  split at h
  · cases h
  · cases h
    exact ⟨rfl, Nat.zero_le _, by simp⟩
  · next k sched _ =>
    split at h
    · next bytes hread =>
      cases h
      unfold Block.read at hread
      split at hread
      · cases hread
        refine ⟨rfl, ?_, ?_⟩
        · simp only [Option.getD_some, List.length_take]
          omega
        · simp only [Option.getD_some, List.length_take, List.take_take]
          congr 1
          apply List.take_eq_take_iff.mpr
          simp only [List.length_drop]
          omega
      · cases hread
    · cases h

/-- The loop goes on behind what it has written already. -/
theorem ioLoop_send_ret {want : Nat} {bytes : Block} {fuel done done' : Nat} {s s' : Socket}
    {ok : Bool} (hdone : done ≤ want)
    (h : ioLoop want (fun sent (_ : Unit) => do
      let n ← send bytes sent (want - sent)
      pure (n, ())) fuel done () s = .ret (ok, done', ()) s') :
    s'.input = s.input ∧ done ≤ done' ∧ (ok = true ↔ done' = want) ∧ done' ≤ want ∧
      s'.output = s.output ++ (bytes.drop done).take (done' - done) := by
  induction fuel generalizing done s with
  | zero => cases h
  | succ fuel ih =>
    unfold ioLoop at h
    split at h
    · next hlt =>
      obtain ⟨⟨n, b⟩, s₁, hcall, h⟩ := bind_eq_ret.mp h
      obtain ⟨n', s₂, hsend, hpure⟩ := bind_eq_ret.mp hcall
      cases hpure
      obtain ⟨hinput, hle, houtput⟩ := send_ret hsend
      cases n with
      | none =>
        cases h
        rw [Option.getD_none, List.take_zero] at houtput
        refine ⟨hinput, Nat.le_refl _, ?_, hdone, ?_⟩
        · exact iff_of_false Bool.false_ne_true (Nat.ne_of_lt hlt)
        · rw [Nat.sub_self, List.take_zero, houtput]
      | some n =>
        rw [Option.getD_some] at hle houtput
        obtain ⟨hinput', hle', hok, hwant, houtput'⟩ := ih (by omega) h
        refine ⟨hinput'.trans hinput, by omega, hok, hwant, ?_⟩
        rw [houtput', houtput, List.append_assoc, ← List.drop_drop,
          show done' - done = n + (done' - (done + n)) by omega, List.take_add]
    · next hge =>
      cases h
      refine ⟨rfl, Nat.le_refl _, ⟨fun _ => by omega, fun _ => rfl⟩, hdone, ?_⟩
      rw [Nat.sub_self, List.take_zero, List.append_nil]

/-- **Writing a buffer**, whatever the answers of the kernel are. -/
theorem flush_ret {want done' : Nat} {bytes : Block} {s s' : Socket} {ok : Bool}
    (h : transfer want 0 () (fun sent _ => do
      let n ← send bytes sent (want - sent)
      pure (n, ())) s = .ret (ok, done', ()) s') :
    s'.input = s.input ∧ (ok = true ↔ done' = want) ∧ done' ≤ want ∧
      s'.output = s.output ++ bytes.take done' := by
  obtain ⟨hinput, -, hok, hwant, houtput⟩ := ioLoop_send_ret (Nat.zero_le want) h
  rw [List.drop_zero, Nat.sub_zero] at houtput
  exact ⟨hinput, hok, hwant, houtput⟩

/-! ## Reading -/

/-- The socket has been read from only. -/
structure Took (s s' : Socket) (inp : List UInt8) : Prop where
  input : s.input = inp ++ s'.input
  output : s'.output = s.output

theorem Took.refl (s : Socket) : Took s s [] := ⟨rfl, rfl⟩

theorem Took.trans {s s₁ s₂ : Socket} {inp inp' : List UInt8} (h : Took s s₁ inp)
    (h' : Took s₁ s₂ inp') : Took s s₂ (inp ++ inp') :=
  ⟨by rw [h.input, h'.input, List.append_assoc], h'.output.trans h.output⟩

/-- A call takes the next bytes of the stream into the buffer, or none if it fails. -/
theorem recv_ret {buf buf' : Block} {off len : Nat} {s s' : Socket} {n : Option Nat}
    (h : recv buf off len s = .ret (n, buf') s') :
    ∃ inp, Took s s' inp ∧ inp.length = n.getD 0 ∧ inp.length ≤ len ∧
      (n.isSome → off + inp.length ≤ buf.length ∧
        buf' = buf.take off ++ inp ++ buf.drop (off + inp.length)) := by
  unfold recv at h
  split at h
  · cases h
  · cases h
    exact ⟨[], ⟨rfl, rfl⟩, rfl, Nat.zero_le _, by rintro ⟨⟩⟩
  · next k sched _ =>
    simp only at h
    split at h
    · split at h
      · next hwrite =>
        cases h
        obtain ⟨hfit, hbuf⟩ := Block.write_eq_ok.mp hwrite
        refine ⟨s.input.take (min (k + 1) len), ⟨?_, rfl⟩, rfl, ?_, fun _ => ⟨hfit, hbuf⟩⟩
        · have hdrop : s.input.drop (s.input.take (min (k + 1) len)).length =
              s.input.drop (min (k + 1) len) := by
            rw [List.length_take]
            by_cases hle : min (k + 1) len ≤ s.input.length
            · rw [Nat.min_eq_left hle]
            · rw [Nat.min_eq_right (by omega), List.drop_length, List.drop_eq_nil_of_le (by omega)]
          change s.input = _ ++ s.input.drop _
          rw [hdrop, List.take_append_drop]
        · rw [List.length_take]
          omega
      · cases h
    · cases h

/-- The rule for a loop that reads: every call takes the number of bytes it returns, at most what is
left, and `I` holds of the bytes taken and the state. -/
theorem ioLoop_took {io : Nat → β → Net (Option Nat × β)} {I : List UInt8 → β → Prop}
    {want : Nat} (base : Nat)
    (hround : ∀ {moved b s n b' s'}, base + moved.length < want → I moved b →
      io (base + moved.length) b s = .ret (n, b') s' →
      ∃ inp, Took s s' inp ∧ inp.length = n.getD 0 ∧ base + moved.length + inp.length ≤ want ∧
        (n.isSome → I (moved ++ inp) b'))
    (moved : List UInt8) {fuel : Nat} {b b' : β} {s s' : Socket} {ok : Bool} {done' : Nat}
    (hI : I moved b) (hle : base + moved.length ≤ want)
    (h : ioLoop want io fuel (base + moved.length) b s = .ret (ok, done', b') s') :
    ∃ inp, Took s s' inp ∧
      (ok = true → base + moved.length + inp.length = want ∧ done' = want ∧
        I (moved ++ inp) b') := by
  induction fuel generalizing moved b s with
  | zero => cases h
  | succ fuel ih =>
    unfold ioLoop at h
    split at h
    · next hlt =>
      obtain ⟨⟨n, b₁⟩, s₁, hcall, h⟩ := bind_eq_ret.mp h
      obtain ⟨inp, htook, hlen, hfit, hI₁⟩ := hround hlt hI hcall
      cases n with
      | none =>
        cases h
        exact ⟨inp, htook, by rintro ⟨⟩⟩
      | some n =>
        rw [Option.getD_some] at hlen
        have hdone : base + moved.length + n = base + (moved ++ inp).length := by
          rw [List.length_append, hlen, Nat.add_assoc]
        simp only at h
        rw [hdone] at h
        obtain ⟨inp', htook', hok⟩ :=
          ih (moved ++ inp) (hI₁ rfl) (by rw [List.length_append]; omega) h
        refine ⟨inp ++ inp', htook.trans htook', fun hok' => ?_⟩
        obtain ⟨hwant, hdone', hI'⟩ := hok hok'
        rw [List.append_assoc] at hI'
        rw [List.length_append] at hwant ⊢
        exact ⟨by omega, hdone', hI'⟩
    · next hge =>
      cases h
      refine ⟨[], .refl _, fun _ => ⟨?_, ?_, by rwa [List.append_nil]⟩⟩
      · rw [List.length_nil]
        omega
      · omega

/-- **Filling a buffer**, whatever the answers of the kernel are. -/
theorem fill_ret {want done' : Nat} {buf buf' : Block} {s s' : Socket} {ok : Bool}
    (hbuf : buf.length = want)
    (h : transfer want 0 buf (fun done b => recv b done (want - done)) s =
      .ret (ok, done', buf') s') :
    ∃ inp, Took s s' inp ∧ (ok = true → inp.length = want ∧ done' = want ∧ buf' = inp) := by
  have hround : ∀ {moved : List UInt8} {b : Block} {s n b' s'}, 0 + moved.length < want →
      (∃ old : Block, old.length + moved.length = want ∧ b = moved ++ old) →
      recv b (0 + moved.length) (want - (0 + moved.length)) s = .ret (n, b') s' →
      ∃ inp, Took s s' inp ∧ inp.length = n.getD 0 ∧ 0 + moved.length + inp.length ≤ want ∧
        (n.isSome → ∃ old : Block, old.length + (moved ++ inp).length = want ∧
          b' = moved ++ inp ++ old) := by
    rintro moved _ s n b' s' hlt ⟨old, hold, rfl⟩ hcall
    obtain ⟨inp, htook, hlen, hle, hwrite⟩ := recv_ret hcall
    refine ⟨inp, htook, hlen, by omega, fun hn => ⟨old.drop inp.length, ?_, ?_⟩⟩
    · simp only [List.length_drop, List.length_append]
      omega
    · rw [(hwrite hn).2, Nat.zero_add, List.take_left' rfl, List.drop_append,
        Nat.add_sub_cancel_left, List.drop_eq_nil_of_le (by omega), List.nil_append]
  obtain ⟨inp, htook, hok⟩ := ioLoop_took 0 hround []
    ⟨buf, hbuf, rfl⟩ (Nat.zero_le _) h
  refine ⟨inp, htook, fun hok' => ?_⟩
  obtain ⟨hwant, hdone, old, hold, hb⟩ := hok hok'
  simp only [List.length_nil, Nat.zero_add] at hwant
  rw [List.nil_append] at hold hb
  have hnil : old = [] := List.eq_nil_of_length_eq_zero (by omega)
  rw [hnil, List.append_nil] at hb
  exact ⟨hwant, hdone, hb⟩

/-- **Reading over one buffer again and again**, whatever the answers of the kernel are. -/
theorem drain_ret {want base done' size : Nat} {buf buf' : Block} {s s' : Socket} {ok : Bool}
    (hbase : base ≤ want)
    (h : transfer want base buf (fun done b => recv b 0 (min (want - done) size)) s =
      .ret (ok, done', buf') s') :
    ∃ inp, Took s s' inp ∧ (ok = true → base + inp.length = want) := by
  have hround : ∀ {moved : List UInt8} {b : Block} {s n b' s'}, base + moved.length < want →
      True → recv b 0 (min (want - (base + moved.length)) size) s = .ret (n, b') s' →
      ∃ inp, Took s s' inp ∧ inp.length = n.getD 0 ∧ base + moved.length + inp.length ≤ want ∧
        (n.isSome → True) := by
    intro moved b s n b' s' hlt _ hcall
    obtain ⟨inp, htook, hlen, hle, -⟩ := recv_ret hcall
    exact ⟨inp, htook, hlen, by omega, fun _ => trivial⟩
  obtain ⟨inp, htook, hok⟩ := ioLoop_took base
    (I := fun _ (_ : Block) => True) hround [] trivial hbase h
  exact ⟨inp, htook, fun hok' => (hok hok').1⟩

/-! ## Accesses to the buffer -/

theorem bind_eq_fault {p : Net α} {f : α → Net β} {s : Socket} {e : Fault} :
    (p >>= f) s = .fault e ↔ p s = .fault e ∨ ∃ a s₁, p s = .ret a s₁ ∧ f a s₁ = .fault e := by
  change Net.bind p f s = _ ↔ _
  rw [Net.bind]
  cases p s <;> simp

/-- A call that asks for no more than the buffer holds stays inside it. -/
theorem recv_no_fault {buf : Block} {off len : Nat} (hfit : off + len ≤ buf.length) (s : Socket)
    (f : Fault) : recv buf off len s ≠ .fault f := by
  unfold recv
  split
  · intro h; cases h
  · intro h; cases h
  · next k sched _ =>
    have hwrite : Block.write buf off (s.input.take (min (k + 1) len)) = .ok _ :=
      Block.write_eq_ok.mpr ⟨by rw [List.length_take]; omega, rfl⟩
    simp only [if_pos hfit, hwrite]
    intro h; cases h

theorem send_no_fault {buf : Block} {off len : Nat} (hfit : off + len ≤ buf.length) (s : Socket)
    (f : Fault) : send buf off len s ≠ .fault f := by
  unfold send
  split
  · intro h; cases h
  · intro h; cases h
  · simp only [Block.read, if_pos hfit]
    intro h; cases h

/-- A loop whose rounds do not fault does not. -/
theorem ioLoop_no_fault {io : Nat → β → Net (Option Nat × β)} {want : Nat} {I : β → Prop}
    (hround : ∀ done b s, done < want → I b → (∀ f, io done b s ≠ .fault f) ∧
      ∀ n b' s', io done b s = .ret (n, b') s' → I b')
    {fuel done : Nat} {b : β} (hI : I b) (s : Socket) (f : Fault) :
    ioLoop want io fuel done b s ≠ .fault f := by
  induction fuel generalizing done b s with
  | zero => intro h; cases h
  | succ fuel ih =>
    unfold ioLoop
    split
    · next hlt =>
      obtain ⟨hfault, hkeep⟩ := hround done b s hlt hI
      intro h
      obtain h | ⟨⟨n, b'⟩, s₁, hcall, h⟩ := bind_eq_fault.mp h
      · exact hfault f h
      · cases n with
        | none => cases h
        | some n => exact ih (hkeep _ _ _ hcall) s₁ h
    · intro h; cases h

theorem fill_no_fault {want : Nat} {buf : Block} (hbuf : buf.length = want) (s : Socket)
    (f : Fault) :
    transfer want 0 buf (fun done b => recv b done (want - done)) s ≠ .fault f := by
  refine ioLoop_no_fault (I := fun b : Block => b.length = want) ?_ hbuf s f
  intro done b s hlt hb
  exact ⟨recv_no_fault (by omega) s, fun n b' s' h => (length_recv h).trans hb⟩

theorem drain_no_fault {want base size : Nat} {buf : Block} (hbuf : buf.length = size) (s : Socket)
    (f : Fault) :
    transfer want base buf (fun done b => recv b 0 (min (want - done) size)) s ≠ .fault f := by
  refine ioLoop_no_fault (I := fun b : Block => b.length = size) ?_ hbuf s f
  intro done b s _ hb
  exact ⟨recv_no_fault (by omega) s, fun n b' s' h => (length_recv h).trans hb⟩

theorem flush_no_fault {want : Nat} {bytes : Block} (hbytes : bytes.length = want) (s : Socket)
    (f : Fault) :
    transfer want 0 () (fun sent _ => do
      let n ← send bytes sent (want - sent)
      pure (n, ())) s ≠ .fault f := by
  refine ioLoop_no_fault (I := fun _ => True) ?_ trivial s f
  intro done b s hlt _
  refine ⟨fun f h => ?_, fun _ _ _ _ => trivial⟩
  obtain h | ⟨n, s₁, -, h⟩ := bind_eq_fault.mp h
  · exact send_no_fault (by omega) s f h
  · cases h

end Net
