import Cs2510.Lib.Exchange

/-!
# Programs whose peer goes away

The peer sends a finite stream and closes its side: each `recv` behind the end of the stream returns
zero. `Returns p inp` says that `p` then returns, for every way of splitting the stream, after
finitely many calls. A transfer loop does so only if the bytes it still wants are there
(`ioLoop_enough`): its count stands still once the stream has ended.

`Leaves round stays inp` is the same for a loop of rounds, and `Closed frame inp` says that `inp`
begins with whole frames up to one that ends the loop. For rounds that take one frame each the two
agree (`leaves_iff`).
-/

/-- The first `n` answers of a kernel that splits the transfers as `chunk` says. -/
def answers (chunk : Nat → Nat) (n : Nat) : List Answer :=
  (List.range n).map fun i => .moves (chunk i)

theorem ready_answers (chunk : Nat → Nat) {m n : Nat} (h : m ≤ n) : Ready m (answers chunk n) := by
  refine ⟨by simpa [answers] using h, fun a ha => ?_⟩
  obtain ⟨i, -, rfl⟩ := List.mem_map.mp ha
  exact ⟨chunk i, rfl⟩

namespace Net

variable {α β : Type}

/-- On a stream that ends, finitely many calls are enough for `p` to return. -/
def Returns (p : Net α) (inp : List UInt8) : Prop :=
  ∀ chunk : Nat → Nat, ∃ N, ∀ n ≥ N, ∃ a s, p ⟨inp, [], answers chunk n⟩ = .ret a s

theorem Exchanges.returns {p : Net α} {inp : List UInt8} {Q : α → Prop}
    (h : Exchanges p inp [] Q) (rest : List UInt8) : Returns p (inp ++ rest) := by
  intro chunk
  refine ⟨inp.length, fun n hn => ?_⟩
  obtain ⟨a, sched, -, -, hrun⟩ := h rest [] (answers chunk n) 0
    (ready_answers chunk (by simpa using hn))
  exact ⟨a, _, hrun⟩

/-! ## Transfers -/

/-- What a round must do for the loop to count bytes of the stream. -/
def Counts (io : Nat → β → Net (Option Nat × β)) : Prop :=
  ∀ done b s n b' s', Ready 0 s.sched → io done b s = .ret (n, b') s' →
    Ready 0 s'.sched ∧ ∃ m, n = some m ∧ m + s'.input.length = s.input.length

/-- A loop that returns has found all the bytes it wants on the stream. -/
theorem ioLoop_enough {io : Nat → β → Net (Option Nat × β)} (hio : Counts io) {want fuel done : Nat}
    {b b' : β} {s s' : Socket} {ok : Bool} {done' : Nat} (hs : Ready 0 s.sched)
    (h : ioLoop want io fuel done b s = .ret (ok, done', b') s') :
    Ready 0 s'.sched ∧ ok = true ∧ want ≤ done' ∧
      done' + s'.input.length = done + s.input.length := by
  induction fuel generalizing done b s with
  | zero => cases h
  | succ fuel ih =>
    rw [ioLoop] at h
    split at h
    · obtain ⟨⟨n, b₁⟩, s₁, hrun, h⟩ := bind_eq_ret.mp h
      obtain ⟨hs₁, m, rfl, hm⟩ := hio _ _ _ _ _ _ hs hrun
      obtain ⟨hs', hok, hwant, hcount⟩ := ih hs₁ h
      exact ⟨hs', hok, hwant, by omega⟩
    · cases h
      exact ⟨hs, rfl, by omega, rfl⟩

theorem counts_recv (off : Nat → Nat) (len : Nat → Nat) :
    Counts fun done buf => recv buf (off done) (len done) := by
  intro done buf s n buf' s' hs h
  change recv buf (off done) (len done) s = .ret (n, buf') s' at h
  unfold recv at h
  split at h
  · cases h
  · next sched hsched =>
    obtain ⟨k, hk⟩ := hs.moves .fails (by rw [hsched]; exact List.mem_cons_self)
    cases hk
  · next k sched hsched =>
    simp only at h
    split at h
    · split at h
      · cases h
        refine ⟨⟨Nat.zero_le _, fun a ha => hs.moves a ?_⟩, _, rfl, ?_⟩
        · rw [hsched]
          exact List.mem_cons_of_mem _ ha
        · simp only [List.length_take, List.length_drop]
          omega
      · cases h
    · cases h

/-! ## Loops of rounds -/

/-- Whether a loop of rounds has been left after at most `fuel` of them. -/
def leaves (round : Net α) (stays : α → Bool) : (fuel : Nat) → Socket → Bool
  | 0, _ => false
  | fuel + 1, s =>
    match round s with
    | .ret a s => if stays a then leaves round stays fuel s else true
    | .waiting | .fault _ => false

/-- On a stream that ends, the loop is left after finitely many calls. -/
def Leaves (round : Net α) (stays : α → Bool) (inp : List UInt8) : Prop :=
  ∀ chunk : Nat → Nat, ∃ N, ∀ n ≥ N, ∃ fuel,
    leaves round stays fuel ⟨inp, [], answers chunk n⟩ = true

/-- The stream begins with whole frames up to one that is the last; `frame last b` says that `b` is
a whole frame. -/
inductive Closed (frame : Bool → List UInt8 → Prop) : List UInt8 → Prop
  | last {b rest : List UInt8} : frame true b → Closed frame (b ++ rest)
  | more {b rest : List UInt8} : frame false b → Closed frame rest → Closed frame (b ++ rest)

section

variable {round : Net α} {stays : α → Bool} {frame : Bool → List UInt8 → Prop}

theorem Closed.leaves {inp : List UInt8}
    (hround : ∀ last b, frame last b → Exchanges round b [] fun a => stays a = !last)
    (h : Closed frame inp) {out : List UInt8} {sched : List Answer} (hs : Ready inp.length sched) :
    ∃ fuel, leaves round stays fuel ⟨inp, out, sched⟩ = true := by
  induction h generalizing out sched with
  | @last b rest hframe =>
    obtain ⟨a, sched', ha, -, hrun⟩ := hround true b hframe rest out sched rest.length
      (hs.mono (by simp))
    exact ⟨1, by rw [Net.leaves, hrun]; simp [ha]⟩
  | @more b rest hframe _ ih =>
    obtain ⟨a, sched', ha, hs', hrun⟩ := hround false b hframe rest out sched rest.length
      (hs.mono (by simp))
    obtain ⟨fuel, hfuel⟩ := @ih (out ++ []) sched' hs'
    exact ⟨fuel + 1, by rw [Net.leaves, hrun]; simpa [ha] using hfuel⟩

theorem Closed.of_leaves
    (hround : ∀ last b, frame last b → Exchanges round b [] fun a => stays a = !last)
    (hwhole : ∀ s a s', Ready s.input.length s.sched → round s = .ret a s' →
      ∃ last b rest, s.input = b ++ rest ∧ frame last b)
    {fuel : Nat} {s : Socket} (hs : Ready s.input.length s.sched)
    (h : Net.leaves round stays fuel s = true) : Closed frame s.input := by
  induction fuel generalizing s with
  | zero => cases h
  | succ fuel ih =>
    obtain ⟨inp, out, sched⟩ := s
    rw [Net.leaves] at h
    split at h
    · next a s' hrun =>
      obtain ⟨last, b, rest, hinp, hframe⟩ := hwhole _ _ _ hs hrun
      obtain rfl : inp = b ++ rest := hinp
      obtain ⟨a', sched', ha, hs', hrun'⟩ := hround last b hframe rest out sched rest.length
        (hs.mono (by simp))
      rw [hrun] at hrun'
      cases hrun'
      cases last with
      | true => exact .last hframe
      | false =>
        rw [ha, Bool.not_false, if_pos rfl] at h
        exact .more hframe (ih hs' h)
    · cases h
    · cases h

/-- A loop is left if the stream is closed by whole frames, and only then. -/
theorem leaves_iff
    (hround : ∀ last b, frame last b → Exchanges round b [] fun a => stays a = !last)
    (hwhole : ∀ s a s', Ready s.input.length s.sched → round s = .ret a s' →
      ∃ last b rest, s.input = b ++ rest ∧ frame last b) (inp : List UInt8) :
    Leaves round stays inp ↔ Closed frame inp := by
  constructor
  · intro h
    obtain ⟨N, hN⟩ := h fun _ => 0
    obtain ⟨fuel, hfuel⟩ := hN (max N inp.length) (Nat.le_max_left ..)
    exact Closed.of_leaves hround hwhole (ready_answers _ (Nat.le_max_right ..)) hfuel
  · intro h chunk
    exact ⟨inp.length, fun n hn => h.leaves hround (ready_answers chunk hn)⟩

end

end Net
