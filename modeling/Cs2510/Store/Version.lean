import Cs2510.Store.SystemStep

/-!
# Stamps and values

In the runs in which no datastore is given an update over a newer one (`System.InOrder`), a
datastore holds for a key the value of the write that its version names.
-/

namespace Cs2510.Store

variable {K V : Type} [DecidableEq K] [DecidableEq V] [JsonValue K] [JsonValue V]

namespace System

/-- A step puts into a datastore no update that is older than the one there, unless it carries the
same value. -/
def InOrder (s : System K V) (e : Event K V) : Prop :=
  ∀ u ∈ s.effect e, (∀ j ∈ s.version u.1 u.2.1, j ≤ u.2.2.2) ∨
    (s.server u.1).datastore u.2.1 = some u.2.2.1

instance (s : System K V) (e : Event K V) : Decidable (s.InOrder e) :=
  inferInstanceAs (Decidable (∀ u ∈ s.effect e, _ ∨ _))

/-- The write with stamp `i` is of `val` to `key`. -/
def Wrote (s : System K V) (i : Nat) (key : K) (val : V) : Prop :=
  ∃ w, s.writes[i]? = some w ∧ w.key = key ∧ w.val = val

/-- The stamp of every update under way names the write that it is of. -/
def Stamped (s : System K V) : Prop :=
  ∀ th ∈ s.threads, ∀ k v i, th.update = some (k, v, i) → s.Wrote i k v

/-- Versions and stamps name writes of the values they stand for. -/
structure Consistent (s : System K V) : Prop where
  version : ∀ p k i, s.version p k = some i →
    ∃ v, (s.server p).datastore k = some v ∧ s.Wrote i k v
  threads : s.Stamped
  sync : ∀ p ldr datastore version, s.sync p = .answered ldr datastore version →
    ∀ k i, version k = some i → ∃ v, datastore k = some v ∧ s.Wrote i k v

omit [DecidableEq K] [DecidableEq V] [JsonValue K] [JsonValue V] in
theorem stamped_init (cfg : Config K V) : Stamped (init cfg) := by simp [Stamped, init]

omit [DecidableEq K] [DecidableEq V] [JsonValue K] [JsonValue V] in
theorem consistent_init (cfg : Config K V) : Consistent (init cfg) where
  version := by simp [init]
  threads := stamped_init cfg
  sync := by simp [init]

variable {s : System K V} {e : Event K V}

omit [DecidableEq K] [DecidableEq V] [JsonValue K] [JsonValue V] in
theorem Wrote.lt_length {i : Nat} {k : K} {v : V} (h : s.Wrote i k v) : i < s.writes.length := by
  obtain ⟨w, hw, -⟩ := h
  exact (List.getElem?_eq_some_iff.mp hw).1

theorem Wrote.next {i : Nat} {k : K} {v : V} (h : s.Wrote i k v) (e : Event K V) :
    (s.next e).Wrote i k v := by
  obtain ⟨w, hw, hk, hv⟩ := h
  refine ⟨w, ?_, hk, hv⟩
  rw [writes_next, List.getElem?_append_left (List.getElem?_eq_some_iff.mp hw).1, hw]

theorem Wrote.of_next {i : Nat} {k : K} {v : V} (h : (s.next e).Wrote i k v)
    (hi : i < s.writes.length) : s.Wrote i k v := by
  obtain ⟨w, hget, hk, hv⟩ := h
  rw [writes_next, List.getElem?_append_left hi] at hget
  exact ⟨w, hget, hk, hv⟩

theorem Wrote.of_accepted {w : Write K V} (h : s.accepted e = some w) :
    (s.next e).Wrote s.writes.length w.key w.val := by
  refine ⟨w, ?_, rfl, rfl⟩
  rw [writes_next, h]
  simp

omit [DecidableEq K] [DecidableEq V] [JsonValue K] [JsonValue V] in
theorem Wrote.unique {i : Nat} {k k' : K} {v v' : V} (h : s.Wrote i k v) (h' : s.Wrote i k' v') :
    k = k' ∧ v = v' := by
  obtain ⟨w, hw, rfl, rfl⟩ := h
  obtain ⟨w', hw', rfl, rfl⟩ := h'
  rw [hw] at hw'
  cases hw'
  exact ⟨rfl, rfl⟩

/-- A version goes back only when its server is started or installs a snapshot. -/
theorem version_next {p : Port} {k : K} {j : Nat} (hj : s.version p k = some j)
    (hstart : e ≠ .start p) (hsync : e ≠ .sync_done p) :
    ∃ j', (s.next e).version p k = some j' ∧ j ≤ j' := by
  suffices ∃ j', ((s.next e).cell p k).2 = some j' ∧ j ≤ j' from this
  rcases cell_next s e p k with hsame | ⟨val, stamp, -, hcell⟩ | ⟨h, -⟩ | ⟨_, _, _, h, -, -⟩
  · exact ⟨j, by rw [hsame]; exact hj, Nat.le_refl j⟩
  · rw [hcell, hj]
    exact ⟨_, rfl, Nat.le_max_right _ _⟩
  · exact absurd h hstart
  · exact absurd h hsync

theorem version_of_effect {p : Port} {k : K} {v : V} {i : Nat}
    (heffect : s.effect e = some (p, k, v, i)) :
    ∃ j, (s.next e).version p k = some j ∧ i ≤ j :=
  ⟨_, congrArg Prod.snd (cell_of_effect heffect), Nat.le_max_left _ _⟩

/-- The update a step puts into a datastore is of the write its stamp names. -/
theorem Stamped.wrote_of_effect (h : s.Stamped) (he : s.enabled e) {p : Port} {k : K} {v : V}
    {i : Nat} (heffect : s.effect e = some (p, k, v, i)) : (s.next e).Wrote i k v := by
  rcases effect_source he heffect with ⟨b, todo, hth, rfl, rfl, rfl⟩ | hth | ⟨hacc, rfl⟩
  · exact (h _ hth _ _ _ rfl).next e
  · exact (h _ hth _ _ _ rfl).next e
  · exact .of_accepted hacc

theorem Stamped.step (h : s.Stamped) (he : s.enabled e) : (s.next e).Stamped := by
  intro th hth k v i hu
  rcases update_next he hth hu with ⟨th', hth', hu'⟩ | ⟨w, hacc, heq⟩
  · exact (h th' hth' k v i hu').next e
  · cases heq
    exact .of_accepted hacc

theorem stamped_of_reach {cfg : Config K V} {G : System K V → Event K V → Prop}
    (h : (store cfg).Reach G s) : s.Stamped :=
  h.invariant (stamped_init cfg) fun _ _ hs he _ => hs.step he

/-- In order, the version and the value of a key change together. -/
theorem Consistent.cell_of_effect (h : Consistent s) (he : s.enabled e) (ho : s.InOrder e)
    {p : Port} {k : K} {v : V} {i : Nat} (heffect : s.effect e = some (p, k, v, i)) :
    (s.next e).Wrote (max i ((s.version p k).getD 0)) k v := by
  have hi := h.threads.wrote_of_effect he heffect
  cases hver : s.version p k with
  | none => rwa [Option.getD_none, Nat.max_zero]
  | some j =>
    rw [Option.getD_some]
    by_cases hj : j ≤ i
    · rwa [Nat.max_eq_left hj]
    · rw [Nat.max_eq_right (by omega)]
      obtain hle | hval := ho _ heffect
      · exact absurd (hle j hver) hj
      · obtain ⟨v', hv', hw⟩ := h.version p k j hver
        rw [show (s.server p).datastore k = some v from hval] at hv'
        cases hv'
        exact hw.next e

theorem Consistent.step (h : Consistent s) (he : s.enabled e) (ho : s.InOrder e) :
    Consistent (s.next e) where
  version p k i hi := by
    have hi' : ((s.next e).cell p k).2 = some i := hi
    suffices ∃ v, ((s.next e).cell p k).1 = some v ∧ (s.next e).Wrote i k v from this
    rcases cell_next s e p k with hsame | ⟨val, stamp, heffect, hcell⟩ | ⟨-, hcell⟩ |
      ⟨ldr, datastore, version, -, hsync, hcell⟩
    · rw [hsame] at hi' ⊢
      obtain ⟨v, hv, hw⟩ := h.version p k i hi'
      exact ⟨v, hv, hw.next e⟩
    · rw [hcell] at hi' ⊢
      cases hi'
      exact ⟨val, rfl, h.cell_of_effect he ho heffect⟩
    · rw [hcell] at hi'
      cases hi'
    · rw [hcell] at hi' ⊢
      obtain ⟨v, hv, hw⟩ := h.sync p ldr datastore version hsync k i hi'
      exact ⟨v, hv, hw.next e⟩
  threads := h.threads.step he
  sync p ldr datastore version hsync k i hi := by
    rcases sync_next hsync with hold | ⟨-, -, -, rfl, rfl⟩
    · obtain ⟨v, hv, hw⟩ := h.sync p ldr datastore version hold k i hi
      exact ⟨v, hv, hw.next e⟩
    · obtain ⟨v, hv, hw⟩ := h.version ldr k i hi
      exact ⟨v, hv, hw.next e⟩

theorem consistent_of_reach {cfg : Config K V} {G : System K V → Event K V → Prop}
    (hG : ∀ s e, G s e → s.InOrder e) (h : (store cfg).Reach G s) : Consistent s :=
  h.invariant (consistent_init cfg) fun _ _ hc he hg => hc.step he (hG _ _ hg)

end System

end Cs2510.Store
