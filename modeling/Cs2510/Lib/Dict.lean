import Mathlib.Data.List.Induction
import Mathlib.Data.List.Nodup

/-!
# Dictionaries

A dictionary keeps its items in the order in which their keys were first assigned. Keys are compared
by a canonical value: an assignment to a key that is equal to a present one replaces the value and
keeps the key that is there.
-/

universe u v w

structure Dict {K : Type u} {C : Type v} (canon : K → C) (V : Type w) where
  items : List (K × V)
  nodup : (items.map fun e => canon e.1).Nodup

namespace Dict

variable {K : Type u} {C : Type v} {canon : K → C} {V : Type w}

def empty : Dict canon V := ⟨[], List.nodup_nil⟩

/-- The keys, as they are compared. -/
def keys (d : Dict canon V) : List C := d.items.map fun e => canon e.1

variable [DecidableEq C]

def get (d : Dict canon V) (k : K) : Option V :=
  (d.items.find? fun e => canon e.1 = canon k).map Prod.snd

section

variable (canon)

/-- The items after an assignment. -/
def assign (k : K) (v : V) : List (K × V) → List (K × V)
  | [] => [(k, v)]
  | e :: items => if canon e.1 = canon k then (e.1, v) :: items else e :: assign k v items

theorem map_assign (k : K) (v : V) (items : List (K × V)) :
    (assign canon k v items).map (fun e => canon e.1) =
      if canon k ∈ items.map (fun e => canon e.1) then items.map fun e => canon e.1
      else items.map (fun e => canon e.1) ++ [canon k] := by
  induction items with
  | nil => simp [assign]
  | cons e items ih =>
    unfold assign
    by_cases he : canon e.1 = canon k
    · simp [he]
    · rw [if_neg he, List.map_cons, ih, List.map_cons]
      have hne : canon k ≠ canon e.1 := Ne.symm he
      by_cases hk : canon k ∈ items.map fun e => canon e.1
      · rw [if_pos hk, if_pos (List.mem_cons_of_mem _ hk)]
      · rw [if_neg hk, if_neg (by simpa [hne] using hk), List.cons_append]

theorem assign_of_notMem {k : K} {items : List (K × V)}
    (h : canon k ∉ items.map fun e => canon e.1) (v : V) :
    assign canon k v items = items ++ [(k, v)] := by
  induction items with
  | nil => rfl
  | cons e items ih =>
    rw [List.map_cons, List.mem_cons, not_or] at h
    rw [assign, if_neg (Ne.symm h.1), ih h.2, List.cons_append]

theorem find?_assign (k : K) (v : V) (k' : K) (items : List (K × V)) :
    ((assign canon k v items).find? fun e => canon e.1 = canon k').map Prod.snd =
      if canon k' = canon k then some v
      else (items.find? fun e => canon e.1 = canon k').map Prod.snd := by
  induction items with
  | nil => by_cases hk : canon k' = canon k <;> simp [assign, hk, Ne.symm]
  | cons e items ih =>
    unfold assign
    by_cases he : canon e.1 = canon k
    · by_cases hk : canon k' = canon k <;> simp [he, hk, eq_comm]
    · by_cases hk' : canon e.1 = canon k'
      · have hk : canon k' ≠ canon k := hk' ▸ he
        simp [hk', hk]
      · simpa [he, hk'] using ih

end

/-- `d[k] = v` -/
def set (d : Dict canon V) (k : K) (v : V) : Dict canon V where
  items := assign canon k v d.items
  nodup := by
    rw [map_assign]
    split
    · exact d.nodup
    · next h => exact List.nodup_append_comm.mp (List.nodup_cons.mpr ⟨h, d.nodup⟩)

theorem get_set (d : Dict canon V) (k : K) (v : V) (k' : K) :
    (d.set k v).get k' = if canon k' = canon k then some v else d.get k' :=
  find?_assign canon k v k' d.items

theorem mem_keys_set {d : Dict canon V} {k : K} {v : V} {c : C} :
    c ∈ (d.set k v).keys ↔ c ∈ d.keys ∨ c = canon k := by
  rw [keys, set, map_assign]
  split
  · next h =>
    constructor
    · exact .inl
    · rintro (hc | rfl)
      · exact hc
      · exact h
  · rw [List.mem_append, List.mem_singleton]
    rfl

theorem get_eq_some_iff {d : Dict canon V} {k : K} {v : V} :
    d.get k = some v ↔ ∃ e ∈ d.items, canon e.1 = canon k ∧ e.2 = v := by
  unfold get
  constructor
  · intro h
    obtain ⟨e, he, rfl⟩ := Option.map_eq_some_iff.mp h
    exact ⟨e, List.mem_of_find?_eq_some he, by simpa using List.find?_some he, rfl⟩
  · rintro ⟨e, he, hk, rfl⟩
    cases hfind : d.items.find? fun e => canon e.1 = canon k with
    | none => simpa [hk] using List.find?_eq_none.mp hfind e he
    | some e' =>
      have hk' : canon e'.1 = canon k := by simpa using List.find?_some hfind
      rw [List.inj_on_of_nodup_map d.nodup (List.mem_of_find?_eq_some hfind) he (hk'.trans hk.symm)]
      rfl

theorem get_eq_none_iff {d : Dict canon V} {k : K} : d.get k = none ↔ canon k ∉ d.keys := by
  simp [get, keys]

/-- Dictionaries with the same items are equal, in whatever order these stand. -/
theorem get_congr {d d' : Dict canon V} (h : ∀ e, e ∈ d.items ↔ e ∈ d'.items) (k : K) :
    d.get k = d'.get k := by
  ext v
  rw [get_eq_some_iff, get_eq_some_iff]
  simp only [h]

/-- The dictionary of a list of assignments. -/
def ofList (l : List (K × V)) : Dict canon V := l.foldl (fun d e => d.set e.1 e.2) empty

theorem ofList_items {l : List (K × V)} (h : (l.map fun e => canon e.1).Nodup) :
    (ofList l : Dict canon V).items = l := by
  unfold ofList
  induction l using List.reverseRecOn with
  | nil => rfl
  | append_singleton l e ih =>
    rw [List.map_append, List.map_singleton] at h
    have hl := ih (List.Nodup.of_append_left h)
    rw [List.foldl_append, List.foldl_cons, List.foldl_nil]
    change assign canon e.1 e.2 (l.foldl _ empty).items = _
    rw [hl]
    exact assign_of_notMem canon (List.disjoint_singleton.mp (List.disjoint_of_nodup_append h)) _

/-- Every key of the dictionary is one of the list. -/
theorem mem_keys_ofList {l : List (K × V)} {c : C} (h : c ∈ (ofList l : Dict canon V).keys) :
    ∃ e ∈ l, c = canon e.1 := by
  unfold ofList at h
  induction l using List.reverseRecOn with
  | nil => cases h
  | append_singleton l e ih =>
    rw [List.foldl_append] at h
    rcases mem_keys_set.mp h with h | rfl
    · obtain ⟨e', he', hc⟩ := ih h
      exact ⟨e', List.mem_append_left _ he', hc⟩
    · exact ⟨e, List.mem_append_right _ List.mem_cons_self, rfl⟩

end Dict
