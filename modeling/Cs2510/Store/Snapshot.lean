import Mathlib.Data.List.Sort
import Mathlib.Algebra.Order.Ring.Unbundled.Rat
import Mathlib.Order.WithBot
import Cs2510.Lib.Dict
import Cs2510.Store.Server

/-!
# The snapshot of a datastore

An update travels as an object with a `key` and a `value`, a snapshot as one object whose member
names are the keys. JSON has strings for member names only: `jsonify` sorts the keys, which raises
when there are strings and numbers among them, and writes each as a string. A value that was read
from JSON is written and read again as an equal one.
-/

namespace Cs2510.Store

/-- Python's floats, but NaN, which JSON does not have: the exact value of a float, and what `repr`
makes of it. -/
class PyFloat (F : Type) where
  value : F → WithBot (WithTop ℚ)
  repr : F → String

/-- A hashable JSON value other than `null`. -/
inductive Key (F : Type)
  | str (s : String)
  | bool (b : Bool)
  | int (n : Int)
  | float (x : F)
  deriving DecidableEq, Repr

namespace Key

variable {F : Type} [PyFloat F]

/-- Keys are equal when these are: numbers are compared by value, and so are Booleans. -/
def canon : Key F → String ⊕ WithBot (WithTop ℚ)
  | .str s => .inl s
  | .bool b => .inr ((if b then 1 else 0 : ℚ) : WithTop ℚ)
  | .int n => .inr ((n : ℚ) : WithTop ℚ)
  | .float x => .inr (PyFloat.value x)

def isStr : Key F → Bool
  | .str _ => true
  | _ => false

/-- The name of the member for a key. -/
def text : Key F → String
  | .str s => s
  | .bool b => if b then "true" else "false"
  | .int n => toString n
  | .float x => PyFloat.repr x

/-- `a <= b`, for keys that can be compared. -/
def le (a b : Key F) : Bool :=
  match a.canon, b.canon with
  | .inl s, .inl t => s ≤ t
  | .inr x, .inr y => x ≤ y
  | _, _ => false

end Key

/-- A datastore as Python holds it. -/
abbrev PyDict (F V : Type) [PyFloat F] := Dict (Key.canon : Key F → _) V

/-- What a request may have for its `key`. -/
inductive KeyField (F : Type)
  | null
  | scalar (k : Key F)
  /-- an array or an object -/
  | unhashable
  deriving DecidableEq, Repr

instance {F : Type} : JsonValue (KeyField F) where
  isNone
    | .null => true
    | _ => false

/-- The answer to a `GET /data/leader/sync`. -/
inductive Answer (V : Type)
  /-- the members of the object, in their order -/
  | object (members : List (String × V))
  | text (body : String) (code : Nat)
  | raised

section json

variable {F V : Type} [PyFloat F]

/-- `sorted(items)`: there is no order between strings and numbers. -/
def sorted (items : List (Key F × V)) : Option (List (Key F × V)) :=
  if (items.all fun e => e.1.isStr) || (items.all fun e => !e.1.isStr) then
    some (items.mergeSort fun a b => a.1.le b.1)
  else none

/-- `jsonify(datastore)` -/
def jsonify (datastore : PyDict F V) : Answer V :=
  match sorted datastore.items with
  | some items => .object (items.map fun e => (e.1.text, e.2))
  | none => .raised

/-- `loads` of an object. -/
def loads (members : List (String × V)) : PyDict F V :=
  .ofList (members.map fun e => (.str e.1, e.2))

end json

/-- The variables of a server that its datastore requests use. -/
structure Replica (F V : Type) [PyFloat F] where
  leader : Bool
  datastore : PyDict F V

namespace Replica

variable {F V : Type} [PyFloat F] [JsonValue V]

/-- `POST /data` -/
def post_data (s : Replica F V) (data : Body (KeyField F) V) :
    Replica F V × Option (Spawn (KeyField F) V) × Response (KeyField F) V :=
  match data.key, data.value with
  | some key, some val =>
    if JsonValue.isNone key || JsonValue.isNone val then (s, none, .text "Missing data" 400)
    else if s.leader then
      match key with
      | .scalar k =>
        ({ s with datastore := s.datastore.set k val }, some (.broadcast_post key val none),
          .pair key val)
      -- the key cannot be hashed
      | _ => (s, none, .raised)
    else (s, some (.request_post key val), .pair key val)
  | _, _ => (s, none, .raised)

/-- `GET /data` -/
def get_data (s : Replica F V) (data : Body (KeyField F) V) : Response (KeyField F) V :=
  match data.key with
  | some .null => .text "Error, missing key" 400
  | some (.scalar k) =>
    match s.datastore.get k with
    | none => .text "Key not found" 404
    | some ret =>
      if JsonValue.isNone ret then .text "Key not found" 404 else .pair (.scalar k) ret
  | some .unhashable | none => .raised

/-- `GET /data/leader/sync` -/
def leader_sync (s : Replica F V) : Answer V :=
  if s.leader then jsonify s.datastore else .text "" 409

/-- `sync_with_leader`, with the answer of the leader. -/
def sync_with_leader (s : Replica F V) : Answer V → Replica F V
  | .object members => { s with datastore := loads members }
  | _ => s

/-- The server after some `POST /data`, if it answers each of them with 200. -/
def posts : Replica F V → List (Body (KeyField F) V) → Option (Replica F V)
  | s, [] => some s
  | s, data :: rest =>
    match s.post_data data with
    | (s', _, .pair _ _) => posts s' rest
    | _ => none

/-- `leader_sync` succeeds, and what a server installs then is what the leader has. -/
def RoundTrip (s : Replica F V) : Prop :=
  ∃ members, s.leader_sync = .object members ∧ ∀ s' : Replica F V,
    (∀ k, (s'.sync_with_leader s.leader_sync).datastore.get k = s.datastore.get k) ∧
    ∀ data, (s'.sync_with_leader s.leader_sync).get_data data = s.get_data data

end Replica

variable {F V : Type} [PyFloat F]

/-! ## Keys -/

theorem Key.isLeft_canon (k : Key F) : k.canon.isLeft = k.isStr := by
  cases k <;> rfl

theorem Key.str_text {k : Key F} (h : k.isStr = true) : .str k.text = k := by
  cases k with
  | str s => rfl
  | bool | int | float => cases h

/-! ## Snapshots -/

theorem sorted_of_isStr {items : List (Key F × V)} (h : ∀ e ∈ items, e.1.isStr = true) :
    sorted items = some (items.mergeSort fun a b => a.1.le b.1) := by
  have hall : (items.all fun e => e.1.isStr) = true := by simpa using h
  rw [sorted, hall, Bool.true_or, if_pos rfl]

/-- A snapshot of string keys loads as it was written. -/
theorem loads_items {items : List (Key F × V)} (h : ∀ e ∈ items, e.1.isStr = true)
    (hnodup : (items.map fun e => e.1.canon).Nodup) :
    (loads (items.map fun e => (e.1.text, e.2)) : PyDict F V).items = items := by
  have hsame : ((items.map fun e => (e.1.text, e.2)).map
      fun e => ((.str e.1 : Key F), e.2)) = items := by
    rw [List.map_map]
    conv_rhs => rw [← List.map_id items]
    apply List.map_congr_left
    intro e he
    change ((.str e.1.text : Key F), e.2) = e
    rw [Key.str_text (h e he)]
  unfold loads
  rw [hsame]
  exact Dict.ofList_items hnodup

/-- A loaded snapshot has string keys only. -/
theorem isLeft_of_mem_loads {members : List (String × V)} {c : String ⊕ WithBot (WithTop ℚ)}
    (h : c ∈ (loads members : PyDict F V).keys) : c.isLeft = true := by
  obtain ⟨e, he, rfl⟩ := Dict.mem_keys_ofList h
  obtain ⟨m, -, rfl⟩ := List.mem_map.mp he
  rfl

namespace Replica

variable [JsonValue V] {s : Replica F V}

theorem roundTrip_of_isStr (hleader : s.leader = true)
    (hstr : ∀ e ∈ s.datastore.items, e.1.isStr = true) : s.RoundTrip := by
  have hperm := List.mergeSort_perm s.datastore.items fun a b => a.1.le b.1
  have hsync : s.leader_sync = .object
      ((s.datastore.items.mergeSort fun a b => a.1.le b.1).map fun e => (e.1.text, e.2)) := by
    rw [leader_sync, if_pos hleader, jsonify, sorted_of_isStr hstr]
  have hitems := loads_items (fun e he => hstr e (hperm.mem_iff.mp he))
    ((hperm.map _).nodup_iff.mpr s.datastore.nodup)
  have hget : ∀ (s' : Replica F V) k,
      (s'.sync_with_leader s.leader_sync).datastore.get k = s.datastore.get k := by
    intro s' k
    rw [hsync]
    apply Dict.get_congr
    intro e
    change e ∈ (loads _ : PyDict F V).items ↔ _
    rw [hitems, hperm.mem_iff]
  refine ⟨_, hsync, fun s' => ⟨hget s', fun data => ?_⟩⟩
  unfold get_data
  split
  · rfl
  · rw [hget]
  · rfl
  · rfl

theorem isStr_of_roundTrip (h : s.RoundTrip) {k : Key F} (hk : k.canon ∈ s.datastore.keys) :
    k.isStr = true := by
  obtain ⟨members, hsync, hinstalled⟩ := h
  have hget := (hinstalled s).1 k
  rw [hsync] at hget
  have hmem : k.canon ∈ (loads members : PyDict F V).keys := by
    by_contra hnot
    have hnone : (s.sync_with_leader (.object members)).datastore.get k = none :=
      Dict.get_eq_none_iff.mpr hnot
    rw [hnone] at hget
    exact Dict.get_eq_none_iff.mp hget.symm hk
  rw [← Key.isLeft_canon, isLeft_of_mem_loads hmem]

/-! ## Requests -/

/-- A leader answers with 200 when it has stored the pair. -/
theorem post_data_pair {data : Body (KeyField F) V} {s' : Replica F V}
    {th : Option (Spawn (KeyField F) V)} {key : KeyField F} {val : V} (hleader : s.leader = true)
    (h : s.post_data data = (s', th, .pair key val)) :
    ∃ k, data.key = some (.scalar k) ∧ s'.leader = true ∧
      ∀ c, c ∈ s'.datastore.keys ↔ c ∈ s.datastore.keys ∨ c = k.canon := by
  unfold post_data at h
  split at h
  · next key' val' hkey hval =>
    split at h
    · cases h
    split at h
    · next k _ =>
      cases h
      exact ⟨k, hkey, hleader, fun c => Dict.mem_keys_set⟩
    · cases h
  · cases h

/-- The keys of a leader are those that were posted. -/
theorem keys_of_posts {ps : List (Body (KeyField F) V)} {s' : Replica F V}
    (hleader : s.leader = true) (h : s.posts ps = some s') :
    s'.leader = true ∧ (∀ data ∈ ps, ∃ k, data.key = some (.scalar k)) ∧
    ∀ c, c ∈ s'.datastore.keys ↔ c ∈ s.datastore.keys ∨
      ∃ data ∈ ps, ∃ k, data.key = some (.scalar k) ∧ c = k.canon := by
  induction ps generalizing s with
  | nil =>
    cases h
    exact ⟨hleader, by simp, by simp⟩
  | cons data ps ih =>
    unfold posts at h
    split at h
    · next s₁ th key val hpost =>
      obtain ⟨k, hkey, hleader₁, hkeys₁⟩ := post_data_pair hleader hpost
      obtain ⟨hleader', hscalar, hkeys⟩ := ih hleader₁ h
      refine ⟨hleader', ?_, fun c => ?_⟩
      · rw [List.forall_mem_cons]
        exact ⟨⟨k, hkey⟩, hscalar⟩
      · rw [hkeys, hkeys₁, or_assoc]
        apply or_congr_right
        rw [List.exists_mem_cons_iff]
        apply or_congr_left
        constructor
        · rintro rfl
          exact ⟨k, hkey, rfl⟩
        · rintro ⟨k', hkey', rfl⟩
          rw [hkey] at hkey'
          cases hkey'
          rfl
    · cases h

end Replica

/-! ## Replicas as servers -/

/-- The canonical value of a `key`; one that cannot be hashed is as good as missing. -/
def KeyField.canon : KeyField F → Option (Option (String ⊕ WithBot (WithTop ℚ)))
  | .null => some none
  | .scalar k => some (some k.canon)
  | .unhashable => none

/-- The server whose datastore is a function of the canonical values of the keys. -/
structure Represents (s : Replica F V) (srv : Server (Option (String ⊕ WithBot (WithTop ℚ))) V) :
    Prop where
  leader : srv.leader = s.leader
  datastore : ∀ k : Key F, srv.datastore (some k.canon) = s.datastore.get k

/-- `post_data` on the dictionary does what it does on the function. -/
theorem represents_post_data [JsonValue V] {s : Replica F V}
    {srv : Server (Option (String ⊕ WithBot (WithTop ℚ))) V} (h : Represents s srv)
    (data : Body (KeyField F) V) : Represents (s.post_data data).1
      (srv.post_data ⟨data.key.bind KeyField.canon, data.value, data.port⟩).1 := by
  obtain ⟨key, value, port⟩ := data
  unfold Replica.post_data Server.post_data
  cases key with
  | none => exact h
  | some key =>
    cases value with
    | none => cases key <;> exact h
    | some val =>
      cases key with
      | null => exact h
      | unhashable =>
        dsimp only
        split_ifs <;> exact h
      | scalar k =>
        dsimp only [Option.bind_some, KeyField.canon]
        have hnull : JsonValue.isNone (KeyField.scalar k) = JsonValue.isNone (some k.canon) := rfl
        rw [hnull, h.leader]
        split_ifs
        · exact h
        · refine ⟨h.leader, fun k' => ?_⟩
          change Function.update srv.datastore (some k.canon) (some val) (some k'.canon) = _
          rw [Dict.get_set, Function.update_apply, h.datastore]
          simp only [Option.some.injEq]
        · exact h

/-- A snapshot of string keys is installed as it is, which is what an install does to the
function. -/
theorem represents_sync_with_leader [JsonValue V] {s ldr : Replica F V}
    {srv ldr_srv : Server (Option (String ⊕ WithBot (WithTop ℚ))) V} (h : Represents s srv)
    (hldr : Represents ldr ldr_srv) (hleader : ldr.leader = true)
    (hstr : ∀ e ∈ ldr.datastore.items, e.1.isStr = true) :
    Represents (s.sync_with_leader ldr.leader_sync)
      { srv with datastore := ldr_srv.datastore } := by
  obtain ⟨members, hsync, hinstalled⟩ := Replica.roundTrip_of_isStr hleader hstr
  refine ⟨?_, fun k => ?_⟩
  · rw [hsync]
    exact h.leader
  · rw [(hinstalled s).1]
    exact hldr.datastore k

/-- **The round trip of a snapshot.** What a follower installs is the datastore of its leader
exactly if every key that was posted is a string. -/
theorem snapshot_round_trip [JsonValue V] {ps : List (Body (KeyField F) V)} {s : Replica F V}
    (h : Replica.posts ⟨true, .empty⟩ ps = some s) :
    s.RoundTrip ↔ ∀ data ∈ ps, ∃ t, data.key = some (.scalar (.str t)) := by
  obtain ⟨hleader, hscalar, hkeys⟩ := Replica.keys_of_posts rfl h
  constructor
  · intro hround data hdata
    obtain ⟨k, hkey⟩ := hscalar data hdata
    have hk := Replica.isStr_of_roundTrip hround
      ((hkeys k.canon).mpr (.inr ⟨data, hdata, k, hkey, rfl⟩))
    exact ⟨k.text, by rw [Key.str_text hk, hkey]⟩
  · intro hstr
    apply Replica.roundTrip_of_isStr hleader
    intro e he
    rcases (hkeys e.1.canon).mp (List.mem_map_of_mem he) with hnone | ⟨data, hdata, k, hkey, hc⟩
    · cases hnone
    · obtain ⟨t, ht⟩ := hstr data hdata
      rw [hkey] at ht
      cases ht
      rw [← Key.isLeft_canon, hc]
      rfl

instance : PyFloat Empty where
  value := Empty.elim
  repr := Empty.elim

/-- A client's `POST /data`. -/
def posting (k : Key Empty) (val : Nat) : Body (KeyField Empty) (Option Nat) :=
  ⟨some (.scalar k), some (some val), none⟩

/-- Two pairs with string keys are installed as they are. -/
theorem snapshot_round_trip_strings : ∃ s : Replica Empty (Option Nat),
    Replica.posts ⟨true, .empty⟩ [posting (.str "b") 2, posting (.str "a") 1] = some s ∧
      s.RoundTrip := by
  have hposts : Replica.posts ⟨true, .empty⟩ [posting (.str "b") 2, posting (.str "a") 1] =
      some (⟨true, (Dict.empty.set (.str "b") (some 2)).set (.str "a") (some 1)⟩ :
        Replica Empty (Option Nat)) := rfl
  refine ⟨_, hposts, (snapshot_round_trip hposts).mpr ?_⟩
  intro data hdata
  rcases List.mem_cons.mp hdata with rfl | hdata
  · exact ⟨"b", rfl⟩
  · obtain rfl := List.mem_singleton.mp hdata
    exact ⟨"a", rfl⟩

/-- The number 1 comes back as a string. -/
theorem not_snapshot_round_trip :
    ¬ ∀ (ps : List (Body (KeyField Empty) (Option Nat))) (s : Replica Empty (Option Nat)),
      Replica.posts ⟨true, .empty⟩ ps = some s → s.RoundTrip := by
  intro h
  have hstr := Replica.isStr_of_roundTrip (h [posting (.int 1) 5] _ rfl) (k := .int 1)
    (List.mem_singleton_self _)
  cases hstr

end Cs2510.Store
