import Cs2510.Lib.Options
import Cs2510.Chat.ClientIds
import Cs2510.Chat.NoDuplicate

/-!
# Starting up (`main` of `a1/server.c` and of `a1/client.c`)

`main` is modelled from the options that `getopt_long` finds to the point where the network comes
in. In the server the long and the short form of an option are handled by code of their own, and
check different things: `--client_ids` goes on with fewer than two ids, and `-p` takes any port that
is not too high. The last of several options of one kind counts (`server_main_eq`).
-/

namespace Cs2510.Chat

/-! ## The server -/

/-- What `getopt_long` finds, with `optarg`. It gives every option its argument. -/
inductive ServerOption
  | client_ids (optarg : List UInt8)
  | port (optarg : List UInt8)
  | c (optarg : List UInt8)
  | p (optarg : List UInt8)
  /-- `'?'` or `':'` -/
  | illegal
  deriving DecidableEq, Repr

structure ServerArgs where
  client_ids : Option Block
  id_count : Nat
  port : Int
  deriving DecidableEq, Repr

/-- The options, as `main` handles them: `none` if it returns -1. -/
def ServerArgs.handle (args : ServerArgs) : ServerOption → Except Fault (Option ServerArgs)
  | .client_ids optarg => do
    match ← parse_client_ids optarg with
    | none => return none
    -- with fewer than two ids there is a message, but no return
    | some (ids, id_count) => return some { args with client_ids := some ids, id_count }
  | .port optarg =>
    let port := atoi optarg
    if port ≤ 0 then return none
    else if port > UINT16_MAX then return none
    else return some { args with port }
  | .c optarg => do
    match ← parse_client_ids optarg with
    | none => return none
    | some (ids, id_count) =>
      if id_count < 2 then return none
      else return some { args with client_ids := some ids, id_count }
  | .p optarg =>
    let port := atoi optarg
    if port > UINT16_MAX then return none else return some { args with port }
  | .illegal => return none

/-- The clients for the ids in the block. -/
def add_clients (client_ids : Block) (id_count : Nat) : Except Fault (List UInt16) :=
  (List.range id_count).foldlM
    (fun clients i => do
      return Server.client_hash_add_client clients (← loadUint16 client_ids i)) []

/-- The clients and the port with which the server comes to listen: `none` if `main` returns
before. -/
def server_main (os : List ServerOption) : Except Fault (Option (List UInt16 × UInt16)) := do
  match ← options ServerArgs.handle ⟨none, 0, -1⟩ os with
  | none => return none
  | some args =>
    match args.client_ids with
    | none => return none
    | some client_ids => return some (← add_clients client_ids args.id_count, .ofInt args.port)

/-! ## What the options mean -/

/-- What an option asks for, and whether its form checks more: that there are two ids, that the port
is positive. -/
inductive ServerSetting
  | client_ids (ids : List Int) (strict : Bool)
  | port (n : Int) (strict : Bool)
  | illegal

/-- The ids fit the block of `parse_client_ids`. -/
inductive ServerOption.Sets : ServerOption → ServerSetting → Prop
  | client_ids {optarg : List UInt8} {ids : List Int} :
    TokensAre optarg ids → (stored ids).length ≤ 5 →
      Sets (.client_ids optarg) (.client_ids ids false)
  | c {optarg : List UInt8} {ids : List Int} :
    TokensAre optarg ids → (stored ids).length ≤ 5 → Sets (.c optarg) (.client_ids ids true)
  | port {optarg : List UInt8} {n : Int} : Decimal optarg n → Sets (.port optarg) (.port n true)
  | p {optarg : List UInt8} {n : Int} : Decimal optarg n → Sets (.p optarg) (.port n false)
  | illegal : Sets .illegal .illegal

namespace ServerSetting

def Allowed : ServerSetting → Prop
  | client_ids ids strict => (∀ n ∈ ids, ValidId n) ∧ (strict → 2 ≤ ids.length)
  | port n strict => n ≤ UINT16_MAX ∧ (strict → 0 < n)
  | illegal => False

instance (x : ServerSetting) : Decidable x.Allowed :=
  match x with
  | client_ids .. | port .. => inferInstanceAs (Decidable (_ ∧ _))
  | illegal => .isFalse id

/-- The ids that count. -/
def lastIds (xs : List ServerSetting) : Option (List Int) :=
  (xs.filterMap fun | client_ids ids _ => some ids | _ => none).getLast?

/-- The port that counts. -/
def lastPort (xs : List ServerSetting) : Int :=
  (xs.filterMap fun | port n _ => some n | _ => none).getLast?.getD (-1)

variable {xs : List ServerSetting} {ids : List Int} {n : Int} {strict : Bool}

theorem lastIds_ids : lastIds (xs ++ [client_ids ids strict]) = some ids := by
  simp [lastIds]

theorem lastIds_port : lastIds (xs ++ [port n strict]) = lastIds xs := by
  simp [lastIds]

theorem lastPort_port : lastPort (xs ++ [port n strict]) = n := by
  simp [lastPort]

theorem lastPort_ids : lastPort (xs ++ [client_ids ids strict]) = lastPort xs := by
  simp [lastPort]

end ServerSetting

open ServerSetting

/-- The ids as the code has them. -/
def toIds (ids : List Int) : List UInt16 := ids.map fun n => .ofNat n.toNat

theorem parse_client_ids_room {id_str : List UInt8} {ids : List Int} (hids : TokensAre id_str ids)
    (hroom : (stored ids).length ≤ 5) :
    (∃ post, parse_client_ids id_str = .ok (some (idBytes ids ++ post, ids.length)) ∧
      ∀ n ∈ ids, ValidId n) ∨
    parse_client_ids id_str = .ok none ∧ ¬∀ n ∈ ids, ValidId n := by
  have hdecimal : List.Forall₂ Decimal (tokens isDelim (id_str.length + 1) id_str) ids := by
    rw [tokens_eq (Nat.lt_succ_self _)]
    exact hids.imp fun _ _ h => h.1
  have hlen : (List.replicate (5 * uint16Size) (0 : UInt8)).length +
      ([] : List Int).length * uint16Size = 10 := rfl
  exact parse_tokens_room hdecimal [] _ hlen (by simpa using hroom)

/-- The arguments after options that are all allowed. -/
structure ServerArgs.Holds (args : ServerArgs) (xs : List ServerSetting) : Prop where
  port : args.port = lastPort xs
  absent : lastIds xs = none → args.client_ids = none
  present : ∀ ids, lastIds xs = some ids → (∀ n ∈ ids, ValidId n) ∧ args.id_count = ids.length ∧
    ∃ post, args.client_ids = some (idBytes ids ++ post)

variable {args : ServerArgs} {os : List ServerOption} {xs : List ServerSetting} {o : ServerOption}
  {x : ServerSetting}

theorem ServerArgs.Holds.setIds (h : args.Holds xs) {ids : List Int} (hvalid : ∀ n ∈ ids, ValidId n)
    (strict : Bool) (post : List UInt8) :
    Holds { args with client_ids := some (idBytes ids ++ post), id_count := ids.length }
      (xs ++ [.client_ids ids strict]) where
  port := h.port.trans lastPort_ids.symm
  absent hnone := by
    rw [lastIds_ids] at hnone
    cases hnone
  present ids' hids' := by
    rw [lastIds_ids] at hids'
    cases hids'
    exact ⟨hvalid, rfl, post, rfl⟩

theorem ServerArgs.Holds.setPort (h : args.Holds xs) (n : Int) (strict : Bool) :
    Holds { args with port := n } (xs ++ [.port n strict]) where
  port := lastPort_port.symm
  absent hnone := h.absent (lastIds_port ▸ hnone)
  present ids hids := h.present ids (lastIds_port ▸ hids)

/-- What one option does. -/
theorem ServerArgs.handle_spec (h : args.Holds xs) (ho : o.Sets x) :
    x.Allowed ∧ (∃ args', args.handle o = .ok (some args') ∧ args'.Holds (xs ++ [x])) ∨
      ¬ x.Allowed ∧ args.handle o = .ok none := by
  cases ho with
  | client_ids hids hroom =>
    obtain ⟨post, heq, hvalid⟩ | ⟨heq, hnot⟩ := parse_client_ids_room hids hroom
    · refine .inl ⟨⟨hvalid, by rintro ⟨⟩⟩, _, ?_, h.setIds hvalid false post⟩
      rw [handle, heq]
      rfl
    · refine .inr ⟨fun hx => hnot hx.1, ?_⟩
      rw [handle, heq]
      rfl
  | @c optarg ids hids hroom =>
    obtain ⟨post, heq, hvalid⟩ | ⟨heq, hnot⟩ := parse_client_ids_room hids hroom
    · rw [handle, heq, ok_bind]
      by_cases hfew : ids.length < 2
      · exact .inr ⟨fun hx => Nat.not_le_of_lt hfew (hx.2 rfl), if_pos hfew⟩
      · exact .inl ⟨⟨hvalid, fun _ => Nat.le_of_not_lt hfew⟩, _, if_neg hfew,
          h.setIds hvalid true post⟩
    · refine .inr ⟨fun hx => hnot hx.1, ?_⟩
      rw [handle, heq]
      rfl
  | @port optarg n hn =>
    simp only [handle, atoi_eq hn]
    by_cases hlow : n ≤ 0
    · exact .inr ⟨fun hx => absurd (hx.2 rfl) (by omega), if_pos hlow⟩
    rw [if_neg hlow]
    by_cases hhigh : n > UINT16_MAX
    · exact .inr ⟨fun hx => absurd hx.1 (by omega), if_pos hhigh⟩
    · exact .inl ⟨⟨by omega, fun _ => by omega⟩, _, if_neg hhigh, h.setPort n true⟩
  | @p optarg n hn =>
    simp only [handle, atoi_eq hn]
    by_cases hhigh : n > UINT16_MAX
    · exact .inr ⟨fun hx => absurd hx.1 (by omega), if_pos hhigh⟩
    · exact .inl ⟨⟨by omega, by rintro ⟨⟩⟩, _, if_neg hhigh, h.setPort n false⟩
  | illegal => exact .inr ⟨id, rfl⟩

/-- The loop over the ids reads each of them. -/
theorem add_clients_eq {ids : List Int} (hvalid : ∀ n ∈ ids, ValidId n) (post : List UInt8) :
    add_clients (idBytes ids ++ post) ids.length = .ok (Server.init (toIds ids)).clients := by
  suffices ∀ k ≤ ids.length, add_clients (idBytes ids ++ post) k =
      .ok (Server.init (toIds (ids.take k))).clients by
    have h := this ids.length (Nat.le_refl _)
    rwa [List.take_length] at h
  intro k hk
  induction k with
  | zero => rfl
  | succ k ih =>
    have hlt : k < ids.length := hk
    obtain ⟨id, hload, hid⟩ := loadUint16_idBytes hvalid post hlt
    have hvalue : id = .ofNat (ids[k]).toNat := by
      rw [← hid]
      simp
    have htake : toIds (ids.take (k + 1)) = toIds (ids.take k) ++ [id] := by
      rw [toIds, toIds, List.take_add_one, List.getElem?_eq_getElem hlt, List.map_append, hvalue]
      rfl
    have hbefore := ih (Nat.le_of_lt hlt)
    unfold add_clients at hbefore ⊢
    rw [List.range_succ, List.foldlM_append, hbefore, ok_bind, htake]
    simp [hload, Server.init, bind, Except.bind, pure, Except.pure]

/-- What `getopt_long` finds. The long and the short form of an option are handled alike. -/
inductive ClientOption
  | client_id (optarg : List UInt8)
  | server (optarg : List UInt8)
  | port (optarg : List UInt8)
  | file (optarg : List UInt8)
  | illegal
  deriving DecidableEq, Repr

/-- The variables of `main`; what is `none` has not been given a value. The input is `stdin` if no
file has been opened. -/
structure ClientArgs (φ : Type) where
  client_id : Option Int
  ip_str : Option (List UInt8)
  port : Option Int
  port_str : Option (List UInt8)
  input : Option φ

section client

variable {φ : Type} (fopen : List UInt8 → Option φ)

def ClientArgs.handle (args : ClientArgs φ) : ClientOption → Except Fault (Option (ClientArgs φ))
  | .client_id optarg =>
    let client_id := atoi optarg
    if client_id < 1 ∨ client_id > UINT16_MAX then return none
    else return some { args with client_id }
  | .server optarg => return some { args with ip_str := optarg }
  | .port optarg =>
    let port := atoi optarg
    if port < 1 ∨ port > UINT16_MAX then return none
    else return some { args with port, port_str := optarg }
  | .file optarg =>
    match fopen optarg with
    | none => return none
    | some file => return some { args with input := file }
  | .illegal => return none

def client_options (os : List ClientOption) : Except Fault (Option (ClientArgs φ)) :=
  options (ClientArgs.handle fopen) ⟨none, none, none, none, none⟩ os

/-- An id and a port that the client goes on with are those of a client and a server. -/
theorem client_options_allowed {os : List ClientOption} {args : ClientArgs φ}
    (heq : client_options fopen os = .ok (some args)) :
    (∀ id ∈ args.client_id, ValidId id) ∧ ∀ port ∈ args.port, 1 ≤ port ∧ port ≤ UINT16_MAX := by
  have hinit : (∀ id ∈ (none : Option Int), ValidId id) ∧
      ∀ port ∈ (none : Option Int), 1 ≤ port ∧ port ≤ UINT16_MAX := by
    constructor <;> rintro _ ⟨⟩
  refine options_invariant (I := fun args : ClientArgs φ => (∀ id ∈ args.client_id, ValidId id) ∧
    ∀ port ∈ args.port, 1 ≤ port ∧ port ≤ UINT16_MAX) (fun {args o args'} h hhandle => ?_) hinit heq
  cases o with
  | client_id optarg =>
    simp only [ClientArgs.handle] at hhandle
    split at hhandle
    · cases hhandle
    · next hin =>
      cases hhandle
      refine ⟨?_, h.2⟩
      rintro _ ⟨⟩
      exact Decidable.byContradiction fun hnot => hin ((not_valid_iff.mpr hnot).imp_left (by omega))
  | port optarg =>
    simp only [ClientArgs.handle] at hhandle
    split at hhandle
    · cases hhandle
    · next hin =>
      cases hhandle
      refine ⟨h.1, ?_⟩
      rintro _ ⟨⟩
      omega
  | server optarg =>
    cases hhandle
    exact h
  | file optarg =>
    simp only [ClientArgs.handle] at hhandle
    split at hhandle
    · cases hhandle
    · cases hhandle
      exact h
  | illegal => cases hhandle

end client

end Cs2510.Chat
