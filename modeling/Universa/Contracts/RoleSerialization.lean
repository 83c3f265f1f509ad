import Universa.Contracts.QuorumVote
import Universa.Js.Mapper
import Mathlib.Data.List.Nodup

/-! Roles as data (`roles.js`, `keyrecord.js`, `biserializable.js`): `serialize` writes an object with a
    `__type`, `deserialize` builds a new role of that class from it. Keys, addresses and hash ids are packed by
    their own adapters, which is left to a codec.

    A role is its own fields and its sub-roles; the link to its contract is set by the contract, and the text
    that `stringId` draws at random is none of its data. An answer `none` is an exception or something that
    is no role. -/

namespace Universa.Contracts.Serial
open Universa.Js

/-! ### Collections -/

/-- A `Set`, `GenericSet` or `GenericMap`: elements in the order of insertion, told apart by `f`. -/
@[ext] structure Keyed {α κ : Type} (f : α → κ) where
  items : List α
  nodup : (items.map f).Nodup

namespace Keyed
variable {α κ : Type} [DecidableEq κ] {f : α → κ}

/-- Nothing in it. -/
def empty : Keyed f := ⟨[], List.nodup_nil⟩

/-- An element in the place of the one of its key, or at the end. -/
def inserted (f : α → κ) (l : List α) (a : α) : List α :=
  if f a ∈ l.map f then l.map fun b => if f b = f a then a else b else l ++ [a]

theorem nodup_inserted {l : List α} {a : α} (h : (l.map f).Nodup) : ((inserted f l a).map f).Nodup := by
  unfold inserted
  split
  · have hmap : (l.map fun b => if f b = f a then a else b).map f = l.map f := by
      rw [List.map_map]
      refine List.map_congr_left fun b _ => ?_
      by_cases hb : f b = f a <;> simp [hb]
    rw [hmap]
    exact h
  · next hnew =>
    rw [List.map_append, List.nodup_append]
    refine ⟨h, List.nodup_singleton _, ?_⟩
    rintro k hk k' hk' rfl
    obtain rfl := List.mem_singleton.mp hk'
    exact hnew hk

/-- `add` or `set`. -/
def put (s : Keyed f) (a : α) : Keyed f := ⟨inserted f s.items a, nodup_inserted s.nodup⟩

/-- Put in turn. -/
def putAll (s : Keyed f) : List α → Keyed f
  | [] => s
  | a :: as => putAll (s.put a) as

theorem putAll_items : ∀ (as : List α) (s : Keyed f), ((s.items ++ as).map f).Nodup →
    (s.putAll as).items = s.items ++ as
  | [], s, _ => by rw [putAll, List.append_nil]
  | a :: as, s, h => by
    have hnew : f a ∉ s.items.map f := by
      rw [List.map_append, List.map_cons, List.nodup_append] at h
      intro hmem
      exact h.2.2 (f a) hmem (f a) List.mem_cons_self rfl
    have hput : (s.put a).items = s.items ++ [a] := if_neg hnew
    have hassoc : (s.put a).items ++ as = s.items ++ a :: as := by
      rw [hput, List.append_assoc, List.singleton_append]
    rw [putAll, putAll_items as (s.put a) (hassoc ▸ h), hassoc]

/-- Putting the elements of a collection into a new one gives it again. -/
theorem putAll_empty (s : Keyed f) : (empty : Keyed f).putAll s.items = s :=
  Keyed.ext (putAll_items s.items empty s.nodup)

end Keyed

/-! ### Roles -/

/-- How something is packed into data and unpacked. -/
structure Codec (X : Type) where
  pack : X → Value
  unpack : Value → Option X
  unpack_pack : ∀ x, unpack (pack x) = some x

/-- The codecs of public keys, addresses and hash ids. -/
structure Codecs (K A H : Type) where
  key : Codec K
  address : Codec A
  hashId : Codec H

/-- `KeyRecord`; `fromDsl` sets any other fields on it. -/
structure KeyRecord (K : Type) where
  key : K
  others : List (String × Value)

/-- `ListRoleMode`. -/
inductive ListRoleMode where
  | ALL
  | ANY
  | QUORUM
  deriving DecidableEq

/-- The fields of every role. -/
structure RoleHead where
  name : String
  comment : Option String
  requiredAllConstraints : Keyed (id : String → String)
  requiredAnyConstraints : Keyed (id : String → String)

/-- The source and quorum of a `QuorumVoteRole`, which may be absent or null, with its `quorumValues` and
    `quorumOperators`, none where they are empty: `initWithDsl` sets a source and a quorum only. -/
structure VoteSource where
  source : Option String
  quorum : Option String
  parts : Option (List Char × List (QuorumOperator × List Char))

/-- What a new role extracts from its source and quorum where it is valid. -/
def quorumParts : Option String → Option String →
    Except Unit (Option (List Char × List (QuorumOperator × List Char)))
  | some _, some quorum => (extractFrom [] quorum.toList).map some
  | _, _ => .ok none

/-- A role with its sub-roles. -/
inductive Role (K A : Type) where
  | SimpleRole (head : RoleHead) (keyRecords : Keyed (KeyRecord.key : KeyRecord K → K))
      (keyAddresses : Keyed (id : A → A))
  | ListRole (head : RoleHead) (mode : ListRoleMode) (roles : List (Role K A)) (quorumSize : Number)
  | RoleLink (head : RoleHead) (roleName : String)
  | QuorumVoteRole (head : RoleHead) (vote : VoteSource) (votesCount : Option Number)

/-! ### Writing -/

section Write
variable {K A H : Type} (codecs : Codecs K A H)

/-- An object of a registered class. -/
def tagged (tag : String) (es : List (String × Value)) : Value := .obj (es ++ [("__type", .str tag)])

/-- Something or null. -/
def orNull {X : Type} (write : X → Value) : Option X → Value
  | some x => write x
  | none => .null

/-- Names as data. -/
def strings (names : List String) : Value := .arr (names.map .str)

/-- The modes and sets of required constraints, each where it has any. -/
def requiredEntries (head : RoleHead) : List (String × Value) :=
  (if head.requiredAnyConstraints.items = [] then []
    else [("ANY_OF", strings head.requiredAnyConstraints.items)]) ++
  (if head.requiredAllConstraints.items = [] then []
    else [("ALL_OF", strings head.requiredAllConstraints.items)])

/-- `Role.serialize`; the comment is not written. -/
def headEntries (head : RoleHead) : List (String × Value) :=
  ("name", .str head.name) ::
    if head.requiredAnyConstraints.items.length + head.requiredAllConstraints.items.length > 0 then
      [("required", .obj (requiredEntries head))]
    else []

/-- The adapter of public keys. -/
def keyData (key : K) : Value := tagged "RSAPublicKey" [("packed", codecs.key.pack key)]

/-- `KeyRecord.serialize`. -/
def recordData (record : KeyRecord K) : Value := tagged "KeyRecord" [("key", keyData codecs record.key)]

/-- The adapter of addresses. -/
def addressData (address : A) : Value := tagged "KeyAddress" [("uaddress", codecs.address.pack address)]

/-- The adapter of hash ids. -/
def hashIdData (id : H) : Value := tagged "HashId" [("composite3", codecs.hashId.pack id)]

/-- `ListRoleMode[mode]`. -/
def ListRoleMode.text : ListRoleMode → String
  | .ALL => "ALL"
  | .ANY => "ANY"
  | .QUORUM => "QUORUM"

mutual
/-- `serializer.serialize(role)`. -/
def serialize : Role K A → Value
  | .SimpleRole head keyRecords keyAddresses =>
      tagged "SimpleRole" (headEntries head ++
        [("keys", .arr (keyRecords.items.map (recordData codecs))),
          ("addresses", .arr (keyAddresses.items.map (addressData codecs)))])
  | .ListRole head mode roles quorumSize =>
      tagged "ListRole" (headEntries head ++
        [("quorumSize", .num quorumSize), ("mode", .str mode.text), ("roles", .arr (serializeAll roles))])
  | .RoleLink head roleName => tagged "RoleLink" (headEntries head ++ [("target_name", .str roleName)])
  | .QuorumVoteRole head vote _ =>
      tagged "QuorumVoteRole" (headEntries head ++
        [("source", orNull .str vote.source), ("quorum", orNull .str vote.quorum)])

/-- `serializer.serialize(roles)`. -/
def serializeAll : List (Role K A) → List Value
  | [] => []
  | r :: rs => serialize r :: serializeAll rs
end

end Write

/-! ### Reading -/

section Read
variable {K A H : Type} [DecidableEq K] [DecidableEq A] (codecs : Codecs K A H)

/-- The entries of an object of that class. -/
def ofClass (tag : String) : Value → Option (List (String × Value))
  | .obj es => if "hasOwnProperty" ∈ keys es ∨ typeTag es ≠ some tag then none else some es
  | _ => none

/-- A text. -/
def readString : Value → Option String
  | .str s => some s
  | _ => none

/-- An array, element by element. -/
def readList {X : Type} (read : Value → Option X) : Value → Option (List X)
  | .arr xs => xs.mapM read
  | _ => none

/-- The adapter of public keys. -/
def readKey (v : Value) : Option K := do
  let es ← ofClass "RSAPublicKey" v
  codecs.key.unpack (← es.lookup "packed")

/-- `KeyRecord.deserialize`, of which a role takes the key. -/
def readRecord (v : Value) : Option K := do
  let es ← ofClass "KeyRecord" v
  readKey codecs (← es.lookup "key")

/-- The adapter of addresses. -/
def readAddress (v : Value) : Option A := do
  let es ← ofClass "KeyAddress" v
  codecs.address.unpack (← es.lookup "uaddress")

/-- The adapter of hash ids. -/
def readHashId (v : Value) : Option H := do
  let es ← ofClass "HashId" v
  codecs.hashId.unpack (← es.lookup "composite3")

/-- A text, or null where it is absent or null. -/
def readOrNull {X : Type} (read : Value → Option X) : Option Value → Option (Option X)
  | none | some .null => some none
  | some v => (read v).map some

/-- The constraints of one mode. -/
def readRequired (mode : String) (es : List (String × Value)) : Option (Keyed (id : String → String)) :=
  match es.lookup mode with
  | none => some .empty
  | some v => (readList readString v).map Keyed.empty.putAll

/-- `Role.deserialize`. -/
def readHead (es : List (String × Value)) : Option RoleHead := do
  let name ← (es.lookup "name").bind readString
  let comment ← readOrNull readString (es.lookup "comment")
  match es.lookup "required" with
  | none | some .null => return ⟨name, comment, .empty, .empty⟩
  | some (.obj required) =>
      if "hasOwnProperty" ∈ keys required then none
      else return ⟨name, comment, ← readRequired "ALL_OF" required, ← readRequired "ANY_OF" required⟩
  | some _ => none

/-- The mode a text names; a new list has the mode `ALL`. -/
def readMode : Option Value → ListRoleMode
  | some (.str "ANY") => .ANY
  | some (.str "QUORUM") => .QUORUM
  | _ => .ALL

/-- The quorum taken apart; a malformed one throws. -/
def VoteSource.read (source quorum : Option String) : Option VoteSource :=
  match quorumParts source quorum with
  | .ok parts => some ⟨source, quorum, parts⟩
  | .error _ => none

/-- `deserialize` of the class an object names, with the roles under `roles`. -/
def ofEntries (es : List (String × Value)) (subRoles : Option (List (Role K A))) : Option (Role K A) := do
  let head ← readHead es
  match typeTag es with
  | some "SimpleRole" =>
      let found ← (es.lookup "keys").bind (readList (readRecord codecs))
      let addresses ← (es.lookup "addresses").bind (readList (readAddress codecs))
      return .SimpleRole head (Keyed.empty.putAll (found.map fun key => ⟨key, []⟩))
        (Keyed.empty.putAll addresses)
  | some "ListRole" =>
      match es.lookup "quorumSize" with
      | some (.num quorumSize) => return .ListRole head (readMode (es.lookup "mode")) (← subRoles) quorumSize
      | _ => none
  | some "RoleLink" => return .RoleLink head (← (es.lookup "target_name").bind readString)
  | some "QuorumVoteRole" =>
      let source ← readOrNull readString (es.lookup "source")
      let quorum ← readOrNull readString (es.lookup "quorum")
      return .QuorumVoteRole head (← VoteSource.read source quorum) none
  | _ => none

mutual
/-- `deserializer.deserialize(data)` where a role is expected. -/
def deserialize : Value → Option (Role K A)
  | .obj es => if "hasOwnProperty" ∈ keys es then none else ofEntries codecs es (rolesIn es)
  | _ => none

/-- The roles in the array under `roles`. -/
def rolesIn : List (String × Value) → Option (List (Role K A))
  | [] => none
  | (k, v) :: es =>
      if k = "roles" then
        match v with
        | .arr xs => deserializeAll xs
        | _ => none
      else rolesIn es

/-- Each of them. -/
def deserializeAll : List Value → Option (List (Role K A))
  | [] => some []
  | x :: xs => do
      let r ← deserialize x
      let rs ← deserializeAll xs
      return r :: rs
end

end Read

/-! ### Written and read back -/

theorem readList_map {X Y : Type} {read : Value → Option Y} {write : X → Value} {g : X → Y}
    (h : ∀ x, read (write x) = some (g x)) (l : List X) :
    readList read (.arr (l.map write)) = some (l.map g) := by
  induction l with
  | nil => rfl
  | cons x l ih =>
    rw [readList] at ih ⊢
    rw [List.map_cons, List.mapM_cons, h, ih]
    rfl

theorem readList_strings (names : List String) : readList readString (strings names) = some names := by
  have h := @readList_map _ _ readString Value.str id (fun _ => rfl) names
  rwa [List.map_id] at h

theorem typeTag_tagged {es : List (String × Value)} {tag : String} (hreg : tag ∈ registeredTags)
    (ht : es.lookup "__t" = none) (htype : es.lookup "__type" = none) :
    typeTag (es ++ [("__type", .str tag)]) = some tag := by
  have h1 : (es ++ [("__type", Value.str tag)]).lookup "__t" = none := by
    rw [List.lookup_append, ht]
    rfl
  have h2 : (es ++ [("__type", Value.str tag)]).lookup "__type" = some (.str tag) := by
    rw [List.lookup_append, htype]
    rfl
  simp only [typeTag, tagAt, h1, h2, if_pos hreg]

theorem lookup_headEntries {head : RoleHead} {k : String} (hname : k ≠ "name") (hreq : k ≠ "required")
    (es : List (String × Value)) : (headEntries head ++ es).lookup k = es.lookup k := by
  unfold headEntries
  split <;> simp [List.lookup_cons, beq_false_of_ne hname, beq_false_of_ne hreq]

theorem eq_empty {α κ : Type} {f : α → κ} [DecidableEq κ] {s : Keyed f} (h : s.items = []) : s = Keyed.empty :=
  Keyed.ext h

/-- Each set of required constraints is read as it was written, an empty one from nothing. -/
theorem readRequired_entries (head : RoleHead) :
    readRequired "ALL_OF" (requiredEntries head) = some head.requiredAllConstraints ∧
      readRequired "ANY_OF" (requiredEntries head) = some head.requiredAnyConstraints := by
  have hstrings : ∀ s : Keyed (id : String → String),
      (readList readString (strings s.items)).map Keyed.empty.putAll = some s := by
    intro s
    rw [readList_strings, Option.map_some, Keyed.putAll_empty]
  by_cases hany : head.requiredAnyConstraints.items = [] <;>
    by_cases hall : head.requiredAllConstraints.items = []
  all_goals
    simp only [readRequired, requiredEntries, hany, hall, if_true, if_false, List.lookup_append,
      List.lookup_cons, List.lookup_nil, Option.none_or]
    constructor
    all_goals first
      | exact hstrings _
      | exact congrArg some (eq_empty hall).symm
      | exact congrArg some (eq_empty hany).symm

/-- A head without its comment. -/
def RoleHead.bare (head : RoleHead) : RoleHead := { head with comment := none }

/-- The fields of every role come back, but for the comment. -/
theorem readHead_entries {head : RoleHead} {es : List (String × Value)} (hcomment : es.lookup "comment" = none)
    (hrequired : es.lookup "required" = none) : readHead (headEntries head ++ es) = some head.bare := by
  have hname : (headEntries head ++ es).lookup "name" = some (.str head.name) := by
    unfold headEntries
    rw [List.cons_append, List.lookup_cons_self]
  have hc : (headEntries head ++ es).lookup "comment" = none := by
    rw [lookup_headEntries (by decide) (by decide), hcomment]
  rw [readHead, hname, hc]
  by_cases hsome : head.requiredAnyConstraints.items.length + head.requiredAllConstraints.items.length > 0
  · have hreq : (headEntries head ++ es).lookup "required" = some (.obj (requiredEntries head)) := by
      rw [headEntries, if_pos hsome]
      rfl
    have hown : "hasOwnProperty" ∉ keys (requiredEntries head) := by
      unfold requiredEntries
      split <;> split <;> simp [keys]
    obtain ⟨hall, hany⟩ := readRequired_entries head
    rw [hreq]
    simp [readString, readOrNull, hown, hall, hany, RoleHead.bare]
  · have hreq : (headEntries head ++ es).lookup "required" = none := by
      rw [headEntries, if_neg hsome, List.cons_append, List.nil_append, List.lookup_cons]
      exact hrequired
    have hany : head.requiredAnyConstraints.items = [] := List.length_eq_zero_iff.mp (by omega)
    have hall : head.requiredAllConstraints.items = [] := List.length_eq_zero_iff.mp (by omega)
    rw [hreq]
    simp [readString, readOrNull, RoleHead.bare, eq_empty hany, eq_empty hall]

section RoundTrip
variable {K A H : Type} (codecs : Codecs K A H)

theorem readKey_data (key : K) : readKey codecs (keyData codecs key) = some key :=
  codecs.key.unpack_pack key

theorem readRecord_data (record : KeyRecord K) :
    readRecord codecs (recordData codecs record) = some record.key :=
  readKey_data codecs record.key

theorem readAddress_data (address : A) : readAddress codecs (addressData codecs address) = some address :=
  codecs.address.unpack_pack address

theorem readHashId_data (id : H) : readHashId codecs (hashIdData codecs id) = some id :=
  codecs.hashId.unpack_pack id

theorem readOrNull_orNull {X : Type} {read : Value → Option X} {write : X → Value}
    (h : ∀ x, read (write x) = some x) (hnull : ∀ x, write x ≠ .null) (x : Option X) :
    readOrNull read (some (orNull write x)) = some x := by
  cases x with
  | none => rfl
  | some x =>
    have hx := h x
    have hn := hnull x
    rw [orNull]
    generalize write x = v at hx hn
    cases v with
    | null => exact absurd rfl hn
    | _ => simp only [readOrNull, hx, Option.map_some]

theorem readOrNull_text (x : Option String) : readOrNull readString (some (orNull .str x)) = some x :=
  @readOrNull_orNull _ readString Value.str (fun _ => rfl) (fun _ => by simp) x

/-- A vote's source comes back iff its parts are those of its quorum. -/
theorem read_vote_iff (vote : VoteSource) :
    VoteSource.read vote.source vote.quorum = some vote ↔ quorumParts vote.source vote.quorum = .ok vote.parts := by
  obtain ⟨source, quorum, parts⟩ := vote
  unfold VoteSource.read
  cases quorumParts source quorum <;> simp

theorem readMode_text (mode : ListRoleMode) : readMode (some (.str mode.text)) = mode := by
  cases mode <;> rfl

/-- Key records with nothing but their keys. -/
def bareRecords (keyRecords : Keyed (KeyRecord.key : KeyRecord K → K)) :
    Keyed (KeyRecord.key : KeyRecord K → K) where
  items := keyRecords.items.map fun record => ⟨record.key, []⟩
  nodup := by
    have h := keyRecords.nodup
    rw [List.map_map]
    exact h

mutual
/-- What comes back of a role: no comment, no votes counted beforehand, of a key record the key, and of a vote
    role the parts of its quorum; nothing where some quorum is malformed. -/
def reread : Role K A → Option (Role K A)
  | .SimpleRole head keyRecords keyAddresses =>
      some (.SimpleRole head.bare (bareRecords keyRecords) keyAddresses)
  | .ListRole head mode roles quorumSize => do return .ListRole head.bare mode (← rereadAll roles) quorumSize
  | .RoleLink head roleName => some (.RoleLink head.bare roleName)
  | .QuorumVoteRole head vote _ => do
      return .QuorumVoteRole head.bare (← VoteSource.read vote.source vote.quorum) none

def rereadAll : List (Role K A) → Option (List (Role K A))
  | [] => some []
  | r :: rs => do
      let r ← reread r
      let rs ← rereadAll rs
      return r :: rs
end

variable [DecidableEq K] [DecidableEq A]

theorem rolesIn_headEntries (head : RoleHead) (es : List (String × Value)) :
    rolesIn codecs (headEntries head ++ es) = rolesIn codecs es := by
  unfold headEntries
  split <;> simp [rolesIn]

/-- The class and the fields of every role are found in what is written for a role. -/
theorem tagged_role {tag : String} {head : RoleHead} {es : List (String × Value)} (hreg : tag ∈ registeredTags)
    (hnew : ∀ k ∈ ["comment", "required", "__t", "__type", "hasOwnProperty"], es.lookup k = none) :
    "hasOwnProperty" ∉ keys (headEntries head ++ es ++ [("__type", .str tag)]) ∧
      typeTag (headEntries head ++ es ++ [("__type", .str tag)]) = some tag ∧
        readHead (headEntries head ++ es ++ [("__type", .str tag)]) = some head.bare := by
  have htail : ∀ k ∈ ["comment", "required", "hasOwnProperty"],
      (es ++ [("__type", Value.str tag)]).lookup k = none := by
    intro k hk
    have hne : k ≠ "__type" := by
      rintro rfl
      simp at hk
    have hk' := hnew k (by simp only [List.mem_cons] at hk ⊢; tauto)
    rw [List.lookup_append, hk', Option.none_or, List.lookup_cons, beq_false_of_ne hne]
    rfl
  refine ⟨fun hmem => ?_, ?_, ?_⟩
  · obtain ⟨v, hv⟩ := mem_keys_iff.mp hmem
    rw [List.append_assoc, lookup_headEntries (by decide) (by decide), htail _ (by simp)] at hv
    cases hv
  · refine typeTag_tagged hreg ?_ ?_
    · rw [lookup_headEntries (by decide) (by decide)]
      exact hnew _ (by simp)
    · rw [lookup_headEntries (by decide) (by decide)]
      exact hnew _ (by simp)
  · rw [List.append_assoc]
    exact readHead_entries (htail _ (by simp)) (htail _ (by simp))

mutual
/-- CORRECT (roles as data): a role that is written and read back is what was written of it. -/
theorem deserialize_serialize : ∀ r : Role K A, deserialize codecs (serialize codecs r) = reread r
  | .SimpleRole head keyRecords keyAddresses => by
    obtain ⟨hown, htag, hhead⟩ := @tagged_role "SimpleRole" head
      [("keys", .arr (keyRecords.items.map (recordData codecs))),
        ("addresses", .arr (keyAddresses.items.map (addressData codecs)))] (by decide) (by simp)
    have hkeys := readList_map (readRecord_data codecs) keyRecords.items
    have haddresses := readList_map (g := id) (readAddress_data codecs) keyAddresses.items
    have hbare : Keyed.empty.putAll (bareRecords keyRecords).items = bareRecords keyRecords :=
      Keyed.putAll_empty _
    simp only [bareRecords] at hbare
    rw [serialize, tagged, deserialize, if_neg hown, ofEntries, hhead, htag]
    simp [lookup_headEntries, List.lookup_cons, hkeys, haddresses, hbare, Keyed.putAll_empty, reread, bareRecords,
      Function.comp_def]
  | .ListRole head mode roles quorumSize => by
    obtain ⟨hown, htag, hhead⟩ := @tagged_role "ListRole" head
      [("quorumSize", .num quorumSize), ("mode", .str mode.text), ("roles", .arr (serializeAll codecs roles))]
      (by decide) (by simp)
    have hroles := deserializeAll_serializeAll roles
    rw [serialize, tagged, deserialize, if_neg hown, ofEntries, hhead, htag]
    simp [lookup_headEntries, List.lookup_cons, rolesIn_headEntries, rolesIn, hroles, readMode_text, reread]
  | .RoleLink head roleName => by
    obtain ⟨hown, htag, hhead⟩ := @tagged_role "RoleLink" head [("target_name", .str roleName)] (by decide)
      (by simp)
    rw [serialize, tagged, deserialize, if_neg hown, ofEntries, hhead, htag]
    simp [lookup_headEntries, readString, reread]
  | .QuorumVoteRole head vote votesCount => by
    obtain ⟨hown, htag, hhead⟩ := @tagged_role "QuorumVoteRole" head
      [("source", orNull .str vote.source), ("quorum", orNull .str vote.quorum)] (by decide) (by simp)
    rw [serialize, tagged, deserialize, if_neg hown, ofEntries, hhead, htag]
    simp [lookup_headEntries, List.lookup_cons, readOrNull_text, reread]

theorem deserializeAll_serializeAll : ∀ rs : List (Role K A),
    deserializeAll codecs (serializeAll codecs rs) = rereadAll rs
  | [] => rfl
  | r :: rs => by
    rw [serializeAll, deserializeAll, deserialize_serialize r, deserializeAll_serializeAll rs, rereadAll]
end

end RoundTrip

/-! ### Equality -/

section Equality
variable {K A : Type} [DecidableEq K] [DecidableEq A]

/-- `valuesEqual` of two sets whose elements are equal when they are the same. -/
def sameSet {α : Type} [DecidableEq α] (s t : List α) : Bool := decide (s.length = t.length) && s.all (· ∈ t)

/-- `Role.equals` but for the class. -/
def headEquals (head head' : RoleHead) : Bool :=
  decide (head.name = head'.name) && decide (head.comment = head'.comment) &&
    sameSet head.requiredAllConstraints.items head'.requiredAllConstraints.items &&
    sameSet head.requiredAnyConstraints.items head'.requiredAnyConstraints.items

mutual
/-- `role.equals(to)` for two objects. -/
def equals : Role K A → Role K A → Bool
  | .SimpleRole head keyRecords keyAddresses, .SimpleRole head' keyRecords' keyAddresses' =>
      headEquals head head' &&
        sameSet (keyRecords.items.map KeyRecord.key) (keyRecords'.items.map KeyRecord.key) &&
        sameSet keyAddresses.items keyAddresses'.items
  | .ListRole head mode roles quorumSize, .ListRole head' mode' roles' quorumSize' =>
      headEquals head head' && decide (mode = mode') &&
        (decide (mode ≠ .QUORUM) || quorumSize.eq quorumSize') &&
        decide (roles.length = roles'.length) && rolesFound roles roles'
  | .RoleLink head roleName, .RoleLink head' roleName' => headEquals head head' && decide (roleName = roleName')
  | .QuorumVoteRole head vote _, .QuorumVoteRole head' vote' _ =>
      headEquals head head' && decide (vote.source = vote'.source) && decide (vote.quorum = vote'.quorum)
  | _, _ => false
termination_by structural r => r

/-- Each role of the first list is equal to one of the second. -/
def rolesFound : List (Role K A) → List (Role K A) → Bool
  | [], _ => true
  | r :: rs, roles' => roles'.any (equals r) && rolesFound rs roles'
termination_by structural rs => rs
end

mutual
/-- The size of a quorum is a number. -/
def NoNaN : Role K A → Prop
  | .ListRole _ mode roles quorumSize => (mode = .QUORUM → quorumSize ≠ .nan) ∧ NoNaNAll roles
  | _ => True

def NoNaNAll : List (Role K A) → Prop
  | [] => True
  | r :: rs => NoNaN r ∧ NoNaNAll rs
end

theorem sameSet_self {α : Type} [DecidableEq α] (s : List α) : sameSet s s = true := by
  simp [sameSet]

theorem headEquals_self (head : RoleHead) : headEquals head head = true := by
  simp [headEquals, sameSet_self]

mutual
theorem noNaN_of_equals : ∀ r r' : Role K A, equals r r' = true → NoNaN r
  | .SimpleRole _ _ _, _, _ | .RoleLink _ _, _, _ | .QuorumVoteRole _ _ _, _, _ => trivial
  | .ListRole head mode roles quorumSize, r', h => by
    cases r' with
    | ListRole head' mode' roles' quorumSize' =>
      simp only [equals, Bool.and_eq_true, Bool.or_eq_true, decide_eq_true_eq] at h
      refine ⟨?_, noNaNAll_of_found roles roles' h.2⟩
      rintro hmode rfl
      rcases h.1.1.2 with hne | heq
      · exact hne hmode
      · cases quorumSize' <;> cases heq
    | _ => simp [equals] at h

theorem noNaNAll_of_found : ∀ rs rs' : List (Role K A), rolesFound rs rs' = true → NoNaNAll rs
  | [], _, _ => trivial
  | r :: rs, rs', h => by
    rw [rolesFound, Bool.and_eq_true, List.any_eq_true] at h
    obtain ⟨⟨r', -, hr⟩, hrs⟩ := h
    exact ⟨noNaN_of_equals r r' hr, noNaNAll_of_found rs rs' hrs⟩
end

mutual
theorem equals_self : ∀ r : Role K A, NoNaN r → equals r r = true
  | .SimpleRole _ _ _, _ | .RoleLink _ _, _ | .QuorumVoteRole _ _ _, _ => by
    simp [equals, headEquals_self, sameSet_self]
  | .ListRole head mode roles quorumSize, ⟨hsize, hroles⟩ => by
    have heq : mode = .QUORUM → quorumSize.eq quorumSize = true := by
      intro hmode
      have hne := hsize hmode
      cases quorumSize <;> simp_all [Number.eq]
    have hfound := rolesFound_self roles roles (fun _ h => h) hroles
    by_cases hmode : mode = .QUORUM
    · simp [equals, headEquals_self, hfound, heq hmode]
    · simp [equals, headEquals_self, hfound, hmode]

theorem rolesFound_self : ∀ rs rs' : List (Role K A), (∀ r ∈ rs, r ∈ rs') → NoNaNAll rs →
    rolesFound rs rs' = true
  | [], _, _, _ => by rw [rolesFound]
  | r :: rs, rs', hin, h => by
    have hself := equals_self r h.1
    have hrest := rolesFound_self rs rs' (fun r' hr' => hin r' (List.mem_cons_of_mem r hr')) h.2
    rw [rolesFound, hrest, Bool.and_true, List.any_eq_true]
    exact ⟨r, hin r List.mem_cons_self, hself⟩
end

end Equality

/-! ### What is lost -/

section Lost
variable {K A : Type}

mutual
/-- The role has nothing that is not written: no comment, no votes counted beforehand, nothing but keys in its
    key records, and of a quorum the values and operators that are in it. -/
def Bare : Role K A → Prop
  | .SimpleRole head keyRecords _ => head.comment = none ∧ ∀ record ∈ keyRecords.items, record.others = []
  | .ListRole head _ roles _ => head.comment = none ∧ BareAll roles
  | .RoleLink head _ => head.comment = none
  | .QuorumVoteRole head vote votesCount => head.comment = none ∧
      quorumParts vote.source vote.quorum = .ok vote.parts ∧ votesCount = none

def BareAll : List (Role K A) → Prop
  | [] => True
  | r :: rs => Bare r ∧ BareAll rs
end

theorem headBare_iff (head : RoleHead) : head.bare = head ↔ head.comment = none := by
  obtain ⟨name, comment, all, any⟩ := head
  simp only [RoleHead.bare, RoleHead.mk.injEq, true_and, and_true]
  exact eq_comm

theorem bareRecords_iff (keyRecords : Keyed (KeyRecord.key : KeyRecord K → K)) :
    bareRecords keyRecords = keyRecords ↔ ∀ record ∈ keyRecords.items, record.others = [] := by
  have hid : keyRecords.items = keyRecords.items.map id := (List.map_id _).symm
  have hitems : bareRecords keyRecords = keyRecords ↔
      (keyRecords.items.map fun record => (⟨record.key, []⟩ : KeyRecord K)) = keyRecords.items.map id := by
    rw [Keyed.ext_iff, ← hid]
    rfl
  rw [hitems, List.map_inj_left]
  refine forall₂_congr fun record _ => ?_
  obtain ⟨key, others⟩ := record
  simp only [id, KeyRecord.mk.injEq, true_and]
  exact eq_comm

mutual
/-- A role comes back just when it has nothing else. -/
theorem reread_iff : ∀ r : Role K A, reread r = some r ↔ Bare r
  | .SimpleRole head keyRecords keyAddresses => by
    simp [reread, Bare, headBare_iff, bareRecords_iff]
  | .ListRole head mode roles quorumSize => by
    simp [reread, Bare, headBare_iff, ← rereadAll_iff roles, Option.bind_eq_some_iff, and_comm]
  | .RoleLink head roleName => by
    simp [reread, Bare, headBare_iff]
  | .QuorumVoteRole head vote votesCount => by
    simp only [reread, Bare, ← read_vote_iff, ← headBare_iff, bind, Option.bind_eq_some_iff, pure,
      Option.some.injEq, Role.QuorumVoteRole.injEq]
    constructor
    · rintro ⟨vote', hvote, hhead, rfl, hcount⟩
      exact ⟨hhead, hvote, hcount.symm⟩
    · rintro ⟨hhead, hvote, hcount⟩
      exact ⟨vote, hvote, hhead, rfl, hcount.symm⟩

theorem rereadAll_iff : ∀ rs : List (Role K A), rereadAll rs = some rs ↔ BareAll rs
  | [] => by simp [rereadAll, BareAll]
  | r :: rs => by
    simp [rereadAll, BareAll, ← reread_iff r, ← rereadAll_iff rs, Option.bind_eq_some_iff]
end

end Lost

end Universa.Contracts.Serial
