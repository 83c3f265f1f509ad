import Universa.Js.DeltaCarries

/-! `BiMapper` of `biserializable.js` on plain data: `serialize` and `deserialize` copy arrays and objects key
    by key, and an object whose `__type` or `__t` names a registered class becomes an instance of it. Dates and
    byte arrays pass, as for `BossBiMapper`.

    An answer `none` is an exception or a result that is no plain data. -/

namespace Universa.Js

/-! ### Copying -/

/-- `result[key] = value` in front of the other entries of a new object; under the name `__proto__` it sets
    the prototype, or nothing for a primitive. -/
def assigned (k : String) (v : Value) (rest : List (String × Value)) : Option (List (String × Value)) :=
  if k = "__proto__" then
    match v with
    | .bool _ | .num _ | .str _ => some rest
    | _ => none
  else some ((k, v) :: rest)

mutual
/-- `serialize(object)`. -/
def writeData : Value → Option Value
  | .arr xs => (writeItems xs).map .arr
  | .obj es => (writeEntries es).map .obj
  | v => some v

/-- `serialize` of the elements of an array. -/
def writeItems : List Value → Option (List Value)
  | [] => some []
  | x :: xs => do
      let y ← writeData x
      let ys ← writeItems xs
      return y :: ys

/-- `serialize` of the values of an object. -/
def writeEntries : List (String × Value) → Option (List (String × Value))
  | [] => some []
  | (k, v) :: es => do
      let w ← writeData v
      let rest ← writeEntries es
      assigned k w rest
end

/-- The tags of `registerAdapter` in a node, less those that `BossBiMapper` leaves out. -/
def registeredTags : List String :=
  ["KeyAddress", "RSAPublicKey", "RSAPrivateKey", "HashId", "TypeError", "USerializationErrorImpl",
    "WorkerRuntimeError", "error", "ItemResult", "KeyRecord", "RoleLink", "ListRole", "SimpleRole",
    "QuorumVoteRole", "Constraint", "Reference", "Parcel", "UniversaContract", "TransactionPack",
    "ChangeNumberPermission", "ChangeOwnerPermission", "ModifyDataPermission", "RevokePermission",
    "SplitJoinPermission", "ChangeRolePermission", "UnsName", "UnsContract", "SlotContract",
    "FollowerContract", "NodeConfigProvider", "com.icodici.universa.contract.services.UnsRecord"]

/-- The registered tag under a key. -/
def tagAt (k : String) (es : List (String × Value)) : Option String :=
  match es.lookup k with
  | some (.str t) => if t ∈ registeredTags then some t else none
  | _ => none

/-- The class an object is read as: by `__t`, else by `__type`. -/
def typeTag (es : List (String × Value)) : Option String :=
  match tagAt "__t" es with
  | some t => some t
  | none => tagAt "__type" es

mutual
/-- `deserialize(data)`; an own `hasOwnProperty` is no function. -/
def readData : Value → Option Value
  | .arr xs => (readItems xs).map .arr
  | .obj es =>
      if "hasOwnProperty" ∈ keys es ∨ typeTag es ≠ none then none else (readEntries es).map .obj
  | v => some v

/-- `deserialize` of the elements of an array. -/
def readItems : List Value → Option (List Value)
  | [] => some []
  | x :: xs => do
      let y ← readData x
      let ys ← readItems xs
      return y :: ys

/-- `deserialize` of the values of an object. -/
def readEntries : List (String × Value) → Option (List (String × Value))
  | [] => some []
  | (k, v) :: es => do
      let w ← readData v
      let rest ← readEntries es
      assigned k w rest
end

/-! ### What comes back -/

mutual
/-- No object sets a prototype. -/
def NoProto : Value → Prop
  | .arr xs => NoProtoItems xs
  | .obj es => NoProtoEntries es
  | _ => True

def NoProtoItems : List Value → Prop
  | [] => True
  | x :: xs => NoProto x ∧ NoProtoItems xs

def NoProtoEntries : List (String × Value) → Prop
  | [] => True
  | (k, v) :: es => k ≠ "__proto__" ∧ NoProto v ∧ NoProtoEntries es
end

mutual
/-- No object names a registered class or has a `hasOwnProperty` of its own. -/
def Untagged : Value → Prop
  | .arr xs => UntaggedItems xs
  | .obj es => "hasOwnProperty" ∉ keys es ∧ typeTag es = none ∧ UntaggedEntries es
  | _ => True

def UntaggedItems : List Value → Prop
  | [] => True
  | x :: xs => Untagged x ∧ UntaggedItems xs

def UntaggedEntries : List (String × Value) → Prop
  | [] => True
  | (_, v) :: es => Untagged v ∧ UntaggedEntries es
end

mutual
/-- A copy of the value is equal to it by `valuesEqual`. -/
def SelfEqual : Value → Prop
  | .num n => n ≠ .nan
  | .arr xs => SelfEqualItems xs
  | .obj es =>
      sameConstructor (.obj es) (.obj es) = some true ∧ "equals" ∉ keys es ∧ "hasOwnProperty" ∉ keys es ∧
        SelfEqualEntries es
  | _ => True

def SelfEqualItems : List Value → Prop
  | [] => True
  | x :: xs => SelfEqual x ∧ SelfEqualItems xs

def SelfEqualEntries : List (String × Value) → Prop
  | [] => True
  | (_, v) :: es => SelfEqual v ∧ SelfEqualEntries es
end

/-! ### Copies of plain data -/

theorem assigned_keys {k : String} {v : Value} {rest es : List (String × Value)}
    (h : assigned k v rest = some es) : es = rest ∨ k ≠ "__proto__" ∧ es = (k, v) :: rest := by
  unfold assigned at h
  split at h
  · split at h <;> cases h
    all_goals exact .inl rfl
  · next hk => exact .inr ⟨hk, (Option.some.inj h).symm⟩

mutual
theorem noProto_of_read : ∀ (w v : Value), readData w = some v → NoProto v
  | .null, _, h | .bool _, _, h | .num _, _, h | .str _, _, h | .date _, _, h | .bytes _, _, h => by
    simp only [readData, Option.some.injEq] at h
    subst h
    trivial
  | .arr xs, v, h => by
    rw [readData] at h
    obtain ⟨ys, hys, rfl⟩ := Option.map_eq_some_iff.mp h
    exact noProtoItems_of_read xs ys hys
  | .obj es, v, h => by
    rw [readData] at h
    split at h
    · cases h
    · obtain ⟨fs, hfs, rfl⟩ := Option.map_eq_some_iff.mp h
      exact noProtoEntries_of_read es fs hfs

theorem noProtoItems_of_read : ∀ (ws vs : List Value), readItems ws = some vs → NoProtoItems vs
  | [], vs, h => by
    cases h
    trivial
  | w :: ws, vs, h => by
    rw [readItems] at h
    obtain ⟨v, hv, h⟩ := Option.bind_eq_some_iff.mp h
    obtain ⟨vs', hvs, h⟩ := Option.bind_eq_some_iff.mp h
    cases h
    exact ⟨noProto_of_read w v hv, noProtoItems_of_read ws vs' hvs⟩

theorem noProtoEntries_of_read : ∀ (ws vs : List (String × Value)), readEntries ws = some vs → NoProtoEntries vs
  | [], vs, h => by
    cases h
    trivial
  | (k, w) :: ws, vs, h => by
    rw [readEntries] at h
    obtain ⟨v, hv, h⟩ := Option.bind_eq_some_iff.mp h
    obtain ⟨vs', hvs, h⟩ := Option.bind_eq_some_iff.mp h
    have ih := noProtoEntries_of_read ws vs' hvs
    obtain rfl | ⟨hk, rfl⟩ := assigned_keys h
    · exact ih
    · exact ⟨hk, noProto_of_read w v hv, ih⟩
end

mutual
theorem write_of_noProto : ∀ (v : Value), NoProto v → writeData v = some v
  | .null, _ | .bool _, _ | .num _, _ | .str _, _ | .date _, _ | .bytes _, _ => by simp only [writeData]
  | .arr xs, h => by rw [writeData, writeItems_of_noProto xs h]; rfl
  | .obj es, h => by rw [writeData, writeEntries_of_noProto es h]; rfl

theorem writeItems_of_noProto : ∀ (xs : List Value), NoProtoItems xs → writeItems xs = some xs
  | [], _ => rfl
  | x :: xs, h => by
    rw [writeItems, write_of_noProto x h.1, writeItems_of_noProto xs h.2]
    rfl

theorem writeEntries_of_noProto : ∀ (es : List (String × Value)), NoProtoEntries es → writeEntries es = some es
  | [], _ => rfl
  | (k, v) :: es, ⟨hk, hv, hes⟩ => by
    rw [writeEntries, write_of_noProto v hv, writeEntries_of_noProto es hes]
    simp [assigned, hk]
end

mutual
theorem untagged_of_read : ∀ (v w : Value), readData v = some w → Untagged v
  | .null, _, _ | .bool _, _, _ | .num _, _, _ | .str _, _, _ | .date _, _, _ | .bytes _, _, _ => trivial
  | .arr xs, w, h => by
    rw [readData] at h
    obtain ⟨ys, hys, rfl⟩ := Option.map_eq_some_iff.mp h
    exact untaggedItems_of_read xs ys hys
  | .obj es, w, h => by
    rw [readData] at h
    split at h
    · cases h
    · next hno =>
      obtain ⟨hown, htag⟩ := not_or.mp hno
      obtain ⟨fs, hfs, rfl⟩ := Option.map_eq_some_iff.mp h
      exact ⟨hown, not_not.mp htag, untaggedEntries_of_read es fs hfs⟩

theorem untaggedItems_of_read : ∀ (vs ws : List Value), readItems vs = some ws → UntaggedItems vs
  | [], _, _ => trivial
  | v :: vs, ws, h => by
    rw [readItems] at h
    obtain ⟨w, hw, h⟩ := Option.bind_eq_some_iff.mp h
    obtain ⟨ws', hws, -⟩ := Option.bind_eq_some_iff.mp h
    exact ⟨untagged_of_read v w hw, untaggedItems_of_read vs ws' hws⟩

theorem untaggedEntries_of_read :
    ∀ (vs ws : List (String × Value)), readEntries vs = some ws → UntaggedEntries vs
  | [], _, _ => trivial
  | (k, v) :: vs, ws, h => by
    rw [readEntries] at h
    obtain ⟨w, hw, h⟩ := Option.bind_eq_some_iff.mp h
    obtain ⟨ws', hws, -⟩ := Option.bind_eq_some_iff.mp h
    exact ⟨untagged_of_read v w hw, untaggedEntries_of_read vs ws' hws⟩
end

mutual
theorem read_of_untagged : ∀ (v : Value), NoProto v → Untagged v → readData v = some v
  | .null, _, _ | .bool _, _, _ | .num _, _, _ | .str _, _, _ | .date _, _, _ | .bytes _, _, _ => by
    simp only [readData]
  | .arr xs, hp, hu => by rw [readData, readItems_of_untagged xs hp hu]; rfl
  | .obj es, hp, ⟨hown, htag, hu⟩ => by
    rw [readData, if_neg (not_or.mpr ⟨hown, not_not.mpr htag⟩), readEntries_of_untagged es hp hu]
    rfl

theorem readItems_of_untagged : ∀ (xs : List Value), NoProtoItems xs → UntaggedItems xs → readItems xs = some xs
  | [], _, _ => rfl
  | x :: xs, hp, hu => by
    rw [readItems, read_of_untagged x hp.1 hu.1, readItems_of_untagged xs hp.2 hu.2]
    rfl

theorem readEntries_of_untagged : ∀ (es : List (String × Value)), NoProtoEntries es → UntaggedEntries es →
    readEntries es = some es
  | [], _, _ => rfl
  | (k, v) :: es, ⟨hk, hv, hes⟩, hu => by
    rw [readEntries, read_of_untagged v hv hu.1, readEntries_of_untagged es hes hu.2]
    simp [assigned, hk]
end

/-- Plain data come back from the mapper as they are just when no object sets a prototype or passes for
    one of a class. -/
theorem read_write_iff (v : Value) : (writeData v).bind readData = some v ↔ NoProto v ∧ Untagged v := by
  constructor
  · intro h
    obtain ⟨w, hw, hr⟩ := Option.bind_eq_some_iff.mp h
    have hp := noProto_of_read w v hr
    obtain rfl := Option.some.inj ((write_of_noProto v hp).symm.trans hw)
    exact ⟨hp, untagged_of_read v v hr⟩
  · rintro ⟨hp, hu⟩
    rw [write_of_noProto v hp, Option.bind_some, read_of_untagged v hp hu]

/-! ### Copies and `valuesEqual` -/

mutual
theorem equal_copy_iff : ∀ (v : Value), Distinct v → (valuesEqual v v = some true ↔ SelfEqual v)
  | .null, _ => by simp [valuesEqual, SelfEqual]
  | .bool b, _ => by simp [valuesEqual, strictEq, SelfEqual]
  | .num n, _ => by cases n <;> simp [valuesEqual, strictEq, SelfEqual, Number.eq]
  | .str s, _ => by simp [valuesEqual, strictEq, SelfEqual]
  | .date t, _ => by simp [valuesEqual, isObject, sameConstructor, constructorName, strictEq, SelfEqual]
  | .bytes bs, _ => by simp [valuesEqual, isObject, sameConstructor, constructorName, strictEq, SelfEqual]
  | .arr xs, h => by
    rw [SelfEqual, ← items_copy_iff xs h]
    simp [valuesEqual, isObject, sameConstructor, constructorName, strictEq]
  | .obj es, h => by
    have hentries := entries_copy_iff es es h.2 fun k v hkv => lookup_of_mem h.1 hkv
    have hown : (es ≠ [] → "hasOwnProperty" ∉ keys es) ↔ "hasOwnProperty" ∉ keys es := by
      cases es with
      | nil => simp [keys]
      | cons e es => simp
    rw [hown] at hentries
    rw [SelfEqual, ← hentries, valuesEqual]
    cases hname : sameConstructor (.obj es) (.obj es) with
    | none => simp [isObject]
    | some b =>
      by_cases hequals : "equals" ∈ keys es
      · cases b <;> simp [isObject, hequals]
      · cases b <;> simp [isObject, hequals]

theorem items_copy_iff :
    ∀ (xs : List Value), DistinctItems xs → (itemsEqual xs xs = some true ↔ SelfEqualItems xs)
  | [], _ => by simp [itemsEqual, SelfEqualItems]
  | x :: xs, h => by
    have hx := equal_copy_iff x h.1
    have hxs := items_copy_iff xs h.2
    rw [SelfEqualItems, ← hx, ← hxs, itemsEqual]
    cases valuesEqual x x with
    | none => simp
    | some b => cases b <;> simp

theorem entries_copy_iff (fs : List (String × Value)) : ∀ (es : List (String × Value)), DistinctEntries es →
    (∀ k v, (k, v) ∈ es → fs.lookup k = some v) →
    (entriesEqual es fs = some true ↔ (es ≠ [] → "hasOwnProperty" ∉ keys fs) ∧ SelfEqualEntries es)
  | [], _, _ => by simp [entriesEqual, SelfEqualEntries]
  | (k, v) :: es, h, hin => by
    have hv := equal_copy_iff v h.1
    have hes := entries_copy_iff fs es h.2 fun k' v' hmem => hin k' v' (List.mem_cons_of_mem _ hmem)
    have hk : fs.lookup k = some v := hin k v List.mem_cons_self
    have hkeys : k ∈ keys fs := mem_keys_iff.mpr ⟨v, hk⟩
    rw [SelfEqualEntries, ← hv, entriesEqual]
    by_cases hown : "hasOwnProperty" ∈ keys fs
    · simp [hasOwn, hown]
    · simp only [hasOwn, if_neg hown, hkeys, decide_true, hk, Option.getD_some]
      cases hvv : valuesEqual v v with
      | none => simp
      | some b => cases b <;> simp [hes, hown]
end

end Universa.Js
