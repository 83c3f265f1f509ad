import Universa.Lib.Wire

/-! The values of the native types layer (`UObject` and its classes) that BOSS carries, and what
    `BaseSerializer` asks of a map before it composes an object. A `UBinder` is a `std::map` keyed by
    `std::string`: an association list whose keys ascend in the byte order `std::string` uses, written
    only through `set`. An object of a complex type stands as the map it is composed of. -/

namespace Universa.Boss
open Wire

/-- A value of the types layer. Integers and doubles are their 64 bits, a date-time is its count of
    nanoseconds since the epoch, strings are the bytes of a `std::string`. -/
inductive UObject where
  | null
  | int (i : BitVec 64)
  | double (d : BitVec 64)
  | bool (b : Bool)
  | dateTime (count : BitVec 64)
  | bytes (b : Bytes)
  | string (s : Bytes)
  | array (xs : List UObject)
  | binder (es : List (Bytes × UObject))

namespace UObject

/-- A string literal of the source, all of them ASCII. -/
def ascii (s : String) : Bytes := s.toList.map fun c => UInt8.ofNat c.toNat

/-! ### Maps -/

/-- `std::string`'s order: unsigned bytes, a prefix first. -/
def keyLt : Bytes → Bytes → Bool
  | _, [] => false
  | [], _ :: _ => true
  | a :: as, b :: bs => a < b || (a == b && keyLt as bs)

/-- `UBinder::set`. -/
def set (key : Bytes) (value : UObject) : List (Bytes × UObject) → List (Bytes × UObject)
  | [] => [(key, value)]
  | e :: es =>
      if keyLt key e.1 then (key, value) :: e :: es
      else if keyLt e.1 key then e :: set key value es
      else (key, value) :: es

/-- `UBinder`'s lookup by key. -/
def find (key : Bytes) (es : List (Bytes × UObject)) : Option UObject :=
  (es.find? fun e => e.1 == key).map (·.2)

/-- `UBinder::getStringOrDefault` with the default "": `getOrNull` answers null for a missing key,
    and a value that is neither null nor a string throws. -/
def getStringOrEmpty (key : String) (es : List (Bytes × UObject)) : Except String Bytes :=
  match find (ascii key) es with
  | none | some .null => .ok []
  | some (.string s) => .ok s
  | some _ => .error ("Value type founded by key \"" ++ key ++ "\" is not 7UString")

/-- The keys of a `std::map` in iteration order. -/
def Ascending (es : List (Bytes × UObject)) : Prop :=
  es.Pairwise fun a b => keyLt a.1 b.1 = true

theorem keyLt_irrefl : ∀ k, keyLt k k = false
  | [] => rfl
  | a :: as => by simp [keyLt, keyLt_irrefl as]

theorem keyLt_asymm : ∀ {a b}, keyLt a b = true → keyLt b a = false
  | _, [], h => by simp [keyLt] at h
  | [], _ :: _, _ => rfl
  | a :: as, b :: bs, h => by
      simp only [keyLt, Bool.or_eq_true, decide_eq_true_eq, Bool.and_eq_true, beq_iff_eq] at h
      rcases h with h | ⟨rfl, h⟩
      · have hne : b ≠ a := fun e => by simp [e] at h
        have hnlt : ¬ b < a := UInt8.not_lt.mpr (UInt8.le_of_lt h)
        simp [keyLt, hne, hnlt]
      · simp [keyLt, keyLt_asymm h]

/-- Setting a key above all the present ones appends it: a map read in order is rebuilt in order. -/
theorem set_append (key : Bytes) (value : UObject) : ∀ es : List (Bytes × UObject),
    (∀ e ∈ es, keyLt e.1 key = true) → set key value es = es ++ [(key, value)]
  | [], _ => rfl
  | e :: es, h => by
      have he : keyLt e.1 key = true := h e (by simp)
      have ih := set_append key value es fun e' he' => h e' (List.mem_cons_of_mem _ he')
      rw [set, keyLt_asymm he, he]
      simp [ih]

/-! ### `BaseSerializer` -/

/-- The type name under `__type`, else the one under `__t`. -/
def typeName (es : List (Bytes × UObject)) : Except String Bytes := do
  let type ← getStringOrEmpty "__type" es
  if type.isEmpty then getStringOrEmpty "__t" es else pure type

mutual
/-- `BaseSerializer::serialize` on values without complex types: a copy. -/
def serialize : UObject → UObject
  | .array xs => .array (serializeItems xs)
  | .binder es => .binder (serializeEntries es)
  | o => o

def serializeItems : List UObject → List UObject
  | [] => []
  | x :: xs => serialize x :: serializeItems xs

def serializeEntries : List (Bytes × UObject) → List (Bytes × UObject)
  | [] => []
  | (k, v) :: es => (k, serialize v) :: serializeEntries es
end

mutual
@[simp] theorem serialize_eq : ∀ o, serialize o = o
  | .array xs => by rw [serialize, serializeItems_eq xs]
  | .binder es => by rw [serialize, serializeEntries_eq es]
  | .null | .int _ | .double _ | .bool _ | .dateTime _ | .bytes _ | .string _ => rfl

@[simp] theorem serializeItems_eq : ∀ xs, serializeItems xs = xs
  | [] => rfl
  | x :: xs => by rw [serializeItems, serialize_eq x, serializeItems_eq xs]

@[simp] theorem serializeEntries_eq : ∀ es, serializeEntries es = es
  | [] => rfl
  | (k, v) :: es => by rw [serializeEntries, serialize_eq v, serializeEntries_eq es]
end

/-! ### Sub-values -/

mutual
/-- How deep a value goes, itself counted. -/
def height : UObject → Nat
  | .array xs => heightItems xs + 1
  | .binder es => heightEntries es + 1
  | _ => 1

def heightItems : List UObject → Nat
  | [] => 0
  | x :: xs => max (height x) (heightItems xs)

def heightEntries : List (Bytes × UObject) → Nat
  | [] => 0
  | (_, v) :: es => max (height v) (heightEntries es)
end

theorem heightItems_le {n : Nat} : ∀ {xs : List UObject}, heightItems xs ≤ n ↔ ∀ x ∈ xs, x.height ≤ n
  | [] => by simp [heightItems]
  | x :: xs => by simp [heightItems, heightItems_le]

theorem heightEntries_le {n : Nat} : ∀ {es : List (Bytes × UObject)},
    heightEntries es ≤ n ↔ ∀ e ∈ es, e.2.height ≤ n
  | [] => by simp [heightEntries]
  | (k, v) :: es => by simp [heightEntries, heightEntries_le]

mutual
/-- A value and every value inside it, the keys of its maps among them as strings. -/
def subs : UObject → List UObject
  | .array xs => .array xs :: subsItems xs
  | .binder es => .binder es :: subsEntries es
  | o => [o]

def subsItems : List UObject → List UObject
  | [] => []
  | x :: xs => subs x ++ subsItems xs

def subsEntries : List (Bytes × UObject) → List UObject
  | [] => []
  | (k, v) :: es => .string k :: subs v ++ subsEntries es
end

theorem mem_subs_self (o : UObject) : o ∈ o.subs := by
  cases o <;> simp [subs]

theorem mem_subsItems {s : UObject} : ∀ {xs : List UObject},
    s ∈ subsItems xs ↔ ∃ x ∈ xs, s ∈ x.subs
  | [] => by simp [subsItems]
  | x :: xs => by simp [subsItems, mem_subsItems]

theorem mem_subsEntries {s : UObject} : ∀ {es : List (Bytes × UObject)},
    s ∈ subsEntries es ↔ ∃ e ∈ es, s = .string e.1 ∨ s ∈ e.2.subs
  | [] => by simp [subsEntries]
  | (k, v) :: es => by simp [subsEntries, mem_subsEntries, or_assoc]

mutual
/-- What is inside a part is inside the whole. -/
theorem subs_trans : ∀ {o c : UObject}, c ∈ o.subs → ∀ d ∈ c.subs, d ∈ o.subs
  | .array xs, c, h, d, hd => by
      rcases List.mem_cons.mp h with rfl | h
      · exact hd
      · exact List.mem_cons_of_mem _ (subsItems_trans h d hd)
  | .binder es, c, h, d, hd => by
      rcases List.mem_cons.mp h with rfl | h
      · exact hd
      · exact List.mem_cons_of_mem _ (subsEntries_trans h d hd)
  | .null, c, h, d, hd | .int _, c, h, d, hd | .double _, c, h, d, hd | .bool _, c, h, d, hd
  | .dateTime _, c, h, d, hd | .bytes _, c, h, d, hd | .string _, c, h, d, hd => by
      rw [List.mem_singleton.mp h] at hd
      exact hd

theorem subsItems_trans : ∀ {xs : List UObject} {c : UObject}, c ∈ subsItems xs →
    ∀ d ∈ c.subs, d ∈ subsItems xs
  | x :: xs, c, h, d, hd => by
      rcases List.mem_append.mp h with h | h
      · exact List.mem_append_left _ (subs_trans h d hd)
      · exact List.mem_append_right _ (subsItems_trans h d hd)

theorem subsEntries_trans : ∀ {es : List (Bytes × UObject)} {c : UObject},
    c ∈ subsEntries es → ∀ d ∈ c.subs, d ∈ subsEntries es
  | (k, v) :: es, c, h, d, hd => by
      rcases List.mem_append.mp h with h | h
      · rcases List.mem_cons.mp h with rfl | h
        · rw [List.mem_singleton.mp hd]
          exact List.mem_append_left _ (List.mem_cons_self ..)
        · exact List.mem_append_left _ (List.mem_cons_of_mem _ (subs_trans h d hd))
      · exact List.mem_append_right _ (subsEntries_trans h d hd)
end

theorem length_subs_le {x : UObject} : ∀ {xs : List UObject}, x ∈ xs →
    x.subs.length ≤ (subsItems xs).length
  | y :: ys, h => by
      rw [subsItems, List.length_append]
      rcases List.mem_cons.mp h with rfl | h
      · omega
      · have := length_subs_le h
        omega

theorem length_subs_value_le {e : Bytes × UObject} : ∀ {es : List (Bytes × UObject)}, e ∈ es →
    e.2.subs.length < (subsEntries es).length
  | (k, v) :: es, h => by
      rw [subsEntries, List.cons_append, List.length_cons, List.length_append]
      rcases List.mem_cons.mp h with rfl | h
      · simp only
        omega
      · have := length_subs_value_le h
        omega

/-- A property of a value and of all there is inside it. -/
def All (p : UObject → Prop) (o : UObject) : Prop := ∀ s ∈ o.subs, p s

section
variable {p : UObject → Prop}

theorem All.self {o : UObject} (h : o.All p) : p o := h o (mem_subs_self o)

theorem all_array {xs : List UObject} :
    (UObject.array xs).All p ↔ p (.array xs) ∧ ∀ x ∈ xs, x.All p := by
  constructor
  · intro h
    refine ⟨h.self, fun x hx s hs => h s ?_⟩
    exact List.mem_cons_of_mem _ (mem_subsItems.mpr ⟨x, hx, hs⟩)
  · rintro ⟨hself, hxs⟩ s hs
    rcases List.mem_cons.mp hs with rfl | hs
    · exact hself
    · obtain ⟨x, hx, hs⟩ := mem_subsItems.mp hs
      exact hxs x hx s hs

theorem all_binder {es : List (Bytes × UObject)} :
    (UObject.binder es).All p ↔
      p (.binder es) ∧ ∀ e ∈ es, p (.string e.1) ∧ e.2.All p := by
  constructor
  · intro h
    have hin : ∀ s ∈ subsEntries es, p s := fun s hs => h s (List.mem_cons_of_mem _ hs)
    refine ⟨h.self, fun e he => ⟨hin _ (mem_subsEntries.mpr ⟨e, he, .inl rfl⟩), ?_⟩⟩
    exact fun s hs => hin s (mem_subsEntries.mpr ⟨e, he, .inr hs⟩)
  · rintro ⟨hself, hes⟩ s hs
    rcases List.mem_cons.mp hs with rfl | hs
    · exact hself
    · obtain ⟨e, he, rfl | hs⟩ := mem_subsEntries.mp hs
      · exact (hes e he).1
      · exact (hes e he).2 s hs

end

/-- The entries of a map after `set`: the new one, or one it had. -/
theorem mem_set {key : Bytes} {value : UObject} {e : Bytes × UObject} :
    ∀ {es : List (Bytes × UObject)}, e ∈ set key value es → e = (key, value) ∨ e ∈ es
  | [], h => by
      rw [set, List.mem_singleton] at h
      exact .inl h
  | f :: es, h => by
      rw [set] at h
      split_ifs at h
      · rcases List.mem_cons.mp h with h | h
        · exact .inl h
        · exact .inr h
      · rcases List.mem_cons.mp h with rfl | h
        · exact .inr (List.mem_cons_self ..)
        · rcases mem_set h with h | h
          · exact .inl h
          · exact .inr (List.mem_cons_of_mem _ h)
      · rcases List.mem_cons.mp h with h | h
        · exact .inl h
        · exact .inr (List.mem_cons_of_mem _ h)

/-- A map with no type name under `__type` or `__t`, so that no complex type is read from it. -/
def Untyped : UObject → Prop
  | .binder es => ∀ e ∈ es, e.1 ≠ ascii "__type" ∧ e.1 ≠ ascii "__t"
  | _ => True

/-- What `std::map` guarantees of a value: the keys of a map ascend. -/
def WellFormed : UObject → Prop
  | .binder es => Ascending es
  | _ => True

/-- Without type names, deserializing copies. -/
theorem typeName_untyped {es : List (Bytes × UObject)} (h : (UObject.binder es).Untyped) :
    typeName es = .ok [] := by
  have hfind : ∀ key : String, (∀ e ∈ es, e.1 ≠ ascii key) → getStringOrEmpty key es = .ok [] := by
    intro key hkey
    have hnone : find (ascii key) es = none := by
      rw [find, Option.map_eq_none_iff, List.find?_eq_none]
      simpa using fun k v he => hkey (k, v) he
    rw [getStringOrEmpty, hnone]
  rw [typeName, hfind "__type" fun e he => (h e he).1]
  exact hfind "__t" fun e he => (h e he).2

end UObject
end Universa.Boss
