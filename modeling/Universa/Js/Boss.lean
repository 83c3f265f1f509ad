import Mathlib.Data.List.TakeWhile
import Universa.Boss.Reread
import Universa.Js.Arithmetic
import Universa.Js.Mapper
import Universa.Js.Object

/-! Plain data in a sealed contract: `BossBiMapper` copies them, `Boss.dump` makes native values of them
    (`TypesFactory.cpp`) and writes these, `Boss.load` reads them and makes objects again (`serializeToV8`),
    and `BossBiMapper` copies these. Inside the map of a contract, which names its class, nothing is composed
    natively. A byte array has a buffer of its own, and lengths and counters are in range, so that the reader
    finds what was written but for the date-times. -/

namespace Universa.Js
open Universa.Lib

/-! ### Native values and back -/

/-- A text up to its first zero character, as a C string. -/
def cText (s : String) : String := String.ofList (s.toList.takeWhile (· ≠ Char.ofNat 0))

/-- A date: whole seconds as a count of nanoseconds, which is written and read, and back to milliseconds. -/
def carriedDate (time : ℤ) : ℤ :=
  let seconds := (Date.ofNumber ((Number.fin time).div (.fin 1000)).round).getD 0
  let count := Boss.rereadTime (BitVec.ofInt 64 (seconds * 1000000000))
  let micro := (Number.fin (1 / 1000000)).round
  (Date.ofNumber ((Number.fin count.toInt).round.mul micro).round).getD 0

/-- The order of a `std::map`. -/
def bossOrder (k i : String) : Bool := !Boss.UObject.keyLt i.toUTF8.toList k.toUTF8.toList

/-- A `UBinder` of an object's own names: array indices come as numbers and are passed over. -/
def binderOf {V : Type} (es : List (String × V)) : OrderedMap String V :=
  let named := es.filter fun e => (arrayIndex? e.1).isNone
  OrderedMap.sort bossOrder (named.foldl (fun m e => m.set (cText e.1) e.2) OrderedMap.empty)

mutual
/-- The native value that is read for a value. -/
def carried : Value → Value
  | .str s => .str (cText s)
  | .date time => .date (carriedDate time)
  | .arr xs => .arr (carriedItems xs)
  | .obj es => .obj (binderOf (carriedEntries es)).entries
  | v => v

def carriedItems : List Value → List Value
  | [] => []
  | x :: xs => carried x :: carriedItems xs

def carriedEntries : List (String × Value) → List (String × Value)
  | [] => []
  | (k, v) :: es => (k, carried v) :: carriedEntries es
end

/-- Data that were sealed and are loaded; `serializeToV8` assigns name by name, as the mapper does. -/
def stored (v : Value) : Option Value := do
  let written ← writeData v
  let loaded ← writeData (carried written)
  readData loaded

mutual
/-- The same data, names in any order. -/
def SameData : Value → Value → Prop
  | .arr xs, y => ∃ ys, y = .arr ys ∧ SameDataItems xs ys
  | .obj es, y => ∃ fs, y = .obj fs ∧ es.length = fs.length ∧ SameDataEntries es fs
  | x, y => x = y

def SameDataItems : List Value → List Value → Prop
  | [], ys => ys = []
  | x :: xs, ys => ∃ z zs, ys = z :: zs ∧ SameData x z ∧ SameDataItems xs zs

def SameDataEntries : List (String × Value) → List (String × Value) → Prop
  | [], _ => True
  | (k, v) :: es, fs => (∃ w, fs.lookup k = some w ∧ SameData v w) ∧ SameDataEntries es fs
end

/-! ### The names that come through -/

@[simp] theorem cText_cText (s : String) : cText (cText s) = cText s := by
  rw [cText, cText, String.toList_ofList, List.takeWhile_idem]

/-- A name with a character that is no digit is no array index. -/
theorem arrayIndex?_of_not_digit {name : String} {c : Char} (hc : c ∈ name.toList) (h : c.isDigit = false) :
    arrayIndex? name = none := by
  refine Option.filter_eq_none_iff.mpr fun n hn => ?_
  simp only [decide_eq_true_eq, not_and]
  rintro rfl
  rw [Nat.toString_eq_repr, Nat.toList_repr] at hc
  rw [Nat.isDigit_of_mem_toDigits (by decide) (by decide) hc] at h
  cases h

/-- A name of the map is one of the object, cut. -/
theorem has_binderOf {V : Type} {es : List (String × V)} {k : String} :
    (binderOf es).has k = true ↔ ∃ e ∈ es, arrayIndex? e.1 = none ∧ cText e.1 = k := by
  have hfold : ∀ (es : List (String × V)) (m : OrderedMap String V),
      (es.foldl (fun m e => m.set (cText e.1) e.2) m).has k = true ↔
        m.has k = true ∨ ∃ e ∈ es, cText e.1 = k := by
    intro es
    induction es with
    | nil => simp
    | cons e es ih =>
      intro m
      rw [List.foldl_cons, ih, OrderedMap.has_set, List.exists_mem_cons_iff, eq_comm]
      tauto
  rw [binderOf, OrderedMap.has, OrderedMap.get?_sort, ← OrderedMap.has, hfold]
  simp [OrderedMap.has, and_assoc]

/-- An entry of the map is one of the object, its name cut. -/
theorem mem_binderOf {V : Type} {es : List (String × V)} {e : String × V} (h : e ∈ (binderOf es).entries) :
    ∃ f ∈ es, arrayIndex? f.1 = none ∧ cText f.1 = e.1 ∧ f.2 = e.2 := by
  have hfold : ∀ (es : List (String × V)) (m : OrderedMap String V),
      e ∈ (es.foldl (fun m e => m.set (cText e.1) e.2) m).entries →
        e ∈ m.entries ∨ ∃ f ∈ es, (cText f.1, f.2) = e := by
    intro es
    induction es with
    | nil => exact fun m he => .inl he
    | cons f es ih =>
      intro m he
      rcases ih (m.set (cText f.1) f.2) he with he | ⟨g, hg, rfl⟩
      · rcases OrderedMap.mem_set.mp he with rfl | ⟨he, -⟩
        · exact .inr ⟨f, List.mem_cons_self, rfl⟩
        · exact .inl he
      · exact .inr ⟨g, List.mem_cons_of_mem _ hg, rfl⟩
  rcases hfold _ _ ((List.mergeSort_perm _ _).mem_iff.mp h) with h | ⟨f, hf, rfl⟩
  · cases h
  · obtain ⟨hf, hindex⟩ := List.mem_filter.mp hf
    exact ⟨f, hf, Option.isNone_iff_eq_none.mp hindex, rfl, rfl⟩

/-- Names that are no array indices and have no zero character stay, in another order. -/
theorem binderOf_perm {V : Type} (o : OrderedMap String V)
    (h : ∀ k ∈ o.keys, arrayIndex? k = none ∧ cText k = k) : (binderOf o.entries).entries.Perm o.entries := by
  have hkeep : o.entries.filter (fun e => (arrayIndex? e.1).isNone) = o.entries := by
    refine List.filter_eq_self.mpr fun e he => ?_
    rw [(h e.1 (List.mem_map_of_mem he)).1]
    rfl
  have hcut : ∀ e ∈ o.entries, (cText e.1, e.2) = e := by
    intro e he
    rw [(h e.1 (List.mem_map_of_mem he)).2]
  have hnodup : (o.entries.map fun e => cText e.1).Nodup := by
    rw [List.map_congr_left fun e he => congrArg Prod.fst (hcut e he)]
    exact o.nodup
  have hentries := OrderedMap.entries_foldl (m := (OrderedMap.empty : OrderedMap String V))
    (fun e : String × V => cText e.1) Prod.snd hnodup (by simp [OrderedMap.empty, OrderedMap.keys])
  rw [List.map_congr_left hcut, List.map_id'] at hentries
  rw [binderOf, hkeep]
  exact (List.mergeSort_perm _ _).trans (.of_eq hentries)

/-! ### Data that come through -/

mutual
/-- Data that are loaded as they were sealed: texts and names without a zero character, dates that are carried,
    no array index or `__proto__` as a name, and no object that passes for one of a class. -/
def Storable : Value → Prop
  | .str s => cText s = s
  | .date time => carriedDate time = time
  | .arr xs => StorableItems xs
  | .obj es => "hasOwnProperty" ∉ keys es ∧ typeTag es = none ∧ StorableEntries es
  | _ => True

def StorableItems : List Value → Prop
  | [] => True
  | x :: xs => Storable x ∧ StorableItems xs

def StorableEntries : List (String × Value) → Prop
  | [] => True
  | (k, v) :: es => (k ≠ "__proto__" ∧ arrayIndex? k = none ∧ cText k = k) ∧ Storable v ∧ StorableEntries es
end

theorem sameDataEntries_iff {fs : List (String × Value)} : ∀ {es : List (String × Value)},
    SameDataEntries es fs ↔ ∀ e ∈ es, ∃ w, fs.lookup e.1 = some w ∧ SameData e.2 w
  | [] => by simp [SameDataEntries]
  | (k, v) :: es => by rw [SameDataEntries, List.forall_mem_cons, sameDataEntries_iff]

theorem noProtoEntries_iff : ∀ {es : List (String × Value)},
    NoProtoEntries es ↔ ∀ e ∈ es, e.1 ≠ "__proto__" ∧ NoProto e.2
  | [] => by simp [NoProtoEntries]
  | (k, v) :: es => by rw [NoProtoEntries, List.forall_mem_cons, noProtoEntries_iff, and_assoc]

theorem untaggedEntries_iff : ∀ {es : List (String × Value)}, UntaggedEntries es ↔ ∀ e ∈ es, Untagged e.2
  | [] => by simp [UntaggedEntries]
  | (k, v) :: es => by rw [UntaggedEntries, List.forall_mem_cons, untaggedEntries_iff]

theorem storableEntries_iff : ∀ {es : List (String × Value)}, StorableEntries es ↔
    ∀ e ∈ es, (e.1 ≠ "__proto__" ∧ arrayIndex? e.1 = none ∧ cText e.1 = e.1) ∧ Storable e.2
  | [] => by simp [StorableEntries]
  | (k, v) :: es => by
    rw [StorableEntries, List.forall_mem_cons, storableEntries_iff]
    exact and_assoc.symm

theorem carriedEntries_eq : ∀ es : List (String × Value), carriedEntries es = es.map fun e => (e.1, carried e.2)
  | [] => rfl
  | (k, v) :: es => by rw [carriedEntries, carriedEntries_eq es, List.map_cons]

/-- A text is the same as that text only. -/
theorem sameData_text {x : Value} {t : String} (h : SameData x (.str t)) : x = .str t := by
  cases x with
  | arr xs =>
    obtain ⟨ys, hys, -⟩ := h
    cases hys
  | obj es =>
    obtain ⟨fs, hfs, -⟩ := h
    cases hfs
  | _ => exact h

/-- Objects with the same names and texts pass for the same class. -/
theorem typeTag_congr {es fs : List (String × Value)}
    (h : ∀ k t, es.lookup k = some (.str t) ↔ fs.lookup k = some (.str t)) : typeTag es = typeTag fs := by
  have hat : ∀ k, tagAt k es = tagAt k fs := by
    intro k
    unfold tagAt
    split
    next t ht => rw [(h k t).mp ht]
    next hnot =>
      split
      next t ht => exact absurd ((h k t).mpr ht) (hnot t)
      next => rfl
  rw [typeTag, typeTag, hat, hat]

/-! ### Loaded as sealed -/

theorem write_eq_some_obj {es : List (String × Value)} {d : Value} (h : writeData (.obj es) = some d) :
    ∃ ds, d = .obj ds ∧ writeEntries es = some ds := by
  rw [writeData] at h
  obtain ⟨ds, hds, rfl⟩ := Option.map_eq_some_iff.mp h
  exact ⟨ds, rfl, hds⟩

/-- What the mapper writes of an object: some of its entries, written. -/
theorem writeEntries_spec : ∀ {es ws : List (String × Value)}, writeEntries es = some ws →
    (keys ws).Sublist (keys es) ∧
      ∀ e ∈ ws, e.1 ≠ "__proto__" ∧ ∃ v, (e.1, v) ∈ es ∧ writeData v = some e.2
  | [], ws, h => by
    obtain rfl := Option.some.inj h
    exact ⟨List.Sublist.refl _, by simp⟩
  | (k, v) :: es, ws, h => by
    rw [writeEntries] at h
    obtain ⟨w, hw, h⟩ := Option.bind_eq_some_iff.mp h
    obtain ⟨rest, hrest, h⟩ := Option.bind_eq_some_iff.mp h
    obtain ⟨hsub, hmem⟩ := writeEntries_spec hrest
    have hold : ∀ e ∈ rest, e.1 ≠ "__proto__" ∧ ∃ u, (e.1, u) ∈ (k, v) :: es ∧ writeData u = some e.2 := by
      intro e he
      obtain ⟨hk, u, hu, hwrite⟩ := hmem e he
      exact ⟨hk, u, List.mem_cons_of_mem _ hu, hwrite⟩
    obtain rfl | ⟨hk, rfl⟩ := assigned_keys h
    · exact ⟨hsub.cons _, hold⟩
    · exact ⟨hsub.cons_cons _, List.forall_mem_cons.mpr ⟨⟨hk, v, List.mem_cons_self, hw⟩, hold⟩⟩

mutual
/-- What is written sets no prototype. -/
theorem noProto_of_write : ∀ {v w : Value}, writeData v = some w → NoProto w
  | .null, _, h | .bool _, _, h | .num _, _, h | .str _, _, h | .date _, _, h | .bytes _, _, h => by
    simp only [writeData, Option.some.injEq] at h
    subst h
    trivial
  | .arr xs, w, h => by
    rw [writeData] at h
    obtain ⟨ys, hys, rfl⟩ := Option.map_eq_some_iff.mp h
    exact noProtoItems_of_write hys
  | .obj es, w, h => by
    rw [writeData] at h
    obtain ⟨ws, hws, rfl⟩ := Option.map_eq_some_iff.mp h
    exact noProtoEntries_of_write hws

theorem noProtoItems_of_write : ∀ {vs ws : List Value}, writeItems vs = some ws → NoProtoItems ws
  | [], ws, h => by
    cases h
    trivial
  | v :: vs, ws, h => by
    rw [writeItems] at h
    obtain ⟨w, hw, h⟩ := Option.bind_eq_some_iff.mp h
    obtain ⟨ws', hws, h⟩ := Option.bind_eq_some_iff.mp h
    cases h
    exact ⟨noProto_of_write hw, noProtoItems_of_write hws⟩

theorem noProtoEntries_of_write : ∀ {vs ws : List (String × Value)}, writeEntries vs = some ws →
    NoProtoEntries ws
  | [], ws, h => by
    cases h
    trivial
  | (k, v) :: vs, ws, h => by
    rw [writeEntries] at h
    obtain ⟨w, hw, h⟩ := Option.bind_eq_some_iff.mp h
    obtain ⟨ws', hws, h⟩ := Option.bind_eq_some_iff.mp h
    have ih := noProtoEntries_of_write hws
    obtain rfl | ⟨hk, rfl⟩ := assigned_keys h
    · exact ih
    · exact ⟨hk, noProto_of_write hw, ih⟩
end

/-- What is loaded is what is carried, where no object passes for one of a class. -/
theorem stored_eq_some {v d : Value} :
    stored v = some d ↔ ∃ w, writeData v = some w ∧ writeData (carried w) = some d ∧ Untagged d := by
  unfold stored
  simp only [Option.bind_eq_bind, Option.bind_eq_some_iff]
  refine exists_congr fun w => and_congr_right fun _ => ?_
  constructor
  · rintro ⟨l, hl, hd⟩
    have htag := untagged_of_read l d hd
    rw [read_of_untagged l (noProto_of_write hl) htag] at hd
    obtain rfl := Option.some.inj hd
    exact ⟨hl, htag⟩
  · rintro ⟨hl, htag⟩
    exact ⟨d, hl, read_of_untagged d (noProto_of_write hl) htag⟩

/-- An entry of what is loaded is the stored value of a name that is no array index, cut. -/
theorem stored_obj {es : List (String × Value)} {d : Value} (h : stored (.obj es) = some d) :
    ∃ ds, d = .obj ds ∧ (keys ds).Nodup ∧ "hasOwnProperty" ∉ keys ds ∧ typeTag ds = none ∧
      ∀ e ∈ ds, e.1 ≠ "__proto__" ∧
        ∃ f ∈ es, arrayIndex? f.1 = none ∧ cText f.1 = e.1 ∧ stored f.2 = some e.2 := by
  obtain ⟨w, hw, hd, htag⟩ := stored_eq_some.mp h
  obtain ⟨ws, rfl, hws⟩ := write_eq_some_obj hw
  rw [carried] at hd
  obtain ⟨ds, rfl, hds⟩ := write_eq_some_obj hd
  obtain ⟨hown, htype, huntagged⟩ := htag
  obtain ⟨hsub, hmem⟩ := writeEntries_spec hds
  refine ⟨ds, rfl, hsub.nodup (binderOf _).nodup, hown, htype, fun e he => ?_⟩
  obtain ⟨hk, c, hc, hwrite⟩ := hmem e he
  refine ⟨hk, ?_⟩
  obtain ⟨f, hf, hindex, hcut, rfl⟩ := mem_binderOf hc
  rw [carriedEntries_eq] at hf
  obtain ⟨⟨k, x⟩, hx, rfl⟩ := List.mem_map.mp hf
  obtain ⟨-, v, hv, hwritten⟩ := (writeEntries_spec hws).2 (k, x) hx
  exact ⟨(k, v), hv, hindex, hcut,
    stored_eq_some.mpr ⟨x, hwritten, hwrite, untaggedEntries_iff.mp huntagged e he⟩⟩

theorem stored_items : ∀ {xs ws ds : List Value}, writeItems xs = some ws →
    writeItems (carriedItems ws) = some ds → UntaggedItems ds →
    List.Forall₂ (fun x d => stored x = some d) xs ds
  | [], ws, ds, hws, hds, _ => by
    obtain rfl := Option.some.inj hws
    obtain rfl := Option.some.inj hds
    exact .nil
  | x :: xs, ws, ds, hws, hds, htag => by
    obtain ⟨w, hw, h⟩ := Option.bind_eq_some_iff.mp hws
    obtain ⟨ws', hws', h⟩ := Option.bind_eq_some_iff.mp h
    obtain rfl := Option.some.inj h
    obtain ⟨d, hd, h⟩ := Option.bind_eq_some_iff.mp hds
    obtain ⟨ds', hds', h⟩ := Option.bind_eq_some_iff.mp h
    obtain rfl := Option.some.inj h
    exact .cons (stored_eq_some.mpr ⟨w, hw, hd, htag.1⟩) (stored_items hws' hds' htag.2)

theorem stored_arr {xs : List Value} {d : Value} (h : stored (.arr xs) = some d) :
    ∃ ds, d = .arr ds ∧ List.Forall₂ (fun x d => stored x = some d) xs ds := by
  obtain ⟨w, hw, hd, htag⟩ := stored_eq_some.mp h
  rw [writeData] at hw
  obtain ⟨ws, hws, rfl⟩ := Option.map_eq_some_iff.mp hw
  rw [carried, writeData] at hd
  obtain ⟨ds, hds, rfl⟩ := Option.map_eq_some_iff.mp hd
  exact ⟨ds, rfl, stored_items hws hds htag⟩

mutual
/-- What comes back the same could be stored. -/
theorem storable_of_stored : ∀ {v d : Value}, Distinct v → stored v = some d → SameData d v → Storable v
  | .null, _, _, _, _ | .bool _, _, _, _, _ | .num _, _, _, _, _ | .bytes _, _, _, _, _ => trivial
  | .str s, d, _, h, hsame => by
    obtain rfl := sameData_text hsame
    have h : some (Value.str (cText s)) = some (.str s) := h
    exact Value.str.inj (Option.some.inj h)
  | .date time, d, _, h, hsame => by
    have h : some (Value.date (carriedDate time)) = some d := h
    obtain rfl := Option.some.inj h
    have hsame : Value.date (carriedDate time) = .date time := hsame
    exact Value.date.inj hsame
  | .arr xs, d, hd, h, hsame => by
    obtain ⟨ds, rfl, hall⟩ := stored_arr h
    obtain ⟨ys, heq, hsame⟩ := hsame
    obtain rfl := Value.arr.inj heq
    exact storableItems_of_stored hd hall hsame
  | .obj es, d, ⟨hnodup, hd⟩, h, hsame => by
    obtain ⟨ds, rfl, hdnodup, hown, htype, hmem⟩ := stored_obj h
    obtain ⟨fs, heq, hlen, hsame⟩ := hsame
    obtain rfl := Value.obj.inj heq
    rw [sameDataEntries_iff] at hsame
    -- as many names on both sides, so each name is loaded
    have hsub : keys ds ⊆ keys es := by
      intro k hk
      obtain ⟨e, he, rfl⟩ := List.mem_map.mp hk
      obtain ⟨w, hw, -⟩ := hsame e he
      exact mem_keys_iff.mpr ⟨w, hw⟩
    have hperm : (keys ds).Perm (keys es) := by
      refine (List.subperm_of_subset hdnodup hsub).perm_of_length_le ?_
      rw [keys, keys, List.length_map, List.length_map, hlen]
    have hcut : ∀ k ∈ keys es, cText k = k := by
      intro k hk
      obtain ⟨e, he, rfl⟩ := List.mem_map.mp (hperm.mem_iff.mpr hk)
      obtain ⟨-, f, -, -, hf, -⟩ := hmem e he
      rw [← hf, cText_cText]
    have hloaded : ∀ e ∈ es, (e.1 ≠ "__proto__" ∧ arrayIndex? e.1 = none) ∧
        ∃ d, ds.lookup e.1 = some d ∧ stored e.2 = some d ∧ SameData d e.2 := by
      intro e he
      obtain ⟨g, hg, hkey⟩ := List.mem_map.mp (hperm.mem_iff.mpr (List.mem_map_of_mem he))
      obtain ⟨hproto, f, hf, hindex, hfcut, hstored⟩ := hmem g hg
      have hfkey : f.1 = e.1 := (hcut f.1 (List.mem_map_of_mem hf)).symm.trans (hfcut.trans hkey)
      have hfe : f.2 = e.2 := by
        have hlook := lookup_of_mem (k := f.1) (v := f.2) hnodup hf
        rw [hfkey, lookup_of_mem (k := e.1) (v := e.2) hnodup he] at hlook
        exact (Option.some.inj hlook).symm
      obtain ⟨w, hw, hgw⟩ := hsame g hg
      rw [hkey, lookup_of_mem (k := e.1) (v := e.2) hnodup he] at hw
      obtain rfl := Option.some.inj hw
      rw [← hkey]
      exact ⟨⟨hproto, hkey ▸ hfkey ▸ hindex⟩, g.2, lookup_of_mem hdnodup hg, hfe ▸ hstored, hgw⟩
    refine ⟨fun hmem => hown (hperm.mem_iff.mpr hmem), ?_, storableEntries_iff.mpr fun e he => ?_⟩
    · -- a name of a class is loaded as it is
      rw [← htype]
      refine typeTag_congr fun k t => ⟨fun hk => ?_, fun hk => ?_⟩
      · obtain ⟨-, d, hd, -, hsame⟩ := hloaded (k, .str t) (mem_of_lookup hk)
        rw [hd, sameData_text hsame]
      · obtain ⟨w, hw, hsame⟩ := hsame (k, .str t) (mem_of_lookup hk)
        have hsame : Value.str t = w := hsame
        rw [hw, ← hsame]
    · obtain ⟨⟨hproto, hindex⟩, d, -, hstored, hsame⟩ := hloaded e he
      exact ⟨⟨hproto, hindex, hcut e.1 (List.mem_map_of_mem he)⟩,
        storableEntries_of_stored hd e he hstored hsame⟩

theorem storableItems_of_stored : ∀ {xs ds : List Value}, DistinctItems xs →
    List.Forall₂ (fun x d => stored x = some d) xs ds → SameDataItems ds xs → StorableItems xs
  | [], _, _, _, _ => trivial
  | x :: xs, _, hd, hall, hsame => by
    cases hall with
    | cons hx hxs =>
      obtain ⟨z, zs, heq, hz, hzs⟩ := hsame
      obtain ⟨rfl, rfl⟩ := List.cons.inj heq
      exact ⟨storable_of_stored hd.1 hx hz, storableItems_of_stored hd.2 hxs hzs⟩

theorem storableEntries_of_stored : ∀ {es : List (String × Value)}, DistinctEntries es → ∀ e ∈ es,
    ∀ {d : Value}, stored e.2 = some d → SameData d e.2 → Storable e.2
  | (k, v) :: es, hd, e, he, d, h, hsame => by
    rcases List.mem_cons.mp he with rfl | he
    · exact storable_of_stored hd.1 h hsame
    · exact storableEntries_of_stored hd.2 e he h hsame
end

theorem keys_carriedEntries (es : List (String × Value)) : keys (carriedEntries es) = keys es := by
  rw [carriedEntries_eq, keys, List.map_map]
  rfl

theorem exists_of_carried {es : List (String × Value)} {e : String × Value} (he : e ∈ carriedEntries es) :
    ∃ v, (e.1, v) ∈ es ∧ carried v = e.2 := by
  rw [carriedEntries_eq] at he
  obtain ⟨f, hf, rfl⟩ := List.mem_map.mp he
  exact ⟨f.2, hf, rfl⟩

section binder
variable {es : List (String × Value)} (hnodup : (keys es).Nodup)
  (hnames : ∀ e ∈ es, arrayIndex? e.1 = none ∧ cText e.1 = e.1)
include hnodup hnames

/-- An object of names that are carried comes with all its entries. -/
theorem carriedBinder_perm : (binderOf (carriedEntries es)).entries.Perm (carriedEntries es) := by
  have hnodup' : (keys (carriedEntries es)).Nodup := keys_carriedEntries es ▸ hnodup
  refine binderOf_perm ⟨carriedEntries es, hnodup'⟩ fun k hk => ?_
  have hk : k ∈ keys (carriedEntries es) := hk
  rw [keys_carriedEntries] at hk
  obtain ⟨e, he, rfl⟩ := List.mem_map.mp hk
  exact hnames e he

theorem lookup_carriedBinder (k : String) :
    (binderOf (carriedEntries es)).entries.lookup k = (es.lookup k).map carried := by
  have hnodup' : (keys (carriedEntries es)).Nodup := keys_carriedEntries es ▸ hnodup
  rw [OrderedMap.lookup_perm (carriedBinder_perm hnodup hnames).symm hnodup']
  ext d
  rw [Option.map_eq_some_iff]
  constructor
  · intro hk
    obtain ⟨v, hv, rfl⟩ := exists_of_carried (mem_of_lookup hk)
    exact ⟨v, lookup_of_mem hnodup hv, rfl⟩
  · rintro ⟨v, hv, rfl⟩
    refine lookup_of_mem hnodup' ?_
    rw [carriedEntries_eq]
    exact List.mem_map.mpr ⟨(k, v), mem_of_lookup hv, rfl⟩

end binder

/-- What is carried of a value is that value, and stays plain data. -/
structure Comes (v : Value) : Prop where
  written : NoProto v
  same : SameData (carried v) v
  noProto : NoProto (carried v)
  untagged : Untagged (carried v)

mutual
theorem comes_of_storable : ∀ {v : Value}, Storable v → Distinct v → Comes v
  | .null, _, _ | .bool _, _, _ | .num _, _, _ | .bytes _, _, _ => ⟨trivial, rfl, trivial, trivial⟩
  | .str s, h, _ => ⟨trivial, congrArg Value.str h, trivial, trivial⟩
  | .date time, h, _ => ⟨trivial, congrArg Value.date h, trivial, trivial⟩
  | .arr xs, h, hd => by
    obtain ⟨hwritten, hsame, hproto, htag⟩ := items_come h hd
    exact ⟨hwritten, ⟨xs, rfl, hsame⟩, hproto, htag⟩
  | .obj es, ⟨hown, htype, h⟩, ⟨hnodup, hd⟩ => by
    have hcomes := entries_come h hd
    rw [storableEntries_iff] at h
    have hnames : ∀ e ∈ es, arrayIndex? e.1 = none ∧ cText e.1 = e.1 := fun e he => (h e he).1.2
    have hperm := carriedBinder_perm hnodup hnames
    refine ⟨?_, ⟨es, rfl, ?_, ?_⟩, ?_, ?_, ?_, ?_⟩
    · exact noProtoEntries_iff.mpr fun e he => ⟨(h e he).1.1, (hcomes e he).written⟩
    · rw [hperm.length_eq, carriedEntries_eq, List.length_map]
    · refine sameDataEntries_iff.mpr fun e he => ?_
      obtain ⟨v, hv, hcarried⟩ := exists_of_carried (hperm.mem_iff.mp he)
      exact ⟨v, lookup_of_mem hnodup hv, hcarried ▸ (hcomes _ hv).same⟩
    · refine noProtoEntries_iff.mpr fun e he => ?_
      obtain ⟨v, hv, hcarried⟩ := exists_of_carried (hperm.mem_iff.mp he)
      exact ⟨(h _ hv).1.1, hcarried ▸ (hcomes _ hv).noProto⟩
    · intro hin
      exact hown (keys_carriedEntries es ▸ (hperm.map Prod.fst).mem_iff.mp hin)
    · rw [← htype]
      refine typeTag_congr fun k t => ?_
      rw [lookup_carriedBinder hnodup hnames, Option.map_eq_some_iff]
      constructor
      · rintro ⟨v, hv, hcarried⟩
        have hsame := (hcomes _ (mem_of_lookup hv)).same
        have hsame : SameData (carried v) v := hsame
        rw [hcarried] at hsame
        have hsame : Value.str t = v := hsame
        rw [hv, hsame]
      · intro hk
        have hsame : SameData (carried (.str t)) (.str t) := (hcomes _ (mem_of_lookup hk)).same
        exact ⟨_, hk, sameData_text hsame⟩
    · refine untaggedEntries_iff.mpr fun e he => ?_
      obtain ⟨v, hv, hcarried⟩ := exists_of_carried (hperm.mem_iff.mp he)
      exact hcarried ▸ (hcomes _ hv).untagged

theorem items_come : ∀ {xs : List Value}, StorableItems xs → DistinctItems xs →
    NoProtoItems xs ∧ SameDataItems (carriedItems xs) xs ∧ NoProtoItems (carriedItems xs) ∧
      UntaggedItems (carriedItems xs)
  | [], _, _ => ⟨trivial, rfl, trivial, trivial⟩
  | x :: xs, h, hd => by
    have hx := comes_of_storable h.1 hd.1
    obtain ⟨hwritten, hsame, hproto, htag⟩ := items_come h.2 hd.2
    exact ⟨⟨hx.written, hwritten⟩, ⟨x, xs, rfl, hx.same, hsame⟩, ⟨hx.noProto, hproto⟩, hx.untagged, htag⟩

theorem entries_come : ∀ {es : List (String × Value)}, StorableEntries es → DistinctEntries es →
    ∀ e ∈ es, Comes e.2
  | (k, v) :: es, h, hd, e, he => by
    rcases List.mem_cons.mp he with rfl | he
    · exact comes_of_storable h.2.1 hd.1
    · exact entries_come h.2.2 hd.2 e he
end

/-- Data come back from a sealed contract just where they can be stored. -/
theorem stored_iff {v : Value} (hd : Distinct v) : (∃ d, stored v = some d ∧ SameData d v) ↔ Storable v := by
  refine ⟨fun ⟨d, h, hsame⟩ => storable_of_stored hd h hsame, fun h => ?_⟩
  have hcomes := comes_of_storable h hd
  refine ⟨carried v, stored_eq_some.mpr ⟨v, write_of_noProto v hcomes.written, ?_, hcomes.untagged⟩, hcomes.same⟩
  exact write_of_noProto _ hcomes.noProto

end Universa.Js
