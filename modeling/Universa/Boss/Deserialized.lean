import Universa.Boss.Parse

/-! What `deserialize` gives, apart from the reader that calls it: where it returns, the value it was given, and
    it returns on a value without type names where the stack has room for its height. A value that the parser
    reads is no higher than the bytes there were, so a stack with room for these has room for it. -/

namespace Universa.Boss
open Wire UObject

/-! ### Computations that leave the reader where it is -/

/-- Where the computation returns, this holds of its answer, and of the reader the trace alone has changed. -/
def Leaves {α : Type} (Q : α → Prop) (m : Read α) : Prop :=
  ∀ s a s', m s = .ok a s' → Q a ∧ ∃ trace, s' = { s with trace := trace }

/-- It returns this, whatever the reader. -/
def Returns {α : Type} (a : α) (m : Read α) : Prop := ∀ s, ∃ trace, m s = .ok a { s with trace := trace }

section
variable {α β : Type} {P : α → Prop} {Q : β → Prop}

theorem leaves_pure {b : β} (h : Q b) : Leaves Q (pure b) := by
  intro s a s' hok
  obtain ⟨rfl, rfl⟩ := Comp.pure_eq_ok.mp hok
  exact ⟨h, s.trace, rfl⟩

theorem leaves_fail (e : String) : Leaves Q (Comp.fail e) := fun _ _ _ h => nomatch h

theorem leaves_note (kind : StepKind) : Leaves (fun _ => True) (Comp.modify (·.note kind)) := by
  intro s a s' h
  cases h
  exact ⟨trivial, _, rfl⟩

theorem leaves_lift (x : Except String α) : Leaves (fun _ => True) (Comp.lift x) := by
  cases x with
  | ok a => exact leaves_pure trivial
  | error e => exact leaves_fail e

theorem leaves_bind {m : Read α} {f : α → Read β} (hm : Leaves P m) (hf : ∀ a, P a → Leaves Q (f a)) :
    Leaves Q (m >>= f) := by
  intro s b s' hok
  obtain ⟨a, s₁, hrun, hok⟩ := Comp.bind_eq_ok.mp hok
  obtain ⟨ha, trace, rfl⟩ := hm s a s₁ hrun
  obtain ⟨hb, trace', rfl⟩ := hf a ha _ b s' hok
  exact ⟨hb, trace', rfl⟩

/-- Another reader's steps are noted, no more. -/
theorem leaves_readInner (m : Read α) (data : Bytes) : Leaves (fun _ => True) (readInner m data) := by
  intro s a s' h
  rw [readInner] at h
  cases hrun : m (Reader.new data) with
  | ok b inner =>
      rw [hrun] at h
      cases h
      exact ⟨trivial, _, rfl⟩
  | throw e inner => rw [hrun] at h; cases h
  | crash k inner => rw [hrun] at h; cases h

theorem leaves_rethrow {m : Read α} (hm : Leaves P m) (text : String) : Leaves P (rethrow text m) := by
  intro s a s' h
  rw [rethrow] at h
  cases hrun : m s with
  | ok b s₁ =>
      rw [hrun] at h
      obtain ⟨rfl, rfl⟩ : b = a ∧ s₁ = s' := by simpa using h
      exact hm s b s₁ hrun
  | throw e s₁ => rw [hrun] at h; cases h
  | crash k s₁ => rw [hrun] at h; cases h

theorem returns_pure (a : α) : Returns a (pure a : Read α) := fun s => ⟨s.trace, rfl⟩

theorem returns_note (kind : StepKind) : Returns () (Comp.modify (·.note kind)) := fun _ => ⟨_, rfl⟩

theorem returns_bind {m : Read α} {f : α → Read β} {a : α} {b : β} (hm : Returns a m) (hf : Returns b (f a)) :
    Returns b (m >>= f) := by
  intro s
  obtain ⟨trace, hrun⟩ := hm s
  obtain ⟨trace', hrun'⟩ := hf { s with trace := trace }
  exact ⟨trace', Comp.bind_eq_ok.mpr ⟨a, _, hrun, hrun'⟩⟩

end

/-! ### `deserialize` -/

section
variable (process : Process)

theorem leaves_initPublicKey (e n : Bytes) : Leaves (fun _ => True) (initPublicKey process e n) := by
  intro s a s' h
  rw [initPublicKey] at h
  split_ifs at h
  cases h
  exact ⟨trivial, _, rfl⟩

theorem leaves_initPrivateKey (p q : Bytes) : Leaves (fun _ => True) (initPrivateKey p q) := by
  intro s a s' h
  rw [initPrivateKey] at h
  split_ifs at h
  cases h
  exact ⟨trivial, _, rfl⟩

theorem leaves_keyAddress (packed : Bytes) : Leaves (fun _ => True) (keyAddress process packed) := by
  intro s a s' h
  rw [keyAddress] at h
  split at h
  · cases h
    exact ⟨trivial, _, rfl⟩
  · cases h
  · cases h

theorem leaves_publicKey (m : Read UObject) (packed : Bytes) : Leaves (fun _ => True) (publicKey process m packed) := by
  refine leaves_rethrow (leaves_bind (leaves_readInner m packed) fun o _ => ?_) _
  refine leaves_bind (leaves_lift _) fun xs _ => leaves_bind (leaves_lift _) fun type _ => ?_
  split_ifs
  · exact leaves_fail _
  · exact leaves_bind (leaves_lift _) fun e _ => leaves_bind (leaves_lift _) fun n _ =>
      leaves_initPublicKey process e n
  · exact leaves_fail _
  · exact leaves_fail _

theorem leaves_privateKey (m : Read UObject) (packed : Bytes) : Leaves (fun _ => True) (privateKey m packed) := by
  refine leaves_rethrow (leaves_bind (leaves_readInner m packed) fun o _ => ?_) _
  refine leaves_bind (leaves_lift _) fun xs _ => leaves_bind (leaves_lift _) fun type _ => ?_
  split_ifs
  · exact leaves_bind (leaves_lift _) fun _ _ => leaves_bind (leaves_lift _) fun p _ =>
      leaves_bind (leaves_lift _) fun q _ => leaves_initPrivateKey p q
  · exact leaves_fail _
  · exact leaves_fail _
  · exact leaves_fail _

/-- A composed object stands as the map it is composed of. -/
theorem leaves_composeObject (m : Read UObject) (type : Bytes) (data : List (Bytes × UObject)) :
    Leaves (· = .binder data) (composeObject process m type data) := by
  unfold composeObject
  split_ifs
  · exact leaves_bind (leaves_lift _) fun _ _ => leaves_bind (leaves_lift _) fun _ _ => leaves_pure rfl
  · exact leaves_bind (leaves_lift _) fun _ _ => leaves_pure rfl
  · exact leaves_bind (leaves_lift _) fun packed _ =>
      leaves_bind (leaves_keyAddress process packed) fun _ _ => leaves_pure rfl
  · exact leaves_bind (leaves_lift _) fun packed _ =>
      leaves_bind (leaves_publicKey process m packed) fun _ _ => leaves_pure rfl
  · exact leaves_bind (leaves_lift _) fun packed _ =>
      leaves_bind (leaves_privateKey m packed) fun _ _ => leaves_pure rfl
  · exact leaves_bind (leaves_lift _) fun _ _ => leaves_pure rfl
  · exact leaves_pure rfl

section
variable {next : UObject → Read UObject}

theorem leaves_deserializeItems (h : ∀ o, Leaves (· = o) (next o)) (xs : List UObject) :
    Leaves (· = xs) (deserializeItems next xs) := by
  induction xs with
  | nil => exact leaves_pure rfl
  | cons x xs ih =>
      refine leaves_bind (h x) fun y hy => leaves_bind ih fun ys hys => leaves_pure ?_
      rw [hy, hys]

theorem leaves_deserializeEntries (h : ∀ o, Leaves (· = o) (next o)) (es : List (Bytes × UObject)) :
    Leaves (· = es) (deserializeEntries next es) := by
  induction es with
  | nil => exact leaves_pure rfl
  | cons e es ih =>
      refine leaves_bind (h e.2) fun w hw => leaves_bind ih fun fs hfs => leaves_pure ?_
      rw [hw, hfs]

theorem returns_deserializeItems : ∀ {xs : List UObject}, (∀ x ∈ xs, Returns x (next x)) → Returns xs (deserializeItems next xs)
  | [], _ => returns_pure []
  | x :: _, h => returns_bind (h x (List.mem_cons_self ..)) <|
      returns_bind (returns_deserializeItems fun y hy => h y (List.mem_cons_of_mem _ hy)) (returns_pure _)

theorem returns_deserializeEntries : ∀ {es : List (Bytes × UObject)}, (∀ e ∈ es, Returns e.2 (next e.2)) →
    Returns es (deserializeEntries next es)
  | [], _ => returns_pure []
  | (k, v) :: _, h => returns_bind (h (k, v) (List.mem_cons_self ..)) <|
      returns_bind (returns_deserializeEntries fun e he => h e (List.mem_cons_of_mem _ he)) (returns_pure _)

theorem leaves_finish (h : ∀ o, Leaves (· = o) (next o)) (o : UObject) : Leaves (· = o) (finish next o) := by
  cases o with
  | array xs => exact h _
  | binder es => exact h _
  | _ => exact leaves_pure rfl

theorem returns_finish {o : UObject} (h : Returns o (next o)) : Returns o (finish next o) := by
  cases o with
  | array xs => exact h
  | binder es => exact h
  | _ => exact returns_pure _

end

/-- Where it returns, the value it was given. -/
theorem leaves_deserialize : ∀ room o, Leaves (· = o) (deserialize process room o)
  | 0, _ => fun _ _ _ h => nomatch h
  | room + 1, o => by
      refine leaves_bind (leaves_note _) fun _ _ => ?_
      cases o with
      | array xs =>
          exact leaves_bind (leaves_deserializeItems (leaves_deserialize room) xs) fun ys hys =>
            leaves_pure (by rw [hys])
      | binder es =>
          refine leaves_bind (leaves_lift _) fun type _ => ?_
          split_ifs
          · exact leaves_bind (leaves_deserializeEntries (leaves_deserialize room) es) fun fs hfs =>
              leaves_pure (by rw [hfs])
          · exact leaves_composeObject process _ type es
      | _ => exact leaves_pure rfl

/-- Without type names it copies, where there is room for it. -/
theorem returns_deserialize : ∀ {room : Nat} {o : UObject}, o.All Untyped → o.height ≤ room →
    Returns o (deserialize process room o)
  | 0, o, _, h => absurd h (by cases o <;> simp [height])
  | room + 1, .array xs, huntyped, h => by
      have hxs := heightItems_le.mp (Nat.le_of_succ_le_succ h)
      refine returns_bind (returns_note _) (returns_bind (returns_deserializeItems fun x hx => ?_) (returns_pure _))
      exact returns_deserialize ((all_array.mp huntyped).2 x hx) (hxs x hx)
  | room + 1, .binder es, huntyped, h => by
      obtain ⟨hself, hparts⟩ := all_binder.mp huntyped
      have hes := heightEntries_le.mp (Nat.le_of_succ_le_succ h)
      refine returns_bind (returns_note _) ?_
      dsimp only
      rw [typeName_untyped hself]
      refine returns_bind (returns_pure []) (returns_bind (returns_deserializeEntries fun e he => ?_) (returns_pure _))
      exact returns_deserialize (hparts e he).2 (hes e he)
  | room + 1, .null, _, _ | room + 1, .int _, _, _ | room + 1, .double _, _, _ | room + 1, .bool _, _, _
  | room + 1, .dateTime _, _, _ | room + 1, .bytes _, _, _ | room + 1, .string _, _, _ =>
      returns_bind (returns_note _) (returns_pure _)

end

/-! ### The height of what is read -/

/-- A parser that only takes bytes. -/
def Shrinks {α : Type} (p : Parse α) : Prop :=
  ∀ s a s', p s = some (a, s') → ∃ rest, s' = { s with rest := rest } ∧ rest.length ≤ s.rest.length

/-- The open containers are these, and no value the cache holds closed is higher than `total` without the bytes
    that are left, nor are these more. -/
structure Low (opened : List Nat) (total : Nat) (s : Rest) : Prop where
  recursive : s.recursive = opened
  rest : s.rest.length ≤ total
  cache : ∀ i o, s.cache[i]? = some o → i + 1 ∉ opened → o.height + s.rest.length ≤ total

/-- From a state that is low before, the parser leaves one that is low after, and so is the value it reads. -/
def Reads (opened : List Nat) (before after : Nat) (p : Parse UObject) : Prop :=
  ∀ s o s', Low opened before s → p s = some (o, s') →
    Low opened after s' ∧ s'.rest.length ≤ s.rest.length ∧ o.height + s'.rest.length ≤ after

section
variable {α β : Type}

/-- A sequence accepts when both its parts do. -/
theorem Parse.bind_eq_some {p : Parse α} {f : α → Parse β} {s s' : Rest} {b : β} :
    (p >>= f) s = some (b, s') ↔ ∃ a s₁, p s = some (a, s₁) ∧ f a s₁ = some (b, s') := by
  rw [Parse.bind_apply, Option.bind_eq_some_iff]
  exact Prod.exists

theorem shrinks_pure (a : α) : Shrinks (pure a) := by
  intro s b s' h
  obtain ⟨rfl, rfl⟩ : a = b ∧ s = s' := by simpa [Parse.pure_apply] using h
  exact ⟨s.rest, rfl, Nat.le_refl _⟩

theorem shrinks_reject : Shrinks (Parse.reject : Parse α) := fun _ _ _ h => nomatch h

theorem shrinks_bind {p : Parse α} {f : α → Parse β} (hp : Shrinks p) (hf : ∀ a, Shrinks (f a)) :
    Shrinks (p >>= f) := by
  intro s b s' h
  obtain ⟨a, s₁, hs₁, h⟩ := Parse.bind_eq_some.mp h
  obtain ⟨rest, rfl, hrest⟩ := hp s a s₁ hs₁
  obtain ⟨rest', rfl, hrest'⟩ := hf a _ b s' h
  exact ⟨rest', rfl, Nat.le_trans hrest' hrest⟩

end

theorem shrinks_take (n : Nat) : Shrinks (Parse.take n) := by
  intro s b s' h
  rw [Parse.take] at h
  split_ifs at h
  obtain ⟨rfl, rfl⟩ := Prod.mk.inj (Option.some.inj h)
  exact ⟨_, rfl, by rw [List.length_drop]; omega⟩

theorem groupsFrom_length : ∀ {bs rest : Bytes} {shift value v : Nat},
    Parse.groupsFrom shift value bs = some (v, rest) → rest.length < bs.length
  | [], _, _, _, _, h => nomatch h
  | b :: bs, rest, shift, value, v, h => by
      rw [Parse.groupsFrom] at h
      split_ifs at h
      · obtain ⟨rfl, rfl⟩ := Prod.mk.inj (Option.some.inj h)
        exact Nat.lt_succ_self _
      · exact Nat.lt_succ_of_lt (groupsFrom_length h)

theorem shrinks_encodedLong : Shrinks Parse.encodedLong := by
  intro s v s' h
  obtain ⟨⟨w, rest⟩, hg, h⟩ := Option.map_eq_some_iff.mp h
  obtain ⟨rfl, rfl⟩ := Prod.mk.inj h
  exact ⟨rest, rfl, Nat.le_of_lt (groupsFrom_length hg)⟩

theorem shrinks_long (length : Nat) : Shrinks (Parse.long length) := by
  rw [Parse.long]
  split
  · exact shrinks_reject
  · exact shrinks_bind (shrinks_take length) fun _ => shrinks_pure _

/-- A header takes a byte at least. -/
theorem header_takes {s s' : Rest} {h : Header} (hread : Parse.header s = some (h, s')) :
    ∃ rest, s' = { s with rest := rest } ∧ rest.length < s.rest.length := by
  obtain ⟨b, s₁, hbyte, hread⟩ := Parse.bind_eq_some.mp hread
  rw [Parse.byte] at hbyte
  split at hbyte
  · cases hbyte
  · next b' tail htail =>
    obtain ⟨rfl, rfl⟩ := Prod.mk.inj (Option.some.inj hbyte)
    have hlong : ∀ length, Shrinks (do return (⟨b'.toNat &&& 7, ← Parse.long length⟩ : Header)) := fun length =>
      shrinks_bind (shrinks_long length) fun _ => shrinks_pure _
    have hrest : Shrinks (do
        if b'.toNat >>> 3 ≥ 31 then
          let length ← Parse.encodedLong
          return (⟨b'.toNat &&& 7, ← Parse.long length⟩ : Header)
        else if b'.toNat >>> 3 > 22 then
          return ⟨b'.toNat &&& 7, ← Parse.long (b'.toNat >>> 3 - 22)⟩
        else
          return ⟨b'.toNat &&& 7, b'.toNat >>> 3⟩) := by
      split_ifs
      · exact shrinks_bind shrinks_encodedLong hlong
      · exact hlong _
      · exact shrinks_pure _
    obtain ⟨rest, rfl, hle⟩ := hrest _ h s' hread
    refine ⟨rest, rfl, ?_⟩
    rw [htail]
    exact Nat.lt_succ_of_le hle

theorem countOn_same {i : Nat} {s s' : Rest} {a : Unit} (h : Parse.countOn i s = some (a, s')) : s' = s := by
  rw [Parse.countOn] at h
  split_ifs at h
  exact (Prod.mk.inj (Option.some.inj h)).2.symm

namespace Low
variable {opened : List Nat} {total : Nat} {s : Rest}

theorem mono (h : Low opened total s) {total' : Nat} (hle : total ≤ total') : Low opened total' s :=
  ⟨h.recursive, Nat.le_trans h.rest hle, fun i o ho hi => Nat.le_trans (h.cache i o ho hi) hle⟩

theorem shrink (h : Low opened total s) {rest : Bytes} (hle : rest.length ≤ s.rest.length) :
    Low opened total { s with rest := rest } :=
  ⟨h.recursive, Nat.le_trans hle h.rest, fun i o ho hi =>
    Nat.le_trans (Nat.add_le_add_left hle _) (h.cache i o ho hi)⟩

/-- A byte taken is a byte for a part to be lower by. -/
theorem take (h : Low opened (total + 1) s) {rest : Bytes} (hlt : rest.length < s.rest.length) :
    Low opened total { s with rest := rest } := by
  refine ⟨h.recursive, ?_, fun i o ho hi => ?_⟩
  · have hrest := h.rest
    show rest.length ≤ total
    omega
  · have hcache := h.cache i o ho hi
    show o.height + rest.length ≤ total
    omega

theorem remember (h : Low opened total s) {o : UObject} (ho : o.height + s.rest.length ≤ total) :
    Low opened total (Parse.remember s o) := by
  refine ⟨h.recursive, h.rest, fun i o' ho' hi => ?_⟩
  rw [Parse.remember, cached] at ho'
  dsimp only at ho'
  split_ifs at ho'
  · by_cases hlt : i < s.cache.length
    · rw [List.getElem?_append_left hlt] at ho'
      exact h.cache i o' ho' hi
    · rw [List.getElem?_append_right (Nat.le_of_not_lt hlt)] at ho'
      obtain rfl := List.mem_singleton.mp (List.mem_of_getElem? ho')
      exact ho
  · exact h.cache i o' ho' hi

/-- A container that is open is not looked at. -/
theorem enter (h : Low opened total s) {empty : UObject} {index : Nat} {s' : Rest}
    (hrun : Parse.enter empty s = some (index, s')) : Low (index :: opened) total s' ∧ s'.rest = s.rest := by
  obtain ⟨rfl, rfl⟩ := Prod.mk.inj (Option.some.inj hrun)
  refine ⟨⟨?_, h.rest, fun i o ho hi => ?_⟩, rfl⟩
  · show (Parse.remember s empty).cache.length :: s.recursive = _
    rw [h.recursive]
  · obtain ⟨hnew, hi⟩ := not_or.mp fun hor => hi (List.mem_cons.mpr hor)
    have hold : s.cache[i]? = some o := by
      have hcache : (cached s.treeMode s.cache empty)[i]? = some o := ho
      have hne : i + 1 ≠ (cached s.treeMode s.cache empty).length := hnew
      have hlt := (List.getElem?_eq_some_iff.mp hcache).1
      cases htree : s.treeMode with
      | true =>
          rw [htree, cached, if_pos rfl] at hcache hne hlt
          rw [List.length_append, List.length_singleton] at hne hlt
          rwa [List.getElem?_append_left (by omega)] at hcache
      | false => rwa [htree] at hcache
    exact h.cache i o hold hi

theorem leave {index : Nat} (h : Low (index :: opened) total s) {o v : UObject} {s' : Rest}
    (ho : o.height + s.rest.length ≤ total + 1) (hrun : Parse.leave index o s = some (v, s')) :
    Low opened (total + 1) s' ∧ s'.rest = s.rest ∧ v = o := by
  obtain ⟨rfl, rfl⟩ := Prod.mk.inj (Option.some.inj hrun)
  refine ⟨⟨?_, Nat.le_succ_of_le h.rest, fun i v hv hi => ?_⟩, rfl, rfl⟩
  · show s.recursive.tail = opened
    rw [h.recursive]
    rfl
  · have hset : (s.cache.set (index - 1) o)[i]? = some v := hv
    by_cases hindex : index - 1 = i
    · subst hindex
      obtain ⟨hlt, -⟩ := List.getElem?_eq_some_iff.mp hset
      rw [List.length_set] at hlt
      rw [List.getElem?_set_self hlt] at hset
      obtain rfl := Option.some.inj hset
      exact ho
    · rw [List.getElem?_set_ne hindex] at hset
      refine Nat.le_succ_of_le (h.cache i v hset fun hin => ?_)
      rcases List.mem_cons.mp hin with rfl | hin
      · exact hindex (Nat.add_sub_cancel i 1)
      · exact hi hin

end Low

section
variable {opened : List Nat} {total : Nat}

theorem Reads.mono {before after after' : Nat} {p : Parse UObject} (h : Reads opened before after p)
    (hle : after ≤ after') : Reads opened before after' p := by
  intro s o s' hlow hrun
  obtain ⟨hlow', hrest, ho⟩ := h s o s' hlow hrun
  exact ⟨hlow'.mono hle, hrest, Nat.le_trans ho hle⟩

/-- A part of a value that has none of its own. -/
theorem reads_leaf {α : Type} {p : Parse α} (hp : Shrinks p) {make : α → UObject} (hmake : ∀ a, (make a).height = 1) :
    Reads opened total (total + 1) (do return make (← p)) := by
  intro s o s' hlow hrun
  obtain ⟨a, s₁, hpart, hrun⟩ := Parse.bind_eq_some.mp hrun
  obtain ⟨rfl, rfl⟩ := Prod.mk.inj (Option.some.inj hrun)
  obtain ⟨rest, rfl, hrest⟩ := hp s a s₁ hpart
  refine ⟨(hlow.mono (Nat.le_succ _)).shrink hrest, hrest, ?_⟩
  have htotal := hlow.rest
  rw [hmake]
  show 1 + rest.length ≤ total + 1
  omega

theorem reads_pure {o : UObject} (ho : o.height = 1) : Reads opened total (total + 1) (pure o) :=
  reads_leaf (shrinks_pure ()) fun _ => ho

theorem reads_reject {after : Nat} : Reads opened total after Parse.reject := fun _ _ _ _ h => nomatch h

theorem reads_blob {make : Bytes → UObject} (hmake : ∀ b, (make b).height = 1) (length : Nat) :
    Reads opened total (total + 1) (Parse.blob make length) := by
  intro s o s' hlow hrun
  obtain ⟨b, s₁, htake, hrun⟩ := Parse.bind_eq_some.mp hrun
  obtain ⟨rfl, rfl⟩ := Prod.mk.inj (Option.some.inj hrun)
  obtain ⟨rest, rfl, hrest⟩ := shrinks_take length s b s₁ htake
  have hheight : (make b).height + rest.length ≤ total + 1 := by
    have htotal := hlow.rest
    rw [hmake]
    omega
  exact ⟨((hlow.mono (Nat.le_succ _)).shrink hrest).remember hheight, hrest, hheight⟩

theorem reads_reference (value : Nat) : Reads opened total (total + 1) (Parse.reference value) := by
  intro s o s' hlow hrun
  rw [Parse.reference] at hrun
  split_ifs at hrun with hover hopen hzero
  · obtain ⟨rfl, rfl⟩ := Prod.mk.inj (Option.some.inj hrun)
    refine ⟨hlow.mono (Nat.le_succ _), Nat.le_refl _, ?_⟩
    have htotal := hlow.rest
    show 1 + s.rest.length ≤ total + 1
    omega
  · obtain ⟨rfl, rfl⟩ := Prod.mk.inj (Option.some.inj hrun)
    refine ⟨hlow.mono (Nat.le_succ _), Nat.le_refl _, Nat.le_succ_of_le ?_⟩
    have hlt : value - 1 < s.cache.length := by omega
    refine hlow.cache (value - 1) _ ?_ ?_
    · rw [List.getD_eq_getElem?_getD, List.getElem?_eq_getElem hlt]
      rfl
    · rw [Nat.sub_add_cancel (Nat.pos_of_ne_zero hzero), ← hlow.recursive]
      exact hopen

section
variable {next : Parse UObject} (hnext : ∀ opened total, Reads opened total total next)
include hnext

theorem reads_extra (code : Int) : Reads opened total (total + 1) (Parse.extra next code) := by
  unfold Parse.extra
  split
  case h_6 => exact reads_leaf shrinks_encodedLong fun _ => rfl
  case h_7 =>
    intro s o s' hlow hrun
    refine (hnext opened total).mono (Nat.le_succ _) { s with cache := [], treeMode := false } o s' ?_ hrun
    exact ⟨hlow.recursive, hlow.rest, fun i o ho _ => nomatch ho⟩
  case h_8 => exact reads_leaf (shrinks_take 8) fun _ => rfl
  case h_9 => exact reads_reject
  all_goals exact reads_pure rfl

theorem reads_items : ∀ (count i : Nat) {s s' : Rest} {xs : List UObject}, Low opened total s →
    Parse.items next count i s = some (xs, s') →
    Low opened total s' ∧ s'.rest.length ≤ s.rest.length ∧ ∀ x ∈ xs, x.height + s'.rest.length ≤ total
  | 0, _, s, s', xs, hlow, hrun => by
      obtain ⟨rfl, rfl⟩ := Prod.mk.inj (Option.some.inj hrun)
      exact ⟨hlow, Nat.le_refl _, by simp⟩
  | count + 1, i, s, s', xs, hlow, hrun => by
      obtain ⟨x, s₁, hx, hrun⟩ := Parse.bind_eq_some.mp hrun
      obtain ⟨_, t, hcount, hrun⟩ := Parse.bind_eq_some.mp hrun
      rw [countOn_same hcount] at hrun
      obtain ⟨ys, s₂, hys, hrun⟩ := Parse.bind_eq_some.mp hrun
      obtain ⟨rfl, rfl⟩ := Prod.mk.inj (Option.some.inj hrun)
      obtain ⟨hlow₁, hrest₁, hheight⟩ := hnext opened total s x s₁ hlow hx
      obtain ⟨hlow₂, hrest₂, hheights⟩ := reads_items count (i + 1) hlow₁ hys
      refine ⟨hlow₂, Nat.le_trans hrest₂ hrest₁, fun y hy => ?_⟩
      rcases List.mem_cons.mp hy with rfl | hy
      · exact Nat.le_trans (Nat.add_le_add_left hrest₂ _) hheight
      · exact hheights y hy

theorem reads_entries : ∀ (count i : Nat) (es : List (Bytes × UObject)) {s s' : Rest} {fs : List (Bytes × UObject)},
    Low opened total s → (∀ e ∈ es, e.2.height + s.rest.length ≤ total) →
    Parse.entries next count i es s = some (fs, s') →
    Low opened total s' ∧ s'.rest.length ≤ s.rest.length ∧ ∀ e ∈ fs, e.2.height + s'.rest.length ≤ total
  | 0, _, es, s, s', fs, hlow, hes, hrun => by
      obtain ⟨rfl, rfl⟩ := Prod.mk.inj (Option.some.inj hrun)
      exact ⟨hlow, Nat.le_refl _, hes⟩
  | count + 1, i, es, s, s', fs, hlow, hes, hrun => by
      obtain ⟨key, s₁, hkey, hrun⟩ := Parse.bind_eq_some.mp hrun
      obtain ⟨hlow₁, hrest₁, -⟩ := hnext opened total s key s₁ hlow hkey
      cases key with
      | string k =>
          obtain ⟨v, s₂, hv, hrun⟩ := Parse.bind_eq_some.mp hrun
          obtain ⟨_, t, hcount, hrun⟩ := Parse.bind_eq_some.mp hrun
          rw [countOn_same hcount] at hrun
          obtain ⟨hlow₂, hrest₂, hheight⟩ := hnext opened total s₁ v s₂ hlow₁ hv
          have hset : ∀ e ∈ UObject.set k v es, e.2.height + s₂.rest.length ≤ total := by
            intro e he
            rcases mem_set he with rfl | he
            · exact hheight
            · have hold := hes e he
              omega
          obtain ⟨hlow₃, hrest₃, hheights⟩ := reads_entries count (i + 1) _ hlow₂ hset hrun
          exact ⟨hlow₃, by omega, hheights⟩
      | _ => exact nomatch hrun

theorem reads_array (h : Header) : Reads opened total (total + 1) (Parse.array next h) := by
  intro s o s' hlow hrun
  obtain ⟨index, s₁, henter, hrun⟩ := Parse.bind_eq_some.mp hrun
  obtain ⟨xs, s₂, hxs, hrun⟩ := Parse.bind_eq_some.mp hrun
  obtain ⟨hlow₁, hrest₁⟩ := hlow.enter henter
  obtain ⟨hlow₂, hrest₂, hheights⟩ := reads_items hnext h.value 0 hlow₁ hxs
  have hheight : (UObject.array xs).height + s₂.rest.length ≤ total + 1 := by
    have hitems : heightItems xs ≤ total - s₂.rest.length := heightItems_le.mpr fun x hx =>
      Nat.le_sub_of_add_le (hheights x hx)
    have htotal := hlow₂.rest
    rw [height]
    omega
  obtain ⟨hlow', hrest', rfl⟩ := hlow₂.leave hheight hrun
  rw [hrest', ← hrest₁]
  exact ⟨hlow', hrest₂, hheight⟩

theorem reads_binder (h : Header) : Reads opened total (total + 1) (Parse.binder next h) := by
  intro s o s' hlow hrun
  obtain ⟨index, s₁, henter, hrun⟩ := Parse.bind_eq_some.mp hrun
  obtain ⟨es, s₂, hes, hrun⟩ := Parse.bind_eq_some.mp hrun
  obtain ⟨hlow₁, hrest₁⟩ := hlow.enter henter
  obtain ⟨hlow₂, hrest₂, hheights⟩ := reads_entries hnext h.value 0 [] hlow₁ (by simp) hes
  have hheight : (UObject.binder es).height + s₂.rest.length ≤ total + 1 := by
    have hentries : heightEntries es ≤ total - s₂.rest.length := heightEntries_le.mpr fun e he =>
      Nat.le_sub_of_add_le (hheights e he)
    have htotal := hlow₂.rest
    rw [height]
    omega
  obtain ⟨hlow', hrest', rfl⟩ := hlow₂.leave hheight hrun
  rw [hrest', ← hrest₁]
  exact ⟨hlow', hrest₂, hheight⟩

theorem reads_value : ∀ h : Header, Reads opened total (total + 1) (Parse.value next h)
  | ⟨TYPE_INT, _⟩ | ⟨TYPE_NINT, _⟩ => reads_pure rfl
  | ⟨TYPE_BIN, _⟩ | ⟨TYPE_TEXT, _⟩ => reads_blob (fun _ => rfl) _
  | ⟨TYPE_LIST, _⟩ => reads_array hnext _
  | ⟨TYPE_DICT, _⟩ => reads_binder hnext _
  | ⟨TYPE_CREF, _⟩ => reads_reference _
  | ⟨TYPE_EXTRA, _⟩ => reads_extra hnext _
  | ⟨_ + 8, _⟩ => reads_reject

end

/-- A value is no higher than the bytes it and the values before it take. -/
theorem reads_object : ∀ (room : Nat) (opened : List Nat) (total : Nat),
    Reads opened total total (Parse.object room)
  | 0, _, _ => fun _ _ _ _ h => nomatch h
  | room + 1, opened, total => by
      intro s o s' hlow hrun
      obtain ⟨h, s₁, hheader, hrun⟩ := Parse.bind_eq_some.mp hrun
      obtain ⟨rest, rfl, hlt⟩ := header_takes hheader
      obtain ⟨total, rfl⟩ : ∃ total', total = total' + 1 := by
        have htotal := hlow.rest
        exact ⟨total - 1, by omega⟩
      obtain ⟨hlow', hrest, hheight⟩ := reads_value (reads_object room) h _ o s' (hlow.take hlt) hrun
      exact ⟨hlow', Nat.le_trans hrest (Nat.le_of_lt hlt), hheight⟩

end

/-! ### The calls of a reader -/

/-- So many values. -/
def Parse.values (room : Nat) : Nat → Parse (List UObject)
  | 0 => pure []
  | calls + 1 => do
      let o ← Parse.object room
      return o :: (← Parse.values room calls)

section
variable (process : Process) {room : Nat}

/-- What a call returns is what was read. -/
theorem readObject_object {s s' : Reader} {o : UObject} (h : s.Within)
    (hrun : Reader.readObject process room s = .ok o s') :
    Parse.object room s.rest = some (o, s'.rest) ∧ s'.Within := by
  obtain ⟨v, s₁, hget, hfinish⟩ := Comp.bind_eq_ok.mp hrun
  obtain ⟨rfl, trace, rfl⟩ := leaves_finish (leaves_deserialize process room) v s₁ o s' hfinish
  have hrefines := get_refines room s h
  rw [hget] at hrefines
  exact hrefines

/-- A value without type names is returned, where there is room for it. -/
theorem object_readObject {s : Reader} {o : UObject} {r : Rest} (h : s.Within)
    (hparse : Parse.object room s.rest = some (o, r)) (huntyped : o.All Untyped) (hheight : o.height ≤ room) :
    ∃ s', Reader.readObject process room s = .ok o s' ∧ s'.rest = r ∧ s'.Within := by
  have hrefines := get_refines room s h
  rw [hparse] at hrefines
  cases hget : Reader.get room s with
  | ok v s₁ =>
      rw [hget] at hrefines
      obtain ⟨heq, hwithin⟩ := hrefines
      obtain ⟨rfl, rfl⟩ := Prod.mk.inj (Option.some.inj heq)
      obtain ⟨trace, hfinish⟩ := returns_finish (returns_deserialize process huntyped hheight) s₁
      exact ⟨_, Comp.bind_eq_ok.mpr ⟨o, s₁, hget, hfinish⟩, rfl, hwithin⟩
  | throw e s₁ => rw [hget] at hrefines; exact nomatch hrefines
  | crash k s₁ => rw [hget] at hrefines; exact nomatch hrefines

theorem readObjects_values : ∀ (calls : Nat) {s s' : Reader} {os : List UObject}, s.Within →
    readObjects process room calls s = .ok os s' →
    Parse.values room calls s.rest = some (os, s'.rest) ∧ s'.Within
  | 0, s, s', os, h, hrun => by
      obtain ⟨rfl, rfl⟩ := Comp.pure_eq_ok.mp hrun
      exact ⟨rfl, h⟩
  | calls + 1, s, s', os, h, hrun => by
      obtain ⟨o, s₁, ho, hrun⟩ := Comp.bind_eq_ok.mp hrun
      obtain ⟨os', s₂, hos, hrun⟩ := Comp.bind_eq_ok.mp hrun
      obtain ⟨rfl, rfl⟩ := Comp.pure_eq_ok.mp hrun
      obtain ⟨hobject, h₁⟩ := readObject_object process h ho
      obtain ⟨hvalues, h₂⟩ := readObjects_values calls h₁ hos
      exact ⟨Parse.bind_eq_some.mpr ⟨o, _, hobject, Parse.bind_eq_some.mpr ⟨os', _, hvalues, rfl⟩⟩, h₂⟩

theorem values_readObjects {total : Nat} (hroom : total ≤ room) : ∀ (calls : Nat) {s : Reader} {r : Rest}
    {os : List UObject}, s.Within → Low [] total s.rest → (∀ o ∈ os, o.All Untyped) →
    Parse.values room calls s.rest = some (os, r) →
    ∃ s', readObjects process room calls s = .ok os s' ∧ s'.rest = r ∧ s'.Within
  | 0, s, r, os, h, _, _, hparse => by
      obtain ⟨rfl, rfl⟩ := Prod.mk.inj (Option.some.inj hparse)
      exact ⟨s, rfl, rfl, h⟩
  | calls + 1, s, r, os, h, hlow, huntyped, hparse => by
      obtain ⟨o, r₁, hobject, hparse⟩ := Parse.bind_eq_some.mp hparse
      obtain ⟨os', r₂, hvalues, hparse⟩ := Parse.bind_eq_some.mp hparse
      obtain ⟨rfl, rfl⟩ := Prod.mk.inj (Option.some.inj hparse)
      obtain ⟨hlow₁, -, hheight⟩ := reads_object room [] total _ o r₁ hlow hobject
      obtain ⟨s₁, ho, rfl, h₁⟩ := object_readObject process h hobject (huntyped o (List.mem_cons_self ..))
        (by omega)
      obtain ⟨s₂, hos, rfl, h₂⟩ := values_readObjects hroom calls h₁ hlow₁
        (fun v hv => huntyped v (List.mem_cons_of_mem _ hv)) hvalues
      exact ⟨s₂, Comp.bind_eq_ok.mpr ⟨o, s₁, ho, Comp.bind_eq_ok.mpr ⟨os', s₂, hos, rfl⟩⟩, rfl, h₂⟩

end
end Universa.Boss
