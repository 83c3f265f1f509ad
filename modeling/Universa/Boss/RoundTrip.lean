import Universa.Boss.Deserialized
import Universa.Boss.Reread

/-! A whole dump read by one reader: `ReadsBack` is the round trip as the reader's calls give it. The
    reader returns the values exactly when `rereadAll` does on the buffer the writer filled, and
    when that buffer is shorter than `2 ^ 32` bytes: a longer one loses its tail in `getBytes`, and
    a parser that accepted the head would have accepted it with the tail left over (`Extends`). -/

namespace Universa.Boss
open Wire UObject

/-! ### The parser sees only what it takes -/

def Rest.more (s : Rest) (x : Bytes) : Rest := { s with rest := s.rest ++ x }

/-- What `p` accepts `q` accepts too, any bytes after the input being left over. -/
def Extends {α : Type} (p q : Parse α) : Prop :=
  ∀ s x a s', p s = some (a, s') → q (s.more x) = some (a, s'.more x)

theorem extends_pure {α : Type} (a : α) : Extends (pure a : Parse α) (pure a) := by
  intro s x b s' h
  obtain ⟨rfl, rfl⟩ : a = b ∧ s = s' := by simpa [Parse.pure_apply] using h
  rfl

theorem extends_reject {α : Type} : Extends (Parse.reject : Parse α) Parse.reject :=
  fun _ _ _ _ h => nomatch h

theorem extends_bind {α β : Type} {p q : Parse α} {f g : α → Parse β} (hp : Extends p q)
    (hf : ∀ a, Extends (f a) (g a)) : Extends (p >>= f) (q >>= g) := by
  intro s x b s' h
  rw [Parse.bind_apply] at h
  obtain ⟨⟨a, s₁⟩, hs₁, h⟩ := Option.bind_eq_some_iff.mp h
  rw [Parse.bind_apply, hp s x a s₁ hs₁]
  exact hf a s₁ x b s' h

theorem extends_update {f : Rest → Rest} (h : ∀ s x, (f s).more x = f (s.more x)) :
    Extends (Parse.update f) (Parse.update f) := by
  intro s x a s' hs
  obtain rfl : f s = s' := congrArg Prod.snd (Option.some.inj hs)
  rw [h]
  rfl

theorem extends_byte : Extends Parse.byte Parse.byte := by
  intro s x b s' h
  rw [Parse.byte] at h
  split at h
  · cases h
  · next b' rest hrest =>
    obtain ⟨rfl, rfl⟩ := Prod.mk.inj (Option.some.inj h)
    rw [byte_cons (show (s.more x).rest = _ by rw [Rest.more, hrest, List.cons_append])]
    rfl

theorem extends_take (n : Nat) : Extends (Parse.take n) (Parse.take n) := by
  intro s x b s' h
  rw [Parse.take] at h
  split at h
  · next hn =>
    obtain ⟨rfl, rfl⟩ := Prod.mk.inj (Option.some.inj h)
    have hle : n ≤ (s.more x).rest.length := by
      rw [Rest.more, List.length_append]
      omega
    rw [Parse.take, if_pos hle]
    simp [Rest.more, List.take_append_of_le_length hn, List.drop_append_of_le_length hn]
  · cases h

theorem groupsFrom_more : ∀ {bs x : Bytes} {shift value v : Nat} {rest : Bytes},
    Parse.groupsFrom shift value bs = some (v, rest) →
    Parse.groupsFrom shift value (bs ++ x) = some (v, rest ++ x)
  | [], _, _, _, _, _, h => nomatch h
  | b :: bs, x, shift, value, v, rest, h => by
      rw [Parse.groupsFrom] at h
      rw [List.cons_append, Parse.groupsFrom]
      split_ifs at h ⊢
      · obtain ⟨rfl, rfl⟩ := Prod.mk.inj (Option.some.inj h)
        rfl
      · exact groupsFrom_more h

theorem extends_encodedLong : Extends Parse.encodedLong Parse.encodedLong := by
  intro s x v s' h
  obtain ⟨⟨w, rest⟩, hg, h⟩ := Option.map_eq_some_iff.mp h
  obtain ⟨rfl, rfl⟩ := Prod.mk.inj h
  show (Parse.groupsFrom 0 0 (s.rest ++ x)).map _ = _
  rw [groupsFrom_more hg]
  rfl

theorem extends_long (length : Nat) : Extends (Parse.long length) (Parse.long length) := by
  rw [Parse.long]
  split
  · exact extends_reject
  · exact extends_bind (extends_take length) fun _ => extends_pure _

theorem extends_header : Extends Parse.header Parse.header := by
  refine extends_bind extends_byte fun b => ?_
  have hlong : ∀ length, Extends (do return (⟨b.toNat &&& 7, ← Parse.long length⟩ : Header))
      (do return (⟨b.toNat &&& 7, ← Parse.long length⟩ : Header)) := fun length =>
    extends_bind (extends_long length) fun _ => extends_pure _
  dsimp only
  split
  · exact extends_bind extends_encodedLong hlong
  · split
    · exact hlong _
    · exact extends_pure _

theorem extends_enter (o : UObject) : Extends (Parse.enter o) (Parse.enter o) := by
  intro s x index s' h
  obtain ⟨rfl, rfl⟩ := Prod.mk.inj (Option.some.inj h)
  rfl

theorem extends_leave (index : Nat) (o : UObject) :
    Extends (Parse.leave index o) (Parse.leave index o) := by
  intro s x a s' h
  obtain ⟨rfl, rfl⟩ := Prod.mk.inj (Option.some.inj h)
  rfl

theorem extends_countOn (i : Nat) : Extends (Parse.countOn i) (Parse.countOn i) := by
  intro s x a s' h
  rw [Parse.countOn] at h ⊢
  split_ifs at h ⊢
  obtain ⟨rfl, rfl⟩ := Prod.mk.inj (Option.some.inj h)
  rfl

theorem extends_blob (make : Bytes → UObject) (length : Nat) :
    Extends (Parse.blob make length) (Parse.blob make length) :=
  extends_bind (extends_take length) fun _ =>
    extends_bind (extends_update fun _ _ => rfl) fun _ => extends_pure _

theorem extends_reference (value : Nat) :
    Extends (Parse.reference value) (Parse.reference value) := by
  intro s x a s' h
  rw [Parse.reference] at h ⊢
  show (if value ≠ 0 ∧ value > s.cache.length then none else
    if value ∈ s.recursive then none else _) = _
  split_ifs at h ⊢
  · obtain ⟨rfl, rfl⟩ := Prod.mk.inj (Option.some.inj h)
    rfl
  · obtain ⟨rfl, rfl⟩ := Prod.mk.inj (Option.some.inj h)
    rfl

section
variable {p q : Parse UObject} (h : Extends p q)
include h

theorem extends_extra (code : Int) : Extends (Parse.extra p code) (Parse.extra q code) := by
  unfold Parse.extra
  split
  case h_6 => exact extends_bind extends_encodedLong fun _ => extends_pure _
  case h_7 => exact extends_bind (extends_update fun _ _ => rfl) fun _ => h
  case h_8 => exact extends_bind (extends_take 8) fun _ => extends_pure _
  case h_9 => exact extends_reject
  all_goals exact extends_pure _

theorem extends_items : ∀ count i, Extends (Parse.items p count i) (Parse.items q count i)
  | 0, _ => extends_pure _
  | count + 1, i =>
      extends_bind h fun _ => extends_bind (extends_countOn i) fun _ =>
        extends_bind (extends_items count (i + 1)) fun _ => extends_pure _

theorem extends_entries : ∀ count i es,
    Extends (Parse.entries p count i es) (Parse.entries q count i es)
  | 0, _, es => extends_pure es
  | count + 1, i, es => by
      refine extends_bind h fun key => ?_
      cases key with
      | string s =>
          exact extends_bind h fun value => extends_bind (extends_countOn i) fun _ =>
            extends_entries count (i + 1) _
      | _ => exact extends_reject

theorem extends_value : ∀ hd : Header, Extends (Parse.value p hd) (Parse.value q hd)
  | ⟨TYPE_INT, _⟩ | ⟨TYPE_NINT, _⟩ => extends_pure _
  | ⟨TYPE_BIN, _⟩ => extends_blob _ _
  | ⟨TYPE_TEXT, _⟩ => extends_blob _ _
  | ⟨TYPE_LIST, _⟩ =>
      extends_bind (extends_enter _) fun _ =>
        extends_bind (extends_items h _ _) fun _ => extends_leave _ _
  | ⟨TYPE_DICT, _⟩ =>
      extends_bind (extends_enter _) fun _ =>
        extends_bind (extends_entries h _ _ _) fun _ => extends_leave _ _
  | ⟨TYPE_CREF, _⟩ => extends_reference _
  | ⟨TYPE_EXTRA, _⟩ => extends_extra h _
  | ⟨_ + 8, _⟩ => extends_reject

end

/-- More bytes at the end and more room change nothing. -/
theorem extends_object : ∀ {room room' : Nat}, room ≤ room' →
    Extends (Parse.object room) (Parse.object room')
  | 0, _, _ => fun _ _ _ _ h => nomatch h
  | _ + 1, _ + 1, h =>
      extends_bind extends_header fun hd =>
        extends_value (extends_object (Nat.le_of_succ_le_succ h)) hd

theorem extends_values {room room' : Nat} (h : room ≤ room') : ∀ calls,
    Extends (Parse.values room calls) (Parse.values room' calls)
  | 0 => extends_pure _
  | calls + 1 =>
      extends_bind (extends_object h) fun _ =>
        extends_bind (extends_values h calls) fun _ => extends_pure _

/-! ### Round trips -/

section
variable (process : Process)

/-- One reader over the bytes, on a stack with room for the nested calls, returns the values call
    by call, and ends as `ends` says. -/
def ReadsBack (ends : Reader → Prop) (data : Bytes) (objs : List UObject) : Prop :=
  ∀ room, data.length < room →
    ∃ s, readObjects process room objs.length (Reader.new data) = .ok objs s ∧ ends s

/-- `BossSerializer::dump`, then `readObject` once per element: the elements, up to the last byte. -/
def RoundTrips (objs : List UObject) : Prop :=
  ∃ data, dump objs = some data ∧ ReadsBack process (fun s => s.pos = s.size) data objs

/-- `setStreamMode`, `writeObject` for each value, then `readObject` once per value. -/
def StreamRoundTrips (objs : List UObject) : Prop :=
  ∃ data, dumpStream objs = some data ∧ ReadsBack process (fun _ => True) data objs

theorem new_rest {data : Bytes} (h : data.length < 2 ^ 32) :
    (Reader.new data).rest = { rest := data } ∧ (Reader.new data).Within := by
  have hnew : Reader.new data = { bin := data } := by
    rw [Reader.new, Nat.mod_eq_of_lt h, List.take_length]
  rw [hnew]
  exact ⟨rfl, h, Nat.zero_le _⟩

/-- Reading back is what the parser says of it. -/
theorem readsBack_iff {data : Bytes} (h : data.length < 2 ^ 32) {ends : Reader → Prop}
    {left : Bytes → Prop} (hends : ∀ s : Reader, s.Within → (ends s ↔ left s.rest.rest))
    {objs : List UObject} (huntyped : ∀ o ∈ objs, o.All Untyped) :
    ReadsBack process ends data objs ↔ ∀ room, data.length < room →
      ∃ s, Parse.values room objs.length { rest := data } = some (objs, s) ∧ left s.rest := by
  obtain ⟨hrest, hwithin⟩ := new_rest h
  refine forall_congr' fun room => imp_congr_right fun hroom => ?_
  rw [← hrest]
  constructor
  · rintro ⟨s, hrun, hs⟩
    obtain ⟨hparse, hs'⟩ := readObjects_values process objs.length hwithin hrun
    exact ⟨s.rest, hparse, (hends s hs').mp hs⟩
  · rintro ⟨r, hparse, hs⟩
    -- no value is higher than the bytes are many
    have hlow : Low [] data.length (Reader.new data).rest := by
      rw [hrest]
      exact ⟨rfl, Nat.le_refl _, fun i o ho _ => nomatch ho⟩
    obtain ⟨s, hrun, rfl, hs'⟩ :=
      values_readObjects process (Nat.le_of_lt hroom) objs.length hwithin hlow huntyped hparse
    exact ⟨s, hrun, (hends s hs').mpr hs⟩

theorem ends_iff (s : Reader) (h : s.Within) : s.pos = s.size ↔ s.rest.rest = [] := by
  obtain ⟨-, hpos⟩ := h
  rw [← List.length_eq_zero_iff, rest_length]
  omega

/-! ### From the buffer to what is read back -/

/-- Each value read back. -/
def rereadAll (treeMode : Bool) (keys : List CachedObject) (cache : List UObject) :
    List UObject → Option (List UObject × List UObject)
  | [] => some ([], cache)
  | o :: os =>
      (reread treeMode [] keys cache o).bind fun r =>
        (rereadAll treeMode (put treeMode keys o).2 r.2 os).map fun q => (r.1 :: q.1, q.2)

theorem values_put : ∀ (objs : List UObject) (s : Rest) (keys : List CachedObject)
    (post : Bytes) (room : Nat), s.recursive = [] → keys.length = s.cache.length →
    keys.length + (putItems s.treeMode keys objs).1.length < 2 ^ 64 →
    (putItems s.treeMode keys objs).1.length ≤ room →
    s.rest = (putItems s.treeMode keys objs).1 ++ post →
    Parse.values room objs.length s = s.after post (rereadAll s.treeMode keys s.cache objs)
  | [], s, keys, post, _, _, _, _, _, h => by
      have hrest : s.rest = post := h
      subst hrest
      rfl
  | o :: os, s, keys, post, room, hopen, hsync, hsize, hroom, h => by
      rw [putItems] at h hsize hroom
      rw [List.append_assoc] at h
      rw [List.length_append] at hsize hroom
      have hgrow := put_grows s.treeMode o keys
      have ho := object_put o s keys _ room hsync (by omega) (by omega) h
      rw [List.length_cons, Parse.values, Parse.bind_apply, ho, rereadAll, hopen]
      cases hr : reread s.treeMode [] keys s.cache o with
      | none => rfl
      | some r =>
          have hsync' := reread_sync s.treeMode o hsync hr
          have hos := values_put os { s with
              rest := (putItems s.treeMode (put s.treeMode keys o).2 os).1 ++ post
              cache := r.2 } (put s.treeMode keys o).2 post room hopen hsync'
            (by dsimp only; omega) (by dsimp only; omega) rfl
          simp only [Rest.after, Option.map_some, Option.bind_some, Parse.bind_apply, hos, Option.map_map]
          cases rereadAll s.treeMode (put s.treeMode keys o).2 r.2 os <;> rfl

/-- What `getBytes` keeps of a buffer reads back when it keeps all of it and the parser, which
    needs all of it, gives the values. -/
theorem readsBack_getBytes {ends : Reader → Prop} (left : Bytes → Prop) (s₀ : Rest)
    (hends : ∀ s : Reader, s.Within → (ends s ↔ left s.rest.rest)) (hleft : left [])
    {buf : Bytes} {objs : List UObject} (huntyped : ∀ o ∈ objs, o.All Untyped)
    {r : Option (List UObject × List UObject)} (hparse : ∀ room, buf.length < room →
      Parse.values room objs.length { rest := buf } = s₀.after [] r) :
    ReadsBack process ends (getBytes buf) objs ↔
      buf.length < 2 ^ 32 ∧ ∃ cache, r = some (objs, cache) := by
  have hlen : (getBytes buf).length < 2 ^ 32 := by
    rw [getBytes, List.length_take]
    omega
  rw [readsBack_iff process hlen hends huntyped]
  constructor
  · intro h
    -- what was cut off would be left over by the parser on the whole buffer
    have hroom : (getBytes buf).length < buf.length + 1 := by
      rw [getBytes, List.length_take]
      omega
    obtain ⟨s, hs, -⟩ := h (buf.length + 1) hroom
    have hmore := extends_values (Nat.le_refl _) objs.length _
      (buf.drop (buf.length % 2 ^ 32)) objs s hs
    have hwhole : Rest.more { rest := getBytes buf } (buf.drop (buf.length % 2 ^ 32))
        = { rest := buf } := by
      rw [Rest.more, getBytes, List.take_append_drop]
    rw [hwhole, hparse _ (Nat.lt_succ_self _)] at hmore
    obtain ⟨⟨os, cache⟩, hr, heq⟩ := Option.map_eq_some_iff.mp hmore
    obtain ⟨rfl, hrest⟩ := Prod.mk.inj heq
    have hnil : s.rest ++ buf.drop (buf.length % 2 ^ 32) = [] := (congrArg Rest.rest hrest).symm
    have hdrop := List.drop_eq_nil_iff.mp (List.append_eq_nil_iff.mp hnil).2
    exact ⟨by omega, cache, hr⟩
  · rintro ⟨hsize, cache, rfl⟩ room hroom
    have hkeep : getBytes buf = buf := by
      rw [getBytes, Nat.mod_eq_of_lt hsize, List.take_length]
    rw [hkeep] at hroom ⊢
    exact ⟨_, hparse room hroom, hleft⟩

/-- A dump round-trips when it fits and each value is read back as itself. -/
theorem roundTrips_iff {objs : List UObject} (huntyped : ∀ o ∈ objs, o.All Untyped) : RoundTrips process objs ↔
    objs.length < 2 ^ 31 ∧ (writeObjects true [] objs).1.length < 2 ^ 32 ∧
      ∃ cache, rereadAll true [] [] objs = some (objs, cache) := by
  have hbuf : (writeObjects true [] objs).1.length < 2 ^ 64 →
      (ReadsBack process (fun s => s.pos = s.size) (getBytes (writeObjects true [] objs).1) objs ↔
        (writeObjects true [] objs).1.length < 2 ^ 32 ∧
          ∃ cache, rereadAll true [] [] objs = some (objs, cache)) := by
    intro hsize
    have hput : (writeObjects true [] objs).1 = (putItems true [] objs).1 := by
      rw [writeObjects_eq_putItems]
    rw [hput] at hsize ⊢
    exact readsBack_getBytes process (· = []) _ ends_iff rfl huntyped fun room hroom =>
      values_put objs { rest := (putItems true [] objs).1 } [] [] room rfl rfl
        (by simpa using hsize) (Nat.le_of_lt hroom) (List.append_nil _).symm
  constructor
  · rintro ⟨data, hdump, hback⟩
    rw [dump, packed] at hdump
    split_ifs at hdump with hcount hsize
    obtain rfl := Option.some.inj hdump
    exact ⟨hcount, (hbuf hsize).mp hback⟩
  · rintro ⟨hcount, hsize, hr⟩
    have hsize' : (writeObjects true [] objs).1.length < 2 ^ 64 := by omega
    exact ⟨_, by rw [dump, if_pos hcount, packed, if_pos hsize'], (hbuf hsize').mpr ⟨hsize, hr⟩⟩

/-- The marker puts the reader in stream mode before the first value. -/
theorem values_marker {buf : Bytes} {o : UObject} {os : List UObject} {room : Nat}
    (hbuf : (putItems false [] (o :: os)).1 = buf) (hsize : buf.length < 2 ^ 64)
    (hroom : buf.length < room) :
    Parse.values room (o :: os).length
        { rest := writeHeader TYPE_EXTRA XT_STREAM_MODE ++ buf }
      = Parse.values room (o :: os).length { rest := buf, treeMode := false } := by
  obtain ⟨room, rfl⟩ : ∃ room', room = room' + 1 := ⟨room - 1, by omega⟩
  have hfirst : ∀ r, buf.length ≤ r →
      Parse.object r { rest := buf, treeMode := false }
        = Rest.after { rest := buf, treeMode := false } (putItems false (put false [] o).2 os).1
            (reread false [] [] [] o) := by
    intro r hr
    rw [putItems] at hbuf
    have hlen := congrArg List.length hbuf
    rw [List.length_append] at hlen
    exact object_put o { rest := buf, treeMode := false } [] _ r rfl
      (by dsimp only; rw [List.length_nil]; omega) (by dsimp only; omega) hbuf.symm
  have hmarker : Parse.object (room + 1)
        { rest := writeHeader TYPE_EXTRA XT_STREAM_MODE ++ buf }
      = Parse.object (room + 1) { rest := buf, treeMode := false } := by
    rw [object_extra (by norm_num) rfl, hfirst (room + 1) (by omega), ← hfirst room (by omega)]
    rfl
  rw [List.length_cons, Parse.values, Parse.bind_apply, Parse.bind_apply, hmarker]

/-- A stream round-trips when it fits and each value is read back as itself. -/
theorem streamRoundTrips_iff {objs : List UObject} (huntyped : ∀ o ∈ objs, o.All Untyped) :
    StreamRoundTrips process objs ↔
    (writeHeader TYPE_EXTRA XT_STREAM_MODE ++ (writeObjects false [] objs).1).length < 2 ^ 32 ∧
      ∃ cache, rereadAll false [] [] objs = some (objs, cache) := by
  have hput : (writeObjects false [] objs).1 = (putItems false [] objs).1 := by
    rw [writeObjects_eq_putItems]
  have hbuf : (writeHeader TYPE_EXTRA XT_STREAM_MODE ++ (writeObjects false [] objs).1).length
        < 2 ^ 64 →
      (ReadsBack process (fun _ => True)
        (getBytes (writeHeader TYPE_EXTRA XT_STREAM_MODE ++ (writeObjects false [] objs).1)) objs ↔
        (writeHeader TYPE_EXTRA XT_STREAM_MODE ++ (writeObjects false [] objs).1).length < 2 ^ 32 ∧
          ∃ cache, rereadAll false [] [] objs = some (objs, cache)) := by
    intro hsize
    rw [hput] at hsize ⊢
    rw [List.length_append] at hsize
    cases objs with
    | nil =>
        refine iff_of_true (fun room _ => ⟨_, rfl, trivial⟩) ⟨?_, [], rfl⟩
        decide
    | cons o os =>
        refine readsBack_getBytes process (fun _ => True)
          { rest := (putItems false [] (o :: os)).1, treeMode := false } (fun _ _ => Iff.rfl)
          trivial huntyped fun room hroom => ?_
        rw [List.length_append] at hroom
        rw [values_marker rfl (by omega) (by omega)]
        exact values_put (o :: os)
          { rest := (putItems false [] (o :: os)).1, treeMode := false } [] [] room rfl rfl
          (by dsimp only; rw [List.length_nil]; omega) (by dsimp only; omega)
          (List.append_nil _).symm
  constructor
  · rintro ⟨data, hdump, hback⟩
    rw [dumpStream, packed] at hdump
    split_ifs at hdump with hsize
    obtain rfl := Option.some.inj hdump
    exact (hbuf hsize).mp hback
  · rintro ⟨hsize, hr⟩
    have hsize' := lt_trans hsize (show 2 ^ 32 < 2 ^ 64 by norm_num)
    exact ⟨_, by rw [dumpStream, packed, if_pos hsize'], (hbuf hsize').mpr ⟨hsize, hr⟩⟩

end
end Universa.Boss
