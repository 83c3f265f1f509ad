import Universa.Boss.BaseSerializer

/-! Safety of the BOSS reader on any bytes. `Safe` is what is wanted of a run: every read lies inside
    the buffer, the position only grows and stays inside, and control comes back by a return or an
    exception. `Step.Fits` looks at a step before it is taken: the sums the code compares do not
    wrap, the loop counter does not, the stack has room, an address is as long as its mark says, and
    no modulus of a key is zero. A run is safe exactly when all its steps fit: the reader keeps `Inv`
    as long as they do, and it crashes at the first that does not. -/

namespace Universa.Boss
open Wire UObject Crypto

/-! ### The property and the condition -/

/-- The bytes a step reads, from its position on. -/
def Step.length (step : Step) : Nat :=
  match step.kind with
  | .byte => 1
  | .binary value => value % 2 ^ 32
  | .text value => value
  | .double => 8
  | _ => 0

/-- The additions a step makes do not wrap in the width the code gives them: 32 bits for a byte and
    a double, 64 for a length, 31 for a loop counter; a nested call and arrays find room; an address
    without a mask has a first byte, another one its digest and its code; both factors differ from 1,
    and the first from 0. -/
def StepKind.Fits : StepKind → Nat → Prop
  | .byte, pos => pos + 1 < 2 ^ 32
  | .binary value, pos => pos + value < 2 ^ 64
  | .text _, _ => True
  | .double, pos => pos + 8 < 2 ^ 32
  | .next i, _ => i + 1 < 2 ^ 31
  | .call room, _ => 0 < room
  | .arrays size room, _ => size ≤ room
  | .address packed, _ => packed ≠ [] ∧
      (KeyAddress.maskOf packed = 0 ∨ hashsize (KeyAddress.longOf packed) + 5 ≤ packed.length)
  | .factors p q, _ => p ≠ 0 ∧ p ≠ 1 ∧ q ≠ 1
  | .inner kind pos, _ => kind.Fits pos

def Step.Fits (step : Step) : Prop := step.kind.Fits step.pos

/-- A run that reads only inside the buffer, never moves back or past the end, and comes back. -/
structure Safe {α : Type} (run : Outcome String Crash Reader α) : Prop where
  inside : ∀ step ∈ run.state.trace, step.pos + step.length ≤ run.state.size
  forward : (run.state.pos :: run.state.trace.map (·.pos)).Pairwise (· ≥ ·)
  within : ∀ pos ∈ run.state.pos :: run.state.trace.map (·.pos), pos ≤ run.state.size
  ended : run.Ended

/-! ### The invariant -/

/-- What holds of the reader between two steps while all its steps fit. -/
structure Inv (s : Reader) : Prop where
  size_lt : s.size < 2 ^ 32
  pos_le : s.pos ≤ s.size
  inside : ∀ step ∈ s.trace, step.pos + step.length ≤ s.size
  fits : ∀ step ∈ s.trace, step.Fits
  forward : (s.pos :: s.trace.map (·.pos)).Pairwise (· ≥ ·)

/-- What holds where a run crashed: some step did not fit. -/
def Unfit (s : Reader) : Prop := ∃ step ∈ s.trace, ¬ step.Fits

theorem unfit_note {s : Reader} {kind : StepKind} (h : ¬ Step.Fits ⟨kind, s.pos⟩) :
    Unfit (s.note kind) := ⟨⟨kind, s.pos⟩, by simp [Reader.note], h⟩

namespace Inv

theorem of_eq {s s' : Reader} (h : Inv s) (hbin : s'.bin = s.bin) (hpos : s'.pos = s.pos)
    (htrace : s'.trace = s.trace) : Inv s' := by
  obtain ⟨h₁, h₂, h₃, h₄, h₅⟩ := h
  refine ⟨?_, ?_, ?_, ?_, ?_⟩ <;> simpa only [Reader.size, hbin, hpos, htrace] using ‹_›

/-- A step that fits and reads inside the buffer may be taken. -/
theorem note {s : Reader} (h : Inv s) {kind : StepKind} (hfits : Step.Fits ⟨kind, s.pos⟩)
    (hin : s.pos + Step.length ⟨kind, s.pos⟩ ≤ s.size) : Inv (s.note kind) := by
  refine ⟨h.size_lt, h.pos_le, ?_, ?_, ?_⟩
  · intro step hstep
    rcases List.mem_cons.mp hstep with rfl | hold
    · exact hin
    · exact h.inside step hold
  · intro step hstep
    rcases List.mem_cons.mp hstep with rfl | hold
    · exact hfits
    · exact h.fits step hold
  · show (s.pos :: s.pos :: s.trace.map (·.pos)).Pairwise (· ≥ ·)
    refine List.pairwise_cons.mpr ⟨?_, h.forward⟩
    intro p hp
    rcases List.mem_cons.mp hp with rfl | hold
    · exact Nat.le_refl _
    · exact (List.pairwise_cons.mp h.forward).1 p hold

/-- The position may move on inside the buffer. -/
theorem advance {s : Reader} (h : Inv s) {pos : Nat} (hle : s.pos ≤ pos) (hin : pos ≤ s.size) :
    Inv { s with pos := pos } := by
  refine ⟨h.size_lt, hin, h.inside, h.fits, ?_⟩
  obtain ⟨hhead, htail⟩ := List.pairwise_cons.mp h.forward
  refine List.pairwise_cons.mpr ⟨?_, htail⟩
  intro p hp
  exact Nat.le_trans (hhead p hp) hle

/-- All the positions of a reader in the invariant are inside the buffer. -/
theorem within {s : Reader} (h : Inv s) :
    ∀ pos ∈ s.pos :: s.trace.map (·.pos), pos ≤ s.size := by
  intro p hp
  rcases List.mem_cons.mp hp with rfl | hold
  · exact h.pos_le
  · exact Nat.le_trans ((List.pairwise_cons.mp h.forward).1 p hold) h.pos_le

end Inv

abbrev Kept {α : Type} (m : Read α) : Prop := Comp.Keeps Inv Unfit m

/-! ### Reading bytes -/

theorem readByte_kept : Kept readByte := by
  intro s h
  have hsize := h.size_lt
  have hpos := h.pos_le
  rw [readByte]
  by_cases hover : (s.pos + 1) % 2 ^ 32 > s.size
  · rw [if_pos hover]
    exact h
  rw [if_neg hover]
  cases hb : s.bin[s.pos]? with
  | some b =>
      obtain ⟨hlt, -⟩ := List.getElem?_eq_some_iff.mp hb
      have hlt : s.pos < s.size := hlt
      have hmod : (s.pos + 1) % 2 ^ 32 = s.pos + 1 := Nat.mod_eq_of_lt (by omega)
      have hnoted : Inv (s.note .byte) := h.note (by simp only [Step.Fits, StepKind.Fits]; omega) hlt
      rw [hmod]
      exact hnoted.advance (Nat.le_succ _) hlt
  | none =>
      -- the position is the size, and only a wrapped sum passed the check
      have hge : s.size ≤ s.pos := List.getElem?_eq_none_iff.mp hb
      refine unfit_note ?_
      simp only [Step.Fits, StepKind.Fits]
      omega

/-- A byte read moves the position on by one. -/
theorem readByte_ok {s s' : Reader} {b : UInt8} (h : Inv s) (hb : readByte s = .ok b s') :
    s'.bin = s.bin ∧ s'.pos = s.pos + 1 ∧ s.pos < s.size := by
  have hsize := h.size_lt
  rw [readByte] at hb
  split at hb
  · simp at hb
  cases hget : s.bin[s.pos]? with
  | none => simp [hget] at hb
  | some b' =>
      obtain ⟨hlt, -⟩ := List.getElem?_eq_some_iff.mp hget
      have hlt : s.pos < s.size := hlt
      simp only [hget, Outcome.ok.injEq] at hb
      obtain ⟨-, rfl⟩ := hb
      exact ⟨rfl, Nat.mod_eq_of_lt (by omega), hlt⟩

/-- The loop comes back: it has more turns than the buffer has bytes. -/
theorem encodedLoop_kept : ∀ (fuel shift value : Nat) (s : Reader), Inv s →
    s.size - s.pos < fuel → (encodedLoop fuel shift value s).Keeps Inv Unfit
  | 0, _, _, _, _, hfuel => absurd hfuel (Nat.not_lt_zero _)
  | fuel + 1, shift, value, s, h, hfuel => by
      rw [encodedLoop]
      refine Comp.keeps_bind_at (readByte_kept s h) fun b s' hb h' => ?_
      obtain ⟨hbin, hpos, hlt⟩ := readByte_ok h hb
      have hleft : s'.size - s'.pos < fuel := by
        have : s'.size = s.size := by rw [Reader.size, hbin, Reader.size]
        omega
      split
      · exact h'
      · exact encodedLoop_kept fuel (shift + 7) _ s' h' hleft

theorem readEncodedLong_kept : Kept readEncodedLong := fun s h =>
  encodedLoop_kept (s.size - s.pos + 1) 0 0 s h (Nat.lt_succ_self _)

theorem longLoop_kept : ∀ length n res, Kept (longLoop length n res)
  | 0, _, res => Comp.keeps_pure res
  | length + 1, n, res => by
      rw [longLoop]
      exact Comp.keeps_bind readByte_kept fun b => longLoop_kept length (n + 8) _

theorem readLong_kept (length : Nat) : Kept (readLong length) := by
  rw [readLong]
  split
  · exact Comp.keeps_fail _
  · exact longLoop_kept _ _ _

theorem readHeader_kept : Kept readHeader := by
  refine Comp.keeps_bind readByte_kept fun b => ?_
  have hlong : ∀ length, Kept (do return (⟨b.toNat &&& 7, ← readLong length⟩ : Header)) :=
    fun length => Comp.keeps_bind (readLong_kept length) fun v => Comp.keeps_pure _
  dsimp only
  split
  · exact Comp.keeps_bind readEncodedLong_kept hlong
  · split
    · exact hlong _
    · exact Comp.keeps_pure _

/-- The bytes joined below bit `n` and the ones to come stay below their width. -/
theorem longLoop_lt : ∀ {length n res : Nat} {s s' : Reader} {r : Nat}, res < 2 ^ n →
    longLoop length n res s = .ok r s' → r < 2 ^ (n + 8 * length)
  | 0, _, _, _, _, _, hres, h => by
      obtain ⟨rfl, -⟩ := Comp.pure_eq_ok.mp h
      simpa using hres
  | length + 1, n, res, s, s', r, hres, h => by
      obtain ⟨b, s₁, -, h⟩ := Comp.bind_eq_ok.mp h
      have hb : b.toNat + 1 ≤ 2 ^ 8 := b.toNat_lt
      have hnext : res ||| b.toNat <<< n < 2 ^ (n + 8) := by
        have := Nat.mul_le_mul_right (2 ^ n) hb
        rw [or_shift _ hres, pow_add]
        linarith
      have := longLoop_lt hnext h
      rwa [show n + 8 + 8 * length = n + 8 * (length + 1) by ring] at this

theorem readLong_lt {length : Nat} {s s' : Reader} {r : Nat}
    (h : readLong length s = .ok r s') : r < 2 ^ 64 := by
  rw [readLong] at h
  split at h
  · simp [Comp.fail] at h
  · have := longLoop_lt (by norm_num) h
    exact lt_of_lt_of_le this (Nat.pow_le_pow_right (by norm_num) (by omega))

/-- Header values are 64-bit. -/
theorem readHeader_lt {s s' : Reader} {h : Header} (hh : readHeader s = .ok h s') :
    h.value < 2 ^ 64 := by
  obtain ⟨b, s₁, -, hh⟩ := Comp.bind_eq_ok.mp hh
  have hlong : ∀ {length s₂}, (do return (⟨b.toNat &&& 7, ← readLong length⟩ : Header) : Read _) s₂
      = .ok h s' → h.value < 2 ^ 64 := by
    intro length s₂ hr
    obtain ⟨v, s₃, hv, hr⟩ := Comp.bind_eq_ok.mp hr
    obtain ⟨rfl, -⟩ := Comp.pure_eq_ok.mp hr
    exact readLong_lt hv
  split at hh
  · obtain ⟨length, s₂, -, hr⟩ := Comp.bind_eq_ok.mp hh
    exact hlong hr
  · split at hh
    · exact hlong hh
    · obtain ⟨rfl, -⟩ := Comp.pure_eq_ok.mp hh
      show b.toNat >>> 3 < 2 ^ 64
      omega

/-! ### The cache and the counters -/

/-- Caching touches neither the buffer nor the position nor the trace. -/
theorem Inv.cacheObject {s : Reader} (h : Inv s) (o : UObject) : Inv (s.cacheObject o) := by
  rw [Reader.cacheObject]
  split
  · exact h.of_eq rfl rfl rfl
  · exact h

theorem openContainer_kept (o : UObject) : Kept (openContainer o) :=
  Comp.keeps_bind (Comp.keeps_modify fun _ h => h.cacheObject o) fun _ =>
    Comp.keeps_bind Comp.keeps_read fun _ =>
      Comp.keeps_bind (Comp.keeps_modify fun _ h => h.of_eq rfl rfl rfl) fun _ =>
        Comp.keeps_pure _

theorem closeContainer_kept (index : Nat) (o : UObject) : Kept (closeContainer index o) :=
  Comp.keeps_bind (Comp.keeps_modify fun _ h => h.of_eq rfl rfl rfl) fun _ => Comp.keeps_pure _

theorem setStreamMode_kept : Kept setStreamMode :=
  Comp.keeps_modify fun _ h => h.of_eq rfl rfl rfl

theorem countOn_kept (i : Nat) : Kept (countOn i) := by
  intro s h
  rw [countOn]
  by_cases hi : i + 1 < 2 ^ 31
  · rw [if_pos hi]
    exact h.note hi h.pos_le
  · rw [if_neg hi]
    exact unfit_note hi

/-! ### Values -/

/-- Caching leaves the position where it was. -/
theorem cacheObject_pos (s : Reader) (o : UObject) : (s.cacheObject o).pos = s.pos := by
  rw [Reader.cacheObject]
  split <;> rfl

theorem cacheObject_bin (s : Reader) (o : UObject) : (s.cacheObject o).bin = s.bin := by
  rw [Reader.cacheObject]
  split <;> rfl

/-- A step that reads up to `pos`, caching what it read. -/
theorem Inv.take {s : Reader} (h : Inv s) (kind : StepKind) (o : UObject)
    (hfits : Step.Fits ⟨kind, s.pos⟩) (hin : s.pos + Step.length ⟨kind, s.pos⟩ ≤ s.size)
    {pos : Nat} (hpos : pos = s.pos + Step.length ⟨kind, s.pos⟩) :
    Inv { (s.note kind).cacheObject o with pos := pos } := by
  have hcached : Inv ((s.note kind).cacheObject o) := (h.note hfits hin).cacheObject o
  refine hcached.advance ?_ ?_
  · rw [cacheObject_pos, hpos]
    exact Nat.le_add_right _ _
  · rw [Reader.size, cacheObject_bin, hpos]
    exact hin

theorem readBinary_kept {value : Nat} (hvalue : value < 2 ^ 64) : Kept (readBinary value) := by
  intro s h
  have hsize := h.size_lt
  have hpos := h.pos_le
  rw [readBinary]
  by_cases hover : (s.pos + value) % 2 ^ 64 > s.size
  · rw [if_pos hover]
    exact h
  rw [if_neg hover]
  by_cases hin : s.pos + value % 2 ^ 32 ≤ s.size
  · rw [if_pos hin]
    -- a wrapped sum would need more than the low 32 bits of the length leave room for
    have hfits : s.pos + value < 2 ^ 64 := by
      omega
    refine h.take (.binary value) _ hfits hin ?_
    simp only [Step.length]
    omega
  · rw [if_neg hin]
    refine unfit_note fun hfits => hin ?_
    simp only [Step.Fits, StepKind.Fits] at hfits
    omega

theorem readText_kept (value : Nat) : Kept (readText value) := by
  intro s h
  have hsize := h.size_lt
  rw [readText]
  by_cases hover : (s.pos + value) % 2 ^ 64 > s.size
  · rw [if_pos hover]
    exact h
  rw [if_neg hover]
  by_cases hfits : s.pos + value < 2 ^ 64
  · rw [if_pos hfits]
    have hsum : (s.pos + value) % 2 ^ 64 = s.pos + value := Nat.mod_eq_of_lt hfits
    refine h.take (.text value) _ trivial ?_ ?_
    · show s.pos + value ≤ s.size
      omega
    · show (s.pos + value) % 2 ^ 32 = s.pos + value
      omega
  · rw [if_neg hfits]
    exact h

theorem readDouble_kept : Kept readDouble := by
  intro s h
  have hsize := h.size_lt
  have hpos := h.pos_le
  rw [readDouble]
  by_cases hover : (s.pos + 8) % 2 ^ 32 > s.size
  · rw [if_pos hover]
    exact h
  rw [if_neg hover]
  by_cases hin : s.pos + 8 ≤ s.size
  · rw [if_pos hin]
    have hmod : (s.pos + 8) % 2 ^ 32 = s.pos + 8 := Nat.mod_eq_of_lt (by omega)
    rw [hmod]
    have hnoted : Inv (s.note .double) := h.note (by simp only [Step.Fits, StepKind.Fits]; omega) hin
    exact hnoted.advance (Nat.le_add_right _ _) hin
  · rw [if_neg hin]
    refine unfit_note ?_
    simp only [Step.Fits, StepKind.Fits]
    omega

theorem readReference_kept (value : Nat) : Kept (readReference value) := by
  intro s h
  rw [readReference]
  split_ifs <;> exact h

section
variable {next : Read UObject} (hnext : Kept next)
include hnext

theorem parseExtra_kept (code : Int) : Kept (parseExtra next code) := by
  unfold parseExtra
  split
  case h_6 => exact Comp.keeps_bind readEncodedLong_kept fun _ => Comp.keeps_pure _
  case h_7 => exact Comp.keeps_bind setStreamMode_kept fun _ => hnext
  case h_8 => exact readDouble_kept
  case h_9 => exact Comp.keeps_fail _
  all_goals exact Comp.keeps_pure _

theorem readItems_kept : ∀ count i, Kept (readItems next count i)
  | 0, _ => Comp.keeps_pure _
  | count + 1, i => by
      refine Comp.keeps_bind hnext fun x => Comp.keeps_bind (countOn_kept i) fun _ => ?_
      exact Comp.keeps_bind (readItems_kept count (i + 1)) fun _ => Comp.keeps_pure _

theorem readEntries_kept : ∀ count i es, Kept (readEntries next count i es)
  | 0, _, es => Comp.keeps_pure es
  | count + 1, i, es => by
      refine Comp.keeps_bind hnext fun key => ?_
      cases key with
      | string s =>
          refine Comp.keeps_bind hnext fun value => Comp.keeps_bind (countOn_kept i) fun _ => ?_
          exact readEntries_kept count (i + 1) _
      | _ => exact Comp.keeps_fail _

theorem readArray_kept (h : Header) : Kept (readArray next h) :=
  Comp.keeps_bind (openContainer_kept _) fun index =>
    Comp.keeps_bind (readItems_kept hnext _ _) fun _ => closeContainer_kept index _

theorem readBinder_kept (h : Header) : Kept (readBinder next h) :=
  Comp.keeps_bind (openContainer_kept _) fun index =>
    Comp.keeps_bind (readEntries_kept hnext _ _ _) fun _ => closeContainer_kept index _

theorem readValue_kept {h : Header} (hvalue : h.value < 2 ^ 64) : Kept (readValue next h) := by
  rw [readValue]
  split
  · exact Comp.keeps_pure _
  · exact Comp.keeps_pure _
  · exact readBinary_kept hvalue
  · exact readText_kept _
  · exact readArray_kept hnext h
  · exact readBinder_kept hnext h
  · exact readReference_kept _
  · exact parseExtra_kept hnext _
  · exact Comp.keeps_fail _

end

/-- One step of the recursion: a call of `get` keeps the invariant when the nested calls do. -/
theorem get_kept : ∀ room, Kept (Reader.get room)
  | 0 => fun _ _ => unfit_note (by simp [Step.Fits, StepKind.Fits])
  | room + 1 => by
      refine Comp.keeps_bind ?_ fun _ s hs => ?_
      · exact Comp.keeps_modify fun _ h => h.note (Nat.succ_pos room) h.pos_le
      · refine Comp.keeps_bind_at (readHeader_kept s hs) fun h s' hh hs' => ?_
        exact readValue_kept (get_kept room) (readHeader_lt hh) s' hs'

/-! ### Deserializing -/

theorem Inv.noteInner {s inner : Reader} (h : Inv s) (hinner : Inv inner) : Inv (s.noteInner inner.trace) := by
  have hpos : ∀ p ∈ (s.noteInner inner.trace).trace.map (·.pos), p = s.pos ∨ p ∈ s.trace.map (·.pos) := by
    intro p hp
    obtain ⟨step, hstep, rfl⟩ := List.mem_map.mp hp
    rcases List.mem_append.mp hstep with hnew | hold
    · obtain ⟨_, -, rfl⟩ := List.mem_map.mp hnew
      exact .inl rfl
    · exact .inr (List.mem_map_of_mem hold)
  obtain ⟨hhead, htail⟩ := List.pairwise_cons.mp h.forward
  refine ⟨h.size_lt, h.pos_le, ?_, ?_, ?_⟩
  · intro step hstep
    rcases List.mem_append.mp hstep with hnew | hold
    · obtain ⟨_, -, rfl⟩ := List.mem_map.mp hnew
      exact h.pos_le
    · exact h.inside step hold
  · intro step hstep
    rcases List.mem_append.mp hstep with hnew | hold
    · obtain ⟨old, hmem, rfl⟩ := List.mem_map.mp hnew
      exact hinner.fits old hmem
    · exact h.fits step hold
  · refine List.pairwise_cons.mpr ⟨fun p hp => ?_, ?_⟩
    · rcases hpos p hp with rfl | hold
      · exact Nat.le_refl _
      · exact hhead p hold
    · simp only [Reader.noteInner, List.map_append, List.map_map, List.pairwise_append]
      refine ⟨?_, htail, fun p hp q hq => ?_⟩
      · rw [List.pairwise_map]
        exact List.pairwise_of_forall fun _ _ => Nat.le_refl _
      · obtain ⟨_, -, rfl⟩ := List.mem_map.mp hp
        exact hhead q hq

theorem Unfit.noteInner {s inner : Reader} (h : Unfit inner) : Unfit (s.noteInner inner.trace) := by
  obtain ⟨step, hstep, hunfit⟩ := h
  exact ⟨_, List.mem_append_left _ (List.mem_map_of_mem hstep), hunfit⟩

theorem new_inv (data : Bytes) : Inv (Reader.new data) := by
  have hsize : (Reader.new data).size < 2 ^ 32 := by
    simp only [Reader.new, Reader.size, List.length_take]
    omega
  refine ⟨hsize, Nat.zero_le _, ?_, ?_, ?_⟩ <;> simp [Reader.new]

/-- What another reader keeps, this one keeps. -/
theorem readInner_kept {α : Type} {m : Read α} (hm : Kept m) (data : Bytes) : Kept (readInner m data) := by
  intro s h
  have hinner := hm _ (new_inv data)
  rw [readInner]
  cases hrun : m (Reader.new data) with
  | ok a inner => rw [hrun] at hinner; exact h.noteInner hinner
  | throw e inner => rw [hrun] at hinner; exact h.noteInner hinner
  | crash k inner => rw [hrun] at hinner; exact hinner.noteInner

theorem rethrow_kept {α : Type} {m : Read α} (hm : Kept m) (text : String) : Kept (rethrow text m) := by
  intro s h
  have hkept := hm s h
  rw [rethrow]
  cases hrun : m s with
  | ok a s' => rw [hrun] at hkept; exact hkept
  | throw e s' => rw [hrun] at hkept; exact hkept
  | crash k s' => rw [hrun] at hkept; exact hkept

section
variable (process : Process)

theorem initPublicKey_kept (e n : Bytes) : Kept (initPublicKey process e n) := by
  intro s h
  rw [initPublicKey]
  split
  · rename_i hroom
    exact h.note hroom h.pos_le
  · rename_i hroom
    exact unfit_note hroom

theorem initPrivateKey_kept (p q : Bytes) : Kept (initPrivateKey p q) := by
  intro s h
  rw [initPrivateKey]
  split
  · rename_i hfactors
    exact h.note hfactors h.pos_le
  · rename_i hfactors
    exact unfit_note hfactors

/-- An address is read outside of its bytes exactly where the step does not fit. -/
theorem keyAddress_kept (packed : Bytes) : Kept (keyAddress process packed) := by
  intro s h
  have hfits : StepKind.Fits (.address packed) s.pos ∨
      KeyAddress.ofPacked process.hashes packed = .error .outOfBounds ∧ ¬ StepKind.Fits (.address packed) s.pos := by
    by_cases hne : packed = []
    · exact .inr ⟨by rw [hne]; rfl, fun hfits => hfits.1 hne⟩
    · rw [KeyAddress.ofPacked_eq _ hne]
      by_cases hmask : KeyAddress.maskOf packed = 0
      · exact .inl ⟨hne, .inl hmask⟩
      · by_cases hlong : hashsize (KeyAddress.longOf packed) + 5 ≤ packed.length
        · exact .inl ⟨hne, .inr hlong⟩
        · exact .inr ⟨by rw [if_neg hmask, if_pos (Nat.not_le.mp hlong)], fun hfits => hfits.2.elim hmask hlong⟩
  rw [keyAddress]
  rcases hfits with hfits | ⟨hout, hunfit⟩
  · have hnoted : Inv (s.note (.address packed)) := h.note hfits h.pos_le
    have hin : KeyAddress.ofPacked process.hashes packed ≠ .error .outOfBounds := by
      rw [KeyAddress.ofPacked_eq _ hfits.1]
      rcases hfits.2 with hmask | hlong
      · rw [if_pos hmask]
        simp
      · split_ifs <;> simp
        omega
    split
    · exact hnoted
    · rename_i hout
      exact absurd hout hin
    · exact hnoted
  · rw [hout]
    exact unfit_note hunfit

theorem publicKey_kept {m : Read UObject} (hm : Kept m) (packed : Bytes) : Kept (publicKey process m packed) := by
  refine rethrow_kept (Comp.keeps_bind (readInner_kept hm packed) fun o => ?_) _
  refine Comp.keeps_bind (Comp.keeps_lift _) fun xs => Comp.keeps_bind (Comp.keeps_lift _) fun type => ?_
  split_ifs
  · exact Comp.keeps_fail _
  · exact Comp.keeps_bind (Comp.keeps_lift _) fun e => Comp.keeps_bind (Comp.keeps_lift _) fun n =>
      initPublicKey_kept process e n
  · exact Comp.keeps_fail _
  · exact Comp.keeps_fail _

theorem privateKey_kept {m : Read UObject} (hm : Kept m) (packed : Bytes) : Kept (privateKey m packed) := by
  refine rethrow_kept (Comp.keeps_bind (readInner_kept hm packed) fun o => ?_) _
  refine Comp.keeps_bind (Comp.keeps_lift _) fun xs => Comp.keeps_bind (Comp.keeps_lift _) fun type => ?_
  split_ifs
  · exact Comp.keeps_bind (Comp.keeps_lift _) fun _ => Comp.keeps_bind (Comp.keeps_lift _) fun p =>
      Comp.keeps_bind (Comp.keeps_lift _) fun q => initPrivateKey_kept p q
  · exact Comp.keeps_fail _
  · exact Comp.keeps_fail _
  · exact Comp.keeps_fail _

theorem composeObject_kept {m : Read UObject} (hm : Kept m) (type : Bytes) (data : List (Bytes × UObject)) :
    Kept (composeObject process m type data) := by
  unfold composeObject
  split_ifs
  · exact Comp.keeps_bind (Comp.keeps_lift _) fun _ => Comp.keeps_bind (Comp.keeps_lift _) fun _ =>
      Comp.keeps_pure _
  · exact Comp.keeps_bind (Comp.keeps_lift _) fun _ => Comp.keeps_pure _
  · exact Comp.keeps_bind (Comp.keeps_lift _) fun packed =>
      Comp.keeps_bind (keyAddress_kept process packed) fun _ => Comp.keeps_pure _
  · exact Comp.keeps_bind (Comp.keeps_lift _) fun packed =>
      Comp.keeps_bind (publicKey_kept process hm packed) fun _ => Comp.keeps_pure _
  · exact Comp.keeps_bind (Comp.keeps_lift _) fun packed =>
      Comp.keeps_bind (privateKey_kept hm packed) fun _ => Comp.keeps_pure _
  · exact Comp.keeps_bind (Comp.keeps_lift _) fun _ => Comp.keeps_pure _
  · exact Comp.keeps_pure _

theorem deserializeItems_kept {next : UObject → Read UObject} (hnext : ∀ o, Kept (next o))
    (xs : List UObject) : Kept (deserializeItems next xs) := by
  induction xs with
  | nil => exact Comp.keeps_pure _
  | cons x xs ih => exact Comp.keeps_bind (hnext x) fun _ => Comp.keeps_bind ih fun _ => Comp.keeps_pure _

theorem deserializeEntries_kept {next : UObject → Read UObject} (hnext : ∀ o, Kept (next o))
    (es : List (Bytes × UObject)) : Kept (deserializeEntries next es) := by
  induction es with
  | nil => exact Comp.keeps_pure _
  | cons e es ih => exact Comp.keeps_bind (hnext e.2) fun _ => Comp.keeps_bind ih fun _ => Comp.keeps_pure _

theorem finish_kept {next : UObject → Read UObject} (hnext : ∀ o, Kept (next o)) (o : UObject) :
    Kept (finish next o) := by
  cases o with
  | array xs => exact hnext _
  | binder es => exact hnext _
  | _ => exact Comp.keeps_pure _

/-- One step of the recursion: a call of `deserialize` keeps the invariant when the nested calls do. -/
theorem deserialize_kept : ∀ room o, Kept (deserialize process room o)
  | 0, _ => fun _ _ => unfit_note (by simp [Step.Fits, StepKind.Fits])
  | room + 1, o => by
      have ih := deserialize_kept room
      refine Comp.keeps_bind (Comp.keeps_modify fun _ h => h.note (Nat.succ_pos room) h.pos_le) fun _ => ?_
      cases o with
      | array xs => exact Comp.keeps_bind (deserializeItems_kept ih xs) fun _ => Comp.keeps_pure _
      | binder es =>
          refine Comp.keeps_bind (Comp.keeps_lift _) fun type => ?_
          split_ifs
          · exact Comp.keeps_bind (deserializeEntries_kept ih es) fun _ => Comp.keeps_pure _
          · exact composeObject_kept process (Comp.keeps_bind (get_kept room) (finish_kept ih)) type es
      | _ => exact Comp.keeps_pure _

theorem readObject_kept (room : Nat) : Kept (Reader.readObject process room) :=
  Comp.keeps_bind (get_kept room) (finish_kept (deserialize_kept process room))

theorem readCalls_kept (room : Nat) : ∀ calls, Kept (readCalls process room calls)
  | 0 => Comp.keeps_pure _
  | calls + 1 =>
      Comp.keeps_bind (Comp.keeps_catching (readObject_kept process room)) fun _ =>
        Comp.keeps_bind (readCalls_kept room calls) fun _ => Comp.keeps_pure _

/-- CODE DEFECT (safety): whatever the bytes, the stack and the number of calls, a reader stays inside its
    buffer, moves only forward and comes back exactly when no step of the run made a sum wrap, found the
    stack full, or took an address or a key that its class cannot take. -/
theorem readCalls_safe_iff (room calls : Nat) (data : Bytes) :
    Safe (readCalls process room calls (Reader.new data)) ↔
      ∀ step ∈ (readCalls process room calls (Reader.new data)).state.trace, step.Fits := by
  have h := readCalls_kept process room calls (Reader.new data) (new_inv data)
  cases hrun : readCalls process room calls (Reader.new data) with
  | ok a s =>
      rw [hrun] at h
      exact ⟨fun _ => h.fits, fun _ => ⟨h.inside, h.forward, h.within, trivial⟩⟩
  | throw e s =>
      rw [hrun] at h
      exact ⟨fun _ => h.fits, fun _ => ⟨h.inside, h.forward, h.within, trivial⟩⟩
  | crash k s =>
      rw [hrun] at h
      obtain ⟨step, hstep, hunfit⟩ := h
      exact ⟨fun hsafe => absurd hsafe.ended id, fun hall => absurd (hall step hstep) hunfit⟩

end

/-- Nine bytes are enough: a byte string of length `2 ^ 64 - 1`, added to position 9, wraps to 8 and
    passes the check, and its low 32 bits are copied. -/
theorem readCalls_unsafe :
    ¬ ∀ (process : Process) (room : Nat) (data : Bytes), data.length < room →
        Safe (readCalls process room 1 (Reader.new data)) := by
  intro h
  have hsafe := h ⟨KeyAddress.hashes2048, 2 ^ 20⟩ 10
    [0xF4, 0xFF, 0xFF, 0xFF, 0xFF, 0xFF, 0xFF, 0xFF, 0xFF] (by decide)
  have hread : ¬ (9 + (2 ^ 64 - 1) % 2 ^ 32 ≤ 9) := by decide
  exact hread (hsafe.inside ⟨.binary (2 ^ 64 - 1), 9⟩ (by decide))

end Universa.Boss
