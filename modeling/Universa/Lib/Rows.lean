import Mathlib.Data.Int.Notation
import Mathlib.Data.List.Forall2
import Mathlib.Data.List.Nodup

/-! Rows that objects in memory stand for. A table has rows with an owner and an expiry; a session holds the objects
    of one owner's rows, changes and destroys some, creates others, and saves what it noted. `read_save` says that
    what is read after a save are the objects as the session left them: those not destroyed, and the new ones.

    A time in an object is `unit` times finer than in a row, where it is cut; `join` says what an object has where a
    row has its payload, if anything. -/

namespace Universa.Rows

/-! ### Tables -/

/-- A row. -/
structure Row (α : Type) where
  id : ℕ
  owner : ℕ
  expiresAt : ℤ
  payload : α
  deriving DecidableEq

namespace Row
variable {α : Type}

/-- The row with another expiry, where it has the id. -/
def updated (id : ℕ) (expiresAt : ℤ) (r : Row α) : Row α := if r.id = id then { r with expiresAt } else r

@[simp] theorem updated_id (id : ℕ) (expiresAt : ℤ) (r : Row α) : (updated id expiresAt r).id = r.id := by
  unfold updated
  split <;> rfl

@[simp] theorem updated_owner (id : ℕ) (expiresAt : ℤ) (r : Row α) :
    (updated id expiresAt r).owner = r.owner := by
  unfold updated
  split <;> rfl

@[simp] theorem updated_payload (id : ℕ) (expiresAt : ℤ) (r : Row α) :
    (updated id expiresAt r).payload = r.payload := by
  unfold updated
  split <;> rfl

end Row

/-- A table with the next value of its sequence: ids are not zero, below it, and no two rows have one. -/
structure Table (α : Type) where
  rows : List (Row α)
  nextId : ℕ
  nodup : (rows.map Row.id).Nodup
  positive : ∀ r ∈ rows, 0 < r.id
  fresh : ∀ r ∈ rows, r.id < nextId
  nextPositive : 0 < nextId

namespace Table
variable {α : Type}

/-- `DELETE … WHERE id = ?`. -/
def delete (id : ℕ) (t : Table α) : Table α where
  rows := t.rows.filter fun r => r.id ≠ id
  nextId := t.nextId
  nodup := t.nodup.sublist (List.filter_sublist.map _)
  positive r hr := t.positive r (List.mem_of_mem_filter hr)
  fresh r hr := t.fresh r (List.mem_of_mem_filter hr)
  nextPositive := t.nextPositive

/-- `UPDATE … SET expires_at = ? WHERE id = ?`. -/
def setExpiresAt (id : ℕ) (expiresAt : ℤ) (t : Table α) : Table α where
  rows := t.rows.map (Row.updated id expiresAt)
  nextId := t.nextId
  nodup := by simpa [Function.comp_def] using t.nodup
  positive := by simpa using t.positive
  fresh := by simpa using t.fresh
  nextPositive := t.nextPositive

/-- `INSERT … RETURNING id`. -/
def insert (owner : ℕ) (expiresAt : ℤ) (payload : α) (t : Table α) : Table α where
  rows := t.rows ++ [⟨t.nextId, owner, expiresAt, payload⟩]
  nextId := t.nextId + 1
  nodup := by
    rw [List.map_append, List.nodup_append]
    refine ⟨t.nodup, by simp, fun a ha b hb => ?_⟩
    obtain ⟨r, hr, rfl⟩ := List.mem_map.mp ha
    obtain rfl : b = t.nextId := by simpa using hb
    exact Nat.ne_of_lt (t.fresh r hr)
  positive r hr := by
    rcases List.mem_append.mp hr with hr | hr
    · exact t.positive r hr
    · obtain rfl := List.mem_singleton.mp hr
      exact t.nextPositive
  fresh r hr := by
    rcases List.mem_append.mp hr with hr | hr
    · exact Nat.lt_succ_of_lt (t.fresh r hr)
    · obtain rfl := List.mem_singleton.mp hr
      exact Nat.lt_succ_self _
  nextPositive := Nat.succ_pos _

/-- `SELECT … WHERE owner = ?`. -/
def select (owner : ℕ) (t : Table α) : List (Row α) := t.rows.filter fun r => r.owner = owner

@[simp] theorem select_delete (id owner : ℕ) (t : Table α) :
    (t.delete id).select owner = (t.select owner).filter fun r => r.id ≠ id := by
  simp only [select, delete, List.filter_filter]
  congr 1
  funext r
  exact Bool.and_comm _ _

@[simp] theorem select_setExpiresAt (id : ℕ) (expiresAt : ℤ) (owner : ℕ) (t : Table α) :
    (t.setExpiresAt id expiresAt).select owner = (t.select owner).map (Row.updated id expiresAt) := by
  simp [select, setExpiresAt, List.filter_map, Function.comp_def]

@[simp] theorem select_insert (owner : ℕ) (expiresAt : ℤ) (payload : α) (t : Table α) :
    (t.insert owner expiresAt payload).select owner = t.select owner ++ [⟨t.nextId, owner, expiresAt, payload⟩] := by
  simp [select, insert]

theorem select_nodup (owner : ℕ) (t : Table α) : ((t.select owner).map Row.id).Nodup :=
  t.nodup.sublist (List.filter_sublist.map _)

end Table

/-! ### Sessions -/

/-- An object; its id is zero where it has no row yet. -/
structure Object (α : Type) where
  id : ℕ
  payload : α
  expiresAt : ℤ
  deriving DecidableEq

/-- The objects of a session: those that were read, those created, and the ids of those to save and to destroy. -/
structure Session (α : Type) where
  old : List (Object α)
  added : List (Object α)
  toSave : List ℕ
  toDestroy : List ℕ

/-- An object of the session: a read one by its id, a created one by its place. -/
inductive Ref where
  | old (id : ℕ)
  | added (place : ℕ)
  deriving DecidableEq

section
variable {α β : Type} (join : α → Option β) (unit : ℤ)

/-- The object that is read from a row. -/
def Row.object (r : Row α) : Option (Object β) := (join r.payload).map fun payload => ⟨r.id, payload, r.expiresAt * unit⟩

/-- The object with its time cut as a row has it. -/
def Object.whole (o : Object β) : Object β := { o with expiresAt := o.expiresAt / unit * unit }

/-- The objects of an owner. -/
def Table.read (owner : ℕ) (t : Table α) : List (Object β) := (t.select owner).filterMap (Row.object join unit)

namespace Session

/-- A session begins with what is read. -/
def start (old : List (Object β)) : Session β := ⟨old, [], [], []⟩

/-- Creating an object. -/
def create (payload : β) (expiresAt : ℤ) (s : Session β) : Session β :=
  { s with added := s.added ++ [⟨0, payload, expiresAt⟩] }

/-- Setting the expiry of an object; one that has a row is noted. -/
def setExpiresAt (expiresAt : ℤ) (s : Session β) : Ref → Session β
  | .old id => { s with old := s.old.map fun o => if o.id = id then { o with expiresAt } else o
                        toSave := id :: s.toSave }
  | .added place => { s with added := s.added.modify place fun o => { o with expiresAt } }

/-- Destroying an object, by the id it has. -/
def destroy (s : Session β) : Ref → Session β
  | .old id => { s with toDestroy := id :: s.toDestroy }
  | .added _ => { s with toDestroy := 0 :: s.toDestroy }

/-- The rows of what is to be destroyed go. -/
def saveDestroyed (s : Session β) (t : Table α) : Table α := s.toDestroy.foldl (fun t id => t.delete id) t

/-- The rows of what is to be saved get the new expiry. -/
def saveChanged (s : Session β) (t : Table α) : Table α :=
  (s.old.filter fun o => o.id ∈ s.toSave).foldl (fun t o => t.setExpiresAt o.id (o.expiresAt / unit)) t

/-- What was created gets rows. -/
def saveAdded (row : β → α) (owner : ℕ) (s : Session β) (t : Table α) : Table α :=
  s.added.foldl (fun t o => t.insert owner (o.expiresAt / unit) (row o.payload)) t

/-- The created objects with the ids they get. -/
def numbered (nextId : ℕ) : List (Object β) → List (Object β)
  | [] => []
  | o :: os => { o with id := nextId } :: numbered (nextId + 1) os

/-- What the session leaves: the old without the destroyed, and the added. -/
def left (nextId : ℕ) (s : Session β) : List (Object β) :=
  (s.old.filter fun o => o.id ∉ s.toDestroy) ++ numbered nextId s.added

/-- All that was read is destroyed, and nothing is created. -/
def Emptied (s : Session β) : Prop := (∀ o ∈ s.old, o.id ∈ s.toDestroy) ∧ s.added = []

/-! ### What a save leaves -/

theorem left_eq_nil {nextId : ℕ} {s : Session β} : s.left nextId = [] ↔ s.Emptied := by
  have hnumbered : numbered nextId s.added = [] ↔ s.added = [] := by
    cases s.added <;> simp [numbered]
  simp [left, Emptied, hnumbered]

theorem saveDestroyed_nextId (s : Session β) (t : Table α) : (s.saveDestroyed t).nextId = t.nextId := by
  unfold saveDestroyed
  induction s.toDestroy generalizing t with
  | nil => rfl
  | cons id ids ih => exact ih _

theorem saveChanged_nextId (s : Session β) (t : Table α) : (s.saveChanged unit t).nextId = t.nextId := by
  unfold saveChanged
  induction s.old.filter fun o => o.id ∈ s.toSave generalizing t with
  | nil => rfl
  | cons o os ih => exact ih _

theorem select_saveDestroyed (owner : ℕ) (s : Session β) (t : Table α) :
    (s.saveDestroyed t).select owner = (t.select owner).filter fun r => r.id ∉ s.toDestroy := by
  unfold saveDestroyed
  induction s.toDestroy generalizing t with
  | nil => simp
  | cons id ids ih =>
      rw [List.foldl_cons, ih, Table.select_delete, List.filter_filter]
      congr 1
      funext r
      simp [Bool.and_comm]

/-- A row with the new expiry of the object that it has, where this is among those to save. -/
def changed (unit : ℤ) (os : List (Object β)) (r : Row α) : Row α :=
  os.foldl (fun r o => r.updated o.id (o.expiresAt / unit)) r

theorem select_saveChanged (owner : ℕ) (s : Session β) (t : Table α) :
    (s.saveChanged unit t).select owner =
      (t.select owner).map (changed unit (s.old.filter fun o => o.id ∈ s.toSave)) := by
  unfold saveChanged
  induction s.old.filter fun o => o.id ∈ s.toSave generalizing t with
  | nil => exact (List.map_id _).symm
  | cons o os ih =>
      rw [List.foldl_cons, ih, Table.select_setExpiresAt, List.map_map]
      rfl

theorem read_saveAdded {row : β → α} (owner : ℕ) (s : Session β) (t : Table α)
    (hrow : ∀ o ∈ s.added, join (row o.payload) = some o.payload) :
    (s.saveAdded unit row owner t).read join unit owner =
      t.read join unit owner ++ (numbered t.nextId s.added).map (Object.whole unit) := by
  unfold saveAdded
  generalize s.added = os at hrow ⊢
  induction os generalizing t with
  | nil => simp [numbered]
  | cons o os ih =>
      rw [List.foldl_cons, ih _ fun o' ho' => hrow o' (List.mem_cons_of_mem _ ho'), Table.read, Table.select_insert]
      simp [Table.read, numbered, Table.insert, Row.object, Object.whole, hrow o (by simp)]

theorem changed_payload (os : List (Object β)) (r : Row α) : (changed unit os r).payload = r.payload := by
  unfold changed
  induction os generalizing r with
  | nil => rfl
  | cons o os ih => rw [List.foldl_cons, ih, Row.updated_payload]

/-- A row whose object is not to be saved stays. -/
theorem changed_of_not_mem {os : List (Object β)} {r : Row α} (h : ∀ o ∈ os, o.id ≠ r.id) : changed unit os r = r := by
  unfold changed
  induction os with
  | nil => rfl
  | cons o os ih =>
      have hne : ¬r.id = o.id := fun heq => h o (by simp) heq.symm
      rw [List.foldl_cons, Row.updated, if_neg hne]
      exact ih fun o' ho' => h o' (List.mem_cons_of_mem _ ho')

/-- A row whose object is to be saved gets its expiry. -/
theorem changed_of_mem {os : List (Object β)} {o : Object β} {r : Row α} (hnodup : (os.map Object.id).Nodup)
    (ho : o ∈ os) (hid : o.id = r.id) : changed unit os r = { r with expiresAt := o.expiresAt / unit } := by
  unfold changed
  induction os with
  | nil => simp at ho
  | cons o' os ih =>
      obtain ⟨hnot, hnodup⟩ := List.nodup_cons.mp hnodup
      rw [List.foldl_cons]
      rcases List.mem_cons.mp ho with rfl | ho
      · rw [Row.updated, if_pos hid.symm]
        refine changed_of_not_mem unit fun o' ho' heq => hnot ?_
        exact List.mem_map.mpr ⟨o', ho', heq.trans hid.symm⟩
      · have hne : ¬r.id = o'.id := by
          intro heq
          exact hnot (List.mem_map.mpr ⟨o, ho, hid.trans heq⟩)
        rw [Row.updated, if_neg hne]
        exact ih hnodup ho

/-! ### The objects stand for the rows -/

/-- An object stands for a row: but for an expiry that was set and is to be saved. -/
def StandsFor (toSave : List ℕ) (r : Row α) (o : Object β) : Prop :=
  o.id = r.id ∧ join r.payload = some o.payload ∧ (r.id ∉ toSave → o.expiresAt = r.expiresAt * unit)

/-- The owner's rows that have an object. -/
def joined (owner : ℕ) (t : Table α) : List (Row α) := (t.select owner).filter fun r => (join r.payload).isSome

/-- The read objects of a session stand for these rows, one by one. -/
def Tracks (owner : ℕ) (t : Table α) (s : Session β) : Prop :=
  List.Forall₂ (StandsFor join unit s.toSave) (joined join owner t) s.old

theorem tracks_start (owner : ℕ) (t : Table α) : Tracks join unit owner t (start (t.read join unit owner)) := by
  unfold Tracks start joined Table.read
  induction t.select owner with
  | nil => exact List.Forall₂.nil
  | cons r rs ih =>
      cases hjoin : join r.payload with
      | none => simpa [Row.object, hjoin] using ih
      | some payload =>
          simp only [List.filter_cons, hjoin, Option.isSome_some, if_true, List.filterMap_cons, Row.object,
            Option.map_some]
          exact List.Forall₂.cons ⟨rfl, hjoin, fun _ => rfl⟩ ih

variable {join} {unit} {owner : ℕ} {t : Table α} {s : Session β}

theorem tracks_destroy (h : Tracks join unit owner t s) (ref : Ref) : Tracks join unit owner t (s.destroy ref) := by
  cases ref <;> exact h

theorem tracks_setExpiresAt (h : Tracks join unit owner t s) (expiresAt : ℤ) (ref : Ref) :
    Tracks join unit owner t (s.setExpiresAt expiresAt ref) := by
  cases ref with
  | added place => exact h
  | old id =>
      show List.Forall₂ (StandsFor join unit (id :: s.toSave)) (joined join owner t)
        (s.old.map fun o => if o.id = id then { o with expiresAt } else o)
      rw [List.forall₂_map_right_iff]
      refine h.imp fun r o ho => ?_
      split
      · rename_i hid
        exact ⟨ho.1, ho.2.1, fun hnot => absurd (List.mem_cons.mpr (Or.inl (ho.1.symm.trans hid))) hnot⟩
      · exact ⟨ho.1, ho.2.1, fun hnot => ho.2.2 fun hmem => hnot (List.mem_cons_of_mem _ hmem)⟩

theorem ids_of_standsFor {toSave : List ℕ} {rs : List (Row α)} {os : List (Object β)}
    (h : List.Forall₂ (StandsFor join unit toSave) rs os) : os.map Object.id = rs.map Row.id := by
  induction h with
  | nil => rfl
  | cons hro _ ih => rw [List.map_cons, List.map_cons, hro.1, ih]

theorem nodup_of_tracks (h : Tracks join unit owner t s) : (s.old.map Object.id).Nodup :=
  ids_of_standsFor h ▸ (t.select_nodup owner).sublist (List.filter_sublist.map _)

/-- A row of a saved session becomes the object it stands for. -/
theorem object_changed (h : Tracks join unit owner t s) (hunit : unit ≠ 0) {r : Row α} {o : Object β} (ho : o ∈ s.old)
    (hro : StandsFor join unit s.toSave r o) :
    (changed unit (s.old.filter fun o => o.id ∈ s.toSave) r).object join unit = some (o.whole unit) := by
  obtain ⟨hid, hpayload, hkept⟩ := hro
  have hnodup := nodup_of_tracks h
  by_cases hsave : r.id ∈ s.toSave
  · have hmem : o ∈ s.old.filter fun o => o.id ∈ s.toSave :=
      List.mem_filter.mpr ⟨ho, decide_eq_true (hid ▸ hsave)⟩
    rw [changed_of_mem unit (hnodup.sublist (List.filter_sublist.map _)) hmem hid]
    simp [Row.object, Object.whole, hid, hpayload]
  · have hnot : ∀ o' ∈ s.old.filter fun o => o.id ∈ s.toSave, o'.id ≠ r.id := by
      intro o' ho' heq
      exact hsave (heq ▸ of_decide_eq_true (List.mem_filter.mp ho').2)
    rw [changed_of_not_mem unit hnot]
    simp [Row.object, Object.whole, hid, hpayload, hkept hsave, hunit]

/-- Rows that have objects, one by one: what is read of some of the rows are the objects of these. -/
theorem filterMap_filter_eq {γ δ ε : Type} {R : γ → δ → Prop} {f : γ → Option ε} {g : δ → ε} {has p : γ → Bool}
    {q : δ → Bool} {bs : List γ} {cs : List δ} (h : List.Forall₂ R (bs.filter has) cs)
    (hmap : ∀ b c, c ∈ cs → R b c → f b = some (g c)) (hnone : ∀ b, has b = false → f b = none)
    (hfilter : ∀ b c, R b c → p b = q c) : (bs.filter p).filterMap f = (cs.filter q).map g := by
  induction bs generalizing cs with
  | nil =>
      obtain rfl := List.forall₂_nil_left_iff.mp h
      rfl
  | cons b bs ih =>
      cases hhas : has b with
      | false =>
          rw [List.filter_cons_of_neg (by simp [hhas])] at h
          rw [← ih h hmap, List.filter_cons]
          split
          · rw [List.filterMap_cons_none (hnone b hhas)]
          · rfl
      | true =>
          rw [List.filter_cons_of_pos hhas] at h
          obtain ⟨c, cs, hbc, hrest, rfl⟩ := List.forall₂_cons_left_iff.mp h
          have ih := ih hrest fun b' c' hc' => hmap b' c' (List.mem_cons_of_mem _ hc')
          rw [List.filter_cons, List.filter_cons, hfilter b c hbc]
          split
          · rw [List.filterMap_cons_some (hmap b c (by simp) hbc), List.map_cons, ih]
          · exact ih

/-- What is read before the created objects get rows. -/
theorem read_saveChanged (h : Tracks join unit owner t s) (hunit : unit ≠ 0) :
    (s.saveChanged unit (s.saveDestroyed t)).read join unit owner =
      (s.old.filter fun o => o.id ∉ s.toDestroy).map (Object.whole unit) := by
  rw [Table.read, select_saveChanged, select_saveDestroyed, List.filterMap_map]
  refine filterMap_filter_eq h (fun r o ho hro => object_changed h hunit ho hro) (fun r hr => ?_) fun r o hro => ?_
  · have hnone : join r.payload = none := by simpa using hr
    simp [Row.object, changed_payload, hnone]
  · rw [hro.1]

/-- CORRECT (what is read after a save): the objects as the session left them, with times cut as rows have them. -/
theorem read_save {row : β → α} (h : Tracks join unit owner t s) (hunit : unit ≠ 0)
    (hrow : ∀ o ∈ s.added, join (row o.payload) = some o.payload) :
    (s.saveAdded unit row owner (s.saveChanged unit (s.saveDestroyed t))).read join unit owner =
      (s.left t.nextId).map (Object.whole unit) := by
  rw [read_saveAdded join unit owner s _ hrow, read_saveChanged h hunit, left, List.map_append, saveChanged_nextId,
    saveDestroyed_nextId]

end Session

/-- Two joins that agree on the payloads of the rows read the same. -/
theorem Table.read_congr {join join' : α → Option β} {owner : ℕ} {t : Table α}
    (h : ∀ r ∈ t.rows, join r.payload = join' r.payload) : t.read join unit owner = t.read join' unit owner := by
  refine List.filterMap_congr fun r hr => ?_
  rw [Row.object, Row.object, h r (List.mem_of_mem_filter hr)]

end

/-! ### Keeping what is wanted -/

theorem exists_of_forall₂ {γ δ : Type} {R : γ → δ → Prop} {xs : List γ} {ys : List δ} (h : List.Forall₂ R xs ys) {y : δ}
    (hy : y ∈ ys) : ∃ x ∈ xs, R x y := by
  induction h with
  | nil => cases hy
  | cons hxy _ ih =>
    rcases List.mem_cons.mp hy with rfl | hy
    · exact ⟨_, List.mem_cons_self .., hxy⟩
    · obtain ⟨x, hx, hxy⟩ := ih hy
      exact ⟨x, List.mem_cons_of_mem _ hx, hxy⟩

section
variable {ε K β : Type} [DecidableEq K] (key : β → Except ε K) (expiresAt : ℤ)

/-- A loop over read objects: one whose key is wanted gets the expiry, and its key is wanted no more; the others are
    destroyed. What is still wanted is returned. -/
def Session.refresh : List (Object β) → List K → Session β → Except ε (List K × Session β)
  | [], wanted, s => .ok (wanted, s)
  | o :: os, wanted, s =>
      match key o.payload with
      | .error e => .error e
      | .ok k =>
          if k ∈ wanted then refresh os (wanted.erase k) (s.setExpiresAt expiresAt (.old o.id))
          else refresh os wanted (s.destroy (.old o.id))

/-- There is one object for each of the keys and no other, all with this expiry. -/
def OnePer (os : List (Object β)) (ks : List K) : Prop :=
  ∃ found : List K, List.Forall₂ (fun o k => key o.payload = .ok k ∧ o.expiresAt = expiresAt) os found ∧
    found.Nodup ∧ ∀ k, k ∈ found ↔ k ∈ ks

/-- What the loop keeps of some objects: which of them, with their keys, and what is noted of the session. -/
structure Refreshed (os : List (Object β)) (wanted : List K) (s : Session β) (rest : List K) (s' : Session β)
    (kept : List (Object β)) (found : List K) : Prop where
  sublist : kept.Sublist os
  keys : List.Forall₂ (fun o k => key o.payload = .ok k) kept found
  wanted : (found ++ rest).Perm wanted
  missing : ∀ k ∈ rest, ∀ o ∈ os, key o.payload ≠ .ok k
  old : s'.old = s.old.map fun o => if o.id ∈ kept.map Object.id then { o with expiresAt } else o
  toDestroy : ∀ id, id ∈ s'.toDestroy ↔ id ∈ s.toDestroy ∨ id ∈ os.map Object.id ∧ id ∉ kept.map Object.id
  added : s'.added = s.added

variable {key} {expiresAt}

omit [DecidableEq K] in
theorem OnePer.congr {os : List (Object β)} {ks ks' : List K} (h : OnePer key expiresAt os ks)
    (hks : ∀ k, k ∈ ks ↔ k ∈ ks') : OnePer key expiresAt os ks' := by
  obtain ⟨found, hfound, hnodup, hmem⟩ := h
  exact ⟨found, hfound, hnodup, fun k => (hmem k).trans (hks k)⟩

theorem refresh_error {os : List (Object β)} {o : Object β} (ho : o ∈ os) {e : ε} (he : key o.payload = .error e)
    (wanted : List K) (s : Session β) : ∃ e', Session.refresh key expiresAt os wanted s = .error e' := by
  induction os generalizing wanted s with
  | nil => cases ho
  | cons p os ih =>
    rw [Session.refresh]
    rcases List.mem_cons.mp ho with rfl | ho
    · rw [he]
      exact ⟨e, rfl⟩
    · cases key p.payload with
      | error e' => exact ⟨e', rfl⟩
      | ok k =>
        dsimp only
        split
        · exact ih ho _ _
        · exact ih ho _ _

variable (expiresAt) in
theorem refresh_ok {os : List (Object β)} (hkeys : ∀ o ∈ os, ∃ k, key o.payload = .ok k) (wanted : List K)
    (s : Session β) : ∃ r, Session.refresh key expiresAt os wanted s = .ok r := by
  induction os generalizing wanted s with
  | nil => exact ⟨_, rfl⟩
  | cons o os ih =>
    obtain ⟨k, hk⟩ := hkeys o (List.mem_cons_self ..)
    rw [Session.refresh, hk]
    dsimp only
    split
    · exact ih (fun p hp => hkeys p (List.mem_cons_of_mem _ hp)) _ _
    · exact ih (fun p hp => hkeys p (List.mem_cons_of_mem _ hp)) _ _

/-- The objects that the loop keeps are the first ones with wanted keys. -/
theorem refresh_spec {os : List (Object β)} (hids : (os.map Object.id).Nodup) {wanted rest : List K}
    (hwanted : wanted.Nodup) {s s' : Session β} (h : Session.refresh key expiresAt os wanted s = .ok (rest, s')) :
    ∃ kept found, Refreshed key expiresAt os wanted s rest s' kept found := by
  induction os generalizing wanted s with
  | nil =>
    obtain ⟨rfl, rfl⟩ := Prod.mk.inj (Except.ok.inj h)
    exact ⟨[], [], .slnil, .nil, .refl _, by simp, by simp, by simp, rfl⟩
  | cons o os ih =>
    obtain ⟨ho, hids⟩ := List.nodup_cons.mp hids
    rw [Session.refresh] at h
    cases hkey : key o.payload with
    | error e =>
      rw [hkey] at h
      cases h
    | ok k =>
      rw [hkey] at h
      dsimp only at h
      split at h
      next hmem =>
        obtain ⟨kept, found, hr⟩ := ih hids (hwanted.erase k) h
        have hperm : (k :: found ++ rest).Perm wanted :=
          (hr.wanted.cons k).trans (List.perm_cons_erase hmem).symm
        refine ⟨o :: kept, k :: found, hr.sublist.cons_cons o, .cons hkey hr.keys, hperm, ?_, ?_, ?_, hr.added⟩
        · intro k' hk' p hp
          rcases List.mem_cons.mp hp with rfl | hp
          · rw [hkey]
            rintro ⟨⟩
            have hin := hr.wanted.mem_iff.mp (List.mem_append_right found hk')
            exact (hwanted.mem_erase_iff.mp hin).1 rfl
          · exact hr.missing k' hk' p hp
        · rw [hr.old, Session.setExpiresAt, List.map_map]
          refine List.map_congr_left fun p _ => ?_
          by_cases hp : p.id = o.id
          · simp [hp]
          · simp [hp]
        · intro id
          rw [hr.toDestroy, Session.setExpiresAt]
          refine or_congr_right ?_
          by_cases hid : id = o.id
          · subst hid
            simp [ho]
          · simp [hid]
      next hmem =>
        obtain ⟨kept, found, hr⟩ := ih hids hwanted h
        refine ⟨kept, found, hr.sublist.cons o, hr.keys, hr.wanted, ?_, hr.old, ?_, hr.added⟩
        · intro k' hk' p hp
          rcases List.mem_cons.mp hp with rfl | hp
          · rw [hkey]
            rintro ⟨⟩
            exact hmem (hr.wanted.mem_iff.mp (List.mem_append_right found hk'))
          · exact hr.missing k' hk' p hp
        · intro id
          rw [hr.toDestroy, Session.destroy, List.mem_cons, List.map_cons, List.mem_cons]
          have hout : o.id ∉ kept.map Object.id := fun hin => ho ((hr.sublist.map Object.id).subset hin)
          by_cases hid : id = o.id
          · subst hid
            simp [hout]
          · simp [hid]

/-- A part of some objects is found by its ids. -/
theorem filter_ids {kept os : List (Object β)} (h : kept.Sublist os) (hids : (os.map Object.id).Nodup) :
    os.filter (fun o => o.id ∈ kept.map Object.id) = kept := by
  induction h with
  | slnil => rfl
  | cons o hsub ih =>
    obtain ⟨ho, hids⟩ := List.nodup_cons.mp hids
    have hout := fun hin => ho ((hsub.map Object.id).subset hin)
    rw [List.filter_cons_of_neg (by simpa using hout)]
    exact ih hids
  | cons_cons o hsub ih =>
    obtain ⟨ho, hids⟩ := List.nodup_cons.mp hids
    rw [List.filter_cons_of_pos (by simp)]
    congr 1
    refine (List.filter_congr fun p hp => ?_).trans (ih hids)
    have hne : p.id ≠ o.id := fun heq => ho (List.mem_map.mpr ⟨p, hp, heq⟩)
    simp [hne]

/-- Of a session that has just begun, the loop leaves what it keeps. -/
theorem left_refresh {os : List (Object β)} (hids : (os.map Object.id).Nodup) {wanted rest : List K}
    (hwanted : wanted.Nodup) {s' : Session β}
    (h : Session.refresh key expiresAt os wanted (.start os) = .ok (rest, s')) :
    s'.added = [] ∧ ∃ found, List.Forall₂ (fun o k => key o.payload = .ok k ∧ o.expiresAt = expiresAt)
      (s'.old.filter fun o => o.id ∉ s'.toDestroy) found ∧ (found ++ rest).Perm wanted := by
  obtain ⟨kept, found, hr⟩ := refresh_spec hids hwanted h
  refine ⟨hr.added, found, ?_, hr.wanted⟩
  have hstay : (s'.old.filter fun o => o.id ∉ s'.toDestroy) = kept.map fun o => { o with expiresAt } := by
    rw [hr.old, Session.start, List.filter_map]
    have hfilter : os.filter ((fun o => decide (o.id ∉ s'.toDestroy)) ∘ fun o =>
        if o.id ∈ kept.map Object.id then { o with expiresAt } else o) = kept := by
      refine (List.filter_congr fun o ho => ?_).trans (filter_ids hr.sublist hids)
      have hid : (if o.id ∈ kept.map Object.id then { o with expiresAt } else o).id = o.id := by split <;> rfl
      have hin : o.id ∈ os.map Object.id := List.mem_map_of_mem ho
      simp only [Function.comp_apply, hid, hr.toDestroy, Session.start, List.not_mem_nil, false_or, hin, true_and,
        not_not]
    rw [hfilter]
    exact List.map_congr_left fun o ho => if_pos (List.mem_map_of_mem ho)
  rw [hstay, List.forall₂_map_left_iff]
  exact hr.keys.imp fun o k hok => ⟨hok, rfl⟩

/-- Nothing is left to be created where each wanted key has an object. -/
theorem rest_eq_nil_iff {os : List (Object β)} (hids : (os.map Object.id).Nodup) {wanted rest : List K}
    (hwanted : wanted.Nodup) {s s' : Session β} (h : Session.refresh key expiresAt os wanted s = .ok (rest, s')) :
    rest = [] ↔ ∀ k ∈ wanted, ∃ o ∈ os, key o.payload = .ok k := by
  obtain ⟨kept, found, hr⟩ := refresh_spec hids hwanted h
  constructor
  · rintro rfl k hk
    rw [← hr.wanted.mem_iff, List.append_nil] at hk
    obtain ⟨o, ho, hok⟩ := exists_of_forall₂ hr.keys hk
    exact ⟨o, hr.sublist.subset ho, hok⟩
  · intro hall
    rw [List.eq_nil_iff_forall_not_mem]
    intro k hk
    obtain ⟨o, ho, hok⟩ := hall k (hr.wanted.mem_iff.mp (List.mem_append_right found hk))
    exact hr.missing k hk o ho hok

theorem foldl_create {γ : Type} (payload : γ → β) (xs : List γ) (s : Session β) :
    xs.foldl (fun s x => s.create (payload x) expiresAt) s =
      { s with added := s.added ++ xs.map fun x => ⟨0, payload x, expiresAt⟩ } := by
  induction xs generalizing s with
  | nil => simp
  | cons x xs ih =>
    rw [List.foldl_cons, ih, Session.create, List.map_cons, List.append_assoc]
    rfl

omit [DecidableEq K] in
theorem forall₂_numbered {R : Object β → K → Prop} (hR : ∀ o k id, R o k → R { o with id } k) {os : List (Object β)}
    {ks : List K} (h : List.Forall₂ R os ks) (nextId : ℕ) : List.Forall₂ R (Session.numbered nextId os) ks := by
  induction h generalizing nextId with
  | nil => exact .nil
  | cons hok _ ih => exact .cons (hR _ _ _ hok) (ih _)

/-- CORRECT (a refreshed session): where what was not found is created, there is one object for each wanted key. -/
theorem onePer_left {os : List (Object β)} (hids : (os.map Object.id).Nodup) {wanted rest : List K}
    (hwanted : wanted.Nodup) {s' : Session β}
    (h : Session.refresh key expiresAt os wanted (.start os) = .ok (rest, s')) (payload : K → β)
    (hpayload : ∀ k ∈ rest, key (payload k) = .ok k) (nextId : ℕ) :
    OnePer key expiresAt (Session.left nextId
      (rest.foldl (fun s k => s.create (payload k) expiresAt) s')) wanted := by
  obtain ⟨hadded, found, hfound, hperm⟩ := left_refresh hids hwanted h
  refine ⟨found ++ rest, ?_, hperm.nodup_iff.mpr hwanted, fun k => hperm.mem_iff⟩
  rw [foldl_create, Session.left, hadded, List.nil_append]
  refine List.rel_append hfound (forall₂_numbered (fun _ _ _ => id) ?_ nextId)
  rw [List.forall₂_map_left_iff, List.forall₂_same]
  exact fun k hk => ⟨hpayload k hk, rfl⟩

/-- The loop keeps that objects stand for rows. -/
theorem tracks_refresh {α : Type} {join : α → Option β} {unit : ℤ} {owner : ℕ} {t : Table α} {os : List (Object β)}
    {wanted rest : List K} {s s' : Session β} (hs : Session.Tracks join unit owner t s)
    (h : Session.refresh key expiresAt os wanted s = .ok (rest, s')) : Session.Tracks join unit owner t s' := by
  induction os generalizing wanted s with
  | nil =>
    obtain ⟨rfl, rfl⟩ := Prod.mk.inj (Except.ok.inj h)
    exact hs
  | cons o os ih =>
    rw [Session.refresh] at h
    cases hkey : key o.payload with
    | error e =>
      rw [hkey] at h
      cases h
    | ok k =>
      rw [hkey] at h
      dsimp only at h
      split at h
      · exact ih (Session.tracks_setExpiresAt hs expiresAt (.old o.id)) h
      · exact ih (Session.tracks_destroy hs (.old o.id)) h

end

end Universa.Rows
