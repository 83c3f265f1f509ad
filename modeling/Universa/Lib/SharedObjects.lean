import Mathlib.Data.List.Nodup
import Universa.Lib.Rows

/-! Objects in memory that a holder keeps by reference while a session works on the same objects. The holder has
    a set of addresses; the session creates objects, sets expiries, and notes what to add, to save and to
    destroy, and only a commit changes the set of the holder. `view` is what the holder sees: an object that the
    session writes to is written for the holder too. -/

namespace Universa.Shared
open Universa.Rows

variable {α : Type}

/-- Objects by address, and the set of a holder. -/
structure Held (α : Type) where
  objects : List (Object α)
  set : List ℕ
  nodup : set.Nodup
  valid : ∀ a ∈ set, a < objects.length

/-- What the holder sees. -/
def Held.view (h : Held α) : List (Option (Object α)) := h.set.map fun a => h.objects[a]?

/-- The objects with what a session noted. What it created, the holder does not have. -/
structure Pool (α : Type) extends Held α where
  toAdd : List ℕ
  toSave : List ℕ
  toDestroy : List ℕ
  nodupAdd : toAdd.Nodup
  validAdd : ∀ a ∈ toAdd, a < objects.length
  own : ∀ a ∈ toAdd, a ∉ set

/-- `add` of a set. -/
def insert (a : ℕ) (s : List ℕ) : List ℕ := if a ∈ s then s else s ++ [a]

namespace Pool

/-- A session that did nothing yet. -/
def start (h : Held α) : Pool α where
  toHeld := h
  toAdd := []
  toSave := []
  toDestroy := []
  nodupAdd := List.nodup_nil
  validAdd _ ha := absurd ha List.not_mem_nil
  own _ ha := absurd ha List.not_mem_nil

/-- Creating an object. -/
def create (payload : α) (expiresAt : ℤ) (p : Pool α) : Pool α where
  objects := p.objects ++ [⟨0, payload, expiresAt⟩]
  set := p.set
  nodup := p.nodup
  valid a ha := by
    rw [List.length_append]
    exact Nat.lt_trans (p.valid a ha) (Nat.lt_succ_self _)
  toAdd := p.toAdd ++ [p.objects.length]
  toSave := p.toSave
  toDestroy := p.toDestroy
  nodupAdd := by
    refine p.nodupAdd.append (List.nodup_singleton _) (List.disjoint_singleton.mpr fun h => ?_)
    exact absurd (p.validAdd _ h) (Nat.lt_irrefl _)
  validAdd a ha := by
    rw [List.length_append]
    rcases List.mem_append.mp ha with ha | ha
    · exact Nat.lt_trans (p.validAdd a ha) (Nat.lt_succ_self _)
    · rw [List.mem_singleton.mp ha]
      exact Nat.lt_succ_self _
  own a ha hset := by
    rcases List.mem_append.mp ha with ha | ha
    · exact p.own a ha hset
    · rw [List.mem_singleton.mp ha] at hset
      exact absurd (p.valid _ hset) (Nat.lt_irrefl _)

/-- The objects after a change of their fields. -/
def write (f : ℕ → Object α → Object α) (p : Pool α) : Pool α where
  objects := p.objects.mapIdx f
  set := p.set
  nodup := p.nodup
  valid a ha := by simpa using p.valid a ha
  toAdd := p.toAdd
  toSave := p.toSave
  toDestroy := p.toDestroy
  nodupAdd := p.nodupAdd
  validAdd a ha := by simpa using p.validAdd a ha
  own := p.own

/-- Setting the expiry of an object; one that has an id is noted. -/
def setExpiresAt (a : ℕ) (expiresAt : ℤ) (p : Pool α) : Pool α :=
  { p.write fun i o => if i = a then { o with expiresAt } else o with
    toSave := if (p.objects[a]?.map Object.id).any (· ≠ 0) then insert a p.toSave else p.toSave }

/-- Noting that an object is to be destroyed. -/
def destroy (a : ℕ) (p : Pool α) : Pool α := { p with toDestroy := insert a p.toDestroy }

/-- What was created gets the ids that were answered. -/
def assignIds (answer : ℕ → Option ℕ) (p : Pool α) : Pool α :=
  p.write fun i o => if i ∈ p.toAdd then { o with id := (answer i).getD o.id } else o

/-- The addresses that a commit leaves to the holder: the old ones without the destroyed, and the added. -/
def left (p : Pool α) : List ℕ := p.set.filter (· ∉ p.toDestroy) ++ p.toAdd

/-- What the holder has after a commit. -/
def commit (p : Pool α) : Held α where
  objects := p.objects
  set := p.left
  nodup := by
    refine (p.nodup.filter _).append p.nodupAdd fun a hset hadd => ?_
    exact p.own a hadd (List.mem_of_mem_filter hset)
  valid a ha := by
    rcases List.mem_append.mp ha with ha | ha
    · exact p.valid a (List.mem_of_mem_filter ha)
    · exact p.validAdd a ha

/-- The holder does not have the object, or it has this expiry. -/
def Leaves (a : ℕ) (expiresAt : ℤ) (p : Pool α) : Prop :=
  a ∈ p.set → ∀ o, p.objects[a]? = some o → o.expiresAt = expiresAt

/-! ### What the holder sees -/

variable {p : Pool α}

theorem view_create (payload : α) (expiresAt : ℤ) (p : Pool α) : (p.create payload expiresAt).view = p.view :=
  List.map_congr_left fun a ha => List.getElem?_append_left (p.valid a ha)

/-- The holder sees the same where none of its objects is written to. -/
theorem view_write_iff (f : ℕ → Object α → Object α) (p : Pool α) :
    (p.write f).view = p.view ↔ ∀ a ∈ p.set, ∀ o, p.objects[a]? = some o → f a o = o := by
  unfold Held.view write
  rw [List.map_inj_left]
  refine forall₂_congr fun a _ => ?_
  rw [List.getElem?_mapIdx]
  cases p.objects[a]? with
  | none => simp
  | some o => simp

theorem view_setExpiresAt_iff {a : ℕ} {expiresAt : ℤ} :
    (p.setExpiresAt a expiresAt).view = p.view ↔ p.Leaves a expiresAt := by
  refine (view_write_iff _ p).trans ⟨?_, ?_⟩
  · intro h ha o ho
    have heq := h a ha o ho
    rw [if_pos rfl] at heq
    exact congrArg Object.expiresAt heq.symm
  · intro h b hb o ho
    by_cases hba : b = a
    · subst hba
      rw [if_pos rfl, ← h hb o ho]
    · rw [if_neg hba]

theorem view_assignIds (answer : ℕ → Option ℕ) (p : Pool α) : (p.assignIds answer).view = p.view := by
  refine (view_write_iff _ p).mpr fun a ha o _ => if_neg fun hadd => ?_
  exact p.own a hadd ha

end Pool
end Universa.Shared
