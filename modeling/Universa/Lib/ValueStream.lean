import Mathlib.Data.Nat.Notation
import Universa.Lib.Comp

/-! Readers over a stream of values without framing: each takes the values that it wants from the front, and
    after the last value it gets nothing. `Reads r vs a` says that `r` takes exactly `vs`, whatever follows, and
    makes `a` of them; readers that are run one after another read what was written one after another. -/

namespace Universa.Stream

variable {ε V α β : Type}

/-- A reader of values, which may throw. -/
abbrev Reader (ε V α : Type) := StateT (List V) (Except ε) α

/-- The next value, if there is one. -/
def next : Reader ε V (Option V) := fun vs => .ok (vs.head?, vs.tail)

/-- What may throw and reads nothing. -/
def lift (x : Except ε α) : Reader ε V α := fun vs => x.map fun a => (a, vs)

/-- The reader, so many times. -/
def times (r : Reader ε V α) : ℕ → Reader ε V (List α)
  | 0 => pure []
  | n + 1 => do
      let a ← r
      return a :: (← times r n)

/-- The reader takes exactly the values and makes this of them. -/
def Reads (r : Reader ε V α) (vs : List V) (a : α) : Prop := ∀ rest, r.run (vs ++ rest) = .ok (a, rest)

variable {r : Reader ε V α} {f : α → Reader ε V β} {vs ws : List V} {a : α} {b : β}

theorem run_bind (r : Reader ε V α) (f : α → Reader ε V β) (vs : List V) :
    (r >>= f).run vs = r.run vs >>= fun p => (f p.1).run p.2 := rfl

theorem Reads.pure : Reads (Pure.pure a : Reader ε V α) [] a := fun _ => rfl

theorem Reads.next (v : V) : Reads (next : Reader ε V (Option V)) [v] (some v) := fun _ => rfl

theorem Reads.lift {x : Except ε α} (h : x = .ok a) : Reads (lift x : Reader ε V α) [] a := by
  subst h
  exact fun _ => rfl

theorem Reads.of_eq {r' : Reader ε V α} (h : r = r') (hr : Reads r' vs a) : Reads r vs a := h ▸ hr

/-- One reader after another. -/
theorem Reads.bind (h : Reads r vs a) (hf : Reads (f a) ws b) : Reads (r >>= f) (vs ++ ws) b := by
  intro rest
  rw [run_bind, List.append_assoc, h (ws ++ rest)]
  exact hf rest

/-- A reader before a last step that reads nothing. -/
theorem Reads.last (h : Reads r vs a) (hf : Reads (f a) [] b) : Reads (r >>= f) vs b := by
  have hboth := h.bind hf
  rwa [List.append_nil] at hboth

/-- A reader of one value before others. -/
theorem Reads.first {v : V} (h : Reads r [v] a) (hf : Reads (f a) ws b) :
    Reads (r >>= f) (v :: ws) b := h.bind hf

/-- A reader that is run before others leaves them their values. -/
theorem Reads.run_bind (h : Reads r vs a) (rest : List V) : (r >>= f).run (vs ++ rest) = (f a).run rest := by
  rw [Stream.run_bind, h rest]
  rfl

/-- What a reader takes that is run on values one by one. -/
theorem Reads.times {g : β → List V} {k : β → α} {xs : List β} (h : ∀ x ∈ xs, Reads r (g x) (k x)) :
    Reads (times r xs.length) (xs.flatMap g) (xs.map k) := by
  induction xs with
  | nil => exact Reads.pure
  | cons x xs ih =>
    have hxs := ih fun y hy => h y (List.mem_cons_of_mem x hy)
    exact (h x (List.mem_cons_self ..)).bind (hxs.last Reads.pure)

/-- What comes out of two readers, one after the other. -/
theorem run_bind_eq_ok {p : β × List V} :
    (r >>= f).run vs = .ok p ↔ ∃ q, r.run vs = .ok q ∧ (f q.1).run q.2 = .ok p :=
  Except.bind_eq_ok

/-- One time first, then the others. -/
theorem run_times_succ {n : ℕ} {as : List α} {rest : List V} :
    (times r (n + 1)).run vs = .ok (as, rest) ↔
      ∃ a ws bs, r.run vs = .ok (a, ws) ∧ (times r n).run ws = .ok (bs, rest) ∧ as = a :: bs := by
  constructor
  · intro h
    obtain ⟨⟨a, ws⟩, ha, h⟩ := run_bind_eq_ok.mp h
    obtain ⟨⟨bs, rest'⟩, hbs, h⟩ := run_bind_eq_ok.mp h
    obtain ⟨rfl, rfl⟩ := Prod.mk.inj (Except.ok.inj h)
    exact ⟨a, ws, bs, ha, hbs, rfl⟩
  · rintro ⟨a, ws, bs, ha, hbs, rfl⟩
    exact run_bind_eq_ok.mpr ⟨(a, ws), ha, run_bind_eq_ok.mpr ⟨(bs, rest), hbs, rfl⟩⟩

end Universa.Stream
