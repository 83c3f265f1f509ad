import Mathlib.Data.List.Perm.Basic

/-! Buffers that collect requests by key. A buffer is a map in the order of its keys' arrival; the
    requests for one key wait in one entry, with the value that the first of them brought. A buffer is
    processed in chunks, and a request can still join the entry of a chunk that is being processed. -/

namespace Universa.Coalesce

/-- The requests for one key, by their numbers, and what the first of them brought. -/
structure Entry (K V : Type) where
  key : K
  waiters : List ℕ
  value : V

section Push
variable {K V : Type} {e : Entry K V} {es : List (Entry K V)}

/-- All requests that wait in these entries. -/
def waiting (es : List (Entry K V)) : List ℕ := es.flatMap (·.waiters)

theorem waiting_append (es es' : List (Entry K V)) : waiting (es ++ es') = waiting es ++ waiting es' :=
  List.flatMap_append

theorem waiting_perm {es es' : List (Entry K V)} (h : es.Perm es') : (waiting es).Perm (waiting es') :=
  h.flatMap_right _

variable [DecidableEq K] {w w' : ℕ} {k : K} {v : V}

/-- The request joins the entry of its key, or starts one. -/
def push (w : ℕ) (k : K) (v : V) : List (Entry K V) → List (Entry K V)
  | [] => [⟨k, [w], v⟩]
  | e :: es => if e.key = k then { e with waiters := e.waiters ++ [w] } :: es else e :: push w k v es

theorem waiting_push : (waiting (push w k v es)).Perm (w :: waiting es) := by
  induction es with
  | nil => exact .refl _
  | cons e es ih =>
      rw [push]
      split
      next =>
        simp only [waiting, List.flatMap_cons, List.append_assoc, List.singleton_append]
        exact List.perm_middle
      next =>
        simp only [waiting, List.flatMap_cons] at ih ⊢
        exact (ih.append_left _).trans List.perm_middle

/-- What the request brings and what joining keeps holds of every entry. -/
theorem forall_push {P : Entry K V → Prop} (hnew : P ⟨k, [w], v⟩)
    (hjoin : ∀ e ∈ es, e.key = k → P e → P { e with waiters := e.waiters ++ [w] })
    (h : ∀ e ∈ es, P e) : ∀ e ∈ push w k v es, P e := by
  induction es with
  | nil => simpa [push] using hnew
  | cons e es ih =>
      have ih := ih (fun e he => hjoin e (.tail _ he)) fun e he => h e (.tail _ he)
      rw [push]
      split
      next hk =>
        rintro e' he'
        rcases List.mem_cons.mp he' with rfl | he'
        · exact hjoin e (.head _) hk (h e (.head _))
        · exact h e' (.tail _ he')
      next =>
        rintro e' he'
        rcases List.mem_cons.mp he' with rfl | he'
        · exact h _ (.head _)
        · exact ih e' he'

/-- The request waits with the value that it brought, or with that of an entry of its key. -/
theorem pushed (w : ℕ) (k : K) (v : V) (es : List (Entry K V)) :
    ∃ e ∈ push w k v es, w ∈ e.waiters ∧ (e.value = v ∨ ∃ e' ∈ es, e'.key = k ∧ e.value = e'.value) := by
  induction es with
  | nil => exact ⟨_, .head _, .head _, .inl rfl⟩
  | cons e es ih =>
      rw [push]
      split
      next hk => exact ⟨_, .head _, by simp, .inr ⟨e, .head _, hk, rfl⟩⟩
      next =>
        obtain ⟨e', he', hw, hv⟩ := ih
        refine ⟨e', .tail _ he', hw, hv.imp_right ?_⟩
        rintro ⟨e₁, he₁, h⟩
        exact ⟨e₁, .tail _ he₁, h⟩

/-- A request that waits goes on waiting with the same value. -/
theorem still_waits (he : e ∈ es) (hw : w' ∈ e.waiters) :
    ∃ e' ∈ push w k v es, w' ∈ e'.waiters ∧ e'.value = e.value := by
  induction es with
  | nil => cases he
  | cons e₀ es ih =>
      rw [push]
      split
      next =>
        rcases List.mem_cons.mp he with rfl | he
        · exact ⟨_, .head _, List.mem_append_left _ hw, rfl⟩
        · exact ⟨e, .tail _ he, hw, rfl⟩
      next =>
        rcases List.mem_cons.mp he with rfl | he
        · exact ⟨_, .head _, hw, rfl⟩
        · obtain ⟨e', he', h⟩ := ih he
          exact ⟨e', .tail _ he', h⟩

/-- The request joins the entry of its key in one of the chunks, if there is one. -/
def join (w : ℕ) (k : K) (v : V) : List (List (Entry K V)) → Option (List (List (Entry K V)))
  | [] => none
  | chunk :: chunks =>
      if chunk.any (·.key = k) then some (push w k v chunk :: chunks)
      else (join w k v chunks).map (chunk :: ·)

/-- The chunk that the request joins. -/
theorem join_eq {chunks chunks' : List (List (Entry K V))} (h : join w k v chunks = some chunks') :
    ∃ before chunk after, chunks = before ++ chunk :: after ∧
      chunks' = before ++ push w k v chunk :: after ∧ ∃ e ∈ chunk, e.key = k := by
  induction chunks generalizing chunks' with
  | nil => cases h
  | cons chunk chunks ih =>
      rw [join] at h
      split at h
      next hany =>
        obtain rfl := Option.some.inj h
        obtain ⟨e, he, hk⟩ := List.any_eq_true.mp hany
        exact ⟨[], chunk, chunks, rfl, rfl, e, he, of_decide_eq_true hk⟩
      next =>
        obtain ⟨chunks₁, h₁, rfl⟩ := Option.map_eq_some_iff.mp h
        obtain ⟨before, chunk', after, rfl, rfl, hk⟩ := ih h₁
        exact ⟨chunk :: before, chunk', after, rfl, rfl, hk⟩

theorem waiting_join {chunks chunks' : List (List (Entry K V))} (h : join w k v chunks = some chunks') :
    (waiting chunks'.flatten).Perm (w :: waiting chunks.flatten) := by
  obtain ⟨before, chunk, after, rfl, rfl, -⟩ := join_eq h
  simp only [List.flatten_append, List.flatten_cons, waiting_append]
  exact ((waiting_push.append_right _).append_left _).trans List.perm_middle

theorem forall_join {P : Entry K V → Prop} {chunks chunks' : List (List (Entry K V))}
    (h : join w k v chunks = some chunks') (hnew : P ⟨k, [w], v⟩)
    (hjoin : ∀ e ∈ chunks.flatten, e.key = k → P e → P { e with waiters := e.waiters ++ [w] })
    (hall : ∀ e ∈ chunks.flatten, P e) : ∀ e ∈ chunks'.flatten, P e := by
  obtain ⟨before, chunk, after, rfl, rfl, -⟩ := join_eq h
  simp only [List.flatten_append, List.flatten_cons, List.mem_append] at hall hjoin ⊢
  rintro e (he | he | he)
  · exact hall e (.inl he)
  · exact forall_push hnew (fun e he => hjoin e (.inr (.inl he))) (fun e he => hall e (.inr (.inl he)))
      e he
  · exact hall e (.inr (.inr he))

end Push

section Chunks
variable {α : Type}

/-- Chunks of `size` elements, after those already in `chunk`. -/
def chunksFrom (size : ℕ) (chunk : List α) : List α → List (List α)
  | [] => if chunk.isEmpty then [] else [chunk]
  | a :: as =>
      if size ≤ (chunk ++ [a]).length then (chunk ++ [a]) :: chunksFrom size [] as
      else chunksFrom size (chunk ++ [a]) as

theorem chunksFrom_flatten (size : ℕ) (as : List α) :
    ∀ chunk, (chunksFrom size chunk as).flatten = chunk ++ as := by
  induction as with
  | nil =>
      intro chunk
      cases chunk with
      | nil => rfl
      | cons a as => simp [chunksFrom]
  | cons a as ih =>
      intro chunk
      rw [chunksFrom]
      split
      next => simp [ih]
      next => simp [ih]

/-- A chunk that is answered leaves the others. -/
theorem flatten_eraseIdx {chunks : List (List α)} {i : ℕ} {chunk : List α}
    (h : chunks[i]? = some chunk) :
    (chunk ++ (chunks.eraseIdx i).flatten).Perm chunks.flatten := by
  obtain ⟨hi, rfl⟩ := List.getElem?_eq_some_iff.mp h
  exact (List.getElem_cons_eraseIdx_perm hi).flatten

end Chunks
end Universa.Coalesce
