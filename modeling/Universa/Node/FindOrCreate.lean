import Mathlib.Logic.Function.Basic
import Mathlib.Data.List.Nodup
import Mathlib.Tactic.Common
import Universa.Lib.Coalesce
import Universa.Lib.Run
import Universa.Node.StateRecord

/-! `Ledger.findOrCreate` (`ledger.js`): calls wait by item id in a buffer of inserts, then in a buffer of
    selects, and each chunk of a buffer is one query. A call is known by its number, which stands for its
    promise and the functions that settle it.

    A run is a list of actions in any order: calls, pulses of the two timers, answers and errors of the
    queries in flight, and the reactions of promises whose insert was answered. A query reads or writes the
    rows when it is answered. -/

namespace Universa.Node
open Coalesce

/-- The arguments of a call of `findOrCreate`. -/
structure Call (H : Type) where
  id : H
  newState : ItemState
  lockedById : ℕ

/-- A call whose insert was answered, before `findOrCreate_buffered_select`. -/
structure Inserted (H : Type) where
  caller : ℕ
  id : H
  insertedId : Option ℕ

/-- The calls, what their promises have become, the buffers and the rows of the ledger. A promise settled
    without a record has become `undefined`. -/
structure FindOrCreate (H : Type) where
  calls : List (Call H)
  settled : ℕ → Option (Option (StateRecord H))
  insertBuf : List (Entry H (ItemState × ℕ))
  insertInProc : List (List (Entry H (ItemState × ℕ)))
  insertTs : ℤ
  thens : List (Inserted H)
  selectBuf : List (Entry H (Option ℕ))
  selectInProc : List (List (Entry H (Option ℕ)))
  selectTs : ℤ
  rows : H → Option (StateRecord H)
  nextId : ℕ

namespace FindOrCreate
variable {H : Type} [DecidableEq H]

/-- `delayMillis` of both buffers. -/
def delayMillis : ℤ := 40

/-- `bufSize` of the buffer of inserts. -/
def insertBufSize : ℕ := 200

/-- `bufSize` of the buffer of selects. -/
def selectBufSize : ℕ := 400

/-- A promise is settled once. -/
def settle (s : FindOrCreate H) (callers : List ℕ) (value : Option (StateRecord H)) : FindOrCreate H :=
  { s with settled := fun n => if s.settled n = none ∧ n ∈ callers then some value else s.settled n }

/-! ### Inserts -/

/-- `findOrCreate_buffered_insert_processBuf()`. -/
def insertProcessBuf (s : FindOrCreate H) (now : ℤ) : FindOrCreate H :=
  if delayMillis ≤ now - s.insertTs ∨ insertBufSize ≤ s.insertBuf.length then
    { s with
      insertBuf := []
      insertInProc := s.insertInProc ++ chunksFrom insertBufSize [] s.insertBuf
      insertTs := now }
  else s

/-- `findOrCreate_buffered_insert(itemId, newState, locked_by_id)`. Another state is refused before there
    is a promise. -/
def bufferedInsert (s : FindOrCreate H) (call : Call H) (now : ℤ) : FindOrCreate H :=
  if call.newState ≠ .PENDING ∧ call.newState ≠ .LOCKED_FOR_CREATION then s
  else
    let s' := { s with calls := s.calls ++ [call] }
    let value := (call.newState, call.lockedById)
    match join s.calls.length call.id value s.insertInProc with
    | some inProc => insertProcessBuf { s' with insertInProc := inProc } now
    | none =>
        insertProcessBuf { s' with insertBuf := push s.calls.length call.id value s.insertBuf } now

/-- The row that an insert makes, and what the query returns for it. -/
def insertRow (now : ℤ) (random : H → ℤ) (s : FindOrCreate H) (e : Entry H (ItemState × ℕ)) :
    StateRecord H where
  recordId := s.nextId
  lockedByRecordId := e.value.2
  id := e.key
  state := e.value.1
  createdAt := now / 1000 * 1000
  expiresAt := (now / 1000 + Config.maxElectionsTime + random e.key) * 1000
  isJustCreated := false

/-- One entry of the insert: `ON CONFLICT DO NOTHING`, and its resolvers are called. -/
def insertEntry (now : ℤ) (random : H → ℤ) (s : FindOrCreate H) (e : Entry H (ItemState × ℕ)) :
    FindOrCreate H :=
  match s.rows e.key with
  | some _ => { s with thens := s.thens ++ e.waiters.map fun caller => ⟨caller, e.key, none⟩ }
  | none =>
      { s with
        rows := Function.update s.rows e.key (some (insertRow now random s e))
        nextId := s.nextId + 1
        thens := s.thens ++ e.waiters.map fun caller => ⟨caller, e.key, some s.nextId⟩ }

/-! ### Selects -/

/-- `findOrCreate_buffered_select_processBuf()`. -/
def selectProcessBuf (s : FindOrCreate H) (now : ℤ) : FindOrCreate H :=
  if delayMillis ≤ now - s.selectTs ∨ selectBufSize ≤ s.selectBuf.length then
    { s with
      selectBuf := []
      selectInProc := s.selectInProc ++ chunksFrom selectBufSize [] s.selectBuf
      selectTs := now }
  else s

/-- `findOrCreate_buffered_select(itemId, inserted_id)`. -/
def bufferedSelect (s : FindOrCreate H) (i : Inserted H) (now : ℤ) : FindOrCreate H :=
  selectProcessBuf { s with selectBuf := push i.caller i.id i.insertedId s.selectBuf } now

/-- The record of a row, for the callers of an entry. -/
def selected (e : Entry H (Option ℕ)) (row : StateRecord H) : StateRecord H :=
  { row with isJustCreated := decide (some row.recordId = e.value) }

/-- One entry of the select: its resolvers are called with the row, if the query found it. -/
def selectEntry (s : FindOrCreate H) (e : Entry H (Option ℕ)) : FindOrCreate H :=
  match s.rows e.key with
  | some row => s.settle e.waiters (some (selected e row))
  | none => s

/-! ### Steps -/

/-- What can happen to the calls. -/
inductive Action (H : Type) where
  | call (call : Call H) (now : ℤ)
  | insertPulse (now : ℤ)
  | insertEnds (i : ℕ) (now : ℤ) (random : H → ℤ)
  | insertFails (i : ℕ)
  | thenRuns (now : ℤ)
  | selectPulse (now : ℤ)
  | selectEnds (i : ℕ)
  | selectFails (i : ℕ)

/-- A failed insert rejects its callers, which `findOrCreate` catches. A failed select calls the array of
    its rejecters, so that none of them is called. -/
def step (s : FindOrCreate H) : Action H → Option (FindOrCreate H)
  | .call call now => some (s.bufferedInsert call now)
  | .insertPulse now => some (s.insertProcessBuf now)
  | .insertEnds i now random => s.insertInProc[i]?.map fun chunk =>
      chunk.foldl (insertEntry now random) { s with insertInProc := s.insertInProc.eraseIdx i }
  | .insertFails i => s.insertInProc[i]?.map fun chunk =>
      { s with insertInProc := s.insertInProc.eraseIdx i }.settle (waiting chunk) none
  | .thenRuns now =>
      match s.thens with
      | [] => none
      | i :: thens => some ({ s with thens := thens }.bufferedSelect i now)
  | .selectPulse now => some (s.selectProcessBuf now)
  | .selectEnds i => s.selectInProc[i]?.map fun chunk =>
      chunk.foldl selectEntry { s with selectInProc := s.selectInProc.eraseIdx i }
  | .selectFails i => s.selectInProc[i]?.map fun _ =>
      { s with selectInProc := s.selectInProc.eraseIdx i }

/-- Nothing was called yet; the rows of the ledger are found by their ids. -/
structure Start (s : FindOrCreate H) : Prop where
  calls : s.calls = []
  settled : ∀ n, s.settled n = none
  insertBuf : s.insertBuf = []
  insertInProc : s.insertInProc = []
  thens : s.thens = []
  selectBuf : s.selectBuf = []
  selectInProc : s.selectInProc = []
  rows : ∀ id row, s.rows id = some row → row.id = id

/-- No call waits for anything any more. -/
structure Quiet (s : FindOrCreate H) : Prop where
  insertBuf : s.insertBuf = []
  insertInProc : s.insertInProc = []
  thens : s.thens = []
  selectBuf : s.selectBuf = []
  selectInProc : s.selectInProc = []

end FindOrCreate

/-! ### Locking for creation -/

namespace FindOrCreate
variable {H : Type} [DecidableEq H]

/-! ### What is to hold, and the condition -/

/-- The promise of the call has become a record that says it was just created. -/
def JustCreated (s : FindOrCreate H) (n : ℕ) : Prop :=
  ∃ r, s.settled n = some (some r) ∧ r.isJustCreated = true

/-- No query fails; an entry whose row an insert makes has one caller; and a call joins an entry of selects
    only where that has its own inserted id. -/
def Clean (s : FindOrCreate H) : Action H → Prop
  | .insertEnds i _ _ => ∀ chunk, s.insertInProc[i]? = some chunk →
      ∀ e ∈ chunk, s.rows e.key = none → e.waiters.length = 1
  | .insertFails _ => False
  | .thenRuns _ => ∀ i thens, s.thens = i :: thens →
      ∀ e ∈ s.selectBuf, e.key = i.id → e.value = i.insertedId
  | .selectFails _ => False
  | _ => True

/-! ### The invariant -/

/-- The entries of inserts, in the buffer and in flight. -/
def inserting (s : FindOrCreate H) : List (Entry H (ItemState × ℕ)) := s.insertBuf ++ s.insertInProc.flatten

/-- The entries of selects, in the buffer and in flight. -/
def selecting (s : FindOrCreate H) : List (Entry H (Option ℕ)) := s.selectBuf ++ s.selectInProc.flatten

/-- The calls that wait. -/
def waits (s : FindOrCreate H) : List ℕ :=
  waiting (inserting s) ++ s.thens.map (·.caller) ++ waiting (selecting s)

/-- The call is of this id. -/
def CallOf (s : FindOrCreate H) (n : ℕ) (id : H) : Prop := ∃ call, s.calls[n]? = some call ∧ call.id = id

/-- The row of the id is there, and it is the inserted one, if there is one. -/
def RowOf (s : FindOrCreate H) (id : H) (insertedId : Option ℕ) : Prop :=
  ∃ row, s.rows id = some row ∧ ∀ recordId, insertedId = some recordId → row.recordId = recordId

/-- The call carries the inserted id of a row on its way, or was told of it. -/
def Ticket (s : FindOrCreate H) (n : ℕ) : Prop :=
  (∃ i ∈ s.thens, i.caller = n ∧ i.insertedId ≠ none) ∨
  (∃ e ∈ selecting s, n ∈ e.waiters ∧ e.value ≠ none) ∨ JustCreated s n

/-- What every run keeps, from these rows on. -/
structure Inv (rows : H → Option (StateRecord H)) (s : FindOrCreate H) : Prop where
  nodup : (waits s).Nodup
  unsettled : ∀ n ∈ waits s, s.settled n = none
  placed : ∀ n < s.calls.length, s.settled n = none → n ∈ waits s
  ownRow : ∀ id row, s.rows id = some row → row.id = id
  inserts : ∀ e ∈ inserting s, (∀ n ∈ e.waiters, CallOf s n e.key) ∧
    ∃ n ∈ e.waiters.head?, s.calls[n]? = some ⟨e.key, e.value.1, e.value.2⟩
  thens : ∀ i ∈ s.thens, CallOf s i.caller i.id ∧ RowOf s i.id i.insertedId
  selects : ∀ e ∈ selecting s, (∀ n ∈ e.waiters, CallOf s n e.key) ∧ RowOf s e.key e.value
  results : ∀ n found, s.settled n = some found → ∃ call row, s.calls[n]? = some call ∧
    s.rows call.id = some row ∧ ∃ justCreated, found = some { row with isJustCreated := justCreated }
  oneTicket : ∀ id m n, CallOf s m id → CallOf s n id → Ticket s m → Ticket s n → m = n
  ticket : ∀ id row, rows id = none → s.rows id = some row →
    ∃ n, s.calls[n]? = some ⟨id, row.state, row.lockedByRecordId⟩ ∧ Ticket s n

variable {rows : H → Option (StateRecord H)} {s s' : FindOrCreate H} {n : ℕ} {id : H}

omit [DecidableEq H] in
/-- Only the entries matter, not the chunks they are in. -/
theorem Inv.of_perm (h : Inv rows s) (hcalls : s'.calls = s.calls) (hsettled : s'.settled = s.settled)
    (hinserting : (inserting s').Perm (inserting s)) (hthens : s'.thens = s.thens)
    (hselecting : (selecting s').Perm (selecting s)) (hrows : s'.rows = s.rows) : Inv rows s' := by
  have hwaits : (waits s').Perm (waits s) := by
    rw [waits, waits, hthens]
    exact ((waiting_perm hinserting).append_right _).append (waiting_perm hselecting)
  have hcall : ∀ n id, CallOf s' n id ↔ CallOf s n id := fun n id => by rw [CallOf, CallOf, hcalls]
  have hrow : ∀ id i, RowOf s' id i ↔ RowOf s id i := fun id i => by rw [RowOf, RowOf, hrows]
  have hticket : ∀ n, Ticket s' n ↔ Ticket s n := fun n => by
    simp only [Ticket, JustCreated, hthens, hsettled, hselecting.mem_iff]
  exact {
    nodup := hwaits.nodup_iff.mpr h.nodup
    unsettled := fun n hn => hsettled ▸ h.unsettled n (hwaits.mem_iff.mp hn)
    placed := fun n hn hs => hwaits.mem_iff.mpr (h.placed n (hcalls ▸ hn) (hsettled ▸ hs))
    ownRow := hrows ▸ h.ownRow
    inserts := fun e he => by
      simp only [hcall, hcalls]
      exact h.inserts e (hinserting.mem_iff.mp he)
    thens := fun i hi => by
      simp only [hcall, hrow]
      exact h.thens i (hthens ▸ hi)
    selects := fun e he => by
      simp only [hcall, hrow]
      exact h.selects e (hselecting.mem_iff.mp he)
    results := by
      rw [hsettled, hcalls, hrows]
      exact h.results
    oneTicket := fun id m n => by
      simp only [hcall, hticket]
      exact h.oneTicket id m n
    ticket := fun id row hid => by
      simp only [hrows, hcalls, hticket]
      exact h.ticket id row hid }

omit [DecidableEq H] in
/-- A call with a ticket is a call of an id that has a row. -/
theorem Inv.ticket_row (h : Inv rows s) (ht : Ticket s n) : ∃ id, CallOf s n id ∧ s.rows id ≠ none := by
  rcases ht with ⟨i, hi, rfl, -⟩ | ⟨e, he, hn, -⟩ | ⟨r, hr, -⟩
  · obtain ⟨hcall, row, hrow, -⟩ := h.thens i hi
    exact ⟨i.id, hcall, by simp [hrow]⟩
  · obtain ⟨hcall, row, hrow, -⟩ := h.selects e he
    exact ⟨e.key, hcall n hn, by simp [hrow]⟩
  · obtain ⟨call, row, hcall, hrow, -⟩ := h.results n _ hr
    exact ⟨call.id, ⟨call, hcall, rfl⟩, by simp [hrow]⟩

/-! ### Timers and calls -/

omit [DecidableEq H] in
theorem Inv.insertProcessBuf (h : Inv rows s) (now : ℤ) : Inv rows (s.insertProcessBuf now) := by
  unfold FindOrCreate.insertProcessBuf
  split
  next =>
    refine h.of_perm rfl rfl ?_ rfl (.refl _) rfl
    simp only [inserting, List.flatten_append, chunksFrom_flatten, List.nil_append]
    exact List.perm_append_comm
  next => exact h

omit [DecidableEq H] in
theorem Inv.selectProcessBuf (h : Inv rows s) (now : ℤ) : Inv rows (s.selectProcessBuf now) := by
  unfold FindOrCreate.selectProcessBuf
  split
  next =>
    refine h.of_perm rfl rfl (.refl _) rfl ?_ rfl
    simp only [selecting, List.flatten_append, chunksFrom_flatten, List.nil_append]
    exact List.perm_append_comm
  next => exact h

omit [DecidableEq H] in
/-- A new call waits in an entry of inserts. -/
theorem Inv.insert (h : Inv rows s) (call : Call H) (hcalls : s'.calls = s.calls ++ [call])
    (hsettled : s'.settled = s.settled) (hthens : s'.thens = s.thens)
    (hselecting : selecting s' = selecting s) (hrows : s'.rows = s.rows)
    (hinserting : (waiting (inserting s')).Perm (s.calls.length :: waiting (inserting s)))
    (hinserts : ∀ e ∈ inserting s', (∀ n ∈ e.waiters, CallOf s' n e.key) ∧
      ∃ n ∈ e.waiters.head?, s'.calls[n]? = some ⟨e.key, e.value.1, e.value.2⟩) : Inv rows s' := by
  have hwaits : (waits s').Perm (s.calls.length :: waits s) := by
    rw [waits, waits, hthens, hselecting]
    exact (hinserting.append_right _).append_right _
  have hlift : ∀ {n : ℕ} {c : Call H}, s.calls[n]? = some c → s'.calls[n]? = some c := by
    intro n c hc
    rw [hcalls, List.getElem?_append_left (List.getElem?_eq_some_iff.mp hc).1, hc]
  have hcall : ∀ {n id}, CallOf s n id → CallOf s' n id := by
    rintro n id ⟨c, hc, hid⟩
    exact ⟨c, hlift hc, hid⟩
  have hrow : ∀ id i, RowOf s' id i ↔ RowOf s id i := fun id i => by rw [RowOf, RowOf, hrows]
  have hticket : ∀ n, Ticket s' n ↔ Ticket s n := fun n => by
    simp only [Ticket, JustCreated, hthens, hsettled, hselecting]
  have hback : ∀ {n id}, CallOf s' n id → Ticket s n → CallOf s n id := by
    rintro n id ⟨c, hc, rfl⟩ ht
    obtain ⟨id', ⟨c', hc', rfl⟩, -⟩ := h.ticket_row ht
    obtain rfl := Option.some.inj (hc.symm.trans (hlift hc'))
    exact ⟨c, hc', rfl⟩
  have hnew : s.settled s.calls.length = none := by
    cases hs : s.settled s.calls.length with
    | none => rfl
    | some found =>
        obtain ⟨c, -, hc, -⟩ := h.results _ _ hs
        simp at hc
  have hbound : ∀ n ∈ waits s, n < s.calls.length := by
    intro n hn
    simp only [waits, List.mem_append, List.mem_map, waiting, List.mem_flatMap] at hn
    have hof : ∃ id, CallOf s n id := by
      rcases hn with (⟨e, he, hn⟩ | ⟨i, hi, rfl⟩) | ⟨e, he, hn⟩
      · exact ⟨_, (h.inserts e he).1 n hn⟩
      · exact ⟨_, (h.thens i hi).1⟩
      · exact ⟨_, (h.selects e he).1 n hn⟩
    obtain ⟨id, c, hc, -⟩ := hof
    exact (List.getElem?_eq_some_iff.mp hc).1
  exact {
    nodup := hwaits.nodup_iff.mpr
      (List.nodup_cons.mpr ⟨fun hn => Nat.lt_irrefl _ (hbound _ hn), h.nodup⟩)
    unsettled := by
      intro n hn
      rw [hsettled]
      rcases List.mem_cons.mp (hwaits.mem_iff.mp hn) with rfl | hn
      · exact hnew
      · exact h.unsettled n hn
    placed := by
      intro n hn hs
      rw [hcalls, List.length_append, List.length_singleton] at hn
      rw [hsettled] at hs
      refine hwaits.mem_iff.mpr (List.mem_cons.mpr ?_)
      rcases Nat.lt_or_ge n s.calls.length with hlt | hge
      · exact .inr (h.placed n hlt hs)
      · exact .inl (by omega)
    ownRow := hrows ▸ h.ownRow
    inserts := hinserts
    thens := by
      intro i hi
      obtain ⟨hc, hr⟩ := h.thens i (hthens ▸ hi)
      exact ⟨hcall hc, (hrow _ _).mpr hr⟩
    selects := by
      intro e he
      obtain ⟨hc, hr⟩ := h.selects e (hselecting ▸ he)
      exact ⟨fun n hn => hcall (hc n hn), (hrow _ _).mpr hr⟩
    results := by
      intro n found hs
      obtain ⟨c, row, hc, hr, hfound⟩ := h.results n found (hsettled ▸ hs)
      exact ⟨c, row, hlift hc, hrows ▸ hr, hfound⟩
    oneTicket := by
      intro id m n hm hn htm htn
      rw [hticket] at htm htn
      exact h.oneTicket id m n (hback hm htm) (hback hn htn) htm htn
    ticket := by
      intro id row hid hr
      obtain ⟨n, hc, ht⟩ := h.ticket id row hid (hrows ▸ hr)
      exact ⟨n, hlift hc, (hticket n).mpr ht⟩ }

theorem Inv.bufferedInsert (h : Inv rows s) (call : Call H) (now : ℤ) :
    Inv rows (s.bufferedInsert call now) := by
  unfold FindOrCreate.bufferedInsert
  split
  next => exact h
  next =>
    let P : Entry H (ItemState × ℕ) → Prop := fun e =>
      (∀ n ∈ e.waiters, ∃ c, (s.calls ++ [call])[n]? = some c ∧ c.id = e.key) ∧
      ∃ n ∈ e.waiters.head?, (s.calls ++ [call])[n]? = some ⟨e.key, e.value.1, e.value.2⟩
    have hlift : ∀ {n : ℕ} {c : Call H}, s.calls[n]? = some c → (s.calls ++ [call])[n]? = some c := by
      intro n c hc
      rw [List.getElem?_append_left (List.getElem?_eq_some_iff.mp hc).1, hc]
    have hlast : (s.calls ++ [call])[s.calls.length]? = some call := by simp
    have hold : ∀ e ∈ inserting s, P e := by
      intro e he
      obtain ⟨hall, n, hn, hc⟩ := h.inserts e he
      refine ⟨fun n hn => ?_, n, hn, hlift hc⟩
      obtain ⟨c, hc, hid⟩ := hall n hn
      exact ⟨c, hlift hc, hid⟩
    have hnew : P ⟨call.id, [s.calls.length], (call.newState, call.lockedById)⟩ := by
      refine ⟨fun n hn => ?_, s.calls.length, rfl, hlast⟩
      obtain rfl := List.mem_singleton.mp hn
      exact ⟨call, hlast, rfl⟩
    have hjoin : ∀ e, e.key = call.id → P e → P { e with waiters := e.waiters ++ [s.calls.length] } := by
      rintro e hkey ⟨hall, n, hn, hc⟩
      refine ⟨fun m hm => ?_, n, ?_, hc⟩
      · rcases List.mem_append.mp hm with hm | hm
        · exact hall m hm
        · obtain rfl := List.mem_singleton.mp hm
          exact ⟨call, hlast, hkey.symm⟩
      · obtain ⟨rest, hrest⟩ := List.head?_eq_some_iff.mp hn
        rw [hrest]
        rfl
    simp only [inserting, List.mem_append] at hold
    dsimp only
    cases hj : join s.calls.length call.id (call.newState, call.lockedById) s.insertInProc with
    | some inProc =>
        refine Inv.insertProcessBuf ?_ now
        refine h.insert call rfl rfl rfl rfl rfl ?_ ?_
        · simp only [inserting, waiting_append]
          exact ((waiting_join hj).append_left _).trans List.perm_middle
        · simp only [inserting, List.mem_append]
          rintro e (he | he)
          · exact hold e (.inl he)
          · exact forall_join hj hnew (fun e _ => hjoin e) (fun e he => hold e (.inr he)) e he
    | none =>
        refine Inv.insertProcessBuf ?_ now
        refine h.insert call rfl rfl rfl rfl rfl ?_ ?_
        · simp only [inserting, waiting_append]
          exact waiting_push.append_right _
        · simp only [inserting, List.mem_append]
          rintro e (he | he)
          · exact forall_push hnew (fun e _ => hjoin e) (fun e he => hold e (.inl he)) e he
          · exact hold e (.inr he)

/-! ### Answers of inserts -/

/-- The entry of an insert is answered: its calls go on, with the inserted id if the row was made. -/
structure Answered (s s' : FindOrCreate H) (e : Entry H (ItemState × ℕ)) (insertedId : Option ℕ) :
    Prop where
  calls : s'.calls = s.calls
  settled : s'.settled = s.settled
  inserting : (inserting s).Perm (e :: inserting s')
  thens : s'.thens = s.thens ++ e.waiters.map fun caller => ⟨caller, e.key, insertedId⟩
  selecting : selecting s' = selecting s

omit [DecidableEq H] in
theorem Answered.waits {e : Entry H (ItemState × ℕ)} {i : Option ℕ} (ha : Answered s s' e i) :
    (waits s').Perm (waits s) := by
  have hmap : s'.thens.map (·.caller) = s.thens.map (·.caller) ++ e.waiters := by
    simp [ha.thens, Function.comp_def]
  have hinserting : (waiting (FindOrCreate.inserting s)).Perm
      (e.waiters ++ waiting (FindOrCreate.inserting s')) :=
    waiting_perm ha.inserting
  rw [FindOrCreate.waits, FindOrCreate.waits, hmap, ha.selecting]
  refine List.Perm.append_right _ ?_
  refine (List.perm_append_comm_assoc _ _ _).trans ?_
  refine List.perm_append_comm.trans ?_
  refine (List.Perm.append_right _ List.perm_append_comm).trans ?_
  exact hinserting.symm.append_right _

omit [DecidableEq H] in
/-- The parts of the invariant that stay, where rows only come. -/
theorem Inv.answered {e : Entry H (ItemState × ℕ)} {i : Option ℕ} (h : Inv rows s)
    (ha : Answered s s' e i) (hgrow : ∀ id row, s.rows id = some row → s'.rows id = some row)
    (hown : ∀ id row, s'.rows id = some row → row.id = id) (hrow : RowOf s' e.key i)
    (hone : ∀ id m n, CallOf s m id → CallOf s n id → Ticket s' m → Ticket s' n → m = n)
    (hticket : ∀ id row, rows id = none → s'.rows id = some row →
      ∃ n, s.calls[n]? = some ⟨id, row.state, row.lockedByRecordId⟩ ∧ Ticket s' n) : Inv rows s' := by
  have hcall : ∀ n id, CallOf s' n id ↔ CallOf s n id := fun n id => by rw [CallOf, CallOf, ha.calls]
  have hrowOf : ∀ {id i}, RowOf s id i → RowOf s' id i := by
    rintro id i ⟨row, hr, hi⟩
    exact ⟨row, hgrow id row hr, hi⟩
  have hentry : e ∈ inserting s := ha.inserting.mem_iff.mpr (.head _)
  exact {
    nodup := ha.waits.nodup_iff.mpr h.nodup
    unsettled := fun n hn => ha.settled ▸ h.unsettled n (ha.waits.mem_iff.mp hn)
    placed := fun n hn hs => ha.waits.mem_iff.mpr (h.placed n (ha.calls ▸ hn) (ha.settled ▸ hs))
    ownRow := hown
    inserts := fun e' he' => by
      simp only [hcall, ha.calls]
      exact h.inserts e' (ha.inserting.mem_iff.mpr (.tail _ he'))
    thens := fun j hj => by
      rw [hcall]
      rw [ha.thens, List.mem_append, List.mem_map] at hj
      rcases hj with hj | ⟨caller, hcaller, rfl⟩
      · obtain ⟨hc, hr⟩ := h.thens j hj
        exact ⟨hc, hrowOf hr⟩
      · exact ⟨(h.inserts e hentry).1 caller hcaller, hrow⟩
    selects := fun e' he' => by
      simp only [hcall]
      obtain ⟨hc, hr⟩ := h.selects e' (ha.selecting ▸ he')
      exact ⟨hc, hrowOf hr⟩
    results := fun n found hs => by
      obtain ⟨call, row, hc, hr, hfound⟩ := h.results n found (ha.settled ▸ hs)
      exact ⟨call, row, ha.calls ▸ hc, hgrow _ _ hr, hfound⟩
    oneTicket := fun id m n => by
      rw [hcall, hcall]
      exact hone id m n
    ticket := fun id row hid hr => by
      rw [ha.calls]
      exact hticket id row hid hr }

omit [DecidableEq H] in
/-- The tickets are those of before and, where the row was made, those of the entry. -/
theorem Answered.ticket {e : Entry H (ItemState × ℕ)} {i : Option ℕ} (ha : Answered s s' e i) (n : ℕ) :
    Ticket s' n ↔ Ticket s n ∨ n ∈ e.waiters ∧ i ≠ none := by
  have hthen : (∃ j ∈ s'.thens, j.caller = n ∧ j.insertedId ≠ none) ↔
      (∃ j ∈ s.thens, j.caller = n ∧ j.insertedId ≠ none) ∨ n ∈ e.waiters ∧ i ≠ none := by
    rw [ha.thens]
    constructor
    · rintro ⟨j, hj, hn, hi⟩
      rcases List.mem_append.mp hj with hj | hj
      · exact .inl ⟨j, hj, hn, hi⟩
      · obtain ⟨caller, hcaller, rfl⟩ := List.mem_map.mp hj
        obtain rfl : caller = n := hn
        exact .inr ⟨hcaller, hi⟩
    · rintro (⟨j, hj, h⟩ | ⟨hn, hi⟩)
      · exact ⟨j, List.mem_append_left _ hj, h⟩
      · exact ⟨_, List.mem_append_right _ (List.mem_map_of_mem hn), rfl, hi⟩
  rw [Ticket, Ticket, hthen, ha.selecting, JustCreated, JustCreated, ha.settled]
  exact or_right_comm

theorem Inv.insertEntry {e : Entry H (ItemState × ℕ)} {es : List (Entry H (ItemState × ℕ))}
    (h : Inv rows { s with insertInProc := (e :: es) :: s.insertInProc })
    (hclean : s.rows e.key = none → e.waiters.length = 1) (now : ℤ) (random : H → ℤ) :
    Inv rows { insertEntry now random s e with insertInProc := es :: s.insertInProc } := by
  have hinserting : ∀ s' : FindOrCreate H, s'.insertBuf = s.insertBuf →
      (inserting { s with insertInProc := (e :: es) :: s.insertInProc }).Perm
        (e :: inserting { s' with insertInProc := es :: s.insertInProc }) := by
    intro s' hs'
    simp only [inserting, List.flatten_cons, hs', List.cons_append]
    exact List.perm_middle
  rcases hrow : s.rows e.key with _ | row
  · have hs : FindOrCreate.insertEntry now random s e = { s with
        rows := Function.update s.rows e.key (some (insertRow now random s e))
        nextId := s.nextId + 1
        thens := s.thens ++ e.waiters.map fun caller => ⟨caller, e.key, some s.nextId⟩ } := by
      simp only [FindOrCreate.insertEntry, hrow]
    rw [hs]
    have ha : Answered { s with insertInProc := (e :: es) :: s.insertInProc } { s with
        rows := Function.update s.rows e.key (some (insertRow now random s e))
        nextId := s.nextId + 1
        thens := s.thens ++ e.waiters.map fun caller => ⟨caller, e.key, some s.nextId⟩
        insertInProc := es :: s.insertInProc } e (some s.nextId) :=
      ⟨rfl, rfl, hinserting s rfl, rfl, rfl⟩
    obtain ⟨caller, hwaiters⟩ := List.length_eq_one_iff.mp (hclean hrow)
    obtain ⟨hcallers, n, hn, hcall⟩ := h.inserts e (ha.inserting.mem_iff.mpr (.head _))
    have hof := hcallers caller (by simp [hwaiters])
    obtain rfl : caller = n := by simpa [hwaiters] using hn
    -- An id without a row has no ticket.
    have hnone : ∀ m, CallOf s m e.key → ¬ Ticket { s with insertInProc := (e :: es) :: s.insertInProc } m := by
      rintro m ⟨c, hc, hid⟩ ht
      obtain ⟨id, ⟨c', hc', rfl⟩, hrow'⟩ := h.ticket_row ht
      obtain rfl := Option.some.inj (hc.symm.trans hc')
      exact hrow' (hid ▸ hrow)
    refine h.answered ha ?_ ?_ ?_ ?_ ?_
    · intro id row' hr
      have hne : id ≠ e.key := by
        rintro rfl
        exact absurd (hrow.symm.trans hr) nofun
      exact (Function.update_of_ne hne _ _).trans hr
    · intro id row' hr
      by_cases hid : id = e.key
      · subst hid
        change Function.update s.rows e.key (some (insertRow now random s e)) e.key = some row' at hr
        rw [Function.update_self] at hr
        obtain rfl := Option.some.inj hr
        rfl
      · exact h.ownRow id row' ((Function.update_of_ne hid _ _).symm.trans hr)
    · exact ⟨_, Function.update_self _ _ _, fun k hk => Option.some.inj hk⟩
    · intro id m m' hm hm' htm htm'
      rw [ha.ticket, hwaiters, List.mem_singleton] at htm htm'
      by_cases hid : id = e.key
      · subst hid
        obtain ⟨rfl, -⟩ := htm.resolve_left (hnone m hm)
        obtain ⟨rfl, -⟩ := htm'.resolve_left (hnone m' hm')
        rfl
      · have hother : ∀ k, CallOf s k id → k ≠ caller := by
          rintro k ⟨c, hc, rfl⟩ rfl
          obtain ⟨c', hc', hid'⟩ := hof
          obtain rfl := Option.some.inj (hc.symm.trans hc')
          exact hid hid'
        exact h.oneTicket id m m' hm hm' (htm.resolve_right fun ht => hother m hm ht.1)
          (htm'.resolve_right fun ht => hother m' hm' ht.1)
    · intro id row' hid hr
      by_cases hkey : id = e.key
      · subst hkey
        change Function.update s.rows e.key (some (insertRow now random s e)) e.key = some row' at hr
        rw [Function.update_self] at hr
        obtain rfl := Option.some.inj hr
        exact ⟨caller, hcall, (ha.ticket _).mpr (.inr ⟨by simp [hwaiters], nofun⟩)⟩
      · obtain ⟨m, hm, ht⟩ := h.ticket id row' hid ((Function.update_of_ne hkey _ _).symm.trans hr)
        exact ⟨m, hm, (ha.ticket _).mpr (.inl ht)⟩
  · have hs : FindOrCreate.insertEntry now random s e =
        { s with thens := s.thens ++ e.waiters.map fun caller => ⟨caller, e.key, none⟩ } := by
      simp only [FindOrCreate.insertEntry, hrow]
    rw [hs]
    have ha : Answered { s with insertInProc := (e :: es) :: s.insertInProc } { s with
        thens := s.thens ++ e.waiters.map fun caller => ⟨caller, e.key, none⟩
        insertInProc := es :: s.insertInProc } e none := ⟨rfl, rfl, hinserting s rfl, rfl, rfl⟩
    have hticket : ∀ n, _ ↔ _ := fun n => (ha.ticket n).trans (or_iff_left fun h => h.2 rfl)
    refine h.answered ha (fun _ _ hr => hr) h.ownRow ⟨row, hrow, nofun⟩ ?_ ?_
    · intro id m m' hm hm' htm htm'
      exact h.oneTicket id m m' hm hm' ((hticket m).mp htm) ((hticket m').mp htm')
    · intro id row' hid hr
      obtain ⟨m, hm, ht⟩ := h.ticket id row' hid hr
      exact ⟨m, hm, (hticket m).mpr ht⟩

theorem insertEntry_inProc (now : ℤ) (random : H → ℤ) (s : FindOrCreate H)
    (e : Entry H (ItemState × ℕ)) : (insertEntry now random s e).insertInProc = s.insertInProc := by
  unfold insertEntry
  split <;> rfl

/-- Rows only come. -/
theorem insertEntry_row {now : ℤ} {random : H → ℤ} {e : Entry H (ItemState × ℕ)}
    (h : (insertEntry now random s e).rows id = none) : s.rows id = none := by
  unfold insertEntry at h
  split at h
  next => exact h
  next hrow =>
    by_cases hid : id = e.key
    · rw [hid, hrow]
    · exact (Function.update_of_ne hid _ _).symm.trans h

theorem Inv.insertAll {chunk : List (Entry H (ItemState × ℕ))} (now : ℤ) (random : H → ℤ)
    (h : Inv rows { s with insertInProc := chunk :: s.insertInProc })
    (hclean : ∀ e ∈ chunk, s.rows e.key = none → e.waiters.length = 1) :
    Inv rows (chunk.foldl (FindOrCreate.insertEntry now random) s) := by
  induction chunk generalizing s with
  | nil => exact h.of_perm rfl rfl (.refl _) rfl (.refl _) rfl
  | cons e chunk ih =>
      refine ih ?_ fun e' he' hrow => hclean e' (.tail _ he') (insertEntry_row hrow)
      rw [insertEntry_inProc]
      exact h.insertEntry (hclean e (.head _)) now random

omit [DecidableEq H] in
/-- Taking a chunk out of those in flight, to answer it. -/
theorem Inv.take {i : ℕ} {chunk : List (Entry H (ItemState × ℕ))} (h : Inv rows s)
    (hchunk : s.insertInProc[i]? = some chunk) :
    Inv rows { s with insertInProc := chunk :: s.insertInProc.eraseIdx i } :=
  h.of_perm rfl rfl ((flatten_eraseIdx hchunk).append_left _) rfl (.refl _) rfl

/-! ### From inserts to selects -/

/-- A call goes on to an entry of selects with its own inserted id. -/
theorem Inv.bufferedSelect {i : Inserted H} {thens : List (Inserted H)} (h : Inv rows s)
    (hthens : s.thens = i :: thens)
    (hclean : ∀ e ∈ s.selectBuf, e.key = i.id → e.value = i.insertedId) (now : ℤ) :
    Inv rows ({ s with thens := thens }.bufferedSelect i now) := by
  refine Inv.selectProcessBuf ?_ now
  obtain ⟨hcall, hrow⟩ := h.thens i (hthens ▸ .head _)
  have hselecting : ∀ e, e ∈ s.selectBuf ∨ e ∈ s.selectInProc.flatten →
      (∀ n ∈ e.waiters, CallOf s n e.key) ∧ RowOf s e.key e.value :=
    fun e he => h.selects e (List.mem_append.mpr he)
  have hwaits : (waits { s with
      thens := thens, selectBuf := push i.caller i.id i.insertedId s.selectBuf }).Perm (waits s) := by
    simp only [waits, inserting, selecting, hthens, waiting_append, List.map_cons, List.append_assoc]
    refine (((waiting_push.append_right _).append_left _).append_left _).append_left _ |>.trans ?_
    refine List.Perm.append_left _ (List.Perm.append_left _ ?_)
    rw [List.cons_append]
    exact List.perm_middle
  have hticket : ∀ n, Ticket { s with
      thens := thens, selectBuf := push i.caller i.id i.insertedId s.selectBuf } n ↔ Ticket s n := by
    intro n
    simp only [Ticket, JustCreated, selecting, hthens, List.mem_append]
    constructor
    · rintro (⟨j, hj, hn⟩ | ⟨e, he | he, hn⟩ | hr)
      · exact .inl ⟨j, .tail _ hj, hn⟩
      · let P : Entry H (Option ℕ) → Prop := fun e => n ∈ e.waiters → e.value ≠ none →
          (n = i.caller ∧ i.insertedId ≠ none) ∨ ∃ e ∈ s.selectBuf, n ∈ e.waiters ∧ e.value ≠ none
        have hP : ∀ e ∈ push i.caller i.id i.insertedId s.selectBuf, P e := by
          refine forall_push ?_ ?_ ?_
          · intro hn hv
            exact .inl ⟨List.mem_singleton.mp hn, hv⟩
          · intro e he hkey _ hn hv
            rcases List.mem_append.mp hn with hn | hn
            · exact .inr ⟨e, he, hn, hv⟩
            · exact .inl ⟨List.mem_singleton.mp hn, hclean e he hkey ▸ hv⟩
          · intro e he hn hv
            exact .inr ⟨e, he, hn, hv⟩
        rcases hP e he hn.1 hn.2 with ⟨rfl, hi⟩ | ⟨e, he, hn⟩
        · exact .inl ⟨i, .head _, rfl, hi⟩
        · exact .inr (.inl ⟨e, .inl he, hn⟩)
      · exact .inr (.inl ⟨e, .inr he, hn⟩)
      · exact .inr (.inr hr)
    · rintro (⟨j, hj, hn, hi⟩ | ⟨e, he | he, hn⟩ | hr)
      · rcases List.mem_cons.mp hj with rfl | hj
        · obtain ⟨e, he, hw, hv⟩ := pushed j.caller j.id j.insertedId s.selectBuf
          refine .inr (.inl ⟨e, .inl he, hn ▸ hw, ?_⟩)
          rcases hv with hv | ⟨e', he', hkey, hv⟩
          · exact hv ▸ hi
          · rw [hv, hclean e' he' hkey]
            exact hi
        · exact .inl ⟨j, hj, hn, hi⟩
      · obtain ⟨e', he', hw, hv⟩ := still_waits he hn.1
        exact .inr (.inl ⟨e', .inl he', hw, hv ▸ hn.2⟩)
      · exact .inr (.inl ⟨e, .inr he, hn⟩)
      · exact .inr (.inr hr)
  exact {
    nodup := hwaits.nodup_iff.mpr h.nodup
    unsettled := fun n hn => h.unsettled n (hwaits.mem_iff.mp hn)
    placed := fun n hn hs => hwaits.mem_iff.mpr (h.placed n hn hs)
    ownRow := h.ownRow
    inserts := h.inserts
    thens := fun j hj => h.thens j (hthens ▸ .tail _ hj)
    selects := by
      simp only [selecting, List.mem_append]
      rintro e (he | he)
      · refine forall_push ?_ ?_ (fun e he => hselecting e (.inl he)) e he
        · refine ⟨fun n hn => ?_, hrow⟩
          obtain rfl := List.mem_singleton.mp hn
          exact hcall
        · rintro e he hkey ⟨hall, hr⟩
          refine ⟨fun n hn => ?_, hr⟩
          rcases List.mem_append.mp hn with hn | hn
          · exact hall n hn
          · obtain rfl := List.mem_singleton.mp hn
            exact hkey ▸ hcall
      · exact hselecting e (.inr he)
    results := h.results
    oneTicket := fun id m n hm hn htm htn =>
      h.oneTicket id m n hm hn ((hticket m).mp htm) ((hticket n).mp htn)
    ticket := fun id row hid hr => by
      obtain ⟨n, hc, ht⟩ := h.ticket id row hid hr
      exact ⟨n, hc, (hticket n).mpr ht⟩ }

/-! ### Answers of selects -/

omit [DecidableEq H] in
theorem Inv.takeSelect {i : ℕ} {chunk : List (Entry H (Option ℕ))} (h : Inv rows s)
    (hchunk : s.selectInProc[i]? = some chunk) :
    Inv rows { s with selectInProc := chunk :: s.selectInProc.eraseIdx i } :=
  h.of_perm rfl rfl (.refl _) rfl ((flatten_eraseIdx hchunk).append_left _) rfl

omit [DecidableEq H] in
/-- The calls of an entry are told of the row, and that they have created it where they carry its id. -/
theorem Inv.selectEntry {e : Entry H (Option ℕ)} {es : List (Entry H (Option ℕ))}
    (h : Inv rows { s with selectInProc := (e :: es) :: s.selectInProc }) :
    Inv rows { selectEntry s e with selectInProc := es :: s.selectInProc } := by
  have hselecting : (selecting { s with selectInProc := (e :: es) :: s.selectInProc }).Perm
      (e :: selecting { s with selectInProc := es :: s.selectInProc }) := by
    simp only [selecting, List.flatten_cons, List.cons_append]
    exact List.perm_middle
  have hentry := hselecting.mem_iff.mpr (.head _)
  obtain ⟨hcallers, row, hrow, hid⟩ := h.selects e hentry
  have hs : FindOrCreate.selectEntry s e = s.settle e.waiters (some (selected e row)) := by
    simp only [FindOrCreate.selectEntry, show s.rows e.key = some row from hrow]
  rw [hs]
  have hwaits : (waits { s with selectInProc := (e :: es) :: s.selectInProc }).Perm
      (e.waiters ++ waits { s with selectInProc := es :: s.selectInProc }) := by
    have := waiting_perm hselecting
    rw [waits, waits]
    exact (this.append_left _).trans (List.perm_append_comm_assoc _ _ _)
  have hnodup := hwaits.nodup_iff.mp h.nodup
  have hdisjoint := List.disjoint_of_nodup_append hnodup
  have hopen : ∀ n ∈ e.waiters, s.settled n = none := fun n hn =>
    h.unsettled n (hwaits.mem_iff.mpr (List.mem_append_left _ hn))
  have hkept : ∀ n found, s.settled n = some found →
      (s.settle e.waiters (some (selected e row))).settled n = some found := by
    intro n found hn
    exact (if_neg (by simp [hn])).trans hn
  have hsettled : ∀ n found, (s.settle e.waiters (some (selected e row))).settled n = some found →
      s.settled n = some found ∨ n ∈ e.waiters ∧ found = some (selected e row) := by
    intro n found hn
    simp only [settle] at hn
    split at hn
    next hc => exact .inr ⟨hc.2, (Option.some.inj hn).symm⟩
    next => exact .inl hn
  have hticket : ∀ n,
      Ticket { s.settle e.waiters (some (selected e row)) with
        selectInProc := es :: s.selectInProc } n ↔
      Ticket { s with selectInProc := (e :: es) :: s.selectInProc } n := by
    intro n
    constructor
    · rintro (hthen | ⟨e', he', hn⟩ | ⟨r, hr, hcreated⟩)
      · exact .inl hthen
      · exact .inr (.inl ⟨e', hselecting.mem_iff.mpr (.tail _ he'), hn⟩)
      · rcases hsettled n _ hr with hr | ⟨hn, hr⟩
        · exact .inr (.inr ⟨r, hr, hcreated⟩)
        · obtain rfl := Option.some.inj hr
          refine .inr (.inl ⟨e, hentry, hn, ?_⟩)
          rw [← of_decide_eq_true hcreated]
          exact nofun
    · rintro (hthen | ⟨e', he', hn, hv⟩ | ⟨r, hr, hcreated⟩)
      · exact .inl hthen
      · rcases List.mem_cons.mp (hselecting.mem_iff.mp he') with rfl | he'
        · refine .inr (.inr ⟨selected e' row, if_pos ⟨hopen n hn, hn⟩, ?_⟩)
          obtain ⟨k, hk⟩ := Option.ne_none_iff_exists'.mp hv
          exact decide_eq_true (by rw [hk, hid k hk])
        · exact .inr (.inl ⟨e', he', hn, hv⟩)
      · exact .inr (.inr ⟨r, hkept n _ hr, hcreated⟩)
  exact {
    nodup := hnodup.of_append_right
    unsettled := fun n hn => by
      refine (if_neg fun hc => ?_).trans
        (h.unsettled n (hwaits.mem_iff.mpr (List.mem_append_right _ hn)))
      exact hdisjoint hc.2 hn
    placed := fun n hn hs => by
      have hnone : s.settled n = none := by
        cases hf : s.settled n with
        | none => rfl
        | some found => exact absurd (hs.symm.trans (hkept n found hf)) nofun
      rcases List.mem_append.mp (hwaits.mem_iff.mp (h.placed n hn hnone)) with hw | hw
      · exact absurd (hs.symm.trans (if_pos ⟨hnone, hw⟩)) nofun
      · exact hw
    ownRow := h.ownRow
    inserts := h.inserts
    thens := h.thens
    selects := fun e' he' => h.selects e' (hselecting.mem_iff.mpr (.tail _ he'))
    results := fun n found hf => by
      rcases hsettled n found hf with hf | ⟨hn, rfl⟩
      · exact h.results n found hf
      · obtain ⟨call, hc, hkey⟩ := hcallers n hn
        exact ⟨call, row, hc, hkey ▸ hrow, _, rfl⟩
    oneTicket := fun id m n hm hn htm htn =>
      h.oneTicket id m n hm hn ((hticket m).mp htm) ((hticket n).mp htn)
    ticket := fun id row hid hr => by
      obtain ⟨n, hc, ht⟩ := h.ticket id row hid hr
      exact ⟨n, hc, (hticket n).mpr ht⟩ }

omit [DecidableEq H] in
theorem selectEntry_inProc (s : FindOrCreate H) (e : Entry H (Option ℕ)) :
    (selectEntry s e).selectInProc = s.selectInProc := by
  unfold selectEntry
  split <;> rfl

omit [DecidableEq H] in
theorem Inv.selectAll {chunk : List (Entry H (Option ℕ))}
    (h : Inv rows { s with selectInProc := chunk :: s.selectInProc }) :
    Inv rows (chunk.foldl FindOrCreate.selectEntry s) := by
  induction chunk generalizing s with
  | nil => exact h.of_perm rfl rfl (.refl _) rfl (.refl _) rfl
  | cons e chunk ih =>
      refine ih ?_
      rw [selectEntry_inProc]
      exact h.selectEntry

/-! ### The main results -/

theorem step_inv {a : Action H} (h : Inv rows s) (hclean : Clean s a) (hs : step s a = some s') :
    Inv rows s' := by
  cases a with
  | call call now =>
      obtain rfl := Option.some.inj hs
      exact h.bufferedInsert call now
  | insertPulse now =>
      obtain rfl := Option.some.inj hs
      exact h.insertProcessBuf now
  | insertEnds i now random =>
      obtain ⟨chunk, hchunk, rfl⟩ := Option.map_eq_some_iff.mp hs
      exact Inv.insertAll now random (h.take hchunk) (hclean chunk hchunk)
  | insertFails i => cases hclean
  | thenRuns now =>
      simp only [step] at hs
      split at hs
      next => cases hs
      next i thens hthens =>
        obtain rfl := Option.some.inj hs
        exact h.bufferedSelect hthens (hclean i thens hthens) now
  | selectPulse now =>
      obtain rfl := Option.some.inj hs
      exact h.selectProcessBuf now
  | selectEnds i =>
      obtain ⟨chunk, hchunk, rfl⟩ := Option.map_eq_some_iff.mp hs
      exact Inv.selectAll (h.takeSelect hchunk)
  | selectFails i => cases hclean

omit [DecidableEq H] in
theorem Start.inv (h : Start s) : Inv s.rows s := by
  have hwaits : waits s = [] := by
    simp [waits, inserting, selecting, waiting, h.insertBuf, h.insertInProc, h.thens, h.selectBuf,
      h.selectInProc]
  have hticket : ∀ n, ¬ Ticket s n := by
    intro n
    simp [Ticket, JustCreated, selecting, h.settled, h.thens, h.selectBuf, h.selectInProc]
  exact {
    nodup := hwaits ▸ List.nodup_nil
    unsettled := fun n _ => h.settled n
    placed := fun n hn => by simp [h.calls] at hn
    ownRow := h.rows
    inserts := by simp [inserting, h.insertBuf, h.insertInProc]
    thens := by simp [h.thens]
    selects := by simp [selecting, h.selectBuf, h.selectInProc]
    results := fun n found hs => absurd ((h.settled n).symm.trans hs) (fun h => by cases h)
    oneTicket := fun id m n _ _ htm => absurd htm (hticket m)
    ticket := fun id row hid hr => absurd (hid.symm.trans hr) (fun h => by cases h) }

omit [DecidableEq H] in
theorem Quiet.waits (h : Quiet s) : waits s = [] := by
  simp [FindOrCreate.waits, inserting, selecting, waiting, h.insertBuf, h.insertInProc, h.thens,
    h.selectBuf, h.selectInProc]

omit [DecidableEq H] in
theorem Quiet.ticket (h : Quiet s) (n : ℕ) : Ticket s n ↔ JustCreated s n := by
  simp [Ticket, selecting, h.thens, h.selectBuf, h.selectInProc]

end FindOrCreate
end Universa.Node
