import Universa.Network.Notification

/-! What comes back of the notifications of a packet. Each is read up to its last value and no further, but for
    a parcel notification without a parcel id: that one takes the next value, if there is one, and an empty
    array as `procIndex`, which is written as the length of a value that is no array. -/

namespace Universa.Network.Notification
open Universa.Js Universa.Stream
open Universa.Contracts (HashId)
open Universa.Node (ItemState)

/-! ### What is carried, and what comes back -/

/-- The params that a process notification of a type carries. -/
def Params.carried (p : Params) : Option ProcessType → Params
  | none => { isAnswer := p.isAnswer }
  | some .SINGLE_STORAGE_GET_DATA_HASHID | some .MULTI_STORAGE_GET_DATA_HASHID =>
      if truthy p.isAnswer then
        { isAnswer := p.isAnswer, dataHashId := p.dataHashId, previousRecordId := p.previousRecordId }
      else { isAnswer := p.isAnswer }
  | some .MULTI_STORAGE_GET_CORTEGE_HASHID =>
      if truthy p.isAnswer then { isAnswer := p.isAnswer, cortegeId := p.cortegeId } else
        { isAnswer := p.isAnswer }
  | some .MULTI_STORAGE_GET_POOL_HASHES =>
      if truthy p.isAnswer then
        { isAnswer := p.isAnswer, dataUbotInPool := p.dataUbotInPool, dataHashId := p.dataHashId
          previousRecordId := p.previousRecordId }
      else { isAnswer := p.isAnswer, dataUbotInPool := p.dataUbotInPool }
  | some .MULTI_STORAGE_GET_CORTEGES =>
      if truthy p.isAnswer then
        { isAnswer := p.isAnswer, commonCortegeIteration := p.commonCortegeIteration, cortege := p.cortege }
      else { isAnswer := p.isAnswer, commonCortegeIteration := p.commonCortegeIteration }
  | some .MULTI_STORAGE_GET_SUSPICIOUS_CORTEGE_HASHID =>
      if truthy p.isAnswer then
        { isAnswer := p.isAnswer, commonCortegeIteration := p.commonCortegeIteration
          dataUbotInPool := p.dataUbotInPool, cortegeId := p.cortegeId }
      else { isAnswer := p.isAnswer, commonCortegeIteration := p.commonCortegeIteration
             dataUbotInPool := p.dataUbotInPool }
  | some .MULTI_STORAGE_GET_DECISIONS | some .MULTI_STORAGE_VOTE_DECISION =>
      if truthy p.isAnswer then
        { isAnswer := p.isAnswer, commonCortegeIteration := p.commonCortegeIteration, decision := p.decision }
      else { isAnswer := p.isAnswer, commonCortegeIteration := p.commonCortegeIteration }
  | some .MULTI_STORAGE_VOTE_EXCLUSION_SUSPICIOUS =>
      if truthy p.isAnswer then
        { isAnswer := p.isAnswer, commonCortegeIteration := p.commonCortegeIteration, suspect := p.suspect
          decision := p.decision }
      else { isAnswer := p.isAnswer, commonCortegeIteration := p.commonCortegeIteration, suspect := p.suspect }

/-- The notification with what its kind carries: a resync notification that requests a result has no state. -/
def Body.carried : Body → Body
  | .resync n itemState hasEnvironment =>
      if truthy n.requestResult then .resync n (some .UNDEFINED) (.bool false)
      else .resync n itemState hasEnvironment
  | .ubotProcess poolId storageId procIndex type params =>
      .ubotProcess poolId storageId procIndex type (params.carried type)
  | n => n

/-- A time that was written. -/
def Time.back : Time → Time
  | .null => .at 0
  | .at time => .at (time / 1000 * 1000)
  | .invalid => .invalid

/-- A notification on an item that was written. -/
def ItemNotification.back (n : ItemNotification) : ItemNotification :=
  { n with itemResult :=
      { n.itemResult with createdAt := n.itemResult.createdAt.back, expiresAt := n.itemResult.expiresAt.back } }

/-- The notification on an item that a notification is. -/
def Body.item? : Body → Option ItemNotification
  | .item n | .parcel n _ _ | .resync n _ _ => some n
  | _ => none

/-- A notification that was written: what it carries, with the times as they come back. -/
def Body.back (n : Body) : Body :=
  match n.carried with
  | .item n => .item n.back
  | .parcel n type parcelId => .parcel n.back type parcelId
  | .resync n itemState hasEnvironment => .resync n.back itemState hasEnvironment
  | n => n

/-- A parcel notification without a parcel id. -/
def Body.Open : Body → Prop
  | .parcel _ _ parcelId => parcelId = none
  | _ => False

/-- A process notification whose `procIndex` is an empty array. -/
def Body.EmptyIndex : Body → Prop
  | .ubotProcess _ _ procIndex _ _ => procIndex = .arr []
  | _ => False

/-- The value of a test notification is a text. -/
def Body.TextValue : Body → Prop
  | .ubotTest textValue _ => ∃ s, textValue = .str s
  | _ => True

/-! ### Readers of values -/

theorem reads_value (v : Value) : Reads readValue [v] v := fun _ => rfl

theorem reads_hash (h : HashId) : Reads readHash [.bytes h.digest] h := fun _ => rfl

theorem reads_nullableHash (h : Option HashId) : Reads readNullableHashId [writeNullableHashId h] h := by
  cases h with
  | none => exact fun _ => rfl
  | some h => exact fun _ => rfl

theorem toInteger_intCast (n : ℤ) : Date.toInteger (n : ℚ) = n := by
  unfold Date.toInteger
  split <;> simp

theorem reads_time (t : Time) : Reads readTime [t.write] t.back := by
  have hfin : ∀ s : ℤ, Reads readTime [number (s : ℚ)] (.at (s * 1000)) := by
    intro s rest
    have hdate : Date.ofNumber ((Number.fin s).mul (.fin 1000)) = some (s * 1000) := by
      rw [Number.mul_fin, Date.ofNumber, Date.ofMilliseconds]
      exact_mod_cast congrArg some (toInteger_intCast (s * 1000))
    change Except.ok ((Date.ofNumber ((Number.fin s).mul (.fin 1000))).elim Time.invalid Time.at, rest) = _
    rw [hdate]
    rfl
  cases t with
  | null => exact_mod_cast hfin 0
  | «at» time => exact hfin (time / 1000)
  | invalid => exact fun _ => rfl

/-- The ordinals of an enumeration tell its values apart. -/
def Enumeration.Lawful {T : Type} (e : Enumeration T) : Prop :=
  ∀ x, e.byOrdinal (some (number (e.ordinal x))) = some x

theorem Enumeration.lawful {T : Type} {e : Enumeration T} (hnodup : (e.all.map e.ordinal).Nodup)
    (hall : ∀ x, x ∈ e.all) : e.Lawful :=
  fun x => byNumber_number hnodup (hall x)

theorem itemStates_lawful : itemStates.Lawful :=
  Enumeration.lawful (by decide) fun x => by cases x <;> simp [itemStates]

theorem parcelTypes_lawful : parcelTypes.Lawful :=
  Enumeration.lawful (by decide) fun x => by cases x <;> simp [parcelTypes]

theorem callbackTypes_lawful : callbackTypes.Lawful :=
  Enumeration.lawful (by decide) fun x => by cases x <;> simp [callbackTypes]

theorem callbackStates_lawful : callbackStates.Lawful :=
  Enumeration.lawful (by decide) fun x => by cases x <;> simp [callbackStates]

theorem cloudTypes_lawful : cloudTypes.Lawful :=
  Enumeration.lawful (by decide) fun x => by cases x; simp [cloudTypes]

theorem processTypes_lawful : processTypes.Lawful :=
  Enumeration.lawful (by decide) fun x => by cases x <;> simp [processTypes]

/-- A written value of an enumeration comes back. -/
theorem Enumeration.Lawful.byOrdinal {T : Type} {e : Enumeration T} (he : e.Lawful) {x : Option T} {v : Value}
    (h : e.write x = .ok v) : e.byOrdinal (some v) = x := by
  cases x with
  | none => cases h
  | some x =>
    obtain rfl := Except.ok.inj h
    exact he x

/-! ### Readers of notifications -/

theorem reads_itemResult {r : ItemResult} {vs : List Value} (h : r.writeTo = .ok vs) :
    Reads ItemResult.fromReader vs { r with createdAt := r.createdAt.back, expiresAt := r.expiresAt.back } := by
  obtain ⟨state, hstate, h⟩ := Except.bind_eq_ok.mp h
  obtain rfl := Except.ok.inj h
  refine (Reads.next state).first ?_
  rw [itemStates_lawful.byOrdinal hstate]
  exact (reads_time r.createdAt).first
    ((reads_time r.expiresAt).first ((reads_value r.haveCopy).first Reads.pure))

theorem reads_item {n : ItemNotification} {vs : List Value} (h : n.writeTo = .ok vs) :
    Reads ItemNotification.readFrom vs n.back := by
  obtain ⟨ws, hws, h⟩ := Except.bind_eq_ok.mp h
  obtain rfl := Except.ok.inj h
  exact (reads_hash n.itemId).first
    ((reads_itemResult hws).bind ((reads_value n.requestResult).first Reads.pure))

theorem turns_number (n : ℕ) : turns (some (number n)) = .ok n := by
  change Except.ok ⌈(n : ℚ)⌉.toNat = _
  rw [Int.ceil_natCast, Int.toNat_natCast]

theorem reads_values (vs : List Value) : Reads (times readValue vs.length) vs vs := by
  have h : Reads (times readValue vs.length) (vs.flatMap fun v => [v]) (vs.map fun v => v) :=
    Reads.times fun v _ => reads_value v
  simpa using h

/-- After the length 0 stands a value. -/
theorem reads_scalarIndex (v : Value) : Reads readProcIndex [number 0, v] v := by
  refine (Reads.next _).first ?_
  rw [if_pos (by simp [isNumber, number])]
  exact reads_value v

theorem reads_procIndex {procIndex : Value} (h : procIndex ≠ .arr []) :
    Reads readProcIndex (writeProcIndex procIndex) procIndex := by
  cases procIndex with
  | arr xs =>
    have hlength : (xs.length : ℚ) ≠ 0 := by
      rw [Nat.cast_ne_zero, Ne, List.length_eq_zero_iff]
      rintro rfl
      exact h rfl
    refine (Reads.next _).first ?_
    rw [if_neg (by simpa [isNumber, number] using hlength), turns_number]
    exact (Reads.lift rfl).bind ((reads_values xs).last Reads.pure)
  | _ => exact reads_scalarIndex _

theorem digest_eq_ok {hash : Option HashId} {v : Value} (h : digest hash = .ok v) :
    ∃ id, hash = some id ∧ v = .bytes id.digest := by
  cases hash with
  | none => cases h
  | some id => exact ⟨id, rfl, (Except.ok.inj h).symm⟩

theorem truthy_bool (b : Bool) : truthy (.bool b) = b := rfl

/-- The answer to a request for the hash of the data. -/
theorem reads_dataHash {p : Params} {vs : List Value}
    (h : (do return (← digest p.dataHashId) :: (p.previousRecordId.map fun id => Value.bytes id.digest).toList :
      Except Thrown (List Value)) = .ok vs) :
    Reads (do
        let dataHashId ← readHash
        if p.previousRecordId.isNone = true then
          return { isAnswer := p.isAnswer, dataHashId := some dataHashId }
        else
          return { isAnswer := p.isAnswer, dataHashId := some dataHashId
                   previousRecordId := some (← readHash) })
      vs ({ isAnswer := p.isAnswer, dataHashId := p.dataHashId
            previousRecordId := p.previousRecordId } : Params) := by
  obtain ⟨v, hv, h⟩ := Except.bind_eq_ok.mp h
  obtain ⟨dataHashId, hdata, rfl⟩ := digest_eq_ok hv
  obtain rfl := Except.ok.inj h
  rw [hdata]
  refine (reads_hash dataHashId).first ?_
  cases p.previousRecordId with
  | none => exact Reads.pure
  | some id => exact (reads_hash id).first Reads.pure

/-- What is written of the params after the type is what is read. -/
theorem reads_params {p : Params} {type : ProcessType} {vs : List Value} (h : p.writeTo type = .ok vs) :
    Reads (Params.readFrom p.isAnswer (.bool p.previousRecordId.isNone) (some type)) vs
      (p.carried (some type)) := by
  by_cases hanswer : truthy p.isAnswer = true
  · cases type <;> simp only [Params.writeTo, Params.readFrom, Params.carried, hanswer, if_true,
      truthy_bool] at h ⊢
    case SINGLE_STORAGE_GET_DATA_HASHID => exact reads_dataHash h
    case MULTI_STORAGE_GET_DATA_HASHID => exact reads_dataHash h
    case MULTI_STORAGE_GET_CORTEGE_HASHID =>
      obtain ⟨v, hv, h⟩ := Except.bind_eq_ok.mp h
      obtain ⟨cortegeId, hcortege, rfl⟩ := digest_eq_ok hv
      obtain rfl := Except.ok.inj h
      rw [hcortege]
      exact (reads_hash cortegeId).first Reads.pure
    case MULTI_STORAGE_GET_POOL_HASHES =>
      obtain rfl := Except.ok.inj h
      refine (reads_value p.dataUbotInPool).first ((reads_nullableHash p.dataHashId).first ?_)
      cases p.previousRecordId with
      | none => exact Reads.pure
      | some id => exact (reads_nullableHash (some id)).first Reads.pure
    case MULTI_STORAGE_GET_SUSPICIOUS_CORTEGE_HASHID =>
      obtain ⟨v, hv, h⟩ := Except.bind_eq_ok.mp h
      obtain ⟨cortegeId, hcortege, rfl⟩ := digest_eq_ok hv
      obtain rfl := Except.ok.inj h
      rw [hcortege]
      refine (reads_value p.commonCortegeIteration).first ((reads_value p.dataUbotInPool).first ?_)
      exact (reads_hash cortegeId).first Reads.pure
    case MULTI_STORAGE_VOTE_EXCLUSION_SUSPICIOUS =>
      obtain rfl := Except.ok.inj h
      refine (reads_value p.commonCortegeIteration).first ((reads_value p.suspect).first ?_)
      exact (reads_value p.decision).first Reads.pure
    case MULTI_STORAGE_GET_CORTEGES =>
      obtain rfl := Except.ok.inj h
      exact (reads_value p.commonCortegeIteration).first ((reads_value p.cortege).first Reads.pure)
    all_goals
      obtain rfl := Except.ok.inj h
      exact (reads_value p.commonCortegeIteration).first ((reads_value p.decision).first Reads.pure)
  · cases type <;> simp only [Params.writeTo, Params.readFrom, Params.carried, hanswer] at h ⊢
    case MULTI_STORAGE_GET_SUSPICIOUS_CORTEGE_HASHID =>
      obtain rfl := Except.ok.inj h
      exact (reads_value p.commonCortegeIteration).first ((reads_value p.dataUbotInPool).first Reads.pure)
    case MULTI_STORAGE_VOTE_EXCLUSION_SUSPICIOUS =>
      obtain rfl := Except.ok.inj h
      exact (reads_value p.commonCortegeIteration).first ((reads_value p.suspect).first Reads.pure)
    case MULTI_STORAGE_GET_POOL_HASHES =>
      obtain rfl := Except.ok.inj h
      exact (reads_value p.dataUbotInPool).first Reads.pure
    all_goals
      obtain rfl := Except.ok.inj h
      first | exact Reads.pure | exact (reads_value p.commonCortegeIteration).first Reads.pure

theorem reads_process {poolId storageId : HashId} {procIndex : Value} {type : Option ProcessType}
    {params : Params}
    {vs : List Value} (h : writeProcess poolId storageId procIndex type params = .ok vs)
      (hindex : procIndex ≠ .arr []) :
    Reads readProcess vs (.ubotProcess poolId storageId procIndex type (params.carried type)) := by
  obtain ⟨ordinal, hordinal, h⟩ := Except.bind_eq_ok.mp h
  obtain ⟨written, hwritten, h⟩ := Except.bind_eq_ok.mp h
  obtain rfl := Except.ok.inj h
  refine (reads_hash poolId).first ((reads_hash storageId).first ((reads_procIndex hindex).bind ?_))
  refine (Reads.next ordinal).first ?_
  rw [processTypes_lawful.byOrdinal hordinal]
  refine (reads_value params.isAnswer).first ((reads_value (.bool params.previousRecordId.isNone)).first ?_)
  cases type with
  | none => cases hordinal
  | some type =>
    exact (reads_params hwritten).last Reads.pure

/-- A notification that is neither open nor has an empty index is read to its last value. -/
theorem reads_readFrom {n : Body}
    {vs : List Value} (h : n.writeTo = .ok vs) (hopen : ¬n.Open) (hindex : ¬n.EmptyIndex) :
    Reads n.class.readFrom vs n.back := by
  cases n with
  | item n => exact (reads_item h).last Reads.pure
  | parcel n type parcelId =>
    obtain ⟨ws, hws, h⟩ := Except.bind_eq_ok.mp h
    obtain ⟨ordinal, hordinal, h⟩ := Except.bind_eq_ok.mp h
    obtain rfl := Except.ok.inj h
    refine (reads_item hws).bind ((Reads.next ordinal).first ?_)
    rw [parcelTypes_lawful.byOrdinal hordinal]
    cases parcelId with
    | none => exact absurd rfl hopen
    | some id => exact (Reads.next _).first Reads.pure
  | resync n itemState hasEnvironment =>
    obtain ⟨ws, hws, h⟩ := Except.bind_eq_ok.mp h
    by_cases hrequest : truthy n.requestResult = true
    · rw [if_pos hrequest] at h
      obtain rfl := Except.ok.inj h
      refine (reads_item hws).last ?_
      rw [Body.back, Body.carried, if_pos hrequest, if_pos
        (show truthy n.back.requestResult = true from hrequest)]
      exact Reads.pure
    · rw [if_neg hrequest] at h
      obtain ⟨ordinal, hordinal, h⟩ := Except.bind_eq_ok.mp h
      obtain rfl := Except.ok.inj h
      refine (reads_item hws).bind ?_
      rw [Body.back, Body.carried, if_neg hrequest, if_neg
        (show ¬truthy n.back.requestResult = true from hrequest)]
      refine (Reads.next ordinal).first ?_
      rw [itemStates_lawful.byOrdinal hordinal]
      exact (reads_value hasEnvironment).first Reads.pure
  | callback id signature type state =>
    obtain ⟨ordinal, hordinal, h⟩ := Except.bind_eq_ok.mp h
    obtain ⟨ordinal', hordinal', h⟩ := Except.bind_eq_ok.mp h
    obtain rfl := Except.ok.inj h
    refine (reads_hash id).first ((reads_value signature).first ((Reads.next ordinal).first ?_))
    rw [callbackTypes_lawful.byOrdinal hordinal]
    refine (Reads.next ordinal').first ?_
    rw [callbackStates_lawful.byOrdinal hordinal']
    exact Reads.pure
  | ubotTest textValue requestResult =>
    obtain rfl := Except.ok.inj h
    exact (reads_value textValue).first ((reads_value requestResult).first Reads.pure)
  | ubotCloud poolId executableContractId type isAnswer =>
    obtain ⟨ordinal, hordinal, h⟩ := Except.bind_eq_ok.mp h
    obtain rfl := Except.ok.inj h
    refine (reads_hash poolId).first ((reads_hash executableContractId).first ((Reads.next ordinal).first ?_))
    rw [cloudTypes_lawful.byOrdinal hordinal]
    exact (reads_value isAnswer).first Reads.pure
  | ubotProcess poolId storageId procIndex type params => exact reads_process h hindex

/-! ### Where a notification is not read to its last value -/

/-- A parcel notification without a parcel id takes the next value. -/
theorem run_open {n : ItemNotification} {type : Option ParcelNotificationType}
    {vs : List Value} (rest : List Value)
    (h : (Body.parcel n type none).writeTo = .ok vs) :
    (Class.readFrom .ParcelNotification).run (vs ++ rest) =
      .ok (.parcel n.back type (withDigest rest.head?).toOption, rest.tail) := by
  obtain ⟨ws, hws, h⟩ := Except.bind_eq_ok.mp h
  obtain ⟨ordinal, hordinal, h⟩ := Except.bind_eq_ok.mp h
  obtain rfl := Except.ok.inj h
  rw [List.append_assoc]
  refine ((reads_item hws).run_bind _).trans (((Reads.next ordinal).run_bind _).trans ?_)
  rw [parcelTypes_lawful.byOrdinal hordinal]
  rfl

theorem Enumeration.write_eq_ok {T : Type} {e : Enumeration T} {x : Option T}
    {v : Value} (h : e.write x = .ok v) :
    ∃ y, x = some y ∧ v = number (e.ordinal y) := by
  cases x with
  | none => cases h
  | some y => exact ⟨y, rfl, (Except.ok.inj h).symm⟩

/-- A process notification with an empty index comes back with a number as index. -/
theorem run_emptyIndex {poolId storageId : HashId} {type : Option ProcessType} {params : Params}
    {vs : List Value}
    {rest : List Value} {p : Body × List Value}
    (h : writeProcess poolId storageId (.arr []) type params = .ok vs)
      (hrun : readProcess.run (vs ++ rest) = .ok p) :
    ∃ q type params, p.1 = .ubotProcess poolId storageId (number q) type params := by
  obtain ⟨ordinal, hordinal, h⟩ := Except.bind_eq_ok.mp h
  obtain ⟨written, hwritten, h⟩ := Except.bind_eq_ok.mp h
  obtain rfl := Except.ok.inj h
  obtain ⟨x, -, rfl⟩ := Enumeration.write_eq_ok hordinal
  replace hrun := ((reads_hash poolId).run_bind _).symm.trans hrun
  replace hrun := ((reads_hash storageId).run_bind _).symm.trans hrun
  replace hrun := ((reads_scalarIndex (number (processTypes.ordinal x))).run_bind _).symm.trans hrun
  obtain ⟨code, -, hrun⟩ := run_bind_eq_ok.mp hrun
  obtain ⟨isAnswer, -, hrun⟩ := run_bind_eq_ok.mp hrun
  obtain ⟨isFirstRecord, -, hrun⟩ := run_bind_eq_ok.mp hrun
  obtain ⟨read, -, hrun⟩ := run_bind_eq_ok.mp hrun
  obtain rfl := Except.ok.inj hrun
  exact ⟨_, _, _, rfl⟩

/-- An id or a text is the code of no class. -/
theorem write_head {n : Body} {vs : List Value} (h : n.writeTo = .ok vs) (htext : n.TextValue) :
    ∃ v ws, vs = v :: ws ∧ byNumber classes Class.typeCode (some v) = none := by
  have hitem : ∀ {n : ItemNotification} {ws : List Value}, n.writeTo = .ok ws →
      ∃ ws', ws = .bytes n.itemId.digest :: ws' := by
    intro n ws hws
    obtain ⟨ws', -, hws⟩ := Except.bind_eq_ok.mp hws
    exact ⟨ws' ++ [n.requestResult], (Except.ok.inj hws).symm⟩
  cases n with
  | item n =>
    obtain ⟨ws, rfl⟩ := hitem h
    exact ⟨_, _, rfl, rfl⟩
  | parcel n type parcelId =>
    obtain ⟨ws, hws, h⟩ := Except.bind_eq_ok.mp h
    obtain ⟨ordinal, -, h⟩ := Except.bind_eq_ok.mp h
    obtain ⟨ws, rfl⟩ := hitem hws
    exact ⟨_, _, (Except.ok.inj h).symm, rfl⟩
  | resync n itemState hasEnvironment =>
    obtain ⟨ws, hws, h⟩ := Except.bind_eq_ok.mp h
    obtain ⟨ws, rfl⟩ := hitem hws
    split at h
    · exact ⟨_, _, (Except.ok.inj h).symm, rfl⟩
    · obtain ⟨ordinal, -, h⟩ := Except.bind_eq_ok.mp h
      exact ⟨_, _, (Except.ok.inj h).symm, rfl⟩
  | callback id signature type state =>
    obtain ⟨ordinal, -, h⟩ := Except.bind_eq_ok.mp h
    obtain ⟨ordinal', -, h⟩ := Except.bind_eq_ok.mp h
    exact ⟨_, _, (Except.ok.inj h).symm, rfl⟩
  | ubotTest textValue requestResult =>
    obtain ⟨s, rfl⟩ := htext
    exact ⟨_, _, (Except.ok.inj h).symm, rfl⟩
  | ubotCloud poolId executableContractId type isAnswer =>
    obtain ⟨ordinal, -, h⟩ := Except.bind_eq_ok.mp h
    exact ⟨_, _, (Except.ok.inj h).symm, rfl⟩
  | ubotProcess poolId storageId procIndex type params =>
    obtain ⟨ordinal, -, h⟩ := Except.bind_eq_ok.mp h
    obtain ⟨written, -, h⟩ := Except.bind_eq_ok.mp h
    exact ⟨_, _, (Except.ok.inj h).symm, rfl⟩

/-! ### What is promised -/

/-- The dates of a notification on an item are whole seconds, where there are any; a test notification has a
    text. -/
structure Body.Whole (n : Body) : Prop where
  created : ∀ i ∈ n.item?, ∀ time, i.itemResult.createdAt = .at time → time % 1000 = 0
  expires : ∀ i ∈ n.item?, ∀ time, i.itemResult.expiresAt = .at time → time % 1000 = 0
  text : n.TextValue

/-- The ids that an answer of a type is written with. -/
def Params.HasIds (p : Params) : ProcessType → Prop
  | .SINGLE_STORAGE_GET_DATA_HASHID | .MULTI_STORAGE_GET_DATA_HASHID =>
      truthy p.isAnswer = true → p.dataHashId ≠ none
  | .MULTI_STORAGE_GET_CORTEGE_HASHID | .MULTI_STORAGE_GET_SUSPICIOUS_CORTEGE_HASHID =>
      truthy p.isAnswer = true → p.cortegeId ≠ none
  | _ => True

/-- The types, states and ids that a notification is written with. -/
def Body.Typed : Body → Prop
  | .item n => n.itemResult.state ≠ none
  | .parcel n type _ => n.itemResult.state ≠ none ∧ type ≠ none
  | .resync n itemState _ => n.itemResult.state ≠ none ∧ (truthy n.requestResult = true ∨ itemState ≠ none)
  | .callback _ _ type state => type ≠ none ∧ state ≠ none
  | .ubotTest _ _ => True
  | .ubotCloud _ _ type _ => type ≠ none
  | .ubotProcess _ _ _ type params => ∃ t, type = some t ∧ params.HasIds t

/-- The notification has what its kind is written with, dates among it, and no empty index. -/
structure Body.Complete (n : Body) : Prop where
  typed : n.Typed
  created : ∀ i ∈ n.item?, i.itemResult.createdAt ≠ .null
  expires : ∀ i ∈ n.item?, i.itemResult.expiresAt ≠ .null
  index : ¬n.EmptyIndex

/-- What was read of a notification has its class and the same values in every field that its kind carries. -/
def Same (n : Body) (r : Option Body) : Prop := ∃ m, r = some m ∧ m.carried = n.carried

/-! ### Writing -/

theorem Enumeration.write_ok_iff {T : Type} {e : Enumeration T} {x : Option T} :
    (∃ v, e.write x = .ok v) ↔ x ≠ none := by
  cases x with
  | none => simp [Enumeration.write]
  | some y => simp [Enumeration.write]

theorem digest_ok_iff {hash : Option HashId} : (∃ v, digest hash = .ok v) ↔ hash ≠ none := by
  cases hash with
  | none => simp [digest]
  | some id => simp [digest]

/-- One computation after another ends well if both do, where the second does not depend on the first for that.
    -/
theorem bind_ok_iff {ε α β : Type} {x : Except ε α} {f : α → Except ε β} {P : Prop}
    (h : ∀ a, (∃ b, f a = .ok b) ↔ P) : (∃ b, (x >>= f) = .ok b) ↔ (∃ a, x = .ok a) ∧ P := by
  cases x with
  | error e => simp [bind, Except.bind]
  | ok a => simpa [bind, Except.bind] using h a

theorem bind_pure_ok_iff {ε α β : Type} {x : Except ε α} {f : α → β} :
    (∃ b, (do return f (← x)) = Except.ok b) ↔ ∃ a, x = .ok a :=
  (bind_ok_iff fun a => iff_of_true ⟨f a, rfl⟩ trivial).trans (and_iff_left trivial)

theorem writeTo_item_iff {n : ItemNotification} : (∃ vs, n.writeTo = .ok vs) ↔ n.itemResult.state ≠ none :=
  bind_pure_ok_iff.trans (bind_pure_ok_iff.trans Enumeration.write_ok_iff)

theorem writeTo_params_iff {p : Params} {type : ProcessType} :
    (∃ vs, p.writeTo type = .ok vs) ↔ p.HasIds type := by
  by_cases hanswer : truthy p.isAnswer = true
  · cases type <;> simp only [Params.writeTo, Params.HasIds, hanswer, if_true, true_imp_iff]
    all_goals first | exact bind_pure_ok_iff.trans digest_ok_iff | simp
  · cases type <;> simp [Params.writeTo, Params.HasIds, hanswer]

/-- A notification can be written exactly if what it is written with is there. -/
theorem writeTo_ok_iff {n : Body} : (∃ vs, n.writeTo = .ok vs) ↔ n.Typed := by
  cases n with
  | item n => exact writeTo_item_iff
  | parcel n type parcelId =>
    rw [Body.Typed, ← writeTo_item_iff]
    exact bind_ok_iff fun _ => bind_pure_ok_iff.trans Enumeration.write_ok_iff
  | resync n itemState hasEnvironment =>
    rw [Body.Typed, ← writeTo_item_iff]
    refine bind_ok_iff fun _ => ?_
    by_cases hrequest : truthy n.requestResult = true
    · rw [if_pos hrequest]
      exact iff_of_true ⟨_, rfl⟩ (.inl hrequest)
    · rw [if_neg hrequest, or_iff_right hrequest]
      exact bind_pure_ok_iff.trans Enumeration.write_ok_iff
  | callback id signature type state =>
    rw [Body.Typed, ← callbackTypes.write_ok_iff]
    exact bind_ok_iff fun _ => bind_pure_ok_iff.trans Enumeration.write_ok_iff
  | ubotTest textValue requestResult => simp [Body.writeTo, Body.Typed]
  | ubotCloud poolId executableContractId type isAnswer => exact bind_pure_ok_iff.trans Enumeration.write_ok_iff
  | ubotProcess poolId storageId procIndex type params =>
    cases type with
    | none => simp [Body.writeTo, writeProcess, Body.Typed, Enumeration.write, bind, Except.bind]
    | some t =>
      have hwrite : ∃ v, processTypes.write (some t) = .ok v := ⟨_, rfl⟩
      refine (bind_ok_iff fun _ => bind_pure_ok_iff.trans writeTo_params_iff).trans ?_
      simpa [Body.Typed] using fun _ => hwrite

theorem time_back_iff {t : Time} (h : ∀ time, t = .at time → time % 1000 = 0) : t.back = t ↔ t ≠ .null := by
  cases t with
  | null => simp [Time.back]
  | invalid => simp [Time.back]
  | «at» time =>
    have hwhole := h time rfl
    refine iff_of_true ?_ (by simp)
    rw [Time.back, Time.at.injEq]
    omega

theorem item_back_iff {n : ItemNotification}
    (hcreated : ∀ time, n.itemResult.createdAt = .at time → time % 1000 = 0)
    (hexpires : ∀ time, n.itemResult.expiresAt = .at time → time % 1000 = 0) :
    n.back = n ↔ n.itemResult.createdAt ≠ .null ∧ n.itemResult.expiresAt ≠ .null := by
  rw [← time_back_iff hcreated, ← time_back_iff hexpires]
  obtain ⟨itemId, ⟨state, createdAt, expiresAt, haveCopy⟩, requestResult⟩ := n
  simp [ItemNotification.back]

theorem carried_carried (p : Params) (type : Option ProcessType) :
    (p.carried type).carried type = p.carried type := by
  cases type with
  | none => rfl
  | some type =>
    by_cases hanswer : truthy p.isAnswer = true
    · cases type <;> simp [Params.carried, hanswer]
    · cases type <;> simp [Params.carried, hanswer]

/-- What comes back is the same exactly where the dates are there. -/
theorem carried_back_iff {n : Body} (h : n.Whole) :
    n.back.carried = n.carried ↔
      (∀ i ∈ n.item?, i.itemResult.createdAt ≠ .null) ∧ ∀ i ∈ n.item?, i.itemResult.expiresAt ≠ .null := by
  have hitem : ∀ i, n.item? = some i →
      ((i.back = i) ↔ (∀ i ∈ n.item?, i.itemResult.createdAt ≠ .null) ∧
        ∀ i ∈ n.item?, i.itemResult.expiresAt ≠ .null) := by
    intro i hi
    rw [item_back_iff (h.created i hi) (h.expires i hi), hi]
    simp
  cases n with
  | item i => simpa [Body.back, Body.carried] using hitem i rfl
  | parcel i type parcelId => simpa [Body.back, Body.carried] using hitem i rfl
  | resync i itemState hasEnvironment =>
    rw [← hitem i rfl]
    by_cases hrequest : truthy i.requestResult = true
    · simp [Body.back, Body.carried, hrequest, show truthy i.back.requestResult = true from hrequest]
    · simp [Body.back, Body.carried, hrequest, show ¬truthy i.back.requestResult = true from hrequest]
  | callback id signature type state => simp [Body.back, Body.carried, Body.item?]
  | ubotTest textValue requestResult => simp [Body.back, Body.carried, Body.item?]
  | ubotCloud poolId executableContractId type isAnswer => simp [Body.back, Body.carried, Body.item?]
  | ubotProcess poolId storageId procIndex type params =>
    simp [Body.back, Body.carried, Body.item?, carried_carried]

/-! ### Packets -/

/-- The values give these notifications back. -/
def Gives (ns : List Body) (vs : List Value) : Prop :=
  ∃ rs rest, (times read ns.length).run vs = .ok (rs, rest) ∧ List.Forall₂ Same ns rs

theorem gives_cons {n : Body} {ns : List Body} {vs : List Value} :
    Gives (n :: ns) vs ↔ ∃ m ws, read.run vs = .ok (some m, ws) ∧ m.carried = n.carried ∧ Gives ns ws := by
  constructor
  · rintro ⟨rs, rest, hrun, hsame⟩
    obtain ⟨r, ws, rs, hr, hrs, rfl⟩ := run_times_succ.mp hrun
    obtain ⟨⟨m, rfl, hm⟩, htail⟩ := List.forall₂_cons.mp hsame
    exact ⟨m, ws, hr, hm, rs, rest, hrs, htail⟩
  · rintro ⟨m, ws, hr, hm, rs, rest, hrs, hsame⟩
    have hall : List.Forall₂ Same (n :: ns) (some m :: rs) := .cons ⟨m, rfl, hm⟩ hsame
    exact ⟨some m :: rs, rest, run_times_succ.mpr ⟨_, _, _, hr, hrs, rfl⟩, hall⟩

theorem class_mem (c : Class) : c ∈ classes := by cases c <;> simp [classes]

/-- After the code of a class its reader is run. -/
theorem run_read_iff {n m : Body} {vs ws : List Value} :
    read.run (number n.class.typeCode :: vs) = .ok (some m, ws) ↔ n.class.readFrom.run vs = .ok (m, ws) := by
  have hcode : read.run (number n.class.typeCode :: vs) =
      (do return some (← n.class.readFrom) : Read (Option Body)).run vs := by
    refine ((Reads.next _).run_bind vs).trans ?_
    rw [byNumber_number (by decide) (class_mem _)]
  rw [hcode, run_bind_eq_ok]
  constructor
  · rintro ⟨⟨m', ws'⟩, hrun, h⟩
    obtain ⟨heq, rfl⟩ := Prod.mk.inj (Except.ok.inj h)
    obtain rfl := Option.some.inj heq
    exact hrun
  · intro hrun
    exact ⟨_, hrun, rfl⟩

/-- Where a value is the code of no class, null stands for the notification. -/
theorem run_read_none {v : Value} (h : byNumber classes Class.typeCode (some v) = none) (vs : List Value) :
    read.run (v :: vs) = .ok (none, vs) := by
  refine ((Reads.next v).run_bind vs).trans ?_
  rw [h]
  rfl

/-- With a notification that is read to its last value the others come back as without it. -/
theorem gives_closed {n : Body} {ns : List Body}
    {vs rest : List Value} (hvs : n.writeTo = .ok vs) (hopen : ¬n.Open)
    (hindex : ¬n.EmptyIndex) :
    Gives (n :: ns) (number n.class.typeCode :: (vs ++ rest)) ↔ n.back.carried = n.carried ∧ Gives ns rest := by
  rw [gives_cons]
  have hrun := reads_readFrom hvs hopen hindex rest
  constructor
  · rintro ⟨m, ws, hm, hsame, hgives⟩
    obtain ⟨rfl, rfl⟩ := Prod.mk.inj (Except.ok.inj (hrun.symm.trans (run_read_iff.mp hm)))
    exact ⟨hsame, hgives⟩
  · rintro ⟨hsame, hgives⟩
    exact ⟨n.back, rest, run_read_iff.mpr hrun, hsame, hgives⟩

/-- A process notification with an empty index does not come back. -/
theorem not_gives_emptyIndex {n : Body} {ns : List Body} {vs rest : List Value} (hvs : n.writeTo = .ok vs)
    (hindex : n.EmptyIndex) : ¬Gives (n :: ns) (number n.class.typeCode :: (vs ++ rest)) := by
  rw [gives_cons]
  rintro ⟨m, ws, hm, hsame, -⟩
  cases n with
  | ubotProcess poolId storageId procIndex type params =>
    obtain rfl : procIndex = .arr [] := hindex
    obtain ⟨q, type', params', rfl⟩ := run_emptyIndex hvs (run_read_iff.mp hm)
    cases hsame
  | _ => exact hindex

/-- A parcel notification without a parcel id comes back, where it takes no digest. -/
theorem gives_open {n : Body} {ns : List Body} {vs rest : List Value} (hvs : n.writeTo = .ok vs)
    (hopen : n.Open)
    (hrest : (withDigest rest.head?).toOption = none) :
    Gives (n :: ns) (number n.class.typeCode :: (vs ++ rest)) ↔
      n.back.carried = n.carried ∧ Gives ns rest.tail := by
  cases n with
  | parcel i type parcelId =>
    obtain rfl : parcelId = none := hopen
    rw [gives_cons]
    have hrun := run_open rest hvs
    rw [hrest] at hrun
    constructor
    · rintro ⟨m, ws, hm, hsame, hgives⟩
      obtain ⟨rfl, rfl⟩ := Prod.mk.inj (Except.ok.inj (hrun.symm.trans (run_read_iff.mp hm)))
      exact ⟨hsame, hgives⟩
    · rintro ⟨hsame, hgives⟩
      exact ⟨_, rest.tail, run_read_iff.mpr hrun, hsame, hgives⟩
  | _ => cases hopen

/-- Null comes of a notification whose code was taken. -/
theorem not_gives_tail {n : Body} {ns : List Body} {vs rest : List Value} (hvs : n.writeTo = .ok vs)
    (htext : n.TextValue) : ¬Gives (n :: ns) (vs ++ rest) := by
  obtain ⟨v, ws, rfl, hv⟩ := write_head hvs htext
  rw [gives_cons]
  rintro ⟨m, ws', hm, -, -⟩
  cases (run_read_none hv (ws ++ rest)).symm.trans hm

/-- What is written of a first notification and of the others. -/
theorem mapM_write_cons {n : Body} {ns : List Body} {wss : List (List Value)}
    (h : (n :: ns).mapM Body.write = .ok wss) :
    ∃ vs wss', n.writeTo = .ok vs ∧ ns.mapM Body.write = .ok wss' ∧
      wss.flatten = number n.class.typeCode :: (vs ++ wss'.flatten) := by
  rw [List.mapM_cons] at h
  obtain ⟨w, hw, h⟩ := Except.bind_eq_ok.mp h
  obtain ⟨wss', htail, h⟩ := Except.bind_eq_ok.mp h
  obtain rfl := Except.ok.inj h
  obtain ⟨vs, hvs, hw⟩ := Except.bind_eq_ok.mp hw
  obtain rfl := Except.ok.inj hw
  exact ⟨vs, wss', hvs, htail, rfl⟩

/-- The notifications come back exactly if each is complete and no parcel notification without a parcel id
    stands before another one. -/
theorem gives_iff {ns : List Body} {wss : List (List Value)} (hwhole : ∀ n ∈ ns, n.Whole)
    (hws : ns.mapM Body.write = .ok wss) :
    Gives ns wss.flatten ↔ (∀ n ∈ ns, n.Complete) ∧ ∀ n ∈ ns.dropLast, ¬n.Open := by
  induction ns generalizing wss with
  | nil => exact iff_of_true ⟨[], wss.flatten, rfl, .nil⟩ ⟨by simp, by simp⟩
  | cons n ns ih =>
    obtain ⟨vs, wss', hvs, hws', hflatten⟩ := mapM_write_cons hws
    obtain ⟨hn, hns⟩ := List.forall_mem_cons.mp hwhole
    rw [hflatten]
    by_cases hindex : n.EmptyIndex
    · refine iff_of_false (not_gives_emptyIndex hvs hindex) ?_
      rintro ⟨hcomplete, -⟩
      exact (hcomplete n (List.mem_cons_self ..)).index hindex
    have hback : n.back.carried = n.carried ↔ n.Complete := by
      rw [carried_back_iff hn]
      constructor
      · rintro ⟨hcreated, hexpires⟩
        exact ⟨writeTo_ok_iff.mp ⟨vs, hvs⟩, hcreated, hexpires, hindex⟩
      · intro h
        exact ⟨h.created, h.expires⟩
    cases ns with
    | nil =>
      obtain rfl : wss' = [] := (Except.ok.inj hws').symm
      have hgives : Gives [] [] := ⟨[], [], rfl, .nil⟩
      by_cases hopen : n.Open
      · rw [List.flatten_nil, gives_open hvs hopen rfl, hback, List.tail_nil]
        simp [hgives]
      · rw [List.flatten_nil, gives_closed hvs hopen hindex, hback]
        simp [hgives]
    | cons m ns =>
      by_cases hopen : n.Open
      · obtain ⟨vs', wss'', hvs', -, hflatten'⟩ := mapM_write_cons hws'
        rw [hflatten', gives_open hvs hopen rfl]
        refine iff_of_false ?_ ?_
        · rintro ⟨-, hgives⟩
          exact not_gives_tail hvs' (hns m (List.mem_cons_self ..)).text hgives
        · rintro ⟨-, hclosed⟩
          exact hclosed n (by simp) hopen
      · rw [gives_closed hvs hopen hindex, hback, ih hns hws', List.dropLast_cons_cons]
        simp only [List.forall_mem_cons, hopen, not_false_iff, true_and, and_assoc]

/-- A count up to a thousand is taken. -/
theorem reads_count {n : ℕ} (h : n ≤ 1000) : Reads readCount [number n] n := by
  have hrange : ((Number.fin n).lt (.fin 0) || (Number.fin 1000).lt (.fin n)) = false := by
    have hcast : (n : ℚ) ≤ 1000 := by exact_mod_cast h
    rw [Number.lt_fin, Number.lt_fin, Bool.or_eq_false_iff, decide_eq_false_iff_not, decide_eq_false_iff_not]
    exact ⟨not_lt.mpr (Nat.cast_nonneg n), not_lt.mpr hcast⟩
  refine (Reads.next _).first ?_
  refine (Reads.lift rfl).bind ?_
  refine Reads.of_eq (if_neg ?_) (Reads.lift (turns_number n))
  exact fun h => Bool.false_ne_true (hrange.symm.trans h)

/-- What `unpack` makes of the values of a packet. -/
theorem unpack_packet {N : Type} {net : NetConfig N} {sender : N} (hsender : sender ∈ net.nodes)
    {n : ℕ} (hn : n ≤ 1000) (vs : List Value) :
    unpack net (number 1 :: number (net.number sender) :: number n :: vs) =
      ((times read n).run vs).map fun p => p.1.map (Option.map fun m => (sender, m)) := by
  have hinfo : net.getInfo
      (some (number (net.number sender))) = some sender := byNumber_number net.distinct hsender
  have hcode : isNumber 1 (some (number 1)) = true := by simp [isNumber, number]
  have hrun : (readPacket net).run (number 1 :: number (net.number sender) :: number n :: vs) =
      (do
        let read ← times read n
        return read.map (Option.map fun m => (sender, m)) : Read (List (Option (N × Body)))).run vs := by
    refine ((Reads.next _).run_bind _).trans ?_
    rw [hcode]
    refine ((Reads.next _).run_bind _).trans ?_
    rw [hinfo]
    exact (reads_count hn).run_bind vs
  rw [unpack, hrun, Stream.run_bind]
  cases (times read n).run vs with
  | error e => rfl
  | ok p => rfl

/-- A list of notifications can be written exactly if each can. -/
theorem mapM_write_ok_iff {ns : List Body} : (∃ wss, ns.mapM Body.write = .ok wss) ↔ ∀ n ∈ ns, n.Typed := by
  induction ns with
  | nil => exact iff_of_true ⟨[], rfl⟩ (by simp)
  | cons n ns ih =>
    rw [List.forall_mem_cons, ← ih, ← writeTo_ok_iff, List.mapM_cons]
    refine (bind_ok_iff fun _ => bind_pure_ok_iff).trans (and_congr_left fun _ => ?_)
    exact bind_pure_ok_iff

section
variable {N : Type} (net : NetConfig N) (sender : N)

/-- `unpack(packNotifications(from, list))` gives a list of the same length, each of whose notifications has the
    class of the one in the list, is from the sender, and has equal values in the fields that its kind carries.
    -/
def Survives (ns : List Body) : Prop :=
  ∃ packet rs, packNotifications net sender ns = .ok packet ∧ unpack net packet = .ok rs ∧
    List.Forall₂ (fun n r => ∃ m, r = some (sender, m) ∧ m.carried = n.carried) ns rs

variable {net sender}

theorem survives_iff_gives {ns : List Body} (hsender : sender ∈ net.nodes) (hlength : ns.length ≤ 1000) :
    Survives net sender ns ↔ ∃ wss, ns.mapM Body.write = .ok wss ∧ Gives ns wss.flatten := by
  constructor
  · rintro ⟨packet, rs, hpack, hunpack, hsame⟩
    obtain ⟨wss, hws, hpack⟩ := Except.bind_eq_ok.mp hpack
    obtain rfl := Except.ok.inj hpack
    rw [unpack_packet hsender hlength] at hunpack
    cases hrun : (times read ns.length).run wss.flatten with
    | error e =>
      rw [hrun] at hunpack
      cases hunpack
    | ok p =>
      rw [hrun] at hunpack
      obtain rfl := Except.ok.inj hunpack
      refine ⟨wss, hws, p.1, p.2, hrun, ?_⟩
      rw [List.forall₂_map_right_iff] at hsame
      refine hsame.imp ?_
      rintro n r ⟨m, hr, hm⟩
      obtain ⟨m', rfl, heq⟩ := Option.map_eq_some_iff.mp hr
      obtain ⟨-, rfl⟩ := Prod.mk.inj heq
      exact ⟨m', rfl, hm⟩
  · rintro ⟨wss, hws, rs, rest, hrun, hsame⟩
    refine ⟨_, rs.map (Option.map fun m => (sender, m)), Except.bind_eq_ok.mpr ⟨wss, hws, rfl⟩, ?_, ?_⟩
    · rw [unpack_packet hsender hlength, hrun]
      rfl
    · rw [List.forall₂_map_right_iff]
      refine hsame.imp ?_
      rintro n _ ⟨m, rfl, hm⟩
      exact ⟨m, rfl, hm⟩

/-- CODE DEFECT (no framing): notifications survive the wire exactly if each has what its kind is written with,
    its dates among it, and no empty array as index, and a parcel notification without a parcel id is the last
    one. -/
theorem notifications_survive_iff {ns : List Body} (hsender : sender ∈ net.nodes) (hlength : ns.length ≤ 1000)
    (hwhole : ∀ n ∈ ns, n.Whole) :
    Survives net sender ns ↔ (∀ n ∈ ns, n.Complete) ∧ ∀ n ∈ ns.dropLast, ¬n.Open := by
  rw [survives_iff_gives hsender hlength]
  constructor
  · rintro ⟨wss, hws, hgives⟩
    exact (gives_iff hwhole hws).mp hgives
  · intro h
    obtain ⟨wss, hws⟩ := mapM_write_ok_iff.mpr fun n hn => (h.1 n hn).typed
    exact ⟨wss, hws, (gives_iff hwhole hws).mpr h⟩

end

/-- A network of one node. -/
def oneNode : NetConfig ℕ where
  nodes := [1]
  number := id
  distinct := List.nodup_singleton 1

/-- An id. -/
def someId : HashId := ⟨List.replicate 96 1⟩

/-- A notification on an item with a request for a result. -/
def onItem : ItemNotification where
  itemId := someId
  itemResult := { state := some .PENDING, createdAt := .at 5000, expiresAt := .at 9000, haveCopy := .bool true }
  requestResult := .bool true

/-- Notifications of several kinds. -/
def mixture : List Body :=
  [.resync onItem (some .APPROVED) (.bool true), .parcel onItem (some .PAYMENT) (some someId),
    .ubotProcess someId someId (.arr [number 0, number 2]) (some .MULTI_STORAGE_GET_POOL_HASHES)
      { isAnswer := .bool true, dataUbotInPool := number 1 },
    .callback someId .null (some .GET_STATE) (some .UNDEFINED), .parcel onItem (some .PAYLOAD) none]

theorem whole_of_onItem {n : Body} (h : ∀ i ∈ n.item?, i = onItem) (htext : n.TextValue) : n.Whole := by
  refine ⟨fun i hi time htime => ?_, fun i hi time htime => ?_, htext⟩
  · rw [h i hi] at htime
    obtain rfl := Time.at.inj htime
    rfl
  · rw [h i hi] at htime
    obtain rfl := Time.at.inj htime
    rfl

theorem complete_of_onItem
    {n : Body} (h : ∀ i ∈ n.item?, i = onItem) (htyped : n.Typed) (hindex : ¬n.EmptyIndex) :
    n.Complete := by
  refine ⟨htyped, fun i hi => ?_, fun i hi => ?_, hindex⟩
  · rw [h i hi]
    simp [onItem]
  · rw [h i hi]
    simp [onItem]

theorem mixture_whole : ∀ n ∈ mixture, n.Whole := by
  simp only [mixture, List.forall_mem_cons]
  refine ⟨?_, ?_, ?_, ?_, ?_, by simp⟩ <;> exact whole_of_onItem (by simp [Body.item?]) trivial

theorem mixture_complete : ∀ n ∈ mixture, n.Complete := by
  simp only [mixture, List.forall_mem_cons]
  refine ⟨?_, ?_, ?_, ?_, ?_, by simp⟩ <;>
    exact complete_of_onItem (by simp [Body.item?]) (by simp [Body.Typed, Params.HasIds, onItem])
      (by simp [Body.EmptyIndex])

theorem mixture_survives : Survives oneNode 1 mixture := by
  refine (notifications_survive_iff (List.mem_singleton_self 1) (by decide) mixture_whole).mpr ⟨mixture_complete, ?_⟩
  simp [mixture, Body.Open]

/-- A parcel notification without a parcel id takes the code of the notification after it. -/
theorem code_taken : ¬∀ (N : Type) (net : NetConfig N) (sender : N) (ns : List Body), sender ∈ net.nodes →
    ns.length ≤ 1000 → (∀ n ∈ ns, n.Whole) → (∀ n ∈ ns, n.Complete) → Survives net sender ns := by
  intro h
  have hwhole : ∀ n ∈ [Body.parcel onItem (some .PAYMENT) none, .item onItem], n.Whole := by
    simp only [List.forall_mem_cons]
    refine ⟨?_, ?_, by simp⟩ <;> exact whole_of_onItem (by simp [Body.item?]) trivial
  have hcomplete : ∀ n ∈ [Body.parcel onItem (some .PAYMENT) none, .item onItem], n.Complete := by
    simp only [List.forall_mem_cons]
    refine ⟨?_, ?_, by simp⟩ <;>
      exact complete_of_onItem (by simp [Body.item?]) (by simp [Body.Typed, onItem]) (by simp [Body.EmptyIndex])
  have hmember : 1 ∈ oneNode.nodes := List.mem_singleton_self 1
  have hsurvives := h ℕ oneNode 1 _ hmember (by decide) hwhole hcomplete
  obtain ⟨wss, hws, hgives⟩ := (survives_iff_gives hmember (by decide)).mp hsurvives
  exact ((gives_iff hwhole hws).mp hgives).2 _ (List.mem_cons_self ..) rfl

end Universa.Network.Notification
