import Mathlib.Data.List.Nodup
import Universa.Contracts.Contract
import Universa.Js.Arithmetic
import Universa.Lib.ValueStream
import Universa.Node.StateRecord

/-! Notifications and their packets (`notification.js`, `ubot_notification.js`, `net.js`, `itemresult.js`). A
    packet is the values that are written to it, in order: what BOSS makes of them is read back as it is, and
    after the last one a read answers `undefined`. The fields that are written as they are have any value; an
    enumeration is written as the ordinal, a date in whole seconds, an id as its digest. -/

namespace Universa.Network.Notification
open Universa.Js Universa.Stream
open Universa.Contracts (HashId)
open Universa.Node (ItemState)

/-! ### Values -/

/-- What ends a call; `endless` stands for a loop that does not end. -/
inductive Thrown where
  | readsNull (property : String)
  | notTypedArray
  | noPrimitive
  | endless
  | error (message : String)

/-- A reader of a packet. -/
abbrev Read := Reader Thrown Value

/-- A number as a value. -/
def number (q : ℚ) : Value := .num (.fin q)

/-- `v === q`. -/
def isNumber (q : ℚ) : Option Value → Bool
  | some (.num (.fin x)) => x = q
  | _ => false

/-- The value as a condition. -/
def truthy : Value → Bool
  | .null => false
  | .bool b => b
  | .num n => n ≠ .fin 0 ∧ n ≠ .nan
  | .str s => s ≠ ""
  | _ => true

/-- A value that was read, as a number. -/
def toNumber : Option Value → Except Thrown Number
  | none => .ok .nan
  | some v => match Js.toNumber v with
    | some n => .ok n
    | none => .error .noPrimitive

/-- The turns of `for (let i = 0; i < n; i++)`. -/
def turns (n : Option Value) : Except Thrown ℕ := do
  match ← toNumber n with
  | .fin q => .ok ⌈q⌉.toNat
  | .posInf => .error .endless
  | _ => .ok 0

/-- What `Map.get` of a map from these numbers finds. -/
def byNumber {T : Type} (all : List T) (f : T → ℕ) : Option Value → Option T
  | some (.num (.fin q)) => all.find? fun x => (f x : ℚ) = q
  | _ => none

/-- What has a number of its own is found by it. -/
theorem byNumber_number {T : Type} {all : List T} {f : T →
    ℕ} {x : T} (hnodup : (all.map f).Nodup) (hx : x ∈ all) :
    byNumber all f (some (number (f x))) = some x := by
  have hsome : (all.find? fun y => (f y : ℚ) = (f x : ℚ)).isSome := List.find?_isSome.mpr ⟨x, hx, by simp⟩
  obtain ⟨y, hy⟩ := Option.isSome_iff_exists.mp hsome
  have hfy : (f y : ℚ) = f x := by simpa using List.find?_some hy
  obtain rfl := List.inj_on_of_nodup_map hnodup (List.mem_of_find?_eq_some hy) hx (by exact_mod_cast hfy)
  exact hy

/-- The next value; `undefined` is null. -/
def readValue : Read Value := do return (← next).getD .null

/-- `HashId.withDigest(digest)`. -/
def withDigest : Option Value → Except Thrown HashId
  | some (.bytes digest) => .ok ⟨digest⟩
  | _ => .error .notTypedArray

/-- `HashId.withDigest(br.read())`. -/
def readHash : Read HashId := do lift (withDigest (← next))

/-- `hash.digest`. -/
def digest : Option HashId → Except Thrown Value
  | some hash => .ok (.bytes hash.digest)
  | none => .error (.readsNull "digest")

/-! ### Enumerations -/

/-- An enumeration with the ordinals of its values; they are written below in the order of these. -/
structure Enumeration (T : Type) where
  all : List T
  ordinal : T → ℕ

/-- `byOrdinal.get(v)`. -/
def Enumeration.byOrdinal {T : Type} (e : Enumeration T) (v : Option Value) :
    Option T := byNumber e.all e.ordinal v

/-- `x.ordinal`, as it is written. -/
def Enumeration.write {T : Type} (e : Enumeration T) : Option T → Except Thrown Value
  | some x => .ok (number (e.ordinal x))
  | none => .error (.readsNull "ordinal")

/-- `ItemState`. -/
def itemStates : Enumeration ItemState where
  all := [.UNDEFINED, .PENDING, .PENDING_POSITIVE, .PENDING_NEGATIVE, .APPROVED, .LOCKED, .REVOKED, .DECLINED,
    .DISCARDED, .LOCKED_FOR_CREATION, .LOCKED_FOR_CREATION_REVOKED]
  ordinal := ItemState.ctorIdx

/-- `ParcelNotificationType`. -/
inductive ParcelNotificationType where
  | PAYMENT
  | PAYLOAD

/-- The values of `ParcelNotificationType`. -/
def parcelTypes : Enumeration ParcelNotificationType where
  all := [.PAYMENT, .PAYLOAD]
  ordinal := ParcelNotificationType.ctorIdx

/-- `CallbackNotificationType`. -/
inductive CallbackNotificationType where
  | COMPLETED
  | NOT_RESPONDING
  | GET_STATE
  | RETURN_STATE

/-- The values of `CallbackNotificationType`. -/
def callbackTypes : Enumeration CallbackNotificationType where
  all := [.COMPLETED, .NOT_RESPONDING, .GET_STATE, .RETURN_STATE]
  ordinal := CallbackNotificationType.ctorIdx

/-- `FollowerCallbackState`. -/
inductive FollowerCallbackState where
  | UNDEFINED
  | STARTED
  | EXPIRED
  | COMPLETED
  | FAILED

/-- The values of `FollowerCallbackState`. -/
def callbackStates : Enumeration FollowerCallbackState where
  all := [.UNDEFINED, .STARTED, .EXPIRED, .COMPLETED, .FAILED]
  ordinal := FollowerCallbackState.ctorIdx

/-- `UBotCloudNotification.types`. -/
inductive CloudType where
  | DOWNLOAD_STARTING_CONTRACT

/-- The values of `UBotCloudNotification.types`. -/
def cloudTypes : Enumeration CloudType where
  all := [.DOWNLOAD_STARTING_CONTRACT]
  ordinal := CloudType.ctorIdx

/-- `UBotCloudNotification_process.types`. -/
inductive ProcessType where
  | SINGLE_STORAGE_GET_DATA_HASHID
  | MULTI_STORAGE_GET_DATA_HASHID
  | MULTI_STORAGE_GET_CORTEGE_HASHID
  | MULTI_STORAGE_GET_POOL_HASHES
  | MULTI_STORAGE_GET_CORTEGES
  | MULTI_STORAGE_GET_SUSPICIOUS_CORTEGE_HASHID
  | MULTI_STORAGE_GET_DECISIONS
  | MULTI_STORAGE_VOTE_DECISION
  | MULTI_STORAGE_VOTE_EXCLUSION_SUSPICIOUS

/-- The values of `UBotCloudNotification_process.types`. -/
def processTypes : Enumeration ProcessType where
  all := [.SINGLE_STORAGE_GET_DATA_HASHID, .MULTI_STORAGE_GET_DATA_HASHID, .MULTI_STORAGE_GET_CORTEGE_HASHID,
    .MULTI_STORAGE_GET_POOL_HASHES, .MULTI_STORAGE_GET_CORTEGES, .MULTI_STORAGE_GET_SUSPICIOUS_CORTEGE_HASHID,
    .MULTI_STORAGE_GET_DECISIONS, .MULTI_STORAGE_VOTE_DECISION, .MULTI_STORAGE_VOTE_EXCLUSION_SUSPICIOUS]
  ordinal := ProcessType.ctorIdx

/-! ### `ItemResult` -/

/-- A field that is null, a date, or a date that is not a number. -/
inductive Time where
  | null
  | at (time : ℤ)
  | invalid

/-- A time as it is written: in seconds, 0 where there is none. -/
def Time.write : Time → Value
  | .null => number 0
  | .at time => number (time / 1000 : ℤ)
  | .invalid => .num .nan

/-- `new Date(reader.read() * 1000)`. -/
def readTime : Read Time := do
  let seconds ← lift (toNumber (← next))
  return match Date.ofNumber (seconds.mul (.fin 1000)) with
    | some time => .at time
    | none => .invalid

/-- `ItemResult`, without what is not written of it. -/
structure ItemResult where
  state : Option ItemState
  createdAt : Time
  expiresAt : Time
  haveCopy : Value

/-- `writeTo(writer)`. -/
def ItemResult.writeTo (r : ItemResult) : Except Thrown (List Value) := do
  return [← itemStates.write r.state, r.createdAt.write, r.expiresAt.write, r.haveCopy]

/-- `fromReader(reader)`. -/
def ItemResult.fromReader : Read ItemResult := do
  let state := itemStates.byOrdinal (← next)
  let createdAt ← readTime
  let expiresAt ← readTime
  return { state, createdAt, expiresAt, haveCopy := ← readValue }

/-! ### Notifications -/

/-- `ItemNotification`. -/
structure ItemNotification where
  itemId : HashId
  itemResult : ItemResult
  requestResult : Value

/-- `params` of a process notification. -/
structure Params where
  isAnswer : Value
  previousRecordId : Option HashId := none
  dataHashId : Option HashId := none
  cortegeId : Option HashId := none
  dataUbotInPool : Value := .null
  commonCortegeIteration : Value := .null
  cortege : Value := .null
  suspect : Value := .null
  decision : Value := .null

/-- A notification of a registered class. -/
inductive Body where
  | item (n : ItemNotification)
  | parcel (n : ItemNotification) (type : Option ParcelNotificationType) (parcelId : Option HashId)
  | resync (n : ItemNotification) (itemState : Option ItemState) (hasEnvironment : Value)
  | callback (id : HashId) (signature : Value) (type : Option CallbackNotificationType)
      (state : Option FollowerCallbackState)
  | ubotTest (textValue requestResult : Value)
  | ubotCloud (poolId executableContractId : HashId) (type : Option CloudType) (isAnswer : Value)
  | ubotProcess (poolId storageId : HashId) (procIndex : Value) (type : Option ProcessType) (params : Params)

/-- The registered classes. -/
inductive Class where
  | ItemNotification
  | ParcelNotification
  | ResyncNotification
  | CallbackNotification
  | UBotTestNotification
  | UBotCloudNotification
  | UBotCloudNotification_process

/-- The code of a class. -/
def Class.typeCode : Class → ℕ
  | ItemNotification => 0
  | ParcelNotification => 2
  | ResyncNotification => 3
  | CallbackNotification => 4
  | UBotTestNotification => 10
  | UBotCloudNotification => 11
  | UBotCloudNotification_process => 12

/-- `Notification.classes`. -/
def classes : List Class :=
  [.ItemNotification, .ResyncNotification, .ParcelNotification, .CallbackNotification, .UBotTestNotification,
    .UBotCloudNotification, .UBotCloudNotification_process]

/-- The class of a notification. -/
def Body.class : Body → Class
  | .item .. => .ItemNotification
  | .parcel .. => .ParcelNotification
  | .resync .. => .ResyncNotification
  | .callback .. => .CallbackNotification
  | .ubotTest .. => .UBotTestNotification
  | .ubotCloud .. => .UBotCloudNotification
  | .ubotProcess .. => .UBotCloudNotification_process

/-! ### Writing -/

/-- `ItemNotification.writeTo(bw)`. -/
def ItemNotification.writeTo (n : ItemNotification) : Except Thrown (List Value) := do
  return .bytes n.itemId.digest :: (← n.itemResult.writeTo) ++ [n.requestResult]

/-- `writeNullableHashId(bw, hash)`. -/
def writeNullableHashId : Option HashId → Value
  | some hash => .bytes hash.digest
  | none => .null

/-- What `UBotCloudNotification_process.writeTo` writes after `procIndex` and the type, with `isFirstRecord`. -/
def Params.writeTo (p : Params) : ProcessType → Except Thrown (List Value)
  | .SINGLE_STORAGE_GET_DATA_HASHID | .MULTI_STORAGE_GET_DATA_HASHID =>
      if truthy p.isAnswer then do
        return (← digest p.dataHashId) :: (p.previousRecordId.map fun id => .bytes id.digest).toList
      else .ok []
  | .MULTI_STORAGE_GET_CORTEGE_HASHID => if truthy p.isAnswer then do return [← digest p.cortegeId] else .ok []
  | .MULTI_STORAGE_GET_POOL_HASHES =>
      if truthy p.isAnswer then
        .ok (p.dataUbotInPool :: writeNullableHashId p.dataHashId ::
          (p.previousRecordId.map fun id => writeNullableHashId (some id)).toList)
      else .ok [p.dataUbotInPool]
  | .MULTI_STORAGE_GET_CORTEGES =>
      .ok (p.commonCortegeIteration :: if truthy p.isAnswer then [p.cortege] else [])
  | .MULTI_STORAGE_GET_SUSPICIOUS_CORTEGE_HASHID =>
      if truthy p.isAnswer then do
        return [p.commonCortegeIteration, p.dataUbotInPool, ← digest p.cortegeId]
      else .ok [p.commonCortegeIteration, p.dataUbotInPool]
  | .MULTI_STORAGE_GET_DECISIONS | .MULTI_STORAGE_VOTE_DECISION =>
      .ok (p.commonCortegeIteration :: if truthy p.isAnswer then [p.decision] else [])
  | .MULTI_STORAGE_VOTE_EXCLUSION_SUSPICIOUS =>
      .ok (p.commonCortegeIteration :: p.suspect :: if truthy p.isAnswer then [p.decision] else [])

/-- `procIndex` as it is written. -/
def writeProcIndex : Value → List Value
  | .arr xs => number xs.length :: xs
  | procIndex => [number 0, procIndex]

/-- `UBotCloudNotification_process.writeTo(bw)`. -/
def writeProcess (poolId storageId : HashId) (procIndex : Value) (type : Option ProcessType) (params : Params) :
    Except Thrown (List Value) := do
  let ordinal ← processTypes.write type
  let written ← type.elim (.ok []) params.writeTo
  return .bytes poolId.digest :: .bytes storageId.digest :: (writeProcIndex procIndex ++
    ordinal :: params.isAnswer :: .bool params.previousRecordId.isNone :: written)

/-- `n.writeTo(bw)`. -/
def Body.writeTo : Body → Except Thrown (List Value)
  | .item n => n.writeTo
  | .parcel n type parcelId => do
      return (← n.writeTo) ++ (← parcelTypes.write type) :: (parcelId.map fun id => .bytes id.digest).toList
  | .resync n itemState hasEnvironment => do
      let written ← n.writeTo
      if truthy n.requestResult then return written
      else return written ++ [← itemStates.write itemState, hasEnvironment]
  | .callback id signature type state => do
      return [.bytes id.digest, signature, ← callbackTypes.write type, ← callbackStates.write state]
  | .ubotTest textValue requestResult => .ok [textValue, requestResult]
  | .ubotCloud poolId executableContractId type isAnswer => do
      return [.bytes poolId.digest, .bytes executableContractId.digest, ← cloudTypes.write type, isAnswer]
  | .ubotProcess poolId storageId procIndex type params => writeProcess poolId storageId procIndex type params

/-- `Notification.write(writer, n)`. -/
def Body.write (n : Body) : Except Thrown (List Value) := do return number n.class.typeCode :: (← n.writeTo)

/-! ### Reading -/

/-- `ItemNotification.readFrom(br)`. -/
def ItemNotification.readFrom : Read ItemNotification := do
  let itemId ← readHash
  let itemResult ← ItemResult.fromReader
  return { itemId, itemResult, requestResult := ← readValue }

/-- `readNullableHashId(br)`. -/
def readNullableHashId : Read (Option HashId) := do
  match ← next with
  | none | some .null => return none
  | hash => return some (← lift (withDigest hash))

/-- What `UBotCloudNotification_process.readFrom` reads after the type; an unknown type reads nothing. -/
def Params.readFrom (isAnswer isFirstRecord : Value) : Option ProcessType → Read Params
  | none => return { isAnswer }
  | some .SINGLE_STORAGE_GET_DATA_HASHID | some .MULTI_STORAGE_GET_DATA_HASHID =>
      if truthy isAnswer then do
        let dataHashId ← readHash
        if truthy isFirstRecord then return { isAnswer, dataHashId }
        else return { isAnswer, dataHashId, previousRecordId := ← readHash }
      else return { isAnswer }
  | some .MULTI_STORAGE_GET_CORTEGE_HASHID =>
      if truthy isAnswer then do return { isAnswer, cortegeId := ← readHash } else return { isAnswer }
  | some .MULTI_STORAGE_GET_POOL_HASHES => do
      let dataUbotInPool ← readValue
      if truthy isAnswer then do
        let dataHashId ← readNullableHashId
        if truthy isFirstRecord then return { isAnswer, dataUbotInPool, dataHashId }
        else return { isAnswer, dataUbotInPool, dataHashId, previousRecordId := ← readNullableHashId }
      else return { isAnswer, dataUbotInPool }
  | some .MULTI_STORAGE_GET_CORTEGES => do
      let commonCortegeIteration ← readValue
      if truthy isAnswer then do return { isAnswer, commonCortegeIteration, cortege := ← readValue }
      else return { isAnswer, commonCortegeIteration }
  | some .MULTI_STORAGE_GET_SUSPICIOUS_CORTEGE_HASHID => do
      let commonCortegeIteration ← readValue
      let dataUbotInPool ← readValue
      if truthy isAnswer then do
        return { isAnswer, commonCortegeIteration, dataUbotInPool, cortegeId := ← readHash }
      else return { isAnswer, commonCortegeIteration, dataUbotInPool }
  | some .MULTI_STORAGE_GET_DECISIONS | some .MULTI_STORAGE_VOTE_DECISION => do
      let commonCortegeIteration ← readValue
      if truthy isAnswer then do return { isAnswer, commonCortegeIteration, decision := ← readValue }
      else return { isAnswer, commonCortegeIteration }
  | some .MULTI_STORAGE_VOTE_EXCLUSION_SUSPICIOUS => do
      let commonCortegeIteration ← readValue
      let suspect ← readValue
      if truthy isAnswer then do return { isAnswer, commonCortegeIteration, suspect, decision := ← readValue }
      else return { isAnswer, commonCortegeIteration, suspect }

/-- `procIndex` as it is read: a length that is 0 stands before a value that is no array. -/
def readProcIndex : Read Value := do
  let procIndexLen ← next
  if isNumber 0 procIndexLen then readValue
  else return .arr (← times readValue (← lift (turns procIndexLen)))

/-- `UBotCloudNotification_process.readFrom(br)`. -/
def readProcess : Read Body := do
  let poolId ← readHash
  let storageId ← readHash
  let procIndex ← readProcIndex
  let type := processTypes.byOrdinal (← next)
  let isAnswer ← readValue
  let isFirstRecord ← readValue
  return .ubotProcess poolId storageId procIndex type (← Params.readFrom isAnswer isFirstRecord type)

/-- `n.readFrom(br)` of a new `n`; in `ParcelNotification` an id that cannot be made is caught. -/
def Class.readFrom : Class → Read Body
  | .ItemNotification => return .item (← ItemNotification.readFrom)
  | .ParcelNotification => do
      let n ← ItemNotification.readFrom
      let type := parcelTypes.byOrdinal (← next)
      return .parcel n type (withDigest (← next)).toOption
  | .ResyncNotification => do
      let n ← ItemNotification.readFrom
      if truthy n.requestResult then return .resync n (some .UNDEFINED) (.bool false)
      else
        let itemState := itemStates.byOrdinal (← next)
        return .resync n itemState (← readValue)
  | .CallbackNotification => do
      let id ← readHash
      let signature ← readValue
      let type := callbackTypes.byOrdinal (← next)
      return .callback id signature type (callbackStates.byOrdinal (← next))
  | .UBotTestNotification => do
      let textValue ← readValue
      return .ubotTest textValue (← readValue)
  | .UBotCloudNotification => do
      let poolId ← readHash
      let executableContractId ← readHash
      let type := cloudTypes.byOrdinal (← next)
      return .ubotCloud poolId executableContractId type (← readValue)
  | .UBotCloudNotification_process => readProcess

/-- `Notification.read(from, r)`, without the sender: null where the code is of no class. -/
def read : Read (Option Body) := do
  match byNumber classes Class.typeCode (← next) with
  | some nclass => return some (← nclass.readFrom)
  | none => return none

/-! ### Packets -/

/-- `NetConfig`: nodes with their numbers, which differ. -/
structure NetConfig (N : Type) where
  nodes : List N
  number : N → ℕ
  distinct : (nodes.map number).Nodup

variable {N : Type} (net : NetConfig N)

/-- `getInfo(number)`. -/
def NetConfig.getInfo (number : Option Value) : Option N := byNumber net.nodes net.number number

/-- `packNotifications(from, notifications)`, the sender of each apart. -/
def packNotifications (sender : N) (notifications : List Body) : Except Thrown (List Value) := do
  let written ← notifications.mapM Body.write
  return number 1 :: number (net.number sender) :: number notifications.length :: written.flatten

/-- The number of notifications in a packet. -/
def readCount : Read ℕ := do
  let count ← next
  let n ← lift (toNumber count)
  if n.lt (.fin 0) || (Number.fin 1000).lt n then lift (.error (.error "invalid packed notifications count"))
  else lift (turns count)

/-- What `unpack` reads: the notifications, null where one has no class, each with the sender of the packet. -/
def readPacket : Read (List (Option (N × Body))) := do
  if !isNumber 1 (← next) then lift (.error (.error "invalid packed notification type code"))
  else match net.getInfo (← next) with
    | none => lift (.error (.error "unknown node number"))
    | some sender =>
        let read ← times read (← readCount)
        return read.map (Option.map fun n => (sender, n))

/-- `unpack(packet)`. -/
def unpack (packet : List Value) : Except Thrown (List (Option (N × Body))) := do
  return (← (readPacket net).run packet).1

end Universa.Network.Notification
