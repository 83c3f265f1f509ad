import Mathlib.Data.Nat.Notation
import Mathlib.Data.Int.Notation
import Mathlib.Tactic.Common

/-! What the sessions of a `UDPAdapter` share (`UDPAdapterPrivate.cpp`): the recognition of packets that
    came before, and the retransmission of packets that were not answered. `M` are the datagrams of one
    direction; times are in milliseconds. -/

namespace Universa.Network

namespace UDPAdapter

/-- `RETRANSMIT_TIME`. -/
def retransmitTime : ℤ := 250

/-- `RETRANSMIT_TIME_GROW_FACTOR`. -/
def retransmitTimeGrowFactor : ℤ := 4

/-- `RETRANSMIT_MAX_ATTEMPTS`. -/
def retransmitMaxAttempts : ℕ := 20

/-- `MAX_RETRANSMIT_QUEUE_SIZE`. -/
def maxRetransmitQueueSize : ℤ := 5000

/-- `MAX_QUEUE_SIZE`. -/
def maxQueueSize : ℕ := 50000

/-- `HANDSHAKE_TIMEOUT_MILLIS`. -/
def handshakeTimeoutMillis : ℤ := 10000

/-- `dupleProtectionPeriod`. -/
def dupleProtectionPeriod : ℤ := 2 * retransmitTimeGrowFactor * retransmitTime * retransmitMaxAttempts

end UDPAdapter

open UDPAdapter

/-- `DupleProtection`. -/
structure DupleProtection where
  buffer0 : List ℕ
  buffer1 : List ℕ

namespace DupleProtection

/-- The packet came before. -/
def Has (d : DupleProtection) (packetId : ℕ) : Prop := packetId ∈ d.buffer0 ∨ packetId ∈ d.buffer1

instance (d : DupleProtection) (packetId : ℕ) : Decidable (d.Has packetId) :=
  inferInstanceAs (Decidable (_ ∨ _))

/-- `protectFromDuples(packetId)` notes a packet that did not come before. -/
def note (d : DupleProtection) (packetId : ℕ) : DupleProtection :=
  if d.Has packetId then d else { d with buffer0 := packetId :: d.buffer0 }

/-- `clearOldestBuffer()`. -/
def clearOldestBuffer (d : DupleProtection) : DupleProtection where
  buffer0 := []
  buffer1 := d.buffer0

end DupleProtection

/-- What is passed to a call of `send`, with the number of the call. -/
structure Payload where
  call : ℕ
  bytes : List UInt8
  deriving DecidableEq

/-- `RetransmitItem`. The packet is nothing once it was nullified; the packets of a handshake have no
    payload. -/
structure RetransmitItem (M : Type) where
  packetId : ℕ
  packet : Option M
  retransmitCounter : ℕ
  sourcePayload : Option Payload
  nextRetransmitTimeMillis : ℤ

namespace RetransmitItem
variable {M : Type}

/-- `updateNextRetransmitTime(randomValue)`. -/
def updateNextRetransmitTime (now : ℤ) (randomValue : ℕ) (item : RetransmitItem M) : RetransmitItem M :=
  let maxRetransmitDelay := retransmitTimeGrowFactor * item.retransmitCounter + retransmitMaxAttempts
  let maxRetransmitDelay := maxRetransmitDelay / retransmitMaxAttempts * retransmitTime + retransmitTime / 2
  { item with
    nextRetransmitTimeMillis := now + max retransmitTime ((randomValue : ℤ) % maxRetransmitDelay) }

/-- The constructor of an item. -/
def new (packetId : ℕ) (packet : M) (sourcePayload : Option Payload) (now : ℤ) (randomValue : ℕ) :
    RetransmitItem M :=
  updateNextRetransmitTime now randomValue ⟨packetId, some packet, 0, sourcePayload, 0⟩

/-- `retransmitCounter++`, and whether the item stays. -/
def count (item : RetransmitItem M) : Option (RetransmitItem M) :=
  if retransmitMaxAttempts ≤ item.retransmitCounter then none
  else some { item with retransmitCounter := item.retransmitCounter + 1 }

end RetransmitItem

/-- `Retransmitter`, without its session key. -/
structure Retransmitter (M : Type) where
  protection : DupleProtection
  retransmitMap : List (RetransmitItem M)
  retransmitMapSize : ℤ

namespace Retransmitter
variable {M : Type}

/-- The constructor. -/
def new : Retransmitter M := ⟨⟨[], []⟩, [], 0⟩

/-- The packet is in the retransmit map. -/
def Retransmits (t : Retransmitter M) (packetId : ℕ) : Prop :=
  ∃ item ∈ t.retransmitMap, item.packetId = packetId

instance (t : Retransmitter M) (packetId : ℕ) : Decidable (t.Retransmits packetId) :=
  inferInstanceAs (Decidable (∃ item ∈ _, _))

/-- The map after a change, with its size. -/
def withMap (t : Retransmitter M) (map : List (RetransmitItem M)) : Retransmitter M :=
  { t with retransmitMap := map, retransmitMapSize := map.length }

/-- `removeHandshakePacketsFromRetransmitMap()`. -/
def removeHandshakePackets (t : Retransmitter M) : Retransmitter M :=
  t.withMap (t.retransmitMap.filter (·.sourcePayload.isSome))

/-- `addPacketToRetransmitMap(packetId, packet, sourcePayload)`; an item of the map is not replaced. -/
def addPacket (t : Retransmitter M) (item : RetransmitItem M) : Retransmitter M :=
  t.withMap (if t.Retransmits item.packetId then t.retransmitMap else t.retransmitMap ++ [item])

/-- `removePacketFromRetransmitMap(packetId)`. -/
def removePacket (t : Retransmitter M) (packetId : ℕ) : Retransmitter M :=
  t.withMap (t.retransmitMap.filter (·.packetId ≠ packetId))

/-- The loop of `pulseRetransmit` on one item: what stays, and what is sent. `exchange` makes the packet of
    a payload when the state is STATE_EXCHANGING. -/
def pulseItem (exchange : Option (ℕ → Payload → M)) (now : ℤ) (random : ℕ → ℕ) (item : RetransmitItem M) :
    Option (RetransmitItem M) × List M :=
  if item.nextRetransmitTimeMillis < now then
    let item := item.updateNextRetransmitTime now (random item.packetId)
    match exchange, item.sourcePayload with
    | some packetOf, some payload =>
        let packet := item.packet.getD (packetOf item.packetId payload)
        ({ item with packet := some packet }.count, [packet])
    | some _, none => (item.count, [])
    | none, some _ => (some item, [])
    | none, none => (item.count, item.packet.toList)
  else (some item, [])

/-- `pulseRetransmit(funcSendPacket)`. -/
def pulseRetransmit (exchange : Option (ℕ → Payload → M)) (now : ℤ) (random : ℕ → ℕ)
    (t : Retransmitter M) : Retransmitter M × List M :=
  (t.withMap (t.retransmitMap.filterMap fun item => (pulseItem exchange now random item).1),
    t.retransmitMap.flatMap fun item => (pulseItem exchange now random item).2)

end Retransmitter
end Universa.Network
