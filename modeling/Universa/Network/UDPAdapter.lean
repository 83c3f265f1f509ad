import Universa.Lib.Run
import Universa.Network.Retransmitter

/-! Two `UDPAdapter`s, where A sends to B (`UDPAdapter.cpp`): A's session with B, B's session readers for A,
    and the datagrams between them.

    Encryption and signatures are ideal: a ciphertext is its key and its plaintext, a signature is the
    text it signs, and nonces and session keys are numbers that were not drawn before. A datagram that was
    sent can be received any number of times, or never, while it is at most ten seconds old. The session
    of A is there from the start, as the first call of `send` makes it; both adapters and this session are made at
    one instant. Each step holds the lock of its adapter; the sender thread of A takes it for each of its steps
    anew, but reads the session key and draws the packet id in one (`prepare`). -/

namespace Universa.Network
open UDPAdapter

/-! ### Datagrams -/

/-- A payload under a session key. -/
structure Ciphertext where
  key : ℕ
  payload : Payload
  deriving DecidableEq

/-- The text of a KEY_REQ. -/
structure KeyReq where
  localNonce : ℕ
  remoteNonce : ℕ
  deriving DecidableEq

/-- The text of a SESSION. -/
structure SessionKey where
  key : ℕ
  nonce : ℕ
  deriving DecidableEq

/-- Datagrams from A to B. -/
inductive ToB where
  | hello (packetId : ℕ)
  | keyReqPart1 (packetId : ℕ) (text : KeyReq)
  | keyReqPart2 (packetId : ℕ) (sign : KeyReq)
  | sessionAck (packetId : ℕ)
  | data (packetId : ℕ) (content : Ciphertext)
  deriving DecidableEq

/-- Datagrams from B to A. -/
inductive ToA where
  | welcome (packetId : ℕ) (nonce : ℕ)
  | sessionPart1 (packetId : ℕ) (text : SessionKey)
  | sessionPart2 (packetId : ℕ) (sign : SessionKey)
  | ack (key : ℕ) (packetId : ℕ)
  | nack (packetId : ℕ)
  deriving DecidableEq

/-! ### The session of A -/

/-- `HandshakeState`. -/
inductive HandshakeState where
  | INIT
  | WAIT_FOR_WELCOME
  | WAIT_FOR_SESSION
  deriving DecidableEq

/-- What the sender thread is doing with a payload. -/
inductive Sending where
  | queue (payload : Payload)
  | check (payload : Payload)
  | prepare (payload : Payload)
  | transmit (packetId : ℕ) (content : Ciphertext)

/-- Adapter A: its `Session` with B, its counters, and the tasks of its sender thread. -/
structure Session where
  base : Retransmitter ToB
  exchanging : Bool
  handshakeStep : HandshakeState
  localNonce : ℕ
  remoteNonce : Option ℕ
  sessionKey : Option ℕ
  handshakeExpiresAt : ℤ
  sessionPart1 : Option SessionKey
  sessionPart2 : Option SessionKey
  lastHandshakeRestartTime : ℤ
  outputQueue : List Payload
  nextPacketId : ℕ
  nonces : ℕ
  calls : ℕ
  pool : List Payload
  sending : Option Sending
  protectionPrevTime : ℤ

namespace Session

/-- Adapter A with the session that its first call of `send` makes. -/
def new (now : ℤ) (nextPacketId : ℕ) : Session where
  base := .new
  exchanging := false
  handshakeStep := .INIT
  localNonce := 0
  remoteNonce := none
  sessionKey := none
  handshakeExpiresAt := now - handshakeTimeoutMillis
  sessionPart1 := none
  sessionPart2 := none
  lastHandshakeRestartTime := now
  outputQueue := []
  nextPacketId := nextPacketId
  nonces := 1
  calls := 0
  pool := []
  sending := none
  protectionPrevTime := now

/-- `send(destNodeNumber, payload)`. -/
def send (a : Session) (bytes : List UInt8) : Session :=
  { a with calls := a.calls + 1, pool := a.pool ++ [⟨a.calls, bytes⟩] }

/-- `addPayloadToOutputQueue(destination, payload)`. -/
def addPayloadToOutputQueue (a : Session) (payload : Payload) : Session :=
  { a with
    outputQueue := (if maxQueueSize ≤ a.outputQueue.length then a.outputQueue.tail else a.outputQueue) ++
      [payload] }

/-- What `pulseRetransmit` makes of a payload of A's map. -/
def exchange (a : Session) : Option (ℕ → Payload → ToB) :=
  if a.exchanging then
    a.sessionKey.map fun key packetId payload => .data packetId ⟨key, payload⟩
  else none

/-- `pulseRetransmit(funcSendPacket)`. -/
def pulseRetransmit (a : Session) (now : ℤ) (random : ℕ → ℕ) : Session × List ToB :=
  let (base, sent) := a.base.pulseRetransmit a.exchange now random
  ({ a with base := base }, sent)

/-- The next step of the sender thread: the next payload, or the next part of the task of `send`. -/
def senderStep (a : Session) (now : ℤ) (random : ℕ → ℕ) : Session × List ToB :=
  match a.sending with
  | none =>
      match a.pool with
      | [] => (a, [])
      | payload :: pool =>
          ({ a with
            pool := pool
            sending := some (if a.exchanging then .check payload else .queue payload) }, [])
  | some (.queue payload) => ({ a with sending := none }.addPayloadToOutputQueue payload, [])
  | some (.check payload) =>
      if a.base.retransmitMapSize > maxRetransmitQueueSize then
        ({ a with sending := none }.addPayloadToOutputQueue payload, [])
      else
        ({ a with
          base := { a.base with retransmitMapSize := a.base.retransmitMapSize + 1 }
          sending := some (.prepare payload) }, [])
  | some (.prepare payload) =>
      match a.sessionKey with
      | none => (a, [])
      | some key =>
          ({ a with
            sending := some (.transmit a.nextPacketId ⟨key, payload⟩)
            nextPacketId := a.nextPacketId + 1 }, [])
  | some (.transmit packetId content) =>
      ({ a with
        sending := none
        base := a.base.addPacket
          (.new packetId (.data packetId content) (some content.payload) now (random packetId)) },
        [.data packetId content])

/-- `sendHello(session)`. -/
def sendHello (a : Session) (now : ℤ) (random : ℕ → ℕ) : Session × List ToB :=
  let packet := ToB.hello a.nextPacketId
  ({ a with
    nextPacketId := a.nextPacketId + 1
    base := a.base.addPacket (.new a.nextPacketId packet none now (random a.nextPacketId)) }, [packet])

/-- `restartHandshakeIfNeeded(session, now)`. -/
def restartHandshakeIfNeeded (a : Session) (now : ℤ) (random : ℕ → ℕ) : Session × List ToB :=
  if a.exchanging = false ∧ a.handshakeExpiresAt < now then
    { a with
      handshakeStep := .WAIT_FOR_WELCOME
      handshakeExpiresAt := now + handshakeTimeoutMillis }.sendHello now random
  else (a, [])

/-- `startHandshake()`. -/
def startHandshake (a : Session) (now : ℤ) : Session :=
  if a.lastHandshakeRestartTime + handshakeTimeoutMillis ≤ now then
    let nullified := a.base.retransmitMap.map fun item =>
      { item with retransmitCounter := 0, packet := none, nextRetransmitTimeMillis := now }
    { a with
      base := (a.base.withMap nullified).removeHandshakePackets
      handshakeStep := .INIT
      handshakeExpiresAt := now - handshakeTimeoutMillis
      exchanging := false
      lastHandshakeRestartTime := now }
  else a

/-- `sendAllFromOutputQueue(funcSend)`. -/
def sendAllFromOutputQueue (a : Session) : Session :=
  if a.exchanging then
    let maxOutputs := maxRetransmitQueueSize - a.base.retransmitMap.length
    let count := max 1 (maxOutputs + 2).toNat
    { a with pool := a.pool ++ a.outputQueue.take count, outputQueue := a.outputQueue.drop count }
  else a

/-- The task of the timer. -/
def timer (a : Session) (now : ℤ) (random : ℕ → ℕ) : Session × List ToB :=
  let (a, sent) := a.restartHandshakeIfNeeded now random
  let (a, sent') := a.pulseRetransmit now random
  let a := a.sendAllFromOutputQueue
  if dupleProtectionPeriod ≤ now - a.protectionPrevTime then
    ({ a with
      base := { a.base with protection := a.base.protection.clearOldestBuffer }
      protectionPrevTime := now }, sent ++ sent')
  else (a, sent ++ sent')

/-- `sendKeyReq(session)`. -/
def sendKeyReq (a : Session) (remoteNonce : ℕ) (now : ℤ) (random : ℕ → ℕ) : Session × List ToB :=
  let text : KeyReq := ⟨a.nonces, remoteNonce⟩
  let packet1 := ToB.keyReqPart1 a.nextPacketId text
  let packet2 := ToB.keyReqPart2 (a.nextPacketId + 1) text
  ({ a with
    localNonce := a.nonces
    nonces := a.nonces + 1
    handshakeStep := .WAIT_FOR_SESSION
    sessionPart1 := none
    sessionPart2 := none
    nextPacketId := a.nextPacketId + 2
    base := (a.base.addPacket (.new a.nextPacketId packet1 none now (random a.nextPacketId))).addPacket
      (.new (a.nextPacketId + 1) packet2 none now (random (a.nextPacketId + 1))) },
    [packet1, packet2])

/-- The session with the id of a packet noted. -/
def note (a : Session) (packetId : ℕ) : Session :=
  { a with base := { a.base with protection := a.base.protection.note packetId } }

/-- `onReceiveSession(session)`. -/
def onReceiveSession (a : Session) (now : ℤ) (random : ℕ → ℕ) : Session × List ToB :=
  match a.sessionPart1, a.sessionPart2 with
  | some text, some sign =>
      if sign = text ∧ text.nonce = a.localNonce then
        let packet := ToB.sessionAck a.nextPacketId
        let (a, sent) := { a with
          nextPacketId := a.nextPacketId + 1
          sessionKey := some text.key
          exchanging := true }.pulseRetransmit now random
        (a, packet :: sent)
      else (a, [])
  | _, _ => (a, [])

/-- A waits for the parts of a SESSION. -/
def WaitsForSession (a : Session) : Prop := a.exchanging = false ∧ a.handshakeStep = .WAIT_FOR_SESSION

instance (a : Session) : Decidable a.WaitsForSession := inferInstanceAs (Decidable (_ ∧ _))

/-- `onReceive(data)` of A. -/
def onReceive (a : Session) (now : ℤ) (random : ℕ → ℕ) : ToA → Session × List ToB
  | .welcome packetId nonce =>
      if a.base.protection.Has packetId then (a, [])
      else
        let a := a.note packetId
        if a.exchanging = false ∧ a.handshakeStep = .WAIT_FOR_WELCOME then
          { a with base := a.base.removeHandshakePackets, remoteNonce := some nonce }.sendKeyReq nonce now
            random
        else (a, [])
  | .sessionPart1 packetId text =>
      if a.base.protection.Has packetId then (a, [])
      else
        let a := { a.note packetId with base := (a.note packetId).base.removeHandshakePackets }
        if a.WaitsForSession then { a with sessionPart1 := some text }.onReceiveSession now random
        else (a, [])
  | .sessionPart2 packetId sign =>
      if a.base.protection.Has packetId then (a, [])
      else
        let a := { a.note packetId with base := (a.note packetId).base.removeHandshakePackets }
        if a.WaitsForSession then { a with sessionPart2 := some sign }.onReceiveSession now random
        else (a, [])
  | .ack key packetId =>
      if a.exchanging ∧ a.sessionKey = some key then ({ a with base := a.base.removePacket packetId }, [])
      else (a, [])
  | .nack packetId =>
      if a.exchanging ∧ a.base.Retransmits packetId then
        (a.startHandshake now).restartHandshakeIfNeeded now random
      else (a, [])

end Session

/-! ### The session readers of B -/

/-- `SessionReader`. -/
structure SessionReader where
  base : Retransmitter ToA
  localNonce : Option ℕ
  nextLocalNonceGenerationTime : ℤ
  remoteNonce : Option ℕ
  keyReqPart1 : Option KeyReq
  keyReqPart2 : Option KeyReq
  sessionKey : Option ℕ

/-- A call of `receiveCallback`: its payload, and the packet, the key and the time it came with. -/
structure Delivery where
  payload : Payload
  packetId : ℕ
  key : ℕ
  time : ℤ

/-- Adapter B: its `SessionReader` for A, the candidate for it, its counters, and the calls of its
    `receiveCallback`, the last one first. -/
structure Readers where
  reader : Option SessionReader
  candidate : Option SessionReader
  nextPacketId : ℕ
  nonces : ℕ
  keys : ℕ
  protectionPrevTime : ℤ
  delivered : List Delivery

namespace SessionReader

/-- The reader with the id of a packet noted. -/
def note (r : SessionReader) (packetId : ℕ) : SessionReader :=
  { r with base := { r.base with protection := r.base.protection.note packetId } }

/-- `clearOldestBuffer()` of a reader. -/
def clearOldestBuffer (r : SessionReader) : SessionReader :=
  { r with base := { r.base with protection := r.base.protection.clearOldestBuffer } }

end SessionReader

namespace Readers

/-- Adapter B before it received anything. -/
def new (now : ℤ) (nextPacketId : ℕ) : Readers := ⟨none, none, nextPacketId, 0, 0, now, []⟩

/-- `getOrCreateSessionReaderCandidate(remoteId)`. -/
def getOrCreateCandidate (b : Readers) (now : ℤ) : SessionReader :=
  b.candidate.getD ⟨.new, none, now - handshakeTimeoutMillis, none, none, none, none⟩

/-- The WELCOME of a candidate, which stops the retransmission of the one before. -/
def sendWelcome (b : Readers) (r : SessionReader) (nonce : ℕ) (now : ℤ) (random : ℕ → ℕ) :
    Readers × List ToA :=
  let packet := ToA.welcome b.nextPacketId nonce
  ({ b with
    nextPacketId := b.nextPacketId + 1
    candidate := some { r with
      base := r.base.removeHandshakePackets.addPacket
        (.new b.nextPacketId packet none now (random b.nextPacketId)) } }, [packet])

/-- `onReceiveHello(packet)`, after the candidate was found. -/
def onReceiveHello (b : Readers) (r : SessionReader) (now : ℤ) (random : ℕ → ℕ) : Readers × List ToA :=
  let r := { r with keyReqPart1 := none, keyReqPart2 := none }
  if r.nextLocalNonceGenerationTime < now then
    { b with nonces := b.nonces + 1 }.sendWelcome
      { r with localNonce := some b.nonces, nextLocalNonceGenerationTime := now + handshakeTimeoutMillis }
      b.nonces now random
  else
    match r.localNonce with
    | some nonce => b.sendWelcome r nonce now random
    | none => ({ b with candidate := some r }, [])

/-- `acceptSessionReaderCandidate(sessionReader)` and `sendSessionKey(sessionReader)`. -/
def accept (b : Readers) (r : SessionReader) (text : KeyReq) (now : ℤ) (random : ℕ → ℕ) :
    Readers × List ToA :=
  let key : SessionKey := ⟨b.keys, text.localNonce⟩
  let packet1 := ToA.sessionPart1 b.nextPacketId key
  let packet2 := ToA.sessionPart2 (b.nextPacketId + 1) key
  ({ b with
    keys := b.keys + 1
    nextPacketId := b.nextPacketId + 2
    candidate := none
    reader := some { r with
      remoteNonce := some text.localNonce
      sessionKey := some b.keys
      base := (r.base.addPacket (.new b.nextPacketId packet1 none now (random b.nextPacketId))).addPacket
        (.new (b.nextPacketId + 1) packet2 none now (random (b.nextPacketId + 1))) } },
    [packet1, packet2])

/-- The parts of a KEY_REQ belong together and answer the nonce of this candidate. -/
def Accepts (r : SessionReader) (text : KeyReq) : Prop :=
  r.keyReqPart1 = some text ∧ r.keyReqPart2 = some text ∧ some text.remoteNonce = r.localNonce

instance (r : SessionReader) (text : KeyReq) : Decidable (Accepts r text) :=
  inferInstanceAs (Decidable (_ ∧ _))

/-- `onReceiveKeyReq(sessionReader)`. -/
def onReceiveKeyReq (b : Readers) (r : SessionReader) (now : ℤ) (random : ℕ → ℕ) : Readers × List ToA :=
  match r.keyReqPart1 with
  | some text =>
      if Accepts r text then b.accept r text now random else ({ b with candidate := some r }, [])
  | none => ({ b with candidate := some r }, [])

/-- `onReceiveData(packet)`. -/
def onReceiveData (b : Readers) (packetId : ℕ) (content : Ciphertext) (now : ℤ) : Readers × List ToA :=
  match b.reader with
  | none => (b, [.nack packetId])
  | some r =>
      if r.sessionKey = some content.key then
        if content.payload.bytes ≠ [] then
          if r.base.protection.Has packetId then (b, [.ack content.key packetId])
          else
            ({ b with
              reader := some (r.note packetId)
              delivered := ⟨content.payload, packetId, content.key, now⟩ :: b.delivered },
              [.ack content.key packetId])
        else (b, [.nack packetId])
      else (b, [.nack packetId])

/-- `onReceive(data)` of B. -/
def onReceive (b : Readers) (now : ℤ) (random : ℕ → ℕ) : ToB → Readers × List ToA
  | .hello packetId =>
      let r := b.getOrCreateCandidate now
      if r.base.protection.Has packetId then ({ b with candidate := some r }, [])
      else b.onReceiveHello (r.note packetId) now random
  | .keyReqPart1 packetId text =>
      let r := b.getOrCreateCandidate now
      if r.base.protection.Has packetId then ({ b with candidate := some r }, [])
      else
        b.onReceiveKeyReq { r.note packetId with
          base := (r.note packetId).base.removeHandshakePackets, keyReqPart1 := some text } now random
  | .keyReqPart2 packetId sign =>
      let r := b.getOrCreateCandidate now
      if r.base.protection.Has packetId then ({ b with candidate := some r }, [])
      else
        b.onReceiveKeyReq { r.note packetId with
          base := (r.note packetId).base.removeHandshakePackets, keyReqPart2 := some sign } now random
  | .sessionAck _ =>
      ({ b with reader := b.reader.map fun r => { r with base := r.base.removeHandshakePackets } }, [])
  | .data packetId content => b.onReceiveData packetId content now

/-- `pulseRetransmit(funcSendPacket)` of a reader, which is always in STATE_HANDSHAKE. -/
def pulseReader (now : ℤ) (random : ℕ → ℕ) : Option SessionReader → Option SessionReader × List ToA
  | none => (none, [])
  | some r =>
      let (base, sent) := r.base.pulseRetransmit none now random
      (some { r with base := base }, sent)

/-- The task of the timer. -/
def timer (b : Readers) (now : ℤ) (random : ℕ → ℕ) : Readers × List ToA :=
  let (reader, sent) := pulseReader now random b.reader
  let (candidate, sent') := pulseReader now random b.candidate
  if dupleProtectionPeriod ≤ now - b.protectionPrevTime then
    ({ b with
      reader := reader.map .clearOldestBuffer
      candidate := candidate.map .clearOldestBuffer
      protectionPrevTime := now }, sent ++ sent')
  else ({ b with reader := reader, candidate := candidate }, sent ++ sent')

end Readers

/-! ### Runs -/

/-- Both adapters, and all datagrams that were sent, with the time of sending. -/
structure Link where
  now : ℤ
  a : Session
  b : Readers
  toB : List (ToB × ℤ)
  toA : List (ToA × ℤ)

namespace Link

/-- The longest time that a datagram is on its way. -/
def maxDelay : ℤ := 10000

/-- Two adapters that were just made. -/
def new (now : ℤ) (packetIdA packetIdB : ℕ) : Link := ⟨now, .new now packetIdA, .new now packetIdB, [], []⟩

/-- A step of A with what it sends. -/
def withA (s : Link) (result : Session × List ToB) : Link :=
  { s with a := result.1, toB := s.toB ++ result.2.map fun packet => (packet, s.now) }

/-- A step of B with what it sends. -/
def withB (s : Link) (result : Readers × List ToA) : Link :=
  { s with b := result.1, toA := s.toA ++ result.2.map fun packet => (packet, s.now) }

/-- What can happen; a datagram is named by its place among those that were sent. -/
inductive Action where
  | send (bytes : List UInt8)
  | sender (random : ℕ → ℕ)
  | timerA (random : ℕ → ℕ)
  | timerB (random : ℕ → ℕ)
  | receiveB (i : ℕ) (random : ℕ → ℕ)
  | receiveA (i : ℕ) (random : ℕ → ℕ)
  | wait (millis : ℕ)

def step (s : Link) : Action → Option Link
  | .send bytes => some { s with a := s.a.send bytes }
  | .sender random => some (s.withA (s.a.senderStep s.now random))
  | .timerA random => some (s.withA (s.a.timer s.now random))
  | .timerB random => some (s.withB (s.b.timer s.now random))
  | .receiveB i random =>
      match s.toB[i]? with
      | some (packet, time) =>
          if s.now ≤ time + maxDelay then some (s.withB (s.b.onReceive s.now random packet)) else none
      | none => none
  | .receiveA i random =>
      match s.toA[i]? with
      | some (packet, time) =>
          if s.now ≤ time + maxDelay then some (s.withA (s.a.onReceive s.now random packet)) else none
      | none => none
  | .wait millis => some { s with now := s.now + millis }

end Link
end Universa.Network
