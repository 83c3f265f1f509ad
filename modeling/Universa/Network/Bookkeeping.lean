import Mathlib.Data.List.Count
import Universa.Network.Delivery

/-! What becomes of the payloads that are given to `send` of one session, whatever datagrams come in. A payload
    is in the output queue or in the retransmit map, unless it was acknowledged, evicted from a full output
    queue, or dropped after more than `RETRANSMIT_MAX_ATTEMPTS` sendings; and the map has a bounded number of
    payloads.

    After a new handshake a payload of the map is encrypted anew, if `startHandshake` found it there. `send`
    reads the state, encrypts and stores in steps of their own: where the handshake is restarted between them,
    the packet is stored under the old key and sent so after the new handshake. -/

namespace Universa.Network
open UDPAdapter

/-! ### The events of a session and its books -/

/-- The call whose payload a datagram carries. -/
def ToB.call : ToB → Option ℕ
  | .data _ content => some content.payload.call
  | _ => none

namespace Session

/-- The items of the retransmit map that carry a payload. -/
def dataItems (a : Session) : List (RetransmitItem ToB) :=
  a.base.retransmitMap.filter (·.sourcePayload.isSome)

/-- The calls of the payloads in the retransmit map. -/
def mapped (a : Session) : List ℕ := a.dataItems.filterMap fun item => item.sourcePayload.map (·.call)

/-- What `addPayloadToOutputQueue` takes out of the queue. -/
def evictedFirst (a : Session) : List ℕ :=
  if maxQueueSize ≤ a.outputQueue.length then (a.outputQueue.take 1).map (·.call) else []

end Session

/-- What can happen to a session; any datagram can come in. -/
inductive Event where
  | send (bytes : List UInt8)
  | sender (random : ℕ → ℕ)
  | timer (random : ℕ → ℕ)
  | receive (m : ToA) (random : ℕ → ℕ)
  | wait (millis : ℕ)

/-- A session with the calls whose payloads were acknowledged, evicted, and dropped, and the calls of the
    payloads in the datagrams that were sent in the exchanging state. -/
structure Books where
  now : ℤ
  a : Session
  acked : List ℕ
  evicted : List ℕ
  dropped : List ℕ
  sent : List ℕ

namespace Books

/-- A session that was just made. -/
def new (now : ℤ) (nextPacketId : ℕ) : Books := ⟨now, .new now nextPacketId, [], [], [], []⟩

/-- The session after an event, and what it sends. -/
def after (s : Books) : Event → Session × List ToB
  | .send bytes => (s.a.send bytes, [])
  | .sender random => s.a.senderStep s.now random
  | .timer random => s.a.timer s.now random
  | .receive m random => s.a.onReceive s.now random m
  | .wait _ => (s.a, [])

/-- The payloads that leave the map with an event. -/
def leaving (s : Books) (e : Event) : List ℕ := s.a.mapped.filter (· ∉ (s.after e).1.mapped)

/-- The payloads that an event acknowledges: they leave the map with an ACK under the key of the session. -/
def ackedBy (s : Books) (e : Event) : List ℕ :=
  match e with
  | .receive (.ack _ _) _ => s.leaving e
  | _ => []

/-- The payloads that leave the map otherwise. -/
def droppedBy (s : Books) (e : Event) : List ℕ :=
  match e with
  | .receive (.ack _ _) _ => []
  | _ => s.leaving e

/-- The payloads that an event evicts from the output queue. -/
def evictedBy (s : Books) : Event → List ℕ
  | .sender _ =>
      match s.a.sending with
      | some (.queue _) => s.a.evictedFirst
      | some (.check _) => if s.a.base.retransmitMapSize > maxRetransmitQueueSize then s.a.evictedFirst else []
      | _ => []
  | _ => []

/-- The calls of the payloads that are sent in the exchanging state. -/
def sentCalls (result : Session × List ToB) : List ℕ :=
  if result.1.exchanging then result.2.filterMap ToB.call else []

/-- An event. -/
def step (s : Books) (e : Event) : Option Books :=
  some {
    now := match e with
      | .wait millis => s.now + millis
      | _ => s.now
    a := (s.after e).1
    acked := s.acked ++ s.ackedBy e
    evicted := s.evicted ++ s.evictedBy e
    dropped := s.dropped ++ s.droppedBy e
    sent := s.sent ++ sentCalls (s.after e) }

/-! ### What is to hold, and the condition -/

/-- The sender thread has nothing to do. -/
def Quiescent (s : Books) : Prop := s.a.pool = [] ∧ s.a.sending = none

/-- The payload of a call is where it is to be. -/
def Accounted (s : Books) (call : ℕ) : Prop :=
  call ∈ s.a.outputQueue.map (·.call) ∨ call ∈ s.a.mapped ∨ call ∈ s.acked ∨ call ∈ s.evicted ∨
    call ∈ s.dropped ∧ retransmitMaxAttempts < s.sent.count call

/-- The bookkeeping of a session: no payload is lost, what is in the map when messages are exchanged is sent
    under the key of the session the next time, and the map is bounded. -/
structure Kept (s : Books) : Prop where
  accounted : s.Quiescent → ∀ call < s.a.calls, s.Accounted call
  newKey : s.a.exchanging = true → ∃ key, s.a.sessionKey = some key ∧ ∀ item ∈ s.a.dataItems, ∀ now random,
    ∀ m ∈ (Retransmitter.pulseItem s.a.exchange now random item).2,
      ∃ payload, item.sourcePayload = some payload ∧ m = .data item.packetId ⟨key, payload⟩
  bounded : (s.a.dataItems.length : ℤ) ≤ maxRetransmitQueueSize + 1

/-- A packet is stored in the map in the exchanging state, under the key it was encrypted with. -/
def Clean (s : Books) : Event → Prop
  | .sender _ => ∀ packetId content, s.a.sending = some (.transmit packetId content) →
      s.a.exchanging = true ∧ s.a.sessionKey = some content.key
  | _ => True

/-! ### How an event moves the items of the map -/

/-- An item as it is after an event: its counter grows with the datagrams that are sent, its packet stays, is
    nullified, or is one of its payload. -/
def Carried (sent : List ℕ) (item item' : RetransmitItem ToB) : Prop :=
  item'.packetId = item.packetId ∧ item'.sourcePayload = item.sourcePayload ∧
    ∀ payload, item.sourcePayload = some payload →
      item'.retransmitCounter ≤ item.retransmitCounter + sent.count payload.call ∧
      ∀ m, item'.packet = some m → item.packet = some m ∨ ∃ key, m = .data item.packetId ⟨key, payload⟩

theorem Carried.refl (sent : List ℕ) (item : RetransmitItem ToB) : Carried sent item item :=
  ⟨rfl, rfl, fun _ _ => ⟨Nat.le_add_right _ _, fun _ h => Or.inl h⟩⟩

theorem Carried.trans {sent sent' : List ℕ} {item item' item'' : RetransmitItem ToB}
    (h : Carried sent item item') (h' : Carried sent' item' item'') : Carried (sent ++ sent') item item'' := by
  obtain ⟨hid, hsource, hitem⟩ := h
  obtain ⟨hid', hsource', hitem'⟩ := h'
  refine ⟨hid'.trans hid, hsource'.trans hsource, fun payload hp => ?_⟩
  obtain ⟨hcount, hpacket⟩ := hitem payload hp
  obtain ⟨hcount', hpacket'⟩ := hitem' payload (hsource.trans hp)
  refine ⟨?_, fun m hm => ?_⟩
  · rw [List.count_append]
    omega
  · rcases hpacket' m hm with hm | ⟨key, rfl⟩
    · exact hpacket m hm
    · exact Or.inr ⟨key, by rw [hid]⟩

/-- The packets of payloads are under the key of the session, and there are none before the handshake is
    complete. -/
def Keyed (a : Session) : Prop :=
  ∀ item ∈ a.dataItems, ∀ payload, item.sourcePayload = some payload → ∀ m, item.packet = some m →
    a.exchanging = true ∧ ∃ key, a.sessionKey = some key ∧ m = .data item.packetId ⟨key, payload⟩

/-- A change of a session in which the sender thread does nothing, and these payloads are sent. -/
structure Changes (a a' : Session) (sent : List ℕ) : Prop where
  calls : a'.calls = a.calls
  sending : a'.sending = a.sending
  waiting : Link.waiting a' = Link.waiting a
  packetIds : a.nextPacketId ≤ a'.nextPacketId
  size : a.base.retransmitMapSize = a.base.retransmitMap.length →
    a'.base.retransmitMapSize = a'.base.retransmitMap.length
  key : (a.exchanging = true → a.sessionKey.isSome) → a'.exchanging = true → a'.sessionKey.isSome
  items : ∀ item' ∈ a'.base.retransmitMap, (∃ item ∈ a.base.retransmitMap, Carried sent item item') ∨
    item'.sourcePayload = none ∧ a.nextPacketId ≤ item'.packetId ∧ item'.packetId < a'.nextPacketId
  fewer : a'.dataItems.length ≤ a.dataItems.length
  keyed : Keyed a → Keyed a'

/-- Such a change in which only payloads that were sent often enough leave the map. -/
structure Moves (a a' : Session) (sent : List ℕ) : Prop extends Changes a a' sent where
  kept : ∀ item ∈ a.base.retransmitMap, ∀ payload, item.sourcePayload = some payload →
    (∃ item' ∈ a'.base.retransmitMap, Carried sent item item') ∨
      retransmitMaxAttempts < item.retransmitCounter + sent.count payload.call

theorem Moves.refl (a : Session) : Moves a a [] where
  calls := rfl
  sending := rfl
  waiting := rfl
  packetIds := Nat.le_refl _
  size := id
  key := id
  items := fun item hitem => Or.inl ⟨item, hitem, .refl [] item⟩
  kept := fun item hitem _ _ => Or.inl ⟨item, hitem, .refl [] item⟩
  fewer := Nat.le_refl _
  keyed := id

theorem Moves.trans {a a' a'' : Session} {sent sent' : List ℕ} (h : Moves a a' sent) (h' : Moves a' a'' sent') :
    Moves a a'' (sent ++ sent') where
  calls := h'.calls.trans h.calls
  sending := h'.sending.trans h.sending
  waiting := h'.waiting.trans h.waiting
  packetIds := Nat.le_trans h.packetIds h'.packetIds
  size := h'.size ∘ h.size
  key := h'.key ∘ h.key
  items := fun item'' hitem'' => by
    rcases h'.items item'' hitem'' with ⟨item', hitem', hcarried'⟩ | ⟨hnone, hle, hlt⟩
    · rcases h.items item' hitem' with ⟨item, hitem, hcarried⟩ | ⟨hnone, hle, hlt⟩
      · exact Or.inl ⟨item, hitem, hcarried.trans hcarried'⟩
      · refine Or.inr ⟨hcarried'.2.1.trans hnone, ?_, ?_⟩
        · rwa [hcarried'.1]
        · rw [hcarried'.1]
          exact Nat.lt_of_lt_of_le hlt h'.packetIds
    · exact Or.inr ⟨hnone, Nat.le_trans h.packetIds hle, hlt⟩
  kept := fun item hitem payload hp => by
    rw [List.count_append]
    rcases h.kept item hitem payload hp with ⟨item', hitem', hcarried⟩ | hlost
    · have hp' : item'.sourcePayload = some payload := hcarried.2.1.trans hp
      rcases h'.kept item' hitem' payload hp' with ⟨item'', hitem'', hcarried'⟩ | hlost
      · exact Or.inl ⟨item'', hitem'', hcarried.trans hcarried'⟩
      · have hcount := (hcarried.2.2 payload hp).1
        exact Or.inr (by omega)
    · exact Or.inr (by omega)
  fewer := Nat.le_trans h'.fewer h.fewer
  keyed := h'.keyed ∘ h.keyed

/-- A change that touches no payload, and may remove packets of the handshake and add new ones. -/
structure Still (a a' : Session) : Prop where
  calls : a'.calls = a.calls
  sending : a'.sending = a.sending
  waiting : Link.waiting a' = Link.waiting a
  packetIds : a.nextPacketId ≤ a'.nextPacketId
  size : a.base.retransmitMapSize = a.base.retransmitMap.length →
    a'.base.retransmitMapSize = a'.base.retransmitMap.length
  key : (a.exchanging = true → a.sessionKey.isSome) → a'.exchanging = true → a'.sessionKey.isSome
  data : a'.dataItems = a.dataItems
  items : ∀ item' ∈ a'.base.retransmitMap, item' ∈ a.base.retransmitMap ∨
    item'.sourcePayload = none ∧ a.nextPacketId ≤ item'.packetId ∧ item'.packetId < a'.nextPacketId
  keyed : Keyed a → Keyed a'

theorem mem_dataItems {a : Session} {item : RetransmitItem ToB} :
    item ∈ a.dataItems ↔ item ∈ a.base.retransmitMap ∧ item.sourcePayload.isSome :=
  List.mem_filter

theorem Still.moves {a a' : Session} (h : Still a a') : Moves a a' [] where
  calls := h.calls
  sending := h.sending
  waiting := h.waiting
  packetIds := h.packetIds
  size := h.size
  key := h.key
  items := fun item' hitem' => (h.items item' hitem').imp_left fun hitem => ⟨item', hitem, .refl [] item'⟩
  kept := fun item hitem payload hp => by
    have hdata : item ∈ a'.dataItems := h.data ▸ mem_dataItems.mpr ⟨hitem, by rw [hp]; rfl⟩
    exact Or.inl ⟨item, (mem_dataItems.mp hdata).1, .refl [] item⟩
  fewer := Nat.le_of_eq (congrArg List.length h.data)
  keyed := h.keyed

/-- The key of the session and its state stay. -/
theorem keyed_of_data {a a' : Session} (hdata : a'.dataItems = a.dataItems) (he : a'.exchanging = a.exchanging)
    (hkey : a'.sessionKey = a.sessionKey) (h : Keyed a) : Keyed a' := by
  intro item hitem payload hp m hm
  rw [he, hkey]
  exact h item (hdata ▸ hitem) payload hp m hm

theorem Still.note (a : Session) (packetId : ℕ) : Still a (a.note packetId) where
  calls := rfl
  sending := rfl
  waiting := rfl
  packetIds := Nat.le_refl _
  size := id
  key := id
  data := rfl
  items := fun _ h => Or.inl h
  keyed := id

theorem dataItems_filter (a : Session) :
    (a.base.retransmitMap.filter (·.sourcePayload.isSome)).filter (·.sourcePayload.isSome) = a.dataItems := by
  rw [List.filter_filter]
  simp [Session.dataItems]

theorem Still.removeHandshakePackets (a : Session) :
    Still a { a with base := a.base.removeHandshakePackets } where
  calls := rfl
  sending := rfl
  waiting := rfl
  packetIds := Nat.le_refl _
  size := fun _ => rfl
  key := id
  data := dataItems_filter a
  items := fun _ h => Or.inl (List.mem_filter.mp h).1
  keyed := keyed_of_data (dataItems_filter a) rfl rfl

/-- A packet of the handshake is added. -/
theorem dataItems_addPacket (t : Retransmitter ToB) {item : RetransmitItem ToB}
    (h : item.sourcePayload = none) :
    (t.addPacket item).retransmitMap.filter (·.sourcePayload.isSome) =
      t.retransmitMap.filter (·.sourcePayload.isSome) := by
  rw [Retransmitter.addPacket, Retransmitter.withMap]
  split
  · rfl
  · rw [List.filter_append]
    simp [h]

theorem Still.sendHello (a : Session) (now : ℤ) (random : ℕ → ℕ) : Still a (a.sendHello now random).1 where
  calls := rfl
  sending := rfl
  waiting := rfl
  packetIds := Nat.le_succ _
  size := fun _ => rfl
  key := id
  data := dataItems_addPacket a.base rfl
  items := fun item' hitem' => by
    rcases Link.items_addPacket hitem' with hitem | rfl
    · exact Or.inl hitem
    · exact Or.inr ⟨rfl, Nat.le_refl _, Nat.lt_succ_self _⟩
  keyed := keyed_of_data (dataItems_addPacket a.base rfl) rfl rfl

theorem Still.restartHandshakeIfNeeded (a : Session) (now : ℤ) (random : ℕ → ℕ) :
    Still a (a.restartHandshakeIfNeeded now random).1 := by
  rw [Session.restartHandshakeIfNeeded]
  split_ifs
  · have h := Still.sendHello { a with
      handshakeStep := .WAIT_FOR_WELCOME
      handshakeExpiresAt := now + handshakeTimeoutMillis } now random
    exact { h with }
  · exact ⟨rfl, rfl, rfl, Nat.le_refl _, id, id, rfl, fun _ h => Or.inl h, id⟩

theorem Still.sendKeyReq (a : Session) (remoteNonce : ℕ) (now : ℤ) (random : ℕ → ℕ) :
    Still a (a.sendKeyReq remoteNonce now random).1 := by
  have hdata : (a.sendKeyReq remoteNonce now random).1.dataItems = a.dataItems :=
    (dataItems_addPacket _ rfl).trans (dataItems_addPacket a.base rfl)
  exact {
    calls := rfl
    sending := rfl
    waiting := rfl
    packetIds := Nat.le_add_right _ _
    size := fun _ => rfl
    key := id
    data := hdata
    items := fun item' hitem' => by
      rcases Link.items_addPacket hitem' with hitem | rfl
      · rcases Link.items_addPacket hitem with hitem | rfl
        · exact Or.inl hitem
        · exact Or.inr ⟨rfl, Nat.le_refl _, Nat.lt_add_of_pos_right (by decide)⟩
      · exact Or.inr ⟨rfl, Nat.le_succ _, Nat.lt_succ_self _⟩
    keyed := keyed_of_data hdata rfl rfl }

theorem Still.sendAllFromOutputQueue (a : Session) : Still a a.sendAllFromOutputQueue := by
  have hwaiting := Link.waiting_sendAll a
  rw [Session.sendAllFromOutputQueue] at hwaiting ⊢
  split_ifs at hwaiting ⊢
  · exact ⟨rfl, rfl, hwaiting, Nat.le_refl _, id, id, rfl, fun _ h => Or.inl h, id⟩
  · exact ⟨rfl, rfl, rfl, Nat.le_refl _, id, id, rfl, fun _ h => Or.inl h, id⟩

theorem Still.clearOldestBuffer (a : Session) (now : ℤ) : Still a { a with
    base := { a.base with protection := a.base.protection.clearOldestBuffer }
    protectionPrevTime := now } where
  calls := rfl
  sending := rfl
  waiting := rfl
  packetIds := Nat.le_refl _
  size := id
  key := id
  data := rfl
  items := fun _ h => Or.inl h
  keyed := id

/-- A part of a SESSION is stored. -/
theorem Still.sessionParts (a : Session) (text sign : Option SessionKey) : Still a { a with
    sessionPart1 := text
    sessionPart2 := sign } where
  calls := rfl
  sending := rfl
  waiting := rfl
  packetIds := Nat.le_refl _
  size := id
  key := id
  data := rfl
  items := fun _ h => Or.inl h
  keyed := id

/-- A key is taken when no packet of a payload is left. -/
theorem Still.takeKey (a : Session) (key : ℕ) (h : a.exchanging = false) : Still a { a with
    nextPacketId := a.nextPacketId + 1
    sessionKey := some key
    exchanging := true } where
  calls := rfl
  sending := rfl
  waiting := rfl
  packetIds := Nat.le_succ _
  size := id
  key := fun _ _ => rfl
  data := rfl
  items := fun _ h => Or.inl h
  keyed := fun hkeyed item hitem payload hp m hm => by
    obtain ⟨he, -⟩ := hkeyed item hitem payload hp m hm
    rw [h] at he
    cases he

/-! ### The restart of the handshake and the pulse -/

/-- The packets of the payloads are theirs, under some key. -/
def Content (a : Session) : Prop :=
  ∀ item ∈ a.base.retransmitMap, ∀ payload, item.sourcePayload = some payload → ∀ m, item.packet = some m →
    ∃ key, m = .data item.packetId ⟨key, payload⟩

theorem Changes.content {a a' : Session} {sent : List ℕ} (h : Changes a a' sent) (hcontent : Content a) :
    Content a' := by
  intro item' hitem' payload hp m hm
  rcases h.items item' hitem' with ⟨item, hitem, hid, hsource, hcarried⟩ | ⟨hnone, -⟩
  · have hp' : item.sourcePayload = some payload := hsource.symm.trans hp
    rw [hid]
    rcases (hcarried payload hp').2 m hm with hm | hkey
    · exact hcontent item hitem payload hp' m hm
    · exact hkey
  · rw [hnone] at hp
    cases hp

/-- The restart nullifies the packets of the payloads, and counts their sendings anew. -/
theorem Moves.startHandshake (a : Session) (now : ℤ) : Moves a (a.startHandshake now) [] := by
  rw [Session.startHandshake]
  split_ifs
  case neg => exact .refl a
  set nullify : RetransmitItem ToB → RetransmitItem ToB := fun item =>
    { item with retransmitCounter := 0, packet := none, nextRetransmitTimeMillis := now } with hnullify
  have hcarried : ∀ item, Carried [] item (nullify item) := fun item =>
    ⟨rfl, rfl, fun _ _ => ⟨Nat.zero_le _, nofun⟩⟩
  have hmem : ∀ item', item' ∈ (a.base.retransmitMap.map nullify).filter (·.sourcePayload.isSome) ↔
      ∃ item ∈ a.base.retransmitMap, item.sourcePayload.isSome ∧ nullify item = item' := by
    intro item'
    simp only [List.mem_filter, List.mem_map]
    constructor
    · rintro ⟨⟨item, hitem, rfl⟩, hsome⟩
      exact ⟨item, hitem, hsome, rfl⟩
    · rintro ⟨item, hitem, hsome, rfl⟩
      exact ⟨⟨item, hitem, rfl⟩, hsome⟩
  have hdata : ((a.base.retransmitMap.map nullify).filter (·.sourcePayload.isSome)).filter
      (·.sourcePayload.isSome) = a.dataItems.map nullify := by
    rw [List.filter_filter, List.filter_map]
    simp [Session.dataItems, nullify, Function.comp_def]
  exact {
    calls := rfl
    sending := rfl
    waiting := rfl
    packetIds := Nat.le_refl _
    size := fun _ => rfl
    key := fun _ he => by cases he
    items := fun item' hitem' => by
      obtain ⟨item, hitem, -, rfl⟩ := (hmem item').mp hitem'
      exact Or.inl ⟨item, hitem, hcarried item⟩
    kept := fun item hitem payload hp => by
      exact Or.inl ⟨nullify item, (hmem _).mpr ⟨item, hitem, by rw [hp]; rfl, rfl⟩, hcarried item⟩
    fewer := Nat.le_of_eq ((congrArg List.length hdata).trans (List.length_map nullify))
    keyed := fun _ item' hitem' payload hp m hm => by
      obtain ⟨item, -, -, rfl⟩ := (hmem item').mp (mem_dataItems.mp hitem').1
      cases hm }

/-- What `retransmitCounter++` leaves of an item. -/
theorem eq_of_count {item item' : RetransmitItem ToB} (h : item.count = some item') :
    item' = { item with retransmitCounter := item.retransmitCounter + 1 } := by
  rw [RetransmitItem.count] at h
  split_ifs at h
  exact (Option.some.inj h).symm

theorem le_of_count {item : RetransmitItem ToB} (h : item.count = none) :
    retransmitMaxAttempts ≤ item.retransmitCounter := by
  rw [RetransmitItem.count] at h
  split_ifs at h with hle
  exact hle

/-- An item that a pulse looks at. Where it goes, its payload was sent more than `RETRANSMIT_MAX_ATTEMPTS`
    times. -/
theorem pulseItem_carried {exchange : Option (ℕ → Payload → ToB)} {now : ℤ} {random : ℕ → ℕ}
    {item : RetransmitItem ToB} {sent : List ℕ}
    (hcontent : ∀ payload, item.sourcePayload = some payload → ∀ m, item.packet = some m →
      ∃ key, m = .data item.packetId ⟨key, payload⟩)
    (hexchange : ∀ packetOf, exchange = some packetOf → ∀ packetId payload,
      ∃ key, packetOf packetId payload = .data packetId ⟨key, payload⟩)
    (hsent : exchange.isSome → ∀ m ∈ (Retransmitter.pulseItem exchange now random item).2, ∀ call,
      m.call = some call → call ∈ sent) :
    (∀ item', (Retransmitter.pulseItem exchange now random item).1 = some item' → Carried sent item item') ∧
    ((Retransmitter.pulseItem exchange now random item).1 = none →
      ∀ payload, item.sourcePayload = some payload →
        retransmitMaxAttempts < item.retransmitCounter + sent.count payload.call) := by
  rw [Retransmitter.pulseItem] at hsent ⊢
  split_ifs at hsent ⊢
  case neg =>
    refine ⟨fun item' h => ?_, nofun⟩
    obtain rfl := Option.some.inj h
    exact .refl sent item
  -- the next time of the item does not matter
  have hsame : ∀ updated, item.updateNextRetransmitTime now (random item.packetId) = updated →
      updated.packetId = item.packetId ∧ updated.packet = item.packet ∧
      updated.retransmitCounter = item.retransmitCounter ∧ updated.sourcePayload = item.sourcePayload := by
    rintro updated rfl
    exact ⟨rfl, rfl, rfl, rfl⟩
  dsimp only at hsent ⊢
  generalize item.updateNextRetransmitTime now (random item.packetId) = updated at hsent hsame ⊢
  obtain ⟨hid, hpacket, hcounter, hsource⟩ := hsame updated rfl
  cases hp : item.sourcePayload with
  | none =>
      rw [hsource, hp]
      refine ⟨fun item' h => ?_, fun _ _ => nofun⟩
      have hcount : updated.count = some item' := by
        cases exchange <;> exact h
      obtain rfl := eq_of_count hcount
      exact ⟨hid, hsource, by simp [hp]⟩
  | some payload =>
      cases exchange with
      | none =>
          rw [hsource, hp]
          refine ⟨fun item' h => ?_, nofun⟩
          obtain rfl := Option.some.inj h
          refine ⟨hid, hsource, fun payload _ => ⟨?_, fun m hm => Or.inl (hpacket ▸ hm)⟩⟩
          rw [hcounter]
          exact Nat.le_add_right _ _
      | some packetOf =>
          rw [hsource, hp] at hsent ⊢
          dsimp only at hsent ⊢
          -- the packet of the item, or a new one, has the payload
          obtain ⟨key, hm⟩ : ∃ key, updated.packet.getD (packetOf updated.packetId payload) =
              .data item.packetId ⟨key, payload⟩ := by
            rw [hpacket, hid]
            cases hsome : item.packet with
            | none => exact hexchange packetOf rfl item.packetId payload
            | some m => exact hcontent payload hp m hsome
          have hcount : 0 < sent.count payload.call := by
            refine List.count_pos_iff.mpr (hsent rfl _ (List.mem_singleton.mpr rfl) _ ?_)
            rw [hm]
            rfl
          constructor
          · intro item' h
            obtain rfl := eq_of_count h
            refine ⟨hid, hp.symm, fun payload' hp' => ?_⟩
            obtain rfl := Option.some.inj (hp.symm.trans hp')
            refine ⟨?_, fun m h => Or.inr ⟨key, ?_⟩⟩
            · change updated.retransmitCounter + 1 ≤ _
              omega
            · rw [← hm]
              exact (Option.some.inj h).symm
          · intro h payload' hp'
            obtain rfl := Option.some.inj hp'
            have hle := le_of_count h
            change retransmitMaxAttempts ≤ updated.retransmitCounter at hle
            omega

/-- What `pulseRetransmit` encrypts is under the key of the session. -/
theorem exchange_data {a : Session} {packetOf : ℕ → Payload → ToB} (h : a.exchange = some packetOf) :
    a.exchanging = true ∧ ∃ key, a.sessionKey = some key ∧
      packetOf = fun packetId payload => .data packetId ⟨key, payload⟩ := by
  rw [Session.exchange] at h
  split_ifs at h with he
  obtain ⟨key, hkey, rfl⟩ := Option.map_eq_some_iff.mp h
  exact ⟨he, key, hkey, rfl⟩

/-- What a pulse sends of an item with a payload: its packet, or a new one under the key of the session. -/
theorem pulseItem_sends {a : Session} {now : ℤ} {random : ℕ → ℕ} {item : RetransmitItem ToB} {payload : Payload}
    (hp : item.sourcePayload = some payload) {m : ToB}
    (hm : m ∈ (Retransmitter.pulseItem a.exchange now random item).2) :
    a.exchanging = true ∧ ∃ key, a.sessionKey = some key ∧
      m = item.packet.getD (.data item.packetId ⟨key, payload⟩) := by
  obtain ⟨-, ⟨-, hnone, -⟩ | ⟨packetOf, payload', hex, hp', rfl⟩⟩ :=
    (Link.pulseItem_cases _ now random item).2 m hm
  · rw [hp] at hnone
    cases hnone
  · obtain rfl := Option.some.inj (hp.symm.trans hp')
    obtain ⟨he, key, hkey, rfl⟩ := exchange_data hex
    exact ⟨he, key, hkey, rfl⟩

/-- Elements that are changed and left out, where what is counted stays so. -/
theorem length_filter_filterMap {α : Type} {f : α → Option α} {p : α → Bool}
    (h : ∀ x y, f x = some y → p y = p x) (xs : List α) :
    ((xs.filterMap f).filter p).length ≤ (xs.filter p).length := by
  induction xs with
  | nil => exact Nat.le_refl _
  | cons x xs ih =>
      rw [List.filterMap_cons, List.filter_cons]
      cases hx : f x with
      | none =>
          split_ifs
          · exact Nat.le_succ_of_le ih
          · exact ih
      | some y =>
          rw [List.filter_cons, h x y hx]
          split_ifs
          · exact Nat.succ_le_succ ih
          · exact ih

/-- A pulse keeps what is in the map, or has sent it often enough. -/
theorem Moves.pulseRetransmit (a : Session) (now : ℤ) (random : ℕ → ℕ) (hcontent : Content a)
    (hkey : a.exchanging = true → a.sessionKey.isSome) :
    Moves a (a.pulseRetransmit now random).1
      (if a.exchanging then (a.pulseRetransmit now random).2.filterMap ToB.call else []) := by
  set sent := if a.exchanging then (a.pulseRetransmit now random).2.filterMap ToB.call else [] with hsent
  have hitem : ∀ item ∈ a.base.retransmitMap, _ := fun item hitem =>
    @pulseItem_carried a.exchange now random item sent (hcontent item hitem)
      (fun packetOf h => by
        obtain ⟨-, key, -, rfl⟩ := exchange_data h
        exact fun _ _ => ⟨key, rfl⟩)
      (fun hex m hm call hcall => by
        obtain ⟨packetOf, hpacketOf⟩ := Option.isSome_iff_exists.mp hex
        have he : a.exchanging = true := (exchange_data hpacketOf).1
        rw [hsent, if_pos he]
        exact List.mem_filterMap.mpr ⟨m, List.mem_flatMap.mpr ⟨item, hitem, hm⟩, hcall⟩)
  have hsome : ∀ item', item' ∈ (a.pulseRetransmit now random).1.base.retransmitMap ↔
      ∃ item ∈ a.base.retransmitMap, (Retransmitter.pulseItem a.exchange now random item).1 = some item' :=
    fun _ => List.mem_filterMap
  exact {
    calls := rfl
    sending := rfl
    waiting := rfl
    packetIds := Nat.le_refl _
    size := fun _ => rfl
    key := fun _ he => hkey he
    items := fun item' hitem' => by
      obtain ⟨item, hmem, h⟩ := (hsome item').mp hitem'
      exact Or.inl ⟨item, hmem, (hitem item hmem).1 item' h⟩
    kept := fun item hmem payload hp => by
      cases h : (Retransmitter.pulseItem a.exchange now random item).1 with
      | none => exact Or.inr ((hitem item hmem).2 h payload hp)
      | some item' => exact Or.inl ⟨item', (hsome item').mpr ⟨item, hmem, h⟩, (hitem item hmem).1 item' h⟩
    fewer := length_filter_filterMap (fun item item' h =>
      congrArg Option.isSome ((Link.pulseItem_cases a.exchange now random item).1 item' h).2.1) _
    keyed := fun hkeyed item' hitem' payload hp m hm => by
      obtain ⟨item, hmem, h⟩ := (hsome item').mp (mem_dataItems.mp hitem').1
      obtain ⟨hid, hsource, hpacket⟩ := (Link.pulseItem_cases a.exchange now random item).1 item' h
      have hp' : item.sourcePayload = some payload := hsource.symm.trans hp
      have hkept : ∀ m, item.packet = some m → a.exchanging = true ∧ ∃ key, a.sessionKey = some key ∧
          m = .data item.packetId ⟨key, payload⟩ :=
        hkeyed item (mem_dataItems.mpr ⟨hmem, hp' ▸ rfl⟩) payload hp'
      rw [hid]
      rcases hpacket with ⟨hpacket, -⟩ | ⟨-, -, m', hm', hpacket⟩
      · exact hkept m (hpacket.symm.trans hm)
      · obtain rfl := Option.some.inj (hpacket.symm.trans hm)
        obtain ⟨he, key, hkey', rfl⟩ := pulseItem_sends hp' hm'
        cases hnone : item.packet with
        | none => exact ⟨he, key, hkey', rfl⟩
        | some m => exact hkept m hnone }

/-! ### The events besides those of the sender -/

/-- A restart of the handshake sends no payload. -/
theorem restartHandshakeIfNeeded_calls (a : Session) (now : ℤ) (random : ℕ → ℕ) :
    (a.restartHandshakeIfNeeded now random).2.filterMap ToB.call = [] ∧
    (a.restartHandshakeIfNeeded now random).1.exchanging = a.exchanging := by
  rw [Session.restartHandshakeIfNeeded]
  split_ifs
  · exact ⟨rfl, rfl⟩
  · exact ⟨rfl, rfl⟩

theorem Moves.timer (a : Session) (now : ℤ) (random : ℕ → ℕ) (hcontent : Content a)
    (hkey : a.exchanging = true → a.sessionKey.isSome) :
    Moves a (a.timer now random).1 (sentCalls (a.timer now random)) := by
  have hrestart := (Still.restartHandshakeIfNeeded a now random).moves
  obtain ⟨hcalls, hexchanging⟩ := restartHandshakeIfNeeded_calls a now random
  rw [Session.timer]
  generalize a.restartHandshakeIfNeeded now random = restarted at hrestart hcalls hexchanging ⊢
  have hpulse := Moves.pulseRetransmit restarted.1 now random (hrestart.content hcontent) (hrestart.key hkey)
  have hstate : (restarted.1.pulseRetransmit now random).1.exchanging = restarted.1.exchanging := rfl
  dsimp only
  generalize restarted.1.pulseRetransmit now random = pulsed at hpulse hstate ⊢
  have hall := (Still.sendAllFromOutputQueue pulsed.1).moves
  have hmoves := (hrestart.trans hpulse).trans hall
  have hstate' : pulsed.1.sendAllFromOutputQueue.exchanging = restarted.1.exchanging := by
    rw [← hstate, Session.sendAllFromOutputQueue]
    split_ifs <;> rfl
  have hsent : sentCalls (pulsed.1.sendAllFromOutputQueue, restarted.2 ++ pulsed.2) =
      if restarted.1.exchanging then pulsed.2.filterMap ToB.call else [] := by
    rw [sentCalls, hstate', List.filterMap_append, hcalls, List.nil_append]
  simp only [List.nil_append, List.append_nil] at hmoves
  split_ifs
  · have hclear := hmoves.trans (Still.clearOldestBuffer pulsed.1.sendAllFromOutputQueue now).moves
    rw [List.append_nil] at hclear
    exact hsent ▸ hclear
  · exact hsent ▸ hmoves

/-- No payload is sent, as what is sent has none. -/
theorem sentCalls_of_none {a : Session} {sent : List ToB} (h : sent.filterMap ToB.call = []) :
    sentCalls (a, sent) = [] := by
  rw [sentCalls]
  split_ifs
  · exact h
  · rfl

theorem Moves.none (a : Session) : Moves a a (sentCalls (a, [])) := by
  rw [sentCalls_of_none rfl]
  exact .refl a

theorem Moves.onReceiveSession (a : Session) (now : ℤ) (random : ℕ → ℕ) (hcontent : Content a)
    (hwaits : a.WaitsForSession) :
    Moves a (a.onReceiveSession now random).1 (sentCalls (a.onReceiveSession now random)) := by
  rw [Session.onReceiveSession]
  split
  next text sign _ _ =>
    split_ifs
    · have htake := (Still.takeKey a text.key hwaits.1).moves
      exact htake.trans (Moves.pulseRetransmit _ now random (htake.content hcontent) fun _ => rfl)
    · exact .none a
  next => exact .none a

/-- A part of a SESSION comes, with what was stored of the other part. -/
theorem Moves.sessionPart (a : Session) (now : ℤ) (random : ℕ → ℕ) (packetId : ℕ)
    (text sign : Option SessionKey) (hcontent : Content a) {result : Session × List ToB}
    (h : result =
      let a := { a.note packetId with base := (a.note packetId).base.removeHandshakePackets }
      if a.WaitsForSession then
        { a with sessionPart1 := text, sessionPart2 := sign }.onReceiveSession now random
      else (a, [])) :
    Moves a result.1 (sentCalls result) := by
  have hnote := (Still.note a packetId).moves.trans (Still.removeHandshakePackets (a.note packetId)).moves
  dsimp only at h
  split_ifs at h with hwaits
  · subst h
    have hstore := hnote.trans (Still.sessionParts _ text sign).moves
    exact hstore.trans (Moves.onReceiveSession _ now random (hstore.content hcontent) hwaits)
  · subst h
    exact hnote.trans (.none _)

/-- Any datagram but an ACK. -/
theorem Moves.onReceive (a : Session) (now : ℤ) (random : ℕ → ℕ) (m : ToA)
    (hack : ∀ key packetId, m ≠ .ack key packetId) (hcontent : Content a) :
    Moves a (a.onReceive now random m).1 (sentCalls (a.onReceive now random m)) := by
  cases m with
  | welcome packetId nonce =>
      rw [Session.onReceive]
      split_ifs
      · exact .none a
      · dsimp only
        split_ifs
        · have hremove : Still (a.note packetId) { a.note packetId with
              base := (a.note packetId).base.removeHandshakePackets
              remoteNonce := some nonce } := { Still.removeHandshakePackets (a.note packetId) with }
          have hmoves := ((Still.note a packetId).moves.trans hremove.moves).trans
            (Still.sendKeyReq _ nonce now random).moves
          rw [sentCalls_of_none rfl]
          exact hmoves
        · exact (Still.note a packetId).moves.trans (.none _)
  | sessionPart1 packetId text =>
      rw [Session.onReceive]
      split_ifs
      · exact .none a
      · exact Moves.sessionPart a now random packetId (some text) a.sessionPart2 hcontent rfl
  | sessionPart2 packetId sign =>
      rw [Session.onReceive]
      split_ifs
      · exact .none a
      · exact Moves.sessionPart a now random packetId a.sessionPart1 (some sign) hcontent rfl
  | ack key packetId => exact absurd rfl (hack key packetId)
  | nack packetId =>
      rw [Session.onReceive]
      split_ifs
      · obtain ⟨hcalls, -⟩ := restartHandshakeIfNeeded_calls (a.startHandshake now) now random
        rw [sentCalls, hcalls, ite_self]
        exact (Moves.startHandshake a now).trans
          (Still.restartHandshakeIfNeeded (a.startHandshake now) now random).moves
      · exact .none a

/-! ### The invariant -/

/-- The sender thread has counted a packet that it has not stored yet. -/
def Reserved : Option Sending → Prop
  | some (.prepare _) => True
  | some (.transmit _ _) => True
  | _ => False

/-- The payload left the queue and the map as it is to. -/
def Settled (s : Books) (call : ℕ) : Prop :=
  call ∈ s.acked ∨ call ∈ s.evicted ∨ call ∈ s.dropped ∧ retransmitMaxAttempts < s.sent.count call

/-- What every run keeps. -/
structure Inv (s : Books) : Prop where
  size : ¬ Reserved s.a.sending → s.a.base.retransmitMapSize = s.a.base.retransmitMap.length
  room : Reserved s.a.sending → (s.a.dataItems.length : ℤ) ≤ maxRetransmitQueueSize
  bounded : (s.a.dataItems.length : ℤ) ≤ maxRetransmitQueueSize + 1
  ids : ∀ item ∈ s.a.base.retransmitMap, item.packetId < s.a.nextPacketId
  fresh : ∀ packetId content, s.a.sending = some (.transmit packetId content) →
    packetId < s.a.nextPacketId ∧ ∀ item ∈ s.a.base.retransmitMap, item.packetId ≠ packetId
  content : Content s.a
  counter : ∀ item ∈ s.a.base.retransmitMap, ∀ payload, item.sourcePayload = some payload →
    item.retransmitCounter ≤ s.sent.count payload.call
  key : s.a.exchanging = true → s.a.sessionKey.isSome
  located : ∀ call < s.a.calls, call ∈ Link.unsent s.a ∨ call ∈ s.a.mapped ∨ s.Settled call

theorem mem_mapped {a : Session} {call : ℕ} : call ∈ a.mapped ↔
    ∃ item ∈ a.base.retransmitMap, ∃ payload, item.sourcePayload = some payload ∧ payload.call = call := by
  simp only [Session.mapped, List.mem_filterMap, mem_dataItems, Option.map_eq_some_iff]
  constructor
  · rintro ⟨item, ⟨hitem, -⟩, payload, hp, rfl⟩
    exact ⟨item, hitem, payload, hp, rfl⟩
  · rintro ⟨item, hitem, payload, hp, rfl⟩
    exact ⟨item, ⟨hitem, hp ▸ rfl⟩, payload, hp, rfl⟩

theorem Settled.step {s s' : Books} {e : Event} {call : ℕ} (hs : step s e = some s') (h : s.Settled call) :
    s'.Settled call := by
  obtain rfl := Option.some.inj hs
  rcases h with h | h | ⟨h, hcount⟩
  · exact Or.inl (List.mem_append_left _ h)
  · exact Or.inr (Or.inl (List.mem_append_left _ h))
  · refine Or.inr (Or.inr ⟨List.mem_append_left _ h, ?_⟩)
    rw [List.count_append]
    omega

/-- A payload that leaves the map is acknowledged, or was sent often enough. -/
theorem settled_of_leaving {s s' : Books} {e : Event} {call : ℕ} (hs : step s e = some s')
    (h : call ∈ s.leaving e)
    (hsent : call ∈ s.ackedBy e ∨ retransmitMaxAttempts < (s.sent ++ sentCalls (s.after e)).count call) :
    s'.Settled call := by
  obtain rfl := Option.some.inj hs
  have hby : call ∈ s.ackedBy e ∨ call ∈ s.droppedBy e := by
    cases e with
    | receive m random => cases m <;> first | exact Or.inr h | exact Or.inl h
    | send | sender | timer | wait => exact Or.inr h
  rcases hsent with hacked | hcount
  · exact Or.inl (List.mem_append_right _ hacked)
  · rcases hby with hacked | hdropped
    · exact Or.inl (List.mem_append_right _ hacked)
    · exact Or.inr (Or.inr ⟨List.mem_append_right _ hdropped, hcount⟩)

/-- The payload of a call stays in the map, or leaves it. -/
theorem located_mapped {s s' : Books} {e : Event} {call : ℕ} (hs : step s e = some s') (h : call ∈ s.a.mapped)
    (hleaves : call ∈ s.leaving e →
      call ∈ s.ackedBy e ∨ retransmitMaxAttempts < (s.sent ++ sentCalls (s.after e)).count call) :
    call ∈ s'.a.mapped ∨ s'.Settled call := by
  by_cases hmapped : call ∈ (s.after e).1.mapped
  · obtain rfl := Option.some.inj hs
    exact Or.inl hmapped
  · have hleaving : call ∈ s.leaving e := List.mem_filter.mpr ⟨h, by simpa using hmapped⟩
    exact Or.inr (settled_of_leaving hs hleaving (hleaves hleaving))

/-- An event besides those of the sender. -/
theorem Inv.changes {s s' : Books} {e : Event} (h : Inv s) (hs : step s e = some s')
    (hchanges : Changes s.a (s.after e).1 (sentCalls (s.after e)))
    (hleaves : ∀ call ∈ s.leaving e,
      call ∈ s.ackedBy e ∨ retransmitMaxAttempts < (s.sent ++ sentCalls (s.after e)).count call) : Inv s' := by
  have hlocated : ∀ call < s.a.calls, call ∈ Link.unsent s'.a ∨ call ∈ s'.a.mapped ∨ s'.Settled call := by
    intro call hlt
    rcases h.located call hlt with hunsent | hmapped | hsettled
    · obtain rfl := Option.some.inj hs
      refine Or.inl ?_
      rw [Link.unsent, hchanges.waiting]
      exact hunsent
    · exact Or.inr (located_mapped hs hmapped (hleaves call))
    · exact Or.inr (Or.inr (hsettled.step hs))
  obtain rfl := Option.some.inj hs
  have hfewer := hchanges.fewer
  have hbounded := h.bounded
  refine ⟨fun hr => hchanges.size (h.size ?_), fun hr => ?_, ?_, fun item' hitem' => ?_,
    fun packetId content hs' => ?_, hchanges.content h.content, fun item' hitem' payload hp => ?_,
    hchanges.key h.key, fun call hlt => ?_⟩
  · rwa [← hchanges.sending]
  · have hroom := h.room (hchanges.sending ▸ hr)
    change ((s.after e).1.dataItems.length : ℤ) ≤ _
    omega
  · change ((s.after e).1.dataItems.length : ℤ) ≤ _
    omega
  · rcases hchanges.items item' hitem' with ⟨item, hitem, hid, -⟩ | ⟨-, -, hlt⟩
    · have hlt := h.ids item hitem
      rw [hid]
      exact Nat.lt_of_lt_of_le hlt hchanges.packetIds
    · exact hlt
  · obtain ⟨hlt, hfresh⟩ := h.fresh packetId content (hchanges.sending.symm.trans hs')
    refine ⟨Nat.lt_of_lt_of_le hlt hchanges.packetIds, fun item' hitem' => ?_⟩
    rcases hchanges.items item' hitem' with ⟨item, hitem, hid, -⟩ | ⟨-, hle, -⟩
    · rw [hid]
      exact hfresh item hitem
    · omega
  · change _ ≤ (s.sent ++ sentCalls (s.after e)).count payload.call
    rw [List.count_append]
    rcases hchanges.items item' hitem' with ⟨item, hitem, -, hsource, hcarried⟩ | ⟨hnone, -⟩
    · have hp' : item.sourcePayload = some payload := hsource.symm.trans hp
      have hcounter := h.counter item hitem payload hp'
      have hcount := (hcarried payload hp').1
      omega
    · rw [hnone] at hp
      cases hp
  · exact hlocated call (hchanges.calls ▸ hlt)

/-- What leaves the map was sent often enough. -/
theorem Inv.leaving {s : Books} {e : Event} (h : Inv s)
    (hmoves : Moves s.a (s.after e).1 (sentCalls (s.after e))) :
    ∀ call ∈ s.leaving e, retransmitMaxAttempts < (s.sent ++ sentCalls (s.after e)).count call := by
  intro call hcall
  obtain ⟨hmapped, hnot⟩ := List.mem_filter.mp hcall
  obtain ⟨item, hitem, payload, hp, rfl⟩ := mem_mapped.mp hmapped
  rw [List.count_append]
  rcases hmoves.kept item hitem payload hp with ⟨item', hitem', hcarried⟩ | hcount
  · have hmapped' : payload.call ∈ (s.after e).1.mapped :=
      mem_mapped.mpr ⟨item', hitem', payload, hcarried.2.1.trans hp, rfl⟩
    simp [hmapped'] at hnot
  · have hcounter := h.counter item hitem payload hp
    omega

theorem Changes.removePacket (a : Session) (packetId : ℕ) :
    Changes a { a with base := a.base.removePacket packetId } [] where
  calls := rfl
  sending := rfl
  waiting := rfl
  packetIds := Nat.le_refl _
  size := fun _ => rfl
  key := id
  items := fun item hitem => Or.inl ⟨item, (List.mem_filter.mp hitem).1, .refl [] item⟩
  fewer := (List.filter_sublist.filter _).length_le
  keyed := fun hkeyed item hitem => by
    obtain ⟨hmem, hsome⟩ := mem_dataItems.mp hitem
    exact hkeyed item (mem_dataItems.mpr ⟨(List.mem_filter.mp hmem).1, hsome⟩)

theorem Inv.moves {s s' : Books} {e : Event} (h : Inv s) (hs : step s e = some s')
    (hmoves : Moves s.a (s.after e).1 (sentCalls (s.after e))) : Inv s' :=
  h.changes hs hmoves.toChanges fun call hcall => Or.inr (h.leaving hmoves call hcall)

/-- An ACK, which counts under the key of the session. -/
theorem Changes.ack (a : Session) (now : ℤ) (random : ℕ → ℕ) (key packetId : ℕ) :
    Changes a (a.onReceive now random (.ack key packetId)).1
      (sentCalls (a.onReceive now random (.ack key packetId))) := by
  rw [Session.onReceive]
  split_ifs
  · rw [sentCalls_of_none rfl]
    exact .removePacket a packetId
  · exact (Moves.none a).toChanges

/-- What the events besides those of the sender change, and what leaves the map with them. -/
theorem Inv.changesOf {s : Books} (h : Inv s) (e : Event) (hsend : ∀ bytes, e ≠ .send bytes)
    (hsender : ∀ random, e ≠ .sender random) :
    Changes s.a (s.after e).1 (sentCalls (s.after e)) ∧ ∀ call ∈ s.leaving e,
      call ∈ s.ackedBy e ∨ retransmitMaxAttempts < (s.sent ++ sentCalls (s.after e)).count call := by
  have hof : Moves s.a (s.after e).1 (sentCalls (s.after e)) →
      Changes s.a (s.after e).1 (sentCalls (s.after e)) ∧
      ∀ call ∈ s.leaving e,
        call ∈ s.ackedBy e ∨ retransmitMaxAttempts < (s.sent ++ sentCalls (s.after e)).count call :=
    fun hmoves => ⟨hmoves.toChanges, fun call hcall => Or.inr (h.leaving hmoves call hcall)⟩
  cases e with
  | send bytes => exact absurd rfl (hsend bytes)
  | sender random => exact absurd rfl (hsender random)
  | timer random => exact hof (.timer s.a s.now random h.content h.key)
  | receive m random =>
      by_cases hack : ∃ key packetId, m = .ack key packetId
      · obtain ⟨key, packetId, rfl⟩ := hack
        exact ⟨.ack s.a s.now random key packetId, fun call hcall => Or.inl hcall⟩
      · exact hof (.onReceive s.a s.now random m (fun key packetId hm => hack ⟨key, packetId, hm⟩) h.content)
  | wait millis => exact hof (.none s.a)

/-- A step of the sender, or a call of `send`, that leaves the map as it is. -/
theorem Inv.sameMap {s s' : Books} {e : Event} (h : Inv s) (hs : step s e = some s')
    (hmap : (s.after e).1.base.retransmitMap = s.a.base.retransmitMap)
    (hpacketIds : s.a.nextPacketId ≤ (s.after e).1.nextPacketId)
    (hsize : ¬ Reserved (s.after e).1.sending →
      (s.after e).1.base.retransmitMapSize = s.a.base.retransmitMap.length)
    (hroom : Reserved (s.after e).1.sending → (s.a.dataItems.length : ℤ) ≤ maxRetransmitQueueSize)
    (hfresh : ∀ packetId content, (s.after e).1.sending = some (.transmit packetId content) →
      packetId < (s.after e).1.nextPacketId ∧ ∀ item ∈ s.a.base.retransmitMap, item.packetId ≠ packetId)
    (hkey : (s.after e).1.exchanging = true → (s.after e).1.sessionKey.isSome)
    (hcalls : ∀ call < (s.after e).1.calls, call < s.a.calls ∨ call ∈ Link.unsent (s.after e).1)
    (hunsent : ∀ call ∈ Link.unsent s.a, call ∈ Link.unsent (s.after e).1 ∨ call ∈ s.evictedBy e) : Inv s' := by
  have hdata : (s.after e).1.dataItems = s.a.dataItems := by rw [Session.dataItems, hmap, Session.dataItems]
  have hmapped : (s.after e).1.mapped = s.a.mapped := by rw [Session.mapped, hdata, Session.mapped]
  have hlocated : ∀ call < (s.after e).1.calls,
      call ∈ Link.unsent (s.after e).1 ∨ call ∈ (s.after e).1.mapped ∨ s'.Settled call := by
    intro call hlt
    rcases hcalls call hlt with hlt | hmem
    · rcases h.located call hlt with hmem | hmem | hsettled
      · rcases hunsent call hmem with hmem | hevicted
        · exact Or.inl hmem
        · obtain rfl := Option.some.inj hs
          exact Or.inr (Or.inr (Or.inr (Or.inl (List.mem_append_right _ hevicted))))
      · exact Or.inr (Or.inl (hmapped ▸ hmem))
      · exact Or.inr (Or.inr (hsettled.step hs))
    · exact Or.inl hmem
  obtain rfl := Option.some.inj hs
  refine ⟨?_, ?_, ?_, ?_, ?_, ?_, ?_, hkey, hlocated⟩
  · change ¬ Reserved (s.after e).1.sending → (s.after e).1.base.retransmitMapSize = _
    rw [hmap]
    exact hsize
  · change Reserved (s.after e).1.sending → ((s.after e).1.dataItems.length : ℤ) ≤ _
    rwa [hdata]
  · change ((s.after e).1.dataItems.length : ℤ) ≤ _
    rw [hdata]
    exact h.bounded
  · change ∀ item ∈ (s.after e).1.base.retransmitMap, item.packetId < (s.after e).1.nextPacketId
    rw [hmap]
    exact fun item hitem => Nat.lt_of_lt_of_le (h.ids item hitem) hpacketIds
  · change ∀ packetId content, (s.after e).1.sending = some (.transmit packetId content) →
      packetId < (s.after e).1.nextPacketId ∧
      ∀ item ∈ (s.after e).1.base.retransmitMap, item.packetId ≠ packetId
    rwa [hmap]
  · change ∀ item ∈ (s.after e).1.base.retransmitMap, _
    rw [hmap]
    exact h.content
  · change ∀ item ∈ (s.after e).1.base.retransmitMap, _
    rw [hmap]
    intro item hitem payload hp
    change _ ≤ (s.sent ++ sentCalls (s.after e)).count payload.call
    rw [List.count_append]
    exact Nat.le_add_right_of_le (h.counter item hitem payload hp)

theorem mem_unsent {a : Session} {call : ℕ} : call ∈ Link.unsent a ↔ call ∈ a.pool.map (·.call) ∨
    call ∈ a.outputQueue.map (·.call) ∨ ∃ task, a.sending = some task ∧ (Link.payloadOf task).call = call := by
  simp [Link.unsent, Link.waiting]

/-- A payload that is put in the queue, where the first one may be evicted. -/
theorem unsent_addPayload {a : Session} {task : Sending} (hs : a.sending = some task) {call : ℕ}
    (h : call ∈ Link.unsent a) :
    call ∈ Link.unsent ({ a with sending := none }.addPayloadToOutputQueue (Link.payloadOf task)) ∨
    call ∈ a.evictedFirst := by
  simp only [mem_unsent, Session.addPayloadToOutputQueue, List.map_append, List.mem_append, List.map_singleton,
    List.mem_singleton]
  rcases mem_unsent.mp h with hpool | hqueue | ⟨task', hs', rfl⟩
  · exact Or.inl (Or.inl hpool)
  · rw [Session.evictedFirst]
    split_ifs
    · cases hout : a.outputQueue with
      | nil =>
          rw [hout] at hqueue
          cases hqueue
      | cons first queue =>
          rw [hout, List.map_cons, List.mem_cons] at hqueue
          rcases hqueue with rfl | hmem
          · exact Or.inr (by simp)
          · exact Or.inl (Or.inr (Or.inl (Or.inl hmem)))
    · exact Or.inl (Or.inr (Or.inl (Or.inl hqueue)))
  · obtain rfl := Option.some.inj (hs.symm.trans hs')
    exact Or.inl (Or.inr (Or.inl (Or.inr rfl)))

theorem Inv.send {s s' : Books} {bytes : List UInt8} (h : Inv s) (hs : step s (.send bytes) = some s') :
    Inv s' := by
  refine h.sameMap hs rfl (Nat.le_refl _) h.size h.room h.fresh h.key (fun call hlt => ?_)
    fun call hcall => Or.inl ?_
  · rcases Nat.lt_succ_iff_lt_or_eq.mp hlt with hlt | rfl
    · exact Or.inl hlt
    · exact Or.inr (mem_unsent.mpr (Or.inl (by simp [after, Session.send])))
  · rcases mem_unsent.mp hcall with hpool | hrest
    · exact mem_unsent.mpr (Or.inl (by simp [after, Session.send, hpool]))
    · exact mem_unsent.mpr (Or.inr hrest)

/-- The sender thread puts its payload in the queue. -/
theorem Inv.enqueue {s s' : Books} {random : ℕ → ℕ} {task : Sending} (h : Inv s)
    (hs : step s (.sender random) = some s') (hsending : s.a.sending = some task)
    (hreserved : ¬ Reserved (some task))
    (hafter : (s.after (.sender random)).1 =
      { s.a with sending := none }.addPayloadToOutputQueue (Link.payloadOf task))
    (hevicted : s.evictedBy (.sender random) = s.a.evictedFirst) : Inv s' := by
  refine h.sameMap hs ?_ ?_ ?_ ?_ ?_ ?_ ?_ ?_
  all_goals rewrite [hafter]
  · rfl
  · exact Nat.le_refl _
  · exact fun _ => h.size (hsending ▸ hreserved)
  · exact fun hr => hr.elim
  · exact fun _ _ => nofun
  · exact h.key
  · exact fun _ hlt => Or.inl hlt
  · rw [hevicted]
    exact fun call hcall => unsent_addPayload hsending hcall

/-- The sender thread takes the next payload. -/
theorem Inv.take {s s' : Books} {random : ℕ → ℕ} (h : Inv s) (hs : step s (.sender random) = some s')
    (hsending : s.a.sending = none) : Inv s' := by
  cases hpool : s.a.pool with
  | nil =>
      have hafter : s.after (.sender random) = (s.a, []) := by
        simp only [after, Session.senderStep, hsending, hpool]
      refine h.moves hs ?_
      rw [hafter]
      exact .none s.a
  | cons payload pool =>
      have hafter : (s.after (.sender random)).1 = { s.a with
          pool := pool
          sending := some (if s.a.exchanging then .check payload else .queue payload) } := by
        simp only [after, Session.senderStep, hsending, hpool]
      have hreserved : ¬ Reserved s.a.sending := by
        rw [hsending]
        exact id
      refine h.sameMap hs ?_ ?_ ?_ ?_ ?_ ?_ ?_ ?_
      all_goals rewrite [hafter]
      · rfl
      · exact Nat.le_refl _
      · exact fun _ => h.size hreserved
      · split_ifs
        · exact fun hr => hr.elim
        · exact fun hr => hr.elim
      · split_ifs
        · rintro _ _ ⟨⟩
        · rintro _ _ ⟨⟩
      · exact h.key
      · exact fun _ hlt => Or.inl hlt
      · intro call hcall
        refine Or.inl (mem_unsent.mpr ?_)
        rcases mem_unsent.mp hcall with hmem | hmem | ⟨task, htask, -⟩
        · rw [hpool, List.map_cons, List.mem_cons] at hmem
          rcases hmem with rfl | hmem
          · exact Or.inr (Or.inr ⟨_, rfl, by split_ifs <;> rfl⟩)
          · exact Or.inl hmem
        · exact Or.inr (Or.inl hmem)
        · rw [hsending] at htask
          cases htask

/-- The sender thread goes on with its payload. -/
theorem unsent_goesOn {a : Session} {task task' : Sending} {base : Retransmitter ToB} {nextPacketId call : ℕ}
    (hs : a.sending = some task) (hpayload : Link.payloadOf task' = Link.payloadOf task)
    (h : call ∈ Link.unsent a) : call ∈ Link.unsent { a with
      base := base
      sending := some task'
      nextPacketId := nextPacketId } := by
  refine mem_unsent.mpr ?_
  rcases mem_unsent.mp h with hpool | hqueue | ⟨task'', htask, rfl⟩
  · exact Or.inl hpool
  · exact Or.inr (Or.inl hqueue)
  · obtain rfl := Option.some.inj (hs.symm.trans htask)
    exact Or.inr (Or.inr ⟨task', rfl, congrArg _ hpayload⟩)

/-- The sender thread counts the packet that it is to store, or puts the payload in the queue of a full map. -/
theorem Inv.check {s s' : Books} {random : ℕ → ℕ} {payload : Payload} (h : Inv s)
    (hs : step s (.sender random) = some s') (hsending : s.a.sending = some (.check payload)) : Inv s' := by
  by_cases hfull : s.a.base.retransmitMapSize > maxRetransmitQueueSize
  · refine h.enqueue hs hsending id ?_ ?_
    · simp only [after, Session.senderStep, hsending, if_pos hfull]
      rfl
    · simp only [evictedBy, hsending, if_pos hfull]
  · have hafter : (s.after (.sender random)).1 = { s.a with
        base := { s.a.base with retransmitMapSize := s.a.base.retransmitMapSize + 1 }
        sending := some (.prepare payload) } := by
      simp only [after, Session.senderStep, hsending, if_neg hfull]
    have hsize : s.a.base.retransmitMapSize = s.a.base.retransmitMap.length := h.size (by
      rw [hsending]
      exact id)
    have hdata : s.a.dataItems.length ≤ s.a.base.retransmitMap.length := List.length_filter_le _ _
    refine h.sameMap hs ?_ ?_ ?_ ?_ ?_ ?_ ?_ ?_
    all_goals rewrite [hafter]
    · rfl
    · exact Nat.le_refl _
    · exact fun hr => absurd trivial hr
    · exact fun _ => by omega
    · rintro _ _ ⟨⟩
    · exact h.key
    · exact fun _ hlt => Or.inl hlt
    · exact fun call hcall => Or.inl (unsent_goesOn hsending rfl hcall)

/-- The sender thread encrypts a payload under the key that the session has. -/
theorem Inv.prepare {s s' : Books} {random : ℕ → ℕ} {payload : Payload} (h : Inv s)
    (hs : step s (.sender random) = some s') (hsending : s.a.sending = some (.prepare payload)) : Inv s' := by
  cases hkey : s.a.sessionKey with
  | none =>
      have hafter : s.after (.sender random) = (s.a, []) := by
        simp only [after, Session.senderStep, hsending, hkey]
      refine h.moves hs ?_
      rw [hafter]
      exact .none s.a
  | some key =>
      have hafter : (s.after (.sender random)).1 = { s.a with
          sending := some (.transmit s.a.nextPacketId ⟨key, payload⟩)
          nextPacketId := s.a.nextPacketId + 1 } := by
        simp only [after, Session.senderStep, hsending, hkey]
      have hreserved : Reserved s.a.sending := by
        rw [hsending]
        exact trivial
      refine h.sameMap hs ?_ ?_ ?_ ?_ ?_ ?_ ?_ ?_
      all_goals rewrite [hafter]
      · rfl
      · exact Nat.le_succ _
      · exact fun hr => absurd trivial hr
      · exact fun _ => h.room hreserved
      · rintro packetId content htransmit
        obtain ⟨rfl, -⟩ := Sending.transmit.inj (Option.some.inj htransmit)
        exact ⟨Nat.lt_succ_self _, fun item hitem => Nat.ne_of_lt (h.ids item hitem)⟩
      · exact fun _ => hkey ▸ rfl
      · exact fun _ hlt => Or.inl hlt
      · exact fun call hcall => Or.inl (unsent_goesOn hsending rfl hcall)

/-- The map when the sender thread stores its packet, whose id is new. -/
theorem Inv.stored {s : Books} (h : Inv s) {packetId : ℕ} {content : Ciphertext} (random : ℕ → ℕ)
    (hsending : s.a.sending = some (.transmit packetId content)) :
    (s.after (.sender random)).1 = { s.a with
      sending := none
      base := s.a.base.withMap (s.a.base.retransmitMap ++
        [.new packetId (.data packetId content) (some content.payload) s.now (random packetId)]) } := by
  have hnew : ¬ s.a.base.Retransmits (RetransmitItem.new packetId (ToB.data packetId content)
      (some content.payload) s.now (random packetId)).packetId := by
    rintro ⟨item, hitem, hid⟩
    exact (h.fresh packetId content hsending).2 item hitem hid
  simp only [after, Session.senderStep, hsending, Retransmitter.addPacket]
  rw [if_neg hnew]

theorem Inv.transmit {s s' : Books} {random : ℕ → ℕ} {packetId : ℕ} {content : Ciphertext} (h : Inv s)
    (hs : step s (.sender random) = some s') (hsending : s.a.sending = some (.transmit packetId content)) :
    Inv s' := by
  have hafter := h.stored random hsending
  set item : RetransmitItem ToB :=
    .new packetId (.data packetId content) (some content.payload) s.now (random packetId) with hitem
  obtain ⟨hlt, -⟩ := h.fresh packetId content hsending
  have hroom := h.room (by
    rw [hsending]
    exact trivial)
  have hmap : (s.after (.sender random)).1.base.retransmitMap = s.a.base.retransmitMap ++ [item] := by
    rw [hafter]
    rfl
  have hdata : (s.after (.sender random)).1.dataItems = s.a.dataItems ++ [item] := by
    rw [Session.dataItems, hmap, List.filter_append]
    rfl
  have hmem : ∀ {item'}, item' ∈ (s.after (.sender random)).1.base.retransmitMap →
      item' ∈ s.a.base.retransmitMap ∨ item' = item := by
    intro item' hitem'
    rwa [hmap, List.mem_append, List.mem_singleton] at hitem'
  have hlocated : ∀ call < s.a.calls, call ∈ Link.unsent s'.a ∨ call ∈ s'.a.mapped ∨ s'.Settled call := by
    intro call hcall
    rcases h.located call hcall with hunsent | hmapped | hsettled
    · obtain rfl := Option.some.inj hs
      rcases mem_unsent.mp hunsent with hpool | hqueue | ⟨task, htask, hcall⟩
      · exact Or.inl (mem_unsent.mpr (Or.inl (by rw [hafter]; exact hpool)))
      · exact Or.inl (mem_unsent.mpr (Or.inr (Or.inl (by rw [hafter]; exact hqueue))))
      · obtain rfl := Option.some.inj (hsending.symm.trans htask)
        refine Or.inr (Or.inl (mem_mapped.mpr ⟨item, ?_, content.payload, rfl, hcall⟩))
        change item ∈ (s.after (.sender random)).1.base.retransmitMap
        rw [hmap]
        exact List.mem_append_right _ (List.mem_singleton.mpr rfl)
    · refine Or.inr (located_mapped hs hmapped fun hleaving => ?_)
      obtain ⟨item', hitem', payload, hp, rfl⟩ := mem_mapped.mp hmapped
      have hmapped' : payload.call ∈ (s.after (.sender random)).1.mapped :=
        mem_mapped.mpr ⟨item', hmap ▸ List.mem_append_left _ hitem', payload, hp, rfl⟩
      exact absurd (List.mem_filter.mp hleaving).2 (by simpa using hmapped')
    · exact Or.inr (Or.inr (hsettled.step hs))
  obtain rfl := Option.some.inj hs
  refine ⟨fun _ => ?_, fun hr => ?_, ?_, fun item' hitem' => ?_, fun _ _ htransmit => ?_,
    fun item' hitem' payload hp m hm => ?_, fun item' hitem' payload hp => ?_, ?_, fun call hcall => ?_⟩
  · change (s.after (.sender random)).1.base.retransmitMapSize = _
    rw [hafter]
    rfl
  · change Reserved (s.after (.sender random)).1.sending at hr
    rw [hafter] at hr
    exact hr.elim
  · change ((s.after (.sender random)).1.dataItems.length : ℤ) ≤ _
    rw [hdata, List.length_append, List.length_singleton]
    omega
  · change item'.packetId < (s.after (.sender random)).1.nextPacketId
    rw [hafter]
    rcases hmem hitem' with hold | rfl
    · exact h.ids item' hold
    · exact hlt
  · change (s.after (.sender random)).1.sending = _ at htransmit
    rw [hafter] at htransmit
    cases htransmit
  · rcases hmem hitem' with hold | rfl
    · exact h.content item' hold payload hp m hm
    · obtain rfl := Option.some.inj hp
      exact ⟨content.key, (Option.some.inj hm).symm⟩
  · change _ ≤ (s.sent ++ sentCalls (s.after (.sender random))).count payload.call
    rw [List.count_append]
    rcases hmem hitem' with hold | rfl
    · exact Nat.le_add_right_of_le (h.counter item' hold payload hp)
    · exact Nat.zero_le _
  · change (s.after (.sender random)).1.exchanging = true → (s.after (.sender random)).1.sessionKey.isSome
    rw [hafter]
    exact h.key
  · change call < (s.after (.sender random)).1.calls at hcall
    rw [hafter] at hcall
    exact hlocated call hcall

/-- Each event keeps the invariant. -/
theorem Inv.step {s s' : Books} {e : Event} (h : Inv s) (hs : step s e = some s') : Inv s' := by
  cases e with
  | send bytes => exact h.send hs
  | sender random =>
      cases hsending : s.a.sending with
      | none => exact h.take hs hsending
      | some task =>
          cases task with
          | queue payload =>
              refine h.enqueue hs hsending id ?_ ?_
              · simp only [after, Session.senderStep, hsending]
                rfl
              · simp only [evictedBy, hsending]
          | check payload => exact h.check hs hsending
          | prepare payload => exact h.prepare hs hsending
          | transmit packetId content => exact h.transmit hs hsending
  | timer | receive | wait =>
      exact h.changes hs (h.changesOf _ (by simp) (by simp)).1 (h.changesOf _ (by simp) (by simp)).2

/-- The packets stay under the key of the session, where each is stored under it. -/
theorem Keyed.step {s s' : Books} {e : Event} (h : Keyed s.a) (hinv : Inv s) (hclean : Clean s e)
    (hs : step s e = some s') : Keyed s'.a := by
  obtain rfl := Option.some.inj hs
  change Keyed (s.after e).1
  cases e with
  | send bytes => exact h
  | sender random =>
      -- all but the last step of a task leave the map, the state and the key
      have hsame : (∀ packetId content, s.a.sending ≠ some (.transmit packetId content)) →
          (s.after (.sender random)).1.dataItems = s.a.dataItems ∧
          (s.after (.sender random)).1.exchanging = s.a.exchanging ∧
          (s.after (.sender random)).1.sessionKey = s.a.sessionKey := by
        intro hnot
        rw [after, Session.senderStep]
        split
        · split <;> exact ⟨rfl, rfl, rfl⟩
        · exact ⟨rfl, rfl, rfl⟩
        · split_ifs <;> exact ⟨rfl, rfl, rfl⟩
        · split <;> exact ⟨rfl, rfl, rfl⟩
        next packetId content hsending => exact absurd hsending (hnot packetId content)
      by_cases htransmit : ∃ packetId content, s.a.sending = some (.transmit packetId content)
      · obtain ⟨packetId, content, hsending⟩ := htransmit
        obtain ⟨he, hkey⟩ := hclean packetId content hsending
        rw [hinv.stored random hsending]
        intro item hitem payload hp m hm
        obtain ⟨hmem, hsome⟩ := mem_dataItems.mp hitem
        rcases List.mem_append.mp hmem with hold | hnew
        · exact h item (mem_dataItems.mpr ⟨hold, hsome⟩) payload hp m hm
        · obtain rfl := List.mem_singleton.mp hnew
          obtain rfl := Option.some.inj hp
          exact ⟨he, content.key, hkey, (Option.some.inj hm).symm⟩
      · obtain ⟨hdata, he, hkey⟩ :=
          hsame fun packetId content hsending => htransmit ⟨packetId, content, hsending⟩
        exact keyed_of_data hdata he hkey h
  | timer | receive | wait => exact (hinv.changesOf _ (by simp) (by simp)).1.keyed h

theorem Inv.new (now : ℤ) (nextPacketId : ℕ) : Inv (Books.new now nextPacketId) where
  size := fun _ => rfl
  room := fun h => by cases h
  bounded := by
    change (0 : ℤ) ≤ maxRetransmitQueueSize + 1
    decide
  ids := fun _ h => by cases h
  fresh := fun _ _ h => by cases h
  content := fun _ h => by cases h
  counter := fun _ h => by cases h
  key := fun h => by cases h
  located := fun _ h => by cases h

/-! ### Runs -/

theorem inv_of_run {now : ℤ} {nextPacketId : ℕ} {es : List Event} {s : Books}
    (hrun : Run.run step (.new now nextPacketId) es = some s) : Inv s :=
  Run.invariant (fun _ _ _ h (_ : True) hs => h.step hs) (Inv.new now nextPacketId)
    (Run.meets_of_forall fun _ _ => trivial) hrun

theorem Inv.accounted {s : Books} (h : Inv s) (hquiescent : s.Quiescent) :
    ∀ call < s.a.calls, s.Accounted call := by
  intro call hlt
  obtain ⟨hpool, hsending⟩ := hquiescent
  rcases h.located call hlt with hunsent | hmapped | hsettled
  · rcases mem_unsent.mp hunsent with hmem | hmem | ⟨task, htask, -⟩
    · rw [hpool] at hmem
      cases hmem
    · exact Or.inl hmem
    · rw [hsending] at htask
      cases htask
  · exact Or.inr (Or.inl hmapped)
  · exact Or.inr (Or.inr hsettled)

/-- NO PAYLOAD IS LOST: in every run, where the sender thread has nothing to do, each payload that was given to
    `send` is in the output queue or in the retransmit map, or was acknowledged, evicted, or sent more than
    `RETRANSMIT_MAX_ATTEMPTS` times; and the map is bounded at any moment. -/
theorem accounted_and_bounded (now : ℤ) (nextPacketId : ℕ) (es : List Event) (s : Books)
    (hrun : Run.run step (.new now nextPacketId) es = some s) :
    (s.Quiescent → ∀ call < s.a.calls, s.Accounted call) ∧
    (s.a.dataItems.length : ℤ) ≤ maxRetransmitQueueSize + 1 :=
  ⟨(inv_of_run hrun).accounted, (inv_of_run hrun).bounded⟩

/-- Packets under the key of the session are sent under it, and the others are encrypted under it. -/
theorem Keyed.newKey {s : Books} (h : Keyed s.a) (hinv : Inv s) (he : s.a.exchanging = true) :
    ∃ key, s.a.sessionKey = some key ∧ ∀ item ∈ s.a.dataItems, ∀ now random,
      ∀ m ∈ (Retransmitter.pulseItem s.a.exchange now random item).2,
        ∃ payload, item.sourcePayload = some payload ∧ m = .data item.packetId ⟨key, payload⟩ := by
  obtain ⟨key, hkey⟩ := Option.isSome_iff_exists.mp (hinv.key he)
  refine ⟨key, hkey, fun item hitem now random m hm => ?_⟩
  obtain ⟨payload, hp⟩ := Option.isSome_iff_exists.mp (mem_dataItems.mp hitem).2
  refine ⟨payload, hp, ?_⟩
  obtain ⟨-, key', hkey', rfl⟩ := pulseItem_sends hp hm
  obtain rfl := Option.some.inj (hkey.symm.trans hkey')
  cases hpacket : item.packet with
  | none => rfl
  | some m =>
      obtain ⟨-, key', hkey', rfl⟩ := h item hitem payload hp m hpacket
      obtain rfl := Option.some.inj (hkey.symm.trans hkey')
      rfl

/-- CODE DEFECT (a packet of the old session is stored after the restart): the bookkeeping of a session is as it
    is to be after any events, where the sender thread stores no packet that it encrypted before the handshake
    was restarted. -/
theorem kept_of_clean (now : ℤ) (nextPacketId : ℕ) (es : List Event) (s : Books)
    (hclean : Run.Meets step Clean (.new now nextPacketId) es)
    (hrun : Run.run step (.new now nextPacketId) es = some s) : s.Kept := by
  have hstep : ∀ s e s', (Inv s ∧ Keyed s.a) → Clean s e → step s e = some s' → Inv s' ∧ Keyed s'.a :=
    fun s e s' ⟨hinv, hkeyed⟩ hclean hs => ⟨hinv.step hs, hkeyed.step hinv hclean hs⟩
  obtain ⟨hinv, hkeyed⟩ := Run.invariant hstep ⟨Inv.new now nextPacketId, (fun _ h => by cases h)⟩ hclean hrun
  exact ⟨hinv.accounted, hkeyed.newKey hinv, hinv.bounded⟩

/-- A test of the condition. -/
def isClean (s : Books) : Event → Bool
  | .sender _ =>
      match s.a.sending with
      | some (.transmit _ content) => s.a.exchanging && s.a.sessionKey == some content.key
      | _ => true
  | _ => true

theorem clean_of_isClean (s : Books) (e : Event) (h : isClean s e = true) : Clean s e := by
  cases e with
  | sender random =>
      intro packetId content hsending
      simpa [isClean, hsending] using h
  | send | timer | receive | wait => trivial

/-- A handshake, a payload, and a new handshake after a NACK. -/
def nackAndHandshake : List Event :=
  [.timer Link.zero, .receive (.welcome 1 5) Link.zero, .receive (.sessionPart1 2 ⟨7, 1⟩) Link.zero,
    .receive (.sessionPart2 3 ⟨7, 1⟩) Link.zero, .send [1], .sender Link.zero, .sender Link.zero,
    .sender Link.zero, .sender Link.zero, .wait 10000, .receive (.nack 5) Link.zero,
    .receive (.welcome 4 6) Link.zero, .receive (.sessionPart1 5 ⟨8, 2⟩) Link.zero,
    .receive (.sessionPart2 6 ⟨8, 2⟩) Link.zero, .wait 1, .timer Link.zero]

theorem kept_nackAndHandshake : ∃ s, Run.run step (Books.new 0 1) nackAndHandshake = some s ∧
    s.sent = [0, 0] ∧ s.Kept := by
  have hend : (Run.run step (Books.new 0 1) nackAndHandshake).map (·.sent) = some [0, 0] := by decide
  have hpasses : Run.passes step isClean (Books.new 0 1) nackAndHandshake = true := by decide
  obtain ⟨s, hs, hsent⟩ := Option.map_eq_some_iff.mp hend
  exact ⟨s, hs, hsent, kept_of_clean 0 1 nackAndHandshake s (Run.meets_of_passes clean_of_isClean hpasses) hs⟩

/-- The handshake is restarted while the sender thread has a packet that it has not stored yet. -/
def restartBeforeStore : List Event :=
  [.timer Link.zero, .receive (.welcome 1 5) Link.zero, .receive (.sessionPart1 2 ⟨7, 1⟩) Link.zero,
    .receive (.sessionPart2 3 ⟨7, 1⟩) Link.zero, .send [1], .sender Link.zero, .sender Link.zero,
    .sender Link.zero, .sender Link.zero, .wait 10000, .send [2], .sender Link.zero, .sender Link.zero,
    .sender Link.zero, .receive (.nack 5) Link.zero, .sender Link.zero, .receive (.welcome 4 6) Link.zero,
    .receive (.sessionPart1 5 ⟨8, 2⟩) Link.zero, .receive (.sessionPart2 6 ⟨8, 2⟩) Link.zero]

theorem sentUnderOldKey : ∃ s, Run.run step (Books.new 0 1) restartBeforeStore = some s ∧ ¬ s.Kept := by
  have hend : (Run.run step (Books.new 0 1) restartBeforeStore).map (fun s =>
      (s.a.exchanging, s.a.sessionKey, s.a.dataItems.map fun item =>
        (Retransmitter.pulseItem s.a.exchange 20000 Link.zero item).2)) =
      some (true, some 8, [[.data 5 ⟨8, ⟨0, [1]⟩⟩], [.data 6 ⟨7, ⟨1, [2]⟩⟩]]) := by decide
  obtain ⟨s, hs, hend⟩ := Option.map_eq_some_iff.mp hend
  simp only [Prod.mk.injEq] at hend
  obtain ⟨he, hkey, hpulse⟩ := hend
  refine ⟨s, hs, fun hkept => ?_⟩
  obtain ⟨key, hkey', hall⟩ := hkept.newKey he
  obtain rfl := Option.some.inj (hkey.symm.trans hkey')
  obtain ⟨item, hitem, hsends⟩ : ∃ item ∈ s.a.dataItems,
      (Retransmitter.pulseItem s.a.exchange 20000 Link.zero item).2 = [.data 6 ⟨7, ⟨1, [2]⟩⟩] :=
    List.mem_map.mp (hpulse ▸ List.mem_cons_of_mem _ (List.mem_singleton.mpr rfl))
  obtain ⟨payload, -, hm⟩ := hall item hitem 20000 Link.zero _ (hsends ▸ List.mem_singleton.mpr rfl)
  simp at hm

end Books
end Universa.Network
