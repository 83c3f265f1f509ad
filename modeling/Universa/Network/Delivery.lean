import Mathlib.Data.List.Nodup
import Mathlib.Data.List.Perm.Subperm
import Universa.Network.UDPAdapter

/-! At most one delivery of each payload, for the packets from A to B of two adapters. A payload has one
    packet; B recognises a packet by the buffers of the reader it came to, and by nothing when the reader
    was replaced. -/

namespace Universa.Network
open UDPAdapter
namespace Link

/-! ### What is to hold, and the condition -/

/-- No payload of a call of `send` came to `receiveCallback` twice. -/
def AtMostOnce (s : Link) : Prop := (s.b.delivered.map (·.payload.call)).Nodup

/-- The packet makes B accept the candidate. -/
def Accepting (b : Readers) (now : ℤ) : ToB → Prop
  | .keyReqPart1 packetId text =>
      ¬ (b.getOrCreateCandidate now).base.protection.Has packetId ∧
      Readers.Accepts { b.getOrCreateCandidate now with keyReqPart1 := some text } text
  | .keyReqPart2 packetId sign =>
      ¬ (b.getOrCreateCandidate now).base.protection.Has packetId ∧
      Readers.Accepts { b.getOrCreateCandidate now with keyReqPart2 := some sign } sign
  | _ => False

/-- The datagram with this content was sent at this time. -/
def Data (s : Link) (packetId : ℕ) (content : Ciphertext) (time : ℤ) : Prop :=
  (.data packetId content, time) ∈ s.toB

/-- A copy that is sent so long after a delivery comes while B still has its id. -/
def resendPeriod : ℤ := dupleProtectionPeriod - maxDelay

/-- When B accepts a candidate, A retransmits no packet that B has delivered; and a packet that is due in
    the session was not delivered under its key `resendPeriod` before, or earlier. -/
def Clean (s : Link) : Action → Prop
  | .receiveB i _ => ∀ packet time, s.toB[i]? = some (packet, time) → Accepting s.b s.now packet →
      ∀ d ∈ s.b.delivered, ¬ s.a.base.Retransmits d.packetId
  | .timerA _ => s.a.exchanging = true → ∀ item ∈ s.a.base.retransmitMap,
      item.nextRetransmitTimeMillis < s.now → ∀ d ∈ s.b.delivered, d.packetId = item.packetId →
      s.a.sessionKey = some d.key → s.now < d.time + resendPeriod
  | _ => True

/-! ### The invariant -/

/-- The payload that the sender thread is at. -/
def payloadOf : Sending → Payload
  | .queue payload => payload
  | .check payload => payload
  | .prepare payload => payload
  | .transmit _ content => content.payload

/-- The payloads that were not sent yet, in the pool, in the output queue and with the sender thread. -/
def waiting (a : Session) : List Payload := a.pool ++ a.outputQueue ++ a.sending.toList.map payloadOf

/-- The calls of these payloads. -/
def unsent (a : Session) : List ℕ := (waiting a).map (·.call)

/-- The packets of A and their payloads. -/
structure Sends (s : Link) : Prop where
  ids : (s.a.base.retransmitMap.map (·.packetId)).Nodup
  packetId : ∀ p c t, Data s p c t → p < s.a.nextPacketId
  sent : ∀ item ∈ s.a.base.retransmitMap, ∀ m, item.packet = some m → ∃ t, (m, t) ∈ s.toB
  payload : ∀ item ∈ s.a.base.retransmitMap, ∀ x, item.sourcePayload = some x →
    (∃ c t, Data s item.packetId c t ∧ c.payload = x) ∧
    ∀ m, item.packet = some m → ∃ c, m = .data item.packetId c
  handshake : ∀ item ∈ s.a.base.retransmitMap, item.sourcePayload = none →
    ∀ p c, item.packet ≠ some (.data p c)
  carries : ∀ p c t p' c' t', Data s p c t → Data s p' c' t' →
    (p = p' ↔ c.payload.call = c'.payload.call)
  nodup : (unsent s.a).Nodup
  calls : ∀ n ∈ unsent s.a, n < s.a.calls
  unsent : ∀ p c t, Data s p c t → c.payload.call < s.a.calls ∧ c.payload.call ∉ unsent s.a
  transmits : ∀ p c, s.a.sending = some (.transmit p c) →
    p < s.a.nextPacketId ∧ ∀ c' t, ¬ Data s p c' t

/-- The text of a KEY_REQ was sent. -/
def Requested (s : Link) (text : KeyReq) : Prop :=
  ∃ p t, (.keyReqPart1 p text, t) ∈ s.toB ∨ (.keyReqPart2 p text, t) ∈ s.toB

/-- The text of a SESSION was sent. -/
def Offered (s : Link) (text : SessionKey) : Prop :=
  ∃ p t, (.sessionPart1 p text, t) ∈ s.toA ∨ (.sessionPart2 p text, t) ∈ s.toA

/-- The session keys and nonces: a key that A takes is newer than all it has used. -/
structure Keys (s : Link) : Prop where
  exchanging : s.a.exchanging = true → ∃ k, s.a.sessionKey = some k
  sessionKey : ∀ k, s.a.sessionKey = some k → k < s.b.keys
  data : ∀ p c t, Data s p c t → ∃ k, s.a.sessionKey = some k ∧ c.key ≤ k
  transmits : ∀ p c, s.a.sending = some (.transmit p c) → ∃ k, s.a.sessionKey = some k ∧ c.key ≤ k
  nullified : s.a.exchanging = true → ∀ item ∈ s.a.base.retransmitMap, item.sourcePayload.isSome →
    item.packet = none → ∀ c t, Data s item.packetId c t → ∀ k, s.a.sessionKey = some k → c.key < k
  nonce : s.a.localNonce < s.a.nonces
  requested : ∀ text, Requested s text → text.localNonce < s.a.nonces
  offered : ∀ text, Offered s text → text.key < s.b.keys ∧ text.nonce < s.a.nonces
  newer : s.a.WaitsForSession → ∀ text, Offered s text → text.nonce = s.a.localNonce →
    ∀ k, s.a.sessionKey = some k → k < text.key
  sessionParts : ∀ text, s.a.sessionPart1 = some text ∨ s.a.sessionPart2 = some text → Offered s text
  keyReqParts : ∀ r, s.b.candidate = some r → ∀ text,
    r.keyReqPart1 = some text ∨ r.keyReqPart2 = some text → Requested s text
  answers : ∀ r, s.b.reader = some r ∨ s.b.candidate = some r → ∀ item ∈ r.base.retransmitMap,
    ∀ m, item.packet = some m → ∃ t, (m, t) ∈ s.toA

/-- The deliveries of B: what came with the key of the reader is in its buffers, or too old to come again;
    what came with an older key is not retransmitted any more. -/
structure Delivers (s : Link) : Prop where
  reader : ∀ r, s.b.reader = some r → ∃ k, r.sessionKey = some k ∧ k + 1 = s.b.keys
  prevTime : s.b.protectionPrevTime ≤ s.now
  times : ∀ m t, (m, t) ∈ s.toB → t ≤ s.now
  data : ∀ d ∈ s.b.delivered, d.key < s.b.keys ∧ d.time ≤ s.now ∧
    ∃ c t, Data s d.packetId c t ∧ c.key = d.key ∧ c.payload = d.payload ∧ t ≤ d.time
  noted : ∀ d ∈ s.b.delivered, d.key + 1 = s.b.keys → ∀ r, s.b.reader = some r →
    d.packetId ∈ r.base.protection.buffer0 ∨
    d.packetId ∈ r.base.protection.buffer1 ∧ d.time ≤ s.b.protectionPrevTime ∨
    d.time + dupleProtectionPeriod ≤ s.b.protectionPrevTime
  old : ∀ d ∈ s.b.delivered, d.key + 1 ≠ s.b.keys →
    ¬ s.a.base.Retransmits d.packetId ∧ ∀ c t, Data s d.packetId c t → c.key + 1 ≠ s.b.keys
  recent : ∀ d ∈ s.b.delivered, d.key + 1 = s.b.keys → ∀ c t, Data s d.packetId c t → c.key = d.key →
    t < d.time + resendPeriod
  once : AtMostOnce s

/-- What every clean run keeps. -/
structure Inv (s : Link) : Prop where
  sends : Sends s
  keys : Keys s
  delivers : Delivers s

variable {s : Link} {a' : Session} {b' : Readers} {sent : List ToB} {answers : List ToA}

theorem mem_withA {m : ToB} {t : ℤ} :
    (m, t) ∈ (s.withA (a', sent)).toB ↔ (m, t) ∈ s.toB ∨ m ∈ sent ∧ t = s.now := by
  simp only [withA, List.mem_append, List.mem_map, Prod.mk.injEq]
  constructor
  · rintro (h | ⟨m', hm, rfl, rfl⟩)
    · exact .inl h
    · exact .inr ⟨hm, rfl⟩
  · rintro (h | ⟨hm, rfl⟩)
    · exact .inl h
    · exact .inr ⟨m, hm, rfl, rfl⟩

theorem mem_withB {m : ToA} {t : ℤ} :
    (m, t) ∈ (s.withB (b', answers)).toA ↔ (m, t) ∈ s.toA ∨ m ∈ answers ∧ t = s.now := by
  simp only [withB, List.mem_append, List.mem_map, Prod.mk.injEq]
  constructor
  · rintro (h | ⟨m', hm, rfl, rfl⟩)
    · exact .inl h
    · exact .inr ⟨hm, rfl⟩
  · rintro (h | ⟨hm, rfl⟩)
    · exact .inl h
    · exact .inr ⟨m, hm, rfl, rfl⟩

/-! ### Steps of A that send no data -/

/-- The packet is one of a handshake, and a nonce in it was drawn before. -/
def HandshakePacket (nonces : ℕ) (m : ToB) : Prop :=
  (∀ p c, m ≠ .data p c) ∧
  ∀ p text, m = .keyReqPart1 p text ∨ m = .keyReqPart2 p text → text.localNonce < nonces

/-- A step of A that takes no key and sends no data: items stay, or are nullified out of the session, or
    come with a packet of the handshake. -/
structure Plain (s : Link) (a' : Session) (sent : List ToB) : Prop where
  ids : (s.a.base.retransmitMap.map (·.packetId)).Nodup → (a'.base.retransmitMap.map (·.packetId)).Nodup
  items : ∀ item' ∈ a'.base.retransmitMap,
    (∃ item ∈ s.a.base.retransmitMap, item'.packetId = item.packetId ∧
      item'.sourcePayload = item.sourcePayload ∧
      (item'.packet = item.packet ∨ item'.packet = none ∧ a'.exchanging = false)) ∨
    item'.sourcePayload = none ∧ s.a.nextPacketId ≤ item'.packetId ∧ ∃ m ∈ sent, item'.packet = some m
  sent : ∀ m ∈ sent, HandshakePacket a'.nonces m
  exchanging : a'.exchanging = true → s.a.exchanging = true
  sessionKey : a'.sessionKey = s.a.sessionKey
  nonces : s.a.nonces ≤ a'.nonces
  localNonce : a'.localNonce < a'.nonces
  waits : a'.WaitsForSession →
    s.a.WaitsForSession ∧ a'.localNonce = s.a.localNonce ∨ s.a.nonces ≤ a'.localNonce
  sessionParts : ∀ text, a'.sessionPart1 = some text ∨ a'.sessionPart2 = some text → Offered s text
  packetIds : s.a.nextPacketId ≤ a'.nextPacketId
  calls : a'.calls = s.a.calls
  nodup : (unsent s.a).Nodup → (unsent a').Nodup
  unsent : ∀ n ∈ unsent a', n ∈ unsent s.a
  sending : ∀ p c, a'.sending = some (.transmit p c) → s.a.sending = some (.transmit p c) ∨
    s.a.nextPacketId ≤ p ∧ p < a'.nextPacketId ∧ s.a.sessionKey = some c.key

theorem Plain.data (hp : Plain s a' sent) {p : ℕ} {c : Ciphertext} {t : ℤ} :
    Data (s.withA (a', sent)) p c t ↔ Data s p c t := by
  rw [Data, Data, mem_withA]
  exact or_iff_left fun h => (hp.sent _ h.1).1 p c rfl

theorem Plain.requested (hp : Plain s a' sent) {text : KeyReq}
    (h : Requested (s.withA (a', sent)) text) : Requested s text ∨ text.localNonce < a'.nonces := by
  obtain ⟨p, t, h⟩ := h
  rw [mem_withA, mem_withA] at h
  rcases h with (h | h) | (h | h)
  · exact .inl ⟨p, t, .inl h⟩
  · exact .inr ((hp.sent _ h.1).2 p text (.inl rfl))
  · exact .inl ⟨p, t, .inr h⟩
  · exact .inr ((hp.sent _ h.1).2 p text (.inr rfl))

theorem Plain.retransmits (hp : Plain s a' sent) {p : ℕ} (hlt : p < s.a.nextPacketId)
    (h : a'.base.Retransmits p) : s.a.base.Retransmits p := by
  obtain ⟨item', hitem', rfl⟩ := h
  rcases hp.items item' hitem' with ⟨item, hitem, hid, -⟩ | ⟨-, hle, -⟩
  · exact ⟨item, hitem, hid.symm⟩
  · omega

theorem Sends.plain (h : Sends s) (hp : Plain s a' sent) : Sends (s.withA (a', sent)) where
  ids := hp.ids h.ids
  packetId p c t hd := Nat.lt_of_lt_of_le (h.packetId p c t (hp.data.mp hd)) hp.packetIds
  sent item' hitem' m hm := by
    rcases hp.items item' hitem' with ⟨item, hitem, -, -, hpacket | ⟨hnone, -⟩⟩ | ⟨-, -, m', hm', hpacket⟩
    · obtain ⟨t, ht⟩ := h.sent item hitem m (hpacket ▸ hm)
      exact ⟨t, mem_withA.mpr (.inl ht)⟩
    · rw [hnone] at hm
      cases hm
    · obtain rfl := Option.some.inj (hpacket.symm.trans hm)
      exact ⟨s.now, mem_withA.mpr (.inr ⟨hm', rfl⟩)⟩
  payload item' hitem' x hx := by
    rcases hp.items item' hitem' with ⟨item, hitem, hid, hsource, hpacket⟩ | ⟨hnone, -⟩
    · obtain ⟨⟨c, t, hd, hc⟩, hm⟩ := h.payload item hitem x (hsource ▸ hx)
      rw [hid]
      refine ⟨⟨c, t, hp.data.mpr hd, hc⟩, fun m hm' => ?_⟩
      rcases hpacket with hpacket | ⟨hnone, -⟩
      · exact hm m (hpacket ▸ hm')
      · rw [hnone] at hm'
        cases hm'
    · rw [hnone] at hx
      cases hx
  handshake item' hitem' hnone p c hpacket' := by
    rcases hp.items item' hitem' with ⟨item, hitem, -, hsource, hpacket | ⟨hpacket, -⟩⟩ | ⟨-, -, m, hm, hpacket⟩
    · exact h.handshake item hitem (hsource ▸ hnone) p c (hpacket ▸ hpacket')
    · rw [hpacket] at hpacket'
      cases hpacket'
    · exact (hp.sent m hm).1 p c (Option.some.inj (hpacket.symm.trans hpacket'))
  carries p c t p' c' t' hd hd' := h.carries p c t p' c' t' (hp.data.mp hd) (hp.data.mp hd')
  nodup := hp.nodup h.nodup
  calls n hn := hp.calls ▸ h.calls n (hp.unsent n hn)
  unsent p c t hd := by
    obtain ⟨hlt, hnot⟩ := h.unsent p c t (hp.data.mp hd)
    exact ⟨hp.calls ▸ hlt, fun hn => hnot (hp.unsent _ hn)⟩
  transmits p c hs := by
    simp only [hp.data]
    rcases hp.sending p c hs with hs | ⟨hle, hlt, -⟩
    · obtain ⟨hlt, hnone⟩ := h.transmits p c hs
      exact ⟨Nat.lt_of_lt_of_le hlt hp.packetIds, hnone⟩
    · exact ⟨hlt, fun c' t hd => absurd (h.packetId p c' t hd) (by omega)⟩

theorem Keys.plain (h : Keys s) (hp : Plain s a' sent) : Keys (s.withA (a', sent)) where
  exchanging he := hp.sessionKey ▸ h.exchanging (hp.exchanging he)
  sessionKey k hk := h.sessionKey k (hp.sessionKey ▸ hk)
  data p c t hd := hp.sessionKey ▸ h.data p c t (hp.data.mp hd)
  transmits p c hs := by
    rcases hp.sending p c hs with hs | ⟨-, -, hk⟩
    · exact hp.sessionKey ▸ h.transmits p c hs
    · exact ⟨c.key, hp.sessionKey.trans hk, Nat.le_refl _⟩
  nullified he item' hitem' hsome hnone c t hd k hk := by
    rcases hp.items item' hitem' with ⟨item, hitem, hid, hsource, hpacket | ⟨-, hex⟩⟩ | ⟨hsource, -⟩
    · exact h.nullified (hp.exchanging he) item hitem (hsource ▸ hsome) (hpacket ▸ hnone) c t
        (hid ▸ hp.data.mp hd) k (hp.sessionKey ▸ hk)
    · exact absurd (he.symm.trans hex) nofun
    · rw [hsource] at hsome
      cases hsome
  nonce := hp.localNonce
  requested text hr := by
    rcases hp.requested hr with hr | hlt
    · exact Nat.lt_of_lt_of_le (h.requested text hr) hp.nonces
    · exact hlt
  offered text ho := (h.offered text ho).imp_right fun hlt => Nat.lt_of_lt_of_le hlt hp.nonces
  newer hw text ho hn k hk := by
    rcases hp.waits hw with ⟨hw, hsame⟩ | hnew
    · exact h.newer hw text ho (hn.trans hsame) k (hp.sessionKey ▸ hk)
    · exact absurd (h.offered text ho).2 (by
        have : text.nonce = a'.localNonce := hn
        omega)
  sessionParts := hp.sessionParts
  keyReqParts r hr text hpart := by
    obtain ⟨p, t, hreq⟩ := h.keyReqParts r hr text hpart
    exact ⟨p, t, hreq.imp (fun hm => mem_withA.mpr (.inl hm)) fun hm => mem_withA.mpr (.inl hm)⟩
  answers := h.answers

theorem Delivers.plain (h : Delivers s) (hsends : Sends s) (hp : Plain s a' sent) :
    Delivers (s.withA (a', sent)) where
  reader := h.reader
  prevTime := h.prevTime
  times m t hm := by
    rcases mem_withA.mp hm with hm | ⟨-, rfl⟩
    · exact h.times m t hm
    · exact Int.le_refl _
  data d hd := by
    obtain ⟨hk, ht, c, t, hdata, hc⟩ := h.data d hd
    exact ⟨hk, ht, c, t, hp.data.mpr hdata, hc⟩
  noted := h.noted
  old d hd hk := by
    obtain ⟨hnot, hkeys⟩ := h.old d hd hk
    obtain ⟨-, -, c, t, hdata, -⟩ := h.data d hd
    exact ⟨fun hr => hnot (hp.retransmits (hsends.packetId _ c t hdata) hr),
      fun c t hdata => hkeys c t (hp.data.mp hdata)⟩
  recent d hd hk c t hdt := h.recent d hd hk c t (hp.data.mp hdt)
  once := h.once

theorem Inv.plain (h : Inv s) (hp : Plain s a' sent) : Inv (s.withA (a', sent)) :=
  ⟨h.sends.plain hp, h.keys.plain hp, h.delivers.plain h.sends hp⟩

theorem withA_withA (s : Link) (a₁ a₂ : Session) (sent₁ sent₂ : List ToB) :
    (s.withA (a₁, sent₁)).withA (a₂, sent₂) = s.withA (a₂, sent₁ ++ sent₂) := by
  simp [withA]

/-- Nothing happens. -/
theorem Inv.noneA (h : Inv s) : Inv (s.withA (s.a, [])) := by
  simpa [withA] using h

theorem Keys.plainRefl (h : Keys s) : Plain s s.a [] where
  ids hn := hn
  items item hitem := .inl ⟨item, hitem, rfl, rfl, .inl rfl⟩
  sent _ hm := by cases hm
  exchanging he := he
  sessionKey := rfl
  nonces := Nat.le_refl _
  localNonce := h.nonce
  waits hw := .inl ⟨hw, rfl⟩
  sessionParts := h.sessionParts
  packetIds := Nat.le_refl _
  calls := rfl
  nodup hn := hn
  unsent _ hn := hn
  sending _ _ hs := .inl hs

theorem Inv.note (h : Inv s) (packetId : ℕ) : Inv (s.withA (s.a.note packetId, [])) :=
  h.plain { h.keys.plainRefl with }

theorem Inv.clearOldestBuffer (h : Inv s) (now : ℤ) : Inv (s.withA ({ s.a with
    base := { s.a.base with protection := s.a.base.protection.clearOldestBuffer }
    protectionPrevTime := now }, [])) :=
  h.plain { h.keys.plainRefl with }

theorem Inv.removeHandshakePackets (h : Inv s) :
    Inv (s.withA ({ s.a with base := s.a.base.removeHandshakePackets }, [])) :=
  h.plain { h.keys.plainRefl with
    ids := fun hn => hn.sublist (List.filter_sublist.map _)
    items := fun item hitem => .inl ⟨item, (List.mem_filter.mp hitem).1, rfl, rfl, .inl rfl⟩ }

theorem Inv.removePacket (h : Inv s) (packetId : ℕ) :
    Inv (s.withA ({ s.a with base := s.a.base.removePacket packetId }, [])) :=
  h.plain { h.keys.plainRefl with
    ids := fun hn => hn.sublist (List.filter_sublist.map _)
    items := fun item hitem => .inl ⟨item, (List.mem_filter.mp hitem).1, rfl, rfl, .inl rfl⟩ }

/-- The payloads of the output queue go to the sender thread. -/
theorem waiting_sendAll (a : Session) : waiting a.sendAllFromOutputQueue = waiting a := by
  unfold Session.sendAllFromOutputQueue
  split
  next => rw [waiting, waiting, List.append_assoc a.pool, List.take_append_drop]
  next => rfl

theorem Inv.sendAllFromOutputQueue (h : Inv s) : Inv (s.withA (s.a.sendAllFromOutputQueue, [])) := by
  have hunsent : Link.unsent s.a.sendAllFromOutputQueue = Link.unsent s.a := by
    rw [Link.unsent, Link.unsent, waiting_sendAll]
  refine h.plain ?_
  unfold Session.sendAllFromOutputQueue at hunsent ⊢
  split at hunsent
  next he =>
    rw [if_pos he]
    exact { h.keys.plainRefl with
      nodup := fun hn => hunsent.symm ▸ hn
      unsent := fun n hn => hunsent ▸ hn }
  next he =>
    rw [if_neg he]
    exact h.keys.plainRefl

/-! ### The handshake of A -/

theorem items_addPacket {M : Type} {t : Retransmitter M} {item item' : RetransmitItem M}
    (h : item' ∈ (t.addPacket item).retransmitMap) : item' ∈ t.retransmitMap ∨ item' = item := by
  simp only [Retransmitter.addPacket, Retransmitter.withMap] at h
  split at h
  next => exact .inl h
  next => simpa using h

theorem ids_addPacket {M : Type} {t : Retransmitter M} {item : RetransmitItem M}
    (h : (t.retransmitMap.map (·.packetId)).Nodup) :
    ((t.addPacket item).retransmitMap.map (·.packetId)).Nodup := by
  simp only [Retransmitter.addPacket, Retransmitter.withMap]
  split
  next => exact h
  next hnew =>
    rw [List.map_append, List.map_singleton]
    refine List.nodup_append.mpr ⟨h, List.nodup_singleton _, ?_⟩
    rintro p hp q hq rfl
    obtain ⟨item', hitem', rfl⟩ := List.mem_map.mp hp
    exact hnew ⟨item', hitem', List.mem_singleton.mp hq⟩

theorem Inv.sendHello (h : Inv s) (now : ℤ) (random : ℕ → ℕ) :
    Inv (s.withA (s.a.sendHello now random)) :=
  h.plain { h.keys.plainRefl with
    ids := ids_addPacket
    items := fun item' hitem' => by
      rcases items_addPacket hitem' with hitem | rfl
      · exact .inl ⟨item', hitem, rfl, rfl, .inl rfl⟩
      · exact .inr ⟨rfl, Nat.le_refl _, _, .head _, rfl⟩
    sent := fun m hm => by
      obtain rfl := List.mem_singleton.mp hm
      exact ⟨nofun, nofun⟩
    packetIds := Nat.le_succ _
    sending := fun _ _ hs => .inl hs }

theorem Inv.restartHandshakeIfNeeded (h : Inv s) (now : ℤ) (random : ℕ → ℕ) :
    Inv (s.withA (s.a.restartHandshakeIfNeeded now random)) := by
  unfold Session.restartHandshakeIfNeeded
  split
  next =>
    have hwait : Inv (s.withA ({ s.a with
        handshakeStep := .WAIT_FOR_WELCOME
        handshakeExpiresAt := now + handshakeTimeoutMillis }, [])) :=
      h.plain { h.keys.plainRefl with
        waits := fun hw => by
          have : HandshakeState.WAIT_FOR_WELCOME = .WAIT_FOR_SESSION := hw.2
          cases this }
    have := hwait.sendHello now random
    rwa [withA_withA] at this
  next => exact h.noneA

theorem Inv.startHandshake (h : Inv s) (now : ℤ) : Inv (s.withA (s.a.startHandshake now, [])) := by
  unfold Session.startHandshake
  split
  next =>
    exact h.plain { h.keys.plainRefl with
      ids := fun hn => by
        refine List.Nodup.sublist (List.filter_sublist.map _) ?_
        simpa [Retransmitter.withMap, Function.comp_def] using hn
      items := fun item' hitem' => by
        obtain ⟨item, hitem, rfl⟩ := List.mem_map.mp (List.mem_filter.mp hitem').1
        exact .inl ⟨item, hitem, rfl, rfl, .inr ⟨rfl, rfl⟩⟩
      exchanging := nofun
      waits := fun hw => by
        have : HandshakeState.INIT = .WAIT_FOR_SESSION := hw.2
        cases this }
  next => exact h.noneA

/-- A fresh nonce: no SESSION was sent for it yet. -/
theorem Inv.sendKeyReq (h : Inv s) (remoteNonce : ℕ) (now : ℤ) (random : ℕ → ℕ) :
    Inv (s.withA (s.a.sendKeyReq remoteNonce now random)) :=
  h.plain { h.keys.plainRefl with
    ids := fun hn => ids_addPacket (ids_addPacket hn)
    items := fun item' hitem' => by
      rcases items_addPacket hitem' with hitem' | rfl
      · rcases items_addPacket hitem' with hitem | rfl
        · exact .inl ⟨item', hitem, rfl, rfl, .inl rfl⟩
        · exact .inr ⟨rfl, Nat.le_refl _, _, .head _, rfl⟩
      · exact .inr ⟨rfl, Nat.le_succ _, _, .tail _ (.head _), rfl⟩
    sent := fun m hm => by
      simp only [List.mem_cons, List.not_mem_nil, or_false] at hm
      rcases hm with rfl | rfl
      · refine ⟨by rintro _ _ ⟨⟩, ?_⟩
        rintro p text (htext | htext)
        · cases htext
          exact Nat.lt_succ_self _
        · cases htext
      · refine ⟨by rintro _ _ ⟨⟩, ?_⟩
        rintro p text (htext | htext)
        · cases htext
        · cases htext
          exact Nat.lt_succ_self _
    nonces := Nat.le_succ _
    localNonce := Nat.lt_succ_self _
    waits := fun _ => .inr (Nat.le_refl _)
    sessionParts := fun text ht => by
      rcases ht with ht | ht <;> cases ht
    packetIds := Nat.le_add_right _ _
    sending := fun _ _ hs => .inl hs }

/-- A part of a SESSION that was sent. -/
theorem Inv.sessionParts (h : Inv s) {part1 part2 : Option SessionKey}
    (hparts : ∀ text, part1 = some text ∨ part2 = some text → Offered s text) :
    Inv (s.withA ({ s.a with sessionPart1 := part1, sessionPart2 := part2 }, [])) :=
  h.plain { h.keys.plainRefl with sessionParts := hparts }

theorem Inv.sendSessionAck (h : Inv s) :
    Inv (s.withA ({ s.a with nextPacketId := s.a.nextPacketId + 1 }, [.sessionAck s.a.nextPacketId])) :=
  h.plain { h.keys.plainRefl with
    items := fun item hitem => .inl ⟨item, hitem, rfl, rfl, .inl rfl⟩
    sent := fun m hm => by
      obtain rfl := List.mem_singleton.mp hm
      exact ⟨nofun, nofun⟩
    packetIds := Nat.le_succ _
    sending := fun _ _ hs => .inl hs }

/-- The key of a SESSION that answers the last nonce is newer than any that A has used. -/
theorem Inv.takeKey (h : Inv s) {text : SessionKey} (hwaits : s.a.WaitsForSession)
    (hoffered : Offered s text) (hnonce : text.nonce = s.a.localNonce) :
    Inv (s.withA ({ s.a with sessionKey := some text.key, exchanging := true }, [])) := by
  have hnewer : ∀ {n : ℕ}, (∃ k, s.a.sessionKey = some k ∧ n ≤ k) → n < text.key := by
    rintro n ⟨k, hk, hle⟩
    exact Nat.lt_of_le_of_lt hle (h.keys.newer hwaits text hoffered hnonce k hk)
  have hs : s.withA ({ s.a with sessionKey := some text.key, exchanging := true }, []) =
      { s with a := { s.a with sessionKey := some text.key, exchanging := true } } := by
    simp [withA]
  rw [hs]
  exact {
    sends := ⟨h.sends.ids, h.sends.packetId, h.sends.sent, h.sends.payload, h.sends.handshake, h.sends.carries,
      h.sends.nodup, h.sends.calls, h.sends.unsent, h.sends.transmits⟩
    keys := {
      exchanging := fun _ => ⟨_, rfl⟩
      sessionKey := fun k hk => Option.some.inj hk ▸ (h.keys.offered text hoffered).1
      data := fun p c t hd => ⟨_, rfl, Nat.le_of_lt (hnewer (h.keys.data p c t hd))⟩
      transmits := fun p c ht => ⟨_, rfl, Nat.le_of_lt (hnewer (h.keys.transmits p c ht))⟩
      nullified := fun _ item _ _ _ c t hd k hk =>
        Option.some.inj hk ▸ hnewer (h.keys.data item.packetId c t hd)
      nonce := h.keys.nonce
      requested := h.keys.requested
      offered := h.keys.offered
      newer := fun hw => absurd hw.1 nofun
      sessionParts := h.keys.sessionParts
      keyReqParts := h.keys.keyReqParts
      answers := h.keys.answers }
    delivers := ⟨h.delivers.reader, h.delivers.prevTime, h.delivers.times, h.delivers.data,
      h.delivers.noted, h.delivers.old, h.delivers.recent, h.delivers.once⟩ }

/-! ### Retransmission by A -/

/-- The loop of a pulse keeps the ids of an item, and its packet unless it sends a new one; it sends what is
    due: of the session the data, else the rest. -/
theorem pulseItem_cases {M : Type} (exchange : Option (ℕ → Payload → M)) (now : ℤ) (random : ℕ → ℕ)
    (item : RetransmitItem M) :
    (∀ item', (Retransmitter.pulseItem exchange now random item).1 = some item' →
      item'.packetId = item.packetId ∧ item'.sourcePayload = item.sourcePayload ∧
      (item'.packet = item.packet ∧
          (exchange.isSome → item.sourcePayload.isSome →
            (Retransmitter.pulseItem exchange now random item).2 = []) ∨
        item.sourcePayload.isSome ∧ exchange.isSome ∧
          ∃ m ∈ (Retransmitter.pulseItem exchange now random item).2, item'.packet = some m)) ∧
    ∀ m ∈ (Retransmitter.pulseItem exchange now random item).2, item.nextRetransmitTimeMillis < now ∧
      ((exchange = none ∧ item.sourcePayload = none ∧ item.packet = some m) ∨
        ∃ packetOf x, exchange = some packetOf ∧ item.sourcePayload = some x ∧
          m = item.packet.getD (packetOf item.packetId x)) := by
  have hcount : ∀ {i i' : RetransmitItem M}, i.count = some i' →
      i'.packetId = i.packetId ∧ i'.sourcePayload = i.sourcePayload ∧ i'.packet = i.packet := by
    intro i i' h
    unfold RetransmitItem.count at h
    split at h
    next => cases h
    next =>
      obtain rfl := Option.some.inj h
      exact ⟨rfl, rfl, rfl⟩
  unfold Retransmitter.pulseItem
  split
  next hdue =>
    cases hex : exchange with
    | some packetOf =>
        cases hx : item.sourcePayload with
        | some x =>
            simp only [RetransmitItem.updateNextRetransmitTime, hx]
            refine ⟨fun item' h => ?_, fun m hm => ⟨hdue, .inr ⟨packetOf, x, rfl, rfl, ?_⟩⟩⟩
            · obtain ⟨hid, hsource, hpacket⟩ := hcount h
              exact ⟨hid, hsource, .inr ⟨rfl, rfl, _, .head _, hpacket⟩⟩
            · exact List.mem_singleton.mp hm
        | none =>
            simp only [RetransmitItem.updateNextRetransmitTime, hx]
            refine ⟨fun item' h => ?_, nofun⟩
            obtain ⟨hid, hsource, hpacket⟩ := hcount h
            exact ⟨hid, hsource, .inl ⟨hpacket, fun _ _ => trivial⟩⟩
    | none =>
        cases hx : item.sourcePayload with
        | some x =>
            simp only [RetransmitItem.updateNextRetransmitTime, hx]
            refine ⟨fun item' h => ?_, nofun⟩
            obtain rfl := Option.some.inj h
            exact ⟨rfl, rfl, .inl ⟨rfl, fun _ _ => trivial⟩⟩
        | none =>
            simp only [RetransmitItem.updateNextRetransmitTime, hx]
            refine ⟨fun item' h => ?_, fun m hm => ⟨hdue, .inl ⟨trivial, trivial, ?_⟩⟩⟩
            · obtain ⟨hid, hsource, hpacket⟩ := hcount h
              exact ⟨hid, hsource, .inl ⟨hpacket, nofun⟩⟩
            · exact Option.mem_toList.mp hm
  next =>
    refine ⟨fun item' h => ?_, fun m hm => absurd hm List.not_mem_nil⟩
    obtain rfl := Option.some.inj h
    exact ⟨rfl, rfl, .inl ⟨rfl, fun _ _ => rfl⟩⟩

/-- Ids stay unique where each item that stays keeps its id. -/
theorem ids_filterMap {M : Type} {f : RetransmitItem M → Option (RetransmitItem M)}
    (hf : ∀ item item', f item = some item' → item'.packetId = item.packetId) {items : List (RetransmitItem M)}
    (h : (items.map (·.packetId)).Nodup) : ((items.filterMap f).map (·.packetId)).Nodup := by
  refine h.sublist ?_
  induction items with
  | nil => exact .refl _
  | cons item items ih =>
      have ih := ih (List.nodup_cons.mp h).2
      cases hi : f item with
      | none =>
          rw [List.filterMap_cons_none hi]
          exact ih.cons _
      | some item' =>
          rw [List.filterMap_cons_some hi, List.map_cons, List.map_cons, hf item item' hi]
          exact ih.cons_cons _

/-- What a pulse of A leaves: an item keeps its packet if it was not sent, else it has the one that was. -/
theorem mem_pulse (s : Link) (random : ℕ → ℕ) (item' : RetransmitItem ToB)
    (h : item' ∈ (s.a.pulseRetransmit s.now random).1.base.retransmitMap) :
    ∃ item ∈ s.a.base.retransmitMap, item'.packetId = item.packetId ∧
      item'.sourcePayload = item.sourcePayload ∧ (item'.packet = item.packet ∧
          (s.a.exchange.isSome → item.sourcePayload.isSome →
            (Retransmitter.pulseItem s.a.exchange s.now random item).2 = []) ∨
        item.sourcePayload.isSome ∧ s.a.exchange.isSome ∧
          ∃ m ∈ (Retransmitter.pulseItem s.a.exchange s.now random item).2, item'.packet = some m) := by
  obtain ⟨item, hitem, hsome⟩ := List.mem_filterMap.mp h
  exact ⟨item, hitem, (pulseItem_cases s.a.exchange s.now random item).1 item' hsome⟩

theorem ids_pulse (h : (s.a.base.retransmitMap.map (·.packetId)).Nodup) (random : ℕ → ℕ) :
    ((s.a.pulseRetransmit s.now random).1.base.retransmitMap.map (·.packetId)).Nodup :=
  ids_filterMap (fun item item' hi => ((pulseItem_cases s.a.exchange s.now random item).1 item' hi).1) h

/-- Out of the session a pulse sends the packets of the handshake again. -/
theorem Inv.pulseHandshake (h : Inv s) (hex : s.a.exchange = none) (random : ℕ → ℕ) :
    Inv (s.withA (s.a.pulseRetransmit s.now random)) :=
  h.plain { h.keys.plainRefl with
    ids := fun hn => ids_pulse hn random
    items := fun item' hitem' => by
      obtain ⟨item, hitem, hid, hsource, ⟨hpacket, -⟩ | ⟨-, hsome, -⟩⟩ := mem_pulse s random item' hitem'
      · exact .inl ⟨item, hitem, hid, hsource, .inl hpacket⟩
      · rw [hex] at hsome
        cases hsome
    sent := fun m hm => by
      obtain ⟨item, hitem, hm⟩ := List.mem_flatMap.mp hm
      obtain ⟨-, ⟨-, hsource, hpacket⟩ | ⟨_, _, hsome, -⟩⟩ := (pulseItem_cases _ _ random item).2 m hm
      · obtain ⟨t, ht⟩ := h.sends.sent item hitem m hpacket
        refine ⟨fun p c hm => h.sends.handshake item hitem hsource p c (hm ▸ hpacket), ?_⟩
        rintro p text (rfl | rfl)
        · exact h.keys.requested text ⟨p, t, .inl ht⟩
        · exact h.keys.requested text ⟨p, t, .inr ht⟩
      · rw [hex] at hsome
        cases hsome }

/-- A due packet of the session, as it was or encrypted anew. -/
theorem pulse_data (h : Sends s) {k : ℕ} {random : ℕ → ℕ} {item : RetransmitItem ToB}
    (hex : s.a.exchange = some fun packetId payload => .data packetId ⟨k, payload⟩)
    (hitem : item ∈ s.a.base.retransmitMap) {m : ToB}
    (hm : m ∈ (Retransmitter.pulseItem s.a.exchange s.now random item).2) :
    item.nextRetransmitTimeMillis < s.now ∧ item.sourcePayload.isSome ∧
      ∃ c, m = .data item.packetId c ∧ (item.packet = some m ∨
        item.packet = none ∧ item.sourcePayload = some c.payload ∧ c.key = k) := by
  obtain ⟨hdue, ⟨hnone, -⟩ | ⟨packetOf, x, hsome, hx, rfl⟩⟩ :=
    (pulseItem_cases s.a.exchange s.now random item).2 m hm
  · rw [hex] at hnone
    cases hnone
  · obtain rfl := Option.some.inj (hex.symm.trans hsome)
    refine ⟨hdue, hx ▸ rfl, ?_⟩
    cases hpacket : item.packet with
    | none => exact ⟨⟨k, x⟩, rfl, .inr ⟨rfl, hx, rfl⟩⟩
    | some m =>
        obtain ⟨c, rfl⟩ := (h.payload item hitem x hx).2 m hpacket
        exact ⟨c, rfl, .inl rfl⟩

/-- In the session a pulse sends data again; what it sends under the key of the reader was not delivered
    under it, or a short time ago. -/
theorem Inv.pulseSession (h : Inv s) (he : s.a.exchanging = true)
    (hclean : ∀ item ∈ s.a.base.retransmitMap, item.nextRetransmitTimeMillis < s.now →
      ∀ d ∈ s.b.delivered, d.packetId = item.packetId → s.a.sessionKey = some d.key →
      s.now < d.time + resendPeriod) (random : ℕ → ℕ) :
    Inv (s.withA (s.a.pulseRetransmit s.now random)) := by
  obtain ⟨k, hkey⟩ := h.keys.exchanging he
  have hex : s.a.exchange = some fun packetId payload => .data packetId ⟨k, payload⟩ := by
    rw [Session.exchange, if_pos he, hkey]
    rfl
  have hids := ids_pulse h.sends.ids random
  have hitems := mem_pulse s random
  have hsent : ∀ m ∈ (s.a.pulseRetransmit s.now random).2, ∃ item ∈ s.a.base.retransmitMap,
      m ∈ (Retransmitter.pulseItem s.a.exchange s.now random item).2 := fun m => List.mem_flatMap.mp
  have hsent' : ∀ {item m}, item ∈ s.a.base.retransmitMap →
      m ∈ (Retransmitter.pulseItem s.a.exchange s.now random item).2 →
      m ∈ (s.a.pulseRetransmit s.now random).2 := fun hitem hm => List.mem_flatMap.mpr ⟨_, hitem, hm⟩
  obtain ⟨base, sent, ha⟩ : ∃ base sent, s.a.pulseRetransmit s.now random =
    ({ s.a with base := base }, sent) := ⟨_, _, rfl⟩
  rw [ha] at hids hitems hsent hsent' ⊢
  have hdata : ∀ {p c t}, Data (s.withA ({ s.a with base := base }, sent)) p c t ↔
      Data s p c t ∨ .data p c ∈ sent ∧ t = s.now := mem_withA
  -- What is sent was sent before, with the same payload.
  have hbefore : ∀ {p c}, .data p c ∈ sent →
      s.a.base.Retransmits p ∧ ∃ c₀ t₀, Data s p c₀ t₀ ∧ c₀.payload.call = c.payload.call := by
    intro p c hm
    obtain ⟨item, hitem, hm⟩ := hsent _ hm
    obtain ⟨-, -, c', hc', hpacket⟩ := pulse_data h.sends hex hitem hm
    obtain ⟨rfl, rfl⟩ := ToB.data.inj hc'
    refine ⟨⟨item, hitem, rfl⟩, ?_⟩
    rcases hpacket with hpacket | ⟨-, hx, -⟩
    · obtain ⟨t, ht⟩ := h.sends.sent item hitem _ hpacket
      exact ⟨c, t, ht, rfl⟩
    · obtain ⟨⟨c₀, t₀, hd, hc₀⟩, -⟩ := h.sends.payload item hitem _ hx
      exact ⟨c₀, t₀, hd, congrArg Payload.call hc₀⟩
  have hback : ∀ {p c t}, Data (s.withA ({ s.a with base := base }, sent)) p c t →
      ∃ c₀ t₀, Data s p c₀ t₀ ∧ c₀.payload.call = c.payload.call := by
    intro p c t hd
    rcases hdata.mp hd with hd | ⟨hm, -⟩
    · exact ⟨c, t, hd, rfl⟩
    · exact (hbefore hm).2
  have hretransmits : ∀ {p}, base.Retransmits p → s.a.base.Retransmits p := by
    rintro p ⟨item', hitem', rfl⟩
    obtain ⟨item, hitem, hid, -⟩ := hitems item' hitem'
    exact ⟨item, hitem, hid.symm⟩
  refine ⟨?_, ?_, ?_⟩
  · exact {
      ids := hids
      packetId := fun p c t hd => by
        obtain ⟨c₀, t₀, hd, -⟩ := hback hd
        exact h.sends.packetId p c₀ t₀ hd
      sent := fun item' hitem' m hm => by
        obtain ⟨item, hitem, -, -, ⟨hpacket, -⟩ | ⟨-, -, m', hm', hpacket⟩⟩ := hitems item' hitem'
        · obtain ⟨t, ht⟩ := h.sends.sent item hitem m (hpacket ▸ hm)
          exact ⟨t, mem_withA.mpr (.inl ht)⟩
        · obtain rfl := Option.some.inj (hpacket.symm.trans hm)
          exact ⟨s.now, mem_withA.mpr (.inr ⟨hsent' hitem hm', rfl⟩)⟩
      payload := fun item' hitem' x hx => by
        obtain ⟨item, hitem, hid, hsource, hpacket⟩ := hitems item' hitem'
        obtain ⟨⟨c, t, hd, hc⟩, hm⟩ := h.sends.payload item hitem x (hsource ▸ hx)
        rw [hid]
        refine ⟨⟨c, t, hdata.mpr (.inl hd), hc⟩, fun m hm' => ?_⟩
        rcases hpacket with ⟨hpacket, -⟩ | ⟨-, -, m', hm₁, hpacket⟩
        · exact hm m (hpacket ▸ hm')
        · obtain rfl := Option.some.inj (hpacket.symm.trans hm')
          obtain ⟨-, -, c', hc', -⟩ := pulse_data h.sends hex hitem hm₁
          exact ⟨c', hc'⟩
      handshake := fun item' hitem' hnone p c hpacket' => by
        obtain ⟨item, hitem, -, hsource, ⟨hpacket, -⟩ | ⟨hsome, -⟩⟩ := hitems item' hitem'
        · exact h.sends.handshake item hitem (hsource ▸ hnone) p c (hpacket ▸ hpacket')
        · rw [← hsource, hnone] at hsome
          cases hsome
      carries := fun p c t p' c' t' hd hd' => by
        obtain ⟨c₀, t₀, hd, hc⟩ := hback hd
        obtain ⟨c₁, t₁, hd', hc'⟩ := hback hd'
        rw [← hc, ← hc']
        exact h.sends.carries p c₀ t₀ p' c₁ t₁ hd hd'
      nodup := h.sends.nodup
      calls := h.sends.calls
      unsent := fun p c t hd => by
        obtain ⟨c₀, t₀, hd, hc⟩ := hback hd
        exact hc ▸ h.sends.unsent p c₀ t₀ hd
      transmits := fun p c hs => by
        obtain ⟨hlt, hnone⟩ := h.sends.transmits p c hs
        refine ⟨hlt, fun c' t hd => ?_⟩
        obtain ⟨c₀, t₀, hd, -⟩ := hback hd
        exact hnone c₀ t₀ hd }
  · exact { h.keys with
      data := fun p c t hd => by
        rcases hdata.mp hd with hd | ⟨hm, -⟩
        · exact h.keys.data p c t hd
        · obtain ⟨item, hitem, hm⟩ := hsent _ hm
          obtain ⟨-, -, c', hc', hpacket⟩ := pulse_data h.sends hex hitem hm
          obtain ⟨rfl, rfl⟩ := ToB.data.inj hc'
          rcases hpacket with hpacket | ⟨-, -, hk⟩
          · obtain ⟨t₀, ht₀⟩ := h.sends.sent item hitem _ hpacket
            exact h.keys.data _ c t₀ ht₀
          · exact ⟨k, hkey, Nat.le_of_eq hk⟩
      nullified := fun he item' hitem' hsome hnone c t hd k' hk' => by
        obtain ⟨item, hitem, hid, hsource, ⟨hpacket, hunsent⟩ | ⟨-, -, m, -, hpacket⟩⟩ :=
          hitems item' hitem'
        · rw [hid] at hd
          rw [hsource] at hsome
          rcases hdata.mp hd with hd | ⟨hm, -⟩
          · exact h.keys.nullified he item hitem hsome (hpacket ▸ hnone) c t hd k' hk'
          · obtain ⟨item₂, hitem₂, hm⟩ := hsent _ hm
            obtain ⟨-, -, c', hc', -⟩ := pulse_data h.sends hex hitem₂ hm
            obtain ⟨hsame, -⟩ := ToB.data.inj hc'
            obtain rfl := List.inj_on_of_nodup_map h.sends.ids hitem hitem₂ hsame
            rw [hunsent (hex ▸ rfl) hsome] at hm
            cases hm
        · rw [hnone] at hpacket
          cases hpacket
      requested := fun text => by
        rintro ⟨p, t, hreq | hreq⟩
        · rcases mem_withA.mp hreq with hreq | ⟨hm, -⟩
          · exact h.keys.requested text ⟨p, t, .inl hreq⟩
          · obtain ⟨item, hitem, hm⟩ := hsent _ hm
            obtain ⟨-, -, c', hc', -⟩ := pulse_data h.sends hex hitem hm
            cases hc'
        · rcases mem_withA.mp hreq with hreq | ⟨hm, -⟩
          · exact h.keys.requested text ⟨p, t, .inr hreq⟩
          · obtain ⟨item, hitem, hm⟩ := hsent _ hm
            obtain ⟨-, -, c', hc', -⟩ := pulse_data h.sends hex hitem hm
            cases hc'
      keyReqParts := fun r hr text hpart => by
        obtain ⟨p, t, hreq⟩ := h.keys.keyReqParts r hr text hpart
        exact ⟨p, t, hreq.imp (fun hm => mem_withA.mpr (.inl hm)) fun hm => mem_withA.mpr (.inl hm)⟩ }
  · exact { h.delivers with
      times := fun m t hm => by
        rcases mem_withA.mp hm with hm | ⟨-, rfl⟩
        · exact h.delivers.times m t hm
        · exact Int.le_refl _
      data := fun d hd => by
        obtain ⟨hk, ht, c, t, hd, hc⟩ := h.delivers.data d hd
        exact ⟨hk, ht, c, t, hdata.mpr (.inl hd), hc⟩
      old := fun d hd hk => by
        obtain ⟨hnot, hkeys⟩ := h.delivers.old d hd hk
        refine ⟨fun hr => hnot (hretransmits hr), fun c t hdt => ?_⟩
        rcases hdata.mp hdt with hdt | ⟨hm, -⟩
        · exact hkeys c t hdt
        · exact absurd (hbefore hm).1 hnot
      recent := fun d hd hk c t hdt hsame => by
        rcases hdata.mp hdt with hdt | ⟨hm, rfl⟩
        · exact h.delivers.recent d hd hk c t hdt hsame
        · obtain ⟨item, hitem, hm⟩ := hsent _ hm
          obtain ⟨hdue, -, c', hc', hpacket⟩ := pulse_data h.sends hex hitem hm
          obtain ⟨hid, rfl⟩ := ToB.data.inj hc'
          have hle : c.key ≤ k := by
            rcases hpacket with hpacket | ⟨-, -, hk⟩
            · obtain ⟨t₀, ht₀⟩ := h.sends.sent item hitem _ hpacket
              obtain ⟨k', hk', hle⟩ := h.keys.data _ c t₀ ht₀
              exact Option.some.inj (hkey.symm.trans hk') ▸ hle
            · exact Nat.le_of_eq hk
          have hlt := h.keys.sessionKey k hkey
          replace hk : d.key + 1 = s.b.keys := hk
          have hsession : s.a.sessionKey = some d.key := hkey.trans (congrArg some (by omega))
          exact hclean item hitem hdue d hd hid hsession }

/-- A packet goes out for the first time. -/
theorem Inv.transmit (h : Inv s) {p : ℕ} {c : Ciphertext} (hsending : s.a.sending = some (.transmit p c))
    (random : ℕ → ℕ) : Inv (s.withA (s.a.senderStep s.now random)) := by
  obtain ⟨hlt, hnew⟩ := h.sends.transmits p c hsending
  obtain ⟨k, hkey, hle⟩ := h.keys.transmits p c hsending
  have hstep : s.a.senderStep s.now random = ({ s.a with
      sending := none
      base := s.a.base.addPacket (.new p (.data p c) (some c.payload) s.now (random p)) },
      [.data p c]) := by
    simp only [Session.senderStep, hsending]
  rw [hstep]
  generalize hitem₀ : RetransmitItem.new p (ToB.data p c) (some c.payload) s.now (random p) = item₀
  have hid₀ : item₀.packetId = p := by rw [← hitem₀]; rfl
  have hsource₀ : item₀.sourcePayload = some c.payload := by rw [← hitem₀]; rfl
  have hpacket₀ : item₀.packet = some (.data p c) := by rw [← hitem₀]; rfl
  have hdata : ∀ {p' c' t}, Data (s.withA ({ s.a with
      sending := none, base := s.a.base.addPacket item₀ }, [.data p c])) p' c' t ↔
      Data s p' c' t ∨ (p' = p ∧ c' = c) ∧ t = s.now := by
    intro p' c' t
    rw [Data, mem_withA, List.mem_singleton, ToB.data.injEq]
    rfl
  have hself : Data (s.withA ({ s.a with
      sending := none, base := s.a.base.addPacket item₀ }, [.data p c])) p c s.now :=
    hdata.mpr (.inr ⟨⟨rfl, rfl⟩, rfl⟩)
  have hunsent : Link.unsent s.a = (s.a.pool ++ s.a.outputQueue).map (·.call) ++ [c.payload.call] := by
    simp [Link.unsent, waiting, hsending, payloadOf]
  have hunsent' : Link.unsent { s.a with sending := none, base := s.a.base.addPacket item₀ } =
      (s.a.pool ++ s.a.outputQueue).map (·.call) := by
    simp [Link.unsent, waiting]
  have hnodup := h.sends.nodup
  rw [hunsent] at hnodup
  obtain ⟨hrest, -, hdisjoint⟩ := List.nodup_append.mp hnodup
  have hcall : c.payload.call ∈ Link.unsent s.a := hunsent ▸ List.mem_append_right _ (.head _)
  refine ⟨?_, ?_, ?_⟩
  · exact {
      ids := ids_addPacket h.sends.ids
      packetId := fun p' c' t hd => by
        rcases hdata.mp hd with hd | ⟨⟨rfl, -⟩, -⟩
        · exact h.sends.packetId p' c' t hd
        · exact hlt
      sent := fun item hitem m hm => by
        rcases items_addPacket hitem with hitem | rfl
        · obtain ⟨t, ht⟩ := h.sends.sent item hitem m hm
          exact ⟨t, mem_withA.mpr (.inl ht)⟩
        · obtain rfl := Option.some.inj (hpacket₀.symm.trans hm)
          exact ⟨s.now, hself⟩
      payload := fun item hitem x hx => by
        rcases items_addPacket hitem with hitem | rfl
        · obtain ⟨⟨c', t, hd, hc'⟩, hm⟩ := h.sends.payload item hitem x hx
          exact ⟨⟨c', t, hdata.mpr (.inl hd), hc'⟩, hm⟩
        · obtain rfl := Option.some.inj (hsource₀.symm.trans hx)
          refine ⟨⟨c, s.now, hid₀ ▸ hself, rfl⟩, fun m hm => ⟨c, ?_⟩⟩
          rw [hid₀]
          exact Option.some.inj (hm.symm.trans hpacket₀)
      handshake := fun item hitem hnone => by
        rcases items_addPacket hitem with hitem | rfl
        · exact h.sends.handshake item hitem hnone
        · rw [hsource₀] at hnone
          cases hnone
      carries := fun p₁ c₁ t₁ p₂ c₂ t₂ hd₁ hd₂ => by
        have hother : ∀ {p' c' t}, Data s p' c' t → p' ≠ p ∧ c'.payload.call ≠ c.payload.call := by
          intro p' c' t hd
          refine ⟨fun hp => hnew c' t (hp ▸ hd), fun hc => ?_⟩
          exact (h.sends.unsent p' c' t hd).2 (hc ▸ hcall)
        rcases hdata.mp hd₁ with hold₁ | ⟨⟨hp₁, hc₁⟩, -⟩
        · rcases hdata.mp hd₂ with hold₂ | ⟨⟨rfl, rfl⟩, -⟩
          · exact h.sends.carries p₁ c₁ t₁ p₂ c₂ t₂ hold₁ hold₂
          · exact iff_of_false (hother hold₁).1 (hother hold₁).2
        · rw [hp₁, hc₁]
          rcases hdata.mp hd₂ with hold₂ | ⟨⟨hp₂, hc₂⟩, -⟩
          · exact iff_of_false (hother hold₂).1.symm (hother hold₂).2.symm
          · rw [hp₂, hc₂]
            exact iff_of_true rfl rfl
      nodup := hunsent' ▸ hrest
      calls := fun n hn => h.sends.calls n (hunsent ▸ List.mem_append_left _ (hunsent' ▸ hn))
      unsent := fun p' c' t hd => by
        have hsub : ∀ n ∈ Link.unsent { s.a with sending := none, base := s.a.base.addPacket item₀ },
            n ∈ (s.a.pool ++ s.a.outputQueue).map (·.call) := fun n hn => hunsent' ▸ hn
        rcases hdata.mp hd with hd | ⟨⟨rfl, rfl⟩, -⟩
        · obtain ⟨hlt, hnot⟩ := h.sends.unsent p' c' t hd
          exact ⟨hlt, fun hn => hnot (hunsent ▸ List.mem_append_left _ (hsub _ hn))⟩
        · exact ⟨h.sends.calls _ hcall, fun hn => hdisjoint _ (hsub _ hn) _ (.head _) rfl⟩
      transmits := nofun }
  · exact { h.keys with
      data := fun p' c' t hd => by
        rcases hdata.mp hd with hd | ⟨⟨-, rfl⟩, -⟩
        · exact h.keys.data p' c' t hd
        · exact ⟨k, hkey, hle⟩
      transmits := nofun
      nullified := fun he item hitem hsome hnone c' t hd k' hk' => by
        rcases items_addPacket hitem with hitem | rfl
        · rcases hdata.mp hd with hd | ⟨⟨hp, -⟩, -⟩
          · exact h.keys.nullified he item hitem hsome hnone c' t hd k' hk'
          · obtain ⟨x, hx⟩ := Option.isSome_iff_exists.mp hsome
            obtain ⟨⟨c₁, t₁, hd₁, -⟩, -⟩ := h.sends.payload item hitem x hx
            exact absurd (hp ▸ hd₁) (hnew c₁ t₁)
        · rw [hpacket₀] at hnone
          cases hnone
      requested := fun text => by
        rintro ⟨p', t, hreq | hreq⟩
        · rcases mem_withA.mp hreq with hreq | ⟨hm, -⟩
          · exact h.keys.requested text ⟨p', t, .inl hreq⟩
          · cases List.mem_singleton.mp hm
        · rcases mem_withA.mp hreq with hreq | ⟨hm, -⟩
          · exact h.keys.requested text ⟨p', t, .inr hreq⟩
          · cases List.mem_singleton.mp hm
      keyReqParts := fun r hr text hpart => by
        obtain ⟨p', t, hreq⟩ := h.keys.keyReqParts r hr text hpart
        exact ⟨p', t, hreq.imp (fun hm => mem_withA.mpr (.inl hm)) fun hm => mem_withA.mpr (.inl hm)⟩ }
  · exact { h.delivers with
      times := fun m t hm => by
        rcases mem_withA.mp hm with hm | ⟨-, rfl⟩
        · exact h.delivers.times m t hm
        · exact Int.le_refl _
      data := fun d hd => by
        obtain ⟨hk, ht, c', t, hd, hc⟩ := h.delivers.data d hd
        exact ⟨hk, ht, c', t, hdata.mpr (.inl hd), hc⟩
      old := fun d hd hk => by
        obtain ⟨hnot, hkeys⟩ := h.delivers.old d hd hk
        obtain ⟨-, -, c₁, t₁, hd₁, -⟩ := h.delivers.data d hd
        have hne : d.packetId ≠ p := fun hp => hnew c₁ t₁ (hp ▸ hd₁)
        refine ⟨?_, fun c' t hdt => ?_⟩
        · rintro ⟨item, hitem, hid⟩
          rcases items_addPacket hitem with hitem | rfl
          · exact hnot ⟨item, hitem, hid⟩
          · exact hne (hid.symm.trans hid₀)
        · rcases hdata.mp hdt with hdt | ⟨⟨hp, -⟩, -⟩
          · exact hkeys c' t hdt
          · exact absurd hp hne
      recent := fun d hd hk c' t hdt hsame => by
        rcases hdata.mp hdt with hdt | ⟨⟨hp, -⟩, -⟩
        · exact h.delivers.recent d hd hk c' t hdt hsame
        · obtain ⟨-, -, c₁, t₁, hd₁, -⟩ := h.delivers.data d hd
          exact absurd (hp ▸ hd₁) (hnew c₁ t₁) }

/-! ### The sender thread -/

theorem unsent_subperm (a a' : Session) (h : (waiting a').Subperm (waiting a)) :
    ((unsent a).Nodup → (unsent a').Nodup) ∧ ∀ n ∈ unsent a', n ∈ unsent a := by
  obtain ⟨l, hperm, hsub⟩ := h
  have hmap : (unsent a').Perm (l.map (·.call)) := (hperm.map _).symm
  exact ⟨fun hn => hmap.nodup_iff.mpr (hn.sublist (hsub.map _)),
    fun n hn => (hsub.map _).subset (hmap.subset hn)⟩

/-- A payload that is put into the output queue. -/
theorem waiting_addPayload (a : Session) (payload : Payload) :
    (waiting ({ a with sending := none }.addPayloadToOutputQueue payload)).Subperm
      (a.pool ++ a.outputQueue ++ [payload]) := by
  simp only [waiting, Session.addPayloadToOutputQueue, Option.toList_none, List.map_nil, List.append_nil,
    List.append_assoc]
  refine List.Sublist.subperm (List.Sublist.append_left (List.Sublist.append_right ?_ _) _)
  split
  next => exact List.tail_sublist _
  next => exact .refl _

theorem Inv.addPayload (h : Inv s) {payload : Payload}
    (hwaiting : waiting s.a = s.a.pool ++ s.a.outputQueue ++ [payload]) :
    Inv (s.withA ({ s.a with sending := none }.addPayloadToOutputQueue payload, [])) := by
  obtain ⟨hnodup, hsub⟩ := unsent_subperm s.a _ (hwaiting ▸ waiting_addPayload s.a payload)
  exact h.plain { h.keys.plainRefl with nodup := hnodup, unsent := hsub, sending := nofun }

/-- A step of the sender thread that sends nothing yet. -/
theorem Inv.senderStep (h : Inv s) (random : ℕ → ℕ) :
    Inv (s.withA (s.a.senderStep s.now random)) := by
  cases hsending : s.a.sending with
  | none =>
      simp only [Session.senderStep, hsending]
      split
      next => exact h.noneA
      next payload pool hpool =>
        generalize hnext : (if s.a.exchanging = true then Sending.check payload else .queue payload) = next
        have hpayload : payloadOf next = payload := by
          rw [← hnext]
          split <;> rfl
        have hperm : (waiting { s.a with pool := pool, sending := some next }).Perm (waiting s.a) := by
          simp only [waiting, hsending, hpool, hpayload, Option.toList_some, List.map_singleton,
            Option.toList_none, List.map_nil, List.append_nil, List.cons_append]
          exact List.perm_append_singleton _ _
        obtain ⟨hnodup, hsub⟩ := unsent_subperm s.a _ hperm.subperm
        refine h.plain { h.keys.plainRefl with nodup := hnodup, unsent := hsub, sending := ?_ }
        rintro p c hs
        obtain rfl : next = .transmit p c := Option.some.inj hs
        split at hnext <;> cases hnext
  | some task =>
      have hwaiting : waiting s.a = s.a.pool ++ s.a.outputQueue ++ [payloadOf task] := by
        simp [waiting, hsending]
      cases task with
      | queue payload =>
          simp only [Session.senderStep, hsending]
          exact h.addPayload hwaiting
      | check payload =>
          simp only [Session.senderStep, hsending]
          split
          next => exact h.addPayload hwaiting
          next =>
            obtain ⟨hnodup, hsub⟩ := unsent_subperm s.a { s.a with
              base := { s.a.base with retransmitMapSize := s.a.base.retransmitMapSize + 1 }
              sending := some (.prepare payload) } (by rw [hwaiting]; exact List.Subperm.refl _)
            exact h.plain { h.keys.plainRefl with nodup := hnodup, unsent := hsub, sending := nofun }
      | prepare payload =>
          simp only [Session.senderStep, hsending]
          split
          next => exact h.noneA
          next key hkey =>
            obtain ⟨hnodup, hsub⟩ := unsent_subperm s.a { s.a with
              sending := some (.transmit s.a.nextPacketId ⟨key, payload⟩)
              nextPacketId := s.a.nextPacketId + 1 } (by rw [hwaiting]; exact List.Subperm.refl _)
            refine h.plain { h.keys.plainRefl with
              nodup := hnodup, unsent := hsub, packetIds := Nat.le_succ _, sending := ?_ }
            rintro p c hs
            obtain ⟨rfl, rfl⟩ := Sending.transmit.inj (Option.some.inj hs)
            exact .inr ⟨Nat.le_refl _, Nat.lt_succ_self _, hkey⟩
      | transmit p c => exact h.transmit hsending random

/-- A call of `send` is a new payload. -/
theorem Inv.send (h : Inv s) (bytes : List UInt8) : Inv { s with a := s.a.send bytes } := by
  have hperm : (unsent (s.a.send bytes)).Perm (s.a.calls :: unsent s.a) := by
    simp only [unsent, waiting, Session.send, List.map_append, List.map_cons, List.append_assoc,
      List.singleton_append]
    exact List.perm_middle
  have hnew : s.a.calls ∉ unsent s.a := fun hn => Nat.lt_irrefl _ (h.sends.calls _ hn)
  exact {
    sends := { h.sends with
      nodup := hperm.nodup_iff.mpr (List.nodup_cons.mpr ⟨hnew, h.sends.nodup⟩)
      calls := fun n hn => by
        rcases List.mem_cons.mp (hperm.mem_iff.mp hn) with rfl | hn
        · exact Nat.lt_succ_self _
        · exact Nat.lt_succ_of_lt (h.sends.calls n hn)
      unsent := fun p c t hd => by
        obtain ⟨hlt, hnot⟩ := h.sends.unsent p c t hd
        refine ⟨Nat.lt_succ_of_lt hlt, fun hn => ?_⟩
        rcases List.mem_cons.mp (hperm.mem_iff.mp hn) with hn | hn
        · omega
        · exact hnot hn }
    keys := { h.keys with }
    delivers := { h.delivers with } }

/-! ### Steps of A -/

theorem Inv.timerA (h : Inv s) {random : ℕ → ℕ} (hclean : Clean s (.timerA random)) :
    Inv (s.withA (s.a.timer s.now random)) := by
  have hrestart := h.restartHandshakeIfNeeded s.now random
  have hsame : (s.a.restartHandshakeIfNeeded s.now random).1.exchanging = s.a.exchanging := by
    unfold Session.restartHandshakeIfNeeded
    split <;> rfl
  have hpulse : Inv ((s.withA (s.a.restartHandshakeIfNeeded s.now random)).withA
      ((s.a.restartHandshakeIfNeeded s.now random).1.pulseRetransmit s.now random)) := by
    by_cases he : s.a.exchanging = true
    · have hnone : s.a.restartHandshakeIfNeeded s.now random = (s.a, []) := by
        rw [Session.restartHandshakeIfNeeded, if_neg (by simp [he])]
      have hs : s.withA (s.a, []) = s := by simp [withA]
      rw [hnone, hs]
      exact h.pulseSession he (hclean he) random
    · refine hrestart.pulseHandshake ?_ random
      rw [Session.exchange, if_neg]
      exact hsame ▸ he
  have hqueue := hpulse.sendAllFromOutputQueue
  rw [withA_withA, withA_withA, List.append_nil] at hqueue
  unfold Session.timer
  dsimp only
  split
  next =>
    have hrotate := hqueue.clearOldestBuffer s.now
    rw [withA_withA, List.append_nil] at hrotate
    exact hrotate
  next => exact hqueue

/-- A SESSION whose parts belong together makes the session, if it answers the last nonce. -/
theorem Inv.onReceiveSession (h : Inv s) (hwaits : s.a.WaitsForSession) (random : ℕ → ℕ) :
    Inv (s.withA (s.a.onReceiveSession s.now random)) := by
  unfold Session.onReceiveSession
  split
  next text sign hpart1 hpart2 =>
    split
    next hanswers =>
      have hoffered := h.keys.sessionParts text (.inl hpart1)
      have hack := h.sendSessionAck
      have hkey := hack.takeKey hwaits hoffered hanswers.2
      have hpulse := hkey.pulseSession rfl ?_ random
      · rw [withA_withA, withA_withA] at hpulse
        exact hpulse
      -- Nothing was delivered under the new key yet.
      intro item hitem hdue d hd hid hc
      obtain ⟨-, -, c, t, hdt, hckey, -⟩ := hack.delivers.data d hd
      obtain ⟨k, hk, hle⟩ := hack.keys.data _ c t hdt
      have := hack.keys.newer hwaits text hoffered hanswers.2 k hk
      have : text.key = d.key := Option.some.inj hc
      omega
    next => exact h.noneA
  next => exact h.noneA

/-- The same with a part that has just come. -/
theorem Inv.receivePart {a : Session} (h : Inv (s.withA (a, []))) (hwaits : a.WaitsForSession)
    (part1 part2 : Option SessionKey)
    (hparts : ∀ text, part1 = some text ∨ part2 = some text → Offered s text) (random : ℕ → ℕ) :
    Inv (s.withA ({ a with sessionPart1 := part1, sessionPart2 := part2 }.onReceiveSession s.now random)) := by
  have hset : Inv (s.withA ({ a with sessionPart1 := part1, sessionPart2 := part2 }, [])) := by
    have := h.sessionParts hparts
    rw [withA_withA] at this
    exact this
  have hsession := hset.onReceiveSession hwaits random
  rw [withA_withA] at hsession
  exact hsession

theorem Inv.remoteNonce {a : Session} (h : Inv (s.withA (a, []))) (nonce : ℕ) :
    Inv (s.withA ({ a with remoteNonce := some nonce }, [])) := by
  have hp : Plain (s.withA (a, [])) { a with remoteNonce := some nonce } [] := { h.keys.plainRefl with }
  have := h.plain hp
  rw [withA_withA] at this
  exact this

theorem Inv.receiveA (h : Inv s) {m : ToA} {t : ℤ} (hm : (m, t) ∈ s.toA) (random : ℕ → ℕ) :
    Inv (s.withA (s.a.onReceive s.now random m)) := by
  cases m with
  | welcome packetId nonce =>
      simp only [Session.onReceive]
      split
      next => exact h.noneA
      next =>
        have hnote := h.note packetId
        split
        next =>
          have hremove := hnote.removeHandshakePackets
          rw [withA_withA] at hremove
          have hreq := (hremove.remoteNonce nonce).sendKeyReq nonce s.now random
          rw [withA_withA] at hreq
          exact hreq
        next => exact hnote
  | sessionPart1 packetId text =>
      simp only [Session.onReceive]
      split
      next => exact h.noneA
      next =>
        have hremove := (h.note packetId).removeHandshakePackets
        rw [withA_withA] at hremove
        split
        next hwaits =>
          refine hremove.receivePart hwaits (some text) s.a.sessionPart2 ?_ random
          rintro text' (htext | htext)
          · exact ⟨packetId, t, .inl (Option.some.inj htext ▸ hm)⟩
          · exact h.keys.sessionParts text' (.inr htext)
        next => exact hremove
  | sessionPart2 packetId sign =>
      simp only [Session.onReceive]
      split
      next => exact h.noneA
      next =>
        have hremove := (h.note packetId).removeHandshakePackets
        rw [withA_withA] at hremove
        split
        next hwaits =>
          refine hremove.receivePart hwaits s.a.sessionPart1 (some sign) ?_ random
          rintro text' (htext | htext)
          · exact h.keys.sessionParts text' (.inl htext)
          · exact ⟨packetId, t, .inr (Option.some.inj htext ▸ hm)⟩
        next => exact hremove
  | ack key packetId =>
      simp only [Session.onReceive]
      split
      next => exact h.removePacket packetId
      next => exact h.noneA
  | nack packetId =>
      simp only [Session.onReceive]
      split
      next =>
        have := (h.startHandshake s.now).restartHandshakeIfNeeded s.now random
        rw [withA_withA] at this
        exact this
      next => exact h.noneA

/-! ### Steps of B that accept and deliver nothing -/

/-- A step of B that leaves the key and the buffers of the reader and sends no new SESSION. -/
structure PlainB (s : Link) (b' : Readers) (answers : List ToA) : Prop where
  keys : b'.keys = s.b.keys
  prevTime : b'.protectionPrevTime = s.b.protectionPrevTime
  delivered : b'.delivered = s.b.delivered
  reader : ∀ r', b'.reader = some r' → ∃ r, s.b.reader = some r ∧ r'.sessionKey = r.sessionKey ∧
    r'.base.protection = r.base.protection
  keyReqParts : ∀ r, b'.candidate = some r → ∀ text,
    r.keyReqPart1 = some text ∨ r.keyReqPart2 = some text → Requested s text
  items : ∀ r, b'.reader = some r ∨ b'.candidate = some r → ∀ item ∈ r.base.retransmitMap,
    ∀ m, item.packet = some m → m ∈ answers ∨ ∃ t, (m, t) ∈ s.toA
  sent : ∀ m ∈ answers, ∀ p text, m = .sessionPart1 p text ∨ m = .sessionPart2 p text → Offered s text

theorem PlainB.offered (hp : PlainB s b' answers) {text : SessionKey}
    (h : Offered (s.withB (b', answers)) text) : Offered s text := by
  obtain ⟨p, t, h⟩ := h
  rw [mem_withB, mem_withB] at h
  rcases h with (h | h) | (h | h)
  · exact ⟨p, t, .inl h⟩
  · exact hp.sent _ h.1 p text (.inl rfl)
  · exact ⟨p, t, .inr h⟩
  · exact hp.sent _ h.1 p text (.inr rfl)

theorem Inv.plainB (h : Inv s) (hp : PlainB s b' answers) : Inv (s.withB (b', answers)) where
  sends := { h.sends with }
  keys := { h.keys with
    sessionKey := fun k hk => hp.keys ▸ h.keys.sessionKey k hk
    offered := fun text ho => hp.keys ▸ h.keys.offered text (hp.offered ho)
    newer := fun hw text ho => h.keys.newer hw text (hp.offered ho)
    sessionParts := fun text hpart => by
      obtain ⟨p, t, ho⟩ := h.keys.sessionParts text hpart
      exact ⟨p, t, ho.imp (fun hm => mem_withB.mpr (.inl hm)) fun hm => mem_withB.mpr (.inl hm)⟩
    keyReqParts := hp.keyReqParts
    answers := fun r hr item hitem m hm => by
      rcases hp.items r hr item hitem m hm with hm | ⟨t, ht⟩
      · exact ⟨s.now, mem_withB.mpr (.inr ⟨hm, rfl⟩)⟩
      · exact ⟨t, mem_withB.mpr (.inl ht)⟩ }
  delivers := {
    reader := fun r' hr' => by
      obtain ⟨r, hr, hkey, -⟩ := hp.reader r' hr'
      rw [hkey, show (s.withB (b', answers)).b.keys = s.b.keys from hp.keys]
      exact h.delivers.reader r hr
    prevTime := hp.prevTime ▸ h.delivers.prevTime
    times := h.delivers.times
    data := fun d hd => hp.keys ▸ h.delivers.data d (hp.delivered ▸ hd)
    noted := fun d hd hk r' hr' => by
      obtain ⟨r, hr, -, hprotection⟩ := hp.reader r' hr'
      have := h.delivers.noted d (hp.delivered ▸ hd) (hp.keys ▸ hk) r hr
      rw [hprotection, show (s.withB (b', answers)).b.protectionPrevTime = _ from hp.prevTime]
      exact this
    old := fun d hd hk => by
      rw [show (s.withB (b', answers)).b.keys = s.b.keys from hp.keys] at hk ⊢
      exact h.delivers.old d (hp.delivered ▸ hd) hk
    recent := fun d hd hk => h.delivers.recent d (hp.delivered ▸ hd) (hp.keys ▸ hk)
    once := by
      have := h.delivers.once
      rw [AtMostOnce, ← hp.delivered] at this
      exact this }

theorem withB_withB (s : Link) (b₁ b₂ : Readers) (answers₁ answers₂ : List ToA) :
    (s.withB (b₁, answers₁)).withB (b₂, answers₂) = s.withB (b₂, answers₁ ++ answers₂) := by
  simp [withB]

theorem Inv.noneB (h : Inv s) : Inv (s.withB (s.b, [])) := by
  simpa [withB] using h

theorem Inv.plainBRefl (h : Inv s) : PlainB s s.b [] where
  keys := rfl
  prevTime := rfl
  delivered := rfl
  reader r hr := ⟨r, hr, rfl, rfl⟩
  keyReqParts := h.keys.keyReqParts
  items r hr item hitem m hm := .inr (h.keys.answers r hr item hitem m hm)
  sent _ hm := by cases hm

/-- A step of B that changes the candidate only, and sends what was not sent as a SESSION. -/
theorem Inv.candidate (h : Inv s) {r : SessionReader} {nextPacketId nonces : ℕ} {answers : List ToA}
    (hparts : ∀ text, r.keyReqPart1 = some text ∨ r.keyReqPart2 = some text → Requested s text)
    (hitems : ∀ item ∈ r.base.retransmitMap, ∀ m, item.packet = some m →
      m ∈ answers ∨ ∃ t, (m, t) ∈ s.toA)
    (hsent : ∀ m ∈ answers, ∀ p text, m ≠ .sessionPart1 p text ∧ m ≠ .sessionPart2 p text) :
    Inv (s.withB ({ s.b with nextPacketId := nextPacketId, nonces := nonces, candidate := some r },
      answers)) :=
  h.plainB { h.plainBRefl with
    keyReqParts := fun r' hr' => by
      obtain rfl := Option.some.inj hr'
      exact hparts
    items := fun r' hr' => by
      rcases hr' with hr' | hr'
      · exact fun item hitem m hm => .inr (h.keys.answers r' (.inl hr') item hitem m hm)
      · obtain rfl := Option.some.inj hr'
        exact hitems
    sent := fun m hm p text htext => by
      rcases htext with htext | htext
      · exact absurd htext (hsent m hm p text).1
      · exact absurd htext (hsent m hm p text).2 }

/-- The candidate of a packet of the handshake holds what was requested and answered. -/
theorem Inv.getOrCreate (h : Inv s) :
    (∀ text, (s.b.getOrCreateCandidate s.now).keyReqPart1 = some text ∨
      (s.b.getOrCreateCandidate s.now).keyReqPart2 = some text → Requested s text) ∧
    ∀ item ∈ (s.b.getOrCreateCandidate s.now).base.retransmitMap, ∀ m, item.packet = some m →
      ∃ t, (m, t) ∈ s.toA := by
  unfold Readers.getOrCreateCandidate
  cases hc : s.b.candidate with
  | none =>
      refine ⟨fun text ht => ?_, (fun _ h => by cases h)⟩
      rcases ht with ht | ht <;> cases ht
  | some r => exact ⟨h.keys.keyReqParts r hc, h.keys.answers r (.inr hc)⟩

/-! ### A new reader -/

/-- B accepts the candidate: the new reader knows no packet, and A retransmits none that was delivered. -/
theorem Inv.accept (h : Inv s) {r : SessionReader} {text : KeyReq} (hreq : Requested s text)
    (hitems : ∀ item ∈ r.base.retransmitMap, ∀ m, item.packet = some m → ∃ t, (m, t) ∈ s.toA)
    (hclean : ∀ d ∈ s.b.delivered, ¬ s.a.base.Retransmits d.packetId) (random : ℕ → ℕ) :
    Inv (s.withB (s.b.accept r text s.now random)) := by
  obtain ⟨b', answers, hb⟩ : ∃ b' answers, s.b.accept r text s.now random = (b', answers) := ⟨_, _, rfl⟩
  have hanswers : ∀ m, m ∈ answers ↔ m = .sessionPart1 s.b.nextPacketId ⟨s.b.keys, text.localNonce⟩ ∨
      m = .sessionPart2 (s.b.nextPacketId + 1) ⟨s.b.keys, text.localNonce⟩ := by
    intro m
    obtain ⟨-, rfl⟩ := Prod.mk.inj hb
    simp
  obtain ⟨rfl, -⟩ := Prod.mk.inj hb
  rw [hb]
  have hdataKey : ∀ {p c t}, Data s p c t → c.key < s.b.keys := by
    intro p c t hd
    obtain ⟨k, hk, hle⟩ := h.keys.data p c t hd
    exact Nat.lt_of_le_of_lt hle (h.keys.sessionKey k hk)
  have hoffered : ∀ {text'}, Offered (s.withB ((s.b.accept r text s.now random).1, answers)) text' →
      Offered s text' ∨ text' = ⟨s.b.keys, text.localNonce⟩ := by
    rintro text' ⟨p, t, ho | ho⟩
    · rcases mem_withB.mp ho with ho | ⟨hm, -⟩
      · exact .inl ⟨p, t, .inl ho⟩
      · rcases (hanswers _).mp hm with hm | hm
        · exact .inr (ToA.sessionPart1.inj hm).2
        · cases hm
    · rcases mem_withB.mp ho with ho | ⟨hm, -⟩
      · exact .inl ⟨p, t, .inr ho⟩
      · rcases (hanswers _).mp hm with hm | hm
        · cases hm
        · exact .inr (ToA.sessionPart2.inj hm).2
  exact {
    sends := { h.sends with }
    keys := { h.keys with
      sessionKey := fun k hk => Nat.lt_succ_of_lt (h.keys.sessionKey k hk)
      offered := fun text' ho => by
        rcases hoffered ho with ho | rfl
        · obtain ⟨hkey, hnonce⟩ := h.keys.offered text' ho
          exact ⟨Nat.lt_succ_of_lt hkey, hnonce⟩
        · exact ⟨Nat.lt_succ_self _, h.keys.requested text hreq⟩
      newer := fun hw text' ho hn k hk => by
        rcases hoffered ho with ho | rfl
        · exact h.keys.newer hw text' ho hn k hk
        · exact h.keys.sessionKey k hk
      sessionParts := fun text' hpart => by
        obtain ⟨p, t, ho⟩ := h.keys.sessionParts text' hpart
        exact ⟨p, t, ho.imp (fun hm => mem_withB.mpr (.inl hm)) fun hm => mem_withB.mpr (.inl hm)⟩
      keyReqParts := fun _ h => by cases h
      answers := fun r' hr' item hitem m hm => by
        obtain rfl := Option.some.inj (hr'.resolve_right (fun h => by cases h))
        rcases items_addPacket hitem with hitem | rfl
        · rcases items_addPacket hitem with hitem | rfl
          · obtain ⟨t, ht⟩ := hitems item hitem m hm
            exact ⟨t, mem_withB.mpr (.inl ht)⟩
          · obtain rfl := Option.some.inj hm
            exact ⟨s.now, mem_withB.mpr (.inr ⟨(hanswers _).mpr (.inl rfl), rfl⟩)⟩
        · obtain rfl := Option.some.inj hm
          exact ⟨s.now, mem_withB.mpr (.inr ⟨(hanswers _).mpr (.inr rfl), rfl⟩)⟩ }
    delivers := {
      reader := fun r' hr' => by
        obtain rfl := Option.some.inj hr'
        exact ⟨_, rfl, rfl⟩
      prevTime := h.delivers.prevTime
      times := h.delivers.times
      data := fun d hd => by
        obtain ⟨hk, hd⟩ := h.delivers.data d hd
        exact ⟨Nat.lt_succ_of_lt hk, hd⟩
      noted := fun d hd hk => absurd (h.delivers.data d hd).1 (by
        have : d.key + 1 = s.b.keys + 1 := hk
        omega)
      old := fun d hd _ => by
        refine ⟨hclean d hd, fun c t hdt hk => ?_⟩
        have := hdataKey hdt
        have : c.key + 1 = s.b.keys + 1 := hk
        omega
      recent := fun d hd hk => absurd (h.delivers.data d hd).1 (by
        have : d.key + 1 = s.b.keys + 1 := hk
        omega)
      once := h.delivers.once } }

theorem Inv.onReceiveKeyReq (h : Inv s) {r : SessionReader}
    (hparts : ∀ text, r.keyReqPart1 = some text ∨ r.keyReqPart2 = some text → Requested s text)
    (hitems : ∀ item ∈ r.base.retransmitMap, ∀ m, item.packet = some m → ∃ t, (m, t) ∈ s.toA)
    (hclean : ∀ text, Readers.Accepts r text →
      ∀ d ∈ s.b.delivered, ¬ s.a.base.Retransmits d.packetId) (random : ℕ → ℕ) :
    Inv (s.withB (s.b.onReceiveKeyReq r s.now random)) := by
  have hnone : Inv (s.withB ({ s.b with candidate := some r }, [])) :=
    h.candidate hparts (fun item hitem m hm => .inr (hitems item hitem m hm)) nofun
  unfold Readers.onReceiveKeyReq
  split
  next text hpart =>
    split
    next haccepts => exact h.accept (hparts text (.inl hpart)) hitems (hclean text haccepts) random
    next => exact hnone
  next => exact hnone

theorem Inv.sendWelcome (h : Inv s) {r : SessionReader} {nonce nonces : ℕ} (random : ℕ → ℕ)
    (hparts : ∀ text, r.keyReqPart1 = some text ∨ r.keyReqPart2 = some text → Requested s text)
    (hitems : ∀ item ∈ r.base.retransmitMap, ∀ m, item.packet = some m → ∃ t, (m, t) ∈ s.toA) :
    Inv (s.withB ({ s.b with nonces := nonces }.sendWelcome r nonce s.now random)) := by
  refine h.candidate hparts ?_ ?_
  · intro item hitem m hm
    rcases items_addPacket hitem with hitem | rfl
    · exact .inr (hitems item (List.mem_filter.mp hitem).1 m hm)
    · obtain rfl := Option.some.inj hm
      exact .inl (.head _)
  · intro m hm p text
    obtain rfl := List.mem_singleton.mp hm
    exact ⟨nofun, nofun⟩

theorem Inv.onReceiveHello (h : Inv s) {r : SessionReader} (random : ℕ → ℕ)
    (hitems : ∀ item ∈ r.base.retransmitMap, ∀ m, item.packet = some m → ∃ t, (m, t) ∈ s.toA) :
    Inv (s.withB (s.b.onReceiveHello r s.now random)) := by
  have hparts : ∀ text : KeyReq, none = some text ∨ none = some text → Requested s text := by
    rintro text (ht | ht) <;> cases ht
  unfold Readers.onReceiveHello
  dsimp only
  split
  next => exact h.sendWelcome random hparts hitems
  next =>
    split
    next => exact h.sendWelcome random hparts hitems
    next => exact h.candidate hparts (fun item hitem m hm => .inr (hitems item hitem m hm)) (by simp)

/-! ### Deliveries -/

theorem note_has (d : DupleProtection) (packetId : ℕ) : packetId ∈ (d.note packetId).buffer0 ∨
    packetId ∈ d.buffer1 := by
  unfold DupleProtection.note
  split
  next hhas => exact hhas
  next => exact .inl (.head _)

theorem note_kept (d : DupleProtection) (packetId p : ℕ) :
    (p ∈ d.buffer0 → p ∈ (d.note packetId).buffer0) ∧ (d.note packetId).buffer1 = d.buffer1 := by
  unfold DupleProtection.note
  split
  next => exact ⟨fun hp => hp, rfl⟩
  next => exact ⟨fun hp => .tail _ hp, rfl⟩

/-- A packet whose id is not in the buffers brings a payload that was not delivered: a packet of this key
    would come too late, and one of an older key is not sent under this one. -/
theorem Inv.new_call (h : Inv s) {p : ℕ} {c : Ciphertext} {t : ℤ} {r : SessionReader}
    (hd : Data s p c t) (ht : s.now ≤ t + maxDelay) (hr : s.b.reader = some r)
    (hkey : r.sessionKey = some c.key) (hnew : ¬ r.base.protection.Has p) :
    ∀ d ∈ s.b.delivered, d.payload.call ≠ c.payload.call := by
  intro d hdel hcall
  obtain ⟨k, hk, hkeys⟩ := h.delivers.reader r hr
  obtain rfl : c.key = k := Option.some.inj (hkey.symm.trans hk)
  obtain ⟨-, -, c₀, t₀, hd₀, hkey₀, hpayload, ht₀⟩ := h.delivers.data d hdel
  obtain rfl : p = d.packetId := (h.sends.carries p c t d.packetId c₀ t₀ hd hd₀).mpr
    (hcall.symm.trans (congrArg Payload.call hpayload.symm))
  by_cases hsame : d.key + 1 = s.b.keys
  · rcases h.delivers.noted d hdel hsame r hr with hp | ⟨hp, -⟩ | hlate
    · exact hnew (.inl hp)
    · exact hnew (.inr hp)
    · have hrecent := h.delivers.recent d hdel hsame c t hd (by omega)
      have hprev := h.delivers.prevTime
      rw [resendPeriod] at hrecent
      omega
  · exact (h.delivers.old d hdel hsame).2 c t hd hkeys

theorem Inv.deliver (h : Inv s) {p : ℕ} {c : Ciphertext} {t : ℤ} {r : SessionReader}
    (hd : Data s p c t) (ht : s.now ≤ t + maxDelay) (hr : s.b.reader = some r)
    (hkey : r.sessionKey = some c.key) (hnew : ¬ r.base.protection.Has p) :
    Inv (s.withB ({ s.b with
      reader := some (r.note p)
      delivered := ⟨c.payload, p, c.key, s.now⟩ :: s.b.delivered }, [.ack c.key p])) := by
  obtain ⟨k, hk, hkeys⟩ := h.delivers.reader r hr
  obtain rfl : c.key = k := Option.some.inj (hkey.symm.trans hk)
  have hsilent : Inv (s.withB ({ s.b with reader := some r }, [.ack c.key p])) :=
    h.plainB { h.plainBRefl with
      reader := fun r' hr' => ⟨r, hr, by rw [← Option.some.inj hr'], by rw [← Option.some.inj hr']⟩
      items := fun r' hr' item hitem m hm =>
        .inr (h.keys.answers r' (hr'.imp_left fun hr' => hr.trans hr') item hitem m hm)
      sent := fun m hm p' text htext => by
        obtain rfl := List.mem_singleton.mp hm
        rcases htext with htext | htext <;> cases htext }
  exact {
    sends := { hsilent.sends with }
    keys := { hsilent.keys with
      answers := fun r' hr' item hitem m hm => by
        rcases hr' with hr' | hr'
        · obtain rfl := Option.some.inj hr'
          exact hsilent.keys.answers r (.inl rfl) item hitem m hm
        · exact hsilent.keys.answers r' (.inr hr') item hitem m hm }
    delivers := { hsilent.delivers with
      reader := fun r' hr' => by
        obtain rfl := Option.some.inj hr'
        exact ⟨_, hk, hkeys⟩
      data := fun d hdel => by
        rcases List.mem_cons.mp hdel with rfl | hdel
        · have hle := h.delivers.times _ t hd
          have : c.key < s.b.keys := by omega
          exact ⟨this, Int.le_refl _, c, t, hd, rfl, rfl, hle⟩
        · exact h.delivers.data d hdel
      noted := fun d hdel hdkey r' hr' => by
        obtain rfl := Option.some.inj hr'
        obtain ⟨hkept, hbuffer1⟩ := note_kept r.base.protection p d.packetId
        rcases List.mem_cons.mp hdel with rfl | hdel
        · exact .inl ((note_has _ p).resolve_right fun hp => hnew (.inr hp))
        · rcases h.delivers.noted d hdel hdkey r hr with hp | ⟨hp, hle⟩ | hlate
          · exact .inl (hkept hp)
          · exact .inr (.inl ⟨hbuffer1 ▸ hp, hle⟩)
          · exact .inr (.inr hlate)
      old := fun d hdel hdkey => by
        rcases List.mem_cons.mp hdel with rfl | hdel
        · exact absurd hkeys hdkey
        · exact h.delivers.old d hdel hdkey
      recent := fun d hdel hdkey c' t' hdt hsame => by
        rcases List.mem_cons.mp hdel with rfl | hdel
        · exact Int.lt_of_le_of_lt (h.delivers.times _ t' hdt) (Int.lt_add_of_pos_right _ (by decide))
        · exact h.delivers.recent d hdel hdkey c' t' hdt hsame
      once := by
        refine List.nodup_cons.mpr ⟨fun hcall => ?_, h.delivers.once⟩
        obtain ⟨d, hdel, hcall⟩ := List.mem_map.mp hcall
        exact h.new_call hd ht hr hkey hnew d hdel hcall } }

/-- A packet of data for which B has no new delivery. -/
theorem Inv.answer (h : Inv s) {m : ToA} (hm : ∀ p text, m ≠ .sessionPart1 p text ∧ m ≠ .sessionPart2 p text) :
    Inv (s.withB (s.b, [m])) :=
  h.plainB { h.plainBRefl with
    items := fun r hr item hitem m' hm' => .inr (h.keys.answers r hr item hitem m' hm')
    sent := fun m' hm' p text htext => by
      obtain rfl := List.mem_singleton.mp hm'
      rcases htext with htext | htext
      · exact absurd htext (hm p text).1
      · exact absurd htext (hm p text).2 }

theorem Inv.onReceiveData (h : Inv s) {p : ℕ} {c : Ciphertext} {t : ℤ} (hd : Data s p c t)
    (ht : s.now ≤ t + maxDelay) : Inv (s.withB (s.b.onReceiveData p c s.now)) := by
  have hnack : Inv (s.withB (s.b, [.nack p])) := h.answer fun _ _ => ⟨nofun, nofun⟩
  have hack : Inv (s.withB (s.b, [.ack c.key p])) := h.answer fun _ _ => ⟨nofun, nofun⟩
  unfold Readers.onReceiveData
  split
  next => exact hnack
  next r hr =>
    split
    next hkey =>
      split
      next =>
        split
        next => exact hack
        next hnew => exact h.deliver hd ht hr hkey hnew
      next => exact hnack
    next => exact hnack

/-! ### Steps of B -/

theorem Inv.receiveB (h : Inv s) {m : ToB} {t : ℤ} (hm : (m, t) ∈ s.toB) (ht : s.now ≤ t + maxDelay)
    (hclean : Accepting s.b s.now m → ∀ d ∈ s.b.delivered, ¬ s.a.base.Retransmits d.packetId)
    (random : ℕ → ℕ) : Inv (s.withB (s.b.onReceive s.now random m)) := by
  obtain ⟨hparts, hitems⟩ := h.getOrCreate
  have hcandidate : Inv (s.withB ({ s.b with candidate := some (s.b.getOrCreateCandidate s.now) }, [])) :=
    h.candidate hparts (fun item hitem m hm => .inr (hitems item hitem m hm)) nofun
  have hremoved : ∀ packetId, ∀ item ∈
      ((s.b.getOrCreateCandidate s.now).note packetId).base.removeHandshakePackets.retransmitMap,
      ∀ m, item.packet = some m → ∃ t, (m, t) ∈ s.toA :=
    fun packetId item hitem => hitems item (List.mem_filter.mp hitem).1
  cases m with
  | hello packetId =>
      simp only [Readers.onReceive]
      split
      next => exact hcandidate
      next => exact h.onReceiveHello random hitems
  | keyReqPart1 packetId text =>
      simp only [Readers.onReceive]
      split
      next => exact hcandidate
      next hnew =>
        refine h.onReceiveKeyReq ?_ (hremoved packetId) ?_ random
        · rintro text' (htext | htext)
          · exact ⟨packetId, t, .inl (Option.some.inj htext ▸ hm)⟩
          · exact hparts text' (.inr htext)
        · intro text' haccepts
          obtain rfl := Option.some.inj haccepts.1
          exact hclean ⟨hnew, haccepts⟩
  | keyReqPart2 packetId sign =>
      simp only [Readers.onReceive]
      split
      next => exact hcandidate
      next hnew =>
        refine h.onReceiveKeyReq ?_ (hremoved packetId) ?_ random
        · rintro text' (htext | htext)
          · exact hparts text' (.inl htext)
          · exact ⟨packetId, t, .inr (Option.some.inj htext ▸ hm)⟩
        · intro text' haccepts
          obtain rfl := Option.some.inj haccepts.2.1
          exact hclean ⟨hnew, haccepts⟩
  | sessionAck packetId =>
      refine h.plainB { h.plainBRefl with
        reader := fun r' hr' => ?_
        items := fun r' hr' item hitem m hm' => ?_ }
      · obtain ⟨r, hr, rfl⟩ := Option.map_eq_some_iff.mp hr'
        exact ⟨r, hr, rfl, rfl⟩
      · rcases hr' with hr' | hr'
        · obtain ⟨r, hr, rfl⟩ := Option.map_eq_some_iff.mp hr'
          exact .inr (h.keys.answers r (.inl hr) item (List.mem_filter.mp hitem).1 m hm')
        · exact .inr (h.keys.answers r' (.inr hr') item hitem m hm')
  | data packetId content => exact h.onReceiveData hm ht

/-- A reader is always in a handshake: the pulse leaves its key, its buffers and the parts of a KEY_REQ,
    and what it sends was sent before. -/
theorem pulseReader_cases (now : ℤ) (random : ℕ → ℕ) (reader : Option SessionReader) :
    (∀ r', (Readers.pulseReader now random reader).1 = some r' → ∃ r, reader = some r ∧
      r' = { r with base := r'.base } ∧ r'.base.protection = r.base.protection ∧
      ∀ item' ∈ r'.base.retransmitMap, ∃ item ∈ r.base.retransmitMap, item'.packet = item.packet) ∧
    ∀ m ∈ (Readers.pulseReader now random reader).2, ∃ r, reader = some r ∧
      ∃ item ∈ r.base.retransmitMap, item.packet = some m := by
  cases reader with
  | none => exact ⟨(fun _ h => by cases h), (fun _ h => by cases h)⟩
  | some r =>
      refine ⟨fun r' hr' => ?_, fun m hm => ?_⟩
      · obtain rfl := Option.some.inj hr'
        refine ⟨r, rfl, rfl, rfl, fun item' hitem' => ?_⟩
        obtain ⟨item, hitem, hsome⟩ := List.mem_filterMap.mp hitem'
        obtain ⟨-, -, ⟨hpacket, -⟩ | ⟨-, hnone, -⟩⟩ := (pulseItem_cases none now random item).1 item' hsome
        · exact ⟨item, hitem, hpacket⟩
        · cases hnone
      · obtain ⟨item, hitem, hm⟩ := List.mem_flatMap.mp hm
        obtain ⟨-, ⟨-, -, hpacket⟩ | ⟨packetOf, x, hnone, -⟩⟩ := (pulseItem_cases none now random item).2 m hm
        · exact ⟨r, rfl, item, hitem, hpacket⟩
        · cases hnone

theorem Inv.pulseReaders (h : Inv s) (random : ℕ → ℕ) : Inv (s.withB ({ s.b with
    reader := (Readers.pulseReader s.now random s.b.reader).1
    candidate := (Readers.pulseReader s.now random s.b.candidate).1 },
    (Readers.pulseReader s.now random s.b.reader).2 ++ (Readers.pulseReader s.now random s.b.candidate).2)) := by
  obtain ⟨hreader, hsent⟩ := pulseReader_cases s.now random s.b.reader
  obtain ⟨hcandidate, hsent'⟩ := pulseReader_cases s.now random s.b.candidate
  refine h.plainB { h.plainBRefl with
    reader := fun r' hr' => ?_
    keyReqParts := fun r' hr' text htext => ?_
    items := fun r' hr' item' hitem' m hm => ?_
    sent := fun m hm p text htext => ?_ }
  · obtain ⟨r, hr, hbase, hprotection, -⟩ := hreader r' hr'
    exact ⟨r, hr, by rw [hbase], hprotection⟩
  · obtain ⟨r, hr, hbase, -⟩ := hcandidate r' hr'
    rw [hbase] at htext
    exact h.keys.keyReqParts r hr text htext
  · rcases hr' with hr' | hr'
    · obtain ⟨r, hr, -, -, hitems⟩ := hreader r' hr'
      obtain ⟨item, hitem, hpacket⟩ := hitems item' hitem'
      exact .inr (h.keys.answers r (.inl hr) item hitem m (hpacket ▸ hm))
    · obtain ⟨r, hr, -, -, hitems⟩ := hcandidate r' hr'
      obtain ⟨item, hitem, hpacket⟩ := hitems item' hitem'
      exact .inr (h.keys.answers r (.inr hr) item hitem m (hpacket ▸ hm))
  · have hbefore : ∃ t, (m, t) ∈ s.toA := by
      rcases List.mem_append.mp hm with hm | hm
      · obtain ⟨r, hr, item, hitem, hpacket⟩ := hsent m hm
        exact h.keys.answers r (.inl hr) item hitem m hpacket
      · obtain ⟨r, hr, item, hitem, hpacket⟩ := hsent' m hm
        exact h.keys.answers r (.inr hr) item hitem m hpacket
    obtain ⟨t, ht⟩ := hbefore
    refine ⟨p, t, ?_⟩
    rcases htext with rfl | rfl
    · exact .inl ht
    · exact .inr ht

/-- The timer clears the oldest buffers: what was in them came more than a period ago. -/
theorem Inv.clearOldestBuffers (h : Inv s) (hdue : dupleProtectionPeriod ≤ s.now - s.b.protectionPrevTime) :
    Inv (s.withB ({ s.b with
      reader := s.b.reader.map .clearOldestBuffer
      candidate := s.b.candidate.map .clearOldestBuffer
      protectionPrevTime := s.now }, [])) := by
  have hnone := h.noneB
  exact {
    sends := { hnone.sends with }
    keys := { hnone.keys with
      keyReqParts := fun r' hr' => by
        obtain ⟨r, hr, rfl⟩ := Option.map_eq_some_iff.mp hr'
        exact hnone.keys.keyReqParts r hr
      answers := fun r' hr' => by
        rcases hr' with hr' | hr'
        · obtain ⟨r, hr, rfl⟩ := Option.map_eq_some_iff.mp hr'
          exact hnone.keys.answers r (.inl hr)
        · obtain ⟨r, hr, rfl⟩ := Option.map_eq_some_iff.mp hr'
          exact hnone.keys.answers r (.inr hr) }
    delivers := { hnone.delivers with
      reader := fun r' hr' => by
        obtain ⟨r, hr, rfl⟩ := Option.map_eq_some_iff.mp hr'
        exact h.delivers.reader r hr
      prevTime := Int.le_refl _
      noted := fun d hd hkey r' hr' => by
        obtain ⟨r, hr, rfl⟩ := Option.map_eq_some_iff.mp hr'
        have hle : d.time ≤ s.now := (h.delivers.data d hd).2.1
        have hprev := h.delivers.prevTime
        rcases h.delivers.noted d hd hkey r hr with hp | ⟨-, htime⟩ | hlate
        · exact .inr (.inl ⟨hp, hle⟩)
        · refine .inr (.inr ?_)
          change d.time + dupleProtectionPeriod ≤ s.now
          omega
        · refine .inr (.inr ?_)
          change d.time + dupleProtectionPeriod ≤ s.now
          omega } }

theorem Inv.timerB (h : Inv s) (random : ℕ → ℕ) : Inv (s.withB (s.b.timer s.now random)) := by
  have hpulse := h.pulseReaders random
  unfold Readers.timer
  dsimp only
  split
  next hdue =>
    have hclear := hpulse.clearOldestBuffers hdue
    rw [withB_withB, List.append_nil] at hclear
    exact hclear
  next => exact hpulse

/-! ### Runs -/

theorem Inv.wait (h : Inv s) (millis : ℕ) : Inv { s with now := s.now + millis } where
  sends := { h.sends with }
  keys := { h.keys with }
  delivers := { h.delivers with
    prevTime := Int.le_trans h.delivers.prevTime (by
      change s.now ≤ s.now + millis
      omega)
    times := fun m t hm => Int.le_trans (h.delivers.times m t hm) (by
      change s.now ≤ s.now + millis
      omega)
    data := fun d hd => by
      obtain ⟨hkey, htime, hdata⟩ := h.delivers.data d hd
      refine ⟨hkey, ?_, hdata⟩
      change d.time ≤ s.now + millis
      omega }

theorem step_inv {s' : Link} {action : Action} (h : Inv s) (hclean : Clean s action)
    (hs : step s action = some s') : Inv s' := by
  cases action with
  | send bytes => exact Option.some.inj hs ▸ h.send bytes
  | sender random => exact Option.some.inj hs ▸ h.senderStep random
  | timerA random => exact Option.some.inj hs ▸ h.timerA hclean
  | timerB random => exact Option.some.inj hs ▸ h.timerB random
  | receiveB i random =>
      simp only [step] at hs
      split at hs
      next packet time hpacket =>
        split at hs
        next htime =>
          exact Option.some.inj hs ▸ h.receiveB (List.mem_of_getElem? hpacket) htime
            (hclean packet time hpacket) random
        next => cases hs
      next => cases hs
  | receiveA i random =>
      simp only [step] at hs
      split at hs
      next packet time hpacket =>
        split at hs
        next => exact Option.some.inj hs ▸ h.receiveA (List.mem_of_getElem? hpacket) random
        next => cases hs
      next => cases hs
  | wait millis => exact Option.some.inj hs ▸ h.wait millis

theorem start_inv (now : ℤ) (packetIdA packetIdB : ℕ) : Inv (Link.new now packetIdA packetIdB) where
  sends := {
    ids := List.nodup_nil
    packetId := fun _ _ _ h => by cases h
    sent := fun _ h => by cases h
    payload := fun _ h => by cases h
    handshake := fun _ h => by cases h
    carries := by
      intros
      contradiction
    nodup := List.nodup_nil
    calls := fun _ h => by cases h
    unsent := fun _ _ _ h => by cases h
    transmits := fun _ _ h => by cases h }
  keys := {
    exchanging := fun h => by cases h
    sessionKey := fun _ h => by cases h
    data := fun _ _ _ h => by cases h
    transmits := fun _ _ h => by cases h
    nullified := fun h => by cases h
    nonce := Nat.zero_lt_one
    requested := by
      rintro text ⟨p, t, h | h⟩ <;> cases h
    offered := by
      rintro text ⟨p, t, h | h⟩ <;> cases h
    newer := by
      intros
      contradiction
    sessionParts := by
      rintro text (h | h) <;> cases h
    keyReqParts := fun _ h => by cases h
    answers := by
      rintro r (h | h) <;> cases h }
  delivers := {
    reader := fun _ h => by cases h
    prevTime := Int.le_refl _
    times := fun _ _ h => by cases h
    data := fun _ h => by cases h
    noted := fun _ h => by cases h
    old := fun _ h => by cases h
    recent := fun _ h => by cases h
    once := List.nodup_nil }

/-- AT MOST ONCE (in runs that do not meet the resets): where B accepts no candidate while A retransmits a
    packet that was delivered, and A retransmits no packet of a session that was delivered so long ago that
    B may have forgotten it, no payload of a call of `send` comes to `receiveCallback` twice, whatever
    datagrams are lost, doubled, delayed or reordered. -/
theorem delivered_at_most_once (now : ℤ) (packetIdA packetIdB : ℕ) (as : List Action) (s : Link)
    (hclean : Run.Meets step Clean (.new now packetIdA packetIdB) as)
    (hrun : Run.run step (.new now packetIdA packetIdB) as = some s) : AtMostOnce s :=
  (Run.invariant (fun _ _ _ => step_inv) (start_inv now packetIdA packetIdB) hclean hrun).delivers.once

/-- The random numbers of these runs. -/
def zero : ℕ → ℕ := fun _ => 0

/-- A handshake, a payload, and its packet twice. -/
def handshakeAndData : List Action :=
  [.timerA zero, .receiveB 0 zero, .receiveA 0 zero, .receiveB 1 zero, .receiveB 2 zero,
    .receiveA 1 zero, .receiveA 2 zero, .send [1], .sender zero, .sender zero, .sender zero, .sender zero,
    .receiveB 4 zero, .receiveB 4 zero]

/-- B may accept any candidate while it has delivered nothing. -/
theorem clean_of_new {i : ℕ} (random : ℕ → ℕ) (h : s.b.delivered.isEmpty = true) :
    Clean s (.receiveB i random) := by
  intro packet time _ _ d hd
  rw [List.isEmpty_iff.mp h] at hd
  cases hd

/-- Data does not make B accept a candidate. -/
theorem clean_of_data {i p : ℕ} {c : Ciphertext} {t : ℤ} (random : ℕ → ℕ)
    (h : s.toB[i]? = some (.data p c, t)) : Clean s (.receiveB i random) := by
  intro packet time hpacket haccepting
  obtain ⟨rfl, -⟩ := Prod.mk.inj (Option.some.inj (h.symm.trans hpacket))
  exact haccepting.elim

theorem delivered_handshakeAndData : ∃ s, Run.run step (Link.new 0 1 1) handshakeAndData = some s ∧
    s.b.delivered.length = 1 ∧ AtMostOnce s := by
  refine ⟨_, rfl, rfl, delivered_at_most_once 0 1 1 handshakeAndData _ ?_ rfl⟩
  -- The handshake.
  refine Run.meets_cons nofun rfl (Run.meets_cons (clean_of_new zero rfl) rfl ?_)
  refine Run.meets_cons trivial rfl (Run.meets_cons (clean_of_new zero rfl) rfl ?_)
  refine Run.meets_cons (clean_of_new zero rfl) rfl (Run.meets_cons trivial rfl ?_)
  refine Run.meets_cons trivial rfl ?_
  -- The payload goes through the sender thread.
  refine Run.meets_cons trivial rfl (Run.meets_cons trivial rfl ?_)
  refine Run.meets_cons trivial rfl (Run.meets_cons trivial rfl ?_)
  refine Run.meets_cons trivial rfl ?_
  -- Its packet, and a copy.
  exact Run.meets_cons (clean_of_data zero rfl) rfl (Run.meets_cons (clean_of_data zero rfl) rfl trivial)

/-- A payload is delivered and its ACK is lost; an empty payload makes B answer with a NACK, and after the
    new handshake the first packet comes again. -/
def ackLost : List Action :=
  [.timerA zero, .receiveB 0 zero, .receiveA 0 zero, .receiveB 1 zero, .receiveB 2 zero,
    .receiveA 1 zero, .receiveA 2 zero, .send [1], .sender zero, .sender zero, .sender zero, .sender zero,
    .receiveB 4 zero, .wait 10000, .send [], .sender zero, .sender zero, .sender zero, .sender zero,
    .receiveB 5 zero, .receiveA 4 zero, .receiveB 6 zero, .receiveA 5 zero, .receiveB 7 zero,
    .receiveB 8 zero, .wait 1, .receiveA 6 zero, .receiveA 7 zero, .receiveB 10 zero]

theorem delivered_twice : ∃ s, Run.run step (Link.new 0 1 1) ackLost = some s ∧ ¬ AtMostOnce s := by
  have hend : (Run.run step (Link.new 0 1 1) ackLost).map (fun s => s.b.delivered.map (·.payload.call)) =
      some [0, 0] := rfl
  obtain ⟨s, hs, hend⟩ := Option.map_eq_some_iff.mp hend
  refine ⟨s, hs, ?_⟩
  rw [AtMostOnce, hend]
  decide

end Link
end Universa.Network
