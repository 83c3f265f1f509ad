import Universa.Contracts.ContractDelta
import Universa.Js.Object
import Universa.Lib.Run
import Universa.Services.NameTables

/-! What a follower contract tracks and the keys of its callbacks (`followerContract.js`): two maps, from origins
    to URLs and from URLs to keys, how they are saved to the state and read from it, and the check of them.

    `trackingOrigins` is a `GenericMap`, which has two maps for the keys and the values under the `stringId` of the
    key, for a `HashId` its base64. Both get and lose the same keys, so that one map is enough here; but
    `Object.values` of it are these two maps and not the URLs, which is where the check goes wrong. -/

namespace Universa.Services.FollowerCallbacks
open Universa.Lib Universa.Js Universa.Contracts

variable {K B E : Type}

/-! ### The contract -/

/-- `crypto.PublicKey`: what `packed` answers, and `new crypto.PublicKey(packedKey)`, which can throw. -/
structure PublicKeys (K B : Type) where
  packed : K → B
  unpack : B → Option K

/-- The fields of `state.data` that belong to the follower. -/
structure StateData (B : Type) where
  paid_U : Option ℚ
  callback_rate : Option ℚ
  prepaid_OD : Option ℚ
  tracking_origins : Option (OrderedMap String String)
  callback_keys : Option (OrderedMap String B)

/-- `FollowerContract`. -/
structure FollowerContract (K B : Type) where
  extendedType : Option String
  data : StateData B
  paidU : ℚ
  callbackRate : Option ℚ
  prepaidOriginDays : ℚ
  trackingOrigins : OrderedMap HashId String
  callbackKeys : OrderedMap String K
  errors : List ErrorRecord

namespace FollowerContract

/-- `new FollowerContract()`, with the definition and the state of a contract. -/
def new (extendedType : Option String) (data : StateData B) : FollowerContract K B where
  extendedType := extendedType
  data := data
  paidU := 0
  callbackRate := some 0
  prepaidOriginDays := 0
  trackingOrigins := .empty
  callbackKeys := .empty
  errors := []

/-- `putTrackingOrigin(origin, URL, key)`. -/
def putTrackingOrigin (origin : HashId) (URL : String) (key : K) (c : FollowerContract K B) : FollowerContract K B :=
  { c with
    trackingOrigins := c.trackingOrigins.set origin URL
    callbackKeys := c.callbackKeys.set URL key }

/-- `removeTrackingOrigin(origin)`. -/
def removeTrackingOrigin (origin : HashId) (c : FollowerContract K B) : FollowerContract K B :=
  match c.trackingOrigins.get? origin with
  | none => c
  | some URL =>
      let trackingOrigins := c.trackingOrigins.delete origin
      if URL ∈ trackingOrigins.values then { c with trackingOrigins }
      else { c with trackingOrigins, callbackKeys := c.callbackKeys.delete URL }

/-- `isCallbackURLUsed(URL)`. -/
def isCallbackURLUsed (c : FollowerContract K B) (URL : String) : Bool := c.callbackKeys.has URL

/-- `updateCallbackKey(URL, key)`. -/
def updateCallbackKey (URL : String) (key : K) (c : FollowerContract K B) : Bool × FollowerContract K B :=
  if c.callbackKeys.has URL then (true, { c with callbackKeys := c.callbackKeys.set URL key }) else (false, c)

/-- `saveTrackingOriginsToState()`; a base64 text is not `__proto__`. -/
def saveTrackingOriginsToState (crypto : PublicKeys K B) (c : FollowerContract K B) : FollowerContract K B :=
  let origins := c.trackingOrigins.entries.foldl (fun o e => o.set e.1.base64 e.2) OrderedMap.empty
  let callbacks := c.callbackKeys.entries.foldl (fun o e => assignProperty o e.1 (crypto.packed e.2)) OrderedMap.empty
  { c with data := { c.data with tracking_origins := some origins, callback_keys := some callbacks } }

/-- The loop of `deserializeForFollower` over the keys. -/
def readKeys (crypto : PublicKeys K B) : List (String × B) → OrderedMap String K → Option (OrderedMap String K)
  | [], callbackKeys => some callbackKeys
  | (URL, packedKey) :: es, callbackKeys => do
      let key ← crypto.unpack packedKey
      readKeys crypto es (callbackKeys.set URL key)

/-- The loop of `deserializeForFollower` over the origins: those with a key. -/
def readOrigins (callbackKeys : OrderedMap String K) (es : List (String × String))
    (trackingOrigins : OrderedMap HashId String) : OrderedMap HashId String :=
  es.foldl (fun m e => if callbackKeys.has e.2 then m.set ⟨e.1⟩ e.2 else m) trackingOrigins

/-- `deserializeForFollower()`. -/
def deserializeForFollower (crypto : PublicKeys K B) (c : FollowerContract K B) : Option (FollowerContract K B) := do
  let callbacksData ← c.data.callback_keys
  let callbackKeys ← readKeys crypto (objectEntries callbacksData) c.callbackKeys
  let trackingOriginsAsBase64 ← c.data.tracking_origins
  return { c with
    paidU := c.data.paid_U.getD 0
    callbackRate := c.data.callback_rate
    prepaidOriginDays := c.data.prepaid_OD.getD 0
    callbackKeys
    trackingOrigins := readOrigins callbackKeys (objectEntries trackingOriginsAsBase64) c.trackingOrigins }

/-- What is saved is read into a fresh contract. -/
def reload (crypto : PublicKeys K B) (c : FollowerContract K B) : Option (FollowerContract K B) :=
  deserializeForFollower crypto (.new c.extendedType (saveTrackingOriginsToState crypto c).data)

/-! ### The check -/

/-- A field of a `GenericMap`. -/
inductive OwnField where
  | genKeys (keys : List HashId)
  | genValues (values : List String)

/-- `Object.values(this.trackingOrigins)`. -/
def ownValues (m : OrderedMap HashId String) : List OwnField := [.genKeys m.keys, .genValues m.values]

/-- `this.callbackKeys.has(URL)` for a value that is a map: every key is a text. -/
def hasKeyOf (_callbackKeys : OrderedMap String K) : OwnField → Bool
  | .genKeys _ | .genValues _ => false

/-- `this.errors.push(new ErrorRecord(Errors.FAILED_CHECK, objectName, message))` and `return false`. -/
def fail (c : FollowerContract K B) (objectName message : String) : Bool × FollowerContract K B :=
  (false, { c with errors := c.errors ++ [⟨.FAILED_CHECK, objectName, message⟩] })

/-- `additionallyFollowerCheck(ime)`. -/
def additionallyFollowerCheck (ime : Option E) (c : FollowerContract K B) : Bool × FollowerContract K B :=
  if ime.isNone then c.fail "" "Environment should be not null"
  else if c.extendedType ≠ some "FOLLOWER1" then
    c.fail "definition.extended_type"
      ("illegal value, should be FOLLOWER1 instead " ++ c.extendedType.getD "undefined")
  else if c.trackingOrigins.size = 0 then c.fail "" "Tracking origin is missed"
  else if (ownValues c.trackingOrigins).any fun URL => !hasKeyOf c.callbackKeys URL then
    c.fail "" "Callback key for tracking origin is missed"
  else (true, c)

end FollowerContract

/-! ### Runs -/

/-- What is done with a contract. -/
inductive Action (K : Type) where
  | putTrackingOrigin (origin : HashId) (URL : String) (key : K)
  | removeTrackingOrigin (origin : HashId)
  | updateCallbackKey (URL : String) (key : K)
  | reload

/-- The contract after an action. -/
def step (crypto : PublicKeys K B) (c : FollowerContract K B) : Action K → Option (FollowerContract K B)
  | .putTrackingOrigin origin URL key => some (c.putTrackingOrigin origin URL key)
  | .removeTrackingOrigin origin => some (c.removeTrackingOrigin origin)
  | .updateCallbackKey URL key => some (c.updateCallbackKey URL key).2
  | .reload => c.reload crypto

/-- Every URL of an origin has a key. -/
def FollowerContract.Keyed (c : FollowerContract K B) : Prop :=
  ∀ origin URL, c.trackingOrigins.get? origin = some URL → c.callbackKeys.has URL = true

/-- The two maps agree, and a saved and restored contract has the same ones. -/
structure FollowerContract.Linked (crypto : PublicKeys K B) (c : FollowerContract K B) : Prop where
  restored : ∃ c', c.reload crypto = some c' ∧
    (∀ origin, c'.trackingOrigins.get? origin = c.trackingOrigins.get? origin) ∧
    ∀ URL, c'.callbackKeys.get? URL = c.callbackKeys.get? URL
  used : ∀ URL, c.isCallbackURLUsed URL = true ↔ ∃ origin, c.trackingOrigins.get? origin = some URL
  keyed : c.Keyed

/-- The contract has an origin and the right type. -/
def FollowerContract.Complete (c : FollowerContract K B) : Prop :=
  c.trackingOrigins.size ≠ 0 ∧ c.extendedType = some "FOLLOWER1"

/-- The condition: what is put leaves no URL without an origin, and is not under the one name that an object cannot
    have. -/
def Fits (c : FollowerContract K B) : Action K → Prop
  | .putTrackingOrigin origin URL _ => URL ≠ "__proto__" ∧
      ∀ old, c.trackingOrigins.get? origin = some old → old = URL ∨
        ∃ other, other ≠ origin ∧ c.trackingOrigins.get? other = some old
  | .removeTrackingOrigin _ | .updateCallbackKey .. | .reload => True

/-! ### Saving and reading -/

theorem readKeys_spec {crypto : PublicKeys K B} {es : List (String × B)} (hes : (es.map Prod.fst).Nodup)
    (hall : ∀ e ∈ es, ∃ key, crypto.unpack e.2 = some key) (m : OrderedMap String K) :
    ∃ m', FollowerContract.readKeys crypto es m = some m' ∧
      ∀ URL, m'.get? URL = ((es.lookup URL).bind crypto.unpack).or (m.get? URL) := by
  induction es generalizing m with
  | nil => exact ⟨m, rfl, fun URL => rfl⟩
  | cons e es ih =>
    obtain ⟨i, b⟩ := e
    obtain ⟨hi, hes⟩ := List.nodup_cons.mp hes
    obtain ⟨key, hkey⟩ := hall (i, b) (List.mem_cons_self ..)
    obtain ⟨m', hm', hget⟩ := ih hes (fun e he => hall e (List.mem_cons_of_mem _ he)) (m.set i key)
    refine ⟨m', by rw [FollowerContract.readKeys, hkey]; exact hm', fun URL => ?_⟩
    rw [hget, OrderedMap.get?_set, List.lookup_cons]
    by_cases hURL : URL = i
    · subst hURL
      simp [OrderedMap.lookup_eq_none hi, hkey]
    · have hbeq : (URL == i) = false := by simpa using hURL
      simp [hURL, hbeq]

/-- The saved origins. -/
theorem saved_origins (crypto : PublicKeys K B) (c : FollowerContract K B) :
    ∃ o, (c.saveTrackingOriginsToState crypto).data.tracking_origins = some o ∧
      ∀ origin, o.get? origin.base64 = c.trackingOrigins.get? origin := by
  have hkey : Function.Injective HashId.base64 := fun a b h => by cases a; cases b; exact congrArg _ h
  refine ⟨_, rfl, fun origin => ?_⟩
  refine (OrderedMap.get?_foldl hkey (fun _ URL => some URL) (fun m e k => ?_) c.trackingOrigins.nodup .empty
    origin).trans ?_
  · rw [OrderedMap.get?_set]
    rfl
  · simp [OrderedMap.get?, OrderedMap.empty]

/-- The saved keys; an object has no key `__proto__`. -/
theorem saved_keys (crypto : PublicKeys K B) (c : FollowerContract K B) :
    ∃ o, (c.saveTrackingOriginsToState crypto).data.callback_keys = some o ∧
      ∀ URL, o.get? URL = if URL = "__proto__" then none else (c.callbackKeys.get? URL).map crypto.packed := by
  refine ⟨_, rfl, fun URL => ?_⟩
  refine (OrderedMap.get?_foldl Function.injective_id
    (fun URL key => if URL = "__proto__" then none else some (crypto.packed key)) (fun m e k => ?_)
    c.callbackKeys.nodup .empty URL).trans ?_
  · rw [assignProperty]
    split
    · simp
    · rw [OrderedMap.get?_set]
      rfl
  · by_cases hURL : URL = "__proto__"
    · simp [hURL, OrderedMap.empty, OrderedMap.get?]
    · cases hget : c.callbackKeys.entries.lookup URL <;> simp [hURL, hget, OrderedMap.get?, OrderedMap.empty]

theorem readOrigins_spec (callbackKeys : OrderedMap String K) (o : OrderedMap String String) (origin : HashId) :
    (FollowerContract.readOrigins callbackKeys (objectEntries o) .empty).get? origin =
      (o.get? origin.base64).filter callbackKeys.has := by
  have hkey : Function.Injective HashId.mk := fun a b h => HashId.mk.inj h
  rw [FollowerContract.readOrigins, ← lookup_objectEntries]
  refine (OrderedMap.get?_foldl hkey (fun _ URL => if callbackKeys.has URL then some URL else none)
    (fun m e k => ?_) (nodup_objectEntries o) .empty origin.base64).trans ?_
  · split
    · rw [OrderedMap.get?_set]
      rfl
    · simp
  · cases (objectEntries o).lookup origin.base64 <;> simp [Option.filter]

/-- What a saved contract is read as. -/
theorem reload_spec {crypto : PublicKeys K B} (hcrypto : ∀ key, crypto.unpack (crypto.packed key) = some key)
    (c : FollowerContract K B) : ∃ c', c.reload crypto = some c' ∧ c'.extendedType = c.extendedType ∧
      (∀ URL, c'.callbackKeys.get? URL = if URL = "__proto__" then none else c.callbackKeys.get? URL) ∧
      ∀ origin, c'.trackingOrigins.get? origin = (c.trackingOrigins.get? origin).filter c'.callbackKeys.has := by
  obtain ⟨origins, horigins, hgetOrigins⟩ := saved_origins crypto c
  obtain ⟨callbacks, hcallbacks, hgetCallbacks⟩ := saved_keys crypto c
  have hall : ∀ e ∈ objectEntries callbacks, ∃ key, crypto.unpack e.2 = some key := by
    rintro ⟨URL, b⟩ he
    have hget := OrderedMap.get?_eq_some_iff.mpr ((objectEntries_perm callbacks).mem_iff.mp he)
    rw [hgetCallbacks] at hget
    split_ifs at hget
    obtain ⟨key, -, rfl⟩ := Option.map_eq_some_iff.mp hget
    exact ⟨key, hcrypto key⟩
  obtain ⟨keys, hkeys, hget⟩ := readKeys_spec (nodup_objectEntries callbacks) hall .empty
  refine ⟨{ FollowerContract.new c.extendedType (c.saveTrackingOriginsToState crypto).data with
    paidU := c.data.paid_U.getD 0
    callbackRate := c.data.callback_rate
    prepaidOriginDays := c.data.prepaid_OD.getD 0
    callbackKeys := keys
    trackingOrigins := FollowerContract.readOrigins keys (objectEntries origins) .empty },
    ?_, rfl, fun URL => ?_, fun origin => ?_⟩
  · rw [FollowerContract.reload, FollowerContract.deserializeForFollower]
    simp only [FollowerContract.new, horigins, hcallbacks]
    change (FollowerContract.readKeys crypto (objectEntries callbacks) .empty).bind _ = _
    rw [hkeys]
    rfl
  · rw [hget, lookup_objectEntries, hgetCallbacks]
    split_ifs
    · rfl
    · cases c.callbackKeys.get? URL <;> simp [hcrypto]
  · rw [readOrigins_spec, hgetOrigins]

/-! ### The maps -/

section
variable {crypto : PublicKeys K B} (hcrypto : ∀ key, crypto.unpack (crypto.packed key) = some key)
  {c : FollowerContract K B}

theorem keyed_new (extendedType : Option String) (data : StateData B) :
    (FollowerContract.new extendedType data : FollowerContract K B).Keyed := by
  rintro origin URL ⟨⟩

theorem keyed_putTrackingOrigin (h : c.Keyed) (origin : HashId) (URL : String) (key : K) :
    (c.putTrackingOrigin origin URL key).Keyed := by
  intro other URL' hget
  rw [FollowerContract.putTrackingOrigin, OrderedMap.get?_set] at hget
  rw [FollowerContract.putTrackingOrigin, OrderedMap.has_set]
  split_ifs at hget
  · exact .inl (Option.some.inj hget).symm
  · exact .inr (h other URL' hget)

/-- The key of a URL goes with the last origin that has it. -/
theorem removeTrackingOrigin_spec (c : FollowerContract K B) (origin : HashId) :
    (∀ other, (c.removeTrackingOrigin origin).trackingOrigins.get? other =
      if other = origin then none else c.trackingOrigins.get? other) ∧
    ∀ URL, (c.removeTrackingOrigin origin).callbackKeys.has URL = true ↔ c.callbackKeys.has URL = true ∧
      (c.trackingOrigins.get? origin = some URL →
        ∃ other, (c.removeTrackingOrigin origin).trackingOrigins.get? other = some URL) := by
  cases horigin : c.trackingOrigins.get? origin with
  | none =>
    have hsame : c.removeTrackingOrigin origin = c := by rw [FollowerContract.removeTrackingOrigin, horigin]
    rw [hsame]
    refine ⟨fun other => ?_, fun URL => by simp⟩
    split_ifs with hother
    · rw [hother, horigin]
    · rfl
  | some old =>
    have hdelete : (c.removeTrackingOrigin origin).trackingOrigins = c.trackingOrigins.delete origin := by
      rw [FollowerContract.removeTrackingOrigin, horigin]
      dsimp only
      split_ifs <;> rfl
    have hkeys : (c.removeTrackingOrigin origin).callbackKeys =
        if old ∈ (c.trackingOrigins.delete origin).values then c.callbackKeys else c.callbackKeys.delete old := by
      rw [FollowerContract.removeTrackingOrigin, horigin]
      dsimp only
      split_ifs <;> rfl
    rw [hdelete, hkeys]
    refine ⟨fun other => OrderedMap.get?_delete .., fun URL => ?_⟩
    rw [← OrderedMap.mem_values, Option.some.injEq]
    split_ifs with hused
    · exact (and_iff_left fun hURL => hURL ▸ hused).symm
    · rw [OrderedMap.has_delete, and_comm]
      refine and_congr_right fun _ => ⟨fun hne hURL => absurd hURL.symm hne, ?_⟩
      rintro h rfl
      exact hused (h rfl)

theorem keyed_removeTrackingOrigin (h : c.Keyed) (origin : HashId) : (c.removeTrackingOrigin origin).Keyed := by
  obtain ⟨hget, hhas⟩ := removeTrackingOrigin_spec c origin
  intro other URL hother
  refine (hhas URL).mpr ⟨?_, fun _ => ⟨other, hother⟩⟩
  rw [hget] at hother
  split_ifs at hother
  exact h other URL hother

/-- A key is replaced, and none comes or goes. -/
theorem updateCallbackKey_spec (c : FollowerContract K B) (URL : String) (key : K) :
    (c.updateCallbackKey URL key).2.trackingOrigins = c.trackingOrigins ∧
      ∀ URL', (c.updateCallbackKey URL key).2.callbackKeys.has URL' = true ↔ c.callbackKeys.has URL' = true := by
  rw [FollowerContract.updateCallbackKey]
  split_ifs with hURL
  · refine ⟨rfl, fun URL' => ?_⟩
    rw [OrderedMap.has_set]
    exact or_iff_right_of_imp fun h => h ▸ hURL
  · exact ⟨rfl, fun _ => Iff.rfl⟩

theorem keyed_updateCallbackKey (h : c.Keyed) (URL : String) (key : K) : (c.updateCallbackKey URL key).2.Keyed := by
  obtain ⟨horigins, hhas⟩ := updateCallbackKey_spec c URL key
  intro origin URL' hget
  exact (hhas URL').mpr (h origin URL' (horigins ▸ hget))

include hcrypto

theorem keyed_reload {c' : FollowerContract K B} (h : c.reload crypto = some c') : c'.Keyed := by
  obtain ⟨c₁, hc₁, -, -, hget⟩ := reload_spec hcrypto c
  obtain rfl := Option.some.inj (hc₁.symm.trans h)
  intro origin URL horigin
  rw [hget, Option.filter_eq_some_iff] at horigin
  exact horigin.2

/-- Every URL of an origin has a key after every action. -/
theorem keyed_step (c : FollowerContract K B) (a : Action K) (c' : FollowerContract K B) (h : c.Keyed)
    (hs : step crypto c a = some c') : c'.Keyed := by
  cases a with
  | putTrackingOrigin origin URL key => exact Option.some.inj hs ▸ keyed_putTrackingOrigin h origin URL key
  | removeTrackingOrigin origin => exact Option.some.inj hs ▸ keyed_removeTrackingOrigin h origin
  | updateCallbackKey URL key => exact Option.some.inj hs ▸ keyed_updateCallbackKey h URL key
  | reload => exact keyed_reload hcrypto hs

/-- The maps agree where every key has an origin, and an object can have the names. -/
theorem linked_iff (h : c.Keyed) : c.Linked crypto ↔ c.callbackKeys.has "__proto__" = false ∧
    ∀ URL, c.callbackKeys.has URL = true → ∃ origin, c.trackingOrigins.get? origin = some URL := by
  obtain ⟨c', hreload, -, hkeys, horigins⟩ := reload_spec hcrypto c
  constructor
  · rintro ⟨⟨c₁, hc₁, -, hsame⟩, hused, -⟩
    obtain rfl := Option.some.inj (hreload.symm.trans hc₁)
    refine ⟨?_, fun URL => (hused URL).mp⟩
    rw [OrderedMap.has, ← hsame, hkeys, if_pos rfl]
    rfl
  · rintro ⟨hproto, hused⟩
    have hsame : ∀ URL, c'.callbackKeys.get? URL = c.callbackKeys.get? URL := by
      intro URL
      rw [hkeys]
      split_ifs with hURL
      · rw [hURL]
        exact (Option.not_isSome_iff_eq_none.mp (Bool.eq_false_iff.mp hproto)).symm
      · rfl
    refine ⟨⟨c', hreload, fun origin => ?_, hsame⟩, fun URL => ⟨hused URL, fun hex => hex.elim (h · URL)⟩, h⟩
    rw [horigins]
    cases hget : c.trackingOrigins.get? origin with
    | none => rfl
    | some URL =>
      refine Option.filter_eq_some_iff.mpr ⟨rfl, ?_⟩
      rw [OrderedMap.has, hsame]
      exact h origin URL hget

/-- What is put keeps the maps linked exactly if it leaves no URL behind. -/
theorem linked_putTrackingOrigin (h : c.Linked crypto) (origin : HashId) (URL : String) (key : K) :
    (c.putTrackingOrigin origin URL key).Linked crypto ↔ Fits c (.putTrackingOrigin origin URL key) := by
  obtain ⟨hproto, hused⟩ := (linked_iff hcrypto h.keyed).mp h
  have hget : ∀ other, (c.putTrackingOrigin origin URL key).trackingOrigins.get? other =
      if other = origin then some URL else c.trackingOrigins.get? other := fun other => OrderedMap.get?_set ..
  have hhas : ∀ URL', (c.putTrackingOrigin origin URL key).callbackKeys.has URL' = true ↔
      URL' = URL ∨ c.callbackKeys.has URL' = true := fun URL' => OrderedMap.has_set
  rw [linked_iff hcrypto (keyed_putTrackingOrigin h.keyed origin URL key)]
  refine and_congr ?_ ⟨fun hall old hold => ?_, fun hfits URL' hURL' => ?_⟩
  · rw [Bool.eq_false_iff, ne_eq, hhas, hproto]
    simp [eq_comm]
  · rw [or_iff_not_imp_left]
    intro hne
    obtain ⟨other, hother⟩ := hall old ((hhas old).mpr (.inr (h.keyed origin old hold)))
    rw [hget] at hother
    split_ifs at hother with horigin
    · exact absurd (Option.some.inj hother).symm hne
    · exact ⟨other, horigin, hother⟩
  · rcases eq_or_ne URL' URL with rfl | hne
    · exact ⟨origin, (hget origin).trans (if_pos rfl)⟩
    · obtain ⟨other, hother⟩ := hused URL' (((hhas URL').mp hURL').resolve_left hne)
      rcases eq_or_ne other origin with rfl | horigin
      · obtain ⟨another, hanother, hURL'⟩ := (hfits URL' hother).resolve_left hne
        exact ⟨another, (hget another).trans ((if_neg hanother).trans hURL')⟩
      · exact ⟨other, (hget other).trans ((if_neg horigin).trans hother)⟩

theorem linked_removeTrackingOrigin (h : c.Linked crypto) (origin : HashId) :
    (c.removeTrackingOrigin origin).Linked crypto := by
  obtain ⟨hproto, hused⟩ := (linked_iff hcrypto h.keyed).mp h
  obtain ⟨hget, hhas⟩ := removeTrackingOrigin_spec c origin
  refine (linked_iff hcrypto (keyed_removeTrackingOrigin h.keyed origin)).mpr ⟨?_, fun URL hURL => ?_⟩
  · rw [Bool.eq_false_iff, ne_eq, hhas, hproto]
    simp
  · obtain ⟨hkey, hother⟩ := (hhas URL).mp hURL
    obtain ⟨other, hgetOther⟩ := hused URL hkey
    rcases eq_or_ne other origin with rfl | hne
    · exact hother hgetOther
    · exact ⟨other, (hget other).trans ((if_neg hne).trans hgetOther)⟩

theorem linked_updateCallbackKey (h : c.Linked crypto) (URL : String) (key : K) :
    (c.updateCallbackKey URL key).2.Linked crypto := by
  obtain ⟨hproto, hused⟩ := (linked_iff hcrypto h.keyed).mp h
  obtain ⟨horigins, hhas⟩ := updateCallbackKey_spec c URL key
  refine (linked_iff hcrypto (keyed_updateCallbackKey h.keyed URL key)).mpr ⟨?_, fun URL' hURL' => ?_⟩
  · rw [Bool.eq_false_iff, ne_eq, hhas, hproto]
    simp
  · rw [horigins]
    exact hused URL' ((hhas URL').mp hURL')

/-- What is read from the state is linked as what was saved. -/
theorem linked_reload (h : c.Linked crypto) : ∃ c', c.reload crypto = some c' ∧ c'.Linked crypto := by
  obtain ⟨hproto, hused⟩ := (linked_iff hcrypto h.keyed).mp h
  obtain ⟨c', hc', horigins, hkeys⟩ := h.restored
  refine ⟨c', hc', (linked_iff hcrypto (keyed_reload hcrypto hc')).mpr ⟨?_, fun URL hURL => ?_⟩⟩
  · rw [OrderedMap.has, hkeys]
    exact hproto
  · rw [OrderedMap.has, hkeys] at hURL
    obtain ⟨origin, hget⟩ := hused URL hURL
    exact ⟨origin, (horigins origin).trans hget⟩

/-- An action keeps the maps linked exactly if it meets the condition. -/
theorem linked_step (c : FollowerContract K B) (a : Action K) (h : c.Linked crypto) :
    ∃ c', step crypto c a = some c' ∧ (c'.Linked crypto ↔ Fits c a) := by
  cases a with
  | putTrackingOrigin origin URL key => exact ⟨_, rfl, linked_putTrackingOrigin hcrypto h origin URL key⟩
  | removeTrackingOrigin origin => exact ⟨_, rfl, iff_of_true (linked_removeTrackingOrigin hcrypto h origin) trivial⟩
  | updateCallbackKey URL key => exact ⟨_, rfl, iff_of_true (linked_updateCallbackKey hcrypto h URL key) trivial⟩
  | reload =>
    obtain ⟨c', hc', hlinked⟩ := linked_reload hcrypto h
    exact ⟨c', hc', iff_of_true hlinked trivial⟩

theorem linked_new (extendedType : Option String) (data : StateData B) :
    (FollowerContract.new extendedType data : FollowerContract K B).Linked crypto := by
  refine (linked_iff hcrypto (keyed_new extendedType data)).mpr ⟨rfl, ?_⟩
  rintro URL ⟨⟩

end

/-! ### The check of the maps -/

/-- CODE DEFECT (`additionallyFollowerCheck`): the loop asks for the keys of two maps, which there never are. -/
theorem additionallyFollowerCheck_false (ime : Option E) (c : FollowerContract K B) :
    (c.additionallyFollowerCheck ime).1 = false := by
  unfold FollowerContract.additionallyFollowerCheck
  split_ifs with hime htype hsize hkeys
  · rfl
  · rfl
  · rfl
  · rfl
  · exact absurd rfl hkeys

/-- CODE DEFECT (callbacks of a follower): in every state of a run the maps agree and survive saving exactly if each
    origin that is put leaves no URL behind, and every URL of an origin has a key. The check is right exactly about
    the contracts that it has to refuse, as it accepts none. -/
theorem callbacks_iff {crypto : PublicKeys K B} (hcrypto : ∀ key, crypto.unpack (crypto.packed key) = some key)
    (extendedType : Option String) (data : StateData B) (as : List (Action K)) :
    (Run.Always (step crypto) (FollowerContract.Linked crypto) (.new extendedType data) as ↔
      Run.Meets (step crypto) Fits (.new extendedType data) as) ∧
    Run.Always (step crypto) FollowerContract.Keyed (.new extendedType data) as ∧
    ∀ (ime : E) (c : FollowerContract K B),
      (((c.additionallyFollowerCheck (some ime)).1 = true ↔ c.Complete) ↔ ¬ c.Complete) ∧
      (¬ c.Keyed → (c.additionallyFollowerCheck (some ime)).1 = false) := by
  refine ⟨Run.always_iff_meets (linked_step hcrypto) (linked_new hcrypto extendedType data),
    Run.always_of_step (keyed_step hcrypto) (keyed_new extendedType data), fun ime c => ⟨?_, fun _ => ?_⟩⟩
  · rw [additionallyFollowerCheck_false]
    simp
  · exact additionallyFollowerCheck_false (some ime) c

/-- Keys that are their own packed form. -/
def plain : PublicKeys ℕ ℕ := ⟨id, some⟩

/-- A state that says nothing of the follower. -/
def noData : StateData ℕ := ⟨none, none, none, none, none⟩

/-- Two origins with one URL, of which one goes, and a new key. -/
def shared : List (Action ℕ) :=
  [.putTrackingOrigin ⟨"b25l"⟩ "http://localhost:7777/a" 1, .putTrackingOrigin ⟨"dHdv"⟩ "http://localhost:7777/a" 2,
    .removeTrackingOrigin ⟨"b25l"⟩, .updateCallbackKey "http://localhost:7777/a" 3, .reload]

theorem callbacks_shared :
    Run.Always (step plain) (FollowerContract.Linked plain) (.new (some "FOLLOWER1") noData) shared := by
  refine (@callbacks_iff ℕ ℕ Unit plain (fun _ => rfl) _ _ _).1.mpr ?_
  refine Run.meets_cons ⟨by decide, ?_⟩ rfl (Run.meets_cons ⟨by decide, ?_⟩ rfl
    ⟨trivial, fun _ _ => ⟨trivial, fun _ _ => ⟨trivial, fun _ _ => trivial⟩⟩⟩)
  · rintro old ⟨⟩
  · rintro old ⟨⟩

/-- A contract of which the URL of the origin was replaced. -/
def replaced : FollowerContract ℕ ℕ :=
  ((FollowerContract.new (some "FOLLOWER1") noData).putTrackingOrigin ⟨"b25l"⟩ "http://localhost:7777/a" 1
    ).putTrackingOrigin ⟨"b25l"⟩ "http://localhost:7777/b" 2

/-- The old URL counts as used, and the contract is refused. -/
theorem replacedURL : replaced.isCallbackURLUsed "http://localhost:7777/a" = true ∧
    ¬(∃ origin, replaced.trackingOrigins.get? origin = some "http://localhost:7777/a") ∧
    replaced.Complete ∧ (replaced.additionallyFollowerCheck (some ())).1 = false := by
  refine ⟨by decide, fun h => ?_, ⟨by decide, by decide⟩, by decide⟩
  exact absurd (OrderedMap.mem_values.mpr h) (by decide)

end Universa.Services.FollowerCallbacks
