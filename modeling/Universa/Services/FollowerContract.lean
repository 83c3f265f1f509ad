import Universa.Js.Rounding
import Universa.Lib.Run
import Universa.Services.NameTables

/-! The follower contract and its service (`followerContract.js`, `NFollowerService.js`): how often callbacks
    were started and paid, until when the contract follows, and from when on it starts no callbacks.

    Amounts are doubles, rounded after each operation, and dates are milliseconds. A call that makes a date
    outside the range of `Date` is not followed. `updateSubscriptions` gives the service and its subscriptions
    one date object, so that a later change of the service's moves theirs. Between two steps the environment
    can be saved and made of its rows again, after which each has a date of its own. `Ledger.getEnvironment` never
    ends for one with a service (`EnvironmentStore`), so these are more runs than those of a node.

    `changeMutedAt` changes `expiresAt`, and `onContractSubscriptionEvent` names an `ItemState` that its
    module does not import. What is left in balance are updates, callbacks refused, and callbacks that
    complete, where rounding takes no duration to another second and adds nothing to what is spent. -/

namespace Universa.Services.Follower

open Universa.Js

/-! ### The contract -/

/-- What the parent revision says in its `state.data`, with the defaults where it does not. -/
structure ParentData where
  prepaidOD : Number
  followedOrigins : Number
  spentOD : Number
  spentODTime : Option Number
  deriving DecidableEq

/-- `FollowerContract`: what the new items pay, the rate of a paid U, the data of the parent, the callback
    rate once `calculatePrepaidOriginDays` has it, a double, and the origins it tracks. -/
structure FollowerContract where
  paidU : Number
  rate : Number
  parentContract : Option ParentData
  callbackRate : ℚ
  double : Number.ofRat callbackRate = .fin callbackRate
  trackingOrigins : List HashId
  nodup : trackingOrigins.Nodup
  tracks : trackingOrigins ≠ []

/-- The date of a subscription: the object the service has, or another one. -/
inductive ExpiresAt where
  | service
  | own (date : ℤ)
  deriving DecidableEq

/-- `NContractSubscription`, of a chain, and whether it is in `subscriptionsToDestroy`. -/
structure Subscription where
  origin : HashId
  expiresAt : ExpiresAt
  toDestroy : Bool
  deriving DecidableEq

/-- `NFollowerService`. -/
structure FollowerService where
  expiresAt : ℤ
  mutedAt : ℤ
  spent : Number
  startedCallbacks : ℤ
  deriving DecidableEq

/-- `NMutableEnvironment`, what a follower contract uses of it. -/
structure Environment where
  followerService : Option FollowerService
  subscriptionsSet : List Subscription
  subscriptionsToAdd : List Subscription
  deriving DecidableEq

/-! ### The service -/

namespace FollowerService

/-- `new NFollowerService(ledger, environmentId)`. -/
def new (now : ℤ) : FollowerService where
  expiresAt := (now / 1000 + 30 * 24 * 3600) * 1000
  mutedAt := (now / 1000 + 30 * 24 * 3600) * 1000
  spent := .fin 0
  startedCallbacks := 0

/-- `setExpiresAndMutedAt(expiresAt, mutedAt)`. -/
def setExpiresAndMutedAt (fs : FollowerService) (expiresAt mutedAt : ℤ) : FollowerService :=
  { fs with expiresAt, mutedAt }

/-- `decreaseExpiresAt(decreaseSeconds)`. -/
def decreaseExpiresAt (fs : FollowerService) (decreaseSeconds : Number) : Option FollowerService := do
  let seconds := (Number.fin (Date.getSeconds fs.expiresAt)).minus decreaseSeconds
  return { fs with expiresAt := ← Date.putSeconds fs.expiresAt seconds }

/-- `changeMutedAt(deltaSeconds)`, which changes `expiresAt`. -/
def changeMutedAt (fs : FollowerService) (deltaSeconds : Number) : Option FollowerService := do
  let seconds := (Number.fin (Date.getSeconds fs.expiresAt)).plus deltaSeconds
  return { fs with expiresAt := ← Date.putSeconds fs.expiresAt seconds }

/-- `increaseCallbacksSpent(addSpent)`. -/
def increaseCallbacksSpent (fs : FollowerService) (addSpent : Number) : FollowerService :=
  { fs with spent := fs.spent.plus addSpent }

/-- `increaseStartedCallbacks()`. -/
def increaseStartedCallbacks (fs : FollowerService) : FollowerService :=
  { fs with startedCallbacks := fs.startedCallbacks + 1 }

/-- `decreaseStartedCallbacks()`. -/
def decreaseStartedCallbacks (fs : FollowerService) : FollowerService :=
  { fs with startedCallbacks := fs.startedCallbacks - 1 }

end FollowerService

/-! ### The environment -/

/-- The date behind the object, where the service has this one. -/
def ExpiresAt.date (service : ℤ) : ExpiresAt → ℤ
  | .service => service
  | .own date => date

namespace Environment

/-- `getFollowerService(true)`. -/
def getFollowerService (me : Environment) (now : ℤ) : FollowerService :=
  me.followerService.getD (.new now)

/-- The service as it is after its setters; objects it still has stay shared. -/
def withService (me : Environment) (fs : FollowerService) : Environment :=
  { me with followerService := some fs }

/-- The subscriptions keep the date object that the service gives up. -/
def detach (me : Environment) (old : ℤ) : Environment :=
  let own (sub : Subscription) := { sub with expiresAt := .own (sub.expiresAt.date old) }
  { me with subscriptionsSet := me.subscriptionsSet.map own
            subscriptionsToAdd := me.subscriptionsToAdd.map own }

/-- The subscriptions there are after a save. -/
def subscriptions (me : Environment) : List Subscription :=
  me.subscriptionsSet.filter (!·.toDestroy) ++ me.subscriptionsToAdd

/-- A `save`, and the environment that its rows say: whole seconds are stored, and each date is an object of its own. -/
def reload (me : Environment) : Environment where
  followerService := me.followerService.map fun fs =>
    { fs with expiresAt := fs.expiresAt / 1000 * 1000, mutedAt := fs.mutedAt / 1000 * 1000 }
  subscriptionsSet := me.subscriptions.map fun sub =>
    { sub with expiresAt := .own (sub.expiresAt.date (me.followerService.elim 0 (·.expiresAt)) / 1000 * 1000) }
  subscriptionsToAdd := []

end Environment

/-! ### Steps of the contract -/

namespace FollowerContract
variable (c : FollowerContract)

/-- `this.prepaidOriginDays` after `calculatePrepaidOriginDays(false)`. -/
def prepaidOriginDays : Number :=
  (c.parentContract.elim (.fin 0) ParentData.prepaidOD).plus (c.paidU.times c.rate)

/-- `this.spentODs` after `calculatePrepaidOriginDays(false)`. -/
def spentODs (date : ℤ) : Number :=
  let now := Number.fin (date / 1000 : ℤ)
  let spentSeconds := now.minus ((c.parentContract.bind ParentData.spentODTime).getD now)
  let spentDays := spentSeconds.dividedBy (.fin 86400)
  (c.parentContract.elim (.fin 0) ParentData.spentOD).plus
    (spentDays.times (c.parentContract.elim (.fin 0) ParentData.followedOrigins))

/-- `total / this.trackingOrigins.size * 24 * 3600`. -/
def secondsOfEach (total : Number) : Number :=
  ((total.dividedBy (.fin c.trackingOrigins.length)).times (.fin 24)).times (.fin 3600)

/-- The `deltaSeconds` of an event. -/
def deltaSeconds : Number := c.secondsOfEach (.fin c.callbackRate)

/-- The loop of `updateSubscriptions` over `me.subscriptions()`: what is left of `newOrigins`, and the
    subscriptions, each with the new date or to be destroyed. -/
def updateEach : List HashId → List Subscription → List HashId × List Subscription
  | newOrigins, [] => (newOrigins, [])
  | newOrigins, sub :: subs =>
      if sub.origin ∈ newOrigins then
        let (newOrigins, subs) := updateEach (newOrigins.erase sub.origin) subs
        (newOrigins, { sub with expiresAt := .service } :: subs)
      else
        let (newOrigins, subs) := updateEach newOrigins subs
        (newOrigins, { sub with toDestroy := true } :: subs)

/-- The milliseconds for which `updateSubscriptions` keeps the callbacks started and one more. -/
def mutedMilliseconds (startedCallbacks : ℤ) : Number :=
  (c.secondsOfEach ((Number.fin (startedCallbacks + 1 : ℤ)).times (.fin c.callbackRate))).times (.fin 1000)

/-- `updateSubscriptions(me)`. -/
def updateSubscriptions (now : ℤ) (me : Environment) : Option Environment := do
  let fs := me.getFollowerService now
  let seconds := c.secondsOfEach ((c.prepaidOriginDays.minus (c.spentODs now)).minus fs.spent)
  let newExpires ← Date.ofDouble ((Number.fin now).plus (seconds.times (.fin 1000)))
  let newExpires := Date.clearMilliseconds newExpires
  let newMuted ← Date.ofDouble ((Number.fin newExpires).minus (c.mutedMilliseconds fs.startedCallbacks))
  let newMuted := Date.clearMilliseconds newMuted
  let me := (me.detach fs.expiresAt).withService (fs.setExpiresAndMutedAt newExpires newMuted)
  let (newOrigins, subs) := updateEach c.trackingOrigins me.subscriptionsSet
  return { me with
    subscriptionsSet := subs
    subscriptionsToAdd := me.subscriptionsToAdd ++ newOrigins.map fun origin => ⟨origin, .service, false⟩ }

/-- `new Date(sub.getExpiresAt().getTime() - deltaSeconds * 1000)`, where the service has this date. -/
def decreased (service : ℤ) (deltaSeconds : Number) (sub : Subscription) : Option Subscription := do
  let milliseconds := (Number.fin (sub.expiresAt.date service)).minus (deltaSeconds.times (.fin 1000))
  return { sub with expiresAt := .own (← Date.ofDouble milliseconds) }

/-- `me.subscriptions().forEach(sub => me.setSubscriptionExpiresAt(sub, new Date(…)))`. -/
def decreaseEach (me : Environment) (service : ℤ) (deltaSeconds : Number) : Option Environment := do
  return { me with subscriptionsSet := ← me.subscriptionsSet.mapM (decreased service deltaSeconds) }

/-- `ApprovedWithCallbackEvent` and `RevokedWithCallbackEvent`. A contract that is muted refuses; else
    `ItemState`, which is not defined, ends the call before the callback is scheduled. -/
def startCallback (now : ℤ) (me : Environment) : Option (Environment × Except JsError Unit) :=
  let fs := me.getFollowerService now
  if fs.mutedAt < now then some (me.withService fs, .ok ())
  else do
    let fs ← fs.increaseStartedCallbacks.changeMutedAt (c.secondsOfEach (.fin (-c.callbackRate)))
    return (me.withService fs, .error (.notDefined "ItemState"))

/-- `CompletedEvent`. -/
def completed (now : ℤ) (me : Environment) : Option Environment := do
  let fs := (me.getFollowerService now).decreaseStartedCallbacks.increaseCallbacksSpent (.fin c.callbackRate)
  let fs ← fs.decreaseExpiresAt c.deltaSeconds
  decreaseEach (me.withService fs) fs.expiresAt c.deltaSeconds

/-- `FailedEvent`. -/
def failed (now : ℤ) (me : Environment) : Option Environment := do
  return me.withService (← (me.getFollowerService now).decreaseStartedCallbacks.changeMutedAt c.deltaSeconds)

/-- `SpentEvent`. -/
def spent (now : ℤ) (me : Environment) : Option Environment := do
  let fs := (me.getFollowerService now).increaseCallbacksSpent (.fin c.callbackRate)
  let fs ← fs.changeMutedAt ((Number.fin 0).sub c.deltaSeconds)
  let fs ← fs.decreaseExpiresAt c.deltaSeconds
  decreaseEach (me.withService fs) fs.expiresAt c.deltaSeconds

/-- What a number of callbacks costs, in seconds of following all origins. -/
def callbackSeconds (callbacks : ℕ) : ℚ := callbacks * c.callbackRate / c.trackingOrigins.length * 24 * 3600

end FollowerContract

/-! ### Runs -/

/-- An environment of the contract, with the callbacks started and not finished, the events `Completed` and
    `Spent` so far, and the steps so far. -/
structure State where
  me : Environment
  unfinished : ℕ
  paid : ℕ
  steps : ℕ

/-- The calls of the contract, at their times, and the save and load of its environment. -/
inductive Action where
  | updateSubscriptions (now : ℤ)
  | approvedWithCallback (now : ℤ)
  | revokedWithCallback (now : ℤ)
  | completed (now : ℤ)
  | failed (now : ℤ)
  | spent (now : ℤ)
  | reload

/-- What an action does. Only a callback that was started completes or fails. -/
def step (c : FollowerContract) (s : State) : Action → Option State
  | .updateSubscriptions now => do
      return { s with me := ← c.updateSubscriptions now s.me, steps := s.steps + 1 }
  | .approvedWithCallback now | .revokedWithCallback now => do
      return { s with me := (← c.startCallback now s.me).1, steps := s.steps + 1 }
  | .completed now => do
      guard (0 < s.unfinished)
      return { me := ← c.completed now s.me, unfinished := s.unfinished - 1, paid := s.paid + 1, steps := s.steps + 1 }
  | .failed now => do
      guard (0 < s.unfinished)
      return { s with me := ← c.failed now s.me, unfinished := s.unfinished - 1, steps := s.steps + 1 }
  | .spent now => do
      return { s with me := ← c.spent now s.me, paid := s.paid + 1, steps := s.steps + 1 }
  | .reload => some { s with me := s.me.reload }

/-- What stays in balance: an update where no subscription waits to be added, a callback that is refused, and
    a completed one where no subscription there was has the date object of the service. What the callbacks
    cost is apart from the whole seconds next to it, and what is spent then is a double. -/
def Clean (c : FollowerContract) (s : State) : Action → Prop
  | .updateSubscriptions _ => s.me.subscriptionsToAdd = [] ∧ Number.Apart (c.callbackSeconds (s.unfinished + 1))
  | .approvedWithCallback now | .revokedWithCallback now => (s.me.getFollowerService now).mutedAt < now
  | .completed _ =>
      (∀ sub ∈ s.me.subscriptionsSet, sub.toDestroy = false → sub.expiresAt ≠ .service) ∧
        Number.Apart (c.callbackSeconds 1) ∧
          Number.ofRat (c.callbackRate * (s.paid + 1)) = .fin (c.callbackRate * (s.paid + 1))
  | .failed _ | .spent _ => False
  | .reload => True

/-- The accounts of a service: times are right up to a second for each step. -/
structure Balance (c : FollowerContract) (s : State) (fs : FollowerService) : Prop where
  muted : |(fs.mutedAt : ℚ) - (fs.expiresAt -
    (fs.startedCallbacks + 1) * c.callbackRate / c.trackingOrigins.length * 24 * 3600 * 1000)| ≤ 1000 * s.steps
  started : fs.startedCallbacks = s.unfinished
  spent : fs.spent = .fin (c.callbackRate * s.paid)
  expires : ∀ sub ∈ s.me.subscriptions, |(sub.expiresAt.date fs.expiresAt : ℚ) - fs.expiresAt| ≤ 1000 * s.steps

/-- The environment has a service, and its accounts are in balance. -/
def Balanced (c : FollowerContract) (s : State) : Prop :=
  ∃ fs, s.me.followerService = some fs ∧ Balance c s fs

/-- An environment as it is loaded, its service expiring at a date. -/
structure Loaded (me : Environment) : Prop where
  reloaded : me.reload = me
  inRange : ∀ fs ∈ me.followerService, |fs.expiresAt| ≤ Date.limit

/-- The environment of a contract that is not created yet. -/
structure Fresh (s : State) : Prop where
  noService : s.me.followerService = none
  noSubscriptions : s.me.subscriptionsSet = []
  noneToAdd : s.me.subscriptionsToAdd = []
  noneOpen : s.unfinished = 0
  nonePaid : s.paid = 0
  noStep : s.steps = 0

/-- What a clean run keeps of a service: dates are whole seconds, and subscriptions that wait to be added have
    its date object. -/
structure Kept (c : FollowerContract) (s : State) (fs : FollowerService) : Prop where
  service : s.me.followerService = some fs
  balance : Balance c s fs
  wholeExpires : fs.expiresAt % 1000 = 0
  wholeMuted : fs.mutedAt % 1000 = 0
  inRange : |fs.expiresAt| ≤ Date.limit
  shared : ∀ sub ∈ s.me.subscriptionsToAdd, sub.expiresAt = .service

/-! ### What a step keeps -/

namespace FollowerContract
variable (c : FollowerContract)

/-- After the loop a subscription has the new date or is to be destroyed. -/
theorem updateEach_mem {newOrigins : List HashId} {subs : List Subscription} {sub : Subscription}
    (h : sub ∈ (updateEach newOrigins subs).2) : sub.expiresAt = .service ∨ sub.toDestroy = true := by
  induction subs generalizing newOrigins with
  | nil => simp [updateEach] at h
  | cons first subs ih =>
      simp only [updateEach] at h
      split at h
      · rcases List.mem_cons.mp h with rfl | h
        · exact Or.inl rfl
        · exact ih h
      · rcases List.mem_cons.mp h with rfl | h
        · exact Or.inr rfl
        · exact ih h

theorem mem_of_mapM {f : Subscription → Option Subscription} {sub' : Subscription} :
    ∀ {subs subs' : List Subscription}, subs.mapM f = some subs' → sub' ∈ subs' → ∃ sub ∈ subs, f sub = some sub'
  | [], subs', h, hmem => by
      obtain rfl := Option.some.inj h
      exact absurd hmem List.not_mem_nil
  | sub :: subs, subs', h, hmem => by
      rw [List.mapM_cons] at h
      obtain ⟨first, hfirst, h⟩ := Option.bind_eq_some_iff.mp h
      obtain ⟨others, hothers, h⟩ := Option.bind_eq_some_iff.mp h
      obtain rfl := Option.some.inj h
      rcases List.mem_cons.mp hmem with rfl | hmem
      · exact ⟨sub, List.mem_cons_self .., hfirst⟩
      · obtain ⟨old, hold, hsub⟩ := mem_of_mapM hothers hmem
        exact ⟨old, List.mem_cons_of_mem _ hold, hsub⟩

theorem decreased_eq_some {service : ℤ} {deltaSeconds : Number} {sub sub' : Subscription}
    (h : decreased service deltaSeconds sub = some sub') : ∃ d,
    Date.ofDouble ((Number.fin (sub.expiresAt.date service)).minus (deltaSeconds.times (.fin 1000))) = some d ∧
      { sub with expiresAt := .own d } = sub' := by
  obtain ⟨d, hd, h⟩ := Option.bind_eq_some_iff.mp h
  exact ⟨d, hd, Option.some.inj h⟩

/-- What an update that makes dates leaves. -/
theorem updateSubscriptions_eq_some {now : ℤ} {me me' : Environment} (h : c.updateSubscriptions now me = some me')
    (hadd : me.subscriptionsToAdd = []) : ∃ fs' expires muted,
    me'.followerService = some fs' ∧ fs'.expiresAt = Date.clearMilliseconds expires ∧ |expires| ≤ Date.limit ∧
    Date.ofDouble ((Number.fin fs'.expiresAt).minus (c.mutedMilliseconds fs'.startedCallbacks)) = some muted ∧
    fs'.mutedAt = Date.clearMilliseconds muted ∧
    fs'.startedCallbacks = (me.getFollowerService now).startedCallbacks ∧
    fs'.spent = (me.getFollowerService now).spent ∧
    ∀ sub ∈ me'.subscriptions, sub.expiresAt = .service := by
  simp only [updateSubscriptions, Option.pure_def, Option.bind_eq_bind, Option.bind_eq_some_iff,
    Option.some.injEq] at h
  obtain ⟨expires, hexpires, muted, hmuted, rfl⟩ := h
  obtain ⟨-, -, -, hrange⟩ := Date.ofDouble_eq_some hexpires
  refine ⟨_, expires, muted, rfl, rfl, hrange, hmuted, rfl, rfl, rfl, ?_⟩
  intro sub hsub
  rcases List.mem_append.mp hsub with hsub | hsub
  · obtain ⟨hmem, halive⟩ := List.mem_filter.mp hsub
    exact (updateEach_mem hmem).resolve_right (by simpa using halive)
  · obtain ⟨origin, -, rfl⟩ : ∃ origin ∈ _, (⟨origin, .service, false⟩ : Subscription) = sub := by
      simpa [Environment.withService, Environment.detach, hadd] using hsub
    rfl

/-- What a completed callback that makes dates leaves. -/
theorem completed_eq_some {now : ℤ} {me me' : Environment} (h : c.completed now me = some me') : ∃ fs',
    me'.followerService = some fs' ∧
    (let fs := me.getFollowerService now
     Date.putSeconds fs.expiresAt ((Number.fin (Date.getSeconds fs.expiresAt)).minus c.deltaSeconds) =
        some fs'.expiresAt ∧
      fs'.mutedAt = fs.mutedAt ∧ fs'.startedCallbacks = fs.startedCallbacks - 1 ∧
      fs'.spent = fs.spent.plus (.fin c.callbackRate)) ∧
    me.subscriptionsSet.mapM (decreased fs'.expiresAt c.deltaSeconds) = some me'.subscriptionsSet ∧
    me'.subscriptionsToAdd = me.subscriptionsToAdd := by
  simp only [completed, FollowerService.decreaseExpiresAt, decreaseEach, Option.pure_def, Option.bind_eq_bind,
    Option.bind_eq_some_iff, Option.some.injEq] at h
  obtain ⟨-, ⟨expires, hexpires, rfl⟩, subs, hsubs, rfl⟩ := h
  exact ⟨_, rfl, ⟨hexpires, rfl, rfl, rfl⟩, hsubs, rfl⟩

/-! ### Durations -/

/-- The seconds of each of a total, after three roundings. -/
theorem secondsOfEach_rounded {k : ℕ} {total : Number} {exact q : ℚ}
    (htotal : ∀ t, total = .fin t → Number.Rounded k t exact) (hk : k ≤ 2)
    (h : c.secondsOfEach total = .fin q) :
    Number.Rounded (k + 3) q (exact / c.trackingOrigins.length * 24 * 3600) := by
  have hsize : (1 : ℚ) ≤ c.trackingOrigins.length := by
    exact_mod_cast List.length_pos_iff.mpr c.tracks
  have hpos : (0 : ℚ) < c.trackingOrigins.length := by linarith
  obtain ⟨hours, hhours, hq⟩ := Number.times_eq_fin (by norm_num) h
  obtain ⟨days, hdays, hhours⟩ := Number.times_eq_fin (by norm_num) hhours
  obtain ⟨t, ht, hdays⟩ := Number.dividedBy_eq_fin hpos.ne' hdays
  rw [div_eq_mul_inv]
  have hinv : ((c.trackingOrigins.length : ℚ))⁻¹ ≤ 2 ^ 12 := (inv_le_one_of_one_le₀ hsize).trans (by norm_num)
  exact (((htotal t ht).times (by omega) (inv_pos.mpr hpos) hinv hdays).times (by omega) (by norm_num)
    (by norm_num) hhours).times (by omega) (by norm_num) (by norm_num) hq

/-- A callback costs whole seconds next to its exact price. -/
theorem deltaSeconds_within {q : ℚ} (h : c.deltaSeconds = .fin q) (hq : |q| ≤ 2 ^ 49)
    (hapart : Number.Apart (c.callbackSeconds 1)) :
    ⌈q⌉ ≤ c.callbackSeconds 1 + 1 ∧ c.callbackSeconds 1 ≤ ⌊q⌋ + 1 := by
  have htotal : ∀ t, Number.fin c.callbackRate = .fin t → Number.Rounded 0 t c.callbackRate := by
    intro t ht
    obtain rfl := Number.fin.inj ht
    exact Number.Rounded.refl _
  have hrounded := c.secondsOfEach_rounded htotal (by norm_num) h
  rw [show c.callbackRate / c.trackingOrigins.length * 24 * 3600 = c.callbackSeconds 1 by
    simp [callbackSeconds]] at hrounded
  exact hrounded.within (by norm_num) hq hapart

/-- The milliseconds for the callbacks started and one more are next to their exact price in seconds. -/
theorem mutedMilliseconds_within {started : ℕ} {q : ℚ} (h : c.mutedMilliseconds started = .fin q)
    (hq : |q / 1000| ≤ 2 ^ 49) (hapart : Number.Apart (c.callbackSeconds (started + 1))) :
    ⌈q / 1000⌉ ≤ c.callbackSeconds (started + 1) + 1 ∧ c.callbackSeconds (started + 1) ≤ ⌊q / 1000⌋ + 1 := by
  obtain ⟨seconds, hseconds, hround⟩ := Number.times_eq_fin (by norm_num) h
  have htotal : ∀ t, (Number.fin ((started + 1 : ℤ) : ℚ)).times (.fin c.callbackRate) = .fin t →
      Number.Rounded 1 t ((started + 1 : ℤ) * c.callbackRate) := by
    intro t ht
    have hone : Number.ofRat (((started + 1 : ℤ) : ℚ) * c.callbackRate * 1) = .fin t := by
      rw [mul_one]
      exact ht
    simpa using (Number.Rounded.refl _).times (by norm_num) one_pos (by norm_num) hone
  have hrounded := (c.secondsOfEach_rounded htotal (by norm_num) hseconds).times (by norm_num) (by norm_num)
    (by norm_num) hround
  rw [show ((started + 1 : ℤ) : ℚ) * c.callbackRate / c.trackingOrigins.length * 24 * 3600 =
    c.callbackSeconds (started + 1) by simp [callbackSeconds]] at hrounded
  exact (hrounded.quotient (by norm_num)).within (by norm_num) hq hapart

end FollowerContract

/-- One step allows one second. -/
theorem one_step (steps : ℕ) : (1000 : ℚ) ≤ 1000 * (steps + 1 : ℕ) := by
  push_cast
  linarith [(Nat.cast_nonneg steps : (0 : ℚ) ≤ steps)]

theorem more_steps (steps : ℕ) : (1000 * steps : ℚ) ≤ 1000 * (steps + 1 : ℕ) := by
  push_cast
  linarith

/-- What is near stays near up to a second where both sides make one move up to a second. -/
theorem near_step {x y x' y' : ℚ} {steps : ℕ} (h : |x - y| ≤ 1000 * steps)
    (hmove : |(x' - x) - (y' - y)| ≤ 1000) : |x' - y'| ≤ 1000 * (steps + 1 : ℕ) := by
  rw [abs_le] at *
  push_cast
  constructor <;> linarith [h.1, h.2, hmove.1, hmove.2]

/-- A date of a subscription moves as the date of the service does, up to a second. -/
theorem decreased_moves {service service' t : ℤ} {deltaSeconds : Number} {q : ℚ} (hq : deltaSeconds = .fin q)
    (hsmall : |q| ≤ 2 ^ 45) (hlow : service - 1000 * ⌈q⌉ ≤ service') (hhigh : service' ≤ service - 1000 * ⌊q⌋)
    {old sub : Subscription} (hown : old.expiresAt = .own t)
    (h : FollowerContract.decreased service' deltaSeconds old = some sub) :
    ∃ d, sub.expiresAt = .own d ∧ |(d - t) - (service' - service)| ≤ 1000 := by
  obtain ⟨d, hd, rfl⟩ := FollowerContract.decreased_eq_some h
  rw [hown] at hd
  obtain ⟨w, hw, hdlow, hdhigh, -⟩ := Date.ofDouble_minus hd
  obtain ⟨q', hq', hround⟩ := Number.times_eq_fin (by norm_num) hw
  obtain rfl := Number.fin.inj (hq.symm.trans hq')
  obtain ⟨hbelow, habove⟩ := Date.milliseconds_between hround hsmall
  have hgap := Int.ceil_le_floor_add_one q
  refine ⟨d, rfl, ?_⟩
  simp only [ExpiresAt.date] at hdlow hdhigh
  rw [abs_le]
  omega

namespace Kept
variable {c : FollowerContract} {s : State} {fs : FollowerService}

theorem updateSubscriptions {now : ℤ} {me' : Environment} (hstep : c.updateSubscriptions now s.me = some me')
    (hadd : s.me.subscriptionsToAdd = []) (hapart : Number.Apart (c.callbackSeconds (s.unfinished + 1)))
    (hstarted : (s.me.getFollowerService now).startedCallbacks = s.unfinished)
    (hspent : (s.me.getFollowerService now).spent = .fin (c.callbackRate * s.paid)) :
    ∃ fs', Kept c { s with me := me', steps := s.steps + 1 } fs' := by
  obtain ⟨fs', expires, muted, hfs', hexpires, hrange, hdate, hmuted, hstarted', hspent', hshared⟩ :=
    c.updateSubscriptions_eq_some hstep hadd
  have hwhole : fs'.expiresAt % 1000 = 0 := hexpires ▸ Date.clearMilliseconds_emod _
  have hcut : |fs'.expiresAt| ≤ Date.limit := by
    rw [hexpires]
    unfold Date.clearMilliseconds Date.limit
    unfold Date.limit at hrange
    rw [abs_le] at hrange ⊢
    omega
  refine ⟨fs', hfs', ⟨?_, hstarted'.trans hstarted, hspent'.trans hspent, ?_⟩, hwhole,
    hmuted ▸ Date.clearMilliseconds_emod _, hcut, fun sub hsub => hshared sub (List.mem_append_right _ hsub)⟩
  · obtain ⟨q, hq, hlow, hhigh, hrange'⟩ := Date.ofDouble_minus hdate
    rw [hstarted'.trans hstarted] at hq
    have hsmall : |q / 1000| ≤ 2 ^ 49 := by
      unfold Date.limit at hcut hrange'
      rw [abs_le] at hcut hrange' ⊢
      have hceil : -(2 ^ 58 : ℤ) ≤ ⌈q⌉ - 1 := by omega
      have hfloor : ⌊q⌋ + 1 ≤ 2 ^ 58 := by omega
      have hceil' : -(2 ^ 58 : ℚ) ≤ ⌈q⌉ - 1 := by exact_mod_cast hceil
      have hfloor' : (⌊q⌋ : ℚ) + 1 ≤ 2 ^ 58 := by exact_mod_cast hfloor
      have hup := Int.ceil_lt_add_one q
      have hdown := Int.lt_floor_add_one q
      constructor <;> linarith
    have hnear := Date.clearMilliseconds_near hwhole hlow hhigh (c.mutedMilliseconds_within hq hsmall hapart)
    rw [← hmuted] at hnear
    have hprice : (fs'.startedCallbacks + 1) * c.callbackRate / c.trackingOrigins.length * 24 * 3600 * 1000 =
        c.callbackSeconds (s.unfinished + 1) * 1000 := by
      rw [hstarted'.trans hstarted]
      simp [FollowerContract.callbackSeconds]
    rw [hprice]
    exact hnear.trans (one_step s.steps)
  · intro sub hsub
    rw [hshared sub hsub]
    simp [ExpiresAt.date]
    positivity

/-- A callback that completes moves the service and each subscription by the same days. -/
theorem completed {now : ℤ} {me' : Environment} (h : Kept c s fs) (hstep : c.completed now s.me = some me')
    (hopen : 0 < s.unfinished)
    (hown : ∀ sub ∈ s.me.subscriptionsSet, sub.toDestroy = false → sub.expiresAt ≠ .service)
    (hapart : Number.Apart (c.callbackSeconds 1))
    (hspent : Number.ofRat (c.callbackRate * (s.paid + 1)) = .fin (c.callbackRate * (s.paid + 1))) :
    ∃ fs', Kept c { me := me', unfinished := s.unfinished - 1, paid := s.paid + 1, steps := s.steps + 1 } fs' := by
  have hget : s.me.getFollowerService now = fs := by simp [Environment.getFollowerService, h.service]
  obtain ⟨fs', hfs', hservice, hsubs, hadd⟩ := c.completed_eq_some hstep
  rw [hget] at hservice
  obtain ⟨hput, hmuted, hstarted, hadded⟩ := hservice
  obtain ⟨q, hq, hsmall, hlow, hhigh, hwhole, hrange⟩ := Date.putSeconds_minus h.inRange hput
  obtain ⟨hceil, hfloor⟩ := c.deltaSeconds_within hq (hsmall.trans (by norm_num)) hapart
  have hlow' : (fs.expiresAt : ℚ) - 1000 * ⌈q⌉ ≤ fs'.expiresAt := by exact_mod_cast hlow
  have hhigh' : (fs'.expiresAt : ℚ) ≤ fs.expiresAt - 1000 * ⌊q⌋ := by exact_mod_cast hhigh
  have hbalance := h.balance
  refine ⟨fs', hfs', ⟨?_, ?_, ?_, ?_⟩, hwhole.trans h.wholeExpires, hmuted ▸ h.wholeMuted, hrange,
    hadd ▸ h.shared⟩
  · have hdays : ((fs'.startedCallbacks + 1) * c.callbackRate / c.trackingOrigins.length * 24 * 3600 * 1000 : ℚ) =
        (fs.startedCallbacks + 1) * c.callbackRate / c.trackingOrigins.length * 24 * 3600 * 1000 -
          1000 * c.callbackSeconds 1 := by
      rw [hstarted, FollowerContract.callbackSeconds]
      push_cast
      ring
    rw [hdays, hmuted]
    refine near_step hbalance.muted (abs_le.mpr ?_)
    constructor <;> linarith
  · rw [hstarted, hbalance.started]
    push_cast [Nat.cast_sub hopen]
    rfl
  · have hsum : c.callbackRate * s.paid + c.callbackRate = c.callbackRate * (s.paid + 1) := by ring
    rw [hadded, hbalance.spent, Number.plus_fin, hsum, hspent]
    push_cast
    rfl
  · intro sub hsub
    rcases List.mem_append.mp hsub with hsub | hsub
    · obtain ⟨hmem, halive⟩ := List.mem_filter.mp hsub
      obtain ⟨old, hold, hmove⟩ := FollowerContract.mem_of_mapM hsubs hmem
      obtain ⟨_, -, hsame⟩ := FollowerContract.decreased_eq_some hmove
      have halive' : old.toDestroy = false := by simpa [← hsame] using halive
      obtain ⟨t, ht⟩ : ∃ t, old.expiresAt = .own t := by
        cases hdate : old.expiresAt with
        | service => exact absurd hdate (hown old hold halive')
        | own t => exact ⟨t, rfl⟩
      have hbefore := hbalance.expires old (List.mem_append_left _ (List.mem_filter.mpr ⟨hold, by simpa using halive'⟩))
      obtain ⟨d, hd, hmoves⟩ := decreased_moves hq hsmall hlow hhigh ht hmove
      rw [ht] at hbefore
      refine near_step hbefore ?_
      rw [hd]
      simp only [ExpiresAt.date]
      exact_mod_cast hmoves
    · have hzero : (sub.expiresAt.date fs'.expiresAt : ℚ) - fs'.expiresAt = 0 := by
        rw [h.shared sub (hadd ▸ hsub)]
        exact sub_self _
      rw [hzero, abs_zero]
      positivity

/-- Saving and loading changes no date by more than it was off. -/
theorem reload (h : Kept c s fs) : ∃ fs', Kept c { s with me := s.me.reload } fs' := by
  refine ⟨fs, ?_, ⟨h.balance.muted, h.balance.started, h.balance.spent, ?_⟩, h.wholeExpires, h.wholeMuted,
    h.inRange, nofun⟩
  · have hexpires : fs.expiresAt / 1000 * 1000 = fs.expiresAt := by have := h.wholeExpires; omega
    have hmuted : fs.mutedAt / 1000 * 1000 = fs.mutedAt := by have := h.wholeMuted; omega
    simp [Environment.reload, h.service, hexpires, hmuted]
  · intro sub hsub
    have hsub' : sub ∈ s.me.reload.subscriptionsSet := by
      rcases List.mem_append.mp hsub with hsub | hsub
      · exact List.mem_of_mem_filter hsub
      · exact absurd hsub List.not_mem_nil
    obtain ⟨old, hold, rfl⟩ := List.mem_map.mp hsub'
    have hbefore : |old.expiresAt.date fs.expiresAt - fs.expiresAt| ≤ 1000 * (s.steps : ℤ) := by
      exact_mod_cast h.balance.expires old hold
    have hfloor : |old.expiresAt.date fs.expiresAt / 1000 * 1000 - fs.expiresAt| ≤ 1000 * (s.steps : ℤ) := by
      have hwhole := h.wholeExpires
      rw [abs_le] at hbefore ⊢
      omega
    simp only [h.service, Option.elim, ExpiresAt.date]
    exact_mod_cast hfloor

/-- A callback that is refused changes nothing. -/
theorem refused {now : ℤ} {answer : Environment × Except JsError Unit} (h : Kept c s fs)
    (hstep : c.startCallback now s.me = some answer) (hmuted : (s.me.getFollowerService now).mutedAt < now) :
    Kept c { s with me := answer.1, steps := s.steps + 1 } fs := by
  have hme : answer.1 = s.me := by
    have hget : s.me.getFollowerService now = fs := by simp [Environment.getFollowerService, h.service]
    have hwith : s.me.withService fs = s.me := by rw [Environment.withService, ← h.service]
    rw [hget] at hmuted
    simp only [FollowerContract.startCallback, if_pos hmuted, hget, hwith, Option.some.injEq] at hstep
    rw [← hstep]
  rw [hme]
  refine ⟨h.service, ⟨?_, h.balance.started, h.balance.spent, fun sub hsub => ?_⟩, h.wholeExpires, h.wholeMuted,
    h.inRange, h.shared⟩
  · exact h.balance.muted.trans (more_steps s.steps)
  · exact (h.balance.expires sub hsub).trans (more_steps s.steps)

end Kept

/-- A service that a fresh environment would get is not muted. -/
theorem not_muted_fresh {s : State} (h : Fresh s) (now : ℤ) : ¬ (s.me.getFollowerService now).mutedAt < now := by
  simp only [Environment.getFollowerService, h.noService, Option.getD_none, FollowerService.new]
  omega

/-- What was loaded in balance is kept. -/
theorem kept_of_loaded {c : FollowerContract} {s : State} {fs : FollowerService} (hloaded : Loaded s.me)
    (hfs : s.me.followerService = some fs) (hbalance : Balance c s fs) : Kept c s fs := by
  have hservice := congrArg Environment.followerService hloaded.reloaded
  have hadd := congrArg Environment.subscriptionsToAdd hloaded.reloaded
  simp only [Environment.reload, hfs, Option.map_some, Option.some.injEq] at hservice hadd
  have hexpires := congrArg FollowerService.expiresAt hservice
  have hmuted := congrArg FollowerService.mutedAt hservice
  simp only at hexpires hmuted
  exact ⟨hfs, hbalance, by omega, by omega, hloaded.inRange fs hfs, fun sub hsub =>
    absurd (hadd ▸ hsub) List.not_mem_nil⟩

/-- A clean run keeps a fresh environment fresh or a service in balance. -/
theorem kept_step {c : FollowerContract} {s s' : State} {a : Action} (h : Fresh s ∨ ∃ fs, Kept c s fs)
    (hclean : Clean c s a) (hstep : step c s a = some s') : Fresh s' ∨ ∃ fs, Kept c s' fs := by
  cases a with
  | updateSubscriptions now =>
      obtain ⟨me', hme, hs⟩ := Option.bind_eq_some_iff.mp hstep
      obtain rfl := Option.some.inj hs
      obtain ⟨hadd, hapart⟩ := hclean
      rcases h with h | ⟨fs, h⟩
      · exact Or.inr (Kept.updateSubscriptions hme hadd hapart
          (by simp [Environment.getFollowerService, h.noService, h.noneOpen, FollowerService.new])
          (by simp [Environment.getFollowerService, h.noService, h.nonePaid, FollowerService.new]))
      · exact Or.inr (Kept.updateSubscriptions hme hadd hapart
          (by simpa [Environment.getFollowerService, h.service] using h.balance.started)
          (by simpa [Environment.getFollowerService, h.service] using h.balance.spent))
  | approvedWithCallback now | revokedWithCallback now =>
      obtain ⟨answer, hanswer, hs⟩ := Option.bind_eq_some_iff.mp hstep
      obtain rfl := Option.some.inj hs
      rcases h with h | ⟨fs, h⟩
      · exact absurd hclean (not_muted_fresh h now)
      · exact Or.inr ⟨fs, h.refused hanswer hclean⟩
  | completed now =>
      obtain ⟨_, hopen, hstep⟩ := Option.bind_eq_some_iff.mp hstep
      obtain ⟨me', hme, hs⟩ := Option.bind_eq_some_iff.mp hstep
      obtain rfl := Option.some.inj hs
      have hopen' : 0 < s.unfinished := Nat.pos_of_ne_zero (by simpa [guard] using hopen)
      obtain ⟨hown, hapart, hspent⟩ := hclean
      rcases h with h | ⟨fs, h⟩
      · exact absurd hopen' (by simp [h.noneOpen])
      · exact Or.inr (h.completed hme hopen' hown hapart hspent)
  | failed now | spent now => exact absurd hclean id
  | reload =>
      obtain rfl := Option.some.inj hstep
      rcases h with h | ⟨fs, h⟩
      · refine Or.inl ⟨?_, ?_, rfl, h.noneOpen, h.nonePaid, h.noStep⟩
        · simp [Environment.reload, h.noService]
        · simp [Environment.reload, Environment.subscriptions, h.noSubscriptions, h.noneToAdd]
      · exact Or.inr h.reload

/-- CODE DEFECT (accounts): in every clean run from an environment that is fresh, or loaded in balance, the
    accounts of the service are in balance after each step; `changeMutedAt` and the shared date break them in
    others. -/
theorem balanced_run {c : FollowerContract} {s₀ s : State} {actions : List Action}
    (hstart : Fresh s₀ ∨ Loaded s₀.me ∧ Balanced c s₀) (hclean : Run.Meets (step c) (Clean c) s₀ actions)
    (hrun : Run.run (step c) s₀ actions = some s) : 0 < s.steps → Balanced c s := by
  have hinit : Fresh s₀ ∨ ∃ fs, Kept c s₀ fs := by
    rcases hstart with h | ⟨hloaded, fs, hfs, hbalance⟩
    · exact Or.inl h
    · exact Or.inr ⟨fs, kept_of_loaded hloaded hfs hbalance⟩
  intro hsteps
  rcases Run.invariant (fun _ _ _ => kept_step) hinit hclean hrun with h | ⟨fs, h⟩
  · exact absurd hsteps (by simp [h.noStep])
  · exact ⟨fs, h.service, h.balance⟩

/-! ### A contract of one origin -/

instance (c : FollowerContract) (s : State) (a : Action) : Decidable (Clean c s a) :=
  match a with
  | .updateSubscriptions _ => inferInstanceAs (Decidable (s.me.subscriptionsToAdd = [] ∧ _))
  | .approvedWithCallback now | .revokedWithCallback now =>
      inferInstanceAs (Decidable ((s.me.getFollowerService now).mutedAt < now))
  | .completed _ =>
      inferInstanceAs (Decidable ((∀ sub ∈ s.me.subscriptionsSet, sub.toDestroy = false → sub.expiresAt ≠ .service) ∧
        _ ∧ _))
  | .failed _ | .spent _ => inferInstanceAs (Decidable False)
  | .reload => inferInstanceAs (Decidable True)

/-- One origin, and a callback costs a day. -/
def oneOrigin : FollowerContract where
  paidU := .fin 10
  rate := .fin 3
  parentContract := none
  callbackRate := 1
  double := by exact_mod_cast Number.ofRat_int (z := 1) (by decide)
  trackingOrigins := [⟨"origin"⟩]
  nodup := by simp
  tracks := nofun

/-- Loaded in balance, with a callback started: the service follows until day 100. -/
def loaded : State where
  me :=
    { followerService := some ⟨100 * 86400000, 98 * 86400000, .fin 0, 1⟩
      subscriptionsSet := [⟨⟨"origin"⟩, .own (100 * 86400000), false⟩]
      subscriptionsToAdd := [] }
  unfinished := 1
  paid := 0
  steps := 0

theorem loaded_balanced : Loaded loaded.me ∧ Balanced oneOrigin loaded := by
  refine ⟨⟨rfl, ?_⟩, _, rfl, ?_⟩
  · intro fs hfs
    obtain rfl := Option.some.inj hfs
    decide
  · constructor <;> simp [loaded, oneOrigin, Environment.subscriptions, ExpiresAt.date]
    norm_num

/-- The callback completes, another is refused on day 98, and on day 99 a revision updates the
    subscriptions. -/
def paidCallback : List Action :=
  [.completed (50 * 86400000), .approvedWithCallback (98 * 86400000 + 1), .reload,
   .updateSubscriptions (99 * 86400000), .reload]

theorem balanced_run_paid : ∃ s, Run.run (step oneOrigin) loaded paidCallback = some s ∧
    s.steps = 3 ∧ s.paid = 1 ∧ Balanced oneOrigin s := by
  have hend : (Run.run (step oneOrigin) loaded paidCallback).map (fun s => (s.steps, s.paid)) = some (3, 1) := by
    decide +kernel
  obtain ⟨s, hrun, hs⟩ := Option.map_eq_some_iff.mp hend
  obtain ⟨hsteps, hpaid⟩ := Prod.mk.inj hs
  have hclean : Run.Meets (step oneOrigin) (Clean oneOrigin) loaded paidCallback :=
    Run.meets_of_passes (fun _ _ => of_decide_eq_true) (by decide +kernel)
  exact ⟨s, hrun, hsteps, hpaid, balanced_run (Or.inr loaded_balanced) hclean hrun (hsteps ▸ Nat.succ_pos 2)⟩

/-- An environment that has nothing yet. -/
def fresh : State := ⟨⟨none, [], []⟩, 0, 0, 0⟩

/-- A callback that is started after the first update leaves the service off by two days. -/
theorem started_not_balanced : ¬ ∀ (c : FollowerContract) (s₀ s : State) (actions : List Action), Fresh s₀ →
    Run.run (step c) s₀ actions = some s → 0 < s.steps → Balanced c s := by
  intro h
  have hend : (Run.run (step oneOrigin) fresh [.updateSubscriptions 0, .approvedWithCallback 0]).map
      (fun s => (s.me.followerService, s.steps)) = some (some ⟨29 * 86400000, 29 * 86400000, .fin 0, 1⟩, 2) := by
    decide +kernel
  obtain ⟨s, hrun, hafter⟩ := Option.map_eq_some_iff.mp hend
  obtain ⟨hservice, hsteps⟩ := Prod.mk.inj hafter
  obtain ⟨fs, hfs, hbalance⟩ := h oneOrigin fresh s _ ⟨rfl, rfl, rfl, rfl, rfl, rfl⟩ hrun (hsteps ▸ Nat.succ_pos 1)
  obtain rfl := Option.some.inj (hservice.symm.trans hfs)
  have hmuted := hbalance.muted
  norm_num [hsteps, oneOrigin, abs_le] at hmuted

end Universa.Services.Follower
