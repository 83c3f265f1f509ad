import Mathlib.Data.Nat.Notation
import Mathlib.Data.Int.Notation

/-! States of items and the records a ledger keeps of them (`itemstate.js`, `staterecord.js`): what each
    operation on a record makes of its fields, before it is saved. Times are in milliseconds, as the
    objects have them; `H` are the ids of items. -/

namespace Universa.Node

/-- `ItemState`. -/
inductive ItemState where
  | UNDEFINED
  | PENDING
  | PENDING_POSITIVE
  | PENDING_NEGATIVE
  | APPROVED
  | LOCKED
  | REVOKED
  | DECLINED
  | DISCARDED
  | LOCKED_FOR_CREATION
  | LOCKED_FOR_CREATION_REVOKED
  deriving DecidableEq

namespace ItemState

/-- `val`, the name in error messages. -/
def val : ItemState → String
  | UNDEFINED => "UNDEFINED"
  | PENDING => "PENDING"
  | PENDING_POSITIVE => "PENDING_POSITIVE"
  | PENDING_NEGATIVE => "PENDING_NEGATIVE"
  | APPROVED => "APPROVED"
  | LOCKED => "LOCKED"
  | REVOKED => "REVOKED"
  | DECLINED => "DECLINED"
  | DISCARDED => "DISCARDED"
  | LOCKED_FOR_CREATION => "LOCKED_FOR_CREATION"
  | LOCKED_FOR_CREATION_REVOKED => "LOCKED_FOR_CREATION_REVOKED"

/-- `isPending`. -/
def isPending : ItemState → Bool
  | PENDING | PENDING_POSITIVE | PENDING_NEGATIVE => true
  | _ => false

/-- `isPositive`. -/
def isPositive : ItemState → Bool
  | PENDING_POSITIVE | APPROVED | LOCKED => true
  | _ => false

/-- `isConsensusFound`. -/
def isConsensusFound : ItemState → Bool
  | APPROVED | LOCKED | REVOKED | DECLINED => true
  | _ => false

end ItemState

/-- What a ledger operation throws: `IllegalStateError`, a `DatabaseError`, or the `TypeError` of reading
    a field of `undefined`. -/
inductive LedgerError where
  | illegalState (message : String)
  | database
  | typeError
  deriving DecidableEq

namespace Config

/-- `Config.maxElectionsTime`, in seconds. -/
def maxElectionsTime : ℤ := 15 * 60

/-- `Config.maxItemCreationAge`, in seconds. -/
def maxItemCreationAge : ℤ := 5 * 24 * 3600

/-- `Config.revokedItemExpiration`, in seconds. -/
def revokedItemExpiration : ℤ := maxItemCreationAge + 10 * 24 * 3600

/-- `Config.declinedItemExpiration`, in seconds. -/
def declinedItemExpiration : ℤ := 10 * 24 * 3600

end Config

/-- `StateRecord`. -/
structure StateRecord (H : Type) where
  recordId : ℕ
  lockedByRecordId : ℕ
  id : H
  state : ItemState
  createdAt : ℤ
  expiresAt : ℤ
  isJustCreated : Bool
  deriving DecidableEq

namespace StateRecord
variable {H : Type}

/-- `isExpired()`. -/
def isExpired (now : ℤ) (r : StateRecord H) : Bool := decide (r.expiresAt < now)

/-- The error of an operation in a wrong state. -/
def wrongState (operation : String) (r : StateRecord H) : LedgerError :=
  .illegalState (operation ++ " record from wrong state: " ++ r.state.val)

/-- `revoke(connection, force)`. -/
def revoke (now : ℤ) (force : Bool) (r : StateRecord H) : Except LedgerError (StateRecord H) :=
  if r.state = .LOCKED ∨ r.state = .LOCKED_FOR_CREATION_REVOKED ∨
      (force ∧ (r.state.isPending ∨ r.state = .UNDEFINED ∨ r.state = .APPROVED)) then
    .ok { r with state := .REVOKED, expiresAt := now + Config.revokedItemExpiration * 1000 }
  else .error (wrongState "attempt to revoke" r)

/-- `approve(connection, newExpiresAt, force, buffering)`. -/
def approve (newExpiresAt : Option ℤ) (force : Bool) (r : StateRecord H) :
    Except LedgerError (StateRecord H) :=
  if r.state.isPending ∨ r.state = .LOCKED_FOR_CREATION ∨
      (force ∧ (r.state = .UNDEFINED ∨ r.state = .LOCKED ∨ r.state = .APPROVED)) then
    .ok { r with state := .APPROVED, expiresAt := newExpiresAt.getD r.expiresAt }
  else .error (wrongState "attempt to approve" r)

/-- `decline(connection, force)`. -/
def decline (now : ℤ) (force : Bool) (r : StateRecord H) : Except LedgerError (StateRecord H) :=
  if r.state.isPending ∨ (force ∧ r.state = .UNDEFINED) then
    .ok { r with state := .DECLINED, expiresAt := now + Config.declinedItemExpiration * 1000 }
  else .error (wrongState "attempt to decline" r)

/-- `setPendingPositive(connection)`. -/
def setPendingPositive (r : StateRecord H) : Except LedgerError (StateRecord H) :=
  if r.state = .PENDING then .ok { r with state := .PENDING_POSITIVE }
  else .error (wrongState "attempt setPendingPositive" r)

/-- `setPendingNegative(connection)`. -/
def setPendingNegative (r : StateRecord H) : Except LedgerError (StateRecord H) :=
  if r.state = .PENDING then .ok { r with state := .PENDING_NEGATIVE }
  else .error (wrongState "attempt setPendingNegative" r)

end StateRecord
end Universa.Node
