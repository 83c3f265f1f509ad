import Universa.Contracts.Permission

/-! `contractdelta.js`: the check of a new revision against the existing contract. The changes of the
    state are computed once, the permissions that the keys allow delete what they cover, and each
    change left over is an error. `none` is an exception; it is thrown on, so the check that throws
    accepts nothing. The quantas the check spends are not modelled. -/

namespace Universa.Contracts
open Universa.Js

/-- The kinds of errors the check of a contract records. -/
inductive Errors where
  | ILLEGAL_CHANGE
  | BADSTATE
  | BAD_VALUE
  | BAD_REF
  | FORBIDDEN
  | ISSUER_MUST_CREATE
  | FAILED_CHECK
  deriving DecidableEq

/-- `ErrorRecord`. -/
structure ErrorRecord where
  error : Errors
  objectName : String
  message : String
  deriving DecidableEq

/-- `ContractDelta.insignificantKeys`. -/
def insignificantKeys : List String :=
  ["created_at", "created_by", "revision", "branch_id", "parent", "origin"]

/-- An error unless `ok`. -/
def errorUnless (ok : Bool) (e : ErrorRecord) : List ErrorRecord := if ok then [] else [e]

/-- `newValue.getTime() <= oldValue.getTime()`; anything but two dates throws. -/
def notLater : Delta → Option Bool
  | .changed (.date o) (.date n) => some (decide (n ≤ o))
  | _ => none

/-- `oldValue + 1 === newValue` for the revision. -/
def incremented : Delta → Bool
  | .changed (.num o) (.num n) => o.succ.eq n
  | _ => false

/-- `excludePermittedChanges`. -/
def excludePermittedChanges (changed : Contract) (context : Option Context) :
    List Permission → Progress → Option Progress
  | [], s => some s
  | p :: rest, s =>
      if p.isAllowedForKeys changed.effectiveKeys then do
        let s ← p.checkChanges changed context changed.effectiveKeys s
        excludePermittedChanges changed context rest s
      else excludePermittedChanges changed context rest s

/-- The message of a change that no permission covers. -/
def forbiddenMessage (d : Delta) : Option String := do
  let reason := match d with
    | .map _ _ changes => " in [" ++ ",".intercalate (changes.map fun e => "\"" ++ e.1 ++ "\"") ++ "]"
    | _ => ""
  let oldText ← text d.oldValue
  let newText ← text d.newValue
  return "not permitted changes" ++ reason ++ ": " ++ oldText ++ " -> " ++ newText

/-- The errors of the changes left over. -/
def forbidden : Changes → Option (List ErrorRecord)
  | [] => some []
  | (field, d) :: rest =>
      if d.isEmpty then forbidden rest else do
      let message ← forbiddenMessage d
      return ⟨.FORBIDDEN, "state." ++ field, message⟩ :: (← forbidden rest)

/-- The check of `created_at`. -/
def createdAtErrors (stateChanges : Changes) : Option (List ErrorRecord) :=
  match stateChanges.lookup "created_at" with
  | none => some []
  | some d => do
      return errorUnless (!(← notLater d))
        ⟨.BAD_VALUE, "state.created_at", "new creation datetime is before old one"⟩

/-- The check of `revision`. -/
def revisionErrors (stateChanges : Changes) : List ErrorRecord :=
  match stateChanges.lookup "revision" with
  | none => [⟨.BAD_VALUE, "state.revision", "is not incremented"⟩]
  | some d => errorUnless (incremented d) ⟨.BAD_VALUE, "state.revision", "wrong revision number"⟩

/-- The changes left when `created_by`, `parent` and `origin` are taken out. -/
def checkedChanges (stateChanges : Changes) : Changes :=
  erase (erase (erase stateChanges "created_by") "parent") "origin"

/-- `checkStateChange`: its errors, and the revoked contracts left. -/
def checkStateChange (existing changed : Contract) (context : Option Context)
    (stateChanges : Changes) : Option (List ErrorRecord × List Contract) := do
  let stateChanges := checkedChanges stateChanges
  let identical := errorUnless ((keys stateChanges).any (· ∉ insignificantKeys))
    ⟨.BADSTATE, "", "new state is identical"⟩
  let revision := revisionErrors stateChanges
  let stateChanges := erase stateChanges "revision"
  let createdAt ← createdAtErrors stateChanges
  let stateChanges := erase stateChanges "created_at"
  let s ← excludePermittedChanges changed context existing.definition.allPermissions
    ⟨stateChanges, changed.revokingItems⟩
  let left ← forbidden s.stateChanges
  return (identical ++ revision ++ createdAt ++ left, s.revokingItems)

/-- The errors at the root of the contract. -/
def rootErrors (changes : Changes) : List ErrorRecord :=
  let allowedRootChanges := 1 + (if "api_level" ∈ keys changes then 1 else 0) +
    (if "transactional" ∈ keys changes then 1 else 0)
  errorUnless (decide ("definition" ∉ keys changes))
      ⟨.ILLEGAL_CHANGE, "definition", "definition must not be changed"⟩ ++
    errorUnless (decide (changes.length ≤ allowedRootChanges))
      ⟨.ILLEGAL_CHANGE, "root", "root level changes are forbidden except the state"⟩

/-- `ContractDelta(existing, changed).check()`: the errors it adds to `changed`, and the revoked
    contracts that still need a revoke permission. -/
def checkDelta (existing changed : Contract) (context : Option Context) :
    Option (List ErrorRecord × List Contract) := do
  let s1 ← existing.serialize
  let s2 ← changed.serialize
  match ← between (.obj s1) (.obj s2) with
  | some (.map _ _ changes) =>
      match changes.lookup "state" with
      | some (.map _ _ stateChanges) => do
          let (errors, left) ← checkStateChange existing changed context stateChanges
          return (rootErrors changes ++ errors, left)
      | _ => none -- an unchanged state has no delta to read changes of
  | _ => none

/-- The errors `check()` adds to the changed contract. -/
def checkErrors (existing changed : Contract) (context : Option Context) :
    Option (List ErrorRecord) :=
  (checkDelta existing changed context).map Prod.fst

end Universa.Contracts
