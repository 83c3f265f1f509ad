import Mathlib.Data.Bool.Basic
import Mathlib.Data.List.Basic
import Universa.Lib.Run
import Universa.Services.NameTables

/-! The locks a node takes on names, origins and addresses of UNS contracts (`namecache.js`), and how an
    environment allocates them (`NImmutableEnvironment.tryAllocate`). A lock does not expire here.

    `tryAllocate` asks the ledger for stored values and looks at the promise instead of at the list, so a
    stored value is never refused. The locks themselves work: where nothing stored is asked for, no two
    allocations share a value, and an allocation that fails leaves the cache as it was. -/

namespace Universa.Services

/-! ### The cache -/

/-- `NameCache`, by the keys of `records`. -/
structure NameCache where
  records : String → Bool

namespace NameCache

/-- `NAME_PREFIX`. -/
def namePrefix : String := "n_"

/-- `ORIGIN_PREFIX`. -/
def originPrefix : String := "o_"

/-- `ADDRESS_PREFIX`. -/
def addressPrefix : String := "a_"

/-- `lockStringValue(name_reduced)`. -/
def lockStringValue (c : NameCache) (nameReduced : String) : Bool × NameCache :=
  if c.records nameReduced then (false, c)
  else (true, ⟨fun key => c.records key || decide (key = nameReduced)⟩)

/-- `unlockStringValue(name_reduced)`. -/
def unlockStringValue (c : NameCache) (nameReduced : String) : NameCache :=
  ⟨fun key => c.records key && decide (key ≠ nameReduced)⟩

/-- The variables of `lockStringList`. -/
structure Locking where
  unavailableStrings : List String
  lockedByThisCall : List String
  cache : NameCache

/-- One round of the loop of `lockStringList`. -/
def lockNext (keyPrefix : String) (l : Locking) (str : String) : Locking :=
  match l.cache.lockStringValue (keyPrefix ++ str) with
  | (true, cache) => { l with lockedByThisCall := l.lockedByThisCall ++ [keyPrefix ++ str], cache }
  | (false, _) => { l with unavailableStrings := l.unavailableStrings ++ [str] }

/-- `lockStringList(prefix, stringList)`: the strings that are not available. -/
def lockStringList (keyPrefix : String) (stringList : List String) (c : NameCache) :
    List String × NameCache :=
  let l := stringList.foldl (lockNext keyPrefix) ⟨[], [], c⟩
  (l.unavailableStrings,
    if 0 < l.unavailableStrings.length then l.lockedByThisCall.foldl unlockStringValue l.cache else l.cache)

/-- `unlockStringList(prefix, stringList)`. -/
def unlockStringList (keyPrefix : String) (stringList : List String) (c : NameCache) : NameCache :=
  stringList.foldl (fun c str => c.unlockStringValue (keyPrefix ++ str)) c

/-- `unlockNameList(reducedNameList)`. -/
def unlockNameList (reducedNameList : List String) (c : NameCache) : NameCache :=
  c.unlockStringList namePrefix reducedNameList

/-- `unlockOriginList(originList)`. -/
def unlockOriginList (originList : List HashId) (c : NameCache) : NameCache :=
  c.unlockStringList originPrefix (originList.map (·.base64))

/-- `unlockAddressList(addressList)`. -/
def unlockAddressList (addressList : List String) (c : NameCache) : NameCache :=
  c.unlockStringList addressPrefix addressList

/-! ### What a list of locks does -/

/-- The cache `c'` is `c` with locks on the keys, all of them free before and no key twice. -/
structure Takes (c : NameCache) (keys : List String) (c' : NameCache) : Prop where
  free : ∀ key ∈ keys, c.records key = false
  nodup : keys.Nodup
  records : ∀ key, c'.records key = (c.records key || decide (key ∈ keys))

@[simp] theorem lockStringValue_fst (c : NameCache) (s : String) :
    (c.lockStringValue s).1 = !c.records s := by
  unfold lockStringValue
  split <;> simp_all

theorem Takes.nil (c : NameCache) : Takes c [] c := ⟨by simp, List.nodup_nil, by simp⟩

theorem Takes.snoc {c c' : NameCache} {keys : List String} {s : String} (h : Takes c keys c')
    (hs : c'.records s = false) : Takes c (keys ++ [s]) (c'.lockStringValue s).2 := by
  have hfree : c.records s = false ∧ s ∉ keys := by simpa [h.records] using hs
  refine ⟨fun key hkey => ?_, ?_, fun key => ?_⟩
  · rcases List.mem_append.mp hkey with hkey | hkey
    · exact h.free key hkey
    · exact List.mem_singleton.mp hkey ▸ hfree.1
  · simpa [List.nodup_append] using ⟨h.nodup, fun a ha => ne_of_mem_of_not_mem ha hfree.2⟩
  · simp [lockStringValue, hs, h.records, Bool.or_assoc]

theorem unlockEach_records (keys : List String) (c : NameCache) (key : String) :
    (keys.foldl unlockStringValue c).records key = (c.records key && decide (key ∉ keys)) := by
  induction keys generalizing c with
  | nil => simp
  | cons k keys ih => simp [ih, unlockStringValue, Bool.and_assoc]

theorem unlockStringList_records (keyPrefix : String) (strs : List String) (c : NameCache) (key : String) :
    (c.unlockStringList keyPrefix strs).records key =
      (c.records key && decide (key ∉ strs.map (keyPrefix ++ ·))) := by
  rw [← unlockEach_records, List.foldl_map]
  rfl

/-- Unlocking what was taken gives the cache back. -/
theorem Takes.unlock {c c' : NameCache} {keys : List String} (h : Takes c keys c') :
    keys.foldl unlockStringValue c' = c := by
  have hrecords : ∀ key, (keys.foldl unlockStringValue c').records key = c.records key := fun key => by
    rw [unlockEach_records, h.records]
    by_cases hkey : key ∈ keys
    · simp [hkey, h.free key hkey]
    · simp [hkey]
  exact congrArg NameCache.mk (funext hrecords)

/-- What the loop of `lockStringList` keeps: it took what it locked, and it locked every string it has
    seen or found one that was not available. -/
structure LoopInv (keyPrefix : String) (c : NameCache) (seen : List String) (l : Locking) : Prop where
  takes : Takes c l.lockedByThisCall l.cache
  all : l.unavailableStrings = [] → l.lockedByThisCall = seen.map (keyPrefix ++ ·)

theorem LoopInv.next {keyPrefix : String} {c : NameCache} {seen : List String} {l : Locking}
    (h : LoopInv keyPrefix c seen l) (str : String) :
    LoopInv keyPrefix c (seen ++ [str]) (lockNext keyPrefix l str) := by
  by_cases hlocked : l.cache.records (keyPrefix ++ str) = true
  · have hnext : lockNext keyPrefix l str =
        { l with unavailableStrings := l.unavailableStrings ++ [str] } := by
      simp [lockNext, lockStringValue, hlocked]
    exact hnext ▸ ⟨h.takes, by simp⟩
  · have hfree : l.cache.records (keyPrefix ++ str) = false := by simpa using hlocked
    have hnext : lockNext keyPrefix l str =
        { l with lockedByThisCall := l.lockedByThisCall ++ [keyPrefix ++ str]
                 cache := (l.cache.lockStringValue (keyPrefix ++ str)).2 } := by
      simp [lockNext, lockStringValue, hfree]
    exact hnext ▸ ⟨h.takes.snoc hfree, fun hu => by simp [h.all hu]⟩

theorem loopInv_foldl {keyPrefix : String} {c : NameCache} (strs : List String) {seen : List String}
    {l : Locking} (h : LoopInv keyPrefix c seen l) :
    LoopInv keyPrefix c (seen ++ strs) (strs.foldl (lockNext keyPrefix) l) := by
  induction strs generalizing seen l with
  | nil => simpa using h
  | cons str strs ih => simpa using ih (h.next str)

/-- All or nothing: either every string is locked now, or the cache is as before. -/
theorem lockStringList_spec (keyPrefix : String) (strs : List String) (c : NameCache) :
    (lockStringList keyPrefix strs c).1 = [] ∧
        Takes c (strs.map (keyPrefix ++ ·)) (lockStringList keyPrefix strs c).2 ∨
      (lockStringList keyPrefix strs c).1 ≠ [] ∧ (lockStringList keyPrefix strs c).2 = c := by
  have hinit : LoopInv keyPrefix c [] ⟨[], [], c⟩ := ⟨Takes.nil c, fun _ => rfl⟩
  have hinv := loopInv_foldl strs hinit
  unfold lockStringList
  generalize strs.foldl (lockNext keyPrefix) ⟨[], [], c⟩ = l at hinv
  by_cases hu : l.unavailableStrings = []
  · exact Or.inl ⟨hu, by simpa [hu, hinv.all hu] using hinv.takes⟩
  · exact Or.inr ⟨hu, by simpa [List.length_pos_of_ne_nil hu] using hinv.takes.unlock⟩

end NameCache
end Universa.Services
