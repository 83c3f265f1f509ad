import Universa.Contracts.Prunes

/-! Only permitted changes pass: an accepted revision is permitted iff no change of it slips through
    uncovered. -/

namespace Universa.Contracts
open Universa.Js

/-! ### From the code's rule to the permission's -/

theorem whitelisted_mem {value : Value} : ∀ {vs : List Value}, whitelisted value vs = some true →
    ∃ v ∈ vs, valuesEqual v value = some true ∨ (blank v = true ∧ blank value = true)
  | v :: vs, h => by
      simp only [whitelisted, Option.bind_eq_bind, Option.bind_eq_some_iff] at h
      obtain ⟨same, hsame, h⟩ := h
      cases same with
      | true => exact ⟨v, List.mem_cons_self, .inl hsame⟩
      | false =>
          cases hb : blank value && blank v with
          | true => exact ⟨v, List.mem_cons_self, .inr (by simpa [and_comm] using hb)⟩
          | false =>
              simp only [hb, Bool.false_eq_true, if_false] at h
              obtain ⟨w, hw, hv⟩ := whitelisted_mem h
              exact ⟨w, List.mem_cons_of_mem _ hw, hv⟩

theorem acceptsChange_listed {fields : Option (List (String × Value))} {k : String} {v : Value}
    (h : acceptsChange fields k v = some true) : ∃ fs w, fields = some fs ∧ fs.lookup k = some w ∧
      (w = .null ∨ ∃ vs, iterate w = some vs ∧ ∃ u ∈ vs,
        valuesEqual u v = some true ∨ (blank u = true ∧ blank v = true)) := by
  unfold acceptsChange at h
  split at h
  · cases h
  next fs =>
    simp only [Option.bind_eq_bind, Option.bind_eq_some_iff] at h
    obtain ⟨own, hown, h⟩ := h
    cases own with
    | false => simp at h
    | true =>
        obtain ⟨w, hw⟩ := mem_keys_iff.mp (by simpa using hasOwn_some hown)
        refine ⟨fs, w, rfl, hw, ?_⟩
        rw [hw] at h
        simp only [Bool.not_true, Bool.false_eq_true, if_false] at h
        split at h
        next heq => cases heq
        next heq => exact .inl (Option.some.inj heq)
        next u _ heq =>
          obtain rfl := Option.some.inj heq
          obtain ⟨vs, hvs, h⟩ := Option.bind_eq_some_iff.mp h
          exact .inr ⟨vs, hvs, whitelisted_mem h⟩

theorem forbidden_none {k : String} {d : Delta} : ∀ {changes : Changes},
    forbidden changes = some [] → changes.lookup k = some d → d.isEmpty = true
  | (field, d') :: rest, h, hl => by
      rw [forbidden] at h
      split at h
      next he =>
        rw [List.lookup_cons] at hl
        split at hl
        · exact Option.some.inj hl ▸ he
        · exact forbidden_none h hl
      next =>
        simp [Option.bind_eq_some_iff] at h

/-- What an empty list of errors says about the two contracts. -/
structure Accepted (existing changed : Contract) (context : Option Context)
    (stateChanges : Changes) (s : Progress) : Prop where
  definition : ∃ d₁ d₂, existing.serializeDefinition = some d₁ ∧
    changed.serializeDefinition = some d₂ ∧ (Same d₁ d₂ ↔ SkippedSame d₁ d₂)
  state : ∃ r, between (.obj existing.serializeState) (.obj changed.serializeState) = some r ∧
    shown r = stateChanges
  revision : revisionErrors (checkedChanges stateChanges) = []
  createdAt : createdAtErrors (erase (checkedChanges stateChanges) "revision") = some []
  permitted : excludePermittedChanges changed context existing.definition.allPermissions
    ⟨erase (erase (checkedChanges stateChanges) "revision") "created_at", changed.revokingItems⟩ =
      some s
  left : forbidden s.stateChanges = some []

/-- The entries `Contract.serialize` makes. -/
def rootEntries (c : Contract) (definition : Value) : List (String × Value) :=
  [("api_level", .num c.apiLevel), ("definition", definition),
      ("state", .obj c.serializeState)] ++
    (match c.transactional with | some t => [("transactional", t)] | none => []) ++
    [("__type", .str "UniversaContract")]

theorem rootKeys_nodup (c : Contract) (definition : Value) :
    (keys (rootEntries c definition)).Nodup := by
  unfold rootEntries
  cases c.transactional <;> simp [keys]

theorem lookup_definition (c : Contract) (definition : Value) :
    (rootEntries c definition).lookup "definition" = some definition := rfl

theorem errorUnless_nil {ok : Bool} {e : ErrorRecord} (h : errorUnless ok e = []) : ok = true := by
  cases ok with
  | true => rfl
  | false => cases h

theorem checkErrors_accepted {existing changed : Contract} {context : Option Context}
    (h : checkErrors existing changed context = some []) :
    ∃ stateChanges s, Accepted existing changed context stateChanges s := by
  obtain ⟨⟨errors, left⟩, h, rfl⟩ := Option.map_eq_some_iff.mp h
  simp only [checkDelta, Option.bind_eq_bind, Option.bind_eq_some_iff] at h
  obtain ⟨s₁, hs₁, s₂, hs₂, r, hr, h⟩ := h
  split at h
  case h_2 => cases h
  next o n changes =>
    split at h
    case h_2 => cases h
    next o' n' stateChanges hstate =>
      simp only [Option.bind_eq_some_iff] at h
      obtain ⟨⟨errors, left'⟩, hcheck, h⟩ := h
      obtain ⟨herr, -⟩ := Prod.ext_iff.mp (Option.some.inj h)
      obtain ⟨hroot, rfl⟩ := List.append_eq_nil_iff.mp herr
      simp only [Contract.serialize, Option.bind_eq_bind, Option.bind_eq_some_iff] at hs₁ hs₂
      obtain ⟨d₁, hd₁, hs₁⟩ := hs₁
      obtain ⟨d₂, hd₂, hs₂⟩ := hs₂
      obtain rfl := Option.some.inj hs₁
      obtain rfl := Option.some.inj hs₂
      simp only [checkStateChange, Option.bind_eq_bind, Option.bind_eq_some_iff] at hcheck
      obtain ⟨createdAt, hcreated, s, hs, rest, hrest, hcheck⟩ := hcheck
      obtain ⟨hnil, -⟩ := Prod.ext_iff.mp (Option.some.inj hcheck)
      simp only [List.append_eq_nil_iff] at hnil
      obtain ⟨⟨⟨-, hrev⟩, rfl⟩, rfl⟩ := hnil
      refine ⟨stateChanges, s, ⟨d₁, d₂, hd₁, hd₂, ?_⟩, ?_, hrev, hcreated, hs, hrest⟩
      · -- the definition has no node at the root
        have hdef : changes.lookup "definition" = none :=
          not_mem_keys (by simpa using errorUnless_nil (List.append_eq_nil_iff.mp hroot).1)
        obtain ⟨cs, created, hc, hn, hshown⟩ := shown_between hr
        have happ : changes = cs ++ created := hshown
        rw [happ, List.lookup_append] at hdef
        have hskip : skipped "definition" = false := by decide
        rcases mapChanges_shows hskip (lookup_definition existing d₁) hc with ⟨-, hl⟩ | ⟨w, hw, hb⟩
        · simp [hl] at hdef
        · obtain rfl : d₂ = w := Option.some.inj hw
          rcases hb with hb | ⟨d, hb, hl⟩
          · exact between_same d₁ d₂ hb
          · simp [hl] at hdef
      · obtain ⟨v, hv | hv⟩ | ⟨v, w, hv, hw, hb⟩ := shown_entry hr (rootKeys_nodup existing d₁) hstate
        · cases hv
        · cases hv
        · obtain rfl := Option.some.inj hv
          obtain rfl := Option.some.inj hw
          exact ⟨_, hb, rfl⟩

theorem lookup_checked {stateChanges : Changes} {k : String}
    (hk : k ∉ ["created_by", "parent", "origin"]) :
    (checkedChanges stateChanges).lookup k = stateChanges.lookup k := by
  simp only [List.mem_cons, List.not_mem_nil, or_false, not_or] at hk
  rw [checkedChanges, lookup_erase_ne hk.2.2, lookup_erase_ne hk.2.1, lookup_erase_ne hk.1]

/-- The nodes the permissions start from are those of the state's delta. -/
theorem start_node (stateChanges : Changes) (items : List Contract) {place : Place}
    (hc : place.Checked) :
    Progress.node ⟨erase (erase (checkedChanges stateChanges) "revision") "created_at", items⟩
      place = Progress.node ⟨stateChanges, items⟩ place := by
  have hlookup (k : String)
      (hk : k ∉ ["created_by", "parent", "origin", "revision", "created_at"]) :
      (erase (erase (checkedChanges stateChanges) "revision") "created_at").lookup k =
        stateChanges.lookup k := by
    simp only [List.mem_cons, List.not_mem_nil, or_false, not_or] at hk
    rw [lookup_erase_ne hk.2.2.2.2, lookup_erase_ne hk.2.2.2.1, lookup_checked (by simp [hk])]
  cases place with
  | field k =>
      have hk : k ∉ ["created_by", "parent", "origin", "revision", "created_at"] := by
        simp only [Place.Checked, List.mem_cons, List.not_mem_nil, or_false, not_or] at hc ⊢
        tauto
      exact hlookup k hk
  | role k => simp only [Progress.node, Progress.mapOf, hlookup "roles" (by decide)]
  | data k => simp only [Progress.node, Progress.mapOf, hlookup "data" (by decide)]

/-- Nothing is left at a checked place. -/
theorem left_node {s : Progress} (h : forbidden s.stateChanges = some []) {place : Place} {d : Delta}
    (hd : s.node place = some d) : d.isEmpty = true := by
  have hmap {f k : String} (hd : (s.mapOf f).bind (·.lookup k) = some d) : False := by
    obtain ⟨cs, hcs, hl⟩ := Option.bind_eq_some_iff.mp hd
    unfold Progress.mapOf at hcs
    split at hcs
    next o n cs' heq =>
      have hempty := forbidden_none h heq
      obtain rfl := Option.some.inj hcs
      rw [Delta.isEmpty, List.isEmpty_iff] at hempty
      simp [hempty] at hl
    next => cases hcs
  cases place with
  | field k => exact forbidden_none h hd
  | role k | data k => exact (hmap hd).elim

/-- A checked place that has a node at the start was let go by an allowed permission. -/
theorem Accepted.lets {existing changed : Contract} {context : Option Context}
    {stateChanges : Changes} {s : Progress}
    (hacc : Accepted existing changed context stateChanges s) {place : Place} {d : Delta}
    (hc : place.Checked) (hne : d.isEmpty = false)
    (hnode : Progress.node ⟨stateChanges, changed.revokingItems⟩ place = some d) :
    ∃ p, Allows existing changed p ∧
      p.Lets changed context ⟨stateChanges, changed.revokingItems⟩ place d := by
  have hstart := (start_node stateChanges changed.revokingItems hc).trans hnode
  have hback (place : Place) (hc : place.Checked) (d : Delta) (hd : Progress.node
      ⟨erase (erase (checkedChanges stateChanges) "revision") "created_at", changed.revokingItems⟩
      place = some d) : Progress.node ⟨stateChanges, changed.revokingItems⟩ place = some d :=
    (start_node stateChanges changed.revokingItems hc).symm.trans hd
  rcases excludePermittedChanges_node hback hacc.permitted place hc d hstart with
    hleft | ⟨p, hp, hkeys, hlet⟩
  · have hempty := left_node hacc.left hleft
    rw [hne] at hempty
    cases hempty
  · exact ⟨p, ⟨hp, hkeys⟩, hlet⟩

/-- A role of one key. -/
def keyRole (name key : String) : Role where
  tree := .obj [("name", .str name), ("key", .str key), ("__type", .str "SimpleRole")]
  isValid := true
  isAllowedForKeys keys := key ∈ keys

end Universa.Contracts
