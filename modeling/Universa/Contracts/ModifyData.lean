import Universa.Contracts.PermittedChanges
import Universa.Js.DeltaSees

/-! `ModifyDataPermission.checkChanges` against its whitelist: which changes of the delta between two
    states it is to remove, and when it removes just these.

    The loop over the root fields is written `for..in`, so it runs over the indexes of the list and
    never meets `references` or `expires_at`. A created item has no `newValue`. `t.valuesEqual` compares
    objects one way only, and may throw. -/

namespace Universa.Contracts
open Universa.Js

/-! ### The whitelist -/

/-- What the loop over a whitelist takes for the value. -/
def Accepts (v value : Value) : Prop :=
  valuesEqual v value = some true ∨ (blank v = true ∧ blank value = true)

/-- What a whitelist is to take for the value: an equal one, where null, absent and "" are one. -/
def Matches (v value : Value) : Prop := Same v value ∨ (blank v = true ∧ blank value = true)

/-- Every entry up to the first that is accepted is compared without an exception. -/
def Compared (value : Value) : List Value → Prop
  | [] => True
  | v :: vs => ∃ same, valuesEqual v value = some same ∧
      (same = true ∨ (blank v = true ∧ blank value = true) ∨ Compared value vs)

theorem whitelisted_answers {value : Value} : ∀ {vs : List Value},
    (∃ b, whitelisted value vs = some b) ↔ Compared value vs
  | [] => by simp [whitelisted, Compared]
  | v :: vs => by
      have hih := @whitelisted_answers value vs
      simp only [whitelisted, Compared, ← hih]
      cases valuesEqual v value with
      | none => simp
      | some same =>
          cases same <;> cases hv : blank v <;> cases hn : blank value <;> simp

theorem whitelisted_true {value : Value} : ∀ {vs : List Value} {b : Bool},
    whitelisted value vs = some b → (b = true ↔ ∃ v ∈ vs, Accepts v value)
  | [], b, h => by
      obtain rfl := Option.some.inj h
      simp
  | v :: vs, b, h => by
      simp only [whitelisted, Option.bind_eq_bind, Option.bind_eq_some_iff] at h
      obtain ⟨same, hsame, h⟩ := h
      simp only [List.mem_cons, exists_eq_or_imp, Accepts, hsame]
      cases same with
      | true =>
          obtain rfl := Option.some.inj h
          simp
      | false =>
          cases hv : blank value && blank v with
          | true =>
              rw [hv] at h
              obtain rfl := Option.some.inj h
              rw [Bool.and_eq_true] at hv
              simp [hv]
          | false =>
              simp only [hv, Bool.false_eq_true, if_false] at h
              rw [whitelisted_true h]
              have hnot : ¬ (blank v = true ∧ blank value = true) := by
                rintro ⟨h₁, h₂⟩
                simp [h₁, h₂] at hv
              simp [hnot, Accepts]

theorem acceptsChange_answers {fs : List (String × Value)} {k : String} {value : Value} :
    (∃ b, acceptsChange (some fs) k value = some b) ↔ "hasOwnProperty" ∉ keys fs ∧
      ∀ w, fs.lookup k = some w → w ≠ .null → ∃ vs, iterate w = some vs ∧ Compared value vs := by
  rw [← hasOwn_ne_none (k := k)]
  cases hown : hasOwn fs k with
  | none => simp [acceptsChange, hown]
  | some own =>
      have hin := hasOwn_some hown
      cases own with
      | false =>
          have hw := not_mem_keys (of_decide_eq_false hin.symm)
          simp [acceptsChange, hown, hw]
      | true =>
          obtain ⟨w, hw⟩ := mem_keys_iff.mp (of_decide_eq_true hin.symm)
          have hscan : (∃ b, (iterate w).bind (whitelisted value) = some b) ↔
              ∃ vs, iterate w = some vs ∧ Compared value vs := by
            simp only [← whitelisted_answers, Option.bind_eq_some_iff]
            tauto
          cases w with
          | null => simp [acceptsChange, hown, hw]
          | _ => simp_all [acceptsChange]

theorem acceptsChange_true {fs : List (String × Value)} {k : String} {value : Value} {b : Bool}
    (h : acceptsChange (some fs) k value = some b) : b = true ↔ ∃ w, fs.lookup k = some w ∧
      (w = .null ∨ ∃ vs, iterate w = some vs ∧ ∃ v ∈ vs, Accepts v value) := by
  simp only [acceptsChange, Option.bind_eq_bind, Option.bind_eq_some_iff] at h
  obtain ⟨own, hown, h⟩ := h
  have hin := hasOwn_some hown
  cases own with
  | false =>
      obtain rfl := Option.some.inj h
      have hw := not_mem_keys (of_decide_eq_false hin.symm)
      simp [hw]
  | true =>
      obtain ⟨w, hw⟩ := mem_keys_iff.mp (of_decide_eq_true hin.symm)
      simp only [hw, Option.some.injEq, exists_eq_left']
      cases w with
      | null =>
          simp only [hw] at h
          obtain rfl := Option.some.inj h
          simp
      | _ =>
          simp only [hw, Bool.not_true, Bool.false_eq_true, if_false, Option.bind_eq_some_iff] at h
          obtain ⟨vs, hvs, h⟩ := h
          simp [hvs, whitelisted_true h]

/-! ### The loops -/

/-- The data loop answers iff the verdict on each change it meets does. -/
theorem dataLoop_answers {fields : Option (List (String × Value))} : ∀ {ks : List String}
    {changes : Changes}, (∃ kept, dataLoop fields ks changes = some kept) ↔
    ∀ k ∈ ks, ∀ d, changes.lookup k = some d → ∃ b, acceptsChange fields k d.newValue = some b
  | [], changes => by simp [dataLoop]
  | key :: rest, changes => by
      rw [dataLoop, List.forall_mem_cons]
      cases hitem : changes.lookup key with
      | none => simp [dataLoop_answers]
      | some item =>
          cases hb : acceptsChange fields key item.newValue with
          | none => simp [hb]
          | some b =>
              simp only [Option.bind_eq_bind, Option.bind_some, Option.some.injEq, forall_eq', hb,
                exists_eq', true_and]
              cases b with
              | false => simp [dataLoop_answers]
              | true =>
                  simp only [if_true, dataLoop_answers]
                  refine forall₂_congr fun k _ => forall_congr' fun d => ?_
                  rcases eq_or_ne k key with rfl | hne
                  · constructor
                    · intro _ hd
                      obtain rfl := Option.some.inj (hitem.symm.trans hd)
                      exact ⟨true, hb⟩
                    · intro h hd
                      exact h (lookup_erase_some hd)
                  · rw [lookup_erase_ne hne]

/-- The data loop removes the changes it accepts. -/
theorem dataLoop_lookup {fields : Option (List (String × Value))} {k : String} {d : Delta} :
    ∀ {ks : List String} {changes kept : Changes}, dataLoop fields ks changes = some kept →
    (kept.lookup k = some d ↔ changes.lookup k = some d ∧
      ¬ (k ∈ ks ∧ acceptsChange fields k d.newValue = some true))
  | [], changes, kept, h => by
      obtain rfl := Option.some.inj h
      simp
  | key :: rest, changes, kept, h => by
      rw [dataLoop] at h
      split at h
      next hitem =>
        rw [dataLoop_lookup h, List.mem_cons]
        have hne (hd : changes.lookup k = some d) : k ≠ key := by
          rintro rfl
          rw [hitem] at hd
          cases hd
        refine and_congr_right fun hd => ?_
        simp [hne hd]
      next item hitem =>
        simp only [Option.bind_eq_bind, Option.bind_eq_some_iff] at h
        obtain ⟨accepted, ha, h⟩ := h
        cases accepted with
        | false =>
            rw [dataLoop_lookup h, List.mem_cons]
            refine and_congr_right fun hd => ?_
            rcases eq_or_ne k key with rfl | hne
            · obtain rfl := Option.some.inj (hitem.symm.trans hd)
              simp [ha]
            · simp [hne]
        | true =>
            rw [dataLoop_lookup h, List.mem_cons]
            rcases eq_or_ne k key with rfl | hne
            · constructor
              · rintro ⟨hd, hnot⟩
                have hgone : (erase changes k).lookup k = none := by
                  refine not_mem_keys fun hin => ?_
                  obtain ⟨e, he, hk⟩ := List.mem_map.mp hin
                  simp [erase, hk] at he
                rw [hgone] at hd
                cases hd
              · rintro ⟨hd, hnot⟩
                obtain rfl := Option.some.inj (hitem.symm.trans hd)
                exact absurd ⟨.inl rfl, ha⟩ hnot
            · rw [lookup_erase_ne hne]
              simp [hne]

/-- The delta has no change at a key that neither object has. -/
theorem shown_none {es fs : List (String × Value)} {r : Option Delta} {k : String}
    (h : between (.obj es) (.obj fs) = some r) (he : k ∉ keys es) (hf : k ∉ keys fs) :
    (shown r).lookup k = none := by
  obtain ⟨changes, created, hc, hn, hr⟩ := shown_between h
  rw [hr, List.lookup_append, mapChanges_new he hc, Option.none_or]
  cases hs : skipped k with
  | true => exact newKeys_skipped hs hn
  | false => rw [newKeys_shows he hs hn, not_mem_keys hf, Option.map_none]

/-! ### The change of a state -/

/-- The states of two contracts with the delta between them. -/
structure StateChange where
  existing : Contract
  changed : Contract
  delta : Option Delta
  between : Js.between (.obj existing.serializeState) (.obj changed.serializeState) = some delta
  revokingItems : List Contract

namespace StateChange

variable (c : StateChange) (fs : List (String × Value))

/-- What the permissions work on. -/
def progress : Progress := ⟨shown c.delta, c.revokingItems⟩

/-- The change of the place is one that the permission is to remove. -/
def Permits : Place → Prop
  | .data k => Listed (some fs) k (c.changed.state.data.lookup k)
  | .field k => k ∈ ["references", "expires_at"] ∧
      Listed (some fs) ("/" ++ k) (c.changed.serializeState.lookup k)
  | .role _ => False

/-- Just the permitted changes are removed; the node of `data` stays with what is left in it. -/
structure RemovesJust (s : Progress) : Prop where
  revokingItems : s.revokingItems = c.revokingItems
  node : ∀ place, place ≠ .field "data" → ∀ d,
    s.node place = some d ↔ c.progress.node place = some d ∧ ¬ c.Permits fs place
  dataNode : ∃ kept, s.stateChanges.lookup "data" =
    (c.progress.stateChanges.lookup "data").map fun d => withChanges d kept

/-- The whitelist of a changed data key is read right: it is a list, the comparison with its entries
    does not throw before one is accepted, and it accepts the node's `newValue` iff it holds the new
    value. -/
def ReadRight (k : String) (d : Delta) : Prop :=
  ∀ w, fs.lookup k = some w → w ≠ .null → ∃ vs, iterate w = some vs ∧ Compared d.newValue vs ∧
    ((∃ v ∈ vs, Accepts v d.newValue) ↔
      ∃ v ∈ vs, Matches v ((c.changed.state.data.lookup k).getD .null))

/-- No root field with a change is permitted; where a data key changes, `fields` has no own
    `hasOwnProperty` and the key's whitelist is read right. -/
structure Fits : Prop where
  root : ∀ k ∈ ["references", "expires_at"], ∀ d, c.progress.node (.field k) = some d →
    ¬ Listed (some fs) ("/" ++ k) (c.changed.serializeState.lookup k)
  data : ∀ k d, c.progress.node (.data k) = some d → "hasOwnProperty" ∉ keys fs ∧ c.ReadRight fs k d

theorem stateKeys (k : Contract) : keys k.serializeState ⊆ ["created_at", "revision", "owner",
    "created_by", "branch_id", "origin", "parent", "data", "roles", "expires_at", "references"] := by
  intro key hkey
  cases h : k.state.expiresAt <;> simp_all [Contract.serializeState, keys]
  all_goals tauto

theorem progress_none {key : String} (h : key ∈ ["0", "1", "equals", "stringId"]) :
    c.progress.stateChanges.lookup key = none := by
  have hnot (k : Contract) : key ∉ keys k.serializeState := fun hin => by
    have hkey := stateKeys k hin
    simp only [List.mem_cons, List.not_mem_nil, or_false] at h
    rcases h with rfl | rfl | rfl | rfl <;> revert hkey <;> decide
  exact shown_none c.between (hnot _) (hnot _)

/-- The loop over the root fields meets none. -/
theorem rootFieldsLoop_eq {s : Progress} (h : ∀ key ∈ ["0", "1", "equals", "stringId"],
    s.stateChanges.lookup key = none) :
    rootFieldsLoop (some fs) s ["0", "1", "equals", "stringId"] = some () := by
  simp only [List.forall_mem_cons, List.not_mem_nil, false_implies, implies_true, and_true] at h
  obtain ⟨h₁, h₂, h₃, h₄⟩ := h
  simp [rootFieldsLoop, h₁, h₂, h₃, h₄]

theorem modifyData_eq : modifyData (some fs) c.progress = modifyFields (some fs) c.progress := by
  have hloop {s : Progress} (h : modifyFields (some fs) c.progress = some s) :
      rootFieldsLoop (some fs) s ["0", "1", "equals", "stringId"] = some () := by
    refine rootFieldsLoop_eq fs fun key hkey => ?_
    unfold modifyFields at h
    split at h
    · obtain rfl := Option.some.inj h
      exact c.progress_none hkey
    · obtain ⟨kept, -, rfl⟩ := Option.map_eq_some_iff.mp h
      rw [lookup_setMap, c.progress_none hkey, Option.map_none]
  unfold modifyData
  cases hs : modifyFields (some fs) c.progress with
  | none => rfl
  | some s => simp [hloop hs]

/-- The nodes after the data changes became `kept`. -/
theorem node_kept {s : Progress} {old kept : Changes} (h : s.mapOf "data" = some old) :
    ∀ place, place ≠ .field "data" → (s.setMap "data" kept).node place =
      match place with
      | .data k => kept.lookup k
      | place => s.node place
  | .data k, _ => by simp [Progress.node, mapOf_setMap h]
  | .role k, _ => by simp [Progress.node, mapOf_setMap_ne]
  | .field k, hne => by
      have hk : k ≠ "data" := fun heq => hne (heq ▸ rfl)
      simp [Progress.node, lookup_setMap, hk]

/-- The verdict on a changed data key is that of the whitelist iff the whitelist is read right. -/
theorem verdict_iff {k : String} {d : Delta} :
    (∃ b, acceptsChange (some fs) k d.newValue = some b ∧
      (b = true ↔ Listed (some fs) k (c.changed.state.data.lookup k))) ↔
    "hasOwnProperty" ∉ keys fs ∧ c.ReadRight fs k d := by
  have hlisted : Listed (some fs) k (c.changed.state.data.lookup k) ↔
      ∃ w, fs.lookup k = some w ∧ (w = .null ∨ ∃ vs, iterate w = some vs ∧
        ∃ v ∈ vs, Matches v ((c.changed.state.data.lookup k).getD .null)) := by
    simp [Listed, Matches]
  rw [hlisted]
  constructor
  · rintro ⟨b, hb, hiff⟩
    obtain ⟨hown, hscan⟩ := acceptsChange_answers.mp ⟨b, hb⟩
    refine ⟨hown, fun w hw hne => ?_⟩
    obtain ⟨vs, hvs, hcmp⟩ := hscan w hw hne
    refine ⟨vs, hvs, hcmp, ?_⟩
    rw [acceptsChange_true hb] at hiff
    simpa [hw, hne, hvs] using hiff
  · rintro ⟨hown, hread⟩
    obtain ⟨b, hb⟩ := acceptsChange_answers.mpr ⟨hown, fun w hw hne => by
      obtain ⟨vs, hvs, hcmp, -⟩ := hread w hw hne
      exact ⟨vs, hvs, hcmp⟩⟩
    refine ⟨b, hb, ?_⟩
    rw [acceptsChange_true hb]
    cases hw : fs.lookup k with
    | none => simp
    | some w =>
        by_cases hne : w = .null
        · simp [hne]
        · obtain ⟨vs, hvs, -, hiff⟩ := hread w hw hne
          simpa [hne, hvs] using hiff

/-- The nodes of the root fields, with the other fields and the roles, stay as they are to iff no root
    field with a change is permitted. -/
theorem others_iff {s : Progress} (h : ∀ place, (∀ k, place ≠ .data k) → place ≠ .field "data" →
    s.node place = c.progress.node place) :
    (∀ place, (∀ k, place ≠ .data k) → place ≠ .field "data" → ∀ d,
      (s.node place = some d ↔ c.progress.node place = some d ∧ ¬ c.Permits fs place)) ↔
    ∀ k ∈ ["references", "expires_at"], ∀ d, c.progress.node (.field k) = some d →
      ¬ Listed (some fs) ("/" ++ k) (c.changed.serializeState.lookup k) := by
  constructor
  · intro hnode k hk d hd hlisted
    have hne : Place.field k ≠ .field "data" := by
      rintro heq
      cases heq
      revert hk
      decide
    have hkept := (hnode (.field k) (by simp) hne d).mp (by rw [h _ (by simp) hne, hd])
    exact hkept.2 ⟨hk, hlisted⟩
  · intro hroot place hdata hne d
    rw [h place hdata hne, iff_self_and]
    intro hd
    cases place with
    | data k => exact absurd rfl (hdata k)
    | role k => exact id
    | field k => exact fun hper => hroot k hper.1 d hd hper.2

/-- CODE DEFECT (modify_data): just the permitted changes are removed iff no changed root field is
    permitted and every changed data key has its whitelist read right. -/
theorem modifyData_iff :
    (∃ s, modifyData (some fs) c.progress = some s ∧ c.RemovesJust fs s) ↔ c.Fits fs := by
  rw [modifyData_eq]
  unfold modifyFields
  cases hmap : c.progress.mapOf "data" with
  | none =>
      have hdata (k : String) : c.progress.node (.data k) = none := by simp [Progress.node, hmap]
      have hothers := c.others_iff fs (s := c.progress) fun _ _ _ => rfl
      have hnode : (c.progress.stateChanges.lookup "data").map (fun d => withChanges d []) =
          c.progress.stateChanges.lookup "data" := by
        unfold Progress.mapOf at hmap
        split at hmap
        · cases hmap
        next hno =>
          cases hl : c.progress.stateChanges.lookup "data" with
          | none => rfl
          | some d =>
              cases d with
              | map o n cs => exact absurd hl (hno o n cs)
              | _ => rfl
      simp only [Option.some.injEq, exists_eq_left']
      constructor
      · intro hr
        exact ⟨hothers.mp fun place _ hne => hr.node place hne, fun k d hd => by simp [hdata] at hd⟩
      · intro hfits
        refine ⟨rfl, fun place hne d => ?_, [], hnode.symm⟩
        cases place with
        | data k => simp [hdata]
        | role k => exact hothers.mpr hfits.root _ (by simp) hne d
        | field k => exact hothers.mpr hfits.root _ (by simp) hne d
  | some cs =>
      have hdata (k : String) : c.progress.node (.data k) = cs.lookup k := by simp [Progress.node, hmap]
      have hothers (kept : Changes) := c.others_iff fs (s := c.progress.setMap "data" kept)
        fun place hd hne => by
          rw [node_kept hmap place hne]
          cases place with
          | data k => exact absurd rfl (hd k)
          | role k => rfl
          | field k => rfl
      have hkeep (kept : Changes) (k : String) :
          (c.progress.setMap "data" kept).node (.data k) = kept.lookup k :=
        node_kept hmap (.data k) (by simp)
      simp only [Option.map_eq_some_iff]
      constructor
      · rintro ⟨s, ⟨kept, hloop, rfl⟩, hr⟩
        refine ⟨(hothers kept).mp fun place _ hne => hr.node place hne, fun k d hd => ?_⟩
        rw [hdata] at hd
        have hin : k ∈ keys cs := mem_keys_iff.mpr ⟨d, hd⟩
        obtain ⟨b, hb⟩ := dataLoop_answers.mp ⟨kept, hloop⟩ k hin d hd
        have hnode := hr.node (.data k) (by simp) d
        rw [hkeep, hdata, dataLoop_lookup hloop] at hnode
        refine (c.verdict_iff fs).mp ⟨b, hb, ?_⟩
        have hnot : ¬ b = true ↔ ¬ Listed (some fs) k (c.changed.state.data.lookup k) := by
          simpa [hd, hin, hb, Permits] using hnode
        exact not_iff_not.mp hnot
      · intro hfits
        have hverdict (k : String) (d : Delta) (hd : cs.lookup k = some d) :=
          (c.verdict_iff fs).mpr (hfits.data k d (by rw [hdata, hd]))
        obtain ⟨kept, hloop⟩ := dataLoop_answers.mpr fun k _ d hd =>
          (hverdict k d hd).imp fun _ h => h.1
        refine ⟨_, ⟨kept, hloop, rfl⟩, rfl, fun place hne d => ?_, kept, lookup_setMap⟩
        cases place with
        | role k => exact (hothers kept).mpr hfits.root _ (by simp) hne d
        | field k => exact (hothers kept).mpr hfits.root _ (by simp) hne d
        | data k =>
            rw [hkeep, hdata, dataLoop_lookup hloop]
            refine and_congr_right fun hd => ?_
            obtain ⟨b, hb, hiff⟩ := hverdict k d hd
            have hin : k ∈ keys cs := mem_keys_iff.mpr ⟨d, hd⟩
            simpa [hin, hb, Permits] using not_congr hiff

end StateChange

/-- A contract that expires at `time`. -/
def expiringContract (time : ℤ) : Contract where
  id := ⟨[1]⟩
  apiLevel := .fin 4
  roles := ⟨keyRole "issuer" "issuer", keyRole "owner" "alice", keyRole "creator" "alice"⟩
  definition :=
    { createdAt := some 0, expiresAt := none, data := [], references := [], extendedType := .null
      permissions := [] }
  state :=
    { revision := .fin 1, createdAt := some 1, expiresAt := some time, origin := none, parent := none
      data := [], dataKeys := List.nodup_nil, branchId := .null, references := [], roles := [] }
  transactional := none
  effectiveKeys := ["alice"]
  otherFields _ := none
  revokingItems := []

/-- The change of `expires_at` stays, though `/expires_at` is listed without a whitelist. -/
theorem modifyData_not_just : ¬ ∀ (c : StateChange) (fs : List (String × Value)),
    ∃ s, modifyData (some fs) c.progress = some s ∧ c.RemovesJust fs s := by
  intro h
  let changes : Changes := [("expires_at", .changed (.date 1) (.date 2))]
  have hdelta : between (.obj (expiringContract 1).serializeState)
      (.obj (expiringContract 2).serializeState) = some (some (.map
        (.obj (expiringContract 1).serializeState) (.obj (expiringContract 2).serializeState) changes)) :=
    rfl
  obtain ⟨s, hs, hjust⟩ := h ⟨expiringContract 1, expiringContract 2, _, hdelta, []⟩
    [("/expires_at", .null)]
  have hkept : modifyData (some [("/expires_at", .null)]) ⟨changes, []⟩ = some ⟨changes, []⟩ := rfl
  obtain rfl : (⟨changes, []⟩ : Progress) = s := Option.some.inj (hkept.symm.trans hs)
  refine ((hjust.node (.field "expires_at") (by simp) _).mp rfl).2 ⟨by simp, ?_⟩
  exact ⟨_, .null, rfl, rfl, .inl rfl⟩

end Universa.Contracts
