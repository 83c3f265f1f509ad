import Mathlib.Data.Nat.Notation
import Mathlib.Logic.Relation

/-! Names that lead on. A node mentions names and a name may lead to another node: the names that are reached
    from a node, and the nodes where a chain of so many names begins. -/

namespace Universa.Lib.References
open Relation

variable {A N : Type} {mentions mentions' : A → N → Prop} {find : N → Option A} {a : A}

/-- A name in one node leads to the other. -/
def Leads (mentions : A → N → Prop) (find : N → Option A) (a b : A) : Prop :=
  ∃ name, mentions a name ∧ find name = some b

/-- The names that are reached from a node. -/
inductive Reaches (mentions : A → N → Prop) (find : N → Option A) : A → N → Prop
  | here {a : A} {name : N} (h : mentions a name) : Reaches mentions find a name
  | through {a b : A} {name : N} (hab : Leads mentions find a b) (h : Reaches mentions find b name) :
      Reaches mentions find a name

/-- A chain of `k` names begins in a node. -/
def Deep (mentions : A → N → Prop) (find : N → Option A) : ℕ → A → Prop
  | 0, _ => True
  | k + 1, a => ∃ b, Leads mentions find a b ∧ Deep mentions find k b

theorem reaches_iff {name : N} : Reaches mentions find a name ↔
    mentions a name ∨ ∃ b, Leads mentions find a b ∧ Reaches mentions find b name := by
  constructor
  · rintro (h | ⟨hab, h⟩)
    · exact Or.inl h
    · exact Or.inr ⟨_, hab, h⟩
  · rintro (h | ⟨b, hab, h⟩)
    · exact .here h
    · exact .through hab h

/-- A part of the mentions reaches the same, where it has every mention of the nodes that are visited. -/
theorem reaches_congr {name : N} (hpart : ∀ b name, mentions' b name → mentions b name)
    (hall : ∀ b, ReflTransGen (Leads mentions find) a b → ∀ name, mentions b name → mentions' b name) :
    Reaches mentions' find a name ↔ Reaches mentions find a name := by
  constructor
  · intro h
    clear hall
    induction h with
    | here h => exact .here (hpart _ _ h)
    | through hab _ ih =>
        obtain ⟨via, hvia, hfind⟩ := hab
        exact .through ⟨via, hpart _ _ hvia, hfind⟩ ih
  · intro h
    induction h with
    | here h => exact .here (hall _ .refl _ h)
    | through hab _ ih =>
        have htail := ih fun c hc => hall c (.head hab hc)
        obtain ⟨via, hvia, hfind⟩ := hab
        exact .through ⟨via, hall _ .refl _ hvia, hfind⟩ htail

/-- And its chains are as long. -/
theorem deep_congr (hpart : ∀ b name, mentions' b name → mentions b name) : ∀ (k : ℕ) (a : A),
    (∀ b, ReflTransGen (Leads mentions find) a b → ∀ name, mentions b name → mentions' b name) →
    (Deep mentions' find k a ↔ Deep mentions find k a)
  | 0, _, _ => Iff.rfl
  | k + 1, a, hall => by
      constructor
      · rintro ⟨b, ⟨via, hvia, hfind⟩, hdeep⟩
        have hab : Leads mentions find a b := ⟨via, hpart _ _ hvia, hfind⟩
        exact ⟨b, hab, (deep_congr hpart k b fun c hc => hall c (.head hab hc)).mp hdeep⟩
      · rintro ⟨b, hab, hdeep⟩
        have htail := (deep_congr hpart k b fun c hc => hall c (.head hab hc)).mpr hdeep
        obtain ⟨via, hvia, hfind⟩ := hab
        exact ⟨b, ⟨via, hall _ .refl _ hvia, hfind⟩, htail⟩

end Universa.Lib.References
