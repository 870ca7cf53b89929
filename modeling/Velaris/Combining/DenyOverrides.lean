import Mathlib.Data.Set.Lattice

/-!
# Deny-overrides combination of votes

A vote is what one matching rule says: it forbids or permits, it binds or only advises, and a
permitting vote may attach duties.  `ruling silent V` combines a set of votes: one forbidding vote
is enough to forbid, one binding vote is enough to bind, the duties are those of every permitting
vote, and an empty set of votes gives `silent`.

A ruling is a function of the SET of votes, so the order in which votes are cast cannot matter.

* `permits_anti`, `duties_mono`, `binds_mono`   what more votes can do to a ruling;
* `SameAct`   two rulings that a party who obeys binding rulings cannot tell apart;
* `sameAct_union_iff`  when the votes of advisers leave such a party where it was.
-/

namespace Combining

structure Vote (κ : Type*) where
  forbids : Prop
  binds : Prop
  duties : Set κ

@[ext] structure Ruling (κ : Type*) where
  permits : Prop
  binds : Prop
  duties : Set κ

variable {κ : Type*}

def Forbids (V : Set (Vote κ)) : Prop := ∃ v ∈ V, v.forbids

def Binds (V : Set (Vote κ)) : Prop := ∃ v ∈ V, v.binds

def duties (V : Set (Vote κ)) : Set κ := {k | ∃ v ∈ V, ¬ v.forbids ∧ k ∈ v.duties}

open Classical in
noncomputable def ruling (silent : Ruling κ) (V : Set (Vote κ)) : Ruling κ :=
  if V = ∅ then silent
  else
    { permits := ¬ Forbids V
      binds := Binds V
      duties := if Forbids V then ∅ else duties V }

/-! ## the ruling of a nonempty set of votes -/

section
variable {silent : Ruling κ} {V W : Set (Vote κ)}

@[simp] theorem ruling_empty : ruling silent ∅ = silent := if_pos rfl

theorem ruling_permits (hV : V.Nonempty) : (ruling silent V).permits ↔ ¬ Forbids V := by
  rw [ruling, if_neg hV.ne_empty]

theorem ruling_binds (hV : V.Nonempty) : (ruling silent V).binds ↔ Binds V := by
  rw [ruling, if_neg hV.ne_empty]

theorem ruling_duties_of_forbids (hV : V.Nonempty) (h : Forbids V) :
    (ruling silent V).duties = ∅ := by
  rw [ruling, if_neg hV.ne_empty]
  exact if_pos h

theorem ruling_duties_of_permits (hV : V.Nonempty) (h : ¬ Forbids V) :
    (ruling silent V).duties = duties V := by
  rw [ruling, if_neg hV.ne_empty]
  exact if_neg h

/-! ## more votes -/

theorem Forbids.mono (h : V ⊆ W) (hV : Forbids V) : Forbids W := by
  obtain ⟨v, hv, hf⟩ := hV
  exact ⟨v, h hv, hf⟩

theorem Binds.mono (h : V ⊆ W) (hV : Binds V) : Binds W := by
  obtain ⟨v, hv, hb⟩ := hV
  exact ⟨v, h hv, hb⟩

theorem duties_subset (h : V ⊆ W) : duties V ⊆ duties W := by
  intro k hx
  obtain ⟨v, hv, hf, hk⟩ := hx
  exact ⟨v, h hv, hf, hk⟩

theorem permits_anti (hV : V.Nonempty) (h : V ⊆ W) (hW : (ruling silent W).permits) :
    (ruling silent V).permits := by
  rw [ruling_permits (hV.mono h)] at hW
  rw [ruling_permits hV]
  exact fun hf => hW (hf.mono h)

theorem binds_mono (hV : V.Nonempty) (h : V ⊆ W) (hb : (ruling silent V).binds) :
    (ruling silent W).binds := by
  rw [ruling_binds hV] at hb
  rw [ruling_binds (hV.mono h)]
  exact hb.mono h

theorem duties_mono (hV : V.Nonempty) (h : V ⊆ W) (hW : (ruling silent W).permits) :
    (ruling silent V).duties ⊆ (ruling silent W).duties := by
  have hfW := (ruling_permits (hV.mono h)).mp hW
  have hfV := (ruling_permits hV).mp (permits_anti hV h hW)
  rw [ruling_duties_of_permits hV hfV, ruling_duties_of_permits (hV.mono h) hfW]
  exact duties_subset h

theorem forbids_union : Forbids (V ∪ W) ↔ Forbids V ∨ Forbids W := by
  constructor
  · intro hx
    obtain ⟨v, hv | hv, hf⟩ := hx
    · exact Or.inl ⟨v, hv, hf⟩
    · exact Or.inr ⟨v, hv, hf⟩
  · intro hx
    rcases hx with h | h
    · exact h.mono Set.subset_union_left
    · exact h.mono Set.subset_union_right

theorem duties_union : duties (V ∪ W) = duties V ∪ duties W := by
  ext k
  constructor
  · intro hx
    obtain ⟨v, hv | hv, hf, hk⟩ := hx
    · exact Or.inl ⟨v, hv, hf, hk⟩
    · exact Or.inr ⟨v, hv, hf, hk⟩
  · intro hx
    rcases hx with h | h
    · exact duties_subset Set.subset_union_left h
    · exact duties_subset Set.subset_union_right h

end

/-! ## advisers -/

/-- the two rulings bind alike, and where they bind they say the same -/
def SameAct (r s : Ruling κ) : Prop :=
  (r.binds ↔ s.binds) ∧ (r.binds → (r.permits ↔ s.permits) ∧ r.duties = s.duties)

theorem SameAct.refl (r : Ruling κ) : SameAct r r := ⟨Iff.rfl, fun _ => ⟨Iff.rfl, rfl⟩⟩

section
variable {silent : Ruling κ} {V W : Set (Vote κ)}

theorem binds_union_of_advisers (hW : ∀ w ∈ W, ¬ w.binds) : Binds (V ∪ W) ↔ Binds V := by
  constructor
  · intro h
    obtain ⟨v, hv | hv, hb⟩ := h
    · exact ⟨v, hv, hb⟩
    · exact absurd hb (hW v hv)
  · exact Binds.mono Set.subset_union_left

theorem sameAct_advisers_alone (hW : ∀ w ∈ W, ¬ w.binds) (hne : W.Nonempty) :
    SameAct silent (ruling silent W) ↔ ¬ silent.binds := by
  have hb : ¬ (ruling silent W).binds := by
    rw [ruling_binds hne]
    intro hx
    obtain ⟨w, hw, h⟩ := hx
    exact hW w hw h
  constructor
  · intro h hs
    exact hb (h.1.mp hs)
  · intro hs
    exact ⟨iff_of_false hs hb, fun h => absurd h hs⟩

/-- **When advisers change nothing.**  Votes that bind nobody, added to votes already cast, leave
the binding ruling as it was exactly when it was not binding, or forbade anyway, or the advisers
neither forbid nor add a duty. -/
theorem sameAct_union_iff (hW : ∀ w ∈ W, ¬ w.binds) (hV : V.Nonempty) :
    SameAct (ruling silent V) (ruling silent (V ∪ W)) ↔
      ¬ Binds V ∨ Forbids V ∨ (¬ Forbids W ∧ duties W ⊆ duties V) := by
  have hVW : (V ∪ W).Nonempty := hV.inl
  have hb : (ruling silent (V ∪ W)).binds ↔ (ruling silent V).binds := by
    rw [ruling_binds hV, ruling_binds hVW, binds_union_of_advisers hW]
  constructor
  · intro hx
    obtain ⟨-, h⟩ := hx
    by_cases hbV : Binds V
    · obtain ⟨hp, hd⟩ := h ((ruling_binds hV).mpr hbV)
      by_cases hfV : Forbids V
      · exact Or.inr (Or.inl hfV)
      · rw [ruling_permits hV, ruling_permits hVW, forbids_union] at hp
        have hfVW := hp.mp hfV
        have hfW : ¬ Forbids W := fun hf => hfVW (Or.inr hf)
        rw [ruling_duties_of_permits hV hfV,
          ruling_duties_of_permits hVW (forbids_union.not.mpr hfVW), duties_union] at hd
        exact Or.inr (Or.inr ⟨hfW, Set.union_eq_left.mp hd.symm⟩)
    · exact Or.inl hbV
  · intro hx
    rcases hx with h | h | ⟨hfW, hd⟩
    · exact ⟨hb.symm, fun hbV => absurd ((ruling_binds hV).mp hbV) h⟩
    · have hVWf : Forbids (V ∪ W) := forbids_union.mpr (Or.inl h)
      refine ⟨hb.symm, fun _ => ⟨?_, ?_⟩⟩
      · rw [ruling_permits hV, ruling_permits hVW]
        exact iff_of_false (not_not.mpr h) (not_not.mpr hVWf)
      · rw [ruling_duties_of_forbids hV h, ruling_duties_of_forbids hVW hVWf]
    · have hf : Forbids (V ∪ W) ↔ Forbids V := by
        rw [forbids_union]
        exact or_iff_left hfW
      refine ⟨hb.symm, fun _ => ⟨?_, ?_⟩⟩
      · rw [ruling_permits hV, ruling_permits hVW, hf]
      · by_cases hfV : Forbids V
        · rw [ruling_duties_of_forbids hV hfV, ruling_duties_of_forbids hVW (hf.mpr hfV)]
        · rw [ruling_duties_of_permits hV hfV, ruling_duties_of_permits hVW (hf.not.mpr hfV),
            duties_union, Set.union_eq_left.mpr hd]

end

end Combining
