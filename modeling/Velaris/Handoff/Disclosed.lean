import Velaris.Handoff.Projection
import Velaris.Py.Paths

/-!
# What a projection discloses

A field of the case is classified by its own name only; what is inside a field that is shown goes
out with it.

* `special`   a name of the special category;
* `admits`   a ceiling shows the fields of a name;
* `payload`   the values of the case that are shown;
* `payload_mono`   a path shown under a ceiling is shown under a higher one;
* `never_discloses_special_iff`  nothing of the special category is shown, at any depth, exactly
    if no admitted field has a key of that category inside.
-/

namespace Handoff
open Py

/-- a name of the special category, for either classifier -/
def special (confirmed : Confirmed) (name : String) : Bool := (classify name confirmed).2

/-- the least ceiling for the fields of a name that is not special -/
def needed (confirmed : Confirmed) (name : String) : Ceiling :=
  if (classify name confirmed).1.getD "" ≠ "" then .personal else .internal

def Ceiling.admits (ceiling : Ceiling) (confirmed : Confirmed) (name : String) : Bool :=
  !special confirmed name && (needed confirmed name).rank ≤ ceiling.rank

def content (case : Case) : Dict := (case.data.dict?.getD []).filter fun p => p.1 ∉ STRUCTURAL

def payload (R : Runtime) (case : Case) (ceiling : Ceiling) (rows : Option (List PiiFinding)) :
    Value :=
  .dict (project R case ceiling rows).case.fields

/-! ## the fields that are shown -/

theorem rank_needed_pos (confirmed : Confirmed) (name : String) :
    0 < (needed confirmed name).rank := by
  unfold needed
  split
  · exact Nat.two_pos
  · exact Nat.one_pos

theorem whyWithheld_eq_none_iff (ceiling : Ceiling) (confirmed : Confirmed) (name : String) :
    whyWithheld ceiling confirmed name = none ↔ ceiling.admits confirmed name = true := by
  have hpos := rank_needed_pos confirmed name
  have hwhy : whyWithheld ceiling confirmed name =
      if special confirmed name = true then
        some ("special category (" ++ (classify name confirmed).1.getD "None" ++ ")")
      else if ceiling.rank < (needed confirmed name).rank then
        some ((if (classify name confirmed).1.getD "" ≠ "" then
          (classify name confirmed).1.getD "" else "personal") ++ " data is above the '" ++
          ceiling.text ++ "' ceiling")
      else if ceiling.rank = 0 then some "this work order carries no data ceiling" else none := rfl
  rw [hwhy, Ceiling.admits]
  by_cases hspecial : special confirmed name = true
  · simp [hspecial]
  · by_cases hrank : ceiling.rank < (needed confirmed name).rank
    · simp [hspecial, hrank]
    · have hzero : ceiling.rank ≠ 0 := by omega
      simp [hspecial, hrank, hzero]
      omega

theorem mem_fields_iff {R : Runtime} {case : Case} {ceiling : Ceiling}
    {rows : Option (List PiiFinding)} {entry : String × Value} :
    entry ∈ (project R case ceiling rows).case.fields ↔
      entry ∈ content case ∧ ceiling.admits (confirmedClasses rows) entry.1 = true := by
  show entry ∈ (content case).filter
    (fun p => whyWithheld ceiling (confirmedClasses rows) p.1 = none) ↔ _
  rw [List.mem_filter, decide_eq_true_iff, whyWithheld_eq_none_iff]

theorem admits_mono {low high : Ceiling} (hle : low.rank ≤ high.rank) {confirmed : Confirmed}
    {name : String} (h : low.admits confirmed name = true) :
    high.admits confirmed name = true := by
  rw [Ceiling.admits, Bool.and_eq_true, decide_eq_true_iff] at h ⊢
  exact ⟨h.1, Nat.le_trans h.2 hle⟩

theorem not_special_of_admits {ceiling : Ceiling} {confirmed : Confirmed} {name : String}
    (h : ceiling.admits confirmed name = true) : special confirmed name = false := by
  rw [Ceiling.admits, Bool.and_eq_true] at h
  simpa using h.1

/-! ## the paths that are shown -/

theorem payload_mono (R : Runtime) (case : Case) (rows : Option (List PiiFinding))
    {low high : Ceiling} (hle : low.rank ≤ high.rank) {path : List Step} (hpath : path ≠ [])
    {w : Value} (h : At (payload R case low rows) path w) :
    At (payload R case high rows) path w := by
  obtain ⟨step, rest, rfl⟩ := List.exists_cons_of_ne_nil hpath
  obtain ⟨entry, hmem, hstep, hrest⟩ := at_dict_iff.mp h
  obtain ⟨hcontent, hadmits⟩ := mem_fields_iff.mp hmem
  exact at_dict_iff.mpr
    ⟨entry, mem_fields_iff.mpr ⟨hcontent, admits_mono hle hadmits⟩, hstep, hrest⟩

theorem mem_disclosed_iff {R : Runtime} {case : Case} {ceiling : Ceiling}
    {rows : Option (List PiiFinding)} {name : String} :
    name ∈ (project R case ceiling rows).disclosed ↔
      ∃ w, At (payload R case ceiling rows) [.key name] w := by
  show name ∈ ((project R case ceiling rows).case.fields.map (·.1)).insertionSort (· ≤ ·) ↔ _
  rw [List.mem_insertionSort, List.mem_map]
  constructor
  · intro hx
    obtain ⟨entry, hmem, rfl⟩ := hx
    exact ⟨entry.2, at_dict_iff.mpr ⟨entry, hmem, rfl, At.here _⟩⟩
  · intro hx
    obtain ⟨w, h⟩ := hx
    obtain ⟨entry, hmem, hstep, -⟩ := at_dict_iff.mp h
    exact ⟨entry, hmem, (Step.key.inj hstep).symm⟩

theorem mem_keys_payload_iff {R : Runtime} {case : Case} {ceiling : Ceiling}
    {rows : Option (List PiiFinding)} {k : String} :
    k ∈ (payload R case ceiling rows).keys ↔
      ∃ entry ∈ content case, ceiling.admits (confirmedClasses rows) entry.1 = true ∧
        (k = entry.1 ∨ k ∈ entry.2.keys) := by
  show k ∈ Value.keysItems (project R case ceiling rows).case.fields ↔ _
  rw [Value.mem_keysItems]
  apply exists_congr
  intro entry
  rw [mem_fields_iff, and_assoc]

/-! ## the special category -/

/-- nothing of the special category is shown at any depth, and a higher ceiling shows every path
that a lower one shows, exactly if no admitted field has a special key inside -/
theorem never_discloses_special_iff (R : Runtime) (case : Case) (ceiling : Ceiling)
    (rows : Option (List PiiFinding)) :
    ((∀ init name w, At (payload R case ceiling rows) (init ++ [.key name]) w →
        special (confirmedClasses rows) name = false) ∧
      ∀ high : Ceiling, ceiling.rank ≤ high.rank →
        (∀ path w, path ≠ [] → At (payload R case ceiling rows) path w →
          At (payload R case high rows) path w) ∧
        (project R case ceiling rows).disclosed ⊆ (project R case high rows).disclosed) ↔
      ∀ entry ∈ content case, ceiling.admits (confirmedClasses rows) entry.1 = true →
        ∀ k ∈ entry.2.keys, special (confirmedClasses rows) k = false := by
  constructor
  · intro h entry hmem hadmits k hk
    obtain ⟨init, w, hat⟩ := mem_keys_iff.mp
      (mem_keys_payload_iff (R := R).mpr ⟨entry, hmem, hadmits, Or.inr hk⟩)
    exact h.1 init k w hat
  · intro h
    refine ⟨?_, ?_⟩
    · intro init name w hat
      obtain ⟨entry, hmem, hadmits, hk⟩ :=
        mem_keys_payload_iff.mp (mem_keys_of_at hat rfl)
      rcases hk with rfl | hk
      · exact not_special_of_admits hadmits
      · exact h entry hmem hadmits name hk
    · intro high hle
      refine ⟨fun path w hpath hat => payload_mono R case rows hle hpath hat, ?_⟩
      intro name hname
      obtain ⟨w, hat⟩ := mem_disclosed_iff.mp hname
      exact mem_disclosed_iff.mpr
        ⟨w, payload_mono R case rows hle (List.cons_ne_nil _ _) hat⟩

/-- a case with a form section `intake`, whose field `diagnosis` is of the special category -/
def sectioned : Case :=
  { id := 1, tenantId := 2, caseTypeId := 3,
    data := .dict [("intake", .dict [("diagnosis", .str "asthma")])] }

theorem internal_discloses_diagnosis :
    ¬ ∀ init name w, At (payload Runtime.silent sectioned .internal (some []))
      (init ++ [.key name]) w → special (confirmedClasses (some [])) name = false := by
  intro h
  have hkey : "diagnosis" ∈ (payload Runtime.silent sectioned .internal (some [])).keys := by
    decide +kernel
  obtain ⟨init, w, hat⟩ := mem_keys_iff.mp hkey
  have hspecial : special (confirmedClasses (some [])) "diagnosis" = true := by decide +kernel
  rw [h init _ w hat] at hspecial
  exact absurd hspecial (by decide)

end Handoff
