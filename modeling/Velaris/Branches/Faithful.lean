import Velaris.Branches.Separated

/-!
# What a merge leaves of a branch and of main

A merge of a case type writes the definition, and the description if it is not empty; a PATCH can
set the status `merged`; the override does not look for conflicts.

* `EDITABLE`, `Carried`   the fields a branch can edit, and when a merge brings them all to main;
* `get_snapshot_merge_iff` which is what it is for;
* `FaithfulOp`   a request after which the three parts of the statement stand;
* `Faithful`, `faithful_run`   they stand in every state of a run of such requests.
-/

namespace Branches
open Py Base

variable (P : Platform)

/-! ## the fields of a case type -/

/-- the fields of a case type that a branch can edit; its stages are in the definition -/
def EDITABLE : List String :=
  ["name", "version", "definition_json", "default_priority", "description"]

/-- the content differs from main only in what a merge writes -/
def Carried (content columns : Dict) : Prop :=
  (∀ f ∈ ["name", "version", "default_priority"], columns.get f = content.get f) ∧
    (content.has "definition_json" = true ∨
      columns.get "definition_json" = content.get "definition_json") ∧
    ((content.get "description").truthy = true ∨
      columns.get "description" = content.get "description")

instance (content columns : Dict) : Decidable (Carried content columns) :=
  inferInstanceAs (Decidable (_ ∧ _ ∧ _))

theorem get_snapshot {a : Artifact} (hk : a.kind = .caseType) {f : String} (hf : f ∈ EDITABLE) :
    Dict.get a.snapshot f = a.columns.get f := by
  have hid : f ≠ "id" := by
    rintro rfl
    exact absurd hf (by decide)
  unfold Artifact.snapshot
  rw [hk, Dict.get, List.lookup_cons]
  simp only [EDITABLE, List.mem_cons, List.not_mem_nil, or_false] at hf
  rcases hf with rfl | rfl | rfl | rfl | rfl <;> rfl

theorem has_of_truthy {content : Dict} {k : String} (h : (content.get k).truthy = true) :
    content.has k = true := by
  unfold Dict.get at h
  unfold Dict.has
  cases hl : content.lookup k with
  | none =>
    rw [hl] at h
    cases h
  | some v => rfl

theorem mem_merged_iff (content : Dict) (f : String) :
    f ∈ Kind.caseType.merged content ↔
      f = "definition_json" ∧ content.has "definition_json" = true ∨
        f = "description" ∧ (content.get "description").truthy = true := by
  have hhas := @has_of_truthy content "description"
  rw [Kind.merged, List.mem_append]
  apply or_congr
  · by_cases h : content.has "definition_json" = true <;> simp [h]
  · by_cases h : (content.get "description").truthy = true
    · simp [h, hhas h]
    · simp [h]

theorem get_merge {a : Artifact} (hk : a.kind = .caseType) (content : Dict) (f : String) :
    (a.merge content).columns.get f =
      if f = "definition_json" ∧ content.has "definition_json" = true ∨
          f = "description" ∧ (content.get "description").truthy = true then content.get f
      else a.columns.get f := by
  unfold Artifact.merge
  rw [hk]
  show (List.foldl _ _ _ : Dict).get f = _
  rw [Dict.get_foldl_set]
  exact if_congr (mem_merged_iff content f) rfl rfl

/-- after a merge every field that a branch can edit is the branch's, exactly if the content
differs from main only in what a merge writes -/
theorem get_snapshot_merge_iff {a : Artifact} (hk : a.kind = .caseType) (content : Dict) :
    (∀ f ∈ EDITABLE, Dict.get (a.merge content).snapshot f = content.get f) ↔
      Carried content a.columns := by
  have hk' : (a.merge content).kind = .caseType := hk
  have hget : ∀ f ∈ EDITABLE, Dict.get (a.merge content).snapshot f =
      if f = "definition_json" ∧ content.has "definition_json" = true ∨
          f = "description" ∧ (content.get "description").truthy = true then content.get f
      else a.columns.get f := by
    intro f hf
    rw [get_snapshot hk' hf, get_merge hk]
  constructor
  · intro h
    refine ⟨?_, ?_, ?_⟩
    · intro f hf
      have hkept : ∀ f ∈ ["name", "version", "default_priority"],
          f ∈ EDITABLE ∧ f ≠ "definition_json" ∧ f ≠ "description" := by decide
      obtain ⟨hmem, hdef, hdesc⟩ := hkept f hf
      have hf := h f hmem
      rw [hget f hmem, if_neg fun hx => hx.elim (fun hx => hdef hx.1) fun hx => hdesc hx.1] at hf
      exact hf
    · by_cases hdef : content.has "definition_json" = true
      · exact Or.inl hdef
      · have hf := h "definition_json" (by decide)
        rw [hget _ (by decide), if_neg (by simp [hdef])] at hf
        exact Or.inr hf
    · by_cases hdesc : (content.get "description").truthy = true
      · exact Or.inl hdesc
      · have hf := h "description" (by decide)
        rw [hget _ (by decide), if_neg (by simp [hdesc])] at hf
        exact Or.inr hf
  · intro hc f hf
    obtain ⟨hkeep, hdef, hdesc⟩ := hc
    rw [hget f hf]
    split
    · rfl
    · rename_i hnot
      rw [not_or] at hnot
      simp only [EDITABLE, List.mem_cons, List.not_mem_nil, or_false] at hf
      rcases hf with rfl | rfl | rfl | rfl | rfl
      · exact hkeep "name" (by decide)
      · exact hkeep "version" (by decide)
      · exact hdef.resolve_left fun hd => hnot.1 ⟨rfl, hd⟩
      · exact hkeep "default_priority" (by decide)
      · exact hdesc.resolve_left fun hd => hnot.2 ⟨rfl, hd⟩

/-! ## requests -/

def merging (db : Db) : Op → Option (Branch × Via)
  | .merge _ branchId => (db.branchOr404 branchId).toOption.map fun b => (b, .override)
  | op => (approving db op).map fun b => (b, .review)

/-- an artifact in main that a merge of the branch writes -/
def Target (db : Db) (b : Branch) (a : Artifact) : Prop :=
  a ∈ db.main ∧ Kind.ofText (b.artifactType.getD "") = some a.kind ∧
    uuid (b.artifactId.getD "") = some a.id

instance (db : Db) (b : Branch) (a : Artifact) : Decidable (Target db b a) :=
  inferInstanceAs (Decidable (_ ∧ _ ∧ _))

/-- a merge of the branch into the artifact is faithful: an approval of a case type brings all its
fields, and an override finds main as it was when the branch was cut -/
def MergeFits (b : Branch) (via : Via) (a : Artifact) : Prop :=
  (via = .review → a.kind = .caseType →
      Carried (b.contentSnapshot.dict?.getD []) a.columns) ∧
    (via = .override → P.dumps (.dict b.baseSnapshot) = P.dumps (.dict a.snapshot))

instance (b : Branch) (via : Via) (a : Artifact) : Decidable (MergeFits P b via a) :=
  inferInstanceAs (Decidable ((_ → _ → _) ∧ (_ → _)))

/-- a request that, if it is accepted, sets no branch to `merged` by a PATCH, and merges only a
branch with an artifact, and that faithfully -/
def FaithfulOp (db : Db) (op : Op) : Prop :=
  accepted P db op = true → patchesMerged op = false ∧
    ∀ m ∈ merging db op, m.2.applies m.1 = true ∧
      ∀ a ∈ db.main, Target db m.1 a → MergeFits P m.1 m.2 a

instance (db : Db) (op : Op) : Decidable (FaithfulOp P db op) :=
  inferInstanceAs (Decidable (_ → _ ∧ ∀ m ∈ merging db op, _ ∧ ∀ a ∈ db.main, _ → _))

/-! ## runs -/

/-- a merged branch was written into main; an approval left every field of the case type as the
branch has it; and nothing written into main had changed since the branch was cut -/
structure Faithful (db : Db) : Prop where
  written : ∀ b ∈ db.branches, b.status = .merged →
    ∃ a ∈ db.applied, a.branch.id = b.id ∧ a.branch.contentSnapshot = b.contentSnapshot
  carried : ∀ a ∈ db.applied, a.via = .review → a.kind = .caseType →
    ∀ f ∈ EDITABLE, a.after.get f = a.content.get f
  unchanged : ∀ a ∈ db.applied,
    P.dumps (.dict a.branch.baseSnapshot) = P.dumps (.dict a.before)

variable {P}

theorem merging_of_merges {db : Db} {op : Op} {user : User} {via : Via} {b : Branch}
    (h : Merges db op user via b) : (b, via) ∈ merging db op := by
  cases h with
  | approved hdecision hb _ _ =>
    show (approving db _).map (fun b => (b, Via.review)) = some _
    rw [approving, hdecision, hb]
    rfl
  | forced _ hb _ =>
    show (Except.toOption _).map (fun b => (b, Via.override)) = some _
    rw [hb]
    rfl

theorem target_of_isOf {db : Db} {b : Branch} {a : Artifact} (h : b.IsOf db a) :
    a ∈ db.main ∧ Target db b a := by
  obtain ⟨hkind, hid, hfound⟩ := h
  have hmem := List.mem_of_find?_eq_some hfound
  exact ⟨hmem, hmem, hkind, hid⟩

theorem Faithful.of_branches {db db' : Db} (h : Faithful P db) (happlied : db'.applied = db.applied)
    (hb : ∀ b ∈ db'.branches, b.status = .merged → b ∈ db.branches) : Faithful P db' where
  written b hmem hs := by
    rw [happlied]
    exact h.written b (hb b hmem hs) hs
  carried := by
    rw [happlied]
    exact h.carried
  unchanged := by
    rw [happlied]
    exact h.unchanged

theorem faithful_step (hsha : Function.Injective P.sha256) (db : Db) (op : Op)
    (h : Faithful P db) (hop : FaithfulOp P db op) : Faithful P (step P db op) := by
  unfold step
  cases hp : perform P db op with
  | error e => exact h
  | ok db' =>
    show Faithful P db'
    have hacc : accepted P db op = true := by
      rw [accepted, hp]
      rfl
    obtain ⟨hpatch, hmerge⟩ := hop hacc
    cases did_of_perform hp with
    | created hs _ _ =>
      refine h.of_branches ?_ ?_
      · rfl
      intro b hb hsb
      rcases List.mem_cons.mp hb with rfl | hb
      · rw [hs] at hsb
        cases hsb
      · exact hb
    | edited he =>
      obtain ⟨b, b', rfl, hb, hedit⟩ := he
      refine h.of_branches ?_ ?_
      · rfl
      intro x hx hsx
      rcases mem_storeBranch hx with rfl | hx
      · have hp' := hedit.merged hsx
        rw [hpatch] at hp'
        cases hp'
      · exact hx
    | deleted => exact h.of_branches rfl fun b hb _ => (List.mem_filter.mp hb).1
    | moved => exact h.of_branches rfl fun b hb _ => hb
    | marked hm happlies _ =>
      have hap := (hmerge _ (merging_of_merges hm)).1
      rw [happlies] at hap
      cases hap
    | @wrote user via b b' content a hm happlies hmark hcontent hof hconflict =>
      obtain ⟨hmem, htarget⟩ := target_of_isOf hof
      obtain ⟨hcarried, hforced⟩ := (hmerge _ (merging_of_merges hm)).2 a hmem htarget
      refine ⟨?_, ?_, ?_⟩
      · intro x hx hsx
        rcases mem_storeBranch hx with rfl | hx
        · exact ⟨_, List.mem_cons_self, hmark.id.symm, hmark.contentSnapshot.symm⟩
        · obtain ⟨y, hy, hyx⟩ := h.written x hx hsx
          exact ⟨y, List.mem_cons_of_mem _ hy, hyx⟩
      · intro x hx hvia hkind
        rcases List.mem_cons.mp hx with rfl | hx
        · have hc := hcarried hvia hkind
          rw [hcontent] at hc
          exact (get_snapshot_merge_iff hkind content).mpr hc
        · exact h.carried x hx hvia hkind
      · intro x hx
        rcases List.mem_cons.mp hx with rfl | hx
        · cases via with
          | review =>
            have hno := hconflict rfl
            rw [detectConflict, decide_eq_false_iff_not, ne_eq, not_not] at hno
            exact hsha hno
          | override => exact hforced rfl
        · exact h.unchanged x hx

/-- In a run of such requests, whatever main is when it starts and however it is edited beside the
branches, a merged branch was written into main with all its fields, over nothing that had changed
since it was cut. -/
theorem faithful_run (hsha : Function.Injective P.sha256) (main : List Artifact) (ops : List Op)
    (h : Along (step P) (FaithfulOp P) { main := main } ops) :
    Faithful P (exec (step P) { main := main } ops) := by
  apply exec_inv (faithful_step hsha) ?_ h
  exact ⟨fun b hb => absurd hb List.not_mem_nil, fun a ha => absurd ha List.not_mem_nil,
    fun a ha => absurd ha List.not_mem_nil⟩

/-! ## one branch -/

def redefined : Dict :=
  [("name", .str "Claim"), ("version", .str "1"),
    ("definition_json", .dict [("stages", .list [.str "triage"])]),
    ("default_priority", .str "medium"), ("description", .str "")]

def mergedByBob (content : Dict) : List Op :=
  [.create alice 7
      { name := "stages", artifactType := some "case_type",
        artifactId := some "00000000-0000-0000-0000-000000000001" },
    .updateContent alice 7 content, .submit alice 7 "bob", .review bob 7 "approved"]

theorem redefined_merged :
    Faithful plain (exec (step plain) { main := [claimType] } (mergedByBob redefined)) := by
  apply faithful_run Function.injective_id [claimType] (mergedByBob redefined)
  decide +kernel

def renamed : Dict := redefined.set "name" (.str "Motor claim")

/-- the branch is merged, and main keeps its name -/
theorem rename_lost :
    (exec (step plain) { main := [claimType] } (mergedByBob renamed)).branches.map
        (fun b => (b.status, (b.contentSnapshot.dict?.getD []).get "name")) =
      [(Status.merged, Value.str "Motor claim")] ∧
    (exec (step plain) { main := [claimType] } (mergedByBob renamed)).main.map
        (fun a => Dict.get a.columns "name") = [Value.str "Claim"] := by
  decide +kernel

end Branches
