import Velaris.Branches.Router

/-!
# What the handlers do

* `Edited`   a branch that is not merged changed, main and the record left alone;
* `Merges`   who may merge a branch with which request;
* `Db.written`   main with the content of a branch in the artifact it is of;
* `Did`   all that an accepted request can do;
* `did_of_perform`.
-/

namespace Branches
open Py Base

variable {P : Platform}

theorem refuseIf_ok {bad : Bool} {r : Refused} {u : Unit} (h : refuseIf bad r = .ok u) :
    bad = false := by
  cases bad with
  | true => cases h
  | false => rfl

theorem branchOr404_ok {db : Db} {branchId : Uuid} {b : Branch}
    (h : db.branchOr404 branchId = .ok b) : b ∈ db.branches ∧ b.id = branchId := by
  unfold Db.branchOr404 at h
  split at h
  · rename_i x hx
    rw [← Except.ok.inj h]
    exact ⟨List.mem_of_find?_eq_some hx, by simpa using List.find?_some hx⟩
  · cases h

/-- the reviewer of a branch is somebody, and not its owner -/
def Branch.Separate (b : Branch) : Prop :=
  ∀ r, b.assignedReviewerId = some r → r ≠ "" ∧ b.ownerId ≠ some r

/-- a PATCH that asks for the status `merged` -/
def patchesMerged : Op → Bool
  | .update _ _ _ _ status => status = some "merged"
  | _ => false

/-- a branch changed by a request that merges nothing -/
structure Edited (op : Op) (b b' : Branch) : Prop where
  notMerged : b.status ≠ .merged
  id : b'.id = b.id
  ownerId : b'.ownerId = b.ownerId
  baseSnapshot : b'.baseSnapshot = b.baseSnapshot
  separate : b.Separate → b'.Separate
  merged : b'.status = .merged → patchesMerged op = true

def EditedIn (op : Op) (db db' : Db) : Prop :=
  ∃ b b', db' = db.storeBranch b' ∧ b ∈ db.branches ∧ Edited op b b'

/-! ## the handlers that merge nothing -/

theorem separate_of_none {b : Branch} (h : b.assignedReviewerId = none) : b.Separate := by
  intro r hr
  rw [h] at hr
  cases hr

theorem addBranch_ok {db db' : Db} {b : Branch} (h : db.addBranch b = .ok db') :
    (∀ x ∈ db.branches, x.id ≠ b.id) ∧ db' = { db with branches := b :: db.branches } := by
  obtain ⟨u, hu, rfl⟩ := exists_of_map_ok h
  refine ⟨?_, rfl⟩
  intro x hx hid
  have hany := refuseIf_ok hu
  rw [List.any_eq_false] at hany
  exact hany x hx (decide_eq_true hid)

theorem updateBranch_ok {db db' : Db} {user : User} {branchId : Uuid}
    {name description status : Option String}
    (h : updateBranch db user branchId name description status = .ok db') :
    EditedIn (.update user branchId name description status) db db' := by
  obtain ⟨_, -, h⟩ := exists_of_bind_ok h
  obtain ⟨b, hb, h⟩ := exists_of_bind_ok h
  obtain ⟨_, hs, h⟩ := exists_of_bind_ok h
  obtain ⟨asked, hasked, rfl⟩ := exists_of_map_ok h
  have hnot := refuseIf_ok hs
  simp only [Bool.or_eq_false_iff, decide_eq_false_iff_not] at hnot
  refine ⟨b, _, rfl, (branchOr404_ok hb).1, hnot.1, rfl, rfl, rfl, fun hsep => hsep, ?_⟩
  intro hmerged
  replace hmerged : asked = .merged := hmerged
  rw [hmerged] at hasked
  unfold askedStatus at hasked
  split at hasked
  · exact absurd (Except.ok.inj hasked) hnot.1
  · rename_i text
    split at hasked
    · rename_i status hstatus
      rw [Except.ok.inj hasked] at hstatus
      unfold Status.ofText at hstatus
      split at hstatus <;> simp_all [patchesMerged]
    · cases hasked

theorem updateBranchContent_ok {db db' : Db} {user : User} {branchId : Uuid} {content : Dict}
    {op : Op} (h : updateBranchContent db user branchId content = .ok db') :
    EditedIn op db db' := by
  obtain ⟨b, hb, h⟩ := exists_of_bind_ok h
  obtain ⟨_, -, h⟩ := exists_of_bind_ok h
  obtain ⟨_, -, h⟩ := exists_of_bind_ok h
  obtain ⟨_, hs, rfl⟩ := exists_of_map_ok h
  have hnot := refuseIf_ok hs
  simp only [Bool.or_eq_false_iff, decide_eq_false_iff_not] at hnot
  exact ⟨b, _, rfl, (branchOr404_ok hb).1, hnot.1.1, rfl, rfl, rfl, fun hsep => hsep,
    fun hm => absurd hm hnot.1.1⟩

theorem submitForReview_ok {db db' : Db} {user : User} {branchId : Uuid} {reviewer : String}
    {op : Op} (h : submitForReview db user branchId reviewer = .ok db') :
    EditedIn op db db' := by
  obtain ⟨_, hempty, h⟩ := exists_of_bind_ok h
  obtain ⟨b, hb, h⟩ := exists_of_bind_ok h
  obtain ⟨_, hs, h⟩ := exists_of_bind_ok h
  obtain ⟨_, -, h⟩ := exists_of_bind_ok h
  obtain ⟨_, hsod, rfl⟩ := exists_of_map_ok h
  have hopen := refuseIf_ok hs
  have hempty := refuseIf_ok hempty
  have hsod := refuseIf_ok hsod
  simp only [decide_eq_false_iff_not, ne_eq, not_not] at hopen hempty hsod
  refine ⟨b, _, rfl, (branchOr404_ok hb).1, ?_, rfl, rfl, rfl, ?_, fun hm => nomatch hm⟩
  · rw [hopen]
    nofun
  · intro _ r hr
    obtain rfl : reviewer = r := Option.some.inj hr
    refine ⟨hempty, ?_⟩
    intro howner
    replace howner : b.ownerId = some reviewer := howner
    have hpresent : present b.ownerId = true := by simp [present, howner, hempty]
    apply hsod
    rw [if_pos hpresent, howner]
    rfl

theorem recallBranch_ok {db db' : Db} {user : User} {branchId : Uuid} {op : Op}
    (h : recallBranch db user branchId = .ok db') :
    EditedIn op db db' := by
  obtain ⟨b, hb, h⟩ := exists_of_bind_ok h
  obtain ⟨_, -, h⟩ := exists_of_bind_ok h
  obtain ⟨_, hs, rfl⟩ := exists_of_map_ok h
  have hpending := refuseIf_ok hs
  simp only [decide_eq_false_iff_not, ne_eq, not_not] at hpending
  refine ⟨b, _, rfl, (branchOr404_ok hb).1, ?_, rfl, rfl, rfl, fun _ => separate_of_none rfl,
    fun hm => nomatch hm⟩
  rw [hpending]
  nofun

theorem revertToBase_ok {db db' : Db} {user : User} {branchId : Uuid} {op : Op}
    (h : revertToBase db user branchId = .ok db') :
    EditedIn op db db' := by
  obtain ⟨b, hb, h⟩ := exists_of_bind_ok h
  obtain ⟨_, -, h⟩ := exists_of_bind_ok h
  obtain ⟨_, hs, rfl⟩ := exists_of_map_ok h
  have hopen := refuseIf_ok hs
  simp only [decide_eq_false_iff_not, ne_eq, not_not] at hopen
  have hnot : b.status ≠ .merged := by
    rw [hopen]
    nofun
  exact ⟨b, _, rfl, (branchOr404_ok hb).1, hnot, rfl, rfl, rfl, fun hsep => hsep,
    fun hm => absurd hm hnot⟩

/-! ## the handlers that merge -/

/-- the user may merge the branch with this request, and how -/
inductive Merges (db : Db) : Op → User → Via → Branch → Prop
  | approved {user : User} {branchId : Uuid} {b : Branch} {decision : String} :
      Decision.ofText decision = .ok .approved → db.branchOr404 branchId = .ok b →
      b.status = .pendingReview →
      (user.mayOverride = false → present b.assignedReviewerId = true →
        b.assignedReviewerId = some user.userId) →
      Merges db (.review user branchId decision) user .review b
  | forced {user : User} {branchId : Uuid} {b : Branch} : user.mayOverride = true →
      db.branchOr404 branchId = .ok b → b.status ≠ .merged →
      Merges db (.merge user branchId) user .override b

/-- a merge of the branch writes its content into main -/
def Via.applies (via : Via) (b : Branch) : Bool :=
  match via with
  | .review => b.hasArtifact
  | .override => b.branchType = "artifact" && b.hasArtifact

structure Marked (b b' : Branch) : Prop where
  id : b'.id = b.id
  ownerId : b'.ownerId = b.ownerId
  assignedReviewerId : b'.assignedReviewerId = b.assignedReviewerId
  contentSnapshot : b'.contentSnapshot = b.contentSnapshot
  status : b'.status = .merged

def Branch.IsOf (b : Branch) (db : Db) (a : Artifact) : Prop :=
  Kind.ofText (b.artifactType.getD "") = some a.kind ∧
    uuid (b.artifactId.getD "") = some a.id ∧ db.artifact? a.kind a.id = some a

def record (user : User) (via : Via) (b : Branch) (content : Dict) (a : Artifact) : Applied where
  branch := b
  actor := user.userId
  via := via
  kind := a.kind
  content := content
  before := a.snapshot
  after := (a.merge content).snapshot

/-- main and the record with the content of a branch written -/
def Db.written (db : Db) (user : User) (via : Via) (b : Branch) (content : Dict) (a : Artifact) :
    Db :=
  { db.storeArtifact (a.merge content) with
    applied := record user via b content a :: db.applied }

theorem applyBranch_ok {db db' : Db} {user : User} {via : Via} {b : Branch} {content : Dict}
    (h : db.applyBranch P user via b content = .ok db') :
    ∃ a, b.IsOf db a ∧ db' = db.written user via b content a := by
  obtain ⟨pair, hpair, rfl⟩ := exists_of_map_ok h
  unfold Db.applyArtifactToMain at hpair
  split at hpair
  · cases hpair
  · rename_i kind hkind
    obtain ⟨id, hid, hpair'⟩ := exists_of_bind_ok hpair
    split at hpair'
    · cases hpair'
    · rename_i a ha
      split at hpair'
      · have hfound := List.find?_some ha
        simp only [Bool.and_eq_true, decide_eq_true_eq] at hfound
        obtain ⟨rfl, rfl⟩ := hfound
        refine ⟨a, ⟨hkind, ?_, ha⟩, ?_⟩
        · unfold parsed at hid
          split at hid
          · rename_i parsed hparsed
            rw [hparsed, Except.ok.inj hid]
          · cases hid
        · rw [← Except.ok.inj hpair']
          rfl
      · cases hpair'

theorem currentMain_of_isOf {db : Db} {b : Branch} {a : Artifact} (ha : b.hasArtifact = true)
    (h : b.IsOf db a) : db.currentMain b.artifactType b.artifactId = .ok a.snapshot := by
  obtain ⟨hkind, hid, hfound⟩ := h
  unfold Branch.hasArtifact at ha
  rw [Bool.and_eq_true] at ha
  rw [Db.currentMain, if_pos ha, Db.getLocalArtifact, hkind]
  show (parsed _).map _ = _
  rw [parsed, hid]
  show Except.ok (((db.artifact? a.kind a.id).map _).getD []) = _
  rw [hfound]
  rfl

inductive Did (P : Platform) (db : Db) (op : Op) : Db → Prop
  | created {b : Branch} : b.status = .open → b.assignedReviewerId = none →
      (∀ x ∈ db.branches, x.id ≠ b.id) → Did P db op { db with branches := b :: db.branches }
  | edited {db' : Db} : EditedIn op db db' → Did P db op db'
  | deleted {id : Uuid} : Did P db op { db with branches := db.branches.filter fun x => x.id ≠ id }
  | moved {main : List Artifact} : Did P db op { db with main := main }
  | marked {user : User} {via : Via} {b b' : Branch} : Merges db op user via b →
      via.applies b = false → Marked b b' → Did P db op (db.storeBranch b')
  | wrote {user : User} {via : Via} {b b' : Branch} {content : Dict} {a : Artifact} :
      Merges db op user via b → via.applies b = true → Marked b b' →
      b.contentSnapshot = .dict content → b.IsOf db a →
      (via = .review → detectConflict P b.baseSnapshot a.snapshot = false) →
      Did P db op ((db.written user via b content a).storeBranch b')

theorem contentOf_ok {b : Branch} {content : Dict} (h : contentOf b = .ok content) :
    b.contentSnapshot = .dict content := by
  unfold contentOf at h
  split at h
  · rename_i items hitems
    rw [← Except.ok.inj h]
    cases hc : b.contentSnapshot with
    | dict d =>
      rw [hc] at hitems
      exact congrArg Value.dict (Option.some.inj hitems)
    | none | bool _ | int _ | float _ | str _ | list _ =>
      rw [hc] at hitems
      cases hitems
  · cases h

theorem approve_ok {db db' : Db} {user : User} {b : Branch}
    (h : db.approve P user b = .ok db') :
    ∃ b', Marked b b' ∧
      (b.hasArtifact = false ∧ db' = db.storeBranch b' ∨
        b.hasArtifact = true ∧ ∃ content a, b.contentSnapshot = .dict content ∧ b.IsOf db a ∧
          detectConflict P b.baseSnapshot a.snapshot = false ∧
          db' = (db.written user .review b content a).storeBranch b') := by
  obtain ⟨currentMain, hmain, h⟩ := exists_of_bind_ok h
  obtain ⟨_, hconflict, h⟩ := exists_of_bind_ok h
  obtain ⟨content, hcontent, h⟩ := exists_of_bind_ok h
  obtain ⟨db1, hdb1, rfl⟩ := exists_of_map_ok h
  have hno := refuseIf_ok hconflict
  refine ⟨{ b with
    status := .merged
    reviewedBy := some user.userId
    mergedBy := some user.userId
    mergeDiff := some (computeDiff currentMain content) }, ⟨rfl, rfl, rfl, rfl, rfl⟩, ?_⟩
  cases ha : b.hasArtifact with
  | true =>
    rw [if_pos ha] at hdb1
    obtain ⟨a, hof, rfl⟩ := applyBranch_ok hdb1
    have heq : currentMain = a.snapshot :=
      Except.ok.inj (hmain.symm.trans (currentMain_of_isOf ha hof))
    rw [ha, Bool.true_and, heq] at hno
    exact Or.inr ⟨rfl, content, a, contentOf_ok hcontent, hof, hno, rfl⟩
  | false =>
    rw [if_neg (by rw [ha]; exact Bool.false_ne_true)] at hdb1
    rw [← Except.ok.inj hdb1]
    exact Or.inl ⟨rfl, rfl⟩

theorem postReview_ok {db db' : Db} {user : User} {branchId : Uuid} {decision : String}
    (h : postReview P db user branchId decision = .ok db') :
    ∃ b asked, Decision.ofText decision = .ok asked ∧ db.branchOr404 branchId = .ok b ∧
      b.status = .pendingReview ∧
      (user.mayOverride = false → present b.assignedReviewerId = true →
        b.assignedReviewerId = some user.userId) ∧
      (asked = .approved → db.approve P user b = .ok db') ∧
      (asked ≠ .approved → EditedIn (.review user branchId decision) db db') := by
  obtain ⟨asked, hasked, hrest⟩ := exists_of_bind_ok h
  obtain ⟨b, hb, hrest'⟩ := exists_of_bind_ok hrest
  obtain ⟨_, hs, hrest''⟩ := exists_of_bind_ok hrest'
  obtain ⟨_, hguard, hdone⟩ := exists_of_bind_ok hrest''
  obtain ⟨hmem, -⟩ := branchOr404_ok hb
  have hpending := refuseIf_ok hs
  simp only [decide_eq_false_iff_not, ne_eq, not_not] at hpending
  have hnot : b.status ≠ .merged := by
    rw [hpending]
    nofun
  refine ⟨b, asked, hasked, hb, hpending, ?_, ?_, ?_⟩
  · intro hno hpresent
    have hg := refuseIf_ok hguard
    simpa [hno, hpresent] using hg
  · rintro rfl
    exact hdone
  · intro hne
    cases asked with
    | approved => exact absurd rfl hne
    | rejected =>
      rw [← Except.ok.inj hdone]
      exact ⟨b, _, rfl, hmem, hnot, rfl, rfl, rfl, fun hsep => hsep, fun hm => nomatch hm⟩
    | changesRequested =>
      rw [← Except.ok.inj hdone]
      exact ⟨b, _, rfl, hmem, hnot, rfl, rfl, rfl, fun _ => separate_of_none rfl,
        fun hm => nomatch hm⟩

theorem did_of_review {db db' : Db} {user : User} {branchId : Uuid} {decision : String}
    (h : postReview P db user branchId decision = .ok db') :
    Did P db (.review user branchId decision) db' := by
  obtain ⟨b, asked, hasked, hb, hpending, hguard, happrove, hedit⟩ := postReview_ok h
  by_cases ha : asked = .approved
  · rw [ha] at hasked
    have hm : Merges db (.review user branchId decision) user .review b :=
      Merges.approved hasked hb hpending hguard
    obtain ⟨b', hmark, ⟨hart, rfl⟩ | ⟨hart, content, a, hc, hof, hno, rfl⟩⟩ :=
      approve_ok (happrove ha)
    · exact Did.marked hm hart hmark
    · exact Did.wrote hm hart hmark hc hof fun _ => hno
  · exact Did.edited (hedit ha)

theorem did_of_merge {db db' : Db} {user : User} {branchId : Uuid}
    (h : mergeBranch P db user branchId = .ok db') : Did P db (.merge user branchId) db' := by
  obtain ⟨_, hover, h⟩ := exists_of_bind_ok h
  obtain ⟨b, hb, h⟩ := exists_of_bind_ok h
  obtain ⟨_, hs, h⟩ := exists_of_bind_ok h
  obtain ⟨currentMain, -, h⟩ := exists_of_bind_ok h
  obtain ⟨content, hcontent, h⟩ := exists_of_bind_ok h
  obtain ⟨db1, hdb1, rfl⟩ := exists_of_map_ok h
  have hnot := refuseIf_ok hs
  simp only [Bool.or_eq_false_iff, decide_eq_false_iff_not] at hnot
  have hm : Merges db (.merge user branchId) user .override b :=
    Merges.forced (by simpa using refuseIf_ok hover) hb hnot.1
  replace hdb1 : (if Via.override.applies b = true then db.applyBranch P user .override b content
      else .ok db) = .ok db1 := hdb1
  cases ha : Via.override.applies b with
  | true =>
    rw [if_pos ha] at hdb1
    obtain ⟨a, hof, rfl⟩ := applyBranch_ok hdb1
    exact Did.wrote hm ha ⟨rfl, rfl, rfl, rfl, rfl⟩ (contentOf_ok hcontent) hof nofun
  | false =>
    rw [if_neg (by rw [ha]; exact Bool.false_ne_true)] at hdb1
    rw [← Except.ok.inj hdb1]
    exact Did.marked hm ha ⟨rfl, rfl, rfl, rfl, rfl⟩

theorem did_of_perform {db db' : Db} {op : Op} (h : perform P db op = .ok db') :
    Did P db op db' := by
  cases op with
  | create user id body =>
    obtain ⟨_, -, h⟩ := exists_of_bind_ok h
    obtain ⟨_, -, h⟩ := exists_of_bind_ok h
    obtain ⟨_, -, h⟩ := exists_of_bind_ok h
    obtain ⟨_, -, h⟩ := exists_of_bind_ok h
    obtain ⟨hid, rfl⟩ := addBranch_ok h
    exact Did.created rfl rfl hid
  | pull user id body fetched =>
    obtain ⟨_, -, h⟩ := exists_of_bind_ok h
    obtain ⟨_, -, h⟩ := exists_of_bind_ok h
    obtain ⟨_, -, h⟩ := exists_of_bind_ok h
    obtain ⟨_, -, h⟩ := exists_of_bind_ok h
    obtain ⟨hid, rfl⟩ := addBranch_ok h
    exact Did.created rfl rfl hid
  | update user branchId name description status => exact Did.edited (updateBranch_ok h)
  | updateContent user branchId content => exact Did.edited (updateBranchContent_ok h)
  | delete user branchId =>
    obtain ⟨_, -, h⟩ := exists_of_bind_ok h
    obtain ⟨b, -, rfl⟩ := exists_of_map_ok h
    exact Did.deleted
  | submit user branchId reviewer => exact Did.edited (submitForReview_ok h)
  | review user branchId decision => exact did_of_review h
  | recalled user branchId => exact Did.edited (recallBranch_ok h)
  | revert user branchId => exact Did.edited (revertToBase_ok h)
  | merge user branchId => exact did_of_merge h
  | elsewhere main =>
    rw [← Except.ok.inj h]
    exact Did.moved

end Branches
