import Velaris.Branches.Steps
import Velaris.Py.Doc

/-!
# Nobody merges their own branch

An approval is checked against the assigned reviewer only where one is assigned, and a PATCH puts a
branch under review without one.

* `ByReviewer`   main was written by an approval of the assigned reviewer, not the owner;
* `ReviewerAssigned`   an approval that is accepted is of a branch with a reviewer;
* `by_reviewer_step_iff`   one request;
* `main_by_reviewer_iff`   a run.
-/

namespace Branches
open Py Base

variable (P : Platform)

def Applied.ByReviewer (a : Applied) : Prop :=
  a.via = .review ∧ a.branch.assignedReviewerId = some a.actor ∧ a.branch.ownerId ≠ some a.actor

def accepted (db : Db) (op : Op) : Bool := (perform P db op).isOk

def approving (db : Db) : Op → Option Branch
  | .review _ branchId decision =>
    if (Decision.ofText decision).toOption = some .approved then (db.branchOr404 branchId).toOption
    else none
  | _ => none

/-- an accepted approval of a branch of such an artifact is of one with an assigned reviewer -/
def ReviewerAssigned (kind : Kind) (db : Db) (op : Op) : Prop :=
  accepted P db op = true → ∀ b ∈ approving db op,
    b.hasArtifact = true → Kind.ofText (b.artifactType.getD "") = some kind →
      present b.assignedReviewerId = true

instance (kind : Kind) (db : Db) (op : Op) : Decidable (ReviewerAssigned P kind db op) :=
  inferInstanceAs (Decidable (_ → ∀ b ∈ approving db op, _ → _ → _))

def Op.user? : Op → Option User
  | .create user _ _ | .pull user _ _ _ | .update user _ _ _ _ | .updateContent user _ _
  | .delete user _ | .submit user _ _ | .review user _ _ | .recalled user _ | .revert user _
  | .merge user _ => some user
  | .elsewhere _ => none

/-- the request is not of a holder of `design.branches.override` -/
def Ordinary (op : Op) : Prop := ∀ user ∈ op.user?, user.mayOverride = false

instance (op : Op) : Decidable (Ordinary op) :=
  inferInstanceAs (Decidable (∀ user ∈ op.user?, _))

variable {P}

/-! ## reviewers -/

theorem mem_storeBranch {db : Db} {b x : Branch} (h : x ∈ (db.storeBranch b).branches) :
    x = b ∨ x ∈ db.branches := by
  obtain ⟨y, hy, rfl⟩ := List.mem_map.mp h
  split
  · exact Or.inl rfl
  · exact Or.inr hy

def AllSeparate (db : Db) : Prop := ∀ b ∈ db.branches, b.Separate

theorem separate_of_marked {b b' : Branch} (hm : Marked b b') (h : b.Separate) : b'.Separate := by
  intro r hr
  rw [hm.ownerId]
  exact h r (hm.assignedReviewerId.symm.trans hr)

theorem allSeparate_of_store {db db' : Db} {b b' : Branch} (h : AllSeparate db)
    (hb : b ∈ db.branches) (hsep : b.Separate → b'.Separate)
    (hdb : db'.branches = db.branches) : AllSeparate (db'.storeBranch b') := by
  intro x hx
  rcases mem_storeBranch hx with rfl | hx
  · exact hsep (h b hb)
  · rw [hdb] at hx
    exact h x hx

theorem mem_of_merges {db : Db} {op : Op} {user : User} {via : Via} {b : Branch}
    (h : Merges db op user via b) : b ∈ db.branches := by
  cases h with
  | approved _ hb _ _ => exact (branchOr404_ok hb).1
  | forced _ hb _ => exact (branchOr404_ok hb).1

theorem allSeparate_step (db : Db) (op : Op) (h : AllSeparate db) :
    AllSeparate (step P db op) := by
  unfold step
  cases hp : perform P db op with
  | error e => exact h
  | ok db' =>
    show AllSeparate db'
    cases did_of_perform hp with
    | created _ hnone _ =>
      intro x hx
      rcases List.mem_cons.mp hx with rfl | hx
      · exact separate_of_none hnone
      · exact h x hx
    | edited he =>
      obtain ⟨b, b', rfl, hb, hedit⟩ := he
      exact allSeparate_of_store h hb hedit.separate rfl
    | deleted => exact fun x hx => h x (List.mem_filter.mp hx).1
    | moved => exact h
    | marked hm _ hmark =>
      exact allSeparate_of_store h (mem_of_merges hm) (separate_of_marked hmark) rfl
    | wrote hm _ hmark _ _ _ =>
      exact allSeparate_of_store h (mem_of_merges hm) (separate_of_marked hmark) rfl

/-! ## one request -/

theorem approval_recorded {db db' : Db} {op : Op} {b : Branch} (h : perform P db op = .ok db')
    (hb : b ∈ approving db op) (hart : b.hasArtifact = true) :
    ∃ user content a, op.user? = some user ∧ b ∈ db.branches ∧
      (user.mayOverride = false → present b.assignedReviewerId = true →
        b.assignedReviewerId = some user.userId) ∧
      Kind.ofText (b.artifactType.getD "") = some a.kind ∧
      db'.applied = record user .review b content a :: db.applied := by
  cases op with
  | review user branchId decision =>
    obtain ⟨b₁, asked, hasked, hget, -, hguard, happrove, -⟩ := postReview_ok h
    rw [approving, hasked, hget] at hb
    replace hb : b ∈ if some asked = some Decision.approved then some b₁ else none := hb
    split at hb
    · rename_i hsome
      obtain rfl : b₁ = b := Option.some.inj hb
      obtain ⟨b', -, ⟨hno, -⟩ | ⟨-, content, a, -, hof, -, rfl⟩⟩ :=
        approve_ok (happrove (Option.some.inj hsome))
      · rw [hart] at hno
        cases hno
      · exact ⟨user, content, a, rfl, (branchOr404_ok hget).1, hguard, hof.1, rfl⟩
    · cases hb
  | create _ _ _ | pull _ _ _ _ | update _ _ _ _ _ | updateContent _ _ _ | delete _ _
  | submit _ _ _ | recalled _ _ | revert _ _ | merge _ _ | elsewhere _ => cases hb

theorem not_recorded {db db' : Db} {op : Op} (h : perform P db op = .ok db') (ho : Ordinary op)
    (hno : ∀ b ∈ approving db op, b.hasArtifact = false) : db'.applied = db.applied := by
  cases did_of_perform h with
  | created _ _ _ | deleted | moved | marked _ _ _ => rfl
  | edited he =>
    obtain ⟨b, b', rfl, -, -⟩ := he
    rfl
  | @wrote user via b b' content a hm happlies _ _ _ _ =>
    cases hm with
    | approved hdecision hb _ _ =>
      have hart : b.hasArtifact = false := by
        apply hno
        rw [approving, hdecision, hb]
        rfl
      rw [show b.hasArtifact = true from happlies] at hart
      cases hart
    | forced hover _ _ =>
      rw [ho user rfl] at hover
      cases hover

theorem byReviewer_iff {b : Branch} (hsep : b.Separate) {user : User} {content : Dict}
    {a : Artifact}
    (hguard : present b.assignedReviewerId = true → b.assignedReviewerId = some user.userId) :
    (record user .review b content a).ByReviewer ↔ present b.assignedReviewerId = true := by
  constructor
  · intro h
    have hassigned : b.assignedReviewerId = some user.userId := h.2.1
    have hne := (hsep _ hassigned).1
    simp [present, hassigned, hne]
  · intro hpresent
    have hassigned := hguard hpresent
    exact ⟨rfl, hassigned, (hsep _ hassigned).2⟩

/-- an ordinary request leaves main written by reviewers only, exactly if what it approves has a
reviewer -/
theorem by_reviewer_step_iff (kind : Kind) (db : Db) (op : Op) (hsep : AllSeparate db)
    (ho : Ordinary op) :
    (∀ a ∈ (step P db op).applied, a.kind = kind → a.ByReviewer) ↔
      (∀ a ∈ db.applied, a.kind = kind → a.ByReviewer) ∧ ReviewerAssigned P kind db op := by
  unfold step ReviewerAssigned accepted
  cases hp : perform P db op with
  | error e =>
    exact ⟨fun h => ⟨h, fun hok => nomatch hok⟩, fun h => h.1⟩
  | ok db' =>
    show (∀ a ∈ db'.applied, a.kind = kind → a.ByReviewer) ↔ _ ∧ (true = true → _)
    by_cases hx : ∃ b ∈ approving db op, b.hasArtifact = true
    · obtain ⟨b, hb, hart⟩ := hx
      obtain ⟨user, content, a, huser, hmem, hguard, hkind, happlied⟩ :=
        approval_recorded hp hb hart
      have hiff : (record user .review b content a).ByReviewer ↔ present b.assignedReviewerId = true :=
        byReviewer_iff (hsep b hmem) (hguard (ho user huser))
      rw [happlied, List.forall_mem_cons, and_comm]
      apply and_congr_right
      intro _
      show (a.kind = kind → _) ↔ _
      rw [hiff]
      constructor
      · intro h _ b' hb' _ hkind'
        obtain rfl : b = b' := Option.some.inj (hb.symm.trans hb')
        exact h (Option.some.inj (hkind.symm.trans hkind'))
      · intro h hk
        exact h rfl b hb hart (hk ▸ hkind)
    · have hno : ∀ b ∈ approving db op, b.hasArtifact = false := by
        intro b hb
        cases hart : b.hasArtifact with
        | false => rfl
        | true => exact absurd ⟨b, hb, hart⟩ hx
      rw [not_recorded hp ho hno]
      refine ⟨fun h => ⟨h, ?_⟩, fun h => h.1⟩
      intro _ b hb hart
      rw [hno b hb] at hart
      cases hart

/-! ## runs -/

theorem by_reviewer_run_iff (kind : Kind) (ops : List Op) (ho : ∀ op ∈ ops, Ordinary op) :
    ∀ db : Db, AllSeparate db →
      ((∀ a ∈ (exec (step P) db ops).applied, a.kind = kind → a.ByReviewer) ↔
        (∀ a ∈ db.applied, a.kind = kind → a.ByReviewer) ∧
          Along (step P) (ReviewerAssigned P kind) db ops) := by
  induction ops with
  | nil => exact fun db _ => (and_iff_left trivial).symm
  | cons op ops ih =>
    intro db hsep
    obtain ⟨hop, hops⟩ := List.forall_mem_cons.mp ho
    rw [exec_cons, ih hops _ (allSeparate_step db op hsep), by_reviewer_step_iff kind db op hsep hop,
      along_cons, and_assoc]

/-- In a run without overrides, whatever main is when it starts, the content of a branch gets into
the artifacts of a kind only by approvals of the assigned reviewer, who is not the owner, exactly
if each approval is of a branch with an assigned reviewer. -/
theorem main_by_reviewer_iff (kind : Kind) (main : List Artifact) (ops : List Op)
    (ho : ∀ op ∈ ops, Ordinary op) :
    (∀ a ∈ (exec (step P) { main := main } ops).applied, a.kind = kind → a.ByReviewer) ↔
      Along (step P) (ReviewerAssigned P kind) { main := main } ops := by
  rw [by_reviewer_run_iff kind ops ho { main := main } fun b hb => absurd hb List.not_mem_nil]
  exact and_iff_right fun a ha => absurd ha List.not_mem_nil

/-! ## one branch -/

def plain : Platform where
  dumps := Value.printed
  sha256 := id
  storable := fun _ _ _ => true

def claimType : Artifact where
  kind := .caseType
  id := 1
  columns :=
    [("name", .str "Claim"), ("version", .str "1"), ("definition_json", .dict []),
      ("default_priority", .str "medium"), ("description", .str "")]

def alice : User := { userId := "alice" }

def bob : User := { userId := "bob" }

def cut : List Op :=
  [.create alice 7
      { name := "stages", artifactType := some "case_type",
        artifactId := some "00000000-0000-0000-0000-000000000001" },
    .updateContent alice 7 [("definition_json", .dict [("stages", .list [])])]]

def reviewedByBob : List Op := cut ++ [.submit alice 7 "bob", .review bob 7 "approved"]

theorem reviewed_branch_by_reviewer :
    Along (step plain) (ReviewerAssigned plain .caseType) { main := [claimType] } reviewedByBob ∧
      ∀ a ∈ (exec (step plain) { main := [claimType] } reviewedByBob).applied,
        a.kind = .caseType → a.ByReviewer := by
  have hassigned :
      Along (step plain) (ReviewerAssigned plain .caseType) { main := [claimType] }
        reviewedByBob := by
    decide +kernel
  exact ⟨hassigned,
    (main_by_reviewer_iff (P := plain) .caseType [claimType] reviewedByBob (by decide)).mpr
      hassigned⟩

/-- alice puts her branch under review without a reviewer, and approves it -/
def approvedByAlice : List Op :=
  cut ++ [.update alice 7 none none (some "pending_review"), .review alice 7 "approved"]

theorem owner_merged_own_branch :
    (∀ op ∈ approvedByAlice, Ordinary op) ∧
      (exec (step plain) { main := [claimType] } approvedByAlice).applied.map
          (fun a => (a.kind, a.actor, a.branch.ownerId, a.branch.assignedReviewerId)) =
        [(Kind.caseType, "alice", some "alice", none)] := by
  decide +kernel

end Branches
