import Velaris.Bots.Definition
import Velaris.Base.Run

/-!
# Nobody approves their own change

A bot definition over a run of requests, with the runner's two readings of it: `_cycle` looks at the
status of a leased job's bot, `_execute` reads the definition again and starts it.

* `World`   the row, the jobs that passed the look, and what happened;
* `Separate`   an approval by somebody who made none of the changes it covers;
* `Reviewed`   all approvals are separate, and what ran is what was approved;
* `reviewed_step`   one request;
* `reviewed_run`   a run.
-/

namespace Bots

open Py Base

/-- an approval that was given, with the creator of the bot and the authors of the edits since the
approval before it, the last edit first -/
structure Approval where
  approver : String
  creator : Option String
  editors : List String
  deriving DecidableEq

/-- a run of the bot: the definition it was started with, and the one approved last -/
structure Started where
  fields : BotFields
  approved : Option BotFields
  deriving DecidableEq

structure World where
  row : Option BotDefinition := none
  /-- the leased jobs whose bot was seen to be active -/
  cleared : Nat := 0
  creator : Option String := none
  editors : List String := []
  approved : Option BotFields := none
  approvals : List Approval := []
  started : List Started := []

inductive Op where
  | create (user : User) (body : BotIn)
  | update (user : User) (body : BotIn)
  | approve (user : User) (now : Int)
  | disable (user : User)
  /-- `_cycle` with a job of the bot -/
  | cycle
  /-- `_execute` of a job -/
  | execute

section
variable (P : Platform)

def perform (w : World) : Op → Except BotError World
  | .create user body => do
    let bot ← createBot P user body
    -- a bot that exists already is another row
    if w.row.isSome then return w
    else return { w with row := some bot, creator := some user.username }
  | .update user body => do
    let (bot, edited) ← updateBot P user body w.row
    return { w with
      row := some bot, editors := if edited then user.username :: w.editors else w.editors }
  | .approve user now => do
    let bot ← approveBot P user now w.row
    return { w with
      row := some bot
      editors := []
      approved := some bot.toBotFields
      approvals := ⟨user.username, w.creator, w.editors⟩ :: w.approvals }
  | .disable user => do
    let bot ← disableBot P user w.row
    return { w with row := some bot }
  | .cycle =>
    match w.row with
    | some bot => .ok (if bot.status = .active then { w with cleared := w.cleared + 1 } else w)
    | none => .ok w
  | .execute =>
    match w.row, w.cleared with
    | some bot, n + 1 =>
      .ok { w with cleared := n, started := ⟨bot.toBotFields, w.approved⟩ :: w.started }
    | _, _ => .ok w

def step (w : World) (op : Op) : World := (perform P w op).toOption.getD w

end

/-- the approver is not the creator, and made none of the edits since the approval before -/
def Approval.Separate (a : Approval) : Prop :=
  a.creator ≠ some a.approver ∧ a.approver ∉ a.editors

structure Reviewed (w : World) : Prop where
  separate : ∀ a ∈ w.approvals, a.Separate
  started : ∀ s ∈ w.started, s.approved = some s.fields
  active : ∀ bot ∈ w.row, bot.status = .active → w.approved = some bot.toBotFields

/-- nobody asks to approve who made an edit before the last one, and a job starts while its bot is
active -/
def Allowed (w : World) : Op → Prop
  | .approve user _ => user.username ∉ w.editors.tail
  | .execute => ∀ bot ∈ w.row, bot.status = .active
  | _ => True

instance (w : World) : ∀ op, Decidable (Allowed w op)
  | .approve user _ => inferInstanceAs (Decidable (user.username ∉ w.editors.tail))
  | .execute => inferInstanceAs (Decidable (∀ bot ∈ w.row, bot.status = .active))
  | .create _ _ | .update _ _ | .disable _ | .cycle => isTrue trivial

/-! ## one request -/

/-- the row names its creator and its last editor -/
structure Recorded (w : World) : Prop where
  creator : ∀ bot ∈ w.row, w.creator = some bot.createdBy
  last : ∀ bot ∈ w.row, ∀ name ∈ w.editors.head?, bot.lastEditedBy = some name
  fresh : w.row = none → w.editors = []

section
variable {P : Platform} {w : World}

theorem separate_of_approve {bot new : BotDefinition} {user : User} {now : Int}
    (h : Recorded w) (hrow : w.row = some bot) (hok : approve P bot user.username now = .ok new)
    (hallowed : Allowed w (.approve user now)) :
    (Approval.mk user.username w.creator w.editors).Separate := by
  obtain ⟨hcreator, hlast, -⟩ := approve_ok hok
  constructor
  · show w.creator ≠ some user.username
    rw [h.creator bot hrow]
    intro heq
    exact hcreator (Option.some.inj heq).symm
  · show user.username ∉ w.editors
    have hlast' := h.last bot hrow
    change user.username ∉ w.editors.tail at hallowed
    cases hed : w.editors with
    | nil => exact List.not_mem_nil
    | cons name earlier =>
      rw [hed] at hlast' hallowed
      intro hmem
      rcases List.mem_cons.1 hmem with heq | hmem
      · exact hlast name (hlast' name rfl) heq
      · exact hallowed hmem

theorem reviewed_step (op : Op) (h : Recorded w ∧ Reviewed w) (hallowed : Allowed w op) :
    Recorded (step P w op) ∧ Reviewed (step P w op) := by
  obtain ⟨hrec, hrev⟩ := h
  unfold step
  cases hp : perform P w op with
  | error e => exact ⟨hrec, hrev⟩
  | ok w' =>
    show Recorded w' ∧ Reviewed w'
    cases op with
    | create user body =>
      obtain ⟨bot, hbot, hp⟩ := exists_of_bind_ok hp
      obtain ⟨hdraft, hcreated, -⟩ := createBot_ok hbot
      split at hp
      · obtain rfl := Except.ok.inj hp
        exact ⟨hrec, hrev⟩
      · rename_i hnone
        obtain rfl := Except.ok.inj hp
        have hempty : w.editors = [] := hrec.fresh (by simpa using hnone)
        refine ⟨⟨?_, ?_, fun hrow => nomatch hrow⟩, ⟨hrev.separate, hrev.started, ?_⟩⟩
        · rintro _ ⟨⟩
          exact congrArg some hcreated.symm
        · intro b _ name hname
          rw [show ({ w with row := some bot, creator := some user.username } : World).editors = []
            from hempty] at hname
          cases hname
        · rintro _ ⟨⟩ hactive
          rw [hdraft] at hactive
          cases hactive
    | update user body =>
      obtain ⟨⟨bot, edited⟩, hbot, hp⟩ := exists_of_bind_ok hp
      obtain rfl := Except.ok.inj hp
      obtain ⟨old, hrow, hcases⟩ := updateBot_ok hbot
      rcases hcases with ⟨rfl, rfl⟩ | ⟨rfl, fields, rfl⟩
      · have hsame : ({ w with row := some bot } : World) = w := by rw [← hrow]
        show Recorded { w with row := some bot } ∧ Reviewed { w with row := some bot }
        rw [hsame]
        exact ⟨hrec, hrev⟩
      · refine ⟨⟨?_, ?_, fun hrow' => nomatch hrow'⟩, ⟨hrev.separate, hrev.started, ?_⟩⟩
        · rintro _ ⟨⟩
          exact hrec.creator old hrow
        · rintro _ ⟨⟩ _ ⟨⟩
          rfl
        · rintro _ ⟨⟩ hactive
          cases hactive
    | approve user now =>
      obtain ⟨bot, hbot, hp⟩ := exists_of_bind_ok hp
      obtain rfl := Except.ok.inj hp
      obtain ⟨old, hrow, hok⟩ := approveBot_ok hbot
      have hsep := separate_of_approve hrec hrow hok hallowed
      obtain ⟨-, -, rfl⟩ := approve_ok hok
      refine ⟨⟨?_, ?_, fun hrow' => nomatch hrow'⟩, ⟨?_, hrev.started, ?_⟩⟩
      · rintro _ ⟨⟩
        exact hrec.creator old hrow
      · intro _ _ name hname
        cases hname
      · intro a ha
        rcases List.mem_cons.1 ha with rfl | ha
        · exact hsep
        · exact hrev.separate a ha
      · rintro _ ⟨⟩ -
        rfl
    | disable user =>
      obtain ⟨bot, hbot, hp⟩ := exists_of_bind_ok hp
      obtain rfl := Except.ok.inj hp
      obtain ⟨old, hrow, rfl⟩ := disableBot_ok hbot
      refine ⟨⟨?_, ?_, fun hrow' => nomatch hrow'⟩, ⟨hrev.separate, hrev.started, ?_⟩⟩
      · rintro _ ⟨⟩
        exact hrec.creator old hrow
      · rintro _ ⟨⟩
        exact hrec.last old hrow
      · rintro _ ⟨⟩ hactive
        cases hactive
    | cycle =>
      rw [perform] at hp
      split at hp
      · obtain rfl := Except.ok.inj hp
        split
        · exact ⟨⟨hrec.creator, hrec.last, hrec.fresh⟩, ⟨hrev.separate, hrev.started, hrev.active⟩⟩
        · exact ⟨hrec, hrev⟩
      · obtain rfl := Except.ok.inj hp
        exact ⟨hrec, hrev⟩
    | execute =>
      rw [perform] at hp
      split at hp
      · rename_i bot n hrow hcleared
        obtain rfl := Except.ok.inj hp
        refine ⟨⟨hrec.creator, hrec.last, hrec.fresh⟩, ⟨hrev.separate, ?_, hrev.active⟩⟩
        intro s hs
        rcases List.mem_cons.1 hs with rfl | hs
        · exact hrev.active bot hrow (hallowed bot hrow)
        · exact hrev.started s hs
      · obtain rfl := Except.ok.inj hp
        exact ⟨hrec, hrev⟩

/-! ## runs -/

/-- In every run in which nobody asks to approve who made an edit since the last approval other
than the latest, and no job starts a bot that is not active, every approval is by somebody who
neither created the bot nor made one of the edits, and what runs is what was approved. -/
theorem reviewed_run (P : Platform) (ops : List Op) (h : Along (step P) Allowed {} ops) :
    Always (step P) Reviewed {} ops := by
  have hstart : Recorded {} ∧ Reviewed {} :=
    ⟨⟨fun _ h => (nomatch h), fun _ h => (nomatch h), fun _ => rfl⟩,
      ⟨fun _ h => (nomatch h), fun _ h => (nomatch h), fun _ h => (nomatch h)⟩⟩
  intro before after hsplit
  rw [hsplit, along_append] at h
  have hinv := exec_inv (fun w op hw hop => reviewed_step (P := P) (w := w) op hw hop) hstart h.1
  exact hinv.2

end

/-! ## two editors -/

def oneTenant : Platform where
  lower := String.toLower
  mayReach := fun _ _ => true
  callerTenant := fun _ tenant => some tenant

def invoiceBot (image : String) : BotIn :=
  { name := "invoices", image := image, digest := "sha256:1c0f" }

/-- alice creates, bob edits, and carol approves and the bot runs -/
def reviewedByCarol : List Op :=
  [.create ⟨"alice"⟩ (invoiceBot "bots/one"), .update ⟨"bob"⟩ (invoiceBot "bots/two"),
    .approve ⟨"carol"⟩ 5, .cycle, .execute]

theorem invoices_reviewed :
    Along (step oneTenant) Allowed {} reviewedByCarol ∧
      Always (step oneTenant) Reviewed {} reviewedByCarol := by
  have hallowed : Along (step oneTenant) Allowed {} reviewedByCarol := by decide +kernel
  exact ⟨hallowed, reviewed_run oneTenant reviewedByCarol hallowed⟩

/-- bob edits, carol edits after him, and bob approves -/
def approvedByBob : List Op :=
  [.create ⟨"alice"⟩ (invoiceBot "bots/one"), .update ⟨"bob"⟩ (invoiceBot "bots/two"),
    .update ⟨"carol"⟩ (invoiceBot "bots/three"), .approve ⟨"bob"⟩ 5]

/-- carol approves, a job passes the look at the status, and bob edits before it starts -/
def editedBeforeStart : List Op :=
  [.create ⟨"alice"⟩ (invoiceBot "bots/one"), .approve ⟨"carol"⟩ 5, .cycle,
    .update ⟨"bob"⟩ (invoiceBot "bots/two"), .execute]

theorem own_edit_approved :
    ¬ Always (step oneTenant) Reviewed {} approvedByBob ∧
      ¬ Always (step oneTenant) Reviewed {} editedBeforeStart := by
  constructor
  · intro h
    have hsep := (h approvedByBob [] (List.append_nil _).symm).separate
      ⟨"bob", some "alice", ["carol", "bob"]⟩ (by decide +kernel)
    exact hsep.2 (by decide)
  · intro h
    have hstarted := (h editedBeforeStart [] (List.append_nil _).symm).started
      ⟨(invoiceBot "bots/two").toBotFields, some (invoiceBot "bots/one").toBotFields⟩
      (by decide +kernel)
    revert hstarted
    decide +kernel

end Bots
