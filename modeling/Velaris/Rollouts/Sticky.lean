import Velaris.Rollouts.Requested

/-!
# Customers who stay on their arm

`rollouts/policy.py` compares customers by `norm`; `bucket` hashes the customer as written.

* `resolve_arm`   the arm of a request is that of the open rollout where its way stops;
* `stop_raised`   a percentage does not change the way;
* `sticky_iff`   customers who agree by `norm` get one arm exactly where the open rollout forces
  their arm, or does not roll, or their buckets are on one side of its percentage.
-/

namespace Rollouts
open Py

variable (P : Platform)

/-! ## the arm of a request -/

/-- the open rollout that decides about the requests for a version -/
def decider (rows : List Rollout) (caller : Caller) (id : Uuid) : Option Rollout :=
  if caller.tableReady = true ∧ caller.noRollouts = false then
    caller.tenant.bind fun tenant => (stop rows tenant MAX_HOPS [] id).2
  else none

theorem walk_arm (rows : List Rollout) (tenant : Uuid) (asked : Asked) (hops : Nat)
    (seen : List Uuid) (current : Uuid) :
    (walk P rows tenant asked hops seen current).arm =
      (stop rows tenant hops seen current).2.map (armOf P asked) := by
  induction hops generalizing seen current with
  | zero => rfl
  | succ hops ih =>
    rw [walk, stop]
    cases openRow rows tenant current with
    | some r => rfl
    | none =>
      cases redirect rows tenant current with
      | none => rfl
      | some nxt =>
        show (if nxt ∈ current :: seen then ({ caseTypeId := current } : Resolution) else _).arm =
          Option.map _ (if nxt ∈ current :: seen then _ else _ : Uuid × Option Rollout).2
        split
        · rfl
        · exact ih _ _

theorem resolve_arm (rows : List Rollout) (caller : Caller) (asked : Asked) (id : Uuid) :
    (resolve P rows caller asked id).arm = (decider rows caller id).map (armOf P asked) := by
  unfold decider
  by_cases hreads : caller.tableReady = true ∧ caller.noRollouts = false
  · rw [if_pos hreads]
    cases ht : caller.tenant with
    | none => rw [resolve_of_not_reads P fun tenant h => nomatch ht.symm.trans h.2.1]; rfl
    | some tenant =>
      rw [resolve_of_reads P ⟨hreads.1, ht, hreads.2⟩, walk_arm]
      rfl
  · rw [if_neg hreads, resolve_of_not_reads P fun tenant h => hreads ⟨h.1, h.2.2⟩]
    rfl

/-! ## a percentage that is raised -/

def withPercent (f : Rollout → Int) (rows : List Rollout) : List Rollout :=
  rows.map fun r => { r with percent := f r }

theorem filter_touches_withPercent (f : Rollout → Int) (rows : List Rollout)
    (tenant current : Uuid) :
    (withPercent f rows).filter (Rollout.touches tenant current) =
      withPercent f (rows.filter (Rollout.touches tenant current)) := by
  unfold withPercent
  rw [List.filter_map]
  rfl

theorem openRow_withPercent (f : Rollout → Int) (rows : List Rollout) (tenant current : Uuid) :
    openRow (withPercent f rows) tenant current =
      (openRow rows tenant current).map fun r => { r with percent := f r } := by
  unfold openRow
  rw [filter_touches_withPercent, withPercent, List.find?_map]
  rfl

theorem redirect_withPercent (f : Rollout → Int) (rows : List Rollout) (tenant current : Uuid) :
    redirect (withPercent f rows) tenant current = redirect rows tenant current := by
  unfold redirect
  rw [filter_touches_withPercent, withPercent, List.findSome?_map]
  rfl

theorem stop_withPercent (f : Rollout → Int) (rows : List Rollout) (tenant : Uuid) (hops : Nat)
    (seen : List Uuid) (current : Uuid) :
    (stop (withPercent f rows) tenant hops seen current).2 =
      (stop rows tenant hops seen current).2.map fun r => { r with percent := f r } := by
  induction hops generalizing seen current with
  | zero => rfl
  | succ hops ih =>
    rw [stop, stop, openRow_withPercent, redirect_withPercent]
    cases openRow rows tenant current with
    | some r => rfl
    | none =>
      cases redirect rows tenant current with
      | none => rfl
      | some nxt =>
        show (if nxt ∈ current :: seen then _ else _ : Uuid × Option Rollout).2 =
          Option.map _ (if nxt ∈ current :: seen then _ else _ : Uuid × Option Rollout).2
        split
        · rfl
        · exact ih _ _

theorem decider_withPercent (f : Rollout → Int) (rows : List Rollout) (caller : Caller)
    (id : Uuid) :
    decider (withPercent f rows) caller id =
      (decider rows caller id).map fun r => { r with percent := f r } := by
  unfold decider
  split
  · cases caller.tenant with
    | none => rfl
    | some tenant => exact stop_withPercent f rows tenant MAX_HOPS [] id
  · rfl

theorem mem_of_stop {rows : List Rollout} {tenant : Uuid} {r : Rollout} (hops : Nat)
    (seen : List Uuid) (current : Uuid) (h : (stop rows tenant hops seen current).2 = some r) :
    r ∈ rows := by
  induction hops generalizing seen current with
  | zero => cases h
  | succ hops ih =>
    rw [stop] at h
    cases hopen : openRow rows tenant current with
    | some o =>
      rw [hopen] at h
      obtain rfl := Option.some.inj h
      exact List.mem_of_mem_filter (List.mem_of_find?_eq_some hopen)
    | none =>
      rw [hopen] at h
      cases hredirect : redirect rows tenant current with
      | none =>
        rw [hredirect] at h
        cases h
      | some nxt =>
        rw [hredirect] at h
        by_cases hseen : nxt ∈ current :: seen
        · simp only [if_pos hseen] at h
          cases h
        · simp only [if_neg hseen] at h
          exact ih _ _ h

theorem mem_of_decider {rows : List Rollout} {caller : Caller} {id : Uuid} {r : Rollout}
    (h : decider rows caller id = some r) : r ∈ rows := by
  unfold decider at h
  split at h
  · obtain ⟨tenant, -, hstop⟩ := Option.bind_eq_some_iff.mp h
    exact mem_of_stop MAX_HOPS [] id hstop
  · cases h

/-! ## the arm by the bucket -/

theorem target_congr {a b : Option String} (h : norm P a = norm P b)
    (targeting : Option Targeting) (data : Option Dict) :
    target P targeting a data = target P targeting b data := by
  unfold target
  rw [h]

def Drawn (r : Rollout) (subject : Option String) (data : Option Dict) : Prop :=
  r.state = .rolling ∧ target P r.targeting subject data = none

theorem armOf_of_drawn (r : Rollout) (asked : Asked) (h : Drawn P r asked.subject asked.data) :
    armOf P asked r = .candidate ↔ (bucket P r.id asked.identity : Int) < r.percent := by
  have hforced : forced P asked r = none := by
    unfold forced
    rw [if_pos (Or.inr h.1), h.2]
  unfold armOf
  rw [hforced]
  simp [h.1]

theorem armOf_of_not_drawn (r : Rollout) (asked other : Asked)
    (h : ¬ Drawn P r asked.subject asked.data) (hdata : asked.data = other.data)
    (hnorm : norm P asked.subject = norm P other.subject) (percent : Int) :
    armOf P asked r = armOf P other { r with percent := percent } := by
  have htarget : target P r.targeting asked.subject asked.data =
      target P r.targeting other.subject other.data := by
    rw [hdata]
    exact target_congr P hnorm _ _
  unfold armOf forced
  rw [← htarget]
  by_cases hroll : r.state = .rolling
  · cases ht : target P r.targeting asked.subject asked.data with
    | none => exact absurd ⟨hroll, ht⟩ h
    | some arm => simp [hroll]
  · simp only [hroll, false_and, if_false, or_false]

/-! ## two calls -/

/-- The arm of two customers is one at every two calls, and the candidate stays the candidate when
percentages are raised. -/
structure Sticky (rows : List Rollout) (caller : Caller) (id : Uuid) (data : Option Dict)
    (a b : Option String) : Prop where
  same : ∀ drawn drawn' : String,
    (resolve P rows caller ⟨a, data, drawn⟩ id).arm =
      (resolve P rows caller ⟨b, data, drawn'⟩ id).arm
  raised : ∀ f : Rollout → Int, (∀ r ∈ rows, r.percent ≤ f r) → ∀ drawn drawn' : String,
    (resolve P rows caller ⟨a, data, drawn⟩ id).arm = some .candidate →
      (resolve P (withPercent f rows) caller ⟨a, data, drawn'⟩ id).arm = some .candidate

/-- the buckets of two customers are on one side of the percentage -/
def OneSide (r : Rollout) (data : Option Dict) (a b : Option String) : Prop :=
  ∀ drawn drawn' : String,
    (bucket P r.id (Asked.identity ⟨a, data, drawn⟩) : Int) < r.percent ↔
      (bucket P r.id (Asked.identity ⟨b, data, drawn'⟩) : Int) < r.percent

theorem armOf_congr_of_oneSide {r : Rollout} {data : Option Dict} {a b : Option String}
    (hnorm : norm P a = norm P b) (h : Drawn P r a data → OneSide P r data a b)
    (drawn drawn' : String) : armOf P ⟨a, data, drawn⟩ r = armOf P ⟨b, data, drawn'⟩ r := by
  by_cases hd : Drawn P r a data
  · have hd' : Drawn P r b data := ⟨hd.1, (target_congr P hnorm _ _) ▸ hd.2⟩
    have hiff : armOf P ⟨a, data, drawn⟩ r = .candidate ↔
        armOf P ⟨b, data, drawn'⟩ r = .candidate := by
      rw [armOf_of_drawn P r ⟨a, data, drawn⟩ hd, armOf_of_drawn P r ⟨b, data, drawn'⟩ hd']
      exact h hd drawn drawn'
    cases ha : armOf P ⟨a, data, drawn⟩ r with
    | candidate => exact (hiff.mp ha).symm
    | baseline =>
      cases hb : armOf P ⟨b, data, drawn'⟩ r with
      | candidate => exact ha.symm.trans (hiff.mpr hb)
      | baseline => rfl
  · exact armOf_of_not_drawn P r ⟨a, data, drawn⟩ ⟨b, data, drawn'⟩ hd rfl hnorm r.percent

theorem armOf_raised {r : Rollout} {data : Option Dict} {a b : Option String}
    (h : Drawn P r a data → OneSide P r data a b) {percent : Int}
    (hle : r.percent ≤ percent) {drawn drawn' : String}
    (hcandidate : armOf P ⟨a, data, drawn⟩ r = .candidate) :
    armOf P ⟨a, data, drawn'⟩ { r with percent := percent } = .candidate := by
  by_cases hd : Drawn P r a data
  · have hlow : (bucket P r.id (Asked.identity ⟨a, data, drawn'⟩) : Int) < r.percent := by
      have hfirst := (armOf_of_drawn P r ⟨a, data, drawn⟩ hd).mp hcandidate
      exact (h hd drawn' "").mpr ((h hd drawn "").mp hfirst)
    exact (armOf_of_drawn P { r with percent := percent } ⟨a, data, drawn'⟩ hd).mpr
      (lt_of_lt_of_le hlow hle)
  · exact (armOf_of_not_drawn P r ⟨a, data, drawn⟩ ⟨a, data, drawn'⟩ hd rfl rfl percent).symm.trans
      hcandidate

/-- Two customers who agree by `norm` are on one arm at every two calls, and stay on the candidate
when percentages are raised, exactly if no open rollout decides about them, or it forces their arm,
or does not roll, or their buckets are on one side of its percentage. -/
theorem sticky_iff (rows : List Rollout) (caller : Caller) (id : Uuid) (data : Option Dict)
    {a b : Option String} (hnorm : norm P a = norm P b) :
    Sticky P rows caller id data a b ↔
      ∀ r, decider rows caller id = some r → Drawn P r a data → OneSide P r data a b := by
  constructor
  · intro h r hr hd drawn drawn'
    have harm := h.same drawn drawn'
    rw [resolve_arm, resolve_arm, hr] at harm
    have hd' : Drawn P r b data := ⟨hd.1, (target_congr P hnorm _ _) ▸ hd.2⟩
    rw [← armOf_of_drawn P r ⟨a, data, drawn⟩ hd, ← armOf_of_drawn P r ⟨b, data, drawn'⟩ hd',
      Option.some.inj harm]
  · intro h
    refine ⟨fun drawn drawn' => ?_, fun f hf drawn drawn' hcandidate => ?_⟩
    · rw [resolve_arm, resolve_arm]
      cases hr : decider rows caller id with
      | none => rfl
      | some r => exact congrArg some (armOf_congr_of_oneSide P hnorm (h r hr) drawn drawn')
    · rw [resolve_arm] at hcandidate
      rw [resolve_arm, decider_withPercent]
      cases hr : decider rows caller id with
      | none =>
        rw [hr] at hcandidate
        cases hcandidate
      | some r =>
        rw [hr] at hcandidate
        have hle := hf r (mem_of_decider hr)
        exact congrArg some
          (armOf_raised P (h r hr) hle (Option.some.inj hcandidate))

/-! ## one customer, written twice -/

/-- two digests, and the case folding of ASCII letters -/
def inbox : Platform where
  runtime := { Runtime.silent with
    sha256 := fun text =>
      if text = "00000000-0000-0000-0000-00000000000a:eve@example.test" then
        "b14298b7b5aad2d17a9b1ffc0b835abbed90b5fe63836e0916048cbee484eaf2"
      else "b290dfa89d074eb416676ebcb12a1e1bbacb888120ca372b1ebd1409e934d97c" }
  casefold := fun text => String.ofList (text.toList.map Char.toLower)
  caseType := fun id => if id = 1 ∨ id = 2 then some { name := "claim" } else none

/-- a rollout to half of the customers -/
def half : Rollout where
  id := 10
  tenantId := 7
  artifactName := "claim"
  baselineId := 1
  candidateId := 2
  strategy := .percentage
  percent := 50
  state := .rolling

theorem norm_inbox :
    norm inbox (some "eve@example.test") = norm inbox (some "Eve@example.test") := by
  decide +kernel

theorem sticky_iff_untouched :
    Sticky inbox [half] { tenant := some 7 } 3 none (some "eve@example.test")
      (some "Eve@example.test") :=
  (sticky_iff inbox [half] { tenant := some 7 } 3 none norm_inbox).mpr
    fun _ h => nomatch h

/-- The customer who is asked for in capitals gets the baseline, and else the candidate. -/
theorem not_sticky :
    ¬ ∀ (P : Platform) (rows : List Rollout) (caller : Caller) (id : Uuid) (data : Option Dict)
      (a b : Option String), norm P a = norm P b → Sticky P rows caller id data a b := by
  intro h
  have hsame := (h inbox [half] { tenant := some 7 } 1 none (some "eve@example.test")
    (some "Eve@example.test") norm_inbox).same "" ""
  have harms : (resolve inbox [half] { tenant := some 7 } ⟨some "eve@example.test", none, ""⟩ 1).arm
      ≠ (resolve inbox [half] { tenant := some 7 } ⟨some "Eve@example.test", none, ""⟩ 1).arm := by
    decide +kernel
  exact harms hsame

end Rollouts
