import Velaris.Base.Run
import Velaris.Base.Totals
import Mathlib.Data.List.Sort
import Mathlib.Data.List.Nodup
import Mathlib.Data.List.Induction

/-!
# HxArbiter: versions of a policy, and which of them was in force

`case_service/hxarbiter/store.py`: `add_version`, `activate_version`, `retire_policy` on one policy,
and `version_active_at`, which answers from the two time stamps of each version's row.

* `activeAt`   the version the policy pointed at, at a moment of a history of calls;
* `Tracks`   the rows answer for every moment as the history does;
* `step_tracks`   one call keeps that, when it activates only what was never active;
* `versionActiveAt_iff`   the histories whose audit question is answered right throughout.
-/

namespace HxArbiter
namespace Store
open Base

/-! ## rows -/

inductive PolicyStatus where
  | draft
  | active
  | retired
  deriving DecidableEq

structure VersionRow where
  version : Nat
  activatedAt : Option Int := none
  deactivatedAt : Option Int := none

structure PolicyRow where
  activeVersion : Option Nat := none
  status : PolicyStatus := .draft
  retiredAt : Option Int := none
  versions : List VersionRow := []

/-! ## calls -/

inductive Op where
  /-- `compiles`: the compiler's report on the version's rules is ok -/
  | addVersion (compiles : Bool)
  | activateVersion (version : Nat)
  | retirePolicy
  deriving DecidableEq

structure Call where
  now : Int
  op : Op
  deriving DecidableEq

/-- `coalesce(max(version), 0) + 1` -/
def nextVersion (p : PolicyRow) : Nat := (p.versions.map (·.version)).foldl max 0 + 1

def addVersion (p : PolicyRow) (compiles : Bool) : PolicyRow :=
  if compiles then { p with versions := p.versions ++ [{ version := nextVersion p }] } else p

/-- the open row of the version the policy points at is closed -/
def closeRow (activeVersion : Option Nat) (now : Int) (r : VersionRow) : VersionRow :=
  if activeVersion = some r.version ∧ r.deactivatedAt = none then
    { r with deactivatedAt := some now }
  else r

/-- `.values(activated_at=now, deactivated_at=None)` on the row of the version -/
def openRow (version : Nat) (now : Int) (r : VersionRow) : VersionRow :=
  if r.version = version then { r with activatedAt := some now, deactivatedAt := none } else r

def activateVersion (p : PolicyRow) (version : Nat) (now : Int) : PolicyRow :=
  let closed :=
    if p.activeVersion ≠ none ∧ p.activeVersion ≠ some version then
      p.versions.map (closeRow p.activeVersion now)
    else p.versions
  { p with
    versions := closed.map (openRow version now)
    activeVersion := some version
    status := .active }

def retirePolicy (p : PolicyRow) (now : Int) : PolicyRow :=
  { p with
    versions :=
      if p.activeVersion ≠ none then p.versions.map (closeRow p.activeVersion now) else p.versions
    status := .retired
    retiredAt := some now }

def step (p : PolicyRow) (c : Call) : PolicyRow :=
  match c.op with
  | .addVersion compiles => addVersion p compiles
  | .activateVersion version => activateVersion p version c.now
  | .retirePolicy => retirePolicy p c.now

/-! ## the audit question -/

def VersionRow.activeAt (moment : Int) (r : VersionRow) : Bool :=
  (match r.activatedAt with
    | none => false
    | some a => a ≤ moment) &&
  match r.deactivatedAt with
  | none => true
  | some d => moment < d

def versionActiveAt (p : PolicyRow) (moment : Int) : Option VersionRow :=
  ((p.versions.filter (·.activeAt moment)).insertionSort
    fun r s => s.activatedAt.getD 0 ≤ r.activatedAt.getD 0).head?

def current (p : PolicyRow) : Option Nat := if p.status = .active then p.activeVersion else none

def after (calls : List Call) : PolicyRow := exec step {} calls

def activeAt (calls : List Call) (moment : Int) : Option Nat :=
  current (after (upTo Call.now moment calls))

theorem after_concat (calls : List Call) (c : Call) :
    after (calls ++ [c]) = step (after calls) c := exec_concat step {} calls c

/-! ## what a call does to the rows -/

/-- the rows of `p` after a call that rewrites them, one by one -/
def rewrite (p : PolicyRow) (c : Call) (r : VersionRow) : VersionRow :=
  match c.op with
  | .addVersion _ => r
  | .activateVersion version =>
    openRow version c.now (if p.activeVersion = some version then r
      else closeRow p.activeVersion c.now r)
  | .retirePolicy => closeRow p.activeVersion c.now r

theorem closeRow_none (now : Int) : closeRow none now = id := by
  funext r
  rfl

theorem step_versions (p : PolicyRow) (c : Call) :
    (step p c).versions = p.versions.map (rewrite p c) ++
      (if c.op = .addVersion true then [{ version := nextVersion p }] else []) := by
  obtain ⟨now, op⟩ := c
  cases op with
  | addVersion compiles =>
    have hid : rewrite p ⟨now, .addVersion compiles⟩ = id := rfl
    rw [hid, List.map_id]
    cases compiles <;> simp [step, addVersion]
  | activateVersion version =>
    show (activateVersion p version now).versions = _
    rw [if_neg (by simp), List.append_nil, activateVersion]
    by_cases hv : p.activeVersion = some version
    · simp [hv, rewrite]
    · by_cases hn : p.activeVersion = none
      · simp [hn, rewrite, closeRow_none]
      · simp [hv, hn, rewrite]
  | retirePolicy =>
    show (retirePolicy p now).versions = _
    rw [if_neg (by simp), List.append_nil, retirePolicy]
    by_cases hn : p.activeVersion = none
    · have hid : rewrite p ⟨now, .retirePolicy⟩ = id := by
        show closeRow p.activeVersion now = id
        rw [hn, closeRow_none]
      rw [hid, List.map_id]
      simp [hn]
    · simp only [ne_eq, hn, not_false_eq_true, if_true]
      rfl

@[simp] theorem closeRow_version (a : Option Nat) (now : Int) (r : VersionRow) :
    (closeRow a now r).version = r.version := by
  unfold closeRow
  split <;> rfl

@[simp] theorem openRow_version (v : Nat) (now : Int) (r : VersionRow) :
    (openRow v now r).version = r.version := by
  unfold openRow
  split <;> rfl

@[simp] theorem rewrite_version (p : PolicyRow) (c : Call) (r : VersionRow) :
    (rewrite p c r).version = r.version := by
  unfold rewrite
  split
  · rfl
  · rw [openRow_version]
    split <;> simp
  · simp

theorem closeRow_activatedAt (a : Option Nat) (now : Int) (r : VersionRow) :
    (closeRow a now r).activatedAt = r.activatedAt := by
  unfold closeRow
  split <;> rfl

theorem rewrite_activatedAt (p : PolicyRow) (c : Call) (r : VersionRow) :
    (rewrite p c r).activatedAt =
      if c.op = .activateVersion r.version then some c.now else r.activatedAt := by
  obtain ⟨now, op⟩ := c
  cases op with
  | addVersion compiles => rfl
  | retirePolicy => exact closeRow_activatedAt _ _ r
  | activateVersion version =>
    show (openRow version now _).activatedAt = _
    unfold openRow
    by_cases hv : version = r.version
    · subst hv
      split_ifs <;> simp_all
    · have hv' : ¬ r.version = version := fun h => hv h.symm
      split_ifs <;> simp_all [closeRow_activatedAt]

/-- the calls that close the open row of the version the policy points at -/
def Op.closes : Op → Bool
  | .addVersion _ => false
  | .activateVersion _ | .retirePolicy => true

/-- the deactivation stamp is cleared by an activation of the row's version, set by a call that
closes it while the policy points at it, and kept otherwise -/
theorem rewrite_deactivatedAt (p : PolicyRow) (c : Call) (r : VersionRow) :
    (rewrite p c r).deactivatedAt =
      if c.op = .activateVersion r.version then none
      else if c.op.closes ∧ p.activeVersion = some r.version ∧ r.deactivatedAt = none then
        some c.now
      else r.deactivatedAt := by
  obtain ⟨now, op⟩ := c
  cases op with
  | addVersion compiles => rfl
  | retirePolicy =>
    show (closeRow p.activeVersion now r).deactivatedAt = _
    unfold closeRow
    split_ifs <;> simp_all [Op.closes]
  | activateVersion version =>
    show (openRow version now _).deactivatedAt = _
    unfold openRow
    by_cases hv : version = r.version
    · subst hv
      split_ifs <;> simp_all
    · have hv' : ¬ r.version = version := fun h => hv h.symm
      unfold closeRow
      split_ifs <;> simp_all [Op.closes]

theorem mem_step_versions {p : PolicyRow} {c : Call} {r : VersionRow}
    (h : r ∈ (step p c).versions) :
    (∃ r₀ ∈ p.versions, rewrite p c r₀ = r) ∨ r = { version := nextVersion p } := by
  rw [step_versions, List.mem_append] at h
  rcases h with h | h
  · exact Or.inl (List.mem_map.mp h)
  · split at h
    · exact Or.inr (List.mem_singleton.mp h)
    · cases h

/-! ## the stamps of any history -/

theorem version_lt_nextVersion (p : PolicyRow) {v : Nat} (h : v ∈ p.versions.map (·.version)) :
    v < nextVersion p :=
  Base.lt_fresh h

theorem versions_nodup (calls : List Call) : ((after calls).versions.map (·.version)).Nodup := by
  induction calls using List.reverseRecOn with
  | nil => exact List.nodup_nil
  | append_singleton calls c ih =>
    rw [after_concat, step_versions, List.map_append, List.map_map]
    have hmap : (fun r : VersionRow => r.version) ∘ rewrite (after calls) c = (·.version) := by
      funext r
      exact rewrite_version _ _ r
    rw [hmap]
    split
    · refine List.Nodup.append ih (List.nodup_singleton _) ?_
      intro v hv hv'
      rw [List.map_singleton, List.mem_singleton] at hv'
      have hlt := version_lt_nextVersion _ hv
      rw [hv'] at hlt
      exact Nat.lt_irrefl _ hlt
    · simpa using ih

theorem activatedAt_call {calls : List Call} {r : VersionRow} {a : Int}
    (hr : r ∈ (after calls).versions) (ha : r.activatedAt = some a) :
    (⟨a, .activateVersion r.version⟩ : Call) ∈ calls := by
  induction calls using List.reverseRecOn generalizing r with
  | nil => cases hr
  | append_singleton calls c ih =>
    rw [after_concat] at hr
    rcases mem_step_versions hr with ⟨r₀, hr₀, rfl⟩ | rfl
    · rw [rewrite_activatedAt] at ha
      rw [rewrite_version]
      split at ha
      · rename_i hop
        obtain ⟨now, op⟩ := c
        cases ha
        obtain rfl := hop
        exact List.mem_append_right _ (List.mem_singleton_self _)
      · exact List.mem_append_left _ (ih hr₀ ha)
    · cases ha

theorem deactivatedAt_call {calls : List Call} {r : VersionRow} {d : Int}
    (hr : r ∈ (after calls).versions) (hd : r.deactivatedAt = some d) :
    ∃ c ∈ calls, c.now = d := by
  induction calls using List.reverseRecOn generalizing r with
  | nil => cases hr
  | append_singleton calls c ih =>
    rw [after_concat] at hr
    rcases mem_step_versions hr with ⟨r₀, hr₀, rfl⟩ | rfl
    · rw [rewrite_deactivatedAt] at hd
      split_ifs at hd with h1 h2
      · exact ⟨c, List.mem_append_right _ (List.mem_singleton_self _), Option.some.inj hd⟩
      · obtain ⟨c', hc', e⟩ := ih hr₀ hd
        exact ⟨c', List.mem_append_left _ hc', e⟩
    · cases hd

/-! ## the versions in force by the rows -/

def inForce (p : PolicyRow) (moment : Int) : List Nat :=
  (p.versions.filter (·.activeAt moment)).map (·.version)

theorem activeAt_iff {r : VersionRow} {t : Int} :
    r.activeAt t = true ↔
      (∃ a, r.activatedAt = some a ∧ a ≤ t) ∧ ∀ d, r.deactivatedAt = some d → t < d := by
  unfold VersionRow.activeAt
  cases r.activatedAt <;> cases r.deactivatedAt <;> simp

theorem mem_inForce {p : PolicyRow} {t : Int} {v : Nat} :
    v ∈ inForce p t ↔ ∃ r ∈ p.versions, r.activeAt t = true ∧ r.version = v := by
  simp only [inForce, List.mem_map, List.mem_filter, and_assoc]

theorem versionActiveAt_mem {p : PolicyRow} {t : Int} {r : VersionRow}
    (h : versionActiveAt p t = some r) : r ∈ p.versions ∧ r.activeAt t = true := by
  have hmem := (List.perm_insertionSort _ _).mem_iff.mp (List.mem_of_mem_head? h)
  exact List.mem_filter.mp hmem

theorem versionActiveAt_of_inForce {p : PolicyRow} {t : Int} {o : Option Nat}
    (h : inForce p t = o.toList) : (versionActiveAt p t).map (·.version) = o := by
  unfold versionActiveAt
  unfold inForce at h
  cases o with
  | none =>
    rw [Option.toList_none, List.map_eq_nil_iff] at h
    rw [h]
    rfl
  | some v =>
    rw [Option.toList_some, List.map_eq_singleton_iff] at h
    obtain ⟨r, hr, rfl⟩ := h
    rw [hr]
    rfl

/-! ## histories whose rows keep up -/

/-- the rows in force at every moment are the version the history ran then -/
def Tracks (calls : List Call) : Prop :=
  ∀ t, inForce (after calls) t = (activeAt calls t).toList

/-- an activation names a stored version that was never activated -/
def FirstActivation (p : PolicyRow) (c : Call) : Prop :=
  ∀ v, c.op = .activateVersion v →
    (∃ r ∈ p.versions, r.version = v) ∧ ∀ r ∈ p.versions, r.version = v → r.activatedAt = none

theorem inForce_step (p : PolicyRow) (c : Call) (t : Int) :
    inForce (step p c) t =
      ((p.versions.filter fun r => (rewrite p c r).activeAt t).map (·.version)) := by
  have hnew : (if c.op = .addVersion true then [{ version := nextVersion p }] else []).filter
      (VersionRow.activeAt t) = [] := by
    split <;> rfl
  unfold inForce
  rw [step_versions, List.filter_append, hnew, List.append_nil, List.filter_map, List.map_map]
  congr 1
  funext r
  exact rewrite_version p c r

section
variable {calls : List Call} {c : Call}

theorem rewrite_activeAt_of_lt (hc : FirstActivation (after calls) c) {t : Int} (ht : t < c.now)
    {r : VersionRow} (hr : r ∈ (after calls).versions) :
    (rewrite (after calls) c r).activeAt t = r.activeAt t := by
  rw [Bool.eq_iff_iff, activeAt_iff, activeAt_iff, rewrite_activatedAt, rewrite_deactivatedAt]
  split_ifs with hop hclose
  · rw [(hc _ hop).2 r hr rfl]
    constructor
    · intro h
      obtain ⟨⟨a, ha, hat⟩, -⟩ := h
      cases ha
      omega
    · intro h
      obtain ⟨⟨a, ha, -⟩, -⟩ := h
      cases ha
  · rw [hclose.2.2]
    refine and_congr_right fun _ => ⟨?_, ?_⟩
    · intro _ d hd
      cases hd
    · intro _ d hd
      cases hd
      exact ht
  · exact Iff.rfl

theorem inForce_step_of_lt (hc : FirstActivation (after calls) c) {t : Int} (ht : t < c.now) :
    inForce (after (calls ++ [c])) t = inForce (after calls) t := by
  rw [after_concat, inForce_step]
  unfold inForce
  rw [List.filter_congr fun r hr => rewrite_activeAt_of_lt hc ht hr]

theorem activeAt_iff_current (htr : Tracks calls) {t : Int} (ht : ∀ b ∈ calls, b.now ≤ t)
    {r : VersionRow} (hr : r ∈ (after calls).versions) :
    r.activeAt t = true ↔ current (after calls) = some r.version := by
  have hmem : r.version ∈ inForce (after calls) t ↔ current (after calls) = some r.version := by
    rw [htr t, activeAt, upTo_of_le ht]
    simp
  rw [← hmem, mem_inForce]
  constructor
  · exact fun h => ⟨r, hr, h, rfl⟩
  · intro hx
    obtain ⟨r', hr', h, hv⟩ := hx
    rw [← List.inj_on_of_nodup_map (versions_nodup calls) hr' hr hv]
    exact h

theorem activeVersion_of_current {p : PolicyRow} {v : Nat} (h : current p = some v) :
    p.activeVersion = some v := by
  unfold current at h
  split at h
  · exact h
  · cases h

variable (hinc : Increasing Call.now (calls ++ [c])) (htr : Tracks calls)
include hinc htr

/-- from the call on, the row in force is that of the version just activated, or of the version the
policy ran where the call closes nothing -/
theorem rewrite_activeAt_of_le {t : Int} (ht : c.now ≤ t) {r : VersionRow}
    (hr : r ∈ (after calls).versions) :
    (rewrite (after calls) c r).activeAt t = true ↔
      c.op = .activateVersion r.version ∨
        (c.op.closes = false ∧ current (after calls) = some r.version) := by
  have hlast : ∀ b ∈ calls, b.now < c.now := (increasing_concat.mp hinc).2
  have hbefore := activeAt_iff_current htr
    (fun b hb => le_trans (le_of_lt (hlast b hb)) ht) hr
  rw [activeAt_iff, rewrite_activatedAt, rewrite_deactivatedAt]
  split_ifs with hop hclose
  · refine iff_of_true ⟨⟨c.now, rfl, ht⟩, ?_⟩ (Or.inl hop)
    intro d hd
    cases hd
  · refine iff_of_false ?_ ?_
    · intro hx
      obtain ⟨-, h⟩ := hx
      have hlt := h _ rfl
      omega
    · intro hx
      rcases hx with h | ⟨h, -⟩
      · exact hop h
      · rw [h] at hclose
        cases hclose.1
  · rw [← activeAt_iff, hbefore]
    constructor
    · intro hcur
      refine Or.inr ⟨?_, hcur⟩
      by_contra hcl
      refine hclose ⟨Bool.not_eq_false _ ▸ hcl, activeVersion_of_current hcur, ?_⟩
      cases hd : r.deactivatedAt with
      | none => rfl
      | some d =>
        obtain ⟨b, hb, rfl⟩ := deactivatedAt_call hr hd
        have h1 := (activeAt_iff.mp (hbefore.mpr hcur)).2 _ hd
        have h2 := hlast b hb
        omega
    · intro hx
      rcases hx with h | ⟨-, h⟩
      · exact absurd h hop
      · exact h

theorem inForce_step_of_le (hc : FirstActivation (after calls) c) {t : Int} (ht : c.now ≤ t) :
    inForce (after (calls ++ [c])) t = (current (after (calls ++ [c]))).toList := by
  have hrow := fun {r} hr => @rewrite_activeAt_of_le calls c hinc htr t ht r hr
  rw [after_concat, inForce_step]
  obtain ⟨now, op⟩ := c
  cases op with
  | addVersion compiles =>
    have hcur :
        current (step (after calls) ⟨now, .addVersion compiles⟩) = current (after calls) := by
      cases compiles <;> rfl
    have hbs : ∀ b ∈ calls, b.now ≤ t :=
      fun b hb => le_trans (le_of_lt ((increasing_concat.mp hinc).2 b hb)) ht
    have hold := htr t
    rw [activeAt, upTo_of_le hbs] at hold
    rw [hcur, ← hold]
    rfl
  | activateVersion v =>
    obtain ⟨⟨r, hr, rfl⟩, -⟩ := hc v rfl
    have hiff : ∀ s ∈ (after calls).versions,
        (rewrite (after calls) ⟨now, .activateVersion r.version⟩ s).activeAt t =
          decide (s.version = r.version) := by
      intro s hs
      rw [Bool.eq_iff_iff, hrow hs]
      simp [Op.closes, eq_comm]
    rw [List.filter_congr hiff]
    have hcomp : (after calls).versions.filter (fun s => decide (s.version = r.version)) =
        (after calls).versions.filter ((fun v => decide (v = r.version)) ∘ (·.version)) := rfl
    rw [hcomp, ← List.filter_map]
    show _ = [r.version]
    rw [List.filter_eq, List.count_eq_one_of_mem (versions_nodup calls) (List.mem_map_of_mem hr)]
    rfl
  | retirePolicy =>
    have hnone : ∀ s ∈ (after calls).versions,
        ¬ (rewrite (after calls) ⟨now, .retirePolicy⟩ s).activeAt t = true := by
      intro s hs
      rw [hrow hs]
      simp [Op.closes]
    rw [List.filter_eq_nil_iff.mpr hnone]
    rfl

/-- **One call keeps the rows in step with the history**, if it activates only what was never
active. -/
theorem step_tracks (hc : FirstActivation (after calls) c) : Tracks (calls ++ [c]) := by
  intro t
  by_cases ht : c.now ≤ t
  · rw [inForce_step_of_le hinc htr hc ht, activeAt, upTo_concat_of_le hinc ht]
  · have hlt : t < c.now := by omega
    rw [inForce_step_of_lt hc hlt, htr t, activeAt, activeAt, upTo_append_of_lt]
    intro b hb
    rw [List.mem_singleton.mp hb]
    exact hlt

end

theorem tracks_of_along {calls : List Call} (hinc : Increasing Call.now calls)
    (h : Along step FirstActivation {} calls) : Tracks calls := by
  induction calls using List.reverseRecOn with
  | nil =>
    intro t
    rfl
  | append_singleton calls c ih =>
    obtain ⟨hcalls, hc⟩ := (along_concat step FirstActivation {} calls c).mp h
    exact step_tracks hinc (ih (increasing_concat.mp hinc).1 hcalls) hc

/-! ## histories whose rows lose a moment -/

theorem activated_later {p : PolicyRow} {calls : List Call} {v : Nat} {t : Int}
    (hp : ∀ r ∈ p.versions, r.version = v → ∀ a, r.activatedAt = some a → t < a)
    (hcalls : ∀ c ∈ calls, t < c.now) :
    ∀ r ∈ (exec step p calls).versions, r.version = v → ∀ a, r.activatedAt = some a → t < a := by
  induction calls generalizing p with
  | nil => exact hp
  | cons c calls ih =>
    refine ih ?_ fun b hb => hcalls b (List.mem_cons_of_mem _ hb)
    intro r hr hv a ha
    rcases mem_step_versions hr with ⟨r₀, hr₀, rfl⟩ | rfl
    · rw [rewrite_activatedAt] at ha
      split at ha
      · cases ha
        exact hcalls c List.mem_cons_self
      · exact hp r₀ hr₀ ((rewrite_version p c r₀).symm.trans hv) a ha
    · cases ha

theorem versionActiveAt_ne {p : PolicyRow} {v : Nat} {t : Int}
    (hp : ∀ r ∈ p.versions, r.version = v → ∀ a, r.activatedAt = some a → t < a) :
    (versionActiveAt p t).map (·.version) ≠ some v := by
  intro h
  obtain ⟨r, hr, hv⟩ := Option.map_eq_some_iff.mp h
  obtain ⟨hmem, hact⟩ := versionActiveAt_mem hr
  obtain ⟨⟨a, ha, hat⟩, -⟩ := activeAt_iff.mp hact
  have hlt := hp r hmem hv a ha
  omega

theorem activeAt_of_activation {bs cs : List Call} {t : Int} {v : Nat}
    (hinc : Increasing Call.now (bs ++ ⟨t, .activateVersion v⟩ :: cs)) :
    activeAt (bs ++ ⟨t, .activateVersion v⟩ :: cs) t = some v := by
  have hsplit : bs ++ (⟨t, .activateVersion v⟩ : Call) :: cs =
      (bs ++ [⟨t, .activateVersion v⟩]) ++ cs := by simp
  rw [hsplit] at hinc ⊢
  obtain ⟨hbs, -, hcs⟩ := List.pairwise_append.mp hinc
  rw [activeAt, upTo_append_of_lt fun b hb => hcs _ (List.mem_append_right _
    (List.mem_singleton_self _)) b hb, upTo_concat_of_le hbs le_rfl, after_concat]
  rfl

theorem lost_moment {bs cs : List Call} {c : Call} (hinc : Increasing Call.now (bs ++ c :: cs))
    (hc : ¬ FirstActivation (after bs) c) :
    ∃ t v, (∃ b ∈ bs ++ c :: cs, t ≤ b.now) ∧ activeAt (bs ++ c :: cs) t = some v ∧
      (versionActiveAt (after (bs ++ c :: cs)) t).map (·.version) ≠ some v := by
  obtain ⟨now, op⟩ := c
  unfold FirstActivation at hc
  simp only [not_forall] at hc
  obtain ⟨v, rfl, hv⟩ := hc
  have hcs : ∀ b ∈ cs, now < b.now := by
    obtain ⟨-, h, -⟩ := List.pairwise_append.mp hinc
    exact (List.pairwise_cons.mp h).1
  have hrows : ∀ r ∈ (step (after bs) ⟨now, .activateVersion v⟩).versions, r.version = v →
      r.activatedAt = some now ∧ ∃ r₀ ∈ (after bs).versions, r₀.version = v := by
    intro r hr hrv
    rw [step_versions, if_neg (by simp), List.append_nil] at hr
    obtain ⟨r₀, hr₀, rfl⟩ := List.mem_map.mp hr
    rw [rewrite_version] at hrv
    rw [rewrite_activatedAt, if_pos (by rw [hrv])]
    exact ⟨rfl, r₀, hr₀, hrv⟩
  have hafter : after (bs ++ ⟨now, .activateVersion v⟩ :: cs) =
      exec step (step (after bs) ⟨now, .activateVersion v⟩) cs := exec_append step {} bs _
  by_cases hex : ∃ r ∈ (after bs).versions, r.version = v
  · -- the version ran before: its first activation is lost
    have hold : ∃ r ∈ (after bs).versions, r.version = v ∧ ∃ a, r.activatedAt = some a := by
      by_contra hno
      refine hv ⟨hex, fun r hr hrv => ?_⟩
      cases ha : r.activatedAt with
      | none => rfl
      | some a => exact absurd ⟨r, hr, hrv, a, ha⟩ hno
    obtain ⟨r, hr, rfl, a, ha⟩ := hold
    obtain ⟨b₁, b₂, rfl⟩ := List.append_of_mem (activatedAt_call hr ha)
    have hinc' := hinc
    rw [List.append_assoc, List.cons_append] at hinc'
    have hlt : a < now := by
      obtain ⟨-, h, -⟩ := List.pairwise_append.mp hinc'
      exact (List.pairwise_cons.mp h).1 _ (List.mem_append_right _ List.mem_cons_self)
    refine ⟨a, r.version, ⟨_, List.mem_append_right _ List.mem_cons_self, le_of_lt hlt⟩, ?_, ?_⟩
    · rw [List.append_assoc, List.cons_append]
      exact activeAt_of_activation hinc'
    · rw [hafter]
      refine versionActiveAt_ne (activated_later ?_ fun b hb => lt_trans hlt (hcs b hb))
      intro s hs hsv x hx
      rw [(hrows s hs hsv).1] at hx
      cases hx
      exact hlt
  · -- the version is not stored: the policy points at nothing
    refine ⟨now, v, ⟨_, List.mem_append_right _ List.mem_cons_self, le_rfl⟩,
      activeAt_of_activation hinc, ?_⟩
    rw [hafter]
    refine versionActiveAt_ne (activated_later ?_ hcs)
    intro s hs hsv
    exact absurd (hrows s hs hsv).2 hex

/-! ## the audit question, answered -/

/-- **When `version_active_at` answers right.**  After calls at increasing times it gives, for every
moment not later than the last call, the version the policy ran then, exactly if no call activates
a version that was active before (or is not stored). -/
theorem versionActiveAt_iff (calls : List Call) (hinc : Increasing Call.now calls) :
    (∀ t, (∃ c ∈ calls, t ≤ c.now) →
      (versionActiveAt (after calls) t).map (·.version) = activeAt calls t) ↔
      Along step FirstActivation {} calls := by
  constructor
  · intro h
    by_contra hno
    obtain ⟨bs, c, cs, rfl, -, hc⟩ := exists_first_of_not_along step hno
    obtain ⟨t, v, ht, hact, hne⟩ := lost_moment hinc hc
    rw [h t ht] at hne
    exact hne hact
  · intro h t _
    exact versionActiveAt_of_inForce (tracks_of_along hinc h t)

/-- a version, its activation, and a rollback to it after the next -/
def rollback : List Call :=
  [⟨1, .addVersion true⟩, ⟨2, .addVersion true⟩, ⟨3, .activateVersion 1⟩, ⟨4, .activateVersion 2⟩,
    ⟨5, .activateVersion 1⟩]

/-- after a rollback nobody was active while the first version was first in force -/
theorem rollback_forgets :
    ¬ ∀ calls : List Call, Increasing Call.now calls → ∀ t, (∃ c ∈ calls, t ≤ c.now) →
      (versionActiveAt (after calls) t).map (·.version) = activeAt calls t := by
  intro h
  have h1 := h rollback (by unfold Increasing; decide) 3
    ⟨⟨5, .activateVersion 1⟩, by decide, by decide⟩
  exact absurd h1 (by decide)

/-- without the rollback, and with a retirement, the first version is remembered -/
theorem retirement_remembers :
    (versionActiveAt (after (rollback.take 4 ++ [⟨5, .retirePolicy⟩])) 3).map (·.version) =
      activeAt (rollback.take 4 ++ [⟨5, .retirePolicy⟩]) 3 := by
  have hall := (versionActiveAt_iff (rollback.take 4 ++ [⟨5, .retirePolicy⟩])
    (by unfold Increasing; decide)).mpr ?_
  · exact hall 3 ⟨⟨5, .retirePolicy⟩, by decide, by decide⟩
  · refine ⟨?_, ?_, ?_, ?_, ?_, trivial⟩
    · intro v h
      obtain ⟨⟩ := h
    · intro v h
      obtain ⟨⟩ := h
    · intro v h
      obtain ⟨⟩ := h
      decide
    · intro v h
      obtain ⟨⟩ := h
      decide
    · intro v h
      obtain ⟨⟩ := h

end Store
end HxArbiter
