import Velaris.Base.Redirect
import Velaris.Rollouts.Service

/-!
# The rollouts of one case type

The rollouts of a case type of a tenant, newest first, of which only the newest may be open.

* `family`   they, in the table;
* `current`   the candidate last promoted, else the baseline of the first rollout;
* `Settled`   every version that a closed one names is few redirects from the current version;
* `Promotable`, `Withdrawable`   the rollout can be closed without losing that;
* `settled_of_promoted`, `settled_of_withdrawn`   which is what they are for.
-/

namespace Rollouts
open Py Base

def family (rows : List Rollout) (tenant : Uuid) (name : String) : List Rollout :=
  rows.filter fun r => r.tenantId = tenant && r.artifactName = name

def current (fam : List Rollout) : Option Uuid :=
  ((fam.find? fun r => r.state = .promoted).map (·.candidateId)).or
    (fam.getLast?.map (·.baselineId))

def Rollout.names (r : Rollout) (v : Uuid) : Prop := v = r.baselineId ∨ v = r.candidateId

/-! ## redirects -/

theorem redirect_cons (r : Rollout) (fam : List Rollout) (tenant v : Uuid) :
    redirect (r :: fam) tenant v =
      if r.touches tenant v = true then (r.sends v).or (redirect fam tenant v)
      else redirect fam tenant v := by
  unfold redirect
  rw [List.filter_cons]
  split
  · rw [List.findSome?_cons]
    cases r.sends v <;> rfl
  · rfl

theorem sends_of_isOpen {r : Rollout} (h : r.state.isOpen = true) (v : Uuid) :
    r.sends v = none := by
  have hp : r.state ≠ .promoted := fun hs => by rw [hs] at h; cases h
  have hr : ¬ (r.state = .rolledBack ∨ r.state = .superseded) := by
    rintro (hs | hs) <;> rw [hs] at h <;> cases h
  rw [Rollout.sends, if_neg fun hx => hp hx.1, if_neg fun hx => hr hx.1]

theorem redirect_cons_of_isOpen {r : Rollout} (h : r.state.isOpen = true) (fam : List Rollout)
    (tenant : Uuid) : redirect (r :: fam) tenant = redirect fam tenant := by
  funext v
  rw [redirect_cons, sends_of_isOpen h, Option.none_or, ite_self]

/-- the version that a closed rollout redirects, and where -/
def Rollout.source (r : Rollout) : Uuid :=
  if r.state = .promoted then r.baselineId else r.candidateId

def Rollout.goal (r : Rollout) : Uuid :=
  if r.state = .promoted then r.candidateId else r.baselineId

theorem sends_of_closed {r : Rollout} (h : r.state.isOpen = false) (v : Uuid) :
    r.sends v = if v = r.source then some r.goal else none := by
  unfold Rollout.sends Rollout.source Rollout.goal
  cases hs : r.state with
  | requested | dormant | rolling => rw [hs] at h; exact absurd h Bool.true_eq_false.mp
  | promoted => simp [eq_comm]
  | rolledBack | superseded => simp [eq_comm]

theorem touches_source {r : Rollout} (hk : r.artifactKind = "case_type") :
    r.touches r.tenantId r.source = true := by
  unfold Rollout.touches Rollout.source
  split <;> simp [hk]

theorem redirect_cons_of_closed {r : Rollout} (h : r.state.isOpen = false)
    (hk : r.artifactKind = "case_type") (fam : List Rollout) :
    redirect (r :: fam) r.tenantId =
      Function.update (redirect fam r.tenantId) r.source (some r.goal) := by
  funext v
  rw [redirect_cons, sends_of_closed h]
  by_cases hv : v = r.source
  · rw [if_pos hv, hv, touches_source hk, if_pos rfl, Function.update_self]
    rfl
  · rw [if_neg hv, Option.none_or, ite_self, Function.update_of_ne hv]

/-! ## the current version -/

theorem current_cons_of_not_promoted {r : Rollout} {fam : List Rollout} (hne : fam ≠ [])
    (h : r.state ≠ .promoted) : current (r :: fam) = current fam := by
  unfold current
  rw [List.find?_cons_of_neg (by simpa using h), List.getLast?_cons_of_ne_nil hne]

theorem current_cons_of_promoted {r : Rollout} {fam : List Rollout} (h : r.state = .promoted) :
    current (r :: fam) = some r.candidateId := by
  unfold current
  rw [List.find?_cons_of_pos (by simpa using h)]
  rfl

theorem current_singleton {r : Rollout} (h : r.state ≠ .promoted) :
    current [r] = some r.baselineId := by
  unfold current
  rw [List.find?_cons_of_neg (by simpa using h)]
  rfl

theorem current_isSome {fam : List Rollout} (h : fam ≠ []) : ∃ c, current fam = some c := by
  unfold current
  cases fam.find? fun r => r.state = .promoted with
  | some r => exact ⟨_, rfl⟩
  | none => exact ⟨_, by rw [List.getLast?_eq_some_getLast h]; rfl⟩

/-! ## what is kept -/

/-- the version is at most `MAX_HOPS` redirects from the current one -/
def Near (fam : List Rollout) (tenant c v : Uuid) : Prop :=
  ∃ n ≤ MAX_HOPS, Ends (redirect fam tenant) n v c

/-- every version that a closed rollout names is near the current version -/
def Settled (fam : List Rollout) (tenant : Uuid) : Prop :=
  ∀ c, current fam = some c → redirect fam tenant c = none ∧
    ∀ r ∈ fam, r.state.isOpen = false → ∀ v, r.names v → Near fam tenant c v

/-- the candidate is the current version already, or the current version is the baseline, the
candidate goes nowhere else, and no version is `MAX_HOPS` redirects away -/
def Promotable (fam : List Rollout) (r : Rollout) : Prop :=
  current fam = some r.candidateId ∨
    current fam = some r.baselineId ∧ redirect fam r.tenantId r.candidateId = none ∧
      ∀ x ∈ fam, follow (redirect fam r.tenantId) MAX_HOPS x.baselineId = none ∧
        follow (redirect fam r.tenantId) MAX_HOPS x.candidateId = none

/-- the candidate is not the current version, the way of the baseline ends there without meeting
the candidate, and all the ways through it stay short enough -/
def Withdrawable (fam : List Rollout) (r : Rollout) : Prop :=
  current fam ≠ some r.candidateId ∧
    ∃ k < MAX_HOPS, follow (redirect fam r.tenantId) k r.baselineId = current fam ∧
      (∀ j ≤ k, follow (redirect fam r.tenantId) j r.baselineId ≠ some r.candidateId) ∧
      ∀ x ∈ fam, ∀ j ≤ MAX_HOPS,
        follow (redirect fam r.tenantId) j x.baselineId = some r.candidateId ∨
          follow (redirect fam r.tenantId) j x.candidateId = some r.candidateId →
        j + k < MAX_HOPS

instance (fam : List Rollout) (r : Rollout) : Decidable (Promotable fam r) :=
  inferInstanceAs (Decidable (_ ∨ _ ∧ _ ∧ _))

instance (fam : List Rollout) (r : Rollout) : Decidable (Withdrawable fam r) :=
  inferInstanceAs (Decidable (_ ∧ ∃ k < MAX_HOPS, _ ∧ _ ∧ _))

/-! ## closing a rollout -/

structure Rollout.Later (r r' : Rollout) : Prop where
  id : r'.id = r.id
  tenantId : r'.tenantId = r.tenantId
  artifactKind : r'.artifactKind = r.artifactKind
  artifactName : r'.artifactName = r.artifactName
  baselineId : r'.baselineId = r.baselineId
  candidateId : r'.candidateId = r.candidateId

section
variable {r r' : Rollout} {rest : List Rollout}

theorem not_promoted_of_isOpen (h : r.state.isOpen = true) : r.state ≠ .promoted := by
  intro hs
  rw [hs] at h
  cases h

theorem current_of_withdrawn (hl : r.Later r') (ho : r.state.isOpen = true)
    (hp : r'.state ≠ .promoted) : current (r' :: rest) = current (r :: rest) := by
  cases rest with
  | nil => rw [current_singleton hp, current_singleton (not_promoted_of_isOpen ho), hl.baselineId]
  | cons x rest =>
    rw [current_cons_of_not_promoted (List.cons_ne_nil x rest) hp,
      current_cons_of_not_promoted (List.cons_ne_nil x rest) (not_promoted_of_isOpen ho)]

theorem redirect_of_closed (hl : r.Later r') (ho : r.state.isOpen = true)
    (hc : r'.state.isOpen = false) (hk : r.artifactKind = "case_type") :
    redirect (r' :: rest) r.tenantId =
      Function.update (redirect (r :: rest) r.tenantId) r'.source (some r'.goal) := by
  rw [redirect_cons_of_isOpen ho, ← hl.tenantId]
  exact redirect_cons_of_closed hc (hl.artifactKind.trans hk) rest

theorem settled_of_withdrawn (hl : r.Later r') (ho : r.state.isOpen = true)
    (hc : r'.state.isOpen = false) (hp : r'.state ≠ .promoted)
    (hk : r.artifactKind = "case_type") (h : Settled (r :: rest) r.tenantId)
    (hfit : Withdrawable (r :: rest) r) : Settled (r' :: rest) r.tenantId := by
  intro c hcur
  rw [current_of_withdrawn hl ho hp] at hcur
  obtain ⟨hnone, hnear⟩ := h c hcur
  obtain ⟨hne, k, hk8, hfollow, havoid, hshort⟩ := hfit
  have hcand : r.candidateId ≠ c := fun hx => hne (hx ▸ hcur)
  have hbase : Ends (redirect (r :: rest) r.tenantId) k r.baselineId c :=
    ⟨hfollow.trans hcur, hnone⟩
  have hsource : r'.source = r.candidateId := (if_neg hp).trans hl.candidateId
  have hgoal : r'.goal = r.baselineId := (if_neg hp).trans hl.baselineId
  unfold Near
  rw [redirect_of_closed hl ho hc hk, hsource, hgoal]
  refine ⟨(Function.update_of_ne hcand.symm _ _).trans hnone, ?_⟩
  intro x hx hxc v hv
  rcases List.mem_cons.mp hx with rfl | hx
  · rcases hv with rfl | rfl
    · rw [hl.baselineId]
      exact ⟨k, by omega, hbase.avoid havoid⟩
    · rw [hl.candidateId]
      exact ⟨k + 1, by omega, Ends.cons (Function.update_self _ _ _) (hbase.avoid havoid)⟩
  · obtain ⟨n, hn, hends⟩ := hnear x (List.mem_cons_of_mem _ hx) hxc v hv
    obtain ⟨m, hm, rfl | ⟨j, hj, hmeets, rfl⟩⟩ := hends.divert hbase hcand havoid
    · exact ⟨m, hn, hm⟩
    · have hj8 : j + k < MAX_HOPS := by
        apply hshort x (List.mem_cons_of_mem _ hx) j (by omega)
        rcases hv with rfl | rfl
        · exact Or.inl hmeets
        · exact Or.inr hmeets
      exact ⟨j + 1 + k, by omega, hm⟩

theorem settled_of_promoted (hl : r.Later r') (ho : r.state.isOpen = true)
    (hp : r'.state = .promoted) (hk : r.artifactKind = "case_type")
    (hne : r.baselineId ≠ r.candidateId) (h : Settled (r :: rest) r.tenantId)
    (hfit : Promotable (r :: rest) r) : Settled (r' :: rest) r.tenantId := by
  intro c' hcur'
  obtain rfl : r.candidateId = c' :=
    hl.candidateId.symm.trans (Option.some.inj ((current_cons_of_promoted hp).symm.trans hcur'))
  have hc : r'.state.isOpen = false := by rw [hp]; rfl
  have hsource : r'.source = r.baselineId := (if_pos hp).trans hl.baselineId
  have hgoal : r'.goal = r.candidateId := (if_pos hp).trans hl.candidateId
  have hnone : redirect (r :: rest) r.tenantId r.candidateId = none := by
    rcases hfit with hcur | ⟨-, hnone, -⟩
    · exact (h _ hcur).1
    · exact hnone
  unfold Near
  rw [redirect_of_closed hl ho hc hk, hsource, hgoal]
  have hend : Function.update (redirect (r :: rest) r.tenantId) r.baselineId
      (some r.candidateId) r.candidateId = none :=
    (Function.update_of_ne hne.symm _ _).trans hnone
  refine ⟨hend, ?_⟩
  intro x hx hxc v hv
  rcases List.mem_cons.mp hx with rfl | hx
  · rcases hv with rfl | rfl
    · rw [hl.baselineId]
      exact ⟨1, by decide, Ends.cons (Function.update_self _ _ _) (Ends.here hend)⟩
    · rw [hl.candidateId]
      exact ⟨0, by decide, Ends.here hend⟩
  · have hmem := List.mem_cons_of_mem r hx
    rcases hfit with hcur | ⟨hcur, -, hshort⟩
    · -- the candidate was the current version
      obtain ⟨n, hn, hends⟩ := (h _ hcur).2 x hmem hxc v hv
      have havoid : ∀ j ≤ 0, follow (redirect (r :: rest) r.tenantId) j r.candidateId ≠
          some r.baselineId := by
        intro j hj hfollow
        obtain rfl : j = 0 := Nat.le_zero.mp hj
        exact hne (Option.some.inj hfollow).symm
      obtain ⟨m, hm, rfl | ⟨j, hj, -, rfl⟩⟩ := hends.divert (Ends.here hnone) hne havoid
      · exact ⟨m, hn, hm⟩
      · exact ⟨j + 1 + 0, by omega, hm⟩
    · -- the baseline was the current version
      obtain ⟨n, hn, hends⟩ := (h _ hcur).2 x hmem hxc v hv
      have hfollow : follow (redirect (r :: rest) r.tenantId) MAX_HOPS v = none := by
        rcases hv with rfl | rfl
        · exact (hshort x hmem).1
        · exact (hshort x hmem).2
      have hn8 : n ≠ MAX_HOPS := by
        intro hn
        rw [hn] at hends
        exact absurd (hends.1.symm.trans hfollow) nofun
      exact ⟨n + 1, by omega, hends.extend hne.symm hnone⟩

theorem settled_of_open (hl : r.Later r') (ho : r.state.isOpen = true)
    (ho' : r'.state.isOpen = true) (h : Settled (r :: rest) r.tenantId) :
    Settled (r' :: rest) r.tenantId := by
  intro c hcur
  rw [current_of_withdrawn hl ho (not_promoted_of_isOpen ho')] at hcur
  unfold Near
  rw [redirect_cons_of_isOpen ho', ← redirect_cons_of_isOpen ho rest]
  refine ⟨(h c hcur).1, ?_⟩
  intro x hx hxc
  rcases List.mem_cons.mp hx with rfl | hx
  · rw [ho'] at hxc
    cases hxc
  · exact (h c hcur).2 x (List.mem_cons_of_mem _ hx) hxc

theorem settled_of_new (ho : r.state.isOpen = true) (h : Settled rest r.tenantId) :
    Settled (r :: rest) r.tenantId := by
  intro c hcur
  unfold Near
  rw [redirect_cons_of_isOpen ho]
  have hfirst : ∀ x ∈ r :: rest, x.state.isOpen = false → x ∈ rest := by
    intro x hx hxc
    rcases List.mem_cons.mp hx with rfl | hx
    · rw [ho] at hxc
      cases hxc
    · exact hx
  by_cases hnil : rest = []
  · rw [hnil] at hfirst ⊢
    exact ⟨rfl, fun x hx hxc => absurd (hfirst x hx hxc) List.not_mem_nil⟩
  · rw [current_cons_of_not_promoted hnil (not_promoted_of_isOpen ho)] at hcur
    exact ⟨(h c hcur).1, fun x hx hxc => (h c hcur).2 x (hfirst x hx hxc) hxc⟩

end
end Rollouts
