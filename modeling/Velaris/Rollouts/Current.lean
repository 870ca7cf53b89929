import Velaris.Rollouts.Family
import Velaris.Rollouts.Requested

/-!
# Where everyone is when no rollout is open

* `closing`, `Fits`, `Allowed`   the rollout a request closes, and when it may be closed;
* `Stored`   what a request that is accepted does to the table;
* `Good`, `good_step`   what holds of the table along an allowed run;
* `resolve_of_good`   the answer for every version of a case type without open rollout;
* `everyone_on_current`   so it is the current version, in every allowed run.
-/

namespace Rollouts
open Py Base

variable (P : Platform)

/-! ## requests that close a rollout -/

/-- the rollout that a request closes if it is accepted, and the state it is left in -/
def closing (rows : List Rollout) : Op → Option (Rollout × State)
  | .promote tenant id _ => (getRow rows id tenant).toOption.map fun r => (r, .promoted)
  | .approve tenant id _ strategy _ =>
    ((getRow rows id tenant).toOption.filter fun r =>
      (overridden r strategy).toOption = some .immediate).map fun r => (r, .promoted)
  | .rollback tenant id _ => (getRow rows id tenant).toOption.map fun r => (r, .rolledBack)
  | .supersede tenant id _ _ _ _ _ =>
    (getRow rows id tenant).toOption.map fun r => (r, .superseded)
  | .start _ | .setPercent _ _ _ | .setPolicy _ _ _ => none

def Fits (fam : List Rollout) (r : Rollout) (state : State) : Prop :=
  if state = .promoted then Promotable fam r else Withdrawable fam r

instance (fam : List Rollout) (r : Rollout) (state : State) : Decidable (Fits fam r state) :=
  inferInstanceAs (Decidable (if state = .promoted then Promotable fam r else Withdrawable fam r))

def accepted (rows : List Rollout) (op : Op) : Bool := (perform P rows op).isOk

/-- a request that is accepted closes a rollout only where it fits -/
def Allowed (rows : List Rollout) (op : Op) : Prop :=
  accepted P rows op = true → ∀ c ∈ closing rows op,
    Fits (family rows c.1.tenantId c.1.artifactName) c.1 c.2

instance (rows : List Rollout) (op : Op) : Decidable (Allowed P rows op) :=
  inferInstanceAs (Decidable (_ → ∀ c ∈ closing rows op, _))

/-! ## what the functions do to a row -/

theorem close_ok {r r' : Rollout} {state : State} {actor : Option String}
    (h : close r state actor = .ok r') :
    r.state.isOpen = true ∧ r.Later r' ∧ r'.state = state := by
  unfold close at h
  split at h
  · rename_i ho
    rw [← Except.ok.inj h]
    exact ⟨ho, ⟨rfl, rfl, rfl, rfl, rfl, rfl⟩, rfl⟩
  · cases h

theorem promote_ok {r r' : Rollout} {actor : Option String} (h : promote r actor = .ok r') :
    r.state.isOpen = true ∧ r.Later r' ∧ r'.state = .promoted := by
  unfold promote at h
  split at h
  · cases h
  · exact close_ok h

theorem setPercent_ok {r r' : Rollout} {percent : Int} (h : setPercent r percent = .ok r') :
    r.state.isOpen = true ∧ r.Later r' ∧ r'.state.isOpen = true ∧ r'.openKey = r.openKey := by
  unfold setPercent at h
  split at h
  · cases h
  · rename_i hs
    have ho : r.state.isOpen = true := by
      cases hstate : r.state <;> rw [hstate] at hs <;> first | rfl | simp at hs
    obtain ⟨p, -, h⟩ := exists_of_bind_ok h
    rw [← Except.ok.inj h]
    refine ⟨ho, ⟨rfl, rfl, rfl, rfl, rfl, rfl⟩, ?_, rfl⟩
    show (if r.strategy = .flag then (if p = 0 then State.dormant else .rolling)
      else r.state).isOpen = true
    split
    · split <;> rfl
    · exact ho

theorem setPolicy_ok {r r' : Rollout} {targeting : Option Targeting}
    (h : setPolicy r targeting = .ok r') :
    r.state.isOpen = true ∧ r.Later r' ∧ r'.state.isOpen = true ∧ r'.openKey = r.openKey := by
  unfold setPolicy at h
  split at h
  · rename_i ho
    rw [← Except.ok.inj h]
    exact ⟨ho, ⟨rfl, rfl, rfl, rfl, rfl, rfl⟩, ho, rfl⟩
  · cases h

theorem approve_ok {r r' : Rollout} {actor strategy : Option String} {percent : Option Int}
    (h : approve P r actor strategy percent = .ok r') :
    r.state.isOpen = true ∧ r.Later r' ∧
      if (overridden r strategy).toOption = some .immediate then r'.state = .promoted
      else r'.state.isOpen = true ∧ r'.openKey = r.openKey := by
  unfold approve at h
  split at h
  · cases h
  · rename_i hs
    have ho : r.state.isOpen = true := by
      rw [not_not.mp hs]
      rfl
    split at h
    · cases h
    · obtain ⟨chosen, hchosen, h⟩ := exists_of_bind_ok h
      obtain ⟨p, -, h⟩ := exists_of_bind_ok h
      rw [hchosen]
      show _ ∧ _ ∧ if some chosen = some Strategy.immediate then _ else _
      by_cases himm : chosen = .immediate
      · rw [if_pos (congrArg some himm)]
        rw [if_pos himm] at h
        obtain ⟨-, hl, hstate⟩ := promote_ok h
        exact ⟨ho, ⟨hl.id, hl.tenantId, hl.artifactKind, hl.artifactName, hl.baselineId,
          hl.candidateId⟩, hstate⟩
      · rw [if_neg fun hx => himm (Option.some.inj hx)]
        rw [if_neg himm] at h
        rw [← Except.ok.inj h]
        refine ⟨ho, ⟨rfl, rfl, rfl, rfl, rfl, rfl⟩, ?_, rfl⟩
        show (if 0 < p ∨ chosen = .percentage ∨ chosen = .blueGreen then State.rolling
          else .dormant).isOpen = true
        split <;> rfl

/-! ## the table -/

structure WellFormed (r : Rollout) : Prop where
  kind : r.artifactKind = "case_type"
  baseline : (P.caseType r.baselineId).map (·.name) = some r.artifactName
  candidate : (P.caseType r.candidateId).map (·.name) = some r.artifactName
  distinct : r.baselineId ≠ r.candidateId
  key : r.state.isOpen = true →
    r.openKey = some (openKeyOf r.tenantId r.artifactKind r.artifactName)

/-- what is always so: the rows have their own ids, only the newest rollout of a case type may be
open, and the closed ones leave every version near the current one -/
structure Good (rows : List Rollout) : Prop where
  ids : rows.Pairwise fun a b => a.id ≠ b.id
  wellFormed : ∀ r ∈ rows, WellFormed P r
  onlyFirst : ∀ tenant name, ∀ r ∈ (family rows tenant name).tail, r.state.isOpen = false
  settled : ∀ tenant name, Settled (family rows tenant name) tenant

theorem mem_family_iff {rows : List Rollout} {tenant : Uuid} {name : String} {r : Rollout} :
    r ∈ family rows tenant name ↔ r ∈ rows ∧ r.tenantId = tenant ∧ r.artifactName = name := by
  rw [family, List.mem_filter, Bool.and_eq_true, decide_eq_true_iff, decide_eq_true_iff]

theorem family_cons (r : Rollout) (rows : List Rollout) (tenant : Uuid) (name : String) :
    family (r :: rows) tenant name =
      if r.tenantId = tenant ∧ r.artifactName = name then r :: family rows tenant name
      else family rows tenant name := by
  unfold family
  rw [List.filter_cons]
  simp

variable {P}

theorem good_nil : Good P [] :=
  ⟨List.Pairwise.nil, fun _ hr => absurd hr List.not_mem_nil,
    fun _ _ _ hr => absurd hr List.not_mem_nil, fun _ _ _ hc => absurd hc nofun⟩

/-- a new rollout of a case type that has no open one -/
theorem Good.cons {rows : List Rollout} (h : Good P rows) {r : Rollout} (hwf : WellFormed P r)
    (ho : r.state.isOpen = true) (hid : ∀ x ∈ rows, x.id ≠ r.id)
    (hclosed : ∀ x ∈ family rows r.tenantId r.artifactName, x.state.isOpen = false) :
    Good P (r :: rows) where
  ids := List.pairwise_cons.mpr ⟨fun x hx => (hid x hx).symm, h.ids⟩
  wellFormed x hx := by
    rcases List.mem_cons.mp hx with rfl | hx
    · exact hwf
    · exact h.wellFormed x hx
  onlyFirst tenant name := by
    rw [family_cons]
    split
    · rename_i hfam
      obtain ⟨rfl, rfl⟩ := hfam
      exact hclosed
    · exact h.onlyFirst tenant name
  settled tenant name := by
    rw [family_cons]
    split
    · rename_i hfam
      obtain ⟨rfl, rfl⟩ := hfam
      exact settled_of_new ho (h.settled _ _)
    · exact h.settled tenant name

theorem eq_of_id {rows : List Rollout} (h : rows.Pairwise fun a b => a.id ≠ b.id) {a b : Rollout}
    (ha : a ∈ rows) (hb : b ∈ rows) (hid : a.id = b.id) : a = b := by
  induction rows with
  | nil => cases ha
  | cons x rows ih =>
    obtain ⟨hx, hrows⟩ := List.pairwise_cons.mp h
    rcases List.mem_cons.mp ha with rfl | ha' <;> rcases List.mem_cons.mp hb with rfl | hb'
    · rfl
    · exact absurd hid (hx b hb')
    · exact absurd hid.symm (hx a ha')
    · exact ih hrows ha' hb'

theorem Good.family_store {rows : List Rollout} (h : Good P rows) {r r' : Rollout} (hr : r ∈ rows)
    (ho : r.state.isOpen = true) (hl : r.Later r') (tenant : Uuid) (name : String) :
    (r.tenantId = tenant ∧ r.artifactName = name ∧ ∃ rest,
        family rows tenant name = r :: rest ∧ family (store rows r') tenant name = r' :: rest) ∨
      ¬ (r.tenantId = tenant ∧ r.artifactName = name) ∧
        family (store rows r') tenant name = family rows tenant name := by
  have hmap : family (store rows r') tenant name =
      (family rows tenant name).map fun x => if x.id = r'.id then r' else x := by
    unfold family store
    rw [List.filter_map]
    congr 1
    apply List.filter_congr
    intro x hx
    by_cases hid : x.id = r'.id
    · obtain rfl := eq_of_id h.ids hx hr (hid.trans hl.id)
      simp [hid, hl.tenantId, hl.artifactName]
    · simp [hid]
  by_cases hfam : r.tenantId = tenant ∧ r.artifactName = name
  · left
    refine ⟨hfam.1, hfam.2, ?_⟩
    have hmem : r ∈ family rows tenant name := mem_family_iff.mpr ⟨hr, hfam⟩
    have hfirst := h.onlyFirst tenant name
    have hids : (family rows tenant name).Pairwise fun a b => a.id ≠ b.id := h.ids.filter _
    cases hf : family rows tenant name with
    | nil => rw [hf] at hmem; cases hmem
    | cons x rest =>
      rw [hf] at hmem hfirst hids hmap
      obtain rfl : r = x := by
        rcases List.mem_cons.mp hmem with hrx | hrest
        · exact hrx
        · exact absurd (hfirst r hrest) (by simp [ho])
      refine ⟨rest, rfl, ?_⟩
      have hrest : rest.map (fun x => if x.id = r'.id then r' else x) = rest := by
        refine (List.map_congr_left ?_).trans (List.map_id rest)
        intro x hx
        exact if_neg fun hid =>
          (List.pairwise_cons.mp hids).1 x hx (hl.id.symm.trans hid.symm)
      rw [hmap, List.map_cons, if_pos hl.id.symm, hrest]
  · right
    refine ⟨hfam, ?_⟩
    rw [hmap]
    refine (List.map_congr_left ?_).trans (List.map_id _)
    intro x hx
    apply if_neg
    intro hid
    obtain ⟨hmem, hx⟩ := mem_family_iff.mp hx
    obtain rfl := eq_of_id h.ids hmem hr (hid.trans hl.id)
    exact hfam hx

theorem mem_store {rows : List Rollout} {r x : Rollout} (h : x ∈ store rows r) :
    x = r ∨ x ∈ rows ∧ x.id ≠ r.id := by
  obtain ⟨y, hy, rfl⟩ := List.mem_map.mp h
  split
  · exact Or.inl rfl
  · rename_i hid
    exact Or.inr ⟨hy, hid⟩

/-- the open rollout goes on, or is closed where it fits -/
theorem Good.store {rows : List Rollout} (h : Good P rows) {r r' : Rollout} (hr : r ∈ rows)
    (ho : r.state.isOpen = true) (hl : r.Later r')
    (hkey : r'.state.isOpen = true → r'.openKey = r.openKey)
    (hfit : r'.state.isOpen = false →
      Fits (family rows r.tenantId r.artifactName) r r'.state) : Good P (store rows r') where
  ids := by
    apply List.Pairwise.map _ _ h.ids
    intro a b hab
    have hsame : ∀ x : Rollout, (if x.id = r'.id then r' else x).id = x.id := by
      intro x
      split
      · rename_i hid
        exact hid.symm
      · rfl
    rw [hsame, hsame]
    exact hab
  wellFormed x hx := by
    rcases mem_store hx with rfl | ⟨hx, -⟩
    · have hwf := h.wellFormed r hr
      exact ⟨hl.artifactKind.trans hwf.kind,
        by rw [hl.baselineId, hl.artifactName]; exact hwf.baseline,
        by rw [hl.candidateId, hl.artifactName]; exact hwf.candidate,
        by rw [hl.baselineId, hl.candidateId]; exact hwf.distinct,
        fun ho' => by
          rw [hkey ho', hl.tenantId, hl.artifactKind, hl.artifactName]
          exact hwf.key ho⟩
    · exact h.wellFormed x hx
  onlyFirst tenant name := by
    rcases h.family_store hr ho hl tenant name with ⟨-, -, rest, hf, hf'⟩ | ⟨-, hf⟩
    · have hfirst := h.onlyFirst tenant name
      rw [hf] at hfirst
      rw [hf']
      exact hfirst
    · rw [hf]
      exact h.onlyFirst tenant name
  settled tenant name := by
    rcases h.family_store hr ho hl tenant name with ⟨rfl, rfl, rest, hf, hf'⟩ | ⟨-, hf⟩
    · have hset := h.settled r.tenantId r.artifactName
      have hwf := h.wellFormed r hr
      rw [hf] at hset hfit
      rw [hf']
      cases ho' : r'.state.isOpen with
      | true => exact settled_of_open hl ho ho' hset
      | false =>
        have hfit := hfit ho'
        unfold Fits at hfit
        split at hfit
        · rename_i hp
          exact settled_of_promoted hl ho hp hwf.kind hwf.distinct hset hfit
        · rename_i hp
          exact settled_of_withdrawn hl ho ho' hp hwf.kind hset hfit
    · rw [hf]
      exact h.settled tenant name

/-! ## requests -/

/-- what an accepted request does to the table: a new rollout, a rollout that goes on or is
closed, or one that is closed for another -/
inductive Stored (P : Platform) (rows : List Rollout) (op : Op) : List Rollout → Prop
  | new {q : Start} {r : Rollout} : closing rows op = none → start P rows q = .ok r →
      Stored P rows op (r :: rows)
  | moved {r r' : Rollout} : r ∈ rows → r.state.isOpen = true → r.Later r' →
      (r'.state.isOpen = true → r'.openKey = r.openKey) →
      closing rows op = (if r'.state.isOpen = true then none else some (r, r'.state)) →
      Stored P rows op (store rows r')
  | replaced {r closed r' new : Rollout} {q : Start} : r ∈ rows → r.state.isOpen = true →
      r.Later closed → r.Later r' → closed.state = .superseded → r'.state = .superseded →
      closing rows op = some (r, .superseded) → q.tenantId = r.tenantId →
      q.baselineId = r.baselineId → start P (store rows closed) q = .ok new →
      Stored P rows op (new :: store rows r')

theorem getRow_ok {rows : List Rollout} {id tenant : Uuid} {r : Rollout}
    (h : getRow rows id tenant = .ok r) : r ∈ rows := by
  unfold getRow at h
  split at h
  · rename_i x hx
    rw [← Except.ok.inj h]
    exact List.mem_of_find?_eq_some hx
  · cases h

theorem change_ok {rows rows' : List Rollout} {tenant id : Uuid}
    {f : Rollout → Except Refused Rollout} (h : change rows tenant id f = .ok rows') :
    ∃ r r', getRow rows id tenant = .ok r ∧ f r = .ok r' ∧ rows' = Rollouts.store rows r' := by
  obtain ⟨r, hr, h⟩ := exists_of_bind_ok h
  obtain ⟨r', hr', rfl⟩ := exists_of_map_ok h
  exact ⟨r, r', hr, hr', rfl⟩

theorem supersede_ok {rows rows' : List Rollout} {r : Rollout} {newId candidateId : Uuid}
    {strategy : String} {percent : Int} {actor : Option String}
    (h : supersede P rows r newId candidateId strategy percent actor = .ok rows') :
    ∃ closed new, close r .superseded actor = .ok closed ∧
      start P (Rollouts.store rows closed)
        (r.successor newId candidateId strategy percent actor) = .ok new ∧
      rows' = new :: Rollouts.store rows { closed with supersededBy := some new.id } := by
  obtain ⟨closed, hclosed, h⟩ := exists_of_bind_ok h
  obtain ⟨new, hnew, rfl⟩ := exists_of_map_ok h
  exact ⟨closed, new, hclosed, hnew, rfl⟩

theorem stored_of_perform {rows rows' : List Rollout} {op : Op}
    (h : perform P rows op = .ok rows') : Stored P rows op rows' := by
  cases op with
  | start q =>
    obtain ⟨r, hr, rfl⟩ := exists_of_map_ok h
    exact Stored.new rfl hr
  | approve tenant id actor strategy percent =>
    obtain ⟨r, r', hget, hr', rfl⟩ := change_ok h
    obtain ⟨ho, hl, hstate⟩ := approve_ok P hr'
    split at hstate
    · rename_i himm
      refine Stored.moved (getRow_ok hget) ho hl ?_ ?_
      · intro ho'
        rw [hstate] at ho'
        cases ho'
      · rw [hstate, closing, hget]
        show (Option.filter _ (some r)).map _ = _
        rw [Option.filter_some_pos (by simpa using himm)]
        rfl
    · rename_i himm
      refine Stored.moved (getRow_ok hget) ho hl (fun _ => hstate.2) ?_
      rw [if_pos hstate.1, closing, hget]
      show (Option.filter _ (some r)).map _ = _
      rw [Option.filter_some_neg (by simpa using himm)]
      rfl
  | setPercent tenant id percent =>
    obtain ⟨r, r', hget, hr', rfl⟩ := change_ok h
    obtain ⟨ho, hl, ho', hkey⟩ := setPercent_ok hr'
    exact Stored.moved (getRow_ok hget) ho hl (fun _ => hkey) (if_pos ho').symm
  | setPolicy tenant id targeting =>
    obtain ⟨r, r', hget, hr', rfl⟩ := change_ok h
    obtain ⟨ho, hl, ho', hkey⟩ := setPolicy_ok hr'
    exact Stored.moved (getRow_ok hget) ho hl (fun _ => hkey) (if_pos ho').symm
  | promote tenant id actor =>
    obtain ⟨r, r', hget, hr', rfl⟩ := change_ok h
    obtain ⟨ho, hl, hstate⟩ := promote_ok hr'
    refine Stored.moved (getRow_ok hget) ho hl ?_ ?_
    · intro ho'
      rw [hstate] at ho'
      cases ho'
    · rw [hstate, closing, hget]
      rfl
  | rollback tenant id actor =>
    obtain ⟨r, r', hget, hr', rfl⟩ := change_ok h
    obtain ⟨ho, hl, hstate⟩ := close_ok hr'
    refine Stored.moved (getRow_ok hget) ho hl ?_ ?_
    · intro ho'
      rw [hstate] at ho'
      cases ho'
    · rw [hstate, closing, hget]
      rfl
  | supersede tenant id newId candidateId strategy percent actor =>
    obtain ⟨r, hget, h⟩ := exists_of_bind_ok h
    obtain ⟨closed, new, hclosed, hnew, rfl⟩ := supersede_ok h
    obtain ⟨ho, hl, hstate⟩ := close_ok hclosed
    refine Stored.replaced (getRow_ok hget) ho hl
      ⟨hl.id, hl.tenantId, hl.artifactKind, hl.artifactName, hl.baselineId, hl.candidateId⟩
      hstate hstate ?_ rfl rfl hnew
    rw [closing, hget]
    rfl

theorem wellFormed_of_start {rows : List Rollout} {q : Start} {r : Rollout}
    (h : start P rows q = .ok r) : WellFormed P r := by
  obtain ⟨strategy, percent, base, cand, hbase, hcand, hname, hkind, hne, -, -, rfl⟩ :=
    start_ok P h
  refine ⟨hkind, ?_, ?_, hne, fun _ => rfl⟩
  · show (P.caseType q.baselineId).map _ = some base.name
    rw [hbase]
    rfl
  · show (P.caseType q.candidateId).map _ = some base.name
    rw [hcand, hname]
    rfl

theorem Good.closed_of_openFor {rows : List Rollout} (h : Good P rows) {tenant : Uuid}
    {name : String} (hfree : openFor rows tenant "case_type" name = none) :
    ∀ x ∈ family rows tenant name, x.state.isOpen = false := by
  intro x hx
  obtain ⟨hmem, rfl, rfl⟩ := mem_family_iff.mp hx
  cases ho : x.state.isOpen with
  | false => rfl
  | true =>
    have hwf := h.wellFormed x hmem
    have hkey := hwf.key ho
    rw [hwf.kind] at hkey
    exact absurd hkey (by simpa using List.find?_eq_none.mp hfree x hmem)

theorem Good.start {rows : List Rollout} (h : Good P rows) {q : Start} {r : Rollout}
    (hr : start P rows q = .ok r) : Good P (r :: rows) := by
  have hwf := wellFormed_of_start hr
  have ho : r.state.isOpen = true := by
    rw [state_of_start P hr]
    rfl
  obtain ⟨strategy, percent, base, cand, -, -, -, hkind, -, hfree, hid, rfl⟩ := start_ok P hr
  rw [hkind] at hfree
  exact h.cons hwf ho hid (h.closed_of_openFor hfree)

theorem Good.replaced {rows : List Rollout} (h : Good P rows) {r closed r' new : Rollout}
    {q : Start} (hr : r ∈ rows) (ho : r.state.isOpen = true) (hlc : r.Later closed)
    (hl : r.Later r') (hs' : r'.state = .superseded)
    (hfit : Fits (family rows r.tenantId r.artifactName) r .superseded)
    (htenant : q.tenantId = r.tenantId) (hbase : q.baselineId = r.baselineId)
    (hnew : Rollouts.start P (Rollouts.store rows closed) q = .ok new) :
    Good P (new :: Rollouts.store rows r') := by
  have hc' : r'.state.isOpen = false := by rw [hs']; rfl
  have hgood : Good P (Rollouts.store rows r') := by
    apply h.store hr ho hl
    · intro ho'
      rw [hc'] at ho'
      cases ho'
    · intro _
      rw [hs']
      exact hfit
  have hwf := wellFormed_of_start hnew
  have hopen : new.state.isOpen = true := by
    rw [state_of_start P hnew]
    rfl
  obtain ⟨strategy, percent, base, cand, hb, -, -, -, -, -, hid, rfl⟩ := start_ok P hnew
  -- the new rollout is one of the same case type
  have hname : base.name = r.artifactName := by
    have hrb := (h.wellFormed r hr).baseline
    rw [← hbase, hb] at hrb
    exact Option.some.inj hrb
  apply hgood.cons hwf hopen
  · intro x hx
    rcases mem_store hx with rfl | ⟨hx, hne⟩
    · rw [hl.id, ← hlc.id]
      exact hid closed (List.mem_map.mpr ⟨r, hr, if_pos hlc.id.symm⟩)
    · apply hid x
      refine List.mem_map.mpr ⟨x, hx, if_neg ?_⟩
      rw [hlc.id, ← hl.id]
      exact hne
  · show ∀ x ∈ family (Rollouts.store rows r') q.tenantId base.name, _
    rw [htenant, hname]
    intro x hx
    rcases h.family_store hr ho hl r.tenantId r.artifactName with ⟨-, -, rest, hf, hf'⟩ | ⟨hn, -⟩
    · have hfirst := h.onlyFirst r.tenantId r.artifactName
      rw [hf] at hfirst
      rw [hf'] at hx
      rcases List.mem_cons.mp hx with rfl | hx
      · exact hc'
      · exact hfirst x hx
    · exact absurd ⟨rfl, rfl⟩ hn

/-! ## runs -/

theorem good_step (rows : List Rollout) (op : Op) (h : Good P rows) (ha : Allowed P rows op) :
    Good P (step P rows op) := by
  unfold step
  cases hp : perform P rows op with
  | error e => exact h
  | ok rows' =>
    show Good P rows'
    have hfits : ∀ r state, closing rows op = some (r, state) →
        Fits (family rows r.tenantId r.artifactName) r state := by
      intro r state hc
      refine ha ?_ (r, state) hc
      rw [accepted, hp]
      rfl
    cases stored_of_perform hp with
    | new _ hr => exact h.start hr
    | moved hr ho hl hkey hclosing =>
      apply h.store hr ho hl hkey
      intro hc
      apply hfits
      rw [hclosing, hc]
      rfl
    | replaced hr ho hlc hl hs hs' hclosing htenant hbase hnew =>
      exact h.replaced hr ho hlc hl hs' (hfits _ _ hclosing) htenant hbase hnew

theorem good_exec {ops : List Op} (h : Along (step P) (Allowed P) [] ops) :
    Good P (exec (step P) [] ops) := exec_inv good_step good_nil h

/-! ## the version last promoted -/

/-- the version of a case type that a request promotes -/
def promotedBy (rows : List Rollout) (op : Op) (tenant : Uuid) (name : String) : Option Uuid :=
  ((closing rows op).filter fun c =>
    c.2 = .promoted ∧ c.1.tenantId = tenant ∧ c.1.artifactName = name).map (·.1.candidateId)

theorem Good.current_store {rows : List Rollout} (h : Good P rows) {r r' : Rollout}
    (hr : r ∈ rows) (ho : r.state.isOpen = true) (hl : r.Later r') (tenant : Uuid)
    (name : String) :
    current (family (Rollouts.store rows r') tenant name) =
      if r'.state = .promoted ∧ r.tenantId = tenant ∧ r.artifactName = name then
        some r.candidateId
      else current (family rows tenant name) := by
  rcases h.family_store hr ho hl tenant name with ⟨rfl, rfl, rest, hf, hf'⟩ | ⟨hn, hf⟩
  · rw [hf, hf']
    by_cases hp : r'.state = .promoted
    · rw [if_pos ⟨hp, rfl, rfl⟩, current_cons_of_promoted hp, hl.candidateId]
    · rw [if_neg fun hx => hp hx.1, current_of_withdrawn hl ho hp]
  · rw [hf, if_neg fun hx => hn hx.2]

theorem current_new {rows : List Rollout} {r : Rollout} (ho : r.state.isOpen = true)
    {tenant : Uuid} {name : String} (hne : family rows tenant name ≠ []) :
    current (family (r :: rows) tenant name) = current (family rows tenant name) := by
  rw [family_cons]
  split
  · exact current_cons_of_not_promoted hne (not_promoted_of_isOpen ho)
  · rfl

/-- the current version of a case type changes by promotions only, and to the version promoted -/
theorem Good.current_perform {rows rows' : List Rollout} {op : Op} (h : Good P rows)
    (hp : perform P rows op = .ok rows') {tenant : Uuid} {name : String}
    (hne : family rows tenant name ≠ []) :
    current (family rows' tenant name) =
      (promotedBy rows op tenant name).or (current (family rows tenant name)) := by
  unfold promotedBy
  cases stored_of_perform hp with
  | @new q r hclosing hr =>
    rw [hclosing]
    have ho : r.state.isOpen = true := by
      rw [state_of_start P hr]
      rfl
    exact current_new ho hne
  | @moved r r' hr ho hl hkey hclosing =>
    rw [hclosing, h.current_store hr ho hl]
    cases ho' : r'.state.isOpen with
    | true =>
      rw [if_neg fun hx => not_promoted_of_isOpen ho' hx.1]
      rfl
    | false =>
      rw [if_neg Bool.false_ne_true]
      split
      · rename_i hx
        rw [Option.filter_some_pos (by simpa using hx)]
        rfl
      · rename_i hx
        rw [Option.filter_some_neg (by simpa using hx)]
        rfl
  | @replaced r closed r' new q hr ho hlc hl hs hs' hclosing htenant hbase hnew =>
    have hnotp : ¬ (r'.state = .promoted ∧ r.tenantId = tenant ∧ r.artifactName = name) := by
      intro hx
      rw [hs'] at hx
      cases hx.1
    have hopen : new.state.isOpen = true := by
      rw [state_of_start P hnew]
      rfl
    have hne' : family (Rollouts.store rows r') tenant name ≠ [] := by
      rcases h.family_store hr ho hl tenant name with ⟨-, -, rest, -, hf'⟩ | ⟨-, hf⟩
      · rw [hf']
        exact List.cons_ne_nil r' rest
      · rw [hf]
        exact hne
    rw [current_new hopen hne', h.current_store hr ho hl, if_neg hnotp, hclosing]
    rfl

/-! ## the answer -/

def IsVersion (P : Platform) (name : String) (v : Uuid) : Prop :=
  (P.caseType v).map (·.name) = some name

theorem Good.mem_family_of_touches {rows : List Rollout} (h : Good P rows) {tenant v : Uuid}
    {name : String} (hv : IsVersion P name v) {r : Rollout} (hr : r ∈ rows)
    (ht : r.touches tenant v = true) : r ∈ family rows tenant name := by
  have hwf := h.wellFormed r hr
  simp only [Rollout.touches, Bool.and_eq_true, Bool.or_eq_true, decide_eq_true_eq] at ht
  refine mem_family_iff.mpr ⟨hr, ht.1.1, ?_⟩
  rcases ht.2 with hb | hc
  · exact Option.some.inj (hwf.baseline.symm.trans (hb ▸ hv))
  · exact Option.some.inj (hwf.candidate.symm.trans (hc ▸ hv))

theorem Good.filter_touches {rows : List Rollout} (h : Good P rows) {tenant v : Uuid}
    {name : String} (hv : IsVersion P name v) :
    rows.filter (Rollout.touches tenant v) =
      (family rows tenant name).filter (Rollout.touches tenant v) := by
  unfold family
  rw [List.filter_filter]
  apply List.filter_congr
  intro r hr
  cases ht : r.touches tenant v with
  | false => rfl
  | true =>
    have hmem := mem_family_iff.mp (h.mem_family_of_touches hv hr ht)
    simp [hmem.2]

theorem Good.isVersion_of_redirect {rows : List Rollout} (h : Good P rows) {tenant v w : Uuid}
    {name : String} (hw : redirect (family rows tenant name) tenant v = some w) :
    IsVersion P name w := by
  obtain ⟨r, hr, hsends⟩ := List.exists_of_findSome?_eq_some hw
  obtain ⟨hmem, -, hname⟩ := mem_family_iff.mp (List.mem_filter.mp hr).1
  have hwf := h.wellFormed r hmem
  unfold Rollout.sends at hsends
  unfold IsVersion
  split at hsends
  · rw [← Option.some.inj hsends, hwf.candidate, hname]
  · split at hsends
    · rw [← Option.some.inj hsends, hwf.baseline, hname]
    · cases hsends

theorem Good.walk_eq_chase {rows : List Rollout} (h : Good P rows) {tenant : Uuid} {name : String}
    (hquiet : ∀ r ∈ family rows tenant name, r.state.isOpen = false) (asked : Asked)
    (hops : Nat) (seen : List Uuid) {v : Uuid} (hv : IsVersion P name v) :
    (walk P rows tenant asked hops seen v).caseTypeId =
      chase (redirect (family rows tenant name) tenant) hops seen v := by
  induction hops generalizing seen v with
  | zero => rfl
  | succ hops ih =>
    have hopen : openRow rows tenant v = none := by
      rw [openRow, h.filter_touches hv, List.find?_eq_none]
      intro r hr
      rw [hquiet r (List.mem_filter.mp hr).1]
      exact Bool.false_ne_true
    have hredirect : redirect rows tenant v = redirect (family rows tenant name) tenant v := by
      rw [redirect, redirect, h.filter_touches hv]
    rw [walk, chase, hopen, hredirect]
    cases hn : redirect (family rows tenant name) tenant v with
    | none => rfl
    | some w =>
      show (if w ∈ v :: seen then ({ caseTypeId := v } : Resolution) else _).caseTypeId =
        if w ∈ v :: seen then v else _
      split
      · rfl
      · exact ih _ (h.isVersion_of_redirect hn)

theorem Good.resolve_eq {rows : List Rollout} (h : Good P rows) {tenant : Uuid} {name : String}
    (hquiet : ∀ r ∈ family rows tenant name, r.state.isOpen = false) {caller : Caller}
    (hreads : caller.reads tenant) (asked : Asked) {c v : Uuid} (hv : IsVersion P name v)
    (hnear : Near (family rows tenant name) tenant c v) :
    (resolve P rows caller asked v).caseTypeId = c := by
  obtain ⟨n, hn, hends⟩ := hnear
  rw [resolve_of_reads P hreads, h.walk_eq_chase hquiet asked _ _ hv]
  exact chase_of_ends hends hn fun s hs => absurd hs List.not_mem_nil

theorem Good.isVersion_of_ends {rows : List Rollout} (h : Good P rows) {tenant c : Uuid}
    {name : String} {n : Nat} : ∀ {v : Uuid}, IsVersion P name v →
      Ends (redirect (family rows tenant name) tenant) n v c → IsVersion P name c := by
  induction n with
  | zero =>
    intro v hv hends
    exact (ends_zero_iff.mp hends).1 ▸ hv
  | succ n ih =>
    intro v _ hends
    obtain ⟨w, hw, hrest⟩ := ends_succ_iff.mp hends
    exact ih (h.isVersion_of_redirect hw) hrest

/-- In a run that closes a rollout only where it fits, the answer for every version that the
rollouts of a case type name is the current version whenever none of them is open. -/
theorem everyone_on_current (ops : List Op) (hallowed : Along (step P) (Allowed P) [] ops)
    (tenant : Uuid) (name : String)
    (hquiet : ∀ r ∈ family (exec (step P) [] ops) tenant name, r.state.isOpen = false)
    (caller : Caller) (hreads : caller.reads tenant) (asked : Asked) (r : Rollout)
    (hr : r ∈ family (exec (step P) [] ops) tenant name) (v : Uuid) (hv : r.names v) :
    some (resolve P (exec (step P) [] ops) caller asked v).caseTypeId =
        current (family (exec (step P) [] ops) tenant name) ∧
      (resolve P (exec (step P) [] ops) caller asked
          (resolve P (exec (step P) [] ops) caller asked v).caseTypeId).caseTypeId =
        (resolve P (exec (step P) [] ops) caller asked v).caseTypeId := by
  have h := good_exec hallowed
  obtain ⟨c, hc⟩ := current_isSome (List.ne_nil_of_mem hr)
  obtain ⟨hnone, hnear⟩ := h.settled tenant name c hc
  obtain ⟨hmem, -, hname⟩ := mem_family_iff.mp hr
  have hwf := h.wellFormed r hmem
  have hversion : IsVersion P name v := by
    rcases hv with rfl | rfl
    · exact hwf.baseline.trans (congrArg some hname)
    · exact hwf.candidate.trans (congrArg some hname)
  have hnv := hnear r hr (hquiet r hr) v hv
  obtain ⟨n, -, hends⟩ := id hnv
  have heq := h.resolve_eq hquiet hreads asked hversion hnv
  have hcur := h.resolve_eq hquiet hreads asked (h.isVersion_of_ends hversion hends)
    ⟨0, Nat.zero_le _, Ends.here hnone⟩
  rw [heq, hcur]
  exact ⟨hc.symm, rfl⟩

/-- version 2 is promoted in place of version 1 -/
def secondPromoted : List Op :=
  [.start secondAsked, .approve 7 10 (some "operator") (some "immediate") none]

theorem first_sent_to_second :
    some (resolve twoVersions (exec (step twoVersions) [] secondPromoted) { tenant := some 7 } {}
        1).caseTypeId = some 2 := by
  have hallowed : Along (step twoVersions) (Allowed twoVersions) [] secondPromoted := by
    decide +kernel
  have hquiet : ∀ r ∈ family (exec (step twoVersions) [] secondPromoted) 7 "claim",
      r.state.isOpen = false := by decide +kernel
  have hrow : ∃ r ∈ family (exec (step twoVersions) [] secondPromoted) 7 "claim",
      1 = r.baselineId := by decide +kernel
  have hcurrent : current (family (exec (step twoVersions) [] secondPromoted) 7 "claim") =
      some 2 := by decide +kernel
  obtain ⟨r, hr, hv⟩ := hrow
  rw [← hcurrent]
  exact (everyone_on_current secondPromoted hallowed 7 "claim" hquiet { tenant := some 7 }
    ⟨rfl, rfl, rfl⟩ {} r hr 1 (Or.inl hv)).1

/-- and version 1 back in place of version 2 -/
def firstPromotedBack : List Op :=
  secondPromoted ++
    [.start { id := 11, tenantId := 7, baselineId := 2, candidateId := 1, strategy := "flag" },
      .approve 7 11 (some "operator") (some "immediate") none]

/-- after a promotion back each of the two versions is sent to the other -/
theorem promoted_back_swapped :
    (∀ r ∈ family (exec (step twoVersions) [] firstPromotedBack) 7 "claim",
        r.state.isOpen = false) ∧
      current (family (exec (step twoVersions) [] firstPromotedBack) 7 "claim") = some 1 ∧
      (resolve twoVersions (exec (step twoVersions) [] firstPromotedBack) { tenant := some 7 } {}
        1).caseTypeId = 2 ∧
      (resolve twoVersions (exec (step twoVersions) [] firstPromotedBack) { tenant := some 7 } {}
        2).caseTypeId = 1 := by
  decide +kernel

end Rollouts
