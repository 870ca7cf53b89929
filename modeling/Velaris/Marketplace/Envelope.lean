import Velaris.Base.Traverse
import Velaris.Marketplace.Grants

/-!
# A connector reaches what an admin granted

* `Granted`   what is to hold at every moment of the connector and the last approval;
* `Additive`   what a descriptor that is applied without an approval leaves as it was;
* `Reviewed`   what each call may change;
* `tracks_step`   one step; `reviewed_step` what it changed;
* `reaches_granted`   a run.
-/

set_option linter.unusedSectionVars false

namespace Marketplace

open Py Base

variable {lib : Library}

/-! ## the promise -/

def lastApproved : List Entry → Option (List String)
  | [] | .revoked :: _ => none
  | .approved domains _ :: _ | .driftApproved domains :: _ => some domains
  | .autoApplied _ :: log | .held _ _ :: log | .driftRejected :: log => lastApproved log

structure Granted (s : State) : Prop where
  enabled : s.connector.enabled = true → (lastApproved s.log).isSome
  within : ∀ domains, s.connector.grantedDomains = some domains →
    ∃ approved, lastApproved s.log = some approved ∧ domains ⊆ approved

def operationsOf (config : Dict) : List Dict :=
  match config.get "operations" with
  | .list ops => ops.filterMap Value.dict?
  | _ => []

def operationId? (lib : Library) (op : Dict) : Option String :=
  if (op.get "operation_id").truthy then some (lib.str (op.get "operation_id")) else none

def fieldsOf (config : Dict) : List Value := (config.get "response_mapping").iter.getD []

/-- nothing more is asked for, and nothing is taken away from the one who calls -/
structure Additive (lib : Library) (old : Dict) (asked : Requested) (new : Dict)
    (asks : Requested) : Prop where
  domains : asks.outboundDomains ⊆ asked.outboundDomains
  scopes : asks.scopes ⊆ asked.scopes
  url : (old.get "url").eq (new.get "url") = true
  method : (old.get "method").eq (new.get "method") = true
  operations : ∀ op ∈ operationsOf old, ∀ name, operationId? lib op = some name →
    ∃ op' ∈ operationsOf new, operationId? lib op' = some name
  fields : ∀ field ∈ fieldsOf old, field.elem (fieldsOf new) = true

def Untouched (s t : State) : Prop :=
  t.connector.config = s.connector.config ∧ t.grant.requested = s.grant.requested

/-- the admin's choice is in force, and all of it was requested -/
def Approved (requested : Requested) (domains : List String) (t : State) : Prop :=
  lastApproved t.log = some domains ∧ domains ⊆ requested.outboundDomains

def Reviewed (lib : Library) (s : State) : Action → Prop
  | .approveGrant domains scopes now =>
    let t := step lib s (.approveGrant domains scopes now)
    Untouched s t ∧ (t = s ∨ Approved s.grant.requested domains t)
  | .revokeGrant => Untouched s (step lib s .revokeGrant)
  | .applyDescriptorDrift m tier =>
    let t := step lib s (.applyDescriptorDrift m tier)
    Untouched s t ∨ tier = .official ∧
      Additive lib s.connector.config s.grant.requested t.connector.config t.grant.requested
  | .approveDrift domains scopes now =>
    let t := step lib s (.approveDrift domains scopes now)
    t = s ∨ ∃ proposed, s.grant.proposed = some proposed ∧
      t.connector.config = proposed.config ∧ t.grant.requested = proposed.requested ∧
      Approved proposed.requested domains t
  | .rejectDrift => Untouched s (step lib s .rejectDrift)

/-! ## the classification -/

theorem missing_eq_nil {old new : List String} : missing old new = [] ↔ old ⊆ new := by
  constructor
  · intro h x hx
    by_contra hnew
    have hmem : x ∈ missing old new := by simp [missing, hx, hnew]
    rw [h] at hmem
    cases hmem
  · intro h
    refine List.eq_nil_iff_forall_not_mem.mpr fun x hx => ?_
    simp only [missing, List.mem_insertionSort, List.mem_dedup, List.mem_filter,
      decide_eq_true_eq] at hx
    exact hx.2 (h hx.1)

theorem wideningReasons_eq_nil {domains scopes : List String}
    (h : wideningReasons domains scopes = []) : domains = [] ∧ scopes = [] := by
  obtain ⟨hdomains, hscopes⟩ := List.append_eq_nil_iff.mp h
  constructor
  · by_contra hne
    rw [if_neg hne] at hdomains
    cases hdomains
  · by_contra hne
    rw [if_neg hne] at hscopes
    cases hscopes

theorem changed_eq_nil {old new : Dict} {key what : String}
    (h : changed lib old new key what = []) : (old.get key).eq (new.get key) = true := by
  by_contra hne
  rw [changed, if_neg hne] at h
  cases h

theorem breakingReasons_eq_nil {old new : Dict} {removedOps removedFields : List String}
    (h : breakingReasons lib old new removedOps removedFields = []) :
    (old.get "url").eq (new.get "url") = true ∧ (old.get "method").eq (new.get "method") = true ∧
      removedOps = [] ∧ removedFields = [] := by
  obtain ⟨h, hfields⟩ := List.append_eq_nil_iff.mp h
  obtain ⟨h, hops⟩ := List.append_eq_nil_iff.mp h
  obtain ⟨hurl, hmethod⟩ := List.append_eq_nil_iff.mp h
  refine ⟨changed_eq_nil hurl, changed_eq_nil hmethod, ?_, ?_⟩
  · by_contra hne
    rw [if_neg hne] at hops
    cases hops
  · by_contra hne
    rw [if_neg hne] at hfields
    cases hfields

theorem filterMap_of_asDict {xs : List Value} {ops : List Dict} (h : xs.mapM asDict = .ok ops) :
    xs.filterMap Value.dict? = ops := by
  have hall := forall₂_of_mapM_ok h
  clear h
  induction hall with
  | nil => rfl
  | @cons x op _ _ hx _ ih =>
    cases x with
    | dict d =>
      rw [← Except.ok.inj hx, ← ih]
      rfl
    | none | bool _ | int _ | float _ | str _ | list _ => cases hx

theorem asDict_str_fails {f : α → String} {xs : List α} {ops : List Dict} (hne : xs ≠ [])
    (h : (xs.map fun x => Value.str (f x)).mapM asDict = .ok ops) : False := by
  cases xs with
  | nil => exact hne rfl
  | cons x xs =>
    rw [List.map_cons, List.mapM_cons] at h
    cases h

theorem opIndex_ok {config : Dict} {names : List String} (h : opIndex lib config = .ok names) :
    names = (operationsOf config).filterMap (operationId? lib) := by
  have hids : ∀ ops : List Dict, (ops.filter fun op => (op.get "operation_id").truthy).map
      (fun op => lib.str (op.get "operation_id")) = ops.filterMap (operationId? lib) := by
    intro ops
    induction ops with
    | nil => rfl
    | cons op ops ih =>
      by_cases hop : (op.get "operation_id").truthy = true
      · rw [List.filter_cons, if_pos hop, List.map_cons, ih,
          List.filterMap_cons_some (by rw [operationId?, if_pos hop])]
      · rw [List.filter_cons, if_neg hop, ih,
          List.filterMap_cons_none (by rw [operationId?, if_neg hop])]
  rw [opIndex] at h
  rw [operationsOf]
  cases hvalue : config.get "operations" with
  | list xs =>
    rw [hvalue] at h
    by_cases hxs : xs = []
    · rw [hxs] at h
      cases h
      rw [hxs]
      rfl
    · rw [if_pos (by simp [Value.truthy, hxs])] at h
      obtain ⟨ops, hops, h⟩ := exists_of_bind_ok h
      cases h
      show _ = (xs.filterMap Value.dict?).filterMap _
      rw [filterMap_of_asDict hops]
      exact hids ops
  | dict items =>
    rw [hvalue] at h
    by_cases hitems : items = []
    · rw [hitems] at h
      cases h
      rfl
    · rw [if_pos (by simp [Value.truthy, hitems])] at h
      obtain ⟨ops, hops, -⟩ := exists_of_bind_ok h
      exact (asDict_str_fails hitems hops).elim
  | str s =>
    rw [hvalue] at h
    by_cases hs : s = ""
    · rw [hs] at h
      cases h
      rfl
    · rw [if_pos (by simp [Value.truthy, hs])] at h
      obtain ⟨ops, hops, -⟩ := exists_of_bind_ok h
      refine (asDict_str_fails ?_ hops).elim
      intro hnil
      exact hs (String.toList_eq_nil_iff.mp hnil)
  | none =>
    rw [hvalue] at h
    cases h
    rfl
  | bool b | int n | float q =>
    rw [hvalue] at h
    split at h
    · cases h
    · cases h
      rfl

theorem responseFields_ok {config : Dict} {fields : List Value}
    (h : responseFields config = .ok fields) : fields = fieldsOf config := by
  rw [responseFields] at h
  rw [fieldsOf]
  split at h
  · split at h
    · cases h
    · rename_i xs hxs
      split at h
      · cases h
        rw [hxs]
        rfl
      · cases h
  · rename_i hfalsy
    cases h
    cases hvalue : config.get "response_mapping" with
    | none | bool b | int n | float q => rfl
    | str s =>
      rw [hvalue] at hfalsy
      have hs : s = "" := by simpa [Value.truthy] using hfalsy
      rw [hs]
      rfl
    | list xs =>
      rw [hvalue] at hfalsy
      have hxs : xs = [] := by simpa [Value.truthy] using hfalsy
      rw [hxs]
      rfl
    | dict items =>
      rw [hvalue] at hfalsy
      have hitems : items = [] := by simpa [Value.truthy] using hfalsy
      rw [hitems]
      rfl

theorem removedFields_nil {old new : Dict} (h : removedFields old new = .ok []) :
    ∀ field ∈ fieldsOf old, field.elem (fieldsOf new) = true := by
  obtain ⟨before, hbefore, h⟩ := exists_of_bind_ok h
  obtain ⟨after, hafter, h⟩ := exists_of_bind_ok h
  obtain ⟨removed, hremoved, h⟩ := exists_of_bind_ok h
  have hnil : removed = [] := by
    refine List.eq_nil_iff_forall_not_mem.mpr fun x hx => ?_
    have hmem : x ∈ removed.dedup.insertionSort (· ≤ ·) := by simp [hx]
    rw [Except.ok.inj h] at hmem
    cases hmem
  rw [← responseFields_ok hbefore, ← responseFields_ok hafter]
  intro field hfield
  by_contra hgone
  have hmem : field ∈ before.filter fun field => !field.elem after :=
    List.mem_filter.mpr ⟨hfield, by simpa using hgone⟩
  obtain ⟨x, hx, -⟩ := mem_right_of_forall₂ (forall₂_of_mapM_ok hremoved) hmem
  rw [hnil] at hx
  cases hx

theorem classifyDrift_additive {old new : Dict} {asked asks : Requested} {reasons : List String}
    (h : classifyDrift lib old asked new asks = .ok (.additive, reasons)) :
    Additive lib old asked new asks := by
  rw [classifyDrift] at h
  split at h
  · cases h
  · rename_i hwidening
    obtain ⟨hdomains, hscopes⟩ := wideningReasons_eq_nil (not_not.mp hwidening)
    obtain ⟨oldOps, holdOps, h⟩ := exists_of_bind_ok h
    obtain ⟨newOps, hnewOps, h⟩ := exists_of_bind_ok h
    obtain ⟨removed, hremoved, h⟩ := exists_of_bind_ok h
    dsimp only at h
    split at h
    · cases h
    · rename_i hbreaking
      obtain ⟨hurl, hmethod, hops, hfields⟩ := breakingReasons_eq_nil (not_not.mp hbreaking)
      rw [hfields] at hremoved
      refine ⟨missing_eq_nil.mp hdomains, missing_eq_nil.mp hscopes, hurl, hmethod, ?_,
        removedFields_nil hremoved⟩
      intro op hop name hname
      have hmem : name ∈ oldOps := by
        rw [opIndex_ok holdOps]
        exact List.mem_filterMap.mpr ⟨op, hop, hname⟩
      have hkept := missing_eq_nil.mp hops hmem
      rw [opIndex_ok hnewOps] at hkept
      exact List.mem_filterMap.mp hkept

/-! ## one call -/

theorem step_cases (lib : Library) (s : State) (a : Action) :
    step lib s a = s ∨ perform lib s a = .ok (step lib s a) := by
  rw [step]
  split
  · rename_i t ht
    exact Or.inr ht
  · exact Or.inl rfl

theorem subsetOrRaise_ok {xs requested ys : List String} {what : String}
    (h : subsetOrRaise xs requested what = .ok ys) : ys = xs ∧ xs ⊆ requested := by
  rw [subsetOrRaise] at h
  split at h
  · cases h
  · rename_i hextra
    refine ⟨(Except.ok.inj h).symm, ?_⟩
    intro x hx
    by_contra hnot
    refine hextra fun hnil => ?_
    have hmem : x ∈ xs.filter (· ∉ requested) := by simp [hx, hnot]
    rw [hnil] at hmem
    cases hmem

theorem ticked_ok {requested granted : Requested} {domains scopes : List String}
    (h : ticked requested domains scopes = .ok granted) :
    granted = ⟨domains, scopes⟩ ∧ domains ⊆ requested.outboundDomains := by
  obtain ⟨grantedDomains, hdomains, hrest⟩ := exists_of_bind_ok h
  obtain ⟨grantedScopes, hscopes, hgranted⟩ := exists_of_bind_ok hrest
  obtain ⟨hsame, hsubset⟩ := subsetOrRaise_ok hdomains
  rw [(subsetOrRaise_ok hscopes).1, hsame] at hgranted
  split at hgranted
  · cases hgranted
  · cases hgranted
    exact ⟨rfl, hsubset⟩

theorem approveGrant_ok {s t : State} {domains scopes : List String} {now : Int}
    (h : approveGrant s domains scopes now = .ok t) :
    Untouched s t ∧ Approved s.grant.requested domains t ∧
      t.connector.grantedDomains = some domains ∧ t.connector.enabled = true := by
  obtain ⟨granted, hgranted, h⟩ := exists_of_bind_ok h
  obtain ⟨rfl, hsubset⟩ := ticked_ok hgranted
  cases h
  exact ⟨⟨rfl, rfl⟩, ⟨rfl, hsubset⟩, rfl, rfl⟩

theorem approveDrift_ok {s t : State} {domains scopes : List String} {now : Int}
    (h : approveDrift s domains scopes now = .ok t) :
    ∃ proposed, s.grant.proposed = some proposed ∧
      t.connector.config = proposed.config ∧ t.grant.requested = proposed.requested ∧
      Approved proposed.requested domains t ∧
      t.connector.grantedDomains = some domains ∧ t.connector.enabled = true := by
  rw [approveDrift] at h
  split at h
  · rename_i proposed hstatus hproposed
    obtain ⟨granted, hgranted, h⟩ := exists_of_bind_ok h
    obtain ⟨rfl, hsubset⟩ := ticked_ok hgranted
    cases h
    exact ⟨proposed, hproposed, rfl, rfl, ⟨rfl, hsubset⟩, rfl, rfl⟩
  · cases h

theorem rejectDrift_ok {s t : State} (h : rejectDrift s = .ok t) :
    Untouched s t ∧ lastApproved t.log = lastApproved s.log ∧ t.connector = s.connector := by
  rw [rejectDrift] at h
  split at h
  · cases h
    exact ⟨⟨rfl, rfl⟩, rfl, rfl⟩
  · cases h

theorem applyDescriptorDrift_ok {s t : State} {m : Manifest} {tier : Tier}
    (h : applyDescriptorDrift lib s m tier = .ok t) :
    (Untouched s t ∨ tier = .official ∧ Additive lib s.connector.config s.grant.requested
      t.connector.config t.grant.requested) ∧
      lastApproved t.log = lastApproved s.log ∧
      t.connector.grantedDomains = s.connector.grantedDomains ∧
      t.connector.enabled = s.connector.enabled := by
  rw [applyDescriptorDrift] at h
  split at h
  · cases h
    exact ⟨Or.inl ⟨rfl, rfl⟩, rfl, rfl, rfl⟩
  · obtain ⟨newConfig, -, h⟩ := exists_of_bind_ok h
    obtain ⟨⟨classification, reasons⟩, hdrift, h⟩ := exists_of_bind_ok h
    split at h
    · rename_i hauto
      obtain ⟨rfl, htier⟩ := hauto
      cases h
      exact ⟨Or.inr ⟨htier, classifyDrift_additive hdrift⟩, rfl, rfl, rfl⟩
    · cases h
      exact ⟨Or.inl ⟨rfl, rfl⟩, rfl, rfl, rfl⟩

/-! ## runs -/

/-- what the connector may reach is what was approved last -/
structure Tracks (s : State) : Prop where
  domains : s.connector.grantedDomains = lastApproved s.log
  enabled : s.connector.enabled = (lastApproved s.log).isSome

theorem Tracks.granted {s : State} (h : Tracks s) : Granted s := by
  constructor
  · intro henabled
    rw [← h.enabled, henabled]
  · intro domains hdomains
    rw [h.domains] at hdomains
    exact ⟨domains, hdomains, List.Subset.refl _⟩

theorem tracks_step (s : State) (a : Action) (h : Tracks s) : Tracks (step lib s a) := by
  rcases step_cases lib s a with hsame | hok
  · rw [hsame]
    exact h
  · revert hok
    generalize step lib s a = t
    intro hok
    cases a with
    | approveGrant domains scopes now =>
      obtain ⟨-, happroved, hdomains, henabled⟩ := approveGrant_ok hok
      exact ⟨by rw [hdomains, happroved.1], by rw [henabled, happroved.1]; rfl⟩
    | revokeGrant =>
      cases hok
      exact ⟨rfl, rfl⟩
    | applyDescriptorDrift m tier =>
      obtain ⟨-, hlast, hdomains, henabled⟩ := applyDescriptorDrift_ok hok
      exact ⟨by rw [hdomains, hlast, h.domains], by rw [henabled, hlast, h.enabled]⟩
    | approveDrift domains scopes now =>
      obtain ⟨proposed, -, -, -, happroved, hdomains, henabled⟩ := approveDrift_ok hok
      exact ⟨by rw [hdomains, happroved.1], by rw [henabled, happroved.1]; rfl⟩
    | rejectDrift =>
      obtain ⟨-, hlast, hconnector⟩ := rejectDrift_ok hok
      exact ⟨by rw [hconnector, hlast, h.domains], by rw [hconnector, hlast, h.enabled]⟩

theorem Untouched.of_eq {s t : State} (h : t = s) : Untouched s t := by
  rw [h]
  exact ⟨rfl, rfl⟩

theorem reviewed_step (s : State) (a : Action) : Reviewed lib s a := by
  cases a with
  | approveGrant domains scopes now =>
    rcases step_cases lib s (.approveGrant domains scopes now) with hsame | hok
    · exact ⟨.of_eq hsame, Or.inl hsame⟩
    · obtain ⟨huntouched, happroved, -⟩ := approveGrant_ok hok
      exact ⟨huntouched, Or.inr happroved⟩
  | revokeGrant => exact ⟨rfl, rfl⟩
  | applyDescriptorDrift m tier =>
    rcases step_cases lib s (.applyDescriptorDrift m tier) with hsame | hok
    · exact Or.inl (.of_eq hsame)
    · exact (applyDescriptorDrift_ok hok).1
  | approveDrift domains scopes now =>
    rcases step_cases lib s (.approveDrift domains scopes now) with hsame | hok
    · exact Or.inl hsame
    · obtain ⟨proposed, hproposed, hconfig, hrequested, happroved, -⟩ := approveDrift_ok hok
      exact Or.inr ⟨proposed, hproposed, hconfig, hrequested, happroved⟩
  | rejectDrift =>
    rcases step_cases lib s .rejectDrift with hsame | hok
    · exact .of_eq hsame
    · exact (rejectDrift_ok hok).1

theorem tracks_install {m : Manifest} {s : State} (h : install lib m = .ok s) : Tracks s := by
  obtain ⟨config, -, h⟩ := exists_of_bind_ok h
  cases h
  exact ⟨rfl, rfl⟩

theorem reaches_granted {m : Manifest} {s : State} (h : install lib m = .ok s)
    (as : List Action) :
    Always (step lib) Granted s as ∧ Along (step lib) (Reviewed lib) s as := by
  constructor
  · intro bs cs _
    exact (exec_inv' (I := Tracks) tracks_step bs (tracks_install h)).granted
  · exact along_of_inv (I := Tracks) tracks_step (fun s a _ => reviewed_step s a) as
      (tracks_install h)

/-! ## a publisher's update -/

def weatherOperation (url : String) : Value :=
  .dict [("operation_id", .str "today"), ("url", .str url)]

def weatherTemplate (headers response operations : Value) (auth body : String) : Value := .dict [
  ("method", .str "POST"), ("url", .str "https://api.example.com/today"), ("headers", headers),
  ("auth_type", .str auth), ("body_template", .str body), ("response_mapping", response),
  ("operations", operations)]

/-- the second descriptor has the same url and method, and keeps the operation's id -/
def weatherLibrary : Library where
  str := fun _ => "today"
  upper := id
  loads := fun text =>
    if text = "1.0.0" then
      .ok (weatherTemplate (.dict []) (.dict [("t", .str "data.t")])
        (.list [weatherOperation "/today"]) "none" "city")
    else
      .ok (weatherTemplate (.dict [("x-forward", .str "all")])
        (.dict [("t", .str "data.t"), ("raw", .str "data")])
        (.list [weatherOperation "/export"]) "bearer" "city and case")
  safeLoad := fun _ => none

def weatherManifest (domains : List String) (version : String) : Manifest :=
  ⟨domains, [], some version, version, some .connectorTemplate⟩

def weatherRun : List Action := [
  .approveGrant ["api.example.com", "cdn.example.com"] [] 0,
  .applyDescriptorDrift (weatherManifest ["api.example.com"] "2.0.0") .official]

def weatherInstalled : State where
  grant := ⟨⟨["api.example.com", "cdn.example.com"], []⟩, none, none, .pending, none,
    some "1.0.0", some .connectorTemplate, 1⟩
  connector := ⟨configOf weatherLibrary [("headers", .dict []), ("auth_type", .str "none"),
    ("body_template", .str "city"), ("response_mapping", .dict [("t", .str "data.t")])]
    (.str "https://api.example.com/today") (.list [weatherOperation "/today"]), none, false⟩
  log := []

theorem weather_installed : install weatherLibrary
    (weatherManifest ["api.example.com", "cdn.example.com"] "1.0.0") = .ok weatherInstalled := rfl

theorem granted_weather :
    Always (step weatherLibrary) Granted weatherInstalled weatherRun ∧
      Along (step weatherLibrary) (Reviewed weatherLibrary) weatherInstalled weatherRun :=
  reaches_granted weather_installed weatherRun

/-- the granted domains are among those that are requested now -/
def WithinRequested (s : State) : Prop :=
  ∀ domains, s.connector.grantedDomains = some domains →
    domains ⊆ s.grant.requested.outboundDomains

structure LeftAsWas (old new : Dict) : Prop where
  active : ∀ key ∈ ["url", "method", "headers", "auth_type", "body_template", "response_mapping"],
    (old.get key).eq (new.get key) = true
  operations : operationsOf old ⊆ operationsOf new

/-- what is applied without an approval leaves the integration as it was -/
def DriftHarmless (lib : Library) (s : State) : Action → Prop
  | .applyDescriptorDrift m tier =>
    let t := step lib s (.applyDescriptorDrift m tier)
    Untouched s t ∨ LeftAsWas s.connector.config t.connector.config
  | .approveGrant _ _ _ | .revokeGrant | .approveDrift _ _ _ | .rejectDrift => True

theorem not_always_reviewed :
    install weatherLibrary (weatherManifest ["api.example.com", "cdn.example.com"] "1.0.0") =
        .ok weatherInstalled ∧
      ¬ Always (step weatherLibrary) WithinRequested weatherInstalled weatherRun ∧
      ¬ Along (step weatherLibrary) (DriftHarmless weatherLibrary) weatherInstalled weatherRun ∧
      (∀ key ∈ ["headers", "auth_type", "body_template", "response_mapping"],
        (weatherInstalled.connector.config.get key).eq
          ((exec (step weatherLibrary) weatherInstalled weatherRun).connector.config.get key) =
            false) ∧
      ¬ operationsOf weatherInstalled.connector.config ⊆
        operationsOf (exec (step weatherLibrary) weatherInstalled weatherRun).connector.config := by
  refine ⟨weather_installed, ?_, ?_, by decide +kernel, by decide +kernel⟩
  · intro h
    have hdomains :
        (exec (step weatherLibrary) weatherInstalled weatherRun).connector.grantedDomains =
          some ["api.example.com", "cdn.example.com"] := by decide +kernel
    have hrequested :
        (exec (step weatherLibrary) weatherInstalled weatherRun).grant.requested.outboundDomains =
          ["api.example.com"] := by decide +kernel
    have hwithin := h weatherRun [] rfl _ hdomains
    rw [hrequested] at hwithin
    exact absurd hwithin (by decide)
  · intro h
    rcases h.2.1 with huntouched | hleft
    · exact absurd huntouched.1 (by decide +kernel)
    · exact absurd (hleft.active "headers" (by simp)) (by decide +kernel)

end Marketplace
