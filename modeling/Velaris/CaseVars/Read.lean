import Velaris.CaseVars.Store

/-!
# Reading case variables

`_read_rows` of `case_service/case_vars/service.py`.

* `redactValue`   `_redact_value`, and `hides`, when it masks;
* `Db.readRows`   what a reader gets of a case;
* `lookup_readRows`   under the key of a variable;
* `lookup_readRows_alias`   and under the bare name of a promoted one.
-/

namespace CaseVars

open Py Base

def masked : Value := .str "***"

def redactValue (value : Value) (s : Sensitivity) (ctx : CallerContext) (isOwner : Bool) : Value :=
  match s with
  | .secret => if isOwner then value else masked
  | .pii => if ctx.privileged || isOwner then value else masked
  | .public | .internal => value

def hides (s : Sensitivity) (ctx : CallerContext) (isOwner : Bool) : Bool :=
  match s with
  | .secret => !isOwner
  | .pii => !(ctx.privileged || isOwner)
  | .public | .internal => false

theorem redactValue_eq (value : Value) (s : Sensitivity) (ctx : CallerContext) (isOwner : Bool) :
    redactValue value s ctx isOwner = if hides s ctx isOwner then masked else value := by
  cases s with
  | secret => cases isOwner <;> rfl
  | pii =>
    rw [redactValue, hides]
    cases ctx.privileged || isOwner <;> rfl
  | _ => rfl

/-! ## what is asked for -/

structure Read where
  ctx : CallerContext
  caseIds : List Uuid
  within : Option String := none
  includeBlob : Bool := true

/-- `text LIKE pattern` -/
def like : List Char → List Char → Bool
  | [], text => text.isEmpty
  | '%' :: pattern, text => text.tails.any (like pattern)
  | '\\' :: c :: pattern, text =>
    match text with
    | [] => false
    | d :: text => d == c && like pattern text
  | '_' :: pattern, text =>
    match text with
    | [] => false
    | _ :: text => like pattern text
  | c :: pattern, text =>
    match text with
    | [] => false
    | d :: text => d == c && like pattern text

def Read.selects (r : Read) (v : Variable) : Bool :=
  decide (v.caseId ∈ r.caseIds) &&
    match r.within with
    | some name => name == "" || like (name ++ ".%").toList v.fullKey.toList
    | none => true

def Read.blobs (r : Read) : Bool := r.includeBlob && r.within.isNone

structure Scans where
  namespaces : Scan Namespace
  definitions : Scan Definition

/-- `full_key.split(".", 1)[0]` -/
def namespaceOf (fullKey : String) : String :=
  String.ofList (fullKey.toList.takeWhile (· ≠ '.'))

namespace Db

variable (db : Db) (scans : Scans) (r : Read)

/-- `VELARIS_PROJECTION` -/
def projection (caseId : Uuid) : Dict :=
  match db.case? caseId with
  | some c =>
    [("velaris.status", c.status), ("velaris.priority", c.priority),
      ("velaris.stage", c.currentStageId), ("velaris.case_number", c.caseNumber),
      ("velaris.created_by", c.createdBy)]
  | none => []

/-- `d[src] = full_key` -/
def setSource (src fullKey : String) : List (String × String) → List (String × String)
  | [] => [(src, fullKey)]
  | p :: ps => if p.1 = src then (src, fullKey) :: ps else p :: setSource src fullKey ps

def addSource (caseType : Uuid) (ps : List (String × String)) (d : Definition) :
    List (String × String) :=
  match d.promotedSource with
  | some src => if d.caseType = caseType then setSource src d.fullKey ps else ps
  | none => ps

/-- `promoted_by_ct.get(case_type, {})` -/
def promoted (caseType : Uuid) : List (String × String) :=
  (scans.definitions.order db.definitions).foldl (addSource caseType) []

def promotedOf (caseId : Uuid) : List (String × String) :=
  match db.case? caseId with
  | some c => db.promoted scans c.caseType
  | none => []

def surfaced (caseId : Uuid) : Dict :=
  match (db.case? caseId).bind fun c => c.data.dict? with
  | some blob =>
    blob.filter fun p => '.' ∉ p.1.toList ∧ p.1 ∉ (db.promotedOf scans caseId).map Prod.fst
  | none => []

/-- `ns_by_name.get(name)`: of several rows of one name the last -/
def answering (name : String) : Option Namespace :=
  ((scans.namespaces.order db.namespaces.rows).filter fun n => n.name = name).getLast?

/-- `name in owned_ns` -/
def ownedName (ctx : CallerContext) (name : String) : Bool :=
  match ctx.kind with
  | .connector | .devconn =>
    ctx.ref.any fun ref => db.namespaces.rows.any fun n => n.name = name ∧ n.boundTo ref
  | .form | .portal => name = ctx.kind.text
  | .platform | .other _ => false

/-- `def_by_key.get((case_type, full_key))` -/
def definitionOf (v : Variable) : Option Definition :=
  (db.case? v.caseId).bind fun c => db.definition? c.caseType v.fullKey

def typed (out : Dict) (v : Variable) : Dict :=
  match db.answering scans (namespaceOf v.fullKey) with
  | none => out
  | some n =>
    out.set v.fullKey (redactValue v.value (effectiveSensitivity n (db.definitionOf v)) r.ctx
      (db.ownedName r.ctx (namespaceOf v.fullKey)))

def bareName (out : Dict) (p : String × String) : Dict :=
  match out.lookup p.2 with
  | some value => out.set p.1 value
  | none => out

/-- `_read_rows`, of one of the cases -/
def readRows (caseId : Uuid) : Dict :=
  let projected := if r.within ∈ [none, some "velaris"] then db.projection caseId else []
  if r.within = some "velaris" then projected
  else
    let bare := if r.blobs then projected.update (db.surfaced scans caseId) else projected
    let rows := db.values.filter r.selects
    if rows = [] then bare
    else
      let out := (rows.filter fun v => v.caseId = caseId).foldl (db.typed scans r) bare
      if r.blobs then (db.promotedOf scans caseId).foldl bareName out else out

end Db

/-! ## the keys of the result -/

section
variable {db : Db} {scans : Scans} {r : Read}

theorem lookup_typed (out : Dict) (v : Variable) (key : String) (hkey : key ≠ v.fullKey) :
    (db.typed scans r out v).lookup key = out.lookup key := by
  rw [Db.typed]
  split
  · rfl
  · rw [Dict.lookup_set, if_neg hkey]

theorem lookup_foldl_typed_of_ne {vs : List Variable} {out : Dict} {key : String}
    (h : ∀ v ∈ vs, key ≠ v.fullKey) :
    (vs.foldl (db.typed scans r) out).lookup key = out.lookup key := by
  induction vs generalizing out with
  | nil => rfl
  | cons v vs ih =>
    rw [List.foldl_cons, ih fun w hw => h w (List.mem_cons_of_mem v hw)]
    exact lookup_typed out v key (h v List.mem_cons_self)

theorem lookup_foldl_typed {vs : List Variable} {out : Dict} {v : Variable} {n : Namespace}
    (hkeys : (vs.map Variable.fullKey).Nodup) (hv : v ∈ vs)
    (hn : db.answering scans (namespaceOf v.fullKey) = some n) :
    (vs.foldl (db.typed scans r) out).lookup v.fullKey =
      some (redactValue v.value (effectiveSensitivity n (db.definitionOf v)) r.ctx
        (db.ownedName r.ctx (namespaceOf v.fullKey))) := by
  induction vs generalizing out with
  | nil => cases hv
  | cons w vs ih =>
    obtain ⟨hnew, hkeys⟩ := List.nodup_cons.mp hkeys
    rw [List.foldl_cons]
    rcases List.mem_cons.mp hv with rfl | hv
    · have hlater : ∀ w ∈ vs, v.fullKey ≠ w.fullKey := by
        intro w hw hsame
        rw [hsame] at hnew
        exact hnew (List.mem_map_of_mem hw)
      rw [lookup_foldl_typed_of_ne hlater, Db.typed, hn]
      dsimp only
      rw [Dict.lookup_set, if_pos rfl]
    · exact ih hkeys hv

theorem lookup_bareName (out : Dict) (p : String × String) (key : String) (hkey : key ≠ p.1) :
    (Db.bareName out p).lookup key = out.lookup key := by
  rw [Db.bareName]
  split
  · rw [Dict.lookup_set, if_neg hkey]
  · rfl

theorem lookup_bareNames_of_ne {ps : List (String × String)} {out : Dict} {key : String}
    (h : key ∉ ps.map Prod.fst) : (ps.foldl Db.bareName out).lookup key = out.lookup key := by
  induction ps generalizing out with
  | nil => rfl
  | cons p ps ih =>
    rw [List.map_cons, List.mem_cons, not_or] at h
    rw [List.foldl_cons, ih h.2, lookup_bareName out p key h.1]

theorem lookup_bareNames {ps : List (String × String)} {out : Dict} {src fullKey : String}
    {value : Value} (hsources : (ps.map Prod.fst).Nodup) (hp : (src, fullKey) ∈ ps)
    (hkey : fullKey ∉ ps.map Prod.fst) (hvalue : out.lookup fullKey = some value) :
    (ps.foldl Db.bareName out).lookup src = some value := by
  induction ps generalizing out with
  | nil => cases hp
  | cons p ps ih =>
    obtain ⟨hnew, hsources⟩ := List.nodup_cons.mp hsources
    rw [List.map_cons, List.mem_cons, not_or] at hkey
    rw [List.foldl_cons]
    rcases List.mem_cons.mp hp with rfl | hp
    · rw [lookup_bareNames_of_ne hnew, Db.bareName, hvalue]
      dsimp only
      rw [Dict.lookup_set, if_pos rfl]
    · refine ih hsources hp hkey.2 ?_
      rw [lookup_bareName out p fullKey hkey.1]
      exact hvalue

/-! ## the promoted keys -/

theorem mem_setSource {ps : List (String × String)} {src fullKey : String} {p : String × String}
    (h : p ∈ Db.setSource src fullKey ps) : p = (src, fullKey) ∨ p ∈ ps := by
  induction ps with
  | nil => exact Or.inl (List.mem_singleton.mp h)
  | cons q ps ih =>
    rw [Db.setSource] at h
    split at h
    · rcases List.mem_cons.mp h with h | h
      · exact Or.inl h
      · exact Or.inr (List.mem_cons_of_mem q h)
    · rcases List.mem_cons.mp h with h | h
      · rw [h]
        exact Or.inr List.mem_cons_self
      · exact (ih h).imp_right (List.mem_cons_of_mem q)

theorem nodup_setSource {ps : List (String × String)} (src fullKey : String)
    (h : (ps.map Prod.fst).Nodup) : ((Db.setSource src fullKey ps).map Prod.fst).Nodup := by
  induction ps with
  | nil => exact List.nodup_singleton src
  | cons q ps ih =>
    obtain ⟨hnew, hrest⟩ := List.nodup_cons.mp h
    rw [Db.setSource]
    split
    · rename_i hsame
      rw [← hsame]
      exact List.nodup_cons.mpr ⟨hnew, hrest⟩
    · rename_i hother
      refine List.nodup_cons.mpr ⟨fun hmem => ?_, ih hrest⟩
      obtain ⟨p, hp, hpq⟩ := List.mem_map.mp hmem
      rcases mem_setSource hp with rfl | hp
      · exact hother hpq.symm
      · exact hnew (hpq ▸ List.mem_map_of_mem hp)

structure Sources (definitions : List Definition) (ps : List (String × String)) : Prop where
  nodup : (ps.map Prod.fst).Nodup
  source : ∀ p ∈ ps, ∃ d ∈ definitions, d.promotedSource = some p.1 ∧ d.fullKey = p.2

theorem Sources.add {definitions : List Definition} {ps : List (String × String)}
    (h : Sources definitions ps) (caseType : Uuid) {d : Definition} (hd : d ∈ definitions) :
    Sources definitions (Db.addSource caseType ps d) := by
  rw [Db.addSource]
  split
  · rename_i src hsrc
    split
    · refine ⟨nodup_setSource src d.fullKey h.nodup, fun p hp => ?_⟩
      rcases mem_setSource hp with rfl | hp
      · exact ⟨d, hd, hsrc, rfl⟩
      · exact h.source p hp
    · exact h
  · exact h

theorem sources_promoted (db : Db) (scans : Scans) (caseType : Uuid) :
    Sources db.definitions (db.promoted scans caseType) := by
  have hfold : ∀ (ds : List Definition) (ps : List (String × String)),
      (∀ d ∈ ds, d ∈ db.definitions) → Sources db.definitions ps →
      Sources db.definitions (ds.foldl (Db.addSource caseType) ps) := by
    intro ds
    induction ds with
    | nil => exact fun ps _ hps => hps
    | cons d ds ih =>
      intro ps hds hps
      rw [List.foldl_cons]
      exact ih _ (fun e he => hds e (List.mem_cons_of_mem d he))
        (hps.add caseType (hds d List.mem_cons_self))
  refine hfold _ _ (fun d hd => ?_) ⟨List.nodup_nil, fun _ hp => absurd hp List.not_mem_nil⟩
  exact (scans.definitions.perm db.definitions).mem_iff.mp hd

theorem sources_promotedOf (db : Db) (scans : Scans) (caseId : Uuid) :
    Sources db.definitions (db.promotedOf scans caseId) := by
  rw [Db.promotedOf]
  split
  · exact sources_promoted db scans _
  · exact ⟨List.nodup_nil, fun _ hp => absurd hp List.not_mem_nil⟩

end

end CaseVars
