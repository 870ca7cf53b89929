import Velaris.CaseVars.Kept
import Velaris.Base.Run

/-!
# What a reader of case variables sees

* `Guarded`   the reader is not to see the value, by the row it was written under;
* `Sealed`   no read gives such a value in clear;
* `lookup_readRows`   what stands under the key of a variable, and under its bare name;
* `sealed_iff`   exactly when a read is sealed;
* `sealed_of_names`   so where no two namespaces have one name, every read is.
-/

namespace CaseVars

open Py Base

/-! ## what is promised -/

def Db.rowOf (db : Db) (v : Variable) : Option Namespace := db.namespaces.find? v.under

/-- the reader neither owns that row nor is privileged enough -/
def Guarded (db : Db) (ctx : CallerContext) (v : Variable) : Bool :=
  (db.rowOf v).any fun n =>
    hides (effectiveSensitivity n (db.definitionOf v)) ctx (owns db.namespaces ctx n)

/-- the keys under which a read gives the value of the variable -/
def Answers (db : Db) (scans : Scans) (r : Read) (v : Variable) (key : String) : Prop :=
  key = v.fullKey ∨ (r.blobs = true ∧ (key, v.fullKey) ∈ db.promotedOf scans v.caseId)

def Sealed (db : Db) (scans : Scans) (r : Read) : Prop :=
  ∀ v ∈ db.values, v.caseId ∈ r.caseIds → Guarded db r.ctx v = true →
    ∀ key, Answers db scans r v key → ∀ x, (db.readRows scans r v.caseId).lookup key = some x →
      x = masked

def Read.reads (r : Read) (v : Variable) : Bool := r.within ≠ some "velaris" && r.selects v

/-- the row that answers to the name, whosever it is, has the value masked -/
def covered (db : Db) (scans : Scans) (ctx : CallerContext) (v : Variable) : Bool :=
  (db.answering scans (namespaceOf v.fullKey)).any fun n =>
    hides (effectiveSensitivity n (db.definitionOf v)) ctx
      (db.ownedName ctx (namespaceOf v.fullKey))

/-! ## the name of the row -/

theorem dotfree_of_matchesName {name : String} (h : matchesName name = true) :
    '.' ∉ name.toList := by
  intro hdot
  rw [matchesName] at h
  rcases hname : name.toList with _ | ⟨c, cs⟩
  · rw [hname] at hdot
    cases hdot
  · rw [hname] at h hdot
    dsimp only at h
    obtain ⟨hstart, hchars⟩ := Bool.and_eq_true_iff.mp h
    obtain ⟨hc, -⟩ := Bool.and_eq_true_iff.mp hstart
    rcases List.mem_cons.mp hdot with rfl | hdot
    · exact absurd hc (by decide)
    · rw [List.all_eq_true] at hchars
      refine absurd (hchars '.' ?_) (by decide)
      split
      · -- the newline at the end is no dot
        rename_i hlast
        rcases List.eq_nil_or_concat cs with rfl | ⟨cs', d, rfl⟩
        · cases hdot
        · rw [List.concat_eq_append, List.getLast?_append, List.getLast?_singleton] at hlast
          obtain rfl : d = '\n' := Option.some.inj hlast
          rw [List.concat_eq_append, List.mem_append] at hdot
          rw [List.concat_eq_append, List.dropLast_concat]
          exact hdot.resolve_right fun hmem => absurd (List.mem_singleton.mp hmem) (by decide)
      · exact hdot

theorem namespaceOf_fullKeyOf {R : Registry} {n : Namespace} (hn : n ∈ R.rows) (name : String) :
    namespaceOf (fullKeyOf n name) = n.name := by
  have hdotfree := dotfree_of_matchesName (R.lawful n hn).1
  have htake : (n.name.toList ++ ('.' :: name.toList)).takeWhile (· ≠ '.') = n.name.toList := by
    rw [List.takeWhile_append_of_pos fun c hc => ?_]
    · simp
    · exact decide_eq_true fun hdot => hdotfree (hdot ▸ hc)
  have hchars : (fullKeyOf n name).toList = n.name.toList ++ ('.' :: name.toList) := by
    simp [fullKeyOf]
  rw [namespaceOf, hchars, htake, String.ofList_toList]

theorem Inv.nodup_keys {db : Db} (h : Inv db) (r : Read) (caseId : Uuid) :
    (((db.values.filter r.selects).filter fun w => w.caseId = caseId).map
      Variable.fullKey).Nodup := by
  rw [List.filter_filter]
  refine List.Nodup.of_map (fun key => (caseId, key)) ?_
  have hsame : ((db.values.filter fun w => decide (w.caseId = caseId) && r.selects w).map
      Variable.fullKey).map (fun key => (caseId, key)) =
      (db.values.filter fun w => decide (w.caseId = caseId) && r.selects w).map
        Variable.key := by
    rw [List.map_map]
    refine List.map_congr_left fun w hw => ?_
    have hcase := of_decide_eq_true (Bool.and_eq_true_iff.mp (List.mem_filter.mp hw).2).1
    show (caseId, w.fullKey) = w.key
    rw [Variable.key, hcase]
  rw [hsame]
  exact h.keys.sublist (List.filter_sublist.map _)

section
variable {db : Db} (scans : Scans) {r : Read} (h : Inv db) {v : Variable} (hv : v ∈ db.values)
include h hv

/-- the row it was written under has the name that its key begins with -/
theorem Inv.rowOf : ∃ n ∈ db.namespaces.rows, db.rowOf v = some n ∧
    n.name = namespaceOf v.fullKey ∧ n.name ≠ "velaris" := by
  obtain ⟨n, hn, hid, hname, name, hkey⟩ := h.written v hv
  refine ⟨n, hn, ?_, ?_, hname⟩
  · rw [Db.rowOf, Registry.find?, find?_key_iff db.namespaces.ids]
    exact ⟨hn, hid⟩
  · rw [hkey, namespaceOf_fullKeyOf hn]

theorem Inv.dotted_key : '.' ∈ v.fullKey.toList := by
  obtain ⟨n, -, -, -, name, hkey⟩ := h.written v hv
  rw [hkey]
  exact dotted_fullKeyOf n name

theorem Inv.answering : ∃ n, db.answering scans (namespaceOf v.fullKey) = some n := by
  obtain ⟨n, hn, -, hname, -⟩ := h.rowOf hv
  rw [Db.answering, ← Option.isSome_iff_exists, List.getLast?_isSome]
  have hscan : n ∈ scans.namespaces.order db.namespaces.rows :=
    (scans.namespaces.perm _).mem_iff.mpr hn
  exact List.ne_nil_of_mem (List.mem_filter.mpr ⟨hscan, decide_eq_true hname⟩)

theorem Inv.key_ne {w : Variable} (hw : w ∈ db.values) (hcase : w.caseId = v.caseId)
    (hne : w ≠ v) : v.fullKey ≠ w.fullKey := by
  intro hsame
  refine hne (List.inj_on_of_nodup_map h.keys hw hv ?_)
  rw [Variable.key, Variable.key, hcase, hsame]

/-! ## the result of a read -/

theorem Inv.not_source : v.fullKey ∉ (db.promotedOf scans v.caseId).map Prod.fst := by
  intro hmem
  obtain ⟨p, hp, hkey⟩ := List.mem_map.mp hmem
  obtain ⟨d, hd, hsource, -⟩ := (sources_promotedOf db scans v.caseId).source p hp
  refine (h.keyed d hd).bare p.1 hsource ?_
  rw [hkey]
  exact h.dotted_key hv

theorem lookup_readRows (hreads : r.reads v = true) {key : String}
    (hkey : Answers db scans r v key) :
    ∃ n, db.answering scans (namespaceOf v.fullKey) = some n ∧
      (db.readRows scans r v.caseId).lookup key =
        some (redactValue v.value (effectiveSensitivity n (db.definitionOf v)) r.ctx
          (db.ownedName r.ctx (namespaceOf v.fullKey))) := by
  obtain ⟨hwithin, hselects⟩ := Bool.and_eq_true_iff.mp hreads
  obtain ⟨n, hn⟩ := h.answering scans hv
  refine ⟨n, hn, ?_⟩
  have hrow : v ∈ db.values.filter r.selects := List.mem_filter.mpr ⟨hv, hselects⟩
  have hmine : v ∈ (db.values.filter r.selects).filter fun w => w.caseId = v.caseId :=
    List.mem_filter.mpr ⟨hrow, decide_eq_true rfl⟩
  have htyped : ∀ bare : Dict,
      (((db.values.filter r.selects).filter fun w => w.caseId = v.caseId).foldl
        (db.typed scans r) bare).lookup v.fullKey = _ :=
    fun bare => lookup_foldl_typed (h.nodup_keys r v.caseId) hmine hn
  rw [Db.readRows]
  dsimp only
  rw [if_neg (of_decide_eq_true hwithin), if_neg (List.ne_nil_of_mem hrow)]
  rcases hkey with rfl | ⟨hblobs, hsource⟩
  · split
    · rw [lookup_bareNames_of_ne (h.not_source scans hv)]
      exact htyped _
    · exact htyped _
  · rw [if_pos hblobs]
    exact lookup_bareNames (sources_promotedOf db scans v.caseId).nodup hsource
      (h.not_source scans hv) (htyped _)

theorem lookup_of_not_reads (hcase : v.caseId ∈ r.caseIds) (hreads : r.reads v = false)
    {key : String} (hkey : Answers db scans r v key) :
    (db.readRows scans r v.caseId).lookup key = none := by
  obtain ⟨n, hn, -, hname, hvelaris⟩ := h.rowOf hv
  -- a read of everything reads it
  obtain ⟨name, hwithin⟩ : ∃ name, r.within = some name := by
    refine Option.ne_none_iff_exists'.mp fun hnone => ?_
    have hall : r.reads v = true := by
      simp [Read.reads, Read.selects, hnone, hcase]
    rw [hreads] at hall
    cases hall
  have hblobs : r.blobs = false := by
    simp [Read.blobs, hwithin]
  obtain rfl : key = v.fullKey := by
    refine hkey.resolve_right fun hbare => ?_
    rw [hblobs] at hbare
    exact Bool.noConfusion hbare.1
  rw [Db.readRows]
  dsimp only
  by_cases hprojected : r.within = some "velaris"
  · rw [if_pos hprojected, hprojected, if_pos (by decide), Db.projection]
    have hother : ∀ field, namespaceOf field = "velaris" → v.fullKey ≠ field := by
      rintro field hfield rfl
      exact hvelaris (hname.trans hfield)
    have hfields : ∀ field ∈ ["velaris.status", "velaris.priority", "velaris.stage",
        "velaris.case_number", "velaris.created_by"], namespaceOf field = "velaris" := by
      decide +kernel
    split
    · rw [List.lookup_eq_none_iff]
      intro p hp
      refine bne_iff_ne.mpr (hother p.1 ?_)
      refine hfields p.1 ?_
      simp only [List.mem_cons, List.not_mem_nil, or_false] at hp
      rcases hp with rfl | rfl | rfl | rfl | rfl <;> simp
    · rfl
  · have hselects : r.selects v = false := by
      rw [Read.reads, decide_eq_true hprojected, Bool.true_and] at hreads
      exact hreads
    have hempty : r.within ∉ [none, some "velaris"] := by
      rw [hwithin] at hprojected ⊢
      simpa using fun heq => hprojected (congrArg some heq)
    rw [if_neg hprojected, hblobs, if_neg hempty]
    split
    · rfl
    · rw [if_neg Bool.false_ne_true, if_neg Bool.false_ne_true]
      rw [lookup_foldl_typed_of_ne fun w hw => ?_]
      · rfl
      · obtain ⟨hw, hwcase⟩ := List.mem_filter.mp hw
        obtain ⟨hw, hwselects⟩ := List.mem_filter.mp hw
        refine h.key_ne hv hw (of_decide_eq_true hwcase) ?_
        rintro rfl
        rw [hselects] at hwselects
        cases hwselects

end

/-! ## exactly when a read is sealed -/

theorem sealed_iff_of_inv {db : Db} (scans : Scans) (r : Read) (h : Inv db) :
    Sealed db scans r ↔ ∀ v ∈ db.values, r.reads v = true → Guarded db r.ctx v = true →
      covered db scans r.ctx v = true ∨ v.value = masked := by
  constructor
  · intro hsealed v hv hreads hguarded
    have hcase : v.caseId ∈ r.caseIds :=
      of_decide_eq_true (Bool.and_eq_true_iff.mp (Bool.and_eq_true_iff.mp hreads).2).1
    obtain ⟨n, hn, hlookup⟩ := lookup_readRows scans h hv hreads (Or.inl rfl)
    have hmasked := hsealed v hv hcase hguarded v.fullKey (Or.inl rfl) _ hlookup
    rw [redactValue_eq] at hmasked
    rw [covered, hn, Option.any_some]
    split at hmasked
    · exact Or.inl ‹_›
    · exact Or.inr hmasked
  · intro hcovered v hv hcase hguarded key hkey x hx
    cases hreads : r.reads v with
    | false =>
      rw [lookup_of_not_reads scans h hv hcase hreads hkey] at hx
      cases hx
    | true =>
      obtain ⟨n, hn, hlookup⟩ := lookup_readRows scans h hv hreads hkey
      rw [hlookup, redactValue_eq] at hx
      obtain rfl := Option.some.inj hx
      rcases hcovered v hv hreads hguarded with hhides | hvalue
      · rw [covered, hn, Option.any_some] at hhides
        rw [if_pos hhides]
      · rw [hvalue]
        split <;> rfl

theorem sealed_iff (env : Env) (scan : Scan Namespace) (R : Registry) (cases : List Case)
    (as : List Action) (scans : Scans) (r : Read) :
    Sealed (exec (step env scan) (start R cases) as) scans r ↔
      ∀ v ∈ (exec (step env scan) (start R cases) as).values, r.reads v = true →
        Guarded (exec (step env scan) (start R cases) as) r.ctx v = true →
        covered (exec (step env scan) (start R cases) as) scans r.ctx v = true ∨
          v.value = masked := by
  have hinv : Inv (exec (step env scan) (start R cases) as) :=
    exec_inv' (I := Inv) (fun _ a h => inv_step env scan h a) as (inv_start R cases)
  exact sealed_iff_of_inv scans r hinv

def oneCase : Db :=
  start ⟨[], List.nodup_nil, List.nodup_nil, fun _ hn => absurd hn List.not_mem_nil⟩
    [⟨7, 5, .dict [], .str "new", .str "medium", .none, .str "C-7", .str "alice"⟩]

def plainEnv : Env := ⟨id, fun _ => true, some⟩

def inOrder (ρ : Type) : Scan ρ := ⟨id, fun _ => List.Perm.refl _⟩

/-- two tenants name their namespaces alike, and the integration of the first writes a secret -/
def twoCrms : List Action :=
  [.registerConnectorNamespace ⟨1, "crm", .connector, some 11, .secret, some "acme"⟩,
    .registerConnectorNamespace ⟨2, "crm", .connector, some 12, .internal, some "globex"⟩,
    .setVariable { kind := .connector, ref := some 11, tenantId := some "acme" } 7 "token"
      (.str "s3cret")]

/-- an operator of the first tenant reads the secret -/
theorem not_always_sealed : ¬∀ (env : Env) (scan : Scan Namespace) (R : Registry)
    (cases : List Case) (as : List Action) (scans : Scans) (r : Read),
    Sealed (exec (step env scan) (start R cases) as) scans r := by
  intro h
  have hsealed := h plainEnv (inOrder _) oneCase.namespaces oneCase.cases twoCrms
    ⟨inOrder _, inOrder _⟩ ⟨{ kind := .other "operator", tenantId := some "acme" }, [7], none, true⟩
  have hmasked := hsealed ⟨7, "crm.token", { text := some "s3cret" }, "crm:system", 1⟩
    (by decide +kernel) (by decide +kernel) (by decide +kernel) "crm.token" (Or.inl rfl)
    (.str "s3cret") (by decide +kernel)
  exact absurd hmasked (by decide)

end CaseVars
