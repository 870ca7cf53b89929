import Velaris.HxDeploy.Overwritten

/-!
# An import and the rows of others

* `Follows`   a handler that finds anyone's row;
* `alone_each`, `shared_each`   a row after the entries of a section;
* `Sectioned`   the section in an import;
* `unchanged_iff`   when every row of others is as it was.
-/

namespace HxDeploy

open Py Base Attempt

variable {env : Env} {db : Db} {k : Kind}

/-- the handler writes an entry by the section that is opened for it -/
structure Follows (env : Env) (k : Kind) (item : Dict → Step Unit) : Prop where
  upserts : ∀ e (s : State) S, opened env (s.ids .caseType) k e = some S →
    item e s = upsert env S e s
  stops : ∀ e (s : State), opened env (s.ids .caseType) k e = none →
    (item e s).2.db = s.db ∧ (item e s).2.undone = s.undone

theorem follows_upsert {S : Section} (h : ∀ ids e, opened env ids k e = some S) :
    Follows env k (upsert env S) := by
  refine ⟨fun e s S' hopened => ?_, fun e s hopened => ?_⟩
  · rw [h] at hopened
    obtain rfl := Option.some.inj hopened
    rfl
  · rw [h] at hopened
    cases hopened

theorem follows_processDefinition : Follows env .process (processDefinition env) := by
  constructor
  · intro e s S hopened
    rw [opened] at hopened
    rw [processDefinition]
    cases hscripts : env.unsafeScripts ((e.get "bpmn_xml").or (text "")) with
    | none =>
      rw [hscripts] at hopened
      obtain rfl := Option.some.inj hopened
      rfl
    | some findings =>
      rw [hscripts] at hopened
      cases hopened
  · intro e s hopened
    rw [opened] at hopened
    rw [processDefinition]
    cases hscripts : env.unsafeScripts ((e.get "bpmn_xml").or (text "")) with
    | none =>
      rw [hscripts] at hopened
      cases hopened
    | some findings => exact ⟨rfl, rfl⟩

theorem reference_of_some {e : Dict} {s : State} {key : String} {caseType : Option Guid}
    (h : referenced (s.ids .caseType) e key = some caseType) :
    reference .caseType e key s = (.ok caseType, s) := by
  rw [referenced] at h
  rw [reference, mapped]
  split at h
  · rename_i hhash
    obtain rfl := Option.some.inj h
    rw [if_pos hhash]
    rfl
  · cases h

theorem reference_of_none {e : Dict} {s : State} {key : String}
    (h : referenced (s.ids .caseType) e key = none) :
    reference .caseType e key s = (.error .unhashable, s) := by
  rw [referenced] at h
  rw [reference, mapped]
  split at h
  · cases h
  · rename_i hhash
    rw [if_neg hhash]
    rfl

theorem follows_reference {sections : Option Guid → Section} {item : Dict → Step Unit}
    (h : ∀ ids e, opened env ids k e = (referenced ids e "case_type_id").map sections)
    (hitem : ∀ e, item e = reference .caseType e "case_type_id" >>= fun caseType =>
      upsert env (sections caseType) e) : Follows env k item := by
  constructor
  · intro e s S hopened
    rw [h] at hopened
    obtain ⟨caseType, hcaseType, rfl⟩ := Option.map_eq_some_iff.mp hopened
    rw [hitem]
    exact bind_of_ok (reference_of_some hcaseType)
  · intro e s hopened
    rw [h] at hopened
    have hnone := reference_of_none (Option.map_eq_none_iff.mp hopened)
    rw [hitem, bind_of_error hnone]
    exact ⟨rfl, rfl⟩

/-! ## the entries of a section -/

def afterEntry (env : Env) (label name : String) (item : Dict → Step Unit) (s : State) (e : Dict) :
    State := flush env ((item e).attempt (report env label name e) s)

theorem afterEntry_db (label name : String) (item : Dict → Step Unit) (s : State) (e : Dict) :
    (afterEntry env label name item s e).db = (item e s).2.db ∧
      ((afterEntry env label name item s e).undone = false → (item e s).2.undone = false) := by
  rw [afterEntry, flush, Attempt.attempt]
  rcases item e s with ⟨err | u, s'⟩
  · dsimp only
    split
    · exact ⟨rfl, fun h => h⟩
    · exact ⟨rfl, fun h => Bool.noConfusion h⟩
  · dsimp only
    split
    · exact ⟨rfl, fun h => h⟩
    · exact ⟨rfl, fun h => Bool.noConfusion h⟩

section
variable {item : Dict → Step Unit} {label name : String} {before : State}
  (hfollows : Follows env k item) (hk : k ≠ .caseType)
  (hkeeps : ∀ (before : State) (e : Dict),
    Keeps (Inv env.T db [k] before) (item e) fun _ => True)
include hfollows

theorem alone_entry {e : Dict} {s : State} {r : Row} (h : Alone k (s.db k) r)
    (hundone : (afterEntry env label name item s e).undone = false) :
    Alone k ((afterEntry env label name item s e).db k)
      (rewritten env (s.ids .caseType) k r e) := by
  obtain ⟨hdb, hflag⟩ := afterEntry_db label name item s e
  have hundone := hflag hundone
  rw [hdb, rewritten]
  cases hopened : opened env (s.ids .caseType) k e with
  | none =>
    rw [(hfollows.stops e s hopened).1]
    exact h
  | some S =>
    rw [hfollows.upserts e s S hopened] at hundone ⊢
    exact (opens_of_opened hopened).alone_upsert h hundone

theorem shared_entry {e : Dict} {s : State} {r : Row} (h : Shared k (s.db k) r)
    (hundone : (afterEntry env label name item s e).undone = false) :
    Shared k ((afterEntry env label name item s e).db k) r := by
  obtain ⟨hdb, hflag⟩ := afterEntry_db label name item s e
  have hundone := hflag hundone
  rw [hdb]
  cases hopened : opened env (s.ids .caseType) k e with
  | none =>
    rw [(hfollows.stops e s hopened).1]
    exact h
  | some S =>
    rw [hfollows.upserts e s S hopened] at hundone ⊢
    exact (opens_of_opened hopened).shared_upsert h hundone

include hkeeps

theorem shared_each {es : List Dict} {s : State} {r : Row} (hs : Inv env.T db [k] before s)
    (h : Shared k (s.db k) r) (hundone : (each env label name item es s).undone = false) :
    Shared k ((each env label name item es s).db k) r := by
  induction es generalizing s with
  | nil => exact h
  | cons e es ih =>
    have hone : Inv env.T db [k] before (afterEntry env label name item s e) :=
      inv_each (hkeeps before) [e] hs
    have hrest : Inv env.T db [k] (afterEntry env label name item s e)
        (each env label name item es (afterEntry env label name item s e)) :=
      inv_each (hkeeps _) es (hone.here [k])
    exact ih hone (shared_entry hfollows h (hrest.undone hundone)) hundone

include hk

theorem alone_each {es : List Dict} {s : State} {r : Row} (hs : Inv env.T db [k] before s)
    (h : Alone k (s.db k) r) (hundone : (each env label name item es s).undone = false) :
    Alone k ((each env label name item es s).db k)
      (es.foldl (rewritten env (before.ids .caseType) k) r) := by
  induction es generalizing s r with
  | nil => exact h
  | cons e es ih =>
    have hids : s.ids .caseType = before.ids .caseType :=
      hs.recorded .caseType fun hmem => hk (List.mem_singleton.mp hmem).symm
    have hone : Inv env.T db [k] before (afterEntry env label name item s e) :=
      inv_each (hkeeps before) [e] hs
    have hrest : Inv env.T db [k] (afterEntry env label name item s e)
        (each env label name item es (afterEntry env label name item s e)) :=
      inv_each (hkeeps _) es (hone.here [k])
    have halone := alone_entry hfollows h (hrest.undone hundone)
    rw [hids] at halone
    exact ih hone halone hundone

end

/-! ## the sections -/

theorem keeps_part {part : Part} (h : part ∈ throughCaseTypes env ++ afterCaseTypes env)
    (before : State) (e : Dict) :
    Keeps (Inv env.T db part.kinds before) (part.item e) fun _ => True := by
  rcases List.mem_append.mp h with h | h
  · exact keeps_throughCaseTypes h e
  · exact keeps_afterCaseTypes h e

def start (bundle : Dict) (db : Db) : State where
  db := db
  needsConfiguration := (((bundle.lookup "needs_configuration").getD (.list [])).iter).getD []

theorem inv_start (T : Target) (bundle : Dict) (db : Db) :
    Inv T db [] (start bundle db) (start bundle db) :=
  ⟨fun _ _ hp => (nomatch hp), fun _ _ _ _ hr _ => hr, fun _ _ => rfl, fun _ _ => rfl,
    fun h => h⟩

def imported (env : Env) (bundle : Dict) (db : Db) : State :=
  runParts env (throughCaseTypes env ++ afterCaseTypes env) (entriesOf bundle) (start bundle db)

theorem of_applyBundle {bundle : Dict} {db : Db} {result : Result}
    (h : applyBundle env bundle db = some result) :
    (imported env bundle db).undone = false ∧ result.db = (imported env bundle db).db := by
  rw [applyBundle] at h
  dsimp only at h
  split at h
  · cases h
  · split at h
    · cases h
    · rename_i needs hneeds
      have hstart : ({ db := db, needsConfiguration := needs } : State) = start bundle db := by
        rw [start, hneeds]
        rfl
      rw [hstart] at h
      split at h
      · cases h
      · rename_i hundone
        obtain rfl := Option.some.inj h
        exact ⟨Bool.eq_false_iff.mpr hundone, rfl⟩

def caseTypeIds (env : Env) (bundle : Dict) (db : Db) : IdMap :=
  (runParts env (throughCaseTypes env) (entriesOf bundle) (start bundle db)).ids .caseType

/-- the one section that writes a kind; an entry of it finds anyone's row -/
structure Sectioned (env : Env) (k : Kind) (pre : List Part) (part : Part) (post : List Part) :
    Prop where
  all : throughCaseTypes env ++ afterCaseTypes env = pre ++ part :: post
  kind : part.kind = k
  other : k ≠ .caseType
  pre : k ∉ pre.flatMap Part.kinds
  post : k ∉ post.flatMap Part.kinds
  follows : Follows env k part.item

section
variable {pre post : List Part} {part : Part} (h : Sectioned env k pre part post) {bundle : Dict}
include h

theorem Sectioned.inv_pre (bundle : Dict) (db : Db) :
    Inv env.T db (pre.flatMap Part.kinds) (start bundle db)
      (runParts env pre (entriesOf bundle) (start bundle db)) := by
  refine inv_runParts (fun p hp before e => keeps_part ?_ before e) _ (inv_start env.T bundle db)
  rw [h.all]
  exact List.mem_append_left _ hp

theorem Sectioned.keeps (before : State) (e : Dict) :
    Keeps (Inv env.T db [k] before) (part.item e) fun _ => True := by
  have hmem : part ∈ throughCaseTypes env ++ afterCaseTypes env := by
    rw [h.all]
    exact List.mem_append_right _ List.mem_cons_self
  have hkinds : part.kinds = [k] := by
    rw [Part.kinds, h.kind, if_neg h.other]
  rw [← hkinds]
  exact keeps_part hmem before e

theorem Sectioned.inv_post (bundle : Dict) {s : State} (hs : Inv env.T db [] s s) :
    Inv env.T db (post.flatMap Part.kinds) s (runParts env post (entriesOf bundle) s) := by
  refine inv_runParts (fun p hp before e => keeps_part ?_ before e) _ hs
  rw [h.all]
  exact List.mem_append_right _ (List.mem_cons_of_mem _ hp)

theorem Sectioned.imported_eq :
    imported env bundle db =
      runParts env post (entriesOf bundle) (each env part.label part.name part.item
        (entriesOf bundle k) (runParts env pre (entriesOf bundle) (start bundle db))) := by
  rw [imported, h.all, runParts, List.foldl_append, List.foldl_cons, runPart, h.kind]
  rfl

theorem Sectioned.of_each {P : Table → Prop} (hundone : (imported env bundle db).undone = false)
    (hsection : ∀ s : State, Inv env.T db [k] s s → s.db k = db k →
      s.ids .caseType = (runParts env pre (entriesOf bundle) (start bundle db)).ids .caseType →
      (each env part.label part.name part.item (entriesOf bundle k) s).undone = false →
      P ((each env part.label part.name part.item (entriesOf bundle k) s).db k)) :
    P ((imported env bundle db).db k) := by
  have hpre := h.inv_pre bundle db
  have heach : Inv env.T db [k] _ (each env part.label part.name part.item (entriesOf bundle k)
      (runParts env pre (entriesOf bundle) (start bundle db))) :=
    inv_each (h.keeps _) (entriesOf bundle k) (hpre.here [k])
  have hpost := h.inv_post bundle (heach.here [])
  rw [h.imported_eq] at hundone ⊢
  rw [hpost.rows k h.post]
  exact hsection _ (hpre.here [k]) (hpre.rows k h.pre) rfl (hpost.undone hundone)

theorem Sectioned.alone (hundone : (imported env bundle db).undone = false) {r : Row}
    (hr : Alone k (db k) r) :
    Alone k ((imported env bundle db).db k)
      ((entriesOf bundle k).foldl (rewritten env
        ((runParts env pre (entriesOf bundle) (start bundle db)).ids .caseType) k) r) := by
  refine h.of_each (P := fun t => Alone k t _) hundone fun s hs hrows hids hundone => ?_
  rw [← hids]
  rw [← hrows] at hr
  exact alone_each h.follows h.other h.keeps hs hr hundone

theorem Sectioned.shared (hundone : (imported env bundle db).undone = false) {r : Row}
    (hr : Shared k (db k) r) : Shared k ((imported env bundle db).db k) r := by
  refine h.of_each (P := fun t => Shared k t r) hundone fun s hs hrows _ hundone => ?_
  rw [← hrows] at hr
  exact shared_each h.follows h.keeps hs hr hundone

end

/-! ## the five sections -/

theorem caseTypeIds_of_append {mid : List Part} (hmid : Kind.caseType ∉ mid.flatMap Part.kinds)
    (hmem : ∀ part ∈ mid, part ∈ afterCaseTypes env) (bundle : Dict) :
    (runParts env (throughCaseTypes env ++ mid) (entriesOf bundle) (start bundle db)).ids
      .caseType = caseTypeIds env bundle db := by
  have hthrough : Inv env.T db _ (start bundle db)
      (runParts env (throughCaseTypes env) (entriesOf bundle) (start bundle db)) :=
    inv_runParts (fun p hp before e => keeps_throughCaseTypes hp e) _ (inv_start env.T bundle db)
  have hrest := inv_runParts (fun p hp before e => keeps_afterCaseTypes (hmem p hp) e)
    (entriesOf bundle) (hthrough.here [])
  rw [runParts, List.foldl_append]
  exact hrest.recorded .caseType hmid

/-- each kind of which an entry finds anyone's row has its section, and its references go to the
case types of the bundle -/
theorem sectioned_of_anyones (env : Env) (hk : k.anyones = true) (bundle : Dict) (db : Db) :
    ∃ pre part post, Sectioned env k pre part post ∧ ∀ r e,
      rewritten env ((runParts env pre (entriesOf bundle) (start bundle db)).ids .caseType) k r e =
        rewritten env (caseTypeIds env bundle db) k r e := by
  cases k with
  | emailTemplate =>
    have hids : ∀ (ids ids' : IdMap) r e, rewritten env ids .emailTemplate r e =
        rewritten env ids' .emailTemplate r e := fun _ _ _ _ => rfl
    refine ⟨(throughCaseTypes env).take 4, _, _, ⟨rfl, rfl, by decide, ?_, ?_, ?_⟩, hids _ _⟩
    · simp [throughCaseTypes, Part.kinds]
    · simp [afterCaseTypes, Part.kinds, caseTypeKinds]
    · exact follows_upsert fun _ _ => rfl
  | emailAccount =>
    have hids : ∀ (ids ids' : IdMap) r e, rewritten env ids .emailAccount r e =
        rewritten env ids' .emailAccount r e := fun _ _ _ _ => rfl
    refine ⟨(throughCaseTypes env).take 5, _, _, ⟨rfl, rfl, by decide, ?_, ?_, ?_⟩, hids _ _⟩
    · simp [throughCaseTypes, Part.kinds]
    · simp [afterCaseTypes, Part.kinds, caseTypeKinds]
    · exact follows_upsert fun _ _ => rfl
  | process =>
    have hids : ∀ (ids ids' : IdMap) r e, rewritten env ids .process r e =
        rewritten env ids' .process r e := fun _ _ _ _ => rfl
    refine ⟨(throughCaseTypes env).take 7, _, _, ⟨rfl, rfl, by decide, ?_, ?_, ?_⟩, hids _ _⟩
    · simp [throughCaseTypes, Part.kinds]
    · simp [afterCaseTypes, Part.kinds, caseTypeKinds]
    · exact follows_processDefinition
  | escalation =>
    refine ⟨throughCaseTypes env ++ (afterCaseTypes env).take 2, _, _,
      ⟨rfl, rfl, by decide, ?_, ?_, ?_⟩, fun r e => ?_⟩
    · simp [throughCaseTypes, afterCaseTypes, Part.kinds, caseTypeKinds]
    · simp [Part.kinds]
    · exact follows_reference (fun _ _ => rfl) fun _ => rfl
    · rw [caseTypeIds_of_append]
      · simp [afterCaseTypes, Part.kinds]
      · exact fun part hpart => List.mem_of_mem_take hpart
  | webhook =>
    refine ⟨throughCaseTypes env ++ (afterCaseTypes env).take 3, _, _,
      ⟨rfl, rfl, by decide, ?_, ?_, ?_⟩, fun r e => ?_⟩
    · simp [throughCaseTypes, afterCaseTypes, Part.kinds, caseTypeKinds]
    · simp [Part.kinds]
    · exact follows_reference (fun _ _ => rfl) fun _ => rfl
    · rw [caseTypeIds_of_append]
      · simp [afterCaseTypes, Part.kinds]
      · exact fun part hpart => List.mem_of_mem_take hpart
  | _ => cases hk

theorem rewritten_id (ids : IdMap) (r : Row) (es : List Dict) :
    (es.foldl (rewritten env ids k) r).id = r.id := by
  induction es generalizing r with
  | nil => rfl
  | cons e es ih =>
    rw [List.foldl_cons, ih, rewritten]
    split
    · split <;> rfl
    · rfl

/-! ## every row of others -/

theorem kept_imported {bundle : Dict} (hundone : (imported env bundle db).undone = false)
    (hk : k.anyones = false) {r : Row} (hr : r ∈ (db k).rows)
    (hforeign : foreign env.T db k r = true) : r ∈ ((imported env bundle db).db k).rows :=
  (inv_runParts (fun _ hp before e => keeps_part hp before e) _
    (inv_start env.T bundle db)).kept hundone k hk r hr hforeign

/-- a row that an entry may find whoever has it stays where it has its key with another, or where
the entries that find it write what it has -/
theorem mem_imported_iff {bundle : Dict} (hundone : (imported env bundle db).undone = false)
    (hk : k.anyones = true) {r : Row} (hr : r ∈ (db k).rows) :
    r ∈ ((imported env bundle db).db k).rows ↔ (Alone k (db k) r →
      (entriesOf bundle k).foldl (rewritten env (caseTypeIds env bundle db) k) r = r) := by
  obtain ⟨pre, part, post, hsection, hids⟩ := sectioned_of_anyones env hk bundle db
  have hrewritten := funext fun r => funext fun e => hids r e
  constructor
  · intro hmem halone
    have himage := (hsection.alone hundone halone).mem
    rw [hrewritten] at himage
    exact List.inj_on_of_nodup_map ((imported env bundle db).db k).nodup himage hmem
      (rewritten_id _ r _)
  · intro hsame
    rcases alone_or_shared hr with halone | hshared
    · have himage := (hsection.alone hundone halone).mem
      rw [hrewritten, hsame halone] at himage
      exact himage
    · exact (hsection.shared hundone hshared).mem

theorem unchanged_iff {bundle : Dict} {result : Result}
    (h : applyBundle env bundle db = some result) :
    (∀ k, ∀ r ∈ (db k).rows, foreign env.T db k r = true → r ∈ (result.db k).rows) ↔
      ∀ k, k.anyones = true → ∀ r ∈ (db k).rows, foreign env.T db k r = true → Alone k (db k) r →
        (entriesOf bundle k).foldl (rewritten env (caseTypeIds env bundle db) k) r = r := by
  obtain ⟨hundone, hdb⟩ := of_applyBundle h
  rw [hdb]
  constructor
  · intro hkept k hk r hr hforeign
    exact (mem_imported_iff hundone hk hr).mp (hkept k r hr hforeign)
  · intro hsame k r hr hforeign
    cases hk : k.anyones with
    | true => exact (mem_imported_iff hundone hk hr).mpr (hsame k hk r hr hforeign)
    | false => exact kept_imported hundone hk hr hforeign

/-- an import for the tenant `acme`, with nothing refused -/
def acme : Env where
  T :=
    { token := "acme"
      resolved := some ("00000000-0000-0000-0000-0000000000ac", "acme")
      default := some "00000000-0000-0000-0000-0000000000de" }
  importedBy := "import:prod"
  alongside := []
  runtime := Runtime.silent
  uuid4 := fun n => uuidText (1000 + n)
  now := 10
  accepts := fun _ => true
  unsafeScripts := fun _ => none
  registryRefuses := fun _ => none
  invalidBot := fun _ => none
  invalidSchedule := fun _ _ => none
  resolveRollout := id
  rolloutOpen := fun _ => false

/-- a template of the tenant `globex` -/
def welcome : Row :=
  { id := "00000000-0000-0000-0000-00000000e1e1"
    tenant := some "globex"
    cols := [("name", text "welcome"), ("subject", text "Hello"), ("body_text", text "Hi")] }

def withWelcome : Db :=
  Function.update (fun _ => Table.empty) .emailTemplate ⟨[welcome], List.nodup_singleton _⟩

def oneTemplate (name : String) : Dict :=
  [("bundle_schema_version", text "3"),
    ("email_templates", .list [.dict [("name", text name), ("subject", text "Pay here"),
      ("body_text", text "Click")]])]

theorem unchanged_goodbye : ∃ result,
    applyBundle acme (oneTemplate "goodbye") withWelcome = some result ∧
      ∀ k, ∀ r ∈ (withWelcome k).rows, foreign acme.T withWelcome k r = true →
        r ∈ (result.db k).rows := by
  have hsome : (applyBundle acme (oneTemplate "goodbye") withWelcome).isSome = true := by
    decide +kernel
  obtain ⟨result, hresult⟩ := Option.isSome_iff_exists.mp hsome
  refine ⟨result, hresult, (unchanged_iff hresult).mpr fun k hk r hr _ _ => ?_⟩
  by_cases hkind : k = .emailTemplate
  · subst hkind
    obtain rfl : r = welcome := List.mem_singleton.mp hr
    decide +kernel
  · rw [withWelcome, Function.update_of_ne hkind] at hr
    cases hr

/-- the template of `globex` under the same name is written over -/
theorem not_always_unchanged : ¬∀ (env : Env) (bundle : Dict) (db : Db) (result : Result),
    applyBundle env bundle db = some result → ∀ k, ∀ r ∈ (db k).rows,
      foreign env.T db k r = true → r ∈ (result.db k).rows := by
  intro h
  have hsome : (applyBundle acme (oneTemplate "welcome") withWelcome).isSome = true := by
    decide +kernel
  obtain ⟨result, hresult⟩ := Option.isSome_iff_exists.mp hsome
  have hkept := h acme (oneTemplate "welcome") withWelcome result hresult .emailTemplate welcome
    List.mem_cons_self (by decide +kernel)
  have hgone : (applyBundle acme (oneTemplate "welcome") withWelcome).map
      (fun result => decide (welcome ∈ (result.db .emailTemplate).rows)) = some false := by
    decide +kernel
  rw [hresult, Option.map_some, decide_eq_true hkept] at hgone
  cases hgone

end HxDeploy
