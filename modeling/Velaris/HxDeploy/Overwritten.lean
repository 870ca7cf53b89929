import Velaris.HxDeploy.Foreign

/-!
# Rows that an entry finds whoever has them

* `Kind.keyNames`, `opened`   by which columns such an entry finds its row, and what it writes;
* `rewritten`   the row after an entry;
* `Alone`, `Shared`   no other row has the key of the row, and some other has it;
* `Opens.upsert_db`   what becomes of the table;
* `Opens.alone_upsert`, `Opens.shared_upsert`   what becomes of the row.
-/

namespace HxDeploy

open Py Base Attempt

def Kind.keyNames : Kind → List String
  | emailTemplate | escalation => ["name"]
  | emailAccount => ["address"]
  | process => ["name", "version"]
  | webhook => ["name", "url"]
  | dataModel | calendar | role | portal | connector | form | rule | caseType | stage | step
  | outboundRule | receiverRule | group | bot | schedule => []

/-- what `reference` gives -/
def referenced (ids : IdMap) (e : Dict) (key : String) : Option (Option Guid) :=
  if ((e.get key).or (text "")).hashable then some (ids.get ((e.get key).or (text ""))) else none

/-- the section that an entry is written by, where it comes so far; `ids` are those of the case
types -/
def opened (env : Env) (ids : IdMap) : Kind → Dict → Option Section
  | .emailTemplate, _ => some (emailTemplates env)
  | .emailAccount, _ => some (emailAccounts env)
  | .process, e =>
    if (env.unsafeScripts ((e.get "bpmn_xml").or (text ""))).isSome then none
    else some (processDefinitions env)
  | .escalation, e => (referenced ids e "case_type_id").map (escalationTrees env)
  | .webhook, e => (referenced ids e "case_type_id").map webhookSubscriptions
  | .dataModel, _ | .calendar, _ | .role, _ | .portal, _ | .connector, _ | .form, _ | .rule, _
  | .caseType, _ | .stage, _ | .step, _ | .outboundRule, _ | .receiverRule, _ | .group, _
  | .bot, _ | .schedule, _ => none

def Section.finds (S : Section) (e : Dict) (r : Row) : Bool :=
  match evaluate e S.key with
  | .ok ident => r.fits ident
  | .error _ => false

/-- the row after an entry that may find it -/
def rewritten (env : Env) (ids : IdMap) (k : Kind) (r : Row) (e : Dict) : Row :=
  match opened env ids k e with
  | some S => if S.finds e r then r.write (S.written e) else r
  | none => r

def SameKey (k : Kind) (r r' : Row) : Prop := ∀ n ∈ k.keyNames, r.cols.get n = r'.cols.get n

structure Alone (k : Kind) (t : Table) (r : Row) : Prop where
  mem : r ∈ t.rows
  only : ∀ r' ∈ t.rows, SameKey k r' r → r' = r

structure Shared (k : Kind) (t : Table) (r : Row) : Prop where
  mem : r ∈ t.rows
  other : ∃ r' ∈ t.rows, r'.id ≠ r.id ∧ SameKey k r' r

/-- what the sections have in common in which an entry finds anyone's row -/
structure Opens (k : Kind) (S : Section) : Prop where
  kind : S.kind = k
  reach : S.reach = .anyone
  records : S.records = false
  key : S.key = items k.keyNames
  updates : ∀ n ∈ k.keyNames, n ∉ S.update.map Prod.fst
  creates : ∀ n ∈ k.keyNames, (n, .item n) ∈ S.create
  columns : (S.create.map Prod.fst).Nodup
  names : k.keyNames.Nodup

theorem opens_emailTemplates (env : Env) : Opens .emailTemplate (emailTemplates env) where
  kind := rfl
  reach := rfl
  records := rfl
  key := rfl
  updates := by simp [emailTemplates, items, Kind.keyNames]
  creates := by simp [emailTemplates, items, Kind.keyNames]
  columns := by simp [emailTemplates, items]
  names := by decide

theorem opens_emailAccounts (env : Env) : Opens .emailAccount (emailAccounts env) where
  kind := rfl
  reach := rfl
  records := rfl
  key := rfl
  updates := by simp [emailAccounts, items, Kind.keyNames]
  creates := by simp [emailAccounts, items, Kind.keyNames]
  columns := by simp [emailAccounts, items]
  names := by decide

theorem opens_processDefinitions (env : Env) : Opens .process (processDefinitions env) where
  kind := rfl
  reach := rfl
  records := rfl
  key := rfl
  updates := by simp [processDefinitions, Kind.keyNames]
  creates := by simp [processDefinitions, items, Kind.keyNames]
  columns := by simp [processDefinitions, items]
  names := by decide

theorem opens_escalationTrees (env : Env) (caseType : Option Guid) :
    Opens .escalation (escalationTrees env caseType) where
  kind := rfl
  reach := rfl
  records := rfl
  key := rfl
  updates := by simp [escalationTrees, Kind.keyNames]
  creates := by simp [escalationTrees, items, Kind.keyNames]
  columns := by simp [escalationTrees, items]
  names := by decide

theorem opens_webhookSubscriptions (caseType : Option Guid) :
    Opens .webhook (webhookSubscriptions caseType) where
  kind := rfl
  reach := rfl
  records := rfl
  key := rfl
  updates := by simp [webhookSubscriptions, Kind.keyNames]
  creates := by simp [webhookSubscriptions, items, Kind.keyNames]
  columns := by simp [webhookSubscriptions, items]
  names := by decide

theorem opens_of_opened {env : Env} {ids : IdMap} {k : Kind} {e : Dict} {S : Section}
    (h : opened env ids k e = some S) : Opens k S := by
  cases k with
  | emailTemplate =>
    obtain rfl := Option.some.inj h
    exact opens_emailTemplates env
  | emailAccount =>
    obtain rfl := Option.some.inj h
    exact opens_emailAccounts env
  | process =>
    rw [opened] at h
    split at h
    · cases h
    · obtain rfl := Option.some.inj h
      exact opens_processDefinitions env
  | escalation =>
    obtain ⟨caseType, -, rfl⟩ := Option.map_eq_some_iff.mp h
    exact opens_escalationTrees env caseType
  | webhook =>
    obtain ⟨caseType, -, rfl⟩ := Option.map_eq_some_iff.mp h
    exact opens_webhookSubscriptions caseType
  | _ => cases h

/-! ## assignments -/

theorem get_assign_of_not_mem {e : Dict} {srcs : List (String × Src)} {cols : Dict} {n : String}
    (h : n ∉ srcs.map Prod.fst) : (assign e srcs cols).2.get n = cols.get n := by
  induction srcs generalizing cols with
  | nil => rfl
  | cons p srcs ih =>
    obtain ⟨column, src⟩ := p
    rw [List.map_cons, List.mem_cons, not_or] at h
    rw [assign]
    cases hv : src.take e (cols.get column) with
    | error err => rfl
    | ok v =>
      dsimp only
      rw [ih h.2, Dict.get_set, if_neg h.1]

theorem get_assign_item {e : Dict} {srcs : List (String × Src)} {cols : Dict} {n : String}
    (hnodup : (srcs.map Prod.fst).Nodup) (hmem : (n, .item n) ∈ srcs)
    (hok : (assign e srcs cols).1 = .ok ()) : (assign e srcs cols).2.get n = e.get n := by
  induction srcs generalizing cols with
  | nil => cases hmem
  | cons p srcs ih =>
    obtain ⟨column, src⟩ := p
    rw [List.map_cons, List.nodup_cons] at hnodup
    rw [assign] at hok ⊢
    cases hv : src.take e (cols.get column) with
    | error err =>
      rw [hv] at hok
      cases hok
    | ok v =>
      rw [hv] at hok
      dsimp only at hok ⊢
      rcases List.mem_cons.mp hmem with hhead | htail
      · obtain ⟨rfl, rfl⟩ := Prod.mk.inj hhead
        rw [get_assign_of_not_mem hnodup.1, Dict.get_set, if_pos rfl, Dict.get]
        rw [Src.take] at hv
        cases hlookup : e.lookup n with
        | none =>
          rw [hlookup] at hv
          cases hv
        | some w =>
          rw [hlookup] at hv
          exact (Except.ok.inj hv).symm
      · exact ih hnodup.2 htail hok

theorem set_fresh {k : String} {v : Value} {d : Dict} (h : k ∉ d.map Prod.fst) :
    d.set k v = d ++ [(k, v)] := by
  induction d with
  | nil => rfl
  | cons p d ih =>
    obtain ⟨l, w⟩ := p
    rw [List.map_cons, List.mem_cons, not_or] at h
    rw [Dict.set, if_neg (Ne.symm h.1), ih h.2]
    rfl

theorem assign_items {e : Dict} {names : List String} {cols : Dict}
    (hnodup : (cols.map Prod.fst ++ names).Nodup) (hok : (assign e (items names) cols).1 = .ok ()) :
    (assign e (items names) cols).2 = cols ++ names.map fun n => (n, e.get n) := by
  induction names generalizing cols with
  | nil => exact (List.append_nil cols).symm
  | cons n names ih =>
    have hfresh : n ∉ cols.map Prod.fst := by
      intro hmem
      exact (List.nodup_append.mp hnodup).2.2 n hmem n List.mem_cons_self rfl
    show (assign e ((n, .item n) :: items names) cols).2 = _
    change (assign e ((n, .item n) :: items names) cols).1 = .ok () at hok
    rw [assign, Src.take] at hok ⊢
    cases hlookup : e.lookup n with
    | none =>
      rw [hlookup] at hok
      cases hok
    | some v =>
      rw [hlookup] at hok
      dsimp only at hok ⊢
      have hget : e.get n = v := by
        rw [Dict.get, hlookup]
        rfl
      rw [set_fresh hfresh] at hok ⊢
      have hnodup' : ((cols ++ [(n, v)]).map Prod.fst ++ names).Nodup := by
        rw [List.map_append, List.append_assoc]
        exact hnodup
      rw [ih hnodup' hok, List.append_assoc, List.map_cons, hget]
      rfl

theorem evaluate_ok {e : Dict} {srcs : List (String × Src)} {cols : Dict}
    (h : evaluate e srcs = .ok cols) :
    (assign e srcs []).1 = .ok () ∧ (assign e srcs []).2 = cols := by
  rw [evaluate] at h
  split at h
  · rename_i cols' hassign
    rw [hassign]
    exact ⟨rfl, Except.ok.inj h⟩
  · cases h

section
variable {k : Kind} {S : Section} (hS : Opens k S) {e ident : Dict}
include hS

theorem Opens.fits_iff (hident : evaluate e S.key = .ok ident) (r : Row) :
    r.fits ident = true ↔ ∀ n ∈ k.keyNames, r.cols.get n = e.get n := by
  rw [hS.key] at hident
  obtain ⟨hok, rfl⟩ := evaluate_ok hident
  rw [assign_items hS.names hok, List.nil_append, Row.fits, List.all_map, List.all_eq_true]
  exact forall₂_congr fun n _ => decide_eq_true_iff

theorem Opens.get_created {cols : Dict} (h : evaluate e S.create = .ok cols) :
    ∀ n ∈ k.keyNames, cols.get n = e.get n := by
  intro n hn
  obtain ⟨hok, rfl⟩ := evaluate_ok h
  exact get_assign_item hS.columns (hS.creates n hn) hok

theorem Opens.sameKey_write (r : Row) : SameKey k (r.write (S.written e)) r := fun n hn =>
  get_assign_of_not_mem (hS.updates n hn)

end

theorem SameKey.symm {k : Kind} {r r' : Row} (h : SameKey k r r') : SameKey k r' r :=
  fun n hn => (h n hn).symm

theorem SameKey.trans {k : Kind} {a b c : Row} (h : SameKey k a b) (h' : SameKey k b c) :
    SameKey k a c := fun n hn => (h n hn).trans (h' n hn)

/-! ## what an entry does to the table -/

variable {env : Env} {s : State} {k : Kind} {S : Section} {e : Dict}

theorem idFor_same (env : Env) (S : Section) (e : Dict) (s : State) :
    (idFor env S e s).2.db = s.db ∧ (idFor env S e s).2.undone = s.undone := by
  have hnew : Keeps (fun s' => s'.db = s.db ∧ s'.undone = s.undone) (newId env) fun _ => True :=
    fun s' hs' => ⟨hs', fun _ _ => trivial⟩
  have hid : Keeps (fun s' => s'.db = s.db ∧ s'.undone = s.undone) (idFor env S e)
      fun _ => True := by
    rw [idFor]
    split
    · rw [claimId]
      split
      · exact hnew
      · refine Keeps.bind (P := fun _ => True) (fun s' hs' => ⟨?_, fun _ _ => trivial⟩)
          fun taken _ => ?_
        · rw [rowsWhere]
          split <;> exact hs'
        · split
          · exact hnew
          · exact Keeps.pure trivial
    · exact hnew
  exact (hid s ⟨rfl, rfl⟩).1

theorem recordId_of_not_records (h : S.records = false) (e : Dict) (id : Guid) (s : State) :
    recordId S e id s = (.ok (), s) := by
  rw [recordId, h]
  rfl

theorem overwrite_db (h : S.records = false) (e : Dict) (row : Row) (s : State) :
    (overwrite S e row s).2.db =
        Function.update s.db S.kind ((s.db S.kind).write row.id (S.written e)) ∧
      (overwrite S e row s).2.undone = s.undone := by
  have hwrite : writeRow S.kind row.id (S.written e) s =
      (.ok (), s.setTable S.kind ((s.db S.kind).write row.id (S.written e))) := rfl
  rw [overwrite, bind_of_ok hwrite]
  cases hassign : (assign e S.update row.cols).1 with
  | error err =>
    rw [bind_of_error (lift_error err _)]
    exact ⟨rfl, rfl⟩
  | ok u =>
    rw [bind_of_ok (lift_ok u _), bind_of_ok (recordId_of_not_records h e row.id _)]
    exact ⟨rfl, rfl⟩

theorem insertRow_of_undone {r : Row} (hs : s.undone = true) :
    insertRow k r s = (.error .rolledBack, s) := by
  rw [insertRow, if_pos hs]

theorem insertRow_of_some {r : Row} {t : Table} (hs : s.undone = false)
    (h : (s.db k).insert r = some t) : insertRow k r s = (.ok (), s.setTable k t) := by
  rw [insertRow, if_neg (Bool.eq_false_iff.mp hs), h]

theorem insertRow_of_none {r : Row} (hs : s.undone = false) (h : (s.db k).insert r = none) :
    insertRow k r s = (.error .rolledBack, { s with undone := true }) := by
  rw [insertRow, if_neg (Bool.eq_false_iff.mp hs), h]

theorem create_db (h : S.records = false) (e : Dict) (s : State)
    (hundone : (create env S e s).2.undone = false) :
    s.undone = false ∧ ((create env S e s).2.db = s.db ∨ ∃ x t, evaluate e S.create = .ok x.cols ∧
      (s.db S.kind).insert x = some t ∧
        (create env S e s).2.db = Function.update s.db S.kind t) := by
  obtain ⟨hdb, hflag⟩ := idFor_same env S e s
  rcases hid : idFor env S e s with ⟨err | id, s₁⟩
  · rw [hid] at hdb hflag
    rw [create, bind_of_error hid] at hundone ⊢
    exact ⟨hflag.symm.trans hundone, Or.inl hdb⟩
  · rw [hid] at hdb hflag
    rw [create, bind_of_ok hid] at hundone ⊢
    cases hcols : evaluate e S.create with
    | error err =>
      rw [hcols, bind_of_error (lift_error err _)] at hundone
      rw [bind_of_error (lift_error err _)]
      exact ⟨hflag.symm.trans hundone, Or.inl hdb⟩
    | ok cols =>
      rw [hcols, bind_of_ok (lift_ok cols _)] at hundone
      rw [bind_of_ok (lift_ok cols _)]
      cases hflag₁ : s₁.undone with
      | true =>
        rw [bind_of_error (insertRow_of_undone hflag₁), hflag₁] at hundone
        cases hundone
      | false =>
        refine ⟨hflag.symm.trans hflag₁, ?_⟩
        rw [← hdb]
        cases hinsert : (s₁.db S.kind).insert
            { id := id, tenant := S.tenant, createdAt := env.now, cols := cols } with
        | none =>
          rw [bind_of_error (insertRow_of_none hflag₁ hinsert)] at hundone
          cases hundone
        | some t =>
          rw [bind_of_ok (insertRow_of_some hflag₁ hinsert),
            bind_of_ok (recordId_of_not_records h e id _)]
          exact Or.inr ⟨_, t, rfl, hinsert, rfl⟩

/-- What becomes of the table: the one row that the entry finds is written, or it finds none or
several and nothing is, or a new row that it would find goes in. -/
theorem Opens.upsert_db (hS : Opens k S) (hundone : (upsert env S e s).2.undone = false) :
    s.undone = false ∧
      ((∃ r ∈ (s.db k).rows, (∀ r' ∈ (s.db k).rows, S.finds e r' = true → r' = r) ∧
          S.finds e r = true ∧ (upsert env S e s).2.db k = (s.db k).write r.id (S.written e)) ∨
        ((∀ r ∈ (s.db k).rows, S.finds e r = true →
            ∃ r' ∈ (s.db k).rows, r'.id ≠ r.id ∧ S.finds e r' = true) ∧
          (upsert env S e s).2.db k = s.db k) ∨
        ∃ x t, (s.db k).insert x = some t ∧ S.finds e x = true ∧
          (∀ r ∈ (s.db k).rows, S.finds e r = false) ∧ (upsert env S e s).2.db k = t) := by
  obtain rfl := hS.kind
  cases hident : evaluate e S.key with
  | error err =>
    have hnone : ∀ r, S.finds e r = false := by
      intro r
      rw [Section.finds, hident]
    have hlocate : locate env S e s = (.error err, s) := by
      rw [locate, hident]
      rfl
    rw [upsert, bind_of_error hlocate] at hundone ⊢
    refine ⟨hundone, Or.inr (Or.inl ⟨fun r _ hfinds => ?_, rfl⟩)⟩
    rw [hnone r] at hfinds
    cases hfinds
  | ok ident =>
    have hfinds : ∀ r, S.finds e r = r.fits ident := by
      intro r
      rw [Section.finds, hident]
    cases hflag : s.undone with
    | true =>
      have hlocate : locate env S e s = (.error .rolledBack, s) := by
        rw [locate, hident, bind_of_ok (lift_ok ident s), hS.reach]
        have hrows : rowsWhere S.kind (Row.fits ident) s = (.error .rolledBack, s) := by
          rw [rowsWhere, if_pos hflag]
        exact bind_of_error hrows
      rw [upsert, bind_of_error hlocate, hflag] at hundone
      cases hundone
    | false =>
      refine ⟨rfl, ?_⟩
      have hlocate : locate env S e s =
          (oneOrNone ((s.db S.kind).rows.filter (Row.fits ident)), s) := by
        rw [locate, hident, bind_of_ok (lift_ok ident s), hS.reach]
        have hrows : rowsWhere S.kind (Row.fits ident) s =
            (.ok ((s.db S.kind).rows.filter (Row.fits ident)), s) := by
          rw [rowsWhere, if_neg (Bool.eq_false_iff.mp hflag)]
        show (rowsWhere S.kind (Row.fits ident) >>= fun rows => lift (oneOrNone rows)) s = _
        rw [bind_of_ok hrows]
        cases oneOrNone ((s.db S.kind).rows.filter (Row.fits ident)) <;> rfl
      have hmem : ∀ r, r ∈ (s.db S.kind).rows.filter (Row.fits ident) ↔
          r ∈ (s.db S.kind).rows ∧ S.finds e r = true := by
        intro r
        rw [List.mem_filter, hfinds]
      rcases hfound : (s.db S.kind).rows.filter (Row.fits ident) with _ | ⟨r, _ | ⟨r', rows⟩⟩
      · rw [hfound] at hlocate hmem
        have hnone : ∀ r ∈ (s.db S.kind).rows, S.finds e r = false := fun r hr =>
          Bool.eq_false_iff.mpr fun hfind => List.not_mem_nil ((hmem r).mpr ⟨hr, hfind⟩)
        have hstate : (upsert env S e s).2 = (create env S e s).2 := by
          rw [upsert, bind_of_ok hlocate]
          rcases hcreate : create env S e s with ⟨err | id, s'⟩
          · exact congrArg Prod.snd (bind_of_error hcreate)
          · exact congrArg Prod.snd (bind_of_ok hcreate)
        rw [hstate] at hundone ⊢
        obtain ⟨-, hdb | ⟨x, t, hx, hinsert, hdb⟩⟩ := create_db hS.records e s hundone
        · rw [hdb]
          refine Or.inr (Or.inl ⟨fun r hr hfind => ?_, rfl⟩)
          rw [hnone r hr] at hfind
          cases hfind
        · refine Or.inr (Or.inr ⟨x, t, hinsert, ?_, hnone, ?_⟩)
          · rw [hfinds]
            exact (hS.fits_iff hident x).mpr (hS.get_created hx)
          · rw [hdb, Function.update_self]
      · rw [hfound] at hlocate hmem
        have hr := (hmem r).mp (List.mem_singleton.mpr rfl)
        have honly : ∀ r' ∈ (s.db S.kind).rows, S.finds e r' = true → r' = r :=
          fun r' hr' hfind => List.mem_singleton.mp ((hmem r').mpr ⟨hr', hfind⟩)
        refine Or.inl ⟨r, hr.1, honly, hr.2, ?_⟩
        rw [upsert, bind_of_ok hlocate]
        show (overwrite S e r s).2.db S.kind = _
        rw [(overwrite_db hS.records e r s).1, Function.update_self]
      · rw [hfound] at hlocate hmem
        -- of two rows one is another than the row at hand
        have hnodup : ((r :: r' :: rows).map Row.id).Nodup := by
          rw [← hfound]
          exact (s.db S.kind).nodup.sublist (List.filter_sublist.map _)
        have hne : r'.id ≠ r.id := by
          intro hid
          refine (List.nodup_cons.mp hnodup).1 ?_
          rw [← hid]
          exact List.mem_cons_self
        rw [upsert, bind_of_error hlocate]
        refine Or.inr (Or.inl ⟨fun r₀ _ _ => ?_, rfl⟩)
        by_cases hid : r₀.id = r.id
        · have hr' := (hmem r').mp (List.mem_cons_of_mem _ List.mem_cons_self)
          refine ⟨r', hr'.1, ?_, hr'.2⟩
          rw [hid]
          exact hne
        · have hr := (hmem r).mp List.mem_cons_self
          exact ⟨r, hr.1, Ne.symm hid, hr.2⟩

/-! ## a row after an entry -/

theorem Opens.finds_iff (hS : Opens k S) {r r' : Row} (h : SameKey k r r') :
    S.finds e r = true ↔ S.finds e r' = true := by
  rw [Section.finds, Section.finds]
  cases hident : evaluate e S.key with
  | error err => exact Iff.rfl
  | ok ident =>
    dsimp only
    rw [hS.fits_iff hident, hS.fits_iff hident]
    exact forall₂_congr fun n hn => by rw [h n hn]

theorem Opens.sameKey_of_finds (hS : Opens k S) {r r' : Row} (h : S.finds e r = true)
    (h' : S.finds e r' = true) : SameKey k r r' := by
  rw [Section.finds] at h h'
  cases hident : evaluate e S.key with
  | error err =>
    rw [hident] at h
    cases h
  | ok ident =>
    rw [hident] at h h'
    intro n hn
    rw [(hS.fits_iff hident r).mp h n hn, (hS.fits_iff hident r').mp h' n hn]

theorem mem_write {t : Table} {id : Guid} {f : Dict → Dict} {r : Row} (h : r ∈ t.rows)
    (hne : r.id ≠ id) : r ∈ (t.write id f).rows := List.mem_map.mpr ⟨r, h, if_neg hne⟩

theorem mem_write_self {t : Table} {f : Dict → Dict} {r : Row} (h : r ∈ t.rows) :
    r.write f ∈ (t.write r.id f).rows := List.mem_map.mpr ⟨r, h, if_pos rfl⟩

theorem of_mem_write {t : Table} {r₀ x : Row} {f : Dict → Dict} (hr₀ : r₀ ∈ t.rows)
    (h : x ∈ (t.write r₀.id f).rows) : x ∈ t.rows ∧ x ≠ r₀ ∨ x = r₀.write f := by
  obtain ⟨y, hy, rfl⟩ := List.mem_map.mp h
  by_cases hid : y.id = r₀.id
  · rw [if_pos hid, List.inj_on_of_nodup_map t.nodup hy hr₀ hid]
    exact Or.inr rfl
  · rw [if_neg hid]
    exact Or.inl ⟨hy, fun heq => hid (congrArg Row.id heq)⟩

theorem Opens.alone_upsert (hS : Opens k S) {r : Row} (h : Alone k (s.db k) r)
    (hundone : (upsert env S e s).2.undone = false) :
    Alone k ((upsert env S e s).2.db k) (if S.finds e r then r.write (S.written e) else r) := by
  obtain ⟨-, ⟨r₀, hr₀, honly, hfind₀, hdb⟩ | ⟨hseveral, hdb⟩ |
    ⟨x, t, hinsert, hfind, hnone, hdb⟩⟩ := hS.upsert_db hundone
  · rw [hdb]
    cases hfind : S.finds e r with
    | true =>
      obtain rfl := honly r h.mem hfind
      rw [if_pos rfl]
      refine ⟨mem_write_self hr₀, fun r' hr' hkey => ?_⟩
      rcases of_mem_write hr₀ hr' with ⟨hr', hne⟩ | hr'
      · exact absurd (h.only r' hr' (hkey.trans (hS.sameKey_write r))) hne
      · exact hr'
    | false =>
      rw [if_neg Bool.false_ne_true]
      have hne : r ≠ r₀ := by
        rintro rfl
        rw [hfind₀] at hfind
        cases hfind
      have hid : r.id ≠ r₀.id := fun hid =>
        hne (List.inj_on_of_nodup_map (s.db k).nodup h.mem hr₀ hid)
      refine ⟨mem_write h.mem hid, fun r' hr' hkey => ?_⟩
      rcases of_mem_write hr₀ hr' with ⟨hr', -⟩ | rfl
      · exact h.only r' hr' hkey
      · exact absurd (h.only r₀ hr₀ ((hS.sameKey_write r₀).symm.trans hkey)).symm hne
  · have hfind : S.finds e r = false := by
      refine Bool.eq_false_iff.mpr fun hfind => ?_
      obtain ⟨r', hr', hne, hfind'⟩ := hseveral r h.mem hfind
      exact hne (congrArg Row.id (h.only r' hr' (hS.sameKey_of_finds hfind' hfind)))
    rw [hdb, hfind]
    exact h
  · obtain ⟨-, hrows⟩ := rows_insert hinsert
    rw [hdb, hnone r h.mem, if_neg Bool.false_ne_true]
    refine ⟨?_, fun r' hr' hkey => ?_⟩
    · rw [hrows]
      exact List.mem_append_left _ h.mem
    · rw [hrows] at hr'
      rcases List.mem_append.mp hr' with hr' | hr'
      · exact h.only r' hr' hkey
      · rw [List.mem_singleton.mp hr'] at hkey
        have hfound := (hS.finds_iff hkey).mp hfind
        rw [hnone r h.mem] at hfound
        cases hfound

theorem Opens.shared_upsert (hS : Opens k S) {r : Row} (h : Shared k (s.db k) r)
    (hundone : (upsert env S e s).2.undone = false) : Shared k ((upsert env S e s).2.db k) r := by
  obtain ⟨hr, r', hr', hne, hkey⟩ := h
  obtain ⟨-, ⟨r₀, hr₀, honly, hfind₀, hdb⟩ | ⟨-, hdb⟩ | ⟨x, t, hinsert, -, -, hdb⟩⟩ :=
    hS.upsert_db hundone
  · -- the entry finds one row only, so it finds neither of the two
    have hother : r.id ≠ r₀.id ∧ r'.id ≠ r₀.id := by
      constructor
      · intro hid
        obtain rfl := List.inj_on_of_nodup_map (s.db k).nodup hr hr₀ hid
        exact hne (congrArg Row.id (honly r' hr' ((hS.finds_iff hkey).mpr hfind₀)))
      · intro hid
        obtain rfl := List.inj_on_of_nodup_map (s.db k).nodup hr' hr₀ hid
        exact hne (congrArg Row.id (honly r hr ((hS.finds_iff hkey).mp hfind₀))).symm
    rw [hdb]
    exact ⟨mem_write hr hother.1, r', mem_write hr' hother.2, hne, hkey⟩
  · rw [hdb]
    exact ⟨hr, r', hr', hne, hkey⟩
  · obtain ⟨-, hrows⟩ := rows_insert hinsert
    rw [hdb]
    refine ⟨?_, r', ?_, hne, hkey⟩
    · rw [hrows]
      exact List.mem_append_left _ hr
    · rw [hrows]
      exact List.mem_append_left _ hr'

theorem alone_or_shared {t : Table} {r : Row} (h : r ∈ t.rows) : Alone k t r ∨ Shared k t r := by
  by_cases hother : ∃ r' ∈ t.rows, r'.id ≠ r.id ∧ SameKey k r' r
  · exact Or.inr ⟨h, hother⟩
  · refine Or.inl ⟨h, fun r' hr' hkey => ?_⟩
    by_contra hne
    refine hother ⟨r', hr', fun hid => ?_, hkey⟩
    exact hne (List.inj_on_of_nodup_map t.nodup hr' h hid)

end HxDeploy
