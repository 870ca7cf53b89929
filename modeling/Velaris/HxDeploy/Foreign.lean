import Velaris.HxDeploy.Apply

/-!
# The rows of others

* `foreign`   the rows that an import for a tenant is not to change;
* `Kind.anyones`   the kinds of which an entry may find anyone's row;
* `Inv`   what every part of an import keeps;
* `keeps_upsert`, `keeps_caseType`, …   the handlers;
* `inv_throughCaseTypes`, `inv_afterCaseTypes`   the import.
-/

namespace HxDeploy

open Py Base Attempt

/-! ## whose row -/

def Target.tokens (T : Target) : List String :=
  T.token :: (T.resolved.toList.flatMap fun p => [p.1, p.2])

/-- another tenant's, or a default that is not the target's to change -/
def Target.others (T : Target) (mine : String → Bool) : Option String → Bool
  | some owner => !mine owner
  | none => !T.isPlatform

def Target.othersId (T : Target) : Option String → Bool := T.others fun id => T.ownerId = some id

def Target.othersToken (T : Target) : Option String → Bool := T.others fun token => token ∈ T.tokens

def ofOthersType (T : Target) (db : Db) (r : Row) : Bool :=
  (db .caseType).rows.any fun c => r.cols.get "case_type_id" = .str c.id && T.othersId c.tenant

def foreign (T : Target) (db : Db) : Kind → Row → Bool
  | .dataModel, r | .calendar, r | .form, r | .rule, r | .caseType, r => T.othersId r.tenant
  | .stage, r | .step, r => ofOthersType T db r
  | .webhook, r => ofOthersType T db r || (r.cols.get "case_type_id" = .none && !T.isPlatform)
  | .role, r | .portal, r | .emailTemplate, r | .emailAccount, r | .connector, r | .process, r
  | .escalation, r | .outboundRule, r | .receiverRule, r | .group, r | .bot, r | .schedule, r =>
    T.othersToken r.tenant

def Kind.anyones : Kind → Bool
  | emailTemplate | emailAccount | process | escalation | webhook => true
  | dataModel | calendar | role | portal | connector | form | rule | caseType | stage | step
  | outboundRule | receiverRule | group | bot | schedule => false

/-- an import of case types writes their stages and steps as well -/
def caseTypeKinds : List Kind := [.caseType, .stage, .step]

def Part.kinds (part : Part) : List Kind :=
  if part.kind = .caseType then caseTypeKinds else [part.kind]

variable (T : Target) (db : Db)

def Safe (k : Kind) (id : Guid) : Prop :=
  k.anyones = false → ∀ r ∈ (db k).rows, foreign T db k r = true → r.id ≠ id

/-- what a part of an import that writes these kinds only keeps; `before` is where it starts -/
structure Inv (kinds : List Kind) (before : State) (s : State) : Prop where
  ids : ∀ k, ∀ p ∈ s.ids k, Safe T db k p.2
  kept : s.undone = false → ∀ k : Kind, k.anyones = false →
    ∀ r ∈ (db k).rows, foreign T db k r = true → r ∈ (s.db k).rows
  rows : ∀ k, k ∉ kinds → s.db k = before.db k
  recorded : ∀ k, k ∉ kinds → s.ids k = before.ids k
  undone : s.undone = false → before.undone = false

variable {T : Target} {db : Db} {before : State} {kinds : List Kind} {env : Env}

/-! ## the parts of a handler -/

theorem keeps_aside {α : Type} {m : Step α} (hdb : ∀ s, (m s).2.db = s.db)
    (hids : ∀ s, (m s).2.ids = s.ids) (hundone : ∀ s, (m s).2.undone = s.undone) :
    Keeps (Inv T db kinds before) m fun _ => True := by
  refine fun s hs => ⟨⟨?_, ?_, ?_, ?_, ?_⟩, fun _ _ => trivial⟩
  · rw [hids]
    exact hs.ids
  · rw [hdb, hundone]
    exact hs.kept
  · rw [hdb]
    exact hs.rows
  · rw [hids]
    exact hs.recorded
  · rw [hundone]
    exact hs.undone

theorem keeps_countImported : Keeps (Inv T db kinds before) countImported fun _ => True :=
  keeps_aside (fun _ => rfl) (fun _ => rfl) fun _ => rfl

theorem keeps_countSkipped : Keeps (Inv T db kinds before) countSkipped fun _ => True :=
  keeps_aside (fun _ => rfl) (fun _ => rfl) fun _ => rfl

theorem keeps_newId : Keeps (Inv T db kinds before) (newId env) fun _ => True :=
  keeps_aside (fun _ => rfl) (fun _ => rfl) fun _ => rfl

theorem keeps_needs (kind : String) (id : Guid) (name : Value) (detail : String) :
    Keeps (Inv T db kinds before) (needs kind id name detail) fun _ => True :=
  keeps_aside (fun _ => rfl) (fun _ => rfl) fun _ => rfl

theorem keeps_note (message : String) :
    Keeps (Inv T db kinds before) (note message) fun _ => True :=
  keeps_aside (fun _ => rfl) (fun _ => rfl) fun _ => rfl

theorem keeps_lift {α : Type} {x : Except Err α} :
    Keeps (Inv T db kinds before) (lift x : Step α) fun _ => True := Keeps.lift fun _ _ => trivial

theorem keeps_refuse (refusal : Option String) :
    Keeps (Inv T db kinds before) (refuse refusal) fun _ => True := by
  cases refusal with
  | none => exact Keeps.pure trivial
  | some message => exact Keeps.fail

theorem inv_flush {s : State} (hs : Inv T db kinds before s) :
    Inv T db kinds before (flush env s) := by
  rw [flush]
  split
  · exact hs
  · exact ⟨hs.ids, fun h => (nomatch h), hs.rows, hs.recorded, fun h => (nomatch h)⟩

theorem keeps_rowsWhere {k : Kind} {p : Row → Bool} :
    Keeps (Inv T db kinds before) (rowsWhere k p) fun rows => ∀ r ∈ rows, p r = true ∧
      (foreign T db k r = false → Safe T db k r.id) := by
  intro s hs
  rw [rowsWhere]
  split
  · exact ⟨hs, fun _ h => (nomatch h)⟩
  · rename_i hundone
    refine ⟨hs, fun rows h r hr => ?_⟩
    obtain rfl := Except.ok.inj h
    obtain ⟨hr, hp⟩ := List.mem_filter.mp hr
    refine ⟨hp, fun hmine hany r' hr' hforeign hid => ?_⟩
    have hthere := hs.kept (Bool.eq_false_of_not_eq_true hundone) k hany r' hr' hforeign
    rw [List.inj_on_of_nodup_map (s.db k).nodup hthere hr hid, hmine] at hforeign
    cases hforeign

theorem rows_setTable {s : State} (hs : Inv T db kinds before s) {k : Kind} (hk : k ∈ kinds)
    (t : Table) : ∀ k', k' ∉ kinds → (s.setTable k t).db k' = before.db k' := by
  intro k' hk'
  have hne : k' ≠ k := fun h => hk' (h ▸ hk)
  show Function.update s.db k t k' = before.db k'
  rw [Function.update_of_ne hne]
  exact hs.rows k' hk'

theorem keeps_writeRow {k : Kind} {id : Guid} {f : Dict → Dict} (hk : k ∈ kinds)
    (hsafe : Safe T db k id) : Keeps (Inv T db kinds before) (writeRow k id f) fun _ => True := by
  refine Keeps.alter fun s hs => ⟨hs.ids, ?_, rows_setTable hs hk _, hs.recorded, hs.undone⟩
  intro hundone k' hany r hr hforeign
  have hthere := hs.kept hundone k' hany r hr hforeign
  show r ∈ (Function.update s.db k ((s.db k).write id f) k').rows
  by_cases hkk : k' = k
  · subst hkk
    rw [Function.update_self]
    refine List.mem_map.mpr ⟨r, hthere, if_neg (hsafe hany r hr hforeign)⟩
  · rw [Function.update_of_ne hkk]
    exact hthere

theorem rows_insert {t t' : Table} {r : Row} (h : t.insert r = some t') :
    r.id ∉ t.rows.map Row.id ∧ t'.rows = t.rows ++ [r] := by
  rw [Table.insert] at h
  split at h
  · cases h
  · rename_i hnew
    obtain rfl := Option.some.inj h
    exact ⟨hnew, rfl⟩

theorem keeps_insertRow {k : Kind} {r : Row} (hk : k ∈ kinds) :
    Keeps (Inv T db kinds before) (insertRow k r) fun _ => Safe T db k r.id := by
  intro s hs
  rw [insertRow]
  split
  · exact ⟨hs, fun _ h => (nomatch h)⟩
  · rename_i hundone
    have hundone : s.undone = false := Bool.eq_false_of_not_eq_true hundone
    cases hinsert : (s.db k).insert r with
    | none =>
      exact ⟨⟨hs.ids, fun h => (nomatch h), hs.rows, hs.recorded, fun h => (nomatch h)⟩,
        fun _ h => (nomatch h)⟩
    | some t =>
      obtain ⟨hnew, hrows⟩ := rows_insert hinsert
      refine ⟨⟨hs.ids, ?_, rows_setTable hs hk _, hs.recorded, hs.undone⟩,
        fun _ _ hany r' hr' hforeign hid => ?_⟩
      · intro _ k' hany r' hr' hforeign
        have hthere := hs.kept hundone k' hany r' hr' hforeign
        show r' ∈ (Function.update s.db k t k').rows
        by_cases hkk : k' = k
        · subst hkk
          rw [Function.update_self, hrows]
          exact List.mem_append_left _ hthere
        · rw [Function.update_of_ne hkk]
          exact hthere
      · have hthere := hs.kept hundone k hany r' hr' hforeign
        rw [← hid] at hnew
        exact hnew (List.mem_map_of_mem hthere)

theorem keeps_record {k : Kind} {key : Value} {id : Guid} (hk : k ∈ kinds)
    (hsafe : Safe T db k id) :
    Keeps (Inv T db kinds before) (record k key id) fun _ => True := by
  rw [record]
  split
  · refine Keeps.alter fun s hs => ⟨?_, hs.kept, hs.rows, ?_, hs.undone⟩
    · intro k' p hp
      change p ∈ Function.update s.ids k ((key, id) :: s.ids k) k' at hp
      by_cases hkk : k' = k
      · subst hkk
        rw [Function.update_self] at hp
        rcases List.mem_cons.mp hp with rfl | hp
        · exact hsafe
        · exact hs.ids k' p hp
      · rw [Function.update_of_ne hkk] at hp
        exact hs.ids k' p hp
    · intro k' hk'
      have hne : k' ≠ k := fun h => hk' (h ▸ hk)
      show Function.update s.ids k ((key, id) :: s.ids k) k' = before.ids k'
      rw [Function.update_of_ne hne]
      exact hs.recorded k' hk'
  · exact Keeps.fail

theorem keeps_mapped {k : Kind} {key : Value} :
    Keeps (Inv T db kinds before) (mapped k key) fun o => ∀ id, o = some id → Safe T db k id := by
  rw [mapped]
  split
  · refine Keeps.read fun s hs id hid => ?_
    rw [IdMap.get] at hid
    obtain ⟨p, hp, rfl⟩ := Option.map_eq_some_iff.mp hid
    exact hs.ids k p (List.mem_of_find?_eq_some hp)
  · exact Keeps.fail

theorem keeps_reference {k : Kind} {e : Dict} {key : String} :
    Keeps (Inv T db kinds before) (reference k e key) fun o => ∀ id, o = some id → Safe T db k id :=
  keeps_mapped

theorem keeps_claimId {k : Kind} {source : Value} :
    Keeps (Inv T db kinds before) (claimId env k source) fun _ => True := by
  rw [claimId]
  split
  · exact keeps_newId
  · refine Keeps.bind keeps_rowsWhere fun rows _ => ?_
    split
    · exact keeps_newId
    · exact Keeps.pure trivial

theorem oneOrNone_mem {rows : List Row} {row : Row} (h : oneOrNone rows = .ok (some row)) :
    row ∈ rows := by
  match rows, h with
  | [r], h =>
    obtain rfl := Option.some.inj (Except.ok.inj h)
    exact List.mem_singleton.mpr rfl

/-! ## the row of an entry -/

def Kind.inherits : Kind → Bool
  | dataModel | calendar | form | rule | caseType => true
  | role | portal | emailTemplate | emailAccount | connector | process | stage | step | escalation
  | webhook | outboundRule | receiverRule | group | bot | schedule => false

theorem not_foreign_of_owner {k : Kind} (hk : k.inherits = true) {r : Row} {owner : Guid}
    (howner : T.ownerId = some owner) (hr : r.tenant = some owner) : foreign T db k r = false := by
  have hmine : T.othersId r.tenant = false := by
    rw [hr]
    show (!decide (T.ownerId = some owner)) = false
    rw [decide_eq_true howner]
    rfl
  cases k <;> first | exact hmine | cases hk

theorem not_foreign_of_platform {k : Kind} (hk : k.inherits = true) {r : Row}
    (hplatform : T.isPlatform = true) (hr : r.tenant = none ∨ r.tenant = T.ownerId) :
    foreign T db k r = false := by
  have hmine : T.othersId r.tenant = false := by
    rcases htenant : r.tenant with _ | owner
    · show (!T.isPlatform) = false
      rw [hplatform]
      rfl
    · rcases hr with hr | hr
      · rw [hr] at htenant
        cases htenant
      · show (!decide (T.ownerId = some owner)) = false
        rw [decide_eq_true (hr.symm.trans htenant)]
        rfl
  cases k <;> first | exact hmine | cases hk

theorem ownerId_of_not_platform (h : ¬T.isPlatform = true) :
    ∃ owner, T.ownerId = some owner := by
  cases howner : T.ownerId with
  | some owner => exact ⟨owner, rfl⟩
  | none =>
    refine absurd ?_ h
    rw [Target.isPlatform, howner]
    rfl

theorem newest_mem {rows : List Row} {row : Row} (h : newest rows = some row) : row ∈ rows := by
  induction rows generalizing row with
  | nil => cases h
  | cons r rows ih =>
    rw [newest] at h
    split at h
    · rename_i r' hr'
      split at h
      · obtain rfl := Option.some.inj h
        exact List.mem_cons_of_mem r (ih hr')
      · obtain rfl := Option.some.inj h
        exact List.mem_cons_self
    · obtain rfl := Option.some.inj h
      exact List.mem_cons_self

section
variable {k : Kind}

theorem keeps_fork (hk : k ∈ kinds) (hinherits : k.inherits = true) {default : Row} {owner : Guid}
    (howner : env.T.ownerId = some owner) :
    Keeps (Inv env.T db kinds before) (fork env k default owner) fun row =>
      Safe env.T db k row.id := by
  rw [fork]
  refine Keeps.bind keeps_rowsWhere fun forks hforks => ?_
  split
  · rename_i row hrow
    obtain ⟨hp, hsafe⟩ := hforks row (newest_mem hrow)
    have hp := of_decide_eq_true hp
    exact Keeps.pure (hsafe (not_foreign_of_owner hinherits howner hp.1))
  · refine Keeps.bind keeps_rowsWhere fun taken _ => ?_
    split
    · exact Keeps.fail
    · refine Keeps.bind keeps_newId fun id _ => ?_
      refine Keeps.bind (keeps_insertRow hk) fun _ hsafe => ?_
      refine Keeps.bind (Keeps.alter fun s hs => inv_flush hs) fun _ _ => ?_
      exact Keeps.pure hsafe

theorem keeps_ownedMatch (hk : k ∈ kinds) (hinherits : k.inherits = true) {ident : Dict} :
    Keeps (Inv env.T db kinds before) (ownedMatch env k ident) fun o =>
      ∀ row, o = some row → Safe env.T db k row.id := by
  rw [ownedMatch]
  split
  · rename_i hplatform
    refine Keeps.bind keeps_rowsWhere fun rows hrows => Keeps.pure fun row hrow => ?_
    have hmem : row ∈ rows := by
      rcases Option.or_eq_some_iff.mp hrow with h | ⟨-, h⟩
      · exact List.mem_of_find?_eq_some h
      · exact List.mem_of_mem_head? h
    obtain ⟨hp, hsafe⟩ := hrows row hmem
    exact hsafe (not_foreign_of_platform hinherits hplatform (of_decide_eq_true hp).2)
  · rename_i hplatform
    obtain ⟨owner, howner⟩ := ownerId_of_not_platform hplatform
    refine Keeps.bind keeps_rowsWhere fun own hown => ?_
    rw [howner] at hown ⊢
    cases hfirst : own.head? with
    | some row =>
      refine Keeps.pure fun row' hrow' => ?_
      obtain rfl := Option.some.inj hrow'
      obtain ⟨hp, hsafe⟩ := hown row (List.mem_of_mem_head? hfirst)
      exact hsafe (not_foreign_of_owner hinherits howner (of_decide_eq_true hp).2)
    | none =>
      refine Keeps.bind keeps_rowsWhere fun defaults _ => ?_
      split
      · exact Keeps.pure fun _ h => (nomatch h)
      · refine Keeps.bind (keeps_fork hk hinherits howner) fun row hsafe => Keeps.pure ?_
        intro row' hrow'
        obtain rfl := Option.some.inj hrow'
        exact hsafe

end

/-! ## one kind of resource -/

/-- an entry of the section finds no row of others, or anyone's is meant -/
def Section.Guards (S : Section) (T : Target) (db : Db) : Prop :=
  match S.reach with
  | .own => ∀ r : Row, r.tenant = some T.token → foreign T db S.kind r = false
  | .inherited => S.kind.inherits = true
  | .anyone => S.kind.anyones = true ∨ ∀ e ident, evaluate e S.key = .ok ident →
    ∀ r : Row, r.fits ident = true → foreign T db S.kind r = false

variable {S : Section}

theorem keeps_locate (hk : S.kind ∈ kinds) (hguards : S.Guards env.T db) (e : Dict) :
    Keeps (Inv env.T db kinds before) (locate env S e) fun o =>
      ∀ row, o = some row → Safe env.T db S.kind row.id := by
  rw [Section.Guards] at hguards
  rw [locate]
  refine Keeps.bind (Keeps.lift fun ident h => h) fun ident hident => ?_
  cases hreach : S.reach with
  | own =>
    rw [hreach] at hguards
    refine Keeps.bind keeps_rowsWhere fun rows hrows => Keeps.lift ?_
    rintro o ho row rfl
    obtain ⟨hp, hsafe⟩ := hrows row (oneOrNone_mem ho)
    exact hsafe (hguards row (of_decide_eq_true hp).2)
  | anyone =>
    rw [hreach] at hguards
    refine Keeps.bind keeps_rowsWhere fun rows hrows => Keeps.lift ?_
    rintro o ho row rfl
    obtain ⟨hp, hsafe⟩ := hrows row (oneOrNone_mem ho)
    rcases hguards with hany | hguards
    · intro hnot
      rw [hany] at hnot
      cases hnot
    · exact hsafe (hguards e ident hident row hp)
  | inherited =>
    rw [hreach] at hguards
    exact keeps_ownedMatch hk hguards

theorem keeps_recordId (hk : S.kind ∈ kinds) {e : Dict} {id : Guid}
    (hsafe : Safe T db S.kind id) :
    Keeps (Inv T db kinds before) (recordId S e id) fun _ => True := by
  rw [recordId]
  split
  · exact Keeps.bind keeps_lift fun _ _ => keeps_record hk hsafe
  · exact Keeps.pure trivial

theorem keeps_overwrite (hk : S.kind ∈ kinds) {e : Dict} {row : Row}
    (hsafe : Safe T db S.kind row.id) :
    Keeps (Inv T db kinds before) (overwrite S e row) fun _ => True := by
  rw [overwrite]
  refine Keeps.bind (keeps_writeRow hk hsafe) fun _ _ => ?_
  refine Keeps.bind keeps_lift fun _ _ => ?_
  exact Keeps.bind (keeps_recordId hk hsafe) fun _ _ => keeps_countSkipped

theorem keeps_create (hk : S.kind ∈ kinds) {e : Dict} :
    Keeps (Inv T db kinds before) (create env S e) fun _ => True := by
  have hid : Keeps (Inv T db kinds before) (idFor env S e) fun _ => True := by
    rw [idFor]
    split
    · exact keeps_claimId
    · exact keeps_newId
  rw [create]
  refine Keeps.bind hid fun id _ => ?_
  refine Keeps.bind keeps_lift fun cols _ => ?_
  refine Keeps.bind (keeps_insertRow hk) fun _ hsafe => ?_
  refine Keeps.bind (keeps_recordId hk hsafe) fun _ _ => ?_
  exact Keeps.bind keeps_countImported fun _ _ => Keeps.pure trivial

theorem keeps_store (hk : S.kind ∈ kinds) {e : Dict} {o : Option Row}
    (hsafe : ∀ row, o = some row → Safe T db S.kind row.id) :
    Keeps (Inv T db kinds before) (store env S e o) fun _ => True := by
  cases o with
  | some row => exact keeps_overwrite hk (hsafe row rfl)
  | none => exact Keeps.bind (keeps_create hk) fun _ _ => Keeps.pure trivial

theorem keeps_upsert (hk : S.kind ∈ kinds) (hguards : S.Guards env.T db) {e : Dict} :
    Keeps (Inv env.T db kinds before) (upsert env S e) fun _ => True :=
  Keeps.bind (keeps_locate hk hguards e) fun _ hsafe => keeps_store hk hsafe

/-! ## the handlers -/

theorem mem_tokens (T : Target) : T.token ∈ T.tokens := List.mem_cons_self

/-- the kinds of which a tenant finds its own rows by the text in `tenant_id` -/
def Kind.tokened : Kind → Bool
  | role | portal | emailTemplate | emailAccount | connector | process | escalation | outboundRule
  | receiverRule | group | bot | schedule => true
  | dataModel | calendar | form | rule | caseType | stage | step | webhook => false

theorem not_foreign_of_token {k : Kind} (hk : k.tokened = true) {r : Row}
    (hr : r.tenant = some T.token) : foreign T db k r = false := by
  have hmine : T.othersToken r.tenant = false := by
    rw [hr]
    show (!decide (T.token ∈ T.tokens)) = false
    rw [decide_eq_true (mem_tokens T)]
    rfl
  cases k <;> first | exact hmine | cases hk

theorem guards_of_own (hreach : S.reach = .own) (hk : S.kind.tokened = true) : S.Guards T db := by
  rw [Section.Guards, hreach]
  exact fun r hr => not_foreign_of_token hk hr

theorem guards_of_inherited (hreach : S.reach = .inherited) (hk : S.kind.inherits = true) :
    S.Guards T db := by
  rw [Section.Guards, hreach]
  exact hk

theorem guards_of_anyone (hreach : S.reach = .anyone) (hk : S.kind.anyones = true) :
    S.Guards T db := by
  rw [Section.Guards, hreach]
  exact Or.inl hk

theorem not_ofOthersType {caseType : Guid} (hsafe : Safe T db .caseType caseType) {r : Row}
    (hr : r.cols.get "case_type_id" = .str caseType) : ofOthersType T db r = false := by
  rw [ofOthersType, List.any_eq_false]
  intro c hc hboth
  rw [hr] at hboth
  obtain ⟨hid, hothers⟩ := (Bool.and_eq_true _ _).mp hboth
  exact hsafe rfl c hc hothers (Value.str.inj (of_decide_eq_true hid)).symm

theorem fits_caseType {e : Dict} {caseType : Guid} {name : String} (hname : name ≠ "case_type_id")
    {ident : Dict}
    (h : evaluate e [("case_type_id", .const (.str caseType)), (name, .item name)] = .ok ident)
    {r : Row} (hr : r.fits ident = true) : r.cols.get "case_type_id" = .str caseType := by
  have hmem : ("case_type_id", Value.str caseType) ∈ ident := by
    rw [evaluate, assign, Src.take] at h
    dsimp only at h
    rw [assign, Src.take] at h
    cases hlookup : e.lookup name with
    | none =>
      rw [hlookup] at h
      cases h
    | some v =>
      rw [hlookup] at h
      dsimp only at h
      rw [assign, Dict.set, Dict.set, if_neg (Ne.symm hname)] at h
      obtain rfl := Except.ok.inj h
      exact List.mem_cons_self
  exact of_decide_eq_true (List.all_eq_true.mp hr _ hmem)

theorem keeps_processDefinition (hk : .process ∈ kinds) (e : Dict) :
    Keeps (Inv env.T db kinds before) (processDefinition env e) fun _ => True := by
  rw [processDefinition]
  split
  · exact Keeps.fail
  · exact keeps_upsert hk (guards_of_anyone rfl rfl)

theorem keeps_formDefinition (hk : .form ∈ kinds) (e : Dict) :
    Keeps (Inv env.T db kinds before) (formDefinition env e) fun _ => True := by
  have hlocate : Keeps (Inv env.T db kinds before) (locate env (formDefinitions env none) e)
      fun o => ∀ row, o = some row → Safe env.T db .form row.id :=
    keeps_locate hk (guards_of_inherited rfl rfl) e
  refine Keeps.bind hlocate fun row hsafe => ?_
  refine Keeps.bind keeps_reference fun dataModel _ => ?_
  exact keeps_store hk hsafe

theorem keeps_escalationTree (hk : .escalation ∈ kinds) (e : Dict) :
    Keeps (Inv env.T db kinds before) (escalationTree env e) fun _ => True :=
  Keeps.bind keeps_reference fun _ _ => keeps_upsert hk (guards_of_anyone rfl rfl)

theorem keeps_webhookSubscription (hk : .webhook ∈ kinds) (e : Dict) :
    Keeps (Inv env.T db kinds before) (webhookSubscription env e) fun _ => True :=
  Keeps.bind keeps_reference fun _ _ => keeps_upsert hk (guards_of_anyone rfl rfl)

theorem keeps_outboundConnectorRule (hk : .outboundRule ∈ kinds) (e : Dict) :
    Keeps (Inv env.T db kinds before) (outboundConnectorRule env e) fun _ => True := by
  refine Keeps.bind keeps_reference fun _ _ => ?_
  exact Keeps.bind keeps_reference fun _ _ => keeps_upsert hk (guards_of_own rfl rfl)

theorem keeps_webhookReceiverRule (hk : .receiverRule ∈ kinds) (e : Dict) :
    Keeps (Inv env.T db kinds before) (webhookReceiverRule env e) fun _ => True :=
  Keeps.bind keeps_reference fun _ _ => keeps_upsert hk (guards_of_own rfl rfl)

theorem keeps_accessGroup (hk : .group ∈ kinds) (e : Dict) :
    Keeps (Inv env.T db kinds before) (accessGroup env e) fun _ => True := by
  refine Keeps.bind keeps_reference fun portal _ => ?_
  cases portal with
  | none => exact Keeps.fail
  | some portal => exact keeps_upsert hk (guards_of_own rfl rfl)

theorem keeps_stage (hk : .stage ∈ kinds) (e : Dict) :
    Keeps (Inv env.T db kinds before) (stage env e) fun _ => True := by
  refine Keeps.bind keeps_lift fun source _ => ?_
  refine Keeps.bind keeps_mapped fun caseType hsafe => ?_
  cases caseType with
  | none => exact keeps_countSkipped
  | some caseType =>
    have hguards : (stages caseType).Guards env.T db := Or.inr fun e ident hident r hr =>
      not_ofOthersType (hsafe caseType rfl) (fits_caseType (by decide) hident hr)
    exact keeps_upsert hk hguards

theorem keeps_step (hk : .step ∈ kinds) (e : Dict) :
    Keeps (Inv env.T db kinds before) (step env e) fun _ => True := by
  refine Keeps.bind keeps_lift fun source _ => ?_
  refine Keeps.bind keeps_mapped fun caseType hsafe => ?_
  refine Keeps.bind keeps_lift fun sourceStage _ => ?_
  refine Keeps.bind keeps_mapped fun stage _ => ?_
  rcases caseType with _ | caseType
  · exact keeps_countSkipped
  · rcases stage with _ | stage
    · exact keeps_countSkipped
    · have hguards : (steps caseType stage).Guards env.T db := Or.inr fun e ident hident r hr =>
        not_ofOthersType (hsafe caseType rfl) (fits_caseType (by decide) hident hr)
      exact keeps_upsert hk hguards

/-! ## case types -/

theorem keeps_copyRows {k : Kind} (hk : k ∈ kinds) (f : Dict → Dict) (rows : List Row) :
    Keeps (Inv T db kinds before) (copyRows env k f rows) fun _ => True := by
  induction rows with
  | nil => exact Keeps.pure trivial
  | cons row rows ih =>
    rw [copyRows]
    refine Keeps.bind keeps_newId fun id _ => ?_
    refine Keeps.bind (keeps_insertRow hk) fun _ _ => ?_
    exact Keeps.bind ih fun copied _ => Keeps.pure trivial

theorem keeps_forkCaseType (hkinds : caseTypeKinds ⊆ kinds) {default : Row} {owner : Guid}
    (howner : env.T.ownerId = some owner) :
    Keeps (Inv env.T db kinds before) (forkCaseType env default owner) fun row =>
      Safe env.T db .caseType row.id := by
  have hflush : Keeps (Inv env.T db kinds before) (alter (flush env) : Step Unit) fun _ => True :=
    Keeps.alter fun s hs => inv_flush hs
  have hcaseType : Kind.caseType ∈ kinds := hkinds (by decide)
  have hstage : Kind.stage ∈ kinds := hkinds (by decide)
  have hstep : Kind.step ∈ kinds := hkinds (by decide)
  rw [forkCaseType]
  refine Keeps.bind keeps_rowsWhere fun forks hforks => ?_
  split
  · rename_i row hrow
    obtain ⟨hp, hsafe⟩ := hforks row (newest_mem hrow)
    have hp := of_decide_eq_true hp
    exact Keeps.pure (hsafe (not_foreign_of_owner rfl howner hp.1))
  · refine Keeps.bind keeps_rowsWhere fun clash _ => ?_
    split
    · exact Keeps.fail
    · refine Keeps.bind keeps_newId fun id _ => ?_
      refine Keeps.bind (keeps_insertRow hcaseType) fun _ hsafe => ?_
      refine Keeps.bind hflush fun _ _ => ?_
      refine Keeps.bind keeps_rowsWhere fun stages _ => ?_
      refine Keeps.bind (keeps_copyRows hstage _ _) fun copied _ => ?_
      refine Keeps.bind hflush fun _ _ => ?_
      refine Keeps.bind keeps_rowsWhere fun steps _ => ?_
      refine Keeps.bind (keeps_copyRows hstep _ _) fun _ _ => ?_
      exact Keeps.bind hflush fun _ _ => Keeps.pure hsafe

theorem currentCaseType_mem {rows : List Row} {row : Row}
    (h : currentCaseType env rows = some row) : row ∈ rows := by
  match rows, h with
  | [r], h =>
    obtain rfl := Option.some.inj h
    exact List.mem_singleton.mpr rfl
  | r :: r' :: rows, h =>
    rcases Option.or_eq_some_iff.mp h with h | ⟨-, h⟩
    · exact List.mem_of_find?_eq_some h
    · obtain rfl := Option.some.inj h
      exact List.mem_cons_self

theorem replaced_mem {version : Value} {rows : List Row} {row : Row}
    (h : replaced env version rows = some row) : row ∈ rows := by
  rcases Option.or_eq_some_iff.mp h with h | ⟨-, h⟩
  · exact List.mem_of_find?_eq_some h
  · exact currentCaseType_mem h

theorem mem_byCreation {rows : List Row} {row : Row} (h : row ∈ byCreation rows) : row ∈ rows :=
  (List.perm_insertionSort _ rows).mem_iff.mp h

theorem keeps_sameName (hkinds : caseTypeKinds ⊆ kinds) {name version : Value} {staged : Bool} :
    Keeps (Inv env.T db kinds before) (sameName env name version staged) fun rows =>
      ∀ r ∈ rows, staged = true ∨ Safe env.T db .caseType r.id := by
  rw [sameName]
  refine Keeps.bind keeps_rowsWhere fun found hfound => ?_
  have hrows : ∀ r ∈ byCreation found, (r.tenant = none ∨ r.tenant = env.T.ownerId) ∧
      (foreign env.T db .caseType r = false → Safe env.T db .caseType r.id) := by
    intro r hr
    obtain ⟨hp, hsafe⟩ := hfound r (mem_byCreation hr)
    exact ⟨(of_decide_eq_true hp).2.2, hsafe⟩
  dsimp only
  split
  · rename_i hwide
    refine Keeps.pure fun r hr => ?_
    rcases hwide with hplatform | hstaged
    · exact Or.inr ((hrows r hr).2 (not_foreign_of_platform rfl hplatform (hrows r hr).1))
    · exact Or.inl hstaged
  · rename_i hnarrow
    obtain ⟨owner, howner⟩ := ownerId_of_not_platform fun h => hnarrow (Or.inl h)
    have hown : ∀ r ∈ (byCreation found).filter fun r => r.tenant.isSome,
        staged = true ∨ Safe env.T db .caseType r.id := by
      intro r hr
      obtain ⟨hr, hsome⟩ := List.mem_filter.mp hr
      obtain ⟨htenant, hsafe⟩ := hrows r hr
      rw [howner] at htenant
      rcases htenant with htenant | htenant
      · rw [htenant] at hsome
        cases hsome
      · exact Or.inr (hsafe (not_foreign_of_owner rfl howner htenant))
    split
    · rename_i base owner' hempty hbase howner'
      refine Keeps.bind (keeps_forkCaseType hkinds howner') fun row hsafe => Keeps.pure ?_
      intro r hr
      rw [List.mem_singleton.mp hr]
      exact Or.inr hsafe
    · exact Keeps.pure hown

theorem keeps_caseType (hkinds : caseTypeKinds ⊆ kinds) (e : Dict) :
    Keeps (Inv env.T db kinds before) (caseType env e) fun _ => True := by
  have hcaseType : Kind.caseType ∈ kinds := hkinds (by decide)
  rw [caseType]
  refine Keeps.bind keeps_lift fun name _ => ?_
  refine Keeps.bind keeps_lift fun version _ => ?_
  refine Keeps.bind (keeps_sameName hkinds) fun rows hrows => ?_
  split
  · split
    · exact Keeps.fail
    · refine Keeps.bind (keeps_create hcaseType) fun id _ => ?_
      exact keeps_aside (fun _ => rfl) (fun _ => rfl) fun _ => rfl
  · rename_i hreplace
    have hsafe : ∀ row, replaced env version rows = some row →
        Safe env.T db .caseType row.id := by
      intro row hrow
      rcases hrows row (replaced_mem hrow) with hstaged | hsafe
      · exact absurd ⟨hstaged, List.ne_nil_of_mem (replaced_mem hrow)⟩ hreplace
      · exact hsafe
    dsimp only
    split
    · rename_i row hrow
      split
      · exact Keeps.bind (keeps_note _) fun _ _ => keeps_recordId hcaseType (hsafe row hrow)
      · exact keeps_overwrite hcaseType (hsafe row hrow)
    · exact keeps_store hcaseType fun _ h => (nomatch h)

/-! ## bots and schedules -/

theorem keeps_ownByName {k : Kind} (hk : k.tokened = true) {name : Value} :
    Keeps (Inv env.T db kinds before) (ownByName env k name) fun o =>
      ∀ row, o = some row → Safe env.T db k row.id := by
  refine Keeps.bind keeps_rowsWhere fun rows hrows => Keeps.lift ?_
  rintro o ho row rfl
  obtain ⟨hp, hsafe⟩ := hrows row (oneOrNone_mem ho)
  exact hsafe (not_foreign_of_token hk (of_decide_eq_true hp).2)

theorem keeps_botDefinition (hk : .bot ∈ kinds) (e : Dict) :
    Keeps (Inv env.T db kinds before) (botDefinition env e) fun _ => True := by
  rw [botDefinition]
  refine Keeps.bind (keeps_refuse _) fun _ _ => ?_
  refine Keeps.bind (keeps_ownByName rfl) fun o hsafe => ?_
  refine Keeps.bind (keeps_refuse _) fun _ _ => ?_
  dsimp only
  cases o with
  | some row =>
    dsimp only
    split
    · exact Keeps.bind (keeps_record hk (hsafe row rfl)) fun _ _ => keeps_countSkipped
    · refine Keeps.bind (keeps_writeRow hk (hsafe row rfl)) fun _ _ => ?_
      refine Keeps.bind (keeps_record hk (hsafe row rfl)) fun _ _ => ?_
      refine Keeps.bind keeps_countImported fun _ _ => ?_
      split
      · exact keeps_needs _ _ _ _
      · exact Keeps.pure trivial
  | none =>
    refine Keeps.bind keeps_claimId fun id _ => ?_
    refine Keeps.bind (keeps_insertRow hk) fun _ hnew => ?_
    refine Keeps.bind (keeps_record hk hnew) fun _ _ => ?_
    exact Keeps.bind keeps_countImported fun _ _ => keeps_needs _ _ _ _

theorem keeps_remap {k : Kind} {key : String} {cfg : Dict} :
    Keeps (Inv T db kinds before) (remap env k key cfg) fun _ => True := by
  rw [remap]
  split
  · exact Keeps.read fun _ _ => trivial
  · exact Keeps.pure trivial

theorem keeps_schedule (hk : .schedule ∈ kinds) (e : Dict) :
    Keeps (Inv env.T db kinds before) (schedule env e) fun _ => True := by
  rw [schedule]
  refine Keeps.bind keeps_lift fun cfg _ => ?_
  refine Keeps.bind keeps_remap fun cfg _ => ?_
  refine Keeps.bind keeps_remap fun cfg _ => ?_
  refine Keeps.bind keeps_remap fun cfg _ => ?_
  refine Keeps.bind (P := fun _ => True) (Keeps.read fun _ _ => trivial) fun invalid _ => ?_
  refine Keeps.bind (keeps_refuse _) fun _ _ => ?_
  refine Keeps.bind (keeps_ownByName rfl) fun o hsafe => ?_
  dsimp only
  cases o with
  | some row =>
    dsimp only
    split
    · exact keeps_countSkipped
    · refine Keeps.bind (keeps_writeRow hk (hsafe row rfl)) fun _ _ => ?_
      exact Keeps.bind keeps_countImported fun _ _ => keeps_needs _ _ _ _
  | none =>
    refine Keeps.bind keeps_claimId fun id _ => ?_
    refine Keeps.bind (keeps_insertRow hk) fun _ _ => ?_
    exact Keeps.bind keeps_countImported fun _ _ => keeps_needs _ _ _ _

/-! ## the import -/

theorem inv_each {label name : String} {item : Dict → Step Unit}
    (hitem : ∀ e, Keeps (Inv T db kinds before) (item e) fun _ => True) (es : List Dict) {s : State}
    (hs : Inv T db kinds before s) : Inv T db kinds before (each env label name item es s) := by
  induction es generalizing s with
  | nil => exact hs
  | cons e es ih =>
    refine ih (inv_flush (Keeps.attempt (hitem e) (fun err s hs => ?_) hs))
    exact ⟨hs.ids, hs.kept, hs.rows, hs.recorded, hs.undone⟩

theorem keeps_throughCaseTypes {part : Part} (h : part ∈ throughCaseTypes env) (e : Dict) :
    Keeps (Inv env.T db part.kinds before) (part.item e) fun _ => True := by
  simp only [throughCaseTypes, List.mem_cons, List.not_mem_nil, or_false] at h
  rcases h with rfl | rfl | rfl | rfl | rfl | rfl | rfl | rfl | rfl | rfl | rfl
  · exact keeps_upsert (S := dataModels env) List.mem_cons_self (guards_of_inherited rfl rfl)
  · exact keeps_upsert (S := businessCalendars env) List.mem_cons_self (guards_of_inherited rfl rfl)
  · exact keeps_upsert (S := accessRoles env) List.mem_cons_self (guards_of_own rfl rfl)
  · exact keeps_upsert (S := portals env) List.mem_cons_self (guards_of_own rfl rfl)
  · exact keeps_upsert (S := emailTemplates env) List.mem_cons_self (guards_of_anyone rfl rfl)
  · exact keeps_upsert (S := emailAccounts env) List.mem_cons_self (guards_of_anyone rfl rfl)
  · exact keeps_upsert (S := connectors env) List.mem_cons_self (guards_of_own rfl rfl)
  · exact keeps_processDefinition List.mem_cons_self e
  · exact keeps_formDefinition List.mem_cons_self e
  · exact keeps_upsert (S := ruleDefinitions env) List.mem_cons_self (guards_of_inherited rfl rfl)
  · exact keeps_caseType (List.Subset.refl _) e

theorem keeps_afterCaseTypes {part : Part} (h : part ∈ afterCaseTypes env) (e : Dict) :
    Keeps (Inv env.T db part.kinds before) (part.item e) fun _ => True := by
  simp only [afterCaseTypes, List.mem_cons, List.not_mem_nil, or_false] at h
  rcases h with rfl | rfl | rfl | rfl | rfl | rfl | rfl | rfl | rfl
  · exact keeps_stage List.mem_cons_self e
  · exact keeps_step List.mem_cons_self e
  · exact keeps_escalationTree List.mem_cons_self e
  · exact keeps_webhookSubscription List.mem_cons_self e
  · exact keeps_outboundConnectorRule List.mem_cons_self e
  · exact keeps_webhookReceiverRule List.mem_cons_self e
  · exact keeps_accessGroup List.mem_cons_self e
  · exact keeps_botDefinition List.mem_cons_self e
  · exact keeps_schedule List.mem_cons_self e

theorem Inv.here {s : State} (h : Inv T db kinds before s) (kinds' : List Kind) :
    Inv T db kinds' s s :=
  ⟨h.ids, h.kept, fun _ _ => rfl, fun _ _ => rfl, fun hundone => hundone⟩

theorem Inv.trans {kinds' : List Kind} {s s' : State} (h : Inv T db kinds before s)
    (h' : Inv T db kinds' s s') : Inv T db (kinds ++ kinds') before s' := by
  refine ⟨h'.ids, h'.kept, ?_, ?_, fun hundone => h.undone (h'.undone hundone)⟩
  · intro k hk
    rw [List.mem_append, not_or] at hk
    rw [h'.rows k hk.2, h.rows k hk.1]
  · intro k hk
    rw [List.mem_append, not_or] at hk
    rw [h'.recorded k hk.2, h.recorded k hk.1]

theorem inv_runParts {parts : List Part}
    (hparts : ∀ part ∈ parts, ∀ (before : State) (e : Dict),
      Keeps (Inv env.T db part.kinds before) (part.item e) fun _ => True)
    (es : Entries) {s : State} (hs : Inv env.T db [] s s) :
    Inv env.T db (parts.flatMap Part.kinds) s (runParts env parts es s) := by
  induction parts generalizing s with
  | nil => exact hs
  | cons part parts ih =>
    have hone : Inv env.T db part.kinds s (runPart env es s part) :=
      inv_each (hparts part List.mem_cons_self s) (es part.kind) (hs.here _)
    have hrest := ih (fun p hp => hparts p (List.mem_cons_of_mem _ hp)) (hone.here [])
    exact hone.trans hrest

end HxDeploy
