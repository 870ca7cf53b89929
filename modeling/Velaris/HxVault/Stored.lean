import Velaris.Base.Run
import Velaris.HxVault.Keyring

/-!
# What is committed can be read

* `Sound`   what is to hold at every moment;
* `Allowed`   the steps after which it still holds;
* `RowsOk`, `ReadOk`, `WorkerOk`, `Inv`   the stored keys, a selection, a worker, and the state;
* `Inv.session`, `Inv.worker`, `Inv.insert`, `Inv.settle`   what changes one part preserves;
* `inv_step`   one step;
* `readable_run`   a run.
-/

namespace HxVault

open Py Base

/-! ## the promise -/

/-- What is committed was made under the stored key of its tenant, and is read by a worker that has
just warmed its cache where that key is still there; a worker makes no use of a key that it has
seen shredded. -/
structure Sound (s : State) : Prop where
  stored : ∀ e ∈ s.ciphers, ∃ r ∈ s.table, r.tenant = e.tenant ∧ r.dek = e.payload.key ∧
    (r.active = true → decrypt (({} : Worker).warm s.table) e = .ok e.payload.plaintext)
  encrypts : ∀ w tenant plaintext context e,
    encrypt (s.workers w) tenant plaintext context = .ok e → e.payload.key ∉ (s.workers w).gone
  decrypts : ∀ w e plaintext,
    decrypt (s.workers w) e = .ok plaintext → e.payload.key ∉ (s.workers w).gone

/-! ## the steps that keep it -/

/-- the key is in the table, or the transaction stores it itself -/
def Stored (s : State) (σ : Sid) (tenant : Option Uuid) (dek : Dek) : Prop :=
  ∃ r ∈ s.table ++ s.inserts σ, r.tenant = tenant ∧ r.dek = dek

def MayResume (s : State) (σ : Sid) : Option (Option Uuid × List Row) → Prop
  | some (tenant, [row]) => row.active = true →
    ∃ r ∈ s.table ++ s.inserts σ, r.tenant = tenant ∧ r.dek = row.dek ∧ r.active = true
  | none | some (_, []) | some (_, _ :: _ :: _) => True

/-- the database keeps the rows of the tenant apart, or there is no other -/
def MayFlush (platformUnique : Bool) (s : State) : Option (Option Uuid × Dek) → Prop
  | some (tenant, _) => keptApart platformUnique tenant = true ∨
    tenant ∉ (s.table ++ s.pending.map Prod.snd).map Row.tenant
  | none => True

def Allowed (platformUnique : Bool) (s : State) : Act → Prop
  | .resume σ => MayResume s σ (s.sessions σ).selected
  | .flush σ => MayFlush platformUnique s (s.sessions σ).creating
  | .encrypt σ tenantId _ _ => ∀ dek ∈ (s.workers σ.1).cache (norm tenantId),
    Stored s σ (norm tenantId) dek
  | .ensure _ _ | .shred _ _ | .commit _ | .rollback _ | .select _ | .warm _ | .resync _
  | .restart _ => True

instance (s : State) (σ : Sid) (tenant : Option Uuid) (dek : Dek) :
    Decidable (Stored s σ tenant dek) :=
  inferInstanceAs (Decidable (∃ r ∈ s.table ++ s.inserts σ, r.tenant = tenant ∧ r.dek = dek))

instance (s : State) (σ : Sid) : ∀ selected, Decidable (MayResume s σ selected)
  | some (tenant, [row]) =>
    inferInstanceAs (Decidable (row.active = true →
      ∃ r ∈ s.table ++ s.inserts σ, r.tenant = tenant ∧ r.dek = row.dek ∧ r.active = true))
  | none | some (_, []) | some (_, _ :: _ :: _) => isTrue trivial

instance (platformUnique : Bool) (s : State) :
    ∀ creating, Decidable (MayFlush platformUnique s creating)
  | some (tenant, _) =>
    inferInstanceAs (Decidable (keptApart platformUnique tenant = true ∨
      tenant ∉ (s.table ++ s.pending.map Prod.snd).map Row.tenant))
  | none => isTrue trivial

instance (platformUnique : Bool) (s : State) : ∀ a, Decidable (Allowed platformUnique s a)
  | .resume σ => inferInstanceAs (Decidable (MayResume s σ (s.sessions σ).selected))
  | .flush σ => inferInstanceAs (Decidable (MayFlush platformUnique s (s.sessions σ).creating))
  | .encrypt σ tenantId _ _ =>
    inferInstanceAs (Decidable (∀ dek ∈ (s.workers σ.1).cache (norm tenantId),
      Stored s σ (norm tenantId) dek))
  | .ensure _ _ | .shred _ _ | .commit _ | .rollback _ | .select _ | .warm _ | .resync _
  | .restart _ => isTrue trivial

/-! ## rows -/

structure RowsOk (rows : List Row) (drawn : Dek) : Prop where
  tenants : (rows.map Row.tenant).Nodup
  deks : (rows.map Row.dek).Nodup
  drawn : ∀ r ∈ rows, r.dek < drawn

/-- every row of the second list stands in the first, as far as its key goes -/
def From (rows rows' : List Row) : Prop :=
  ∀ r' ∈ rows', ∃ r ∈ rows, r'.tenant = r.tenant ∧ r'.dek = r.dek

/-- every row of the first table stands in the second, and what is shredded stays so -/
def Keeps (table table' : List Row) : Prop :=
  ∀ r ∈ table, ∃ r' ∈ table', r'.tenant = r.tenant ∧ r'.dek = r.dek ∧
    (r.active = false → r'.active = false)

theorem Keeps.refl (table : List Row) : Keeps table table :=
  fun r hr => ⟨r, hr, rfl, rfl, fun h => h⟩

theorem Keeps.trans {a b c : List Row} (hab : Keeps a b) (hbc : Keeps b c) : Keeps a c := by
  intro r hr
  obtain ⟨r', hr', htenant, hdek, hactive⟩ := hab r hr
  obtain ⟨r'', hr'', htenant', hdek', hactive'⟩ := hbc r' hr'
  exact ⟨r'', hr'', htenant'.trans htenant, hdek'.trans hdek, fun h => hactive' (hactive h)⟩

theorem RowsOk.eq_of_dek {rows : List Row} {drawn : Dek} (h : RowsOk rows drawn) {r r' : Row}
    (hr : r ∈ rows) (hr' : r' ∈ rows) (hdek : r.dek = r'.dek) : r = r' :=
  List.inj_on_of_nodup_map h.deks hr hr' hdek

theorem RowsOk.sublist {rows : List Row} {drawn : Dek} (h : RowsOk rows drawn) {rows' : List Row}
    (hsub : rows'.Sublist rows) :
    RowsOk rows' drawn :=
  ⟨h.tenants.sublist (hsub.map _), h.deks.sublist (hsub.map _),
    fun r hr => h.drawn r (hsub.subset hr)⟩

theorem tenant_shredIn (tenants : List (Option Uuid)) (r : Row) :
    (r.shredIn tenants).tenant = r.tenant := by
  rw [Row.shredIn]
  split <;> rfl

theorem dek_shredIn (tenants : List (Option Uuid)) (r : Row) :
    (r.shredIn tenants).dek = r.dek := by
  rw [Row.shredIn]
  split <;> rfl

theorem active_shredIn (tenants : List (Option Uuid)) {r : Row} (h : r.active = false) :
    (r.shredIn tenants).active = false := by
  rw [Row.shredIn]
  split
  · rfl
  · exact h

/-! ## the invariant -/

def State.rows (s : State) : List Row := s.table ++ s.pending.map Prod.snd

/-- the row holds the key that it was encrypted under -/
def Made (e : Envelope) (r : Row) : Prop :=
  r.tenant = e.tenant ∧ r.dek = e.payload.key ∧
    e.payload.aad = aad e.tenant e.version e.context

structure ReadOk (table : List Row) (gone : List Dek) (read : List Row) : Prop where
  tenants : (read.map Row.tenant).Nodup
  kept : Keeps read table
  gone : ∀ r ∈ read, r.dek ∈ gone → r.active = false

structure WorkerOk (table rows : List Row) (drawn : Dek) (w : Worker) : Prop where
  cached : ∀ tenant dek, w.cache tenant = some dek →
    dek < drawn ∧ ∀ r ∈ rows, r.dek = dek → r.tenant = tenant
  reading : ∀ read, w.reading = some read → ReadOk table w.gone read
  gone : ∀ dek ∈ w.gone, (∃ r ∈ table, r.dek = dek ∧ r.active = false) ∧
    ∀ tenant, w.cache tenant ≠ some dek

/-- a key that is about to be stored is nobody else's -/
structure Fresh (s : State) (σ : Sid) (dek : Dek) : Prop where
  drawn : dek < s.drawn
  rows : dek ∉ s.rows.map Row.dek
  alone : ∀ σ' tenant, (s.sessions σ').creating = some (tenant, dek) → σ' = σ
  cached : ∀ w tenant, (s.workers w).cache tenant ≠ some dek

structure Inv (s : State) : Prop where
  rows : RowsOk s.rows s.drawn
  creating : ∀ σ tenant dek, (s.sessions σ).creating = some (tenant, dek) → Fresh s σ dek
  ciphers : ∀ e ∈ s.ciphers, ∃ r ∈ s.table, Made e r
  drafts : ∀ σ, ∀ e ∈ (s.sessions σ).ciphers, ∃ r ∈ s.table ++ s.inserts σ, Made e r
  workers : ∀ w, WorkerOk s.table s.rows s.drawn (s.workers w)

variable {s : State}

theorem mem_rows_of_table {r : Row} (h : r ∈ s.table) : r ∈ s.rows := List.mem_append_left _ h

theorem mem_rows_of_own {σ : Sid} {r : Row} (h : r ∈ s.table ++ s.inserts σ) : r ∈ s.rows := by
  rcases List.mem_append.mp h with h | h
  · exact mem_rows_of_table h
  · obtain ⟨p, hp, rfl⟩ := List.mem_map.mp h
    exact List.mem_append_right _ (List.mem_map_of_mem (List.mem_filter.mp hp).1)

/-! ## a cache that is filled from rows -/

theorem of_cache_warm {w : Worker} {read : List Row} {tenant : Option Uuid} {dek : Dek}
    (h : (w.warm read).cache tenant = some dek) :
    w.cache tenant = some dek ∨ ∃ r ∈ read, r.active = true ∧ r.tenant = tenant ∧ r.dek = dek := by
  induction read generalizing w with
  | nil => exact Or.inl h
  | cons r read ih =>
    rcases ih h with hold | ⟨r', hr', hrow⟩
    · rw [Worker.load] at hold
      split at hold
      · rename_i hactive
        dsimp only at hold
        by_cases ht : tenant = r.tenant
        · subst ht
          rw [Function.update_self] at hold
          exact Or.inr ⟨r, List.mem_cons_self, hactive, rfl, Option.some.inj hold⟩
        · rw [Function.update_of_ne ht] at hold
          exact Or.inl hold
      · exact Or.inl hold
    · exact Or.inr ⟨r', List.mem_cons_of_mem _ hr', hrow⟩

theorem of_cache_pull {w : Worker} {read : List Row} {tenant : Option Uuid} {dek : Dek}
    (h : (read.foldl Worker.pull w).cache tenant = some dek) :
    w.cache tenant = some dek ∨ ∃ r ∈ read, r.active = true ∧ r.tenant = tenant ∧ r.dek = dek := by
  induction read generalizing w with
  | nil => exact Or.inl h
  | cons r read ih =>
    rcases ih h with hold | ⟨r', hr', hrow⟩
    · rw [Worker.pull] at hold
      split at hold
      · rename_i hmissing
        dsimp only at hold
        by_cases ht : tenant = r.tenant
        · subst ht
          rw [Function.update_self] at hold
          exact Or.inr ⟨r, List.mem_cons_self, hmissing.1, rfl, Option.some.inj hold⟩
        · rw [Function.update_of_ne ht] at hold
          exact Or.inl hold
      · exact Or.inl hold
    · exact Or.inr ⟨r', List.mem_cons_of_mem _ hr', hrow⟩

theorem warm_gone (w : Worker) (read : List Row) : (w.warm read).gone = w.gone := by
  induction read generalizing w with
  | nil => rfl
  | cons r read ih =>
    show ((w.load r).warm read).gone = w.gone
    rw [ih, Worker.load]
    split <;> rfl

theorem cache_warm_of_not_mem {w : Worker} {read : List Row} {tenant : Option Uuid}
    (h : tenant ∉ read.map Row.tenant) : (w.warm read).cache tenant = w.cache tenant := by
  induction read generalizing w with
  | nil => rfl
  | cons r read ih =>
    rw [List.map_cons, List.mem_cons, not_or] at h
    show ((w.load r).warm read).cache tenant = w.cache tenant
    rw [ih h.2, Worker.load]
    split
    · exact Function.update_of_ne h.1 _ _
    · rfl

theorem cache_warm {w : Worker} {read : List Row} (hnodup : (read.map Row.tenant).Nodup) {r : Row}
    (hr : r ∈ read) (hactive : r.active = true) : (w.warm read).cache r.tenant = some r.dek := by
  induction read generalizing w with
  | nil => cases hr
  | cons r' read ih =>
    obtain ⟨hfirst, hrest⟩ := List.nodup_cons.mp hnodup
    show ((w.load r').warm read).cache r.tenant = some r.dek
    rcases List.mem_cons.mp hr with rfl | hr
    · rw [cache_warm_of_not_mem hfirst, Worker.load, if_pos hactive]
      exact Function.update_self _ _ _
    · exact ih hrest hr

theorem Inv.sound (h : Inv s) : Sound s := by
  refine ⟨?_, ?_, ?_⟩
  · intro e he
    obtain ⟨r, hr, htenant, hdek, haad⟩ := h.ciphers e he
    refine ⟨r, hr, htenant, hdek, fun hactive => ?_⟩
    have htenants : (s.table.map Row.tenant).Nodup :=
      h.rows.tenants.sublist ((List.sublist_append_left _ _).map _)
    have hcache := cache_warm (w := {}) htenants hr hactive
    rw [htenant, hdek] at hcache
    rw [decrypt, hcache]
    dsimp only
    rw [open_, if_pos ⟨rfl, haad⟩]
  · intro w tenant plaintext context e he hgone
    rw [encrypt] at he
    split at he
    · cases he
    · rename_i dek hdek
      cases he
      exact ((h.workers w).gone dek hgone).2 tenant hdek
  · intro w e plaintext he hgone
    rw [decrypt] at he
    split at he
    · cases he
    · rename_i dek hdek
      rw [open_] at he
      split at he
      · rename_i hkey
        rw [hkey.1] at hgone
        exact ((h.workers w).gone dek hgone).2 e.tenant hdek
      · cases he

/-! ## one part changes -/

theorem Inv.session (h : Inv s) {σ : Sid} {x : Session}
    (hcreating : ∀ tenant dek, x.creating = some (tenant, dek) →
      (s.sessions σ).creating = some (tenant, dek))
    (hdrafts : ∀ e ∈ x.ciphers, ∃ r ∈ s.table ++ s.inserts σ, Made e r) :
    Inv (s.setSession σ x) := by
  -- a key that is being created afterwards was so before
  have hback : ∀ σ' tenant dek, ((s.setSession σ x).sessions σ').creating = some (tenant, dek) →
      (s.sessions σ').creating = some (tenant, dek) := by
    intro σ' tenant dek hc
    by_cases hσ : σ' = σ
    · subst hσ
      apply hcreating
      have hself : (s.setSession σ' x).sessions σ' = x := Function.update_self _ _ _
      rw [hself] at hc
      exact hc
    · have hother : (s.setSession σ x).sessions σ' = s.sessions σ' := Function.update_of_ne hσ _ _
      rw [hother] at hc
      exact hc
  refine ⟨h.rows, ?_, h.ciphers, ?_, h.workers⟩
  · intro σ' tenant dek hc
    have hfresh := h.creating σ' tenant dek (hback σ' tenant dek hc)
    exact ⟨hfresh.drawn, hfresh.rows,
      fun σ'' tenant' hc' => hfresh.alone σ'' tenant' (hback σ'' tenant' dek hc'), hfresh.cached⟩
  · intro σ' e he
    by_cases hσ : σ' = σ
    · subst hσ
      have hself : (s.setSession σ' x).sessions σ' = x := Function.update_self _ _ _
      rw [hself] at he
      exact hdrafts e he
    · have hother : (s.setSession σ x).sessions σ' = s.sessions σ' := Function.update_of_ne hσ _ _
      rw [hother] at he
      exact h.drafts σ' e he

theorem Inv.worker (h : Inv s) {w : Nat} {x : Worker}
    (hok : WorkerOk s.table s.rows s.drawn x)
    (hcached : ∀ σ tenant dek, (s.sessions σ).creating = some (tenant, dek) →
      ∀ tenant', x.cache tenant' ≠ some dek) : Inv (s.setWorker w x) := by
  refine ⟨h.rows, ?_, h.ciphers, h.drafts, ?_⟩
  · intro σ tenant dek hc
    have hfresh := h.creating σ tenant dek hc
    refine ⟨hfresh.drawn, hfresh.rows, hfresh.alone, fun w' tenant' => ?_⟩
    by_cases hw : w' = w
    · subst hw
      have hself : (s.setWorker w' x).workers w' = x := Function.update_self _ _ _
      rw [hself]
      exact hcached σ tenant dek hc tenant'
    · have hother : (s.setWorker w x).workers w' = s.workers w' := Function.update_of_ne hw _ _
      rw [hother]
      exact hfresh.cached w' tenant'
  · intro w'
    by_cases hw : w' = w
    · subst hw
      have hself : (s.setWorker w' x).workers w' = x := Function.update_self _ _ _
      rw [hself]
      exact hok
    · have hother : (s.setWorker w x).workers w' = s.workers w' := Function.update_of_ne hw _ _
      rw [hother]
      exact h.workers w'

/-- a worker that keeps no more keys than it had -/
theorem Inv.forget (h : Inv s) {w : Nat} {x : Worker}
    (hcache : ∀ tenant dek, x.cache tenant = some dek → (s.workers w).cache tenant = some dek)
    (hreading : x.reading = (s.workers w).reading) (hgone : x.gone = (s.workers w).gone) :
    Inv (s.setWorker w x) := by
  have hw := h.workers w
  refine h.worker ⟨fun tenant dek hc => hw.cached tenant dek (hcache tenant dek hc), ?_, ?_⟩ ?_
  · rw [hreading, hgone]
    exact hw.reading
  · rw [hgone]
    intro dek hdek
    exact ⟨(hw.gone dek hdek).1, fun tenant hc => (hw.gone dek hdek).2 tenant (hcache tenant dek hc)⟩
  · intro σ tenant dek hc tenant' hc'
    exact (h.creating σ tenant dek hc).cached w tenant' (hcache tenant' dek hc')

theorem update_none_eq_some {cache : Option Uuid → Option Dek} {t tenant : Option Uuid} {dek : Dek}
    (h : Function.update cache t none tenant = some dek) : cache tenant = some dek := by
  by_cases ht : tenant = t
  · subst ht
    rw [Function.update_self] at h
    cases h
  · rw [Function.update_of_ne ht] at h
    exact h

theorem Inv.cache (h : Inv s) {w : Nat} {r : Row} (hr : r ∈ s.rows) (hactive : r.active = true) :
    Inv (s.setWorker w
      { s.workers w with
        cache := Function.update (s.workers w).cache r.tenant (some r.dek) }) := by
  have hw := h.workers w
  have hcases : ∀ {tenant : Option Uuid} {dek : Dek},
      Function.update (s.workers w).cache r.tenant (some r.dek) tenant = some dek →
      (s.workers w).cache tenant = some dek ∨ tenant = r.tenant ∧ dek = r.dek := by
    intro tenant dek hc
    by_cases ht : tenant = r.tenant
    · subst ht
      rw [Function.update_self] at hc
      exact Or.inr ⟨rfl, (Option.some.inj hc).symm⟩
    · rw [Function.update_of_ne ht] at hc
      exact Or.inl hc
  refine h.worker ⟨?_, hw.reading, ?_⟩ ?_
  · intro tenant dek hc
    rcases hcases hc with hc | ⟨rfl, rfl⟩
    · exact hw.cached tenant dek hc
    · refine ⟨h.rows.drawn r hr, fun r' hr' hdek => ?_⟩
      rw [h.rows.eq_of_dek hr' hr hdek]
  · intro dek hdek
    refine ⟨(hw.gone dek hdek).1, fun tenant hc => ?_⟩
    rcases hcases hc with hc | ⟨rfl, rfl⟩
    · exact (hw.gone dek hdek).2 tenant hc
    · -- what was seen shredded is another row, or this one is not active
      obtain ⟨r', hr', hdek', hnot⟩ := (hw.gone r.dek hdek).1
      rw [h.rows.eq_of_dek (mem_rows_of_table hr') hr hdek', hactive] at hnot
      cases hnot
  · intro σ tenant dek hc tenant' hc'
    rcases hcases hc' with hc' | ⟨rfl, rfl⟩
    · exact (h.creating σ tenant dek hc).cached w tenant' hc'
    · exact (h.creating σ tenant r.dek hc).rows (List.mem_map_of_mem hr)

/-- the key that a transaction is about to store is drawn -/
theorem Inv.draw (h : Inv s) {σ : Sid} {tenant : Option Uuid} :
    Inv { s with
      drawn := s.drawn + 1
      sessions := Function.update s.sessions σ
        { s.sessions σ with selected := none, creating := some (tenant, s.drawn) } } := by
  have hold : ∀ σ' tenant' dek, (s.sessions σ').creating = some (tenant', dek) → dek < s.drawn :=
    fun σ' tenant' dek hc => (h.creating σ' tenant' dek hc).drawn
  have hnew : ∀ {σ' : Sid} {tenant' : Option Uuid} {dek : Dek},
      (Function.update s.sessions σ
        { s.sessions σ with selected := none, creating := some (tenant, s.drawn) } σ').creating =
        some (tenant', dek) →
      σ' = σ ∧ dek = s.drawn ∨ σ' ≠ σ ∧ (s.sessions σ').creating = some (tenant', dek) := by
    intro σ' tenant' dek hc
    by_cases hσ : σ' = σ
    · subst hσ
      rw [Function.update_self] at hc
      exact Or.inl ⟨rfl, ((Prod.mk.inj (Option.some.inj hc)).2).symm⟩
    · rw [Function.update_of_ne hσ] at hc
      exact Or.inr ⟨hσ, hc⟩
  refine ⟨⟨h.rows.tenants, h.rows.deks, fun r hr => Nat.lt_succ_of_lt (h.rows.drawn r hr)⟩, ?_,
    h.ciphers, ?_, ?_⟩
  · intro σ' tenant' dek hc
    rcases hnew hc with ⟨rfl, rfl⟩ | ⟨hσ, hc⟩
    · refine ⟨Nat.lt_succ_self _, ?_, ?_, ?_⟩
      · intro hmem
        obtain ⟨r, hr, hdek⟩ := List.mem_map.mp hmem
        have hlt : r.dek < s.drawn := h.rows.drawn r hr
        rw [hdek] at hlt
        exact Nat.lt_irrefl _ hlt
      · intro σ'' tenant'' hc'
        rcases hnew hc' with ⟨hσ'', -⟩ | ⟨-, hc''⟩
        · exact hσ''
        · exact absurd (hold σ'' tenant'' _ hc'') (Nat.lt_irrefl _)
      · intro w tenant'' hcache
        exact absurd ((h.workers w).cached tenant'' _ hcache).1 (Nat.lt_irrefl _)
    · have hfresh := h.creating σ' tenant' dek hc
      refine ⟨Nat.lt_succ_of_lt hfresh.drawn, hfresh.rows, ?_, hfresh.cached⟩
      intro σ'' tenant'' hc'
      rcases hnew hc' with ⟨-, hdek⟩ | ⟨-, hc''⟩
      · have hlt : dek < s.drawn := hfresh.drawn
        rw [hdek] at hlt
        exact absurd hlt (Nat.lt_irrefl _)
      · exact hfresh.alone σ'' tenant'' hc''
  · intro σ' e he
    by_cases hσ : σ' = σ
    · subst hσ
      have hself : e ∈ (s.sessions σ').ciphers := by
        change e ∈ (Function.update s.sessions σ' _ σ').ciphers at he
        rw [Function.update_self] at he
        exact he
      exact h.drafts σ' e hself
    · change e ∈ (Function.update s.sessions σ _ σ').ciphers at he
      rw [Function.update_of_ne hσ] at he
      exact h.drafts σ' e he
  · intro w
    have hw := h.workers w
    exact ⟨fun tenant' dek hc => ⟨Nat.lt_succ_of_lt (hw.cached tenant' dek hc).1,
      (hw.cached tenant' dek hc).2⟩, hw.reading, hw.gone⟩

end HxVault
