import Velaris.HxVault.Stored

/-!
# Every interleaving of the key ring

* `Inv.insert`, `Inv.refresh`, `Inv.settle`   a new row, a cache that is filled from a selection, and
    the end of a transaction;
* `inv_step`   one step;
* `readable_run`   a run.
-/

namespace HxVault

open Py Base

variable {s : State}

/-! ## rows that change -/

theorem RowsOk.perm {rows rows' : List Row} {drawn : Dek} (h : RowsOk rows drawn)
    (htenants : (rows'.map Row.tenant).Perm (rows.map Row.tenant))
    (hdeks : (rows'.map Row.dek).Perm (rows.map Row.dek)) : RowsOk rows' drawn := by
  refine ⟨htenants.nodup_iff.mpr h.tenants, hdeks.nodup_iff.mpr h.deks, ?_⟩
  intro r hr
  obtain ⟨r', hr', hdek⟩ := List.mem_map.mp (hdeks.mem_iff.mp (List.mem_map_of_mem hr))
  rw [← hdek]
  exact h.drawn r' hr'

theorem map_tenant_shredIn (tenants : List (Option Uuid)) (rows : List Row) :
    (rows.map (Row.shredIn tenants)).map Row.tenant = rows.map Row.tenant := by
  rw [List.map_map]
  exact List.map_congr_left fun r _ => tenant_shredIn tenants r

theorem map_dek_shredIn (tenants : List (Option Uuid)) (rows : List Row) :
    (rows.map (Row.shredIn tenants)).map Row.dek = rows.map Row.dek := by
  rw [List.map_map]
  exact List.map_congr_left fun r _ => dek_shredIn tenants r

theorem inserts_perm (s : State) (σ : Sid) :
    (s.inserts σ ++ (s.pending.filter (·.1 ≠ σ)).map Prod.snd).Perm
      (s.pending.map Prod.snd) := by
  rw [State.inserts, ← List.map_append]
  refine List.Perm.map _ ?_
  have hsplit := List.filter_append_perm (fun p : Sid × Row => decide (p.1 = σ)) s.pending
  simpa only [decide_not] using hsplit

theorem Made.shredIn {e : Envelope} {r : Row} (h : Made e r) (tenants : List (Option Uuid)) :
    Made e (r.shredIn tenants) :=
  ⟨(tenant_shredIn tenants r).trans h.1, (dek_shredIn tenants r).trans h.2.1, h.2.2⟩

/-! ## a new row -/

theorem rows_insert (s : State) (σ : Sid) (r : Row) : (s.insert σ r).rows = s.rows ++ [r] := by
  show s.table ++ (s.pending ++ [(σ, r)]).map Prod.snd = s.rows ++ [r]
  rw [List.map_append, ← List.append_assoc]
  rfl

theorem mem_own_insert {σ σ' : Sid} {r r' : Row} (h : r ∈ s.table ++ s.inserts σ') :
    r ∈ s.table ++ (s.insert σ r').inserts σ' := by
  rcases List.mem_append.mp h with h | h
  · exact List.mem_append_left _ h
  · refine List.mem_append_right _ ?_
    show r ∈ ((s.pending ++ [(σ, r')]).filter (·.1 = σ')).map Prod.snd
    rw [List.filter_append, List.map_append]
    exact List.mem_append_left _ h

theorem Inv.insert (h : Inv s) {σ : Sid} {r : Row} (htenant : r.tenant ∉ s.rows.map Row.tenant)
    (hdek : r.dek ∉ s.rows.map Row.dek) (hdrawn : r.dek < s.drawn)
    (hcached : ∀ w tenant, (s.workers w).cache tenant ≠ some r.dek)
    (hnone : ∀ σ' tenant, (s.sessions σ').creating ≠ some (tenant, r.dek)) :
    Inv (s.insert σ r) := by
  refine ⟨?_, ?_, h.ciphers, ?_, ?_⟩
  · rw [rows_insert]
    refine ⟨?_, ?_, ?_⟩
    · rw [List.map_append, List.nodup_append]
      refine ⟨h.rows.tenants, List.nodup_singleton _, ?_⟩
      rintro t ht t' ht' rfl
      rw [List.map_singleton, List.mem_singleton] at ht'
      rw [ht'] at ht
      exact htenant ht
    · rw [List.map_append, List.nodup_append]
      refine ⟨h.rows.deks, List.nodup_singleton _, ?_⟩
      rintro d hd d' hd' rfl
      rw [List.map_singleton, List.mem_singleton] at hd'
      rw [hd'] at hd
      exact hdek hd
    · intro r' hr'
      rcases List.mem_append.mp hr' with hr' | hr'
      · exact h.rows.drawn r' hr'
      · rw [List.mem_singleton.mp hr']
        exact hdrawn
  · intro σ' tenant dek hc
    have hfresh := h.creating σ' tenant dek hc
    refine ⟨hfresh.drawn, ?_, hfresh.alone, hfresh.cached⟩
    rw [rows_insert, List.map_append, List.mem_append, not_or]
    refine ⟨hfresh.rows, fun hmem => ?_⟩
    rw [List.map_singleton, List.mem_singleton] at hmem
    rw [hmem] at hc
    exact hnone σ' tenant hc
  · intro σ' e he
    obtain ⟨r', hr', hmade⟩ := h.drafts σ' e he
    exact ⟨r', mem_own_insert hr', hmade⟩
  · intro w
    have hw := h.workers w
    refine ⟨fun tenant dek hc => ⟨(hw.cached tenant dek hc).1, ?_⟩, hw.reading, hw.gone⟩
    intro r' hr' hd
    rw [rows_insert] at hr'
    rcases List.mem_append.mp hr' with hr' | hr'
    · exact (hw.cached tenant dek hc).2 r' hr' hd
    · rw [List.mem_singleton.mp hr'] at hd
      rw [← hd] at hc
      exact absurd hc (hcached w tenant)

/-- the row of a key that was being created goes in, and the worker caches it -/
theorem Inv.flush (h : Inv s) {σ : Sid} {tenant : Option Uuid} {dek : Dek}
    (hcreating : (s.sessions σ).creating = some (tenant, dek))
    (htenant : tenant ∉ s.rows.map Row.tenant) :
    Inv (((s.insert σ ⟨tenant, dek, true⟩).setWorker σ.1
      { s.workers σ.1 with
        cache := Function.update (s.workers σ.1).cache tenant (some dek) }).setSession σ
      { s.sessions σ with creating := none }) := by
  have hfresh := h.creating σ tenant dek hcreating
  have hcleared : Inv (s.setSession σ { s.sessions σ with creating := none }) :=
    h.session (fun _ _ hc => (nomatch hc)) (h.drafts σ)
  -- nobody else is creating this key
  have hnone : ∀ σ' tenant',
      ((s.setSession σ { s.sessions σ with creating := none }).sessions σ').creating ≠
        some (tenant', dek) := by
    intro σ' tenant' hc
    change (Function.update s.sessions σ _ σ').creating = some (tenant', dek) at hc
    by_cases hσ : σ' = σ
    · rw [hσ, Function.update_self] at hc
      cases hc
    · rw [Function.update_of_ne hσ] at hc
      exact hσ (hfresh.alone σ' tenant' hc)
  have hin : Inv ((s.setSession σ { s.sessions σ with creating := none }).insert σ
      ⟨tenant, dek, true⟩) :=
    hcleared.insert htenant hfresh.rows hfresh.drawn hfresh.cached hnone
  have hmem : (⟨tenant, dek, true⟩ : Row) ∈
      ((s.setSession σ { s.sessions σ with creating := none }).insert σ
        ⟨tenant, dek, true⟩).rows := by
    rw [rows_insert]
    exact List.mem_append_right _ (List.mem_singleton.mpr rfl)
  exact hin.cache (w := σ.1) hmem rfl

/-! ## a cache that is filled from a selection -/

theorem Inv.refresh (h : Inv s) {w : Nat} {x : Worker} {read : List Row}
    (hcache : ∀ tenant dek, x.cache tenant = some dek →
      (s.workers w).cache tenant = some dek ∨
        ∃ r ∈ read, r.active = true ∧ r.tenant = tenant ∧ r.dek = dek)
    (hreading : x.reading = none)
    (hgone : ∀ dek ∈ x.gone, (∃ r ∈ s.table, r.dek = dek ∧ r.active = false) ∧
      ∀ tenant, x.cache tenant ≠ some dek)
    (hkept : Keeps read s.table) : Inv (s.setWorker w x) := by
  have hw := h.workers w
  refine h.worker ⟨?_, ?_, hgone⟩ ?_
  · intro tenant dek hc
    rcases hcache tenant dek hc with hc | ⟨r, hr, -, rfl, rfl⟩
    · exact hw.cached tenant dek hc
    · obtain ⟨r', hr', htenant, hdek, -⟩ := hkept r hr
      have hrow : r' ∈ s.rows := mem_rows_of_table hr'
      rw [← htenant, ← hdek]
      refine ⟨h.rows.drawn r' hrow, fun r'' hr'' hd => ?_⟩
      rw [h.rows.eq_of_dek hr'' hrow hd]
  · intro read' hread
    rw [hreading] at hread
    cases hread
  · intro σ tenant dek hc tenant' hc'
    have hfresh := h.creating σ tenant dek hc
    rcases hcache tenant' dek hc' with hc' | ⟨r, hr, -, -, rfl⟩
    · exact hfresh.cached w tenant' hc'
    · obtain ⟨r', hr', -, hdek, -⟩ := hkept r hr
      have hmem : r'.dek ∈ s.rows.map Row.dek := List.mem_map_of_mem (mem_rows_of_table hr')
      rw [hdek] at hmem
      exact hfresh.rows hmem

theorem Inv.select (h : Inv s) (w : Nat) :
    Inv (s.setWorker w { s.workers w with reading := some s.table }) := by
  have hw := h.workers w
  refine h.worker ⟨hw.cached, ?_, hw.gone⟩
    fun σ tenant dek hc => (h.creating σ tenant dek hc).cached w
  intro read hread
  obtain rfl := Option.some.inj hread
  refine ⟨h.rows.tenants.sublist ((List.sublist_append_left _ _).map _), Keeps.refl _, ?_⟩
  intro r hr hdek
  obtain ⟨r', hr', hsame, hactive⟩ := (hw.gone r.dek hdek).1
  rw [h.rows.eq_of_dek (mem_rows_of_table hr) (mem_rows_of_table hr') hsame.symm]
  exact hactive

theorem Inv.warm (h : Inv s) {w : Nat} {read : List Row}
    (hread : (s.workers w).reading = some read) :
    Inv (s.setWorker w { (s.workers w).warm read with reading := none }) := by
  have hw := h.workers w
  have hok := hw.reading read hread
  refine h.refresh (fun _ _ hc => of_cache_warm hc) rfl ?_ hok.kept
  intro dek hdek
  change dek ∈ ((s.workers w).warm read).gone at hdek
  rw [warm_gone] at hdek
  refine ⟨(hw.gone dek hdek).1, fun tenant hc => ?_⟩
  rcases of_cache_warm hc with hc | ⟨r, hr, hactive, -, rfl⟩
  · exact (hw.gone dek hdek).2 tenant hc
  · rw [hok.gone r hr hdek] at hactive
    cases hactive

theorem ReadOk.eq_of_dek {drawn : Dek} {table read : List Row} {gone : List Dek}
    (h : ReadOk table gone read) (hrows : RowsOk table drawn) {r r' : Row} (hr : r ∈ read)
    (hr' : r' ∈ read) (hdek : r.dek = r'.dek) : r = r' := by
  obtain ⟨a, ha, htenant, hd, -⟩ := h.kept r hr
  obtain ⟨b, hb, htenant', hd', -⟩ := h.kept r' hr'
  have hab : a = b := hrows.eq_of_dek ha hb (hd.trans (hdek.trans hd'.symm))
  rw [hab, htenant'] at htenant
  exact List.inj_on_of_nodup_map h.tenants hr hr' htenant.symm

theorem Inv.resync (h : Inv s) {w : Nat} {read : List Row}
    (hread : (s.workers w).reading = some read) :
    Inv (s.setWorker w { (s.workers w).resync read with reading := none }) := by
  have hw := h.workers w
  have hok := hw.reading read hread
  have htable : RowsOk s.table s.drawn := h.rows.sublist (List.sublist_append_left _ _)
  have hcache : ∀ tenant dek, ((s.workers w).resync read).cache tenant = some dek →
      (tenant ∈ (read.filter (·.active)).map Row.tenant) ∧
        ((s.workers w).cache tenant = some dek ∨
          ∃ r ∈ read, r.active = true ∧ r.tenant = tenant ∧ r.dek = dek) := by
    intro tenant dek hc
    rw [Worker.resync] at hc
    dsimp only at hc
    split at hc
    · rename_i hlive
      exact ⟨hlive, of_cache_pull hc⟩
    · cases hc
  refine h.refresh (fun tenant dek hc => (hcache tenant dek hc).2) rfl ?_ hok.kept
  intro dek hdek
  obtain ⟨r, hr, rfl⟩ := List.mem_map.mp hdek
  obtain ⟨hr, hnot⟩ := List.mem_filter.mp hr
  have hdead : r.active = false := by simpa using hnot
  obtain ⟨r', hr', htenant, hd, hshredded⟩ := hok.kept r hr
  refine ⟨⟨r', hr', hd, hshredded hdead⟩, fun tenant hc => ?_⟩
  obtain ⟨hlive, hc⟩ := hcache tenant r.dek hc
  rcases hc with hc | ⟨r₂, hr₂, hactive, -, hd₂⟩
  · -- the key that was cached is that of the row, and the row is not live
    have hname : r'.tenant = tenant :=
      (hw.cached tenant r.dek hc).2 r' (mem_rows_of_table hr') hd
    obtain ⟨r₂, hr₂, ht₂⟩ := List.mem_map.mp hlive
    obtain ⟨hr₂, hactive⟩ := List.mem_filter.mp hr₂
    have hsame : r = r₂ :=
      List.inj_on_of_nodup_map hok.tenants hr hr₂ (htenant.symm.trans (hname.trans ht₂.symm))
    rw [← hsame, hdead] at hactive
    cases hactive
  · rw [hok.eq_of_dek htable hr₂ hr hd₂, hdead] at hactive
    cases hactive

/-! ## the end of a transaction -/

theorem Inv.settle (h : Inv s) {s' : State} (hrows : RowsOk s'.rows s.drawn)
    (hdrawn : s'.drawn = s.drawn) (hfrom : From s.rows s'.rows) (hkeeps : Keeps s.table s'.table)
    (hcreating : ∀ σ tenant dek, (s'.sessions σ).creating = some (tenant, dek) →
      (s.sessions σ).creating = some (tenant, dek))
    (hciphers : ∀ e ∈ s'.ciphers, ∃ r ∈ s'.table, Made e r)
    (hdrafts : ∀ σ, ∀ e ∈ (s'.sessions σ).ciphers, ∃ r ∈ s'.table ++ s'.inserts σ, Made e r)
    (hworkers : ∀ w, s'.workers w = s.workers w ∨ s'.workers w = {}) : Inv s' := by
  have hcached : ∀ w tenant dek, (s'.workers w).cache tenant = some dek →
      (s.workers w).cache tenant = some dek := by
    intro w tenant dek hc
    rcases hworkers w with hw | hw
    · rw [hw] at hc
      exact hc
    · rw [hw] at hc
      cases hc
  refine ⟨?_, ?_, hciphers, hdrafts, ?_⟩
  · rw [hdrawn]
    exact hrows
  · intro σ tenant dek hc
    have hfresh := h.creating σ tenant dek (hcreating σ tenant dek hc)
    refine ⟨?_, ?_, fun σ' tenant' hc' => hfresh.alone σ' tenant' (hcreating σ' tenant' dek hc'),
      fun w tenant' hc' => hfresh.cached w tenant' (hcached w tenant' dek hc')⟩
    · rw [hdrawn]
      exact hfresh.drawn
    · intro hmem
      obtain ⟨r', hr', rfl⟩ := List.mem_map.mp hmem
      obtain ⟨r, hr, -, hdek⟩ := hfrom r' hr'
      rw [hdek] at hfresh
      exact hfresh.rows (List.mem_map_of_mem hr)
  · intro w
    have hold := h.workers w
    refine ⟨?_, ?_, ?_⟩
    · intro tenant dek hc
      rw [hdrawn]
      refine ⟨(hold.cached tenant dek (hcached w tenant dek hc)).1, fun r' hr' hd => ?_⟩
      obtain ⟨r, hr, htenant, hdek⟩ := hfrom r' hr'
      rw [htenant]
      exact (hold.cached tenant dek (hcached w tenant dek hc)).2 r hr (hdek.symm.trans hd)
    · intro read hread
      rcases hworkers w with hw | hw
      · rw [hw] at hread ⊢
        have hok := hold.reading read hread
        exact ⟨hok.tenants, hok.kept.trans hkeeps, hok.gone⟩
      · rw [hw] at hread
        cases hread
    · intro dek hdek
      rcases hworkers w with hw | hw
      · rw [hw] at hdek ⊢
        obtain ⟨⟨r, hr, hd, hactive⟩, hnot⟩ := hold.gone dek hdek
        obtain ⟨r', hr', -, hd', hactive'⟩ := hkeeps r hr
        exact ⟨⟨r', hr', hd'.trans hd, hactive' hactive⟩, hnot⟩
      · rw [hw] at hdek
        cases hdek

theorem inserts_filter {p : Sid × Row → Bool} {σ : Sid} (h : ∀ r, p (σ, r) = true) :
    ((s.pending.filter p).filter (·.1 = σ)).map Prod.snd = s.inserts σ := by
  rw [State.inserts, List.filter_filter]
  refine congrArg (List.map Prod.snd) (List.filter_congr fun q _ => ?_)
  by_cases hσ : q.1 = σ
  · have hp : p q = true := by
      rw [← hσ] at h
      exact h q.2
    simp [hσ, hp]
  · simp [hσ]

theorem Inv.drop (h : Inv s) {p : Sid × Row → Bool} {sessions : Sid → Session}
    {workers : Nat → Worker}
    (hsessions : ∀ σ, sessions σ = {} ∨ sessions σ = s.sessions σ ∧ ∀ r, p (σ, r) = true)
    (hworkers : ∀ w, workers w = s.workers w ∨ workers w = {}) :
    Inv { s with pending := s.pending.filter p, sessions := sessions, workers := workers } := by
  have hsub : (s.table ++ (s.pending.filter p).map Prod.snd).Sublist s.rows :=
    List.Sublist.append (List.Sublist.refl _) (List.filter_sublist.map _)
  refine h.settle (h.rows.sublist hsub) rfl (fun r hr => ⟨r, hsub.subset hr, rfl, rfl⟩)
    (Keeps.refl _) ?_ h.ciphers ?_ hworkers
  · intro σ tenant dek hc
    rcases hsessions σ with hσ | ⟨hσ, -⟩
    · change (sessions σ).creating = _ at hc
      rw [hσ] at hc
      cases hc
    · change (sessions σ).creating = _ at hc
      rw [hσ] at hc
      exact hc
  · intro σ e he
    change e ∈ (sessions σ).ciphers at he
    rcases hsessions σ with hσ | ⟨hσ, hp⟩
    · rw [hσ] at he
      cases he
    · rw [hσ] at he
      obtain ⟨r, hr, hmade⟩ := h.drafts σ e he
      refine ⟨r, ?_, hmade⟩
      show r ∈ s.table ++ ((s.pending.filter p).filter (·.1 = σ)).map Prod.snd
      rw [inserts_filter hp]
      exact hr

theorem Inv.rollback (h : Inv s) (σ : Sid) : Inv (s.rollback σ) := by
  refine h.drop (fun σ' => ?_) fun w => Or.inl rfl
  by_cases hσ : σ' = σ
  · rw [hσ, Function.update_self]
    exact Or.inl rfl
  · rw [Function.update_of_ne hσ]
    exact Or.inr ⟨rfl, fun _ => decide_eq_true hσ⟩

theorem Inv.restart (h : Inv s) (w : Nat) : Inv (s.restart w) := by
  refine h.drop (fun σ => ?_) fun w' => ?_
  · by_cases hσ : σ.1 = w
    · exact Or.inl (if_pos hσ)
    · exact Or.inr ⟨if_neg hσ, fun _ => decide_eq_true hσ⟩
  · by_cases hw : w' = w
    · rw [hw, Function.update_self]
      exact Or.inr rfl
    · rw [Function.update_of_ne hw]
      exact Or.inl rfl

theorem Inv.commit (h : Inv s) (σ : Sid) : Inv (s.commit σ) := by
  have hshred : ∀ r ∈ s.table ++ s.inserts σ,
      r.shredIn (s.sessions σ).shreds ∈ s.view σ := fun r hr => List.mem_map_of_mem hr
  have htable : ∀ e, (∃ r ∈ s.table ++ s.inserts σ, Made e r) → ∃ r ∈ s.view σ, Made e r := by
    rintro e ⟨r, hr, hmade⟩
    exact ⟨_, hshred r hr, hmade.shredIn _⟩
  have hperm := (List.Perm.refl s.table).append (inserts_perm s σ)
  rw [← List.append_assoc] at hperm
  refine h.settle (h.rows.perm ?_ ?_) rfl ?_ ?_ ?_ ?_ ?_ fun w => Or.inl rfl
  · show ((s.view σ ++ (s.pending.filter (·.1 ≠ σ)).map Prod.snd).map Row.tenant).Perm _
    rw [List.map_append, State.view, map_tenant_shredIn, ← List.map_append]
    exact hperm.map _
  · show ((s.view σ ++ (s.pending.filter (·.1 ≠ σ)).map Prod.snd).map Row.dek).Perm _
    rw [List.map_append, State.view, map_dek_shredIn, ← List.map_append]
    exact hperm.map _
  · intro r' hr'
    rcases List.mem_append.mp hr' with hr' | hr'
    · obtain ⟨r, hr, rfl⟩ := List.mem_map.mp hr'
      exact ⟨r, mem_rows_of_own hr, tenant_shredIn _ r, dek_shredIn _ r⟩
    · exact ⟨r', hperm.mem_iff.mp (List.mem_append_right _ hr'), rfl, rfl⟩
  · intro r hr
    exact ⟨_, hshred r (List.mem_append_left _ hr), tenant_shredIn _ r, dek_shredIn _ r,
      active_shredIn _⟩
  · intro σ' tenant dek hc
    change (Function.update s.sessions σ {} σ').creating = _ at hc
    by_cases hσ : σ' = σ
    · rw [hσ, Function.update_self] at hc
      cases hc
    · rw [Function.update_of_ne hσ] at hc
      exact hc
  · intro e he
    rcases List.mem_append.mp he with he | he
    · obtain ⟨r, hr, hmade⟩ := h.ciphers e he
      exact htable e ⟨r, List.mem_append_left _ hr, hmade⟩
    · exact htable e (h.drafts σ e he)
  · intro σ' e he
    change e ∈ (Function.update s.sessions σ {} σ').ciphers at he
    by_cases hσ : σ' = σ
    · rw [hσ, Function.update_self] at he
      cases he
    · rw [Function.update_of_ne hσ] at he
      obtain ⟨r, hr, hmade⟩ := h.drafts σ' e he
      have hinserts : (s.commit σ).inserts σ' = s.inserts σ' :=
        inserts_filter fun _ => decide_eq_true hσ
      rw [hinserts]
      rcases List.mem_append.mp hr with hr | hr
      · exact ⟨_, List.mem_append_left _ (hshred r (List.mem_append_left _ hr)), hmade.shredIn _⟩
      · exact ⟨r, List.mem_append_right _ hr, hmade⟩

/-! ## one step -/

variable {platformUnique : Bool}

theorem Inv.resume (h : Inv s) {σ : Sid} (ha : Allowed platformUnique s (.resume σ)) :
    Inv (step platformUnique s (.resume σ)) := by
  rw [Allowed] at ha
  -- a request that has its answer goes on without it
  have hcleared : ∀ {s' : State}, Inv s' → s'.sessions = s.sessions → s'.table = s.table →
      s'.pending = s.pending → Inv (s'.setSession σ { s.sessions σ with selected := none }) := by
    intro s' h' hsessions htable hpending
    refine h'.session (fun _ _ hc => ?_) fun e he => ?_
    · rw [hsessions]
      exact hc
    · rw [State.inserts, htable, hpending]
      exact h.drafts σ e he
  rw [step]
  dsimp only
  rcases hselected : (s.sessions σ).selected with _ | ⟨tenant, _ | ⟨row, _ | ⟨row', rows⟩⟩⟩
  · exact h
  · exact h.draw
  · dsimp only
    rw [hselected] at ha
    split
    · rename_i hactive
      obtain ⟨r, hr, rfl, hdek, hr'⟩ := ha hactive
      rw [← hdek]
      exact hcleared (h.cache (w := σ.1) (mem_rows_of_own hr) hr') rfl rfl rfl
    · exact hcleared (h.forget (w := σ.1) (fun _ _ hc => hc) rfl rfl) rfl rfl rfl
  · exact hcleared h rfl rfl rfl

theorem inv_step (a : Act) (h : Inv s) (ha : Allowed platformUnique s a) :
    Inv (step platformUnique s a) := by
  cases a with
  | ensure σ tenantId =>
    rw [step]
    split
    · exact h.session (fun _ _ hc => hc) (h.drafts σ)
    · exact h
  | resume σ => exact h.resume ha
  | flush σ =>
    rw [step]
    rw [Allowed] at ha
    rcases hcreating : (s.sessions σ).creating with _ | ⟨tenant, dek⟩
    · exact h
    · rw [hcreating] at ha
      dsimp only
      split
      · exact h.rollback σ
      · rename_i hown
        split
        · exact h
        · rename_i hothers
          refine h.flush hcreating fun hmem => ?_
          rcases ha with hkept | hnew
          · rw [State.rows, List.map_append] at hmem
            rcases List.mem_append.mp hmem with hmem | hmem
            · refine hown ⟨hkept, ?_⟩
              rw [List.map_append]
              exact List.mem_append_left _ hmem
            · rw [List.map_map] at hmem
              exact hothers ⟨hkept, hmem⟩
          · exact hnew hmem
  | encrypt σ tenantId plaintext context =>
    rw [step]
    rw [Allowed] at ha
    rcases hcached : (s.workers σ.1).cache (norm tenantId) with _ | dek
    · rw [encrypt, hcached]
      exact h
    · rw [encrypt, hcached]
      dsimp only
      split
      · refine h.session (fun _ _ hc => hc) fun e he => ?_
        rcases List.mem_append.mp he with he | he
        · exact h.drafts σ e he
        · obtain ⟨r, hr, htenant, hdek⟩ := ha dek hcached
          rw [List.mem_singleton.mp he]
          exact ⟨r, hr, htenant, hdek, rfl⟩
      · exact h
  | shred σ tenantId =>
    rw [step]
    split
    · rcases s.rowsOf σ (norm tenantId) with _ | ⟨row, _ | ⟨row', rows⟩⟩
      · exact h.forget (fun _ _ hc => update_none_eq_some hc) rfl rfl
      · have hw : Inv (s.setWorker σ.1
            { s.workers σ.1 with
              cache := Function.update (s.workers σ.1).cache (norm tenantId) none
              shredded := norm tenantId :: (s.workers σ.1).shredded }) :=
          h.forget (fun _ _ hc => update_none_eq_some hc) rfl rfl
        exact hw.session (fun _ _ hc => hc) (h.drafts σ)
      · exact h
    · exact h
  | commit σ =>
    rw [step]
    split
    · exact h.commit σ
    · exact h
  | rollback σ => exact h.rollback σ
  | select w => exact h.select w
  | warm w =>
    rw [step]
    rcases hread : (s.workers w).reading with _ | read
    · exact h
    · exact h.warm hread
  | resync w =>
    rw [step]
    rcases hread : (s.workers w).reading with _ | read
    · exact h
    · exact h.resync hread
  | restart w => exact h.restart w

/-! ## runs -/

theorem inv_start : Inv {} :=
  ⟨⟨List.nodup_nil, List.nodup_nil, fun _ hr => (nomatch hr)⟩, fun _ _ _ hc => (nomatch hc),
    fun _ he => (nomatch he), fun _ _ he => (nomatch he),
    fun _ => ⟨fun _ _ hc => (nomatch hc), fun _ hread => (nomatch hread),
      fun _ hdek => (nomatch hdek)⟩⟩

theorem readable_run (platformUnique : Bool) (acts : List Act)
    (h : Along (step platformUnique) (Allowed platformUnique) {} acts) :
    Always (step platformUnique) Sound {} acts := by
  intro done left hsplit
  rw [hsplit, along_append] at h
  exact (exec_inv (fun _ a hs ha => inv_step a hs ha) inv_start h.1).sound

/-! ## two workers -/

def acme : String := "00000000-0000-0000-0000-0000000000ac"

/-- a session makes sure of the key, encrypts and commits -/
def writes (σ : Sid) (tenantId : Option String) : List Act :=
  [.ensure σ tenantId, .resume σ, .flush σ, .encrypt σ tenantId "diagnosis" "case", .commit σ]

/-- both workers write, the key is shredded, and both find out -/
def shredded : List Act :=
  writes (0, 0) acme ++ writes (1, 0) acme ++
    [.shred (0, 0) acme, .commit (0, 0), .select 1, .resync 1, .ensure (1, 0) acme, .resume (1, 0)]

theorem readable_run_shredded :
    Along (step false) (Allowed false) {} shredded ∧ Always (step false) Sound {} shredded := by
  have hallowed : Along (step false) (Allowed false) {} shredded := by decide +kernel
  exact ⟨hallowed, readable_run false shredded hallowed⟩

/-- the transaction that has stored the key is undone, and the key stays in the cache -/
def undone : List Act :=
  [.ensure (0, 0) acme, .resume (0, 0), .flush (0, 0), .rollback (0, 0)] ++ writes (0, 1) acme

def both : List Act :=
  [.ensure (0, 0) none, .ensure (1, 0) none] ++ (writes (0, 0) none).tail ++
    (writes (1, 0) none).tail

/-- the answer of a request comes after the shredding -/
def late : List Act :=
  writes (0, 0) acme ++
    [.ensure (1, 0) acme, .shred (0, 0) acme, .commit (0, 0), .select 1, .resync 1, .resume (1, 0)]

theorem not_always_sound :
    ¬Always (step true) Sound {} undone ∧ ¬Always (step false) Sound {} both ∧
      ¬Always (step true) Sound {} late := by
  refine ⟨fun h => ?_, fun h => ?_, fun h => ?_⟩
  · have hsound : Sound (exec (step true) {} undone) := h undone [] (List.append_nil _).symm
    have htable : (exec (step true) {} undone).table = [] := by decide +kernel
    have hciphers : (exec (step true) {} undone).ciphers ≠ [] := by decide +kernel
    obtain ⟨e, he⟩ := List.exists_mem_of_ne_nil _ hciphers
    obtain ⟨r, hr, -⟩ := hsound.stored e he
    rw [htable] at hr
    cases hr
  · have hsound : Sound (exec (step false) {} both) := h both [] (List.append_nil _).symm
    have hlost : ∃ e ∈ (exec (step false) {} both).ciphers,
        ∀ r ∈ (exec (step false) {} both).table, r.active = true ∧
          decrypt (({} : Worker).warm (exec (step false) {} both).table) e ≠
            .ok e.payload.plaintext := by decide +kernel
    obtain ⟨e, he, hlost⟩ := hlost
    obtain ⟨r, hr, -, -, hread⟩ := hsound.stored e he
    exact (hlost r hr).2 (hread (hlost r hr).1)
  · have hsound : Sound (exec (step true) {} late) := h late [] (List.append_nil _).symm
    have hgone : ∃ dek ∈ ((exec (step true) {} late).workers 1).gone,
        ((exec (step true) {} late).workers 1).cache (norm acme) = some dek := by decide +kernel
    obtain ⟨dek, hgone, hcached⟩ := hgone
    have hmade : encrypt ((exec (step true) {} late).workers 1) (norm acme) "note" "case" =
        .ok ⟨norm acme, VERSION, "case", ⟨dek, "note", aad (norm acme) VERSION "case"⟩⟩ := by
      rw [encrypt, hcached]
    exact hsound.encrypts 1 _ _ _ _ hmade hgone

end HxVault
