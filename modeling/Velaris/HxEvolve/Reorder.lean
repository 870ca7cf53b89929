import Velaris.HxEvolve.Gates

/-!
# Reorders, and what the gate lets through

* `Reordered`   the proposed definition is the current one, reordered;
* `Regular`, `Exact`   what a current definition must be for a reorder of it to be let through, and
    what must hold of one that is let through for it to be a reorder;
* `accepts_reorders_iff`   the gate against the reorders.

The list of stages and the steps of a stage are compared in one way: `Paired` is how the gate
compares two lists, `Matched` is that one is the other moved, and the lemmas on these two serve both
levels.
-/

namespace HxEvolve
open Py Base

/-- two entries of a list: two objects that `Q` relates, or one that is no object and stays -/
def Entry (Q : Dict → Dict → Prop) (a b : Value) : Prop :=
  (∃ s t, a = .dict s ∧ b = .dict t ∧ Q s t) ∨ object? a = none ∧ canon a = canon b

def SameOther (v w : Option Value) : Prop :=
  v = none ∧ w = none ∨ ∃ a b, v = some a ∧ w = some b ∧ (∀ xs, a ≠ .list xs) ∧ canon a = canon b

/-- two lists, the second one with its entries moved -/
def Matched (Q : Dict → Dict → Prop) (v w : Option Value) : Prop :=
  SameOther v w ∨ ∃ xs ys, v = some (.list xs) ∧ w = some (.list ys) ∧
    ∃ zs, List.Perm zs ys ∧ List.Forall₂ (Entry Q) xs zs

def Typed (s : Dict) : Prop := (s.lookup "stage_type").getD (.str "linear") ∈ STAGE_TYPES

/-- the type stays, or is one of the two before and after -/
def TypeKept (s t : Dict) : Prop :=
  (s.lookup "stage_type").map canon = (t.lookup "stage_type").map canon ∨ Typed s ∧ Typed t

def StageMoved (s t : Dict) : Prop :=
  SameFixed s t ∧ TypeKept s t ∧ Matched SameObject (s.lookup "steps") (t.lookup "steps")

def Reordered (current : Dict) (proposed : Value) : Prop :=
  ∃ items, proposed = .dict items ∧ SameRest current items ∧
    Matched StageMoved (current.lookup "stages") (items.lookup "stages")

/-! ## the condition -/

/-- the ids can be keys, and no two objects have the same -/
def RegularList (P : Dict → Prop) (v : Option Value) : Prop :=
  ∃ xs, objects v = .ok xs ∧ (∀ s ∈ xs, (idOf s).hashable = true) ∧ (xs.map key).Nodup ∧
    ∀ s ∈ xs, P s

def Regular (current : Dict) : Prop :=
  RegularList (fun s => Typed s ∧ RegularList (fun _ => True) (s.lookup "steps"))
    (current.lookup "stages")

def others (xs : List Value) : List Value := xs.filter fun a => (object? a).isNone

/-- the entries that are no objects stay, no two objects of the first list have the same id, and `E`
holds of two with one id -/
def ExactList (E : Dict → Dict → Prop) (v w : Option Value) : Prop :=
  (SameOther v w ∨ ∃ xs ys, v = some (.list xs) ∧ w = some (.list ys) ∧
    List.Perm ((others xs).map canon) ((others ys).map canon)) ∧
  ∀ xs ys, objects v = .ok xs → objects w = .ok ys → (xs.map key).Nodup ∧
    ∀ s ∈ xs, ∀ t ∈ ys, key s = key t → E s t

def Exact (current proposed : Dict) : Prop :=
  ExactList (fun s t => TypeKept s t ∧
    ExactList (fun _ _ => True) (s.lookup "steps") (t.lookup "steps"))
    (current.lookup "stages") (proposed.lookup "stages")

/-! ## moved lists -/

theorem objects_of_sameOther {v w : Option Value} (h : SameOther v w) : objects v = objects w := by
  rcases h with ⟨rfl, rfl⟩ | ⟨a, b, rfl, rfl, hlist, hcanon⟩
  · rfl
  · have hsorted := canon_eq_iff.mp hcanon
    cases a with
    | list xs => exact absurd rfl (hlist xs)
    | none | bool _ | int _ | float _ | str _ | dict _ =>
      cases b with
      | none | bool _ | int _ | float _ | str _ | dict _ => first | rfl | cases hsorted
      | list _ => cases hsorted

theorem objects_sameOther_nil {v w : Option Value} (h : SameOther v w) {xs : List Dict}
    (hxs : objects v = .ok xs) : xs = [] := by
  rcases h with ⟨rfl, -⟩ | ⟨a, b, rfl, -, hlist, -⟩
  · cases hxs
    rfl
  · cases a with
    | list ys => exact absurd rfl (hlist ys)
    | str _ | dict _ =>
      cases hxs
      rfl
    | none | bool _ | int _ | float _ => cases hxs

section
variable {Q Q' : Dict → Dict → Prop} {v w : Option Value}

theorem objects_of_entries {as bs : List Value} (h : List.Forall₂ (Entry Q) as bs) :
    List.Forall₂ Q (as.filterMap object?) (bs.filterMap object?) ∧
      (others as).map canon = (others bs).map canon := by
  induction h with
  | nil => exact ⟨.nil, rfl⟩
  | @cons a b _ _ hab _ ih =>
    rcases hab with ⟨s, t, rfl, rfl, hst⟩ | ⟨ha, hcanon⟩
    · exact ⟨.cons hst ih.1, ih.2⟩
    · have hb := object_of_canon hcanon ha
      rw [List.filterMap_cons_none ha, List.filterMap_cons_none hb, others, others,
        List.filter_cons_of_pos (by rw [ha]; rfl), List.filter_cons_of_pos (by rw [hb]; rfl),
        List.map_cons, List.map_cons, hcanon]
      exact ⟨ih.1, congrArg _ ih.2⟩

theorem Matched.objects (h : Matched Q v w) {xs : List Dict} (hv : objects v = .ok xs) :
    ∃ ys, objects w = .ok ys ∧ ∃ zs, zs.Perm ys ∧ List.Forall₂ Q xs zs := by
  rcases h with h | ⟨as, bs, rfl, rfl, cs, hperm, hall⟩
  · obtain rfl := objects_sameOther_nil h hv
    exact ⟨[], (objects_of_sameOther h).symm.trans hv, [], .refl _, .nil⟩
  · cases hv
    exact ⟨_, rfl, _, hperm.filterMap _, (objects_of_entries hall).1⟩

theorem map_key_of_forall₂ (hkey : ∀ s t, Q s t → key s = key t) {xs zs : List Dict}
    (h : List.Forall₂ Q xs zs) : xs.map key = zs.map key := by
  induction h with
  | nil => rfl
  | cons hst _ ih => rw [List.map_cons, List.map_cons, hkey _ _ hst, ih]

/-- the two lists have the same ids, and where those of the one are distinct, two objects with one
id are matched -/
theorem Matched.pairs (h : Matched Q v w) (hkey : ∀ s t, Q s t → key s = key t) {xs ys : List Dict}
    (hv : HxEvolve.objects v = .ok xs) (hw : HxEvolve.objects w = .ok ys) :
    (xs.map key).Perm (ys.map key) ∧ (∀ s ∈ xs, ∃ t ∈ ys, Q s t) ∧
      ((ys.map key).Nodup → ∀ s ∈ xs, ∀ t ∈ ys, key s = key t → Q s t) := by
  obtain ⟨ys', hw', zs, hperm, hall⟩ := h.objects hv
  obtain rfl := Except.ok.inj (hw.symm.trans hw')
  have hsome : ∀ s ∈ xs, ∃ t ∈ ys, Q s t := fun s hs => by
    obtain ⟨t, ht, hst⟩ := mem_right_of_forall₂ hall hs
    exact ⟨t, hperm.mem_iff.mp ht, hst⟩
  refine ⟨map_key_of_forall₂ hkey hall ▸ hperm.map key, hsome, fun hnodup s hs t ht hst => ?_⟩
  obtain ⟨t', ht', hst'⟩ := hsome s hs
  rwa [List.inj_on_of_nodup_map hnodup ht ht' (hst.symm.trans (hkey s t' hst'))]

theorem paired_of_matched {P : Dict → Prop} (hQ : ∀ s t, Q' s t → P s → Q s t)
    (hkey : ∀ s t, Q' s t → key s = key t) (h : Matched Q' v w) (hreg : RegularList P v) :
    Paired Q v w := by
  obtain ⟨xs, hv, hhash, hnodup, hP⟩ := hreg
  obtain ⟨ys, hw, -⟩ := h.objects hv
  obtain ⟨hperm, -, hpairs⟩ := h.pairs hkey hv hw
  have hys := hperm.nodup_iff.mp hnodup
  refine ⟨xs, ys, hv, hw, ⟨hhash, fun t ht => ?_⟩, hys, fun k => hperm.mem_iff, ?_⟩
  · obtain ⟨s, hs, hst⟩ := List.mem_map.mp (hperm.mem_iff.mpr (List.mem_map.mpr ⟨t, ht, rfl⟩))
    obtain ⟨a, ha⟩ := Value.hashable_iff.mp (hhash s hs)
    exact Value.hashable_iff.mpr ⟨a, hst.symm.trans ha⟩
  · intro s hs t ht hst
    have hmem : s ∈ xs := by
      obtain ⟨before, after, rfl, -⟩ := hs
      simp
    exact hQ s t (hpairs hys s hmem t ht hst) (hP s hmem)

theorem regular_of_matched {P : Dict → Prop} (hP : ∀ s t, Q s t → Q' s t → P s)
    (hkey : ∀ s t, Q' s t → key s = key t) (hp : Paired Q v w) (hm : Matched Q' v w) :
    RegularList P v := by
  obtain ⟨xs, ys, hv, hw, hhash, hys, -, hQ⟩ := hp
  obtain ⟨hperm, hsome, -⟩ := hm.pairs hkey hv hw
  have hxs := hperm.nodup_iff.mpr hys
  refine ⟨xs, hv, hhash.1, hxs, fun s hs => ?_⟩
  obtain ⟨t, ht, hst⟩ := hsome s hs
  exact hP s t (hQ s (lastWith_of_nodup hxs hs) t ht (hkey s t hst)) hst

theorem exact_of_matched {E : Dict → Dict → Prop} (hE : ∀ s t, Q s t → Q' s t → E s t)
    (hkey : ∀ s t, Q' s t → key s = key t) (hp : Paired Q v w) (hm : Matched Q' v w) :
    ExactList E v w := by
  obtain ⟨xs, ys, hv, hw, -, hys, -, hQ⟩ := hp
  refine ⟨?_, fun xs' ys' hv' hw' => ?_⟩
  · refine hm.imp_right fun ⟨as, bs, hv, hw, cs, hperm, hall⟩ => ⟨as, bs, hv, hw, ?_⟩
    rw [(objects_of_entries hall).2]
    exact (hperm.filter _).map canon
  · obtain rfl := Except.ok.inj (hv.symm.trans hv')
    obtain rfl := Except.ok.inj (hw.symm.trans hw')
    obtain ⟨hperm, -, hpairs⟩ := hm.pairs hkey hv hw
    have hxs := hperm.nodup_iff.mpr hys
    refine ⟨hxs, fun s hs t ht hst => ?_⟩
    exact hE s t (hQ s (lastWith_of_nodup hxs hs) t ht hst) (hpairs hys s hs t ht hst)

theorem perm_objects_others (as : List Value) :
    ((as.filterMap object?).map Value.dict ++ others as).Perm as := by
  induction as with
  | nil => exact .nil
  | cons a as ih =>
    cases a with
    | dict s => exact ih.cons _
    | none | bool _ | int _ | float _ | str _ | list _ =>
      exact List.perm_middle.trans (ih.cons _)

/-- a choice of partners is a bijection where the ids of both are the same and distinct -/
theorem exists_partners {xs ys : List Dict} (hxs : (xs.map key).Nodup) (hys : (ys.map key).Nodup)
    (hkeys : ∀ k, k ∈ xs.map key ↔ k ∈ ys.map key)
    (hQ : ∀ s ∈ xs, ∀ t ∈ ys, key s = key t → Q s t) :
    ∃ zs, zs.Perm ys ∧ List.Forall₂ Q xs zs := by
  have hperm : (xs.map key).Perm (ys.map key) := (List.perm_ext_iff_of_nodup hxs hys).mpr hkeys
  have hall : List.Forall₂ (fun k t => k = key t ∧ t ∈ ys) (ys.map key) ys := by
    rw [List.forall₂_map_left_iff, List.forall₂_same]
    exact fun t ht => ⟨rfl, ht⟩
  obtain ⟨zs, hzs, hzy⟩ := List.perm_comp_forall₂ hperm hall
  refine ⟨zs, hzy, ?_⟩
  rw [List.forall₂_map_left_iff] at hzs
  refine List.forall₂_iff_zip.mpr ⟨hzs.length_eq, fun {s t} hst => ?_⟩
  obtain ⟨hkey, ht⟩ := (List.forall₂_iff_zip.mp hzs).2 hst
  exact hQ s (List.of_mem_zip hst).1 t ht hkey

theorem matched_of_exact {E : Dict → Dict → Prop} (hQ : ∀ s t, Q s t → E s t → Q' s t)
    (hp : Paired Q v w) (he : ExactList E v w) : Matched Q' v w := by
  obtain ⟨hentries, hobjects⟩ := he
  refine hentries.imp_right fun ⟨as, bs, hv, hw, hothers⟩ => ⟨as, bs, hv, hw, ?_⟩
  subst hv hw
  obtain ⟨xs, ys, hv, hw, -, hys, hkeys, hpaired⟩ := hp
  obtain ⟨hxs, hE⟩ := hobjects xs ys hv hw
  cases hv
  cases hw
  obtain ⟨zs, hzs, hall⟩ := exists_partners hxs hys hkeys fun s hs t ht hst =>
    hQ s t (hpaired s (lastWith_of_nodup hxs hs) t ht hst) (hE s hs t ht hst)
  have hself : List.Forall₂ (fun c b => c = canon b) ((others bs).map canon) (others bs) := by
    rw [List.forall₂_map_left_iff, List.forall₂_same]
    exact fun _ _ => rfl
  obtain ⟨us, hus, huperm⟩ := List.perm_comp_forall₂ hothers hself
  rw [List.forall₂_map_left_iff] at hus
  have hparts : List.Forall₂ (Entry Q') ((as.filterMap object?).map Value.dict ++ others as)
      (zs.map Value.dict ++ us) := by
    refine List.rel_append ?_ ?_
    · rw [List.forall₂_map_left_iff, List.forall₂_map_right_iff]
      exact hall.imp fun s t hst => Or.inl ⟨s, t, rfl, rfl, hst⟩
    · refine List.forall₂_iff_zip.mpr ⟨hus.length_eq, fun {a b} hab => Or.inr ⟨?_, ?_⟩⟩
      · exact Option.isNone_iff_eq_none.mp (List.mem_filter.mp (List.of_mem_zip hab).1).2
      · exact (List.forall₂_iff_zip.mp hus).2 hab
  obtain ⟨cs, hcs, hcperm⟩ := List.perm_comp_forall₂ (perm_objects_others as).symm hparts
  exact ⟨cs, hcperm.trans (((hzs.map _).append huperm).trans (perm_objects_others bs)), hcs⟩

end

/-! ## the two levels -/

variable (R : Runtime)

theorem eq_of_canon_type {v w : Value} (hv : v ∈ STAGE_TYPES) (h : canon v = canon w) : v = w := by
  have hsorted := canon_eq_iff.mp h
  simp only [STAGE_TYPES, List.mem_cons, List.not_mem_nil, or_false] at hv
  rcases hv with rfl | rfl <;> cases w <;> cases hsorted <;> rfl

theorem typed_iff_of_kept {s t : Dict} (h : TypeKept s t) :
    stageType s t ∈ STAGE_TYPES ↔ Typed s := by
  unfold stageType
  rcases h with hsame | ⟨hs, ht⟩
  · unfold Typed
    cases ht : t.lookup "stage_type" with
    | none => rfl
    | some b =>
      cases hs : s.lookup "stage_type" with
      | none =>
        rw [hs, ht] at hsame
        cases hsame
      | some a =>
        rw [hs, ht] at hsame
        have hcanon := Option.some.inj hsame
        constructor
        · intro hb
          rwa [← eq_of_canon_type hb hcanon.symm] at *
        · intro ha
          rwa [← eq_of_canon_type ha hcanon]
  · refine iff_of_true ?_ hs
    unfold Typed at hs ht
    cases hlookup : t.lookup "stage_type" with
    | none => exact hs
    | some b =>
      rw [hlookup] at ht
      exact ht

theorem stageAlike_of_moved {s t : Dict} (h : StageMoved s t)
    (hs : Typed s ∧ RegularList (fun _ => True) (s.lookup "steps")) : StageAlike s t :=
  ⟨h.1, (typed_iff_of_kept h.2.1).mpr hs.1,
    paired_of_matched (fun _ _ hst _ => hst) (fun _ _ => key_of_sameObject) h.2.2 hs.2⟩

theorem regular_of_stageAlike {s t : Dict} (h : StageAlike s t) (hmoved : StageMoved s t) :
    Typed s ∧ RegularList (fun _ => True) (s.lookup "steps") :=
  ⟨(typed_iff_of_kept hmoved.2.1).mp h.2.1, regular_of_matched (fun _ _ _ _ => trivial)
    (fun _ _ => key_of_sameObject) h.2.2 hmoved.2.2⟩

theorem exact_of_stageMoved {s t : Dict} (h : StageAlike s t) (hmoved : StageMoved s t) :
    TypeKept s t ∧ ExactList (fun _ _ => True) (s.lookup "steps") (t.lookup "steps") :=
  ⟨hmoved.2.1, exact_of_matched (fun _ _ _ _ => trivial) (fun _ _ => key_of_sameObject) h.2.2
    hmoved.2.2⟩

theorem stageMoved_of_exact {s t : Dict} (h : StageAlike s t)
    (he : TypeKept s t ∧ ExactList (fun _ _ => True) (s.lookup "steps") (t.lookup "steps")) :
    StageMoved s t :=
  ⟨h.1, he.1, matched_of_exact (fun _ _ hst _ => hst) h.2.2 he.2⟩

/-- **When the gate lets through the reorders and nothing else.** -/
theorem accepts_reorders_iff (current : Dict) (proposed : Value) :
    (validateReorder R current proposed = .ok [] ↔ Reordered current proposed) ↔
      (∀ items, proposed = .dict items → Alike current items → Exact current items) ∧
      (Reordered current proposed → Regular current) := by
  constructor
  · intro h
    refine ⟨?_, fun hmoved => ?_⟩
    · rintro items rfl halike
      obtain ⟨_, heq, -, hmatched⟩ := h.mp ((validateReorder_nil_iff R current items).mpr halike)
      cases heq
      exact exact_of_matched (fun s t => exact_of_stageMoved)
        (fun s t hst => key_of_sameFixed hst.1) halike.2 hmatched
    · have haccepts := h.mpr hmoved
      obtain ⟨items, rfl, -, hmatched⟩ := hmoved
      have halike := (validateReorder_nil_iff R current items).mp haccepts
      exact regular_of_matched (fun s t => regular_of_stageAlike)
        (fun s t hst => key_of_sameFixed hst.1) halike.2 hmatched
  · intro ⟨hexact, hregular⟩
    constructor
    · intro haccepts
      cases proposed with
      | dict items =>
        have halike := (validateReorder_nil_iff R current items).mp haccepts
        exact ⟨items, rfl, halike.1,
          matched_of_exact (fun s t => stageMoved_of_exact) halike.2 (hexact items rfl halike)⟩
      | none | bool _ | int _ | float _ | str _ | list _ => cases haccepts
    · intro hmoved
      have hreg := hregular hmoved
      obtain ⟨items, rfl, hrest, hmatched⟩ := hmoved
      exact (validateReorder_nil_iff R current items).mpr ⟨hrest,
        paired_of_matched (fun s t => stageAlike_of_moved) (fun s t hst => key_of_sameFixed hst.1)
          hmatched hreg⟩

def stagesOf (stages : List Dict) : Dict := [("stages", .list (stages.map .dict))]

/-- two stages with one id, of which the proposed definition has one -/
theorem dropped_stage_accepted :
    ¬ ∀ (R : Runtime) (current : Dict) (proposed : Value),
      validateReorder R current proposed = .ok [] ↔ Reordered current proposed := by
  intro h
  let stage : Dict := [("id", .str "intake")]
  obtain ⟨_, heq, -, hmatched⟩ :=
    (h .silent (stagesOf [stage, stage]) (.dict (stagesOf [stage]))).mp (by decide +kernel)
  cases heq
  have hstages : objects ((stagesOf [stage, stage]).lookup "stages") = .ok [stage, stage] := rfl
  obtain ⟨ys, hys, zs, hperm, hall⟩ := hmatched.objects hstages
  cases hys
  exact absurd (hall.length_eq.trans hperm.length_eq) (by decide)

end HxEvolve
