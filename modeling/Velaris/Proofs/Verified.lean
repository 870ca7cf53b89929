import Velaris.Base.Run
import Velaris.Proofs.Engine

/-!
# Proofs that stay verifiable

* `Sound`   every stored proof verifies, and none can be altered or removed unseen;
* `Allowed`   a policy that has a proof keeps its name;
* `Inv`   how the stored proofs are linked and addressed;
* `Inv.holds_iff`   the address of a proof holds while its policy has the name it had;
* `verifiable_iff`   a run keeps every proof verifiable exactly if every step is allowed.
-/

set_option linter.unusedSectionVars false

namespace Proofs

open Py Base

variable {J ρ γ δ : Type} [DecidableEq ρ] [DecidableEq δ]

/-! ## the promise -/

/-- both the address and the link to the proof before hold -/
def Verdict.holds (v : Verdict) : Prop := v.contentAddressHolds = true ∧ v.chainLinks = true

def State.alter (s : State J ρ δ) (altered : Proof J ρ δ) : State J ρ δ :=
  { s with proofs := modify Proof.id altered.id (fun _ => altered) s.proofs }

def State.remove (s : State J ρ δ) (id : Uuid) : State J ρ δ :=
  { s with proofs := s.proofs.filter (·.id ≠ id) }

/-- Every proof verifies. If a column of the document of one is altered, or one that is not the last
is removed, then some proof that is left does not. -/
structure Sound (G : Engine J ρ γ δ) (s : State J ρ δ) : Prop where
  holds : ∀ p ∈ s.proofs, (verify G s p).holds
  altered : ∀ p ∈ s.proofs, ∀ p', p'.id = p.id → p'.prevHash = p.prevHash →
    p'.contentSha256 = p.contentSha256 → rebuildDocument p' none ≠ rebuildDocument p none →
      ∃ q ∈ (s.alter p').proofs, ¬ (verify G (s.alter p') q).holds
  removed : ∀ p ∈ s.proofs, (∃ q ∈ s.proofs, p.sequence < q.sequence) →
    ∃ q ∈ (s.remove p.id).proofs, ¬ (verify G (s.remove p.id) q).holds

def Allowed (s : State J ρ δ) : Act J ρ → Prop
  | .rename id name => ∀ p ∈ s.proofs, p.policyId = some id →
    policyNameOf s.policies (some id) = some name
  | .create _ _ _ | .addVersion _ _ | .activate _ _ _ | .generate _ _ => True

instance (s : State J ρ δ) : ∀ a : Act J ρ, Decidable (Allowed s a)
  | .rename id name => inferInstanceAs (Decidable (∀ p ∈ s.proofs, p.policyId = some id →
      policyNameOf s.policies (some id) = some name))
  | .create _ _ _ | .addVersion _ _ | .activate _ _ _ | .generate _ _ => isTrue trivial

/-! ## the stored proofs -/

/-- the proof is addressed under some name of its policy, which is there -/
def Addressed (G : Engine J ρ γ δ) (policies : List (Policy J)) (p : Proof J ρ δ) : Prop :=
  ∃ name, p.contentSha256 = contentDigest G (rebuildDocument p (some name)) p.prevHash ∧
    (policyNameOf policies p.policyId).isSome = true

structure Inv (G : Engine J ρ γ δ) (s : State J ρ δ) : Prop where
  linked : Linked Proof.sequence Proof.prevHash Proof.contentSha256 1 G.hashing.genesis s.proofs
  ids : (s.proofs.map Proof.id).Nodup
  addressed : ∀ p ∈ s.proofs, Addressed G s.policies p

variable {G : Engine J ρ γ δ} {s : State J ρ δ}

theorem contentDigest_inj (hG : G.hashing.Injective) {d d' : Document J ρ} {prev : δ}
    (h : contentDigest G d prev = contentDigest G d' prev) : d = d' :=
  hG.canonical (hG.sha256 prev h)

theorem contentAddressHolds_iff {p : Proof J ρ δ} :
    (verify G s p).contentAddressHolds = true ↔
      contentDigest G (rebuildDocument p (policyNameOf s.policies p.policyId)) p.prevHash =
        p.contentSha256 := decide_eq_true_iff

theorem rebuildDocument_inj {p p' : Proof J ρ δ} {name name' : Option String}
    (h : rebuildDocument p' name' = rebuildDocument p name) :
    name' = name ∧ rebuildDocument p' none = rebuildDocument p none := by
  have hparts := h
  simp only [rebuildDocument, Document.mk.injEq] at hparts ⊢
  tauto

/-! ## the chain -/

theorem tip_of_linked {proofs : List (Proof J ρ δ)}
    (h : Linked Proof.sequence Proof.prevHash Proof.contentSha256 1 G.hashing.genesis proofs) :
    tip G proofs = (proofs.length, lastHash Proof.contentSha256 G.hashing.genesis proofs) := by
  rcases List.eq_nil_or_concat proofs with rfl | ⟨init, last, rfl⟩
  · rfl
  · rw [List.concat_eq_append] at h ⊢
    have hlast : last ∈ init ++ [last] := List.mem_append_right _ (List.mem_singleton_self _)
    have hsequence := (linked_concat.mp h).2.1
    have hmax : (init ++ [last]).argmax Proof.sequence = some last := by
      cases hm : (init ++ [last]).argmax Proof.sequence with
      | none =>
        rw [List.argmax_eq_none] at hm
        rw [hm] at hlast
        cases hlast
      | some m =>
        have hmem : m ∈ init ++ [last] := List.argmax_mem hm
        have hle : last.sequence ≤ m.sequence := List.le_of_mem_argmax hlast hm
        have hbound := (h.sequence_bounds hmem).2
        rw [List.length_append, List.length_singleton] at hbound
        rw [h.eq_of_sequence hmem hlast (by omega)]
    rw [tip, hmax]
    simp [lastHash, hsequence]
    omega

theorem Inv.chainLinks (h : Inv G s) {p : Proof J ρ δ} (hp : p ∈ s.proofs) :
    (verify G s p).chainLinks = true := by
  show Proofs.chainLinks G s.proofs p = true
  obtain ⟨hfirst, hnext⟩ := h.linked.prevHash_eq hp
  have hbounds := h.linked.sequence_bounds hp
  rw [Proofs.chainLinks]
  split
  · rename_i hone
    exact decide_eq_true (hfirst hone)
  · obtain ⟨r, hr, hsequence⟩ := h.linked.exists_sequence (n := p.sequence - 1) (by omega) (by omega)
    have hfound : s.proofs.find? (fun r => r.sequence + 1 = p.sequence) = some r := by
      refine find?_eq_of_unique hr (decide_eq_true (by omega)) ?_
      intro r' hr' hsequence'
      have hsame := of_decide_eq_true hsequence'
      exact h.linked.eq_of_sequence hr' hr (by omega)
    rw [hfound]
    exact decide_eq_true (hnext r hr (by omega)).symm

/-! ## tampering -/

theorem Inv.altered (hG : G.hashing.Injective) (h : Inv G s) {p p' : Proof J ρ δ}
    (hp : p ∈ s.proofs) (hid : p'.id = p.id) (hprev : p'.prevHash = p.prevHash)
    (hcontent : p'.contentSha256 = p.contentSha256)
    (hne : rebuildDocument p' none ≠ rebuildDocument p none) :
    ∃ q ∈ (s.alter p').proofs, ¬ (verify G (s.alter p') q).holds := by
  obtain ⟨name, hname, -⟩ := h.addressed p hp
  refine ⟨p', ?_, ?_⟩
  · refine List.mem_map.mpr ⟨p, hp, ?_⟩
    rw [if_pos hid.symm]
  · intro hholds
    have haddress := contentAddressHolds_iff.mp hholds.1
    rw [hcontent, hname, hprev] at haddress
    exact hne (rebuildDocument_inj (contentDigest_inj hG haddress)).2

theorem Inv.removed (h : Inv G s) {p q : Proof J ρ δ} (hp : p ∈ s.proofs) (hq : q ∈ s.proofs)
    (hlt : p.sequence < q.sequence) :
    ∃ q ∈ (s.remove p.id).proofs, ¬ (verify G (s.remove p.id) q).holds := by
  have hbp := h.linked.sequence_bounds hp
  have hbq := h.linked.sequence_bounds hq
  -- the proof that followed has lost the one before it
  obtain ⟨r, hr, hsequence⟩ := h.linked.exists_sequence (n := p.sequence + 1) (by omega) (by omega)
  have hrp : r.id ≠ p.id := by
    intro hid
    rw [List.inj_on_of_nodup_map h.ids hr hp hid] at hsequence
    omega
  refine ⟨r, List.mem_filter.mpr ⟨hr, decide_eq_true hrp⟩, ?_⟩
  intro hholds
  have hchain : Proofs.chainLinks G (s.remove p.id).proofs r = true := hholds.2
  have hnone : (s.remove p.id).proofs.find? (fun x => x.sequence + 1 = r.sequence) = none := by
    rw [List.find?_eq_none]
    intro x hx hsame
    obtain ⟨hxmem, hxid⟩ := List.mem_filter.mp hx
    have hxs := of_decide_eq_true hsame
    have hxp : x = p := h.linked.eq_of_sequence hxmem hp (by omega)
    exact of_decide_eq_true hxid (congrArg Proof.id hxp)
  rw [Proofs.chainLinks, if_neg (by omega), hnone] at hchain
  exact Bool.noConfusion hchain

theorem Inv.sound_iff_holds (hG : G.hashing.Injective) (h : Inv G s) :
    Sound G s ↔ ∀ p ∈ s.proofs, (verify G s p).holds := by
  constructor
  · intro hsound
    exact hsound.holds
  · intro hholds
    refine ⟨hholds, fun p hp p' => h.altered hG hp, ?_⟩
    intro p hp hlater
    obtain ⟨q, hq, hlt⟩ := hlater
    exact h.removed hp hq hlt

/-! ## changes to the policies -/

/-- the address holds under the name that the policy has now -/
def Current (G : Engine J ρ γ δ) (policies : List (Policy J)) (p : Proof J ρ δ) : Prop :=
  contentDigest G (rebuildDocument p (policyNameOf policies p.policyId)) p.prevHash =
    p.contentSha256

theorem Inv.sound_iff_current (hG : G.hashing.Injective) (h : Inv G s) :
    Sound G s ↔ ∀ p ∈ s.proofs, Current G s.policies p := by
  rw [h.sound_iff_holds hG]
  refine forall₂_congr fun p hp => ?_
  rw [Verdict.holds, contentAddressHolds_iff]
  exact and_iff_left (h.chainLinks hp)

theorem Inv.setPolicies (h : Inv G s) {policies : List (Policy J)}
    (hkeep : ∀ id, (policyNameOf s.policies id).isSome = true →
      (policyNameOf policies id).isSome = true) : Inv G { s with policies := policies } := by
  refine ⟨h.linked, h.ids, ?_⟩
  intro p hp
  obtain ⟨name, hname, hfound⟩ := h.addressed p hp
  exact ⟨name, hname, hkeep _ hfound⟩

theorem policyNameOf_append {policies : List (Policy J)} {id : Option Uuid}
    (hfound : (policyNameOf policies id).isSome = true) (new : Policy J) :
    policyNameOf (policies ++ [new]) id = policyNameOf policies id := by
  cases id with
  | none => rfl
  | some id =>
    rw [policyNameOf, Option.bind_some, Option.isSome_map] at hfound
    show ((policies ++ [new]).find? (·.id = id)).map Policy.name = _
    rw [List.find?_append, Option.or_of_isSome hfound]
    rfl

theorem policyNameOf_modify {policies : List (Policy J)} {id : Uuid} {f : Policy J → Policy J}
    (hf : ∀ p, (f p).id = p.id) (pid : Uuid) :
    policyNameOf (modify Policy.id id f policies) (some pid) =
      (policies.find? (·.id = pid)).map fun p => if p.id = id then (f p).name else p.name := by
  show ((modify Policy.id id f policies).find? (·.id = pid)).map Policy.name = _
  rw [find?_modify hf, Option.map_map]
  congr 1
  funext p
  show (if p.id = id then f p else p).name = _
  split <;> rfl

theorem policyNameOf_modify_same {policies : List (Policy J)} {id : Uuid}
    {f : Policy J → Policy J} (hf : ∀ p, (f p).id = p.id ∧ (f p).name = p.name)
    (pid : Option Uuid) :
    policyNameOf (modify Policy.id id f policies) pid = policyNameOf policies pid := by
  cases pid with
  | none => rfl
  | some pid =>
    rw [policyNameOf_modify fun p => (hf p).1]
    show _ = (policies.find? (·.id = pid)).map Policy.name
    congr 1
    funext p
    rw [(hf p).2, ite_self]

theorem policyNameOf_rename {policies : List (Policy J)} {id : Uuid} (name : String) (pid : Uuid) :
    policyNameOf (modify Policy.id id (fun p => { p with name := name }) policies) (some pid) =
      if pid = id then (policyNameOf policies (some pid)).map fun _ => name
      else policyNameOf policies (some pid) := by
  rw [policyNameOf_modify (f := fun p : Policy J => { p with name := name }) fun _ => rfl,
    policyNameOf, Option.bind_some]
  cases hfind : policies.find? (·.id = pid) with
  | none => simp
  | some p =>
    have hid := List.find?_some hfind
    rw [Option.map_some, Option.map_some, of_decide_eq_true hid]
    split <;> rfl

/-! ## one step -/

theorem Inv.setPolicy (h : Inv G s) {id : Uuid} {f : Policy J → Policy J}
    (hf : ∀ p, (f p).id = p.id ∧ (f p).name = p.name) : Inv G (s.setPolicy id f) := by
  refine h.setPolicies ?_
  intro pid hfound
  rw [policyNameOf_modify_same hf]
  exact hfound

theorem current_setPolicy {id : Uuid} {f : Policy J → Policy J}
    (hf : ∀ p, (f p).id = p.id ∧ (f p).name = p.name)
    (hcurrent : ∀ p ∈ s.proofs, Current G s.policies p) :
    ∀ p ∈ (s.setPolicy id f).proofs, Current G (s.setPolicy id f).policies p := by
  intro p hp
  show contentDigest G (rebuildDocument p (policyNameOf (modify Policy.id id f s.policies)
    p.policyId)) p.prevHash = p.contentSha256
  rw [policyNameOf_modify_same hf]
  exact hcurrent p hp

theorem Inv.rename (h : Inv G s) (id : Uuid) (name : String) :
    Inv G (s.setPolicy id fun p => { p with name := name }) := by
  refine h.setPolicies ?_
  intro pid hfound
  cases pid with
  | none => exact hfound
  | some pid =>
    rw [policyNameOf_rename]
    split
    · rw [Option.isSome_map]
      exact hfound
    · exact hfound

theorem current_rename_iff (hG : G.hashing.Injective) (h : Inv G s) (id : Uuid) (name : String)
    (hcurrent : ∀ p ∈ s.proofs, Current G s.policies p) :
    (∀ p ∈ s.proofs, Current G (s.setPolicy id fun p => { p with name := name }).policies p) ↔
      ∀ p ∈ s.proofs, p.policyId = some id → policyNameOf s.policies (some id) = some name := by
  have hrenamed : ∀ p ∈ s.proofs, p.policyId = some id →
      policyNameOf (s.setPolicy id fun p => { p with name := name }).policies p.policyId =
        some name := by
    intro p hp hpid
    obtain ⟨-, -, hfound⟩ := h.addressed p hp
    obtain ⟨before, hbefore⟩ := Option.isSome_iff_exists.mp hfound
    rw [hpid] at hbefore ⊢
    show policyNameOf (modify _ _ _ _) _ = _
    rw [policyNameOf_rename, if_pos rfl, hbefore]
    rfl
  refine forall₂_congr fun p hp => ?_
  by_cases hpid : p.policyId = some id
  · rw [Current, hrenamed p hp hpid]
    constructor
    · intro hnow _
      have hbefore : contentDigest G (rebuildDocument p (policyNameOf s.policies p.policyId))
          p.prevHash = p.contentSha256 := hcurrent p hp
      rw [← hbefore] at hnow
      have hname := (rebuildDocument_inj (contentDigest_inj hG hnow)).1
      rw [hpid] at hname
      exact hname.symm
    · intro hsame
      have hbefore : contentDigest G (rebuildDocument p (policyNameOf s.policies p.policyId))
          p.prevHash = p.contentSha256 := hcurrent p hp
      rw [hpid, hsame hpid] at hbefore
      exact hbefore
  · refine iff_of_true ?_ fun hpid' => absurd hpid' hpid
    have hbefore : contentDigest G (rebuildDocument p (policyNameOf s.policies p.policyId))
        p.prevHash = p.contentSha256 := hcurrent p hp
    rw [Current]
    cases hcase : p.policyId with
    | none =>
      rw [hcase] at hbefore
      exact hbefore
    | some pid =>
      show contentDigest G (rebuildDocument p (policyNameOf (modify _ _ _ _) _)) _ = _
      rw [policyNameOf_rename, if_neg (fun hsame => hpid (by rw [hcase, hsame])), ← hcase]
      exact hbefore

theorem generate_cases {q : Request} {found : Replay J ρ} {proof : Proof J ρ δ}
    (h : generate G s q found = .ok proof) :
    ∃ policy version, s.policies.find? (·.id = q.policyId) = some policy ∧
      (∀ p ∈ s.proofs, p.id ≠ q.id) ∧ proof = store G s.proofs q policy version found := by
  rw [generate] at h
  cases hload : loadRules s q.policyId q.policyVersion with
  | error message =>
    rw [hload] at h
    cases h
  | ok rows =>
    obtain ⟨policy, version⟩ := rows
    rw [hload] at h
    change (if s.proofs.any (·.id = q.id) then _ else _) = _ at h
    split at h
    · cases h
    · rename_i hfree
      refine ⟨policy, version, ?_, ?_, (Except.ok.inj h).symm⟩
      · rw [loadRules] at hload
        split at hload
        · cases hload
        · rename_i policy' hfind
          split at hload
          · cases hload
          · rw [hfind, ← (Prod.mk.inj (Except.ok.inj hload)).1]
      · intro p hp hid
        exact hfree (List.any_eq_true.mpr ⟨p, hp, decide_eq_true hid⟩)

theorem current_store {q : Request} {found : Replay J ρ} {policy : Policy J}
    {version : PolicyVersion J} (hpolicy : s.policies.find? (·.id = q.policyId) = some policy) :
    Current G s.policies (store G s.proofs q policy version found) := by
  have hid := List.find?_some hpolicy
  have hname : policyNameOf s.policies (some policy.id) = some policy.name := by
    rw [policyNameOf, Option.bind_some, of_decide_eq_true hid, hpolicy]
    rfl
  show contentDigest G (rebuildDocument _ (policyNameOf s.policies (some policy.id))) _ = _
  rw [hname]
  rfl

theorem Inv.store (h : Inv G s) {q : Request} {found : Replay J ρ} {policy : Policy J}
    {version : PolicyVersion J} (hpolicy : s.policies.find? (·.id = q.policyId) = some policy)
    (hfree : ∀ p ∈ s.proofs, p.id ≠ q.id) :
    Inv G { s with proofs := s.proofs ++ [store G s.proofs q policy version found] } := by
  have htip := tip_of_linked h.linked
  refine ⟨?_, ?_, ?_⟩
  · refine linked_concat.mpr ⟨h.linked, ?_, ?_⟩
    · show (tip G s.proofs).1 + 1 = _
      rw [htip, Nat.add_comm]
    · show (tip G s.proofs).2 = _
      rw [htip]
  · rw [List.map_append, List.nodup_append]
    refine ⟨h.ids, List.nodup_singleton _, ?_⟩
    intro a ha b hb
    obtain ⟨p, hp, rfl⟩ := List.mem_map.mp ha
    rw [List.map_singleton, List.mem_singleton] at hb
    rw [hb]
    exact hfree p hp
  · intro p hp
    rcases List.mem_append.mp hp with hp | hp
    · exact h.addressed p hp
    · rw [List.mem_singleton.mp hp]
      have hid := List.find?_some hpolicy
      refine ⟨policy.name, rfl, ?_⟩
      show (policyNameOf s.policies (some policy.id)).isSome = true
      rw [policyNameOf, Option.bind_some, of_decide_eq_true hid, hpolicy]
      rfl

theorem addVersion_same (version : PolicyVersion J) (p : Policy J) :
    (if p.versions.any (·.version = version.version) then p
      else { p with versions := p.versions ++ [version] }).id = p.id ∧
    (if p.versions.any (·.version = version.version) then p
      else { p with versions := p.versions ++ [version] }).name = p.name := by
  split <;> exact ⟨rfl, rfl⟩

theorem inv_step (s : State J ρ δ) (a : Act J ρ) (h : Inv G s) : Inv G (step G s a) := by
  cases a with
  | create id name namespaceName =>
    rw [step]
    split
    · exact h
    · refine h.setPolicies ?_
      intro pid hfound
      rw [policyNameOf_append hfound]
      exact hfound
  | addVersion id version => exact h.setPolicy (addVersion_same version)
  | activate id status version => exact h.setPolicy fun _ => ⟨rfl, rfl⟩
  | rename id name => exact h.rename id name
  | generate q found =>
    rw [step]
    split
    · rename_i proof hproof
      obtain ⟨policy, version, hpolicy, hfree, rfl⟩ := generate_cases hproof
      exact h.store hpolicy hfree
    · exact h

theorem current_step_iff (hG : G.hashing.Injective) (a : Act J ρ) (h : Inv G s)
    (hcurrent : ∀ p ∈ s.proofs, Current G s.policies p) :
    (∀ p ∈ (step G s a).proofs, Current G (step G s a).policies p) ↔ Allowed s a := by
  cases a with
  | create id name namespaceName =>
    refine iff_of_true ?_ trivial
    rw [step]
    split
    · exact hcurrent
    · intro p hp
      obtain ⟨-, -, hfound⟩ := h.addressed p hp
      show contentDigest G (rebuildDocument p (policyNameOf (s.policies ++ [_]) p.policyId)) _ = _
      rw [policyNameOf_append hfound]
      exact hcurrent p hp
  | addVersion id version =>
    exact iff_of_true (current_setPolicy (addVersion_same version) hcurrent) trivial
  | activate id status version =>
    exact iff_of_true (current_setPolicy (fun _ => ⟨rfl, rfl⟩) hcurrent) trivial
  | rename id name => exact current_rename_iff hG h id name hcurrent
  | generate q found =>
    refine iff_of_true ?_ trivial
    rw [step]
    split
    · rename_i proof hproof
      obtain ⟨policy, version, hpolicy, -, rfl⟩ := generate_cases hproof
      intro p hp
      rcases List.mem_append.mp hp with hp | hp
      · exact hcurrent p hp
      · rw [List.mem_singleton.mp hp]
        exact current_store hpolicy
    · exact hcurrent

theorem sound_step_iff (hG : G.hashing.Injective) (s : State J ρ δ) (a : Act J ρ)
    (h : Inv G s ∧ Sound G s) : (Inv G (step G s a) ∧ Sound G (step G s a)) ↔ Allowed s a := by
  have hinv := inv_step s a h.1
  rw [and_iff_right hinv, hinv.sound_iff_current hG]
  exact current_step_iff hG a h.1 ((h.1.sound_iff_current hG).mp h.2)

/-! ## a run -/

theorem inv_start : Inv G ({} : State J ρ δ) := by
  refine ⟨trivial, List.nodup_nil, ?_⟩
  intro p hp
  cases hp

/-- every state of a run is sound exactly if no policy that has a proof is ever given another
name -/
theorem verifiable_iff (G : Engine J ρ γ δ) (hG : G.hashing.Injective) (as : List (Act J ρ)) :
    Always (step G) (Sound G) {} as ↔ Along (step G) Allowed {} as := by
  have hstart : Inv G ({} : State J ρ δ) ∧ Sound G ({} : State J ρ δ) := by
    refine ⟨inv_start, (inv_start.sound_iff_current hG).mpr ?_⟩
    intro p hp
    cases hp
  have hiff : Always (step G) (fun s => Inv G s ∧ Sound G s) ({} : State J ρ δ) as ↔
      (Inv G ({} : State J ρ δ) ∧ Sound G ({} : State J ρ δ)) ∧ Along (step G) Allowed {} as :=
    always_iff (sound_step_iff hG)
  rw [and_iff_right hstart] at hiff
  rw [← hiff]
  constructor
  · intro h bs cs hsplit
    exact ⟨exec_inv' inv_step bs inv_start, h bs cs hsplit⟩
  · intro h bs cs hsplit
    exact (h bs cs hsplit).2

/-! ## two runs -/

/-- documents that are their own text, and digests that are what they digest -/
def transcripts : Engine String String (Document String String) (List (Document String String)) where
  hashing := transcript (Document String String)
  rulesDigest := id

def firstReplay : Replay String String where
  status := "complete"
  refusalReason := none
  cohort := "c"
  inputsSha256 := "i"
  result := "r"
  divergent := "[]"
  aggregateOnly := false

/-- a policy with a proof gets a second version and a second proof -/
def keptName : List (Act String String) :=
  [.create 1 "retention" "ai", .addVersion 1 ⟨1, "[]"⟩,
    .generate ⟨10, 1, 1, some 7, none⟩ firstReplay, .addVersion 1 ⟨2, "[{}]"⟩,
    .activate 1 "active" (some 2), .generate ⟨11, 1, 2, some 7, none⟩ firstReplay]

theorem verified_keptName :
    Always (step transcripts) (Sound transcripts) {} keptName ∧
      (exec (step transcripts) {} keptName).proofs.length = 2 :=
  ⟨(verifiable_iff transcripts (transcript_injective _) keptName).mpr (by decide +kernel),
    by decide +kernel⟩

theorem not_always_verified : ¬ ∀ as, Always (step transcripts) (Sound transcripts) {} as := by
  intro h
  have hsound := h (keptName ++ [.rename 1 "retention v2"]) _ [] (List.append_nil _).symm
  have hall : ∀ p ∈ (exec (step transcripts) {} (keptName ++ [.rename 1 "retention v2"])).proofs,
      (verify transcripts (exec (step transcripts) {} (keptName ++ [.rename 1 "retention v2"]))
        p).contentAddressHolds = true := fun p hp => (hsound.holds p hp).1
  revert hall
  decide +kernel

end Proofs
