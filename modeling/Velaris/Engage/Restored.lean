import Velaris.Engage.Merges
import Velaris.Base.Redirect
import Velaris.Base.Run

/-!
# Merges undone

* `Fresh`   profiles before their first merge;
* `Sound`   what is promised of every state;
* `Allowed`   the merges and undoings after which it holds;
* `Carried`   where the rows have gone, by the merges that are not undone;
* `inv_step`   one merge or undoing;
* `sound_run`   a run.
-/

namespace Engage

open Py Base

/-! ## what is promised -/

structure Fresh (db : Db) : Prop where
  profiles : (db.profiles.map Profile.id).Nodup
  active : ∀ p ∈ db.profiles, p.status = .active ∧ p.mergedIntoId = none
  identifiers : (db.identifiers.map Identifier.id).Nodup
  links : (db.links.map Link.id).Nodup
  identified : ∀ i ∈ db.identifiers, i.customerId ∈ db.profiles.map Profile.id
  linked : ∀ l ∈ db.links, l.customerId ∈ db.profiles.map Profile.id
  merges : db.merges = []

/-- every profile leads to an active one, what is merged away has nothing, and when all merges are
undone everything is where it was -/
structure Sound (db₀ db : Db) : Prop where
  followed : ∀ p ∈ db.profiles, ∃ q, db.followMerges p.id = .ok q ∧ q.status = .active
  identified : ∀ i ∈ db.identifiers, ∀ p ∈ db.profiles, p.id = i.customerId → p.status ≠ .merged
  linked : ∀ l ∈ db.links, ∀ p ∈ db.profiles, p.id = l.customerId → p.status ≠ .merged
  restored : (∀ m ∈ db.merges, m.undone = true) →
    (∀ p ∈ db.profiles, p.status = .active) ∧ db.identifiers = db₀.identifiers ∧
      db.links = db₀.links

/-- Nothing is merged into a profile that is merged away, the loser has no primary identifier, and
none leads to it by eight merges; what an undone merge has moved is where it brought it. -/
def Allowed (db : Db) : Action → Prop
  | .merge _ winnerId loserId reason _ => refusal winnerId loserId reason db = none →
    (∀ p ∈ db.profiles, p.id = winnerId → p.status ≠ .merged) ∧
      (∀ i ∈ db.identifiers, i.customerId = loserId → i.isPrimary = false) ∧
      ∀ p ∈ db.profiles, follow db.redirect Db.DEPTH p.id ≠ some loserId
  | .unmerge id _ => ∀ m ∈ db.merges, m.id = id → m.undone = false →
    (∀ i ∈ db.identifiers, i.id ∈ m.identifiers → i.customerId = m.winnerId) ∧
      ∀ l ∈ db.links, l.id ∈ m.links → l.customerId = m.winnerId

instance (db : Db) : ∀ a, Decidable (Allowed db a)
  | .merge _ winnerId loserId reason _ =>
    inferInstanceAs (Decidable (refusal winnerId loserId reason db = none → _))
  | .unmerge id _ => inferInstanceAs (Decidable (∀ m ∈ db.merges, m.id = id → _))

/-! ## the rows that merges carry -/

structure Carrier (ρ : Type) where
  id : ρ → Uuid
  customer : ρ → Uuid
  put : Uuid → ρ → ρ
  moved : Merge → List Uuid
  id_put : ∀ c r, id (put c r) = id r
  customer_put : ∀ c r, customer (put c r) = c
  put_put : ∀ c d r, put c (put d r) = put c r
  put_self : ∀ r, put (customer r) r = r

def identifiers : Carrier Identifier where
  id := Identifier.id
  customer := Identifier.customerId
  put := fun c i => { i with customerId := c }
  moved := Merge.identifiers
  id_put := fun _ _ => rfl
  customer_put := fun _ _ => rfl
  put_put := fun _ _ _ => rfl
  put_self := fun _ => rfl

def links : Carrier Link where
  id := Link.id
  customer := Link.customerId
  put := fun c l => { l with customerId := c }
  moved := Merge.links
  id_put := fun _ _ => rfl
  customer_put := fun _ _ => rfl
  put_put := fun _ _ _ => rfl
  put_self := fun _ => rfl

def Active (db : Db) (id : Uuid) : Prop := ∃ p ∈ db.profiles, p.id = id ∧ p.status = .active

section
variable {ρ : Type} (C : Carrier ρ)

/-- the merges that have moved the row and are not undone, newest first -/
def Carrier.stack (merges : List Merge) (x : Uuid) : List Merge :=
  (merges.filter fun m => !m.undone && decide (x ∈ C.moved m)).reverse

structure Carried (rows₀ : List ρ) (db : Db) (rows : List ρ) (owner : Uuid → Uuid) : Prop where
  rows : rows = rows₀.map fun r => C.put (owner (C.id r)) r
  leads : ∀ r ∈ rows₀, Leads Merge.loserId Merge.winnerId (C.customer r)
    (C.stack db.merges (C.id r)) (owner (C.id r))
  active : ∀ r ∈ rows₀, Active db (owner (C.id r))

end

structure Inv (db₀ db : Db) : Prop where
  profiles : db.profiles.map Profile.id = db₀.profiles.map Profile.id
  /-- a profile is active, and lost by no merge that stands, or it is merged by one -/
  status : ∀ p ∈ db.profiles,
    (p.status = .active ∧ p.mergedIntoId = none ∧
      ∀ m ∈ db.merges, m.undone = false → m.loserId ≠ p.id) ∨
    (p.status = .merged ∧ ∃ m ∈ db.merges, m.undone = false ∧ m.loserId = p.id ∧
      p.mergedIntoId = some m.winnerId)
  losers : ((db.merges.filter fun m => !m.undone).map Merge.loserId).Nodup
  there : ∀ m ∈ db.merges, m.winnerId ∈ db₀.profiles.map Profile.id ∧
    m.loserId ∈ db₀.profiles.map Profile.id
  merges : (db.merges.map Merge.id).Nodup
  identifiers : ∃ owner, Carried Engage.identifiers db₀.identifiers db db.identifiers owner
  links : ∃ owner, Carried Engage.links db₀.links db db.links owner
  ends : ∀ p ∈ db.profiles, ∃ n ≤ Db.DEPTH, ∃ c, Ends db.redirect n p.id c

/-! ## before the first merge -/

section
variable {ρ : Type} {C : Carrier ρ}

def Carrier.ownerOf (C : Carrier ρ) (rows : List ρ) (x : Uuid) : Uuid :=
  ((rows.find? fun r => C.id r = x).map C.customer).getD x

theorem carried_start {db : Db} {rows : List ρ} (hids : (rows.map C.id).Nodup)
    (hmerges : db.merges = []) (hactive : ∀ r ∈ rows, Active db (C.customer r)) :
    Carried C rows db rows (C.ownerOf rows) := by
  have howner : ∀ r ∈ rows, C.ownerOf rows (C.id r) = C.customer r := by
    intro r hr
    rw [Carrier.ownerOf, (find?_key_iff hids).mpr ⟨hr, rfl⟩]
    rfl
  refine ⟨?_, fun r hr => ?_, fun r hr => ?_⟩
  · refine (List.map_id' rows).symm.trans (List.map_congr_left fun r hr => ?_)
    rw [howner r hr, C.put_self]
  · rw [howner r hr, Carrier.stack, hmerges]
    rfl
  · rw [howner r hr]
    exact hactive r hr

end

theorem active_of_fresh {db : Db} (h : Fresh db) {id : Uuid}
    (hid : id ∈ db.profiles.map Profile.id) : Active db id := by
  obtain ⟨p, hp, rfl⟩ := List.mem_map.mp hid
  exact ⟨p, hp, rfl, (h.active p hp).1⟩

theorem inv_start {db : Db} (h : Fresh db) : Inv db db := by
  refine ⟨rfl, fun p hp => Or.inl ?_, ?_, ?_, ?_, ⟨identifiers.ownerOf db.identifiers, ?_⟩,
    ⟨links.ownerOf db.links, ?_⟩, fun p hp => ?_⟩
  · obtain ⟨hactive, hnone⟩ := h.active p hp
    rw [h.merges]
    exact ⟨hactive, hnone, fun _ hm => absurd hm List.not_mem_nil⟩
  · rw [h.merges]
    exact List.nodup_nil
  · rw [h.merges]
    exact fun _ hm => absurd hm List.not_mem_nil
  · rw [h.merges]
    exact List.nodup_nil
  · exact carried_start h.identifiers h.merges fun i hi => active_of_fresh h (h.identified i hi)
  · exact carried_start h.links h.merges fun l hl => active_of_fresh h (h.linked l hl)
  · refine ⟨0, Nat.zero_le _, p.id, Ends.here ?_⟩
    rw [Db.redirect, Db.profile?, (find?_key_iff h.profiles).mpr ⟨hp, rfl⟩, Option.bind_some,
      (h.active p hp).2]
    rfl

/-! ## what the invariant says -/

section
variable {db₀ db : Db} (h : Inv db₀ db) (h₀ : Fresh db₀)
include h

theorem Inv.nodup (h₀ : Fresh db₀) : (db.profiles.map Profile.id).Nodup := by
  rw [h.profiles]
  exact h₀.profiles

theorem Inv.profile? (h₀ : Fresh db₀) {p : Profile} (hp : p ∈ db.profiles) :
    db.profile? p.id = some p := (find?_key_iff (h.nodup h₀)).mpr ⟨hp, rfl⟩

theorem Inv.not_loser {id : Uuid} (hactive : Active db id) :
    ∀ m ∈ db.merges, m.undone = false → m.loserId ≠ id := by
  obtain ⟨p, hp, rfl, hstatus⟩ := hactive
  rcases h.status p hp with ⟨-, -, hnot⟩ | ⟨hmerged, -⟩
  · exact hnot
  · rw [hstatus] at hmerged
    cases hmerged

theorem Inv.active_of_not_merged {p : Profile} (hp : p ∈ db.profiles) (hne : p.status ≠ .merged) :
    Active db p.id := by
  rcases h.status p hp with ⟨hactive, -⟩ | ⟨hmerged, -⟩
  · exact ⟨p, hp, rfl, hactive⟩
  · exact absurd hmerged hne

theorem Inv.redirect_of_active (h₀ : Fresh db₀) {id : Uuid} (hactive : Active db id) :
    db.redirect id = none := by
  obtain ⟨p, hp, rfl, hstatus⟩ := hactive
  rw [Db.redirect, h.profile? h₀ hp, Option.bind_some]
  rcases h.status p hp with ⟨-, hnone, -⟩ | ⟨hmerged, -⟩
  · rw [hnone]
    rfl
  · rw [hstatus] at hmerged
    cases hmerged

theorem Inv.there_of_winner (h₀ : Fresh db₀) {m : Merge} (hm : m ∈ db.merges) :
    (db.profile? m.winnerId).isSome = true := by
  have hwinner := (h.there m hm).1
  rw [← h.profiles] at hwinner
  obtain ⟨p, hp, hid⟩ := List.mem_map.mp hwinner
  rw [← hid, h.profile? h₀ hp]
  rfl

theorem Inv.active_of_ends (h₀ : Fresh db₀) {n : Nat} {a c : Uuid}
    (ha : a ∈ db.profiles.map Profile.id) (hends : Ends db.redirect n a c) : Active db c := by
  induction n generalizing a with
  | zero =>
    obtain ⟨rfl, hnone⟩ := ends_zero_iff.mp hends
    obtain ⟨p, hp, rfl⟩ := List.mem_map.mp ha
    rcases h.status p hp with ⟨hactive, -⟩ | ⟨-, m, hm, -, -, hinto⟩
    · exact ⟨p, hp, rfl, hactive⟩
    · rw [Db.redirect, h.profile? h₀ hp, Option.bind_some, hinto, Option.filter_some,
        if_pos (h.there_of_winner h₀ hm)] at hnone
      cases hnone
  | succ n ih =>
    obtain ⟨b, hb, hrest⟩ := ends_succ_iff.mp hends
    refine ih ?_ hrest
    obtain ⟨p, -, hfilter⟩ := Option.bind_eq_some_iff.mp hb
    obtain ⟨-, hsome⟩ := Option.filter_eq_some_iff.mp hfilter
    obtain ⟨q, hq⟩ := Option.isSome_iff_exists.mp hsome
    obtain ⟨hq, hid⟩ := (find?_key_iff (h.nodup h₀)).mp hq
    rw [← hid]
    exact List.mem_map_of_mem hq

theorem Inv.sound (h₀ : Fresh db₀) : Sound db₀ db := by
  have howned : ∀ {ρ : Type} {C : Carrier ρ} {rows₀ rows : List ρ} {owner : Uuid → Uuid},
      Carried C rows₀ db rows owner → ∀ r ∈ rows, ∀ p ∈ db.profiles, p.id = C.customer r →
      p.status ≠ .merged := by
    intro ρ C rows₀ rows owner hcarried r hr p hp hid
    rw [hcarried.rows] at hr
    obtain ⟨r₀, hr₀, rfl⟩ := List.mem_map.mp hr
    rw [C.customer_put] at hid
    obtain ⟨q, hq, hqid, hactive⟩ := hcarried.active r₀ hr₀
    rw [List.inj_on_of_nodup_map (h.nodup h₀) hp hq (hid.trans hqid.symm), hactive]
    exact fun hne => Status.noConfusion hne
  have hback : ∀ {ρ : Type} {C : Carrier ρ} {rows₀ rows : List ρ} {owner : Uuid → Uuid},
      Carried C rows₀ db rows owner → (∀ m ∈ db.merges, m.undone = true) → rows = rows₀ := by
    intro ρ C rows₀ rows owner hcarried hundone
    rw [hcarried.rows]
    refine (List.map_congr_left fun r hr => ?_).trans (List.map_id' rows₀)
    have hnone : C.stack db.merges (C.id r) = [] := by
      rw [Carrier.stack, List.reverse_eq_nil_iff, List.filter_eq_nil_iff]
      intro m hm
      rw [hundone m hm]
      exact Bool.false_ne_true
    have hleads := hcarried.leads r hr
    rw [hnone] at hleads
    have hhome : owner (C.id r) = C.customer r := hleads
    rw [hhome, C.put_self]
  obtain ⟨owner, hidentifiers⟩ := h.identifiers
  obtain ⟨owner', hlinks⟩ := h.links
  refine ⟨fun p hp => ?_, howned hidentifiers, howned hlinks, fun hundone => ⟨?_, ?_, ?_⟩⟩
  · obtain ⟨n, hn, c, hends⟩ := h.ends p hp
    obtain ⟨q, hq, rfl, hactive⟩ := h.active_of_ends h₀ (List.mem_map_of_mem hp) hends
    refine ⟨q, ?_, hactive⟩
    have hchase : chase db.redirect Db.DEPTH [] p.id = q.id :=
      chase_of_ends hends hn fun _ hs => absurd hs List.not_mem_nil
    rw [Db.followMerges, h.profile? h₀ hp]
    dsimp only
    rw [hchase, h.profile? h₀ hq]
    rfl
  · intro p hp
    rcases h.status p hp with ⟨hactive, -⟩ | ⟨-, m, hm, hstands, -⟩
    · exact hactive
    · rw [hundone m hm] at hstands
      cases hstands
  · exact hback hidentifiers hundone
  · exact hback hlinks hundone

end

/-! ## a profile is changed -/

section
variable {db db' : Db} {id : Uuid} {f : Profile → Profile} (hf : ∀ p, (f p).id = p.id)
  (hprofiles : db'.profiles = Base.modify Profile.id id f db.profiles)
include hf hprofiles

theorem profile?_modify (x : Uuid) :
    db'.profile? x = (db.profile? x).map fun p => if p.id = id then f p else p := by
  rw [Db.profile?, hprofiles]
  exact find?_modify hf x

theorem redirect_modify {p : Profile} (hp : db.profile? id = some p) :
    db'.redirect = Function.update db.redirect id
      ((f p).mergedIntoId.filter fun t => (db.profile? t).isSome) := by
  have hthere : ∀ t, (db'.profile? t).isSome = (db.profile? t).isSome := by
    intro t
    rw [profile?_modify hf hprofiles, Option.isSome_map]
  funext x
  simp only [Db.redirect, hthere]
  rw [profile?_modify hf hprofiles]
  have hkey : ∀ y q, db.profile? y = some q → q.id = y := by
    intro y q hq
    have hfound := List.find?_some hq
    exact of_decide_eq_true hfound
  by_cases hx : x = id
  · subst hx
    rw [Function.update_self, hp, Option.map_some, Option.bind_some, if_pos (hkey x p hp)]
  · rw [Function.update_of_ne hx]
    cases hq : db.profile? x with
    | none => simp only [Db.redirect, hq, Option.map_none, Option.bind_none]
    | some q =>
      rw [Option.map_some, Option.bind_some, if_neg (hkey x q hq ▸ hx), Db.redirect, hq]
      rfl

end

/-! ## a merge -/

theorem merge_ok {id winnerId loserId : Uuid} {reason mergedBy : String} {db db' : Db}
    (hmerge : merge id winnerId loserId reason mergedBy db = .ok db') :
    refusal winnerId loserId reason db = none ∧ id ∉ db.merges.map Merge.id ∧
      db'.profiles = Base.modify Profile.id loserId (Profile.mergeInto winnerId) db.profiles ∧
      db'.identifiers = db.identifiers.map (Identifier.handOver winnerId loserId) ∧
      db'.links = db.links.map (Link.handOver winnerId loserId) ∧
      ∃ m : Merge, db'.merges = db.merges ++ [m] ∧ m.id = id ∧ m.winnerId = winnerId ∧
        m.loserId = loserId ∧ m.undone = false ∧
        m.identifiers = (db.identifiers.filter fun i => i.customerId = loserId).map Identifier.id ∧
        m.links = (db.links.filter fun l => l.customerId = loserId).map Link.id := by
  rw [merge] at hmerge
  cases hrefusal : refusal winnerId loserId reason db with
  | some why =>
    rw [hrefusal] at hmerge
    cases hmerge
  | none =>
    rw [hrefusal] at hmerge
    dsimp only at hmerge
    split at hmerge
    · rename_i hkeys
      obtain rfl := Except.ok.inj hmerge
      exact ⟨rfl, hkeys.2, rfl, rfl, rfl, _, rfl, rfl, rfl, rfl, rfl, rfl, rfl⟩
    · cases hmerge

theorem refusal_none {winnerId loserId : Uuid} {reason : String} {db : Db}
    (h : refusal winnerId loserId reason db = none) : winnerId ≠ loserId ∧
      (∃ w, db.profile? winnerId = some w) ∧ ∃ l, db.profile? loserId = some l ∧
        l.status ≠ .merged := by
  rw [refusal] at h
  split at h
  · cases h
  rename_i hne
  split at h
  · cases h
  cases hw : db.profile? winnerId with
  | none =>
    rw [hw] at h
    cases h
  | some w =>
    cases hl : db.profile? loserId with
    | none =>
      rw [hw, hl] at h
      cases h
    | some l =>
      rw [hw, hl] at h
      dsimp only at h
      split at h
      · cases h
      · rename_i hstatus
        exact ⟨hne, ⟨w, rfl⟩, l, rfl, hstatus⟩

section
variable {ρ : Type} {C : Carrier ρ} {rows₀ rows : List ρ} {db db' : Db} {owner : Uuid → Uuid}

/-- the rows of the loser go to the winner, and stand on the new merge -/
theorem Carried.merge (h : Carried C rows₀ db rows owner) {m : Merge}
    (hmerges : db'.merges = db.merges ++ [m]) (hundone : m.undone = false)
    (hmoved : C.moved m = (rows.filter fun r => C.customer r = m.loserId).map C.id)
    {rows' : List ρ}
    (hrows : rows' = rows.map fun r => if C.customer r = m.loserId then C.put m.winnerId r else r)
    (hactive : ∀ c, c ≠ m.loserId → Active db c → Active db' c) (hwinner : Active db' m.winnerId) :
    ∃ owner, Carried C rows₀ db' rows' owner := by
  have hmem : ∀ r ∈ rows₀, C.id r ∈ C.moved m ↔ owner (C.id r) = m.loserId := by
    intro r hr
    rw [hmoved, h.rows]
    constructor
    · intro hx
      obtain ⟨r', hr', hid⟩ := List.mem_map.mp hx
      obtain ⟨hr', hcustomer⟩ := List.mem_filter.mp hr'
      obtain ⟨r₀, hr₀, rfl⟩ := List.mem_map.mp hr'
      have hcustomer := of_decide_eq_true hcustomer
      rw [C.customer_put] at hcustomer
      rw [C.id_put] at hid
      rw [← hid, hcustomer]
    · intro howner
      refine List.mem_map.mpr ⟨C.put (owner (C.id r)) r, List.mem_filter.mpr ⟨?_, ?_⟩, C.id_put _ _⟩
      · exact List.mem_map_of_mem hr
      · rw [C.customer_put]
        exact decide_eq_true howner
  refine ⟨fun x => if owner x = m.loserId then m.winnerId else owner x, ?_, fun r hr => ?_,
    fun r hr => ?_⟩
  · rw [hrows, h.rows, List.map_map]
    refine List.map_congr_left fun r hr => ?_
    show (if C.customer (C.put (owner (C.id r)) r) = m.loserId then
      C.put m.winnerId (C.put (owner (C.id r)) r) else C.put (owner (C.id r)) r) = _
    rw [C.customer_put, C.put_put]
    split <;> rfl
  · have hold := h.leads r hr
    rw [hmerges, Carrier.stack, List.filter_append, List.reverse_append]
    by_cases howner : owner (C.id r) = m.loserId
    · rw [if_pos howner, List.filter_cons_of_pos, List.filter_nil]
      · rw [howner] at hold
        exact ⟨rfl, hold⟩
      · rw [hundone, decide_eq_true ((hmem r hr).mpr howner)]
        rfl
    · rw [if_neg howner, List.filter_cons_of_neg, List.filter_nil]
      · exact hold
      · rw [decide_eq_false (mt (hmem r hr).mp howner), Bool.and_false]
        exact Bool.false_ne_true
  · split
    · exact hwinner
    · rename_i hother
      exact hactive _ hother (h.active r hr)

end

theorem ends_merge {next : Uuid → Option Uuid} {winnerId loserId a : Uuid} {limit : Nat}
    (hne : winnerId ≠ loserId) (hwinner : next winnerId = none) (hloser : next loserId = none)
    (hends : ∃ n ≤ limit, ∃ c, Ends next n a c) (hlimit : follow next limit a ≠ some loserId) :
    ∃ n ≤ limit, ∃ c, Ends (Function.update next loserId (some winnerId)) n a c := by
  obtain ⟨n, hn, c, hends⟩ := hends
  by_cases hc : c = loserId
  · subst hc
    refine ⟨n + 1, ?_, winnerId, hends.extend hne hwinner⟩
    refine Nat.lt_of_le_of_ne hn fun heq => hlimit ?_
    rw [← heq]
    exact hends.1
  · refine ⟨n, hn, c, hends.avoid fun j _ hfollow => hc ?_⟩
    have hfar : Ends next j a loserId := ⟨hfollow, hloser⟩
    exact (hends.unique hfar).2

section
variable {db₀ db db' : Db} (h : Inv db₀ db) (h₀ : Fresh db₀)
include h h₀

theorem Inv.merge {id winnerId loserId : Uuid} {reason mergedBy : String}
    (hallowed : Allowed db (.merge id winnerId loserId reason mergedBy))
    (hmerge : Engage.merge id winnerId loserId reason mergedBy db = .ok db') : Inv db₀ db' := by
  obtain ⟨hrefusal, hnew, hprofiles, hidentifiers, hlinks, m, hmerges, rfl, rfl, rfl, hundone,
    hmovedi, hmovedl⟩ := merge_ok hmerge
  obtain ⟨hne, ⟨w, hw⟩, l, hl, hlstatus⟩ := refusal_none hrefusal
  obtain ⟨hwstatus, hprimary, hdeep⟩ := hallowed hrefusal
  obtain ⟨hw, hwid⟩ := (find?_key_iff (h.nodup h₀)).mp hw
  obtain ⟨hl, hlid⟩ := (find?_key_iff (h.nodup h₀)).mp hl
  have hwinner : Active db m.winnerId := hwid ▸ h.active_of_not_merged hw (hwstatus w hw hwid)
  have hloser : Active db m.loserId := hlid ▸ h.active_of_not_merged hl hlstatus
  have hids : db'.profiles.map Profile.id = db.profiles.map Profile.id := by
    rw [hprofiles, map_key_modify (f := Profile.mergeInto m.winnerId) fun _ => rfl]
  have hactive : ∀ c, c ≠ m.loserId → Active db c → Active db' c := by
    intro c hc hc'
    obtain ⟨p, hp, rfl, hstatus⟩ := hc'
    refine ⟨p, ?_, rfl, hstatus⟩
    rw [hprofiles]
    exact List.mem_map.mpr ⟨p, hp, if_neg hc⟩
  have hwinner' := hactive m.winnerId hne hwinner
  have hredirect : db'.redirect = Function.update db.redirect m.loserId (some m.winnerId) := by
    obtain ⟨q, hq, hqid, -⟩ := hwinner
    have hqfound : db.profile? m.winnerId = some q := hqid ▸ h.profile? h₀ hq
    have hlfound : db.profile? m.loserId = some l := hlid ▸ h.profile? h₀ hl
    rw [redirect_modify (f := Profile.mergeInto m.winnerId) (fun _ => rfl) hprofiles hlfound]
    show Function.update db.redirect m.loserId (Option.filter _ (some m.winnerId)) = _
    rw [Option.filter_some, hqfound]
    rfl
  obtain ⟨owneri, hcarriedi⟩ := h.identifiers
  obtain ⟨ownerl, hcarriedl⟩ := h.links
  refine ⟨hids.trans h.profiles, fun p hp => ?_, ?_, fun n hn => ?_, ?_, ?_, ?_, fun p hp => ?_⟩
  · -- the loser is merged by the new merge, and the others are as they were
    rw [hprofiles] at hp
    obtain ⟨q, hq, rfl⟩ := List.mem_map.mp hp
    rw [hmerges]
    by_cases hqid : q.id = m.loserId
    · rw [if_pos hqid]
      exact Or.inr ⟨rfl, m, List.mem_append_right _ List.mem_cons_self, hundone, hqid.symm, rfl⟩
    · rw [if_neg hqid]
      rcases h.status q hq with ⟨hstatus, hinto, hnot⟩ | ⟨hstatus, n, hn, hstands, hnid, hinto⟩
      · refine Or.inl ⟨hstatus, hinto, fun n hn hstands => ?_⟩
        rcases List.mem_append.mp hn with hn | hn
        · exact hnot n hn hstands
        · rw [List.mem_singleton.mp hn]
          exact Ne.symm hqid
      · exact Or.inr ⟨hstatus, n, List.mem_append_left _ hn, hstands, hnid, hinto⟩
  · rw [hmerges, List.filter_append, List.map_append,
      List.filter_cons_of_pos (by rw [hundone]; rfl)]
    refine List.nodup_append.mpr ⟨h.losers, List.nodup_singleton _, fun a ha b hb hab => ?_⟩
    obtain ⟨n, hn, rfl⟩ := List.mem_map.mp ha
    obtain ⟨hn, hstands⟩ := List.mem_filter.mp hn
    rw [List.mem_singleton.mp hb] at hab
    exact h.not_loser hloser n hn (by simpa using hstands) hab
  · rw [hmerges] at hn
    rcases List.mem_append.mp hn with hn | hn
    · exact h.there n hn
    · rw [List.mem_singleton.mp hn, ← h.profiles]
      exact ⟨hwid ▸ List.mem_map_of_mem hw, hlid ▸ List.mem_map_of_mem hl⟩
  · rw [hmerges, List.map_append]
    refine List.nodup_append.mpr ⟨h.merges, List.nodup_singleton _, fun a ha b hb hab => hnew ?_⟩
    rw [← List.mem_singleton.mp hb, ← hab]
    exact ha
  · refine hcarriedi.merge hmerges hundone hmovedi ?_ hactive hwinner'
    rw [hidentifiers]
    refine List.map_congr_left fun i hi => ?_
    show (if i.customerId = m.loserId then _ else i) =
      if i.customerId = m.loserId then Engage.identifiers.put m.winnerId i else i
    by_cases hcustomer : i.customerId = m.loserId
    · -- what is not primary stays so
      rw [if_pos hcustomer, if_pos hcustomer, ← hprimary i hi hcustomer]
      rfl
    · rw [if_neg hcustomer, if_neg hcustomer]
  · refine hcarriedl.merge hmerges hundone hmovedl ?_ hactive hwinner'
    rw [hlinks]
    rfl
  · have hpid : p.id ∈ db.profiles.map Profile.id := by
      rw [← hids]
      exact List.mem_map_of_mem hp
    obtain ⟨q, hq, hqid⟩ := List.mem_map.mp hpid
    rw [hredirect, ← hqid]
    exact ends_merge hne (h.redirect_of_active h₀ hwinner) (h.redirect_of_active h₀ hloser)
      (h.ends q hq) (hdeep q hq)

end

/-! ## an undoing -/

theorem unmerge_ok {id : Uuid} {actor : String} {db db' : Db} (h : unmerge id actor db = .ok db') :
    ∃ m ∈ db.merges, m.id = id ∧ m.undone = false ∧
      db'.profiles = Base.modify Profile.id m.loserId Profile.restore db.profiles ∧
      db'.identifiers = db.identifiers.map (fun i =>
        if i.id ∈ m.identifiers then { i with customerId := m.loserId } else i) ∧
      db'.links = db.links.map (fun l =>
        if l.id ∈ m.links then { l with customerId := m.loserId } else l) ∧
      db'.merges = Base.modify Merge.id id (Merge.undo actor) db.merges := by
  rw [unmerge] at h
  cases hm : db.merge? id with
  | none =>
    rw [hm] at h
    cases h
  | some m =>
    rw [hm] at h
    dsimp only at h
    split at h
    · cases h
    rename_i hundone
    split at h
    · obtain rfl := Except.ok.inj h
      have hfound := List.find?_some hm
      exact ⟨m, List.mem_of_find?_eq_some hm, of_decide_eq_true hfound,
        Bool.eq_false_of_not_eq_true hundone, rfl, rfl, rfl, rfl⟩
    · cases h

theorem filter_undo (merges : List Merge) (id : Uuid) (actor : String) (p : Merge → Bool) :
    (Base.modify Merge.id id (Merge.undo actor) merges).filter (fun m => !m.undone && p m) =
      (merges.filter fun m => !m.undone && p m).filter fun m => m.id ≠ id := by
  induction merges with
  | nil => rfl
  | cons m merges ih =>
    show ((if m.id = id then m.undo actor else m) ::
      Base.modify Merge.id id (Merge.undo actor) merges).filter _ = _
    by_cases hid : m.id = id
    · rw [if_pos hid, List.filter_cons_of_neg (by rw [Merge.undo]; exact Bool.false_ne_true), ih,
        List.filter_cons]
      split
      · rw [List.filter_cons_of_neg (by simpa using hid)]
      · rfl
    · rw [if_neg hid, List.filter_cons, List.filter_cons, ih]
      split
      · rw [List.filter_cons_of_pos (by simpa using hid)]
      · rfl

section
variable {ρ : Type} {C : Carrier ρ} {rows₀ rows : List ρ} {db₀ db db' : Db} {owner : Uuid → Uuid}

/-- the rows that the merge has moved go back, and stand on the merges before it -/
theorem Carried.undo (h : Carried C rows₀ db rows owner) (hinv : Inv db₀ db) {m : Merge}
    {actor : String} (hm : m ∈ db.merges) (hstands : m.undone = false)
    (hmerges : db'.merges = Base.modify Merge.id m.id (Merge.undo actor) db.merges)
    (hthere : ∀ r ∈ rows, C.id r ∈ C.moved m → C.customer r = m.winnerId) {rows' : List ρ}
    (hrows : rows' = rows.map fun r => if C.id r ∈ C.moved m then C.put m.loserId r else r)
    (hactive : ∀ c, Active db c → Active db' c) (hloser : Active db' m.loserId) :
    ∃ owner, Carried C rows₀ db' rows' owner := by
  have hstack : ∀ x, C.stack db'.merges x = (C.stack db.merges x).filter fun n => n.id ≠ m.id := by
    intro x
    rw [Carrier.stack, hmerges, filter_undo, Carrier.stack, List.filter_reverse]
  have hids : ∀ x, ((C.stack db.merges x).map Merge.id).Nodup := by
    intro x
    rw [Carrier.stack, List.map_reverse, List.nodup_reverse]
    exact hinv.merges.sublist (List.filter_sublist.map _)
  have hmem : ∀ x n, n ∈ C.stack db.merges x ↔
      n ∈ db.merges ∧ n.undone = false ∧ x ∈ C.moved n := by
    intro x n
    rw [Carrier.stack, List.mem_reverse, List.mem_filter]
    simp
  refine ⟨fun x => if x ∈ C.moved m then m.loserId else owner x, ?_, fun r hr => ?_,
    fun r hr => ?_⟩
  · rw [hrows, h.rows, List.map_map]
    refine List.map_congr_left fun r hr => ?_
    show (if C.id (C.put (owner (C.id r)) r) ∈ C.moved m then
      C.put m.loserId (C.put (owner (C.id r)) r) else C.put (owner (C.id r)) r) = _
    rw [C.id_put, C.put_put]
    split <;> rfl
  · have hold := h.leads r hr
    rw [hstack]
    by_cases hx : C.id r ∈ C.moved m
    · have howner : owner (C.id r) = m.winnerId := by
        have hcustomer := hthere (C.put (owner (C.id r)) r)
        rw [C.customer_put, C.id_put, h.rows] at hcustomer
        exact hcustomer (List.mem_map_of_mem hr) hx
      obtain ⟨rest, hrest, hleads⟩ := hold.top ((hmem _ m).mpr ⟨hm, hstands, hx⟩) howner.symm
        fun n hn => hinv.not_loser (h.active r hr) n ((hmem _ n).mp hn).1 ((hmem _ n).mp hn).2.1
      have hnew := hids (C.id r)
      rw [hrest, List.map_cons, List.nodup_cons] at hnew
      have hothers : rest.filter (fun n => n.id ≠ m.id) = rest := by
        refine List.filter_eq_self.mpr fun n hn => decide_eq_true fun hid => hnew.1 ?_
        rw [← hid]
        exact List.mem_map_of_mem hn
      rw [if_pos hx, hrest, List.filter_cons_of_neg (by simp), hothers]
      exact hleads
    · have hothers : (C.stack db.merges (C.id r)).filter (fun n => n.id ≠ m.id) =
          C.stack db.merges (C.id r) := by
        refine List.filter_eq_self.mpr fun n hn => decide_eq_true fun hid => hx ?_
        obtain ⟨hn, -, hmoved⟩ := (hmem _ n).mp hn
        rw [← List.inj_on_of_nodup_map hinv.merges hn hm hid]
        exact hmoved
      rw [if_neg hx, hothers]
      exact hold
  · split
    · exact hloser
    · exact hactive _ (h.active r hr)

end

section
variable {db₀ db db' : Db} (h : Inv db₀ db) (h₀ : Fresh db₀)
include h h₀

theorem Inv.unmerge {id : Uuid} {actor : String} (hallowed : Allowed db (.unmerge id actor))
    (hunmerge : Engage.unmerge id actor db = .ok db') : Inv db₀ db' := by
  obtain ⟨m, hm, rfl, hstands, hprofiles, hidentifiers, hlinks, hmerges⟩ := unmerge_ok hunmerge
  obtain ⟨hplacei, hplacel⟩ := hallowed m hm rfl hstands
  have hids : db'.profiles.map Profile.id = db.profiles.map Profile.id := by
    rw [hprofiles, map_key_modify (f := Profile.restore) fun _ => rfl]
  obtain ⟨l, hl, hlid⟩ : ∃ l ∈ db.profiles, l.id = m.loserId := by
    have hloser := (h.there m hm).2
    rw [← h.profiles] at hloser
    exact List.mem_map.mp hloser
  have hactive : ∀ c, Active db c → Active db' c := by
    intro c hc
    obtain ⟨p, hp, rfl, hstatus⟩ := hc
    refine ⟨p, ?_, rfl, hstatus⟩
    rw [hprofiles]
    refine List.mem_map.mpr ⟨p, hp, if_neg fun hid => ?_⟩
    exact h.not_loser ⟨p, hp, rfl, hstatus⟩ m hm hstands hid.symm
  have hloser : Active db' m.loserId := by
    refine ⟨l.restore, ?_, hlid, rfl⟩
    rw [hprofiles]
    exact List.mem_map.mpr ⟨l, hl, if_pos hlid⟩
  have hredirect : db'.redirect = Function.update db.redirect m.loserId none :=
    redirect_modify (f := Profile.restore) (fun _ => rfl) hprofiles (hlid ▸ h.profile? h₀ hl)
  have hstanding : ∀ n ∈ db'.merges, n.undone = false → n ∈ db.merges ∧ n.id ≠ m.id := by
    intro n hn hundone
    rw [hmerges] at hn
    obtain ⟨n', hn', rfl⟩ := List.mem_map.mp hn
    by_cases hid : n'.id = m.id
    · rw [if_pos hid] at hundone
      cases hundone
    · rw [if_neg hid]
      exact ⟨hn', hid⟩
  obtain ⟨owneri, hcarriedi⟩ := h.identifiers
  obtain ⟨ownerl, hcarriedl⟩ := h.links
  refine ⟨hids.trans h.profiles, fun p hp => ?_, ?_, fun n hn => ?_, ?_, ?_, ?_, fun p hp => ?_⟩
  · rw [hprofiles] at hp
    obtain ⟨q, hq, rfl⟩ := List.mem_map.mp hp
    by_cases hqid : q.id = m.loserId
    · -- no other merge has lost it
      rw [if_pos hqid]
      refine Or.inl ⟨rfl, rfl, fun n hn hundone hloser => ?_⟩
      obtain ⟨hn, hnid⟩ := hstanding n hn hundone
      refine hnid (congrArg Merge.id (List.inj_on_of_nodup_map h.losers
        (List.mem_filter.mpr ⟨hn, ?_⟩) (List.mem_filter.mpr ⟨hm, ?_⟩) (hloser.trans hqid)))
      · rw [hundone]
        rfl
      · rw [hstands]
        rfl
    · rw [if_neg hqid]
      rcases h.status q hq with ⟨hstatus, hinto, hnot⟩ | ⟨hstatus, n, hn, hundone, hnid, hinto⟩
      · exact Or.inl ⟨hstatus, hinto, fun n hn hundone => hnot n (hstanding n hn hundone).1 hundone⟩
      · refine Or.inr ⟨hstatus, n, ?_, hundone, hnid, hinto⟩
        rw [hmerges]
        refine List.mem_map.mpr ⟨n, hn, if_neg fun hid => hqid ?_⟩
        rw [← hnid, List.inj_on_of_nodup_map h.merges hn hm hid]
  · have hfilter := filter_undo db.merges m.id actor fun _ => true
    simp only [Bool.and_true] at hfilter
    rw [hmerges, hfilter]
    exact h.losers.sublist (List.filter_sublist.map _)
  · rw [hmerges] at hn
    obtain ⟨n', hn', rfl⟩ := List.mem_map.mp hn
    split
    · exact h.there n' hn'
    · exact h.there n' hn'
  · rw [hmerges, map_key_modify (f := Merge.undo actor) fun _ => rfl]
    exact h.merges
  · exact hcarriedi.undo h hm hstands hmerges hplacei hidentifiers hactive hloser
  · exact hcarriedl.undo h hm hstands hmerges hplacel hlinks hactive hloser
  · have hpid : p.id ∈ db.profiles.map Profile.id := by
      rw [← hids]
      exact List.mem_map_of_mem hp
    obtain ⟨q, hq, hqid⟩ := List.mem_map.mp hpid
    obtain ⟨n, hn, c, hends⟩ := h.ends q hq
    obtain ⟨k, hk, d, hcut⟩ := hends.cut m.loserId
    rw [hredirect, ← hqid]
    exact ⟨k, hk.trans hn, d, hcut⟩

theorem inv_step (a : Action) (hallowed : Allowed db a) : Inv db₀ (step db a) := by
  cases a with
  | merge id winnerId loserId reason mergedBy =>
    show Inv db₀ (db.after (Engage.merge id winnerId loserId reason mergedBy db))
    cases hmerge : Engage.merge id winnerId loserId reason mergedBy db with
    | error e => exact h
    | ok db' => exact h.merge h₀ hallowed hmerge
  | unmerge id actor =>
    show Inv db₀ (db.after (Engage.unmerge id actor db))
    cases hunmerge : Engage.unmerge id actor db with
    | error e => exact h
    | ok db' => exact h.unmerge h₀ hallowed hunmerge

end

/-! ## runs -/

theorem restored_run {db₀ : Db} (h₀ : Fresh db₀) (as : List Action)
    (h : Along step Allowed db₀ as) : Always step (Sound db₀) db₀ as := by
  intro done left hsplit
  rw [hsplit, along_append] at h
  have hinv : Inv db₀ (exec step db₀ done) :=
    exec_inv (I := Inv db₀) (fun _ a hs ha => inv_step hs h₀ a ha) (inv_start h₀) h.1
  exact hinv.sound h₀

/-! ## two profiles -/

def twice (isPrimary : Bool) : Db where
  profiles := [{ id := 1 }, { id := 2 }]
  identifiers :=
    [{ id := 11, customerId := 1 }, { id := 12, customerId := 2, isPrimary := isPrimary }]
  links := [{ id := 21, customerId := 2, objectKind := "case", objectId := 31 }]
  merges := []

def mergeAndUndo : List Action :=
  [.merge 41 1 2 "same person" "alice", .unmerge 41 "alice"]

theorem fresh_twice (isPrimary : Bool) : Fresh (twice isPrimary) where
  profiles := by cases isPrimary <;> decide
  active := by cases isPrimary <;> decide
  identifiers := by cases isPrimary <;> decide
  links := by cases isPrimary <;> decide
  identified := by cases isPrimary <;> decide
  linked := by cases isPrimary <;> decide
  merges := rfl

theorem restored_twice : Fresh (twice false) ∧ Along step Allowed (twice false) mergeAndUndo ∧
    Always step (Sound (twice false)) (twice false) mergeAndUndo := by
  have hallowed : Along step Allowed (twice false) mergeAndUndo := by decide +kernel
  exact ⟨fresh_twice false, hallowed, restored_run (fresh_twice false) mergeAndUndo hallowed⟩

/-- a primary identifier comes back without its flag -/
theorem not_always_restored : ¬∀ (db₀ : Db), Fresh db₀ → ∀ as : List Action,
    Always step (Sound db₀) db₀ as := by
  intro h
  have hsound := h (twice true) (fresh_twice true) mergeAndUndo mergeAndUndo []
    (List.append_nil _).symm
  have hback := (hsound.restored (by decide +kernel)).2.1
  exact absurd hback (by decide +kernel)

end Engage
