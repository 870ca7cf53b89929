import Mathlib.Data.List.Basic
import Mathlib.Order.Basic
import Velaris.Base.Attempt
import Velaris.HxGuard.Rebac

/-!
# The decision cache of a process

`check` and `invalidate_cache` of `hxguard/service.py`, and the role store of `role_store.py` that
the evaluators look at, with every point at which a check waits.

* `Evaluator`   the backends: which questions look at the role store, and the queries they make;
* `Process`   the cache, the role store and the checks under way;
* `Provenance`   the changes an answer has seen: how many the relations had when each query was
    answered, and how many the roles had when the store was loaded;
* `Kept`   what no operation of a process takes away.

A change of the relations or of the roles is counted in `Stamp`, which nothing of the code reads.
-/

namespace HxGuard
open Py Base

/-! ## stamps -/

/-- how often the relations and the stored roles have changed -/
structure Stamp where
  relations : Nat := 0
  roles : Nat := 0

structure Provenance where
  reads : List Nat := []
  /-- nothing where the role store was not looked at -/
  roles : Option Nat := none

def Provenance.Since (a : Provenance) (n : Stamp) : Prop :=
  (∀ v ∈ a.reads, n.relations ≤ v) ∧ ∀ v ∈ a.roles, n.roles ≤ v

/-! ## checks -/

structure Question where
  subject : Subject
  action : String
  caseId : Option Uuid := none
  deriving DecidableEq

/-- `subject_from_user` stamps the subject of a user with the generation of the role store -/
def Question.stamped (q : Question) (generation : Nat) : Question :=
  if q.subject.kind = "user" then
    { q with subject := { q.subject with roleStoreGeneration := generation } }
  else q

structure Key where
  generation : Nat
  question : Question
  deriving DecidableEq

structure Entry where
  decision : Decision
  expires : Nat
  asOf : Provenance

/-- 30 seconds, in the nanoseconds of the monotonic clock -/
def CACHE_TTL : Nat := 30000000000

def MAX_CACHE_ENTRIES : Nat := 5000

variable (T R : Type)

/-- the backends, over the tables and the role store -/
structure Evaluator where
  evaluate : R → Question → Dialogue T Decision
  usesRoles : Question → Bool
  indifferent : ∀ q, usesRoles q = false → ∀ r r', evaluate r q = evaluate r' q
  users : ∀ q, usesRoles q = true → q.subject.kind = "user"

/-- when a check started: the changes that were committed, and those the process had observed -/
structure Marks where
  startedAt : Stamp
  observed : Stamp

/-- a check that waits for an answer, or with an answer to go on from -/
structure Pending where
  key : Key
  now : Nat
  dialogue : Dialogue T Decision
  asOf : Provenance
  marks : Marks

structure Served where
  question : Question
  decision : Decision
  asOf : Provenance
  marks : Marks

/-- a poll that has seen the generation change, with the roles it has read since -/
structure Poll where
  target : Stamp
  loaded : Option (R × Nat) := none

structure Process where
  cacheGeneration : Nat := 0
  cache : List (Key × Entry) := []
  checks : List (Nat × Pending T) := []
  store : R
  /-- the changes the store has, `0` where it was never loaded -/
  storeAsOf : Nat := 0
  storeGeneration : Nat := 0
  /-- reloads whose query is answered -/
  loads : List (Nat × R × Nat) := []
  seen : Option Nat := none
  poll : Option (Poll R) := none
  observed : Stamp := {}
  served : List Served := []

structure Shared where
  tables : T
  roles : R
  generation : Nat := 0
  stamp : Stamp := {}

variable {T R}

/-! ## the operations of a process -/

/-- `_cache[key] = (decision, now + CACHE_TTL_SECONDS)`, after the sweep of a full cache -/
def remember (now : Nat) (key : Key) (entry : Entry) (cache : List (Key × Entry)) :
    List (Key × Entry) :=
  let swept := if MAX_CACHE_ENTRIES ≤ cache.length then
      let live := cache.filter (now < ·.2.expires)
      if MAX_CACHE_ENTRIES ≤ live.length then [] else live
    else cache
  swept.filter (·.1 ≠ key) ++ [(key, entry)]

def Process.serve (p : Process T R) (q : Question) (d : Decision) (asOf : Provenance)
    (marks : Marks) : Process T R :=
  { p with served := p.served ++ [⟨q, d, asOf, marks⟩] }

def Process.finish (p : Process T R) (c : Pending T) : Process T R :=
  match c.dialogue with
  | .done d =>
    { p with cache := remember c.now c.key ⟨d, c.now + CACHE_TTL, c.asOf⟩ p.cache }.serve
      c.key.question d c.asOf c.marks
  -- a failure is not cached
  | .fail reason => p.serve c.key.question
      ⟨false, "authz evaluation error: " ++ reason, "error", false⟩ c.asOf c.marks
  | .ask _ => p

variable (E : Evaluator T R)

def Process.pending (p : Process T R) (clock : Nat) (stamp : Stamp) (q : Question) : Pending T where
  key := ⟨p.cacheGeneration, q⟩
  now := clock
  dialogue := E.evaluate p.store q
  asOf := { roles := if E.usesRoles q then some p.storeAsOf else none }
  marks := ⟨stamp, p.observed⟩

/-- a miss: the backend runs up to its first query -/
def Process.begin (p : Process T R) (clock : Nat) (stamp : Stamp) (id : Nat) (q : Question) :
    Process T R :=
  let c := p.pending E clock stamp q
  match c.dialogue with
  | .ask _ => { p with checks := p.checks.filter (·.1 ≠ id) ++ [(id, c)] }
  | _ => p.finish c

/-- `check`, up to its first wait -/
def Process.start (p : Process T R) (clock : Nat) (stamp : Stamp) (id : Nat) (q : Question) :
    Process T R :=
  let q := q.stamped p.storeGeneration
  match p.cache.lookup ⟨p.cacheGeneration, q⟩ with
  | some hit =>
    if clock < hit.expires then
      p.serve q { hit.decision with cached := true } hit.asOf ⟨stamp, p.observed⟩
    else p.begin E clock stamp id q
  | none => p.begin E clock stamp id q

variable {E}

def Pending.answer (c : Pending T) (shared : Shared T R) : Pending T :=
  match c.dialogue with
  | .ask k => { c with
      dialogue := k shared.tables
      asOf := { c.asOf with reads := c.asOf.reads ++ [shared.stamp.relations] } }
  | _ => c

def Process.read (p : Process T R) (shared : Shared T R) (id : Nat) : Process T R :=
  { p with checks := p.checks.map fun x => if x.1 = id then (x.1, x.2.answer shared) else x }

/-- a check with its last answer is taken up again -/
def Process.resume (p : Process T R) (id : Nat) : Process T R :=
  match p.checks.lookup id with
  | none => p
  | some c =>
    match c.dialogue with
    | .ask _ => p
    | _ => { p with checks := p.checks.filter (·.1 ≠ id) }.finish c

def Process.invalidate (p : Process T R) : Process T R :=
  { p with cacheGeneration := p.cacheGeneration + 1, cache := [] }

def Process.load (p : Process T R) (shared : Shared T R) (id : Nat) : Process T R :=
  { p with loads := p.loads.filter (·.1 ≠ id) ++ [(id, shared.roles, shared.stamp.roles)] }

def Process.replaceStore (p : Process T R) (roles : R) (asOf : Nat) : Process T R :=
  { p with store := roles, storeAsOf := asOf, storeGeneration := p.storeGeneration + 1 }

def Process.install (p : Process T R) (id : Nat) : Process T R :=
  match p.loads.lookup id with
  | none => p
  | some (roles, asOf) =>
    { p with loads := p.loads.filter (·.1 ≠ id) }.replaceStore roles asOf

/-! ## what the operations keep -/

/-- an answer that is cached, or will be: its key, how long it stands, and what it is from -/
def Process.computed (p : Process T R) : List (Key × Nat × Provenance) :=
  p.cache.map (fun x => (x.1, x.2.expires, x.2.asOf)) ++
    p.checks.map fun c => (c.2.key, c.2.now + CACHE_TTL, c.2.asOf)

variable (E) in
/-- an answer under the present generation of the role store is from the present store -/
def Matched (p : Process T R) (key : Key) (asOf : Provenance) : Prop :=
  if E.usesRoles key.question then
    key.question.subject.roleStoreGeneration ≤ p.storeGeneration ∧
      (key.question.subject.roleStoreGeneration = p.storeGeneration →
        asOf.roles = some p.storeAsOf)
  else asOf.roles = none

variable (E) in
/-- where it can still be found, it has seen `bar` changes of the relations -/
structure Fits (clock bar : Nat) (p : Process T R) (x : Key × Nat × Provenance) : Prop where
  key : x.1.generation ≤ p.cacheGeneration
  matched : Matched E p x.1 x.2.2
  recent : x.1.generation = p.cacheGeneration → clock < x.2.1 → ∀ v ∈ x.2.2.reads, bar ≤ v

variable (E) in
/-- `pick` is the mark a check is held against -/
structure Kept (pick : Marks → Stamp) (clock relations bar : Nat) (p : Process T R) : Prop where
  fits : ∀ x ∈ p.computed, Fits E clock bar p x
  checks : ∀ c ∈ p.checks, c.2.asOf.Since (pick c.2.marks) ∧
    (pick c.2.marks).relations ≤ relations
  served : ∀ s ∈ p.served, s.asOf.Since (pick s.marks)

variable {p : Process T R} {pick : Marks → Stamp} {clock relations bar : Nat}

theorem mem_remember {now : Nat} {key : Key} {entry : Entry} {cache : List (Key × Entry)}
    {x : Key × Entry} (h : x ∈ remember now key entry cache) : x ∈ cache ∨ x = (key, entry) := by
  rw [remember] at h
  rcases List.mem_append.mp h with hx | hx
  · left
    have hx := List.mem_of_mem_filter hx
    dsimp only at hx
    split at hx
    · split at hx
      · cases hx
      · exact List.mem_of_mem_filter hx
    · exact hx
  · exact Or.inr (List.mem_singleton.mp hx)

theorem mem_computed_of_cache {x : Key × Entry} (h : x ∈ p.cache) :
    (x.1, x.2.expires, x.2.asOf) ∈ p.computed :=
  List.mem_append_left _ (List.mem_map.mpr ⟨x, h, rfl⟩)

theorem mem_computed_of_check {c : Nat × Pending T} (h : c ∈ p.checks) :
    (c.2.key, c.2.now + CACHE_TTL, c.2.asOf) ∈ p.computed :=
  List.mem_append_right _ (List.mem_map.mpr ⟨c, h, rfl⟩)

theorem Fits.congr {p' : Process T R} {x : Key × Nat × Provenance} (h : Fits E clock bar p x)
    (hgen : p'.cacheGeneration = p.cacheGeneration)
    (hstore : p'.storeGeneration = p.storeGeneration) (hasOf : p'.storeAsOf = p.storeAsOf) :
    Fits E clock bar p' x := by
  obtain ⟨hkey, hmatched, hrecent⟩ := h
  rw [Matched] at hmatched
  refine ⟨?_, ?_, ?_⟩
  · rw [hgen]
    exact hkey
  · rw [Matched, hstore, hasOf]
    exact hmatched
  · rw [hgen]
    exact hrecent

theorem Kept.serve (h : Kept E pick clock relations bar p) {q : Question} {d : Decision}
    {asOf : Provenance} {marks : Marks} (hsince : asOf.Since (pick marks)) :
    Kept E pick clock relations bar (p.serve q d asOf marks) := by
  refine ⟨fun x hx => (h.fits x hx).congr rfl rfl rfl, h.checks, fun s hs => ?_⟩
  rcases List.mem_append.mp hs with hs | hs
  · exact h.served s hs
  · rw [List.mem_singleton.mp hs]
    exact hsince

theorem Kept.fewer (h : Kept E pick clock relations bar p) {cache : List (Key × Entry)}
    {checks : List (Nat × Pending T)} (hcache : ∀ x ∈ cache, x ∈ p.cache)
    (hchecks : ∀ c ∈ checks, c ∈ p.checks) :
    Kept E pick clock relations bar { p with cache := cache, checks := checks } := by
  refine ⟨fun x hx => Fits.congr (h.fits x ?_) rfl rfl rfl, fun c hc => h.checks c (hchecks c hc),
    h.served⟩
  rcases List.mem_append.mp hx with hx | hx
  · obtain ⟨e, he, rfl⟩ := List.mem_map.mp hx
    exact mem_computed_of_cache (hcache e he)
  · obtain ⟨c, hc, rfl⟩ := List.mem_map.mp hx
    exact mem_computed_of_check (hchecks c hc)

theorem Kept.finish (h : Kept E pick clock relations bar p) {c : Pending T}
    (hfits : Fits E clock bar p (c.key, c.now + CACHE_TTL, c.asOf))
    (hsince : c.asOf.Since (pick c.marks)) :
    Kept E pick clock relations bar (p.finish c) := by
  rw [Process.finish]
  split
  · apply Kept.serve _ hsince
    refine ⟨fun x hx => ?_, h.checks, h.served⟩
    have hold : Fits E clock bar p x := by
      rcases List.mem_append.mp hx with hx | hx
      · obtain ⟨e, he, rfl⟩ := List.mem_map.mp hx
        rcases mem_remember he with he | rfl
        · exact h.fits _ (mem_computed_of_cache he)
        · exact hfits
      · exact h.fits x (List.mem_append_right _ hx)
    exact hold.congr rfl rfl rfl
  · exact h.serve hsince
  · exact h

theorem Kept.resume (h : Kept E pick clock relations bar p) (id : Nat) :
    Kept E pick clock relations bar (p.resume id) := by
  rw [Process.resume]
  cases hc : p.checks.lookup id with
  | none => exact h
  | some c =>
    have hmem := mem_of_lookup hc
    dsimp only
    split
    · exact h
    · apply Kept.finish
      · exact h.fewer (fun x hx => hx) fun c hc => List.mem_of_mem_filter hc
      · exact (h.fits _ (mem_computed_of_check hmem)).congr rfl rfl rfl
      · exact (h.checks _ hmem).1

theorem Kept.invalidate (h : Kept E pick clock relations bar p) (bar' : Nat) :
    Kept E pick clock relations bar' p.invalidate := by
  refine ⟨fun x hx => ?_, h.checks, h.served⟩
  have hold := h.fits x (List.mem_append_right _ hx)
  refine ⟨Nat.le_succ_of_le hold.key, hold.matched, fun hgen => ?_⟩
  have hgen : x.1.generation = p.cacheGeneration + 1 := hgen
  have hle := hold.key
  omega

theorem Kept.replaceStore (h : Kept E pick clock relations bar p) (roles : R) (asOf : Nat) :
    Kept E pick clock relations bar (p.replaceStore roles asOf) := by
  refine ⟨fun x hx => ?_, h.checks, h.served⟩
  obtain ⟨hkey, hmatched, hrecent⟩ := h.fits x hx
  refine ⟨hkey, ?_, hrecent⟩
  rw [Matched] at hmatched ⊢
  split
  · rename_i huses
    rw [if_pos huses] at hmatched
    obtain ⟨hle, -⟩ := hmatched
    refine ⟨Nat.le_succ_of_le hle, fun hnew => ?_⟩
    have hnew : x.1.question.subject.roleStoreGeneration = p.storeGeneration + 1 := hnew
    omega
  · rename_i huses
    rw [if_neg huses] at hmatched
    exact hmatched

theorem Kept.add (h : Kept E pick clock relations bar p) {id : Nat} {c : Pending T}
    (hfits : Fits E clock bar p (c.key, c.now + CACHE_TTL, c.asOf))
    (hsince : c.asOf.Since (pick c.marks)) (hrelations : (pick c.marks).relations ≤ relations) :
    Kept E pick clock relations bar
      { p with checks := p.checks.filter (·.1 ≠ id) ++ [(id, c)] } := by
  refine ⟨fun x hx => ?_, fun c' hc' => ?_, h.served⟩
  · have hold : Fits E clock bar p x := by
      rcases List.mem_append.mp hx with hx | hx
      · exact h.fits x (List.mem_append_left _ hx)
      · obtain ⟨c', hc', rfl⟩ := List.mem_map.mp hx
        rcases List.mem_append.mp hc' with hc' | hc'
        · exact h.fits _ (mem_computed_of_check (List.mem_of_mem_filter hc'))
        · rw [List.mem_singleton.mp hc']
          exact hfits
    exact hold.congr rfl rfl rfl
  · rcases List.mem_append.mp hc' with hc' | hc'
    · exact h.checks c' (List.mem_of_mem_filter hc')
    · rw [List.mem_singleton.mp hc']
      exact ⟨hsince, hrelations⟩

theorem stamped_generation {q : Question} {generation : Nat} (h : q.subject.kind = "user") :
    (q.stamped generation).subject.roleStoreGeneration = generation := by
  rw [Question.stamped, if_pos h]

theorem stamped_kind (q : Question) (generation : Nat) :
    (q.stamped generation).subject.kind = q.subject.kind := by
  rw [Question.stamped]
  split
  · rfl
  · rfl

/-- an answer under the key of a check of now is from the present store -/
theorem Matched.roles {q : Question} {asOf : Provenance} {g : Nat}
    (h : Matched E p ⟨g, q.stamped p.storeGeneration⟩ asOf) :
    asOf.roles =
      if E.usesRoles (q.stamped p.storeGeneration) then some p.storeAsOf else none := by
  rw [Matched] at h
  cases huses : E.usesRoles (q.stamped p.storeGeneration) with
  | false =>
    rw [huses] at h
    exact h
  | true =>
    rw [huses] at h
    have hkind := (stamped_kind q p.storeGeneration).symm.trans (E.users _ huses)
    exact h.2 (stamped_generation hkind)

/-- the mark of a check that starts now is the bar, and the store is not older than the mark -/
theorem Kept.start (h : Kept E pick clock relations bar p) {stamp : Stamp} (id : Nat) {q : Question}
    (hbar : (pick ⟨stamp, p.observed⟩).relations ≤ bar)
    (hrelations : (pick ⟨stamp, p.observed⟩).relations ≤ relations)
    (hroles : E.usesRoles (q.stamped p.storeGeneration) = true →
      (pick ⟨stamp, p.observed⟩).roles ≤ p.storeAsOf) :
    Kept E pick clock relations bar (p.start E clock stamp id q) := by
  have hstore : ∀ v ∈ (if E.usesRoles (q.stamped p.storeGeneration) then some p.storeAsOf
      else none : Option Nat), (pick ⟨stamp, p.observed⟩).roles ≤ v := by
    intro v hv
    split at hv
    · rename_i huses
      cases hv
      exact hroles huses
    · cases hv
  have hbegin : Kept E pick clock relations bar
      (p.begin E clock stamp id (q.stamped p.storeGeneration)) := by
    have hfits : Fits E clock bar p
        (⟨p.cacheGeneration, q.stamped p.storeGeneration⟩, clock + CACHE_TTL,
          (p.pending E clock stamp (q.stamped p.storeGeneration)).asOf) := by
      refine ⟨le_refl _, ?_, fun _ _ v hv => by cases hv⟩
      rw [Matched]
      split
      · rename_i huses
        have hkind := (stamped_kind q p.storeGeneration).symm.trans (E.users _ huses)
        exact ⟨le_of_eq (stamped_generation hkind), fun _ => if_pos huses⟩
      · rename_i huses
        exact if_neg huses
    have hsince : (p.pending E clock stamp (q.stamped p.storeGeneration)).asOf.Since
        (pick ⟨stamp, p.observed⟩) := by
      refine ⟨fun v hv => ?_, hstore⟩
      cases hv
    rw [Process.begin]
    split
    · exact h.add hfits hsince hrelations
    · exact h.finish hfits hsince
  rw [Process.start]
  dsimp only
  cases hit : p.cache.lookup ⟨p.cacheGeneration, q.stamped p.storeGeneration⟩ with
  | none => exact hbegin
  | some e =>
    dsimp only
    split
    · rename_i hlive
      have hfits := h.fits _ (mem_computed_of_cache (mem_of_lookup hit))
      apply h.serve
      refine ⟨fun v hv => hbar.trans (hfits.recent rfl hlive v hv), ?_⟩
      have hroles := hfits.matched.roles
      dsimp only at hroles
      rw [hroles]
      exact hstore
    · exact hbegin

/-- a query is answered -/
theorem Kept.read (h : Kept E pick clock relations bar p) {shared : Shared T R} (id : Nat)
    (hbar : bar ≤ shared.stamp.relations) (hrelations : relations = shared.stamp.relations) :
    Kept E pick clock relations bar (p.read shared id) := by
  have hanswer : ∀ c ∈ (p.read shared id).checks, ∃ c' ∈ p.checks, c.2.key = c'.2.key ∧
      c.2.now = c'.2.now ∧ c.2.marks = c'.2.marks ∧ c.2.asOf.roles = c'.2.asOf.roles ∧
      ∀ v ∈ c.2.asOf.reads, v ∈ c'.2.asOf.reads ∨ v = shared.stamp.relations := by
    intro c hc
    obtain ⟨c', hc', rfl⟩ := List.mem_map.mp hc
    refine ⟨c', hc', ?_⟩
    split
    · rw [Pending.answer]
      split
      · refine ⟨rfl, rfl, rfl, rfl, fun v hv => ?_⟩
        rcases List.mem_append.mp hv with hv | hv
        · exact Or.inl hv
        · exact Or.inr (List.mem_singleton.mp hv)
      · exact ⟨rfl, rfl, rfl, rfl, fun v hv => Or.inl hv⟩
    · exact ⟨rfl, rfl, rfl, rfl, fun v hv => Or.inl hv⟩
  refine ⟨fun x hx => ?_, fun c hc => ?_, h.served⟩
  · rcases List.mem_append.mp hx with hx | hx
    · exact (h.fits x (List.mem_append_left _ hx)).congr rfl rfl rfl
    · obtain ⟨c, hc, rfl⟩ := List.mem_map.mp hx
      obtain ⟨c', hc', hkey, hnow, -, hroles, hreads⟩ := hanswer c hc
      obtain ⟨hgen, hmatched, hrecent⟩ := h.fits _ (mem_computed_of_check hc')
      refine ⟨?_, ?_, ?_⟩
      · rw [hkey]
        exact hgen
      · rw [Matched] at hmatched ⊢
        rw [hkey, hroles]
        exact hmatched
      · rw [hkey, hnow]
        intro hgen hlive v hv
        rcases hreads v hv with hv | rfl
        · exact hrecent hgen hlive v hv
        · exact hbar
  · obtain ⟨c', hc', -, -, hmarks, hroles, hreads⟩ := hanswer c hc
    obtain ⟨⟨hold, hrolesOld⟩, hle⟩ := h.checks c' hc'
    rw [hmarks, Provenance.Since, hroles]
    refine ⟨⟨fun v hv => ?_, hrolesOld⟩, hle⟩
    rcases hreads v hv with hv | rfl
    · exact hold v hv
    · exact hrelations ▸ hle

end HxGuard
