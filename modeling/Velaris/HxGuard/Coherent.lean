import Velaris.Base.Run
import Velaris.HxGuard.Backends

/-!
# Several processes over one database

`poll_once` and `bump` of `hxguard/generation.py`, `write_tuple` and `remove_tuple` of
`hxguard/tuples.py`, and the edit of a role's privileges, between the checks of `HxGuard.Cache`.

* `Event`, `World.step`  one thing a process or the database does;
* `run_answeredAfter`   what a check answers in one process, where no commit is overtaken;
* `run_noticed`   what a check answers after its process has observed a generation.

A change is invalidated where it is written and seen where it is committed; what a check reads in
between is cached as if it were new.
-/

namespace HxGuard
open Py Base

variable {T R : Type}

/-! ## polls -/

/-- `poll_once`, up to its first wait; the first generation is not a change -/
def Process.pollRead (p : Process T R) (shared : Shared T R) : Process T R :=
  if p.poll.isSome then p
  else
    match p.seen with
    | none => { p with seen := some shared.generation, observed := shared.stamp }
    | some g =>
      if shared.generation = g then p
      else { p with seen := some shared.generation, poll := some { target := shared.stamp } }

def Process.pollLoad (p : Process T R) (shared : Shared T R) : Process T R :=
  { p with
    poll := p.poll.map fun pl => { pl with loaded := some (shared.roles, shared.stamp.roles) } }

def Process.takeOver (p : Process T R) (pl : Poll R) : Process T R :=
  match pl.loaded with
  | some (roles, asOf) => p.replaceStore roles asOf
  | none => p

/-- the cache is dropped, whether or not the store was read -/
def Process.pollFinish (p : Process T R) : Process T R :=
  match p.poll with
  | none => p
  | some pl => { (p.takeOver pl).invalidate with poll := none, observed := pl.target }

/-! ## events -/

structure World (T R : Type) where
  clock : Nat := 0
  shared : Shared T R
  processes : Nat → Process T R
  transactions : List (Nat × (T → T)) := []

/-- the process is the first argument, a poll or a query that fails is `false` -/
inductive Event (T R : Type) where
  | tick (d : Nat)
  | start (p id : Nat) (q : Question)
  | read (p id : Nat)
  | resume (p id : Nat)
  /-- a statement of a transaction, with `invalidate_cache` and `bump` -/
  | write (p transaction : Nat) (change : T → T)
  | commit (p transaction : Nat)
  | rollback (p transaction : Nat)
  /-- an edit of the stored roles, whose route then reloads and invalidates -/
  | commitRoles (p : Nat) (roles : R)
  | load (p id : Nat)
  | install (p id : Nat)
  | invalidate (p : Nat)
  | pollRead (p : Nat) (ok : Bool)
  | pollLoad (p : Nat) (ok : Bool)
  | pollFinish (p : Nat)

def World.at (w : World T R) (p : Nat) (f : Process T R → Process T R) : World T R :=
  { w with processes := fun p' => if p' = p then f (w.processes p') else w.processes p' }

/-- what a transaction has written becomes visible, with its bumps -/
def World.commit (w : World T R) (transaction : Nat) : World T R :=
  match w.transactions.filter (·.1 = transaction) with
  | [] => w
  | changes => { w with
      shared := { w.shared with
        tables := changes.foldl (fun t c => c.2 t) w.shared.tables
        generation := w.shared.generation + changes.length
        stamp := { w.shared.stamp with relations := w.shared.stamp.relations + 1 } }
      transactions := w.transactions.filter (·.1 ≠ transaction) }

def World.commitRoles (w : World T R) (roles : R) : World T R :=
  { w with shared := { w.shared with
      roles := roles
      generation := w.shared.generation + 1
      stamp := { w.shared.stamp with roles := w.shared.stamp.roles + 1 } } }

variable (E : Evaluator T R)

def World.step (w : World T R) : Event T R → World T R
  | .tick d => { w with clock := w.clock + d }
  | .start p id q => w.at p (·.start E w.clock w.shared.stamp id q)
  | .read p id => w.at p (·.read w.shared id)
  | .resume p id => w.at p (·.resume id)
  | .write p transaction change =>
    { w.at p (·.invalidate) with transactions := w.transactions ++ [(transaction, change)] }
  | .commit _ transaction => w.commit transaction
  | .rollback _ transaction =>
    { w with transactions := w.transactions.filter (·.1 ≠ transaction) }
  | .commitRoles _ roles => w.commitRoles roles
  | .load p id => w.at p (·.load w.shared id)
  | .install p id => w.at p (·.install id)
  | .invalidate p => w.at p (·.invalidate)
  | .pollRead p ok => if ok then w.at p (·.pollRead w.shared) else w
  | .pollLoad p ok => if ok then w.at p (·.pollLoad w.shared) else w
  | .pollFinish p => w.at p (·.pollFinish)

/-- every process just started, with a role store that was not loaded -/
def boot (shared : Shared T R) (seeds : R) : World T R where
  shared := shared
  processes := fun _ => { store := seeds }

/-! ## what stays -/

variable {E} {w : World T R} {p : Nat} {pick : Marks → Stamp} {clock relations bar : Nat}

theorem at_self (f : Process T R → Process T R) : (w.at p f).processes p = f (w.processes p) :=
  if_pos rfl

theorem at_of_ne {p' : Nat} (h : p' ≠ p) (f : Process T R → Process T R) :
    (w.at p f).processes p' = w.processes p' := if_neg h

theorem Kept.boot (seeds : R) :
    Kept E pick clock relations bar ({ store := seeds } : Process T R) := by
  refine ⟨fun x hx => ?_, fun c hc => ?_, fun s hs => ?_⟩
  · cases hx
  · cases hc
  · cases hs

theorem Kept.later {pr : Process T R} (h : Kept E pick clock relations bar pr)
    {clock' relations' : Nat} (hclock : clock ≤ clock') (hrelations : relations ≤ relations') :
    Kept E pick clock' relations' bar pr := by
  refine ⟨fun x hx => ?_, fun c hc => ?_, h.served⟩
  · obtain ⟨hkey, hmatched, hrecent⟩ := h.fits x hx
    exact ⟨hkey, hmatched, fun hgen hlive => hrecent hgen (lt_of_le_of_lt hclock hlive)⟩
  · obtain ⟨hsince, hle⟩ := h.checks c hc
    exact ⟨hsince, hle.trans hrelations⟩

/-- what can still be found has seen `bar'` changes -/
def Current (clock bar' : Nat) (pr : Process T R) : Prop :=
  ∀ x ∈ pr.computed, x.1.generation = pr.cacheGeneration → clock < x.2.1 →
    ∀ v ∈ x.2.2.reads, bar' ≤ v

theorem Kept.raise {pr : Process T R} (h : Kept E pick clock relations bar pr) {bar' : Nat}
    (hseen : Current clock bar' pr) : Kept E pick clock relations bar' pr := by
  refine ⟨fun x hx => ?_, h.checks, h.served⟩
  obtain ⟨hkey, hmatched, -⟩ := h.fits x hx
  exact ⟨hkey, hmatched, hseen x hx⟩

theorem Kept.same {pr pr' : Process T R} (h : Kept E pick clock relations bar pr)
    (hgen : pr'.cacheGeneration = pr.cacheGeneration) (hcache : pr'.cache = pr.cache)
    (hchecks : pr'.checks = pr.checks) (hstore : pr'.storeGeneration = pr.storeGeneration)
    (hasOf : pr'.storeAsOf = pr.storeAsOf) (hserved : pr'.served = pr.served) :
    Kept E pick clock relations bar pr' := by
  have hcomputed : pr'.computed = pr.computed := by
    rw [Process.computed, Process.computed, hcache, hchecks]
  refine ⟨fun x hx => ?_, ?_, ?_⟩
  · rw [hcomputed] at hx
    exact (h.fits x hx).congr hgen hstore hasOf
  · rw [hchecks]
    exact h.checks
  · rw [hserved]
    exact h.served

theorem Kept.install {pr : Process T R} (h : Kept E pick clock relations bar pr) (id : Nat) :
    Kept E pick clock relations bar (pr.install id) := by
  rw [Process.install]
  cases pr.loads.lookup id with
  | none => exact h
  | some x =>
    apply Kept.replaceStore
    exact h.same rfl rfl rfl rfl rfl rfl

theorem Kept.takeOver {pr : Process T R} (h : Kept E pick clock relations bar pr) (pl : Poll R) :
    Kept E pick clock relations bar (pr.takeOver pl) := by
  rw [Process.takeOver]
  cases pl.loaded with
  | none => exact h
  | some x => exact h.replaceStore x.1 x.2

theorem Kept.pollRead {pr : Process T R} (h : Kept E pick clock relations bar pr)
    (shared : Shared T R) : Kept E pick clock relations bar (pr.pollRead shared) := by
  rw [Process.pollRead]
  split
  · exact h
  · split
    · exact h.same rfl rfl rfl rfl rfl rfl
    · split
      · exact h
      · exact h.same rfl rfl rfl rfl rfl rfl

theorem Kept.pollFinish {pr : Process T R} (h : Kept E pick clock relations bar pr) {pl : Poll R}
    (hpl : pr.poll = some pl) (bar' : Nat) :
    Kept E pick clock relations bar' pr.pollFinish := by
  rw [Process.pollFinish, hpl]
  exact ((h.takeOver pl).invalidate bar').same rfl rfl rfl rfl rfl rfl

theorem commit_cases (w : World T R) (transaction : Nat) :
    w.commit transaction = w ∨
      (∃ x ∈ w.transactions, x.1 = transaction) ∧
        (w.commit transaction).clock = w.clock ∧
        (w.commit transaction).processes = w.processes ∧
        (w.commit transaction).shared.stamp =
          { w.shared.stamp with relations := w.shared.stamp.relations + 1 } := by
  rw [World.commit]
  cases hchanges : w.transactions.filter (·.1 = transaction) with
  | nil => exact Or.inl rfl
  | cons c cs =>
    right
    have hmem : c ∈ w.transactions.filter (·.1 = transaction) := by
      rw [hchanges]
      exact List.mem_cons_self
    refine ⟨⟨c, List.mem_of_mem_filter hmem, ?_⟩, rfl, rfl, rfl⟩
    exact of_decide_eq_true (List.mem_filter.mp hmem).2

/-! ## one process -/

def Event.process : Event T R → Option Nat
  | .tick _ => none
  | .start p _ _ | .read p _ | .resume p _ | .write p _ _ | .commit p _ | .rollback p _
  | .commitRoles p _ | .load p _ | .install p _ | .invalidate p | .pollRead p _ | .pollLoad p _
  | .pollFinish p => some p

def Event.Of (p : Nat) (e : Event T R) : Prop := ∀ p' ∈ e.process, p' = p

/-- no answer that can still be found has read the relations -/
def Unread (clock : Nat) (pr : Process T R) : Prop :=
  ∀ x ∈ pr.computed, x.1.generation = pr.cacheGeneration → clock < x.2.1 → x.2.2.reads = []

variable (E) in
/-- a commit is not overtaken by a check that started since the last invalidation, and a check that
looks at the role store finds the roles that are committed -/
def Settled (w : World T R) : Event T R → Prop
  | .start p _ q => E.usesRoles (q.stamped (w.processes p).storeGeneration) = true →
      w.shared.stamp.roles ≤ (w.processes p).storeAsOf
  | .commit p transaction => (∃ x ∈ w.transactions, x.1 = transaction) →
      Unread w.clock (w.processes p)
  | _ => True

/-- no check has answered from before a commit that it started after -/
def AnsweredAfter (w : World T R) (p : Nat) : Prop :=
  ∀ s ∈ (w.processes p).served, s.asOf.Since s.marks.startedAt

variable (E) in
def Answering (p : Nat) (w : World T R) : Prop :=
  Kept E (·.startedAt) w.clock w.shared.stamp.relations w.shared.stamp.relations (w.processes p)

theorem Answering.at {f : Process T R → Process T R}
    (h : Kept E (·.startedAt) w.clock w.shared.stamp.relations w.shared.stamp.relations
      (f (w.processes p))) : Answering E p (w.at p f) := by
  rw [Answering, at_self]
  exact h

theorem step_answering {e : Event T R} (h : Answering E p w) (he : e.Of p ∧ Settled E w e) :
    Answering E p (w.step E e) := by
  obtain ⟨hof, hsettled⟩ := he
  cases e with
  | tick d => exact Kept.later h (Nat.le_add_right ..) (le_refl _)
  | start p' id q =>
    obtain rfl := hof p' rfl
    exact Answering.at (Kept.start h id (le_refl _) (le_refl _) hsettled)
  | read p' id =>
    obtain rfl := hof p' rfl
    exact Answering.at (Kept.read h id (le_refl _) rfl)
  | resume p' id =>
    obtain rfl := hof p' rfl
    exact Answering.at (Kept.resume h id)
  | write p' transaction change =>
    obtain rfl := hof p' rfl
    exact Answering.at (f := Process.invalidate) (Kept.invalidate h _)
  | commit p' transaction =>
    obtain rfl := hof p' rfl
    show Answering E p' (w.commit transaction)
    rcases commit_cases w transaction with hsame | ⟨hopen, hclock, hprocesses, hstamp⟩
    · rw [hsame]
      exact h
    · rw [Answering, hclock, hprocesses, hstamp]
      have hraised : Kept E (·.startedAt) w.clock w.shared.stamp.relations
          (w.shared.stamp.relations + 1) (w.processes p') := by
        apply Kept.raise h
        intro x hx hgen hlive v hv
        rw [hsettled hopen x hx hgen hlive] at hv
        cases hv
      exact hraised.later (le_refl _) (Nat.le_succ _)
  | rollback p' transaction => exact h
  | commitRoles p' roles => exact h
  | load p' id =>
    obtain rfl := hof p' rfl
    exact Answering.at (f := (·.load w.shared id)) (Kept.same h rfl rfl rfl rfl rfl rfl)
  | install p' id =>
    obtain rfl := hof p' rfl
    exact Answering.at (Kept.install h id)
  | invalidate p' =>
    obtain rfl := hof p' rfl
    exact Answering.at (Kept.invalidate h _)
  | pollRead p' ok =>
    obtain rfl := hof p' rfl
    cases ok with
    | false => exact h
    | true => exact Answering.at (f := (·.pollRead w.shared)) (Kept.pollRead h w.shared)
  | pollLoad p' ok =>
    obtain rfl := hof p' rfl
    cases ok with
    | false => exact h
    | true =>
      exact Answering.at (f := (·.pollLoad w.shared)) (Kept.same h rfl rfl rfl rfl rfl rfl)
  | pollFinish p' =>
    obtain rfl := hof p' rfl
    apply Answering.at
    cases hpl : (w.processes p').poll with
    | none =>
      rw [Process.pollFinish, hpl]
      exact h
    | some pl => exact Kept.pollFinish h hpl _

/-- in one process, no check answers from before a commit that it started after -/
theorem run_answeredAfter (E : Evaluator T R) (shared : Shared T R) (seeds : R) (p : Nat)
    (events : List (Event T R))
    (hev : Along (World.step E) (fun w e => e.Of p ∧ Settled E w e) (boot shared seeds) events) :
    AnsweredAfter (exec (World.step E) (boot shared seeds) events) p := by
  have hboot : Answering E p (boot shared seeds) := Kept.boot seeds
  have hend := exec_inv (I := Answering E p) (fun _ _ h he => step_answering h he) hboot hev
  exact hend.served

/-! ### a viewer is taken off a case -/

instance (a : Provenance) (n : Stamp) : Decidable (a.Since n) :=
  inferInstanceAs (Decidable ((∀ v ∈ a.reads, n.relations ≤ v) ∧ ∀ v ∈ a.roles, n.roles ≤ v))

instance (p : Nat) (e : Event T R) : Decidable (e.Of p) :=
  inferInstanceAs (Decidable (∀ p' ∈ e.process, p' = p))

instance (clock : Nat) (pr : Process T R) : Decidable (Unread clock pr) :=
  inferInstanceAs (Decidable (∀ x ∈ pr.computed, _ → _ → _))

instance (w : World T R) : ∀ e, Decidable (Settled E w e)
  | .start p _ q => inferInstanceAs (Decidable
    (E.usesRoles (q.stamped (w.processes p).storeGeneration) = true →
      w.shared.stamp.roles ≤ (w.processes p).storeAsOf))
  | .commit p transaction => inferInstanceAs (Decidable
    ((∃ x ∈ w.transactions, x.1 = transaction) → Unread w.clock (w.processes p)))
  | .tick _ | .read _ _ | .resume _ _ | .write _ _ _ | .rollback _ _ | .commitRoles _ _
  | .load _ _ | .install _ _ | .invalidate _ | .pollRead _ _ | .pollLoad _ _ | .pollFinish _ =>
    inferInstanceAs (Decidable True)

instance (w : World T R) (p : Nat) : Decidable (AnsweredAfter w p) :=
  inferInstanceAs (Decidable (∀ s ∈ (w.processes p).served, s.asOf.Since s.marks.startedAt))

def sampleEvaluator : Evaluator CaseTables (String → List Privilege) :=
  hxguard ⟨id, [], fun _ => []⟩

def viewed : Shared CaseTables (String → List Privilege) where
  tables :=
    { db := ⟨[], [], [], [], [], []⟩
      cases := [{ id := 40, caseTypeId := 41, createdBy := none }]
      tuples := [⟨"case", 40, "viewer", "user", uuidText 1⟩] }
  roles := fun _ => []

def mayRead : Question where
  subject := { kind := "user", id := uuidText 1 }
  action := "case.read"
  caseId := some 40

def wholeCheck (p id : Nat) : List (Event CaseTables (String → List Privilege)) :=
  [.start p id mayRead, .read p id, .read p id, .read p id, .read p id, .resume p id]

def removeViewer (t : CaseTables) : CaseTables := { t with tuples := [] }

def run (events : List (Event CaseTables (String → List Privilege))) :
    World CaseTables (String → List Privilege) :=
  exec (World.step sampleEvaluator) (boot viewed fun _ => []) events

/-- the removal is committed at once, and the roles are reloaded after their edit -/
theorem run_answeredAfter_removal : AnsweredAfter
    (run (wholeCheck 0 1 ++ [.write 0 7 removeViewer, .commit 0 7] ++ wholeCheck 0 2 ++
      [.commitRoles 0 fun _ => [], .load 0 1, .install 0 1, .invalidate 0] ++
      wholeCheck 0 3)) 0 := by
  apply run_answeredAfter
  decide +kernel

/-- a check between the invalidation and the commit is answered from the cache after the commit -/
theorem removal_overtaken :
    (∀ e ∈ [Event.write 0 7 removeViewer] ++ wholeCheck 0 1 ++ [.commit 0 7] ++ wholeCheck 0 2,
      e.Of 0) ∧
    ¬ AnsweredAfter (run ([.write 0 7 removeViewer] ++ wholeCheck 0 1 ++ [.commit 0 7] ++
      wholeCheck 0 2)) 0 := by
  decide +kernel

/-! ## what a process has observed -/

/-- what was observed is older than what is committed, and every answer that can be found is not
older than it -/
structure Following (E : Evaluator T R) (p : Nat) (w : World T R) : Prop where
  kept : Kept E (·.observed) w.clock w.shared.stamp.relations (w.processes p).observed.relations
    (w.processes p)
  store : (w.processes p).observed.roles ≤ (w.processes p).storeAsOf
  observed : (w.processes p).observed.relations ≤ w.shared.stamp.relations
  poll : ∀ pl ∈ (w.processes p).poll, pl.target.relations ≤ w.shared.stamp.relations ∧
    pl.target.roles ≤ w.shared.stamp.roles ∧ ∀ x ∈ pl.loaded, pl.target.roles ≤ x.2

/-- a first poll finds a process that is up to date, a later one has reloaded the roles, and no
reload brings older roles back -/
def Noticing (w : World T R) : Event T R → Prop
  | .pollRead p true => (w.processes p).seen = none → (w.processes p).poll = none →
      w.shared.stamp.roles ≤ (w.processes p).storeAsOf ∧
        Current w.clock w.shared.stamp.relations (w.processes p)
  | .pollFinish p => ∀ pl ∈ (w.processes p).poll,
      pl.loaded ≠ none ∨ pl.target.roles ≤ (w.processes p).storeAsOf
  | .install p id => ∀ x ∈ (w.processes p).loads.lookup id,
      (w.processes p).observed.roles ≤ x.2
  | _ => True

theorem Following.other {f : Process T R → Process T R} {p' : Nat} (h : Following E p w)
    (hne : p ≠ p') : Following E p (w.at p' f) := by
  have hsame : (w.at p' f).processes p = w.processes p := at_of_ne hne f
  refine ⟨?_, ?_, ?_, ?_⟩
  · rw [hsame]
    exact h.kept
  · rw [hsame]
    exact h.store
  · rw [hsame]
    exact h.observed
  · rw [hsame]
    exact h.poll

theorem Following.at {f : Process T R → Process T R}
    (hkept : Kept E (·.observed) w.clock w.shared.stamp.relations
      (f (w.processes p)).observed.relations (f (w.processes p)))
    (hstore : (f (w.processes p)).observed.roles ≤ (f (w.processes p)).storeAsOf)
    (hobserved : (f (w.processes p)).observed.relations ≤ w.shared.stamp.relations)
    (hpoll : ∀ pl ∈ (f (w.processes p)).poll, pl.target.relations ≤ w.shared.stamp.relations ∧
      pl.target.roles ≤ w.shared.stamp.roles ∧ ∀ x ∈ pl.loaded, pl.target.roles ≤ x.2) :
    Following E p (w.at p f) := by
  have hself : (w.at p f).processes p = f (w.processes p) := at_self f
  refine ⟨?_, ?_, ?_, ?_⟩
  · rw [hself]
    exact hkept
  · rw [hself]
    exact hstore
  · rw [hself]
    exact hobserved
  · rw [hself]
    exact hpoll

theorem finish_fields (pr : Process T R) (c : Pending T) :
    (pr.finish c).observed = pr.observed ∧ (pr.finish c).storeAsOf = pr.storeAsOf ∧
      (pr.finish c).poll = pr.poll := by
  rw [Process.finish]
  split
  · exact ⟨rfl, rfl, rfl⟩
  · exact ⟨rfl, rfl, rfl⟩
  · exact ⟨rfl, rfl, rfl⟩

theorem start_fields (pr : Process T R) (stamp : Stamp) (id : Nat) (q : Question) :
    (pr.start E clock stamp id q).observed = pr.observed ∧
      (pr.start E clock stamp id q).storeAsOf = pr.storeAsOf ∧
      (pr.start E clock stamp id q).poll = pr.poll := by
  have hbegin : ∀ q : Question, (pr.begin E clock stamp id q).observed = pr.observed ∧
      (pr.begin E clock stamp id q).storeAsOf = pr.storeAsOf ∧
      (pr.begin E clock stamp id q).poll = pr.poll := by
    intro q
    rw [Process.begin]
    split
    · exact ⟨rfl, rfl, rfl⟩
    · exact finish_fields _ _
  rw [Process.start]
  split
  · split
    · exact ⟨rfl, rfl, rfl⟩
    · exact hbegin _
  · exact hbegin _

theorem resume_fields (pr : Process T R) (id : Nat) :
    (pr.resume id).observed = pr.observed ∧ (pr.resume id).storeAsOf = pr.storeAsOf ∧
      (pr.resume id).poll = pr.poll := by
  rw [Process.resume]
  split
  · exact ⟨rfl, rfl, rfl⟩
  · split
    · exact ⟨rfl, rfl, rfl⟩
    · exact finish_fields _ _

/-- an operation that leaves what was observed, the store and the poll alone -/
theorem Following.quiet {f : Process T R → Process T R} (h : Following E p w)
    (hfields : (f (w.processes p)).observed = (w.processes p).observed ∧
      (f (w.processes p)).storeAsOf = (w.processes p).storeAsOf ∧
      (f (w.processes p)).poll = (w.processes p).poll)
    (hkept : Kept E (·.observed) w.clock w.shared.stamp.relations
      (w.processes p).observed.relations (f (w.processes p))) :
    Following E p (w.at p f) := by
  obtain ⟨hobserved, hasOf, hpoll⟩ := hfields
  apply Following.at
  · rw [hobserved]
    exact hkept
  · rw [hobserved, hasOf]
    exact h.store
  · rw [hobserved]
    exact h.observed
  · rw [hpoll]
    exact h.poll

theorem Following.pollRead (h : Following E p w) (hn : Noticing w (.pollRead p true)) :
    Following E p (w.at p (·.pollRead w.shared)) := by
  have hsame : (w.processes p).pollRead w.shared = w.processes p →
      Following E p (w.at p (·.pollRead w.shared)) := by
    intro hf
    apply Following.quiet h
    · rw [hf]
      exact ⟨rfl, rfl, rfl⟩
    · rw [hf]
      exact h.kept
  by_cases hbusy : (w.processes p).poll.isSome = true
  · apply hsame
    rw [Process.pollRead, if_pos hbusy]
  · have hidle : (w.processes p).poll = none := Option.not_isSome_iff_eq_none.mp hbusy
    cases hseen : (w.processes p).seen with
    | none =>
      have hf : (w.processes p).pollRead w.shared =
          { w.processes p with seen := some w.shared.generation, observed := w.shared.stamp } := by
        rw [Process.pollRead, if_neg hbusy, hseen]
      obtain ⟨hroles, hrecent⟩ := hn hseen hidle
      apply Following.at
      · rw [hf]
        exact (Kept.raise h.kept hrecent).same rfl rfl rfl rfl rfl rfl
      · rw [hf]
        exact hroles
      · rw [hf]
      · rw [hf]
        intro pl hpl
        cases hidle.symm.trans hpl
    | some g =>
      by_cases hg : w.shared.generation = g
      · apply hsame
        rw [Process.pollRead, if_neg hbusy, hseen]
        exact if_pos hg
      · have hf : (w.processes p).pollRead w.shared = { w.processes p with
            seen := some w.shared.generation, poll := some { target := w.shared.stamp } } := by
          rw [Process.pollRead, if_neg hbusy, hseen]
          exact if_neg hg
        apply Following.at
        · rw [hf]
          exact Kept.same h.kept rfl rfl rfl rfl rfl rfl
        · rw [hf]
          exact h.store
        · rw [hf]
          exact h.observed
        · rw [hf]
          intro pl hpl
          cases hpl
          refine ⟨le_refl _, le_refl _, fun x hx => ?_⟩
          cases hx

theorem Following.pollLoad (h : Following E p w) :
    Following E p (w.at p (·.pollLoad w.shared)) := by
  apply Following.at
  · exact Kept.same h.kept rfl rfl rfl rfl rfl rfl
  · exact h.store
  · exact h.observed
  · intro pl hpl
    obtain ⟨pl', hpl', rfl⟩ := Option.map_eq_some_iff.mp hpl
    obtain ⟨hrelations, hroles, -⟩ := h.poll pl' hpl'
    refine ⟨hrelations, hroles, fun x hx => ?_⟩
    cases hx
    exact hroles

theorem Following.pollFinish (h : Following E p w) (hn : Noticing w (.pollFinish p)) :
    Following E p (w.at p (·.pollFinish)) := by
  cases hpl : (w.processes p).poll with
  | none =>
    have hf : (w.processes p).pollFinish = w.processes p := by rw [Process.pollFinish, hpl]
    apply Following.quiet h
    · rw [hf]
      exact ⟨rfl, rfl, rfl⟩
    · rw [hf]
      exact h.kept
  | some pl =>
    obtain ⟨hrelations, -, hloaded⟩ := h.poll pl hpl
    have hf : (w.processes p).pollFinish = { ((w.processes p).takeOver pl).invalidate with
        poll := none, observed := pl.target } := by rw [Process.pollFinish, hpl]
    have hstore : pl.target.roles ≤ ((w.processes p).takeOver pl).storeAsOf := by
      rw [Process.takeOver]
      cases hl : pl.loaded with
      | some x => exact hloaded x hl
      | none =>
        rcases hn pl hpl with hread | hroles
        · exact absurd hl hread
        · exact hroles
    have hkept := Kept.pollFinish h.kept hpl pl.target.relations
    apply Following.at
    · have hobserved : (w.processes p).pollFinish.observed = pl.target := by rw [hf]
      rw [hobserved]
      exact hkept
    · rw [hf]
      exact hstore
    · rw [hf]
      exact hrelations
    · rw [hf]
      intro pl' hpl'
      cases hpl'

theorem Following.install (h : Following E p w) (id : Nat) (hn : Noticing w (.install p id)) :
    Following E p (w.at p (·.install id)) := by
  have hkept := Kept.install h.kept id
  have hfields : ((w.processes p).install id).observed = (w.processes p).observed ∧
      ((w.processes p).install id).poll = (w.processes p).poll ∧
      (w.processes p).observed.roles ≤ ((w.processes p).install id).storeAsOf := by
    rw [Process.install]
    cases hload : (w.processes p).loads.lookup id with
    | none => exact ⟨rfl, rfl, h.store⟩
    | some x => exact ⟨rfl, rfl, hn x hload⟩
  obtain ⟨hobserved, hpoll, hstore⟩ := hfields
  apply Following.at
  · rw [hobserved]
    exact hkept
  · rw [hobserved]
    exact hstore
  · rw [hobserved]
    exact h.observed
  · rw [hpoll]
    exact h.poll

theorem Following.shared {w' : World T R} (h : Following E p w)
    (hprocesses : w'.processes = w.processes) (hclock : w.clock ≤ w'.clock)
    (hrelations : w.shared.stamp.relations ≤ w'.shared.stamp.relations)
    (hroles : w.shared.stamp.roles ≤ w'.shared.stamp.roles) : Following E p w' := by
  refine ⟨?_, ?_, ?_, ?_⟩
  · rw [hprocesses]
    exact Kept.later h.kept hclock hrelations
  · rw [hprocesses]
    exact h.store
  · rw [hprocesses]
    exact h.observed.trans hrelations
  · rw [hprocesses]
    intro pl hpl
    obtain ⟨htarget, htargetRoles, hloaded⟩ := h.poll pl hpl
    exact ⟨htarget.trans hrelations, htargetRoles.trans hroles, hloaded⟩

theorem Following.either {f : Process T R → Process T R} {p' : Nat} (h : Following E p w)
    (hown : p = p' → Following E p (w.at p f)) : Following E p (w.at p' f) := by
  by_cases hp : p = p'
  · exact hp ▸ hown hp
  · exact h.other hp

theorem Following.invalidate (h : Following E p w) (p' : Nat) :
    Following E p (w.at p' (·.invalidate)) := by
  apply h.either
  intro _
  exact Following.quiet h (f := Process.invalidate) ⟨rfl, rfl, rfl⟩ (Kept.invalidate h.kept _)

theorem step_following {e : Event T R} (h : Following E p w) (he : Noticing w e) :
    Following E p (w.step E e) := by
  cases e with
  | tick d => exact h.shared rfl (Nat.le_add_right ..) (le_refl _) (le_refl _)
  | start p' id q =>
    apply h.either (f := (·.start E w.clock w.shared.stamp id q))
    intro _
    apply Following.quiet h (start_fields ..)
    exact Kept.start h.kept id (le_refl _) h.observed fun _ => h.store
  | read p' id =>
    apply h.either (f := (·.read w.shared id))
    intro _
    apply Following.quiet h (f := (·.read w.shared id)) ⟨rfl, rfl, rfl⟩
    exact Kept.read h.kept id h.observed rfl
  | resume p' id =>
    apply h.either (f := (·.resume id))
    intro _
    apply Following.quiet h (resume_fields ..)
    exact Kept.resume h.kept id
  | write p' transaction change =>
    exact (h.invalidate p').shared rfl (le_refl _) (le_refl _) (le_refl _)
  | commit p' transaction =>
    show Following E p (w.commit transaction)
    rcases commit_cases w transaction with hsame | ⟨-, hclock, hprocesses, hstamp⟩
    · rw [hsame]
      exact h
    · apply h.shared hprocesses (le_of_eq hclock.symm)
      · rw [hstamp]
        exact Nat.le_succ _
      · rw [hstamp]
  | rollback p' transaction => exact h.shared rfl (le_refl _) (le_refl _) (le_refl _)
  | commitRoles p' roles => exact h.shared rfl (le_refl _) (le_refl _) (Nat.le_succ _)
  | load p' id =>
    apply h.either (f := (·.load w.shared id))
    intro _
    apply Following.quiet h (f := (·.load w.shared id)) ⟨rfl, rfl, rfl⟩
    exact Kept.same h.kept rfl rfl rfl rfl rfl rfl
  | install p' id =>
    apply h.either (f := (·.install id))
    intro hp
    subst hp
    exact h.install id he
  | invalidate p' => exact h.invalidate p'
  | pollRead p' ok =>
    cases ok with
    | false => exact h
    | true =>
      apply h.either (f := (·.pollRead w.shared))
      intro hp
      subst hp
      exact h.pollRead he
  | pollLoad p' ok =>
    cases ok with
    | false => exact h
    | true =>
      apply h.either (f := (·.pollLoad w.shared))
      intro _
      exact h.pollLoad
  | pollFinish p' =>
    apply h.either (f := (·.pollFinish))
    intro hp
    subst hp
    exact h.pollFinish he

/-- no check has answered from before what its process had observed when it started -/
def AnsweredSince (w : World T R) (p : Nat) : Prop :=
  ∀ s ∈ (w.processes p).served, s.asOf.Since s.marks.observed

/-- what a process answers after it has observed a generation is not older than that generation -/
theorem run_noticed (E : Evaluator T R) (shared : Shared T R) (seeds : R)
    (events : List (Event T R)) (hev : Along (World.step E) Noticing (boot shared seeds) events) :
    ∀ p, AnsweredSince (exec (World.step E) (boot shared seeds) events) p := by
  intro p
  have hboot : Following E p (boot shared seeds) := by
    refine ⟨Kept.boot seeds, Nat.zero_le _, Nat.zero_le _, fun pl hpl => ?_⟩
    cases hpl
  have hend := exec_inv (I := Following E p) (fun _ _ h he => step_following h he) hboot hev
  exact hend.kept.served

/-! ### two processes -/

instance (w : World T R) : ∀ e, Decidable (Noticing w e)
  | .pollRead p true => inferInstanceAs (Decidable ((w.processes p).seen = none →
      (w.processes p).poll = none → _ ∧ ∀ x ∈ (w.processes p).computed, _ → _ → _))
  | .pollFinish p => inferInstanceAs (Decidable (∀ pl ∈ (w.processes p).poll,
      pl.loaded ≠ none ∨ pl.target.roles ≤ (w.processes p).storeAsOf))
  | .install p id => inferInstanceAs (Decidable (∀ x ∈ (w.processes p).loads.lookup id,
      (w.processes p).observed.roles ≤ x.2))
  | .pollRead _ false | .start _ _ _ | .commit _ _ | .tick _ | .read _ _ | .resume _ _
  | .write _ _ _ | .rollback _ _ | .commitRoles _ _ | .load _ _ | .invalidate _ | .pollLoad _ _ =>
    inferInstanceAs (Decidable True)

instance (w : World T R) (p : Nat) : Decidable (AnsweredSince w p) :=
  inferInstanceAs (Decidable (∀ s ∈ (w.processes p).served, s.asOf.Since s.marks.observed))

/-- the other process has answered before its first poll, and hears of a removal and of an edit -/
theorem run_noticed_removal : AnsweredSince
    (run ([.pollRead 1 true] ++ wholeCheck 1 1 ++
      [.write 0 7 removeViewer, .commit 0 7, .commitRoles 0 fun _ => [],
        .pollRead 1 true, .pollLoad 1 true, .pollFinish 1] ++ wholeCheck 1 2)) 1 := by
  apply run_noticed
  decide +kernel

/-- a first poll leaves the cache, and a failed reload leaves the roles -/
theorem notices_nothing :
    ¬ AnsweredSince (run (wholeCheck 1 1 ++ [.write 0 7 removeViewer, .commit 0 7,
      .pollRead 1 true] ++ wholeCheck 1 2)) 1 ∧
    ¬ AnsweredSince (run ([.pollRead 1 true, .commitRoles 0 fun _ => [], .pollRead 1 true,
      .pollLoad 1 false, .pollFinish 1] ++ wholeCheck 1 1)) 1 := by
  decide +kernel

end HxGuard
