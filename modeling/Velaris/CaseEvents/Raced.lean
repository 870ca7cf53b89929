import Velaris.Base.Run
import Velaris.Base.Totals
import Velaris.CaseEvents.Store

/-!
# Two writers of one stream

`event_store.record` runs in the transaction of the operation that calls it, and its flush fails
where another transaction has committed the sequence number.

* `Session`, `World`   the writes of open transactions, over the committed tables;
* `Event`, `World.step`   one statement of a session;
* `Survives`   a lost race costs the event, and nothing that was written before it;
* `operation_survives_iff`   the runs in which no transaction with writes loses a race.
-/

namespace CaseEvents
open Py Base

/-! ## transactions -/

/-- `rows` are those of the other tables that an operation writes -/
structure Tables (ρ : Type) where
  db : Db
  rows : List ρ := []

inductive Write (ρ : Type) where
  | row (r : ρ)
  | case (caseId : Uuid) (change : Option CaseInstance → Option CaseInstance)
  | event (e : CaseEvent)

inductive Lock where
  | case (caseId : Uuid)
  | seq (caseId : Uuid) (seq : Nat)
  deriving DecidableEq

/-- the arguments of `record` -/
structure Entry where
  caseId : Uuid
  eventType : EventType
  data : Dict
  actorId : Option String := none
  actorType : String := "system"

/-- where a session is in `record` -/
inductive Phase where
  | idle
  | asking (q : Entry)
  | counting (q : Entry)
  | inserting (q : Entry) (seq : Nat)

structure Session (ρ : Type) where
  pending : List (Write ρ) := []
  /-- what the operation has written since its transaction began -/
  wrote : List (Write ρ) := []
  phase : Phase := .idle
  /-- what the last `record` returned -/
  returned : Option (Option CaseEvent) := none

structure World (ρ : Type) where
  committed : Tables ρ
  sessions : Nat → Session ρ := fun _ => {}
  held : List (Nat × Lock) := []

inductive Event (ρ : Type) where
  | write (i : Nat) (x : Write ρ)
  | record (i : Nat) (q : Entry)
  /-- the next statement of a session in `record` -/
  | advance (i : Nat)
  | commit (i : Nat)
  | rollback (i : Nat)

section
variable {ρ : Type}

def Tables.apply (t : Tables ρ) : Write ρ → Tables ρ
  | .row r => { t with rows := t.rows ++ [r] }
  | .case caseId change =>
    { t with db := { t.db with
        cases := Function.update t.db.cases caseId (change (t.db.cases caseId)) } }
  | .event e => { t with db := { t.db with events := t.db.events ++ [e] } }

def Write.lock? : Write ρ → Option Lock
  | .row _ => none
  | .case caseId _ => some (.case caseId)
  | .event e => some (.seq e.caseId e.seq)

def Write.isEvent : Write ρ → Bool
  | .event _ => true
  | _ => false

def Entry.event (q : Entry) (seq : Nat) : CaseEvent :=
  ⟨q.caseId, seq, q.eventType, q.data, q.actorId, q.actorType⟩

def Phase.isIdle : Phase → Bool
  | .idle => true
  | _ => false

namespace World
variable (w : World ρ) (i : Nat)

def alter (f : Session ρ → Session ρ) : World ρ :=
  { w with sessions := Function.update w.sessions i (f (w.sessions i)) }

/-- what a session reads: the committed tables and its own writes -/
def view : Tables ρ := (w.sessions i).pending.foldl Tables.apply w.committed

def waits (x : Write ρ) : Bool := w.held.any fun h => h.1 ≠ i && some h.2 = x.lock?

def release : World ρ := { w with held := w.held.filter (·.1 ≠ i) }

def write (x : Write ρ) : World ρ :=
  { w.alter i fun s => { s with pending := s.pending ++ [x], wrote := s.wrote ++ [x] } with
    held := w.held ++ (x.lock?.map (i, ·)).toList }

/-- `session.rollback()` -/
def rollback : World ρ := (w.alter i fun s => { s with pending := [] }).release i

def commit : World ρ :=
  { (w.alter i fun s => { s with pending := [], wrote := [] }).release i with
    committed := w.view i }

def answer (returned : Option CaseEvent) : World ρ :=
  w.alter i fun s => { s with phase := .idle, returned := some returned }

def move (phase : Phase) : World ρ := w.alter i fun s => { s with phase := phase }

variable (R : Runtime)

def flush (q : Entry) (seq : Nat) : World ρ :=
  match append R (w.view i).db q.caseId q.eventType q.data q.actorId q.actorType (some seq) with
  | .ok _ => (w.write i (.event (q.event seq))).answer i (some (q.event seq))
  | .error .payloadTooBig => w.answer i none
  | .error .sequenceTaken => (w.rollback i).answer i none

def advance : World ρ :=
  match (w.sessions i).phase with
  | .idle => w
  | .asking q =>
    if !isEventSourced (w.view i).db q.caseId then w.answer i none
    else if tooBig R q.data then w.answer i none
    else w.move i (.counting q)
  | .counting q => w.move i (.inserting q (nextSeq (w.view i).db q.caseId))
  | .inserting q seq => if w.waits i (.event (q.event seq)) then w else w.flush i R q seq

/-- a statement that cannot be taken changes nothing -/
def step (eventSourcingEnabled : Bool) (w : World ρ) : Event ρ → World ρ
  | .write i x =>
    if (w.sessions i).phase.isIdle && !x.isEvent && !w.waits i x then w.write i x else w
  | .record i q =>
    if (w.sessions i).phase.isIdle then
      if eventSourcingEnabled then w.move i (.asking q) else w.answer i none
    else w
  | .advance i => w.advance i R
  | .commit i => if (w.sessions i).phase.isIdle then w.commit i else w
  | .rollback i =>
    if (w.sessions i).phase.isIdle then
      (w.rollback i).alter i fun s => { s with wrote := [] }
    else w

end World

/-! ## a race that is lost -/

variable (R : Runtime)

/-- the flush finds the sequence number taken -/
def LostRace (w : World ρ) (i : Nat) : Prop :=
  ∃ q seq, (w.sessions i).phase = .inserting q seq ∧ w.waits i (.event (q.event seq)) = false ∧
    append R (w.view i).db q.caseId q.eventType q.data q.actorId q.actorType (some seq) =
      .error .sequenceTaken

/-- what an operation has written in its transaction is there to be committed -/
def Kept (w : World ρ) : Prop := ∀ i, (w.sessions i).pending = (w.sessions i).wrote

/-- the statement does not lose a race in a transaction that has written something -/
def Spares (w : World ρ) : Event ρ → Prop
  | .advance i => LostRace R w i → (w.sessions i).wrote = []
  | _ => True

/-- where the statement loses a race, `record` returns nothing -/
def Answered (enabled : Bool) (w : World ρ) : Event ρ → Prop
  | .advance i => LostRace R w i →
    ((w.step R enabled (.advance i)).sessions i).returned = some none
  | _ => True

structure Survives (enabled : Bool) (tables : Tables ρ) (run : List (Event ρ)) : Prop where
  kept : Always (World.step R enabled) Kept { committed := tables } run
  answered : Along (World.step R enabled) (Answered R enabled) { committed := tables } run

/-! ## what a statement leaves -/

section
variable {R} {w : World ρ} {i : Nat}

theorem alter_self (f : Session ρ → Session ρ) :
    (w.alter i f).sessions i = f (w.sessions i) := Function.update_self _ _ _

theorem alter_of_ne {j : Nat} (h : j ≠ i) (f : Session ρ → Session ρ) :
    (w.alter i f).sessions j = w.sessions j := Function.update_of_ne h _ _

/-- a session keeps its writes where the statement treats both lists alike -/
theorem Kept.alter {f : Session ρ → Session ρ} (h : Kept w)
    (hf : (w.sessions i).pending = (w.sessions i).wrote →
      (f (w.sessions i)).pending = (f (w.sessions i)).wrote) : Kept (w.alter i f) := by
  intro j
  by_cases hj : j = i
  · subst hj
    rw [alter_self]
    exact hf (h j)
  · rw [alter_of_ne hj]
    exact h j

theorem Kept.write (h : Kept w) (x : Write ρ) : Kept (w.write i x) := by
  have hk : Kept (w.alter i fun s =>
      { s with pending := s.pending ++ [x], wrote := s.wrote ++ [x] }) :=
    h.alter fun hi => congrArg (· ++ [x]) hi
  exact hk

theorem Kept.answer (h : Kept w) (returned : Option CaseEvent) : Kept (w.answer i returned) :=
  h.alter fun hi => hi

theorem Kept.move (h : Kept w) (phase : Phase) : Kept (w.move i phase) := h.alter fun hi => hi

theorem rollback_self : (w.rollback i).sessions i = { w.sessions i with pending := [] } :=
  Function.update_self _ _ _

theorem rollback_of_ne {j : Nat} (h : j ≠ i) : (w.rollback i).sessions j = w.sessions j :=
  Function.update_of_ne h _ _

theorem rolled_sessions : ((w.rollback i).answer i none).sessions i =
    { w.sessions i with pending := [], phase := .idle, returned := some none } := by
  rw [World.answer, alter_self, rollback_self]

theorem rolled_of_ne {j : Nat} (h : j ≠ i) :
    ((w.rollback i).answer i none).sessions j = w.sessions j := by
  rw [World.answer, alter_of_ne h, rollback_of_ne h]

theorem kept_rolled_iff (h : Kept w) :
    Kept ((w.rollback i).answer i none) ↔ (w.sessions i).wrote = [] := by
  constructor
  · intro hk
    have hi := hk i
    rw [rolled_sessions] at hi
    exact hi.symm
  · intro hi j
    by_cases hj : j = i
    · subst hj
      rw [rolled_sessions]
      exact hi.symm
    · rw [rolled_of_ne hj]
      exact h j

theorem flush_taken {q : Entry} {seq : Nat}
    (h : append R (w.view i).db q.caseId q.eventType q.data q.actorId q.actorType (some seq) =
      .error .sequenceTaken) : w.flush i R q seq = (w.rollback i).answer i none := by
  unfold World.flush
  rw [h]

theorem advance_lost (h : LostRace R w i) : w.advance i R = (w.rollback i).answer i none := by
  obtain ⟨q, seq, hphase, hfree, htaken⟩ := h
  unfold World.advance
  rw [hphase]
  dsimp only
  rw [hfree, flush_taken htaken]
  exact if_neg Bool.false_ne_true

theorem advance_not_lost (hk : Kept w) (h : ¬ LostRace R w i) : Kept (w.advance i R) := by
  unfold World.advance
  cases hphase : (w.sessions i).phase with
  | idle => exact hk
  | asking q =>
    dsimp only
    split
    · exact hk.answer none
    · split
      · exact hk.answer none
      · exact hk.move _
  | counting q => exact hk.move _
  | inserting q seq =>
    dsimp only
    cases hwaits : w.waits i (.event (q.event seq)) with
    | true => exact hk
    | false =>
      rw [if_neg Bool.false_ne_true]
      unfold World.flush
      cases happend : append R (w.view i).db q.caseId q.eventType q.data q.actorId q.actorType
          (some seq) with
      | ok db => exact (hk.write _).answer _
      | error e =>
        cases e with
        | payloadTooBig => exact hk.answer none
        | sequenceTaken => exact absurd ⟨q, seq, hphase, hwaits, happend⟩ h

theorem Kept.commit (h : Kept w) : Kept (w.commit i) := by
  have hk : Kept (w.alter i fun s => { s with pending := [], wrote := [] }) := h.alter fun _ => rfl
  exact hk

theorem Kept.rollback (h : Kept w) :
    Kept ((w.rollback i).alter i fun s => { s with wrote := [] }) := by
  intro j
  by_cases hj : j = i
  · subst hj
    rw [alter_self, rollback_self]
  · rw [alter_of_ne hj, rollback_of_ne hj]
    exact h j

theorem kept_ite {c : Prop} [Decidable c] {w w' : World ρ} (h : Kept w) (h' : Kept w') :
    Kept (if c then w else w') := by
  split
  · exact h
  · exact h'

theorem step_kept_iff (enabled : Bool) (hk : Kept w) (a : Event ρ) :
    Kept (w.step R enabled a) ↔ Spares R w a := by
  cases a with
  | write i x =>
    have hkept : Kept (w.step R enabled (.write i x)) := kept_ite (hk.write x) hk
    exact iff_of_true hkept trivial
  | record i q =>
    have hkept : Kept (w.step R enabled (.record i q)) :=
      kept_ite (kept_ite (hk.move (.asking q)) (hk.answer none)) hk
    exact iff_of_true hkept trivial
  | advance i =>
    show Kept (w.advance i R) ↔ (LostRace R w i → (w.sessions i).wrote = [])
    by_cases hlost : LostRace R w i
    · rw [advance_lost hlost, kept_rolled_iff hk]
      exact ⟨fun h _ => h, fun h => h hlost⟩
    · exact iff_of_true (advance_not_lost hk hlost) fun h => absurd h hlost
  | commit i =>
    have hkept : Kept (w.step R enabled (.commit i)) := kept_ite hk.commit hk
    exact iff_of_true hkept trivial
  | rollback i =>
    have hkept : Kept (w.step R enabled (.rollback i)) := kept_ite hk.rollback hk
    exact iff_of_true hkept trivial

theorem answered (enabled : Bool) (w : World ρ) (a : Event ρ) : Answered R enabled w a := by
  cases a with
  | advance i =>
    intro hlost
    show ((w.advance i R).sessions i).returned = _
    rw [advance_lost hlost, rolled_sessions]
  | _ => trivial

end

/-- In every state of a run of any number of sessions, what every operation has written in its
transaction is there to be committed, and a `record` that loses its race returns nothing, exactly
if no lost race is that of a transaction that has written something. -/
theorem operation_survives_iff (enabled : Bool) (tables : Tables ρ) (run : List (Event ρ)) :
    Survives R enabled tables run ↔
      Along (World.step R enabled) (Spares R) { committed := tables } run := by
  have hstart : Kept ({ committed := tables } : World ρ) := fun _ => rfl
  have halways : Always (World.step R enabled) Kept { committed := tables } run ↔
      Kept ({ committed := tables } : World ρ) ∧
        Along (World.step R enabled) (Spares R) { committed := tables } run :=
    always_iff fun _ a hk => step_kept_iff enabled hk a
  constructor
  · intro h
    exact (halways.mp h.kept).2
  · intro h
    refine ⟨halways.mpr ⟨hstart, h⟩, ?_⟩
    exact along_of_inv (I := fun _ => True) (fun _ _ _ => trivial)
      (fun w a _ => answered enabled w a) run trivial

/-! ## nobody else writes -/

section
variable {R} {w : World ρ} {i : Nat}

theorem waits_alone (h : ∀ l ∈ w.held, l.1 = i) (x : Write ρ) : w.waits i x = false := by
  rw [World.waits, List.any_eq_false]
  intro l hl
  simp [h l hl]

theorem append_free {db : Db} {caseId : Uuid} {eventType : EventType} {data : Dict}
    (hbig : tooBig R data = false) (actorId : Option String) (actorType : String) :
    append R db caseId eventType data actorId actorType (some (nextSeq db caseId)) =
      .ok { db with events := db.events ++
        [⟨caseId, nextSeq db caseId, eventType, data, actorId, actorType⟩] } := by
  have hfree : (eventsOf db caseId).any (·.seq = nextSeq db caseId) = false := by
    rw [List.any_eq_false]
    intro e he
    have hne : e.seq ≠ nextSeq db caseId := by
      intro heq
      have hmem := List.mem_map_of_mem (f := CaseEvent.seq) he
      rw [heq] at hmem
      exact fresh_notMem _ hmem
    simpa using hne
  unfold append
  rw [hbig]
  simp only [Option.getD_some, hfree]
  rfl

theorem advance_idle (h : (w.sessions i).phase = .idle) : w.advance i R = w := by
  unfold World.advance
  rw [h]

theorem answer_view (returned : Option CaseEvent) : (w.answer i returned).view i = w.view i := by
  rw [World.view, World.answer, alter_self]
  rfl

theorem move_view (phase : Phase) : (w.move i phase).view i = w.view i := by
  rw [World.view, World.move, alter_self]
  rfl

theorem answer_idle (returned : Option CaseEvent) :
    ((w.answer i returned).sessions i).phase = .idle := by
  rw [World.answer, alter_self]

theorem move_phase (phase : Phase) : ((w.move i phase).sessions i).phase = phase := by
  rw [World.move, alter_self]

theorem write_view (x : Write ρ) : (w.write i x).view i = (w.view i).apply x := by
  have hself : (w.write i x).sessions i = { w.sessions i with
      pending := (w.sessions i).pending ++ [x], wrote := (w.sessions i).wrote ++ [x] } :=
    Function.update_self _ _ _
  rw [World.view, hself, List.foldl_append]
  rfl

theorem advance_asking {q : Entry} (h : (w.sessions i).phase = .asking q) :
    w.advance i R =
      if isEventSourced (w.view i).db q.caseId = true ∧ tooBig R q.data = false then
        w.move i (.counting q)
      else w.answer i none := by
  unfold World.advance
  rw [h]
  dsimp only
  cases isEventSourced (w.view i).db q.caseId <;> cases tooBig R q.data <;> simp

theorem advance_counting {q : Entry} (h : (w.sessions i).phase = .counting q) :
    w.advance i R = w.move i (.inserting q (nextSeq (w.view i).db q.caseId)) := by
  unfold World.advance
  rw [h]

theorem advance_inserting {q : Entry} (hbig : tooBig R q.data = false)
    (h : (w.sessions i).phase = .inserting q (nextSeq (w.view i).db q.caseId))
    (hheld : ∀ l ∈ w.held, l.1 = i) :
    ((w.advance i R).view i).db = { (w.view i).db with
      events := (w.view i).db.events ++ [q.event (nextSeq (w.view i).db q.caseId)] } := by
  have hflush : w.advance i R = w.flush i R q (nextSeq (w.view i).db q.caseId) := by
    unfold World.advance
    rw [h]
    dsimp only
    rw [waits_alone hheld]
    exact if_neg Bool.false_ne_true
  rw [hflush, World.flush, append_free hbig]
  dsimp only
  rw [answer_view, write_view]
  rfl

theorem append_default {db : Db} {caseId : Uuid} {eventType : EventType} {data : Dict}
    (hbig : tooBig R data = false) (actorId : Option String) (actorType : String) :
    append R db caseId eventType data actorId actorType =
      .ok { db with events := db.events ++
        [⟨caseId, nextSeq db caseId, eventType, data, actorId, actorType⟩] } :=
  append_free hbig actorId actorType

theorem record_refused {db : Db} {q : Entry}
    (h : ¬ (isEventSourced db q.caseId = true ∧ tooBig R q.data = false)) :
    record R true db q.caseId q.eventType q.data q.actorId q.actorType = db := by
  unfold record
  cases hes : isEventSourced db q.caseId with
  | false => rfl
  | true =>
    have hbig : tooBig R q.data = true := by
      by_contra hsmall
      exact h ⟨hes, Bool.eq_false_of_not_eq_true hsmall⟩
    simp [append, hbig]

/-- alone, the statements of `record` do what `record` does -/
theorem record_alone (enabled : Bool) (hidle : (w.sessions i).phase = .idle)
    (hheld : ∀ l ∈ w.held, l.1 = i) (q : Entry) :
    ((exec (World.step R enabled) w
        [.record i q, .advance i, .advance i, .advance i]).view i).db =
      record R enabled (w.view i).db q.caseId q.eventType q.data q.actorId q.actorType := by
  let once := w.step R enabled (.record i q)
  show ((((once.advance i R).advance i R).advance i R).view i).db = _
  cases enabled with
  | false =>
    have honce : once = w.answer i none := by
      show (if (w.sessions i).phase.isIdle = true then _ else w) = _
      rw [hidle]
      rfl
    rw [honce, advance_idle (answer_idle none), advance_idle (answer_idle none),
      advance_idle (answer_idle none), answer_view]
    rfl
  | true =>
    have honce : once = w.move i (.asking q) := by
      show (if (w.sessions i).phase.isIdle = true then _ else w) = _
      rw [hidle]
      rfl
    rw [honce, advance_asking (move_phase _), move_view]
    by_cases hcan : isEventSourced (w.view i).db q.caseId = true ∧ tooBig R q.data = false
    · obtain ⟨hes, hbig⟩ := hcan
      rw [if_pos ⟨hes, hbig⟩, advance_counting (move_phase _), move_view, move_view]
      let seq := nextSeq (w.view i).db q.caseId
      let last := ((w.move i (.asking q)).move i (.counting q)).move i (.inserting q seq)
      have hview : last.view i = w.view i := by rw [move_view, move_view, move_view]
      have hphase : (last.sessions i).phase =
          .inserting q (nextSeq (last.view i).db q.caseId) := by
        rw [hview]
        exact move_phase _
      show ((last.advance i R).view i).db = _
      rw [advance_inserting hbig hphase hheld, hview]
      unfold record
      rw [hes, append_default hbig]
      rfl
    · rw [if_neg hcan, advance_idle (answer_idle none), advance_idle (answer_idle none),
        answer_view, move_view]
      exact (record_refused hcan).symm

end

end

/-! ## two assignments of one case -/

def sourced : Tables String where
  db := {
    cases := fun id => if id = 10 then some { caseTypeId := 1, eventSourced := true } else none
    events := [] }

def assigned (stepId : String) : Entry where
  caseId := 10
  eventType := .assigned
  data := [("step_id", .str stepId)]

/-- Two sessions create an assignment and count the events of the case; the first one commits. -/
def twoAssignments : List (Event String) :=
  [.write 1 (.row "review"), .write 2 (.row "approve"), .record 1 (assigned "review"),
    .record 2 (assigned "approve"), .advance 1, .advance 1, .advance 2, .advance 2, .advance 1,
    .commit 1, .advance 2]

/-- the second assignment is gone -/
theorem assignment_lost :
    ¬ ∀ (R : Runtime) (enabled : Bool) (tables : Tables String) (run : List (Event String)),
      Survives R enabled tables run := by
  intro h
  have hkept := (h Runtime.silent true sourced twoAssignments).kept twoAssignments []
    (List.append_nil _).symm 2
  have hlengths : ((exec (World.step Runtime.silent true) { committed := sourced }
        twoAssignments).sessions 2).pending.length = 0 ∧
      ((exec (World.step Runtime.silent true) { committed := sourced }
        twoAssignments).sessions 2).wrote.length = 1 := by
    decide +kernel
  have hlength := congrArg List.length hkept
  omega

end CaseEvents
