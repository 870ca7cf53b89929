import Velaris.Base.Run
import Velaris.HxNexus.IndexQueue

/-!
# What was erased stays erased

* `Sound`   what is to hold of the index and its queue at every moment;
* `Allowed`   the steps after which it still holds;
* `JobsOk`, `ChunksOk`, `PhaseOk`, `Inv`   the rows of the queue, the index, a worker, and the state;
* `inv_step`   one step;
* `erased_run`  a run.
-/

namespace HxNexus

open Py Base

/-! ## the promise -/

/-- An anonymized case whose earlier jobs have all ended has no chunk of theirs; a document has one
set of chunks, and one active job. -/
structure Sound (s : State) : Prop where
  erased : ∀ c ∈ s.anonymized,
    (∀ w run, (s.workers w).run = some run → run.caseId = some c → run.early = false) →
      ∀ x ∈ s.chunks, x.caseId = some c → x.early = false
  once : ∀ x ∈ s.chunks, ∀ y ∈ s.chunks, x.documentId = y.documentId → x = y
  alone : ∀ j ∈ s.jobs, ∀ k ∈ s.jobs, j.status.active = true → k.status.active = true →
    j.documentId = k.documentId → j = k

/-! ## the steps that keep it -/

/-- the case has not been anonymized meanwhile, and all chunks of the document are dropped -/
def MayIndex (s : State) (count : Nat) : Phase → Prop
  | .opened run stale => 0 < count → s.isAnonymized run.caseId = false ∧
    ∀ x ∈ s.chunks, x.documentId = run.documentId → x.run ∈ stale
  | .idle | .claimed _ | .refreshed _ | .passed _ | .ending _ _ _ => True

/-- nothing was indexed for these cases since their chunks were deleted -/
def MayCommit (s : State) : Option Erasure → Prop
  | some erasure =>
    ∀ x ∈ s.chunks, x.caseId.any (· ∈ erasure.caseIds) = true → x.run ∈ erasure.runs
  | none => True

def Allowed (s : State) : Act → Prop
  | .index w count => MayIndex s count (s.workers w)
  | .commitErase e => MayCommit s (s.erasures e)
  | .tick _ | .enqueue _ _ _ _ _ | .widen _ | .abandon _ | .claim _ _ | .refresh _ | .check _ _
  | .giveUp _ | .open _ | .fail _ | .finish _ | .crash _ | .reclaimStale _ | .erase _ _
  | .abortErase _ => True

instance (s : State) (count : Nat) : ∀ phase, Decidable (MayIndex s count phase)
  | .opened run stale => inferInstanceAs (Decidable (0 < count → s.isAnonymized run.caseId = false ∧
      ∀ x ∈ s.chunks, x.documentId = run.documentId → x.run ∈ stale))
  | .idle | .claimed _ | .refreshed _ | .passed _ | .ending _ _ _ => isTrue trivial

instance (s : State) : ∀ erasure, Decidable (MayCommit s erasure)
  | some erasure => inferInstanceAs (Decidable (∀ x ∈ s.chunks,
      x.caseId.any (· ∈ erasure.caseIds) = true → x.run ∈ erasure.runs))
  | none => isTrue trivial

instance (s : State) : ∀ a, Decidable (Allowed s a)
  | .index w count => inferInstanceAs (Decidable (MayIndex s count (s.workers w)))
  | .commitErase e => inferInstanceAs (Decidable (MayCommit s (s.erasures e)))
  | .tick _ | .enqueue _ _ _ _ _ | .widen _ | .abandon _ | .claim _ _ | .refresh _ | .check _ _
  | .giveUp _ | .open _ | .fail _ | .finish _ | .crash _ | .reclaimStale _ | .erase _ _
  | .abortErase _ => isTrue trivial

/-! ## the rows of the queue -/

/-- the key is set exactly while the job is active -/
def KeyOk (j : Job) : Prop :=
  j.activeKey = if j.status.active then some j.documentId else none

structure JobsOk (jobs : List Job) : Prop where
  ids : (jobs.map Job.id).Nodup
  keys : ∀ j ∈ jobs, KeyOk j
  unique : ∀ j ∈ jobs, ∀ k ∈ jobs, j.activeKey = k.activeKey → j.activeKey ≠ none → j.id = k.id

variable {jobs : List Job}

theorem JobsOk.eq_of_id (h : JobsOk jobs) {j k : Job} (hj : j ∈ jobs) (hk : k ∈ jobs)
    (hid : j.id = k.id) : j = k := List.inj_on_of_nodup_map h.ids hj hk hid

theorem JobsOk.alone (h : JobsOk jobs) {j k : Job} (hj : j ∈ jobs) (hk : k ∈ jobs)
    (hja : j.status.active = true) (hka : k.status.active = true)
    (hdoc : j.documentId = k.documentId) : j = k := by
  have hjkey : j.activeKey = some j.documentId := (h.keys j hj).trans (if_pos hja)
  have hkkey : k.activeKey = some k.documentId := (h.keys k hk).trans (if_pos hka)
  have hsame : j.activeKey = k.activeKey := by rw [hjkey, hkkey, hdoc]
  exact h.eq_of_id hj hk (h.unique j hj k hk hsame (by simp [hjkey]))

/-- Rows change. A key that is set was set before, or is nobody else's. -/
theorem JobsOk.map (h : JobsOk jobs) {f : Job → Job} (hid : ∀ j, (f j).id = j.id)
    (hkeys : ∀ j ∈ jobs, KeyOk (f j))
    (hset : ∀ j ∈ jobs, (f j).activeKey ≠ none → (f j).activeKey = j.activeKey ∨
      ∀ k ∈ jobs, k.id ≠ j.id → (f k).activeKey ≠ (f j).activeKey) : JobsOk (jobs.map f) := by
  refine ⟨?_, ?_, ?_⟩
  · have hids : (jobs.map f).map Job.id = jobs.map Job.id := by
      rw [List.map_map]
      exact List.map_congr_left fun j _ => hid j
    rw [hids]
    exact h.ids
  · intro x hx
    obtain ⟨j, hj, rfl⟩ := List.mem_map.mp hx
    exact hkeys j hj
  · intro x hx y hy hsame hne
    obtain ⟨j, hj, rfl⟩ := List.mem_map.mp hx
    obtain ⟨k, hk, rfl⟩ := List.mem_map.mp hy
    rw [hid, hid]
    have hne' : (f k).activeKey ≠ none := by rwa [← hsame]
    by_contra hids
    rcases hset j hj hne with hj' | hj'
    · rcases hset k hk hne' with hk' | hk'
      · rw [hj'] at hsame hne
        rw [hk'] at hsame
        exact hids (h.unique j hj k hk hsame hne)
      · exact hk' j hj hids hsame
    · exact hj' k hk (fun hki => hids hki.symm) hsame.symm

theorem JobsOk.map_of_keys (h : JobsOk jobs) {f : Job → Job} (hid : ∀ j, (f j).id = j.id)
    (hkeys : ∀ j ∈ jobs, KeyOk (f j))
    (hset : ∀ j ∈ jobs, (f j).activeKey = j.activeKey ∨ (f j).activeKey = none) :
    JobsOk (jobs.map f) :=
  h.map hid hkeys fun j hj hne => (hset j hj).imp id fun hnone => absurd hnone hne

theorem JobsOk.insert (h : JobsOk jobs) {id documentId : Uuid} {caseId : Option Uuid}
    {reindex staged : Bool}
    (hnew : (jobs.any fun j => j.id = id || j.activeKey = some documentId) = false) :
    JobsOk (jobs ++ [insert id documentId caseId reindex staged]) := by
  have hfree : ∀ j ∈ jobs, j.id ≠ id ∧ j.activeKey ≠ some documentId := by
    intro j hj
    have hj' := List.any_eq_false.mp hnew j hj
    simpa using hj'
  refine ⟨?_, ?_, ?_⟩
  · rw [List.map_append, List.nodup_append]
    refine ⟨h.ids, List.nodup_singleton _, ?_⟩
    intro a ha b hb
    obtain ⟨j, hj, rfl⟩ := List.mem_map.mp ha
    rw [List.map_singleton, List.mem_singleton] at hb
    rw [hb]
    exact (hfree j hj).1
  · intro j hj
    rcases List.mem_append.mp hj with hj | hj
    · exact h.keys j hj
    · rw [List.mem_singleton.mp hj]
      rfl
  · intro j hj k hk hsame hne
    rcases List.mem_append.mp hj with hj | hj <;> rcases List.mem_append.mp hk with hk | hk
    · exact h.unique j hj k hk hsame hne
    · rw [List.mem_singleton.mp hk] at hsame
      exact absurd hsame (hfree j hj).2
    · rw [List.mem_singleton.mp hj] at hsame
      exact absurd hsame.symm (hfree k hk).2
    · rw [List.mem_singleton.mp hj, List.mem_singleton.mp hk]

theorem JobsOk.finish (h : JobsOk jobs) {jobId documentId : Uuid} {status : Status}
    (hrunning : status ≠ .running)
    (hdoc : status = .pending → ∀ j ∈ jobs, j.id = jobId → j.documentId = documentId) :
    JobsOk (finish jobId documentId status jobs) := by
  rw [HxNexus.finish]
  split
  · exact h
  · rename_i hfree
    refine h.map ?_ ?_ ?_
    · intro j
      split <;> rfl
    · intro j hj
      split
      · rename_i hid
        show (if status = .pending then some documentId else none) =
          if status.active then some j.documentId else none
        cases status with
        | pending =>
          rw [hdoc rfl j hj hid]
          rfl
        | running => exact absurd rfl hrunning
        | done => rfl
        | failed => rfl
        | cancelled => rfl
      · exact h.keys j hj
    · intro j hj hne
      by_cases hid : j.id = jobId
      · rw [if_pos hid] at hne ⊢
        by_cases hpending : status = .pending
        · right
          intro k hk hki
          rw [if_neg (by rwa [hid] at hki)]
          intro hkey
          refine hfree ⟨hpending, List.any_eq_true.mpr ⟨k, hk, ?_⟩⟩
          have hkey' : k.activeKey = some documentId := hkey.trans (if_pos hpending)
          rw [hid] at hki
          simp [hki, hkey']
        · exact absurd (if_neg hpending) hne
      · exact Or.inl (by rw [if_neg hid])

/-! ## what a worker knows of its job -/

def Known (jobs : List Job) (run : Run) : Prop :=
  ∃ j ∈ jobs, j.id = run.jobId ∧ j.documentId = run.documentId

theorem Known.map {run : Run} (h : Known jobs run) {f : Job → Job}
    (hf : ∀ j, (f j).id = j.id ∧ (f j).documentId = j.documentId) : Known (jobs.map f) run := by
  obtain ⟨j, hj, hid, hdoc⟩ := h
  exact ⟨f j, List.mem_map_of_mem hj, (hf j).1.trans hid, (hf j).2.trans hdoc⟩

theorem modify_same {id : Uuid} {f : Job → Job}
    (hf : ∀ j, (f j).id = j.id ∧ (f j).documentId = j.documentId) (j : Job) :
    (if j.id = id then f j else j).id = j.id ∧
      (if j.id = id then f j else j).documentId = j.documentId := by
  split
  · exact hf j
  · exact ⟨rfl, rfl⟩

theorem Known.finish {run : Run} (h : Known jobs run) {jobId documentId : Uuid}
    {status : Status} : Known (finish jobId documentId status jobs) run := by
  rw [HxNexus.finish]
  split
  · exact h
  · exact h.map (modify_same fun _ => ⟨rfl, rfl⟩)

theorem Known.documentId {run : Run} (h : Known jobs run) (hjobs : JobsOk jobs) {j : Job}
    (hj : j ∈ jobs) (hid : j.id = run.jobId) : j.documentId = run.documentId := by
  obtain ⟨k, hk, hkid, hdoc⟩ := h
  rw [hjobs.eq_of_id hj hk (hid.trans hkid.symm)]
  exact hdoc

structure PhaseOk (jobs : List Job) (phase : Phase) : Prop where
  known : ∀ run, phase.run = some run → Known jobs run
  outcome : ∀ run status stale, phase = .ending run status stale → status ≠ .running

theorem PhaseOk.idle : PhaseOk jobs .idle := by
  refine ⟨?_, ?_⟩
  · intro run hrun
    cases hrun
  · intro run status stale h
    cases h

theorem PhaseOk.next {phase : Phase} {run : Run} (hrun : phase.run = some run)
    (hknown : Known jobs run) (hends : ∀ run' status stale, phase ≠ .ending run' status stale) :
    PhaseOk jobs phase := by
  refine ⟨?_, fun run' status stale h => absurd h (hends run' status stale)⟩
  intro run' hrun'
  rw [hrun] at hrun'
  rw [← Option.some.inj hrun']
  exact hknown

theorem PhaseOk.ending {run : Run} (hknown : Known jobs run) {status : Status}
    (hstatus : status ≠ .running) (stale : List Nat) : PhaseOk jobs (.ending run status stale) := by
  refine ⟨?_, ?_⟩
  · intro run' hrun'
    rw [← Option.some.inj hrun']
    exact hknown
  · intro run' status' stale' h
    rw [← (Phase.ending.inj h).2.1]
    exact hstatus

theorem PhaseOk.mono {phase : Phase} (h : PhaseOk jobs phase) {jobs' : List Job}
    (hknown : ∀ run, Known jobs run → Known jobs' run) : PhaseOk jobs' phase :=
  ⟨fun run hrun => hknown run (h.known run hrun), h.outcome⟩

/-! ## the index -/

structure ChunksOk (anonymized : List Uuid) (chunks : List ChunkSet) : Prop where
  erased : ∀ x ∈ chunks, ∀ c ∈ x.caseId, c ∉ anonymized
  once : ∀ x ∈ chunks, ∀ y ∈ chunks, x.documentId = y.documentId → x = y

variable {anonymized : List Uuid} {chunks : List ChunkSet}

theorem mem_dropped {runs : List Nat} {x : ChunkSet} :
    x ∈ dropped runs chunks ↔ x ∈ chunks ∧ x.run ∉ runs := by
  simp [dropped]

theorem ChunksOk.dropped (h : ChunksOk anonymized chunks) (runs : List Nat) :
    ChunksOk anonymized (dropped runs chunks) :=
  ⟨fun x hx => h.erased x (mem_dropped.mp hx).1,
    fun x hx y hy => h.once x (mem_dropped.mp hx).1 y (mem_dropped.mp hy).1⟩

theorem ChunksOk.index (h : ChunksOk anonymized chunks) {stale : List Nat} {new : ChunkSet}
    (hcase : ∀ c ∈ new.caseId, c ∉ anonymized)
    (hstale : ∀ x ∈ chunks, x.documentId = new.documentId → x.run ∈ stale) :
    ChunksOk anonymized (HxNexus.dropped stale chunks ++ [new]) := by
  have hdrop := h.dropped stale
  have hother : ∀ x ∈ HxNexus.dropped stale chunks, x.documentId ≠ new.documentId := by
    intro x hx hdoc
    obtain ⟨hmem, hrun⟩ := mem_dropped.mp hx
    exact hrun (hstale x hmem hdoc)
  refine ⟨?_, ?_⟩
  · intro x hx
    rcases List.mem_append.mp hx with hx | hx
    · exact hdrop.erased x hx
    · rw [List.mem_singleton.mp hx]
      exact hcase
  · intro x hx y hy hdoc
    rcases List.mem_append.mp hx with hx | hx <;> rcases List.mem_append.mp hy with hy | hy
    · exact hdrop.once x hx y hy hdoc
    · rw [List.mem_singleton.mp hy] at hdoc
      exact absurd hdoc (hother x hx)
    · rw [List.mem_singleton.mp hx] at hdoc
      exact absurd hdoc.symm (hother y hy)
    · rw [List.mem_singleton.mp hx, List.mem_singleton.mp hy]

theorem ChunksOk.erase (h : ChunksOk anonymized chunks) {erasure : Erasure}
    (hall : ∀ x ∈ chunks, x.caseId.any (· ∈ erasure.caseIds) = true → x.run ∈ erasure.runs) :
    ChunksOk (anonymized ++ erasure.caseIds) (HxNexus.dropped erasure.runs chunks) := by
  refine ⟨?_, (h.dropped erasure.runs).once⟩
  intro x hx c hc hmem
  obtain ⟨hin, hrun⟩ := mem_dropped.mp hx
  rcases List.mem_append.mp hmem with hmem | hmem
  · exact h.erased x hin c hc hmem
  · refine hrun (hall x hin ?_)
    rw [Option.mem_def.mp hc]
    simpa using hmem

/-! ## the state -/

structure Inv (s : State) : Prop where
  jobs : JobsOk s.jobs
  chunks : ChunksOk s.anonymized s.chunks
  phases : ∀ w, PhaseOk s.jobs (s.workers w)

variable {s : State}

theorem Inv.sound (h : Inv s) : Sound s := by
  refine ⟨?_, h.chunks.once, ?_⟩
  · intro c hc _ x hx hcase
    exact absurd hc (h.chunks.erased x hx c hcase)
  · intro j hj k hk hja hka hdoc
    exact h.jobs.alone hj hk hja hka hdoc

theorem Inv.goto (h : Inv s) {w : Nat} {phase : Phase} (hphase : PhaseOk s.jobs phase) :
    Inv (s.goto w phase) := by
  refine ⟨h.jobs, h.chunks, ?_⟩
  intro w'
  show PhaseOk s.jobs (Function.update s.workers w phase w')
  by_cases hw : w' = w
  · rw [hw, Function.update_self]
    exact hphase
  · rw [Function.update_of_ne hw]
    exact h.phases w'

theorem Inv.setJobs (h : Inv s) {jobs' : List Job} (hjobs : JobsOk jobs')
    (hknown : ∀ run, Known s.jobs run → Known jobs' run) : Inv { s with jobs := jobs' } :=
  ⟨hjobs, h.chunks, fun w => (h.phases w).mono hknown⟩

theorem Inv.setChunks (h : Inv s) {chunks' : List ChunkSet}
    (hchunks : ChunksOk s.anonymized chunks') : Inv { s with chunks := chunks' } :=
  ⟨h.jobs, hchunks, h.phases⟩

/-- every row changes, and keeps its id, its document, and whether its key is set -/
theorem Inv.mapJobs (h : Inv s) {f : Job → Job}
    (hf : ∀ j, (f j).id = j.id ∧ (f j).documentId = j.documentId)
    (hkeys : ∀ j ∈ s.jobs, KeyOk (f j))
    (hset : ∀ j ∈ s.jobs, (f j).activeKey = j.activeKey ∨ (f j).activeKey = none) :
    Inv { s with jobs := s.jobs.map f } :=
  h.setJobs (h.jobs.map_of_keys (fun j => (hf j).1) hkeys hset) fun _ hk => hk.map hf

theorem Inv.finish (h : Inv s) {jobId documentId : Uuid} {status : Status}
    (hrunning : status ≠ .running)
    (hdoc : status = .pending → ∀ j ∈ s.jobs, j.id = jobId → j.documentId = documentId) :
    Inv { s with jobs := finish jobId documentId status s.jobs } :=
  h.setJobs (h.jobs.finish hrunning hdoc) fun _ hk => hk.finish

theorem Inv.known (h : Inv s) {w : Nat} {phase : Phase} {run : Run} (hw : s.workers w = phase)
    (hrun : phase.run = some run) : Known s.jobs run := by
  rw [← hw] at hrun
  exact (h.phases w).known run hrun

/-! ### one step -/

theorem Inv.claimJob (h : Inv s) {j : Job} (hj : j ∈ s.jobs) (hpending : j.status = .pending)
    (now : Int) : Inv { s with jobs := modify Job.id j.id (·.claim now) s.jobs } := by
  refine h.mapJobs (modify_same fun _ => ⟨rfl, rfl⟩) ?_ ?_
  · intro k hk
    split
    · rename_i hid
      have hkey := h.jobs.keys k hk
      rw [KeyOk] at hkey
      rw [h.jobs.eq_of_id hk hj hid, hpending] at hkey
      rw [h.jobs.eq_of_id hk hj hid]
      exact hkey
    · exact h.jobs.keys k hk
  · intro k _
    left
    split <;> rfl

theorem Inv.claim (h : Inv s) (w : Nat) (id : Uuid) : Inv (step s (.claim w id)) := by
  rw [step]
  split
  · rename_i j hidle hfind
    have hpred := List.find?_some hfind
    rw [Bool.and_eq_true] at hpred
    have hid : j.id = id := of_decide_eq_true hpred.1
    have hmem : j ∈ s.jobs := List.mem_of_find?_eq_some hfind
    have hjobs := h.claimJob hmem (of_decide_eq_true hpred.2) s.now
    rw [hid] at hjobs
    refine Inv.goto (s := { s with
      jobs := modify Job.id id (·.claim s.now) s.jobs
      runs := s.runs + 1 }) ⟨hjobs.jobs, hjobs.chunks, hjobs.phases⟩ ?_
    refine PhaseOk.next rfl ?_ fun _ _ _ hp => by cases hp
    have hknown : Known s.jobs (j.start s.runs !(s.isAnonymized j.caseId)) := ⟨j, hmem, rfl, rfl⟩
    exact hknown.map (modify_same fun _ => ⟨rfl, rfl⟩)
  · exact h

theorem Inv.refresh (h : Inv s) (w : Nat) : Inv (step s (.refresh w)) := by
  rw [step]
  split
  · rename_i run hw
    have hknown : Known s.jobs run := h.known hw rfl
    split
    · exact h.goto (PhaseOk.next rfl hknown fun _ _ _ hp => by cases hp)
    · exact h
  · exact h

theorem Inv.check (h : Inv s) (w : Nat) (lawful : Bool) : Inv (step s (.check w lawful)) := by
  rw [step]
  split
  · rename_i run hw
    have hknown := h.known hw rfl
    split
    · exact h.goto (PhaseOk.ending hknown (by decide) [])
    · exact h.goto (PhaseOk.next rfl hknown fun _ _ _ hp => by cases hp)
  · exact h

theorem Inv.giveUp (h : Inv s) (w : Nat) : Inv (step s (.giveUp w)) := by
  rw [step]
  split
  · rename_i run hw
    split
    · exact h
    · exact h.goto (PhaseOk.ending (h.known hw rfl) (by decide) [])
  · exact h

theorem Inv.open (h : Inv s) (w : Nat) : Inv (step s (.open w)) := by
  rw [step]
  split
  · rename_i run hw
    exact h.goto (PhaseOk.next rfl (h.known hw rfl) fun _ _ _ hp => by cases hp)
  · exact h

theorem Inv.index (h : Inv s) (w count : Nat) (hmay : MayIndex s count (s.workers w)) :
    Inv (step s (.index w count)) := by
  rw [step]
  split
  · rename_i run stale hw
    have hknown := h.known hw rfl
    rw [hw] at hmay
    split
    · exact h.goto (PhaseOk.ending hknown (by decide) stale)
    · rename_i hcount
      obtain ⟨hcase, hstale⟩ := hmay (by omega)
      have hnot : ∀ c ∈ run.caseId, c ∉ s.anonymized := by
        intro c hc hmem
        rw [State.isAnonymized, Option.mem_def.mp hc] at hcase
        simp [hmem] at hcase
      have hindexed : ChunksOk s.anonymized (dropped stale s.chunks ++ [run.chunkSet count]) :=
        h.chunks.index hnot hstale
      exact (h.setChunks hindexed).goto (PhaseOk.ending hknown (by decide) [])
  · exact h

theorem Inv.fail (h : Inv s) (w : Nat) : Inv (step s (.fail w)) := by
  rw [step]
  split
  · rename_i run stale hw
    refine h.goto (PhaseOk.ending (h.known hw rfl) ?_ [])
    split <;> decide
  · exact h

theorem Inv.finishRun (h : Inv s) (w : Nat) : Inv (step s (.finish w)) := by
  rw [step]
  split
  · rename_i run status stale hw
    have hknown := h.known hw rfl
    have hjobs := h.finish ((h.phases w).outcome run status stale hw) fun _ j hj hid =>
      hknown.documentId h.jobs hj hid
    exact (hjobs.setChunks (h.chunks.dropped stale)).goto PhaseOk.idle
  · exact h

theorem Inv.commitErase (h : Inv s) (e : Nat) (hmay : MayCommit s (s.erasures e)) :
    Inv (step s (.commitErase e)) := by
  rw [step]
  split
  · rename_i erasure he
    rw [he] at hmay
    have hjobs : Inv { s with jobs := s.jobs.map (Job.discard erasure.jobs) } := by
      refine h.mapJobs ?_ ?_ ?_
      · intro j
        rw [Job.discard]
        split <;> exact ⟨rfl, rfl⟩
      · intro j hj
        rw [Job.discard]
        split
        · rfl
        · exact h.jobs.keys j hj
      · intro j _
        rw [Job.discard]
        split
        · exact Or.inr rfl
        · exact Or.inl rfl
    exact ⟨hjobs.jobs, h.chunks.erase hmay, hjobs.phases⟩
  · exact h

theorem Inv.reclaimStale (h : Inv s) (olderThan : Nat) :
    Inv (step s (.reclaimStale olderThan)) := by
  refine h.mapJobs ?_ ?_ ?_
  · intro j
    rw [Job.reclaim]
    split <;> exact ⟨rfl, rfl⟩
  · intro j hj
    rw [Job.reclaim]
    split
    · rename_i hstale
      have hkey := h.jobs.keys j hj
      rw [KeyOk] at hkey
      rw [hstale.1] at hkey
      exact hkey
    · exact h.jobs.keys j hj
  · intro j _
    left
    rw [Job.reclaim]
    split <;> rfl

theorem inv_step (s : State) (a : Act) (h : Inv s) (hmay : Allowed s a) : Inv (step s a) := by
  cases a with
  | tick d => exact ⟨h.jobs, h.chunks, h.phases⟩
  | enqueue id documentId caseId reindex staged =>
    rw [step]
    split
    · exact h
    · rename_i hnew
      refine h.setJobs (h.jobs.insert (Bool.eq_false_iff.mpr hnew)) ?_
      intro run hknown
      obtain ⟨j, hj, hsame⟩ := hknown
      exact ⟨j, List.mem_append_left _ hj, hsame⟩
  | widen id =>
    refine h.mapJobs (modify_same fun _ => ⟨rfl, rfl⟩) ?_ ?_
    · intro j hj
      split <;> exact h.jobs.keys j hj
    · intro j _
      left
      split <;> rfl
  | abandon id =>
    rw [step]
    split
    · exact h.finish (by decide) fun hp => by cases hp
    · exact h
  | claim w id => exact h.claim w id
  | refresh w => exact h.refresh w
  | check w lawful => exact h.check w lawful
  | giveUp w => exact h.giveUp w
  | «open» w => exact h.open w
  | index w count => exact h.index w count hmay
  | fail w => exact h.fail w
  | finish w => exact h.finishRun w
  | crash w => exact h.goto PhaseOk.idle
  | reclaimStale olderThan => exact h.reclaimStale olderThan
  | erase e caseIds =>
    rw [step]
    split
    · exact ⟨h.jobs, h.chunks, h.phases⟩
    · exact h
  | commitErase e => exact h.commitErase e hmay
  | abortErase e => exact ⟨h.jobs, h.chunks, h.phases⟩

/-! ## a run -/

theorem inv_start : Inv {} := by
  refine ⟨⟨List.nodup_nil, ?_, ?_⟩, ⟨?_, ?_⟩, fun w => PhaseOk.idle⟩
  · intro j hj
    cases hj
  · intro j hj
    cases hj
  · intro x hx
    cases hx
  · intro x hx
    cases hx

/-- a run whose steps are allowed is sound in every state that it goes through -/
theorem erased_run (as : List Act) (h : Along step Allowed {} as) :
    Always step Sound {} as := by
  intro bs cs hsplit
  rw [hsplit] at h
  exact (exec_inv inv_step inv_start ((along_append step Allowed {} bs cs).mp h).1).sound

/-! ## what a step leaves alone -/

def Act.worker : Act → Option Nat
  | .claim w _ | .refresh w | .check w _ | .giveUp w | .open w | .index w _ | .fail w | .finish w
  | .crash w => some w
  | .tick _ | .enqueue _ _ _ _ _ | .widen _ | .abandon _ | .reclaimStale _ | .erase _ _
  | .commitErase _ | .abortErase _ => none

theorem workers_goto_of_ne {w w' : Nat} (hw : w' ≠ w) (phase : Phase) :
    (s.goto w phase).workers w' = s.workers w' := Function.update_of_ne hw _ _

theorem workers_step (s : State) (a : Act) {w : Nat} (ha : a.worker ≠ some w) :
    (step s a).workers w = s.workers w := by
  have hne : ∀ w', a.worker = some w' → w ≠ w' := by
    intro w' hw' hsame
    rw [hsame] at ha
    exact ha hw'
  fun_cases step s a
  all_goals first
    | rfl
    | exact workers_goto_of_ne (hne _ rfl) _

theorem workers_exec {as : List Act} {w : Nat} (has : ∀ a ∈ as, a.worker ≠ some w) (s : State) :
    (exec step s as).workers w = s.workers w := by
  induction as generalizing s with
  | nil => rfl
  | cons a as ih =>
    rw [exec_cons, ih (fun b hb => has b (List.mem_cons_of_mem _ hb)),
      workers_step s a (has a List.mem_cons_self)]

/-! ## two runs -/

/-- a document of a case is indexed and the case is erased, one after the other -/
def indexAndErase : List Act :=
  [.enqueue 1 5 (some 8) true false, .claim 0 1, .refresh 0, .check 0 true, .open 0, .index 0 3,
    .finish 0, .enqueue 2 5 (some 8) true false, .claim 1 2, .refresh 1, .check 1 true, .open 1,
    .index 1 4, .crash 1, .tick 3601, .reclaimStale 3600, .erase 0 [8], .commitErase 0, .claim 1 2,
    .refresh 1, .check 1 true, .finish 1]

theorem erased_after_index : Along step Allowed {} indexAndErase ∧
    (exec step {} indexAndErase).chunks = [] ∧ Always step Sound {} indexAndErase := by
  have hallowed : Along step Allowed {} indexAndErase := by decide +kernel
  exact ⟨hallowed, by decide +kernel, erased_run indexAndErase hallowed⟩

/-- the case is erased between the consent check and the chunks -/
def eraseMeanwhile : List Act :=
  [.enqueue 1 5 (some 8) false false, .claim 0 1, .refresh 0, .check 0 true, .open 0,
    .erase 0 [8], .commitErase 0, .index 0 3, .finish 0]

theorem not_always_erased : ¬ ∀ as, Always step Sound {} as := by
  intro h
  have hsound : Sound (exec step {} eraseMeanwhile) := h eraseMeanwhile eraseMeanwhile []
    (List.append_nil _).symm
  have hfalse := hsound.erased 8 (by decide +kernel) ?_ ⟨0, 5, some 8, 3, true⟩ (by decide +kernel)
    rfl
  · exact Bool.noConfusion hfalse
  · -- the only worker has ended its job
    intro w run hrun
    have hidle : (exec step {} eraseMeanwhile).workers w = .idle := by
      by_cases hw : w = 0
      · rw [hw]
        decide +kernel
      · have hothers : ∀ a ∈ eraseMeanwhile, a.worker = none ∨ a.worker = some 0 := by decide
        refine workers_exec ?_ {}
        intro a ha hsame
        rcases hothers a ha with hnone | hzero
        · rw [hnone] at hsame
          cases hsame
        · rw [hzero] at hsame
          exact hw (Option.some.inj hsame).symm
    rw [hidle] at hrun
    cases hrun

end HxNexus
