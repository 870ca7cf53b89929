import Mathlib.Data.Finset.Basic
import Mathlib.Data.List.Sort
import Mathlib.Data.String.Basic
import Velaris.Py.Value

/-!
# The matcher of two offers

`negotiate/matcher.py`: two parties publish what they offer and what they require, and each party
runs `match` with its own statement as ours and the other's as theirs.

* `rank`, `CEILINGS`   the ceilings, weakest first;
* `visit`, `pass`, `passes`   the loop of `_compose`: a fragment is played when its slug is
    unused and the facts it requires hold;
* `compose`   the steps up to the goals of both sides, with their seams;
* `ceilingClause`, `regionsClause`, `slaClause`, `evidenceClause`   the clauses of the terms;
* `matchOffers`   `match`, with the digest of the composition and the agreed terms.

A `float` is a value of `φ`.
-/

namespace Negotiate

open Py

/-! ## what is published -/

structure Fragment where
  slug : Option String
  requires : List String
  provides : List String
  deriving DecidableEq

structure Offer where
  fragments : List Fragment
  responseHours : Option Value
  evidence : List String

structure Requirements where
  maxCeiling : Option String
  regions : List String
  goals : List String
  evidence : List String
  maxResponseHours : Option Value

structure Statement where
  offer : Offer
  requirements : Requirements

/-- `sorted` of a set of texts -/
def sorted (s : Finset String) : List String :=
  Quot.liftOn s.1 (List.insertionSort (· ≤ ·)) fun l l' (h : l.Perm l') =>
    have hperm := ((List.perm_insertionSort (· ≤ ·) l).trans h).trans
      (List.perm_insertionSort (· ≤ ·) l').symm
    hperm.eq_of_pairwise' (List.pairwise_insertionSort _ l) (List.pairwise_insertionSort _ l')

/-! ## the joint composition -/

inductive Side where
  | ours | theirs
  deriving DecidableEq

structure Step where
  side : Side
  fragment : String
  provides : List String
  crossesSeam : Bool
  deriving DecidableEq

structure Composition where
  goals : List String
  steps : List Step
  seams : ℕ

structure Board where
  facts : Finset String
  used : Finset String
  deriving DecidableEq

structure State extends Board where
  steps : List Step
  progress : Bool

def Fragment.name (f : Fragment) : String := f.slug.getD ""

def visit (s : State) (entry : Side × Fragment) : State :=
  let f := entry.2
  if f.name ∈ s.used then s
  else if ¬ f.requires.toFinset ⊆ s.facts then s
  else
    { used := insert f.name s.used
      facts := s.facts ∪ f.provides.toFinset
      steps := s.steps ++ [⟨entry.1, f.name, f.provides.insertionSort (· ≤ ·), false⟩]
      progress := true }

def pass (supply : List (Side × Fragment)) (s : State) : State :=
  supply.foldl visit { s with progress := false }

/-- the `while` loop; `n` bounds its passes -/
def passes (supply : List (Side × Fragment)) (goals : Finset String) : ℕ → State → State
  | 0, s => s
  | n + 1, s =>
    if s.progress ∧ ¬ goals ⊆ s.facts then passes supply goals n (pass supply s) else s

/-- a step hands over when the next one is on the other side -/
def seamed : List Step → List Step
  | [] => []
  | [x] => [x]
  | x :: y :: rest => { x with crossesSeam := y.side ≠ x.side } :: seamed (y :: rest)

def supply (ours theirs : Offer) : List (Side × Fragment) :=
  ours.fragments.map (Side.ours, ·) ++ theirs.fragments.map (Side.theirs, ·)

def jointGoals (ours theirs : Requirements) : Finset String :=
  ours.goals.toFinset ∪ theirs.goals.toFinset

def start : State := { facts := ∅, used := ∅, steps := [], progress := true }

/-- the state the loop ends in: every pass but the last uses one more slug -/
def played (ours theirs : Statement) : State :=
  passes (supply ours.offer theirs.offer) (jointGoals ours.requirements theirs.requirements)
    (ours.offer.fragments.length + theirs.offer.fragments.length + 1) start

/-! ## the clauses -/

/-- what a clause tells: the values its text prints -/
inductive Detail where
  | ceiling (theirs ours negotiated platform effective : String)
  | regionsApart (ours theirs : List String)
  | regionsShared (shared : List String)
  | regionsFree
  | noneRequired
  | nonePromised (need : Value)
  | tooSlow (promise need : Value)
  | within (promise need : Value)
  | notOffered (missing : List String)
  | obligations (required : List String)
  | noOutcome
  | unreachable (goals : List String)
  | steps (count : ℕ)

inductive Agreed (φ : Type) where
  | ceiling (effective : String)
  | names (names : List String)
  | hours (promise : φ)

structure Clause (φ : Type) where
  clause : String
  ok : Bool
  detail : Detail
  agreed : Option (Agreed φ)

inductive Err where
  /-- the ceiling is none of this platform's -/
  | matchError (ceiling : String)
  /-- `float(v)` -/
  | notAFloat (v : Value)

/-- the two ways `match` stops before its last clause -/
inductive Stop (φ : Type) where
  | raised (e : Err)
  | unmatched (clauses : List (Clause φ)) (why : Detail)

/-- `float` and the order of floats -/
structure Floats (φ : Type) where
  float : Value → Option φ
  gt : φ → φ → Bool

def CEILINGS : List String := ["none", "internal", "personal"]

theorem idxOf_lt {ceiling : String} (h : ceiling ∈ CEILINGS) :
    CEILINGS.idxOf ceiling < CEILINGS.length := List.idxOf_lt_length_of_mem h

section
variable {φ : Type}

def rank (ceiling : String) : Except (Stop φ) (Fin CEILINGS.length) :=
  if h : ceiling ∈ CEILINGS then .ok ⟨CEILINGS.idxOf ceiling, idxOf_lt h⟩
  else .error (.raised (.matchError ceiling))

def unmatched {α : Type} (clauses : List (Clause φ)) (name : String) (why : Detail) :
    Except (Stop φ) α :=
  .error (.unmatched (clauses ++ [⟨name, false, why, none⟩]) why)

/-- `str(requirements.get("max_ceiling") or "internal")` -/
def Requirements.ceiling (r : Requirements) : String :=
  match r.maxCeiling with
  | none => "internal"
  | some text => if text = "" then "internal" else text

def ceilingClause (ours theirs : Requirements) (platform : String) :
    Except (Stop φ) (String × List (Clause φ)) := do
  let i ← rank ours.ceiling
  let j ← rank theirs.ceiling
  let negotiated := CEILINGS.get (min i j)
  let i ← rank negotiated
  let j ← rank platform
  let effective := CEILINGS.get (min i j)
  return (effective, [⟨"data_class_ceiling", true,
    .ceiling theirs.ceiling ours.ceiling negotiated platform effective,
    some (.ceiling effective)⟩])

def regionsClause (ours theirs : Requirements) (clauses : List (Clause φ)) :
    Except (Stop φ) (List (Clause φ)) :=
  let ourRegions := ours.regions.toFinset
  let theirRegions := theirs.regions.toFinset
  if ourRegions.Nonempty ∧ theirRegions.Nonempty then
    let shared := sorted (ourRegions ∩ theirRegions)
    if shared = [] then
      unmatched clauses "regions" (.regionsApart (sorted ourRegions) (sorted theirRegions))
    else .ok (clauses ++ [⟨"regions", true, .regionsShared shared, some (.names shared)⟩])
  else .ok (clauses ++ [⟨"regions", true, .regionsFree, some (.names [])⟩])

def Floats.read (F : Floats φ) (v : Value) : Except (Stop φ) φ :=
  match F.float v with
  | none => .error (.raised (.notAFloat v))
  | some x => .ok x

/-- one round of the loop over `their_sla` and `our_sla` -/
def slaClause (F : Floats φ) (label : String) (need promise : Option Value)
    (clauses : List (Clause φ)) : Except (Stop φ) (List (Clause φ)) :=
  match need, promise with
  | none, _ => .ok (clauses ++ [⟨label, true, .noneRequired, none⟩])
  | some need, none => unmatched clauses label (.nonePromised need)
  | some need, some promise => do
    let x ← F.read promise
    let y ← F.read need
    if F.gt x y then unmatched clauses label (.tooSlow promise need)
    else return clauses ++ [⟨label, true, .within promise need, some (.hours x)⟩]

def evidenceClause (ours theirs : Statement) (clauses : List (Clause φ)) :
    Except (Stop φ) (List (Clause φ)) :=
  let required := ours.requirements.evidence.toFinset ∪ theirs.requirements.evidence.toFinset
  let offered := ours.offer.evidence.toFinset ∪ theirs.offer.evidence.toFinset
  let missing := sorted (required \ offered)
  if missing ≠ [] then unmatched clauses "evidence" (.notOffered missing)
  else .ok (clauses ++ [⟨"evidence", true, .obligations (sorted required),
    some (.names (sorted required))⟩])

def compose (ours theirs : Statement) : Except Detail Composition :=
  let goals := sorted (jointGoals ours.requirements theirs.requirements)
  if goals = [] then .error .noOutcome
  else
    let s := played ours theirs
    let unreachable := goals.filter (· ∉ s.facts)
    if unreachable ≠ [] then .error (.unreachable unreachable)
    else
      let steps := seamed s.steps
      .ok { goals := goals, steps := steps, seams := (steps.filter (·.crossesSeam)).length }

/-! ## the contract -/

/-- what both signatures cover: the composition, and the agreed value of every clause by its name -/
structure Contract (φ : Type) where
  composition : Composition
  terms : List (String × Option (Agreed φ))

structure Result (φ δ : Type) where
  matched : Bool
  composition : Option Composition
  clauses : List (Clause φ)
  effectiveCeiling : Option String
  contractSha256 : Option δ
  reason : Option Detail

def termClauses (F : Floats φ) (ours theirs : Statement) (platform : String) :
    Except (Stop φ) (String × List (Clause φ)) := do
  let (effective, clauses) ← ceilingClause ours.requirements theirs.requirements platform
  let clauses ← regionsClause ours.requirements theirs.requirements clauses
  let clauses ← slaClause F "their_sla" ours.requirements.maxResponseHours
    theirs.offer.responseHours clauses
  let clauses ← slaClause F "our_sla" theirs.requirements.maxResponseHours
    ours.offer.responseHours clauses
  let clauses ← evidenceClause ours theirs clauses
  return (effective, clauses)

def compositionClause (ours theirs : Statement) (clauses : List (Clause φ)) :
    Except (Stop φ) (Composition × List (Clause φ)) :=
  match compose ours theirs with
  | .error why => unmatched clauses "composition" why
  | .ok composition => .ok (composition, clauses ++ [⟨"composition", true,
      .steps composition.steps.length, some (.names (composition.steps.map (·.fragment)))⟩])

/-- `sha256` is the digest of the canonical JSON text of a contract -/
def contractHash {δ : Type} (sha256 : Contract φ → δ) (composition : Composition)
    (clauses : List (Clause φ)) : δ :=
  sha256 { composition := composition, terms := clauses.map fun c => (c.clause, c.agreed) }

def Stop.result {δ : Type} : Stop φ → Except Err (Result φ δ)
  | .raised e => .error e
  | .unmatched clauses why => .ok {
      matched := false, composition := none, clauses := clauses, effectiveCeiling := none
      contractSha256 := none, reason := some why }

def matchOffers {δ : Type} (F : Floats φ) (sha256 : Contract φ → δ) (ours theirs : Statement)
    (platform : String) : Except Err (Result φ δ) :=
  let resolved := do
    let (effective, clauses) ← termClauses F ours theirs platform
    let (composition, clauses) ← compositionClause ours theirs clauses
    return (effective, composition, clauses)
  match resolved with
  | .error stop => stop.result
  | .ok (effective, composition, clauses) => .ok {
      matched := true, composition := some composition, clauses := clauses
      effectiveCeiling := some effective
      contractSha256 := some (contractHash sha256 composition clauses), reason := none }

end

end Negotiate
