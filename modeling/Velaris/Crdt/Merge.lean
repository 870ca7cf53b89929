import Velaris.Base.Latest
import Velaris.Py.Runtime
import Velaris.Py.Text
import Mathlib.Data.Finmap
import Mathlib.Data.Prod.Lex
import Mathlib.Data.String.Basic

/-!
# Offline edits of case variables

`case_service/core/crdt.py`: one register for each variable, which the highest stamp wins.

* `Stamp`, `normaliseOrigin`, `nextLamport`;
* `merge`, `mergeAll`   one write, and a batch of edits, against what is stored;
* `edit?`   what an edit writes, where it is not rejected;
* `Converges`   the edits give one state, in any order and however often each comes;
* `Untied`   the latest edits of a variable write one value.

`mergeAll_converges_iff`: a batch converges exactly when it is untied.
-/

namespace Crdt
open Py Base

/-- Origin ids are opaque client identifiers; bounded so a hostile client cannot win every tie. -/
def MAX_ORIGIN_LEN : Int := 64

@[ext] structure Stamp where
  lamport : Nat
  origin : String
  deriving DecidableEq

namespace Stamp

def key (s : Stamp) : Nat ×ₗ String := toLex (s.lamport, s.origin)

theorem key_injective : Function.Injective key := by
  intro s t h
  have hpair : (s.lamport, s.origin) = (t.lamport, t.origin) := h
  obtain ⟨hl, ho⟩ := Prod.mk.inj hpair
  exact Stamp.ext hl ho

instance : LinearOrder Stamp := LinearOrder.lift' key key_injective

theorem lt_iff {s t : Stamp} :
    s < t ↔ s.lamport < t.lamport ∨ s.lamport = t.lamport ∧ s.origin < t.origin :=
  Prod.Lex.toLex_lt_toLex

/-- `Stamp(lamport=…, origin=…)` -/
def make (lamport : Int) (origin : String) : Except String Stamp :=
  if lamport < 0 then .error "lamport counter cannot be negative"
  else .ok ⟨lamport.toNat, origin⟩

def dominates (s other : Stamp) : Bool := other.key < s.key

end Stamp

/-! ## one write -/

inductive Outcome where
  | applied
  | ignored
  | duplicate

def merge (currentValue : Value) (current : Stamp) (incomingValue : Value) (incoming : Stamp) :
    Value × Stamp × Outcome :=
  if incoming.key = current.key then (currentValue, current, .duplicate)
  else if incoming.dominates current then (incomingValue, incoming, .applied)
  else (currentValue, current, .ignored)

abbrev Write := Value × Stamp

theorem merge_eq_later (v w : Value) (s t : Stamp) :
    ((merge v s w t).1, (merge v s w t).2.1) = later Prod.snd ((v, s) : Write) (w, t) := by
  by_cases heq : t = s
  · have hkeep : later Prod.snd ((v, s) : Write) (w, t) = (v, s) :=
      if_neg (by rw [heq]; exact lt_irrefl s)
    rw [merge, if_pos (congrArg Stamp.key heq), hkeep]
  · rw [merge, if_neg fun hk => heq (Stamp.key_injective hk)]
    by_cases hlt : s < t
    · have hdom : t.dominates s = true := decide_eq_true hlt
      have hnew : later Prod.snd ((v, s) : Write) (w, t) = (w, t) := if_pos hlt
      rw [if_pos hdom, hnew]
    · have hdom : ¬ t.dominates s = true := fun h => hlt (of_decide_eq_true h)
      have hkeep : later Prod.snd ((v, s) : Write) (w, t) = (v, s) := if_neg hlt
      rw [if_neg hdom, hkeep]

def nextLamport (localLamport : Nat) (received : Option Nat) : Nat :=
  max localLamport (received.getD 0) + 1

/-- a write made after one was received wins against it, whatever the origins -/
theorem nextLamport_dominates (l r : Nat) (s t : Stamp) (hs : s.lamport = nextLamport l (some r))
    (ht : t.lamport = r) : s.dominates t := by
  apply decide_eq_true
  show t < s
  rw [Stamp.lt_iff, hs, ht]
  exact Or.inl (Nat.lt_succ_of_le (le_max_right l r))

/-! ## a batch -/

variable (R : Runtime) (intError : Value → String)

/-- what the variables hold; two dictionaries with the same items are one state -/
abbrev State := Finmap fun _ : String => Write

inductive Report where
  | rejected (key reason : String)
  | merged (key : String) (outcome : Outcome) (winner : Stamp)

def normaliseOrigin (origin : Value) : String :=
  match slice MAX_ORIGIN_LEN (strip (R.str (origin.or (.str ""))).toList) with
  | [] => "unknown"
  | c :: cs => String.ofList (c :: cs)

/-- `str(item.get("key") or "")` -/
def keyOf (item : Dict) : String := R.str ((Dict.get item "key").or (.str ""))

/-- the stamp of an edit; `intError` is the text of what `int` raises -/
def stampOf (item : Dict) : Except String Stamp :=
  let lamport := (Dict.get item "lamport").or (.int 0)
  match lamport.toInt with
  | none => .error (intError lamport)
  | some n => Stamp.make n (normaliseOrigin R (Dict.get item "origin"))

def absent : Write := (.none, ⟨0, ""⟩)

def mergeItem (state : State) (item : Dict) : State × Report :=
  let key := keyOf R item
  if key = "" then (state, .rejected key "missing key")
  else
    match stampOf R intError item with
    | .error reason => (state, .rejected key reason)
    | .ok stamp =>
      let cur := (state.lookup key).getD absent
      let m := merge cur.1 cur.2 (Dict.get item "value") stamp
      (state.insert key (m.1, m.2.1), .merged key m.2.2 m.2.1)

def mergeAll (state : State) : List Dict → State × List Report
  | [] => (state, [])
  | item :: incoming =>
    let now := mergeItem R intError state item
    let after := mergeAll now.1 incoming
    (after.1, now.2 :: after.2)

/-! ## what a batch leaves of a variable -/

def edit? (item : Dict) : Option (String × Write) :=
  if keyOf R item = "" then none
  else (stampOf R intError item).toOption.map fun stamp =>
    (keyOf R item, (Dict.get item "value", stamp))

def writesTo (k : String) (edits : List Dict) : List Write :=
  edits.filterMap fun item => ((edit? R intError item).filter (·.1 = k)).map (·.2)

def current (state : State) (k : String) : Write := (state.lookup k).getD absent

variable {R intError}

theorem mem_writesTo {k : String} {edits : List Dict} {w : Write} :
    w ∈ writesTo R intError k edits ↔ ∃ item ∈ edits, edit? R intError item = some (k, w) := by
  rw [writesTo, List.mem_filterMap]
  refine exists_congr fun item => and_congr_right fun _ => ?_
  constructor
  · intro h
    obtain ⟨⟨l, x⟩, hx, rfl⟩ := Option.map_eq_some_iff.mp h
    obtain ⟨he, hl⟩ := Option.filter_eq_some_iff.mp hx
    obtain rfl : l = k := of_decide_eq_true hl
    exact he
  · intro h
    rw [h, Option.filter_some, if_pos (decide_eq_true rfl), Option.map_some]

theorem mergeItem_rejected {state : State} {item : Dict} (h : edit? R intError item = none) :
    (mergeItem R intError state item).1 = state := by
  by_cases hkey : keyOf R item = ""
  · rw [mergeItem, if_pos hkey]
  · rw [edit?, if_neg hkey, Option.map_eq_none_iff] at h
    rw [mergeItem, if_neg hkey]
    cases hs : stampOf R intError item with
    | error reason => rfl
    | ok stamp =>
      rw [hs] at h
      cases h

theorem mergeItem_merged {state : State} {item : Dict} {k : String} {w : Write}
    (h : edit? R intError item = some (k, w)) :
    (mergeItem R intError state item).1 = state.insert k (later Prod.snd (current state k) w) := by
  by_cases hkey : keyOf R item = ""
  · rw [edit?, if_pos hkey] at h
    cases h
  · rw [edit?, if_neg hkey] at h
    obtain ⟨stamp, hs, he⟩ := Option.map_eq_some_iff.mp h
    obtain ⟨rfl, rfl⟩ := Prod.mk.inj he
    rw [mergeItem, if_neg hkey]
    cases hx : stampOf R intError item with
    | error reason =>
      rw [hx] at hs
      cases hs
    | ok t =>
      rw [hx] at hs
      cases hs
      exact congrArg (state.insert _) (merge_eq_later _ _ _ _)

theorem current_insert (state : State) (k l : String) (w : Write) :
    current (state.insert k w) l = if k = l then w else current state l := by
  rw [current]
  split
  · next h =>
    rw [h, Finmap.lookup_insert, Option.getD_some]
  · next h =>
    rw [Finmap.lookup_insert_of_ne _ (Ne.symm h), current]

theorem writesTo_cons (k : String) (item : Dict) (edits : List Dict) :
    writesTo R intError k (item :: edits) =
      writesTo R intError k [item] ++ writesTo R intError k edits := by
  rw [writesTo, writesTo, writesTo, ← List.filterMap_append]
  rfl

theorem writesTo_singleton {k l : String} {item : Dict} {w : Write}
    (h : edit? R intError item = some (l, w)) :
    writesTo R intError k [item] = if l = k then [w] else [] := by
  rw [writesTo, List.filterMap_cons, List.filterMap_nil, h]
  by_cases hl : l = k <;> simp [hl, Option.filter_some]

theorem writesTo_rejected {k : String} {item : Dict} (h : edit? R intError item = none) :
    writesTo R intError k [item] = [] := by
  rw [writesTo, List.filterMap_cons, List.filterMap_nil, h]
  rfl

theorem current_mergeAll (state : State) (edits : List Dict) (k : String) :
    current (mergeAll R intError state edits).1 k =
      latest Prod.snd (current state k) (writesTo R intError k edits) := by
  induction edits generalizing state with
  | nil => rfl
  | cons item edits ih =>
    show current (mergeAll R intError (mergeItem R intError state item).1 edits).1 k = _
    rw [ih, writesTo_cons]
    cases h : edit? R intError item with
    | none => rw [mergeItem_rejected h, writesTo_rejected h, List.nil_append]
    | some e =>
      obtain ⟨l, w⟩ := e
      rw [mergeItem_merged h, writesTo_singleton h, current_insert]
      by_cases hl : l = k
      · rw [if_pos hl, if_pos hl, hl]
        rfl
      · rw [if_neg hl, if_neg hl, List.nil_append]

theorem mem_mergeAll (state : State) (edits : List Dict) (k : String) :
    k ∈ (mergeAll R intError state edits).1 ↔
      k ∈ state ∨ ∃ w, w ∈ writesTo R intError k edits := by
  induction edits generalizing state with
  | nil => simp [mergeAll, writesTo]
  | cons item edits ih =>
    show k ∈ (mergeAll R intError (mergeItem R intError state item).1 edits).1 ↔ _
    rw [ih, writesTo_cons]
    cases h : edit? R intError item with
    | none => rw [mergeItem_rejected h, writesTo_rejected h, List.nil_append]
    | some e =>
      obtain ⟨l, w⟩ := e
      rw [mergeItem_merged h, writesTo_singleton h, Finmap.mem_insert]
      by_cases hl : l = k
      · simp [hl]
      · simp [hl, Ne.symm hl]

theorem state_ext {s t : State} (hmem : ∀ k, k ∈ s ↔ k ∈ t)
    (hcur : ∀ k, current s k = current t k) : s = t := by
  refine Finmap.ext_lookup fun k => ?_
  by_cases hk : k ∈ s
  · obtain ⟨w, hw⟩ := Finmap.mem_iff.mp hk
    obtain ⟨x, hx⟩ := Finmap.mem_iff.mp ((hmem k).mp hk)
    have heq := hcur k
    rw [current, current, hw, hx] at heq
    rw [hw, hx]
    exact congrArg some heq
  · rw [Finmap.lookup_eq_none.mpr hk, Finmap.lookup_eq_none.mpr fun h => hk ((hmem k).mpr h)]

/-! ## convergence -/

variable (R intError)

/-- every list of the edits of the batch, in any order and each of them as often as it comes, gives
the state of the batch -/
def Converges (stored : State) (edits : List Dict) : Prop :=
  ∀ edits', (∀ item, item ∈ edits' ↔ item ∈ edits) →
    (mergeAll R intError stored edits').1 = (mergeAll R intError stored edits).1

/-- two edits of a variable with one stamp write one value, unless the stored stamp or another
edit's is as late or later -/
def Untied (stored : State) (edits : List Dict) : Prop :=
  ∀ k v w stamp, (v, stamp) ∈ writesTo R intError k edits → (w, stamp) ∈ writesTo R intError k edits →
    (current stored k).2 < stamp → (∀ x ∈ writesTo R intError k edits, x.2 ≤ stamp) → v = w

theorem untied_iff_agree {stored : State} {edits : List Dict} :
    Untied R intError stored edits ↔
      ∀ k, Agree Prod.snd (current stored k) (writesTo R intError k edits) := by
  constructor
  · intro h k x hx y hy hxy hlt hmax
    obtain ⟨v, stamp⟩ := x
    obtain ⟨w, stamp'⟩ := y
    obtain rfl : stamp = stamp' := hxy
    rw [h k v w stamp hx hy hlt hmax]
  · intro h k v w stamp hv hw hlt hmax
    exact (Prod.mk.inj (h k (v, stamp) hv (w, stamp) hw rfl hlt hmax)).1

theorem mergeAll_converges_iff (stored : State) (edits : List Dict) :
    Converges R intError stored edits ↔ Untied R intError stored edits := by
  rw [untied_iff_agree]
  constructor
  · intro h k
    refine agree_of_latest_cons fun u hu => ?_
    obtain ⟨item, hitem, he⟩ := mem_writesTo.mp hu
    have hsame : ∀ x, x ∈ item :: edits ↔ x ∈ edits := fun x =>
      ⟨fun hx => (List.mem_cons.mp hx).elim (fun heq => heq ▸ hitem) id, List.mem_cons_of_mem item⟩
    have hcur := congrArg (current · k) (h (item :: edits) hsame)
    simp only [current_mergeAll] at hcur
    rw [writesTo_cons, writesTo_singleton he, if_pos rfl, List.singleton_append] at hcur
    exact hcur
  · intro h edits' hsame
    have hwrites : ∀ k x, x ∈ writesTo R intError k edits' ↔ x ∈ writesTo R intError k edits := by
      intro k x
      rw [mem_writesTo, mem_writesTo]
      exact exists_congr fun item => and_congr_left fun _ => hsame item
    refine state_ext (fun k => ?_) fun k => ?_
    · rw [mem_mergeAll, mem_mergeAll]
      exact or_congr_right (exists_congr (hwrites k))
    · rw [current_mergeAll, current_mergeAll]
      exact latest_eq_of_mem_iff (h k) (hwrites k)

/-- a first edit of the variable `a`, from a client that sends no origin -/
def unknownEdit (value : Value) : Dict :=
  [("key", .str "a"), ("value", value), ("lamport", .int 1)]

/-- two clients without an origin make one stamp, and the first of their edits stays -/
theorem unknown_clients_diverge :
    ¬ ∃ (R : Runtime) (intError : Value → String),
      Converges R intError ∅ [unknownEdit (.int 1), unknownEdit (.int 2)] := by
  intro hx
  obtain ⟨R, intError, h⟩ := hx
  have hsame : ∀ item, item ∈ [unknownEdit (.int 2), unknownEdit (.int 1)] ↔
      item ∈ [unknownEdit (.int 1), unknownEdit (.int 2)] := fun item =>
    (List.Perm.swap _ _ []).mem_iff
  have hfirst : ∀ v w : Value,
      current (mergeAll R intError ∅ [unknownEdit v, unknownEdit w]).1 "a" = (v, ⟨1, "unknown"⟩) := by
    intro v w
    have hwrites : writesTo R intError "a" [unknownEdit v, unknownEdit w] =
        [(v, ⟨1, "unknown"⟩), (w, ⟨1, "unknown"⟩)] := rfl
    rw [current_mergeAll, hwrites]
    refine latest_cons_eq (Stamp.lt_iff.mpr (Or.inl Nat.one_pos)) fun z hz => ?_
    rw [List.mem_singleton.mp hz]
  have hcur := congrArg (current · "a") (h _ hsame)
  simp only [hfirst] at hcur
  exact absurd (Prod.mk.inj hcur).1 (by decide)

end Crdt
