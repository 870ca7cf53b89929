import Velaris.Py.Text
import Mathlib.Logic.Function.Basic
import Mathlib.Data.List.Nodup

/-!
# The key ring

`case_service/hxvault`: a data key for each tenant, stored under the master key, and a cache of the
keys in every worker.  A step is what happens between two points where another session can come in.

* `Row`, `Envelope`   a stored key, and what is encrypted under one;
* `encrypt`, `decrypt`   by the cache of one worker;
* `Session`, `State`   a request's transaction, and the workers with their tables;
* `Act`, `step`   `ensure_dek`, `shred`, `warm_cache`, `resync_cache` and the ends of a
    transaction.
-/

namespace HxVault

open Py

/-- a key's bytes, which are drawn at random -/
abbrev Dek := Nat

/-- `_norm`; the platform's own key is that of no tenant -/
def norm : Option String → Option Uuid
  | none => none
  | some text => if text = "" ∨ text = "default" then none else uuid text

/-- a row of `tenant_deks`; a row that was shredded no longer holds its key -/
structure Row where
  tenant : Option Uuid
  dek : Dek
  active : Bool := true

/-! ## encryption -/

/-- what `seal` returns, which `open_` reads with the same key and the same `aad` -/
structure Sealed where
  key : Dek
  plaintext : String
  aad : String

structure Envelope where
  tenant : Option Uuid
  version : Nat
  context : String
  payload : Sealed

inductive VaultError where
  | keyShredded
  | dekNotLoaded
  | invalidTag
  deriving DecidableEq

def open_ (key : Dek) (blob : Sealed) (aad : String) : Except VaultError String :=
  if blob.key = key ∧ blob.aad = aad then .ok blob.plaintext else .error .invalidTag

def VERSION : Nat := 1

def aad (tenant : Option Uuid) (version : Nat) (context : String) : String :=
  (tenant.map uuidText).getD "-" ++ "|" ++ toString version ++ "|" ++ context

structure Worker where
  /-- `_DEK_CACHE` -/
  cache : Option Uuid → Option Dek := fun _ => none
  /-- `_SHREDDED` -/
  shredded : List (Option Uuid) := []
  /-- the rows that a `warm_cache` or `resync_cache` has selected -/
  reading : Option (List Row) := none
  /-- the keys that the last `resync_cache` found shredded -/
  gone : List Dek := []

def missingDek (w : Worker) (tenant : Option Uuid) : VaultError :=
  if tenant ∈ w.shredded then .keyShredded else .dekNotLoaded

def encrypt (w : Worker) (tenant : Option Uuid) (plaintext context : String) :
    Except VaultError Envelope :=
  match w.cache tenant with
  | none => .error (missingDek w tenant)
  | some dek =>
    .ok
      { tenant := tenant
        version := VERSION
        context := context
        payload := ⟨dek, plaintext, aad tenant VERSION context⟩ }

def decrypt (w : Worker) (e : Envelope) : Except VaultError String :=
  match w.cache e.tenant with
  | none => .error (missingDek w e.tenant)
  | some dek => open_ dek e.payload (aad e.tenant e.version e.context)

/-! ## the caches -/

/-- one row of `warm_cache` -/
def Worker.load (w : Worker) (r : Row) : Worker :=
  if r.active then { w with cache := Function.update w.cache r.tenant (some r.dek) }
  else { w with shredded := r.tenant :: w.shredded }

/-- one row of `resync_cache` -/
def Worker.pull (w : Worker) (r : Row) : Worker :=
  if r.active ∧ w.cache r.tenant = none then
    { w with cache := Function.update w.cache r.tenant (some r.dek) }
  else w

/-- the loop of `warm_cache` -/
def Worker.warm (w : Worker) (rows : List Row) : Worker := rows.foldl Worker.load w

/-- `resync_cache`: what is missing comes in, and what is not live goes out -/
def Worker.resync (w : Worker) (rows : List Row) : Worker :=
  { rows.foldl Worker.pull w with
    cache := fun t =>
      if t ∈ (rows.filter (·.active)).map Row.tenant then (rows.foldl Worker.pull w).cache t
      else none
    shredded := (rows.filter fun r => !r.active).map Row.tenant
    gone := (rows.filter fun r => !r.active).map Row.dek }

/-! ## the state -/

abbrev Sid := Nat × Nat

structure Session where
  /-- what `ensure_dek` has selected -/
  selected : Option (Option Uuid × List Row) := none
  /-- the key that it is about to store -/
  creating : Option (Option Uuid × Dek) := none
  shreds : List (Option Uuid) := []
  ciphers : List Envelope := []

structure State where
  table : List Row := []
  /-- the rows that open transactions have inserted -/
  pending : List (Sid × Row) := []
  sessions : Sid → Session := fun _ => {}
  workers : Nat → Worker := fun _ => {}
  ciphers : List Envelope := []
  drawn : Dek := 0

def State.setSession (s : State) (σ : Sid) (x : Session) : State :=
  { s with sessions := Function.update s.sessions σ x }

def State.setWorker (s : State) (w : Nat) (x : Worker) : State :=
  { s with workers := Function.update s.workers w x }

def State.insert (s : State) (σ : Sid) (r : Row) : State :=
  { s with pending := s.pending ++ [(σ, r)] }

def State.inserts (s : State) (σ : Sid) : List Row := (s.pending.filter (·.1 = σ)).map Prod.snd

def Row.shredIn (tenants : List (Option Uuid)) (r : Row) : Row :=
  if r.tenant ∈ tenants then { r with active := false } else r

/-- the table as a transaction sees it, and as it leaves it -/
def State.view (s : State) (σ : Sid) : List Row :=
  (s.table ++ s.inserts σ).map (Row.shredIn (s.sessions σ).shreds)

def State.rowsOf (s : State) (σ : Sid) (tenant : Option Uuid) : List Row :=
  (s.view σ).filter (·.tenant = tenant)

def Session.idle (x : Session) : Bool := x.selected.isNone && x.creating.isNone

def State.rollback (s : State) (σ : Sid) : State :=
  { s with
    pending := s.pending.filter (·.1 ≠ σ)
    sessions := Function.update s.sessions σ {} }

def State.commit (s : State) (σ : Sid) : State :=
  { s with
    table := s.view σ
    pending := s.pending.filter (·.1 ≠ σ)
    sessions := Function.update s.sessions σ {}
    ciphers := s.ciphers ++ (s.sessions σ).ciphers }

def State.restart (s : State) (w : Nat) : State :=
  { s with
    pending := s.pending.filter (·.1.1 ≠ w)
    sessions := fun σ => if σ.1 = w then {} else s.sessions σ
    workers := Function.update s.workers w {} }

inductive Act where
  | ensure (σ : Sid) (tenantId : Option String)
  /-- the rows of `ensure_dek` have come -/
  | resume (σ : Sid)
  /-- and the new row is sent -/
  | flush (σ : Sid)
  | encrypt (σ : Sid) (tenantId : Option String) (plaintext context : String)
  | shred (σ : Sid) (tenantId : Option String)
  | commit (σ : Sid)
  | rollback (σ : Sid)
  | select (w : Nat)
  | warm (w : Nat)
  | resync (w : Nat)
  | restart (w : Nat)

/-- the database keeps the rows of a tenant apart; those of no tenant not on every dialect -/
def keptApart (platformUnique : Bool) (tenant : Option Uuid) : Bool :=
  tenant.isSome || platformUnique

def step (platformUnique : Bool) (s : State) : Act → State
  | .ensure σ tenantId =>
    let x := s.sessions σ
    if x.idle ∧ (s.workers σ.1).cache (norm tenantId) = none then
      s.setSession σ { x with selected := some (norm tenantId, s.rowsOf σ (norm tenantId)) }
    else s
  | .resume σ =>
    let x := { s.sessions σ with selected := none }
    let w := s.workers σ.1
    match (s.sessions σ).selected with
    | none => s
    | some (tenant, []) =>
      { s with
        drawn := s.drawn + 1
        sessions := Function.update s.sessions σ { x with creating := some (tenant, s.drawn) } }
    | some (tenant, [row]) =>
      if row.active then
        (s.setWorker σ.1 { w with cache := Function.update w.cache tenant (some row.dek) }).setSession
          σ x
      else (s.setWorker σ.1 { w with shredded := tenant :: w.shredded }).setSession σ x
    | some (_, _ :: _ :: _) => s.setSession σ x
  | .flush σ =>
    let x := s.sessions σ
    let w := s.workers σ.1
    match x.creating with
    | none => s
    | some (tenant, dek) =>
      if keptApart platformUnique tenant ∧ tenant ∈ (s.table ++ s.inserts σ).map Row.tenant then
        s.rollback σ
      else if keptApart platformUnique tenant ∧ tenant ∈ s.pending.map (·.2.tenant) then s
      else
        ((s.insert σ ⟨tenant, dek, true⟩).setWorker σ.1
          { w with cache := Function.update w.cache tenant (some dek) }).setSession σ
          { x with creating := none }
  | .encrypt σ tenantId plaintext context =>
    let x := s.sessions σ
    match encrypt (s.workers σ.1) (norm tenantId) plaintext context with
    | .ok e => if x.idle then s.setSession σ { x with ciphers := x.ciphers ++ [e] } else s
    | .error _ => s
  | .shred σ tenantId =>
    let x := s.sessions σ
    let w := s.workers σ.1
    let cache := Function.update w.cache (norm tenantId) none
    if x.idle then
      match s.rowsOf σ (norm tenantId) with
      | [] => s.setWorker σ.1 { w with cache := cache }
      | [_] =>
        (s.setWorker σ.1
          { w with cache := cache, shredded := norm tenantId :: w.shredded }).setSession σ
          { x with shreds := norm tenantId :: x.shreds }
      | _ :: _ :: _ => s
    else s
  | .commit σ => if (s.sessions σ).idle then s.commit σ else s
  | .rollback σ => s.rollback σ
  | .select w => s.setWorker w { s.workers w with reading := some s.table }
  | .warm w =>
    match (s.workers w).reading with
    | none => s
    | some rows => s.setWorker w { (s.workers w).warm rows with reading := none }
  | .resync w =>
    match (s.workers w).reading with
    | none => s
    | some rows => s.setWorker w { (s.workers w).resync rows with reading := none }
  | .restart w => s.restart w

end HxVault
