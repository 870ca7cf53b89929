import Velaris.Base.Totals
import Velaris.Py.Value

/-!
# Double-entry books

`case_service/compliance/ledger.py`: accounts made on first use, balanced transactions and their
reversals, and what is reported about them.

* `ensureAccount`   the account with a code, fetched or created;
* `post`   one balanced transaction, or the one posted for its source already;
* `reverse`   the mirror image of a transaction;
* `balance`, `trialBalance`   the reports.

The id of a new row is one no row of its table has.
-/

namespace Books
open Py Base

/-! ## rows -/

inductive Direction where
  | debit | credit
  deriving DecidableEq

/-- `ACCOUNT_TYPES` -/
inductive AccountType where
  | asset | liability | income | expense | equity
  deriving DecidableEq

/-- `DEBIT_POSITIVE`: a debit increases the balance -/
def AccountType.debitPositive (t : AccountType) : Bool := t = .asset || t = .expense

structure Account where
  id : Uuid
  code : String
  name : String
  accountType : AccountType
  currency : String
  tenantId : Option String
  deriving DecidableEq

structure Transaction where
  id : Uuid
  description : Option String
  currency : String
  sourceType : Option String
  sourceId : Option Uuid
  purpose : Option String
  caseId : Option Uuid
  tenantId : Option String
  postedBy : Option String
  reversesId : Option Uuid

structure Entry where
  transactionId : Uuid
  accountId : Uuid
  direction : Direction
  amountCents : Int
  currency : String
  description : Option String
  sourceType : Option String
  sourceId : Option Uuid
  purpose : Option String
  caseId : Option Uuid
  tenantId : Option String
  postedBy : Option String
  deriving DecidableEq

structure Journal where
  accounts : List Account
  transactions : List Transaction
  entries : List Entry

def Journal.empty : Journal := ⟨[], [], []⟩

/-- `session.get` of an account -/
def Journal.account? (books : Journal) (id : Uuid) : Option Account :=
  books.accounts.find? (·.id = id)

/-- `session.get` of a transaction -/
def Journal.transaction? (books : Journal) (id : Uuid) : Option Transaction :=
  books.transactions.find? (·.id = id)

/-! ## accounts -/

def ensureAccount (books : Journal) (code name : String) (accountType : AccountType)
    (currency : String := "usd") (tenantId : Option String := none) : Journal × Account :=
  match books.accounts.find? fun a => a.code = code && a.tenantId = tenantId with
  | some existing => (books, existing)
  | none =>
    let account := ⟨fresh (books.accounts.map (·.id)), code, name, accountType, currency, tenantId⟩
    ({ books with accounts := books.accounts ++ [account] }, account)

/-! ## posting -/

inductive LedgerError where
  | tooFewLines
  /-- `lines[i].direction` -/
  | direction (i : Nat)
  /-- `lines[i].amount_cents` is no integer -/
  | amount (i : Nat)
  /-- `lines[i].amount_cents` is not positive -/
  | positive (i : Nat)
  | unbalanced (debits credits : Int)
  | notFound
  | alreadyReversed

structure Line where
  accountId : Uuid
  direction : String
  amountCents : Value
  description : Option String

structure Checked where
  accountId : Uuid
  direction : Direction
  amountCents : Int
  description : Option String

def directionOf (text : String) : Option Direction :=
  if text = "debit" then some .debit else if text = "credit" then some .credit else none

def checkLine (i : Nat) (line : Line) : Except LedgerError Checked :=
  match directionOf line.direction with
  | none => .error (.direction i)
  | some direction =>
    match line.amountCents with
    | .int amount =>
      if amount ≤ 0 then .error (.positive i)
      else .ok ⟨line.accountId, direction, amount, line.description⟩
    | _ => .error (.amount i)

/-- the loop over `enumerate(lines)` -/
def checkLines : Nat → List Line → Except LedgerError (List Checked)
  | _, [] => .ok []
  | i, line :: lines => do
    let checked ← checkLine i line
    let rest ← checkLines (i + 1) lines
    return checked :: rest

def Checked.debitCents (c : Checked) : Int := if c.direction = .debit then c.amountCents else 0

def Checked.creditCents (c : Checked) : Int := if c.direction = .credit then c.amountCents else 0

structure Posting where
  lines : List Line
  description : Option String := none
  currency : String := "usd"
  sourceType : Option String := none
  sourceId : Option Uuid := none
  purpose : Option String := none
  caseId : Option Uuid := none
  tenantId : Option String := none
  postedBy : Option String := none
  reversesId : Option Uuid := none

def already (books : Journal) (p : Posting) : Option Transaction :=
  if p.sourceType.any (· ≠ "") ∧ p.sourceId.isSome ∧ p.purpose.any (· ≠ "") then
    books.transactions.find? fun t =>
      t.sourceType = p.sourceType && t.sourceId = p.sourceId && t.purpose = p.purpose
  else none

def transactionOf (books : Journal) (p : Posting) : Transaction :=
  ⟨fresh (books.transactions.map (·.id)), p.description, p.currency, p.sourceType, p.sourceId,
    p.purpose, p.caseId, p.tenantId, p.postedBy, p.reversesId⟩

def entryOf (txn : Transaction) (c : Checked) : Entry :=
  ⟨txn.id, c.accountId, c.direction, c.amountCents, txn.currency, c.description, txn.sourceType,
    txn.sourceId, txn.purpose, txn.caseId, txn.tenantId, txn.postedBy⟩

def post (books : Journal) (p : Posting) : Except LedgerError (Journal × Transaction) :=
  match already books p with
  | some txn => .ok (books, txn)
  | none =>
    if p.lines.length < 2 then .error .tooFewLines
    else do
      let checked ← checkLines 0 p.lines
      let debits := (checked.map Checked.debitCents).sum
      let credits := (checked.map Checked.creditCents).sum
      if debits ≠ credits then .error (.unbalanced debits credits)
      else
        let txn := transactionOf books p
        .ok ({ books with
          transactions := books.transactions ++ [txn],
          entries := books.entries ++ checked.map (entryOf txn) }, txn)

/-! ## reversing -/

def Direction.text : Direction → String
  | .debit => "debit"
  | .credit => "credit"

def Direction.flip : Direction → Direction
  | .debit => .credit
  | .credit => .debit

def flipped (e : Entry) : Line :=
  ⟨e.accountId, e.direction.flip.text, .int e.amountCents,
    some (String.ofList (strip ("reversal of " ++ e.description.getD "").toList))⟩

/-- `idText` is `str(transaction_id)`, in the description of a reversal without a reason -/
def reverse (idText : Uuid → String) (books : Journal) (transactionId : Uuid) (postedBy : String)
    (reason : Option String := none) : Except LedgerError (Journal × Transaction) :=
  match books.transaction? transactionId with
  | none => .error .notFound
  | some original =>
    if books.transactions.any (·.reversesId = some transactionId) then .error .alreadyReversed
    else
      let lines := books.entries.filter (·.transactionId = transactionId)
      let described := (original.description.filter (· ≠ "")).getD (idText transactionId)
      post books {
        lines := lines.map flipped
        currency := original.currency
        description := some ((reason.filter (· ≠ "")).getD ("Reversal of " ++ described))
        caseId := original.caseId
        tenantId := original.tenantId
        postedBy := some postedBy
        reversesId := some transactionId }

/-! ## reports -/

def debitsOf (p : Entry → Bool) (entries : List Entry) : Int :=
  total Entry.amountCents (fun e => p e && e.direction = .debit) entries

def creditsOf (p : Entry → Bool) (entries : List Entry) : Int :=
  total Entry.amountCents (fun e => p e && e.direction = .credit) entries

structure Balance where
  code : String
  accountType : AccountType
  currency : String
  debitsCents : Int
  creditsCents : Int
  balanceCents : Int

def balance (books : Journal) (accountId : Uuid) : Except LedgerError Balance :=
  match books.account? accountId with
  | none => .error .notFound
  | some account =>
    let debits := debitsOf (·.accountId = accountId) books.entries
    let credits := creditsOf (·.accountId = accountId) books.entries
    let signed := if account.accountType.debitPositive then debits - credits else credits - debits
    .ok ⟨account.code, account.accountType, account.currency, debits, credits, signed⟩

structure TrialBalance where
  totalDebitsCents : Int
  totalCreditsCents : Int
  balanced : Bool
  accounts : List Balance

/-- a tenant that is not named, or named `""`, is every tenant -/
def ofTenant (tenantId : Option String) (rowTenant : Option String) : Bool :=
  match tenantId with
  | none => true
  | some t => t = "" || rowTenant = some t

def trialBalance (books : Journal) (tenantId : Option String := none) :
    Except LedgerError TrialBalance := do
  let debits := debitsOf (ofTenant tenantId ·.tenantId) books.entries
  let credits := creditsOf (ofTenant tenantId ·.tenantId) books.entries
  let accounts := books.accounts.filter (ofTenant tenantId ·.tenantId)
  let balances ← accounts.mapM fun a => balance books a.id
  return ⟨debits, credits, debits = credits, balances⟩

end Books
