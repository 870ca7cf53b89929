import Velaris.Books.Ledger

/-!
# The postings of payments

`case_service/compliance/ledger_posting.py`: which accounts a payment touches.

* `postCapture`, `postRefund`, `postDisbursement`   what the books say of a payment;
* `postMovement`   the body they share: a debit and a credit between cash and another account;
* `postMovement_eq`  a movement is on the books already, or two entries of it are added: it is never
    refused.

`lower` stands for `str.lower`, and `idText` for `str` of a uuid.
-/

namespace Books
open Py Base

/-- the statuses written, and the two more that reconciliation counts as captured -/
inductive PaymentStatus where
  | pending | succeeded | failed | refunded | captured | paid
  deriving DecidableEq

structure PaymentRequest where
  id : Uuid
  tenantId : String
  caseId : Uuid
  stepId : String
  connectorId : Option Uuid
  providerRef : Option String
  amountCents : Int
  currency : String := "usd"
  status : PaymentStatus := .pending
  deriving DecidableEq

structure PaymentDisbursement where
  id : Uuid
  tenantId : String
  caseId : Uuid
  amountCents : Int
  currency : String := "usd"

def SOURCE_PAYMENT : String := "payment_request"
def SOURCE_DISBURSEMENT : String := "payment_disbursement"

def CAPTURE : String := "capture"
def REFUND : String := "refund"
def DISBURSE : String := "disburse"

def CASH_CODE : String := "1000"
def CASH_NAME : String := "Cash / Payments Received"
def INCOME_CODE : String := "4000"
def INCOME_NAME : String := "Case Payment Income"
def DISBURSEMENT_CODE : String := "5000"
def DISBURSEMENT_NAME : String := "Case Disbursements"

structure Movement where
  code : String
  name : String
  accountType : AccountType
  cashDebited : Bool
  amountCents : Int
  currency : String
  tenantId : Option String
  lineText : String
  description : String
  sourceType : String
  sourceId : Uuid
  purpose : String
  caseId : Uuid
  postedBy : String

def Movement.lines (m : Movement) (cash other : Account) : List Line :=
  let debited := if m.cashDebited then cash else other
  let credited := if m.cashDebited then other else cash
  [⟨debited.id, "debit", .int m.amountCents, some m.lineText⟩,
    ⟨credited.id, "credit", .int m.amountCents, some m.lineText⟩]

def Movement.posting (m : Movement) (cash other : Account) : Posting where
  lines := m.lines cash other
  description := some m.description
  currency := m.currency
  sourceType := some m.sourceType
  sourceId := some m.sourceId
  purpose := some m.purpose
  caseId := some m.caseId
  tenantId := m.tenantId
  postedBy := some m.postedBy

/-- the two accounts a movement touches, cash first -/
def Movement.accounts (m : Movement) (books : Journal) : Journal × Account × Account :=
  let cash := ensureAccount books CASH_CODE CASH_NAME .asset m.currency m.tenantId
  let other := ensureAccount cash.1 m.code m.name m.accountType m.currency m.tenantId
  (other.1, cash.2, other.2)

/-- posting is off, or there is nothing to post; what raises is logged -/
def postMovement (postingEnabled : Bool) (books : Journal) (m : Movement) :
    Journal × Option Transaction :=
  if !postingEnabled then (books, none)
  else if m.amountCents ≤ 0 then (books, none)
  else
    let opened := m.accounts books
    match post opened.1 (m.posting opened.2.1 opened.2.2) with
    | .ok posted => (posted.1, some posted.2)
    | .error _ => (opened.1, none)

section
variable (lower : String → String) (idText : Uuid → String)

/-- `(currency or "usd").lower()` -/
def currencyOf (currency : String) : String := lower (if currency = "" then "usd" else currency)

def tenantOf (tenantId : String) : Option String := if tenantId = "" then none else some tenantId

def captureOf (pr : PaymentRequest) : Movement where
  code := INCOME_CODE
  name := INCOME_NAME
  accountType := .income
  cashDebited := true
  amountCents := pr.amountCents
  currency := currencyOf lower pr.currency
  tenantId := tenantOf pr.tenantId
  lineText := "payment captured"
  description := "Payment captured for case " ++ idText pr.caseId
  sourceType := SOURCE_PAYMENT
  sourceId := pr.id
  purpose := CAPTURE
  caseId := pr.caseId
  postedBy := "stripe_webhook"

def refundOf (pr : PaymentRequest) : Movement where
  code := INCOME_CODE
  name := INCOME_NAME
  accountType := .income
  cashDebited := false
  amountCents := pr.amountCents
  currency := currencyOf lower pr.currency
  tenantId := tenantOf pr.tenantId
  lineText := "payment refunded"
  description := "Payment refunded for case " ++ idText pr.caseId
  sourceType := SOURCE_PAYMENT
  sourceId := pr.id
  purpose := REFUND
  caseId := pr.caseId
  postedBy := "stripe_webhook"

def disbursementOf (disb : PaymentDisbursement) : Movement where
  code := DISBURSEMENT_CODE
  name := DISBURSEMENT_NAME
  accountType := .expense
  cashDebited := false
  amountCents := disb.amountCents
  currency := currencyOf lower disb.currency
  tenantId := tenantOf disb.tenantId
  lineText := "disbursement executed"
  description := "Disbursement for case " ++ idText disb.caseId
  sourceType := SOURCE_DISBURSEMENT
  sourceId := disb.id
  purpose := DISBURSE
  caseId := disb.caseId
  postedBy := "disbursement_confirm"

def postCapture (postingEnabled : Bool) (books : Journal) (pr : PaymentRequest) :
    Journal × Option Transaction := postMovement postingEnabled books (captureOf lower idText pr)

def postRefund (postingEnabled : Bool) (books : Journal) (pr : PaymentRequest) :
    Journal × Option Transaction := postMovement postingEnabled books (refundOf lower idText pr)

def postDisbursement (postingEnabled : Bool) (books : Journal) (disb : PaymentDisbursement) :
    Journal × Option Transaction :=
  postMovement postingEnabled books (disbursementOf lower idText disb)

end

/-! ## what a movement does to the books -/

def Journal.accountFor (books : Journal) (code : String) (tenantId : Option String) :
    Option Account :=
  books.accounts.find? fun a => a.code = code && a.tenantId = tenantId

/-- what an account that is fetched or created leaves of the books -/
structure Ensured (books books' : Journal) (code : String) (tenantId : Option String)
    (currency : String) (a : Account) : Prop where
  transactions : books'.transactions = books.transactions
  entries : books'.entries = books.entries
  accounts : ∃ more, books'.accounts = books.accounts ++ more ∧ ∀ b ∈ more, b.currency = currency
  ids : (books.accounts.map (·.id)).Nodup → (books'.accounts.map (·.id)).Nodup
  mem : a ∈ books'.accounts
  coded : a.code = code
  found : ∀ b, books.accountFor code tenantId = some b → a = b
  made : books.accountFor code tenantId = none → a.currency = currency

variable {books : Journal} {m : Movement}

theorem ensureAccount_spec (books : Journal) (code name : String) (accountType : AccountType)
    (currency : String) (tenantId : Option String) :
    Ensured books (ensureAccount books code name accountType currency tenantId).1 code tenantId
      currency (ensureAccount books code name accountType currency tenantId).2 := by
  have hfind : books.accounts.find? (fun a => a.code = code && a.tenantId = tenantId) =
      books.accountFor code tenantId := rfl
  rw [ensureAccount, hfind]
  cases hacc : books.accountFor code tenantId with
  | some a =>
    refine ⟨rfl, rfl, ⟨[], (List.append_nil _).symm, by simp⟩, id, ?_, ?_, ?_, ?_⟩
    · exact List.mem_of_find?_eq_some hacc
    · have hkey := List.find?_some hacc
      exact of_decide_eq_true (Bool.and_eq_true_iff.mp hkey).1
    · intro b hb
      exact Option.some.inj (hacc.symm.trans hb)
    · intro hnone
      rw [hacc] at hnone
      cases hnone
  | none =>
    refine ⟨rfl, rfl, ⟨_, rfl, by simp⟩, ?_, by simp, rfl, ?_, fun _ => rfl⟩
    · intro hids
      rw [List.map_append]
      refine hids.append (List.nodup_singleton _) ?_
      intro x hx hx'
      obtain rfl := List.mem_singleton.mp hx'
      exact fresh_notMem _ hx
    · intro b hb
      rw [hacc] at hb
      cases hb

def Movement.posted? (books : Journal) (m : Movement) : Option Transaction :=
  already books
    { lines := [], sourceType := some m.sourceType, sourceId := some m.sourceId,
      purpose := some m.purpose }

def Movement.entries (m : Movement) (txn : Transaction) (cash other : Account) : List Entry :=
  let debited := if m.cashDebited then cash else other
  let credited := if m.cashDebited then other else cash
  [entryOf txn ⟨debited.id, .debit, m.amountCents, some m.lineText⟩,
    entryOf txn ⟨credited.id, .credit, m.amountCents, some m.lineText⟩]

theorem post_movement (hpos : 0 < m.amountCents) (hnew : m.posted? books = none)
    (cash other : Account) :
    post books (m.posting cash other) =
      let txn := transactionOf books (m.posting cash other)
      .ok ({ books with
        transactions := books.transactions ++ [txn],
        entries := books.entries ++ m.entries txn cash other }, txn) := by
  have hamount : ¬ m.amountCents ≤ 0 := by omega
  have halready : already books (m.posting cash other) = none := hnew
  rw [post, halready]
  simp only [Movement.posting, Movement.lines, Movement.entries, checkLines, checkLine, directionOf]
  simp [hamount, Checked.debitCents, Checked.creditCents, bind, Except.bind, pure, Except.pure]

theorem post_already {p : Posting} {txn : Transaction} (h : already books p = some txn) :
    post books p = .ok (books, txn) := by rw [post, h]

/-- posting is on, there is something to post, and it is not on the books -/
def Movement.Posts (postingEnabled : Bool) (books : Journal) (m : Movement) : Prop :=
  postingEnabled = true ∧ 0 < m.amountCents ∧ m.posted? books = none

instance (postingEnabled : Bool) (books : Journal) (m : Movement) :
    Decidable (m.Posts postingEnabled books) := instDecidableAnd

/-- the books with the accounts of a movement, and the two accounts -/
structure Opened (books books' : Journal) (m : Movement) (cash other : Account) : Prop where
  transactions : books'.transactions = books.transactions
  entries : books'.entries = books.entries
  accounts : ∃ more, books'.accounts = books.accounts ++ more ∧ ∀ b ∈ more, b.currency = m.currency
  ids : (books.accounts.map (·.id)).Nodup → (books'.accounts.map (·.id)).Nodup
  mem : cash ∈ books'.accounts ∧ other ∈ books'.accounts
  codes : cash.code = CASH_CODE ∧ other.code = m.code
  cashFound : ∀ b, books.accountFor CASH_CODE m.tenantId = some b → cash = b
  otherFound : ∀ b, books.accountFor m.code m.tenantId = some b → other = b
  currencies : (∀ b ∈ books.accountFor CASH_CODE m.tenantId, b.currency = m.currency) →
    (∀ b ∈ books.accountFor m.code m.tenantId, b.currency = m.currency) →
    cash.currency = m.currency ∧ other.currency = m.currency

theorem accountFor_append {books books' : Journal} {more : List Account}
    (h : books'.accounts = books.accounts ++ more) (code : String) (tenantId : Option String) :
    books'.accountFor code tenantId = (books.accountFor code tenantId).or
      (more.find? fun a => a.code = code && a.tenantId = tenantId) := by
  rw [Journal.accountFor, h, List.find?_append]
  rfl

theorem accounts_spec (books : Journal) (m : Movement) :
    Opened books (m.accounts books).1 m (m.accounts books).2.1 (m.accounts books).2.2 := by
  have h₁ := ensureAccount_spec books CASH_CODE CASH_NAME .asset m.currency m.tenantId
  rw [Movement.accounts]
  generalize ensureAccount books CASH_CODE CASH_NAME .asset m.currency m.tenantId = cash at h₁ ⊢
  have h₂ := ensureAccount_spec cash.1 m.code m.name m.accountType m.currency m.tenantId
  dsimp only
  generalize ensureAccount cash.1 m.code m.name m.accountType m.currency m.tenantId = other at h₂ ⊢
  obtain ⟨more₁, hmore₁, hcur₁⟩ := h₁.accounts
  obtain ⟨more₂, hmore₂, hcur₂⟩ := h₂.accounts
  have hfor := accountFor_append hmore₁ m.code m.tenantId
  refine ⟨h₂.transactions.trans h₁.transactions, h₂.entries.trans h₁.entries,
    ⟨more₁ ++ more₂, ?_, ?_⟩, fun h => h₂.ids (h₁.ids h), ⟨?_, h₂.mem⟩, ⟨h₁.coded, h₂.coded⟩,
    h₁.found, ?_, ?_⟩
  · rw [← List.append_assoc, ← hmore₁]
    exact hmore₂
  · intro b hb
    rcases List.mem_append.mp hb with hb | hb
    · exact hcur₁ b hb
    · exact hcur₂ b hb
  · rw [hmore₂]
    exact List.mem_append_left _ h₁.mem
  · intro b hb
    rw [hb, Option.some_or] at hfor
    exact h₂.found b hfor
  · intro hcash hother
    refine ⟨?_, ?_⟩
    · cases hacc : books.accountFor CASH_CODE m.tenantId with
      | none => exact h₁.made hacc
      | some b =>
        rw [h₁.found b hacc]
        exact hcash b hacc
    · cases hacc : cash.1.accountFor m.code m.tenantId with
      | none => exact h₂.made hacc
      | some b =>
        rw [h₂.found b hacc]
        rw [hfor] at hacc
        rcases Option.or_eq_some_iff.mp hacc with hb | hb
        · exact hother b hb
        · exact hcur₁ b (List.mem_of_find?_eq_some hb.2)

theorem postMovement_eq (postingEnabled : Bool) (books : Journal) (m : Movement) :
    (postMovement postingEnabled books m).1 =
      if m.Posts postingEnabled books then
        let opened := m.accounts books
        let txn := transactionOf opened.1 (m.posting opened.2.1 opened.2.2)
        { opened.1 with
          transactions := opened.1.transactions ++ [txn],
          entries := opened.1.entries ++ m.entries txn opened.2.1 opened.2.2 }
      else if postingEnabled ∧ 0 < m.amountCents then (m.accounts books).1
      else books := by
  have hopened := accounts_spec books m
  by_cases hon : postingEnabled = true
  · by_cases hpos : 0 < m.amountCents
    · have hamount : ¬ m.amountCents ≤ 0 := by omega
      have hsame : m.posted? (m.accounts books).1 = m.posted? books := by
        rw [Movement.posted?, Movement.posted?, already, already, hopened.transactions]
      have hoff : ¬ (!postingEnabled) = true := by simp [hon]
      rw [postMovement, if_neg hoff, if_neg hamount]
      dsimp only
      cases hposted : m.posted? books with
      | none =>
        rw [post_movement hpos (hsame.trans hposted), if_pos ⟨hon, hpos, hposted⟩]
      | some txn =>
        have halready : already (m.accounts books).1
            (m.posting (m.accounts books).2.1 (m.accounts books).2.2) = some txn :=
          hsame.trans hposted
        rw [post_already halready,
          if_neg fun hx => Option.some_ne_none txn (hposted.symm.trans hx.2.2), if_pos ⟨hon, hpos⟩]
    · have hamount : m.amountCents ≤ 0 := by omega
      rw [if_neg fun hx => hpos hx.2.1, if_neg fun hx => hpos hx.2, postMovement]
      simp [hon, hamount]
  · rw [if_neg fun hx => hon hx.1, if_neg fun hx => hon hx.1, postMovement]
    simp [hon]

end Books
