import Velaris.Books.Balanced

/-!
# Payments

`case_service/payments/service.py`: what a provider's webhook and a refund do to a payment and to
the books, and `reconcile_payments` of `compliance/ledger.py`, which compares the two.

* `handleStripeWebhook`, `refundPayment`   the two writers of a payment's status;
* `reconcilePayments`   captured payments against the cash account;
* `World`, `Told`   a run, with what the provider has said of each payment;
* `cashOf`, `cashOf_postMovement`   the net cash the books have for a payment, and what a
    movement changes of it;
* `onBooks`, `onBooks_postMovement`   the movements the books have.

The completion of the payment's step and the event log of the platform are left out.
-/

namespace Payments
open Py Base Books

structure WebhookEvent where
  eventType : String
  providerRef : Option String
  verified : Bool := false
  processed : Bool := false
  error : Option String := none

structure Db where
  payments : List PaymentRequest
  books : Journal
  webhookEvents : List WebhookEvent

structure Webhook where
  eventType : String
  /-- `data.object.id` -/
  objectId : Option String
  /-- `data.object.payment_intent` -/
  paymentIntent : Option String
  /-- `data.object.amount_refunded`: the refunds of the charge so far, which no code reads -/
  amountRefunded : Int := 0
  sigHeader : String
  /-- the signature is valid for the secret of the connector with this id, which is registered -/
  verifies : Uuid → Bool

/-! ## webhooks -/

def Webhook.providerRef (w : Webhook) : Option String :=
  (w.objectId.filter (· ≠ "")).or w.paymentIntent

inductive Failure where
  | multipleResults
  | notFound
  | notRefundable (status : PaymentStatus)
  | connectorNotFound
  | refundError

def findPayment (payments : List PaymentRequest) (providerRef : Option String) :
    Except Failure (Option PaymentRequest) :=
  match providerRef with
  | none => .ok none
  | some ref =>
    if ref = "" then .ok none
    else
      match payments.filter (·.providerRef = some ref) with
      | [] => .ok none
      | [pr] => .ok (some pr)
      | _ => .error .multipleResults

/-- an unsigned webhook is unverified, and so is one without a payment or a connector -/
def Webhook.verified (w : Webhook) : Option PaymentRequest → Bool
  | none => false
  | some pr => w.sigHeader ≠ "" && pr.connectorId.any w.verifies

def setStatus (payments : List PaymentRequest) (id : Uuid) (status : PaymentStatus) :
    List PaymentRequest :=
  payments.map fun pr => if pr.id = id then { pr with status := status } else pr

structure Summary where
  status : String
  processed : Bool := false

variable (lower : String → String) (idText : Uuid → String)

/-- what a verified event does to its payment and to the books -/
def processEvent (postingEnabled : Bool) (db : Db) (eventType : String) (pr : PaymentRequest) :
    Db × Bool :=
  if eventType = "payment_intent.succeeded" then
    ({ db with
      payments := setStatus db.payments pr.id .succeeded
      books := (postCapture lower idText postingEnabled db.books pr).1 }, true)
  else if eventType ∈ ["payment_intent.payment_failed", "checkout.session.expired"] then
    ({ db with payments := setStatus db.payments pr.id .failed }, true)
  else if eventType = "charge.refunded" then
    ({ db with
      payments := setStatus db.payments pr.id .refunded
      books := (postRefund lower idText postingEnabled db.books pr).1 }, true)
  else (db, false)

def handleStripeWebhook (postingEnabled : Bool) (db : Db) (w : Webhook) :
    Except Failure (Db × Summary) := do
  let found ← findPayment db.payments w.providerRef
  match found with
  | some pr =>
    if w.verified (some pr) then
      let (db, processed) := processEvent lower idText postingEnabled db w.eventType pr
      let evt := { eventType := w.eventType, providerRef := w.providerRef, verified := true,
                   processed := processed }
      return ({ db with webhookEvents := db.webhookEvents ++ [evt] }, ⟨"ok", processed⟩)
    else return rejected db
  | none => return rejected db
where
  rejected (db : Db) : Db × Summary :=
    let error := if w.sigHeader ≠ "" then "HMAC verification failed" else "unsigned webhook rejected"
    let evt := { eventType := w.eventType, providerRef := w.providerRef, error := some error }
    ({ db with webhookEvents := db.webhookEvents ++ [evt] }, ⟨"rejected", false⟩)

/-! ## refunds -/

/-- a call of `refund_payment`; the connector takes the amount and answers with the amount refunded,
unless it is missing or raises -/
structure RefundCall where
  paymentId : Uuid
  amountCents : Option Int
  connectorFound : Bool
  /-- what the provider refunds of a payment, asked for an amount -/
  execute : PaymentRequest → Option Int → Option Int

def refundPayment (db : Db) (call : RefundCall) : Except Failure (Db × Int) :=
  match db.payments.find? (·.id = call.paymentId) with
  | none => .error .notFound
  | some pr =>
    if pr.status ≠ .succeeded then .error (.notRefundable pr.status)
    else if !call.connectorFound then .error .connectorNotFound
    else
      match call.execute pr call.amountCents with
      | none => .error .refundError
      | some refunded => .ok ({ db with payments := setStatus db.payments pr.id .refunded }, refunded)

/-! ## reconciliation -/

structure Reconciliation where
  paymentsCapturedCents : Int
  ledgerDebitsCents : Int
  ledgerRefundsCents : Int
  ledgerNetCents : Int
  differenceCents : Int
  reconciled : Bool

/-- the entry joined with its account is of a payment, and on the cash account -/
def onCash (books : Journal) (e : Entry) : Bool :=
  e.sourceType = some SOURCE_PAYMENT && (books.account? e.accountId).any (·.code = CASH_CODE)

def PaymentRequest.captured (pr : PaymentRequest) : Bool :=
  pr.status ∈ [PaymentStatus.captured, .succeeded, .paid]

def reconcilePayments (db : Db) (tenantId : Option String := none) : Reconciliation :=
  let payments := total PaymentRequest.amountCents
    (fun pr => PaymentRequest.captured pr && ofTenant tenantId (some pr.tenantId)) db.payments
  let rows := fun e => onCash db.books e && ofTenant tenantId e.tenantId
  let debits := debitsOf rows db.books.entries
  let credits := creditsOf rows db.books.entries
  let ledger := debits - credits
  ⟨payments, debits, credits, ledger, payments - ledger, payments = ledger⟩

/-! ## runs -/

structure Told where
  captured : Int := 0
  refunded : Int := 0
  /-- its status has become `refunded` -/
  wasRefunded : Bool := false

structure World where
  db : Db
  told : Uuid → Told

def World.empty : World := ⟨⟨[], .empty, []⟩, fun _ => {}⟩

inductive Act where
  | create (pr : PaymentRequest)
  | webhook (w : Webhook)
  | refund (call : RefundCall)

def verifiedPayment (db : Db) (w : Webhook) : Option PaymentRequest :=
  match findPayment db.payments w.providerRef with
  | .ok (some pr) => if w.verified (some pr) then some pr else none
  | _ => none

/-- what a verified webhook says: the refunds of a charge are cumulative, so saying it again adds
nothing -/
def Webhook.tells (w : Webhook) (pr : PaymentRequest) (t : Told) : Told :=
  if w.eventType = "payment_intent.succeeded" then { t with captured := pr.amountCents }
  else if w.eventType = "charge.refunded" then
    { t with refunded := max t.refunded w.amountRefunded, wasRefunded := true }
  else t

/-- an action, with the setting `ledger_posting_enabled` of its time; what raises changes nothing -/
def step (world : World) : Bool × Act → World
  | (_, .create pr) =>
    if world.db.payments.any (·.id = pr.id) then world
    else
      { world with
        db := { world.db with payments := world.db.payments ++ [{ pr with status := .pending }] } }
  | (enabled, .webhook w) =>
    match handleStripeWebhook lower idText enabled world.db w with
    | .error _ => world
    | .ok (db, _) =>
      match verifiedPayment world.db w with
      | none => { world with db := db }
      | some pr => ⟨db, Function.update world.told pr.id (w.tells pr (world.told pr.id))⟩
  | (_, .refund call) =>
    match refundPayment world.db call with
    | .error _ => world
    | .ok (db, refunded) =>
      let t := world.told call.paymentId
      ⟨db, Function.update world.told call.paymentId
        { t with refunded := t.refunded + refunded, wasRefunded := true }⟩

end Payments

namespace Payments
open Py Base Books

/-- debits less credits of the payment on the cash account -/
def cashOf (books : Journal) (id : Uuid) : Int :=
  net (fun e => onCash books e && e.sourceId = some id) books.entries

variable {books : Journal} {m : Movement}

/-! ## movements -/

theorem onCash_append {books' : Journal} {more : List Account}
    (h : books'.accounts = books.accounts ++ more) {e : Entry}
    (he : e.accountId ∈ books.accounts.map (·.id)) : onCash books' e = onCash books e := by
  obtain ⟨a, ha, hid⟩ := List.mem_map.mp he
  have hsome : (books.account? e.accountId).isSome := by
    rw [Journal.account?, List.find?_isSome]
    exact ⟨a, ha, decide_eq_true hid⟩
  obtain ⟨b, hb⟩ := Option.isSome_iff_exists.mp hsome
  rw [onCash, onCash, account?_append h hb, hb]

theorem cashOf_accounts (hk : Kept books) {books' : Journal} {more : List Account}
    (haccounts : books'.accounts = books.accounts ++ more) (hentries : books'.entries = books.entries)
    (id : Uuid) : cashOf books' id = cashOf books id := by
  rw [cashOf, hentries]
  refine total_congr fun e he => ?_
  rw [onCash_append haccounts (hk.booked e he)]

theorem net_movement_cash {books' : Journal} {txn : Transaction} {cash other : Account}
    (hcash : books'.account? cash.id = some cash) (hother : books'.account? other.id = some other)
    (hcodes : cash.code = CASH_CODE ∧ other.code = m.code) (hcode : m.code ≠ CASH_CODE)
    (hsource : txn.sourceType = some SOURCE_PAYMENT) (id : Uuid) :
    net (fun e => onCash books' e && e.sourceId = some id) (m.entries txn cash other) =
      if txn.sourceId = some id then (if m.cashDebited then m.amountCents else -m.amountCents)
      else 0 := by
  have hne : other.code ≠ CASH_CODE := hcodes.2 ▸ hcode
  by_cases hid : txn.sourceId = some id <;> cases hd : m.cashDebited <;>
    simp [net, Movement.entries, total_cons, entryOf, onCash, hcash, hother, hcodes.1, hne, hsource,
      hid, hd, Entry.signed]

theorem cashOf_postMovement (hk : Kept books) (hsource : m.sourceType = SOURCE_PAYMENT)
    (hcode : m.code ≠ CASH_CODE) (enabled : Bool) (id : Uuid) :
    cashOf (postMovement enabled books m).1 id = cashOf books id +
      if m.Posts enabled books ∧ m.sourceId = id then
        (if m.cashDebited then m.amountCents else -m.amountCents)
      else 0 := by
  have ho := accounts_spec books m
  obtain ⟨more, hmore, -⟩ := ho.accounts
  have hids := ho.ids hk.accountIds
  have hopened := cashOf_accounts hk hmore ho.entries id
  rw [postMovement_eq]
  by_cases hposts : m.Posts enabled books
  · rw [if_pos hposts, cashOf]
    dsimp only
    rw [net_append]
    refine congrArg₂ (· + ·) hopened ?_
    refine (net_movement_cash (m := m) (account?_of_mem hids ho.mem.1)
      (account?_of_mem hids ho.mem.2) ho.codes hcode (congrArg some hsource) id).trans ?_
    refine if_congr ?_ rfl rfl
    rw [and_iff_right hposts]
    exact Option.some_inj
  · have hzero : (if m.Posts enabled books ∧ m.sourceId = id then
        (if m.cashDebited then m.amountCents else -m.amountCents) else 0) = 0 :=
      if_neg fun hx => hposts hx.1
    rw [if_neg hposts, hzero, add_zero]
    split
    · exact hopened
    · rfl

/-! ## postings -/

def onBooks (books : Journal) (m : Movement) : Bool :=
  books.transactions.any (postedFor m.sourceType m.sourceId m.purpose)

theorem posted?_isSome (hkey : m.Keyed) : (m.posted? books).isSome = onBooks books m := by
  have hcond : (some m.sourceType).any (· ≠ "") ∧ (some m.sourceId).isSome ∧
      (some m.purpose).any (· ≠ "") := by
    simp [hkey.1, hkey.2]
  rw [Movement.posted?, already, if_pos hcond]
  exact List.isSome_find? ..

theorem posts_iff (hkey : m.Keyed) {enabled : Bool} :
    m.Posts enabled books ↔ enabled = true ∧ 0 < m.amountCents ∧ onBooks books m = false := by
  rw [Movement.Posts, ← posted?_isSome hkey, Option.isSome_eq_false_iff, Option.isNone_iff_eq_none]

theorem onBooks_postMovement (m' : Movement) (enabled : Bool) :
    onBooks (postMovement enabled books m).1 m' =
      (onBooks books m' || (decide (m.Posts enabled books) && decide (m.sourceType = m'.sourceType) &&
        decide (m.sourceId = m'.sourceId) && decide (m.purpose = m'.purpose))) := by
  have ho := accounts_spec books m
  rw [postMovement_eq]
  by_cases hposts : m.Posts enabled books
  · rw [if_pos hposts, onBooks]
    dsimp only
    rw [ho.transactions, List.any_append]
    simp [onBooks, postedFor, transactionOf, Movement.posting, hposts]
  · rw [if_neg hposts]
    have hsame : onBooks (m.accounts books).1 m' = onBooks books m' := by
      rw [onBooks, ho.transactions]
      rfl
    split
    · simp [hsame, hposts]
    · simp [hposts]

end Payments
