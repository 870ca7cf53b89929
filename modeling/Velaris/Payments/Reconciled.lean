import Velaris.Payments.Service

/-!
# Payments and books agree

* `Good`   the books, the status and what the provider has said of one payment agree;
* `Benign`   the steps that keep it so;
* `step_inv`, `run_agrees`   a benign step keeps the invariant, and a benign run reconciles.

A refund through `refundPayment` posts nothing, a webhook that reports a refund posts the whole
amount, and no webhook looks at the status it replaces: these are the steps `Benign` leaves out.
-/

namespace Payments
open Py Base Books

variable (lower : String → String) (idText : Uuid → String)

/-! ## one payment -/

/-- the books have the capture and the refund of a payment or not, and the net cash is accordingly;
it is what was captured less what was refunded, and what a reconciliation counts -/
structure Good (books : Journal) (t : Told) (pr : PaymentRequest) : Prop where
  cash : cashOf books pr.id =
    (
        if onBooks books (captureOf lower idText pr) then pr.amountCents else 0) -
      if onBooks books (refundOf lower idText pr) then pr.amountCents else 0
  told : cashOf books pr.id = t.captured - t.refunded
  status : (if PaymentRequest.captured pr then pr.amountCents else 0) = cashOf books pr.id
  succeeded : PaymentRequest.captured pr → pr.status = .succeeded
  final : t.wasRefunded → pr.status ≠ .succeeded
  unrefunded : t.wasRefunded = false →
    t.refunded = 0 ∧ onBooks books (refundOf lower idText pr) = false

/-- the ids and tenants of the payments, which no step changes -/
def keys (payments : List PaymentRequest) : List (Uuid × String) :=
  payments.map fun pr => (pr.id, pr.tenantId)

/-- what the books have under the source type of payments is of payments -/
structure Owned (books : Journal) (ks : List (Uuid × String)) : Prop where
  entries : ∀ e ∈ books.entries, e.sourceType = some SOURCE_PAYMENT →
    ∃ k ∈ ks, e.sourceId = some k.1 ∧ e.tenantId = tenantOf k.2
  transactions : ∀ t ∈ books.transactions, t.sourceType = some SOURCE_PAYMENT →
    ∃ k ∈ ks, t.sourceId = some k.1

structure OfPayment (m : Movement) (pr : PaymentRequest) : Prop where
  source : m.sourceType = SOURCE_PAYMENT
  keyed : m.Keyed
  code : m.code ≠ CASH_CODE
  id : m.sourceId = pr.id
  tenant : m.tenantId = tenantOf pr.tenantId
  amount : m.amountCents = pr.amountCents

variable {lower idText}

theorem captureOf_ofPayment (pr : PaymentRequest) : OfPayment (captureOf lower idText pr) pr := by
  have hne : SOURCE_PAYMENT ≠ "" ∧ CAPTURE ≠ "" ∧ INCOME_CODE ≠ CASH_CODE := by decide
  exact ⟨rfl, ⟨hne.1, hne.2.1⟩, hne.2.2, rfl, rfl, rfl⟩

theorem refundOf_ofPayment (pr : PaymentRequest) : OfPayment (refundOf lower idText pr) pr := by
  have hne : SOURCE_PAYMENT ≠ "" ∧ REFUND ≠ "" ∧ INCOME_CODE ≠ CASH_CODE := by decide
  exact ⟨rfl, ⟨hne.1, hne.2.1⟩, hne.2.2, rfl, rfl, rfl⟩

variable {books : Journal} {m : Movement} {pr : PaymentRequest} {ks : List (Uuid × String)}

theorem Owned.postMovement (h : Owned books ks) (hm : OfPayment m pr)
    (hpr : (pr.id, pr.tenantId) ∈ ks) (enabled : Bool) :
    Owned (Books.postMovement enabled books m).1 ks := by
  have ho := accounts_spec books m
  have hopened : Owned (m.accounts books).1 ks := by
    refine ⟨?_, ?_⟩
    · rw [ho.entries]
      exact h.entries
    · rw [ho.transactions]
      exact h.transactions
  rw [postMovement_eq]
  split
  · refine ⟨?_, ?_⟩
    · intro e he hs
      rcases List.mem_append.mp he with he | he
      · exact hopened.entries e he hs
      · refine ⟨_, hpr, ?_⟩
        simp only [Movement.entries, List.mem_cons, List.not_mem_nil, or_false] at he
        rcases he with rfl | rfl
        · exact ⟨congrArg some hm.id, hm.tenant⟩
        · exact ⟨congrArg some hm.id, hm.tenant⟩
    · intro t ht hs
      rcases List.mem_append.mp ht with ht | ht
      · exact hopened.transactions t ht hs
      · obtain rfl := List.mem_singleton.mp ht
        exact ⟨_, hpr, congrArg some hm.id⟩
  · split
    · exact hopened
    · exact h

structure Leaves (books books' : Journal) (id : Uuid) : Prop where
  cash : cashOf books' id = cashOf books id
  onBooks : ∀ m : Movement, m.sourceId = id → onBooks books' m = onBooks books m

theorem leaves_postMovement (hk : Kept books) (hm : OfPayment m pr) (enabled : Bool) {id : Uuid}
    (hne : pr.id ≠ id) : Leaves books (Books.postMovement enabled books m).1 id := by
  have hid : m.sourceId ≠ id := hm.id ▸ hne
  refine ⟨?_, ?_⟩
  · rw [cashOf_postMovement hk hm.source hm.code]
    simp [hid]
  · intro m' hm'
    rw [onBooks_postMovement]
    simp [hm', hid]

theorem Good.leaves {books' : Journal} {t : Told} (h : Good lower idText books t pr)
    (hl : Leaves books books' pr.id) : Good lower idText books' t pr := by
  have hcapture := hl.onBooks (captureOf lower idText pr) rfl
  have hrefund := hl.onBooks (refundOf lower idText pr) rfl
  refine ⟨?_, ?_, ?_, h.succeeded, h.final, ?_⟩
  · rw [hl.cash, hcapture, hrefund]
    exact h.cash
  · rw [hl.cash]
    exact h.told
  · rw [hl.cash]
    exact h.status
  · rw [hrefund]
    exact h.unrefunded

/-! ## what each event does to its payment -/

/-- what a movement of a payment changes of what the books have of it -/
structure Moves (books books' : Journal) (m : Movement) (enabled : Bool) (amount cash : Int) :
    Prop where
  cash : cashOf books' m.sourceId = cashOf books m.sourceId +
    if enabled = true ∧ 0 < amount ∧ onBooks books m = false then cash else 0
  self : onBooks books' m = (onBooks books m || decide (enabled = true ∧ 0 < amount))
  other : ∀ m' : Movement, m'.purpose ≠ m.purpose → onBooks books' m' = onBooks books m'

theorem moves_postMovement (hk : Kept books) (hm : OfPayment m pr) (enabled : Bool) :
    Moves books (Books.postMovement enabled books m).1 m enabled pr.amountCents
      (if m.cashDebited then pr.amountCents else -pr.amountCents) := by
  refine ⟨?_, ?_, ?_⟩
  · rw [cashOf_postMovement hk hm.source hm.code, hm.amount]
    refine congrArg (_ + ·) (if_congr ?_ rfl rfl)
    rw [posts_iff hm.keyed, hm.amount, and_iff_left rfl]
  · rw [onBooks_postMovement]
    have hiff : m.Posts enabled books ↔ enabled = true ∧ 0 < m.amountCents ∧ onBooks books m = false :=
      posts_iff hm.keyed
    rw [hm.amount] at hiff
    cases hb : onBooks books m
    · simp [hiff, hb]
    · simp
  · intro m' hne
    rw [onBooks_postMovement]
    simp [Ne.symm hne]

variable (lower idText pr) in
theorem moves_capture (hk : Kept books) (enabled : Bool) :
    Moves books (postCapture lower idText enabled books pr).1 (captureOf lower idText pr) enabled
      pr.amountCents pr.amountCents :=
  moves_postMovement hk (captureOf_ofPayment pr) enabled

variable (lower idText pr) in
theorem moves_refund (hk : Kept books) (enabled : Bool) :
    Moves books (postRefund lower idText enabled books pr).1 (refundOf lower idText pr) enabled
      pr.amountCents (-pr.amountCents) :=
  moves_postMovement hk (refundOf_ofPayment pr) enabled

theorem good_capture (hk : Kept books) {t : Told} (h : Good lower idText books t pr) {enabled : Bool}
    (hnever : t.wasRefunded = false) (hamount : 0 ≤ pr.amountCents)
    (hposted : 0 < pr.amountCents →
      enabled = true ∨ onBooks books (captureOf lower idText pr) = true) :
    Good lower idText (postCapture lower idText enabled books pr).1
      { t with captured := pr.amountCents } { pr with status := .succeeded } := by
  obtain ⟨hrefunded, hrefund⟩ := h.unrefunded hnever
  obtain ⟨hcash, hself, hother⟩ := moves_capture lower idText pr hk enabled
  have hrefund' := hother (refundOf lower idText pr) (by show REFUND ≠ CAPTURE; decide)
  rw [hrefund] at hrefund'
  have hold := h.cash
  rw [hrefund] at hold
  -- the cash is the whole amount, captured now or before
  have hnow : cashOf (postCapture lower idText enabled books pr).1 pr.id = pr.amountCents := by
    refine hcash.trans ?_
    show cashOf books pr.id + _ = _
    rw [hold]
    cases hb : onBooks books (captureOf lower idText pr)
    · rw [hb] at hposted
      by_cases hpos : 0 < pr.amountCents
      · simp [hpos, (hposted hpos).resolve_right Bool.false_ne_true]
      · simp [hpos]
        omega
    · simp
  have hcounted : PaymentRequest.captured { pr with status := .succeeded } = true := rfl
  refine ⟨?_, ?_, ?_, fun _ => rfl, ?_, fun _ => ⟨hrefunded, hrefund'⟩⟩
  · show cashOf _ pr.id = (if onBooks _ (captureOf lower idText pr) then pr.amountCents else 0) -
      if onBooks _ (refundOf lower idText pr) then pr.amountCents else 0
    rw [hnow, hself, hrefund']
    by_cases hpos : 0 < pr.amountCents
    · rcases hposted hpos with hon | hb
      · simp [hon, hpos]
      · simp [hb]
    · have hzero : pr.amountCents = 0 := by omega
      simp [hzero]
  · show cashOf _ pr.id = pr.amountCents - t.refunded
    rw [hnow, hrefunded, sub_zero]
  · rw [if_pos hcounted]
    exact hnow.symm
  · intro hx
    rw [hnever] at hx
    cases hx

theorem good_failed {t : Told} (h : Good lower idText books t pr)
    (hstatus : pr.status = .succeeded → pr.amountCents = 0) :
    Good lower idText books t { pr with status := .failed } := by
  have hzero : cashOf books pr.id = 0 := by
    rw [← h.status]
    by_cases hc : PaymentRequest.captured pr = true
    · rw [if_pos hc]
      exact hstatus (h.succeeded hc)
    · rw [if_neg hc]
  have hcounted : PaymentRequest.captured { pr with status := .failed } = false := rfl
  refine ⟨h.cash, h.told, ?_, ?_, ?_, h.unrefunded⟩
  · rw [hcounted]
    exact hzero.symm
  · intro hx
    rw [hcounted] at hx
    cases hx
  · intro _ hx
    cases hx

theorem good_refunded (hk : Kept books) {t : Told} (h : Good lower idText books t pr)
    {enabled : Bool} {amountRefunded : Int} (hwhole : max t.refunded amountRefunded = t.captured)
    (hposted : (onBooks books (refundOf lower idText pr) ||
        decide (enabled = true ∧ 0 < pr.amountCents)) =
      onBooks books (captureOf lower idText pr)) :
    Good lower idText (postRefund lower idText enabled books pr).1
      { t with refunded := max t.refunded amountRefunded, wasRefunded := true }
      { pr with status := .refunded } := by
  obtain ⟨hcash, hself, hother⟩ := moves_refund lower idText pr hk enabled
  have hcapture' := hother (captureOf lower idText pr) (by show CAPTURE ≠ REFUND; decide)
  have hboth : onBooks (postRefund lower idText enabled books pr).1 (refundOf lower idText pr) =
      onBooks (postRefund lower idText enabled books pr).1 (captureOf lower idText pr) := by
    rw [hself, hcapture', hposted]
  have hold := h.cash
  have hnow : cashOf (postRefund lower idText enabled books pr).1 pr.id = 0 := by
    refine hcash.trans ?_
    show cashOf books pr.id + _ = _
    rw [hold, ← hposted]
    cases hb : onBooks books (refundOf lower idText pr)
    · by_cases hon : enabled = true ∧ 0 < pr.amountCents <;> simp [hon]
    · simp
  have hcounted : PaymentRequest.captured { pr with status := .refunded } = false := rfl
  refine ⟨?_, ?_, ?_, ?_, ?_, ?_⟩
  · show cashOf _ pr.id = (if onBooks _ (captureOf lower idText pr) then pr.amountCents else 0) -
      if onBooks _ (refundOf lower idText pr) then pr.amountCents else 0
    rw [hnow, hboth, sub_self]
  · show cashOf _ pr.id = t.captured - max t.refunded amountRefunded
    rw [hnow, hwhole, sub_self]
  · rw [hcounted]
    exact hnow.symm
  · intro hx
    rw [hcounted] at hx
    cases hx
  · intro _ hx
    cases hx
  · intro hx
    cases hx

theorem good_refundPayment {t : Told} (h : Good lower idText books t pr)
    (hzero : pr.amountCents = 0) :
    Good lower idText books { t with refunded := t.refunded + 0, wasRefunded := true }
      { pr with status := .refunded } := by
  have hnow : cashOf books pr.id = 0 := by
    rw [h.cash, hzero]
    simp
  have hcounted : PaymentRequest.captured { pr with status := .refunded } = false := rfl
  refine ⟨h.cash, ?_, ?_, ?_, ?_, ?_⟩
  · rw [add_zero]
    exact h.told
  · rw [hcounted]
    exact hnow.symm
  · intro hx
    rw [hcounted] at hx
    cases hx
  · intro _ hx
    cases hx
  · intro hx
    cases hx

/-! ## every payment -/

variable (lower idText) in
structure Inv (w : World) : Prop where
  ids : (w.db.payments.map (·.id)).Nodup
  kept : Kept w.db.books
  owned : Owned w.db.books (keys w.db.payments)
  good : ∀ pr ∈ w.db.payments, Good lower idText w.db.books (w.told pr.id) pr
  untold : ∀ id ∉ w.db.payments.map (·.id), w.told id = {}

theorem inv_empty : Inv lower idText World.empty := by
  refine ⟨List.nodup_nil, kept_empty, ⟨?_, ?_⟩, ?_, fun _ _ => rfl⟩
  · intro e he
    cases he
  · intro t ht
    cases ht
  · intro pr hpr
    cases hpr

/-- the books have nothing of a payment that does not exist -/
theorem Owned.nothing (h : Owned books ks) {id : Uuid} (hid : ∀ k ∈ ks, k.1 ≠ id) :
    cashOf books id = 0 ∧
      ∀ m : Movement, m.sourceType = SOURCE_PAYMENT → m.sourceId = id → onBooks books m = false := by
  refine ⟨?_, ?_⟩
  · refine total_eq_zero fun e he hx => ?_
    obtain ⟨hcash, hsource⟩ := Bool.and_eq_true_iff.mp hx
    have htype := of_decide_eq_true (Bool.and_eq_true_iff.mp hcash).1
    obtain ⟨k, hk, hkid, -⟩ := h.entries e he htype
    exact hid k hk (Option.some_inj.mp (hkid.symm.trans (of_decide_eq_true hsource)))
  · intro m htype hm
    refine List.any_eq_false.mpr fun t ht hx => ?_
    rw [postedFor, Bool.and_eq_true_iff, Bool.and_eq_true_iff] at hx
    obtain ⟨k, hk, hkid⟩ := h.transactions t ht (htype ▸ of_decide_eq_true hx.1.1)
    refine hid k hk (Option.some_inj.mp (hkid.symm.trans ?_))
    rw [← hm]
    exact of_decide_eq_true hx.1.2

theorem Owned.mono {ks' : List (Uuid × String)} (h : Owned books ks) (hks : ∀ k ∈ ks, k ∈ ks') :
    Owned books ks' := by
  refine ⟨?_, ?_⟩
  · intro e he hs
    obtain ⟨k, hk, hx⟩ := h.entries e he hs
    exact ⟨k, hks k hk, hx⟩
  · intro t ht hs
    obtain ⟨k, hk, hx⟩ := h.transactions t ht hs
    exact ⟨k, hks k hk, hx⟩

theorem good_created (h : Owned books ks) (hid : ∀ k ∈ ks, k.1 ≠ pr.id) :
    Good lower idText books {} { pr with status := .pending } := by
  obtain ⟨hcash, hon⟩ := h.nothing hid
  have hcapture := hon (captureOf lower idText pr) rfl rfl
  have hrefund := hon (refundOf lower idText pr) rfl rfl
  have hcounted : PaymentRequest.captured { pr with status := .pending } = false := rfl
  refine ⟨?_, hcash, ?_, ?_, ?_, fun _ => ⟨rfl, hrefund⟩⟩
  · show cashOf books pr.id = (
        if onBooks books (captureOf lower idText pr) then pr.amountCents else 0) -
      if onBooks books (refundOf lower idText pr) then pr.amountCents else 0
    rw [hcash, hcapture, hrefund]
    rfl
  · rw [hcounted]
    exact hcash.symm
  · intro hx
    rw [hcounted] at hx
    cases hx
  · intro hx
    cases hx

/-! ## the steps -/

variable {payments : List PaymentRequest} {target : Uuid} {status : PaymentStatus}

theorem mem_setStatus {pr' : PaymentRequest} (h : pr' ∈ setStatus payments target status) :
    ∃ pr ∈ payments, pr'.id = pr.id ∧
      pr' = if pr.id = target then { pr with status := status } else pr := by
  obtain ⟨pr, hpr, rfl⟩ := List.mem_map.mp h
  refine ⟨pr, hpr, ?_, rfl⟩
  split
  · rfl
  · rfl

theorem keys_setStatus : keys (setStatus payments target status) = keys payments := by
  rw [keys, setStatus, List.map_map]
  refine List.map_congr_left fun pr _ => ?_
  show (PaymentRequest.id (if _ then _ else _), PaymentRequest.tenantId (if _ then _ else _)) = _
  split
  · rfl
  · rfl

theorem ids_eq_keys : payments.map (·.id) = (keys payments).map Prod.fst := by
  rw [keys, List.map_map]
  rfl

/-- one payment takes its event, and the books leave the others alone -/
theorem Inv.update {w w' : World} (h : Inv lower idText w) (hpr : pr ∈ w.db.payments)
    (hpayments : w'.db.payments = setStatus w.db.payments pr.id status) {t : Told}
    (htold : w'.told = Function.update w.told pr.id t) (hkept : Kept w'.db.books)
    (howned : Owned w'.db.books (keys w.db.payments))
    (hleaves : ∀ id, pr.id ≠ id → Leaves w.db.books w'.db.books id)
    (hgood : Good lower idText w'.db.books t { pr with status := status }) :
    Inv lower idText w' := by
  have hkeys : keys w'.db.payments = keys w.db.payments := by rw [hpayments, keys_setStatus]
  have hids : w'.db.payments.map (·.id) = w.db.payments.map (·.id) := by
    rw [ids_eq_keys, hkeys, ids_eq_keys]
  refine ⟨hids ▸ h.ids, hkept, hkeys ▸ howned, ?_, ?_⟩
  · intro pr' hpr'
    rw [hpayments] at hpr'
    obtain ⟨old, hold, hid, rfl⟩ := mem_setStatus hpr'
    rw [htold, hid]
    by_cases heq : old.id = pr.id
    · obtain rfl : old = pr := List.inj_on_of_nodup_map h.ids hold hpr heq
      rw [if_pos rfl, Function.update_self]
      exact hgood
    · rw [if_neg heq, Function.update_of_ne heq]
      exact (h.good old hold).leaves (hleaves _ (Ne.symm heq))
  · intro id hid
    rw [hids] at hid
    have hne : id ≠ pr.id := fun hx => hid (hx ▸ List.mem_map_of_mem hpr)
    rw [htold, Function.update_of_ne hne]
    exact h.untold id hid

theorem leaves_refl (id : Uuid) : Leaves books books id := ⟨rfl, fun _ _ => rfl⟩

/-- a payment takes an event that posts a movement of it -/
theorem Inv.post {w w' : World} (h : Inv lower idText w) (hpr : pr ∈ w.db.payments)
    (hm : OfPayment m pr) {enabled : Bool}
    (hbooks : w'.db.books = (postMovement enabled w.db.books m).1)
    (hpayments : w'.db.payments = setStatus w.db.payments pr.id status) {t : Told}
    (htold : w'.told = Function.update w.told pr.id t)
    (hgood : Good lower idText (postMovement enabled w.db.books m).1 t
      { pr with status := status }) : Inv lower idText w' := by
  refine h.update hpr hpayments htold ?_ ?_ ?_ ?_
  · rw [hbooks]
    exact kept_postMovement h.kept hm.keyed enabled
  · rw [hbooks]
    exact h.owned.postMovement hm (List.mem_map_of_mem (f := fun pr => (pr.id, pr.tenantId)) hpr)
      enabled
  · intro id hne
    rw [hbooks]
    exact leaves_postMovement h.kept hm enabled hne
  · rw [hbooks]
    exact hgood

theorem mem_of_findPayment {ref : Option String} (h : findPayment payments ref = .ok (some pr)) :
    pr ∈ payments := by
  cases ref with
  | none => cases h
  | some ref =>
    rw [findPayment] at h
    split at h
    · cases h
    · split at h
      · cases h
      · rename_i heq
        cases h
        exact List.mem_of_mem_filter (heq ▸ List.mem_singleton_self pr)
      · cases h

theorem handle_spec {enabled : Bool} {db db' : Db} {w : Webhook} {sum : Summary}
    (h : handleStripeWebhook lower idText enabled db w = .ok (db', sum)) :
    (verifiedPayment db w = none ∧ db'.payments = db.payments ∧ db'.books = db.books) ∨
    ∃ pr ∈ db.payments, verifiedPayment db w = some pr ∧
      db'.payments = (processEvent lower idText enabled db w.eventType pr).1.payments ∧
      db'.books = (processEvent lower idText enabled db w.eventType pr).1.books := by
  rw [handleStripeWebhook] at h
  obtain ⟨found, hfound, h⟩ := exists_of_bind_ok h
  rw [verifiedPayment, hfound]
  cases found with
  | none =>
    cases h
    exact Or.inl ⟨rfl, rfl, rfl⟩
  | some pr =>
    dsimp only at h ⊢
    split at h
    · rename_i hverified
      cases h
      rw [if_pos hverified]
      exact Or.inr ⟨pr, mem_of_findPayment hfound, rfl, rfl, rfl⟩
    · rename_i hverified
      cases h
      rw [if_neg hverified]
      exact Or.inl ⟨rfl, rfl, rfl⟩

theorem refundPayment_spec {db db' : Db} {call : RefundCall} {refunded : Int}
    (h : refundPayment db call = .ok (db', refunded)) :
    ∃ pr ∈ db.payments, pr.id = call.paymentId ∧
      db' = { db with payments := setStatus db.payments pr.id .refunded } ∧
      call.execute pr call.amountCents = some refunded := by
  rw [refundPayment] at h
  split at h
  · cases h
  · rename_i pr hfind
    split at h
    · cases h
    · split at h
      · cases h
      · split at h
        · cases h
        · rename_i hexecute
          cases h
          have hid := List.find?_some hfind
          exact ⟨pr, List.mem_of_find?_eq_some hfind, of_decide_eq_true hid, rfl, hexecute⟩

variable (lower idText) in
/-- a step that none of the three defects touches: a capture comes before any refund and is posted,
a failure does not come after a success, and a refund is told by the provider, is of the whole
capture, and is posted if the capture is -/
def Benign (w : World) : Bool × Act → Prop
  | (_, .create _) => True
  | (enabled, .webhook wh) => ∀ pr ∈ verifiedPayment w.db wh,
    let t := w.told pr.id
    let captured := onBooks w.db.books (captureOf lower idText pr)
    let refunded := onBooks w.db.books (refundOf lower idText pr)
    (wh.eventType = "payment_intent.succeeded" →
      t.wasRefunded = false ∧ 0 ≤ pr.amountCents ∧
        (0 < pr.amountCents → enabled = true ∨ captured = true)) ∧
    (wh.eventType ∈ ["payment_intent.payment_failed", "checkout.session.expired"] →
      pr.status = .succeeded → pr.amountCents = 0) ∧
    (wh.eventType = "charge.refunded" →
      max t.refunded wh.amountRefunded = t.captured ∧
        (refunded || decide (enabled = true ∧ 0 < pr.amountCents)) = captured)
  | (_, .refund call) => ∀ pr ∈ w.db.payments, pr.id = call.paymentId →
    ∀ out ∈ (refundPayment w.db call).toOption, pr.amountCents = 0 ∧ out.2 = 0

theorem inv_webhook {w : World} (h : Inv lower idText w) {enabled : Bool} {wh : Webhook}
    (hb : Benign lower idText w (enabled, .webhook wh)) :
    Inv lower idText (step lower idText w (enabled, .webhook wh)) := by
  rw [step]
  cases hhandle : handleStripeWebhook lower idText enabled w.db wh with
  | error e => exact h
  | ok out =>
    obtain ⟨db, sum⟩ := out
    dsimp only
    rcases handle_spec hhandle with ⟨hnone, hpayments, hbooks⟩ | ⟨pr, hpr, hsome, hpayments, hbooks⟩
    · rw [hnone]
      obtain ⟨payments, books, events⟩ := db
      obtain rfl : payments = w.db.payments := hpayments
      obtain rfl : books = w.db.books := hbooks
      exact ⟨h.ids, h.kept, h.owned, h.good, h.untold⟩
    · rw [hsome]
      dsimp only
      obtain ⟨hsucceeded, hfailed, hrefunded⟩ := hb pr hsome
      have hgood := h.good pr hpr
      rw [processEvent] at hpayments hbooks
      rw [Webhook.tells]
      by_cases hs : wh.eventType = "payment_intent.succeeded"
      · rw [if_pos hs] at hpayments hbooks ⊢
        obtain ⟨hnever, hamount, hposted⟩ := hsucceeded hs
        exact h.post hpr (captureOf_ofPayment pr) hbooks hpayments rfl
          (good_capture h.kept hgood hnever hamount hposted)
      · rw [if_neg hs] at hpayments hbooks ⊢
        by_cases hf : wh.eventType ∈ ["payment_intent.payment_failed", "checkout.session.expired"]
        · have hr : wh.eventType ≠ "charge.refunded" := by
            intro hx
            rw [hx] at hf
            revert hf
            decide
          rw [if_pos hf] at hpayments hbooks
          rw [if_neg hr]
          have hsame : db.books = w.db.books := hbooks
          refine h.update hpr hpayments rfl (hsame ▸ h.kept) (hsame ▸ h.owned) ?_ ?_
          · intro id _
            show Leaves w.db.books db.books id
            rw [hsame]
            exact leaves_refl id
          · show Good lower idText db.books _ _
            rw [hsame]
            exact good_failed hgood (hfailed hf)
        · rw [if_neg hf] at hpayments hbooks
          by_cases hr : wh.eventType = "charge.refunded"
          · rw [if_pos hr] at hpayments hbooks ⊢
            obtain ⟨hwhole, hposted⟩ := hrefunded hr
            exact h.post hpr (refundOf_ofPayment pr) hbooks hpayments rfl
              (good_refunded h.kept hgood hwhole hposted)
          · rw [if_neg hr] at hpayments hbooks ⊢
            obtain ⟨payments, books, events⟩ := db
            obtain rfl : payments = w.db.payments := hpayments
            obtain rfl : books = w.db.books := hbooks
            rw [Function.update_eq_self]
            exact ⟨h.ids, h.kept, h.owned, h.good, h.untold⟩

theorem inv_create {w : World} (h : Inv lower idText w) (enabled : Bool) (pr : PaymentRequest) :
    Inv lower idText (step lower idText w (enabled, .create pr)) := by
  rw [step]
  split
  · exact h
  · rename_i hany
    have hnew : pr.id ∉ w.db.payments.map (·.id) := by
      intro hx
      obtain ⟨old, hold, hid⟩ := List.mem_map.mp hx
      exact hany (List.any_eq_true.mpr ⟨old, hold, decide_eq_true hid⟩)
    refine ⟨?_, h.kept, ?_, ?_, ?_⟩ <;> dsimp only
    · rw [List.map_append]
      refine h.ids.append (List.nodup_singleton _) ?_
      intro x hx hx'
      obtain rfl := List.mem_singleton.mp hx'
      exact hnew hx
    · refine h.owned.mono fun k hk => ?_
      rw [keys, List.map_append]
      exact List.mem_append_left _ hk
    · intro pr' hpr'
      rcases List.mem_append.mp hpr' with hold | hlast
      · exact h.good pr' hold
      · obtain rfl := List.mem_singleton.mp hlast
        show Good lower idText w.db.books (w.told pr.id) _
        rw [h.untold pr.id hnew]
        refine good_created h.owned fun k hk hx => hnew ?_
        rw [ids_eq_keys, ← hx]
        exact List.mem_map_of_mem hk
    · intro id hid
      refine h.untold id fun hx => hid ?_
      rw [List.map_append]
      exact List.mem_append_left _ hx

theorem inv_refund {w : World} (h : Inv lower idText w) {enabled : Bool} {call : RefundCall}
    (hb : Benign lower idText w (enabled, .refund call)) :
    Inv lower idText (step lower idText w (enabled, .refund call)) := by
  rw [step]
  cases hcall : refundPayment w.db call with
  | error e => exact h
  | ok out =>
    obtain ⟨db, refunded⟩ := out
    dsimp only
    obtain ⟨pr, hpr, hid, rfl, -⟩ := refundPayment_spec hcall
    have hout : (⟨{ w.db with payments := setStatus w.db.payments pr.id .refunded }, refunded⟩ :
        Db × Int) ∈ (refundPayment w.db call).toOption := by
      rw [hcall]
      rfl
    obtain ⟨hzero, hnone⟩ := hb pr hpr hid _ hout
    obtain rfl : refunded = 0 := hnone
    rw [← hid]
    exact h.update hpr rfl rfl h.kept h.owned (fun id _ => leaves_refl id)
      (good_refundPayment (h.good pr hpr) hzero)

theorem step_inv (w : World) (act : Bool × Act) (h : Inv lower idText w)
    (hb : Benign lower idText w act) : Inv lower idText (step lower idText w act) := by
  obtain ⟨enabled, act⟩ := act
  cases act with
  | create pr => exact inv_create h enabled pr
  | webhook wh => exact inv_webhook h hb
  | refund call => exact inv_refund h hb

/-! ## reconciliation -/

/-- what the platform says of its payments: every reconciliation comes out even, the net cash of a
payment is what was captured of it less what was refunded, and a refunded one stays so -/
structure Agrees (w : World) : Prop where
  reconciled : ∀ tenantId, (reconcilePayments w.db tenantId).reconciled = true
  cash : ∀ pr ∈ w.db.payments,
    cashOf w.db.books pr.id = (w.told pr.id).captured - (w.told pr.id).refunded
  final : ∀ pr ∈ w.db.payments, (w.told pr.id).wasRefunded = true → pr.status ≠ .succeeded

theorem ofTenant_tenantOf (tenantId : Option String) (own : String) :
    ofTenant tenantId (tenantOf own) = ofTenant tenantId (some own) := by
  cases tenantId with
  | none => rfl
  | some t =>
    rw [ofTenant, ofTenant, tenantOf]
    by_cases hown : own = ""
    · subst hown
      by_cases ht : t = ""
      · simp [ht]
      · simp [ht, Ne.symm ht]
    · rw [if_neg hown]

theorem net_of_payment {w : World} (h : Inv lower idText w) (hpr : pr ∈ w.db.payments)
    (tenantId : Option String) :
    net (fun e => (onCash w.db.books e && ofTenant tenantId e.tenantId) && e.sourceId = some pr.id)
        w.db.books.entries =
      if ofTenant tenantId (some pr.tenantId) then cashOf w.db.books pr.id else 0 := by
  have hsame : ∀ e ∈ w.db.books.entries, onCash w.db.books e = true → e.sourceId = some pr.id →
      ofTenant tenantId e.tenantId = ofTenant tenantId (some pr.tenantId) := by
    intro e he hcash hid
    have htype := of_decide_eq_true (Bool.and_eq_true_iff.mp hcash).1
    obtain ⟨k, hk, hkid, htenant⟩ := h.owned.entries e he htype
    obtain ⟨pr', hpr', rfl⟩ := List.mem_map.mp hk
    have heq : pr'.id = pr.id := Option.some_inj.mp (hkid.symm.trans hid)
    obtain rfl : pr' = pr := List.inj_on_of_nodup_map h.ids hpr' hpr heq
    rw [htenant, ofTenant_tenantOf]
  by_cases ht : ofTenant tenantId (some pr.tenantId) = true
  · rw [if_pos ht, cashOf]
    refine total_congr fun e he => ?_
    by_cases hcash : onCash w.db.books e = true <;> by_cases hid : e.sourceId = some pr.id
    · rw [hsame e he hcash hid, ht, Bool.and_true]
    · simp [hid]
    · simp [hcash]
    · simp [hid]
  · rw [if_neg ht]
    refine total_eq_zero fun e he hx => ht ?_
    obtain ⟨hrow, hid⟩ := Bool.and_eq_true_iff.mp hx
    obtain ⟨hcash, hrow⟩ := Bool.and_eq_true_iff.mp hrow
    rw [← hsame e he hcash (of_decide_eq_true hid)]
    exact hrow

theorem Inv.reconciled {w : World} (h : Inv lower idText w) (tenantId : Option String) :
    (reconcilePayments w.db tenantId).reconciled = true := by
  apply decide_eq_true
  rw [debits_sub_credits]
  have hids : (w.db.payments.map fun pr => some pr.id).Nodup := by
    have hnodup := h.ids.map (Option.some_injective Uuid)
    rw [List.map_map] at hnodup
    exact hnodup
  have hkeys : ∀ e ∈ w.db.books.entries,
      (onCash w.db.books e && ofTenant tenantId e.tenantId) = true →
      e.sourceId ∈ w.db.payments.map fun pr => some pr.id := by
    intro e he hx
    have hcash := (Bool.and_eq_true_iff.mp hx).1
    have htype := of_decide_eq_true (Bool.and_eq_true_iff.mp hcash).1
    obtain ⟨k, hk, hkid, -⟩ := h.owned.entries e he htype
    obtain ⟨pr, hpr, rfl⟩ := List.mem_map.mp hk
    rw [hkid]
    exact List.mem_map_of_mem (f := fun pr : PaymentRequest => some pr.id) hpr
  have hnet := total_by_key (w := Entry.signed) Entry.sourceId hids hkeys
  rw [net, hnet, List.map_map]
  have hrows : ∀ pr ∈ w.db.payments,
      ((fun k => total Entry.signed (fun e =>
          (onCash w.db.books e && ofTenant tenantId e.tenantId) && decide (e.sourceId = k))
        w.db.books.entries) ∘ fun pr : PaymentRequest => some pr.id) pr =
      if PaymentRequest.captured pr && ofTenant tenantId (some pr.tenantId) then pr.amountCents
      else 0 := by
    intro pr hpr
    refine (net_of_payment h hpr tenantId).trans ?_
    rw [← (h.good pr hpr).status]
    cases ofTenant tenantId (some pr.tenantId)
    · simp
    · simp
  rw [List.map_congr_left hrows, total_eq_sum]

theorem Inv.agrees {w : World} (h : Inv lower idText w) : Agrees w :=
  ⟨h.reconciled, fun pr hpr => (h.good pr hpr).told, fun pr hpr => (h.good pr hpr).final⟩

/-- payments and books agree after every benign run -/
theorem run_agrees (lower : String → String) (idText : Uuid → String) {acts : List (Bool × Act)}
    (h : Along (step lower idText) (Benign lower idText) World.empty acts) :
    Agrees (exec (step lower idText) World.empty acts) :=
  (exec_inv step_inv inv_empty h).agrees

/-! ### runs of one payment -/

instance (w : World) : ∀ act, Decidable (Benign lower idText w act)
  | (_, .create _) => isTrue trivial
  | (enabled, .webhook wh) => inferInstanceAs (Decidable (∀ pr ∈ verifiedPayment w.db wh,
      (wh.eventType = "payment_intent.succeeded" →
        (w.told pr.id).wasRefunded = false ∧ 0 ≤ pr.amountCents ∧
          (0 < pr.amountCents →
            enabled = true ∨ onBooks w.db.books (captureOf lower idText pr) = true)) ∧
      (wh.eventType ∈ ["payment_intent.payment_failed", "checkout.session.expired"] →
        pr.status = .succeeded → pr.amountCents = 0) ∧
      (wh.eventType = "charge.refunded" →
        max (w.told pr.id).refunded wh.amountRefunded = (w.told pr.id).captured ∧
          (onBooks w.db.books (refundOf lower idText pr) ||
              decide (enabled = true ∧ 0 < pr.amountCents)) =
            onBooks w.db.books (captureOf lower idText pr))))
  | (_, .refund call) => inferInstanceAs (Decidable (∀ pr ∈ w.db.payments, pr.id = call.paymentId →
      ∀ out ∈ (refundPayment w.db call).toOption, pr.amountCents = 0 ∧ out.2 = 0))

def asked : PaymentRequest where
  id := 1
  tenantId := "acme"
  caseId := 1
  stepId := "pay"
  connectorId := some 7
  providerRef := some "pi_1"
  amountCents := 100

def event (eventType : String) (amountRefunded : Int := 0) : Bool × Act :=
  (true, .webhook ⟨eventType, some "pi_1", none, amountRefunded, "t=1,v1=ok", fun _ => true⟩)

/-- a refund through the platform, of what is asked for or of everything -/
def refundOfOne (amountCents : Option Int) : Bool × Act :=
  (true, .refund ⟨1, amountCents, true, fun pr amount => some (amount.getD pr.amountCents)⟩)

/-- captured twice over, then refunded twice over, all by webhook -/
theorem run_agrees_redelivered :
    Along (step id uuidText) (Benign id uuidText) World.empty
      [(true, .create asked), event "payment_intent.succeeded", event "payment_intent.succeeded",
        event "charge.refunded" 100, event "charge.refunded" 100] ∧
    Agrees (exec (step id uuidText) World.empty
      [(true, .create asked), event "payment_intent.succeeded", event "payment_intent.succeeded",
        event "charge.refunded" 100, event "charge.refunded" 100]) := by
  have h : Along (step id uuidText) (Benign id uuidText) World.empty
      [(true, .create asked), event "payment_intent.succeeded", event "payment_intent.succeeded",
        event "charge.refunded" 100, event "charge.refunded" 100] := by
    decide +kernel
  exact ⟨h, run_agrees id uuidText h⟩

/-- a refund through the platform leaves the capture on the books, also when it is of a part, and a
late `succeeded` puts the payment back -/
theorem refundPayment_disagrees :
    (reconcilePayments (exec (step id uuidText) World.empty
        [(true, .create asked), event "payment_intent.succeeded", refundOfOne none]).db
        none).differenceCents = -100 ∧
      ¬ Agrees (exec (step id uuidText) World.empty
        [(true, .create asked), event "payment_intent.succeeded", refundOfOne none]) ∧
      ¬ Agrees (exec (step id uuidText) World.empty
        [(true, .create asked), event "payment_intent.succeeded", refundOfOne (some 30),
          event "payment_intent.succeeded"]) := by
  refine ⟨by decide +kernel, ?_, ?_⟩
  · intro h
    have hreconciled := h.reconciled none
    revert hreconciled
    decide +kernel
  · intro h
    refine h.final { asked with status := .succeeded } ?_ ?_ rfl
    · decide +kernel
    · decide +kernel

end Payments
