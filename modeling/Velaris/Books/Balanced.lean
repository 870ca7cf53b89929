import Velaris.Base.Run
import Velaris.Base.Table
import Velaris.Base.Traverse
import Velaris.Books.Posting
import Velaris.Py.Text

/-!
# What holds of the books

* `net`   debits less credits of the entries a report selects;
* `Kept`   what every operation keeps: balance in every currency, one posting for a
    source, one reversal of a transaction, which nets it to zero;
* `OwnCurrency`   every entry is in the currency of its account;
* `InCurrency`   the operation books nothing on an account of another currency;
* `sound_iff`   the books are sound after a history exactly when every operation of it was
    in currency.
-/

namespace Books
open Py Base

/-! ## net amounts -/

def Entry.signed (e : Entry) : Int := if e.direction = .debit then e.amountCents else -e.amountCents

def net (p : Entry → Bool) (entries : List Entry) : Int := total Entry.signed p entries

theorem debits_sub_credits (p : Entry → Bool) (entries : List Entry) :
    debitsOf p entries - creditsOf p entries = net p entries := by
  induction entries with
  | nil => rfl
  | cons e es ih =>
    rw [debitsOf, creditsOf, net, total_cons, total_cons, total_cons]
    rw [debitsOf, creditsOf, net] at ih
    rcases hd : e.direction <;> cases p e <;> simp [hd, Entry.signed] <;> omega

variable {books : Journal}

/-! ## transactions -/

theorem net_entryOf (txn : Transaction) (checked : List Checked) :
    net (fun _ => true) (checked.map (entryOf txn)) =
      (checked.map Checked.debitCents).sum - (checked.map Checked.creditCents).sum := by
  induction checked with
  | nil => rfl
  | cons c cs ih =>
    rw [net] at ih
    rw [List.map_cons, net, total_cons, ih, List.map_cons, List.map_cons, List.sum_cons,
      List.sum_cons]
    rcases hd : c.direction <;>
      simp [entryOf, Entry.signed, Checked.debitCents, Checked.creditCents, hd] <;> omega

theorem post_new {p : Posting} {posted : Journal × Transaction} (hnew : already books p = none)
    (h : post books p = .ok posted) :
    ∃ checked, checkLines 0 p.lines = .ok checked ∧
      net (fun _ => true) (checked.map (entryOf (transactionOf books p))) = 0 ∧
      posted = ({ books with
        transactions := books.transactions ++ [transactionOf books p],
        entries := books.entries ++ checked.map (entryOf (transactionOf books p)) },
        transactionOf books p) := by
  rw [post, hnew] at h
  dsimp only at h
  split at h
  · cases h
  · obtain ⟨checked, hchecked, h⟩ := exists_of_bind_ok h
    split at h
    · cases h
    · rename_i hbal
      cases h
      refine ⟨checked, hchecked, ?_, rfl⟩
      rw [net_entryOf, not_ne_iff.mp hbal, sub_self]

/-! ## reversals -/

def mirror (e : Entry) : Checked :=
  ⟨e.accountId, e.direction.flip, e.amountCents, (flipped e).description⟩

theorem checkLines_flipped {es : List Entry} {i : Nat} {checked : List Checked}
    (h : checkLines i (es.map flipped) = .ok checked) : checked = es.map mirror := by
  induction es generalizing i checked with
  | nil =>
    cases h
    rfl
  | cons e es ih =>
    rw [List.map_cons, checkLines] at h
    obtain ⟨c, hc, h⟩ := exists_of_bind_ok h
    obtain ⟨cs, hcs, h⟩ := exists_of_bind_ok h
    cases h
    rw [ih hcs, List.map_cons]
    refine congrArg (· :: _) ?_
    rw [checkLine] at hc
    have hdir : directionOf (flipped e).direction = some e.direction.flip := by
      rcases hd : e.direction <;> simp [flipped, hd, Direction.flip, Direction.text, directionOf]
    rw [hdir] at hc
    simp only [flipped] at hc
    split at hc
    · cases hc
    · cases hc
      rfl

theorem signed_mirror (txn : Transaction) (e : Entry) :
    (entryOf txn (mirror e)).signed = -e.signed := by
  rcases hd : e.direction <;> simp [entryOf, mirror, Entry.signed, hd, Direction.flip]

theorem net_mirror (txn : Transaction) (transactionId accountId : Uuid) (entries : List Entry) :
    net (fun e => e.transactionId = txn.id && e.accountId = accountId)
        (((entries.filter (·.transactionId = transactionId)).map mirror).map (entryOf txn)) =
      -net (fun e => e.transactionId = transactionId && e.accountId = accountId) entries := by
  have hneg : net (fun e => e.transactionId = txn.id && e.accountId = accountId)
      ((entries.filter (·.transactionId = transactionId)).map (entryOf txn ∘ mirror)) =
      -total Entry.signed (·.accountId = accountId)
        (entries.filter (·.transactionId = transactionId)) :=
    total_neg (fun e _ => signed_mirror txn e) fun e _ => by
      simp only [entryOf, mirror, Function.comp, decide_true, Bool.true_and]
      rfl
  rw [List.map_map, hneg, total_filter]
  rfl

/-! ## what every operation keeps -/

def postedFor (sourceType : String) (sourceId : Uuid) (purpose : String) (t : Transaction) : Bool :=
  t.sourceType = some sourceType && t.sourceId = some sourceId && t.purpose = some purpose

structure Kept (books : Journal) : Prop where
  accountIds : (books.accounts.map (·.id)).Nodup
  ids : (books.transactions.map (·.id)).Nodup
  owned : ∀ e ∈ books.entries, e.transactionId ∈ books.transactions.map (·.id)
  booked : ∀ e ∈ books.entries, e.accountId ∈ books.accounts.map (·.id)
  currency : ∀ e ∈ books.entries, ∀ t ∈ books.transactions, t.id = e.transactionId →
    e.currency = t.currency
  reverses : ∀ t ∈ books.transactions, ∀ id ∈ t.reversesId,
    id ∈ books.transactions.map (·.id)
  balanced : ∀ currency, net (·.currency = currency) books.entries = 0
  once : ∀ sourceType sourceId purpose,
    (books.transactions.filter (postedFor sourceType sourceId purpose)).length ≤ 1
  reversedOnce : ∀ id, (books.transactions.filter (·.reversesId = some id)).length ≤ 1
  nets : ∀ t ∈ books.transactions, ∀ id ∈ t.reversesId, ∀ accountId,
    net (fun e => e.transactionId = id && e.accountId = accountId) books.entries +
      net (fun e => e.transactionId = t.id && e.accountId = accountId) books.entries = 0

theorem kept_empty : Kept .empty := by
  constructor <;> simp [Journal.empty, net]

/-- accounts may be added, under ids of their own -/
theorem Kept.open {books' : Journal} (h : Kept books)
    (htransactions : books'.transactions = books.transactions)
    (hentries : books'.entries = books.entries) {more : List Account}
    (haccounts : books'.accounts = books.accounts ++ more)
    (hids : (books'.accounts.map (·.id)).Nodup) : Kept books' := by
  obtain ⟨accounts', transactions', entries'⟩ := books'
  obtain rfl : transactions' = books.transactions := htransactions
  obtain rfl : entries' = books.entries := hentries
  obtain rfl : accounts' = books.accounts ++ more := haccounts
  refine ⟨hids, h.ids, h.owned, ?_, h.currency, h.reverses, h.balanced, h.once, h.reversedOnce, h.nets⟩
  intro e he
  rw [List.map_append]
  exact List.mem_append_left _ (h.booked e he)

/-- a transaction with entries of its own, in one currency and in balance -/
structure Adds (books : Journal) (txn : Transaction) (entries : List Entry) : Prop where
  new : txn.id ∉ books.transactions.map (·.id)
  own : ∀ e ∈ entries, e.transactionId = txn.id
  currency : ∀ e ∈ entries, e.currency = txn.currency
  booked : ∀ e ∈ entries, e.accountId ∈ books.accounts.map (·.id)
  net : net (fun _ => true) entries = 0
  unposted : ∀ sourceType sourceId purpose, postedFor sourceType sourceId purpose txn →
    ∀ t ∈ books.transactions, ¬ postedFor sourceType sourceId purpose t
  reverses : ∀ id ∈ txn.reversesId, id ∈ books.transactions.map (·.id) ∧
    (∀ t ∈ books.transactions, t.reversesId ≠ some id) ∧
    ∀ accountId, Books.net (fun e => e.transactionId = txn.id && e.accountId = accountId) entries =
      -Books.net (fun e => e.transactionId = id && e.accountId = accountId) books.entries

theorem net_append (p : Entry → Bool) (es fs : List Entry) :
    net p (es ++ fs) = net p es + net p fs := total_append es fs

theorem length_filter_concat_le {α : Type} {p : α → Bool} {xs : List α} {x : α}
    (h : (xs.filter p).length ≤ 1) (hx : p x → ∀ y ∈ xs, ¬ p y) :
    ((xs ++ [x]).filter p).length ≤ 1 := by
  rw [List.filter_append, List.length_append]
  by_cases hp : p x = true
  · have hnil : xs.filter p = [] := List.filter_eq_nil_iff.mpr (hx hp)
    rw [hnil, List.filter_cons_of_pos hp]
    exact le_refl 1
  · rw [List.filter_cons_of_neg hp]
    exact h

theorem Kept.add (h : Kept books) {txn : Transaction} {entries : List Entry}
    (ha : Adds books txn entries) :
    Kept { books with
      transactions := books.transactions ++ [txn], entries := books.entries ++ entries } := by
  have hold : ∀ id ∈ books.transactions.map (·.id), ∀ accountId,
      net (fun e => e.transactionId = id && e.accountId = accountId) entries = 0 := by
    intro id hid accountId
    refine total_eq_zero fun e he hx => ha.new ?_
    have hxid : e.transactionId = id := of_decide_eq_true (Bool.and_eq_true_iff.mp hx).1
    rw [← ha.own e he, hxid]
    exact hid
  have hnew : ∀ accountId,
      net (fun e => e.transactionId = txn.id && e.accountId = accountId) books.entries = 0 := by
    intro accountId
    refine total_eq_zero fun e he hx => ha.new ?_
    have hxid : e.transactionId = txn.id := of_decide_eq_true (Bool.and_eq_true_iff.mp hx).1
    rw [← hxid]
    exact h.owned e he
  refine ⟨h.accountIds, ?_, ?_, ?_, ?_, ?_, ?_, ?_, ?_, ?_⟩ <;> dsimp only
  · rw [List.map_append]
    refine h.ids.append (List.nodup_singleton _) ?_
    intro x hx hx'
    obtain rfl := List.mem_singleton.mp hx'
    exact ha.new hx
  · intro e he
    rw [List.map_append]
    rcases List.mem_append.mp he with he | he
    · exact List.mem_append_left _ (h.owned e he)
    · rw [ha.own e he]
      exact List.mem_append_right _ (List.mem_singleton_self _)
  · intro e he
    rcases List.mem_append.mp he with he | he
    · exact h.booked e he
    · exact ha.booked e he
  · intro e he t ht hid
    rcases List.mem_append.mp he with he | he <;> rcases List.mem_append.mp ht with ht | ht
    · exact h.currency e he t ht hid
    · obtain rfl := List.mem_singleton.mp ht
      exact absurd (hid ▸ h.owned e he) ha.new
    · rw [ha.own e he] at hid
      exact absurd (hid ▸ List.mem_map_of_mem ht) ha.new
    · obtain rfl := List.mem_singleton.mp ht
      exact ha.currency e he
  · intro t ht id hid
    rw [List.map_append]
    refine List.mem_append_left _ ?_
    rcases List.mem_append.mp ht with ht | ht
    · exact h.reverses t ht id hid
    · obtain rfl := List.mem_singleton.mp ht
      exact (ha.reverses id hid).1
  · intro currency
    rw [net_append, h.balanced currency, zero_add]
    by_cases hc : txn.currency = currency
    · refine (total_congr fun e he => ?_).trans ha.net
      rw [ha.currency e he]
      exact decide_eq_true hc
    · refine total_eq_zero fun e he hx => hc ?_
      rw [← ha.currency e he]
      exact of_decide_eq_true hx
  · intro sourceType sourceId purpose
    exact length_filter_concat_le (h.once sourceType sourceId purpose)
      (ha.unposted sourceType sourceId purpose)
  · intro id
    refine length_filter_concat_le (h.reversedOnce id) fun hx t ht hx' => ?_
    exact (ha.reverses id (of_decide_eq_true hx)).2.1 t ht (of_decide_eq_true hx')
  · intro t ht id hid accountId
    rw [net_append, net_append]
    rcases List.mem_append.mp ht with ht | ht
    · rw [hold id (h.reverses t ht id hid), hold t.id (List.mem_map_of_mem ht), add_zero, add_zero]
      exact h.nets t ht id hid accountId
    · obtain rfl := List.mem_singleton.mp ht
      obtain ⟨hmem, -, hflip⟩ := ha.reverses id hid
      rw [hold id hmem, hnew, hflip]
      omega

/-! ## the operations -/

theorem transactionOf_id_notMem (books : Journal) (p : Posting) :
    (transactionOf books p).id ∉ books.transactions.map (·.id) := fresh_notMem _

theorem unposted_of_already {p : Posting} (h : already books p = none) {sourceType purpose : String}
    (hs : sourceType ≠ "") (hp : purpose ≠ "") {sourceId : Uuid}
    (hkey : p.sourceType = some sourceType ∧ p.sourceId = some sourceId ∧ p.purpose = some purpose) :
    ∀ t ∈ books.transactions, ¬ postedFor sourceType sourceId purpose t := by
  obtain ⟨h₁, h₂, h₃⟩ := hkey
  have hcond : p.sourceType.any (· ≠ "") ∧ p.sourceId.isSome ∧ p.purpose.any (· ≠ "") := by
    simp [h₁, h₂, h₃, hs, hp]
  rw [already, if_pos hcond, List.find?_eq_none] at h
  intro t ht hx
  refine h t ht ?_
  rw [h₁, h₂, h₃]
  exact hx

def Movement.Keyed (m : Movement) : Prop := m.sourceType ≠ "" ∧ m.purpose ≠ ""

variable {m : Movement}

theorem kept_accounts (h : Kept books) (m : Movement) : Kept (m.accounts books).1 := by
  have ho := accounts_spec books m
  obtain ⟨more, hmore, -⟩ := ho.accounts
  exact h.open ho.transactions ho.entries hmore (ho.ids h.accountIds)

theorem movement_entries_facts {txn : Transaction} {cash other : Account} {e : Entry}
    (he : e ∈ m.entries txn cash other) :
    e.transactionId = txn.id ∧ e.currency = txn.currency ∧
      (e.accountId = cash.id ∨ e.accountId = other.id) := by
  simp only [Movement.entries, List.mem_cons, List.not_mem_nil, or_false] at he
  cases hc : m.cashDebited <;> rcases he with rfl | rfl <;> simp [entryOf, hc]

theorem net_movement (txn : Transaction) (cash other : Account) :
    net (fun _ => true) (m.entries txn cash other) = 0 := by
  have h := net_entryOf txn [⟨(if m.cashDebited then cash else other).id, .debit, m.amountCents,
    some m.lineText⟩, ⟨(if m.cashDebited then other else cash).id, .credit, m.amountCents,
    some m.lineText⟩]
  refine h.trans ?_
  simp [Checked.debitCents, Checked.creditCents]

theorem kept_postMovement (h : Kept books) (hkey : m.Keyed) (postingEnabled : Bool) :
    Kept (postMovement postingEnabled books m).1 := by
  rw [postMovement_eq]
  have ho := accounts_spec books m
  have hk := kept_accounts h m
  split
  · rename_i hposts
    refine hk.add ⟨transactionOf_id_notMem _ _, ?_, ?_, ?_, net_movement .., ?_, ?_⟩
    · exact fun e he => (movement_entries_facts he).1
    · exact fun e he => (movement_entries_facts he).2.1
    · intro e he
      rcases (movement_entries_facts he).2.2 with hacc | hacc
      · rw [hacc]
        exact List.mem_map_of_mem ho.mem.1
      · rw [hacc]
        exact List.mem_map_of_mem ho.mem.2
    · intro sourceType sourceId purpose hx
      have hsame : m.posted? (m.accounts books).1 = none := by
        rw [Movement.posted?, already, ho.transactions]
        exact hposts.2.2
      simp only [postedFor, transactionOf, Movement.posting, Bool.and_eq_true, decide_eq_true_eq,
        Option.some.injEq] at hx
      obtain ⟨⟨rfl, rfl⟩, rfl⟩ := hx
      exact unposted_of_already hsame hkey.1 hkey.2 ⟨rfl, rfl, rfl⟩
    · intro id hid
      cases hid
  · split
    · exact hk
    · exact h

theorem already_reversal {p : Posting} (h : p.sourceType = none) : already books p = none :=
  if_neg fun hx => by simp [h] at hx

/-- what a reversal adds: a transaction that names the one it reverses, the first to do so, with
its entries flipped -/
theorem reverse_ok {idText : Uuid → String} {transactionId : Uuid} {postedBy : String}
    {reason : Option String} {posted : Journal × Transaction}
    (hok : reverse idText books transactionId postedBy reason = .ok posted) :
    ∃ original p, original ∈ books.transactions ∧ original.id = transactionId ∧
      (∀ t ∈ books.transactions, t.reversesId ≠ some transactionId) ∧
      p.sourceType = none ∧ p.currency = original.currency ∧ p.reversesId = some transactionId ∧
      net (fun _ => true) (((books.entries.filter (·.transactionId = transactionId)).map mirror).map
        (entryOf (transactionOf books p))) = 0 ∧
      posted.1 = { books with
        transactions := books.transactions ++ [transactionOf books p]
        entries := books.entries ++
          ((books.entries.filter (·.transactionId = transactionId)).map mirror).map
            (entryOf (transactionOf books p)) } := by
  rw [reverse] at hok
  cases horig : books.transaction? transactionId with
  | none =>
    rw [horig] at hok
    cases hok
  | some original =>
    rw [horig] at hok
    dsimp only at hok
    split at hok
    · cases hok
    · rename_i hfirst
      obtain ⟨checked, hchecked, hnet, rfl⟩ := post_new (already_reversal rfl) hok
      obtain rfl := checkLines_flipped hchecked
      have hid := List.find?_some horig
      refine ⟨original, _, List.mem_of_find?_eq_some horig, of_decide_eq_true hid, ?_, rfl, rfl, rfl,
        hnet, rfl⟩
      intro t ht ht'
      exact hfirst (List.any_eq_true.mpr ⟨t, ht, decide_eq_true ht'⟩)

theorem mem_mirrored {txn : Transaction} {transactionId : Uuid} {e : Entry}
    (he : e ∈ ((books.entries.filter (·.transactionId = transactionId)).map mirror).map
      (entryOf txn)) :
    ∃ e' ∈ books.entries, e'.transactionId = transactionId ∧ e = entryOf txn (mirror e') := by
  obtain ⟨c, hc, rfl⟩ := List.mem_map.mp he
  obtain ⟨e', he', rfl⟩ := List.mem_map.mp hc
  have hid := (List.mem_filter.mp he').2
  exact ⟨e', List.mem_of_mem_filter he', of_decide_eq_true hid, rfl⟩

theorem kept_reverse (h : Kept books) {idText : Uuid → String} {transactionId : Uuid}
    {postedBy : String} {reason : Option String} {posted : Journal × Transaction}
    (hok : reverse idText books transactionId postedBy reason = .ok posted) : Kept posted.1 := by
  obtain ⟨original, p, hmem, hid, hfirst, hsource, -, hreverses, hnet, hposted⟩ := reverse_ok hok
  rw [hposted]
  refine h.add ⟨transactionOf_id_notMem _ _, ?_, ?_, ?_, hnet, ?_, ?_⟩
  · intro e he
    obtain ⟨e', -, -, rfl⟩ := mem_mirrored he
    rfl
  · intro e he
    obtain ⟨e', -, -, rfl⟩ := mem_mirrored he
    rfl
  · intro e he
    obtain ⟨e', he', -, rfl⟩ := mem_mirrored he
    exact h.booked e' he'
  · intro sourceType sourceId purpose hx
    simp [postedFor, transactionOf, hsource] at hx
  · intro id hx
    obtain rfl : transactionId = id := Option.some.inj (hreverses.symm.trans hx)
    refine ⟨hid ▸ List.mem_map_of_mem hmem, hfirst, ?_⟩
    exact fun accountId => net_mirror _ transactionId accountId books.entries

/-! ## currencies -/

/-- every entry is in the currency of the account it is booked on -/
def OwnCurrency (books : Journal) : Prop :=
  ∀ e ∈ books.entries, ∃ a, books.account? e.accountId = some a ∧ a.currency = e.currency

def Mixed (books : Journal) : Prop :=
  ∃ e ∈ books.entries, ∃ a, books.account? e.accountId = some a ∧ a.currency ≠ e.currency

theorem OwnCurrency.not_mixed (h : OwnCurrency books) : ¬ Mixed books := by
  intro hx
  obtain ⟨e, he, a, ha, hne⟩ := hx
  obtain ⟨b, hb, heq⟩ := h e he
  obtain rfl : a = b := Option.some.inj (ha.symm.trans hb)
  exact hne heq

def Movement.InCurrency (postingEnabled : Bool) (books : Journal) (m : Movement) : Prop :=
  m.Posts postingEnabled books →
    (∀ a ∈ books.accountFor CASH_CODE m.tenantId, a.currency = m.currency) ∧
      ∀ a ∈ books.accountFor m.code m.tenantId, a.currency = m.currency

theorem account?_append {books books' : Journal} {more : List Account}
    (h : books'.accounts = books.accounts ++ more) {id : Uuid} {a : Account}
    (ha : books.account? id = some a) : books'.account? id = some a := by
  rw [Journal.account?, h, List.find?_append]
  rw [Journal.account?] at ha
  rw [ha]
  rfl

theorem account?_of_mem (hids : (books.accounts.map (·.id)).Nodup) {a : Account}
    (ha : a ∈ books.accounts) : books.account? a.id = some a :=
  (find?_key_iff hids).mpr ⟨ha, rfl⟩

/-- books that grow keep what their old entries say of currencies -/
structure Grows (books books' : Journal) : Prop where
  accounts : ∃ more, books'.accounts = books.accounts ++ more
  entries : ∃ more, books'.entries = books.entries ++ more

theorem Mixed.grows {books' : Journal} (h : Mixed books) (hg : Grows books books') :
    Mixed books' := by
  obtain ⟨e, he, a, ha, hne⟩ := h
  obtain ⟨accounts, haccounts⟩ := hg.accounts
  obtain ⟨entries, hentries⟩ := hg.entries
  refine ⟨e, ?_, a, account?_append haccounts ha, hne⟩
  rw [hentries]
  exact List.mem_append_left _ he

theorem postMovement_grows (postingEnabled : Bool) (books : Journal) (m : Movement) :
    Grows books (postMovement postingEnabled books m).1 := by
  have ho := accounts_spec books m
  obtain ⟨more, hmore, -⟩ := ho.accounts
  rw [postMovement_eq]
  split
  · refine ⟨⟨more, hmore⟩, ?_⟩
    dsimp only
    rw [ho.entries]
    exact ⟨_, rfl⟩
  · split
    · refine ⟨⟨more, hmore⟩, [], ?_⟩
      rw [ho.entries, List.append_nil]
    · exact ⟨⟨[], (List.append_nil _).symm⟩, [], (List.append_nil _).symm⟩

theorem OwnCurrency.accounts (h : OwnCurrency books) {books' : Journal} {more : List Account}
    (haccounts : books'.accounts = books.accounts ++ more) (hentries : books'.entries = books.entries) :
    OwnCurrency books' := by
  intro e he
  rw [hentries] at he
  obtain ⟨a, ha, hc⟩ := h e he
  exact ⟨a, account?_append haccounts ha, hc⟩

theorem ownCurrency_postMovement (hk : Kept books) (h : OwnCurrency books) {postingEnabled : Bool}
    (hin : m.InCurrency postingEnabled books) :
    OwnCurrency (postMovement postingEnabled books m).1 := by
  have ho := accounts_spec books m
  obtain ⟨more, hmore, -⟩ := ho.accounts
  have hopened := h.accounts hmore ho.entries
  rw [postMovement_eq]
  split
  · rename_i hposts
    obtain ⟨hcash, hother⟩ := ho.currencies (hin hposts).1 (hin hposts).2
    have hids := ho.ids hk.accountIds
    intro e he
    rcases List.mem_append.mp he with he | he
    · exact hopened e he
    · obtain ⟨-, hcur, hacc⟩ := movement_entries_facts he
      have hcur : e.currency = m.currency := hcur
      rcases hacc with hacc | hacc
      · refine ⟨(m.accounts books).2.1, ?_, hcash.trans hcur.symm⟩
        rw [hacc]
        exact account?_of_mem hids ho.mem.1
      · refine ⟨(m.accounts books).2.2, ?_, hother.trans hcur.symm⟩
        rw [hacc]
        exact account?_of_mem hids ho.mem.2
  · split
    · exact hopened
    · exact h

theorem exists_movement_entry (txn : Transaction) (cash other : Account) {a : Account}
    (ha : a = cash ∨ a = other) : ∃ e ∈ m.entries txn cash other, e.accountId = a.id ∧
      e.currency = txn.currency := by
  cases hc : m.cashDebited <;> rcases ha with rfl | rfl <;> simp [Movement.entries, entryOf, hc]

theorem mixed_postMovement (hk : Kept books) {postingEnabled : Bool}
    (hin : ¬ m.InCurrency postingEnabled books) :
    Mixed (postMovement postingEnabled books m).1 := by
  have ho := accounts_spec books m
  have hids := ho.ids hk.accountIds
  rw [Movement.InCurrency, Classical.not_imp] at hin
  obtain ⟨hposts, hbad⟩ := hin
  rw [postMovement_eq, if_pos hposts]
  have hfound : ∃ a, (a = (m.accounts books).2.1 ∨ a = (m.accounts books).2.2) ∧
      a ∈ (m.accounts books).1.accounts ∧ a.currency ≠ m.currency := by
    by_contra hall
    refine hbad ⟨fun a ha => ?_, fun a ha => ?_⟩
    · by_contra hne
      rw [← ho.cashFound a ha] at hne
      exact hall ⟨_, Or.inl rfl, ho.mem.1, hne⟩
    · by_contra hne
      rw [← ho.otherFound a ha] at hne
      exact hall ⟨_, Or.inr rfl, ho.mem.2, hne⟩
  obtain ⟨a, ha, hmem, hne⟩ := hfound
  obtain ⟨e, he, hacc, hcur⟩ := exists_movement_entry (m := m)
    (transactionOf (m.accounts books).1 (m.posting (m.accounts books).2.1 (m.accounts books).2.2))
    (m.accounts books).2.1 (m.accounts books).2.2 ha
  refine ⟨e, List.mem_append_right _ he, a, ?_, ?_⟩
  · rw [hacc]
    exact account?_of_mem hids hmem
  · rw [hcur]
    exact hne

/-! ## histories -/

inductive Op where
  | capture (pr : PaymentRequest)
  | refund (pr : PaymentRequest)
  | disburse (disb : PaymentDisbursement)
  | reverse (transactionId : Uuid) (postedBy : String) (reason : Option String)

section
variable (lower : String → String) (idText : Uuid → String)

def Op.movement? : Op → Option Movement
  | .capture pr => some (captureOf lower idText pr)
  | .refund pr => some (refundOf lower idText pr)
  | .disburse disb => some (disbursementOf lower idText disb)
  | .reverse .. => none

/-- an operation, with the setting `ledger_posting_enabled` of its time -/
def step (books : Journal) : Bool × Op → Journal
  | (enabled, .capture pr) => (postCapture lower idText enabled books pr).1
  | (enabled, .refund pr) => (postRefund lower idText enabled books pr).1
  | (enabled, .disburse disb) => (postDisbursement lower idText enabled books disb).1
  | (_, .reverse transactionId postedBy reason) =>
    match reverse idText books transactionId postedBy reason with
    | .ok posted => posted.1
    | .error _ => books

/-- the operation posts nothing on an account of another currency -/
def InCurrency (books : Journal) (act : Bool × Op) : Prop :=
  ∀ m ∈ act.2.movement? lower idText, m.InCurrency act.1 books

end

structure Sound (books : Journal) : Prop where
  balanced : ∀ currency, debitsOf (·.currency = currency) books.entries =
    creditsOf (·.currency = currency) books.entries
  once : ∀ sourceType sourceId purpose,
    (books.transactions.filter (postedFor sourceType sourceId purpose)).length ≤ 1
  reversedOnce : ∀ id, (books.transactions.filter (·.reversesId = some id)).length ≤ 1
  nets : ∀ t ∈ books.transactions, ∀ id ∈ t.reversesId, ∀ accountId,
    net (fun e => e.transactionId = id && e.accountId = accountId) books.entries +
      net (fun e => e.transactionId = t.id && e.accountId = accountId) books.entries = 0
  ownCurrency : OwnCurrency books
  /-- `balance` of an account adds amounts of one currency -/
  oneCurrency : ∀ e ∈ books.entries, ∀ f ∈ books.entries, e.accountId = f.accountId →
    e.currency = f.currency

variable {lower : String → String} {idText : Uuid → String}

theorem Kept.sound_iff_ownCurrency (h : Kept books) : Sound books ↔ OwnCurrency books := by
  constructor
  · exact fun hs => hs.ownCurrency
  · intro hown
    refine ⟨fun currency => ?_, h.once, h.reversedOnce, h.nets, hown, ?_⟩
    · have hsub := debits_sub_credits (·.currency = currency) books.entries
      rw [h.balanced] at hsub
      omega
    · intro e he f hf hacc
      obtain ⟨a, ha, hae⟩ := hown e he
      obtain ⟨b, hb, hbf⟩ := hown f hf
      rw [hacc] at ha
      obtain rfl : a = b := Option.some.inj (ha.symm.trans hb)
      exact hae.symm.trans hbf

theorem movement?_keyed {op : Op} {m : Movement} (h : m ∈ op.movement? lower idText) : m.Keyed := by
  have hkeys : (SOURCE_PAYMENT ≠ "" ∧ SOURCE_DISBURSEMENT ≠ "") ∧
      CAPTURE ≠ "" ∧ REFUND ≠ "" ∧ DISBURSE ≠ "" := by decide
  obtain ⟨⟨hpayment, hdisbursement⟩, hcapture, hrefund, hdisburse⟩ := hkeys
  cases op <;> cases h
  · exact ⟨hpayment, hcapture⟩
  · exact ⟨hpayment, hrefund⟩
  · exact ⟨hdisbursement, hdisburse⟩

theorem step_eq_movement {op : Op} {m : Movement} (h : m ∈ op.movement? lower idText)
    (enabled : Bool) (books : Journal) :
    step lower idText books (enabled, op) = (postMovement enabled books m).1 := by
  cases op <;> cases h <;> rfl

theorem step_kept (h : Kept books) (act : Bool × Op) : Kept (step lower idText books act) := by
  obtain ⟨enabled, op⟩ := act
  cases hm : op.movement? lower idText with
  | some m =>
    rw [step_eq_movement hm]
    exact kept_postMovement h (movement?_keyed hm) enabled
  | none =>
    cases op with
    | capture pr | refund pr | disburse disb => cases hm
    | reverse transactionId postedBy reason =>
      rw [step]
      cases hok : reverse idText books transactionId postedBy reason with
      | error e => exact h
      | ok posted => exact kept_reverse h hok

theorem ownCurrency_reverse (hk : Kept books) (h : OwnCurrency books) {transactionId : Uuid}
    {postedBy : String} {reason : Option String} {posted : Journal × Transaction}
    (hok : reverse idText books transactionId postedBy reason = .ok posted) :
    OwnCurrency posted.1 := by
  obtain ⟨original, p, hmem, hid, -, -, hcurrency, -, -, hposted⟩ := reverse_ok hok
  rw [hposted]
  intro e he
  rcases List.mem_append.mp he with he | he
  · exact h e he
  · obtain ⟨e', he', hid', rfl⟩ := mem_mirrored he
    obtain ⟨a, ha, hc⟩ := h e' he'
    -- the flipped entry was in the currency of the transaction that is reversed
    have hsame : e'.currency = original.currency :=
      hk.currency e' he' original hmem (hid.trans hid'.symm)
    exact ⟨a, ha, hc.trans (hsame.trans hcurrency.symm)⟩

theorem step_grows (books : Journal) (act : Bool × Op) :
    Grows books (step lower idText books act) := by
  obtain ⟨enabled, op⟩ := act
  have hsame : Grows books books := ⟨⟨[], (List.append_nil _).symm⟩, [], (List.append_nil _).symm⟩
  cases hm : op.movement? lower idText with
  | some m =>
    rw [step_eq_movement hm]
    exact postMovement_grows enabled books m
  | none =>
    cases op with
    | capture pr | refund pr | disburse disb => cases hm
    | reverse transactionId postedBy reason =>
      rw [step]
      cases hok : reverse idText books transactionId postedBy reason with
      | error e => exact hsame
      | ok posted =>
        obtain ⟨original, p, -, -, -, -, -, -, -, hposted⟩ := reverse_ok hok
        show Grows books posted.1
        rw [hposted]
        exact ⟨⟨[], (List.append_nil _).symm⟩, _, rfl⟩

theorem step_ownCurrency (hk : Kept books) (h : OwnCurrency books) {act : Bool × Op}
    (hin : InCurrency lower idText books act) : OwnCurrency (step lower idText books act) := by
  obtain ⟨enabled, op⟩ := act
  cases hm : op.movement? lower idText with
  | some m =>
    rw [step_eq_movement hm]
    exact ownCurrency_postMovement hk h (hin m hm)
  | none =>
    cases op with
    | capture pr | refund pr | disburse disb => cases hm
    | reverse transactionId postedBy reason =>
      rw [step]
      cases hok : reverse idText books transactionId postedBy reason with
      | error e => exact h
      | ok posted => exact ownCurrency_reverse hk h hok

theorem step_mixed (hk : Kept books) {act : Bool × Op} (hin : ¬ InCurrency lower idText books act) :
    Mixed (step lower idText books act) := by
  obtain ⟨enabled, op⟩ := act
  rw [InCurrency, not_forall] at hin
  obtain ⟨m, hin⟩ := hin
  obtain ⟨hm, hin⟩ := Classical.not_imp.mp hin
  rw [step_eq_movement hm]
  exact mixed_postMovement hk hin

theorem run_kept (acts : List (Bool × Op)) : Kept (exec (step lower idText) .empty acts) :=
  exec_inv' (I := Kept) (fun _ act h => step_kept h act) acts kept_empty

theorem mixed_exec (h : Mixed books) (acts : List (Bool × Op)) :
    Mixed (exec (step lower idText) books acts) :=
  exec_inv' (I := Mixed) (fun books act h => h.grows (step_grows books act)) acts h

/-- the ledger is sound after a history of one or more tenants exactly when every posting of it was
in the currency of the accounts it found -/
theorem sound_iff (lower : String → String) (idText : Uuid → String) (acts : List (Bool × Op)) :
    Sound (exec (step lower idText) .empty acts) ↔
      Along (step lower idText) (InCurrency lower idText) .empty acts := by
  rw [(run_kept acts).sound_iff_ownCurrency]
  constructor
  · intro hown
    by_contra hnot
    obtain ⟨bs, act, cs, rfl, -, hbad⟩ := exists_first_of_not_along _ hnot
    have hmixed := step_mixed (run_kept bs) hbad
    rw [exec_append] at hown
    exact hown.not_mixed (mixed_exec hmixed cs)
  · intro hin
    have hempty : Kept .empty ∧ OwnCurrency .empty := ⟨kept_empty, fun e he => by cases he⟩
    exact (exec_inv (I := fun books => Kept books ∧ OwnCurrency books)
      (fun books act h hact => ⟨step_kept h.1 act, step_ownCurrency h.1 h.2 hact⟩) hempty hin).2

/-! ### two captures in two currencies -/

def paid (id : Uuid) (currency : String) : PaymentRequest where
  id := id
  tenantId := "acme"
  caseId := 1
  stepId := "pay"
  connectorId := none
  providerRef := none
  amountCents := 500
  currency := currency

theorem euros_on_dollars_unsound :
    ¬ Sound (exec (step id uuidText) .empty
      [(true, .capture (paid 1 "usd")), (true, .capture (paid 2 "eur"))]) := by
  intro h
  refine h.ownCurrency.not_mixed ⟨entryOf ⟨2, none, "eur", some SOURCE_PAYMENT, some 2,
    some CAPTURE, some 1, some "acme", some "stripe_webhook", none⟩ ⟨1, .debit, 500,
    some "payment captured"⟩, ?_, ⟨1, CASH_CODE, CASH_NAME, .asset, "usd", some "acme"⟩, ?_, ?_⟩
  · decide +kernel
  · decide +kernel
  · decide

end Books
