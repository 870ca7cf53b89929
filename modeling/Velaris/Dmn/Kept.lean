import Velaris.Dmn.Collapsed
import Velaris.Dmn.Evaluate
import Mathlib.Data.String.Basic
import Mathlib.Tactic.Linarith

/-!
# Where the imported condition says what the cell says

The evaluator compares with Python's operators: `True` is 1, and an order between a number and a
string, or with `None`, raises.

* `asks`   what an imported rule asks of the value of a column;
* `Test.Kept`   the values, by their kind, on which the import keeps the meaning of a test;
* `kept_iff`   it does so on these and on no others.
-/

namespace Feel

def Datum.number? : Datum → Option ℚ
  | .number q => some q
  | .boolean b => some (if b then 1 else 0)
  | _ => none

/-- a list of literals, where Python's `==` on data of the kind finds what equality finds -/
def Told (ds : List Datum) : Kind → Prop
  | .number => (.boolean true ∈ ds → .number 1 ∈ ds) ∧ (.boolean false ∈ ds → .number 0 ∈ ds)
  | .boolean => (.number 1 ∈ ds → .boolean true ∈ ds) ∧ (.number 0 ∈ ds → .boolean false ∈ ds)
  | .string => ∀ d ∈ ds, d.squeezed = d
  | .null => True

/-- a test that neither of the numbers a boolean is taken for passes -/
def Test.BooleansFail (t : Test) : Prop :=
  t.holds (.number 0) = false ∧ t.holds (.number 1) = false

def Test.Kept : Test → Kind → Prop
  | .any, _ => True
  | .equals d, k => (d = .null → k = .null) ∧ Told [d] k
  | .differs d, k => Told [d] k
  | .oneOf ds, k => Told ds k
  | .noneOf ds, k => Told ds k
  | .compare _ (.number _), .number => True
  | .compare _ (.string s), .string => (Datum.string s).squeezed = .string s
  | .compare r (.number q), .boolean => (Test.compare r (.number q)).BooleansFail
  | .compare r (.boolean b), .boolean =>
    (Test.compare r (.number (if b then 1 else 0))).BooleansFail
  | .compare _ _, _ => False
  | .range _ _ _ _, .number => True
  | .range openLow low high openHigh, .boolean =>
    (Test.range openLow low high openHigh).BooleansFail
  | .range _ _ _ _, _ => False

end Feel

namespace Dmn
open Py Feel

variable {L : Library}

/-- what the imported rule asks; without a condition it asks nothing -/
def asks (L : Library) (condition : Option Value) (actual : Value) : Except Raised Bool :=
  match condition with
  | none => .ok true
  | some expected => check L actual expected

/-- `if parsed is not None` -/
def stored (parsed : Value) : Option Value := if parsed = .none then none else some parsed

/-! ## Python's operators on data -/

/-- `==` on data -/
def alike (d e : Datum) : Bool :=
  d = e || (d.number?.isSome && d.number? = e.number?)

theorem eq_of_datum {v w : Value} {d e : Datum} (hv : datum? v = some d) (hw : datum? w = some e) :
    v.eq w = alike d e := by
  rw [Bool.eq_iff_iff]
  cases v <;> cases w <;> simp only [datum?, Option.some.injEq, reduceCtorEq] at hv hw <;>
    subst hv hw <;> simp [Value.eq, Value.num?, alike, Datum.number?]
  case bool.bool a b => cases a <;> cases b <;> simp

def pyOrder (d e : Datum) : Option Ordering :=
  match d, e with
  | .string s, .string t => some (compareOfLessAndEq s t)
  | _, _ =>
    match d.number?, e.number? with
    | some p, some q => some (compareOfLessAndEq p q)
    | _, _ => none

theorem cmp_of_datum {v w : Value} {d e : Datum} (hv : datum? v = some d) (hw : datum? w = some e) :
    v.cmp w = pyOrder d e := by
  cases v <;> cases w <;> simp only [datum?, Option.some.injEq, reduceCtorEq] at hv hw <;>
    subst hv hw <;> simp [Value.cmp, Value.num?, pyOrder, Datum.number?]

/-! ## lists of literals -/

theorem alike_number {q : ℚ} {e : Datum} : alike (.number q) e.squeezed = true ↔
    e = .number q ∨ (e = .boolean true ∧ q = 1) ∨ (e = .boolean false ∧ q = 0) := by
  cases e with
  | boolean b => cases b <;> simp [alike, Datum.squeezed, Datum.number?]
  | _ => simp [alike, Datum.squeezed, Datum.number?, eq_comm]

theorem alike_boolean {b : Bool} {e : Datum} : alike (.boolean b) e.squeezed = true ↔
    e = .boolean b ∨ e = .number (if b then 1 else 0) := by
  cases e with
  | boolean b' => cases b <;> cases b' <;> simp [alike, Datum.squeezed, Datum.number?]
  | _ => cases b <;> simp [alike, Datum.squeezed, Datum.number?, eq_comm]

theorem alike_string {s : String} {e : Datum} :
    alike (.string s) e.squeezed = true ↔ e.squeezed = .string s := by
  cases e <;> simp [alike, Datum.squeezed, Datum.number?, eq_comm]

theorem alike_null {e : Datum} : alike .null e.squeezed = true ↔ e = .null := by
  cases e <;> simp [alike, Datum.squeezed, Datum.number?]

theorem told_iff (ds : List Datum) (k : Kind) :
    (∀ d, d.kind = k → ((∃ e ∈ ds, alike d e.squeezed = true) ↔ d ∈ ds)) ↔ Told ds k := by
  cases k with
  | number =>
    constructor
    · intro h
      exact ⟨fun ht => (h (.number 1) rfl).mp ⟨_, ht, alike_number.mpr (.inr (.inl ⟨rfl, rfl⟩))⟩,
        fun hf => (h (.number 0) rfl).mp ⟨_, hf, alike_number.mpr (.inr (.inr ⟨rfl, rfl⟩))⟩⟩
    · intro h d hd
      cases d with
      | number q =>
        constructor
        · intro he
          obtain ⟨e, he, ha⟩ := he
          obtain rfl | ⟨rfl, rfl⟩ | ⟨rfl, rfl⟩ := alike_number.mp ha
          · exact he
          · exact h.1 he
          · exact h.2 he
        · exact fun hq => ⟨_, hq, alike_number.mpr (.inl rfl)⟩
      | _ => exact nomatch hd
  | boolean =>
    constructor
    · intro h
      exact ⟨fun h1 => (h (.boolean true) rfl).mp ⟨_, h1, alike_boolean.mpr (.inr rfl)⟩,
        fun h0 => (h (.boolean false) rfl).mp ⟨_, h0, alike_boolean.mpr (.inr rfl)⟩⟩
    · intro h d hd
      cases d with
      | boolean b =>
        constructor
        · intro he
          obtain ⟨e, he, ha⟩ := he
          obtain rfl | rfl := alike_boolean.mp ha
          · exact he
          · cases b with
            | true => exact h.1 he
            | false => exact h.2 he
        · exact fun hb => ⟨_, hb, alike_boolean.mpr (.inl rfl)⟩
      | _ => exact nomatch hd
  | string =>
    constructor
    · intro h d hd
      cases d with
      | string s =>
        -- what the string is squeezed to is found, so it is in the list as it stands
        have hs : alike (.string (String.ofList (squeeze false s.toList)))
            (Datum.string s).squeezed = true := alike_string.mpr rfl
        have hin := (h (Datum.string s).squeezed rfl).mp ⟨_, hd, hs⟩
        obtain ⟨e, he, ha⟩ := (h (.string s) rfl).mpr hd
        have he' := alike_string.mp ha
        rw [← he', squeezed_squeezed]
      | _ => rfl
    · intro h d hd
      cases d with
      | string s =>
        constructor
        · intro he
          obtain ⟨e, he, ha⟩ := he
          rw [← alike_string.mp ha, h e he]
          exact he
        · exact fun hs => ⟨_, hs, alike_string.mpr (h _ hs)⟩
      | _ => exact nomatch hd
  | null =>
    refine ⟨fun _ => trivial, fun _ d hd => ?_⟩
    cases d with
    | null =>
      constructor
      · intro he
        obtain ⟨e, he, ha⟩ := he
        rw [← alike_null.mp ha]
        exact he
      · exact fun hn => ⟨_, hn, alike_null.mpr rfl⟩
    | _ => exact nomatch hd

/-! ## what each condition asks -/

theorem exists_value (d : Datum) : ∃ v, datum? v = some d := by
  cases d with
  | number q => exact ⟨.float q, rfl⟩
  | string s => exact ⟨.str s, rfl⟩
  | boolean b => exact ⟨.bool b, rfl⟩
  | null => exact ⟨.none, rfl⟩

theorem bind_ite (x : Except Raised Bool) :
    (x >>= fun b => if b then .ok true else pure false) = x := by
  cases x with
  | error e => rfl
  | ok b => cases b <;> rfl

theorem check_neq (v w : Value) : check L v (.dict [("$neq", w)]) = .ok (!v.eq w) := by
  show ((Except.ok (!v.eq w) : Except Raised Bool) >>= _) = _
  exact bind_ite _

theorem check_rel (r : Rel) (v w : Value) :
    check L v (.dict [(relName r, w)]) = ordered r.accepts v w := by
  have hop : opFn L (opName (relName r)) = some (ordered r.accepts) := by
    cases r <;> rfl
  show checkOps L v [(relName r, w)] = _
  rw [checkOps, hop]
  exact bind_ite _

theorem check_in (v : Value) (ws : List Value) :
    check L v (.dict [("$in", .list ws)]) = .ok (v.elem ws) := by
  show ((Except.ok (v.elem ws) : Except Raised Bool) >>= _) = _
  exact bind_ite _

theorem check_not_in (v : Value) (ws : List Value) :
    check L v (.dict [("$not_in", .list ws)]) = .ok (!v.elem ws) := by
  show ((Except.ok (!v.elem ws) : Except Raised Bool) >>= _) = _
  exact bind_ite _

theorem check_range (r r' : Rel) (v lo hi : Value) :
    check L v (.dict [(relName r, lo), (relName r', hi)]) =
      (ordered r.accepts v lo >>= fun b => if b then ordered r'.accepts v hi else pure false) := by
  have hop : opFn L (opName (relName r)) = some (ordered r.accepts) := by
    cases r <;> rfl
  have hrest : checkOps L v [(relName r', hi)] = ordered r'.accepts v hi := check_rel r' v hi
  show checkOps L v [(relName r, lo), (relName r', hi)] = _
  rw [checkOps, hop, hrest]

theorem ordered_of_datum {v w : Value} {d e : Datum} (hv : datum? v = some d)
    (hw : datum? w = some e) (accepts : Ordering → Bool) : ordered accepts v w =
      match pyOrder d e with
      | some o => .ok (accepts o)
      | none => .error .typeError := by
  have hcmp := cmp_of_datum hv hw
  cases h : pyOrder d e <;> simp [ordered, hcmp, h]

theorem elem_of_data {v : Value} {ws : List Value} {d : Datum} {ds : List Datum}
    (hv : datum? v = some d) (hws : ws.map datum? = ds.map some) :
    v.elem ws = ds.any (alike d) := by
  unfold Value.elem
  induction ws generalizing ds with
  | nil =>
    cases ds with
    | nil => rfl
    | cons e ds => exact nomatch hws
  | cons w ws ih =>
    cases ds with
    | nil => exact nomatch hws
    | cons e ds =>
      obtain ⟨hw, hws⟩ := List.cons.inj hws
      rw [List.any_cons, List.any_cons, eq_of_datum hv hw, ih hws]

theorem any_squeezed (d : Datum) (ds : List Datum) :
    (ds.map Datum.squeezed).any (alike d) = true ↔ ∃ e ∈ ds, alike d e.squeezed = true := by
  simp

/-! ## the relations of an order -/

theorem lt_or_gt_accepts {α : Type} [LinearOrder α] (r : Rel) {a b : α}
    (h : ∀ c, r.accepts (compareOfLessAndEq c a) = r.accepts (compareOfLessAndEq c b)) :
    a = b := by
  have ha := h a
  have hb := h b
  have hself : ∀ c : α, compareOfLessAndEq c c = .eq := fun c => by simp [compareOfLessAndEq]
  rw [hself] at ha hb
  unfold compareOfLessAndEq at ha hb
  rcases lt_trichotomy a b with hab | hab | hab
  · cases r <;> simp_all [Rel.accepts, hab.ne', not_lt_of_gt hab]
  · exact hab
  · cases r <;> simp_all [Rel.accepts, hab.ne', not_lt_of_gt hab]

theorem exists_accepted (r : Rel) (q : ℚ) : ∃ p, r.accepts (compareOfLessAndEq p q) = true := by
  have hlt : ∀ a b : ℚ, a < b → compareOfLessAndEq a b = .lt := fun a b h => by
    simp [compareOfLessAndEq, h]
  have hgt : ∀ a b : ℚ, b < a → compareOfLessAndEq a b = .gt := fun a b h => by
    simp [compareOfLessAndEq, not_lt_of_gt h, h.ne']
  cases r with
  | lt => exact ⟨q - 1, by rw [hlt _ _ (by linarith)]; rfl⟩
  | le => exact ⟨q - 1, by rw [hlt _ _ (by linarith)]; rfl⟩
  | gt => exact ⟨q + 1, by rw [hgt _ _ (by linarith)]; rfl⟩
  | ge => exact ⟨q + 1, by rw [hgt _ _ (by linarith)]; rfl⟩

/-! ## the tests, one by one -/

/-- on every datum of the kind the condition answers, and as the test does -/
def Agrees (L : Library) (t : Test) (condition : Option Value) (k : Kind) : Prop :=
  ∀ v d, datum? v = some d → d.kind = k → asks L condition v = .ok (t.holds d)

def relAnswer (r : Rel) (d e : Datum) : Except Raised Bool :=
  match pyOrder d e with
  | some o => .ok (r.accepts o)
  | none => .error .typeError

theorem agrees_compare_iff {r : Rel} {e : Datum} {w : Value} (hw : datum? w = some e.squeezed)
    (k : Kind) : Agrees L (.compare r e) (stored (.dict [(relName r, w)])) k ↔
      ∀ d, d.kind = k → relAnswer r d e.squeezed = .ok (r.between d e) := by
  have hasks : ∀ v d, datum? v = some d →
      asks L (stored (.dict [(relName r, w)])) v = relAnswer r d e.squeezed := by
    intro v d hv
    show check L v (.dict [(relName r, w)]) = _
    rw [check_rel, ordered_of_datum hv hw]
    rfl
  constructor
  · intro h d hd
    obtain ⟨v, hv⟩ := exists_value d
    rw [← hasks v d hv]
    exact h v d hv hd
  · intro h v d hv hd
    rw [hasks v d hv]
    exact h d hd

theorem booleansFail_iff {t : Test} {P : ℚ → Bool} (hP : ∀ q, t.holds (.number q) = P q) :
    t.BooleansFail ↔ ∀ b : Bool, P (if b then 1 else 0) = false := by
  unfold Test.BooleansFail
  rw [hP, hP, Bool.forall_bool]
  rfl

theorem kept_compare (r : Rel) (e : Datum) (k : Kind) :
    (∀ d, d.kind = k → relAnswer r d e.squeezed = .ok (r.between d e)) ↔
      (Test.compare r e).Kept k := by
  -- a datum that has no order with the literal makes the condition raise
  have hraise : ∀ d, d.kind = k → pyOrder d e.squeezed = none →
      ¬ ∀ d, d.kind = k → relAnswer r d e.squeezed = .ok (r.between d e) := by
    intro d hd hnone h
    have := h d hd
    rw [relAnswer, hnone] at this
    exact nomatch this
  cases e with
  | number q =>
    cases k with
    | number =>
      refine iff_of_true (fun d hd => ?_) trivial
      cases d with
      | number p => rfl
      | _ => exact nomatch hd
    | boolean =>
      rw [Test.Kept, booleansFail_iff (P := fun p => r.accepts (compareOfLessAndEq p q))
        fun p => rfl]
      constructor
      · intro h b
        exact Except.ok.inj (h (.boolean b) rfl)
      · intro h d hd
        cases d with
        | boolean b => exact congrArg Except.ok (h b)
        | _ => exact nomatch hd
    | string => exact iff_of_false (hraise (.string "") rfl rfl) id
    | null => exact iff_of_false (hraise .null rfl rfl) id
  | string s =>
    cases k with
    | string =>
      constructor
      · intro h
        refine congrArg Datum.string (lt_or_gt_accepts r fun c => ?_)
        exact Except.ok.inj (h (.string c) rfl)
      · intro h d hd
        have hsq : (Datum.string s).squeezed = .string s := h
        rw [hsq]
        cases d with
        | string c => rfl
        | _ => exact nomatch hd
    | number => exact iff_of_false (hraise (.number 0) rfl rfl) id
    | boolean => exact iff_of_false (hraise (.boolean true) rfl rfl) id
    | null => exact iff_of_false (hraise .null rfl rfl) id
  | boolean b =>
    cases k with
    | boolean =>
      rw [Test.Kept, booleansFail_iff
        (P := fun p => r.accepts (compareOfLessAndEq p (if b then 1 else 0))) fun p => rfl]
      constructor
      · intro h b'
        exact Except.ok.inj (h (.boolean b') rfl)
      · intro h d hd
        cases d with
        | boolean b' => exact congrArg Except.ok (h b')
        | _ => exact nomatch hd
    | number =>
      refine iff_of_false (fun h => ?_) id
      obtain ⟨p, hp⟩ := exists_accepted r (if b then 1 else 0)
      have := Except.ok.inj (h (.number p) rfl)
      rw [hp] at this
      exact nomatch this
    | string => exact iff_of_false (hraise (.string "") rfl rfl) id
    | null => exact iff_of_false (hraise .null rfl rfl) id
  | null =>
    obtain ⟨d, hd⟩ : ∃ d : Datum, d.kind = k := by
      cases k with
      | number => exact ⟨.number 0, rfl⟩
      | string => exact ⟨.string "", rfl⟩
      | boolean => exact ⟨.boolean true, rfl⟩
      | null => exact ⟨.null, rfl⟩
    refine iff_of_false (hraise d hd ?_) ?_
    · cases d <;> rfl
    · cases k <;> exact id

theorem not_injective : Function.Injective not := fun _ _ h => Bool.not_inj h

theorem agrees_list_iff {t : Test} {condition : Option Value} {answer : Bool → Bool}
    (hinj : Function.Injective answer) (ds : List Datum) (k : Kind)
    (hne : ∀ d, d.kind = k → ∀ v, datum? v = some d →
      asks L condition v = .ok (answer ((ds.map Datum.squeezed).any (alike d))))
    (ht : ∀ d, t.holds d = answer (decide (d ∈ ds))) :
    Agrees L t condition k ↔ Told ds k := by
  rw [← told_iff ds k]
  constructor
  · intro h d hd
    obtain ⟨v, hv⟩ := exists_value d
    have := h v d hv hd
    rw [hne d hd v hv, ht] at this
    have := hinj (Except.ok.inj this)
    rw [← any_squeezed, this, decide_eq_true_iff]
  · intro h v d hv hd
    rw [hne d hd v hv, ht]
    congr 2
    rw [Bool.eq_iff_iff, any_squeezed, decide_eq_true_iff]
    exact h d hd

theorem datum_of_squeezed_null {d : Datum} {v : Value} (h : datum? v = some d.squeezed) :
    v = .none ↔ d = .null := by
  constructor
  · intro hv
    rw [hv] at h
    cases d with
    | null => rfl
    | _ => exact nomatch h
  · intro hd
    rw [hd] at h
    cases v <;> first | rfl | exact nomatch h

theorem check_of_datum {v w : Value} {e : Datum} (hw : datum? w = some e) :
    check L v w = .ok (v.eq w) := by
  cases w <;> first | rfl | exact nomatch hw

theorem agrees_equals {d : Datum} {c : Value} (hc : datum? c = some d.squeezed) (k : Kind) :
    Agrees L (.equals d) (stored c) k ↔ (Test.equals d).Kept k := by
  by_cases hd : d = .null
  · -- the equality with null is stored as no condition, which every value passes
    subst hd
    have hstored : stored c = none := if_pos ((datum_of_squeezed_null hc).mpr rfl)
    constructor
    · intro h
      refine ⟨fun _ => ?_, ?_⟩
      · obtain ⟨v, hv⟩ : ∃ d : Datum, d.kind = k ∧ (d = .null → k = .null) := by
          cases k with
          | number => exact ⟨.number 0, rfl, by simp⟩
          | string => exact ⟨.string "", rfl, by simp⟩
          | boolean => exact ⟨.boolean true, rfl, by simp⟩
          | null => exact ⟨.null, rfl, fun _ => rfl⟩
        obtain ⟨w, hw⟩ := exists_value v
        have := h w v hw hv.1
        rw [hstored] at this
        have := Except.ok.inj this
        exact hv.2 (of_decide_eq_true this.symm)
      · cases k <;> simp [Told, Datum.squeezed]
    · intro h v e hv he
      obtain rfl : k = .null := h.1 rfl
      cases e with
      | null => rw [hstored]; rfl
      | _ => cases he
  · have hstored : stored c = some c := if_neg fun hn => hd ((datum_of_squeezed_null hc).mp hn)
    rw [agrees_list_iff Function.injective_id [d] k]
    · exact ⟨fun h => ⟨fun hn => absurd hn hd, h⟩, fun h => h.2⟩
    · intro e _ v hv
      rw [hstored]
      show check L v c = _
      rw [check_of_datum hc, eq_of_datum hv hc]
      simp
    · intro e
      simp [Test.holds]

def rangeAnswer (r r' : Rel) (low high : ℚ) (d : Datum) : Except Raised Bool :=
  relAnswer r d (.number low) >>= fun b =>
    if b then relAnswer r' d (.number high) else pure false

theorem rangeAnswer_ok {r r' : Rel} {low high p : ℚ} {d : Datum}
    (hd : ∀ q, pyOrder d (.number q) = some (compareOfLessAndEq p q)) :
    rangeAnswer r r' low high d = .ok (r.accepts (compareOfLessAndEq p low) &&
      r'.accepts (compareOfLessAndEq p high)) := by
  simp only [rangeAnswer, relAnswer, hd]
  cases r.accepts (compareOfLessAndEq p low) <;> rfl

theorem kept_range (openLow openHigh : Bool) (low high : ℚ) (k : Kind) :
    (∀ d, d.kind = k → rangeAnswer (if openLow then .gt else .ge) (if openHigh then .lt else .le)
        low high d = .ok ((Test.range openLow low high openHigh).holds d)) ↔
      (Test.range openLow low high openHigh).Kept k := by
  have hraise : ∀ d, d.kind = k → pyOrder d (.number low) = none →
      ¬ ∀ d, d.kind = k → rangeAnswer (if openLow then .gt else .ge)
        (if openHigh then .lt else .le) low high d =
          .ok ((Test.range openLow low high openHigh).holds d) := by
    intro d hd hnone h
    have := h d hd
    rw [rangeAnswer, relAnswer, hnone] at this
    exact nomatch this
  cases k with
  | number =>
    refine iff_of_true (fun d hd => ?_) trivial
    cases d with
    | number p => exact rangeAnswer_ok fun q => rfl
    | _ => exact nomatch hd
  | boolean =>
    rw [Test.Kept, booleansFail_iff fun p => rfl]
    constructor
    · intro h b
      have := h (.boolean b) rfl
      rw [rangeAnswer_ok (p := if b then 1 else 0) fun q => rfl] at this
      exact Except.ok.inj this
    · intro h d hd
      cases d with
      | boolean b =>
        rw [rangeAnswer_ok (p := if b then 1 else 0) fun q => rfl]
        exact congrArg Except.ok (h b)
      | _ => exact nomatch hd
  | string => exact iff_of_false (hraise (.string "") rfl rfl) id
  | null => exact iff_of_false (hraise .null rfl rfl) id

theorem agrees_range {openLow openHigh : Bool} {low high : ℚ} {lo hi : Value}
    (hlo : datum? lo = some (.number low)) (hhi : datum? hi = some (.number high)) (k : Kind) :
    Agrees L (.range openLow low high openHigh) (stored (.dict
      [(if openLow then "$gt" else "$gte", lo), (if openHigh then "$lt" else "$lte", hi)])) k ↔
      (Test.range openLow low high openHigh).Kept k := by
  have hlow : (if openLow then "$gt" else "$gte") = relName (if openLow then .gt else .ge) := by
    cases openLow <;> rfl
  have hhigh : (if openHigh then "$lt" else "$lte") = relName (if openHigh then .lt else .le) := by
    cases openHigh <;> rfl
  rw [hlow, hhigh, ← kept_range]
  have hasks : ∀ v d, datum? v = some d → asks L (stored (.dict
      [(relName (if openLow then .gt else .ge), lo), (relName (if openHigh then .lt else .le), hi)]))
      v = rangeAnswer (if openLow then .gt else .ge) (if openHigh then .lt else .le) low high d := by
    intro v d hv
    show check L v (.dict _) = _
    rw [check_range, ordered_of_datum hv hlo, ordered_of_datum hv hhi]
    rfl
  constructor
  · intro h d hd
    obtain ⟨v, hv⟩ := exists_value d
    rw [← hasks v d hv]
    exact h v d hv hd
  · intro h v d hv hd
    rw [hasks v d hv]
    exact h d hd

theorem agrees_iff {t : Test} {c : Value} (h : Condition t.squeezed c) (k : Kind) :
    Agrees L t (stored c) k ↔ t.Kept k := by
  cases t with
  | any =>
    cases h
    exact iff_of_true (fun v d _ _ => rfl) trivial
  | equals d =>
    cases h with
    | equals hc => exact agrees_equals hc k
  | differs d =>
    cases h with
    | differs hc =>
      refine agrees_list_iff not_injective [d] k ?_ ?_
      · intro e _ v hv
        show check L v (.dict _) = _
        rw [check_neq, eq_of_datum hv hc]
        simp
      · intro e
        simp [Test.holds]
  | compare r d =>
    cases h with
    | compare hc => rw [agrees_compare_iff hc, kept_compare]
  | range openLow low high openHigh =>
    cases h with
    | range hlo hhi => exact agrees_range hlo hhi k
  | oneOf ds =>
    cases h with
    | oneOf hc =>
      refine agrees_list_iff Function.injective_id ds k ?_ fun e => rfl
      intro e _ v hv
      show check L v (.dict _) = _
      rw [check_in, elem_of_data hv hc]
      rfl
  | noneOf ds =>
    cases h with
    | noneOf hc =>
      refine agrees_list_iff not_injective ds k ?_ fun e => ?_
      · intro e _ v hv
        show check L v (.dict _) = _
        rw [check_not_in, elem_of_data hv hc]
      · simp [Test.holds]

end Dmn
