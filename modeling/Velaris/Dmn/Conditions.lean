import Velaris.Dmn.Spelled
import Velaris.Base.Traverse

/-!
# What a cell of the subset is imported as

* `Condition`   the condition that stands for a test;
* `condition_of_spelled`   what `parseUnaryTest` makes of a text the grammar gives a test;
* `squeezed`   the test of the collapsed text: the blanks in its strings are squeezed;
* `condition_of_read`   what is made of a cell that has a reading.
-/

namespace Dmn
open Py Feel

variable {L : Library}

def relName : Rel → String
  | .lt => "$lt"
  | .le => "$lte"
  | .gt => "$gt"
  | .ge => "$gte"

/-- the condition that stands for a test; an equality with null stands for no condition -/
inductive Condition : Test → Value → Prop
  | any : Condition .any .none
  | equals {d : Datum} {v : Value} : datum? v = some d → Condition (.equals d) v
  | differs {d : Datum} {v : Value} : datum? v = some d →
      Condition (.differs d) (.dict [("$neq", v)])
  | compare {r : Rel} {d : Datum} {v : Value} : datum? v = some d →
      Condition (.compare r d) (.dict [(relName r, v)])
  | range {openLow openHigh : Bool} {low high : ℚ} {lo hi : Value} :
      datum? lo = some (.number low) → datum? hi = some (.number high) →
      Condition (.range openLow low high openHigh)
        (.dict [(if openLow then "$gt" else "$gte", lo), (if openHigh then "$lt" else "$lte", hi)])
  | oneOf {ds : List Datum} {vs : List Value} : vs.map datum? = ds.map some →
      Condition (.oneOf ds) (.dict [("$in", .list vs)])
  | noneOf {ds : List Datum} {vs : List Value} : vs.map datum? = ds.map some →
      Condition (.noneOf ds) (.dict [("$not_in", .list vs)])

/-! ## what a text starts with -/

theorem notMatch_of_head {c : Char} (h : c ≠ 'n') (h' : c ≠ 'N') (s : List Char) :
    notMatch (c :: s) = none := by
  unfold notMatch
  split
  · rename_i he
    obtain ⟨rfl, -⟩ := List.cons.inj he
    rw [if_neg fun hx => hx.1.elim h h']
  · rfl

theorem rangeMatch_of_head {c : Char} (h1 : c ≠ '[') (h2 : c ≠ ']') (h3 : c ≠ '(')
    (s : List Char) : rangeMatch (c :: s) = none := by
  simp [rangeMatch, h1, h2, h3]

theorem comparisonAt_of_not {text o : List Char} (h : o.isPrefixOf text = false)
    (op : Option String) : comparisonAt text (o, op) = none := by
  unfold comparisonAt
  rw [h]
  rfl

theorem comparisonAt_append {s val : List Char} (hval : valMatch s = some val)
    (hline : '\n' ∉ val) (o : List Char) (op : Option String) :
    comparisonAt (o ++ s) (o, op) = some (op, val) := by
  unfold comparisonAt
  have hpre : o.isPrefixOf (o ++ s) = true := List.isPrefixOf_iff_prefix.mpr (List.prefix_append o s)
  rw [hpre, if_pos rfl, List.drop_left, hval]
  simp [hline]

theorem comparisonMatch_of_head {c : Char} (h1 : c ≠ '<') (h2 : c ≠ '>') (h3 : c ≠ '!')
    (h4 : c ≠ '=') (s : List Char) : comparisonMatch (c :: s) = none := by
  have hno : ∀ op ∈ comparisonOps, comparisonAt (c :: s) op = none := by
    intro op hop
    refine comparisonAt_of_not ?_ op.2
    simp only [comparisonOps, List.mem_cons, List.not_mem_nil, or_false] at hop
    obtain rfl | rfl | rfl | rfl | rfl | rfl := hop <;>
      simp [List.isPrefixOf, h1.symm, h2.symm, h3.symm, h4.symm]
  exact List.findSome?_eq_none_iff.mpr hno

theorem matches_of_spells {float : List Char → ℚ} {x : List Char} {d : Datum}
    (hx : Spells float x d) (tail : List Char) : notMatch (x ++ tail) = none ∧
      rangeMatch (x ++ tail) = none ∧ comparisonMatch (x ++ tail) = none ∧
      x ++ tail ≠ [] ∧ x ++ tail ≠ ['-'] := by
  cases hx with
  | string hs =>
    refine ⟨?_, ?_, ?_, by simp, by simp⟩
    · exact notMatch_of_head (by decide) (by decide) _
    · exact rangeMatch_of_head (by decide) (by decide) (by decide) _
    · exact comparisonMatch_of_head (by decide) (by decide) (by decide) (by decide) _
  | word hk =>
    obtain ⟨rfl, -⟩ | ⟨rfl, -⟩ | ⟨rfl, -⟩ := keyword_cases hk
    all_goals
      refine ⟨by simp [notMatch], by simp [rangeMatch], ?_, by simp, by simp⟩
      exact comparisonMatch_of_head (by decide) (by decide) (by decide) (by decide) _
  | number hn =>
    obtain ⟨hne, hall⟩ := numeral_chars hn
    obtain ⟨c, y, rfl⟩ := List.exists_cons_of_ne_nil hne
    have hmark : ∀ m ∈ marks, c ≠ m := fun m hm he =>
      (numeral_char (hall c List.mem_cons_self)).2 (he ▸ hm)
    refine ⟨?_, ?_, ?_, by simp, ?_⟩
    · exact notMatch_of_head (hmark _ (by decide)) (hmark _ (by decide)) _
    · exact rangeMatch_of_head (hmark _ (by decide)) (hmark _ (by decide)) (hmark _ (by decide)) _
    · exact comparisonMatch_of_head (hmark _ (by decide)) (hmark _ (by decide))
        (hmark _ (by decide)) (hmark _ (by decide)) _
    · intro he
      -- a sign alone is no numeral
      obtain ⟨rfl, hy⟩ := List.cons.inj he
      obtain ⟨rfl, -⟩ := List.append_eq_nil_iff.mp hy
      cases hn with
      | plus hu =>
        obtain ⟨whole, fraction, he, hne, hw, -⟩ := hu
        obtain ⟨c, whole, rfl⟩ := List.exists_cons_of_ne_nil hne
        have hc := hw c List.mem_cons_self
        rw [← (List.cons.inj he).1] at hc
        exact absurd hc (by decide)
      | minus hu =>
        obtain ⟨whole, fraction, he, hne, -, -⟩ := hu
        exact hne (List.append_eq_nil_iff.mp he.symm).1

/-! ## lists -/

theorem rstrip_items {float : List Char → ℚ} {xs : List Char} {ds : List Datum}
    (h : Items float xs ds) : Items float (rstrip isSpace xs) ds := by
  induction h with
  | @one v x w d hv hx hw =>
    rw [rstrip_blank hw, rstrip_solid (solid_of_spells hx)]
    simpa using Items.one hv hx blank_nil
  | @more v x w xs d ds hv hx hw _ ih =>
    rw [rstrip_append_cons (by decide)]
    exact .more hv hx hw ih

theorem strip_items {float : List Char → ℚ} {xs : List Char} {ds : List Datum}
    (h : Items float xs ds) :
    Items float (strip xs) ds ∧ ∃ x tail d, strip xs = x ++ tail ∧ Spells float x d := by
  cases h with
  | @one v x w d hv hx hw =>
    rw [strip_pad hv hw (solid_of_spells hx)]
    exact ⟨by simpa using Items.one blank_nil hx blank_nil, x, [], d, by simp, hx⟩
  | @more v x w ys d ds hv hx hw hrest =>
    have hdrop : (v ++ x ++ w ++ ',' :: ys).dropWhile isSpace = x ++ w ++ ',' :: ys := by
      rw [List.append_assoc, List.append_assoc, dropWhile_blank hv,
        dropWhile_solid (solid_of_spells hx), List.append_assoc]
    rw [strip, hdrop, rstrip_append_cons (by decide)]
    refine ⟨by simpa using Items.more blank_nil hx hw (rstrip_items hrest), x,
      w ++ ',' :: rstrip isSpace ys, d, ?_, hx⟩
    rw [List.append_assoc]

theorem data_of_literals {texts : List (List Char)} {ds : List Datum} {vs : List Value}
    (ht : List.Forall₂ (Spells L.float) texts ds) (h : texts.mapM (literal L) = .ok vs) :
    vs.map datum? = ds.map some := by
  have hv := Base.forall₂_of_mapM_ok h
  clear h
  induction ht generalizing vs with
  | nil =>
    cases hv
    rfl
  | cons hx _ ih =>
    cases hv with
    | cons hl hrest => rw [List.map_cons, ih hrest, datum_of_literal hx hl, List.map_cons]

/-! ## `parseUnaryTest` on each form -/

theorem parse_blank {cell : List Char} (h : strip cell = [] ∨ strip cell = ['-']) :
    parseUnaryTest L cell = .ok .none := by
  unfold parseUnaryTest
  simp only [h, if_true]
  rfl

theorem parse_negation {cell inner : List Char} (h : notMatch (strip cell) = some inner)
    (hparts : splitTopLevel inner ≠ []) : parseUnaryTest L cell =
      ((splitTopLevel inner).mapM (literal L)).map fun vs => .dict [("$not_in", .list vs)] := by
  have hne : ¬ (strip cell = [] ∨ strip cell = ['-']) := by
    intro hx
    obtain hx | hx := hx <;> rw [hx] at h <;> exact nomatch h
  unfold parseUnaryTest
  simp only [hne, if_false, h, hparts]
  cases (splitTopLevel inner).mapM (literal L) <;> rfl

section
variable {cell : List Char} (hne : ¬ (strip cell = [] ∨ strip cell = ['-']))
  (hnot : notMatch (strip cell) = none)
include hne hnot

theorem parse_list (hparts : 1 < (splitTopLevel (strip cell)).length) : parseUnaryTest L cell =
    ((splitTopLevel (strip cell)).mapM (literal L)).map fun vs => .dict [("$in", .list vs)] := by
  unfold parseUnaryTest
  simp only [hne, if_false, hnot, hparts, if_true]
  cases (splitTopLevel (strip cell)).mapM (literal L) <;> rfl

variable (hparts : (splitTopLevel (strip cell)).length ≤ 1)
include hparts

theorem parse_range {m : RangeMatch} (h : rangeMatch (strip cell) = some m) :
    parseUnaryTest L cell = literal L m.lo >>= fun lo => (literal L m.hi).map fun hi =>
      .dict [(if m.lo_b = '(' ∨ m.lo_b = ']' then "$gt" else "$gte", lo),
        (if m.hi_b = ')' ∨ m.hi_b = '[' then "$lt" else "$lte", hi)] := by
  unfold parseUnaryTest
  simp only [hne, if_false, hnot, Nat.not_lt.mpr hparts, h]
  cases literal L m.lo <;> cases literal L m.hi <;> rfl

theorem parse_comparison (hrange : rangeMatch (strip cell) = none) {op : Option String}
    {val : List Char} (h : comparisonMatch (strip cell) = some (op, val)) :
    parseUnaryTest L cell = (literal L val).map fun v =>
      match op with
      | none => v
      | some op => .dict [(op, v)] := by
  unfold parseUnaryTest
  simp only [hne, if_false, hnot, Nat.not_lt.mpr hparts, hrange, h]
  cases literal L val <;> cases op <;> rfl

theorem parse_literal (hrange : rangeMatch (strip cell) = none)
    (h : comparisonMatch (strip cell) = none) : parseUnaryTest L cell = literal L (strip cell) := by
  unfold parseUnaryTest
  simp only [hne, if_false, hnot, Nat.not_lt.mpr hparts, hrange, h]

end

/-! ## a spelled test is read as its condition -/

section
variable {c : Value}

theorem condition_of_equals {cell : List Char} {d : Datum} (h : Items L.float cell [d])
    (hp : parseUnaryTest L cell = .ok c) : Condition (.equals d) c := by
  obtain ⟨hitems, x, tail, e, hx, hspell⟩ := strip_items h
  obtain ⟨hnot, hrange, hcmp, hne, hdash⟩ := matches_of_spells hspell tail
  rw [← hx] at hnot hrange hcmp hne hdash
  have hparts := splitTopLevel_items hitems
  have hlen : (splitTopLevel (strip cell)).length ≤ 1 := by rw [List.Forall₂.length_eq hparts]; simp
  rw [parse_literal (fun hb => hb.elim hne hdash) hnot hlen hrange hcmp] at hp
  cases h with
  | @one v x w d hv hd hw =>
    rw [strip_pad hv hw (solid_of_spells hd)] at hp
    exact .equals (datum_of_literal hd hp)
  | more _ _ _ hrest => cases hrest

theorem condition_of_oneOf {cell : List Char} {d e : Datum} {ds : List Datum}
    (h : Items L.float cell (d :: e :: ds)) (hp : parseUnaryTest L cell = .ok c) :
    Condition (.oneOf (d :: e :: ds)) c := by
  obtain ⟨hitems, x, tail, e', hx, hspell⟩ := strip_items h
  obtain ⟨hnot, -, -, hne, hdash⟩ := matches_of_spells hspell tail
  rw [← hx] at hnot hne hdash
  have hparts := splitTopLevel_items hitems
  have hlen : 1 < (splitTopLevel (strip cell)).length := by rw [List.Forall₂.length_eq hparts]; simp
  rw [parse_list (fun hb => hb.elim hne hdash) hnot hlen] at hp
  obtain ⟨vs, hvs, rfl⟩ := Base.exists_of_map_ok hp
  exact .oneOf (data_of_literals hparts hvs)

theorem notMatch_negation {v xs : List Char} (hv : Blank v) (hline : '\n' ∉ xs) :
    notMatch (['n', 'o', 't'] ++ v ++ '(' :: xs ++ [')']) = some xs := by
  have hdrop : (v ++ '(' :: (xs ++ [')'])).dropWhile isSpace = '(' :: (xs ++ [')']) := by
    rw [dropWhile_blank hv, List.dropWhile_cons_of_neg (by decide)]
  have happ : ['n', 'o', 't'] ++ v ++ '(' :: xs ++ [')'] =
      'n' :: 'o' :: 't' :: (v ++ '(' :: (xs ++ [')'])) := by simp
  rw [happ, notMatch, if_pos (by decide), hdrop]
  simp [hline]

theorem condition_of_noneOf {u v xs w : List Char} {ds : List Datum} (hu : Blank u) (hv : Blank v)
    (h : Items L.float xs ds) (hw : Blank w) (hline : '\n' ∉ xs)
    (hp : parseUnaryTest L (u ++ (['n', 'o', 't'] ++ v ++ '(' :: xs ++ [')']) ++ w) = .ok c) :
    Condition (.noneOf ds) c := by
  have hsolid : Solid (['n', 'o', 't'] ++ v ++ '(' :: xs ++ [')']) :=
    ⟨⟨'n', _, rfl, by decide⟩, ⟨')', _, rfl, by decide⟩⟩
  have hparts := splitTopLevel_items h
  have hne : splitTopLevel xs ≠ [] := by
    intro he
    rw [he] at hparts
    cases hparts
    cases h
  rw [parse_negation (by rw [strip_pad hu hw hsolid, notMatch_negation hv hline]) hne] at hp
  obtain ⟨vs, hvs, rfl⟩ := Base.exists_of_map_ok hp
  exact .noneOf (data_of_literals hparts hvs)

theorem length_splitTopLevel {text : List Char} {d : Int} {q : Option Char} {cur : List Char}
    (h : text.foldl Scan.step ⟨[], 0, none, []⟩ = ⟨[], d, q, cur⟩) :
    (splitTopLevel text).length ≤ 1 := by
  unfold splitTopLevel
  rw [h]
  exact (List.length_filter_le _ _).trans (by simp)

theorem sign_bare {o : List Char} {f : Datum → Test} (h : Sign o f) : ∀ c ∈ o, Bare c := by
  cases h <;> simp [Bare]

def comparison (op : Option String) (v : Value) : Value :=
  match op with
  | none => v
  | some op => .dict [(op, v)]

theorem comparisonMatch_of_mem {o : List Char} {op : Option String} (h : (o, op) ∈ comparisonOps)
    {s val : List Char} (heq : s.head? ≠ some '=') (hval : valMatch s = some val)
    (hline : '\n' ∉ val) : comparisonMatch (o ++ s) = some (op, val) := by
  have hpre : ['='].isPrefixOf s = false := by
    cases s with
    | nil => rfl
    | cons e s =>
      have : '=' ≠ e := fun he => heq (by rw [List.head?_cons, he])
      simp [List.isPrefixOf, this]
  have hyes := comparisonAt_append hval hline o op
  -- a sign of one character is tried after the one it starts
  have hle : ∀ op, comparisonAt ('<' :: s) (['<', '='], op) = none :=
    fun op => comparisonAt_of_not (by rw [List.isPrefixOf, hpre, Bool.and_false]) op
  have hge : ∀ op, comparisonAt ('>' :: s) (['>', '='], op) = none :=
    fun op => comparisonAt_of_not (by rw [List.isPrefixOf, hpre, Bool.and_false]) op
  have hother : ∀ {a b : Char} {o t : List Char}, a ≠ b → ∀ op,
      comparisonAt (b :: t) (a :: o, op) = none := fun hab op =>
    comparisonAt_of_not (by simp [List.isPrefixOf, hab]) op
  unfold comparisonMatch comparisonOps
  simp only [comparisonOps, List.mem_cons, Prod.mk.injEq, List.not_mem_nil, or_false] at h
  obtain ⟨rfl, rfl⟩ | ⟨rfl, rfl⟩ | ⟨rfl, rfl⟩ | ⟨rfl, rfl⟩ | ⟨rfl, rfl⟩ | ⟨rfl, rfl⟩ := h
  · rw [List.findSome?_cons, hyes]
  · rw [List.findSome?_cons, List.cons_append, hother (by decide), ← List.cons_append]
    simp only [List.findSome?_cons, hyes]
  · simp only [List.singleton_append] at hyes ⊢
    simp only [List.findSome?_cons, hle, hother (show '>' ≠ '<' by decide), hyes]
  · simp only [List.singleton_append] at hyes ⊢
    simp only [List.findSome?_cons, hge, hother (show '<' ≠ '>' by decide), hyes]
  · simp only [List.cons_append, List.nil_append] at hyes ⊢
    simp only [List.findSome?_cons, hother (show '<' ≠ '!' by decide),
      hother (show '>' ≠ '!' by decide), hyes]
  · simp only [List.singleton_append] at hyes ⊢
    simp only [List.findSome?_cons, hother (show '<' ≠ '=' by decide),
      hother (show '>' ≠ '=' by decide), hother (show '!' ≠ '=' by decide), hyes]

theorem condition_of_sign {o : List Char} {f : Datum → Test} (h : Sign o f) : ∃ op,
    (o, op) ∈ comparisonOps ∧ ∀ d v, datum? v = some d → Condition (f d) (comparison op v) := by
  cases h with
  | le => exact ⟨some "$lte", by simp [comparisonOps], fun d v hd => .compare hd⟩
  | ge => exact ⟨some "$gte", by simp [comparisonOps], fun d v hd => .compare hd⟩
  | lt => exact ⟨some "$lt", by simp [comparisonOps], fun d v hd => .compare hd⟩
  | gt => exact ⟨some "$gt", by simp [comparisonOps], fun d v hd => .compare hd⟩
  | ne => exact ⟨some "$neq", by simp [comparisonOps], fun d v hd => .differs hd⟩
  | eq => exact ⟨none, by simp [comparisonOps], fun d v hd => .equals hd⟩

theorem sign_head {o : List Char} {f : Datum → Test} (h : Sign o f) (s : List Char) :
    Solid o ∧ notMatch (o ++ s) = none ∧ rangeMatch (o ++ s) = none ∧
      ¬ (o ++ s = [] ∨ o ++ s = ['-']) := by
  cases h
  all_goals
    refine ⟨solid_of_forall (by simp) (not_isSpace_of_all (by decide)), ?_, ?_, by simp⟩
    · exact notMatch_of_head (by decide) (by decide) _
    · exact rangeMatch_of_head (by decide) (by decide) (by decide) _

theorem valMatch_spells {v x : List Char} {d : Datum} (hv : Blank v) (hx : Spells L.float x d) :
    valMatch (v ++ x) = some x ∧ (v ++ x).head? ≠ some '=' := by
  have hs := solid_of_spells hx
  have hdrop : (v ++ x).dropWhile isSpace = x := by
    rw [dropWhile_blank hv]
    simpa using dropWhile_solid hs []
  constructor
  · unfold valMatch
    rw [hdrop]
    split
    · exact absurd rfl hs.ne_nil
    · rfl
  · cases v with
    | nil =>
      intro he
      obtain ⟨e, y, rfl, -⟩ := hs.first
      obtain rfl : e = '=' := by simpa using he
      have := (matches_of_spells hx []).2.2.1
      cases hx with
      | word hk =>
        obtain ⟨he, -⟩ | ⟨he, -⟩ | ⟨he, -⟩ := keyword_cases hk <;> exact absurd he (by simp)
      | number hn =>
        exact (numeral_char ((numeral_chars hn).2 '=' List.mem_cons_self)).2 (by decide)
    | cons b v =>
      intro he
      obtain rfl : b = '=' := by simpa using he
      exact absurd hv.head (by decide)

theorem condition_of_compare {u o v x w : List Char} {f : Datum → Test} {d : Datum} (hu : Blank u)
    (ho : Sign o f) (hv : Blank v) (hx : Spells L.float x d) (hw : Blank w) (hline : '\n' ∉ x)
    (hp : parseUnaryTest L (u ++ (o ++ v ++ x) ++ w) = .ok c) : Condition (f d) c := by
  obtain ⟨hsolid, hnot, hrange, hne⟩ := sign_head ho (v ++ x)
  obtain ⟨hval, heq⟩ := valMatch_spells hv hx
  obtain ⟨op, hmem, hcond⟩ := condition_of_sign ho
  have hcmp := comparisonMatch_of_mem hmem heq hval hline
  have hstrip : strip (u ++ (o ++ v ++ x) ++ w) = o ++ (v ++ x) := by
    rw [strip_pad hu hw (hsolid.append v (solid_of_spells hx)), List.append_assoc]
  have hscan : (o ++ (v ++ x)).foldl Scan.step ⟨[], 0, none, []⟩ =
      ⟨[], 0, none, o ++ (v ++ x)⟩ := by
    rw [List.foldl_append, scan_bare (sign_bare ho) _ rfl, List.foldl_append,
      scan_bare (fun c hc => bare_of_isSpace (hv c hc)) _ rfl, scan_spells hx _ rfl]
    simp
  rw [← hstrip] at hnot hrange hne hcmp hscan
  rw [parse_comparison hne hnot (length_splitTopLevel hscan) hrange hcmp] at hp
  obtain ⟨v', hv', hc⟩ := Base.exists_of_map_ok hp
  have := hcond d v' (datum_of_literal hx hv')
  rw [← hc]
  cases op <;> exact this

/-! ## ranges -/

theorem bound_chars {b e : Char} {openLow openHigh : Bool} (hb : lowBound b = some openLow)
    (he : highBound e = some openHigh) :
    (b = '[' ∨ b = ']' ∨ b = '(') ∧ (e = '[' ∨ e = ']' ∨ e = ')') ∧
      (b = '(' ∨ b = ']' ↔ openLow = true) ∧ (e = ')' ∨ e = '[' ↔ openHigh = true) := by
  unfold lowBound at hb
  unfold highBound at he
  split at hb <;> split at he <;> simp_all

theorem rangeMatch_spelled {u v w y low high : List Char} {b e : Char}
    (hb : b = '[' ∨ b = ']' ∨ b = '(') (hu : Blank u) (hlow : Numeral low) (hv : Blank v)
    (hw : Blank w) (hhigh : Numeral high) (hy : Blank y) (he : e = '[' ∨ e = ']' ∨ e = ')') :
    rangeMatch (b :: (u ++ low ++ v ++ ['.', '.'] ++ w ++ high ++ y ++ [e])) =
      some ⟨b, low, high, e⟩ := by
  have hend : Stops [e] := by
    obtain rfl | rfl | rfl := he <;> exact stops_cons (by decide +kernel) (by decide) []
  have h1 : (u ++ low ++ v ++ ['.', '.'] ++ w ++ high ++ y ++ [e]).dropWhile isSpace =
      low ++ (v ++ '.' :: '.' :: (w ++ high ++ y ++ [e])) := by
    simp only [List.append_assoc]
    rw [dropWhile_blank hu, dropWhile_solid (solid_of_numeral hlow)]
    simp
  have h2 : (v ++ '.' :: '.' :: (w ++ high ++ y ++ [e])).dropWhile isSpace =
      '.' :: '.' :: (w ++ high ++ y ++ [e]) := by
    rw [dropWhile_blank hv, List.dropWhile_cons_of_neg (by decide)]
  have h3 : (w ++ high ++ y ++ [e]).dropWhile isSpace = high ++ (y ++ [e]) := by
    simp only [List.append_assoc]
    rw [dropWhile_blank hw, dropWhile_solid (solid_of_numeral hhigh)]
  have h4 : (y ++ [e]).dropWhile isSpace = [e] := by
    rw [dropWhile_blank hy]
    obtain rfl | rfl | rfl := he <;> decide
  rw [rangeMatch, if_pos hb, h1, num_append hlow (stops_blank hv (stops_dots _))]
  simp only [Option.bind_some, h2, h3]
  rw [num_append hhigh (stops_blank hy hend)]
  simp only [Option.bind_some, h4]
  rw [if_pos he]

theorem bare_of_numeral {x : List Char} (h : Numeral x) : ∀ c ∈ x, c ≠ ',' := fun c hc he =>
  (numeral_char ((numeral_chars h).2 c hc)).2 (by rw [he]; decide)

theorem scan_parts {text : List Char} (h : ∀ c ∈ text, c ≠ ',') (s : Scan) :
    (text.foldl Scan.step s).parts = s.parts := by
  induction text generalizing s with
  | nil => rfl
  | cons c text ih =>
    have hc : c ≠ ',' := h c List.mem_cons_self
    have hstep : (s.step c).parts = s.parts := by
      unfold Scan.step
      split
      · rfl
      · split_ifs
        · rfl
        · rfl
        · rfl
        · rename_i h4
          exact absurd h4.1 hc
        · rfl
    rw [List.foldl_cons, ih (fun e he => h e (List.mem_cons_of_mem c he)), hstep]

theorem condition_of_range {t u v w y z low high : List Char} {b e : Char}
    {openLow openHigh : Bool} (ht : Blank t) (hb : lowBound b = some openLow) (hu : Blank u)
    (hlow : Numeral low) (hv : Blank v) (hw : Blank w) (hhigh : Numeral high) (hy : Blank y)
    (he : highBound e = some openHigh) (hz : Blank z)
    (hp : parseUnaryTest L
      (t ++ (b :: u ++ low ++ v ++ ['.', '.'] ++ w ++ high ++ y ++ [e]) ++ z) = .ok c) :
    Condition (.range openLow (value L.float low) (value L.float high) openHigh) c := by
  obtain ⟨hbc, hec, hopenLow, hopenHigh⟩ := bound_chars hb he
  have hbsp : isSpace b = false := by obtain rfl | rfl | rfl := hbc <;> decide
  have hesp : isSpace e = false := by obtain rfl | rfl | rfl := hec <;> decide
  have hbn : b ≠ 'n' ∧ b ≠ 'N' ∧ b ≠ '-' ∧ b ≠ ',' := by
    obtain rfl | rfl | rfl := hbc <;> decide
  have hen : e ≠ ',' := by obtain rfl | rfl | rfl := hec <;> decide
  have hsolid : Solid (b :: (u ++ low ++ v ++ ['.', '.'] ++ w ++ high ++ y) ++ [e]) :=
    solid_between _ hbsp hesp
  have hstrip : strip (t ++ (b :: u ++ low ++ v ++ ['.', '.'] ++ w ++ high ++ y ++ [e]) ++ z) =
      b :: (u ++ low ++ v ++ ['.', '.'] ++ w ++ high ++ y ++ [e]) := by
    have := strip_pad ht hz hsolid
    simpa using this
  have hblank : ∀ {x : List Char}, Blank x → ∀ c ∈ x, c ≠ ',' := fun hx c hc =>
    (bare_of_isSpace (hx c hc)).2.2.2.2.2.2
  have hcomma : ∀ c ∈ b :: (u ++ low ++ v ++ ['.', '.'] ++ w ++ high ++ y ++ [e]), c ≠ ',' := by
    intro c hc
    simp only [List.mem_cons, List.mem_append, List.not_mem_nil, or_false] at hc
    rcases hc with rfl | ((((((hc | hc) | hc) | rfl | rfl) | hc) | hc) | hc) | rfl
    · exact hbn.2.2.2
    · exact hblank hu c hc
    · exact bare_of_numeral hlow c hc
    · exact hblank hv c hc
    · decide
    · decide
    · exact hblank hw c hc
    · exact bare_of_numeral hhigh c hc
    · exact hblank hy c hc
    · exact hen
  have hparts : (splitTopLevel (b :: (u ++ low ++ v ++ ['.', '.'] ++ w ++ high ++ y ++ [e]))).length
      ≤ 1 := by
    unfold splitTopLevel
    simp only [scan_parts hcomma]
    exact (List.length_filter_le _ _).trans (by simp)
  have hnot : notMatch (b :: (u ++ low ++ v ++ ['.', '.'] ++ w ++ high ++ y ++ [e])) = none :=
    notMatch_of_head hbn.1 hbn.2.1 _
  have hrange := rangeMatch_spelled hbc hu hlow hv hw hhigh hy hec
  have hne : ¬ (b :: (u ++ low ++ v ++ ['.', '.'] ++ w ++ high ++ y ++ [e]) = [] ∨
      b :: (u ++ low ++ v ++ ['.', '.'] ++ w ++ high ++ y ++ [e]) = ['-']) := by
    intro hx
    obtain hx | hx := hx
    · exact nomatch hx
    · exact hbn.2.2.1 (List.cons.inj hx).1
  rw [← hstrip] at hparts hnot hrange hne
  rw [parse_range hne hnot hparts hrange] at hp
  obtain ⟨lo, hlo, hp⟩ := Base.exists_of_bind_ok hp
  obtain ⟨hi, hhi, rfl⟩ := Base.exists_of_map_ok hp
  have : Condition (.range openLow _ _ openHigh) _ := .range
    (datum_of_literal (.number hlow) hlo) (datum_of_literal (.number hhigh) hhi)
  simpa [hopenLow, hopenHigh] using this

theorem condition_of_spelled {cell : List Char} {t : Test} (h : Spelled L.float cell t)
    (hline : '\n' ∉ cell) (hp : parseUnaryTest L cell = .ok c) : Condition t c := by
  cases h with
  | blank hw =>
    rw [parse_blank (.inl (strip_blank hw))] at hp
    rw [← Except.ok.inj hp]
    exact .any
  | dash hv hw =>
    rw [parse_blank (.inr (strip_pad hv hw (solid_singleton (by decide))))] at hp
    rw [← Except.ok.inj hp]
    exact .any
  | equals hitems => exact condition_of_equals hitems hp
  | oneOf hitems => exact condition_of_oneOf hitems hp
  | noneOf hu hv hitems hw =>
    exact condition_of_noneOf hu hv hitems hw (fun hm => hline (by simp [hm])) hp
  | compare hu ho hv hx hw =>
    exact condition_of_compare hu ho hv hx hw (fun hm => hline (by simp [hm])) hp
  | range ht hb hu hlow hv hw hhigh hy he hz =>
    exact condition_of_range ht hb hu hlow hv hw hhigh hy he hz hp

end

end Dmn
