import Velaris.Dmn.Conditions

/-!
# Cells with their white space collapsed

`_cell_text` collapses the white space of a cell before it is parsed, also in the strings.

* `Datum.squeezed`, `Test.squeezed`   what is left of a string, and of a test;
* `spelled_squeeze`   the collapsed text of a test spells the squeezed test;
* `condition_of_read`   what the import makes of a cell that has a reading.
-/

namespace Feel
open Py

/-- the runs of white space in a string made one blank -/
def Datum.squeezed : Datum → Datum
  | .string s => .string (String.ofList (squeeze false s.toList))
  | d => d

def Test.squeezed : Test → Test
  | .any => .any
  | .equals d => .equals d.squeezed
  | .differs d => .differs d.squeezed
  | .compare r d => .compare r d.squeezed
  | .range openLow low high openHigh => .range openLow low high openHigh
  | .oneOf ds => .oneOf (ds.map Datum.squeezed)
  | .noneOf ds => .noneOf (ds.map Datum.squeezed)

end Feel

namespace Dmn
open Py Feel

variable {float : List Char → ℚ}

theorem squeeze_append_cons {c : Char} (hc : isSpace c = false) (after : Bool)
    (s t : List Char) : squeeze after (s ++ c :: t) = squeeze after s ++ c :: squeeze false t := by
  induction s generalizing after with
  | nil => exact squeeze_cons_of_not hc after t
  | cons d s ih =>
    cases hd : isSpace d with
    | false => rw [List.cons_append, squeeze_cons_of_not hd, ih, squeeze_cons_of_not hd]; rfl
    | true => cases after <;> simp [squeeze, hd, ih]

theorem mem_squeeze {c : Char} {after : Bool} {s : List Char} (h : c ∈ squeeze after s) :
    c = ' ' ∨ c ∈ s := by
  induction s generalizing after with
  | nil => exact absurd h List.not_mem_nil
  | cons d s ih =>
    cases hd : isSpace d with
    | false =>
      rw [squeeze_cons_of_not hd] at h
      obtain rfl | h := List.mem_cons.mp h
      · exact .inr List.mem_cons_self
      · exact (ih h).imp_right (List.mem_cons_of_mem d)
    | true =>
      cases after with
      | true =>
        have : c ∈ squeeze true s := by simpa [squeeze, hd] using h
        exact (ih this).imp_right (List.mem_cons_of_mem d)
      | false =>
        have : c = ' ' ∨ c ∈ squeeze true s := by simpa [squeeze, hd] using h
        obtain h | h := this
        · exact .inl h
        · exact (ih h).imp_right (List.mem_cons_of_mem d)

theorem squeeze_squeeze (after : Bool) (s : List Char) :
    squeeze after (squeeze after s) = squeeze after s := by
  induction s generalizing after with
  | nil => rfl
  | cons c s ih =>
    cases hc : isSpace c with
    | false => rw [squeeze_cons_of_not hc, squeeze_cons_of_not hc, ih]
    | true =>
      cases after with
      | true => simpa [squeeze, hc] using ih true
      | false =>
        have hblank : isSpace ' ' = true := by decide
        simp [squeeze, hc, hblank, ih true]

theorem squeezed_squeezed (d : Datum) : d.squeezed.squeezed = d.squeezed := by
  cases d with
  | string s => simp [Datum.squeezed, squeeze_squeeze]
  | _ => rfl

theorem squeeze_spells {x : List Char} {d : Datum} (h : Spells float x d) (after : Bool)
    (rest : List Char) : ∃ x', squeeze after (x ++ rest) = x' ++ squeeze false rest ∧
      Spells float x' d.squeezed := by
  cases h with
  | @string s hs =>
    refine ⟨'\"' :: squeeze false s ++ ['\"'], ?_, ?_⟩
    · have happ : '\"' :: s ++ ['\"'] ++ rest = '\"' :: (s ++ '\"' :: rest) := by simp
      rw [happ, squeeze_cons_of_not (by decide), squeeze_append_cons (by decide)]
      simp
    · rw [Datum.squeezed, String.toList_ofList]
      refine .string fun c hc => ?_
      obtain rfl | hc := mem_squeeze hc
      · decide
      · exact hs c hc
  | word hk =>
    obtain ⟨rfl, rfl⟩ | ⟨rfl, rfl⟩ | ⟨rfl, rfl⟩ := keyword_cases hk
    all_goals
      exact ⟨_, squeeze_solid (not_isSpace_of_all (by decide)) after rest (by simp), .word hk⟩
  | number hn =>
    obtain ⟨hne, hall⟩ := numeral_chars hn
    exact ⟨x, squeeze_solid (fun c hc => (numeral_char (hall c hc)).1) after rest hne, .number hn⟩

theorem squeeze_items {xs : List Char} {ds : List Datum} (h : Items float xs ds) (after : Bool)
    (rest : List Char) : ∃ xs' b, squeeze after (xs ++ rest) = xs' ++ squeeze b rest ∧
      Items float xs' (ds.map Datum.squeezed) := by
  induction h generalizing after with
  | @one v x w d hv hx hw =>
    obtain ⟨v', b, hv', he⟩ := squeeze_blank hv after (x ++ (w ++ rest))
    obtain ⟨x', hx', hd⟩ := squeeze_spells hx b (w ++ rest)
    obtain ⟨w', b', hw', hr⟩ := squeeze_blank hw false rest
    refine ⟨v' ++ x' ++ w', b', ?_, .one hv' hd hw'⟩
    simp only [List.append_assoc] at he hx' hr ⊢
    rw [he, hx', hr]
  | @more v x w xs d ds hv hx hw _ ih =>
    obtain ⟨v', b, hv', he⟩ := squeeze_blank hv after (x ++ (w ++ ',' :: (xs ++ rest)))
    obtain ⟨x', hx', hd⟩ := squeeze_spells hx b (w ++ ',' :: (xs ++ rest))
    obtain ⟨w', b', hw', hr⟩ := squeeze_blank hw false (',' :: (xs ++ rest))
    obtain ⟨xs', b'', hxs, hitems⟩ := ih false
    refine ⟨v' ++ x' ++ w' ++ ',' :: xs', b'', ?_, .more hv' hd hw' hitems⟩
    have happ : v ++ x ++ w ++ ',' :: xs ++ rest = v ++ (x ++ (w ++ ',' :: (xs ++ rest))) := by simp
    rw [happ, he, hx', hr, squeeze_cons_of_not (by decide), hxs]
    simp

theorem sign_squeezed {o : List Char} {f : Datum → Test} (h : Sign o f) (d : Datum) :
    (f d).squeezed = f d.squeezed := by
  cases h <;> rfl

theorem spelled_squeeze {cell : List Char} {t : Test} (h : Spelled float cell t) (after : Bool) :
    Spelled float (squeeze after cell) t.squeezed := by
  cases h with
  | blank hw =>
    obtain ⟨v, b, hv, he⟩ := squeeze_blank hw after []
    rw [List.append_nil, squeeze, List.append_nil] at he
    rw [he]
    exact .blank hv
  | @dash v w hv hw =>
    obtain ⟨v', b, hv', he⟩ := squeeze_blank hv after ('-' :: w)
    obtain ⟨w', b', hw', hr⟩ := squeeze_blank hw false []
    have happ : v ++ ['-'] ++ w = v ++ '-' :: w := by simp
    rw [happ, he, squeeze_cons_of_not (by decide)]
    rw [List.append_nil, squeeze, List.append_nil] at hr
    rw [hr]
    have : Spelled float _ .any := .dash hv' hw'
    simpa [Test.squeezed] using this
  | equals hitems =>
    obtain ⟨xs', b, he, hi⟩ := squeeze_items hitems after []
    rw [List.append_nil, squeeze, List.append_nil] at he
    rw [he]
    exact .equals hi
  | oneOf hitems =>
    obtain ⟨xs', b, he, hi⟩ := squeeze_items hitems after []
    rw [List.append_nil, squeeze, List.append_nil] at he
    rw [he]
    exact .oneOf hi
  | @noneOf u v xs w ds hu hv hitems hw =>
    obtain ⟨u', b1, hu', h1⟩ := squeeze_blank hu after
      (['n', 'o', 't'] ++ (v ++ '(' :: (xs ++ ')' :: w)))
    obtain ⟨v', b2, hv', h2⟩ := squeeze_blank hv false ('(' :: (xs ++ ')' :: w))
    obtain ⟨xs', b3, h3, hi⟩ := squeeze_items hitems false (')' :: w)
    obtain ⟨w', b4, hw', h4⟩ := squeeze_blank hw false []
    have happ : u ++ (['n', 'o', 't'] ++ v ++ '(' :: xs ++ [')']) ++ w =
        u ++ (['n', 'o', 't'] ++ (v ++ '(' :: (xs ++ ')' :: w))) := by simp
    rw [List.append_nil, squeeze, List.append_nil] at h4
    rw [happ, h1, squeeze_solid (not_isSpace_of_all (by decide)) b1 _ (by simp), h2, squeeze_cons_of_not (by decide),
      h3,
      squeeze_cons_of_not (by decide), h4]
    simpa [Test.squeezed] using Spelled.noneOf hu' hv' hi hw'
  | @compare u o v x w f d hu ho hv hx hw =>
    obtain ⟨u', b1, hu', h1⟩ := squeeze_blank hu after (o ++ (v ++ (x ++ w)))
    obtain ⟨v', b2, hv', h2⟩ := squeeze_blank hv false (x ++ w)
    obtain ⟨x', h3, hd⟩ := squeeze_spells hx b2 w
    obtain ⟨w', b4, hw', h4⟩ := squeeze_blank hw false []
    have happ : u ++ (o ++ v ++ x) ++ w = u ++ (o ++ (v ++ (x ++ w))) := by simp
    have hsolid : ∀ c ∈ o, isSpace c = false := by
      cases ho <;> exact not_isSpace_of_all (by decide)
    have hne : o ≠ [] := by cases ho <;> simp
    rw [List.append_nil, squeeze, List.append_nil] at h4
    rw [happ, h1, squeeze_solid hsolid b1 _ hne, h2, h3, h4, sign_squeezed ho]
    simpa using Spelled.compare hu' ho hv' hd hw'
  | @range t u v w y z low high b e openLow openHigh ht hb hu hlow hv hw hhigh hy he hz =>
    obtain ⟨hbc, hec, -, -⟩ := bound_chars hb he
    have hbsp : isSpace b = false := by obtain rfl | rfl | rfl := hbc <;> decide
    have hesp : isSpace e = false := by obtain rfl | rfl | rfl := hec <;> decide
    have hnum : ∀ {x : List Char}, Numeral x → ∀ after rest,
        squeeze after (x ++ rest) = x ++ squeeze false rest := fun hx after rest =>
      squeeze_solid (fun c hc => (numeral_char ((numeral_chars hx).2 c hc)).1) after rest
        (numeral_chars hx).1
    obtain ⟨t', b1, ht', h1⟩ := squeeze_blank ht after
      (b :: (u ++ (low ++ (v ++ (['.', '.'] ++ (w ++ (high ++ (y ++ e :: z))))))))
    obtain ⟨u', b2, hu', h2⟩ := squeeze_blank hu false
      (low ++ (v ++ (['.', '.'] ++ (w ++ (high ++ (y ++ e :: z))))))
    obtain ⟨v', b3, hv', h3⟩ := squeeze_blank hv false
      (['.', '.'] ++ (w ++ (high ++ (y ++ e :: z))))
    obtain ⟨w', b4, hw', h4⟩ := squeeze_blank hw false (high ++ (y ++ e :: z))
    obtain ⟨y', b5, hy', h5⟩ := squeeze_blank hy false (e :: z)
    obtain ⟨z', b6, hz', h6⟩ := squeeze_blank hz false []
    have happ : t ++ (b :: u ++ low ++ v ++ ['.', '.'] ++ w ++ high ++ y ++ [e]) ++ z =
        t ++ b :: (u ++ (low ++ (v ++ (['.', '.'] ++ (w ++ (high ++ (y ++ e :: z))))))) := by simp
    rw [List.append_nil, squeeze, List.append_nil] at h6
    rw [happ, h1, squeeze_cons_of_not hbsp, h2, hnum hlow, h3,
      squeeze_solid (not_isSpace_of_all (by decide)) b3 _ (by simp), h4, hnum hhigh, h5,
      squeeze_cons_of_not hesp, h6]
    have : Spelled float _ _ := .range ht' hb hu' hlow hv' hw' hhigh hy' he hz'
    simpa [Test.squeezed] using this

variable {L : Library}

theorem parse_congr {s t : List Char} (h : strip s = strip t) :
    parseUnaryTest L s = parseUnaryTest L t := by
  unfold parseUnaryTest
  rw [h]

theorem condition_of_read {cell : List Char} {t : Test} {c : Value}
    (h : read L.float cell = some t) (hp : parseUnaryTest L (collapse cell) = .ok c) :
    Condition t.squeezed c := by
  rw [parse_congr (strip_collapse cell)] at hp
  refine condition_of_spelled (spelled_squeeze (spelled_of_read h) true) (fun hm => ?_) hp
  exact absurd (squeeze_tidy true cell '\n' hm (by decide)) (by decide)

end Dmn
