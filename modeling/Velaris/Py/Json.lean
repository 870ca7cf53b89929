import Velaris.Py.Doc
import Velaris.Py.Identifiers

/-!
# JSON texts can be read back

`json.dumps(v, sort_keys=True, separators=(",", ":"))` in which only quotes and backslashes need an
escape, and a float is written as a fraction.

* `text`   the characters of a value, the items of its dictionaries as they stand;
* `text_append_inj`   a text shows where it ends, and of which value it is;
* `scan`, `scan_text`  a text closes its brackets, and leaves no string open;
* `suffix_text`   no text of a dictionary ends with another one's.
-/

namespace Py
namespace Json

def escape (c : Char) : List Char := if c = '"' ∨ c = '\\' then ['\\', c] else [c]

def quoted (s : String) : List Char := '"' :: (s.toList.flatMap escape ++ ['"'])

def fraction (q : ℚ) : List Char :=
  (toString q.num).toList ++ '/' :: (toString (q.den : Int)).toList

def word? : Value → Option (List Char)
  | .none => some "null".toList
  | .bool b => some (if b then "true" else "false").toList
  | .int n => some (toString n).toList
  | .float q => some (fraction q)
  | .str _ | .list _ | .dict _ => Option.none

mutual

def text : Value → List Char
  | .str s => quoted s
  | .list [] => ['[', ']']
  | .list (x :: xs) => '[' :: (text x ++ (elems xs ++ [']']))
  | .dict [] => ['\x7b', '\x7d']
  | .dict ((k, x) :: items) => '\x7b' :: (quoted k ++ ':' :: (text x ++ (pairs items ++ ['\x7d'])))
  | v => (word? v).getD []

def elems : List Value → List Char
  | [] => []
  | x :: xs => ',' :: (text x ++ elems xs)

def pairs : List (String × Value) → List Char
  | [] => []
  | (k, x) :: items => ',' :: (quoted k ++ ':' :: (text x ++ pairs items))

end

/-! ## words -/

def wordChar (c : Char) : Bool := c.isAlphanum || c == '-' || c == '/'

def Ends (s : List Char) : Prop := ∀ c, s.head? = some c → wordChar c = false

theorem word_append_inj {v w s t : List Char} (hv : ∀ c ∈ v, wordChar c = true)
    (hw : ∀ c ∈ w, wordChar c = true) (hs : Ends s) (ht : Ends t) (h : v ++ s = w ++ t) :
    v = w ∧ s = t := by
  have htake : ∀ {u r : List Char}, (∀ c ∈ u, wordChar c = true) → Ends r →
      (u ++ r).takeWhile wordChar = u := by
    intro u r hu hr
    rw [List.takeWhile_append_of_pos hu]
    cases r with
    | nil => simp
    | cons c r => rw [List.takeWhile_cons, hr c rfl]; simp
  have heq : v = w := by rw [← htake hv hs, h, htake hw ht]
  rw [heq] at h
  exact ⟨heq, List.append_cancel_left h⟩

theorem wordChar_of_number {n : Int} {c : Char} (h : c ∈ (toString n).toList) :
    wordChar c = true := by
  rcases mem_toString h with hdigit | rfl
  · simp [wordChar, Char.isAlphanum, hdigit]
  · rfl

theorem mem_word {v : Value} {cs : List Char} (h : word? v = some cs) :
    ∀ c ∈ cs, wordChar c = true := by
  cases v with
  | none =>
    cases h
    exact List.all_eq_true.mp (by decide +kernel)
  | bool b =>
    cases h
    cases b <;> exact List.all_eq_true.mp (by decide +kernel)
  | int n =>
    cases h
    exact fun c hc => wordChar_of_number hc
  | float q =>
    cases h
    intro c hc
    rcases List.mem_append.mp hc with hc | hc
    · exact wordChar_of_number hc
    · rcases List.mem_cons.mp hc with rfl | hc
      · rfl
      · exact wordChar_of_number hc
  | str _ | list _ | dict _ => cases h

theorem number_ne_nil (n : Int) : (toString n).toList ≠ [] := by
  cases n with
  | ofNat m =>
    show (Nat.repr m).toList ≠ []
    rw [Nat.repr, String.toList_ofList]
    exact Nat.toDigits_ne_nil
  | negSucc m =>
    rw [toList_negSucc]
    exact List.cons_ne_nil _ _

theorem word_ne_nil {v : Value} {cs : List Char} (h : word? v = some cs) : cs ≠ [] := by
  cases v with
  | none =>
    cases h
    decide
  | bool b =>
    cases h
    cases b <;> decide
  | int n =>
    cases h
    exact number_ne_nil n
  | float q =>
    cases h
    simp [fraction]
  | str _ | list _ | dict _ => cases h

theorem not_mem_number {n : Int} {c : Char} (hc : c = '/' ∨ c = 'l' ∨ c = 'e') :
    c ∉ (toString n).toList := by
  intro h
  rcases mem_toString h with hdigit | rfl
  · rcases hc with rfl | rfl | rfl <;> exact absurd hdigit (by decide)
  · exact absurd hc (by decide)

theorem fraction_inj {p q : ℚ} (h : fraction p = fraction q) : p = q := by
  have hsplit : ∀ r : ℚ, (fraction r).takeWhile (· ≠ '/') = (toString r.num).toList := by
    intro r
    rw [fraction, List.takeWhile_append_of_pos fun c hc => decide_eq_true ?_]
    · simp
    · rintro rfl
      exact not_mem_number (Or.inl rfl) hc
  have hnum : (toString p.num).toList = (toString q.num).toList := by
    rw [← hsplit p, h, hsplit q]
  rw [fraction, fraction, hnum] at h
  have hden := (List.cons.inj (List.append_cancel_left h)).2
  exact Rat.ext (toString_inj (String.toList_inj.mp hnum))
    (Int.ofNat.inj (toString_inj (String.toList_inj.mp hden)))

/-- three letters that tell the kinds of words apart -/
def letters (cs : List Char) : Bool × Bool × Bool :=
  (decide ('l' ∈ cs), decide ('e' ∈ cs), decide ('/' ∈ cs))

def lettersOf : Value → Bool × Bool × Bool
  | .none => (true, false, false)
  | .bool b => (!b, true, false)
  | .float _ => (false, false, true)
  | _ => (false, false, false)

theorem letters_word {v : Value} {cs : List Char} (h : word? v = some cs) :
    letters cs = lettersOf v := by
  cases v with
  | none =>
    cases h
    decide
  | bool b =>
    cases h
    cases b <;> decide
  | int n =>
    cases h
    rw [letters, decide_eq_false (not_mem_number (by simp)),
      decide_eq_false (not_mem_number (by simp)), decide_eq_false (not_mem_number (by simp))]
    rfl
  | float q =>
    cases h
    have hnot : ∀ c : Char, c = 'l' ∨ c = 'e' → c ∉ fraction q := by
      intro c hc hmem
      rcases List.mem_append.mp hmem with h | h
      · exact not_mem_number (Or.inr hc) h
      · rcases List.mem_cons.mp h with rfl | h
        · exact absurd hc (by decide)
        · exact not_mem_number (Or.inr hc) h
    have hslash : '/' ∈ fraction q := List.mem_append_right _ List.mem_cons_self
    rw [letters, decide_eq_false (hnot _ (by simp)), decide_eq_false (hnot _ (by simp)),
      decide_eq_true hslash]
    rfl
  | str _ | list _ | dict _ => cases h

theorem word_inj {v w : Value} {cs : List Char} (hv : word? v = some cs) (hw : word? w = some cs) :
    v = w := by
  have hletters : lettersOf v = lettersOf w := (letters_word hv).symm.trans (letters_word hw)
  have hsame := hv.trans hw.symm
  cases v with
  | none =>
    cases w with
    | none => rfl
    | bool _ | int _ | float _ => simp [lettersOf] at hletters
    | str _ | list _ | dict _ => cases hw
  | bool b =>
    cases w with
    | bool b' =>
      have hb : (!b) = !b' := congrArg Prod.fst hletters
      rw [Bool.not_inj hb]
    | none | int _ | float _ => simp [lettersOf] at hletters
    | str _ | list _ | dict _ => cases hw
  | int n =>
    cases w with
    | int m =>
      have htext := String.toList_inj.mp (Option.some.inj hsame)
      exact congrArg Value.int (toString_inj htext)
    | none | bool _ | float _ => simp [lettersOf] at hletters
    | str _ | list _ | dict _ => cases hw
  | float q =>
    cases w with
    | float r => exact congrArg Value.float (fraction_inj (Option.some.inj hsame))
    | none | bool _ | int _ => simp [lettersOf] at hletters
    | str _ | list _ | dict _ => cases hw
  | str _ | list _ | dict _ => cases hv

/-! ## strings -/

theorem escape_append_inj {c d : Char} {r u : List Char} (h : escape c ++ r = escape d ++ u) :
    c = d ∧ r = u := by
  rw [escape, escape] at h
  split at h
  · rename_i hc
    split at h
    · obtain ⟨-, h⟩ := List.cons.inj h
      exact List.cons.inj h
    · rename_i hd
      exact absurd (Or.inr (List.cons.inj h).1.symm) hd
  · rename_i hc
    split at h
    · exact absurd (Or.inr (List.cons.inj h).1) hc
    · exact List.cons.inj h

theorem escapes_append_inj {cs ds s t : List Char}
    (h : cs.flatMap escape ++ '"' :: s = ds.flatMap escape ++ '"' :: t) : cs = ds ∧ s = t := by
  have hquote : ∀ (d : Char) (r u : List Char), escape d ++ r ≠ '"' :: u := by
    intro d r u hd
    rw [escape] at hd
    split at hd
    · exact absurd (List.cons.inj hd).1 (by decide)
    · rename_i hplain
      exact hplain (Or.inl (List.cons.inj hd).1)
  induction cs generalizing ds with
  | nil =>
    cases ds with
    | nil => exact ⟨rfl, (List.cons.inj h).2⟩
    | cons d ds =>
      rw [List.flatMap_cons, List.append_assoc] at h
      exact absurd h.symm (hquote d _ _)
  | cons c cs ih =>
    rw [List.flatMap_cons, List.append_assoc] at h
    cases ds with
    | nil => exact absurd h (hquote c _ _)
    | cons d ds =>
      rw [List.flatMap_cons, List.append_assoc] at h
      obtain ⟨rfl, hrest⟩ := escape_append_inj h
      obtain ⟨rfl, hst⟩ := ih hrest
      exact ⟨rfl, hst⟩

theorem quoted_append_inj {k l : String} {s t : List Char} (h : quoted k ++ s = quoted l ++ t) :
    k = l ∧ s = t := by
  rw [quoted, quoted, List.cons_append, List.cons_append, List.append_assoc, List.append_assoc] at h
  obtain ⟨hchars, hrest⟩ := escapes_append_inj (List.cons.inj h).2
  exact ⟨String.toList_inj.mp hchars, hrest⟩

/-! ## texts -/

def shapeOf (c : Char) : Nat :=
  if c = '"' then 1 else if c = '[' then 2 else if c = '\x7b' then 3
  else if wordChar c then 0 else 4

def shape : Value → Nat
  | .str _ => 1
  | .list _ => 2
  | .dict _ => 3
  | _ => 0

theorem text_word {v : Value} (h : shape v = 0) : word? v = some (text v) := by
  cases v with
  | none | bool _ | int _ | float _ => rfl
  | str _ | list _ | dict _ => cases h

theorem shapeOf_word {c : Char} (h : wordChar c = true) : shapeOf c = 0 := by
  have hne : ∀ d : Char, wordChar d = false → c ≠ d := by
    rintro d hd rfl
    rw [h] at hd
    cases hd
  rw [shapeOf, if_neg (hne _ rfl), if_neg (hne _ rfl), if_neg (hne _ rfl), if_pos h]

theorem shape_word {v : Value} (h : shape v = 0) :
    ∃ c cs, text v = c :: cs ∧ shapeOf c = shape v := by
  have hword := text_word h
  cases htext : text v with
  | nil => exact absurd htext (word_ne_nil hword)
  | cons c cs =>
    rw [htext] at hword
    exact ⟨c, cs, rfl, by rw [h, shapeOf_word (mem_word hword c List.mem_cons_self)]⟩

theorem shape_text (v : Value) : ∃ c cs, text v = c :: cs ∧ shapeOf c = shape v := by
  cases v with
  | str s => exact ⟨_, _, by rw [text, quoted], rfl⟩
  | list xs =>
    cases xs with
    | nil => exact ⟨_, _, by rw [text], rfl⟩
    | cons x xs => exact ⟨_, _, by rw [text], rfl⟩
  | dict items =>
    cases items with
    | nil => exact ⟨_, _, by rw [text], rfl⟩
    | cons p items => exact ⟨_, _, by rw [text], rfl⟩
  | none | bool _ | int _ | float _ => exact shape_word rfl

theorem shape_eq {v w : Value} {s t : List Char} (h : text v ++ s = text w ++ t) :
    shape v = shape w := by
  obtain ⟨c, cs, hv, hc⟩ := shape_text v
  obtain ⟨d, ds, hw, hd⟩ := shape_text w
  rw [hv, hw] at h
  rw [← hc, ← hd, (List.cons.inj h).1]

theorem ends_of_mem {c : Char} {s : List Char} (h : c = ',' ∨ c = ']' ∨ c = '\x7d') :
    Ends (c :: s) := by
  rintro d hd
  cases hd
  rcases h with rfl | rfl | rfl <;> decide

theorem ends_elems (xs : List Value) (s : List Char) : Ends (elems xs ++ ']' :: s) := by
  cases xs with
  | nil => exact ends_of_mem (Or.inr (Or.inl rfl))
  | cons x xs => exact ends_of_mem (Or.inl rfl)

theorem ends_pairs (items : List (String × Value)) (s : List Char) :
    Ends (pairs items ++ '\x7d' :: s) := by
  cases items with
  | nil => exact ends_of_mem (Or.inr (Or.inr rfl))
  | cons p items => exact ends_of_mem (Or.inl rfl)

theorem words_append_inj {v w : Value} (hv : shape v = 0) {s t : List Char} (hs : Ends s)
    (ht : Ends t) (h : text v ++ s = text w ++ t) : v = w ∧ s = t := by
  have hword := text_word hv
  have hword' := text_word (hv ▸ shape_eq h).symm
  obtain ⟨htext, hst⟩ := word_append_inj (mem_word hword) (mem_word hword') hs ht h
  rw [← htext] at hword'
  exact ⟨word_inj hword hword', hst⟩

theorem not_text {c : Char} (hc : shapeOf c = 4) {v : Value} {s t : List Char} :
    text v ++ s ≠ c :: t := by
  intro h
  obtain ⟨d, ds, hv, hd⟩ := shape_text v
  rw [hv] at h
  rw [(List.cons.inj h).1] at hd
  have hle : shape v ≤ 3 := by cases v <;> simp [shape]
  omega

mutual

/-- **A text shows where it ends, and of which value it is.** -/
theorem text_append_inj : ∀ (v w : Value) {s t : List Char}, Ends s → Ends t →
    text v ++ s = text w ++ t → v = w ∧ s = t
  | .str k, w, s, t, hs, ht, h => by
    have hshape := shape_eq h
    cases w with
    | str l =>
      obtain ⟨hkl, hst⟩ := quoted_append_inj h
      exact ⟨congrArg Value.str hkl, hst⟩
    | none | bool _ | int _ | float _ | list _ | dict _ => cases hshape
  | .list xs, w, s, t, hs, ht, h => by
    have hshape := shape_eq h
    cases w with
    | list ys =>
      obtain ⟨hxys, hst⟩ := list_append_inj xs ys h
      exact ⟨congrArg Value.list hxys, hst⟩
    | none | bool _ | int _ | float _ | str _ | dict _ => cases hshape
  | .dict items, w, s, t, hs, ht, h => by
    have hshape := shape_eq h
    cases w with
    | dict items' =>
      obtain ⟨hitems, hst⟩ := dict_append_inj items items' h
      exact ⟨congrArg Value.dict hitems, hst⟩
    | none | bool _ | int _ | float _ | str _ | list _ => cases hshape
  | .none, _, _, _, hs, ht, h => words_append_inj rfl hs ht h
  | .bool _, _, _, _, hs, ht, h => words_append_inj rfl hs ht h
  | .int _, _, _, _, hs, ht, h => words_append_inj rfl hs ht h
  | .float _, _, _, _, hs, ht, h => words_append_inj rfl hs ht h

theorem list_append_inj : ∀ (xs ys : List Value) {s t : List Char},
    text (.list xs) ++ s = text (.list ys) ++ t → xs = ys ∧ s = t
  | [], ys, s, t, h => by
    cases ys with
    | nil => exact ⟨rfl, (List.cons.inj (List.cons.inj h).2).2⟩
    | cons y ys =>
      simp only [text, List.cons_append, List.append_assoc, List.cons.injEq, true_and] at h
      exact absurd h.symm (not_text rfl)
  | x :: xs, ys, s, t, h => by
    cases ys with
    | nil =>
      simp only [text, List.cons_append, List.append_assoc, List.cons.injEq, true_and] at h
      exact absurd h (not_text rfl)
    | cons y ys =>
      simp only [text, List.cons_append, List.append_assoc, List.cons.injEq, true_and] at h
      obtain ⟨hxy, hrest⟩ := text_append_inj x y (ends_elems xs s) (ends_elems ys t) h
      obtain ⟨hxys, hst⟩ := elems_append_inj xs ys hrest
      exact ⟨by rw [hxy, hxys], hst⟩

theorem elems_append_inj : ∀ (xs ys : List Value) {s t : List Char},
    elems xs ++ ']' :: s = elems ys ++ ']' :: t → xs = ys ∧ s = t
  | [], ys, s, t, h => by
    cases ys with
    | nil => exact ⟨rfl, (List.cons.inj h).2⟩
    | cons y ys => exact absurd (List.cons.inj h).1 (by decide)
  | x :: xs, ys, s, t, h => by
    cases ys with
    | nil => exact absurd (List.cons.inj h).1 (by decide)
    | cons y ys =>
      simp only [elems, List.cons_append, List.append_assoc, List.cons.injEq, true_and] at h
      obtain ⟨hxy, hrest⟩ := text_append_inj x y (ends_elems xs s) (ends_elems ys t) h
      obtain ⟨hxys, hst⟩ := elems_append_inj xs ys hrest
      exact ⟨by rw [hxy, hxys], hst⟩

theorem dict_append_inj : ∀ (items items' : List (String × Value)) {s t : List Char},
    text (.dict items) ++ s = text (.dict items') ++ t → items = items' ∧ s = t
  | [], items', s, t, h => by
    cases items' with
    | nil => exact ⟨rfl, (List.cons.inj (List.cons.inj h).2).2⟩
    | cons p items' => exact absurd (List.cons.inj (List.cons.inj h).2).1 (by decide)
  | (k, x) :: items, items', s, t, h => by
    cases items' with
    | nil => exact absurd (List.cons.inj (List.cons.inj h).2).1 (by decide)
    | cons p items' =>
      obtain ⟨l, y⟩ := p
      simp only [text, List.cons_append, List.append_assoc, List.cons.injEq, true_and] at h
      obtain ⟨hkl, hvalue⟩ := quoted_append_inj h
      obtain ⟨hxy, hrest⟩ := text_append_inj x y (ends_pairs items s) (ends_pairs items' t)
        (List.cons.inj hvalue).2
      obtain ⟨hitems, hst⟩ := pairs_append_inj items items' hrest
      exact ⟨by rw [hkl, hxy, hitems], hst⟩

theorem pairs_append_inj : ∀ (items items' : List (String × Value)) {s t : List Char},
    pairs items ++ '\x7d' :: s = pairs items' ++ '\x7d' :: t → items = items' ∧ s = t
  | [], items', s, t, h => by
    cases items' with
    | nil => exact ⟨rfl, (List.cons.inj h).2⟩
    | cons p items' => exact absurd (List.cons.inj h).1 (by decide)
  | (k, x) :: items, items', s, t, h => by
    cases items' with
    | nil => exact absurd (List.cons.inj h).1 (by decide)
    | cons p items' =>
      obtain ⟨l, y⟩ := p
      rw [pairs, pairs, List.cons_append, List.cons_append, List.append_assoc, List.append_assoc,
        List.cons_append, List.cons_append, List.append_assoc, List.append_assoc] at h
      obtain ⟨hkl, hvalue⟩ := quoted_append_inj (List.cons.inj h).2
      obtain ⟨hxy, hrest⟩ := text_append_inj x y (ends_pairs items s) (ends_pairs items' t)
        (List.cons.inj hvalue).2
      obtain ⟨hitems, hst⟩ := pairs_append_inj items items' hrest
      exact ⟨by rw [hkl, hxy, hitems], hst⟩

end

theorem text_inj {v w : Value} (h : text v = text w) : v = w := by
  have hends : Ends [] := fun c hc => by cases hc
  exact (text_append_inj v w hends hends (by rw [h])).1

/-! ## brackets -/

inductive Mode where
  | out
  | inside
  | escaped

/-- one character read, with the number of brackets that are open -/
def step : Mode × Nat → Char → Option (Mode × Nat)
  | (.escaped, n), _ => some (.inside, n)
  | (.inside, n), c =>
    some (if c = '"' then .out else if c = '\\' then .escaped else .inside, n)
  | (.out, n), c =>
    if c = '"' then some (.inside, n)
    else if c = '\\' then none
    else if c = '[' ∨ c = '\x7b' then some (.out, n + 1)
    else if c = ']' ∨ c = '\x7d' then (if n = 0 then none else some (.out, n - 1))
    else some (.out, n)

def scan : Mode × Nat → List Char → Option (Mode × Nat)
  | r, [] => some r
  | r, c :: cs => (step r c).bind fun r => scan r cs

theorem scan_append (r : Mode × Nat) (cs ds : List Char) :
    scan r (cs ++ ds) = (scan r cs).bind fun r => scan r ds := by
  induction cs generalizing r with
  | nil => rfl
  | cons c cs ih =>
    rw [List.cons_append, scan, scan, Option.bind_assoc]
    exact congrArg _ (funext fun r => ih r)

theorem scan_word {cs : List Char} (h : ∀ c ∈ cs, wordChar c = true) (n : Nat) :
    scan (.out, n) cs = some (.out, n) := by
  induction cs with
  | nil => rfl
  | cons c cs ih =>
    have hc := h c List.mem_cons_self
    have hne : ∀ d : Char, wordChar d = false → c ≠ d := by
      rintro d hd rfl
      rw [hc] at hd
      cases hd
    have hstep : step (.out, n) c = some (.out, n) := by
      simp [step, hne '"' rfl, hne '\\' rfl, hne '[' rfl, hne '\x7b' rfl, hne ']' rfl,
        hne '\x7d' rfl]
    rw [scan, hstep, Option.bind_some]
    exact ih fun d hd => h d (List.mem_cons_of_mem c hd)

theorem scan_escapes (cs : List Char) (n : Nat) :
    scan (.inside, n) (cs.flatMap escape) = some (.inside, n) := by
  induction cs with
  | nil => rfl
  | cons c cs ih =>
    have hstep : scan (.inside, n) (escape c) = some (.inside, n) := by
      rw [escape]
      split
      · rfl
      · rename_i hplain
        rw [not_or] at hplain
        simp [scan, step, hplain.1, hplain.2]
    rw [List.flatMap_cons, scan_append, hstep, Option.bind_some, ih]

theorem scan_quoted (s : String) (n : Nat) : scan (.out, n) (quoted s) = some (.out, n) := by
  show scan (.inside, n) (s.toList.flatMap escape ++ ['"']) = some (.out, n)
  rw [scan_append, scan_escapes]
  rfl

mutual

theorem scan_text : ∀ (v : Value) (n : Nat), scan (.out, n) (text v) = some (.out, n)
  | .str s, n => scan_quoted s n
  | .list [], n => rfl
  | .list (x :: xs), n => by
    show scan (.out, n + 1) (text x ++ (elems xs ++ [']'])) = some (.out, n)
    rw [scan_append, scan_text x, Option.bind_some, scan_append, scan_elems xs]
    rfl
  | .dict [], n => rfl
  | .dict ((k, x) :: items), n => by
    show scan (.out, n + 1) (quoted k ++ ':' :: (text x ++ (pairs items ++ ['\x7d']))) =
      some (.out, n)
    rw [scan_append, scan_quoted, Option.bind_some]
    show scan (.out, n + 1) (text x ++ (pairs items ++ ['\x7d'])) = some (.out, n)
    rw [scan_append, scan_text x, Option.bind_some, scan_append, scan_pairs items]
    rfl
  | .none, n => scan_word (mem_word (v := .none) rfl) n
  | .bool b, n => scan_word (mem_word (v := .bool b) rfl) n
  | .int i, n => scan_word (mem_word (v := .int i) rfl) n
  | .float q, n => scan_word (mem_word (v := .float q) rfl) n

theorem scan_elems : ∀ (xs : List Value) (n : Nat), scan (.out, n) (elems xs) = some (.out, n)
  | [], n => rfl
  | x :: xs, n => by
    show scan (.out, n) (text x ++ elems xs) = some (.out, n)
    rw [scan_append, scan_text x, Option.bind_some, scan_elems xs]

theorem scan_pairs : ∀ (items : List (String × Value)) (n : Nat),
    scan (.out, n) (pairs items) = some (.out, n)
  | [], n => rfl
  | (k, x) :: items, n => by
    show scan (.out, n) (quoted k ++ ':' :: (text x ++ pairs items)) = some (.out, n)
    rw [scan_append, scan_quoted, Option.bind_some]
    show scan (.out, n) (text x ++ pairs items) = some (.out, n)
    rw [scan_append, scan_text x, Option.bind_some, scan_pairs items]

end

theorem text_dict (items : List (String × Value)) :
    ∃ cs, text (.dict items) = '\x7b' :: (cs ++ ['\x7d']) ∧
      scan (.out, 0) cs = some (.out, 0) := by
  cases items with
  | nil => exact ⟨[], rfl, rfl⟩
  | cons p items =>
    obtain ⟨k, x⟩ := p
    refine ⟨quoted k ++ ':' :: (text x ++ pairs items), by simp [text], ?_⟩
    rw [scan_append, scan_quoted, Option.bind_some]
    show scan (.out, 0) (text x ++ pairs items) = some (.out, 0)
    rw [scan_append, scan_text, Option.bind_some, scan_pairs]

theorem step_succ {m m' : Mode} {n n' : Nat} {c : Char} (h : step (m, n) c = some (m', n')) :
    step (m, n + 1) c = some (m', n' + 1) := by
  cases m with
  | escaped =>
    cases h
    rfl
  | inside =>
    cases h
    rfl
  | out =>
    rw [step] at h ⊢
    split at h
    · rename_i hc
      rw [if_pos hc]
      cases h
      rfl
    · rename_i hquote
      rw [if_neg hquote]
      split at h
      · cases h
      · rename_i hslash
        rw [if_neg hslash]
        split at h
        · rename_i hc
          rw [if_pos hc]
          cases h
          rfl
        · rename_i hopens
          rw [if_neg hopens]
          split at h
          · rename_i hc
            rw [if_pos hc, if_neg (Nat.succ_ne_zero n)]
            split at h
            · cases h
            · cases h
              rw [show n + 1 - 1 = n - 1 + 1 by omega]
          · rename_i hcloses
            rw [if_neg hcloses]
            cases h
            rfl

theorem scan_succ {m m' : Mode} {n n' : Nat} {cs : List Char} (h : scan (m, n) cs = some (m', n')) :
    scan (m, n + 1) cs = some (m', n' + 1) := by
  induction cs generalizing m n with
  | nil =>
    cases h
    rfl
  | cons c cs ih =>
    obtain ⟨⟨m₁, n₁⟩, hstep, hrest⟩ := Option.bind_eq_some_iff.mp h
    rw [scan, step_succ hstep, Option.bind_some]
    exact ih hrest

theorem opposite_step {n n' : Nat} {c : Char} {r r' : Mode × Nat} (h : step (.out, n) c = some r)
    (h' : step (.inside, n') c = some r') :
    r.1 = .inside ∧ r'.1 = .out ∨ r.1 = .out ∧ r'.1 = .inside := by
  rw [step] at h
  cases h'
  split at h
  · rename_i hquote
    cases h
    exact Or.inl ⟨rfl, if_pos hquote⟩
  · rename_i hquote
    split at h
    · cases h
    · rename_i hslash
      refine Or.inr ⟨?_, (if_neg hquote).trans (if_neg hslash)⟩
      split at h
      · cases h
        rfl
      · split at h
        · split at h
          · cases h
          · cases h
            rfl
        · cases h
          rfl

theorem opposite_scan {n n' : Nat} {cs : List Char} {r r' : Mode × Nat}
    (h : scan (.out, n) cs = some r) (h' : scan (.inside, n') cs = some r') : r.1 ≠ r'.1 := by
  induction cs generalizing n n' r r' with
  | nil =>
    cases h
    cases h'
    simp
  | cons c cs ih =>
    obtain ⟨⟨m₁, n₁⟩, hstep, hrest⟩ := Option.bind_eq_some_iff.mp h
    obtain ⟨⟨m₁', n₁'⟩, hstep', hrest'⟩ := Option.bind_eq_some_iff.mp h'
    rcases opposite_step hstep hstep' with ⟨hm, hm'⟩ | ⟨hm, hm'⟩
    · obtain rfl : m₁ = .inside := hm
      obtain rfl : m₁' = .out := hm'
      exact (ih hrest' hrest).symm
    · obtain rfl : m₁ = .out := hm
      obtain rfl : m₁' = .inside := hm'
      exact ih hrest hrest'

theorem isSome_scan_of_append {r : Mode × Nat} {cs ds : List Char} {q : Mode × Nat}
    (h : scan r (cs ++ ds) = some q) : ∃ p, scan r cs = some p ∧ scan p ds = some q := by
  rw [scan_append] at h
  exact Option.bind_eq_some_iff.mp h

/-- **No text of a dictionary ends with another one's.** -/
theorem suffix_text {items items' : List (String × Value)} {cs : List Char}
    (h : text (.dict items) = cs ++ text (.dict items')) : cs = [] := by
  obtain ⟨body, hbody, hscan⟩ := text_dict items
  obtain ⟨body', hbody', -⟩ := text_dict items'
  cases cs with
  | nil => rfl
  | cons c cs =>
    -- the rest of the prefix lies inside the outer brackets of the text
    rw [hbody, hbody'] at h
    have hinner : body ++ ['\x7d'] = (cs ++ '\x7b' :: body') ++ ['\x7d'] := by
      simpa using (List.cons.inj h).2
    obtain ⟨rfl, -⟩ := List.append_inj' hinner rfl
    obtain ⟨⟨m, k⟩, hprefix, hsuffix⟩ := isSome_scan_of_append hscan
    have hsuffix' : scan (m, k + 1) ('\x7b' :: (body' ++ ['\x7d'])) = some (.out, 0) := by
      rw [← List.cons_append, scan_append, scan_succ hsuffix]
      rfl
    have hitself : scan (.out, k + 1) ('\x7b' :: (body' ++ ['\x7d'])) = some (.out, k + 1) := by
      rw [← hbody']
      exact scan_text _ _
    cases m with
    | out =>
      rw [hitself] at hsuffix'
      simp at hsuffix'
    | inside => exact (opposite_scan hitself hsuffix' rfl).elim
    | escaped =>
      have hinside : scan (.inside, k + 1) (body' ++ ['\x7d']) = some (.out, 0) := hsuffix'
      have hout : scan (.out, k + 2) (body' ++ ['\x7d']) = some (.out, k + 1) := hitself
      exact (opposite_scan hout hinside rfl).elim

end Json
end Py
