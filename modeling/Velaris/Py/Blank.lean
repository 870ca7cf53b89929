import Velaris.Py.Value
import Mathlib.Data.List.Basic

/-!
# Blanks

* `Blank`   a text of white space;  `Solid`: a text with none at its ends;
* `split`   `s.split()`;
* `collapse`   `" ".join(s.split())`;
* `squeeze`   every run of white space made one blank; `squeeze true` drops a first one;
* `strip_collapse`   up to `strip`, collapsing is squeezing.
-/

namespace Py

def Blank (w : List Char) : Prop := ∀ c ∈ w, isSpace c = true

theorem blank_nil : Blank [] := fun _ h => absurd h List.not_mem_nil

theorem Blank.head {c : Char} {w : List Char} (h : Blank (c :: w)) : isSpace c = true :=
  h c List.mem_cons_self

theorem Blank.tail {c : Char} {w : List Char} (h : Blank (c :: w)) : Blank w :=
  fun d hd => h d (List.mem_cons_of_mem c hd)

theorem Blank.append {v w : List Char} (hv : Blank v) (hw : Blank w) : Blank (v ++ w) :=
  fun c hc => (List.mem_append.mp hc).elim (hv c) (hw c)

theorem Blank.reverse {w : List Char} (h : Blank w) : Blank w.reverse :=
  fun c hc => h c (List.mem_reverse.mp hc)

theorem not_isSpace_of_all {x : List Char} (h : x.all (!isSpace ·) = true) :
    ∀ c ∈ x, isSpace c = false :=
  fun c hc => by simpa using List.all_eq_true.mp h c hc

/-- a text that neither starts nor ends with white space -/
structure Solid (x : List Char) : Prop where
  first : ∃ c y, x = c :: y ∧ isSpace c = false
  last : ∃ c y, x = y ++ [c] ∧ isSpace c = false

theorem solid_singleton {c : Char} (h : isSpace c = false) : Solid [c] :=
  ⟨⟨c, [], rfl, h⟩, ⟨c, [], rfl, h⟩⟩

theorem solid_between {c d : Char} (x : List Char) (hc : isSpace c = false)
    (hd : isSpace d = false) : Solid (c :: x ++ [d]) :=
  ⟨⟨c, x ++ [d], rfl, hc⟩, ⟨d, c :: x, rfl, hd⟩⟩

theorem solid_of_forall {x : List Char} (hne : x ≠ []) (h : ∀ c ∈ x, isSpace c = false) :
    Solid x := by
  refine ⟨?_, ?_⟩
  · cases x with
    | nil => exact absurd rfl hne
    | cons c y => exact ⟨c, y, rfl, h c List.mem_cons_self⟩
  · obtain ⟨y, c, rfl⟩ := List.eq_nil_or_concat' x |>.resolve_left hne
    exact ⟨c, y, rfl, h c (by simp)⟩

theorem Solid.ne_nil {x : List Char} (h : Solid x) : x ≠ [] := by
  obtain ⟨c, y, rfl, -⟩ := h.first
  exact List.cons_ne_nil c y

theorem Solid.append {x z : List Char} (hx : Solid x) (y : List Char) (hz : Solid z) :
    Solid (x ++ y ++ z) := by
  obtain ⟨c, x', rfl, hc⟩ := hx.first
  obtain ⟨d, z', rfl, hd⟩ := hz.last
  exact ⟨⟨c, x' ++ y ++ (z' ++ [d]), by simp, hc⟩, ⟨d, c :: x' ++ y ++ z', by simp, hd⟩⟩

/-! ## `strip` -/

theorem dropWhile_blank {w : List Char} (h : Blank w) (s : List Char) :
    (w ++ s).dropWhile isSpace = s.dropWhile isSpace := by
  induction w with
  | nil => rfl
  | cons c w ih =>
    rw [List.cons_append, List.dropWhile_cons_of_pos h.head]
    exact ih h.tail

theorem dropWhile_solid {x : List Char} (h : Solid x) (s : List Char) :
    (x ++ s).dropWhile isSpace = x ++ s := by
  obtain ⟨c, y, rfl, hc⟩ := h.first
  rw [List.cons_append, List.dropWhile_cons_of_neg (by simp [hc])]

theorem rstrip_blank {w : List Char} (h : Blank w) (s : List Char) :
    rstrip isSpace (s ++ w) = rstrip isSpace s := by
  unfold rstrip
  rw [List.reverse_append, dropWhile_blank h.reverse]

theorem rstrip_solid {x : List Char} (h : Solid x) (s : List Char) :
    rstrip isSpace (s ++ x) = s ++ x := by
  obtain ⟨c, y, rfl, hc⟩ := h.last
  unfold rstrip
  rw [← List.append_assoc, List.reverse_append, List.reverse_singleton, List.singleton_append,
    List.dropWhile_cons_of_neg (by simp [hc]), List.reverse_cons, List.reverse_reverse]

theorem rstrip_cons_of_not {c : Char} (h : isSpace c = false) (s : List Char) :
    rstrip isSpace (c :: s) = c :: rstrip isSpace s := by
  unfold rstrip
  rw [List.reverse_cons, List.dropWhile_append]
  cases hd : s.reverse.dropWhile isSpace with
  | nil => simp [h]
  | cons d t => simp

theorem rstrip_cons (c : Char) (s : List Char) : rstrip isSpace (c :: s) =
    if isSpace c = true ∧ rstrip isSpace s = [] then [] else c :: rstrip isSpace s := by
  cases h : isSpace c with
  | false => simpa using rstrip_cons_of_not h s
  | true =>
    unfold rstrip
    rw [List.reverse_cons, List.dropWhile_append]
    cases hd : s.reverse.dropWhile isSpace with
    | nil => simp [h]
    | cons d t => simp

theorem rstrip_append_cons {c : Char} (h : isSpace c = false) (s t : List Char) :
    rstrip isSpace (s ++ c :: t) = s ++ c :: rstrip isSpace t := by
  unfold rstrip
  rw [List.reverse_append, List.reverse_cons, List.append_assoc, List.dropWhile_append]
  cases hd : t.reverse.dropWhile isSpace with
  | nil => simp [h]
  | cons d u => simp

theorem strip_pad {v w x : List Char} (hv : Blank v) (hw : Blank w) (hx : Solid x) :
    strip (v ++ x ++ w) = x := by
  unfold strip
  rw [List.append_assoc, dropWhile_blank hv, dropWhile_solid hx, rstrip_blank hw]
  simpa using rstrip_solid hx []

theorem strip_solid {x : List Char} (hx : Solid x) : strip x = x := by
  simpa using strip_pad blank_nil blank_nil hx

theorem dropWhile_blank_all {w : List Char} (h : Blank w) : w.dropWhile isSpace = [] := by
  simpa using dropWhile_blank h []

theorem strip_blank {w : List Char} (h : Blank w) : strip w = [] := by
  unfold strip
  rw [dropWhile_blank_all h]
  rfl

theorem strip_cons_of_blank {c : Char} (h : isSpace c = true) (s : List Char) :
    strip (c :: s) = strip s := by
  unfold strip
  rw [List.dropWhile_cons_of_pos h]

theorem strip_rstrip (s : List Char) : strip (rstrip isSpace s) = strip s := by
  induction s with
  | nil => rfl
  | cons c s ih =>
    cases h : isSpace c with
    | false =>
      unfold strip
      rw [rstrip_cons_of_not h, List.dropWhile_cons_of_neg (by simp [h]),
        List.dropWhile_cons_of_neg (by simp [h]), rstrip_cons_of_not h, rstrip_cons_of_not h]
      congr 1
      unfold rstrip
      rw [List.reverse_reverse]
      cases hd : s.reverse.dropWhile isSpace with
      | nil => rfl
      | cons d t =>
        have hn := List.head_dropWhile_not isSpace (l := s.reverse) (by simp [hd])
        rw [List.dropWhile_cons_of_neg (by simpa [hd] using hn)]
    | true =>
      rw [strip_cons_of_blank h, rstrip_cons]
      by_cases hr : rstrip isSpace s = []
      · rw [if_pos ⟨h, hr⟩, ← ih, hr]
      · rw [if_neg (fun hx => hr hx.2), strip_cons_of_blank h, ih]

/-! ## `split` and `join` -/

/-- `s.split()` -/
def split (s : List Char) : List (List Char) := (s.splitOnP isSpace).filter (· ≠ [])

/-- `" ".join(s.split())` -/
def collapse (s : List Char) : List Char := [' '].intercalate (split s)

/-- every run of white space made one blank; the flag says that a blank was just written -/
def squeeze : Bool → List Char → List Char
  | _, [] => []
  | after, c :: s =>
    if isSpace c then (if after then squeeze true s else ' ' :: squeeze true s)
    else c :: squeeze false s

theorem split_cons_of_blank {c : Char} (h : isSpace c = true) (s : List Char) :
    split (c :: s) = split s := by
  simp [split, List.splitOnP_cons_eq_if_modifyHead, h]

theorem collapse_eq_nil {s : List Char} : collapse s = [] ↔ split s = [] := by
  unfold collapse
  constructor
  · intro h
    cases hs : split s with
    | nil => rfl
    | cons w ws =>
      have hw : w ≠ [] := by
        have : w ∈ split s := by rw [hs]; exact List.mem_cons_self
        simpa using (List.mem_filter.mp this).2
      rw [hs] at h
      cases ws <;> simp_all [List.intercalate]
  · intro h
    rw [h]
    rfl

theorem collapse_cons_of_blank {c : Char} (h : isSpace c = true) (s : List Char) :
    collapse (c :: s) = collapse s := by
  rw [collapse, split_cons_of_blank h, collapse]

theorem collapse_cons_cons {c d : Char} (hc : isSpace c = false) (hd : isSpace d = false)
    (s : List Char) : collapse (c :: d :: s) = c :: collapse (d :: s) := by
  obtain ⟨h, t, hs⟩ := List.exists_cons_of_ne_nil (List.splitOnP_ne_nil isSpace s)
  simp only [collapse, split, List.splitOnP_cons_eq_if_modifyHead, hc, hd, hs, Bool.false_eq_true,
    if_false, List.modifyHead_cons]
  simp

theorem collapse_cons_blank {c d : Char} (hc : isSpace c = false) (hd : isSpace d = true)
    (s : List Char) : collapse (c :: d :: s) =
      c :: (if collapse s = [] then [] else ' ' :: collapse s) := by
  have hsplit : split (c :: d :: s) = [c] :: split s := by
    simp [split, List.splitOnP_cons_eq_if_modifyHead, hc, hd]
  by_cases hs : collapse s = []
  · rw [if_pos hs, collapse, hsplit, collapse_eq_nil.mp hs]
    rfl
  · rw [if_neg hs, collapse, hsplit, collapse]
    obtain ⟨w, ws, hw⟩ := List.exists_cons_of_ne_nil fun h => hs (collapse_eq_nil.mpr h)
    rw [hw]
    simp [List.intercalate]

theorem collapse_eq_squeeze (s : List Char) : collapse s = rstrip isSpace (squeeze true s) ∧
    ∀ c, isSpace c = false → collapse (c :: s) = c :: rstrip isSpace (squeeze false s) := by
  induction s with
  | nil =>
    refine ⟨rfl, fun c hc => ?_⟩
    simp [collapse, split, squeeze, List.splitOnP_cons_eq_if_modifyHead, hc, rstrip,
      List.intercalate]
  | cons d s ih =>
    obtain ⟨ihs, ihc⟩ := ih
    cases hd : isSpace d with
    | true =>
      refine ⟨?_, fun c hc => ?_⟩
      · rw [collapse_cons_of_blank hd, ihs]
        simp [squeeze, hd]
      · rw [collapse_cons_blank hc hd, ihs]
        simp [squeeze, hd, rstrip_cons, show isSpace ' ' = true from rfl]
    | false =>
      refine ⟨?_, fun c hc => ?_⟩
      · rw [ihc d hd]
        simp [squeeze, hd, rstrip_cons_of_not]
      · rw [collapse_cons_cons hc hd, ihc d hd]
        simp [squeeze, hd, rstrip_cons_of_not]

theorem strip_collapse (s : List Char) : strip (collapse s) = strip (squeeze true s) := by
  rw [(collapse_eq_squeeze s).1, strip_rstrip]

/-! ## squeezing a text in parts -/

theorem squeeze_solid {x : List Char} (hx : ∀ c ∈ x, isSpace c = false) (after : Bool)
    (s : List Char) (hne : x ≠ []) : squeeze after (x ++ s) = x ++ squeeze false s := by
  induction x generalizing after with
  | nil => exact absurd rfl hne
  | cons c x ih =>
    have hc : isSpace c = false := hx c List.mem_cons_self
    rw [List.cons_append, squeeze, hc]
    cases x with
    | nil => simp
    | cons d x => simpa using ih (fun e he => hx e (List.mem_cons_of_mem c he)) false (by simp)

theorem squeeze_cons_of_not {c : Char} (h : isSpace c = false) (after : Bool) (s : List Char) :
    squeeze after (c :: s) = c :: squeeze false s := by
  simp [squeeze, h]

theorem squeeze_blank {w : List Char} (hw : Blank w) (after : Bool) (s : List Char) :
    ∃ v b, Blank v ∧ squeeze after (w ++ s) = v ++ squeeze b s := by
  induction w generalizing after with
  | nil => exact ⟨[], after, blank_nil, rfl⟩
  | cons c w ih =>
    obtain ⟨v, b, hv, he⟩ := ih hw.tail true
    cases after with
    | true => exact ⟨v, b, hv, by simp [squeeze, hw.head, he]⟩
    | false =>
      refine ⟨' ' :: v, b, ?_, by simp [squeeze, hw.head, he]⟩
      intro d hd
      exact (List.mem_cons.mp hd).elim (fun h => h ▸ rfl) (hv d)

theorem squeeze_tidy (after : Bool) (s : List Char) :
    ∀ c ∈ squeeze after s, isSpace c = true → c = ' ' := by
  induction s generalizing after with
  | nil => exact fun c hc => absurd hc List.not_mem_nil
  | cons d s ih =>
    intro c hc hsp
    cases hd : isSpace d with
    | false =>
      rw [squeeze_cons_of_not hd] at hc
      obtain rfl | hc := List.mem_cons.mp hc
      · rw [hd] at hsp
        exact absurd hsp Bool.false_ne_true
      · exact ih false c hc hsp
    | true =>
      cases after with
      | true => exact ih true c (by simpa [squeeze, hd] using hc) hsp
      | false =>
        obtain rfl | hc : c = ' ' ∨ c ∈ squeeze true s := by simpa [squeeze, hd] using hc
        · rfl
        · exact ih true c hc hsp

end Py
