import Velaris.Py.Text
import Mathlib.Data.List.Basic
import Mathlib.Algebra.GroupWithZero.Nat

/-!
# Texts that stand for one value

* `mem_uuidText`, `uuidText_inj`   `str` of an identifier;
* `mem_toString`, `toString_inj`   `str` of a number.
-/

namespace Py

/-! ## identifiers -/

def hexDigits (u : Uuid) : List Char :=
  (List.range 32).map fun i => Nat.digitChar (u / 16 ^ (31 - i) % 16)

theorem digitChar_inj {d e : Nat} (hd : d < 16) (he : e < 16)
    (h : Nat.digitChar d = Nat.digitChar e) : d = e := by
  have hall : ∀ a b : Fin 16, Nat.digitChar a = Nat.digitChar b → a = b := by decide
  exact congrArg Fin.val (hall ⟨d, hd⟩ ⟨e, he⟩ h)

theorem digitChar_mem {d : Nat} (hd : d < 16) :
    Nat.digitChar d ∈ "0123456789abcdef".toList := by
  have hall : ∀ a : Fin 16, Nat.digitChar a ∈ "0123456789abcdef".toList := by decide
  exact hall ⟨d, hd⟩

theorem mem_hexDigits {u : Uuid} {c : Char} (h : c ∈ hexDigits u) :
    c ∈ "0123456789abcdef".toList := by
  obtain ⟨i, -, rfl⟩ := List.mem_map.mp h
  exact digitChar_mem (Nat.mod_lt _ (by omega))

theorem toList_uuidText (u : Uuid) : (uuidText u).toList =
    (hexDigits u).take 8 ++ '-' :: ((hexDigits u).drop 8).take 4 ++
      '-' :: ((hexDigits u).drop 12).take 4 ++ '-' :: ((hexDigits u).drop 16).take 4 ++
      '-' :: (hexDigits u).drop 20 := by
  rw [uuidText, String.toList_ofList]
  rfl

theorem mem_uuidText {u : Uuid} {c : Char} (h : c ∈ (uuidText u).toList) :
    c ∈ "0123456789abcdef-".toList := by
  have hhex : ∀ {c : Char}, c ∈ hexDigits u → c ∈ "0123456789abcdef-".toList := by
    intro c hc
    have hdigit := mem_hexDigits hc
    revert hdigit
    show c ∈ "0123456789abcdef".toList → c ∈ "0123456789abcdef".toList ++ ['-']
    exact List.mem_append_left _
  rw [toList_uuidText] at h
  simp only [List.mem_append, List.mem_cons, or_assoc] at h
  rcases h with h | h | h | h | h | h | h | h | h
  · exact hhex (List.mem_of_mem_take h)
  · rw [h]
    decide
  · exact hhex (List.mem_of_mem_drop (List.mem_of_mem_take h))
  · rw [h]
    decide
  · exact hhex (List.mem_of_mem_drop (List.mem_of_mem_take h))
  · rw [h]
    decide
  · exact hhex (List.mem_of_mem_drop (List.mem_of_mem_take h))
  · rw [h]
    decide
  · exact hhex (List.mem_of_mem_drop h)

theorem take_drop_append {α : Type} (l : List α) (n m : Nat) :
    (l.drop n).take m ++ l.drop (n + m) = l.drop n := by
  rw [← List.drop_drop, List.take_append_drop]

theorem filter_uuidText (u : Uuid) : (uuidText u).toList.filter (· ≠ '-') = hexDigits u := by
  have hkeep : ∀ {cs : List Char}, (∀ c ∈ cs, c ∈ hexDigits u) → cs.filter (· ≠ '-') = cs := by
    intro cs hcs
    apply List.filter_eq_self.mpr
    intro c hc
    have hdigit := mem_hexDigits (hcs c hc)
    apply decide_eq_true
    rintro rfl
    revert hdigit
    decide
  have hdrop : ∀ (n m : Nat), ∀ c ∈ ((hexDigits u).drop n).take m, c ∈ hexDigits u :=
    fun n m c hc => List.mem_of_mem_drop (List.mem_of_mem_take hc)
  rw [toList_uuidText, List.filter_append, List.filter_append, List.filter_append,
    List.filter_append]
  simp only [List.filter_cons, ne_eq, not_true_eq_false, decide_false, Bool.false_eq_true, if_false]
  rw [hkeep fun c hc => List.mem_of_mem_take hc, hkeep (hdrop 8 4), hkeep (hdrop 12 4),
    hkeep (hdrop 16 4), hkeep fun c hc => List.mem_of_mem_drop hc]
  rw [List.append_assoc, take_drop_append _ 16 4, List.append_assoc, take_drop_append _ 12 4,
    List.append_assoc, take_drop_append _ 8 4, List.take_append_drop]

theorem mod_pow_eq_of_digits {u v : Nat} (n : Nat)
    (h : ∀ i < n, u / 16 ^ i % 16 = v / 16 ^ i % 16) : u % 16 ^ n = v % 16 ^ n := by
  induction n with
  | zero => rw [pow_zero, Nat.mod_one, Nat.mod_one]
  | succ n ih =>
    rw [Nat.mod_pow_succ, Nat.mod_pow_succ, ih fun i hi => h i (by omega), h n (by omega)]

theorem uuidText_inj {u v : Uuid} (hu : u < 2 ^ 128) (hv : v < 2 ^ 128)
    (h : uuidText u = uuidText v) : u = v := by
  have hhex : hexDigits u = hexDigits v := by
    rw [← filter_uuidText, h, filter_uuidText]
  have hdigit : ∀ i < 32, u / 16 ^ i % 16 = v / 16 ^ i % 16 := by
    intro i hi
    have hchar : Nat.digitChar (u / 16 ^ i % 16) = Nat.digitChar (v / 16 ^ i % 16) := by
      have hat := List.map_eq_map_iff.mp hhex (31 - i) (List.mem_range.mpr (by omega))
      rwa [show 31 - (31 - i) = i by omega] at hat
    exact digitChar_inj (Nat.mod_lt _ (by omega)) (Nat.mod_lt _ (by omega)) hchar
  have hmod := mod_pow_eq_of_digits 32 hdigit
  rwa [Nat.mod_eq_of_lt (by omega), Nat.mod_eq_of_lt (by omega)] at hmod

/-! ## numbers -/

theorem mem_natRepr {n : Nat} {c : Char} (h : c ∈ (Nat.repr n).toList) : c.isDigit = true := by
  rw [Nat.repr, String.toList_ofList] at h
  exact Nat.isDigit_of_mem_toDigits (by decide) (by decide) h

theorem natRepr_inj {m n : Nat} (h : Nat.repr m = Nat.repr n) : m = n := by
  have hdigits : Nat.toDigits 10 m = Nat.toDigits 10 n := by
    have htexts := congrArg String.toList h
    rwa [Nat.repr, Nat.repr, String.toList_ofList, String.toList_ofList] at htexts
  have hvalues := congrArg (Nat.ofDigitChars 10 · 0) hdigits
  simpa only [Nat.ofDigitChars_ten_toDigits] using hvalues

theorem toList_negSucc (m : Nat) :
    (toString (Int.negSucc m)).toList = '-' :: (Nat.repr (m + 1)).toList := by
  simp [toString, Int.repr]

theorem mem_toString {n : Int} {c : Char} (h : c ∈ (toString n).toList) :
    c.isDigit = true ∨ c = '-' := by
  cases n with
  | ofNat m => exact Or.inl (mem_natRepr h)
  | negSucc m =>
    rw [toList_negSucc] at h
    rcases List.mem_cons.mp h with rfl | hmem
    · exact Or.inr rfl
    · exact Or.inl (mem_natRepr hmem)

theorem toString_inj {a b : Int} (h : toString a = toString b) : a = b := by
  have hmixed : ∀ m n : Nat, toString (Int.ofNat m) ≠ toString (Int.negSucc n) := by
    intro m n hmn
    have hdash : '-' ∈ (Nat.repr m).toList := by
      show '-' ∈ (toString (Int.ofNat m)).toList
      rw [hmn, toList_negSucc]
      exact List.mem_cons_self
    exact absurd (mem_natRepr hdash) (by decide)
  cases a with
  | ofNat m =>
    cases b with
    | ofNat n => exact congrArg Int.ofNat (natRepr_inj h)
    | negSucc n => exact absurd h (hmixed m n)
  | negSucc m =>
    cases b with
    | ofNat n => exact absurd h.symm (hmixed n m)
    | negSucc n =>
      have htexts := congrArg String.toList h
      rw [toList_negSucc, toList_negSucc] at htexts
      have hrepr := String.toList_inj.mp (List.cons.inj htexts).2
      have hsucc := natRepr_inj hrepr
      rw [show m = n by omega]

end Py
