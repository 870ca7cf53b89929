import Mathlib.Data.List.Range
import Mathlib.Algebra.Order.Group.Int
import Mathlib.Order.Lattice
import Mathlib.Order.Defs.LinearOrder
import Mathlib.Data.Int.Order.Basic

/-!
# Time

Of the instants, some count and some do not.

* `elapsed p s t`   how many instants from `s` up to `t` count;
* `Reaches p s d t`  `t` is where `d` of them, counted from `s`, are over;
* `Reaches.unique`, `Reaches.trans`   which is one instant only, and adds up.

A zone is an offset that changes at some instants, each with the offset from then on; the clocks are
set forward and back.

* `Zone.wall u`   what the clock shows at the instant `u`;
* `Zone.instant w`   the instant of the reading `w`: of the two instants of a repeated reading the
    first, and with the offset before the change for a reading that is skipped;
* `PassedBefore`   a change up to `u` was made when the clock was past `w`;
* `Separated`   no reading that a change skips or repeats is past the next change's.

A reading past `wall u` is the reading of an instant up to `u` only if the clock was set back from
past it (`passedBefore_of_instant_le`), and if the changes are separated whenever it was
(`instant_le_of_passedBefore`).
-/

namespace Base

variable {p : Int → Prop} [DecidablePred p]

def elapsed (p : Int → Prop) [DecidablePred p] (s t : Int) : Int :=
  ((List.range (t - s).toNat).countP fun i => p (s + (i : Nat)) : Nat)

theorem elapsed_of_le {s t : Int} (h : t ≤ s) : elapsed p s t = 0 := by
  have hzero : (t - s).toNat = 0 := by omega
  rw [elapsed, hzero]
  rfl

theorem elapsed_add {s t u : Int} (hst : s ≤ t) (htu : t ≤ u) :
    elapsed p s u = elapsed p s t + elapsed p t u := by
  have hlength : (u - s).toNat = (t - s).toNat + (u - t).toNat := by omega
  have hshift : ∀ i : Nat, s + (((t - s).toNat + i : Nat) : Int) = t + (i : Nat) := by
    intro i
    omega
  simp only [elapsed, hlength, List.range_add, List.countP_append, List.countP_map,
    Function.comp_def, hshift]
  push_cast
  rfl

theorem elapsed_of_all {s t : Int} (hst : s ≤ t) (hp : ∀ u, s ≤ u → u < t → p u) :
    elapsed p s t = t - s := by
  have hall : (List.range (t - s).toNat).countP (fun i => p (s + (i : Nat)))
      = (List.range (t - s).toNat).length := by
    refine List.countP_eq_length.mpr fun i hi => decide_eq_true (hp _ (by omega) ?_)
    rw [List.mem_range] at hi
    omega
  rw [elapsed, hall, List.length_range]
  omega

theorem elapsed_of_none {s t : Int} (hp : ∀ u, s ≤ u → u < t → ¬ p u) : elapsed p s t = 0 := by
  have hnone : (List.range (t - s).toNat).countP (fun i => p (s + (i : Nat))) = 0 := by
    refine List.countP_eq_zero.mpr fun i hi => ?_
    rw [List.mem_range] at hi
    rw [decide_eq_true_eq]
    exact hp _ (by omega) (by omega)
  rw [elapsed, hnone]
  rfl

theorem elapsed_pos {s t u : Int} (hsu : s ≤ u) (hut : u < t) (hp : p u) : 0 < elapsed p s t := by
  have hpos : 0 < (List.range (t - s).toNat).countP (fun i => p (s + (i : Nat))) := by
    refine List.countP_pos_iff.mpr ⟨(u - s).toNat, List.mem_range.mpr (by omega), ?_⟩
    have hback : s + ((u - s).toNat : Int) = u := by omega
    rw [decide_eq_true_eq, hback]
    exact hp
  rw [elapsed]
  exact_mod_cast hpos

theorem elapsed_of_idle {s n t : Int} (hsn : s ≤ n) (hidle : ∀ u, s ≤ u → u < n → ¬ p u) :
    elapsed p s t = elapsed p n t := by
  rcases le_total n t with hnt | htn
  · rw [elapsed_add hsn hnt, elapsed_of_none hidle, zero_add]
  · rw [elapsed_of_le htn, elapsed_of_none fun u hsu hut => hidle u hsu (by omega)]

/-! ## where a duration is over -/

/-- the instant before `t` counts, and is the last of `d` from `s` on -/
structure Reaches (p : Int → Prop) [DecidablePred p] (s d t : Int) : Prop where
  lt : s < t
  spent : elapsed p s t = d
  last : p (t - 1)

namespace Reaches

variable {s t u d e : Int}

/-- of two instants the later one has the instant before it still to count -/
theorem le (h : Reaches p s d t) (h' : Reaches p s d u) : t ≤ u := by
  by_contra hut
  have hsplit : elapsed p s t = elapsed p s u + elapsed p u t :=
    elapsed_add (le_of_lt h'.lt) (by omega)
  have hpos : 0 < elapsed p u t := elapsed_pos (u := t - 1) (by omega) (by omega) h.last
  have hspent := h.spent
  have hspent' := h'.spent
  omega

theorem unique (h : Reaches p s d t) (h' : Reaches p s d u) : t = u :=
  le_antisymm (h.le h') (h'.le h)

theorem after (hst : s ≤ t) (he : elapsed p s t = e) (h : Reaches p t d u) :
    Reaches p s (e + d) u where
  lt := lt_of_le_of_lt hst h.lt
  spent := by rw [elapsed_add hst (le_of_lt h.lt), he, h.spent]
  last := h.last

theorem of_idle (hst : s ≤ t) (hidle : ∀ v, s ≤ v → v < t → ¬ p v) (h : Reaches p t d u) :
    Reaches p s d u := by
  rw [← zero_add d]
  exact after hst (elapsed_of_none hidle) h

theorem trans (h : Reaches p s d t) (h' : Reaches p t e u) : Reaches p s (d + e) u :=
  after (le_of_lt h.lt) h.spent h'

theorem of_all (hd : 0 < d) (hp : ∀ u, s ≤ u → u < s + d → p u) : Reaches p s d (s + d) where
  lt := by omega
  spent := by rw [elapsed_of_all (by omega) hp]; omega
  last := hp _ (by omega) (by omega)

end Reaches
end Base

namespace Base

/-! ## offsets along a list of changes -/

/-- the offset at the instant `u`, where `o` is the one before the changes -/
def offsetFrom (o : Int) : List (Int × Int) → Int → Int
  | [], _ => o
  | (t, o') :: cs, u => if t ≤ u then offsetFrom o' cs u else o

/-- the offset that a reading is taken with: a change is behind it from the later of the readings
before and after the change -/
def readFrom (o : Int) : List (Int × Int) → Int → Int
  | [], _ => o
  | (t, o') :: cs, w => if t + max o o' ≤ w then readFrom o' cs w else o

def stepsFrom (o : Int) : List (Int × Int) → List (Int × Int)
  | [] => []
  | (t, o') :: cs => (t, o) :: stepsFrom o' cs

def SeparatedFrom : Int → List (Int × Int) → Prop
  | _, [] => True
  | _, [_] => True
  | o, (t, o') :: (t', o'') :: cs =>
    t + max o o' ≤ t' + min o' o'' ∧ SeparatedFrom o' ((t', o'') :: cs)

def Ascending (cs : List (Int × Int)) : Prop := cs.Pairwise fun c d => c.1 < d.1

theorem Ascending.head_lt {t o : Int} {cs : List (Int × Int)} (h : Ascending ((t, o) :: cs)) :
    ∀ c ∈ cs, t < c.1 := (List.pairwise_cons.mp h).1

theorem Ascending.tail {c : Int × Int} {cs : List (Int × Int)} (h : Ascending (c :: cs)) :
    Ascending cs := (List.pairwise_cons.mp h).2

theorem le_sub_readFrom {t o w : Int} {cs : List (Int × Int)} (hcs : Ascending cs)
    (ht : ∀ c ∈ cs, t < c.1) (hw : t + o ≤ w) : t ≤ w - readFrom o cs w := by
  induction cs generalizing t o with
  | nil =>
    show t ≤ w - o
    omega
  | cons c cs ih =>
    obtain ⟨t', o'⟩ := c
    have htt' : t < t' := ht (t', o') List.mem_cons_self
    rw [readFrom]
    split
    · next h =>
      have hrec := ih (o := o') hcs.tail hcs.head_lt (by omega)
      omega
    · omega

/-- a reading between the clock of `u` and that of a change up to `u`: the clock was set back by
the change after that -/
theorem exists_step_of_offset_lt {t o u w : Int} {cs : List (Int × Int)} (ht : ∀ c ∈ cs, t < c.1)
    (htu : t ≤ u) (hu : u + offsetFrom o cs u < w) (hw : w < t + o) :
    ∃ c ∈ stepsFrom o cs, c.1 ≤ u ∧ w < c.1 + c.2 := by
  cases cs with
  | nil =>
    have hu' : u + o < w := hu
    omega
  | cons c cs =>
    obtain ⟨t', o'⟩ := c
    have htt' : t < t' := ht (t', o') List.mem_cons_self
    rw [offsetFrom] at hu
    split at hu
    · next h =>
      refine ⟨(t', o), List.mem_cons_self, h, ?_⟩
      show w < t' + o
      omega
    · omega

theorem exists_step_of_read_le {o u w : Int} {cs : List (Int × Int)} (hcs : Ascending cs)
    (hu : u + offsetFrom o cs u < w) (hle : w - readFrom o cs w ≤ u) :
    ∃ c ∈ stepsFrom o cs, c.1 ≤ u ∧ w < c.1 + c.2 := by
  induction cs generalizing o with
  | nil =>
    have hu' : u + o < w := hu
    have hle' : w - o ≤ u := hle
    omega
  | cons c cs ih =>
    obtain ⟨t, o'⟩ := c
    rw [offsetFrom] at hu
    rw [readFrom] at hle
    by_cases htu : t ≤ u
    · rw [if_pos htu] at hu
      by_cases hread : t + max o o' ≤ w
      · rw [if_pos hread] at hle
        obtain ⟨c, hc, h⟩ := ih hcs.tail hu hle
        exact ⟨c, List.mem_cons_of_mem _ hc, h⟩
      · by_cases hback : w < t + o
        · exact ⟨(t, o), List.mem_cons_self, htu, hback⟩
        · -- the change was forward, and the reading is one that it skips
          have hskip : w < t + o' := by omega
          obtain ⟨c, hc, h⟩ := exists_step_of_offset_lt hcs.head_lt htu hu hskip
          exact ⟨c, List.mem_cons_of_mem _ hc, h⟩
    · rw [if_neg htu] at hu
      by_cases hread : t + max o o' ≤ w
      · rw [if_pos hread] at hle
        have hpast : t + o' ≤ w := by omega
        have hlate := le_sub_readFrom hcs.tail hcs.head_lt hpast
        omega
      · rw [if_neg hread] at hle
        omega

theorem SeparatedFrom.le_offset {t o o' u : Int} {cs : List (Int × Int)}
    (h : SeparatedFrom o ((t, o') :: cs)) (htu : t ≤ u) :
    t + min o o' ≤ u + offsetFrom o ((t, o') :: cs) u := by
  induction cs generalizing t o o' with
  | nil =>
    rw [offsetFrom, if_pos htu]
    show t + min o o' ≤ u + o'
    omega
  | cons c cs ih =>
    obtain ⟨t', o''⟩ := c
    obtain ⟨hnext, hrest⟩ := h
    rw [offsetFrom, if_pos htu]
    by_cases ht' : t' ≤ u
    · have hrec := ih hrest ht'
      omega
    · rw [offsetFrom, if_neg ht']
      omega

theorem le_fst_of_mem_steps {t o o' : Int} {cs : List (Int × Int)}
    (hcs : Ascending ((t, o') :: cs)) : ∀ c ∈ stepsFrom o ((t, o') :: cs), t ≤ c.1 := by
  induction cs generalizing t o o' with
  | nil =>
    intro c hc
    rw [List.mem_singleton.mp hc]
  | cons d cs ih =>
    obtain ⟨t', o''⟩ := d
    intro c hc
    rcases List.mem_cons.mp hc with rfl | hc
    · exact le_refl t
    · have htt' : t < t' := hcs.head_lt (t', o'') List.mem_cons_self
      exact le_of_lt (lt_of_lt_of_le htt' (ih hcs.tail c hc))

theorem read_le_of_exists_step {o u w : Int} {cs : List (Int × Int)} (hcs : Ascending cs)
    (hsep : SeparatedFrom o cs) (hu : u + offsetFrom o cs u < w)
    (hstep : ∃ c ∈ stepsFrom o cs, c.1 ≤ u ∧ w < c.1 + c.2) : w - readFrom o cs w ≤ u := by
  induction cs generalizing o with
  | nil =>
    obtain ⟨c, hc, -⟩ := hstep
    cases hc
  | cons c cs ih =>
    obtain ⟨t, o'⟩ := c
    obtain ⟨d, hd, hdu, hdw⟩ := hstep
    rw [readFrom]
    rcases List.mem_cons.mp hd with rfl | hd
    · have hw : w < t + o := hdw
      have htu : t ≤ u := hdu
      rw [if_neg (by omega)]
      omega
    · cases cs with
      | nil => cases hd
      | cons c' cs =>
        obtain ⟨t', o''⟩ := c'
        have htt' : t < t' := hcs.head_lt (t', o'') List.mem_cons_self
        have ht'u : t' ≤ u := le_trans (le_fst_of_mem_steps hcs.tail d hd) hdu
        rw [offsetFrom, if_pos (by omega)] at hu
        have hpast := hsep.2.le_offset ht'u
        rw [if_pos (by have := hsep.1; omega)]
        exact ih hcs.tail hsep.2 hu ⟨d, hd, hdu, hdw⟩

/-! ## zones -/

structure Zone where
  /-- the offset before the first change -/
  first : Int
  /-- the instants of the changes, each with the offset from then on -/
  changes : List (Int × Int)
  ascending : Ascending changes

namespace Zone

variable (z : Zone)

def wall (u : Int) : Int := u + offsetFrom z.first z.changes u

def instant (w : Int) : Int := w - readFrom z.first z.changes w

def PassedBefore (u w : Int) : Prop :=
  ∃ c ∈ stepsFrom z.first z.changes, c.1 ≤ u ∧ w < c.1 + c.2

def Separated : Prop := SeparatedFrom z.first z.changes

variable {z} {u w : Int}

theorem passedBefore_of_instant_le (hw : z.wall u < w) (hle : z.instant w ≤ u) :
    z.PassedBefore u w := exists_step_of_read_le z.ascending hw hle

theorem instant_le_of_passedBefore (hz : z.Separated) (hw : z.wall u < w)
    (hpassed : z.PassedBefore u w) : z.instant w ≤ u :=
  read_le_of_exists_step z.ascending hz hw hpassed

def fixed (offset : Int) : Zone := ⟨offset, [], List.Pairwise.nil⟩

theorem wall_fixed {offset : Int} : (fixed offset).wall u = u + offset := rfl

theorem instant_fixed {offset : Int} : (fixed offset).instant w = w - offset := rfl

end Zone

end Base
