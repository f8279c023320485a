import Mathlib.Tactic
import Mathlib.Algebra.Order.Floor.Div
import Mathlib.Data.BitVec

/-!
# Rounding up to an alignment

The multiple of a power of two that follows a size, over the natural numbers and
as machine words compute it with a bit mask, and the sums that lay chunks out one
after the next.
-/
namespace Uvcc.Memory

/-- The least multiple of `a` that is not below `n`. -/
def roundUp (a n : ℕ) : ℕ := a * (n ⌈/⌉ a)

section RoundUp
variable {a n m : ℕ}

theorem le_roundUp (ha : 0 < a) (n : ℕ) : n ≤ roundUp a n := le_smul_ceilDiv ha

theorem dvd_roundUp (a n : ℕ) : a ∣ roundUp a n := dvd_mul_right a _

theorem roundUp_eq_div (a n : ℕ) : roundUp a n = (n + a - 1) / a * a := by
  rw [roundUp, Nat.ceilDiv_eq_add_pred_div, mul_comm]

theorem roundUp_eq_sub (ha : 0 < a) (n : ℕ) : roundUp a n = n + (a - 1) - (n + (a - 1)) % a := by
  rw [roundUp_eq_div, ← Nat.div_mul_self_eq_mod_sub_self, Nat.add_sub_assoc ha]

theorem roundUp_lt (ha : 0 < a) (n : ℕ) : roundUp a n < n + a := by
  have h := roundUp_eq_sub ha n
  omega

theorem roundUp_le_of_dvd (ha : 0 < a) (hm : a ∣ m) (h : n ≤ m) : roundUp a n ≤ m := by
  obtain ⟨c, rfl⟩ := hm
  exact Nat.mul_le_mul_left a ((ceilDiv_le_iff_le_smul ha).mpr h)

def padding (a n : ℕ) : ℕ := roundUp a n - n

theorem add_padding (ha : 0 < a) (n : ℕ) : n + padding a n = roundUp a n :=
  Nat.add_sub_of_le (le_roundUp ha n)

theorem padding_lt (ha : 0 < a) (n : ℕ) : padding a n < a := by
  have h := roundUp_lt ha n
  rw [padding]
  omega

end RoundUp

/-! ## Machine words -/

section Words
variable {w k : ℕ}

theorem and_not_eq_sub (x y : BitVec w) : x &&& ~~~y = x - (x &&& y) := by
  have hsplit : x = (x &&& ~~~y) + (x &&& y) := by
    rw [BitVec.add_eq_or_of_and_eq_zero]
    · ext i hi
      simp only [BitVec.getElem_or, BitVec.getElem_and, BitVec.getElem_not]
      cases x[i] <;> cases y[i] <;> rfl
    · ext i hi
      simp only [BitVec.getElem_and, BitVec.getElem_not, BitVec.getElem_zero]
      cases x[i] <;> cases y[i] <;> rfl
  exact BitVec.eq_sub_iff_add_eq.mpr hsplit.symm

/-- Rounding up with a mask, for an alignment that is a power of two. -/
def alignUp (a x : BitVec w) : BitVec w := (x + a - 1) &&& ~~~(a - 1)

theorem toNat_sub_one_twoPow (hk : k < w) : (BitVec.twoPow w k - 1).toNat = 2 ^ k - 1 := by
  have hpos : 0 < 2 ^ k := Nat.two_pow_pos k
  have hlt : 2 ^ k < 2 ^ w := Nat.pow_lt_pow_right (by decide) hk
  have hone : (1 : BitVec w).toNat = 1 := BitVec.toNat_one (by omega)
  rw [BitVec.toNat_sub, BitVec.toNat_twoPow_of_lt hk, hone]
  have he : 2 ^ w - 1 + 2 ^ k = 2 ^ w + (2 ^ k - 1) := by omega
  rw [he, Nat.add_mod_left, Nat.mod_eq_of_lt (by omega)]

/-- The mask clears what is left over modulo the alignment. -/
theorem toNat_and_not_mask (hk : k < w) (y : BitVec w) :
    (y &&& ~~~(BitVec.twoPow w k - 1)).toNat = y.toNat - y.toNat % 2 ^ k := by
  have hlow : (y &&& (BitVec.twoPow w k - 1)).toNat = y.toNat % 2 ^ k := by
    rw [BitVec.toNat_and, toNat_sub_one_twoPow hk, Nat.and_two_pow_sub_one_eq_mod]
  have hle : (y &&& (BitVec.twoPow w k - 1)).toNat ≤ y.toNat := by
    rw [hlow]
    exact Nat.mod_le _ _
  rw [and_not_eq_sub, BitVec.toNat_sub_of_le hle, hlow]

theorem sub_mod_mod {d m : ℕ} (hm : 0 < m) (hd : d ∣ m) (n : ℕ) :
    n % m - n % m % d = (n - n % d) % m := by
  have hlow : n % m % d = n % d := Nat.mod_mod_of_dvd n hd
  have hle : n % d ≤ n % m := hlow ▸ Nat.mod_le (n % m) d
  have hlt : n % m - n % d < m := (Nat.sub_le _ _).trans_lt (Nat.mod_lt n hm)
  calc n % m - n % m % d = n % m - n % d := by rw [hlow]
    _ = (m * (n / m) + (n % m - n % d)) % m := by rw [Nat.mul_add_mod, Nat.mod_eq_of_lt hlt]
    _ = (n - n % d) % m := by rw [← Nat.add_sub_assoc hle, Nat.div_add_mod]

theorem toNat_alignUp (hk : k < w) (x : BitVec w) :
    (alignUp (BitVec.twoPow w k) x).toNat = roundUp (2 ^ k) x.toNat % 2 ^ w := by
  have hsum : x + BitVec.twoPow w k - 1 = x + (BitVec.twoPow w k - 1) := by
    rw [BitVec.sub_eq_add_neg, BitVec.sub_eq_add_neg, BitVec.add_assoc]
  rw [alignUp, toNat_and_not_mask hk, hsum, BitVec.toNat_add, toNat_sub_one_twoPow hk,
    sub_mod_mod (Nat.two_pow_pos w) (Nat.pow_dvd_pow 2 hk.le), roundUp_eq_sub (Nat.two_pow_pos k)]

/-- The padding that a program computes in words is the exact one, also when the
rounded size wraps around. -/
theorem toNat_alignUp_sub (hk : k < w) (x : BitVec w) :
    (alignUp (BitVec.twoPow w k) x - x).toNat = padding (2 ^ k) x.toNat := by
  have hpos := Nat.two_pow_pos k
  have hlt := padding_lt hpos x.toNat
  have hexact := add_padding hpos x.toNat
  have hpow : 2 ^ k < 2 ^ w := Nat.pow_lt_pow_right (by decide) hk
  have hx := x.isLt
  rw [BitVec.toNat_sub, toNat_alignUp hk, ← hexact, Nat.add_mod_mod]
  have he : 2 ^ w - x.toNat + (x.toNat + padding (2 ^ k) x.toNat) =
      2 ^ w + padding (2 ^ k) x.toNat := by omega
  rw [he, Nat.add_mod_left, Nat.mod_eq_of_lt (by omega)]

end Words

/-! ## Chunks one after the next -/

section Chunks
variable {w : ℕ}

def exactSum (lens : List (BitVec w)) : ℕ := (lens.map BitVec.toNat).sum

@[simp] theorem exactSum_nil : exactSum ([] : List (BitVec w)) = 0 := rfl

@[simp] theorem exactSum_cons (len : BitVec w) (lens : List (BitVec w)) :
    exactSum (len :: lens) = len.toNat + exactSum lens := by
  simp [exactSum]

theorem exactSum_eq_zero {lens : List (BitVec w)} : exactSum lens = 0 ↔ ∀ len ∈ lens, len = 0 := by
  rw [exactSum, List.sum_eq_zero_iff]
  simp [BitVec.toNat_eq]

theorem exactSum_take_succ {lens : List (BitVec w)} {i : ℕ} (hi : i < lens.length) :
    exactSum (lens.take (i + 1)) = exactSum (lens.take i) + lens[i].toNat := by
  have h := List.sum_take_succ (lens.map BitVec.toNat) i (by simpa using hi)
  simpa only [exactSum, List.map_take, List.getElem_map] using h

theorem exactSum_take_mono (lens : List (BitVec w)) : Monotone fun i => exactSum (lens.take i) := by
  intro i j hij
  have h := List.monotone_sum_take (lens.map BitVec.toNat) hij
  simpa only [exactSum, List.map_take] using h

end Chunks
end Uvcc.Memory
