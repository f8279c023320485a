import Mathlib.Tactic
import Mathlib.Data.Nat.Digits.Defs
import Mathlib.Data.BitVec

/-!
# Byte order

A number of a given length in memory, with its bytes in either order, and the number with
its bytes reversed.
-/
namespace Uvcc.Memory

inductive Order where
  | little
  | big
  deriving DecidableEq, Repr

/-- The lowest bytes of a number, the least significant first. -/
def bytes : ℕ → ℕ → List ℕ
  | 0, _ => []
  | n + 1, x => x % 256 :: bytes n (x / 256)

def load (bs : List ℕ) : ℕ := Nat.ofDigits 256 bs

def Order.store : Order → ℕ → ℕ → List ℕ
  | .little, n, x => bytes n x
  | .big, n, x => (bytes n x).reverse

section Bytes
variable {n m x : ℕ} {bs : List ℕ}

@[simp] theorem bytes_length (n : ℕ) : ∀ x, (bytes n x).length = n := by
  induction n with
  | zero => intro x; rfl
  | succ n ih => intro x; rw [bytes, List.length_cons, ih]

theorem bytes_lt (n : ℕ) : ∀ x, ∀ b ∈ bytes n x, b < 256 := by
  induction n with
  | zero => intro x b hb; cases hb
  | succ n ih =>
    intro x b hb
    rcases List.mem_cons.mp hb with rfl | hb
    · exact Nat.mod_lt x (by decide)
    · exact ih _ b hb

theorem load_cons (b : ℕ) (bs : List ℕ) : load (b :: bs) = b + 256 * load bs := by
  simp [load, Nat.ofDigits_cons]

theorem load_append (bs cs : List ℕ) : load (bs ++ cs) = load bs + 256 ^ bs.length * load cs := by
  rw [load, Nat.ofDigits_append]
  rfl

theorem load_lt (h : ∀ b ∈ bs, b < 256) : load bs < 256 ^ bs.length :=
  Nat.ofDigits_lt_base_pow_length (by decide) h

theorem load_bytes (n : ℕ) : ∀ x, load (bytes n x) = x % 256 ^ n := by
  induction n with
  | zero => intro x; rw [pow_zero, Nat.mod_one]; rfl
  | succ n ih =>
    intro x
    rw [bytes, load_cons, ih, pow_succ', Nat.mod_mul]

theorem bytes_load : ∀ bs : List ℕ, (∀ b ∈ bs, b < 256) → bytes bs.length (load bs) = bs := by
  intro bs
  induction bs with
  | nil => intro _; rfl
  | cons b bs ih =>
    intro h
    have hb : b < 256 := h b List.mem_cons_self
    have hmod : (b + 256 * load bs) % 256 = b := by omega
    have hdiv : (b + 256 * load bs) / 256 = load bs := by omega
    rw [List.length_cons, bytes, load_cons, hmod, hdiv, ih fun c hc => h c (List.mem_cons_of_mem _ hc)]

/-- Only the lowest bytes matter. -/
theorem bytes_mod (n : ℕ) : ∀ x, bytes n (x % 256 ^ n) = bytes n x := by
  intro x
  have h := bytes_load (bytes n x) (bytes_lt n x)
  rwa [bytes_length, load_bytes] at h

theorem bytes_add (m n : ℕ) : ∀ x, bytes (m + n) x = bytes m x ++ bytes n (x / 256 ^ m) := by
  induction m with
  | zero => intro x; rw [Nat.zero_add, pow_zero, Nat.div_one]; rfl
  | succ m ih =>
    intro x
    have hsucc : m + 1 + n = m + n + 1 := by omega
    rw [hsucc, bytes, ih, Nat.div_div_eq_div_mul, bytes, pow_succ', List.cons_append]

end Bytes

/-! ## Swapping -/

/-- The lowest bytes of a number reversed. -/
def swapped (n x : ℕ) : ℕ := load (bytes n x).reverse

section Swapped
variable {n m x : ℕ}

theorem swapped_lt (n x : ℕ) : swapped n x < 256 ^ n := by
  have h : load (bytes n x).reverse < 256 ^ (bytes n x).reverse.length :=
    load_lt fun b hb => bytes_lt n x b (List.mem_reverse.mp hb)
  rwa [List.length_reverse, bytes_length] at h

theorem bytes_swapped (n x : ℕ) : bytes n (swapped n x) = (bytes n x).reverse := by
  have h := bytes_load (bytes n x).reverse fun b hb => bytes_lt n x b (List.mem_reverse.mp hb)
  rwa [List.length_reverse, bytes_length] at h

theorem swapped_swapped (n x : ℕ) : swapped n (swapped n x) = x % 256 ^ n := by
  rw [swapped, bytes_swapped, List.reverse_reverse, load_bytes]

theorem swapped_mod (n x : ℕ) : swapped n (x % 256 ^ n) = swapped n x := by rw [swapped, bytes_mod, swapped]

/-- Two halves are swapped each and exchanged. -/
theorem swapped_add (m n x : ℕ) : swapped (m + n) x = swapped n (x / 256 ^ m) + 256 ^ n * swapped m x := by
  rw [swapped, bytes_add, List.reverse_append, load_append, List.length_reverse, bytes_length]
  rfl

end Swapped

def byteSwap (n : ℕ) {w : ℕ} (x : BitVec w) : BitVec w := BitVec.ofNat w (swapped n x.toNat)

section Words
variable {n w : ℕ} (hw : 2 ^ w = 256 ^ n)
include hw

theorem toNat_byteSwap (x : BitVec w) : (byteSwap n x).toNat = swapped n x.toNat := by
  rw [byteSwap, BitVec.toNat_ofNat, hw, Nat.mod_eq_of_lt (swapped_lt n _)]

theorem byteSwap_byteSwap (x : BitVec w) : byteSwap n (byteSwap n x) = x := by
  apply BitVec.eq_of_toNat_eq
  rw [toNat_byteSwap hw, toNat_byteSwap hw, swapped_swapped, ← hw, Nat.mod_eq_of_lt x.isLt]

end Words

/-- A word in the order of the network, on a machine of the given order. -/
def Order.toBig (o : Order) (n : ℕ) {w : ℕ} (x : BitVec w) : BitVec w :=
  match o with
  | .little => byteSwap n x
  | .big => x

section Network
variable {n w : ℕ} (hw : 2 ^ w = 256 ^ n) (o : Order)
include hw

/-- In memory such a word has its most significant byte first. -/
theorem store_toBig (x : BitVec w) : o.store n (o.toBig n x).toNat = (bytes n x.toNat).reverse := by
  cases o with
  | little => exact (congrArg (bytes n) (toNat_byteSwap hw x)).trans (bytes_swapped n _)
  | big => rfl

theorem toBig_toBig (x : BitVec w) : o.toBig n (o.toBig n x) = x := by
  cases o with
  | little => exact byteSwap_byteSwap hw x
  | big => rfl

end Network
end Uvcc.Memory
