import Uvcc.Memory.ByteOrder

/-!
# Byte order conversion

The templates take an argument of any integer type, which the macros convert to an unsigned
one. On Windows there are conversions of 16 and of 32 bits only, and that of 64 bits is
composed of two of 32 on a little-endian machine.
-/
namespace Uvcc.Utility
open Memory

inductive Platform where
  | unix
  | windows
  deriving DecidableEq, Repr

/-- `htobe16` and `be16toh`, `htons` and `ntohs`: there and back is the same. -/
def be16 (o : Order) (x : BitVec 16) : BitVec 16 := o.toBig 2 x

def be32 (o : Order) (x : BitVec 32) : BitVec 32 := o.toBig 4 x

def be64 (o : Order) (x : BitVec 64) : BitVec 64 := o.toBig 8 x

/-- `HOST_to_NET_64` of Windows, from the 32-bit conversion; `NET_to_HOST_64` is alike. -/
def windows64 (o : Order) (x : ℤ) : BitVec 64 :=
  match o with
  | .little =>
    (be32 o ((BitVec.ofInt 64 x >>> 32).setWidth 32)).setWidth 64 |||
      ((be32 o (BitVec.ofInt 32 x)).setWidth 64 <<< 32)
  | .big => BitVec.ofInt 64 x

def hton16 (_ : Platform) (o : Order) (i : ℤ) : BitVec 16 := be16 o (BitVec.ofInt 16 i)

def hton32 (_ : Platform) (o : Order) (i : ℤ) : BitVec 32 := be32 o (BitVec.ofInt 32 i)

def hton64 : Platform → Order → ℤ → BitVec 64
  | .unix, o, i => be64 o (BitVec.ofInt 64 i)
  | .windows, o, i => windows64 o i

def ntoh16 (_ : Platform) (o : Order) (i : ℤ) : BitVec 16 := be16 o (BitVec.ofInt 16 i)

def ntoh32 (_ : Platform) (o : Order) (i : ℤ) : BitVec 32 := be32 o (BitVec.ofInt 32 i)

def ntoh64 : Platform → Order → ℤ → BitVec 64
  | .unix, o, i => be64 o (BitVec.ofInt 64 i)
  | .windows, o, i => windows64 o i

/-- The lower half of an argument is what both conversions make of it. -/
theorem ofInt_mod (i : ℤ) : (BitVec.ofInt 32 i).toNat = (BitVec.ofInt 64 i).toNat % 2 ^ 32 := by
  rw [BitVec.toNat_ofInt, BitVec.toNat_ofInt]
  omega

/-- Two conversions of 32 bits make one of 64. -/
theorem windows64_eq (o : Order) (i : ℤ) : windows64 o i = be64 o (BitVec.ofInt 64 i) := by
  cases o with
  | big => rfl
  | little =>
    apply BitVec.eq_of_toNat_eq
    set x := BitVec.ofInt 64 i with hx
    have hsplit : (be64 .little x).toNat = swapped 4 (x.toNat / 256 ^ 4) + 256 ^ 4 * swapped 4 x.toNat :=
      (toNat_byteSwap (by decide) x).trans (swapped_add 4 4 _)
    have hhigh : (be32 .little ((x >>> 32).setWidth 32)).toNat = swapped 4 (x.toNat / 256 ^ 4) := by
      have hmod : ((x >>> 32).setWidth 32).toNat = x.toNat / 256 ^ 4 % 256 ^ 4 := by
        rw [BitVec.toNat_setWidth, BitVec.toNat_ushiftRight, Nat.shiftRight_eq_div_pow]
        norm_num
      exact (toNat_byteSwap (by decide) _).trans (by rw [hmod, swapped_mod])
    have hlow : (be32 .little (BitVec.ofInt 32 i)).toNat = swapped 4 x.toNat := by
      refine (toNat_byteSwap (by decide) _).trans ?_
      rw [ofInt_mod, ← hx]
      exact swapped_mod 4 x.toNat
    have hhighlt := swapped_lt 4 (x.toNat / 256 ^ 4)
    have hlowlt := swapped_lt 4 x.toNat
    rw [hsplit, windows64, BitVec.toNat_or, BitVec.toNat_shiftLeft, BitVec.toNat_setWidth, BitVec.toNat_setWidth,
      hhigh, hlow]
    rw [Nat.mod_eq_of_lt (by omega), Nat.mod_eq_of_lt (by omega), Nat.shiftLeft_eq, Nat.mod_eq_of_lt (by omega)]
    rw [Nat.or_comm, Nat.mul_comm, ← Nat.two_pow_add_eq_or_of_lt (by omega)]
    omega

theorem hton64_eq (p : Platform) (o : Order) (i : ℤ) : hton64 p o i = be64 o (BitVec.ofInt 64 i) := by
  cases p with
  | unix => rfl
  | windows => exact windows64_eq o i

theorem ntoh64_eq (p : Platform) (o : Order) (i : ℤ) : ntoh64 p o i = be64 o (BitVec.ofInt 64 i) := by
  cases p with
  | unix => rfl
  | windows => exact windows64_eq o i

/-- What goes over the network for an argument: its value modulo the width, with the most
significant byte first. -/
def wire (n : ℕ) (i : ℤ) : List ℕ := (bytes n (i % 256 ^ n).toNat).reverse

/-- The words that the conversions make are the wire's in memory, on every platform and
machine, and are converted back. -/
theorem network_order (p : Platform) (o : Order) (i : ℤ) :
    (o.store 2 (hton16 p o i).toNat = wire 2 i ∧ ntoh16 p o (hton16 p o i).toNat = BitVec.ofInt 16 i) ∧
    (o.store 4 (hton32 p o i).toNat = wire 4 i ∧ ntoh32 p o (hton32 p o i).toNat = BitVec.ofInt 32 i) ∧
    o.store 8 (hton64 p o i).toNat = wire 8 i ∧ ntoh64 p o (hton64 p o i).toNat = BitVec.ofInt 64 i := by
  have hback : ∀ {w : ℕ} (x : BitVec w), BitVec.ofInt w (x.toNat : ℤ) = x := by
    intro w x
    rw [BitVec.ofInt_natCast, BitVec.ofNat_toNat, BitVec.setWidth_eq]
  refine ⟨⟨?_, ?_⟩, ⟨?_, ?_⟩, ?_, ?_⟩
  · exact (store_toBig (by decide) o _).trans (by rw [BitVec.toNat_ofInt, wire]; norm_num)
  · rw [ntoh16, hback]
    exact toBig_toBig (by decide) o _
  · exact (store_toBig (by decide) o _).trans (by rw [BitVec.toNat_ofInt, wire]; norm_num)
  · rw [ntoh32, hback]
    exact toBig_toBig (by decide) o _
  · rw [hton64_eq]
    exact (store_toBig (by decide) o _).trans (by rw [BitVec.toNat_ofInt, wire]; norm_num)
  · rw [hton64_eq, ntoh64_eq, hback]
    exact toBig_toBig (by decide) o _

end Uvcc.Utility
