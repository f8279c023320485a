import Uvcc.Memory.Alignment

/-!
# The layout of a buffer

One block holds a buffer instance, the further `uv_buf_t` structures behind its own
one, padding and the chunks. `operator new` computes the size of the block and the
constructor the pointers into it, both in 64-bit words.
-/
namespace Uvcc.Buffer
open Memory

abbrev SizeT := BitVec 64

/-- `sizeof(instance)`, `sizeof(uv_t)` and the logarithm of `alignof(std::max_align_t)`;
the last member of an instance is its `uv_buf_struct`. -/
structure Layout where
  instanceSize : SizeT
  bufSize : SizeT
  alignLog : ℕ
  bufSize_pos : 0 < bufSize.toNat
  bufSize_le : bufSize.toNat ≤ instanceSize.toNat
  alignLog_lt : alignLog < 64

def commonLayout : Layout := ⟨64, 16, 4, by decide, by decide, by decide⟩

/-- A pointer is the offset from the start of the block, `none` if it is null. -/
structure UvBuf where
  base : Option SizeT
  len : SizeT
  deriving DecidableEq, Repr

structure Instance where
  bufCount : SizeT
  bufs : List UvBuf
  deriving DecidableEq, Repr

structure Block where
  size : SizeT
  contents : Instance
  deriving DecidableEq, Repr

/-- The `.len` fields that are written, with the pointer behind the last structure
and the total length. -/
def storeLens (bufSize : SizeT) : List SizeT → SizeT → SizeT → SizeT × SizeT
  | [], buf, total => (buf, total)
  | len :: lens, buf, total => storeLens bufSize lens (buf + bufSize) (total + len)

def chainBases : SizeT → List SizeT → List UvBuf
  | _, [] => []
  | base, len :: lens => ⟨some base, len⟩ :: chainBases (base + len) lens

namespace Layout
variable (L : Layout)

/-- `alignof(std::max_align_t)`. -/
def align : SizeT := BitVec.twoPow 64 L.alignLog

/-- `offsetof(instance, uv_buf_struct)`. -/
def uvBufStruct : SizeT := L.instanceSize - L.bufSize

def alignmentPadding (extraBufCount : SizeT) : SizeT :=
  let baseSize := L.instanceSize + extraBufCount * L.bufSize
  alignUp L.align baseSize - baseSize

def operatorNew (lens : List SizeT) : SizeT :=
  let count : SizeT := BitVec.ofNat 64 lens.length
  let extraBufCount := if 0 < count then count - 1 else count
  let totalBufLen := lens.foldl (· + ·) 0
  L.instanceSize + extraBufCount * L.bufSize + L.alignmentPadding extraBufCount + totalBufLen

def construct (lens : List SizeT) : Instance :=
  let bufCount : SizeT := BitVec.ofNat 64 lens.length
  if bufCount = 0 then ⟨1, [⟨none, 0⟩]⟩
  else
    let (buf, totalBufLen) := storeLens L.bufSize lens L.uvBufStruct 0
    if totalBufLen = 0 then ⟨bufCount, lens.map (fun _ => ⟨none, 0⟩)⟩
    else ⟨bufCount, chainBases (buf + L.alignmentPadding (bufCount - 1)) lens⟩

def block (lens : List SizeT) : Block := ⟨L.operatorNew lens, L.construct lens⟩

/-- `instance::create`; the allocator may refuse and throw. -/
def create (allocated : Bool) (lens : List SizeT) : Option Block :=
  if allocated then some (L.block lens) else none

/-! ## Exact sizes -/

def headerSize (n : ℕ) : ℕ := L.instanceSize.toNat + (n - 1) * L.bufSize.toNat

def chunksStart (n : ℕ) : ℕ := roundUp (2 ^ L.alignLog) (L.headerSize n)

def totalSize (lens : List SizeT) : ℕ := L.chunksStart lens.length + exactSum lens

end Layout

/-! ## The loops -/

theorem toNat_foldl_add (lens : List SizeT) :
    ∀ total : SizeT, (lens.foldl (· + ·) total).toNat = (total.toNat + exactSum lens) % 2 ^ 64 := by
  induction lens with
  | nil =>
    intro total
    rw [List.foldl_nil, exactSum_nil, add_zero, Nat.mod_eq_of_lt total.isLt]
  | cons len lens ih =>
    intro total
    rw [List.foldl_cons, ih, BitVec.toNat_add, Nat.mod_add_mod, exactSum_cons, add_assoc]

def wrappedSum (lens : List SizeT) : SizeT := lens.foldl (· + ·) 0

theorem toNat_wrappedSum (lens : List SizeT) : (wrappedSum lens).toNat = exactSum lens % 2 ^ 64 := by
  rw [wrappedSum, toNat_foldl_add]
  change (0 + _) % _ = _
  rw [zero_add]

theorem storeLens_eq (bufSize : SizeT) (lens : List SizeT) : ∀ buf total : SizeT,
    storeLens bufSize lens buf total =
      (buf + BitVec.ofNat 64 lens.length * bufSize, lens.foldl (· + ·) total) := by
  induction lens with
  | nil =>
    intro buf total
    simp [storeLens]
  | cons len lens ih =>
    intro buf total
    have hlen : BitVec.ofNat 64 (lens.length + 1) = BitVec.ofNat 64 lens.length + 1 := BitVec.ofNat_add _ _
    rw [storeLens, ih, List.length_cons, hlen, List.foldl_cons]
    congr 1
    ring

@[simp] theorem length_chainBases (lens : List SizeT) :
    ∀ base, (chainBases base lens).length = lens.length := by
  induction lens with
  | nil => intro base; rfl
  | cons len lens ih => intro base; simp [chainBases, ih]

@[simp] theorem map_len_chainBases (lens : List SizeT) :
    ∀ base, (chainBases base lens).map UvBuf.len = lens := by
  induction lens with
  | nil => intro base; rfl
  | cons len lens ih => intro base; simp [chainBases, ih]

/-- The i-th chunk is behind the first i ones, as long as nothing wraps around. -/
theorem chainBases_getElem (lens : List SizeT) : ∀ {base : SizeT} {i : ℕ} (hi : i < lens.length),
    base.toNat + exactSum lens < 2 ^ 64 →
    ∃ p : SizeT, (chainBases base lens)[i]? = some ⟨some p, lens[i]⟩ ∧
      p.toNat = base.toNat + exactSum (lens.take i) := by
  induction lens with
  | nil =>
    intro base i hi
    simp at hi
  | cons len lens ih =>
    intro base i hi hfit
    rw [exactSum_cons] at hfit
    cases i with
    | zero => exact ⟨base, rfl, by simp⟩
    | succ i =>
      have hnext : (base + len).toNat = base.toNat + len.toNat := by
        rw [BitVec.toNat_add, Nat.mod_eq_of_lt (by omega)]
      have hfit' : (base + len).toNat + exactSum lens < 2 ^ 64 := by omega
      obtain ⟨p, hp, hat⟩ := ih (Nat.lt_of_succ_lt_succ hi) hfit'
      refine ⟨p, hp, ?_⟩
      rw [hat, hnext, List.take_succ_cons, exactSum_cons, add_assoc]

/-! ## Words against exact sizes -/

namespace Layout
variable (L : Layout) {lens : List SizeT} {n : ℕ}

theorem align_pos : 0 < 2 ^ L.alignLog := Nat.two_pow_pos _

theorem headerSize_le_chunksStart (n : ℕ) : L.headerSize n ≤ L.chunksStart n :=
  le_roundUp L.align_pos _

theorem length_le_headerSize (n : ℕ) : n ≤ L.headerSize n := by
  have hU := L.bufSize_pos
  have hS := L.bufSize_le
  have hmul : n - 1 ≤ (n - 1) * L.bufSize.toNat := Nat.le_mul_of_pos_right _ hU
  rw [headerSize]
  omega

theorem toNat_count (h : L.totalSize lens < 2 ^ 64) :
    (BitVec.ofNat 64 lens.length).toNat = lens.length := by
  have h1 := L.length_le_headerSize lens.length
  have h2 := L.headerSize_le_chunksStart lens.length
  rw [totalSize] at h
  rw [BitVec.toNat_ofNat, Nat.mod_eq_of_lt (by omega)]

theorem toNat_extraBufCount {count : SizeT} (hn : count.toNat = n) :
    (if 0 < count then count - 1 else count).toNat = n - 1 := by
  split_ifs with hpos
  · rw [BitVec.lt_def] at hpos
    have hle : (1 : SizeT).toNat ≤ count.toNat := hpos
    rw [BitVec.toNat_sub_of_le hle, hn]
    rfl
  · have hz : count.toNat = 0 := by
      rw [BitVec.lt_def] at hpos
      exact Nat.eq_zero_of_not_pos hpos
    omega

theorem toNat_baseSize {extra : SizeT} (he : extra.toNat = n - 1) (h : L.headerSize n < 2 ^ 64) :
    (L.instanceSize + extra * L.bufSize).toNat = L.headerSize n := by
  rw [BitVec.toNat_add, BitVec.toNat_mul, he, Nat.add_mod_mod]
  exact Nat.mod_eq_of_lt h

theorem toNat_alignmentPadding {extra : SizeT} (he : extra.toNat = n - 1) (h : L.headerSize n < 2 ^ 64) :
    (L.alignmentPadding extra).toNat = padding (2 ^ L.alignLog) (L.headerSize n) := by
  rw [alignmentPadding, align, toNat_alignUp_sub L.alignLog_lt, L.toNat_baseSize he h]

theorem toNat_chunksStart {extra : SizeT} (he : extra.toNat = n - 1) (h : L.chunksStart n < 2 ^ 64) :
    (L.instanceSize + extra * L.bufSize + L.alignmentPadding extra).toNat = L.chunksStart n := by
  have hheader : L.headerSize n < 2 ^ 64 := (L.headerSize_le_chunksStart n).trans_lt h
  rw [BitVec.toNat_add, L.toNat_baseSize he hheader, L.toNat_alignmentPadding he hheader,
    add_padding L.align_pos]
  exact Nat.mod_eq_of_lt h

/-- `operator new` requests the exact size if that fits. -/
theorem toNat_operatorNew (h : L.totalSize lens < 2 ^ 64) :
    (L.operatorNew lens).toNat = L.totalSize lens := by
  have he := toNat_extraBufCount (L.toNat_count h)
  have hstart : L.chunksStart lens.length < 2 ^ 64 := (Nat.le_add_right _ _).trans_lt h
  have hsum : (wrappedSum lens).toNat = exactSum lens := by
    rw [toNat_wrappedSum]
    exact Nat.mod_eq_of_lt ((Nat.le_add_left _ _).trans_lt h)
  rw [wrappedSum] at hsum
  rw [operatorNew, BitVec.toNat_add, L.toNat_chunksStart he hstart, hsum]
  exact Nat.mod_eq_of_lt h

theorem toNat_countPred (h : L.totalSize lens < 2 ^ 64) (hne : lens ≠ []) :
    (BitVec.ofNat 64 lens.length - 1 : SizeT).toNat = lens.length - 1 := by
  have hcount := L.toNat_count h
  have hpos : 0 < lens.length := List.length_pos_of_ne_nil hne
  have he := toNat_extraBufCount hcount
  rwa [if_pos (by rw [BitVec.lt_def, hcount]; exact hpos)] at he

/-- The pointer behind the last structure, with the padding added. -/
theorem toNat_firstBase (h : L.totalSize lens < 2 ^ 64) (hne : lens ≠ []) :
    (L.uvBufStruct + BitVec.ofNat 64 lens.length * L.bufSize +
      L.alignmentPadding (BitVec.ofNat 64 lens.length - 1)).toNat = L.chunksStart lens.length := by
  have hstart : L.chunksStart lens.length < 2 ^ 64 := (Nat.le_add_right _ _).trans_lt h
  rw [← L.toNat_chunksStart (L.toNat_countPred h hne) hstart, uvBufStruct]
  congr 2
  ring

/-! ## What the constructor leaves behind -/

theorem construct_null {lens : List SizeT} (hcount : BitVec.ofNat 64 lens.length ≠ 0)
    (hsum : wrappedSum lens = 0) :
    L.construct lens = ⟨BitVec.ofNat 64 lens.length, lens.map (fun _ => ⟨none, 0⟩)⟩ := by
  rw [construct, if_neg hcount, storeLens_eq]
  exact if_pos hsum

theorem construct_chunks {lens : List SizeT} (hcount : BitVec.ofNat 64 lens.length ≠ 0)
    (hsum : wrappedSum lens ≠ 0) :
    L.construct lens = ⟨BitVec.ofNat 64 lens.length,
      chainBases (L.uvBufStruct + BitVec.ofNat 64 lens.length * L.bufSize +
        L.alignmentPadding (BitVec.ofNat 64 lens.length - 1)) lens⟩ := by
  rw [construct, if_neg hcount, storeLens_eq]
  exact if_neg hsum

theorem wrappedSum_eq_zero (h : L.totalSize lens < 2 ^ 64) : wrappedSum lens = 0 ↔ exactSum lens = 0 := by
  have hlt : exactSum lens < 2 ^ 64 := (Nat.le_add_left _ _).trans_lt h
  have hnat := toNat_wrappedSum lens
  rw [Nat.mod_eq_of_lt hlt] at hnat
  rw [← hnat, BitVec.toNat_eq]
  rfl

theorem count_ne_zero (h : L.totalSize lens < 2 ^ 64) (hne : lens ≠ []) :
    BitVec.ofNat 64 lens.length ≠ 0 := by
  intro hz
  have hcount := L.toNat_count h
  rw [hz] at hcount
  exact hne (List.length_eq_zero_iff.mp hcount.symm)

end Layout
end Uvcc.Buffer
