import Uvcc.Buffer.Construction

/-!
# Where the chunks of a buffer are

If the exact size of the block fits in a word, `operator new` and the constructor
agree: the chunks lie one after the next behind the header and end with the block.
Nothing checks that the size fits, and exactly when it does not the arithmetic wraps
around and the buffer is wrong.
-/
namespace Uvcc.Buffer
open Memory

/-- The chunks of the lengths `lens` in a block, with the offset of each. -/
structure Placed (L : Layout) (lens : List SizeT) (b : Block) (base : ℕ → ℕ) : Prop where
  count : b.contents.bufCount.toNat = lens.length
  length : b.contents.bufs.length = lens.length
  chunk : ∀ i (hi : i < lens.length),
    ∃ p : SizeT, b.contents.bufs[i]? = some ⟨some p, lens[i]⟩ ∧ p.toNat = base i
  first : base 0 = L.headerSize lens.length + padding (2 ^ L.alignLog) (L.headerSize lens.length)
  padded : padding (2 ^ L.alignLog) (L.headerSize lens.length) < 2 ^ L.alignLog
  aligned : 2 ^ L.alignLog ∣ base 0
  next : ∀ i (hi : i < lens.length), base (i + 1) = base i + lens[i].toNat
  header : ∀ i < lens.length, L.headerSize lens.length ≤ base i
  disjoint : ∀ i j (hj : j < lens.length) (hij : i < j), base i + lens[i].toNat ≤ base j
  last : ∀ i (hi : i < lens.length), i + 1 = lens.length → base i + lens[i].toNat = b.size.toNat

structure Nulled (L : Layout) (lens : List SizeT) (b : Block) : Prop where
  count : b.contents.bufCount.toNat = max lens.length 1
  length : b.contents.bufs.length = max lens.length 1
  null : ∀ x ∈ b.contents.bufs, x = ⟨none, 0⟩
  inside : L.headerSize (max lens.length 1) ≤ b.size.toNat

namespace Layout
variable (L : Layout) {lens : List SizeT}

def chunkBase (lens : List SizeT) (i : ℕ) : ℕ := L.chunksStart lens.length + exactSum (lens.take i)

theorem chunkBase_succ {i : ℕ} (hi : i < lens.length) :
    L.chunkBase lens (i + 1) = L.chunkBase lens i + lens[i].toNat := by
  rw [chunkBase, chunkBase, exactSum_take_succ hi, add_assoc]

theorem chunkBase_mono (lens : List SizeT) : Monotone (L.chunkBase lens) :=
  fun _ _ hij => Nat.add_le_add_left (exactSum_take_mono lens hij) _

theorem chunkBase_length (lens : List SizeT) : L.chunkBase lens lens.length = L.totalSize lens := by
  rw [chunkBase, List.take_length, totalSize]

theorem construct_getElem (h : L.totalSize lens < 2 ^ 64) (hsum : wrappedSum lens ≠ 0) {i : ℕ}
    (hi : i < lens.length) :
    ∃ p : SizeT, (L.construct lens).bufs[i]? = some ⟨some p, lens[i]⟩ ∧ p.toNat = L.chunkBase lens i := by
  have hne : lens ≠ [] := List.ne_nil_of_length_pos (Nat.zero_lt_of_lt hi)
  have hbase := L.toNat_firstBase h hne
  rw [L.construct_chunks (L.count_ne_zero h hne) hsum, chunkBase, ← hbase]
  apply chainBases_getElem lens hi
  rw [hbase]
  exact h

theorem placed (h : L.totalSize lens < 2 ^ 64) (hpos : 0 < exactSum lens) :
    Placed L lens (L.block lens) (L.chunkBase lens) := by
  have hsum : wrappedSum lens ≠ 0 := by
    intro hz
    have := (L.wrappedSum_eq_zero h).mp hz
    omega
  have hne : lens ≠ [] := by
    rintro rfl
    simp at hpos
  have hfirst : L.chunkBase lens 0 = L.chunksStart lens.length := by simp [chunkBase]
  have hconstruct := L.construct_chunks (L.count_ne_zero h hne) hsum
  constructor
  case count =>
    rw [block, hconstruct]
    exact L.toNat_count h
  case length =>
    rw [block, hconstruct]
    exact length_chainBases _ _
  case chunk =>
    intro i hi
    exact L.construct_getElem h hsum hi
  case first =>
    rw [hfirst, add_padding L.align_pos, chunksStart]
  case padded =>
    exact padding_lt L.align_pos _
  case aligned =>
    rw [hfirst]
    exact dvd_roundUp _ _
  case next =>
    intro i hi
    exact L.chunkBase_succ hi
  case header =>
    intro i _
    exact (L.headerSize_le_chunksStart _).trans (Nat.le_add_right _ _)
  case disjoint =>
    intro i j hj hij
    rw [← L.chunkBase_succ (hij.trans hj)]
    exact L.chunkBase_mono lens hij
  case last =>
    intro i hi hlast
    rw [← L.chunkBase_succ hi, hlast, L.chunkBase_length]
    exact (L.toNat_operatorNew h).symm

theorem nulled (h : L.totalSize lens < 2 ^ 64) (hz : exactSum lens = 0) :
    Nulled L lens (L.block lens) := by
  have hsize := L.toNat_operatorNew h
  have hle : L.headerSize lens.length ≤ (L.operatorNew lens).toNat := by
    rw [hsize]
    exact (L.headerSize_le_chunksStart _).trans (Nat.le_add_right _ _)
  by_cases hne : lens = []
  · subst hne
    have hinside : L.headerSize 1 ≤ (L.operatorNew []).toNat := hle
    exact ⟨rfl, rfl, by simp [block, construct], hinside⟩
  · have hpos : 0 < lens.length := List.length_pos_of_ne_nil hne
    have hmax : max lens.length 1 = lens.length := max_eq_left hpos
    have hconstruct := L.construct_null (L.count_ne_zero h hne) ((L.wrappedSum_eq_zero h).mpr hz)
    constructor
    case count =>
      rw [hmax, block, hconstruct]
      exact L.toNat_count h
    case length =>
      rw [hmax, block, hconstruct]
      exact List.length_map _
    case null =>
      intro x hx
      rw [block, hconstruct] at hx
      obtain ⟨_, _, rfl⟩ := List.mem_map.mp hx
      rfl
    case inside =>
      rw [hmax]
      exact hle

end Layout

/-- The layout of every buffer whose exact size fits. -/
theorem buffer_layout (L : Layout) (lens : List SizeT) (h : L.totalSize lens < 2 ^ 64) :
    (0 < exactSum lens → ∃ base, Placed L lens (L.block lens) base) ∧
      (exactSum lens = 0 → Nulled L lens (L.block lens)) :=
  ⟨fun hpos => ⟨_, L.placed h hpos⟩, fun hz => L.nulled h hz⟩

def threeChunks : List SizeT := [5, 0, 7]

theorem buffer_layout_threeChunks :
    (0 < exactSum threeChunks → ∃ base, Placed commonLayout threeChunks (commonLayout.block threeChunks) base) ∧
      (exactSum threeChunks = 0 → Nulled commonLayout threeChunks (commonLayout.block threeChunks)) :=
  buffer_layout commonLayout threeChunks (by decide)

/-! ## Sizes that do not fit -/

/-- A buffer that was created at all has the memory its structures speak of, and
null structures only if nothing was asked for. -/
def SizeSafe (L : Layout) (lens : List SizeT) (r : Option Block) : Prop :=
  ∀ b ∈ r, L.chunksStart lens.length + exactSum (b.contents.bufs.map UvBuf.len) ≤ b.size.toNat ∧
    (∀ x ∈ b.contents.bufs, ∀ p ∈ x.base, p.toNat + x.len.toNat ≤ b.size.toNat) ∧
    ((∀ x ∈ b.contents.bufs, x.base = none) → ∀ len ∈ lens, len = 0)

namespace Layout
variable (L : Layout) {lens : List SizeT}

theorem map_len_construct (h : L.totalSize lens < 2 ^ 64) :
    exactSum ((L.construct lens).bufs.map UvBuf.len) = exactSum lens := by
  rcases Nat.eq_zero_or_pos (exactSum lens) with hz | hpos
  · rw [hz, exactSum_eq_zero]
    intro len hlen
    obtain ⟨x, hx, rfl⟩ := List.mem_map.mp hlen
    rw [(L.nulled h hz).null x hx]
  · have hne : lens ≠ [] := by
      rintro rfl
      simp at hpos
    have hsum : wrappedSum lens ≠ 0 := fun hz => hpos.ne' ((L.wrappedSum_eq_zero h).mp hz)
    rw [L.construct_chunks (L.count_ne_zero h hne) hsum, map_len_chainBases]

/-- Every chunk ends within the block. -/
theorem base_in_block (h : L.totalSize lens < 2 ^ 64) {x : UvBuf} (hx : x ∈ (L.construct lens).bufs)
    {p : SizeT} (hp : x.base = some p) : p.toNat + x.len.toNat ≤ L.totalSize lens := by
  rcases Nat.eq_zero_or_pos (exactSum lens) with hz | hpos
  · rw [(L.nulled h hz).null x hx] at hp
    cases hp
  · have hplaced := L.placed h hpos
    obtain ⟨i, hi, rfl⟩ := List.mem_iff_getElem.mp hx
    have hlt : i < lens.length := hplaced.length ▸ hi
    obtain ⟨q, hq, hat⟩ := hplaced.chunk i hlt
    have he : (L.construct lens).bufs[i] = ⟨some q, lens[i]⟩ := List.getElem_eq_iff hi |>.mpr hq
    rw [he] at hp ⊢
    obtain rfl := Option.some.inj hp
    rw [hat, ← L.chunkBase_succ hlt, ← L.chunkBase_length]
    exact L.chunkBase_mono lens hlt

theorem sizeSafe_of_fits (h : L.totalSize lens < 2 ^ 64) : SizeSafe L lens (some (L.block lens)) := by
  intro b hb
  obtain rfl := Option.some.inj hb
  have hsize : (L.block lens).size.toNat = L.totalSize lens := L.toNat_operatorNew h
  rw [hsize]
  refine ⟨?_, fun x hx p hp => L.base_in_block h hx hp, fun hnull => ?_⟩
  · exact (congrArg _ (L.map_len_construct h)).le
  · rcases Nat.eq_zero_or_pos (exactSum lens) with hz | hpos
    · exact exactSum_eq_zero.mp hz
    · have hlt : 0 < lens.length := by
        apply List.length_pos_of_ne_nil
        rintro rfl
        simp at hpos
      obtain ⟨p, hp, _⟩ := (L.placed h hpos).chunk 0 hlt
      have hnone := hnull _ (List.mem_of_getElem? hp)
      cases hnone

/-- The structures describe what was asked for, or null chunks. -/
theorem construct_cases (lens : List SizeT) :
    (L.construct lens).bufs.map UvBuf.len = lens ∨ ∀ x ∈ (L.construct lens).bufs, x.base = none := by
  by_cases hcount : BitVec.ofNat 64 lens.length = 0
  · rw [construct, if_pos hcount]
    exact .inr (by simp)
  · by_cases hsum : wrappedSum lens = 0
    · rw [L.construct_null hcount hsum]
      exact .inr (by simp)
    · rw [L.construct_chunks hcount hsum]
      exact .inl (map_len_chainBases _ _)

theorem fits_of_sizeSafe (hs : SizeSafe L lens (some (L.block lens))) : L.totalSize lens < 2 ^ 64 := by
  obtain ⟨hlens, _, hnull⟩ := hs _ rfl
  have hlt : (L.block lens).size.toNat < 2 ^ 64 := (L.block lens).size.isLt
  rcases L.construct_cases lens with hmap | hnone
  · rw [block, hmap] at hlens
    exact hlens.trans_lt hlt
  · have hz : exactSum lens = 0 := exactSum_eq_zero.mpr (hnull hnone)
    rw [totalSize, hz]
    exact (Nat.le_add_right _ _).trans_lt (hlens.trans_lt hlt)

end Layout

/-- The arithmetic is right exactly when the allocator refuses or the exact size fits. -/
theorem buffer_size_safe_iff (L : Layout) (allocated : Bool) (lens : List SizeT) :
    SizeSafe L lens (L.create allocated lens) ↔ (allocated = true → L.totalSize lens < 2 ^ 64) := by
  cases allocated with
  | false => simp [Layout.create, SizeSafe]
  | true =>
    constructor
    · exact fun hs _ => L.fits_of_sizeSafe hs
    · exact fun h => L.sizeSafe_of_fits (h rfl)

def wrappingLens : List SizeT := [0x8000000000000000, 0x8000000000000000]

theorem buffer_size_wraps : ¬ ∀ (L : Layout) (allocated : Bool) (lens : List SizeT),
    SizeSafe L lens (L.create allocated lens) := by
  intro h
  obtain ⟨_, _, hnull⟩ := h commonLayout true wrappingLens _ rfl
  have hnone : ∀ x ∈ (commonLayout.construct wrappingLens).bufs, x.base = none := by
    rw [commonLayout.construct_null (by decide) (by decide)]
    simp
  have hlen := hnull hnone 0x8000000000000000 (by decide)
  revert hlen
  decide

end Uvcc.Buffer
