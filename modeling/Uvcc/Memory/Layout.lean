import Uvcc.Memory.Alignment

/-!
# Records laid out member by member

A type has a size and an alignment, a power of two that divides the size. The members of
a record follow one another, each at the next multiple of its alignment; the record takes
the greatest alignment and is padded at its end. Records that share all members but the
last can stand for one another if the last one is given the same alignment in all of them.
-/
namespace Uvcc.Memory

/-- A member may be aligned more strictly than its type. -/
structure Member where
  size : ℕ
  alignLog : ℕ
  deriving DecidableEq, Repr

def Member.align (m : Member) : ℕ := 2 ^ m.alignLog

structure CType extends Member where
  dvd : 2 ^ alignLog ∣ size

theorem Member.align_pos (m : Member) : 0 < m.align := Nat.two_pow_pos m.alignLog

namespace Record

/-- Where the members end that are placed from `n` on. -/
def finish (n : ℕ) : List Member → ℕ
  | [] => n
  | m :: ms => finish (roundUp m.align n + m.size) ms

def offset (ms : List Member) (i : ℕ) (hi : i < ms.length) : ℕ := roundUp ms[i].align (finish 0 (ms.take i))

def alignLog (ms : List Member) : ℕ := (ms.map Member.alignLog).foldr max 0

def size (ms : List Member) : ℕ := roundUp (2 ^ alignLog ms) (finish 0 ms)

variable {ms ns : List Member} {m : Member} {n i j : ℕ}

theorem finish_append (ns : List Member) : ∀ ms n, finish n (ms ++ ns) = finish (finish n ms) ns := by
  intro ms
  induction ms with
  | nil => intro n; rfl
  | cons m ms ih => intro n; exact ih _

theorem le_finish (ms : List Member) : ∀ n, n ≤ finish n ms := by
  induction ms with
  | nil => intro n; exact le_refl n
  | cons m ms ih =>
    intro n
    have hstart := le_roundUp m.align_pos n
    have hrest := ih (roundUp m.align n + m.size)
    rw [finish]
    omega

theorem finish_take_le (ms : List Member) (i : ℕ) : finish 0 (ms.take i) ≤ finish 0 ms := by
  conv_rhs => rw [← List.take_append_drop i ms, finish_append]
  exact le_finish _ _

theorem finish_take_succ (hi : i < ms.length) :
    finish 0 (ms.take (i + 1)) = offset ms i hi + ms[i].size := by
  rw [List.take_succ_eq_append_getElem hi, finish_append]
  rfl

theorem alignLog_le (hm : m ∈ ms) : m.alignLog ≤ alignLog ms := by
  induction ms with
  | nil => cases hm
  | cons k ms ih =>
    rcases List.mem_cons.mp hm with rfl | hm
    · exact le_max_left _ _
    · exact (ih hm).trans (le_max_right _ _)

/-- Each member starts after those before it have ended. -/
theorem offset_apart (hij : i < j) (hj : j < ms.length) :
    offset ms i (hij.trans hj) + ms[i].size ≤ offset ms j hj := by
  have htake : ms.take (i + 1) = (ms.take j).take (i + 1) := by rw [List.take_take, min_eq_left (by omega)]
  calc offset ms i (hij.trans hj) + ms[i].size = finish 0 ((ms.take j).take (i + 1)) := by
        rw [← htake, finish_take_succ (hij.trans hj)]
    _ ≤ finish 0 (ms.take j) := finish_take_le _ _
    _ ≤ offset ms j hj := le_roundUp (Member.align_pos _) _

theorem offset_inside (hi : i < ms.length) : offset ms i hi + ms[i].size ≤ size ms := by
  calc offset ms i hi + ms[i].size = finish 0 (ms.take (i + 1)) := (finish_take_succ hi).symm
    _ ≤ finish 0 ms := finish_take_le _ _
    _ ≤ size ms := le_roundUp (Nat.two_pow_pos _) _

/-- In a record that is aligned so is each member. -/
theorem offset_aligned {p : ℕ} (hp : 2 ^ alignLog ms ∣ p) (hi : i < ms.length) :
    ms[i].align ∣ p + offset ms i hi := by
  have hle : ms[i].alignLog ≤ alignLog ms := alignLog_le (List.getElem_mem hi)
  exact dvd_add ((Nat.pow_dvd_pow 2 hle).trans hp) (dvd_roundUp _ _)

theorem offset_append_left (hi : i < ms.length) :
    offset (ms ++ ns) i (by rw [List.length_append]; omega) = offset ms i hi := by
  simp only [offset, List.getElem_append_left hi, List.take_append_of_le_length hi.le]

/-- The last member. -/
theorem offset_concat (ms : List Member) (m : Member) :
    offset (ms ++ [m]) ms.length (by simp) = roundUp m.align (finish 0 ms) := by
  simp [offset]

end Record

/-- A class without bases. -/
def CType.record (ms : List Member) : CType where
  size := Record.size ms
  alignLog := Record.alignLog ms
  dvd := dvd_roundUp _ _

def CType.union (ts : List CType) : CType where
  size := roundUp (2 ^ (ts.map (·.alignLog)).foldr max 0) ((ts.map (·.size)).foldr max 0)
  alignLog := (ts.map (·.alignLog)).foldr max 0
  dvd := dvd_roundUp _ _

def CType.storage (len alignLog : ℕ) : CType := ⟨⟨roundUp (2 ^ alignLog) len, alignLog⟩, dvd_roundUp _ _⟩

theorem CType.alignLog_le_union {ts : List CType} {t : CType} (ht : t ∈ ts) :
    t.alignLog ≤ (CType.union ts).alignLog := by
  dsimp only [CType.union]
  induction ts with
  | nil => cases ht
  | cons u ts ih =>
    rcases List.mem_cons.mp ht with rfl | ht
    · exact le_max_left _ _
    · exact (ih ht).trans (le_max_right _ _)

theorem CType.union_alignLog_le {ts : List CType} {k : ℕ} (h : ∀ t ∈ ts, t.alignLog ≤ k) :
    (CType.union ts).alignLog ≤ k := by
  dsimp only [CType.union]
  induction ts with
  | nil => exact Nat.zero_le k
  | cons u ts ih =>
    exact max_le (h u List.mem_cons_self) (ih fun t ht => h t (List.mem_cons_of_mem _ ht))

/-! ## Records that differ in their last member -/

/-- The members before the last one are alike in all records; the last one is aligned alike,
and at least as its type demands. -/
structure Family (K : Type*) where
  shared : K → List Member
  same : ∀ j k, shared j = shared k
  alignLog : ℕ
  last : K → CType
  le : ∀ k, (last k).alignLog ≤ alignLog

namespace Family
variable {K : Type*} (f : Family K)

def members (k : K) : List Member := f.shared k ++ [⟨(f.last k).size, f.alignLog⟩]

theorem lt_length (k : K) : (f.shared k).length < (f.members k).length := by simp [members]

theorem members_last (k : K) (hi : (f.shared k).length < (f.members k).length) :
    (f.members k)[(f.shared k).length] = ⟨(f.last k).size, f.alignLog⟩ := by
  simp [members]

def offsetof (k : K) : ℕ := Record.offset (f.members k) (f.shared k).length (f.lt_length k)

def size (k : K) : ℕ := Record.size (f.members k)

/-- The last member of the record at `p`. -/
def create (k : K) (p : ℕ) : ℕ := p + f.offsetof k

/-- The record around a last member. -/
def instanceFrom (k : K) (h : ℕ) : ℕ := h - f.offsetof k

theorem offsetof_eq (k : K) : f.offsetof k = roundUp (2 ^ f.alignLog) (Record.finish 0 (f.shared k)) :=
  Record.offset_concat _ _

theorem offsetof_same (j k : K) : f.offsetof j = f.offsetof k := by
  rw [f.offsetof_eq, f.offsetof_eq, f.same j k]

theorem alignLog_same (j k : K) : Record.alignLog (f.members j) = Record.alignLog (f.members k) := by
  simp [Record.alignLog, members, f.same j k]

/-- Records of the family can stand for one another, and are laid out properly. -/
structure Sound (k : K) (p : ℕ) : Prop where
  from_create : ∀ j, f.instanceFrom j (f.create k p) = p
  shared : ∀ j i, i < (f.shared k).length → ∀ hi hk, Record.offset (f.members j) i hi = Record.offset (f.members k) i hk
  aligned : ∀ i hi, (f.members k)[i].align ∣ p + Record.offset (f.members k) i hi
  last_aligned : (f.last k).align ∣ f.create k p
  apart : ∀ i j (hij : i < j) hj,
    Record.offset (f.members k) i (hij.trans hj) + (f.members k)[i].size ≤ Record.offset (f.members k) j hj
  inside : ∀ i hi, Record.offset (f.members k) i hi + (f.members k)[i].size ≤ f.size k

theorem sound (k : K) {p : ℕ} (hp : 2 ^ Record.alignLog (f.members k) ∣ p) : f.Sound k p where
  from_create j := by rw [instanceFrom, create, f.offsetof_same k j, Nat.add_sub_cancel]
  shared j i hi _ _ := by
    have hj : i < (f.shared j).length := by rwa [f.same j k]
    have hoff : Record.offset (f.shared j) i hj = Record.offset (f.shared k) i hi := by simp only [f.same j k]
    exact (Record.offset_append_left hj).trans (hoff.trans (Record.offset_append_left hi).symm)
  aligned i hi := Record.offset_aligned hp hi
  last_aligned := by
    have h := Record.offset_aligned hp (f.lt_length k)
    rw [f.members_last k] at h
    exact (Nat.pow_dvd_pow 2 (f.le k)).trans h
  apart _ _ hij hj := Record.offset_apart hij hj
  inside _ hi := Record.offset_inside hi

/-- The record of one class has room for the last member of another exactly if it is no
smaller than the other's own. -/
theorem room_iff (j k : K) : f.offsetof j + (f.last k).size ≤ f.size j ↔ f.size k ≤ f.size j := by
  have hend : Record.finish 0 (f.members k) = f.offsetof j + (f.last k).size := by
    rw [members, Record.finish_append, f.offsetof_same j k, f.offsetof_eq]
    rfl
  have hsize : f.size k = roundUp (2 ^ Record.alignLog (f.members j)) (f.offsetof j + (f.last k).size) := by
    rw [size, Record.size, f.alignLog_same k j, hend]
  constructor
  · intro h
    rw [hsize]
    exact roundUp_le_of_dvd (Nat.two_pow_pos _) (dvd_roundUp _ _) h
  · intro h
    rw [hsize] at h
    exact (le_roundUp (Nat.two_pow_pos _) _).trans h

end Family
end Uvcc.Memory
