import Uvcc.Buffer.Construction
import Uvcc.Counting.Ledger
import Uvcc.Machine.Trace

/-!
# Buffers lent to reads

`io_alloc_cb` takes a reference of the buffer that the user callback returns and
hands libuv its first base pointer; the read callback finds the instance again by
arithmetic on this pointer. A buffer variable of the program or of a callback is one
holder of a reference, a read in flight another one.
-/
namespace Uvcc.Buffer
open Counting Machine Memory

inductive Endpoint where
  | stream
  | udp
  | file
  deriving DecidableEq, Repr

/-- An offset in the block of an instance, or an address in no block. -/
structure Ptr where
  block : Option ℕ
  off : SizeT
  deriving DecidableEq, Repr

namespace Ptr

def null : Ptr := ⟨none, 0⟩

def back (p : Ptr) (n : SizeT) : Ptr := { p with off := p.off - n }

end Ptr

namespace Layout
variable (L : Layout)

def basePtr (b : ℕ) (lens : List SizeT) : Ptr :=
  match (L.construct lens).bufs.head?.bind UvBuf.base with
  | some off => ⟨some b, off⟩
  | none => .null

/-- `buffer::instance::uv_buf::from`. -/
def uvBufFrom (base : Ptr) : Ptr := (base.back (L.alignmentPadding 0)).back L.bufSize

/-- `buffer::instance::from`, if an instance is there. -/
def instanceFrom (uvBuf : Ptr) : Option ℕ :=
  let p := uvBuf.back L.uvBufStruct
  if p.off = 0 then p.block else none

end Layout

/-- A read with the `uv_buf_t.base` that libuv has got; the owner is the instance
whose reference `io_alloc_cb` took. -/
structure Read where
  endpoint : Endpoint
  base : Ptr
  owner : ℕ
  deriving DecidableEq, Repr

/-- The buffer instances with the lengths they were made of; `wild` records that a
pointer to no instance was used as one. -/
structure Pool where
  mem : Ledger ℕ
  lens : ℕ → List SizeT
  vars : Multiset ℕ
  pending : Multiset Read
  next : ℕ
  wild : Bool

inductive ReadEvent where
  | newBuffer (lens : List SizeT)
  | copy (b : ℕ)
  | drop (b : ℕ)
  | alloc (k : Endpoint) (b : ℕ)
  | fileRead (b : ℕ) (uvRet : ℤ)
  | read (r : Read) (nread : ℤ)

def uvEof : ℤ := -4095

namespace Pool

def init : Pool := ⟨Ledger.empty, fun _ => [], 0, 0, 0, false⟩

def newBuffer (s : Pool) (lens : List SizeT) : Pool :=
  { s with
    mem := s.mem.create s.next
    lens := Function.update s.lens s.next lens
    vars := s.next ::ₘ s.vars
    next := s.next + 1 }

/-- `io_alloc_cb`: the callback returns a variable, which dies at the end. -/
def ioAllocCb (s : Pool) (b : ℕ) : Pool :=
  { s with mem := (s.mem.inc b).dec b, vars := s.vars.erase b }

section Reads
variable (L : Layout)

def unrefAt (s : Pool) (uvBuf : Ptr) : Pool :=
  match L.instanceFrom uvBuf with
  | some b => { s with mem := s.mem.dec b }
  | none => { s with wild := true }

def adopt (s : Pool) (uvBuf : Ptr) : Pool :=
  match L.instanceFrom uvBuf with
  | some b => { s with vars := b ::ₘ s.vars }
  | none => { s with wild := true }

def ioReadCb (s : Pool) (base : Ptr) : Pool :=
  if base ≠ .null then s.adopt L (L.uvBufFrom base) else s.newBuffer []

/-- `file::read_cb`: on an error or at the end of the file the buffer is released. -/
def fileReadCb (s : Pool) (base : Ptr) (result : ℤ) : Pool :=
  let nread := if result = 0 then uvEof else result
  if nread < 0 then (s.unrefAt L (L.uvBufFrom base)).ioReadCb L .null else s.ioReadCb L base

def readCb (s : Pool) (r : Read) (nread : ℤ) : Pool :=
  match r.endpoint with
  | .stream => s.ioReadCb L r.base
  | .udp => s.ioReadCb L r.base
  | .file => s.fileReadCb L r.base nread

/-- libuv calls the read callback once with what it got; a file has it only if
`uv_fs_read()` did not fail. -/
def submit (s : Pool) (k : Endpoint) (b : ℕ) : Pool :=
  { s with pending := ⟨k, L.basePtr b (s.lens b), b⟩ ::ₘ s.pending }

def act (s : Pool) : ReadEvent → Option Pool
  | .newBuffer lens => some (s.newBuffer lens)
  | .copy b => if b ∈ s.vars then some { s with mem := s.mem.inc b, vars := b ::ₘ s.vars } else none
  | .drop b =>
    if b ∈ s.vars then some { s with mem := s.mem.dec b, vars := s.vars.erase b } else none
  | .alloc k b => if b ∈ s.vars ∧ k ≠ .file then some ((s.ioAllocCb b).submit L k b) else none
  | .fileRead b uvRet =>
    if b ∈ s.vars then
      some (if uvRet < 0 then s.ioAllocCb b else (s.ioAllocCb b).submit L .file b)
    else none
  | .read r nread =>
    if r ∈ s.pending then some ({ s with pending := s.pending.erase r }.readCb L r nread) else none

/-- Nothing is known after a wild access. -/
def step (s : Pool) (e : ReadEvent) : Option Pool := if s.wild then none else s.act L e

end Reads

def holders (s : Pool) : Multiset ℕ := s.vars + s.pending.map Read.owner

/-- Every reference has one holder and every holder one reference, and each
release went to an instance. -/
def Kept (s : Pool) : Prop := s.mem.Balanced s.holders ∧ s.wild = false

end Pool

namespace Layout
variable (L : Layout)

/-- The first chunk lies where that of a buffer with one chunk does. -/
def Recoverable (lens : List SizeT) : Prop :=
  let count : SizeT := BitVec.ofNat 64 lens.length
  count ≠ 0 ∧ wrappedSum lens ≠ 0 ∧
    (count - 1) * L.bufSize + L.alignmentPadding (count - 1) = L.alignmentPadding 0

instance (lens : List SizeT) : Decidable (L.Recoverable lens) :=
  inferInstanceAs (Decidable (_ ∧ _ ∧ _))

/-! ## From the base pointer back to the instance -/

theorem basePtr_cases (b : ℕ) (lens : List SizeT) :
    ((BitVec.ofNat 64 lens.length = 0 ∨ wrappedSum lens = 0) ∧ L.basePtr b lens = .null) ∨
      (BitVec.ofNat 64 lens.length ≠ 0 ∧ wrappedSum lens ≠ 0 ∧
        L.basePtr b lens = ⟨some b, L.uvBufStruct + BitVec.ofNat 64 lens.length * L.bufSize +
          L.alignmentPadding (BitVec.ofNat 64 lens.length - 1)⟩) := by
  by_cases hcount : BitVec.ofNat 64 lens.length = 0
  · refine .inl ⟨.inl hcount, ?_⟩
    rw [basePtr, construct, if_pos hcount]
    rfl
  · by_cases hsum : wrappedSum lens = 0
    · refine .inl ⟨.inr hsum, ?_⟩
      rw [basePtr, L.construct_null hcount hsum]
      cases lens <;> rfl
    · refine .inr ⟨hcount, hsum, ?_⟩
      rw [basePtr, L.construct_chunks hcount hsum]
      cases lens with
      | nil => exact absurd rfl hcount
      | cons len lens => rfl

@[simp] theorem instanceFrom_null : L.instanceFrom (L.uvBufFrom .null) = none := ite_self _

theorem instanceFrom_uvBufFrom (b : ℕ) (count pad : SizeT) :
    L.instanceFrom (L.uvBufFrom ⟨some b, L.uvBufStruct + count * L.bufSize + pad⟩) =
      if (count - 1) * L.bufSize + pad = L.alignmentPadding 0 then some b else none := by
  have hoff : L.uvBufStruct + count * L.bufSize + pad - L.alignmentPadding 0 - L.bufSize -
      L.uvBufStruct = (count - 1) * L.bufSize + pad - L.alignmentPadding 0 := by ring
  simp only [instanceFrom, uvBufFrom, Ptr.back, hoff, sub_eq_zero]

theorem recoverable_spec (b : ℕ) {lens : List SizeT} (h : L.Recoverable lens) :
    L.basePtr b lens ≠ .null ∧ L.instanceFrom (L.uvBufFrom (L.basePtr b lens)) = some b := by
  obtain ⟨hcount, hsum, hpad⟩ := h
  rcases L.basePtr_cases b lens with ⟨hz | hz, _⟩ | ⟨_, _, hbase⟩
  · exact absurd hz hcount
  · exact absurd hz hsum
  · rw [hbase, instanceFrom_uvBufFrom, if_pos hpad]
    exact ⟨by simp [Ptr.null], rfl⟩

/-- Otherwise the pointer is null or leads to no instance. -/
theorem not_recoverable_spec (b : ℕ) {lens : List SizeT} (h : ¬ L.Recoverable lens) :
    L.basePtr b lens = .null ∨ L.instanceFrom (L.uvBufFrom (L.basePtr b lens)) = none := by
  rcases L.basePtr_cases b lens with ⟨_, hnull⟩ | ⟨hcount, hsum, hbase⟩
  · exact .inl hnull
  · have hpad : ¬ (BitVec.ofNat 64 lens.length - 1) * L.bufSize +
        L.alignmentPadding (BitVec.ofNat 64 lens.length - 1) = L.alignmentPadding 0 :=
      fun hp => h ⟨hcount, hsum, hp⟩
    rw [hbase, instanceFrom_uvBufFrom, if_neg hpad]
    exact .inr rfl

/-- In exact sizes: there is something to read into, and the further structures fit
into the padding that a buffer with one chunk has. -/
theorem recoverable_iff {lens : List SizeT} (h : L.totalSize lens < 2 ^ 64) :
    L.Recoverable lens ↔ 0 < exactSum lens ∧ L.chunksStart lens.length = L.chunksStart 1 := by
  have hsum : wrappedSum lens ≠ 0 ↔ 0 < exactSum lens := by
    rw [Ne, L.wrappedSum_eq_zero h, Nat.pos_iff_ne_zero]
  by_cases hne : lens = []
  · subst hne
    simp [Recoverable]
  · have hcount := L.count_ne_zero h hne
    have hstart : L.chunksStart lens.length < 2 ^ 64 := (Nat.le_add_right _ _).trans_lt h
    have hone : L.chunksStart 1 ≤ L.chunksStart lens.length := by
      apply roundUp_le_of_dvd L.align_pos (dvd_roundUp _ _)
      apply le_trans _ (L.headerSize_le_chunksStart lens.length)
      simp [headerSize]
    have hn := L.toNat_chunksStart (L.toNat_countPred h hne) hstart
    have hzero : (0 : SizeT).toNat = 1 - 1 := rfl
    have h1 := L.toNat_chunksStart hzero (hone.trans_lt hstart)
    have hwords : (BitVec.ofNat 64 lens.length - 1) * L.bufSize +
        L.alignmentPadding (BitVec.ofNat 64 lens.length - 1) = L.alignmentPadding 0 ↔
        L.chunksStart lens.length = L.chunksStart 1 := by
      rw [← hn, ← h1, ← BitVec.toNat_eq, zero_mul, add_zero, add_assoc, add_right_inj]
    simp only [Recoverable, hwords, hsum]
    exact ⟨fun hr => hr.2, fun hr => ⟨hcount, hr⟩⟩

end Layout

namespace Pool
variable (L : Layout)

def KeepsBuffers (s : Pool) : ReadEvent → Prop
  | .fileRead _ uvRet => 0 ≤ uvRet
  | .read r _ => L.Recoverable (s.lens r.owner)
  | _ => True

/-- Moreover libuv has the base pointer of the owner of the reference. -/
structure Inv (s : Pool) : Prop where
  kept : s.Kept
  base : ∀ r ∈ s.pending, r.base = L.basePtr r.owner (s.lens r.owner)
  unborn : ∀ n, s.next ≤ n → s.mem.status n = .unborn

variable {L} {s t : Pool} {b : ℕ} {r : Read}

theorem Inv.lt_next (hs : s.Inv L) (hb : b ∈ s.holders) : b < s.next := by
  by_contra hn
  have hu := hs.unborn b (not_lt.mp hn)
  have hl := hs.kept.1.live hb
  rw [hu] at hl
  cases hl

theorem owner_mem (hr : r ∈ s.pending) : r.owner ∈ s.holders :=
  Multiset.mem_add.mpr (.inr (Multiset.mem_map_of_mem _ hr))

theorem var_mem (hb : b ∈ s.vars) : b ∈ s.holders := Multiset.mem_add.mpr (.inl hb)

/-! ## The buffers of the program -/

theorem newBuffer_balanced {H : Multiset ℕ} (h : s.mem.Balanced H)
    (hu : s.mem.status s.next = .unborn) (lens : List SizeT) :
    (s.newBuffer lens).mem.Balanced (s.next ::ₘ H) := h.create hu

theorem Inv.newBuffer (hs : s.Inv L) (lens : List SizeT) : (s.newBuffer lens).Inv L where
  kept := by
    refine ⟨?_, hs.kept.2⟩
    have h := newBuffer_balanced hs.kept.1 (hs.unborn s.next le_rfl) lens
    rwa [holders, ← Multiset.cons_add] at h
  base r hr := by
    have hlt := hs.lt_next (owner_mem hr)
    simp only [Pool.newBuffer, Function.update_of_ne hlt.ne]
    exact hs.base r hr
  unborn n hn := by
    have hne : n ≠ s.next := Nat.ne_of_gt hn
    simp only [Pool.newBuffer, Ledger.create, Function.update_of_ne hne]
    exact hs.unborn n (Nat.le_of_succ_le hn)

theorem Inv.copy (hs : s.Inv L) (hb : b ∈ s.vars) :
    { s with mem := s.mem.inc b, vars := b ::ₘ s.vars }.Inv L where
  kept := by
    refine ⟨?_, hs.kept.2⟩
    have h := hs.kept.1.inc (var_mem hb)
    rwa [holders, ← Multiset.cons_add] at h
  base := hs.base
  unborn n hn := by simpa using hs.unborn n hn

theorem Inv.drop (hs : s.Inv L) (hb : b ∈ s.vars) :
    { s with mem := s.mem.dec b, vars := s.vars.erase b }.Inv L where
  kept := by
    refine ⟨?_, hs.kept.2⟩
    have h := hs.kept.1
    rw [holders, ← Multiset.cons_erase hb, Multiset.cons_add] at h
    exact h.dec
  base := hs.base
  unborn n hn := by simpa using hs.unborn n hn

/-! ## Lending a buffer -/

/-- The reference of the returned variable is replaced by the one that was added. -/
theorem ioAllocCb_balanced (hs : s.Inv L) (hb : b ∈ s.vars) :
    (s.ioAllocCb b).mem.Balanced (b ::ₘ (s.ioAllocCb b).holders) := by
  have h := (hs.kept.1.inc (var_mem hb)).dec
  have hh : b ::ₘ (s.ioAllocCb b).holders = s.holders := by
    rw [holders, holders, ← Multiset.cons_add]
    exact congrArg (· + _) (Multiset.cons_erase hb)
  rw [hh]
  exact h

theorem Inv.submit (hs : s.Inv L) (hb : b ∈ s.vars) (k : Endpoint) :
    ((s.ioAllocCb b).submit L k b).Inv L where
  kept := by
    refine ⟨?_, hs.kept.2⟩
    have h := ioAllocCb_balanced hs hb
    rw [holders, ← Multiset.add_cons] at h
    rw [holders, Pool.submit, Multiset.map_cons]
    exact h
  base r hr := by
    rcases Multiset.mem_cons.mp hr with rfl | hr
    · rfl
    · exact hs.base r hr
  unborn n hn := by
    have h := hs.unborn n hn
    simp [Pool.submit, ioAllocCb, h]

/-- A reference that nobody holds any more. -/
theorem not_kept_of_balanced {H : Multiset ℕ} (h : s.mem.Balanced H) (hne : H.card ≠ s.holders.card) :
    ¬ s.Kept := by
  rintro ⟨hk, _⟩
  exact hne (congrArg Multiset.card (h.holders_eq hk))

theorem ioAllocCb_not_kept (hs : s.Inv L) (hb : b ∈ s.vars) : ¬ (s.ioAllocCb b).Kept := by
  apply not_kept_of_balanced (ioAllocCb_balanced hs hb)
  rw [Multiset.card_cons]
  exact Nat.succ_ne_self _

/-! ## Getting it back -/

/-- The read is over, and its reference in hand. -/
theorem Inv.take (hs : s.Inv L) (hr : r ∈ s.pending) :
    s.mem.Balanced (r.owner ::ₘ { s with pending := s.pending.erase r }.holders) := by
  have h := hs.kept.1
  rw [holders, ← Multiset.cons_erase hr, Multiset.map_cons, Multiset.add_cons] at h
  exact h

/-- The callback's buffer argument takes the reference over. -/
theorem Inv.adopt (hs : s.Inv L) (hr : r ∈ s.pending) {p : Ptr} (hp : L.instanceFrom p = some r.owner) :
    ({ s with pending := s.pending.erase r }.adopt L p).Inv L := by
  rw [Pool.adopt, hp]
  constructor
  case kept =>
    refine ⟨?_, hs.kept.2⟩
    have h := hs.take hr
    rw [holders, ← Multiset.cons_add] at h
    exact h
  case base => exact fun q hq => hs.base q (Multiset.mem_of_mem_erase hq)
  case unborn => exact hs.unborn

theorem Inv.unrefAt (hs : s.Inv L) (hr : r ∈ s.pending) {p : Ptr} (hp : L.instanceFrom p = some r.owner) :
    ({ s with pending := s.pending.erase r }.unrefAt L p).Inv L := by
  rw [Pool.unrefAt, hp]
  constructor
  case kept => exact ⟨(hs.take hr).dec, hs.kept.2⟩
  case base => exact fun q hq => hs.base q (Multiset.mem_of_mem_erase hq)
  case unborn =>
    intro n hn
    simpa using hs.unborn n hn

theorem ioReadCb_null (s : Pool) : s.ioReadCb L .null = s.newBuffer [] := if_neg (by simp)

/-- The callback gets the buffer, or a file has released it and passes a fresh one. -/
theorem readCb_cases (s : Pool) (r : Read) (nread : ℤ) :
    s.readCb L r nread = s.ioReadCb L r.base ∨
      s.readCb L r nread = (s.unrefAt L (L.uvBufFrom r.base)).newBuffer [] := by
  unfold Pool.readCb
  cases r.endpoint with
  | stream => exact .inl rfl
  | udp => exact .inl rfl
  | file =>
    unfold fileReadCb
    dsimp only
    rw [ioReadCb_null]
    split_ifs
    · exact .inr rfl
    · exact .inl rfl
    · exact .inr rfl
    · exact .inl rfl

/-- A read that ends with a buffer that can be found again. -/
theorem Inv.readCb (hs : s.Inv L) (hr : r ∈ s.pending) (h : L.Recoverable (s.lens r.owner)) (nread : ℤ) :
    ({ s with pending := s.pending.erase r }.readCb L r nread).Inv L := by
  obtain ⟨hne, hp⟩ := L.recoverable_spec r.owner h
  rw [← hs.base r hr] at hne hp
  rcases readCb_cases { s with pending := s.pending.erase r } r nread with hcb | hcb
  · rw [hcb, ioReadCb, if_pos hne]
    exact hs.adopt hr hp
  · rw [hcb]
    exact (hs.unrefAt hr hp).newBuffer []

/-! ## Losing it -/

theorem not_kept_of_wild (h : s.wild = true) : ¬ s.Kept := by
  rintro ⟨_, hw⟩
  rw [h] at hw
  cases hw

/-- A fresh buffer for the callback, while the reference is still in hand. -/
theorem newBuffer_not_kept (hs : s.Inv L) (hr : r ∈ s.pending) (lens : List SizeT) :
    ¬ ({ s with pending := s.pending.erase r }.newBuffer lens).Kept := by
  have h := newBuffer_balanced (hs.take hr) (hs.unborn s.next le_rfl) lens
  refine not_kept_of_balanced (s := { s with pending := s.pending.erase r }.newBuffer lens) h ?_
  simp only [holders, Pool.newBuffer, Multiset.card_cons, Multiset.card_add]
  omega

theorem readCb_not_kept (hs : s.Inv L) (hr : r ∈ s.pending) (h : ¬ L.Recoverable (s.lens r.owner))
    (nread : ℤ) : ¬ ({ s with pending := s.pending.erase r }.readCb L r nread).Kept := by
  have hcases := L.not_recoverable_spec r.owner h
  rw [← hs.base r hr] at hcases
  have hp : L.instanceFrom (L.uvBufFrom r.base) = none := by
    rcases hcases with hnull | hp
    · rw [hnull]
      exact L.instanceFrom_null
    · exact hp
  rcases readCb_cases { s with pending := s.pending.erase r } r nread with hcb | hcb
  · rw [hcb]
    by_cases hnull : r.base = .null
    · rw [hnull, ioReadCb_null]
      exact newBuffer_not_kept hs hr []
    · rw [ioReadCb, if_pos hnull, Pool.adopt, hp]
      exact not_kept_of_wild rfl
  · rw [hcb, Pool.unrefAt, hp]
    exact not_kept_of_wild rfl

/-! ## One step -/

theorem step_kept {e : ReadEvent} (hs : s.Inv L) (h : s.step L e = some t) :
    (KeepsBuffers L s e → t.Inv L) ∧ (¬ KeepsBuffers L s e → ¬ t.Kept) := by
  simp only [Pool.step, hs.kept.2, Bool.false_eq_true, if_false] at h
  cases e with
  | newBuffer lens =>
    obtain rfl := Option.some.inj h
    exact ⟨fun _ => hs.newBuffer lens, fun hbad => absurd trivial hbad⟩
  | copy b =>
    simp only [act, Option.ite_none_right_eq_some, Option.some.injEq] at h
    obtain ⟨hb, rfl⟩ := h
    exact ⟨fun _ => hs.copy hb, fun hbad => absurd trivial hbad⟩
  | drop b =>
    simp only [act, Option.ite_none_right_eq_some, Option.some.injEq] at h
    obtain ⟨hb, rfl⟩ := h
    exact ⟨fun _ => hs.drop hb, fun hbad => absurd trivial hbad⟩
  | alloc k b =>
    simp only [act, Option.ite_none_right_eq_some, Option.some.injEq] at h
    obtain ⟨⟨hb, _⟩, rfl⟩ := h
    exact ⟨fun _ => hs.submit hb k, fun hbad => absurd trivial hbad⟩
  | fileRead b uvRet =>
    simp only [act, Option.ite_none_right_eq_some, Option.some.injEq] at h
    obtain ⟨hb, rfl⟩ := h
    by_cases hneg : uvRet < 0
    · rw [if_pos hneg]
      exact ⟨fun hok => absurd hok (not_le.mpr hneg), fun _ => ioAllocCb_not_kept hs hb⟩
    · rw [if_neg hneg]
      exact ⟨fun _ => hs.submit hb .file, fun hbad => absurd (not_lt.mp hneg) hbad⟩
  | read r nread =>
    simp only [act, Option.ite_none_right_eq_some, Option.some.injEq] at h
    obtain ⟨hr, rfl⟩ := h
    exact ⟨fun hok => hs.readCb hr hok nread, fun hbad => readCb_not_kept hs hr hbad nread⟩

theorem inv_init (L : Layout) : init.Inv L where
  kept := ⟨Ledger.Balanced.empty, rfl⟩
  base r hr := by simp [init] at hr
  unborn n _ := rfl

end Pool

/-- In every run no buffer reference is lost or released twice exactly when every
buffer that a read gives back can be found again and no file read is refused. -/
theorem read_buffers_kept_iff (L : Layout) (es : List ReadEvent) :
    (∀ s ∈ visited (Pool.step L) Pool.init es, s.Kept) ↔
      ∀ p ∈ taken (Pool.step L) Pool.init es, Pool.KeepsBuffers L p.1 p.2 := by
  refine visited_iff_guarded (I := Pool.Inv L) (fun s hs => hs.kept) ?_ ?_ es _ (Pool.inv_init L)
  · intro s e t hs hok h
    exact (Pool.step_kept hs h).1 hok
  · intro s e t hs hbad h
    exact (Pool.step_kept hs h).2 hbad

/-- The alloc callback of a stream returns `buffer()`, and libuv reports `UV_ENOBUFS`. -/
def nullRead : List ReadEvent := [.newBuffer [], .alloc .stream 0, .read ⟨.stream, .null, 0⟩ (-105)]

/-- The read callback gets a new buffer, and nobody has the first one. -/
theorem read_buffer_lost : ¬ ∀ (L : Layout) (es : List ReadEvent),
    ∀ s ∈ visited (Pool.step L) Pool.init es, s.Kept := by
  intro h
  have hkept := h commonLayout nullRead _ (final_visited _ _)
  have hmem := (hkept.1.live_iff 0).mp (by decide)
  revert hmem
  decide

end Uvcc.Buffer
