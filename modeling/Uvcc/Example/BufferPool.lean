import Uvcc.Example.FlowControl
import Uvcc.Machine.Simulation
import Uvcc.Machine.Lending

/-!
# The buffers of the input

`tee1` keeps all its buffers in a vector and hands out the first that nobody else refers
to. `tee2` keeps the spare ones in a vector, from which they are taken at the back and to
which the sink of a buffer returns it. Both lend buffers that are not in use, in full
length, and make no more of them than are in use at once.
-/
namespace Uvcc.Example
open Machine

/-- What is done with a pool and its buffers: one is taken, a variable of it is copied or
goes, and its length is set. -/
inductive PoolOp where
  | get
  | copy (b : ℕ)
  | drop (b : ℕ)
  | setLen (b n : ℕ)
  deriving DecidableEq, Repr

/-! ## `tee1` -/

structure Item where
  nrefs : ℕ
  len : ℕ
  deriving DecidableEq, Repr

structure ScanPool where
  bufPool : List Item
  deriving DecidableEq, Repr

namespace ScanPool

def init : ScanPool := ⟨[]⟩

def setItem (s : ScanPool) (b : ℕ) (x : Item) : ScanPool := ⟨s.bufPool.set b x⟩

def allocCb (s : ScanPool) : ScanPool × ℕ :=
  match s.bufPool.findIdx? fun x => x.nrefs == 1 with
  | some i => (s.setItem i ⟨2, bufferSize⟩, i)
  | none => (⟨s.bufPool ++ [⟨2, bufferSize⟩]⟩, s.bufPool.length)

/-- Somebody besides the pool refers to the item. -/
def update (s : ScanPool) (b : ℕ) (f : Item → Item) : Option ScanPool :=
  match s.bufPool[b]? with
  | some x => if 2 ≤ x.nrefs then some (s.setItem b (f x)) else none
  | none => none

def step (s : ScanPool) : PoolOp → Option ScanPool
  | .get => some s.allocCb.1
  | .copy b => s.update b fun x => { x with nrefs := x.nrefs + 1 }
  | .drop b => s.update b fun x => { x with nrefs := x.nrefs - 1 }
  | .setLen b n => s.update b fun x => { x with len := n }

def shown (s : ScanPool) : PoolOp → List Loan
  | .get => [.lent s.allocCb.2 ((s.allocCb.1.bufPool[s.allocCb.2]?).elim 0 Item.len)]
  | .copy b => [.copied b]
  | .drop b => [.dropped b]
  | .setLen _ _ => []

/-- The variables outside are those that the pool does not have. -/
structure Lends (s : ScanPool) (a : Lender) : Prop where
  tight : a.Tight 0
  total : a.total = s.bufPool.length
  held : ∀ b x, s.bufPool[b]? = some x → x.nrefs = a.held b + 1

variable {s t : ScanPool} {a : Lender}

theorem init_lends : init.Lends (.init 0) := ⟨Lender.init_tight 0, rfl, fun b x h => by simp [init] at h⟩

/-- The variables of one item change. -/
theorem Lends.held_set (h : s.Lends a) {b n : ℕ} {x : Item} (hx : x.nrefs = n + 1) (c : ℕ) (y : Item)
    (hc : (s.setItem b x).bufPool[c]? = some y) : y.nrefs = Function.update a.held b n c + 1 := by
  rw [ScanPool.setItem, List.getElem?_set] at hc
  by_cases hcb : b = c
  · subst hcb
    rw [if_pos rfl] at hc
    split_ifs at hc
    obtain rfl := Option.some.inj hc
    rw [Function.update_self, hx]
  · rw [if_neg hcb] at hc
    rw [Function.update_of_ne (Ne.symm hcb)]
    exact h.held c y hc

/-- The item that is handed out, whether it is found or made. -/
theorem Lends.get (h : s.Lends a) : a.Fits s.allocCb.2 ∧ s.allocCb.1.Lends (a.lend s.allocCb.2) ∧
    (s.allocCb.1.bufPool[s.allocCb.2]?).elim 0 Item.len = bufferSize := by
  unfold allocCb
  cases hfind : s.bufPool.findIdx? fun x => x.nrefs == 1 with
  | some i =>
    obtain ⟨hi, hone, _⟩ := List.findIdx?_eq_some_iff_getElem.mp hfind
    have hzero : a.held i = 0 := by
      have hheld := h.held i _ (List.getElem?_eq_getElem hi)
      have hrefs : s.bufPool[i].nrefs = 1 := by simpa using hone
      omega
    have hlt : i < a.total := h.total ▸ hi
    have hfits : a.Fits i := ⟨hzero, .inl hlt⟩
    refine ⟨hfits, ⟨h.tight.lend hfits, ?_, h.held_set rfl⟩, ?_⟩
    · have htotal : (a.lend i).total = a.total := max_eq_left hlt
      rw [htotal, h.total]
      exact List.length_set.symm
    · simp [ScanPool.setItem, hi]
  | none =>
    have hall := List.findIdx?_eq_none_iff.mp hfind
    have hbusy : ∀ c < a.total, 0 < a.held c := by
      intro c hc
      rw [h.total] at hc
      have hheld := h.held c _ (List.getElem?_eq_getElem hc)
      have hne := hall _ (List.getElem_mem hc)
      simp only [beq_eq_false_iff_ne] at hne
      omega
    have hfits : a.Fits s.bufPool.length :=
      ⟨h.tight.beyond _ h.total.le, .inr ⟨h.total.symm, hbusy⟩⟩
    refine ⟨hfits, ⟨h.tight.lend hfits, ?_, fun c y hc => ?_⟩, by simp⟩
    · rw [Lender.lend, h.total, List.length_append]
      exact max_eq_right (Nat.le_succ _)
    · have hheld : (a.lend s.bufPool.length).held c = Function.update a.held s.bufPool.length 1 c := rfl
      rw [hheld]
      rcases lt_trichotomy c s.bufPool.length with hlt | rfl | hgt
      · rw [List.getElem?_append_left hlt] at hc
        rw [Function.update_of_ne hlt.ne]
        exact h.held c y hc
      · rw [List.getElem?_concat_length] at hc
        obtain rfl := Option.some.inj hc
        rw [Function.update_self]
      · rw [List.getElem?_eq_none (by simp; omega)] at hc
        cases hc

/-- A variable of an item that is in use is copied or goes. -/
theorem Lends.update (h : s.Lends a) {b : ℕ} {f : Item → Item} (ht : s.update b f = some t) {g : ℕ → ℕ}
    (hf : ∀ x n, 0 < n → x.nrefs = n + 1 → (f x).nrefs = g n + 1) :
    0 < a.held b ∧ t.Lends { a with held := Function.update a.held b (g (a.held b)) } := by
  unfold ScanPool.update at ht
  cases hx : s.bufPool[b]? with
  | none => simp [hx] at ht
  | some x =>
    simp only [hx, Option.ite_none_right_eq_some, Option.some.injEq] at ht
    obtain ⟨hrefs, rfl⟩ := ht
    have hheld := h.held b x hx
    have hpos : 0 < a.held b := by omega
    refine ⟨hpos, h.tight.hold hpos _, ?_, h.held_set (hf x _ hpos hheld)⟩
    exact h.total.trans List.length_set.symm

theorem simulates : Simulates step (Lender.step bufferSize) shown Lends := by
  intro s e t a h he
  cases e with
  | get =>
    obtain rfl := Option.some.inj he
    obtain ⟨hfits, hlends, hlen⟩ := h.get
    refine ⟨_, ?_, hlends⟩
    simp [shown, hlen, Lender.step, hfits]
  | copy b =>
    obtain ⟨hpos, hlends⟩ := h.update (g := fun n => n + 1) he (by intro x n _ hx; simp [hx])
    refine ⟨_, ?_, hlends⟩
    simp [shown, Lender.step, hpos]
  | drop b =>
    obtain ⟨hpos, hlends⟩ := h.update (g := fun n => n - 1) he
      (by intro x n hn hx; rw [hx, Nat.add_sub_cancel, Nat.sub_add_cancel hn])
    refine ⟨_, ?_, hlends⟩
    simp [shown, Lender.step, hpos]
  | setLen b n =>
    obtain ⟨hpos, hlends⟩ := h.update (g := fun n => n) he (by intro x n _ hx; exact hx)
    rw [Function.update_eq_self] at hlends
    exact ⟨a, rfl, hlends⟩

end ScanPool
/-! ## `tee2` -/

/-- `spare` has the spare items, the last of which is the next to be handed out. -/
structure BufferPool where
  spare : List ℕ
  numTotalItems : ℕ
  nrefs : ℕ → ℕ
  len : ℕ → ℕ

namespace BufferPool

def newItem (s : BufferPool) : BufferPool × ℕ :=
  ({ s with
    numTotalItems := s.numTotalItems + 1
    nrefs := Function.update s.nrefs s.numTotalItems 1
    len := Function.update s.len s.numTotalItems bufferSize }, s.numTotalItems)

def fill : ℕ → BufferPool → BufferPool
  | 0, s => s
  | n + 1, s => fill n { s.newItem.1 with spare := s.newItem.1.spare ++ [s.newItem.2] }

def init : BufferPool := fill (writeQueueSizeLowerLimit / bufferSize) ⟨[], 0, fun _ => 0, fun _ => 0⟩

def get (s : BufferPool) : BufferPool × ℕ :=
  match s.spare.getLast? with
  | none => s.newItem
  | some b => ({ s with spare := s.spare.dropLast }, b)

/-- The sink of an item, which it moves back. -/
def sinkCb (s : BufferPool) (b : ℕ) : BufferPool :=
  { s with len := Function.update s.len b bufferSize, spare := s.spare ++ [b] }

def unref (s : BufferPool) (b : ℕ) : BufferPool :=
  if s.nrefs b = 1 then s.sinkCb b else { s with nrefs := Function.update s.nrefs b (s.nrefs b - 1) }

def InUse (s : BufferPool) (b : ℕ) : Prop := b ∉ s.spare ∧ 0 < s.nrefs b

instance (s : BufferPool) (b : ℕ) : Decidable (s.InUse b) := by unfold InUse; infer_instance

def step (s : BufferPool) : PoolOp → Option BufferPool
  | .get => some s.get.1
  | .copy b =>
    if s.InUse b then some { s with nrefs := Function.update s.nrefs b (s.nrefs b + 1) } else none
  | .drop b => if s.InUse b then some (s.unref b) else none
  | .setLen b n => if s.InUse b then some { s with len := Function.update s.len b n } else none

def shown (s : BufferPool) : PoolOp → List Loan
  | .get => [.lent s.get.2 (s.get.1.len s.get.2)]
  | .copy b => [.copied b]
  | .drop b => [.dropped b]
  | .setLen _ _ => []

/-- Every item is spare, in full length and with one reference, or else somebody has it. -/
structure Lends (n : ℕ) (s : BufferPool) (a : Lender) : Prop where
  tight : a.Tight n
  total : a.total = s.numTotalItems
  nodup : s.spare.Nodup
  spare : ∀ b ∈ s.spare, b < s.numTotalItems ∧ a.held b = 0 ∧ s.nrefs b = 1 ∧ s.len b = bufferSize
  used : ∀ b, b ∉ s.spare → s.nrefs b = a.held b ∧ (b < s.numTotalItems → 0 < a.held b)

variable {n : ℕ} {s t : BufferPool} {a : Lender}

/-- A new item goes to the spare ones, as in the constructor. -/
theorem fill_lends (m : ℕ) : ∀ n (s : BufferPool), s.Lends n (.init n) →
    (fill m s).Lends (n + m) (.init (n + m)) := by
  induction m with
  | zero => intro n s h; exact h
  | succ m ih =>
    intro n s h
    have htotal : n = s.numTotalItems := h.total
    have hnew : s.numTotalItems ∉ s.spare := fun hmem => absurd (h.spare _ hmem).1 (lt_irrefl _)
    rw [fill, Nat.add_comm m 1, ← Nat.add_assoc]
    refine ih (n + 1) _ ⟨Lender.init_tight _, congrArg (· + 1) htotal, ?_, fun b hb => ?_, fun b hb => ?_⟩
    · exact h.nodup.append (List.nodup_singleton _) (List.disjoint_singleton.mpr hnew)
    · rcases List.mem_append.mp hb with hb | hb
      · obtain ⟨hlt, hheld, hrefs, hlen⟩ := h.spare b hb
        have hne : b ≠ s.numTotalItems := hlt.ne
        simp only [newItem, Function.update_of_ne hne]
        exact ⟨Nat.lt_succ_of_lt hlt, rfl, hrefs, hlen⟩
      · obtain rfl := List.mem_singleton.mp hb
        simp [newItem, Lender.init]
    · simp only [newItem, List.mem_append, List.mem_singleton, not_or] at hb
      obtain ⟨hb, hne⟩ := hb
      obtain ⟨hrefs, hlt⟩ := h.used b hb
      simp only [newItem, Function.update_of_ne hne]
      exact ⟨hrefs, fun hb' => hlt (by omega)⟩

theorem init_lends : init.Lends (writeQueueSizeLowerLimit / bufferSize)
    (.init (writeQueueSizeLowerLimit / bufferSize)) := by
  have hempty : (⟨[], 0, fun _ => 0, fun _ => 0⟩ : BufferPool).Lends 0 (.init 0) :=
    ⟨Lender.init_tight 0, rfl, List.nodup_nil, by simp, by simp [Lender.init]⟩
  have hfill := fill_lends (writeQueueSizeLowerLimit / bufferSize) 0 _ hempty
  rwa [Nat.zero_add] at hfill

/-- The item that is handed out, whether it was spare or is made. -/
theorem Lends.get (h : s.Lends n a) :
    a.Fits s.get.2 ∧ s.get.1.Lends n (a.lend s.get.2) ∧ s.get.1.len s.get.2 = bufferSize := by
  unfold BufferPool.get
  cases hlast : s.spare.getLast? with
  | none =>
    have hnil : s.spare = [] := List.getLast?_eq_none_iff.mp hlast
    have hbusy : ∀ c < a.total, 0 < a.held c := fun c hc =>
      (h.used c (by simp [hnil])).2 (h.total ▸ hc)
    have hfits : a.Fits s.numTotalItems :=
      ⟨h.tight.beyond _ h.total.le, .inr ⟨h.total.symm, hbusy⟩⟩
    refine ⟨hfits, ⟨h.tight.lend hfits, ?_, ?_, ?_, fun b hb => ?_⟩, by simp [newItem]⟩
    · simp only [newItem, Lender.lend, h.total]
      exact max_eq_right (Nat.le_succ _)
    · exact h.nodup
    · simp [newItem, hnil]
    · obtain ⟨hrefs, hlt⟩ := h.used b hb
      by_cases hb' : b = s.numTotalItems
      · simp [newItem, Lender.lend, hb']
      · simp only [newItem, Lender.lend, Function.update_of_ne hb']
        exact ⟨hrefs, fun hlt' => hlt (by omega)⟩
  | some b =>
    obtain ⟨l, hl⟩ := List.getLast?_eq_some_iff.mp hlast
    have hnodup := h.nodup
    rw [hl] at hnodup
    have hnot : b ∉ l := by
      have hdisjoint := List.disjoint_of_nodup_append hnodup
      exact fun hmem => hdisjoint hmem (List.mem_singleton_self b)
    have hsub : ∀ c ∈ l, c ∈ s.spare := fun c hc => hl ▸ List.mem_append_left _ hc
    obtain ⟨hlt, hzero, hone, hlen⟩ := h.spare b (hl ▸ List.mem_append_right _ (List.mem_singleton_self b))
    have hfits : a.Fits b := ⟨hzero, .inl (h.total ▸ hlt)⟩
    have hdrop : s.spare.dropLast = l := by rw [hl, List.dropLast_concat]
    refine ⟨hfits, ⟨h.tight.lend hfits, ?_, ?_, fun c hc => ?_, fun c hc => ?_⟩, hlen⟩
    · simp only [Lender.lend, h.total]
      exact max_eq_left hlt
    · rw [hdrop]
      exact hnodup.of_append_left
    · rw [hdrop] at hc
      have hne : c ≠ b := fun he => hnot (he ▸ hc)
      simp only [Lender.lend, Function.update_of_ne hne]
      exact h.spare c (hsub c hc)
    · rw [hdrop] at hc
      by_cases hcb : c = b
      · simp [Lender.lend, hcb, hone]
      · simp only [Lender.lend, Function.update_of_ne hcb]
        refine h.used c ?_
        rw [hl, List.mem_append, List.mem_singleton, not_or]
        exact ⟨hc, hcb⟩

/-- The variables of an item that is in use change, and one at least stays. -/
theorem Lends.hold (h : s.Lends n a) {b : ℕ} (hb : s.InUse b) {v : ℕ} (hv : 0 < v) :
    ({ s with nrefs := Function.update s.nrefs b v } : BufferPool).Lends n
      { a with held := Function.update a.held b v } := by
  have hheld := (h.used b hb.1).1
  have hpos : 0 < a.held b := by have := hb.2; omega
  refine ⟨h.tight.hold hpos v, h.total, h.nodup, fun c hc => ?_, fun c hc => ?_⟩
  · have hne : c ≠ b := fun he => hb.1 (he ▸ hc)
    simp only [Function.update_of_ne hne]
    exact h.spare c hc
  · by_cases hcb : c = b
    · simp [hcb, hv]
    · simp only [Function.update_of_ne hcb]
      exact h.used c hc

theorem Lends.unref (h : s.Lends n a) {b : ℕ} (hb : s.InUse b) :
    (s.unref b).Lends n { a with held := Function.update a.held b (a.held b - 1) } := by
  have hheld := (h.used b hb.1).1
  have hpos : 0 < a.held b := hheld ▸ hb.2
  unfold BufferPool.unref
  split_ifs with hone
  · -- the sink moves the item to the back of the vector
    have hzero : a.held b - 1 = 0 := by omega
    have hlt : b < s.numTotalItems := by
      by_contra hge
      exact absurd (h.tight.beyond b (h.total ▸ not_lt.mp hge)) hpos.ne'
    rw [hzero]
    refine ⟨h.tight.hold hpos 0, h.total, ?_, fun c hc => ?_, fun c hc => ?_⟩
    · exact h.nodup.append (List.nodup_singleton _) (List.disjoint_singleton.mpr hb.1)
    · rcases List.mem_append.mp hc with hc | hc
      · have hne : c ≠ b := fun he => hb.1 (he ▸ hc)
        simp only [sinkCb, Function.update_of_ne hne]
        exact h.spare c hc
      · obtain rfl := List.mem_singleton.mp hc
        simp [sinkCb, hlt, hone]
    · simp only [sinkCb, List.mem_append, List.mem_singleton, not_or] at hc
      simp only [sinkCb, Function.update_of_ne hc.2]
      exact h.used c hc.1
  · have hv : 0 < s.nrefs b - 1 := by
      have hrefs := hb.2
      omega
    rw [← hheld]
    exact h.hold hb hv

theorem simulates (n : ℕ) : Simulates step (Lender.step bufferSize) shown (Lends n) := by
  intro s e t a h he
  have hpos {b : ℕ} (hb : s.InUse b) : 0 < a.held b := (h.used b hb.1).1 ▸ hb.2
  cases e with
  | get =>
    obtain rfl := Option.some.inj he
    obtain ⟨hfits, hlends, hlen⟩ := h.get
    refine ⟨_, ?_, hlends⟩
    simp [shown, hlen, Lender.step, hfits]
  | copy b =>
    simp only [step, Option.ite_none_right_eq_some, Option.some.injEq] at he
    obtain ⟨hb, rfl⟩ := he
    refine ⟨_, ?_, h.hold hb (Nat.succ_pos _)⟩
    simp [shown, Lender.step, hpos hb, (h.used b hb.1).1]
  | drop b =>
    simp only [step, Option.ite_none_right_eq_some, Option.some.injEq] at he
    obtain ⟨hb, rfl⟩ := he
    refine ⟨_, ?_, h.unref hb⟩
    simp [shown, Lender.step, hpos hb]
  | setLen b m =>
    simp only [step, Option.ite_none_right_eq_some, Option.some.injEq] at he
    obtain ⟨hb, rfl⟩ := he
    refine ⟨a, rfl, h.tight, h.total, h.nodup, fun c hc => ?_, h.used⟩
    have hne : c ≠ b := fun he => hb.1 (he ▸ hc)
    simp only [Function.update_of_ne hne]
    exact h.spare c hc

end BufferPool

/-- Every run of the pool of `tee1` lends only buffers that nobody has, in full length,
and there are as many of them as were in use at once at most. -/
theorem scan_pool_lends (es : List PoolOp) : ∃ a : Lender,
    (labels ScanPool.step ScanPool.shown ScanPool.init es).foldlM (Lender.step bufferSize) (.init 0) = some a ∧
      (final ScanPool.step ScanPool.init es).bufPool.length = a.peak := by
  obtain ⟨a, hrun, hlends⟩ := ScanPool.simulates.run es _ _ ScanPool.init_lends
  refine ⟨a, hrun, ?_⟩
  rw [← hlends.total, hlends.tight.total]
  exact max_eq_right (Nat.zero_le _)

/-- So does every run of the pool of `tee2`, which begins with sixteen buffers. -/
theorem buffer_pool_lends (es : List PoolOp) : ∃ a : Lender,
    (labels BufferPool.step BufferPool.shown BufferPool.init es).foldlM (Lender.step bufferSize) (.init 16) =
        some a ∧
      (final BufferPool.step BufferPool.init es).numTotalItems = max 16 a.peak := by
  obtain ⟨a, hrun, hlends⟩ := (BufferPool.simulates 16).run es _ _ BufferPool.init_lends
  refine ⟨a, hrun, ?_⟩
  rw [← hlends.total, hlends.tight.total]

end Uvcc.Example
