import Uvcc.Counting.Ledger
import Uvcc.Counting.Slots
import Uvcc.Machine.Trace

/-!
# The sink of a buffer

When the last variable of a buffer goes, `destroy` gives the instance back one
reference, lets the sink callback have it in a variable, and deletes the instance if
this variable is not void afterwards. While a sink runs it is a frame on a stack, and
what it does are further operations on variables; `unref` is the last thing in each.
-/
namespace Uvcc.Counting.Ledger
variable {A : Type*} [DecidableEq A]

/-- `ref_count::dec` alone: nothing is destroyed. -/
def fetchSub (l : Ledger A) (a : A) : Ledger A :=
  if l.status a ≠ .live then { l with fault := true }
  else { l with refs := Function.update l.refs a (l.refs a - 1) }

def setValue (l : Ledger A) (a : A) (n : ℤ) : Ledger A :=
  { l with refs := Function.update l.refs a n }

def delete (l : Ledger A) (a : A) : Ledger A :=
  { l with status := Function.update l.status a .dead, died := l.died ++ [a] }

variable {l : Ledger A} {a : A}

theorem fetchSub_delete (h : l.status a = .live) (hz : l.refs a - 1 = 0) :
    (l.fetchSub a).delete a = l.dec a := by
  simp [fetchSub, delete, dec, h, hz]

theorem fetchSub_of_ne (hz : l.refs a - 1 ≠ 0) : l.fetchSub a = l.dec a := by
  simp [fetchSub, dec, hz]

/-- The count that has come to zero is set back to one. -/
theorem fetchSub_setValue (h : l.status a = .live) (hz : l.refs a - 1 = 0) :
    (l.fetchSub a).setValue a 1 = l := by
  have hone : l.refs a = 1 := by omega
  have hrefs : Function.update l.refs a 1 = l.refs := by
    rw [← hone]
    exact Function.update_eq_self _ _
  simp [fetchSub, setValue, h, hrefs]

end Uvcc.Counting.Ledger

namespace Uvcc.Buffer
open Counting Machine

/-- A running sink: the instance whose `destroy` has called it, and the slot of the
variable that it was given. -/
structure SinkFrame where
  owner : ℕ
  b : ℕ
  deriving DecidableEq, Repr

/-- Slots are variables, empty when void or destroyed. `fell` records each count that
`unref` brought to zero, with whether there was a sink, and `sunk` the calls of sinks. -/
structure Recycler where
  mem : Ledger ℕ
  sink : ℕ → Bool
  slots : List (Option ℕ)
  frames : List SinkFrame
  next : ℕ
  fell : List (ℕ × Bool)
  sunk : List ℕ

inductive BufferOp where
  | create
  | setSink (j : ℕ) (set : Bool)
  | copyConstruct (j : ℕ)
  | moveConstruct (j : ℕ)
  | copyAssign (i j : ℕ)
  | moveAssign (i j : ℕ)
  | swap (i j : ℕ)
  | destruct (i : ℕ)
  | sinkReturn
  deriving DecidableEq, Repr

namespace Recycler

def init : Recycler := ⟨Ledger.empty, fun _ => false, [], [], 0, [], []⟩

/-- `buffer::instance::destroy` up to the call of the sink. -/
def destroy (s : Recycler) (a : ℕ) : Recycler :=
  if s.sink a then
    { s with
      mem := s.mem.setValue a 1
      slots := s.slots ++ [some a]
      frames := ⟨a, s.slots.length⟩ :: s.frames
      sunk := s.sunk ++ [a] }
  else { s with mem := s.mem.delete a }

def ref (s : Recycler) (a : ℕ) : Recycler := { s with mem := s.mem.inc a }

def unref (s : Recycler) (a : ℕ) : Recycler :=
  let nrefs := s.mem.refs a - 1
  let s' := { s with mem := s.mem.fetchSub a }
  if nrefs = 0 then { s' with fell := s'.fell ++ [(a, s'.sink a)] }.destroy a else s'

def ref? (s : Recycler) (o : Option ℕ) : Recycler := o.elim s s.ref
def unref? (s : Recycler) (o : Option ℕ) : Recycler := o.elim s s.unref

def setSlot (s : Recycler) (i : ℕ) (o : Option ℕ) : Recycler := { s with slots := s.slots.set i o }

def newSlot (s : Recycler) (o : Option ℕ) : Recycler := { s with slots := s.slots ++ [o] }

def create (s : Recycler) : Recycler :=
  { s with mem := s.mem.create s.next, slots := s.slots ++ [some s.next], next := s.next + 1 }

def copyConstruct (s : Recycler) (v : Option ℕ) : Recycler := (s.ref? v).newSlot v

def moveConstruct (s : Recycler) (j : ℕ) (v : Option ℕ) : Recycler := (s.newSlot v).setSlot j none

def copyAssign (s : Recycler) (i j : ℕ) (u v : Option ℕ) : Recycler :=
  if i = j then s else ((s.ref? v).setSlot i v).unref? u

def moveAssign (s : Recycler) (i j : ℕ) (u v : Option ℕ) : Recycler :=
  if i = j then s else ((s.setSlot i v).setSlot j none).unref? u

def swap (s : Recycler) (i j : ℕ) (u v : Option ℕ) : Recycler := (s.setSlot i v).setSlot j u

def destruct (s : Recycler) (i : ℕ) (u : Option ℕ) : Recycler := (s.setSlot i none).unref? u

/-- The rest of `destroy`: the variable is not void, so the instance goes. -/
def afterSink (s : Recycler) (f : SinkFrame) : Recycler :=
  let nrefs := s.mem.refs f.owner - 1
  let s' := { s.setSlot f.b none with mem := s.mem.fetchSub f.owner }
  if nrefs = 0 then { s' with mem := s'.mem.delete f.owner } else s'

def sinkReturn (s : Recycler) (f : SinkFrame) (frames : List SinkFrame) : Recycler :=
  let s' := { s with frames := frames }
  if s.slots[f.b]? = some none then s' else s'.afterSink f

def binary (s : Recycler) (i j : ℕ) (f : Option ℕ → Option ℕ → Recycler) : Option Recycler :=
  s.slots[i]?.bind fun u => s.slots[j]?.map (f u)

def act (s : Recycler) : BufferOp → Option Recycler
  | .create => some s.create
  | .setSink j set => s.slots[j]?.bind fun v =>
    v.map fun a => { s with sink := Function.update s.sink a set }
  | .copyConstruct j => s.slots[j]?.map s.copyConstruct
  | .moveConstruct j => s.slots[j]?.map (s.moveConstruct j)
  | .copyAssign i j => s.binary i j (s.copyAssign i j)
  | .moveAssign i j => s.binary i j (s.moveAssign i j)
  | .swap i j => s.binary i j (s.swap i j)
  | .destruct i => s.slots[i]?.map (s.destruct i)
  | .sinkReturn => match s.frames with
    | f :: frames => some (s.sinkReturn f frames)
    | [] => none

/-- Nothing is known after a deleted instance was touched. -/
def step (s : Recycler) (e : BufferOp) : Option Recycler := if s.mem.fault then none else s.act e

def holders (s : Recycler) : Multiset ℕ := slotHolders s.slots

/-- Counts are numbers of variables, what has none is deleted once, and each count
that came to zero had its sink called once. -/
structure Exact (s : Recycler) : Prop where
  balanced : s.mem.Balanced s.holders
  deleted : ∀ n < s.next, n ∉ s.holders → s.mem.died.count n = 1
  sunk : ∀ a, s.sunk.count a = s.fell.count (a, true)

/-- A sink returns with its variable void or as it was given. -/
def ReturnsOwn (s : Recycler) : BufferOp → Prop
  | .sinkReturn => ∀ f ∈ s.frames.head?, s.slots[f.b]? = some none ∨ s.slots[f.b]? = some (some f.owner)
  | _ => True

/-! ## References in hand -/

/-- The account in the middle of an operation, which has the references `X` in hand. -/
structure Accounted (s : Recycler) (X : Multiset ℕ) : Prop where
  balanced : s.mem.Balanced (X + s.holders)
  sunk : ∀ a, s.sunk.count a = s.fell.count (a, true)
  bound : ∀ f ∈ s.frames, f.b < s.slots.length
  unborn : ∀ n, s.mem.status n = .unborn ↔ s.next ≤ n

variable {s t : Recycler} {X Y : Multiset ℕ} {a i j : ℕ} {u v : Option ℕ}

theorem Accounted.exact (hs : s.Accounted 0) : s.Exact where
  balanced := by simpa using hs.balanced
  deleted n hn hvar := by
    have hborn : s.mem.status n ≠ .unborn := fun h => absurd ((hs.unborn n).mp h) (not_le.mpr hn)
    have hlive : s.mem.status n ≠ .live := fun h => hvar (by simpa using (hs.balanced.live_iff n).mp h)
    have hdead : s.mem.status n = .dead := by
      cases h : s.mem.status n with
      | unborn => exact absurd h hborn
      | live => exact absurd h hlive
      | dead => rfl
    rw [hs.balanced.count_died n, if_pos hdead]
  sunk := hs.sunk

theorem accounted_init : init.Accounted 0 where
  balanced := by simpa [holders, init] using Ledger.Balanced.empty
  sunk a := rfl
  bound f hf := by simp [init] at hf
  unborn n := ⟨fun _ => Nat.zero_le n, fun _ => rfl⟩

/-- References go from hand into slots and back. -/
theorem Accounted.store (hs : s.Accounted X) {slots : List (Option ℕ)}
    (hx : Y + slotHolders slots = X + s.holders) (hlen : s.slots.length ≤ slots.length) :
    { s with slots := slots }.Accounted Y where
  balanced := by
    have h := hs.balanced
    rw [← hx] at h
    exact h
  sunk := hs.sunk
  bound f hf := (hs.bound f hf).trans_le hlen
  unborn := hs.unborn

theorem Accounted.setSlot (hs : s.Accounted X) (hi : s.slots[i]? = some u)
    (hx : ↑v.toList + Y = X + ↑u.toList) : (s.setSlot i v).Accounted Y := by
  apply hs.store
  · have h := slotHolders_set s.slots hi v
    apply add_right_cancel (b := (↑v.toList : Multiset ℕ))
    apply add_right_cancel (b := (↑u.toList : Multiset ℕ))
    calc Y + slotHolders (s.slots.set i v) + ↑v.toList + ↑u.toList
        = ↑v.toList + Y + (slotHolders (s.slots.set i v) + ↑u.toList) := by abel
      _ = X + ↑u.toList + (↑v.toList + s.holders) := by rw [h, hx, holders]
      _ = X + s.holders + ↑v.toList + ↑u.toList := by abel
  · simp

theorem Accounted.newSlot (hs : s.Accounted X) (hx : ↑v.toList + Y = X) : (s.newSlot v).Accounted Y := by
  apply hs.store
  · rw [slotHolders_append, ← hx, holders]
    abel
  · simp

theorem Accounted.ref (hs : s.Accounted X) (ha : a ∈ s.holders) : (s.ref a).Accounted (a ::ₘ X) where
  balanced := by
    have h := hs.balanced.inc (Multiset.mem_add.mpr (.inr ha))
    rwa [← Multiset.cons_add] at h
  sunk := hs.sunk
  bound := hs.bound
  unborn n := by simpa [Recycler.ref] using hs.unborn n

theorem Accounted.ref? (hs : s.Accounted X) (hj : s.slots[j]? = some v) :
    (s.ref? v).Accounted (↑v.toList + X) := by
  cases v with
  | none => simpa [Recycler.ref?] using hs
  | some a => exact hs.ref (mem_slotHolders hj)

/-- A reference in hand is given up. -/
theorem Accounted.dec (hs : s.Accounted (a ::ₘ X)) : { s with mem := s.mem.dec a }.Accounted X where
  balanced := by
    have h := hs.balanced
    rw [Multiset.cons_add] at h
    exact h.dec
  sunk := hs.sunk
  bound := hs.bound
  unborn n := by simpa using hs.unborn n

/-! ## The last reference -/

theorem Accounted.fellWithoutSink (hs : s.Accounted X) (a : ℕ) :
    { s with fell := s.fell ++ [(a, false)] }.Accounted X where
  balanced := hs.balanced
  sunk b := by simp [List.count_append, hs.sunk b]
  bound := hs.bound
  unborn := hs.unborn

/-- The count comes to zero: the sink has the instance now, or it is gone. -/
theorem Accounted.fall (hs : s.Accounted (a ::ₘ X)) (hz : s.mem.refs a - 1 = 0) :
    ({ s with mem := s.mem.fetchSub a, fell := s.fell ++ [(a, s.sink a)] }.destroy a).Accounted X := by
  have hl : s.mem.status a = .live := hs.balanced.live (by simp)
  unfold destroy
  dsimp only
  cases hsink : s.sink a with
  | true =>
    rw [if_pos rfl, Ledger.fetchSub_setValue hl hz]
    constructor
    case balanced =>
      have h := hs.balanced
      have hh : X + slotHolders (s.slots ++ [some a]) = a ::ₘ X + s.holders := by
        rw [slotHolders_append, Option.toList_some, Multiset.coe_singleton, Multiset.singleton_add,
          Multiset.add_cons, Multiset.cons_add, holders]
      rw [← hh] at h
      exact h
    case sunk =>
      intro b
      simp only [List.count_append, hs.sunk b, List.count_singleton, beq_iff_eq, Prod.mk.injEq, and_true]
    case bound =>
      intro f hf
      rw [List.length_append, List.length_singleton]
      rcases List.mem_cons.mp hf with rfl | hf
      · exact Nat.lt_succ_self _
      · exact (hs.bound f hf).trans (Nat.lt_succ_self _)
    case unborn => exact hs.unborn
  | false =>
    rw [if_neg (by simp), Ledger.fetchSub_delete hl hz]
    exact hs.dec.fellWithoutSink a

theorem Accounted.unref (hs : s.Accounted (a ::ₘ X)) : (s.unref a).Accounted X := by
  unfold Recycler.unref
  dsimp only
  split_ifs with hz
  · exact hs.fall hz
  · rw [Ledger.fetchSub_of_ne hz]
    exact hs.dec

theorem Accounted.unref? (hs : s.Accounted (↑u.toList + X)) : (s.unref? u).Accounted X := by
  cases u with
  | none => simpa [Recycler.unref?] using hs
  | some a => exact hs.unref

/-! ## The operations -/

theorem Accounted.create (hs : s.Accounted 0) : s.create.Accounted 0 where
  balanced := by
    have h := hs.balanced.create ((hs.unborn s.next).mpr le_rfl)
    change (s.mem.create s.next).Balanced (0 + slotHolders (s.slots ++ [some s.next]))
    rw [slotHolders_append, zero_add]
    rwa [zero_add] at h
  sunk := hs.sunk
  bound f hf := by
    have h := hs.bound f hf
    simp only [Recycler.create, List.length_append]
    omega
  unborn n := by
    have h := hs.unborn n
    by_cases hne : n = s.next
    · subst hne
      simp [Recycler.create, Ledger.create]
    · simp only [Recycler.create, Ledger.create, Function.update_of_ne hne, h]
      omega

theorem Accounted.setSink (hs : s.Accounted X) (f : ℕ → Bool) : { s with sink := f }.Accounted X :=
  ⟨hs.balanced, hs.sunk, hs.bound, hs.unborn⟩

@[simp] theorem slots_ref? (s : Recycler) (o : Option ℕ) : (s.ref? o).slots = s.slots := by
  cases o <;> rfl

theorem Accounted.copyConstruct (hs : s.Accounted 0) (hj : s.slots[j]? = some v) :
    (s.copyConstruct v).Accounted 0 := (hs.ref? hj).newSlot rfl

theorem Accounted.moveConstruct (hs : s.Accounted 0) (hj : s.slots[j]? = some v) :
    (s.moveConstruct j v).Accounted 0 := by
  have hlt : j < s.slots.length := (List.getElem?_eq_some_iff.mp hj).1
  have hj' : (s.slots ++ [v])[j]? = some v := by rwa [List.getElem?_append_left hlt]
  apply hs.store
  · have h := slotHolders_set (s.slots ++ [v]) hj' none
    rw [slotHolders_append, Option.toList_none, Multiset.coe_nil, zero_add, add_comm] at h
    rw [zero_add, zero_add]
    exact add_left_cancel h
  · simp [Recycler.newSlot]

theorem Accounted.copyAssign (hs : s.Accounted 0) (hi : s.slots[i]? = some u) (hj : s.slots[j]? = some v) :
    (s.copyAssign i j u v).Accounted 0 := by
  unfold Recycler.copyAssign
  split_ifs
  · exact hs
  · have hi' : (s.ref? v).slots[i]? = some u := by rwa [slots_ref?]
    refine ((hs.ref? hj).setSlot (Y := ↑u.toList + 0) hi' ?_).unref?
    abel

theorem Accounted.moveAssign (hs : s.Accounted 0) (hi : s.slots[i]? = some u) (hj : s.slots[j]? = some v) :
    (s.moveAssign i j u v).Accounted 0 := by
  unfold Recycler.moveAssign
  split_ifs
  · exact hs
  · apply Accounted.unref?
    apply hs.store
    · rw [zero_add, add_zero, add_comm]
      exact slotHolders_move hi hj
    · simp [Recycler.setSlot]

theorem Accounted.swap (hs : s.Accounted 0) (hi : s.slots[i]? = some u) (hj : s.slots[j]? = some v) :
    (s.swap i j u v).Accounted 0 := by
  apply hs.store
  · rw [zero_add, zero_add]
    exact slotHolders_swap hi hj
  · simp [Recycler.setSlot]

theorem Accounted.destruct (hs : s.Accounted 0) (hi : s.slots[i]? = some u) :
    (s.destruct i u).Accounted 0 := by
  refine (hs.setSlot (Y := ↑u.toList + 0) hi ?_).unref?
  simp

/-! ## The return of a sink -/

theorem Accounted.popFrame (hs : s.Accounted X) {f : SinkFrame} {frames : List SinkFrame}
    (hf : s.frames = f :: frames) : { s with frames := frames }.Accounted X :=
  ⟨hs.balanced, hs.sunk, fun g hg => hs.bound g (hf ▸ List.mem_cons_of_mem f hg), hs.unborn⟩

/-- While the own instance is alive the rest of `destroy` gives up one reference of it. -/
theorem afterSink_eq {f : SinkFrame} (hl : s.mem.status f.owner = .live) :
    s.afterSink f = { s.setSlot f.b none with mem := s.mem.dec f.owner } := by
  unfold Recycler.afterSink
  dsimp only
  split_ifs with hz
  · rw [Ledger.fetchSub_delete hl hz]
  · rw [Ledger.fetchSub_of_ne hz]

theorem afterSink_fault {f : SinkFrame} (hd : s.mem.status f.owner ≠ .live) :
    (s.afterSink f).mem.fault = true := by
  unfold Recycler.afterSink
  dsimp only
  split_ifs
  · simp [Ledger.fetchSub, Ledger.delete, hd]
  · simp [Ledger.fetchSub, hd]

/-- The instance that nobody has claimed. -/
theorem Accounted.afterSink (hs : s.Accounted 0) {f : SinkFrame}
    (hb : s.slots[f.b]? = some (some f.owner)) : (s.afterSink f).Accounted 0 := by
  have hset := hs.setSlot (v := none) (Y := f.owner ::ₘ 0) hb (by simp)
  have hl : s.mem.status f.owner = .live := hset.balanced.live (by simp)
  rw [afterSink_eq hl]
  exact hset.dec

/-- Of another instance nobody has the reference any more. -/
theorem afterSink_not_exact (hs : s.Accounted 0) {f : SinkFrame} (hb : s.slots[f.b]? = some (some j))
    (hne : j ≠ f.owner) : ¬ (s.afterSink f).Exact := by
  intro he
  have hafter := he.balanced
  have hl : s.mem.status f.owner = .live := by
    by_contra hd
    have hfault := afterSink_fault hd
    rw [hafter.fault] at hfault
    cases hfault
  rw [afterSink_eq hl] at hafter
  have hset := hs.setSlot (v := none) (Y := j ::ₘ 0) hb (by simp)
  have hbal := hset.balanced
  rw [Multiset.cons_add, zero_add] at hbal
  have hjl : s.mem.status j = .live := hbal.live (Multiset.mem_cons_self j _)
  have hbefore : s.mem.refs j = _ := hbal.refs_eq j hjl
  have hcount : (s.mem.dec f.owner).refs j = _ :=
    hafter.refs_eq j ((Ledger.status_dec_of_ne _ hne).trans hjl)
  rw [Ledger.refs_dec_of_ne _ hne, hbefore, Multiset.count_cons_self] at hcount
  have hsame : (s.setSlot f.b none).holders.count j =
      { s.setSlot f.b none with mem := s.mem.dec f.owner }.holders.count j := rfl
  omega

theorem sinkReturn_spec (hs : s.Accounted 0) {f : SinkFrame} {frames : List SinkFrame}
    (hf : s.frames = f :: frames) :
    (s.ReturnsOwn .sinkReturn → (s.sinkReturn f frames).Accounted 0) ∧
      (¬ s.ReturnsOwn .sinkReturn → ¬ (s.sinkReturn f frames).Exact) := by
  have hown : s.ReturnsOwn .sinkReturn ↔
      s.slots[f.b]? = some none ∨ s.slots[f.b]? = some (some f.owner) := by
    simp [ReturnsOwn, hf]
  have hpop := hs.popFrame hf
  have hlt : f.b < s.slots.length := hs.bound f (hf ▸ List.mem_cons_self)
  have hsome : s.slots[f.b]? = some s.slots[f.b] := List.getElem?_eq_getElem hlt
  rw [hown]
  unfold Recycler.sinkReturn
  cases hb : s.slots[f.b] with
  | none =>
    rw [hb] at hsome
    simp only [hsome, if_true]
    exact ⟨fun _ => hpop, fun hbad => absurd (.inl trivial) hbad⟩
  | some j =>
    rw [hb] at hsome
    simp only [hsome]
    constructor
    · rintro (h | h)
      · cases h
      · rw [h] at hsome
        exact hpop.afterSink hsome
    · intro hbad
      refine afterSink_not_exact hpop hsome fun hj => hbad (.inr ?_)
      rw [hj]

/-! ## One step -/

theorem step_exact {e : BufferOp} (hs : s.Accounted 0) (h : s.step e = some t) :
    (s.ReturnsOwn e → t.Accounted 0) ∧ (¬ s.ReturnsOwn e → ¬ t.Exact) := by
  have hfault : s.mem.fault = false := hs.balanced.fault
  simp only [Recycler.step, hfault, Bool.false_eq_true, if_false] at h
  cases e with
  | create =>
    obtain rfl := Option.some.inj h
    exact ⟨fun _ => hs.create, fun hbad => absurd trivial hbad⟩
  | setSink j set =>
    obtain ⟨v, _, hv⟩ := Option.bind_eq_some_iff.mp h
    obtain ⟨a, _, rfl⟩ := Option.map_eq_some_iff.mp hv
    exact ⟨fun _ => hs.setSink _, fun hbad => absurd trivial hbad⟩
  | copyConstruct j =>
    obtain ⟨v, hj, rfl⟩ := Option.map_eq_some_iff.mp h
    exact ⟨fun _ => hs.copyConstruct hj, fun hbad => absurd trivial hbad⟩
  | moveConstruct j =>
    obtain ⟨v, hj, rfl⟩ := Option.map_eq_some_iff.mp h
    exact ⟨fun _ => hs.moveConstruct hj, fun hbad => absurd trivial hbad⟩
  | copyAssign i j =>
    obtain ⟨u, hi, h⟩ := Option.bind_eq_some_iff.mp h
    obtain ⟨v, hj, rfl⟩ := Option.map_eq_some_iff.mp h
    exact ⟨fun _ => hs.copyAssign hi hj, fun hbad => absurd trivial hbad⟩
  | moveAssign i j =>
    obtain ⟨u, hi, h⟩ := Option.bind_eq_some_iff.mp h
    obtain ⟨v, hj, rfl⟩ := Option.map_eq_some_iff.mp h
    exact ⟨fun _ => hs.moveAssign hi hj, fun hbad => absurd trivial hbad⟩
  | swap i j =>
    obtain ⟨u, hi, h⟩ := Option.bind_eq_some_iff.mp h
    obtain ⟨v, hj, rfl⟩ := Option.map_eq_some_iff.mp h
    exact ⟨fun _ => hs.swap hi hj, fun hbad => absurd trivial hbad⟩
  | destruct i =>
    obtain ⟨u, hi, rfl⟩ := Option.map_eq_some_iff.mp h
    exact ⟨fun _ => hs.destruct hi, fun hbad => absurd trivial hbad⟩
  | sinkReturn =>
    simp only [act] at h
    cases hf : s.frames with
    | nil => simp [hf] at h
    | cons f frames =>
      simp only [hf, Option.some.injEq] at h
      subst h
      exact sinkReturn_spec hs hf

end Recycler

/-- In every run the ownership is exact, inside and outside of sinks, exactly when
every sink returns with its variable void or as it was given. -/
theorem sink_exact_iff (es : List BufferOp) :
    (∀ s ∈ visited Recycler.step Recycler.init es, s.Exact) ↔
      ∀ p ∈ taken Recycler.step Recycler.init es, p.1.ReturnsOwn p.2 := by
  refine visited_iff_guarded (I := fun s => Recycler.Accounted s 0) (fun s hs => hs.exact) ?_ ?_ es _
    Recycler.accounted_init
  · intro s e t hs hok h
    exact (Recycler.step_exact hs h).1 hok
  · intro s e t hs hbad h
    exact (Recycler.step_exact hs h).2 hbad

/-- A sink swaps its variable with one that refers to another buffer. -/
def swappedInSink : List BufferOp :=
  [.create, .setSink 0 true, .create, .destruct 0, .swap 1 2, .sinkReturn]

/-- The first instance is deleted while variable 1 refers to it. -/
theorem sink_loses_reference : ¬ ∀ es : List BufferOp,
    ∀ s ∈ visited Recycler.step Recycler.init es, s.frames = [] → s.Exact := by
  intro h
  have hlast : final Recycler.step Recycler.init swappedInSink ∈
      visited Recycler.step Recycler.init swappedInSink := final_visited swappedInSink _
  have hexact := h swappedInSink _ hlast rfl
  have hdead : (final Recycler.step Recycler.init swappedInSink).mem.status 0 = .dead := rfl
  have hlive := hexact.balanced.live (a := 0) (by decide)
  rw [hdead] at hlive
  cases hlive

end Uvcc.Buffer
