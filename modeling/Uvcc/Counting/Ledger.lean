import Mathlib.Tactic
import Mathlib.Data.Multiset.Count

/-!
# Counted objects and their holders

A ledger keeps one reference count for each object and destroys the object
when its count falls to zero. Who holds the references is not in the ledger:
`Balanced` compares it with a multiset that lists one entry for each holder.
-/
namespace Uvcc.Counting

/-- An object is unborn until it is created, and dead for good once destroyed. -/
inductive Status where
  | unborn
  | live
  | dead
  deriving DecidableEq, Repr

/-- The counts and the life of every object; `died` lists the destructions in
the order they happen, and `fault` records that the count of an object that is
not alive was touched or that a zero count was incremented. -/
structure Ledger (A : Type*) where
  refs : A → ℤ
  status : A → Status
  died : List A
  fault : Bool

namespace Ledger
variable {A : Type*} [DecidableEq A]

def empty : Ledger A := ⟨fun _ => 0, fun _ => .unborn, [], false⟩

def create (l : Ledger A) (a : A) : Ledger A :=
  { l with refs := Function.update l.refs a 1, status := Function.update l.status a .live }

/-- One more reference; a zero count cannot be brought back. -/
def inc (l : Ledger A) (a : A) : Ledger A :=
  if l.status a ≠ .live ∨ l.refs a = 0 then { l with fault := true }
  else { l with refs := Function.update l.refs a (l.refs a + 1) }

def dec (l : Ledger A) (a : A) : Ledger A :=
  if l.status a ≠ .live then { l with fault := true }
  else if l.refs a - 1 = 0 then
    { l with
      refs := Function.update l.refs a 0
      status := Function.update l.status a .dead
      died := l.died ++ [a] }
  else { l with refs := Function.update l.refs a (l.refs a - 1) }

def incs (l : Ledger A) (as : List A) : Ledger A := as.foldl inc l
def decs (l : Ledger A) (as : List A) : Ledger A := as.foldl dec l

@[simp] theorem died_inc (l : Ledger A) (a : A) : (l.inc a).died = l.died := by
  unfold inc
  split_ifs <;> rfl

@[simp] theorem status_inc (l : Ledger A) (a : A) : (l.inc a).status = l.status := by
  unfold inc
  split_ifs <;> rfl

/-- Dropping a reference never brings an object into being. -/
@[simp] theorem status_dec_unborn (l : Ledger A) (a b : A) :
    (l.dec a).status b = .unborn ↔ l.status b = .unborn := by
  unfold dec
  split_ifs with hl hz
  · rfl
  · have hl' : l.status a = .live := not_not.mp hl
    by_cases hb : b = a
    · simp [hb, hl']
    · simp [hb]
  · rfl

/-- It can only end a life. -/
theorem status_dec_live {l : Ledger A} {a b : A} (h : (l.dec a).status b = .live) :
    l.status b = .live := by
  unfold dec at h
  split_ifs at h with hl hz
  · exact h
  · by_cases hb : b = a
    · simp [hb] at h
    · simpa [hb] using h
  · exact h

theorem status_dec_dead {l : Ledger A} {a b : A} (h : l.status b = .dead) : (l.dec a).status b = .dead := by
  unfold dec
  split_ifs
  · exact h
  · by_cases hb : b = a
    · simp [hb]
    · simp [hb, h]
  · exact h

theorem status_dec_of_ne (l : Ledger A) {a b : A} (hb : b ≠ a) : (l.dec a).status b = l.status b := by
  unfold dec
  split_ifs <;> simp [hb]

theorem refs_dec_last {l : Ledger A} {a : A} (h : l.status a = .live) (hz : l.refs a - 1 = 0) :
    (l.dec a).refs a = 0 := by
  simp [dec, h, hz]

theorem refs_dec_of_ne (l : Ledger A) {a b : A} (hb : b ≠ a) : (l.dec a).refs b = l.refs b := by
  unfold dec
  split_ifs <;> simp [hb]

theorem status_dec_not_last {l : Ledger A} {a : A} (hz : ¬ l.refs a - 1 = 0) :
    (l.dec a).status = l.status := by
  unfold dec
  split_ifs <;> rfl

theorem status_dec_last {l : Ledger A} {a : A} (h : l.status a = .live) (hz : l.refs a - 1 = 0) :
    (l.dec a).status a = .dead := by
  simp [dec, h, hz]

theorem count_died_dec {l : Ledger A} {a : A} (h : l.status a = .live) (b : A) :
    (l.dec a).died.count b = l.died.count b + if l.refs a - 1 = 0 ∧ b = a then 1 else 0 := by
  rw [dec, if_neg (by simp [h])]
  by_cases hz : l.refs a - 1 = 0
  · by_cases hb : b = a
    · subst hb; simp [hz]
    · simp [hz, hb, Ne.symm hb]
  · simp [hz]

/-- Every count is the number of holders, an object lives exactly as long as it
has one, each dead object died once, and nothing went wrong. -/
structure Balanced (l : Ledger A) (holders : Multiset A) : Prop where
  live_iff : ∀ a, l.status a = .live ↔ a ∈ holders
  refs_eq : ∀ a, l.status a = .live → l.refs a = holders.count a
  died_nodup : l.died.Nodup
  mem_died : ∀ a, a ∈ l.died ↔ l.status a = .dead
  fault : l.fault = false

namespace Balanced
variable {l : Ledger A} {H : Multiset A} {a : A}

theorem empty : (Ledger.empty : Ledger A).Balanced 0 where
  live_iff a := by simp [Ledger.empty]
  refs_eq a h := by simp [Ledger.empty] at h
  died_nodup := List.nodup_nil
  mem_died a := by simp [Ledger.empty]
  fault := rfl

theorem live (h : l.Balanced H) (ha : a ∈ H) : l.status a = .live := (h.live_iff a).mpr ha

theorem count_eq (h : l.Balanced H) (ha : a ∈ H) : l.refs a = H.count a := h.refs_eq a (h.live ha)

theorem one_le (h : l.Balanced H) (ha : a ∈ H) : 1 ≤ l.refs a := by
  have hc := h.count_eq ha
  have hp := Multiset.one_le_count_iff_mem.mpr ha
  omega

/-- The counts tell who the holders are. -/
theorem holders_eq {H' : Multiset A} (h : l.Balanced H) (h' : l.Balanced H') : H = H' := by
  apply Multiset.ext.mpr
  intro a
  by_cases ha : l.status a = .live
  · have hc := h.refs_eq a ha
    have hc' := h'.refs_eq a ha
    omega
  · have hn : a ∉ H := fun hm => ha (h.live hm)
    have hn' : a ∉ H' := fun hm => ha (h'.live hm)
    rw [Multiset.count_eq_zero_of_notMem hn, Multiset.count_eq_zero_of_notMem hn']

/-- How often an object was destroyed. -/
theorem count_died (h : l.Balanced H) (a : A) :
    l.died.count a = if l.status a = .dead then 1 else 0 := by
  split_ifs with hd
  · exact List.count_eq_one_of_mem h.died_nodup ((h.mem_died a).mpr hd)
  · exact List.count_eq_zero.mpr (fun hm => hd ((h.mem_died a).mp hm))

theorem create (h : l.Balanced H) (ha : l.status a = .unborn) :
    (l.create a).Balanced (a ::ₘ H) where
  live_iff b := by
    by_cases hb : b = a
    · simp [Ledger.create, hb]
    · simp [Ledger.create, hb, h.live_iff]
  refs_eq b hb := by
    by_cases he : b = a
    · subst he
      have hn : b ∉ H := fun hm => by simp [h.live hm] at ha
      simp [Ledger.create, Multiset.count_eq_zero_of_notMem hn]
    · simp only [Ledger.create, Function.update_of_ne he, Multiset.count_cons_of_ne he] at hb ⊢
      exact h.refs_eq b hb
  died_nodup := h.died_nodup
  mem_died b := by
    by_cases hb : b = a
    · subst hb; simp [Ledger.create, h.mem_died, ha]
    · simp [Ledger.create, hb, h.mem_died]
  fault := h.fault

theorem inc (h : l.Balanced H) (ha : a ∈ H) : (l.inc a).Balanced (a ::ₘ H) := by
  have hl := h.live ha
  have h1 := h.one_le ha
  have hne : ¬ (l.status a ≠ .live ∨ l.refs a = 0) := by
    rintro (hs | hz)
    · exact hs hl
    · omega
  rw [Ledger.inc, if_neg hne]
  refine ⟨fun b => ?_, fun b hb => ?_, h.died_nodup, h.mem_died, h.fault⟩
  · by_cases hb : b = a
    · simp [hb, hl]
    · simp [hb, h.live_iff]
  · by_cases he : b = a
    · subst he
      simp [h.count_eq ha]
    · simp only [Function.update_of_ne he, Multiset.count_cons_of_ne he]
      exact h.refs_eq b hb

theorem dec (h : l.Balanced (a ::ₘ H)) : (l.dec a).Balanced H := by
  have hm : a ∈ a ::ₘ H := Multiset.mem_cons_self a H
  have hl := h.live hm
  have hc : l.refs a = H.count a + 1 := by
    rw [h.count_eq hm, Multiset.count_cons_self]; push_cast; ring
  rw [Ledger.dec, if_neg (by simp [hl])]
  split_ifs with hz
  · have hn : a ∉ H := Multiset.count_eq_zero.mp (by omega)
    have hd : a ∉ l.died := fun hd => by simp [(h.mem_died a).mp hd] at hl
    refine ⟨fun b => ?_, fun b hb => ?_, ?_, fun b => ?_, h.fault⟩
    · by_cases hb : b = a
      · simp [hb, hn]
      · simp [hb, h.live_iff]
    · have he : b ≠ a := by rintro rfl; simp at hb
      simp only [Function.update_of_ne he] at hb ⊢
      rw [h.refs_eq b hb, Multiset.count_cons_of_ne he]
    · exact List.Nodup.append h.died_nodup (List.nodup_singleton a) (by simpa using hd)
    · by_cases hb : b = a
      · simp [hb]
      · simp [hb, h.mem_died]
  · have hp : a ∈ H := Multiset.one_le_count_iff_mem.mp (by omega)
    refine ⟨fun b => ?_, fun b hb => ?_, h.died_nodup, h.mem_died, h.fault⟩
    · by_cases hb : b = a
      · simp [hb, hl, hp]
      · simp [hb, h.live_iff]
    · by_cases he : b = a
      · subst he; simp [hc]
      · simp only [Function.update_of_ne he]
        rw [h.refs_eq b hb, Multiset.count_cons_of_ne he]

theorem incs {as : List A} : ∀ {l : Ledger A} {H : Multiset A}, l.Balanced H → (∀ a ∈ as, a ∈ H) →
    (l.incs as).Balanced (as + H) := by
  induction as with
  | nil => intro l H h _; simpa [Ledger.incs] using h
  | cons a as ih =>
    intro l H h ha
    have h1 : (l.inc a).Balanced (a ::ₘ H) := h.inc (ha a List.mem_cons_self)
    have h2 := ih h1 (fun b hb => Multiset.mem_cons_of_mem (ha b (List.mem_cons_of_mem _ hb)))
    rw [Multiset.add_cons] at h2
    rw [← Multiset.cons_coe, Multiset.cons_add]
    exact h2

theorem decs {as : List A} : ∀ {l : Ledger A} {H : Multiset A}, l.Balanced (as + H) →
    (l.decs as).Balanced H := by
  induction as with
  | nil => intro l H h; simpa [Ledger.decs] using h
  | cons a as ih =>
    intro l H h
    rw [← Multiset.cons_coe, Multiset.cons_add] at h
    exact ih h.dec

end Balanced

end Ledger
end Uvcc.Counting
