import Mathlib.Tactic
import Mathlib.Data.Multiset.Count

/-!
# Slots that hold references

A list of slots, each empty or with one reference; as holders only the references
count. The lemmas are written without subtraction: what went in on one side, what
came out on the other.
-/
namespace Uvcc.Counting
variable {A : Type*} {slots : List (Option A)} {i j : ℕ} {u v : Option A}

def slotHolders (slots : List (Option A)) : Multiset A := ↑(slots.filterMap id)

@[simp] theorem slotHolders_nil : slotHolders ([] : List (Option A)) = 0 := rfl

@[simp] theorem slotHolders_cons (u : Option A) (slots : List (Option A)) :
    slotHolders (u :: slots) = ↑u.toList + slotHolders slots := by
  cases u <;> simp [slotHolders]

theorem slotHolders_append (slots : List (Option A)) (u : Option A) :
    slotHolders (slots ++ [u]) = ↑u.toList + slotHolders slots := by
  cases u <;> simp [slotHolders, List.filterMap_append]

theorem slotHolders_set (slots : List (Option A)) : ∀ {i : ℕ} {u : Option A}, slots[i]? = some u →
    ∀ w, slotHolders (slots.set i w) + ↑u.toList = ↑w.toList + slotHolders slots := by
  induction slots with
  | nil =>
    intro i u h
    simp at h
  | cons v slots ih =>
    intro i u h w
    cases i with
    | zero =>
      obtain rfl := Option.some.inj h
      rw [List.set_cons_zero, slotHolders_cons, slotHolders_cons]
      abel
    | succ i =>
      have hi := ih (i := i) h w
      rw [List.set_cons_succ, slotHolders_cons, slotHolders_cons, add_assoc, hi]
      abel

theorem mem_slotHolders {a : A} (h : slots[i]? = some (some a)) : a ∈ slotHolders slots :=
  List.mem_filterMap.mpr ⟨some a, List.mem_of_getElem? h, rfl⟩

theorem getElem?_set_of_getElem? (h : slots[j]? = some v) : (slots.set i v)[j]? = some v := by
  by_cases hij : i = j
  · subst hij
    have hi : i < slots.length := (List.getElem?_eq_some_iff.mp h).1
    simp [hi]
  · rw [List.getElem?_set_ne hij, h]

/-- A reference moves from the slot `j` to the slot `i`. -/
theorem slotHolders_move (hi : slots[i]? = some u) (hj : slots[j]? = some v) :
    slotHolders ((slots.set i v).set j none) + ↑u.toList = slotHolders slots := by
  have h1 := slotHolders_set slots hi v
  have h2 := slotHolders_set (slots.set i v) (getElem?_set_of_getElem? hj) none
  have h3 : slotHolders ((slots.set i v).set j none) + ↑u.toList + ↑v.toList =
      slotHolders slots + ↑v.toList := by
    rw [add_right_comm, h2, Option.toList_none, Multiset.coe_nil, zero_add, h1, add_comm]
  exact add_right_cancel h3

theorem slotHolders_swap (hi : slots[i]? = some u) (hj : slots[j]? = some v) :
    slotHolders ((slots.set i v).set j u) = slotHolders slots := by
  have h1 := slotHolders_set slots hi v
  have h2 := slotHolders_set (slots.set i v) (getElem?_set_of_getElem? hj) u
  have h3 : slotHolders ((slots.set i v).set j u) + ↑v.toList + ↑u.toList =
      slotHolders slots + ↑v.toList + ↑u.toList := by
    rw [h2, add_assoc, h1]
    abel
  exact add_right_cancel (add_right_cancel h3)

end Uvcc.Counting
