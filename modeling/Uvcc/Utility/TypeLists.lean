import Mathlib.Tactic

/-!
# Type lists

`is_one_of` and `is_convertible_to_one_of` count the types of a list from 1 up to the
first one that they look for, and answer 0 if there is none. `type_at` goes back from the
number to the type.
-/
namespace Uvcc.Utility
variable {ι : Type*}

/-- The recursion of both searches. -/
def firstIndex (p : ι → Bool) : List ι → ℕ
  | [] => 0
  | U :: Ts =>
    let value := firstIndex p Ts
    if p U then 1 else if value ≠ 0 then value + 1 else 0

def isOneOf [DecidableEq ι] (T : ι) (Ts : List ι) : ℕ := firstIndex (fun U => decide (T = U)) Ts

def isConvertibleToOneOf (convertible : ι → ι → Bool) (T : ι) (Ts : List ι) : ℕ :=
  firstIndex (convertible T) Ts

def typeAt : ℕ → List ι → Option ι
  | 0, _ => none
  | _, [] => none
  | 1, T :: _ => some T
  | index + 2, _ :: Ts => typeAt (index + 1) Ts

variable {p : ι → Bool} {Ts : List ι} {T : ι}

theorem firstIndex_ne_zero_iff : firstIndex p Ts ≠ 0 ↔ ∃ U ∈ Ts, p U = true := by
  induction Ts with
  | nil => simp [firstIndex]
  | cons U Ts ih =>
    rw [firstIndex, List.exists_mem_cons_iff, ← ih]
    split_ifs with hU hrest
    · simp [hU]
    · simp [hrest]
    · simp [hU, hrest]

/-- The search for an index and the way back find the first type. -/
theorem typeAt_firstIndex (p : ι → Bool) (Ts : List ι) : typeAt (firstIndex p Ts) Ts = Ts.find? p := by
  induction Ts with
  | nil => rfl
  | cons U Ts ih =>
    rw [firstIndex]
    split_ifs with hU hrest
    · rw [List.find?_cons_of_pos hU]
      rfl
    · obtain ⟨n, hn⟩ := Nat.exists_eq_succ_of_ne_zero hrest
      rw [List.find?_cons_of_neg hU, ← ih, hn]
      rfl
    · rw [List.find?_cons_of_neg hU, ← ih, not_not.mp hrest]
      rfl

theorem isOneOf_ne_zero_iff [DecidableEq ι] : isOneOf T Ts ≠ 0 ↔ T ∈ Ts := by
  rw [isOneOf, firstIndex_ne_zero_iff]
  constructor
  · rintro ⟨U, hU, heq⟩
    exact of_decide_eq_true heq ▸ hU
  · intro hT
    exact ⟨T, hT, decide_eq_true rfl⟩

/-- A type that is looked for itself is found unless one before it is. -/
theorem find?_eq_some_iff_before [DecidableEq ι] (hT : T ∈ Ts) (hp : p T = true) :
    Ts.find? p = some T ↔ ∀ U ∈ Ts.takeWhile (fun U => decide (U ≠ T)), p U = false := by
  induction Ts with
  | nil => cases hT
  | cons U Ts ih =>
    by_cases heq : U = T
    · subst heq
      rw [List.find?_cons_of_pos hp, List.takeWhile_cons_of_neg (by simp)]
      simp
    · have hTs : T ∈ Ts := (List.mem_cons.mp hT).resolve_left (Ne.symm heq)
      rw [List.takeWhile_cons_of_pos (by simpa using heq), List.forall_mem_cons]
      by_cases hU : p U = true
      · rw [List.find?_cons_of_pos hU]
        simp [hU, heq]
      · rw [List.find?_cons_of_neg hU, ih hTs]
        simp [hU]

end Uvcc.Utility
