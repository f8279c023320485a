import Uvcc.Machine.Trace

/-!
# Lending

A lender has any number of items that can be told apart only by their numbers. It lends
one that nobody has, in its full length, and makes a new one only when all are lent.
Borrowers may share what they have.
-/
namespace Uvcc.Machine

inductive Loan where
  | lent (b len : ℕ)
  | copied (b : ℕ)
  | dropped (b : ℕ)
  deriving DecidableEq, Repr

/-- The variables of each item outside of the pool, the items there are, and the most
that were in use at once. -/
structure Lender where
  held : ℕ → ℕ
  total : ℕ
  peak : ℕ

namespace Lender

def init (n : ℕ) : Lender := ⟨fun _ => 0, n, 0⟩

def inUse (s : Lender) : ℕ := (List.range s.total).countP fun b => 0 < s.held b

def lend (s : Lender) (b : ℕ) : Lender :=
  let s' := { s with held := Function.update s.held b 1, total := max s.total (b + 1) }
  { s' with peak := max s.peak s'.inUse }

/-- The item is one that is not in use, and a new one only if there is none. -/
def Fits (s : Lender) (b : ℕ) : Prop :=
  s.held b = 0 ∧ (b < s.total ∨ b = s.total ∧ ∀ c < s.total, 0 < s.held c)

instance (s : Lender) (b : ℕ) : Decidable (s.Fits b) := by unfold Fits; infer_instance

def step (size : ℕ) (s : Lender) : Loan → Option Lender
  | .lent b len => if len = size ∧ s.Fits b then some (s.lend b) else none
  | .copied b => if 0 < s.held b then some { s with held := Function.update s.held b (s.held b + 1) } else none
  | .dropped b => if 0 < s.held b then some { s with held := Function.update s.held b (s.held b - 1) } else none

/-- There are as many items as have been in use at once, or as there were at first. -/
structure Tight (n : ℕ) (s : Lender) : Prop where
  total : s.total = max n s.peak
  beyond : ∀ b, s.total ≤ b → s.held b = 0

variable {n b : ℕ} {s : Lender}

theorem init_tight (n : ℕ) : (init n).Tight n := ⟨(max_eq_left (Nat.zero_le n)).symm, fun _ _ => rfl⟩

theorem inUse_le (s : Lender) : s.inUse ≤ s.total := by
  have h := List.countP_le_length (p := fun b => decide (0 < s.held b)) (l := List.range s.total)
  rwa [List.length_range] at h

theorem inUse_eq_total (h : ∀ c < s.total, 0 < s.held c) : s.inUse = s.total := by
  have hlen : (List.range s.total).length = s.total := List.length_range
  rw [inUse, List.countP_eq_length.mpr, hlen]
  intro c hc
  exact decide_eq_true (h c (List.mem_range.mp hc))

theorem Tight.lend (h : s.Tight n) (hb : s.Fits b) : (s.lend b).Tight n := by
  obtain ⟨_, hold | ⟨rfl, hall⟩⟩ := hb
  · have htotal : max s.total (b + 1) = s.total := max_eq_left hold
    refine ⟨?_, fun c hc => ?_⟩
    · have hle := inUse_le { s with held := Function.update s.held b 1, total := max s.total (b + 1) }
      have ht := h.total
      dsimp only [Lender.lend]
      dsimp only at hle
      rw [htotal] at hle ⊢
      omega
    · dsimp only [Lender.lend] at hc ⊢
      rw [htotal] at hc
      rw [Function.update_of_ne (by omega), h.beyond c hc]
  · have htotal : max s.total (s.total + 1) = s.total + 1 := max_eq_right (Nat.le_succ _)
    have huse : ({ s with held := Function.update s.held s.total 1, total := s.total + 1 } : Lender).inUse =
        s.total + 1 := by
      refine inUse_eq_total fun c hc => ?_
      have hc' : c < s.total + 1 := hc
      by_cases hcs : c = s.total
      · simp [hcs]
      · simpa [hcs] using hall c (by omega)
    refine ⟨?_, fun c hc => ?_⟩
    · have ht := h.total
      dsimp only [Lender.lend]
      rw [htotal, huse]
      omega
    · dsimp only [Lender.lend] at hc ⊢
      rw [htotal] at hc
      rw [Function.update_of_ne (by omega), h.beyond c (by omega)]

/-- What is in use stays so or goes back. -/
theorem Tight.hold (h : s.Tight n) (hb : 0 < s.held b) (v : ℕ) :
    ({ s with held := Function.update s.held b v } : Lender).Tight n where
  total := h.total
  beyond c hc := by
    have hne : c ≠ b := by
      rintro rfl
      rw [h.beyond c hc] at hb
      exact absurd hb (lt_irrefl 0)
    exact (Function.update_of_ne hne v s.held).trans (h.beyond c hc)

end Lender
end Uvcc.Machine
