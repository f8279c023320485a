import Mathlib.Tactic

/-!
# Who frees a block

Blocks are numbered in the order in which they are allocated. Each of them is freed, or
has one owner. An owner may get new blocks and free some of its own in one go.
-/
namespace Uvcc.Memory

/-- The number of blocks allocated so far, and those freed, the last one first. -/
structure Blocks where
  allocated : ℕ
  freed : List ℕ
  deriving DecidableEq, Repr

namespace Blocks

def alloc (b : Blocks) (k : ℕ) : Blocks := { b with allocated := b.allocated + k }

def free (b : Blocks) (ns : List ℕ) : Blocks := { b with freed := ns ++ b.freed }

def fresh (b : Blocks) (k : ℕ) : List ℕ := List.range' b.allocated k

theorem mem_fresh {b : Blocks} {k n : ℕ} : n ∈ b.fresh k ↔ b.allocated ≤ n ∧ n < b.allocated + k :=
  List.mem_range'_1

variable {K : Type*} {b : Blocks} {owns : K → List ℕ} {k : K}

structure Apportioned (b : Blocks) (owns : K → List ℕ) : Prop where
  made : ∀ k, ∀ n ∈ owns k, n < b.allocated
  kept : ∀ k, ∀ n ∈ owns k, n ∉ b.freed
  single : ∀ k, (owns k).Nodup
  apart : ∀ j k n, n ∈ owns j → n ∈ owns k → j = k
  once : b.freed.Nodup
  freed_made : ∀ n ∈ b.freed, n < b.allocated
  all : ∀ n < b.allocated, n ∈ b.freed ∨ ∃ k, n ∈ owns k

theorem apportioned_nil : (⟨0, []⟩ : Blocks).Apportioned fun _ : K => [] where
  made _ _ hn := absurd hn List.not_mem_nil
  kept _ _ hn := absurd hn List.not_mem_nil
  single _ := List.nodup_nil
  apart _ _ _ hn := absurd hn List.not_mem_nil
  once := List.nodup_nil
  freed_made _ hn := absurd hn List.not_mem_nil
  all n hn := absurd hn (Nat.not_lt_zero n)

/-- Whoever owns nothing has nothing left to free. -/
theorem Apportioned.all_freed (h : b.Apportioned owns) (hnone : ∀ k, owns k = []) :
    ∀ n < b.allocated, n ∈ b.freed := by
  intro n hn
  rcases h.all n hn with hfreed | ⟨k, hk⟩
  · exact hfreed
  · rw [hnone k] at hk
    exact absurd hk List.not_mem_nil

/-- What an owner has and the blocks to come are different. -/
theorem Apportioned.nodup_fresh (h : b.Apportioned owns) (k : K) (m : ℕ) : (owns k ++ b.fresh m).Nodup := by
  refine List.nodup_append'.mpr ⟨h.single k, List.nodup_range', fun n hn hfresh => ?_⟩
  have hlt := h.made k n hn
  have hge := (mem_fresh.mp hfresh).1
  omega

/-- What an owner has and the blocks to come are neither freed nor somebody else's. -/
theorem Apportioned.disposable {m n : ℕ} (h : b.Apportioned owns) (hn : n ∈ owns k ++ b.fresh m) :
    n < b.allocated + m ∧ n ∉ b.freed ∧ ∀ j, n ∈ owns j → j = k := by
  rw [List.mem_append, mem_fresh] at hn
  rcases hn with hown | ⟨hge, hlt⟩
  · exact ⟨Nat.lt_add_right m (h.made k n hown), h.kept k n hown, fun j hj => h.apart j k n hj hown⟩
  · refine ⟨hlt, fun hfreed => ?_, fun j hj => ?_⟩
    · exact absurd (h.freed_made n hfreed) (Nat.not_lt.mpr hge)
    · exact absurd (h.made j n hj) (Nat.not_lt.mpr hge)

theorem Apportioned.all_fresh {m n : ℕ} (h : b.Apportioned owns) (k : K) (hn : n < b.allocated + m) :
    n ∈ owns k ++ b.fresh m ∨ n ∈ b.freed ∨ ∃ j, j ≠ k ∧ n ∈ owns j := by
  rw [List.mem_append, mem_fresh]
  by_cases hlt : n < b.allocated
  · rcases h.all n hlt with hfreed | ⟨j, hj⟩
    · exact .inr (.inl hfreed)
    · by_cases hjk : j = k
      · exact .inl (.inl (hjk ▸ hj))
      · exact .inr (.inr ⟨j, hjk, hj⟩)
  · exact .inl (.inr ⟨Nat.not_lt.mp hlt, hn⟩)

variable [DecidableEq K]

theorem mem_update_owns {os : List ℕ} {j : K} {n : ℕ} (hn : n ∈ Function.update owns k os j) :
    j = k ∧ n ∈ os ∨ j ≠ k ∧ n ∈ owns j := by
  by_cases hj : j = k
  · subst hj
    rw [Function.update_self] at hn
    exact .inl ⟨rfl, hn⟩
  · rw [Function.update_of_ne hj] at hn
    exact .inr ⟨hj, hn⟩

/-- An owner gets the next `m` blocks and frees `ns` of all that it has then. -/
theorem Apportioned.exchange {m : ℕ} {ns os : List ℕ} (h : b.Apportioned owns)
    (hperm : (owns k ++ b.fresh m).Perm (ns ++ os)) :
    ((b.alloc m).free ns).Apportioned (Function.update owns k os) := by
  obtain ⟨hns, hos, hdisjoint⟩ := List.nodup_append'.mp (hperm.nodup_iff.mp (h.nodup_fresh k m))
  have hfree : ∀ n ∈ ns, n ∈ owns k ++ b.fresh m := fun n hn => hperm.mem_iff.mpr (List.mem_append_left _ hn)
  have hkeep : ∀ n ∈ os, n ∈ owns k ++ b.fresh m := fun n hn => hperm.mem_iff.mpr (List.mem_append_right _ hn)
  constructor
  case made =>
    intro j n hn
    rcases mem_update_owns hn with ⟨-, hn⟩ | ⟨-, hn⟩
    · exact (h.disposable (hkeep n hn)).1
    · exact Nat.lt_add_right m (h.made j n hn)
  case kept =>
    intro j n hn hfreed
    rcases mem_update_owns hn with ⟨-, hn⟩ | ⟨hj, hn⟩
    · rcases List.mem_append.mp hfreed with hfreed | hfreed
      · exact hdisjoint hfreed hn
      · exact (h.disposable (hkeep n hn)).2.1 hfreed
    · rcases List.mem_append.mp hfreed with hfreed | hfreed
      · exact hj ((h.disposable (hfree n hfreed)).2.2 j hn)
      · exact h.kept j n hn hfreed
  case single =>
    intro j
    by_cases hj : j = k
    · subst hj
      rwa [Function.update_self]
    · rw [Function.update_of_ne hj]
      exact h.single j
  case apart =>
    intro i j n hi hj
    rcases mem_update_owns hi with ⟨hik, hio⟩ | ⟨hik, hio⟩
    · rcases mem_update_owns hj with ⟨hjk, -⟩ | ⟨hjk, hjo⟩
      · rw [hik, hjk]
      · exact absurd ((h.disposable (hkeep n hio)).2.2 j hjo) hjk
    · rcases mem_update_owns hj with ⟨-, hjo⟩ | ⟨-, hjo⟩
      · exact absurd ((h.disposable (hkeep n hjo)).2.2 i hio) hik
      · exact h.apart i j n hio hjo
  case once => exact List.nodup_append'.mpr ⟨hns, h.once, fun n hn => (h.disposable (hfree n hn)).2.1⟩
  case freed_made =>
    intro n hn
    rcases List.mem_append.mp hn with hn | hn
    · exact (h.disposable (hfree n hn)).1
    · exact Nat.lt_add_right m (h.freed_made n hn)
  case all =>
    intro n hn
    rcases h.all_fresh k hn with hmem | hfreed | ⟨j, hjk, hj⟩
    · rcases List.mem_append.mp (hperm.mem_iff.mp hmem) with hmem | hmem
      · exact .inl (List.mem_append_left _ hmem)
      · exact .inr ⟨k, by rwa [Function.update_self]⟩
    · exact .inl (List.mem_append_right _ hfreed)
    · exact .inr ⟨j, by rwa [Function.update_of_ne hjk]⟩

end Blocks
end Uvcc.Memory
