import Mathlib.Tactic

/-!
# The count of one object

A counter starts at the references that exist, goes up with each new one and
destroys its object with the last. It cannot be brought back from zero.
-/
namespace Uvcc.Counting

/-- `fault` records an attempt to take a reference from a zero count. -/
structure Counter where
  refs : ℤ
  destroyed : Bool
  fault : Bool
  deriving DecidableEq, Repr

namespace Counter

def of (n : ℕ) : Counter := ⟨n, false, false⟩

def inc (c : Counter) : Counter :=
  if c.refs = 0 then { c with fault := true } else { c with refs := c.refs + 1 }

def dec (c : Counter) : Counter :=
  { c with refs := c.refs - 1, destroyed := c.destroyed || decide (c.refs - 1 = 0) }

@[simp] theorem dec_refs (c : Counter) : c.dec.refs = c.refs - 1 := rfl

theorem inc_refs {c : Counter} (h : c.refs ≠ 0) : c.inc.refs = c.refs + 1 := by
  rw [inc, if_neg h]

theorem inc_destroyed (c : Counter) : c.inc.destroyed = c.destroyed := by
  unfold inc
  split <;> rfl

structure Holds (c : Counter) (n : ℤ) : Prop where
  refs : c.refs = n
  destroyed : c.destroyed = decide (n = 0)
  fault : c.fault = false

variable {c : Counter} {n : ℤ}

theorem of_holds {n : ℕ} (h : 1 ≤ n) : (of n).Holds n := by
  refine ⟨rfl, ?_, rfl⟩
  simp only [of, eq_comm (a := false), decide_eq_false_iff_not]
  omega

theorem Holds.alive (h : c.Holds n) (hn : 1 ≤ n) : c.destroyed = false := by
  rw [h.destroyed, decide_eq_false_iff_not]
  omega

theorem Holds.inc (h : c.Holds n) (hn : 1 ≤ n) : c.inc.Holds (n + 1) := by
  have hr := h.refs
  rw [Counter.inc, if_neg (by omega)]
  refine ⟨by dsimp only; omega, ?_, h.fault⟩
  rw [eq_comm, h.alive hn, decide_eq_false_iff_not]
  omega

theorem Holds.dec (h : c.Holds (n + 1)) (hn : 0 ≤ n) : c.dec.Holds n := by
  have hr := h.refs
  have hd := h.alive (by omega)
  refine ⟨by simp only [Counter.dec]; omega, ?_, h.fault⟩
  simp [Counter.dec, hd, hr]

/-- A reference that is taken for the time of a call. -/
theorem inc_dec (h : c.refs ≠ 0) : c.inc.dec = c := by
  obtain ⟨refs, destroyed, fault⟩ := c
  simp only at h
  simp [Counter.inc, Counter.dec, h]

theorem Holds.inc_dec (h : c.Holds n) (hn : 1 ≤ n) : c.inc.dec = c := by
  have hr := h.refs
  exact Counter.inc_dec (by omega)

/-- A reference that is given up if it was there. -/
theorem Holds.decIf {b : Bool} (h : c.Holds (n + b.toNat)) (hn : 0 ≤ n) :
    (if b then c.dec else c).Holds n := by
  cases b with
  | true => exact h.dec hn
  | false => simpa using h

end Counter
end Uvcc.Counting
