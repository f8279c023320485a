import Uvcc.Counting.Ledger

/-!
# Moves of references between holders

The abstract account of reference counting: a reference is created with its
object, copied from an existing one, or dropped. A reference may change hands
without a move, since only the number of holders matters.
-/
namespace Uvcc.Counting
variable {A : Type*} [DecidableEq A]

structure Holding (A : Type*) where
  ledger : Ledger A
  holders : Multiset A

inductive Move (A : Type*) where
  | create (a : A)
  | copy (a : A)
  | drop (a : A)

namespace Holding

def move (s : Holding A) : Move A → Option (Holding A)
  | .create a => if s.ledger.status a = .unborn
      then some ⟨s.ledger.create a, a ::ₘ s.holders⟩ else none
  | .copy a => if a ∈ s.holders then some ⟨s.ledger.inc a, a ::ₘ s.holders⟩ else none
  | .drop a => if a ∈ s.holders then some ⟨s.ledger.dec a, s.holders.erase a⟩ else none

def moves (s : Holding A) : List (Move A) → Option (Holding A)
  | [] => some s
  | m :: ms => (s.move m).bind (fun t => t.moves ms)

@[simp] theorem moves_nil (s : Holding A) : s.moves [] = some s := rfl

theorem moves_cons_some {s t : Holding A} {m : Move A} (h : s.move m = some t) (ms : List (Move A)) :
    s.moves (m :: ms) = t.moves ms := by
  simp [moves, h]

theorem moves_append (s : Holding A) (ms ns : List (Move A)) :
    s.moves (ms ++ ns) = (s.moves ms).bind (fun t => t.moves ns) := by
  induction ms generalizing s with
  | nil => rfl
  | cons m ms ih =>
    rw [List.cons_append, moves, moves]
    cases s.move m with
    | none => rfl
    | some t => exact ih t

def Balanced (s : Holding A) : Prop := s.ledger.Balanced s.holders

theorem move_balanced {s t : Holding A} {m : Move A} (hs : s.Balanced) (h : s.move m = some t) :
    t.Balanced := by
  cases m with
  | create a =>
    simp only [move, Option.ite_none_right_eq_some, Option.some.injEq] at h
    obtain ⟨ha, rfl⟩ := h
    exact Ledger.Balanced.create hs ha
  | copy a =>
    simp only [move, Option.ite_none_right_eq_some, Option.some.injEq] at h
    obtain ⟨ha, rfl⟩ := h
    exact Ledger.Balanced.inc hs ha
  | drop a =>
    simp only [move, Option.ite_none_right_eq_some, Option.some.injEq] at h
    obtain ⟨ha, rfl⟩ := h
    apply Ledger.Balanced.dec (a := a)
    rw [Multiset.cons_erase ha]
    exact hs

theorem moves_balanced {ms : List (Move A)} : ∀ {s t : Holding A}, s.Balanced →
    s.moves ms = some t → t.Balanced := by
  induction ms with
  | nil =>
    intro s t hs h
    simp only [moves_nil, Option.some.injEq] at h
    exact h ▸ hs
  | cons m ms ih =>
    intro s t hs h
    cases hm : s.move m with
    | none => simp [moves, hm] at h
    | some u =>
      rw [moves_cons_some hm] at h
      exact ih (move_balanced hs hm) h

def Move.ofHolder : Move A → Prop
  | .create _ => False
  | .copy _ => True
  | .drop _ => True

/-- An object that was not created yet stays so under copies and drops. -/
theorem move_unborn {s t : Holding A} {m : Move A} (h : s.move m = some t)
    (hm : Move.ofHolder m) {a : A} (ha : s.ledger.status a = .unborn) :
    t.ledger.status a = .unborn := by
  cases m with
  | create b => exact hm.elim
  | copy b =>
    simp only [move, Option.ite_none_right_eq_some, Option.some.injEq] at h
    obtain ⟨_, rfl⟩ := h
    simpa using ha
  | drop b =>
    simp only [move, Option.ite_none_right_eq_some, Option.some.injEq] at h
    obtain ⟨_, rfl⟩ := h
    simpa using ha

theorem moves_unborn {ms : List (Move A)} : ∀ {s t : Holding A}, s.moves ms = some t →
    (∀ m ∈ ms, Move.ofHolder m) → ∀ {a : A}, s.ledger.status a = .unborn →
    t.ledger.status a = .unborn := by
  induction ms with
  | nil =>
    intro s t h _ a ha
    simp only [moves_nil, Option.some.injEq] at h
    exact h ▸ ha
  | cons m ms ih =>
    intro s t h hm a ha
    cases hu : s.move m with
    | none => simp [moves, hu] at h
    | some u =>
      rw [moves_cons_some hu] at h
      exact ih h (fun n hn => hm n (List.mem_cons_of_mem _ hn))
        (move_unborn hu (hm m List.mem_cons_self) ha)

/-- An object goes from unborn to live to dead and never back. -/
def Status.rank : Status → ℕ
  | .unborn => 0
  | .live => 1
  | .dead => 2

theorem move_rank {s t : Holding A} {m : Move A} (hs : s.Balanced) (h : s.move m = some t) (a : A) :
    Status.rank (s.ledger.status a) ≤ Status.rank (t.ledger.status a) := by
  cases m with
  | create b =>
    simp only [move, Option.ite_none_right_eq_some, Option.some.injEq] at h
    obtain ⟨hb, rfl⟩ := h
    by_cases hab : a = b
    · subst hab; simp [hb, Status.rank]
    · simp [Ledger.create, hab]
  | copy b =>
    simp only [move, Option.ite_none_right_eq_some, Option.some.injEq] at h
    obtain ⟨_, rfl⟩ := h
    simp
  | drop b =>
    simp only [move, Option.ite_none_right_eq_some, Option.some.injEq] at h
    obtain ⟨hb, rfl⟩ := h
    have hl : s.ledger.status b = .live := (hs.live_iff b).mpr hb
    unfold Ledger.dec
    split_ifs
    · exact le_rfl
    · by_cases hab : a = b
      · subst hab; simp [hl, Status.rank]
      · simp [hab]
    · exact le_rfl

theorem moves_rank {ms : List (Move A)} : ∀ {s t : Holding A}, s.Balanced →
    s.moves ms = some t → ∀ a, Status.rank (s.ledger.status a) ≤ Status.rank (t.ledger.status a) := by
  induction ms with
  | nil =>
    intro s t _ h a
    simp only [moves_nil, Option.some.injEq] at h
    exact h ▸ le_rfl
  | cons m ms ih =>
    intro s t hs h a
    cases hu : s.move m with
    | none => simp [moves, hu] at h
    | some u =>
      rw [moves_cons_some hu] at h
      exact (move_rank hs hu a).trans (ih (move_balanced hs hu) h a)

end Holding
end Uvcc.Counting
