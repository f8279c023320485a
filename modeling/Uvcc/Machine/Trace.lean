import Mathlib.Tactic

/-!
# Runs of an event-driven machine

A machine is a partial step function: `none` means that the event cannot
happen in that state, and a run ends there. The rules below turn what one
step preserves into what every visited state satisfies, with or without a
condition that each step of the run has to meet.
-/
namespace Uvcc.Machine
variable {S E : Type*}

/-- The states a run goes through, the starting one first. -/
def visited (step : S → E → Option S) : S → List E → List S
  | s, [] => [s]
  | s, e :: es => s :: match step s e with
    | some t => visited step t es
    | none => []

def taken (step : S → E → Option S) : S → List E → List (S × E)
  | _, [] => []
  | s, e :: es => match step s e with
    | some t => (s, e) :: taken step t es
    | none => []

def final (step : S → E → Option S) : S → List E → S
  | s, [] => s
  | s, e :: es => match step s e with
    | some t => final step t es
    | none => s

section Rules
variable {step : S → E → Option S}

theorem mem_visited_self (s : S) (es : List E) : s ∈ visited step s es := by
  cases es <;> simp [visited]

theorem visited_none {s : S} {e : E} (h : step s e = none) (es : List E) :
    visited step s (e :: es) = [s] := by
  simp [visited, h]

theorem visited_some {s t : S} {e : E} (h : step s e = some t) (es : List E) :
    visited step s (e :: es) = s :: visited step t es := by
  simp [visited, h]

theorem taken_none {s : S} {e : E} (h : step s e = none) (es : List E) :
    taken step s (e :: es) = [] := by
  simp [taken, h]

theorem taken_some {s t : S} {e : E} (h : step s e = some t) (es : List E) :
    taken step s (e :: es) = (s, e) :: taken step t es := by
  simp [taken, h]

theorem final_none {s : S} {e : E} (h : step s e = none) (es : List E) :
    final step s (e :: es) = s := by
  simp [final, h]

theorem final_some {s t : S} {e : E} (h : step s e = some t) (es : List E) :
    final step s (e :: es) = final step t es := by
  simp [final, h]

theorem final_visited (es : List E) : ∀ s, final step s es ∈ visited step s es := by
  induction es with
  | nil => intro s; simp [final, visited]
  | cons e es ih =>
    intro s
    cases he : step s e with
    | none =>
      rw [final_none he]
      exact mem_visited_self s _
    | some t =>
      rw [final_some he, visited_some he]
      exact List.mem_cons_of_mem _ (ih t)

/-- An invariant that a step keeps when it meets the condition holds all along
a run whose steps all meet it. -/
theorem visited_guarded {I : S → Prop} {ok : S → E → Prop}
    (hstep : ∀ s e t, I s → ok s e → step s e = some t → I t) (es : List E) :
    ∀ s, I s → (∀ p ∈ taken step s es, ok p.1 p.2) → ∀ t ∈ visited step s es, I t := by
  induction es with
  | nil =>
    intro s hs _ t ht
    rw [visited, List.mem_singleton] at ht
    exact ht ▸ hs
  | cons e es ih =>
    intro s hs hok t ht
    cases he : step s e with
    | none =>
      rw [visited_none he, List.mem_singleton] at ht
      exact ht ▸ hs
    | some u =>
      rw [visited_some he] at ht
      rw [taken_some he] at hok
      rcases List.mem_cons.mp ht with rfl | ht
      · exact hs
      · exact ih u (hstep s e u hs (hok (s, e) List.mem_cons_self) he)
          (fun p hp => hok p (List.mem_cons_of_mem _ hp)) t ht

/-- What every step preserves holds in every state a run goes through. -/
theorem visited_invariant {I : S → Prop}
    (hstep : ∀ s e t, I s → step s e = some t → I t) (es : List E) :
    ∀ s, I s → ∀ t ∈ visited step s es, I t := by
  have hguarded : ∀ s e t, I s → True → step s e = some t → I t := fun s e t hs _ h => hstep s e t hs h
  intro s hs
  exact visited_guarded hguarded es s hs fun _ _ => trivial

/-- A step is taken in a state that the run goes through, and could happen there. -/
theorem mem_taken (es : List E) : ∀ s, ∀ p ∈ taken step s es,
    p.1 ∈ visited step s es ∧ ∃ t, step p.1 p.2 = some t := by
  induction es with
  | nil => intro s p hp; simp [taken] at hp
  | cons e es ih =>
    intro s p hp
    cases he : step s e with
    | none => rw [taken_none he] at hp; simp at hp
    | some u =>
      rw [taken_some he] at hp
      rw [visited_some he]
      rcases List.mem_cons.mp hp with rfl | hp
      · exact ⟨List.mem_cons_self, u, he⟩
      · obtain ⟨hv, ht⟩ := ih u p hp
        exact ⟨List.mem_cons_of_mem _ hv, ht⟩

theorem taken_visited (es : List E) (s : S) : ∀ p ∈ taken step s es, p.1 ∈ visited step s es :=
  fun p hp => (mem_taken es s p hp).1

theorem taken_enabled (es : List E) (s : S) : ∀ p ∈ taken step s es, ∃ t, step p.1 p.2 = some t :=
  fun p hp => (mem_taken es s p hp).2

/-- When moreover a step that misses the condition ends in a state without the
property, the property holds all along a run exactly when every step meets the
condition. -/
theorem visited_iff_guarded {I P : S → Prop} {ok : S → E → Prop}
    (hP : ∀ s, I s → P s)
    (hstep : ∀ s e t, I s → ok s e → step s e = some t → I t)
    (hbad : ∀ s e t, I s → ¬ ok s e → step s e = some t → ¬ P t) (es : List E) :
    ∀ s, I s → ((∀ t ∈ visited step s es, P t) ↔ ∀ p ∈ taken step s es, ok p.1 p.2) := by
  intro s hs
  constructor
  · induction es generalizing s with
    | nil => intro _ p hp; simp [taken] at hp
    | cons e es ih =>
      intro hall p hp
      cases he : step s e with
      | none => rw [taken_none he] at hp; simp at hp
      | some u =>
        rw [visited_some he] at hall
        rw [taken_some he] at hp
        have hu : P u := hall u (List.mem_cons_of_mem _ (mem_visited_self u es))
        have hok : ok s e := Classical.byContradiction fun hn => hbad s e u hs hn he hu
        rcases List.mem_cons.mp hp with rfl | hp
        · exact hok
        · exact ih u (hstep s e u hs hok he) (fun t ht => hall t (List.mem_cons_of_mem _ ht)) p hp
  · intro hok t ht
    exact hP t (visited_guarded hstep es s hs hok t ht)

/-- A run takes no more steps than a measure that each of them lowers allows. -/
theorem taken_length_le {I : S → Prop} {m : S → ℕ}
    (hstep : ∀ s e t, I s → step s e = some t → I t ∧ m t < m s) (es : List E) :
    ∀ s, I s → (taken step s es).length + m (final step s es) ≤ m s := by
  induction es with
  | nil => intro s _; simp [taken, final]
  | cons e es ih =>
    intro s hs
    cases he : step s e with
    | none => simp [taken_none he, final_none he]
    | some u =>
      obtain ⟨hu, hlt⟩ := hstep s e u hs he
      have hrest := ih u hu
      rw [taken_some he, final_some he, List.length_cons]
      omega

/-- What each step adds to a tally kept beside the run. -/
theorem final_tally {I : S → ℕ → Prop} {w : E → ℕ}
    (hstep : ∀ s e t n, I s n → step s e = some t → I t (n + w e)) (es : List E) :
    ∀ s n, I s n → I (final step s es) (n + ((taken step s es).map fun p => w p.2).sum) := by
  induction es with
  | nil => intro s n hs; exact hs
  | cons e es ih =>
    intro s n hs
    cases he : step s e with
    | none =>
      rw [final_none he, taken_none he]
      exact hs
    | some t =>
      rw [final_some he, taken_some he, List.map_cons, List.sum_cons, ← add_assoc]
      exact ih t _ (hstep s e t n hs he)

/-- Two machines that answer every event alike, step for step, go through
related states. -/
theorem visited_related {T : Type*} {step' : T → E → Option T} {R : S → T → Prop}
    (h : ∀ s t e, R s t → Option.Rel R (step s e) (step' t e)) (es : List E) :
    ∀ s t, R s t → List.Forall₂ R (visited step s es) (visited step' t es) := by
  induction es with
  | nil => intro s t hst; exact .cons hst .nil
  | cons e es ih =>
    intro s t hst
    have he := h s t e hst
    cases hs : step s e with
    | none =>
      cases ht : step' t e with
      | none =>
        rw [visited_none hs, visited_none ht]
        exact .cons hst .nil
      | some v => rw [hs, ht] at he; cases he
    | some u =>
      cases ht : step' t e with
      | none => rw [hs, ht] at he; cases he
      | some v =>
        rw [hs, ht] at he
        rw [visited_some hs, visited_some ht]
        cases he with
        | some huv => exact .cons hst (ih u v huv)

end Rules

section Registers
variable {V : Type*}

/-- What a register holds after the events that write it. -/
def lastWrite (w : E → Option V) (v : V) (es : List E) : V := es.foldl (fun v e => (w e).getD v) v

variable (w : E → Option V) (v : V) (es : List E) (e : E)

theorem lastWrite_concat : lastWrite w v (es ++ [e]) = (w e).getD (lastWrite w v es) := by
  simp [lastWrite]

/-- A value that is never written shows that nothing was. -/
theorem lastWrite_eq_initial_iff (hw : ∀ e, w e ≠ some v) :
    lastWrite w v es = v ↔ ∀ e ∈ es, w e = none := by
  induction es using List.reverseRecOn with
  | nil => simp [lastWrite]
  | append_singleton es e ih =>
    rw [lastWrite_concat, List.forall_mem_append, List.forall_mem_singleton]
    cases he : w e with
    | none => simpa using ih
    | some u =>
      have hne : u ≠ v := fun h => hw e (by rw [he, h])
      simp [hne]

/-- A field that each step writes or keeps holds what the steps taken have written last. -/
theorem final_register {step : S → E → Option S} {f : S → V}
    (hstep : ∀ s e t, step s e = some t → f t = (w e).getD (f s)) (es : List E) :
    ∀ s, f (final step s es) = lastWrite w (f s) ((taken step s es).map Prod.snd) := by
  induction es with
  | nil => intro s; rfl
  | cons e es ih =>
    intro s
    cases he : step s e with
    | none => rw [final_none he, taken_none he]; rfl
    | some t =>
      rw [final_some he, taken_some he, ih t, hstep s e t he]
      rfl

end Registers

end Uvcc.Machine
