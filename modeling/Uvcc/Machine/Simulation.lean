import Uvcc.Machine.Trace

/-!
# Simulation

A machine simulates a specification when each of its steps is answered by the calls
that the step shows. An atomic object is the specification of what threads do with a
shared one: each operation takes effect at one moment between its call and its return.
-/
namespace Uvcc.Machine
variable {S E A C : Type*}

def labels (step : S → E → Option S) (label : S → E → List C) (s : S) (es : List E) : List C :=
  (taken step s es).flatMap fun p => label p.1 p.2

section Rules
variable {step : S → E → Option S} {label : S → E → List C} {s t : S} {e : E}

theorem labels_none (h : step s e = none) (es : List E) : labels step label s (e :: es) = [] := by
  rw [labels, taken_none h, List.flatMap_nil]

theorem labels_some (h : step s e = some t) (es : List E) :
    labels step label s (e :: es) = label s e ++ labels step label t es := by
  rw [labels, taken_some h, List.flatMap_cons, labels]

end Rules

/-- The specification answers what a step shows, and ends in a related state. -/
def Simulates (step : S → E → Option S) (spec : A → C → Option A) (label : S → E → List C)
    (R : S → A → Prop) : Prop :=
  ∀ s e t a, R s a → step s e = some t → ∃ b, (label s e).foldlM spec a = some b ∧ R t b

/-- So it answers whole runs. -/
theorem Simulates.run {step : S → E → Option S} {spec : A → C → Option A} {label : S → E → List C}
    {R : S → A → Prop} (h : Simulates step spec label R) (es : List E) : ∀ s a, R s a →
      ∃ b, (labels step label s es).foldlM spec a = some b ∧ R (final step s es) b := by
  induction es with
  | nil => intro s a hr; exact ⟨a, rfl, hr⟩
  | cons e es ih =>
    intro s a hr
    cases he : step s e with
    | none =>
      rw [labels_none he, final_none he]
      exact ⟨a, rfl, hr⟩
    | some t =>
      obtain ⟨b, hb, hrb⟩ := h s e t a hr he
      obtain ⟨b', hb', hrb'⟩ := ih t b hrb
      rw [labels_some he, final_some he, List.foldlM_append, hb]
      exact ⟨b', hb', hrb'⟩

section Atomic
variable {T Op Ev Ret : Type*} [DecidableEq T]

/-- What can be seen of threads that share an object; the object also takes part in
events of its own. -/
inductive Interaction (T Op Ev Ret : Type*) where
  | called (t : T) (op : Op)
  | effect (t : T)
  | returned (t : T) (ret : Ret)
  | event (ev : Ev)
  deriving DecidableEq, Repr

/-- The object, and for each thread the operation that it has called or the result that
it has yet to return. -/
structure Atomic (A T Op Ret : Type*) where
  object : A
  pending : T → Option (Op ⊕ Ret)

namespace Atomic

def init (a : A) : Atomic A T Op Ret := ⟨a, fun _ => none⟩

def setPending (s : Atomic A T Op Ret) (t : T) (p : Option (Op ⊕ Ret)) : Atomic A T Op Ret :=
  { s with pending := Function.update s.pending t p }

section Pending
variable {s : Atomic A T Op Ret} {t : T}

@[simp] theorem setPending_object (p : Option (Op ⊕ Ret)) : (s.setPending t p).object = s.object := rfl

@[simp] theorem setPending_self (p : Option (Op ⊕ Ret)) : (s.setPending t p).pending t = p := by
  simp [setPending]

theorem setPending_of_ne {u : T} (h : u ≠ t) (p : Option (Op ⊕ Ret)) :
    (s.setPending t p).pending u = s.pending u := by
  simp [setPending, h]

end Pending

variable [DecidableEq Ret]

def step (apply : A → Op → A × Ret) (react : A → Ev → Option A) (s : Atomic A T Op Ret) :
    Interaction T Op Ev Ret → Option (Atomic A T Op Ret)
  | .called t op => if s.pending t = none then some (s.setPending t (some (.inl op))) else none
  | .effect t => match s.pending t with
    | some (.inl op) =>
      let result := apply s.object op
      some ({ s with object := result.1 }.setPending t (some (.inr result.2)))
    | _ => none
  | .returned t ret => match s.pending t with
    | some (.inr r) => if r = ret then some (s.setPending t none) else none
    | _ => none
  | .event ev => (react s.object ev).map fun a => { s with object := a }

variable {apply : A → Op → A × Ret} {react : A → Ev → Option A} {s : Atomic A T Op Ret} {t : T}

theorem step_called (h : s.pending t = none) (op : Op) :
    s.step apply react (.called t op) = some (s.setPending t (some (.inl op))) := if_pos h

theorem step_effect {op : Op} (h : s.pending t = some (.inl op)) :
    s.step apply react (.effect t) =
      some ({ s with object := (apply s.object op).1 }.setPending t (some (.inr (apply s.object op).2))) := by
  simp only [step, h]

theorem step_returned {ret : Ret} (h : s.pending t = some (.inr ret)) :
    s.step apply react (.returned t ret) = some (s.setPending t none) := by
  simp only [step, h, if_true]

/-- An operation that nothing comes in between. -/
theorem step_whole (h : s.pending t = none) (op : Op) :
    [.called t op, .effect t, .returned t (apply s.object op).2].foldlM (step apply react) s =
      some { s with object := (apply s.object op).1 } := by
  simp [step, setPending, h]

end Atomic
end Atomic
end Uvcc.Machine
