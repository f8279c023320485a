import Uvcc.Machine.Trace
import Uvcc.Counting.Counter

/-!
# References of sent events

`async::send` adds a reference for the event before `uv_async_send()`, and
`async_cb` releases one for each call of the callback, while libuv may answer several
events with one call. Threads that are inside `send` are only counted: they all do
the same.
-/
namespace Uvcc.Watchers
open Counting Machine

/-- The instance, its variables and its callback. Threads inside `send` are `calling`
before `uv_async_send()` and `failing` after it has failed; events that were sent are
`awaiting`. The frame of a running callback tells whether its argument still refers. -/
structure Async extends Counter where
  vars : ℕ
  asyncCb : Bool
  calling : ℕ
  failing : ℕ
  awaiting : ℕ
  frame : Option Bool
  deriving DecidableEq, Repr

inductive AsyncEvent where
  | copy
  | drop
  | moveArg
  | onSend (set : Bool)
  | send
  | asyncSend (ret : ℤ)
  | sendFailed
  | deliver (k : ℕ)
  | callbackEnd
  deriving DecidableEq, Repr

namespace Async

def init : Async where
  toCounter := .of 1
  vars := 1
  asyncCb := false
  calling := 0
  failing := 0
  awaiting := 0
  frame := none

def ref (s : Async) : Async := { s with toCounter := s.toCounter.inc }

def unref (s : Async) : Async := { s with toCounter := s.toCounter.dec }

def argument (s : Async) : Bool := s.frame.getD false

def names (s : Async) : ℕ := s.vars + s.argument.toNat

/-- What follows `uv_async_send()` in `send`. -/
def asyncSend (s : Async) (ret : ℤ) : Async :=
  if ret < 0 then { s with calling := s.calling - 1, failing := s.failing + 1 }
  else { s with calling := s.calling - 1, awaiting := s.awaiting + 1 }

/-- `async_cb` for `k` events at once, up to the user callback: the guard adopts a
reference, and the argument of the callback takes one. -/
def deliver (s : Async) (k : ℕ) : Async :=
  let s' := { s with awaiting := s.awaiting - k, frame := some s.asyncCb }
  if s.asyncCb then s'.ref else s'

def callbackEnd (s : Async) (arg : Bool) : Async :=
  { (if arg then s.unref else s).unref with frame := none }

def step (s : Async) : AsyncEvent → Option Async
  | .copy => if s.names = 0 then none else some { s.ref with vars := s.vars + 1 }
  | .drop => if s.vars = 0 then none else some { s.unref with vars := s.vars - 1 }
  | .moveArg =>
    if s.frame = some true then some { s with frame := some false, vars := s.vars + 1 } else none
  | .onSend set => if s.names = 0 then none else some { s with asyncCb := set }
  | .send => if s.names = 0 then none else some { s.ref with calling := s.calling + 1 }
  | .asyncSend ret => if s.calling = 0 then none else some (s.asyncSend ret)
  | .sendFailed => if s.failing = 0 then none else some { s.unref with failing := s.failing - 1 }
  | .deliver k =>
    if 1 ≤ k ∧ k ≤ s.awaiting ∧ s.frame = none then some (s.deliver k) else none
  | .callbackEnd => s.frame.map s.callbackEnd

/-- No event is on its way and no callback is running. -/
def Quiet (s : Async) : Prop := s.calling = 0 ∧ s.failing = 0 ∧ s.awaiting = 0 ∧ s.frame = none

/-- A call of the callback stands for one event. -/
def OneByOne : AsyncEvent → Prop
  | .deliver k => k = 1
  | _ => True

/-! ## The account of the references -/

def held (s : Async) : ℕ :=
  s.names + s.calling + s.failing + s.awaiting + s.frame.isSome.toNat

def lost (s : Async) : ℤ := s.refs - s.held

def loses : AsyncEvent → ℕ
  | .deliver k => k - 1
  | _ => 0

variable {s t : Async}

theorem refs_ne_zero (hs : 0 ≤ s.lost) (hn : s.held ≠ 0) : s.refs ≠ 0 := by
  unfold lost at hs
  omega

theorem held_of_names (hn : s.names ≠ 0) : s.held ≠ 0 := by
  unfold held
  omega

theorem inc_refs (hs : 0 ≤ s.lost) (hn : s.names ≠ 0) : s.toCounter.inc.refs = s.refs + 1 :=
  Counter.inc_refs (refs_ne_zero hs (held_of_names hn))

/-! ## What each step does to the account -/

theorem asyncSend_lost (h : s.calling ≠ 0) (ret : ℤ) : (s.asyncSend ret).lost = s.lost := by
  unfold asyncSend
  split_ifs
  · simp only [lost, held, names, argument]
    omega
  · simp only [lost, held, names, argument]
    omega

/-- One reference of the `k` events is the guard's; the others are nobody's. -/
theorem deliver_lost (hs : 0 ≤ s.lost) {k : ℕ} (hk : 1 ≤ k) (hle : k ≤ s.awaiting)
    (hf : s.frame = none) : (s.deliver k).lost = s.lost + (k - 1 : ℕ) := by
  have hr : s.refs ≠ 0 := by
    apply refs_ne_zero hs
    unfold held
    omega
  have hi := Counter.inc_refs hr
  unfold deliver
  cases hcb : s.asyncCb
  · simp [lost, held, names, argument, hf]
    omega
  · simp [lost, held, names, argument, ref, hi, hf]
    omega

theorem callbackEnd_lost {arg : Bool} (hf : s.frame = some arg) : (s.callbackEnd arg).lost = s.lost := by
  unfold callbackEnd
  cases arg
  · simp [lost, held, names, argument, unref, hf]
    ring
  · simp [lost, held, names, argument, unref, hf]
    ring

theorem step_lost {e : AsyncEvent} (hs : 0 ≤ s.lost) (h : s.step e = some t) :
    t.lost = s.lost + loses e := by
  cases e with
  | copy =>
    simp only [step, Option.ite_none_left_eq_some, Option.some.injEq] at h
    obtain ⟨hn, rfl⟩ := h
    simp only [lost, held, names, argument, ref, loses, inc_refs hs hn]
    push_cast
    omega
  | drop =>
    simp only [step, Option.ite_none_left_eq_some, Option.some.injEq] at h
    obtain ⟨hn, rfl⟩ := h
    simp only [lost, held, names, argument, unref, loses, Counter.dec_refs]
    omega
  | moveArg =>
    simp only [step, Option.ite_none_right_eq_some, Option.some.injEq] at h
    obtain ⟨hf, rfl⟩ := h
    simp only [lost, held, names, argument, loses, hf, Option.getD_some, Option.isSome_some, Bool.toNat_true,
      Bool.toNat_false]
    push_cast
    ring
  | onSend set =>
    simp only [step, Option.ite_none_left_eq_some, Option.some.injEq] at h
    obtain ⟨_, rfl⟩ := h
    exact (add_zero _).symm
  | send =>
    simp only [step, Option.ite_none_left_eq_some, Option.some.injEq] at h
    obtain ⟨hn, rfl⟩ := h
    simp only [lost, held, names, argument, ref, loses, inc_refs hs hn]
    push_cast
    ring
  | asyncSend ret =>
    simp only [step, Option.ite_none_left_eq_some, Option.some.injEq] at h
    obtain ⟨hn, rfl⟩ := h
    exact (asyncSend_lost hn ret).trans (add_zero _).symm
  | sendFailed =>
    simp only [step, Option.ite_none_left_eq_some, Option.some.injEq] at h
    obtain ⟨hn, rfl⟩ := h
    simp only [lost, held, names, argument, unref, loses, Counter.dec_refs]
    omega
  | deliver k =>
    simp only [step, Option.ite_none_right_eq_some, Option.some.injEq] at h
    obtain ⟨⟨hk, hle, hf⟩, rfl⟩ := h
    exact deliver_lost hs hk hle hf
  | callbackEnd =>
    obtain ⟨arg, hf, rfl⟩ := Option.map_eq_some_iff.mp h
    exact (callbackEnd_lost hf).trans (add_zero _).symm

theorem step_loses {e : AsyncEvent} (h : s.step e = some t) : loses e = 0 ↔ OneByOne e := by
  cases e with
  | deliver k =>
    simp only [step, Option.ite_none_right_eq_some] at h
    have hk := h.1.1
    simp only [loses, OneByOne]
    omega
  | _ => exact ⟨fun _ => trivial, fun _ => rfl⟩

/-! ## Whole runs -/

theorem run_lost (es : List AsyncEvent) : ∀ s : Async, 0 ≤ s.lost →
    (final step s es).lost = s.lost + ((taken step s es).map (fun p => loses p.2)).sum := by
  induction es with
  | nil =>
    intro s _
    simp [final, taken]
  | cons e es ih =>
    intro s hs
    cases he : s.step e with
    | none =>
      rw [final_none he, taken_none he]
      simp
    | some t =>
      have hlost := step_lost hs he
      rw [final_some he, taken_some he, ih t (by omega), hlost, List.map_cons, List.sum_cons]
      push_cast
      ring

theorem run_loses {s : Async} {es : List AsyncEvent} :
    ((taken step s es).map (fun p => loses p.2)).sum = 0 ↔ ∀ p ∈ taken step s es, OneByOne p.2 := by
  have hone : ∀ p ∈ taken step s es, (loses p.2 = 0 ↔ OneByOne p.2) := by
    intro p hp
    obtain ⟨t, ht⟩ := taken_enabled es s p hp
    exact step_loses ht
  rw [List.sum_eq_zero_iff]
  simp only [List.mem_map, forall_exists_index, and_imp, forall_apply_eq_imp_iff₂]
  exact forall₂_congr hone

theorem Quiet.held (hq : s.Quiet) : s.held = s.vars := by
  obtain ⟨hc, hf, ha, hn⟩ := hq
  simp [Async.held, names, argument, hc, hf, ha, hn]

theorem vars_le_refs (hs : 0 ≤ s.lost) : s.vars ≤ s.refs := by
  unfold lost held names at hs
  omega

/-- Nothing is left behind when nothing is on its way, and no variable is without
its reference. -/
def Balanced (s : Async) : Prop := s.vars ≤ s.refs ∧ (s.Quiet → s.refs = s.vars)

theorem balanced_of_lost (hs : s.lost = 0) : s.Balanced := by
  refine ⟨vars_le_refs hs.ge, fun hq => ?_⟩
  rw [lost, hq.held] at hs
  omega

end Async

/-- A run of sends that libuv answers one by one leaves no reference behind, and
whether one was left behind shows when everything is quiet. -/
theorem async_sends_balanced (es : List AsyncEvent) :
    (∀ s ∈ visited Async.step Async.init es, s.vars ≤ s.refs) ∧
    ((∀ p ∈ taken Async.step Async.init es, Async.OneByOne p.2) →
      ∀ s ∈ visited Async.step Async.init es, s.Balanced) ∧
    ((final Async.step Async.init es).Quiet →
      ((final Async.step Async.init es).Balanced ↔
        ∀ p ∈ taken Async.step Async.init es, Async.OneByOne p.2)) := by
  refine ⟨?_, ?_, ?_⟩
  · intro s hs
    apply Async.vars_le_refs
    refine visited_invariant (I := fun s : Async => 0 ≤ s.lost) ?_ es _ le_rfl s hs
    intro s e t hs h
    have hlost := Async.step_lost hs h
    omega
  · have hstep : ∀ (s : Async) e t, s.lost = 0 → Async.OneByOne e → s.step e = some t → t.lost = 0 := by
      intro s e t hs hone h
      rw [Async.step_lost hs.ge h, hs, (Async.step_loses h).mpr hone]
      rfl
    intro hok s hs
    apply Async.balanced_of_lost
    exact visited_guarded hstep es _ rfl hok s hs
  · intro hq
    have hrun := Async.run_lost es Async.init le_rfl
    rw [← Async.run_loses]
    constructor
    · rintro ⟨_, hrefs⟩
      rw [Async.lost, hq.held, hrefs hq, sub_self] at hrun
      have hz : Async.init.lost = 0 := rfl
      omega
    · intro hz
      apply Async.balanced_of_lost
      rw [hrun, hz]
      rfl

/-- Two events that libuv answers with one call. -/
def coalesced : List AsyncEvent :=
  [.send, .asyncSend 0, .send, .asyncSend 0, .deliver 2, .callbackEnd]

theorem async_reference_left : ¬ ∀ es : List AsyncEvent,
    ∀ s ∈ visited Async.step Async.init es, s.Balanced := by
  intro h
  have hrun := h coalesced
  simp only [Async.Balanced, Async.Quiet] at hrun
  revert hrun
  decide

end Uvcc.Watchers
