import Uvcc.Machine.Trace
import Uvcc.Counting.Counter

/-!
# The extra reference of a timer

A started timer refers to itself; `has_extra_ref` says so. When a timer that does
not repeat expires, `timer_cb` gives the reference up after the user callback and
leaves the flag as it is. A callback is two events, its call and its return.
-/
namespace Uvcc.Watchers
open Counting Machine

/-- A running timer callback: whether `timer_cb` has a guard that will release a
reference, and whether the handle argument still refers to the instance. -/
structure TimerFrame where
  guarded : Bool
  arg : Bool
  deriving DecidableEq, Repr

/-- The instance with its properties, the variables that refer to it, and libuv's
side of the timer. The intervals are only compared with zero. -/
structure Timer extends Counter where
  hasExtraRef : Bool
  uvError : ℤ
  active : Bool
  repeatInterval : ℕ
  vars : ℕ
  frame : Option TimerFrame
  deriving DecidableEq, Repr

inductive TimerEvent where
  | copy
  | drop
  | moveArg
  | start (timeout : ℕ) (ret : ℤ)
  | stop
  | setRepeat (value : ℕ)
  | expire
  | callbackEnd
  deriving DecidableEq, Repr

namespace Timer

def init (interval : ℕ) : Timer where
  toCounter := .of 1
  hasExtraRef := false
  uvError := 0
  active := false
  repeatInterval := interval
  vars := 1
  frame := none

def argument (s : Timer) : Bool := s.frame.any TimerFrame.arg

def names (s : Timer) : ℕ := s.vars + s.argument.toNat

def ref (s : Timer) : Timer := { s with toCounter := s.toCounter.inc }

def unref (s : Timer) : Timer := { s with toCounter := s.toCounter.dec }

/-- `timer::start`; a `uv_timer_start` that fails leaves the libuv timer alone. -/
def start (s : Timer) (ret : ℤ) : Timer :=
  let s' := if s.hasExtraRef then s else { s.ref with hasExtraRef := true }
  if ret < 0 then { s' with uvError := ret, hasExtraRef := false }.unref
  else { s' with uvError := 0, active := true }

def stop (s : Timer) : Timer :=
  let s' := { s with active := false, uvError := 0 }
  if s'.hasExtraRef then { s' with hasExtraRef := false }.unref else s'

/-- Libuv stops the expired timer and starts it again if it repeats; then comes
the part of `timer_cb` before the user callback. -/
def expire (s : Timer) : Timer :=
  { s.ref with
    active := decide (s.repeatInterval ≠ 0)
    frame := some ⟨decide (s.repeatInterval = 0) && s.hasExtraRef, true⟩ }

/-- The argument goes first, then the guard. -/
def callbackEnd (s : Timer) (f : TimerFrame) : Timer :=
  let s' := if f.arg then s.unref else s
  { (if f.guarded then s'.unref else s') with frame := none }

def step (s : Timer) : TimerEvent → Option Timer
  | .copy => if s.names = 0 then none else some { s.ref with vars := s.vars + 1 }
  | .drop => if s.vars = 0 then none else some { s.unref with vars := s.vars - 1 }
  | .moveArg => match s.frame with
    | some f => if f.arg then some { s with frame := some { f with arg := false }, vars := s.vars + 1 }
      else none
    | none => none
  | .start _ ret => if s.names = 0 then none else some (s.start ret)
  | .stop => if s.names = 0 then none else some s.stop
  | .setRepeat value => if s.names = 0 then none else some { s with repeatInterval := value }
  | .expire => if s.active = true ∧ s.frame = none then some s.expire else none
  | .callbackEnd => s.frame.map s.callbackEnd

def extra (s : Timer) : ℤ := s.refs - s.vars - s.argument.toNat

def wanted (s : Timer) : ℤ := if s.active then 1 else 0

/-- The timer never gave up a reference it did not hold, does not run without one,
and outside of callbacks has one exactly while it is active. -/
def Exact (s : Timer) : Prop :=
  0 ≤ s.extra ∧ (s.active = true → 1 ≤ s.extra) ∧ (s.frame = none → s.extra = s.wanted)

instance (s : Timer) : Decidable (Exact s) := inferInstanceAs (Decidable (_ ∧ (_ → _) ∧ (_ → _)))

/-- The flag of an expired one-shot timer speaks of a reference that is gone. -/
def Stale (s : Timer) : Prop := s.frame = none ∧ s.hasExtraRef = true ∧ s.active = false

/-- A stale timer is neither started nor stopped, the callback of a one-shot timer
does neither, and no start of an active timer fails. -/
def KeepsExact (s : Timer) : TimerEvent → Prop
  | .start _ ret => ¬ s.Stale ∧ (ret < 0 → s.active = false)
  | .stop => ¬ s.Stale
  | .callbackEnd => ∀ f ∈ s.frame, f.guarded = true → s.hasExtraRef = true ∧ s.active = false
  | _ => True

/-! ## The invariant -/

def Agrees (s : Timer) : Prop := s.hasExtraRef = s.active ∧ s.extra = s.wanted

/-- Outside of a callback all agree or the flag is stale; inside, all agree, or the
timer is a one-shot that nobody has touched since it expired. -/
def Inv (s : Timer) : Prop :=
  match s.frame with
  | none => s.Agrees ∨ (s.hasExtraRef = true ∧ s.active = false ∧ s.extra = 0)
  | some f => s.Agrees ∨ (f.guarded = true ∧ s.hasExtraRef = true ∧ s.active = false ∧ s.extra = 1)

variable {s t : Timer}

theorem Inv.exact (h : s.Inv) : s.Exact := by
  unfold Inv at h
  unfold Exact
  cases hf : s.frame with
  | none =>
    rw [hf] at h
    rcases h with ⟨_, he⟩ | ⟨_, ha, he⟩
    · unfold wanted at he ⊢
      cases ha : s.active <;> simp [ha] at he ⊢ <;> omega
    · simp [ha, he, wanted]
  | some f =>
    rw [hf] at h
    rcases h with ⟨_, he⟩ | ⟨_, _, ha, he⟩
    · unfold wanted at he
      cases ha : s.active <;> simp [ha] at he ⊢ <;> omega
    · simp [ha, he]

theorem Inv.refs_ne_zero (h : s.Inv) (hn : s.names ≠ 0 ∨ s.active = true) : s.refs ≠ 0 := by
  have he := h.exact
  have hx : s.extra = s.refs - s.vars - s.argument.toNat := rfl
  rcases hn with hn | ha
  · have h0 := he.1
    unfold names at hn
    omega
  · have h1 := he.2.1 ha
    omega

/-- The invariant follows from the parts of the state that a step leaves alone. -/
theorem Inv.congr (h : s.Inv) (hc : t.hasExtraRef = s.hasExtraRef) (ha : t.active = s.active)
    (he : t.extra = s.extra) (hf : t.frame.map TimerFrame.guarded = s.frame.map TimerFrame.guarded) :
    t.Inv := by
  have hw : t.wanted = s.wanted := by rw [wanted, wanted, ha]
  unfold Inv Agrees at h ⊢
  rw [hc, ha, he, hw]
  cases hs : s.frame with
  | none =>
    cases ht : t.frame with
    | none => rwa [hs] at h
    | some g => simp [hs, ht] at hf
  | some f =>
    cases ht : t.frame with
    | none => simp [hs, ht] at hf
    | some g =>
      rw [hs, ht] at hf
      rw [hs] at h
      have hg : g.guarded = f.guarded := Option.some.inj hf
      dsimp only at h ⊢
      rwa [hg]

/-! ## What each call does to the account -/

theorem ref_extra (h : s.refs ≠ 0) (v : ℕ) :
    ({ s.ref with vars := v } : Timer).extra = s.extra + 1 + s.vars - v := by
  have hi := Counter.inc_refs h
  simp only [extra, ref, hi, argument]
  ring

theorem start_spec (h : s.refs ≠ 0) (ret : ℤ) :
    (s.start ret).extra = s.extra + (if s.hasExtraRef then 0 else 1) - (if ret < 0 then 1 else 0) ∧
    (s.start ret).hasExtraRef = decide (0 ≤ ret) ∧
    (s.start ret).active = (if ret < 0 then s.active else true) ∧
    (s.start ret).frame = s.frame := by
  have hi := Counter.inc_refs h
  unfold start
  by_cases hr : ret < 0 <;> cases hx : s.hasExtraRef <;>
    simp [hr, hx, extra, ref, unref, argument, hi] <;> omega

theorem stop_spec (s : Timer) :
    s.stop.extra = s.extra - (if s.hasExtraRef then 1 else 0) ∧ s.stop.hasExtraRef = false ∧
    s.stop.active = false ∧ s.stop.frame = s.frame := by
  unfold stop
  cases s.hasExtraRef <;> simp [extra, unref, argument]
  omega

theorem callbackEnd_spec {f : TimerFrame} (hf : s.frame = some f) :
    (s.callbackEnd f).extra = s.extra - (if f.guarded then 1 else 0) ∧
    (s.callbackEnd f).hasExtraRef = s.hasExtraRef ∧ (s.callbackEnd f).active = s.active ∧
    (s.callbackEnd f).frame = none := by
  unfold callbackEnd
  cases ha : f.arg <;> cases hg : f.guarded <;>
    simp [ha, extra, unref, argument, hf] <;> omega

theorem expire_spec (h : s.refs ≠ 0) (hf : s.frame = none) :
    s.expire.extra = s.extra ∧ s.expire.hasExtraRef = s.hasExtraRef ∧
    s.expire.active = decide (s.repeatInterval ≠ 0) ∧
    s.expire.frame = some ⟨decide (s.repeatInterval = 0) && s.hasExtraRef, true⟩ := by
  have hi := Counter.inc_refs h
  refine ⟨?_, rfl, rfl, rfl⟩
  simp [expire, extra, ref, hi, argument, hf]
  ring

/-! ## Starts and stops -/

/-- The three situations a command can find the timer in. -/
theorem Inv.cases (h : s.Inv) : s.Agrees ∨ (s.Stale ∧ s.extra = 0) ∨
    (s.frame ≠ none ∧ s.hasExtraRef = true ∧ s.active = false ∧ s.extra = 1) := by
  unfold Inv at h
  cases hf : s.frame with
  | none =>
    rw [hf] at h
    rcases h with h | ⟨hx, ha, he⟩
    · exact .inl h
    · exact .inr (.inl ⟨⟨hf, hx, ha⟩, he⟩)
  | some f =>
    rw [hf] at h
    rcases h with h | ⟨_, hx, ha, he⟩
    · exact .inl h
    · exact .inr (.inr ⟨by simp, hx, ha, he⟩)

theorem Agrees.inv (h : s.Agrees) : s.Inv := by
  unfold Inv
  cases s.frame with
  | none => exact .inl h
  | some f => exact .inl h

theorem Agrees.not_stale (h : s.Agrees) : ¬ s.Stale := by
  rintro ⟨_, hx, ha⟩
  have hc := h.1
  rw [hx, ha] at hc
  cases hc

/-- A timer that runs without a reference, or has given up one too many. -/
theorem not_exact (h : s.extra < 0 ∨ (s.active = true ∧ s.extra = 0)) : ¬ s.Exact := by
  rintro ⟨h0, h1, _⟩
  rcases h with h | ⟨ha, he⟩
  · omega
  · have := h1 ha
    omega

theorem start_agrees (hr : s.refs ≠ 0) {ret : ℤ} (h : s.Agrees) (hret : ret < 0 → s.active = false) :
    (s.start ret).Agrees := by
  obtain ⟨he, hx, ha, _⟩ := start_spec hr ret
  obtain ⟨hflag, hcount⟩ := h
  unfold wanted at hcount
  rw [← hflag] at hcount
  unfold Agrees wanted
  rw [he, hx, ha, hcount]
  by_cases hneg : ret < 0
  · have hn : ¬ 0 ≤ ret := by omega
    have hoff := hret hneg
    simp [hneg, hn, hoff, hflag]
  · have hn : 0 ≤ ret := by omega
    cases s.hasExtraRef <;> simp [hneg, hn]

theorem start_untouched (hr : s.refs ≠ 0) (ret : ℤ) (hflag : s.hasExtraRef = true)
    (hact : s.active = false) (hcount : s.extra = 1) : (s.start ret).Agrees := by
  obtain ⟨he, hx, ha, _⟩ := start_spec hr ret
  unfold Agrees wanted
  rw [he, hx, ha, hcount]
  by_cases hneg : ret < 0
  · have hn : ¬ 0 ≤ ret := by omega
    simp [hneg, hn, hflag, hact]
  · have hn : 0 ≤ ret := by omega
    simp [hneg, hn, hflag]

theorem start_fails_active (hr : s.refs ≠ 0) {ret : ℤ} (h : s.Agrees) (hneg : ret < 0)
    (hact : s.active = true) : ¬ (s.start ret).Exact := by
  obtain ⟨he, _, ha, _⟩ := start_spec hr ret
  obtain ⟨hflag, hcount⟩ := h
  rw [hact] at hflag
  rw [wanted, hact] at hcount
  refine not_exact (.inr ⟨by rw [ha, if_pos hneg, hact], ?_⟩)
  rw [he, hcount, hflag, if_pos hneg]
  decide

theorem start_stale (hr : s.refs ≠ 0) (ret : ℤ) (h : s.Stale) (hcount : s.extra = 0) :
    ¬ (s.start ret).Exact := by
  obtain ⟨he, _, ha, _⟩ := start_spec hr ret
  rw [hcount, h.2.1] at he
  by_cases hneg : ret < 0
  · refine not_exact (.inl ?_)
    rw [he, if_pos hneg]
    decide
  · refine not_exact (.inr ⟨by rw [ha, if_neg hneg], ?_⟩)
    rw [he, if_neg hneg]
    decide

theorem stop_agrees (h : s.Agrees ∨ (s.hasExtraRef = true ∧ s.extra = 1)) : s.stop.Agrees := by
  obtain ⟨he, hx, ha, _⟩ := stop_spec s
  unfold Agrees wanted
  rw [he, hx, ha]
  rcases h with ⟨hflag, hcount⟩ | ⟨hflag, hcount⟩
  · rw [wanted, ← hflag] at hcount
    simp [hcount]
  · simp [hflag, hcount]

theorem stop_stale (h : s.Stale) (hcount : s.extra = 0) : ¬ s.stop.Exact := by
  obtain ⟨he, _, _, _⟩ := stop_spec s
  refine not_exact (.inl ?_)
  rw [he, hcount, h.2.1]
  decide

/-! ## One step -/

theorem start_step (hs : s.Inv) (hn : s.names ≠ 0) (timeout : ℕ) (ret : ℤ) :
    (KeepsExact s (.start timeout ret) → (s.start ret).Inv) ∧
      (¬ KeepsExact s (.start timeout ret) → ¬ (s.start ret).Exact) := by
  have hr := hs.refs_ne_zero (.inl hn)
  rcases hs.cases with h | ⟨h, he⟩ | ⟨hf, hx, ha, he⟩
  · refine ⟨fun hok => (start_agrees hr h hok.2).inv, fun hbad => ?_⟩
    have hneg : ¬ (ret < 0 → s.active = false) := fun himp => hbad ⟨h.not_stale, himp⟩
    rw [Classical.not_imp, Bool.not_eq_false] at hneg
    exact start_fails_active hr h hneg.1 hneg.2
  · exact ⟨fun hok => absurd h hok.1, fun _ => start_stale hr ret h he⟩
  · have hk := start_untouched hr ret hx ha he
    exact ⟨fun _ => hk.inv, fun hbad => absurd ⟨fun hst => hf hst.1, fun _ => ha⟩ hbad⟩

theorem stop_step (hs : s.Inv) :
    (KeepsExact s .stop → s.stop.Inv) ∧ (¬ KeepsExact s .stop → ¬ s.stop.Exact) := by
  rcases hs.cases with h | ⟨h, he⟩ | ⟨hf, hx, ha, he⟩
  · exact ⟨fun _ => (stop_agrees (.inl h)).inv, fun hbad => absurd h.not_stale hbad⟩
  · exact ⟨fun hok => absurd h hok, fun _ => stop_stale h he⟩
  · have hk := stop_agrees (.inr ⟨hx, he⟩)
    exact ⟨fun _ => hk.inv, fun hbad => absurd (fun hst : s.Stale => hf hst.1) hbad⟩

/-- The end of a callback: the guard of a one-shot releases what the flag still
claims, and a command inside the callback has used it up already. -/
theorem callbackEnd_step {f : TimerFrame} (hs : s.Inv) (hf : s.frame = some f) :
    (KeepsExact s .callbackEnd → (s.callbackEnd f).Inv) ∧
      (¬ KeepsExact s .callbackEnd → ¬ (s.callbackEnd f).Exact) := by
  obtain ⟨he, hx, ha, hfr⟩ := callbackEnd_spec hf
  have hk : KeepsExact s .callbackEnd ↔
      (f.guarded = true → s.hasExtraRef = true ∧ s.active = false) := by
    simp [KeepsExact, hf]
  have hi := hs
  unfold Inv at hi
  rw [hf] at hi
  dsimp only at hi
  rw [hk]
  cases hg : f.guarded with
  | false =>
    rw [hg] at he hi
    have hag : s.Agrees := by simpa using hi
    refine ⟨fun _ => Agrees.inv ⟨by rw [hx, ha]; exact hag.1, ?_⟩, fun hbad => absurd (by simp) hbad⟩
    rw [he, wanted, ha]
    simpa [wanted] using hag.2
  | true =>
    rw [hg] at he hi
    rcases hi with hag | ⟨_, hflag, hact, hcount⟩
    · refine ⟨fun hok => ?_, fun _ => not_exact ?_⟩
      · obtain ⟨h1, h2⟩ := hok rfl
        have hc := hag.1
        rw [h1, h2] at hc
        cases hc
      · have hc := hag.2
        unfold wanted at hc
        rw [he, hc, ha]
        cases s.active <;> simp
    · refine ⟨fun _ => ?_, fun hbad => absurd (fun _ => ⟨hflag, hact⟩) hbad⟩
      unfold Inv
      rw [hfr]
      exact .inr ⟨hx.trans hflag, ha.trans hact, by rw [he, hcount]; rfl⟩

theorem expire_inv (hs : s.Inv) (hact : s.active = true) (hf : s.frame = none) : s.expire.Inv := by
  obtain ⟨he, hx, ha, hfr⟩ := expire_spec (hs.refs_ne_zero (.inr hact)) hf
  have hag : s.Agrees := by
    rcases hs.cases with h | ⟨h, _⟩ | ⟨_, _, h, _⟩
    · exact h
    · rw [h.2.2] at hact; cases hact
    · rw [h] at hact; cases hact
  have hflag : s.hasExtraRef = true := hag.1.trans hact
  have hcount : s.extra = 1 := by rw [hag.2, wanted, hact]; rfl
  unfold Inv
  rw [hfr]
  by_cases hz : s.repeatInterval = 0
  · exact .inr ⟨by simp [hz, hflag], hx.trans hflag, by simp [ha, hz], he.trans hcount⟩
  · refine .inl ⟨by simp [hx, ha, hflag, hz], ?_⟩
    rw [he, hcount, wanted, ha]
    simp [hz]

theorem step_exact {e : TimerEvent} (hs : s.Inv) (h : s.step e = some t) :
    (KeepsExact s e → t.Inv) ∧ (¬ KeepsExact s e → ¬ t.Exact) := by
  cases e with
  | copy =>
    simp only [step, Option.ite_none_left_eq_some, Option.some.injEq] at h
    obtain ⟨hn, rfl⟩ := h
    refine ⟨fun _ => hs.congr rfl rfl ?_ rfl, fun hbad => absurd trivial hbad⟩
    rw [ref_extra (hs.refs_ne_zero (.inl hn))]
    push_cast
    ring
  | drop =>
    simp only [step, Option.ite_none_left_eq_some, Option.some.injEq] at h
    obtain ⟨hn, rfl⟩ := h
    refine ⟨fun _ => hs.congr rfl rfl ?_ rfl, fun hbad => absurd trivial hbad⟩
    simp only [extra, unref, argument, Counter.dec_refs]
    omega
  | moveArg =>
    simp only [step] at h
    cases hf : s.frame with
    | none => simp [hf] at h
    | some f =>
      simp only [hf, Option.ite_none_right_eq_some, Option.some.injEq] at h
      obtain ⟨harg, rfl⟩ := h
      refine ⟨fun _ => hs.congr rfl rfl ?_ (by simp [hf]), fun hbad => absurd trivial hbad⟩
      simp [extra, argument, hf, harg]
      ring
  | start timeout ret =>
    simp only [step, Option.ite_none_left_eq_some, Option.some.injEq] at h
    obtain ⟨hn, rfl⟩ := h
    exact start_step hs hn timeout ret
  | stop =>
    simp only [step, Option.ite_none_left_eq_some, Option.some.injEq] at h
    obtain ⟨_, rfl⟩ := h
    exact stop_step hs
  | setRepeat value =>
    simp only [step, Option.ite_none_left_eq_some, Option.some.injEq] at h
    obtain ⟨_, rfl⟩ := h
    exact ⟨fun _ => hs.congr rfl rfl rfl rfl, fun hbad => absurd trivial hbad⟩
  | expire =>
    simp only [step, Option.ite_none_right_eq_some, Option.some.injEq] at h
    obtain ⟨⟨ha, hf⟩, rfl⟩ := h
    exact ⟨fun _ => expire_inv hs ha hf, fun hbad => absurd trivial hbad⟩
  | callbackEnd =>
    obtain ⟨f, hf, rfl⟩ := Option.map_eq_some_iff.mp h
    exact callbackEnd_step hs hf

end Timer

/-- In every run of a timer the extra reference is exact exactly when an expired
one-shot timer is left alone and no start of an active timer fails. -/
theorem timer_exact_iff (interval : ℕ) (es : List TimerEvent) :
    (∀ s ∈ visited Timer.step (Timer.init interval) es, s.Exact) ↔
      ∀ p ∈ taken Timer.step (Timer.init interval) es, p.1.KeepsExact p.2 := by
  refine visited_iff_guarded (I := Timer.Inv) (fun s hs => hs.exact) ?_ ?_ es _ ?_
  · intro s e t hs hok h
    exact (Timer.step_exact hs h).1 hok
  · intro s e t hs hbad h
    exact (Timer.step_exact hs h).2 hbad
  · exact .inl ⟨rfl, rfl⟩

/-- A one-shot timer that is started again after it expired. -/
def startedTwice : List TimerEvent :=
  [.start 10 0, .expire, .callbackEnd, .start 10 0]

theorem timer_runs_unheld : ¬ ∀ (interval : ℕ) (es : List TimerEvent),
    ∀ s ∈ visited Timer.step (Timer.init interval) es, s.Exact := by
  intro h
  have hrun := h 0 startedTwice
  revert hrun
  decide

end Uvcc.Watchers
