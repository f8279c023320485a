import Uvcc.Watchers.StartStop
import Uvcc.Io.Commands

/-!
# A signal and libuv's watcher

`signal` keeps its command and its self-reference beside libuv's own `uv_signal_t`,
which knows nothing of one-shot mode and is never stopped by a restart. The two are
joined here: what a start answers depends on the signal number, and libuv delivers as
long as its watcher is active.
-/
namespace Uvcc.Watchers
open Counting Machine

/-- A signal with the number set in its properties and the one that libuv watches for. -/
structure Signal where
  watcher : Watcher
  signum : ℤ
  watched : Option ℤ
  deriving DecidableEq, Repr

/-- `startNumber` sets the number and the callback first. -/
inductive SignalEvent where
  | copy
  | drop
  | moveArg
  | setCallback (set : Bool)
  | start (ret : ℤ)
  | startNumber (signum ret : ℤ)
  | startOneshot (ret : ℤ)
  | stop (ret : ℤ)
  | deliver
  | callbackEnd
  deriving DecidableEq, Repr

/-- `uv_signal_start()`: it refuses the number 0 before it looks at the watcher, and any
other failure comes after the old watcher was stopped. -/
def uvSignalStart (watched : Option ℤ) (signum ret : ℤ) : ℤ × Option ℤ :=
  if signum = 0 then (Io.uvEINVAL, watched) else if ret < 0 then (ret, none) else (ret, some signum)

namespace Signal

def init (signum : ℤ) : Signal := ⟨Watcher.init, signum, none⟩

def command (s : Signal) (oneshot : Bool) (ret : ℤ) : Option Signal :=
  let answer := uvSignalStart s.watched s.signum ret
  (s.watcher.step .signal (.start oneshot 0 answer.1)).map fun w => ⟨w, s.signum, answer.2⟩

/-- What does not concern libuv's watcher, which is closed with the instance. -/
def keep (s : Signal) (e : WatcherEvent) : Option Signal :=
  (s.watcher.step .signal e).map fun w => ⟨w, s.signum, if w.destroyed then none else s.watched⟩

def step (s : Signal) : SignalEvent → Option Signal
  | .copy => s.keep .copy
  | .drop => s.keep .drop
  | .moveArg => s.keep .moveArg
  | .setCallback set => s.keep (.setCallback set)
  | .start ret => s.command false ret
  | .startNumber signum ret => do
    let w ← s.watcher.step .signal (.setCallback true)
    Signal.command ⟨w, signum, s.watched⟩ false ret
  | .startOneshot ret => s.command true ret
  | .stop ret => (s.keep (.stop ret)).map fun t => { t with watched := none }
  | .deliver => if s.watched.isSome ∧ s.watcher.frames = [] then s.keep (.deliver 0) else none
  | .callbackEnd => s.keep .callbackEnd

variable {s t : Signal} {e : SignalEvent}

/-! ## What a step does to the command and to the watcher -/

structure Starts (s t : Signal) (signum : ℤ) (oneshot : Bool) (ret : ℤ) : Prop where
  inv : s.watcher.Inv → t.watcher.Inv
  opcmdState : t.watcher.opcmdState = if (uvSignalStart s.watched signum ret).1 < 0 then .unknown
    else if oneshot then .startOneshot else .start
  watched : t.watched = (uvSignalStart s.watched signum ret).2
  frames : t.watcher.frames = s.watcher.frames

theorem command_starts {oneshot : Bool} {ret : ℤ} (h : s.command oneshot ret = some t) :
    Starts s t s.signum oneshot ret := by
  obtain ⟨w, hw, rfl⟩ := Option.map_eq_some_iff.mp h
  have hstart := hw
  simp only [Watcher.step, Option.ite_none_left_eq_some] at hstart
  have hwith : w = Watcher.startWith id (if oneshot then .startOneshot else .start) s.watcher
      (uvSignalStart s.watched s.signum ret).1 := by
    cases oneshot <;> exact (Option.some.inj hstart.2).symm
  obtain ⟨hcmd, _, hframes, _⟩ := Watcher.startWith_fields id
    (if oneshot then .startOneshot else .start) s.watcher (uvSignalStart s.watched s.signum ret).1
  exact ⟨fun hs => hs.step hw, by rw [hwith, hcmd], rfl, by rw [hwith, hframes]⟩

theorem startNumber_starts {signum ret : ℤ} (h : s.step (.startNumber signum ret) = some t) :
    Starts s t signum false ret := by
  simp only [step, Option.bind_eq_bind, Option.bind_eq_some_iff] at h
  obtain ⟨w, hw, ht⟩ := h
  have hstart := command_starts ht
  have hset := hw
  simp only [Watcher.step, Option.ite_none_left_eq_some, Option.some.injEq] at hset
  have hframes : w.frames = s.watcher.frames := by rw [← hset.2]
  exact ⟨fun hs => hstart.inv (hs.step hw), hstart.opcmdState, hstart.watched,
    hstart.frames.trans hframes⟩

def startArgs (s : Signal) : SignalEvent → Option (ℤ × Bool × ℤ)
  | .start ret => some (s.signum, false, ret)
  | .startNumber signum ret => some (signum, false, ret)
  | .startOneshot ret => some (s.signum, true, ret)
  | _ => none

theorem step_starts {signum ret : ℤ} {oneshot : Bool} (ha : s.startArgs e = some (signum, oneshot, ret))
    (h : s.step e = some t) : Starts s t signum oneshot ret := by
  cases e with
  | start r =>
    obtain ⟨rfl, rfl, rfl⟩ : s.signum = signum ∧ false = oneshot ∧ r = ret := by simpa [startArgs] using ha
    exact command_starts h
  | startNumber n r =>
    obtain ⟨rfl, rfl, rfl⟩ : n = signum ∧ false = oneshot ∧ r = ret := by simpa [startArgs] using ha
    exact startNumber_starts h
  | startOneshot r =>
    obtain ⟨rfl, rfl, rfl⟩ : s.signum = signum ∧ true = oneshot ∧ r = ret := by simpa [startArgs] using ha
    exact command_starts h
  | _ => cases ha

/-- `stop()`. -/
theorem step_stops {ret : ℤ} (h : s.step (.stop ret) = some t) : (s.watcher.Inv → t.watcher.Inv) ∧
    t.watcher.opcmdState = .stop ∧ t.watched = none ∧ t.watcher.frames = s.watcher.frames := by
  obtain ⟨u, hu, rfl⟩ := Option.map_eq_some_iff.mp h
  obtain ⟨w, hw, rfl⟩ := Option.map_eq_some_iff.mp hu
  have hstop := hw
  simp only [Watcher.step, Option.ite_none_left_eq_some, Option.some.injEq] at hstop
  obtain ⟨hcmd, _, hframes, _⟩ := Watcher.stopWith_fields s.watcher ret
  refine ⟨fun hs => hs.step hw, ?_, rfl, ?_⟩
  · rw [← hcmd, ← hstop.2]
    rfl
  · rw [← hframes, ← hstop.2]
    rfl

/-- `signal_cb()`; libuv's watcher stays as it is. -/
theorem step_delivers (h : s.step .deliver = some t) : s.watched.isSome = true ∧ s.watcher.frames = [] ∧
    (s.watcher.Inv → t.watcher.Inv) ∧ t.watched = s.watched ∧ t.watcher.frames.length = 1 ∧
    t.watcher.opcmdState =
      if s.watcher.opcmdState = .startOneshot then .unknown else s.watcher.opcmdState := by
  simp only [step, Option.ite_none_right_eq_some] at h
  obtain ⟨⟨hsome, hframes⟩, hk⟩ := h
  obtain ⟨w, hw, rfl⟩ := Option.map_eq_some_iff.mp hk
  have hcb := hw
  simp only [Watcher.step, Option.ite_none_left_eq_some, Option.some.injEq, Bool.not_eq_true] at hcb
  obtain ⟨hlive, rfl⟩ := hcb
  have hfields : (s.watcher.deliver .signal 0).frames.length = 1 ∧
      (s.watcher.deliver .signal 0).destroyed = false ∧
      (s.watcher.deliver .signal 0).opcmdState =
        if s.watcher.opcmdState = .startOneshot then .unknown else s.watcher.opcmdState := by
    simp only [Watcher.deliver, Watcher.signalCb, Watcher.enter]
    split_ifs <;> simp_all [Watcher.ref, Counter.inc_destroyed]
  exact ⟨hsome, hframes, fun hs => hs.step hw, by rw [hfields.2.1]; rfl, hfields.1, hfields.2.2⟩

def quiet : SignalEvent → Bool
  | .copy => true
  | .drop => true
  | .moveArg => true
  | .setCallback _ => true
  | _ => false

/-- What `keep` leaves of libuv's watcher. -/
theorem keep_watched {w : WatcherEvent} (h : s.keep w = some t) : t.watched.isSome → t.watched = s.watched := by
  obtain ⟨w, _, rfl⟩ := Option.map_eq_some_iff.mp h
  dsimp only
  split_ifs
  · exact fun h => nomatch h
  · exact fun _ => rfl

theorem keep_step {w : WatcherEvent} (h : s.keep w = some t) :
    s.watcher.step .signal w = some t.watcher := by
  obtain ⟨w, hw, rfl⟩ := Option.map_eq_some_iff.mp h
  exact hw

/-- The watcher's own step decides what changes. -/
theorem keep_quiet {w : WatcherEvent} (h : s.keep w = some t)
    (hcmd : t.watcher.opcmdState = s.watcher.opcmdState)
    (hlen : t.watcher.frames.length = s.watcher.frames.length) : (s.watcher.Inv → t.watcher.Inv) ∧
    t.watcher.opcmdState = s.watcher.opcmdState ∧ (t.watched.isSome → t.watched = s.watched) ∧
    t.watcher.frames.length = s.watcher.frames.length :=
  ⟨fun hs => hs.step (keep_step h), hcmd, keep_watched h, hlen⟩

theorem step_quiet (hq : quiet e = true) (h : s.step e = some t) : (s.watcher.Inv → t.watcher.Inv) ∧
    t.watcher.opcmdState = s.watcher.opcmdState ∧ (t.watched.isSome → t.watched = s.watched) ∧
    t.watcher.frames.length = s.watcher.frames.length := by
  cases e with
  | copy =>
    have hcopy := keep_step h
    simp only [Watcher.step, Option.ite_none_left_eq_some, Option.some.injEq] at hcopy
    refine keep_quiet h ?_ ?_
    · rw [← hcopy.2]
      rfl
    · rw [← hcopy.2]
      rfl
  | drop =>
    have hdrop := keep_step h
    simp only [Watcher.step, Option.ite_none_left_eq_some, Option.some.injEq] at hdrop
    refine keep_quiet h ?_ ?_
    · rw [← hdrop.2]
      rfl
    · rw [← hdrop.2]
      rfl
  | moveArg =>
    have hmove := keep_step h
    simp only [Watcher.step] at hmove
    cases hf : s.watcher.frames with
    | nil => simp [hf] at hmove
    | cons f frames =>
      simp only [hf, Option.ite_none_right_eq_some, Option.some.injEq] at hmove
      rw [← hf]
      refine keep_quiet h ?_ ?_
      · rw [← hmove.2]
      · rw [← hmove.2, hf]
        rfl
  | setCallback set =>
    have hset := keep_step h
    simp only [Watcher.step, Option.ite_none_left_eq_some, Option.some.injEq] at hset
    refine keep_quiet h ?_ ?_
    · rw [← hset.2]
    · rw [← hset.2]
  | _ => cases hq

/-- A callback returns; the instance may go with the references that are released. -/
theorem step_returns (h : s.step .callbackEnd = some t) : (s.watcher.Inv → t.watcher.Inv) ∧
    t.watcher.opcmdState = s.watcher.opcmdState ∧ t.watcher.vars = s.watcher.vars ∧
    t.watched = (if t.watcher.destroyed then none else s.watched) ∧
    ∃ f, s.watcher.frames = f :: t.watcher.frames := by
  have hw := keep_step h
  have hend := hw
  simp only [Watcher.step] at hend
  cases hf : s.watcher.frames with
  | nil => simp [hf] at hend
  | cons f frames =>
    simp only [hf, Option.some.injEq] at hend
    obtain ⟨hcmd, hvars, hframes, _⟩ := Watcher.callbackEnd_fields s.watcher f frames
    rw [hend] at hcmd hvars hframes
    obtain ⟨w, hk, rfl⟩ := Option.map_eq_some_iff.mp h
    exact ⟨fun hs => hs.step hw, hcmd, hvars, rfl, f, by rw [hframes]⟩

/-! ## An active watcher is held -/

/-- The watcher runs only under a started command, with its reference, on an instance. -/
def Held (s : Signal) : Prop := s.watched.isSome →
  s.watcher.opcmdState.started = true ∧ 1 ≤ s.watcher.extra ∧ s.watcher.destroyed = false

def Inv (s : Signal) : Prop :=
  s.watcher.Inv ∧ (s.watched.isSome → s.watcher.opcmdState.started = true)

/-- No start with the number 0 over a running watcher, and no one-shot occurrence. -/
def KeepsHold (s : Signal) (e : SignalEvent) : Prop :=
  (∀ signum oneshot ret, s.startArgs e = some (signum, oneshot, ret) → signum = 0 → s.watched = none) ∧
    (e = .deliver → s.watcher.opcmdState ≠ .startOneshot)

theorem Inv.held (hs : s.Inv) : s.Held := by
  intro hw
  have hstarted := hs.2 hw
  have hrun : s.watcher.running = 1 := by rw [Watcher.running, hstarted]; rfl
  refine ⟨hstarted, ?_, ?_⟩
  · rw [Watcher.extra_eq hs.1, hrun]
    omega
  · apply hs.1.alive
    unfold Watcher.total
    omega

theorem inv_init (signum : ℤ) : (init signum).Inv := ⟨Watcher.inv_init, fun h => nomatch h⟩

/-- What libuv answers tells whether its watcher runs, unless the number is 0. -/
theorem uvSignalStart_fails {watched : Option ℤ} {signum ret : ℤ}
    (h : (uvSignalStart watched signum ret).1 < 0) :
    (uvSignalStart watched signum ret).2 = if signum = 0 then watched else none := by
  unfold uvSignalStart at h ⊢
  split_ifs at h ⊢ <;> first | rfl | contradiction

theorem uvSignalStart_zero (watched : Option ℤ) (ret : ℤ) :
    uvSignalStart watched 0 ret = (Io.uvEINVAL, watched) := if_pos rfl

theorem Starts.started {signum ret : ℤ} {oneshot : Bool} (h : Starts s t signum oneshot ret) :
    t.watcher.opcmdState.started = decide (0 ≤ (uvSignalStart s.watched signum ret).1) := by
  rw [h.opcmdState]
  by_cases hfail : (uvSignalStart s.watched signum ret).1 < 0
  · rw [if_pos hfail, decide_eq_false (by omega)]
    rfl
  · rw [if_neg hfail, decide_eq_true (by omega)]
    cases oneshot <;> rfl

theorem Inv.starts (hs : s.Inv) {signum ret : ℤ} {oneshot : Bool} (h : Starts s t signum oneshot ret)
    (hnum : signum = 0 → s.watched = none) : t.Inv := by
  refine ⟨h.inv hs.1, fun hw => ?_⟩
  rw [h.started, decide_eq_true_iff]
  by_contra hfail
  rw [h.watched, uvSignalStart_fails (by omega)] at hw
  split_ifs at hw with hzero
  · rw [hnum hzero] at hw
    cases hw
  · cases hw

theorem Inv.step (hs : s.Inv) (hok : s.KeepsHold e) (h : s.step e = some t) : t.Inv := by
  cases e with
  | start ret => exact hs.starts (step_starts rfl h) (hok.1 _ _ _ rfl)
  | startNumber signum ret => exact hs.starts (step_starts rfl h) (hok.1 _ _ _ rfl)
  | startOneshot ret => exact hs.starts (step_starts rfl h) (hok.1 _ _ _ rfl)
  | stop ret =>
    obtain ⟨hinv, _, hw, _⟩ := step_stops h
    refine ⟨hinv hs.1, fun hsome => ?_⟩
    rw [hw] at hsome
    cases hsome
  | deliver =>
    obtain ⟨_, _, hinv, hw, _, hcmd⟩ := step_delivers h
    rw [if_neg (hok.2 rfl)] at hcmd
    refine ⟨hinv hs.1, fun hsome => ?_⟩
    rw [hcmd]
    exact hs.2 (hw ▸ hsome)
  | callbackEnd =>
    obtain ⟨hinv, hcmd, _⟩ := step_returns h
    refine ⟨hinv hs.1, fun hsome => ?_⟩
    rw [hcmd]
    exact hs.2 (keep_watched h hsome ▸ hsome)
  | _ =>
    obtain ⟨hinv, hcmd, hw, _⟩ := step_quiet rfl h
    refine ⟨hinv hs.1, fun hsome => ?_⟩
    rw [hcmd]
    exact hs.2 (hw hsome ▸ hsome)

/-- A step that misses the condition leaves a running watcher without a started command. -/
theorem not_held (hok : ¬ s.KeepsHold e) (h : s.step e = some t) : ¬ t.Held := by
  intro hheld
  refine hok ⟨fun signum oneshot ret ha hzero => ?_, fun he hone => ?_⟩
  · have hstart := step_starts ha h
    subst hzero
    have hcmd := hstart.opcmdState
    have hw := hstart.watched
    rw [uvSignalStart_zero] at hcmd hw
    by_contra hsome
    have hstarted := (hheld (by rw [hw]; exact Option.isSome_iff_ne_none.mpr hsome)).1
    rw [hcmd] at hstarted
    revert hstarted
    simp [Io.uvEINVAL, Opcmd.started]
  · subst he
    obtain ⟨hsome, _, _, hw, _, hcmd⟩ := step_delivers h
    have hstarted := (hheld (hw ▸ hsome)).1
    rw [hcmd, if_pos hone] at hstarted
    cases hstarted

end Signal

/-- In every run an active watcher is held exactly as long as no start with the signal
number 0 comes while it runs, and no one-shot occurrence is delivered. -/
theorem signal_held_iff (signum : ℤ) (es : List SignalEvent) :
    (∀ s ∈ visited Signal.step (Signal.init signum) es, s.Held) ↔
      ∀ p ∈ taken Signal.step (Signal.init signum) es, p.1.KeepsHold p.2 :=
  visited_iff_guarded (fun _ hs => Signal.Inv.held hs) (fun _ _ _ hs hok h => Signal.Inv.step hs hok h)
    (fun _ _ _ _ hok h => Signal.not_held hok h) es _ (Signal.inv_init signum)

instance : DecidablePred Signal.Held := fun s => by unfold Signal.Held; infer_instance

def restartedForZero : List SignalEvent := [.start 0, .startNumber 0 0]

/-- libuv refuses, keeps the old watcher active, and its reference is gone. -/
theorem signal_left_unheld :
    ¬ ∀ (signum : ℤ) (es : List SignalEvent),
      ∀ s ∈ visited Signal.step (Signal.init signum) es, s.Held := by
  intro h
  have hheld := h 5 restartedForZero _ (final_visited _ _)
  revert hheld
  decide

end Uvcc.Watchers
