import Uvcc.Machine.Trace
import Uvcc.Counting.Counter

/-!
# Watchers that are started and stopped

`idle`, `prepare`, `check`, `poll`, `fs_event` and `signal` keep what they have been
told in `opcmd_state`, and a reference to themselves while it says that they are
started. Their functions are copies of one pattern, given first; a signal has a mode
in which its callback stops the watcher.
-/
namespace Uvcc.Watchers
open Counting Machine

inductive WatcherKind where
  | idle
  | prepare
  | check
  | poll
  | fsEvent
  | signal
  deriving DecidableEq, Repr

inductive Opcmd where
  | unknown
  | stop
  | start
  | startOneshot
  deriving DecidableEq, Repr

namespace Opcmd

def started : Opcmd → Bool
  | .unknown => false
  | .stop => false
  | .start => true
  | .startOneshot => true

end Opcmd

/-- A running callback: whether a guard releases a reference at its end, and whether
the handle argument still refers to the instance. -/
structure WatcherFrame where
  guarded : Bool
  arg : Bool
  deriving DecidableEq, Repr

/-- The instance with its properties, the variables and the running callbacks. -/
structure Watcher extends Counter where
  opcmdState : Opcmd
  uvError : ℤ
  callback : Bool
  vars : ℕ
  frames : List WatcherFrame
  deriving DecidableEq, Repr

/-- What libuv answers is part of the event; a restart of `fs_event` asks twice. -/
inductive WatcherEvent where
  | copy
  | drop
  | moveArg
  | setCallback (set : Bool)
  | start (oneshot : Bool) (stopRet ret : ℤ)
  | stop (ret : ℤ)
  | deliver (status : ℤ)
  | callbackEnd
  deriving DecidableEq, Repr

namespace Watcher

def init : Watcher where
  toCounter := .of 1
  opcmdState := .unknown
  uvError := 0
  callback := false
  vars := 1
  frames := []

def ref (s : Watcher) : Watcher := { s with toCounter := s.toCounter.inc }

def unref (s : Watcher) : Watcher := { s with toCounter := s.toCounter.dec }

/-! ## The pattern -/

/-- The new reference is taken before the one of an earlier start goes, and goes
itself if libuv fails; a restart may change the recorded error first. -/
def startWith (onRestart : ℤ → ℤ) (cmd : Opcmd) (s : Watcher) (ret : ℤ) : Watcher :=
  let s1 := { s with opcmdState := cmd }.ref
  let s2 := if s.opcmdState.started then { s1 with uvError := onRestart s1.uvError }.unref else s1
  let s3 := { s2 with uvError := 0 }
  if ret < 0 then { s3 with uvError := ret, opcmdState := .unknown }.unref else s3

def stopWith (s : Watcher) (ret : ℤ) : Watcher :=
  let s1 := { s with opcmdState := .stop, uvError := ret }
  if s.opcmdState.started then s1.unref else s1

/-- The call of the user callback, which has the handle as its argument. -/
def enter (s : Watcher) (guarded : Bool) : Watcher :=
  let s1 := { s with frames := ⟨guarded, s.callback⟩ :: s.frames }
  if s.callback then s1.ref else s1

/-! ## The watchers -/

def idleStart (s : Watcher) (ret : ℤ) : Watcher := startWith id .start s ret
def idleStop (s : Watcher) (ret : ℤ) : Watcher := s.stopWith ret
def idleCb (s : Watcher) : Watcher := s.enter false

def prepareStart (s : Watcher) (ret : ℤ) : Watcher := startWith id .start s ret
def prepareStop (s : Watcher) (ret : ℤ) : Watcher := s.stopWith ret
def prepareCb (s : Watcher) : Watcher := s.enter false

def checkStart (s : Watcher) (ret : ℤ) : Watcher := startWith id .start s ret
def checkStop (s : Watcher) (ret : ℤ) : Watcher := s.stopWith ret
def checkCb (s : Watcher) : Watcher := s.enter false

def pollStart (s : Watcher) (ret : ℤ) : Watcher := startWith id .start s ret
def pollStop (s : Watcher) (ret : ℤ) : Watcher := s.stopWith ret
def pollCb (s : Watcher) (status : ℤ) : Watcher := { s with uvError := status }.enter false

/-- A restart stops the libuv handle first. -/
def fsEventStart (s : Watcher) (stopRet ret : ℤ) : Watcher :=
  startWith (fun _ => stopRet) .start s ret
def fsEventStop (s : Watcher) (ret : ℤ) : Watcher := s.stopWith ret
def fsEventCb (s : Watcher) (status : ℤ) : Watcher := { s with uvError := status }.enter false

/-- `start()` and `start_oneshot()`; any other command throws. -/
def signalStart (s : Watcher) (cmd : Opcmd) (ret : ℤ) : Option Watcher :=
  if cmd.started then some (startWith id cmd s ret) else none
def signalStop (s : Watcher) (ret : ℤ) : Watcher := s.stopWith ret

/-- A one-shot signal is stopped before its callback, and a guard has its reference. -/
def signalCb (s : Watcher) : Watcher :=
  if s.opcmdState = .startOneshot then { s with opcmdState := .unknown }.enter true
  else s.enter false

def start (k : WatcherKind) (s : Watcher) (oneshot : Bool) (stopRet ret : ℤ) : Option Watcher :=
  match k with
  | .idle => if oneshot then none else some (s.idleStart ret)
  | .prepare => if oneshot then none else some (s.prepareStart ret)
  | .check => if oneshot then none else some (s.checkStart ret)
  | .poll => if oneshot then none else some (s.pollStart ret)
  | .fsEvent => if oneshot then none else some (s.fsEventStart stopRet ret)
  | .signal => s.signalStart (if oneshot then .startOneshot else .start) ret

def stop (k : WatcherKind) (s : Watcher) (ret : ℤ) : Watcher :=
  match k with
  | .idle => s.idleStop ret
  | .prepare => s.prepareStop ret
  | .check => s.checkStop ret
  | .poll => s.pollStop ret
  | .fsEvent => s.fsEventStop ret
  | .signal => s.signalStop ret

def deliver (k : WatcherKind) (s : Watcher) (status : ℤ) : Watcher :=
  match k with
  | .idle => s.idleCb
  | .prepare => s.prepareCb
  | .check => s.checkCb
  | .poll => s.pollCb status
  | .fsEvent => s.fsEventCb status
  | .signal => s.signalCb

/-- The end of the innermost callback: the argument goes first, then the guard. -/
def callbackEnd (s : Watcher) (f : WatcherFrame) (frames : List WatcherFrame) : Watcher :=
  let s1 := { s with frames := frames }
  let s2 := if f.arg then s1.unref else s1
  if f.guarded then s2.unref else s2

def arguments (s : Watcher) : ℕ := s.frames.countP WatcherFrame.arg

def names (s : Watcher) : ℕ := s.vars + s.arguments

/-- One-shot callbacks that are about to release a reference. -/
def guards (s : Watcher) : ℕ := s.frames.countP WatcherFrame.guarded

/-- libuv may call back as long as there is an instance. -/
def step (k : WatcherKind) (s : Watcher) : WatcherEvent → Option Watcher
  | .copy => if s.names = 0 then none else some { s.ref with vars := s.vars + 1 }
  | .drop => if s.vars = 0 then none else some { s.unref with vars := s.vars - 1 }
  | .moveArg => match s.frames with
    | f :: frames =>
      if f.arg then some { s with frames := { f with arg := false } :: frames, vars := s.vars + 1 }
      else none
    | [] => none
  | .setCallback set => if s.names = 0 then none else some { s with callback := set }
  | .start oneshot stopRet ret => if s.names = 0 then none else s.start k oneshot stopRet ret
  | .stop ret => if s.names = 0 then none else some (s.stop k ret)
  | .deliver status => if s.destroyed then none else some (s.deliver k status)
  | .callbackEnd => match s.frames with
    | f :: frames => some (s.callbackEnd f frames)
    | [] => none

/-! ## What the references are for -/

/-- The references that are neither a variable nor a callback argument. -/
def extra (s : Watcher) : ℤ := s.refs - s.names

def running (s : Watcher) : ℕ := s.opcmdState.started.toNat

/-- One extra reference while started, and those of the one-shot callbacks; the
instance is there as long as it has a name. -/
structure HoldsOne (s : Watcher) : Prop where
  outside : s.frames = [] → s.extra = s.running
  extra : s.extra = s.running + s.guards
  alive : s.names ≠ 0 → s.destroyed = false
  fault : s.fault = false

def total (s : Watcher) : ℕ := s.names + s.running + s.guards

def Inv (s : Watcher) : Prop := s.toCounter.Holds s.total

variable {s t : Watcher} {k : WatcherKind}

theorem Inv.holdsOne (hs : s.Inv) : s.HoldsOne where
  outside hf := by
    have hr := hs.refs
    simp only [Watcher.extra, total, guards, hf, List.countP_nil] at hr ⊢
    omega
  extra := by
    have hr := hs.refs
    simp only [Watcher.extra, total] at hr ⊢
    omega
  alive hn := by
    apply hs.alive
    unfold total
    omega
  fault := hs.fault

theorem inv_init : init.Inv := Counter.of_holds le_rfl

/-! ## The functions -/

/-- The counter of a start between the restart and the call of libuv. -/
def restarted (s : Watcher) : Counter :=
  if s.opcmdState.started then s.toCounter.inc.dec else s.toCounter.inc

theorem restarted_holds (hs : s.Inv) (hn : s.names ≠ 0) :
    s.restarted.Holds (s.names + s.guards + 1 : ℕ) := by
  have hinc := Counter.Holds.inc hs (by unfold total; omega)
  unfold restarted
  cases hst : s.opcmdState.started with
  | true =>
    have ht : (s.total : ℤ) + 1 = (s.names + s.guards + 1 : ℕ) + 1 := by
      simp only [total, running, hst, Bool.toNat_true]
      omega
    rw [ht] at hinc
    exact hinc.dec (Int.natCast_nonneg _)
  | false =>
    have ht : (s.total : ℤ) + 1 = (s.names + s.guards + 1 : ℕ) := by
      simp only [total, running, hst, Bool.toNat_false]
      omega
    rw [ht] at hinc
    exact hinc

theorem startWith_fields (onRestart : ℤ → ℤ) (cmd : Opcmd) (s : Watcher) (ret : ℤ) :
    (startWith onRestart cmd s ret).opcmdState = (if ret < 0 then .unknown else cmd) ∧
      (startWith onRestart cmd s ret).vars = s.vars ∧
      (startWith onRestart cmd s ret).frames = s.frames ∧
      (startWith onRestart cmd s ret).toCounter = (if ret < 0 then s.restarted.dec else s.restarted) := by
  unfold startWith restarted
  by_cases hret : ret < 0 <;> cases hst : s.opcmdState.started <;> simp [hret, ref, unref]

/-- Of all the functions of a command: the reference is there if the command is. -/
structure Commanded (s t : Watcher) : Prop where
  inv : t.Inv
  names : t.names = s.names
  guards : t.guards = s.guards
  alive : t.destroyed = false

theorem startWith_commanded (hs : s.Inv) (hn : s.names ≠ 0) (onRestart : ℤ → ℤ) {cmd : Opcmd}
    (hcmd : cmd.started = true) (ret : ℤ) : s.Commanded (startWith onRestart cmd s ret) := by
  obtain ⟨hstate, hvars, hframes, hcounter⟩ := startWith_fields onRestart cmd s ret
  have hmid := restarted_holds hs hn
  have hnames : (startWith onRestart cmd s ret).names = s.names := by
    simp only [Watcher.names, arguments, hvars, hframes]
  have hguards : (startWith onRestart cmd s ret).guards = s.guards := by
    simp only [Watcher.guards, hframes]
  have hinv : (startWith onRestart cmd s ret).Inv := by
    unfold Inv total running
    rw [hnames, hguards, hstate, hcounter]
    split_ifs
    · exact hmid.dec (Int.natCast_nonneg _)
    · have ht : s.names + cmd.started.toNat + s.guards = s.names + s.guards + 1 := by
        rw [hcmd, Bool.toNat_true]
        omega
      rw [ht]
      exact hmid
  refine ⟨hinv, hnames, hguards, ?_⟩
  apply hinv.alive
  unfold total
  omega

theorem stopWith_fields (s : Watcher) (ret : ℤ) : (s.stopWith ret).opcmdState = .stop ∧
    (s.stopWith ret).vars = s.vars ∧ (s.stopWith ret).frames = s.frames ∧
    (s.stopWith ret).toCounter = (if s.opcmdState.started then s.toCounter.dec else s.toCounter) := by
  unfold stopWith
  cases s.opcmdState.started <;> simp [unref]

theorem stopWith_commanded (hs : s.Inv) (hn : s.names ≠ 0) (ret : ℤ) : s.Commanded (s.stopWith ret) := by
  obtain ⟨hstate, hvars, hframes, hcounter⟩ := stopWith_fields s ret
  have hnames : (s.stopWith ret).names = s.names := by
    simp only [Watcher.names, arguments, hvars, hframes]
  have hguards : (s.stopWith ret).guards = s.guards := by
    simp only [Watcher.guards, hframes]
  have hinv : (s.stopWith ret).Inv := by
    have h := hs
    unfold Inv total running at h ⊢
    rw [hnames, hguards, hstate, hcounter]
    cases hst : s.opcmdState.started with
    | true =>
      have ht : (s.names + Bool.toNat true + s.guards : ℕ) = ((s.names + Opcmd.stop.started.toNat +
          s.guards : ℕ) : ℤ) + 1 := by
        simp only [Opcmd.started, Bool.toNat_true, Bool.toNat_false]
        omega
      rw [hst, ht] at h
      exact h.dec (Int.natCast_nonneg _)
    | false =>
      rw [hst] at h
      exact h
  refine ⟨hinv, hnames, hguards, ?_⟩
  apply hinv.alive
  unfold total
  omega

/-! ## The members of the family -/

/-- The command of `start()` or `start_oneshot()`. -/
def startCommand (oneshot : Bool) : Opcmd := if oneshot then .startOneshot else .start

theorem startCommand_started (oneshot : Bool) : (startCommand oneshot).started = true := by
  cases oneshot <;> rfl

theorem start_eq {oneshot : Bool} {stopRet ret : ℤ} (h : s.start k oneshot stopRet ret = some t) :
    ∃ onRestart, t = startWith onRestart (startCommand oneshot) s ret := by
  cases k with
  | signal =>
    cases oneshot
    · exact ⟨id, (Option.some.inj h).symm⟩
    · exact ⟨id, (Option.some.inj h).symm⟩
  | fsEvent =>
    simp only [start, Option.ite_none_left_eq_some, Option.some.injEq, Bool.not_eq_true] at h
    rw [h.1]
    exact ⟨fun _ => stopRet, h.2.symm⟩
  | _ =>
    simp only [start, Option.ite_none_left_eq_some, Option.some.injEq, Bool.not_eq_true] at h
    rw [h.1]
    exact ⟨id, h.2.symm⟩

theorem stop_eq (k : WatcherKind) (s : Watcher) (ret : ℤ) : s.stop k ret = s.stopWith ret := by
  cases k <;> rfl

/-- A callback leaves the command alone, unless it is the one of a one-shot signal. -/
theorem deliver_eq (k : WatcherKind) (s : Watcher) (status : ℤ) :
    (∃ err, s.deliver k status = { s with uvError := err }.enter false) ∨
      (s.opcmdState = .startOneshot ∧
        s.deliver k status = { s with opcmdState := .unknown }.enter true) := by
  cases k with
  | idle => exact .inl ⟨s.uvError, rfl⟩
  | prepare => exact .inl ⟨s.uvError, rfl⟩
  | check => exact .inl ⟨s.uvError, rfl⟩
  | poll => exact .inl ⟨status, rfl⟩
  | fsEvent => exact .inl ⟨status, rfl⟩
  | signal =>
    by_cases h : s.opcmdState = .startOneshot
    · exact .inr ⟨h, if_pos h⟩
    · exact .inl ⟨s.uvError, if_neg h⟩

/-! ## Callbacks and variables -/

theorem enter_fields (s : Watcher) (guarded : Bool) :
    (s.enter guarded).opcmdState = s.opcmdState ∧
      (s.enter guarded).names = s.names + s.callback.toNat ∧
      (s.enter guarded).guards = s.guards + guarded.toNat ∧
      (s.enter guarded).toCounter = (if s.callback then s.toCounter.inc else s.toCounter) := by
  unfold enter
  cases s.callback <;> cases guarded <;>
    simp [ref, Watcher.names, arguments, Watcher.guards, Nat.add_assoc]

theorem enter_holds {n : ℕ} (h : s.toCounter.Holds n) (hn : 1 ≤ n) (guarded : Bool) :
    (s.enter guarded).toCounter.Holds (n + s.callback.toNat : ℕ) := by
  rw [(enter_fields s guarded).2.2.2]
  cases s.callback with
  | true => exact h.inc (by omega)
  | false => exact h

theorem Inv.total_pos (hs : s.Inv) (ha : s.destroyed = false) : 1 ≤ s.total := by
  have hd := hs.destroyed
  rw [ha, eq_comm, decide_eq_false_iff_not] at hd
  omega

theorem Inv.deliver (hs : s.Inv) (ha : s.destroyed = false) (status : ℤ) : (s.deliver k status).Inv := by
  have hpos := hs.total_pos ha
  rcases deliver_eq k s status with ⟨err, he⟩ | ⟨hone, he⟩
  · obtain ⟨hstate, hnames, hguards, _⟩ := enter_fields { s with uvError := err } false
    have hc := enter_holds (s := { s with uvError := err }) hs hpos false
    rw [he]
    unfold Inv total running
    rw [hstate, hnames, hguards]
    have ht : s.total + s.callback.toNat =
        s.names + s.callback.toNat + s.opcmdState.started.toNat + (s.guards + Bool.toNat false) := by
      simp only [total, running, Bool.toNat_false]
      omega
    rw [ht] at hc
    exact hc
  · obtain ⟨hstate, hnames, hguards, _⟩ := enter_fields { s with opcmdState := .unknown } true
    have hc := enter_holds (s := { s with opcmdState := .unknown }) hs hpos true
    rw [he]
    unfold Inv total running
    rw [hstate, hnames, hguards]
    have ht : s.total + s.callback.toNat =
        s.names + s.callback.toNat + Opcmd.unknown.started.toNat + (s.guards + Bool.toNat true) := by
      simp only [total, running, hone, Opcmd.started, Bool.toNat_true, Bool.toNat_false]
      omega
    rw [ht] at hc
    exact hc

theorem callbackEnd_fields (s : Watcher) (f : WatcherFrame) (frames : List WatcherFrame) :
    (s.callbackEnd f frames).opcmdState = s.opcmdState ∧ (s.callbackEnd f frames).vars = s.vars ∧
      (s.callbackEnd f frames).frames = frames ∧ (s.callbackEnd f frames).toCounter =
        (if f.guarded then (if f.arg then s.toCounter.dec else s.toCounter).dec
          else if f.arg then s.toCounter.dec else s.toCounter) := by
  unfold callbackEnd
  cases f.arg <;> cases f.guarded <;> simp [unref]

/-- The total without the frame is what remains of the callback's references. -/
theorem Inv.callbackEnd (hs : s.Inv) {f : WatcherFrame} {frames : List WatcherFrame}
    (hf : s.frames = f :: frames) : (s.callbackEnd f frames).Inv := by
  obtain ⟨hstate, hvars, hframes, hcounter⟩ := callbackEnd_fields s f frames
  have htotal : (s.total : ℤ) = (s.callbackEnd f frames).total + f.guarded.toNat + f.arg.toNat := by
    simp only [total, Watcher.names, arguments, running, Watcher.guards, hstate, hvars, hframes, hf,
      List.countP_cons]
    cases f.guarded <;> cases f.arg <;> simp <;> omega
  have h := hs
  unfold Inv at h ⊢
  rw [htotal] at h
  rw [hcounter]
  exact (h.decIf (by positivity)).decIf (by positivity)

theorem Inv.copy (hs : s.Inv) (hn : s.names ≠ 0) : { s.ref with vars := s.vars + 1 }.Inv := by
  have h := Counter.Holds.inc hs (by unfold total; omega)
  have ht : (s.total : ℤ) + 1 = ({ s.ref with vars := s.vars + 1 } : Watcher).total := by
    simp only [total, Watcher.names, arguments, running, Watcher.guards, ref]
    push_cast
    ring
  rw [ht] at h
  exact h

theorem Inv.drop (hs : s.Inv) (hn : s.vars ≠ 0) : { s.unref with vars := s.vars - 1 }.Inv := by
  have h := hs
  have ht : (s.total : ℤ) = ({ s.unref with vars := s.vars - 1 } : Watcher).total + 1 := by
    simp only [total, Watcher.names, arguments, running, Watcher.guards, unref]
    omega
  unfold Inv at h
  rw [ht] at h
  exact h.dec (Int.natCast_nonneg _)

/-- The callback moves its argument into a variable. -/
theorem Inv.moveArg (hs : s.Inv) {f : WatcherFrame} {frames : List WatcherFrame}
    (hf : s.frames = f :: frames) (ha : f.arg = true) :
    { s with frames := { f with arg := false } :: frames, vars := s.vars + 1 }.Inv := by
  have ht : s.total =
      ({ s with frames := { f with arg := false } :: frames, vars := s.vars + 1 } : Watcher).total := by
    simp only [total, Watcher.names, arguments, running, Watcher.guards, hf, List.countP_cons, ha,
      if_true, Bool.false_eq_true, if_false]
    omega
  have h := hs
  unfold Inv at h
  rw [ht] at h
  exact h

theorem Inv.step {e : WatcherEvent} (hs : s.Inv) (h : s.step k e = some t) : t.Inv := by
  cases e with
  | copy =>
    simp only [Watcher.step, Option.ite_none_left_eq_some, Option.some.injEq] at h
    obtain ⟨hn, rfl⟩ := h
    exact hs.copy hn
  | drop =>
    simp only [Watcher.step, Option.ite_none_left_eq_some, Option.some.injEq] at h
    obtain ⟨hn, rfl⟩ := h
    exact hs.drop hn
  | moveArg =>
    simp only [Watcher.step] at h
    cases hf : s.frames with
    | nil => simp [hf] at h
    | cons f frames =>
      simp only [hf, Option.ite_none_right_eq_some, Option.some.injEq] at h
      obtain ⟨ha, rfl⟩ := h
      exact hs.moveArg hf ha
  | setCallback set =>
    simp only [Watcher.step, Option.ite_none_left_eq_some, Option.some.injEq] at h
    obtain ⟨_, rfl⟩ := h
    exact hs
  | start oneshot stopRet ret =>
    simp only [Watcher.step, Option.ite_none_left_eq_some] at h
    obtain ⟨onRestart, rfl⟩ := start_eq h.2
    exact (startWith_commanded hs h.1 onRestart (startCommand_started oneshot) ret).inv
  | stop ret =>
    simp only [Watcher.step, Option.ite_none_left_eq_some, Option.some.injEq] at h
    obtain ⟨hn, rfl⟩ := h
    rw [stop_eq]
    exact (stopWith_commanded hs hn ret).inv
  | deliver status =>
    simp only [Watcher.step, Option.ite_none_left_eq_some, Option.some.injEq, Bool.not_eq_true] at h
    obtain ⟨ha, rfl⟩ := h
    exact hs.deliver ha status
  | callbackEnd =>
    simp only [Watcher.step] at h
    cases hf : s.frames with
    | nil => simp [hf] at h
    | cons f frames =>
      simp only [hf, Option.some.injEq] at h
      subst h
      exact hs.callbackEnd hf

/-! ## What a command does -/

/-- A start that succeeds leaves its command and one reference behind, one that fails
neither, a repeated command changes nothing, and none of the releases inside brings the
count to zero. -/
def CommandSound (s : Watcher) : WatcherEvent → Watcher → Prop
  | .start oneshot _ ret, t =>
    (ret < 0 → t.opcmdState = .unknown ∧ t.extra = s.guards) ∧
      (0 ≤ ret → t.opcmdState = startCommand oneshot ∧ t.extra = s.guards + 1) ∧
      (0 ≤ ret → s.running = 1 → t.extra = s.extra) ∧ t.destroyed = false
  | .stop _, t =>
    t.opcmdState = .stop ∧ (s.running = 0 → t.extra = s.extra) ∧ t.destroyed = false
  | _, _ => True

theorem extra_eq (hs : s.Inv) : s.extra = s.running + s.guards := hs.holdsOne.extra

theorem start_sound (hs : s.Inv) (hn : s.names ≠ 0) {oneshot : Bool} {stopRet ret : ℤ}
    (h : s.start k oneshot stopRet ret = some t) : s.CommandSound (.start oneshot stopRet ret) t := by
  obtain ⟨onRestart, rfl⟩ := start_eq h
  have hcmd := startCommand_started oneshot
  have hc := startWith_commanded hs hn onRestart hcmd ret
  have hstate := (startWith_fields onRestart (startCommand oneshot) s ret).1
  have hx := extra_eq hc.inv
  rw [hc.guards] at hx
  have hone : 0 ≤ ret → (startWith onRestart (startCommand oneshot) s ret).opcmdState = startCommand oneshot ∧
      (startWith onRestart (startCommand oneshot) s ret).extra = s.guards + 1 := by
    intro hpos
    rw [if_neg (by omega)] at hstate
    refine ⟨hstate, ?_⟩
    rw [hx, running, hstate, hcmd]
    exact add_comm _ _
  refine ⟨fun hneg => ?_, hone, fun hpos hrun => ?_, hc.alive⟩
  · rw [if_pos hneg] at hstate
    refine ⟨hstate, ?_⟩
    rw [hx, running, hstate]
    exact zero_add _
  · rw [(hone hpos).2, extra_eq hs, hrun]
    exact add_comm _ _

theorem stop_sound (hs : s.Inv) (hn : s.names ≠ 0) (ret : ℤ) :
    s.CommandSound (.stop ret) (s.stop k ret) := by
  have hc := stopWith_commanded hs hn ret
  have hstate := (stopWith_fields s ret).1
  have hx := extra_eq hc.inv
  rw [stop_eq]
  refine ⟨hstate, fun hrun => ?_, hc.alive⟩
  rw [hx, extra_eq hs, hc.guards, hrun, running, hstate]
  rfl

theorem step_sound {e : WatcherEvent} (hs : s.Inv) (h : s.step k e = some t) : s.CommandSound e t := by
  cases e with
  | start oneshot stopRet ret =>
    simp only [Watcher.step, Option.ite_none_left_eq_some] at h
    exact start_sound hs h.1 h.2
  | stop ret =>
    simp only [Watcher.step, Option.ite_none_left_eq_some, Option.some.injEq] at h
    obtain ⟨hn, rfl⟩ := h
    exact stop_sound hs hn ret
  | _ => trivial

end Watcher

/-- Every watcher, in every run: one extra reference exactly while it is started, and
the commands keep to it whatever libuv answers. -/
theorem watchers_hold_one (k : WatcherKind) (es : List WatcherEvent) :
    (∀ s ∈ visited (Watcher.step k) Watcher.init es, s.HoldsOne) ∧
    ∀ p ∈ taken (Watcher.step k) Watcher.init es,
      ∃ t, p.1.step k p.2 = some t ∧ p.1.CommandSound p.2 t := by
  have hall : ∀ s ∈ visited (Watcher.step k) Watcher.init es, s.Inv :=
    visited_invariant (fun s e t hs h => hs.step h) es _ Watcher.inv_init
  constructor
  · intro s hs
    exact (hall s hs).holdsOne
  · intro p hp
    obtain ⟨t, ht⟩ := taken_enabled es _ p hp
    exact ⟨t, ht, Watcher.step_sound (hall p.1 (taken_visited es _ p hp)) ht⟩

end Uvcc.Watchers
