import Uvcc.Counting.Counter
import Uvcc.Machine.Trace

/-!
# Work on the thread pool

`work::run` gives the task of the instance a shared state of its own, and the futures
that `result()` hands out keep that state when the instance has gone on to another task or
is destroyed. A task that was not invoked leaves its state broken at that moment, and not
before: when the queue has refused it or it has been cancelled, the state stays pending.
-/
namespace Uvcc.Requests
open Counting Machine

variable {V : Type*}

def uvECANCELED : ℤ := -125

/-- The state that a `std::packaged_task` shares with its futures; `ready` has what the
task has returned or thrown. -/
inductive SharedState (V : Type*) where
  | pending
  | ready (v : V)
  | broken
  deriving DecidableEq, Repr

def SharedState.abandon : SharedState V → SharedState V
  | .pending => .broken
  | x => x

inductive WorkStage where
  | idle
  | queued
  | running
  | executed
  | cancelled
  deriving DecidableEq, Repr

/-- An instance of `work`. `frame` is there in the request callback, and tells whether the
argument still refers to the instance; `states` of the `shared` states have been made,
and `aborted` records an exception that a thread of the pool does not catch. -/
structure Work (V : Type*) where
  count : Counter
  vars : ℕ
  callback : Bool
  frame : Option Bool
  stage : WorkStage
  uvError : ℤ
  task : Option ℕ
  result : Option ℕ
  shared : ℕ → SharedState V
  states : ℕ
  aborted : Bool

inductive WorkEvent where
  | copy
  | drop
  | setCallback (set : Bool)
  | run (ret : ℤ)
  | cancel
  | start
  | finish
  | complete
  | moveArg
  | callbackEnd
  deriving DecidableEq, Repr

namespace Work

def init : Work V := ⟨.of 1, 1, false, none, .idle, 0, none, none, fun _ => .pending, 0, false⟩

/-- The program has the instance by a variable or by the argument of the callback. -/
def Named (w : Work V) : Prop := 0 < w.vars ∨ w.frame = some true

instance (w : Work V) : Decidable w.Named := by unfold Named; infer_instance

def abandonTask (w : Work V) : Work V :=
  match w.task with
  | some i => { w with shared := Function.update w.shared i (w.shared i).abandon }
  | none => w

def ref (w : Work V) : Work V := { w with count := w.count.inc }

def unref (w : Work V) : Work V :=
  if w.count.dec.destroyed then { w with count := w.count.dec }.abandonTask else { w with count := w.count.dec }

def setTask (w : Work V) : Work V :=
  { w.abandonTask with task := some w.states, result := some w.states, states := w.states + 1 }

/-- `run`, to which the queue answers `ret`. -/
def run (w : Work V) (ret : ℤ) : Work V :=
  let w1 := { w.ref.setTask with uvError := 0 }
  if ret < 0 then { w1 with uvError := ret }.unref else { w1 with stage := .queued }

/-- `work_cb`: a task cannot be invoked twice. -/
def workCb (compute : ℕ → V) (w : Work V) : Work V :=
  match w.task with
  | some i =>
    match w.shared i with
    | .pending => { w with shared := Function.update w.shared i (.ready (compute i)) }
    | _ => { w with aborted := true }
  | none => w

/-- `after_work_cb`, until it calls the request callback if there is one. -/
def afterWorkCb (w : Work V) (status : ℤ) : Work V :=
  let w1 := { w with stage := .idle, uvError := status }
  if w.callback then { w1.ref with frame := some true } else w1.unref

def callbackEnd (w : Work V) (arg : Bool) : Work V :=
  let w1 := { w with frame := none }
  if arg then w1.unref.unref else w1.unref

/-- libuv does not have the request when it is run, and does not call back from within a
callback. -/
def step (compute : ℕ → V) (w : Work V) : WorkEvent → Option (Work V)
  | .copy => if w.Named then some { w.ref with vars := w.vars + 1 } else none
  | .drop => if 0 < w.vars then some { w with vars := w.vars - 1 }.unref else none
  | .setCallback set => if w.Named then some { w with callback := set } else none
  | .run ret => if w.Named ∧ w.stage = .idle then some (w.run ret) else none
  | .cancel =>
    if w.Named ∧ w.stage ≠ .idle then
      some (if w.stage = .queued then { w with stage := .cancelled } else w)
    else none
  | .start => if w.stage = .queued then some { w with stage := .running } else none
  | .finish => if w.stage = .running then some { w.workCb compute with stage := .executed } else none
  | .complete =>
    if w.frame = none then
      match w.stage with
      | .executed => some (w.afterWorkCb 0)
      | .cancelled => some (w.afterWorkCb uvECANCELED)
      | _ => none
    else none
  | .moveArg => if w.frame = some true then some { w with frame := some false, vars := w.vars + 1 } else none
  | .callbackEnd => w.frame.map w.callbackEnd

def refs (w : Work V) : ℕ :=
  w.vars + w.frame.elim 0 (fun arg => 1 + arg.toNat) + if w.stage = .idle then 0 else 1

def outcome (w : Work V) (v : V) : SharedState V :=
  match w.stage with
  | .executed => .ready v
  | .idle =>
    if 0 ≤ w.uvError then .ready v else if w.count.destroyed then .broken else .pending
  | _ => .pending

/-- The futures have the state of the last task, and what it is can be told from the stage
and the status; those before it are settled. -/
structure Results (compute : ℕ → V) (w : Work V) : Prop where
  result : w.result = w.task
  last : ∀ i, w.result = some i → w.states = i + 1 ∧ w.shared i = w.outcome (compute i)
  unrun : w.result = none → w.states = 0 ∧ w.stage = .idle
  past : ∀ i, i + 1 < w.states → w.shared i = .ready (compute i) ∨ w.shared i = .broken
  fresh : ∀ i, w.states ≤ i → w.shared i = .pending
  aborted : w.aborted = false

/-- Moreover the count is that of the references. -/
structure Exact (compute : ℕ → V) (w : Work V) : Prop extends Results compute w where
  count : w.count.Holds w.refs

variable {compute : ℕ → V} {w t : Work V} {e : WorkEvent}

theorem abandonTask_none (h : w.task = none) : w.abandonTask = w := by
  simp only [abandonTask, h]

theorem abandonTask_some {i : ℕ} (h : w.task = some i) :
    w.abandonTask = { w with shared := Function.update w.shared i (w.shared i).abandon } := by
  simp only [abandonTask, h]

theorem abandonTask_eq (w : Work V) : ∃ f, w.abandonTask = { w with shared := f } := by
  rcases Option.eq_none_or_eq_some w.task with h | ⟨i, h⟩
  · exact ⟨w.shared, abandonTask_none h⟩
  · exact ⟨_, abandonTask_some h⟩

theorem unref_eq (w : Work V) : ∃ f, w.unref = { w with count := w.count.dec, shared := f } := by
  unfold unref
  split
  · exact abandonTask_eq { w with count := w.count.dec }
  · exact ⟨w.shared, rfl⟩

theorem workCb_eq (compute : ℕ → V) (w : Work V) :
    ∃ f b, w.workCb compute = { w with shared := f, aborted := b } := by
  unfold workCb
  split
  · split
    · exact ⟨_, w.aborted, rfl⟩
    · exact ⟨w.shared, true, rfl⟩
  · exact ⟨w.shared, w.aborted, rfl⟩

@[simp] theorem unref_count (w : Work V) : w.unref.count = w.count.dec := by
  obtain ⟨f, hf⟩ := unref_eq w
  rw [hf]

@[simp] theorem unref_refs (w : Work V) : w.unref.refs = w.refs := by
  obtain ⟨f, hf⟩ := unref_eq w
  rw [hf]
  rfl

theorem Named.refs_pos (h : w.Named) : 0 < w.refs := by
  unfold refs
  rcases h with h | h
  · omega
  · rw [h]
    simp only [Option.elim_some]
    omega

/-! ## Results -/

/-- The variables of the instance do not enter its results. -/
theorem Results.variables (h : w.Results compute) {c : Counter} (hc : c.destroyed = w.count.destroyed)
    (n : ℕ) (f : Option Bool) (b : Bool) :
    { w with count := c, vars := n, frame := f, callback := b }.Results compute where
  result := h.result
  last i hi := by
    obtain ⟨hstates, hshared⟩ := h.last i hi
    refine ⟨hstates, hshared.trans ?_⟩
    simp only [outcome, hc]
  unrun := h.unrun
  past := h.past
  fresh := h.fresh
  aborted := h.aborted

/-- Without a task there is nothing that its end would change; with one, that is its own
state if it is pending. -/
theorem Results.unref (h : w.Results compute) (hd : w.count.destroyed = false)
    (hidle : w.count.dec.destroyed = true → w.stage = .idle) : w.unref.Results compute := by
  unfold Work.unref
  by_cases hdec : w.count.dec.destroyed = true
  · rw [if_pos hdec]
    have hstage := hidle hdec
    rcases Option.eq_none_or_eq_some w.task with htask | ⟨i, htask⟩
    · have hnone : w.result = none := h.result.trans htask
      rw [abandonTask_none (w := { w with count := w.count.dec }) htask]
      refine ⟨h.result, fun i hi => ?_, h.unrun, h.past, h.fresh, h.aborted⟩
      cases hnone.symm.trans hi
    · have hsome : w.result = some i := h.result.trans htask
      obtain ⟨hstates, hshared⟩ := h.last i hsome
      rw [abandonTask_some (w := { w with count := w.count.dec }) htask]
      refine ⟨h.result, fun j hj => ?_, h.unrun, fun j hj => ?_, fun j hj => ?_, h.aborted⟩
      · obtain rfl : i = j := Option.some.inj (hsome.symm.trans hj)
        refine ⟨hstates, (Function.update_self i _ _).trans ?_⟩
        dsimp only
        rw [hshared]
        simp only [outcome, hstage, hd, hdec, Bool.false_eq_true, if_false, if_true]
        split_ifs <;> rfl
      · dsimp only at hj ⊢
        rw [Function.update_of_ne (by omega)]
        exact h.past j hj
      · dsimp only at hj ⊢
        rw [Function.update_of_ne (by omega)]
        exact h.fresh j hj
  · rw [if_neg hdec]
    exact h.variables ((Bool.eq_false_iff.mpr hdec).trans hd.symm) w.vars w.frame w.callback

/-- A new task leaves the state of the one before it settled. -/
theorem Results.abandonTask (h : w.Results compute) (hidle : w.stage = .idle) (i : ℕ) :
    if i < w.states then w.abandonTask.shared i = .ready (compute i) ∨ w.abandonTask.shared i = .broken
    else w.abandonTask.shared i = .pending := by
  rcases Option.eq_none_or_eq_some w.task with htask | ⟨k, htask⟩
  · rw [abandonTask_none htask, (h.unrun (h.result.trans htask)).1, if_neg (Nat.not_lt_zero i)]
    apply h.fresh
    rw [(h.unrun (h.result.trans htask)).1]
    exact Nat.zero_le i
  · obtain ⟨hstates, hshared⟩ := h.last k (h.result.trans htask)
    rw [abandonTask_some htask]
    dsimp only
    by_cases hik : i = k
    · rw [hik, Function.update_self, if_pos (by omega), hshared]
      simp only [outcome, hidle]
      split_ifs
      · exact .inl rfl
      · exact .inr rfl
      · exact .inr rfl
    · rw [Function.update_of_ne hik]
      split_ifs with hi
      · exact h.past i (by omega)
      · exact h.fresh i (not_lt.mp hi)

/-- The queue has taken the new task, or refused it. -/
theorem Results.setTask (h : w.Results compute) (hidle : w.stage = .idle) (hd : w.count.destroyed = false)
    {st : WorkStage} {n : ℤ} (hst : st = .queued ∨ st = .idle ∧ n < 0) :
    { w.setTask with stage := st, uvError := n }.Results compute := by
  have hshared := h.abandonTask hidle
  obtain ⟨f, hf⟩ := abandonTask_eq w
  unfold Work.setTask
  rw [hf] at hshared ⊢
  refine ⟨rfl, fun i hi => ?_, fun hnone => ?_, fun i hi => ?_, fun i hi => ?_, h.aborted⟩
  · obtain rfl : w.states = i := Option.some.inj hi
    have hpending := hshared w.states
    rw [if_neg (lt_irrefl w.states)] at hpending
    refine ⟨rfl, hpending.trans ?_⟩
    rcases hst with rfl | ⟨rfl, hn⟩
    · rfl
    · simp only [outcome, if_neg (not_le.mpr hn), hd, Bool.false_eq_true, if_false]
  · cases hnone
  · have hsettled := hshared i
    rwa [if_pos (Nat.lt_of_succ_lt_succ hi)] at hsettled
  · have hpending := hshared i
    dsimp only at hi
    rwa [if_neg (by omega)] at hpending

/-- The task that libuv has is pending until it is invoked. -/
theorem Results.busy (h : w.Results compute) (hbusy : w.stage ≠ .idle) :
    ∃ i, w.task = some i ∧ w.result = some i ∧ w.states = i + 1 ∧ w.shared i = w.outcome (compute i) := by
  rcases Option.eq_none_or_eq_some w.result with hnone | ⟨i, hi⟩
  · exact absurd (h.unrun hnone).2 hbusy
  · obtain ⟨hstates, hshared⟩ := h.last i hi
    exact ⟨i, h.result.symm.trans hi, hi, hstates, hshared⟩

/-- While libuv has the request, its state follows the stage. -/
theorem Results.stage (h : w.Results compute) (hbusy : w.stage ≠ .idle) {st : WorkStage}
    (hout : ∀ v : V, { w with stage := st }.outcome v = w.outcome v) :
    { w with stage := st }.Results compute where
  result := h.result
  last i hi := by
    obtain ⟨hstates, hshared⟩ := h.last i hi
    exact ⟨hstates, hshared.trans (hout (compute i)).symm⟩
  unrun hnone := absurd (h.unrun hnone).2 hbusy
  past := h.past
  fresh := h.fresh
  aborted := h.aborted

theorem Results.workCb (h : w.Results compute) (hrun : w.stage = .running) :
    { w.workCb compute with stage := .executed }.Results compute := by
  have hbusy : w.stage ≠ .idle := by
    rw [hrun]
    decide
  obtain ⟨i, htask, hresult, hstates, hshared⟩ := h.busy hbusy
  have hpending : w.shared i = .pending := by
    rw [hshared, outcome, hrun]
  have hcb : w.workCb compute = { w with shared := Function.update w.shared i (.ready (compute i)) } := by
    simp only [Work.workCb, htask, hpending]
  rw [hcb]
  refine ⟨h.result, fun j hj => ?_, fun hnone => ?_, fun j hj => ?_, fun j hj => ?_, h.aborted⟩
  · obtain rfl : i = j := Option.some.inj (hresult.symm.trans hj)
    exact ⟨hstates, Function.update_self i _ w.shared⟩
  · cases hresult.symm.trans hnone
  · dsimp only at hj ⊢
    rw [Function.update_of_ne (by omega)]
    exact h.past j hj
  · dsimp only at hj ⊢
    rw [Function.update_of_ne (by omega)]
    exact h.fresh j hj

/-- The status tells whether the task was invoked. -/
theorem Results.completed (h : w.Results compute) (hd : w.count.destroyed = false) {status : ℤ}
    (hstage : w.stage = .executed ∧ 0 ≤ status ∨ w.stage = .cancelled ∧ status < 0) :
    { w with stage := .idle, uvError := status }.Results compute := by
  have hbusy : w.stage ≠ .idle := by
    rcases hstage with ⟨hst, _⟩ | ⟨hst, _⟩ <;> rw [hst] <;> decide
  refine ⟨h.result, fun i hi => ?_, fun hnone => ?_, h.past, h.fresh, h.aborted⟩
  · obtain ⟨hstates, hshared⟩ := h.last i hi
    refine ⟨hstates, hshared.trans ?_⟩
    rcases hstage with ⟨hst, hn⟩ | ⟨hst, hn⟩
    · simp only [outcome, hst, if_pos hn]
    · simp only [outcome, hst, if_neg (not_le.mpr hn), hd, Bool.false_eq_true, if_false]
  · exact absurd (h.unrun hnone).2 hbusy

/-! ## Steps -/

theorem init_exact (compute : ℕ → V) : (init : Work V).Exact compute where
  count := Counter.of_holds le_rfl
  result := rfl
  last i hi := by cases hi
  unrun _ := ⟨rfl, rfl⟩
  past i hi := absurd hi (Nat.not_lt_zero _)
  fresh _ _ := rfl
  aborted := rfl

theorem Exact.alive (h : w.Exact compute) (hr : 0 < w.refs) : w.count.destroyed = false :=
  h.count.alive (by omega)

/-- A variable more. -/
theorem Exact.ref (h : w.Exact compute) (hr : 0 < w.refs) {n : ℕ} {f : Option Bool}
    (hn : { w with vars := n, frame := f }.refs = w.refs + 1) : { w.ref with vars := n, frame := f }.Exact compute where
  toResults := h.toResults.variables (Counter.inc_destroyed w.count) n f w.callback
  count := by
    have hcount := h.count.inc (by omega)
    rw [show ({ w.ref with vars := n, frame := f } : Work V).refs = w.refs + 1 from hn, Nat.cast_add, Nat.cast_one]
    exact hcount

/-- A reference less; libuv keeps one while it has the request. -/
theorem Results.release (h : w.Results compute) {n : ℕ} (hcount : w.count.Holds (n + 1 : ℕ)) (hn : w.refs = n) :
    w.unref.Exact compute where
  toResults := by
    apply h.unref (hcount.alive (by omega))
    intro hdec
    by_contra hbusy
    have hpos : 0 < w.refs := by
      simp only [refs, if_neg hbusy]
      omega
    have hholds : w.count.dec.Holds n := Counter.Holds.dec (by exact_mod_cast hcount) (Int.natCast_nonneg n)
    rw [hholds.alive (by omega)] at hdec
    cases hdec
  count := by
    rw [unref_count, unref_refs, hn]
    exact Counter.Holds.dec (by exact_mod_cast hcount) (Int.natCast_nonneg n)

theorem Exact.run (h : w.Exact compute) (hnamed : w.Named) (hidle : w.stage = .idle) (ret : ℤ) :
    (w.run ret).Exact compute := by
  have hpos := hnamed.refs_pos
  have hd := h.alive hpos
  have href : w.ref.Results compute :=
    h.toResults.variables (Counter.inc_destroyed w.count) w.vars w.frame w.callback
  have hd' : w.ref.count.destroyed = false := (Counter.inc_destroyed w.count).trans hd
  have hcount : w.ref.count.Holds (w.refs + 1 : ℕ) := by
    have hinc := h.count.inc (by omega)
    exact_mod_cast hinc
  obtain ⟨f, hf⟩ := abandonTask_eq w.ref
  unfold Work.run
  dsimp only
  split_ifs with hret
  · have hset : w.ref.setTask.stage = .idle := by
      unfold Work.setTask
      rw [hf]
      exact hidle
    refine Results.release (n := w.refs) ?_ ?_ ?_
    · exact href.setTask hidle hd' (.inr ⟨hset, hret⟩)
    · unfold Work.setTask
      rw [hf]
      exact hcount
    · unfold Work.setTask
      rw [hf]
      rfl
  · refine ⟨href.setTask hidle hd' (.inl rfl), ?_⟩
    unfold Work.setTask
    rw [hf]
    have hrefs : { w with stage := .queued }.refs = w.refs + 1 := by
      simp only [refs, hidle, if_true, reduceCtorEq, if_false]
    change w.ref.count.Holds ({ w with stage := .queued } : Work V).refs
    rw [hrefs]
    exact hcount

theorem Exact.afterWorkCb (h : w.Exact compute) (hframe : w.frame = none) {status : ℤ}
    (hstage : w.stage = .executed ∧ 0 ≤ status ∨ w.stage = .cancelled ∧ status < 0) :
    (w.afterWorkCb status).Exact compute := by
  have hbusy : w.stage ≠ .idle := by
    rcases hstage with ⟨hst, _⟩ | ⟨hst, _⟩ <;> rw [hst] <;> decide
  have hrefs : w.refs = w.vars + 1 := by
    simp only [refs, hframe, Option.elim_none, if_neg hbusy, add_zero]
  have hdone := h.toResults.completed (h.alive (by omega)) hstage
  unfold Work.afterWorkCb
  dsimp only
  split_ifs with hcb
  · refine ⟨hdone.variables (Counter.inc_destroyed w.count) w.vars (some true) w.callback, ?_⟩
    have hinc := h.count.inc (by omega)
    have hrefs' : ({ w with stage := .idle, uvError := status, frame := some true } : Work V).refs =
        w.refs + 1 := by
      rw [hrefs]
      rfl
    change w.count.inc.Holds ({ w with stage := .idle, uvError := status, frame := some true } : Work V).refs
    rw [hrefs']
    exact_mod_cast hinc
  · refine hdone.release (n := w.vars) ?_ ?_
    · rw [← hrefs]
      exact h.count
    · simp only [refs, hframe, Option.elim_none, if_true, add_zero]

theorem Exact.callbackEnd (h : w.Exact compute) {arg : Bool} (hframe : w.frame = some arg) :
    (w.callbackEnd arg).Exact compute := by
  have hout := h.toResults.variables rfl w.vars none w.callback
  have hrefs : w.refs = { w with frame := none }.refs + 1 + arg.toNat := by
    simp only [refs, hframe, Option.elim_some, Option.elim_none]
    omega
  have hcount : w.count.Holds (({ w with frame := none }.refs + 1 + arg.toNat : ℕ) : ℤ) := hrefs ▸ h.count
  unfold Work.callbackEnd
  dsimp only
  cases arg with
  | false => exact hout.release hcount rfl
  | true =>
    -- the guard is still there when the argument goes
    have hdec : w.count.dec.Holds (({ w with frame := none }.refs + 1 : ℕ) : ℤ) :=
      Counter.Holds.dec (by exact_mod_cast hcount) (Int.natCast_nonneg _)
    have hfirst : { w with frame := none }.unref.Results compute := by
      apply hout.unref (h.alive (by omega))
      intro hgone
      rw [hdec.alive (by omega)] at hgone
      cases hgone
    apply hfirst.release (n := { w with frame := none }.refs)
    · rw [unref_count]
      exact hdec
    · exact unref_refs _

theorem step_exact (h : w.Exact compute) (hstep : w.step compute e = some t) : t.Exact compute := by
  cases e with
  | copy =>
    simp only [step, Option.ite_none_right_eq_some, Option.some.injEq] at hstep
    obtain ⟨hnamed, rfl⟩ := hstep
    apply h.ref hnamed.refs_pos (f := w.frame)
    simp only [refs]
    omega
  | drop =>
    simp only [step, Option.ite_none_right_eq_some, Option.some.injEq] at hstep
    obtain ⟨hvars, rfl⟩ := hstep
    have hrefs : w.refs = { w with vars := w.vars - 1 }.refs + 1 := by
      simp only [refs]
      omega
    apply (h.toResults.variables rfl (w.vars - 1) w.frame w.callback).release _ rfl
    rw [← hrefs]
    exact h.count
  | setCallback set =>
    simp only [step, Option.ite_none_right_eq_some, Option.some.injEq] at hstep
    obtain ⟨_, rfl⟩ := hstep
    exact ⟨h.toResults.variables rfl w.vars w.frame set, h.count⟩
  | run ret =>
    simp only [step, Option.ite_none_right_eq_some, Option.some.injEq] at hstep
    obtain ⟨⟨hnamed, hidle⟩, rfl⟩ := hstep
    exact h.run hnamed hidle ret
  | cancel =>
    simp only [step, Option.ite_none_right_eq_some, Option.some.injEq] at hstep
    obtain ⟨⟨_, hbusy⟩, rfl⟩ := hstep
    split_ifs with hqueued
    · refine ⟨h.toResults.stage hbusy fun v => ?_, ?_⟩
      · simp only [outcome, hqueued]
      · have hcount := h.count
        simpa only [refs, hqueued, reduceCtorEq, if_false] using hcount
    · exact h
  | start =>
    simp only [step, Option.ite_none_right_eq_some, Option.some.injEq] at hstep
    obtain ⟨hqueued, rfl⟩ := hstep
    refine ⟨h.toResults.stage (by rw [hqueued]; decide) fun v => ?_, ?_⟩
    · simp only [outcome, hqueued]
    · have hcount := h.count
      simpa only [refs, hqueued, reduceCtorEq, if_false] using hcount
  | finish =>
    simp only [step, Option.ite_none_right_eq_some, Option.some.injEq] at hstep
    obtain ⟨hrunning, rfl⟩ := hstep
    refine ⟨h.toResults.workCb hrunning, ?_⟩
    obtain ⟨f, b, hcb⟩ := workCb_eq compute w
    have hcount := h.count
    rw [hcb]
    simpa only [refs, hrunning, reduceCtorEq, if_false] using hcount
  | complete =>
    simp only [step, Option.ite_none_right_eq_some] at hstep
    obtain ⟨hframe, hstep⟩ := hstep
    split at hstep
    · rename_i hexecuted
      obtain rfl := Option.some.inj hstep
      exact h.afterWorkCb hframe (.inl ⟨hexecuted, le_rfl⟩)
    · rename_i hcancelled
      obtain rfl := Option.some.inj hstep
      exact h.afterWorkCb hframe (.inr ⟨hcancelled, by decide⟩)
    · cases hstep
  | moveArg =>
    simp only [step, Option.ite_none_right_eq_some, Option.some.injEq] at hstep
    obtain ⟨hframe, rfl⟩ := hstep
    refine ⟨h.toResults.variables rfl (w.vars + 1) (some false) w.callback, ?_⟩
    have hrefs : { w with frame := some false, vars := w.vars + 1 }.refs = w.refs := by
      simp only [refs, hframe, Option.elim_some, Bool.toNat_false, Bool.toNat_true]
    rw [hrefs]
    exact h.count
  | callbackEnd =>
    simp only [step, Option.map_eq_some_iff] at hstep
    obtain ⟨arg, hframe, rfl⟩ := hstep
    exact h.callbackEnd hframe

/-! ## Settled states -/

def Ends (x y : SharedState V) : Prop := y = x ∨ x = .pending ∧ y = .broken

theorem Ends.trans {x y z : SharedState V} (hxy : Ends x y) (hyz : Ends y z) : Ends x z := by
  rcases hxy with rfl | ⟨hx, rfl⟩
  · exact hyz
  · rcases hyz with rfl | ⟨hbroken, _⟩
    · exact .inr ⟨hx, rfl⟩
    · cases hbroken

theorem abandonTask_ends (w : Work V) (i : ℕ) : Ends (w.shared i) (w.abandonTask.shared i) := by
  rcases Option.eq_none_or_eq_some w.task with htask | ⟨k, htask⟩
  · rw [abandonTask_none htask]
    exact .inl rfl
  · rw [abandonTask_some htask]
    by_cases hik : i = k
    · subst hik
      dsimp only
      rw [Function.update_self]
      cases w.shared i with
      | pending => exact .inr ⟨rfl, rfl⟩
      | ready v => exact .inl rfl
      | broken => exact .inl rfl
    · exact .inl (Function.update_of_ne hik _ w.shared)

theorem unref_ends (w : Work V) (i : ℕ) : Ends (w.shared i) (w.unref.shared i) := by
  unfold unref
  split
  · exact abandonTask_ends { w with count := w.count.dec } i
  · exact .inl rfl

@[simp] theorem unref_stage (w : Work V) : w.unref.stage = w.stage := by
  obtain ⟨f, hf⟩ := unref_eq w
  rw [hf]

@[simp] theorem unref_states (w : Work V) : w.unref.states = w.states := by
  obtain ⟨f, hf⟩ := unref_eq w
  rw [hf]

def Over (w : Work V) : Prop := w.stage = .cancelled ∨ w.stage = .idle

/-- What a step does to a state that has been made. -/
structure Settles (i : ℕ) (w t : Work V) : Prop where
  made : i < t.states
  settled : w.shared i ≠ .pending → t.shared i = w.shared i
  uninvoked : w.shared i = .pending → w.Over → t.shared i = .broken ∨ t.shared i = .pending ∧ t.Over

theorem Settles.of_ends {i : ℕ} (hmade : i < t.states) (hends : Ends (w.shared i) (t.shared i))
    (hover : w.Over → t.Over) : Settles i w t where
  made := hmade
  settled hne := by
    rcases hends with heq | ⟨hpending, _⟩
    · exact heq
    · exact absurd hpending hne
  uninvoked hpending ho := by
    rcases hends with heq | ⟨_, hbroken⟩
    · exact .inr ⟨heq.trans hpending, hover ho⟩
    · exact .inl hbroken

/-- The state of the task before is settled by a run, whatever the queue answers. -/
theorem Exact.run_settles (h : w.Exact compute) (hidle : w.stage = .idle) (ret : ℤ) {i : ℕ} (hi : i < w.states) :
    Settles i w (w.run ret) := by
  have href : w.ref.Results compute :=
    h.toResults.variables (Counter.inc_destroyed w.count) w.vars w.frame w.callback
  have hends : Ends (w.shared i) (w.ref.setTask.shared i) := abandonTask_ends w.ref i
  have hstage : w.ref.setTask.stage = .idle := by
    obtain ⟨f, hf⟩ := abandonTask_eq w.ref
    unfold setTask
    rw [hf]
    exact hidle
  unfold Work.run
  dsimp only
  split_ifs with hret
  · apply Settles.of_ends
    · rw [unref_states]
      exact Nat.lt_succ_of_lt hi
    · exact hends.trans (unref_ends { w.ref.setTask with uvError := ret } i)
    · intro _
      rw [Over, unref_stage]
      exact .inr hstage
  · have hsettled := href.abandonTask hidle i
    rw [if_pos (show i < w.ref.states from hi)] at hsettled
    refine ⟨Nat.lt_succ_of_lt hi, fun hne => ?_, fun hpending _ => ?_⟩
    · rcases hends with heq | ⟨hpending, _⟩
      · exact heq
      · exact absurd hpending hne
    · rcases hends with heq | ⟨_, hbroken⟩
      · rcases hsettled with hready | hbroken
        · cases hready.symm.trans (heq.trans hpending)
        · exact .inl hbroken
      · exact .inl hbroken

theorem workCb_settles (compute : ℕ → V) (hrun : w.stage = .running) {i : ℕ} (hi : i < w.states) :
    Settles i w { w.workCb compute with stage := .executed } := by
  have hover : ¬ w.Over := by
    rw [Over, hrun]
    decide
  refine ⟨?_, fun hne => ?_, fun _ ho => absurd ho hover⟩
  · obtain ⟨f, b, hcb⟩ := workCb_eq compute w
    rw [hcb]
    exact hi
  · dsimp only
    unfold workCb
    split
    · rename_i k _
      split
      · rename_i hpending
        have hik : i ≠ k := by
          rintro rfl
          exact hne hpending
        exact Function.update_of_ne hik _ w.shared
      · rfl
    · rfl

theorem step_settles (h : w.Exact compute) (hstep : w.step compute e = some t) {i : ℕ} (hi : i < w.states) :
    Settles i w t := by
  cases e with
  | copy =>
    simp only [step, Option.ite_none_right_eq_some, Option.some.injEq] at hstep
    obtain ⟨_, rfl⟩ := hstep
    exact .of_ends hi (.inl rfl) id
  | drop =>
    simp only [step, Option.ite_none_right_eq_some, Option.some.injEq] at hstep
    obtain ⟨_, rfl⟩ := hstep
    apply Settles.of_ends
    · rwa [unref_states]
    · exact unref_ends { w with vars := w.vars - 1 } i
    · rw [Over, Over, unref_stage]
      exact id
  | setCallback set =>
    simp only [step, Option.ite_none_right_eq_some, Option.some.injEq] at hstep
    obtain ⟨_, rfl⟩ := hstep
    exact .of_ends hi (.inl rfl) id
  | run ret =>
    simp only [step, Option.ite_none_right_eq_some, Option.some.injEq] at hstep
    obtain ⟨⟨_, hidle⟩, rfl⟩ := hstep
    exact h.run_settles hidle ret hi
  | cancel =>
    simp only [step, Option.ite_none_right_eq_some, Option.some.injEq] at hstep
    obtain ⟨_, rfl⟩ := hstep
    split_ifs
    · exact .of_ends hi (.inl rfl) fun _ => .inl rfl
    · exact .of_ends hi (.inl rfl) id
  | start =>
    simp only [step, Option.ite_none_right_eq_some, Option.some.injEq] at hstep
    obtain ⟨hqueued, rfl⟩ := hstep
    have hover : ¬ w.Over := by
      rw [Over, hqueued]
      decide
    exact ⟨hi, fun _ => rfl, fun _ ho => absurd ho hover⟩
  | finish =>
    simp only [step, Option.ite_none_right_eq_some, Option.some.injEq] at hstep
    obtain ⟨hrunning, rfl⟩ := hstep
    exact workCb_settles compute hrunning hi
  | complete =>
    have hcb : ∃ status, t = w.afterWorkCb status := by
      simp only [step, Option.ite_none_right_eq_some] at hstep
      obtain ⟨_, hstep⟩ := hstep
      split at hstep
      · exact ⟨_, (Option.some.inj hstep).symm⟩
      · exact ⟨_, (Option.some.inj hstep).symm⟩
      · cases hstep
    obtain ⟨status, rfl⟩ := hcb
    unfold afterWorkCb
    dsimp only
    split_ifs
    · exact .of_ends hi (.inl rfl) fun _ => .inr rfl
    · apply Settles.of_ends
      · rwa [unref_states]
      · exact unref_ends { w with stage := .idle, uvError := status } i
      · intro _
        rw [Over, unref_stage]
        exact .inr rfl
  | moveArg =>
    simp only [step, Option.ite_none_right_eq_some, Option.some.injEq] at hstep
    obtain ⟨_, rfl⟩ := hstep
    exact .of_ends hi (.inl rfl) id
  | callbackEnd =>
    simp only [step, Option.map_eq_some_iff] at hstep
    obtain ⟨arg, _, rfl⟩ := hstep
    have hguard := unref_ends { w with frame := none } i
    cases arg with
    | false =>
      apply Settles.of_ends
      · exact (unref_states _).symm ▸ hi
      · exact hguard
      · rw [Over, Over, callbackEnd, if_neg (by decide), unref_stage]
        exact id
    | true =>
      apply Settles.of_ends
      · rw [callbackEnd, if_pos rfl, unref_states, unref_states]
        exact hi
      · exact hguard.trans (unref_ends { w with frame := none }.unref i)
      · rw [Over, Over, callbackEnd, if_pos rfl, unref_stage, unref_stage]
        exact id

end Work

/-- In every run, whatever the tasks give and however the pool and the loop take turns, the
references are counted exactly, no task is invoked twice, and outside of libuv the status
tells what the futures have: the outcome of the last task if it is not negative, and
otherwise a state that is pending as long as the instance lives, and broken after that. -/
theorem work_result_by_status (compute : ℕ → V) (es : List WorkEvent) :
    ∀ w ∈ visited (Work.step compute) Work.init es, w.Exact compute := by
  intro w hw
  exact visited_invariant (fun _ _ _ h hstep => Work.step_exact h hstep) es _ (Work.init_exact compute) w hw

def cancelledWork : List WorkEvent := [.setCallback true, .run 0, .cancel, .complete]

theorem cancelled_work_pending : let w := final (Work.step id) Work.init cancelledWork
    w.Exact id ∧ w.frame = some true ∧ w.uvError = uvECANCELED ∧ w.shared 0 = .pending :=
  ⟨work_result_by_status id cancelledWork _ (final_visited cancelledWork _), rfl, rfl, rfl⟩

/-- A state that is settled stays so, and a task that is cancelled or was refused never
gives a value, whatever becomes of the instance. -/
theorem work_settles_once (compute : ℕ → V) (es fs : List WorkEvent) :
    ∀ w ∈ visited (Work.step compute) Work.init es, ∀ t ∈ visited (Work.step compute) w fs, ∀ i, i < w.states →
      (w.shared i ≠ .pending → t.shared i = w.shared i) ∧
        (w.shared i = .pending → w.stage = .cancelled ∨ w.stage = .idle →
          t.shared i = .pending ∨ t.shared i = .broken) := by
  intro w hw t ht i hi
  have hexact : w.Exact compute :=
    visited_invariant (fun _ _ _ h hstep => Work.step_exact h hstep) es _ (Work.init_exact compute) w hw
  constructor
  · intro hsettled
    have hkept : t.Exact compute ∧ i < t.states ∧ t.shared i = w.shared i := by
      refine visited_invariant (I := fun u => u.Exact compute ∧ i < u.states ∧ u.shared i = w.shared i)
        (fun u e v hu hstep => ?_) fs w ⟨hexact, hi, rfl⟩ t ht
      obtain ⟨hu, hmade, hshared⟩ := hu
      have hsettles := Work.step_settles hu hstep hmade
      refine ⟨Work.step_exact hu hstep, hsettles.made, ?_⟩
      rw [hsettles.settled (hshared.symm ▸ hsettled), hshared]
    exact hkept.2.2
  · intro hpending hover
    have hkept : t.Exact compute ∧ i < t.states ∧ (t.shared i = .broken ∨ t.shared i = .pending ∧ t.Over) := by
      refine visited_invariant
        (I := fun u => u.Exact compute ∧ i < u.states ∧ (u.shared i = .broken ∨ u.shared i = .pending ∧ u.Over))
        (fun u e v hu hstep => ?_) fs w ⟨hexact, hi, .inr ⟨hpending, hover⟩⟩ t ht
      obtain ⟨hu, hmade, hshared⟩ := hu
      have hsettles := Work.step_settles hu hstep hmade
      refine ⟨Work.step_exact hu hstep, hsettles.made, ?_⟩
      rcases hshared with hbroken | ⟨hp, ho⟩
      · have hne : u.shared i ≠ .pending := by
          rw [hbroken]
          intro hcases
          cases hcases
        exact .inl ((hsettles.settled hne).trans hbroken)
      · exact hsettles.uninvoked hp ho
    rcases hkept.2.2 with hbroken | ⟨hp, _⟩
    · exact .inr hbroken
    · exact .inl hp

/-- The instance goes on to another task, and executes it. -/
def nextWork : List WorkEvent := [.run 0, .callbackEnd, .start, .finish, .complete]

theorem cancelled_work_broken : let w := final (Work.step id) Work.init cancelledWork
    let t := final (Work.step id) w nextWork
    (t.shared 0 = .pending ∨ t.shared 0 = .broken) ∧ t.shared 0 = .broken ∧ t.shared 1 = .ready 1 := by
  intro w t
  refine ⟨?_, rfl, rfl⟩
  exact (work_settles_once id cancelledWork nextWork w (final_visited cancelledWork _) t (final_visited nextWork _) 0
    (by decide)).2 rfl (.inr rfl)

end Uvcc.Requests
