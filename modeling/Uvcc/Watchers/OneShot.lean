import Uvcc.Watchers.Signal

/-!
# One-shot signals

`start_oneshot()` starts libuv's watcher like `start()` does; that its first occurrence
is the last one is kept in `opcmd_state` alone. Beside a signal stands what the program
has asked for: a one-shot start that is due, one that has fired since the last start, and
the calls of the user callback.
-/
namespace Uvcc.Watchers
open Machine

structure Invocation where
  oneshot : Bool
  armed : Bool
  spent : Bool
  deriving DecidableEq, Repr

/-- `armed`: a one-shot start is due. `spent`: it has fired, and nothing was started since. -/
structure Shots where
  signal : Signal
  armed : Bool
  spent : Bool
  invoked : List Invocation
  deriving DecidableEq, Repr

namespace Shots

def init (signum : ℤ) : Shots := ⟨.init signum, false, false, []⟩

/-- A start that fails leaves a one-shot start due if libuv's watcher goes on. -/
def started (x : Shots) (t : Signal) (signum : ℤ) (oneshot : Bool) (ret : ℤ) : Shots :=
  if (uvSignalStart x.signal.watched signum ret).1 < 0 then
    { x with signal := t, armed := x.armed && t.watched.isSome }
  else { x with signal := t, armed := oneshot, spent := false }

def delivered (x : Shots) (t : Signal) : Shots where
  signal := t
  armed := false
  spent := x.armed || x.spent
  invoked :=
    if x.signal.watcher.callback then
      ⟨decide (x.signal.watcher.opcmdState = .startOneshot), x.armed, x.spent⟩ :: x.invoked
    else x.invoked

def step (x : Shots) (e : SignalEvent) : Option Shots :=
  (x.signal.step e).map fun t =>
    match e with
    | .start ret => x.started t x.signal.signum false ret
    | .startNumber signum ret => x.started t signum false ret
    | .startOneshot ret => x.started t x.signal.signum true ret
    | .stop _ => { x with signal := t, armed := false }
    | .deliver => x.delivered t
    | _ => { x with signal := t }

/-- The call for a one-shot start says so, and between its return and the next start the
signal is stopped and not called for. -/
structure FiresOnce (x : Shots) : Prop where
  called : ∀ i ∈ x.invoked, i.spent = false ∧ (i.armed = true → i.oneshot = true)
  stopped : x.spent = true → x.signal.watcher.frames = [] → x.signal.watched = none

structure Inv (x : Shots) : Prop extends FiresOnce x where
  watcher : x.signal.watcher.Inv
  depth : x.signal.watcher.frames.length ≤ 1
  due : x.armed = true → x.signal.watcher.opcmdState ≠ .start
  done : x.spent = true → x.signal.watcher.opcmdState.started = false

/-- No occurrence is delivered after a failed start has taken the mode away from a one-shot
start, and a callback that a one-shot start has led to stops or restarts the signal before
it returns, or leaves nothing that refers to it. -/
def Retires (x : Shots) : SignalEvent → Prop
  | .deliver => x.armed = true → x.signal.watcher.callback = true →
    x.signal.watcher.opcmdState = .startOneshot
  | .callbackEnd => x.spent = true → x.signal.watched = none ∨ x.signal.watcher.vars = 0
  | _ => True

variable {x y : Shots} {e : SignalEvent} {t : Signal}

theorem inv_init (signum : ℤ) : (init signum).Inv where
  called := by simp [init]
  stopped := by simp [init]
  watcher := Watcher.inv_init
  depth := by simp [init, Signal.init, Watcher.init]
  due := by simp [init]
  done := by simp [init]

theorem Inv.started (hx : x.Inv) {signum ret : ℤ} {oneshot : Bool}
    (h : Signal.Starts x.signal t signum oneshot ret) : (x.started t signum oneshot ret).Inv := by
  have hcmd := h.opcmdState
  unfold Shots.started
  split_ifs with hfail
  · rw [if_pos hfail] at hcmd
    refine ⟨⟨hx.called, fun hspent hf => ?_⟩, h.inv hx.watcher, h.frames ▸ hx.depth, fun _ => ?_, fun _ => ?_⟩
    · rw [h.watched, Signal.uvSignalStart_fails hfail, hx.stopped hspent (h.frames ▸ hf)]
      exact ite_self _
    · dsimp only
      rw [hcmd]
      decide
    · dsimp only
      rw [hcmd]
      rfl
  · rw [if_neg hfail] at hcmd
    refine ⟨⟨hx.called, fun hspent => nomatch hspent⟩, h.inv hx.watcher, h.frames ▸ hx.depth,
      fun harmed => ?_, fun hspent => nomatch hspent⟩
    dsimp only at harmed ⊢
    rw [hcmd, if_pos harmed]
    decide

theorem Inv.delivered (hx : x.Inv) (hok : x.Retires .deliver) (h : x.signal.step .deliver = some t) :
    (x.delivered t).Inv := by
  obtain ⟨hsome, hframes, hinv, _, hlen, hcmd⟩ := Signal.step_delivers h
  have hfresh : x.spent = false := by
    by_contra hspent
    rw [hx.stopped (Bool.not_eq_false _ ▸ hspent) hframes] at hsome
    cases hsome
  refine ⟨⟨fun i hi => ?_, fun _ hf => ?_⟩, hinv hx.watcher, hlen.le, (fun harmed => nomatch harmed),
    fun hspent => ?_⟩
  · simp only [Shots.delivered] at hi
    split_ifs at hi with hcb
    · rcases List.mem_cons.mp hi with rfl | hi
      · exact ⟨hfresh, fun harmed => decide_eq_true (hok harmed hcb)⟩
      · exact hx.called i hi
    · exact hx.called i hi
  · change t.watcher.frames = [] at hf
    rw [hf] at hlen
    cases hlen
  · have harmed : x.armed = true := by simpa [Shots.delivered, hfresh] using hspent
    have hdue := hx.due harmed
    change t.watcher.opcmdState.started = false
    rw [hcmd]
    cases hc : x.signal.watcher.opcmdState with
    | start => exact absurd hc hdue
    | _ => rfl

/-- A return leaves no callback running. -/
theorem returns_frames (hx : x.Inv) (h : x.signal.step .callbackEnd = some t) :
    t.watcher.frames = [] := by
  obtain ⟨_, _, _, _, f, hf⟩ := Signal.step_returns h
  have hdepth := hx.depth
  rw [hf, List.length_cons] at hdepth
  exact List.length_eq_zero_iff.mp (by omega)

/-- With a spent one-shot start, the variables are all that the instance is there for. -/
theorem returns_destroyed (hx : x.Inv) (hspent : x.spent = true)
    (h : x.signal.step .callbackEnd = some t) :
    t.watcher.destroyed = decide (x.signal.watcher.vars = 0) := by
  obtain ⟨hinv, hcmd, hvars, _, _⟩ := Signal.step_returns h
  have hframes := returns_frames hx h
  have htotal : t.watcher.total = x.signal.watcher.vars := by
    simp [Watcher.total, Watcher.names, Watcher.arguments, Watcher.running, Watcher.guards, hframes, hcmd,
      hx.done hspent, hvars]
  rw [(hinv hx.watcher).destroyed, htotal]
  norm_cast

theorem Inv.callbackEnd (hx : x.Inv) (hok : x.Retires .callbackEnd)
    (h : x.signal.step .callbackEnd = some t) : Inv { x with signal := t } := by
  obtain ⟨hinv, hcmd, hvars, hwatched, _⟩ := Signal.step_returns h
  have hframes := returns_frames hx h
  refine ⟨⟨hx.called, fun hspent _ => ?_⟩, hinv hx.watcher, ?_, ?_, ?_⟩
  · change t.watched = none
    rw [hwatched, returns_destroyed hx hspent h]
    rcases hok hspent with hnone | hzero
    · rw [hnone]
      exact ite_self _
    · rw [if_pos (decide_eq_true hzero)]
  · simp [hframes]
  · exact fun harmed => hcmd ▸ hx.due harmed
  · exact fun hspent => hcmd ▸ hx.done hspent

theorem Inv.step (hx : x.Inv) (hok : x.Retires e) (h : x.step e = some y) : y.Inv := by
  obtain ⟨t, ht, rfl⟩ := Option.map_eq_some_iff.mp h
  cases e with
  | start ret => exact hx.started (Signal.step_starts rfl ht)
  | startNumber signum ret => exact hx.started (Signal.step_starts rfl ht)
  | startOneshot ret => exact hx.started (Signal.step_starts rfl ht)
  | stop ret =>
    obtain ⟨hinv, hcmd, hwatched, hframes⟩ := Signal.step_stops ht
    refine ⟨⟨hx.called, fun _ _ => hwatched⟩, hinv hx.watcher, hframes ▸ hx.depth,
      (fun harmed => nomatch harmed), fun _ => ?_⟩
    dsimp only
    rw [hcmd]
    rfl
  | deliver => exact hx.delivered hok ht
  | callbackEnd => exact hx.callbackEnd hok ht
  | _ =>
    obtain ⟨hinv, hcmd, hwatched, hlen⟩ := Signal.step_quiet rfl ht
    refine ⟨⟨hx.called, fun hspent hf => ?_⟩, hinv hx.watcher, hlen ▸ hx.depth,
      fun harmed => hcmd ▸ hx.due harmed, fun hspent => hcmd ▸ hx.done hspent⟩
    dsimp only at hf ⊢
    rw [hf, List.length_nil, eq_comm, List.length_eq_zero_iff] at hlen
    have hnone := hx.stopped hspent hlen
    by_contra hsome
    exact hsome (hnone ▸ hwatched (Option.isSome_iff_ne_none.mpr hsome))

/-- A step that misses the condition calls without saying so, or returns with the watcher active. -/
theorem not_firesOnce (hx : x.Inv) (hok : ¬ x.Retires e) (h : x.step e = some y) : ¬ y.FiresOnce := by
  obtain ⟨t, ht, rfl⟩ := Option.map_eq_some_iff.mp h
  intro honce
  cases e with
  | deliver =>
    refine hok fun harmed hcb => ?_
    have hcalled := honce.called
    simp only [Shots.delivered, if_pos hcb] at hcalled
    have hflag := (hcalled _ List.mem_cons_self).2 harmed
    exact of_decide_eq_true hflag
  | callbackEnd =>
    refine hok fun hspent => ?_
    obtain ⟨_, _, _, hwatched, _⟩ := Signal.step_returns ht
    have hstopped : t.watched = none := honce.stopped hspent (returns_frames hx ht)
    rw [hwatched, returns_destroyed hx hspent ht] at hstopped
    split_ifs at hstopped with hzero
    · exact .inr (of_decide_eq_true hzero)
    · exact .inl hstopped
  | _ => exact hok trivial

end Shots

/-- In every run, one-shot starts fire once exactly as long as the callbacks that they lead
to stop or restart the signal themselves, and no failed start comes in between. -/
theorem oneshot_fires_once_iff (signum : ℤ) (es : List SignalEvent) :
    (∀ x ∈ visited Shots.step (Shots.init signum) es, x.FiresOnce) ↔
      ∀ p ∈ taken Shots.step (Shots.init signum) es, p.1.Retires p.2 :=
  visited_iff_guarded (fun _ hx => hx.toFiresOnce) (fun _ _ _ hx hok h => hx.step hok h)
    (fun _ _ _ hx hok h => Shots.not_firesOnce hx hok h) es _ (Shots.inv_init signum)

def signalledTwice : List SignalEvent :=
  [.setCallback true, .startOneshot 0, .deliver, .callbackEnd, .deliver]

/-- libuv's watcher was never stopped, and the callback is called again. -/
theorem oneshot_fires_twice :
    ¬ ∀ (signum : ℤ) (es : List SignalEvent),
      ∀ x ∈ visited Shots.step (Shots.init signum) es, x.FiresOnce := by
  intro h
  have hcalled := (h 10 signalledTwice _ (final_visited _ _)).called
  revert hcalled
  decide

end Uvcc.Watchers
