import Uvcc.Io.ReadLock
import Uvcc.Machine.Simulation

/-!
# Read commands in one order

The commands that threads give on a stream or a udp socket hold the spinlock from the
first access to the command state to the return. Between them the loop delivers data and
threads set the callbacks, without the lock. All of it amounts to whole commands one
after another on one endpoint, up to the reference count and the last status.
-/
namespace Uvcc.Io
open Machine

namespace Endpoint
variable {e a : Endpoint Libuv} {iface : Interface Libuv Answer}

/-- What commands read and write of an endpoint besides its count and its status. -/
def core (e : Endpoint Libuv) : Endpoint Libuv := { e with toCounter := .of 0, uvError := 0 }

@[simp] theorem core_core (e : Endpoint Libuv) : e.core.core = e.core := rfl
@[simp] theorem ref_core (e : Endpoint Libuv) : e.ref.core = e.core := rfl
@[simp] theorem unref_core (e : Endpoint Libuv) : e.unref.core = e.core := rfl
@[simp] theorem uvStatus_core (e : Endpoint Libuv) (v : ℤ) : (e.uvStatus v).core = e.core := rfl

/-- What depends on the core alone is the same for endpoints with the same core. -/
theorem congr_core {V : Type*} (f : Endpoint Libuv → V) (hf : ∀ e, f e = f e.core)
    (h : e.core = a.core) : f e = f a := by
  rw [hf e, h, ← hf a]

theorem core_congr (f : Endpoint Libuv → Endpoint Libuv) (hf : ∀ e, (f e).core = (f e.core).core)
    (h : e.core = a.core) : (f e).core = (f a).core :=
  congr_core (fun e => (f e).core) hf h

theorem settle_core (e : Endpoint Libuv) (ret : ℤ) : (e.settle ret).core = (e.core.settle ret).core := by
  unfold settle
  split <;> rfl

theorem halt_core (e : Endpoint Libuv) (prev next : Rdcmd) (r : Answer) :
    (e.halt iface prev next r).core = (e.core.halt iface prev next r).core := by
  cases prev <;> rfl

theorem prepareStart_core (e : Endpoint Libuv) (prev : Rdcmd) (size : ℕ) (r : Answer) :
    (e.prepareStart iface prev size r).core = (e.core.prepareStart iface prev size r).core := by
  cases prev <;> rfl

theorem readStop_eq (a : Endpoint Libuv) (r : Answer) :
    a.readStop iface r = (a.halt iface a.rdcmd .stop r, a.stopStatus iface r) := by
  unfold readStop halt
  cases a.rdcmd <;> rfl

theorem readPause_eq (a : Endpoint Libuv) (r : Answer) : a.readPause iface true r =
    if a.rdcmd.reading then (a.halt iface a.rdcmd .pause r, a.stopStatus iface r) else (a, 2) := by
  unfold readPause halt
  cases hc : a.rdcmd <;> simp [Rdcmd.reading]

theorem readResume_eq (a : Endpoint Libuv) (r : Answer) : a.readResume iface true r =
    if a.rdcmd = .pause then ({ a with rdcmd := .resume }.ref).submit iface a.rdoffset r else (a, 2) := by
  unfold readResume
  cases hc : a.rdcmd <;> simp

theorem submit_core (a : Endpoint Libuv) (offset : ℤ) (r : Answer) :
    (a.submit iface offset r).1.core =
      ((a.startReading iface offset r).settle (a.startStatus iface offset r)).core := by
  unfold submit settle
  dsimp only
  split_ifs <;> rfl

theorem submit_status (a : Endpoint Libuv) (offset : ℤ) (r : Answer) :
    (a.submit iface offset r).2 = a.startStatus iface offset r := by
  unfold submit
  dsimp only
  split_ifs <;> rfl

/-! ## What happens without the lock -/

/-- The callbacks may be set, and the offset may move. -/
def touch (e : Endpoint Libuv) (set : Bool) (n : ℤ) : Endpoint Libuv :=
  { e with
    allocCb := e.allocCb || set
    readCb := e.readCb || set
    rdoffset := e.rdoffset + n }

variable (set : Bool) (n : ℤ)

theorem touch_core (e : Endpoint Libuv) : (e.touch set n).core = (e.core.touch set n).core := rfl

theorem settle_touch (ret : ℤ) : (e.touch set n).settle ret = (e.settle ret).touch set n := by
  unfold settle
  split <;> rfl

theorem prepareStart_touch (k : Kind) (prev : Rdcmd) (size : ℕ) (r : Answer) :
    (e.touch set n).prepareStart k.interface prev size r =
      (e.prepareStart k.interface prev size r).touch set n := by
  cases prev <;> rfl

theorem touch_setCallbacks (e : Endpoint Libuv) : { e with allocCb := true, readCb := true } = e.touch true 0 := by
  simp [touch]

theorem touch_received (e : Endpoint Libuv) (nread : ℤ) :
    { e with rdoffset := if 0 < nread then e.rdoffset + nread else e.rdoffset } =
      e.touch false (if 0 < nread then nread else 0) := by
  unfold touch
  split_ifs <;> simp

theorem touch_none (e : Endpoint Libuv) : e.touch false 0 = e := by
  simp [touch]

end Endpoint

/-! ## Whole commands -/

inductive EndpointEvent where
  | setCallbacks
  | deliver
  | received (nread : ℤ)
  deriving DecidableEq, Repr

namespace Endpoint

def apply (k : Kind) (a : Endpoint Libuv) : ReadCommand → Endpoint Libuv × ℤ
  | .start size offset rStop r => a.readStart k.interface size offset rStop r
  | .stop r => a.readStop k.interface r
  | .pause r => a.readPause k.interface true r
  | .resume r => a.readResume k.interface true r

/-- A delivery begins on an endpoint that is being read; what was received moves its
offset. -/
def react (a : Endpoint Libuv) : EndpointEvent → Option (Endpoint Libuv)
  | .setCallbacks => some { a with allocCb := true, readCb := true }
  | .deliver => if a.world.reading then some a else none
  | .received nread => some { a with rdoffset := if 0 < nread then a.rdoffset + nread else a.rdoffset }

def half (k : Kind) (a : Endpoint Libuv) : ReadCommand → Endpoint Libuv
  | .start size _ rStop _ => a.prepareStart k.interface a.rdcmd size rStop
  | .resume _ => { a with rdcmd := .resume }
  | .stop _ => a
  | .pause _ => a

def Starts (a : Endpoint Libuv) : ReadCommand → Prop
  | .start _ _ _ _ => ¬ (a.allocCb = false ∨ a.readCb = false)
  | .resume _ => a.rdcmd = .pause
  | .stop _ => False
  | .pause _ => False

def Ready (e : Endpoint Libuv) : ReadCommand → Prop
  | .start _ _ _ _ => ¬ (e.allocCb = false ∨ e.readCb = false)
  | _ => True

/-- How the endpoint `e` in the middle of a command stands to `a`, on which the command
takes effect with the virtual `read_start`, or else with the write of the state. -/
def Progress (k : Kind) (e a : Endpoint Libuv) (c : ReadCommand) : Pc → Prop
  | .called => True
  | .locked => e.core = a.core
  | .decided prev => e.core = a.core ∧ prev = e.rdcmd ∧ e.Ready c
  | .written => e.core = (a.half k c).core ∧ a.Starts c
  | .allocated => False
  | .submitted ret => (e.settle ret).core = a.core
  | .leaving _ => e.core = a.core

variable {k : Kind} {e e' a : Endpoint Libuv} {c : ReadCommand} {pc : Pc}

theorem Starts.touch (h : a.Starts c) (set : Bool) (n : ℤ) : (a.touch set n).Starts c := by
  cases c with
  | start size offset rStop r =>
    simp only [Starts, Endpoint.touch, Bool.or_eq_false_iff] at h ⊢
    tauto
  | stop r => exact h
  | pause r => exact h
  | resume r => exact h

theorem Ready.congr (h : e.Ready c) {set : Bool} {n : ℤ} (he : e'.core = (e.touch set n).core) :
    e'.Ready c := by
  have ha : e'.allocCb = (e.touch set n).allocCb := congr_core Endpoint.allocCb (fun _ => rfl) he
  have hr : e'.readCb = (e.touch set n).readCb := congr_core Endpoint.readCb (fun _ => rfl) he
  cases c with
  | start size offset rStop r =>
    simp only [Ready, ha, hr, Endpoint.touch, Bool.or_eq_false_iff] at h ⊢
    tauto
  | stop r => trivial
  | pause r => trivial
  | resume r => trivial

theorem half_touch (set : Bool) (n : ℤ) : (a.touch set n).half k c = (a.half k c).touch set n := by
  cases c with
  | start size offset rStop r => exact prepareStart_touch set n k a.rdcmd size rStop
  | stop r => rfl
  | pause r => rfl
  | resume r => rfl

/-- What happens without the lock happens to both endpoints alike. -/
theorem Progress.touch (h : Progress k e a c pc) {set : Bool} {n : ℤ}
    (he : e'.core = (e.touch set n).core) : Progress k e' (a.touch set n) c pc := by
  have hsame (hc : e.core = a.core) : e'.core = (a.touch set n).core :=
    he.trans (core_congr (Endpoint.touch · set n) (touch_core set n) hc)
  cases pc with
  | called => trivial
  | locked => exact hsame h
  | decided prev =>
    obtain ⟨hc, rfl, hready⟩ := h
    have hcmd : e'.rdcmd = (e.touch set n).rdcmd := congr_core Endpoint.rdcmd (fun _ => rfl) he
    exact ⟨hsame hc, hcmd.symm, hready.congr he⟩
  | written =>
    obtain ⟨hc, hstarts⟩ := h
    refine ⟨?_, hstarts.touch set n⟩
    rw [half_touch]
    exact he.trans (core_congr (Endpoint.touch · set n) (touch_core set n) hc)
  | allocated => exact h
  | submitted ret =>
    have hs : (e'.settle ret).core = ((e.touch set n).settle ret).core :=
      core_congr (settle · ret) (settle_core · ret) he
    rw [Progress, hs, settle_touch]
    exact core_congr (Endpoint.touch · set n) (touch_core set n) h
  | leaving ret => exact hsame h

theorem Progress.congr (h : Progress k e a c pc) (he : e'.core = e.core) : Progress k e' a c pc := by
  rw [← touch_none a]
  exact h.touch (he.trans (congrArg core (touch_none e).symm))

/-- The command state that a stop or a pause writes, on both endpoints. -/
theorem halt_congr (h : e.core = a.core) (next : Rdcmd) (r : Answer) :
    (e.halt k.interface e.rdcmd next r).core = (a.halt k.interface a.rdcmd next r).core ∧
      e.stopStatus k.interface r = a.stopStatus k.interface r := by
  have hcmd : e.rdcmd = a.rdcmd := congr_core Endpoint.rdcmd (fun _ => rfl) h
  rw [hcmd]
  exact ⟨core_congr (halt k.interface · a.rdcmd next r) (halt_core · a.rdcmd next r) h,
    congr_core (stopStatus k.interface · r) (fun _ => rfl) h⟩

/-- The callbacks are missing: the command has no effect on the core. -/
theorem apply_invalid (size : ℕ) (offset : ℤ) (rStop r : Answer)
    (h : a.allocCb = false ∨ a.readCb = false) :
    a.apply k (.start size offset rStop r) = (a.uvStatus uvEINVAL, uvEINVAL) := if_pos h

def startOffset (e : Endpoint Libuv) : ReadCommand → ℤ
  | .start _ offset _ _ => offset
  | _ => e.rdoffset

/-- The virtual `read_start` and the end of the command, for the endpoint as it is half
way through. -/
theorem apply_starts (h : a.Starts c) :
    (a.apply k c).1.core = (((a.half k c).startReading k.interface (a.startOffset c) (Threads.startAnswer c)).settle
        ((a.half k c).startStatus k.interface (a.startOffset c) (Threads.startAnswer c))).core ∧
      (a.apply k c).2 = (a.half k c).startStatus k.interface (a.startOffset c) (Threads.startAnswer c) := by
  cases c with
  | start size offset rStop r =>
    rw [apply, Threads.readStart_eq a k.interface size offset rStop r h]
    exact ⟨submit_core _ offset r, submit_status _ offset r⟩
  | stop r => exact h.elim
  | pause r => exact h.elim
  | resume r =>
    have hpause : a.rdcmd = .pause := h
    rw [apply, readResume_eq, if_pos hpause]
    refine ⟨(submit_core _ a.rdoffset r).trans ?_, submit_status _ a.rdoffset r⟩
    exact core_congr (settle · _) (settle_core · _) rfl

/-- A start has stopped a socket before it starts it again. -/
theorem half_reading (hk : k ≠ .file) (h : (a.half k c).world.reading = true) : a.world.reading = true := by
  cases c with
  | start size offset rStop r =>
    cases hc : a.rdcmd
    all_goals
      simp only [half, prepareStart, hc] at h
      first
      | exact h
      | cases k
        · cases h
        · cases h
        · exact absurd rfl hk
  | stop r => exact h
  | pause r => exact h
  | resume r => exact h

/-- A command that has reached the virtual `read_start` takes effect with it. -/
theorem Progress.starts (h : Progress k e a c .written) :
    Progress k (e.startReading k.interface (e.startOffset c) (Threads.startAnswer c)) (a.apply k c).1 c
        (.submitted (e.startStatus k.interface (e.startOffset c) (Threads.startAnswer c))) ∧
      (a.apply k c).2 = e.startStatus k.interface (e.startOffset c) (Threads.startAnswer c) := by
  obtain ⟨hcore, hstarts⟩ := h
  set r := Threads.startAnswer c
  have hoffset : e.startOffset c = a.startOffset c := by
    have hrd : e.rdoffset = (a.half k c).rdoffset := congr_core Endpoint.rdoffset (fun _ => rfl) hcore
    cases c with
    | start size offset rStop r => rfl
    | stop r => exact hrd
    | pause r => exact hrd
    | resume r => exact hrd
  have hstatus : e.startStatus k.interface (a.startOffset c) r =
      (a.half k c).startStatus k.interface (a.startOffset c) r :=
    congr_core (startStatus k.interface · (a.startOffset c) r) (fun _ => rfl) hcore
  obtain ⟨hobject, hret⟩ := apply_starts (k := k) hstarts
  rw [hoffset, hstatus]
  refine ⟨?_, hret⟩
  rw [Progress, hobject]
  refine core_congr (settle · _) (settle_core · _) ?_
  exact core_congr (startReading k.interface · (a.startOffset c) r) (fun _ => rfl) hcore

end Endpoint

/-! ## The threads follow the whole commands -/

def Pc.operation (c : ReadCommand) : Pc → ReadCommand ⊕ ℤ
  | .submitted ret => .inr ret
  | .leaving ret => .inr ret
  | _ => .inl c

namespace Threads
variable {T : Type*}

def operation : List Activation → Option (ReadCommand ⊕ ℤ)
  | .command c pc :: _ => some (pc.operation c)
  | _ => none

/-- The steps of a command that can be seen: where it takes effect, and its return. -/
def shownBy (s : Threads T) (t : T) (c : ReadCommand) :
    Pc → List (Interaction T ReadCommand EndpointEvent ℤ)
  | .locked => match c with
    | .start _ _ _ _ => if s.endpoint.allocCb = false ∨ s.endpoint.readCb = false then [.effect t] else []
    | _ => []
  | .decided prev => match c with
    | .start _ _ _ _ => []
    | .resume _ => if prev = .pause then [] else [.effect t]
    | _ => [.effect t]
  | .written => [.effect t]
  | .leaving ret => [.returned t ret]
  | _ => []

def shown (s : Threads T) : Action T → List (Interaction T ReadCommand EndpointEvent ℤ)
  | .setCallbacks _ => [.event .setCallbacks]
  | .call t c => [.called t c]
  | .advance t => match s.stack t with
    | .command c pc :: _ => s.shownBy t c pc
    | _ => []
  | .finish _ => []
  | .deliver _ _ _ => [.event .deliver]
  | .proceed _ => match s.delivery with
    | some (nread, .reading) => [.event (.received nread)]
    | _ => []

/-- The endpoint is the one that the whole commands have made, but for the command that
holds the lock. -/
structure Follows (k : Kind) (s : Threads T) (a : Atomic (Endpoint Libuv) T ReadCommand ℤ) : Prop where
  kind : s.kind = k
  socket : k ≠ .file
  guarded : s.Guarded
  phase : ∀ d, s.delivery = some d → d.2 = .allocating ∨ d.2 = .reading
  pending : ∀ t, a.pending t = operation (s.stack t)
  free : s.holder = none → s.endpoint.core = a.object.core
  held : ∀ t c pc rest, s.stack t = .command c pc :: rest →
    s.endpoint.Progress k a.object c pc

variable {k : Kind} {s u : Threads T} {a b : Atomic (Endpoint Libuv) T ReadCommand ℤ} {t : T}
  {c : ReadCommand} {pc : Pc} {rest : List Activation}

theorem operation_user {fs : List Activation} (h : ∀ x ∈ fs, ∃ cb, x = .user cb) : operation fs = none := by
  cases fs with
  | nil => rfl
  | cons x xs =>
    obtain ⟨cb, rfl⟩ := h x List.mem_cons_self
    rfl

/-- A command on top of a stack is in the thread's hands alone. -/
theorem Follows.alone (h : Follows k s a) (hst : s.stack t = .command c pc :: rest) (hpc : pc ≠ .called)
    {t' : T} {c' : ReadCommand} {pc' : Pc} {rest' : List Activation}
    (hst' : s.stack t' = .command c' pc' :: rest') (hne : t' ≠ t) : pc' = .called := by
  by_contra hpc'
  have hheld : s.holder = some t := (h.guarded.holder t).mpr (hst ▸ inside_command.mpr hpc)
  have hheld' : s.holder = some t' := (h.guarded.holder t').mpr (hst' ▸ inside_command.mpr hpc')
  exact hne (Option.some.inj (hheld'.symm.trans hheld))

theorem init_follows (k : Kind) (hk : k ≠ .file) (loop : T) :
    Follows k (init k loop) (.init (Endpoint.init ⟨false, []⟩ 1)) where
  kind := rfl
  socket := hk
  guarded := init_guarded k loop
  phase d hd := by simp [init] at hd
  pending t := rfl
  free _ := rfl
  held t c pc rest h := by simp [init] at h

theorem Follows.defers (h : Follows k s a) (e : Action T) : s.Defers e := fun _ _ _ _ _ => h.kind ▸ h.socket

variable [DecidableEq T]

/-- The command that holds the lock moves on. -/
theorem Follows.move (h : Follows k s a) (hst : s.stack t = .command c pc :: rest) (hpc : pc ≠ .called)
    {q : Pc} {e : Endpoint Libuv} (hu : u = (s.setEndpoint e).goto t c q rest)
    (hstep : s.step (.advance t) = some u)
    (hpending : b.pending = Function.update a.pending t (some (q.operation c)))
    (hprogress : e.Progress k b.object c q) : Follows k u b := by
  have hheld : s.holder = some t := (h.guarded.holder t).mpr (hst ▸ inside_command.mpr hpc)
  subst hu
  refine ⟨h.kind, h.socket, step_guarded h.guarded (h.defers _) hstep, h.phase, fun t' => ?_, fun hfree => ?_,
    fun t' c' pc'' rest' hst' => ?_⟩
  · rw [hpending]
    by_cases ht : t' = t
    · subst ht
      simp [goto, setStack, operation]
    · simp [goto, setStack, setEndpoint, ht, h.pending t']
  · exact absurd (hheld.symm.trans hfree) (by simp)
  · by_cases ht : t' = t
    · subst ht
      simp only [goto, setStack, setEndpoint, Function.update_self, List.cons.injEq,
        Activation.command.injEq] at hst'
      obtain ⟨⟨rfl, rfl⟩, _⟩ := hst'
      exact hprogress
    · simp only [goto, setStack, setEndpoint, Function.update_of_ne ht] at hst'
      rw [h.alone hst hpc hst' ht]
      trivial

/-- It moves on without being seen. -/
theorem Follows.silent (h : Follows k s a) (hst : s.stack t = .command c pc :: rest) (hpc : pc ≠ .called)
    {q : Pc} {e : Endpoint Libuv} (hu : u = (s.setEndpoint e).goto t c q rest)
    (hstep : s.step (.advance t) = some u) (hop : q.operation c = pc.operation c)
    (hshown : s.shownBy t c pc = []) (hprogress : e.Progress k a.object c q) :
    ∃ b, (s.shown (.advance t)).foldlM (Atomic.step (Endpoint.apply k) Endpoint.react) a = some b ∧
      Follows k u b := by
  have hp : a.pending t = some (pc.operation c) := by rw [h.pending t, hst, operation]
  refine ⟨a, ?_, h.move hst hpc hu hstep ?_ hprogress⟩
  · simp [shown, hst, hshown]
  · rw [hop, ← hp, Function.update_eq_self]

/-- It takes effect. -/
theorem Follows.takeEffect (h : Follows k s a) (hst : s.stack t = .command c pc :: rest) (hpc : pc ≠ .called)
    {q : Pc} {e : Endpoint Libuv} (hu : u = (s.setEndpoint e).goto t c q rest)
    (hstep : s.step (.advance t) = some u) (hcalled : pc.operation c = .inl c)
    (hshown : s.shownBy t c pc = [.effect t])
    (hret : q.operation c = .inr (a.object.apply k c).2)
    (hprogress : e.Progress k (a.object.apply k c).1 c q) :
    ∃ b, (s.shown (.advance t)).foldlM (Atomic.step (Endpoint.apply k) Endpoint.react) a = some b ∧
      Follows k u b := by
  have hp : a.pending t = some (.inl c) := by rw [h.pending t, hst, operation, hcalled]
  set b : Atomic (Endpoint Libuv) T ReadCommand ℤ :=
    { a with object := (a.object.apply k c).1 }.setPending t (some (.inr (a.object.apply k c).2))
  have heffect : a.step (Endpoint.apply k) Endpoint.react (.effect t) = some b := Atomic.step_effect hp
  refine ⟨b, ?_, h.move hst hpc hu hstep ?_ hprogress⟩
  · simp [shown, hst, hshown, heffect]
  · rw [hret]
    rfl

/-- The lock is taken. -/
theorem Follows.lock (h : Follows k s a) (hst : s.stack t = .command c .called :: rest)
    (hstep : s.step (.advance t) = some u) : Follows k u a := by
  have hguarded := step_guarded h.guarded (h.defers _) hstep
  simp only [step, hst, runCommand, Option.ite_none_right_eq_some, Option.some.injEq] at hstep
  obtain ⟨hfree, rfl⟩ := hstep
  refine ⟨h.kind, h.socket, hguarded, h.phase, fun t' => ?_, fun hf => ?_, fun t' c' pc' rest' hst' => ?_⟩
  · by_cases ht : t' = t
    · subst ht
      rw [h.pending t', hst]
      simp [goto, setStack, operation, Pc.operation]
    · simp [goto, setStack, ht, h.pending t']
  · simp [goto, setStack] at hf
  · by_cases ht : t' = t
    · subst ht
      simp only [goto, setStack, Function.update_self, List.cons.injEq, Activation.command.injEq] at hst'
      obtain ⟨⟨rfl, rfl⟩, _⟩ := hst'
      exact h.free hfree
    · simp only [goto, setStack, Function.update_of_ne ht] at hst'
      exact h.held t' c' pc' rest' hst'

/-- The lock is given up, and the command returns. -/
theorem Follows.unlock (h : Follows k s a) {ret : ℤ} (hst : s.stack t = .command c (.leaving ret) :: rest)
    (hstep : s.step (.advance t) = some u) :
    ∃ b, (s.shown (.advance t)).foldlM (Atomic.step (Endpoint.apply k) Endpoint.react) a = some b ∧
      Follows k u b := by
  have hguarded := step_guarded h.guarded (h.defers _) hstep
  simp only [step, hst, runCommand, Option.some.injEq] at hstep
  subst hstep
  have hp : a.pending t = some (.inr ret) := by rw [h.pending t, hst, operation, Pc.operation]
  have hreturn : a.step (Endpoint.apply k) Endpoint.react (.returned t ret) =
      some (a.setPending t none) := Atomic.step_returned hp
  have huser := h.guarded.userTail hst
  have hcore : s.endpoint.core = a.object.core := h.held t c _ rest hst
  refine ⟨a.setPending t none, ?_, h.kind, h.socket, hguarded, h.phase, fun t' => ?_, fun _ => hcore,
    fun t' c' pc' rest' hst' => ?_⟩
  · simp [shown, hst, shownBy, hreturn]
  · by_cases ht : t' = t
    · subst ht
      simp [setStack, operation_user huser]
    · rw [Atomic.setPending_of_ne ht]
      simp [setStack, ht, h.pending t']
  · by_cases ht : t' = t
    · subst ht
      simp only [setStack, Function.update_self] at hst'
      obtain ⟨cb, hcb⟩ := huser (.command c' pc') (hst' ▸ List.mem_cons_self)
      cases hcb
    · simp only [setStack, Function.update_of_ne ht] at hst'
      rw [h.alone hst (by simp) hst' ht]
      trivial

/-- The first access to the command state. -/
theorem Follows.readState (h : Follows k s a) (hst : s.stack t = .command c .locked :: rest)
    (hstep : s.step (.advance t) = some u) :
    ∃ b, (s.shown (.advance t)).foldlM (Atomic.step (Endpoint.apply k) Endpoint.react) a = some b ∧
      Follows k u b := by
  have hcore : s.endpoint.core = a.object.core := h.held t c _ rest hst
  have hu : s.readState t c rest = u := by simpa [step, hst, runCommand] using hstep
  have hdecided (hready : s.endpoint.Ready c) (hu : s.goto t c (.decided s.endpoint.rdcmd) rest = u)
      (hshown : s.shownBy t c .locked = []) :
      ∃ b, (s.shown (.advance t)).foldlM (Atomic.step (Endpoint.apply k) Endpoint.react) a = some b ∧
        Follows k u b :=
    h.silent hst (by simp) hu.symm hstep rfl hshown ⟨hcore, rfl, hready⟩
  cases c with
  | start size offset rStop r =>
    by_cases hcb : s.endpoint.allocCb = false ∨ s.endpoint.readCb = false
    · have hcb' : a.object.allocCb = false ∨ a.object.readCb = false := by
        rwa [← Endpoint.congr_core Endpoint.allocCb (fun _ => rfl) hcore,
          ← Endpoint.congr_core Endpoint.readCb (fun _ => rfl) hcore]
      have happly := Endpoint.apply_invalid (k := k) size offset rStop r hcb'
      refine h.takeEffect hst (by simp) (e := s.endpoint.uvStatus uvEINVAL) (q := .leaving uvEINVAL) ?_
        hstep rfl ?_ ?_ ?_
      · rw [← hu]
        simp only [Threads.readState, hcb, if_true]
      · simp only [shownBy, hcb, if_true]
      · rw [happly, Pc.operation]
      · rw [happly]
        exact hcore
    · refine hdecided hcb ?_ ?_
      · simpa only [Threads.readState, hcb, if_false] using hu
      · simp only [shownBy, hcb, if_false]
  | stop r => exact hdecided trivial hu rfl
  | pause r => exact hdecided trivial hu rfl
  | resume r => exact hdecided trivial hu rfl

/-- The write of the command state. -/
theorem Follows.writeState (h : Follows k s a) {prev : Rdcmd}
    (hst : s.stack t = .command c (.decided prev) :: rest) (hstep : s.step (.advance t) = some u) :
    ∃ b, (s.shown (.advance t)).foldlM (Atomic.step (Endpoint.apply k) Endpoint.react) a = some b ∧
      Follows k u b := by
  obtain ⟨hcore, hprev, hready⟩ := h.held t c _ rest hst
  subst hprev
  have hu : s.writeState t c s.endpoint.rdcmd rest = u := by simpa [step, hst, runCommand] using hstep
  have hcmd : s.endpoint.rdcmd = a.object.rdcmd := Endpoint.congr_core Endpoint.rdcmd (fun _ => rfl) hcore
  have hkind := h.kind
  subst hkind
  -- a command that the state refuses
  have hrefused (happly : a.object.apply s.kind c = (a.object, 2)) (hu : s.goto t c (.leaving 2) rest = u)
      (hshown : s.shownBy t c (.decided s.endpoint.rdcmd) = [.effect t]) :
      ∃ b, (s.shown (.advance t)).foldlM (Atomic.step (Endpoint.apply s.kind) Endpoint.react) a = some b ∧
        Follows s.kind u b := by
    refine h.takeEffect hst (by simp) hu.symm hstep rfl hshown ?_ ?_
    · rw [happly, Pc.operation]
    · rw [happly]
      exact hcore
  -- a command that stops the reading
  have hhalted (next : Rdcmd) (r : Answer)
      (happly : a.object.apply s.kind c =
        (a.object.halt s.kind.interface a.object.rdcmd next r, a.object.stopStatus s.kind.interface r))
      (hu : (s.setEndpoint (s.endpoint.halt s.kind.interface s.endpoint.rdcmd next r)).goto t c
        (.leaving (s.endpoint.stopStatus s.kind.interface r)) rest = u)
      (hshown : s.shownBy t c (.decided s.endpoint.rdcmd) = [.effect t]) :
      ∃ b, (s.shown (.advance t)).foldlM (Atomic.step (Endpoint.apply s.kind) Endpoint.react) a = some b ∧
        Follows s.kind u b := by
    obtain ⟨hhalt, hstatus⟩ := Endpoint.halt_congr (k := s.kind) hcore next r
    refine h.takeEffect hst (by simp) hu.symm hstep rfl hshown ?_ ?_
    · rw [happly, Pc.operation, hstatus]
    · rw [happly]
      exact hhalt
  cases c with
  | start size offset rStop r =>
    refine h.silent hst (by simp) hu.symm hstep rfl rfl ⟨?_, ?_⟩
    · rw [Endpoint.half, ← hcmd]
      exact Endpoint.core_congr (Endpoint.prepareStart s.kind.interface · s.endpoint.rdcmd size rStop)
        (Endpoint.prepareStart_core · s.endpoint.rdcmd size rStop) hcore
    · rwa [Endpoint.Starts, ← Endpoint.congr_core Endpoint.allocCb (fun _ => rfl) hcore,
        ← Endpoint.congr_core Endpoint.readCb (fun _ => rfl) hcore]
  | stop r => exact hhalted .stop r (Endpoint.readStop_eq a.object r) hu rfl
  | pause r =>
    have happly : a.object.apply s.kind (.pause r) = _ := Endpoint.readPause_eq a.object r
    cases hc : s.endpoint.rdcmd.reading with
    | true =>
      rw [← hcmd, hc, if_pos rfl] at happly
      refine hhalted .pause r (hcmd ▸ happly) ?_ rfl
      simpa only [Threads.writeState, hc, if_true] using hu
    | false =>
      rw [← hcmd, hc, if_neg Bool.false_ne_true] at happly
      refine hrefused happly ?_ rfl
      simpa only [Threads.writeState, hc, Bool.false_eq_true, if_false] using hu
  | resume r =>
    have happly : a.object.apply s.kind (.resume r) = _ := Endpoint.readResume_eq a.object r
    by_cases hc : s.endpoint.rdcmd = .pause
    · refine h.silent hst (by simp) (e := { s.endpoint with rdcmd := .resume }.ref.uvStatus 0) (q := .written)
        ?_ hstep rfl ?_ ⟨?_, hcmd.symm.trans hc⟩
      · rw [← hu]
        simp only [Threads.writeState, hc]
      · simp only [shownBy, hc, if_true]
      · have hresume := Endpoint.core_congr (fun e => { e with rdcmd := .resume }) (fun _ => rfl) hcore
        exact hresume
    · rw [if_neg (hcmd ▸ hc)] at happly
      refine hrefused happly ?_ ?_
      · rw [← hu]
        cases hcmd' : s.endpoint.rdcmd <;> simp [Threads.writeState, hcmd'] at hc ⊢
      · simp only [shownBy, hc, if_false]

/-- The virtual `read_start` of a socket. -/
theorem Follows.virtualStart (h : Follows k s a) (hst : s.stack t = .command c .written :: rest)
    (hstep : s.step (.advance t) = some u) :
    ∃ b, (s.shown (.advance t)).foldlM (Atomic.step (Endpoint.apply k) Endpoint.react) a = some b ∧
      Follows k u b := by
  have hu : s.virtualStart t c rest = u := by simpa [step, hst, runCommand] using hstep
  have hkind := h.kind
  subst hkind
  obtain ⟨hprogress, hret⟩ := (h.held t c _ rest hst).starts
  have hoffset : s.startOffset c = s.endpoint.startOffset c := by cases c <;> rfl
  refine h.takeEffect hst (by simp)
    (e := s.endpoint.startReading s.kind.interface (s.endpoint.startOffset c) (startAnswer c))
    (q := .submitted (s.endpoint.startStatus s.kind.interface (s.endpoint.startOffset c) (startAnswer c)))
    ?_ hstep rfl rfl ?_ hprogress
  · rw [← hu, ← hoffset]
    have hsocket := h.socket
    unfold Threads.virtualStart
    cases hk : s.kind with
    | file => exact absurd hk hsocket
    | stream => rfl
    | udp => rfl
  · rw [hret, Pc.operation]

/-- One case for each point a command can be at. -/
theorem Follows.advance (h : Follows k s a) (hstep : s.step (.advance t) = some u) :
    ∃ b, (s.shown (.advance t)).foldlM (Atomic.step (Endpoint.apply k) Endpoint.react) a = some b ∧
      Follows k u b := by
  cases hst : s.stack t with
  | nil => simp [step, hst] at hstep
  | cons x rest =>
    cases x with
    | user cb => simp [step, hst] at hstep
    | command c pc =>
      cases pc with
      | called => exact ⟨a, by simp [shown, hst, shownBy], h.lock hst hstep⟩
      | locked => exact h.readState hst hstep
      | decided prev => exact h.writeState hst hstep
      | written => exact h.virtualStart hst hstep
      | allocated => exact (h.held t c _ rest hst).elim
      | submitted ret =>
        have hu : (s.setEndpoint (s.endpoint.settle ret)).goto t c (.leaving ret) rest = u := by
          simpa [step, hst, runCommand] using hstep
        exact h.silent hst (by simp) hu.symm hstep rfl rfl (h.held t c _ rest hst)
      | leaving ret => exact h.unlock hst hstep

/-- A thread calls a command or a callback, or returns from one. -/
theorem Follows.user (h : Follows k s a) (hguarded : u.Guarded) (hkind : u.kind = s.kind)
    (hphase : ∀ d, u.delivery = some d → d.2 = .allocating ∨ d.2 = .reading)
    {l : List Activation} (hstack : u.stack = Function.update s.stack t l) (hholder : u.holder = s.holder)
    (hbelow : ∀ c pc rest, l = .command c pc :: rest → pc = .called)
    (hcore : u.endpoint.core = s.endpoint.core) : Follows k u (a.setPending t (operation l)) := by
  refine ⟨hkind.trans h.kind, h.socket, hguarded, hphase, fun t' => ?_, fun hfree => ?_,
    fun t' c' pc' rest' hst' => ?_⟩
  · rw [hstack]
    by_cases ht : t' = t
    · rw [ht, Function.update_self, Atomic.setPending_self]
    · rw [Function.update_of_ne ht, Atomic.setPending_of_ne ht, h.pending t']
  · rw [hcore]
    exact h.free (hholder ▸ hfree)
  · by_cases ht : t' = t
    · rw [hstack, ht, Function.update_self] at hst'
      rw [hbelow c' pc' rest' hst']
      trivial
    · rw [hstack, Function.update_of_ne ht] at hst'
      exact (h.held t' c' pc' rest' hst').congr hcore

omit [DecidableEq T] in
/-- What happens without the lock happens to the object in one step. -/
theorem Follows.touch (h : Follows k s a) (hguarded : u.Guarded) (hkind : u.kind = s.kind)
    (hphase : ∀ d, u.delivery = some d → d.2 = .allocating ∨ d.2 = .reading)
    (hstack : u.stack = s.stack) (hholder : u.holder = s.holder) {set : Bool} {n : ℤ}
    (hcore : u.endpoint.core = (s.endpoint.touch set n).core) :
    Follows k u { a with object := a.object.touch set n } := by
  refine ⟨hkind.trans h.kind, h.socket, hguarded, hphase, fun t' => ?_, fun hfree => ?_,
    fun t' c' pc' rest' hst' => ?_⟩
  · rw [hstack]
    exact h.pending t'
  · rw [hcore]
    exact Endpoint.core_congr (Endpoint.touch · set n) (Endpoint.touch_core set n) (h.free (hholder ▸ hfree))
  · rw [hstack] at hst'
    exact (h.held t' c' pc' rest' hst').touch hcore

omit [DecidableEq T] in
/-- The endpoint is read by libuv only if the whole commands say so. -/
theorem Follows.reading (h : Follows k s a) (hr : s.endpoint.world.reading = true) :
    a.object.world.reading = true := by
  have hsame (hc : s.endpoint.core = a.object.core) : a.object.world.reading = true := by
    rwa [← Endpoint.congr_core Endpoint.world (fun _ => rfl) hc]
  cases hh : s.holder with
  | none => exact hsame (h.free hh)
  | some t =>
    have hin := (h.guarded.holder t).mp hh
    cases hst : s.stack t with
    | nil => rw [hst] at hin; cases hin
    | cons x rest =>
      cases x with
      | user cb => rw [hst] at hin; cases hin
      | command c pc =>
        have hprogress := h.held t c pc rest hst
        cases pc with
        | called => rw [hst] at hin; cases hin
        | locked => exact hsame hprogress
        | decided prev => exact hsame hprogress.1
        | written =>
          have hworld : s.endpoint.world = (a.object.half k c).world :=
            Endpoint.congr_core Endpoint.world (fun _ => rfl) hprogress.1
          rw [hworld] at hr
          exact Endpoint.half_reading h.socket hr
        | allocated => exact hprogress.elim
        | submitted ret =>
          have hworld : (s.endpoint.settle ret).world = a.object.world :=
            Endpoint.congr_core Endpoint.world (fun _ => rfl) hprogress
          rw [← hworld]
          unfold Endpoint.settle
          split
          · exact hr
          · exact hr
        | leaving ret => exact hsame hprogress

/-- The loop calls a user callback. -/
theorem Follows.invoke (h : Follows k s a) (hfree : s.stack s.loop = []) (cb : Callback) {v : Threads T}
    {d : Option (ℤ × Phase)} (hv : v = { s.setEndpoint v.endpoint with delivery := d })
    (hd : ∀ p, d = some p → p.2 = .allocating ∨ p.2 = .reading)
    (hcore : v.endpoint.core = s.endpoint.core) : Follows k (v.invoke s.loop cb) a := by
  have hg : v.Guarded := hv ▸ (h.guarded.setEndpoint _).delivery d
  have hstack : v.stack = s.stack := by rw [hv]; rfl
  have hloop : v.stack s.loop = [] := by rw [hstack, hfree]
  have hp : a.setPending s.loop (operation [.user cb]) = a := by
    have hnone : a.pending s.loop = operation [.user cb] := by rw [h.pending s.loop, hfree]; rfl
    rw [Atomic.setPending, ← hnone, Function.update_eq_self]
  rw [← hp]
  refine h.user (t := s.loop) (l := [.user cb]) (hg.invoke hloop cb) ?_ ?_ ?_ ?_ (by simp) hcore
  · rw [hv]; rfl
  · rw [hv]; exact hd
  · change Function.update v.stack s.loop (.user cb :: v.stack s.loop) = _
    rw [hloop, hstack]
  · rw [hv]; rfl

/-- `io_read_cb` begins, with or without an allocation callback before it. -/
theorem Follows.enterRead (h : Follows k s a) (hfree : s.stack s.loop = []) {e : Endpoint Libuv}
    (he : e.core = s.endpoint.core) (nread : ℤ) : Follows k ((s.setEndpoint e).enterRead nread) a :=
  h.invoke hfree .read (d := some (nread, .reading)) rfl (by simp) he

theorem Follows.deliver (h : Follows k s a) (hfree : s.stack s.loop = []) {i : ℕ} {result : ℤ}
    {buffer : Bool} (hu : s.deliver i result buffer = some u) :
    a.object.world.reading = true ∧ Follows k u a := by
  have hkind := h.kind
  have hsocket := h.socket
  subst hkind
  have hu' : (if s.endpoint.world.reading = false then none
      else if buffer then some ({ s with delivery := some (result, .allocating) }.invoke s.loop .alloc)
      else some (s.enterRead result)) = some u := by
    rw [← hu]
    unfold Threads.deliver
    cases hk : s.kind with
    | file => exact absurd hk hsocket
    | stream => rfl
    | udp => rfl
  split_ifs at hu' with hr hb
  · obtain rfl := Option.some.inj hu'
    exact ⟨h.reading (by simpa using hr),
      h.invoke hfree .alloc (d := some (result, .allocating)) rfl (by simp) rfl⟩
  · obtain rfl := Option.some.inj hu'
    exact ⟨h.reading (by simpa using hr), h.enterRead hfree (e := s.endpoint) rfl result⟩

theorem simulates : Simulates step (Atomic.step (Endpoint.apply k) Endpoint.react) (shown (T := T)) (Follows k) := by
  intro s e u a h hstep
  have hguarded := step_guarded h.guarded (h.defers e) hstep
  cases e with
  | setCallbacks t =>
    simp only [step, Option.ite_none_right_eq_some, Option.some.injEq] at hstep
    obtain ⟨_, rfl⟩ := hstep
    refine ⟨{ a with object := { a.object with allocCb := true, readCb := true } }, ?_, ?_⟩
    · simp [shown, Atomic.step, Endpoint.react]
    · rw [Endpoint.touch_setCallbacks a.object]
      exact h.touch hguarded rfl h.phase rfl rfl (congrArg Endpoint.core (Endpoint.touch_setCallbacks _))
  | call t c =>
    simp only [step, Option.ite_none_right_eq_some, Option.some.injEq] at hstep
    obtain ⟨huser, rfl⟩ := hstep
    have hp : a.pending t = none := by
      rw [h.pending t]
      exact operation_user (h.guarded.userCode huser).2
    have hcall : a.step (Endpoint.apply k) Endpoint.react (.called t c) =
        some (a.setPending t (some (.inl c))) := Atomic.step_called hp c
    refine ⟨a.setPending t (some (.inl c)), by simp [shown, hcall], ?_⟩
    refine h.user (l := .command c .called :: s.stack t) hguarded rfl h.phase rfl rfl ?_ rfl
    rintro c' pc' rest' heq
    cases heq
    rfl
  | advance t => exact h.advance hstep
  | finish t =>
    simp only [step] at hstep
    split at hstep
    · rename_i cb rest hst
      obtain rfl := Option.some.inj hstep
      have huser := h.guarded.userTail hst
      have hp : a.setPending t (operation rest) = a := by
        have hnone : a.pending t = operation rest := by
          rw [h.pending t, hst, operation_user huser]
          rfl
        rw [Atomic.setPending, ← hnone, Function.update_eq_self]
      refine ⟨a, rfl, ?_⟩
      rw [← hp]
      refine h.user (l := rest) hguarded rfl h.phase rfl rfl (fun c pc rest' heq => ?_) rfl
      obtain ⟨cb, hcb⟩ := huser (.command c pc) (heq ▸ List.mem_cons_self)
      cases hcb
    · cases hstep
  | deliver i result buffer =>
    simp only [step, Option.ite_none_right_eq_some] at hstep
    obtain ⟨hr, hu⟩ := h.deliver hstep.1.1 hstep.2
    refine ⟨a, ?_, hu⟩
    simp [shown, Atomic.step, Endpoint.react, hr]
  | proceed ret =>
    simp only [step] at hstep
    cases hd : s.delivery with
    | none => simp [hd] at hstep
    | some d =>
      simp only [hd, Option.ite_none_right_eq_some, Option.some.injEq] at hstep
      obtain ⟨hfree, rfl⟩ := hstep
      obtain ⟨nread, phase⟩ := d
      rcases h.phase _ hd with hp | hp
      · obtain rfl : phase = .allocating := hp
        exact ⟨a, by simp [shown, hd], h.enterRead hfree (Endpoint.unref_core s.endpoint) nread⟩
      · obtain rfl : phase = .reading := hp
        have hu : s.proceed ret (nread, .reading) = { s.leaveRead nread with delivery := none } := by
          have hsocket := h.socket
          rw [← h.kind] at hsocket
          unfold Threads.proceed
          cases hk : s.kind with
          | file => exact absurd hk hsocket
          | stream => rfl
          | udp => rfl
        rw [hu] at hguarded ⊢
        set n := if 0 < nread then nread else 0
        refine ⟨{ a with object := a.object.touch false n }, ?_, ?_⟩
        · rw [← Endpoint.touch_received]
          simp [shown, hd, Atomic.step, Endpoint.react]
        · refine h.touch hguarded rfl (by simp) rfl rfl ?_
          have hcore := congrArg Endpoint.core (Endpoint.touch_received s.endpoint nread)
          exact hcore

end Threads

/-- In every run of any threads on a stream or a udp socket the commands are whole
commands one after another, each between its call and its return and with the result
that it returns; between them are the settings of callbacks and the deliveries, which
begin only while the endpoint is being read. Whenever the lock is free the endpoint is
the one that these have made. -/
theorem read_commands_linearizable {T : Type*} [DecidableEq T] (k : Kind) (hk : k ≠ .file) (loop : T)
    (es : List (Action T)) : ∃ a : Atomic (Endpoint Libuv) T ReadCommand ℤ,
      (labels Threads.step Threads.shown (Threads.init k loop) es).foldlM
          (Atomic.step (Endpoint.apply k) Endpoint.react) (.init (Endpoint.init ⟨false, []⟩ 1)) = some a ∧
        ((final Threads.step (Threads.init k loop) es).holder = none →
          (final Threads.step (Threads.init k loop) es).endpoint.core = a.object.core) := by
  obtain ⟨a, hrun, hfollows⟩ := Threads.simulates.run es _ _ (Threads.init_follows k hk loop)
  exact ⟨a, hrun, hfollows.free⟩

/-- A stop that another thread gives while a start is on its way. -/
def stoppedOnTheWay : List (Action Bool) :=
  [.setCallbacks true, .call true (.start 0 (-1) ⟨0, 0⟩ ⟨0, 0⟩), .call false (.stop ⟨0, 0⟩),
    .advance true, .advance true, .advance true, .advance true, .advance true, .advance true,
    .advance false, .advance false, .advance false]

theorem start_stop_linearized : ∃ a : Atomic (Endpoint Libuv) Bool ReadCommand ℤ,
    (labels Threads.step Threads.shown (Threads.init .stream true) stoppedOnTheWay).foldlM
        (Atomic.step (Endpoint.apply .stream) Endpoint.react) (.init (Endpoint.init ⟨false, []⟩ 1)) = some a ∧
      ((final Threads.step (Threads.init .stream true) stoppedOnTheWay).holder = none →
        (final Threads.step (Threads.init .stream true) stoppedOnTheWay).endpoint.core = a.object.core) :=
  read_commands_linearizable .stream (by decide) true stoppedOnTheWay

end Uvcc.Io
