import Uvcc.Io.ReadCallbacks

/-!
# Read commands and callbacks in threads

Any number of threads give read commands on one endpoint, and one of them runs the
loop. A command is cut at the acquisition of the spinlock, at each access to
`rdcmd_state`, at the call of a user callback and at the submission to libuv. A user
callback is a frame on the stack of its thread, from which the thread gives further
commands.
-/
namespace Uvcc.Io
open Machine Counting

/-- A command with libuv's answers; `read_pause(false)` and `read_resume(false)` return
before the lock and are not among them. -/
inductive ReadCommand where
  | start (size : ℕ) (offset : ℤ) (rStop rStart : Answer)
  | stop (r : Answer)
  | pause (r : Answer)
  | resume (r : Answer)
  deriving DecidableEq, Repr

/-- How far a command is: at the lock, holding it, with the command state read, with the
new one written, with a buffer for a file read, with libuv's answer, about to return. -/
inductive Pc where
  | called
  | locked
  | decided (prev : Rdcmd)
  | written
  | allocated
  | submitted (ret : ℤ)
  | leaving (ret : ℤ)
  deriving DecidableEq, Repr

inductive Callback where
  | alloc
  | read
  deriving DecidableEq, Repr

inductive Activation where
  | command (c : ReadCommand) (pc : Pc)
  | user (cb : Callback)
  deriving DecidableEq, Repr

/-- How far the loop is with a delivery: in the allocation callback for a socket, in the
read callback, and for a file before the test of `rdcmd_state`, after it, and with a
buffer for the next read. -/
inductive Phase where
  | allocating
  | reading
  | returned
  | tested
  | allocated
  deriving DecidableEq, Repr

namespace Endpoint
variable {W R : Type*}

/-- `io::read_start` from the write of the command state to the virtual call. -/
def prepareStart (iface : Interface W R) (s : Endpoint W) (prev : Rdcmd) (size : ℕ) (rStop : R) :
    Endpoint W :=
  let s' := ({ s with rdcmd := .start }).ref
  let s'' := match prev with
    | .unknown | .stop | .pause => s'
    | .start | .resume => ((s'.stopReading iface rStop).uvStatus (s'.stopStatus iface rStop)).unref
  { s'' with rdsize := size }.uvStatus 0

/-- The failure branch after the virtual `read_start`. -/
def settle (s : Endpoint W) (ret : ℤ) : Endpoint W :=
  if ret < 0 then ({ s.uvStatus ret with rdcmd := .unknown }).unref else s

/-- A restart gives up one reference after it has taken one. -/
theorem prepareStart_refs {iface : Interface W R} {s : Endpoint W} (h : 1 ≤ s.refs) (prev : Rdcmd) (size : ℕ)
    (rStop : R) : 1 ≤ (s.prepareStart iface prev size rStop).refs := by
  have hinc := Counter.inc_refs (c := s.toCounter) (by omega)
  cases prev with
  | unknown | stop | pause =>
    change 1 ≤ s.toCounter.inc.refs
    omega
  | start | resume =>
    change 1 ≤ s.toCounter.inc.refs - 1
    omega

/-- `io::read_stop` and the pause of a file or socket that is read. -/
def halt (iface : Interface W R) (s : Endpoint W) (prev next : Rdcmd) (r : R) : Endpoint W :=
  let s' := (({ s with rdcmd := next }).stopReading iface r).uvStatus (s.stopStatus iface r)
  match prev with
  | .unknown | .stop | .pause => s'
  | .start | .resume => s'.unref

end Endpoint

/-- The state of all threads of type `T`; `invoked` are the calls of user callbacks so
far, each with its thread and the holder of the lock at that moment. -/
structure Threads (T : Type*) where
  kind : Kind
  loop : T
  endpoint : Endpoint Libuv
  holder : Option T
  stack : T → List Activation
  delivery : Option (ℤ × Phase)
  invoked : List (T × Callback × Option T)

/-- `advance` lets the system code on top of a stack run on, `finish` returns from a user
callback, `deliver` begins a delivery and `proceed` goes on with it. For a socket libuv
may report an error without asking for a buffer. -/
inductive Action (T : Type*) where
  | setCallbacks (t : T)
  | call (t : T) (c : ReadCommand)
  | advance (t : T)
  | finish (t : T)
  | deliver (i : ℕ) (result : ℤ) (buffer : Bool)
  | proceed (ret : ℤ)
  deriving DecidableEq, Repr

namespace Threads
variable {T : Type*} [DecidableEq T]

def init (k : Kind) (loop : T) : Threads T where
  kind := k
  loop := loop
  endpoint := Endpoint.init ⟨false, []⟩ 1
  holder := none
  stack _ := []
  delivery := none
  invoked := []

def inUserCode (s : Threads T) (t : T) : Bool :=
  match s.stack t with
  | [] => true
  | .user _ :: _ => true
  | .command _ _ :: _ => false

def setStack (s : Threads T) (t : T) (fs : List Activation) : Threads T :=
  { s with stack := Function.update s.stack t fs }

def goto (s : Threads T) (t : T) (c : ReadCommand) (pc : Pc) (rest : List Activation) : Threads T :=
  s.setStack t (.command c pc :: rest)

def setEndpoint (s : Threads T) (e : Endpoint Libuv) : Threads T := { s with endpoint := e }

/-- The call of a user callback; its handle argument is a new reference. -/
def invoke (s : Threads T) (t : T) (cb : Callback) : Threads T :=
  { (s.setEndpoint s.endpoint.ref).setStack t (.user cb :: s.stack t) with
    invoked := s.invoked ++ [(t, cb, s.holder)] }

def dropArg (s : Threads T) : Threads T := s.setEndpoint s.endpoint.unref

def readState (s : Threads T) (t : T) (c : ReadCommand) (rest : List Activation) : Threads T :=
  match c with
  | .start _ _ _ _ =>
    if s.endpoint.allocCb = false ∨ s.endpoint.readCb = false then
      (s.setEndpoint (s.endpoint.uvStatus uvEINVAL)).goto t c (.leaving uvEINVAL) rest
    else s.goto t c (.decided s.endpoint.rdcmd) rest
  | _ => s.goto t c (.decided s.endpoint.rdcmd) rest

def writeState (s : Threads T) (t : T) (c : ReadCommand) (prev : Rdcmd) (rest : List Activation) :
    Threads T :=
  let iface := s.kind.interface
  match c with
  | .start size _ rStop _ =>
    (s.setEndpoint (s.endpoint.prepareStart iface prev size rStop)).goto t c .written rest
  | .stop r =>
    (s.setEndpoint (s.endpoint.halt iface prev .stop r)).goto t c
      (.leaving (s.endpoint.stopStatus iface r)) rest
  | .pause r =>
    if prev.reading then
      (s.setEndpoint (s.endpoint.halt iface prev .pause r)).goto t c
        (.leaving (s.endpoint.stopStatus iface r)) rest
    else s.goto t c (.leaving 2) rest
  | .resume _ =>
    match prev with
    | .pause =>
      (s.setEndpoint (({ s.endpoint with rdcmd := .resume }).ref.uvStatus 0)).goto t c .written rest
    | _ => s.goto t c (.leaving 2) rest

def startOffset (s : Threads T) : ReadCommand → ℤ
  | .start _ offset _ _ => offset
  | _ => s.endpoint.rdoffset

def startAnswer : ReadCommand → Answer
  | .start _ _ _ r => r
  | .stop r => r
  | .pause r => r
  | .resume r => r

/-- The virtual `read_start`: a file resolves the offset and asks for a buffer, the
others hand over to libuv. -/
def virtualStart (s : Threads T) (t : T) (c : ReadCommand) (rest : List Activation) : Threads T :=
  let offset := s.startOffset c
  let r := startAnswer c
  match s.kind with
  | .file =>
    ((s.setEndpoint { s.endpoint with rdoffset := if offset < 0 then r.tell else offset }).goto t c
      .allocated rest).invoke t .alloc
  | _ =>
    (s.setEndpoint (s.endpoint.startReading s.kind.interface offset r)).goto t c
      (.submitted (s.endpoint.startStatus s.kind.interface offset r)) rest

/-- `uv_fs_read()` at the end of `file_read`. -/
def readFile (s : Threads T) (ret : ℤ) : Threads T :=
  s.setEndpoint { s.endpoint with world := fileRead s.endpoint.world s.endpoint.rdoffset ret }

/-- A thread that holds the lock spins at it like any other. -/
def runCommand (s : Threads T) (t : T) (c : ReadCommand) (rest : List Activation) :
    Pc → Option (Threads T)
  | .called => if s.holder = none then some ({ s with holder := some t }.goto t c .locked rest) else none
  | .locked => some (s.readState t c rest)
  | .decided prev => some (s.writeState t c prev rest)
  | .written => some (s.virtualStart t c rest)
  | .allocated =>
    let ret := (startAnswer c).ret
    some ((s.dropArg.readFile ret).goto t c (.submitted ret) rest)
  | .submitted ret => some ((s.setEndpoint (s.endpoint.settle ret)).goto t c (.leaving ret) rest)
  | .leaving _ => some ({ s with holder := none }.setStack t rest)

def leaveRead (s : Threads T) (nread : ℤ) : Threads T :=
  s.dropArg.setEndpoint { s.dropArg.endpoint with
    rdoffset := if 0 < nread then s.endpoint.rdoffset + nread else s.endpoint.rdoffset }

def enterRead (s : Threads T) (nread : ℤ) : Threads T :=
  { s.setEndpoint { s.endpoint with uvError := nread } with
    delivery := some (nread, .reading) }.invoke s.loop .read

/-- The loop goes on with a delivery; in `file::read_cb` it reads the command state without
the lock. -/
def proceed (s : Threads T) (ret : ℤ) : ℤ × Phase → Threads T
  | (nread, .allocating) => s.dropArg.enterRead nread
  | (nread, .reading) =>
    match s.kind with
    | .file => { s.leaveRead nread with delivery := some (nread, .returned) }
    | _ => { s.leaveRead nread with delivery := none }
  | (nread, .returned) =>
    if s.endpoint.rdcmd.reading then
      { s.setEndpoint (s.endpoint.uvStatus 0) with delivery := some (nread, .tested) }
    else { s with delivery := none }
  | (nread, .tested) => { s with delivery := some (nread, .allocated) }.invoke s.loop .alloc
  | (_, .allocated) =>
    let s' := s.dropArg.readFile ret
    { s'.setEndpoint (if ret < 0 then s'.endpoint.uvStatus ret else s'.endpoint) with delivery := none }

/-- The completion of the read at position `i` of a file, or data for a socket. -/
def deliver (s : Threads T) (i : ℕ) (result : ℤ) (buffer : Bool) : Option (Threads T) :=
  let w := s.endpoint.world
  match s.kind with
  | .file =>
    if i < w.inFlight.length then
      some ((s.setEndpoint { s.endpoint with world := { w with inFlight := w.inFlight.eraseIdx i } }).enterRead
        (if result = 0 then uvEOF else result))
    else none
  | _ =>
    if w.reading = false then none
    else if buffer then some ({ s with delivery := some (result, .allocating) }.invoke s.loop .alloc)
    else some (s.enterRead result)

def step (s : Threads T) : Action T → Option (Threads T)
  | .setCallbacks t =>
    if s.inUserCode t then some (s.setEndpoint { s.endpoint with allocCb := true, readCb := true })
    else none
  | .call t c => if s.inUserCode t then some (s.goto t c .called (s.stack t)) else none
  | .advance t =>
    match s.stack t with
    | .command c pc :: rest => s.runCommand t c rest pc
    | _ => none
  | .finish t =>
    match s.stack t with
    | .user _ :: rest => some (s.setStack t rest)
    | _ => none
  | .deliver i result buffer =>
    if s.stack s.loop = [] ∧ s.delivery = none ∧ s.endpoint.destroyed = false then
      s.deliver i result buffer
    else none
  | .proceed ret =>
    match s.delivery with
    | some d => if s.stack s.loop = [] then some (s.proceed ret d) else none
    | none => none

/-- A delivery begins with one of the user's callbacks, for a file with that for reads. -/
theorem deliver_cases {s u : Threads T} {i : ℕ} {result : ℤ} {buffer : Bool}
    (h : s.deliver i result buffer = some u) :
    (∃ w nread, u = (s.setEndpoint { s.endpoint with world := w }).enterRead nread) ∨
      u = { s with delivery := some (result, .allocating) }.invoke s.loop .alloc := by
  unfold deliver at h
  dsimp only at h
  split at h
  · simp only [Option.ite_none_right_eq_some, Option.some.injEq] at h
    exact .inl ⟨_, _, h.2.symm⟩
  · split_ifs at h
    · exact .inr (Option.some.inj h).symm
    · exact .inl ⟨s.endpoint.world, result, (Option.some.inj h).symm⟩

/-! ## A command that is not interrupted -/

def OwnStep (t : T) (s u : Threads T) : Prop := s.step (.advance t) = some u ∨ s.step (.finish t) = some u

def effect (s : Threads T) : ReadCommand → Endpoint Libuv
  | .start size offset rStop r => (s.endpoint.readStart s.kind.interface size offset rStop r).1
  | .stop r => (s.endpoint.readStop s.kind.interface r).1
  | .pause r => (s.endpoint.readPause s.kind.interface true r).1
  | .resume r => (s.endpoint.readResume s.kind.interface true r).1

def within (s : Threads T) (t : T) (c : ReadCommand) (e : Endpoint Libuv) (pc : Pc) : Threads T :=
  { s with endpoint := e, holder := some t }.goto t c pc (s.stack t)

variable {s u : Threads T} {t : T} {c : ReadCommand} {e : Endpoint Libuv} {pc : Pc}

theorem within_advance (h : (s.within t c e pc).runCommand t c (s.stack t) pc = some u) :
    OwnStep t (s.within t c e pc) u := by
  left
  have hs : (s.within t c e pc).stack t = .command c pc :: s.stack t := Function.update_self _ _ _
  simp only [step, hs, h]

theorem goto_within (pc' : Pc) :
    (s.within t c e pc).goto t c pc' (s.stack t) = s.within t c e pc' := by
  simp [within, goto, setStack]

theorem within_leaves (ret : ℤ) (hh : s.holder = none) :
    OwnStep t (s.within t c e (.leaving ret)) (s.setEndpoint e) := by
  refine within_advance ?_
  simp [runCommand, within, goto, setStack, setEndpoint, ← hh]

theorem within_settles (ret : ℤ) (hh : s.holder = none) :
    Relation.ReflTransGen (OwnStep t) (s.within t c e (.submitted ret)) (s.setEndpoint (e.settle ret)) := by
  have hnext : OwnStep t (s.within t c e (.submitted ret)) (s.within t c (e.settle ret) (.leaving ret)) := by
    refine within_advance ?_
    simp only [runCommand, Option.some.injEq]
    exact goto_within _
  exact .head hnext (.single (within_leaves ret hh))

theorem submit_eq (s : Endpoint Libuv) (iface : Interface Libuv Answer) (offset : ℤ) (r : Answer) :
    (s.submit iface offset r).1 =
      ((s.uvStatus 0).startReading iface offset r).settle (s.startStatus iface offset r) := by
  unfold Endpoint.submit Endpoint.settle
  dsimp only
  split_ifs <;> rfl

theorem submit_uvStatus (s : Endpoint Libuv) (iface : Interface Libuv Answer) (offset : ℤ) (r : Answer) :
    (s.uvStatus 0).submit iface offset r = s.submit iface offset r := rfl

theorem readStart_eq (s : Endpoint Libuv) (iface : Interface Libuv Answer) (size : ℕ) (offset : ℤ)
    (rStop r : Answer) (hcb : ¬ (s.allocCb = false ∨ s.readCb = false)) :
    s.readStart iface size offset rStop r =
      (s.prepareStart iface s.rdcmd size rStop).submit iface offset r := by
  rw [Endpoint.readStart, if_neg hcb]
  exact (submit_uvStatus _ iface offset r).symm

/-- From the virtual `read_start` to the return; a file asks for its buffer in between. -/
theorem within_starts (hh : s.holder = none) (he : e.uvStatus 0 = e) (hlive : 1 ≤ e.refs) : ∃ l,
    Relation.ReflTransGen (OwnStep t) (s.within t c e .written)
      ({ s with invoked := l }.setEndpoint (e.submit s.kind.interface ((s.setEndpoint e).startOffset c)
        (startAnswer c)).1) := by
  set offset := (s.setEndpoint e).startOffset c with hoffset
  set r := startAnswer c with hr
  have hstart : (s.within t c e .written).startOffset c = offset := by cases c <;> rfl
  rw [submit_eq, he]
  have hsocket (hi : s.kind ≠ .file) : OwnStep t (s.within t c e .written)
      (s.within t c (e.startReading s.kind.interface offset r)
        (.submitted (e.startStatus s.kind.interface offset r))) := by
    refine within_advance ?_
    simp only [runCommand, Option.some.injEq]
    unfold virtualStart
    rw [hstart]
    cases hk : s.kind with
    | file => exact absurd hk hi
    | stream => simp [within, goto, setStack, setEndpoint, hk, ← hr]
    | udp => simp [within, goto, setStack, setEndpoint, hk, ← hr]
  by_cases hi : s.kind = .file
  · set e' : Endpoint Libuv := { e with rdoffset := if offset < 0 then r.tell else offset } with he'
    set v : Threads T := { s with invoked := s.invoked ++ [(t, .alloc, some t)] } with hv
    have hcall : OwnStep t (s.within t c e .written) ((s.within t c e' .allocated).invoke t .alloc) := by
      refine within_advance ?_
      simp only [runCommand, Option.some.injEq]
      unfold virtualStart
      rw [hstart]
      simp [within, goto, setStack, setEndpoint, hi, invoke, ← hr, he']
    have hback : OwnStep t ((s.within t c e' .allocated).invoke t .alloc)
        (v.within t c e'.ref .allocated) := by
      right
      simp [step, within, goto, setStack, setEndpoint, invoke, hv]
    have hread : OwnStep t (v.within t c e'.ref .allocated)
        (v.within t c (e.startReading s.kind.interface offset r) (.submitted r.ret)) := by
      have hdrop : e'.ref.unref = e' := Endpoint.ref_unref hlive
      refine within_advance ?_
      simp only [runCommand, dropArg, Option.some.injEq]
      have hend : (v.within t c e'.ref .allocated).endpoint = e'.ref := rfl
      rw [hend, hdrop]
      simp [readFile, within, goto, setStack, setEndpoint, ← hr, he', hi, Kind.interface, fileInterface,
        Endpoint.startReading]
    have hstatus : e.startStatus s.kind.interface offset r = r.ret := by
      simp [Endpoint.startStatus, hi, Kind.interface, fileInterface]
    rw [hstatus]
    exact ⟨v.invoked, .head hcall (.head hback (.head hread (within_settles (s := v) r.ret hh)))⟩
  · exact ⟨s.invoked, .head (hsocket hi) (within_settles _ hh)⟩

theorem within_reads (hc : ∀ size offset rStop r, c ≠ .start size offset rStop r) :
    OwnStep t (s.within t c e .locked) (s.within t c e (.decided e.rdcmd)) := by
  refine within_advance ?_
  simp only [runCommand, Option.some.injEq]
  cases c with
  | start size offset rStop r => exact absurd rfl (hc size offset rStop r)
  | stop r => exact goto_within _
  | pause r => exact goto_within _
  | resume r => exact goto_within _

theorem within_writes {prev : Rdcmd} {e' : Endpoint Libuv} {pc' : Pc}
    (h : (s.within t c e (.decided prev)).writeState t c prev (s.stack t) = s.within t c e' pc') :
    OwnStep t (s.within t c e (.decided prev)) (s.within t c e' pc') :=
  within_advance (by rw [runCommand, h])

section Alone
variable (hh : s.holder = none) (hlive : 1 ≤ s.endpoint.refs)
include hh

theorem readStop_alone (r : Answer) : Relation.ReflTransGen (OwnStep t)
    (s.within t (.stop r) s.endpoint .locked) (s.setEndpoint (s.effect (.stop r))) := by
  have he : s.effect (.stop r) = s.endpoint.halt s.kind.interface s.endpoint.rdcmd .stop r := by
    unfold effect Endpoint.readStop Endpoint.halt
    cases s.endpoint.rdcmd <;> rfl
  have hleave := within_leaves (t := t) (c := .stop r) (e := s.effect (.stop r))
    (s.endpoint.stopStatus s.kind.interface r) hh
  refine .head (within_reads (by simp)) (.head (within_writes ?_) (.single hleave))
  simp [writeState, within, goto, setStack, setEndpoint, he]

theorem readPause_alone (r : Answer) : Relation.ReflTransGen (OwnStep t)
    (s.within t (.pause r) s.endpoint .locked) (s.setEndpoint (s.effect (.pause r))) := by
  cases hc : s.endpoint.rdcmd.reading with
  | true =>
    have he : s.effect (.pause r) = s.endpoint.halt s.kind.interface s.endpoint.rdcmd .pause r := by
      unfold effect Endpoint.readPause Endpoint.halt
      cases hcmd : s.endpoint.rdcmd <;> simp [hcmd, Rdcmd.reading] at hc ⊢
    have hleave := within_leaves (t := t) (c := .pause r) (e := s.effect (.pause r))
      (s.endpoint.stopStatus s.kind.interface r) hh
    refine .head (within_reads (by simp)) (.head (within_writes ?_) (.single hleave))
    simp [writeState, within, goto, setStack, setEndpoint, hc, he]
  | false =>
    have he : s.effect (.pause r) = s.endpoint := by
      unfold effect Endpoint.readPause
      cases hcmd : s.endpoint.rdcmd <;> simp [hcmd, Rdcmd.reading] at hc ⊢
    have hleave := within_leaves (t := t) (c := .pause r) (e := s.effect (.pause r)) 2 hh
    refine .head (within_reads (by simp)) (.head (within_writes ?_) (.single hleave))
    simp [writeState, within, goto, setStack, hc, he]

include hlive

theorem readResume_alone (r : Answer) : ∃ l, Relation.ReflTransGen (OwnStep t)
    (s.within t (.resume r) s.endpoint .locked)
    ({ s with invoked := l }.setEndpoint (s.effect (.resume r))) := by
  by_cases hc : s.endpoint.rdcmd = .pause
  · set e' := ({ s.endpoint with rdcmd := .resume }).ref.uvStatus 0 with he'
    have he : s.effect (.resume r) = (e'.submit s.kind.interface s.endpoint.rdoffset r).1 := by
      rw [submit_uvStatus]
      simp only [effect, Endpoint.readResume, hc, Bool.true_eq_false, if_false]
    have hrefs : 1 ≤ e'.refs := by
      have hinc := Counter.inc_refs (c := s.endpoint.toCounter) (by omega)
      change 1 ≤ s.endpoint.toCounter.inc.refs
      omega
    obtain ⟨l, hl⟩ := within_starts (t := t) (c := .resume r) (e := e') hh rfl hrefs
    refine ⟨l, .head (within_reads (by simp)) (.head (within_writes ?_) (he ▸ hl))⟩
    simp [writeState, within, goto, setStack, setEndpoint, hc, he']
  · have he : s.effect (.resume r) = s.endpoint := by
      unfold effect Endpoint.readResume
      cases hcmd : s.endpoint.rdcmd <;> simp [hcmd] at hc ⊢
    have hleave := within_leaves (t := t) (c := .resume r) (e := s.effect (.resume r)) 2 hh
    refine ⟨s.invoked, .head (within_reads (by simp)) (.head (within_writes ?_) (.single hleave))⟩
    cases hcmd : s.endpoint.rdcmd <;> simp [writeState, within, goto, setStack, hcmd, he] at hc ⊢

theorem readStart_alone (size : ℕ) (offset : ℤ) (rStop r : Answer) : ∃ l,
    Relation.ReflTransGen (OwnStep t) (s.within t (.start size offset rStop r) s.endpoint .locked)
      ({ s with invoked := l }.setEndpoint (s.effect (.start size offset rStop r))) := by
  by_cases hcb : s.endpoint.allocCb = false ∨ s.endpoint.readCb = false
  · have he : s.effect (.start size offset rStop r) = s.endpoint.uvStatus uvEINVAL := by
      rw [effect, Endpoint.readStart, if_pos hcb]
    have hleave := within_leaves (t := t) (c := .start size offset rStop r)
      (e := s.effect (.start size offset rStop r)) uvEINVAL hh
    refine ⟨s.invoked, .head (within_advance ?_) (.single hleave)⟩
    simp [runCommand, readState, within, goto, setStack, setEndpoint, hcb, he]
  · set e' := s.endpoint.prepareStart s.kind.interface s.endpoint.rdcmd size rStop with he'
    have he : s.effect (.start size offset rStop r) = (e'.submit s.kind.interface offset r).1 := by
      rw [effect, readStart_eq _ _ _ _ _ _ hcb]
    have hread : OwnStep t (s.within t (.start size offset rStop r) s.endpoint .locked)
        (s.within t (.start size offset rStop r) s.endpoint (.decided s.endpoint.rdcmd)) := by
      refine within_advance ?_
      simp [runCommand, readState, within, goto, setStack, hcb]
    obtain ⟨l, hl⟩ := within_starts (t := t) (c := .start size offset rStop r) (e := e') hh rfl
      (Endpoint.prepareStart_refs hlive s.endpoint.rdcmd size rStop)
    refine ⟨l, .head hread (.head (within_writes ?_) (he ▸ hl))⟩
    simp [writeState, within, goto, setStack, setEndpoint, he']

/-- Without another thread between its steps a command on a living instance has the effect
that `io` computes for it, and leaves the lock free. -/
theorem command_alone (t : T) (c : ReadCommand) : ∃ l,
    Relation.ReflTransGen (OwnStep t) (s.goto t c .called (s.stack t))
      ({ s with invoked := l }.setEndpoint (s.effect c)) := by
  have hlock : OwnStep t (s.goto t c .called (s.stack t)) (s.within t c s.endpoint .locked) := by
    left
    simp [step, goto, setStack, runCommand, within, hh]
  cases c with
  | start size offset rStop r =>
    obtain ⟨l, hl⟩ := readStart_alone (t := t) hh hlive size offset rStop r
    exact ⟨l, .head hlock hl⟩
  | stop r => exact ⟨s.invoked, .head hlock (readStop_alone hh r)⟩
  | pause r => exact ⟨s.invoked, .head hlock (readPause_alone hh r)⟩
  | resume r =>
    obtain ⟨l, hl⟩ := readResume_alone (t := t) hh hlive r
    exact ⟨l, .head hlock hl⟩

end Alone
end Threads
end Uvcc.Io
