import Uvcc.Io.Commands

/-!
# An endpoint between its commands and its callbacks

One stream, udp socket or file with everybody who refers to it: the variables,
the argument of a running callback and the pending `fs::close` requests. A read
callback is two events, its call and its return, so any commands, copies and drops
can happen inside it; so is the allocation callback that the next read of a file
begins with. The one that libuv calls for a socket, or that a command calls under its
lock, is not set apart. The callbacks are installed and never taken away.
-/
namespace Uvcc.Io
open Machine

inductive Kind where
  | stream
  | udp
  | file
  deriving DecidableEq, Repr

/-- What libuv keeps of an endpoint: whether a socket is being read, and the
offsets of the `uv_fs_read` operations that were submitted and not completed. -/
structure Libuv where
  reading : Bool
  inFlight : List ℤ
  deriving DecidableEq, Repr

/-- The status of a libuv call and, for a file, what `lseek64` reports. -/
structure Answer where
  ret : ℤ
  tell : ℤ
  deriving DecidableEq, Repr

/-- `file::file_read`, up to its result; a negative status is a submission that
failed. -/
def fileRead (w : Libuv) (rdoffset ret : ℤ) : Libuv :=
  if ret < 0 then w else { w with inFlight := w.inFlight ++ [rdoffset] }

/-- `stream::uv_interface` and `udp::uv_interface`. -/
def socketInterface : Interface Libuv Answer where
  readStart w rdoffset offset r :=
    (if r.ret < 0 then w else { w with reading := true }, if 0 ≤ offset then offset else rdoffset, r.ret)
  readStop w r := ({ w with reading := false }, r.ret)

/-- `file::uv_interface`; its `read_stop` does nothing. -/
def fileInterface : Interface Libuv Answer where
  readStart w _ offset r :=
    let offset := if offset < 0 then r.tell else offset
    (fileRead w offset r.ret, offset, r.ret)
  readStop w _ := (w, 0)

def Kind.interface : Kind → Interface Libuv Answer
  | .stream => socketInterface
  | .udp => socketInterface
  | .file => fileInterface

def uvEOF : ℤ := -4095

/-- What the read path touches after the user callback has returned. -/
inductive Access where
  | rdoffset
  | reqCleanup
  | rdcmdState
  | allocCb
  | fileRead
  deriving DecidableEq, Repr

/-- A running read callback, or the allocation callback in front of the next read of a
file; `arg` tells whether its handle argument still refers to the instance. -/
structure Frame where
  nread : ℤ
  offset : ℤ
  arg : Bool
  alloc : Bool
  deriving DecidableEq, Repr

/-- `accesses` are those made after the return of a user callback, each with the
reference count at that moment. -/
structure Reading where
  kind : Kind
  endpoint : Endpoint Libuv
  vars : ℕ
  closes : ℕ
  frame : Option Frame
  accesses : List (Access × ℤ)
  deriving DecidableEq, Repr

inductive Event where
  | copy
  | drop
  | moveArg
  | setCallbacks
  | readStart (size : ℕ) (offset : ℤ) (rStop rStart : Answer)
  | readStop (r : Answer)
  | readPause (trigger : Bool) (r : Answer)
  | readResume (trigger : Bool) (r : Answer)
  | closeSync
  | closeAsync (ret : ℤ)
  | closeDone
  | readCb (i : ℕ) (result : ℤ)
  | readCbEnd
  | allocCbEnd (r : Answer)
  deriving DecidableEq, Repr

namespace Reading

def init (k : Kind) : Reading where
  kind := k
  endpoint := Endpoint.init ⟨false, []⟩ 1
  vars := 1
  closes := 0
  frame := none
  accesses := []

def argument (s : Reading) : Bool := s.frame.any Frame.arg

def holders (s : Reading) : ℕ := s.vars + s.closes + s.argument.toNat

def names (s : Reading) : ℕ := s.vars + s.argument.toNat

def access (s : Reading) (a : Access) : Reading :=
  { s with accesses := s.accesses ++ [(a, s.endpoint.refs)] }

def release (s : Reading) : Reading := { s with endpoint := s.endpoint.unref }

def complete (s : Reading) (i : ℕ) : Reading :=
  { s with endpoint := { s.endpoint with world :=
      { s.endpoint.world with inFlight := s.endpoint.world.inFlight.eraseIdx i } } }

def enter (s : Reading) (nread : ℤ) : Reading :=
  { s with
    endpoint := ({ s.endpoint with uvError := nread } : Endpoint Libuv).ref
    frame := some ⟨nread, s.endpoint.rdoffset, true, false⟩ }

def dropArg (s : Reading) (f : Frame) : Reading := { (if f.arg then s.release else s) with frame := none }

def leave (s : Reading) (f : Frame) : Reading :=
  let s' := s.dropArg f
  if 0 < f.nread then
    let s'' := s'.access .rdoffset
    { s'' with endpoint := { s''.endpoint with rdoffset := s''.endpoint.rdoffset + f.nread } }
  else s'

/-- `file_read` as far as into the allocation callback, which gets the handle as a new
reference. -/
def enterAlloc (s : Reading) : Reading :=
  let s' := s.access .allocCb
  { s' with
    endpoint := ({ s'.endpoint with uvError := 0 } : Endpoint Libuv).ref
    frame := some ⟨0, s'.endpoint.rdoffset, true, true⟩ }

/-- What `file::read_cb` does after `io_read_cb`. -/
def fileTail (s : Reading) : Reading :=
  let s' := (s.access .reqCleanup).access .rdcmdState
  match s'.endpoint.rdcmd with
  | .unknown | .stop | .pause => s'
  | .start | .resume => s'.enterAlloc

/-- The rest of `file_read` and of `file::read_cb`. -/
def resubmit (s : Reading) (f : Frame) (ret : ℤ) : Reading :=
  let s' := (s.dropArg f).access .fileRead
  { s' with endpoint :=
    { s'.endpoint with
      world := fileRead s'.endpoint.world s'.endpoint.rdoffset ret
      uvError := if ret < 0 then ret else s'.endpoint.uvError } }

def command (s : Reading) (result : Endpoint Libuv × ℤ) : Option Reading :=
  if s.names = 0 then none else some { s with endpoint := result.1 }

def step (s : Reading) : Event → Option Reading
  | .copy => if s.holders = 0 then none
    else some { s with endpoint := s.endpoint.ref, vars := s.vars + 1 }
  | .drop => if s.vars = 0 then none else some { s.release with vars := s.vars - 1 }
  | .moveArg => match s.frame with
    | some f => if f.arg then some { s with frame := some { f with arg := false }, vars := s.vars + 1 }
      else none
    | none => none
  | .setCallbacks => s.command ({ s.endpoint with allocCb := true, readCb := true }, 0)
  | .readStart size offset rStop rStart =>
    s.command (s.endpoint.readStart s.kind.interface size offset rStop rStart)
  | .readStop r => s.command (s.endpoint.readStop s.kind.interface r)
  | .readPause trigger r => s.command (s.endpoint.readPause s.kind.interface trigger r)
  | .readResume trigger r => s.command (s.endpoint.readResume s.kind.interface trigger r)
  | .closeSync => if s.kind = .file then s.command (s.endpoint.readStop s.kind.interface ⟨0, 0⟩) else none
  | .closeAsync ret =>
    if s.kind = .file ∧ s.names ≠ 0 then
      let e := (s.endpoint.ref.readStop s.kind.interface ⟨0, 0⟩).1
      if ret < 0 then some { s with endpoint := e.unref }
      else some { s with endpoint := e, closes := s.closes + 1 }
    else none
  | .closeDone => if s.closes = 0 ∨ s.frame.isSome then none
    else some { s.release with closes := s.closes - 1 }
  | .readCb i result =>
    -- on a destroyed instance the reference for the argument throws
    if s.frame.isSome ∨ s.endpoint.destroyed then none
    else match s.kind with
      | .file => if i < s.endpoint.world.inFlight.length
        then some ((s.complete i).enter (if result = 0 then uvEOF else result)) else none
      | _ => if s.endpoint.world.reading then some (s.enter result) else none
  | .readCbEnd => match s.frame with
    | none => none
    | some f => if f.alloc then none
      else match s.kind with
        | .file => some (s.leave f).fileTail
        | _ => some (s.leave f)
  | .allocCbEnd r => match s.frame with
    | none => none
    | some f => if f.alloc then some (s.resubmit f r.ret) else none

end Reading

/-! ## The accounts of a step -/

namespace Reading
variable {s t : Reading}

/-- The references add up: one for each holder and one while the command state
says so. -/
def Counted (s : Reading) : Prop := s.endpoint.Held s.holders

theorem init_counted (k : Kind) : (init k).Counted := by
  refine ⟨?_, ?_, rfl⟩ <;> cases k <;> decide

theorem Counted.of {n : ℤ} (h : t.endpoint.Held n) (hn : (t.holders : ℤ) = n) : t.Counted := by
  rw [Counted, hn]
  exact h

theorem Counted.alive (h : s.Counted) : 1 ≤ s.endpoint.refs ↔ 1 ≤ s.holders ∨ s.endpoint.rdcmd.reading := by
  have hr := h.refs
  cases hc : s.endpoint.rdcmd.reading with
  | false =>
    rw [Rdcmd.extra, hc] at hr
    simp only [Bool.false_eq_true, if_false, or_false] at hr ⊢
    omega
  | true =>
    rw [Rdcmd.extra, hc] at hr
    simp only [if_true, or_true, iff_true] at hr ⊢
    omega

/-- What the step may take a reference away from: the last use of a variable, of
a close request or of the callback argument. -/
def Releases (s : Reading) : Event → Prop
  | .drop => True
  | .closeDone => True
  | .readCbEnd | .allocCbEnd _ => s.argument = true
  | _ => False

/-- A step that neither takes a holder away nor ends a callback: the account is
kept and somebody still holds the instance. -/
structure Keeps (s t : Reading) : Prop where
  kind : t.kind = s.kind
  accesses : t.accesses = s.accesses
  holders : 1 ≤ t.holders
  counted : s.Counted → t.Counted

theorem command_keeps {result : Endpoint Libuv × ℤ}
    (hr : ∀ n : ℤ, 1 ≤ n → s.endpoint.Held n → result.1.Held n) (h : s.command result = some t) :
    Keeps s t := by
  simp only [command, Option.ite_none_left_eq_some, Option.some.injEq] at h
  obtain ⟨hn, rfl⟩ := h
  have h1 : 1 ≤ s.holders := by
    unfold holders
    unfold names at hn
    omega
  exact ⟨rfl, rfl, h1, fun hc => hr _ (by exact_mod_cast h1) hc⟩

theorem copy_keeps (h : s.step .copy = some t) : Keeps s t := by
  simp only [step, Option.ite_none_left_eq_some, Option.some.injEq] at h
  obtain ⟨hn, rfl⟩ := h
  have hh : ({ s with endpoint := s.endpoint.ref, vars := s.vars + 1 } : Reading).holders =
      s.holders + 1 := by
    simp only [holders, argument]
    omega
  refine ⟨rfl, rfl, by omega, fun hc => ?_⟩
  have h1 : 1 ≤ s.endpoint.refs := hc.alive.mpr (.inl (by omega))
  exact Counted.of (hc.ref h1) (by exact_mod_cast hh)

theorem moveArg_keeps (h : s.step .moveArg = some t) : Keeps s t := by
  simp only [step] at h
  cases hf : s.frame with
  | none => simp [hf] at h
  | some f =>
    simp only [hf, Option.ite_none_right_eq_some, Option.some.injEq] at h
    obtain ⟨ha, rfl⟩ := h
    have hh : ({ s with frame := some { f with arg := false }, vars := s.vars + 1 } : Reading).holders =
        s.holders := by
      simp [holders, argument, hf, ha]
      omega
    have h1 : 1 ≤ s.holders := by simp [holders, argument, hf, ha]
    exact ⟨rfl, rfl, hh ▸ h1, fun hc => Counted.of hc (by exact_mod_cast hh)⟩

theorem closeAsync_keeps {ret : ℤ} (h : s.step (.closeAsync ret) = some t) : Keeps s t := by
  simp only [step, Option.ite_none_right_eq_some] at h
  obtain ⟨⟨_, hn⟩, h⟩ := h
  have h1 : 1 ≤ s.holders := by
    unfold holders
    unfold names at hn
    omega
  have hk (hc : s.Counted) :
      (s.endpoint.ref.readStop s.kind.interface ⟨0, 0⟩).1.Held (s.holders + 1) :=
    (hc.ref (hc.alive.mpr (.inl h1))).readStop (by omega) (⟨0, 0⟩ : Answer)
  split_ifs at h
  · obtain rfl := Option.some.inj h
    exact ⟨rfl, rfl, h1, fun hc => (hk hc).unref (by omega)⟩
  · obtain rfl := Option.some.inj h
    set e := (s.endpoint.ref.readStop s.kind.interface ⟨0, 0⟩).1
    have hh : ({ s with endpoint := e, closes := s.closes + 1 } : Reading).holders = s.holders + 1 := by
      simp only [holders, argument]
      omega
    exact ⟨rfl, rfl, by omega, fun hc => Counted.of (hk hc) (by exact_mod_cast hh)⟩

theorem enter_keeps (s : Reading) (nread : ℤ) (hf : s.frame = none) (hd : s.endpoint.destroyed = false) :
    Keeps s (s.enter nread) := by
  have hh : (s.enter nread).holders = s.holders + 1 := by simp [enter, holders, argument, hf]
  refine ⟨rfl, rfl, by omega, fun hc => ?_⟩
  have hpos : 1 ≤ s.endpoint.refs := by
    have hz := hc.destroyed
    rw [hd, eq_comm, decide_eq_false_iff_not] at hz
    have hr := hc.refs
    have hx := Endpoint.extra_nonneg s.endpoint.rdcmd
    omega
  exact Counted.of (Endpoint.Held.ref hc hpos) (by exact_mod_cast hh)

theorem readCb_keeps {i : ℕ} {result : ℤ} (h : s.step (.readCb i result) = some t) : Keeps s t := by
  simp only [step, Option.ite_none_left_eq_some, not_or, Bool.not_eq_true, Option.isSome_eq_false_iff,
    Option.isNone_iff_eq_none] at h
  obtain ⟨⟨hf, hd⟩, h⟩ := h
  cases hk : s.kind with
  | file =>
    simp only [hk, Option.ite_none_right_eq_some, Option.some.injEq] at h
    obtain ⟨_, rfl⟩ := h
    have he := enter_keeps (s.complete i) (if result = 0 then uvEOF else result) hf hd
    exact ⟨he.kind, he.accesses, he.holders, fun hc => he.counted hc⟩
  | stream =>
    simp only [hk, Option.ite_none_right_eq_some, Option.some.injEq] at h
    obtain ⟨_, rfl⟩ := h
    exact enter_keeps s result hf hd
  | udp =>
    simp only [hk, Option.ite_none_right_eq_some, Option.some.injEq] at h
    obtain ⟨_, rfl⟩ := h
    exact enter_keeps s result hf hd

/-! ### A holder goes -/

structure Drops (s t : Reading) : Prop where
  kind : t.kind = s.kind
  accesses : t.accesses = s.accesses
  frame : t.frame = s.frame
  endpoint : t.endpoint = s.endpoint.unref
  holders : s.holders = t.holders + 1

theorem Drops.counted (h : Drops s t) (hs : s.Counted) : t.Counted := by
  have hh : (s.holders : ℤ) = t.holders + 1 := by exact_mod_cast h.holders
  rw [Counted, h.endpoint]
  exact Endpoint.Held.unref (hh ▸ hs) (Int.natCast_nonneg _)

theorem drop_drops (h : s.step .drop = some t) : Drops s t := by
  simp only [step, Option.ite_none_left_eq_some, Option.some.injEq] at h
  obtain ⟨hn, rfl⟩ := h
  refine ⟨rfl, rfl, rfl, rfl, ?_⟩
  simp only [holders, argument, release]
  omega

theorem closeDone_drops (h : s.step .closeDone = some t) : Drops s t := by
  simp only [step, Option.ite_none_left_eq_some, Option.some.injEq, not_or] at h
  obtain ⟨⟨hn, _⟩, rfl⟩ := h
  refine ⟨rfl, rfl, rfl, rfl, ?_⟩
  simp only [holders, argument, release]
  omega

/-! ### The end of a callback -/

def readsOn (s : Reading) : Bool := s.kind = .file ∧ s.endpoint.rdcmd.reading = true

def trailing (s : Reading) (f : Frame) : List Access :=
  (if 0 < f.nread then [.rdoffset] else []) ++
    if s.kind = .file then
      [.reqCleanup, .rdcmdState] ++ if s.endpoint.rdcmd.reading then [.allocCb] else []
    else []

/-- The return of a callback: the argument is dropped, and the accesses `as` follow. -/
structure Leaves (s t : Reading) (f : Frame) (as : List Access) : Prop where
  kind : t.kind = s.kind
  rdcmd : t.endpoint.rdcmd = s.endpoint.rdcmd
  accesses : t.accesses = s.accesses ++ as.map (fun a => (a, (s.dropArg f).endpoint.refs))
  counted : s.Counted → t.Counted

/-- The return of a read callback; for a file that is still to be read the next
allocation callback follows. -/
structure Returns (s t : Reading) (f : Frame) : Prop extends Leaves s t f (s.trailing f) where
  frame : t.frame = if s.readsOn then some ⟨0, t.endpoint.rdoffset, true, true⟩ else none
  holders : s.holders + s.readsOn.toNat = t.holders + f.arg.toNat
  world : t.endpoint.world = s.endpoint.world

/-- The return of an allocation callback; one more read is submitted. -/
structure Submits (s t : Reading) (f : Frame) (ret : ℤ) : Prop extends Leaves s t f [.fileRead] where
  frame : t.frame = none
  holders : s.holders = t.holders + f.arg.toNat
  rdoffset : t.endpoint.rdoffset = s.endpoint.rdoffset
  world : t.endpoint.world = fileRead s.endpoint.world s.endpoint.rdoffset ret

theorem dropArg_counted {f : Frame} (hf : s.frame = some f) :
    s.holders = (s.dropArg f).holders + f.arg.toNat ∧ (s.Counted → (s.dropArg f).Counted) := by
  cases ha : f.arg with
  | false =>
    have hh : (s.dropArg f).holders = s.holders := by simp [dropArg, holders, argument, hf, ha]
    have he : (s.dropArg f).endpoint = s.endpoint := by simp [dropArg, ha]
    refine ⟨by simp [hh], fun hc => ?_⟩
    rw [Counted, hh, he]
    exact hc
  | true =>
    have hh : s.holders = (s.dropArg f).holders + 1 := by
      simp [dropArg, holders, argument, hf, ha, release]
    have he : (s.dropArg f).endpoint = s.endpoint.unref := by simp [dropArg, ha, release]
    refine ⟨hh, fun hc => ?_⟩
    have hz : (s.holders : ℤ) = (s.dropArg f).holders + 1 := by exact_mod_cast hh
    rw [Counted, he]
    exact Endpoint.Held.unref (hz ▸ hc) (Int.natCast_nonneg _)

theorem dropArg_fields (s : Reading) (f : Frame) :
    (s.dropArg f).endpoint.rdcmd = s.endpoint.rdcmd ∧ (s.dropArg f).kind = s.kind ∧
      (s.dropArg f).accesses = s.accesses ∧ (s.dropArg f).frame = none ∧
      (s.dropArg f).endpoint.world = s.endpoint.world ∧
      (s.dropArg f).endpoint.rdoffset = s.endpoint.rdoffset := by
  unfold dropArg
  split_ifs <;> exact ⟨rfl, rfl, rfl, rfl, rfl, rfl⟩

/-- With the argument gone the holders are the variables and the close requests. -/
theorem dropArg_alive {f : Frame} (hf : s.frame = some f) (hs : s.Counted) :
    1 ≤ (s.dropArg f).endpoint.refs ↔ 1 ≤ s.vars ∨ 1 ≤ s.closes ∨ s.endpoint.rdcmd.reading = true := by
  obtain ⟨hh, hcounted⟩ := dropArg_counted hf
  have ha : s.argument = f.arg := by simp [argument, hf]
  rw [(hcounted hs).alive, (dropArg_fields s f).1]
  have hiff : 1 ≤ (s.dropArg f).holders ↔ 1 ≤ s.vars ∨ 1 ≤ s.closes := by
    simp only [holders, ha] at hh ⊢
    omega
  rw [hiff, or_assoc]

/-- What `io_read_cb` does, apart from the argument. -/
theorem leave_leaves (s : Reading) (f : Frame) :
    (s.leave f).kind = s.kind ∧ (s.leave f).frame = none ∧ (s.leave f).holders = (s.dropArg f).holders ∧
      (s.leave f).endpoint.rdcmd = s.endpoint.rdcmd ∧
      (s.leave f).endpoint.toCounter = (s.dropArg f).endpoint.toCounter ∧
      (s.leave f).endpoint.world = s.endpoint.world ∧
      (s.leave f).accesses = s.accesses ++
        (if 0 < f.nread then [Access.rdoffset] else []).map (fun a => (a, (s.dropArg f).endpoint.refs)) := by
  obtain ⟨hcmd, hkind, hacc, hframe, hworld, _⟩ := dropArg_fields s f
  unfold leave
  split_ifs
  · exact ⟨hkind, hframe, rfl, hcmd, rfl, hworld, congrArg (· ++ _) hacc⟩
  · exact ⟨hkind, hframe, rfl, hcmd, rfl, hworld, hacc.trans (List.append_nil _).symm⟩

/-- The tail of `file::read_cb` looks at the command state, and enters the next
allocation callback while that is a reading one. -/
theorem fileTail_cases (s : Reading) :
    (s.endpoint.rdcmd.reading = false ∧ s.fileTail = (s.access .reqCleanup).access .rdcmdState) ∨
      (s.endpoint.rdcmd.reading = true ∧ s.fileTail = ((s.access .reqCleanup).access .rdcmdState).enterAlloc) := by
  unfold fileTail
  cases hc : s.endpoint.rdcmd with
  | unknown => exact .inl ⟨rfl, by simp [access, hc]⟩
  | stop => exact .inl ⟨rfl, by simp [access, hc]⟩
  | pause => exact .inl ⟨rfl, by simp [access, hc]⟩
  | start => exact .inr ⟨rfl, by simp [access, hc]⟩
  | resume => exact .inr ⟨rfl, by simp [access, hc]⟩

theorem enterAlloc_counted (hs : s.Counted) (hf : s.frame = none) (hr : s.endpoint.rdcmd.reading = true) :
    s.enterAlloc.Counted := by
  have hh : s.enterAlloc.holders = s.holders + 1 := by simp [enterAlloc, access, holders, argument, hf]
  have hpos : 1 ≤ s.endpoint.refs := hs.alive.mpr (.inr hr)
  exact Counted.of (Endpoint.Held.ref hs hpos) (by exact_mod_cast hh)

theorem readCbEnd_returns (h : s.step .readCbEnd = some t) :
    ∃ f, s.frame = some f ∧ f.alloc = false ∧ Returns s t f := by
  simp only [step] at h
  cases hf : s.frame with
  | none => simp [hf] at h
  | some f =>
    simp only [hf, Option.ite_none_left_eq_some, Bool.not_eq_true] at h
    obtain ⟨halloc, h⟩ := h
    obtain ⟨hh, hcount⟩ := dropArg_counted hf
    obtain ⟨hkind, hframe, hholders, hcmd, hcounter, hworld, hacc⟩ := leave_leaves s f
    have hrefs : (s.leave f).endpoint.refs = (s.dropArg f).endpoint.refs := congrArg Counting.Counter.refs hcounter
    have hcounted : s.Counted → (s.leave f).Counted := by
      intro hs
      have hd := hcount hs
      unfold Counted Endpoint.Held at hd ⊢
      rw [hholders, hcmd, hcounter, ← (dropArg_fields s f).1]
      exact hd
    refine ⟨f, rfl, halloc, ?_⟩
    by_cases hk : s.kind = .file
    · simp only [hk, Option.some.injEq] at h
      subst h
      rcases fileTail_cases (s.leave f) with ⟨hr, he⟩ | ⟨hr, he⟩
      · have hidle : s.endpoint.rdcmd.reading = false := hcmd ▸ hr
        have hon : s.readsOn = false := by simp [readsOn, hidle]
        rw [he]
        refine ⟨⟨hkind, hcmd, ?_, hcounted⟩, ?_, ?_, hworld⟩
        · simp [access, hacc, trailing, hk, hidle, hrefs]
        · rw [hon]
          exact hframe
        · rw [hon]
          exact hh.trans (by rw [← hholders]; rfl)
      · have hread : s.endpoint.rdcmd.reading = true := hcmd ▸ hr
        have hon : s.readsOn = true := by simp [readsOn, hk, hread]
        rw [he]
        refine ⟨⟨hkind, hcmd, ?_, fun hs => ?_⟩, ?_, ?_, hworld⟩
        · simp [enterAlloc, access, hacc, trailing, hk, hread, hrefs]
        · exact enterAlloc_counted (s := ((s.leave f).access .reqCleanup).access .rdcmdState) (hcounted hs) hframe hr
        · rw [hon]
          rfl
        · have henter : (((s.leave f).access .reqCleanup).access .rdcmdState).enterAlloc.holders =
              (s.leave f).holders + 1 := by
            simp [enterAlloc, access, holders, argument, hframe]
          rw [hon, henter, hholders, hh, Bool.toNat_true]
          omega
    · have hon : s.readsOn = false := by simp [readsOn, hk]
      have ht : s.leave f = t := by
        cases hc : s.kind with
        | file => exact absurd hc hk
        | stream => simpa [hc] using h
        | udp => simpa [hc] using h
      subst ht
      refine ⟨⟨hkind, hcmd, ?_, hcounted⟩, ?_, ?_, hworld⟩
      · rw [hacc, trailing, if_neg hk, List.append_nil]
      · rw [hon]
        exact hframe
      · rw [hon, hholders]
        exact hh

theorem allocCbEnd_submits {r : Answer} (h : s.step (.allocCbEnd r) = some t) :
    ∃ f, s.frame = some f ∧ f.alloc = true ∧ Submits s t f r.ret := by
  simp only [step] at h
  cases hf : s.frame with
  | none => simp [hf] at h
  | some f =>
    simp only [hf, Option.ite_none_right_eq_some, Option.some.injEq] at h
    obtain ⟨halloc, rfl⟩ := h
    obtain ⟨hh, hcount⟩ := dropArg_counted hf
    obtain ⟨hcmd, hkind, hacc, hframe, hworld, hoffset⟩ := dropArg_fields s f
    refine ⟨f, rfl, halloc, ⟨hkind, hcmd, congrArg (· ++ _) hacc, fun hs => hcount hs⟩, hframe, hh, hoffset, ?_⟩
    simp only [resubmit, access, hworld, hoffset]

/-- Whatever a step does, the references add up after it. -/
theorem step_cases {e : Event} (h : s.step e = some t) :
    (¬ s.Releases e ∧ e ≠ .readCbEnd ∧ (∀ r, e ≠ .allocCbEnd r) ∧ Keeps s t) ∨
    ((e = .drop ∨ e = .closeDone) ∧ Drops s t) ∨
    (e = .readCbEnd ∧ ∃ f, s.frame = some f ∧ Returns s t f) ∨
    ∃ r f, e = .allocCbEnd r ∧ s.frame = some f ∧ Submits s t f r.ret := by
  cases e with
  | copy => exact .inl ⟨id, nofun, nofun, copy_keeps h⟩
  | drop => exact .inr (.inl ⟨.inl rfl, drop_drops h⟩)
  | moveArg => exact .inl ⟨id, nofun, nofun, moveArg_keeps h⟩
  | setCallbacks => exact .inl ⟨id, nofun, nofun, command_keeps (fun _ _ hc => hc) h⟩
  | readStart size offset rStop rStart =>
    exact .inl ⟨id, nofun, nofun, command_keeps (fun _ hn hc => hc.readStart hn size offset rStop rStart) h⟩
  | readStop r => exact .inl ⟨id, nofun, nofun, command_keeps (fun _ hn hc => hc.readStop hn r) h⟩
  | readPause b r => exact .inl ⟨id, nofun, nofun, command_keeps (fun _ hn hc => hc.readPause hn b r) h⟩
  | readResume b r => exact .inl ⟨id, nofun, nofun, command_keeps (fun _ hn hc => hc.readResume hn b r) h⟩
  | closeSync =>
    simp only [step, Option.ite_none_right_eq_some] at h
    exact .inl ⟨id, nofun, nofun, command_keeps (fun _ hn hc => hc.readStop hn (Answer.mk 0 0)) h.2⟩
  | closeAsync ret => exact .inl ⟨id, nofun, nofun, closeAsync_keeps h⟩
  | closeDone => exact .inr (.inl ⟨.inr rfl, closeDone_drops h⟩)
  | readCb i result => exact .inl ⟨id, nofun, nofun, readCb_keeps h⟩
  | readCbEnd =>
    obtain ⟨f, hf, _, ht⟩ := readCbEnd_returns h
    exact .inr (.inr (.inl ⟨rfl, f, hf, ht⟩))
  | allocCbEnd r =>
    obtain ⟨f, hf, _, ht⟩ := allocCbEnd_submits h
    exact .inr (.inr (.inr ⟨r, f, rfl, hf, ht⟩))

theorem step_counted {e : Event} (hs : s.Counted) (h : s.step e = some t) : t.Counted := by
  rcases step_cases h with ⟨_, _, _, hk⟩ | ⟨_, hd⟩ | ⟨_, f, _, hr⟩ | ⟨r, f, _, _, hr⟩
  · exact hk.counted hs
  · exact hd.counted hs
  · exact hr.counted hs
  · exact hr.counted hs

theorem step_kind {e : Event} (h : s.step e = some t) : t.kind = s.kind := by
  rcases step_cases h with ⟨_, _, _, hk⟩ | ⟨_, hd⟩ | ⟨_, f, _, hr⟩ | ⟨r, f, _, _, hr⟩
  · exact hk.kind
  · exact hd.kind
  · exact hr.kind
  · exact hr.kind

end Reading
end Uvcc.Io
