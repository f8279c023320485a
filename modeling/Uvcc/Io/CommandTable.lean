import Uvcc.Io.Commands

/-!
# The documented table of read commands

The documentation of `io::read_resume` gives the effect of every command after
every previously executed one. The table is the abstract machine; the commands
of the code implement it call by call, over any endpoint, and hold the extra
reference exactly while the last effective command was a start or a resume.
-/
namespace Uvcc.Io
open Machine Counting

/-- The column: the command executed previously. -/
inductive Previous where
  | noCommand
  | readStart
  | readResume
  | readStop
  | readPause
  deriving DecidableEq, Repr

/-- The row: the command to be currently executed. -/
inductive Command where
  | readStart
  | readResume
  | readStop
  | readPause
  deriving DecidableEq, Repr

/-- The entry; `refused` is a dash. -/
inductive Effect where
  | start
  | restart
  | resume
  | stop
  | pause
  | refused
  deriving DecidableEq, Repr

def table : Command → Previous → Effect
  | .readStart, .noCommand => .start
  | .readStart, .readStart => .restart
  | .readStart, .readResume => .restart
  | .readStart, .readStop => .start
  | .readStart, .readPause => .start
  | .readResume, .noCommand => .refused
  | .readResume, .readStart => .refused
  | .readResume, .readResume => .refused
  | .readResume, .readStop => .refused
  | .readResume, .readPause => .resume
  | .readStop, .noCommand => .stop
  | .readStop, .readStart => .stop
  | .readStop, .readResume => .stop
  | .readStop, .readStop => .stop
  | .readStop, .readPause => .stop
  | .readPause, .noCommand => .refused
  | .readPause, .readStart => .pause
  | .readPause, .readResume => .pause
  | .readPause, .readStop => .refused
  | .readPause, .readPause => .refused

/-- The calls on an endpoint, each with libuv's answers; between them variables
come and go and the loop delivers data. The argument of a read callback is one more
variable, so there may be none for a while. -/
inductive Call (W R : Type*) where
  | readStart (size : ℕ) (offset : ℤ) (rStop rStart : R)
  | readStop (r : R)
  | readPause (trigger : Bool) (r : R)
  | readResume (trigger : Bool) (r : R)
  | setCallbacks (allocCb readCb : Bool)
  | copy
  | drop
  | deliver (w : W) (rdoffset : ℤ)

variable {W R : Type*}

/-! ## The table as a machine -/

structure Reader (W : Type*) where
  world : W
  previous : Previous
  rdsize : ℕ
  rdoffset : ℤ
  allocCb : Bool
  readCb : Bool
  vars : ℕ
  returned : List ℤ

namespace Reader

def init (w : W) (n : ℕ) : Reader W := ⟨w, .noCommand, 0, 0, false, false, n + 1, []⟩

def extra (a : Reader W) : ℤ :=
  match a.previous with
  | .readStart | .readResume => 1
  | .noCommand | .readStop | .readPause => 0

def answer (a : Reader W) (code : ℤ) : Reader W := { a with returned := a.returned ++ [code] }

/-- A failed start counts as no command. -/
def begin (iface : Interface W R) (a : Reader W) (command : Previous) (offset : ℤ) (r : R) : Reader W :=
  let s := iface.readStart a.world a.rdoffset offset r
  { a with
    world := s.1
    rdoffset := s.2.1
    previous := if s.2.2 < 0 then .noCommand else command }.answer s.2.2

def finish (iface : Interface W R) (a : Reader W) (command : Previous) (r : R) : Reader W :=
  let s := iface.readStop a.world r
  { a with world := s.1, previous := command }.answer s.2

/-- The effects; "restart" is "stop" followed by "start". -/
def perform (iface : Interface W R) (a : Reader W) (size : ℕ) (offset : ℤ) (rStop rStart : R) :
    Effect → Reader W
  | .start => { a with rdsize := size }.begin iface .readStart offset rStart
  | .restart =>
    { a with rdsize := size, world := (iface.readStop a.world rStop).1 }.begin iface .readStart offset
      rStart
  | .resume => a.begin iface .readResume a.rdoffset rStart
  | .stop => a.finish iface .readStop rStop
  | .pause => a.finish iface .readPause rStop
  | .refused => a.answer 2

/-- A call needs a variable, and everything else a reference. -/
def command (a a' : Reader W) : Option (Reader W) := if a.vars = 0 then none else some a'

def event (a a' : Reader W) : Option (Reader W) := if a.vars + a.extra = 0 then none else some a'

def step (iface : Interface W R) (a : Reader W) : Call W R → Option (Reader W)
  | .readStart size offset rStop rStart =>
    a.command (if a.allocCb = false ∨ a.readCb = false then a.answer uvEINVAL
      else a.perform iface size offset rStop rStart (table .readStart a.previous))
  | .readStop r => a.command (a.perform iface 0 0 r r (table .readStop a.previous))
  | .readPause trigger r =>
    a.command (if trigger = false then a.answer 1
      else a.perform iface 0 0 r r (table .readPause a.previous))
  | .readResume trigger r =>
    a.command (if trigger = false then a.answer 1
      else a.perform iface 0 0 r r (table .readResume a.previous))
  | .setCallbacks x y => a.command { a with allocCb := x, readCb := y }
  | .copy => a.event { a with vars := a.vars + 1 }
  | .drop => a.command { a with vars := a.vars - 1 }
  | .deliver w rdoffset => a.event { a with world := w, rdoffset := rdoffset }

end Reader

/-! ## The code as a machine -/

structure Session (W : Type*) where
  endpoint : Endpoint W
  vars : ℕ
  returned : List ℤ

namespace Session

def init (w : W) (n : ℕ) : Session W := ⟨Endpoint.init w (n + 1), n + 1, []⟩

def done (c : Session W) (result : Endpoint W × ℤ) : Session W :=
  { c with endpoint := result.1, returned := c.returned ++ [result.2] }

def command (c c' : Session W) : Option (Session W) := if c.vars = 0 then none else some c'

def event (c c' : Session W) : Option (Session W) := if c.endpoint.destroyed then none else some c'

def step (iface : Interface W R) (c : Session W) : Call W R → Option (Session W)
  | .readStart size offset rStop rStart =>
    c.command (c.done (c.endpoint.readStart iface size offset rStop rStart))
  | .readStop r => c.command (c.done (c.endpoint.readStop iface r))
  | .readPause trigger r => c.command (c.done (c.endpoint.readPause iface trigger r))
  | .readResume trigger r => c.command (c.done (c.endpoint.readResume iface trigger r))
  | .setCallbacks x y =>
    c.command { c with endpoint := { c.endpoint with allocCb := x, readCb := y } }
  | .copy => c.event { c with endpoint := c.endpoint.ref, vars := c.vars + 1 }
  | .drop => c.command { c with endpoint := c.endpoint.unref, vars := c.vars - 1 }
  | .deliver w rdoffset =>
    c.event { c with endpoint := { c.endpoint with world := w, rdoffset := rdoffset } }

end Session

/-! ## The refinement -/

def Rdcmd.previous : Rdcmd → Previous
  | .unknown => .noCommand
  | .stop => .readStop
  | .pause => .readPause
  | .start => .readStart
  | .resume => .readResume

def Session.view (c : Session W) : Reader W where
  world := c.endpoint.world
  previous := c.endpoint.rdcmd.previous
  rdsize := c.endpoint.rdsize
  rdoffset := c.endpoint.rdoffset
  allocCb := c.endpoint.allocCb
  readCb := c.endpoint.readCb
  vars := c.vars
  returned := c.returned

theorem extra_view (c : Session W) : c.view.extra = c.endpoint.rdcmd.extra := by
  unfold Reader.extra Session.view
  cases c.endpoint.rdcmd <;> rfl

section Steps
variable (iface : Interface W R) (c : Session W)

/-- The common end of a start and a resume is the beginning of a read in the
table, whatever happens to the reference. -/
theorem view_submit (s : Endpoint W) (offset : ℤ) (r : R) (command : Previous)
    (h : s.rdcmd.previous = command) :
    (c.done (s.submit iface offset r)).view =
      ({ c with endpoint := s } : Session W).view.begin iface command offset r := by
  subst h
  unfold Endpoint.submit Reader.begin
  dsimp only [Endpoint.startStatus, Session.view]
  split_ifs with hneg <;>
    simp [Session.done, Endpoint.unref, Endpoint.uvStatus, Endpoint.startReading, Rdcmd.previous,
      Reader.answer]

theorem view_ref (s : Endpoint W) (v : ℕ) :
    ({ c with endpoint := s.ref, vars := v } : Session W).view =
      ({ c with endpoint := s, vars := v } : Session W).view := rfl

theorem view_readStart (size : ℕ) (offset : ℤ) (rStop rStart : R) :
    (c.done (c.endpoint.readStart iface size offset rStop rStart)).view =
      if c.view.allocCb = false ∨ c.view.readCb = false then c.view.answer uvEINVAL
      else c.view.perform iface size offset rStop rStart (table .readStart c.view.previous) := by
  have ha : c.view.allocCb = c.endpoint.allocCb := rfl
  have hr : c.view.readCb = c.endpoint.readCb := rfl
  rw [ha, hr, Endpoint.readStart]
  split_ifs
  · rfl
  · have hsub (s : Endpoint W) (hs : s.rdcmd = .start) := view_submit iface c s offset rStart .readStart
      (by rw [hs]; rfl)
    cases hc : c.endpoint.rdcmd <;> dsimp only
    all_goals rw [hsub _ rfl]
    all_goals simp only [Session.view, hc, Rdcmd.previous, table, Reader.perform]
    all_goals rfl

theorem view_readStop (r : R) : (c.done (c.endpoint.readStop iface r)).view =
    c.view.perform iface 0 0 r r (table .readStop c.view.previous) := by
  rw [Endpoint.readStop]
  cases hc : c.endpoint.rdcmd <;>
    simp only [Session.view, hc, Rdcmd.previous, table, Reader.perform] <;> rfl

theorem view_readPause (b : Bool) (r : R) : (c.done (c.endpoint.readPause iface b r)).view =
    if b = false then c.view.answer 1
    else c.view.perform iface 0 0 r r (table .readPause c.view.previous) := by
  rw [Endpoint.readPause]
  split_ifs
  · rfl
  · cases hc : c.endpoint.rdcmd <;>
      simp only [Session.view, Session.done, hc, Rdcmd.previous, table, Reader.perform] <;> rfl

theorem view_readResume (b : Bool) (r : R) : (c.done (c.endpoint.readResume iface b r)).view =
    if b = false then c.view.answer 1
    else c.view.perform iface 0 0 r r (table .readResume c.view.previous) := by
  rw [Endpoint.readResume]
  split_ifs
  · rfl
  · cases hc : c.endpoint.rdcmd with
    | pause =>
      dsimp only
      rw [view_submit iface c _ _ _ .readResume rfl]
      simp only [Session.view, hc, Rdcmd.previous, table, Reader.perform]
      rfl
    | _ =>
      simp only [Session.view, Session.done, hc, Rdcmd.previous, table, Reader.perform]
      rfl

variable {iface c}

theorem view_command {c' : Session W} {a' : Reader W} (h : c'.view = a') :
    (c.command c').map Session.view = c.view.command a' := by
  have hv : c.view.vars = c.vars := rfl
  rw [Session.command, Reader.command, hv]
  split_ifs
  · rfl
  · exact congrArg some h

/-- The code finds the instance alive when the table has a reference. -/
theorem view_event (hh : c.endpoint.Held c.vars) {c' : Session W} {a' : Reader W} (h : c'.view = a') :
    (c.event c').map Session.view = c.view.event a' := by
  have hv : c.view.vars = c.vars := rfl
  have hd := hh.destroyed
  rw [← extra_view] at hd
  simp only [Session.event, Reader.event, hv, hd, decide_eq_true_eq]
  split_ifs
  · rfl
  · exact congrArg some h

/-- The code does what the table says, call by call. -/
theorem view_step (hh : c.endpoint.Held c.vars) (call : Call W R) :
    (c.step iface call).map Session.view = c.view.step iface call := by
  cases call with
  | readStart size offset rStop rStart =>
    exact view_command (view_readStart iface c size offset rStop rStart)
  | readStop r => exact view_command (view_readStop iface c r)
  | readPause b r => exact view_command (view_readPause iface c b r)
  | readResume b r => exact view_command (view_readResume iface c b r)
  | setCallbacks x y => exact view_command rfl
  | copy => exact view_event hh (view_ref c c.endpoint (c.vars + 1))
  | drop => exact view_command rfl
  | deliver w rdoffset => exact view_event hh rfl

theorem command_some {c' d : Session W} (h : c.command d = some c') : 1 ≤ c.vars ∧ c' = d := by
  simp only [Session.command, Option.ite_none_left_eq_some, Option.some.injEq] at h
  exact ⟨Nat.one_le_iff_ne_zero.mpr h.1, h.2.symm⟩

theorem event_some {c' d : Session W} (h : c.event d = some c') :
    c.endpoint.destroyed = false ∧ c' = d := by
  simp only [Session.event, Option.ite_none_left_eq_some, Option.some.injEq, Bool.not_eq_true] at h
  exact ⟨h.1, h.2.symm⟩

/-- Every call keeps the account of the references. -/
theorem step_held {c' : Session W} {call : Call W R} (h : c.endpoint.Held c.vars)
    (hs : c.step iface call = some c') : c'.endpoint.Held c'.vars := by
  have hcall : 1 ≤ c.vars → (1 : ℤ) ≤ c.vars := fun hv => by exact_mod_cast hv
  cases call with
  | readStart size offset rStop rStart =>
    obtain ⟨hv, rfl⟩ := command_some hs
    exact h.readStart (hcall hv) size offset rStop rStart
  | readStop r =>
    obtain ⟨hv, rfl⟩ := command_some hs
    exact h.readStop (hcall hv) r
  | readPause b r =>
    obtain ⟨hv, rfl⟩ := command_some hs
    exact h.readPause (hcall hv) b r
  | readResume b r =>
    obtain ⟨hv, rfl⟩ := command_some hs
    exact h.readResume (hcall hv) b r
  | setCallbacks x y =>
    obtain ⟨_, rfl⟩ := command_some hs
    exact h
  | copy =>
    obtain ⟨hd, rfl⟩ := event_some hs
    have hr := h.ref (h.one_le_refs (Int.natCast_nonneg _) hd)
    exact_mod_cast hr
  | drop =>
    obtain ⟨hv, rfl⟩ := command_some hs
    have hcast : ((c.vars - 1 : ℕ) : ℤ) + 1 = c.vars := by omega
    exact Endpoint.Held.unref (n := ((c.vars - 1 : ℕ) : ℤ)) (hcast ▸ h) (by omega)
  | deliver w rdoffset =>
    obtain ⟨_, rfl⟩ := event_some hs
    exact h

end Steps

/-- A state of the code against a state of the table: the same endpoint, return
codes and previous command, and one extra reference or none. While there is a
variable no count has come to zero; the instance is gone once nobody refers to it. -/
structure Implements (c : Session W) (a : Reader W) : Prop where
  view : c.view = a
  extra : c.endpoint.refs = c.vars + a.extra
  live : 1 ≤ c.vars → 1 ≤ c.endpoint.refs ∧ c.endpoint.destroyed = false
  destroyed : c.endpoint.destroyed = decide (c.vars + a.extra = 0)
  fault : c.endpoint.fault = false

theorem implements_of_held {c : Session W} (h : c.endpoint.Held c.vars) : Implements c c.view where
  view := rfl
  extra := by
    rw [extra_view]
    exact h.refs
  live hv := h.alive (by exact_mod_cast hv)
  destroyed := by
    rw [extra_view]
    exact h.destroyed
  fault := h.fault

theorem Implements.held {c : Session W} {a : Reader W} (h : Implements c a) :
    c.endpoint.Held c.vars := by
  have he : a.extra = c.endpoint.rdcmd.extra := by rw [← extra_view, h.view]
  exact ⟨he ▸ h.extra, he ▸ h.destroyed, h.fault⟩

theorem step_implements (iface : Interface W R) {c : Session W} {a : Reader W} (call : Call W R)
    (h : Implements c a) : Option.Rel Implements (c.step iface call) (a.step iface call) := by
  have hview : (c.step iface call).map Session.view = c.view.step iface call := view_step h.held call
  rw [h.view] at hview
  rw [← hview]
  cases hs : c.step iface call with
  | none => exact .none
  | some c' => exact .some (implements_of_held (step_held h.held hs))

/-- In every sequence of calls, with any answers of libuv, the code goes through
the states of the documented table. -/
theorem commands_implement_table (iface : Interface W R) (w : W) (n : ℕ) (calls : List (Call W R)) :
    List.Forall₂ Implements (visited (Session.step iface) (Session.init w n) calls)
      (visited (Reader.step iface) (Reader.init w n) calls) := by
  refine visited_related (fun c a call h => step_implements iface call h) calls _ _ ?_
  have hinit : (Session.init w n).endpoint.Held (Session.init w n).vars := by
    have hc := Counter.of_holds (n := n + 1) (Nat.le_add_left 1 n)
    rw [← add_zero ((n + 1 : ℕ) : ℤ)] at hc
    exact hc
  exact implements_of_held hinit

end Uvcc.Io
