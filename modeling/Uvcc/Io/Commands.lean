import Uvcc.Machine.Trace
import Uvcc.Counting.Counter

/-!
# Read commands of an I/O endpoint

`read_start`, `read_stop`, `read_pause` and `read_resume` as `io` computes them,
over any endpoint: the virtual functions of a stream, a udp socket or a file are
an `Interface` on a state `W` of their own, and `R` is what libuv answers to one
call. The reference count is that of the handle instance.
-/
namespace Uvcc.Io
open Counting

inductive Rdcmd where
  | unknown
  | stop
  | pause
  | start
  | resume
  deriving DecidableEq, Repr

namespace Rdcmd

/-- The cases in which the code holds the extra reference. -/
def reading : Rdcmd → Bool
  | .unknown | .stop | .pause => false
  | .start | .resume => true

def extra (c : Rdcmd) : ℤ := if c.reading then 1 else 0

end Rdcmd

def uvEINVAL : ℤ := -22

/-- `io::uv_interface`: from the endpoint's own state, `rdoffset` and the offset
asked for to the new state, the new `rdoffset` and the status; and the same
without an offset for the stop. -/
structure Interface (W R : Type*) where
  readStart : W → ℤ → ℤ → R → W × ℤ × ℤ
  readStop : W → R → W × ℤ

/-- The handle instance with its `io::properties`. -/
structure Endpoint (W : Type*) extends Counter where
  world : W
  uvError : ℤ
  rdcmd : Rdcmd
  rdsize : ℕ
  rdoffset : ℤ
  allocCb : Bool
  readCb : Bool
  deriving DecidableEq, Repr

namespace Endpoint
variable {W R : Type*}

def init (w : W) (n : ℕ) : Endpoint W where
  toCounter := .of n
  world := w
  uvError := 0
  rdcmd := .unknown
  rdsize := 0
  rdoffset := 0
  allocCb := false
  readCb := false

def ref (s : Endpoint W) : Endpoint W := { s with toCounter := s.toCounter.inc }

def unref (s : Endpoint W) : Endpoint W := { s with toCounter := s.toCounter.dec }

@[simp] theorem ref_rdcmd (s : Endpoint W) : s.ref.rdcmd = s.rdcmd := rfl
@[simp] theorem ref_world (s : Endpoint W) : s.ref.world = s.world := rfl
@[simp] theorem unref_rdcmd (s : Endpoint W) : s.unref.rdcmd = s.rdcmd := rfl
@[simp] theorem unref_world (s : Endpoint W) : s.unref.world = s.world := rfl

theorem ref_unref {s : Endpoint W} (h : 1 ≤ s.refs) : s.ref.unref = s := by
  have hc : s.toCounter.inc.dec = s.toCounter := Counter.inc_dec (by omega)
  simp [ref, unref, hc]

def uvStatus (s : Endpoint W) (v : ℤ) : Endpoint W := { s with uvError := v }

section Commands
variable (iface : Interface W R)

def startReading (s : Endpoint W) (offset : ℤ) (r : R) : Endpoint W :=
  let answer := iface.readStart s.world s.rdoffset offset r
  { s with world := answer.1, rdoffset := answer.2.1 }

def startStatus (s : Endpoint W) (offset : ℤ) (r : R) : ℤ :=
  (iface.readStart s.world s.rdoffset offset r).2.2

def stopReading (s : Endpoint W) (r : R) : Endpoint W :=
  { s with world := (iface.readStop s.world r).1 }

def stopStatus (s : Endpoint W) (r : R) : ℤ := (iface.readStop s.world r).2

/-- The common end of `read_start` and `read_resume`: the extra reference goes
back when the endpoint refuses to start. -/
def submit (s : Endpoint W) (offset : ℤ) (r : R) : Endpoint W × ℤ :=
  let uvRet := s.startStatus iface offset r
  let s' := (s.uvStatus 0).startReading iface offset r
  if uvRet < 0 then (({ s'.uvStatus uvRet with rdcmd := .unknown }).unref, uvRet) else (s', uvRet)

/-- `io::read_start`; a restart takes the new reference before it gives up the
old one. -/
def readStart (s : Endpoint W) (size : ℕ) (offset : ℤ) (rStop rStart : R) : Endpoint W × ℤ :=
  if s.allocCb = false ∨ s.readCb = false then (s.uvStatus uvEINVAL, uvEINVAL)
  else
    let s' := ({ s with rdcmd := .start }).ref
    let s'' := match s.rdcmd with
      | .unknown | .stop | .pause => s'
      | .start | .resume => ((s'.stopReading iface rStop).uvStatus (s'.stopStatus iface rStop)).unref
    ({ s'' with rdsize := size }).submit iface offset rStart

def readStop (s : Endpoint W) (r : R) : Endpoint W × ℤ :=
  let uvRet := s.stopStatus iface r
  let s' := (({ s with rdcmd := .stop }).stopReading iface r).uvStatus uvRet
  match s.rdcmd with
  | .unknown | .stop | .pause => (s', uvRet)
  | .start | .resume => (s'.unref, uvRet)

/-- `io::read_pause`. -/
def readPause (s : Endpoint W) (trigger : Bool) (r : R) : Endpoint W × ℤ :=
  if trigger = false then (s, 1)
  else match s.rdcmd with
    | .unknown | .stop | .pause => (s, 2)
    | .start | .resume =>
      let uvRet := s.stopStatus iface r
      ((({ s with rdcmd := .pause }).stopReading iface r).uvStatus uvRet |>.unref, uvRet)

/-- `io::read_resume`; it starts at the offset reached so far. -/
def readResume (s : Endpoint W) (trigger : Bool) (r : R) : Endpoint W × ℤ :=
  if trigger = false then (s, 1)
  else match s.rdcmd with
    | .unknown | .stop => (s, 2)
    | .pause => (({ s with rdcmd := .resume }).ref).submit iface s.rdoffset r
    | .start | .resume => (s, 2)

end Commands

/-! ## The extra reference -/

/-- Besides the `n` other holders there is one reference exactly while the
command state says so. -/
def Held (s : Endpoint W) (n : ℤ) : Prop := s.toCounter.Holds (n + s.rdcmd.extra)

section Held
variable {iface : Interface W R} {s : Endpoint W} {n : ℤ}

theorem extra_nonneg (c : Rdcmd) : 0 ≤ c.extra := by
  unfold Rdcmd.extra
  split <;> decide

theorem Held.alive (h : s.Held n) (hn : 1 ≤ n) : 1 ≤ s.refs ∧ s.destroyed = false := by
  have he := extra_nonneg s.rdcmd
  have hr := h.refs
  exact ⟨by omega, Counter.Holds.alive h (by omega)⟩

theorem Held.one_le_refs (h : s.Held n) (hn : 0 ≤ n) (hd : s.destroyed = false) : 1 ≤ s.refs := by
  have he := extra_nonneg s.rdcmd
  have hr := h.refs
  have hz := h.destroyed
  rw [hd, eq_comm, decide_eq_false_iff_not] at hz
  omega

theorem Held.ref (h : s.Held n) (hs : 1 ≤ s.refs) : s.ref.Held (n + 1) := by
  have hr := h.refs
  have hi := Counter.Holds.inc h (by omega)
  rwa [add_right_comm] at hi

theorem Held.unref (h : s.Held (n + 1)) (hn : 0 ≤ n) : s.unref.Held n := by
  have he := extra_nonneg s.rdcmd
  have hd : s.toCounter.Holds (n + s.rdcmd.extra + 1) := by
    rw [add_right_comm]
    exact h
  exact hd.dec (by omega)

/-- A change of the command state alone shifts the account. -/
theorem Held.command (h : s.Held n) (c : Rdcmd) :
    ({ s with rdcmd := c } : Endpoint W).Held (n + s.rdcmd.extra - c.extra) := by
  rw [Held, sub_add_cancel]
  exact h

/-- `submit` finds the reference already taken, whether or not it stays. -/
theorem Held.submit (h : s.Held n) (hn : 0 ≤ n) (hc : s.rdcmd.reading = true) (offset : ℤ) (r : R) :
    (s.submit iface offset r).1.Held n := by
  unfold Endpoint.submit
  dsimp only
  split_ifs
  · have hx : s.rdcmd.extra - Rdcmd.unknown.extra = 1 := by
      rw [Rdcmd.extra, if_pos hc]
      rfl
    have hk := h.command .unknown
    rw [add_sub_assoc, hx] at hk
    exact Held.unref (s := { s with rdcmd := .unknown }) hk hn
  · exact h

/-- The reference that a start or a resume takes first. -/
theorem Held.take (h : s.Held n) (hs : 1 ≤ s.refs) (hc : s.rdcmd.reading = false) {c : Rdcmd}
    (hc' : c.reading = true) : (({ s with rdcmd := c } : Endpoint W).ref).Held n := by
  have hx : n + s.rdcmd.extra - c.extra + 1 = n := by
    rw [Rdcmd.extra, Rdcmd.extra, hc, hc']
    simp
  rw [← hx]
  exact (h.command c).ref hs

/-- The reference that a stop or a pause gives up. -/
theorem Held.release (h : s.Held n) (hn : 0 ≤ n) (hc : s.rdcmd.reading = true) {c : Rdcmd}
    (hc' : c.reading = false) : (({ s with rdcmd := c } : Endpoint W).unref).Held n := by
  have hx : s.rdcmd.extra - c.extra = 1 := by
    rw [Rdcmd.extra, Rdcmd.extra, hc, hc']
    rfl
  have hk := h.command c
  rw [add_sub_assoc, hx] at hk
  exact hk.unref hn

theorem Held.readStart (h : s.Held n) (hn : 1 ≤ n) (size : ℕ) (offset : ℤ) (rStop rStart : R) :
    (s.readStart iface size offset rStop rStart).1.Held n := by
  have hs := (h.alive hn).1
  have hn' : 0 ≤ n := by omega
  unfold Endpoint.readStart
  split_ifs
  · exact h
  have hfresh (hc : s.rdcmd.reading = false) :
      ((({ s with rdcmd := .start } : Endpoint W).ref).Held n) := h.take hs hc rfl
  -- a restart holds two references until it gives up the old one
  have hagain (hc : s.rdcmd.reading = true) :
      ((({ s with rdcmd := .start } : Endpoint W).ref).Held (n + 1)) := by
    have hx : s.rdcmd.extra - Rdcmd.start.extra = 0 := by
      rw [Rdcmd.extra, if_pos hc]
      rfl
    have hk := h.command .start
    rw [add_sub_assoc, hx, add_zero] at hk
    exact hk.ref hs
  cases hc : s.rdcmd
  all_goals refine Held.submit ?_ hn' rfl _ _
  case unknown => exact hfresh (by rw [hc]; rfl)
  case stop => exact hfresh (by rw [hc]; rfl)
  case pause => exact hfresh (by rw [hc]; rfl)
  case start => exact (hagain (by rw [hc]; rfl)).unref hn'
  case resume => exact (hagain (by rw [hc]; rfl)).unref hn'

theorem Held.readStop (h : s.Held n) (hn : 1 ≤ n) (r : R) : (s.readStop iface r).1.Held n := by
  have hn' : 0 ≤ n := by omega
  have hidle (hc : s.rdcmd.reading = false) : ({ s with rdcmd := .stop } : Endpoint W).Held n := by
    have hx : n + s.rdcmd.extra - Rdcmd.stop.extra = n := by
      rw [Rdcmd.extra, hc]
      simp [Rdcmd.extra, Rdcmd.reading]
    have hk := h.command .stop
    rwa [hx] at hk
  unfold Endpoint.readStop
  cases hc : s.rdcmd with
  | unknown => exact hidle (by rw [hc]; rfl)
  | stop => exact hidle (by rw [hc]; rfl)
  | pause => exact hidle (by rw [hc]; rfl)
  | start => exact h.release hn' (by rw [hc]; rfl) (c := .stop) rfl
  | resume => exact h.release hn' (by rw [hc]; rfl) (c := .stop) rfl

theorem Held.readPause (h : s.Held n) (hn : 1 ≤ n) (b : Bool) (r : R) :
    (s.readPause iface b r).1.Held n := by
  have hn' : 0 ≤ n := by omega
  unfold Endpoint.readPause
  split_ifs
  · exact h
  · cases hc : s.rdcmd with
    | unknown => exact h
    | stop => exact h
    | pause => exact h
    | start => exact h.release hn' (by rw [hc]; rfl) (c := .pause) rfl
    | resume => exact h.release hn' (by rw [hc]; rfl) (c := .pause) rfl

theorem Held.readResume (h : s.Held n) (hn : 1 ≤ n) (b : Bool) (r : R) :
    (s.readResume iface b r).1.Held n := by
  have hn' : 0 ≤ n := by omega
  unfold Endpoint.readResume
  split_ifs
  · exact h
  · cases hc : s.rdcmd with
    | unknown => exact h
    | stop => exact h
    | pause =>
      have ht := h.take (h.alive hn).1 (by rw [hc]; rfl) (c := .resume) rfl
      exact ht.submit hn' rfl _ _
    | start => exact h
    | resume => exact h

end Held
end Endpoint
end Uvcc.Io
