import Uvcc.Example.FlowControl

/-!
# Greetings over a connection

The two ends of `hello-tcp-client` and `hello-tcp-server` do the same once they are
connected: each writes its greeting, shuts its side down and reads until the other side
has ended. The server's handle is held by these three alone. The network carries the
bytes in their order, or loses the connection.
-/
namespace Uvcc.Example
open Machine Io

variable {α : Type*}

/-- One end; `wire` is what it has sent and the other has not received, `fin` that its side
is shut down, and `refused` that one of its three calls has failed. -/
structure Peer (α : Type*) where
  input : Endpoint Libuv
  started : Bool
  refused : Bool
  writing : Bool
  shutting : Bool
  fin : Bool
  unsent : List α
  wire : List α
  printed : List α
  deriving DecidableEq, Repr

/-- The variables of a handle outside of the callbacks: the client's `main` has one. -/
def outer (server : Bool) : ℕ := if server then 0 else 1

/-- Both ends, the client at `false`; `reset` when the connection is lost. -/
structure Hello (α : Type*) where
  peer : Bool → Peer α
  reset : Bool

/-- The callback of the connection on one end, with what the three calls answer; libuv
sends some of what is written, completes the write and the shutdown, and delivers data, the
end or an error; and the connection may be lost. -/
inductive HelloEvent where
  | start (server : Bool) (write shutdown : ℤ) (read : Answer)
  | transmit (server : Bool) (n : ℕ)
  | written (server : Bool)
  | shutDown (server : Bool)
  | read (server : Bool) (n : ℕ)
  | ended (server : Bool) (nread : ℤ) (rStop : Answer)
  | reset
  deriving DecidableEq, Repr

/-- The references that the callback of the connection leaves behind: `wr.run`,
`shut_wr.run` and `read_start`, each of which may fail; the variable goes. -/
def greet (e : Endpoint Libuv) (write shutdown : ℤ) (read : Answer) : Endpoint Libuv :=
  let e1 := if write < 0 then e.ref.unref else e.ref
  let e2 := if shutdown < 0 then e1.ref.unref else e1.ref
  ({ e2 with allocCb := true, readCb := true }.readStart socketInterface 0 (-1) ⟨0, 0⟩ read).1.unref

namespace Peer

def init (server : Bool) : Peer α :=
  ⟨.init ⟨false, []⟩ (outer server + 1), false, false, false, false, false, [], [], []⟩

def start (x : Peer α) (greeting : List α) (write shutdown : ℤ) (read : Answer) : Peer α :=
  { x with
    input := greet x.input write shutdown read
    started := true
    refused := decide (write < 0 ∨ shutdown < 0 ∨ read.ret < 0)
    writing := decide (0 ≤ write)
    shutting := decide (0 ≤ shutdown)
    unsent := if write < 0 then [] else greeting }

def written (x : Peer α) : Peer α := { x with input := x.input.unref, writing := false, unsent := [] }

def shutDown (x : Peer α) (fin : Bool) : Peer α := { x with input := x.input.unref, shutting := false, fin := fin }

def receive (x : Peer α) (data : List α) : Peer α :=
  { x with input := leaveCb (enterCb x.input data.length) data.length, printed := x.printed ++ data }

def finish (x : Peer α) (nread : ℤ) (rStop : Answer) : Peer α :=
  { x with input := leaveCb ((enterCb x.input nread).readStop socketInterface rStop).1 nread }

end Peer

namespace Hello

def init : Hello α := ⟨Peer.init, false⟩

def set (s : Hello α) (b : Bool) (x : Peer α) : Hello α := { s with peer := Function.update s.peer b x }

def step (greeting : Bool → List α) (s : Hello α) : HelloEvent → Option (Hello α)
  | .start b write shutdown read =>
    if (s.peer b).started = false then some (s.set b ((s.peer b).start (greeting b) write shutdown read)) else none
  | .transmit b n =>
    let x := s.peer b
    if s.reset = false ∧ 0 < n ∧ n ≤ x.unsent.length then
      some (s.set b { x with unsent := x.unsent.drop n, wire := x.wire ++ x.unsent.take n })
    else none
  | .written b =>
    let x := s.peer b
    if x.writing = true ∧ (x.unsent = [] ∨ s.reset = true) then some (s.set b x.written) else none
  | .shutDown b =>
    let x := s.peer b
    if x.shutting = true ∧ x.writing = false then some (s.set b (x.shutDown (!s.reset))) else none
  | .read b n =>
    let x := s.peer b
    let y := s.peer !b
    if x.input.world.reading = true ∧ 0 < n ∧ n ≤ y.wire.length then
      some ((s.set b (x.receive (y.wire.take n))).set (!b) { y with wire := y.wire.drop n })
    else none
  | .ended b nread rStop =>
    let x := s.peer b
    let y := s.peer !b
    if x.input.world.reading = true ∧ nread < 0 ∧
        (s.reset = false ∧ nread = uvEOF ∧ y.wire = [] ∧ y.fin = true ∨ s.reset = true) then
      some (s.set b (x.finish nread rStop))
    else none
  | .reset =>
    if s.reset = false then some { peer := fun b => { s.peer b with wire := [] }, reset := true } else none

end Hello

/-! ## The handle of one end -/
section Handle
variable {e : Endpoint Libuv} {n : ℤ}

theorem Flowing.ref (h : Flowing e n) (hs : 1 ≤ e.refs) : Flowing e.ref (n + 1) := ⟨h.reading, h.held.ref hs⟩

theorem Flowing.unref (h : Flowing e (n + 1)) (hn : 0 ≤ n) : Flowing e.unref n := ⟨h.reading, h.held.unref hn⟩

/-- A request that refers to the handle, if it is not refused. -/
theorem Flowing.request (h : Flowing e n) (hn : 1 ≤ n) (ret : ℤ) :
    Flowing (if ret < 0 then e.ref.unref else e.ref) (n + (decide (0 ≤ ret)).toNat) := by
  have href := h.ref (h.held.alive hn).1
  by_cases hret : ret < 0
  · rw [if_pos hret, decide_eq_false (not_le.mpr hret)]
    simpa using href.unref (by omega)
  · rw [if_neg hret, decide_eq_true (not_lt.mp hret)]
    exact href

theorem readStart_stream (hcmd : e.rdcmd = .unknown) (hcb : e.allocCb = true ∧ e.readCb = true) (r : Answer) :
    ((e.readStart socketInterface 0 (-1) ⟨0, 0⟩ r).1.rdcmd = if r.ret < 0 then .unknown else .start) ∧
      ((e.readStart socketInterface 0 (-1) ⟨0, 0⟩ r).1.world.reading =
        if r.ret < 0 then e.world.reading else true) := by
  unfold Endpoint.readStart
  rw [if_neg (by simp [hcb.1, hcb.2]), hcmd]
  obtain ⟨hc, hr, _⟩ := submit_stream (e := { ({ e with rdcmd := .start } : Endpoint Libuv).ref with rdsize := 0 }) (-1) r
  exact ⟨hc, hr⟩

/-- A stream that was not read so far is read if that is not refused. -/
theorem Flowing.readStart (h : Flowing e n) (hn : 1 ≤ n) (hcmd : e.rdcmd = .unknown)
    (hcb : e.allocCb = true ∧ e.readCb = true) (r : Answer) :
    Flowing (e.readStart socketInterface 0 (-1) ⟨0, 0⟩ r).1 n ∧
      (e.readStart socketInterface 0 (-1) ⟨0, 0⟩ r).1.world.reading = decide (0 ≤ r.ret) := by
  obtain ⟨hc, hr⟩ := readStart_stream hcmd hcb r
  have hheld : (e.readStart socketInterface 0 (-1) ⟨0, 0⟩ r).1.Held n := by
    apply Endpoint.Held.readStart
    · exact h.held
    · exact hn
  by_cases hret : r.ret < 0
  · have hidle : e.world.reading = false := by
      rw [h.reading, hcmd]
      rfl
    rw [if_pos hret] at hc hr
    rw [decide_eq_false (not_le.mpr hret)]
    refine ⟨⟨?_, hheld⟩, hr.trans hidle⟩
    rw [hr, hc, hidle]
    rfl
  · rw [if_neg hret] at hc hr
    rw [decide_eq_true (not_lt.mp hret)]
    refine ⟨⟨?_, hheld⟩, hr⟩
    rw [hr, hc]
    rfl

/-- The handle is held by the requests that were not refused, and is read if that was not. -/
theorem greet_flowing (h : Flowing e (n + 1)) (hn : 0 ≤ n) (hcmd : e.rdcmd = .unknown) (write shutdown : ℤ)
    (read : Answer) :
    Flowing (greet e write shutdown read) (n + (decide (0 ≤ write)).toNat + (decide (0 ≤ shutdown)).toNat) ∧
      (greet e write shutdown read).world.reading = decide (0 ≤ read.ret) := by
  unfold greet
  dsimp only
  generalize he1 : (if write < 0 then e.ref.unref else e.ref) = e1
  generalize he2 : (if shutdown < 0 then e1.ref.unref else e1.ref) = e2
  have h1 : Flowing e1 (n + 1 + (decide (0 ≤ write)).toNat) := he1 ▸ h.request (by omega) write
  have h2 : Flowing e2 (n + 1 + (decide (0 ≤ write)).toNat + (decide (0 ≤ shutdown)).toNat) :=
    he2 ▸ h1.request (by omega) shutdown
  have hcmd2 : e2.rdcmd = .unknown := by
    rw [← he2, ← he1]
    split_ifs <;> exact hcmd
  have h3 : Flowing ({ e2 with allocCb := true, readCb := true } : Endpoint Libuv)
      (n + (decide (0 ≤ write)).toNat + (decide (0 ≤ shutdown)).toNat + 1) := by
    rw [add_right_comm n, add_right_comm (n + _)] at h2
    exact ⟨h2.reading, h2.held⟩
  obtain ⟨hread, hreading⟩ := h3.readStart (by omega) hcmd2 ⟨rfl, rfl⟩ read
  exact ⟨hread.unref (by omega), hreading⟩

/-- The handle that the read callback is given is there, for it is being read. -/
theorem Flowing.enter (h : Flowing e n) (hn : 0 ≤ n) (hr : e.world.reading = true) (nread : ℤ) :
    Flowing (Example.enterCb e nread) (n + 1) := by
  have hextra : e.rdcmd.extra = 1 := by
    have hcmd := h.reading.symm.trans hr
    rw [Rdcmd.extra, if_pos hcmd]
  have hrefs := h.held.refs
  exact ⟨h.reading, h.held.ref (by omega)⟩

theorem Flowing.leave (h : Flowing e (n + 1)) (hn : 0 ≤ n) (nread : ℤ) : Flowing (Example.leaveCb e nread) n :=
  ⟨h.reading, h.held.unref hn⟩

end Handle

/-! ## Both ends -/
section Ends
variable {greeting : Bool → List α} {s t : Hello α} {e : HelloEvent} {b : Bool} {x y : Peer α}

/-- One end: its handle is held by the variables outside and the pending requests; nothing
is unsent without a request, and a shutdown comes after the write. -/
structure Peer.Sound (b : Bool) (x : Peer α) : Prop where
  fresh : x.started = false → x = Peer.init b
  flowing : x.started = true → Flowing x.input (outer b + x.writing.toNat + x.shutting.toNat)
  unsent : x.unsent ≠ [] → x.writing = true
  fin : x.fin = true → x.writing = false

/-- What one end sends, `x`, is on its way to the other, `y`, in its order; on a connection
that is not lost all of it is, and the reading ends with the end. -/
structure Sends (greeting : List α) (reset : Bool) (x y : Peer α) : Prop where
  printed : y.printed <+: greeting
  fresh : x.started = false → y.printed = []
  lost : reset = true → x.wire = []
  sent : reset = false → y.printed ++ x.wire ++ x.unsent <+: greeting
  whole : reset = false → x.started = true → x.refused = false → y.printed ++ x.wire ++ x.unsent = greeting
  due : reset = false → x.started = true → x.refused = false → x.shutting = true ∨ x.fin = true
  ended : reset = false → y.started = true → y.refused = false → y.input.world.reading = false →
    x.wire = [] ∧ x.fin = true

/-- The other fields do not matter. -/
theorem Sends.congr {g : List α} {r : Bool} {x' y' : Peer α} (h : Sends g r x y)
    (hx : (x'.started, x'.refused, x'.shutting, x'.fin, x'.wire, x'.unsent) =
      (x.started, x.refused, x.shutting, x.fin, x.wire, x.unsent))
    (hy : (y'.started, y'.refused, y'.printed, y'.input.world.reading) =
      (y.started, y.refused, y.printed, y.input.world.reading)) : Sends g r x' y' := by
  simp only [Prod.mk.injEq] at hx hy
  obtain ⟨h1, h2, h3, h4, h5, h6⟩ := hx
  obtain ⟨h7, h8, h9, h10⟩ := hy
  refine ⟨?_, ?_, ?_, ?_, ?_, ?_, ?_⟩
  · rw [h9]
    exact h.printed
  · rw [h1, h9]
    exact h.fresh
  · rw [h5]
    exact h.lost
  · rw [h9, h5, h6]
    exact h.sent
  · rw [h1, h2, h9, h5, h6]
    exact h.whole
  · rw [h1, h2, h3, h4]
    exact h.due
  · rw [h7, h8, h10, h5, h4]
    exact h.ended

namespace Hello

structure Inv (greeting : Bool → List α) (s : Hello α) : Prop where
  sound : ∀ b, (s.peer b).Sound b
  sends : ∀ b, Sends (greeting b) s.reset (s.peer b) (s.peer !b)

theorem init_inv (greeting : Bool → List α) : (init : Hello α).Inv greeting where
  sound b := by
    refine ⟨fun _ => rfl, fun h => ?_, fun h => absurd rfl h, fun h => ?_⟩
    · cases h
    · cases h
  sends b := by
    refine ⟨List.nil_prefix, fun _ => rfl, fun _ => rfl, fun _ => List.nil_prefix, ?_, ?_, ?_⟩
    · intro _ h
      cases h
    · intro _ h
      cases h
    · intro _ h
      cases h

@[simp] theorem set_reset (s : Hello α) (b : Bool) (x : Peer α) : (s.set b x).reset = s.reset := rfl

@[simp] theorem set_self (s : Hello α) (b : Bool) (x : Peer α) : (s.set b x).peer b = x := by
  simp [set]

@[simp] theorem set_not (s : Hello α) (b : Bool) (x : Peer α) : (s.set b x).peer (!b) = s.peer !b := by
  simp [set]

@[simp] theorem set_of_not (s : Hello α) (b : Bool) (x : Peer α) : (s.set (!b) x).peer b = s.peer b := by
  simp [set]

/-- Each end and each direction, seen from one of the ends. -/
theorem inv_of (b : Bool) (hx : (s.peer b).Sound b) (hy : (s.peer !b).Sound !b)
    (hout : Sends (greeting b) s.reset (s.peer b) (s.peer !b))
    (hin : Sends (greeting !b) s.reset (s.peer !b) (s.peer b)) : s.Inv greeting where
  sound c := by
    rcases Bool.eq_or_eq_not c b with rfl | rfl
    · exact hx
    · exact hy
  sends c := by
    rcases Bool.eq_or_eq_not c b with rfl | rfl
    · exact hout
    · rw [Bool.not_not]
      exact hin

theorem Inv.incoming (h : s.Inv greeting) (b : Bool) : Sends (greeting !b) s.reset (s.peer !b) (s.peer b) := by
  have hin := h.sends !b
  rwa [Bool.not_not] at hin

/-- A change at one end alone. -/
theorem Inv.set (h : s.Inv greeting) (hx : x.Sound b) (hout : Sends (greeting b) s.reset x (s.peer !b))
    (hin : Sends (greeting !b) s.reset (s.peer !b) x) : (s.set b x).Inv greeting := by
  apply inv_of b
  · rw [set_self]
    exact hx
  · rw [set_not]
    exact h.sound !b
  · rw [set_self, set_not]
    exact hout
  · rw [set_self, set_not]
    exact hin

theorem Inv.start (h : s.Inv greeting) (hs : (s.peer b).started = false) (write shutdown : ℤ) (read : Answer) :
    (s.set b ((s.peer b).start (greeting b) write shutdown read)).Inv greeting := by
  have hfresh := (h.sound b).fresh hs
  have hout := h.sends b
  have hin := h.incoming b
  have hprinted := hout.fresh hs
  rw [hfresh] at hout hin ⊢
  have hinit : Flowing (Peer.init b : Peer α).input (outer b + 1 : ℤ) := by
    cases b <;> exact ⟨rfl, rfl, rfl, rfl⟩
  obtain ⟨hflowing, hreading⟩ := greet_flowing hinit (Int.natCast_nonneg _) rfl write shutdown read
  apply h.set
  · refine ⟨fun hst => ?_, fun _ => hflowing, fun hne => ?_, fun hfin => ?_⟩
    · cases hst
    · simp only [Peer.start] at hne ⊢
      by_cases hwrite : write < 0
      · rw [if_pos hwrite] at hne
        exact absurd rfl hne
      · exact decide_eq_true (not_lt.mp hwrite)
    · cases hfin
  · refine ⟨hout.printed, fun hst => ?_, hout.lost, fun _ => ?_, fun _ _ hrefused => ?_,
      fun _ _ hrefused => ?_, fun hreset hst hrefused hidle => ?_⟩
    · cases hst
    · rw [hprinted]
      simp only [Peer.start, Peer.init, List.nil_append]
      split_ifs
      · exact List.nil_prefix
      · exact List.prefix_rfl
    · simp only [Peer.start, decide_eq_false_iff_not, not_or, not_lt] at hrefused
      rw [hprinted]
      simp only [Peer.start, Peer.init, List.nil_append, if_neg (not_lt.mpr hrefused.1)]
    · simp only [Peer.start, decide_eq_false_iff_not, not_or, not_lt] at hrefused
      exact .inl (decide_eq_true hrefused.2.1)
    · exact absurd (hout.ended hreset hst hrefused hidle).2 Bool.false_ne_true
  · refine ⟨hin.printed, hin.fresh, hin.lost, hin.sent, hin.whole, hin.due, fun _ _ hrefused hidle => ?_⟩
    simp only [Peer.start, decide_eq_false_iff_not, not_or, not_lt] at hrefused
    rw [show ((Peer.init b : Peer α).start (greeting b) write shutdown read).input.world.reading =
      decide (0 ≤ read.ret) from hreading, decide_eq_true hrefused.2.2] at hidle
    cases hidle

theorem Inv.transmit (h : s.Inv greeting) {n : ℕ} (hreset : s.reset = false) (hn : 0 < n)
    (hle : n ≤ (s.peer b).unsent.length) :
    (s.set b { s.peer b with
      unsent := (s.peer b).unsent.drop n
      wire := (s.peer b).wire ++ (s.peer b).unsent.take n }).Inv greeting := by
  have hx := h.sound b
  have hout := h.sends b
  have hunsent : (s.peer b).unsent ≠ [] := by
    intro hnil
    rw [hnil, List.length_nil] at hle
    omega
  have hstarted : (s.peer b).started = true := by
    by_contra hst
    rw [hx.fresh (Bool.not_eq_true _ ▸ hst)] at hunsent
    exact hunsent rfl
  have hmoved : (s.peer !b).printed ++ ((s.peer b).wire ++ (s.peer b).unsent.take n) ++ (s.peer b).unsent.drop n =
      (s.peer !b).printed ++ (s.peer b).wire ++ (s.peer b).unsent := by
    simp only [List.append_assoc, List.take_append_drop]
  apply h.set
  · refine ⟨fun hst => ?_, hx.flowing, fun _ => hx.unsent hunsent, hx.fin⟩
    exact absurd (hst.symm.trans hstarted) Bool.false_ne_true
  · refine ⟨hout.printed, hout.fresh, fun hr => ?_, fun hr => ?_, fun hr hst hrefused => ?_, hout.due,
      fun hr hst hrefused hidle => ?_⟩
    · exact absurd (hreset.symm.trans hr) Bool.false_ne_true
    · rw [hmoved]
      exact hout.sent hr
    · rw [hmoved]
      exact hout.whole hr hst hrefused
    · have hwriting := hx.fin (hout.ended hr hst hrefused hidle).2
      exact absurd (hwriting.symm.trans (hx.unsent hunsent)) Bool.false_ne_true
  · exact (h.incoming b).congr rfl rfl

theorem Inv.written (h : s.Inv greeting) (hwriting : (s.peer b).writing = true)
    (hdone : (s.peer b).unsent = [] ∨ s.reset = true) : (s.set b (s.peer b).written).Inv greeting := by
  have hx := h.sound b
  have hout := h.sends b
  have hstarted : (s.peer b).started = true := by
    by_contra hst
    rw [hx.fresh (Bool.not_eq_true _ ▸ hst)] at hwriting
    cases hwriting
  have hsame : s.reset = false → (s.peer b).unsent = [] := by
    rcases hdone with hnil | hreset
    · exact fun _ => hnil
    · exact fun hr => absurd (hr.symm.trans hreset) Bool.false_ne_true
  have hflowing := hx.flowing hstarted
  rw [hwriting] at hflowing
  apply h.set
  · refine ⟨fun hst => ?_, fun _ => ?_, fun hne => absurd rfl hne, fun _ => rfl⟩
    · exact absurd (hst.symm.trans hstarted) Bool.false_ne_true
    · simp only [Peer.written, Bool.toNat_false, Nat.cast_zero, add_zero]
      apply Flowing.unref _ (by omega)
      rwa [Bool.toNat_true, Nat.cast_one, add_right_comm] at hflowing
  · refine ⟨hout.printed, hout.fresh, hout.lost, fun hr => ?_, fun hr hst hrefused => ?_, hout.due, hout.ended⟩
    · have hsent := hout.sent hr
      rw [hsame hr] at hsent
      exact hsent
    · have hwhole := hout.whole hr hst hrefused
      rw [hsame hr] at hwhole
      exact hwhole
  · exact (h.incoming b).congr rfl rfl

theorem Inv.shutDown (h : s.Inv greeting) (hshutting : (s.peer b).shutting = true)
    (hwriting : (s.peer b).writing = false) : (s.set b ((s.peer b).shutDown !s.reset)).Inv greeting := by
  have hx := h.sound b
  have hout := h.sends b
  have hstarted : (s.peer b).started = true := by
    by_contra hst
    rw [hx.fresh (Bool.not_eq_true _ ▸ hst)] at hshutting
    cases hshutting
  have hflowing := hx.flowing hstarted
  rw [hshutting] at hflowing
  apply h.set
  · refine ⟨fun hst => ?_, fun _ => ?_, hx.unsent, fun _ => hwriting⟩
    · exact absurd (hst.symm.trans hstarted) Bool.false_ne_true
    · simp only [Peer.shutDown, Bool.toNat_false, Nat.cast_zero, add_zero]
      apply Flowing.unref _ (by omega)
      exact hflowing
  · refine ⟨hout.printed, hout.fresh, hout.lost, hout.sent, hout.whole, fun hr _ _ => .inr ?_,
      fun hr hst hrefused hidle => ⟨(hout.ended hr hst hrefused hidle).1, ?_⟩⟩
    · simp only [Peer.shutDown, hr, Bool.not_false]
    · simp only [Peer.shutDown, hr, Bool.not_false]
  · exact (h.incoming b).congr rfl rfl

/-- What the read callback does to the handle of one end. -/
theorem Peer.Sound.callback (hx : x.Sound b) (hr : x.input.world.reading = true) (nread : ℤ) :
    x.started = true ∧
      Flowing (enterCb x.input nread) (outer b + x.writing.toNat + x.shutting.toNat + 1) := by
  have hstarted : x.started = true := by
    by_contra hst
    rw [hx.fresh (Bool.not_eq_true _ ▸ hst)] at hr
    cases hr
  exact ⟨hstarted, (hx.flowing hstarted).enter (by omega) hr nread⟩

theorem Inv.read (h : s.Inv greeting) {n : ℕ} (hreading : (s.peer b).input.world.reading = true) :
    ((s.set b ((s.peer b).receive ((s.peer !b).wire.take n))).set (!b)
      { s.peer !b with wire := (s.peer !b).wire.drop n }).Inv greeting := by
  have hx := h.sound b
  have hy := h.sound !b
  have hin := h.incoming b
  obtain ⟨hstarted, hentered⟩ := Peer.Sound.callback hx hreading ((s.peer !b).wire.take n).length
  have hreading' : ((s.peer b).receive ((s.peer !b).wire.take n)).input.world.reading = true := hreading
  have hmoved : (s.peer b).printed ++ (s.peer !b).wire.take n ++ (s.peer !b).wire.drop n =
      (s.peer b).printed ++ (s.peer !b).wire := by
    simp only [List.append_assoc, List.take_append_drop]
  apply inv_of b
  · rw [set_of_not, set_self]
    refine ⟨fun hst => ?_, fun _ => hentered.leave (by omega) _, hx.unsent, hx.fin⟩
    exact absurd (hst.symm.trans hstarted) Bool.false_ne_true
  · rw [set_self]
    refine ⟨fun hst => ?_, hy.flowing, hy.unsent, hy.fin⟩
    rw [hy.fresh hst]
    simp [Peer.init]
  · rw [set_of_not, set_self, set_self]
    exact (h.sends b).congr rfl rfl
  · rw [set_of_not, set_self, set_self]
    refine ⟨?_, fun hst => ?_, fun hr => ?_, fun hr => ?_, fun hr hst hrefused => ?_, hin.due,
      fun _ _ _ hidle => ?_⟩
    · cases hreset : s.reset with
      | true =>
        simp only [Peer.receive, hin.lost hreset, List.take_nil, List.append_nil]
        exact hin.printed
      | false =>
        have hpart : (s.peer b).printed ++ (s.peer !b).wire.take n <+:
            (s.peer b).printed ++ (s.peer !b).wire ++ (s.peer !b).unsent := by
          rw [List.append_assoc, List.prefix_append_right_inj]
          exact (List.take_prefix n _).trans (List.prefix_append _ _)
        exact hpart.trans (hin.sent hreset)
    · simp only [Peer.receive, hin.fresh hst, hy.fresh hst, Peer.init, List.take_nil, List.append_nil]
    · dsimp only
      rw [hin.lost hr, List.drop_nil]
    · simp only [Peer.receive]
      rw [hmoved]
      exact hin.sent hr
    · simp only [Peer.receive]
      rw [hmoved]
      exact hin.whole hr hst hrefused
    · exact absurd (hidle.symm.trans hreading') Bool.false_ne_true

theorem Inv.finish (h : s.Inv greeting) (hreading : (s.peer b).input.world.reading = true) (nread : ℤ)
    (hend : s.reset = false → (s.peer !b).wire = [] ∧ (s.peer !b).fin = true) (rStop : Answer) :
    (s.set b ((s.peer b).finish nread rStop)).Inv greeting := by
  have hx := h.sound b
  have hin := h.incoming b
  obtain ⟨hstarted, hentered⟩ := Peer.Sound.callback hx hreading nread
  apply h.set
  · refine ⟨fun hst => ?_, fun _ => ?_, hx.unsent, hx.fin⟩
    · exact absurd (hst.symm.trans hstarted) Bool.false_ne_true
    · exact (hentered.readStop (by omega) rStop).leave (by omega) nread
  · exact (h.sends b).congr rfl rfl
  · exact ⟨hin.printed, hin.fresh, hin.lost, hin.sent, hin.whole, hin.due, fun hr _ _ _ => hend hr⟩

theorem Inv.lose (h : s.Inv greeting) :
    ({ peer := fun b => { s.peer b with wire := [] }, reset := true } : Hello α).Inv greeting where
  sound b := by
    have hx := h.sound b
    refine ⟨fun hst => ?_, hx.flowing, hx.unsent, hx.fin⟩
    dsimp only
    rw [hx.fresh hst]
    rfl
  sends b := by
    have hout := h.sends b
    refine ⟨hout.printed, hout.fresh, fun _ => rfl, ?_, ?_, ?_, ?_⟩
    · intro hr
      cases hr
    · intro hr
      cases hr
    · intro hr
      cases hr
    · intro hr
      cases hr

theorem step_inv (h : s.Inv greeting) (hstep : s.step greeting e = some t) : t.Inv greeting := by
  cases e with
  | start b write shutdown read =>
    simp only [step, Option.ite_none_right_eq_some, Option.some.injEq] at hstep
    obtain ⟨hs, rfl⟩ := hstep
    exact h.start hs write shutdown read
  | transmit b n =>
    simp only [step, Option.ite_none_right_eq_some, Option.some.injEq] at hstep
    obtain ⟨⟨hreset, hn, hle⟩, rfl⟩ := hstep
    exact h.transmit hreset hn hle
  | written b =>
    simp only [step, Option.ite_none_right_eq_some, Option.some.injEq] at hstep
    obtain ⟨⟨hwriting, hdone⟩, rfl⟩ := hstep
    exact h.written hwriting hdone
  | shutDown b =>
    simp only [step, Option.ite_none_right_eq_some, Option.some.injEq] at hstep
    obtain ⟨⟨hshutting, hwriting⟩, rfl⟩ := hstep
    exact h.shutDown hshutting hwriting
  | read b n =>
    simp only [step, Option.ite_none_right_eq_some, Option.some.injEq] at hstep
    obtain ⟨⟨hreading, _⟩, rfl⟩ := hstep
    exact h.read hreading
  | ended b nread rStop =>
    simp only [step, Option.ite_none_right_eq_some, Option.some.injEq] at hstep
    obtain ⟨⟨hreading, _, hend⟩, rfl⟩ := hstep
    refine h.finish hreading nread (fun hr => ?_) rStop
    rcases hend with ⟨_, _, hwire, hfin⟩ | hreset
    · exact ⟨hwire, hfin⟩
    · exact absurd (hr.symm.trans hreset) Bool.false_ne_true
  | reset =>
    simp only [step, Option.ite_none_right_eq_some, Option.some.injEq] at hstep
    obtain ⟨_, rfl⟩ := hstep
    exact h.lose

/-! ## The end of a run -/

def left (greeting : List α) (x : Peer α) : ℕ :=
  (bif x.started then 0 else 3 * greeting.length + 5) + 2 * x.unsent.length + x.wire.length + x.writing.toNat +
    x.shutting.toNat + x.input.world.reading.toNat

def allLeft (greeting : Bool → List α) (s : Hello α) : ℕ :=
  left (greeting false) (s.peer false) + left (greeting true) (s.peer true) + (!s.reset).toNat

theorem allLeft_eq (b : Bool) :
    s.allLeft greeting = left (greeting b) (s.peer b) + left (greeting !b) (s.peer !b) + (!s.reset).toNat := by
  cases b with
  | false => rfl
  | true => simp only [allLeft, Bool.not_true, Nat.add_comm (left (greeting true) _)]

theorem set_allLeft (h : left (greeting b) x < left (greeting b) (s.peer b)) :
    (s.set b x).allLeft greeting < s.allLeft greeting := by
  rw [allLeft_eq b, allLeft_eq b, set_self, set_not, set_reset]
  omega

theorem toNat_le_one (b : Bool) : b.toNat ≤ 1 := by
  cases b <;> decide

/-- Every step leaves less to do. -/
theorem step_allLeft (h : s.Inv greeting) (hstep : s.step greeting e = some t) :
    t.allLeft greeting < s.allLeft greeting := by
  cases e with
  | start b write shutdown read =>
    simp only [step, Option.ite_none_right_eq_some, Option.some.injEq] at hstep
    obtain ⟨hs, rfl⟩ := hstep
    apply set_allLeft
    have hwire : (s.peer b).wire = [] := by
      rw [(h.sound b).fresh hs]
      rfl
    have hunsent : (if write < 0 then [] else greeting b).length ≤ (greeting b).length := by
      split_ifs
      · exact Nat.zero_le _
      · exact le_rfl
    have h1 := toNat_le_one (decide (0 ≤ write))
    have h2 := toNat_le_one (decide (0 ≤ shutdown))
    have h3 := toNat_le_one (greet (s.peer b).input write shutdown read).world.reading
    simp only [left, Peer.start, hwire, hs, cond_true, cond_false, List.length_nil]
    omega
  | transmit b n =>
    simp only [step, Option.ite_none_right_eq_some, Option.some.injEq] at hstep
    obtain ⟨⟨_, hn, hle⟩, rfl⟩ := hstep
    apply set_allLeft
    simp only [left, List.length_append, List.length_drop, List.length_take]
    omega
  | written b =>
    simp only [step, Option.ite_none_right_eq_some, Option.some.injEq] at hstep
    obtain ⟨⟨hwriting, _⟩, rfl⟩ := hstep
    apply set_allLeft
    simp only [left, Peer.written, Endpoint.unref_world, hwriting, Bool.toNat_true, Bool.toNat_false, List.length_nil]
    omega
  | shutDown b =>
    simp only [step, Option.ite_none_right_eq_some, Option.some.injEq] at hstep
    obtain ⟨⟨hshutting, _⟩, rfl⟩ := hstep
    apply set_allLeft
    simp only [left, Peer.shutDown, Endpoint.unref_world, hshutting, Bool.toNat_true, Bool.toNat_false]
    omega
  | read b n =>
    simp only [step, Option.ite_none_right_eq_some, Option.some.injEq] at hstep
    obtain ⟨⟨_, hn, hle⟩, rfl⟩ := hstep
    have hx : left (greeting b) ((s.peer b).receive ((s.peer !b).wire.take n)) = left (greeting b) (s.peer b) := rfl
    rw [allLeft_eq b, allLeft_eq b, set_of_not, set_self, set_self, hx]
    simp only [left, set_reset, List.length_drop]
    omega
  | ended b nread rStop =>
    simp only [step, Option.ite_none_right_eq_some, Option.some.injEq] at hstep
    obtain ⟨⟨hreading, _⟩, rfl⟩ := hstep
    apply set_allLeft
    have hstopped : ((s.peer b).finish nread rStop).input.world.reading = false :=
      (readStop_stream (e := enterCb (s.peer b).input nread) rStop).2.1
    simp only [left, hstopped, hreading, Bool.toNat_true, Bool.toNat_false]
    simp only [Peer.finish]
    omega
  | reset =>
    simp only [step, Option.ite_none_right_eq_some, Option.some.injEq] at hstep
    obtain ⟨hreset, rfl⟩ := hstep
    simp only [allLeft, left, hreset, List.length_nil, Bool.not_true, Bool.not_false, Bool.toNat_true, Bool.toNat_false]
    omega

/-- Nothing can happen but the loss of the connection. -/
def Stuck (greeting : Bool → List α) (s : Hello α) : Prop := ∀ e, e ≠ .reset → s.step greeting e = none

def Quiet (x : Peer α) : Prop :=
  x.started = true ∧ x.writing = false ∧ x.shutting = false ∧ x.input.world.reading = false

section Stuck
variable (h : s.Stuck greeting) (b)
include h

theorem Stuck.started : (s.peer b).started = true := by
  have hnone := h (.start b 0 0 ⟨0, 0⟩) (by simp)
  simpa [step] using hnone

theorem Stuck.unsent (hreset : s.reset = false) : (s.peer b).unsent = [] := by
  have hnone := h (.transmit b 1) (by simp)
  simp only [step, hreset, Nat.one_pos, true_and, ite_eq_right_iff, reduceCtorEq, imp_false, not_le] at hnone
  exact List.length_eq_zero_iff.mp (by omega)

theorem Stuck.writing : (s.peer b).writing = false := by
  have hnone := h (.written b) (by simp)
  by_contra hwriting
  rw [Bool.not_eq_false] at hwriting
  cases hreset : s.reset with
  | true => simp [step, hwriting, hreset] at hnone
  | false => simp [step, hwriting, h.unsent b hreset] at hnone

theorem Stuck.shutting : (s.peer b).shutting = false := by
  have hnone := h (.shutDown b) (by simp)
  simpa [step, h.writing b] using hnone

theorem Stuck.lost (hreset : s.reset = true) : Quiet (s.peer b) := by
  refine ⟨h.started b, h.writing b, h.shutting b, ?_⟩
  have hnone := h (.ended b (-1) ⟨0, 0⟩) (by simp)
  simpa [step, hreset] using hnone

theorem Stuck.wire (hreading : (s.peer b).input.world.reading = true) : (s.peer !b).wire = [] := by
  have hnone := h (.read b 1) (by simp)
  simp only [step, hreading, Nat.one_pos, true_and, ite_eq_right_iff, reduceCtorEq, imp_false, not_le] at hnone
  exact List.length_eq_zero_iff.mp (by omega)

theorem Stuck.quiet (hi : s.Inv greeting) (hreset : s.reset = false) (hrefused : (s.peer !b).refused = false) :
    Quiet (s.peer b) := by
  refine ⟨h.started b, h.writing b, h.shutting b, ?_⟩
  by_contra hreading
  rw [Bool.not_eq_false] at hreading
  have hfin : (s.peer !b).fin = true := by
    rcases (hi.incoming b).due hreset (h.started !b) hrefused with hshutting | hfin
    · exact absurd ((h.shutting !b).symm.trans hshutting) Bool.false_ne_true
    · exact hfin
  have hnone := h (.ended b uvEOF ⟨0, 0⟩) (by simp)
  simp [step, hreading, hreset, h.wire b hreading, hfin, uvEOF] at hnone

end Stuck

def Accepted : HelloEvent → Prop
  | .start _ write shutdown read => 0 ≤ write ∧ 0 ≤ shutdown ∧ 0 ≤ read.ret
  | _ => True

instance (e : HelloEvent) : Decidable (Accepted e) := by cases e <;> unfold Accepted <;> infer_instance

/-- Then neither end has been refused anything. -/
theorem step_refused (h : ∀ b, (s.peer b).refused = false) (hok : Accepted e) (hstep : s.step greeting e = some t) :
    ∀ b, (t.peer b).refused = false := by
  have hset : ∀ (u : Hello α) (c : Bool) (x : Peer α), (∀ b, (u.peer b).refused = false) → x.refused = false →
      ∀ b, ((u.set c x).peer b).refused = false := by
    intro u c x hu hx b
    rcases Bool.eq_or_eq_not b c with rfl | rfl
    · rw [set_self]
      exact hx
    · rw [set_not]
      exact hu !c
  cases e with
  | start c write shutdown read =>
    simp only [step, Option.ite_none_right_eq_some, Option.some.injEq] at hstep
    obtain ⟨_, rfl⟩ := hstep
    obtain ⟨hwrite, hshutdown, hread⟩ := hok
    apply hset s c _ h
    simp only [Peer.start, decide_eq_false_iff_not, not_or, not_lt]
    exact ⟨hwrite, hshutdown, hread⟩
  | transmit c n =>
    simp only [step, Option.ite_none_right_eq_some, Option.some.injEq] at hstep
    obtain ⟨_, rfl⟩ := hstep
    exact hset s c _ h (h c)
  | written c =>
    simp only [step, Option.ite_none_right_eq_some, Option.some.injEq] at hstep
    obtain ⟨_, rfl⟩ := hstep
    exact hset s c _ h (h c)
  | shutDown c =>
    simp only [step, Option.ite_none_right_eq_some, Option.some.injEq] at hstep
    obtain ⟨_, rfl⟩ := hstep
    exact hset s c _ h (h c)
  | read c n =>
    simp only [step, Option.ite_none_right_eq_some, Option.some.injEq] at hstep
    obtain ⟨_, rfl⟩ := hstep
    exact hset _ (!c) _ (hset s c _ h (h c)) (h !c)
  | ended c nread rStop =>
    simp only [step, Option.ite_none_right_eq_some, Option.some.injEq] at hstep
    obtain ⟨_, rfl⟩ := hstep
    exact hset s c _ h (h c)
  | reset =>
    simp only [step, Option.ite_none_right_eq_some, Option.some.injEq] at hstep
    obtain ⟨_, rfl⟩ := hstep
    exact h

/-- The handle of a quiet end has the references of the variables outside alone. -/
theorem Quiet.held (hx : x.Sound b) (h : Quiet x) : x.input.Held (outer b) ∧ x.input.destroyed = b := by
  obtain ⟨hstarted, hwriting, hshutting, hreading⟩ := h
  have hflowing := hx.flowing hstarted
  rw [hwriting, hshutting] at hflowing
  simp only [Bool.toNat_false, Nat.cast_zero, add_zero] at hflowing
  refine ⟨hflowing.held, ?_⟩
  have hextra : x.input.rdcmd.extra = 0 := by
    rw [Rdcmd.extra, ← hflowing.reading, hreading]
    rfl
  have hdestroyed := hflowing.held.destroyed
  rw [hextra, add_zero] at hdestroyed
  rw [hdestroyed]
  cases b <;> rfl

end Hello

/-- Whatever is sent on, delivered, refused or lost in whatever order, no run of the two
programs takes more steps than their greetings allow, and a connection that is lost leaves
both of them quiet in the end. All along each end has printed a part of what the other has
written, from its beginning, and its handle is held exactly by the variables outside, the
requests that are pending and the reading. -/
theorem hello_ends (greeting : Bool → List α) (es : List HelloEvent) :
    (taken (Hello.step greeting) Hello.init es).length ≤
      3 * ((greeting false).length + (greeting true).length) + 11 ∧
    ∀ s ∈ visited (Hello.step greeting) Hello.init es, ∀ b,
      (s.peer b).printed <+: (greeting !b) ∧
        ((s.peer b).started = true →
          (s.peer b).input.Held (outer b + (s.peer b).writing.toNat + (s.peer b).shutting.toNat)) ∧
        (s.reset = true → s.Stuck greeting → Hello.Quiet (s.peer b)) := by
  have hinv : ∀ s ∈ visited (Hello.step greeting) Hello.init es, s.Inv greeting := by
    intro s hs
    exact visited_invariant (fun _ _ _ h hstep => Hello.step_inv h hstep) es _ (Hello.init_inv greeting) s hs
  refine ⟨?_, fun s hs b => ⟨?_, fun hstarted => ?_, fun hreset hstuck => hstuck.lost b hreset⟩⟩
  · have hstep : ∀ (s : Hello α) (e : HelloEvent) (t : Hello α), s.Inv greeting → s.step greeting e = some t →
        t.Inv greeting ∧ t.allLeft greeting < s.allLeft greeting :=
      fun _ _ _ h hstep => ⟨Hello.step_inv h hstep, Hello.step_allLeft h hstep⟩
    have hle := taken_length_le hstep es _ (Hello.init_inv greeting)
    have hinit : (Hello.init : Hello α).allLeft greeting =
        3 * (greeting false).length + 5 + (3 * (greeting true).length + 5) + 1 := rfl
    rw [hinit] at hle
    omega
  · exact ((hinv s hs).incoming b).printed
  · exact (((hinv s hs).sound b).flowing hstarted).held

/-- When no call is refused, and the connection is not lost, the programs come to rest only
after each has printed the whole greeting of the other; then the server's handle has been
destroyed, and the client's is held by its one variable. -/
theorem hello_exchanges (greeting : Bool → List α) (es : List HelloEvent)
    (hok : ∀ p ∈ taken (Hello.step greeting) Hello.init es, Hello.Accepted p.2) :
    let s := final (Hello.step greeting) Hello.init es
    s.reset = false → s.Stuck greeting → ∀ b,
      (s.peer b).printed = (greeting !b) ∧ Hello.Quiet (s.peer b) ∧ (s.peer b).input.Held (outer b) ∧
        (s.peer b).input.destroyed = b := by
  intro s hreset hstuck b
  have hstep : ∀ (u : Hello α) (e : HelloEvent) (v : Hello α), (u.Inv greeting ∧ ∀ b, (u.peer b).refused = false) →
      Hello.Accepted e → u.step greeting e = some v → v.Inv greeting ∧ ∀ b, (v.peer b).refused = false :=
    fun _ _ _ h hok hstep => ⟨Hello.step_inv h.1 hstep, Hello.step_refused h.2 hok hstep⟩
  obtain ⟨hinv, hrefused⟩ := visited_guarded hstep es _ ⟨Hello.init_inv greeting, fun _ => rfl⟩ hok s
    (final_visited es _)
  have hquiet := hstuck.quiet b hinv hreset (hrefused !b)
  obtain ⟨hheld, hdestroyed⟩ := Hello.Quiet.held (hinv.sound b) hquiet
  have hwhole := (hinv.incoming b).whole hreset (hstuck.started !b) (hrefused !b)
  have hended := (hinv.incoming b).ended hreset hquiet.1 (hrefused b) hquiet.2.2.2
  rw [hended.1, hstuck.unsent (!b) hreset, List.append_nil, List.append_nil] at hwhole
  exact ⟨hwhole, hquiet, hheld, hdestroyed⟩

end Ends

def greetings : Bool → List ℕ := fun server => if server then [3] else [1, 2]

def bothGreeted : List HelloEvent :=
  [.start true 0 0 ⟨0, 0⟩, .transmit true 1, .start false 0 0 ⟨0, 0⟩, .transmit false 2, .read true 1,
    .written false, .shutDown false, .read true 1, .ended true (-4095) ⟨0, 0⟩, .written true, .read false 1,
    .shutDown true, .ended false (-4095) ⟨0, 0⟩]

theorem both_greeted : let s := final (Hello.step greetings) Hello.init bothGreeted
    ((s.peer true).printed = [1, 2] ∧ (s.peer false).printed = [3]) ∧
      (taken (Hello.step greetings) Hello.init bothGreeted).length = 13 ∧
      (s.peer true).printed <+: (greetings !true) := by
  intro s
  refine ⟨⟨rfl, rfl⟩, rfl, ?_⟩
  exact ((hello_ends greetings bothGreeted).2 s (final_visited bothGreeted _) true).1

theorem both_quiet : let s := final (Hello.step greetings) Hello.init bothGreeted
    (s.peer true).printed = (greetings !true) ∧ Hello.Quiet (s.peer true) := by
  intro s
  have hok : ∀ p ∈ taken (Hello.step greetings) Hello.init bothGreeted, Hello.Accepted p.2 := by decide
  have hstuck : s.Stuck greetings := by
    have hstarted : ∀ b, (s.peer b).started = true := by decide
    have hunsent : ∀ b, (s.peer b).unsent = [] := by decide
    have hpending : ∀ b, (s.peer b).writing = false ∧ (s.peer b).shutting = false := by decide
    have hreading : ∀ b, (s.peer b).input.world.reading = false := by decide
    intro e hne
    cases e with
    | start b _ _ _ => simp [Hello.step, hstarted b]
    | transmit b n =>
      simp only [Hello.step, hunsent b, List.length_nil, ite_eq_right_iff, reduceCtorEq]
      omega
    | written b => simp [Hello.step, hpending b]
    | shutDown b => simp [Hello.step, hpending b]
    | read b _ => simp [Hello.step, hreading b]
    | ended b _ _ => simp [Hello.step, hreading b]
    | reset => exact absurd rfl hne
  have h := hello_exchanges greetings bothGreeted hok rfl hstuck true
  exact ⟨h.1, h.2.1⟩

end Uvcc.Example
