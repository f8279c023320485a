import Uvcc.Io.Linearizable

/-!
# Reading no faster than is written

`cpio-uvcc` copies its standard input to its standard output. It pauses the input when
what waits to be written reaches an upper limit, and resumes it when a write completes
and no more than a lower limit waits.
-/
namespace Uvcc.Example
open Machine Io

def bufferSize : ℕ := 8192

def writeQueueSizeUpperLimit : ℕ := 128 * bufferSize

def writeQueueSizeLowerLimit : ℕ := 16 * bufferSize

/-! ## The input -/

/-- A stream that is read exactly when its last command says so, with `n` references
besides that of the reading. -/
structure Flowing (e : Endpoint Libuv) (n : ℤ) : Prop where
  reading : e.world.reading = e.rdcmd.reading
  held : e.Held n

section Input
variable {e : Endpoint Libuv} {n : ℤ}

/-- After `in.read_start(alloc_cb, read_cb)`. -/
def started : Endpoint Libuv :=
  let e : Endpoint Libuv := { Endpoint.init ⟨false, []⟩ 1 with allocCb := true, readCb := true }
  (e.readStart socketInterface 0 (-1) ⟨0, 0⟩ ⟨0, 0⟩).1

theorem started_flowing : Flowing started 1 := ⟨rfl, rfl, rfl, rfl⟩

/-! What a stop, a pause and a resume do to a stream; its offset stays. -/

theorem readStop_stream (r : Answer) :
    (e.readStop socketInterface r).1.rdcmd = .stop ∧
      (e.readStop socketInterface r).1.world.reading = false ∧
      (e.readStop socketInterface r).1.rdoffset = e.rdoffset := by
  rw [Endpoint.readStop_eq]
  unfold Endpoint.halt
  cases e.rdcmd <;> exact ⟨rfl, rfl, rfl⟩

theorem readPause_stream (trigger : Bool) (r : Answer) :
    ((e.readPause socketInterface trigger r).1 = e ∧ (trigger = true → e.rdcmd.reading = false)) ∨
      ((e.readPause socketInterface trigger r).1.rdcmd = .pause ∧
        (e.readPause socketInterface trigger r).1.world.reading = false ∧
        (e.readPause socketInterface trigger r).1.rdoffset = e.rdoffset ∧ trigger = true) := by
  cases trigger with
  | false => exact .inl ⟨rfl, by simp⟩
  | true =>
    rw [Endpoint.readPause_eq]
    cases hc : e.rdcmd.reading with
    | false => exact .inl ⟨rfl, fun _ => rfl⟩
    | true =>
      rw [if_pos rfl]
      unfold Endpoint.halt
      refine .inr ?_
      cases e.rdcmd <;> exact ⟨rfl, rfl, rfl, rfl⟩

theorem submit_stream (offset : ℤ) (r : Answer) :
    ((e.submit socketInterface offset r).1.rdcmd = if r.ret < 0 then .unknown else e.rdcmd) ∧
      ((e.submit socketInterface offset r).1.world.reading =
        if r.ret < 0 then e.world.reading else true) ∧
      ((e.submit socketInterface offset r).1.rdoffset = if 0 ≤ offset then offset else e.rdoffset) := by
  unfold Endpoint.submit
  have hstatus : e.startStatus socketInterface offset r = r.ret := rfl
  rw [hstatus]
  dsimp only
  by_cases hret : r.ret < 0
  · simp [Endpoint.startReading, Endpoint.uvStatus, Endpoint.unref, socketInterface, hret]
  · simp [Endpoint.startReading, Endpoint.uvStatus, socketInterface, hret]

theorem readResume_stream (trigger : Bool) (r : Answer) :
    ((e.readResume socketInterface trigger r).1 = e ∧ (trigger = true → e.rdcmd ≠ .pause)) ∨
      (trigger = true ∧ e.rdcmd = .pause ∧
        (e.readResume socketInterface trigger r).1.rdcmd = (if r.ret < 0 then .unknown else .resume) ∧
        (e.readResume socketInterface trigger r).1.world.reading =
          (if r.ret < 0 then e.world.reading else true) ∧
        (e.readResume socketInterface trigger r).1.rdoffset = e.rdoffset) := by
  cases trigger with
  | false => exact .inl ⟨rfl, by simp⟩
  | true =>
    rw [Endpoint.readResume_eq]
    by_cases hc : e.rdcmd = .pause
    · rw [if_pos hc]
      obtain ⟨hcmd, hreading, hoffset⟩ :=
        submit_stream (e := { e with rdcmd := .resume }.ref) e.rdoffset r
      exact .inr ⟨rfl, hc, hcmd, hreading, hoffset.trans (ite_self e.rdoffset)⟩
    · exact .inl ⟨if_neg hc ▸ rfl, fun _ => hc⟩

theorem Flowing.readStop (h : Flowing e n) (hn : 1 ≤ n) (r : Answer) :
    Flowing (e.readStop socketInterface r).1 n where
  reading := by
    obtain ⟨hcmd, hreading, _⟩ := readStop_stream (e := e) r
    rw [hcmd, hreading]
    rfl
  held := h.held.readStop hn r

theorem Flowing.readPause (h : Flowing e n) (hn : 1 ≤ n) (trigger : Bool) (r : Answer) :
    Flowing (e.readPause socketInterface trigger r).1 n where
  reading := by
    rcases readPause_stream (e := e) trigger r with ⟨he, _⟩ | ⟨hcmd, hreading, _⟩
    · rw [he]
      exact h.reading
    · rw [hcmd, hreading]
      rfl
  held := h.held.readPause hn trigger r

theorem Flowing.readResume (h : Flowing e n) (hn : 1 ≤ n) (trigger : Bool) (r : Answer) :
    Flowing (e.readResume socketInterface trigger r).1 n where
  reading := by
    rcases readResume_stream (e := e) trigger r with ⟨he, _⟩ | ⟨_, hc, hcmd, hreading, _⟩
    · rw [he]
      exact h.reading
    · have hpause : e.world.reading = false := by rw [h.reading, hc]; rfl
      rw [hcmd, hreading]
      split_ifs
      · exact hpause
      · rfl
  held := h.held.readResume hn trigger r

/-- `io_read_cb` around the user callback, which gets the handle as a new reference. -/
def enterCb (e : Endpoint Libuv) (nread : ℤ) : Endpoint Libuv := { e with uvError := nread }.ref

def leaveCb (e : Endpoint Libuv) (nread : ℤ) : Endpoint Libuv :=
  { e.unref with rdoffset := if 0 < nread then e.rdoffset + nread else e.rdoffset }

theorem Flowing.enterCb (h : Flowing e 1) (nread : ℤ) : Flowing (enterCb e nread) 2 :=
  ⟨h.reading, h.held.ref (h.held.alive le_rfl).1⟩

theorem Flowing.leaveCb (h : Flowing e 2) (nread : ℤ) : Flowing (leaveCb e nread) 1 :=
  ⟨h.reading, h.held.unref (n := 1) zero_le_one⟩

/-- A stream that is not read has been paused, or is out of use. -/
theorem Flowing.idle (h : Flowing e n) (hr : e.world.reading = false) :
    e.rdcmd = .pause ∨ e.rdcmd = .stop ∨ e.rdcmd = .unknown := by
  rw [h.reading] at hr
  cases hc : e.rdcmd <;> simp [hc, Rdcmd.reading] at hr ⊢

end Input

/-! ## `cpio-uvcc` -/

/-- `out` has for each pending write what libuv has not written of it. -/
structure Cpio where
  input : Endpoint Libuv
  out : List ℕ
  deriving DecidableEq, Repr

/-- libuv delivers, writes some of what is pending, and completes a write. -/
inductive CpioEvent where
  | read (nread ret : ℤ) (rStop rPause : Answer)
  | transmit (i n : ℕ)
  | written (i : ℕ) (status : ℤ) (r : Answer)
  deriving DecidableEq, Repr

namespace Cpio

def init : Cpio := ⟨started, []⟩

def writeQueueSize (s : Cpio) : BitVec 64 := BitVec.ofNat 64 s.out.sum

def readStop (s : Cpio) (r : Answer) : Cpio := { s with input := (s.input.readStop socketInterface r).1 }

def readPause (s : Cpio) (r : Answer) : Cpio :=
  { s with input :=
    (s.input.readPause socketInterface (decide (writeQueueSizeUpperLimit ≤ s.writeQueueSize.toNat)) r).1 }

def readResume (s : Cpio) (r : Answer) : Cpio :=
  { s with input :=
    (s.input.readResume socketInterface (decide (s.writeQueueSize.toNat ≤ writeQueueSizeLowerLimit)) r).1 }

def run (s : Cpio) (nread ret : ℤ) (rStop : Answer) : Cpio :=
  -- what `uv_write()` takes at once on an empty queue is one buffer at most, which does not
  -- reach the limit: it may as well be transmitted after the callback
  if ret < 0 then s.readStop rStop else { s with out := s.out ++ [nread.toNat] }

def readCb (s : Cpio) (nread ret : ℤ) (rStop rPause : Answer) : Cpio :=
  if nread < 0 then s.readStop rStop
  else if 0 < nread then (s.run nread ret rStop).readPause rPause
  else s

def writeCb (s : Cpio) (status : ℤ) (r : Answer) : Cpio :=
  if status < 0 then s.readStop r else s.readResume r

/-- Nothing is delivered that does not fit into the buffer. -/
def step (s : Cpio) : CpioEvent → Option Cpio
  | .read nread ret rStop rPause =>
    if s.input.world.reading = true ∧ nread ≤ bufferSize then
      let s' := { s with input := enterCb s.input nread }.readCb nread ret rStop rPause
      some { s' with input := leaveCb s'.input nread }
    else none
  | .transmit i n => if i < s.out.length then some { s with out := s.out.modify i (· - n) } else none
  | .written i status r =>
    if i < s.out.length then some ({ s with out := s.out.eraseIdx i }.writeCb status r) else none

/-- What is pending stays below the upper limit while the input is read and below one
more buffer at all times, and it is not empty while the input is paused. -/
structure Bounded (s : Cpio) (n : ℤ) : Prop where
  flowing : Flowing s.input n
  reading : s.input.world.reading = true → s.out.sum < writeQueueSizeUpperLimit
  sum : s.out.sum < writeQueueSizeUpperLimit + bufferSize
  paused : s.input.rdcmd = .pause → s.out ≠ []

variable {s t : Cpio} {n : ℤ}

theorem init_bounded : init.Bounded 1 where
  flowing := started_flowing
  reading _ := by decide
  sum := by decide
  paused h := by cases h

theorem writeQueueSize_toNat (h : s.out.sum < writeQueueSizeUpperLimit + bufferSize) :
    s.writeQueueSize.toNat = s.out.sum := by
  rw [writeQueueSize, BitVec.toNat_ofNat]
  refine Nat.mod_eq_of_lt (h.trans ?_)
  decide

/-- A stopped input is neither read nor paused. -/
theorem readStop_bounded (hn : 1 ≤ n) (hflow : Flowing s.input n)
    (hsum : s.out.sum < writeQueueSizeUpperLimit + bufferSize) (r : Answer) : (s.readStop r).Bounded n := by
  obtain ⟨hcmd, hreading, _⟩ := readStop_stream (e := s.input) r
  refine ⟨hflow.readStop hn r, fun hr => ?_, hsum, fun hp => ?_⟩
  · cases hreading.symm.trans hr
  · cases hcmd.symm.trans hp

/-- The pause restores what a new write has broken. -/
theorem readPause_bounded (hn : 1 ≤ n) (hflow : Flowing s.input n)
    (hsum : s.out.sum < writeQueueSizeUpperLimit + bufferSize)
    (hpaused : s.input.rdcmd = .pause → s.out ≠ []) (r : Answer) : (s.readPause r).Bounded n := by
  have hsize := writeQueueSize_toNat hsum
  refine ⟨hflow.readPause hn _ r, fun hr => ?_, hsum, fun hp => ?_⟩
  · rcases readPause_stream (e := s.input) _ r with ⟨he, hrefused⟩ | ⟨_, hreading, _, _⟩
    · have hr' : s.input.world.reading = true := he ▸ hr
      by_contra hfull
      have hlimit : writeQueueSizeUpperLimit ≤ s.writeQueueSize.toNat := by
        rw [hsize]
        exact not_lt.mp hfull
      rw [hflow.reading, hrefused (decide_eq_true hlimit)] at hr'
      cases hr'
    · cases hreading.symm.trans hr
  · rcases readPause_stream (e := s.input) _ r with ⟨he, _⟩ | ⟨_, _, _, htrigger⟩
    · exact hpaused (he ▸ hp)
    · have hlimit := of_decide_eq_true htrigger
      rw [hsize] at hlimit
      intro hnil
      have hout : s.out = [] := hnil
      rw [hout] at hlimit
      exact absurd hlimit (by decide)

/-- The resume finds a write pending as long as it is refused. -/
theorem readResume_bounded (hn : 1 ≤ n) (hflow : Flowing s.input n)
    (hsum : s.out.sum < writeQueueSizeUpperLimit + bufferSize)
    (hread : s.input.world.reading = true → s.out.sum < writeQueueSizeUpperLimit) (r : Answer) :
    (s.readResume r).Bounded n := by
  have hsize := writeQueueSize_toNat hsum
  have hlimits : writeQueueSizeLowerLimit < writeQueueSizeUpperLimit := by decide
  refine ⟨hflow.readResume hn _ r, fun hr => ?_, hsum, fun hp hnil => ?_⟩
  · rcases readResume_stream (e := s.input) _ r with ⟨he, _⟩ | ⟨htrigger, _⟩
    · exact hread (he ▸ hr)
    · have hlow := of_decide_eq_true htrigger
      rw [hsize] at hlow
      exact lt_of_le_of_lt hlow hlimits
  · rcases readResume_stream (e := s.input) _ r with ⟨he, hrefused⟩ | ⟨_, _, hcmd, _⟩
    · have hout : s.out = [] := hnil
      refine hrefused (decide_eq_true ?_) (he ▸ hp)
      rw [hsize, hout]
      exact Nat.zero_le _
    · have hcmd' := hcmd.symm.trans hp
      split_ifs at hcmd'

theorem Bounded.run (h : s.Bounded n) (hn : 1 ≤ n) (hr : s.input.world.reading = true) {nread : ℤ}
    (hnread : nread ≤ bufferSize) (ret : ℤ) (rStop rPause : Answer) :
    ((s.run nread ret rStop).readPause rPause).Bounded n := by
  unfold Cpio.run
  split_ifs
  · have hstop := readStop_bounded hn h.flowing h.sum rStop
    exact readPause_bounded hn hstop.flowing hstop.sum hstop.paused rPause
  · have hlow := h.reading hr
    refine readPause_bounded (s := { s with out := s.out ++ [nread.toNat] }) hn h.flowing ?_ (fun _ => ?_)
      rPause
    · rw [List.sum_append, List.sum_singleton]
      omega
    · simp

theorem Bounded.readCb (h : s.Bounded n) (hn : 1 ≤ n) (hr : s.input.world.reading = true) {nread : ℤ}
    (hnread : nread ≤ bufferSize) (ret : ℤ) (rStop rPause : Answer) :
    (s.readCb nread ret rStop rPause).Bounded n := by
  unfold Cpio.readCb
  split_ifs
  · exact readStop_bounded hn h.flowing h.sum rStop
  · exact h.run hn hr hnread ret rStop rPause
  · exact h

theorem sum_modify_le (l : List ℕ) (i n : ℕ) : (l.modify i (· - n)).sum ≤ l.sum := by
  induction l generalizing i with
  | nil => simp
  | cons x l ih =>
    cases i with
    | zero => simp
    | succ i =>
      have hi := ih i
      simp only [List.modify_succ_cons, List.sum_cons]
      omega

theorem step_bounded {e : CpioEvent} (h : s.Bounded 1) (hstep : s.step e = some t) : t.Bounded 1 := by
  cases e with
  | read nread ret rStop rPause =>
    simp only [step, Option.ite_none_right_eq_some, Option.some.injEq] at hstep
    obtain ⟨⟨hr, hnread⟩, rfl⟩ := hstep
    have henter : ({ s with input := enterCb s.input nread } : Cpio).Bounded 2 :=
      ⟨h.flowing.enterCb nread, h.reading, h.sum, h.paused⟩
    have hcb := henter.readCb one_le_two hr hnread ret rStop rPause
    exact ⟨hcb.flowing.leaveCb nread, hcb.reading, hcb.sum, hcb.paused⟩
  | transmit i n =>
    simp only [step, Option.ite_none_right_eq_some, Option.some.injEq] at hstep
    obtain ⟨_, rfl⟩ := hstep
    have hle := sum_modify_le s.out i n
    refine ⟨h.flowing, fun hr => lt_of_le_of_lt hle (h.reading hr), lt_of_le_of_lt hle h.sum, fun hp hnil => ?_⟩
    have hmodify : s.out.modify i (· - n) = [] := hnil
    have hlength : s.out.length = 0 := by
      rw [← List.length_modify (· - n) s.out i, hmodify, List.length_nil]
    exact h.paused hp (List.length_eq_zero_iff.mp hlength)
  | written i status r =>
    simp only [step, Option.ite_none_right_eq_some, Option.some.injEq] at hstep
    obtain ⟨_, rfl⟩ := hstep
    have hle : (s.out.eraseIdx i).sum ≤ s.out.sum := (List.eraseIdx_sublist s.out i).sum_le_sum (by simp)
    set s' : Cpio := { s with out := s.out.eraseIdx i }
    have hsum : s'.out.sum < writeQueueSizeUpperLimit + bufferSize := lt_of_le_of_lt hle h.sum
    unfold writeCb
    split_ifs
    · exact readStop_bounded (s := s') le_rfl h.flowing hsum r
    · exact readResume_bounded (s := s') le_rfl h.flowing hsum (fun hr => lt_of_le_of_lt hle (h.reading hr)) r

end Cpio

/-- In every run of `cpio-uvcc` less than the upper limit and one buffer waits to be
written, less than the upper limit as long as more is read, and the loop is out of work
only when the input has been stopped or has refused to resume. -/
theorem cpio_bounded (es : List CpioEvent) : ∀ s ∈ visited Cpio.step Cpio.init es,
    s.out.sum < writeQueueSizeUpperLimit + bufferSize ∧
      (s.input.world.reading = true → s.out.sum < writeQueueSizeUpperLimit) ∧
      (s.input.world.reading = false → s.out = [] → s.input.rdcmd = .stop ∨ s.input.rdcmd = .unknown) := by
  intro s hs
  have h : s.Bounded 1 := visited_invariant (fun _ _ _ hs h => Cpio.step_bounded hs h) es _
    Cpio.init_bounded s hs
  refine ⟨h.sum, h.reading, fun hr hout => ?_⟩
  rcases h.flowing.idle hr with hp | hstopped
  · exact absurd hout (h.paused hp)
  · exact hstopped

/-- One buffer, half of which has been written. -/
theorem cpio_half_written :
    let s := final Cpio.step Cpio.init [.read 8192 0 ⟨0, 0⟩ ⟨0, 0⟩, .transmit 0 4096]
    s.out = [4096] ∧ s.out.sum < writeQueueSizeUpperLimit := by
  intro s
  exact ⟨rfl, (cpio_bounded [.read 8192 0 ⟨0, 0⟩ ⟨0, 0⟩, .transmit 0 4096] s (final_visited _ _)).2.1 rfl⟩

end Uvcc.Example
