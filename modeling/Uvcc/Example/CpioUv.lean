import Uvcc.Counting.Ledger
import Uvcc.Example.FlowControl
import Uvcc.Memory.Owners

/-!
# The copy without the library

`cpio-uv` is `cpio-uvcc` over libuv alone. It keeps the state of its input in a variable
of its own, and its callbacks allocate and free the buffers and the write requests, where
`cpio-uvcc` leaves both to the library.
-/
namespace Uvcc.Example
open Counting Io Machine Memory

/-! ## `cpio-uv` -/

inductive RdcmdState where
  | unknown
  | stop
  | pause
  | start
  deriving DecidableEq, Repr

/-- A pending `uv_write_t` and the buffer in its `data`, with what libuv has not written. -/
structure WriteReq where
  wr : ℕ
  data : ℕ
  left : ℕ
  deriving DecidableEq, Repr

def WriteReq.blocks (x : WriteReq) : List ℕ := [x.wr, x.data]

/-- `printed` has the errors with the words in front of them. -/
structure CpioUv where
  rdcmdState : RdcmdState
  reading : Bool
  out : List WriteReq
  wrErrReported : Bool
  printed : List (String × ℤ)
  heap : Blocks
  deriving DecidableEq, Repr

namespace CpioUv

/-- After `uv_read_start(&in, alloc_cb, read_cb)`. -/
def init : CpioUv := ⟨.start, true, [], false, [], ⟨0, []⟩⟩

def writeQueueSize (c : CpioUv) : BitVec 64 := BitVec.ofNat 64 (c.out.map WriteReq.left).sum

def print (c : CpioUv) (words : String) (error : ℤ) : CpioUv := { c with printed := c.printed ++ [(words, error)] }

def stop (c : CpioUv) : CpioUv := { c with rdcmdState := .stop, reading := false }

def pause (c : CpioUv) : CpioUv :=
  if c.rdcmdState = .start ∧ writeQueueSizeUpperLimit ≤ c.writeQueueSize.toNat then
    { c with rdcmdState := .pause, reading := false }
  else c

/-- The result of `uv_read_start()` is ignored. -/
def resume (c : CpioUv) (ret : ℤ) : CpioUv :=
  if c.rdcmdState = .pause ∧ c.writeQueueSize.toNat ≤ writeQueueSizeLowerLimit then
    { c with rdcmdState := .start, reading := if ret < 0 then c.reading else true }
  else c

/-- A write request is allocated, and forgotten if `uv_write()` refuses it. -/
def write (c : CpioUv) (base : ℕ) (nread ret : ℤ) : CpioUv :=
  let c' := { c with heap := c.heap.alloc 1 }
  if ret < 0 then (c'.print "write initiation" ret).stop
  else { c' with out := c'.out ++ [⟨c.heap.allocated, base, nread.toNat⟩] }

/-- `read_cb`. At the end of the input `rdcmd_state` stays. -/
def readCb (c : CpioUv) (base : ℕ) (nread ret : ℤ) : CpioUv :=
  if nread < 0 then { (if nread = uvEOF then c else c.print "read" nread) with reading := false }
  else if 0 < nread then (c.write base nread ret).pause
  else c

def report (c : CpioUv) (status : ℤ) : CpioUv :=
  if c.wrErrReported then c else { c.print "write" status with wrErrReported := true }

def writeCb (c : CpioUv) (x : WriteReq) (status ret : ℤ) : CpioUv :=
  let c' := if status < 0 then (c.report status).stop else c.resume ret
  { c' with heap := c'.heap.free x.blocks }

/-- Each delivery has a buffer from `alloc_cb`. -/
def step (c : CpioUv) : CpioEvent → Option CpioUv
  | .read nread ret _ _ =>
    if c.reading = true ∧ nread ≤ bufferSize then
      some ({ c with heap := c.heap.alloc 1 }.readCb c.heap.allocated nread ret)
    else none
  | .transmit i n =>
    if i < c.out.length then
      some { c with out := c.out.modify i fun x => { x with left := x.left - n } }
    else none
  | .written i status r => (c.out[i]?).map fun x => { c with out := c.out.eraseIdx i }.writeCb x status r.ret

end CpioUv

/-! ## `cpio-uvcc` with its instances -/

/-- `writes` has the instances that each pending write refers to: the request and the
buffer. -/
structure CpioUvcc where
  copy : Cpio
  wrErrReported : Bool
  printed : List (String × ℤ)
  writes : List (ℕ × ℕ)
  mem : Ledger ℕ
  next : ℕ

namespace CpioUvcc

def init : CpioUvcc := ⟨Cpio.init, false, [], [], Ledger.empty, 0⟩

def print (s : CpioUvcc) (words : String) (error : ℤ) : CpioUvcc :=
  { s with printed := s.printed ++ [(words, error)] }

/-- The request `wr` is created, run with the buffer, and its variable goes. -/
def write (s : CpioUvcc) (buffer : ℕ) (ret : ℤ) : CpioUvcc :=
  let wr := s.next
  let s1 := { s with mem := (s.mem.create wr).incs [buffer, wr], next := wr + 1 }
  let s2 :=
    if ret < 0 then { s1.print "write initiation" ret with mem := s1.mem.decs [buffer, wr] }
    else { s1 with writes := s1.writes ++ [(wr, buffer)] }
  { s2 with mem := s2.mem.dec wr }

def readCb (s : CpioUvcc) (buffer : ℕ) (nread ret : ℤ) : CpioUvcc :=
  if nread < 0 then if nread = uvEOF then s else s.print "read" nread
  else if 0 < nread then s.write buffer ret
  else s

/-- The alloc callback makes a buffer, which `io_alloc_cb` lends to libuv and `io_read_cb`
takes back into the argument of the read callback. -/
def read (s : CpioUvcc) (nread ret : ℤ) : CpioUvcc :=
  let buffer := s.next
  let s' := { s with mem := ((s.mem.create buffer).inc buffer).dec buffer, next := buffer + 1 }.readCb buffer nread ret
  { s' with mem := s'.mem.dec buffer }

/-- `write::write_cb` around the callback, which gets the request as a new reference and
the buffer as the one that the write has had. -/
def written (s : CpioUvcc) (x : ℕ × ℕ) (status : ℤ) : CpioUvcc :=
  let s' :=
    if status < 0 ∧ s.wrErrReported = false then { s.print "write" status with wrErrReported := true } else s
  { s' with mem := (s'.mem.inc x.1).decs [x.2, x.1, x.1] }

def record (s : CpioUvcc) : CpioEvent → CpioUvcc
  | .read nread ret _ _ => s.read nread ret
  | .transmit _ _ => s
  | .written i status _ => (s.writes[i]?).elim s fun x => { s with writes := s.writes.eraseIdx i }.written x status

def step (s : CpioUvcc) (e : CpioEvent) : Option CpioUvcc := (s.copy.step e).map fun t => { s.record e with copy := t }

end CpioUvcc

/-! ## Both programs do the same -/

/-- The input of `cpio-uvcc` is in the state that `cpio-uv` keeps, as far as that decides
about a pause or a resume. -/
structure SameInput (e : Endpoint Libuv) (c : CpioUv) : Prop where
  reading : e.world.reading = c.reading
  flowing : e.world.reading = e.rdcmd.reading
  paused : e.rdcmd = .pause ↔ c.rdcmdState = .pause
  started : c.reading = true → c.rdcmdState = .start

section Input
variable {e : Endpoint Libuv} {c c' : CpioUv}

/-- The other fields do not matter. -/
theorem SameInput.congr (h : SameInput e c) (hr : c'.reading = c.reading) (hs : c'.rdcmdState = c.rdcmdState) :
    SameInput e c' where
  reading := h.reading.trans hr.symm
  flowing := h.flowing
  paused := by
    rw [hs]
    exact h.paused
  started := by
    rw [hr, hs]
    exact h.started

theorem SameInput.enter (h : SameInput e c) (nread : ℤ) : SameInput (enterCb e nread) c :=
  ⟨h.reading, h.flowing, h.paused, h.started⟩

theorem SameInput.leave (h : SameInput e c) (nread : ℤ) : SameInput (leaveCb e nread) c :=
  ⟨h.reading, h.flowing, h.paused, h.started⟩

theorem sameInput_stop (e : Endpoint Libuv) (c : CpioUv) (r : Answer) :
    SameInput (e.readStop socketInterface r).1 c.stop := by
  obtain ⟨hcmd, hreading, _⟩ := readStop_stream (e := e) r
  refine ⟨hreading, ?_, ?_, fun hr => ?_⟩
  · rw [hcmd, hreading]
    rfl
  · rw [hcmd]
    simp [CpioUv.stop]
  · cases hr

/-- At the end of the input `cpio-uv` only stops libuv. -/
theorem SameInput.finish (h : SameInput e c) (hr : c.reading = true) (r : Answer) :
    SameInput (e.readStop socketInterface r).1 { c with reading := false } := by
  obtain ⟨hcmd, hreading, _⟩ := readStop_stream (e := e) r
  refine ⟨hreading, ?_, ?_, fun hr' => ?_⟩
  · rw [hcmd, hreading]
    rfl
  · rw [hcmd, show ({ c with reading := false } : CpioUv).rdcmdState = .start from h.started hr]
    simp
  · cases hr'

/-- After a write has been run. -/
theorem SameInput.pause (h : SameInput e c) (hstart : e.rdcmd.reading = true ↔ c.rdcmdState = .start) (r : Answer) :
    SameInput (e.readPause socketInterface (decide (writeQueueSizeUpperLimit ≤ c.writeQueueSize.toNat)) r).1 c.pause := by
  unfold CpioUv.pause
  by_cases hfull : writeQueueSizeUpperLimit ≤ c.writeQueueSize.toNat
  · rw [decide_eq_true hfull, Endpoint.readPause_eq]
    cases hcmd : e.rdcmd.reading with
    | true =>
      rw [if_pos rfl, if_pos ⟨hstart.mp hcmd, hfull⟩]
      have hhalt : (e.halt socketInterface e.rdcmd .pause r).rdcmd = .pause ∧
          (e.halt socketInterface e.rdcmd .pause r).world.reading = false := by
        unfold Endpoint.halt
        cases e.rdcmd <;> exact ⟨rfl, rfl⟩
      refine ⟨hhalt.2, ?_, iff_of_true hhalt.1 rfl, fun hr => ?_⟩
      · rw [hhalt.1, hhalt.2]
        rfl
      · cases hr
    | false =>
      have hidle : c.rdcmdState ≠ .start := fun hs => Bool.false_ne_true (hcmd.symm.trans (hstart.mpr hs))
      rw [if_neg Bool.false_ne_true, if_neg fun hp => hidle hp.1]
      exact h
  · rw [decide_eq_false hfull, if_neg fun hp => hfull hp.2]
    exact h

/-- A resume that is refused leaves neither program anything to resume. -/
theorem SameInput.resume (h : SameInput e c) (r : Answer) :
    SameInput (e.readResume socketInterface (decide (c.writeQueueSize.toNat ≤ writeQueueSizeLowerLimit)) r).1
      (c.resume r.ret) := by
  unfold CpioUv.resume
  by_cases hlow : c.writeQueueSize.toNat ≤ writeQueueSizeLowerLimit
  · rw [decide_eq_true hlow, Endpoint.readResume_eq]
    by_cases hcmd : e.rdcmd = .pause
    · rw [if_pos hcmd, if_pos ⟨h.paused.mp hcmd, hlow⟩]
      obtain ⟨hc, hr, _⟩ := submit_stream (e := { e with rdcmd := .resume }.ref) e.rdoffset r
      have hidle : e.world.reading = false := by
        rw [h.flowing, hcmd]
        rfl
      by_cases hret : r.ret < 0
      · rw [if_pos hret] at hc hr
        have hr' := hr.trans hidle
        refine ⟨?_, ?_, ?_, fun _ => rfl⟩
        · rw [hr, if_pos hret]
          exact h.reading
        · rw [hr', hc]
          rfl
        · rw [hc]
          simp
      · rw [if_neg hret] at hc hr
        refine ⟨?_, ?_, ?_, fun _ => rfl⟩
        · rw [hr, if_neg hret]
        · rw [hr, hc]
          rfl
        · rw [hc]
          simp
    · rw [if_neg hcmd, if_neg fun hp => hcmd (h.paused.mpr hp.1)]
      exact h
  · rw [decide_eq_false hlow, if_neg fun hp => hlow hp.2]
    exact h

end Input

structure Agree (s : CpioUvcc) (c : CpioUv) : Prop where
  input : SameInput s.copy.input c
  out : s.copy.out = c.out.map WriteReq.left
  writes : s.writes.length = c.out.length
  reported : s.wrErrReported = c.wrErrReported
  printed : s.printed = c.printed

section Agree
variable {s : CpioUvcc} {c : CpioUv}

theorem init_agree : Agree .init .init where
  input := ⟨rfl, rfl, by decide, fun _ => rfl⟩
  out := rfl
  writes := rfl
  reported := rfl
  printed := rfl

/-- The queues have the same size. -/
theorem writeQueueSize_eq {t : Cpio} (h : t.out = c.out.map WriteReq.left) : t.writeQueueSize = c.writeQueueSize := by
  rw [Cpio.writeQueueSize, CpioUv.writeQueueSize, h]

theorem SameInput.pauseCopy {t : Cpio} (h : SameInput t.input c) (hout : t.out = c.out.map WriteReq.left)
    (hstart : t.input.rdcmd.reading = true ↔ c.rdcmdState = .start) (r : Answer) :
    SameInput (t.readPause r).input c.pause := by
  rw [Cpio.readPause, writeQueueSize_eq hout]
  exact h.pause hstart r

/-! What is printed, and how many writes there are, does not depend on the rest. -/

def readErrors (nread ret : ℤ) : List (String × ℤ) :=
  if nread < 0 then if nread = uvEOF then [] else [("read", nread)]
  else if 0 < nread ∧ ret < 0 then [("write initiation", ret)]
  else []

/-- Only the first failure of a write is printed. -/
def writeErrors (reported : Bool) (status : ℤ) : List (String × ℤ) :=
  if status < 0 ∧ reported = false then [("write", status)] else []

def newWrites (nread ret : ℤ) : ℕ := if 0 < nread ∧ 0 ≤ ret then 1 else 0

theorem CpioUvcc.read_prints (s : CpioUvcc) (nread ret : ℤ) :
    (s.read nread ret).printed = s.printed ++ readErrors nread ret ∧
      (s.read nread ret).wrErrReported = s.wrErrReported ∧
      (s.read nread ret).writes.length = s.writes.length + newWrites nread ret := by
  unfold CpioUvcc.read CpioUvcc.readCb readErrors newWrites
  by_cases hneg : nread < 0
  · simp only [if_pos hneg, if_neg (fun h : 0 < nread ∧ 0 ≤ ret => absurd h.1 hneg.le.not_gt)]
    split_ifs <;> simp [CpioUvcc.print]
  · simp only [if_neg hneg]
    by_cases hpos : 0 < nread
    · by_cases hret : ret < 0
      · simp [CpioUvcc.write, CpioUvcc.print, hpos, hret, hret.not_ge]
      · simp [CpioUvcc.write, hpos, hret, not_lt.mp hret]
    · simp [hpos]

@[simp] theorem CpioUv.pause_out (c : CpioUv) : c.pause.out = c.out := by
  unfold CpioUv.pause
  split_ifs <;> rfl

theorem CpioUv.pause_prints (c : CpioUv) : c.pause.printed = c.printed ∧ c.pause.wrErrReported = c.wrErrReported := by
  unfold CpioUv.pause
  split_ifs <;> exact ⟨rfl, rfl⟩

theorem CpioUv.readCb_prints (c : CpioUv) (base : ℕ) (nread ret : ℤ) :
    (c.readCb base nread ret).printed = c.printed ++ readErrors nread ret ∧
      (c.readCb base nread ret).wrErrReported = c.wrErrReported ∧
      (c.readCb base nread ret).out.length = c.out.length + newWrites nread ret := by
  unfold CpioUv.readCb readErrors newWrites
  by_cases hneg : nread < 0
  · simp only [if_pos hneg, if_neg (fun h : 0 < nread ∧ 0 ≤ ret => absurd h.1 hneg.le.not_gt)]
    split_ifs <;> simp [CpioUv.print]
  · simp only [if_neg hneg]
    by_cases hpos : 0 < nread
    · obtain ⟨hprinted, hreported⟩ := (c.write base nread ret).pause_prints
      rw [if_pos hpos, hprinted, hreported, CpioUv.pause_out]
      by_cases hret : ret < 0
      · simp [CpioUv.write, CpioUv.stop, CpioUv.print, hpos, hret, hret.not_ge]
      · simp [CpioUv.write, hpos, hret, not_lt.mp hret]
    · simp [hpos]

theorem CpioUvcc.written_prints (s : CpioUvcc) (x : ℕ × ℕ) (status : ℤ) :
    (s.written x status).printed = s.printed ++ writeErrors s.wrErrReported status ∧
      (s.written x status).wrErrReported = (s.wrErrReported || decide (status < 0)) ∧
      (s.written x status).writes = s.writes := by
  unfold CpioUvcc.written writeErrors
  by_cases hstatus : status < 0
  · cases hw : s.wrErrReported <;> simp [CpioUvcc.print, hstatus, hw]
  · simp [hstatus]

theorem CpioUv.writeCb_prints (c : CpioUv) (x : WriteReq) (status ret : ℤ) :
    (c.writeCb x status ret).printed = c.printed ++ writeErrors c.wrErrReported status ∧
      (c.writeCb x status ret).wrErrReported = (c.wrErrReported || decide (status < 0)) ∧
      (c.writeCb x status ret).out = c.out := by
  unfold CpioUv.writeCb writeErrors
  by_cases hstatus : status < 0
  · cases hw : c.wrErrReported <;> simp [CpioUv.report, CpioUv.stop, CpioUv.print, hstatus, hw]
  · simp only [if_neg hstatus, if_neg (fun h : status < 0 ∧ c.wrErrReported = false => hstatus h.1), CpioUv.resume]
    split_ifs <;> simp [hstatus]

/-- The buffer is written on, and the input paused. -/
theorem SameInput.write {t : Cpio} (h : SameInput t.input c) (hr : c.reading = true)
    (hout : t.out = c.out.map WriteReq.left) (base : ℕ) (nread ret : ℤ) (rStop rPause : Answer) :
    SameInput ((t.run nread ret rStop).readPause rPause).input (c.write base nread ret).pause ∧
      (t.run nread ret rStop).out = (c.write base nread ret).out.map WriteReq.left := by
  unfold Cpio.run CpioUv.write
  by_cases hret : ret < 0
  · simp only [if_pos hret]
    refine ⟨?_, hout⟩
    apply SameInput.pauseCopy
    · exact sameInput_stop t.input _ rStop
    · exact hout
    · refine iff_of_false ?_ ?_
      · rw [Cpio.readStop, (readStop_stream rStop).1]
        exact Bool.false_ne_true
      · simp [CpioUv.stop]
  · simp only [if_neg hret]
    have hout' : t.out ++ [nread.toNat] = (c.out ++ [WriteReq.mk c.heap.allocated base nread.toNat]).map WriteReq.left := by
      rw [List.map_append, hout]
      rfl
    refine ⟨?_, hout'⟩
    apply SameInput.pauseCopy
    · exact h.congr rfl rfl
    · exact hout'
    · exact iff_of_true (h.flowing.symm.trans (h.reading.trans hr)) (h.started hr)

/-- The callback of a delivery. -/
theorem SameInput.readCb {t : Cpio} (h : SameInput t.input c) (hr : c.reading = true)
    (hout : t.out = c.out.map WriteReq.left) (base : ℕ) (nread ret : ℤ) (rStop rPause : Answer) :
    SameInput (t.readCb nread ret rStop rPause).input (c.readCb base nread ret) ∧
      (t.readCb nread ret rStop rPause).out = (c.readCb base nread ret).out.map WriteReq.left := by
  unfold Cpio.readCb CpioUv.readCb
  by_cases hneg : nread < 0
  · simp only [if_pos hneg]
    have hfinish := h.finish hr rStop
    refine ⟨?_, ?_⟩
    · split_ifs
      · exact hfinish
      · exact hfinish.congr rfl rfl
    · split_ifs <;> exact hout
  · simp only [if_neg hneg]
    by_cases hpos : 0 < nread
    · simp only [if_pos hpos, CpioUv.pause_out]
      exact h.write hr hout base nread ret rStop rPause
    · simp only [if_neg hpos]
      exact ⟨h, hout⟩

/-- The callback of a write. -/
theorem SameInput.writeCb {t : Cpio} (h : SameInput t.input c) (hout : t.out = c.out.map WriteReq.left)
    (x : WriteReq) (status : ℤ) (r : Answer) : SameInput (t.writeCb status r).input (c.writeCb x status r.ret) ∧
      (t.writeCb status r).out = (c.writeCb x status r.ret).out.map WriteReq.left := by
  unfold Cpio.writeCb CpioUv.writeCb
  by_cases hstatus : status < 0
  · simp only [if_pos hstatus]
    have hstop := sameInput_stop t.input (c.report status) r
    refine ⟨hstop.congr rfl rfl, ?_⟩
    unfold CpioUv.report
    split_ifs <;> exact hout
  · simp only [if_neg hstatus]
    have hresume := h.resume r
    refine ⟨?_, ?_⟩
    · rw [Cpio.readResume, writeQueueSize_eq hout]
      exact hresume.congr rfl rfl
    · unfold CpioUv.resume
      split_ifs <;> exact hout

theorem modify_left (l : List WriteReq) (i n : ℕ) : (l.map WriteReq.left).modify i (· - n) =
    (l.modify i fun x => { x with left := x.left - n }).map WriteReq.left := by
  induction l generalizing i with
  | nil => simp
  | cons x l ih =>
    cases i with
    | zero => rfl
    | succ i =>
      simp only [List.map_cons, List.modify_succ_cons]
      rw [ih]

/-- What both programs accept leaves them at the same place again. -/
theorem agree_step (h : Agree s c) (e : CpioEvent) : Option.Rel Agree (s.step e) (c.step e) := by
  have hlength : s.copy.out.length = c.out.length := by rw [h.out, List.length_map]
  cases e with
  | read nread ret rStop rPause =>
    simp only [CpioUvcc.step, Cpio.step, CpioUv.step, h.input.reading]
    split_ifs with hr
    · obtain ⟨hin, hout⟩ := SameInput.readCb (t := { s.copy with input := enterCb s.copy.input nread })
        (c := { c with heap := c.heap.alloc 1 }) ((h.input.enter nread).congr rfl rfl) hr.1 h.out c.heap.allocated nread ret
        rStop rPause
      obtain ⟨hprinted, hreported, hwrites⟩ := s.read_prints nread ret
      obtain ⟨hprinted', hreported', hout'⟩ :=
        CpioUv.readCb_prints { c with heap := c.heap.alloc 1 } c.heap.allocated nread ret
      refine .some ⟨hin.leave nread, hout, ?_, ?_, ?_⟩
      · rw [hout', ← h.writes]
        exact hwrites
      · exact hreported.trans (h.reported.trans hreported'.symm)
      · rw [hprinted']
        exact hprinted.trans (congrArg (· ++ _) h.printed)
    · exact .none
  | transmit i n =>
    simp only [CpioUvcc.step, Cpio.step, CpioUv.step, hlength]
    split_ifs
    · refine .some ⟨h.input.congr rfl rfl, ?_, ?_, h.reported, h.printed⟩
      · have hmodify := congrArg (List.modify · i (· - n)) h.out
        exact hmodify.trans (modify_left c.out i n)
      · rw [List.length_modify]
        exact h.writes
    · exact .none
  | written i status r =>
    simp only [CpioUvcc.step, Cpio.step, CpioUv.step, hlength]
    cases hx : c.out[i]? with
    | none =>
      have hle := List.getElem?_eq_none_iff.mp hx
      rw [if_neg (by omega)]
      exact .none
    | some x =>
      have hlt := (List.getElem?_eq_some_iff.mp hx).1
      have hout : s.copy.out.eraseIdx i = (c.out.eraseIdx i).map WriteReq.left := by
        rw [h.out, List.eraseIdx_map]
      obtain ⟨hin, hout'⟩ := SameInput.writeCb (t := { s.copy with out := s.copy.out.eraseIdx i })
        (c := { c with out := c.out.eraseIdx i }) (h.input.congr rfl rfl) hout x status r
      have hwlt : i < s.writes.length := h.writes ▸ hlt
      have hrecord : s.record (.written i status r) =
          { s with writes := s.writes.eraseIdx i }.written s.writes[i] status := by
        rw [CpioUvcc.record, List.getElem?_eq_getElem hwlt]
        rfl
      obtain ⟨hprinted, hreported, hwrites⟩ :=
        CpioUvcc.written_prints { s with writes := s.writes.eraseIdx i } s.writes[i] status
      obtain ⟨hprinted', hreported', hout''⟩ :=
        CpioUv.writeCb_prints { c with out := c.out.eraseIdx i } x status r.ret
      rw [if_pos hlt, hrecord]
      refine .some ⟨hin, hout', ?_, ?_, ?_⟩
      · have hw := congrArg List.length hwrites
        rw [hout'']
        refine hw.trans ?_
        rw [List.length_eraseIdx_of_lt hwlt, List.length_eraseIdx_of_lt hlt, h.writes]
      · rw [hreported']
        refine hreported.trans ?_
        rw [h.reported]
      · rw [hprinted']
        refine hprinted.trans ?_
        rw [h.printed, h.reported]

end Agree

/-- What `cpio-uvcc` keeps to, `cpio-uv` keeps to as well. -/
structure AgreeBounded (s : CpioUvcc) (c : CpioUv) : Prop where
  agree : Agree s c
  bounded : s.copy.Bounded 1

theorem agreeBounded_step (s : CpioUvcc) (c : CpioUv) (e : CpioEvent) (h : AgreeBounded s c) :
    Option.Rel AgreeBounded (s.step e) (c.step e) := by
  have hrel := agree_step h.agree e
  cases hs : s.step e with
  | none =>
    cases hc : c.step e with
    | none => exact .none
    | some d =>
      rw [hs, hc] at hrel
      cases hrel
  | some t =>
    obtain ⟨u, hu, rfl⟩ := Option.map_eq_some_iff.mp hs
    cases hc : c.step e with
    | none =>
      rw [hs, hc] at hrel
      cases hrel
    | some d =>
      rw [hs, hc] at hrel
      cases hrel with
      | some hagree => exact .some ⟨hagree, Cpio.step_bounded h.bounded hu⟩

/-- `cpio-uv` and `cpio-uvcc` accept the same and do the same: at every step of every run
they read or do not read alike, have the same writes pending and have printed the same,
and no more waits in `cpio-uv` than in `cpio-uvcc`. -/
theorem cpio_programs_agree (es : List CpioEvent) :
    List.Forall₂ (fun s c => s.copy.input.world.reading = c.reading ∧ s.copy.out = c.out.map WriteReq.left ∧
      s.printed = c.printed ∧ (c.out.map WriteReq.left).sum < writeQueueSizeUpperLimit + bufferSize)
      (visited CpioUvcc.step .init es) (visited CpioUv.step .init es) := by
  have hrel := visited_related (fun s c e => agreeBounded_step s c e) es _ _ ⟨init_agree, Cpio.init_bounded⟩
  refine hrel.imp fun _ _ h => ⟨h.agree.input.reading, h.agree.out, h.agree.printed, ?_⟩
  rw [← h.agree.out]
  exact h.bounded.sum

/-! ## Memory -/

def CpioEvent.empty : CpioEvent → ℕ
  | .read nread _ _ _ => if nread = 0 then 1 else 0
  | _ => 0

/-- The blocks that `cpio-uv` forgets as it stops reading: the buffer at the end of the
input, and the write request too if that is refused. -/
def CpioEvent.parting : CpioEvent → ℕ
  | .read nread ret _ _ => if nread < 0 then 1 else if 0 < nread ∧ ret < 0 then 2 else 0
  | _ => 0

namespace CpioUv
variable {c c' : CpioUv} {n : ℕ}

/-- Every block has been freed once, belongs to a pending write, or is one of `n` that
nothing refers to. -/
def Forgets (c : CpioUv) (n : ℕ) : Prop :=
  ∃ lost : List ℕ, lost.length = n ∧
    (c.heap.freed ++ c.out.flatMap WriteReq.blocks ++ lost).Perm (List.range c.heap.allocated)

theorem init_forgets : init.Forgets 0 := ⟨[], rfl, .nil⟩

/-- Only the blocks matter. -/
theorem Forgets.congr (h : c.Forgets n) (hheap : c'.heap = c.heap)
    (hout : c'.out.flatMap WriteReq.blocks = c.out.flatMap WriteReq.blocks) : c'.Forgets n := by
  rw [Forgets, hheap, hout]
  exact h

/-- A new block that nothing refers to yet. -/
theorem Forgets.alloc (h : c.Forgets n) : { c with heap := c.heap.alloc 1 }.Forgets (n + 1) := by
  obtain ⟨lost, hlength, hperm⟩ := h
  refine ⟨lost ++ [c.heap.allocated], by simp [hlength], ?_⟩
  rw [← List.append_assoc]
  refine (hperm.append_right _).trans ?_
  rw [Blocks.alloc, List.range_succ]

/-- The buffer and the request that libuv has accepted. -/
theorem Forgets.accept (h : c.Forgets n) (left : ℕ) :
    { c with heap := (c.heap.alloc 1).alloc 1, out := c.out ++ [WriteReq.mk (c.heap.allocated + 1) c.heap.allocated left] }.Forgets n := by
  obtain ⟨lost, hlength, hperm⟩ := h
  refine ⟨lost, hlength, List.perm_iff_count.mpr fun b => ?_⟩
  have hcount := hperm.count_eq b
  simp only [Blocks.alloc, List.range_succ, List.flatMap_append, List.flatMap_cons, List.flatMap_nil,
    WriteReq.blocks, List.count_append, List.append_nil] at hcount ⊢
  rw [List.count_cons]
  simp only [List.count_singleton] at *
  omega

theorem Forgets.free (h : c.Forgets n) {i : ℕ} {x : WriteReq} (hx : c.out[i]? = some x) :
    { c with out := c.out.eraseIdx i, heap := c.heap.free x.blocks }.Forgets n := by
  obtain ⟨lost, hlength, hperm⟩ := h
  obtain ⟨hi, rfl⟩ := List.getElem?_eq_some_iff.mp hx
  refine ⟨lost, hlength, List.perm_iff_count.mpr fun b => ?_⟩
  have hcount := hperm.count_eq b
  have hout := ((List.getElem_cons_eraseIdx_perm hi).flatMap_right WriteReq.blocks).count_eq b
  simp only [Blocks.free, List.flatMap_cons, List.count_append] at hcount hout ⊢
  omega

theorem Forgets.pause (h : c.Forgets n) : c.pause.Forgets n := by
  refine h.congr ?_ ?_
  · unfold CpioUv.pause
    split_ifs <;> rfl
  · rw [pause_out]

theorem Forgets.write (h : c.Forgets n) (nread ret : ℤ) :
    ({ c with heap := c.heap.alloc 1 }.write c.heap.allocated nread ret).Forgets (n + if ret < 0 then 2 else 0) := by
  unfold CpioUv.write
  by_cases hret : ret < 0
  · simp only [if_pos hret]
    exact h.alloc.alloc.congr rfl rfl
  · simp only [if_neg hret]
    exact h.accept nread.toNat

/-- What a delivery forgets. -/
theorem Forgets.readCb (h : c.Forgets n) (nread ret : ℤ) (rStop rPause : Answer) :
    ({ c with heap := c.heap.alloc 1 }.readCb c.heap.allocated nread ret).Forgets
      (n + ((CpioEvent.read nread ret rStop rPause).empty + (CpioEvent.read nread ret rStop rPause).parting)) := by
  unfold CpioUv.readCb CpioEvent.empty CpioEvent.parting
  rcases lt_trichotomy nread 0 with hneg | rfl | hpos
  · simp only [if_pos hneg, if_neg hneg.ne, zero_add]
    refine h.alloc.congr ?_ ?_
    · split_ifs <;> rfl
    · split_ifs <;> rfl
  · exact h.alloc
  · simp only [if_neg hpos.not_gt, if_neg hpos.ne', zero_add, hpos, true_and, if_true]
    exact (h.write nread ret).pause

theorem Forgets.writeCb {i : ℕ} {x : WriteReq} (h : c.Forgets n) (hx : c.out[i]? = some x) (status ret : ℤ) :
    ({ c with out := c.out.eraseIdx i }.writeCb x status ret).Forgets n := by
  refine (h.free hx).congr ?_ ?_
  · unfold CpioUv.writeCb report resume
    split_ifs <;> rfl
  · unfold CpioUv.writeCb report resume
    split_ifs <;> rfl

theorem flatMap_blocks_modify (l : List WriteReq) (i k : ℕ) :
    (l.modify i fun x => { x with left := x.left - k }).flatMap WriteReq.blocks = l.flatMap WriteReq.blocks := by
  induction l generalizing i with
  | nil => simp
  | cons x l ih =>
    cases i with
    | zero => rfl
    | succ i =>
      simp only [List.modify_succ_cons, List.flatMap_cons]
      rw [ih]

theorem step_forgets {e : CpioEvent} (h : c.Forgets n) (hs : c.step e = some c') :
    c'.Forgets (n + (e.empty + e.parting)) := by
  cases e with
  | read nread ret rStop rPause =>
    simp only [step, Option.ite_none_right_eq_some, Option.some.injEq] at hs
    obtain ⟨_, rfl⟩ := hs
    exact h.readCb nread ret rStop rPause
  | transmit i k =>
    simp only [step, Option.ite_none_right_eq_some, Option.some.injEq] at hs
    obtain ⟨_, rfl⟩ := hs
    exact h.congr rfl (flatMap_blocks_modify c.out i k)
  | written i status r =>
    obtain ⟨x, hx, rfl⟩ := Option.map_eq_some_iff.mp hs
    exact h.writeCb hx status r.ret

/-- The input is neither read nor paused, so that nothing resumes it. -/
def Ended (c : CpioUv) : Prop := c.reading = false ∧ c.rdcmdState ≠ .pause

/-- The input is read only in the state `RD_START`, and a block has been forgotten on
stopping only if it has ended. -/
structure Parted (c : CpioUv) (n : ℕ) : Prop where
  started : c.reading = true → c.rdcmdState = .start
  once : n = 0 ∨ n ≤ 2 ∧ c.Ended

theorem init_parted : init.Parted 0 := ⟨fun _ => rfl, .inl rfl⟩

/-- Only the input matters. -/
theorem Parted.congr (h : c.Parted n) (hr : c'.reading = c.reading) (hs : c'.rdcmdState = c.rdcmdState) :
    c'.Parted n := by
  refine ⟨?_, h.once.imp_right fun hended => ⟨hended.1, hr.trans hended.2.1, ?_⟩⟩
  · rw [hr, hs]
    exact h.started
  · rw [hs]
    exact hended.2.2

theorem Parted.stop (h : c.Parted n) : c.stop.Parted n :=
  ⟨nofun, h.once.imp_right fun hended => ⟨hended.1, rfl, nofun⟩⟩

/-- What has ended is not resumed. -/
theorem Parted.resume (h : c.Parted n) (ret : ℤ) : (c.resume ret).Parted n := by
  unfold CpioUv.resume
  split_ifs with hp
  · exact ⟨fun _ => rfl, .inl (h.once.resolve_right fun hended => hended.2.2 hp.1)⟩
  · exact ⟨fun _ => rfl, .inl (h.once.resolve_right fun hended => hended.2.2 hp.1)⟩
  · exact h

/-- A pause stops what is read. -/
theorem pause_parted (h : c.reading = true → c.rdcmdState = .start) :
    c.pause.reading = true → c.pause.rdcmdState = .start := by
  unfold CpioUv.pause
  split_ifs with hp
  · intro hr
    cases hr
  · exact h

theorem Parted.read (h : c.Parted n) (hr : c.reading = true) (base : ℕ) (nread ret : ℤ) (rStop rPause : Answer) :
    (c.readCb base nread ret).Parted (n + (CpioEvent.read nread ret rStop rPause).parting) := by
  have hstart := h.started hr
  -- what is read has not ended
  have hn : n = 0 := h.once.resolve_right fun hended => by simp [hended.2.1] at hr
  subst hn
  unfold CpioUv.readCb CpioEvent.parting
  rcases lt_trichotomy nread 0 with hneg | rfl | hpos
  · simp only [if_pos hneg]
    have hkept : (if nread = uvEOF then c else c.print "read" nread).rdcmdState = .start := by
      split_ifs <;> exact hstart
    refine ⟨nofun, .inr ⟨by omega, rfl, ?_⟩⟩
    rw [hkept]
    exact nofun
  · exact h
  · simp only [if_neg hpos.not_gt, hpos, true_and, if_true]
    unfold CpioUv.write
    by_cases hret : ret < 0
    · simp only [if_pos hret]
      exact ⟨nofun, .inr ⟨by omega, rfl, nofun⟩⟩
    · simp only [if_neg hret]
      exact ⟨pause_parted fun _ => hstart, .inl rfl⟩

theorem Parted.written (h : c.Parted n) (x : WriteReq) (status ret : ℤ) : (c.writeCb x status ret).Parted n := by
  unfold CpioUv.writeCb
  by_cases hstatus : status < 0
  · rw [if_pos hstatus]
    have hreport : (c.report status).Parted n := by
      unfold CpioUv.report
      split_ifs
      · exact h
      · exact h.congr rfl rfl
    exact hreport.stop.congr rfl rfl
  · rw [if_neg hstatus]
    exact (h.resume ret).congr rfl rfl

theorem step_parted {e : CpioEvent} (h : c.Parted n) (hs : c.step e = some c') : c'.Parted (n + e.parting) := by
  cases e with
  | read nread ret rStop rPause =>
    simp only [step, Option.ite_none_right_eq_some, Option.some.injEq] at hs
    obtain ⟨⟨hr, _⟩, rfl⟩ := hs
    exact Parted.read (c := { c with heap := c.heap.alloc 1 }) (h.congr rfl rfl) hr _ nread ret rStop rPause
  | transmit i k =>
    simp only [step, Option.ite_none_right_eq_some, Option.some.injEq] at hs
    obtain ⟨_, rfl⟩ := hs
    exact h.congr rfl rfl
  | written i status r =>
    obtain ⟨x, _, rfl⟩ := Option.map_eq_some_iff.mp hs
    exact Parted.written (c := { c with out := c.out.eraseIdx i }) (h.congr rfl rfl) x status r.ret

end CpioUv

namespace CpioUvcc
variable {s t : CpioUvcc}

def held (s : CpioUvcc) : Multiset ℕ := s.writes.flatMap fun x => [x.2, x.1]

/-- What is alive is held by the pending writes and by `H`. -/
structure Accounted (s : CpioUvcc) (H : Multiset ℕ) : Prop where
  balanced : s.mem.Balanced (H + s.held)
  fresh : ∀ a, s.next ≤ a → s.mem.status a = .unborn

section Accounted
variable {H : Multiset ℕ}

theorem init_accounted : init.Accounted 0 := ⟨Ledger.Balanced.empty, fun _ _ => rfl⟩

/-- The other fields do not matter. -/
theorem Accounted.congr (h : s.Accounted H) (hmem : t.mem = s.mem) (hnext : t.next = s.next) (hheld : t.held = s.held) :
    t.Accounted H := by
  refine ⟨?_, ?_⟩
  · rw [hmem, hheld]
    exact h.balanced
  · rw [hmem, hnext]
    exact h.fresh

theorem Accounted.create (h : s.Accounted H) :
    { s with mem := s.mem.create s.next, next := s.next + 1 }.Accounted (s.next ::ₘ H) := by
  refine ⟨?_, fun a ha => ?_⟩
  · rw [Multiset.cons_add]
    exact h.balanced.create (h.fresh s.next le_rfl)
  · have hlt : s.next < a := ha
    have hne : a ≠ s.next := hlt.ne'
    simp only [Ledger.create, Function.update_of_ne hne]
    exact h.fresh a hlt.le

theorem Accounted.inc (h : s.Accounted H) {a : ℕ} (ha : a ∈ H + s.held) :
    { s with mem := s.mem.inc a }.Accounted (a ::ₘ H) := by
  refine ⟨?_, fun b hb => ?_⟩
  · rw [Multiset.cons_add]
    exact h.balanced.inc ha
  · rw [Ledger.status_inc]
    exact h.fresh b hb

theorem Accounted.dec {a : ℕ} (h : s.Accounted (a ::ₘ H)) : { s with mem := s.mem.dec a }.Accounted H := by
  refine ⟨?_, fun b hb => ?_⟩
  · have hbal := h.balanced
    rw [Multiset.cons_add] at hbal
    exact hbal.dec
  · rw [Ledger.status_dec_unborn]
    exact h.fresh b hb

/-- The references of a write that libuv has accepted. -/
theorem Accounted.accept {wr buffer : ℕ} (h : s.Accounted (wr ::ₘ buffer ::ₘ H)) :
    { s with writes := s.writes ++ [(wr, buffer)] }.Accounted H := by
  refine ⟨?_, h.fresh⟩
  have hheld : H + ({ s with writes := s.writes ++ [(wr, buffer)] } : CpioUvcc).held =
      wr ::ₘ buffer ::ₘ H + s.held := by
    apply Multiset.ext.mpr
    intro a
    simp only [held, List.flatMap_append, List.flatMap_cons, List.flatMap_nil, List.append_nil, Multiset.count_add,
      Multiset.count_cons, Multiset.coe_count, List.count_append, List.count_cons, List.count_nil, beq_iff_eq,
      eq_comm (a := a)]
    omega
  rw [hheld]
  exact h.balanced

/-- A completed write passes its references on. -/
theorem Accounted.complete (h : s.Accounted H) {i : ℕ} {x : ℕ × ℕ} (hx : s.writes[i]? = some x) :
    { s with writes := s.writes.eraseIdx i }.Accounted (x.2 ::ₘ x.1 ::ₘ H) := by
  obtain ⟨hi, rfl⟩ := List.getElem?_eq_some_iff.mp hx
  refine ⟨?_, h.fresh⟩
  have hperm := (List.getElem_cons_eraseIdx_perm hi).flatMap_right fun x => [x.2, x.1]
  have hheld : s.held = s.writes[i].2 ::ₘ s.writes[i].1 ::ₘ ({ s with writes := s.writes.eraseIdx i } : CpioUvcc).held :=
    (Multiset.coe_eq_coe.mpr hperm).symm
  have hbal := h.balanced
  rw [hheld, Multiset.add_cons, Multiset.add_cons] at hbal
  rw [Multiset.cons_add, Multiset.cons_add]
  exact hbal

theorem Accounted.write {buffer : ℕ} (h : s.Accounted {buffer}) (ret : ℤ) : (s.write buffer ret).Accounted {buffer} := by
  have hmade := h.create
  have hbuffer := hmade.inc (a := buffer) (by simp)
  have hrun := hbuffer.inc (a := s.next) (by simp)
  unfold CpioUvcc.write
  by_cases hret : ret < 0
  · simp only [if_pos hret]
    have hback : Accounted _ (s.next ::ₘ {buffer}) := ((Multiset.cons_swap s.next buffer _ ▸ hrun).dec).dec
    exact hback.dec.congr rfl rfl rfl
  · simp only [if_neg hret]
    exact hrun.accept.dec

theorem Accounted.readCb {buffer : ℕ} (h : s.Accounted {buffer}) (nread ret : ℤ) :
    (s.readCb buffer nread ret).Accounted {buffer} := by
  unfold CpioUvcc.readCb
  split_ifs
  · exact h
  · exact h.congr rfl rfl rfl
  · exact h.write ret
  · exact h

theorem Accounted.read (h : s.Accounted 0) (nread ret : ℤ) : (s.read nread ret).Accounted 0 := by
  have hbuffer := h.create
  have hlent := hbuffer.inc (a := s.next) (by simp)
  have hcb := hlent.dec.readCb nread ret
  exact hcb.dec

theorem Accounted.written {x : ℕ × ℕ} (h : s.Accounted (x.2 ::ₘ x.1 ::ₘ 0)) (status : ℤ) :
    (s.written x status).Accounted 0 := by
  unfold CpioUvcc.written
  have hreport : (if status < 0 ∧ s.wrErrReported = false then { s.print "write" status with wrErrReported := true }
      else s).Accounted (x.2 ::ₘ x.1 ::ₘ 0) := by
    split_ifs
    · exact h.congr rfl rfl rfl
    · exact h
  have hargument := hreport.inc (a := x.1) (by simp)
  exact ((Multiset.cons_swap x.1 x.2 _ ▸ hargument).dec).dec.dec

theorem step_accounted {e : CpioEvent} (h : s.Accounted 0) (hs : s.step e = some t) : t.Accounted 0 := by
  obtain ⟨copy, _, rfl⟩ := Option.map_eq_some_iff.mp hs
  refine Accounted.congr (s := s.record e) ?_ rfl rfl rfl
  cases e with
  | read nread ret rStop rPause => exact h.read nread ret
  | transmit i n => exact h
  | written i status r =>
    simp only [record]
    cases hx : s.writes[i]? with
    | none => exact h
    | some x => exact (h.complete hx).written status

end Accounted
end CpioUvcc

/-- In every run `cpio-uvcc` keeps the instances that its pending writes hold, each counted
exactly, and no others. `cpio-uv` frees no block twice and keeps the blocks of its pending
writes, but it forgets the buffer of every empty delivery and up to two blocks as it stops
reading. -/
theorem cpio_memory (es : List CpioEvent) :
    let s := final CpioUvcc.step .init es
    let c := final CpioUv.step .init es
    let es' := (taken CpioUv.step .init es).map Prod.snd
    s.mem.Balanced s.held ∧
      c.Forgets ((es'.map CpioEvent.empty).sum + (es'.map CpioEvent.parting).sum) ∧
      (es'.map CpioEvent.parting).sum ≤ 2 := by
  intro s c es'
  have hs : s.Accounted 0 := visited_invariant (fun _ _ _ h => CpioUvcc.step_accounted h) es _
    CpioUvcc.init_accounted s (final_visited es _)
  have hc := final_tally (I := CpioUv.Forgets) (w := fun e => e.empty + e.parting)
    (fun _ _ _ _ h => CpioUv.step_forgets h) es _ _ CpioUv.init_forgets
  have hp := final_tally (I := CpioUv.Parted) (w := CpioEvent.parting)
    (fun _ _ _ _ h => CpioUv.step_parted h) es _ _ CpioUv.init_parted
  refine ⟨?_, ?_, ?_⟩
  · have hbalanced := hs.balanced
    rwa [zero_add] at hbalanced
  · simp only [es', List.map_map]
    rw [zero_add, List.sum_map_add] at hc
    exact hc
  · simp only [es', List.map_map]
    rw [zero_add] at hp
    rcases hp.once with hnone | ⟨htwo, _⟩
    · exact hnone.le.trans (Nat.zero_le 2)
    · exact htwo

end Uvcc.Example
