import Uvcc.Example.FlowControl
import Mathlib.Data.BitVec

/-!
# Copying the input to several outputs

`tee1` and `tee2` write what they read to the standard output, and when that has been
written, to every file, at the offset at which it was read. The input is paused and
resumed by what waits for all outputs, of which the program counts that for the files
itself. A write to a file that has failed is neither taken from that count nor followed by
an attempt to resume. The input is a stream here, a pipe, a terminal or a socket.
-/
namespace Uvcc.Example
open Machine Io

variable {α : Type*}

/-- A write to the standard output; `left` is what libuv has not written of it. -/
structure OutWrite (α : Type*) where
  data : List α
  offset : ℤ
  left : ℕ
  deriving DecidableEq, Repr

structure FileWrite (α : Type*) where
  file : ℕ
  data : List α
  offset : ℤ
  deriving DecidableEq, Repr

/-- `files` is how many there are, and `contents` what they have at an offset; `received`
is what the read callback was given, and `failed` the bytes of the writes to files that
were completed with an error. -/
structure Tee (α : Type*) where
  input : Endpoint Libuv
  files : ℕ
  out : List (OutWrite α)
  fileWrites : List (FileWrite α)
  fileWriteQueuesSize : BitVec 64
  contents : ℕ → ℤ → Option α
  received : List α
  failed : ℕ

/-- libuv delivers, writes some of what is pending to the standard output, and completes
a write there or to a file; `sent` is what a write to an idle output takes at once, and
`rets` are the results of starting the writes to the files. -/
inductive TeeEvent (α : Type*) where
  | read (nread : ℤ) (data : List α) (ret : ℤ) (sent : ℕ) (rStop rPause : Answer)
  | transmit (i n : ℕ)
  | outDone (i : ℕ) (status : ℤ) (rets : ℕ → ℤ) (rStop rResume : Answer)
  | fileDone (i : ℕ) (result : ℤ) (rResume : Answer)

def store (c : ℤ → Option α) (offset : ℤ) (data : List α) : ℤ → Option α := fun p =>
  if offset ≤ p then (data[(p - offset).toNat]?).or (c p) else c p

namespace Tee

def init (files : ℕ) : Tee α := ⟨started, files, [], [], 0, fun _ _ => none, [], 0⟩

def writeQueueSize (s : Tee α) : BitVec 64 := BitVec.ofNat 64 (s.out.map OutWrite.left).sum

def totalWritePendingBytes (s : Tee α) : BitVec 64 := s.writeQueueSize + s.fileWriteQueuesSize

def readStop (s : Tee α) (r : Answer) : Tee α := { s with input := (s.input.readStop socketInterface r).1 }

def readPause (s : Tee α) (r : Answer) : Tee α :=
  { s with input := (s.input.readPause socketInterface
      (decide (writeQueueSizeUpperLimit ≤ s.totalWritePendingBytes.toNat)) r).1 }

def readResume (s : Tee α) (r : Answer) : Tee α :=
  { s with input := (s.input.readResume socketInterface
      (decide (s.totalWritePendingBytes.toNat ≤ writeQueueSizeLowerLimit)) r).1 }

/-- What is left of a write: `uv_write()` does not wait for the loop when nothing else is
queued. -/
def queued (s : Tee α) (length sent : ℕ) : ℕ := if s.writeQueueSize = 0 then length - sent else length

/-- `io_wr.run(out, _buf, _offset, _info)`, of which `ret` is the result. -/
def run (s : Tee α) (data : List α) (ret : ℤ) (sent : ℕ) (rStop : Answer) : Tee α :=
  if ret < 0 then s.readStop rStop
  else { s with out := s.out ++ [⟨data, s.input.rdoffset, s.queued data.length sent⟩] }

def readCb (s : Tee α) (nread : ℤ) (data : List α) (ret : ℤ) (sent : ℕ) (rStop rPause : Answer) : Tee α :=
  let s' := if nread < 0 then s.readStop rStop
    else if 0 < nread then s.run data ret sent rStop
    else s
  s'.readPause rPause

def writeToFile (s : Tee α) (data : List α) (offset : ℤ) (rets : ℕ → ℤ) (file : ℕ) : Tee α :=
  if rets file < 0 then s
  else
    { s with
      fileWrites := s.fileWrites ++ [⟨file, data, offset⟩]
      fileWriteQueuesSize := s.fileWriteQueuesSize + BitVec.ofNat 64 data.length }

def writeToFiles (s : Tee α) (data : List α) (offset : ℤ) (rets : ℕ → ℤ) : Tee α :=
  (List.range s.files).foldl (fun s file => s.writeToFile data offset rets file) s

def writeToStdoutCb (s : Tee α) (w : OutWrite α) (status : ℤ) (rets : ℕ → ℤ) (rStop rResume : Answer) :
    Tee α :=
  let s' := if status < 0 then s.readStop rStop else s.writeToFiles w.data w.offset rets
  s'.readResume rResume

def writeToFileCb (s : Tee α) (w : FileWrite α) (result : ℤ) (rResume : Answer) : Tee α :=
  if result < 0 then s
  else { s with fileWriteQueuesSize := s.fileWriteQueuesSize - BitVec.ofNat 64 w.data.length }.readResume
    rResume

/-- The request is completed: so much of its data has been written, and a failure is
recorded. -/
def complete (s : Tee α) (i : ℕ) (w : FileWrite α) (result : ℤ) : Tee α :=
  { s with
    fileWrites := s.fileWrites.eraseIdx i
    contents := Function.update s.contents w.file
      (store (s.contents w.file) w.offset (w.data.take result.toNat))
    failed := if result < 0 then s.failed + w.data.length else s.failed }

def step (s : Tee α) : TeeEvent α → Option (Tee α)
  | .read nread data ret sent rStop rPause =>
    if s.input.world.reading = true ∧ (nread = data.length ∨ nread < 0 ∧ data = []) then
      let s' := { s with input := enterCb s.input nread }.readCb nread data ret sent rStop rPause
      some { s' with input := leaveCb s'.input nread, received := s'.received ++ data }
    else none
  | .transmit i n =>
    if i < s.out.length then
      some { s with out := s.out.modify i fun w => { w with left := w.left - n } }
    else none
  | .outDone i status rets rStop rResume => match s.out[i]? with
    | some w => some ({ s with out := s.out.eraseIdx i }.writeToStdoutCb w status rets rStop rResume)
    | none => none
  | .fileDone i result rResume => match s.fileWrites[i]? with
    | some w =>
      if result ≤ w.data.length then some ((s.complete i w result).writeToFileCb w result rResume) else none
    | none => none

/-! ## What the program counts -/

def pendingBytes (s : Tee α) : ℕ := (s.fileWrites.map fun w => w.data.length).sum

def Busy (s : Tee α) : Prop := s.out ≠ [] ∨ s.fileWrites ≠ [] ∨ 0 < s.failed

/-- The program counts the writes to files that are pending and those that have failed;
none of them is empty. -/
structure Summed (s : Tee α) : Prop where
  count : s.fileWriteQueuesSize = BitVec.ofNat 64 (s.pendingBytes + s.failed)
  out : ∀ w ∈ s.out, w.data ≠ []
  fileWrites : ∀ w ∈ s.fileWrites, w.data ≠ []

/-- The input is paused only as long as something counts. -/
structure Counted (s : Tee α) (n : ℤ) : Prop where
  flowing : Flowing s.input n
  summed : s.Summed
  paused : s.input.rdcmd = .pause → s.Busy

variable {s t : Tee α} {n : ℤ}

theorem init_counted (files : ℕ) : (init files : Tee α).Counted 1 where
  flowing := started_flowing
  summed := ⟨rfl, by simp [init], by simp [init]⟩
  paused h := by cases h

/-- What is not busy has nothing in its counts. -/
theorem Summed.idle (h : s.Summed) (hidle : ¬ s.Busy) : s.totalWritePendingBytes.toNat = 0 := by
  simp only [Busy, not_or, not_not, Nat.not_lt, Nat.le_zero] at hidle
  obtain ⟨hout, hfiles, hfailed⟩ := hidle
  rw [totalWritePendingBytes, writeQueueSize, h.count, pendingBytes, hout, hfiles, hfailed]
  rfl

theorem readStop_counted (hn : 1 ≤ n) (hflow : Flowing s.input n) (hsum : s.Summed) (r : Answer) :
    (s.readStop r).Counted n := by
  obtain ⟨hcmd, _⟩ := readStop_stream (e := s.input) r
  refine ⟨hflow.readStop hn r, ⟨hsum.count, hsum.out, hsum.fileWrites⟩, fun hp => ?_⟩
  cases hcmd.symm.trans hp

theorem Counted.readPause (h : s.Counted n) (hn : 1 ≤ n) (r : Answer) : (s.readPause r).Counted n := by
  refine ⟨h.flowing.readPause hn _ r, ⟨h.summed.count, h.summed.out, h.summed.fileWrites⟩, fun hp => ?_⟩
  rcases readPause_stream (e := s.input) _ r with ⟨he, _⟩ | ⟨_, _, _, htrigger⟩
  · exact h.paused (he ▸ hp)
  · have hlimit := of_decide_eq_true htrigger
    by_contra hidle
    rw [h.summed.idle hidle] at hlimit
    exact absurd hlimit (by decide)

/-- A completion leaves the input paused only when something else is pending. -/
theorem readResume_counted (hn : 1 ≤ n) (hflow : Flowing s.input n) (hsum : s.Summed) (r : Answer) :
    (s.readResume r).Counted n := by
  refine ⟨hflow.readResume hn _ r, ⟨hsum.count, hsum.out, hsum.fileWrites⟩, fun hp => ?_⟩
  by_contra hidle
  rcases readResume_stream (e := s.input) _ r with ⟨he, hrefused⟩ | ⟨_, _, hcmd, _⟩
  · refine hrefused (decide_eq_true ?_) (he ▸ hp)
    rw [hsum.idle hidle]
    exact Nat.zero_le _
  · have hcmd' := hcmd.symm.trans hp
    split_ifs at hcmd'

theorem Summed.run (h : s.Summed) {data : List α} (hdata : data ≠ []) (left : ℕ) :
    ({ s with out := s.out ++ [⟨data, s.input.rdoffset, left⟩] } : Tee α).Summed where
  count := h.count
  out := by
    simp only [List.forall_mem_append, List.forall_mem_singleton]
    exact ⟨h.out, hdata⟩
  fileWrites := h.fileWrites

theorem Counted.readCb (h : s.Counted n) (hn : 1 ≤ n) {nread : ℤ} {data : List α}
    (hdata : 0 < nread → data ≠ []) (ret : ℤ) (sent : ℕ) (rStop rPause : Answer) :
    (s.readCb nread data ret sent rStop rPause).Counted n := by
  refine Counted.readPause ?_ hn rPause
  split_ifs with _ hpos
  · exact readStop_counted hn h.flowing h.summed rStop
  · unfold Tee.run
    split_ifs
    · exact readStop_counted hn h.flowing h.summed rStop
    · exact ⟨h.flowing, h.summed.run (hdata hpos) _, fun _ => .inl (by simp)⟩
  · exact h

theorem Summed.writeToFile (h : s.Summed) {data : List α} (hdata : data ≠ []) (offset : ℤ) (rets : ℕ → ℤ)
    (file : ℕ) : (s.writeToFile data offset rets file).Summed := by
  unfold Tee.writeToFile
  split_ifs
  · exact h
  · refine ⟨?_, h.out, ?_⟩
    · have hpending : ({ s with
          fileWrites := s.fileWrites ++ [⟨file, data, offset⟩]
          fileWriteQueuesSize := s.fileWriteQueuesSize + BitVec.ofNat 64 data.length } : Tee α).pendingBytes =
            s.pendingBytes + data.length := by
        simp [pendingBytes]
      have hadd : s.pendingBytes + s.failed + data.length = s.pendingBytes + data.length + s.failed := by
        omega
      rw [hpending, h.count, ← BitVec.ofNat_add, hadd]
    · simp only [List.forall_mem_append, List.forall_mem_singleton]
      exact ⟨h.fileWrites, hdata⟩

theorem writeToFile_input (s : Tee α) (data : List α) (offset : ℤ) (rets : ℕ → ℤ) (file : ℕ) :
    (s.writeToFile data offset rets file).input = s.input := by
  unfold writeToFile
  split_ifs <;> rfl

/-- What a turn of the loop keeps the loop keeps. -/
theorem writeToFiles_induction {P : Tee α → Prop} {data : List α} {offset : ℤ} {rets : ℕ → ℤ}
    (hstep : ∀ s file, P s → P (s.writeToFile data offset rets file)) (h : P s) :
    P (s.writeToFiles data offset rets) := by
  unfold writeToFiles
  generalize List.range s.files = l
  induction l generalizing s with
  | nil => exact h
  | cons file l ih => exact ih (hstep s file h)

theorem Summed.writeToFiles (h : s.Summed) {data : List α} (hdata : data ≠ []) (offset : ℤ) (rets : ℕ → ℤ) :
    (s.writeToFiles data offset rets).Summed ∧ (s.writeToFiles data offset rets).input = s.input :=
  writeToFiles_induction (P := fun t => t.Summed ∧ t.input = s.input)
    (fun t file ht => ⟨ht.1.writeToFile hdata offset rets file,
      (writeToFile_input t data offset rets file).trans ht.2⟩) ⟨h, rfl⟩

theorem writeToStdoutCb_counted (hn : 1 ≤ n) (hflow : Flowing s.input n) (hsum : s.Summed) {w : OutWrite α}
    (hw : w.data ≠ []) (status : ℤ) (rets : ℕ → ℤ) (rStop rResume : Answer) :
    (s.writeToStdoutCb w status rets rStop rResume).Counted n := by
  unfold writeToStdoutCb
  dsimp only
  split_ifs
  · have hstop := readStop_counted hn hflow hsum rStop
    exact readResume_counted hn hstop.flowing hstop.summed rResume
  · obtain ⟨hfiles, hinput⟩ := hsum.writeToFiles hw w.offset rets
    exact readResume_counted hn (hinput ▸ hflow) hfiles rResume

/-- What libuv has written of it changes nothing else about a write. -/
theorem mem_transmit (l : List (OutWrite α)) (i n : ℕ) :
    (∀ w ∈ l.modify i (fun w => { w with left := w.left - n }),
        ∃ v ∈ l, v.data = w.data ∧ v.offset = w.offset) ∧
      ∀ v ∈ l, ∃ w ∈ l.modify i (fun w => { w with left := w.left - n }),
        v.data = w.data ∧ v.offset = w.offset := by
  have hget (j : ℕ) (hj : j < l.length) (hj' : j < (l.modify i fun w => { w with left := w.left - n }).length) :
      l[j].data = (l.modify i fun w => { w with left := w.left - n })[j].data ∧
        l[j].offset = (l.modify i fun w => { w with left := w.left - n })[j].offset := by
    rw [List.getElem_modify]
    split_ifs <;> exact ⟨rfl, rfl⟩
  constructor
  · intro w hw
    obtain ⟨j, hj, rfl⟩ := List.mem_iff_getElem.mp hw
    have hj' : j < l.length := by rwa [List.length_modify] at hj
    exact ⟨l[j], List.getElem_mem hj', hget j hj' hj⟩
  · intro v hv
    obtain ⟨j, hj, rfl⟩ := List.mem_iff_getElem.mp hv
    have hj' : j < (l.modify i fun w => { w with left := w.left - n }).length := by rwa [List.length_modify]
    exact ⟨_, List.getElem_mem hj', hget j hj hj'⟩

/-- A completed request leaves the list of those that are pending. -/
theorem eraseIdx_perm {β : Type*} {l : List β} {i : ℕ} {w : β} (h : l[i]? = some w) :
    (w :: l.eraseIdx i).Perm l := by
  obtain ⟨hi, rfl⟩ := List.getElem?_eq_some_iff.mp h
  exact List.getElem_cons_eraseIdx_perm hi

theorem pendingBytes_complete {i : ℕ} {w : FileWrite α} (hw : s.fileWrites[i]? = some w) (result : ℤ) :
    (s.complete i w result).pendingBytes + w.data.length = s.pendingBytes := by
  have hperm := ((eraseIdx_perm hw).map fun w => w.data.length).sum_eq
  rw [List.map_cons, List.sum_cons] at hperm
  rw [add_comm]
  exact hperm

theorem fileDone_counted (h : s.Counted 1) {i : ℕ} {w : FileWrite α} (hw : s.fileWrites[i]? = some w)
    (result : ℤ) (rResume : Answer) :
    ((s.complete i w result).writeToFileCb w result rResume).Counted 1 := by
  have hmem : w ∈ s.fileWrites := List.mem_of_getElem? hw
  have hpending := pendingBytes_complete hw result
  have hcount := h.summed.count
  have hrest : ∀ v ∈ (s.complete i w result).fileWrites, v.data ≠ [] := fun v hv =>
    h.summed.fileWrites v (List.mem_of_mem_eraseIdx hv)
  unfold writeToFileCb
  split_ifs with hresult
  · -- a failed write goes on counting
    have hfailed : (s.complete i w result).failed = s.failed + w.data.length := if_pos hresult
    refine ⟨h.flowing, ⟨?_, h.summed.out, hrest⟩, fun _ => .inr (.inr ?_)⟩
    · have hsame : (s.complete i w result).fileWriteQueuesSize = s.fileWriteQueuesSize := rfl
      rw [hsame, hcount, hfailed]
      congr 1
      omega
    · have hlength := List.length_pos_iff.mpr (h.summed.fileWrites w hmem)
      rw [hfailed]
      omega
  · have hfailed : (s.complete i w result).failed = s.failed := if_neg hresult
    refine readResume_counted (s := { s.complete i w result with
      fileWriteQueuesSize := s.fileWriteQueuesSize - BitVec.ofNat 64 w.data.length }) le_rfl h.flowing
      ⟨?_, h.summed.out, hrest⟩ rResume
    change s.fileWriteQueuesSize - BitVec.ofNat 64 w.data.length =
      BitVec.ofNat 64 ((s.complete i w result).pendingBytes + (s.complete i w result).failed)
    rw [hcount, hfailed, ← hpending, add_right_comm, BitVec.ofNat_add (x := _ + _), BitVec.add_sub_cancel]

theorem step_counted {e : TeeEvent α} (h : s.Counted 1) (hstep : s.step e = some t) : t.Counted 1 := by
  cases e with
  | read nread data ret sent rStop rPause =>
    simp only [step, Option.ite_none_right_eq_some, Option.some.injEq] at hstep
    obtain ⟨⟨_, hdata⟩, rfl⟩ := hstep
    have hfull : 0 < nread → data ≠ [] := by
      rintro hpos rfl
      rcases hdata with rfl | ⟨hneg, _⟩
      · exact absurd hpos (by simp)
      · omega
    have henter : ({ s with input := enterCb s.input nread } : Tee α).Counted 2 :=
      ⟨h.flowing.enterCb nread, ⟨h.summed.count, h.summed.out, h.summed.fileWrites⟩, h.paused⟩
    have hcb := henter.readCb one_le_two hfull ret sent rStop rPause
    exact ⟨hcb.flowing.leaveCb nread, ⟨hcb.summed.count, hcb.summed.out, hcb.summed.fileWrites⟩, hcb.paused⟩
  | transmit i n =>
    simp only [step, Option.ite_none_right_eq_some, Option.some.injEq] at hstep
    obtain ⟨_, rfl⟩ := hstep
    refine ⟨h.flowing, ⟨h.summed.count, fun w hw => ?_, h.summed.fileWrites⟩, fun hp => ?_⟩
    · obtain ⟨v, hv, hdata, _⟩ := (mem_transmit s.out i n).1 w hw
      exact hdata ▸ h.summed.out v hv
    · rcases h.paused hp with hout | hbusy
      · refine .inl fun hnil => hout (List.length_eq_zero_iff.mp ?_)
        have hmodify : s.out.modify i (fun w => { w with left := w.left - n }) = [] := hnil
        rw [← List.length_modify (fun w : OutWrite α => { w with left := w.left - n }) s.out i, hmodify,
          List.length_nil]
      · exact .inr hbusy
  | outDone i status rets rStop rResume =>
    simp only [step] at hstep
    split at hstep
    · rename_i w hw
      obtain rfl := Option.some.inj hstep
      have hmem : w ∈ s.out := List.mem_of_getElem? hw
      have hrest : ({ s with out := s.out.eraseIdx i } : Tee α).Summed :=
        ⟨h.summed.count, fun v hv => h.summed.out v (List.mem_of_mem_eraseIdx hv), h.summed.fileWrites⟩
      exact writeToStdoutCb_counted (s := { s with out := s.out.eraseIdx i }) le_rfl h.flowing hrest
        (h.summed.out w hmem) status rets rStop rResume
    · cases hstep
  | fileDone i result rResume =>
    simp only [step] at hstep
    split at hstep
    · rename_i w hw
      simp only [Option.ite_none_right_eq_some, Option.some.injEq] at hstep
      obtain ⟨_, rfl⟩ := hstep
      exact fileDone_counted h hw result rResume
    · cases hstep

/-! ## What the files have -/

/-- The position `p` is one of those that `data` goes to. -/
def Covers (offset : ℤ) (data : List α) (p : ℕ) : Prop := offset ≤ p ∧ p < offset + data.length

/-- `data` is what was received at `offset`. -/
def Part (r : List α) (offset : ℤ) (data : List α) : Prop := ∃ a b, r = a ++ data ++ b ∧ offset = a.length

theorem Part.append {r : List α} {offset : ℤ} {data : List α} (h : Part r offset data) (l : List α) :
    Part (r ++ l) offset data := by
  obtain ⟨a, b, rfl, ho⟩ := h
  exact ⟨a, b ++ l, by simp, ho⟩

/-- Every write is of what was received at its offset, and so is what the files have;
each file has what was received up to the writes that are still pending. -/
structure Copying (s : Tee α) (files : ℕ) : Prop where
  number : s.files = files
  offset : s.input.rdoffset = s.received.length
  out : ∀ w ∈ s.out, Part s.received w.offset w.data
  fileWrites : ∀ w ∈ s.fileWrites, Part s.received w.offset w.data
  contents : ∀ f p v, s.contents f p = some v → 0 ≤ p ∧ s.received[p.toNat]? = some v
  covered : ∀ f, f < files → ∀ p : ℕ, p < s.received.length → s.contents f p ≠ none ∨
    (∃ w ∈ s.out, Covers w.offset w.data p) ∨ ∃ w ∈ s.fileWrites, w.file = f ∧ Covers w.offset w.data p

variable {files : ℕ}

/-- The input changes, but for its offset. -/
theorem Copying.input (h : s.Copying files) {e : Endpoint Libuv} (he : e.rdoffset = s.input.rdoffset) :
    ({ s with input := e } : Tee α).Copying files :=
  ⟨h.number, he.trans h.offset, h.out, h.fileWrites, h.contents, h.covered⟩

theorem readPause_rdoffset (s : Tee α) (r : Answer) : (s.readPause r).input.rdoffset = s.input.rdoffset := by
  rcases readPause_stream (e := s.input) _ r with ⟨he, _⟩ | ⟨_, _, ho, _⟩
  · exact congrArg Endpoint.rdoffset he
  · exact ho

theorem readResume_rdoffset (s : Tee α) (r : Answer) : (s.readResume r).input.rdoffset = s.input.rdoffset := by
  rcases readResume_stream (e := s.input) _ r with ⟨he, _⟩ | ⟨_, _, _, _, ho⟩
  · exact congrArg Endpoint.rdoffset he
  · exact ho

/-- More is received and written to the standard output. -/
theorem Copying.received (h : s.Copying files) (data : List α) (left : ℕ) {e : Endpoint Libuv}
    (he : e.rdoffset = s.input.rdoffset + data.length) :
    ({ s with
      input := e
      out := s.out ++ [⟨data, s.input.rdoffset, left⟩]
      received := s.received ++ data } : Tee α).Copying files where
  number := h.number
  offset := by
    rw [he, h.offset, List.length_append]
    push_cast
    rfl
  out := by
    simp only [List.forall_mem_append, List.forall_mem_singleton]
    exact ⟨fun w hw => (h.out w hw).append data, s.received, [], by simp, h.offset⟩
  fileWrites w hw := (h.fileWrites w hw).append data
  contents f p v hv := by
    obtain ⟨hp, hr⟩ := h.contents f p v hv
    have hlt : p.toNat < s.received.length := (List.getElem?_eq_some_iff.mp hr).1
    exact ⟨hp, by rw [List.getElem?_append_left hlt, hr]⟩
  covered f hf p hp := by
    by_cases hold : p < s.received.length
    · rcases h.covered f hf p hold with hc | ⟨w, hw, hc⟩ | hc
      · exact .inl hc
      · exact .inr (.inl ⟨w, List.mem_append_left _ hw, hc⟩)
      · exact .inr (.inr hc)
    · rw [List.length_append] at hp
      refine .inr (.inl ⟨_, List.mem_append_right _ (List.mem_singleton_self _), ?_, ?_⟩)
      · dsimp only
        rw [h.offset]
        omega
      · dsimp only
        rw [h.offset]
        omega

theorem store_some {c : ℤ → Option α} {offset : ℤ} {data : List α} {p : ℤ} {v : α}
    (h : store c offset data p = some v) :
    c p = some v ∨ offset ≤ p ∧ data[(p - offset).toNat]? = some v := by
  unfold store at h
  split_ifs at h with hp
  · rcases Option.or_eq_some_iff.mp h with hd | ⟨_, hc⟩
    · exact .inr ⟨hp, hd⟩
    · exact .inl hc
  · exact .inl h

theorem store_ne_none {c : ℤ → Option α} {offset : ℤ} {data : List α} {p : ℤ} (h : c p ≠ none) :
    store c offset data p ≠ none := by
  unfold store
  split_ifs
  · simp [Option.or_eq_none_iff, h]
  · exact h

theorem store_covers {c : ℤ → Option α} {offset : ℤ} {data : List α} {p : ℕ} (h : Covers offset data p) :
    store c offset data p ≠ none := by
  obtain ⟨hle, hlt⟩ := h
  have hi : ((p : ℤ) - offset).toNat < data.length := by omega
  rw [store, if_pos hle, List.getElem?_eq_getElem hi]
  simp

/-- What a part has at one of its positions was received there. -/
theorem Part.getElem? {r : List α} {offset : ℤ} {data : List α} (h : Part r offset data) {p : ℤ} {v : α}
    (hp : offset ≤ p) (hv : data[(p - offset).toNat]? = some v) : 0 ≤ p ∧ r[p.toNat]? = some v := by
  obtain ⟨a, b, rfl, rfl⟩ := h
  have hlt : (p - a.length).toNat < data.length := (List.getElem?_eq_some_iff.mp hv).1
  have hsplit : p.toNat = a.length + (p - a.length).toNat := by omega
  refine ⟨by omega, ?_⟩
  rw [List.append_assoc, hsplit, List.getElem?_append_right (Nat.le_add_right _ _), Nat.add_sub_cancel_left,
    List.getElem?_append_left hlt, hv]

theorem writeToFiles_eq (s : Tee α) (data : List α) (offset : ℤ) {rets : ℕ → ℤ} (h : ∀ f, 0 ≤ rets f) :
    ∃ size, s.writeToFiles data offset rets = { s with
      fileWrites := s.fileWrites ++ (List.range s.files).map fun f => ⟨f, data, offset⟩
      fileWriteQueuesSize := size } := by
  unfold writeToFiles
  generalize List.range s.files = l
  induction l generalizing s with
  | nil => exact ⟨s.fileWriteQueuesSize, by simp⟩
  | cons f l ih =>
    have hf : ¬ rets f < 0 := not_lt.mpr (h f)
    obtain ⟨size, hsize⟩ := ih (s.writeToFile data offset rets f)
    refine ⟨size, ?_⟩
    rw [List.foldl_cons, hsize, writeToFile, if_neg hf]
    simp

/-- What has been written to the standard output goes to every file. -/
theorem Copying.outDone (h : s.Copying files) {i : ℕ} {w : OutWrite α} (hw : s.out[i]? = some w) {status : ℤ}
    {rets : ℕ → ℤ} (hstatus : 0 ≤ status) (hrets : ∀ f, 0 ≤ rets f) (rStop rResume : Answer) :
    ({ s with out := s.out.eraseIdx i }.writeToStdoutCb w status rets rStop rResume).Copying files := by
  have hperm := eraseIdx_perm hw
  obtain ⟨size, hfiles⟩ := writeToFiles_eq { s with out := s.out.eraseIdx i } w.data w.offset hrets
  unfold writeToStdoutCb
  dsimp only
  rw [if_neg (not_lt.mpr hstatus), hfiles]
  refine Copying.input ?_ (readResume_rdoffset _ rResume)
  refine ⟨h.number, h.offset, fun v hv => h.out v (List.mem_of_mem_eraseIdx hv), fun v hv => ?_, h.contents,
    fun f hf p hp => ?_⟩
  · rcases List.mem_append.mp hv with hv | hv
    · exact h.fileWrites v hv
    · obtain ⟨f, _, rfl⟩ := List.mem_map.mp hv
      exact h.out w (List.mem_of_getElem? hw)
  · rcases h.covered f hf p hp with hc | ⟨v, hv, hc⟩ | ⟨v, hv, hc⟩
    · exact .inl hc
    · rcases List.mem_cons.mp (hperm.mem_iff.mpr hv) with rfl | hv
      · refine .inr (.inr ⟨⟨f, v.data, v.offset⟩, List.mem_append_right _ ?_, rfl, hc⟩)
        exact List.mem_map_of_mem (List.mem_range.mpr (h.number ▸ hf))
      · exact .inr (.inl ⟨v, hv, hc⟩)
    · exact .inr (.inr ⟨v, List.mem_append_left _ hv, hc⟩)

/-- What has been written to a file was received at its place. -/
theorem Copying.fileDone (h : s.Copying files) {i : ℕ} {w : FileWrite α} (hw : s.fileWrites[i]? = some w)
    {result : ℤ} (hresult : result = w.data.length) (rResume : Answer) :
    ((s.complete i w result).writeToFileCb w result rResume).Copying files := by
  have hperm := eraseIdx_perm hw
  have hpart := h.fileWrites w (List.mem_of_getElem? hw)
  have hcontents : (s.complete i w result).contents =
      Function.update s.contents w.file (store (s.contents w.file) w.offset w.data) := by
    rw [complete, hresult, Int.toNat_natCast, List.take_length]
  unfold writeToFileCb
  rw [if_neg (by omega)]
  refine Copying.input ?_ (readResume_rdoffset _ rResume)
  refine ⟨h.number, h.offset, h.out, fun v hv => h.fileWrites v (List.mem_of_mem_eraseIdx hv),
    fun f p v hv => ?_, fun f hf p hp => ?_⟩
  · change (s.complete i w result).contents f p = some v at hv
    rw [hcontents] at hv
    by_cases hwf : f = w.file
    · rw [hwf, Function.update_self] at hv
      rcases store_some hv with hc | ⟨hle, hd⟩
      · exact h.contents w.file p v hc
      · exact hpart.getElem? hle hd
    · rw [Function.update_of_ne hwf] at hv
      exact h.contents f p v hv
  · change (s.complete i w result).contents f p ≠ none ∨ _
    rw [hcontents]
    by_cases hwf : f = w.file
    · rw [hwf, Function.update_self]
      rcases h.covered f hf p hp with hc | hc | ⟨v, hv, hvf, hc⟩
      · exact .inl (store_ne_none (hwf ▸ hc))
      · exact .inr (.inl hc)
      · rcases List.mem_cons.mp (hperm.mem_iff.mpr hv) with rfl | hv
        · exact .inl (store_covers hc)
        · exact .inr (.inr ⟨v, hv, hvf.trans hwf, hc⟩)
    · rw [Function.update_of_ne hwf]
      rcases h.covered f hf p hp with hc | hc | ⟨v, hv, hvf, hc⟩
      · exact .inl hc
      · exact .inr (.inl hc)
      · rcases List.mem_cons.mp (hperm.mem_iff.mpr hv) with rfl | hv
        · exact absurd hvf.symm hwf
        · exact .inr (.inr ⟨v, hv, hvf, hc⟩)

theorem Copying.transmit (h : s.Copying files) (i n : ℕ) :
    ({ s with out := s.out.modify i fun w => { w with left := w.left - n } } : Tee α).Copying files := by
  obtain ⟨hback, hforth⟩ := mem_transmit s.out i n
  refine ⟨h.number, h.offset, fun w hw => ?_, h.fileWrites, h.contents, fun f hf p hp => ?_⟩
  · obtain ⟨v, hv, hdata, hoffset⟩ := hback w hw
    rw [← hdata, ← hoffset]
    exact h.out v hv
  · rcases h.covered f hf p hp with hc | ⟨v, hv, hc⟩ | hc
    · exact .inl hc
    · obtain ⟨w, hw, hdata, hoffset⟩ := hforth v hv
      rw [hdata, hoffset] at hc
      exact .inr (.inl ⟨w, hw, hc⟩)
    · exact .inr (.inr hc)

/-- Without data the read callback changes the input alone, and not its offset. -/
theorem readCb_nothing (s : Tee α) {nread : ℤ} (data : List α) (ret : ℤ) (sent : ℕ) (rStop rPause : Answer)
    (hpos : ¬ 0 < nread) : ∃ e, s.readCb nread data ret sent rStop rPause = { s with input := e } ∧
      e.rdoffset = s.input.rdoffset := by
  unfold readCb
  by_cases hneg : nread < 0
  · rw [if_pos hneg]
    refine ⟨_, rfl, ?_⟩
    exact (readPause_rdoffset (s.readStop rStop) rPause).trans (readStop_stream (e := s.input) rStop).2.2
  · rw [if_neg hneg, if_neg hpos]
    exact ⟨_, rfl, readPause_rdoffset s rPause⟩

/-- The read callback has put what it was given into the queue. -/
theorem Copying.read (h : s.Copying files) {nread : ℤ} {data : List α}
    (hdata : nread = data.length ∨ nread < 0 ∧ data = []) {ret : ℤ} (hret : 0 ≤ ret) (sent : ℕ)
    (rStop rPause : Answer) :
    let s' := { s with input := enterCb s.input nread }.readCb nread data ret sent rStop rPause
    ({ s' with input := leaveCb s'.input nread, received := s'.received ++ data } : Tee α).Copying files := by
  by_cases hpos : 0 < nread
  · have hn : nread = data.length := by
      rcases hdata with hn | ⟨hneg, _⟩
      · exact hn
      · omega
    obtain ⟨left, hcb⟩ : ∃ left, { s with input := enterCb s.input nread }.readCb nread data ret sent rStop
        rPause = ({ s with
          input := enterCb s.input nread
          out := s.out ++ [⟨data, s.input.rdoffset, left⟩] } : Tee α).readPause rPause := by
      rw [readCb, if_neg (not_lt.mpr hpos.le), if_pos hpos, Tee.run, if_neg (not_lt.mpr hret)]
      exact ⟨_, rfl⟩
    have hoffset := readPause_rdoffset (s := { s with
      input := enterCb s.input nread
      out := s.out ++ [⟨data, s.input.rdoffset, left⟩] }) rPause
    rw [hcb]
    refine h.received data left ?_
    rw [leaveCb, if_pos hpos, hoffset, hn]
    rfl
  · have hnil : data = [] := by
      rcases hdata with hn | ⟨_, hnil⟩
      · exact List.length_eq_zero_iff.mp (by omega)
      · exact hnil
    obtain ⟨e, he, hoffset⟩ := readCb_nothing { s with input := enterCb s.input nread } data ret sent rStop rPause
      hpos
    rw [he, hnil]
    simp only [List.append_nil]
    refine h.input ?_
    rw [leaveCb, if_neg hpos]
    exact hoffset

structure Clean (s : Tee α) : Prop where
  failed : s.failed = 0
  input : s.input.rdcmd ≠ .unknown

theorem Clean.readStop (h : s.Clean) (r : Answer) : (s.readStop r).Clean where
  failed := h.failed
  input := by
    have hcmd : (s.readStop r).input.rdcmd = .stop := (readStop_stream (e := s.input) r).1
    rw [hcmd]
    decide

theorem Clean.readPause (h : s.Clean) (r : Answer) : (s.readPause r).Clean where
  failed := h.failed
  input hu := by
    rcases readPause_stream (e := s.input) _ r with ⟨he, _⟩ | ⟨hcmd, _⟩
    · exact h.input (he ▸ hu)
    · cases hcmd.symm.trans hu

theorem Clean.readResume (h : s.Clean) {r : Answer} (hr : 0 ≤ r.ret) : (s.readResume r).Clean where
  failed := h.failed
  input hu := by
    rcases readResume_stream (e := s.input) _ r with ⟨he, _⟩ | ⟨_, _, hcmd, _⟩
    · exact h.input (he ▸ hu)
    · rw [if_neg (not_lt.mpr hr)] at hcmd
      cases hcmd.symm.trans hu

end Tee

/-- In every run of `tee` with any number of files the program counts the bytes of the
writes to files that are pending and, for good, of those that have failed; and it runs
out of work with an input that is neither stopped nor has refused to resume only when
such a write has failed. -/
theorem tee_stalls_after_failure (files : ℕ) (es : List (TeeEvent α)) :
    ∀ s ∈ visited Tee.step (Tee.init files) es,
      s.fileWriteQueuesSize = BitVec.ofNat 64 (s.pendingBytes + s.failed) ∧
        (s.input.world.reading = false → s.out = [] → s.fileWrites = [] →
          s.input.rdcmd = .stop ∨ s.input.rdcmd = .unknown ∨ 0 < s.failed) := by
  intro s hs
  have h : s.Counted 1 := visited_invariant (fun _ _ _ hs h => Tee.step_counted hs h) es _
    (Tee.init_counted files) s hs
  refine ⟨h.summed.count, fun hr hout hfiles => ?_⟩
  rcases h.flowing.idle hr with hp | hp | hp
  · rcases h.paused hp with hbusy | hbusy | hbusy
    · exact absurd hout hbusy
    · exact absurd hfiles hbusy
    · exact .inr (.inr hbusy)
  · exact .inl hp
  · exact .inr (.inl hp)

def lostBytes : List (TeeEvent ℕ) :=
  [.read 2 [5, 6] 0 1 ⟨0, 0⟩ ⟨0, 0⟩, .outDone 0 0 (fun _ => 0) ⟨0, 0⟩ ⟨0, 0⟩, .fileDone 0 (-28) ⟨0, 0⟩]

theorem lost_bytes_counted : let s := final Tee.step (Tee.init 1) lostBytes
    s.fileWrites = [] ∧ s.fileWriteQueuesSize = BitVec.ofNat 64 (s.pendingBytes + s.failed) ∧ s.failed = 2 := by
  intro s
  exact ⟨rfl, (tee_stalls_after_failure 1 lostBytes s (final_visited lostBytes _)).1, rfl⟩

end Uvcc.Example
