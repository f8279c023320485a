import Uvcc.Machine.Trace
import Mathlib.Data.BitVec

/-!
# The write queue size of files

`write_queue_size` of a file is raised by every asynchronous request that is going to
write to it and lowered by the request's failure or completion. All sizes are
`std::size_t`, and what is subtracted at completion is what the properties of the
request have kept.
-/
namespace Uvcc.File
open Machine

inductive WriteReq where
  | write (r : ℕ)
  | output (r : ℕ)
  | sendfile (r : ℕ)
  deriving DecidableEq, Repr

def WriteReq.isSendfile : WriteReq → Bool
  | .write _ | .output _ => false
  | .sendfile _ => true

/-- A request that libuv has taken and has not completed, with what it was submitted for. -/
structure Submission where
  req : WriteReq
  handle : ℕ
  size : BitVec 64
  deriving DecidableEq, Repr

/-- A subtraction from a queue size: the file, the size before, and what is subtracted. -/
structure Dequeue where
  handle : ℕ
  before : BitVec 64
  size : BitVec 64
  deriving DecidableEq, Repr

/-- `uvHandle` is `uv_handle_out` in a `sendfile`. `dequeued` is the subtraction that
the last step has made, if any. -/
structure WriteQueues where
  writeQueueSize : ℕ → BitVec 64
  len : ℕ → List (BitVec 64)
  requestCb : WriteReq → Bool
  uvHandle : WriteReq → ℕ
  pendingSize : WriteReq → BitVec 64
  inFlight : List Submission
  dequeued : Option Dequeue

/-- `ret` is what libuv's function returns at submission, `fd` the descriptor of the output. -/
inductive WriteEvent where
  | setRequestCb (r : WriteReq) (set : Bool)
  | setLen (b : ℕ) (len : List (BitVec 64))
  | run (r : WriteReq) (f b : ℕ) (ret : ℤ)
  | tryWrite (r : WriteReq) (f : ℕ) (ret : ℤ)
  | sendfile (r out : ℕ) (length : BitVec 64) (fd ret : ℤ)
  | complete (r : WriteReq) (result : ℤ)
  deriving DecidableEq, Repr

/-- `try_write` returns an error of its own, or what the synchronous write has returned. -/
inductive TryResult where
  | refused (code : ℤ)
  | written (ret : ℤ)
  deriving DecidableEq, Repr

def UV_EAGAIN : ℤ := -11

namespace WriteQueues

def init : WriteQueues := ⟨fun _ => 0, fun _ => [0], fun _ => false, fun _ => 0, fun _ => 0, [], none⟩

def enqueue (s : WriteQueues) (f : ℕ) (n : BitVec 64) : WriteQueues :=
  { s with writeQueueSize := Function.update s.writeQueueSize f (s.writeQueueSize f + n) }

def dequeue (s : WriteQueues) (f : ℕ) (n : BitVec 64) : WriteQueues :=
  { s with
    writeQueueSize := Function.update s.writeQueueSize f (s.writeQueueSize f - n)
    dequeued := some ⟨f, s.writeQueueSize f, n⟩ }

def record (s : WriteQueues) (r : WriteReq) (f : ℕ) (n : BitVec 64) : WriteQueues :=
  { s with
    uvHandle := Function.update s.uvHandle r f
    pendingSize := Function.update s.pendingSize r n }

def recordHandle (s : WriteQueues) (r : WriteReq) (f : ℕ) : WriteQueues :=
  { s with uvHandle := Function.update s.uvHandle r f }

def submit (s : WriteQueues) (p : Submission) : WriteQueues := { s with inFlight := p :: s.inFlight }

/-- The sum of the `len` fields, as the loop of `fs::write::run` makes it. -/
def wrSize (s : WriteQueues) (b : ℕ) : BitVec 64 := (s.len b).foldl (· + ·) 0

def writeRun (s : WriteQueues) (r : WriteReq) (f b : ℕ) (ret : ℤ) : WriteQueues :=
  if s.requestCb r then
    let n := s.wrSize b
    let s' := (s.record r f n).enqueue f n
    if ret < 0 then s'.dequeue f n else s'.submit ⟨r, f, n⟩
  else s.recordHandle r f

def tryWrite (s : WriteQueues) (r : WriteReq) (f : ℕ) (ret : ℤ) : WriteQueues × TryResult :=
  if s.writeQueueSize f ≠ 0 then (s, .refused UV_EAGAIN) else (s.recordHandle r f, .written ret)

variable (isFile : ℕ → Bool)

def sendfileRun (s : WriteQueues) (r : WriteReq) (out : ℕ) (length : BitVec 64) (fd ret : ℤ) :
    WriteQueues :=
  if fd = -1 then s
  else if s.requestCb r then
    let s' := s.record r out length
    let s'' := if isFile out then s'.enqueue out length else s'
    if ret < 0 then if isFile out then s''.dequeue out length else s''
    else s''.submit ⟨r, out, length⟩
  else s.recordHandle r out

/-- `fs::write::write_cb`, up to the callback. -/
def writeCb (s : WriteQueues) (r : WriteReq) : WriteQueues := s.dequeue (s.uvHandle r) (s.pendingSize r)

/-- `fs::sendfile::sendfile_cb`, up to the callback. -/
def sendfileCb (s : WriteQueues) (r : WriteReq) : WriteQueues :=
  if isFile (s.uvHandle r) then s.dequeue (s.uvHandle r) (s.pendingSize r) else s

/-- libuv completes a request, with whatever result; the callback that the client has
set runs after this step. -/
def complete (s : WriteQueues) (r : WriteReq) (_result : ℤ) : Option WriteQueues :=
  (s.inFlight.find? (·.req = r)).map fun p =>
    let s' := { s with inFlight := s.inFlight.erase p }
    match r with
    | .write _ | .output _ => s'.writeCb r
    | .sendfile _ => s'.sendfileCb isFile r

def Idle (s : WriteQueues) (r : WriteReq) : Prop := ∀ p ∈ s.inFlight, p.req ≠ r

instance (s : WriteQueues) (r : WriteReq) : Decidable (s.Idle r) := by unfold Idle; infer_instance

/-- A request is not run before it has completed, and `fs::write` takes a file; on a
file `output` does what `fs::write` does. -/
def act (s : WriteQueues) : WriteEvent → Option WriteQueues
  | .setRequestCb r set => some { s with requestCb := Function.update s.requestCb r set }
  | .setLen b len => some { s with len := Function.update s.len b len }
  | .run (.sendfile _) _ _ _ | .tryWrite (.sendfile _) _ _ => none
  | .run r f b ret => if isFile f ∧ s.Idle r then some (s.writeRun r f b ret) else none
  | .tryWrite r f ret => if isFile f ∧ s.Idle r then some (s.tryWrite r f ret).1 else none
  | .sendfile r out length fd ret =>
    if s.Idle (.sendfile r) then some (s.sendfileRun isFile (.sendfile r) out length fd ret) else none
  | .complete r result => s.complete isFile r result

def step (s : WriteQueues) (e : WriteEvent) : Option WriteQueues := { s with dequeued := none }.act isFile e

/-! ## What is pending -/

def bytesOn (f : ℕ) (p : Submission) : ℕ := if p.handle = f then p.size.toNat else 0

/-- The sum over the pending requests of what they were submitted with. -/
def pendingBytes (s : WriteQueues) (f : ℕ) : ℕ := (s.inFlight.map (bytesOn f)).sum

/-- The queue sizes are these sums modulo `2 ^ 64`, no subtraction goes below zero while
the sum fits, and every pending request has kept what it was submitted with; only a
`sendfile` may have been submitted for a handle that is not a file. -/
structure Summed (s : WriteQueues) : Prop where
  queue : ∀ f, isFile f → s.writeQueueSize f = BitVec.ofNat 64 (s.pendingBytes f)
  fits : ∀ d ∈ s.dequeued, s.pendingBytes d.handle + d.size.toNat < 2 ^ 64 → d.size ≤ d.before
  kept : ∀ p ∈ s.inFlight, s.uvHandle p.req = p.handle ∧ s.pendingSize p.req = p.size
  files : ∀ p ∈ s.inFlight, p.req.isSendfile = false → isFile p.handle
  nodup : (s.inFlight.map Submission.req).Nodup

variable {isFile} {s t : WriteQueues} {r : WriteReq} {f : ℕ} {n : BitVec 64} {p : Submission}

theorem summed_init : init.Summed isFile where
  queue _ _ := rfl
  fits d hd := by cases hd
  kept p hp := by cases hp
  files p hp := by cases hp
  nodup := List.nodup_nil

/-- A part of a sum that fits is not above it. -/
theorem le_before_of_eq {b q : BitVec 64} {m : ℕ} (hq : q = BitVec.ofNat 64 (m + b.toNat))
    (hm : m + b.toNat < 2 ^ 64) : b ≤ q := by
  rw [hq, BitVec.le_def, BitVec.toNat_ofNat, Nat.mod_eq_of_lt hm]
  exact Nat.le_add_left _ _

theorem pendingBytes_submit (s : WriteQueues) (p : Submission) (f : ℕ) :
    (s.submit p).pendingBytes f = s.pendingBytes f + bytesOn f p := by
  simp [pendingBytes, submit, add_comm]

theorem pendingBytes_erase (hp : p ∈ s.inFlight) (f : ℕ) :
    { s with inFlight := s.inFlight.erase p }.pendingBytes f + bytesOn f p = s.pendingBytes f := by
  rw [add_comm]
  exact List.sum_map_erase (bytesOn f) hp

/-- Nothing that is summed or pending is touched. -/
theorem Summed.idle (hs : s.Summed isFile) (hq : t.writeQueueSize = s.writeQueueSize)
    (hp : t.inFlight = s.inFlight) (hd : t.dequeued = none)
    (hk : ∀ p ∈ s.inFlight, t.uvHandle p.req = s.uvHandle p.req ∧
      t.pendingSize p.req = s.pendingSize p.req) : t.Summed isFile where
  queue f hf := by
    rw [hq, pendingBytes, hp]
    exact hs.queue f hf
  fits d h := by
    rw [hd] at h
    cases h
  kept p h := by
    rw [hp] at h
    rw [(hk p h).1, (hk p h).2]
    exact hs.kept p h
  files p h := by
    rw [hp] at h
    exact hs.files p h
  nodup := by
    rw [hp]
    exact hs.nodup

theorem Summed.reset (hs : s.Summed isFile) : { s with dequeued := none }.Summed isFile :=
  hs.idle rfl rfl rfl fun _ _ => ⟨rfl, rfl⟩

theorem Summed.recordHandle (hs : s.Summed isFile) (hd : s.dequeued = none) (hr : s.Idle r) (f : ℕ) :
    (s.recordHandle r f).Summed isFile := by
  refine hs.idle rfl rfl hd fun p hp => ⟨?_, rfl⟩
  exact Function.update_of_ne (hr p hp) _ _

theorem Summed.record (hs : s.Summed isFile) (hd : s.dequeued = none) (hr : s.Idle r) (f : ℕ)
    (n : BitVec 64) : (s.record r f n).Summed isFile := by
  refine hs.idle rfl rfl hd fun p hp => ⟨?_, ?_⟩
  · exact Function.update_of_ne (hr p hp) _ _
  · exact Function.update_of_ne (hr p hp) _ _

/-! ## Submission -/

/-- The size of a file is raised, and the request is pending. -/
theorem Summed.submit (hs : s.Summed isFile) (hr : s.Idle r) (hd : s.dequeued = none)
    (hf : s.uvHandle r = f) (hn : s.pendingSize r = n) (hfile : r.isSendfile = false → isFile f) :
    ((if isFile f then s.enqueue f n else s).submit ⟨r, f, n⟩).Summed isFile where
  queue g hg := by
    rw [pendingBytes_submit]
    split_ifs with hout
    · by_cases hgf : g = f
      · subst hgf
        have hq := hs.queue g hg
        have hb : bytesOn g ⟨r, g, n⟩ = n.toNat := if_pos rfl
        simp only [WriteQueues.submit, enqueue, Function.update_self, hq, hb]
        rw [BitVec.ofNat_add, BitVec.ofNat_toNat, BitVec.setWidth_eq]
        rfl
      · have hb : bytesOn g ⟨r, f, n⟩ = 0 := if_neg (Ne.symm hgf)
        simp only [WriteQueues.submit, enqueue, Function.update_of_ne hgf, hb]
        exact hs.queue g hg
    · have hgf : f ≠ g := fun h => hout (h ▸ hg)
      have hb : bytesOn g ⟨r, f, n⟩ = 0 := if_neg hgf
      rw [hb]
      exact hs.queue g hg
  fits d h := by
    have hnone : ((if isFile f then s.enqueue f n else s).submit ⟨r, f, n⟩).dequeued = none := by
      split_ifs <;> exact hd
    rw [hnone] at h
    cases h
  kept p hp := by
    have hkept : s.uvHandle p.req = p.handle ∧ s.pendingSize p.req = p.size := by
      have hp' : p = ⟨r, f, n⟩ ∨ p ∈ s.inFlight := by
        split_ifs at hp <;> exact List.mem_cons.mp hp
      rcases hp' with rfl | hp'
      · exact ⟨hf, hn⟩
      · exact hs.kept p hp'
    split_ifs <;> exact hkept
  files p hp := by
    have hp' : p = ⟨r, f, n⟩ ∨ p ∈ s.inFlight := by
      split_ifs at hp <;> exact List.mem_cons.mp hp
    rcases hp' with rfl | hp'
    · exact hfile
    · exact hs.files p hp'
  nodup := by
    have hfresh : r ∉ s.inFlight.map Submission.req := by
      intro hmem
      obtain ⟨p, hp, rfl⟩ := List.mem_map.mp hmem
      exact hr p hp rfl
    have hcons := List.nodup_cons.mpr ⟨hfresh, hs.nodup⟩
    split_ifs <;> exact hcons

/-- libuv refuses: the size is what it was before. -/
theorem Summed.failed (hs : s.Summed isFile) (f : ℕ) (n : BitVec 64) :
    (if isFile f then (if isFile f then s.enqueue f n else s).dequeue f n
      else if isFile f then s.enqueue f n else s).Summed isFile := by
  split_ifs with hfile
  · have hq := hs.queue f hfile
    have hbefore : (s.enqueue f n).writeQueueSize f = s.writeQueueSize f + n := Function.update_self _ _ _
    refine ⟨fun g hg => ?_, fun d h => ?_, hs.kept, hs.files, hs.nodup⟩
    · have hsame : ((s.enqueue f n).dequeue f n).writeQueueSize = s.writeQueueSize := by
        simp [dequeue, enqueue]
      rw [hsame]
      exact hs.queue g hg
    · obtain rfl := Option.mem_some.mp h
      intro hfits
      refine le_before_of_eq ?_ hfits
      rw [hbefore, hq, BitVec.ofNat_add, BitVec.ofNat_toNat, BitVec.setWidth_eq]
      rfl
  · exact hs

/-! ## Completion -/

/-- What the request has kept is what it was submitted with. -/
theorem Summed.complete (hs : s.Summed isFile) (hd : s.dequeued = none) (hp : p ∈ s.inFlight) :
    (if isFile p.handle then { s with inFlight := s.inFlight.erase p }.dequeue p.handle p.size
      else { s with inFlight := s.inFlight.erase p }).Summed isFile := by
  have hsum := pendingBytes_erase hp
  have hnodup : ((s.inFlight.erase p).map Submission.req).Nodup :=
    hs.nodup.sublist (List.erase_sublist.map _)
  have hkept : ∀ q ∈ s.inFlight.erase p, s.uvHandle q.req = q.handle ∧ s.pendingSize q.req = q.size :=
    fun q hq => hs.kept q (List.mem_of_mem_erase hq)
  have hfiles : ∀ q ∈ s.inFlight.erase p, q.req.isSendfile = false → isFile q.handle :=
    fun q hq => hs.files q (List.mem_of_mem_erase hq)
  split_ifs with hfile
  · have hb : bytesOn p.handle p = p.size.toNat := if_pos rfl
    have hq : s.writeQueueSize p.handle = BitVec.ofNat 64
        ({ s with inFlight := s.inFlight.erase p }.pendingBytes p.handle + p.size.toNat) := by
      rw [← hb, hsum]
      exact hs.queue p.handle hfile
    refine ⟨fun g hg => ?_, fun d h => ?_, hkept, hfiles, hnodup⟩
    · by_cases hgf : g = p.handle
      · subst hgf
        simp only [dequeue, Function.update_self, hq]
        rw [BitVec.ofNat_add, BitVec.ofNat_toNat, BitVec.setWidth_eq, BitVec.add_sub_cancel]
        rfl
      · have hb : bytesOn g p = 0 := if_neg (Ne.symm hgf)
        have hg' := hs.queue g hg
        rw [← hsum g, hb, add_zero] at hg'
        simp only [dequeue, Function.update_of_ne hgf]
        exact hg'
    · obtain rfl := Option.mem_some.mp h
      exact le_before_of_eq hq
  · refine ⟨fun g hg => ?_, fun d h => ?_, hkept, hfiles, hnodup⟩
    · have hgf : p.handle ≠ g := fun h => hfile (h ▸ hg)
      have hb : bytesOn g p = 0 := if_neg hgf
      have hg' := hs.queue g hg
      rwa [← hsum g, hb, add_zero] at hg'
    · change d ∈ s.dequeued at h
      rw [hd] at h
      cases h

/-! ## The functions -/

theorem uvHandle_record (s : WriteQueues) (r : WriteReq) (f : ℕ) (n : BitVec 64) :
    (s.record r f n).uvHandle r = f := Function.update_self _ _ _

theorem pendingSize_record (s : WriteQueues) (r : WriteReq) (f : ℕ) (n : BitVec 64) :
    (s.record r f n).pendingSize r = n := Function.update_self _ _ _

theorem Summed.writeRun (hs : s.Summed isFile) (hd : s.dequeued = none) (hr : s.Idle r)
    (hf : isFile f) (b : ℕ) (ret : ℤ) : (s.writeRun r f b ret).Summed isFile := by
  have hrec := hs.record hd hr f (s.wrSize b)
  unfold WriteQueues.writeRun
  dsimp only
  split_ifs
  · simpa only [hf, if_true] using hrec.failed f (s.wrSize b)
  · simpa only [hf, if_true] using
      hrec.submit hr hd (uvHandle_record s r f _) (pendingSize_record s r f _) fun _ => hf
  · exact hs.recordHandle hd hr f

theorem Summed.tryWrite (hs : s.Summed isFile) (hd : s.dequeued = none) (hr : s.Idle r) (f : ℕ)
    (ret : ℤ) : (s.tryWrite r f ret).1.Summed isFile := by
  unfold WriteQueues.tryWrite
  split_ifs
  · exact hs
  · exact hs.recordHandle hd hr f

theorem Summed.sendfileRun (hs : s.Summed isFile) (hd : s.dequeued = none) (hr : s.Idle r)
    (hsend : r.isSendfile = true) (out : ℕ) (length : BitVec 64) (fd ret : ℤ) :
    (s.sendfileRun isFile r out length fd ret).Summed isFile := by
  have hrec := hs.record hd hr out length
  unfold WriteQueues.sendfileRun
  dsimp only
  by_cases hfd : fd = -1
  · rw [if_pos hfd]
    exact hs
  rw [if_neg hfd]
  by_cases hcb : s.requestCb r = true
  · rw [if_pos hcb]
    by_cases hret : ret < 0
    · rw [if_pos hret]
      exact hrec.failed out length
    · rw [if_neg hret]
      refine hrec.submit hr hd (uvHandle_record s r out _) (pendingSize_record s r out _) fun h => ?_
      rw [hsend] at h
      cases h
  · rw [if_neg hcb]
    exact hs.recordHandle hd hr out

theorem Summed.writeCb (hs : s.Summed isFile) (hd : s.dequeued = none) (hp : p ∈ s.inFlight)
    (hsend : p.req.isSendfile = false) :
    ({ s with inFlight := s.inFlight.erase p }.writeCb p.req).Summed isFile := by
  have h := hs.complete hd hp
  rw [if_pos (hs.files p hp hsend), ← (hs.kept p hp).1, ← (hs.kept p hp).2] at h
  exact h

theorem Summed.sendfileCb (hs : s.Summed isFile) (hd : s.dequeued = none) (hp : p ∈ s.inFlight) :
    ({ s with inFlight := s.inFlight.erase p }.sendfileCb isFile p.req).Summed isFile := by
  have h := hs.complete hd hp
  rw [← (hs.kept p hp).1, ← (hs.kept p hp).2] at h
  exact h

theorem find_req (h : s.inFlight.find? (·.req = r) = some p) : p ∈ s.inFlight ∧ p.req = r := by
  refine ⟨List.mem_of_find?_eq_some h, ?_⟩
  simpa using List.find?_some h

/-- One step, whatever the state of the other requests. -/
theorem step_summed {e : WriteEvent} (hs : s.Summed isFile) (h : s.step isFile e = some t) :
    t.Summed isFile := by
  have hs' := hs.reset
  unfold step act at h
  split at h
  case h_1 r set =>
    obtain rfl := Option.some.inj h
    exact hs'.idle rfl rfl rfl fun _ _ => ⟨rfl, rfl⟩
  case h_2 b len =>
    obtain rfl := Option.some.inj h
    exact hs'.idle rfl rfl rfl fun _ _ => ⟨rfl, rfl⟩
  case h_3 => cases h
  case h_4 => cases h
  case h_5 r f b ret _ =>
    split_ifs at h with hok
    obtain rfl := Option.some.inj h
    exact hs'.writeRun rfl hok.2 hok.1 b ret
  case h_6 r f ret _ =>
    split_ifs at h with hok
    obtain rfl := Option.some.inj h
    exact hs'.tryWrite rfl hok.2 f ret
  case h_7 r out length fd ret =>
    split_ifs at h with hok
    obtain rfl := Option.some.inj h
    exact hs'.sendfileRun rfl hok rfl out length fd ret
  case h_8 r result =>
    obtain ⟨p, hfind, rfl⟩ := Option.map_eq_some_iff.mp h
    obtain ⟨hp, rfl⟩ := find_req hfind
    cases hreq : p.req with
    | write r =>
      have h := hs'.writeCb rfl hp (by rw [hreq]; rfl)
      rwa [hreq] at h
    | output r =>
      have h := hs'.writeCb rfl hp (by rw [hreq]; rfl)
      rwa [hreq] at h
    | sendfile r =>
      have h := hs'.sendfileCb rfl hp
      rwa [hreq] at h

/-- `try_write` refuses exactly when the queue size is not zero. -/
theorem tryWrite_refused_iff (s : WriteQueues) (r : WriteReq) (f : ℕ) (ret : ℤ) :
    (s.tryWrite r f ret).2 = .refused UV_EAGAIN ↔ s.writeQueueSize f ≠ 0 := by
  unfold WriteQueues.tryWrite
  split_ifs with hq
  · exact iff_of_true rfl hq
  · exact iff_of_false (by simp) hq

end WriteQueues

/-- In every run, after every step and so in every callback, the write queue size of a
file is the sum of what is pending modulo `2 ^ 64`, no subtraction from it goes below zero
while this sum fits, and `try_write` refuses with `UV_EAGAIN` exactly when it is not zero. -/
theorem write_queue_sums (isFile : ℕ → Bool) (es : List WriteEvent) :
    (∀ s ∈ visited (WriteQueues.step isFile) WriteQueues.init es,
      ∀ f, isFile f → s.writeQueueSize f = BitVec.ofNat 64 (s.pendingBytes f)) ∧
    (∀ s ∈ visited (WriteQueues.step isFile) WriteQueues.init es,
      ∀ d ∈ s.dequeued, s.pendingBytes d.handle + d.size.toNat < 2 ^ 64 → d.size ≤ d.before) ∧
    ∀ s ∈ visited (WriteQueues.step isFile) WriteQueues.init es, ∀ r f ret,
      (s.tryWrite r f ret).2 = .refused UV_EAGAIN ↔ s.writeQueueSize f ≠ 0 := by
  have hall : ∀ s ∈ visited (WriteQueues.step isFile) WriteQueues.init es, s.Summed isFile :=
    visited_invariant (fun s e t hs h => WriteQueues.step_summed hs h) es _ WriteQueues.summed_init
  refine ⟨fun s hs => (hall s hs).queue, fun s hs => (hall s hs).fits, fun s _ r f ret => ?_⟩
  exact s.tryWrite_refused_iff r f ret

end Uvcc.File
