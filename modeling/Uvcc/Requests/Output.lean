import Uvcc.Machine.Trace

/-!
# An output request over endpoints of several kinds

`uv::output` keeps the properties of `fs::write`, `write` and `udp_send` in one
union, and libuv's three request structures in another. The first word of the
properties is `uv_req` for a file and `uv_buf` for a stream and for UDP; which of
them it is, the destructor tells by the type that the last run has set.
-/
namespace Uvcc.Requests
open Machine

inductive IoType where
  | namedPipe
  | tcp
  | tty
  | udp
  | file
  | other
  deriving DecidableEq, Repr

/-- `uv_req_t::type`, as far as an output request has it. -/
inductive ReqType where
  | req
  | write
  | udpSend
  | fs
  deriving DecidableEq, Repr

/-- A pointer in the first word of the properties. -/
inductive Word where
  | null
  | uvReq
  | uvBuf (b : ℕ)
  deriving DecidableEq, Repr

/-- Who has written the fields of the request structure last. -/
inductive Writer where
  | zeroed
  | uvWrite
  | uvUdpSend
  | uvFsWrite
  deriving DecidableEq, Repr

/-- Fields that `uv_fs_req_cleanup` may read. -/
def Writer.ofFile : Writer → Bool
  | .zeroed | .uvFsWrite => true
  | .uvWrite | .uvUdpSend => false

/-- One call of `run` or, with `attempt`, of `try_output`. `started`: libuv's function
came to initialise the request, which it does not when it refuses its arguments. -/
structure OutputRun where
  io : IoType
  buf : ℕ
  info : Bool
  attempt : Bool
  queueEmpty : Bool
  started : Bool
  deriving DecidableEq, Repr

/-- `cleaned` are the calls of `uv_fs_req_cleanup`, each with the pointer passed and
the writer of the request, and `slotRead` is what the destructor reads as `uv_req`. -/
structure Output where
  type : ReqType
  writer : Writer
  word : Word
  cleaned : List (Word × Writer)
  slotRead : Option Word
  deriving DecidableEq, Repr

namespace Output

/-- The constructor; the storage and the request are zeroed. -/
def create : Output := ⟨.req, .zeroed, .null, [], none⟩

def uvFsReqCleanup (o : Output) (p : Word) : Output := { o with cleaned := o.cleaned ++ [(p, o.writer)] }

def uvStart (o : Output) (w : Writer) (started : Bool) : Output :=
  if started then { o with writer := w } else o

def writeRun (o : Output) (r : OutputRun) : Output :=
  { o with word := .uvBuf r.buf }.uvStart .uvWrite r.started

def udpSendRun (o : Output) (r : OutputRun) : Output :=
  { o with word := .uvBuf r.buf }.uvStart .uvUdpSend r.started

/-- `fs::write::run`, which does not touch the first word with a callback or without. -/
def fsWriteRun (o : Output) (r : OutputRun) : Output :=
  (o.uvFsReqCleanup .uvReq).uvStart .uvFsWrite r.started

def fsTryWrite (o : Output) (r : OutputRun) : Output :=
  if r.queueEmpty then (o.uvFsReqCleanup .uvReq).uvStart .uvFsWrite r.started
  else o.uvFsReqCleanup .uvReq

def runOn (o : Output) (r : OutputRun) : Output :=
  match r.io with
  | .namedPipe | .tcp | .tty => { o with type := .write }.writeRun r
  | .udp =>
    let o' := { o with type := .udpSend }
    if r.info then o'.udpSendRun r else o'
  | .file => { o with type := .fs }.fsWriteRun r
  | .other => o

/-- `output::try_output`; libuv's `try` functions take no request. -/
def tryOutput (o : Output) (r : OutputRun) : Output :=
  match r.io with
  | .namedPipe | .tcp | .tty => { o with type := .write }
  | .udp => { o with type := .udpSend }
  | .file => { o with type := .fs }.fsTryWrite r
  | .other => o

def run (o : Output) (r : OutputRun) : Output := if r.attempt then o.tryOutput r else o.runOn r

def destroy (o : Output) : Output :=
  match o.type with
  | .fs =>
    let o' := { o with slotRead := some o.word }
    if o.word = .null then o' else o'.uvFsReqCleanup o.word
  | .write | .udpSend | .req => o

/-- Only the own request is cleaned up, with fields of a file, and the slot that is
read as `uv_req` is null or points to it. -/
def Sound (o : Output) : Prop :=
  (∀ c ∈ o.cleaned, c.1 = .uvReq ∧ c.2.ofFile) ∧ ∀ p ∈ o.slotRead, p = .null ∨ p = .uvReq

instance (o : Output) : Decidable o.Sound := by unfold Sound; infer_instance

end Output

/-! ## What a run writes -/

namespace OutputRun

def setsType (r : OutputRun) : Option ReqType :=
  match r.io with
  | .namedPipe | .tcp | .tty => some .write
  | .udp => some .udpSend
  | .file => some .fs
  | .other => none

def storesBuf (r : OutputRun) : Option ℕ :=
  match r.io with
  | .namedPipe | .tcp | .tty => if r.attempt then none else some r.buf
  | .udp => if r.attempt || !r.info then none else some r.buf
  | .file | .other => none

def startsAs (r : OutputRun) : Option Writer :=
  match r.io with
  | .namedPipe | .tcp | .tty => if !r.attempt && r.started then some .uvWrite else none
  | .udp => if !r.attempt && r.info && r.started then some .uvUdpSend else none
  | .file => if (!r.attempt || r.queueEmpty) && r.started then some .uvFsWrite else none
  | .other => none

end OutputRun

namespace Output
variable (o : Output) (r : OutputRun) (rs : List OutputRun)

theorem run_spec : o.run r =
    { type := r.setsType.getD o.type
      writer := r.startsAs.getD o.writer
      word := (r.storesBuf.map Word.uvBuf).getD o.word
      cleaned := if r.io = .file then o.cleaned ++ [(.uvReq, o.writer)] else o.cleaned
      slotRead := o.slotRead } := by
  obtain ⟨io, buf, info, attempt, queueEmpty, started⟩ := r
  cases io <;> cases attempt <;> cases info <;> cases queueEmpty <;> cases started <;> rfl

def runs : Output := rs.foldl run o

theorem runs_concat : o.runs (rs ++ [r]) = (o.runs rs).run r := by simp [runs]

theorem type_runs : (create.runs rs).type = lastWrite OutputRun.setsType .req rs := by
  induction rs using List.reverseRecOn with
  | nil => rfl
  | append_singleton rs r ih => rw [runs_concat, run_spec, lastWrite_concat, ih]

theorem writer_runs : (create.runs rs).writer = lastWrite OutputRun.startsAs .zeroed rs := by
  induction rs using List.reverseRecOn with
  | nil => rfl
  | append_singleton rs r ih => rw [runs_concat, run_spec, lastWrite_concat, ih]

theorem word_runs :
    (create.runs rs).word = lastWrite (fun r => r.storesBuf.map Word.uvBuf) .null rs := by
  induction rs using List.reverseRecOn with
  | nil => rfl
  | append_singleton rs r ih => rw [runs_concat, run_spec, lastWrite_concat, ih]

theorem slotRead_runs : (create.runs rs).slotRead = none := by
  induction rs using List.reverseRecOn with
  | nil => rfl
  | append_singleton rs r ih => rw [runs_concat, run_spec, ih]

/-- Every file run has cleaned up what the runs before it left. -/
theorem mem_cleaned_runs (c : Word × Writer) : c ∈ (create.runs rs).cleaned ↔
    ∃ before r after, rs = before ++ r :: after ∧ r.io = .file ∧
      c = (.uvReq, lastWrite OutputRun.startsAs .zeroed before) := by
  induction rs using List.reverseRecOn with
  | nil => simp [runs, create]
  | append_singleton rs r ih =>
    rw [runs_concat, run_spec, writer_runs]
    dsimp only
    constructor
    · intro hc
      split_ifs at hc with hio
      · rcases List.mem_append.mp hc with hc | hc
        · obtain ⟨before, q, after, rfl, hq, rfl⟩ := ih.mp hc
          exact ⟨before, q, after ++ [r], by simp, hq, rfl⟩
        · exact ⟨rs, r, [], rfl, hio, List.mem_singleton.mp hc⟩
      · obtain ⟨before, q, after, rfl, hq, rfl⟩ := ih.mp hc
        exact ⟨before, q, after ++ [r], by simp, hq, rfl⟩
    · rintro ⟨before, q, after, hsplit, hq, rfl⟩
      rcases List.eq_nil_or_concat after with rfl | ⟨after, p, rfl⟩
      · obtain ⟨rfl, hr⟩ := List.append_inj' hsplit rfl
        obtain rfl := List.head_eq_of_cons_eq hr
        rw [if_pos hq]
        simp
      · have hsplit' : rs ++ [r] = (before ++ q :: after) ++ [p] := by simpa using hsplit
        obtain ⟨rfl, -⟩ := List.append_inj' hsplit' rfl
        have hmem := ih.mpr ⟨before, q, after, rfl, hq, rfl⟩
        split_ifs
        · exact List.mem_append_left _ hmem
        · exact hmem

/-! ## The destructor -/

theorem destroy_sound_iff {o : Output} (hslot : o.slotRead = none) (hword : o.word ≠ .uvReq) :
    o.destroy.Sound ↔
      (∀ c ∈ o.cleaned, c.1 = .uvReq ∧ c.2.ofFile) ∧ (o.type = .fs → o.word = .null) := by
  unfold destroy
  cases ht : o.type with
  | fs =>
    by_cases hnull : o.word = .null
    · simp [Sound, hnull]
    · simp [Sound, uvFsReqCleanup, hnull, hword]
  | req => simp [Sound, hslot]
  | write => simp [Sound, hslot]
  | udpSend => simp [Sound, hslot]

theorem word_runs_ne : (create.runs rs).word ≠ .uvReq := by
  induction rs using List.reverseRecOn with
  | nil => decide
  | append_singleton rs r ih =>
    rw [runs_concat, run_spec]
    cases h : r.storesBuf with
    | none => simpa using ih
    | some b => simp

theorem word_runs_null_iff : (create.runs rs).word = .null ↔ ∀ r ∈ rs, r.storesBuf = none := by
  rw [word_runs, lastWrite_eq_initial_iff]
  · simp
  · intro r
    cases r.storesBuf <;> simp

end Output

/-- The order of the runs is one that the unions allow: whenever a file run begins, the
request was last written by a file run or not at all, and if the last run on a known
endpoint is on a file then no run has ever stored a buffer for a stream or for UDP. -/
structure SafeOrder (rs : List OutputRun) : Prop where
  cleaned : ∀ before r after, rs = before ++ r :: after → r.io = .file →
    (lastWrite OutputRun.startsAs .zeroed before).ofFile
  word : lastWrite OutputRun.setsType .req rs = .fs → ∀ r ∈ rs, r.storesBuf = none

/-- For every sequence of runs, up to the destruction of the request. -/
theorem output_reuse_iff (rs : List OutputRun) :
    (Output.create.runs rs).destroy.Sound ↔ SafeOrder rs := by
  rw [Output.destroy_sound_iff (Output.slotRead_runs rs) (Output.word_runs_ne rs),
    Output.type_runs, Output.word_runs_null_iff]
  constructor
  · rintro ⟨hcleaned, hword⟩
    refine ⟨fun before r after hsplit hio => ?_, hword⟩
    exact (hcleaned _ ((Output.mem_cleaned_runs rs _).mpr ⟨before, r, after, hsplit, hio, rfl⟩)).2
  · rintro ⟨hcleaned, hword⟩
    refine ⟨fun c hc => ?_, hword⟩
    obtain ⟨before, r, after, hsplit, hio, rfl⟩ := (Output.mem_cleaned_runs rs c).mp hc
    exact ⟨rfl, hcleaned before r after hsplit hio⟩

def streamThenFile : List OutputRun :=
  [⟨.tcp, 1, false, false, true, true⟩, ⟨.file, 2, false, false, true, true⟩]

theorem output_reuse_stale : ¬ ∀ rs : List OutputRun, (Output.create.runs rs).destroy.Sound := by
  intro h
  have hsound := h streamThenFile
  revert hsound
  decide

end Uvcc.Requests
