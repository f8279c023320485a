import Uvcc.Machine.Trace

/-!
# Requests at the current file position

A negative offset is replaced by what `lseek64` tells before libuv sees the request. On a
file that can be read at an offset, libuv then does so, and that does not move the
position: requests at the current position, one after another, all work at the same
place. Only on a descriptor without positions does the next one go on where the one before
it has ended. The system calls are parameters, with what their manual pages say of a file
that is not opened for appending and of a pipe.
-/
namespace Uvcc.File
open Machine

variable {α : Type*}

/-! ## Patches -/
section Patches
variable {ι : Type*}

def patch (f : ι → α) (g : ι → Option α) : ι → α := fun i => (g i).getD (f i)

/-- The last patch that has something for an index decides. -/
theorem foldl_patch (gs : List (ι → Option α)) (f : ι → α) (i : ι) :
    gs.foldl patch f i = (gs.reverse.findSome? fun g => g i).getD (f i) := by
  induction gs generalizing f with
  | nil => rfl
  | cons g gs ih =>
    rw [List.foldl_cons, ih, List.reverse_cons, List.findSome?_append]
    cases gs.reverse.findSome? fun g => g i with
    | some v => rfl
    | none => simp [patch]

end Patches

/-- The requests that have an offset in a file; `sendfile` reads from it. -/
inductive FileOp (α : Type*) where
  | read (n : ℕ)
  | write (data : List α)
  | truncate
  | sendfile (n : ℕ)
  deriving DecidableEq, Repr

def FileOp.reads : FileOp α → Bool
  | .read _ => true
  | .sendfile _ => true
  | _ => false

def FileOp.writes : FileOp α → Bool
  | .write _ => true
  | _ => false

/-- A request that has been run with the offset `asked`, and handed to libuv with `offset`. -/
structure Job (α : Type*) where
  op : FileOp α
  asked : ℤ
  offset : ℤ
  deriving DecidableEq, Repr

/-! ## The system calls -/

/-- What libuv and the system make of an open file in the state `F`: `lseek64` by zero from
the current position, the call behind a request with its result and the bytes it has moved,
and data that others write there. -/
structure Syscalls (F α : Type*) where
  lseek64 : F → ℤ
  call : F → Job α → ℕ → Option (F × List α)
  arrive : F → List α → Option F

def overlay (offset : ℕ) (data : List α) (i : ℕ) : Option α := if offset ≤ i then data[i - offset]? else none

def cut [Zero α] (offset i : ℕ) : Option α := if offset ≤ i then some 0 else none

namespace Syscalls
variable {F : Type*} (sys : Syscalls F α)

/-- `pread`, `pwrite`, `ftruncate` and `sendfile` at an offset, on a file that is not opened
for appending and that nobody else writes to; `bytes` is zero behind its size. -/
structure Seekable [Zero α] (bytes : F → ℕ → α) : Prop where
  position : ∀ f, 0 ≤ sys.lseek64 f
  kept : ∀ f j ret r, 0 ≤ j.offset → sys.call f j ret = some r → sys.lseek64 r.1 = sys.lseek64 f
  reads : ∀ f j ret r, 0 ≤ j.offset → j.op.reads = true → sys.call f j ret = some r →
    bytes r.1 = bytes f ∧ ∀ k v, r.2[k]? = some v → v = bytes f (j.offset.toNat + k)
  pwrite : ∀ f j ret r data, 0 ≤ j.offset → j.op = .write data → sys.call f j ret = some r →
    bytes r.1 = patch (bytes f) (overlay j.offset.toNat r.2)
  ftruncate : ∀ f j ret r, 0 ≤ j.offset → j.op = .truncate → sys.call f j ret = some r →
    bytes r.1 = patch (bytes f) (cut j.offset.toNat)
  alone : ∀ f data, sys.arrive f data = none

/-- A pipe, a socket or a terminal: `lseek64` and every call with an offset fail, and each
`read` and `write` moves its bytes in one piece. -/
structure Sequential (incoming outgoing : F → List α) : Prop where
  espipe : ∀ f, sys.lseek64 f = -1
  refused : ∀ f j ret, 0 ≤ j.offset → sys.call f j ret = none
  read : ∀ f j ret r, j.op.reads = true → sys.call f j ret = some r →
    r.2 ++ incoming r.1 = incoming f ∧ outgoing r.1 = outgoing f
  write : ∀ f j ret r, j.op.reads = false → sys.call f j ret = some r →
    incoming r.1 = incoming f ∧ outgoing r.1 = outgoing f ++ if j.op.writes then r.2 else []
  arrive : ∀ f f' data, sys.arrive f data = some f' →
    incoming f' = incoming f ++ data ∧ outgoing f' = outgoing f

end Syscalls

/-! ## The requests -/

/-- A file with the requests that libuv has, and those that were executed without an error,
in their order, each with the bytes that were moved; `arrived` is what has come from
elsewhere. -/
structure Jobs (F α : Type*) where
  file : F
  arrived : List α
  pending : List (Job α)
  done : List (Job α × List α)

/-- Requests with and without a request callback, `try_write`, a thread of the pool that
executes one, and data from elsewhere. -/
inductive JobEvent (α : Type*) where
  | run (op : FileOp α) (asked : ℤ)
  | runSync (op : FileOp α) (asked ret : ℤ)
  | tryWrite (data : List α) (asked ret : ℤ)
  | execute (i : ℕ) (ret : ℤ)
  | arrive (data : List α)
  deriving DecidableEq, Repr

/-- Where the requests work on a descriptor that `lseek64` tells `tell` of. -/
def Job.Placed (tell : ℤ) (j : Job α) : Prop := j.offset = if j.asked < 0 then tell else j.asked

theorem Job.Placed.offset {j : Job α} {position : ℤ} (h : j.Placed position) (hp : 0 ≤ position) :
    0 ≤ j.offset := by
  unfold Job.Placed at h
  split_ifs at h <;> omega

theorem Job.Placed.asked {j : Job α} {tell : ℤ} (h : j.Placed tell) (hoffset : j.offset < 0) : j.asked < 0 := by
  unfold Job.Placed at h
  split_ifs at h <;> omega

namespace Jobs
variable {F : Type*} (sys : Syscalls F α)

def init (f : F) : Jobs F α := ⟨f, [], [], []⟩

def writeQueueSize (s : Jobs F α) : ℕ :=
  (s.pending.map fun j => match j.op with
    | .write data => data.length
    | _ => 0).sum

def runJob (s : Jobs F α) (op : FileOp α) (asked : ℤ) : Job α :=
  ⟨op, asked, if asked < 0 then sys.lseek64 s.file else asked⟩

def execute (s : Jobs F α) (j : Job α) (ret : ℤ) : Option (Jobs F α) :=
  if ret < 0 then some s
  else (sys.call s.file j ret.toNat).map fun r => { s with file := r.1, done := s.done ++ [(j, r.2)] }

def step (s : Jobs F α) : JobEvent α → Option (Jobs F α)
  | .run op asked => some { s with pending := s.pending ++ [s.runJob sys op asked] }
  | .runSync op asked ret => s.execute sys (s.runJob sys op asked) ret
  | .tryWrite data asked ret =>
    if s.writeQueueSize ≠ 0 then some s else s.execute sys (s.runJob sys (.write data) asked) ret
  | .execute i ret =>
    match s.pending[i]? with
    | some j => { s with pending := s.pending.eraseIdx i }.execute sys j ret
    | none => none
  | .arrive data => (sys.arrive s.file data).map fun f => { s with file := f, arrived := s.arrived ++ data }

variable {sys} {s t : Jobs F α} {e : JobEvent α} {j : Job α} {ret tell : ℤ}

theorem execute_cases (h : s.execute sys j ret = some t) :
    t = s ∨ ∃ r, sys.call s.file j ret.toNat = some r ∧
      t = { s with file := r.1, done := s.done ++ [(j, r.2)] } := by
  unfold execute at h
  split_ifs at h
  · exact .inl (Option.some.inj h).symm
  · obtain ⟨r, hcall, rfl⟩ := Option.map_eq_some_iff.mp h
    exact .inr ⟨r, hcall, rfl⟩

end Jobs

/-! ## A file with positions -/

section Seekable
variable [Zero α]

def touched (i : ℕ) (d : Job α × List α) : Option α :=
  match d.1.op with
  | .write _ => overlay d.1.offset.toNat d.2 i
  | .truncate => cut d.1.offset.toNat i
  | _ => none

def byteAfter (bytes : ℕ → α) (done : List (Job α × List α)) (i : ℕ) : α :=
  (done.reverse.findSome? (touched i)).getD (bytes i)

theorem byteAfter_eq_foldl (bytes : ℕ → α) (done : List (Job α × List α)) :
    byteAfter bytes done = (done.map fun d i => touched i d).foldl patch bytes := by
  ext i
  rw [foldl_patch, ← List.map_reverse, List.findSome?_map, byteAfter]
  rfl

theorem byteAfter_append (bytes : ℕ → α) (done : List (Job α × List α)) (d : Job α × List α) :
    byteAfter bytes (done ++ [d]) = patch (byteAfter bytes done) fun i => touched i d := by
  rw [byteAfter_eq_foldl, byteAfter_eq_foldl, List.map_append, List.foldl_append]
  rfl

variable {F : Type*} {sys : Syscalls F α} {bytes : F → ℕ → α} {f : F}

/-- A call changes what it has touched. -/
theorem Syscalls.Seekable.call (hsys : sys.Seekable bytes) {j : Job α} (hj : 0 ≤ j.offset) {ret : ℕ}
    {r : F × List α} (h : sys.call f j ret = some r) :
    bytes r.1 = patch (bytes f) fun i => touched i (j, r.2) := by
  have hread (hreads : j.op.reads = true) (hnone : ∀ i, touched i (j, r.2) = none) :
      bytes r.1 = patch (bytes f) fun i => touched i (j, r.2) := by
    rw [(hsys.reads f j ret r hj hreads h).1]
    ext i
    rw [patch, hnone]
    rfl
  cases hop : j.op with
  | read n => exact hread (by rw [hop]; rfl) fun i => by simp only [touched, hop]
  | sendfile n => exact hread (by rw [hop]; rfl) fun i => by simp only [touched, hop]
  | write data =>
    simp only [touched, hop]
    exact hsys.pwrite f j ret r data hj hop h
  | truncate =>
    simp only [touched, hop]
    exact hsys.ftruncate f j ret r hj hop h

namespace Jobs
variable {s t : Jobs F α} {e : JobEvent α} {j : Job α} {ret : ℤ}

/-- The file keeps its position; its requests have worked there or at the offset that was
asked for, and returned what was there. -/
structure AtPosition (sys : Syscalls F α) (bytes : F → ℕ → α) (f : F) (s : Jobs F α) : Prop where
  position : sys.lseek64 s.file = sys.lseek64 f
  contents : bytes s.file = byteAfter (bytes f) s.done
  done : ∀ d ∈ s.done, d.1.Placed (sys.lseek64 f)
  returned : ∀ l₁ d l₂, s.done = l₁ ++ d :: l₂ → d.1.op.reads = true →
    ∀ k v, d.2[k]? = some v → v = byteAfter (bytes f) l₁ (d.1.offset.toNat + k)

theorem AtPosition.execute (hsys : sys.Seekable bytes) (h : s.AtPosition sys bytes f)
    (hj : j.Placed (sys.lseek64 f)) (hstep : s.execute sys j ret = some t) : t.AtPosition sys bytes f := by
  rcases execute_cases hstep with rfl | ⟨r, hcall, rfl⟩
  · exact h
  · have hoffset := hj.offset (hsys.position f)
    refine ⟨(hsys.kept _ j _ r hoffset hcall).trans h.position, ?_, fun d hd => ?_,
      fun l₁ d l₂ hsplit hreads k v hv => ?_⟩
    · dsimp only
      rw [hsys.call hoffset hcall, h.contents, byteAfter_append]
    · rcases List.mem_append.mp hd with hd | hd
      · exact h.done d hd
      · rw [List.mem_singleton.mp hd]
        exact hj
    · rcases List.eq_nil_or_concat l₂ with rfl | ⟨l, e, rfl⟩
      · obtain ⟨rfl, hd⟩ := List.append_inj' hsplit rfl
        obtain rfl := List.singleton_inj.mp hd
        rw [← h.contents]
        exact (hsys.reads _ _ _ r hoffset hreads hcall).2 k v hv
      · rw [List.concat_eq_append, ← List.cons_append, ← List.append_assoc] at hsplit
        obtain ⟨hdone, _⟩ := List.append_inj' hsplit rfl
        exact h.returned l₁ d l hdone hreads k v hv

end Jobs
end Seekable

/-! ## A descriptor without positions -/

namespace Jobs
variable {F : Type*} {sys : Syscalls F α} {incoming outgoing : F → List α} {f : F}
  {s t : Jobs F α} {e : JobEvent α} {j : Job α} {ret : ℤ}

/-- The requests have taken from what came and added to what has gone. -/
structure GoesOn (sys : Syscalls F α) (incoming outgoing : F → List α) (f : F) (s : Jobs F α) : Prop where
  tells : sys.lseek64 s.file = -1
  taken : (s.done.filter fun d => d.1.op.reads).flatMap Prod.snd ++ incoming s.file = incoming f ++ s.arrived
  gone : outgoing s.file = outgoing f ++ (s.done.filter fun d => d.1.op.writes).flatMap Prod.snd
  done : ∀ d ∈ s.done, d.1.asked < 0

theorem GoesOn.execute (hsys : sys.Sequential incoming outgoing) (h : s.GoesOn sys incoming outgoing f)
    (hj : j.Placed (-1)) (hstep : s.execute sys j ret = some t) : t.GoesOn sys incoming outgoing f := by
  rcases execute_cases hstep with rfl | ⟨r, hcall, rfl⟩
  · exact h
  · have hoffset : j.offset < 0 := by
      by_contra hge
      rw [hsys.refused _ j _ (not_lt.mp hge)] at hcall
      cases hcall
    have hdone : ∀ d ∈ s.done ++ [(j, r.2)], d.1.asked < 0 := fun d hd => by
      rcases List.mem_append.mp hd with hd | hd
      · exact h.done d hd
      · rw [List.mem_singleton.mp hd]
        exact hj.asked hoffset
    cases hreads : j.op.reads with
    | true =>
      obtain ⟨hin, hout⟩ := hsys.read _ j _ r hreads hcall
      have hwrites : j.op.writes = false := by
        cases hop : j.op <;> simp [hop, FileOp.reads, FileOp.writes] at hreads ⊢
      refine ⟨hsys.espipe _, ?_, ?_, hdone⟩
      · simp only [List.filter_append, List.flatMap_append, ← h.taken, ← hin]
        simp [hreads]
      · simp [hout, h.gone, hwrites]
    | false =>
      obtain ⟨hin, hout⟩ := hsys.write _ j _ r hreads hcall
      refine ⟨hsys.espipe _, ?_, ?_, hdone⟩
      · simp [hin, ← h.taken, hreads]
      · rw [hout, h.gone]
        cases hw : j.op.writes <;> simp [hw]

theorem GoesOn.arrive (hsys : sys.Sequential incoming outgoing) (h : s.GoesOn sys incoming outgoing f)
    {data : List α} (hstep : s.step sys (.arrive data) = some t) : t.GoesOn sys incoming outgoing f := by
  simp only [step, Option.map_eq_some_iff] at hstep
  obtain ⟨f', hf, rfl⟩ := hstep
  obtain ⟨hin, hout⟩ := hsys.arrive _ f' data hf
  refine ⟨hsys.espipe _, ?_, hout.trans h.gone, h.done⟩
  dsimp only
  rw [hin, ← List.append_assoc, h.taken, List.append_assoc]

end Jobs

structure RegularFile (α : Type*) where
  bytes : ℕ → α
  size : ℕ
  position : ℕ

def segment (bytes : ℕ → α) (offset n : ℕ) : List α := (List.range n).map fun i => bytes (offset + i)

theorem segment_getElem? {bytes : ℕ → α} {offset n k : ℕ} {v : α} (h : (segment bytes offset n)[k]? = some v) :
    v = bytes (offset + k) := by
  simp only [segment, List.getElem?_map, Option.map_eq_some_iff] at h
  obtain ⟨i, hi, rfl⟩ := h
  obtain ⟨_, rfl⟩ := List.getElem?_eq_some_iff.mp hi
  rw [List.getElem_range]

/-- The calls on an ordinary file, which never get a negative offset. -/
def RegularFile.syscalls [Zero α] : Syscalls (RegularFile α) α where
  lseek64 f := f.position
  call f j ret :=
    let offset := j.offset.toNat
    match j.op with
    | .read n | .sendfile n =>
      if ret ≤ n ∧ ret ≤ f.size - offset then some (f, segment f.bytes offset ret) else none
    | .write data =>
      let moved := data.take ret
      let size := if moved = [] then f.size else max f.size (offset + moved.length)
      some ({ f with bytes := patch f.bytes (overlay offset moved), size := size }, moved)
    | .truncate => some ({ f with bytes := patch f.bytes (cut offset), size := offset }, [])
  arrive _ _ := none

theorem RegularFile.seekable [Zero α] : (syscalls (α := α)).Seekable RegularFile.bytes where
  position f := Int.natCast_nonneg _
  kept f j ret r _ h := by
    cases hop : j.op with
    | read n | sendfile n =>
      simp only [syscalls, hop, Option.ite_none_right_eq_some, Option.some.injEq] at h
      rw [← h.2]
    | write data | truncate =>
      simp only [syscalls, hop, Option.some.injEq] at h
      rw [← h]
      rfl
  reads f j ret r _ hreads h := by
    cases hop : j.op with
    | read n | sendfile n =>
      simp only [syscalls, hop, Option.ite_none_right_eq_some, Option.some.injEq] at h
      rw [← h.2]
      exact ⟨rfl, fun k v hv => segment_getElem? hv⟩
    | write data | truncate => simp [hop, FileOp.reads] at hreads
  pwrite f j ret r data _ hop h := by
    simp only [syscalls, hop, Option.some.injEq] at h
    rw [← h]
  ftruncate f j ret r _ hop h := by
    simp only [syscalls, hop, Option.some.injEq] at h
    rw [← h]
  alone _ _ := rfl

/-- `incoming` can be read, and `outgoing` was written. -/
structure Channel (α : Type*) where
  incoming : List α
  outgoing : List α

def Channel.syscalls : Syscalls (Channel α) α where
  lseek64 _ := -1
  call f j ret :=
    if 0 ≤ j.offset then none
    else match j.op with
      | .read n =>
        if ret ≤ n ∧ ret ≤ f.incoming.length then
          some ({ f with incoming := f.incoming.drop ret }, f.incoming.take ret)
        else none
      | .write data => some ({ f with outgoing := f.outgoing ++ data.take ret }, data.take ret)
      | .truncate | .sendfile _ => none
  arrive f data := some { f with incoming := f.incoming ++ data }

end Uvcc.File
