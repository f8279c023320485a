import Uvcc.Io.ReadOffsets
import Uvcc.File.ReadChain

/-!
# Where a chain of file reads reads

A chain is begun by `read_start`, it is stopped or paused inside its read callbacks and
resumed between them. Its only memory is `rdoffset`: every
`uv_fs_read` is issued there, and every positive count is added to it. An offset that
`lseek64` could not resolve takes part in this like any other.
-/
namespace Uvcc.File
open Machine Io

def Tells (seekable : Bool) (tell : ℤ) : Prop := if seekable then 0 ≤ tell else tell = -1

instance (b : Bool) (tell : ℤ) : Decidable (Tells b tell) := by unfold Tells; infer_instance

/-- A chain with the offset that its start resolved to and the bytes returned so far; for
each `uv_fs_read` its offset beside the bytes returned before it, and for each callback the
reported offset, the offset its read was issued at and the bytes returned before it. -/
structure Chain where
  reading : Reading
  seekable : Bool
  start : ℤ
  received : ℤ
  issued : List (ℤ × ℤ)
  reported : List (ℤ × ℤ × ℤ)
  deriving DecidableEq, Repr

namespace Chain

def submits (s : Reading) : Event → Bool
  | .readStart _ _ _ _ => s.endpoint.allocCb && s.endpoint.readCb
  | .readResume trigger _ => trigger && decide (s.endpoint.rdcmd = .pause)
  | .allocCbEnd _ => true
  | _ => false

def issue (c : Chain) (e : Event) (t : Reading) : Chain :=
  { c with
    reading := t
    issued := if submits c.reading e then c.issued ++ [(t.endpoint.rdoffset, c.received)] else c.issued }

def record (c : Chain) : Event → Reading → Chain
  | .readCb i _, t =>
    match t.frame, c.reading.endpoint.world.inFlight[i]? with
    | some f, some o => { c with
        reading := t
        received := c.received + max f.nread 0
        reported := c.reported ++ [(f.offset, o, c.received)] }
    | _, _ => { c with reading := t }
  | e, t => c.issue e t

/-- The commands of a chain and their places; closing the file stops it. -/
def Allowed (c : Chain) : Event → Prop
  | .readStart _ _ _ _ => False
  | .readStop _ | .readPause _ _ | .closeSync | .closeAsync _ => ∃ f ∈ c.reading.frame, f.alloc = false
  | .readResume _ r => c.reading.frame = none ∧ Tells c.seekable r.tell
  | _ => True

instance (c : Chain) (e : Event) : Decidable (c.Allowed e) := by
  cases e with
  | readStop r | readPause b r | closeSync | closeAsync r =>
    exact decidable_of_iff (c.reading.frame.any (fun f => !f.alloc) = true) (by simp [Allowed, Option.any_eq_true])
  | _ => unfold Allowed; infer_instance

def begin (s : Reading) (seekable : Bool) (size : ℕ) (offset : ℤ) (rStop r : Answer) : Option Chain :=
  if s.kind = .file ∧ submits s (.readStart size offset rStop r) = true ∧ Tells seekable r.tell then
    (s.step (.readStart size offset rStop r)).map
      (issue ⟨s, seekable, if offset < 0 then r.tell else offset, 0, [], []⟩ (.readStart size offset rStop r))
  else none

def step (c : Chain) (e : Event) : Option Chain :=
  if c.Allowed e then (c.reading.step e).map (c.record e) else none

/-- Where to read after so many bytes; at the current file position if it is not known. -/
def place (c : Chain) (received : ℤ) : ℤ := if 0 ≤ c.start then c.start + received else -1

/-- No gap and no overlap: every read is issued at its place, and a known one is reported. -/
structure Covers (c : Chain) : Prop where
  issued : ∀ x ∈ c.issued, x.1 = c.place x.2
  reported : 0 ≤ c.start → ∀ x ∈ c.reported, x.1 = x.2.1 ∧ x.1 = c.place x.2.2

instance (c : Chain) : Decidable c.Covers :=
  decidable_of_iff ((∀ x ∈ c.issued, x.1 = c.place x.2) ∧
      (0 ≤ c.start → ∀ x ∈ c.reported, x.1 = x.2.1 ∧ x.1 = c.place x.2.2))
    ⟨fun h => ⟨h.1, h.2⟩, fun h => ⟨h.issued, h.reported⟩⟩

/-- The place of a further read is known, or no byte has been returned. -/
def Resolved (c : Chain) (e : Event) : Prop :=
  submits c.reading e = true → 0 ≤ c.start ∨ c.received = 0

def AtRest (s : Reading) : Prop := s.frame = none ∧ s.endpoint.world.inFlight = []

end Chain

/-! ## A file between two reads -/

/-- The position of a file, and its reads: none inside a callback or while the file is
not read, and at most one otherwise, at the position. Nothing stops the file inside an
allocation callback. -/
structure AtOffset (s : Reading) (x : ℤ) : Prop where
  kind : s.kind = .file
  position : s.position = x
  idle : s.frame.isSome = true ∨ s.endpoint.rdcmd.reading = false → s.endpoint.world.inFlight = []
  inFlight : s.endpoint.world.inFlight = [] ∨ s.endpoint.world.inFlight = [s.endpoint.rdoffset]
  allocates : ∀ f, s.frame = some f → f.alloc = true → s.endpoint.rdcmd.reading = true

section Steps
variable {s t : Reading} {x : ℤ}

theorem AtOffset.rdoffset (h : AtOffset s x) (hf : s.frame = none) : s.endpoint.rdoffset = x := by
  rw [← h.position, Reading.position, Reading.pending, hf, add_zero]

/-- Nothing is submitted or completed, and only a read callback stops the file. -/
theorem AtOffset.quiet (h : AtOffset s x) (hk : t.kind = s.kind)
    (ho : t.endpoint.rdoffset = s.endpoint.rdoffset)
    (hw : t.endpoint.world.inFlight = s.endpoint.world.inFlight) (hf : t.frame = s.frame)
    (hc : t.endpoint.rdcmd.reading = false →
      (∃ f ∈ s.frame, f.alloc = false) ∨ s.endpoint.rdcmd.reading = false) :
    AtOffset t x where
  kind := hk.trans h.kind
  position := (Reading.position_congr ho (by rw [hf])).trans h.position
  idle hidle := by
    rw [hw]
    rcases hidle with hfr | hr
    · exact h.idle (.inl (hf ▸ hfr))
    · rcases hc hr with ⟨f, hsome, _⟩ | hread
      · exact h.idle (.inl (Option.isSome_of_mem hsome))
      · exact h.idle (.inr hread)
  inFlight := by
    rw [hw, ho]
    exact h.inFlight
  allocates f hsome halloc := by
    rw [hf] at hsome
    by_contra hidle
    rw [Bool.not_eq_true] at hidle
    rcases hc hidle with ⟨g, hg, hread⟩ | hread
    · obtain rfl : g = f := Option.mem_unique hg hsome
      rw [halloc] at hread
      cases hread
    · rw [h.allocates f hsome halloc] at hread
      cases hread

theorem AtOffset.command {result : Endpoint Libuv × ℤ} (h : AtOffset s x)
    (ho : result.1.rdoffset = s.endpoint.rdoffset)
    (hw : result.1.world.inFlight = s.endpoint.world.inFlight)
    (hc : result.1.rdcmd.reading = false →
      (∃ f ∈ s.frame, f.alloc = false) ∨ s.endpoint.rdcmd.reading = false)
    (hs : s.command result = some t) : AtOffset t x := by
  simp only [Reading.command, Option.ite_none_left_eq_some, Option.some.injEq] at hs
  obtain ⟨_, rfl⟩ := hs
  exact h.quiet rfl ho hw rfl hc

/-- A variable or a close request is gone. -/
theorem AtOffset.drops (h : AtOffset s x) (hd : Reading.Drops s t) : AtOffset t x :=
  h.quiet hd.kind (by rw [hd.endpoint]; rfl) (by rw [hd.endpoint]; rfl) hd.frame
    (by rw [hd.endpoint]; exact .inr)

/-- The argument of a callback is moved out. -/
theorem AtOffset.moveArg (h : AtOffset s x) (hm : s.step .moveArg = some t) : AtOffset t x := by
  simp only [Reading.step] at hm
  cases hf : s.frame with
  | none => simp [hf] at hm
  | some f =>
    simp only [hf, Option.ite_none_right_eq_some, Option.some.injEq] at hm
    obtain ⟨_, rfl⟩ := hm
    have hsome : s.frame.isSome = true := by rw [hf]; rfl
    have hpos : Reading.position { s with frame := some { f with arg := false }, vars := s.vars + 1 } =
        s.position := Reading.position_congr rfl (by rw [hf]; rfl)
    refine ⟨h.kind, hpos.trans h.position, fun _ => h.idle (.inl hsome), h.inFlight, ?_⟩
    intro g hg halloc
    obtain rfl := Option.some.inj hg
    exact h.allocates f hf halloc

/-- A file at rest has one read in flight after a submission, or is not read. -/
theorem submit_offset (s : Endpoint Libuv) (offset : ℤ) (r : Answer) (hw : s.world.inFlight = []) :
    (s.submit fileInterface offset r).1.rdoffset = (if offset < 0 then r.tell else offset) ∧
    ((s.submit fileInterface offset r).1.rdcmd.reading = false →
      (s.submit fileInterface offset r).1.world.inFlight = [] ∨ s.rdcmd.reading = false) ∧
    ((s.submit fileInterface offset r).1.world.inFlight = [] ∨
      (s.submit fileInterface offset r).1.world.inFlight =
        [(s.submit fileInterface offset r).1.rdoffset]) := by
  have hoff := rdoffset_submit s fileInterface offset r
  refine ⟨hoff, ?_⟩
  by_cases hr : r.ret < 0
  · have hnone : (s.submit fileInterface offset r).1.world.inFlight = [] := by
      simp [Endpoint.submit, Endpoint.startStatus, Endpoint.startReading, fileInterface, fileRead, hr,
        Endpoint.unref, Endpoint.uvStatus, hw]
    exact ⟨fun _ => .inl hnone, .inl hnone⟩
  · have hcmd : (s.submit fileInterface offset r).1.rdcmd = s.rdcmd := by
      simp [Endpoint.submit, Endpoint.startStatus, Endpoint.startReading, fileInterface, hr,
        Endpoint.uvStatus]
    have hone : (s.submit fileInterface offset r).1.world.inFlight =
        [if offset < 0 then r.tell else offset] := by
      simp [Endpoint.submit, Endpoint.startStatus, Endpoint.startReading, fileInterface, fileRead, hr,
        Endpoint.uvStatus, hw]
    exact ⟨fun hidle => .inr (hcmd ▸ hidle), .inr (by rw [hone, hoff]; rfl)⟩

/-- A start or a resume between the callbacks puts the one read at the offset it resolves. -/
theorem submit_atOffset {e : Endpoint Libuv} {offset : ℤ} {r : Answer} (hk : s.kind = .file)
    (hf : s.frame = none) (hw : e.world.inFlight = []) (hc : e.rdcmd.reading = true)
    (h : s.command (e.submit fileInterface offset r) = some t) :
    AtOffset t (if offset < 0 then r.tell else offset) ∧ t.frame = none := by
  obtain ⟨hoff, hidle, hin⟩ := submit_offset e offset r hw
  simp only [Reading.command, Option.ite_none_left_eq_some, Option.some.injEq] at h
  obtain ⟨_, rfl⟩ := h
  refine ⟨⟨hk, ?_, ?_, hin, fun f hsome => by simp [hf] at hsome⟩, hf⟩
  · simpa [Reading.position, Reading.pending, hf] using hoff
  · rintro (hfr | hr)
    · simp [hf] at hfr
    · rcases hidle hr with hnone | hread
      · exact hnone
      · rw [hc] at hread
        cases hread

theorem readStart_atOffset {size : ℕ} {offset : ℤ} {rStop r : Answer} (hk : s.kind = .file)
    (hf : s.frame = none) (hw : s.endpoint.world.inFlight = [])
    (hsub : Chain.submits s (.readStart size offset rStop r) = true)
    (h : s.step (.readStart size offset rStop r) = some t) :
    AtOffset t (if offset < 0 then r.tell else offset) ∧ t.frame = none := by
  have hi : s.kind.interface = fileInterface := by rw [hk]; rfl
  rw [Chain.submits, Bool.and_eq_true] at hsub
  simp only [Reading.step, hi] at h
  rcases readStart_file s.endpoint size offset rStop r with ⟨hcb, _⟩ | ⟨_, _, e, hc, he, hsubmit⟩
  · exact absurd hsub hcb
  · rw [hsubmit] at h
    exact submit_atOffset hk hf (by rw [he]; exact hw) (by rw [hc]; rfl) h

/-- A resume after a pause reads on where the file stands. -/
theorem readResume_atOffset {trigger : Bool} {r : Answer} (hs : AtOffset s x) (hf : s.frame = none)
    (htell : x < 0 → r.tell = x) (h : s.step (.readResume trigger r) = some t) :
    AtOffset t x ∧ t.frame = none := by
  have hi : s.kind.interface = fileInterface := by rw [hs.kind]; rfl
  have hx : (if s.endpoint.rdoffset < 0 then r.tell else s.endpoint.rdoffset) = x := by
    rw [hs.rdoffset hf]
    split_ifs with hneg
    · exact htell hneg
    · rfl
  simp only [Reading.step, hi] at h
  rcases readResume_file s.endpoint trigger r with ⟨_, he⟩ | ⟨_, hc, e, hc', he, hsubmit⟩
  · have hframe := (Reading.command_frame h).2
    exact ⟨hs.command (by rw [he]) (by rw [he]) (by rw [he]; exact .inr) h, hframe.trans hf⟩
  · have hw : e.world.inFlight = [] := by
      rw [he]
      exact hs.idle (.inr (by rw [hc]; rfl))
    rw [hsubmit] at h
    rw [← hx]
    exact submit_atOffset hs.kind hf hw (by rw [hc']; rfl) h

/-- A completed read was issued at the position, which its callback reports. -/
theorem readCb_atOffset {i : ℕ} {result : ℤ} (hs : AtOffset s x) (h : s.step (.readCb i result) = some t) :
    ∃ f, t.frame = some f ∧ f.offset = x ∧ s.endpoint.world.inFlight[i]? = some x ∧
      AtOffset t (x + max f.nread 0) := by
  simp only [Reading.step, Option.ite_none_left_eq_some, not_or, Option.not_isSome_iff_eq_none, hs.kind,
    Option.ite_none_right_eq_some, Option.some.injEq] at h
  obtain ⟨⟨hf, _⟩, hi, rfl⟩ := h
  have hoff : s.endpoint.rdoffset = x := hs.rdoffset hf
  have hone : s.endpoint.world.inFlight = [x] := by
    rcases hs.inFlight with hnone | hone
    · simp [hnone] at hi
    · rw [hone, hoff]
  have hi0 : i = 0 := by
    rw [hone, List.length_singleton] at hi
    omega
  set nread := if result = 0 then uvEOF else result
  have hnil : ((s.complete i).enter nread).endpoint.world.inFlight = [] := by
    simp [Reading.enter, Reading.complete, hone, hi0]
  refine ⟨⟨nread, s.endpoint.rdoffset, true, false⟩, rfl, hoff, by rw [hone, hi0]; rfl, hs.kind, ?_,
    fun _ => hnil, .inl hnil, fun f hsome halloc => ?_⟩
  swap
  · obtain rfl := Option.some.inj hsome
    cases halloc
  rw [← hoff]
  rfl

/-- After the callback the file stands where it stood, with nothing submitted yet. -/
theorem readCbEnd_atOffset (hs : AtOffset s x) (h : s.step .readCbEnd = some t) : AtOffset t x := by
  obtain ⟨f, hf, _, hr⟩ := Reading.readCbEnd_returns h
  have hnil : t.endpoint.world.inFlight = [] := by
    rw [hr.world]
    exact hs.idle (.inl (by rw [hf]; rfl))
  refine ⟨hr.kind.trans hs.kind, (Reading.position_readCbEnd h).trans hs.position, fun _ => hnil, .inl hnil, ?_⟩
  intro g hg _
  rw [hr.rdcmd]
  by_contra hidle
  have hframe := hr.frame
  rw [if_neg (by simp [Reading.readsOn, hidle]), hg] at hframe
  cases hframe

/-- The tail of `file::read_cb` reads on at the position. -/
theorem allocCbEnd_atOffset {r : Answer} (hs : AtOffset s x) (h : s.step (.allocCbEnd r) = some t) :
    AtOffset t x ∧ t.frame = none := by
  obtain ⟨f, hf, halloc, hr⟩ := Reading.allocCbEnd_submits h
  have hnil : s.endpoint.world.inFlight = [] := hs.idle (.inl (by rw [hf]; rfl))
  have hin : t.endpoint.world.inFlight = [] ∨ t.endpoint.world.inFlight = [t.endpoint.rdoffset] := by
    rw [hr.world, fileRead, hr.rdoffset]
    split_ifs
    · exact .inl hnil
    · exact .inr (by rw [hnil]; rfl)
  refine ⟨⟨hr.kind.trans hs.kind, (Reading.position_allocCbEnd h).trans hs.position, ?_, hin, ?_⟩, hr.frame⟩
  · rintro (hfr | hread)
    · simp [hr.frame] at hfr
    · rw [hr.rdcmd, hs.allocates f hf halloc] at hread
      cases hread
  · intro g hg
    rw [hr.frame] at hg
    cases hg

/-- Everything else leaves the position and the reads alone; a stop is allowed only
where no read is in flight. -/
theorem other_atOffset {e : Event} {c : Chain} (hs : AtOffset c.reading x) (hallow : c.Allowed e)
    (h : c.reading.step e = some t)
    (hcb : ∀ i result, e ≠ .readCb i result) (hend : ∀ r, e ≠ .allocCbEnd r)
    (hres : ∀ b r, e ≠ .readResume b r) : AtOffset t x := by
  have hi : c.reading.kind.interface = fileInterface := by rw [hs.kind]; rfl
  cases e with
  | copy =>
    simp only [Reading.step, Option.ite_none_left_eq_some, Option.some.injEq] at h
    obtain ⟨_, rfl⟩ := h
    exact hs.quiet rfl rfl rfl rfl .inr
  | drop => exact hs.drops (Reading.drop_drops h)
  | closeDone => exact hs.drops (Reading.closeDone_drops h)
  | moveArg => exact hs.moveArg h
  | setCallbacks => exact hs.command rfl rfl .inr h
  | readStart size offset rStop r => exact absurd hallow id
  | readStop r =>
    simp only [Reading.step, hi] at h
    exact hs.command (rdoffset_readStop _ fileInterface r) (by rw [(readStop_file _ r).1])
      (fun _ => .inl hallow) h
  | readPause b r =>
    simp only [Reading.step, hi] at h
    exact hs.command (rdoffset_readPause _ fileInterface b r) (by rw [(readPause_file _ b r).1])
      (fun _ => .inl hallow) h
  | readResume b r => exact absurd rfl (hres b r)
  | closeSync =>
    simp only [Reading.step, hi, Option.ite_none_right_eq_some] at h
    exact hs.command (rdoffset_readStop _ fileInterface _) (by rw [(readStop_file _ _).1])
      (fun _ => .inl hallow) h.2
  | closeAsync ret =>
    simp only [Reading.step, hi, Option.ite_none_right_eq_some] at h
    have ho : (c.reading.endpoint.ref.readStop fileInterface ⟨0, 0⟩).1.rdoffset =
        c.reading.endpoint.rdoffset := rdoffset_readStop _ fileInterface _
    have hw : (c.reading.endpoint.ref.readStop fileInterface ⟨0, 0⟩).1.world =
        c.reading.endpoint.world := (readStop_file _ _).1
    have hclose := h.2
    split_ifs at hclose
    · obtain rfl := Option.some.inj hclose
      exact hs.quiet rfl ho (congrArg Libuv.inFlight hw) rfl fun _ => .inl hallow
    · obtain rfl := Option.some.inj hclose
      exact hs.quiet rfl ho (congrArg Libuv.inFlight hw) rfl fun _ => .inl hallow
  | readCb i result => exact absurd rfl (hcb i result)
  | readCbEnd => exact readCbEnd_atOffset hs h
  | allocCbEnd r => exact absurd rfl (hend r)

end Steps

/-! ## The chain -/

namespace Chain
variable {c d : Chain} {t : Reading} {e : Event}

/-- The file stands at the start plus what was returned, also where the start is the
offset that could not be resolved. -/
structure Inv (c : Chain) : Prop where
  at_offset : AtOffset c.reading (c.start + c.received)
  received : 0 ≤ c.received
  unresolved : c.start < 0 → c.start = -1 ∧ c.seekable = false
  covers : c.Covers

theorem place_eq (h : c.start < 0 → c.start = -1 ∧ c.seekable = false) :
    c.start + c.received = c.place c.received ↔ 0 ≤ c.start ∨ c.received = 0 := by
  unfold place
  split_ifs with hs
  · simp [hs]
  · have hneg := (h (by omega)).1
    omega

/-- What the start resolved to, as far as `lseek64` knows. -/
theorem begin_start {s : Reading} {seekable : Bool} {size : ℕ} {offset : ℤ} {rStop r : Answer}
    (h : begin s seekable size offset rStop r = some c) :
    s.kind = .file ∧ submits s (.readStart size offset rStop r) = true ∧
      (c.start < 0 → c.start = -1 ∧ c.seekable = false) ∧
      c.start = (if offset < 0 then r.tell else offset) ∧ c.received = 0 ∧
      c.issued = [(c.reading.endpoint.rdoffset, 0)] ∧ c.reported = [] ∧
      s.step (.readStart size offset rStop r) = some c.reading := by
  simp only [begin, Option.ite_none_right_eq_some, Option.map_eq_some_iff] at h
  obtain ⟨⟨hk, hsub, htell⟩, t, ht, rfl⟩ := h
  refine ⟨hk, hsub, fun hneg => ?_, rfl, rfl, by simp [issue, hsub], rfl, ht⟩
  simp only [issue] at hneg ⊢
  split_ifs at hneg ⊢ with ho
  · cases seekable with
    | true => exact absurd htell (not_le.mpr hneg)
    | false => exact ⟨htell, rfl⟩
  · exact absurd hneg ho

theorem begin_inv {s : Reading} {seekable : Bool} {size : ℕ} {offset : ℤ} {rStop r : Answer}
    (h : begin s seekable size offset rStop r = some c) (hrest : AtRest s) : c.Inv := by
  obtain ⟨hk, hsub, hneg, hstart, hrec, hissued, hrep, ht⟩ := begin_start h
  obtain ⟨hat, hframe⟩ := readStart_atOffset hk hrest.1 hrest.2 hsub ht
  rw [← hstart] at hat
  have hplace : c.start + c.received = c.place c.received := (place_eq hneg).mpr (.inr hrec)
  refine ⟨by rw [hrec, add_zero]; exact hat, hrec.ge, hneg, ?_, ?_⟩
  · intro p hp
    rw [hissued, List.mem_singleton] at hp
    rw [hp, hat.rdoffset hframe, ← hrec, ← hplace, hrec, add_zero]
  · intro _ p hp
    rw [hrep] at hp
    cases hp

/-- A step that submits does so where the file stands, which is the place of the read
only under the condition. -/
theorem Inv.issue (hc : c.Inv) (hat : AtOffset t (c.start + c.received))
    (hoff : submits c.reading e = true → t.endpoint.rdoffset = c.start + c.received) :
    (c.Resolved e → (c.issue e t).Inv) ∧ ((c.issue e t).Covers → c.Resolved e) := by
  have hplace := place_eq hc.unresolved
  constructor
  · intro hok
    refine ⟨hat, hc.received, hc.unresolved, ?_, hc.covers.reported⟩
    unfold Chain.issue
    split_ifs with hsub
    · simp only [List.forall_mem_append, List.forall_mem_singleton]
      exact ⟨hc.covers.issued, (hoff hsub).trans (hplace.mpr (hok hsub))⟩
    · exact hc.covers.issued
  · intro hcov hsub
    have hlast := hcov.issued (t.endpoint.rdoffset, c.received) (by simp [Chain.issue, hsub])
    exact hplace.mp ((hoff hsub).symm.trans hlast)

theorem Inv.readCb {i : ℕ} {result : ℤ} (hc : c.Inv) (h : c.reading.step (.readCb i result) = some t) :
    (c.record (.readCb i result) t).Inv := by
  obtain ⟨f, hf, hoff, hi, hat⟩ := readCb_atOffset hc.at_offset h
  simp only [record, hf, hi]
  refine ⟨by simpa [add_assoc] using hat, ?_, hc.unresolved, hc.covers.issued, ?_⟩
  · have hr := hc.received
    have hmax := le_max_right f.nread 0
    exact add_nonneg hr hmax
  · intro hs
    simp only [List.forall_mem_append, List.forall_mem_singleton, hoff]
    exact ⟨hc.covers.reported hs, trivial, (place_eq hc.unresolved).mpr (.inl hs)⟩

theorem step_inv (hc : c.Inv) (h : c.step e = some d) :
    (c.Resolved e → d.Inv) ∧ (d.Covers → c.Resolved e) := by
  simp only [step, Option.ite_none_right_eq_some, Option.map_eq_some_iff] at h
  obtain ⟨hallow, t, ht, rfl⟩ := h
  cases e with
  | readCb i result => exact ⟨fun _ => hc.readCb ht, fun _ hsub => by cases hsub⟩
  | allocCbEnd r =>
    obtain ⟨hat, hframe⟩ := allocCbEnd_atOffset hc.at_offset ht
    exact hc.issue hat fun _ => hat.rdoffset hframe
  | readResume b r =>
    have htell : c.start + c.received < 0 → r.tell = c.start + c.received := by
      intro hneg
      have hr := hc.received
      obtain ⟨hs, hseek⟩ := hc.unresolved (by omega)
      have htell := hallow.2
      rw [hseek] at htell
      have htell' : r.tell = -1 := htell
      omega
    obtain ⟨hat, hframe⟩ := readResume_atOffset hc.at_offset hallow.1 htell ht
    exact hc.issue hat fun _ => hat.rdoffset hframe
  | readStart size offset rStop r => exact absurd hallow id
  | _ =>
    have hat := other_atOffset hc.at_offset hallow ht (by simp) (by simp) (by simp)
    exact hc.issue hat fun hsub => by cases hsub

/-! ### Chains that are not begun at rest -/

/-- Some run of the chain leaves a gap or overlaps. -/
def Strays (c : Chain) : Prop := ∃ es, ∃ d ∈ visited Chain.step c es, ¬ d.Covers

theorem strays_self (h : ¬ c.Covers) : c.Strays := ⟨[], c, by simp [visited], h⟩

theorem strays_step (h : c.step e = some d) (hd : d.Strays) : c.Strays := by
  obtain ⟨es, b, hb, hbad⟩ := hd
  exact ⟨e :: es, b, by rw [visited_some h]; exact List.mem_cons_of_mem _ hb, hbad⟩

/-- A chain that goes on, with the offset at which it stands and the reads in flight. -/
structure Goes (c : Chain) (x : ℤ) (l : List ℤ) : Prop where
  kind : c.reading.kind = .file
  counted : c.reading.Counted
  reading : c.reading.endpoint.rdcmd.reading = true
  position : c.reading.position = x
  inFlight : c.reading.endpoint.world.inFlight = l

section Goes
variable {x : ℤ} {l : List ℤ}

theorem strays_allocCbEnd (hc : c.Goes x l) {f : Frame} (hf : c.reading.frame = some f) (ha : f.alloc = true)
    (hnext : ∀ d : Chain, d.Goes x (l ++ [x]) → d.reading.frame = none → d.start = c.start →
      (x, c.received) ∈ d.issued → d.Strays) : c.Strays := by
  obtain ⟨t, ht⟩ : ∃ t, c.reading.step (.allocCbEnd ⟨0, 0⟩) = some t := ⟨_, by simp [Reading.step, hf, ha]; rfl⟩
  obtain ⟨_, _, _, hr⟩ := Reading.allocCbEnd_submits ht
  have hoff : c.reading.endpoint.rdoffset = x := by
    rw [← hc.position, Reading.position, Reading.pending, hf]
    simp [Frame.adds, ha]
  have hin : t.endpoint.world.inFlight = l ++ [x] := by
    rw [hr.world, fileRead, if_neg (lt_irrefl _), hc.inFlight, hoff]
  have hstep : c.step (.allocCbEnd ⟨0, 0⟩) = some (c.issue (.allocCbEnd ⟨0, 0⟩) t) := by
    simp [step, Allowed, ht, record]
  refine strays_step hstep (hnext _ ⟨hr.kind.trans hc.kind, hr.counted hc.counted, ?_, ?_, hin⟩ hr.frame rfl ?_)
  · exact (congrArg Rdcmd.reading hr.rdcmd).trans hc.reading
  · exact (Reading.position_allocCbEnd ht).trans hc.position
  · simp [issue, submits, hr.rdoffset, hoff]

/-- Whatever callback the chain is in, it submits the next read when that is over. -/
theorem strays_inside (hc : c.Goes x l) {f : Frame} (hf : c.reading.frame = some f)
    (hnext : ∀ d : Chain, d.Goes x (l ++ [x]) → d.reading.frame = none → d.start = c.start →
      (x, c.received) ∈ d.issued → d.Strays) : c.Strays := by
  cases ha : f.alloc with
  | true => exact strays_allocCbEnd hc hf ha hnext
  | false =>
    obtain ⟨t, ht⟩ : ∃ t, c.reading.step .readCbEnd = some t := by
      simp only [Reading.step, hf, ha, hc.kind]
      exact ⟨_, rfl⟩
    obtain ⟨_, _, _, hr⟩ := Reading.readCbEnd_returns ht
    have hframe : t.frame = some ⟨0, t.endpoint.rdoffset, true, true⟩ := by
      rw [hr.frame, if_pos (by simp [Reading.readsOn, hc.kind, hc.reading])]
    have hgoes : (c.issue .readCbEnd t).Goes x l :=
      ⟨hr.kind.trans hc.kind, hr.counted hc.counted, (congrArg Rdcmd.reading hr.rdcmd).trans hc.reading,
        (Reading.position_readCbEnd ht).trans hc.position,
        (congrArg Libuv.inFlight hr.world).trans hc.inFlight⟩
    have hstep : c.step .readCbEnd = some (c.issue .readCbEnd t) := by simp [step, Allowed, ht, record]
    exact strays_step hstep (strays_allocCbEnd hgoes hframe rfl hnext)

/-- One of the reads in flight returns ten bytes. -/
theorem strays_readCb (hc : c.Goes x l) (hf : c.reading.frame = none) {i : ℕ} {o : ℤ} (hi : l[i]? = some o)
    (hnext : ∀ d : Chain, ∀ f, d.Goes (x + 10) (l.eraseIdx i) → d.reading.frame = some f →
      d.start = c.start → (x, o, c.received) ∈ d.reported → d.Strays) : c.Strays := by
  have hlive : c.reading.endpoint.destroyed = false := by
    have hpos := hc.counted.alive.mpr (.inr hc.reading)
    rw [hc.counted.destroyed, ← hc.counted.refs, decide_eq_false_iff_not]
    omega
  have hlt : i < c.reading.endpoint.world.inFlight.length := by
    rw [hc.inFlight]
    exact (List.getElem?_eq_some_iff.mp hi).1
  have hoff : c.reading.endpoint.rdoffset = x := by
    rw [← hc.position, Reading.position, Reading.pending, hf, add_zero]
  have ht : c.reading.step (.readCb i 10) = some ((c.reading.complete i).enter 10) := by
    simp [Reading.step, hf, hlive, hc.kind, hlt]
  have hcounted := Reading.step_counted hc.counted ht
  set t := (c.reading.complete i).enter 10
  have hframe : t.frame = some ⟨10, x, true, false⟩ := by rw [← hoff]; rfl
  have hstep : c.step (.readCb i 10) = some
      { c with reading := t, received := c.received + 10, reported := c.reported ++ [(x, o, c.received)] } := by
    simp [step, Allowed, ht, record, hframe, hc.inFlight, hi]
  refine strays_step hstep (hnext _ _ ⟨hc.kind, hcounted, hc.reading, ?_, ?_⟩ hframe rfl (by simp))
  · simp only [Reading.position, Reading.pending, hframe]
    exact congrArg (· + 10) hoff
  · exact congrArg (List.eraseIdx · i) hc.inFlight

/-- A read at the start that is in flight beside another one reports what the other moved. -/
theorem strays_overlap (hneg : c.start < 0 → c.start = -1) (hx : x = c.start) {o : ℤ}
    (hc : c.Goes x (o :: l)) (hf : c.reading.frame = none) (hl : x ∈ l) : c.Strays := by
  refine strays_readCb hc hf (i := 0) rfl fun d f hd hdf hds _ => ?_
  refine strays_inside hd hdf fun b hb hbf hbs hissued => ?_
  by_cases hs : 0 ≤ c.start
  · obtain ⟨i, hi⟩ := List.getElem?_of_mem hl
    have hib : (l ++ [x + 10])[i]? = some x := by
      rw [List.getElem?_append_left (List.getElem?_eq_some_iff.mp hi).1, hi]
    refine strays_readCb hb hbf hib fun a g _ _ has hreported => strays_self fun hcov => ?_
    have heq : x + 10 = x := (hcov.reported (by rw [has, hbs, hds]; exact hs) _ hreported).1
    omega
  · refine strays_self fun hcov => ?_
    have heq := hcov.issued _ hissued
    rw [place, hbs, hds, if_neg hs] at heq
    have hstart := hneg (by omega)
    omega

end Goes

theorem begin_goes {s : Reading} {seekable : Bool} {size : ℕ} {offset : ℤ} {rStop r : Answer}
    (h : begin s seekable size offset rStop r = some c) (hs : s.Counted) (hr : 0 ≤ r.ret) :
    c.Goes (c.start + s.pending) (s.endpoint.world.inFlight ++ [c.start]) ∧ c.reading.frame = s.frame := by
  obtain ⟨hk, hsub, _, hstart, _, _, _, ht⟩ := begin_start h
  have hi : s.kind.interface = fileInterface := by rw [hk]; rfl
  have hcounted := Reading.step_counted hs ht
  have hkind := Reading.step_kind ht
  rw [submits, Bool.and_eq_true] at hsub
  simp only [Reading.step, hi] at ht
  obtain ⟨he, hframe⟩ := Reading.command_frame ht
  rcases readStart_file s.endpoint size offset rStop r with ⟨hcb, _⟩ | ⟨_, _, e, hcmd, hworld, hsubmit⟩
  · exact absurd hsub hcb
  rw [hsubmit] at he
  rcases submit_file e offset r with ⟨hneg, _⟩ | ⟨_, hcmd', _⟩
  · omega
  have hoff := rdoffset_submit e fileInterface offset r
  refine ⟨⟨hkind.trans hk, hcounted, ?_, ?_, ?_⟩, hframe⟩
  · rw [he, hcmd', hcmd]
    rfl
  · rw [Reading.position, Reading.pending_of_frame (s := s) (by rw [hframe]), he, hoff, hstart]
    rfl
  · rw [he, hstart]
    simp [Endpoint.submit, Endpoint.startStatus, Endpoint.startReading, fileInterface, fileRead, not_lt.mpr hr,
      Endpoint.uvStatus, hworld]

/-- A chain that is begun over a pending read, or inside a callback. -/
theorem begin_strays {s : Reading} {seekable : Bool} {size : ℕ} {offset : ℤ} {rStop r : Answer}
    (h : begin s seekable size offset rStop r = some c) (hs : s.Counted) (hr : 0 ≤ r.ret)
    (hrest : ¬ AtRest s) : c.Strays := by
  obtain ⟨hgoes, hframe⟩ := begin_goes h hs hr
  obtain ⟨_, _, hneg, _, hrec, _⟩ := begin_start h
  have hneg' : c.start < 0 → c.start = -1 := fun hlt => (hneg hlt).1
  cases hf : s.frame with
  | none =>
    have hp : s.pending = 0 := by simp [Reading.pending, hf]
    rw [hp, add_zero] at hgoes
    cases hin : s.endpoint.world.inFlight with
    | nil => exact absurd ⟨hf, hin⟩ hrest
    | cons o l =>
      rw [hin, List.cons_append] at hgoes
      exact strays_overlap hneg' rfl hgoes (hframe.trans hf) (by simp)
  | some f =>
    refine strays_inside hgoes (hframe.trans hf) fun d hd hdf hds hissued => ?_
    by_cases hp : s.pending = 0
    · rw [hp, add_zero] at hd
      have hds' : d.start < 0 → d.start = -1 := by rw [hds]; exact hneg'
      cases hin : s.endpoint.world.inFlight with
      | nil =>
        rw [hin] at hd
        exact strays_overlap hds' hds.symm hd hdf (by simp)
      | cons o l =>
        rw [hin] at hd
        exact strays_overlap hds' hds.symm hd hdf (by simp)
    · refine strays_self fun hcov => ?_
      have heq := hcov.issued _ hissued
      rw [place, hds, hrec] at heq
      split_ifs at heq with h0
      · omega
      · have hstart := hneg' (by omega)
        omega

end Chain

/-- A chain of reads that `read_start` begins on a file at rest covers the file without
gap or overlap exactly when each further read is submitted from a resolved start or
before any byte has been returned. Any other start of a file gives a chain that does not. -/
theorem chain_covers_iff (s : Reading) (seekable : Bool) (size : ℕ) (offset : ℤ) (rStop r : Answer)
    (c : Chain) (hc : Chain.begin s seekable size offset rStop r = some c) :
    (Chain.AtRest s → ∀ es : List Event,
      (∀ d ∈ visited Chain.step c es, d.Covers) ↔ ∀ p ∈ taken Chain.step c es, p.1.Resolved p.2) ∧
    (¬ Chain.AtRest s → s.Counted → 0 ≤ r.ret →
      ∃ es : List Event, ¬ ∀ d ∈ visited Chain.step c es, d.Covers) := by
  constructor
  · intro hrest es
    refine visited_iff_guarded (I := Chain.Inv) (fun c hc => hc.covers) ?_ ?_ es c (Chain.begin_inv hc hrest)
    · intro c e d hc hok h
      exact (Chain.step_inv hc h).1 hok
    · intro c e d hc hbad h hd
      exact hbad ((Chain.step_inv hc h).2 hd)
  · intro hrest hs hr
    obtain ⟨es, d, hd, hbad⟩ := Chain.begin_strays hc hs hr hrest
    exact ⟨es, fun h => hbad (h d hd)⟩

/-- A descriptor that is not seekable, read twice. -/
def pipeRead : List Event := [.readCb 0 10, .readCbEnd, .allocCbEnd ⟨0, 0⟩]

def opened : Reading :=
  { Reading.init .file with endpoint :=
      { (Reading.init .file).endpoint with allocCb := true, readCb := true } }

def pipeChain : Chain where
  reading := { opened with endpoint := { opened.endpoint with
    toCounter := opened.endpoint.toCounter.inc
    world := ⟨false, [-1]⟩
    rdcmd := .start
    rdoffset := -1 } }
  seekable := false
  start := -1
  received := 0
  issued := [(-1, 0)]
  reported := []

theorem chain_covers_pipe : (∀ d ∈ visited Chain.step pipeChain pipeRead, d.Covers) ↔
    ∀ p ∈ taken Chain.step pipeChain pipeRead, p.1.Resolved p.2 :=
  (chain_covers_iff opened false 0 (-1) ⟨0, 0⟩ ⟨0, -1⟩ pipeChain (by decide)).1 ⟨rfl, rfl⟩ pipeRead

theorem chain_leaves_position : ¬ ∀ (s : Reading) (seekable : Bool) (size : ℕ) (offset : ℤ)
    (rStop r : Answer), ∀ c ∈ Chain.begin s seekable size offset rStop r, ∀ es : List Event,
      ∀ d ∈ visited Chain.step c es, d.Covers := by
  intro h
  have hrun := h opened false 0 (-1) ⟨0, 0⟩ ⟨0, -1⟩ pipeChain (by decide) pipeRead
  revert hrun
  decide

end Uvcc.File
