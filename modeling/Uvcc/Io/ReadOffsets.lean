import Uvcc.Io.ReadCallbacks

/-!
# The offsets that the read callbacks of a socket report

The `_offset` of a read callback counts on from the offset given to `read_start`.
`io_read_cb` adds what was read after the user callback has returned, so a start
that is given a new offset inside the callback comes before the addition, and the
virtual `read_start` stores the offset before libuv is asked.
-/
namespace Uvcc.Io
open Machine

/-- What a running callback adds to `rdoffset` when it returns. -/
def Frame.adds (f : Frame) : ℤ := if f.alloc then 0 else max f.nread 0

namespace Reading

def pending (s : Reading) : ℤ :=
  match s.frame with
  | some f => f.adds
  | none => 0

/-- The offset that the next read callback will be given. -/
def position (s : Reading) : ℤ := s.endpoint.rdoffset + s.pending

theorem pending_of_frame {s t : Reading} (h : t.frame.map Frame.adds = s.frame.map Frame.adds) :
    t.pending = s.pending := by
  unfold pending
  cases hs : s.frame with
  | none =>
    cases ht : t.frame with
    | none => rfl
    | some g => simp [hs, ht] at h
  | some f =>
    cases ht : t.frame with
    | none => simp [hs, ht] at h
    | some g =>
      rw [hs, ht, Option.map_some, Option.map_some, Option.some.injEq] at h
      simp only [h]

theorem position_congr {s t : Reading} (ho : t.endpoint.rdoffset = s.endpoint.rdoffset)
    (hf : t.frame.map Frame.adds = s.frame.map Frame.adds) : t.position = s.position := by
  rw [position, position, ho, pending_of_frame hf]

end Reading

/-! ## The commands on a socket -/

section Commands
variable (s : Endpoint Libuv)

/-- Whether the start succeeds or not, the offset is what the virtual function made of it. -/
theorem rdoffset_submit (iface : Interface Libuv Answer) (offset : ℤ) (r : Answer) :
    (s.submit iface offset r).1.rdoffset = (iface.readStart s.world s.rdoffset offset r).2.1 := by
  unfold Endpoint.submit
  dsimp only
  split_ifs <;> rfl

/-- `read_start` with both callbacks set stores an offset, if it is given one. -/
theorem rdoffset_readStart (size : ℕ) (offset : ℤ) (rStop rStart : Answer) :
    (s.readStart socketInterface size offset rStop rStart).1.rdoffset =
      if s.allocCb = true ∧ s.readCb = true ∧ 0 ≤ offset then offset else s.rdoffset := by
  unfold Endpoint.readStart
  by_cases hcb : s.allocCb = false ∨ s.readCb = false
  · have hno : ¬ (s.allocCb = true ∧ s.readCb = true) := by
      rintro ⟨ha, hr⟩
      rcases hcb with hcb | hcb <;> simp [ha, hr] at hcb
    rw [if_pos hcb, if_neg fun h => hno ⟨h.1, h.2.1⟩]
    rfl
  · rw [if_neg hcb]
    rw [not_or, Bool.not_eq_false, Bool.not_eq_false] at hcb
    simp only [hcb, true_and]
    cases s.rdcmd <;> exact rdoffset_submit _ socketInterface offset rStart

theorem rdoffset_readStop (iface : Interface Libuv Answer) (r : Answer) :
    (s.readStop iface r).1.rdoffset = s.rdoffset := by
  unfold Endpoint.readStop
  cases s.rdcmd <;> rfl

theorem rdoffset_readPause (iface : Interface Libuv Answer) (b : Bool) (r : Answer) :
    (s.readPause iface b r).1.rdoffset = s.rdoffset := by
  unfold Endpoint.readPause
  split_ifs
  · rfl
  · cases s.rdcmd <;> rfl

/-- A resume stores the offset that is stored already. -/
theorem rdoffset_readResume (b : Bool) (r : Answer) :
    (s.readResume socketInterface b r).1.rdoffset = s.rdoffset := by
  unfold Endpoint.readResume
  split_ifs
  · rfl
  · cases s.rdcmd with
    | pause =>
      refine (rdoffset_submit _ socketInterface s.rdoffset r).trans ?_
      exact ite_self s.rdoffset
    | _ => rfl

end Commands

/-! ## A step and the position -/

namespace Reading
variable {s t : Reading}

theorem command_frame {result : Endpoint Libuv × ℤ} (h : s.command result = some t) :
    t.endpoint = result.1 ∧ t.frame = s.frame := by
  simp only [command, Option.ite_none_left_eq_some, Option.some.injEq] at h
  obtain ⟨_, rfl⟩ := h
  exact ⟨rfl, rfl⟩

theorem position_command {result : Endpoint Libuv × ℤ} (h : s.command result = some t)
    (ho : result.1.rdoffset = s.endpoint.rdoffset) : t.position = s.position := by
  obtain ⟨he, hf⟩ := command_frame h
  exact position_congr (he ▸ ho) (by rw [hf])

theorem position_readStart {size : ℕ} {offset : ℤ} {rStop rStart : Answer}
    (hi : s.kind.interface = socketInterface) (h : s.step (.readStart size offset rStop rStart) = some t) :
    t.position = if s.endpoint.allocCb = true ∧ s.endpoint.readCb = true ∧ 0 ≤ offset
      then offset + s.pending else s.position := by
  simp only [step, hi] at h
  obtain ⟨he, hf⟩ := command_frame h
  have hp : t.pending = s.pending := pending_of_frame (by rw [hf])
  rw [position, he, hp, rdoffset_readStart s.endpoint size offset rStop rStart]
  split_ifs <;> rfl

theorem position_readCb {i : ℕ} {nread : ℤ} (hk : s.kind ≠ .file) (h : s.step (.readCb i nread) = some t) :
    t.frame = some ⟨nread, s.position, true, false⟩ ∧ t.position = s.position + max nread 0 := by
  simp only [step, Option.ite_none_left_eq_some, not_or, Option.not_isSome_iff_eq_none] at h
  obtain ⟨⟨hf, _⟩, h⟩ := h
  have hpos : s.position = s.endpoint.rdoffset := by simp [position, pending, hf]
  have ht : s.enter nread = t := by
    cases hc : s.kind with
    | file => exact absurd hc hk
    | stream =>
      simp only [Option.ite_none_right_eq_some, Option.some.injEq] at h
      exact h.2
    | udp =>
      simp only [Option.ite_none_right_eq_some, Option.some.injEq] at h
      exact h.2
  subst ht
  rw [hpos]
  exact ⟨rfl, rfl⟩

/-- What was delivered is added when the callback has returned. -/
theorem rdoffset_leave (s : Reading) (f : Frame) :
    (s.leave f).endpoint.rdoffset = s.endpoint.rdoffset + max f.nread 0 := by
  obtain ⟨_, _, _, _, _, hdrop⟩ := dropArg_fields s f
  unfold leave
  split_ifs with hn
  · rw [max_eq_left hn.le, ← hdrop]
    rfl
  · rw [max_eq_right (not_lt.mp hn), add_zero]
    exact hdrop

/-- The tail of `file::read_cb` and the allocation callback in it move nothing. -/
theorem position_fileTail (hf : s.frame = none) : s.fileTail.position = s.endpoint.rdoffset := by
  rcases fileTail_cases s with ⟨_, he⟩ | ⟨_, he⟩
  · rw [he]
    simp [position, pending, access, hf]
  · rw [he]
    simp [position, pending, access, enterAlloc, Frame.adds, Endpoint.ref]

theorem position_readCbEnd (h : s.step .readCbEnd = some t) : t.position = s.position := by
  simp only [step] at h
  cases hf : s.frame with
  | none => simp [hf] at h
  | some f =>
    simp only [hf, Option.ite_none_left_eq_some, Bool.not_eq_true] at h
    obtain ⟨halloc, h⟩ := h
    obtain ⟨_, hframe, _⟩ := leave_leaves s f
    have hps : s.position = (s.leave f).endpoint.rdoffset := by
      simp [rdoffset_leave, position, pending, hf, Frame.adds, halloc]
    rw [hps]
    cases hk : s.kind with
    | file =>
      simp only [hk, Option.some.injEq] at h
      rw [← h]
      exact position_fileTail hframe
    | stream =>
      simp only [hk, Option.some.injEq] at h
      rw [← h]
      simp [position, pending, hframe]
    | udp =>
      simp only [hk, Option.some.injEq] at h
      rw [← h]
      simp [position, pending, hframe]

theorem position_allocCbEnd {r : Answer} (h : s.step (.allocCbEnd r) = some t) : t.position = s.position := by
  obtain ⟨f, hf, halloc, hr⟩ := allocCbEnd_submits h
  rw [position, position, hr.rdoffset, pending, pending, hr.frame, hf]
  simp [Frame.adds, halloc]

/-- Only a start and a delivery move the position. -/
theorem position_step {e : Event} (hk : s.kind ≠ .file) (h : s.step e = some t)
    (hstart : ∀ size offset rStop rStart, e ≠ .readStart size offset rStop rStart)
    (hcb : ∀ i nread, e ≠ .readCb i nread) : t.position = s.position := by
  have hi : s.kind.interface = socketInterface := by
    cases hc : s.kind with
    | file => exact absurd hc hk
    | stream => rfl
    | udp => rfl
  cases e with
  | copy =>
    simp only [step, Option.ite_none_left_eq_some, Option.some.injEq] at h
    obtain ⟨_, rfl⟩ := h
    rfl
  | drop =>
    have hd := drop_drops h
    exact position_congr (by rw [hd.endpoint]; rfl) (by rw [hd.frame])
  | closeDone =>
    have hd := closeDone_drops h
    exact position_congr (by rw [hd.endpoint]; rfl) (by rw [hd.frame])
  | moveArg =>
    simp only [step] at h
    cases hf : s.frame with
    | none => simp [hf] at h
    | some f =>
      simp only [hf, Option.ite_none_right_eq_some, Option.some.injEq] at h
      obtain ⟨_, rfl⟩ := h
      exact position_congr rfl (by rw [hf]; rfl)
  | setCallbacks => exact position_command h rfl
  | readStart size offset rStop rStart => exact absurd rfl (hstart size offset rStop rStart)
  | readStop r =>
    simp only [step, hi] at h
    exact position_command h (rdoffset_readStop s.endpoint socketInterface r)
  | readPause b r =>
    simp only [step, hi] at h
    exact position_command h (rdoffset_readPause s.endpoint socketInterface b r)
  | readResume b r =>
    simp only [step, hi] at h
    exact position_command h (rdoffset_readResume s.endpoint b r)
  | closeSync => simp [step, hk] at h
  | closeAsync ret => simp [step, hk] at h
  | readCb i nread => exact absurd rfl (hcb i nread)
  | readCbEnd => exact position_readCbEnd h
  | allocCbEnd r => exact position_allocCbEnd h

end Reading

/-! ## What the documentation promises -/

/-- A run with the offset of the last successful start that was given one, the bytes
delivered by the callbacks begun since, and for each read callback its offset argument
beside the offset that it should be given. `exact` tells whether the last start that
stored an offset left the position where it should be. -/
structure Offsets where
  reading : Reading
  start : ℤ
  received : ℤ
  callbacks : List (ℤ × ℤ)
  exact : Bool
  deriving DecidableEq, Repr

namespace Offsets

def init (k : Kind) : Offsets where
  reading := Reading.init k
  start := 0
  received := 0
  callbacks := []
  exact := true

def due (s : Offsets) : ℤ := s.start + s.received

/-- The start is one that stores the offset; a start that fails, or that is made inside a
callback which delivers data, is exact only by coincidence. -/
def started (s : Offsets) (offset ret : ℤ) : Offsets :=
  if 0 ≤ ret then { s with start := offset, received := 0, exact := s.reading.pending = 0 }
  else { s with exact := offset + s.reading.pending = s.due }

def stores (s : Offsets) (offset : ℤ) : Bool :=
  s.reading.endpoint.allocCb && s.reading.endpoint.readCb && decide (0 ≤ offset)

def record (s : Offsets) : Event → Reading → Offsets
  | .readStart size offset rStop rStart, t =>
    let e := s.reading.endpoint
    let ret := (e.readStart s.reading.kind.interface size offset rStop rStart).2
    if s.stores offset then { s.started offset ret with reading := t } else { s with reading := t }
  | .readCb _ _, t =>
    match t.frame with
    | some f => { s with
        reading := t
        received := s.received + max f.nread 0
        callbacks := s.callbacks ++ [(f.offset, s.due)] }
    | none => { s with reading := t }
  | _, t => { s with reading := t }

def step (s : Offsets) (e : Event) : Option Offsets := (s.reading.step e).map (s.record e)

def AsDue (s : Offsets) : Prop := ∀ x ∈ s.callbacks, x.1 = x.2

instance (s : Offsets) : Decidable s.AsDue := List.decidableBAll _ _

def DeliversExact (s : Offsets) : Event → Prop
  | .readCb _ _ => s.exact = true
  | _ => True

/-- The position of a socket is the one due exactly while the last stored offset was exact. -/
structure Inv (s : Offsets) : Prop where
  kind : s.reading.kind ≠ .file
  position : s.exact = true ↔ s.reading.position = s.due
  asDue : s.AsDue

variable {s t : Offsets} {u : Reading} {e : Event}

theorem inv_init {k : Kind} (hk : k ≠ .file) : (init k).Inv := by
  refine ⟨hk, ?_, by simp [AsDue, init]⟩
  simp [init, due, Reading.position, Reading.pending, Reading.init, Endpoint.init]

theorem Inv.readStart {size : ℕ} {offset : ℤ} {rStop rStart : Answer} (hs : s.Inv)
    (h : s.reading.step (.readStart size offset rStop rStart) = some u) :
    (s.record (.readStart size offset rStop rStart) u).Inv := by
  have hkind : u.kind ≠ .file := Reading.step_kind h ▸ hs.kind
  have hi : s.reading.kind.interface = socketInterface := by
    cases hc : s.reading.kind with
    | file => exact absurd hc hs.kind
    | stream => rfl
    | udp => rfl
  have hpos := Reading.position_readStart hi h
  by_cases hst : s.stores offset = true
  · have hcb : s.reading.endpoint.allocCb = true ∧ s.reading.endpoint.readCb = true ∧ 0 ≤ offset := by
      simpa [stores, and_assoc] using hst
    rw [if_pos hcb] at hpos
    simp only [record, hst, if_true, started]
    split_ifs with hret
    · refine ⟨hkind, ?_, hs.asDue⟩
      simp only [due, hpos, decide_eq_true_eq]
      omega
    · refine ⟨hkind, ?_, hs.asDue⟩
      rw [hpos]
      exact decide_eq_true_iff
  · have hcb : ¬ (s.reading.endpoint.allocCb = true ∧ s.reading.endpoint.readCb = true ∧ 0 ≤ offset) := by
      simpa [stores, and_assoc] using hst
    rw [if_neg hcb] at hpos
    simp only [record, hst, Bool.false_eq_true, if_false]
    exact ⟨hkind, by rw [hpos]; exact hs.position, hs.asDue⟩

/-- A callback is given the position, and what it delivers moves the position and the
offset that is due alike. -/
theorem Inv.readCb {i : ℕ} {nread : ℤ} (hs : s.Inv) (h : s.reading.step (.readCb i nread) = some u) :
    ((s.record (.readCb i nread) u).AsDue ↔ s.exact = true) ∧
      (s.exact = true → (s.record (.readCb i nread) u).Inv) := by
  obtain ⟨hf, hpos⟩ := Reading.position_readCb hs.kind h
  have hdue : (s.record (.readCb i nread) u).AsDue ↔ s.exact = true := by
    simp only [record, hf, AsDue, List.forall_mem_append, List.forall_mem_singleton, hs.position]
    exact and_iff_right hs.asDue
  refine ⟨hdue, fun hex => ⟨?_, ?_, hdue.mpr hex⟩⟩
  · simp only [record, hf]
    exact Reading.step_kind h ▸ hs.kind
  · have hsp := hs.position.mp hex
    simp only [record, hf, hex, hpos, hsp, due, add_assoc]

theorem Inv.other (hs : s.Inv) (h : s.reading.step e = some u)
    (hstart : ∀ size offset rStop rStart, e ≠ .readStart size offset rStop rStart)
    (hcb : ∀ i nread, e ≠ .readCb i nread) : (s.record e u).Inv := by
  have hpos := Reading.position_step hs.kind h hstart hcb
  have hrec : s.record e u = { s with reading := u } := by
    cases e with
    | readStart size offset rStop rStart => exact absurd rfl (hstart size offset rStop rStart)
    | readCb i nread => exact absurd rfl (hcb i nread)
    | _ => rfl
  rw [hrec]
  exact ⟨Reading.step_kind h ▸ hs.kind, by rw [hpos]; exact hs.position, hs.asDue⟩

/-- One step keeps the accounts, unless it is a delivery after a start that was not
exact: that one is given the wrong offset. -/
theorem step_inv (hs : s.Inv) (h : s.step e = some t) :
    (s.DeliversExact e → t.Inv) ∧ (t.AsDue → s.DeliversExact e) := by
  obtain ⟨u, hu, rfl⟩ := Option.map_eq_some_iff.mp h
  cases e with
  | readStart size offset rStop rStart => exact ⟨fun _ => hs.readStart hu, fun _ => trivial⟩
  | readCb i nread =>
    obtain ⟨hdue, hinv⟩ := hs.readCb hu
    exact ⟨hinv, hdue.mp⟩
  | _ =>
    have hinv := hs.other hu (by simp) (by simp)
    exact ⟨fun _ => hinv, fun _ => trivial⟩

end Offsets

/-- In every run of a stream or udp endpoint the read callbacks are given the offsets
that the documentation promises exactly when each delivery comes after a start that was
exact. -/
theorem offsets_due_iff (k : Kind) (hk : k ≠ .file) (es : List Event) :
    (∀ s ∈ visited Offsets.step (Offsets.init k) es, s.AsDue) ↔
      ∀ p ∈ taken Offsets.step (Offsets.init k) es, p.1.DeliversExact p.2 := by
  refine visited_iff_guarded (I := Offsets.Inv) (fun s hs => hs.asDue) ?_ ?_ es _ (Offsets.inv_init hk)
  · intro s e t hs hok h
    exact (Offsets.step_inv hs h).1 hok
  · intro s e t hs hbad h ht
    exact hbad ((Offsets.step_inv hs h).2 ht)

/-- A start at a new offset inside the callback that delivers ten bytes. -/
def restartedInCallback : List Event :=
  [.setCallbacks, .readStart 0 0 ⟨0, 0⟩ ⟨0, 0⟩, .readCb 0 10, .readStart 0 100 ⟨0, 0⟩ ⟨0, 0⟩,
    .readCbEnd, .readCb 0 5]

theorem offsets_due_udp : (∀ s ∈ visited Offsets.step (Offsets.init .udp) restartedInCallback, s.AsDue) ↔
    ∀ p ∈ taken Offsets.step (Offsets.init .udp) restartedInCallback, p.1.DeliversExact p.2 :=
  offsets_due_iff .udp (by decide) restartedInCallback

theorem offset_counted_twice : ¬ ∀ (k : Kind) (es : List Event), k ≠ .file →
    ∀ s ∈ visited Offsets.step (Offsets.init k) es, s.AsDue := by
  intro h
  have hrun := h .stream restartedInCallback (by decide)
  revert hrun
  decide

end Uvcc.Io
