import Uvcc.Io.ReadCallbacks

/-!
# One read in flight

Reads of a file are submitted by the command that starts or resumes and by the
tail of the completion callback. The two know of each other only through the
command state, which does not say whether a read is in flight.
-/
namespace Uvcc.File
open Machine Io

/-- At most one read uses the request of the file, and outside of `file::read_cb`
exactly one does while the command state is a reading one. -/
def OneInFlight (s : Reading) : Prop :=
  s.endpoint.world.inFlight.length ≤ 1 ∧
    (s.frame = none → s.endpoint.rdcmd.reading = true → s.endpoint.world.inFlight.length = 1)

instance (s : Reading) : Decidable (OneInFlight s) := inferInstanceAs (Decidable (_ ∧ (_ → _ → _)))

/-- A command submits only when nothing is in flight; the tail submits only when
nothing is, and fails only when the file is no longer read or a command in a callback
has submitted already. -/
def SubmitsOnce (s : Reading) : Event → Prop
  | .readStart _ _ _ r =>
    s.endpoint.allocCb = true → s.endpoint.readCb = true → 0 ≤ r.ret → s.endpoint.world.inFlight = []
  | .readResume trigger r =>
    trigger = true → s.endpoint.rdcmd = .pause → 0 ≤ r.ret → s.endpoint.world.inFlight = []
  | .allocCbEnd r => if 0 ≤ r.ret then s.endpoint.world.inFlight = []
      else s.endpoint.rdcmd.reading = true → s.endpoint.world.inFlight.length = 1
  | _ => True

section Outcomes
variable {s t : Reading}

/-- Nothing is submitted, and a state that is read now was read before. -/
theorem oneInFlight_quiet (hw : t.endpoint.world.inFlight = s.endpoint.world.inFlight)
    (hf : t.frame = none → s.frame = none)
    (hc : t.endpoint.rdcmd.reading = true → s.endpoint.rdcmd.reading = true) (h : OneInFlight s) :
    OneInFlight t := by
  unfold OneInFlight
  rw [hw]
  exact ⟨h.1, fun hn hr => h.2 (hf hn) (hc hr)⟩

theorem oneInFlight_submitted {offset : ℤ}
    (hw : t.endpoint.world.inFlight = s.endpoint.world.inFlight ++ [offset]) :
    OneInFlight t ↔ s.endpoint.world.inFlight = [] := by
  unfold OneInFlight
  rw [hw, List.length_append, List.length_singleton, ← List.length_eq_zero_iff]
  constructor
  · intro h
    omega
  · intro h
    exact ⟨by omega, fun _ _ => by omega⟩

/-- What a start or a resume of a file leaves behind. -/
theorem submit_file (s : Endpoint Libuv) (offset : ℤ) (r : Answer) :
    (r.ret < 0 ∧ (s.submit fileInterface offset r).1.world = s.world ∧
      (s.submit fileInterface offset r).1.rdcmd = .unknown) ∨
    (0 ≤ r.ret ∧ (s.submit fileInterface offset r).1.rdcmd = s.rdcmd ∧
      ∃ o, (s.submit fileInterface offset r).1.world.inFlight = s.world.inFlight ++ [o]) := by
  by_cases hr : r.ret < 0
  · left
    simp [Endpoint.submit, Endpoint.startStatus, Endpoint.startReading, fileInterface, fileRead, hr,
      Endpoint.unref, Endpoint.uvStatus]
  · right
    refine ⟨by omega, ?_, ?_⟩
    · simp [Endpoint.submit, Endpoint.startStatus, Endpoint.startReading, fileInterface, hr,
        Endpoint.uvStatus]
    · refine ⟨if offset < 0 then r.tell else offset, ?_⟩
      simp [Endpoint.submit, Endpoint.startStatus, Endpoint.startReading, fileInterface, fileRead, hr,
        Endpoint.uvStatus]

/-- `read_start` comes to a submission, or is refused and changes nothing. -/
theorem readStart_file (s : Endpoint Libuv) (size : ℕ) (offset : ℤ) (rStop rStart : Answer) :
    (¬ (s.allocCb = true ∧ s.readCb = true) ∧
      (s.readStart fileInterface size offset rStop rStart).1 = s.uvStatus uvEINVAL) ∨
    (s.allocCb = true ∧ s.readCb = true ∧ ∃ s' : Endpoint Libuv, s'.rdcmd = .start ∧
      s'.world = s.world ∧
      s.readStart fileInterface size offset rStop rStart = s'.submit fileInterface offset rStart) := by
  unfold Endpoint.readStart
  by_cases hcb : s.allocCb = false ∨ s.readCb = false
  · left
    refine ⟨fun h => ?_, by rw [if_pos hcb]⟩
    rcases hcb with hcb | hcb <;> simp [hcb] at h
  · right
    rw [not_or, Bool.not_eq_false, Bool.not_eq_false] at hcb
    refine ⟨hcb.1, hcb.2, _, ?_, ?_, by rw [if_neg (by simp [hcb])]⟩
    all_goals cases s.rdcmd <;> rfl

/-- `read_stop` of a file leaves the reads in flight alone. -/
theorem readStop_file (s : Endpoint Libuv) (r : Answer) :
    (s.readStop fileInterface r).1.world = s.world ∧ (s.readStop fileInterface r).1.rdcmd = .stop := by
  unfold Endpoint.readStop
  cases s.rdcmd <;> exact ⟨rfl, rfl⟩

theorem readPause_file (s : Endpoint Libuv) (b : Bool) (r : Answer) :
    (s.readPause fileInterface b r).1.world = s.world ∧
    ((s.readPause fileInterface b r).1.rdcmd.reading = true → s.rdcmd.reading = true) := by
  unfold Endpoint.readPause
  split_ifs
  · exact ⟨rfl, id⟩
  · cases hc : s.rdcmd <;> simp [hc, Endpoint.unref, Endpoint.uvStatus, Endpoint.stopReading,
      fileInterface, Rdcmd.reading]

/-- `read_resume` comes to a submission after a pause, and else changes nothing. -/
theorem readResume_file (s : Endpoint Libuv) (b : Bool) (r : Answer) :
    (¬ (b = true ∧ s.rdcmd = .pause) ∧ (s.readResume fileInterface b r).1 = s) ∨
    (b = true ∧ s.rdcmd = .pause ∧ ∃ s' : Endpoint Libuv, s'.rdcmd = .resume ∧ s'.world = s.world ∧
      s.readResume fileInterface b r = s'.submit fileInterface s.rdoffset r) := by
  unfold Endpoint.readResume
  cases b with
  | false => exact .inl ⟨by simp, rfl⟩
  | true =>
    cases hc : s.rdcmd with
    | pause =>
      exact .inr ⟨rfl, rfl, ({ s with rdcmd := .resume } : Endpoint Libuv).ref, rfl, rfl, rfl⟩
    | _ => exact .inl ⟨by simp, rfl⟩

end Outcomes

section Steps
variable {s t : Reading}

/-- A command that comes to a submission keeps one read in flight when it fails
or nothing was in flight before. -/
theorem command_submit {e : Endpoint Libuv} {offset : ℤ} {r : Answer} (hs : OneInFlight s)
    (hw : e.world = s.endpoint.world) (h : s.command (e.submit fileInterface offset r) = some t) :
    OneInFlight t ↔ (0 ≤ r.ret → s.endpoint.world.inFlight = []) := by
  simp only [Reading.command, Option.ite_none_left_eq_some, Option.some.injEq] at h
  obtain ⟨_, rfl⟩ := h
  rcases submit_file e offset r with ⟨hneg, hworld, hcmd⟩ | ⟨hpos, _, o, ho⟩
  · refine iff_of_true (oneInFlight_quiet (s := s) ?_ id ?_ hs) (fun h0 => by omega)
    · exact congrArg Libuv.inFlight (hworld.trans hw)
    · intro hr
      simp only [hcmd] at hr
      cases hr
  · rw [hw] at ho
    rw [oneInFlight_submitted (s := s) ho]
    exact ⟨fun h _ => h, fun h => h hpos⟩

theorem command_quiet {result : Endpoint Libuv × ℤ} (hs : OneInFlight s)
    (hw : result.1.world = s.endpoint.world)
    (hc : result.1.rdcmd.reading = true → s.endpoint.rdcmd.reading = true)
    (h : s.command result = some t) : OneInFlight t := by
  simp only [Reading.command, Option.ite_none_left_eq_some, Option.some.injEq] at h
  obtain ⟨_, rfl⟩ := h
  exact oneInFlight_quiet (congrArg Libuv.inFlight hw) id hc hs

/-- The return of a read callback submits nothing; a file that is still read is inside
the next allocation callback then. -/
theorem returns_oneInFlight {f : Frame} (hk : s.kind = .file) (hs : OneInFlight s)
    (hr : Reading.Returns s t f) : OneInFlight t := by
  refine ⟨by rw [hr.world]; exact hs.1, fun hn hread => ?_⟩
  rw [hr.rdcmd] at hread
  have hon : s.readsOn = true := by simp [Reading.readsOn, hk, hread]
  have hframe := hr.frame
  rw [hon, if_pos rfl, hn] at hframe
  cases hframe

theorem submits_oneInFlight {f : Frame} {r : Answer} (hs : OneInFlight s)
    (hr : Reading.Submits s t f r.ret) : OneInFlight t ↔ SubmitsOnce s (.allocCbEnd r) := by
  by_cases hret : 0 ≤ r.ret
  · have hw : t.endpoint.world.inFlight = s.endpoint.world.inFlight ++ [s.endpoint.rdoffset] := by
      rw [hr.world, fileRead, if_neg (by omega)]
    rw [oneInFlight_submitted hw, SubmitsOnce, if_pos hret]
  · have hw : t.endpoint.world.inFlight = s.endpoint.world.inFlight := by
      rw [hr.world, fileRead, if_pos (by omega)]
    rw [OneInFlight, SubmitsOnce, if_neg hret, hw, hr.frame, hr.rdcmd]
    exact ⟨fun h => h.2 rfl, fun h => ⟨hs.1, fun _ => h⟩⟩

theorem drops_oneInFlight (hs : OneInFlight s) (hd : Reading.Drops s t) : OneInFlight t := by
  have he := hd.endpoint
  refine oneInFlight_quiet (s := s) ?_ (fun hn => hd.frame ▸ hn) ?_ hs
  · rw [he]
    rfl
  · rw [he]
    exact id

theorem step_oneInFlight {e : Event} (hk : s.kind = .file) (hs : OneInFlight s)
    (h : s.step e = some t) : OneInFlight t ↔ SubmitsOnce s e := by
  have hi : s.kind.interface = fileInterface := by rw [hk]; rfl
  cases e with
  | copy =>
    simp only [Reading.step, Option.ite_none_left_eq_some, Option.some.injEq] at h
    obtain ⟨_, rfl⟩ := h
    exact iff_of_true (oneInFlight_quiet (s := s) (by simp) id (by simp) hs) trivial
  | drop => exact iff_of_true (drops_oneInFlight hs (Reading.drop_drops h)) trivial
  | closeDone => exact iff_of_true (drops_oneInFlight hs (Reading.closeDone_drops h)) trivial
  | moveArg =>
    simp only [Reading.step] at h
    cases hf : s.frame with
    | none => simp [hf] at h
    | some f =>
      simp only [hf, Option.ite_none_right_eq_some, Option.some.injEq] at h
      obtain ⟨_, rfl⟩ := h
      exact iff_of_true (oneInFlight_quiet (s := s) rfl (by simp) id hs) trivial
  | setCallbacks => exact iff_of_true (command_quiet hs rfl id h) trivial
  | readStart size offset rStop rStart =>
    simp only [Reading.step, hi] at h
    rcases readStart_file s.endpoint size offset rStop rStart with ⟨hcb, he⟩ | ⟨ha, hr, s', _, hw, he⟩
    · refine iff_of_true (command_quiet hs (by rw [he]; rfl) (by rw [he]; exact id) h) ?_
      intro h1 h2
      exact absurd ⟨h1, h2⟩ hcb
    · rw [he] at h
      rw [command_submit hs hw h]
      simp [SubmitsOnce, ha, hr]
  | readStop r =>
    simp only [Reading.step, hi] at h
    obtain ⟨hw, hc⟩ := readStop_file s.endpoint r
    exact iff_of_true (command_quiet hs hw (by rw [hc]; simp [Rdcmd.reading]) h) trivial
  | readPause b r =>
    simp only [Reading.step, hi] at h
    obtain ⟨hw, hc⟩ := readPause_file s.endpoint b r
    exact iff_of_true (command_quiet hs hw hc h) trivial
  | readResume b r =>
    simp only [Reading.step, hi] at h
    rcases readResume_file s.endpoint b r with ⟨hn, he⟩ | ⟨hb, hc, s', _, hw, he⟩
    · refine iff_of_true (command_quiet hs (by rw [he]) (by rw [he]; exact id) h) ?_
      intro h1 h2
      exact absurd ⟨h1, h2⟩ hn
    · rw [he] at h
      rw [command_submit hs hw h]
      simp [SubmitsOnce, hb, hc]
  | closeSync =>
    simp only [Reading.step, hi, Option.ite_none_right_eq_some] at h
    obtain ⟨hw, hc⟩ := readStop_file s.endpoint ⟨0, 0⟩
    exact iff_of_true (command_quiet hs hw (by rw [hc]; simp [Rdcmd.reading]) h.2) trivial
  | closeAsync ret =>
    simp only [Reading.step, hi, Option.ite_none_right_eq_some] at h
    obtain ⟨hw, hc⟩ := readStop_file s.endpoint.ref ⟨0, 0⟩
    have hw' : (s.endpoint.ref.readStop fileInterface ⟨0, 0⟩).1.world.inFlight =
        s.endpoint.world.inFlight := by
      rw [hw, Endpoint.ref_world]
    have hend := h.2
    split_ifs at hend
    · obtain rfl := Option.some.inj hend
      refine iff_of_true (oneInFlight_quiet (s := s) hw' id ?_ hs) trivial
      simp [hc, Rdcmd.reading]
    · obtain rfl := Option.some.inj hend
      refine iff_of_true (oneInFlight_quiet (s := s) hw' id ?_ hs) trivial
      simp [hc, Rdcmd.reading]
  | readCb i result =>
    simp only [Reading.step, Option.ite_none_left_eq_some, hk, Option.ite_none_right_eq_some,
      Option.some.injEq] at h
    obtain ⟨_, hi, rfl⟩ := h
    have hw : ((s.complete i).enter (if result = 0 then uvEOF else result)).endpoint.world.inFlight =
        s.endpoint.world.inFlight.eraseIdx i := by
      simp [Reading.enter, Reading.complete]
    refine iff_of_true ⟨?_, fun hn => by simp [Reading.enter] at hn⟩ trivial
    rw [hw]
    exact (List.length_eraseIdx_le _ _).trans hs.1
  | readCbEnd =>
    obtain ⟨f, _, _, hr⟩ := Reading.readCbEnd_returns h
    exact iff_of_true (returns_oneInFlight hk hs hr) trivial
  | allocCbEnd r =>
    obtain ⟨f, _, _, hr⟩ := Reading.allocCbEnd_submits h
    exact submits_oneInFlight hs hr

end Steps

/-- In every run of a file one read is in flight, as the command state says,
exactly when every submission finds the request of the file free. -/
theorem oneInFlight_iff (es : List Event) :
    (∀ s ∈ visited Reading.step (Reading.init .file) es, OneInFlight s) ↔
      ∀ p ∈ taken Reading.step (Reading.init .file) es, SubmitsOnce p.1 p.2 := by
  refine visited_iff_guarded (I := fun s => s.kind = .file ∧ OneInFlight s) (fun s hs => hs.2) ?_ ?_ es
    _ ⟨rfl, by decide⟩
  · intro s e t hs hok h
    exact ⟨(Reading.step_kind h).trans hs.1, (step_oneInFlight hs.1 hs.2 h).mpr hok⟩
  · intro s e t hs hbad h ht
    exact hbad ((step_oneInFlight hs.1 hs.2 h).mp ht)

def restartedInFlight : List Event :=
  [.setCallbacks, .readStart 0 0 ⟨0, 0⟩ ⟨0, 0⟩, .readStart 0 0 ⟨0, 0⟩ ⟨0, 0⟩]

theorem twoInFlight : ¬ ∀ es : List Event,
    ∀ s ∈ visited Reading.step (Reading.init .file) es, OneInFlight s := by
  intro h
  have hrun := h restartedInFlight
  revert hrun
  decide

end Uvcc.File
