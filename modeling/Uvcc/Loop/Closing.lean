import Uvcc.Loop.Booking

/-!
# Closing a handle takes an iteration of its loop

`uv_close()` leaves a handle linked until the loop gets to it, but the instance is
deleted right after the call. The only last reference of an initialised handle that
may go is one that takes the loop along: then the loop destructor runs the loop
before the memory of the handle is freed.
-/
namespace Uvcc.Loop
open Counting Machine

namespace HandleInstance

/-- Libuv is done with the handle, or never had it. -/
def Finished (x : HandleInstance) : Prop :=
  (x.initialised = false ∧ x.link = .detached) ∨ x.link = .closed

theorem Finished.drain {x : HandleInstance} (hx : x.Finished) (l : ℕ) : (x.drain l).Finished := by
  unfold HandleInstance.drain
  split_ifs with h
  · exact .inr rfl
  · exact hx

theorem Finished.linkedOn {x : HandleInstance} (hx : x.Finished) (l : ℕ) : x.linkedOn l = false := by
  rcases hx with ⟨_, hl⟩ | hl <;> simp [HandleInstance.linkedOn, hl]

end HandleInstance

namespace World
variable {w : World} {h n l : ℕ} {X : Multiset Obj}

/-- No walk comes upon a deleted handle if libuv is done with all of them. -/
theorem walksFreed_eq_false (hw : ∀ n, w.freed n = true → (w.handles n).Finished) (l : ℕ) :
    w.walksFreed l = false := by
  by_contra hn
  have hany : w.walksFreed l = true := by simpa using hn
  obtain ⟨n, _, hx⟩ := List.any_eq_true.mp hany
  obtain ⟨hlinked, hfreed⟩ := of_decide_eq_true hx
  rw [(hw n hfreed).linkedOn l] at hlinked
  cases hlinked

/-- No instance is deleted while its loop still links the handle in it. -/
def Outlives (w : World) : Prop :=
  ∀ h, w.mem.status (.handle h) = .dead → (w.handles h).Finished

def TakesLoop (w : World) (h : ℕ) : Prop :=
  ∃ l, (w.handles h).loopInstance = some l ∧ w.mem.refs (.loop l) = 1

/-- A reference of `h` that goes is not the last one, or libuv never initialised the
handle, or the loop goes with it. -/
def MayGo (w : World) (h : ℕ) : Prop :=
  w.mem.refs (.handle h) = 1 → (w.handles h).initialised = true → w.TakesLoop h

def ClosesInTime (w : World) : Event → Prop
  | .drop (.handle h) => w.MayGo h
  | .release h => w.MayGo h
  | _ => True

theorem outlives_init : init.Outlives := by
  intro h hd
  cases hd

/-! ## The effect of a close -/

def closed (w : World) (h n : ℕ) : HandleInstance := ((w.uvClose h).nullLoop h).handles n

theorem closed_of_ne (hn : n ≠ h) : w.closed h n = w.handles n :=
  (Function.update_of_ne hn _ _).trans (handles_uvClose_of_ne hn)

theorem closed_self (hi : (w.handles h).initialised = true) :
    w.closed h h = { w.handles h with link := .closing, loopInstance := none } := by
  simp [closed, nullLoop, setHandle, uvClose, hi]

theorem closed_self_of_not (hi : (w.handles h).initialised = false) :
    w.closed h h = { w.handles h with loopInstance := none } := by
  simp [closed, nullLoop, setHandle, uvClose, hi]

/-- A booked handle that dies lets go of its loop. -/
theorem handleClose_booked (hw : w.Booked X) (hh : h < w.next) (hd : w.mem.status (.handle h) ≠ .live)
    (hb : (w.handles h).loopInstance = some l) :
    (w.handleClose h).next = w.next ∧ ∀ n, (w.handleClose h).handles n =
      if w.mem.refs (.loop l) - 1 = 0 ∧ (w.uvClose h).walksFreed l = false then (w.closed h n).drain l
      else w.closed h n := by
  obtain ⟨hc, ho⟩ := hw.uvClose hh hd
  have hb' : ((w.uvClose h).handles h).loopInstance = some l := (loopInstance_uvClose w h).trans hb
  have hn := hc.nullLoop (next_uvClose w h ▸ hh) hb' ho (mem_uvClose w h ▸ hd)
  have hm : ((w.uvClose h).nullLoop h).mem = w.mem := mem_uvClose w h
  rw [handleClose, unbookLoop_eq hb', hn.loopUnref_eq]
  refine ⟨next_uvClose w h, fun n => ?_⟩
  simp only [free, Drains, walksFreed_nullLoop, hm]
  rfl

theorem handleClose_unbooked (hb : (w.handles h).loopInstance = none) :
    w.handleClose h = (w.uvClose h).free h :=
  congrArg (free · h) (unbookLoop_of_none ((loopInstance_uvClose w h).trans hb))

theorem closed_unbooked (hb : (w.handles h).loopInstance = none) (n : ℕ) :
    w.closed h n = (w.uvClose h).handles n := by
  by_cases hn : n = h
  · subst hn
    have hx := (loopInstance_uvClose w n).trans hb
    have he : { (w.uvClose n).handles n with loopInstance := none } = (w.uvClose n).handles n := by
      rw [← hx]
    exact (Function.update_self _ _ _).trans he
  · rw [closed_of_ne hn, handles_uvClose_of_ne hn]

/-- The loop destructor runs the loop. -/
theorem handles_handleClose_last (hw : w.Booked X) (hh : h < w.next)
    (hd : w.mem.status (.handle h) ≠ .live) (hb : (w.handles h).loopInstance = some l)
    (hz : w.mem.refs (.loop l) = 1) (hwalk : (w.uvClose h).walksFreed l = false) (n : ℕ) :
    (w.handleClose h).handles n = (w.closed h n).drain l := by
  rw [(handleClose_booked hw hh hd hb).2]
  exact if_pos ⟨sub_eq_zero.mpr hz, hwalk⟩

theorem handles_handleClose (hw : w.Booked X) (hh : h < w.next)
    (hd : w.mem.status (.handle h) ≠ .live) (ht : ¬ w.TakesLoop h) (n : ℕ) :
    (w.handleClose h).handles n = w.closed h n := by
  cases hb : (w.handles h).loopInstance with
  | none =>
    rw [handleClose_unbooked hb, closed_unbooked hb]
    rfl
  | some l =>
    rw [(handleClose_booked hw hh hd hb).2]
    exact if_neg fun hz => ht ⟨l, hb, sub_eq_zero.mp hz.1⟩

/-- A close leaves the instances as `closed` has them, or the loop runs once more. -/
theorem handles_handleClose_cases (hw : w.Booked X) (hh : h < w.next)
    (hd : w.mem.status (.handle h) ≠ .live) (n : ℕ) :
    (w.handleClose h).handles n = w.closed h n ∨
      ∃ l, (w.handleClose h).handles n = (w.closed h n).drain l := by
  by_cases ht : w.TakesLoop h
  · obtain ⟨l, hb, _⟩ := ht
    rw [(handleClose_booked hw hh hd hb).2]
    split_ifs
    · exact .inr ⟨l, rfl⟩
    · exact .inl rfl
  · exact .inl (handles_handleClose hw hh hd ht n)

theorem finished_handleClose_of_ne (hw : w.Booked X) (hh : h < w.next)
    (hd : w.mem.status (.handle h) ≠ .live) (hn : n ≠ h) (hf : (w.handles n).Finished) :
    ((w.handleClose h).handles n).Finished := by
  rcases handles_handleClose_cases hw hh hd n with hx | ⟨l, hx⟩
  · rw [hx, closed_of_ne hn]
    exact hf
  · rw [hx, closed_of_ne hn]
    exact hf.drain l

/-- The close of the handle itself is finished if libuv never had it, or if its loop
is destroyed on the way. -/
theorem finished_handleClose (hw : w.Booked X) (hh : h < w.next)
    (hd : w.mem.status (.handle h) ≠ .live) (hwalk : ∀ l, (w.uvClose h).walksFreed l = false) :
    ((w.handleClose h).handles h).Finished ↔ ((w.handles h).initialised = true → w.TakesLoop h) := by
  cases hi : (w.handles h).initialised with
  | false =>
    have hf : (w.closed h h).Finished := by
      rw [closed_self_of_not hi]
      exact .inl ⟨hi, (hw.sound h).detached hi⟩
    refine ⟨fun _ hn => (nomatch hn), fun _ => ?_⟩
    by_cases ht : w.TakesLoop h
    · obtain ⟨l, hb, hz⟩ := ht
      rw [handles_handleClose_last hw hh hd hb hz (hwalk l)]
      exact hf.drain l
    · rw [handles_handleClose hw hh hd ht]
      exact hf
  | true =>
    constructor
    · intro hf _
      by_contra ht
      rw [handles_handleClose hw hh hd ht, closed_self hi] at hf
      rcases hf with ⟨_, hl⟩ | hl <;> cases hl
    · intro ht
      obtain ⟨l, hb, hz⟩ := ht rfl
      rw [handles_handleClose_last hw hh hd hb hz (hwalk l), closed_self hi]
      have hu := (hw.sound h).booked l hb
      simp [HandleInstance.drain, HandleInstance.Finished, hu]

/-! ## Every step -/

/-- What has been deleted before does not concern the loop any more. -/
theorem Outlives.walksFreed (ho : w.Outlives) (hw : w.Booked X) (l : ℕ) : w.walksFreed l = false :=
  walksFreed_eq_false (fun n hn => ho n (hw.freed n hn)) l

/-- Nor does the handle that is about to be. -/
theorem Outlives.walksFreed_uvClose (ho : w.Outlives) (hw : w.Booked X) (hl : w.mem.status (.handle h) = .live)
    (m : Ledger Obj) (l : ℕ) : ({ w with mem := m }.uvClose h).walksFreed l = false := by
  refine walksFreed_eq_false (fun n hn => ?_) l
  rw [freed_uvClose] at hn
  have hdead := hw.freed n hn
  have hne : n ≠ h := by
    rintro rfl
    rw [hl] at hdead
    cases hdead
  rw [handles_uvClose_of_ne hne]
  exact ho n hdead

theorem handleUnref_outlives (hw : w.Booked (.handle h ::ₘ X)) (ho : w.Outlives) :
    (w.handleUnref h).Outlives ↔ w.MayGo h := by
  have hl : w.mem.status (.handle h) = .live := hw.balanced.live (by simp)
  by_cases hz : w.mem.refs (.handle h) - 1 = 0
  · have hw' : { w with mem := w.mem.dec (.handle h) }.Booked X := hw.dec
    have hlt := hw.lt_next hl
    have hdead : (w.mem.dec (.handle h)).status (.handle h) = .dead := Ledger.status_dec_last hl hz
    have hd : (w.mem.dec (.handle h)).status (.handle h) ≠ .live := by rw [hdead]; decide
    have hself := finished_handleClose hw' hlt hd (ho.walksFreed_uvClose hw hl _)
    have ht : { w with mem := w.mem.dec (.handle h) }.TakesLoop h ↔ w.TakesLoop h := by
      simp [TakesLoop, Ledger.refs_dec_of_ne]
    rw [handleUnref, if_pos hz]
    constructor
    · intro hout _ hi
      exact ht.mp (hself.mp (hout h ((status_handleClose _ h h).trans hdead)) hi)
    · intro hmay n hn
      rw [status_handleClose] at hn
      by_cases hne : n = h
      · subst hne
        exact hself.mpr (fun hi => ht.mpr (hmay (sub_eq_zero.mp hz) hi))
      · have hn' : (w.mem.dec (.handle h)).status (.handle n) = .dead := hn
        rw [Ledger.status_dec_of_ne _ (by simpa using hne)] at hn'
        exact finished_handleClose_of_ne hw' hlt hd hne (ho n hn')
  · have hmay : w.MayGo h := fun hone => absurd (sub_eq_zero.mpr hone) hz
    refine ⟨fun _ => hmay, fun _ n hn => ?_⟩
    rw [handleUnref, if_neg hz] at hn ⊢
    rw [Ledger.status_dec_not_last hz] at hn
    exact ho n hn

theorem loopUnref_outlives (hw : w.Booked (.loop l ::ₘ X)) (ho : w.Outlives) :
    (w.loopUnref l).Outlives := by
  intro n hn
  rw [hw.loopUnref_eq] at hn ⊢
  have hn' : (w.mem.dec (.loop l)).status (.handle n) = .dead := hn
  rw [Ledger.status_dec_of_ne _ (by simp)] at hn'
  change (if _ then _ else _ : HandleInstance).Finished
  split_ifs
  · exact (ho n hn').drain l
  · exact ho n hn'

theorem create_outlives (ho : w.Outlives) (x : HandleInstance) {m : Ledger Obj}
    (hst : m.status = Function.update w.mem.status (.handle w.next) .live) :
    { w.create x with mem := m }.Outlives := by
  intro n hn
  have hn' : m.status (.handle n) = .dead := hn
  rw [hst] at hn'
  have hne : n ≠ w.next := by
    rintro rfl
    simp at hn'
  have hx : (w.create x).handles n = w.handles n := Function.update_of_ne hne _ _
  change ((w.create x).handles n).Finished
  rw [hx]
  exact ho n (by simpa [hne] using hn')

theorem createBooked_outlives (ho : w.Outlives) (x : HandleInstance) (hb : x.loopInstance = none)
    (hu : x.uvLoop = some l) : ((w.create x).bookLoop w.next).Outlives := by
  rw [Booked.bookLoop_create w x hb hu]
  exact create_outlives ho _ (Ledger.status_inc _ _)

theorem construct_outlives (ho : w.Outlives) (k : Kind) (l : ℕ) (i : Init) :
    (w.construct k l i).Outlives := by
  cases i with
  | registered => exact createBooked_outlives ho _ rfl rfl
  | refused => exact create_outlives ho _ rfl
  | withdrawn => exact create_outlives ho _ rfl

/-- A change of one instance that is alive, or that libuv is done with. -/
theorem setHandle_outlives (ho : w.Outlives) {x : HandleInstance}
    (hx : w.mem.status (.handle h) = .dead → x.Finished) : (w.setHandle h x).Outlives := by
  intro n hn
  by_cases hne : n = h
  · subst hne
    have he : (w.setHandle n x).handles n = x := Function.update_self _ _ _
    rw [he]
    exact hx hn
  · have he : (w.setHandle h x).handles n = w.handles n := Function.update_of_ne hne _ _
    rw [he]
    exact ho n hn

theorem finishClose_outlives (ho : w.Outlives) (h : ℕ) : (w.finishClose h).Outlives := by
  unfold World.finishClose
  split_ifs
  · exact ho
  · exact setHandle_outlives ho fun _ => .inr rfl

/-- A step leaves the memory of every linked handle alone exactly when it meets the
condition. -/
theorem step_outlives {w' : World} {e : Event} (hw : w.Booked 0) (ho : w.Outlives)
    (hs : w.step e = some w') : w'.Outlives ↔ w.ClosesInTime e := by
  cases step_acts hs with
  | newLoop =>
    refine iff_of_true (fun n hn => ho n ?_) trivial
    simpa [World.newLoop, Ledger.create] using hn
  | construct k i _ _ => exact iff_of_true (construct_outlives ho k _ i) trivial
  | process _ => exact iff_of_true (createBooked_outlives ho _ rfl rfl) trivial
  | @spawn h hv _ =>
    have hl : w.mem.status (.handle h) = .live := hw.balanced.live (by simp [held, hv])
    exact iff_of_true (setHandle_outlives ho (fun hd => by rw [hl] at hd; cases hd)) trivial
  | file ok _ =>
    refine iff_of_true ?_ trivial
    unfold World.file
    split_ifs
    · exact createBooked_outlives ho _ rfl rfl
    · exact create_outlives ho _ rfl
  | accept i _ => exact iff_of_true (construct_outlives ho _ _ i) trivial
  | acceptPending i _ _ => exact iff_of_true (construct_outlives ho _ _ i) trivial
  | copy _ => exact iff_of_true (fun n hn => ho n (by simpa using hn)) trivial
  | @drop o hv =>
    cases o with
    | loop l => exact iff_of_true (loopUnref_outlives (hw.takeVar hv) ho) trivial
    | handle h => exact handleUnref_outlives (hw.takeVar hv) ho
  | retain _ => exact iff_of_true (fun n hn => ho n (by simpa using hn)) trivial
  | release hh => exact handleUnref_outlives (hw.takeSelfRef hh) ho
  | @finishClose h _ => exact iff_of_true (finishClose_outlives ho h) trivial

end World

/-- In every run the memory of a handle outlives libuv's use of it exactly when no
last reference of an initialised handle goes while its loop stays. -/
theorem handle_outlives_iff (es : List Event) :
    (∀ w ∈ visited World.step World.init es, w.Outlives) ↔
      ∀ p ∈ taken World.step World.init es, p.1.ClosesInTime p.2 := by
  refine visited_iff_guarded (I := fun w : World => w.Booked 0 ∧ w.Outlives) (fun _ hw => hw.2) ?_ ?_ es _ ?_
  · intro w e w' hw hok hs
    exact ⟨hw.1.step hs, (World.step_outlives hw.1 hw.2 hs).mpr hok⟩
  · intro w e w' hw hbad hs hout
    exact hbad ((World.step_outlives hw.1 hw.2 hs).mp hout)
  · exact ⟨World.booked_init, World.outlives_init⟩

def timerDropped : List Event :=
  [.newLoop, .construct .timer 0 .registered, .drop (.handle 1)]

theorem handle_freed_while_closing :
    ¬ ∀ es : List Event, ∀ w ∈ visited World.step World.init es, w.Outlives := by
  intro h
  have hrun : ∀ w ∈ visited World.step World.init timerDropped,
      w.mem.status (.handle 1) = .dead → (w.handles 1).link ≠ .closing := by
    intro w hw hd hc
    rcases h timerDropped w hw 1 hd with ⟨_, hl⟩ | hl <;> rw [hc] at hl <;> cases hl
  revert hrun
  decide

end Uvcc.Loop
