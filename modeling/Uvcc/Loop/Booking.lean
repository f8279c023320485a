import Uvcc.Loop.Handles

/-!
# Handles keep their loops

Every count is the number of references that are held, the bookings among them,
and a handle that is open on a loop has booked it. So no handle is open on a loop
whose count comes to zero, and the loop destructor never finds one.
-/
namespace Uvcc.Loop
open Counting Machine

namespace HandleInstance

@[simp] theorem booking_drain (l : ℕ) (x : HandleInstance) : (x.drain l).booking = x.booking := by
  unfold drain
  split_ifs <;> rfl

@[simp] theorem loopInstance_drain (l : ℕ) (x : HandleInstance) :
    (x.drain l).loopInstance = x.loopInstance := by
  unfold drain
  split_ifs <;> rfl

@[simp] theorem uvLoop_drain (l : ℕ) (x : HandleInstance) : (x.drain l).uvLoop = x.uvLoop := by
  unfold drain
  split_ifs <;> rfl

@[simp] theorem kind_drain (l : ℕ) (x : HandleInstance) : (x.drain l).kind = x.kind := by
  unfold drain
  split_ifs <;> rfl

theorem booking_some {x : HandleInstance} {l : ℕ} (h : x.loopInstance = some l) :
    x.booking = {.loop l} := by
  simp [booking, h]

theorem booking_none {x : HandleInstance} (h : x.loopInstance = none) : x.booking = 0 := by
  simp [booking, h]

/-- An open handle has booked the loop it is open on, a booking is of the loop that
libuv knows, and what libuv never initialised is nowhere linked. -/
structure Sound (x : HandleInstance) : Prop where
  opened : x.link = .opened → x.loopInstance = x.uvLoop
  booked : ∀ l, x.loopInstance = some l → x.uvLoop = some l
  detached : x.initialised = false → x.link = .detached

theorem sound_blank : blank.Sound := ⟨by decide, by decide, by decide⟩

theorem Sound.drain {x : HandleInstance} (hx : x.Sound) (l : ℕ) : (x.drain l).Sound := by
  unfold HandleInstance.drain
  split_ifs with h
  · refine ⟨fun hl => by simp at hl, hx.booked, fun hi => ?_⟩
    have hd := hx.detached hi
    rw [h.2] at hd
    cases hd
  · exact hx

end HandleInstance

namespace World
variable {w : World} {h n l : ℕ} {x : HandleInstance}

/-! ## Bookings -/

theorem bookings_setHandle (hh : h < w.next) :
    (w.setHandle h x).bookings + (w.handles h).booking = w.bookings + x.booking := by
  have hm : h ∈ Finset.range w.next := Finset.mem_range.mpr hh
  have hcomp : ∀ n, ((w.setHandle h x).handles n).booking =
      Function.update (fun n => (w.handles n).booking) h x.booking n := by
    intro n
    by_cases hn : n = h
    · subst hn; simp [setHandle]
    · simp [setHandle, hn]
  have hsum : (w.setHandle h x).bookings =
      x.booking + ∑ n ∈ Finset.range w.next \ {h}, (w.handles n).booking := by
    rw [bookings, Finset.sum_congr rfl (fun n _ => hcomp n)]
    exact Finset.sum_update_of_mem hm _ _
  have hold : w.bookings =
      (w.handles h).booking + ∑ n ∈ Finset.range w.next \ {h}, (w.handles n).booking :=
    Finset.sum_eq_add_sum_sdiff_singleton_of_mem hm _
  rw [hsum, hold]
  abel

theorem mem_bookings (hh : h < w.next) (hb : (w.handles h).loopInstance = some l) :
    Obj.loop l ∈ w.bookings := by
  have hle : (w.handles h).booking ≤ w.bookings :=
    Finset.single_le_sum (fun _ _ => Multiset.zero_le _) (Finset.mem_range.mpr hh)
  rw [HandleInstance.booking_some hb] at hle
  exact Multiset.singleton_le.mp hle

theorem bookings_congr {w' : World} (hn : w'.next = w.next)
    (hb : ∀ n, (w'.handles n).booking = (w.handles n).booking) : w'.bookings = w.bookings := by
  rw [bookings, bookings, hn]
  exact Finset.sum_congr rfl (fun n _ => hb n)

/-! ## What a step does -/

inductive Acts (w : World) : Event → World → Prop where
  | newLoop : Acts w .newLoop w.newLoop
  | construct {l : ℕ} (k : Kind) (i : Init) (hl : .loop l ∈ w.vars) (hk : watcherKind k) :
    Acts w (.construct k l i) (w.construct k l i)
  | process {l : ℕ} (hl : .loop l ∈ w.vars) : Acts w (.process l) (w.process l)
  | spawn {h : ℕ} (hv : .handle h ∈ w.vars) (hk : (w.handles h).kind = .process) :
    Acts w (.spawn h) (w.spawn h)
  | file {l : ℕ} (ok : Bool) (hl : .loop l ∈ w.vars) : Acts w (.file l ok) (w.file l ok)
  | accept {h l : ℕ} (i : Init) (hl : w.serverLoop h = some l) :
    Acts w (.accept h i) (w.construct (w.handles h).kind l i)
  | acceptPending {h l : ℕ} {k : Kind} (i : Init) (hk : streamKind k) (hl : w.serverLoop h = some l) :
    Acts w (.acceptPending h k i) (w.construct k l i)
  | copy {o : Obj} (ho : o ∈ w.held) :
    Acts w (.copy o) { w with mem := w.mem.inc o, vars := o ::ₘ w.vars }
  | drop {o : Obj} (ho : o ∈ w.vars) : Acts w (.drop o) ({ w with vars := w.vars.erase o }.unref o)
  | retain {h : ℕ} (hh : .handle h ∈ w.held) :
    Acts w (.retain h) { w with mem := w.mem.inc (.handle h), selfRefs := h ::ₘ w.selfRefs }
  | release {h : ℕ} (hh : h ∈ w.selfRefs) :
    Acts w (.release h) ({ w with selfRefs := w.selfRefs.erase h }.handleUnref h)
  | finishClose {h : ℕ} (hc : (w.handles h).link = .closing) : Acts w (.finishClose h) (w.finishClose h)

theorem step_acts {w' : World} {e : Event} (hs : w.step e = some w') : w.Acts e w' := by
  replace hs := (Option.ite_none_left_eq_some.mp hs).2
  cases e with
  | newLoop =>
    obtain rfl := Option.some.inj hs
    exact .newLoop
  | construct k l i =>
    simp only [act, Option.ite_none_right_eq_some, Option.some.injEq] at hs
    obtain ⟨⟨hl, hk⟩, rfl⟩ := hs
    exact .construct k i hl hk
  | process l =>
    simp only [act, Option.ite_none_right_eq_some, Option.some.injEq] at hs
    obtain ⟨hl, rfl⟩ := hs
    exact .process hl
  | spawn h =>
    simp only [act, Option.ite_none_right_eq_some, Option.some.injEq] at hs
    obtain ⟨⟨hv, hk⟩, rfl⟩ := hs
    exact .spawn hv hk
  | file l ok =>
    simp only [act, Option.ite_none_right_eq_some, Option.some.injEq] at hs
    obtain ⟨hl, rfl⟩ := hs
    exact .file ok hl
  | accept h i =>
    obtain ⟨l, hl, rfl⟩ := Option.map_eq_some_iff.mp hs
    exact .accept i hl
  | acceptPending h k i =>
    simp only [act, Option.ite_none_right_eq_some] at hs
    obtain ⟨⟨_, hk⟩, hs⟩ := hs
    obtain ⟨l, hl, rfl⟩ := Option.map_eq_some_iff.mp hs
    exact .acceptPending i hk hl
  | copy o =>
    simp only [act, Option.ite_none_right_eq_some, Option.some.injEq] at hs
    obtain ⟨ho, rfl⟩ := hs
    exact .copy ho
  | drop o =>
    simp only [act, Option.ite_none_right_eq_some, Option.some.injEq] at hs
    obtain ⟨ho, rfl⟩ := hs
    exact .drop ho
  | retain h =>
    simp only [act, Option.ite_none_right_eq_some, Option.some.injEq] at hs
    obtain ⟨hh, rfl⟩ := hs
    exact .retain hh
  | release h =>
    simp only [act, Option.ite_none_right_eq_some, Option.some.injEq] at hs
    obtain ⟨hh, rfl⟩ := hs
    exact .release hh
  | finishClose h =>
    simp only [act, Option.ite_none_right_eq_some, Option.some.injEq] at hs
    obtain ⟨⟨hc, _⟩, rfl⟩ := hs
    exact .finishClose hc

/-! ## The invariant -/

/-- `X` are references in the hands of the code that is running. -/
structure Booked (w : World) (X : Multiset Obj) : Prop where
  balanced : w.mem.Balanced (X + w.held)
  sound : ∀ n, (w.handles n).Sound
  process : ∀ n, w.mem.status (.handle n) = .live → (w.handles n).kind = .process →
    (w.handles n).loopInstance = (w.handles n).uvLoop
  blank : ∀ n, w.next ≤ n → w.handles n = .blank
  unborn : ∀ n, w.next ≤ n →
    w.mem.status (.loop n) = .unborn ∧ w.mem.status (.handle n) = .unborn
  freed : ∀ n, w.freed n = true → w.mem.status (.handle n) = .dead
  threw : w.threw = false

variable {X Y : Multiset Obj}

theorem booked_init : init.Booked 0 where
  balanced := by simpa [init, held, bookings] using Ledger.Balanced.empty
  sound _ := HandleInstance.sound_blank
  process _ _ hk := by simp [init, HandleInstance.blank] at hk
  blank _ _ := rfl
  unborn _ _ := ⟨rfl, rfl⟩
  freed _ hf := (nomatch hf)
  threw := rfl

/-- The destructor of the loop gets to run it. -/
def Drains (w : World) (l : ℕ) : Prop := w.mem.refs (.loop l) - 1 = 0 ∧ w.walksFreed l = false

instance (w : World) (l : ℕ) : Decidable (w.Drains l) := inferInstanceAs (Decidable (_ ∧ _))

namespace Booked

/-- An object that somebody holds has a number that was given out. -/
theorem lt_next (hw : w.Booked X) (hl : w.mem.status (.handle h) = .live) : h < w.next := by
  by_contra hn
  have hu := (hw.unborn h (not_lt.mp hn)).2
  rw [hl] at hu
  cases hu

/-- The counts and the variables may change together. -/
theorem congr (hw : w.Booked X) {m : Ledger Obj} {v : Multiset Obj} {s : Multiset ℕ}
    (hm : m.Balanced (Y + { w with mem := m, vars := v, selfRefs := s }.held))
    (hlive : ∀ n, m.status (.handle n) = .live → w.mem.status (.handle n) = .live)
    (hunborn : ∀ o, w.mem.status o = .unborn → m.status o = .unborn)
    (hdead : ∀ o, w.mem.status o = .dead → m.status o = .dead) :
    { w with mem := m, vars := v, selfRefs := s }.Booked Y where
  balanced := hm
  sound := hw.sound
  process n hl := hw.process n (hlive n hl)
  blank := hw.blank
  unborn n hn := ⟨hunborn _ (hw.unborn n hn).1, hunborn _ (hw.unborn n hn).2⟩
  freed n hn := hdead _ (hw.freed n hn)
  threw := hw.threw

/-- The running code drops a reference it has. -/
theorem dec {o : Obj} (hw : w.Booked (o ::ₘ X)) : { w with mem := w.mem.dec o }.Booked X := by
  have hb := hw.balanced
  rw [Multiset.cons_add] at hb
  exact hw.congr hb.dec (fun _ => Ledger.status_dec_live) (fun o ho => by simpa using ho)
    (fun _ => Ledger.status_dec_dead)

theorem setHandle (hw : w.Booked X) (hh : h < w.next) (hx : x.Sound)
    (hXY : Y + x.booking = X + (w.handles h).booking)
    (hp : w.mem.status (.handle h) = .live → x.kind = .process → x.loopInstance = x.uvLoop) :
    (w.setHandle h x).Booked Y where
  balanced := by
    have hb := bookings_setHandle (x := x) hh
    have he : Y + (w.setHandle h x).held = X + w.held := by
      apply add_right_cancel (b := (w.handles h).booking)
      calc Y + (w.vars + w.selfRefs.map .handle + (w.setHandle h x).bookings) + (w.handles h).booking
          = Y + (w.vars + w.selfRefs.map .handle) +
              ((w.setHandle h x).bookings + (w.handles h).booking) := by abel
        _ = (Y + x.booking) + (w.vars + w.selfRefs.map .handle + w.bookings) := by rw [hb]; abel
        _ = X + w.held + (w.handles h).booking := by rw [hXY, held]; abel
    rw [he]
    exact hw.balanced
  sound n := by
    by_cases hn : n = h
    · subst hn; simpa [World.setHandle] using hx
    · simpa [World.setHandle, hn] using hw.sound n
  process n := by
    by_cases hn : n = h
    · subst hn; simpa [World.setHandle] using hp
    · simpa [World.setHandle, hn] using hw.process n
  blank n hn := by
    have hne : n ≠ h := fun he => absurd hh (not_lt.mpr (he ▸ hn))
    simpa [World.setHandle, hne] using hw.blank n hn
  unborn := hw.unborn
  freed := hw.freed
  threw := hw.threw

theorem drain (hw : w.Booked X) (l : ℕ) :
    { w with handles := fun n => (w.handles n).drain l }.Booked X where
  balanced := by
    have hb : { w with handles := fun n => (w.handles n).drain l }.bookings = w.bookings :=
      bookings_congr rfl (fun n => HandleInstance.booking_drain l (w.handles n))
    simp only [held, hb]
    exact hw.balanced
  sound n := (hw.sound n).drain l
  process n := by simpa using hw.process n
  blank n hn := by
    change (w.handles n).drain l = .blank
    rw [hw.blank n hn]
    rfl
  unborn := hw.unborn
  freed := hw.freed
  threw := hw.threw

/-! ## The loop is let go -/

/-- Whoever has the last reference of a loop, no handle is open on it. -/
theorem openOn_eq_false (hw : w.Booked (.loop l ::ₘ X)) (hz : w.mem.refs (.loop l) - 1 = 0) :
    w.openOn l = false := by
  by_contra hn
  have hany : w.openOn l = true := by simpa using hn
  obtain ⟨n, hlt, hopen⟩ := List.any_eq_true.mp hany
  simp only [decide_eq_true_eq] at hopen
  have hb : (w.handles n).loopInstance = some l := ((hw.sound n).opened hopen.2).trans hopen.1
  have hm : Obj.loop l ∈ X + w.held :=
    Multiset.mem_add.mpr (.inr (Multiset.mem_add.mpr (.inr (mem_bookings (List.mem_range.mp hlt) hb))))
  have hc := hw.balanced.count_eq (a := .loop l) (by simp)
  rw [Multiset.cons_add, Multiset.count_cons_self] at hc
  have hp := Multiset.one_le_count_iff_mem.mpr hm
  omega

theorem loopUnref_eq (hw : w.Booked (.loop l ::ₘ X)) :
    w.loopUnref l = { w with
      mem := w.mem.dec (.loop l)
      handles := fun n => if w.Drains l then (w.handles n).drain l else w.handles n
      strayed := w.strayed || (decide (w.mem.refs (.loop l) - 1 = 0) && w.walksFreed l) } := by
  unfold World.loopUnref Drains
  by_cases hz : w.mem.refs (.loop l) - 1 = 0
  · have ho : { w with mem := w.mem.dec (.loop l) }.openOn l = false := hw.openOn_eq_false hz
    have hf : { w with mem := w.mem.dec (.loop l) }.walksFreed l = w.walksFreed l := rfl
    rw [if_pos hz, destroyLoop, ho, hf, decide_eq_true hz]
    rcases Bool.eq_false_or_eq_true (w.walksFreed l) with hwalk | hwalk <;> simp [hz, hwalk]
  · rw [if_neg hz, decide_eq_false hz]
    simp [hz]

theorem stray (hw : w.Booked X) (b : Bool) : { w with strayed := b }.Booked X :=
  ⟨hw.balanced, hw.sound, hw.process, hw.blank, hw.unborn, hw.freed, hw.threw⟩

theorem loopUnref (hw : w.Booked (.loop l ::ₘ X)) : (w.loopUnref l).Booked X := by
  have hw' : { w with mem := w.mem.dec (.loop l) }.Booked X := hw.dec
  rw [hw.loopUnref_eq]
  by_cases hz : w.Drains l
  · simp only [if_pos hz]
    exact (hw'.drain l).stray _
  · simp only [if_neg hz]
    exact hw'.stray _

end Booked

/-! ## Nulling the pointer commutes with letting the loop go -/

theorem openOn_nullLoop (w : World) (h l : ℕ) : (w.nullLoop h).openOn l = w.openOn l := by
  unfold openOn
  congr 1
  funext n
  by_cases hn : n = h
  · subst hn; simp [nullLoop, setHandle]
  · simp [nullLoop, setHandle, hn]

theorem walksFreed_nullLoop (w : World) (h l : ℕ) : (w.nullLoop h).walksFreed l = w.walksFreed l := by
  unfold walksFreed
  congr 1
  funext n
  by_cases hn : n = h
  · subst hn; simp [nullLoop, setHandle, HandleInstance.linkedOn]
  · simp [nullLoop, setHandle, hn]

theorem drain_nullLoop (w : World) (h l : ℕ) :
    { w.nullLoop h with handles := fun n => ((w.nullLoop h).handles n).drain l } =
      { w with handles := fun n => (w.handles n).drain l }.nullLoop h := by
  have hd : (fun n => ((w.nullLoop h).handles n).drain l) =
      Function.update (fun n => (w.handles n).drain l) h
        { (w.handles h).drain l with loopInstance := none } := by
    funext n
    by_cases hn : n = h
    · subst hn
      simp only [nullLoop, setHandle, Function.update_self, HandleInstance.drain]
      split_ifs <;> rfl
    · simp [nullLoop, setHandle, hn]
  exact congrArg (fun f => { w with handles := f }) hd

theorem destroyLoop_nullLoop (w : World) (h l : ℕ) :
    (w.nullLoop h).destroyLoop l = (w.destroyLoop l).nullLoop h := by
  unfold destroyLoop
  rw [openOn_nullLoop, walksFreed_nullLoop]
  split_ifs
  · rfl
  · rfl
  · exact drain_nullLoop w h l

theorem loopUnref_nullLoop (w : World) (h l : ℕ) :
    (w.nullLoop h).loopUnref l = (w.loopUnref l).nullLoop h := by
  by_cases hz : w.mem.refs (.loop l) - 1 = 0
  · have hz' : (w.nullLoop h).mem.refs (.loop l) - 1 = 0 := hz
    rw [loopUnref, loopUnref, if_pos hz, if_pos hz']
    exact destroyLoop_nullLoop { w with mem := w.mem.dec (.loop l) } h l
  · have hz' : ¬ (w.nullLoop h).mem.refs (.loop l) - 1 = 0 := hz
    rw [loopUnref, loopUnref, if_neg hz, if_neg hz']
    rfl

theorem unbookLoop_eq (hb : (w.handles h).loopInstance = some l) :
    w.unbookLoop h = (w.nullLoop h).loopUnref l := by
  rw [unbookLoop, hb]
  exact (loopUnref_nullLoop w h l).symm

theorem unbookLoop_of_none (hb : (w.handles h).loopInstance = none) : w.unbookLoop h = w := by
  rw [unbookLoop, hb]

/-! ## A handle dies -/

theorem handles_uvClose_of_ne (hn : n ≠ h) : (w.uvClose h).handles n = w.handles n := by
  unfold uvClose
  split_ifs
  · simp [setHandle, hn]
  · rfl

theorem loopInstance_uvClose (w : World) (h : ℕ) :
    ((w.uvClose h).handles h).loopInstance = (w.handles h).loopInstance := by
  unfold uvClose
  split_ifs
  · simp [setHandle]
  · rfl

theorem mem_uvClose (w : World) (h : ℕ) : (w.uvClose h).mem = w.mem := by
  unfold uvClose
  split_ifs <;> rfl

theorem freed_uvClose (w : World) (h : ℕ) : (w.uvClose h).freed = w.freed := by
  unfold uvClose
  split_ifs <;> rfl

theorem next_uvClose (w : World) (h : ℕ) : (w.uvClose h).next = w.next := by
  unfold uvClose
  split_ifs <;> rfl

theorem mem_destroyLoop (w : World) (l : ℕ) : (w.destroyLoop l).mem = w.mem := by
  unfold destroyLoop
  split_ifs <;> rfl

theorem mem_loopUnref (w : World) (l : ℕ) : (w.loopUnref l).mem = w.mem.dec (.loop l) := by
  by_cases hz : w.mem.refs (.loop l) - 1 = 0
  · rw [loopUnref, if_pos hz, mem_destroyLoop]
  · rw [loopUnref, if_neg hz]

theorem mem_handleClose (w : World) (h : ℕ) : (w.handleClose h).mem =
    (w.handles h).loopInstance.elim w.mem (fun l => w.mem.dec (.loop l)) := by
  change ((w.uvClose h).unbookLoop h).mem = _
  rw [unbookLoop, loopInstance_uvClose]
  cases (w.handles h).loopInstance with
  | none => exact mem_uvClose w h
  | some l => exact (mem_loopUnref _ l).trans (congrArg (fun m => m.dec (.loop l)) (mem_uvClose w h))

theorem mem_finishClose (w : World) (h : ℕ) : (w.finishClose h).mem = w.mem := by
  unfold finishClose
  split_ifs <;> rfl

/-- A close gives up a reference on a loop at most. -/
theorem status_handleClose (w : World) (h n : ℕ) :
    (w.handleClose h).mem.status (.handle n) = w.mem.status (.handle n) := by
  rw [mem_handleClose]
  cases (w.handles h).loopInstance with
  | none => rfl
  | some l => exact Ledger.status_dec_of_ne _ (by simp)

namespace Booked

theorem nullLoop (hw : w.Booked X) (hh : h < w.next) (hb : (w.handles h).loopInstance = some l)
    (ho : (w.handles h).link ≠ .opened) (hdead : w.mem.status (.handle h) ≠ .live) :
    (w.nullLoop h).Booked (.loop l ::ₘ X) := by
  refine hw.setHandle hh ⟨fun hl => absurd hl ho, fun k hk => (nomatch hk), (hw.sound h).detached⟩ ?_
    (fun hl => absurd hl hdead)
  rw [HandleInstance.booking_some hb]
  change .loop l ::ₘ X + 0 = X + {.loop l}
  rw [add_zero, ← Multiset.singleton_add, add_comm]

theorem unbookLoop (hw : w.Booked X) (hh : h < w.next) (ho : (w.handles h).link ≠ .opened)
    (hdead : w.mem.status (.handle h) ≠ .live) : (w.unbookLoop h).Booked X := by
  cases hb : (w.handles h).loopInstance with
  | none =>
    rw [unbookLoop_of_none hb]
    exact hw
  | some l =>
    rw [unbookLoop_eq hb]
    exact (hw.nullLoop hh hb ho hdead).loopUnref

/-- `uv_close()`, for a handle that libuv has initialised. -/
theorem uvClose (hw : w.Booked X) (hh : h < w.next) (hdead : w.mem.status (.handle h) ≠ .live) :
    (w.uvClose h).Booked X ∧ ((w.uvClose h).handles h).link ≠ .opened := by
  unfold World.uvClose
  split_ifs with hi
  · refine ⟨hw.setHandle hh ⟨fun hl => (nomatch hl), (hw.sound h).booked, fun hn => ?_⟩ rfl
      (fun hl => absurd hl hdead), ?_⟩
    · simp [hi] at hn
    · simp [World.setHandle]
  · have hd := (hw.sound h).detached (by simpa using hi)
    exact ⟨hw, by simp [hd]⟩

theorem free (hw : w.Booked X) (hdead : w.mem.status (.handle h) = .dead) : (w.free h).Booked X where
  balanced := hw.balanced
  sound := hw.sound
  process := hw.process
  blank := hw.blank
  unborn := hw.unborn
  freed n hn := by
    by_cases hne : n = h
    · exact hne ▸ hdead
    · have hold : (w.free h).freed n = w.freed n := Function.update_of_ne hne _ _
      exact hw.freed n (hold ▸ hn)
  threw := hw.threw

theorem handleClose (hw : w.Booked X) (hh : h < w.next) (hdead : w.mem.status (.handle h) = .dead) :
    (w.handleClose h).Booked X := by
  have hgone : w.mem.status (.handle h) ≠ .live := by
    rw [hdead]
    decide
  obtain ⟨hc, ho⟩ := hw.uvClose hh hgone
  have hunbooked := hc.unbookLoop (next_uvClose w h ▸ hh) ho (mem_uvClose w h ▸ hgone)
  exact hunbooked.free ((status_handleClose w h h).trans hdead)

theorem handleUnref (hw : w.Booked (.handle h ::ₘ X)) : (w.handleUnref h).Booked X := by
  have hl : w.mem.status (.handle h) = .live := hw.balanced.live (by simp)
  have hw' : { w with mem := w.mem.dec (.handle h) }.Booked X := hw.dec
  unfold World.handleUnref
  split_ifs with hz
  · exact hw'.handleClose (hw.lt_next hl) (Ledger.status_dec_last hl hz)
  · exact hw'

theorem unref {o : Obj} (hw : w.Booked (o ::ₘ X)) : (w.unref o).Booked X := by
  cases o with
  | loop l => exact hw.loopUnref
  | handle h => exact hw.handleUnref

/-! ## New instances -/

theorem held_lt (hw : w.Booked X) {n : ℕ}
    (hn : Obj.loop n ∈ X + w.held ∨ Obj.handle n ∈ X + w.held) : n < w.next := by
  by_contra hlt
  have hu := hw.unborn n (not_lt.mp hlt)
  rcases hn with hn | hn
  · have hl := hw.balanced.live hn
    rw [hu.1] at hl
    cases hl
  · have hl := hw.balanced.live hn
    rw [hu.2] at hl
    cases hl

/-- A new handle, with the reference on its loop if it has booked one. -/
theorem add (hw : w.Booked 0) (hx : x.Sound) {m : Ledger Obj}
    (hm : m.Balanced (x.booking + .handle w.next ::ₘ w.held))
    (hst : m.status = Function.update w.mem.status (.handle w.next) .live)
    (hp : x.kind = .process → x.loopInstance = x.uvLoop) :
    { w.create x with mem := m }.Booked 0 where
  balanced := by
    have hb : { w.create x with mem := m }.bookings = w.bookings + x.booking := by
      have hsum := Finset.sum_range_succ (fun n => ((w.create x).handles n).booking) w.next
      have hnew : (w.create x).handles w.next = x := Function.update_self _ _ _
      have hold : ∀ n ∈ Finset.range w.next, ((w.create x).handles n).booking = (w.handles n).booking := by
        intro n hn
        have hne : n ≠ w.next := (Finset.mem_range.mp hn).ne
        simp [create, hne]
      rw [Finset.sum_congr rfl hold, hnew] at hsum
      exact hsum
    have he : (0 : Multiset Obj) + { w.create x with mem := m }.held =
        x.booking + .handle w.next ::ₘ w.held := by
      rw [zero_add, held, hb]
      change .handle w.next ::ₘ w.vars + w.selfRefs.map .handle + (w.bookings + x.booking) = _
      rw [held, ← Multiset.singleton_add, ← Multiset.singleton_add]
      abel
    rw [he]
    exact hm
  sound n := by
    by_cases hn : n = w.next
    · subst hn; simpa [create] using hx
    · simpa [create, hn] using hw.sound n
  process n := by
    by_cases hn : n = w.next
    · subst hn
      intro _
      simpa [create] using hp
    · simpa [create, hn, hst] using hw.process n
  blank n hn := by
    have hne : n ≠ w.next := Nat.ne_of_gt hn
    simpa [create, hne] using hw.blank n (Nat.le_of_succ_le hn)
  unborn n hn := by
    have hne : n ≠ w.next := Nat.ne_of_gt hn
    simpa [hst, hne] using hw.unborn n (Nat.le_of_succ_le hn)
  freed n hn := by
    have hdead : w.mem.status (.handle n) = .dead := hw.freed n hn
    have hne : n ≠ w.next := by
      rintro rfl
      rw [(hw.unborn w.next le_rfl).2] at hdead
      cases hdead
    simpa [hst, hne] using hdead
  threw := hw.threw

theorem create (hw : w.Booked 0) (hx : x.Sound) (hb : x.loopInstance = none)
    (hp : x.kind = .process → x.loopInstance = x.uvLoop) : (w.create x).Booked 0 := by
  have hm := hw.balanced.create (hw.unborn w.next le_rfl).2
  rw [zero_add] at hm
  refine hw.add hx ?_ rfl hp
  rw [HandleInstance.booking_none hb, zero_add]
  exact hm

theorem bookLoop_create (w : World) (x : HandleInstance) (hb : x.loopInstance = none)
    (hl : x.uvLoop = some l) : (w.create x).bookLoop w.next =
      { w.create { x with loopInstance := some l } with
        mem := (w.mem.create (.handle w.next)).inc (.loop l) } := by
  have hx : (w.create x).handles w.next = x := Function.update_self _ _ _
  have hun : (w.create x).unbookLoop w.next = w.create x :=
    unbookLoop_of_none (by rw [hx, hb])
  rw [bookLoop, hun, hx, hl]
  simp [World.create, World.setHandle, hl]

theorem createBooked (hw : w.Booked 0) (hl : .loop l ∈ w.held)
    (hx : { x with loopInstance := some l }.Sound) (hb : x.loopInstance = none) (hu : x.uvLoop = some l) :
    ((w.create x).bookLoop w.next).Booked 0 := by
  rw [bookLoop_create w x hb hu]
  have hm := hw.balanced.create (hw.unborn w.next le_rfl).2
  rw [zero_add] at hm
  have hinc := hm.inc (Multiset.mem_cons_of_mem hl)
  exact hw.add hx hinc (Ledger.status_inc _ _) (fun _ => hu.symm)

theorem newLoop (hw : w.Booked 0) : w.newLoop.Booked 0 where
  balanced := by
    have hm := hw.balanced.create (hw.unborn w.next le_rfl).1
    have hb : w.newLoop.bookings = w.bookings := by
      have hsum := Finset.sum_range_succ (fun n => (w.handles n).booking) w.next
      rw [hw.blank w.next le_rfl] at hsum
      exact hsum.trans (add_zero _)
    have he : (0 : Multiset Obj) + w.newLoop.held = .loop w.next ::ₘ (0 + w.held) := by
      rw [zero_add, zero_add, held, hb]
      change .loop w.next ::ₘ w.vars + w.selfRefs.map .handle + w.bookings = _
      rw [Multiset.cons_add, Multiset.cons_add, held]
    rw [he]
    exact hm
  sound := hw.sound
  process n := by simpa [World.newLoop, Ledger.create] using hw.process n
  blank n hn := hw.blank n (Nat.le_of_succ_le hn)
  unborn n hn := by
    have hne : n ≠ w.next := Nat.ne_of_gt hn
    simpa [World.newLoop, Ledger.create, hne] using hw.unborn n (Nat.le_of_succ_le hn)
  freed n hn := by
    have hdead : w.mem.status (.handle n) = .dead := hw.freed n hn
    simpa [World.newLoop, Ledger.create] using hdead
  threw := hw.threw

theorem construct (hw : w.Booked 0) (hl : .loop l ∈ w.held) {k : Kind} (hk : k ≠ .process) (i : Init) :
    (w.construct k l i).Booked 0 := by
  cases i with
  | registered =>
    exact hw.createBooked hl ⟨fun _ => rfl, fun _ hb => hb, fun hi => (nomatch hi)⟩ rfl rfl
  | refused =>
    exact hw.create ⟨fun hi => (nomatch hi), fun _ hb => (nomatch hb), fun _ => rfl⟩ rfl
      (fun h => absurd h hk)
  | withdrawn =>
    exact hw.create ⟨fun hi => (nomatch hi), fun _ hb => (nomatch hb), fun hi => (nomatch hi)⟩ rfl
      (fun h => absurd h hk)

/-- The loop of an open handle is alive. -/
theorem mem_held_of_opened (hw : w.Booked 0) (hv : .handle h ∈ w.vars)
    (ho : (w.handles h).link = .opened) (hl : (w.handles h).uvLoop = some l) : .loop l ∈ w.held := by
  have hheld : Obj.handle h ∈ 0 + w.held := by simp [held, hv]
  have hb : (w.handles h).loopInstance = some l := ((hw.sound h).opened ho).trans hl
  exact Multiset.mem_add.mpr (.inr (mem_bookings (hw.held_lt (.inr hheld)) hb))

theorem serverLoop (hw : w.Booked 0) (hs : w.serverLoop h = some l) :
    .loop l ∈ w.held ∧ streamKind (w.handles h).kind := by
  simp only [World.serverLoop, Option.ite_none_right_eq_some] at hs
  obtain ⟨⟨hv, hk, ho⟩, hl⟩ := hs
  exact ⟨hw.mem_held_of_opened hv ho hl, hk⟩

/-! ## References come and go -/

theorem copy (hw : w.Booked 0) {o : Obj} (ho : o ∈ w.held) :
    { w with mem := w.mem.inc o, vars := o ::ₘ w.vars }.Booked 0 := by
  have hm := hw.balanced.inc (a := o) (by simpa using ho)
  refine hw.congr (s := w.selfRefs) ?_ (fun _ => by simp) (fun _ => by simp) (fun _ => by simp)
  rw [zero_add] at hm ⊢
  change (w.mem.inc o).Balanced (o ::ₘ w.vars + w.selfRefs.map .handle + w.bookings)
  rw [Multiset.cons_add, Multiset.cons_add]
  exact hm

/-- The destructor of a variable has its reference in hand. -/
theorem takeVar (hw : w.Booked 0) {o : Obj} (ho : o ∈ w.vars) :
    { w with vars := w.vars.erase o }.Booked (o ::ₘ 0) := by
  refine hw.congr (m := w.mem) (s := w.selfRefs) ?_ (fun _ h => h) (fun _ h => h) (fun _ h => h)
  change w.mem.Balanced (o ::ₘ 0 + (w.vars.erase o + w.selfRefs.map .handle + w.bookings))
  rw [Multiset.cons_add, zero_add, ← Multiset.cons_add, ← Multiset.cons_add, Multiset.cons_erase ho]
  simpa [held] using hw.balanced

theorem retain (hw : w.Booked 0) (hh : .handle h ∈ w.held) :
    { w with mem := w.mem.inc (.handle h), selfRefs := h ::ₘ w.selfRefs }.Booked 0 := by
  have hm := hw.balanced.inc (a := .handle h) (by simpa using hh)
  refine hw.congr (v := w.vars) ?_ (fun _ => by simp) (fun _ => by simp) (fun _ => by simp)
  rw [zero_add] at hm ⊢
  change (w.mem.inc _).Balanced (w.vars + (h ::ₘ w.selfRefs).map .handle + w.bookings)
  rw [Multiset.map_cons, Multiset.add_cons, Multiset.cons_add]
  exact hm

theorem takeSelfRef (hw : w.Booked 0) (hh : h ∈ w.selfRefs) :
    { w with selfRefs := w.selfRefs.erase h }.Booked (.handle h ::ₘ 0) := by
  refine hw.congr (m := w.mem) (v := w.vars) ?_ (fun _ h => h) (fun _ h => h) (fun _ h => h)
  change w.mem.Balanced (.handle h ::ₘ 0 + (w.vars + (w.selfRefs.erase h).map .handle + w.bookings))
  rw [Multiset.cons_add, zero_add, ← Multiset.cons_add, ← Multiset.add_cons, ← Multiset.map_cons,
    Multiset.cons_erase hh]
  simpa [held] using hw.balanced

theorem spawn (hw : w.Booked 0) (hv : .handle h ∈ w.vars) (hk : (w.handles h).kind = .process) :
    (w.spawn h).Booked 0 := by
  have hheld : Obj.handle h ∈ 0 + w.held := by simp [held, hv]
  have hp := hw.process h (hw.balanced.live hheld) hk
  exact hw.setHandle (hw.held_lt (.inr hheld)) ⟨fun _ => hp, (hw.sound h).booked, fun hi => (nomatch hi)⟩
    rfl (fun _ _ => hp)

theorem finishClose (hw : w.Booked 0) (hc : (w.handles h).link = .closing) : (w.finishClose h).Booked 0 := by
  unfold World.finishClose
  split_ifs with hf
  · exact hw.stray true
  · have hlt : h < w.next := by
      by_contra hn
      rw [hw.blank h (not_lt.mp hn)] at hc
      cases hc
    refine hw.setHandle hlt ⟨fun ho => (nomatch ho), (hw.sound h).booked, fun hi => ?_⟩ rfl (hw.process h)
    have hd := (hw.sound h).detached hi
    rw [hc] at hd
    cases hd

theorem step {w' : World} {e : Event} (hw : w.Booked 0) (hs : w.step e = some w') : w'.Booked 0 := by
  have hvars : ∀ {o}, o ∈ w.vars → o ∈ w.held := fun ho => by simp [held, ho]
  cases step_acts hs with
  | newLoop => exact hw.newLoop
  | construct k i hl hk =>
    exact hw.construct (hvars hl) (by rintro rfl; simp [watcherKind] at hk) i
  | process hl =>
    exact hw.createBooked (hvars hl) ⟨fun ho => (nomatch ho), fun _ hb => hb, fun _ => rfl⟩ rfl rfl
  | spawn hv hk => exact hw.spawn hv hk
  | file ok hl =>
    unfold World.file
    split_ifs
    · exact hw.createBooked (hvars hl) ⟨fun ho => (nomatch ho), fun _ hb => hb, fun _ => rfl⟩ rfl rfl
    · exact hw.create ⟨fun ho => (nomatch ho), fun _ hb => (nomatch hb), fun _ => rfl⟩ rfl
        (fun h => (nomatch h))
  | accept i hl =>
    obtain ⟨hheld, hk⟩ := hw.serverLoop hl
    exact hw.construct hheld (by intro he; simp [he, streamKind] at hk) i
  | acceptPending i hk hl =>
    exact hw.construct (hw.serverLoop hl).1 (by rintro rfl; simp [streamKind] at hk) i
  | copy ho => exact hw.copy ho
  | drop ho => exact (hw.takeVar ho).unref
  | retain hh => exact hw.retain hh
  | release hh => exact (hw.takeSelfRef hh).handleUnref
  | finishClose hc => exact hw.finishClose hc

end Booked

end World
end Uvcc.Loop
