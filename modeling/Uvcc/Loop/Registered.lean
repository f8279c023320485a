import Uvcc.Loop.Closing

/-!
# Loops outlive their handles

Beside the run goes a record of the loop on which each event puts its new handle: a
successful init does, and a process and a file that is opened or wrapped count as put
on their loop too. A live handle holds one reference on its recorded loop and none on
any other, so the count of a loop tells how many such handles it has.
-/
namespace Uvcc.Loop
open Counting Machine

namespace HandleInstance

/-- What libuv has initialised is not off the loop again. -/
def Linked (x : HandleInstance) : Prop := x.initialised = true → x.link ≠ .detached

theorem Linked.drain {x : HandleInstance} (hx : x.Linked) (l : ℕ) : (x.drain l).Linked := by
  unfold HandleInstance.drain
  split_ifs
  · exact fun _ => by simp
  · exact hx

end HandleInstance

/-- The loop on which the event puts the handle that it creates. -/
def World.registers (w : World) : Event → Option ℕ
  | .construct _ l .registered => some l
  | .process l => some l
  | .file l true => some l
  | .accept h .registered => w.serverLoop h
  | .acceptPending h _ .registered => w.serverLoop h
  | _ => none

def enter (registered : ℕ → Option ℕ) (n : ℕ) : Option ℕ → ℕ → Option ℕ
  | some l => Function.update registered n (some l)
  | none => registered

structure Tracked where
  world : World
  registered : ℕ → Option ℕ

namespace Tracked

def init : Tracked := ⟨World.init, fun _ => none⟩

def step (t : Tracked) (e : Event) : Option Tracked :=
  (t.world.step e).map fun w => ⟨w, enter t.registered t.world.next (t.world.registers e)⟩

def registeredOn (t : Tracked) (l : ℕ) : Finset ℕ :=
  (Finset.range t.world.next).filter fun n =>
    t.world.mem.status (.handle n) = .live ∧ t.registered n = some l

/-- The references on a loop are its variables and one for each live handle that is
registered on it. -/
structure HoldsOne (t : Tracked) : Prop where
  holds : ∀ n, t.world.mem.status (.handle n) = .live →
    (t.world.handles n).loopInstance = t.registered n
  released : ∀ n, t.world.mem.status (.handle n) ≠ .live → (t.world.handles n).loopInstance = none
  refs : ∀ l, t.world.mem.status (.loop l) = .live →
    t.world.mem.refs (.loop l) = t.world.vars.count (.loop l) + (t.registeredOn l).card
  alive : ∀ l, ∀ n ∈ t.registeredOn l, t.world.mem.status (.loop l) = .live
  fault : t.world.mem.fault = false

/-- Every handle that libuv has initialised on a loop which is gone has been passed to
`uv_close()`. -/
def ClosedFirst (t : Tracked) : Prop :=
  ∀ l, t.world.mem.status (.loop l) = .dead → ∀ n, t.registered n = some l →
    (t.world.handles n).initialised = true →
      (t.world.handles n).link = .closing ∨ (t.world.handles n).link = .closed

end Tracked

namespace World
variable {w w' : World} {reg : ℕ → Option ℕ} {h l : ℕ} {X : Multiset Obj}

/-- A live handle has booked the loop it is registered on, and no other handle has
booked any. -/
structure Tracks (w : World) (reg : ℕ → Option ℕ) : Prop where
  live : ∀ n, w.mem.status (.handle n) = .live → (w.handles n).loopInstance = reg n
  gone : ∀ n, w.mem.status (.handle n) ≠ .live → (w.handles n).loopInstance = none
  uvLoop : ∀ n l, reg n = some l → (w.handles n).uvLoop = some l
  linked : ∀ n l, reg n = some l → (w.handles n).Linked
  fresh : ∀ n, w.next ≤ n → reg n = none

theorem tracks_init : init.Tracks fun _ => none where
  live _ hl := by cases hl
  gone _ _ := rfl
  uvLoop _ _ hr := by cases hr
  linked _ _ hr := by cases hr
  fresh _ _ := rfl

namespace Tracks

/-- Handles keep their bookings and do not come or go. -/
theorem congr (hw : w.Tracks reg)
    (hst : ∀ n, w'.mem.status (.handle n) = w.mem.status (.handle n))
    (hb : ∀ n, (w'.handles n).loopInstance = (w.handles n).loopInstance)
    (hu : ∀ n, (w'.handles n).uvLoop = (w.handles n).uvLoop)
    (hk : ∀ n, (w.handles n).Linked → (w'.handles n).Linked) (hn : w.next ≤ w'.next) :
    w'.Tracks reg where
  live n hl := by
    rw [hb]
    exact hw.live n (hst n ▸ hl)
  gone n hl := by
    rw [hb]
    exact hw.gone n (hst n ▸ hl)
  uvLoop n l hr := (hu n).trans (hw.uvLoop n l hr)
  linked n l hr := hk n (hw.linked n l hr)
  fresh n hge := hw.fresh n (hn.trans hge)

theorem setHandle (hw : w.Tracks reg) {x : HandleInstance}
    (hb : x.loopInstance = (w.handles h).loopInstance) (hu : x.uvLoop = (w.handles h).uvLoop)
    (hx : x.Linked) : (w.setHandle h x).Tracks reg := by
  have hself : (w.setHandle h x).handles h = x := Function.update_self _ _ _
  have hne : ∀ n, n ≠ h → (w.setHandle h x).handles n = w.handles n :=
    fun n hn => Function.update_of_ne hn _ _
  refine hw.congr (fun _ => rfl) (fun n => ?_) (fun n => ?_) (fun n hk => ?_) le_rfl
  · by_cases hn : n = h
    · subst hn; rw [hself, hb]
    · rw [hne n hn]
  · by_cases hn : n = h
    · subst hn; rw [hself, hu]
    · rw [hne n hn]
  · by_cases hn : n = h
    · subst hn; rw [hself]; exact hx
    · rw [hne n hn]; exact hk

theorem stray (hw : w.Tracks reg) (b : Bool) : { w with strayed := b }.Tracks reg :=
  ⟨hw.live, hw.gone, hw.uvLoop, hw.linked, hw.fresh⟩

theorem drained (hw : w.Tracks reg) (l : ℕ) :
    { w with handles := fun n => (w.handles n).drain l }.Tracks reg :=
  hw.congr (fun _ => rfl) (fun n => HandleInstance.loopInstance_drain l (w.handles n))
    (fun n => HandleInstance.uvLoop_drain l (w.handles n)) (fun _ hk => hk.drain l) le_rfl

/-! ## A new handle -/

/-- `x` is what the constructor leaves, with the loop it has put the handle on. -/
theorem add (hw : w.Tracks reg) {x : HandleInstance} {m : Ledger Obj}
    (hst : m.status = Function.update w.mem.status (.handle w.next) .live)
    (hu : ∀ l, x.loopInstance = some l → x.uvLoop = some l)
    (hx : ∀ l, x.loopInstance = some l → x.Linked) :
    { w.create x with mem := m }.Tracks (Function.update reg w.next x.loopInstance) := by
  have hself : (w.create x).handles w.next = x := Function.update_self _ _ _
  have hne : ∀ n, n ≠ w.next → (w.create x).handles n = w.handles n :=
    fun n hn => Function.update_of_ne hn _ _
  have hstne : ∀ n, n ≠ w.next → m.status (.handle n) = w.mem.status (.handle n) := by
    intro n hn
    rw [hst]
    exact Function.update_of_ne (by simpa using hn) _ _
  constructor
  case live =>
    intro n hl
    by_cases hn : n = w.next
    · subst hn
      rw [Function.update_self]
      exact congrArg HandleInstance.loopInstance hself
    · rw [Function.update_of_ne hn]
      change ((w.create x).handles n).loopInstance = reg n
      rw [hne n hn]
      exact hw.live n (hstne n hn ▸ hl)
  case gone =>
    intro n hl
    by_cases hn : n = w.next
    · subst hn
      exact absurd (by simp [hst]) hl
    · change ((w.create x).handles n).loopInstance = none
      rw [hne n hn]
      exact hw.gone n (hstne n hn ▸ hl)
  case uvLoop =>
    intro n l hr
    change ((w.create x).handles n).uvLoop = some l
    by_cases hn : n = w.next
    · subst hn
      rw [Function.update_self] at hr
      rw [hself]
      exact hu l hr
    · rw [Function.update_of_ne hn] at hr
      rw [hne n hn]
      exact hw.uvLoop n l hr
  case linked =>
    intro n l hr
    change ((w.create x).handles n).Linked
    by_cases hn : n = w.next
    · subst hn
      rw [Function.update_self] at hr
      rw [hself]
      exact hx l hr
    · rw [Function.update_of_ne hn] at hr
      rw [hne n hn]
      exact hw.linked n l hr
  case fresh =>
    intro n hge
    have hn : n ≠ w.next := Nat.ne_of_gt hge
    rw [Function.update_of_ne hn]
    exact hw.fresh n (Nat.le_of_succ_le hge)

theorem create (hw : w.Tracks reg) {x : HandleInstance} (hb : x.loopInstance = none) :
    (w.create x).Tracks reg := by
  have h := hw.add (x := x) (m := w.mem.create (.handle w.next)) rfl
    (fun l hl => by rw [hb] at hl; cases hl) (fun l hl => by rw [hb] at hl; cases hl)
  have hreg : Function.update reg w.next x.loopInstance = reg := by
    rw [hb, ← hw.fresh w.next le_rfl]
    exact Function.update_eq_self _ _
  rwa [hreg] at h

theorem createBooked (hw : w.Tracks reg) {x : HandleInstance} (hb : x.loopInstance = none)
    (hu : x.uvLoop = some l) (hx : x.Linked) :
    ((w.create x).bookLoop w.next).Tracks (Function.update reg w.next (some l)) := by
  rw [Booked.bookLoop_create w x hb hu]
  refine hw.add (x := { x with loopInstance := some l }) (Ledger.status_inc _ _) (fun k hk => ?_) fun _ _ => hx
  exact hu.trans hk

theorem construct (hw : w.Tracks reg) (k : Kind) (l : ℕ) (i : Init) :
    (w.construct k l i).Tracks (enter reg w.next (if i = .registered then some l else none)) := by
  cases i with
  | registered => exact hw.createBooked rfl rfl fun _ => by simp
  | refused => exact hw.create rfl
  | withdrawn => exact hw.create rfl

/-! ## A reference goes -/

theorem dec (hw : w.Tracks reg) (l : ℕ) : { w with mem := w.mem.dec (.loop l) }.Tracks reg := by
  refine hw.congr (fun n => ?_) (fun _ => rfl) (fun _ => rfl) (fun _ hk => hk) le_rfl
  exact Ledger.status_dec_of_ne _ (by simp)

theorem loopUnref (hw : w.Tracks reg) (hb : w.Booked (.loop l ::ₘ X)) :
    (w.loopUnref l).Tracks reg := by
  rw [hb.loopUnref_eq]
  by_cases hz : w.Drains l
  · simp only [if_pos hz]
    exact ((hw.dec l).drained l).stray _
  · simp only [if_neg hz]
    exact (hw.dec l).stray _

end Tracks

theorem next_handleClose (hw : w.Booked X) (hh : h < w.next) (hd : w.mem.status (.handle h) ≠ .live) :
    (w.handleClose h).next = w.next := by
  cases hb : (w.handles h).loopInstance with
  | none =>
    rw [handleClose_unbooked hb]
    exact next_uvClose w h
  | some l => exact (handleClose_booked hw hh hd hb).1

/-- The handle that is closed has given up its loop. -/
theorem loopInstance_closed (w : World) (h : ℕ) : (w.closed h h).loopInstance = none := by
  cases hi : (w.handles h).initialised with
  | true => rw [closed_self hi]
  | false => rw [closed_self_of_not hi]

theorem uvLoop_closed (w : World) (h n : ℕ) : (w.closed h n).uvLoop = (w.handles n).uvLoop := by
  by_cases hn : n = h
  · subst hn
    cases hi : (w.handles n).initialised with
    | true => rw [closed_self hi]
    | false => rw [closed_self_of_not hi]
  · rw [closed_of_ne hn]

theorem linked_closed {n : ℕ} (hk : (w.handles n).Linked) : (w.closed h n).Linked := by
  by_cases hn : n = h
  · subst hn
    cases hi : (w.handles n).initialised with
    | true =>
      rw [closed_self hi]
      exact fun _ => by simp
    | false =>
      rw [closed_self_of_not hi]
      intro hi'
      rw [hi] at hi'
      cases hi'
  · rwa [closed_of_ne hn]

theorem loopInstance_handleClose (hw : w.Booked X) (hh : h < w.next)
    (hd : w.mem.status (.handle h) ≠ .live) (n : ℕ) :
    ((w.handleClose h).handles n).loopInstance = (w.closed h n).loopInstance := by
  rcases handles_handleClose_cases hw hh hd n with hx | ⟨l, hx⟩
  · rw [hx]
  · rw [hx, HandleInstance.loopInstance_drain]

theorem uvLoop_handleClose (hw : w.Booked X) (hh : h < w.next)
    (hd : w.mem.status (.handle h) ≠ .live) (n : ℕ) :
    ((w.handleClose h).handles n).uvLoop = (w.handles n).uvLoop := by
  rcases handles_handleClose_cases hw hh hd n with hx | ⟨l, hx⟩
  · rw [hx, uvLoop_closed]
  · rw [hx, HandleInstance.uvLoop_drain, uvLoop_closed]

theorem linked_handleClose (hw : w.Booked X) (hh : h < w.next)
    (hd : w.mem.status (.handle h) ≠ .live) {n : ℕ} (hk : (w.handles n).Linked) :
    ((w.handleClose h).handles n).Linked := by
  rcases handles_handleClose_cases hw hh hd n with hx | ⟨l, hx⟩
  · rw [hx]
    exact linked_closed hk
  · rw [hx]
    exact (linked_closed hk).drain l

namespace Tracks

/-- The last reference of the handle goes, and its booking with it. -/
theorem handleUnref_last (hw : w.Tracks reg) (hb : w.Booked (.handle h ::ₘ X))
    (hz : w.mem.refs (.handle h) - 1 = 0) :
    ({ w with mem := w.mem.dec (.handle h) }.handleClose h).Tracks reg := by
  have hl : w.mem.status (.handle h) = .live := hb.balanced.live (by simp)
  have hlt := hb.lt_next hl
  have hdead : (w.mem.dec (.handle h)).status (.handle h) = .dead := Ledger.status_dec_last hl hz
  have hd : (w.mem.dec (.handle h)).status (.handle h) ≠ .live := by rw [hdead]; decide
  have hb' : { w with mem := w.mem.dec (.handle h) }.Booked X := hb.dec
  have hst := status_handleClose { w with mem := w.mem.dec (.handle h) } h
  have hbook := loopInstance_handleClose hb' hlt hd
  have hother : ∀ n, n ≠ h → (w.mem.dec (.handle h)).status (.handle n) = w.mem.status (.handle n) :=
    fun n hn => Ledger.status_dec_of_ne _ (by simpa using hn)
  have hsame : ∀ n, n ≠ h →
      ({ w with mem := w.mem.dec (.handle h) }.closed h n).loopInstance = (w.handles n).loopInstance :=
    fun n hn => congrArg HandleInstance.loopInstance (closed_of_ne hn)
  constructor
  case live =>
    intro n hn
    rw [hst] at hn
    have hne : n ≠ h := by
      rintro rfl
      exact hd hn
    rw [hbook, hsame n hne]
    exact hw.live n (hother n hne ▸ hn)
  case gone =>
    intro n hn
    rw [hst] at hn
    rw [hbook]
    by_cases hne : n = h
    · subst hne
      exact loopInstance_closed _ n
    · rw [hsame n hne]
      exact hw.gone n (hother n hne ▸ hn)
  case uvLoop =>
    intro n l hr
    rw [uvLoop_handleClose hb' hlt hd]
    exact hw.uvLoop n l hr
  case linked =>
    intro n l hr
    exact linked_handleClose hb' hlt hd (hw.linked n l hr)
  case fresh =>
    intro n hn
    rw [next_handleClose hb' hlt hd] at hn
    exact hw.fresh n hn

theorem handleUnref (hw : w.Tracks reg) (hb : w.Booked (.handle h ::ₘ X)) :
    (w.handleUnref h).Tracks reg := by
  unfold World.handleUnref
  split_ifs with hz
  · exact hw.handleUnref_last hb hz
  · refine hw.congr (fun n => ?_) (fun _ => rfl) (fun _ => rfl) (fun _ hk => hk) le_rfl
    exact congrFun (Ledger.status_dec_not_last hz) _

theorem unref {o : Obj} (hw : w.Tracks reg) (hb : w.Booked (o ::ₘ X)) : (w.unref o).Tracks reg := by
  cases o with
  | loop l => exact hw.loopUnref hb
  | handle h => exact hw.handleUnref hb

/-! ## Every step -/

/-- The counts and the variables change, no instance does. -/
theorem sameHandles (hw : w.Tracks reg) {m : Ledger Obj} {v : Multiset Obj} {s : Multiset ℕ}
    (hst : m.status = w.mem.status) : { w with mem := m, vars := v, selfRefs := s }.Tracks reg :=
  hw.congr (fun _ => congrFun hst _) (fun _ => rfl) (fun _ => rfl) (fun _ hk => hk) le_rfl

end Tracks

theorem registers_accept {i : Init} (hl : w.serverLoop h = some l) :
    w.registers (.accept h i) = if i = .registered then some l else none := by
  cases i with
  | registered => exact hl
  | refused => rfl
  | withdrawn => rfl

theorem registers_acceptPending {k : Kind} {i : Init} (hl : w.serverLoop h = some l) :
    w.registers (.acceptPending h k i) = if i = .registered then some l else none := by
  cases i with
  | registered => exact hl
  | refused => rfl
  | withdrawn => rfl

/-- One step, with the loop that it registers its new handle on. -/
theorem step_tracks {e : Event} (hw : w.Tracks reg) (hb : w.Booked 0) (hs : w.step e = some w') :
    w'.Tracks (enter reg w.next (w.registers e)) := by
  cases step_acts hs with
  | newLoop =>
    refine hw.congr (fun n => ?_) (fun _ => rfl) (fun _ => rfl) (fun _ hk => hk) (Nat.le_succ _)
    simp [newLoop, Ledger.create]
  | @construct l k i _ _ =>
    have h := hw.construct k l i
    cases i <;> exact h
  | process _ => exact hw.createBooked rfl rfl fun hi => by simp at hi
  | @spawn h _ _ => exact hw.setHandle rfl rfl fun _ => by simp
  | @file l ok _ =>
    cases ok with
    | true => exact hw.createBooked rfl rfl fun hi => by simp at hi
    | false => exact hw.create rfl
  | @accept h l i hl =>
    rw [registers_accept hl]
    exact hw.construct _ l i
  | @acceptPending h l k i _ hl =>
    rw [registers_acceptPending hl]
    exact hw.construct k l i
  | copy _ => exact hw.sameHandles (Ledger.status_inc _ _)
  | drop ho => exact (hw.sameHandles rfl).unref (hb.takeVar ho)
  | retain _ => exact hw.sameHandles (Ledger.status_inc _ _)
  | release hh => exact (hw.sameHandles rfl).handleUnref (hb.takeSelfRef hh)
  | @finishClose h _ =>
    change (w.finishClose h).Tracks reg
    unfold World.finishClose
    split_ifs
    · exact hw.stray true
    · exact hw.setHandle rfl rfl fun _ => by simp

/-! ## What has been deleted is not read -/

theorem strayed_uvClose (w : World) (h : ℕ) : (w.uvClose h).strayed = w.strayed := by
  unfold World.uvClose
  split_ifs <;> rfl

theorem strayed_createBooked {x : HandleInstance} (hb : x.loopInstance = none) (hu : x.uvLoop = some l) :
    ((w.create x).bookLoop w.next).strayed = w.strayed := by
  rw [Booked.bookLoop_create w x hb hu]
  rfl

theorem strayed_construct (w : World) (k : Kind) (l : ℕ) (i : Init) : (w.construct k l i).strayed = w.strayed := by
  cases i with
  | registered => exact strayed_createBooked rfl rfl
  | refused => rfl
  | withdrawn => rfl

theorem strayed_loopUnref (hw : w.Booked (.loop l ::ₘ X)) (hwalk : w.walksFreed l = false) :
    (w.loopUnref l).strayed = w.strayed := by
  rw [hw.loopUnref_eq]
  simp [hwalk]

theorem strayed_handleUnref (hw : w.Booked (.handle h ::ₘ X)) (ho : w.Outlives) :
    (w.handleUnref h).strayed = w.strayed := by
  unfold World.handleUnref
  split_ifs with hz
  · have hl : w.mem.status (.handle h) = .live := hw.balanced.live (by simp)
    have hd : (w.mem.dec (.handle h)).status (.handle h) ≠ .live := by
      rw [Ledger.status_dec_last hl hz]
      decide
    have hlt := hw.lt_next hl
    let w1 : World := { w with mem := w.mem.dec (.handle h) }
    have hw1 : w1.Booked X := hw.dec
    obtain ⟨hc, hopen⟩ := hw1.uvClose hlt hd
    have hclose : (w1.uvClose h).strayed = w.strayed := strayed_uvClose w1 h
    change ((w1.uvClose h).unbookLoop h).strayed = w.strayed
    cases hb : (w.handles h).loopInstance with
    | none =>
      have hb1 : ((w1.uvClose h).handles h).loopInstance = none := (loopInstance_uvClose w1 h).trans hb
      rw [unbookLoop_of_none hb1, hclose]
    | some l =>
      have hb1 : ((w1.uvClose h).handles h).loopInstance = some l := (loopInstance_uvClose w1 h).trans hb
      have hn := hc.nullLoop (next_uvClose w1 h ▸ hlt) hb1 hopen (mem_uvClose w1 h ▸ hd)
      have hwalk : ((w1.uvClose h).nullLoop h).walksFreed l = false := by
        rw [walksFreed_nullLoop]
        exact ho.walksFreed_uvClose hw hl _ l
      rw [unbookLoop_eq hb1, strayed_loopUnref hn hwalk]
      exact hclose
  · rfl

/-- As long as libuv is done with all that has been deleted, nothing goes astray. -/
theorem step_strayed {e : Event} (hw : w.Booked 0) (ho : w.Outlives) (hs : w.step e = some w') :
    w'.strayed = w.strayed := by
  cases step_acts hs with
  | construct k i _ _ => exact strayed_construct w k _ i
  | process _ => exact strayed_createBooked rfl rfl
  | file ok _ =>
    cases ok with
    | true => exact strayed_createBooked rfl rfl
    | false => rfl
  | accept i _ => exact strayed_construct w _ _ i
  | acceptPending i _ _ => exact strayed_construct w _ _ i
  | @drop o hv =>
    cases o with
    | loop l =>
      have hwalk : { w with vars := w.vars.erase (.loop l) }.walksFreed l = false := ho.walksFreed hw l
      exact strayed_loopUnref (hw.takeVar hv) hwalk
    | handle h => exact strayed_handleUnref (hw.takeVar hv) ho
  | release hh => exact strayed_handleUnref (hw.takeSelfRef hh) ho
  | @finishClose h hc =>
    have hkept : w.freed h = false := by
      by_contra hf
      have hfreed : w.freed h = true := by simpa using hf
      rcases ho h (hw.freed h hfreed) with ⟨_, hl⟩ | hl <;> rw [hc] at hl <;> cases hl
    unfold World.finishClose
    rw [hkept]
    rfl
  | _ => rfl

end World

namespace Tracked
variable {t t' : Tracked} {l n : ℕ}

structure Inv (t : Tracked) : Prop where
  booked : t.world.Booked 0
  tracks : t.world.Tracks t.registered

theorem inv_init : init.Inv := ⟨World.booked_init, World.tracks_init⟩

theorem Inv.step {e : Event} (ht : t.Inv) (hs : t.step e = some t') : t'.Inv := by
  obtain ⟨w, hw, rfl⟩ := Option.map_eq_some_iff.mp hs
  exact ⟨ht.booked.step hw, World.step_tracks ht.tracks ht.booked hw⟩

theorem Inv.mem_registeredOn (ht : t.Inv) :
    n ∈ t.registeredOn l ↔ n < t.world.next ∧ (t.world.handles n).loopInstance = some l := by
  rw [registeredOn, Finset.mem_filter, Finset.mem_range]
  refine and_congr_right fun _ => ⟨fun h => (ht.tracks.live n h.1).trans h.2, fun h => ?_⟩
  have hl : t.world.mem.status (.handle n) = .live := by
    by_contra hn
    rw [ht.tracks.gone n hn] at h
    cases h
  exact ⟨hl, (ht.tracks.live n hl).symm.trans h⟩

/-- The bookings of a loop are its registered handles. -/
theorem Inv.count_bookings (ht : t.Inv) (l : ℕ) :
    t.world.bookings.count (.loop l) = (t.registeredOn l).card := by
  have hone : ∀ n ∈ Finset.range t.world.next, ((t.world.handles n).booking).count (.loop l) =
      if n ∈ t.registeredOn l then 1 else 0 := by
    intro n hn
    have hiff := ht.mem_registeredOn (l := l) (n := n)
    split_ifs with hmem
    · rw [HandleInstance.booking_some (hiff.mp hmem).2, Multiset.count_singleton_self]
    · refine Multiset.count_eq_zero_of_notMem fun hb => hmem (hiff.mpr ⟨Finset.mem_range.mp hn, ?_⟩)
      cases hx : (t.world.handles n).loopInstance with
      | none => simp [HandleInstance.booking_none hx] at hb
      | some k => simpa [HandleInstance.booking_some hx, eq_comm] using hb
  have hsub : t.registeredOn l ⊆ Finset.range t.world.next := Finset.filter_subset _ _
  calc t.world.bookings.count (.loop l)
      = ∑ n ∈ Finset.range t.world.next, ((t.world.handles n).booking).count (.loop l) :=
        Multiset.count_sum'
    _ = ∑ n ∈ Finset.range t.world.next, if n ∈ t.registeredOn l then 1 else 0 :=
        Finset.sum_congr rfl hone
    _ = (t.registeredOn l).card := by
        rw [Finset.sum_ite_mem, Finset.inter_eq_right.mpr hsub, Finset.card_eq_sum_ones]

theorem Inv.holdsOne (ht : t.Inv) : t.HoldsOne where
  holds := ht.tracks.live
  released := ht.tracks.gone
  refs l hl := by
    have hc := ht.booked.balanced.refs_eq (.loop l) hl
    have hs : (t.world.selfRefs.map Obj.handle).count (.loop l) = 0 :=
      Multiset.count_eq_zero_of_notMem (by simp)
    rw [hc, zero_add, World.held, Multiset.count_add, Multiset.count_add, hs, add_zero,
      ht.count_bookings l]
    exact Nat.cast_add _ _
  alive l n hn := by
    obtain ⟨hlt, hb⟩ := ht.mem_registeredOn.mp hn
    refine ht.booked.balanced.live (Multiset.mem_add.mpr (.inr ?_))
    exact Multiset.mem_add.mpr (.inr (World.mem_bookings hlt hb))
  fault := ht.booked.balanced.fault

theorem Inv.closedFirst (ht : t.Inv) : t.ClosedFirst := by
  intro l hd n hr hi
  cases hl : (t.world.handles n).link with
  | detached => exact absurd hl (ht.tracks.linked n l hr hi)
  | opened =>
    have hb : (t.world.handles n).loopInstance = some l :=
      ((ht.booked.sound n).opened hl).trans (ht.tracks.uvLoop n l hr)
    have hlt : n < t.world.next := by
      by_contra hge
      rw [ht.tracks.fresh n (not_lt.mp hge)] at hr
      cases hr
    have hlive := ht.holdsOne.alive l n (ht.mem_registeredOn.mpr ⟨hlt, hb⟩)
    rw [hd] at hlive
    cases hlive
  | closing => exact .inl rfl
  | closed => exact .inr rfl

end Tracked

/-- The state keeps to the claim: each live handle that was registered on a loop has one
reference on it, no loop has gone before its handles were closed, its destructor has not
thrown, and it has decided so, and will, from handles that are still there. -/
structure Tracked.LoopsOutlive (t : Tracked) : Prop where
  holdsOne : t.HoldsOne
  closedFirst : t.ClosedFirst
  threw : t.world.threw = false
  strayed : t.world.strayed = false
  intact : t.world.Outlives

/-- In every run the references are kept and no destructor of a loop finds a handle open.
The destructors read no freed memory exactly when no last reference of an initialised
handle goes while its loop stays. -/
theorem loop_outlives_handles_iff (es : List Event) :
    (∀ t ∈ visited Tracked.step Tracked.init es, t.HoldsOne ∧ t.ClosedFirst ∧ t.world.threw = false) ∧
    ((∀ t ∈ visited Tracked.step Tracked.init es, t.LoopsOutlive) ↔
      ∀ p ∈ taken Tracked.step Tracked.init es, p.1.world.ClosesInTime p.2) := by
  constructor
  · have hall : ∀ t ∈ visited Tracked.step Tracked.init es, t.Inv :=
      visited_invariant (fun _ _ _ ht hs => ht.step hs) es _ Tracked.inv_init
    exact fun t ht => ⟨(hall t ht).holdsOne, (hall t ht).closedFirst, (hall t ht).booked.threw⟩
  · have hinit : Tracked.init.Inv ∧ Tracked.init.world.Outlives ∧ Tracked.init.world.strayed = false :=
      ⟨Tracked.inv_init, World.outlives_init, rfl⟩
    have hkept : ∀ (t : Tracked) (e : Event) (t' : Tracked),
        t.Inv ∧ t.world.Outlives ∧ t.world.strayed = false → t.world.ClosesInTime e → t.step e = some t' →
        t'.Inv ∧ t'.world.Outlives ∧ t'.world.strayed = false := by
      intro t e t' ht hok hs
      obtain ⟨w, hw, rfl⟩ := Option.map_eq_some_iff.mp hs
      refine ⟨ht.1.step hs, (World.step_outlives ht.1.booked ht.2.1 hw).mpr hok, ?_⟩
      exact (World.step_strayed ht.1.booked ht.2.1 hw).trans ht.2.2
    have hlost : ∀ (t : Tracked) (e : Event) (t' : Tracked),
        t.Inv ∧ t.world.Outlives ∧ t.world.strayed = false → ¬ t.world.ClosesInTime e → t.step e = some t' →
        ¬ t'.LoopsOutlive := by
      intro t e t' ht hbad hs hgood
      obtain ⟨w, hw, rfl⟩ := Option.map_eq_some_iff.mp hs
      exact hbad ((World.step_outlives ht.1.booked ht.2.1 hw).mp hgood.intact)
    apply visited_iff_guarded _ hkept hlost es _ hinit
    intro t ht
    exact ⟨ht.1.holdsOne, ht.1.closedFirst, ht.1.booked.threw, ht.2.2, ht.2.1⟩

def timerThenLoop : List Event := [.newLoop, .construct .timer 0 .registered, .drop (.handle 1), .drop (.loop 0)]

/-- The walk of the loop destructor reads the timer in freed memory, where whether it throws
is decided. -/
theorem loop_walks_freed : ¬ ∀ es : List Event, ∀ t ∈ visited Tracked.step Tracked.init es,
    t.HoldsOne ∧ t.ClosedFirst ∧ t.world.threw = false ∧ t.world.strayed = false := by
  intro h
  have hend := (h timerThenLoop _ (final_visited _ _)).2.2.2
  revert hend
  decide

end Uvcc.Loop
