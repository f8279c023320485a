import Uvcc.Loop.Booking
import Uvcc.Requests.Shapes

/-!
# The loop inside a request callback

A request on a loop alone does not reference the loop. When the last reference of
the loop goes, its destructor still runs the loop, and the callbacks of the pending
requests are called from there. The control stack holds the request callbacks and
the loop destructors that have not returned.
-/
namespace Uvcc.Loop
open Counting Machine

namespace World
variable {w w' : World} {h l : ℕ} {e : Event} {X : Multiset Obj}

def killsLoop (w : World) : Event → Option ℕ
  | .drop (.loop l) => if w.mem.refs (.loop l) = 1 then some l else none
  | .drop (.handle h) | .release h =>
    if w.mem.refs (.handle h) = 1 then
      (w.handles h).loopInstance.filter (fun l => w.mem.refs (.loop l) = 1)
    else none
  | _ => none

theorem killsLoop_drop_loop {k : ℕ} :
    w.killsLoop (.drop (.loop k)) = some l ↔ w.mem.refs (.loop k) = 1 ∧ k = l := by
  simp [killsLoop]

theorem killsLoop_release : w.killsLoop (.release h) = some l ↔ w.mem.refs (.handle h) = 1 ∧
    (w.handles h).loopInstance = some l ∧ w.mem.refs (.loop l) = 1 := by
  simp [killsLoop, Option.filter_eq_some_iff]

theorem killsLoop_drop_handle : w.killsLoop (.drop (.handle h)) = some l ↔ w.mem.refs (.handle h) = 1 ∧
    (w.handles h).loopInstance = some l ∧ w.mem.refs (.loop l) = 1 :=
  killsLoop_release

/-- A loop stays alive in a step that does not bring its count to zero. -/
theorem live_handleUnref (hl : w.mem.status (.loop l) = .live)
    (hk : w.mem.refs (.handle h) = 1 → (w.handles h).loopInstance = some l →
      w.mem.refs (.loop l) ≠ 1) :
    (w.handleUnref h).mem.status (.loop l) = .live := by
  have hdec : (w.mem.dec (.handle h)).status (.loop l) = .live :=
    (Ledger.status_dec_of_ne _ (by simp)).trans hl
  by_cases hz : w.mem.refs (.handle h) - 1 = 0
  · rw [handleUnref, if_pos hz, mem_handleClose]
    cases hb : (w.handles h).loopInstance with
    | none => exact hdec
    | some k =>
      change ((w.mem.dec (.handle h)).dec (.loop k)).status (.loop l) = .live
      by_cases hkl : k = l
      · subst hkl
        have hr : ¬ (w.mem.dec (.handle h)).refs (.loop k) - 1 = 0 := by
          rw [Ledger.refs_dec_of_ne _ (by simp)]
          exact fun he => hk (sub_eq_zero.mp hz) hb (sub_eq_zero.mp he)
        rw [Ledger.status_dec_not_last hr]
        exact hdec
      · rw [Ledger.status_dec_of_ne _ (by simpa using Ne.symm hkl)]
        exact hdec
  · rw [handleUnref, if_neg hz]
    exact hdec

theorem live_loopUnref {k : ℕ} (hl : w.mem.status (.loop l) = .live)
    (hk : k = l → w.mem.refs (.loop l) ≠ 1) : (w.loopUnref k).mem.status (.loop l) = .live := by
  rw [mem_loopUnref]
  by_cases hkl : k = l
  · subst hkl
    rw [Ledger.status_dec_not_last (fun he => hk rfl (sub_eq_zero.mp he))]
    exact hl
  · rw [Ledger.status_dec_of_ne _ (by simpa using Ne.symm hkl)]
    exact hl

theorem live_create (x : HandleInstance) (hl : w.mem.status (.loop l) = .live) :
    (w.create x).mem.status (.loop l) = .live := by
  simpa [create, Ledger.create] using hl

theorem live_createBooked {k : ℕ} (x : HandleInstance) (hb : x.loopInstance = none)
    (hu : x.uvLoop = some k) (hl : w.mem.status (.loop l) = .live) :
    ((w.create x).bookLoop w.next).mem.status (.loop l) = .live := by
  rw [Booked.bookLoop_create w x hb hu]
  simpa [Ledger.create] using hl

theorem live_construct (k : Kind) (m : ℕ) (i : Init) (hl : w.mem.status (.loop l) = .live) :
    (w.construct k m i).mem.status (.loop l) = .live := by
  cases i with
  | registered => exact live_createBooked _ rfl rfl hl
  | refused => exact live_create _ hl
  | withdrawn => exact live_create _ hl

theorem live_step (hs : w.step e = some w') (hl : w.mem.status (.loop l) = .live)
    (hk : w.killsLoop e ≠ some l) : w'.mem.status (.loop l) = .live := by
  cases step_acts hs with
  | newLoop =>
    by_cases hn : l = w.next
    · simp [newLoop, Ledger.create, hn]
    · simpa [newLoop, Ledger.create, hn] using hl
  | construct k i _ _ => exact live_construct k _ i hl
  | process _ => exact live_createBooked _ rfl rfl hl
  | spawn _ _ => exact hl
  | file ok _ =>
    unfold World.file
    split_ifs
    · exact live_createBooked _ rfl rfl hl
    · exact live_create _ hl
  | accept i _ => exact live_construct _ _ i hl
  | acceptPending i _ _ => exact live_construct _ _ i hl
  | copy _ => simpa using hl
  | @drop o _ =>
    cases o with
    | loop k =>
      exact live_loopUnref hl (fun he hr => hk (killsLoop_drop_loop.mpr ⟨by rw [he]; exact hr, he⟩))
    | handle h =>
      exact live_handleUnref hl (fun hr hb he => hk (killsLoop_drop_handle.mpr ⟨hr, hb, he⟩))
  | retain _ => simpa using hl
  | release _ => exact live_handleUnref hl (fun hr hb he => hk (killsLoop_release.mpr ⟨hr, hb, he⟩))
  | finishClose _ => rwa [mem_finishClose]

/-- The last reference of a booked handle takes the count of its loop to zero. -/
theorem refs_handleUnref (hw : w.Booked (.handle h ::ₘ X)) (hr : w.mem.refs (.handle h) = 1)
    (hb : (w.handles h).loopInstance = some l) (hl : w.mem.refs (.loop l) = 1) :
    (w.handleUnref h).mem.refs (.loop l) = 0 := by
  have hz : w.mem.refs (.handle h) - 1 = 0 := sub_eq_zero.mpr hr
  have hlive : w.mem.status (.handle h) = .live := hw.balanced.live (by simp)
  have hbook : Obj.loop l ∈ w.bookings := mem_bookings (hw.lt_next hlive) hb
  have hloop : w.mem.status (.loop l) = .live := hw.balanced.live (by simp [held, hbook])
  rw [handleUnref, if_pos hz, mem_handleClose]
  change ((w.handles h).loopInstance.elim _ _ : Ledger Obj).refs (.loop l) = 0
  rw [hb]
  refine Ledger.refs_dec_last ?_ ?_
  · exact (Ledger.status_dec_of_ne _ (by simp)).trans hloop
  · exact sub_eq_zero.mpr ((Ledger.refs_dec_of_ne _ (by simp)).trans hl)

theorem refs_killsLoop (hw : w.Booked 0) (hs : w.step e = some w') (hk : w.killsLoop e = some l) :
    w'.mem.refs (.loop l) = 0 := by
  cases step_acts hs with
  | @drop o hv =>
    cases o with
    | loop k =>
      obtain ⟨hr, rfl⟩ := killsLoop_drop_loop.mp hk
      have hlive := (hw.takeVar hv).balanced.live (a := .loop k) (by simp)
      change (({ w with vars := w.vars.erase (.loop k) }).loopUnref k).mem.refs (.loop k) = 0
      rw [mem_loopUnref]
      exact Ledger.refs_dec_last hlive (sub_eq_zero.mpr hr)
    | handle h =>
      obtain ⟨hr, hb, hl⟩ := killsLoop_drop_handle.mp hk
      exact refs_handleUnref (hw.takeVar hv) hr hb hl
  | release hh =>
    obtain ⟨hr, hb, hl⟩ := killsLoop_release.mp hk
    exact refs_handleUnref (hw.takeSelfRef hh) hr hb hl
  | _ => cases hk

end World

structure Queued where
  request : ℕ
  loop : ℕ
  deriving DecidableEq, Repr

/-- What has been called and has not returned: the request callback of `r`, reported
on the loop `l`, or the destructor of a loop. -/
inductive Frame where
  | callback (r l : ℕ)
  | dying (l : ℕ)
  deriving DecidableEq, Repr

/-- The innermost frame comes first. -/
structure Teardown where
  base : World
  hasCallback : ℕ → Bool
  pending : Multiset Queued
  stack : List Frame

inductive Call where
  | user (e : Event)
  | onRequest (r : ℕ) (callback : Bool)
  | run (r : ℕ) (k : Requests.Run) (l : ℕ) (ret : ℤ)
  | complete (q : Queued)
  | callbackReturn
  | loopClosed
  deriving DecidableEq, Repr

/-- The overloads that reference nothing but the request. -/
def loopOnly (k : Requests.Run) : Bool := k.shape.refs = [.request]

namespace Teardown

def init : Teardown := ⟨World.init, fun _ => false, 0, []⟩

def dyingLoop (t : Teardown) : Option ℕ :=
  match t.stack with
  | .dying l :: _ => some l
  | _ => none

def mayComplete (t : Teardown) (q : Queued) : Bool :=
  match t.dyingLoop with
  | some l => q.loop = l
  | none => t.base.mem.status (.loop q.loop) = .live

def run (t : Teardown) (r : ℕ) (k : Requests.Run) (l : ℕ) (ret : ℤ) : Teardown :=
  if (k.shape.sync.isSome ∧ ¬ t.hasCallback r) ∨ ret < 0 then t
  else { t with pending := ⟨r, l⟩ ::ₘ t.pending }

def complete (t : Teardown) (q : Queued) : Teardown :=
  { t with
    pending := t.pending.erase q
    stack := if t.hasCallback q.request then .callback q.request q.loop :: t.stack else t.stack }

/-- User code has led to `w`; the destructor of a loop that dies takes control. -/
def after (t : Teardown) (e : Event) (w : World) : Teardown :=
  { t with base := w, stack := (t.base.killsLoop e).toList.map Frame.dying ++ t.stack }

def step (t : Teardown) : Call → Option Teardown
  | .user e =>
    if t.dyingLoop = none then (t.base.step e).map (t.after e) else none
  | .onRequest r b =>
    if t.dyingLoop = none then some { t with hasCallback := Function.update t.hasCallback r b }
    else none
  | .run r k l ret =>
    if t.dyingLoop = none ∧ .loop l ∈ t.base.vars ∧ loopOnly k ∧ ∀ q ∈ t.pending, q.request ≠ r then
      some (t.run r k l ret)
    else none
  | .complete q => if q ∈ t.pending ∧ t.mayComplete q then some (t.complete q) else none
  | .callbackReturn =>
    match t.stack with
    | .callback _ _ :: s => some { t with stack := s }
    | _ => none
  | .loopClosed =>
    match t.stack with
    | .dying l :: s => if ∀ q ∈ t.pending, q.loop ≠ l then some { t with stack := s } else none
    | _ => none

/-- The loop has a reference in every request callback, in those that are running
and in those that can be called next. -/
structure LoopUsable (t : Teardown) : Prop where
  running : ∀ r l, .callback r l ∈ t.stack → 1 ≤ t.base.mem.refs (.loop l)
  next : ∀ q ∈ t.pending, t.mayComplete q → t.hasCallback q.request = true →
    1 ≤ t.base.mem.refs (.loop q.loop)

/-- The last reference of a loop does not go while a request with a callback is in
flight on it or its callback is running. -/
def KeepsLoop (t : Teardown) : Call → Prop
  | .user e => ∀ l, t.base.killsLoop e = some l →
      (∀ q ∈ t.pending, q.loop = l → t.hasCallback q.request = false) ∧
        ∀ r, .callback r l ∉ t.stack
  | _ => True

/-- A loop destructor has control only where there is no callback left to call, and
the loops of all running callbacks live. -/
structure Inv (t : Teardown) : Prop where
  booked : t.base.Booked 0
  tail : ∀ l, .dying l ∉ t.stack.tail
  alive : ∀ r l, .callback r l ∈ t.stack → t.base.mem.status (.loop l) = .live
  quiet : ∀ l, t.dyingLoop = some l → ∀ q ∈ t.pending, q.loop = l → t.hasCallback q.request = false

theorem inv_init : init.Inv where
  booked := World.booked_init
  tail _ hm := (nomatch hm)
  alive _ _ hm := (nomatch hm)
  quiet _ hd := (nomatch hd)

theorem one_le_refs {w : World} {l : ℕ} (hw : w.Booked 0) (hl : w.mem.status (.loop l) = .live) :
    1 ≤ w.mem.refs (.loop l) :=
  hw.balanced.one_le ((hw.balanced.live_iff _).mp hl)

variable {t t' : Teardown} {c : Call}

theorem mayComplete_dying {q : Queued} {l : ℕ} (hd : t.dyingLoop = some l) :
    t.mayComplete q = true ↔ q.loop = l := by
  simp [mayComplete, hd]

theorem mayComplete_running {q : Queued} (hd : t.dyingLoop = none) :
    t.mayComplete q = true ↔ t.base.mem.status (.loop q.loop) = .live := by
  simp [mayComplete, hd]

theorem Inv.loopUsable (h : t.Inv) : t.LoopUsable where
  running r l hm := one_le_refs h.booked (h.alive r l hm)
  next q hq hmay hcb := by
    cases hd : t.dyingLoop with
    | none => exact one_le_refs h.booked ((mayComplete_running hd).mp hmay)
    | some l =>
      have hf := h.quiet l hd q hq ((mayComplete_dying hd).mp hmay)
      rw [hcb] at hf
      cases hf

/-- Only running callbacks are on the stack while user code has control. -/
theorem Inv.no_dying (h : t.Inv) (hd : t.dyingLoop = none) (l : ℕ) : .dying l ∉ t.stack := by
  intro hm
  cases hs : t.stack with
  | nil => rw [hs] at hm; cases hm
  | cons f s =>
    have htail := h.tail l
    rw [hs] at hm htail
    rcases List.mem_cons.mp hm with rfl | hm
    · simp [dyingLoop, hs] at hd
    · exact htail hm

/-- A step of user code that takes no loop along, or takes one that is quiet. -/
theorem Inv.user {w : World} {e : Event} (h : t.Inv) (hd : t.dyingLoop = none)
    (hs : t.base.step e = some w) (hok : t.KeepsLoop (.user e)) :
    (t.after e w).Inv := by
  have hlive : ∀ r l, .callback r l ∈ t.stack → w.mem.status (.loop l) = .live := fun r l hm =>
    World.live_step hs (h.alive r l hm) (fun hk => (hok l hk).2 r hm)
  unfold after
  cases hk : t.base.killsLoop e with
  | none =>
    exact ⟨h.booked.step hs, h.tail, hlive, fun l hl => nomatch hd.symm.trans hl⟩
  | some k =>
    refine ⟨h.booked.step hs, h.no_dying hd, fun r l hm => ?_, fun l hl q hq hql => ?_⟩
    · rcases List.mem_cons.mp hm with hf | hm
      · cases hf
      · exact hlive r l hm
    · have he : k = l := Option.some.inj hl
      exact (hok k hk).1 q hq (hql.trans he.symm)

/-- A loop that goes while it is needed is missed at once, or by the next request
callback. -/
theorem not_loopUsable_user {w : World} {e : Event} (h : t.Inv) (hs : t.base.step e = some w)
    (hbad : ¬ t.KeepsLoop (.user e)) :
    ¬ (t.after e w).LoopUsable := by
  intro hu
  apply hbad
  intro l hk
  have hz := World.refs_killsLoop h.booked hs hk
  refine ⟨fun q hq hql => ?_, fun r hm => ?_⟩
  · by_contra hcb
    have hd : (t.after e w).dyingLoop = some l := by simp [after, dyingLoop, hk]
    have hmay : (t.after e w).mayComplete q = true := (mayComplete_dying hd).mpr hql
    have hcb' : t.hasCallback q.request = true := by simpa using hcb
    have h1 : 1 ≤ w.mem.refs (.loop q.loop) := hu.next q hq hmay hcb'
    rw [hql, hz] at h1
    omega
  · have h1 : 1 ≤ w.mem.refs (.loop l) := hu.running r l (List.mem_append_right _ hm)
    rw [hz] at h1
    omega

theorem Inv.complete {q : Queued} (h : t.Inv) (hq : q ∈ t.pending) (hmay : t.mayComplete q = true) :
    (t.complete q).Inv := by
  have hpend : ∀ p ∈ t.pending.erase q, p ∈ t.pending := fun p hp => Multiset.mem_of_mem_erase hp
  unfold Teardown.complete
  cases hcb : t.hasCallback q.request with
  | false => exact ⟨h.booked, h.tail, h.alive, fun l hl p hp => h.quiet l hl p (hpend p hp)⟩
  | true =>
    cases hd : t.dyingLoop with
    | some l =>
      have hf := h.quiet l hd q hq ((mayComplete_dying hd).mp hmay)
      rw [hcb] at hf
      cases hf
    | none =>
      refine ⟨h.booked, h.no_dying hd, fun r l hm => ?_, fun l hl => (nomatch hl)⟩
      rcases List.mem_cons.mp hm with hf | hm
      · cases hf
        exact (mayComplete_running hd).mp hmay
      · exact h.alive r l hm

/-- A frame that returns leaves user code, or libuv, in control. -/
theorem Inv.pop {f : Frame} {s : List Frame} (h : t.Inv) (hs : t.stack = f :: s) :
    { t with stack := s }.Inv := by
  have htail : ∀ l, .dying l ∉ s := by simpa [hs] using h.tail
  refine ⟨h.booked, fun l hm => htail l (List.mem_of_mem_tail hm),
    fun r l hm => h.alive r l (hs ▸ List.mem_cons_of_mem _ hm), fun l hl => ?_⟩
  cases s with
  | nil => cases hl
  | cons g s =>
    cases g with
    | callback r k => cases hl
    | dying k => exact absurd List.mem_cons_self (htail k)

theorem step_loopUsable (h : t.Inv) (hs : t.step c = some t') :
    (t.KeepsLoop c → t'.Inv) ∧ (¬ t.KeepsLoop c → ¬ t'.LoopUsable) := by
  cases c with
  | user e =>
    simp only [step, Option.ite_none_right_eq_some] at hs
    obtain ⟨hd, hs⟩ := hs
    obtain ⟨w, hw, rfl⟩ := Option.map_eq_some_iff.mp hs
    exact ⟨h.user hd hw, not_loopUsable_user h hw⟩
  | onRequest r b =>
    simp only [step, Option.ite_none_right_eq_some, Option.some.injEq] at hs
    obtain ⟨hd, rfl⟩ := hs
    have hinv : { t with hasCallback := Function.update t.hasCallback r b }.Inv :=
      ⟨h.booked, h.tail, h.alive, fun l hl => nomatch hd.symm.trans hl⟩
    exact ⟨fun _ => hinv, fun hbad => absurd trivial hbad⟩
  | run r k l ret =>
    simp only [step, Option.ite_none_right_eq_some, Option.some.injEq] at hs
    obtain ⟨⟨hd, _⟩, rfl⟩ := hs
    refine ⟨fun _ => ?_, fun hbad => absurd trivial hbad⟩
    unfold Teardown.run
    split_ifs
    · exact h
    · exact ⟨h.booked, h.tail, h.alive, fun m hm => nomatch hd.symm.trans hm⟩
  | complete q =>
    simp only [step, Option.ite_none_right_eq_some, Option.some.injEq] at hs
    obtain ⟨⟨hq, hmay⟩, rfl⟩ := hs
    exact ⟨fun _ => h.complete hq hmay, fun hbad => absurd trivial hbad⟩
  | callbackReturn =>
    simp only [step] at hs
    split at hs
    next r l s hst =>
      simp only [Option.some.injEq] at hs
      subst hs
      exact ⟨fun _ => h.pop hst, fun hbad => absurd trivial hbad⟩
    next => cases hs
  | loopClosed =>
    simp only [step] at hs
    split at hs
    next l s hst =>
      simp only [Option.ite_none_right_eq_some, Option.some.injEq] at hs
      obtain ⟨_, rfl⟩ := hs
      exact ⟨fun _ => h.pop hst, fun hbad => absurd trivial hbad⟩
    next => cases hs

end Teardown

/-- In every run the loop has a reference in each request callback exactly when no
last reference of a loop goes while a request callback on it is due or running. -/
theorem loop_usable_iff (cs : List Call) :
    (∀ t ∈ visited Teardown.step Teardown.init cs, t.LoopUsable) ↔
      ∀ p ∈ taken Teardown.step Teardown.init cs, p.1.KeepsLoop p.2 := by
  refine visited_iff_guarded (I := Teardown.Inv) (fun _ h => h.loopUsable) ?_ ?_ cs _ Teardown.inv_init
  · intro t c t' h hok hs
    exact (Teardown.step_loopUsable h hs).1 hok
  · intro t c t' h hbad hs
    exact (Teardown.step_loopUsable h hs).2 hbad

def loopDropped : List Call :=
  [.user .newLoop, .onRequest 0 true, .run 0 .work 0 0, .user (.drop (.loop 0)), .complete ⟨0, 0⟩]

/-- The callback is then running in the destructor of a loop without references. -/
theorem loop_gone_in_callback :
    ¬ ∀ cs : List Call, ∀ t ∈ visited Teardown.step Teardown.init cs,
      ∀ r l, .callback r l ∈ t.stack → 1 ≤ t.base.mem.refs (.loop l) := by
  intro h
  have hrun : ∀ t ∈ visited Teardown.step Teardown.init loopDropped,
      .callback 0 0 ∈ t.stack → 1 ≤ t.base.mem.refs (.loop 0) :=
    fun t ht => h loopDropped t ht 0 0
  revert hrun
  decide

end Uvcc.Loop
