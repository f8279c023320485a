import Uvcc.Requests.Completions

/-!
# Requests conserve references

What `run` adds is what the completion will take over, read from the fields `run`
has left: `owes_accepted`. From this every count is the number of references that
are held, where a pending request holds what its completion owes.
-/
namespace Uvcc.Requests
open Counting Machine

theorem Args.obj_ne_null (a : Args) (r : ℕ) (ρ : Role) : a.obj r ρ ≠ .null := by
  cases ρ <;> simp [Args.obj]

def Run.Refused (k : Run) (ret : ℤ) : Prop := k.shape.unrefs.isSome = true ∧ ret < 0

namespace World
variable {w : World} {r : ℕ} {k : Run} {a : Args} {st ks : Stores} {p : Pending} {t : ℕ} {out ret : ℤ}

/-! ## Fields -/

theorem fields_assign_self (w : World) (r : ℕ) (a : Args) (st : Stores) (f : Field) :
    (w.assign r a st).fields r f =
      (st.lookup f).elim (w.fields r f) (fun x => x.elim .null (a.obj r)) := by
  simp [assign]

theorem assign_assign (w : World) (r : ℕ) (a : Args) (st ks : Stores) :
    (w.assign r a st).assign r a ks = w.assign r a (ks ++ st) := by
  have hf : ((w.assign r a st).assign r a ks).fields = (w.assign r a (ks ++ st)).fields := by
    funext q f
    by_cases hq : q = r
    · subst hq
      rw [fields_assign_self, fields_assign_self, fields_assign_self, List.lookup_append]
      cases ks.lookup f <;> rfl
    · simp [assign, hq]
  exact congrArg (fun fs => { w with fields := fs }) hf

/-- A guard whose field an accepted run has assigned adopts a participant. -/
theorem objs_assign {g : Guard} (hg : g.bound st = true) :
    g.objs r ((w.assign r a st).fields r) = (g.role st).toList.map (a.obj r) := by
  cases g with
  | self => rfl
  | field f =>
    simp only [Guard.bound, Option.isSome_iff_exists, Option.join_eq_some_iff] at hg
    obtain ⟨ρ, hρ⟩ := hg
    simp [Guard.objs, Guard.role, fields_assign_self, hρ]
  | ifSet f =>
    simp only [Guard.bound, Option.isSome_iff_exists] at hg
    obtain ⟨x, hx⟩ := hg
    cases x with
    | none => simp [Guard.objs, Guard.role, fields_assign_self, hx]
    | some ρ => simp [Guard.objs, Guard.role, fields_assign_self, hx, a.obj_ne_null r ρ]

theorem flatMap_objs_assign {gs : List Guard} (hg : ∀ g ∈ gs, g.bound st = true) :
    gs.flatMap (Guard.objs r ((w.assign r a st).fields r)) =
      (gs.filterMap (Guard.role st)).map (a.obj r) := by
  induction gs with
  | nil => rfl
  | cons g gs ih =>
    have hgs := ih (fun g hm => hg g (List.mem_cons_of_mem _ hm))
    rw [List.flatMap_cons, hgs, objs_assign (hg g List.mem_cons_self), List.filterMap_cons]
    cases g.role st <;> rfl

/-- The guards and the buffer of a completion in one list. -/
theorem owes_eq (w : World) (p : Pending) :
    w.owes p = ↑(p.run.shape.takes.flatMap (Guard.objs p.request (w.fields p.request))) := by
  cases h : p.run.shape.passes <;> simp [owes, guards, buffer, Shape.takes, Guard.objs, h]

/-- The order in which a completion without a request callback releases them. -/
theorem owes_eq_reverse (w : World) (p : Pending) :
    w.owes p = ↑(w.buffer p ++ (w.guards p).reverse) :=
  Multiset.coe_eq_coe.mpr
    (List.perm_append_comm.trans ((List.reverse_perm (w.guards p)).symm.append_left _))

theorem self_mem_guards (w : World) (p : Pending) : Obj.request p.request ∈ w.guards p :=
  List.mem_flatMap.mpr ⟨.self, p.run.conserves.self, List.mem_singleton_self _⟩

/-- An accepted run owes to its completion exactly what it has referenced. -/
theorem owes_accepted (w : World) (r : ℕ) (k : Run) (a : Args) (t : ℕ) :
    (w.assign r a k.shape.stored).owes ⟨r, k, t⟩ = ↑(k.shape.refs.map (a.obj r)) := by
  rw [owes_eq, flatMap_objs_assign k.conserves.bound, Multiset.coe_eq_coe]
  exact k.conserves.completion.map _

theorem owes_assign (h : p.request ≠ r) : (w.assign r a st).owes p = w.owes p := by
  have hf : (w.assign r a st).fields p.request = w.fields p.request := by simp [assign, h]
  simp only [owes, guards, buffer, hf]

/-! ## Counts -/

theorem held_assign (h : ∀ p ∈ w.pending, p.request ≠ r) : (w.assign r a st).held = w.held := by
  have ho : w.pending.map (w.assign r a st).owes = w.pending.map w.owes :=
    Multiset.map_congr rfl (fun p hp => owes_assign (h p hp))
  simp only [held]
  rw [← ho]
  rfl

theorem held_await (w : World) (p : Pending) : (w.await p).held = w.owes p + w.held := by
  change w.vars + ((p ::ₘ w.pending).map w.owes).sum + (w.frames.map Frame.holds).sum = _
  rw [Multiset.map_cons, Multiset.sum_cons, held]
  abel

/-- A pending run stands for the references its completion owes. -/
theorem held_erase (h : p ∈ w.pending) :
    w.held = w.owes p + { w with pending := w.pending.erase p }.held := by
  have hw : w = { w with pending := w.pending.erase p }.await p := by
    rw [await, Multiset.cons_erase h]
  exact (congrArg held hw).trans (held_await _ p)

theorem held_frame (w : World) (f : Frame) (fs : List Frame) :
    { w with frames := f :: fs }.held = f.holds + { w with frames := fs }.held := by
  change w.vars + (w.pending.map w.owes).sum + ((f :: fs).map Frame.holds).sum =
    f.holds + (w.vars + (w.pending.map w.owes).sum + (fs.map Frame.holds).sum)
  rw [List.map_cons, List.sum_cons]
  abel

def Submits (w : World) (r : ℕ) (k : Run) (out : ℤ) : Prop :=
  ¬ (k.shape.checksFd = true ∧ out = -1) ∧ (k.shape.sync = none ∨ w.callback r = true)

theorem run_submits (h : w.Submits r k out) (ret : ℤ) : w.run r k a out ret = w.submit r k a ret := by
  rw [World.run, if_neg h.1]
  rcases h.2 with hsync | hcallback
  · rw [hsync]
  · rw [hcallback]
    cases k.shape.sync <;> rfl

/-- Otherwise nothing is referenced. -/
theorem run_not_submits (h : ¬ w.Submits r k out) (ret : ℤ) :
    ∃ st, w.run r k a out ret = w.assign r a st := by
  have hassign : w = w.assign r a [] := by
    simp [assign]
  unfold World.run
  split_ifs with hfd
  · exact ⟨[], hassign⟩
  · cases hsync : k.shape.sync with
    | none => exact absurd ⟨hfd, .inl hsync⟩ h
    | some st =>
      cases hcallback : w.callback r with
      | true => exact absurd ⟨hfd, .inr hcallback⟩ h
      | false => exact ⟨st, rfl⟩

/-- A run is accepted with all that it references. -/
theorem submit_accepted (h : ¬ k.Refused ret) : w.submit r k a ret =
    ((w.reference (k.shape.refs.map (a.obj r))).assign r a k.shape.stored).await ⟨r, k, w.runs⟩ := by
  rw [World.submit, assign_assign]
  cases hu : k.shape.unrefs with
  | none => rfl
  | some us =>
    have hret : ¬ ret < 0 := fun hret => h ⟨by rw [hu]; rfl, hret⟩
    rw [decide_eq_false hret]
    rfl

/-- One that is refused gives back what it has referenced. -/
theorem submit_refused (h : k.Refused ret) : ∃ us, k.shape.unrefs = some us ∧ w.submit r k a ret =
    ((w.reference (k.shape.refs.map (a.obj r))).release w.runs (us.map (a.obj r))).assign r a k.shape.stores := by
  obtain ⟨us, hus⟩ := Option.isSome_iff_exists.mp h.1
  refine ⟨us, hus, ?_⟩
  rw [World.submit, hus, decide_eq_true h.2]
  rfl

theorem submit_cases (w : World) (r : ℕ) (k : Run) (a : Args) (ret : ℤ) :
    w.submit r k a ret = ((w.reference (k.shape.refs.map (a.obj r))).assign r a k.shape.stored).await
        ⟨r, k, w.runs⟩ ∨
      ∃ us, k.shape.unrefs = some us ∧ w.submit r k a ret =
        ((w.reference (k.shape.refs.map (a.obj r))).release w.runs (us.map (a.obj r))).assign r a
          k.shape.stores := by
  by_cases h : k.Refused ret
  · exact .inr (submit_refused h)
  · exact .inl (submit_accepted h)

def Balanced (w : World) : Prop := w.mem.Balanced w.held

theorem balanced_init : init.Balanced := by
  simpa [Balanced, init, held] using Ledger.Balanced.empty

theorem Balanced.assign (hw : w.Balanced) (hr : ∀ p ∈ w.pending, p.request ≠ r) :
    (w.assign r a st).Balanced := by
  rw [Balanced, held_assign hr]
  exact hw

theorem Balanced.submit (hw : w.Balanced) (h : w.Runs r k a) (ret : ℤ) :
    (w.submit r k a ret).Balanced := by
  have hmem : ∀ o ∈ k.shape.refs.map (a.obj r), o ∈ w.held := by
    intro o ho
    obtain ⟨ρ, hρ, rfl⟩ := List.mem_map.mp ho
    exact h.args ρ hρ
  have href : (w.mem.incs (k.shape.refs.map (a.obj r))).Balanced
      (↑(k.shape.refs.map (a.obj r)) + w.held) := Ledger.Balanced.incs hw hmem
  rcases submit_cases w r k a ret with hsub | ⟨us, hu, hsub⟩
  · rw [hsub, Balanced, held_await, owes_accepted, held_assign (w := w.reference _) h.idle]
    exact href
  · have hus : (↑(us.map (a.obj r)) : Multiset Obj) = ↑(k.shape.refs.map (a.obj r)) :=
      Multiset.coe_eq_coe.mpr ((k.conserves.error us hu).map _)
    rw [← hus] at href
    have hrel : ((w.reference (k.shape.refs.map (a.obj r))).release w.runs
        (us.map (a.obj r))).Balanced := href.decs
    rw [hsub]
    exact hrel.assign h.idle

theorem Balanced.run (hw : w.Balanced) (h : w.Runs r k a) (out ret : ℤ) :
    (w.run r k a out ret).Balanced := by
  by_cases hsub : w.Submits r k out
  · rw [run_submits hsub]
    exact hw.submit h ret
  · obtain ⟨st, hst⟩ := run_not_submits (a := a) hsub ret
    rw [hst]
    exact hw.assign h.idle

theorem Balanced.complete (hw : w.Balanced) (h : p ∈ w.pending) : (w.complete p).Balanced := by
  let w' : World := { w with pending := w.pending.erase p }
  have he : w.mem.Balanced (↑(w.buffer p ++ (w.guards p).reverse) + w'.held) := by
    rw [← owes_eq_reverse, ← held_erase h]
    exact hw
  unfold World.complete
  split_ifs
  · have hin : Obj.request p.request ∈ w.buffer p ++ (w.guards p).reverse := by
      simp [self_mem_guards]
    have hinc := he.inc (Multiset.mem_add.mpr (.inl (Multiset.mem_coe.mpr hin)))
    rw [← Multiset.cons_add, Multiset.cons_coe] at hinc
    change (w.mem.inc _).Balanced { w' with frames := w.enter p :: w.frames }.held
    rw [held_frame]
    exact hinc
  · exact he.decs

theorem Balanced.leave {f : Frame} {fs : List Frame} (hw : w.Balanced) (h : w.frames = f :: fs) :
    (w.leave f fs).Balanced := by
  have he : w.mem.Balanced (f.holds + { w with frames := fs }.held) := by
    rw [← held_frame, ← h]
    exact hw
  exact he.decs

theorem held_variable (w : World) (o : Obj) : { w with vars := o ::ₘ w.vars }.held = o ::ₘ w.held := by
  change o ::ₘ w.vars + (w.pending.map w.owes).sum + (w.frames.map Frame.holds).sum = _
  rw [held, Multiset.cons_add, Multiset.cons_add]

theorem Frame.holds_move {f : Frame} {o : Obj} (ho : o ∈ f.args) :
    f.holds = o ::ₘ (f.move o).holds := by
  rw [Frame.holds, Frame.holds, Frame.move, Multiset.cons_coe, Multiset.coe_eq_coe]
  exact (List.perm_cons_erase ho).append_right _

theorem Balanced.moveArg {f : Frame} {fs : List Frame} {o : Obj} (hw : w.Balanced)
    (h : w.frames = f :: fs) (ho : o ∈ f.args) :
    { w with vars := o ::ₘ w.vars, frames := f.move o :: fs }.Balanced := by
  have he : w.mem.Balanced (f.holds + { w with frames := fs }.held) := by
    rw [← held_frame, ← h]
    exact hw
  rw [Frame.holds_move ho, Multiset.cons_add, ← held_frame] at he
  let w' : World := { w with frames := f.move o :: fs }
  change w.mem.Balanced { w' with vars := o ::ₘ w'.vars }.held
  rw [held_variable]
  exact he

/-! ## Accounts -/

def owed (w : World) (t : ℕ) : Multiset Obj :=
  (w.pending.map (fun p => if p.tag = t then w.owes p else 0)).sum +
    (w.frames.map (fun f => if f.tag = t then (f.guards : Multiset Obj) else 0)).sum

/-- The references of each run are released or owed; a pending run owes all that
it has added, and a callback in progress is surrounded by what has not been handed to it. -/
structure Accounted (w : World) : Prop where
  fresh : ∀ t, w.runs ≤ t → w.added t = 0 ∧ w.released t = 0
  conserved : ∀ t, w.added t = w.released t + w.owed t
  pending : ∀ p ∈ w.pending, p.tag < w.runs ∧ w.added p.tag = w.owes p
  frame : ∀ f ∈ w.frames, f.tag < w.runs ∧ w.added f.tag = ↑(f.guards ++ f.buffer)
  handed : ∀ f ∈ w.frames, w.released f.tag = f.buffer
  self : ∀ f ∈ w.frames, .request f.request ∈ f.guards
  args : ∀ f ∈ w.frames, (f.args ++ f.moved).Perm (.request f.request :: f.buffer)

theorem accounted_init : init.Accounted where
  fresh _ _ := ⟨rfl, rfl⟩
  conserved _ := rfl
  pending p hp := absurd hp (Multiset.notMem_zero p)
  frame _ hf := absurd hf List.not_mem_nil
  handed _ hf := absurd hf List.not_mem_nil
  self _ hf := absurd hf List.not_mem_nil
  args _ hf := absurd hf List.not_mem_nil

/-- Counts, variables and callbacks do not enter the accounts. -/
theorem Accounted.variables (h : w.Accounted) (m : Ledger Obj) (v : Multiset Obj)
    (c : ℕ → Option Class) (b : ℕ → Bool) :
    { w with mem := m, vars := v, cls := c, callback := b }.Accounted :=
  ⟨h.fresh, h.conserved, h.pending, h.frame, h.handed, h.self, h.args⟩

theorem owed_assign (h : ∀ p ∈ w.pending, p.request ≠ r) (t : ℕ) :
    (w.assign r a st).owed t = w.owed t := by
  have ho : w.pending.map (fun p => if p.tag = t then (w.assign r a st).owes p else 0) =
      w.pending.map (fun p => if p.tag = t then w.owes p else 0) :=
    Multiset.map_congr rfl (fun p hp => by rw [owes_assign (h p hp)])
  simp only [owed]
  rw [← ho]
  rfl

theorem Accounted.assign (h : w.Accounted) (hr : ∀ p ∈ w.pending, p.request ≠ r) :
    (w.assign r a st).Accounted where
  fresh := h.fresh
  conserved t := by rw [owed_assign hr]; exact h.conserved t
  pending p hp := by rw [owes_assign (hr p hp)]; exact h.pending p hp
  frame := h.frame
  handed := h.handed
  self := h.self
  args := h.args

/-- Nothing is owed in the name of a run that has not been made. -/
theorem Accounted.owed_fresh (h : w.Accounted) (ht : w.runs ≤ t) : w.owed t = 0 := by
  have hc := h.conserved t
  rw [(h.fresh t ht).1, (h.fresh t ht).2, zero_add] at hc
  exact hc.symm

theorem added_reference (w : World) (os : List Obj) : (w.reference os).added w.runs = os :=
  Function.update_self w.runs _ w.added

theorem added_reference_of_ne (w : World) (os : List Obj) (h : t ≠ w.runs) :
    (w.reference os).added t = w.added t :=
  Function.update_of_ne h _ w.added

/-- A run that is refused gives back what it added. -/
theorem Accounted.refused (h : w.Accounted) {os us : List Obj} (hu : us.Perm os) :
    ((w.reference os).release w.runs us).Accounted where
  fresh t ht := by
    have hne : t ≠ w.runs := Nat.ne_of_gt ht
    have hf := h.fresh t (Nat.le_of_succ_le ht)
    exact ⟨(added_reference_of_ne w os hne).trans hf.1, (Function.update_of_ne hne _ _).trans hf.2⟩
  conserved t := by
    change (w.reference os).added t =
      Function.update w.released w.runs (w.released w.runs + us) t + w.owed t
    by_cases hne : t = w.runs
    · subst hne
      have hus : (os : Multiset Obj) = us := (Multiset.coe_eq_coe.mpr hu).symm
      rw [added_reference, Function.update_self, h.owed_fresh le_rfl, (h.fresh _ le_rfl).2]
      simpa using hus
    · rw [added_reference_of_ne w os hne, Function.update_of_ne hne]
      exact h.conserved t
  pending p hp := by
    obtain ⟨hlt, ha⟩ := h.pending p hp
    exact ⟨Nat.lt_succ_of_lt hlt, (added_reference_of_ne w os hlt.ne).trans ha⟩
  frame f hf := by
    obtain ⟨hlt, ha⟩ := h.frame f hf
    exact ⟨Nat.lt_succ_of_lt hlt, (added_reference_of_ne w os hlt.ne).trans ha⟩
  handed f hf := (Function.update_of_ne (h.frame f hf).1.ne _ _).trans (h.handed f hf)
  self := h.self
  args := h.args

theorem owed_await (w : World) (p : Pending) (t : ℕ) :
    (w.await p).owed t = (if p.tag = t then w.owes p else 0) + w.owed t := by
  change ((p ::ₘ w.pending).map (fun p => if p.tag = t then w.owes p else 0)).sum + _ = _
  rw [Multiset.map_cons, Multiset.sum_cons, owed, add_assoc]
  rfl

/-- A run that is accepted leaves what it added to its completion. -/
theorem Accounted.accepted (h : w.Accounted) {os : List Obj}
    (hp : w.owes ⟨r, k, w.runs⟩ = os) : ((w.reference os).await ⟨r, k, w.runs⟩).Accounted where
  fresh t ht := by
    have hne : t ≠ w.runs := Nat.ne_of_gt ht
    have hf := h.fresh t (Nat.le_of_succ_le ht)
    exact ⟨(added_reference_of_ne w os hne).trans hf.1, hf.2⟩
  conserved t := by
    rw [owed_await]
    change (w.reference os).added t = w.released t + ((if w.runs = t then _ else 0) + w.owed t)
    by_cases hne : t = w.runs
    · subst hne
      rw [added_reference, if_pos rfl, h.owed_fresh le_rfl, (h.fresh _ le_rfl).2, zero_add, add_zero]
      exact hp.symm
    · rw [added_reference_of_ne w os hne, if_neg (Ne.symm hne), zero_add]
      exact h.conserved t
  pending p hp' := by
    rcases Multiset.mem_cons.mp hp' with rfl | hp'
    · exact ⟨Nat.lt_succ_self _, (added_reference w os).trans hp.symm⟩
    · obtain ⟨hlt, ha⟩ := h.pending p hp'
      exact ⟨Nat.lt_succ_of_lt hlt, (added_reference_of_ne w os hlt.ne).trans ha⟩
  frame f hf := by
    obtain ⟨hlt, ha⟩ := h.frame f hf
    exact ⟨Nat.lt_succ_of_lt hlt, (added_reference_of_ne w os hlt.ne).trans ha⟩
  handed := h.handed
  self := h.self
  args := h.args

theorem Accounted.submit (h : w.Accounted) (hr : w.Runs r k a) (ret : ℤ) :
    (w.submit r k a ret).Accounted := by
  rcases submit_cases w r k a ret with hsub | ⟨us, hu, hsub⟩
  · rw [hsub]
    exact (h.assign hr.idle).accepted (owes_accepted w r k a w.runs)
  · have hus : (us.map (a.obj r)).Perm (k.shape.refs.map (a.obj r)) :=
      (k.conserves.error us hu).map _
    rw [hsub]
    exact (h.refused hus).assign hr.idle

theorem Accounted.run (h : w.Accounted) (hr : w.Runs r k a) (out ret : ℤ) :
    (w.run r k a out ret).Accounted := by
  by_cases hsub : w.Submits r k out
  · rw [run_submits hsub]
    exact h.submit hr ret
  · obtain ⟨st, hst⟩ := run_not_submits (a := a) hsub ret
    rw [hst]
    exact h.assign hr.idle

theorem owed_erase (h : p ∈ w.pending) (t : ℕ) :
    w.owed t = (if p.tag = t then w.owes p else 0) +
      { w with pending := w.pending.erase p }.owed t := by
  have hw : w = { w with pending := w.pending.erase p }.await p := by
    rw [await, Multiset.cons_erase h]
  exact (congrArg (fun w => owed w t) hw).trans (owed_await _ p t)

theorem owed_frame (w : World) (f : Frame) (fs : List Frame) (t : ℕ) :
    { w with frames := f :: fs }.owed t =
      (if f.tag = t then (f.guards : Multiset Obj) else 0) + { w with frames := fs }.owed t := by
  change _ + ((f :: fs).map (fun f => if f.tag = t then (f.guards : Multiset Obj) else 0)).sum = _
  rw [List.map_cons, List.sum_cons, add_left_comm]
  rfl

/-- Nothing has been released of what a pending run has added, and nobody else owes it. -/
theorem Accounted.pending_whole (h : w.Accounted) (hp : p ∈ w.pending) :
    w.released p.tag = 0 ∧ { w with pending := w.pending.erase p }.owed p.tag = 0 := by
  have hc := h.conserved p.tag
  rw [(h.pending p hp).2, owed_erase hp, if_pos rfl] at hc
  have hzero : w.released p.tag + { w with pending := w.pending.erase p }.owed p.tag + w.owes p = 0 + w.owes p := by
    rw [zero_add, add_assoc, add_comm _ (w.owes p)]
    exact hc.symm
  exact add_eq_zero.mp (add_right_cancel hzero)

/-- Of a run whose callback is in progress the guards are owed, once. -/
theorem Accounted.frame_whole (h : w.Accounted) {f : Frame} {fs : List Frame} (hf : w.frames = f :: fs) :
    { w with frames := fs }.owed f.tag = 0 := by
  have hmem : f ∈ w.frames := hf ▸ List.mem_cons_self
  have hc := h.conserved f.tag
  have ho : w.owed f.tag = { w with frames := f :: fs }.owed f.tag := by rw [← hf]
  rw [(h.frame f hmem).2, h.handed f hmem, ho, owed_frame, if_pos rfl, ← Multiset.coe_add,
    add_comm (f.guards : Multiset Obj), ← add_assoc] at hc
  exact (add_eq_left.mp hc.symm)

/-- A callback in progress owes something, its request at least. -/
theorem owed_ne_zero {f : Frame} (hf : f ∈ w.frames) (hself : .request f.request ∈ f.guards) : w.owed f.tag ≠ 0 := by
  intro hzero
  have hframes := (add_eq_zero.mp hzero).2
  have hle : (f.guards : Multiset Obj) ≤
      (w.frames.map (fun g => if g.tag = f.tag then (g.guards : Multiset Obj) else 0)).sum := by
    refine List.single_le_sum (fun _ _ => Multiset.zero_le _) _ (List.mem_map.mpr ⟨f, hf, ?_⟩)
    rw [if_pos rfl]
  rw [hframes] at hle
  exact Multiset.notMem_zero _ (Multiset.mem_of_le hle (Multiset.mem_coe.mpr hself))

theorem Accounted.tag_ne_pending (h : w.Accounted) (hp : p ∈ w.pending) {f : Frame} (hf : f ∈ w.frames) :
    f.tag ≠ p.tag := by
  intro ht
  have hrest := (h.pending_whole hp).2
  rw [← ht] at hrest
  exact owed_ne_zero (w := { w with pending := w.pending.erase p }) hf (h.self f hf) hrest

theorem Accounted.tag_ne_frame (h : w.Accounted) {f g : Frame} {fs : List Frame} (hf : w.frames = f :: fs)
    (hg : g ∈ fs) : g.tag ≠ f.tag := by
  intro ht
  have hrest := h.frame_whole hf
  rw [← ht] at hrest
  exact owed_ne_zero (w := { w with frames := fs }) hg (h.self g (hf ▸ List.mem_cons_of_mem _ hg)) hrest

/-- With a request callback the buffer is handed over, and the guards stay owed
until the callback returns. -/
theorem Accounted.enter (h : w.Accounted) (hp : p ∈ w.pending) :
    { w with
      pending := w.pending.erase p
      released := Function.update w.released p.tag (w.released p.tag + w.buffer p)
      frames := w.enter p :: w.frames }.Accounted where
  fresh t ht := by
    have hne : t ≠ p.tag := (lt_of_lt_of_le (h.pending p hp).1 ht).ne'
    exact ⟨(h.fresh t ht).1, (Function.update_of_ne hne _ _).trans (h.fresh t ht).2⟩
  conserved t := by
    let w' : World := { w with pending := w.pending.erase p }
    change w.added t = Function.update w.released p.tag (w.released p.tag + w.buffer p) t +
      { w' with frames := w.enter p :: w'.frames }.owed t
    rw [owed_frame, h.conserved t, owed_erase hp]
    by_cases hne : p.tag = t
    · subst hne
      have ho : w.owes p = w.guards p + w.buffer p := (Multiset.coe_add _ _).symm
      have hg : (w.enter p).tag = p.tag := rfl
      rw [Function.update_self, if_pos rfl, if_pos hg, ho]
      change _ = _ + ((w.guards p : Multiset Obj) + w'.owed p.tag)
      abel
    · have hg : ¬ (w.enter p).tag = t := hne
      rw [Function.update_of_ne (Ne.symm hne), if_neg hne, if_neg hg]
  pending q hq := h.pending q (Multiset.mem_of_mem_erase hq)
  frame f hf := by
    rcases List.mem_cons.mp hf with rfl | hf
    · exact h.pending p hp
    · exact h.frame f hf
  handed f hf := by
    rcases List.mem_cons.mp hf with rfl | hf
    · have hbuffer : w.released p.tag + w.buffer p = w.buffer p := by
        rw [(h.pending_whole hp).1, zero_add]
      exact (Function.update_self p.tag _ w.released).trans hbuffer
    · exact (Function.update_of_ne (h.tag_ne_pending hp hf) _ _).trans (h.handed f hf)
  self f hf := by
    rcases List.mem_cons.mp hf with rfl | hf
    · exact self_mem_guards w p
    · exact h.self f hf
  args f hf := by
    rcases List.mem_cons.mp hf with rfl | hf
    · exact (List.append_nil _).symm ▸ List.Perm.refl _
    · exact h.args f hf

/-- Without one everything is released at once. -/
theorem Accounted.release (h : w.Accounted) (hp : p ∈ w.pending) :
    ({ w with pending := w.pending.erase p }.release p.tag
      (w.buffer p ++ (w.guards p).reverse)).Accounted where
  fresh t ht := by
    have hne : t ≠ p.tag := (lt_of_lt_of_le (h.pending p hp).1 ht).ne'
    exact ⟨(h.fresh t ht).1, (Function.update_of_ne hne _ _).trans (h.fresh t ht).2⟩
  conserved t := by
    change w.added t = Function.update w.released p.tag (w.released p.tag +
      ↑(w.buffer p ++ (w.guards p).reverse)) t + { w with pending := w.pending.erase p }.owed t
    rw [← owes_eq_reverse, h.conserved t, owed_erase hp]
    by_cases hne : p.tag = t
    · subst hne
      rw [Function.update_self, if_pos rfl, add_assoc]
    · rw [Function.update_of_ne (Ne.symm hne), if_neg hne, zero_add]
  pending q hq := h.pending q (Multiset.mem_of_mem_erase hq)
  frame := h.frame
  handed f hf := (Function.update_of_ne (h.tag_ne_pending hp hf) _ _).trans (h.handed f hf)
  self := h.self
  args := h.args

theorem Accounted.complete (h : w.Accounted) (hp : p ∈ w.pending) : (w.complete p).Accounted := by
  unfold World.complete
  split_ifs
  · exact (h.enter hp).variables (w.mem.inc (.request p.request)) w.vars w.cls w.callback
  · exact h.release hp

theorem Accounted.leave {f : Frame} {fs : List Frame} (h : w.Accounted) (hf : w.frames = f :: fs) :
    (w.leave f fs).Accounted where
  fresh t ht := by
    have hne : t ≠ f.tag := (lt_of_lt_of_le (h.frame f (hf ▸ List.mem_cons_self)).1 ht).ne'
    exact ⟨(h.fresh t ht).1, (Function.update_of_ne hne _ _).trans (h.fresh t ht).2⟩
  conserved t := by
    change w.added t = Function.update w.released f.tag (w.released f.tag + f.guards) t +
      { w with frames := fs }.owed t
    have ho : w.owed t = { w with frames := f :: fs }.owed t := by rw [← hf]
    rw [h.conserved t, ho, owed_frame]
    by_cases hne : f.tag = t
    · subst hne
      rw [Function.update_self, if_pos rfl, add_assoc]
    · rw [Function.update_of_ne (Ne.symm hne), if_neg hne, zero_add]
  pending := h.pending
  frame g hg := h.frame g (hf ▸ List.mem_cons_of_mem _ hg)
  handed g hg := (Function.update_of_ne (h.tag_ne_frame hf hg) _ _).trans (h.handed g (hf ▸ List.mem_cons_of_mem _ hg))
  self g hg := h.self g (hf ▸ List.mem_cons_of_mem _ hg)
  args g hg := h.args g (hf ▸ List.mem_cons_of_mem _ hg)

theorem Frame.args_move {f : Frame} {o : Obj} (ho : o ∈ f.args) :
    ((f.move o).args ++ (f.move o).moved).Perm (f.args ++ f.moved) :=
  List.perm_middle.trans ((List.perm_cons_erase ho).symm.append_right f.moved)

theorem Accounted.moveArg {f : Frame} {fs : List Frame} {o : Obj} (h : w.Accounted)
    (hf : w.frames = f :: fs) (ho : o ∈ f.args) :
    { w with frames := f.move o :: fs }.Accounted where
  fresh := h.fresh
  conserved t := by
    have he : { w with frames := f.move o :: fs }.owed t = w.owed t := by
      have ho : w.owed t = { w with frames := f :: fs }.owed t := by rw [← hf]
      rw [ho, owed_frame, owed_frame]
      rfl
    rw [he]
    exact h.conserved t
  pending := h.pending
  frame g hg := by
    rcases List.mem_cons.mp hg with rfl | hg
    · exact h.frame f (hf ▸ List.mem_cons_self)
    · exact h.frame g (hf ▸ List.mem_cons_of_mem _ hg)
  handed g hg := by
    rcases List.mem_cons.mp hg with rfl | hg
    · exact h.handed f (hf ▸ List.mem_cons_self)
    · exact h.handed g (hf ▸ List.mem_cons_of_mem _ hg)
  self g hg := by
    rcases List.mem_cons.mp hg with rfl | hg
    · exact h.self f (hf ▸ List.mem_cons_self)
    · exact h.self g (hf ▸ List.mem_cons_of_mem _ hg)
  args g hg := by
    rcases List.mem_cons.mp hg with rfl | hg
    · exact (Frame.args_move ho).trans (h.args f (hf ▸ List.mem_cons_self))
    · exact h.args g (hf ▸ List.mem_cons_of_mem _ hg)

/-! ## Every run -/

structure Inv (w : World) : Prop where
  balanced : w.Balanced
  accounted : w.Accounted

theorem inv_init : init.Inv := ⟨balanced_init, accounted_init⟩

theorem step_inv {w' : World} {e : Event} (h : w.Inv) (hs : w.step e = some w') : w'.Inv := by
  cases e with
  | create o =>
    simp only [step, Option.ite_none_right_eq_some, Option.some.injEq] at hs
    obtain ⟨⟨_, hu⟩, rfl⟩ := hs
    refine ⟨?_, h.accounted.variables _ _ _ _⟩
    change Ledger.Balanced _ { w with vars := o ::ₘ w.vars }.held
    rw [held_variable]
    exact h.balanced.create hu
  | construct r c =>
    simp only [step, Option.ite_none_right_eq_some, Option.some.injEq] at hs
    obtain ⟨hu, rfl⟩ := hs
    refine ⟨?_, h.accounted.variables _ _ _ _⟩
    change Ledger.Balanced _ { w with vars := .request r ::ₘ w.vars }.held
    rw [held_variable]
    exact h.balanced.create hu
  | copy o =>
    simp only [step, Option.ite_none_right_eq_some, Option.some.injEq] at hs
    obtain ⟨ho, rfl⟩ := hs
    refine ⟨?_, h.accounted.variables _ _ _ _⟩
    change Ledger.Balanced _ { w with vars := o ::ₘ w.vars }.held
    rw [held_variable]
    exact h.balanced.inc ho
  | drop o =>
    simp only [step, Option.ite_none_right_eq_some, Option.some.injEq] at hs
    obtain ⟨ho, rfl⟩ := hs
    refine ⟨?_, h.accounted.variables _ _ _ _⟩
    have hb : w.mem.Balanced (o ::ₘ { w with vars := w.vars.erase o }.held) := by
      rw [← held_variable]
      change w.mem.Balanced { w with vars := o ::ₘ w.vars.erase o }.held
      rw [Multiset.cons_erase ho]
      exact h.balanced
    exact hb.dec
  | onRequest r b =>
    simp only [step, Option.ite_none_right_eq_some, Option.some.injEq] at hs
    obtain ⟨_, rfl⟩ := hs
    exact ⟨h.balanced, h.accounted.variables _ _ _ _⟩
  | run r k a out ret =>
    simp only [step, Option.ite_none_right_eq_some, Option.some.injEq] at hs
    obtain ⟨hr, rfl⟩ := hs
    exact ⟨h.balanced.run hr out ret, h.accounted.run hr out ret⟩
  | complete p =>
    simp only [step, Option.ite_none_right_eq_some, Option.some.injEq] at hs
    obtain ⟨hp, rfl⟩ := hs
    exact ⟨h.balanced.complete hp, h.accounted.complete hp⟩
  | moveArg o =>
    simp only [step] at hs
    split at hs
    next => cases hs
    next f fs hf =>
      simp only [Option.ite_none_right_eq_some, Option.some.injEq] at hs
      obtain ⟨ho, rfl⟩ := hs
      exact ⟨h.balanced.moveArg hf ho, (h.accounted.moveArg hf ho).variables _ _ _ _⟩
  | callbackReturn =>
    simp only [step] at hs
    split at hs
    next => cases hs
    next f fs hf =>
      simp only [Option.some.injEq] at hs
      subst hs
      exact ⟨h.balanced.leave hf, h.accounted.leave hf⟩

/-- No count is ever wrong, each run's references are released or still owed by its
own completion, and what a request callback may use is alive. The buffer is alive
through the callback's argument, unless the callback has moved from it. -/
structure Conserved (w : World) : Prop where
  fault : w.mem.fault = false
  live_iff : ∀ o, w.mem.status o = .live ↔ o ∈ w.held
  refs : ∀ o, w.mem.status o = .live → w.mem.refs o = w.held.count o
  accounts : ∀ t, w.added t = w.released t + w.owed t
  pending : ∀ p ∈ w.pending, w.added p.tag = w.owes p
  callback : ∀ f ∈ w.frames, w.added f.tag = ↑(f.guards ++ f.buffer) ∧
    .request f.request ∈ f.guards ∧ (f.args ++ f.moved).Perm (.request f.request :: f.buffer) ∧
    ∀ o ∈ f.guards ++ f.args, w.mem.status o = .live
  settled : w.pending = 0 → w.frames = [] → (∀ t, w.added t = w.released t) ∧
    ∀ o, w.mem.status o = .live → w.mem.refs o = w.vars.count o

/-- What a step releases. A run that libuv has is pending and releases nothing, any other
gives back what it has added. A completion releases all that its run has added, or with a
request callback the buffer, and the guards when the callback returns. -/
def Releases (w : World) : Event → World → Prop
  | .run r k _ out ret, w' => w'.frames = w.frames ∧
    (w.Submits r k out ∧ ¬ k.Refused ret → w'.pending = ⟨r, k, w.runs⟩ ::ₘ w.pending ∧ w'.released = w.released) ∧
    (¬ (w.Submits r k out ∧ ¬ k.Refused ret) →
      w'.pending = w.pending ∧ w'.held = w.held ∧ w'.released w.runs = w'.added w.runs)
  | .complete p, w' => w'.pending = w.pending.erase p ∧
    (w.callback p.request = true → w'.frames = w.enter p :: w.frames ∧
      w'.released = Function.update w.released p.tag (w.buffer p) ∧ w'.held = .request p.request ::ₘ w.held) ∧
    (w.callback p.request = false → w'.frames = w.frames ∧
      w'.released = Function.update w.released p.tag (w.added p.tag) ∧ w.held = w.owes p + w'.held)
  | .callbackReturn, w' => ∃ f, w.frames = f :: w'.frames ∧ w'.pending = w.pending ∧
    w'.released = Function.update w.released f.tag (w.added f.tag) ∧ w.held = f.holds + w'.held
  | _, w' => w'.pending = w.pending ∧ w'.released = w.released

theorem held_of_frame {f : Frame} (hf : f ∈ w.frames) {o : Obj} (ho : o ∈ f.guards ++ f.args) :
    o ∈ w.held := by
  have hh : o ∈ f.holds := by
    simp only [Frame.holds, Multiset.mem_coe, List.mem_append, List.mem_reverse] at ho ⊢
    exact ho.symm
  have hle : f.holds ≤ (w.frames.map Frame.holds).sum :=
    List.single_le_sum (fun _ _ => Multiset.zero_le _) _ (List.mem_map_of_mem hf)
  exact Multiset.mem_add.mpr (.inr (Multiset.mem_of_le hle hh))

theorem Inv.conserved (h : w.Inv) : w.Conserved where
  fault := h.balanced.fault
  live_iff := h.balanced.live_iff
  refs := h.balanced.refs_eq
  accounts := h.accounted.conserved
  pending p hp := (h.accounted.pending p hp).2
  callback f hf := ⟨(h.accounted.frame f hf).2, h.accounted.self f hf, h.accounted.args f hf,
    fun _ ho => h.balanced.live (held_of_frame hf ho)⟩
  settled hp hf := by
    refine ⟨fun t => ?_, fun o ho => ?_⟩
    · simpa [owed, hp, hf] using h.accounted.conserved t
    · simpa [held, hp, hf] using h.balanced.refs_eq o ho

end World

end Uvcc.Requests
