import Uvcc.Machine.Trace
import Uvcc.Counting.Counter

/-!
# Who closes a file descriptor

The descriptor is the `result` field of the `uv_fs_t` in the file instance. It is
closed by `fs::close` requests and by the destruction of the instance, and neither
leaves a trace in that field. Opening and closing are two events each when they
are asynchronous, with the callback of the user in between.
-/
namespace Uvcc.File
open Counting Machine

/-- What happens to descriptors, of which handle: one is delivered by an open or
by the constructor's caller, the library calls `uv_fs_close`, a close succeeds. -/
inductive Entry where
  | opened (f : ℕ) (fd : ℤ)
  | closeIssued (f : ℕ) (fd : ℤ)
  | closeOk (f : ℕ)
  deriving DecidableEq, Repr

def Entry.file : Entry → ℕ
  | .opened f _ => f
  | .closeIssued f _ => f
  | .closeOk f => f

/-- Every close, in a log with the latest entry first, is of a descriptor
delivered to the same handle, and no close of that handle has succeeded before. -/
def WellClosed : List Entry → Prop
  | [] => True
  | .closeIssued f fd :: log => (.opened f fd ∈ log ∧ .closeOk f ∉ log) ∧ WellClosed log
  | .opened _ _ :: log => WellClosed log
  | .closeOk _ :: log => WellClosed log

instance decidableWellClosed : (log : List Entry) → Decidable (WellClosed log)
  | [] => isTrue trivial
  | .closeIssued f fd :: log =>
    have := decidableWellClosed log
    inferInstanceAs (Decidable ((.opened f fd ∈ log ∧ .closeOk f ∉ log) ∧ WellClosed log))
  | .opened _ _ :: log => decidableWellClosed log
  | .closeOk _ :: log => decidableWellClosed log

/-- An asynchronous open holds a reference until its callback has returned. -/
inductive OpenStage where
  | idle
  | pending
  | callback
  deriving DecidableEq, Repr

def OpenStage.refs : OpenStage → ℕ
  | .idle => 0
  | .pending => 1
  | .callback => 1

/-- A file instance with everybody who refers to it: variables, an open, and close
requests that are pending or in their callback. `delivered` and `closed` tell what
became of the descriptor; the code has no such fields. -/
structure Handle extends Counter where
  result : ℤ
  vars : ℕ
  stage : OpenStage
  closes : ℕ
  closeFrames : ℕ
  delivered : Bool
  closed : Bool

namespace Handle

/-- A new instance in one variable; its `uv_fs_t` is zero-initialised. -/
def init : Handle := ⟨.of 1, 0, 1, .idle, 0, 0, false, false⟩

def holders (h : Handle) : ℕ := h.vars + h.stage.refs + h.closes + h.closeFrames

end Handle

structure Files where
  files : ℕ → Option Handle
  next : ℕ
  log : List Entry

/-- `written` is what a synchronous `uv_fs_open` puts into `result`, if it gets so
far; `ret` is the status of a `uv_fs_close`. -/
inductive FileEvent where
  | openSync (written : Option ℤ)
  | openAsync (accepted : Bool)
  | wrap (fd : ℤ)
  | openDone (f : ℕ) (result : ℤ)
  | openReturn (f : ℕ) (ret : ℤ)
  | copy (f : ℕ)
  | drop (f : ℕ) (ret : ℤ)
  | closeSync (f : ℕ) (ret : ℤ)
  | closeAsync (f : ℕ) (accepted : Bool)
  | closeDone (f : ℕ) (ret : ℤ)
  | closeReturn (f : ℕ) (ret : ℤ)

namespace Files

def init : Files := ⟨fun _ => none, 0, []⟩

def set (w : Files) (f : ℕ) (h : Handle) (es : List Entry) : Files :=
  { w with files := Function.update w.files f (some h), log := es ++ w.log }

/-- A new handle, whose descriptor may have been delivered at once. -/
def add (w : Files) (h : Handle) : Files :=
  { w.set w.next h (if h.delivered then [.opened w.next h.result] else []) with next := w.next + 1 }

def closing (f : ℕ) (fd ret : ℤ) : List Entry :=
  (if 0 ≤ ret then [.closeOk f] else []) ++ [.closeIssued f fd]

def release (w : Files) (f : ℕ) (h : Handle) (ret : ℤ) : Files :=
  if h.refs - 1 = 0 ∧ 0 ≤ h.result then
    w.set f { h with toCounter := h.dec, closed := h.closed || decide (0 ≤ ret) } (closing f h.result ret)
  else w.set f { h with toCounter := h.dec } []

def step (w : Files) : FileEvent → Option Files
  | .openSync written =>
    some (w.add { Handle.init with result := written.getD 0, delivered := written.any (0 ≤ ·) })
  | .openAsync accepted =>
    let h := { Handle.init with toCounter := Handle.init.inc }
    some (w.add (if accepted then { h with stage := .pending } else { h with toCounter := h.dec }))
  | .wrap fd => some (w.add { Handle.init with result := fd, delivered := true })
  | .openDone f result => (w.files f).bind fun h =>
    if h.stage = .pending then
      some (w.set f { h with
        result := result
        delivered := decide (0 ≤ result)
        stage := .callback } (if 0 ≤ result then [.opened f result] else []))
    else none
  | .openReturn f ret => (w.files f).bind fun h =>
    if h.stage = .callback then some (w.release f { h with stage := .idle } ret) else none
  | .copy f => (w.files f).bind fun h =>
    if h.holders = 0 then none
    else some (w.set f { h with toCounter := h.inc, vars := h.vars + 1 } [])
  | .drop f ret => (w.files f).bind fun h =>
    if h.vars = 0 then none else some (w.release f { h with vars := h.vars - 1 } ret)
  | .closeSync f ret => (w.files f).bind fun h =>
    if h.vars = 0 then none
    else some (w.set f { h with closed := h.closed || decide (0 ≤ ret) } (closing f h.result ret))
  | .closeAsync f accepted => (w.files f).bind fun h =>
    if h.vars = 0 then none
    else
      let h' := { h with toCounter := h.inc }
      let h'' := if accepted then { h' with closes := h'.closes + 1 } else { h' with toCounter := h'.dec }
      some (w.set f h'' [.closeIssued f h.result])
  | .closeDone f ret => (w.files f).bind fun h =>
    if h.closes = 0 then none
    else some (w.set f { h with
      closes := h.closes - 1
      closeFrames := h.closeFrames + 1
      closed := h.closed || decide (0 ≤ ret) } (if 0 ≤ ret then [.closeOk f] else []))
  | .closeReturn f ret => (w.files f).bind fun h =>
    if h.closeFrames = 0 then none
    else some (w.release f { h with closeFrames := h.closeFrames - 1 } ret)

end Files

/-- The handle has a descriptor of its own that no close has succeeded on. -/
def Handle.Closable (h : Handle) : Prop := h.delivered = true ∧ h.closed = false

/-- Only such a handle is closed by a request, or destroyed with a `result` that
looks like a descriptor. -/
def OwnsDescriptor (w : Files) : FileEvent → Prop
  | .closeSync f _ => ∀ h, w.files f = some h → h.Closable
  | .closeAsync f _ => ∀ h, w.files f = some h → h.Closable
  | .drop f _ => ∀ h, w.files f = some h → h.holders = 1 → 0 ≤ h.result → h.Closable
  | .openReturn f _ => ∀ h, w.files f = some h → h.holders = 1 → 0 ≤ h.result → h.Closable
  | .closeReturn f _ => ∀ h, w.files f = some h → h.holders = 1 → 0 ≤ h.result → h.Closable
  | _ => True

/-! ## The log and the handles -/

structure Recorded (log : List Entry) (f : ℕ) (h : Handle) : Prop where
  opened : h.delivered = true → .opened f h.result ∈ log
  unopened : h.delivered = false → ∀ fd, .opened f fd ∉ log
  closed : h.closed = true ↔ .closeOk f ∈ log
  pending : h.stage = .pending → h.delivered = false

structure Inv (w : Files) : Prop where
  counted : ∀ f h, w.files f = some h → h.toCounter.Holds h.holders
  recorded : ∀ f h, w.files f = some h → Recorded w.log f h
  fresh : ∀ f, w.next ≤ f → w.files f = none ∧ ∀ e ∈ w.log, e.file ≠ f
  well : WellClosed w.log

section Logs
variable {log es : List Entry} {f g : ℕ} {h : Handle}

theorem wellClosed_append (hes : ∀ e ∈ es, ∀ f fd, e ≠ .closeIssued f fd) :
    WellClosed (es ++ log) ↔ WellClosed log := by
  induction es with
  | nil => rfl
  | cons e es ih =>
    have hi := ih fun e he => hes e (List.mem_cons_of_mem _ he)
    cases e with
    | opened f fd => exact hi
    | closeIssued f fd => exact absurd rfl (hes _ List.mem_cons_self f fd)
    | closeOk f => exact hi

/-- Entries about other handles change nothing. -/
theorem Recorded.other (hr : Recorded log f h) (hes : ∀ e ∈ es, e.file ≠ f) :
    Recorded (es ++ log) f h where
  opened hd := List.mem_append_right _ (hr.opened hd)
  unopened hd fd hm := by
    rcases List.mem_append.mp hm with hm | hm
    · exact hes _ hm rfl
    · exact hr.unopened hd fd hm
  closed := by
    rw [hr.closed]
    refine ⟨List.mem_append_right _, fun hm => ?_⟩
    rcases List.mem_append.mp hm with hm | hm
    · exact absurd rfl (hes _ hm)
    · exact hm
  pending := hr.pending

/-- A close of the descriptor is in order exactly when the handle owns it. -/
theorem Recorded.closable (hr : Recorded log f h) :
    (.opened f h.result ∈ log ∧ .closeOk f ∉ log) ↔ h.Closable := by
  have hc := hr.closed
  unfold Handle.Closable
  cases hd : h.delivered with
  | true => simp only [hr.opened hd, ← hc, true_and, Bool.not_eq_true]
  | false =>
    have hn := hr.unopened hd h.result
    simp [hn]

/-- The entries of a close, in the handle's fields. -/
theorem Recorded.closing (hr : Recorded log f h) (fd ret : ℤ) :
    Recorded (Files.closing f fd ret ++ log) f { h with closed := h.closed || decide (0 ≤ ret) } where
  opened hd := List.mem_append_right _ (hr.opened hd)
  unopened hd fd' hm := by
    have hn := hr.unopened hd fd'
    unfold Files.closing at hm
    split_ifs at hm <;> simp [hn] at hm
  closed := by
    unfold Files.closing
    split_ifs with hret <;> simp [hret, hr.closed]
  pending := hr.pending

/-- The log says of a handle only what these four fields say. -/
theorem Recorded.congr {h' : Handle} (hr : Recorded log f h) (hres : h'.result = h.result)
    (hd : h'.delivered = h.delivered) (hc : h'.closed = h.closed)
    (ho : h'.stage = .pending → h.stage = .pending) : Recorded log f h' where
  opened := by rw [hd, hres]; exact hr.opened
  unopened := by rw [hd]; exact hr.unopened
  closed := by rw [hc]; exact hr.closed
  pending := by rw [hd]; exact fun h => hr.pending (ho h)

theorem closing_file (f : ℕ) (fd ret : ℤ) : ∀ e ∈ Files.closing f fd ret, e.file = f := by
  intro e he
  unfold Files.closing at he
  split_ifs at he <;> simp at he
  · rcases he with rfl | rfl <;> rfl
  · subst he; rfl

theorem wellClosed_closing (log : List Entry) (f : ℕ) (fd ret : ℤ) :
    WellClosed (Files.closing f fd ret ++ log) ↔
      (.opened f fd ∈ log ∧ .closeOk f ∉ log) ∧ WellClosed log := by
  unfold Files.closing
  split_ifs <;> rfl

end Logs

section Steps
variable {w t : Files} {f : ℕ} {h : Handle} {es : List Entry}

theorem Inv.lt_next (hw : Inv w) (hf : w.files f = some h) : f < w.next := by
  by_contra hn
  rw [(hw.fresh f (by omega)).1] at hf
  cases hf

/-- A step touches one handle and adds entries about it. -/
theorem Inv.set {h' : Handle} (hw : Inv w) (hf : w.files f = some h) (hes : ∀ e ∈ es, e.file = f)
    (hc : h'.toCounter.Holds h'.holders) (hr : Recorded (es ++ w.log) f h')
    (hwell : WellClosed (es ++ w.log)) : Inv (w.set f h' es) where
  counted g k hg := by
    by_cases he : g = f
    · subst he
      simp only [Files.set, Function.update_self, Option.some.injEq] at hg
      exact hg ▸ hc
    · simp only [Files.set, Function.update_of_ne he] at hg
      exact hw.counted g k hg
  recorded g k hg := by
    by_cases he : g = f
    · subst he
      simp only [Files.set, Function.update_self, Option.some.injEq] at hg
      exact hg ▸ hr
    · simp only [Files.set, Function.update_of_ne he] at hg
      exact (hw.recorded g k hg).other fun e hm hfile => he (hfile.symm.trans (hes e hm))
  fresh g hg := by
    have hlt := hw.lt_next hf
    have hg' : w.next ≤ g := hg
    have hne : g ≠ f := by omega
    obtain ⟨hnone, hlog⟩ := hw.fresh g hg'
    refine ⟨by simp only [Files.set, Function.update_of_ne hne]; exact hnone, fun e hm => ?_⟩
    rcases List.mem_append.mp hm with hm | hm
    · rw [hes e hm]
      exact hne.symm
    · exact hlog e hm
  well := hwell

/-- A new handle; nothing was ever said of its number. -/
theorem Inv.add (hw : Inv w) (hc : h.toCounter.Holds h.holders) (hclosed : h.closed = false)
    (ho : h.stage = .pending → h.delivered = false) : Inv (w.add h) := by
  obtain ⟨hnone, hlog⟩ := hw.fresh w.next le_rfl
  have hfile : ∀ e ∈ (if h.delivered then [Entry.opened w.next h.result] else []), e.file = w.next := by
    intro e he
    split_ifs at he
    · rw [List.mem_singleton] at he; subst he; rfl
    · simp at he
  refine ⟨fun g k hg => ?_, fun g k hg => ?_, fun g hg => ?_, ?_⟩
  · by_cases he : g = w.next
    · subst he
      simp only [Files.add, Files.set, Function.update_self, Option.some.injEq] at hg
      exact hg ▸ hc
    · simp only [Files.add, Files.set, Function.update_of_ne he] at hg
      exact hw.counted g k hg
  · by_cases he : g = w.next
    · subst he
      simp only [Files.add, Files.set, Function.update_self, Option.some.injEq] at hg
      subst hg
      refine ⟨fun hd => ?_, fun hd fd hm => ?_, ?_, ho⟩
      · simp [Files.add, Files.set, hd]
      · simp only [Files.add, Files.set, hd, Bool.false_eq_true, if_false, List.nil_append] at hm
        exact hlog _ hm rfl
      · rw [hclosed]
        refine ⟨nofun, fun hm => ?_⟩
        rcases List.mem_append.mp hm with hm | hm
        · split_ifs at hm <;> simp at hm
        · exact absurd rfl (hlog _ hm)
    · simp only [Files.add, Files.set, Function.update_of_ne he] at hg
      exact (hw.recorded g k hg).other fun e hm h' => he (h'.symm.trans (hfile e hm))
  · have hg' : w.next + 1 ≤ g := hg
    have hne : g ≠ w.next := by omega
    obtain ⟨hn, hl⟩ := hw.fresh g (by omega)
    refine ⟨by simp only [Files.add, Files.set, Function.update_of_ne hne]; exact hn, fun e hm => ?_⟩
    rcases List.mem_append.mp hm with hm | hm
    · rw [hfile e hm]
      exact hne.symm
    · exact hl e hm
  · refine (wellClosed_append fun e he g fd => ?_).mpr hw.well
    split_ifs at he
    · rw [List.mem_singleton] at he; subst he; nofun
    · simp at he

/-- One reference less: in order unless it was the last and the handle does not own
what its `result` says. -/
theorem release_step {h' : Handle} (ret : ℤ) (hw : Inv w) (hf : w.files f = some h)
    (hh : h.holders = h'.holders + 1) (hcount : h'.toCounter = h.toCounter) (hres : h'.result = h.result)
    (hd : h'.delivered = h.delivered) (hcl : h'.closed = h.closed)
    (ho : h'.stage = .pending → h.stage = .pending) :
    ((h.holders = 1 → 0 ≤ h.result → h.Closable) → Inv (w.release f h' ret)) ∧
      (¬ (h.holders = 1 → 0 ≤ h.result → h.Closable) → ¬ WellClosed (w.release f h' ret).log) := by
  have hc := hw.counted f h hf
  have hr := hw.recorded f h hf
  have hrefs : h'.refs - 1 = h'.holders := by
    have h1 := hc.refs
    rw [← hcount, hh] at h1
    push_cast at h1
    omega
  have hdec : ({ h' with toCounter := h'.dec } : Handle).toCounter.Holds h'.holders := by
    have h1 : h'.toCounter.Holds (h'.holders + 1) := by
      rw [hcount]
      rw [hh] at hc
      exact_mod_cast hc
    exact h1.dec (Int.natCast_nonneg _)
  have hr' : Recorded w.log f h' := hr.congr hres hd hcl ho
  have hlast : h.holders = 1 ↔ h'.refs - 1 = 0 := by rw [hrefs]; omega
  have hown : h'.Closable ↔ h.Closable := by rw [Handle.Closable, Handle.Closable, hd, hcl]
  unfold Files.release
  split_ifs with hz
  · have hone : h.holders = 1 := hlast.mpr hz.1
    have hpos : 0 ≤ h.result := hres ▸ hz.2
    have hwell := wellClosed_closing w.log f h'.result ret
    rw [hr'.closable, hown] at hwell
    refine ⟨fun hok => ?_, fun hbad hwc => hbad fun _ _ => (hwell.mp hwc).1⟩
    refine hw.set hf (closing_file f h'.result ret) hdec ?_ (hwell.mpr ⟨hok hone hpos, hw.well⟩)
    exact (hr'.closing h'.result ret).congr rfl rfl rfl id
  · refine ⟨fun _ => hw.set hf (by simp) hdec (hr'.congr rfl rfl rfl id) hw.well, fun hbad => ?_⟩
    refine absurd (fun h1 h2 => ?_) hbad
    exact absurd ⟨hlast.mp h1, hres ▸ h2⟩ hz

/-- A close issued by a request, which the handle survives. -/
theorem issue_step {h' : Handle} {es : List Entry} (hw : Inv w) (hf : w.files f = some h)
    (hes : ∀ e ∈ es, e.file = f)
    (hwell : WellClosed (es ++ w.log) ↔
      (.opened f h.result ∈ w.log ∧ .closeOk f ∉ w.log) ∧ WellClosed w.log)
    (hc : h'.toCounter.Holds h'.holders) (hr : Recorded (es ++ w.log) f h') :
    (h.Closable → Inv (w.set f h' es)) ∧ (¬ h.Closable → ¬ WellClosed (w.set f h' es).log) := by
  rw [(hw.recorded f h hf).closable] at hwell
  exact ⟨fun hok => hw.set hf hes hc hr (hwell.mpr ⟨hok, hw.well⟩), fun hbad hwc => hbad (hwell.mp hwc).1⟩

theorem guard_some {p : Handle → Prop} [DecidablePred p] {g : Handle → Files}
    (h : ((w.files f).bind fun h => if p h then some (g h) else none) = some t) :
    ∃ h, w.files f = some h ∧ p h ∧ t = g h := by
  obtain ⟨h, hf, hg⟩ := Option.bind_eq_some_iff.mp h
  simp only [Option.ite_none_right_eq_some, Option.some.injEq] at hg
  exact ⟨h, hf, hg.1, hg.2.symm⟩

theorem unless_some {p : Handle → Prop} [DecidablePred p] {g : Handle → Files}
    (h : ((w.files f).bind fun h => if p h then none else some (g h)) = some t) :
    ∃ h, w.files f = some h ∧ ¬ p h ∧ t = g h := by
  obtain ⟨h, hf, hg⟩ := Option.bind_eq_some_iff.mp h
  simp only [Option.ite_none_left_eq_some, Option.some.injEq] at hg
  exact ⟨h, hf, hg.1, hg.2.symm⟩

/-- The condition on the one handle that an event is about. -/
theorem forall_file {p : Handle → Prop} (hf : w.files f = some h) :
    (∀ k, w.files f = some k → p k) ↔ p h := by
  simp [hf]

theorem openDone_inv (hw : Inv w) (hf : w.files f = some h) (hp : h.stage = .pending) (result : ℤ) :
    Inv (w.set f { h with result := result, delivered := decide (0 ≤ result), stage := .callback }
      (if 0 ≤ result then [.opened f result] else [])) := by
  have hr := hw.recorded f h hf
  have hund := hr.pending hp
  have hes : ∀ e ∈ (if 0 ≤ result then [Entry.opened f result] else []), e = .opened f result := by
    intro e he
    split_ifs at he
    · exact List.mem_singleton.mp he
    · simp at he
  refine hw.set hf (fun e he => by rw [hes e he]; rfl) ?_ ⟨fun hd => ?_, fun hd fd hm => ?_, ?_, nofun⟩ ?_
  · have hc := hw.counted f h hf
    unfold Handle.holders at hc ⊢
    rwa [hp] at hc
  · have hpos : 0 ≤ result := of_decide_eq_true hd
    simp [hpos]
  · have hneg : ¬ 0 ≤ result := of_decide_eq_false hd
    simp only [hneg, if_false, List.nil_append] at hm
    exact hr.unopened hund fd hm
  · rw [hr.closed]
    refine ⟨List.mem_append_right _, fun hm => ?_⟩
    rcases List.mem_append.mp hm with hm | hm
    · cases hes _ hm
    · exact hm
  · exact (wellClosed_append fun e he g fd => by rw [hes e he]; nofun).mpr hw.well

theorem closeDone_inv (hw : Inv w) (hf : w.files f = some h) (hp : h.closes ≠ 0) (ret : ℤ) :
    Inv (w.set f { h with
      closes := h.closes - 1
      closeFrames := h.closeFrames + 1
      closed := h.closed || decide (0 ≤ ret) } (if 0 ≤ ret then [.closeOk f] else [])) := by
  have hr := hw.recorded f h hf
  have hes : ∀ e ∈ (if 0 ≤ ret then [Entry.closeOk f] else []), e = .closeOk f := by
    intro e he
    split_ifs at he
    · exact List.mem_singleton.mp he
    · simp at he
  refine hw.set hf (fun e he => by rw [hes e he]; rfl) ?_
    ⟨fun hd => List.mem_append_right _ (hr.opened hd), fun hd fd hm => ?_, ?_, hr.pending⟩ ?_
  · have hc := hw.counted f h hf
    have hh : h.vars + h.stage.refs + (h.closes - 1) + (h.closeFrames + 1) = h.holders := by
      unfold Handle.holders
      omega
    rw [← hh] at hc
    exact hc
  · rcases List.mem_append.mp hm with hm | hm
    · cases hes _ hm
    · exact hr.unopened hd fd hm
  · split_ifs with hret <;> simp [hret, hr.closed]
  · exact (wellClosed_append fun e he g fd => by rw [hes e he]; nofun).mpr hw.well

/-- What a step keeps when it meets the condition, and breaks when it does not. -/
theorem step_wellClosed {e : FileEvent} (hw : Inv w) (h : w.step e = some t) :
    (OwnsDescriptor w e → Inv t) ∧ (¬ OwnsDescriptor w e → ¬ WellClosed t.log) := by
  cases e with
  | openSync written =>
    obtain rfl := Option.some.inj h
    exact ⟨fun _ => hw.add (Counter.of_holds le_rfl) rfl nofun, fun hbad => absurd trivial hbad⟩
  | openAsync accepted =>
    obtain rfl := Option.some.inj h
    refine ⟨fun _ => ?_, fun hbad => absurd trivial hbad⟩
    have hi : Handle.init.toCounter.inc.Holds 2 := (Counter.of_holds (n := 1) le_rfl).inc le_rfl
    cases accepted with
    | true => exact hw.add hi rfl fun _ => rfl
    | false => exact hw.add (Counter.Holds.dec (n := 1) hi (by decide)) rfl nofun
  | wrap fd =>
    obtain rfl := Option.some.inj h
    exact ⟨fun _ => hw.add (Counter.of_holds le_rfl) rfl nofun, fun hbad => absurd trivial hbad⟩
  | openDone f result =>
    obtain ⟨k, hf, hp, rfl⟩ := guard_some h
    exact ⟨fun _ => openDone_inv hw hf hp result, fun hbad => absurd trivial hbad⟩
  | openReturn f ret =>
    obtain ⟨k, hf, hp, rfl⟩ := guard_some h
    have hh : k.holders = ({ k with stage := .idle } : Handle).holders + 1 := by
      simp only [Handle.holders, hp, OpenStage.refs]
      omega
    have hk := release_step ret hw hf hh rfl rfl rfl rfl nofun
    simp only [OwnsDescriptor, forall_file hf]
    exact hk
  | copy f =>
    obtain ⟨k, hf, hp, rfl⟩ := unless_some h
    refine ⟨fun _ => ?_, fun hbad => absurd trivial hbad⟩
    refine hw.set hf (by simp) ?_ ((hw.recorded f k hf).congr rfl rfl rfl id) hw.well
    have hh : k.vars + 1 + k.stage.refs + k.closes + k.closeFrames = k.holders + 1 := by
      unfold Handle.holders
      omega
    have hc := (hw.counted f k hf).inc (by omega)
    rw [← Nat.cast_one, ← Nat.cast_add, ← hh] at hc
    exact hc
  | drop f ret =>
    obtain ⟨k, hf, hp, rfl⟩ := unless_some h
    have hh : k.holders = ({ k with vars := k.vars - 1 } : Handle).holders + 1 := by
      simp only [Handle.holders]
      omega
    have hk := release_step ret hw hf hh rfl rfl rfl rfl id
    simp only [OwnsDescriptor, forall_file hf]
    exact hk
  | closeSync f ret =>
    obtain ⟨k, hf, hp, rfl⟩ := unless_some h
    simp only [OwnsDescriptor, forall_file hf]
    exact issue_step hw hf (closing_file f k.result ret) (wellClosed_closing w.log f k.result ret)
      (hw.counted f k hf) ((hw.recorded f k hf).closing k.result ret)
  | closeAsync f accepted =>
    obtain ⟨k, hf, hp, rfl⟩ := unless_some h
    simp only [OwnsDescriptor, forall_file hf]
    have h1 : 1 ≤ k.holders := by
      unfold Handle.holders
      omega
    have hc := (hw.counted f k hf).inc (by exact_mod_cast h1)
    have hr : Recorded ([.closeIssued f k.result] ++ w.log) f k := by
      have hk := hw.recorded f k hf
      refine ⟨fun hd => List.mem_append_right _ (hk.opened hd), fun hd fd hm => ?_, ?_, hk.pending⟩
      · exact hk.unopened hd fd (by simpa using hm)
      · rw [hk.closed]
        simp
    cases accepted with
    | true =>
      have hh : k.vars + k.stage.refs + (k.closes + 1) + k.closeFrames = k.holders + 1 := by
        unfold Handle.holders
        omega
      rw [← Nat.cast_one, ← Nat.cast_add, ← hh] at hc
      exact issue_step hw hf (by simp [Entry.file]) Iff.rfl hc (hr.congr rfl rfl rfl id)
    | false =>
      exact issue_step hw hf (by simp [Entry.file]) Iff.rfl (hc.dec (Int.natCast_nonneg _))
        (hr.congr rfl rfl rfl id)
  | closeDone f ret =>
    obtain ⟨k, hf, hp, rfl⟩ := unless_some h
    exact ⟨fun _ => closeDone_inv hw hf hp ret, fun hbad => absurd trivial hbad⟩
  | closeReturn f ret =>
    obtain ⟨k, hf, hp, rfl⟩ := unless_some h
    have hh : k.holders = ({ k with closeFrames := k.closeFrames - 1 } : Handle).holders + 1 := by
      simp only [Handle.holders]
      omega
    have hk := release_step ret hw hf hh rfl rfl rfl rfl id
    simp only [OwnsDescriptor, forall_file hf]
    exact hk

end Steps

/-- In every run over any number of files each descriptor is closed by its owner
and never again after a close has succeeded, exactly when no request closes and no
destruction finds a descriptor that is not the handle's to close. -/
theorem wellClosed_iff (es : List FileEvent) :
    (∀ w ∈ visited Files.step Files.init es, WellClosed w.log) ↔
      ∀ p ∈ taken Files.step Files.init es, OwnsDescriptor p.1 p.2 := by
  refine visited_iff_guarded (I := Inv) (fun w hw => hw.well) ?_ ?_ es _ ?_
  · intro w e t hw hok h
    exact (step_wellClosed hw h).1 hok
  · intro w e t hw hbad h
    exact (step_wellClosed hw h).2 hbad
  · exact ⟨nofun, nofun, fun _ _ => ⟨rfl, nofun⟩, trivial⟩

def closedTwice : List FileEvent := [.openSync (some 3), .closeSync 0 0, .drop 0 0]

theorem descriptor_closed_twice : ¬ ∀ es : List FileEvent,
    ∀ w ∈ visited Files.step Files.init es, WellClosed w.log := by
  intro h
  have hrun := h closedTwice
  revert hrun
  decide

end Uvcc.File
