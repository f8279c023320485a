import Uvcc.Requests.Completions
import Uvcc.Requests.Output
import Uvcc.Io.Commands

/-!
# What a request reports

Each `run` returns what libuv answers and leaves it in `uv_status()` as well, so that the
request can be tested as a condition. The bodies follow the shapes of the requests; the
functions that only try, and `output`, go through the same status.
-/
namespace Uvcc.Requests
open Machine

def uvEBADF : ℤ := -9
def uvEAGAIN : ℤ := -11

/-- A request instance, as far as its status is concerned. A run that libuv has accepted is
`pending`, and `promised` if it has told so by a non-negative value. `returned` is what the
last call has returned, until a completion is delivered. -/
structure Request where
  uvError : ℤ
  callback : Bool
  pending : Bool
  promised : Bool
  returned : Option ℤ
  deriving DecidableEq, Repr

/-- The functions of the request classes that set a status. `out` is the descriptor of the
output of `fs::sendfile`, `ret` what libuv answers. -/
inductive Call where
  | run (k : Run) (out ret : ℤ)
  | tryWrite (ret : ℤ)
  | trySend (ret : ℤ)
  | fsTryWrite (queueEmpty : Bool) (ret : ℤ)
  | scandirNext (ret : ℤ)
  | output (io : IoType) (info : Bool) (ret : ℤ)
  | tryOutput (io : IoType) (info queueEmpty : Bool) (ret : ℤ)
  deriving DecidableEq, Repr

/-- The calls that hand libuv's request to a function of libuv. -/
def Call.submits : Call → Bool
  | .run _ _ _ => true
  | .tryWrite _ => false
  | .trySend _ => false
  | .fsTryWrite _ _ => true
  | .scandirNext _ => true
  | .output io info _ => io != .other && (io != .udp || info)
  | .tryOutput io _ _ _ => io == .file

def Call.refused : Call → Bool
  | .run k out _ => k.shape.checksFd && out == -1
  | _ => false

inductive RequestEvent where
  | setCallback (set : Bool)
  | call (c : Call)
  | complete (status : ℤ)
  deriving DecidableEq, Repr

namespace Request

def init : Request := ⟨0, false, false, false, none⟩

def uvStatus (s : Request) (value : ℤ) : Request × Option ℤ := ({ s with uvError := value }, some value)

def toBool (s : Request) : Bool := decide (0 ≤ s.uvError)

/-- The branch of `run` for a request callback; `connect::run` on a pipe has no result and
does not touch the status. -/
def submit (s : Request) (shape : Shape) (ret : ℤ) : Request × Option ℤ :=
  match shape.unrefs with
  | some _ =>
    let s1 := (s.uvStatus 0).1
    if ret < 0 then s1.uvStatus ret else ({ s1 with pending := true, promised := true }, some ret)
  | none => ({ s with pending := true, promised := false }, none)

/-- `run`; the check of the descriptor comes first. -/
def run (s : Request) (shape : Shape) (out ret : ℤ) : Request × Option ℤ :=
  if shape.checksFd ∧ out = -1 then (s, some uvEBADF)
  else match shape.sync, s.callback with
    | some _, false => s.uvStatus ret
    | _, _ => s.submit shape ret

def fsTryWrite (s : Request) (queueEmpty : Bool) (ret : ℤ) : Request × Option ℤ :=
  if queueEmpty then s.uvStatus ret else s.uvStatus uvEAGAIN

def output (s : Request) (io : IoType) (info : Bool) (ret : ℤ) : Request × Option ℤ :=
  match io with
  | .namedPipe | .tcp | .tty => s.run write.run 0 ret
  | .udp => if info then s.run udp_send.run 0 ret else s.uvStatus Io.uvEINVAL
  | .file => s.run fs.write.run 0 ret
  | .other => s.uvStatus uvEBADF

def tryOutput (s : Request) (io : IoType) (info queueEmpty : Bool) (ret : ℤ) : Request × Option ℤ :=
  match io with
  | .namedPipe | .tcp | .tty => s.uvStatus ret
  | .udp => if info then s.uvStatus ret else s.uvStatus Io.uvEINVAL
  | .file => s.fsTryWrite queueEmpty ret
  | .other => s.uvStatus uvEBADF

def call (s : Request) : Call → Request × Option ℤ
  | .run k out ret => s.run k.shape out ret
  | .tryWrite ret => s.uvStatus ret
  | .trySend ret => s.uvStatus ret
  | .fsTryWrite queueEmpty ret => s.fsTryWrite queueEmpty ret
  | .scandirNext ret => s.uvStatus ret
  | .output io info ret => s.output io info ret
  | .tryOutput io info queueEmpty ret => s.tryOutput io info queueEmpty ret

/-- A request that libuv has is not handed to it again. -/
def step (s : Request) : RequestEvent → Option Request
  | .setCallback set => some { s with callback := set }
  | .call c =>
    if s.pending = true ∧ c.submits = true then none
    else some { (s.call c).1 with returned := (s.call c).2 }
  | .complete status =>
    if s.pending then
      some { s with uvError := status, pending := false, promised := false, returned := none }
    else none

variable {s t : Request} {e : RequestEvent}

/-! ## The answer and the status -/

/-- What a call does to the status: it sets what it returns; libuv accepts the run; there
is no result to report; or nothing is set. -/
inductive Outcome (s : Request) : Request × Option ℤ → Prop where
  | set (value : ℤ) : Outcome s ({ s with uvError := value }, some value)
  | accepted (ret : ℤ) (h : 0 ≤ ret) :
    Outcome s ({ s with uvError := 0, pending := true, promised := true }, some ret)
  | silent : Outcome s ({ s with pending := true, promised := false }, none)

theorem submit_outcome (s : Request) (shape : Shape) (ret : ℤ) : Outcome s (s.submit shape ret) := by
  unfold submit
  split
  · dsimp only
    split_ifs with hret
    · exact .set ret
    · exact .accepted ret (not_lt.mp hret)
  · exact .silent

theorem run_outcome (s : Request) (shape : Shape) (out ret : ℤ)
    (h : ¬ (shape.checksFd = true ∧ out = -1)) : Outcome s (s.run shape out ret) := by
  unfold run
  rw [if_neg h]
  split
  · exact .set ret
  · exact submit_outcome s shape ret

theorem fsTryWrite_outcome (s : Request) (queueEmpty : Bool) (ret : ℤ) :
    Outcome s (s.fsTryWrite queueEmpty ret) := by
  cases queueEmpty with
  | true => exact .set ret
  | false => exact .set uvEAGAIN

theorem output_outcome (s : Request) (io : IoType) (info : Bool) (ret : ℤ) :
    Outcome s (s.output io info ret) := by
  cases io with
  | udp =>
    cases info with
    | true => exact run_outcome s udp_send.run 0 ret (by decide)
    | false => exact .set Io.uvEINVAL
  | file => exact run_outcome s fs.write.run 0 ret (by decide)
  | other => exact .set uvEBADF
  | _ => exact run_outcome s write.run 0 ret (by decide)

theorem tryOutput_outcome (s : Request) (io : IoType) (info queueEmpty : Bool) (ret : ℤ) :
    Outcome s (s.tryOutput io info queueEmpty ret) := by
  cases io with
  | udp =>
    cases info with
    | true => exact .set ret
    | false => exact .set Io.uvEINVAL
  | file => exact fsTryWrite_outcome s queueEmpty ret
  | other => exact .set uvEBADF
  | _ => exact .set ret

theorem call_outcome (s : Request) {c : Call} (h : c.refused = false) : Outcome s (s.call c) := by
  cases c with
  | run k out ret =>
    refine run_outcome s k.shape out ret fun hcheck => ?_
    simp [Call.refused, hcheck] at h
  | tryWrite ret => exact .set ret
  | trySend ret => exact .set ret
  | fsTryWrite queueEmpty ret => exact fsTryWrite_outcome s queueEmpty ret
  | scandirNext ret => exact .set ret
  | output io info ret => exact output_outcome s io info ret
  | tryOutput io info queueEmpty ret => exact tryOutput_outcome s io info queueEmpty ret

theorem call_refused (s : Request) {c : Call} (h : c.refused = true) : s.call c = (s, some uvEBADF) := by
  cases c with
  | run k out ret =>
    simp only [Call.refused, Bool.and_eq_true, beq_iff_eq] at h
    exact if_pos h
  | _ => cases h

/-- The completion that is under way is that of the reference model. -/
theorem run_pending_iff (w : World) (r : ℕ) (k : Run) (a : Args) (out ret : ℤ) (hs : s.pending = false)
    (hc : s.callback = w.callback r) : (s.run k.shape out ret).1.pending = true ↔
      (w.run r k a out ret).pending = ⟨r, k, w.runs⟩ ::ₘ w.pending := by
  have hne : w.pending ≠ ⟨r, k, w.runs⟩ ::ₘ w.pending := fun h => by
    have hcard := congrArg Multiset.card h
    rw [Multiset.card_cons] at hcard
    omega
  have hsubmit : (s.submit k.shape ret).1.pending = true ↔
      (w.submit r k a ret).pending = ⟨r, k, w.runs⟩ ::ₘ w.pending := by
    cases hu : k.shape.unrefs with
    | none =>
      simp only [submit, World.submit, hu]
      exact iff_of_true trivial rfl
    | some us =>
      simp only [submit, World.submit, hu]
      by_cases hret : ret < 0
      · simp only [if_pos hret, decide_eq_true hret]
        exact iff_of_false (by simp [uvStatus, hs]) hne
      · simp only [if_neg hret, decide_eq_false hret]
        exact iff_of_true trivial rfl
  unfold run World.run
  split_ifs with hcheck
  · exact iff_of_false (by simp [hs]) hne
  · rw [hc]
    cases k.shape.sync with
    | none => exact hsubmit
    | some st =>
      cases w.callback r with
      | true => exact hsubmit
      | false => exact iff_of_false (by simp [uvStatus, hs]) hne

/-! ## A failed call is visible -/

/-- What the last call has returned shows in the status if it is negative, and a run under
way that has returned no error shows none. -/
structure Reports (s : Request) : Prop where
  failed : ∀ ret, s.returned = some ret → ret < 0 → s.uvError = ret ∧ s.toBool = false
  promised : s.promised = true → (∀ ret, s.returned = some ret → 0 ≤ ret) → 0 ≤ s.uvError

/-- A call that is refused finds its error in the status. -/
def FindsError (s : Request) : RequestEvent → Prop
  | .call c => c.refused = true → s.uvError = uvEBADF
  | _ => True

theorem toBool_eq_false (h : s.uvError < 0) : s.toBool = false := decide_eq_false (not_le.mpr h)

theorem init_reports : init.Reports where
  failed := nofun
  promised := nofun

theorem Outcome.reports {p : Request × Option ℤ} (h : Outcome s p) :
    Reports { p.1 with returned := p.2 } := by
  cases h with
  | set value =>
    refine ⟨fun ret hret hneg => ?_, fun _ hpos => hpos value rfl⟩
    obtain rfl := Option.some.inj hret
    exact ⟨rfl, toBool_eq_false hneg⟩
  | accepted ret hret =>
    refine ⟨fun r hr hneg => ?_, fun _ _ => le_rfl⟩
    obtain rfl := Option.some.inj hr
    omega
  | silent => exact ⟨nofun, nofun⟩

theorem Reports.step (hs : s.Reports) (hok : s.FindsError e) (h : s.step e = some t) : t.Reports := by
  cases e with
  | setCallback set =>
    obtain rfl := Option.some.inj h
    exact ⟨hs.failed, hs.promised⟩
  | call c =>
    simp only [Request.step, Option.ite_none_left_eq_some, Option.some.injEq] at h
    obtain ⟨_, rfl⟩ := h
    cases hc : c.refused with
    | false => exact (call_outcome s hc).reports
    | true =>
      have herr : s.uvError = uvEBADF := hok hc
      rw [call_refused s hc]
      refine ⟨fun ret hret hneg => ?_, fun _ hpos => absurd (hpos uvEBADF rfl) (by decide)⟩
      obtain rfl := Option.some.inj hret
      exact ⟨herr, toBool_eq_false (herr ▸ hneg)⟩
  | complete status =>
    simp only [Request.step, Option.ite_none_right_eq_some, Option.some.injEq] at h
    obtain ⟨_, rfl⟩ := h
    exact ⟨nofun, nofun⟩

theorem not_reports (hok : ¬ s.FindsError e) (h : s.step e = some t) : ¬ t.Reports := by
  intro ht
  cases e with
  | call c =>
    simp only [Request.step, Option.ite_none_left_eq_some, Option.some.injEq] at h
    obtain ⟨_, rfl⟩ := h
    refine hok fun hc => ?_
    have hfailed := ht.failed uvEBADF
    rw [call_refused s hc] at hfailed
    exact (hfailed rfl (by decide)).1
  | _ => exact hok trivial

end Request

/-- In every run of a request of any class each failed call is visible in the status, and
no error shows while an accepted run is under way, exactly when `fs::sendfile` is never
refused its output before the status is set, unless the same error is already there. -/
theorem failed_run_visible_iff (es : List RequestEvent) :
    (∀ s ∈ visited Request.step Request.init es, s.Reports) ↔
      ∀ p ∈ taken Request.step Request.init es, p.1.FindsError p.2 :=
  visited_iff_guarded (fun _ hs => hs) (fun _ _ _ hs hok h => hs.step hok h)
    (fun _ _ _ _ hok h => Request.not_reports hok h) es _ Request.init_reports

def sentNowhere : List RequestEvent := [.call (.run .fsSendfile (-1) 0)]

theorem failed_run_hidden : ¬ ∀ es : List RequestEvent,
    ∀ s ∈ visited Request.step Request.init es, s.Reports := by
  intro h
  have hfailed := (h sentNowhere _ (final_visited _ _)).failed uvEBADF rfl (by decide)
  revert hfailed
  decide

end Uvcc.Requests
