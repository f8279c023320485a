import Uvcc.Counting.Counter
import Uvcc.Machine.Simulation

/-!
# The atomic counter

`ref_count::inc` is a loop of a test and a `compare_exchange_weak` over a value that
may be out of date; `ref_count::dec` is one `fetch_sub`. Threads take their atomic
steps in any order. To every thread the loop looks like the increment of a `Counter`
in one step.
-/
namespace Uvcc.Counting
open Machine

/-- Where a thread is in `inc()`, with its local `c`. -/
inductive Stage where
  | idle
  | testing (c : ℤ)
  | exchanging (c : ℤ)
  deriving DecidableEq, Repr

/-- The owners are listed once for each reference they have; the rest records what
the calls have returned, and how often a thread's `inc()` has thrown. -/
structure RefCount where
  count : ℤ
  stage : ℕ → Stage
  owners : Multiset ℕ
  incReturned : List ℤ
  decReturned : List ℤ
  thrown : ℕ → ℕ

/-- The next step of a thread in `inc()`, which starts a call if there is none, or
a whole `dec()`. -/
inductive AtomicStep where
  | inc (u : ℕ) (spurious : Bool)
  | dec (u : ℕ)
  deriving DecidableEq, Repr

/-- How far a thread is from throwing, when the count is zero. -/
def Stage.rank : Stage → ℕ
  | .idle => 2
  | .testing c => if c = 0 then 1 else 3
  | .exchanging _ => 2

theorem Stage.rank_pos (g : Stage) : 1 ≤ g.rank := by
  cases g with
  | idle => decide
  | testing c =>
    rw [rank]
    split_ifs <;> decide
  | exchanging c => exact one_le_two

theorem Stage.rank_le (g : Stage) : g.rank ≤ 3 := by
  cases g with
  | idle => decide
  | testing c =>
    rw [rank]
    split_ifs <;> decide
  | exchanging c => exact Nat.le_succ 2

def AtomicStep.incOf (u : ℕ) : AtomicStep → Bool
  | .inc v _ => decide (v = u)
  | .dec _ => false

namespace RefCount

def init (u : ℕ) : RefCount := ⟨1, fun _ => .idle, {u}, [], [], fun _ => 0⟩

def setStage (s : RefCount) (u : ℕ) (g : Stage) : RefCount :=
  { s with stage := Function.update s.stage u g }

def throwIn (s : RefCount) (u : ℕ) : RefCount :=
  { s.setStage u .idle with thrown := Function.update s.thrown u (s.thrown u + 1) }

def exchange (s : RefCount) (u : ℕ) (c : ℤ) : RefCount :=
  { s.setStage u .idle with
    count := c + 1
    owners := u ::ₘ s.owners
    incReturned := s.incReturned ++ [c + 1] }

/-- One atomic step of `inc()`; a failed exchange loads the value anew. -/
def incStep (s : RefCount) (u : ℕ) (spurious : Bool) : RefCount :=
  match s.stage u with
  | .idle => s.setStage u (.testing s.count)
  | .testing c => if c = 0 then s.throwIn u else s.setStage u (.exchanging c)
  | .exchanging c =>
    if s.count = c ∧ spurious = false then s.exchange u c else s.setStage u (.testing s.count)

def dec (s : RefCount) (u : ℕ) : RefCount :=
  { s with
    count := s.count - 1
    owners := s.owners.erase u
    decReturned := s.decReturned ++ [s.count - 1] }

def step (s : RefCount) : AtomicStep → Option RefCount
  | .inc u spurious => some (s.incStep u spurious)
  | .dec u => if s.stage u = .idle ∧ u ∈ s.owners then some (s.dec u) else none

/-! ## The invariant -/

/-- The value is what the completed calls say and the number of references; one
`dec()` has returned zero when it is zero. Whoever has read a zero knows the final
value, and no zero passes the test. -/
structure Sound (s : RefCount) : Prop where
  value : s.count = 1 + s.incReturned.length - s.decReturned.length
  owners : s.count = s.owners.card
  zero : s.decReturned.count 0 = if s.count = 0 then 1 else 0
  read : ∀ u, s.stage u = .testing 0 → s.count = 0
  tested : ∀ u, s.stage u ≠ .exchanging 0

variable {s t : RefCount} {u : ℕ}

theorem sound_init (u : ℕ) : (init u).Sound where
  value := rfl
  owners := by simp [init]
  zero := rfl
  read v hv := by simp [init] at hv
  tested v := by simp [init]

@[simp] theorem setStage_stage_self (s : RefCount) (u : ℕ) (g : Stage) : (s.setStage u g).stage u = g := by
  simp [setStage]

@[simp] theorem setStage_stage_of_ne (s : RefCount) {u v : ℕ} (h : v ≠ u) (g : Stage) :
    (s.setStage u g).stage v = s.stage v := by
  simp [setStage, h]

/-- A thread moves on in `inc()` without touching the counter. -/
theorem Sound.setStage (hs : s.Sound) {g : Stage} (hread : g = .testing 0 → s.count = 0)
    (htested : g ≠ .exchanging 0) : (s.setStage u g).Sound where
  value := hs.value
  owners := hs.owners
  zero := hs.zero
  read v hv := by
    by_cases h : v = u
    · subst h
      rw [setStage_stage_self] at hv
      exact hread hv
    · rw [setStage_stage_of_ne s h] at hv
      exact hs.read v hv
  tested v := by
    by_cases h : v = u
    · subst h
      rw [setStage_stage_self]
      exact htested
    · rw [setStage_stage_of_ne s h]
      exact hs.tested v

theorem Sound.throwIn (hs : s.Sound) : (s.throwIn u).Sound := by
  have h := hs.setStage (u := u) (g := .idle) (by simp) (by simp)
  exact ⟨h.value, h.owners, h.zero, h.read, h.tested⟩

/-- Nobody has read a zero as long as the value is not zero. -/
theorem Sound.exchange (hs : s.Sound) (hc : s.count ≠ 0) : (s.exchange u s.count).Sound where
  value := by
    have h := hs.value
    simp only [RefCount.exchange, RefCount.setStage, List.length_append, List.length_singleton]
    push_cast
    omega
  owners := by
    have h := hs.owners
    simp only [RefCount.exchange, RefCount.setStage, Multiset.card_cons]
    push_cast
    omega
  zero := by
    have h := hs.zero
    have ho := hs.owners
    have hn : ¬ s.count + 1 = 0 := by omega
    rw [if_neg hc] at h
    change s.decReturned.count 0 = if s.count + 1 = 0 then 1 else 0
    rw [if_neg hn, h]
  read v hv := by
    have h := (hs.setStage (u := u) (g := .idle) (by simp) (by simp)).read v hv
    exact absurd h hc
  tested := (hs.setStage (by simp) (by simp)).tested

theorem Sound.count_pos (hs : s.Sound) (hu : u ∈ s.owners) : 1 ≤ s.count := by
  have h := hs.owners
  have hpos := Multiset.card_pos_iff_exists_mem.mpr ⟨u, hu⟩
  omega

theorem Sound.dec (hs : s.Sound) (hu : u ∈ s.owners) : (s.dec u).Sound where
  value := by
    have h := hs.value
    simp only [RefCount.dec, List.length_append, List.length_singleton]
    push_cast
    omega
  owners := by
    have h := hs.owners
    have hcard := Multiset.card_erase_add_one hu
    simp only [RefCount.dec]
    omega
  zero := by
    have h := hs.zero
    have hpos := hs.count_pos hu
    rw [if_neg (by omega)] at h
    change (s.decReturned ++ [s.count - 1]).count 0 = if s.count - 1 = 0 then 1 else 0
    rw [List.count_append, h, zero_add]
    by_cases hz : s.count - 1 = 0
    · rw [hz]
      rfl
    · rw [if_neg hz, List.count_singleton, if_neg (by simpa using hz)]
  read v hv := by
    have hpos := hs.count_pos hu
    have hz := hs.read v hv
    omega
  tested := hs.tested

/-! ## What a step of `inc()` does -/

/-- Load, test, exchange: on to the next stage, thrown, or returned. -/
theorem incStep_cases (hs : s.Sound) (u : ℕ) (spurious : Bool) :
    (s.stage u = .idle ∧ s.incStep u spurious = s.setStage u (.testing s.count)) ∨
    (s.stage u = .testing 0 ∧ s.count = 0 ∧ s.incStep u spurious = s.throwIn u) ∨
    (∃ c ≠ 0, s.stage u = .testing c ∧ s.incStep u spurious = s.setStage u (.exchanging c)) ∨
    (∃ c ≠ 0, s.stage u = .exchanging c ∧ s.incStep u spurious = s.setStage u (.testing s.count)) ∨
    (s.count ≠ 0 ∧ s.stage u = .exchanging s.count ∧ s.incStep u spurious = s.exchange u s.count) := by
  unfold incStep
  cases hstage : s.stage u with
  | idle => exact .inl ⟨rfl, rfl⟩
  | testing c =>
    by_cases hc : c = 0
    · subst hc
      exact .inr (.inl ⟨rfl, hs.read u hstage, if_pos rfl⟩)
    · exact .inr (.inr (.inl ⟨c, hc, rfl, if_neg hc⟩))
  | exchanging c =>
    have hc : c ≠ 0 := by
      rintro rfl
      exact hs.tested u hstage
    by_cases hok : s.count = c ∧ spurious = false
    · obtain ⟨rfl, hsp⟩ := hok
      exact .inr (.inr (.inr (.inr ⟨hc, rfl, if_pos ⟨rfl, hsp⟩⟩)))
    · exact .inr (.inr (.inr (.inl ⟨c, hc, rfl, if_neg hok⟩)))

theorem Sound.incStep (hs : s.Sound) (u : ℕ) (spurious : Bool) : (s.incStep u spurious).Sound := by
  have hload : (s.setStage u (.testing s.count)).Sound :=
    hs.setStage (fun h => Stage.testing.inj h) (by simp)
  rcases incStep_cases hs u spurious with ⟨_, h⟩ | ⟨_, _, h⟩ | ⟨c, hc, _, h⟩ | ⟨c, _, _, h⟩ | ⟨hc, _, h⟩
  · rw [h]
    exact hload
  · rw [h]
    exact hs.throwIn
  · rw [h]
    exact hs.setStage (by simp) (by simpa using hc)
  · rw [h]
    exact hload
  · rw [h]
    exact hs.exchange hc

theorem Sound.step {e : AtomicStep} (hs : s.Sound) (h : s.step e = some t) : t.Sound := by
  cases e with
  | inc u spurious =>
    obtain rfl := Option.some.inj h
    exact hs.incStep u spurious
  | dec u =>
    simp only [RefCount.step, Option.ite_none_right_eq_some, Option.some.injEq] at h
    obtain ⟨⟨_, hu⟩, rfl⟩ := h
    exact hs.dec hu

/-- The last reference goes with the `dec()` that returns zero. -/
theorem Sound.dec_returned (hs : s.Sound) (hu : u ∈ s.owners) :
    ∃ r, (s.dec u).decReturned = s.decReturned ++ [r] ∧ (r = 0 ↔ (s.dec u).owners = 0) := by
  refine ⟨s.count - 1, rfl, ?_⟩
  have h : s.count - 1 = (s.dec u).owners.card := (hs.dec hu).owners
  rw [h, Nat.cast_eq_zero, Multiset.card_eq_zero]

/-! ## After the count has become zero -/

theorem rank_setStage {s : RefCount} {u : ℕ} {g : Stage} (hg : g.rank + 1 ≤ (s.stage u).rank) (v : ℕ) :
    (if u = v then 1 else 0) + ((s.setStage u g).stage v).rank ≤ (s.stage v).rank := by
  by_cases h : u = v
  · subst h
    rw [setStage_stage_self, if_pos rfl]
    omega
  · rw [setStage_stage_of_ne s (Ne.symm h), if_neg h, zero_add]

/-- A step of `inc()` brings its thread nearer to the throw, or is the throw. -/
theorem incStep_zero (hs : s.Sound) (hz : s.count = 0) (u : ℕ) (spurious : Bool) (v : ℕ) :
    (s.incStep u spurious).count = 0 ∧ (s.incStep u spurious).incReturned = s.incReturned ∧
    (if u = v then 1 else 0) + ((s.incStep u spurious).stage v).rank + 3 * s.thrown v ≤
      (s.stage v).rank + 3 * (s.incStep u spurious).thrown v := by
  rcases incStep_cases hs u spurious with ⟨hg, h⟩ | ⟨hg, _, h⟩ | ⟨c, hc, hg, h⟩ | ⟨c, hc, hg, h⟩ | ⟨hc, _, _⟩
  · rw [h]
    have hr := rank_setStage (s := s) (u := u) (g := .testing s.count) (by rw [hg, hz]; exact le_rfl) v
    exact ⟨hz, rfl, Nat.add_le_add_right hr _⟩
  · rw [h]
    refine ⟨hz, rfl, ?_⟩
    by_cases hv : v = u
    · subst hv
      simp only [throwIn, setStage_stage_self, Function.update_self, if_true, hg, Stage.rank]
      omega
    · have hv' : ¬ u = v := fun he => hv he.symm
      simp [throwIn, hv, hv']
  · rw [h]
    have hr := rank_setStage (s := s) (u := u) (g := .exchanging c)
      (by rw [hg, Stage.rank, Stage.rank, if_neg hc]) v
    exact ⟨hz, rfl, Nat.add_le_add_right hr _⟩
  · rw [h]
    have hr := rank_setStage (s := s) (u := u) (g := .testing s.count) (by rw [hg, hz]; exact le_rfl) v
    exact ⟨hz, rfl, Nat.add_le_add_right hr _⟩
  · exact absurd hz hc

/-- Nobody has a reference to give up any more. -/
theorem step_zero {e : AtomicStep} (hs : s.Sound) (hz : s.count = 0) (h : s.step e = some t) (v : ℕ) :
    t.count = 0 ∧ t.incReturned = s.incReturned ∧
    (if e.incOf v then 1 else 0) + (t.stage v).rank + 3 * s.thrown v ≤
      (s.stage v).rank + 3 * t.thrown v := by
  cases e with
  | inc u spurious =>
    obtain rfl := Option.some.inj h
    simpa only [AtomicStep.incOf, decide_eq_true_eq] using incStep_zero hs hz u spurious v
  | dec u =>
    simp only [RefCount.step, Option.ite_none_right_eq_some] at h
    have hpos := hs.count_pos h.1.2
    omega

/-- In a run that begins with the value zero nothing is returned any more, and the
steps that a thread takes in `inc()` are paid for by its throws. -/
theorem run_zero (v : ℕ) (es : List AtomicStep) : ∀ s : RefCount, s.Sound → s.count = 0 →
    (∀ t ∈ visited step s es, t.count = 0 ∧ t.incReturned = s.incReturned) ∧
    (taken step s es).countP (fun p => p.2.incOf v) + ((final step s es).stage v).rank +
      3 * s.thrown v ≤ (s.stage v).rank + 3 * (final step s es).thrown v := by
  induction es with
  | nil =>
    intro s _ hz
    simp [visited, taken, final, hz]
  | cons e es ih =>
    intro s hs hz
    cases he : s.step e with
    | none =>
      rw [visited_none he, taken_none he, final_none he]
      simp [hz]
    | some t =>
      obtain ⟨htz, hret, hrank⟩ := step_zero hs hz he v
      obtain ⟨hall, hsum⟩ := ih t (hs.step he) htz
      rw [visited_some he, taken_some he, final_some he, List.countP_cons]
      constructor
      · intro w hw
        rcases List.mem_cons.mp hw with rfl | hw
        · exact ⟨hz, rfl⟩
        · obtain ⟨hwz, hwret⟩ := hall w hw
          exact ⟨hwz, hwret.trans hret⟩
      · dsimp only
        omega

/-- From here on the value stays zero, no `inc()` returns, and three steps of a thread
in `inc()` include a throw. -/
def Over (s : RefCount) : Prop := ∀ es : List AtomicStep,
  (∀ t ∈ visited step s es, t.count = 0 ∧ t.incReturned = s.incReturned) ∧
    ∀ v, 3 ≤ (taken step s es).countP (fun p => p.2.incOf v) →
      s.thrown v < (final step s es).thrown v

theorem Sound.over (hs : s.Sound) (hz : s.count = 0) : s.Over := by
  intro es
  refine ⟨(run_zero 0 es s hs hz).1, fun v hv => ?_⟩
  have hpaid := (run_zero v es s hs hz).2
  have hfrom := (s.stage v).rank_le
  have hto := ((final RefCount.step s es).stage v).rank_pos
  omega

/-! ## The counter that all this amounts to -/

structure Shows (s : RefCount) (c : Counter) : Prop where
  refs : c.refs = s.count
  destroyed : c.destroyed = decide (s.count = 0)
  fault : c.fault = true ↔ ∃ u, s.thrown u ≠ 0

/-- What a step does to the `Counter`: `inc()` takes effect when it exchanges or
throws, `dec()` at once. -/
def effect (s : RefCount) : AtomicStep → Counter → Counter
  | .dec _, c => c.dec
  | .inc u spurious, c => match s.stage u with
    | .idle => c
    | .testing v => if v = 0 then c.inc else c
    | .exchanging v => if s.count = v ∧ spurious = false then c.inc else c

theorem Shows.throwIn {c : Counter} (hc : s.Shows c) (hz : s.count = 0) : (s.throwIn u).Shows c.inc := by
  have hi : c.inc = { c with fault := true } := by rw [Counter.inc, if_pos (hc.refs.trans hz)]
  rw [hi]
  refine ⟨hc.refs, hc.destroyed, ⟨fun _ => ⟨u, ?_⟩, fun _ => rfl⟩⟩
  simp [RefCount.throwIn]

theorem Shows.exchange {c : Counter} (hc : s.Shows c) (hs : s.Sound) (hn : s.count ≠ 0) :
    (s.exchange u s.count).Shows c.inc := by
  have ho := hs.owners
  have hi : c.inc = { c with refs := c.refs + 1 } := by
    rw [Counter.inc, if_neg (by rw [hc.refs]; exact hn)]
  rw [hi]
  refine ⟨congrArg (· + 1) hc.refs, ?_, hc.fault⟩
  have hd := hc.destroyed
  rw [decide_eq_false hn] at hd
  refine hd.trans (Eq.symm (decide_eq_false ?_))
  change ¬ s.count + 1 = 0
  omega

theorem Shows.dec {c : Counter} (hc : s.Shows c) (hs : s.Sound) (hu : u ∈ s.owners) :
    (s.dec u).Shows c.dec := by
  have hpos := hs.count_pos hu
  have hd := hc.destroyed
  rw [decide_eq_false (by omega)] at hd
  refine ⟨congrArg (· - 1) hc.refs, ?_, hc.fault⟩
  change (c.destroyed || decide (c.refs - 1 = 0)) = decide (s.count - 1 = 0)
  rw [hd, Bool.false_or, hc.refs]

/-- The loop of `inc()` increments a `Counter` in one step, as far as anybody sees. -/
theorem step_effect {e : AtomicStep} {c : Counter} (hs : s.Sound) (hc : s.Shows c)
    (h : s.step e = some t) : t.Shows (s.effect e c) := by
  cases e with
  | dec u =>
    simp only [RefCount.step, Option.ite_none_right_eq_some, Option.some.injEq] at h
    obtain ⟨⟨_, hu⟩, rfl⟩ := h
    exact hc.dec hs hu
  | inc u spurious =>
    obtain rfl := Option.some.inj h
    have hsame : ∀ g, (s.setStage u g).Shows c := fun g => ⟨hc.refs, hc.destroyed, hc.fault⟩
    cases hstage : s.stage u with
    | idle =>
      simp only [effect, RefCount.incStep, hstage]
      exact hsame _
    | testing v =>
      simp only [effect, RefCount.incStep, hstage]
      split_ifs with hv
      · subst hv
        exact hc.throwIn (hs.read u hstage)
      · exact hsame _
    | exchanging v =>
      have hv : v ≠ 0 := by
        rintro rfl
        exact hs.tested u hstage
      simp only [effect, RefCount.incStep, hstage]
      split_ifs with hok
      · obtain ⟨rfl, _⟩ := hok
        exact hc.exchange hs hv
      · exact hsame _

end RefCount

/-- In every interleaving the value counts the references, the `dec()` of the last one
and no other returns zero, and after that every `inc()` throws. -/
theorem ref_count_released_once (u : ℕ) (es : List AtomicStep) :
    (∀ s ∈ visited RefCount.step (RefCount.init u) es,
      s.count = 1 + s.incReturned.length - s.decReturned.length ∧
      s.decReturned.count 0 = (if s.count = 0 then 1 else 0) ∧ (s.count = 0 → s.Over)) ∧
    ∀ p ∈ taken RefCount.step (RefCount.init u) es, ∀ v, p.2 = .dec v →
      ∃ r, (p.1.dec v).decReturned = p.1.decReturned ++ [r] ∧ (r = 0 ↔ (p.1.dec v).owners = 0) := by
  have hall : ∀ s ∈ visited RefCount.step (RefCount.init u) es, s.Sound :=
    visited_invariant (fun s e t hs h => hs.step h) es _ (RefCount.sound_init u)
  constructor
  · intro s hs
    exact ⟨(hall s hs).value, (hall s hs).zero, (hall s hs).over⟩
  · intro p hp v hv
    have hs := hall p.1 (taken_visited es _ p hp)
    obtain ⟨t, ht⟩ := taken_enabled es _ p hp
    rw [hv] at ht
    simp only [RefCount.step, Option.ite_none_right_eq_some] at ht
    exact hs.dec_returned ht.1.2

/-! ## The operations in one order -/

inductive CountOp where
  | inc
  | dec
  deriving DecidableEq, Repr

/-- A whole operation with what it returns; `inc()` of a zero count throws. -/
def Counter.apply (c : Counter) : CountOp → Counter × Option ℤ
  | .inc => (c.inc, if c.refs = 0 then none else some (c.refs + 1))
  | .dec => (c.dec, some (c.refs - 1))

def Counter.react (_ : Counter) : Empty → Option Counter := nofun

def Stage.operation : Stage → Option (CountOp ⊕ Option ℤ)
  | .idle => none
  | .testing _ => some (.inl .inc)
  | .exchanging _ => some (.inl .inc)

namespace RefCount

def shown (s : RefCount) : AtomicStep → List (Interaction ℕ CountOp Empty (Option ℤ))
  | .dec u => [.called u .dec, .effect u, .returned u (some (s.count - 1))]
  | .inc u spurious => match s.stage u with
    | .idle => [.called u .inc]
    | .testing c => if c = 0 then [.effect u, .returned u none] else []
    | .exchanging c =>
      if s.count = c ∧ spurious = false then [.effect u, .returned u (some (c + 1))] else []

/-- A thread in the loop of `inc()` has called it and nothing more. -/
structure Follows (s : RefCount) (a : Atomic Counter ℕ CountOp (Option ℤ)) : Prop where
  sound : s.Sound
  shows : s.Shows a.object
  pending : ∀ u, a.pending u = (s.stage u).operation

variable {s t : RefCount} {a : Atomic Counter ℕ CountOp (Option ℤ)} {u : ℕ}

theorem init_follows (u : ℕ) : (init u).Follows (.init (.of 1)) where
  sound := sound_init u
  shows := ⟨rfl, rfl, by simp [init, Atomic.init, Counter.of]⟩
  pending _ := rfl

theorem setStage_operation {p : Option (CountOp ⊕ Option ℤ)} (h : s.Follows a) (g : Stage)
    (hp : p = g.operation) (v : ℕ) :
    (a.setPending u p).pending v = ((s.setStage u g).stage v).operation := by
  by_cases hv : v = u
  · subst hv
    rw [Atomic.setPending_self, setStage_stage_self, hp]
  · rw [Atomic.setPending_of_ne hv, setStage_stage_of_ne s hv, h.pending v]

/-- A step inside the loop of `inc()` shows nothing. -/
theorem Follows.silent (h : s.Follows a) {e : AtomicStep} (he : s.step e = some t)
    (hshown : s.shown e = []) (hobject : s.effect e a.object = a.object)
    (hstage : ∀ v, (t.stage v).operation = (s.stage v).operation) :
    ∃ b, (s.shown e).foldlM (Atomic.step Counter.apply Counter.react) a = some b ∧ t.Follows b := by
  rw [hshown]
  refine ⟨a, rfl, h.sound.step he, ?_, fun v => (h.pending v).trans (hstage v).symm⟩
  exact hobject ▸ step_effect h.sound h.shows he

/-- `inc()` takes effect and returns in the step that exchanges or throws. -/
theorem Follows.complete (h : s.Follows a) {e : AtomicStep} (he : s.step e = some t) {r : Option ℤ}
    (hpending : a.pending u = some (.inl .inc)) (hshown : s.shown e = [.effect u, .returned u r])
    (hr : (a.object.apply .inc).2 = r) (hobject : s.effect e a.object = a.object.inc)
    (hstage : t.stage = (s.setStage u .idle).stage) :
    ∃ b, (s.shown e).foldlM (Atomic.step Counter.apply Counter.react) a = some b ∧ t.Follows b := by
  subst hr
  set r := (a.object.apply .inc).2
  set b : Atomic Counter ℕ CountOp (Option ℤ) :=
    { a with object := a.object.inc }.setPending u (some (.inr r)) with hb
  have heffect : a.step Counter.apply Counter.react (.effect u) = some b := Atomic.step_effect hpending
  have hreturn : b.step Counter.apply Counter.react (.returned u r) = some (b.setPending u none) :=
    Atomic.step_returned (by simp [hb])
  have hshows := step_effect h.sound h.shows he
  rw [hobject] at hshows
  refine ⟨b.setPending u none, ?_, h.sound.step he, hshows, fun v => ?_⟩
  · simp [hshown, heffect, hreturn]
  · have hback : b.setPending u none = { a with object := a.object.inc }.setPending u none := by
      simp [hb, Atomic.setPending]
    rw [hback, hstage]
    exact setStage_operation h .idle rfl v

theorem simulates : Simulates step (Atomic.step Counter.apply Counter.react) shown Follows := by
  intro s e t a h he
  cases e with
  | dec u =>
    have hstep := he
    simp only [step, Option.ite_none_right_eq_some, Option.some.injEq] at hstep
    obtain ⟨⟨hidle, _⟩, rfl⟩ := hstep
    have hp : a.pending u = none := by rw [h.pending u, hidle, Stage.operation]
    have hret : (a.object.apply .dec).2 = some (s.count - 1) := by rw [Counter.apply, h.shows.refs]
    have hwhole : (s.shown (.dec u)).foldlM (Atomic.step Counter.apply Counter.react) a =
        some { a with object := a.object.dec } := by
      rw [shown, ← hret]
      exact Atomic.step_whole hp .dec
    exact ⟨_, hwhole, h.sound.step he, step_effect h.sound h.shows he, h.pending⟩
  | inc u spurious =>
    have hstep := Option.some.inj he
    have hu := h.pending u
    cases hstage : s.stage u with
    | idle =>
      have hp : a.pending u = none := by rw [hu, hstage, Stage.operation]
      have ht : t = s.setStage u (.testing s.count) := by simp [← hstep, incStep, hstage]
      have hcall : a.step Counter.apply Counter.react (.called u .inc) =
          some (a.setPending u (some (.inl .inc))) := Atomic.step_called hp .inc
      have hshows := step_effect h.sound h.shows he
      simp only [effect, hstage] at hshows
      refine ⟨a.setPending u (some (.inl .inc)), ?_, h.sound.step he, hshows, fun v => ?_⟩
      · simp [shown, hstage, hcall]
      · rw [ht]
        exact setStage_operation h (.testing s.count) rfl v
    | testing c =>
      have hp : a.pending u = some (.inl .inc) := by rw [hu, hstage, Stage.operation]
      by_cases hc : c = 0
      · subst hc
        have hz : a.object.refs = 0 := h.shows.refs.trans (h.sound.read u hstage)
        refine h.complete he hp (r := none) ?_ ?_ ?_ ?_
        · simp [shown, hstage]
        · simp [Counter.apply, hz]
        · simp [effect, hstage]
        · simp [← hstep, incStep, hstage, throwIn]
      · refine h.silent he (by simp [shown, hstage, hc]) (by simp [effect, hstage, hc]) fun v => ?_
        have ht : t = s.setStage u (.exchanging c) := by simp [← hstep, incStep, hstage, hc]
        by_cases hv : v = u
        · rw [ht, hv, setStage_stage_self, hstage, Stage.operation, Stage.operation]
        · rw [ht, setStage_stage_of_ne s hv]
    | exchanging c =>
      have hp : a.pending u = some (.inl .inc) := by rw [hu, hstage, Stage.operation]
      by_cases hok : s.count = c ∧ spurious = false
      · have hc : a.object.refs = c := h.shows.refs.trans hok.1
        have hne : c ≠ 0 := fun hz => h.sound.tested u (hz ▸ hstage)
        refine h.complete he hp (r := some (c + 1)) ?_ ?_ ?_ ?_
        · simp [shown, hstage, hok]
        · simp [Counter.apply, hc, hne]
        · simp [effect, hstage, hok]
        · simp [← hstep, incStep, hstage, hok, exchange]
      · refine h.silent he (by simp [shown, hstage, hok]) (by simp [effect, hstage, hok]) fun v => ?_
        have ht : t = s.setStage u (.testing s.count) := by simp [← hstep, incStep, hstage, hok]
        by_cases hv : v = u
        · rw [ht, hv, setStage_stage_self, hstage, Stage.operation, Stage.operation]
        · rw [ht, setStage_stage_of_ne s hv]

end RefCount

/-- Every interleaving of the atomic steps of `inc()` and `dec()` is a run of a `Counter`
on which whole operations follow one another, each between its call and its return and
with the result that it returns. -/
theorem ref_count_linearizable (u : ℕ) (es : List AtomicStep) :
    ∃ a : Atomic Counter ℕ CountOp (Option ℤ),
      (labels RefCount.step RefCount.shown (RefCount.init u) es).foldlM
          (Atomic.step Counter.apply Counter.react) (.init (.of 1)) = some a ∧
        (final RefCount.step (RefCount.init u) es).Shows a.object := by
  obtain ⟨a, hrun, hfollows⟩ := RefCount.simulates.run es _ _ (RefCount.init_follows u)
  exact ⟨a, hrun, hfollows.shows⟩

end Uvcc.Counting
