import Uvcc.Requests.Work

/-!
# Counting on the thread pool

`count_if_multithreaded` cuts a range into sections, has each counted by a work request of
its own, keeps the futures, and adds up their values in the order of the sections while it
waits for them. The sum is an `unsigned int`, and so is the length of a section.
-/
namespace Uvcc.Example
open Machine Requests

variable {α : Type*}

/-- The number of threads of the machine, or one if it is not known. -/
def hardwareConcurrency (threads : ℕ) : ℕ := if threads ≠ 0 then threads else 1

def minimumSectionLength (length : ℕ) : ℕ := min 27 length % 2 ^ 32

def allotedSectionLength (threads length : ℕ) : ℕ :=
  max (minimumSectionLength length) (length / hardwareConcurrency threads) % 2 ^ 32

structure Section where
  first : ℕ
  last : ℕ
  work : Work ℕ

/-- `_begin` is the end of the sections that there are; `held` while the variable of the
last request is there; `sum` has the values of the first `next` of the futures, and
`thrown` records that one of them had none. -/
structure CountIf where
  position : ℕ
  held : Bool
  sections : List Section
  next : ℕ
  sum : BitVec 32
  thrown : Bool

/-- The program runs a section, whose request the queue answers with `ret`, and drops the
variable; it takes the value of a future; threads of the pool and, in the end, the loop
proceed with a request. -/
inductive CountEvent where
  | submit (ret : ℤ)
  | drop
  | get
  | pool (i : ℕ) (e : WorkEvent)
  | loop (i : ℕ) (e : WorkEvent)
  deriving DecidableEq, Repr

def Section.count (p : α → Bool) (xs : List α) (s : Section) : ℕ := (xs.extract s.first s.last).countP p

namespace CountIf

def init : CountIf := ⟨0, false, [], 0, 0, false⟩

/-- The results are reserved for a number of sections, and this divides by their length. -/
def start (threads length : ℕ) : Option CountIf :=
  if allotedSectionLength threads length = 0 then none else some init

def submitted (ret : ℤ) : Work ℕ := ({ (Work.init : Work ℕ) with callback := true }).run ret

def proceed (p : α → Bool) (xs : List α) (c : CountIf) (i : ℕ) (e : WorkEvent) : Option CountIf :=
  match c.sections[i]? with
  | some s => (s.work.step (fun _ => s.count p xs) e).map fun w => { c with sections := c.sections.set i { s with work := w } }
  | none => none

def Submitted (c : CountIf) (length : ℕ) : Prop := length ≤ c.position ∧ c.held = false

instance (c : CountIf) (length : ℕ) : Decidable (c.Submitted length) := by unfold Submitted; infer_instance

def step (p : α → Bool) (xs : List α) (alloted : ℕ) (c : CountIf) : CountEvent → Option CountIf
  | .submit ret =>
    if c.position < xs.length ∧ c.held = false then
      let sectionEnd := if xs.length < c.position + alloted then xs.length else c.position + alloted
      some { c with
        position := sectionEnd
        held := true
        sections := c.sections ++ [⟨c.position, sectionEnd, submitted ret⟩] }
    else none
  | .drop => if c.held then (c.proceed p xs (c.sections.length - 1) .drop).map ({ · with held := false }) else none
  | .get =>
    if c.Submitted xs.length ∧ c.thrown = false then
      match c.sections[c.next]? with
      | some s =>
        match s.work.shared 0 with
        | .ready v => some { c with sum := c.sum + BitVec.ofNat 32 v, next := c.next + 1 }
        | .broken => some { c with thrown := true }
        | .pending => none
      | none => none
    else none
  | .pool i e => if e = .start ∨ e = .finish then c.proceed p xs i e else none
  | .loop i e =>
    if c.next = c.sections.length ∧ (e = .complete ∨ e = .callbackEnd) then c.proceed p xs i e else none

end CountIf

namespace Section
variable {p : α → Bool} {xs : List α} {s : Section} {e : WorkEvent} {w : Work ℕ}

/-- The request of a section, as far as the program and the loop let it come. -/
structure Sound (p : α → Bool) (xs : List α) (s : Section) : Prop where
  exact : s.work.Exact fun _ => s.count p xs
  result : s.work.result = some 0
  stage : s.work.stage ≠ .cancelled
  refused : s.work.stage = .idle → s.work.uvError < 0 → s.work.frame = none

theorem released {u : Work ℕ} (hexact : w.Exact fun _ => s.count p xs) (hw : u.unref = w)
    (hresult : u.result = some 0) (hstage : u.stage ≠ .cancelled)
    (hrefused : u.stage = .idle → u.uvError < 0 → u.frame = none) :
    { s with work := w }.Sound p xs ∧ w.vars = u.vars := by
  obtain ⟨f, hf⟩ := Work.unref_eq u
  rw [hf] at hw
  subst hw
  exact ⟨⟨hexact, hresult, hstage, hrefused⟩, rfl⟩

theorem Sound.drop (h : s.Sound p xs) (hstep : s.work.step (fun _ => s.count p xs) .drop = some w) :
    { s with work := w }.Sound p xs ∧ w.vars = s.work.vars - 1 := by
  have hexact := Work.step_exact h.exact hstep
  simp only [Work.step, Option.ite_none_right_eq_some, Option.some.injEq] at hstep
  obtain ⟨_, hw⟩ := hstep
  exact released hexact hw h.result h.stage h.refused

/-- What the pool and the loop do to the request. -/
theorem Sound.proceed (h : s.Sound p xs) (he : (e = .start ∨ e = .finish) ∨ e = .complete ∨ e = .callbackEnd)
    (hstep : s.work.step (fun _ => s.count p xs) e = some w) :
    { s with work := w }.Sound p xs ∧ w.vars = s.work.vars := by
  have hexact := Work.step_exact h.exact hstep
  rcases he with (rfl | rfl) | rfl | rfl
  · simp only [Work.step, Option.ite_none_right_eq_some, Option.some.injEq] at hstep
    obtain ⟨_, rfl⟩ := hstep
    refine ⟨⟨hexact, h.result, ?_, fun hidle => ?_⟩, rfl⟩
    · intro hstage
      cases hstage
    · cases hidle
  · simp only [Work.step, Option.ite_none_right_eq_some, Option.some.injEq] at hstep
    obtain ⟨_, hw⟩ := hstep
    obtain ⟨f, b, hcb⟩ := Work.workCb_eq (fun _ => s.count p xs) s.work
    rw [hcb] at hw
    subst hw
    refine ⟨⟨hexact, h.result, ?_, fun hidle => ?_⟩, rfl⟩
    · intro hstage
      cases hstage
    · cases hidle
  · simp only [Work.step, Option.ite_none_right_eq_some] at hstep
    obtain ⟨_, hstep⟩ := hstep
    have hw : s.work.afterWorkCb 0 = w := by
      split at hstep
      · exact Option.some.inj hstep
      · rename_i hcancelled
        exact absurd hcancelled h.stage
      · cases hstep
    unfold Work.afterWorkCb at hw
    dsimp only at hw
    split_ifs at hw with hcallback
    · subst hw
      refine ⟨⟨hexact, h.result, ?_, fun _ herror => ?_⟩, rfl⟩
      · intro hstage
        cases hstage
      · exact absurd herror (lt_irrefl 0)
    · apply released hexact hw h.result
      · intro hstage
        cases hstage
      · exact fun _ herror => absurd herror (lt_irrefl 0)
  · simp only [Work.step, Option.map_eq_some_iff] at hstep
    obtain ⟨arg, _, hw⟩ := hstep
    unfold Work.callbackEnd at hw
    dsimp only at hw
    split_ifs at hw
    · obtain ⟨f, hf⟩ := Work.unref_eq { s.work with frame := none }
      rw [hf] at hw
      apply released (u := { s.work with frame := none, count := s.work.count.dec, shared := f }) hexact hw
      · exact h.result
      · exact h.stage
      · exact fun _ _ => rfl
    · apply released (u := { s.work with frame := none }) hexact hw
      · exact h.result
      · exact h.stage
      · exact fun _ _ => rfl

/-- A section that was just run is counted, or will not be. -/
theorem submitted_sound (p : α → Bool) (xs : List α) (first last : ℕ) (ret : ℤ) :
    (⟨first, last, CountIf.submitted ret⟩ : Section).Sound p xs ∧ (CountIf.submitted ret).vars = 1 := by
  have hinit : ({ (Work.init : Work ℕ) with callback := true }).Exact fun _ => (xs.extract first last).countP p :=
    ⟨(Work.init_exact _).toResults.variables rfl 1 none true, (Work.init_exact fun _ => 0).count⟩
  have hexact := hinit.run (.inl Nat.one_pos) rfl ret
  have hw : ∃ u, CountIf.submitted ret = u := ⟨_, rfl⟩
  obtain ⟨u, hu⟩ := hw
  rw [hu]
  unfold CountIf.submitted at hu
  rw [hu] at hexact
  unfold Work.run at hu
  dsimp only at hu
  split_ifs at hu
  · exact released (s := ⟨first, last, u⟩) hexact hu rfl (fun hstage => by cases hstage) fun _ _ => rfl
  · subst hu
    refine ⟨⟨hexact, rfl, fun hstage => ?_, fun hidle => ?_⟩, rfl⟩
    · cases hstage
    · cases hidle

theorem Sound.outcome (h : s.Sound p xs) : s.work.shared 0 = s.work.outcome (s.count p xs) :=
  (h.exact.last 0 h.result).2

theorem Sound.ready (h : s.Sound p xs) {v : ℕ} (hready : s.work.shared 0 = .ready v) : v = s.count p xs := by
  have hv := h.outcome.symm.trans hready
  unfold Work.outcome at hv
  split at hv
  · exact (SharedState.ready.inj hv).symm
  · split_ifs at hv
    exact (SharedState.ready.inj hv).symm
  · cases hv

/-- A future has nothing yet only while the pool has the section. -/
theorem Sound.waits (h : s.Sound p xs) (hvars : s.work.vars = 0) (hpending : s.work.shared 0 = .pending) :
    s.work.stage = .queued ∨ s.work.stage = .running := by
  have hv := h.outcome.symm.trans hpending
  cases hstage : s.work.stage with
  | queued => exact .inl rfl
  | running => exact .inr rfl
  | cancelled => exact absurd hstage h.stage
  | executed =>
    rw [Work.outcome, hstage] at hv
    cases hv
  | idle =>
    simp only [Work.outcome, hstage] at hv
    split_ifs at hv with herror hgone
    have hrefs : s.work.refs = 0 := by
      simp only [Work.refs, hvars, h.refused hstage (not_le.mp herror), hstage, Option.elim_none, if_true]
    have hcount := h.exact.count.destroyed
    rw [hrefs] at hcount
    exact absurd (hcount.trans (decide_eq_true rfl)) hgone

end Section

namespace CountIf
variable {p : α → Bool} {xs : List α} {alloted : ℕ} {c d : CountIf} {e : CountEvent}

/-- The sections are those of what is behind `_begin`, each with its request; the sum has
the counts of the first ones. -/
structure Inv (p : α → Bool) (xs : List α) (alloted : ℕ) (c : CountIf) : Prop where
  sound : ∀ s ∈ c.sections, s.Sound p xs
  vars : ∀ i s, c.sections[i]? = some s → s.work.vars = if i + 1 = c.sections.length ∧ c.held = true then 1 else 0
  position : c.position = min xs.length (c.sections.length * alloted)
  counted : (c.sections.map (Section.count p xs)).sum = (xs.take c.position).countP p
  room : c.sections.length ≤ xs.length / alloted + 1
  next : c.next ≤ c.sections.length
  sum : c.sum = BitVec.ofNat 32 ((c.sections.map (Section.count p xs)).take c.next).sum

theorem init_inv (p : α → Bool) (xs : List α) (alloted : ℕ) : init.Inv p xs alloted where
  sound _ hs := absurd hs List.not_mem_nil
  vars i s hs := by simp [init] at hs
  position := by simp [init]
  counted := rfl
  room := Nat.zero_le _
  next := le_rfl
  sum := rfl

theorem proceed_some {i : ℕ} {e : WorkEvent} (h : c.proceed p xs i e = some d) :
    ∃ s w, c.sections[i]? = some s ∧ s.work.step (fun _ => s.count p xs) e = some w ∧
      d = { c with sections := c.sections.set i { s with work := w } } := by
  unfold proceed at h
  split at h
  · rename_i s hs
    obtain ⟨w, hw, rfl⟩ := Option.map_eq_some_iff.mp h
    exact ⟨s, w, hs, hw, rfl⟩
  · cases h

/-- The request of a section does not change what is counted in it. -/
theorem map_count_set {l : List Section} {i : ℕ} {s : Section} (hs : l[i]? = some s) (w : Work ℕ) :
    (l.set i { s with work := w }).map (Section.count p xs) = l.map (Section.count p xs) := by
  apply List.ext_getElem?
  intro j
  rw [List.getElem?_map, List.getElem?_map, List.getElem?_set]
  split_ifs with hij hlt
  · subst hij
    rw [hs]
    rfl
  · subst hij
    rw [List.getElem?_eq_none (not_lt.mp hlt)]
  · rfl

/-- A section goes on to `w`; if it is the last one, its variable may go. -/
theorem Inv.set (h : c.Inv p xs alloted) {i : ℕ} {s : Section} {w : Work ℕ} {b : Bool} (hs : c.sections[i]? = some s)
    (hw : { s with work := w }.Sound p xs)
    (hvars : w.vars = if i + 1 = c.sections.length ∧ b = true then 1 else 0)
    (hb : ∀ j, j ≠ i → j + 1 = c.sections.length → b = c.held) :
    { c with sections := c.sections.set i { s with work := w }, held := b }.Inv p xs alloted where
  sound u hu := by
    rcases List.mem_or_eq_of_mem_set hu with hu | rfl
    · exact h.sound u hu
    · exact hw
  vars j u hu := by
    dsimp only at hu ⊢
    rw [List.length_set]
    rw [List.getElem?_set] at hu
    split_ifs at hu with hij hlt
    · obtain rfl := Option.some.inj hu
      rw [← hij]
      exact hvars
    · rw [h.vars j u hu]
      by_cases hlast : j + 1 = c.sections.length
      · rw [hb j (Ne.symm hij) hlast]
      · rw [if_neg fun hc => hlast hc.1, if_neg fun hc => hlast hc.1]
  position := by
    dsimp only
    rw [List.length_set]
    exact h.position
  counted := by
    dsimp only
    rw [map_count_set hs]
    exact h.counted
  room := by
    dsimp only
    rw [List.length_set]
    exact h.room
  next := by
    dsimp only
    rw [List.length_set]
    exact h.next
  sum := by
    dsimp only
    rw [map_count_set hs]
    exact h.sum

theorem Inv.proceed (h : c.Inv p xs alloted) {i : ℕ} {e : WorkEvent}
    (he : (e = .start ∨ e = .finish) ∨ e = .complete ∨ e = .callbackEnd) (hstep : c.proceed p xs i e = some d) :
    d.Inv p xs alloted := by
  obtain ⟨s, w, hs, hw, rfl⟩ := proceed_some hstep
  obtain ⟨hsound, hvars⟩ := (h.sound s (List.mem_of_getElem? hs)).proceed he hw
  exact h.set hs hsound (hvars.trans (h.vars i s hs)) fun _ _ _ => rfl

theorem Inv.drop (h : c.Inv p xs alloted) (hheld : c.held = true)
    (hstep : c.proceed p xs (c.sections.length - 1) .drop = some d) : ({ d with held := false } : CountIf).Inv p xs alloted := by
  obtain ⟨s, w, hs, hw, rfl⟩ := proceed_some hstep
  have hlt := (List.getElem?_eq_some_iff.mp hs).1
  obtain ⟨hsound, hvars⟩ := (h.sound s (List.mem_of_getElem? hs)).drop hw
  have hone := h.vars _ s hs
  rw [if_pos ⟨by omega, hheld⟩] at hone
  apply h.set hs hsound
  · rw [hvars, hone, if_neg fun hc => Bool.false_ne_true hc.2]
  · intro j hj hlast
    omega

theorem Inv.submit (h : c.Inv p xs alloted) (hpos : 0 < alloted) (hlt : c.position < xs.length) (hheld : c.held = false)
    (ret : ℤ) :
    let sectionEnd := if xs.length < c.position + alloted then xs.length else c.position + alloted
    ({ c with
      position := sectionEnd
      held := true
      sections := c.sections ++ [⟨c.position, sectionEnd, submitted ret⟩] } : CountIf).Inv p xs alloted := by
  intro sectionEnd
  have hend : sectionEnd = min xs.length (c.position + alloted) := by
    dsimp only [sectionEnd]
    split_ifs <;> omega
  have hposition : c.position = c.sections.length * alloted := by
    have hp := h.position
    omega
  obtain ⟨hsound, hvars⟩ := Section.submitted_sound p xs c.position sectionEnd ret
  refine ⟨fun s hs => ?_, fun i s hs => ?_, ?_, ?_, ?_, ?_, ?_⟩
  · rcases List.mem_append.mp hs with hs | hs
    · exact h.sound s hs
    · rw [List.mem_singleton.mp hs]
      exact hsound
  · dsimp only at hs ⊢
    rw [List.length_append, List.length_singleton]
    rcases Nat.lt_or_ge i c.sections.length with hi | hi
    · rw [List.getElem?_append_left hi] at hs
      rw [h.vars i s hs, if_neg fun hc => by rw [hheld] at hc; exact Bool.false_ne_true hc.2, if_neg (by omega)]
    · rw [List.getElem?_append_right hi] at hs
      obtain ⟨hi', rfl⟩ := List.getElem?_eq_some_iff.mp hs
      rw [List.length_singleton] at hi'
      rw [if_pos ⟨by omega, rfl⟩]
      simpa using hvars
  · dsimp only
    rw [hend, hposition, List.length_append, List.length_singleton, Nat.add_mul, Nat.one_mul]
  · dsimp only
    rw [List.map_append, List.sum_append, h.counted]
    have hle : c.position ≤ sectionEnd := by omega
    have htake : xs.take sectionEnd = xs.take c.position ++ xs.extract c.position sectionEnd := by
      rw [List.extract_eq_take_drop, ← List.take_add, Nat.add_sub_cancel' hle]
    rw [htake, List.countP_append]
    simp [Section.count]
  · dsimp only
    rw [List.length_append, List.length_singleton]
    have hdiv : c.sections.length ≤ xs.length / alloted := by
      rw [Nat.le_div_iff_mul_le hpos]
      omega
    omega
  · dsimp only
    rw [List.length_append]
    exact h.next.trans (Nat.le_add_right _ _)
  · dsimp only
    rw [List.map_append, List.take_append_of_le_length]
    · exact h.sum
    · rw [List.length_map]
      exact h.next

theorem Inv.get (h : c.Inv p xs alloted) {s : Section} (hs : c.sections[c.next]? = some s) {v : ℕ}
    (hv : v = s.count p xs) :
    ({ c with sum := c.sum + BitVec.ofNat 32 v, next := c.next + 1 } : CountIf).Inv p xs alloted where
  sound := h.sound
  vars := h.vars
  position := h.position
  counted := h.counted
  room := h.room
  next := (List.getElem?_eq_some_iff.mp hs).1
  sum := by
    have hcount : (c.sections.map (Section.count p xs))[c.next]? = some v := by
      rw [List.getElem?_map, hs, hv]
      rfl
    dsimp only
    rw [List.take_add_one, hcount, Option.toList_some, List.sum_append, List.sum_singleton, BitVec.ofNat_add, h.sum]

theorem step_inv (hpos : 0 < alloted) (h : c.Inv p xs alloted) (hstep : c.step p xs alloted e = some d) :
    d.Inv p xs alloted := by
  cases e with
  | submit ret =>
    simp only [step, Option.ite_none_right_eq_some, Option.some.injEq] at hstep
    obtain ⟨⟨hlt, hheld⟩, rfl⟩ := hstep
    exact h.submit hpos hlt hheld ret
  | drop =>
    simp only [step, Option.ite_none_right_eq_some, Option.map_eq_some_iff] at hstep
    obtain ⟨hheld, c', hproceed, rfl⟩ := hstep
    exact h.drop hheld hproceed
  | get =>
    simp only [step, Option.ite_none_right_eq_some] at hstep
    obtain ⟨_, hstep⟩ := hstep
    split at hstep
    · rename_i s hs
      split at hstep
      · rename_i v hready
        obtain rfl := Option.some.inj hstep
        exact h.get hs ((h.sound s (List.mem_of_getElem? hs)).ready hready)
      · obtain rfl := Option.some.inj hstep
        exact ⟨h.sound, h.vars, h.position, h.counted, h.room, h.next, h.sum⟩
      · cases hstep
    · cases hstep
  | pool i e =>
    simp only [step, Option.ite_none_right_eq_some] at hstep
    exact h.proceed (.inl hstep.1) hstep.2
  | loop i e =>
    simp only [step, Option.ite_none_right_eq_some] at hstep
    exact h.proceed (.inr hstep.1.2) hstep.2

/-- The program waits for a section that the pool has. -/
theorem Inv.waits (h : c.Inv p xs alloted) (hall : c.Submitted xs.length) (hthrown : c.thrown = false)
    (hnext : c.next < c.sections.length) (hget : c.step p xs alloted .get = none) :
    ∃ s, c.sections[c.next]? = some s ∧ (s.work.stage = .queued ∨ s.work.stage = .running) := by
  have hs := List.getElem?_eq_getElem hnext
  have hsound := h.sound _ (List.getElem_mem hnext)
  have hvars := h.vars _ _ hs
  rw [if_neg fun hc => by rw [hall.2] at hc; exact Bool.false_ne_true hc.2] at hvars
  refine ⟨_, hs, hsound.waits hvars ?_⟩
  simp only [step, if_pos (And.intro hall hthrown), hs] at hget
  split at hget
  · cases hget
  · cases hget
  · assumption

end CountIf

theorem minimumSectionLength_eq (length : ℕ) : minimumSectionLength length = min 27 length := by
  apply Nat.mod_eq_of_lt
  omega

/-- The length of a section is zero for nothing, and where the quotient does not fit. -/
theorem allotedSectionLength_eq_zero (threads length : ℕ) :
    allotedSectionLength threads length = 0 ↔
      length = 0 ∨ 2 ^ 32 ≤ length / hardwareConcurrency threads ∧ 2 ^ 32 ∣ length / hardwareConcurrency threads := by
  have hle : length / hardwareConcurrency threads ≤ length := Nat.div_le_self _ _
  unfold allotedSectionLength
  rw [minimumSectionLength_eq]
  omega

/-- `count_if_multithreaded` divides by zero on an empty range and on one whose share for a
thread is a multiple of `2 ^ 32`. Otherwise, in whatever order the pool executes the
sections, there are no more of them than was reserved for; when all values are taken, their
sum is the count, modulo `2 ^ 32`; and until then the program waits only for what the pool
has, unless a future had no value. -/
theorem count_if_multithreaded (p : α → Bool) (xs : List α) (threads : ℕ) :
    (CountIf.start threads xs.length = none ↔ xs = [] ∨
      2 ^ 32 ≤ xs.length / hardwareConcurrency threads ∧ 2 ^ 32 ∣ xs.length / hardwareConcurrency threads) ∧
    ∀ c₀, CountIf.start threads xs.length = some c₀ → ∀ es : List CountEvent,
      let alloted := allotedSectionLength threads xs.length
      ∀ c ∈ visited (CountIf.step p xs alloted) c₀ es,
        c.sections.length ≤ xs.length / alloted + 1 ∧
        (c.Submitted xs.length → c.next = c.sections.length → c.sum = BitVec.ofNat 32 (xs.countP p)) ∧
        (c.Submitted xs.length → c.next < c.sections.length → c.thrown = false →
          c.step p xs alloted .get = none →
            ∃ s, c.sections[c.next]? = some s ∧ (s.work.stage = .queued ∨ s.work.stage = .running)) := by
  constructor
  · rw [CountIf.start, ← List.length_eq_zero_iff, ← allotedSectionLength_eq_zero]
    split_ifs with hzero
    · exact iff_of_true rfl hzero
    · exact iff_of_false id hzero
  · intro c₀ hstart es alloted c hc
    unfold CountIf.start at hstart
    split_ifs at hstart with hzero
    obtain rfl := Option.some.inj hstart
    have hpos : 0 < alloted := Nat.pos_of_ne_zero hzero
    have h : c.Inv p xs alloted :=
      visited_invariant (fun _ _ _ h hstep => CountIf.step_inv hpos h hstep) es _ (CountIf.init_inv p xs alloted) c hc
    refine ⟨h.room, fun hall hnext => ?_, fun hall hnext hthrown hget => h.waits hall hthrown hnext hget⟩
    rw [h.sum, hnext, List.take_of_length_le (List.length_map _).le, h.counted, List.take_of_length_le hall.1]

def thirtyValues : List CountEvent :=
  [.submit 0, .drop, .submit 0, .drop, .pool 1 .start, .pool 1 .finish, .pool 0 .start, .pool 0 .finish, .get, .get]

theorem thirty_values_counted :
    let even : ℕ → Bool := fun n => n % 2 == 0
    let c := final (CountIf.step even (List.range 30) 27) CountIf.init thirtyValues
    c.sections.length = 2 ∧ c.sum = BitVec.ofNat 32 ((List.range 30).countP even) := by
  intro even c
  refine ⟨by decide, ?_⟩
  exact ((count_if_multithreaded even (List.range 30) 2).2 CountIf.init rfl thirtyValues c
    (final_visited thirtyValues _)).2.1 (by decide) (by decide)

end Uvcc.Example
