import Uvcc.Io.Linearizable

/-!
# The reference of a reading endpoint

`read_start` and `read_resume` add a reference to the handle instance, and `read_stop`
and `read_pause` give it up. Any threads may do so while the instance is handed to read
and allocation callbacks; the spinlock alone keeps the command state and that reference
together.
-/
namespace Uvcc.Io
open Machine Counting

def Activation.locking : Activation → Bool
  | .command _ .called => false
  | .command _ _ => true
  | .user _ => false

def Activation.allocating : Activation → Bool
  | .command _ .allocated => true
  | _ => false

def Phase.argument : Phase → ℤ
  | .allocating | .reading | .allocated => 1
  | .returned | .tested => 0

def Pc.argument : Pc → ℤ
  | .allocated => 1
  | _ => 0

/-- What a command knows of the command state at its point. -/
def Pc.Knows (cmd : Rdcmd) : Pc → Prop
  | .decided prev => cmd = prev
  | .written => cmd.reading = true
  | .allocated => cmd.reading = true
  | .submitted _ => cmd.reading = true
  | _ => True

namespace Endpoint
variable {iface : Interface Libuv Answer} {e : Endpoint Libuv} {n : ℤ}

theorem Held.prepareStart (h : e.Held n) (hn : 1 ≤ n) (size : ℕ) (r : Answer) :
    (e.prepareStart iface e.rdcmd size r).Held n := by
  have he := (h.alive hn).1
  unfold Endpoint.prepareStart
  have hfresh (hc : e.rdcmd.reading = false) :
      ((({ e with rdcmd := .start } : Endpoint Libuv).ref).Held n) := h.take he hc rfl
  -- a restart holds two references until it gives up the old one
  have hagain (hc : e.rdcmd.reading = true) :
      ((({ e with rdcmd := .start } : Endpoint Libuv).ref).Held (n + 1)) := by
    have hx : e.rdcmd.extra - Rdcmd.start.extra = 0 := by
      rw [Rdcmd.extra, if_pos hc]
      rfl
    have hk := h.command .start
    rw [add_sub_assoc, hx, add_zero] at hk
    exact hk.ref he
  cases hc : e.rdcmd with
  | unknown => exact hfresh (by rw [hc]; rfl)
  | stop => exact hfresh (by rw [hc]; rfl)
  | pause => exact hfresh (by rw [hc]; rfl)
  | start => exact (hagain (by rw [hc]; rfl)).unref (by omega)
  | resume => exact (hagain (by rw [hc]; rfl)).unref (by omega)

theorem Held.settle (h : e.Held n) (hn : 0 ≤ n) (hc : e.rdcmd.reading = true) (ret : ℤ) :
    (e.settle ret).Held n := by
  unfold Endpoint.settle
  split_ifs
  · exact h.release hn hc (c := .unknown) rfl
  · exact h

theorem prepareStart_reading (prev : Rdcmd) (size : ℕ) (r : Answer) :
    (e.prepareStart iface prev size r).rdcmd.reading = true := by
  cases prev <;> rfl

end Endpoint

namespace Threads
variable {T : Type*} [DecidableEq T] {s u : Threads T} {t : T} {c : ReadCommand} {pc : Pc}
  {rest fs : List Activation}

/-- The handle argument of a callback that the loop has called. -/
def loopArgument : Option (ℤ × Phase) → ℤ
  | some d => d.2.argument
  | none => 0

/-- That of an allocation callback which the command with the lock has called. -/
def lockArgument (s : Threads T) : ℤ :=
  match s.holder with
  | some t => (s.stack t).countP Activation.allocating
  | none => 0

def argument (s : Threads T) : ℤ := loopArgument s.delivery + s.lockArgument

theorem loopArgument_nonneg (d : Option (ℤ × Phase)) : 0 ≤ loopArgument d := by
  unfold loopArgument
  split
  · rename_i d
    obtain ⟨_, phase⟩ := d
    cases phase <;> simp [Phase.argument]
  · rfl

omit [DecidableEq T] in
theorem lockArgument_nonneg (s : Threads T) : 0 ≤ s.lockArgument := by
  unfold lockArgument
  split
  · exact Int.natCast_nonneg _
  · rfl

omit [DecidableEq T] in
theorem one_le_holders (s : Threads T) : 1 ≤ 1 + s.argument := by
  have hl := loopArgument_nonneg s.delivery
  have ha := lockArgument_nonneg s
  unfold argument
  omega

/-- One command at most has the lock, what it knows of the command state is so, and the
references are those of the variable, of the command state and of the running callbacks. -/
structure Counted (s : Threads T) : Prop where
  lock : ∀ t, (s.stack t).countP Activation.locking = if s.holder = some t then 1 else 0
  knows : ∀ t c pc, .command c pc ∈ s.stack t → pc.Knows s.endpoint.rdcmd
  refs : s.endpoint.Held (1 + s.argument)

theorem init_counted (k : Kind) (loop : T) : (init k loop).Counted where
  lock t := by simp [init]
  knows t c pc h := by simp [init] at h
  refs := ⟨rfl, rfl, rfl⟩

theorem knows_of_unlocked (h : fs.countP Activation.locking = 0) {c : ReadCommand} {pc : Pc}
    (hmem : .command c pc ∈ fs) (cmd : Rdcmd) : pc.Knows cmd := by
  have hnot := List.countP_eq_zero.mp h _ hmem
  cases pc with
  | called => trivial
  | locked => trivial
  | leaving ret => trivial
  | _ => exact absurd rfl hnot

theorem allocating_of_unlocked (h : fs.countP Activation.locking = 0) :
    fs.countP Activation.allocating = 0 := by
  refine List.countP_eq_zero.mpr fun x hx halloc => ?_
  have hnot := List.countP_eq_zero.mp h x hx
  cases x with
  | user cb => cases halloc
  | command c pc =>
    cases pc with
    | allocated => exact hnot rfl
    | _ => cases halloc

theorem allocating_of_user (h : ∀ x ∈ fs, ∃ cb, x = .user cb) : fs.countP Activation.allocating = 0 := by
  refine List.countP_eq_zero.mpr fun x hx halloc => ?_
  obtain ⟨cb, rfl⟩ := h x hx
  cases halloc

omit [DecidableEq T] in
theorem lockArgument_congr (hholder : u.holder = s.holder)
    (hstack : ∀ t, s.holder = some t →
      (u.stack t).countP Activation.allocating = (s.stack t).countP Activation.allocating) :
    u.lockArgument = s.lockArgument := by
  unfold lockArgument
  rw [hholder]
  cases hh : s.holder with
  | none => rfl
  | some t => exact congrArg Nat.cast (hstack t hh)

omit [DecidableEq T] in
/-- One command above the others has the lock. -/
theorem lockArgument_held (hholder : s.holder = some t) {l : List Activation}
    (hstack : s.stack t = l ++ .command c pc :: rest) (hl : ∀ x ∈ l, ∃ cb, x = .user cb)
    (hrest : rest.countP Activation.locking = 0) : s.lockArgument = pc.argument := by
  unfold lockArgument
  rw [hholder]
  dsimp only
  rw [hstack, List.countP_append, allocating_of_user hl, List.countP_cons, allocating_of_unlocked hrest]
  cases pc <;> rfl

/-- The command on top that has the lock is the only one. -/
theorem Counted.top (h : s.Counted) (hst : s.stack t = .command c pc :: rest) (hpc : pc ≠ .called) :
    s.holder = some t ∧ rest.countP Activation.locking = 0 ∧
      s.endpoint.Held (1 + loopArgument s.delivery + pc.argument) := by
  have hlock := h.lock t
  have hone : Activation.locking (.command c pc) = true := by
    cases pc <;> first | rfl | exact absurd rfl hpc
  rw [hst, List.countP_cons_of_pos hone] at hlock
  split_ifs at hlock with hheld
  have hrest : rest.countP Activation.locking = 0 := by omega
  have hrefs := h.refs
  rw [argument, lockArgument_held hheld (l := []) hst (by simp) hrest, ← add_assoc] at hrefs
  exact ⟨hheld, hrest, hrefs⟩

/-- The stack of one thread changes, and the command state only with the lock. -/
theorem Counted.update (h : s.Counted) {l : List Activation} (hstack : u.stack = Function.update s.stack t l)
    (hself : l.countP Activation.locking = if u.holder = some t then 1 else 0)
    (hother : ∀ t', t' ≠ t → (u.holder = some t' ↔ s.holder = some t'))
    (hknows : ∀ c pc, .command c pc ∈ l → pc.Knows u.endpoint.rdcmd)
    (hcmd : u.endpoint.rdcmd = s.endpoint.rdcmd ∨ s.holder = some t)
    (hrefs : u.endpoint.Held (1 + u.argument)) : u.Counted where
  lock t' := by
    rw [hstack]
    by_cases ht : t' = t
    · rw [ht, Function.update_self, hself]
    · rw [Function.update_of_ne ht, h.lock t']
      simp only [hother t' ht]
  knows t' c pc hmem := by
    rw [hstack] at hmem
    by_cases ht : t' = t
    · rw [ht, Function.update_self] at hmem
      exact hknows c pc hmem
    · rw [Function.update_of_ne ht] at hmem
      rcases hcmd with hcmd | hheld
      · exact hcmd ▸ h.knows t' c pc hmem
      · have hnone := h.lock t'
        rw [if_neg (by rw [hheld]; simpa using Ne.symm ht)] at hnone
        exact knows_of_unlocked hnone hmem _
  refs := hrefs

/-- No stack changes, and the command state does not. -/
theorem Counted.endpoint (h : s.Counted) (hstack : u.stack = s.stack) (hholder : u.holder = s.holder)
    (hcmd : u.endpoint.rdcmd = s.endpoint.rdcmd)
    (hrefs : u.endpoint.Held (1 + (loopArgument u.delivery + s.lockArgument))) : u.Counted where
  lock t := by
    rw [hstack, hholder]
    exact h.lock t
  knows t c pc hmem := by
    rw [hstack] at hmem
    rw [hcmd]
    exact h.knows t c pc hmem
  refs := by
    rw [argument, lockArgument_congr hholder fun t _ => by rw [hstack]]
    exact hrefs

/-- The command that has the lock moves on, for a file with a callback above it. -/
theorem Counted.move (h : s.Counted) (hst : s.stack t = .command c pc :: rest) (hpc : pc ≠ .called)
    {q : Pc} (hq : q ≠ .called) {l : List Activation} (hl : ∀ x ∈ l, ∃ cb, x = .user cb)
    (hstack : u.stack = Function.update s.stack t (l ++ .command c q :: rest))
    (hholder : u.holder = s.holder) (hdelivery : u.delivery = s.delivery)
    (hknows : q.Knows u.endpoint.rdcmd)
    (hrefs : u.endpoint.Held (1 + loopArgument s.delivery + q.argument)) : u.Counted := by
  obtain ⟨hheld, hrest, _⟩ := h.top hst hpc
  have hnone : l.countP Activation.locking = 0 := by
    refine List.countP_eq_zero.mpr fun x hx => ?_
    obtain ⟨cb, rfl⟩ := hl x hx
    simp [Activation.locking]
  have hone : Activation.locking (.command c q) = true := by
    cases q <;> first | rfl | exact absurd rfl hq
  refine h.update hstack ?_ (fun t' _ => by rw [hholder]) (fun c' pc'' hmem => ?_) (.inr hheld) ?_
  · rw [List.countP_append, hnone, List.countP_cons_of_pos hone, hrest, hholder, if_pos hheld]
  · rcases List.mem_append.mp hmem with hmem | hmem
    · obtain ⟨cb, hcb⟩ := hl _ hmem
      cases hcb
    · rcases List.mem_cons.mp hmem with heq | hmem
      · cases heq
        exact hknows
      · exact knows_of_unlocked hrest hmem _
  · have hnow : u.stack t = l ++ .command c q :: rest := by rw [hstack, Function.update_self]
    rw [argument, hdelivery, lockArgument_held (hholder.trans hheld) hnow hl hrest, ← add_assoc]
    exact hrefs

/-- It moves on outside of `io_alloc_cb`, with the count of before. -/
theorem Counted.goes (h : s.Counted) (hst : s.stack t = .command c pc :: rest) (hpc : pc ≠ .called)
    {q : Pc} (hq : q ≠ .called) (harg : q.argument = 0) {e : Endpoint Libuv} (hknows : q.Knows e.rdcmd)
    (hrefs : e.Held (1 + loopArgument s.delivery)) : ((s.setEndpoint e).goto t c q rest).Counted :=
  h.move hst hpc hq (l := []) (by simp) rfl rfl rfl hknows (by rw [harg, add_zero]; exact hrefs)

theorem Counted.readState (h : s.Counted) (hst : s.stack t = .command c .locked :: rest) :
    (s.readState t c rest).Counted := by
  obtain ⟨_, _, hrefs⟩ := h.top hst (by simp)
  simp only [Pc.argument, add_zero] at hrefs
  have hdecided : (s.goto t c (.decided s.endpoint.rdcmd) rest).Counted :=
    h.goes hst (by simp) (by simp) rfl (e := s.endpoint) rfl hrefs
  cases c with
  | start size offset rStop r =>
    unfold Threads.readState
    dsimp only
    split_ifs
    · exact h.goes hst (by simp) (by simp) rfl trivial hrefs
    · exact hdecided
  | stop r => exact hdecided
  | pause r => exact hdecided
  | resume r => exact hdecided

theorem Counted.writeState (h : s.Counted) {prev : Rdcmd}
    (hst : s.stack t = .command c (.decided prev) :: rest) : (s.writeState t c prev rest).Counted := by
  have hprev : s.endpoint.rdcmd = prev := h.knows t c (.decided prev) (by rw [hst]; exact List.mem_cons_self)
  subst hprev
  obtain ⟨_, _, hrefs⟩ := h.top hst (by simp)
  simp only [Pc.argument, add_zero] at hrefs
  have hn : 1 ≤ 1 + loopArgument s.delivery := by
    have hl := loopArgument_nonneg s.delivery
    omega
  have hrefused : (s.goto t c (.leaving 2) rest).Counted :=
    h.goes hst (by simp) (by simp) rfl (e := s.endpoint) trivial hrefs
  cases c with
  | start size offset rStop r =>
    exact h.goes hst (by simp) (by simp) rfl (Endpoint.prepareStart_reading _ size rStop)
      (hrefs.prepareStart hn size rStop)
  | stop r =>
    refine h.goes hst (by simp) (by simp) rfl trivial ?_
    have hstop : (s.endpoint.readStop s.kind.interface r).1.Held (1 + loopArgument s.delivery) :=
      hrefs.readStop hn r
    rwa [Endpoint.readStop_eq] at hstop
  | pause r =>
    unfold Threads.writeState
    dsimp only
    split_ifs with hc
    · refine h.goes hst (by simp) (by simp) rfl trivial ?_
      have hpause : (s.endpoint.readPause s.kind.interface true r).1.Held (1 + loopArgument s.delivery) :=
        hrefs.readPause hn true r
      rwa [Endpoint.readPause_eq, if_pos hc] at hpause
    · exact hrefused
  | resume r =>
    cases hc : s.endpoint.rdcmd with
    | pause =>
      refine h.goes hst (by simp) (by simp) rfl rfl ?_
      exact hrefs.take (hrefs.alive hn).1 (by rw [hc]; rfl) (c := .resume) rfl
    | _ => exact hrefused

/-- A file calls `io_alloc_cb`, which takes the reference for its argument. -/
theorem Counted.virtualStart (h : s.Counted) (hst : s.stack t = .command c .written :: rest) :
    (s.virtualStart t c rest).Counted := by
  have hknows : s.endpoint.rdcmd.reading = true := h.knows t c .written (by rw [hst]; exact List.mem_cons_self)
  obtain ⟨_, _, hrefs⟩ := h.top hst (by simp)
  simp only [Pc.argument, add_zero] at hrefs
  unfold Threads.virtualStart
  cases hk : s.kind with
  | file =>
    have hn : 1 ≤ 1 + loopArgument s.delivery := by
      have hl := loopArgument_nonneg s.delivery
      omega
    set offset := s.startOffset c
    set e : Endpoint Libuv := { s.endpoint with
      rdoffset := if offset < 0 then (startAnswer c).tell else offset }
    have hentered : e.ref.Held (1 + loopArgument s.delivery + 1) := Endpoint.Held.ref hrefs (hrefs.alive hn).1
    refine h.move hst (by simp) (q := .allocated) (by simp) (l := [.user .alloc]) (by simp) ?_ rfl
      rfl hknows hentered
    simp [goto, setStack, setEndpoint, Threads.invoke]
  | stream => exact h.goes hst (by simp) (by simp) rfl hknows hrefs
  | udp => exact h.goes hst (by simp) (by simp) rfl hknows hrefs

theorem Counted.unlock (h : s.Counted) {ret : ℤ} (hst : s.stack t = .command c (.leaving ret) :: rest) :
    ({ s with holder := none }.setStack t rest).Counted := by
  obtain ⟨hheld, hrest, hrefs⟩ := h.top hst (by simp)
  refine h.update rfl ?_ (fun t' ht => ?_) (fun c' pc' hmem => knows_of_unlocked hrest hmem _) (.inl rfl)
    (by simpa [argument, lockArgument, Pc.argument, setStack] using hrefs)
  · rw [hrest]
    rfl
  · rw [hheld]
    simp [setStack, Ne.symm ht]

theorem Counted.advance (h : s.Counted) (hstep : s.step (.advance t) = some u) : u.Counted := by
  cases hst : s.stack t with
  | nil => simp [step, hst] at hstep
  | cons x rest =>
    cases x with
    | user cb => simp [step, hst] at hstep
    | command c pc =>
      have hu : s.runCommand t c rest pc = some u := by simpa [step, hst] using hstep
      cases pc with
      | called =>
        simp only [runCommand, Option.ite_none_right_eq_some, Option.some.injEq] at hu
        obtain ⟨hfree, rfl⟩ := hu
        have hrest : rest.countP Activation.locking = 0 := by
          have hlock := h.lock t
          rwa [hst, hfree, if_neg (by simp), List.countP_cons_of_neg (by simp [Activation.locking])] at hlock
        have hrefs : s.endpoint.Held (1 + (loopArgument s.delivery + 0)) := by
          have hnone : s.lockArgument = 0 := by simp [lockArgument, hfree]
          have hrefs := h.refs
          rwa [argument, hnone] at hrefs
        refine h.update (l := .command c .locked :: rest) rfl ?_ (fun t' ht => ?_) (fun c' pc' hmem => ?_)
          (.inl rfl) ?_
        · rw [List.countP_cons_of_pos rfl, hrest]
          simp [goto, setStack]
        · simp [goto, setStack, hfree, Ne.symm ht]
        · rcases List.mem_cons.mp hmem with heq | hmem
          · cases heq
            trivial
          · exact knows_of_unlocked hrest hmem _
        · rwa [argument, lockArgument_held (t := t) (l := []) rfl (Function.update_self _ _ _) (by simp) hrest]
      | locked =>
        obtain rfl := Option.some.inj hu
        exact h.readState hst
      | decided prev =>
        obtain rfl := Option.some.inj hu
        exact h.writeState hst
      | written =>
        obtain rfl := Option.some.inj hu
        exact h.virtualStart hst
      | allocated =>
        obtain rfl := Option.some.inj hu
        have hknows : s.endpoint.rdcmd.reading = true :=
          h.knows t c .allocated (by rw [hst]; exact List.mem_cons_self)
        obtain ⟨_, _, hrefs⟩ := h.top hst (by simp)
        have hn : 0 ≤ 1 + loopArgument s.delivery := by
          have hl := loopArgument_nonneg s.delivery
          omega
        have hleft : s.endpoint.unref.Held (1 + loopArgument s.delivery) := hrefs.unref hn
        exact h.goes hst (by simp) (q := .submitted _) (by simp) rfl hknows hleft
      | submitted ret =>
        obtain rfl := Option.some.inj hu
        have hknows : s.endpoint.rdcmd.reading = true :=
          h.knows t c (.submitted ret) (by rw [hst]; exact List.mem_cons_self)
        obtain ⟨_, _, hrefs⟩ := h.top hst (by simp)
        simp only [Pc.argument, add_zero] at hrefs
        have hn : 0 ≤ 1 + loopArgument s.delivery := by
          have hl := loopArgument_nonneg s.delivery
          omega
        exact h.goes hst (by simp) (q := .leaving ret) (by simp) rfl trivial (hrefs.settle hn hknows ret)
      | leaving ret =>
        obtain rfl := Option.some.inj hu
        exact h.unlock hst

theorem Counted.held (h : s.Counted) (d : Option (ℤ × Phase)) (hd : s.delivery = d) :
    s.endpoint.Held (1 + s.lockArgument + loopArgument d) := by
  have hrefs := h.refs
  rwa [argument, hd, add_comm (loopArgument d), ← add_assoc] at hrefs

/-- The loop calls a user callback and takes the reference for its argument. -/
theorem Counted.calls (h : s.Counted) (hfree : s.stack s.loop = []) {e : Endpoint Libuv}
    {d : Option (ℤ × Phase)} (hcmd : e.rdcmd = s.endpoint.rdcmd) (hd : loopArgument d = 1)
    (hrefs : e.Held (1 + s.lockArgument)) (cb : Callback) :
    ({ s.setEndpoint e with delivery := d }.invoke s.loop cb).Counted := by
  have hlock := h.lock s.loop
  rw [hfree, List.countP_nil] at hlock
  have hpos : 1 ≤ 1 + s.lockArgument := by
    have hl := lockArgument_nonneg s
    omega
  have hentered : e.ref.Held (1 + s.lockArgument + 1) := hrefs.ref (hrefs.alive hpos).1
  have hstack : ({ s.setEndpoint e with delivery := d }.invoke s.loop cb).stack =
      Function.update s.stack s.loop [.user cb] := by
    simp [Threads.invoke, setStack, setEndpoint, hfree]
  have hsame : ({ s.setEndpoint e with delivery := d }.invoke s.loop cb).lockArgument = s.lockArgument := by
    refine lockArgument_congr rfl fun t _ => ?_
    rw [hstack]
    by_cases ht : t = s.loop
    · simp [ht, hfree, Activation.allocating]
    · rw [Function.update_of_ne ht]
  have harg : 1 + (loopArgument d + s.lockArgument) = 1 + s.lockArgument + 1 := by omega
  refine h.update (t := s.loop) (l := [.user cb]) hstack hlock (fun _ _ => Iff.rfl) (by simp) (.inl hcmd) ?_
  rw [argument, hsame]
  exact harg ▸ hentered

/-- The loop goes on with a delivery without a callback. -/
theorem Counted.quiet (h : s.Counted) {e : Endpoint Libuv} {d : Option (ℤ × Phase)}
    (hcmd : e.rdcmd = s.endpoint.rdcmd) (hd : loopArgument d = 0) (hrefs : e.Held (1 + s.lockArgument)) :
    { s.setEndpoint e with delivery := d }.Counted := by
  refine h.endpoint rfl rfl hcmd ?_
  rw [hd, zero_add]
  exact hrefs

theorem Counted.deliver (h : s.Counted) (hfree : s.stack s.loop = []) (hd : s.delivery = none) {i : ℕ}
    {result : ℤ} {buffer : Bool} (hu : s.deliver i result buffer = some u) : u.Counted := by
  have hrefs : s.endpoint.Held (1 + s.lockArgument) := by simpa [loopArgument] using h.held none hd
  rcases deliver_cases hu with ⟨w, nread, rfl⟩ | rfl
  · exact h.calls hfree (e := { s.endpoint with world := w, uvError := nread }) rfl rfl hrefs .read
  · exact h.calls hfree (e := s.endpoint) rfl rfl hrefs .alloc

theorem Counted.proceed (h : s.Counted) (hfree : s.stack s.loop = []) {d : ℤ × Phase}
    (hd : s.delivery = some d) (ret : ℤ) : (s.proceed ret d).Counted := by
  obtain ⟨nread, phase⟩ := d
  have hheld := h.held _ hd
  have hn : 0 ≤ 1 + s.lockArgument := by
    have hl := lockArgument_nonneg s
    omega
  cases phase with
  | allocating =>
    have hleft : s.endpoint.unref.Held (1 + s.lockArgument) := hheld.unref hn
    exact h.calls hfree (e := { s.endpoint.unref with uvError := nread }) rfl rfl hleft .read
  | reading =>
    have hleft : s.endpoint.unref.Held (1 + s.lockArgument) := hheld.unref hn
    have hquiet (d : Option (ℤ × Phase)) (hd : loopArgument d = 0) :
        { s.leaveRead nread with delivery := d }.Counted := h.quiet rfl hd hleft
    unfold Threads.proceed
    cases s.kind with
    | file => exact hquiet _ rfl
    | stream => exact hquiet _ rfl
    | udp => exact hquiet _ rfl
  | returned =>
    have hsame : s.endpoint.Held (1 + s.lockArgument) := by
      simpa [loopArgument, Phase.argument] using hheld
    unfold Threads.proceed
    dsimp only
    split_ifs
    · exact h.quiet rfl rfl hsame
    · exact h.quiet (e := s.endpoint) rfl rfl hsame
  | tested =>
    have hsame : s.endpoint.Held (1 + s.lockArgument) := by
      simpa [loopArgument, Phase.argument] using hheld
    exact h.calls hfree (e := s.endpoint) rfl rfl hsame .alloc
  | allocated =>
    have hleft : s.endpoint.unref.Held (1 + s.lockArgument) := hheld.unref hn
    unfold Threads.proceed
    dsimp only
    split_ifs
    · exact h.quiet rfl rfl hleft
    · exact h.quiet rfl rfl hleft

/-- A stack changes above its commands in `io_alloc_cb`. -/
theorem Counted.sameArgument (h : s.Counted) {l : List Activation} (hstack : u.stack = Function.update s.stack t l)
    (hholder : u.holder = s.holder) (hdelivery : u.delivery = s.delivery)
    (hl : l.countP Activation.allocating = (s.stack t).countP Activation.allocating) :
    s.endpoint.Held (1 + u.argument) := by
  have harg : u.argument = s.argument := by
    rw [argument, argument, hdelivery, lockArgument_congr hholder fun t' _ => ?_]
    rw [hstack]
    by_cases ht : t' = t
    · rw [ht, Function.update_self, hl]
    · rw [Function.update_of_ne ht]
  rw [harg]
  exact h.refs

theorem step_counted {e : Action T} (h : s.Counted) (hstep : s.step e = some u) : u.Counted := by
  cases e with
  | setCallbacks t =>
    simp only [step, Option.ite_none_right_eq_some, Option.some.injEq] at hstep
    obtain ⟨_, rfl⟩ := hstep
    exact h.endpoint rfl rfl rfl h.refs
  | call t c =>
    simp only [step, Option.ite_none_right_eq_some, Option.some.injEq] at hstep
    obtain ⟨_, rfl⟩ := hstep
    refine h.update (l := .command c .called :: s.stack t) rfl ?_ (fun _ _ => Iff.rfl) (fun c' pc hmem => ?_)
      (.inl rfl) (h.sameArgument rfl rfl rfl (by simp [Activation.allocating]))
    · rw [List.countP_cons_of_neg (by simp [Activation.locking])]
      exact h.lock t
    · rcases List.mem_cons.mp hmem with heq | hmem
      · cases heq
        trivial
      · exact h.knows t c' pc hmem
  | advance t => exact h.advance hstep
  | finish t =>
    simp only [step] at hstep
    split at hstep
    · rename_i cb rest hst
      obtain rfl := Option.some.inj hstep
      refine h.update (l := rest) rfl ?_ (fun _ _ => Iff.rfl) (fun c pc hmem => ?_) (.inl rfl)
        (h.sameArgument rfl rfl rfl (by simp [hst, Activation.allocating]))
      · have hlock := h.lock t
        rwa [hst, List.countP_cons_of_neg (by simp [Activation.locking])] at hlock
      · exact h.knows t c pc (by rw [hst]; exact List.mem_cons_of_mem _ hmem)
    · cases hstep
  | deliver i result buffer =>
    simp only [step, Option.ite_none_right_eq_some] at hstep
    exact h.deliver hstep.1.1 hstep.1.2.1 hstep.2
  | proceed ret =>
    simp only [step] at hstep
    cases hd : s.delivery with
    | none => simp [hd] at hstep
    | some d =>
      simp only [hd, Option.ite_none_right_eq_some, Option.some.injEq] at hstep
      obtain ⟨hfree, rfl⟩ := hstep
      exact h.proceed hfree hd ret

end Threads

/-- In every run of any threads on any endpoint one command at most is past the lock, the
instance is never destroyed or referred to when it is gone, and its references are the
variable's, those of the running read and allocation callbacks, and one exactly while the
command state says that the endpoint is read. -/
theorem read_references_exact {T : Type*} [DecidableEq T] (k : Kind) (loop : T) (es : List (Action T)) :
    ∀ s ∈ visited Threads.step (Threads.init k loop) es,
      (∀ t t', 0 < (s.stack t).countP Activation.locking → 0 < (s.stack t').countP Activation.locking →
        t = t') ∧
      s.endpoint.refs = 1 + s.argument + (if s.endpoint.rdcmd.reading then 1 else 0) ∧
      s.endpoint.destroyed = false ∧ s.endpoint.fault = false := by
  intro s hs
  have h : s.Counted := visited_invariant (fun _ _ _ hs h => Threads.step_counted hs h) es _
    (Threads.init_counted k loop) s hs
  refine ⟨fun t t' ht ht' => ?_, h.refs.refs, (h.refs.alive (Threads.one_le_holders s)).2, h.refs.fault⟩
  have hheld (t : T) (ht : 0 < (s.stack t).countP Activation.locking) : s.holder = some t := by
    by_contra hne
    rw [h.lock t, if_neg hne] at ht
    exact absurd ht (lt_irrefl 0)
  exact Option.some.inj ((hheld t ht).symm.trans (hheld t' ht'))

theorem references_after_stop :
    let s := final Threads.step (Threads.init .stream true) stoppedOnTheWay
    s.endpoint.rdcmd = .stop ∧ s.endpoint.refs = 1 ∧ s.endpoint.destroyed = false := by
  intro s
  obtain ⟨_, hrefs, hdestroyed, _⟩ :=
    read_references_exact .stream true stoppedOnTheWay s (final_visited stoppedOnTheWay _)
  exact ⟨rfl, hrefs, hdestroyed⟩

end Uvcc.Io
