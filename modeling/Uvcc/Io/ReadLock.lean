import Uvcc.Io.Threads

/-!
# User callbacks and the read lock

The spinlock of an endpoint is not recursive. A socket leaves the allocation of buffers
to the loop, but the virtual `read_start` of a file asks the user for one at once, and
`io::read_start` and `io::read_resume` call it with the lock held.
-/
namespace Uvcc.Io
open Machine

namespace Threads
variable {T : Type*} {s u : Threads T} {t : T} {c : ReadCommand} {pc : Pc}
  {rest fs : List Activation}

/-- No user callback was called by the thread that held the lock, and no thread waits for
a lock that it holds itself. -/
structure Unlocked (s : Threads T) : Prop where
  invoked : ∀ x ∈ s.invoked, x.2.2 ≠ some x.1
  waiting : ∀ t c rest, s.stack t = .command c .called :: rest → s.holder ≠ some t

def Defers (s : Threads T) (e : Action T) : Prop :=
  ∀ t c rest, e = .advance t → s.stack t = .command c .written :: rest → s.kind ≠ .file

def inside : List Activation → Bool
  | .command _ .called :: _ => false
  | .command _ _ :: _ => true
  | _ => false

theorem inside_command : inside (.command c pc :: rest) = true ↔ pc ≠ .called := by
  cases pc <;> simp [inside]

/-- The thread that holds the lock is inside a command, nobody else is, and under the top
of a stack there is user code only. -/
structure Guarded (s : Threads T) : Prop where
  holder : ∀ t, s.holder = some t ↔ inside (s.stack t) = true
  below : ∀ t, ∀ a ∈ (s.stack t).tail, ∃ cb, a = .user cb
  invoked : ∀ x ∈ s.invoked, x.2.2 ≠ some x.1

theorem Guarded.unlocked (h : s.Guarded) : s.Unlocked where
  invoked := h.invoked
  waiting t c rest hs := by
    rw [Ne, h.holder t, hs, inside_command]
    simp

theorem init_guarded (k : Kind) (loop : T) : (init k loop).Guarded where
  holder t := by simp [init, inside]
  below t := by simp [init]
  invoked := by simp [init]

theorem Guarded.userTail (hs : s.Guarded) {a : Activation} (h : s.stack t = a :: rest) :
    ∀ b ∈ rest, ∃ cb, b = .user cb := by
  have hb := hs.below t
  rwa [h, List.tail_cons] at hb

theorem inside_of_user (h : ∀ a ∈ fs, ∃ cb, a = .user cb) : inside fs = false := by
  cases fs with
  | nil => rfl
  | cons a rest =>
    obtain ⟨cb, rfl⟩ := h a List.mem_cons_self
    rfl

/-- User code on top of a stack is not inside a command. -/
theorem Guarded.userCode (hs : s.Guarded) (h : s.inUserCode t = true) :
    inside (s.stack t) = false ∧ ∀ a ∈ s.stack t, ∃ cb, a = .user cb := by
  have hall : ∀ a ∈ s.stack t, ∃ cb, a = .user cb := by
    unfold inUserCode at h
    cases hst : s.stack t with
    | nil => simp
    | cons a rest =>
      rw [hst] at h
      cases a with
      | command c pc => cases h
      | user cb => exact List.forall_mem_cons.mpr ⟨⟨cb, rfl⟩, hs.userTail hst⟩
  exact ⟨inside_of_user hall, hall⟩

theorem Guarded.setEndpoint (hs : s.Guarded) (e : Endpoint Libuv) : (s.setEndpoint e).Guarded :=
  ⟨hs.holder, hs.below, hs.invoked⟩

theorem Guarded.delivery (hs : s.Guarded) (d : Option (ℤ × Phase)) : { s with delivery := d }.Guarded :=
  ⟨hs.holder, hs.below, hs.invoked⟩

variable [DecidableEq T]

def GoesOn (s u : Threads T) (t : T) (c : ReadCommand) (rest : List Activation) : Prop :=
  u.holder = s.holder ∧ u.invoked = s.invoked ∧
    ∃ pc, pc ≠ .called ∧ u.stack = Function.update s.stack t (.command c pc :: rest)

theorem goto_goesOn (e : Endpoint Libuv) {pc : Pc} (h : pc ≠ .called) :
    GoesOn s ((s.setEndpoint e).goto t c pc rest) t c rest :=
  ⟨rfl, rfl, pc, h, rfl⟩

theorem readState_goesOn : GoesOn s (s.readState t c rest) t c rest := by
  have hdecided : GoesOn s (s.goto t c (.decided s.endpoint.rdcmd) rest) t c rest :=
    goto_goesOn s.endpoint nofun
  cases c with
  | start size offset rStop r =>
    unfold readState
    dsimp only
    split_ifs
    · exact goto_goesOn _ nofun
    · exact hdecided
  | stop r => exact hdecided
  | pause r => exact hdecided
  | resume r => exact hdecided

theorem writeState_goesOn (prev : Rdcmd) : GoesOn s (s.writeState t c prev rest) t c rest := by
  have hrefused : GoesOn s (s.goto t c (.leaving 2) rest) t c rest := goto_goesOn s.endpoint nofun
  cases c with
  | start size offset rStop r => exact goto_goesOn _ nofun
  | stop r => exact goto_goesOn _ nofun
  | pause r =>
    unfold writeState
    dsimp only
    split_ifs
    · exact goto_goesOn _ nofun
    · exact hrefused
  | resume r =>
    cases prev with
    | pause => exact goto_goesOn _ nofun
    | _ => exact hrefused

/-- The virtual `read_start` of a socket stays inside; that of a file asks for a buffer. -/
theorem virtualStart_cases (s : Threads T) (t : T) (c : ReadCommand) (rest : List Activation) :
    (s.kind ≠ .file ∧ GoesOn s (s.virtualStart t c rest) t c rest) ∨
    (s.kind = .file ∧ (s.virtualStart t c rest).invoked = s.invoked ++ [(t, .alloc, s.holder)]) := by
  unfold virtualStart
  cases hk : s.kind with
  | file => exact .inr ⟨rfl, rfl⟩
  | stream => exact .inl ⟨nofun, goto_goesOn _ nofun⟩
  | udp => exact .inl ⟨nofun, goto_goesOn _ nofun⟩

/-- What a command past the lock can do: it goes on inside, gives up the lock, or it is
that of a file and asks for a buffer. -/
theorem runCommand_cases (hpc : pc ≠ .called) (h : s.runCommand t c rest pc = some u) :
    GoesOn s u t c rest ∨
    (u.holder = none ∧ u.invoked = s.invoked ∧ u.stack = Function.update s.stack t rest) ∨
    (pc = .written ∧ s.kind = .file ∧ u.invoked = s.invoked ++ [(t, .alloc, s.holder)]) := by
  cases pc with
  | called => exact absurd rfl hpc
  | locked =>
    obtain rfl := Option.some.inj h
    exact .inl readState_goesOn
  | decided prev =>
    obtain rfl := Option.some.inj h
    exact .inl (writeState_goesOn prev)
  | written =>
    obtain rfl := Option.some.inj h
    rcases virtualStart_cases s t c rest with ⟨_, hgo⟩ | ⟨hk, hinv⟩
    · exact .inl hgo
    · exact .inr (.inr ⟨rfl, hk, hinv⟩)
  | allocated =>
    obtain rfl := Option.some.inj h
    exact .inl (goto_goesOn _ nofun)
  | submitted ret =>
    obtain rfl := Option.some.inj h
    exact .inl (goto_goesOn _ nofun)
  | leaving ret =>
    obtain rfl := Option.some.inj h
    exact .inr (.inl ⟨rfl, rfl, rfl⟩)

/-- One thread's stack changes, and the lock goes with it. -/
theorem Guarded.update (hs : s.Guarded) (fs : List Activation) (hstack : u.stack = Function.update s.stack t fs)
    (hself : u.holder = some t ↔ inside fs = true)
    (hother : ∀ t', t' ≠ t → (u.holder = some t' ↔ s.holder = some t'))
    (hbelow : ∀ a ∈ fs.tail, ∃ cb, a = .user cb) (hinv : ∀ x ∈ u.invoked, x.2.2 ≠ some x.1) :
    u.Guarded where
  holder t' := by
    rw [hstack]
    by_cases ht : t' = t
    · rw [ht, Function.update_self]
      exact hself
    · rw [Function.update_of_ne ht, hother t' ht]
      exact hs.holder t'
  below t' := by
    rw [hstack]
    by_cases ht : t' = t
    · rw [ht, Function.update_self]
      exact hbelow
    · rw [Function.update_of_ne ht]
      exact hs.below t'
  invoked := hinv

/-- A callback that the loop calls finds the lock free of it. -/
theorem Guarded.invoke (hs : s.Guarded) (h : s.stack t = []) (cb : Callback) : (s.invoke t cb).Guarded := by
  have hfree : s.holder ≠ some t := by
    rw [Ne, hs.holder t, h]
    simp [inside]
  refine hs.update (t := t) [.user cb] ?_ ?_ (fun _ _ => Iff.rfl) (by simp) ?_
  · simp [Threads.invoke, setStack, Threads.setEndpoint, h]
  · exact iff_of_false hfree (by simp [inside])
  · simp only [Threads.invoke, List.forall_mem_append, List.forall_mem_singleton]
    exact ⟨hs.invoked, hfree⟩

theorem Guarded.enterRead (hs : s.Guarded) (h : s.stack s.loop = []) (nread : ℤ) :
    (s.enterRead nread).Guarded := by
  have hd : { s.setEndpoint { s.endpoint with uvError := nread } with
      delivery := some (nread, .reading) }.Guarded := (hs.setEndpoint _).delivery _
  exact hd.invoke h .read

/-- The loop runs its callbacks outside of any command. -/
theorem Guarded.proceed (hs : s.Guarded) (h : s.stack s.loop = []) (ret : ℤ) (d : ℤ × Phase) :
    (s.proceed ret d).Guarded := by
  obtain ⟨nread, phase⟩ := d
  cases phase with
  | allocating => exact (hs.setEndpoint s.endpoint.unref).enterRead h nread
  | reading =>
    unfold Threads.proceed
    cases s.kind <;> exact (hs.setEndpoint _).delivery _
  | returned =>
    unfold Threads.proceed
    dsimp only
    split_ifs
    · exact (hs.setEndpoint _).delivery _
    · exact hs.delivery _
  | tested =>
    have hd : { s with delivery := some (nread, .allocated) }.Guarded := hs.delivery _
    exact hd.invoke h .alloc
  | allocated => exact (((hs.setEndpoint _).setEndpoint _).setEndpoint _).delivery _

theorem Guarded.deliver {i : ℕ} {result : ℤ} {buffer : Bool} (hs : s.Guarded) (h : s.stack s.loop = [])
    (hu : s.deliver i result buffer = some u) : u.Guarded := by
  rcases deliver_cases hu with ⟨w, nread, rfl⟩ | rfl
  · refine Guarded.enterRead (hs.setEndpoint _) ?_ nread
    exact h
  · have hd : { s with delivery := some (result, .allocating) }.Guarded := hs.delivery _
    exact hd.invoke h .alloc

/-- A command moves on past the lock, or takes it. -/
theorem Guarded.advance (hs : s.Guarded) (hst : s.stack t = .command c pc :: rest)
    (h : s.runCommand t c rest pc = some u) (hok : pc = .written → s.kind ≠ .file) : u.Guarded := by
  have htail := hs.userTail hst
  by_cases hpc : pc = .called
  · subst hpc
    simp only [runCommand, Option.ite_none_right_eq_some, Option.some.injEq] at h
    obtain ⟨hfree, rfl⟩ := h
    refine hs.update (t := t) (.command c .locked :: rest) rfl (by simp [inside, goto, setStack])
      (fun t' ht => ?_) htail hs.invoked
    simp [goto, setStack, hfree, Ne.symm ht]
  · have hheld : s.holder = some t := (hs.holder t).mpr (hst ▸ inside_command.mpr hpc)
    rcases runCommand_cases hpc h with ⟨hh, hi, pc', hpc', hstack⟩ | ⟨hh, hi, hstack⟩ | ⟨hw, hk, _⟩
    · refine hs.update _ hstack ?_ (fun t' _ => by rw [hh]) htail (hi ▸ hs.invoked)
      rw [hh, hheld, inside_command]
      exact iff_of_true rfl hpc'
    · refine hs.update _ hstack ?_ (fun t' ht => ?_) (fun a ha => htail a (List.mem_of_mem_tail ha))
        (hi ▸ hs.invoked)
      · rw [hh, inside_of_user htail]
        simp
      · rw [hh, hheld]
        simp [Ne.symm ht]
    · exact absurd hk (hok hw)

theorem step_guarded {e : Action T} (hs : s.Guarded) (hok : s.Defers e) (h : s.step e = some u) :
    u.Guarded := by
  cases e with
  | setCallbacks t =>
    simp only [step, Option.ite_none_right_eq_some, Option.some.injEq] at h
    obtain ⟨_, rfl⟩ := h
    exact hs.setEndpoint _
  | call t c =>
    simp only [step, Option.ite_none_right_eq_some, Option.some.injEq] at h
    obtain ⟨hu, rfl⟩ := h
    obtain ⟨hin, huser⟩ := hs.userCode hu
    have hnot : s.holder ≠ some t := by
      rw [Ne, hs.holder t, hin]
      simp
    exact hs.update (t := t) (.command c .called :: s.stack t) rfl
      (iff_of_false hnot (by simp [inside])) (fun _ _ => Iff.rfl) huser hs.invoked
  | advance t =>
    simp only [step] at h
    split at h
    · rename_i c pc rest hst
      exact hs.advance hst h fun hw => hok t c rest rfl (hw ▸ hst)
    · cases h
  | finish t =>
    simp only [step] at h
    split at h
    · rename_i cb rest hst
      obtain rfl := Option.some.inj h
      have htail := hs.userTail hst
      have hnot : s.holder ≠ some t := by
        rw [Ne, hs.holder t, hst]
        simp [inside]
      refine hs.update (t := t) rest rfl (iff_of_false hnot ?_) (fun _ _ => Iff.rfl)
        (fun a ha => htail a (List.mem_of_mem_tail ha)) hs.invoked
      rw [inside_of_user htail]
      simp
    · cases h
  | deliver i result buffer =>
    simp only [step, Option.ite_none_right_eq_some] at h
    exact hs.deliver h.1.1 h.2
  | proceed ret =>
    simp only [step] at h
    cases hd : s.delivery with
    | none => simp [hd] at h
    | some d =>
      simp only [hd, Option.ite_none_right_eq_some, Option.some.injEq] at h
      obtain ⟨hst, rfl⟩ := h
      exact hs.proceed hst ret d

/-- The virtual `read_start` of a file calls the user back with the lock held. -/
theorem step_locked {e : Action T} (hs : s.Guarded) (hbad : ¬ s.Defers e) (h : s.step e = some u) :
    ¬ u.Unlocked := by
  intro hu
  simp only [Defers, not_forall, not_not] at hbad
  obtain ⟨t, c, rest, rfl, hst, hk⟩ := hbad
  simp only [step, hst, runCommand, Option.some.injEq] at h
  subst h
  have hheld : s.holder = some t := (hs.holder t).mpr (by rw [hst]; rfl)
  rcases virtualStart_cases s t c rest with ⟨hn, _⟩ | ⟨_, hinv⟩
  · exact hn hk
  · exact hu.invoked (t, .alloc, s.holder) (by rw [hinv]; simp) hheld

end Threads

/-- In every run of any threads on any endpoint no user callback runs under the lock that
its thread holds exactly when the virtual `read_start` of a file is never reached. -/
theorem callbacks_unlocked_iff {T : Type*} [DecidableEq T] (k : Kind) (loop : T) (es : List (Action T)) :
    (∀ s ∈ visited Threads.step (Threads.init k loop) es, s.Unlocked) ↔
      ∀ p ∈ taken Threads.step (Threads.init k loop) es, p.1.Defers p.2 :=
  visited_iff_guarded (fun _ hs => hs.unlocked) (fun _ _ _ hs hok h => Threads.step_guarded hs hok h)
    (fun _ _ _ hs hbad h => Threads.step_locked hs hbad h) es _ (Threads.init_guarded k loop)

/-- `read_start` on a file, whose allocation callback stops reading. -/
def stoppedInAlloc : List (Action Unit) :=
  [.setCallbacks (), .call () (.start 0 0 ⟨0, 0⟩ ⟨0, 0⟩), .advance (), .advance (), .advance (),
    .advance (), .call () (.stop ⟨0, 0⟩)]

theorem callback_under_lock : ¬ ∀ (k : Kind) (es : List (Action Unit)),
    ∀ s ∈ visited Threads.step (Threads.init k ()) es, s.Unlocked := by
  intro h
  have hrun := h .file stoppedInAlloc _ (final_visited stoppedInAlloc _)
  refine hrun.waiting () (.stop ⟨0, 0⟩)
    [.user .alloc, .command (.start 0 0 ⟨0, 0⟩ ⟨0, 0⟩) .allocated] ?_ ?_
  · rfl
  · rfl

end Uvcc.Io
