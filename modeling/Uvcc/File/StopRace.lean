import Uvcc.Io.Threads

/-!
# Stopping a file from another thread

The commands follow one another under the spinlock, but `file::read_cb` reads the
command state without it and submits the next read afterwards. A stop that returns
in between comes too late for that read.
-/
namespace Uvcc.Io

/-- A command past the lock, on top of its stack or below the user's callback. -/
def Activation.active : Activation → Bool
  | .command _ .called => false
  | .command _ _ => true
  | .user _ => false

/-- What holds at a command past the lock: reading is not stopped under a start or a
resume, and a stop or a pause that is about to return has written the command state. -/
def Activation.Sound (stopped reading : Bool) : Activation → Prop
  | .command (.start _ _ _ _) pc | .command (.resume _) pc => pc ≠ .called → stopped = false
  | .command (.stop _) pc => match pc with
    | .called | .locked | .decided _ => True
    | .leaving _ => reading = false
    | .written | .allocated | .submitted _ => False
  | .command (.pause _) pc => match pc with
    | .called | .locked | .decided _ => True
    | .leaving ret => ret ≠ 2 → reading = false
    | .written | .allocated | .submitted _ => False
  | .user _ => True

def ReadCommand.begins : ReadCommand → Bool
  | .start _ _ _ _ | .resume _ => true
  | .stop _ | .pause _ => false

theorem Activation.sound_begins {c : ReadCommand} (hc : c.begins = true) (pc : Pc) (x y : Bool) :
    (Activation.command c pc).Sound x y ↔ (pc ≠ .called → x = false) := by
  cases c with
  | start size offset rStop r => exact Iff.rfl
  | resume r => exact Iff.rfl
  | stop r => cases hc
  | pause r => cases hc

namespace Threads
variable {T : Type*} {s u : Threads T} {t : T} {x y : Bool} {a : Activation}
  {rest : List Activation}

/-- Only the holder of the lock is past it, and only once; each command stands where the
command state allows. -/
structure Ordered (s : Threads T) (stopped : Bool) : Prop where
  held : ∀ t, ∀ a ∈ s.stack t, a.active = true → s.holder = some t
  once : ∀ t, (s.stack t).Pairwise fun a b => a.active = true → b.active = false
  sound : ∀ t, ∀ a ∈ s.stack t, a.Sound stopped s.endpoint.rdcmd.reading

theorem sound_of_inactive (h : a.active = false) : a.Sound x y := by
  cases a with
  | user cb => trivial
  | command c pc =>
    cases pc with
    | called => cases c <;> simp [Activation.Sound]
    | _ => cases h

theorem init_ordered (k : Kind) (loop : T) : (init k loop).Ordered false where
  held t := by simp [init]
  once t := by simp [init]
  sound t := by simp [init]

namespace Ordered

/-- With the lock free, or its holder on top, nobody else is past it. -/
theorem others (hs : s.Ordered x) (h : s.holder = none ∨ s.holder = some t) :
    ∀ t', t' ≠ t → ∀ b ∈ s.stack t', b.active = false := by
  intro t' ht b hb
  by_contra hact
  have hheld := hs.held t' b hb (by simpa using hact)
  rcases h with h | h
  · rw [h] at hheld
    cases hheld
  · rw [h] at hheld
    exact ht (Option.some.inj hheld).symm

theorem below (hs : s.Ordered x) (hst : s.stack t = a :: rest) (h : s.holder = none ∨ a.active = true) :
    ∀ b ∈ rest, b.active = false := by
  intro b hb
  rcases h with h | h
  · by_contra hact
    have hheld := hs.held t b (by rw [hst]; exact List.mem_cons_of_mem _ hb) (by simpa using hact)
    rw [h] at hheld
    cases hheld
  · have hp := hs.once t
    rw [hst, List.pairwise_cons] at hp
    exact hp.1 b hb h

/-- Nothing about the lock and the command state changes. -/
theorem congr (hs : s.Ordered x) (hstack : u.stack = s.stack) (hh : u.holder = s.holder)
    (hr : u.endpoint.rdcmd = s.endpoint.rdcmd) : u.Ordered x where
  held := by rw [hstack, hh]; exact hs.held
  once := by rw [hstack]; exact hs.once
  sound := by rw [hstack, hr]; exact hs.sound

variable [DecidableEq T]

/-- One thread's stack changes; what lies on the others stands as before. -/
theorem update (hs : s.Ordered x) (fs : List Activation)
    (hstack : u.stack = Function.update s.stack t fs)
    (hheld : ∀ b ∈ fs, b.active = true → u.holder = some t)
    (honce : fs.Pairwise fun a b => a.active = true → b.active = false)
    (hsound : ∀ b ∈ fs, b.Sound y u.endpoint.rdcmd.reading)
    (hother : ∀ t', t' ≠ t → ∀ b ∈ s.stack t',
      (b.active = true → u.holder = some t') ∧ b.Sound y u.endpoint.rdcmd.reading) : u.Ordered y where
  held := by
    rw [hstack]
    refine (Function.forall_update_iff s.stack fun t' bs =>
      ∀ b ∈ bs, b.active = true → u.holder = some t').mpr ⟨hheld, ?_⟩
    exact fun t' ht b hb => (hother t' ht b hb).1
  once := by
    rw [hstack]
    refine (Function.forall_update_iff s.stack fun _ bs =>
      bs.Pairwise fun a b => a.active = true → b.active = false).mpr ⟨honce, ?_⟩
    exact fun t' _ => hs.once t'
  sound := by
    rw [hstack]
    refine (Function.forall_update_iff s.stack fun _ bs =>
      ∀ b ∈ bs, b.Sound y u.endpoint.rdcmd.reading).mpr ⟨hsound, ?_⟩
    exact fun t' ht b hb => (hother t' ht b hb).2

/-- User code or a new call comes on top of a stack. -/
theorem push (hs : s.Ordered x) (ha : a.active = false)
    (hstack : u.stack = Function.update s.stack t (a :: s.stack t)) (hh : u.holder = s.holder)
    (hr : u.endpoint.rdcmd = s.endpoint.rdcmd) : u.Ordered x := by
  refine hs.update _ hstack ?_ ?_ ?_ ?_
  · rw [hh]
    exact List.forall_mem_cons.mpr ⟨fun hact => absurd (ha.symm.trans hact) Bool.false_ne_true, hs.held t⟩
  · exact List.pairwise_cons.mpr ⟨fun _ _ hact => absurd (ha.symm.trans hact) Bool.false_ne_true, hs.once t⟩
  · rw [hr]
    exact List.forall_mem_cons.mpr ⟨sound_of_inactive ha, hs.sound t⟩
  · rw [hh, hr]
    exact fun t' _ b hb => ⟨hs.held t' b hb, hs.sound t' b hb⟩

theorem pop (hs : s.Ordered x) (hst : s.stack t = a :: rest)
    (hstack : u.stack = Function.update s.stack t rest) (hh : u.holder = s.holder)
    (hr : u.endpoint.rdcmd = s.endpoint.rdcmd) : u.Ordered x := by
  have hmem : ∀ b ∈ rest, b ∈ s.stack t := fun b hb => by
    rw [hst]
    exact List.mem_cons_of_mem a hb
  have honce := hs.once t
  rw [hst, List.pairwise_cons] at honce
  refine hs.update rest hstack ?_ honce.2 ?_ ?_
  · rw [hh]
    exact fun b hb => hs.held t b (hmem b hb)
  · rw [hr]
    exact fun b hb => hs.sound t b (hmem b hb)
  · rw [hh, hr]
    exact fun t' _ b hb => ⟨hs.held t' b hb, hs.sound t' b hb⟩

/-- The one thread at the lock moves on; `news` replaces the top of its stack. -/
theorem replace (hs : s.Ordered x) (news : List Activation) (hst : s.stack t = a :: rest)
    (hself : s.holder = none ∨ (s.holder = some t ∧ a.active = true))
    (hstack : u.stack = Function.update s.stack t (news ++ rest))
    (hheld : ∀ b ∈ news, b.active = true → u.holder = some t)
    (honce : news.Pairwise fun a b => a.active = true → b.active = false)
    (hsound : ∀ b ∈ news, b.Sound y u.endpoint.rdcmd.reading) : u.Ordered y := by
  have hrest := hs.below hst (hself.imp_right And.right)
  have hother := hs.others (hself.imp_right And.left)
  have hp := hs.once t
  rw [hst, List.pairwise_cons] at hp
  refine hs.update (news ++ rest) hstack ?_ ?_ ?_ ?_
  · exact List.forall_mem_append.mpr
      ⟨hheld, fun b hb hact => absurd ((hrest b hb).symm.trans hact) Bool.false_ne_true⟩
  · exact List.pairwise_append.mpr ⟨honce, hp.2, fun _ _ d hd _ => hrest d hd⟩
  · exact List.forall_mem_append.mpr ⟨hsound, fun b hb => sound_of_inactive (hrest b hb)⟩
  · exact fun t' ht b hb => ⟨fun hact => absurd ((hother t' ht b hb).symm.trans hact) Bool.false_ne_true,
      sound_of_inactive (hother t' ht b hb)⟩

end Ordered
end Threads
end Uvcc.Io

namespace Uvcc.File
open Machine Io

/-- A run with what the callers know: `stopped` says that the last of the stops, pauses
and starts, in the order of the lock, was a stop or a successful pause that has returned;
`raced` says the same of those since the last test of the command state in
`file::read_cb`, and `late` that a read was submitted while stopped. -/
structure Watched (T : Type*) where
  threads : Threads T
  stopped : Bool
  raced : Bool
  late : Bool

namespace Watched
variable {T : Type*}

def init (loop : T) : Watched T := ⟨Threads.init .file loop, false, false, false⟩

def stops (s : Threads T) : Action T → Bool
  | .advance t => match s.stack t with
    | .command (.stop _) (.leaving _) :: _ => true
    | .command (.pause _) (.leaving ret) :: _ => decide (ret = 0)
    | _ => false
  | _ => false

def starts (s : Threads T) : Action T → Bool
  | .advance t => match s.stack t with
    | .command (.start _ _ _ _) .called :: _ => true
    | .command (.resume _) .called :: _ => true
    | _ => false
  | _ => false

def tests (s : Threads T) : Action T → Bool
  | .proceed _ => match s.delivery with
    | some (_, .returned) => true
    | _ => false
  | _ => false

def submits (s : Threads T) : Action T → Bool
  | .advance t => match s.stack t with
    | .command _ .allocated :: _ => true
    | _ => false
  | .proceed _ => match s.delivery with
    | some (_, .allocated) => true
    | _ => false
  | _ => false

def record (w : Watched T) (e : Action T) (s : Threads T) : Watched T where
  threads := s
  stopped := if stops w.threads e then true else if starts w.threads e then false else w.stopped
  raced := if stops w.threads e then true
    else if starts w.threads e || tests w.threads e then false else w.raced
  late := w.late || (submits w.threads e && w.stopped)

def step [DecidableEq T] (w : Watched T) (e : Action T) : Option (Watched T) :=
  (w.threads.step e).map (w.record e)

/-- No stop comes between the test and the submission at the end of `file::read_cb`. -/
def InTime (w : Watched T) : Action T → Prop
  | .proceed ret => submits w.threads (.proceed ret) = true → w.raced = false
  | _ => True

/-- The command state says that reading is stopped, and the loop is past its test only if
it has seen a reading state since. -/
structure Inv (w : Watched T) : Prop where
  ordered : w.threads.Ordered w.stopped
  stopped : w.stopped = true → w.threads.endpoint.rdcmd.reading = false
  tested : ∀ n phase, w.threads.delivery = some (n, phase) → phase = .tested ∨ phase = .allocated →
    w.stopped = true → w.raced = true
  raced : w.raced = true → w.stopped = true
  late : w.late = false

theorem init_inv (loop : T) : (init loop).Inv where
  ordered := Threads.init_ordered .file loop
  stopped h := by cases h
  tested n phase h := by cases h
  raced h := by cases h
  late := rfl

section Steps
variable {w : Watched T} {s : Threads T} {t : T} {c : ReadCommand} {pc : Pc} {rest : List Activation}

/-- Neither the record nor the command state changes in a way that matters. -/
theorem Inv.keep {e : Action T} (hw : w.Inv) (hstops : stops w.threads e = false)
    (hstarts : starts w.threads e = false) (htests : tests w.threads e = false)
    (hsubmits : submits w.threads e = true → w.stopped = false) (ho : s.Ordered w.stopped)
    (hr : w.stopped = true → s.endpoint.rdcmd.reading = false)
    (hd : ∀ n phase, s.delivery = some (n, phase) → phase = .tested ∨ phase = .allocated →
      w.stopped = true → w.raced = true) : (w.record e s).Inv := by
  refine ⟨?_, ?_, ?_, ?_, ?_⟩
  · simpa [record, hstops, hstarts] using ho
  · simpa [record, hstops, hstarts] using hr
  · simpa [record, hstops, hstarts, htests] using hd
  · simpa [record, hstops, hstarts, htests] using hw.raced
  · cases hsub : submits w.threads e with
    | false => simp [record, hw.late, hsub]
    | true => simp [record, hw.late, hsubmits hsub]

/-- Nobody tests, submits or moves at the lock. -/
theorem Inv.quiet {e : Action T} (hw : w.Inv) (ho : s.Ordered w.stopped)
    (hr : s.endpoint.rdcmd = w.threads.endpoint.rdcmd)
    (hd : ∀ n phase, s.delivery = some (n, phase) → phase = .tested ∨ phase = .allocated →
      w.stopped = true → w.raced = true)
    (hstops : stops w.threads e = false) (hstarts : starts w.threads e = false)
    (htests : tests w.threads e = false) (hsubmits : submits w.threads e = false) :
    (w.record e s).Inv :=
  hw.keep hstops hstarts htests (by simp [hsubmits]) ho (by rw [hr]; exact hw.stopped) hd

variable [DecidableEq T]

/-- A start or a resume past the lock: reading is not stopped, and it stays so. -/
theorem Inv.advance_begins (hw : w.Inv) (hst : w.threads.stack t = .command c pc :: rest)
    (hc : c.begins = true) (hpc : pc ≠ .called) (h : w.threads.runCommand t c rest pc = some s) :
    (w.record (.advance t) s).Inv := by
  have hmem : Activation.command c pc ∈ w.threads.stack t := by simp [hst]
  have hact : (Activation.command c pc).active = true := by cases pc <;> simp_all [Activation.active]
  have hheld := hw.ordered.held t _ hmem hact
  have hfree : w.stopped = false := (Activation.sound_begins hc pc _ _).mp (hw.ordered.sound t _ hmem) hpc
  have hsound (pc' : Pc) (y : Bool) : (Activation.command c pc').Sound w.stopped y :=
    (Activation.sound_begins hc pc' _ _).mpr fun _ => hfree
  have hstops : stops w.threads (.advance t) = false := by
    cases c <;> simp_all [stops, ReadCommand.begins]
  have hstarts : starts w.threads (.advance t) = false := by
    cases pc <;> cases c <;> simp_all [starts]
  have hkeep {u : Threads T} (ho : u.Ordered w.stopped) (hd : u.delivery = w.threads.delivery) :
      (w.record (.advance t) u).Inv :=
    hw.keep hstops hstarts rfl (fun _ => hfree) ho (fun h => absurd (hfree.symm.trans h) Bool.false_ne_true)
      (by rw [hd]; exact hw.tested)
  have hgoto (e : Endpoint Libuv) (pc' : Pc) :
      (w.record (.advance t) ((w.threads.setEndpoint e).goto t c pc' rest)).Inv := by
    refine hkeep ?_ rfl
    refine hw.ordered.replace [.command c pc'] hst (.inr ⟨hheld, hact⟩) rfl ?_ ?_ ?_
    · exact fun _ _ _ => hheld
    · simp
    · simpa using hsound pc' _
  cases pc with
  | called => exact absurd rfl hpc
  | locked =>
    obtain rfl := Option.some.inj h
    unfold Threads.readState
    split
    · split_ifs
      · exact hgoto _ _
      · exact hgoto w.threads.endpoint _
    · exact hgoto w.threads.endpoint _
  | decided prev =>
    obtain rfl := Option.some.inj h
    cases c with
    | start size offset rStop r => exact hgoto _ .written
    | resume r =>
      cases prev with
      | pause => exact hgoto _ .written
      | _ => exact hgoto w.threads.endpoint (.leaving 2)
    | stop r => cases hc
    | pause r => cases hc
  | written =>
    obtain rfl := Option.some.inj h
    unfold Threads.virtualStart
    cases hk : w.threads.kind with
    | stream => exact hgoto _ _
    | udp => exact hgoto _ _
    | file =>
      refine hkeep ?_ rfl
      refine hw.ordered.replace [.user .alloc, .command c .allocated] hst
        (.inr ⟨hheld, hact⟩) ?_ ?_ ?_ ?_
      · simp [Threads.invoke, Threads.goto, Threads.setStack, Threads.setEndpoint]
      · exact fun _ _ _ => hheld
      · simp [Activation.active]
      · simpa [Activation.Sound] using hsound .allocated _
  | allocated =>
    obtain rfl := Option.some.inj h
    exact hgoto _ _
  | submitted ret =>
    obtain rfl := Option.some.inj h
    exact hgoto _ _
  | leaving ret =>
    obtain rfl := Option.some.inj h
    refine hkeep ?_ rfl
    exact hw.ordered.replace [] hst (.inr ⟨hheld, hact⟩) rfl (by simp) .nil (by simp)

/-- A command takes the lock; a start or a resume is a later one from here on. -/
theorem Inv.advance_called (hw : w.Inv) (hst : w.threads.stack t = .command c .called :: rest)
    (h : w.threads.runCommand t c rest .called = some s) : (w.record (.advance t) s).Inv := by
  simp only [Threads.runCommand, Option.ite_none_right_eq_some, Option.some.injEq] at h
  obtain ⟨hfree, rfl⟩ := h
  have hstops : stops w.threads (.advance t) = false := by cases c <;> simp [stops, hst]
  have hsubmits : submits w.threads (.advance t) = false := by simp [submits, hst]
  have hordered {y : Bool} (hy : (Activation.command c .locked).Sound y w.threads.endpoint.rdcmd.reading) :
      ({ w.threads with holder := some t }.goto t c .locked rest).Ordered y :=
    hw.ordered.replace [.command c .locked] hst (.inl hfree) rfl (fun _ _ _ => rfl) (by simp)
      (fun b hb => List.mem_singleton.mp hb ▸ hy)
  cases hc : c.begins with
  | true =>
    have hstarts : starts w.threads (.advance t) = true := by
      cases c <;> simp_all [starts, ReadCommand.begins]
    have hs : (w.record (.advance t) ({ w.threads with holder := some t }.goto t c .locked rest)).stopped =
        false := by simp [record, hstops, hstarts]
    refine ⟨?_, ?_, ?_, ?_, ?_⟩
    · rw [hs]
      exact hordered ((Activation.sound_begins hc _ _ _).mpr fun _ => rfl)
    · rw [hs]
      exact fun hstop => absurd hstop Bool.false_ne_true
    · rw [hs]
      exact fun _ _ _ _ hstop => absurd hstop Bool.false_ne_true
    · simp [record, hstops, hstarts]
    · simp [record, hsubmits, hw.late]
  | false =>
    have hstarts : starts w.threads (.advance t) = false := by
      cases c <;> simp_all [starts, ReadCommand.begins]
    refine hw.keep hstops hstarts rfl (by simp [hsubmits]) (hordered ?_) hw.stopped hw.tested
    cases c <;> trivial

/-- A stop or a pause past the lock: when it returns it has written the command state. -/
theorem Inv.advance_halts (hw : w.Inv) (hst : w.threads.stack t = .command c pc :: rest)
    (hc : c.begins = false) (hpc : pc ≠ .called) (h : w.threads.runCommand t c rest pc = some s) :
    (w.record (.advance t) s).Inv := by
  have hmem : Activation.command c pc ∈ w.threads.stack t := by simp [hst]
  have hact : (Activation.command c pc).active = true := by cases pc <;> simp_all [Activation.active]
  have hheld := hw.ordered.held t _ hmem hact
  have hsound := hw.ordered.sound t _ hmem
  have hstarts : starts w.threads (.advance t) = false := by
    cases c <;> simp_all [starts, ReadCommand.begins]
  have hsubmits : pc ≠ .allocated → submits w.threads (.advance t) = false := by
    intro hne
    cases pc <;> simp_all [submits]
  have hgoto {u : Threads T} {pc' : Pc} (hpc' : ∀ ret, pc ≠ .leaving ret) (hne : pc ≠ .allocated)
      (hstack : u.stack = Function.update w.threads.stack t (.command c pc' :: rest))
      (hh : u.holder = w.threads.holder) (hd : u.delivery = w.threads.delivery)
      (hr : w.stopped = true → u.endpoint.rdcmd.reading = false)
      (hs : (Activation.command c pc').Sound w.stopped u.endpoint.rdcmd.reading) :
      (w.record (.advance t) u).Inv := by
    have hstops : stops w.threads (.advance t) = false := by
      cases c <;> cases pc <;> simp_all [stops]
    refine hw.keep hstops hstarts rfl (by simp [hsubmits hne]) ?_ hr (by rw [hd]; exact hw.tested)
    exact hw.ordered.replace [.command c pc'] hst (.inr ⟨hheld, hact⟩) hstack
      (fun _ _ _ => hh.trans hheld) (by simp) (by simpa using hs)
  cases pc with
  | called => exact absurd rfl hpc
  | locked =>
    obtain rfl := Option.some.inj h
    cases c with
    | stop r => exact hgoto (by simp) (by simp) rfl rfl rfl hw.stopped trivial
    | pause r => exact hgoto (by simp) (by simp) rfl rfl rfl hw.stopped trivial
    | start size offset rStop r => cases hc
    | resume r => cases hc
  | decided prev =>
    obtain rfl := Option.some.inj h
    have hhalt (next : Rdcmd) (r : Answer) :
        (w.threads.endpoint.halt w.threads.kind.interface prev next r).rdcmd = next := by
      unfold Endpoint.halt
      cases prev <;> rfl
    cases c with
    | stop r =>
      have hr : (w.threads.endpoint.halt w.threads.kind.interface prev .stop r).rdcmd.reading = false := by
        rw [hhalt]
        rfl
      exact hgoto (by simp) (by simp) rfl rfl rfl (fun _ => hr) hr
    | pause r =>
      have hr : (w.threads.endpoint.halt w.threads.kind.interface prev .pause r).rdcmd.reading = false := by
        rw [hhalt]
        rfl
      unfold Threads.writeState
      dsimp only
      split_ifs
      · exact hgoto (by simp) (by simp) rfl rfl rfl (fun _ => hr) fun _ => hr
      · exact hgoto (by simp) (by simp) rfl rfl rfl hw.stopped fun hne => absurd rfl hne
    | start size offset rStop r => cases hc
    | resume r => cases hc
  | written => cases c <;> first | exact absurd hsound id | cases hc
  | allocated => cases c <;> first | exact absurd hsound id | cases hc
  | submitted ret => cases c <;> first | exact absurd hsound id | cases hc
  | leaving ret =>
    obtain rfl := Option.some.inj h
    have hpop (y : Bool) : ({ w.threads with holder := none }.setStack t rest).Ordered y :=
      hw.ordered.replace [] hst (.inr ⟨hheld, hact⟩) rfl (by simp) .nil (by simp)
    cases hstops : stops w.threads (.advance t) with
    | false => exact hw.keep hstops hstarts rfl (by simp [hsubmits (by simp)]) (hpop _) hw.stopped hw.tested
    | true =>
      have hr : w.threads.endpoint.rdcmd.reading = false := by
        cases c with
        | stop r => exact hsound
        | pause r =>
          have hret : ret = 0 := by simpa [stops, hst] using hstops
          exact hsound (by rw [hret]; decide)
        | start size offset rStop r => cases hc
        | resume r => cases hc
      refine ⟨hpop _, fun _ => hr, ?_, ?_, ?_⟩
      · simp [record, hstops]
      · simp [record, hstops]
      · simp [record, hsubmits, hw.late]

theorem Inv.enterRead {e : Action T} {u : Threads T} (hw : w.Inv) (hstack : u.stack = w.threads.stack)
    (hh : u.holder = w.threads.holder) (hr : u.endpoint.rdcmd = w.threads.endpoint.rdcmd) (nread : ℤ)
    (hstops : stops w.threads e = false) (hstarts : starts w.threads e = false)
    (htests : tests w.threads e = false) (hsubmits : submits w.threads e = false) :
    (w.record e (u.enterRead nread)).Inv := by
  refine hw.quiet ?_ hr ?_ hstops hstarts htests hsubmits
  · exact hw.ordered.push (a := .user .read) (t := u.loop) rfl (by rw [← hstack]; rfl) hh hr
  · intro n phase hd hp
    obtain ⟨_, rfl⟩ := Prod.mk.inj (Option.some.inj hd)
    rcases hp with hp | hp <;> cases hp

theorem Inv.proceed {ret nread : ℤ} {phase : Phase} (hw : w.Inv)
    (hd : w.threads.delivery = some (nread, phase)) (hok : w.InTime (.proceed ret)) :
    (w.record (.proceed ret) (w.threads.proceed ret (nread, phase))).Inv := by
  have htests (h : phase ≠ .returned) : tests w.threads (.proceed ret) = false := by
    cases phase <;> simp_all [tests]
  have hsubmits (h : phase ≠ .allocated) : submits w.threads (.proceed ret) = false := by
    cases phase <;> simp_all [submits]
  have hpush {u : Threads T} {cb : Callback} {p : Phase} (h : phase ≠ .returned)
      (h' : phase ≠ .allocated) (hp : p ≠ .tested ∧ p ≠ .allocated ∨ phase = .tested)
      (hu : u = { w.threads with delivery := some (nread, p) }.invoke w.threads.loop cb) :
      (w.record (.proceed ret) u).Inv := by
    subst hu
    refine hw.quiet (hw.ordered.push (a := .user cb) rfl rfl rfl rfl) rfl ?_ rfl rfl (htests h) (hsubmits h')
    intro n q hq hq' hstop
    obtain ⟨rfl, rfl⟩ := Prod.mk.inj (Option.some.inj hq)
    rcases hp with hp | rfl
    · exact absurd hq' (by simp [hp])
    · exact hw.tested _ _ hd (.inl rfl) hstop
  cases phase with
  | allocating =>
    exact hw.enterRead (u := w.threads.dropArg) rfl rfl rfl nread rfl rfl (htests (by decide))
      (hsubmits (by decide))
  | reading =>
    unfold Threads.proceed
    cases w.threads.kind <;> dsimp only <;>
      exact hw.quiet (hw.ordered.congr rfl rfl rfl) rfl (by simp) rfl rfl (htests (by decide))
        (hsubmits (by decide))
  | returned =>
    have hteston : tests w.threads (.proceed ret) = true := by simp [tests, hd]
    have hrec {u : Threads T} (hstack : u.stack = w.threads.stack) (hh : u.holder = w.threads.holder)
        (hr : u.endpoint.rdcmd = w.threads.endpoint.rdcmd)
        (hnext : u.delivery = none ∨ w.threads.endpoint.rdcmd.reading = true) :
        (w.record (.proceed ret) u).Inv := by
      refine ⟨hw.ordered.congr hstack hh hr, fun hs => ?_, fun n p hp _ hs => ?_, ?_, ?_⟩
      · rw [← hw.stopped hs, ← hr]
        rfl
      · rcases hnext with hnone | hread
        · cases hnone.symm.trans hp
        · cases hread.symm.trans (hw.stopped hs)
      · simp [record, stops, starts, hteston]
      · simp [record, hsubmits (by decide), hw.late]
    unfold Threads.proceed
    dsimp only
    split_ifs with hread
    · exact hrec rfl rfl rfl (.inr hread)
    · exact hrec rfl rfl rfl (.inl rfl)
  | tested => exact hpush (by decide) (by decide) (.inr rfl) rfl
  | allocated =>
    have hfree : w.stopped = false := by
      by_contra hstop
      have hraced := hw.tested _ _ hd (.inr rfl) (by simpa using hstop)
      rw [hok (by simp [submits, hd])] at hraced
      cases hraced
    have hr : (w.threads.proceed ret (nread, .allocated)).endpoint.rdcmd =
        w.threads.endpoint.rdcmd := by
      unfold Threads.proceed
      dsimp only
      split_ifs <;> rfl
    refine hw.keep rfl rfl (htests (by decide)) (fun _ => hfree) (hw.ordered.congr rfl rfl hr) ?_ (by
      simp [Threads.proceed])
    rw [hr]
    exact hw.stopped

theorem Inv.deliver {i : ℕ} {result : ℤ} {b : Bool} (hw : w.Inv)
    (h : w.threads.deliver i result b = some s) : (w.record (.deliver i result b) s).Inv := by
  rcases Threads.deliver_cases h with ⟨v, nread, rfl⟩ | rfl
  · exact hw.enterRead (u := w.threads.setEndpoint { w.threads.endpoint with world := v })
      (e := .deliver i result b) rfl rfl rfl nread rfl rfl rfl rfl
  · refine hw.quiet (hw.ordered.push (a := .user .alloc) rfl rfl rfl rfl) rfl ?_ rfl rfl rfl rfl
    intro n p hp hq
    obtain ⟨_, rfl⟩ := Prod.mk.inj (Option.some.inj hp)
    rcases hq with hq | hq <;> cases hq

theorem step_inv {w' : Watched T} {e : Action T} (hw : w.Inv) (hok : w.InTime e)
    (h : w.step e = some w') : w'.Inv := by
  obtain ⟨s, hs, rfl⟩ := Option.map_eq_some_iff.mp h
  cases e with
  | setCallbacks t =>
    simp only [Threads.step, Option.ite_none_right_eq_some, Option.some.injEq] at hs
    obtain ⟨_, rfl⟩ := hs
    exact hw.quiet (hw.ordered.congr rfl rfl rfl) rfl hw.tested rfl rfl rfl rfl
  | call t c =>
    simp only [Threads.step, Option.ite_none_right_eq_some, Option.some.injEq] at hs
    obtain ⟨_, rfl⟩ := hs
    exact hw.quiet (hw.ordered.push (a := .command c .called) rfl rfl rfl rfl) rfl hw.tested rfl rfl rfl rfl
  | advance t =>
    simp only [Threads.step] at hs
    split at hs
    · rename_i c pc rest hst
      by_cases hpc : pc = .called
      · subst hpc
        exact hw.advance_called hst hs
      · cases hc : c.begins with
        | true => exact hw.advance_begins hst hc hpc hs
        | false => exact hw.advance_halts hst hc hpc hs
    · cases hs
  | finish t =>
    simp only [Threads.step] at hs
    split at hs
    · rename_i cb rest hst
      obtain rfl := Option.some.inj hs
      exact hw.quiet (hw.ordered.pop hst rfl rfl rfl) rfl hw.tested rfl rfl rfl rfl
    · cases hs
  | deliver i result b =>
    simp only [Threads.step, Option.ite_none_right_eq_some] at hs
    exact hw.deliver hs.2
  | proceed ret =>
    simp only [Threads.step] at hs
    cases hd : w.threads.delivery with
    | none => simp [hd] at hs
    | some d =>
      obtain ⟨nread, phase⟩ := d
      simp only [hd, Option.ite_none_right_eq_some, Option.some.injEq] at hs
      obtain ⟨_, rfl⟩ := hs
      exact hw.proceed hd hok

/-- A stop in between: the read that is submitted is a late one. -/
theorem step_late {w' : Watched T} {e : Action T} (hw : w.Inv) (hbad : ¬ w.InTime e)
    (h : w.step e = some w') : w'.late = true := by
  obtain ⟨s, hs, rfl⟩ := Option.map_eq_some_iff.mp h
  cases e with
  | proceed ret =>
    simp only [InTime, Classical.not_imp, Bool.not_eq_false] at hbad
    simp [record, hbad.1, hw.raced hbad.2]
  | _ => exact absurd trivial hbad

end Steps
end Watched

/-- In every interleaving of commands in any threads with the loop no read of a file is
submitted while reading is stopped exactly when no stop comes between the test of the
command state in `file::read_cb` and the submission that follows. -/
theorem stop_effective_iff {T : Type*} [DecidableEq T] (loop : T) (es : List (Action T)) :
    (∀ w ∈ visited Watched.step (Watched.init loop) es, w.late = false) ↔
      ∀ p ∈ taken Watched.step (Watched.init loop) es, p.1.InTime p.2 := by
  refine visited_iff_guarded (I := Watched.Inv) (fun w hw => hw.late) ?_ ?_ es _ (Watched.init_inv loop)
  · exact fun w e w' hw hok h => Watched.step_inv hw hok h
  · intro w e w' hw hbad h
    rw [Watched.step_late hw hbad h]
    simp

/-- The loop runs in thread `false`; thread `true` stops the file after the test. -/
def stoppedAfterTest : List (Action Bool) :=
  [.setCallbacks true, .call true (.start 0 0 ⟨0, 0⟩ ⟨0, 0⟩), .advance true, .advance true, .advance true,
    .advance true, .finish true, .advance true, .advance true, .advance true,
    .deliver 0 10 true, .finish false, .proceed 0, .proceed 0,
    .call true (.stop ⟨0, 0⟩), .advance true, .advance true, .advance true, .advance true,
    .proceed 0, .finish false, .proceed 0]

theorem stop_too_late : ¬ ∀ es : List (Action Bool),
    ∀ w ∈ visited Watched.step (Watched.init false) es, w.late = false := by
  intro h
  have hrun := h stoppedAfterTest _ (final_visited stoppedAfterTest _)
  revert hrun
  decide

end Uvcc.File
