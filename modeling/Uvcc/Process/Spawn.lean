import Uvcc.Process.Stdio

/-!
# The options of `uv_spawn()`

The options are kept in the properties of the process from one call to the next. Each call
writes its own field; the flags are written bit by bit, and `spawn` only ever sets some.
-/
namespace Uvcc.Process
open Machine

/-- `uv_process_options_t` but for the descriptors; pointers are numbers, the null pointer 0. -/
structure SpawnOptions where
  file : ℕ
  args : ℕ
  env : ℕ
  cwd : ℕ
  flags : BitVec 32
  uid : BitVec 32
  gid : BitVec 32
  deriving DecidableEq, Repr

structure Spawner extends Stdio where
  options : SpawnOptions

inductive SpawnEvent where
  | stdio (e : StdioEvent)
  | setEnvironment (envp : ℕ)
  | setWorkingDir (cwd : ℕ)
  | setUid (uid : BitVec 32)
  | setGid (gid : BitVec 32)
  | spawn (file args : ℕ) (flags : BitVec 32) (ret : ℤ)
  deriving DecidableEq, Repr

/-- `UV_PROCESS_SETUID` and `UV_PROCESS_SETGID`. -/
def setuidFlag : BitVec 32 := 1#32

def setgidFlag : BitVec 32 := 2#32

/-- `set_uid` and `set_gid` in what they do to the flags. -/
def withId (flag id flags : BitVec 32) : BitVec 32 :=
  if id = BitVec.allOnes 32 then flags &&& ~~~flag else flags ||| flag

namespace SpawnOptions

def init : SpawnOptions := ⟨0, 0, 0, 0, 0, 0, 0⟩

/-- The functions that prepare for spawning; Windows has no identifiers. -/
def apply (windows : Bool) (o : SpawnOptions) : SpawnEvent → SpawnOptions
  | .stdio _ => o
  | .setEnvironment envp => { o with env := envp }
  | .setWorkingDir cwd => { o with cwd := cwd }
  | .setUid uid => if windows then o else { o with flags := withId setuidFlag uid o.flags, uid := uid }
  | .setGid gid => if windows then o else { o with flags := withId setgidFlag gid o.flags, gid := gid }
  | .spawn file args flags _ => { o with file := file, args := args, flags := o.flags ||| flags }

end SpawnOptions

namespace Spawner

def init : Spawner := { Stdio.init with options := .init }

/-- The options that a `spawn` leaves are those that it has passed. -/
def step (windows : Bool) (s : Spawner) (e : SpawnEvent) : Option Spawner :=
  match e with
  | .stdio e' => (s.toStdio.step e').map fun t => { t with options := s.options }
  | .spawn _ _ _ ret => some { s with options := s.options.apply windows e, uvError := ret }
  | _ => some { s with options := s.options.apply windows e }

end Spawner

/-! ## What the calls write -/

namespace SpawnEvent

def file? : SpawnEvent → Option ℕ
  | .spawn file _ _ _ => some file
  | _ => none

def args? : SpawnEvent → Option ℕ
  | .spawn _ args _ _ => some args
  | _ => none

def env? : SpawnEvent → Option ℕ
  | .setEnvironment envp => some envp
  | _ => none

def cwd? : SpawnEvent → Option ℕ
  | .setWorkingDir cwd => some cwd
  | _ => none

def uid? (windows : Bool) : SpawnEvent → Option (BitVec 32)
  | .setUid uid => if windows then none else some uid
  | _ => none

def gid? (windows : Bool) : SpawnEvent → Option (BitVec 32)
  | .setGid gid => if windows then none else some gid
  | _ => none

/-- The bit of a flag: identifiers write their own, and `spawn` sets those it is given. -/
def bit? (windows : Bool) (i : ℕ) : SpawnEvent → Option Bool
  | .setUid uid => if windows = false ∧ i = 0 then some (uid ≠ BitVec.allOnes 32) else none
  | .setGid gid => if windows = false ∧ i = 1 then some (gid ≠ BitVec.allOnes 32) else none
  | .spawn _ _ flags _ => if flags.getLsbD i then some true else none
  | _ => none

end SpawnEvent

variable {windows : Bool} {s t : Spawner} {e : SpawnEvent}

theorem step_options (h : s.step windows e = some t) : t.options = s.options.apply windows e := by
  cases e with
  | stdio e =>
    obtain ⟨_, _, rfl⟩ := Option.map_eq_some_iff.mp h
    rfl
  | _ => cases h; rfl

/-- One bit of a flag is cleared or set, and the others stay. -/
theorem getLsbD_withId (k : ℕ) (hk : k < 32) (id flags : BitVec 32) (i : ℕ) :
    (withId (BitVec.twoPow 32 k) id flags).getLsbD i =
      if i = k then decide (id ≠ BitVec.allOnes 32) else flags.getLsbD i := by
  by_cases hi : i < 32
  · by_cases hid : id = BitVec.allOnes 32
    · rw [withId, if_pos hid, BitVec.getLsbD_and, BitVec.getLsbD_not, BitVec.getLsbD_twoPow]
      by_cases hik : i = k
      · simp [hid, hik, hk]
      · simp [hi, hik, Ne.symm hik]
    · rw [withId, if_neg hid, BitVec.getLsbD_or, BitVec.getLsbD_twoPow, decide_eq_true hid]
      by_cases hik : i = k
      · simp [hik, hk]
      · simp [hik, Ne.symm hik]
  · have hik : i ≠ k := by omega
    rw [if_neg hik, BitVec.getLsbD_of_ge _ i (by omega), BitVec.getLsbD_of_ge _ i (by omega)]

theorem apply_flags (windows : Bool) (o : SpawnOptions) (e : SpawnEvent) (i : ℕ) :
    (o.apply windows e).flags.getLsbD i = (e.bit? windows i).getD (o.flags.getLsbD i) := by
  cases e with
  | setUid uid =>
    cases windows with
    | true => rfl
    | false =>
      refine (getLsbD_withId 0 (by decide) uid o.flags i).trans ?_
      by_cases hi : i = 0 <;> simp [SpawnEvent.bit?, hi]
  | setGid gid =>
    cases windows with
    | true => rfl
    | false =>
      refine (getLsbD_withId 1 (by decide) gid o.flags i).trans ?_
      by_cases hi : i = 1 <;> simp [SpawnEvent.bit?, hi]
  | spawn file args flags ret =>
    dsimp only [SpawnOptions.apply, SpawnEvent.bit?]
    rw [BitVec.getLsbD_or]
    cases flags.getLsbD i <;> simp
  | _ => rfl

/-! ## What a child process is started with -/

/-- The options after the calls `ds`: each is that of the last call that concerns it, a flag
that is not of an identifier is set once any `spawn` was given it. -/
structure Passed (windows : Bool) (ds : List SpawnEvent) (o : SpawnOptions) : Prop where
  file : o.file = lastWrite SpawnEvent.file? 0 ds
  args : o.args = lastWrite SpawnEvent.args? 0 ds
  env : o.env = lastWrite SpawnEvent.env? 0 ds
  cwd : o.cwd = lastWrite SpawnEvent.cwd? 0 ds
  uid : o.uid = lastWrite (SpawnEvent.uid? windows) 0 ds
  gid : o.gid = lastWrite (SpawnEvent.gid? windows) 0 ds
  flags : ∀ i, o.flags.getLsbD i = lastWrite (SpawnEvent.bit? windows i) false ds
  sticky : ∀ i, 2 ≤ i →
    (o.flags.getLsbD i = true ↔ ∃ file args flags ret, .spawn file args flags ret ∈ ds ∧ flags.getLsbD i = true)

/-- A flag other than those of the identifiers is never cleared. -/
theorem lastWrite_bit {i : ℕ} (hi : 2 ≤ i) (ds : List SpawnEvent) :
    lastWrite (SpawnEvent.bit? windows i) false ds = true ↔
      ∃ file args flags ret, SpawnEvent.spawn file args flags ret ∈ ds ∧ flags.getLsbD i = true := by
  induction ds using List.reverseRecOn with
  | nil => simp [lastWrite]
  | append_singleton ds d ih =>
    rw [lastWrite_concat]
    have h0 : i ≠ 0 := by omega
    have h1 : i ≠ 1 := by omega
    cases d with
    | spawn file args flags ret =>
      cases hf : flags.getLsbD i with
      | true =>
        have hset : SpawnEvent.bit? windows i (.spawn file args flags ret) = some true := if_pos hf
        rw [hset]
        refine ⟨fun _ => ⟨file, args, flags, ret, ?_, hf⟩, fun _ => rfl⟩
        exact List.mem_append_right _ (List.mem_singleton_self _)
      | false =>
        have hset : SpawnEvent.bit? windows i (.spawn file args flags ret) = none := if_neg (by rw [hf]; decide)
        rw [hset]
        refine ih.trans ⟨?_, ?_⟩
        · rintro ⟨f, a, fl, r, hmem, hbit⟩
          exact ⟨f, a, fl, r, List.mem_append_left _ hmem, hbit⟩
        · rintro ⟨f, a, fl, r, hmem, hbit⟩
          rcases List.mem_append.mp hmem with hmem | hmem
          · exact ⟨f, a, fl, r, hmem, hbit⟩
          · cases List.mem_singleton.mp hmem
            rw [hf] at hbit
            cases hbit
    | _ => simp [SpawnEvent.bit?, h0, h1, ih]

/-- A part of the options that each call writes or keeps. -/
theorem options_register {V : Type*} {f : SpawnOptions → V} {w : SpawnEvent → Option V}
    (h : ∀ o e, f (o.apply windows e) = (w e).getD (f o)) (es : List SpawnEvent) :
    f (final (Spawner.step windows) .init es).options =
      lastWrite w (f .init) ((taken (Spawner.step windows) .init es).map Prod.snd) := by
  refine final_register w (f := fun s : Spawner => f s.options) ?_ es _
  intro s e t hstep
  rw [step_options hstep]
  exact h _ e

theorem passed (windows : Bool) (es : List SpawnEvent) :
    Passed windows ((taken (Spawner.step windows) .init es).map Prod.snd) (final (Spawner.step windows) .init es).options := by
  have hflags : ∀ i, (final (Spawner.step windows) .init es).options.flags.getLsbD i =
      lastWrite (SpawnEvent.bit? windows i) false ((taken (Spawner.step windows) .init es).map Prod.snd) := by
    intro i
    have h := options_register (f := fun o => o.flags.getLsbD i) (fun o e => apply_flags windows o e i) es
    rwa [show SpawnOptions.init.flags.getLsbD i = false by simp [SpawnOptions.init]] at h
  refine ⟨?_, ?_, ?_, ?_, ?_, ?_, hflags, ?_⟩
  · apply options_register (f := SpawnOptions.file)
    intro o e
    cases e <;> cases windows <;> rfl
  · apply options_register (f := SpawnOptions.args)
    intro o e
    cases e <;> cases windows <;> rfl
  · apply options_register (f := SpawnOptions.env)
    intro o e
    cases e <;> cases windows <;> rfl
  · apply options_register (f := SpawnOptions.cwd)
    intro o e
    cases e <;> cases windows <;> rfl
  · apply options_register (f := SpawnOptions.uid)
    intro o e
    cases e <;> cases windows <;> rfl
  · apply options_register (f := SpawnOptions.gid)
    intro o e
    cases e <;> cases windows <;> rfl
  · intro i hi
    rw [hflags]
    exact lastWrite_bit hi _

/-- The calls about descriptors keep their records in step. -/
def KeepsDescriptors (s : Spawner) : SpawnEvent → Prop
  | .stdio e => s.toStdio.KeepsStep e
  | _ => True

theorem descriptors_step (hs : s.toStdio.Inv) (hok : KeepsDescriptors s e) (h : s.step windows e = some t) :
    t.toStdio.Inv := by
  cases e with
  | stdio e =>
    obtain ⟨u, hu, rfl⟩ := Option.map_eq_some_iff.mp h
    exact hs.step hok hu
  | spawn file args flags ret =>
    cases h
    obtain ⟨⟨balanced, fresh, count, small, sizes, pointer, entries⟩, used, kept⟩ := hs
    exact ⟨⟨balanced, fresh, count, small, sizes, pointer, entries⟩, used, kept⟩
  | _ => cases h; exact hs

/-- What every `uv_spawn()` is given: the options as the calls before have written them,
and descriptors that are in step with the streams that the process keeps alive. -/
theorem spawn_options (windows : Bool) (es : List SpawnEvent) :
    Passed windows ((taken (Spawner.step windows) .init es).map Prod.snd) (final (Spawner.step windows) .init es).options ∧
    ((∀ p ∈ taken (Spawner.step windows) .init es, KeepsDescriptors p.1 p.2) →
      (final (Spawner.step windows) .init es).InStep) := by
  refine ⟨passed windows es, fun hok => ?_⟩
  have hinv := visited_guarded (fun _ _ _ hs hok h => descriptors_step hs hok h) es Spawner.init Stdio.inv_init hok
  exact (hinv _ (final_visited es _)).inStep

def detachedTwice : List SpawnEvent :=
  [.setUid 1000#32, .stdio (.inheritFd 1 1), .stdio (.createPipe 0 0 true false), .spawn 1 2 8#32 0,
    .setUid (BitVec.allOnes 32), .stdio (.inheritFd 3 2), .spawn 3 4 0#32 0]

theorem detached_again : (final (Spawner.step false) .init detachedTwice).options.flags = 8#32 ∧
    (final (Spawner.step false) .init detachedTwice).InStep := by
  refine ⟨by decide, (spawn_options false detachedTwice).2 fun p hp => ?_⟩
  fin_cases hp
  · trivial
  · exact ⟨by decide, nofun⟩
  · exact ⟨by decide, nofun⟩
  · trivial
  · trivial
  · exact ⟨by decide, nofun⟩
  · trivial

end Uvcc.Process
