import Uvcc.Counting.Ledger
import Uvcc.Counting.Slots
import Uvcc.Machine.Trace

/-!
# The stdio configuration of a process

What `uv_spawn()` is told about the child's descriptors is kept in three places: the
containers, the options that point to them, and the endpoints, which keep the streams in
the containers alive. Each call writes some of them.
-/
namespace Uvcc.Process
open Counting Machine

/-- `io::type()`, as far as the switch distinguishes it. -/
inductive IoType where
  | namedPipe
  | stream
  | tcp
  | tty
  | file
  | other
  deriving DecidableEq, Repr

def IoType.isStream : IoType → Bool
  | .namedPipe | .stream | .tcp | .tty => true
  | .file | .other => false

/-- An instance behind an `io` variable; its number is never used again. -/
structure Io where
  id : ℕ
  type : IoType
  deriving DecidableEq, Repr

/-- `uv_stdio_flags`; the direction of a pipe goes into its flags. -/
inductive StdioFlags where
  | ignore
  | createPipe (readable writable : Bool)
  | inheritFd
  | inheritStream
  deriving DecidableEq, Repr

def StdioFlags.hasStream : StdioFlags → Bool
  | .createPipe _ _ | .inheritStream => true
  | .ignore | .inheritFd => false

/-- The union in a container. -/
inductive StdioData where
  | stream (id : ℕ)
  | fd (fd : ℤ)
  deriving DecidableEq, Repr

structure Container where
  flags : StdioFlags
  data : StdioData
  deriving DecidableEq, Repr

def Container.ignored : Container := ⟨.ignore, .fd (-1)⟩

/-- The branches of `inherit_stdio` for an endpoint; `fd` is what a file has as its descriptor. -/
def Container.inherit (o : Io) (fd : ℤ) : Container :=
  match o.type with
  | .namedPipe | .stream | .tcp | .tty => ⟨.inheritStream, .stream o.id⟩
  | .file => ⟨.inheritFd, .fd fd⟩
  | .other => .ignored

def resize {α : Type*} (l : List α) (k : ℕ) (a : α) : List α := l.take k ++ List.replicate (k - l.length) a

/-- The variables, void ones included, and the properties of the process. `storage` stands
for the address of the containers, which a resize may change; the null pointer is 0. `used`
are the descriptor numbers of all calls, and `kept` tells whether the calls that returned an
error have left the configuration as it was. -/
structure Stdio where
  mem : Ledger Io
  next : ℕ
  vars : List (Option Io)
  containers : List Container
  endpoints : List (Option Io)
  storage : ℕ
  stdio : ℕ
  stdioCount : ℤ
  uvError : ℤ
  used : List ℕ
  kept : Bool

/-- What the program does to the `io` variables, and the three functions. An argument is
copied or moved from a variable. -/
inductive StdioEvent where
  | create (type : IoType)
  | copy (i : ℕ)
  | copyEndpoint (i : ℕ)
  | drop (i : ℕ)
  | inheritIo (n i : ℕ) (moved : Bool) (fd : ℤ)
  | inheritFd (n : ℕ) (fd : ℤ)
  | createPipe (n : ℕ) (ret : ℤ) (readable writable : Bool)
  deriving DecidableEq, Repr

namespace Stdio

def init : Stdio where
  mem := .empty
  next := 0
  vars := []
  containers := []
  endpoints := []
  storage := 0
  stdio := 0
  stdioCount := 0
  uvError := 0
  used := []
  kept := true

def ref? (s : Stdio) (o : Option Io) : Stdio := { s with mem := s.mem.incs o.toList }

def unref? (s : Stdio) (o : Option Io) : Stdio := { s with mem := s.mem.decs o.toList }

/-- `ensure_stdio_number`: `n + 1` is unsigned, and `stdio_count` an `int`. -/
def ensureStdioNumber (s : Stdio) (n : ℕ) : Stdio :=
  if n < s.containers.length then s
  else
    let k := (n + 1) % 2 ^ 32
    { s with
      mem := s.mem.decs ((s.endpoints.drop k).filterMap id)
      containers := resize s.containers k .ignored
      endpoints := resize s.endpoints k none
      storage := s.storage + 1
      stdio := s.storage + 1
      stdioCount := Int.bmod k (2 ^ 32) }

def assign (s : Stdio) (n : ℕ) (o : Option Io) : Stdio :=
  { s with endpoints := s.endpoints.set n o }.unref? s.endpoints[n]?.join

/-- `inherit_stdio` for the argument `o`, which has its own reference. -/
def inheritIo (s : Stdio) (n : ℕ) (o : Option Io) (fd : ℤ) : Stdio :=
  let s1 := s.ensureStdioNumber n
  let s2 := match o with
    | some a => { s1 with containers := s1.containers.set n (.inherit a fd) }
    | none => s1
  s2.assign n o

def inheritFd (s : Stdio) (n : ℕ) (fd : ℤ) : Stdio :=
  let s1 := s.ensureStdioNumber n
  { s1 with containers := s1.containers.set n ⟨.inheritFd, .fd fd⟩ }

def config (s : Stdio) : List Container × List (Option Io) × ℕ × ℤ :=
  (s.containers, s.endpoints, s.stdio, s.stdioCount)

/-- `create_stdio_pipe`; `ret` is the answer of `uv_pipe_init()`. -/
def createPipe (s : Stdio) (n : ℕ) (ret : ℤ) (readable writable : Bool) : Stdio :=
  let s1 := s.ensureStdioNumber n
  let p : Io := ⟨s1.next, .namedPipe⟩
  let s2 := { s1 with mem := s1.mem.create p, next := s1.next + 1 }
  if ret < 0 then
    let s3 := { s2 with uvError := ret }.unref? (some p)
    { s3 with kept := s3.kept && decide (s3.config = s.config) }
  else
    { s2 with containers := s2.containers.set n ⟨.createPipe readable writable, .stream p.id⟩ }.assign n (some p)

def argument (s : Stdio) (i : ℕ) (o : Option Io) (moved : Bool) : Stdio :=
  if moved then { s with vars := s.vars.set i none } else s.ref? o

/-- `n` is an `unsigned`. -/
def step (s : Stdio) : StdioEvent → Option Stdio
  | .create type =>
    let o : Io := ⟨s.next, type⟩
    some { s with mem := s.mem.create o, next := s.next + 1, vars := s.vars ++ [some o] }
  | .copy i => s.vars[i]?.map fun o => { s.ref? o with vars := s.vars ++ [o] }
  | .copyEndpoint i => s.endpoints[i]?.map fun o => { s.ref? o with vars := s.vars ++ [o] }
  | .drop i => s.vars[i]?.map fun o => { s with vars := s.vars.set i none }.unref? o
  | .inheritIo n i moved fd =>
    if n < 2 ^ 32 then
      s.vars[i]?.map fun o => (({ s with used := n :: s.used }.argument i o moved).inheritIo n o fd)
    else none
  | .inheritFd n fd =>
    if n < 2 ^ 32 then some ({ s with used := n :: s.used }.inheritFd n fd) else none
  | .createPipe n ret readable writable =>
    if n < 2 ^ 32 then some ({ s with used := n :: s.used }.createPipe n ret readable writable) else none

/-! ## The three records in step -/

/-- A container with a stream has that of its endpoint, and one with a descriptor has no
stream beside it. -/
structure Matches (c : Container) (o : Option Io) : Prop where
  stream : c.flags.hasStream = true → ∃ a, o = some a ∧ a.type.isStream = true ∧ c.data = .stream a.id
  fd : c.flags = .inheritFd → ∀ a, o = some a → a.type.isStream = false

structure InStep (s : Stdio) : Prop where
  count : s.stdioCount = s.containers.length
  sizes : s.endpoints.length = s.containers.length
  used : ∀ n ∈ s.used, n < s.containers.length
  pointer : s.stdio = s.storage
  entries : ∀ (i : ℕ) (c : Container) (o : Option Io),
    s.containers[i]? = some c → s.endpoints[i]? = some o → Matches c o
  alive : ∀ a, some a ∈ s.endpoints → s.mem.status a = .live
  kept : s.kept = true

def holders (s : Stdio) (H : Multiset Io) : Multiset Io := slotHolders s.endpoints + (slotHolders s.vars + H)

/-- What the parts of a call keep, with the references `H` in its hands. -/
structure Sound (s : Stdio) (H : Multiset Io) : Prop where
  balanced : s.mem.Balanced (s.holders H)
  fresh : ∀ a : Io, s.next ≤ a.id → s.mem.status a = .unborn
  count : s.stdioCount = s.containers.length
  small : s.containers.length < 2 ^ 31
  sizes : s.endpoints.length = s.containers.length
  pointer : s.stdio = s.storage
  entries : ∀ (i : ℕ) (c : Container) (o : Option Io),
    s.containers[i]? = some c → s.endpoints[i]? = some o → Matches c o

structure Inv (s : Stdio) : Prop where
  sound : s.Sound 0
  used : ∀ n ∈ s.used, n < s.containers.length
  kept : s.kept = true

/-- The number is below `INT_MAX`, and nothing is replaced by half: a void argument does not
come over a stream in the container, a descriptor does not come over a stream among the
endpoints, and a pipe that fails has its place already. -/
def KeepsStep (s : Stdio) : StdioEvent → Prop
  | .inheritIo n i _ _ => n + 1 < 2 ^ 31 ∧
    (s.vars[i]? = some none → ∀ c, s.containers[n]? = some c → c.flags.hasStream = false)
  | .inheritFd n _ => n + 1 < 2 ^ 31 ∧ ∀ a, s.endpoints[n]? = some (some a) → a.type.isStream = false
  | .createPipe n ret _ _ => n + 1 < 2 ^ 31 ∧ (ret < 0 → n < s.containers.length)
  | _ => True

variable {s t : Stdio} {H : Multiset Io} {n : ℕ}

theorem Inv.inStep (hs : s.Inv) : s.InStep where
  count := hs.sound.count
  sizes := hs.sound.sizes
  used := hs.used
  pointer := hs.sound.pointer
  entries := hs.sound.entries
  alive a ha := by
    obtain ⟨i, hi⟩ := List.mem_iff_getElem?.mp ha
    exact hs.sound.balanced.live (Multiset.mem_add.mpr (.inl (mem_slotHolders hi)))
  kept := hs.kept

theorem inv_init : init.Inv where
  sound := by
    refine ⟨Ledger.Balanced.empty, fun _ _ => rfl, rfl, by decide, rfl, rfl, ?_⟩
    intro i c o hc
    simp [init] at hc
  used := nofun
  kept := rfl

/-! ## Making room -/

theorem matches_ignored (o : Option Io) : Matches .ignored o := ⟨nofun, nofun⟩

theorem length_resize {α : Type*} (l : List α) (k : ℕ) (a : α) : (resize l k a).length = k := by
  rw [resize, List.length_append, List.length_take, List.length_replicate]
  omega

/-- A resize that makes the list longer. -/
theorem getElem?_resize {α : Type*} {l : List α} {k : ℕ} (hk : l.length ≤ k) (a : α) (i : ℕ) :
    (resize l k a)[i]? = if i < l.length then l[i]? else if i < k then some a else none := by
  rw [resize, List.take_of_length_le hk, List.getElem?_append, List.getElem?_replicate]
  split_ifs with h1 h2 h3 h4
  · rfl
  · rfl
  · omega
  · omega
  · rfl

theorem slotHolders_resize {l : List (Option Io)} {k : ℕ} (hk : l.length ≤ k) :
    slotHolders (resize l k none) = slotHolders l := by
  rw [resize, List.take_of_length_le hk]
  simp [slotHolders, List.filterMap_append]

/-- The number fits if the sizes agree afterwards. -/
theorem near_of_ensure (hsmall : s.containers.length < 2 ^ 31) (hn : n < 2 ^ 32)
    (hcount : (s.ensureStdioNumber n).stdioCount = (s.ensureStdioNumber n).containers.length)
    (hlt : n < (s.ensureStdioNumber n).containers.length) : n + 1 < 2 ^ 31 := by
  unfold ensureStdioNumber at hcount hlt
  split_ifs at hcount hlt with h
  · omega
  · dsimp only at hcount
    rw [length_resize] at hcount hlt
    have hmax := Int.bmod_lt (x := (((n + 1) % 2 ^ 32 : ℕ) : ℤ)) (m := 2 ^ 32) (by decide)
    omega

structure Grown (s t : Stdio) (n : ℕ) : Prop where
  room : n < t.containers.length
  length : s.containers.length ≤ t.containers.length
  container : ∀ c, t.containers[n]? = some c → s.containers[n]? = some c ∨ c = .ignored
  endpoint : ∀ o, t.endpoints[n]? = some o → s.endpoints[n]? = some o ∨ o = none
  vars : t.vars = s.vars
  used : t.used = s.used
  kept : t.kept = s.kept

theorem ensure_grown (hs : s.Sound H) (hn : n + 1 < 2 ^ 31) : Grown s (s.ensureStdioNumber n) n := by
  unfold ensureStdioNumber
  split_ifs with h
  · exact ⟨h, le_rfl, fun _ hc => .inl hc, fun _ ho => .inl ho, rfl, rfl, rfl⟩
  · have hk : (n + 1) % 2 ^ 32 = n + 1 := Nat.mod_eq_of_lt (by omega)
    simp only [hk]
    have hsizes := hs.sizes
    refine ⟨?_, ?_, fun c hc => ?_, fun o ho => ?_, rfl, rfl, rfl⟩
    · rw [length_resize]
      omega
    · rw [length_resize]
      omega
    · rw [getElem?_resize (by omega), if_neg h, if_pos (by omega)] at hc
      exact .inr (Option.some.inj hc).symm
    · rw [getElem?_resize (by omega), if_neg (by omega), if_pos (by omega)] at ho
      exact .inr (Option.some.inj ho).symm

theorem Sound.ensure (hs : s.Sound H) (hn : n + 1 < 2 ^ 31) : (s.ensureStdioNumber n).Sound H := by
  unfold ensureStdioNumber
  split_ifs with h
  · exact hs
  · have hk : (n + 1) % 2 ^ 32 = n + 1 := Nat.mod_eq_of_lt (by omega)
    have hsizes := hs.sizes
    have hdrop : s.endpoints.drop (n + 1) = [] := List.drop_eq_nil_of_le (by omega)
    simp only [hk, hdrop]
    refine ⟨?_, hs.fresh, ?_, ?_, ?_, rfl, fun i c o hc ho => ?_⟩
    · have hh : slotHolders (resize s.endpoints (n + 1) none) = slotHolders s.endpoints :=
        slotHolders_resize (by omega)
      simp only [holders, hh]
      exact hs.balanced
    · dsimp only
      rw [length_resize]
      exact Int.bmod_eq_of_le (by omega) (by omega)
    · rw [length_resize]
      omega
    · rw [length_resize, length_resize]
    · rw [getElem?_resize (by omega)] at hc ho
      rw [hsizes] at ho
      split_ifs at hc ho with h1 h2
      · exact hs.entries i c o hc ho
      · obtain rfl := Option.some.inj hc
        exact matches_ignored o

/-! ## References in hand -/

theorem Sound.create (hs : s.Sound 0) (type : IoType) :
    Sound { s with mem := s.mem.create ⟨s.next, type⟩, next := s.next + 1 } ↑(some (⟨s.next, type⟩ : Io)).toList := by
  have hcreate := hs.balanced.create (hs.fresh ⟨s.next, type⟩ le_rfl)
  refine ⟨?_, fun a ha => ?_, hs.count, hs.small, hs.sizes, hs.pointer, hs.entries⟩
  · have hh : (⟨s.next, type⟩ : Io) ::ₘ s.holders 0 =
        slotHolders s.endpoints + (slotHolders s.vars + ↑(some (⟨s.next, type⟩ : Io)).toList) := by
      rw [holders, Option.toList_some, Multiset.coe_singleton, ← Multiset.singleton_add]
      abel
    rw [hh] at hcreate
    exact hcreate
  · have hne : a ≠ ⟨s.next, type⟩ := by
      rintro rfl
      simp at ha
    dsimp only at ha
    simp only [Ledger.create, Function.update_of_ne hne]
    exact hs.fresh a (by omega)

theorem Sound.ref? (hs : s.Sound 0) {o : Option Io} (ho : ∀ a, o = some a → a ∈ s.holders 0) :
    (s.ref? o).Sound ↑o.toList := by
  cases o with
  | none => exact hs
  | some a =>
    refine ⟨?_, fun b hb => ?_, hs.count, hs.small, hs.sizes, hs.pointer, hs.entries⟩
    · have hinc := hs.balanced.inc (ho a rfl)
      have hh : a ::ₘ s.holders 0 = slotHolders s.endpoints + (slotHolders s.vars + ↑(some a).toList) := by
        rw [holders, Option.toList_some, Multiset.coe_singleton, ← Multiset.singleton_add]
        abel
      rw [hh] at hinc
      exact hinc
    · have hu := hs.fresh b hb
      simpa [Stdio.ref?, Ledger.incs] using hu

theorem Sound.unref? {o : Option Io} (hs : s.Sound (↑o.toList + H)) : (s.unref? o).Sound H := by
  refine ⟨?_, fun b hb => ?_, hs.count, hs.small, hs.sizes, hs.pointer, hs.entries⟩
  · apply Ledger.Balanced.decs
    have hh : ↑o.toList + (s.unref? o).holders H = s.holders (↑o.toList + H) := by
      simp only [holders, Stdio.unref?]
      abel
    rw [hh]
    exact hs.balanced
  · have hu := hs.fresh b hb
    cases o with
    | none => exact hu
    | some a => simpa [Stdio.unref?, Ledger.decs] using hu

/-- A variable takes over what the call has in its hands. -/
theorem Sound.keep {o : Option Io} (hs : s.Sound ↑o.toList) : Sound { s with vars := s.vars ++ [o] } 0 := by
  refine ⟨?_, hs.fresh, hs.count, hs.small, hs.sizes, hs.pointer, hs.entries⟩
  have hh : holders { s with vars := s.vars ++ [o] } 0 = s.holders ↑o.toList := by
    simp only [holders, slotHolders_append]
    abel
  rw [hh]
  exact hs.balanced

theorem Sound.take (hs : s.Sound 0) {i : ℕ} {o : Option Io} (ho : s.vars[i]? = some o) :
    Sound { s with vars := s.vars.set i none } ↑o.toList := by
  refine ⟨?_, hs.fresh, hs.count, hs.small, hs.sizes, hs.pointer, hs.entries⟩
  have hset := slotHolders_set s.vars ho none
  have hh : holders { s with vars := s.vars.set i none } ↑o.toList = s.holders 0 := by
    simp only [holders, hset]
    simp
  rw [hh]
  exact hs.balanced

theorem mem_holders_vars {i : ℕ} {a : Io} (h : s.vars[i]? = some (some a)) : a ∈ s.holders H :=
  Multiset.mem_add.mpr (.inr (Multiset.mem_add.mpr (.inl (mem_slotHolders h))))

theorem mem_holders_endpoints {i : ℕ} {a : Io} (h : s.endpoints[i]? = some (some a)) : a ∈ s.holders H :=
  Multiset.mem_add.mpr (.inl (mem_slotHolders h))

theorem Sound.argument (hs : s.Sound 0) {i : ℕ} {o : Option Io} (ho : s.vars[i]? = some o) (moved : Bool) :
    (s.argument i o moved).Sound ↑o.toList := by
  cases moved with
  | true => exact hs.take ho
  | false => exact hs.ref? fun a ha => mem_holders_vars (ha ▸ ho)

/-! ## Writing an entry -/

theorem Sound.setContainer (hs : s.Sound H) {c : Container}
    (hc : ∀ o, s.endpoints[n]? = some o → Matches c o) :
    Sound { s with containers := s.containers.set n c } H := by
  refine ⟨hs.balanced, hs.fresh, ?_, ?_, ?_, hs.pointer, fun i d o hd ho => ?_⟩
  · simpa using hs.count
  · simpa using hs.small
  · simpa using hs.sizes
  · dsimp only at hd ho
    rw [List.getElem?_set] at hd
    split_ifs at hd with h1 h2
    · subst h1
      obtain rfl := Option.some.inj hd
      exact hc o ho
    · exact hs.entries i d o hd ho

/-- The container and the endpoint at an index are written together. -/
theorem Sound.write {o : Option Io} (hs : s.Sound (↑o.toList + H)) (hn : n < s.containers.length)
    {c : Container} (hc : Matches c o) :
    (assign { s with containers := s.containers.set n c } n o).Sound H := by
  obtain ⟨u, hu⟩ : ∃ u, s.endpoints[n]? = some u :=
    ⟨_, List.getElem?_eq_getElem (by rw [hs.sizes]; exact hn)⟩
  have hset := slotHolders_set s.endpoints hu o
  have hjoin : s.endpoints[n]?.join = u := by rw [hu]; rfl
  refine Sound.unref? (o := s.endpoints[n]?.join)
    ⟨?_, hs.fresh, ?_, ?_, ?_, hs.pointer, fun i d v hd hv => ?_⟩
  · have hh : slotHolders (s.endpoints.set n o) + (slotHolders s.vars + (↑u.toList + H)) =
        s.holders (↑o.toList + H) := by
      rw [holders, add_left_comm (slotHolders s.vars), ← add_assoc, hset]
      abel
    simp only [holders, hjoin, hh]
    exact hs.balanced
  · simpa using hs.count
  · simpa using hs.small
  · simpa using hs.sizes
  · dsimp only at hd hv
    rw [List.getElem?_set] at hd hv
    rw [hs.sizes] at hv
    split_ifs at hd hv
    · obtain rfl := Option.some.inj hd
      obtain rfl := Option.some.inj hv
      exact hc
    · exact hs.entries i d v hd hv

theorem matches_inherit (a : Io) (fd : ℤ) : Matches (.inherit a fd) (some a) := by
  obtain ⟨id, type⟩ := a
  constructor
  · intro h
    refine ⟨⟨id, type⟩, rfl, ?_⟩
    cases type <;> first | exact ⟨rfl, rfl⟩ | cases h
  · intro h b hb
    obtain rfl := Option.some.inj hb
    cases type <;> first | rfl | cases h

theorem matches_createPipe (a : Io) (ha : a.type = .namedPipe) (readable writable : Bool) :
    Matches ⟨.createPipe readable writable, .stream a.id⟩ (some a) :=
  ⟨fun _ => ⟨a, rfl, by rw [ha]; rfl, rfl⟩, nofun⟩

theorem Sound.inheritIo {o : Option Io} (hs : s.Sound (↑o.toList + H)) (hn : n + 1 < 2 ^ 31)
    (hvoid : o = none → ∀ c, s.containers[n]? = some c → c.flags.hasStream = false) (fd : ℤ) :
    (s.inheritIo n o fd).Sound H := by
  have hg := ensure_grown hs hn
  have hsound := hs.ensure hn
  cases o with
  | some a => exact hsound.write hg.room (matches_inherit a fd)
  | none =>
    obtain ⟨c, hc⟩ : ∃ c, (s.ensureStdioNumber n).containers[n]? = some c :=
      ⟨_, List.getElem?_eq_getElem hg.room⟩
    have hflags : c.flags.hasStream = false := by
      rcases hg.container c hc with hold | rfl
      · exact hvoid rfl c hold
      · rfl
    have hsame : (s.ensureStdioNumber n).containers.set n c = (s.ensureStdioNumber n).containers := by
      obtain ⟨hlt, rfl⟩ := List.getElem?_eq_some_iff.mp hc
      exact List.set_getElem_self hlt
    have hwrite := hsound.write hg.room (c := c) (o := none)
      ⟨fun h => absurd h (by rw [hflags]; decide), fun _ _ h => nomatch h⟩
    rw [hsame] at hwrite
    exact hwrite

theorem Sound.inheritFd (hs : s.Sound H) (hn : n + 1 < 2 ^ 31)
    (hfd : ∀ a, s.endpoints[n]? = some (some a) → a.type.isStream = false) (fd : ℤ) :
    (s.inheritFd n fd).Sound H := by
  refine (hs.ensure hn).setContainer fun o ho => ⟨nofun, fun _ a ha => ?_⟩
  subst ha
  rcases (ensure_grown hs hn).endpoint _ ho with hold | hnew
  · exact hfd a hold
  · cases hnew

theorem Sound.createPipe (hs : s.Sound 0) (hn : n + 1 < 2 ^ 31) (ret : ℤ) (readable writable : Bool) :
    (s.createPipe n ret readable writable).Sound 0 := by
  have hcreate := (hs.ensure hn).create .namedPipe
  have hfailed := hcreate
  rw [← add_zero (↑(some (⟨(s.ensureStdioNumber n).next, .namedPipe⟩ : Io)).toList : Multiset Io)] at hfailed
  unfold Stdio.createPipe
  split_ifs
  · have hun := Sound.unref? (o := some ⟨(s.ensureStdioNumber n).next, .namedPipe⟩) hfailed
    exact ⟨hun.balanced, hun.fresh, hun.count, hun.small, hun.sizes, hun.pointer, hun.entries⟩
  · exact hfailed.write (ensure_grown hs hn).room (matches_createPipe _ rfl readable writable)

/-! ## The calls -/

/-- A call makes room for its number and leaves it at that. -/
structure Calls (s t : Stdio) (n : ℕ) : Prop where
  length : t.containers.length = (s.ensureStdioNumber n).containers.length
  count : t.stdioCount = (s.ensureStdioNumber n).stdioCount
  used : t.used = s.used

theorem ensure_used (s : Stdio) (n : ℕ) : (s.ensureStdioNumber n).used = s.used := by
  unfold ensureStdioNumber
  split_ifs <;> rfl

theorem inheritIo_calls (s : Stdio) (n : ℕ) (o : Option Io) (fd : ℤ) : Calls s (s.inheritIo n o fd) n := by
  cases o with
  | some a => exact ⟨List.length_set, rfl, ensure_used s n⟩
  | none => exact ⟨rfl, rfl, ensure_used s n⟩

theorem inheritFd_calls (s : Stdio) (n : ℕ) (fd : ℤ) : Calls s (s.inheritFd n fd) n :=
  ⟨List.length_set, rfl, ensure_used s n⟩

theorem createPipe_calls (s : Stdio) (n : ℕ) (ret : ℤ) (readable writable : Bool) :
    Calls s (s.createPipe n ret readable writable) n := by
  unfold Stdio.createPipe
  split_ifs
  · exact ⟨rfl, rfl, ensure_used s n⟩
  · exact ⟨List.length_set, rfl, ensure_used s n⟩

theorem inheritIo_kept (hs : s.Sound H) (hn : n + 1 < 2 ^ 31) (o : Option Io) (fd : ℤ) :
    (s.inheritIo n o fd).kept = s.kept := by
  have hg := ensure_grown hs hn
  cases o with
  | some a => exact hg.kept
  | none => exact hg.kept

/-- A failing call keeps the configuration if there was room. -/
theorem createPipe_kept (hs : s.Sound 0) (hn : n + 1 < 2 ^ 31) {ret : ℤ} (readable writable : Bool)
    (hroom : ret < 0 → n < s.containers.length) : (s.createPipe n ret readable writable).kept = s.kept := by
  unfold Stdio.createPipe
  split_ifs with hret
  · have hid : s.ensureStdioNumber n = s := if_pos (hroom hret)
    simp only [hid]
    have hconfig : decide (s.config = s.config) = true := decide_eq_true rfl
    exact (congrArg (s.kept && ·) hconfig).trans (Bool.and_true _)
  · exact (ensure_grown hs hn).kept

/-- Without room it has made some. -/
theorem createPipe_not_kept (hs : s.Sound 0) (hn : n + 1 < 2 ^ 31) {ret : ℤ} (readable writable : Bool)
    (hret : ret < 0) (hroom : s.containers.length ≤ n) :
    (s.createPipe n ret readable writable).kept = false := by
  have hg := (ensure_grown hs hn).room
  unfold Stdio.createPipe
  rw [if_pos hret]
  refine (Bool.and_eq_false_iff).mpr (.inr (decide_eq_false fun heq => ?_))
  have hlen : (s.ensureStdioNumber n).containers.length = s.containers.length :=
    congrArg (fun c => c.1.length) heq
  omega

/-- The numbers used so far have room after a call. -/
theorem Calls.used_room {u : Stdio} (h : Calls u t n) (hg : Grown u (u.ensureStdioNumber n) n)
    (hu : ∀ m ∈ u.used, m = n ∨ m < u.containers.length) : ∀ m ∈ t.used, m < t.containers.length := by
  intro m hm
  rw [h.used] at hm
  rw [h.length]
  rcases hu m hm with rfl | hlt
  · exact hg.room
  · exact hlt.trans_le hg.length

/-- A call whose number does not fit does not leave the sizes equal. -/
theorem Calls.near {u : Stdio} (h : Calls u t n) (hsmall : u.containers.length < 2 ^ 31) (hn : n < 2 ^ 32)
    (hmem : n ∈ u.used) (ht : t.InStep) : n + 1 < 2 ^ 31 := by
  refine near_of_ensure hsmall hn ?_ ?_
  · rw [← h.count, ← h.length]
    exact ht.count
  · rw [← h.length]
    exact ht.used n (h.used ▸ hmem)

theorem Sound.use (hs : s.Sound H) (n : ℕ) : Sound { s with used := n :: s.used } H :=
  ⟨hs.balanced, hs.fresh, hs.count, hs.small, hs.sizes, hs.pointer, hs.entries⟩

theorem Inv.use_room (hs : s.Inv) (n : ℕ) : ∀ m ∈ n :: s.used, m = n ∨ m < s.containers.length := by
  intro m hm
  rcases List.mem_cons.mp hm with rfl | hm
  · exact .inl rfl
  · exact .inr (hs.used m hm)

theorem argument_fields (s : Stdio) (i : ℕ) (o : Option Io) (moved : Bool) :
    (s.argument i o moved).containers = s.containers ∧ (s.argument i o moved).endpoints = s.endpoints ∧
      (s.argument i o moved).used = s.used ∧ (s.argument i o moved).kept = s.kept := by
  cases moved <;> exact ⟨rfl, rfl, rfl, rfl⟩

theorem Inv.step {e : StdioEvent} (hs : s.Inv) (hok : s.KeepsStep e) (h : s.step e = some t) : t.Inv := by
  cases e with
  | create type =>
    obtain rfl := Option.some.inj h
    exact ⟨(hs.sound.create type).keep, hs.used, hs.kept⟩
  | copy i =>
    obtain ⟨o, ho, rfl⟩ := Option.map_eq_some_iff.mp h
    exact ⟨(hs.sound.ref? fun a ha => mem_holders_vars (ha ▸ ho)).keep, hs.used, hs.kept⟩
  | copyEndpoint i =>
    obtain ⟨o, ho, rfl⟩ := Option.map_eq_some_iff.mp h
    exact ⟨(hs.sound.ref? fun a ha => mem_holders_endpoints (ha ▸ ho)).keep, hs.used, hs.kept⟩
  | drop i =>
    obtain ⟨o, ho, rfl⟩ := Option.map_eq_some_iff.mp h
    have htake := hs.sound.take ho
    rw [← add_zero (↑o.toList : Multiset Io)] at htake
    exact ⟨htake.unref?, hs.used, hs.kept⟩
  | inheritIo n i moved fd =>
    simp only [Stdio.step, Option.ite_none_right_eq_some] at h
    obtain ⟨_, hmap⟩ := h
    obtain ⟨o, ho, rfl⟩ := Option.map_eq_some_iff.mp hmap
    obtain ⟨hnear, hvoid⟩ := hok
    have harg : (argument { s with used := n :: s.used } i o moved).Sound ↑o.toList :=
      (hs.sound.use n).argument ho moved
    obtain ⟨hc, _, hu, hk⟩ := argument_fields { s with used := n :: s.used } i o moved
    have hroom := (inheritIo_calls _ n o fd).used_room (ensure_grown harg hnear)
      (by rw [hc, hu]; exact hs.use_room n)
    rw [← add_zero (↑o.toList : Multiset Io)] at harg
    refine ⟨harg.inheritIo hnear (fun hnone c hcn => ?_) fd, hroom, ?_⟩
    · rw [hc] at hcn
      exact hvoid (hnone ▸ ho) c hcn
    · exact (inheritIo_kept harg hnear o fd).trans (hk.trans hs.kept)
  | inheritFd n fd =>
    simp only [Stdio.step, Option.ite_none_right_eq_some, Option.some.injEq] at h
    obtain ⟨_, rfl⟩ := h
    obtain ⟨hnear, hfd⟩ := hok
    have huse := hs.sound.use n
    have hg := ensure_grown huse hnear
    exact ⟨huse.inheritFd hnear hfd fd, (inheritFd_calls _ n fd).used_room hg (hs.use_room n),
      hg.kept.trans hs.kept⟩
  | createPipe n ret readable writable =>
    simp only [Stdio.step, Option.ite_none_right_eq_some, Option.some.injEq] at h
    obtain ⟨_, rfl⟩ := h
    obtain ⟨hnear, hroom⟩ := hok
    have huse := hs.sound.use n
    exact ⟨huse.createPipe hnear ret readable writable,
      (createPipe_calls _ n ret readable writable).used_room (ensure_grown huse hnear) (hs.use_room n),
      (createPipe_kept huse hnear readable writable hroom).trans hs.kept⟩

/-! ## The calls that leave the records out of step -/

theorem ensure_of_lt (h : n < s.containers.length) : s.ensureStdioNumber n = s := if_pos h

theorem inheritIo_void {c : Container} (hs : s.Sound H) (hc : s.containers[n]? = some c) (fd : ℤ)
    (ht : (s.inheritIo n none fd).InStep) : c.flags.hasStream = false := by
  have hlt : n < s.containers.length := (List.getElem?_eq_some_iff.mp hc).1
  have hend : (s.endpoints.set n none)[n]? = some none := by
    rw [List.getElem?_set_self (by rw [hs.sizes]; exact hlt)]
  have hentry := ht.entries n c none
  simp only [Stdio.inheritIo, ensure_of_lt hlt] at hentry
  by_contra hstream
  obtain ⟨a, ha, _⟩ := (hentry hc hend).stream (Bool.not_eq_false _ ▸ hstream)
  cases ha

theorem inheritFd_stream {a : Io} (hs : s.Sound H) (ha : s.endpoints[n]? = some (some a)) (fd : ℤ)
    (ht : (s.inheritFd n fd).InStep) : a.type.isStream = false := by
  have hlt : n < s.containers.length := by
    rw [← hs.sizes]
    exact (List.getElem?_eq_some_iff.mp ha).1
  have hentry := ht.entries n ⟨.inheritFd, .fd fd⟩ (some a)
  simp only [Stdio.inheritFd, ensure_of_lt hlt] at hentry
  exact (hentry (List.getElem?_set_self hlt) ha).fd rfl a rfl

theorem not_inStep {e : StdioEvent} (hs : s.Inv) (hok : ¬ s.KeepsStep e) (h : s.step e = some t) :
    ¬ t.InStep := by
  intro ht
  cases e with
  | inheritIo n i moved fd =>
    simp only [Stdio.step, Option.ite_none_right_eq_some] at h
    obtain ⟨hn, hmap⟩ := h
    obtain ⟨o, ho, rfl⟩ := Option.map_eq_some_iff.mp hmap
    have harg : (argument { s with used := n :: s.used } i o moved).Sound ↑o.toList :=
      (hs.sound.use n).argument ho moved
    obtain ⟨hc, _, hu, _⟩ := argument_fields { s with used := n :: s.used } i o moved
    refine hok ⟨(inheritIo_calls _ n o fd).near ?_ hn ?_ ht, fun hvoid c hcn => ?_⟩
    · rw [hc]
      exact hs.sound.small
    · rw [hu]
      exact List.mem_cons_self
    · obtain rfl : o = none := Option.some.inj (ho.symm.trans hvoid)
      exact inheritIo_void harg (by rw [hc]; exact hcn) fd ht
  | inheritFd n fd =>
    simp only [Stdio.step, Option.ite_none_right_eq_some, Option.some.injEq] at h
    obtain ⟨hn, rfl⟩ := h
    have huse := hs.sound.use n
    refine hok ⟨?_, fun a ha => inheritFd_stream huse ha fd ht⟩
    exact (inheritFd_calls { s with used := n :: s.used } n fd).near huse.small hn List.mem_cons_self ht
  | createPipe n ret readable writable =>
    simp only [Stdio.step, Option.ite_none_right_eq_some, Option.some.injEq] at h
    obtain ⟨hn, rfl⟩ := h
    have hnear := (createPipe_calls { s with used := n :: s.used } n ret readable writable).near
      hs.sound.small hn List.mem_cons_self ht
    refine hok ⟨hnear, fun hret => ?_⟩
    by_contra hroom
    have hkept := createPipe_not_kept (hs.sound.use n) hnear readable writable hret (not_lt.mp hroom)
    rw [ht.kept] at hkept
    cases hkept
  | _ => exact hok trivial

end Stdio

/-- In every run the options, the containers and the endpoints are in step exactly as long
as each number is below `INT_MAX`, no call writes one record of an entry and leaves a stream
in the other, and no pipe fails whose place is not there yet. -/
theorem stdio_in_step_iff (es : List StdioEvent) :
    (∀ s ∈ visited Stdio.step Stdio.init es, s.InStep) ↔
      ∀ p ∈ taken Stdio.step Stdio.init es, p.1.KeepsStep p.2 :=
  visited_iff_guarded (fun _ hs => hs.inStep) (fun _ _ _ hs hok h => hs.step hok h)
    (fun _ _ _ hs hok h => Stdio.not_inStep hs hok h) es _ Stdio.inv_init

def voidOverPipe : List StdioEvent :=
  [.create .other, .drop 0, .createPipe 0 0 true false, .inheritIo 0 0 false 0]

/-- The container still points to the pipe, which is gone. -/
theorem stdio_dangling : ¬ ∀ es : List StdioEvent,
    ∀ s ∈ visited Stdio.step Stdio.init es, s.InStep := by
  intro h
  have hend := h voidOverPipe _ (final_visited _ _)
  obtain ⟨a, ha, _⟩ := (hend.entries 0 ⟨.createPipe true false, .stream 1⟩ none rfl rfl).stream rfl
  cases ha

end Uvcc.Process
