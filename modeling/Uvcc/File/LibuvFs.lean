import Mathlib.Tactic

/-!
# What libuv does with a `uv_fs_t`

libuv is no part of the code, and neither is what it keeps in a request: its functions are
a parameter. `Lawful` has what is relied on, that `uv_fs_req_cleanup()` deallocates what
libuv has allocated for a request and nothing else.
-/
namespace Uvcc.File

/-- What a pointer of a `uv_fs_t` refers to: a string of the caller, or memory of libuv. A
result that is inside of the request is no pointer here. -/
inductive Text where
  | null
  | caller (s : ℕ)
  | block (n : ℕ)
  deriving DecidableEq, Repr

def Text.caller? : Text → Option ℕ
  | .caller s => some s
  | _ => none

def Text.block? : Text → Option ℕ
  | .block n => some n
  | _ => none

inductive FsType where
  | custom | open | close | read | write | sendfile | stat | lstat | fstat | ftruncate
  | utime | futime | access | chmod | fchmod | fsync | fdatasync | unlink | rmdir | mkdir
  | mkdtemp | rename | scandir | link | symlink | readlink | chown | fchown | realpath
  deriving DecidableEq, Repr

/-- The fields that the code reads, and what else libuv keeps in a request. -/
structure UvFs (H : Type*) where
  fsType : FsType
  path : Text
  newPath : Text
  ptr : Text
  hidden : H

def UvFs.texts {H : Type*} (r : UvFs H) : List Text := [r.path, r.newPath, r.ptr]

/-- What a function of libuv leaves of a request, how many blocks it has allocated, and
what it has freed. -/
structure Effect (H : Type*) where
  req : UvFs H
  made : ℕ
  freed : List Text

def blocks (ps : List Text) : List ℕ := ps.filterMap Text.block?
def strays (ps : List Text) : List ℕ := ps.filterMap Text.caller?

/-- The `uv_fs_*()` functions, that of a type with or without a callback and on the strings
of the caller. A result has a size, and the last argument is the next block there will be.
A function that has found no memory leaves `noMemory`; what `cleanup` frees is `frees`. -/
structure FsLib (H : Type*) where
  zero : H
  call : FsType → Bool → List ℕ → ℕ → ℕ → Effect H
  noMemory : FsType → Bool → UvFs H
  complete : UvFs H → ℕ → ℕ → Effect H
  scandirNext : UvFs H → ℕ → Effect H
  frees : UvFs H → List Text
  cleanup : UvFs H → UvFs H

namespace FsLib
variable {H : Type*} (lib : FsLib H)

def owns (r : UvFs H) : List ℕ := blocks (lib.frees r)

def zeroed (fsType : FsType) : UvFs H := ⟨fsType, .null, .null, .null, lib.zero⟩

/-- Zero-initialised but for a path that libuv has not set. -/
def lent (path : Text) : UvFs H := { lib.zeroed .custom with path := path }

/-- A call that has a callback, before it is completed. -/
def Pending (r : UvFs H) : Prop := ∃ fsType strings n, r = (lib.call fsType true strings 0 n).req

inductive Settled : UvFs H → Prop where
  | zeroed (fsType : FsType) : Settled (lib.zeroed fsType)
  | noMemory (fsType : FsType) (cb : Bool) : Settled (lib.noMemory fsType cb)
  | call (fsType : FsType) (strings : List ℕ) (size n : ℕ) : Settled (lib.call fsType false strings size n).req
  | complete {r : UvFs H} (hr : lib.Pending r) (size n : ℕ) : Settled (lib.complete r size n).req
  | scandirNext {r : UvFs H} (hr : Settled r) (n : ℕ) : Settled (lib.scandirNext r n).req
  | cleanup {r : UvFs H} (hr : Settled r) : Settled (lib.cleanup r)

structure Empty (r : UvFs H) : Prop where
  texts : ∀ p ∈ r.texts, p = .null
  owns : lib.owns r = []
  strays : strays (lib.frees r) = []

/-- What libuv has allocated for the request is freed, or will be when it is cleaned up, and
nothing of the caller is; what it refers to is the caller's or the request's. -/
structure Sound (before : List ℕ) (n : ℕ) (e : Effect H) : Prop where
  freed : File.strays e.freed = []
  blocks : (before ++ List.range' n e.made).Perm (File.blocks e.freed ++ lib.owns e.req)
  strays : File.strays (lib.frees e.req) = []
  own : ∀ b, .block b ∈ e.req.texts → b ∈ lib.owns e.req

/-- `uv_fs_req_cleanup()` deallocates the memory that libuv has allocated for a request; a
call that has a callback does not keep the strings it is given; the path stays. -/
structure Lawful : Prop where
  zeroed : ∀ fsType, lib.Empty (lib.zeroed fsType)
  lent : ∀ p, lib.owns (lib.lent p) = [] ∧ strays (lib.frees (lib.lent p)) = []
  noMemory : ∀ fsType cb, lib.Empty (lib.noMemory fsType cb)
  call : ∀ fsType cb strings size n, lib.Sound [] n (lib.call fsType cb strings size n)
  copies : ∀ r, lib.Pending r → ∀ s, .caller s ∉ r.texts
  complete : ∀ r, lib.Pending r → ∀ size n, lib.Sound (lib.owns r) n (lib.complete r size n)
  complete_path : ∀ r, lib.Pending r → ∀ size n, (lib.complete r size n).req.path = r.path
  scandirNext : ∀ r, lib.Settled r → ∀ n, lib.Sound (lib.owns r) n (lib.scandirNext r n)
  scandirNext_path : ∀ r, lib.Settled r → ∀ n, (lib.scandirNext r n).req.path = r.path
  cleanup : ∀ r, lib.Settled r → lib.Empty (lib.cleanup r)

theorem Lawful.pending_sound {lib : FsLib H} (law : lib.Lawful) {r : UvFs H} (hr : lib.Pending r) :
    strays (lib.frees r) = [] ∧ ∀ b, .block b ∈ r.texts → b ∈ lib.owns r := by
  obtain ⟨fsType, strings, n, rfl⟩ := hr
  exact ⟨(law.call fsType true strings 0 n).strays, (law.call fsType true strings 0 n).own⟩

theorem Empty.own {lib : FsLib H} {r : UvFs H} (h : lib.Empty r) (b : ℕ) (hb : .block b ∈ r.texts) : b ∈ lib.owns r := by
  cases h.texts _ hb

theorem Lawful.settled_sound {lib : FsLib H} (law : lib.Lawful) {r : UvFs H} (hr : lib.Settled r) :
    strays (lib.frees r) = [] ∧ ∀ b, .block b ∈ r.texts → b ∈ lib.owns r := by
  cases hr with
  | zeroed fsType => exact ⟨(law.zeroed fsType).strays, (law.zeroed fsType).own⟩
  | noMemory fsType cb => exact ⟨(law.noMemory fsType cb).strays, (law.noMemory fsType cb).own⟩
  | call fsType strings size n =>
    exact ⟨(law.call fsType false strings size n).strays, (law.call fsType false strings size n).own⟩
  | complete hr size n => exact ⟨(law.complete _ hr size n).strays, (law.complete _ hr size n).own⟩
  | scandirNext hr n => exact ⟨(law.scandirNext _ hr n).strays, (law.scandirNext _ hr n).own⟩
  | cleanup hr => exact ⟨(law.cleanup _ hr).strays, (law.cleanup _ hr).own⟩

end FsLib

/-! ## libuv for Unix -/

/-- Whether there is a callback, the entries of a directory that are not freed, and how many
of these, none or one, have been handed out. -/
structure UnixFs where
  cb : Bool
  entries : List ℕ
  handed : ℕ
  deriving DecidableEq, Repr

namespace UnixFs

/-- `path` is a copy: `uv_fs_mkdtemp()` makes one also without a callback. -/
def copied (r : UvFs UnixFs) : Bool := r.hidden.cb || r.fsType == .mkdtemp

def init (fsType : FsType) (cb : Bool) : UvFs UnixFs := ⟨fsType, .null, .null, .null, cb, [], 0⟩

/-- The strings of a call that copies them are in one block. -/
def strings (r : UvFs UnixFs) (n : ℕ) : List ℕ → Effect UnixFs
  | [] => ⟨r, 0, []⟩
  | s :: ss =>
    if copied r then ⟨{ r with path := .block n, newPath := ss.head?.elim .null fun _ => .block n }, 1, []⟩
    else ⟨{ r with path := .caller s, newPath := ss.head?.elim .null .caller }, 0, []⟩

/-- The result of a directory is a block for the entries and one for each of them. -/
def result (r : UvFs UnixFs) (size n : ℕ) : Effect UnixFs :=
  if size = 0 then ⟨r, 0, []⟩
  else match r.fsType with
    | .scandir => ⟨{ r with ptr := .block n, hidden := ⟨r.hidden.cb, List.range' (n + 1) size, 0⟩ }, size + 1, []⟩
    | .readlink | .realpath => ⟨{ r with ptr := .block n }, 1, []⟩
    | _ => ⟨r, 0, []⟩

def call (fsType : FsType) (cb : Bool) (ss : List ℕ) (size n : ℕ) : Effect UnixFs :=
  let e := strings (init fsType cb) n ss
  if cb then e else { result e.req size (n + e.made) with made := e.made + (result e.req size (n + e.made)).made }

/-- The entry that was handed out goes, and after the last one the rest. -/
def scandirNext (r : UvFs UnixFs) (_ : ℕ) : Effect UnixFs :=
  if r.ptr = .null then ⟨r, 0, []⟩
  else if r.hidden.entries.drop r.hidden.handed = [] then
    ⟨{ r with ptr := .null, hidden := ⟨r.hidden.cb, [], 0⟩ }, 0, r.ptr :: (r.hidden.entries.take r.hidden.handed).map Text.block⟩
  else
    ⟨{ r with hidden := ⟨r.hidden.cb, r.hidden.entries.drop r.hidden.handed, 1⟩ }, 0,
      (r.hidden.entries.take r.hidden.handed).map Text.block⟩

def frees (r : UvFs UnixFs) : List Text :=
  r.ptr :: r.hidden.entries.map Text.block ++ if copied r then [r.path] else []

def cleanup (r : UvFs UnixFs) : UvFs UnixFs :=
  { r with path := .null, newPath := .null, ptr := .null, hidden := ⟨r.hidden.cb, [], 0⟩ }

def lib : FsLib UnixFs where
  zero := ⟨false, [], 0⟩
  call := call
  noMemory := init
  complete := result
  scandirNext := scandirNext
  frees := frees
  cleanup := cleanup

/-- What holds of every request, also during a call. -/
structure Good (r : UvFs UnixFs) : Prop where
  ptr : ∀ s, r.ptr ≠ .caller s
  copies : copied r = true → (∀ s, r.path ≠ .caller s) ∧ ∀ s, r.newPath ≠ .caller s
  path : copied r = false → ∀ b, r.path ≠ .block b
  newPath : ∀ b, r.newPath = .block b → r.path = .block b

def Resultless (r : UvFs UnixFs) : Prop := r.ptr = .null ∧ r.hidden.entries = []

variable {r : UvFs UnixFs}

theorem blocks_map (es : List ℕ) : blocks (es.map Text.block) = es := by
  induction es with
  | nil => rfl
  | cons e es ih => exact congrArg (e :: ·) ih

theorem strays_map (es : List ℕ) : strays (es.map Text.block) = [] := by
  induction es with
  | nil => rfl
  | cons e es ih => exact ih

theorem blocks_append (ps qs : List Text) : blocks (ps ++ qs) = blocks ps ++ blocks qs := List.filterMap_append

theorem strays_append (ps qs : List Text) : strays (ps ++ qs) = strays ps ++ strays qs := List.filterMap_append

theorem owns_eq (r : UvFs UnixFs) :
    lib.owns r = blocks [r.ptr] ++ (r.hidden.entries ++ if copied r then blocks [r.path] else []) := by
  have hsplit : lib.frees r = [r.ptr] ++ (r.hidden.entries.map Text.block ++ if copied r then [r.path] else []) := rfl
  rw [FsLib.owns, hsplit, blocks_append, blocks_append, blocks_map]
  split_ifs <;> rfl

theorem strays_one {p : Text} (h : ∀ s, p ≠ .caller s) : strays [p] = [] := by
  cases p with
  | null => rfl
  | caller s => exact absurd rfl (h s)
  | block n => rfl

theorem Good.strays (h : Good r) : strays (lib.frees r) = [] := by
  have hsplit : lib.frees r = [r.ptr] ++ (r.hidden.entries.map Text.block ++ if copied r then [r.path] else []) := rfl
  rw [hsplit, strays_append, strays_append, strays_map, strays_one h.ptr]
  split_ifs with hc
  · exact strays_one (h.copies hc).1
  · rfl

theorem Good.own (h : Good r) (b : ℕ) (hb : .block b ∈ r.texts) : b ∈ lib.owns r := by
  have hpath : r.path = .block b → b ∈ lib.owns r := by
    intro hp
    have hc : copied r = true := by
      by_contra hc
      exact h.path (Bool.eq_false_of_not_eq_true hc) b hp
    rw [owns_eq, if_pos hc, hp]
    exact List.mem_append_right _ (List.mem_append_right _ (List.mem_singleton_self b))
  simp only [UvFs.texts, List.mem_cons, List.not_mem_nil, or_false] at hb
  rcases hb with hb | hb | hb
  · exact hpath hb.symm
  · exact hpath (h.newPath b hb.symm)
  · rw [owns_eq, ← hb]
    exact List.mem_append_left _ (List.mem_singleton_self b)

theorem init_good (fsType : FsType) (cb : Bool) : Good (init fsType cb) :=
  ⟨nofun, fun _ => ⟨nofun, nofun⟩, fun _ => nofun, nofun⟩

theorem init_resultless (fsType : FsType) (cb : Bool) : Resultless (init fsType cb) := ⟨rfl, rfl⟩

theorem init_empty (fsType : FsType) (cb : Bool) : lib.Empty (init fsType cb) where
  texts p hp := by simpa [UvFs.texts, init] using hp
  owns := by
    rw [owns_eq]
    split_ifs <;> rfl
  strays := (init_good fsType cb).strays

theorem strings_good (fsType : FsType) (cb : Bool) (n : ℕ) (ss : List ℕ) :
    Good (strings (init fsType cb) n ss).req ∧ Resultless (strings (init fsType cb) n ss).req := by
  cases ss with
  | nil => exact ⟨init_good fsType cb, init_resultless fsType cb⟩
  | cons s ss =>
    by_cases hc : copied (init fsType cb) = true
    · rw [strings, if_pos hc]
      refine ⟨⟨nofun, fun _ => ⟨nofun, fun t ht => ?_⟩, fun hn => absurd (hc.symm.trans hn) nofun, fun b hb => ?_⟩, rfl, rfl⟩
      · cases ss with
        | nil => cases ht
        | cons t ss => cases ht
      · cases ss with
        | nil => cases hb
        | cons t ss => exact hb
    · rw [strings, if_neg hc]
      refine ⟨⟨nofun, fun hn => absurd hn hc, fun _ => nofun, fun b hb => ?_⟩, rfl, rfl⟩
      cases ss with
      | nil => cases hb
      | cons t ss => cases hb

theorem owns_copied (h : copied r = true) :
    lib.owns r = blocks [r.ptr] ++ (r.hidden.entries ++ blocks [r.path]) := by rw [owns_eq, if_pos h]

theorem owns_not_copied (h : ¬ copied r = true) : lib.owns r = blocks [r.ptr] ++ (r.hidden.entries ++ []) := by
  rw [owns_eq, if_neg h]

theorem strings_owns (fsType : FsType) (cb : Bool) (n : ℕ) (ss : List ℕ) :
    lib.owns (strings (init fsType cb) n ss).req = List.range' n (strings (init fsType cb) n ss).made ∧
      (strings (init fsType cb) n ss).freed = [] := by
  cases ss with
  | nil => exact ⟨(init_empty fsType cb).owns, rfl⟩
  | cons s ss =>
    by_cases hc : copied (init fsType cb) = true
    · rw [strings, if_pos hc]
      exact ⟨owns_copied hc, rfl⟩
    · rw [strings, if_neg hc]
      exact ⟨owns_not_copied hc, rfl⟩

/-- A result is owned beside what there was. -/
theorem result_good (h : Good r) (size n : ℕ) : Good (result r size n).req := by
  unfold result
  split_ifs
  · exact h
  · split
    · exact ⟨nofun, h.copies, h.path, h.newPath⟩
    · exact ⟨nofun, h.copies, h.path, h.newPath⟩
    · exact ⟨nofun, h.copies, h.path, h.newPath⟩
    · exact h

theorem result_owns (h : Resultless r) (size n : ℕ) :
    lib.owns (result r size n).req = List.range' n (result r size n).made ++ lib.owns r ∧
      (result r size n).freed = [] := by
  have hr : lib.owns r = if copied r then blocks [r.path] else [] := by
    rw [owns_eq, h.1, h.2]
    rfl
  unfold result
  split_ifs
  · exact ⟨rfl, rfl⟩
  · split
    · refine ⟨?_, rfl⟩
      rw [owns_eq, hr, List.range'_succ]
      rfl
    · refine ⟨?_, rfl⟩
      rw [owns_eq, hr, h.2]
      rfl
    · refine ⟨?_, rfl⟩
      rw [owns_eq, hr, h.2]
      rfl
    · exact ⟨rfl, rfl⟩

theorem result_path (r : UvFs UnixFs) (size n : ℕ) : (result r size n).req.path = r.path := by
  unfold result
  split_ifs
  · rfl
  · split <;> rfl

theorem call_sound (fsType : FsType) (cb : Bool) (ss : List ℕ) (size n : ℕ) :
    lib.Sound [] n (call fsType cb ss size n) ∧ Good (call fsType cb ss size n).req := by
  obtain ⟨hgood, hresultless⟩ := strings_good fsType cb n ss
  obtain ⟨howns, hfreed⟩ := strings_owns fsType cb n ss
  unfold call
  dsimp only
  split_ifs
  · refine ⟨⟨?_, ?_, hgood.strays, hgood.own⟩, hgood⟩
    · rw [hfreed]
      rfl
    · rw [hfreed, howns]
      exact .refl _
  · set e := strings (init fsType cb) n ss
    have hgood' := result_good hgood size (n + e.made)
    obtain ⟨howns', hfreed'⟩ := result_owns hresultless size (n + e.made)
    refine ⟨⟨?_, ?_, hgood'.strays, hgood'.own⟩, hgood'⟩
    · rw [hfreed']
      rfl
    · rw [hfreed', howns', howns, ← List.range'_append_1, List.nil_append]
      exact List.perm_append_comm

theorem pending_good (hr : lib.Pending r) : Good r ∧ Resultless r ∧ copied r = true := by
  obtain ⟨fsType, ss, n, rfl⟩ := hr
  obtain ⟨hgood, hresultless⟩ := strings_good fsType true n ss
  refine ⟨hgood, hresultless, ?_⟩
  cases ss with
  | nil => rfl
  | cons s ss => rfl

theorem scandirNext_good (h : Good r) (n : ℕ) : Good (scandirNext r n).req := by
  unfold scandirNext
  split_ifs
  · exact h
  · exact ⟨nofun, h.copies, h.path, h.newPath⟩
  · exact ⟨h.ptr, h.copies, h.path, h.newPath⟩

theorem scandirNext_sound (h : Good r) (n : ℕ) : lib.Sound (lib.owns r) n (scandirNext r n) := by
  have hgood := scandirNext_good h n
  refine ⟨?_, ?_, hgood.strays, hgood.own⟩
  · unfold scandirNext
    split_ifs
    · rfl
    · exact (strays_append [r.ptr] _).trans (by rw [strays_one h.ptr, strays_map]; rfl)
    · exact strays_map _
  · unfold scandirNext
    split_ifs with hptr hrest
    · rw [List.range'_zero, List.append_nil]
      exact .refl _
    · have hentries : r.hidden.entries.take r.hidden.handed = r.hidden.entries := by
        have hall := List.take_append_drop r.hidden.handed r.hidden.entries
        rwa [hrest, List.append_nil] at hall
      have hfreed : blocks (r.ptr :: r.hidden.entries.map Text.block) = blocks [r.ptr] ++ r.hidden.entries := by
        rw [← blocks_map r.hidden.entries, ← blocks_append, blocks_map]
        rfl
      rw [List.range'_zero, List.append_nil, hentries, hfreed, owns_eq, owns_eq, List.append_assoc]
      exact .refl _
    · rw [List.range'_zero, List.append_nil, blocks_map, owns_eq, owns_eq]
      conv_lhs => rw [← List.take_append_drop r.hidden.handed r.hidden.entries, List.append_assoc]
      exact List.perm_append_comm_assoc _ _ _

theorem scandirNext_path (r : UvFs UnixFs) (n : ℕ) : (scandirNext r n).req.path = r.path := by
  unfold scandirNext
  split_ifs <;> rfl

theorem cleanup_good (r : UvFs UnixFs) : Good (cleanup r) :=
  ⟨nofun, fun _ => ⟨nofun, nofun⟩, fun _ => nofun, nofun⟩

theorem cleanup_empty (r : UvFs UnixFs) : lib.Empty (cleanup r) where
  texts p hp := by simpa [UvFs.texts, cleanup] using hp
  owns := by
    rw [owns_eq]
    split_ifs <;> rfl
  strays := (cleanup_good r).strays

theorem settled_good (hr : lib.Settled r) : Good r := by
  induction hr with
  | zeroed fsType => exact init_good fsType false
  | noMemory fsType cb => exact init_good fsType cb
  | call fsType ss size n => exact (call_sound fsType false ss size n).2
  | complete hr size n => exact result_good (pending_good hr).1 size n
  | scandirNext _ n ih => exact scandirNext_good ih n
  | cleanup _ _ => exact cleanup_good _

theorem lawful : lib.Lawful where
  zeroed fsType := init_empty fsType false
  lent p := ⟨rfl, rfl⟩
  noMemory := init_empty
  call fsType cb ss size n := (call_sound fsType cb ss size n).1
  copies r hr s hs := by
    obtain ⟨hgood, hresultless, hc⟩ := pending_good hr
    simp only [UvFs.texts, List.mem_cons, List.not_mem_nil, or_false] at hs
    rcases hs with hs | hs | hs
    · exact (hgood.copies hc).1 s hs.symm
    · exact (hgood.copies hc).2 s hs.symm
    · exact hgood.ptr s hs.symm
  complete r hr size n := by
    obtain ⟨hgood, hresultless, -⟩ := pending_good hr
    have hgood' := result_good hgood size n
    obtain ⟨howns, hfreed⟩ := result_owns hresultless size n
    refine ⟨?_, ?_, hgood'.strays, hgood'.own⟩
    · rw [show (lib.complete r size n).freed = [] from hfreed]
      rfl
    · rw [show (lib.complete r size n).freed = [] from hfreed, show lib.owns (lib.complete r size n).req = _ from howns]
      exact List.perm_append_comm
  complete_path r _ := result_path r
  scandirNext r hr := scandirNext_sound (settled_good hr)
  scandirNext_path r _ := scandirNext_path r
  cleanup r _ := cleanup_empty r

end UnixFs
end Uvcc.File
