import Uvcc.Machine.Trace
import Uvcc.Memory.Owners
import Uvcc.Requests.Shapes
import Uvcc.File.LibuvFs

/-!
# Filesystem requests and file handles

Both are instances around a `uv_fs_t`. The first line of every `run` cleans the request up,
and so does the destruction of a request or a handle; `handle()` of a request that was run
on a path makes a file handle around the path of the request.
-/
namespace Uvcc.File
open Machine Memory Requests

/-- The overloads of `run`, with the files or the strings they are given, and `try_write()`.
The output of `sendfile` may be no file; `out` is for whether it has a descriptor, and
`empty` for whether the write queue of the file is. -/
inductive FsCall where
  | close (f : ℕ)
  | read (f : ℕ)
  | write (f : ℕ)
  | sync (f : ℕ) (flushAllMetadata : Bool)
  | truncate (f : ℕ)
  | tryWrite (f : ℕ) (empty : Bool)
  | sendfile (f : ℕ) (target : Option ℕ) (out : Bool)
  | stat (s : ℕ) (followSymlinks : Bool)
  | statFile (f : ℕ)
  | chmod (s : ℕ)
  | chmodFile (f : ℕ)
  | chown (s : ℕ)
  | chownFile (f : ℕ)
  | utime (s : ℕ)
  | utimeFile (f : ℕ)
  | unlink (s : ℕ)
  | mkdir (s : ℕ)
  | mkdtemp (s : ℕ)
  | rmdir (s : ℕ)
  | scandir (s : ℕ)
  | rename (s t : ℕ)
  | access (s : ℕ)
  | link (s t : ℕ) (symlink : Bool)
  | readlink (s : ℕ)
  | realpath (s : ℕ)
  deriving DecidableEq, Repr

namespace FsCall

def cls : FsCall → Requests.Class
  | .close _ => .fsClose
  | .read _ => .fsRead
  | .write _ | .tryWrite _ _ => .fsWrite
  | .sync _ _ => .fsSync
  | .truncate _ => .fsTruncate
  | .sendfile _ _ _ => .fsSendfile
  | .stat _ _ | .statFile _ => .fsStat
  | .chmod _ | .chmodFile _ => .fsChmod
  | .chown _ | .chownFile _ => .fsChown
  | .utime _ | .utimeFile _ => .fsUtime
  | .unlink _ => .fsUnlink
  | .mkdir _ => .fsMkdir
  | .mkdtemp _ => .fsMkdtemp
  | .rmdir _ => .fsRmdir
  | .scandir _ => .fsScandir
  | .rename _ _ => .fsRename
  | .access _ => .fsAccess
  | .link _ _ _ => .fsLink
  | .readlink _ => .fsReadlink
  | .realpath _ => .fsRealpath

def fsType : FsCall → FsType
  | .close _ => .close
  | .read _ => .read
  | .write _ | .tryWrite _ _ => .write
  | .sync _ flushAllMetadata => if flushAllMetadata then .fsync else .fdatasync
  | .truncate _ => .ftruncate
  | .sendfile _ _ _ => .sendfile
  | .stat _ followSymlinks => if followSymlinks then .stat else .lstat
  | .statFile _ => .fstat
  | .chmod _ => .chmod
  | .chmodFile _ => .fchmod
  | .chown _ => .chown
  | .chownFile _ => .fchown
  | .utime _ => .utime
  | .utimeFile _ => .futime
  | .unlink _ => .unlink
  | .mkdir _ => .mkdir
  | .mkdtemp _ => .mkdtemp
  | .rmdir _ => .rmdir
  | .scandir _ => .scandir
  | .rename _ _ => .rename
  | .access _ => .access
  | .link _ _ symlink => if symlink then .symlink else .link
  | .readlink _ => .readlink
  | .realpath _ => .realpath

def strings : FsCall → List ℕ
  | .stat s _ | .chmod s | .chown s | .utime s | .unlink s | .mkdir s | .mkdtemp s | .rmdir s
  | .scandir s | .access s | .readlink s | .realpath s => [s]
  | .rename s t | .link s t _ => [s, t]
  | _ => []

/-- What becomes `uv_handle` of the properties, or `uv_handle_in` and `uv_handle_out`. -/
def files : FsCall → List ℕ
  | .close f | .read f | .write f | .tryWrite f _ | .sync f _ | .truncate f | .statFile f
  | .chmodFile f | .chownFile f | .utimeFile f => [f]
  | .sendfile f target _ => f :: target.toList
  | _ => []

def proceeds : FsCall → Bool
  | .tryWrite _ empty => empty
  | .sendfile _ _ out => out
  | _ => true

/-- Whether it has no callback although the request has one. -/
def synchronous : FsCall → Bool
  | .tryWrite _ _ => true
  | _ => false

end FsCall

def initType : Requests.Class → FsType
  | .fsClose => .close
  | .fsRead => .read
  | .fsWrite => .write
  | .fsSync => .fsync
  | .fsTruncate => .ftruncate
  | .fsSendfile => .sendfile
  | .fsStat => .stat
  | .fsChmod => .chmod
  | .fsChown => .chown
  | .fsUtime => .utime
  | .fsUnlink => .unlink
  | .fsMkdir => .mkdir
  | .fsMkdtemp => .mkdtemp
  | .fsRmdir => .rmdir
  | .fsScandir => .scandir
  | .fsRename => .rename
  | .fsAccess => .access
  | .fsLink => .link
  | .fsReadlink => .readlink
  | .fsRealpath => .realpath
  | _ => .custom

/-- The classes with a `handle()` that takes a null `uv_handle`. -/
def hasPathHandle : Requests.Class → Bool
  | .fsStat | .fsChmod | .fsChown | .fsUtime => true
  | _ => false

/-- How libuv answers a call: it may refuse it before it touches the request, or find no
memory. A call without a callback has its result then, of some size. -/
inductive Answer where
  | refused
  | noMemory
  | accepted (size : ℕ)
  deriving DecidableEq, Repr

/-- A request of a class, or a file handle. `files` are the handles in the properties, and
each callback in progress has guards for the instance and for the files of its run. `vars`
counts the references of variables, and of a read in progress. Neither the count of the runs
nor, in a handle made by `handle()`, the request and its run is in the code. -/
structure FsInstance (H : Type*) extends UvFs H where
  cls : Option Requests.Class
  callback : Bool
  files : List ℕ
  refs : ℕ
  vars : ℕ
  pending : Bool
  frames : List (List ℕ)
  runs : ℕ
  lender : Option (ℕ × ℕ)

def FsInstance.new {H : Type*} (cls : Option Requests.Class) (r : UvFs H) : FsInstance H where
  toUvFs := r
  cls := cls
  callback := false
  files := []
  refs := 1
  vars := 1
  pending := false
  frames := []
  runs := 0
  lender := none

/-- The file whose path `path()` of a request reads. -/
def FsInstance.reads {H : Type*} (x : FsInstance H) : Option ℕ :=
  if x.cls.any hasPathHandle then x.files.head? else none

/-- The instances there are, the memory of libuv, the strings of the caller that were
passed to free, and those that the caller no longer keeps. -/
structure Paths (H : Type*) where
  insts : ℕ → Option (FsInstance H)
  next : ℕ
  heap : Blocks
  strays : List ℕ
  released : List ℕ

inductive PathEvent where
  | create (cls : Requests.Class)
  | openFile (s : ℕ) (cb : Bool) (answer : Answer)
  | wrap
  | setCallback (o : ℕ) (set : Bool)
  | copy (o : ℕ)
  | drop (o : ℕ)
  | run (o : ℕ) (call : FsCall) (answer : Answer)
  | complete (o : ℕ) (size : ℕ)
  | callbackEnd (o : ℕ)
  | scandirNext (o : ℕ)
  | handle (o : ℕ)
  | release (s : ℕ)
  deriving DecidableEq, Repr

namespace Paths
variable {H : Type*}

def init : Paths H := ⟨fun _ => none, 0, ⟨0, []⟩, [], []⟩

def put (w : Paths H) (o : ℕ) (x : FsInstance H) : Paths H :=
  { w with insts := Function.update w.insts o (some x) }

def apply (w : Paths H) (o : ℕ) (x : FsInstance H) (e : Effect H) : Paths H :=
  { w with
    heap := (w.heap.alloc e.made).free (blocks e.freed)
    strays := File.strays e.freed ++ w.strays }.put o { x with toUvFs := e.req }

def add (w : Paths H) (x : FsInstance H) : Paths H :=
  { w.put w.next x with next := w.next + 1 }

def ref (w : Paths H) (o : ℕ) : Paths H :=
  match w.insts o with
  | some x => w.put o { x with refs := x.refs + 1 }
  | none => w

theorem put_insts_self (w : Paths H) (o : ℕ) (x : FsInstance H) : (w.put o x).insts o = some x :=
  Function.update_self o _ w.insts

theorem put_insts_ne (w : Paths H) {o j : ℕ} (hj : j ≠ o) (x : FsInstance H) : (w.put o x).insts j = w.insts j :=
  Function.update_of_ne hj _ w.insts

theorem add_insts_self (w : Paths H) (x : FsInstance H) : (w.add x).insts w.next = some x :=
  Function.update_self w.next _ w.insts

theorem add_insts_ne (w : Paths H) {j : ℕ} (hj : j ≠ w.next) (x : FsInstance H) : (w.add x).insts j = w.insts j :=
  Function.update_of_ne hj _ w.insts

variable (lib : FsLib H)

def destroy (w : Paths H) (o : ℕ) (x : FsInstance H) : Paths H :=
  { w with
    insts := Function.update w.insts o none
    heap := w.heap.free (lib.owns x.toUvFs)
    strays := File.strays (lib.frees x.toUvFs) ++ w.strays }

def unref (w : Paths H) (o : ℕ) : Paths H :=
  match w.insts o with
  | some x => if x.refs = 1 then w.destroy lib o x else w.put o { x with refs := x.refs - 1 }
  | none => w

def clean (w : Paths H) (o : ℕ) (x : FsInstance H) : Paths H :=
  w.apply o { x with runs := x.runs + 1 } ⟨lib.cleanup x.toUvFs, 0, lib.frees x.toUvFs⟩

/-- A call of libuv on a request that has been cleaned up, with the reference that the
callback adopts. -/
def submit (w : Paths H) (o : ℕ) (x : FsInstance H) (fsType : FsType) (cb : Bool) (strings : List ℕ) : Answer → Paths H
  | .refused => w.put o x
  | .noMemory => w.put o { x with toUvFs := lib.noMemory fsType cb }
  | .accepted size =>
    if cb then
      w.apply o { x with pending := true, refs := x.refs + 1 } (lib.call fsType true strings 0 w.heap.allocated)
    else w.apply o x (lib.call fsType false strings size w.heap.allocated)

/-- What `run` references it gives back at once if libuv does not accept the call. -/
def run (w : Paths H) (o : ℕ) (x : FsInstance H) (call : FsCall) (answer : Answer) : Paths H :=
  let w' := w.clean lib o x
  let y := { x with toUvFs := lib.cleanup x.toUvFs, runs := x.runs + 1, files := call.files }
  if call.proceeds = false then w'
  else if x.callback = true ∧ call.synchronous = false then
    let w'' := (call.files.foldl ref w').submit lib o y call.fsType true call.strings answer
    match answer with
    | .accepted _ => w''
    | _ => call.files.foldl (unref lib) w''
  else w'.submit lib o y call.fsType false call.strings answer

/-- The constructor of a file. A callback is referenced by the handle until it has returned. -/
def openFile (w : Paths H) (s : ℕ) (cb : Bool) (answer : Answer) : Paths H :=
  let x := FsInstance.new none (lib.zeroed .custom)
  (w.add x).submit lib w.next x .open cb [s] answer

/-- The completion callback of a request or of an open, up to the callback of the user. -/
def complete (w : Paths H) (o : ℕ) (x : FsInstance H) (size : ℕ) : Paths H :=
  w.apply o { x with pending := false, frames := x.files :: x.frames } (lib.complete x.toUvFs size w.heap.allocated)

/-- The guard of the instance goes first, then those of the files. -/
def callbackEnd (w : Paths H) (o : ℕ) (x : FsInstance H) (files : List ℕ) (frames : List (List ℕ)) : Paths H :=
  (o :: files).foldl (unref lib) (w.put o { x with frames := frames })

def handle (w : Paths H) (o : ℕ) (x : FsInstance H) : Paths H :=
  match x.files.head? with
  | some f => match w.insts f with
    | some h => w.put f { h with refs := h.refs + 1, vars := h.vars + 1 }
    | none => w
  | none => w.add { FsInstance.new none (lib.lent x.path) with lender := some (o, x.runs) }

/-- The strings and the files that a call is given are there. -/
def Admits (w : Paths H) (call : FsCall) : Prop :=
  (∀ s ∈ call.strings, s ∉ w.released) ∧
  call.files.all (fun f => (w.insts f).any (·.cls.isNone)) = true

instance (w : Paths H) (call : FsCall) : Decidable (w.Admits call) := by
  unfold Admits; infer_instance

/-- A request that libuv is at work on is not run again, nor asked for its entries. -/
def step (w : Paths H) : PathEvent → Option (Paths H)
  | .create cls => some (w.add (FsInstance.new (some cls) (lib.zeroed (initType cls))))
  | .openFile s cb answer => if s ∈ w.released then none else some (w.openFile lib s cb answer)
  | .wrap => some (w.add (FsInstance.new none (lib.zeroed .custom)))
  | .setCallback o set => (w.insts o).bind fun x =>
    if x.cls.isSome then some (w.put o { x with callback := set }) else none
  | .copy o => (w.insts o).map fun x => w.put o { x with refs := x.refs + 1, vars := x.vars + 1 }
  | .drop o => (w.insts o).bind fun x =>
    if x.vars = 0 then none else some ((w.put o { x with vars := x.vars - 1 }).unref lib o)
  | .run o call answer => (w.insts o).bind fun x =>
    if x.cls = some call.cls ∧ x.pending = false ∧ w.Admits call then some (w.run lib o x call answer) else none
  | .complete o size => (w.insts o).bind fun x =>
    if x.pending then some (w.complete lib o x size) else none
  | .callbackEnd o => (w.insts o).bind fun x => match x.frames with
    | files :: frames => some (w.callbackEnd lib o x files frames)
    | [] => none
  | .scandirNext o => (w.insts o).bind fun x =>
    if x.cls = some .fsScandir ∧ x.pending = false then
      some (w.apply o x (lib.scandirNext x.toUvFs w.heap.allocated))
    else none
  | .handle o => (w.insts o).bind fun x =>
    if (x.cls.any hasPathHandle ∨ x.cls.isSome ∧ x.files ≠ []) ∧ 0 < x.runs ∧ x.files.all (fun f => (w.insts f).isSome) then
      some (w.handle lib o x)
    else none
  | .release s => some { w with released := s :: w.released }

def pathOf (w : Paths H) (x : FsInstance H) : Option Text :=
  match x.reads with
  | some f => (w.insts f).map (·.path)
  | none => some x.path

/-! ## What a step does -/

inductive Acts (w : Paths H) : PathEvent → Paths H → Prop where
  | create (cls : Requests.Class) :
    Acts w (.create cls) (w.add (FsInstance.new (some cls) (lib.zeroed (initType cls))))
  | openFile (s : ℕ) (cb : Bool) (answer : Answer) :
    Acts w (.openFile s cb answer) (w.openFile lib s cb answer)
  | wrap : Acts w .wrap (w.add (FsInstance.new none (lib.zeroed .custom)))
  | setCallback {o : ℕ} {x : FsInstance H} (set : Bool) (hx : w.insts o = some x) :
    Acts w (.setCallback o set) (w.put o { x with callback := set })
  | copy {o : ℕ} {x : FsInstance H} (hx : w.insts o = some x) :
    Acts w (.copy o) (w.put o { x with refs := x.refs + 1, vars := x.vars + 1 })
  | drop {o : ℕ} {x : FsInstance H} (hx : w.insts o = some x) (hvars : x.vars ≠ 0) :
    Acts w (.drop o) ((w.put o { x with vars := x.vars - 1 }).unref lib o)
  | run {o : ℕ} {x : FsInstance H} (call : FsCall) (answer : Answer) (hx : w.insts o = some x)
    (hcls : x.cls.isSome = true) (hidle : x.pending = false) (hadmits : w.Admits call) :
    Acts w (.run o call answer) (w.run lib o x call answer)
  | complete {o : ℕ} {x : FsInstance H} (size : ℕ) (hx : w.insts o = some x) (hpending : x.pending = true) :
    Acts w (.complete o size) (w.complete lib o x size)
  | callbackEnd {o : ℕ} {x : FsInstance H} {files : List ℕ} {frames : List (List ℕ)} (hx : w.insts o = some x)
    (hframes : x.frames = files :: frames) : Acts w (.callbackEnd o) (w.callbackEnd lib o x files frames)
  | scandirNext {o : ℕ} {x : FsInstance H} (hx : w.insts o = some x) (hcls : x.cls.isSome = true)
    (hidle : x.pending = false) :
    Acts w (.scandirNext o) (w.apply o x (lib.scandirNext x.toUvFs w.heap.allocated))
  | handle {o : ℕ} {x : FsInstance H} (hx : w.insts o = some x) (hcls : x.cls.isSome = true) :
    Acts w (.handle o) (w.handle lib o x)
  | release (s : ℕ) : Acts w (.release s) { w with released := s :: w.released }

variable {lib}

theorem step_acts {w w' : Paths H} {e : PathEvent} (h : w.step lib e = some w') : w.Acts lib e w' := by
  cases e with
  | create cls =>
    obtain rfl := Option.some.inj h
    exact .create cls
  | openFile s cb answer =>
    simp only [step, Option.ite_none_left_eq_some, Option.some.injEq] at h
    obtain ⟨-, rfl⟩ := h
    exact .openFile s cb answer
  | wrap =>
    obtain rfl := Option.some.inj h
    exact .wrap
  | setCallback o set =>
    simp only [step, Option.bind_eq_some_iff, Option.ite_none_right_eq_some, Option.some.injEq] at h
    obtain ⟨x, hx, -, rfl⟩ := h
    exact .setCallback set hx
  | copy o =>
    obtain ⟨x, hx, rfl⟩ := Option.map_eq_some_iff.mp h
    exact .copy hx
  | drop o =>
    simp only [step, Option.bind_eq_some_iff, Option.ite_none_left_eq_some, Option.some.injEq] at h
    obtain ⟨x, hx, hvars, rfl⟩ := h
    exact .drop hx hvars
  | run o call answer =>
    simp only [step, Option.bind_eq_some_iff, Option.ite_none_right_eq_some, Option.some.injEq] at h
    obtain ⟨x, hx, ⟨hcls, hidle, hadmits⟩, rfl⟩ := h
    exact .run call answer hx (by rw [hcls]; rfl) hidle hadmits
  | complete o size =>
    simp only [step, Option.bind_eq_some_iff, Option.ite_none_right_eq_some, Option.some.injEq] at h
    obtain ⟨x, hx, hpending, rfl⟩ := h
    exact .complete size hx hpending
  | callbackEnd o =>
    simp only [step, Option.bind_eq_some_iff] at h
    obtain ⟨x, hx, h⟩ := h
    split at h
    · rename_i hframes
      obtain rfl := Option.some.inj h
      exact .callbackEnd hx hframes
    · cases h
  | scandirNext o =>
    simp only [step, Option.bind_eq_some_iff, Option.ite_none_right_eq_some, Option.some.injEq] at h
    obtain ⟨x, hx, ⟨hcls, hidle⟩, rfl⟩ := h
    exact .scandirNext hx (by rw [hcls]; rfl) hidle
  | handle o =>
    simp only [step, Option.bind_eq_some_iff, Option.ite_none_right_eq_some, Option.some.injEq] at h
    obtain ⟨x, hx, ⟨hcls, -⟩, rfl⟩ := h
    apply Acts.handle hx
    rcases hcls with hcls | hcls
    · obtain ⟨c, hc, -⟩ := (Option.any_eq_true _ _).mp hcls
      rw [hc]
      rfl
    · exact hcls.1
  | release s =>
    obtain rfl := Option.some.inj h
    exact .release s

end Paths
end Uvcc.File
