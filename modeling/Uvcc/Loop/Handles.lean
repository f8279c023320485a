import Uvcc.Counting.Ledger
import Uvcc.Machine.Trace

/-!
# Handles on their loops

Loop and handle instances with their counts, the loop each handle has booked, and
what libuv links: a handle is in the queue of its loop from its initialisation on,
then among the closing handles until an iteration of the loop finishes the close.
`uv_handle_interface::close` calls `uv_close()` and deletes the instance at once.
-/
namespace Uvcc.Loop
open Counting Machine

/-- Loop and handle instances; a number is used once. -/
inductive Obj where
  | loop (n : ℕ)
  | handle (n : ℕ)
  deriving DecidableEq, Repr

inductive Kind where
  | async | timer | idle | prepare | check | signal | fsEvent | poll
  | tcp | pipe | tty | udp
  | process | file
  deriving DecidableEq, Repr

/-- Where the loop has the embedded `uv_handle_t`. -/
inductive Link where
  | detached
  | opened
  | closing
  | closed
  deriving DecidableEq, Repr

/-- A libuv init function succeeds, fails before it sets the type, or fails later
and takes the handle off the loop again. -/
inductive Init where
  | registered
  | refused
  | withdrawn
  deriving DecidableEq, Repr

/-- `initialised` is `type != 0`, never so for a file, which embeds a `uv_fs_t`;
`uvLoop` is libuv's `loop` field and `loopInstance` is `loop_instance_ptr`. -/
structure HandleInstance where
  kind : Kind
  initialised : Bool
  uvLoop : Option ℕ
  loopInstance : Option ℕ
  link : Link
  deriving DecidableEq, Repr

namespace HandleInstance

def blank : HandleInstance := ⟨.async, false, none, none, .detached⟩

def booking (x : HandleInstance) : Multiset Obj := x.loopInstance.elim 0 (fun l => {.loop l})

def linkedOn (l : ℕ) (x : HandleInstance) : Bool := x.uvLoop = some l ∧ (x.link = .opened ∨ x.link = .closing)

def drain (l : ℕ) (x : HandleInstance) : HandleInstance :=
  if x.uvLoop = some l ∧ x.link = .closing then { x with link := .closed } else x

end HandleInstance

/-- `vars` are the references of variables, `selfRefs` those the library takes for
started watchers and running requests; `freed` are the instances that have been deleted.
`threw` is set by the `std::logic_error` of the loop destructor, which ends the program,
and `strayed` once libuv has read a handle in freed memory. -/
structure World where
  mem : Ledger Obj
  vars : Multiset Obj
  selfRefs : Multiset ℕ
  handles : ℕ → HandleInstance
  freed : ℕ → Bool
  next : ℕ
  threw : Bool
  strayed : Bool

inductive Event where
  | newLoop
  | construct (k : Kind) (l : ℕ) (i : Init)
  | process (l : ℕ)
  | spawn (h : ℕ)
  | file (l : ℕ) (ok : Bool)
  | accept (h : ℕ) (i : Init)
  | acceptPending (h : ℕ) (k : Kind) (i : Init)
  | copy (o : Obj)
  | drop (o : Obj)
  | retain (h : ℕ)
  | release (h : ℕ)
  | finishClose (h : ℕ)
  deriving DecidableEq, Repr

namespace World

def init : World := ⟨Ledger.empty, 0, 0, fun _ => .blank, fun _ => false, 0, false, false⟩

def bookings (w : World) : Multiset Obj := ∑ n ∈ Finset.range w.next, (w.handles n).booking

def held (w : World) : Multiset Obj := w.vars + w.selfRefs.map .handle + w.bookings

def setHandle (w : World) (h : ℕ) (x : HandleInstance) : World :=
  { w with handles := Function.update w.handles h x }

def newLoop (w : World) : World :=
  { w with mem := w.mem.create (.loop w.next), vars := .loop w.next ::ₘ w.vars, next := w.next + 1 }

def create (w : World) (x : HandleInstance) : World :=
  { w with
    mem := w.mem.create (.handle w.next)
    vars := .handle w.next ::ₘ w.vars
    handles := Function.update w.handles w.next x
    next := w.next + 1 }

/-- The walk of the loop destructor comes upon a handle that has been deleted. -/
def walksFreed (w : World) (l : ℕ) : Bool :=
  (List.range w.next).any fun n => (w.handles n).linkedOn l ∧ w.freed n = true

/-- A handle is open on the loop `l`, as the walk of the loop destructor sees it. -/
def openOn (w : World) (l : ℕ) : Bool :=
  (List.range w.next).any (fun n => (w.handles n).uvLoop = some l ∧ (w.handles n).link = .opened)

/-- The destructor of a loop instance: it throws if a handle is still open, and
otherwise runs the loop until the closing handles are done with. What it makes of a
handle that has been deleted is not known. -/
def destroyLoop (w : World) (l : ℕ) : World :=
  if w.walksFreed l then { w with strayed := true }
  else if w.openOn l then { w with threw := true }
  else { w with handles := fun n => (w.handles n).drain l }

def loopUnref (w : World) (l : ℕ) : World :=
  let w' := { w with mem := w.mem.dec (.loop l) }
  if w.mem.refs (.loop l) - 1 = 0 then w'.destroyLoop l else w'

def nullLoop (w : World) (h : ℕ) : World :=
  w.setHandle h { w.handles h with loopInstance := none }

def unbookLoop (w : World) (h : ℕ) : World :=
  match (w.handles h).loopInstance with
  | some l => (w.loopUnref l).nullLoop h
  | none => w

def bookLoop (w : World) (h : ℕ) : World :=
  let w' := w.unbookLoop h
  match (w'.handles h).uvLoop with
  | some l =>
    { w' with mem := w'.mem.inc (.loop l) }.setHandle h { w'.handles h with loopInstance := some l }
  | none => w'

def uvClose (w : World) (h : ℕ) : World :=
  if (w.handles h).initialised then w.setHandle h { w.handles h with link := .closing } else w

def free (w : World) (h : ℕ) : World := { w with freed := Function.update w.freed h true }

/-- `uv_handle_interface::close`: after `uv_close()` the destroy callback runs and
the instance is deleted; its destructor gives up the loop. -/
def handleClose (w : World) (h : ℕ) : World := ((w.uvClose h).unbookLoop h).free h

def handleUnref (w : World) (h : ℕ) : World :=
  let w' := { w with mem := w.mem.dec (.handle h) }
  if w.mem.refs (.handle h) - 1 = 0 then w'.handleClose h else w'

def unref (w : World) : Obj → World
  | .loop l => w.loopUnref l
  | .handle h => w.handleUnref h

/-- The constructors of the watchers, streams and `udp`: they book the loop unless
the init function has failed. -/
def construct (w : World) (k : Kind) (l : ℕ) : Init → World
  | .registered => (w.create ⟨k, true, some l, none, .opened⟩).bookLoop w.next
  | .refused => w.create ⟨k, false, none, none, .detached⟩
  | .withdrawn => w.create ⟨k, true, some l, none, .detached⟩

/-- A process is booked at once, while `uv_spawn()` initialises it later. -/
def process (w : World) (l : ℕ) : World :=
  (w.create ⟨.process, false, some l, none, .detached⟩).bookLoop w.next

def spawn (w : World) (h : ℕ) : World :=
  w.setHandle h { w.handles h with initialised := true, link := .opened }

/-- The constructors of `file`; they book the loop if there is no error. -/
def file (w : World) (l : ℕ) (ok : Bool) : World :=
  let w' := w.create ⟨.file, false, some l, none, .detached⟩
  if ok then w'.bookLoop w.next else w'

def watcherKind : Kind → Bool
  | .process | .file => false
  | _ => true

def streamKind : Kind → Bool
  | .tcp | .pipe => true
  | _ => false

/-- The loop that runs a new client of `h`, a stream which is open. -/
def serverLoop (w : World) (h : ℕ) : Option ℕ :=
  if .handle h ∈ w.vars ∧ streamKind (w.handles h).kind ∧ (w.handles h).link = .opened then
    (w.handles h).uvLoop
  else none

def loopLives (w : World) (h : ℕ) : Bool :=
  (w.handles h).uvLoop.any (fun l => w.mem.status (.loop l) = .live)

def finishClose (w : World) (h : ℕ) : World :=
  if w.freed h then { w with strayed := true } else w.setHandle h { w.handles h with link := .closed }

def act (w : World) : Event → Option World
  | .newLoop => some w.newLoop
  | .construct k l i => if .loop l ∈ w.vars ∧ watcherKind k then some (w.construct k l i) else none
  | .process l => if .loop l ∈ w.vars then some (w.process l) else none
  | .spawn h =>
    if .handle h ∈ w.vars ∧ (w.handles h).kind = .process then some (w.spawn h) else none
  | .file l ok => if .loop l ∈ w.vars then some (w.file l ok) else none
  | .accept h i => (w.serverLoop h).map (fun l => w.construct (w.handles h).kind l i)
  | .acceptPending h k i =>
    if (w.handles h).kind = .pipe ∧ streamKind k then
      (w.serverLoop h).map (fun l => w.construct k l i)
    else none
  | .copy o =>
    if o ∈ w.held then some { w with mem := w.mem.inc o, vars := o ::ₘ w.vars } else none
  | .drop o => if o ∈ w.vars then some ({ w with vars := w.vars.erase o }.unref o) else none
  | .retain h =>
    if .handle h ∈ w.held then
      some { w with mem := w.mem.inc (.handle h), selfRefs := h ::ₘ w.selfRefs }
    else none
  | .release h =>
    if h ∈ w.selfRefs then some ({ w with selfRefs := w.selfRefs.erase h }.handleUnref h) else none
  | .finishClose h =>
    if (w.handles h).link = .closing ∧ w.loopLives h then some (w.finishClose h) else none

/-- Nothing happens after the program has ended, and nothing is known after an access to
freed memory. -/
def step (w : World) (e : Event) : Option World := if w.threw ∨ w.strayed then none else w.act e

end World
end Uvcc.Loop
