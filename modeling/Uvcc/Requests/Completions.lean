import Uvcc.Counting.Ledger
import Uvcc.Machine.Trace
import Uvcc.Requests.Shapes

/-!
# Requests, their completions and their callbacks

Handles, buffers and requests with their counts, while any number of requests run
and complete in any order. A completion finds what it releases in the fields of the
request; a callback may drop variables and run the same request on other objects
before the guards of its completion let go.
-/
namespace Uvcc.Requests
open Counting Machine

/-- What a pointer refers to; nothing is ever created at `null`. -/
inductive Obj where
  | null
  | handle (n : ℕ)
  | buffer (n : ℕ)
  | request (n : ℕ)
  deriving DecidableEq, Repr

/-- What a constructor without a class creates. -/
def Obj.plain : Obj → Bool
  | .handle _ | .buffer _ => true
  | .null | .request _ => false

/-- The arguments of `run`; an overload uses those it has. -/
structure Args where
  handle : ℕ
  second : ℕ
  buffer : ℕ

def Args.obj (a : Args) (r : ℕ) : Role → Obj
  | .handle => .handle a.handle
  | .second => .handle a.second
  | .buffer => .buffer a.buffer
  | .request => .request r

/-- What a guard adopts when the fields of the request `r` are `fs`. -/
def Guard.objs (r : ℕ) (fs : Field → Obj) : Guard → List Obj
  | .self => [.request r]
  | .field f => [fs f]
  | .ifSet f => if fs f = .null then [] else [fs f]

/-- An accepted run whose completion has not come. `tag` tells the runs apart. -/
structure Pending where
  request : ℕ
  run : Run
  tag : ℕ
  deriving DecidableEq, Repr

/-- A request callback in progress: the guards around it, the buffer handed to it,
the arguments that still hold their references and those it has moved from. -/
structure Frame where
  request : ℕ
  tag : ℕ
  guards : List Obj
  buffer : List Obj
  args : List Obj
  moved : List Obj

def Frame.move (f : Frame) (o : Obj) : Frame :=
  { f with args := f.args.erase o, moved := o :: f.moved }

def Frame.holds (f : Frame) : Multiset Obj := ↑(f.args ++ f.guards.reverse)

/-- `vars` are the references held by variables of the program. `added` and
`released` account for the references of each run: what it added, and what was
given back or handed on in its name. The code has no such record. -/
structure World where
  mem : Ledger Obj
  vars : Multiset Obj
  cls : ℕ → Option Class
  callback : ℕ → Bool
  fields : ℕ → Field → Obj
  pending : Multiset Pending
  frames : List Frame
  runs : ℕ
  added : ℕ → Multiset Obj
  released : ℕ → Multiset Obj

inductive Event where
  | create (o : Obj)
  | construct (r : ℕ) (c : Class)
  | copy (o : Obj)
  | drop (o : Obj)
  | onRequest (r : ℕ) (callback : Bool)
  | run (r : ℕ) (k : Run) (a : Args) (out ret : ℤ)
  | complete (p : Pending)
  | moveArg (o : Obj)
  | callbackReturn

namespace World

def init : World where
  mem := Ledger.empty
  vars := 0
  cls := fun _ => none
  callback := fun _ => false
  fields := fun _ _ => .null
  pending := 0
  frames := []
  runs := 0
  added := fun _ => 0
  released := fun _ => 0

/-- The guards of the completion of `p`, and its buffer, as the fields are now. -/
def guards (w : World) (p : Pending) : List Obj :=
  p.run.shape.guards.flatMap (Guard.objs p.request (w.fields p.request))

def buffer (w : World) (p : Pending) : List Obj :=
  p.run.shape.passes.toList.map (w.fields p.request)

/-- What the completion of `p` is going to take over. -/
def owes (w : World) (p : Pending) : Multiset Obj := ↑(w.guards p ++ w.buffer p)

def held (w : World) : Multiset Obj :=
  w.vars + (w.pending.map w.owes).sum + (w.frames.map Frame.holds).sum

def assign (w : World) (r : ℕ) (a : Args) (st : Stores) : World :=
  { w with
    fields := Function.update w.fields r (fun f =>
      (st.lookup f).elim (w.fields r f) (fun x => x.elim .null (a.obj r))) }

def reference (w : World) (os : List Obj) : World :=
  { w with
    mem := w.mem.incs os
    runs := w.runs + 1
    added := Function.update w.added w.runs os }

def release (w : World) (t : ℕ) (os : List Obj) : World :=
  { w with
    mem := w.mem.decs os
    released := Function.update w.released t (w.released t + os) }

def await (w : World) (p : Pending) : World := { w with pending := p ::ₘ w.pending }

def submit (w : World) (r : ℕ) (k : Run) (a : Args) (ret : ℤ) : World :=
  let s := k.shape
  let w' := (w.reference (s.refs.map (a.obj r))).assign r a s.stores
  match s.unrefs, decide (ret < 0) with
  | some us, true => w'.release w.runs (us.map (a.obj r))
  | _, _ => (w'.assign r a s.keeps).await ⟨r, k, w.runs⟩

/-- `run`; `out` is the descriptor of `fs::sendfile`'s output and `ret` what the
libuv function returns. -/
def run (w : World) (r : ℕ) (k : Run) (a : Args) (out ret : ℤ) : World :=
  if k.shape.checksFd ∧ out = -1 then w
  else match k.shape.sync, w.callback r with
    | some st, false => w.assign r a st
    | _, _ => w.submit r k a ret

def enter (w : World) (p : Pending) : Frame where
  request := p.request
  tag := p.tag
  guards := w.guards p
  buffer := w.buffer p
  args := .request p.request :: w.buffer p
  moved := []

/-- The completion callback given to libuv. Without a request callback the buffer
and then the guards, the last one first, are released at once. -/
def complete (w : World) (p : Pending) : World :=
  let w' := { w with pending := w.pending.erase p }
  if w.callback p.request then
    { w' with
      mem := w.mem.inc (.request p.request)
      released := Function.update w.released p.tag (w.released p.tag + w.buffer p)
      frames := w.enter p :: w.frames }
  else w'.release p.tag (w.buffer p ++ (w.guards p).reverse)

/-- The request callback returns: its arguments go, then the guards. -/
def leave (w : World) (f : Frame) (fs : List Frame) : World :=
  { w with
    mem := w.mem.decs (f.args ++ f.guards.reverse)
    frames := fs
    released := Function.update w.released f.tag (w.released f.tag + f.guards) }

/-- A run needs participants that are alive, and a request that is not pending. -/
structure Runs (w : World) (r : ℕ) (k : Run) (a : Args) : Prop where
  cls : w.cls r = some k.cls
  idle : ∀ p ∈ w.pending, p.request ≠ r
  args : ∀ ρ ∈ k.shape.refs, a.obj r ρ ∈ w.held

instance (w : World) (r : ℕ) (k : Run) (a : Args) : Decidable (w.Runs r k a) :=
  decidable_of_iff (w.cls r = some k.cls ∧ (∀ p ∈ w.pending, p.request ≠ r) ∧
    ∀ ρ ∈ k.shape.refs, a.obj r ρ ∈ w.held)
    ⟨fun h => ⟨h.1, h.2.1, h.2.2⟩, fun h => ⟨h.cls, h.idle, h.args⟩⟩

def step (w : World) : Event → Option World
  | .create o =>
    if o.plain ∧ w.mem.status o = .unborn then
      some { w with mem := w.mem.create o, vars := o ::ₘ w.vars }
    else none
  | .construct r c =>
    if w.mem.status (.request r) = .unborn then
      some { w with
        mem := w.mem.create (.request r)
        vars := .request r ::ₘ w.vars
        cls := Function.update w.cls r (some c) }
    else none
  | .copy o =>
    if o ∈ w.held then some { w with mem := w.mem.inc o, vars := o ::ₘ w.vars } else none
  | .drop o =>
    if o ∈ w.vars then some { w with mem := w.mem.dec o, vars := w.vars.erase o } else none
  | .onRequest r b =>
    if .request r ∈ w.held then some { w with callback := Function.update w.callback r b }
    else none
  | .run r k a out ret => if w.Runs r k a then some (w.run r k a out ret) else none
  | .complete p => if p ∈ w.pending then some (w.complete p) else none
  | .moveArg o =>
    match w.frames with
    | [] => none
    | f :: fs =>
      if o ∈ f.args then some { w with vars := o ::ₘ w.vars, frames := f.move o :: fs } else none
  | .callbackReturn =>
    match w.frames with
    | [] => none
    | f :: fs => some (w.leave f fs)

end World
end Uvcc.Requests
