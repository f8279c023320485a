import Uvcc.Counting.Holding
import Uvcc.Machine.Trace

/-!
# Variables of the four reference-counted classes

A `handle`, `request`, `loop` or `buffer` variable is one pointer to a counted
instance on the heap. The value operations below are the constructors, the
assignments, `swap` and the destructor of these classes; the four copies of the
code differ only in what `unref` does once the count is zero. The one reference
that is not a variable is the booking of a handle on its loop. A buffer has no
sink callback here.
-/
namespace Uvcc.Values
open Counting

inductive Counted where
  | handle
  | request
  | loop
  | buffer
  deriving DecidableEq, Repr

/-- A heap instance; its number is never used again. -/
structure Instance where
  cls : Counted
  id : ℕ
  deriving DecidableEq, Repr

/-- The pointer is null in a void variable, one that was moved from. -/
structure Variable where
  cls : Counted
  ptr : Option ℕ
  deriving DecidableEq, Repr

namespace Variable

def target (v : Variable) : Option Instance := v.ptr.map (fun k => ⟨v.cls, k⟩)

def void (v : Variable) : Variable := { v with ptr := none }

@[simp] theorem target_void (v : Variable) : v.void.target = none := rfl

end Variable

/-- What `close` finds in a handle instance: a `uv_handle_t`, whose type libuv may
have set, or the `uv_fs_t` of a file with its `result`. -/
inductive Embedded where
  | uvHandle (initialised : Bool)
  | uvFs (result : ℤ)
  deriving DecidableEq, Repr

/-- What the destruction of an instance does to the world outside. -/
inductive Effect where
  | uvClose (o : Instance)
  | uvFsClose (o : Instance) (fd : ℤ)
  | uvLoopClose (o : Instance)
  | destroyCb (o : Instance)
  | delete (o : Instance)
  deriving DecidableEq, Repr

/-- A slot of `vars` is `none` after its variable was destroyed. `embedded` tells for
a handle what libuv has made of it; a pair in `bookings` is a handle with a non-null
`loop_instance_ptr`, and that loop. -/
structure Store where
  mem : Ledger Instance
  vars : List (Option Variable)
  embedded : ℕ → Embedded
  bookings : List (ℕ × ℕ)
  next : ℕ
  effects : List Effect

namespace Store

def init : Store := ⟨Ledger.empty, [], fun _ => .uvHandle false, [], 0, []⟩

def record (s : Store) (es : List Effect) : Store := { s with effects := s.effects ++ es }

def requestDestroyInstance (s : Store) (o : Instance) : Store :=
  s.record [.destroyCb o, .delete o]

/-- `loop::instance::destroy`; deleting the instance closes the libuv loop. -/
def loopDestroy (s : Store) (o : Instance) : Store :=
  s.record [.destroyCb o, .uvLoopClose o, .delete o]

/-- `buffer::instance::destroy` without a sink callback. -/
def bufferDestroy (s : Store) (o : Instance) : Store :=
  s.record [.delete o]

/-- The common shape of `unref`: the decrement, and `destroy` at zero. -/
def unrefWith (destroy : Store → Instance → Store) (s : Store) (o : Instance) : Store :=
  let nrefs := s.mem.refs o - 1
  let s' := { s with mem := s.mem.dec o }
  if nrefs = 0 then destroy s' o else s'

def requestUnref : Store → Instance → Store := unrefWith requestDestroyInstance
def loopUnref : Store → Instance → Store := unrefWith loopDestroy
def bufferUnref : Store → Instance → Store := unrefWith bufferDestroy

def loopOf (s : Store) (h : ℕ) : Option ℕ := (s.bookings.find? (fun p => p.1 == h)).map Prod.snd

def unbookLoop (s : Store) (h : ℕ) : Store :=
  match s.loopOf h with
  | some k => ({ s with bookings := s.bookings.eraseP (fun p => p.1 == h) }).loopUnref ⟨.loop, k⟩
  | none => s

/-- Both `close` functions end alike: the destroy callback runs and the instance is
deleted, whose destructor gives up the loop. -/
def closeAfter (s : Store) (o : Instance) (es : List Effect) : Store :=
  ((s.record (es ++ [.destroyCb o])).unbookLoop o.id).record [.delete o]

/-- `handle::uv_handle_interface::close` with `close_cb`. -/
def uvHandleClose (s : Store) (o : Instance) (initialised : Bool) : Store :=
  s.closeAfter o (if initialised then [.uvClose o] else [])

def uvFsClose (s : Store) (o : Instance) (fd : ℤ) : Store :=
  s.closeAfter o (if 0 ≤ fd then [.uvFsClose o fd] else [])

/-- The virtual call `uv_interface_ptr->close()`. -/
def handleClose (s : Store) (o : Instance) : Store :=
  match s.embedded o.id with
  | .uvHandle initialised => s.uvHandleClose o initialised
  | .uvFs result => s.uvFsClose o result

def handleUnref : Store → Instance → Store := unrefWith handleClose

def unref (s : Store) (o : Instance) : Store :=
  match o.cls with
  | .handle => s.handleUnref o
  | .request => s.requestUnref o
  | .loop => s.loopUnref o
  | .buffer => s.bufferUnref o

def ref (s : Store) (o : Instance) : Store := { s with mem := s.mem.inc o }

/-- The null checks around `ref` and `unref`. -/
def ref? (s : Store) (o : Option Instance) : Store := o.elim s s.ref
def unref? (s : Store) (o : Option Instance) : Store := o.elim s s.unref

def var (s : Store) (i : ℕ) : Option Variable := s.vars[i]?.join

def setVar (s : Store) (i : ℕ) (v : Option Variable) : Store := { s with vars := s.vars.set i v }

def newVar (s : Store) (v : Variable) : Store := { s with vars := s.vars ++ [some v] }

def create (s : Store) (cls : Counted) (e : Embedded) : Store :=
  { s with
    mem := s.mem.create ⟨cls, s.next⟩
    vars := s.vars ++ [some ⟨cls, some s.next⟩]
    embedded := Function.update s.embedded s.next e
    next := s.next + 1 }

/-- A handle whose constructor books the loop `k`. -/
def createOn (s : Store) (k : ℕ) (e : Embedded) : Store :=
  let s' := s.create .handle e
  { s' with bookings := (s.next, k) :: s'.bookings }.ref ⟨.loop, k⟩

def copyConstruct (s : Store) (v : Variable) : Store := (s.ref? v.target).newVar v

def moveConstruct (s : Store) (j : ℕ) (v : Variable) : Store := (s.newVar v).setVar j (some v.void)

/-- `operator=(const T&)`: the new reference is taken before the old one goes. -/
def copyAssign (s : Store) (i j : ℕ) (u v : Variable) : Store :=
  if i = j then s else ((s.ref? v.target).setVar i (some v)).unref? u.target

def moveAssign (s : Store) (i j : ℕ) (u v : Variable) : Store :=
  if i = j then s else ((s.setVar i (some v)).setVar j (some v.void)).unref? u.target

def swap (s : Store) (i j : ℕ) (u v : Variable) : Store :=
  (s.setVar i (some v)).setVar j (some u)

def destruct (s : Store) (i : ℕ) (u : Variable) : Store := (s.setVar i none).unref? u.target

end Store

/-- The public value operations; variables are named by their slot. -/
inductive Op where
  | create (cls : Counted) (e : Embedded)
  | createOn (j : ℕ) (e : Embedded)
  | copyConstruct (j : ℕ)
  | moveConstruct (j : ℕ)
  | copyAssign (i j : ℕ)
  | moveAssign (i j : ℕ)
  | swap (i j : ℕ)
  | destruct (i : ℕ)
  deriving DecidableEq, Repr

/-- A binary operation needs two existing variables of one class. -/
def Store.binary (s : Store) (i j : ℕ) (f : Variable → Variable → Store) : Option Store :=
  (s.var i).bind fun u => (s.var j).bind fun v => if u.cls = v.cls then some (f u v) else none

def step (s : Store) : Op → Option Store
  | .create cls e => some (s.create cls e)
  | .createOn j e => (s.var j).bind fun v => match v.target with
    | some ⟨.loop, k⟩ => some (s.createOn k e)
    | _ => none
  | .copyConstruct j => (s.var j).map s.copyConstruct
  | .moveConstruct j => (s.var j).map (s.moveConstruct j)
  | .copyAssign i j => s.binary i j (s.copyAssign i j)
  | .moveAssign i j => s.binary i j (s.moveAssign i j)
  | .swap i j => s.binary i j (s.swap i j)
  | .destruct i => (s.var i).map (s.destruct i)

/-! ## The variables and the bookings as holders -/

def slotTarget (v : Option Variable) : Option Instance := v.bind Variable.target

@[simp] theorem slotTarget_some (v : Variable) : slotTarget (some v) = v.target := rfl
@[simp] theorem slotTarget_none : slotTarget none = none := rfl

def holdersOf (vars : List (Option Variable)) : Multiset Instance := ↑(vars.filterMap slotTarget)

namespace Store

def bookedLoops (s : Store) : Multiset Instance := ↑(s.bookings.map fun p => (⟨.loop, p.2⟩ : Instance))

def holders (s : Store) : Multiset Instance := holdersOf s.vars + s.bookedLoops

def holding (s : Store) : Holding Instance := ⟨s.mem, s.holders⟩

def varCount (s : Store) (o : Instance) : ℕ := s.vars.countP (fun v => slotTarget v == some o)

def bookCount (s : Store) (o : Instance) : ℕ :=
  s.bookings.countP (fun p => (⟨.loop, p.2⟩ : Instance) == o)

theorem count_holders (s : Store) (o : Instance) :
    s.holders.count o = s.varCount o + s.bookCount o := by
  have hv : (holdersOf s.vars).count o = s.varCount o := by
    rw [holdersOf, Multiset.coe_count, varCount]
    induction s.vars with
    | nil => rfl
    | cons v vs ih =>
      rw [List.filterMap_cons, List.countP_cons]
      cases hv : slotTarget v with
      | none => simp [ih]
      | some a => simp [List.count_cons, ih]
  have hb : s.bookedLoops.count o = s.bookCount o := by
    rw [bookedLoops, Multiset.coe_count, bookCount, List.count, List.countP_map]
    rfl
  rw [holders, Multiset.count_add, hv, hb]

end Store

theorem holdersOf_append (l r : List (Option Variable)) :
    holdersOf (l ++ r) = holdersOf l + holdersOf r := by
  simp [holdersOf, List.filterMap_append]

theorem holdersOf_cons (v : Option Variable) (r : List (Option Variable)) :
    holdersOf (v :: r) = ↑(slotTarget v).toList + holdersOf r := by
  cases h : slotTarget v <;> simp [holdersOf, h]

@[simp] theorem holdersOf_singleton (v : Variable) :
    holdersOf [some v] = (↑v.target.toList : Multiset Instance) := by
  rw [holdersOf_cons]
  simp [holdersOf]

/-- A slot contributes its target; the rest of the list does not depend on it. -/
theorem holdersOf_set {vars : List (Option Variable)} {i : ℕ} {v : Option Variable}
    (h : vars[i]? = some v) : ∃ R : Multiset Instance,
      holdersOf vars = ↑(slotTarget v).toList + R ∧
      ∀ w, holdersOf (vars.set i w) = ↑(slotTarget w).toList + R := by
  obtain ⟨hi, rfl⟩ := List.getElem?_eq_some_iff.mp h
  have hmid (w : Option Variable) : holdersOf (vars.take i ++ w :: vars.drop (i + 1)) =
      ↑(slotTarget w).toList + (holdersOf (vars.take i) + holdersOf (vars.drop (i + 1))) := by
    rw [holdersOf_append, holdersOf_cons, add_left_comm]
  refine ⟨holdersOf (vars.take i) + holdersOf (vars.drop (i + 1)), ?_, fun w => ?_⟩
  · rw [← hmid, List.getElem_cons_drop, List.take_append_drop]
  · rw [← hmid, List.set_eq_take_append_cons_drop, if_pos hi]

end Uvcc.Values
