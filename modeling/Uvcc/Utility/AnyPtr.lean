import Uvcc.Counting.Slots
import Uvcc.Machine.Trace

/-!
# Pointers to objects of any type

`any_ptr` owns an object whose type is fixed when the pointer is handed over: it keeps
the deleter and the type beside the raw pointer. Two of its functions take equal
addresses for a sign that there is nothing to do, and an address is free again once its
object has been deleted.
-/
namespace Uvcc.Utility
open Counting Machine

/-- A raw pointer that is not null, with the object it was made for. -/
structure Pointer where
  address : ℕ
  object : ℕ
  deriving DecidableEq, Repr

def sameAddress (p q : Option Pointer) : Bool := p.map Pointer.address == q.map Pointer.address

/-- The types of all objects allocated so far, which are numbered from 0, the pointers to
those that are alive, the calls of deleters, each with its object and the type it deletes,
and the pointers that `release()` has returned. -/
structure Heap (T : Type*) where
  types : List T
  live : List Pointer
  deleted : List (ℕ × T)
  released : List Pointer
  deriving DecidableEq, Repr

namespace Heap
variable {T : Type*}

def empty : Heap T := ⟨[], [], [], []⟩

def delete (h : Heap T) (type : T) : Option Pointer → Heap T
  | some p => { h with live := h.live.erase p, deleted := (p.object, type) :: h.deleted }
  | none => h

/-- What is handed over: a null pointer, or a new object at an address that is not in use. -/
def handOver (h : Heap T) (type : T) : Option ℕ → Option (Heap T × Option Pointer)
  | some a =>
    if ∀ p ∈ h.live, p.address ≠ a then
      some ({ h with
        types := h.types ++ [type]
        live := ⟨a, h.types.length⟩ :: h.live }, some ⟨a, h.types.length⟩)
    else none
  | none => some (h, none)

end Heap

/-- The fields of a variable, and whether it was built from a null pointer. -/
structure AnyPtr (T : Type*) where
  typeTag : Option T
  delete : Option T
  ptr : Option Pointer
  fromNull : Bool
  deriving DecidableEq, Repr

namespace AnyPtr
variable {T : Type*}

/-- `any_ptr()` and `any_ptr(nullptr)`; `release()` leaves the same. -/
def void : AnyPtr T := ⟨none, none, none, false⟩

def ofPointer (type : T) (p : Option Pointer) : AnyPtr T := ⟨some type, some type, p, p.isNone⟩

/-- `destroy`, which leaves `ptr` as it is. -/
def destroy (v : AnyPtr T) (h : Heap T) : Heap T × AnyPtr T :=
  (match v.delete with
    | some type => h.delete type v.ptr
    | none => h,
  { v with delete := none, typeTag := none, fromNull := false })

def moveAssign (v that : AnyPtr T) (h : Heap T) : Heap T × AnyPtr T × AnyPtr T :=
  if sameAddress v.ptr that.ptr then (h, v, that) else ((v.destroy h).1, that, void)

def reset (v : AnyPtr T) (type : T) (p : Option Pointer) (h : Heap T) : Heap T × AnyPtr T :=
  if sameAddress v.ptr p then (h, v) else ((v.destroy h).1, ofPointer type p)

def object (v : AnyPtr T) : Option ℕ := v.ptr.map Pointer.object

/-- A pointer is that of an object which is alive, with the deleter and the tag of its
type; a null pointer has no tag, unless the variable was built from one. -/
structure Fits (v : AnyPtr T) (h : Heap T) : Prop where
  owner : ∀ p, v.ptr = some p → p ∈ h.live ∧
    ∃ type, h.types[p.object]? = some type ∧ v.delete = some type ∧ v.typeTag = some type
  void : v.ptr = none → v.fromNull = false → v.typeTag = none

theorem Fits.mono {v : AnyPtr T} {h h' : Heap T} (hv : v.Fits h)
    (hlive : ∀ p, v.ptr = some p → p ∈ h.live → p ∈ h'.live)
    (htypes : ∀ (o : ℕ) (type : T), h.types[o]? = some type → h'.types[o]? = some type) : v.Fits h' where
  owner p hp := by
    obtain ⟨hmem, type, htype, hfields⟩ := hv.owner p hp
    exact ⟨hlive p hp hmem, type, htypes p.object type htype, hfields⟩
  void := hv.void

theorem void_fits (h : Heap T) : (void : AnyPtr T).Fits h := ⟨nofun, fun _ _ => rfl⟩

end AnyPtr

/-- The variables, of which those that were destroyed are `none`. -/
structure AnyPtrs (T : Type*) where
  heap : Heap T
  vars : List (Option (AnyPtr T))
  deriving DecidableEq, Repr

/-- `dispose` is the program's own deletion of an object that it got back. -/
inductive AnyPtrEvent (T : Type*) where
  | create
  | construct (type : T) (address : Option ℕ)
  | moveConstruct (i : ℕ)
  | moveAssign (i j : ℕ)
  | assignNull (i : ℕ)
  | resetNull (i : ℕ)
  | reset (i : ℕ) (type : T) (address : Option ℕ)
  | release (i : ℕ)
  | destruct (i : ℕ)
  | dispose (i : ℕ)
  deriving DecidableEq, Repr

namespace AnyPtrs
variable {T : Type*}

def init : AnyPtrs T := ⟨.empty, []⟩

def var (s : AnyPtrs T) (i : ℕ) : Option (AnyPtr T) := s.vars[i]?.join

def step (s : AnyPtrs T) : AnyPtrEvent T → Option (AnyPtrs T)
  | .create => some { s with vars := s.vars ++ [some .void] }
  | .construct type address => (s.heap.handOver type address).map fun x =>
    ⟨x.1, s.vars ++ [some (.ofPointer type x.2)]⟩
  | .moveConstruct i => (s.var i).map fun v =>
    { s with vars := s.vars.set i (some .void) ++ [some v] }
  | .moveAssign i j => (s.var i).bind fun v => (s.var j).map fun that =>
    let x := v.moveAssign that s.heap
    ⟨x.1, (s.vars.set i (some x.2.1)).set j (some x.2.2)⟩
  | .assignNull i => (s.var i).map fun v => ⟨(v.destroy s.heap).1, s.vars.set i (some (v.destroy s.heap).2)⟩
  | .resetNull i => (s.var i).map fun v => ⟨(v.destroy s.heap).1, s.vars.set i (some (v.destroy s.heap).2)⟩
  | .reset i type address => (s.var i).bind fun v => (s.heap.handOver type address).map fun x =>
    ⟨(v.reset type x.2 x.1).1, s.vars.set i (some (v.reset type x.2 x.1).2)⟩
  | .release i => (s.var i).map fun v =>
    ⟨{ s.heap with released := v.ptr.toList ++ s.heap.released }, s.vars.set i (some .void)⟩
  | .destruct i => (s.var i).map fun v => ⟨(v.destroy s.heap).1, s.vars.set i none⟩
  | .dispose i => s.heap.released[i]?.map fun p => { s with heap.live := s.heap.live.erase p }

/-- Every object handed over is deleted once at most, by the deleter of its type, and is
released or held by a variable that will delete it otherwise. No variable has a pointer to
an object that is gone, or a tag without a pointer, or the other way round. -/
structure OwnsOnce (s : AnyPtrs T) : Prop where
  once : (s.heap.deleted.map Prod.fst).Nodup
  own : ∀ x ∈ s.heap.deleted, s.heap.types[x.1]? = some x.2
  kept : ∀ o type, s.heap.types[o]? = some type → o ∈ s.heap.deleted.map Prod.fst ∨
    o ∈ s.heap.released.map Pointer.object ∨
    ∃ v, some v ∈ s.vars ∧ v.ptr.map Pointer.object = some o ∧ v.delete = some type
  valid : ∀ v, some v ∈ s.vars → ∀ p, v.ptr = some p → p ∈ s.heap.live
  tagged : ∀ v, some v ∈ s.vars → v.fromNull = false → v.typeTag.isSome = v.ptr.isSome

def ClearsNone (s : AnyPtrs T) : AnyPtrEvent T → Prop
  | .assignNull i | .resetNull i => ∀ v, s.var i = some v → v.ptr = none
  | _ => True

/-! ## Where each object is -/

def held (vars : List (Option (AnyPtr T))) : Multiset ℕ :=
  slotHolders (vars.map fun o => o.bind AnyPtr.object)

theorem held_append (vars : List (Option (AnyPtr T))) (o : Option (AnyPtr T)) :
    held (vars ++ [o]) = ↑(o.bind AnyPtr.object).toList + held vars := by
  rw [held, List.map_append, List.map_singleton, slotHolders_append]
  rfl

theorem held_set {vars : List (Option (AnyPtr T))} {i : ℕ} {u : Option (AnyPtr T)}
    (h : vars[i]? = some u) (w : Option (AnyPtr T)) :
    held (vars.set i w) + ↑(u.bind AnyPtr.object).toList =
      ↑(w.bind AnyPtr.object).toList + held vars := by
  have hi : (vars.map fun o => o.bind AnyPtr.object)[i]? = some (u.bind AnyPtr.object) := by
    rw [List.getElem?_map, h]
    rfl
  rw [held, List.map_set]
  exact slotHolders_set _ hi _

/-- Each object allocated is held, deleted, released, or among `H`, which a call has in its
hands; every variable fits the heap. -/
structure Sound (h : Heap T) (vars : List (Option (AnyPtr T))) (H : Multiset ℕ) : Prop where
  parts : held vars + (H + (↑(h.deleted.map Prod.fst) + ↑(h.released.map Pointer.object))) =
    Multiset.range h.types.length
  own : ∀ x ∈ h.deleted, h.types[x.1]? = some x.2
  fits : ∀ v, some v ∈ vars → v.Fits h

def Inv (s : AnyPtrs T) : Prop := Sound s.heap s.vars 0

variable {h h' : Heap T} {vars : List (Option (AnyPtr T))} {H : Multiset ℕ} {v w : AnyPtr T}
  {s t : AnyPtrs T} {i j : ℕ}

theorem init_inv : (init : AnyPtrs T).Inv where
  parts := rfl
  own := nofun
  fits := nofun

theorem Sound.nodup (hs : Sound h vars H) :
    (held vars + (H + (↑(h.deleted.map Prod.fst) + ↑(h.released.map Pointer.object)))).Nodup := by
  rw [hs.parts]
  exact Multiset.nodup_range _

theorem Inv.ownsOnce (hs : s.Inv) : s.OwnsOnce where
  once := by
    have hnodup := hs.nodup
    rw [Multiset.nodup_add, zero_add, Multiset.nodup_add] at hnodup
    exact hnodup.2.1.1
  own := hs.own
  kept o type ho := by
    have hlt : o ∈ Multiset.range s.heap.types.length :=
      Multiset.mem_range.mpr (List.getElem?_eq_some_iff.mp ho).1
    rw [← hs.parts, zero_add, Multiset.mem_add, Multiset.mem_add] at hlt
    rcases hlt with hheld | hdeleted | hreleased
    · obtain ⟨u, hu, hobj⟩ := List.mem_filterMap.mp hheld
      obtain ⟨x, hx, rfl⟩ := List.mem_map.mp hu
      obtain ⟨v, rfl, hv⟩ := Option.bind_eq_some_iff.mp hobj
      obtain ⟨p, hp, rfl⟩ := Option.map_eq_some_iff.mp hv
      obtain ⟨_, t, ht, hdel, _⟩ := (hs.fits v hx).owner p hp
      obtain rfl : t = type := Option.some.inj (ht.symm.trans ho)
      exact .inr (.inr ⟨v, hx, hv, hdel⟩)
    · exact .inl hdeleted
    · exact .inr (.inl hreleased)
  valid v hv p hp := ((hs.fits v hv).owner p hp).1
  tagged v hv hnull := by
    cases hp : v.ptr with
    | none =>
      rw [((hs.fits v hv).void hp hnull)]
      rfl
    | some p =>
      obtain ⟨_, t, _, _, htag⟩ := (hs.fits v hv).owner p hp
      rw [htag]
      rfl

/-! ## The parts of a call -/

/-- A slot is written, and its old object is in the hands of the call. -/
theorem Sound.put {u o : Option (AnyPtr T)} (hs : Sound h vars (↑(o.bind AnyPtr.object).toList + H))
    (hi : vars[i]? = some u) (ho : ∀ v, o = some v → v.Fits h) :
    Sound h (vars.set i o) (↑(u.bind AnyPtr.object).toList + H) where
  parts := by
    rw [add_assoc, ← add_assoc (held _), held_set hi, ← hs.parts]
    abel
  own := hs.own
  fits v hv := by
    rcases List.mem_or_eq_of_mem_set hv with hold | hnew
    · exact hs.fits v hold
    · exact ho v hnew.symm

theorem Sound.append {o : Option (AnyPtr T)} (hs : Sound h vars (↑(o.bind AnyPtr.object).toList + H))
    (ho : ∀ v, o = some v → v.Fits h) : Sound h (vars ++ [o]) H where
  parts := by
    rw [held_append, ← hs.parts]
    abel
  own := hs.own
  fits v hv := by
    rcases List.mem_append.mp hv with hold | hnew
    · exact hs.fits v hold
    · exact ho v (List.mem_singleton.mp hnew).symm

/-- An object that no variable holds goes. -/
theorem Sound.erase {p : Pointer} (hs : Sound h vars H) (hlive : h'.live = h.live.erase p)
    (htypes : h'.types = h.types) (hp : p.object ∉ held vars) (hv : some v ∈ vars) : v.Fits h' := by
  refine (hs.fits v hv).mono (fun q hq hmem => ?_) fun o type ho => by rw [htypes]; exact ho
  have hne : q ≠ p := by
    rintro rfl
    refine hp (List.mem_filterMap.mpr ⟨some q.object, List.mem_map.mpr ⟨some v, hv, ?_⟩, rfl⟩)
    rw [Option.bind_some, AnyPtr.object, hq]
    rfl
  rw [hlive]
  exact (List.mem_erase_of_ne hne).mpr hmem

/-- `destroy` deletes the object of the variable. -/
theorem Sound.destroy (hs : Sound h vars (↑v.object.toList + H)) (hv : v.Fits h) :
    Sound (v.destroy h).1 vars H := by
  cases hp : v.ptr with
  | none =>
    have hsame : (v.destroy h).1 = h := by
      unfold AnyPtr.destroy
      rw [hp]
      cases v.delete <;> rfl
    have hnone : v.object = none := by rw [AnyPtr.object, hp]; rfl
    rw [hnone, Option.toList_none, Multiset.coe_nil, zero_add] at hs
    rw [hsame]
    exact hs
  | some p =>
    obtain ⟨_, type, htype, hdelete, _⟩ := hv.owner p hp
    have hdel : (v.destroy h).1 = h.delete type (some p) := by
      unfold AnyPtr.destroy
      rw [hp, hdelete]
    have hobj : v.object = some p.object := by rw [AnyPtr.object, hp]; rfl
    rw [hobj, Option.toList_some, Multiset.coe_singleton] at hs
    have hp' : p.object ∉ held vars := by
      have hnodup := hs.nodup
      rw [Multiset.nodup_add] at hnodup
      exact fun hmem => Multiset.disjoint_left.mp hnodup.2.2 hmem (by simp)
    rw [hdel]
    refine ⟨?_, ?_, fun u hu => hs.erase rfl rfl hp' hu⟩
    · rw [Heap.delete, List.map_cons, ← Multiset.cons_coe, ← Multiset.singleton_add, ← hs.parts]
      abel
    · exact List.forall_mem_cons.mpr ⟨htype, hs.own⟩

/-- A pointer that is handed over is in the hands of the call, and is none of those that the
variables have. -/
theorem Sound.handOver {type : T} {a : Option ℕ} {p : Option Pointer} (hs : Sound h vars 0)
    (hh : h.handOver type a = some (h', p)) :
    Sound h' vars ↑(p.map Pointer.object).toList ∧ (AnyPtr.ofPointer type p).Fits h' ∧
      ∀ v, some v ∈ vars → sameAddress v.ptr p = true → v.ptr = none ∧ p = none := by
  cases a with
  | none =>
    obtain ⟨rfl, rfl⟩ := Prod.mk.inj (Option.some.inj hh)
    refine ⟨hs, ⟨nofun, fun _ hnull => nomatch hnull⟩, fun v _ hsame => ⟨?_, rfl⟩⟩
    simpa [sameAddress] using hsame
  | some a =>
    simp only [Heap.handOver, Option.ite_none_right_eq_some, Option.some.injEq, Prod.mk.injEq] at hh
    obtain ⟨hfree, rfl, rfl⟩ := hh
    have hnew : (h.types ++ [type])[h.types.length]? = some type := List.getElem?_concat_length
    have hgrown : ∀ (o : ℕ) (u : T), h.types[o]? = some u → (h.types ++ [type])[o]? = some u := by
      intro o u ho
      rw [List.getElem?_append_left (List.getElem?_eq_some_iff.mp ho).1]
      exact ho
    refine ⟨⟨?_, fun x hx => hgrown _ _ (hs.own x hx), fun v hv => ?_⟩, ⟨?_, nofun⟩, fun v hv hsame => ?_⟩
    · rw [List.length_append, List.length_singleton, Multiset.range_succ, ← hs.parts,
        ← Multiset.singleton_add]
      change held vars + (({h.types.length} : Multiset ℕ) + _) = _
      abel
    · exact (hs.fits v hv).mono (fun q _ hq => List.mem_cons_of_mem _ hq) hgrown
    · rintro q hq
      obtain rfl := Option.some.inj hq
      exact ⟨List.mem_cons_self, type, hnew, rfl, rfl⟩
    · cases hp : v.ptr with
      | none =>
        rw [hp] at hsame
        cases hsame
      | some q =>
        have hq := ((hs.fits v hv).owner q hp).1
        rw [hp] at hsame
        exact absurd (by simpa [sameAddress] using hsame) (hfree q hq)

/-- `release` gives the object back. -/
theorem Sound.release {p : Option Pointer} (hs : Sound h vars ↑(p.map Pointer.object).toList) :
    Sound { h with released := p.toList ++ h.released } vars 0 where
  parts := by
    rw [← hs.parts]
    cases p with
    | none => rfl
    | some p =>
      rw [Option.map_some, Option.toList_some, Option.toList_some, List.singleton_append,
        List.map_cons, ← Multiset.cons_coe, ← Multiset.singleton_add, Multiset.coe_singleton]
      abel
  own := hs.own
  fits v hv := (hs.fits v hv).mono (fun _ _ hq => hq) fun _ _ ho => ho

/-! ## A step -/

theorem var_eq (h : s.var i = some v) : s.vars[i]? = some (some v) := Option.join_eq_some_iff.mp h

theorem mem_vars (h : s.var i = some v) : some v ∈ s.vars := List.mem_of_getElem? (var_eq h)

theorem set_var (h : s.var i = some v) : s.vars.set i (some v) = s.vars := by
  obtain ⟨hlt, heq⟩ := List.getElem?_eq_some_iff.mp (var_eq h)
  rw [← heq]
  exact List.set_getElem_self hlt

theorem Inv.fits (hs : s.Inv) (h : s.var i = some v) : v.Fits s.heap := Sound.fits hs v (mem_vars h)

/-- The object of a variable is in the hands of a call that empties it. -/
theorem Inv.take (hs : s.Inv) (h : s.var i = some v) {o : Option (AnyPtr T)} (ho : o = some .void ∨ o = none) :
    Sound s.heap (s.vars.set i o) ↑v.object.toList := by
  have hnone : o.bind AnyPtr.object = none := by
    rcases ho with rfl | rfl
    · rfl
    · rfl
  have hhands : Sound s.heap s.vars (↑(o.bind AnyPtr.object).toList + 0) := by
    rw [hnone]
    exact hs
  have hput := hhands.put (var_eq h) fun u hu => by
    rcases ho with rfl | rfl
    · obtain rfl := Option.some.inj hu
      exact AnyPtr.void_fits s.heap
    · cases hu
  rw [add_zero] at hput
  exact hput

/-- Nothing is deleted for a variable without an object. -/
theorem Inv.clear (hs : s.Inv) (h : s.var i = some v) (hp : v.ptr = none) :
    Sound (v.destroy s.heap).1 (s.vars.set i (some (v.destroy s.heap).2)) 0 := by
  have hobj : v.object = none := by rw [AnyPtr.object, hp]; rfl
  have hfits : (v.destroy s.heap).2.Fits s.heap :=
    ⟨fun p hq => absurd (hp.symm.trans hq) nofun, fun _ _ => rfl⟩
  have hhands : Sound s.heap s.vars (↑(Option.bind (some (v.destroy s.heap).2) AnyPtr.object).toList + 0) := by
    change Sound s.heap s.vars (↑v.object.toList + 0)
    rw [hobj]
    exact hs
  have hput := hhands.put (var_eq h) fun u hu => Option.some.inj hu ▸ hfits
  exact Sound.destroy (v := v) hput (hs.fits h)

theorem Inv.moveAssign (hs : s.Inv) (hi : s.var i = some v) (hj : s.var j = some w) :
    Sound (v.moveAssign w s.heap).1
      ((s.vars.set i (some (v.moveAssign w s.heap).2.1)).set j (some (v.moveAssign w s.heap).2.2)) 0 := by
  unfold AnyPtr.moveAssign
  split_ifs with hsame
  · dsimp only
    rw [set_var hi, set_var hj]
    exact hs
  · have hij : i ≠ j := by
      rintro rfl
      obtain rfl := Option.some.inj (hi.symm.trans hj)
      exact hsame (beq_self_eq_true _)
    have htake := hs.take hj (.inl rfl)
    have hi' : (s.vars.set j (some .void))[i]? = some (some v) := by
      rw [List.getElem?_set_ne hij.symm]
      exact var_eq hi
    rw [← add_zero (↑w.object.toList : Multiset ℕ)] at htake
    have hput := Sound.put (o := some w) htake hi' fun u hu => Option.some.inj hu ▸ hs.fits hj
    rw [List.set_comm _ _ hij]
    exact Sound.destroy hput (hs.fits hi)

theorem Inv.reset {type : T} {a : Option ℕ} {p : Option Pointer} (hs : s.Inv) (hi : s.var i = some v)
    (hh : s.heap.handOver type a = some (h', p)) :
    Sound (v.reset type p h').1 (s.vars.set i (some (v.reset type p h').2)) 0 := by
  obtain ⟨hsound, hfits, hother⟩ := Sound.handOver hs hh
  unfold AnyPtr.reset
  split_ifs with hsame
  · obtain ⟨_, rfl⟩ := hother v (mem_vars hi) hsame
    dsimp only
    rw [set_var hi]
    exact hsound
  · have hput := Sound.put (o := some (AnyPtr.ofPointer type p)) (H := 0) (by rwa [add_zero]) (var_eq hi)
      fun u hu => Option.some.inj hu ▸ hfits
    exact Sound.destroy hput (hsound.fits v (mem_vars hi))

theorem step_inv {e : AnyPtrEvent T} (hs : s.Inv) (hok : s.ClearsNone e) (h : s.step e = some t) :
    t.Inv := by
  cases e with
  | create =>
    obtain rfl := Option.some.inj h
    exact Sound.append (o := some .void) hs fun v hv => Option.some.inj hv ▸ AnyPtr.void_fits s.heap
  | construct type address =>
    obtain ⟨⟨h', p⟩, hh, rfl⟩ := Option.map_eq_some_iff.mp h
    obtain ⟨hsound, hfits, _⟩ := Sound.handOver hs hh
    exact Sound.append (o := some (.ofPointer type p)) (by rwa [add_zero])
      fun v hv => Option.some.inj hv ▸ hfits
  | moveConstruct i =>
    obtain ⟨v, hi, rfl⟩ := Option.map_eq_some_iff.mp h
    exact Sound.append (o := some v) (by rw [add_zero]; exact hs.take hi (.inl rfl))
      fun u hu => Option.some.inj hu ▸ hs.fits hi
  | moveAssign i j =>
    obtain ⟨v, hi, hmap⟩ := Option.bind_eq_some_iff.mp h
    obtain ⟨w, hj, rfl⟩ := Option.map_eq_some_iff.mp hmap
    exact hs.moveAssign hi hj
  | assignNull i | resetNull i =>
    obtain ⟨v, hi, rfl⟩ := Option.map_eq_some_iff.mp h
    exact hs.clear hi (hok v hi)
  | reset i type address =>
    obtain ⟨v, hi, hmap⟩ := Option.bind_eq_some_iff.mp h
    obtain ⟨⟨h', p⟩, hh, rfl⟩ := Option.map_eq_some_iff.mp hmap
    exact hs.reset hi hh
  | release i =>
    obtain ⟨v, hi, rfl⟩ := Option.map_eq_some_iff.mp h
    exact Sound.release (hs.take hi (.inl rfl))
  | destruct i =>
    obtain ⟨v, hi, rfl⟩ := Option.map_eq_some_iff.mp h
    have htake := hs.take hi (.inr rfl)
    rw [← add_zero (↑v.object.toList : Multiset ℕ)] at htake
    exact htake.destroy (hs.fits hi)
  | dispose i =>
    obtain ⟨p, hp, rfl⟩ := Option.map_eq_some_iff.mp h
    have hgone : p.object ∉ held s.vars := by
      have hnodup := hs.nodup
      rw [Multiset.nodup_add] at hnodup
      have hmem : p.object ∈ (s.heap.released.map Pointer.object) :=
        List.mem_map_of_mem (List.mem_of_getElem? hp)
      exact fun hheld => Multiset.disjoint_left.mp hnodup.2.2 hheld (by simp [hmem])
    exact ⟨hs.parts, hs.own, fun v hv => Sound.erase hs rfl rfl hgone hv⟩

/-- What is set to null keeps its pointer. -/
theorem clear_untagged (hi : s.var i = some v)
    (ht : OwnsOnce ⟨(v.destroy s.heap).1, s.vars.set i (some (v.destroy s.heap).2)⟩) : v.ptr = none := by
  have hmem : some (v.destroy s.heap).2 ∈ s.vars.set i (some (v.destroy s.heap).2) :=
    List.mem_set (List.getElem?_eq_some_iff.mp (var_eq hi)).1 _
  have htag : (none : Option T).isSome = v.ptr.isSome := ht.tagged _ hmem rfl
  cases hp : v.ptr with
  | none => rfl
  | some p =>
    rw [hp] at htag
    cases htag

theorem not_ownsOnce {e : AnyPtrEvent T} (hok : ¬ s.ClearsNone e) (h : s.step e = some t) :
    ¬ t.OwnsOnce := by
  intro howns
  cases e with
  | assignNull i | resetNull i =>
    refine hok fun v hi => ?_
    simp only [step, hi, Option.map_some, Option.some.injEq] at h
    subst h
    exact clear_untagged hi howns
  | _ => exact hok trivial

end AnyPtrs

/-- In every run each object is owned exactly once, and no variable shows one that is gone,
exactly as long as nothing is set to null that has an object. -/
theorem any_ptr_owns_once_iff {T : Type*} (es : List (AnyPtrEvent T)) :
    (∀ s ∈ visited AnyPtrs.step AnyPtrs.init es, s.OwnsOnce) ↔
      ∀ p ∈ taken AnyPtrs.step AnyPtrs.init es, p.1.ClearsNone p.2 :=
  visited_iff_guarded (fun _ hs => AnyPtrs.Inv.ownsOnce hs) (fun _ _ _ hs hok h => AnyPtrs.step_inv hs hok h)
    (fun _ _ _ _ hok h => AnyPtrs.not_ownsOnce hok h) es _ AnyPtrs.init_inv

/-- After `reset()` a new object comes at the address of the one that was deleted. -/
def addressReused : List (AnyPtrEvent Unit) :=
  [.construct () (some 16), .resetNull 0, .reset 0 () (some 16), .destruct 0]

/-- `reset` does not take the new object, and nobody deletes it. -/
theorem any_ptr_leaks : ¬ ∀ es : List (AnyPtrEvent Unit),
    ∀ s ∈ visited AnyPtrs.step AnyPtrs.init es, s.OwnsOnce := by
  intro h
  have hend : final AnyPtrs.step AnyPtrs.init addressReused =
      ⟨⟨[(), ()], [⟨16, 1⟩], [(0, ())], []⟩, [none]⟩ := by decide
  have howns := h addressReused _ (final_visited _ _)
  rw [hend] at howns
  rcases howns.kept 1 () rfl with hdeleted | hreleased | ⟨v, hv, _⟩
  · simp at hdeleted
  · simp at hreleased
  · simp at hv

end Uvcc.Utility
