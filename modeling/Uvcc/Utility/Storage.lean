import Uvcc.Machine.Trace
import Uvcc.Utility.TypeLists

/-!
# Storages for a value of any type

`aligned_storage` and `union_storage` hold one value, whose type each call selects, and keep
the tag and the destructor of that type beside it. They differ in how the type is
selected. A reset destroys the value before it constructs the next one, and a
constructor that throws leaves it at that.
-/
namespace Uvcc.Utility
open Machine

/-- What the compiler knows of the types. With `binds`, a `static_cast` of an lvalue of the first
type to a reference to the second refers to the same object; without, it makes a temporary. -/
structure CxxTypes (ι : Type*) where
  decay : ι → ι
  sizeOf : ι → ℕ
  alignOf : ι → ℕ
  convertible : ι → ι → Bool
  binds : ι → ι → Bool
  binds_self : ∀ T, binds T T = true

inductive StorageKind (ι : Type*) where
  | aligned (len align : ℕ)
  | union (Ts : List ι)
  deriving DecidableEq, Repr

/-- The type that a value given as a `T` is stored as. The call does not compile where there
is none. -/
def StorageKind.type {ι : Type*} (C : CxxTypes ι) : StorageKind ι → ι → Option ι
  | .aligned len align, T =>
    if C.sizeOf (C.decay T) ≤ len ∧ C.alignOf (C.decay T) ≤ align then some (C.decay T) else none
  | .union Ts, T => (typeAt (isConvertibleToOneOf C.convertible T Ts) Ts).map C.decay

/-- The type, if the comparison of a reset with what is stored needs no conversion. -/
def StorageKind.boundType {ι : Type*} (C : CxxTypes ι) (K : StorageKind ι) (T : ι) : Option ι :=
  (K.type C T).filter (C.binds T)

theorem StorageKind.boundType_eq_none_iff {ι : Type*} {C : CxxTypes ι} {K : StorageKind ι} {T type : ι}
    (htype : K.type C T = some type) : K.boundType C T = none ↔ ¬ C.binds T type = true := by
  rw [StorageKind.boundType, htype, Option.filter_some, ite_eq_right_iff]
  simp

/-- A value in the storage; those constructed there are numbered from 0. -/
structure Stored {ι : Type*} (Val : ι → Type*) where
  number : ℕ
  type : ι
  value : Val type

/-- The fields, of which `destructor` is `Destroy`, the count of the values constructed so far,
and the calls of destructors, each with the value it found and the type it destroys. -/
structure Storage {ι : Type*} (Val : ι → Type*) where
  typeTag : Option ι
  destructor : Option ι
  storage : Option (Stored Val)
  constructed : ℕ
  destroyed : List (Option (ℕ × ι) × ι)

namespace Storage
variable {ι : Type*} {Val : ι → Type*}

/-- What a call sees of a constructor: the value for each type, or `none` where it throws. -/
abbrev Make (Val : ι → Type*) := ∀ t, Option (Val t)

def fresh (s : Storage Val) : Storage Val := { s with typeTag := none, destructor := none }

def destroy (s : Storage Val) : Storage Val :=
  match s.destructor with
  | some type => { s with
      typeTag := none
      destructor := none
      storage := none
      destroyed := (s.storage.map fun v => (v.number, v.type), type) :: s.destroyed }
  | none => { s with typeTag := none }

/-- The placement new, and the fields after it; `true` if it throws. -/
def construct (s : Storage Val) (type : ι) (make : Make Val) : Storage Val × Bool :=
  match make type with
  | some x => ({ s with
      typeTag := some type
      destructor := some type
      storage := some ⟨s.constructed, type, x⟩
      constructed := s.constructed + 1 }, false)
  | none => (s, true)

def renew (s : Storage Val) (type : ι) (make : Make Val) : Storage Val × Bool :=
  s.destroy.construct type make

section Members
variable (C : CxxTypes ι) (K : StorageKind ι) (s : Storage Val) (T : ι) (make : Make Val)

def copyConstruct : Option (Storage Val × Bool) :=
  (K.type C T).map fun type => s.fresh.construct type make

def moveConstruct : Option (Storage Val × Bool) :=
  (K.type C T).map fun type => s.fresh.construct type make

def resetDefault : Option (Storage Val × Bool) := (K.type C T).map fun type => s.renew type make

/-- `reset<T>(args...)`, which does not look where its arguments are. -/
def resetArgs : Option (Storage Val × Bool) := (K.type C T).map fun type => s.renew type make

/-- `reset(const T&)`. The cast before the comparison of addresses may be a conversion, which
throws unless `casts`; `own` if the argument is the value stored. -/
def resetCopy (own casts : Bool) : Option (Storage Val × Bool) :=
  (K.type C T).map fun type =>
    if C.binds T type then
      if own then (s, false) else s.renew type make
    else if casts then s.renew type make
    else (s, true)

/-- `reset(T&&)`, which casts to a reference that is not const and takes no temporary. -/
def resetMove (own : Bool) : Option (Storage Val × Bool) :=
  (K.type C T).bind fun type =>
    if C.binds T type then some (if own then (s, false) else s.renew type make) else none

end Members
end Storage
open Storage (Make)

/-- A variable: whether it is there, whether the last call was a reset that threw, and the
storage before the last call, if that was a reset with the value stored. -/
structure StorageLife {ι : Type*} (Val : ι → Type*) extends Storage Val where
  alive : Bool
  threw : Bool
  itself : Option (Storage Val)

inductive StorageEvent {ι : Type*} (Val : ι → Type*) where
  | create
  | createCopy (T : ι) (make : Make Val)
  | createMove (T : ι) (make : Make Val)
  | resetDefault (T : ι) (make : Make Val)
  | resetArgs (T : ι) (own : Bool) (make : Make Val)
  | resetCopy (T : ι) (own casts : Bool) (make : Make Val)
  | resetMove (T : ι) (own : Bool) (make : Make Val)
  | destruct

namespace StorageLife
variable {ι : Type*} {Val : ι → Type*}

def init : StorageLife Val := ⟨⟨none, none, none, 0, []⟩, false, false, none⟩

def created (s : StorageLife Val) (x : Option (Storage Val × Bool)) : Option (StorageLife Val) :=
  if s.alive then none else x.map fun x => ⟨x.1, !x.2, false, none⟩

/-- The argument can be the value stored if that is of the type selected. -/
def reset [DecidableEq ι] (s : StorageLife Val) (type : Option ι) (own : Bool)
    (x : Option (Storage Val × Bool)) : Option (StorageLife Val) :=
  if s.alive ∧ (own → s.storage.any fun v => type = some v.type) then
    x.map fun x => ⟨x.1, true, x.2, if own then some s.toStorage else none⟩
  else none

section Step
variable [DecidableEq ι] (C : CxxTypes ι) (K : StorageKind ι)

def step (s : StorageLife Val) : StorageEvent Val → Option (StorageLife Val)
  | .create => s.created (some (s.fresh, false))
  | .createCopy T make => s.created (s.copyConstruct C K T make)
  | .createMove T make => s.created (s.moveConstruct C K T make)
  | .resetDefault T make => s.reset (K.type C T) false (s.resetDefault C K T make)
  | .resetArgs T own make => s.reset (K.type C T) own (s.resetArgs C K T make)
  | .resetCopy T own casts make => s.reset (K.boundType C T) own (s.resetCopy C K T make own casts)
  | .resetMove T own make => s.reset (K.boundType C T) own (s.resetMove C K T make own)
  | .destruct => if s.alive then some ⟨s.destroy, false, false, none⟩ else none

end Step

def destroyedValues (s : Storage Val) : List ℕ := s.destroyed.filterMap fun x => x.1.map Prod.fst

/-- The tag and the destructor are those of the value held, if there is one. Each value
constructed is held or was destroyed once, as the type it had. -/
structure Sound (s : Storage Val) : Prop where
  tagged : s.typeTag = s.storage.map Stored.type
  owned : s.destructor = s.storage.map Stored.type
  typed : ∀ x ∈ s.destroyed, ∃ n, x.1 = some (n, x.2)
  once : (↑(s.storage.map Stored.number).toList + ↑(destroyedValues s) : Multiset ℕ) =
    Multiset.range s.constructed

/-- A reset that threw leaves the storage empty, a reset with the value stored leaves it as it
was, and nothing is left in a storage that is gone. -/
structure Bookkept (s : StorageLife Val) : Prop extends Sound s.toStorage where
  gone : s.alive = false → s.storage = none
  emptied : s.threw = true → s.storage = none
  kept : ∀ before, s.itself = some before → s.toStorage = before

/-- The value stored is not among the arguments of `reset<T>(args...)`, and a conversion that
`reset(const T&)` makes for its comparison throws in an empty storage only. -/
def KeepsBook (C : CxxTypes ι) (K : StorageKind ι) (s : StorageLife Val) : StorageEvent Val → Prop
  | .resetArgs _ own _ => own = false
  | .resetCopy T _ casts _ => casts = false → K.boundType C T = none → s.storage = none
  | _ => True

/-! ## The parts of a call -/

structure Settled (y : Storage Val × Bool) : Prop where
  sound : Sound y.1
  emptied : y.2 = true → y.1.storage = none

variable {C : CxxTypes ι} {K : StorageKind ι} {s : Storage Val} {type : ι} {make : Make Val}

/-- A storage that holds nothing is as one with the initial fields. -/
theorem Sound.fresh (hs : Sound s) (hempty : s.storage = none) : Sound s.fresh where
  tagged := by rw [Storage.fresh, hempty]; rfl
  owned := by rw [Storage.fresh, hempty]; rfl
  typed := hs.typed
  once := hs.once

theorem Sound.destroy (hs : Sound s) : Sound s.destroy ∧ s.destroy.storage = none := by
  cases hv : s.storage with
  | none =>
    have hdestructor : s.destructor = none := by rw [hs.owned, hv]; rfl
    have hfresh : s.destroy = s.fresh := by
      unfold Storage.destroy Storage.fresh
      rw [hdestructor]
    rw [hfresh]
    exact ⟨hs.fresh hv, hv⟩
  | some v =>
    have hdestructor : s.destructor = some v.type := by rw [hs.owned, hv]; rfl
    have hgone : s.destroy = { s with
        typeTag := none
        destructor := none
        storage := none
        destroyed := (some (v.number, v.type), v.type) :: s.destroyed } := by
      unfold Storage.destroy
      rw [hdestructor, hv]
      rfl
    rw [hgone]
    refine ⟨⟨rfl, rfl, List.forall_mem_cons.mpr ⟨⟨v.number, rfl⟩, hs.typed⟩, ?_⟩, rfl⟩
    rw [← hs.once, hv]
    rfl

theorem Sound.construct (hs : Sound s) (hempty : s.storage = none) : Settled (s.construct type make) := by
  unfold Storage.construct
  cases make type with
  | none => exact ⟨hs, fun _ => hempty⟩
  | some x =>
    refine ⟨⟨rfl, rfl, hs.typed, ?_⟩, fun h => absurd h Bool.false_ne_true⟩
    have honce := hs.once
    rw [hempty, Option.map_none, Option.toList_none, Multiset.coe_nil, zero_add] at honce
    rw [Multiset.range_succ, ← honce]
    rfl

theorem Sound.renew (hs : Sound s) : Settled (s.renew type make) := hs.destroy.1.construct hs.destroy.2

/-! ## A step -/

variable {l t : StorageLife Val} {x : Option (Storage Val × Bool)} {y : Storage Val × Bool}
  {selected : Option ι} {own casts : Bool} {T : ι}

theorem created_eq_some (h : l.created x = some t) :
    l.alive = false ∧ ∃ y, x = some y ∧ t = ⟨y.1, !y.2, false, none⟩ := by
  rw [created, Option.ite_none_left_eq_some, Option.map_eq_some_iff] at h
  obtain ⟨halive, y, hy, rfl⟩ := h
  exact ⟨by simpa using halive, y, hy, rfl⟩

theorem reset_eq_some [DecidableEq ι] (h : l.reset selected own x = some t) :
    (∃ y, x = some y ∧ t = ⟨y.1, true, y.2, if own then some l.toStorage else none⟩) ∧
      (own = true → ∃ v, l.storage = some v ∧ selected = some v.type) := by
  rw [reset, Option.ite_none_right_eq_some, Option.map_eq_some_iff] at h
  obtain ⟨⟨_, hargument⟩, y, hy, rfl⟩ := h
  refine ⟨⟨y, hy, rfl⟩, fun hown => ?_⟩
  obtain ⟨v, hv, htype⟩ := (Option.any_eq_true _ _).mp (hargument hown)
  exact ⟨v, hv, of_decide_eq_true htype⟩

theorem Bookkept.created (hl : l.Bookkept) (h : l.created x = some t)
    (hx : ∀ y, l.storage = none → x = some y → Settled y) : t.Bookkept := by
  obtain ⟨halive, y, hy, rfl⟩ := created_eq_some h
  have hsettled := hx y (hl.gone halive) hy
  exact ⟨hsettled.sound, fun hgone => hsettled.emptied (by simpa using hgone),
    fun h => absurd h Bool.false_ne_true, fun _ h => absurd h (Option.some_ne_none _).symm⟩

theorem Bookkept.reset [DecidableEq ι] (h : l.reset selected own x = some t)
    (hx : ∀ y, x = some y → Settled y ∧
      (own = true → (∃ type, selected = some type) → y.1 = l.toStorage)) : t.Bookkept := by
  obtain ⟨⟨y, hy, rfl⟩, hargument⟩ := reset_eq_some h
  obtain ⟨hsettled, hsame⟩ := hx y hy
  refine ⟨hsettled.sound, fun h => absurd h.symm Bool.false_ne_true, hsettled.emptied,
    fun before hbefore => ?_⟩
  rw [Option.ite_none_right_eq_some] at hbefore
  obtain ⟨v, _, htype⟩ := hargument hbefore.1
  rw [← Option.some.inj hbefore.2]
  exact hsame hbefore.1 ⟨v.type, htype⟩

theorem Sound.construct_fresh (hs : Sound s) (hempty : s.storage = none)
    (h : selected.map (fun type => s.fresh.construct type make) = some y) : Settled y := by
  obtain ⟨type, _, rfl⟩ := Option.map_eq_some_iff.mp h
  exact (hs.fresh hempty).construct hempty

theorem Sound.map_renew (hs : Sound s) (h : selected.map (fun type => s.renew type make) = some y) :
    Settled y := by
  obtain ⟨type, _, rfl⟩ := Option.map_eq_some_iff.mp h
  exact hs.renew

/-- Where no conversion is needed, the comparison sees whether the argument is the value stored. -/
theorem Sound.compare (hs : Sound s) : Settled (if own then (s, false) else s.renew type make) ∧
    (own = true → (if own then (s, false) else s.renew type make).1 = s) := by
  cases own with
  | true => exact ⟨⟨hs, fun h => absurd h Bool.false_ne_true⟩, fun _ => rfl⟩
  | false => exact ⟨hs.renew, fun h => absurd h Bool.false_ne_true⟩

theorem Sound.resetCopy (hs : Sound s) (hcast : casts = false → K.boundType C T = none → s.storage = none)
    (h : s.resetCopy C K T make own casts = some y) :
    Settled y ∧ (own = true → (∃ type, K.boundType C T = some type) → y.1 = s) := by
  obtain ⟨type, htype, rfl⟩ := Option.map_eq_some_iff.mp h
  by_cases hbinds : C.binds T type = true
  · rw [if_pos hbinds]
    exact ⟨hs.compare.1, fun hown _ => hs.compare.2 hown⟩
  · have hnone : K.boundType C T = none := (StorageKind.boundType_eq_none_iff htype).mpr hbinds
    rw [if_neg hbinds]
    refine ⟨?_, fun _ ⟨type, hbound⟩ => absurd (hbound.symm.trans hnone) (Option.some_ne_none _)⟩
    cases casts with
    | true => exact hs.renew
    | false => exact ⟨hs, fun _ => hcast rfl hnone⟩

theorem Sound.resetMove (hs : Sound s) (h : s.resetMove C K T make own = some y) :
    Settled y ∧ (own = true → y.1 = s) := by
  obtain ⟨type, _, htype⟩ := Option.bind_eq_some_iff.mp h
  obtain ⟨_, hy⟩ := Option.ite_none_right_eq_some.mp htype
  obtain rfl := Option.some.inj hy
  exact hs.compare

theorem step_bookkept [DecidableEq ι] {e : StorageEvent Val} (hl : l.Bookkept) (hok : l.KeepsBook C K e)
    (h : l.step C K e = some t) : t.Bookkept := by
  cases e with
  | create =>
    refine hl.created h fun y hempty hy => ?_
    obtain rfl := Option.some.inj hy
    exact ⟨hl.toSound.fresh hempty, fun _ => hempty⟩
  | createCopy T make => exact hl.created h fun y hempty hy => hl.toSound.construct_fresh hempty hy
  | createMove T make => exact hl.created h fun y hempty hy => hl.toSound.construct_fresh hempty hy
  | resetDefault T make =>
    exact Bookkept.reset h fun y hy =>
      ⟨hl.toSound.map_renew hy, fun hown => absurd hown Bool.false_ne_true⟩
  | resetArgs T own make =>
    obtain rfl : own = false := hok
    exact Bookkept.reset h fun y hy =>
      ⟨hl.toSound.map_renew hy, fun hown => absurd hown Bool.false_ne_true⟩
  | resetCopy T own casts make => exact Bookkept.reset h fun y hy => hl.toSound.resetCopy hok hy
  | resetMove T own make =>
    refine Bookkept.reset h fun y hy => ?_
    obtain ⟨hsettled, hsame⟩ := hl.toSound.resetMove hy
    exact ⟨hsettled, fun hown _ => hsame hown⟩
  | destruct =>
    obtain ⟨_, ht⟩ := Option.ite_none_right_eq_some.mp h
    obtain rfl := Option.some.inj ht
    obtain ⟨hsound, hempty⟩ := hl.toSound.destroy
    exact ⟨hsound, fun _ => hempty, fun h => absurd h Bool.false_ne_true,
      fun _ h => absurd h (Option.some_ne_none _).symm⟩

theorem init_bookkept : (init : StorageLife Val).Bookkept where
  tagged := rfl
  owned := rfl
  typed := nofun
  once := rfl
  gone _ := rfl
  emptied _ := rfl
  kept := nofun

/-- A value that was destroyed is not there again, also if one is constructed in its place. -/
theorem Sound.renew_ne (hs : Sound s) (hv : s.storage ≠ none) : (s.renew type make).1 ≠ s := by
  intro heq
  rw [Storage.renew, Storage.construct] at heq
  cases hmake : make type with
  | none =>
    rw [hmake] at heq
    exact hv (heq ▸ hs.destroy.2)
  | some x =>
    rw [hmake] at heq
    have hcount : s.destroy.constructed + 1 = s.constructed := congrArg Storage.constructed heq
    have hdestroy : s.destroy.constructed = s.constructed := by
      unfold Storage.destroy
      cases s.destructor <;> rfl
    omega

theorem not_bookkept [DecidableEq ι] {e : StorageEvent Val} (hl : l.Bookkept) (hok : ¬ l.KeepsBook C K e)
    (h : l.step C K e = some t) : ¬ t.Bookkept := by
  intro ht
  cases e with
  | resetArgs T own make =>
    obtain rfl : own = true := Bool.eq_true_of_not_eq_false hok
    obtain ⟨⟨y, hy, rfl⟩, hargument⟩ := reset_eq_some h
    obtain ⟨v, hv, _⟩ := hargument rfl
    obtain ⟨type, _, rfl⟩ := Option.map_eq_some_iff.mp hy
    refine hl.toSound.renew_ne ?_ (ht.kept l.toStorage rfl)
    rw [hv]
    exact Option.some_ne_none v
  | resetCopy T own casts make =>
    obtain ⟨rfl, hbound, hv⟩ : casts = false ∧ K.boundType C T = none ∧ l.storage ≠ none := by
      simpa [KeepsBook] using hok
    obtain ⟨⟨y, hy, rfl⟩, _⟩ := reset_eq_some h
    obtain ⟨type, htype, rfl⟩ := Option.map_eq_some_iff.mp hy
    rw [if_neg ((StorageKind.boundType_eq_none_iff htype).mp hbound)] at ht
    exact hv (ht.emptied rfl)
  | _ => exact hok trivial

end StorageLife

/-- In every run the tag, the destructor and the value stay in step, whichever constructors
throw, exactly as long as no value is constructed from the one that its own reset destroys,
and no conversion for a comparison throws over a value. -/
theorem storage_bookkept_iff {ι : Type*} [DecidableEq ι] {Val : ι → Type*} (C : CxxTypes ι)
    (K : StorageKind ι) (es : List (StorageEvent Val)) :
    (∀ s ∈ visited (StorageLife.step C K) StorageLife.init es, s.Bookkept) ↔
      ∀ p ∈ taken (StorageLife.step C K) StorageLife.init es, p.1.KeepsBook C K p.2 :=
  visited_iff_guarded (fun _ hs => hs) (fun _ _ _ hs hok h => StorageLife.step_bookkept hs hok h)
    (fun _ _ _ hs hok h => StorageLife.not_bookkept hs hok h) es _ StorageLife.init_bookkept

def strings : CxxTypes Unit where
  decay := id
  sizeOf _ := 32
  alignOf _ := 8
  convertible _ _ := true
  binds _ _ := true
  binds_self _ := rfl

/-- `storage.reset<T>(storage.get<T>())` takes the form of `reset` for any arguments. -/
def resetFromItself : List (StorageEvent fun _ : Unit => String) :=
  [.createCopy () fun _ => some "uvcc", .resetArgs () true fun _ => some ""]

/-- The string is destroyed, and the next one is constructed from what is left of it. -/
theorem storage_resets_itself : ¬ ∀ es : List (StorageEvent fun _ : Unit => String),
    ∀ s ∈ visited (StorageLife.step strings (.aligned 32 8)) StorageLife.init es, s.Bookkept := by
  intro h
  have hkept := (h resetFromItself _ (final_visited _ _)).kept
    ⟨some (), some (), some ⟨0, (), "uvcc"⟩, 1, []⟩ rfl
  have hcount : 2 = 1 := congrArg Storage.constructed hkept
  omega

end Uvcc.Utility
