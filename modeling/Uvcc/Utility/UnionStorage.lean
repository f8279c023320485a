import Uvcc.Utility.Storage

/-!
# Round trips through a tagged union

`union_storage` looks for the first type of its list that a value can be converted to, and
`get` for the type itself. A value comes back as what it was put in unless an earlier type of
the list takes it.
-/
namespace Uvcc.Utility
open Storage (Make)
variable {ι : Type*} {Val : ι → Type*}

/-- `get<T>()`, which compiles for the types of the list; the bytes of another type are not a
value of this one. -/
def Storage.get [DecidableEq ι] (C : CxxTypes ι) (Ts : List ι) (T : ι) (s : Storage Val) :
    Option (Val (C.decay T)) :=
  if isOneOf T Ts ≠ 0 then
    s.storage.bind fun v => if h : v.type = C.decay T then some (h ▸ v.value) else none
  else none

/-- `get<T>()` returns the value, and `tag()` is that of its type. -/
def Storage.Holds [DecidableEq ι] (C : CxxTypes ι) (Ts : List ι) (T : ι) (v : Val (C.decay T))
    (s : Storage Val) : Prop := s.typeTag = some T ∧ s.get C Ts T = some v

inductive UnionCall where
  | copyConstruct
  | moveConstruct
  | resetDefault
  | resetArgs
  | resetCopy (own casts : Bool)
  | resetMove (own : Bool)
  deriving DecidableEq, Repr

namespace UnionCall

def run (C : CxxTypes ι) (Ts : List ι) (s : Storage Val) (T : ι) (make : Make Val) :
    UnionCall → Option (Storage Val × Bool)
  | .copyConstruct => s.copyConstruct C (.union Ts) T make
  | .moveConstruct => s.moveConstruct C (.union Ts) T make
  | .resetDefault => s.resetDefault C (.union Ts) T make
  | .resetArgs => s.resetArgs C (.union Ts) T make
  | .resetCopy own casts => s.resetCopy C (.union Ts) T make own casts
  | .resetMove own => s.resetMove C (.union Ts) T make own

def own : UnionCall → Bool
  | .resetCopy own _ | .resetMove own => own
  | _ => false

end UnionCall

/-- No type of the list before `T` takes a `T`. -/
def CxxTypes.TakesFirst [DecidableEq ι] (C : CxxTypes ι) (Ts : List ι) (T : ι) : Prop :=
  ∀ U ∈ Ts.takeWhile (fun U => decide (U ≠ T)), C.convertible T U = false

section RoundTrip
variable {C : CxxTypes ι} {Ts : List ι} {T type : ι} {s t : Storage Val} {make : Make Val}
  {call : UnionCall}

/-- A type of a list of decayed types is stored as the first one that it is convertible to. -/
theorem union_type (hdecay : ∀ U ∈ Ts, C.decay U = U) :
    (StorageKind.union Ts).type C T = Ts.find? (C.convertible T) := by
  rw [StorageKind.type, isConvertibleToOneOf, typeAt_firstIndex]
  cases hfind : Ts.find? (C.convertible T) with
  | none => rfl
  | some U => rw [Option.map_some, hdecay U (List.mem_of_find?_eq_some hfind)]

theorem Storage.construct_tag (h : s.construct type make = (t, false)) : t.typeTag = some type := by
  unfold Storage.construct at h
  cases hmake : make type with
  | none =>
    rw [hmake] at h
    exact absurd (congrArg Prod.snd h).symm Bool.false_ne_true
  | some x =>
    rw [hmake] at h
    exact (congrArg (fun y => y.1.typeTag) h).symm

theorem Storage.construct_holds [DecidableEq ι] {v : Val (C.decay T)} (hT : T ∈ Ts) (hdecay : C.decay T = T)
    (hmake : make (C.decay T) = some v) :
    ∃ t, s.construct (C.decay T) make = (t, false) ∧ t.Holds C Ts T v := by
  unfold Storage.construct
  rw [hmake]
  refine ⟨_, rfl, congrArg some hdecay, ?_⟩
  rw [Storage.get, if_pos (isOneOf_ne_zero_iff.mpr hT), Option.bind_some, dif_pos rfl]

/-- A call that returns has constructed a value of the type selected, or left the value stored,
which was its argument. -/
theorem UnionCall.run_eq_some (h : call.run C Ts s T make = some (t, false)) :
    ∃ type, (StorageKind.union Ts).type C T = some type ∧
      ((∃ u : Storage Val, u.construct type make = (t, false)) ∨
        (call.own = true ∧ C.binds T type = true ∧ t = s)) := by
  cases call with
  | copyConstruct | moveConstruct | resetDefault | resetArgs =>
    obtain ⟨type, htype, ht⟩ := Option.map_eq_some_iff.mp h
    exact ⟨type, htype, .inl ⟨_, ht⟩⟩
  | resetCopy own casts =>
    obtain ⟨type, htype, ht⟩ := Option.map_eq_some_iff.mp h
    refine ⟨type, htype, ?_⟩
    split_ifs at ht with hbinds hstored hcasts
    · exact .inr ⟨hstored, hbinds, (congrArg Prod.fst ht).symm⟩
    · exact .inl ⟨_, ht⟩
    · exact .inl ⟨_, ht⟩
    · exact absurd (congrArg Prod.snd ht).symm Bool.false_ne_true
  | resetMove own =>
    obtain ⟨type, htype, ht⟩ := Option.bind_eq_some_iff.mp h
    refine ⟨type, htype, ?_⟩
    split_ifs at ht with hbinds hstored
    · exact .inr ⟨hstored, hbinds, (congrArg Prod.fst (Option.some.inj ht)).symm⟩
    · exact .inl ⟨_, Option.some.inj ht⟩

/-- A value that is stored as what it is comes back. -/
theorem UnionCall.run_holds [DecidableEq ι] {v : Val (C.decay T)} (hT : T ∈ Ts) (hdecay : C.decay T = T)
    (htype : (StorageKind.union Ts).type C T = some (C.decay T)) (hmake : make (C.decay T) = some v)
    (hown : call.own = true → s.Holds C Ts T v) :
    ∃ t, call.run C Ts s T make = some (t, false) ∧ t.Holds C Ts T v := by
  have hbinds : C.binds T (C.decay T) = true := by rw [hdecay, C.binds_self]
  have hnew : ∀ u : Storage Val, ∃ t, some (u.construct (C.decay T) make) = some (t, false) ∧
      t.Holds C Ts T v := fun u => by
    obtain ⟨t, ht, hholds⟩ := Storage.construct_holds (s := u) hT hdecay hmake
    exact ⟨t, congrArg some ht, hholds⟩
  cases call with
  | copyConstruct =>
    rw [run, Storage.copyConstruct, htype]
    exact hnew s.fresh
  | moveConstruct =>
    rw [run, Storage.moveConstruct, htype]
    exact hnew s.fresh
  | resetDefault =>
    rw [run, Storage.resetDefault, htype]
    exact hnew s.destroy
  | resetArgs =>
    rw [run, Storage.resetArgs, htype]
    exact hnew s.destroy
  | resetCopy own casts =>
    rw [run, Storage.resetCopy, htype, Option.map_some, if_pos hbinds]
    cases own with
    | true => exact ⟨s, rfl, hown rfl⟩
    | false => exact hnew s.destroy
  | resetMove own =>
    rw [run, Storage.resetMove, htype, Option.bind_some, if_pos hbinds]
    cases own with
    | true => exact ⟨s, rfl, hown rfl⟩
    | false => exact hnew s.destroy

/-- A reset with the value stored returns at once if the comparison needs no conversion. -/
theorem UnionCall.run_own (hcall : call.own = true) (hbound : (StorageKind.union Ts).boundType C T ≠ none) :
    call.run C Ts s T make = some (s, false) := by
  obtain ⟨type, hsome⟩ := Option.ne_none_iff_exists'.mp hbound
  obtain ⟨htype, hbinds⟩ := Option.filter_eq_some_iff.mp hsome
  cases call with
  | copyConstruct | moveConstruct | resetDefault | resetArgs => exact absurd hcall Bool.false_ne_true
  | resetCopy own casts =>
    obtain rfl : own = true := hcall
    rw [run, Storage.resetCopy, htype, Option.map_some, if_pos hbinds]
    rfl
  | resetMove own =>
    obtain rfl : own = true := hcall
    rw [run, Storage.resetMove, htype, Option.bind_some, if_pos hbinds]
    rfl

end RoundTrip

/-- A value comes back as the type it was given exactly when no earlier type of the list takes it,
or when it was there already and the reset sees that. What is stored otherwise is of the first
type that takes it. -/
theorem union_round_trip_iff [DecidableEq ι] (C : CxxTypes ι) {Ts : List ι} {T : ι}
    (hdecay : ∀ U ∈ Ts, C.decay U = U) (hself : ∀ U ∈ Ts, C.convertible U U = true) (hT : T ∈ Ts)
    (s : Storage Val) (make : Make Val) (v : Val (C.decay T)) (hmake : make (C.decay T) = some v)
    (call : UnionCall) (hown : call.own = true → s.Holds C Ts T v) :
    ((∃ t, call.run C Ts s T make = some (t, false) ∧ t.Holds C Ts T v) ↔
      C.TakesFirst Ts T ∨ (call.own = true ∧ (StorageKind.union Ts).boundType C T ≠ none)) ∧
    ∀ t, call.run C Ts s T make = some (t, false) →
      t.typeTag = Ts.find? (C.convertible T) ∨ (call.own = true ∧ t = s) := by
  have hfirst : Ts.find? (C.convertible T) = some T ↔ C.TakesFirst Ts T :=
    find?_eq_some_iff_before hT (hself T hT)
  rw [← hfirst, ← union_type hdecay]
  refine ⟨⟨?_, ?_⟩, fun t ht => ?_⟩
  · rintro ⟨t, ht, htag, _⟩
    obtain ⟨type, htype, ⟨u, hu⟩ | ⟨hcall, hbinds, _⟩⟩ := UnionCall.run_eq_some ht
    · exact .inl (htype.trans ((Storage.construct_tag hu).symm.trans htag))
    · refine .inr ⟨hcall, fun hnone => (StorageKind.boundType_eq_none_iff htype).mp hnone hbinds⟩
  · rintro (htype | ⟨hcall, hbound⟩)
    · refine UnionCall.run_holds hT (hdecay T hT) ?_ hmake hown
      rw [htype, hdecay T hT]
    · exact ⟨s, UnionCall.run_own hcall hbound, hown hcall⟩
  · obtain ⟨type, htype, ⟨u, hu⟩ | ⟨hcall, _, hsame⟩⟩ := UnionCall.run_eq_some ht
    · exact .inl ((Storage.construct_tag hu).trans htype.symm)
    · exact .inr ⟨hcall, hsame⟩

inductive Number where
  | double
  | float
  deriving DecidableEq, Repr

def numbers : CxxTypes Number where
  decay := id
  sizeOf
    | .double => 8
    | .float => 4
  alignOf
    | .double => 8
    | .float => 4
  convertible _ _ := true
  binds T U := decide (T = U)
  binds_self _ := decide_eq_true rfl

/-- A `float` comes back from a union that lists it first. -/
theorem float_round_trip : ∃ t : Storage fun _ : Number => ℕ,
    UnionCall.copyConstruct.run numbers [.float, .double] StorageLife.init.toStorage .float
      (fun _ => some 7) = some (t, false) ∧ t.Holds numbers [.float, .double] .float 7 :=
  ((union_round_trip_iff numbers (fun _ _ => rfl) (fun _ _ => rfl) List.mem_cons_self _ _ 7 rfl
    .copyConstruct fun h => absurd h Bool.false_ne_true).1).mpr (.inl (by simp [CxxTypes.TakesFirst]))

/-- In a union that lists `double` first it is stored as that. -/
theorem float_stored_as_double : ¬ ∀ (C : CxxTypes Number) (Ts : List Number), Ts ≠ [] → Ts.Nodup →
    (∀ U ∈ Ts, C.decay U = U) → (∀ U ∈ Ts, C.convertible U U = true) → ∀ T ∈ Ts,
    ∀ (make : Make fun _ : Number => ℕ) (v : ℕ), make (C.decay T) = some v →
      ∃ t, UnionCall.copyConstruct.run C Ts StorageLife.init.toStorage T make = some (t, false) ∧
        t.Holds C Ts T v := by
  intro h
  obtain ⟨t, hrun, htag, _⟩ := h numbers [.double, .float] (by simp) (by decide) (fun _ _ => rfl)
    (fun _ _ => rfl) .float (by decide) (fun _ => some 7) 7 rfl
  have hdouble : some Number.double = t.typeTag := congrArg (fun r => r.bind fun y => y.1.typeTag) hrun
  rw [htag] at hdouble
  cases hdouble

end Uvcc.Utility
