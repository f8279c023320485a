import Uvcc.File.FsInstances

/-!
# The references of filesystem requests

The count of an instance is the number of its variables, of the calls under way on it and
of the callbacks in progress, so that these find the files they were run on.
-/
namespace Uvcc.File
open Machine Requests

variable {H : Type*}

def FsInstance.holds (o : ℕ) (x : FsInstance H) : Multiset ℕ :=
  Multiset.replicate x.vars o + (if x.pending then ↑(o :: x.files) else 0) +
    (x.frames.map fun files => (↑(o :: files) : Multiset ℕ)).sum

/-- The instance and the files of a call under way or of a callback in progress. -/
def FsInstance.engaged (o : ℕ) (x : FsInstance H) : List ℕ :=
  (if x.pending then o :: x.files else []) ++ x.frames.flatMap (o :: ·)

namespace Paths

def holdsOf (w : Paths H) (o : ℕ) : Multiset ℕ := (w.insts o).elim 0 (FsInstance.holds o)

def held (w : Paths H) : Multiset ℕ := ∑ o ∈ Finset.range w.next, w.holdsOf o

/-- The counts when those in `E` have references beside the instances. -/
structure Counts (w : Paths H) (E : Multiset ℕ) : Prop where
  fresh : ∀ o, w.next ≤ o → w.insts o = none
  refs : ∀ o x, w.insts o = some x → x.refs = (w.held + E).count o ∧ 0 < x.refs
  gone : ∀ o, w.insts o = none → o ∉ w.held + E

variable {lib : FsLib H} {w w' : Paths H} {o : ℕ} {x y : FsInstance H} {E E' : Multiset ℕ}

theorem init_counts : (init : Paths H).Counts 0 where
  fresh _ _ := rfl
  refs o x hx := by cases hx
  gone o _ := Multiset.notMem_zero o

theorem Counts.congr (h : w.Counts E) (hinsts : w'.insts = w.insts) (hnext : w'.next = w.next) : w'.Counts E := by
  have hheld : w'.held = w.held := by
    simp only [held, holdsOf, hinsts, hnext]
  refine ⟨?_, ?_, ?_⟩
  · rw [hinsts, hnext]
    exact h.fresh
  · rw [hinsts, hheld]
    exact h.refs
  · rw [hinsts, hheld]
    exact h.gone

theorem Counts.lt_next (h : w.Counts E) (hx : w.insts o = some x) : o < w.next := by
  by_contra hge
  rw [h.fresh o (Nat.not_lt.mp hge)] at hx
  cases hx

/-- Another instance in the place of one. -/
theorem held_update (ho : o < w.next) (t : Option (FsInstance H)) :
    { w with insts := Function.update w.insts o t }.held + w.holdsOf o = w.held + t.elim 0 (FsInstance.holds o) := by
  have hmem : o ∈ Finset.range w.next := Finset.mem_range.mpr ho
  have hupdate : { w with insts := Function.update w.insts o t }.holdsOf =
      Function.update w.holdsOf o (t.elim 0 (FsInstance.holds o)) := by
    funext j
    by_cases hj : j = o
    · subst hj
      simp only [holdsOf, Function.update_self]
    · simp only [holdsOf, Function.update_of_ne hj]
  have hnew : { w with insts := Function.update w.insts o t }.held =
      t.elim 0 (FsInstance.holds o) + ∑ j ∈ Finset.range w.next \ {o}, w.holdsOf j := by
    rw [held, hupdate]
    exact Finset.sum_update_of_mem hmem _ _
  have hold : w.held = w.holdsOf o + ∑ j ∈ Finset.range w.next \ {o}, w.holdsOf j := by
    rw [Finset.sdiff_singleton_eq_erase]
    exact (Finset.add_sum_erase _ _ hmem).symm
  rw [hnew, hold]
  abel

theorem holdsOf_le_held (ho : o < w.next) : w.holdsOf o ≤ w.held :=
  Finset.single_le_sum (fun _ _ => Multiset.zero_le _) (Finset.mem_range.mpr ho)

/-- The holders change with the count. -/
theorem Counts.put {k m : ℕ} (h : w.Counts E) (hx : w.insts o = some x) (hrefs : y.refs + m = x.refs + k)
    (hpos : 0 < y.refs) (hholds : y.holds o + E' + Multiset.replicate m o = x.holds o + E + Multiset.replicate k o) :
    (w.put o y).Counts E' := by
  have hupdate := held_update (h.lt_next hx) (some y)
  have hof : w.holdsOf o = x.holds o := by rw [holdsOf, hx]; rfl
  have hheld : (w.put o y).held + E' + Multiset.replicate m o = w.held + E + Multiset.replicate k o := by
    have hsum : (w.put o y).held + E' + Multiset.replicate m o + x.holds o =
        w.held + E + Multiset.replicate k o + x.holds o :=
      calc (w.put o y).held + E' + Multiset.replicate m o + x.holds o
          = ((w.put o y).held + w.holdsOf o) + (E' + Multiset.replicate m o) := by rw [hof]; abel
        _ = w.held + (y.holds o + (E' + Multiset.replicate m o)) := by rw [Paths.put, hupdate, add_assoc]; rfl
        _ = w.held + (x.holds o + E + Multiset.replicate k o) := by rw [← hholds, add_assoc (y.holds o)]
        _ = w.held + E + Multiset.replicate k o + x.holds o := by abel
    exact add_right_cancel hsum
  have hcount : ∀ j, ((w.put o y).held + E').count j + (if o = j then m else 0) =
      (w.held + E).count j + if o = j then k else 0 := by
    intro j
    rw [← Multiset.count_replicate, ← Multiset.count_replicate, ← Multiset.count_add, ← Multiset.count_add, hheld]
  refine ⟨?_, ?_, ?_⟩
  · intro j hj
    have hne : j ≠ o := Nat.ne_of_gt (lt_of_lt_of_le (h.lt_next hx) hj)
    rw [put_insts_ne w hne]
    exact h.fresh j hj
  · intro j q hq
    have hj' := hcount j
    by_cases hj : j = o
    · subst hj
      rw [put_insts_self] at hq
      cases hq
      have hold := (h.refs j x hx).1
      rw [if_pos rfl, if_pos rfl] at hj'
      exact ⟨by omega, hpos⟩
    · rw [put_insts_ne w hj] at hq
      rw [if_neg (Ne.symm hj), if_neg (Ne.symm hj)] at hj'
      have hold := h.refs j q hq
      exact ⟨by omega, hold.2⟩
  · intro j hj
    have hne : j ≠ o := by
      rintro rfl
      rw [put_insts_self] at hj
      cases hj
    have hj' := hcount j
    rw [if_neg (Ne.symm hne), if_neg (Ne.symm hne)] at hj'
    rw [put_insts_ne w hne] at hj
    have hold := Multiset.count_eq_zero_of_notMem (h.gone j hj)
    exact Multiset.count_eq_zero.mp (by omega)

/-- An instance that is changed in nothing that is counted. -/
theorem Counts.same (h : w.Counts E) (hx : w.insts o = some x) (hrefs : y.refs = x.refs)
    (hholds : y.holds o = x.holds o) : (w.put o y).Counts E := by
  have hpos := (h.refs o x hx).2
  refine h.put (k := 0) (m := 0) hx (congrArg (· + 0) hrefs) (hrefs ▸ hpos) ?_
  rw [hholds]

theorem new_holds (o : ℕ) (cls : Option Requests.Class) (r : UvFs H) : (FsInstance.new cls r).holds o = {o} := by
  simp [FsInstance.holds, FsInstance.new]

theorem Counts.add (h : w.Counts E) (hrefs : x.refs = 1) (hholds : x.holds w.next = {w.next}) : (w.add x).Counts E := by
  have hof : ∀ j ∈ Finset.range w.next, (w.add x).holdsOf j = w.holdsOf j := by
    intro j hj
    rw [holdsOf, add_insts_ne w (Nat.ne_of_lt (Finset.mem_range.mp hj))]
    rfl
  have hnew : (w.add x).holdsOf w.next = {w.next} := by
    rw [holdsOf, add_insts_self]
    exact hholds
  have hheld : (w.add x).held + E = w.held + E + {w.next} := by
    calc (w.add x).held + E
        = (∑ j ∈ Finset.range w.next, (w.add x).holdsOf j) + (w.add x).holdsOf w.next + E :=
          congrArg (· + E) (Finset.sum_range_succ _ _)
      _ = w.held + E + {w.next} := by
        rw [Finset.sum_congr rfl hof, hnew, add_right_comm]
        rfl
  refine ⟨?_, ?_, ?_⟩
  · intro j hj
    have hle : w.next + 1 ≤ j := hj
    rw [add_insts_ne w (by omega)]
    exact h.fresh j (by omega)
  · intro j q hq
    rw [hheld, Multiset.count_add, Multiset.count_singleton]
    by_cases hj : j = w.next
    · subst hj
      rw [add_insts_self] at hq
      cases hq
      have hgone := h.gone w.next (h.fresh w.next (le_refl _))
      rw [Multiset.count_eq_zero_of_notMem hgone, if_pos rfl, hrefs]
      exact ⟨rfl, Nat.one_pos⟩
    · rw [add_insts_ne w hj] at hq
      rw [if_neg hj, add_zero]
      exact h.refs j q hq
  · intro j hj
    have hne : j ≠ w.next := by
      rintro rfl
      rw [add_insts_self] at hj
      cases hj
    rw [add_insts_ne w hne] at hj
    rw [hheld, Multiset.mem_add, Multiset.mem_singleton, not_or]
    exact ⟨h.gone j hj, hne⟩

/-- Whoever has a reference through an instance has one to the instance as well. -/
theorem holds_eq_zero (h : o ∉ x.holds o) : x.holds o = 0 := by
  simp only [FsInstance.holds, Multiset.mem_add, not_or] at h
  obtain ⟨⟨hvars, hpending⟩, hframes⟩ := h
  have hv : x.vars = 0 := by
    by_contra hv
    exact hvars (Multiset.mem_replicate.mpr ⟨hv, rfl⟩)
  have hp : x.pending = false := by
    by_contra hp
    rw [if_pos (Bool.eq_true_of_not_eq_false hp)] at hpending
    exact hpending (Multiset.mem_coe.mpr List.mem_cons_self)
  have hf : x.frames = [] := by
    cases hframe : x.frames with
    | nil => rfl
    | cons files frames =>
      rw [hframe, List.map_cons, List.sum_cons, Multiset.mem_add, not_or] at hframes
      exact absurd (Multiset.mem_coe.mpr List.mem_cons_self) hframes.1
  rw [FsInstance.holds, hv, hp, hf]
  rfl

theorem Counts.destroy (h : w.Counts (o ::ₘ E)) (hx : w.insts o = some x) (hlast : x.refs = 1) :
    (w.destroy lib o x).Counts E := by
  have hlt := h.lt_next hx
  have hof : w.holdsOf o = x.holds o := by rw [holdsOf, hx]; rfl
  have hcount := (h.refs o x hx).1
  rw [hlast, Multiset.add_cons, Multiset.count_cons_self] at hcount
  have hnone : o ∉ w.held + E := Multiset.count_eq_zero.mp (by omega)
  have hzero : x.holds o = 0 := by
    refine holds_eq_zero fun hmem => hnone (Multiset.mem_add.mpr (.inl ?_))
    exact Multiset.mem_of_le (holdsOf_le_held hlt) (hof ▸ hmem)
  have hheld : (w.destroy lib o x).held = w.held := by
    have hupdate := held_update hlt (none : Option (FsInstance H))
    rw [hof, hzero, add_zero, Option.elim_none, add_zero] at hupdate
    exact hupdate
  refine ⟨?_, ?_, ?_⟩
  · intro j hj
    have hne : j ≠ o := Nat.ne_of_gt (lt_of_lt_of_le hlt hj)
    exact (Function.update_of_ne hne _ _).trans (h.fresh j hj)
  · intro j q hq
    have hne : j ≠ o := by
      rintro rfl
      rw [show (w.destroy lib j x).insts j = none from Function.update_self j _ w.insts] at hq
      cases hq
    rw [hheld]
    have hold := h.refs j q (((Function.update_of_ne hne _ _).symm).trans hq)
    rwa [Multiset.add_cons, Multiset.count_cons_of_ne hne] at hold
  · intro j hj
    rw [hheld]
    by_cases hne : j = o
    · rwa [hne]
    · have hold := h.gone j (((Function.update_of_ne hne _ _).symm).trans hj)
      rw [Multiset.add_cons, Multiset.mem_cons, not_or] at hold
      exact hold.2

/-- A reference is given back. -/
theorem Counts.unref (h : w.Counts (o ::ₘ E)) : (w.unref lib o).Counts E := by
  unfold Paths.unref
  split
  · rename_i x hx
    split
    · rename_i hlast
      exact h.destroy hx hlast
    · rename_i hlast
      have hpos := (h.refs o x hx).2
      refine h.put (k := 0) (m := 1) hx (show x.refs - 1 + 1 = x.refs + 0 by omega) (show 0 < x.refs - 1 by omega) ?_
      change x.holds o + E + {o} = x.holds o + (o ::ₘ E) + 0
      rw [add_zero, add_assoc, ← Multiset.singleton_add, add_comm E]
  · rename_i hx
    exact absurd (Multiset.mem_add.mpr (.inr (Multiset.mem_cons_self o E))) (h.gone o hx)

theorem Counts.unrefs {os : List ℕ} (h : w.Counts (↑os + E)) : (os.foldl (Paths.unref lib) w).Counts E := by
  induction os generalizing w with
  | nil => simpa using h
  | cons o os ih =>
    rw [← Multiset.cons_coe, Multiset.cons_add] at h
    exact ih h.unref

/-- A reference is taken of an instance that is there. -/
theorem Counts.ref (h : w.Counts E) (hx : w.insts o = some x) : (w.ref o).Counts (o ::ₘ E) := by
  have hput : w.ref o = w.put o { x with refs := x.refs + 1 } := by rw [Paths.ref, hx]
  rw [hput]
  refine h.put (k := 1) (m := 0) hx rfl (Nat.succ_pos _) ?_
  change x.holds o + (o ::ₘ E) + 0 = x.holds o + E + {o}
  rw [add_zero, add_assoc, ← Multiset.singleton_add, add_comm E]

theorem ref_insts (w : Paths H) (f : ℕ) {o : ℕ} (ho : o ≠ f) : (w.ref f).insts o = w.insts o := by
  unfold Paths.ref
  split
  · exact put_insts_ne w ho _
  · rfl

theorem ref_isSome (w : Paths H) (f o : ℕ) : ((w.ref f).insts o).isSome = (w.insts o).isSome := by
  by_cases ho : o = f
  · subst ho
    unfold Paths.ref
    split
    · rename_i x hx
      rw [put_insts_self, hx]
      rfl
    · rfl
  · rw [ref_insts w f ho]

/-- The instances of a list get a reference each; another one stays as it is. -/
theorem Counts.refs_list {os : List ℕ} (h : w.Counts E) (hos : ∀ f ∈ os, (w.insts f).isSome = true) :
    (os.foldl Paths.ref w).Counts (↑os + E) := by
  induction os generalizing w E with
  | nil => simpa using h
  | cons f os ih =>
    obtain ⟨q, hq⟩ := Option.isSome_iff_exists.mp (hos f List.mem_cons_self)
    have hrest : ∀ j ∈ os, ((w.ref f).insts j).isSome = true := by
      intro j hj
      rw [ref_isSome]
      exact hos j (List.mem_cons_of_mem _ hj)
    have hall := ih (h.ref hq) hrest
    rwa [Multiset.add_cons, ← Multiset.cons_add, Multiset.cons_coe] at hall

theorem refs_insts {os : List ℕ} (ho : o ∉ os) : (os.foldl Paths.ref w).insts o = w.insts o := by
  induction os generalizing w with
  | nil => rfl
  | cons f os ih =>
    rw [List.mem_cons, not_or] at ho
    rw [List.foldl_cons, ih ho.2, ref_insts w f ho.1]

/-- Nothing else of an instance is counted. -/
theorem Counts.apply {k m : ℕ} {e : Effect H} (h : w.Counts E) (hx : w.insts o = some x) (hrefs : y.refs + m = x.refs + k)
    (hpos : 0 < y.refs) (hholds : y.holds o + E' + Multiset.replicate m o = x.holds o + E + Multiset.replicate k o) :
    (w.apply o y e).Counts E' := by
  have h' : Paths.Counts { w with
    heap := (w.heap.alloc e.made).free (blocks e.freed)
    strays := File.strays e.freed ++ w.strays } E := h.congr rfl rfl
  exact h'.put hx hrefs hpos hholds

theorem Counts.clean (h : w.Counts E) (hx : w.insts o = some x) : (w.clean lib o x).Counts E :=
  h.apply (k := 0) (m := 0) hx rfl (h.refs o x hx).2 rfl

theorem holds_idle (o : ℕ) (hidle : x.pending = false) :
    x.holds o = Multiset.replicate x.vars o + (x.frames.map fun files => (↑(o :: files) : Multiset ℕ)).sum := by
  rw [FsInstance.holds, hidle, if_neg Bool.false_ne_true, add_zero]

theorem holds_pending (o : ℕ) (hpending : x.pending = true) :
    x.holds o = Multiset.replicate x.vars o + ↑(o :: x.files) + (x.frames.map fun files => (↑(o :: files) : Multiset ℕ)).sum := by
  rw [FsInstance.holds, if_pos hpending]

/-- Without a callback, and if it is not accepted, a call leaves the references as they are. -/
theorem Counts.submit_same (h : w.Counts E) (hx : w.insts o = some x) (hrefs : y.refs = x.refs)
    (hholds : y.holds o = x.holds o) (fsType : FsType) (cb : Bool) (ss : List ℕ) (answer : Answer)
    (hno : cb = false ∨ ∀ size, answer ≠ .accepted size) : (w.submit lib o y fsType cb ss answer).Counts E := by
  cases answer with
  | refused => exact h.same hx hrefs hholds
  | noMemory => exact h.same hx hrefs hholds
  | accepted size =>
    rcases hno with rfl | hno
    · refine h.apply (k := 0) (m := 0) hx (congrArg (· + 0) hrefs) (hrefs ▸ (h.refs o x hx).2) ?_
      rw [hholds]
    · exact absurd rfl (hno size)

/-- A call that is accepted takes over the references of its files. -/
theorem Counts.submit_accepted (h : w.Counts (↑y.files + E)) (hx : w.insts o = some x) (hrefs : y.refs = x.refs)
    (hholds : y.holds o = x.holds o) (hidle : y.pending = false) (fsType : FsType) (ss : List ℕ) (size : ℕ) :
    (w.submit lib o y fsType true ss (.accepted size)).Counts E := by
  refine h.apply (k := 1) (m := 0) hx (congrArg (· + 1) hrefs) (Nat.succ_pos _) ?_
  rw [← hholds, holds_idle o hidle, holds_pending o rfl, ← Multiset.cons_coe, ← Multiset.singleton_add,
    Multiset.replicate_zero, Multiset.replicate_one]
  dsimp only
  abel

/-- A request is none of its files. -/
theorem Admits.not_mem_files {call : FsCall} (h : w.Admits call) (hx : w.insts o = some x) (hcls : x.cls.isSome = true) :
    o ∉ call.files := by
  intro hmem
  obtain ⟨q, hq, hnone⟩ := (Option.any_eq_true _ _).mp (List.all_eq_true.mp h.2 o hmem)
  rw [hx] at hq
  cases hq
  rw [Option.isNone_iff_eq_none.mp hnone] at hcls
  cases hcls

theorem Admits.isSome {call : FsCall} (h : w.Admits call) {f : ℕ} (hf : f ∈ call.files) : (w.insts f).isSome = true := by
  obtain ⟨q, hq, -⟩ := (Option.any_eq_true _ _).mp (List.all_eq_true.mp h.2 f hf)
  rw [hq]
  rfl

theorem Counts.run (h : w.Counts 0) (hx : w.insts o = some x) (hcls : x.cls.isSome = true) (hidle : x.pending = false)
    (call : FsCall) (answer : Answer) (hadmits : w.Admits call) : (w.run lib o x call answer).Counts 0 := by
  have hclean : (w.clean lib o x).Counts 0 := h.clean hx
  set y : FsInstance H := { x with toUvFs := lib.cleanup x.toUvFs, runs := x.runs + 1, files := call.files } with hy
  have hyidle : y.pending = false := hidle
  obtain ⟨z, hz, hzrefs, hzholds⟩ : ∃ z, (w.clean lib o x).insts o = some z ∧ y.refs = z.refs ∧ y.holds o = z.holds o :=
    ⟨_, put_insts_self _ _ _, rfl, (holds_idle o hyidle).trans (holds_idle o hidle).symm⟩
  have hne := hadmits.not_mem_files hx hcls
  have hthere : ∀ f ∈ call.files, ((w.clean lib o x).insts f).isSome = true := by
    intro f hf
    have hfo : f ≠ o := fun hfo => hne (hfo ▸ hf)
    rw [show (w.clean lib o x).insts f = w.insts f from put_insts_ne _ hfo _]
    exact hadmits.isSome hf
  have hrefs := hclean.refs_list hthere
  have hz' : (call.files.foldl Paths.ref (w.clean lib o x)).insts o = some z := by rw [refs_insts hne, hz]
  unfold Paths.run
  dsimp only
  split_ifs with hproceeds hcb
  · exact hclean
  · have hback : ∀ answer, (∀ size, answer ≠ .accepted size) →
        (call.files.foldl (Paths.unref lib) ((call.files.foldl Paths.ref (w.clean lib o x)).submit lib o y call.fsType true call.strings answer)).Counts 0 :=
      fun answer hno => Counts.unrefs (hrefs.submit_same hz' hzrefs hzholds _ _ _ answer (.inr hno))
    cases answer with
    | refused => exact hback _ nofun
    | noMemory => exact hback _ nofun
    | accepted size => exact Counts.submit_accepted hrefs hz' hzrefs hzholds hyidle _ _ size
  · exact hclean.submit_same hz hzrefs hzholds _ _ _ answer (.inl rfl)

theorem Counts.openFile (h : w.Counts 0) (s : ℕ) (cb : Bool) (answer : Answer) : (w.openFile lib s cb answer).Counts 0 := by
  set x : FsInstance H := FsInstance.new none (lib.zeroed .custom) with hx
  have hadd : (w.add x).Counts 0 := h.add rfl (new_holds _ _ _)
  have hself := add_insts_self w x
  change ((w.add x).submit lib w.next x .open cb [s] answer).Counts 0
  cases cb with
  | false => exact hadd.submit_same hself rfl rfl _ _ _ answer (.inl rfl)
  | true =>
    cases answer with
    | refused => exact hadd.submit_same hself rfl rfl _ _ _ .refused (.inr nofun)
    | noMemory => exact hadd.submit_same hself rfl rfl _ _ _ .noMemory (.inr nofun)
    | accepted size => exact Counts.submit_accepted hadd hself rfl rfl rfl _ _ size

theorem Counts.complete (h : w.Counts 0) (hx : w.insts o = some x) (hpending : x.pending = true) (size : ℕ) :
    (w.complete lib o x size).Counts 0 := by
  refine h.apply (k := 0) (m := 0) hx rfl (h.refs o x hx).2 ?_
  rw [holds_idle o rfl, holds_pending o hpending, List.map_cons, List.sum_cons]
  dsimp only
  abel

theorem Counts.callbackEnd {files : List ℕ} {frames : List (List ℕ)} (h : w.Counts 0) (hx : w.insts o = some x)
    (hframes : x.frames = files :: frames) : (w.callbackEnd lib o x files frames).Counts 0 := by
  apply Counts.unrefs
  refine h.put (k := 0) (m := 0) hx rfl (h.refs o x hx).2 ?_
  rw [FsInstance.holds, FsInstance.holds, hframes, List.map_cons, List.sum_cons]
  abel

theorem Counts.handle (h : w.Counts 0) (x : FsInstance H) : (w.handle lib o x).Counts 0 := by
  unfold Paths.handle
  split
  · split
    · rename_i f _ q hq
      refine h.put (k := 1) (m := 0) hq rfl (Nat.succ_pos _) ?_
      simp only [FsInstance.holds, Multiset.replicate_succ, Multiset.replicate_zero, ← Multiset.singleton_add]
      abel
    · exact h
  · exact h.add rfl (new_holds _ none (lib.lent x.path))

theorem step_counts (h : w.Counts 0) (e : PathEvent) (hstep : w.step lib e = some w') : w'.Counts 0 := by
  cases step_acts hstep with
  | create cls => exact h.add rfl (new_holds _ _ _)
  | openFile s cb answer => exact h.openFile s cb answer
  | wrap => exact h.add rfl (new_holds _ _ _)
  | setCallback set hx => exact h.same hx rfl rfl
  | copy hx =>
    refine h.put (k := 1) (m := 0) hx rfl (Nat.succ_pos _) ?_
    simp only [FsInstance.holds, Multiset.replicate_succ, Multiset.replicate_zero, ← Multiset.singleton_add]
    abel
  | @drop o x hx hvars =>
    obtain ⟨v, hv⟩ := Nat.exists_eq_succ_of_ne_zero hvars
    apply Counts.unref
    refine h.put (k := 0) (m := 0) hx rfl (h.refs o x hx).2 ?_
    simp only [FsInstance.holds, hv, Nat.succ_sub_one, Multiset.replicate_succ, Multiset.replicate_zero, ← Multiset.singleton_add]
    abel
  | run call answer hx hcls hidle hadmits => exact h.run hx hcls hidle call answer hadmits
  | complete size hx hpending => exact h.complete hx hpending size
  | callbackEnd hx hframes => exact h.callbackEnd hx hframes
  | @scandirNext o x hx _ _ => exact h.apply (k := 0) (m := 0) hx rfl (h.refs o x hx).2 rfl
  | @handle o x _ _ => exact h.handle x
  | release s => exact h.congr rfl rfl

theorem run_counts (lib : FsLib H) (es : List PathEvent) : ∀ w ∈ visited (step lib) init es, w.Counts 0 :=
  visited_invariant (fun _ e _ h hstep => step_counts h e hstep) es init init_counts

/-- Whoever has a reference is there. -/
theorem Counts.exists_of_mem (h : w.Counts E) (hmem : o ∈ w.held) : ∃ x, w.insts o = some x := by
  cases hx : w.insts o with
  | none => exact absurd (Multiset.mem_add.mpr (.inl hmem)) (h.gone o hx)
  | some x => exact ⟨x, rfl⟩

/-- What a call under way or a callback in progress is about is there. -/
theorem Counts.engaged (h : w.Counts 0) (hx : w.insts o = some x) {j : ℕ} (hj : j ∈ x.engaged o) :
    ∃ q, w.insts j = some q := by
  apply h.exists_of_mem
  have hof : w.holdsOf o = x.holds o := by rw [holdsOf, hx]; rfl
  refine Multiset.mem_of_le (holdsOf_le_held (h.lt_next hx)) ?_
  rw [hof, FsInstance.holds]
  rcases List.mem_append.mp hj with hj | hj
  · split_ifs at hj with hpending
    · rw [if_pos hpending]
      exact Multiset.mem_add.mpr (.inl (Multiset.mem_add.mpr (.inr hj)))
    · cases hj
  · obtain ⟨files, hfiles, hj⟩ := List.mem_flatMap.mp hj
    have hle : (↑(o :: files) : Multiset ℕ) ≤ (x.frames.map fun files => (↑(o :: files) : Multiset ℕ)).sum :=
      List.single_le_sum (fun _ _ => Multiset.zero_le _) _ (List.mem_map_of_mem hfiles)
    exact Multiset.mem_add.mpr (.inr (Multiset.mem_of_le hle hj))

end Paths
end Uvcc.File
