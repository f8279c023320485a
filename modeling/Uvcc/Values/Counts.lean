import Uvcc.Values.Handover

/-!
# The count of an instance is the number of its variables

Every value operation is a sequence of copies and drops of references, so the
ledger stays balanced against the variables. The order inside the assignments
matters: the reference of the right side is taken before that of the left side
is given up.
-/
namespace Uvcc.Values
open Counting Machine

namespace Store

@[simp] theorem unbookLoop_vars (s : Store) (h : ℕ) : (s.unbookLoop h).vars = s.vars := by
  unfold unbookLoop loopUnref unrefWith
  dsimp only
  split
  · split_ifs <;> rfl
  · rfl

theorem closeAfter_vars (s : Store) (o : Instance) (es : List Effect) :
    (s.closeAfter o es).vars = s.vars := by
  simp [closeAfter, record]

theorem handleClose_vars (s : Store) (o : Instance) : (s.handleClose o).vars = s.vars := by
  unfold handleClose
  cases s.embedded o.id with
  | uvHandle initialised => exact closeAfter_vars s o _
  | uvFs result => exact closeAfter_vars s o _

@[simp] theorem unref_vars (s : Store) (o : Instance) : (s.unref o).vars = s.vars := by
  unfold unref
  cases o.cls with
  | handle =>
    simp only [handleUnref, unrefWith]
    split_ifs
    · exact handleClose_vars _ o
    · rfl
  | request => simp only [requestUnref, unrefWith]; split_ifs <;> rfl
  | loop => simp only [loopUnref, unrefWith]; split_ifs <;> rfl
  | buffer => simp only [bufferUnref, unrefWith]; split_ifs <;> rfl

@[simp] theorem unref?_vars (s : Store) (o : Option Instance) : (s.unref? o).vars = s.vars := by
  cases o <;> simp [unref?]

@[simp] theorem ref?_vars (s : Store) (o : Option Instance) : (s.ref? o).vars = s.vars := by
  cases o <;> rfl

@[simp] theorem ref?_bookedLoops (s : Store) (o : Option Instance) :
    (s.ref? o).bookedLoops = s.bookedLoops := by
  cases o <;> rfl

@[simp] theorem setVar_vars (s : Store) (i : ℕ) (v : Option Variable) :
    (s.setVar i v).vars = s.vars.set i v := rfl

@[simp] theorem setVar_bookedLoops (s : Store) (i : ℕ) (v : Option Variable) :
    (s.setVar i v).bookedLoops = s.bookedLoops := rfl

theorem var_slot {s : Store} {i : ℕ} {v : Variable} (h : s.var i = some v) :
    s.vars[i]? = some (some v) := by
  simpa [var, Option.join_eq_some_iff] using h

/-- What an existing variable refers to is held. -/
theorem target_held {s : Store} {i : ℕ} {v : Variable} (h : s.var i = some v) :
    ∀ a ∈ v.target, a ∈ s.holders := by
  intro a ha
  obtain ⟨R, hR, _⟩ := holdersOf_set (var_slot h)
  have ht : slotTarget (some v) = some a := ha
  rw [holders, hR, ht]
  simp

end Store

/-! ## Each operation as a handover -/

/-- An operation that creates nothing. -/
def Transfers (s t : Store) : Prop := Passes s.holders t.holders s t

section Operations
variable {s : Store} {i j : ℕ} {u v : Variable}

/-- Storing into slots changes no count. -/
theorem Passes.store {H K : Multiset Instance} {s t r : Store} (h : Passes H K s t)
    (hm : r.mem = t.mem) (hn : r.next = t.next) (he : r.effects = t.effects) : Passes H K s r := by
  refine ⟨hn.trans h.next, by rw [hm]; exact h.moves, fun D C ho o => ?_⟩
  rw [hm, he]
  exact h.owes D C ho o

theorem copyConstruct_transfers (hv : s.var j = some v) : Transfers s (s.copyConstruct v) := by
  have hh : (s.copyConstruct v).holders = ↑v.target.toList + s.holders := by
    simp only [Store.copyConstruct, Store.newVar, Store.holders, holdersOf_append, Store.ref?_vars,
      holdersOf_singleton]
    rw [add_comm (holdersOf s.vars), add_assoc]
    exact congrArg _ (congrArg _ (Store.ref?_bookedLoops s v.target))
  rw [Transfers, hh]
  exact (ref?_passes (Store.target_held hv)).store rfl rfl rfl

theorem moveConstruct_transfers (hv : s.var j = some v) : Transfers s (s.moveConstruct j v) := by
  obtain ⟨R, hR, hset⟩ := holdersOf_set (Store.var_slot hv)
  have hj := (List.getElem?_eq_some_iff.mp (Store.var_slot hv)).1
  have hh : (s.moveConstruct j v).holders = s.holders := by
    have hvars : holdersOf (s.moveConstruct j v).vars = holdersOf s.vars := by
      simp only [Store.moveConstruct, Store.newVar, Store.setVar]
      rw [List.set_append_left _ _ hj, holdersOf_append, hset, hR]
      simp [add_comm]
    rw [Store.holders, hvars]
    rfl
  rw [Transfers, hh]
  exact (Passes.refl s _).store rfl rfl rfl

/-- The new reference comes before the old one is given up, so nothing that is
still referred to dies in between. -/
theorem copyAssign_transfers (hb : s.holding.Balanced) (hu : s.var i = some u)
    (hv : s.var j = some v) : Transfers s (s.copyAssign i j u v) := by
  by_cases hij : i = j
  · rw [Store.copyAssign, if_pos hij]
    exact Passes.refl s _
  obtain ⟨R, hR, hset⟩ := holdersOf_set (Store.var_slot hu)
  have hcopy : Passes s.holders (↑v.target.toList + s.holders) s ((s.ref? v.target).setVar i (some v)) :=
    (ref?_passes (Store.target_held hv)).store rfl rfl rfl
  have hsplit : (↑v.target.toList : Multiset Instance) + s.holders = ↑u.target.toList +
      (↑v.target.toList + R + ((s.ref? v.target).setVar i (some v)).bookedLoops) := by
    rw [Store.holders, hR]
    simp only [slotTarget_some, Store.setVar_bookedLoops, Store.ref?_bookedLoops]
    ac_rfl
  have hdrop := unref?_passes (hsplit ▸ hcopy.balanced hb)
  have hh : (s.copyAssign i j u v).holders = ↑v.target.toList + R + (s.copyAssign i j u v).bookedLoops := by
    rw [Store.holders, Store.copyAssign, if_neg hij, Store.unref?_vars, Store.setVar_vars,
      Store.ref?_vars, hset]
    rfl
  rw [Transfers, hh, Store.copyAssign, if_neg hij]
  exact hcopy.trans (hsplit ▸ hdrop)

theorem moveAssign_transfers (hb : s.holding.Balanced) (hu : s.var i = some u)
    (hv : s.var j = some v) : Transfers s (s.moveAssign i j u v) := by
  by_cases hij : i = j
  · rw [Store.moveAssign, if_pos hij]
    exact Passes.refl s _
  obtain ⟨R, hR, hset⟩ := holdersOf_set (Store.var_slot hu)
  have hj : (s.vars.set i (some v))[j]? = some (some v) := by
    rw [List.getElem?_set_ne hij]
    exact Store.var_slot hv
  obtain ⟨Q, hQ, hset'⟩ := holdersOf_set hj
  have hRQ : (↑v.target.toList : Multiset Instance) + R = ↑v.target.toList + Q :=
    (hset (some v)).symm.trans hQ
  have hs : s.holders = ↑u.target.toList + (R + s.bookedLoops) := by
    rw [Store.holders, hR, slotTarget_some, add_assoc]
  have hb' : s.mem.Balanced (↑u.target.toList + (R + s.bookedLoops)) := hs ▸ hb
  have hdrop := unref?_passes (s := (s.setVar i (some v)).setVar j (some v.void)) hb'
  have hh : (s.moveAssign i j u v).holders = R + (s.moveAssign i j u v).bookedLoops := by
    rw [Store.holders, Store.moveAssign, if_neg hij, Store.unref?_vars, Store.setVar_vars,
      Store.setVar_vars, hset', add_left_cancel hRQ]
    simp
  rw [Transfers, hh, hs, Store.moveAssign, if_neg hij]
  exact ⟨hdrop.next, hdrop.moves, hdrop.owes⟩

theorem swap_transfers (hu : s.var i = some u) (hv : s.var j = some v) :
    Transfers s (s.swap i j u v) := by
  obtain ⟨R, hR, hset⟩ := holdersOf_set (Store.var_slot hu)
  have hh : (s.swap i j u v).holders = s.holders := by
    have hvars : holdersOf (s.swap i j u v).vars = holdersOf s.vars := by
      simp only [Store.swap, Store.setVar]
      by_cases hij : i = j
      · subst hij
        rw [List.set_set, hset, hR]
      · have hj : (s.vars.set i (some v))[j]? = some (some v) := by
          rw [List.getElem?_set_ne hij]
          exact Store.var_slot hv
        obtain ⟨Q, hQ, hset'⟩ := holdersOf_set hj
        have hRQ : (↑v.target.toList : Multiset Instance) + R = ↑v.target.toList + Q :=
          (hset (some v)).symm.trans hQ
        rw [hset', hR, add_left_cancel hRQ]
    rw [Store.holders, hvars]
    rfl
  rw [Transfers, hh]
  exact (Passes.refl s _).store rfl rfl rfl

theorem destruct_transfers (hb : s.holding.Balanced) (hu : s.var i = some u) :
    Transfers s (s.destruct i u) := by
  obtain ⟨R, hR, hset⟩ := holdersOf_set (Store.var_slot hu)
  have hs : s.holders = ↑u.target.toList + (R + s.bookedLoops) := by
    rw [Store.holders, hR, slotTarget_some, add_assoc]
  have hb' : s.mem.Balanced (↑u.target.toList + (R + s.bookedLoops)) := hs ▸ hb
  have hdrop := unref?_passes (s := s.setVar i none) hb'
  have hh : (s.destruct i u).holders = R + (s.destruct i u).bookedLoops := by
    rw [Store.holders, Store.destruct, Store.unref?_vars, Store.setVar_vars, hset none]
    simp
  rw [Transfers, hh, hs]
  exact ⟨hdrop.next, hdrop.moves, hdrop.owes⟩

end Operations

/-! ## Creation -/

section Creation
variable {s : Store}

theorem create_holders (cls : Counted) (e : Embedded) :
    (s.create cls e).holders = ⟨cls, s.next⟩ ::ₘ s.holders := by
  simp only [Store.create, Store.holders, holdersOf_append]
  rw [add_comm (holdersOf s.vars), add_assoc]
  rfl

theorem createOn_holders (k : ℕ) (e : Embedded) :
    (s.createOn k e).holders = ⟨.loop, k⟩ ::ₘ (s.create .handle e).holders := by
  rw [Store.holders, Store.holders, ← Multiset.add_cons]
  rfl

theorem create_moves (cls : Counted) (e : Embedded) (h : s.mem.status ⟨cls, s.next⟩ = .unborn) :
    s.holding.moves [.create ⟨cls, s.next⟩] = some (s.create cls e).holding := by
  rw [Store.holding, Store.holding, create_holders]
  simp [Holding.moves, Holding.move, h, Store.create]

/-- The new handle is created first, then its loop is booked. -/
theorem createOn_moves {k : ℕ} (e : Embedded) (h : s.mem.status ⟨.handle, s.next⟩ = .unborn)
    (hk : ⟨.loop, k⟩ ∈ s.holders) :
    s.holding.moves [.create ⟨.handle, s.next⟩, .copy ⟨.loop, k⟩] = some (s.createOn k e).holding := by
  have hc : (⟨.loop, k⟩ : Instance) ∈ (s.create .handle e).holders := by
    rw [create_holders]
    exact Multiset.mem_cons_of_mem hk
  rw [← List.singleton_append, Holding.moves_append, create_moves _ e h, Option.bind_some]
  rw [Store.holding, Store.holding, createOn_holders]
  simp [Holding.moves, Holding.move, hc, Store.createOn, Store.ref]

end Creation

/-! ## The invariant -/

structure Inv (s : Store) : Prop where
  balanced : s.holding.Balanced
  fresh : ∀ o : Instance, s.next ≤ o.id → s.mem.status o = .unborn
  effects : Owes [] [] s

theorem init_inv : Inv Store.init where
  balanced := Ledger.Balanced.empty
  fresh _ _ := rfl
  effects _ := ⟨rfl, fun _ => rfl⟩

theorem binary_some {s t : Store} {i j : ℕ} {f : Variable → Variable → Store}
    (h : s.binary i j f = some t) :
    ∃ u v, s.var i = some u ∧ s.var j = some v ∧ t = f u v := by
  simp only [Store.binary, Option.bind_eq_some_iff, Option.ite_none_right_eq_some,
    Option.some.injEq] at h
  obtain ⟨u, hu, v, hv, _, rfl⟩ := h
  exact ⟨u, v, hu, hv, rfl⟩

/-- What an operation can do: create an instance, a handle perhaps on a loop
that somebody holds, or hand references over. -/
theorem step_cases {s t : Store} {op : Op} (hb : s.holding.Balanced) (h : step s op = some t) :
    (∃ cls e, t = s.create cls e) ∨ (∃ k e, ⟨.loop, k⟩ ∈ s.holders ∧ t = s.createOn k e) ∨
    Transfers s t := by
  cases op with
  | create cls e =>
    simp only [step, Option.some.injEq] at h
    exact .inl ⟨cls, e, h.symm⟩
  | createOn j e =>
    simp only [step, Option.bind_eq_some_iff] at h
    obtain ⟨v, hv, h⟩ := h
    split at h
    · next k hk =>
      have hheld := Store.target_held hv _ hk
      exact .inr (.inl ⟨k, e, hheld, (Option.some.inj h).symm⟩)
    · cases h
  | copyConstruct j =>
    obtain ⟨v, hv, rfl⟩ := Option.map_eq_some_iff.mp h
    exact .inr (.inr (copyConstruct_transfers hv))
  | moveConstruct j =>
    obtain ⟨v, hv, rfl⟩ := Option.map_eq_some_iff.mp h
    exact .inr (.inr (moveConstruct_transfers hv))
  | copyAssign i j =>
    obtain ⟨u, v, hu, hv, rfl⟩ := binary_some h
    exact .inr (.inr (copyAssign_transfers hb hu hv))
  | moveAssign i j =>
    obtain ⟨u, v, hu, hv, rfl⟩ := binary_some h
    exact .inr (.inr (moveAssign_transfers hb hu hv))
  | swap i j =>
    obtain ⟨u, v, hu, hv, rfl⟩ := binary_some h
    exact .inr (.inr (swap_transfers hu hv))
  | destruct i =>
    obtain ⟨u, hu, rfl⟩ := Option.map_eq_some_iff.mp h
    exact .inr (.inr (destruct_transfers hb hu))

/-- The concrete operations refine the abstract moves of references. -/
theorem step_refines {s t : Store} {op : Op} (hs : Inv s) (h : step s op = some t) :
    ∃ ms, s.holding.moves ms = some t.holding := by
  rcases step_cases hs.balanced h with ⟨cls, e, rfl⟩ | ⟨k, e, hk, rfl⟩ | ht
  · exact ⟨_, create_moves cls e (hs.fresh _ le_rfl)⟩
  · exact ⟨_, createOn_moves e (hs.fresh _ le_rfl) hk⟩
  · obtain ⟨ms, _, hms⟩ := ht.moves
    exact ⟨ms, hms⟩

theorem create_inv {s : Store} (hs : Inv s) (cls : Counted) (e : Embedded) : Inv (s.create cls e) where
  balanced := Holding.moves_balanced hs.balanced (create_moves cls e (hs.fresh _ le_rfl))
  fresh o ho := by
    have hlt : s.next + 1 ≤ o.id := ho
    have hne : o ≠ ⟨cls, s.next⟩ := by rintro rfl; exact absurd hlt (by simp)
    simpa [Store.create, Ledger.create, hne] using hs.fresh o (by omega)
  effects o := hs.effects o

theorem createOn_inv {s : Store} (hs : Inv s) {k : ℕ} (hk : ⟨.loop, k⟩ ∈ s.holders) (e : Embedded) :
    Inv (s.createOn k e) where
  balanced := Holding.moves_balanced hs.balanced (createOn_moves e (hs.fresh _ le_rfl) hk)
  fresh o ho := by
    have hc := create_inv hs .handle e
    have hm : (⟨.loop, k⟩ : Instance) ∈ (s.create .handle e).holders := by
      rw [create_holders]
      exact Multiset.mem_cons_of_mem hk
    have hmove : (s.create .handle e).holding.move (.copy ⟨.loop, k⟩) =
        some ⟨(s.createOn k e).mem, ⟨.loop, k⟩ ::ₘ (s.create .handle e).holders⟩ := if_pos hm
    exact Holding.move_unborn hmove trivial (hc.fresh o ho)
  effects := (create_inv hs .handle e).effects.ref

theorem step_inv {s t : Store} {op : Op} (hs : Inv s) (h : step s op = some t) : Inv t := by
  rcases step_cases hs.balanced h with ⟨cls, e, rfl⟩ | ⟨k, e, hk, rfl⟩ | ht
  · exact create_inv hs cls e
  · exact createOn_inv hs hk e
  · obtain ⟨ms, hof, hms⟩ := ht.moves
    refine ⟨ht.balanced hs.balanced, fun o ho => ?_, ht.owes [] [] hs.effects⟩
    exact Holding.moves_unborn hms hof (hs.fresh o (ht.next ▸ ho))

/-- What no operation created before its step is not destroyed by it. -/
theorem step_dead {s t : Store} {op : Op} (hs : Inv s) (h : step s op = some t) {o : Instance}
    (hd : t.mem.status o = .dead) : s.mem.status o ≠ .unborn := by
  intro hu
  rcases step_cases hs.balanced h with ⟨cls, e, rfl⟩ | ⟨k, e, hk, rfl⟩ | ht
  · by_cases ho : o = ⟨cls, s.next⟩ <;> simp [Store.create, Ledger.create, ho, hu] at hd
  · have hst : (s.createOn k e).mem.status o = (s.create .handle e).mem.status o := by
      simp only [Store.createOn, Store.ref, Ledger.inc]
      split_ifs <;> rfl
    rw [hst] at hd
    by_cases ho : o = ⟨.handle, s.next⟩ <;> simp [Store.create, Ledger.create, ho, hu] at hd
  · obtain ⟨ms, hof, hms⟩ := ht.moves
    have hst := Holding.moves_unborn hms hof hu
    rw [hst] at hd
    cases hd

/-! ## The main result -/

/-- Counts, variables and destructions agree; only a loop can also be referred
to from elsewhere, by the handles booked on it. -/
structure Exact (s : Store) : Prop where
  count_eq : ∀ o, s.mem.status o = .live →
    s.mem.refs o = s.varCount o + s.bookCount o ∧ 1 ≤ s.mem.refs o
  booked_loop : ∀ o, o.cls ≠ .loop → s.bookCount o = 0
  refers_live : ∀ o, 0 < s.varCount o + s.bookCount o → s.mem.status o = .live
  deleted_once : ∀ o, s.effects.count (.delete o) = if s.mem.status o = .dead then 1 else 0
  destroyCb_once : ∀ o, o.cls ≠ .buffer →
    s.effects.count (.destroyCb o) = if s.mem.status o = .dead then 1 else 0
  no_fault : s.mem.fault = false

theorem Inv.exact {s : Store} (h : Inv s) : Exact s where
  count_eq o ho := by
    have hm : o ∈ s.holders := (h.balanced.live_iff o).mp ho
    rw [← Nat.cast_add, ← Store.count_holders]
    exact ⟨h.balanced.refs_eq o ho, h.balanced.one_le hm⟩
  booked_loop o ho := by
    rw [Store.bookCount, List.countP_eq_zero]
    rintro p _ hp
    exact ho (by rw [← eq_of_beq hp])
  refers_live o ho := by
    rw [← Store.count_holders] at ho
    exact h.balanced.live (Multiset.count_pos.mp ho)
  deleted_once o := by
    have hd := (h.effects o).1
    rw [List.count_nil, add_zero] at hd
    rw [hd]
    exact h.balanced.count_died o
  destroyCb_once o ho := by
    have hc := (h.effects o).2 ho
    rw [List.count_nil, add_zero] at hc
    rw [hc]
    exact h.balanced.count_died o
  no_fault := h.balanced.fault

/-- An instance is deleted by the step that takes its last reference away. -/
theorem step_deletes {s t : Store} {op : Op} (hs : Inv s) (h : step s op = some t) (o : Instance) :
    t.effects.count (.delete o) = s.effects.count (.delete o) +
      if 0 < s.varCount o + s.bookCount o ∧ t.varCount o + t.bookCount o = 0 then 1 else 0 := by
  have ht := step_inv hs h
  have hrank : Holding.Status.rank (s.mem.status o) ≤ Holding.Status.rank (t.mem.status o) := by
    obtain ⟨ms, hms⟩ := step_refines hs h
    exact Holding.moves_rank hs.balanced hms o
  have hheld {r : Store} (hr : Inv r) : 0 < r.varCount o + r.bookCount o ↔ r.mem.status o = .live := by
    rw [← Store.count_holders, Multiset.count_pos]
    exact (hr.balanced.live_iff o).symm
  have hgone : t.varCount o + t.bookCount o = 0 ↔ t.mem.status o ≠ .live := by
    rw [ne_eq, ← hheld ht]
    omega
  rw [hs.exact.deleted_once o, ht.exact.deleted_once o]
  simp only [hheld hs, hgone]
  cases hso : s.mem.status o with
  | unborn =>
    have hn : t.mem.status o ≠ .dead := fun hd => step_dead hs h hd hso
    simp [hn]
  | live =>
    cases hto : t.mem.status o with
    | unborn => simp [hso, hto, Holding.Status.rank] at hrank
    | live => simp
    | dead => simp
  | dead =>
    cases hto : t.mem.status o with
    | unborn => simp [hso, hto, Holding.Status.rank] at hrank
    | live => simp [hso, hto, Holding.Status.rank] at hrank
    | dead => simp

/-- In every run of value operations over any number of variables and instances
the count of a live instance is the number of its variables (and, for a loop, of
the handles booked on it), no variable dangles, and the step that takes the last
of these away destroys the instance, its destroy callback included, once and for
all. -/
theorem variables_counted (ops : List Op) :
    (∀ s ∈ visited step Store.init ops, Exact s) ∧
    ∀ p ∈ taken step Store.init ops, ∀ t, step p.1 p.2 = some t → ∀ o,
      t.effects.count (.delete o) = p.1.effects.count (.delete o) +
        if 0 < p.1.varCount o + p.1.bookCount o ∧ t.varCount o + t.bookCount o = 0 then 1 else 0 := by
  have hinv : ∀ s ∈ visited step Store.init ops, Inv s :=
    visited_invariant (fun _ _ _ hs h => step_inv hs h) ops Store.init init_inv
  refine ⟨fun s hs => (hinv s hs).exact, fun p hp t ht o => ?_⟩
  exact step_deletes (hinv p.1 (taken_visited ops Store.init p hp)) ht o

end Uvcc.Values
