import Uvcc.Values.Variables

/-!
# What `ref` and `unref` do to the references

The four classes share one account: `ref` copies a reference, `unref` drops one,
and an instance that dies runs its destroy callback and is deleted. A dying
handle drops the reference to its loop as well.
-/
namespace Uvcc.Values
open Counting

/-! ## Destroy callbacks and deletions still owed -/

/-- The effects recorded are those of the destructions, one each, but for the
deletions `D` and the destroy callbacks `C` that are still to come. A buffer has
no destroy callback. -/
def Owes (D C : List Instance) (s : Store) : Prop := ∀ o,
  s.effects.count (.delete o) + D.count o = s.mem.died.count o ∧
  (o.cls ≠ .buffer → s.effects.count (.destroyCb o) + C.count o = s.mem.died.count o)

section Owing
variable {D C : List Instance} {s : Store} {a : Instance}

theorem Owes.last (h : Owes D C s) (hl : s.mem.status a = .live) (hz : s.mem.refs a - 1 = 0) :
    Owes (a :: D) (a :: C) { s with mem := s.mem.dec a } := by
  intro o
  have hd := Ledger.count_died_dec hl o
  have ho := h o
  by_cases he : o = a
  · subst he
    simp only [hz, and_self, if_true] at hd
    simp only [hd, List.count_cons_self]
    exact ⟨by omega, fun hb => by have := ho.2 hb; omega⟩
  · simp only [he, and_false, if_false, add_zero] at hd
    simpa [hd, List.count_cons, Ne.symm he] using ho

theorem Owes.more (h : Owes D C s) (hl : s.mem.status a = .live) (hz : s.mem.refs a - 1 ≠ 0) :
    Owes D C { s with mem := s.mem.dec a } := by
  intro o
  have hd := Ledger.count_died_dec hl o
  simp only [hz, false_and, if_false, add_zero] at hd
  simpa [hd] using h o

theorem Owes.ref (h : Owes D C s) : Owes D C (s.ref a) := by
  intro o
  simpa [Store.ref] using h o

theorem Owes.delete (h : Owes (a :: D) C s) : Owes D C (s.record [.delete a]) := by
  intro o
  have ho := h o
  by_cases he : o = a
  · subst he
    simp only [List.count_cons_self] at ho
    simp only [Store.record, List.count_append]
    simpa [add_assoc, add_comm, add_left_comm] using ho
  · simpa [Store.record, List.count_cons, Ne.symm he] using ho

theorem Owes.destroyCb (h : Owes D (a :: C) s) : Owes D C (s.record [.destroyCb a]) := by
  intro o
  have ho := h o
  by_cases he : o = a
  · subst he
    simp only [List.count_cons_self] at ho
    simp only [Store.record, List.count_append]
    simpa [add_assoc, add_comm, add_left_comm] using ho
  · simpa [Store.record, List.count_cons, Ne.symm he] using ho

theorem Owes.noCallback (h : Owes D (a :: C) s) (hb : a.cls = .buffer) : Owes D C s := by
  intro o
  refine ⟨(h o).1, fun ho => ?_⟩
  have he : o ≠ a := by rintro rfl; exact ho hb
  simpa [List.count_cons, Ne.symm he] using (h o).2 ho

theorem Owes.silent (h : Owes D C s) (es : List Effect) (hd : ∀ o, Effect.delete o ∉ es)
    (hc : ∀ o, Effect.destroyCb o ∉ es) : Owes D C (s.record es) := by
  intro o
  simpa [Store.record, List.count_append, List.count_eq_zero.mpr (hd o),
    List.count_eq_zero.mpr (hc o)] using h o

end Owing

/-! ## What a handover does -/

structure Passes (H K : Multiset Instance) (s t : Store) : Prop where
  next : t.next = s.next
  moves : ∃ ms, (∀ m ∈ ms, Holding.Move.ofHolder m) ∧
    (⟨s.mem, H⟩ : Holding Instance).moves ms = some ⟨t.mem, K⟩
  owes : ∀ D C, Owes D C s → Owes D C t

section Handover
variable {s t u : Store} {H K L : Multiset Instance} {a : Instance}

theorem Passes.refl (s : Store) (H : Multiset Instance) : Passes H H s s :=
  ⟨rfl, ⟨[], by simp, rfl⟩, fun _ _ h => h⟩

theorem Passes.trans (h : Passes H K s t) (h' : Passes K L t u) : Passes H L s u := by
  obtain ⟨ms, hms, hm⟩ := h.moves
  obtain ⟨ns, hns, hn⟩ := h'.moves
  refine ⟨h'.next.trans h.next, ⟨ms ++ ns, fun m hmem => ?_, ?_⟩,
    fun D C ho => h'.owes D C (h.owes D C ho)⟩
  · rcases List.mem_append.mp hmem with hmem | hmem
    · exact hms m hmem
    · exact hns m hmem
  · rw [Holding.moves_append, hm, Option.bind_some, hn]

theorem Passes.balanced (h : Passes H K s t) (hb : s.mem.Balanced H) : t.mem.Balanced K := by
  obtain ⟨ms, _, hm⟩ := h.moves
  exact Holding.moves_balanced (s := ⟨s.mem, H⟩) hb hm

theorem ref_passes (ha : a ∈ H) : Passes H (a ::ₘ H) s (s.ref a) where
  next := rfl
  moves := ⟨[.copy a], by simp [Holding.Move.ofHolder], by
    simp [Holding.moves, Holding.move, ha, Store.ref]⟩
  owes _ _ h := h.ref

theorem ref?_passes {o : Option Instance} (h : ∀ a ∈ o, a ∈ H) :
    Passes H (↑o.toList + H) s (s.ref? o) := by
  cases o with
  | none => simpa [Store.ref?] using Passes.refl s H
  | some a => exact ref_passes (h a rfl)

/-- The decrement in front of a `destroy` that leaves the references alone. -/
theorem unrefWith_passes {destroy : Store → Instance → Store}
    (hmem : ∀ r, (destroy r a).mem = r.mem) (hnext : ∀ r, (destroy r a).next = r.next)
    (howes : ∀ r D C, Owes (a :: D) (a :: C) r → Owes D C (destroy r a))
    (hb : s.mem.Balanced (a ::ₘ H)) : Passes (a ::ₘ H) H s (Store.unrefWith destroy s a) := by
  have hl := hb.live (Multiset.mem_cons_self a H)
  have hm : (⟨s.mem, a ::ₘ H⟩ : Holding Instance).moves [.drop a] = some ⟨s.mem.dec a, H⟩ := by
    simp [Holding.moves, Holding.move]
  rw [Store.unrefWith]
  split_ifs with hz
  · refine ⟨hnext _, ⟨[.drop a], by simp [Holding.Move.ofHolder], ?_⟩, fun D C ho => ?_⟩
    · rw [hm, hmem]
    · exact howes _ D C (ho.last hl hz)
  · exact ⟨rfl, ⟨[.drop a], by simp [Holding.Move.ofHolder], hm⟩, fun D C ho => ho.more hl hz⟩

theorem requestUnref_passes (hb : s.mem.Balanced (a ::ₘ H)) :
    Passes (a ::ₘ H) H s (s.requestUnref a) := by
  refine unrefWith_passes (fun _ => rfl) (fun _ => rfl) (fun r D C h => ?_) hb
  simpa [Store.requestDestroyInstance, Store.record] using h.destroyCb.delete

theorem loopUnref_passes (hb : s.mem.Balanced (a ::ₘ H)) : Passes (a ::ₘ H) H s (s.loopUnref a) := by
  refine unrefWith_passes (fun _ => rfl) (fun _ => rfl) (fun r D C h => ?_) hb
  have hs := (h.destroyCb.silent [.uvLoopClose a] (by simp) (by simp)).delete
  simpa [Store.loopDestroy, Store.record] using hs

theorem bufferUnref_passes (hc : a.cls = .buffer) (hb : s.mem.Balanced (a ::ₘ H)) :
    Passes (a ::ₘ H) H s (s.bufferUnref a) :=
  unrefWith_passes (fun _ => rfl) (fun _ => rfl)
    (fun _ _ _ h => (h.noCallback hc).delete) hb

/-! ## A handle gives up its loop -/

theorem bookedLoops_erase {k h : ℕ} (hk : s.loopOf h = some k) :
    s.bookedLoops = ⟨.loop, k⟩ ::ₘ
      ({ s with bookings := s.bookings.eraseP (fun p => p.1 == h) } : Store).bookedLoops := by
  obtain ⟨p, hp, rfl⟩ := Option.map_eq_some_iff.mp hk
  have hmem := List.mem_of_find?_eq_some hp
  have hph : (p.1 == h) = true := (List.find?_eq_some_iff_append.mp hp).1
  obtain ⟨q, l₁, l₂, hl₁, hq, hsplit, herase⟩ :=
    List.exists_of_eraseP (p := fun q => q.1 == h) hmem hph
  have hqp : q = p := by
    rw [hsplit, List.find?_append, List.find?_eq_none.mpr (fun x hx => hl₁ x hx)] at hp
    simpa [hq] using hp
  subst hqp
  simp only [Store.bookedLoops, herase]
  simp [hsplit]

theorem unbookLoop_passes {h : ℕ} (hb : s.mem.Balanced (H + s.bookedLoops)) :
    Passes (H + s.bookedLoops) (H + (s.unbookLoop h).bookedLoops) s (s.unbookLoop h) := by
  unfold Store.unbookLoop
  cases hk : s.loopOf h with
  | none => exact Passes.refl s _
  | some k =>
    dsimp only
    have he := bookedLoops_erase hk
    set s' : Store := { s with bookings := s.bookings.eraseP (fun p => p.1 == h) }
    have hsplit : H + s.bookedLoops = ⟨.loop, k⟩ ::ₘ (H + s'.bookedLoops) := by
      rw [he, Multiset.add_cons]
    have hbook : (s'.loopUnref ⟨.loop, k⟩).bookedLoops = s'.bookedLoops := by
      unfold Store.loopUnref Store.unrefWith
      dsimp only
      split_ifs <;> rfl
    rw [hsplit] at hb ⊢
    rw [hbook]
    have hp := loopUnref_passes (s := s') hb
    exact ⟨hp.next, hp.moves, hp.owes⟩

/-- From a dead handle to its deletion: its loop is given up, and the destroy callback
and the deletion that are owed take place. -/
structure Closes (H : Multiset Instance) (a : Instance) (s t : Store) : Prop where
  next : t.next = s.next
  moves : ∃ ms, (∀ m ∈ ms, Holding.Move.ofHolder m) ∧
    (⟨s.mem, H + s.bookedLoops⟩ : Holding Instance).moves ms = some ⟨t.mem, H + t.bookedLoops⟩
  owes : ∀ D C, Owes (a :: D) (a :: C) s → Owes D C t

theorem closeAfter_closes {es : List Effect} (hd : ∀ o, Effect.delete o ∉ es)
    (hc : ∀ o, Effect.destroyCb o ∉ es) (hb : s.mem.Balanced (H + s.bookedLoops)) :
    Closes H a s (s.closeAfter a es) := by
  set s' := s.record (es ++ [.destroyCb a]) with hs'
  have hp := unbookLoop_passes (s := s') (h := a.id) hb
  refine ⟨hp.next, hp.moves, fun D C ho => ?_⟩
  have hcb : Owes (a :: D) C s' := by
    have hu : Owes (a :: D) (a :: C) (s.record es) := ho.silent es hd hc
    simpa [hs', Store.record] using hu.destroyCb
  exact (hp.owes (a :: D) C hcb).delete

/-- The two `close` functions differ in the libuv call they begin with. -/
theorem handleClose_closes (hb : s.mem.Balanced (H + s.bookedLoops)) :
    Closes H a s (s.handleClose a) := by
  unfold Store.handleClose
  cases s.embedded a.id with
  | uvHandle initialised =>
    refine closeAfter_closes (fun o => ?_) (fun o => ?_) hb <;> split_ifs <;> simp
  | uvFs result =>
    refine closeAfter_closes (fun o => ?_) (fun o => ?_) hb <;> split_ifs <;> simp

theorem handleUnref_passes (hb : s.mem.Balanced (a ::ₘ (H + s.bookedLoops))) :
    Passes (a ::ₘ (H + s.bookedLoops)) (H + (s.handleUnref a).bookedLoops) s (s.handleUnref a) := by
  have hl := hb.live (Multiset.mem_cons_self a _)
  have hm : (⟨s.mem, a ::ₘ (H + s.bookedLoops)⟩ : Holding Instance).moves [.drop a] =
      some ⟨s.mem.dec a, H + s.bookedLoops⟩ := by
    simp [Holding.moves, Holding.move]
  unfold Store.handleUnref Store.unrefWith
  dsimp only
  split_ifs with hz
  · have hclose := handleClose_closes (s := { s with mem := s.mem.dec a }) (a := a) (H := H) hb.dec
    obtain ⟨ms, hof, hms⟩ := hclose.moves
    refine ⟨hclose.next, ⟨.drop a :: ms, ?_, ?_⟩, fun D C ho => hclose.owes D C (ho.last hl hz)⟩
    · intro m hmem
      rcases List.mem_cons.mp hmem with rfl | hmem
      · trivial
      · exact hof m hmem
    · rw [← List.singleton_append, Holding.moves_append, hm, Option.bind_some]
      exact hms
  · exact ⟨rfl, ⟨[.drop a], by simp [Holding.Move.ofHolder], hm⟩, fun D C ho => ho.more hl hz⟩

/-- The four classes agree on what `unref` does to the references. -/
theorem unref_passes (hb : s.mem.Balanced (a ::ₘ (H + s.bookedLoops))) :
    Passes (a ::ₘ (H + s.bookedLoops)) (H + (s.unref a).bookedLoops) s (s.unref a) := by
  unfold Store.unref
  have hkeep (destroy : Store → Instance → Store) (hd : ∀ r, (destroy r a).bookings = r.bookings) :
      (s.unrefWith destroy a).bookedLoops = s.bookedLoops := by
    unfold Store.unrefWith Store.bookedLoops
    dsimp only
    split_ifs <;> simp [hd]
  cases hc : a.cls with
  | handle => exact handleUnref_passes hb
  | request =>
    have hk : (s.requestUnref a).bookedLoops = s.bookedLoops := hkeep _ (fun _ => rfl)
    simpa only [hk] using requestUnref_passes hb
  | loop =>
    have hk : (s.loopUnref a).bookedLoops = s.bookedLoops := hkeep _ (fun _ => rfl)
    simpa only [hk] using loopUnref_passes hb
  | buffer =>
    have hk : (s.bufferUnref a).bookedLoops = s.bookedLoops := hkeep _ (fun _ => rfl)
    simpa only [hk] using bufferUnref_passes hc hb

theorem unref?_passes {o : Option Instance} (hb : s.mem.Balanced (↑o.toList + (H + s.bookedLoops))) :
    Passes (↑o.toList + (H + s.bookedLoops)) (H + (s.unref? o).bookedLoops) s (s.unref? o) := by
  cases o with
  | none => simpa [Store.unref?] using Passes.refl s (H + s.bookedLoops)
  | some a => exact unref_passes hb

end Handover
end Uvcc.Values
