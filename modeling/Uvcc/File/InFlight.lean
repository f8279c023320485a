import Uvcc.Io.ReadCallbacks

/-!
# A file with a read in flight

The request and the buffer of a pending `uv_fs_read` lie in the file instance. The
extra reference goes with the command state and not with the operation, and
`read_stop` of a file cancels nothing.
-/
namespace Uvcc.File
open Machine Io

/-- A read that was submitted and not completed finds its instance alive. -/
def ReadHeld (s : Reading) : Prop :=
  s.endpoint.world.inFlight ≠ [] → 1 ≤ s.endpoint.refs ∧ s.endpoint.destroyed = false

instance (s : Reading) : Decidable (ReadHeld s) := inferInstanceAs (Decidable (_ → _))

/-- The last variable, close request or callback argument does not go while the
command state holds nothing and a read is in flight, or is about to be. -/
def ReleasesIdle (s : Reading) : Event → Prop
  | .allocCbEnd r => s.vars = 0 → s.closes = 0 → s.endpoint.rdcmd.reading = false →
      r.ret < 0 ∧ s.endpoint.world.inFlight = []
  | e => s.Releases e → s.holders = 1 → s.endpoint.rdcmd.reading = false → s.endpoint.world.inFlight = []

section Steps
variable {s t : Reading}

theorem readHeld_iff (h : t.Counted) : ReadHeld t ↔
    (t.endpoint.world.inFlight ≠ [] → 1 ≤ t.holders ∨ t.endpoint.rdcmd.reading = true) := by
  unfold ReadHeld
  have hd : 1 ≤ t.endpoint.refs → t.endpoint.destroyed = false := fun hr => by
    rw [h.destroyed, ← h.refs, decide_eq_false_iff_not]
    omega
  rw [← h.alive]
  exact ⟨fun hp hne => (hp hne).1, fun hp hne => ⟨hp hne, hd (hp hne)⟩⟩

/-- A holder goes: what is left is the command state and the reads. -/
theorem releases_readHeld (ht : t.Counted) (hh : s.holders = t.holders + 1)
    (hc : t.endpoint.rdcmd = s.endpoint.rdcmd) (hw : t.endpoint.world = s.endpoint.world) :
    ReadHeld t ↔
      (s.holders = 1 → s.endpoint.rdcmd.reading = false → s.endpoint.world.inFlight = []) := by
  rw [readHeld_iff ht, hc, hw]
  constructor
  · intro hp h1 hidle
    by_contra hne
    rcases hp hne with hpos | hread
    · omega
    · rw [hidle] at hread
      cases hread
  · intro hok hne
    by_cases h1 : s.holders = 1
    · right
      by_contra hidle
      rw [Bool.not_eq_true] at hidle
      exact hne (hok h1 hidle)
    · left
      omega

/-- After a read callback the next allocation callback holds the instance, if there is one. -/
theorem returns_readHeld {f : Frame} (hs : s.Counted ∧ ReadHeld s) (ht : t.Counted) (hf : s.frame = some f)
    (hr : Reading.Returns s t f) : ReadHeld t ↔ ReleasesIdle s .readCbEnd := by
  have ha : s.argument = f.arg := by simp [Reading.argument, hf]
  have hh := hr.holders
  simp only [ReleasesIdle, Reading.Releases]
  cases hon : s.readsOn with
  | true =>
    have hread : s.endpoint.rdcmd.reading = true := by
      simp only [Reading.readsOn, decide_eq_true_eq] at hon
      exact hon.2
    refine iff_of_true ((readHeld_iff ht).mpr fun _ => .inr (by rw [hr.rdcmd, hread])) ?_
    intro _ _ hidle
    rw [hread] at hidle
    cases hidle
  | false =>
    rw [hon, Bool.toNat_false, add_zero] at hh
    cases harg : f.arg with
    | true =>
      rw [harg, Bool.toNat_true] at hh
      rw [releases_readHeld ht hh hr.rdcmd hr.world, ha, harg, eq_self, true_imp_iff]
    | false =>
      rw [harg, Bool.toNat_false, add_zero] at hh
      have hheld : ReadHeld t := by
        rw [readHeld_iff ht, hr.rdcmd, hr.world, ← hh]
        exact (readHeld_iff hs.1).mp hs.2
      refine iff_of_true hheld fun hrel => ?_
      rw [ha, harg] at hrel
      cases hrel

/-- After the allocation callback the next read goes out, whoever is left. -/
theorem submits_readHeld {f : Frame} {r : Answer} (ht : t.Counted) (hf : s.frame = some f)
    (hr : Reading.Submits s t f r.ret) : ReadHeld t ↔ ReleasesIdle s (.allocCbEnd r) := by
  have hh : t.holders = s.vars + s.closes := by
    have hholders := hr.holders
    have ha : s.argument = f.arg := by simp [Reading.argument, hf]
    simp only [Reading.holders, ha] at hholders ⊢
    omega
  have hnil : t.endpoint.world.inFlight = [] ↔ r.ret < 0 ∧ s.endpoint.world.inFlight = [] := by
    rw [hr.world, fileRead]
    split_ifs with hret <;> simp [hret]
  rw [readHeld_iff ht, ReleasesIdle, hr.rdcmd, ← hnil, hh]
  constructor
  · intro hp hv hcl hidle
    by_contra hne
    rcases hp hne with hpos | hread
    · omega
    · rw [hidle] at hread
      cases hread
  · intro hok hne
    by_cases hvars : s.vars = 0 ∧ s.closes = 0
    · right
      by_contra hidle
      rw [Bool.not_eq_true] at hidle
      exact hne (hok hvars.1 hvars.2 hidle)
    · left
      omega

theorem step_readHeld {e : Event} (hs : s.Counted ∧ ReadHeld s) (h : s.step e = some t) :
    ReadHeld t ↔ ReleasesIdle s e := by
  have ht := Reading.step_counted hs.1 h
  rcases Reading.step_cases h with ⟨hrel, _, halloc, hk⟩ | ⟨he, hd⟩ | ⟨rfl, f, hf, hr⟩ | ⟨r, f, rfl, hf, hr⟩
  · have hheld : ReadHeld t := (readHeld_iff ht).mpr fun _ => .inl hk.holders
    refine iff_of_true hheld ?_
    cases e with
    | allocCbEnd r => exact absurd rfl (halloc r)
    | _ => exact fun hr => absurd hr hrel
  · have hheld := releases_readHeld ht hd.holders (by rw [hd.endpoint]; rfl) (by rw [hd.endpoint]; rfl)
    rw [hheld]
    rcases he with rfl | rfl <;> exact true_imp_iff.symm
  · exact returns_readHeld hs ht hf hr
  · exact submits_readHeld ht hf hr

end Steps

/-- In every run of a file the instance stays alive under the reads in flight
exactly when no step gives up the last holder between a stop and a completion, nor
before a read that an allocation callback has stopped. -/
theorem inFlight_held_iff (es : List Event) :
    (∀ s ∈ visited Reading.step (Reading.init .file) es, ReadHeld s) ↔
      ∀ p ∈ taken Reading.step (Reading.init .file) es, ReleasesIdle p.1 p.2 := by
  refine visited_iff_guarded (I := fun s => s.Counted ∧ ReadHeld s) (fun s hs => hs.2) ?_ ?_ es _
    ⟨Reading.init_counted .file, by decide⟩
  · intro s e t hs hok h
    exact ⟨Reading.step_counted hs.1 h, (step_readHeld hs h).mpr hok⟩
  · intro s e t hs hbad h ht
    exact hbad ((step_readHeld hs h).mp ht)

def stoppedInFlight : List Event :=
  [.setCallbacks, .readStart 0 0 ⟨0, 0⟩ ⟨0, 0⟩, .readStop ⟨0, 0⟩, .drop]

theorem inFlight_destroyed : ¬ ∀ es : List Event,
    ∀ s ∈ visited Reading.step (Reading.init .file) es, ReadHeld s := by
  intro h
  have hrun := h stoppedInFlight
  revert hrun
  decide

end Uvcc.File
