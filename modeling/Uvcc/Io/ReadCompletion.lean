import Uvcc.Io.ReadCallbacks

/-!
# Accesses after the return of a read callback

`io_read_cb` and `file::read_cb` go on to use the instance after the user
callback has returned, without a guard of their own, and so does `file_read` after
the allocation callback. Whether that is safe depends on what the callback leaves
behind.
-/
namespace Uvcc.Io
open Machine

def NoneDead (s : Reading) : Prop := ∀ x ∈ s.accesses, 1 ≤ x.2

instance (s : Reading) : Decidable (NoneDead s) := List.decidableBAll _ _

/-- When a read callback returns, a variable or a close request still refers to the
instance, the command state is a reading one, or the endpoint is a socket and
nothing was read; after the allocation callback of the next read the last way out is closed. -/
def KeptPast (s : Reading) : Event → Prop
  | .readCbEnd => 1 ≤ s.vars ∨ 1 ≤ s.closes ∨ s.endpoint.rdcmd.reading = true ∨
      (s.kind ≠ .file ∧ ∀ f ∈ s.frame, f.nread ≤ 0)
  | .allocCbEnd _ => 1 ≤ s.vars ∨ 1 ≤ s.closes ∨ s.endpoint.rdcmd.reading = true
  | _ => True

namespace Reading
variable {s t : Reading} {f : Frame}

theorem trailing_eq_nil (s : Reading) (f : Frame) :
    s.trailing f = [] ↔ s.kind ≠ .file ∧ f.nread ≤ 0 := by
  unfold trailing
  by_cases hk : s.kind = .file
  · simp [hk]
  · by_cases hn : 0 < f.nread
    · simp [hk, hn]
    · rw [if_neg hk, if_neg hn]
      exact iff_of_true rfl ⟨hk, by omega⟩

theorem Leaves.noneDead {as : List Access} (hl : Leaves s t f as) (hf : s.frame = some f) (hs : s.Counted)
    (h : NoneDead s) :
    NoneDead t ↔ (1 ≤ s.vars ∨ 1 ≤ s.closes ∨ s.endpoint.rdcmd.reading = true) ∨ as = [] := by
  rw [← dropArg_alive hf hs]
  unfold NoneDead
  rw [hl.accesses]
  constructor
  · intro ht
    cases as with
    | nil => exact .inr rfl
    | cons a as => exact .inl (ht (a, (s.dropArg f).endpoint.refs) (by simp))
  · rintro (hpos | rfl) x hx
    · rcases List.mem_append.mp hx with hx | hx
      · exact h x hx
      · obtain ⟨a, _, rfl⟩ := List.mem_map.mp hx
        exact hpos
    · exact h x (by simpa using hx)

/-- The account and the accesses, over one step. -/
theorem step_noneDead {e : Event} (hs : s.Counted ∧ NoneDead s) (h : s.step e = some t) :
    NoneDead t ↔ KeptPast s e := by
  have hsame (ha : t.accesses = s.accesses) : NoneDead t := by
    unfold NoneDead
    rw [ha]
    exact hs.2
  rcases step_cases h with ⟨_, hread, halloc, hk⟩ | ⟨he, hd⟩ | ⟨rfl, f, hf, hr⟩ | ⟨r, f, rfl, hf, hr⟩
  · have ht := hsame hk.accesses
    cases e with
    | readCbEnd => exact absurd rfl hread
    | allocCbEnd r => exact absurd rfl (halloc r)
    | _ => simp [KeptPast, ht]
  · have ht := hsame hd.accesses
    rcases he with rfl | rfl <;> simp [KeptPast, ht]
  · rw [hr.noneDead hf hs.1 hs.2, trailing_eq_nil]
    simp only [KeptPast, hf, Option.mem_def, Option.some.injEq, forall_eq', or_assoc]
  · rw [hr.noneDead hf hs.1 hs.2]
    simp [KeptPast]

end Reading

/-- In every run of every endpoint the accesses after the returns of the
callbacks find the instance alive exactly when each callback leaves it to somebody. -/
theorem completion_alive_iff (k : Kind) (es : List Event) :
    (∀ s ∈ visited Reading.step (Reading.init k) es, NoneDead s) ↔
      ∀ p ∈ taken Reading.step (Reading.init k) es, KeptPast p.1 p.2 := by
  refine visited_iff_guarded (I := fun s => s.Counted ∧ NoneDead s) (fun s hs => hs.2) ?_ ?_ es _
    ⟨Reading.init_counted k, by simp [NoneDead, Reading.init]⟩
  · intro s e t hs hok h
    exact ⟨Reading.step_counted hs.1 h, (Reading.step_noneDead hs h).mpr hok⟩
  · intro s e t hs hbad h ht
    exact hbad ((Reading.step_noneDead hs h).mp ht)

def stoppedInCallback : List Event :=
  [.setCallbacks, .readStart 0 0 ⟨0, 0⟩ ⟨0, 0⟩, .drop, .readCb 0 10, .readStop ⟨0, 0⟩, .readCbEnd]

theorem completion_touches_dead : ¬ ∀ (k : Kind) (es : List Event),
    ∀ s ∈ visited Reading.step (Reading.init k) es, NoneDead s := by
  intro h
  have hrun := h .file stoppedInCallback
  revert hrun
  decide

end Uvcc.Io
