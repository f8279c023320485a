import Uvcc.File.FsReferences

/-!
# The strings in a `uv_fs_t`

Requests and file handles share what libuv allocates for them only through the path that
`handle()` lends: the invariant has who owns each block, and to whom a path was lent. What
libuv does is known from `FsLib.Lawful` alone.
-/
namespace Uvcc.File
open Machine Memory Requests

variable {H : Type*} {lib : FsLib H}

/-- What the `uv_fs_t` of an instance is: one that libuv has made, or one around a path
that was lent. -/
structure FsInstance.Tidy (lib : FsLib H) (x : FsInstance H) : Prop where
  request : x.cls.isSome = true → x.lender = none
  lent : x.lender ≠ none → x.toUvFs = lib.lent x.path ∧ x.pending = false
  pending : x.pending = true → lib.Pending x.toUvFs
  settled : x.pending = false → x.lender = none → lib.Settled x.toUvFs

namespace FsInstance
variable {x y : FsInstance H}

theorem Tidy.sound (law : lib.Lawful) (h : x.Tidy lib) :
    strays (lib.frees x.toUvFs) = [] ∧ (x.lender = none → ∀ n, .block n ∈ x.texts → n ∈ lib.owns x.toUvFs) := by
  by_cases hl : x.lender = none
  · cases hp : x.pending with
    | true => exact (law.pending_sound (h.pending hp)).imp id fun hown _ => hown
    | false => exact (law.settled_sound (h.settled hp hl)).imp id fun hown _ => hown
  · rw [(h.lent hl).1]
    exact ⟨(law.lent _).2, fun hnone => absurd hnone hl⟩

theorem Tidy.congr (h : x.Tidy lib) (hfs : y.toUvFs = x.toUvFs) (hcls : y.cls = x.cls) (hlender : y.lender = x.lender)
    (hpending : y.pending = x.pending) : y.Tidy lib := by
  refine ⟨?_, ?_, ?_, ?_⟩
  · rw [hcls, hlender]
    exact h.request
  · rw [hfs, hlender, hpending]
    exact h.lent
  · rw [hfs, hpending]
    exact h.pending
  · rw [hfs, hlender, hpending]
    exact h.settled

theorem tidy_settled (hlender : x.lender = none) (hpending : x.pending = false) (h : lib.Settled x.toUvFs) : x.Tidy lib where
  request _ := hlender
  lent hl := absurd hlender hl
  pending hp := absurd (hpending.symm.trans hp) Bool.false_ne_true
  settled _ _ := h

end FsInstance

namespace Paths

def owns (lib : FsLib H) (w : Paths H) (o : ℕ) : List ℕ := (w.insts o).elim [] fun x => lib.owns x.toUvFs

/-- A request or a handle that is still there and has not been run since. -/
def Current (w : Paths H) (o runs : ℕ) : Prop := ∃ x, w.insts o = some x ∧ x.runs = runs

/-- A path that was lent is the lender's as long as that is current, and freed after. -/
structure Lent (w : Paths H) (p : Text) (o runs : ℕ) : Prop where
  made : o < w.next
  past : ∀ q, w.insts o = some q → runs ≤ q.runs
  held : ∀ n, p = .block n →
    (∃ q, w.insts o = some q ∧ q.runs = runs ∧ q.path = .block n ∧ q.lender = none) ∨
      n ∈ w.heap.freed ∧ ¬ w.Current o runs

structure Inv (lib : FsLib H) (w : Paths H) : Prop where
  apportioned : w.heap.Apportioned (w.owns lib)
  strays : w.strays = []
  fresh : ∀ o, w.next ≤ o → w.insts o = none
  tidy : ∀ o x, w.insts o = some x → x.Tidy lib
  lent : ∀ o x, w.insts o = some x → ∀ r k, x.lender = some (r, k) → w.Lent x.path r k

variable {w w' : Paths H} {o : ℕ} {x y z : FsInstance H}

theorem owns_some (hx : w.insts o = some x) : w.owns lib o = lib.owns x.toUvFs := by rw [owns, hx]; rfl

theorem owns_none (hx : w.insts o = none) : w.owns lib o = [] := by rw [owns, hx]; rfl

theorem owns_update {t : Option (FsInstance H)} (h : w'.insts = Function.update w.insts o t) :
    w'.owns lib = Function.update (w.owns lib) o (t.elim [] fun x => lib.owns x.toUvFs) := by
  funext k
  by_cases hk : k = o
  · subst hk
    rw [owns, h, Function.update_self, Function.update_self]
  · rw [Function.update_of_ne hk, owns, owns, h, Function.update_of_ne hk]

theorem Inv.lt_next (hi : w.Inv lib) (hx : w.insts o = some x) : o < w.next := by
  by_contra hge
  rw [hi.fresh o (Nat.not_lt.mp hge)] at hx
  cases hx

theorem init_inv (lib : FsLib H) : (init : Paths H).Inv lib where
  apportioned := Blocks.apportioned_nil
  strays := rfl
  fresh _ _ := rfl
  tidy _ _ hx := by cases hx
  lent _ _ hx := by cases hx

/-! ## One instance at a time -/

/-- An instance is replaced or goes. It has got new blocks and has freed some of its own; its
path stays, or all that it had is freed and there is a further run. -/
structure Moves (lib : FsLib H) (w w' : Paths H) (o : ℕ) (z : FsInstance H) (t : Option (FsInstance H)) : Prop where
  old : w.insts o = some z
  insts : w'.insts = Function.update w.insts o t
  next : w'.next = w.next
  strays : w'.strays = w.strays
  heap : ∃ m ns, w'.heap = (w.heap.alloc m).free ns ∧
    (lib.owns z.toUvFs ++ w.heap.fresh m).Perm (ns ++ t.elim [] fun y => lib.owns y.toUvFs)
  path : (∃ y, t = some y ∧ y.runs = z.runs ∧ y.lender = z.lender ∧ (z.path = .null ∨ y.path = z.path)) ∨
    (∀ n ∈ lib.owns z.toUvFs, n ∈ w'.heap.freed) ∧ ∀ y, t = some y → y.runs = z.runs + 1

variable {t : Option (FsInstance H)}

theorem Moves.insts_self (h : w.Moves lib w' o z t) : w'.insts o = t := by rw [h.insts, Function.update_self]

theorem Moves.insts_ne (h : w.Moves lib w' o z t) {j : ℕ} (hj : j ≠ o) : w'.insts j = w.insts j := by
  rw [h.insts, Function.update_of_ne hj]

theorem Moves.freed (h : w.Moves lib w' o z t) (n : ℕ) (hn : n ∈ w.heap.freed) : n ∈ w'.heap.freed := by
  obtain ⟨m, ns, hheap, -⟩ := h.heap
  rw [hheap]
  exact List.mem_append_right _ hn

/-- What is lent stays lent, or it is freed and the lender is not current any more. -/
theorem Moves.lent (h : w.Moves lib w' o z t) (law : lib.Lawful) (ht : z.Tidy lib) {p : Text} {r k : ℕ}
    (hl : w.Lent p r k) : w'.Lent p r k := by
  have hmade : r < w'.next := h.next ▸ hl.made
  by_cases hr : r = o
  · subst hr
    have hpast := hl.past z h.old
    rcases h.path with ⟨y, rfl, hruns, hlender, hpath⟩ | ⟨hall, hruns⟩
    · have hcurrent : w'.Current r k ↔ w.Current r k := by
        simp only [Current, h.insts_self, h.old, Option.some.injEq, exists_eq_left', hruns]
      refine ⟨hmade, fun q hq => ?_, fun n hn => ?_⟩
      · rw [h.insts_self] at hq
        cases hq
        rw [hruns]
        exact hpast
      · rcases hl.held n hn with ⟨q, hq, hk, hqpath, hnone⟩ | ⟨hfree, hcur⟩
        · rw [h.old] at hq
          cases hq
          have hsame : y.path = z.path := hpath.resolve_left fun hnull => by rw [hnull] at hqpath; cases hqpath
          exact .inl ⟨y, h.insts_self, hruns.trans hk, hsame.trans hqpath, hlender.trans hnone⟩
        · exact .inr ⟨h.freed n hfree, fun hc => hcur (hcurrent.mp hc)⟩
    · have hlater : ∀ q, w'.insts r = some q → k < q.runs := by
        intro q hq
        rw [h.insts_self] at hq
        rw [hruns q hq]
        exact Nat.lt_succ_of_le hpast
      refine ⟨hmade, fun q hq => (hlater q hq).le, fun n hn => .inr ⟨?_, ?_⟩⟩
      · rcases hl.held n hn with ⟨q, hq, -, hqpath, hnone⟩ | ⟨hfree, -⟩
        · rw [h.old] at hq
          cases hq
          apply hall
          apply (ht.sound law).2 hnone
          rw [← hqpath]
          exact List.mem_cons_self
        · exact h.freed n hfree
      · rintro ⟨q, hq, hk⟩
        exact absurd (hk ▸ hlater q hq) (lt_irrefl k)
  · have hsame := h.insts_ne hr
    refine ⟨hmade, fun q hq => hl.past q (hsame ▸ hq), fun n hn => ?_⟩
    rw [Current, hsame]
    exact (hl.held n hn).imp id fun hfree => ⟨h.freed n hfree.1, hfree.2⟩

theorem Inv.moves (hi : w.Inv lib) (law : lib.Lawful) (h : w.Moves lib w' o z t) (ht : ∀ y, t = some y → y.Tidy lib)
    (hlent : ∀ y, t = some y → ∀ r k, y.lender = some (r, k) → w.Lent y.path r k) : w'.Inv lib where
  apportioned := by
    obtain ⟨m, ns, hheap, hperm⟩ := h.heap
    rw [hheap, owns_update h.insts]
    rw [← owns_some h.old] at hperm
    exact hi.apportioned.exchange hperm
  strays := h.strays.trans hi.strays
  fresh j hj := by
    have hlt := hi.lt_next h.old
    rw [h.next] at hj
    rw [h.insts_ne (by omega)]
    exact hi.fresh j hj
  tidy j q hq := by
    by_cases hj : j = o
    · subst hj
      rw [h.insts_self] at hq
      exact ht q hq
    · rw [h.insts_ne hj] at hq
      exact hi.tidy j q hq
  lent j q hq r k hrk := by
    apply h.lent law (hi.tidy o z h.old)
    by_cases hj : j = o
    · subst hj
      rw [h.insts_self] at hq
      exact hlent q hq r k hrk
    · rw [h.insts_ne hj] at hq
      exact hi.lent j q hq r k hrk

/-- The same `uv_fs_t` in an instance that is otherwise used differently. -/
theorem Inv.put (hi : w.Inv lib) (law : lib.Lawful) (hz : w.insts o = some z) (hfs : y.toUvFs = z.toUvFs)
    (hruns : y.runs = z.runs) (hlender : y.lender = z.lender) (hcls : y.cls = z.cls) (hpending : y.pending = z.pending) :
    (w.put o y).Inv lib := by
  have hpath : y.path = z.path := congrArg UvFs.path hfs
  have h : w.Moves lib (w.put o y) o z (some y) := by
    refine ⟨hz, rfl, rfl, rfl, ⟨0, [], rfl, ?_⟩, .inl ⟨y, rfl, hruns, hlender, .inr hpath⟩⟩
    rw [Option.elim_some, hfs]
    exact .of_eq (List.append_nil _)
  refine hi.moves law h ?_ ?_
  · rintro q ⟨⟩
    exact (hi.tidy o z hz).congr hfs hcls hlender hpending
  · rintro q ⟨⟩ r k hrk
    rw [hlender] at hrk
    rw [hpath]
    exact hi.lent o z hz r k hrk

theorem Inv.ref (hi : w.Inv lib) (law : lib.Lawful) (o : ℕ) : (w.ref o).Inv lib := by
  unfold Paths.ref
  split
  · rename_i x hx
    exact hi.put law hx rfl rfl rfl rfl rfl
  · exact hi

theorem Inv.refs (hi : w.Inv lib) (law : lib.Lawful) (os : List ℕ) : (os.foldl Paths.ref w).Inv lib := by
  induction os generalizing w with
  | nil => exact hi
  | cons o os ih => exact ih (hi.ref law o)

theorem Inv.destroy (hi : w.Inv lib) (law : lib.Lawful) (hx : w.insts o = some x) : (w.destroy lib o x).Inv lib := by
  have hstrays := ((hi.tidy o x hx).sound law).1
  have h : w.Moves lib (w.destroy lib o x) o x none := by
    refine ⟨hx, rfl, rfl, ?_, ⟨0, lib.owns x.toUvFs, rfl, .refl _⟩, .inr ⟨?_, ?_⟩⟩
    · exact congrArg (· ++ w.strays) hstrays
    · exact fun n hn => List.mem_append_left _ hn
    · rintro y ⟨⟩
  refine hi.moves law h ?_ ?_
  · rintro y ⟨⟩
  · rintro y ⟨⟩

theorem Inv.unref (hi : w.Inv lib) (law : lib.Lawful) (o : ℕ) : (w.unref lib o).Inv lib := by
  unfold Paths.unref
  split
  · rename_i x hx
    split
    · exact hi.destroy law hx
    · exact hi.put law hx rfl rfl rfl rfl rfl
  · exact hi

theorem Inv.unrefs (hi : w.Inv lib) (law : lib.Lawful) (os : List ℕ) : (os.foldl (Paths.unref lib) w).Inv lib := by
  induction os generalizing w with
  | nil => exact hi
  | cons o os ih => exact ih (hi.unref law o)

/-! ## Calls of libuv -/

/-- A function of libuv on a request that keeps its path, or has none. -/
theorem Inv.apply {e : Effect H} (hi : w.Inv lib) (law : lib.Lawful) (hz : w.insts o = some z) (hlender : y.lender = none)
    (hzlender : z.lender = none) (hruns : y.runs = z.runs)
    (hsound : lib.Sound (lib.owns z.toUvFs) w.heap.allocated e) (hpath : z.path = .null ∨ e.req.path = z.path)
    (ht : FsInstance.Tidy lib { y with toUvFs := e.req }) : (w.apply o y e).Inv lib := by
  set q : FsInstance H := { y with toUvFs := e.req } with hq
  have hqlender : q.lender = none := hlender
  have h : w.Moves lib (w.apply o y e) o z (some q) := by
    refine ⟨hz, rfl, rfl, ?_, ⟨e.made, blocks e.freed, rfl, ?_⟩, .inl ⟨q, rfl, hruns, ?_, hpath⟩⟩
    · exact congrArg (· ++ w.strays) hsound.freed
    · exact hsound.blocks
    · exact hqlender.trans hzlender.symm
  refine hi.moves law h ?_ ?_
  · rintro _ ⟨⟩
    exact ht
  · rintro _ ⟨⟩ r k hrk
    exact nomatch hqlender.symm.trans hrk

theorem Inv.clean (hi : w.Inv lib) (law : lib.Lawful) (hx : w.insts o = some x) (hlender : x.lender = none)
    (hidle : x.pending = false) : (w.clean lib o x).Inv lib := by
  have ht := hi.tidy o x hx
  have hsettled := ht.settled hidle hlender
  have hempty := law.cleanup _ hsettled
  have h : w.Moves lib (w.clean lib o x) o x (some { x with toUvFs := lib.cleanup x.toUvFs, runs := x.runs + 1 }) := by
    refine ⟨hx, rfl, rfl, ?_, ⟨0, lib.owns x.toUvFs, rfl, ?_⟩, .inr ⟨?_, ?_⟩⟩
    · exact congrArg (· ++ w.strays) (ht.sound law).1
    · rw [Option.elim_some, hempty.owns]
      exact .refl _
    · exact fun n hn => List.mem_append_left _ hn
    · rintro y ⟨⟩
      rfl
  refine hi.moves law h ?_ ?_
  · rintro y ⟨⟩
    exact FsInstance.tidy_settled hlender hidle (.cleanup hsettled)
  · rintro y ⟨⟩ r k hrk
    exact nomatch hlender.symm.trans hrk

structure Ready (lib : FsLib H) (w : Paths H) (o : ℕ) (y : FsInstance H) : Prop where
  lender : y.lender = none
  idle : y.pending = false
  old : ∃ z, w.insts o = some z ∧ y.toUvFs = z.toUvFs ∧ lib.Empty z.toUvFs ∧ lib.Settled z.toUvFs ∧
    y.runs = z.runs ∧ y.lender = z.lender ∧ y.cls = z.cls ∧ y.pending = z.pending

theorem Inv.submit (hi : w.Inv lib) (law : lib.Lawful) (h : w.Ready lib o y) (fsType : FsType) (cb : Bool) (ss : List ℕ)
    (answer : Answer) : (w.submit lib o y fsType cb ss answer).Inv lib := by
  obtain ⟨z, hz, hfs, hempty, hsettled, hruns, hlender, hcls, hpending⟩ := h.old
  have hnull : z.path = .null := hempty.texts _ List.mem_cons_self
  have hsound : ∀ cb size, lib.Sound (lib.owns z.toUvFs) w.heap.allocated (lib.call fsType cb ss size w.heap.allocated) := by
    intro cb size
    rw [hempty.owns]
    exact law.call fsType cb ss size _
  cases answer with
  | refused => exact hi.put law hz hfs hruns hlender hcls hpending
  | noMemory =>
    have hm : w.Moves lib (w.put o { y with toUvFs := lib.noMemory fsType cb }) o z (some { y with toUvFs := lib.noMemory fsType cb }) := by
      refine ⟨hz, rfl, rfl, rfl, ⟨0, [], rfl, ?_⟩, .inl ⟨_, rfl, hruns, hlender, .inl hnull⟩⟩
      rw [hempty.owns, Option.elim_some, (law.noMemory fsType cb).owns]
      exact .refl _
    refine hi.moves law hm ?_ ?_
    · rintro q ⟨⟩
      exact FsInstance.tidy_settled h.lender h.idle (.noMemory fsType cb)
    · rintro q ⟨⟩ r k hrk
      exact nomatch h.lender.symm.trans hrk
  | accepted size =>
    have hzlender : z.lender = none := hlender.symm.trans h.lender
    cases cb with
    | true =>
      refine hi.apply (y := { y with pending := true, refs := y.refs + 1 }) law hz h.lender hzlender hruns (hsound true 0) (.inl hnull) ?_
      exact ⟨fun _ => h.lender, fun hl => absurd h.lender hl, fun _ => ⟨fsType, ss, _, rfl⟩, fun hp => nomatch hp⟩
    | false =>
      apply hi.apply law hz h.lender hzlender hruns (hsound false size) (.inl hnull)
      exact FsInstance.tidy_settled h.lender h.idle (.call fsType ss size _)

theorem Inv.add (hi : w.Inv lib) (ht : x.Tidy lib) (hown : lib.owns x.toUvFs = [])
    (hlent : ∀ r k, x.lender = some (r, k) → w.Lent x.path r k) : (w.add x).Inv lib := by
  have hkeep : ∀ {p : Text} {r k : ℕ}, w.Lent p r k → (w.add x).Lent p r k := by
    intro p r k hl
    have hsame := add_insts_ne w (Nat.ne_of_lt hl.made) x
    refine ⟨hl.made.trans (Nat.lt_succ_self _), fun q hq => hl.past q (hsame ▸ hq), fun n hn => ?_⟩
    rw [Current, hsame]
    exact hl.held n hn
  refine ⟨?_, hi.strays, ?_, ?_, ?_⟩
  · have howns : (w.add x).owns lib = Function.update (w.owns lib) w.next (lib.owns x.toUvFs) := owns_update (t := some x) rfl
    have hnone : w.owns lib w.next = [] := owns_none (hi.fresh w.next (le_refl _))
    rw [howns, hown, ← hnone, Function.update_eq_self]
    exact hi.apportioned
  · intro o ho
    have ho' : w.next + 1 ≤ o := ho
    rw [add_insts_ne w (by omega)]
    exact hi.fresh o (by omega)
  · intro o q hq
    by_cases ho : o = w.next
    · rw [ho, add_insts_self] at hq
      cases hq
      exact ht
    · rw [add_insts_ne w ho] at hq
      exact hi.tidy o q hq
  · intro o q hq r k hrk
    apply hkeep
    by_cases ho : o = w.next
    · rw [ho, add_insts_self] at hq
      cases hq
      exact hlent r k hrk
    · rw [add_insts_ne w ho] at hq
      exact hi.lent o q hq r k hrk

theorem Inv.new (hi : w.Inv lib) (law : lib.Lawful) (cls : Option Requests.Class) (fsType : FsType) :
    (w.add (FsInstance.new cls (lib.zeroed fsType))).Inv lib :=
  hi.add (FsInstance.tidy_settled rfl rfl (.zeroed fsType)) (law.zeroed fsType).owns nofun

theorem Inv.openFile (hi : w.Inv lib) (law : lib.Lawful) (s : ℕ) (cb : Bool) (answer : Answer) :
    (w.openFile lib s cb answer).Inv lib := by
  have hready : (w.add (FsInstance.new none (lib.zeroed .custom))).Ready lib w.next (FsInstance.new none (lib.zeroed .custom)) :=
    ⟨rfl, rfl, _, add_insts_self w _, rfl, law.zeroed _, .zeroed _, rfl, rfl, rfl, rfl⟩
  exact (hi.new law none .custom).submit law hready .open cb [s] answer

theorem Inv.run (hi : w.Inv lib) (law : lib.Lawful) (hx : w.insts o = some x) (hcls : x.cls.isSome = true)
    (hidle : x.pending = false) (call : FsCall) (answer : Answer) (hne : o ∉ call.files) :
    (w.run lib o x call answer).Inv lib := by
  have hlender : x.lender = none := (hi.tidy o x hx).request hcls
  have hsettled := (hi.tidy o x hx).settled hidle hlender
  have hclean := hi.clean law hx hlender hidle
  set y : FsInstance H := { x with toUvFs := lib.cleanup x.toUvFs, runs := x.runs + 1, files := call.files } with hy
  have hself : (w.clean lib o x).insts o = some { x with toUvFs := lib.cleanup x.toUvFs, runs := x.runs + 1 } :=
    put_insts_self _ _ _
  have hready : ∀ {v : Paths H}, v.insts o = (w.clean lib o x).insts o → v.Ready lib o y := fun hv =>
    ⟨hlender, hidle, _, hv.trans hself, rfl, law.cleanup _ hsettled, .cleanup hsettled, rfl, rfl, rfl, rfl⟩
  have hrefs := hclean.refs law call.files
  have hsubmit := hrefs.submit law (hready (refs_insts hne)) call.fsType true call.strings answer
  unfold Paths.run
  dsimp only
  split_ifs
  · exact hclean
  · cases answer with
    | refused => exact hsubmit.unrefs law call.files
    | noMemory => exact hsubmit.unrefs law call.files
    | accepted size => exact hsubmit
  · exact hclean.submit law (hready rfl) call.fsType false call.strings answer

theorem Inv.complete (hi : w.Inv lib) (law : lib.Lawful) (hx : w.insts o = some x) (hpending : x.pending = true) (size : ℕ) :
    (w.complete lib o x size).Inv lib := by
  have ht := hi.tidy o x hx
  have hp := ht.pending hpending
  have hlender : x.lender = none := by
    by_contra hl
    exact nomatch hpending.symm.trans (ht.lent hl).2
  refine hi.apply law hx hlender hlender rfl (law.complete _ hp size _) (.inr (law.complete_path _ hp size _)) ?_
  exact FsInstance.tidy_settled hlender rfl (.complete hp size _)

theorem Inv.callbackEnd (hi : w.Inv lib) (law : lib.Lawful) (hx : w.insts o = some x) (files : List ℕ)
    (frames : List (List ℕ)) : (w.callbackEnd lib o x files frames).Inv lib := by
  apply Inv.unrefs _ law
  exact hi.put law hx rfl rfl rfl rfl rfl

theorem Inv.scandirNext (hi : w.Inv lib) (law : lib.Lawful) (hx : w.insts o = some x) (hcls : x.cls.isSome = true)
    (hidle : x.pending = false) : (w.apply o x (lib.scandirNext x.toUvFs w.heap.allocated)).Inv lib := by
  have hlender := (hi.tidy o x hx).request hcls
  have hsettled := (hi.tidy o x hx).settled hidle hlender
  refine hi.apply law hx hlender hlender rfl (law.scandirNext _ hsettled _) (.inr (law.scandirNext_path _ hsettled _)) ?_
  exact FsInstance.tidy_settled hlender hidle (.scandirNext hsettled _)

/-- What a handle gets is the request's as long as the request is not run again. -/
theorem Inv.handle (hi : w.Inv lib) (law : lib.Lawful) (hx : w.insts o = some x) (hcls : x.cls.isSome = true) :
    (w.handle lib o x).Inv lib := by
  have hlender := (hi.tidy o x hx).request hcls
  unfold Paths.handle
  split
  · split
    · rename_i h hh
      exact hi.put law hh rfl rfl rfl rfl rfl
    · exact hi
  · apply hi.add
    · constructor
      · rintro ⟨⟩
      · exact fun _ => ⟨rfl, rfl⟩
      · rintro ⟨⟩
      · rintro - ⟨⟩
    · exact (law.lent x.path).1
    · rintro r k ⟨⟩
      refine ⟨hi.lt_next hx, fun q hq => ?_, fun n hn => .inl ⟨x, hx, rfl, hn, hlender⟩⟩
      rw [hx] at hq
      cases hq
      exact le_refl _

theorem step_inv (law : lib.Lawful) (hi : w.Inv lib) (e : PathEvent) (h : w.step lib e = some w') : w'.Inv lib := by
  cases step_acts h with
  | create cls => exact hi.new law _ _
  | openFile s cb answer => exact hi.openFile law s cb answer
  | wrap => exact hi.new law _ _
  | setCallback set hx => exact hi.put law hx rfl rfl rfl rfl rfl
  | copy hx => exact hi.put law hx rfl rfl rfl rfl rfl
  | @drop o x hx _ =>
    have hput : (w.put o { x with vars := x.vars - 1 }).Inv lib := hi.put law hx rfl rfl rfl rfl rfl
    exact hput.unref law o
  | run call answer hx hcls hidle hadmits =>
    exact hi.run law hx hcls hidle call answer (hadmits.not_mem_files hx hcls)
  | complete size hx hpending => exact hi.complete law hx hpending size
  | callbackEnd hx _ => exact hi.callbackEnd law hx _ _
  | scandirNext hx hcls hidle => exact hi.scandirNext law hx hcls hidle
  | handle hx hcls => exact hi.handle law hx hcls
  | release s =>
    refine ⟨hi.apportioned, hi.strays, hi.fresh, hi.tidy, ?_⟩
    intro o x hx r k hrk
    have hlent := hi.lent o x hx r k hrk
    exact ⟨hlent.made, hlent.past, hlent.held⟩

theorem run_inv (law : lib.Lawful) (es : List PathEvent) : ∀ w ∈ visited (step lib) init es, w.Inv lib :=
  visited_invariant (fun _ e _ hi h => step_inv law hi e h) es init (init_inv lib)

/-! ## Nothing is freed twice, and what dangles -/

/-- Only memory of libuv is freed, and none of it twice; what is not freed is owned by one
instance, so that all is when the instances are gone. -/
structure MemoryExact (lib : FsLib H) (w : Paths H) : Prop where
  once : w.heap.freed.Nodup
  made : ∀ n ∈ w.heap.freed, n < w.heap.allocated
  strays : w.strays = []
  owned : ∀ n < w.heap.allocated, n ∉ w.heap.freed → ∃! o, n ∈ w.owns lib o
  gone : (∀ o, w.insts o = none) → ∀ n < w.heap.allocated, n ∈ w.heap.freed

theorem Inv.memoryExact (hi : w.Inv lib) : w.MemoryExact lib where
  once := hi.apportioned.once
  made := hi.apportioned.freed_made
  strays := hi.strays
  owned n hn hfree := by
    rcases hi.apportioned.all n hn with hfreed | ⟨o, ho⟩
    · exact absurd hfreed hfree
    · exact ⟨o, ho, fun j hj => hi.apportioned.apart j o n hj ho⟩
  gone hnone := hi.apportioned.all_freed fun o => owns_none (hnone o)

theorem fs_memory_exact (law : lib.Lawful) (es : List PathEvent) :
    ∀ w ∈ visited (step lib) init es, w.MemoryExact lib :=
  fun w hw => (run_inv law es w hw).memoryExact

/-- A directory with two entries is scanned, the first one is read, and the request goes. -/
def scanned : List PathEvent :=
  [.create .fsScandir, .setCallback 0 true, .run 0 (.scandir 7) (.accepted 0), .complete 0 2,
    .scandirNext 0, .callbackEnd 0, .drop 0]

theorem scan_frees_all : (final (step UnixFs.lib) init scanned).heap = ⟨4, [1, 2, 3, 0]⟩ ∧
    (final (step UnixFs.lib) init scanned).MemoryExact UnixFs.lib :=
  ⟨by decide, fs_memory_exact UnixFs.lawful scanned _ (final_visited scanned init)⟩

def Dangling (w : Paths H) : Text → Prop
  | .null => False
  | .caller s => s ∈ w.released
  | .block n => n ∈ w.heap.freed

def Lost (w : Paths H) (x : FsInstance H) : Text → Prop
  | .null => False
  | .caller s => s ∈ w.released
  | .block _ => ∃ o runs, x.lender = some (o, runs) ∧ ¬ w.Current o runs

/-- `path()` reads a file that is gone, or a pointer that dangles. -/
def PathDangles (w : Paths H) (x : FsInstance H) : Prop := ∀ p ∈ w.pathOf x, w.Dangling p

/-- The file whose path `path()` reads is gone or has lost it, or the instance has lost its own. -/
def PathLost (w : Paths H) (x : FsInstance H) : Prop :=
  match x.reads with
  | some f => ∀ q, w.insts f = some q → w.Lost q q.path
  | none => w.Lost x x.path

/-- Which pointers dangle: those to strings that the caller has given up, and the path of a
handle whose request was run again or destroyed; nothing of a call under way. -/
structure TextsValid (w : Paths H) (o : ℕ) (x : FsInstance H) : Prop where
  exact : ∀ p ∈ x.texts, w.Dangling p ↔ w.Lost x p
  request : x.cls.isSome = true → ∀ n, .block n ∈ x.texts → n ∉ w.heap.freed
  pending : x.pending = true → ∀ p ∈ x.texts, ¬ w.Dangling p
  engaged : ∀ j ∈ x.engaged o, ∃ q, w.insts j = some q
  path : w.PathDangles x ↔ w.PathLost x

/-- Memory that an instance refers to is its own, or was lent to it. -/
theorem Inv.block_cases (hi : w.Inv lib) (law : lib.Lawful) (hx : w.insts o = some x) {n : ℕ} (hn : .block n ∈ x.texts) :
    x.lender = none ∧ n ∈ lib.owns x.toUvFs ∨ ∃ r k, x.lender = some (r, k) ∧ x.path = .block n := by
  have ht := hi.tidy o x hx
  cases hl : x.lender with
  | none => exact .inl ⟨rfl, (ht.sound law).2 hl n hn⟩
  | some rk =>
    have hlent := (ht.lent (by rw [hl]; nofun)).1
    rw [hlent] at hn
    simp only [UvFs.texts, FsLib.lent, FsLib.zeroed, List.mem_cons, List.not_mem_nil, or_false, reduceCtorEq] at hn
    exact .inr ⟨rk.1, rk.2, rfl, hn.symm⟩

theorem Inv.not_freed (hi : w.Inv lib) (hx : w.insts o = some x) {n : ℕ} (hn : n ∈ lib.owns x.toUvFs) : n ∉ w.heap.freed :=
  hi.apportioned.kept o n (by rwa [owns_some hx])

theorem Inv.dangling_iff (hi : w.Inv lib) (law : lib.Lawful) (hx : w.insts o = some x) {p : Text} (hp : p ∈ x.texts) :
    w.Dangling p ↔ w.Lost x p := by
  cases p with
  | null => exact Iff.rfl
  | caller s => exact Iff.rfl
  | block n =>
    rcases hi.block_cases law hx hp with ⟨hl, hown⟩ | ⟨r, k, hl, hpath⟩
    · refine ⟨fun hd => absurd hd (hi.not_freed hx hown), ?_⟩
      rintro ⟨r, k, hrk, -⟩
      rw [hl] at hrk
      cases hrk
    · rcases (hi.lent o x hx r k hl).held n hpath with ⟨q, hq, hk, hqpath, hnone⟩ | ⟨hfree, hcur⟩
      · have hown : n ∈ lib.owns q.toUvFs := by
          apply ((hi.tidy r q hq).sound law).2 hnone
          rw [← hqpath]
          exact List.mem_cons_self
        refine ⟨fun hd => absurd hd (hi.not_freed hq hown), ?_⟩
        rintro ⟨r', k', hrk, hcur⟩
        rw [hl] at hrk
        cases hrk
        exact absurd ⟨q, hq, hk⟩ hcur
      · exact ⟨fun _ => ⟨r, k, hl, hcur⟩, fun _ => hfree⟩

theorem Inv.textsValid (hi : w.Inv lib) (law : lib.Lawful) (hc : w.Counts 0) (hx : w.insts o = some x) : w.TextsValid o x where
  exact p hp := hi.dangling_iff law hx hp
  request hcls n hn := by
    rcases hi.block_cases law hx hn with ⟨-, hown⟩ | ⟨r, k, hl, -⟩
    · exact hi.not_freed hx hown
    · rw [(hi.tidy o x hx).request hcls] at hl
      cases hl
  pending hp p hmem hd := by
    have ht := hi.tidy o x hx
    cases p with
    | null => exact hd
    | caller s => exact law.copies _ (ht.pending hp) s hmem
    | block n => exact hi.not_freed hx ((law.pending_sound (ht.pending hp)).2 n hmem) hd
  engaged j hj := hc.engaged hx hj
  path := by
    unfold PathDangles PathLost pathOf
    cases x.reads with
    | none =>
      simp only [Option.mem_some_iff, forall_eq']
      exact hi.dangling_iff law hx List.mem_cons_self
    | some f =>
      cases hq : w.insts f with
      | none => simp [hq]
      | some q =>
        simp only [hq, Option.map_some, Option.mem_some_iff, Option.some.injEq, forall_eq']
        exact hi.dangling_iff law hq List.mem_cons_self

theorem fs_texts_valid (law : lib.Lawful) (es : List PathEvent) :
    ∀ w ∈ visited (step lib) init es, ∀ o x, w.insts o = some x → w.TextsValid o x :=
  fun w hw _ _ hx => (run_inv law es w hw).textsValid law (run_counts lib es w hw) hx

def reran : List PathEvent :=
  [.create .fsStat, .setCallback 0 true, .run 0 (.stat 3 true) (.accepted 0), .complete 0 0,
    .handle 0, .run 0 (.stat 4 true) (.accepted 0)]

theorem lent_path_dangles : ∃ x, (final (step UnixFs.lib) init reran).insts 1 = some x ∧ x.path = .block 0 ∧
    0 ∈ (final (step UnixFs.lib) init reran).heap.freed ∧ (final (step UnixFs.lib) init reran).TextsValid 1 x :=
  ⟨_, rfl, rfl, by decide, fs_texts_valid UnixFs.lawful reran _ (final_visited reran init) 1 _ rfl⟩

end Paths
end Uvcc.File
