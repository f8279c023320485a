import Uvcc.Machine.Trace
import Uvcc.Counting.Counter

/-!
# The address lists of a getaddrinfo request

`run_` frees the list of the run before and leaves it to libuv to overwrite the pointer,
which libuv does once it accepts the arguments. The destructor of the properties frees
what the pointer holds at the end.
-/
namespace Uvcc.Requests
open Counting Machine

/-- The pointer of the request, the number of lists that libuv has allocated, which are
numbered from 0, and the lists passed to `uv_freeaddrinfo()`, the last one first. -/
structure AddressLists where
  addrinfo : Option ℕ
  allocated : ℕ
  freed : List ℕ
  deriving DecidableEq, Repr

namespace AddressLists

/-- `uv_freeaddrinfo(uv_req->addrinfo)`, which does nothing for a null pointer. -/
def uvFreeaddrinfo (m : AddressLists) : AddressLists := { m with freed := m.addrinfo.toList ++ m.freed }

def store (m : AddressLists) (list : Bool) : AddressLists :=
  if list then { m with addrinfo := some m.allocated, allocated := m.allocated + 1 }
  else { m with addrinfo := none }

/-- Each list is freed, or is the one that the pointer holds. -/
def Owned (m : AddressLists) : Prop := (m.addrinfo.toList ++ m.freed).Perm (List.range m.allocated)

def Settled (m : AddressLists) : Prop := m.freed.Perm (List.range m.allocated)

variable {m : AddressLists}

theorem Owned.free (h : m.Owned) : m.uvFreeaddrinfo.Settled := h

theorem Settled.store (h : m.Settled) (list : Bool) : (m.store list).Owned := by
  cases list with
  | false => exact h
  | true =>
    have happend : (m.allocated :: m.freed).Perm (List.range m.allocated ++ [m.allocated]) :=
      (h.cons m.allocated).trans (List.perm_append_singleton m.allocated _).symm
    rw [← List.range_succ] at happend
    exact happend

theorem Owned.settled (h : m.Owned) (hn : m.addrinfo = none) : m.Settled := by
  unfold Owned at h
  rw [hn] at h
  exact h

theorem free_none (hn : m.addrinfo = none) : m.uvFreeaddrinfo = m := by
  obtain ⟨addrinfo, allocated, freed⟩ := m
  obtain rfl : addrinfo = none := hn
  rfl

theorem Settled.nodup (h : m.Settled) : m.freed.Nodup := h.nodup_iff.mpr List.nodup_range

theorem Settled.freed (h : m.Settled) : ∀ l < m.allocated, l ∈ m.freed :=
  fun _ hl => h.mem_iff.mpr (List.mem_range.mpr hl)

theorem Owned.nodup (h : m.Owned) : (m.addrinfo.toList ++ m.freed).Nodup :=
  h.nodup_iff.mpr List.nodup_range

theorem Owned.freed_nodup (h : m.Owned) : m.freed.Nodup := (List.nodup_append.mp h.nodup).2.1

theorem Owned.not_freed (h : m.Owned) {l : ℕ} (hl : m.addrinfo = some l) : l ∉ m.freed := by
  have hnodup := h.nodup
  rw [hl, Option.toList_some, List.singleton_append, List.nodup_cons] at hnodup
  exact hnodup.1

end AddressLists

/-- What `uv_getaddrinfo()` does: it refuses before it touches the request, or nulls the
pointer; without a callback it has the result when it returns. -/
inductive Lookup where
  | refused (ret : ℤ)
  | accepted (ret : ℤ) (list : Bool)
  deriving DecidableEq, Repr

/-- The instance with the pointer, its variables, a run that is under way, and the
request callbacks in progress, each with whether its argument still refers to the
instance. -/
structure Getaddrinfo extends Counter where
  lists : AddressLists
  uvError : ℤ
  callback : Bool
  vars : ℕ
  pending : Bool
  frames : List Bool
  deriving DecidableEq, Repr

inductive LookupEvent where
  | copy
  | drop
  | moveArg
  | setCallback (set : Bool)
  | run (answer : Lookup)
  | complete (status : ℤ) (list : Bool)
  | callbackEnd
  deriving DecidableEq, Repr

namespace Getaddrinfo

def init : Getaddrinfo where
  toCounter := .of 1
  lists := ⟨none, 0, []⟩
  uvError := 0
  callback := false
  vars := 1
  pending := false
  frames := []

def ref (s : Getaddrinfo) : Getaddrinfo := { s with toCounter := s.toCounter.inc }

def unref (s : Getaddrinfo) : Getaddrinfo :=
  { s with
    toCounter := s.toCounter.dec
    lists := if s.toCounter.dec.refs = 0 then s.lists.uvFreeaddrinfo else s.lists }

def run (s : Getaddrinfo) (answer : Lookup) : Getaddrinfo :=
  let s1 := { s with lists := s.lists.uvFreeaddrinfo }
  if s.callback then
    let s2 := { s1.ref with uvError := 0 }
    match answer with
    | .refused ret => { s2 with uvError := ret }.unref
    | .accepted ret _ =>
      let s3 := { s2 with lists := s2.lists.store false }
      if ret < 0 then { s3 with uvError := ret }.unref else { s3 with pending := true }
  else
    match answer with
    | .refused ret => { s1 with uvError := ret }
    | .accepted ret list => { s1 with lists := s1.lists.store list, uvError := ret }

def complete (s : Getaddrinfo) (status : ℤ) (list : Bool) : Getaddrinfo :=
  let s1 := { s with
    pending := false
    lists := s.lists.store list
    uvError := status
    frames := s.callback :: s.frames }
  if s.callback then s1.ref else s1

/-- The argument of the request callback goes first, then the guard. -/
def callbackEnd (s : Getaddrinfo) (arg : Bool) (frames : List Bool) : Getaddrinfo :=
  let s1 := { s with frames := frames }
  if arg then s1.unref.unref else s1.unref

def names (s : Getaddrinfo) : ℕ := s.vars + s.frames.count true

/-- A run is issued by a name of the request, and not before the last one has completed. -/
def step (s : Getaddrinfo) : LookupEvent → Option Getaddrinfo
  | .copy => if s.names = 0 then none else some { s.ref with vars := s.vars + 1 }
  | .drop => if s.vars = 0 then none else some { s with vars := s.vars - 1 }.unref
  | .moveArg => match s.frames with
    | true :: frames => some { s with frames := false :: frames, vars := s.vars + 1 }
    | _ => none
  | .setCallback set => if s.names = 0 then none else some { s with callback := set }
  | .run (.refused ret) =>
    if s.names = 0 ∨ s.pending = true ∨ 0 ≤ ret then none else some (s.run (.refused ret))
  | .run (.accepted ret list) =>
    if s.names = 0 ∨ s.pending = true then none else some (s.run (.accepted ret list))
  | .complete status list => if s.pending then some (s.complete status list) else none
  | .callbackEnd => match s.frames with
    | arg :: frames => some (s.callbackEnd arg frames)
    | [] => none

/-! ## Each list is freed once -/

/-- No list is passed to `uv_freeaddrinfo()` twice, `addrinfo()` returns none that was,
and all of them are when the request is gone. -/
structure FreesOnce (s : Getaddrinfo) : Prop where
  once : s.lists.freed.Nodup
  valid : s.destroyed = false → ∀ l, s.lists.addrinfo = some l → l ∉ s.lists.freed
  all : s.destroyed = true → ∀ l < s.lists.allocated, l ∈ s.lists.freed

def total (s : Getaddrinfo) : ℕ := s.names + s.pending.toNat + s.frames.length

structure Inv (s : Getaddrinfo) : Prop where
  counter : s.toCounter.Holds s.total
  owned : s.destroyed = false → s.lists.Owned
  settled : s.destroyed = true → s.lists.Settled
  under_way : s.pending = true → s.lists.addrinfo = none

/-- A run that libuv refuses finds the pointer null. -/
def FindsNull (s : Getaddrinfo) : LookupEvent → Prop
  | .run (.refused _) => s.lists.addrinfo = none
  | _ => True

variable {s t : Getaddrinfo} {e : LookupEvent}

theorem Inv.freesOnce (hs : s.Inv) : s.FreesOnce where
  once := by
    cases hd : s.destroyed with
    | false => exact (hs.owned hd).freed_nodup
    | true => exact (hs.settled hd).nodup
  valid hd _ hl := (hs.owned hd).not_freed hl
  all hd := (hs.settled hd).freed

theorem inv_init : init.Inv where
  counter := Counter.of_holds le_rfl
  owned _ := List.Perm.refl []
  settled := nofun
  under_way := nofun

theorem Inv.alive (hs : s.Inv) (h : 1 ≤ s.total) : s.destroyed = false := hs.counter.alive (by omega)

/-- What has references has them for something. -/
theorem Inv.of_alive (hc : s.toCounter.Holds s.total) (hpos : 1 ≤ s.total) (hown : s.lists.Owned)
    (hp : s.pending = true → s.lists.addrinfo = none) : s.Inv := by
  have ha : s.destroyed = false := hc.alive (by omega)
  refine ⟨hc, fun _ => hown, fun hd => ?_, hp⟩
  rw [ha] at hd
  cases hd

/-- A reference is released: the lists are settled with the last one. -/
theorem unref_inv (hc : s.toCounter.Holds (s.total + 1)) (hown : s.lists.Owned)
    (hp : s.pending = true → s.lists.addrinfo = none) : s.unref.Inv := by
  have hdec : s.unref.toCounter.Holds s.unref.total := hc.dec (Int.natCast_nonneg _)
  have hrefs : s.toCounter.dec.refs = s.total := hdec.refs
  have hlists : s.unref.lists = if s.total = 0 then s.lists.uvFreeaddrinfo else s.lists := by
    simp only [unref, hrefs, Int.natCast_eq_zero]
  have hdestroyed : s.unref.destroyed = decide (s.total = 0) :=
    hdec.destroyed.trans (decide_eq_decide.mpr Int.natCast_eq_zero)
  refine ⟨hdec, fun hd => ?_, fun hd => ?_, fun hpend => ?_⟩
  · rw [hdestroyed, decide_eq_false_iff_not] at hd
    rw [hlists, if_neg hd]
    exact hown
  · rw [hdestroyed, decide_eq_true_iff] at hd
    rw [hlists, if_pos hd]
    exact hown.free
  · have hnull := hp hpend
    rw [hlists]
    split_ifs
    · exact hnull
    · exact hnull

theorem ref_unref {n : ℤ} (hc : s.toCounter.Holds n) (hn : 1 ≤ n) : s.ref.unref = s := by
  have hid : s.toCounter.inc.dec = s.toCounter := hc.inc_dec hn
  have hne : s.toCounter.refs ≠ 0 := by
    rw [hc.refs]
    omega
  simp only [ref, unref, hid, if_neg hne]

theorem total_pos (hn : s.names ≠ 0) : 1 ≤ s.total := by
  unfold total
  omega

/-- A run that libuv refuses has freed the list all the same. -/
theorem run_refused (hs : s.Inv) (hn : s.names ≠ 0) (ret : ℤ) :
    s.run (.refused ret) = { s with lists := s.lists.uvFreeaddrinfo, uvError := ret } := by
  have hpos := total_pos hn
  cases hcb : s.callback with
  | false => simp [run, hcb]
  | true =>
    simp only [run, hcb, if_true]
    exact ref_unref (s := { s with lists := s.lists.uvFreeaddrinfo, uvError := ret, callback := true })
      hs.counter (by omega)

theorem Inv.refused (hs : s.Inv) (hn : s.names ≠ 0)
    (hnull : s.lists.addrinfo = none) (ret : ℤ) : (s.run (.refused ret)).Inv := by
  rw [run_refused hs hn ret, AddressLists.free_none hnull]
  exact Inv.of_alive hs.counter (total_pos hn) (hs.owned (hs.alive (total_pos hn))) fun _ => hnull

theorem Inv.accepted (hs : s.Inv) (hn : s.names ≠ 0) (hp : s.pending = false) (ret : ℤ) (list : Bool) :
    (s.run (.accepted ret list)).Inv := by
  have hpos := total_pos hn
  have hsettled : s.lists.uvFreeaddrinfo.Settled := (hs.owned (hs.alive hpos)).free
  cases hcb : s.callback with
  | false =>
    simp only [run, hcb, Bool.false_eq_true, if_false]
    refine Inv.of_alive hs.counter hpos (hsettled.store list) fun hpend => ?_
    dsimp only at hpend
    rw [hp] at hpend
    cases hpend
  | true =>
    have hown := hsettled.store false
    simp only [run, hcb, if_true]
    split_ifs
    · have hid := ref_unref (s := { s with
        lists := s.lists.uvFreeaddrinfo.store false, uvError := ret, callback := true }) hs.counter (by omega)
      have hinv : Inv { s with lists := s.lists.uvFreeaddrinfo.store false, uvError := ret, callback := true } :=
        Inv.of_alive hs.counter hpos hown fun _ => rfl
      rw [← hid] at hinv
      exact hinv
    · refine Inv.of_alive ?_ ?_ hown fun _ => rfl
      · have hinc := hs.counter.inc (by omega)
        have ht : ((s.total : ℤ) + 1) = (s.names + 1 + s.frames.length : ℕ) := by
          simp only [total, hp, Bool.toNat_false]
          omega
        rw [ht] at hinc
        exact hinc
      · simp only [total, Bool.toNat_true]
        omega

theorem Inv.complete (hs : s.Inv) (hp : s.pending = true) (status : ℤ) (list : Bool) :
    (s.complete status list).Inv := by
  have hpos : 1 ≤ s.total := by
    simp only [total, hp, Bool.toNat_true]
    omega
  have hsettled := (hs.owned (hs.alive hpos)).settled (hs.under_way hp)
  have hown := hsettled.store list
  have hc := hs.counter
  cases hcb : s.callback with
  | false =>
    simp only [Getaddrinfo.complete, hcb, Bool.false_eq_true, if_false]
    have ht : s.total = total { s with
        pending := false, lists := s.lists.store list, uvError := status, frames := false :: s.frames } := by
      simp [total, names, hp]
      omega
    rw [ht] at hc hpos
    exact Inv.of_alive hc hpos hown nofun
  | true =>
    simp only [Getaddrinfo.complete, hcb, if_true]
    have hinc := hc.inc (by omega)
    have ht : (s.total : ℤ) + 1 = (total { s with
        pending := false, lists := s.lists.store list, uvError := status, frames := true :: s.frames } : ℕ) := by
      simp [total, names, hp]
      omega
    rw [ht] at hinc
    refine Inv.of_alive hinc ?_ hown nofun
    simp only [total, ref, List.length_cons]
    omega

theorem Inv.callbackEnd (hs : s.Inv) {arg : Bool} {frames : List Bool} (hf : s.frames = arg :: frames) :
    (s.callbackEnd arg frames).Inv := by
  have hpos : 1 ≤ s.total := by
    simp only [total, hf, List.length_cons]
    omega
  have hown := hs.owned (hs.alive hpos)
  have hc := hs.counter
  have ht : (s.total : ℤ) = total { s with frames := frames } + 1 + arg.toNat := by
    simp only [total, names, hf, List.length_cons, List.count_cons]
    cases arg <;> simp <;> omega
  rw [ht] at hc
  cases arg with
  | false =>
    simp only [Getaddrinfo.callbackEnd, Bool.false_eq_true, if_false]
    exact unref_inv (by simpa using hc) hown hs.under_way
  | true =>
    simp only [Getaddrinfo.callbackEnd, if_true]
    have hdec := hc.dec (by positivity)
    have hkeep : (unref { s with frames := frames }).lists = s.lists := by
      have hne : s.toCounter.dec.refs ≠ 0 := by
        rw [hdec.refs]
        positivity
      simp only [unref, if_neg hne]
    refine unref_inv hdec ?_ ?_
    · rw [hkeep]
      exact hown
    · rw [hkeep]
      exact hs.under_way

theorem Inv.step (hs : s.Inv) (hok : s.FindsNull e) (h : s.step e = some t) : t.Inv := by
  cases e with
  | copy =>
    simp only [Getaddrinfo.step, Option.ite_none_left_eq_some, Option.some.injEq] at h
    obtain ⟨hn, rfl⟩ := h
    have hpos := total_pos hn
    have hinc := hs.counter.inc (by omega)
    have ht : s.total + 1 = total { s.ref with vars := s.vars + 1 } := by
      simp only [total, names, ref]
      ring
    rw [← Nat.cast_add_one, ht] at hinc
    exact Inv.of_alive hinc (ht ▸ Nat.le_add_left 1 _) (hs.owned (hs.alive hpos)) hs.under_way
  | drop =>
    simp only [Getaddrinfo.step, Option.ite_none_left_eq_some, Option.some.injEq] at h
    obtain ⟨hn, rfl⟩ := h
    have hpos : 1 ≤ s.total := total_pos (by unfold names; omega)
    have ht : (s.total : ℤ) = (total { s with vars := s.vars - 1 } : ℕ) + 1 := by
      simp only [total, names]
      omega
    have hc := hs.counter
    rw [ht] at hc
    exact unref_inv hc (hs.owned (hs.alive hpos)) hs.under_way
  | moveArg =>
    simp only [Getaddrinfo.step] at h
    split at h
    · rename_i frames hf
      obtain rfl := Option.some.inj h
      have ht : s.total = total { s with frames := false :: frames, vars := s.vars + 1 } := by
        simp [total, names, hf]
        omega
      have hc := hs.counter
      rw [ht] at hc
      exact ⟨hc, hs.owned, hs.settled, hs.under_way⟩
    · cases h
  | setCallback set =>
    simp only [Getaddrinfo.step, Option.ite_none_left_eq_some, Option.some.injEq] at h
    obtain ⟨_, rfl⟩ := h
    exact ⟨hs.counter, hs.owned, hs.settled, hs.under_way⟩
  | run answer =>
    cases answer with
    | refused ret =>
      simp only [Getaddrinfo.step, Option.ite_none_left_eq_some, Option.some.injEq, not_or,
        Bool.not_eq_true] at h
      obtain ⟨⟨hn, _⟩, rfl⟩ := h
      exact hs.refused hn hok ret
    | accepted ret list =>
      simp only [Getaddrinfo.step, Option.ite_none_left_eq_some, Option.some.injEq, not_or,
        Bool.not_eq_true] at h
      obtain ⟨⟨hn, hp⟩, rfl⟩ := h
      exact hs.accepted hn hp ret list
  | complete status list =>
    simp only [Getaddrinfo.step, Option.ite_none_right_eq_some, Option.some.injEq] at h
    obtain ⟨hp, rfl⟩ := h
    exact hs.complete hp status list
  | callbackEnd =>
    simp only [Getaddrinfo.step] at h
    split at h
    · rename_i arg frames hf
      obtain rfl := Option.some.inj h
      exact hs.callbackEnd hf
    · cases h

/-- The pointer of a refused run still holds the list that was freed. -/
theorem not_freesOnce (hs : s.Inv) (hok : ¬ s.FindsNull e) (h : s.step e = some t) : ¬ t.FreesOnce := by
  intro honce
  cases e with
  | run answer =>
    cases answer with
    | refused ret =>
      simp only [Getaddrinfo.step, Option.ite_none_left_eq_some, Option.some.injEq, not_or] at h
      obtain ⟨⟨hn, _⟩, rfl⟩ := h
      obtain ⟨l, hl⟩ := Option.ne_none_iff_exists'.mp hok
      have hvalid := honce.valid
      rw [run_refused hs hn ret] at hvalid
      refine hvalid (hs.alive (total_pos hn)) l hl ?_
      simp [AddressLists.uvFreeaddrinfo, hl]
    | accepted ret list => exact hok trivial
  | _ => exact hok trivial

end Getaddrinfo

/-- In every run of one request each list is freed exactly once, and none is used after,
exactly when each run that libuv refuses finds the pointer null. -/
theorem lists_freed_once_iff (es : List LookupEvent) :
    (∀ s ∈ visited Getaddrinfo.step Getaddrinfo.init es, s.FreesOnce) ↔
      ∀ p ∈ taken Getaddrinfo.step Getaddrinfo.init es, p.1.FindsNull p.2 :=
  visited_iff_guarded (fun _ hs => hs.freesOnce) (fun _ _ _ hs hok h => hs.step hok h)
    (fun _ _ _ hs hok h => Getaddrinfo.not_freesOnce hs hok h) es _ Getaddrinfo.inv_init

/-- A lookup with a result, one without names, and the request goes. -/
def refusedAfterResult : List LookupEvent := [.run (.accepted 0 true), .run (.refused (-22)), .drop]

theorem list_freed_twice : ¬ ∀ es : List LookupEvent,
    ∀ s ∈ visited Getaddrinfo.step Getaddrinfo.init es, s.FreesOnce := by
  intro h
  have honce := (h refusedAfterResult _ (final_visited _ _)).once
  revert honce
  decide

end Uvcc.Requests
