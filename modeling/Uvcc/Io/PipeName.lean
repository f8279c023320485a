import Mathlib.Tactic

/-!
# The names of a pipe

`getsockname` and `getpeername` give libuv a string to write the name to, and try again
with a longer one as long as it does not fit. libuv reports the capacity that it needs and
the length of the name through the same variable, which nobody reads after the last call.
-/
namespace Uvcc.Io

def uvENOBUFS : ℤ := -105

/-- The answer of libuv: the value returned, the bytes written to the buffer, and `*size`. -/
structure NameAnswer where
  ret : ℤ
  written : List UInt8
  size : ℕ
  deriving DecidableEq, Repr

/-- `uv_pipe_getsockname()` and `uv_pipe_getpeername()` for the name they look up. -/
def uvPipeName (name : List UInt8) (size : ℕ) : NameAnswer :=
  if name.length < size then ⟨0, name, name.length⟩ else ⟨uvENOBUFS, [], name.length + 1⟩

/-- The variables `name` and `len`, the status of the handle, and whether libuv has
written within the string only. -/
structure NameQuery where
  name : List UInt8
  len : ℕ
  uvError : ℤ
  inBounds : Bool
  deriving DecidableEq, Repr

namespace NameQuery

def init (unixPathMax : Option ℕ) : NameQuery where
  name := List.replicate (unixPathMax.getD 108) 0
  len := unixPathMax.getD 108
  uvError := 0
  inBounds := true

def call (q : NameQuery) (uvGetName : ℕ → NameAnswer) : NameQuery :=
  let answer := uvGetName q.len
  { name := answer.written ++ q.name.drop answer.written.length
    len := answer.size
    uvError := answer.ret
    inBounds := q.inBounds && decide (answer.written.length ≤ q.name.length) }

def resize (q : NameQuery) : NameQuery := { q with name := (q.name.rightpad q.len 0).take q.len }

/-- The loop, for so many calls of libuv. -/
def getName (uvGetName : ℕ → NameAnswer) : ℕ → NameQuery → Option NameQuery
  | 0, _ => none
  | fuel + 1, q =>
    let answered := q.call uvGetName
    if answered.uvError < 0 ∧ answered.uvError = uvENOBUFS then getName uvGetName fuel answered.resize
    else some answered

end NameQuery

structure Pipe where
  sockname : List UInt8
  peername : List UInt8
  deriving DecidableEq, Repr

namespace Pipe

def getsockname (p : Pipe) (unixPathMax : Option ℕ) (fuel : ℕ) : Option NameQuery :=
  NameQuery.getName (uvPipeName p.sockname) fuel (.init unixPathMax)

def getpeername (p : Pipe) (unixPathMax : Option ℕ) (fuel : ℕ) : Option NameQuery :=
  NameQuery.getName (uvPipeName p.peername) fuel (.init unixPathMax)

end Pipe

/-- The function returns, libuv has stayed within the string, and the string is the name. -/
def ReturnsExactly (run : ℕ → Option NameQuery) (name : List UInt8) : Prop :=
  ∃ q, (∃ fuel, run fuel = some q) ∧ q.inBounds = true ∧ q.name = name

namespace NameQuery
variable (uvGetName : ℕ → NameAnswer) (name : List UInt8) (unixPathMax : Option ℕ)

theorem getName_mono {uvGetName : ℕ → NameAnswer} {r : NameQuery} (k : ℕ) {fuel : ℕ} {q : NameQuery}
    (h : getName uvGetName fuel q = some r) : getName uvGetName (fuel + k) q = some r := by
  induction fuel generalizing q with
  | zero => cases h
  | succ fuel ih =>
    rw [Nat.add_right_comm]
    unfold getName at h ⊢
    dsimp only at h ⊢
    split_ifs at h ⊢ with hretry
    · exact ih h
    · exact h

/-- What is returned: the string is longer than the name, and filled up with zeros. -/
def padded : NameQuery where
  name := name.rightpad (max (unixPathMax.getD 108) (name.length + 1)) 0
  len := name.length
  uvError := 0
  inBounds := true

/-- A string that is long enough is filled from its beginning. -/
theorem call_fits {q : NameQuery} {capacity : ℕ} (hname : q.name = List.replicate capacity 0)
    (hlen : q.len = capacity) (hbounds : q.inBounds = true) (h : name.length < capacity) :
    q.call (uvPipeName name) = ⟨name.rightpad capacity 0, name.length, 0, true⟩ := by
  unfold call uvPipeName
  rw [hlen, if_pos h, hname, hbounds]
  dsimp only
  rw [List.drop_replicate, List.length_replicate, decide_eq_true h.le]
  rfl

theorem getName_eq (fuel : ℕ) : getName (uvPipeName name) (fuel + 2) (init unixPathMax) =
    some (padded name unixPathMax) := by
  set capacity := unixPathMax.getD 108 with hcapacity
  by_cases hfits : name.length < capacity
  · have hcall : (init unixPathMax).call (uvPipeName name) = padded name unixPathMax := by
      rw [padded, ← hcapacity, max_eq_left (Nat.succ_le_of_lt hfits)]
      exact call_fits name rfl rfl rfl hfits
    rw [getName, hcall, if_neg (by simp [padded])]
  · have hcall : (init unixPathMax).call (uvPipeName name) =
        ⟨List.replicate capacity 0, name.length + 1, uvENOBUFS, true⟩ := by
      simp [call, uvPipeName, init, ← hcapacity, hfits]
    have hresize : resize ⟨List.replicate capacity 0, name.length + 1, uvENOBUFS, true⟩ =
        ⟨List.replicate (name.length + 1) 0, name.length + 1, uvENOBUFS, true⟩ := by
      have hle : capacity ≤ name.length := not_lt.mp hfits
      have hsum : capacity + (name.length + 1 - capacity) = name.length + 1 := by omega
      simp [resize, List.rightpad, List.replicate_append_replicate, hsum]
    have hagain : call ⟨List.replicate (name.length + 1) 0, name.length + 1, uvENOBUFS, true⟩
        (uvPipeName name) = padded name unixPathMax := by
      rw [call_fits name rfl rfl rfl (Nat.lt_succ_self _), padded, ← hcapacity, max_eq_right (by omega)]
    rw [getName, hcall, if_pos ⟨(by decide : uvENOBUFS < 0), rfl⟩, hresize, getName, hagain, if_neg (by simp [padded])]

/-- Whatever has been returned is longer than the name. -/
theorem not_returnsExactly :
    ¬ ReturnsExactly (fun fuel => getName (uvPipeName name) fuel (init unixPathMax)) name := by
  rintro ⟨q, ⟨fuel, hq⟩, _, hname⟩
  have hpadded := (getName_mono 2 hq).symm.trans (getName_eq name unixPathMax fuel)
  obtain rfl := Option.some.inj hpadded
  have hlength := congrArg List.length hname
  rw [padded, List.length_rightpad] at hlength
  omega

end NameQuery

/-- Both functions return after two calls of libuv at most, which stays within the string. -/
theorem Pipe.names_padded (p : Pipe) (unixPathMax : Option ℕ) (fuel : ℕ) :
    p.getsockname unixPathMax (fuel + 2) = some (NameQuery.padded p.sockname unixPathMax) ∧
    p.getpeername unixPathMax (fuel + 2) = some (NameQuery.padded p.peername unixPathMax) :=
  ⟨NameQuery.getName_eq p.sockname unixPathMax fuel, NameQuery.getName_eq p.peername unixPathMax fuel⟩

/-- No pipe is told its name exactly: zeros follow it to the end of the string. -/
theorem pipe_names_never_exact (p : Pipe) (unixPathMax : Option ℕ) :
    ¬ ReturnsExactly (p.getsockname unixPathMax) p.sockname ∧
    ¬ ReturnsExactly (p.getpeername unixPathMax) p.peername :=
  ⟨NameQuery.not_returnsExactly p.sockname unixPathMax, NameQuery.not_returnsExactly p.peername unixPathMax⟩

/-- A pipe that is not bound. -/
theorem unbound_name_padded : ¬ ∀ (p : Pipe) (unixPathMax : Option ℕ),
    ReturnsExactly (p.getsockname unixPathMax) p.sockname ∧
    ReturnsExactly (p.getpeername unixPathMax) p.peername :=
  fun h => NameQuery.not_returnsExactly [] none (h ⟨[], []⟩ none).1

end Uvcc.Io
