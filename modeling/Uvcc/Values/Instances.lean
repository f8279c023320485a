import Uvcc.Memory.Layout
import Uvcc.Requests.Shapes

/-!
# The layout of the instances

A variable points to the libuv structure at the end of an instance, and every class finds
the instance around it with the offset of its own `instance` template. All members before
that structure are to have the same layout in all classes, and the structure is aligned as
the union of all that it can be.
-/
namespace Uvcc.Values
open Memory

/-- The structures of `UV_HANDLE_TYPE_MAP`. -/
inductive UvHandle where
  | async | check | fsEvent | fsPoll | handle | idle | pipe | poll | prepare | process
  | stream | tcp | timer | tty | udp | signal
  deriving DecidableEq, Repr

/-- Those of `UV_REQ_TYPE_MAP` but `uv_fs_t`. -/
inductive UvReq where
  | req | connect | write | shutdown | udpSend | work | getaddrinfo | getnameinfo
  deriving DecidableEq, Repr

def UvHandle.all : List UvHandle :=
  [.async, .check, .fsEvent, .fsPoll, .handle, .idle, .pipe, .poll, .prepare, .process,
    .stream, .tcp, .timer, .tty, .udp, .signal]

def UvReq.all : List UvReq := [.req, .connect, .write, .shutdown, .udpSend, .work, .getaddrinfo, .getnameinfo]

theorem UvHandle.mem_all (u : UvHandle) : u ∈ all := by cases u <;> decide

theorem UvReq.mem_all (u : UvReq) : u ∈ all := by cases u <;> decide

/-- The handle classes, each with an `instance` of the `handle` template. -/
inductive HandleClass where
  | handle | io | stream | tcp | pipe | tty | udp | file | fsEvent | async | timer
  | idle | prepare | check | signal | process | poll
  deriving DecidableEq, Repr

inductive RequestClass where
  | request
  | output
  | fs
  | of (c : Requests.Class)
  deriving DecidableEq, Repr

/-- The sizes and alignments of a platform. The request callbacks of the classes have
different function types, which have the layout of `std::function< void() >`. -/
structure Abi where
  int : CType
  refCount : CType
  onDestroy : CType
  onRequest : RequestClass → CType
  onRequest_eq : ∀ c, onRequest c = onRequest .request
  pointer : CType
  uvBuf : CType
  sockaddrStorage : CType
  fs : CType
  uv : UvHandle → CType
  req : UvReq → CType

namespace Abi

def alignedStorage (abi : Abi) (len alignLog : ℕ) : CType :=
  .record [abi.pointer.toMember, abi.pointer.toMember, (CType.storage len alignLog).toMember]

def typeStorage (t : CType) : CType := .record [t.toMember]

def anyHandle (abi : Abi) : CType := .union (UvHandle.all.map abi.uv)

def anyReq (abi : Abi) : CType := .union (abi.fs :: UvReq.all.map abi.req)

/-- `uv_t` of the classes; that of `io` is void and replaced by the union. -/
def uvHandle (abi : Abi) : HandleClass → CType
  | .handle => abi.uv .handle
  | .io => .union [abi.anyHandle, abi.fs]
  | .stream => abi.uv .stream
  | .tcp => abi.uv .tcp
  | .pipe => abi.uv .pipe
  | .tty => abi.uv .tty
  | .udp => abi.uv .udp
  | .file => abi.fs
  | .fsEvent => abi.uv .fsEvent
  | .async => abi.uv .async
  | .timer => abi.uv .timer
  | .idle => abi.uv .idle
  | .prepare => abi.uv .prepare
  | .check => abi.uv .check
  | .signal => abi.uv .signal
  | .process => abi.uv .process
  | .poll => abi.uv .poll

open Requests in
def uvReq (abi : Abi) : RequestClass → CType
  | .request => abi.req .req
  | .output => .union [abi.fs, abi.req .write, abi.req .udpSend]
  | .fs => abi.fs
  | .of .connect => abi.req .connect
  | .of .write => abi.req .write
  | .of .shutdown => abi.req .shutdown
  | .of .udpSend => abi.req .udpSend
  | .of .work => abi.req .work
  | .of .getaddrinfo => abi.req .getaddrinfo
  | .of .getnameinfo => abi.req .getnameinfo
  | .of _ => abi.fs

variable (abi : Abi)

theorem uv_le (u : UvHandle) : (abi.uv u).alignLog ≤ abi.anyHandle.alignLog :=
  CType.alignLog_le_union (List.mem_map_of_mem u.mem_all)

theorem fs_le_anyReq : abi.fs.alignLog ≤ abi.anyReq.alignLog := CType.alignLog_le_union List.mem_cons_self

theorem req_le (u : UvReq) : (abi.req u).alignLog ≤ abi.anyReq.alignLog :=
  CType.alignLog_le_union (List.mem_cons_of_mem _ (List.mem_map_of_mem u.mem_all))

theorem uvHandle_le (c : HandleClass) : (abi.uvHandle c).alignLog ≤ max abi.anyHandle.alignLog abi.fs.alignLog := by
  have hfs : abi.fs.alignLog ≤ max abi.anyHandle.alignLog abi.fs.alignLog := le_max_right _ _
  have hany : abi.anyHandle.alignLog ≤ max abi.anyHandle.alignLog abi.fs.alignLog := le_max_left _ _
  cases c with
  | io =>
    apply CType.union_alignLog_le
    simp only [List.mem_cons, List.not_mem_nil, or_false]
    rintro t (rfl | rfl)
    · exact hany
    · exact hfs
  | file => exact hfs
  | _ => exact (abi.uv_le _).trans hany

theorem uvReq_le (c : RequestClass) : (abi.uvReq c).alignLog ≤ abi.anyReq.alignLog := by
  cases c with
  | request => exact abi.req_le _
  | output =>
    apply CType.union_alignLog_le
    simp only [List.mem_cons, List.not_mem_nil, or_false]
    rintro t (rfl | rfl | rfl)
    · exact abi.fs_le_anyReq
    · exact abi.req_le _
    · exact abi.req_le _
  | fs => exact abi.fs_le_anyReq
  | of c => cases c <;> first | exact abi.req_le _ | exact abi.fs_le_anyReq

/-- `handle::instance`: `uv_error`, `refs`, `destroy_cb_storage`, `property_storage` with
`MAX_PROPERTY_SIZE` bytes, the interface, the loop instance, and `uv_handle_struct`. -/
def handles : Family HandleClass where
  shared _ := [abi.int.toMember, abi.refCount.toMember, (typeStorage abi.onDestroy).toMember,
    (abi.alignedStorage (136 + abi.uvBuf.size + abi.fs.size) 3).toMember,
    abi.pointer.toMember, abi.pointer.toMember]
  same _ _ := rfl
  alignLog := max abi.anyHandle.alignLog abi.fs.alignLog
  last := abi.uvHandle
  le := abi.uvHandle_le

/-- `request::instance`: the same with `request_cb_storage`, and `uv_req_struct`. -/
def requests : Family RequestClass where
  shared c := [abi.int.toMember, abi.refCount.toMember, (typeStorage abi.onDestroy).toMember,
    (typeStorage (abi.onRequest c)).toMember,
    (abi.alignedStorage (24 + abi.sockaddrStorage.size) 3).toMember]
  same j k := by rw [abi.onRequest_eq j, abi.onRequest_eq k]
  alignLog := abi.anyReq.alignLog
  last := abi.uvReq
  le := abi.uvReq_le

/-- The instance a constructor creates: `tty` says `instance< pipe >`. -/
def instanceOf : HandleClass → HandleClass
  | .tty => .pipe
  | c => c

def Inside (c : HandleClass) : Prop :=
  abi.handles.offsetof (instanceOf c) + (abi.uvHandle c).size ≤ abi.handles.size (instanceOf c)

end Abi

/-- Any class can use an instance of any other through its own template. -/
theorem instances_sound (abi : Abi) :
    (∀ c p, 2 ^ Record.alignLog (abi.handles.members c) ∣ p → abi.handles.Sound c p) ∧
    ∀ c p, 2 ^ Record.alignLog (abi.requests.members c) ∣ p → abi.requests.Sound c p :=
  ⟨fun c _ hp => abi.handles.sound c hp, fun c _ hp => abi.requests.sound c hp⟩

def wordAbi : Abi :=
  let word : CType := ⟨⟨8, 3⟩, by decide⟩
  ⟨word, word, word, fun _ => word, fun _ => rfl, word, word, word, word, fun _ => word, fun _ => word⟩

theorem word_instances_sound : wordAbi.handles.Sound .tcp 64 ∧ wordAbi.requests.Sound .output 64 :=
  ⟨(instances_sound wordAbi).1 .tcp 64 (by decide), (instances_sound wordAbi).2 .output 64 (by decide)⟩

/-- Every instance has room for what libuv is told is there, but for a terminal, which has
the room of a pipe. -/
theorem tty_room (abi : Abi) : (∀ c, c ≠ .tty → abi.Inside c) ∧
    (abi.Inside .tty ↔ abi.handles.size .tty ≤ abi.handles.size .pipe) := by
  refine ⟨fun c hc => ?_, abi.handles.room_iff .pipe .tty⟩
  have hown : Abi.instanceOf c = c := by
    cases c with
    | tty => exact absurd rfl hc
    | _ => rfl
  unfold Abi.Inside
  rw [hown]
  exact (abi.handles.room_iff c c).mpr le_rfl

end Uvcc.Values
