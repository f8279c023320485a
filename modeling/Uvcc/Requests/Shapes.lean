import Mathlib.Tactic

/-!
# The reference traffic of `run` and its completion

Every request class has its own copy of `run` and of the completion callback.
The copies differ in what they reference, in the pointer fields they leave for
the completion, in the error path, and in what the completion adopts. A `Shape`
holds these for one overload of `run`, in the order of the code.
-/
namespace Uvcc.Requests

/-- What takes part in a request; `second` is the handle that `write` sends and
the file that `fs::sendfile` reads. -/
inductive Role where
  | handle
  | second
  | buffer
  | request
  deriving DecidableEq, Repr

/-- The pointers a completion reads: the first two are fields of libuv's request,
the others of the request's properties. -/
inductive Field where
  | handle
  | sendHandle
  | uvHandle
  | uvHandleOut
  | uvHandleIn
  | uvBuf
  deriving DecidableEq, Repr

/-- What an adopting `ref_guard` of a completion is for: the request instance, the
instance behind a field, or the same under an `if` that tests the field. -/
inductive Guard where
  | self
  | field (f : Field)
  | ifSet (f : Field)
  deriving DecidableEq, Repr

/-- Assignments to pointer fields, `none` for `nullptr`. -/
abbrev Stores := List (Field × Option Role)

/-- `sync` lists the assignments of the branch for an empty request callback, in
classes that have one; `stores` those of the asynchronous branch, and `keeps` what
libuv notes in its own request once it has accepted it. `unrefs` is `none` where
`run` cannot report an error. -/
structure Shape where
  checksFd : Bool := false
  sync : Option Stores := none
  refs : List Role
  stores : Stores := []
  keeps : Stores := []
  unrefs : Option (List Role)
  guards : List Guard
  passes : Option Field := none

/-- The requests that run on a loop: only the request itself is referenced. -/
def onLoop : Shape where
  refs := [.request]
  unrefs := some [.request]
  guards := [.self]

/-- The requests that run on a stream, which libuv's request points to. -/
def onStream : Shape where
  refs := [.handle, .request]
  keeps := [(.handle, some .handle)]
  unrefs := some [.handle, .request]
  guards := [.field .handle, .self]

/-- The same with a buffer, which goes to the request callback. -/
def sending : Shape where
  refs := [.handle, .buffer, .request]
  stores := [(.uvBuf, some .buffer)]
  keeps := [(.handle, some .handle)]
  unrefs := some [.handle, .buffer, .request]
  guards := [.field .handle, .self]
  passes := some .uvBuf

/-- The filesystem requests that run on a file, kept in the properties. -/
def onFile : Shape where
  sync := some [(.uvHandle, some .handle)]
  refs := [.handle, .request]
  stores := [(.uvHandle, some .handle)]
  unrefs := some [.handle, .request]
  guards := [.field .uvHandle, .self]

/-- The same with a buffer; the synchronous branch does not note it. -/
def transferring : Shape where
  sync := some [(.uvHandle, some .handle)]
  refs := [.handle, .buffer, .request]
  stores := [(.uvHandle, some .handle), (.uvBuf, some .buffer)]
  unrefs := some [.handle, .buffer, .request]
  guards := [.field .uvHandle, .self]
  passes := some .uvBuf

/-- The filesystem requests that run on a path. -/
def onPath : Shape := { onLoop with sync := some [] }

/-- The classes with both overloads share one completion, which takes a null
`uv_handle` for a run on a path. -/
def onPathOrFile (file : Bool) : Shape where
  sync := some [(.uvHandle, if file then some .handle else none)]
  refs := if file then [.handle, .request] else [.request]
  stores := [(.uvHandle, if file then some .handle else none)]
  unrefs := some (if file then [.handle, .request] else [.request])
  guards := [.ifSet .uvHandle, .self]

namespace connect
def runTcp : Shape := onStream
/-- `uv_pipe_connect()` returns nothing; all its errors go to the completion. -/
def runPipe : Shape := { onStream with unrefs := none }
end connect

namespace write
def run : Shape := sending
/-- `write2_cb` guards the sent handle around `write_cb`. -/
def runHandle : Shape where
  refs := [.handle, .buffer, .second, .request]
  stores := [(.uvBuf, some .buffer)]
  keeps := [(.handle, some .handle), (.sendHandle, some .second)]
  unrefs := some [.handle, .buffer, .second, .request]
  guards := [.field .sendHandle, .field .handle, .self]
  passes := some .uvBuf
end write

def shutdown.run : Shape := onStream
def udp_send.run : Shape := sending
def work.run : Shape := onLoop
def getaddrinfo.run : Shape := { onLoop with sync := some [] }
def getnameinfo.run : Shape := { onLoop with sync := some [] }

namespace fs
def close.run : Shape := onFile
def read.run : Shape := transferring
def write.run : Shape := transferring
def sync.run : Shape := onFile
def truncate.run : Shape := onFile
/-- It returns `UV_EBADF` at once if the output has no usable descriptor. -/
def sendfile.run : Shape where
  checksFd := true
  sync := some [(.uvHandleOut, some .handle), (.uvHandleIn, some .second)]
  refs := [.handle, .second, .request]
  stores := [(.uvHandleOut, some .handle), (.uvHandleIn, some .second)]
  unrefs := some [.handle, .second, .request]
  guards := [.field .uvHandleOut, .field .uvHandleIn, .self]
def stat.run (file : Bool) : Shape := onPathOrFile file
def chmod.run (file : Bool) : Shape := onPathOrFile file
def chown.run (file : Bool) : Shape := onPathOrFile file
def utime.run (file : Bool) : Shape := onPathOrFile file
def unlink.run : Shape := onPath
def mkdir.run : Shape := onPath
def mkdtemp.run : Shape := onPath
def rmdir.run : Shape := onPath
def scandir.run : Shape := onPath
def rename.run : Shape := onPath
def access.run : Shape := onPath
def link.run : Shape := onPath
def readlink.run : Shape := onPath
def realpath.run : Shape := onPath
end fs

inductive Class where
  | connect | write | shutdown | udpSend | work | getaddrinfo | getnameinfo
  | fsClose | fsRead | fsWrite | fsSync | fsTruncate | fsSendfile
  | fsStat | fsChmod | fsChown | fsUtime
  | fsUnlink | fsMkdir | fsMkdtemp | fsRmdir | fsScandir | fsRename | fsAccess | fsLink
  | fsReadlink | fsRealpath
  deriving DecidableEq, Repr

inductive Run where
  | connectTcp | connectPipe | write | writeHandle | shutdown | udpSend
  | work | getaddrinfo | getnameinfo
  | fsClose | fsRead | fsWrite | fsSync | fsTruncate | fsSendfile
  | fsStatPath | fsStatFile | fsChmodPath | fsChmodFile
  | fsChownPath | fsChownFile | fsUtimePath | fsUtimeFile
  | fsUnlink | fsMkdir | fsMkdtemp | fsRmdir | fsScandir | fsRename | fsAccess | fsLink
  | fsReadlink | fsRealpath
  deriving DecidableEq, Repr

namespace Run

def cls : Run → Class
  | .connectTcp | .connectPipe => .connect
  | .write | .writeHandle => .write
  | .shutdown => .shutdown
  | .udpSend => .udpSend
  | .work => .work
  | .getaddrinfo => .getaddrinfo
  | .getnameinfo => .getnameinfo
  | .fsClose => .fsClose
  | .fsRead => .fsRead
  | .fsWrite => .fsWrite
  | .fsSync => .fsSync
  | .fsTruncate => .fsTruncate
  | .fsSendfile => .fsSendfile
  | .fsStatPath | .fsStatFile => .fsStat
  | .fsChmodPath | .fsChmodFile => .fsChmod
  | .fsChownPath | .fsChownFile => .fsChown
  | .fsUtimePath | .fsUtimeFile => .fsUtime
  | .fsUnlink => .fsUnlink
  | .fsMkdir => .fsMkdir
  | .fsMkdtemp => .fsMkdtemp
  | .fsRmdir => .fsRmdir
  | .fsScandir => .fsScandir
  | .fsRename => .fsRename
  | .fsAccess => .fsAccess
  | .fsLink => .fsLink
  | .fsReadlink => .fsReadlink
  | .fsRealpath => .fsRealpath

def shape : Run → Shape
  | .connectTcp => connect.runTcp
  | .connectPipe => connect.runPipe
  | .write => write.run
  | .writeHandle => write.runHandle
  | .shutdown => shutdown.run
  | .udpSend => udp_send.run
  | .work => work.run
  | .getaddrinfo => getaddrinfo.run
  | .getnameinfo => getnameinfo.run
  | .fsClose => fs.close.run
  | .fsRead => fs.read.run
  | .fsWrite => fs.write.run
  | .fsSync => fs.sync.run
  | .fsTruncate => fs.truncate.run
  | .fsSendfile => fs.sendfile.run
  | .fsStatPath => fs.stat.run false
  | .fsStatFile => fs.stat.run true
  | .fsChmodPath => fs.chmod.run false
  | .fsChmodFile => fs.chmod.run true
  | .fsChownPath => fs.chown.run false
  | .fsChownFile => fs.chown.run true
  | .fsUtimePath => fs.utime.run false
  | .fsUtimeFile => fs.utime.run true
  | .fsUnlink => fs.unlink.run
  | .fsMkdir => fs.mkdir.run
  | .fsMkdtemp => fs.mkdtemp.run
  | .fsRmdir => fs.rmdir.run
  | .fsScandir => fs.scandir.run
  | .fsRename => fs.rename.run
  | .fsAccess => fs.access.run
  | .fsLink => fs.link.run
  | .fsReadlink => fs.readlink.run
  | .fsRealpath => fs.realpath.run

end Run

/-! ## The three exit paths agree -/

/-- The participant a guard adopts after the given assignments. -/
def Guard.role (st : Stores) : Guard → Option Role
  | .self => some .request
  | .field f => (st.lookup f).join
  | .ifSet f => (st.lookup f).join

/-- The assignments settle what the guard reads, and leave no null to an
unconditional one. -/
def Guard.bound (st : Stores) : Guard → Bool
  | .self => true
  | .field f => (st.lookup f).join.isSome
  | .ifSet f => (st.lookup f).isSome

namespace Shape

/-- What an accepted run has assigned when the completion comes. -/
def stored (s : Shape) : Stores := s.keeps ++ s.stores

/-- All that the completion takes over, the buffer argument last. -/
def takes (s : Shape) : List Guard := s.guards ++ s.passes.toList.map .field

/-- The error path and the completion each undo the references of `run`. -/
structure Conserves (s : Shape) : Prop where
  error : ∀ us ∈ s.unrefs, us.Perm s.refs
  bound : ∀ g ∈ s.takes, g.bound s.stored = true
  completion : (s.takes.filterMap (Guard.role s.stored)).Perm s.refs
  self : .self ∈ s.guards

end Shape

theorem Run.conserves (k : Run) : k.shape.Conserves := by
  cases k <;> exact ⟨by decide, by decide, by decide, by decide⟩

end Uvcc.Requests
