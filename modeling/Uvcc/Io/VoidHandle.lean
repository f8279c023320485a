import Uvcc.Requests.Status

/-!
# Handles that are returned void

Four functions start from a default-constructed handle variable and fill it on some
branches. The status that they report an error with is kept in the instance, which a
void variable does not have.
-/
namespace Uvcc.Io
open Machine Requests

/-- A handle variable: `uv_handle` is null, or there is an instance with its `uv_error`. -/
inductive HandleVar where
  | void
  | instance (uvError : ℤ)
  deriving DecidableEq, Repr

namespace HandleVar

/-- `uv_status(int)`; an access through a null pointer is `none`. -/
def setStatus (v : HandleVar) (value : ℤ) : Option HandleVar :=
  match v with
  | .void => none
  | .instance _ => some (.instance value)

def uvStatus (v : HandleVar) : Option ℤ :=
  match v with
  | .void => none
  | .instance e => some e

/-- `explicit operator bool()`, which tests the pointer first. -/
def toBool (v : HandleVar) : Bool :=
  match v with
  | .void => false
  | .instance e => decide (0 ≤ e)

def bookLoop (v : HandleVar) : Option Unit :=
  match v with
  | .void => none
  | .instance _ => some ()

end HandleVar

def uvENOTSUP : ℤ := -95

/-! ## The functions -/

def created (init : ℤ) : Option HandleVar := do
  let client ← (HandleVar.instance 0).setStatus init
  if client.toBool then client.bookLoop
  return client

def opened (init ret : ℤ) : Option HandleVar := do
  let v ← created init
  if init < 0 then return v
  v.setStatus ret

/-- `io::guess_handle`, for what `uv_guess_handle()` answers; a `tty` is only initialised,
and a `file` takes the descriptor as it is. -/
def guessHandle (type : IoType) (init ret : ℤ) : Option HandleVar :=
  match type with
  | .other => HandleVar.void.setStatus uvEBADF
  | .namedPipe => opened init ret
  | .tcp => opened init ret
  | .tty => created init
  | .udp => opened init ret
  | .file => some (.instance 0)

/-- The end of `accept` and `accept_pending_handle`; `ret` is what `uv_accept()` answers. -/
def acceptInto (self client : HandleVar) (ret : ℤ) : Option (HandleVar × HandleVar) := do
  if client.toBool then
    let self ← self.setStatus ret
    if ret < 0 then
      let client ← client.setStatus ret
      return (client, self)
    return (client, self)
  else
    let self ← self.setStatus (← client.uvStatus)
    return (client, self)

/-- `stream::accept`, for the type of the listening stream. -/
def accept (self : HandleVar) (type : IoType) (init ret : ℤ) : Option (HandleVar × HandleVar) := do
  let client ← match type with
    | .namedPipe => created init
    | .tcp => created init
    | .tty => HandleVar.void.setStatus uvENOTSUP
    | .udp | .file | .other => HandleVar.void.setStatus uvEBADF
  acceptInto self client ret

/-- `pipe::accept_pending_handle`, for what `uv_pipe_pending_type()` answers. -/
def acceptPendingHandle (self : HandleVar) (type : IoType) (init ret : ℤ) :
    Option (HandleVar × HandleVar) := do
  let fd ← match type with
    | .namedPipe => created init
    | .tcp => created init
    | .tty | .udp | .file | .other => HandleVar.void.setStatus uvEBADF
  acceptInto self fd ret

/-! ## An output request and its endpoint -/

/-- A call on an endpoint whose instance has the status `status`. Where the unions put
something else over a field, the call leaves an arbitrary word there. -/
structure EndpointRun extends OutputRun where
  status : ℤ
  overWrite : HandleVar
  overSend : HandleVar
  overFile : HandleVar
  deriving DecidableEq, Repr

/-- The type of the request, the `handle` fields of `uv_write_t` and `uv_udp_send_t`, and
`uv_handle` of the properties of `fs::write`. -/
structure Endpoints where
  type : ReqType
  write : HandleVar
  udpSend : HandleVar
  file : HandleVar
  deriving DecidableEq, Repr

namespace Endpoints

def create : Endpoints := ⟨.req, .void, .void, .void⟩

def uvWrite (f : Endpoints) (r : EndpointRun) : Endpoints :=
  if r.started then { f with write := .instance r.status, udpSend := r.overSend } else f

def uvUdpSend (f : Endpoints) (r : EndpointRun) : Endpoints :=
  if r.started then { f with udpSend := .instance r.status, write := r.overWrite } else f

def uvFsWrite (f : Endpoints) (r : EndpointRun) : Endpoints :=
  if r.started then { f with write := r.overWrite, udpSend := r.overSend } else f

/-- `udp_send::run`; the peer lies over the field of a file. -/
def udpSendRun (f : Endpoints) (r : EndpointRun) : Endpoints :=
  { f with file := r.overFile }.uvUdpSend r

def fsWriteRun (f : Endpoints) (r : EndpointRun) : Endpoints :=
  { f with file := .instance r.status }.uvFsWrite r

def fsTryWrite (f : Endpoints) (r : EndpointRun) : Endpoints := if r.queueEmpty then f.fsWriteRun r else f

/-- `output::run`; `fs_type` lies over the field of a UDP request. -/
def runOn (f : Endpoints) (r : EndpointRun) : Endpoints :=
  match r.io with
  | .namedPipe | .tcp | .tty => { f with type := .write }.uvWrite r
  | .udp =>
    let f' := { f with type := .udpSend }
    if r.info then f'.udpSendRun r else f'
  | .file => { f with type := .fs, udpSend := r.overSend }.fsWriteRun r
  | .other => f

def tryOutput (f : Endpoints) (r : EndpointRun) : Endpoints :=
  match r.io with
  | .namedPipe | .tcp | .tty => { f with type := .write }
  | .udp => { f with type := .udpSend }
  | .file => { f with type := .fs, udpSend := r.overSend }.fsTryWrite r
  | .other => f

def run (f : Endpoints) (r : EndpointRun) : Endpoints := if r.attempt then f.tryOutput r else f.runOn r

def runs (f : Endpoints) (rs : List EndpointRun) : Endpoints := rs.foldl run f

def field (f : Endpoints) : ReqType → HandleVar
  | .req => .void
  | .write => f.write
  | .udpSend => f.udpSend
  | .fs => f.file

def handle (f : Endpoints) : Option HandleVar :=
  match f.type with
  | .write => some f.write
  | .udpSend => some f.udpSend
  | .fs => some f.file
  | .req => HandleVar.void.setStatus uvEBADF

end Endpoints

/-- What a call stores in the field of each type. -/
def EndpointRun.stores (r : EndpointRun) : ReqType → Option HandleVar
  | .req => none
  | .write => match r.startsAs with
    | some .uvWrite => some (.instance r.status)
    | some .uvUdpSend | some .uvFsWrite => some r.overWrite
    | some .zeroed | none => none
  | .udpSend => match r.startsAs with
    | some .uvUdpSend => some (.instance r.status)
    | some .uvWrite => some r.overSend
    | some .uvFsWrite | some .zeroed | none => if r.io = .file then some r.overSend else none
  | .fs => match r.io with
    | .file => if !r.attempt || r.queueEmpty then some (.instance r.status) else none
    | .udp => if !r.attempt && r.info then some r.overFile else none
    | .namedPipe | .tcp | .tty | .other => none

namespace Endpoints
variable (f : Endpoints) (r : EndpointRun) (rs : List EndpointRun) (t : ReqType)

theorem run_spec : (f.run r).type = r.setsType.getD f.type ∧
    (f.run r).field t = (r.stores t).getD (f.field t) := by
  obtain ⟨⟨io, buf, info, attempt, queueEmpty, started⟩, status, overWrite, overSend, overFile⟩ := r
  constructor
  · cases io <;> cases attempt <;> cases info <;> cases queueEmpty <;> cases started <;> rfl
  · cases io <;> cases attempt <;> cases info <;> cases queueEmpty <;> cases started <;> cases t <;> rfl

theorem runs_concat : f.runs (rs ++ [r]) = (f.runs rs).run r := by simp [runs]

theorem type_runs : (create.runs rs).type = lastWrite (fun r => r.setsType) .req rs := by
  induction rs using List.reverseRecOn with
  | nil => rfl
  | append_singleton rs r ih => rw [runs_concat, (run_spec _ r .req).1, lastWrite_concat, ih]

theorem field_runs : (create.runs rs).field t = lastWrite (fun r => r.stores t) .void rs := by
  induction rs using List.reverseRecOn with
  | nil => cases t <;> rfl
  | append_singleton rs r ih => rw [runs_concat, (run_spec _ r t).2, lastWrite_concat, ih]

end Endpoints

/-! ## What is returned can be asked -/

/-- There is no access through a void variable, and what is returned has a status, which
is the error of the function if it has failed. -/
def Answers (ret : Option HandleVar) (error : Option ℤ) : Prop :=
  ∃ v, ret = some v ∧ ∃ e, v.uvStatus = some e ∧ ∀ x, error = some x → e = x

def firstError (init ret : ℤ) : Option ℤ :=
  if init < 0 then some init else if ret < 0 then some ret else none

def guessError (type : IoType) (init ret : ℤ) : Option ℤ :=
  match type with
  | .other => some uvEBADF
  | .namedPipe | .tcp | .udp => firstError init ret
  | .tty => if init < 0 then some init else none
  | .file => none

def acceptError (type : IoType) (init ret : ℤ) : Option ℤ :=
  match type with
  | .namedPipe | .tcp => firstError init ret
  | .tty => some uvENOTSUP
  | .udp | .file | .other => some uvEBADF

def pendingError (type : IoType) (init ret : ℤ) : Option ℤ :=
  match type with
  | .namedPipe | .tcp => firstError init ret
  | .tty | .udp | .file | .other => some uvEBADF

def Endpoints.handleError (f : Endpoints) : Option ℤ := if f.type = .req then some uvEBADF else none

theorem not_answers_none (error : Option ℤ) : ¬ Answers none error := fun ⟨_, h, _⟩ => nomatch h

theorem not_answers_void (error : Option ℤ) : ¬ Answers (some .void) error := by
  rintro ⟨v, hv, e, he, _⟩
  obtain rfl := Option.some.inj hv
  cases he

theorem answers_instance {e : ℤ} {error : Option ℤ} (h : ∀ x, error = some x → e = x) :
    Answers (some (.instance e)) error := ⟨.instance e, rfl, e, rfl, h⟩

theorem created_eq (init : ℤ) : created init = some (.instance init) := by
  by_cases h : 0 ≤ init <;> simp [created, HandleVar.setStatus, HandleVar.toBool, HandleVar.bookLoop, h]

theorem opened_eq (init ret : ℤ) :
    opened init ret = some (.instance (if init < 0 then init else ret)) := by
  by_cases h : init < 0 <;> simp [opened, created_eq, HandleVar.setStatus, h]

/-- With an instance on both sides the error of either call ends in both. -/
theorem acceptInto_eq (e init ret : ℤ) : acceptInto (.instance e) (.instance init) ret = some
    (.instance ((firstError init ret).getD init), .instance (if init < 0 then init else ret)) := by
  by_cases h : init < 0
  · simp [acceptInto, firstError, HandleVar.toBool, HandleVar.uvStatus, HandleVar.setStatus, h, not_le.mpr h]
  · by_cases hret : ret < 0 <;>
      simp [acceptInto, firstError, HandleVar.toBool, HandleVar.setStatus, h, not_lt.mp h, hret]

theorem opened_answers (init ret : ℤ) : Answers (opened init ret) (firstError init ret) := by
  rw [opened_eq]
  refine answers_instance fun x hx => ?_
  unfold firstError at hx
  split_ifs at hx ⊢ with h1 h2
  · exact Option.some.inj hx
  · exact Option.some.inj hx

theorem created_answers (init : ℤ) : Answers (created init) (if init < 0 then some init else none) := by
  rw [created_eq]
  refine answers_instance fun x hx => ?_
  split_ifs at hx
  exact Option.some.inj hx

theorem acceptInto_answers (e init ret : ℤ) :
    Answers ((acceptInto (.instance e) (.instance init) ret).map Prod.fst) (firstError init ret) := by
  rw [acceptInto_eq]
  refine answers_instance fun x hx => ?_
  rw [hx]
  rfl

/-- A pipe or a TCP stream is created for what is accepted. -/
theorem acceptInto_created_answers (e init ret : ℤ) :
    Answers (((created init).bind fun client => acceptInto (.instance e) client ret).map Prod.fst)
      (firstError init ret) := by
  rw [created_eq, Option.bind_some]
  exact acceptInto_answers e init ret

theorem guessHandle_answers_iff (type : IoType) (init ret : ℤ) :
    Answers (guessHandle type init ret) (guessError type init ret) ↔ type ≠ .other := by
  cases type with
  | other => exact iff_of_false (not_answers_none _) fun h => h rfl
  | tty => exact iff_of_true (created_answers init) (by decide)
  | file => exact iff_of_true (answers_instance nofun) (by decide)
  | _ => exact iff_of_true (opened_answers init ret) (by decide)

theorem accept_answers_iff (e : ℤ) (type : IoType) (init ret : ℤ) :
    Answers ((accept (.instance e) type init ret).map Prod.fst) (acceptError type init ret) ↔
      type = .namedPipe ∨ type = .tcp := by
  have haccepted := acceptInto_created_answers e init ret
  cases type with
  | namedPipe => exact iff_of_true haccepted (.inl rfl)
  | tcp => exact iff_of_true haccepted (.inr rfl)
  | _ => exact iff_of_false (not_answers_none _) (by decide)

theorem acceptPendingHandle_answers_iff (e : ℤ) (type : IoType) (init ret : ℤ) :
    Answers ((acceptPendingHandle (.instance e) type init ret).map Prod.fst) (pendingError type init ret) ↔
      type = .namedPipe ∨ type = .tcp := by
  have haccepted := acceptInto_created_answers e init ret
  cases type with
  | namedPipe => exact iff_of_true haccepted (.inl rfl)
  | tcp => exact iff_of_true haccepted (.inr rfl)
  | _ => exact iff_of_false (not_answers_none _) (by decide)

theorem handle_answers_iff (f : Endpoints) :
    Answers f.handle f.handleError ↔ f.field f.type ≠ .void := by
  obtain ⟨type, write, udpSend, file⟩ := f
  have hfield : ∀ v : HandleVar, Answers (some v) none ↔ v ≠ .void := by
    rintro (_ | e)
    · exact iff_of_false (not_answers_void none) fun h => h rfl
    · exact iff_of_true (answers_instance nofun) nofun
  cases type with
  | req => exact iff_of_false (not_answers_none _) fun h => h rfl
  | write => exact hfield write
  | udpSend => exact hfield udpSend
  | fs => exact hfield file

/-- The four functions answer through an instance exactly where there is one: for a
descriptor of a known kind, a pipe or TCP stream that listens or is pending, and an output
request in which the field of its present type was last given a pointer that is not null. -/
theorem void_handles_iff (type : IoType) (e init ret : ℤ) (rs : List EndpointRun) :
    (Answers (guessHandle type init ret) (guessError type init ret) ↔ type ≠ .other) ∧
    (Answers ((accept (.instance e) type init ret).map Prod.fst) (acceptError type init ret) ↔
      type = .namedPipe ∨ type = .tcp) ∧
    (Answers ((acceptPendingHandle (.instance e) type init ret).map Prod.fst) (pendingError type init ret) ↔
      type = .namedPipe ∨ type = .tcp) ∧
    (Answers (Endpoints.create.runs rs).handle (Endpoints.create.runs rs).handleError ↔
      lastWrite (fun r => r.stores (lastWrite (fun r => r.setsType) .req rs)) .void rs ≠ .void) := by
  refine ⟨guessHandle_answers_iff type init ret, accept_answers_iff e type init ret,
    acceptPendingHandle_answers_iff e type init ret, ?_⟩
  rw [handle_answers_iff, Endpoints.field_runs, Endpoints.type_runs]

/-- A descriptor of which nothing is known. -/
theorem void_handle_written :
    ¬ ∀ (type : IoType) (init ret : ℤ), Answers (guessHandle type init ret) (guessError type init ret) :=
  fun h => not_answers_none _ (h .other 0 0)

end Uvcc.Io
