import Libchrome.Base.Pickle

/-! The permissions of the system call broker, with the constants of x86-64 Linux. -/

namespace Libchrome.SyscallBroker
open Library.Bytes

abbrev F_OK : BitVec 32 := 0
abbrev W_OK : BitVec 32 := 2
abbrev R_OK : BitVec 32 := 4
abbrev O_RDONLY : BitVec 32 := 0
abbrev O_WRONLY : BitVec 32 := 1
abbrev O_RDWR : BitVec 32 := 2
abbrev O_ACCMODE : BitVec 32 := 3
abbrev O_CREAT : BitVec 32 := 0x40
abbrev O_EXCL : BitVec 32 := 0x80
abbrev O_NOCTTY : BitVec 32 := 0x100
abbrev O_TRUNC : BitVec 32 := 0x200
abbrev O_APPEND : BitVec 32 := 0x400
abbrev O_NONBLOCK : BitVec 32 := 0x800
abbrev O_NDELAY : BitVec 32 := O_NONBLOCK
abbrev O_ASYNC : BitVec 32 := 0x2000
abbrev O_DIRECT : BitVec 32 := 0x4000
/-- The C library defines it as 0 where `off_t` has 64 bits. -/
abbrev O_LARGEFILE : BitVec 32 := 0
abbrev O_DIRECTORY : BitVec 32 := 0x10000
abbrev O_NOFOLLOW : BitVec 32 := 0x20000
abbrev O_NOATIME : BitVec 32 := 0x40000
abbrev O_CLOEXEC : BitVec 32 := 0x80000
abbrev O_SYNC : BitVec 32 := 0x101000

abbrev kCurrentProcessOpenFlagsMask : BitVec 32 := O_CLOEXEC

abbrev slash : Byte := 0x2f
abbrev dot : Byte := 0x2e

/-- What `c_str()` stands for to a function that takes a `const char*`: the bytes before the first NUL. -/
def cString (bytes : List Byte) : List Byte := bytes.takeWhile (· ≠ 0)

/-- A permission that the CHECKs of its constructor accept. -/
structure BrokerFilePermission where
  path_ : List Byte
  recursive_ : Bool
  unlink_ : Bool
  allow_read_ : Bool
  allow_write_ : Bool
  allow_create_ : Bool
  absolute : path_.head? = some slash
  unlink_creates : unlink_ = true → allow_create_ = true
  trailing : recursive_ = true ↔ path_.getLast? = some slash

namespace BrokerFilePermission

theorem unlink_creates_of_none {allow_create : Bool} : false = true → allow_create = true := nofun

/-- The constructor; `none` is a failed CHECK. -/
def new (path : List Byte) (recursive unlink allow_read allow_write allow_create : Bool) :
    Option BrokerFilePermission :=
  if absolute : path.head? = some slash then
    if unlink_creates : unlink = true → allow_create = true then
      if trailing : recursive = true ↔ path.getLast? = some slash then
        some ⟨path, recursive, unlink, allow_read, allow_write, allow_create, absolute, unlink_creates, trailing⟩
      else none
    else none
  else none

/-- `ValidatePath`, on a path that is not NULL. -/
def validatePath (path : List Byte) : Bool :=
  let len := path.length
  if len = 0 then false
  else if path[0]? ≠ some slash then false
  else if len > 1 ∧ path[len - 1]? = some slash then false
  else if len ≥ 3 ∧ path[len - 3]? = some slash ∧ path[len - 2]? = some dot ∧ path[len - 1]? = some dot then false
  else (List.range len).all fun i =>
    !(path[i]? = some slash && len - i > 3 &&
      path[i + 1]? = some dot && path[i + 2]? = some dot && path[i + 3]? = some slash)

/-- `MatchPath`; `requested_filename` is a C string. -/
def matchPath (permission : BrokerFilePermission) (requested_filename : List Byte) : Bool :=
  let path := cString permission.path_
  if permission.recursive_ && path.isPrefixOf requested_filename then true
  else requested_filename = path

def checkAccess (permission : BrokerFilePermission) (requested_filename : List Byte) (mode : BitVec 32) : Bool :=
  if mode ≠ F_OK ∧ mode &&& ~~~(R_OK ||| W_OK) ≠ 0 then false
  else if !validatePath requested_filename then false
  else if !permission.matchPath requested_filename then false
  else if mode = F_OK then permission.allow_read_ || permission.allow_write_
  else if mode = R_OK then permission.allow_read_
  else if mode = W_OK then permission.allow_write_
  else if mode = R_OK ||| W_OK then permission.allow_read_ && permission.allow_write_
  else false

def knownFlags : BitVec 32 :=
  O_APPEND ||| O_ASYNC ||| O_CLOEXEC ||| O_CREAT ||| O_DIRECT ||| O_DIRECTORY ||| O_EXCL ||| O_LARGEFILE |||
    O_NOATIME ||| O_NOCTTY ||| O_NOFOLLOW ||| O_NONBLOCK ||| O_NDELAY ||| O_SYNC ||| O_TRUNC

def checkOpen (permission : BrokerFilePermission) (requested_filename : List Byte) (flags : BitVec 32) : Bool :=
  let access_mode := flags &&& O_ACCMODE
  if !validatePath requested_filename then false
  else if !permission.matchPath requested_filename then false
  else if access_mode ≠ O_RDONLY ∧ access_mode ≠ O_WRONLY ∧ access_mode ≠ O_RDWR then false
  else if permission.allow_read_ = false ∧ (access_mode = O_RDONLY ∨ access_mode = O_RDWR) then false
  else if permission.allow_write_ = false ∧ (access_mode = O_WRONLY ∨ access_mode = O_RDWR) then false
  else if permission.allow_create_ = false ∧ flags &&& O_CREAT ≠ 0 then false
  else if flags &&& O_CREAT ≠ 0 ∧ flags &&& O_EXCL = 0 then false
  else if permission.unlink_ = true ∧ flags &&& O_CREAT = 0 then false
  else if flags &&& kCurrentProcessOpenFlagsMask ≠ 0 then false
  else if flags &&& ~~~O_ACCMODE &&& ~~~knownFlags ≠ 0 then false
  else true

/-- The file name that a check which says yes stores in its out-parameter. -/
def fileName (permission : BrokerFilePermission) (requested_filename : List Byte) : List Byte :=
  if permission.recursive_ = false then cString permission.path_ else requested_filename

end BrokerFilePermission

structure BrokerPolicy where
  denied_errno_ : BitVec 32
  permissions_ : List BrokerFilePermission

namespace BrokerPolicy

/-- `GetFileNameIfAllowedToAccess` as the permission that says yes first. The out-parameter, unless it
is NULL, is set to that permission's file name. Callers pass pointers to NULL. -/
def getFileNameIfAllowedToAccess (policy : BrokerPolicy) (requested_filename : List Byte)
    (requested_mode : BitVec 32) : Option BrokerFilePermission :=
  policy.permissions_.find? (·.checkAccess requested_filename requested_mode)

/-- `GetFileNameIfAllowedToOpen`, likewise; the second out-parameter is set to `unlink_`. -/
def getFileNameIfAllowedToOpen (policy : BrokerPolicy) (requested_filename : List Byte)
    (requested_flags : BitVec 32) : Option BrokerFilePermission :=
  policy.permissions_.find? (·.checkOpen requested_filename requested_flags)

end BrokerPolicy
/-! The two ends of the broker's channel: the host that serves requests and the client that makes them. -/

open Base

def kMaxMessageLength : Nat := 4096

inductive IPCCommand where
  | COMMAND_INVALID
  | COMMAND_OPEN
  | COMMAND_ACCESS
  deriving DecidableEq, Repr

def IPCCommand.code : IPCCommand → BitVec 32
  | COMMAND_INVALID => 0
  | COMMAND_OPEN => 1
  | COMMAND_ACCESS => 2

/-- A call on the file system. Path names are C strings. -/
inductive FileOperation where
  | open (pathname : List Byte) (flags mode : BitVec 32)
  | access (pathname : List Byte) (mode : BitVec 32)
  | unlink (pathname : List Byte)
  deriving DecidableEq, Repr

/-- How the system answers: a failed call has an errno. -/
structure System where
  open_ : List Byte → BitVec 32 → BitVec 32 → Except (BitVec 32) (BitVec 32)
  access : List Byte → BitVec 32 → Except (BitVec 32) Unit
  /-- Whether a reply with its descriptors is sent. -/
  sendMsg : List Byte → List (BitVec 32) → Bool
  garbage : Nat → Nat → Byte

/-- What `RecvMsg` returns: the bytes in the buffer and the descriptors, or -1 with its errno. -/
inductive Received where
  | message (bytes : List Byte) (fds : List (BitVec 32)) (fits : bytes.length ≤ kMaxMessageLength)
  | failed (connectionReset : Bool)

inductive RequestStatus where
  | LOST_CLIENT
  | SUCCESS
  | FAILURE
  deriving DecidableEq, Repr

/-- What a command did: its calls, the ints it wrote to `write_pickle`, and `opened_files`. -/
structure Response where
  operations : List FileOperation
  written : List (BitVec 32)
  opened_files : List (BitVec 32)

/-- What a request did. The reply is what the host tried to send. -/
structure HostResult where
  operations : List FileOperation
  reply : Option (List Byte × List (BitVec 32))
  status : RequestStatus

/-- The bytes of a pickle with the given ints; `none` when a CHECK on its size fails. -/
def pickledInts (garbage : Nat → Nat → Byte) (ints : List (BitVec 32)) : Option (List Byte) := do
  let (_, pickle) ← PickleValue.writeAll garbage (ints.map .int) (← Pickle.new garbage sizeofHeader)
  if pickle.size ≤ kMaxMessageLength then return pickle.data else none

namespace BrokerHost

/-- The `mode` that `sys_open` passes along with `flags`. -/
def createMode (flags : BitVec 32) : BitVec 32 := if flags &&& O_CREAT ≠ 0 then 0o600 else 0

def openFileForIPC (policy : BrokerPolicy) (system : System) (requested_filename : List Byte)
    (flags : BitVec 32) : Response :=
  match policy.getFileNameIfAllowedToOpen (cString requested_filename) flags with
  | none => ⟨[], [-policy.denied_errno_], []⟩
  | some permission =>
      let file_to_open := permission.fileName (cString requested_filename)
      let opening := FileOperation.open file_to_open flags (createMode flags)
      match system.open_ file_to_open flags (createMode flags) with
      | .error errno => ⟨[opening], [-errno], []⟩
      | .ok opened_fd =>
          ⟨opening :: if permission.unlink_ then [.unlink file_to_open] else [], [0], [opened_fd]⟩

def accessFileForIPC (policy : BrokerPolicy) (system : System) (requested_filename : List Byte)
    (mode : BitVec 32) : Response :=
  match policy.getFileNameIfAllowedToAccess (cString requested_filename) mode with
  | none => ⟨[], [-policy.denied_errno_], []⟩
  | some permission =>
      let file_to_access := permission.fileName (cString requested_filename)
      match system.access file_to_access mode with
      | .error errno => ⟨[.access file_to_access mode], [-errno], []⟩
      | .ok _ => ⟨[.access file_to_access mode], [0], []⟩

/-- The arguments of every command: a file name and flags. -/
def readArguments : PickleIterator.Reader (List Byte × BitVec 32) := do
  let requested_filename ← PickleIterator.readString
  let flags ← PickleIterator.readInt
  return (requested_filename, flags)

def runCommand (policy : BrokerPolicy) (system : System) (command_type : BitVec 32)
    (requested_filename : List Byte) (flags : BitVec 32) : Response :=
  if command_type = IPCCommand.COMMAND_ACCESS.code then accessFileForIPC policy system requested_filename flags
  else if command_type = IPCCommand.COMMAND_OPEN.code then openFileForIPC policy system requested_filename flags
  else ⟨[], [], []⟩

def handleRemoteCommand (policy : BrokerPolicy) (system : System) (command_type : BitVec 32)
    (iter : PickleIterator) : HostResult :=
  match (readArguments iter).1 with
  | none => ⟨[], none, .FAILURE⟩
  | some (requested_filename, flags) =>
      let response := runCommand policy system command_type requested_filename flags
      match pickledInts system.garbage response.written with
      | none => ⟨response.operations, none, .FAILURE⟩
      | some data =>
          ⟨response.operations, some (data, response.opened_files),
            if system.sendMsg data response.opened_files then .SUCCESS else .FAILURE⟩

def handleRequest (policy : BrokerPolicy) (system : System) : Received → HostResult
  | .failed connectionReset => ⟨[], none, if connectionReset then .LOST_CLIENT else .FAILURE⟩
  | .message bytes fds _ =>
      if bytes.length = 0 then ⟨[], none, .LOST_CLIENT⟩
      else if ¬(fds.length = 1 ∧ ∀ fd ∈ fds, fd.toInt ≥ 0) then ⟨[], none, .FAILURE⟩
      else
        let iter := PickleIterator.new (Pickle.ofData bytes (BitVec.ofNat 32 bytes.length))
        match PickleIterator.readInt iter with
        | (none, _) => ⟨[], none, .FAILURE⟩
        | (some command_type, iter) =>
            if command_type = IPCCommand.COMMAND_ACCESS.code ∨ command_type = IPCCommand.COMMAND_OPEN.code then
              handleRemoteCommand policy system command_type iter
            else ⟨[], none, .FAILURE⟩

end BrokerHost

abbrev EFAULT : BitVec 32 := 14
abbrev ENOMEM : BitVec 32 := 12
abbrev ENOSYS : BitVec 32 := 38

structure BrokerClient where
  broker_policy_ : BrokerPolicy
  fast_check_in_client_ : Bool

namespace BrokerClient

/-- The flags that go over the channel: `O_CLOEXEC` stays with the client. -/
def remoteFlags (syscall_type : IPCCommand) (flags : BitVec 32) : BitVec 32 :=
  if syscall_type = .COMMAND_OPEN ∧ flags &&& kCurrentProcessOpenFlagsMask ≠ 0 then flags &&& ~~~O_CLOEXEC
  else flags

/-- The fast check: the result of a request the policy is known to deny. -/
def fastCheck (policy : BrokerPolicy) (syscall_type : IPCCommand) (pathname : List Byte) (flags : BitVec 32) :
    Option (BitVec 32) :=
  if syscall_type = .COMMAND_OPEN ∧ (policy.getFileNameIfAllowedToOpen pathname flags).isNone then
    some (-policy.denied_errno_)
  else if syscall_type = .COMMAND_ACCESS ∧ (policy.getFileNameIfAllowedToAccess pathname flags).isNone then
    some (-policy.denied_errno_)
  else none

/-- The request as it is sent; `none` when it exceeds the limit that a RAW_CHECK sets. -/
def requestMessage (garbage : Nat → Nat → Byte) (syscall_type : IPCCommand) (pathname : List Byte)
    (flags : BitVec 32) : Option (List Byte) := do
  let (_, write_pickle) ← PickleValue.writeAll garbage [.int syscall_type.code, .string pathname, .int flags]
    (← Pickle.new garbage sizeofHeader)
  if write_pickle.size ≤ kMaxMessageLength then return write_pickle.data else none

/-- What the client makes of a reply and the descriptor with it; `none` is a failed RAW_CHECK. -/
def readReply (syscall_type : IPCCommand) (reply : List Byte) (returned_fd : BitVec 32) : Option (BitVec 32) :=
  let iter := PickleIterator.new (Pickle.ofData reply (BitVec.ofNat 32 reply.length))
  match (PickleIterator.readInt iter).1 with
  | none => some (-ENOMEM)
  | some return_value =>
      match syscall_type with
      | .COMMAND_ACCESS => if returned_fd = -1 then some return_value else none
      | .COMMAND_OPEN =>
          if return_value.toInt < 0 then if returned_fd = -1 then some return_value else none
          else if returned_fd.toInt ≥ 0 then some returned_fd else none
      | .COMMAND_INVALID => some (-ENOSYS)

/-- `PathAndFlagsSyscall`. `exchange` sends a message and returns the reply with the descriptor it carried,
-1 for none. -/
def pathAndFlagsSyscall (client : BrokerClient) (garbage : Nat → Nat → Byte)
    (exchange : List Byte → Option (List Byte × BitVec 32)) (syscall_type : IPCCommand)
    (pathname : Option (List Byte)) (flags : BitVec 32) : Option (BitVec 32) :=
  if syscall_type = .COMMAND_INVALID then none
  else
    match pathname with
    | none => some (-EFAULT)
    | some pathname =>
        let flags := remoteFlags syscall_type flags
        match if client.fast_check_in_client_ then fastCheck client.broker_policy_ syscall_type pathname flags
          else none with
        | some denial => some denial
        | none =>
            match requestMessage garbage syscall_type pathname flags with
            | none => none
            | some message =>
                match exchange message with
                | none => some (-ENOMEM)
                | some (reply, returned_fd) => readReply syscall_type reply returned_fd

end BrokerClient
end Libchrome.SyscallBroker
