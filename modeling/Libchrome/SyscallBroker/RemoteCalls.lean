import Libchrome.SyscallBroker.Confinement

/-!
# Remote system calls (`broker_client.cc`)

A client whose requests reach the host gets what its policy and the system say about the call.
-/

namespace Libchrome.SyscallBroker
open Library.Bytes Base

/-- `SendRecvMsgWithFlags` where the host serves the request. It replies on `reply_ipc`, and a descriptor that
comes with the reply is installed in the client. -/
def exchange (policy : BrokerPolicy) (system : System) (reply_ipc : BitVec 32) (install : BitVec 32 → BitVec 32)
    (message : List Byte) : Option (List Byte × BitVec 32) :=
  if fits : message.length ≤ kMaxMessageLength then
    match (BrokerHost.handleRequest policy system (.message message [reply_ipc] fits)).reply with
    | none => none
    | some (data, fds) => if system.sendMsg data fds then some (data, (fds.head?.map install).getD (-1)) else none
  else none

/-- The call without a channel: the policy decides, then the system. -/
def directCall (policy : BrokerPolicy) (system : System) (install : BitVec 32 → BitVec 32) (syscall_type : IPCCommand)
    (pathname : List Byte) (flags : BitVec 32) : BitVec 32 :=
  match syscall_type with
  | .COMMAND_OPEN =>
    match policy.getFileNameIfAllowedToOpen pathname flags with
    | none => -policy.denied_errno_
    | some permission =>
      match system.open_ (permission.fileName pathname) flags (BrokerHost.createMode flags) with
      | .error errno => -errno
      | .ok opened_fd => install opened_fd
  | .COMMAND_ACCESS =>
    match policy.getFileNameIfAllowedToAccess pathname flags with
    | none => -policy.denied_errno_
    | some permission =>
      match system.access (permission.fileName pathname) flags with
      | .error errno => -errno
      | .ok _ => 0
  | .COMMAND_INVALID => -ENOSYS

/-- Numbers of errors are positive, and so is the policy's. -/
structure Errnos (policy : BrokerPolicy) (system : System) : Prop where
  denied : 0 < policy.denied_errno_.toInt
  opening : ∀ path flags mode errno, system.open_ path flags mode = .error errno → 0 < errno.toInt

section Calls
variable {policy : BrokerPolicy} {system : System} {install : BitVec 32 → BitVec 32} {syscall_type : IPCCommand}
  {pathname : List Byte} {flags : BitVec 32}

theorem neg_toInt_neg {errno : BitVec 32} (positive : 0 < errno.toInt) : (-errno).toInt < 0 := by
  have bound := BitVec.toInt_lt (x := errno)
  rw [BitVec.toInt_neg, Int.bmod_eq_of_le (by omega) (by omega)]
  omega

/-- What the client makes of the value and the descriptor that the host's command wrote. -/
theorem directCall_of_runCommand (errnos : Errnos policy system) (known : syscall_type ≠ .COMMAND_INVALID)
    (installs : ∀ fd, (install fd).toInt ≥ 0) (clean : (0 : Byte) ∉ pathname) :
    ∃ value, (BrokerHost.runCommand policy system syscall_type.code pathname flags).written = [value] ∧
      ∀ reply, (PickleIterator.readInt (PickleIterator.new
          (Pickle.ofData reply (BitVec.ofNat 32 reply.length)))).1 = some value →
        BrokerClient.readReply syscall_type reply (((BrokerHost.runCommand policy system syscall_type.code pathname
            flags).opened_files.head?.map install).getD (-1)) =
          some (directCall policy system install syscall_type pathname flags) := by
  cases syscall_type with
  | COMMAND_INVALID => exact absurd rfl known
  | COMMAND_ACCESS =>
    rw [show BrokerHost.runCommand policy system IPCCommand.COMMAND_ACCESS.code pathname flags =
      BrokerHost.accessFileForIPC policy system pathname flags from rfl]
    simp only [directCall, BrokerHost.accessFileForIPC, cString_of_no_nul clean]
    cases policy.getFileNameIfAllowedToAccess pathname flags with
    | none => exact ⟨_, rfl, fun reply read => by simp [BrokerClient.readReply, read]⟩
    | some permission =>
      dsimp only
      cases system.access (permission.fileName pathname) flags
      all_goals exact ⟨_, rfl, fun reply read => by simp [BrokerClient.readReply, read]⟩
  | COMMAND_OPEN =>
    rw [show BrokerHost.runCommand policy system IPCCommand.COMMAND_OPEN.code pathname flags =
      BrokerHost.openFileForIPC policy system pathname flags from rfl]
    simp only [directCall, BrokerHost.openFileForIPC, cString_of_no_nul clean]
    cases policy.getFileNameIfAllowedToOpen pathname flags with
    | none => exact ⟨_, rfl, fun reply read => by simp [BrokerClient.readReply, read, neg_toInt_neg errnos.denied]⟩
    | some permission =>
      dsimp only
      cases opened : system.open_ (permission.fileName pathname) flags (BrokerHost.createMode flags) with
      | error errno =>
        have negative := neg_toInt_neg (errnos.opening _ _ _ _ opened)
        exact ⟨_, rfl, fun reply read => by simp [BrokerClient.readReply, read, negative]⟩
      | ok opened_fd =>
        have usable := installs opened_fd
        exact ⟨_, rfl, fun reply read => by simp [BrokerClient.readReply, read, usable]⟩

end Calls

/-- Over a channel that delivers, `Open` and `Access` of a client come to the direct call under the host's policy,
with and without the fast check. -/
theorem pathAndFlagsSyscall_eq_directCall (client : BrokerClient) (system : System) (garbage : Nat → Nat → Byte)
    {install : BitVec 32 → BitVec 32} {syscall_type : IPCCommand} {pathname : List Byte} {flags reply_ipc : BitVec 32}
    (errnos : Errnos client.broker_policy_ system) (known : syscall_type ≠ .COMMAND_INVALID)
    (installs : ∀ fd, (install fd).toInt ≥ 0) (usable : reply_ipc.toInt ≥ 0)
    (delivers : ∀ data fds, system.sendMsg data fds = true) (clean : (0 : Byte) ∉ pathname)
    (fits : totalSize sizeofHeader [.int syscall_type.code, .string pathname,
      .int (BrokerClient.remoteFlags syscall_type flags)] ≤ kMaxMessageLength) :
    client.pathAndFlagsSyscall garbage (exchange client.broker_policy_ system reply_ipc install) syscall_type
        (some pathname) flags =
      some (directCall client.broker_policy_ system install syscall_type pathname
        (BrokerClient.remoteFlags syscall_type flags)) := by
  obtain ⟨message, bounded, requested, iter, arguments, handled⟩ :=
    handleRequest_of_requestMessage client.broker_policy_ system garbage known usable fits
  obtain ⟨value, written, replied⟩ := @directCall_of_runCommand client.broker_policy_ system install
    syscall_type pathname (BrokerClient.remoteFlags syscall_type flags) errnos known installs clean
  obtain ⟨data, pickled, read⟩ := pickledInts_reads system.garbage value
  rw [← written] at pickled
  have asked : exchange client.broker_policy_ system reply_ipc install message = some (data,
      ((BrokerHost.runCommand client.broker_policy_ system syscall_type.code pathname
        (BrokerClient.remoteFlags syscall_type flags)).opened_files.head?.map install).getD (-1)) := by
    rw [exchange, dif_pos bounded, handled]
    simp only [BrokerHost.handleRemoteCommand, arguments, pickled, delivers, if_true]
  rw [BrokerClient.pathAndFlagsSyscall, if_neg known]
  dsimp only
  split
  next denial denied =>
    split at denied
    next =>
      obtain ⟨rfl, ⟨rfl, refused⟩ | ⟨rfl, refused⟩⟩ := fastCheck_eq denied
      all_goals simp only [directCall, refused]
    next => cases denied
  next =>
    simp only [requested, asked]
    exact replied data read

/-- A file that may be read and is missing. -/
theorem pathAndFlagsSyscall_eq_directCall_missing :
    (BrokerClient.mk readOnlyPolicy true).pathAndFlagsSyscall (fun _ _ => 0)
        (exchange readOnlyPolicy emptySystem 3 fun _ => 5) .COMMAND_OPEN (some [0x2f, 0x70, 0x2f, 0x71]) O_CLOEXEC =
      some (-2) := by
  have errnos : Errnos readOnlyPolicy emptySystem := by
    refine ⟨by decide, fun path flags mode errno failed => ?_⟩
    cases failed
    decide
  rw [pathAndFlagsSyscall_eq_directCall ⟨readOnlyPolicy, true⟩ emptySystem (fun _ _ => 0) errnos (by decide)
    (fun _ => by decide) (by decide) (fun _ _ => rfl) (by decide) (by decide)]
  decide

end Libchrome.SyscallBroker
