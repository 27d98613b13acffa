import Libchrome.Base.PickleReading
import Libchrome.SyscallBroker.Broker
import Mathlib.Data.List.TakeWhile
import Libchrome.Library.Components

/-! Whatever bytes arrive, the host only makes calls that its policy allows, and the
client's fast check never denies what the host would do. -/

namespace Libchrome.SyscallBroker
open Library.Bytes Base

theorem cString_of_no_nul {bytes : List Byte} (clean : (0 : Byte) ∉ bytes) : cString bytes = bytes := by
  apply List.takeWhile_eq_self_iff.2
  intro byte member
  exact decide_eq_true fun nul => clean (nul ▸ member)

namespace BrokerFilePermission

variable {permission : BrokerFilePermission} {requested : List Byte}

/-- A match leaves only one name: the one that was asked for. -/
theorem fileName_of_match (matched : permission.matchPath requested = true) :
    permission.fileName requested = requested := by
  unfold fileName
  by_cases plain : permission.recursive_ = false
  · simp only [matchPath, plain, Bool.false_and, Bool.false_eq_true, if_false, decide_eq_true_eq] at matched
    rw [if_pos plain, matched]
  · rw [if_neg plain]

theorem match_of_checkAccess {mode : BitVec 32} (allowed : permission.checkAccess requested mode = true) :
    permission.matchPath requested = true := by
  by_contra unmatched
  have missing : (!permission.matchPath requested) = true := by
    rw [Bool.eq_false_of_not_eq_true unmatched]
    rfl
  unfold checkAccess at allowed
  rw [if_pos missing] at allowed
  split at allowed
  · cases allowed
  · split at allowed <;> cases allowed

theorem match_of_checkOpen {flags : BitVec 32} (allowed : permission.checkOpen requested flags = true) :
    permission.matchPath requested = true := by
  by_contra unmatched
  have missing : (!permission.matchPath requested) = true := by
    rw [Bool.eq_false_of_not_eq_true unmatched]
    rfl
  unfold checkOpen at allowed
  simp only [if_pos missing] at allowed
  split at allowed <;> cases allowed

end BrokerFilePermission

/-- The calls a policy lets one request make. -/
inductive Confined (policy : BrokerPolicy) : List FileOperation → Prop where
  | nothing : Confined policy []
  | access {permission : BrokerFilePermission} {pathname : List Byte} {mode : BitVec 32}
      (listed : permission ∈ policy.permissions_) (allowed : permission.checkAccess pathname mode = true) :
      Confined policy [.access pathname mode]
  | open {permission : BrokerFilePermission} {pathname : List Byte} {flags : BitVec 32}
      (listed : permission ∈ policy.permissions_) (allowed : permission.checkOpen pathname flags = true) :
      Confined policy [.open pathname flags (BrokerHost.createMode flags)]
  | openUnlink {permission : BrokerFilePermission} {pathname : List Byte} {flags : BitVec 32}
      (listed : permission ∈ policy.permissions_) (allowed : permission.checkOpen pathname flags = true)
      (unlinks : permission.unlink_ = true) :
      Confined policy [.open pathname flags (BrokerHost.createMode flags), .unlink pathname]

namespace BrokerHost
variable (policy : BrokerPolicy) (system : System)

theorem confined_accessFileForIPC (requested_filename : List Byte) (mode : BitVec 32) :
    Confined policy (accessFileForIPC policy system requested_filename mode).operations := by
  unfold accessFileForIPC
  cases answered : policy.getFileNameIfAllowedToAccess (cString requested_filename) mode with
  | none => exact .nothing
  | some permission =>
    have allowed := List.find?_some answered
    have listed := List.mem_of_find?_eq_some answered
    simp only [BrokerFilePermission.fileName_of_match (BrokerFilePermission.match_of_checkAccess allowed)]
    cases system.access (cString requested_filename) mode with
    | error errno => exact .access listed allowed
    | ok _ => exact .access listed allowed

theorem confined_openFileForIPC (requested_filename : List Byte) (flags : BitVec 32) :
    Confined policy (openFileForIPC policy system requested_filename flags).operations := by
  unfold openFileForIPC
  cases answered : policy.getFileNameIfAllowedToOpen (cString requested_filename) flags with
  | none => exact .nothing
  | some permission =>
    have allowed := List.find?_some answered
    have listed := List.mem_of_find?_eq_some answered
    simp only [BrokerFilePermission.fileName_of_match (BrokerFilePermission.match_of_checkOpen allowed)]
    cases system.open_ (cString requested_filename) flags (createMode flags) with
    | error errno => exact .open listed allowed
    | ok opened_fd =>
      cases unlinks : permission.unlink_ with
      | false => exact .open listed allowed
      | true => exact .openUnlink listed allowed unlinks

theorem confined_runCommand (command_type : BitVec 32) (requested_filename : List Byte) (flags : BitVec 32) :
    Confined policy (runCommand policy system command_type requested_filename flags).operations := by
  unfold runCommand
  split
  · exact confined_accessFileForIPC policy system requested_filename flags
  · split
    · exact confined_openFileForIPC policy system requested_filename flags
    · exact .nothing

theorem confined_handleRemoteCommand (command_type : BitVec 32) (iter : PickleIterator) :
    Confined policy (handleRemoteCommand policy system command_type iter).operations := by
  unfold handleRemoteCommand
  cases (readArguments iter).1 with
  | none => exact .nothing
  | some arguments =>
    have confined := confined_runCommand policy system command_type arguments.1 arguments.2
    cases replied : pickledInts system.garbage
        (runCommand policy system command_type arguments.1 arguments.2).written with
    | none => simpa only [replied] using confined
    | some data => simpa only [replied] using confined

theorem confined_handleRequest (received : Received) :
    Confined policy (handleRequest policy system received).operations := by
  cases received with
  | failed connectionReset => exact .nothing
  | message bytes fds fits =>
    simp only [handleRequest]
    split
    · exact .nothing
    · split
      · exact .nothing
      · split
        · exact .nothing
        · split
          · exact confined_handleRemoteCommand policy system _ _
          · exact .nothing

end BrokerHost

section Messages
variable (garbage : Nat → Nat → Byte)

theorem pickled_values {values : List PickleValue} (fits : totalSize sizeofHeader values ≤ kMaxMessageLength) :
    ∃ fresh written, Pickle.new garbage sizeofHeader = some fresh ∧
      PickleValue.writeAll garbage values fresh = some (true, written) ∧
      written.size = totalSize sizeofHeader values ∧ written.data.length = written.size ∧
      PickleIterator.Ahead
        (PickleIterator.new (Pickle.ofData written.data (BitVec.ofNat 32 written.data.length)))
        (values.flatMap PickleValue.encoding) := by
  have bound : kMaxMessageLength = 4096 := rfl
  have small : totalSize sizeofHeader values < 2 ^ 31 := by omega
  obtain ⟨fresh, written, made, wrote, holds⟩ := writes garbage (Nat.le_refl _) (short_of_total small)
  have size := holds.size (by unfold totalSize at small; omega)
  have length : written.data.length = written.size := holds.length_data (by unfold totalSize at small; omega)
  refine ⟨fresh, written, made, wrote, size, length, ?_⟩
  rw [length]
  exact holds.ahead small

theorem pickledInts_reads (value : BitVec 32) :
    ∃ data, pickledInts garbage [value] = some data ∧
      (PickleIterator.readInt (PickleIterator.new
        (Pickle.ofData data (BitVec.ofNat 32 data.length)))).1 = some value := by
  have fits : totalSize sizeofHeader [.int value] ≤ kMaxMessageLength := by
    change 4 + (encode 4 value.toNat ++ []).length ≤ 4096
    rw [List.length_append, length_encode]
    decide
  obtain ⟨fresh, written, made, wrote, size, _, ahead⟩ := pickled_values garbage fits
  have sized : written.size ≤ kMaxMessageLength := size ▸ fits
  refine ⟨written.data, ?_, ?_⟩
  · simp only [pickledInts, List.map_cons, List.map_nil, made, Option.bind_eq_bind, Option.bind_some, wrote,
      if_pos sized, Option.pure_def]
  · obtain ⟨later, read, _⟩ := PickleIterator.reads_int value _ [] ahead
    rw [read]

end Messages

section FastCheck
variable {policy : BrokerPolicy} {syscall_type : IPCCommand} {pathname : List Byte} {flags : BitVec 32}

theorem fastCheck_eq {denial : BitVec 32}
    (denied : BrokerClient.fastCheck policy syscall_type pathname flags = some denial) :
    denial = -policy.denied_errno_ ∧
      (syscall_type = .COMMAND_OPEN ∧ policy.getFileNameIfAllowedToOpen pathname flags = none ∨
        syscall_type = .COMMAND_ACCESS ∧ policy.getFileNameIfAllowedToAccess pathname flags = none) := by
  unfold BrokerClient.fastCheck at denied
  split at denied
  next refused =>
    cases denied
    exact ⟨rfl, .inl ⟨refused.1, Option.isNone_iff_eq_none.1 refused.2⟩⟩
  next =>
    split at denied
    next refused =>
      cases denied
      exact ⟨rfl, .inr ⟨refused.1, Option.isNone_iff_eq_none.1 refused.2⟩⟩
    next => cases denied

/-- What the fast check denies, the host denies as well, without a call and with the same errno. -/
theorem runCommand_of_fastCheck {denial : BitVec 32} (system : System) (clean : (0 : Byte) ∉ pathname)
    (denied : BrokerClient.fastCheck policy syscall_type pathname flags = some denial) :
    BrokerHost.runCommand policy system syscall_type.code pathname flags = ⟨[], [denial], []⟩ := by
  obtain ⟨rfl, refused⟩ := fastCheck_eq denied
  rcases refused with ⟨rfl, refused⟩ | ⟨rfl, refused⟩
  · rw [BrokerHost.runCommand, if_neg (by decide), if_pos rfl, BrokerHost.openFileForIPC, cString_of_no_nul clean,
      refused]
  · rw [BrokerHost.runCommand, if_pos rfl, BrokerHost.accessFileForIPC, cString_of_no_nul clean, refused]

end FastCheck

theorem handleRequest_of_requestMessage (policy : BrokerPolicy) (system : System) (garbage : Nat → Nat → Byte)
    {syscall_type : IPCCommand} (known : syscall_type ≠ .COMMAND_INVALID) {pathname : List Byte}
    {flags fd : BitVec 32} (usable : fd.toInt ≥ 0)
    (fits : totalSize sizeofHeader [.int syscall_type.code, .string pathname, .int flags] ≤ kMaxMessageLength) :
    ∃ message, ∃ bounded : message.length ≤ kMaxMessageLength,
      BrokerClient.requestMessage garbage syscall_type pathname flags = some message ∧
      ∃ iter, (BrokerHost.readArguments iter).1 = some (pathname, flags) ∧
        BrokerHost.handleRequest policy system (.message message [fd] bounded) =
          BrokerHost.handleRemoteCommand policy system syscall_type.code iter := by
  obtain ⟨fresh, written, made, wrote, size, length, ahead⟩ := pickled_values garbage fits
  have sized : written.size ≤ kMaxMessageLength := size ▸ fits
  have short := short_of_total (show totalSize sizeofHeader _ < 2 ^ 31 from Nat.lt_of_le_of_lt fits (by decide))
  have named : pathname.length < 2 ^ 31 := short (.string pathname) (by simp)
  have arguments : PickleIterator.Reads BrokerHost.readArguments
      ((encode 4 pathname.length ++ padded pathname) ++ encode 4 flags.toNat) (pathname, flags) :=
    (PickleIterator.reads_string named).bind ((PickleIterator.reads_int flags).map (pathname, ·))
  obtain ⟨iter, command, left⟩ := PickleIterator.reads_int syscall_type.code _ _ ahead
  have body : [PickleValue.string pathname, .int flags].flatMap PickleValue.encoding =
      ((encode 4 pathname.length ++ padded pathname) ++ encode 4 flags.toNat) ++ [] := by
    simp only [List.flatMap_cons, List.flatMap_nil, PickleValue.encoding, List.append_assoc]
  obtain ⟨later, read, _⟩ := arguments iter [] (body ▸ left)
  refine ⟨written.data, length.symm ▸ sized, ?_, iter, by rw [read], ?_⟩
  · simp only [BrokerClient.requestMessage, made, Option.bind_eq_bind, Option.bind_some, wrote, if_pos sized,
      Option.pure_def]
  · have nonempty : written.data.length ≠ 0 := by
      have header : align sizeofHeader 4 = 4 := rfl
      rw [length, size, totalSize, header]
      omega
    have single : ¬¬([fd].length = 1 ∧ ∀ other ∈ [fd], other.toInt ≥ 0) := by
      refine not_not.2 ⟨rfl, fun other member => ?_⟩
      rw [List.mem_singleton.1 member]
      exact usable
    have served : syscall_type.code = IPCCommand.COMMAND_ACCESS.code ∨
        syscall_type.code = IPCCommand.COMMAND_OPEN.code := by
      cases syscall_type with
      | COMMAND_INVALID => exact absurd rfl known
      | COMMAND_OPEN => exact .inr rfl
      | COMMAND_ACCESS => exact .inl rfl
    rw [BrokerHost.handleRequest, if_neg nonempty, if_neg single]
    simp only [command, if_pos served]

/-- Everything under one directory may be read. -/
def readOnlyPolicy : BrokerPolicy where
  denied_errno_ := 13
  permissions_ := (BrokerFilePermission.new [0x2f, 0x70, 0x2f] true false true false false).toList

/-- A system without files. -/
def emptySystem : System where
  open_ := fun _ _ _ => .error 2
  access := fun _ _ => .error 2
  sendMsg := fun _ _ => true
  garbage := fun _ _ => 0

open Library

/-- The components of a path, as a lookup without symbolic links walks them. -/
def resolve (path : List Byte) : List (List Byte) :=
  (path.splitOn slash).filter fun component => component ≠ [] ∧ component ≠ [dot]

namespace BrokerFilePermission

variable {path : List Byte}

theorem validatePath_spec (valid : validatePath path = true) :
    path.head? = some slash ∧ (∀ front, path ≠ front ++ [slash, dot, dot]) ∧
      ∀ front back, path ≠ front ++ slash :: dot :: dot :: slash :: back := by
  unfold validatePath at valid
  simp only [Bool.if_false_left, Bool.and_eq_true, Bool.not_eq_true', decide_eq_false_iff_not] at valid
  obtain ⟨-, absolute, -, noTrailing, noInner⟩ := valid
  refine ⟨List.head?_eq_getElem?.trans (not_not.mp absolute), fun front same => noTrailing ?_, fun front back same => ?_⟩
  · subst same
    simp
  · have here := List.all_eq_true.mp noInner front.length (by simp [same])
    subst same
    simp at here

theorem not_mem_of_validatePath (valid : validatePath path = true) : [dot, dot] ∉ path.splitOn slash := by
  intro member
  obtain ⟨absolute, noTrailing, noInner⟩ := validatePath_spec valid
  obtain ⟨front, back, split, boundary⟩ := exists_of_mem_splitOn member
  cases front with
  | nil =>
    cases split
    cases absolute
  | cons first front =>
    cases split
    rcases boundary with rfl | leading
    · exact noTrailing front rfl
    · obtain ⟨back, rfl⟩ := List.head?_eq_some_iff.mp leading
      exact noInner front back rfl

theorem resolve_prefix {rest : List Byte} (trailing : path.getLast? = some slash) :
    resolve path <+: resolve (path ++ rest) := by
  obtain ⟨front, rfl⟩ := List.getLast?_eq_some_iff.mp trailing
  refine ⟨resolve rest, ?_⟩
  simp only [resolve, List.append_assoc, List.singleton_append, List.splitOn_append_cons_self, List.filter_append]
  simp

theorem exists_mem_resolve (nul : (0 : Byte) ∈ path) : ∃ component ∈ resolve path, (0 : Byte) ∈ component := by
  obtain ⟨component, member, inside⟩ := exists_mem_splitOn nul (by decide : (0 : Byte) ≠ slash)
  refine ⟨component, List.mem_filter.mpr ⟨member, decide_eq_true ⟨List.ne_nil_of_mem inside, ?_⟩⟩, inside⟩
  rintro rfl
  exact absurd inside (by decide)

variable {permission : BrokerFilePermission} {requested : List Byte}

theorem valid_of_checkOpen {flags : BitVec 32} (allowed : permission.checkOpen requested flags = true) :
    validatePath requested = true := by
  by_contra invalid
  simp [checkOpen, invalid] at allowed

theorem valid_of_checkAccess {mode : BitVec 32} (allowed : permission.checkAccess requested mode = true) :
    validatePath requested = true := by
  by_contra invalid
  simp [checkAccess, invalid] at allowed

/-- `CheckOpen` or `CheckAccess` says yes to the request. -/
def Approves (permission : BrokerFilePermission) (requested : List Byte) : Prop :=
  (∃ flags, permission.checkOpen requested flags = true) ∨ ∃ mode, permission.checkAccess requested mode = true

theorem valid_of_approves (approved : permission.Approves requested) :
    validatePath requested = true ∧ permission.matchPath requested = true := by
  rcases approved with ⟨_, allowed⟩ | ⟨_, allowed⟩
  · exact ⟨valid_of_checkOpen allowed, match_of_checkOpen allowed⟩
  · exact ⟨valid_of_checkAccess allowed, match_of_checkAccess allowed⟩

/-- The request is absolute and has no `..`; the file name handed out is the path, or resolves to it or beneath. -/
structure Within (permission : BrokerFilePermission) (requested : List Byte) : Prop where
  absolute : requested.head? = some slash
  noParent : [dot, dot] ∉ requested.splitOn slash
  exact_ : permission.recursive_ = false → permission.fileName requested = permission.path_
  beneath : permission.recursive_ = true → resolve permission.path_ <+: resolve (permission.fileName requested)

/-- An approved request stays within the permission exactly when the permission's path has no NUL. -/
theorem within_iff {permission : BrokerFilePermission} {requested : List Byte} (cString_ : (0 : Byte) ∉ requested)
    (approved : permission.Approves requested) : permission.Within requested ↔ (0 : Byte) ∉ permission.path_ := by
  obtain ⟨valid, matched⟩ := valid_of_approves approved
  have named := fileName_of_match matched
  constructor
  · intro within nul
    cases kind : permission.recursive_ with
    | false =>
      have same := named.symm.trans (within.exact_ kind)
      exact cString_ (same ▸ nul)
    | true =>
      obtain ⟨component, member, inside⟩ := exists_mem_resolve nul
      have found := (within.beneath kind).mem member
      rw [named] at found
      exact cString_ (mem_of_mem_splitOn (List.mem_of_mem_filter found) inside (by decide))
  · intro clean
    have whole := cString_of_no_nul clean
    refine ⟨(validatePath_spec valid).1, not_mem_of_validatePath valid, fun plain => ?_, fun recursive => ?_⟩
    · rw [fileName, if_pos plain, whole]
    · rw [named]
      have trailing := permission.trailing.mp recursive
      simp only [matchPath, recursive, whole, Bool.true_and] at matched
      split at matched
      next below =>
        obtain ⟨rest, rfl⟩ := List.isPrefixOf_iff_prefix.mp below
        exact resolve_prefix trailing
      next => exact (of_decide_eq_true matched) ▸ List.prefix_rfl

/-- The recursive permission for a directory `g`. -/
def directory : BrokerFilePermission where
  path_ := [slash, 0x67, slash]
  recursive_ := true
  unlink_ := false
  allow_read_ := true
  allow_write_ := false
  allow_create_ := false
  absolute := rfl
  unlink_creates := unlink_creates_of_none
  trailing := by decide

theorem within_iff_directory : directory.Within [slash, 0x67, slash, 0x78] ↔ (0 : Byte) ∉ directory.path_ :=
  within_iff (by decide) (.inl ⟨O_RDONLY, by decide⟩)

/-- The path `/g`, a NUL and a slash: what is asked for is `/gx`. -/
def nulBeforeSlash : BrokerFilePermission :=
  { directory with path_ := [slash, 0x67, 0, slash], absolute := rfl, trailing := by decide }

theorem not_within_nulBeforeSlash : ¬ ∀ (permission : BrokerFilePermission) (requested : List Byte),
    (0 : Byte) ∉ requested → permission.Approves requested → permission.Within requested := by
  intro all
  have within := all nulBeforeSlash [slash, 0x67, 0x78] (by decide) (.inl ⟨O_RDONLY, by decide⟩)
  exact absurd (within.beneath rfl) (by decide)

end BrokerFilePermission
/-! What an approved open can do to the files when the permission has no write access. -/

/-- The bit of `O_TMPFILE` that is not `O_DIRECTORY`. -/
abbrev O_TMPFILE : BitVec 32 := 0x400000

/-- The flags with which open(2) creates or empties a file. -/
abbrev modifyingFlags : BitVec 32 := O_CREAT ||| O_TRUNC ||| O_TMPFILE

/-- The regular files, by path. -/
abbrev FileSystem := List Byte → Option (List Byte)

/-- open(2) as Linux does it, for a process that may do anything: the files after it, and whether the new
descriptor can write. `O_TRUNC` empties the file in every access mode. -/
def openFile (files : FileSystem) (path : List Byte) (flags : BitVec 32) : FileSystem × Option Bool :=
  let writes := flags &&& O_ACCMODE ≠ O_RDONLY
  match files path with
  | none =>
    if flags &&& O_CREAT ≠ 0 then (Function.update files path (some []), some writes) else (files, none)
  | some _ =>
    if flags &&& O_CREAT ≠ 0 ∧ flags &&& O_EXCL ≠ 0 then (files, none)
    else (if flags &&& O_TRUNC ≠ 0 then Function.update files path (some []) else files, some writes)

namespace BrokerFilePermission

/-- The host's open of an approved file, with the unlink that may follow. -/
def openApproved (permission : BrokerFilePermission) (files : FileSystem) (requested : List Byte)
    (flags : BitVec 32) : FileSystem × Option Bool :=
  let path := permission.fileName requested
  let (after, descriptor) := openFile files path flags
  (if permission.unlink_ ∧ descriptor.isSome then Function.update after path none else after, descriptor)

/-- Nothing is written, truncated, created or unlinked, whatever the files are. -/
structure ReadsOnly (permission : BrokerFilePermission) (requested : List Byte) (flags : BitVec 32) : Prop where
  mode : flags &&& O_ACCMODE = O_RDONLY
  unmodifying : flags &&& modifyingFlags = 0
  unchanged : ∀ files, (permission.openApproved files requested flags).1 = files
  unwritable : ∀ files, (permission.openApproved files requested flags).2 ≠ some true

/-- What `CheckOpen` has made sure of. -/
structure Opens (permission : BrokerFilePermission) (flags : BitVec 32) : Prop where
  mode : permission.allow_write_ = false → flags &&& O_ACCMODE = O_RDONLY
  creates : flags &&& O_CREAT ≠ 0 → permission.allow_create_ = true
  exclusive : flags &&& O_CREAT ≠ 0 → flags &&& O_EXCL ≠ 0
  unlinks : permission.unlink_ = true → flags &&& O_CREAT ≠ 0
  known : flags &&& ~~~O_ACCMODE &&& ~~~knownFlags = 0

theorem opens_of_checkOpen {permission : BrokerFilePermission} {requested : List Byte} {flags : BitVec 32}
    (allowed : permission.checkOpen requested flags = true) : permission.Opens flags := by
  unfold checkOpen at allowed
  simp only [Bool.if_false_left, Bool.and_eq_true, Bool.not_eq_true', decide_eq_false_iff_not] at allowed
  obtain ⟨-, -, mode, -, write, create, exclusive, unlink, -, known, -⟩ := allowed
  refine ⟨fun closed => ?_, fun creates => ?_, fun creates plain => exclusive ⟨creates, plain⟩, fun unlinks plain => ?_, ?_⟩
  · by_contra writing
    have other : flags &&& O_ACCMODE = O_WRONLY ∨ flags &&& O_ACCMODE = O_RDWR := by
      by_contra neither
      exact mode ⟨writing, not_or.mp neither⟩
    exact write ⟨closed, other⟩
  · by_contra closed
    exact create ⟨Bool.eq_false_iff.mpr closed, creates⟩
  · exact unlink ⟨unlinks, plain⟩
  · exact not_not.mp known

theorem Opens.not_tmpfile {permission : BrokerFilePermission} {flags : BitVec 32} (opens : permission.Opens flags) :
    flags &&& O_TMPFILE = 0 := by
  have apart : ~~~O_ACCMODE &&& ~~~knownFlags &&& O_TMPFILE = O_TMPFILE := by decide
  calc
    flags &&& O_TMPFILE = flags &&& ~~~O_ACCMODE &&& ~~~knownFlags &&& O_TMPFILE := by
      simp only [BitVec.and_assoc] at apart ⊢
      rw [apart]
    _ = 0 := by
      rw [opens.known]
      exact BitVec.zero_and

theorem and_modifyingFlags {flags : BitVec 32} :
    flags &&& modifyingFlags = 0 ↔ (flags &&& O_CREAT = 0 ∧ flags &&& O_TRUNC = 0) ∧ flags &&& O_TMPFILE = 0 := by
  rw [modifyingFlags, BitVec.and_or_distrib_left, BitVec.and_or_distrib_left]
  exact BitVec.or_eq_zero_iff.trans (and_congr_left' BitVec.or_eq_zero_iff)

theorem openFile_readOnly {files : FileSystem} {path : List Byte} {flags : BitVec 32}
    (mode : flags &&& O_ACCMODE = O_RDONLY) (creates : flags &&& O_CREAT = 0) (truncates : flags &&& O_TRUNC = 0) :
    (openFile files path flags).1 = files ∧ (openFile files path flags).2 ≠ some true := by
  unfold openFile
  cases files path with
  | none =>
    dsimp only
    rw [if_neg (not_not.mpr creates)]
    exact ⟨rfl, nofun⟩
  | some contents =>
    dsimp only
    rw [if_neg fun both => both.1 creates, if_neg (not_not.mpr truncates)]
    exact ⟨rfl, fun writes => of_decide_eq_true (Option.some.inj writes) mode⟩

/-- Where `CheckOpen` approves without write access, the open reads only exactly when it neither truncates nor,
under a permission that may create, creates. -/
theorem readsOnly_iff {permission : BrokerFilePermission} {requested : List Byte} {flags : BitVec 32}
    (readOnly : permission.allow_write_ = false) (allowed : permission.checkOpen requested flags = true) :
    permission.ReadsOnly requested flags ↔
      flags &&& O_TRUNC = 0 ∧ (permission.allow_create_ = true → flags &&& O_CREAT = 0) := by
  have opens := opens_of_checkOpen allowed
  constructor
  · intro reads
    obtain ⟨⟨creates, truncates⟩, -⟩ := and_modifyingFlags.mp reads.unmodifying
    exact ⟨truncates, fun _ => creates⟩
  · rintro ⟨truncates, uncreating⟩
    have creates : flags &&& O_CREAT = 0 := by
      by_contra creating
      exact creating (uncreating (opens.creates creating))
    have mode := opens.mode readOnly
    have kept : permission.unlink_ = false := by
      by_contra unlinks
      exact opens.unlinks (Bool.eq_true_of_not_eq_false unlinks) creates
    refine ⟨mode, and_modifyingFlags.mpr ⟨⟨creates, truncates⟩, opens.not_tmpfile⟩, fun files => ?_, fun files => ?_⟩
    · simp only [openApproved, kept, Bool.false_eq_true, false_and, if_false]
      exact (openFile_readOnly mode creates truncates).1
    · exact (openFile_readOnly mode creates truncates).2

/-- `ReadOnly` for the file `/g`. -/
def readOnly : BrokerFilePermission where
  path_ := [slash, 0x67]
  recursive_ := false
  unlink_ := false
  allow_read_ := true
  allow_write_ := false
  allow_create_ := false
  absolute := rfl
  unlink_creates := unlink_creates_of_none
  trailing := by decide

theorem readsOnly_iff_readOnly : readOnly.ReadsOnly [slash, 0x67] O_APPEND ↔
    O_APPEND &&& O_TRUNC = 0 ∧ (readOnly.allow_create_ = true → O_APPEND &&& O_CREAT = 0) :=
  readsOnly_iff rfl (by decide)

/-- `O_RDONLY | O_TRUNC` is approved, and empties a file. -/
theorem not_readsOnly_truncating : readOnly.checkOpen [slash, 0x67] O_TRUNC = true ∧
    (readOnly.openApproved (fun _ => some [1]) [slash, 0x67] O_TRUNC).1 [slash, 0x67] = some [] ∧
      ¬ ∀ (permission : BrokerFilePermission) (requested : List Byte) (flags : BitVec 32),
        permission.allow_write_ = false → permission.checkOpen requested flags = true →
          permission.ReadsOnly requested flags := by
  refine ⟨by decide, by decide, fun all => ?_⟩
  have reads := all readOnly [slash, 0x67] O_TRUNC rfl (by decide)
  exact absurd reads.unmodifying (by decide)

end BrokerFilePermission
end Libchrome.SyscallBroker
