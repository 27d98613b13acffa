import Mathlib.Data.BitVec
import Mathlib.Tactic.Common

/-! Classic BPF instructions and the record a seccomp filter inspects. -/

namespace Libchrome.Bpf

/-- `struct sock_filter`. -/
structure SockFilter where
  code : BitVec 16
  jt : BitVec 8
  jf : BitVec 8
  k : BitVec 32
  deriving DecidableEq, Repr

abbrev Program := List SockFilter

def BPF_CLASS (code : BitVec 16) : BitVec 16 := code &&& 0x07
def BPF_SIZE (code : BitVec 16) : BitVec 16 := code &&& 0x18
def BPF_MODE (code : BitVec 16) : BitVec 16 := code &&& 0xe0
def BPF_OP (code : BitVec 16) : BitVec 16 := code &&& 0xf0
def BPF_SRC (code : BitVec 16) : BitVec 16 := code &&& 0x08

abbrev BPF_LD : BitVec 16 := 0x00
abbrev BPF_ALU : BitVec 16 := 0x04
abbrev BPF_JMP : BitVec 16 := 0x05
abbrev BPF_RET : BitVec 16 := 0x06
abbrev BPF_W : BitVec 16 := 0x00
abbrev BPF_ABS : BitVec 16 := 0x20
abbrev BPF_ADD : BitVec 16 := 0x00
abbrev BPF_SUB : BitVec 16 := 0x10
abbrev BPF_MUL : BitVec 16 := 0x20
abbrev BPF_DIV : BitVec 16 := 0x30
abbrev BPF_OR : BitVec 16 := 0x40
abbrev BPF_AND : BitVec 16 := 0x50
abbrev BPF_LSH : BitVec 16 := 0x60
abbrev BPF_RSH : BitVec 16 := 0x70
abbrev BPF_NEG : BitVec 16 := 0x80
abbrev BPF_MOD : BitVec 16 := 0x90
abbrev BPF_XOR : BitVec 16 := 0xa0
abbrev BPF_JA : BitVec 16 := 0x00
abbrev BPF_JEQ : BitVec 16 := 0x10
abbrev BPF_JGT : BitVec 16 := 0x20
abbrev BPF_JGE : BitVec 16 := 0x30
abbrev BPF_JSET : BitVec 16 := 0x40
abbrev BPF_K : BitVec 16 := 0x00
abbrev BPF_MAXINSNS : Nat := 4096

abbrev SECCOMP_MAX_PROGRAM_SIZE : Nat := 2 ^ 30

abbrev SECCOMP_RET_KILL : BitVec 32 := 0x00000000
abbrev SECCOMP_RET_TRAP : BitVec 32 := 0x00030000
abbrev SECCOMP_RET_ERRNO : BitVec 32 := 0x00050000
abbrev SECCOMP_RET_TRACE : BitVec 32 := 0x7ff00000
abbrev SECCOMP_RET_ALLOW : BitVec 32 := 0x7fff0000
abbrev SECCOMP_RET_ACTION : BitVec 32 := 0xffff0000
abbrev SECCOMP_RET_DATA : BitVec 32 := 0x0000ffff

/-- `AUDIT_ARCH_X86_64`: `EM_X86_64 | __AUDIT_ARCH_64BIT | __AUDIT_ARCH_LE`. -/
abbrev SECCOMP_ARCH : BitVec 32 := 62 ||| 0x80000000 ||| 0x40000000

/-- `struct arch_seccomp_data`. -/
structure ArchSeccompData where
  nr : BitVec 32
  arch : BitVec 32
  instruction_pointer : BitVec 64
  args : Fin 6 → BitVec 64

/-- The 32-bit word at byte offset `4 * index` of the record, as x86-64 lays it out:
every 64-bit field stores its lower half first. -/
def ArchSeccompData.word (data : ArchSeccompData) (index : Fin 16) : BitVec 32 :=
  if index.val = 0 then data.nr
  else if index.val = 1 then data.arch
  else if index.val = 2 then data.instruction_pointer.extractLsb' 0 32
  else if index.val = 3 then data.instruction_pointer.extractLsb' 32 32
  else
    (data.args ⟨(index.val - 4) / 2, by omega⟩).extractLsb' (32 * (index.val % 2)) 32

/-- `sizeof(struct arch_seccomp_data)`. -/
abbrev archSeccompDataSize : Nat := 64

abbrev SECCOMP_NR_IDX : BitVec 32 := 0
abbrev SECCOMP_ARCH_IDX : BitVec 32 := 4
abbrev SECCOMP_IP_MSB_IDX : BitVec 32 := 12
abbrev SECCOMP_IP_LSB_IDX : BitVec 32 := 8
def SECCOMP_ARG_MSB_IDX (nr : Nat) : BitVec 32 := BitVec.ofNat 32 (16 + 8 * nr + 4)
def SECCOMP_ARG_LSB_IDX (nr : Nat) : BitVec 32 := BitVec.ofNat 32 (16 + 8 * nr)

end Libchrome.Bpf
