import Libchrome.Library.Absorbing
import Libchrome.Library.Bytes

/-! SHA-1 on byte messages, as FIPS 180 states it: the functions, the padding, the hash computation. -/

namespace Libchrome.Library.Sha1
open Library.Bytes Library.Absorbing

abbrev Word := BitVec 32

/-- Five words: a hash value, or the working variables. -/
@[ext] structure Words where
  a : Word
  b : Word
  c : Word
  d : Word
  e : Word
  deriving DecidableEq

def Words.add (words others : Words) : Words :=
  ⟨words.a + others.a, words.b + others.b, words.c + others.c, words.d + others.d, words.e + others.e⟩

def rotl (count : Nat) (word : Word) : Word := word.rotateLeft count

def ch (x y z : Word) : Word := (x &&& y) ^^^ (~~~x &&& z)

def parity (x y z : Word) : Word := x ^^^ y ^^^ z

def maj (x y z : Word) : Word := (x &&& y) ^^^ (x &&& z) ^^^ (y &&& z)

/-- The function of round `t`, on `b`, `c` and `d`. -/
def choice (t : Nat) : Word → Word → Word → Word :=
  if t < 20 then ch else if t < 40 then parity else if t < 60 then maj else parity

def constant (t : Nat) : Word :=
  if t < 20 then 0x5a827999 else if t < 40 then 0x6ed9eba1 else if t < 60 then 0x8f1bbcdc else 0xca62c1d6

/-- A word of the message, the highest byte first. -/
def bigEndian (first second third fourth : Byte) : Word := first ++ second ++ third ++ fourth

def wordAt (block : List Byte) (t : Nat) : Word :=
  bigEndian (block.getD (4 * t) 0) (block.getD (4 * t + 1) 0) (block.getD (4 * t + 2) 0) (block.getD (4 * t + 3) 0)

/-- The message schedule of one block. -/
def schedule (block : List Byte) (t : Nat) : Word :=
  if _early : t < 16 then wordAt block t
  else rotl 1 (schedule block (t - 3) ^^^ schedule block (t - 8) ^^^
    schedule block (t - 14) ^^^ schedule block (t - 16))

theorem schedule_early {block : List Byte} {t : Nat} (early : t < 16) : schedule block t = wordAt block t := by
  rw [schedule, dif_pos early]

theorem schedule_late {block : List Byte} {t : Nat} (late : 16 ≤ t) :
    schedule block t = rotl 1 (schedule block (t - 3) ^^^ schedule block (t - 8) ^^^
      schedule block (t - 14) ^^^ schedule block (t - 16)) := by
  rw [schedule, dif_neg (Nat.not_lt.mpr late)]

def oneRound (words : Words) (t : Nat) (scheduled : Word) : Words where
  a := rotl 5 words.a + choice t words.b words.c words.d + words.e + constant t + scheduled
  b := words.a
  c := rotl 30 words.b
  d := words.c
  e := words.d

def compress (hash : Words) (block : List Byte) : Words :=
  hash.add ((List.range 80).foldl (fun words t => oneRound words t (schedule block t)) hash)

def initial : Words := ⟨0x67452301, 0xefcdab89, 0x98badcfe, 0x10325476, 0xc3d2e1f0⟩

/-- The zero bytes that bring the bit `1` to the end of a block but for the length. -/
def zeros (length : Nat) : Nat := (119 - length % 64) % 64

/-- The length in bits, in eight bytes. -/
def lengthBytes (length : Nat) : List Byte := (encode 8 (8 * length)).reverse

def padding (length : Nat) : List Byte := 0x80 :: (List.replicate (zeros length) 0 ++ lengthBytes length)

def wordBytes (word : Word) : List Byte :=
  [word.extractLsb' 24 8, word.extractLsb' 16 8, word.extractLsb' 8 8, word.extractLsb' 0 8]

def Words.bytes (words : Words) : List Byte :=
  wordBytes words.a ++ wordBytes words.b ++ wordBytes words.c ++ wordBytes words.d ++ wordBytes words.e

def digest (message : List Byte) : List Byte :=
  (absorb 64 compress initial (message ++ padding message.length)).bytes

end Libchrome.Library.Sha1
