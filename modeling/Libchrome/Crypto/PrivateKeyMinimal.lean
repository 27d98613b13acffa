import Libchrome.Crypto.PrivateKeyExport
import Mathlib.Data.List.TakeWhile

/-! Whether the integers that the codec writes have the octets of DER, and with them the keys. -/

namespace Libchrome.Crypto.PrivateKeyInfoCodec
open Library Bytes

def kBitStringTag : Byte := 0x03

/-- `PrependInteger` of a vector; `none` where its size does not fit the `int` that it becomes. -/
def prependVector (codec : PrivateKeyInfoCodec) (val data : List Byte) : Option (List Byte) :=
  if val.length < 2 ^ 31 then some (codec.prependInteger val data) else none

/-- `Export`, of vectors whose sizes fit. -/
def exportChecked (codec : PrivateKeyInfoCodec) : Option (List Byte) :=
  if ∀ val ∈ codec.integers, val.length < 2 ^ 31 then some codec.exportKey else none

def prependBitString (val output : List Byte) : List Byte :=
  kBitStringTag :: prependLength (val.length + 1) (0 :: prependBytes val 0 val.length output)

def exportPublicKey (codec : PrivateKeyInfoCodec) : List Byte :=
  let content := codec.prependInteger codec.publicExponent []
  let content := codec.prependInteger codec.modulus content
  prependTypeHeaderAndLength kSequenceTag content.length content

/-- `ExportPublicKeyInfo`; `none` where a size, or the one behind it, does not fit an `int`. -/
def exportPublicKeyInfo (codec : PrivateKeyInfoCodec) : Option (List Byte) :=
  let bit_string := codec.exportPublicKey
  if codec.publicExponent.length < 2 ^ 31 ∧ codec.modulus.length < 2 ^ 31 ∧ bit_string.length + 1 < 2 ^ 31 then
    let content := prependBitString bit_string []
    let content := kRsaAlgorithmIdentifier ++ content
    some (prependTypeHeaderAndLength kSequenceTag content.length content)
  else none

/-! ### The encodings -/

section Encodings

variable (codec : PrivateKeyInfoCodec)

/-- The integer that the bytes of a component denote. -/
def derInteger (val : List Byte) : List Byte :=
  Der.element kIntegerTag (Der.integer (Der.number (oriented codec.bigEndian val)))

def derPrivateKeyInfo : List Byte :=
  versionElement ++ (kRsaAlgorithmIdentifier ++ Der.element kOctetStringTag (Der.element kSequenceTag
    (versionElement ++ (codec.integers.map codec.derInteger).flatten)))

def derPublicKey : List Byte :=
  Der.element kSequenceTag (codec.derInteger codec.modulus ++ codec.derInteger codec.publicExponent)

def derPublicKeyInfo : List Byte :=
  kRsaAlgorithmIdentifier ++ Der.element kBitStringTag (0 :: codec.derPublicKey)

/-- The codec writes the DER encodings of its integers, of the key and of the public key. -/
structure WritesDer : Prop where
  integers : ∀ val ∈ codec.integers, ∀ data, codec.prependVector val data = some (codec.derInteger val ++ data)
  key : codec.exportChecked = some (Der.element kSequenceTag codec.derPrivateKeyInfo)
  publicKey : codec.exportPublicKeyInfo = some (Der.element kSequenceTag codec.derPublicKeyInfo)

end Encodings

/-- The zeros before the last byte. -/
def leadingZeros (magnitude : List Byte) : Nat := (magnitude.dropLast.takeWhile (· = 0)).length

/-- At most half of the bytes are zeros in front, or one more before a byte with a sign. -/
def FewZeros (magnitude : List Byte) : Prop :=
  leadingZeros magnitude ≤ magnitude.length / 2 ∨
    (leadingZeros magnitude = magnitude.length / 2 + 1 ∧ 0x80 ≤ (magnitude.getD (leadingZeros magnitude) 0).toNat)

instance decidableFewZeros (magnitude : List Byte) : Decidable (FewZeros magnitude) :=
  inferInstanceAs (Decidable (_ ∨ _))

/-- The integers have few zeros in front, and the sizes fit the integers that they become. -/
structure Writable (codec : PrivateKeyInfoCodec) : Prop where
  integers : ∀ val ∈ codec.integers, val.length < 2 ^ 31 ∧ FewZeros (oriented codec.bigEndian val)
  key : codec.derPrivateKeyInfo.length < 2 ^ 32
  publicKey : codec.derPublicKey.length + 1 < 2 ^ 31

/-! ### Zeros in front -/

section Zeros

variable {magnitude : List Byte}

theorem leadingZeros_lt (some_ : magnitude ≠ []) : leadingZeros magnitude < magnitude.length := by
  have prefix_ := (List.takeWhile_prefix (· = (0 : Byte)) (l := magnitude.dropLast)).length_le
  rw [List.length_dropLast] at prefix_
  have positive := List.length_pos_iff.mpr some_
  rw [leadingZeros]
  omega

theorem zeros_append (magnitude : List Byte) : ∃ rest,
    magnitude.dropLast = List.replicate (leadingZeros magnitude) 0 ++ rest ∧ ∀ byte ∈ rest.head?, byte ≠ 0 := by
  refine ⟨magnitude.dropLast.dropWhile (· = 0), ?_, fun byte first => ?_⟩
  · have zeros : magnitude.dropLast.takeWhile (· = 0) = List.replicate (leadingZeros magnitude) 0 := by
      refine List.eq_replicate_iff.mpr ⟨rfl, fun byte member => ?_⟩
      have zero := List.mem_takeWhile_imp member
      exact of_decide_eq_true zero
    rw [← zeros, List.takeWhile_append_dropWhile]
  · have stops := List.head?_dropWhile_not (· = (0 : Byte)) magnitude.dropLast
    rw [first] at stops
    exact of_decide_eq_false stops

theorem getD_of_lt_leadingZeros {place : Nat} (before : place < leadingZeros magnitude) :
    magnitude.getD place 0 = 0 := by
  obtain ⟨rest, split, _⟩ := zeros_append magnitude
  have inside : place < magnitude.dropLast.length := by
    rw [split, List.length_append, List.length_replicate]
    omega
  have whole : magnitude[place]? = magnitude.dropLast[place]? := by
    rw [List.getElem?_dropLast, if_pos (List.length_dropLast ▸ inside)]
  rw [List.getD_eq_getElem?_getD, whole, split, List.getElem?_append_left (by rwa [List.length_replicate]),
    List.getElem?_replicate_of_lt before]
  rfl

theorem getD_leadingZeros (inside : leadingZeros magnitude + 1 < magnitude.length) :
    magnitude.getD (leadingZeros magnitude) 0 ≠ 0 := by
  obtain ⟨rest, split, first⟩ := zeros_append magnitude
  have whole : magnitude[leadingZeros magnitude]? = magnitude.dropLast[leadingZeros magnitude]? := by
    rw [List.getElem?_dropLast, if_pos (by omega)]
  have place : magnitude.dropLast[leadingZeros magnitude]? = rest[0]? := by
    conv_lhs => rw [split]
    rw [List.getElem?_append_right (List.length_replicate.le), List.length_replicate, Nat.sub_self]
  have lengths := congrArg List.length split
  rw [List.length_dropLast, List.length_append, List.length_replicate] at lengths
  cases rest with
  | nil =>
    rw [List.length_nil] at lengths
    omega
  | cons byte rest =>
    rw [List.getD_eq_getElem?_getD, whole, place]
    exact first byte rfl

theorem skipped_eq (some_ : magnitude ≠ []) :
    skipped magnitude = min (leadingZeros magnitude) (magnitude.length / 2) := by
  have loop (start numBytes : Nat) (whole : start + numBytes = magnitude.length)
      (before : start ≤ min (leadingZeros magnitude) (magnitude.length / 2)) :
      (skipZeros magnitude start numBytes).1 = min (leadingZeros magnitude) (magnitude.length / 2) := by
    induction start, numBytes using skipZeros.induct magnitude with
    | case1 start numBytes skips ih =>
      rw [skipZeros, if_pos skips]
      refine ih (by omega) ?_
      have more : start ≠ leadingZeros magnitude := by
        rintro rfl
        exact getD_leadingZeros (by omega) skips.2
      omega
    | case2 start numBytes stops =>
      rw [skipZeros, if_neg stops]
      by_cases zeros : start < leadingZeros magnitude
      · have zero := getD_of_lt_leadingZeros zeros
        have last := leadingZeros_lt some_
        have middle : ¬ start + 1 < numBytes := fun more => stops ⟨more, zero⟩
        dsimp only
        omega
      · dsimp only
        omega
  exact loop 0 magnitude.length (Nat.zero_add _) (Nat.zero_le _)

/-! ### The octets of an integer -/

theorem number_signed (bytes : List Byte) : Der.number (signed bytes) = Der.number bytes := by
  unfold signed
  split
  next => exact Der.number_cons_zero bytes
  next => rfl

theorem number_replicate_append (count : Nat) (rest : List Byte) :
    Der.number (List.replicate count 0 ++ rest) = Der.number rest := by
  induction count with
  | zero => rfl
  | succ count ih => exact ih

theorem number_content (some_ : magnitude ≠ []) : Der.number (content magnitude) = Der.number magnitude := by
  have whole := List.take_append_drop (skipped magnitude) magnitude
  rw [take_skipped some_] at whole
  rw [content, number_signed]
  conv_rhs => rw [← whole, number_replicate_append]

theorem and_ne_zero_iff (byte : Byte) : byte &&& 0x80 ≠ 0 ↔ 0x80 ≤ byte.toNat := by
  revert byte
  decide

theorem signed_eq (bytes : List Byte) : signed bytes = if 0x80 ≤ (bytes.headD 0).toNat then 0 :: bytes else bytes := by
  simp only [signed, and_ne_zero_iff]

theorem signed_lt {bytes : List Byte} : ((signed bytes).headD 0).toNat < 0x80 := by
  rw [signed_eq]
  split
  next => exact show (0 : Byte).toNat < 0x80 by decide
  next small => exact Nat.lt_of_not_le small

theorem drop_skipped (some_ : magnitude ≠ []) : magnitude.drop (skipped magnitude) =
    magnitude.getD (skipped magnitude) 0 :: magnitude.drop (skipped magnitude + 1) := by
  have inside := skipped_lt some_
  rw [List.drop_eq_getElem_cons inside, List.getD_eq_getElem _ _ inside]

theorem content_minimal_iff (some_ : magnitude ≠ []) :
    (∀ rest, content magnitude = 0 :: rest → rest = [] ∨ 0x80 ≤ (rest.headD 0).toNat) ↔ FewZeros magnitude := by
  have last := leadingZeros_lt some_
  have place := skipped_eq some_
  rw [content, drop_skipped some_, signed_eq, List.headD_cons]
  by_cases few : leadingZeros magnitude ≤ magnitude.length / 2
  · rw [Nat.min_eq_left few] at place
    refine iff_of_true (fun rest same => ?_) (.inl few)
    split at same
    next high =>
      rw [← (List.cons.inj same).2, List.headD_cons]
      exact .inr high
    next =>
      obtain ⟨zero, rfl⟩ := List.cons.inj same
      rw [place] at zero
      have ends : ¬ leadingZeros magnitude + 1 < magnitude.length := fun inside => getD_leadingZeros inside zero
      rw [place]
      exact .inl (List.drop_of_length_le (Nat.le_of_not_lt ends))
  · rw [Nat.min_eq_right (Nat.le_of_not_le few)] at place
    have zero : magnitude.getD (skipped magnitude) 0 = 0 := getD_of_lt_leadingZeros (by omega)
    have next : magnitude.drop (skipped magnitude + 1) =
        magnitude.getD (skipped magnitude + 1) 0 :: magnitude.drop (skipped magnitude + 1 + 1) := by
      have inside : skipped magnitude + 1 < magnitude.length := by omega
      rw [List.drop_eq_getElem_cons inside, List.getD_eq_getElem _ _ inside]
    have low : ¬ 0x80 ≤ (0 : Byte).toNat := by decide
    rw [zero, if_neg low, next, FewZeros, ← place, or_iff_right (place ▸ few)]
    constructor
    · intro minimal
      have high := (minimal _ rfl).resolve_left (List.cons_ne_nil _ _)
      rw [List.headD_cons] at high
      have here : leadingZeros magnitude = skipped magnitude + 1 := by
        by_contra further
        rw [getD_of_lt_leadingZeros (by omega)] at high
        exact low high
      exact ⟨here, here ▸ high⟩
    · rintro ⟨here, high⟩ rest same
      rw [← (List.cons.inj same).2, List.headD_cons, ← here]
      exact .inr high

theorem content_eq_integer_iff (some_ : magnitude ≠ []) :
    content magnitude = Der.integer (Der.number magnitude) ↔ FewZeros magnitude := by
  constructor
  · intro same
    exact (content_minimal_iff some_).mp (same ▸ (Der.isInteger_integer _).minimal)
  · intro few
    exact Der.IsInteger.eq_integer
      ⟨content_ne_nil some_, signed_lt, number_content some_, (content_minimal_iff some_).mpr few⟩

end Zeros

/-! ### The keys -/

section Keys

variable {codec : PrivateKeyInfoCodec} {val : List Byte}

theorem oriented_ne_nil (some_ : val ≠ []) : oriented codec.bigEndian val ≠ [] := by
  rw [← List.length_pos_iff, length_oriented]
  exact List.length_pos_iff.mpr some_

theorem prependInteger_short (some_ : val ≠ []) (short : val.length < 2 ^ 31) (data : List Byte) :
    codec.prependInteger val data = codec.integer val ++ data := by
  rw [prependInteger, prependIntegerImpl_oriented,
    prependMagnitude_eq (oriented_ne_nil some_) (by rwa [length_oriented])]
  rfl

theorem integer_eq_iff (some_ : val ≠ []) (short : val.length < 2 ^ 31) :
    codec.integer val = codec.derInteger val ↔ FewZeros (oriented codec.bigEndian val) := by
  rw [← content_eq_integer_iff (oriented_ne_nil some_), integer, derInteger]
  constructor
  · intro same
    have length := length_content_le (oriented codec.bigEndian val)
    have length' := Der.length_integer_number_le (oriented codec.bigEndian val)
    rw [length_oriented] at length length'
    exact (Der.element_append_inj (by omega) (by omega) (congrArg (· ++ []) same)).1
  · exact congrArg _

theorem prependVector_iff (some_ : val ≠ []) :
    (∀ data, codec.prependVector val data = some (codec.derInteger val ++ data)) ↔
      val.length < 2 ^ 31 ∧ FewZeros (oriented codec.bigEndian val) := by
  constructor
  · intro writes
    have here := writes []
    rw [prependVector] at here
    split at here
    next short =>
      rw [prependInteger_short some_ short, List.append_nil, List.append_nil] at here
      exact ⟨short, (integer_eq_iff some_ short).mp (Option.some.inj here)⟩
    next => cases here
  · rintro ⟨short, few⟩ data
    rw [prependVector, if_pos short, prependInteger_short some_ short, (integer_eq_iff some_ short).mpr few]

/-- A header in front of a content. -/
def wrap (tag : Byte) (content : List Byte) : List Byte := prependTypeHeaderAndLength tag content.length content

/-- The header is right just when the length has 32 bits. -/
theorem wrap_eq_iff (tag : Byte) {content other : List Byte} (bounded : other.length < 256 ^ 8) :
    wrap tag content = Der.element tag other ↔ content = other ∧ other.length < 2 ^ 32 := by
  constructor
  · intro same
    have small : content.length % 2 ^ 32 < 2 ^ 32 := Nat.mod_lt _ (Nat.two_pow_pos 32)
    rw [wrap, prependTypeHeaderAndLength, prependLength_eq small, Der.element, Der.header, List.cons_append] at same
    obtain ⟨length, rfl⟩ :=
      Der.lengthField_append_inj (Nat.lt_trans small (by decide)) bounded (List.cons.inj same).2
    exact ⟨rfl, length ▸ small⟩
  · rintro ⟨rfl, short⟩
    exact prepend_element tag short

theorem exportKey_wrap
    (writes : ∀ val ∈ codec.integers, ∀ data, codec.prependInteger val data = codec.derInteger val ++ data) :
    codec.exportKey = wrap kSequenceTag (versionElement ++ (kRsaAlgorithmIdentifier ++
      wrap kOctetStringTag (wrap kSequenceTag (versionElement ++ (codec.integers.map codec.derInteger).flatten)))) := by
  have version (data : List Byte) : codec.prependInteger [0] data = versionElement ++ data := by
    rw [prependInteger_eq (by decide), integer_zero]
  have body : codec.prependInteger [0] (codec.prependInteger codec.modulus (codec.prependInteger codec.publicExponent
      (codec.prependInteger codec.privateExponent (codec.prependInteger codec.prime1 (codec.prependInteger codec.prime2
        (codec.prependInteger codec.exponent1 (codec.prependInteger codec.exponent2
          (codec.prependInteger codec.coefficient [])))))))) =
      versionElement ++ (codec.integers.map codec.derInteger).flatten := by
    rw [version, writes _ (by simp [integers]), writes _ (by simp [integers]), writes _ (by simp [integers]),
      writes _ (by simp [integers]), writes _ (by simp [integers]), writes _ (by simp [integers]),
      writes _ (by simp [integers]), writes _ (by simp [integers])]
    rfl
  unfold exportKey
  simp only [body, version]
  rfl

theorem length_derInteger_le (short : val.length < 2 ^ 31) : (codec.derInteger val).length ≤ 2 ^ 32 := by
  have length := Der.length_integer_number_le (oriented codec.bigEndian val)
  rw [length_oriented] at length
  have element := Der.length_element_le kIntegerTag length (by omega)
  rw [derInteger]
  omega

theorem length_body_le (short : ∀ val ∈ codec.integers, val.length < 2 ^ 31) :
    (versionElement ++ (codec.integers.map codec.derInteger).flatten).length ≤ 2 ^ 36 := by
  have each : ∀ size ∈ (codec.integers.map codec.derInteger).map List.length, size ≤ 2 ^ 32 := by
    intro size member
    obtain ⟨part, written, rfl⟩ := List.mem_map.mp member
    obtain ⟨val, listed, rfl⟩ := List.mem_map.mp written
    exact length_derInteger_le (short val listed)
  have total := List.sum_le_card_nsmul _ _ each
  have eight : ((codec.integers.map codec.derInteger).map List.length).length = 8 := by
    rw [List.length_map, List.length_map]
    rfl
  rw [eight, smul_eq_mul] at total
  rw [List.length_append, List.length_flatten, length_versionElement]
  omega

theorem exportKey_iff (short : ∀ val ∈ codec.integers, val.length < 2 ^ 31)
    (writes : ∀ val ∈ codec.integers, ∀ data, codec.prependInteger val data = codec.derInteger val ++ data) :
    codec.exportKey = Der.element kSequenceTag codec.derPrivateKeyInfo ↔ codec.derPrivateKeyInfo.length < 2 ^ 32 := by
  have body := length_body_le short
  generalize inner : versionElement ++ (codec.integers.map codec.derInteger).flatten = content at body
  have sequence := Der.length_element_le kSequenceTag body (by decide)
  have octets := Der.length_element_le kOctetStringTag sequence (by decide)
  have algorithm : kRsaAlgorithmIdentifier.length = 15 := rfl
  have info : codec.derPrivateKeyInfo = versionElement ++ (kRsaAlgorithmIdentifier ++
      Der.element kOctetStringTag (Der.element kSequenceTag content)) := by rw [derPrivateKeyInfo, inner]
  have length : codec.derPrivateKeyInfo.length =
      3 + (15 + (Der.element kOctetStringTag (Der.element kSequenceTag content)).length) := by
    rw [info, List.length_append, List.length_append, length_versionElement, algorithm]
  rw [exportKey_wrap writes, inner, wrap_eq_iff kSequenceTag (by omega)]
  refine ⟨And.right, fun small => ⟨?_, small⟩⟩
  have outer : (Der.element kSequenceTag content).length < 2 ^ 32 := by
    have grows := Der.length_le_element kOctetStringTag (Der.element kSequenceTag content)
    omega
  have innermost : content.length < 2 ^ 32 := by
    have grows := Der.length_le_element kSequenceTag content
    omega
  rw [(wrap_eq_iff kSequenceTag (by omega)).mpr ⟨rfl, innermost⟩,
    (wrap_eq_iff kOctetStringTag (by omega)).mpr ⟨rfl, outer⟩, info]

theorem prependBitString_eq {bits : List Byte} (short : bits.length + 1 < 2 ^ 31) :
    prependBitString bits [] = Der.element kBitStringTag (0 :: bits) := by
  rw [prependBitString, prependLength_eq (by omega), prependBytes_eq _ _ _ (by omega), List.drop_zero, List.take_length,
    List.append_nil, Der.element, Der.header, List.length_cons, List.cons_append]

theorem exportPublicKeyInfo_iff (modulus : codec.modulus.length < 2 ^ 31)
    (exponent : codec.publicExponent.length < 2 ^ 31)
    (writes : ∀ val ∈ codec.integers, ∀ data, codec.prependInteger val data = codec.derInteger val ++ data) :
    codec.exportPublicKeyInfo = some (Der.element kSequenceTag codec.derPublicKeyInfo) ↔
      codec.derPublicKey.length + 1 < 2 ^ 31 := by
  have length := @length_derInteger_le codec codec.modulus modulus
  have length' := @length_derInteger_le codec codec.publicExponent exponent
  have key : codec.exportPublicKey = wrap kSequenceTag (codec.derInteger codec.modulus ++
      codec.derInteger codec.publicExponent) := by
    unfold exportPublicKey
    simp only [writes codec.publicExponent (by simp [integers]), writes codec.modulus (by simp [integers]),
      List.append_nil]
    rfl
  have body : (codec.derInteger codec.modulus ++ codec.derInteger codec.publicExponent).length ≤ 2 ^ 33 := by
    rw [List.length_append]
    omega
  have whole := Der.length_element_le kSequenceTag body (by decide)
  have same := @wrap_eq_iff kSequenceTag (codec.derInteger codec.modulus ++ codec.derInteger codec.publicExponent) _
    (Nat.lt_of_le_of_lt body (by decide))
  rw [← key] at same
  have longer : (0 :: codec.derPublicKey).length ≤ 2 ^ 34 := by
    rw [derPublicKey, List.length_cons]
    omega
  have string := Der.length_element_le kBitStringTag longer (by decide)
  have info : codec.derPublicKeyInfo.length = 15 + (Der.element kBitStringTag (0 :: codec.derPublicKey)).length := by
    rw [derPublicKeyInfo, List.length_append]
    rfl
  rw [exportPublicKeyInfo]
  constructor
  · intro written
    split at written
    next fits =>
      have outer := ((wrap_eq_iff kSequenceTag (by omega)).mp (Option.some.inj written)).1
      have strings := List.append_cancel_left (outer : _ = kRsaAlgorithmIdentifier ++ _)
      rw [prependBitString_eq fits.2.2] at strings
      have size : (0 :: codec.exportPublicKey).length < 256 ^ 8 := by
        rw [List.length_cons]
        omega
      have bits := (Der.element_append_inj size (Nat.lt_of_le_of_lt longer (by decide)) (congrArg (· ++ []) strings)).1
      rw [← (List.cons.inj bits).2]
      exact fits.2.2
    next => cases written
  · intro fits
    have inner : (codec.derInteger codec.modulus ++ codec.derInteger codec.publicExponent).length < 2 ^ 32 := by
      have grows : _ ≤ codec.derPublicKey.length := Der.length_le_element kSequenceTag
        (codec.derInteger codec.modulus ++ codec.derInteger codec.publicExponent)
      omega
    have public_ : codec.exportPublicKey = codec.derPublicKey := same.mpr ⟨rfl, inner⟩
    have few : (0 :: codec.derPublicKey).length ≤ 2 ^ 31 := by
      rw [List.length_cons]
      omega
    have short := Der.length_element_le kBitStringTag few (by decide)
    rw [if_pos ⟨exponent, modulus, public_ ▸ fits⟩, public_, prependBitString_eq fits]
    exact congrArg some ((wrap_eq_iff kSequenceTag (by omega)).mpr ⟨rfl, by omega⟩)

/-- The codec writes DER just when few zeros stand in front of each integer, and the sizes fit. -/
theorem writesDer_iff (some_ : ∀ val ∈ codec.integers, val ≠ []) : codec.WritesDer ↔ codec.Writable := by
  have parts {val : List Byte} (member : val ∈ codec.integers) := @prependVector_iff codec val (some_ val member)
  have member : codec.modulus ∈ codec.integers ∧ codec.publicExponent ∈ codec.integers := by simp [integers]
  have writes (short : ∀ val ∈ codec.integers, val.length < 2 ^ 31 ∧ FewZeros (oriented codec.bigEndian val)) :
      ∀ val ∈ codec.integers, ∀ data, codec.prependInteger val data = codec.derInteger val ++ data := by
    intro val member data
    have written := (parts member).mpr (short val member) data
    rw [prependVector, if_pos (short val member).1] at written
    exact Option.some.inj written
  constructor
  · intro der
    have short : ∀ val ∈ codec.integers, val.length < 2 ^ 31 ∧ FewZeros (oriented codec.bigEndian val) :=
      fun val member => (parts member).mp (der.integers val member)
    have lengths : ∀ val ∈ codec.integers, val.length < 2 ^ 31 := fun val member => (short val member).1
    have key := der.key
    rw [exportChecked, if_pos lengths] at key
    exact ⟨short, (exportKey_iff lengths (writes short)).mp (Option.some.inj key),
      (exportPublicKeyInfo_iff (lengths _ member.1) (lengths _ member.2) (writes short)).mp der.publicKey⟩
  · intro writable
    have lengths : ∀ val ∈ codec.integers, val.length < 2 ^ 31 := fun val member => (writable.integers val member).1
    refine ⟨fun val member => (parts member).mpr (writable.integers val member), ?_, ?_⟩
    · rw [exportChecked, if_pos lengths, (exportKey_iff lengths (writes writable.integers)).mpr writable.key]
    · exact (exportPublicKeyInfo_iff (lengths _ member.1) (lengths _ member.2) (writes writable.integers)).mpr
        writable.publicKey

/-- A key of small numbers, the public exponent in four bytes. -/
def smallKey (publicExponent : List Byte) : PrivateKeyInfoCodec where
  bigEndian := true
  modulus := [0x21]
  publicExponent := publicExponent
  privateExponent := [7]
  prime1 := [3]
  prime2 := [11]
  exponent1 := [1]
  exponent2 := [7]
  coefficient := [2]

theorem writesDer_smallKey : (smallKey [0, 0, 1, 1]).WritesDer :=
  (writesDer_iff (by decide)).mpr ⟨by decide, by decide +kernel, by decide +kernel⟩

/-- The exponent 3 in four bytes keeps a zero. -/
theorem writesDer_differs : ¬ ∀ codec : PrivateKeyInfoCodec, (∀ val ∈ codec.integers, val ≠ []) → codec.WritesDer := by
  intro all
  have writes := (all (smallKey [0, 0, 0, 3]) (by decide)).integers [0, 0, 0, 3] (by decide)
  exact absurd ((prependVector_iff (by decide)).mp writes).2 (by decide)

end Keys

end Libchrome.Crypto.PrivateKeyInfoCodec
