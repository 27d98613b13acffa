import Libchrome.Crypto.PrivateKeyInfoCodec
import Libchrome.Library.Der
import Mathlib.Data.List.GetD
import Mathlib.Tactic.IntervalCases
import Mathlib.Algebra.Group.Action.Defs
import Mathlib.Algebra.Order.BigOperators.Group.List

/-! What the codec writes: elements inside elements, however many zeros it leaves in front of an integer. -/

namespace Libchrome.Crypto.PrivateKeyInfoCodec
open Library Bytes

theorem ofNat_mod (number : Nat) : BitVec.ofNat 8 (number % 256) = BitVec.ofNat 8 number := by
  apply BitVec.eq_of_toNat_eq
  rw [BitVec.toNat_ofNat, BitVec.toNat_ofNat, Nat.mod_mod_of_dvd _ (dvd_refl _)]

theorem prependOctets_eq (size : Nat) (data : List Byte) (numBytes : Nat) :
    prependOctets size data numBytes = (Der.octets size ++ data, numBytes + (Der.octets size).length) := by
  induction size, data, numBytes using prependOctets.induct with
  | case1 size data numBytes positive ih =>
    rw [prependOctets, if_pos positive, ih, ofNat_mod, Der.octets_pos (Nat.pos_iff_ne_zero.mp positive),
      List.append_assoc, List.singleton_append, List.length_append, List.length_singleton, Nat.add_assoc,
      Nat.add_comm 1]
  | case2 size data numBytes done =>
    have nothing : size = 0 := Nat.eq_zero_of_not_pos done
    rw [prependOctets, if_neg done, nothing, Der.octets_zero]
    rfl

theorem longForm (count : Nat) (few : count ≤ 4) :
    (0x80 ||| BitVec.ofNat 8 count : Byte) = BitVec.ofNat 8 (0x80 + count) := by
  interval_cases count <;> rfl

/-- The check after the loop never fails. -/
theorem length_octets_le_four {size : Nat} (bounded : size < 2 ^ 32) : (Der.octets size).length ≤ 4 :=
  Der.length_octets_le 4 bounded

theorem prependLength_eq {size : Nat} (bounded : size < 2 ^ 32) (data : List Byte) :
    prependLength size data = Der.lengthField size ++ data := by
  unfold prependLength Der.lengthField
  split
  next => rfl
  next =>
    simp only [prependOctets_eq, Nat.zero_add]
    rw [longForm _ (length_octets_le_four bounded), List.cons_append]

theorem prependTypeHeaderAndLength_eq (type : Byte) {length : Nat} (bounded : length < 2 ^ 32)
    (output : List Byte) : prependTypeHeaderAndLength type length output = Der.header type length ++ output := by
  rw [prependTypeHeaderAndLength, Nat.mod_eq_of_lt bounded, prependLength_eq bounded, Der.header, List.cons_append]

theorem prepend_element (type : Byte) {content : List Byte} (bounded : content.length < 2 ^ 32) :
    prependTypeHeaderAndLength type content.length content = Der.element type content :=
  prependTypeHeaderAndLength_eq type bounded content

theorem prependBytes_eq (val : List Byte) (start numBytes : Nat) (inside : start + numBytes ≤ val.length)
    (data : List Byte) : prependBytes val start numBytes data = (val.drop start).take numBytes ++ data := by
  induction numBytes generalizing data with
  | zero => rfl
  | succ numBytes ih =>
    have last : start + numBytes < val.length := by omega
    have shifted : numBytes < (val.drop start).length := by
      rw [List.length_drop]
      omega
    rw [prependBytes, ih (by omega), List.take_add_one, List.getElem?_eq_getElem shifted, List.getElem_drop,
      List.getD_eq_getElem _ _ last, List.append_assoc]
    rfl

/-- Only zeros are skipped, and never the last byte. -/
theorem skipZeros_spec (val : List Byte) (start numBytes : Nat) (positive : 0 < numBytes) :
    (skipZeros val start numBytes).1 + (skipZeros val start numBytes).2 = start + numBytes ∧
      0 < (skipZeros val start numBytes).2 ∧ start ≤ (skipZeros val start numBytes).1 ∧
      ∀ place, start ≤ place → place < (skipZeros val start numBytes).1 → val.getD place 0 = 0 := by
  induction start, numBytes using skipZeros.induct val with
  | case1 start numBytes skipped ih =>
    rw [skipZeros, if_pos skipped]
    have rest := ih (by omega)
    refine ⟨by omega, rest.2.1, by omega, fun place from' before => ?_⟩
    by_cases first : place = start
    · rw [first]
      exact skipped.2
    · exact rest.2.2.2 place (by omega) before
  | case2 start numBytes stopped =>
    rw [skipZeros, if_neg stopped]
    exact ⟨rfl, positive, le_rfl, fun place from' before => absurd before (Nat.not_lt.mpr from')⟩

/-- The bytes of a number, the highest first. -/
def oriented (bigEndian : Bool) (val : List Byte) : List Byte := if bigEndian then val else val.reverse

@[simp] theorem oriented_oriented (bigEndian : Bool) (val : List Byte) :
    oriented bigEndian (oriented bigEndian val) = val := by
  unfold oriented
  cases bigEndian with
  | true => rfl
  | false => exact List.reverse_reverse val

@[simp] theorem length_oriented (bigEndian : Bool) (val : List Byte) :
    (oriented bigEndian val).length = val.length := by
  unfold oriented
  cases bigEndian with
  | true => rfl
  | false => exact List.length_reverse

/-- How many zeros are left out. -/
def skipped (magnitude : List Byte) : Nat := (skipZeros magnitude 0 magnitude.length).1

/-- A zero keeps the number positive. -/
def signed (bytes : List Byte) : List Byte := if bytes.headD 0 &&& 0x80 ≠ 0 then 0 :: bytes else bytes

/-- What stands between the header and the end of an integer. -/
def content (magnitude : List Byte) : List Byte := signed (magnitude.drop (skipped magnitude))

variable {magnitude : List Byte}

theorem skipped_lt (some' : magnitude ≠ []) : skipped magnitude < magnitude.length := by
  have spec := skipZeros_spec magnitude 0 magnitude.length (List.length_pos_iff.mpr some')
  unfold skipped
  omega

theorem take_skipped (some' : magnitude ≠ []) :
    magnitude.take (skipped magnitude) = List.replicate (skipped magnitude) 0 := by
  have spec := skipZeros_spec magnitude 0 magnitude.length (List.length_pos_iff.mpr some')
  have inside := skipped_lt some'
  apply List.ext_getElem
  · rw [List.length_take, List.length_replicate, Nat.min_eq_left (Nat.le_of_lt inside)]
  · intro place taken replicated
    rw [List.length_replicate] at replicated
    have zero := spec.2.2.2 place (Nat.zero_le _) replicated
    rw [List.getElem_take, List.getElem_replicate, ← zero, List.getD_eq_getElem _ _ (by omega)]

theorem length_content_le (magnitude : List Byte) : (content magnitude).length ≤ magnitude.length + 1 := by
  unfold content signed
  split
  next =>
    rw [List.length_cons, List.length_drop]
    omega
  next =>
    rw [List.length_drop]
    omega

theorem content_ne_nil (some' : magnitude ≠ []) : content magnitude ≠ [] := by
  have inside := skipped_lt some'
  unfold content signed
  split
  next => exact List.cons_ne_nil _ _
  next =>
    intro empty
    have short := List.drop_eq_nil_iff.mp empty
    omega

/-- `PrependIntegerImpl` once the bytes are in order. -/
def prependMagnitude (magnitude data : List Byte) : List Byte :=
  let numBytes := (skipZeros magnitude 0 magnitude.length).2
  let data := prependBytes magnitude (skipped magnitude) numBytes data
  if data.headD 0 &&& 0x80 ≠ 0 then prependTypeHeaderAndLength kIntegerTag (numBytes + 1) (0 :: data)
  else prependTypeHeaderAndLength kIntegerTag numBytes data

theorem prependIntegerImpl_oriented (val data : List Byte) (bigEndian : Bool) :
    prependIntegerImpl val data bigEndian = prependMagnitude (oriented bigEndian val) data := by
  cases bigEndian with
  | true => rfl
  | false =>
    unfold prependIntegerImpl prependMagnitude oriented skipped
    simp only [Bool.false_eq_true, if_false, List.length_reverse]

theorem prependMagnitude_eq (some' : magnitude ≠ []) (small : magnitude.length < 2 ^ 31) (data : List Byte) :
    prependMagnitude magnitude data = Der.element kIntegerTag (content magnitude) ++ data := by
  have inside := skipped_lt some'
  have spec := skipZeros_spec magnitude 0 _ (List.length_pos_iff.mpr some')
  have left : (skipZeros magnitude 0 magnitude.length).2 = (magnitude.drop (skipped magnitude)).length := by
    rw [List.length_drop]
    unfold skipped
    omega
  have short : (magnitude.drop (skipped magnitude)).length < 2 ^ 31 := by
    rw [List.length_drop]
    omega
  have written : prependBytes magnitude (skipped magnitude) (magnitude.drop (skipped magnitude)).length data =
      magnitude.drop (skipped magnitude) ++ data := by
    rw [prependBytes_eq _ _ _ (by rw [List.length_drop]; omega), List.take_length]
  have head : (magnitude.drop (skipped magnitude) ++ data).headD 0 = (magnitude.drop (skipped magnitude)).headD 0 := by
    rw [List.drop_eq_getElem_cons inside]
    rfl
  unfold prependMagnitude content signed Der.element
  simp only [left, written, head]
  split
  next => rw [prependTypeHeaderAndLength_eq _ (by omega), List.length_cons, List.append_assoc, List.cons_append]
  next => rw [prependTypeHeaderAndLength_eq _ (by omega), List.append_assoc]

/-- The integers of a key, in the order of the format. -/
def integers (codec : PrivateKeyInfoCodec) : List (List Byte) :=
  [codec.modulus, codec.publicExponent, codec.privateExponent, codec.prime1, codec.prime2, codec.exponent1,
    codec.exponent2, codec.coefficient]

def integer (codec : PrivateKeyInfoCodec) (val : List Byte) : List Byte :=
  Der.element kIntegerTag (content (oriented codec.bigEndian val))

def versionElement : List Byte := Der.element kIntegerTag [0]

/-- The octets of the inner sequence. -/
def privateKey (codec : PrivateKeyInfoCodec) : List Byte :=
  versionElement ++ (codec.integers.map codec.integer).flatten

def privateKeyInfo (codec : PrivateKeyInfoCodec) : List Byte :=
  versionElement ++ (kRsaAlgorithmIdentifier ++
    Der.element kOctetStringTag (Der.element kSequenceTag codec.privateKey))

/-- Every integer has bytes, and no more than the lengths can say. -/
def Encodable (codec : PrivateKeyInfoCodec) : Prop := ∀ val ∈ codec.integers, val ≠ [] ∧ val.length < 2 ^ 25

variable {codec : PrivateKeyInfoCodec}

theorem prependInteger_eq {val : List Byte} (encodable : val ≠ [] ∧ val.length < 2 ^ 25) (data : List Byte) :
    codec.prependInteger val data = codec.integer val ++ data := by
  have magnitude : oriented codec.bigEndian val ≠ [] := by
    rw [← List.length_pos_iff, length_oriented]
    exact List.length_pos_iff.mpr encodable.1
  rw [prependInteger, prependIntegerImpl_oriented, prependMagnitude_eq magnitude (by rw [length_oriented]; omega)]
  rfl

theorem length_element_le (tag : Byte) {bytes : List Byte} {bound : Nat} (short : bytes.length ≤ bound)
    (small : bound < 2 ^ 32) : (Der.element tag bytes).length ≤ bound + 6 := by
  have header := Der.length_header_le tag (show bytes.length < 256 ^ 4 by omega)
  rw [Der.element, List.length_append]
  omega

theorem length_integer_le {val : List Byte} (short : val.length < 2 ^ 25) :
    (codec.integer val).length ≤ 2 ^ 25 + 6 := by
  have bound := length_content_le (oriented codec.bigEndian val)
  rw [length_oriented] at bound
  exact length_element_le kIntegerTag (by omega) (by decide)

theorem length_versionElement : versionElement.length = 3 := by decide

theorem length_privateKey_le (encodable : codec.Encodable) : codec.privateKey.length ≤ 2 ^ 29 := by
  have each : ∀ size ∈ (codec.integers.map codec.integer).map List.length, size ≤ 2 ^ 25 + 6 := by
    intro size member
    obtain ⟨part, written, rfl⟩ := List.mem_map.mp member
    obtain ⟨val, listed, rfl⟩ := List.mem_map.mp written
    exact length_integer_le (encodable val listed).2
  have total := List.sum_le_card_nsmul _ _ each
  have eight : ((codec.integers.map codec.integer).map List.length).length = 8 := by
    rw [List.length_map, List.length_map]
    rfl
  rw [eight, smul_eq_mul] at total
  rw [privateKey, List.length_append, List.length_flatten, length_versionElement]
  omega

theorem length_privateKeyInfo_le (encodable : codec.Encodable) : codec.privateKeyInfo.length ≤ 2 ^ 30 := by
  have inner := length_element_le kSequenceTag (length_privateKey_le encodable) (by decide)
  have outer := length_element_le kOctetStringTag inner (by decide)
  have algorithm : kRsaAlgorithmIdentifier.length = 15 := rfl
  rw [privateKeyInfo, List.length_append, List.length_append, length_versionElement, algorithm]
  omega

theorem integer_zero (codec : PrivateKeyInfoCodec) : codec.integer [0] = versionElement := by
  have same : oriented codec.bigEndian [0] = [0] := by
    unfold oriented
    split <;> rfl
  have kept : content [0] = [0] := by
    unfold content signed skipped
    rw [skipZeros, if_neg (by decide)]
    rfl
  rw [integer, same, kept, versionElement]

/-- What `Export` writes, from the outside in. -/
theorem exportKey_eq (encodable : codec.Encodable) :
    codec.exportKey = Der.element kSequenceTag codec.privateKeyInfo := by
  have written (val : List Byte) (member : val ∈ codec.integers) (data : List Byte) :
      codec.prependInteger val data = codec.integer val ++ data := prependInteger_eq (encodable val member) data
  have version (data : List Byte) : codec.prependInteger [0] data = versionElement ++ data := by
    rw [prependInteger_eq (by decide), integer_zero]
  have sequence := length_privateKey_le encodable
  have octets := length_element_le kSequenceTag sequence (by decide)
  have whole := length_privateKeyInfo_le encodable
  have body : codec.prependInteger [0] (codec.prependInteger codec.modulus (codec.prependInteger codec.publicExponent
      (codec.prependInteger codec.privateExponent (codec.prependInteger codec.prime1 (codec.prependInteger codec.prime2
        (codec.prependInteger codec.exponent1 (codec.prependInteger codec.exponent2
          (codec.prependInteger codec.coefficient [])))))))) = codec.privateKey := by
    rw [version, written _ (by simp [integers]), written _ (by simp [integers]), written _ (by simp [integers]),
      written _ (by simp [integers]), written _ (by simp [integers]), written _ (by simp [integers]),
      written _ (by simp [integers]), written _ (by simp [integers])]
    rfl
  have info : versionElement ++ (kRsaAlgorithmIdentifier ++
      Der.element kOctetStringTag (Der.element kSequenceTag codec.privateKey)) = codec.privateKeyInfo := rfl
  unfold exportKey
  simp only [body, prepend_element kSequenceTag (Nat.lt_of_le_of_lt sequence (by decide)),
    prepend_element kOctetStringTag (Nat.lt_of_le_of_lt octets (by decide)), version, info,
    prepend_element kSequenceTag (Nat.lt_of_le_of_lt whole (by decide))]

end Libchrome.Crypto.PrivateKeyInfoCodec
