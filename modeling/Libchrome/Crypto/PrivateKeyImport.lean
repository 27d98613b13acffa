import Libchrome.Crypto.PrivateKeyExport

/-! The reader takes apart what the writer put together, and fills in the zeros the writer left out. -/

namespace Libchrome.Crypto.PrivateKeyInfoCodec
open Library Bytes

theorem ok_bind {α β : Type} (value : α) (next : α → Except Failure β) : (Except.ok value >>= next) = next value := rfl

theorem shift_or (number : Nat) (small : number < 2 ^ 32) :
    (BitVec.ofNat 32 (number / 256) <<< 8) ||| (BitVec.ofNat 8 number).setWidth 32 = BitVec.ofNat 32 number := by
  have low : number % 2 ^ 8 < 2 ^ 8 := Nat.mod_lt _ (by decide)
  apply BitVec.eq_of_toNat_eq
  rw [BitVec.toNat_or, BitVec.toNat_shiftLeft, BitVec.toNat_setWidth, BitVec.toNat_ofNat, BitVec.toNat_ofNat,
    BitVec.toNat_ofNat, Nat.mod_eq_of_lt (show number / 256 < 2 ^ 32 by omega), Nat.shiftLeft_eq,
    Nat.mod_eq_of_lt (show number / 256 * 2 ^ 8 < 2 ^ 32 by omega),
    Nat.mod_eq_of_lt (show number % 2 ^ 8 < 2 ^ 32 by omega), Nat.mul_comm, ← Nat.two_pow_add_eq_or_of_lt low]
  omega

theorem foldl_octets (number : Nat) (small : number < 2 ^ 32) :
    (Der.octets number).foldl (fun (length : BitVec 32) byte => (length <<< 8) ||| byte.setWidth 32) 0 =
      BitVec.ofNat 32 number := by
  induction number using Der.octets.induct with
  | case1 => rw [Der.octets_zero, List.foldl_nil]; rfl
  | case2 number positive ih =>
    rw [Der.octets_pos positive, List.foldl_append, ih (by omega), List.foldl_cons, List.foldl_nil,
      shift_or number small]

theorem bounded_ok {length : Nat} {rest : List Byte} (small : length < 2 ^ 31) (inside : length ≤ rest.length) :
    bounded (BitVec.ofNat 32 length) rest = .ok (BitVec.ofNat 32 length, rest) := by
  have exact' : (BitVec.ofNat 32 length).toNat = length := by
    rw [BitVec.toNat_ofNat]
    omega
  have signed' : (BitVec.ofNat 32 length).toInt = length := by
    rw [BitVec.toInt_eq_toNat_of_lt (by omega), exact']
  rw [bounded, if_pos (by omega)]

theorem shortForm (length : Nat) (short : length < 128) :
    (BitVec.ofNat 8 length &&& 0x80 : Byte) = 0 := by
  have all : ∀ length < 128, (BitVec.ofNat 8 length &&& 0x80 : Byte) = 0 := by decide
  exact all length short

theorem longForm_first (count : Nat) (few : count ≤ 4) :
    (BitVec.ofNat 8 (0x80 + count) &&& 0x80 : Byte) ≠ 0 ∧
      (BitVec.ofNat 8 (0x80 + count) &&& 0x7f : Byte).toNat = count := by
  interval_cases count <;> decide

theorem readLength_lengthField {length : Nat} {rest : List Byte} (small : length < 2 ^ 31)
    (inside : length ≤ rest.length) :
    readLength (Der.lengthField length ++ rest) = .ok (BitVec.ofNat 32 length, rest) := by
  unfold Der.lengthField
  split
  next short =>
    have widened : (BitVec.ofNat 8 length).setWidth 32 = BitVec.ofNat 32 length := by
      apply BitVec.eq_of_toNat_eq
      rw [BitVec.toNat_setWidth, BitVec.toNat_ofNat, BitVec.toNat_ofNat]
      omega
    rw [List.singleton_append, readLength, if_pos (shortForm length short), widened, bounded_ok small inside]
  next long =>
    have few := length_octets_le_four (show length < 2 ^ 32 by omega)
    have first := longForm_first _ few
    rw [List.cons_append, readLength, if_neg first.1]
    simp only [first.2]
    rw [if_pos ⟨few, by rw [List.length_append]; omega⟩, List.take_left, List.drop_left,
      foldl_octets length (by omega), bounded_ok small inside]

theorem readHeader {length : Nat} {rest : List Byte} (tag : Byte) (small : length < 2 ^ 31)
    (inside : length ≤ rest.length) :
    readTypeHeaderAndLength tag (Der.header tag length ++ rest) = .ok (BitVec.ofNat 32 length, rest) := by
  rw [Der.header, List.cons_append, readTypeHeaderAndLength, if_pos rfl, readLength_lengthField small inside]

theorem readElement {content : List Byte} (tag : Byte) (small : content.length < 2 ^ 31) (rest : List Byte) :
    readTypeHeaderAndLength tag (Der.element tag content ++ rest) =
      .ok (BitVec.ofNat 32 content.length, content ++ rest) := by
  rw [Der.element, List.append_assoc, readHeader tag small (by rw [List.length_append]; omega)]

theorem readVersion_element (rest : List Byte) : readVersion (versionElement ++ rest) = .ok ((), rest) := by
  rw [readVersion, versionElement, readElement _ (by decide), ok_bind]
  rfl

theorem readAlgorithmIdentifier_append {rest : List Byte} (more : rest ≠ []) :
    readAlgorithmIdentifier (kRsaAlgorithmIdentifier ++ rest) = .ok ((), rest) := by
  have positive := List.length_pos_iff.mpr more
  rw [readAlgorithmIdentifier, if_pos ⟨by rw [List.length_append]; omega, List.take_left⟩, List.drop_left]

/-- The content of an integer without the zero that keeps it positive. -/
def unsigned (content : List Byte) : List Byte := if content.headD 0 = 0 then content.tail else content

theorem readBytes_append {bytes : List Byte} {length : BitVec 32} (same : length.toNat = bytes.length)
    (rest out : List Byte) (bigEndian : Bool) :
    readBytes length (bytes ++ rest) out bigEndian = .ok (oriented bigEndian (out ++ bytes), rest) := by
  rw [readBytes, same, if_pos (by rw [List.length_append]; omega), List.take_left, List.drop_left]
  rfl

theorem readIntegerImpl_element {content : List Byte} (some' : content ≠ []) (small : content.length < 2 ^ 31)
    (rest out : List Byte) (bigEndian : Bool) :
    readIntegerImpl (Der.element kIntegerTag content ++ rest) out bigEndian =
      .ok (oriented bigEndian (out ++ unsigned content), rest) := by
  have exact' : (BitVec.ofNat 32 content.length).toNat = content.length := by
    rw [BitVec.toNat_ofNat]
    omega
  have positive : BitVec.ofNat 32 content.length ≠ 0 := by
    intro zero
    rw [zero] at exact'
    exact some' (List.eq_nil_of_length_eq_zero exact'.symm)
  rw [readIntegerImpl, readElement _ small, ok_bind]
  simp only [if_neg positive]
  cases content with
  | nil => exact absurd rfl some'
  | cons first tail =>
    have less : (BitVec.ofNat 32 (first :: tail).length - 1).toNat = tail.length := by
      have one : BitVec.ofNat 32 (first :: tail).length = BitVec.ofNat 32 tail.length + 1 := BitVec.ofNat_add _ 1
      rw [List.length_cons] at small
      rw [one, BitVec.add_sub_cancel, BitVec.toNat_ofNat]
      omega
    rw [unsigned, List.headD_cons, List.tail_cons]
    by_cases zero : first = 0
    · rw [if_pos zero]
      simp only [List.cons_append, if_pos zero]
      exact readBytes_append less rest out bigEndian
    · rw [if_neg zero]
      simp only [List.cons_append, if_neg zero]
      exact readBytes_append exact' rest out bigEndian

theorem unsigned_content {magnitude : List Byte} (some' : magnitude ≠ []) :
    ∃ zeros ≤ magnitude.length, unsigned (content magnitude) = magnitude.drop zeros ∧
      magnitude.take zeros = List.replicate zeros 0 := by
  have inside := skipped_lt some'
  have zeros := take_skipped some'
  have cut := List.drop_eq_getElem_cons inside
  unfold content signed unsigned
  split
  next negative => exact ⟨skipped magnitude, by omega, rfl, zeros⟩
  next positive =>
    split
    next first =>
      rw [cut, List.headD_cons] at first
      refine ⟨skipped magnitude + 1, inside, ?_, ?_⟩
      · rw [List.tail_drop]
      · rw [List.take_add_one, List.getElem?_eq_getElem inside, zeros, first, Option.toList_some,
          List.replicate_succ']
    next other => exact ⟨skipped magnitude, by omega, rfl, zeros⟩

theorem unsigned_content_of_head {magnitude : List Byte} (head : magnitude.headD 0 ≠ 0) :
    unsigned (content magnitude) = magnitude := by
  have none' : skipped magnitude = 0 := by
    unfold skipped
    rw [skipZeros, if_neg]
    intro both
    cases magnitude with
    | nil => exact head rfl
    | cons first rest => exact head both.2
  unfold content signed unsigned
  rw [none', List.drop_zero]
  split
  next => rfl
  next => rfl

variable {codec : PrivateKeyInfoCodec}

theorem readIntegerWithExpectedSize_integer {val : List Byte} (some' : val ≠ []) (small : val.length < 2 ^ 25)
    (reader : PrivateKeyInfoCodec) (same : reader.bigEndian = codec.bigEndian) (rest : List Byte) :
    reader.readIntegerWithExpectedSize (codec.integer val ++ rest) (BitVec.ofNat 64 val.length) [] =
      .ok (val, rest) := by
  have magnitude : oriented codec.bigEndian val ≠ [] := by
    rw [← List.length_pos_iff, length_oriented]
    exact List.length_pos_iff.mpr some'
  have short := length_content_le (oriented codec.bigEndian val)
  have size := length_oriented codec.bigEndian val
  obtain ⟨zeros, inside, read, replicated⟩ := unsigned_content magnitude
  have whole : List.replicate zeros 0 ++ unsigned (content (oriented codec.bigEndian val)) =
      oriented codec.bigEndian val := by
    rw [read, ← replicated, List.take_append_drop]
  have few : (BitVec.ofNat 32 zeros).toNat = zeros := by
    rw [BitVec.toNat_ofNat]
    omega
  have pad : (BitVec.ofNat 64 val.length -
      BitVec.ofNat 64 (unsigned (content (oriented codec.bigEndian val))).length).setWidth 32 =
      BitVec.ofNat 32 zeros := by
    rw [read, List.length_drop]
    apply BitVec.eq_of_toNat_eq
    rw [BitVec.toNat_setWidth, BitVec.toNat_sub, BitVec.toNat_ofNat, BitVec.toNat_ofNat, BitVec.toNat_ofNat]
    omega
  have positive : 0 ≤ (BitVec.ofNat 32 zeros).toInt := by
    rw [BitVec.toInt_eq_toNat_of_lt (by omega)]
    exact Int.natCast_nonneg _
  have more : ([] : List Byte).length ≠ (BitVec.ofNat 64 val.length + 1).toNat := by
    rw [List.length_nil, BitVec.toNat_add, BitVec.toNat_ofNat, show (1 : BitVec 64).toNat = 1 from rfl]
    omega
  have order : oriented true = id := rfl
  rw [readIntegerWithExpectedSize, integer, readIntegerImpl_element (content_ne_nil magnitude) (by omega), ok_bind]
  simp only [order, id, List.nil_append, pad]
  rw [if_neg more, if_pos (show ([] : List Byte).length ≤ _ from Nat.zero_le _), padded, if_pos positive]
  simp only [List.nil_append, few, whole]
  rw [← oriented, same, oriented_oriented]

/-- What the format asks of the sizes: the importer fills the other integers up to the modulus. -/
structure Sized (codec : PrivateKeyInfoCodec) : Prop where
  even : codec.modulus.length % 2 = 0
  mostSignificant : (oriented codec.bigEndian codec.modulus).headD 0 ≠ 0
  publicExponent : codec.publicExponent.length = 4
  privateExponent : codec.privateExponent.length = codec.modulus.length
  prime1 : codec.prime1.length = codec.modulus.length / 2
  prime2 : codec.prime2.length = codec.modulus.length / 2
  exponent1 : codec.exponent1.length = codec.modulus.length / 2
  exponent2 : codec.exponent2.length = codec.modulus.length / 2
  coefficient : codec.coefficient.length = codec.modulus.length / 2

theorem readInteger_integer {val : List Byte} (head : (oriented codec.bigEndian val).headD 0 ≠ 0)
    (small : val.length < 2 ^ 25) (reader : PrivateKeyInfoCodec) (same : reader.bigEndian = codec.bigEndian)
    (rest : List Byte) : reader.readInteger (codec.integer val ++ rest) [] = .ok (val, rest) := by
  have magnitude : oriented codec.bigEndian val ≠ [] := by
    intro empty
    exact head (by rw [empty]; rfl)
  have short := length_content_le (oriented codec.bigEndian val)
  rw [length_oriented] at short
  rw [readInteger, integer, readIntegerImpl_element (content_ne_nil magnitude) (by omega),
    unsigned_content_of_head head, List.nil_append, same, oriented_oriented]

section ModulusSize

variable {size : Nat}

theorem toInt_modSize (small : size < 2 ^ 31) : (BitVec.ofNat 32 size).toInt = size := by
  have exact' : (BitVec.ofNat 32 size).toNat = size := by
    rw [BitVec.toNat_ofNat]
    omega
  rw [BitVec.toInt_eq_toNat_of_lt (by omega), exact']

theorem signExtend_modSize (small : size < 2 ^ 31) : (BitVec.ofNat 32 size).signExtend 64 = BitVec.ofNat 64 size := by
  apply BitVec.eq_of_toInt_eq
  rw [BitVec.toInt_signExtend_of_le (by decide), toInt_modSize small, BitVec.toInt_eq_toNat_of_lt]
  · rw [BitVec.toNat_ofNat]
    omega
  · rw [BitVec.toNat_ofNat]
    omega

theorem sdiv_modSize (small : size < 2 ^ 31) : (BitVec.ofNat 32 size).sdiv 2 = BitVec.ofNat 32 (size / 2) := by
  apply BitVec.eq_of_toInt_eq
  rw [BitVec.toInt_sdiv, toInt_modSize small, toInt_modSize (Nat.lt_of_le_of_lt (Nat.div_le_self size 2) small)]
  have two : (2 : BitVec 32).toInt = 2 := by decide
  rw [two]
  have quotient : (size : Int).tdiv 2 = ((size / 2 : Nat) : Int) := rfl
  rw [quotient, Int.bmod_def]
  omega

end ModulusSize

theorem readSequence_element {content : List Byte} (small : content.length < 2 ^ 31) :
    readSequence (Der.element kSequenceTag content) = .ok (BitVec.ofNat 32 content.length, content) := by
  have read := readElement kSequenceTag small []
  rwa [List.append_nil, List.append_nil] at read

theorem importKey_exportKey_of_encodable (sized : codec.Sized) (encodable : codec.Encodable) :
    (fresh codec.bigEndian).importKey codec.exportKey = .ok codec := by
  have written (val : List Byte) (member : val ∈ codec.integers) (size : Nat) (exact' : val.length = size)
      (rest : List Byte) :
      (fresh codec.bigEndian).readIntegerWithExpectedSize (codec.integer val ++ rest) (BitVec.ofNat 64 size) [] =
        .ok (val, rest) := by
    have parts := encodable val member
    subst exact'
    exact readIntegerWithExpectedSize_integer parts.1 parts.2 _ rfl rest
  have modulus := readInteger_integer sized.mostSignificant (encodable codec.modulus (by simp [integers])).2
    (fresh codec.bigEndian) rfl
  have inner := length_privateKey_le encodable
  have octets := length_element_le kSequenceTag inner (by decide)
  have whole := length_privateKeyInfo_le encodable
  have version : readVersion codec.privateKeyInfo = .ok ((), kRsaAlgorithmIdentifier ++
      Der.element kOctetStringTag (Der.element kSequenceTag codec.privateKey)) := readVersion_element _
  have algorithm : readAlgorithmIdentifier (kRsaAlgorithmIdentifier ++
      Der.element kOctetStringTag (Der.element kSequenceTag codec.privateKey)) =
      .ok ((), Der.element kOctetStringTag (Der.element kSequenceTag codec.privateKey)) :=
    readAlgorithmIdentifier_append (List.cons_ne_nil _ _)
  have octetString := readElement kOctetStringTag
    (show (Der.element kSequenceTag codec.privateKey).length < 2 ^ 31 by omega) []
  rw [List.append_nil, List.append_nil] at octetString
  have innerVersion : readVersion codec.privateKey = .ok ((), codec.integer codec.modulus ++
      (codec.integer codec.publicExponent ++ (codec.integer codec.privateExponent ++ (codec.integer codec.prime1 ++
      (codec.integer codec.prime2 ++ (codec.integer codec.exponent1 ++ (codec.integer codec.exponent2 ++
      (codec.integer codec.coefficient ++ [])))))))) := readVersion_element _
  have some' : codec.exportKey ≠ [] := by
    rw [exportKey_eq encodable]
    exact List.cons_ne_nil _ _
  have publicExponent (rest : List Byte) : (fresh codec.bigEndian).readIntegerWithExpectedSize
      (codec.integer codec.publicExponent ++ rest) 4 [] = .ok (codec.publicExponent, rest) :=
    written codec.publicExponent (by simp [integers]) 4 sized.publicExponent rest
  have short : codec.modulus.length < 2 ^ 31 :=
    Nat.lt_trans (encodable codec.modulus (by simp [integers])).2 (by decide)
  have even : (codec.modulus.length : Int) % 2 = 0 := by
    have whole := sized.even
    omega
  rw [importKey, if_neg some', exportKey_eq encodable, readSequence_element (by omega)]
  unfold fresh at written modulus publicExponent ⊢
  simp only [ok_bind, version, algorithm, octetString,
    readSequence_element (Nat.lt_of_le_of_lt inner (by decide)), innerVersion, modulus, toInt_modSize short, even,
    ne_eq, not_true_eq_false, if_false, publicExponent, signExtend_modSize short, sdiv_modSize short,
    signExtend_modSize (Nat.lt_of_le_of_lt (Nat.div_le_self _ 2) short),
    written codec.privateExponent (by simp [integers]) _ sized.privateExponent,
    written codec.prime1 (by simp [integers]) _ sized.prime1, written codec.prime2 (by simp [integers]) _ sized.prime2,
    written codec.exponent1 (by simp [integers]) _ sized.exponent1,
    written codec.exponent2 (by simp [integers]) _ sized.exponent2,
    written codec.coefficient (by simp [integers]) _ sized.coefficient]
  rfl

section Size

theorem length_prependTypeHeaderAndLength_ge (type : Byte) (length : Nat) (output : List Byte) :
    output.length ≤ (prependTypeHeaderAndLength type length output).length := by
  unfold prependTypeHeaderAndLength prependLength
  rw [List.length_cons]
  split
  next =>
    rw [List.length_cons]
    omega
  next =>
    simp only [prependOctets_eq]
    rw [List.length_cons, List.length_append]
    omega

theorem length_prependBytes (val : List Byte) (start numBytes : Nat) (data : List Byte) :
    (prependBytes val start numBytes data).length = numBytes + data.length := by
  induction numBytes generalizing data with
  | zero => rw [prependBytes, Nat.zero_add]
  | succ numBytes ih =>
    rw [prependBytes, ih, List.length_cons]
    omega

theorem length_prependMagnitude_ge (magnitude data : List Byte) :
    (skipZeros magnitude 0 magnitude.length).2 + data.length ≤ (prependMagnitude magnitude data).length := by
  have written := length_prependBytes magnitude (skipped magnitude) (skipZeros magnitude 0 magnitude.length).2 data
  unfold prependMagnitude
  dsimp only
  split
  next =>
    have longer := length_prependTypeHeaderAndLength_ge kIntegerTag
      ((skipZeros magnitude 0 magnitude.length).2 + 1)
      (0 :: prependBytes magnitude (skipped magnitude) (skipZeros magnitude 0 magnitude.length).2 data)
    rw [List.length_cons] at longer
    omega
  next =>
    have longer := length_prependTypeHeaderAndLength_ge kIntegerTag
      ((skipZeros magnitude 0 magnitude.length).2)
      (prependBytes magnitude (skipped magnitude) (skipZeros magnitude 0 magnitude.length).2 data)
    omega

theorem length_prependInteger_ge (codec : PrivateKeyInfoCodec) (val data : List Byte) :
    data.length ≤ (codec.prependInteger val data).length := by
  have longer := length_prependMagnitude_ge (oriented codec.bigEndian val) data
  rw [prependInteger, prependIntegerImpl_oriented]
  omega

variable {codec : PrivateKeyInfoCodec}

theorem length_prependInteger_full {val : List Byte} (head : (oriented codec.bigEndian val).headD 0 ≠ 0)
    (data : List Byte) : val.length ≤ (codec.prependInteger val data).length := by
  have longer := length_prependMagnitude_ge (oriented codec.bigEndian val) data
  have kept : (skipZeros (oriented codec.bigEndian val) 0 (oriented codec.bigEndian val).length).2 = val.length := by
    rw [skipZeros, if_neg, length_oriented]
    intro both
    exact head (by rw [← both.2]; cases oriented codec.bigEndian val <;> rfl)
  rw [prependInteger, prependIntegerImpl_oriented]
  omega

theorem length_modulus_le (sized : codec.Sized) : codec.modulus.length ≤ codec.exportKey.length := by
  calc codec.modulus.length
    _ ≤ _ := length_prependInteger_full sized.mostSignificant _
    _ ≤ _ := length_prependInteger_ge codec [0] _
    _ ≤ _ := length_prependTypeHeaderAndLength_ge kSequenceTag _ _
    _ ≤ _ := length_prependTypeHeaderAndLength_ge kOctetStringTag _ _
    _ ≤ _ := (List.sublist_append_right kRsaAlgorithmIdentifier _).length_le
    _ ≤ _ := length_prependInteger_ge codec [0] _
    _ ≤ codec.exportKey.length := length_prependTypeHeaderAndLength_ge kSequenceTag _ _

/-- The bytes of all eight integers. -/
def total (codec : PrivateKeyInfoCodec) : Nat := (codec.integers.map List.length).sum

theorem encodable_of_small (sized : codec.Sized) (small : codec.total < 2 ^ 24 ∨ codec.exportKey.length < 2 ^ 24) :
    codec.Encodable := by
  have modulus : codec.modulus.length < 2 ^ 24 := by
    cases small with
    | inl small =>
      have member : codec.modulus.length ∈ codec.integers.map List.length := by simp [integers]
      exact Nat.lt_of_le_of_lt (List.le_sum_of_mem member) small
    | inr small => exact Nat.lt_of_le_of_lt (length_modulus_le sized) small
  have some' : 0 < codec.modulus.length := by
    rw [← length_oriented codec.bigEndian]
    apply List.length_pos_iff.mpr
    intro empty
    exact sized.mostSignificant (by rw [empty]; rfl)
  have even := sized.even
  have sizes : ∀ val ∈ codec.integers, 0 < val.length ∧ val.length < 2 ^ 25 := by
    intro val member
    simp only [integers, List.mem_cons, List.not_mem_nil, or_false] at member
    rcases member with rfl | rfl | rfl | rfl | rfl | rfl | rfl | rfl
    · omega
    · rw [sized.publicExponent]; decide
    · rw [sized.privateExponent]; omega
    · rw [sized.prime1]; omega
    · rw [sized.prime2]; omega
    · rw [sized.exponent1]; omega
    · rw [sized.exponent2]; omega
    · rw [sized.coefficient]; omega
  intro val member
  exact ⟨List.length_pos_iff.mp (sizes val member).1, (sizes val member).2⟩

end Size

/-- A key that was exported is imported as it was, in either byte order. -/
theorem importKey_exportKey {codec : PrivateKeyInfoCodec} (sized : codec.Sized)
    (small : codec.total < 2 ^ 24 ∨ codec.exportKey.length < 2 ^ 24) :
    (fresh codec.bigEndian).importKey codec.exportKey = .ok codec :=
  importKey_exportKey_of_encodable sized (encodable_of_small sized small)

/-- A little-endian key with zeros everywhere the sizes allow them. -/
def sparseKey : PrivateKeyInfoCodec where
  bigEndian := false
  modulus := [0, 0, 0, 0x84]
  publicExponent := [1, 0, 1, 0]
  privateExponent := [0, 0, 0, 0]
  prime1 := [0x80, 0]
  prime2 := [0, 0x80]
  exponent1 := [0, 0]
  exponent2 := [1, 0]
  coefficient := [0xff, 0xff]

theorem importKey_exportKey_sparseKey : (fresh false).importKey sparseKey.exportKey = .ok sparseKey := by
  have sized : sparseKey.Sized := ⟨rfl, by decide, rfl, rfl, rfl, rfl, rfl, rfl, rfl⟩
  exact importKey_exportKey sized (.inl (by decide))

end Libchrome.Crypto.PrivateKeyInfoCodec
