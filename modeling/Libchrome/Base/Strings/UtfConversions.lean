import Libchrome.Base.Strings.UnicodeCharacters
import Mathlib.Algebra.Order.BigOperators.Group.List
import Mathlib.Algebra.Order.Ring.Nat

/-! `UTF8ToUTF16` and `UTF16ToUTF8` (`utf_string_conversions.cc`), of any length that a `size_t` holds. -/

namespace Libchrome.Base.Strings
open Library.Bytes Library.TextEncoding Utf8 Json

/-- `static_cast<int32_t>` of a length; to a loop a negative length is as good as none. -/
def int32Length (length : Nat) : Nat := (BitVec.ofNat 32 length).toInt.toNat

/-- `ConvertUnicode`. -/
def convertUnicode {U V : Type} (read : (Nat → U) → Nat → Nat → Option Nat × Nat) (write : Nat → List V) (src : Nat → U)
    (srcLen : Nat) : List V × Bool :=
  let srcLen32 := int32Length srcLen
  scan (read src srcLen32) write 0xfffd srcLen32 srcLen32 0

/-- `IsStringASCII`, which ors all characters and looks for a bit above the seventh. -/
def isStringASCII {w : Nat} (str : List (BitVec w)) : Bool :=
  let allCharBits := str.foldl (fun bits character => bits ||| character) 0#w
  allCharBits &&& ~~~ 0x7f#w = 0#w

/-- The body of the two conversions. -/
def convert {w v : Nat} (read : (Nat → BitVec w) → Nat → Nat → Option Nat × Nat) (write : Nat → List (BitVec v))
    (src : List (BitVec w)) : List (BitVec v) × Bool :=
  if isStringASCII src then (src.map (BitVec.setWidth v), true)
  else convertUnicode read write (fun i => src.getD i 0) src.length

/-- `UTF8ToUTF16`: the output, and what it returns. -/
def utf8ToUtf16 (src : List Byte) : List Unit16 × Bool := convert readUnicodeCharacter writeUnicodeCharacter16 src

/-- `UTF16ToUTF8`. -/
def utf16ToUtf8 (src : List Unit16) : List Byte × Bool := convert readUnicodeCharacter16 writeUnicodeCharacter src

theorem int32Length_eq (length : Nat) :
    int32Length length = if length % 2 ^ 32 < 2 ^ 31 then length % 2 ^ 32 else 0 := by
  rw [int32Length, BitVec.toInt_eq_toNat_cond, BitVec.toNat_ofNat]
  split_ifs <;> omega

theorem int32Length_of_lt {length : Nat} (small : length < 2 ^ 31) : int32Length length = length := by
  rw [int32Length_eq]
  split_ifs <;> omega

theorem int32Length_le (length : Nat) : int32Length length ≤ length := by
  rw [int32Length_eq]
  split_ifs <;> omega

theorem int32Length_lt (length : Nat) : int32Length length < 2 ^ 31 := by
  rw [int32Length_eq]
  split_ifs <;> omega

/-! ### ASCII text -/

theorem and_not_eq_zero {w : Nat} (unit : BitVec w) : unit &&& ~~~ 0x7f#w = 0#w ↔ unit.toNat < 0x80 := by
  have low (i : Nat) : Nat.testBit 0x7f i = decide (i < 7) := Nat.testBit_two_pow_sub_one 7 i
  constructor
  · intro nothing
    apply Nat.lt_pow_two_of_testBit (n := 7)
    intro i high
    have bit := congrArg (fun bits => bits.getLsbD i) nothing
    simp only [BitVec.getLsbD_and, BitVec.getLsbD_not, BitVec.getLsbD_ofNat, low, Nat.zero_testBit, Bool.and_false,
      decide_eq_false (show ¬ i < 7 by omega), Bool.not_false, Bool.and_true] at bit
    by_contra set
    have isSet : unit.getLsbD i = true := Bool.eq_true_of_not_eq_false set
    rw [isSet, decide_eq_true (BitVec.lt_of_getLsbD isSet)] at bit
    cases bit
  · intro small
    apply BitVec.eq_of_getLsbD_eq
    intro i inside
    simp only [BitVec.getLsbD_and, BitVec.getLsbD_not, BitVec.getLsbD_ofNat, low, Nat.zero_testBit, Bool.and_false]
    by_cases high : i < 7
    · simp only [high, inside, decide_true, Bool.and_self, Bool.not_true, Bool.and_false]
    · have clear : unit.getLsbD i = false :=
        Nat.testBit_lt_two_pow (small.trans_le (Nat.pow_le_pow_right (show 2 > 0 by decide) (Nat.le_of_not_lt high)))
      rw [clear, Bool.false_and]

theorem isStringASCII_iff {w : Nat} (str : List (BitVec w)) :
    isStringASCII str = true ↔ ∀ unit ∈ str, unit.toNat < 0x80 := by
  have all (bits : BitVec w) : str.foldl (fun bits character => bits ||| character) bits &&& ~~~ 0x7f#w = 0#w ↔
      bits &&& ~~~ 0x7f#w = 0#w ∧ ∀ unit ∈ str, unit.toNat < 0x80 := by
    induction str generalizing bits with
    | nil => simp only [List.foldl_nil, List.not_mem_nil, false_implies, implies_true, and_true]
    | cons unit rest ih =>
      rw [List.foldl_cons, ih, BitVec.and_or_distrib_right, BitVec.or_eq_zero_iff, and_not_eq_zero unit,
        List.forall_mem_cons, and_assoc]
  rw [isStringASCII]
  simp only [decide_eq_true_eq, all, BitVec.zero_and, true_and]

theorem isStringASCII_map_setWidth {w v : Nat} {str : List (BitVec v)} (isASCII : isStringASCII str = true) :
    isStringASCII (str.map (BitVec.setWidth w)) = true := by
  rw [isStringASCII_iff] at isASCII ⊢
  intro unit member
  obtain ⟨original, inside, rfl⟩ := List.mem_map.mp member
  rw [BitVec.toNat_setWidth]
  exact (Nat.mod_le _ _).trans_lt (isASCII original inside)

theorem isStringASCII_take {w : Nat} {str : List (BitVec w)} (isASCII : isStringASCII str = true) (count : Nat) :
    isStringASCII (str.take count) = true := by
  rw [isStringASCII_iff] at isASCII ⊢
  exact fun unit member => isASCII unit (List.mem_of_mem_take member)

/-! ### One direction -/

/-- Reading one form and writing another, where ASCII characters are units of their own in both. -/
structure Codec {w v : Nat} (form : Form Nat (BitVec w)) (target : Form Nat (BitVec v))
    (read : (Nat → BitVec w) → Nat → Nat → Option Nat × Nat) (write : Nat → List (BitVec v)) : Prop where
  reads : Reads form read
  writes : ∀ c, form.valid c → write c = target.encode c
  sameCharacters : ∀ c, form.valid c ↔ target.valid c
  replacement : form.valid 0xfffd
  ascii : ∀ c < 0x80, form.valid c ∧ form.encode c = [BitVec.ofNat w c] ∧ target.encode c = [BitVec.ofNat v c]

namespace Codec

variable {w v : Nat} {form : Form Nat (BitVec w)} {target : Form Nat (BitVec v)}
  {read : (Nat → BitVec w) → Nat → Nat → Option Nat × Nat} {write : Nat → List (BitVec v)}
  (codec : Codec form target read write) {src : List (BitVec w)}

/-- What the loop of a conversion sees of a text. -/
def seen (src : List (BitVec w)) : List (BitVec w) := src.take (int32Length src.length)

theorem seen_of_short (short : src.length < 2 ^ 31) : seen src = src := by
  rw [seen, int32Length_of_lt short, List.take_length]

theorem length_seen (src : List (BitVec w)) : (seen src).length = int32Length src.length := by
  rw [seen, List.length_take, Nat.min_eq_left (int32Length_le src.length)]

theorem window_seen (src : List (BitVec w)) :
    window (fun i => src.getD i 0) 0 (int32Length src.length - 0) = seen src :=
  window_getD src 0 (int32Length_le src.length)

include codec

theorem flatMap_write {text : List Nat} (valid : ∀ c ∈ text, form.valid c) :
    text.flatMap write = text.flatMap target.encode :=
  List.flatMap_congr fun c member => codec.writes c (valid c member)

theorem convertUnicode_text {text : List Nat} (valid : ∀ c ∈ text, form.valid c) (held : seen src = text.flatMap form.encode) :
    convertUnicode read write (fun i => src.getD i 0) src.length = (text.flatMap target.encode, true) := by
  rw [convertUnicode, ← codec.flatMap_write valid]
  exact scan_flatMap codec.reads write 0xfffd valid (Nat.le_refl _) (Nat.zero_le _) ((window_seen src).trans held)

theorem wellFormed_of_convertUnicode
    (success : (convertUnicode read write (fun i => src.getD i 0) src.length).2 = true) : form.WellFormed (seen src) := by
  rw [← window_seen]
  exact wellFormed_of_scan codec.reads write 0xfffd (Nat.le_refl _) (Nat.zero_le _) success

theorem convertUnicode_wellFormed :
    target.WellFormed (convertUnicode read write (fun i => src.getD i 0) src.length).1 := by
  obtain ⟨text, valid, written⟩ := scan_writes codec.reads write 0xfffd codec.replacement
    (int32Length src.length) 0
  refine ⟨text, fun c member => (codec.sameCharacters c).mp (valid c member), ?_⟩
  rw [← codec.flatMap_write valid]
  exact written

section
variable (isASCII : isStringASCII src = true)
include isASCII

theorem valid_of_ascii : ∀ c ∈ src.map BitVec.toNat, form.valid c := by
  intro c member
  obtain ⟨unit, inside, rfl⟩ := List.mem_map.mp member
  exact (codec.ascii unit.toNat ((isStringASCII_iff src).mp isASCII unit inside)).1

theorem flatMap_encode_ascii :
    (src.map BitVec.toNat).flatMap form.encode = src := by
  rw [List.flatMap_map]
  calc src.flatMap (fun unit => form.encode unit.toNat)
      = src.flatMap (fun unit => [unit]) := List.flatMap_congr fun unit inside => by
        rw [(codec.ascii unit.toNat ((isStringASCII_iff src).mp isASCII unit inside)).2.1, BitVec.ofNat_toNat,
          BitVec.setWidth_eq]
    _ = src := List.flatMap_singleton' src

theorem flatMap_target_ascii :
    (src.map BitVec.toNat).flatMap target.encode = src.map (BitVec.setWidth v) := by
  rw [List.flatMap_map, List.map_eq_flatMap]
  exact List.flatMap_congr fun unit inside => by
    rw [(codec.ascii unit.toNat ((isStringASCII_iff src).mp isASCII unit inside)).2.2, BitVec.ofNat_toNat]

theorem wellFormed_of_ascii : form.WellFormed src :=
  ⟨_, codec.valid_of_ascii isASCII, (codec.flatMap_encode_ascii isASCII).symm⟩

end

theorem convert_text {text : List Nat} (valid : ∀ c ∈ text, form.valid c) (same : src = text.flatMap form.encode)
    (whole : seen src = src) : convert read write src = (text.flatMap target.encode, true) := by
  rw [convert]
  split
  next isASCII =>
    have known : src.map BitVec.toNat = text := text_eq codec.reads 0 0 (codec.valid_of_ascii isASCII) valid
      ((codec.flatMap_encode_ascii isASCII).trans same)
    rw [← codec.flatMap_target_ascii isASCII, known]
  next => exact codec.convertUnicode_text valid (whole.trans same)

theorem convert_wellFormed : target.WellFormed (convert read write src).1 := by
  rw [convert]
  split
  next isASCII =>
    refine ⟨src.map BitVec.toNat, ?_, (codec.flatMap_target_ascii isASCII).symm⟩
    intro c member
    exact (codec.sameCharacters c).mp (codec.valid_of_ascii isASCII c member)
  next => exact codec.convertUnicode_wellFormed

/-- Outside ASCII a conversion that succeeds has read what it has seen, and no more. -/
theorem exists_of_convert (notASCII : ¬ isStringASCII src = true) (success : (convert read write src).2 = true) :
    ∃ text : List Nat, (∀ c ∈ text, form.valid c) ∧ seen src = text.flatMap form.encode ∧
      convert read write src = (text.flatMap target.encode, true) := by
  rw [convert, if_neg notASCII] at success ⊢
  obtain ⟨text, valid, held⟩ := codec.wellFormed_of_convertUnicode success
  exact ⟨text, valid, held, codec.convertUnicode_text valid held⟩

end Codec

/-! ### There and back -/

/-- What a conversion should do with a text. -/
structure Converts {w v : Nat} (form : Form Nat (BitVec w)) (target : Form Nat (BitVec v))
    (read : (Nat → BitVec w) → Nat → Nat → Option Nat × Nat) (write : Nat → List (BitVec v))
    (back : List (BitVec v) → List (BitVec w) × Bool) (src : List (BitVec w)) : Prop where
  success : (convert read write src).2 = true ↔ form.WellFormed src
  thereAndBack : form.WellFormed src → back (convert read write src).1 = (src, true)
  repaired : ¬ form.WellFormed src → target.WellFormed (convert read write src).1
  fastPath : isStringASCII src = true →
    convertUnicode read write (fun i => src.getD i 0) src.length = convert read write src

/-- A text and its other form are short enough for `int32_t`, or what the loop sees of it is ill-formed as it is. -/
def Fits {w v : Nat} (form : Form Nat (BitVec w)) (target : Form Nat (BitVec v)) (src : List (BitVec w)) : Prop :=
  (src.length < 2 ^ 31 ∧ ∀ text : List Nat, (∀ c ∈ text, form.valid c) → src = text.flatMap form.encode →
    (text.flatMap target.encode).length < 2 ^ 31) ∨
  (¬ form.WellFormed src ∧ ¬ form.WellFormed (Codec.seen src))

theorem length_flatMap_le {α β γ : Type} {first : α → List β} {second : α → List γ} {items : List α}
    (atMost : ∀ item ∈ items, (first item).length ≤ (second item).length) :
    (items.flatMap first).length ≤ (items.flatMap second).length := by
  rw [List.length_flatMap, List.length_flatMap]
  exact List.sum_le_sum atMost

section Both

variable {w v : Nat} {form : Form Nat (BitVec w)} {target : Form Nat (BitVec v)}
  {read : (Nat → BitVec w) → Nat → Nat → Option Nat × Nat} {write : Nat → List (BitVec v)}
  {readBack : (Nat → BitVec v) → Nat → Nat → Option Nat × Nat} {writeBack : Nat → List (BitVec w)}
  (codec : Codec form target read write) (backCodec : Codec target form readBack writeBack)
  {src : List (BitVec w)}

include codec backCodec

theorem converts_of_fits (fits : Fits form target src) :
    Converts form target read write (convert readBack writeBack) src := by
  rcases fits with ⟨short, shortBack⟩ | ⟨ill, illSeen⟩
  · have whole := Codec.seen_of_short short
    constructor
    case success =>
      constructor
      · intro success
        by_cases isASCII : isStringASCII src = true
        · exact codec.wellFormed_of_ascii isASCII
        · obtain ⟨text, valid, held, _⟩ := codec.exists_of_convert isASCII success
          exact ⟨text, valid, whole.symm.trans held⟩
      · rintro ⟨text, valid, same⟩
        rw [codec.convert_text valid same whole]
    case thereAndBack =>
      rintro ⟨text, valid, same⟩
      have validBack : ∀ c ∈ text, target.valid c := fun c member => (codec.sameCharacters c).mp (valid c member)
      rw [codec.convert_text valid same whole,
        backCodec.convert_text validBack rfl (Codec.seen_of_short (shortBack text valid same)), ← same]
    case repaired => exact fun _ => codec.convert_wellFormed
    case fastPath =>
      intro isASCII
      have valid := codec.valid_of_ascii isASCII
      have held := codec.flatMap_encode_ascii isASCII
      rw [codec.convert_text valid held.symm whole, codec.convertUnicode_text valid (whole.trans held.symm)]
  · have notASCII : ¬ isStringASCII src = true := fun isASCII => ill (codec.wellFormed_of_ascii isASCII)
    constructor
    case success =>
      refine iff_of_false (fun success => ?_) ill
      obtain ⟨text, valid, held, _⟩ := codec.exists_of_convert notASCII success
      exact illSeen ⟨text, valid, held⟩
    case thereAndBack => exact fun wellFormed => absurd wellFormed ill
    case repaired => exact fun _ => codec.convert_wellFormed
    case fastPath => exact fun isASCII => absurd isASCII notASCII

theorem length_lt_of_thereAndBack {text : List Nat} (valid : ∀ c ∈ text, form.valid c)
    (same : src = text.flatMap form.encode) (short : src.length < 2 ^ 31)
    (thereAndBack : convert readBack writeBack (text.flatMap target.encode) = (src, true)) :
    (text.flatMap target.encode).length < 2 ^ 31 := by
  by_cases isASCII : isStringASCII (text.flatMap target.encode) = true
  · rw [convert, if_pos isASCII, Prod.mk.injEq] at thereAndBack
    have lengths := congrArg List.length thereAndBack.1
    rw [List.length_map] at lengths
    rwa [lengths]
  · obtain ⟨textBack, validBack, held, output⟩ := backCodec.exists_of_convert isASCII (congrArg Prod.snd thereAndBack)
    have written : src = textBack.flatMap form.encode := congrArg Prod.fst (thereAndBack.symm.trans output)
    have known : textBack = text := text_eq codec.reads 0 0
      (fun c member => (codec.sameCharacters c).mpr (validBack c member)) valid (written.symm.trans same)
    rw [known] at held
    rw [← held, Codec.length_seen]
    exact int32Length_lt _

/-- No text of a greater length is read back, since what is read back is no longer than what the loop has seen. -/
theorem not_wellFormed_of_converts
    (oneSide : (∀ c, form.valid c → (form.encode c).length ≤ (target.encode c).length) ∨
      (∀ c, form.valid c → (target.encode c).length ≤ (form.encode c).length))
    (long : 2 ^ 31 ≤ src.length) (converts : Converts form target read write (convert readBack writeBack) src) :
    ¬ form.WellFormed src := by
  intro wellFormed
  have shorter : int32Length src.length < src.length := (int32Length_lt _).trans_le long
  by_cases isASCII : isStringASCII src = true
  · have seenASCII : isStringASCII (Codec.seen src) = true := isStringASCII_take isASCII _
    have general := codec.convertUnicode_text (codec.valid_of_ascii seenASCII) (codec.flatMap_encode_ascii seenASCII).symm
    rw [codec.flatMap_target_ascii seenASCII, converts.fastPath isASCII, convert, if_pos isASCII, Prod.mk.injEq] at general
    have lengths := congrArg List.length general.1
    rw [List.length_map, List.length_map, Codec.length_seen] at lengths
    omega
  · obtain ⟨text, valid, held, output⟩ := codec.exists_of_convert isASCII (converts.success.mpr wellFormed)
    have thereAndBack := converts.thereAndBack wellFormed
    rw [output] at thereAndBack
    by_cases outputASCII : isStringASCII (text.flatMap target.encode) = true
    · rw [convert, if_pos outputASCII, Prod.mk.injEq] at thereAndBack
      exact isASCII (thereAndBack.1 ▸ isStringASCII_map_setWidth outputASCII)
    · obtain ⟨textBack, validBack, heldBack, outputBack⟩ :=
        backCodec.exists_of_convert outputASCII (congrArg Prod.snd thereAndBack)
      have written : src = textBack.flatMap form.encode := congrArg Prod.fst (thereAndBack.symm.trans outputBack)
      by_cases outputShort : (text.flatMap target.encode).length < 2 ^ 31
      · -- The output is read whole, so it is of what was seen only.
        rw [Codec.seen_of_short outputShort] at heldBack
        have known : text = textBack := text_eq backCodec.reads 0 0
          (fun c member => (codec.sameCharacters c).mp (valid c member)) validBack heldBack
        rw [← known, ← held] at written
        have lengths := congrArg List.length written
        rw [Codec.length_seen] at lengths
        omega
      · have seenLength := congrArg List.length held
        have outputLength := congrArg List.length heldBack
        rw [Codec.length_seen] at seenLength outputLength
        have seenShort := int32Length_lt src.length
        have outputSeen := int32Length_lt (text.flatMap target.encode).length
        rcases oneSide with grows | shrinks
        · have atMost := length_flatMap_le fun c member => grows c ((codec.sameCharacters c).mpr (validBack c member))
          rw [← written] at atMost
          omega
        · have atMost := length_flatMap_le fun c member => shrinks c (valid c member)
          omega

theorem fits_of_converts
    (oneSide : (∀ c, form.valid c → (form.encode c).length ≤ (target.encode c).length) ∨
      (∀ c, form.valid c → (target.encode c).length ≤ (form.encode c).length))
    (converts : Converts form target read write (convert readBack writeBack) src) : Fits form target src := by
  by_cases short : src.length < 2 ^ 31
  · refine .inl ⟨short, fun text valid same => ?_⟩
    have thereAndBack := converts.thereAndBack ⟨text, valid, same⟩
    rw [codec.convert_text valid same (Codec.seen_of_short short)] at thereAndBack
    exact length_lt_of_thereAndBack codec backCodec valid same short thereAndBack
  · have ill := not_wellFormed_of_converts codec backCodec oneSide (Nat.le_of_not_lt short) converts
    refine .inr ⟨ill, ?_⟩
    rintro ⟨text, valid, held⟩
    have notASCII : ¬ isStringASCII src = true := fun isASCII => ill (codec.wellFormed_of_ascii isASCII)
    apply ill
    rw [← converts.success, convert, if_neg notASCII, codec.convertUnicode_text valid held]

end Both

/-! ### Between UTF-8 and UTF-16 -/

theorem isValidChar_of_ascii {c : Nat} (small : c < 0x80) : c.isValidChar := .inl (by omega)

theorem isValidChar_replacement : Nat.isValidChar 0xfffd := by decide

theorem utf8_encode_ascii {c : Nat} (small : c < 0x80) : utf8.encode c = [BitVec.ofNat 8 c] := by
  rw [utf8_encode_eq (isValidChar_of_ascii small), cbu8Append, if_pos (by omega)]

theorem utf16_encode_ascii {c : Nat} (small : c < 0x80) : utf16.encode c = [BitVec.ofNat 16 c] :=
  utf16_encode_single (by omega)

theorem utf8Codec : Codec utf8 utf16 readUnicodeCharacter writeUnicodeCharacter16 where
  reads := readUnicodeCharacter_reads
  writes c _ := writeUnicodeCharacter16_eq c
  sameCharacters _ := Iff.rfl
  replacement := isValidChar_replacement
  ascii _ small := ⟨isValidChar_of_ascii small, utf8_encode_ascii small, utf16_encode_ascii small⟩

theorem utf16Codec : Codec utf16 utf8 readUnicodeCharacter16 writeUnicodeCharacter where
  reads := readUnicodeCharacter16_reads
  writes _ valid := writeUnicodeCharacter_eq valid
  sameCharacters _ := Iff.rfl
  replacement := isValidChar_replacement
  ascii _ small := ⟨isValidChar_of_ascii small, utf16_encode_ascii small, utf8_encode_ascii small⟩

/-- UTF-16 takes no more units than UTF-8. -/
theorem length_utf16_le {c : Nat} (valid : c.isValidChar) : (utf16.encode c).length ≤ (utf8.encode c).length := by
  rw [utf8_encode_eq valid, cbu8Append]
  by_cases plane : c < 0x10000
  · rw [utf16_encode_single plane]
    split_ifs
    all_goals simp only [List.length_cons, List.length_nil]
    all_goals omega
  · rw [utf16_encode_pair (by omega), if_neg (by omega), if_neg (by omega), if_neg (by omega)]
    simp only [List.length_cons, List.length_nil]
    omega

theorem fits_utf8_iff (src : List Byte) :
    Fits utf8 utf16 src ↔ src.length < 2 ^ 31 ∨ (¬ utf8.WellFormed src ∧ ¬ utf8.WellFormed (Codec.seen src)) := by
  refine or_congr_left (and_iff_left_of_imp ?_)
  rintro short text valid rfl
  exact (length_flatMap_le fun c member => length_utf16_le (valid c member)).trans_lt short

theorem utf8_converts_iff (src : List Byte) :
    Converts utf8 utf16 readUnicodeCharacter writeUnicodeCharacter16 utf16ToUtf8 src ↔
      src.length < 2 ^ 31 ∨ (¬ utf8.WellFormed src ∧ ¬ utf8.WellFormed (Codec.seen src)) := by
  rw [← fits_utf8_iff]
  constructor
  · exact fits_of_converts utf8Codec utf16Codec (.inr fun _ => length_utf16_le)
  · exact converts_of_fits utf8Codec utf16Codec

theorem utf16_converts_iff (src : List Unit16) :
    Converts utf16 utf8 readUnicodeCharacter16 writeUnicodeCharacter utf8ToUtf16 src ↔ Fits utf16 utf8 src := by
  constructor
  · exact fits_of_converts utf16Codec utf8Codec (.inl fun _ => length_utf16_le)
  · exact converts_of_fits utf16Codec utf8Codec

/-- `UTF8ToUTF16` and `UTF16ToUTF8` tell well-formed text from other text, undo each other and repair what they can not
read, of text whose length and whose other form's length fit `int32_t`, and otherwise only where what is seen of an
ill-formed text is ill-formed. -/
theorem utf_conversions_iff (bytes : List Byte) (units : List Unit16) :
    (Converts utf8 utf16 readUnicodeCharacter writeUnicodeCharacter16 utf16ToUtf8 bytes ↔
      bytes.length < 2 ^ 31 ∨ (¬ utf8.WellFormed bytes ∧ ¬ utf8.WellFormed (Codec.seen bytes))) ∧
    (Converts utf16 utf8 readUnicodeCharacter16 writeUnicodeCharacter utf8ToUtf16 units ↔ Fits utf16 utf8 units) :=
  ⟨utf8_converts_iff bytes, utf16_converts_iff units⟩

theorem wellFormed_replicate (count : Nat) :
    utf8.WellFormed ([0xc3, 0xa9] ++ List.replicate count (0x61 : Byte)) := by
  refine ⟨0xe9 :: List.replicate count 0x61, ?_, ?_⟩
  · intro c member
    rcases List.mem_cons.mp member with rfl | later
    · exact .inl (by decide)
    · rw [List.eq_of_mem_replicate later]
      exact isValidChar_of_ascii (by decide)
  · rw [List.flatMap_cons, List.flatMap_replicate, utf8_encode_ascii (show 0x61 < 0x80 by decide),
      List.flatten_replicate_singleton]
    rfl

/-- The length of two gibibytes is negative as `int32_t`: the conversion succeeds and writes nothing. -/
theorem utf8ToUtf16_twoGibibytes :
    utf8.WellFormed ([0xc3, 0xa9] ++ List.replicate (2 ^ 31 - 2) (0x61 : Byte)) ∧
      utf8ToUtf16 ([0xc3, 0xa9] ++ List.replicate (2 ^ 31 - 2) (0x61 : Byte)) = ([], true) ∧
      ¬ Converts utf8 utf16 readUnicodeCharacter writeUnicodeCharacter16 utf16ToUtf8
        ([0xc3, 0xa9] ++ List.replicate (2 ^ 31 - 2) (0x61 : Byte)) := by
  generalize size : 2 ^ 31 - 2 = count
  have wellFormed := wellFormed_replicate count
  have notASCII : ¬ isStringASCII ([0xc3, 0xa9] ++ List.replicate count (0x61 : Byte)) = true := by
    rw [isStringASCII_iff]
    intro low
    exact absurd (low 0xc3 List.mem_cons_self) (by decide)
  have length : ([0xc3, 0xa9] ++ List.replicate count (0x61 : Byte)).length = 2 ^ 31 := by
    rw [List.length_append, List.length_replicate, ← size]
    rfl
  refine ⟨wellFormed, ?_, ?_⟩
  · rw [utf8ToUtf16, convert, if_neg notASCII, convertUnicode, length]
    rfl
  · rw [utf8_converts_iff, length]
    rintro (short | ⟨ill, _⟩)
    · exact absurd short (by decide)
    · exact ill wellFormed

end Libchrome.Base.Strings
