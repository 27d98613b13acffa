import Libchrome.Base.Strings.ReplaceChars
import Libchrome.Library.Base64

/-! Base64url (`base64url.cc`, `base64.cc`). -/

namespace Libchrome.Base
open Strings Library Bytes Searching

/-- The encoder and the decoder of `modp_b64`. -/
structure ModpB64 where
  encode : List Byte → List Byte
  decode : List Byte → Option (List Byte)

/-- What `modp_b64` promises. -/
structure ModpB64.Rfc4648 (modp : ModpB64) : Prop where
  encode_eq : ∀ bytes, modp.encode bytes = Base64.encode bytes
  decode_encode : ∀ bytes, modp.decode (Base64.encode bytes) = some bytes

inductive Base64UrlEncodePolicy where
  | INCLUDE_PADDING
  | OMIT_PADDING
  deriving DecidableEq, Repr

inductive Base64UrlDecodePolicy where
  | REQUIRE_PADDING
  | IGNORE_PADDING
  | DISALLOW_PADDING
  deriving DecidableEq, Repr

/-- The decode policies that take what an encode policy writes. -/
def Base64UrlDecodePolicy.Accepts : Base64UrlDecodePolicy → Base64UrlEncodePolicy → Prop
  | .REQUIRE_PADDING, encodePolicy => encodePolicy = .INCLUDE_PADDING
  | .IGNORE_PADDING, _ => True
  | .DISALLOW_PADDING, encodePolicy => encodePolicy = .OMIT_PADDING

def kPaddingChar : Byte := 0x3d

/-- `"+/"`. -/
def kBase64Chars : List Byte := [0x2b, 0x2f]

/-- `"-_"`. -/
def kBase64UrlSafeChars : List Byte := [0x2d, 0x5f]

variable (modp : ModpB64)

def base64Encode (input : List Byte) : List Byte := modp.encode input

def base64Decode (input : List Byte) : Option (List Byte) := modp.decode input

def base64UrlEncode (input : List Byte) (policy : Base64UrlEncodePolicy) : List Byte :=
  let output := base64Encode modp input
  let output := (replaceCharsT output [0x2b] [0x2d]).2
  let output := (replaceCharsT output [0x2f] [0x5f]).2
  match policy with
  | .INCLUDE_PADDING => output
  | .OMIT_PADDING =>
    match findLastNotOf output [kPaddingChar] with
    | some last_non_padding_pos => output.take (last_non_padding_pos + 1)
    | none => output

/-- `resize`. -/
def resize (text : List Byte) (size : Nat) (c : Byte) : List Byte :=
  text.take size ++ List.replicate (size - text.length) c

/-- The policy's own check. -/
def Base64UrlDecodePolicy.fails (policy : Base64UrlDecodePolicy) (input : List Byte) : Bool :=
  match policy with
  | .REQUIRE_PADDING => input.length % 4 > 0
  | .IGNORE_PADDING => false
  | .DISALLOW_PADDING => (findFirstOf input [kPaddingChar] 0).isSome

def base64UrlDecode (input : List Byte) (policy : Base64UrlDecodePolicy) : Option (List Byte) :=
  if (findFirstOf input kBase64Chars 0).isSome then none
  else
    let required_padding_characters := input.length % 4
    let needs_replacement := (findFirstOf input kBase64UrlSafeChars 0).isSome
    if policy.fails input then none
    else if required_padding_characters > 0 ∨ needs_replacement then
      -- The sum of `ValueOrDie` fits a `size_t`: a string is never that long.
      let base64_input_size :=
        if required_padding_characters > 0 then input.length + (4 - required_padding_characters) else input.length
      let base64_input := (replaceCharsT input [0x2d] [0x2b]).2
      let base64_input := (replaceCharsT base64_input [0x5f] [0x2f]).2
      base64Decode modp (resize base64_input base64_input_size kPaddingChar)
    else base64Decode modp input

/-! ### Characters -/

def swap (old new c : Byte) : Byte := if c = old then new else c

theorem replaceCharsT_one (old new : Byte) (text : List Byte) :
    (replaceCharsT text [old] [new]).2 = text.map (swap old new) := by
  rw [replaceCharsT_eq]
  induction text with
  | nil => rfl
  | cons c text ih =>
    simp only [List.flatMap_cons, List.map_cons] at ih ⊢
    rw [ih, swap]
    by_cases same : c = old
    · simp [same]
    · simp [same]

def toUrl (c : Byte) : Byte := swap 0x2f 0x5f (swap 0x2b 0x2d c)

def fromUrl (c : Byte) : Byte := swap 0x5f 0x2f (swap 0x2d 0x2b c)

/-- `[A-Za-z0-9_-]`. -/
def UrlCharacter (c : Byte) : Prop :=
  (0x41 ≤ c ∧ c ≤ 0x5a) ∨ (0x61 ≤ c ∧ c ≤ 0x7a) ∨ (0x30 ≤ c ∧ c ≤ 0x39) ∨ c = 0x5f ∨ c = 0x2d

instance (c : Byte) : Decidable (UrlCharacter c) := by
  unfold UrlCharacter
  infer_instance

theorem urlCharacter_toUrl (value : BitVec 6) : UrlCharacter (toUrl (Base64.digit value)) := by
  revert value
  decide +kernel

theorem fromUrl_toUrl (value : BitVec 6) : fromUrl (toUrl (Base64.digit value)) = Base64.digit value := by
  revert value
  decide +kernel

theorem UrlCharacter.not_base64 {c : Byte} (url : UrlCharacter c) : c ∉ kBase64Chars ∧ c ≠ kPaddingChar := by
  revert c
  decide +kernel

/-- The characters of the encoding, without padding. -/
def urlDigits (bytes : List Byte) : List Byte := (Base64.digits bytes).map toUrl

theorem urlCharacter_of_mem {bytes : List Byte} {c : Byte} (member : c ∈ urlDigits bytes) : UrlCharacter c := by
  obtain ⟨old, within, rfl⟩ := List.mem_map.mp member
  obtain ⟨value, rfl⟩ := Base64.exists_digit_of_mem within
  exact urlCharacter_toUrl value

theorem map_fromUrl_urlDigits (bytes : List Byte) : (urlDigits bytes).map fromUrl = Base64.digits bytes := by
  calc (urlDigits bytes).map fromUrl
    _ = (Base64.digits bytes).map fun c => fromUrl (toUrl c) := List.map_map
    _ = (Base64.digits bytes).map fun c => c := by
      apply List.map_congr_left
      intro c member
      obtain ⟨value, rfl⟩ := Base64.exists_digit_of_mem member
      exact fromUrl_toUrl value
    _ = Base64.digits bytes := List.map_id' _

theorem urlDigits_length (bytes : List Byte) : (urlDigits bytes).length = (Base64.digits bytes).length :=
  List.length_map _

/-! ### Encoding -/

variable {modp}

/-- A policy pads the encoding up to a multiple of four characters, or not at all. -/
def Base64UrlEncodePolicy.padding (policy : Base64UrlEncodePolicy) (bytes : List Byte) : Nat :=
  match policy with
  | .INCLUDE_PADDING => Base64.missing (urlDigits bytes).length
  | .OMIT_PADDING => 0

theorem take_findLastNotOf {text : List Byte} (count : Nat) (unpadded : ∀ c ∈ text, c ≠ kPaddingChar)
    (some_ : text ≠ []) :
    ∃ last, findLastNotOf (text ++ List.replicate count kPaddingChar) [kPaddingChar] = some last ∧
      (text ++ List.replicate count kPaddingChar).take (last + 1) = text := by
  have positive : 0 < text.length := List.length_pos_iff.mpr some_
  apply Exists.intro (text.length - 1)
  apply And.intro
  · apply highest_eq_some_iff.mpr
    apply And.intro
    · rw [List.length_append]
      omega
    apply And.intro
    · have inside : text.length - 1 < text.length := by omega
      have other := unpadded _ (List.getElem_mem inside)
      rw [List.getElem?_append_left inside, List.getElem?_eq_getElem inside]
      simp [other]
    · intro j after before
      rw [List.length_append, List.length_replicate] at before
      rw [List.getElem?_append_right (by omega), List.getElem?_replicate, if_pos (by omega), Option.any_some]
      rfl
  · have whole : text.length - 1 + 1 = text.length := by omega
    rw [whole, List.take_left' rfl]

theorem base64UrlEncode_eq (rfc : modp.Rfc4648) (bytes : List Byte) (policy : Base64UrlEncodePolicy) :
    base64UrlEncode modp bytes policy =
      urlDigits bytes ++ List.replicate (policy.padding bytes) kPaddingChar := by
  have output : (replaceCharsT (replaceCharsT (base64Encode modp bytes) [0x2b] [0x2d]).2 [0x2f] [0x5f]).2 =
      urlDigits bytes ++ List.replicate (Base64.missing (urlDigits bytes).length) kPaddingChar := by
    rw [replaceCharsT_one, replaceCharsT_one, List.map_map, base64Encode, rfc.encode_eq, Base64.encode, List.map_append,
      List.map_replicate, urlDigits_length]
    rfl
  unfold base64UrlEncode
  dsimp only
  rw [output]
  cases policy with
  | INCLUDE_PADDING => rfl
  | OMIT_PADDING =>
    dsimp only [Base64UrlEncodePolicy.padding]
    rw [List.replicate_zero, List.append_nil]
    by_cases empty : urlDigits bytes = []
    · rw [empty]
      rfl
    · obtain ⟨last, found, taken⟩ := take_findLastNotOf (Base64.missing (urlDigits bytes).length)
        (fun c member => (urlCharacter_of_mem member).not_base64.2) empty
      rw [found]
      exact taken

/-! ### Decoding -/

theorem base64UrlDecode_of_base64 {input : List Byte} {c : Byte} (member : c ∈ input) (forbidden : c ∈ kBase64Chars)
    (policy : Base64UrlDecodePolicy) : base64UrlDecode modp input policy = none := by
  have found : (findFirstOf input kBase64Chars 0).isSome = true := by
    rw [isSome_findFirstOf, List.any_eq_true]
    exact ⟨c, member, List.contains_iff_mem.mpr forbidden⟩
  rw [base64UrlDecode, if_pos found]

theorem base64UrlDecode_of_fails {input : List Byte} {policy : Base64UrlDecodePolicy} (fails : policy.fails input = true) :
    base64UrlDecode modp input policy = none := by
  rw [base64UrlDecode]
  dsimp only
  rw [if_pos fails, ite_self]

theorem base64UrlDecode_eq {input : List Byte} {policy : Base64UrlDecodePolicy}
    (allowed : ∀ c ∈ input, c ∉ kBase64Chars) (passes : policy.fails input = false) :
    base64UrlDecode modp input policy =
      modp.decode (input.map fromUrl ++ List.replicate (Base64.missing input.length) kPaddingChar) := by
  have unfound : ¬(findFirstOf input kBase64Chars 0).isSome = true := by
    rw [isSome_findFirstOf, List.any_eq_true]
    rintro ⟨c, member, forbidden⟩
    exact allowed c member (List.contains_iff_mem.mp forbidden)
  rw [base64UrlDecode, if_neg unfound]
  dsimp only
  rw [if_neg (Bool.eq_false_iff.mp passes)]
  split
  next =>
    have length : (if input.length % 4 > 0 then input.length + (4 - input.length % 4) else input.length) =
        input.length + Base64.missing input.length := by
      rw [Base64.missing]
      split <;> omega
    rw [length, replaceCharsT_one, replaceCharsT_one, List.map_map, resize, List.length_map, Nat.add_sub_cancel_left,
      List.take_of_length_le (by rw [List.length_map]; exact Nat.le_add_right _ _)]
    rfl
  next plain =>
    obtain ⟨aligned, safe⟩ := not_or.mp plain
    have whole : Base64.missing input.length = 0 := by
      rw [Base64.missing]
      omega
    have same : input.map fromUrl = input := by
      calc input.map fromUrl
        _ = input.map fun c => c := by
          apply List.map_congr_left
          intro c member
          rw [isSome_findFirstOf, List.any_eq_true] at safe
          have other : c ∉ kBase64UrlSafeChars :=
            fun found => safe ⟨c, member, List.contains_iff_mem.mpr found⟩
          simp only [kBase64UrlSafeChars, List.mem_cons, List.not_mem_nil, or_false, not_or] at other
          rw [fromUrl, swap, swap, if_neg other.1, if_neg other.2]
        _ = input := List.map_id' _
    rw [whole, same, List.replicate_zero, List.append_nil]
    rfl

theorem replicate_padding (bytes : List Byte) (policy : Base64UrlEncodePolicy) :
    List.replicate (policy.padding bytes) kPaddingChar ++ List.replicate
      (Base64.missing (urlDigits bytes ++ List.replicate (policy.padding bytes) kPaddingChar).length) kPaddingChar =
      List.replicate (Base64.missing (Base64.digits bytes).length) kPaddingChar := by
  rw [List.replicate_append_replicate, List.length_append, List.length_replicate, ← urlDigits_length]
  congr 1
  cases policy with
  | INCLUDE_PADDING =>
    simp only [Base64UrlEncodePolicy.padding, Base64.missing]
    omega
  | OMIT_PADDING => simp only [Base64UrlEncodePolicy.padding, Nat.add_zero, Nat.zero_add]

/-- A decode policy does not refuse what an encode policy that it accepts writes. -/
theorem Base64UrlDecodePolicy.Accepts.passes {decodePolicy : Base64UrlDecodePolicy}
    {encodePolicy : Base64UrlEncodePolicy} (accepts : decodePolicy.Accepts encodePolicy) (bytes : List Byte) :
    decodePolicy.fails (urlDigits bytes ++ List.replicate (encodePolicy.padding bytes) kPaddingChar) = false := by
  cases decodePolicy with
  | REQUIRE_PADDING =>
    subst accepts
    have aligned : (urlDigits bytes ++ List.replicate (Base64.missing (urlDigits bytes).length) kPaddingChar).length % 4 =
        0 := by
      rw [List.length_append, List.length_replicate, Base64.missing]
      omega
    simp only [fails, Base64UrlEncodePolicy.padding, aligned]
    rfl
  | IGNORE_PADDING => rfl
  | DISALLOW_PADDING =>
    subst accepts
    rw [fails, isSome_findFirstOf, List.any_eq_false]
    intro c member
    rw [Base64UrlEncodePolicy.padding, List.replicate_zero, List.append_nil] at member
    rw [List.contains_iff_mem, List.mem_singleton]
    exact (urlCharacter_of_mem member).not_base64.2

theorem mem_encoding {bytes : List Byte} {count : Nat} {c : Byte}
    (member : c ∈ urlDigits bytes ++ List.replicate count kPaddingChar) : UrlCharacter c ∨ c = kPaddingChar :=
  (List.mem_append.mp member).imp urlCharacter_of_mem List.eq_of_mem_replicate

theorem base64UrlDecode_encoding (rfc : modp.Rfc4648) (bytes : List Byte) {encodePolicy : Base64UrlEncodePolicy}
    {decodePolicy : Base64UrlDecodePolicy} (accepts : decodePolicy.Accepts encodePolicy) :
    base64UrlDecode modp (urlDigits bytes ++ List.replicate (encodePolicy.padding bytes) kPaddingChar) decodePolicy =
      some bytes := by
  have allowed : ∀ c ∈ urlDigits bytes ++ List.replicate (encodePolicy.padding bytes) kPaddingChar,
      c ∉ kBase64Chars := by
    intro c member
    rcases mem_encoding member with url | rfl
    · exact url.not_base64.1
    · decide
  rw [base64UrlDecode_eq allowed (accepts.passes bytes), List.map_append, map_fromUrl_urlDigits, List.map_replicate]
  change modp.decode (Base64.digits bytes ++ List.replicate (encodePolicy.padding bytes) kPaddingChar ++ _) = _
  rw [List.append_assoc, replicate_padding]
  exact rfc.decode_encode bytes

/-- What is encoded under one policy is decoded under every policy that accepts it. The encoding keeps to the
base64url alphabet and the padding, and characters or padding that are not allowed make decoding fail. -/
theorem base64Url_correct (modp : ModpB64) (rfc : modp.Rfc4648) :
    (∀ (bytes : List Byte) (encodePolicy : Base64UrlEncodePolicy) (decodePolicy : Base64UrlDecodePolicy),
      decodePolicy.Accepts encodePolicy →
      base64UrlDecode modp (base64UrlEncode modp bytes encodePolicy) decodePolicy = some bytes) ∧
    (∀ (bytes : List Byte) (policy : Base64UrlEncodePolicy), ∀ c ∈ base64UrlEncode modp bytes policy,
      UrlCharacter c ∨ c = kPaddingChar) ∧
    (∀ (input : List Byte) (policy : Base64UrlDecodePolicy),
      0x2b ∈ input ∨ 0x2f ∈ input ∨ (policy = .DISALLOW_PADDING ∧ kPaddingChar ∈ input) →
      base64UrlDecode modp input policy = none) := by
  apply And.intro
  · intro bytes encodePolicy decodePolicy accepts
    rw [base64UrlEncode_eq rfc]
    exact base64UrlDecode_encoding rfc bytes accepts
  apply And.intro
  · intro bytes policy c member
    rw [base64UrlEncode_eq rfc] at member
    exact mem_encoding member
  · rintro input policy (plus | slash | ⟨rfl, padded⟩)
    · exact base64UrlDecode_of_base64 plus (by decide) policy
    · exact base64UrlDecode_of_base64 slash (by decide) policy
    · apply base64UrlDecode_of_fails
      rw [Base64UrlDecodePolicy.fails, isSome_findFirstOf, List.any_eq_true]
      exact ⟨kPaddingChar, padded, by decide⟩

/-- The reference encoder and decoder. -/
def ModpB64.reference : ModpB64 where
  encode := Base64.encode
  decode := Base64.decode

theorem ModpB64.reference_rfc4648 : ModpB64.reference.Rfc4648 where
  encode_eq _ := rfl
  decode_encode := Base64.decode_encode

theorem base64Url_correct_reference :
    base64UrlDecode .reference (base64UrlEncode .reference [0xfb, 0xff] .OMIT_PADDING) .IGNORE_PADDING =
      some [0xfb, 0xff] :=
  (base64Url_correct .reference ModpB64.reference_rfc4648).1 [0xfb, 0xff] .OMIT_PADDING .IGNORE_PADDING trivial

end Libchrome.Base
