import Libchrome.Base.Strings.PatternMatching
import Libchrome.Base.Strings.Utf8Truncation

/-! `MatchPattern` of UTF-8 and of UTF-16. -/

namespace Libchrome.Base.Strings.Pattern
open Library.Bytes Library.TextEncoding Library.Globbing Utf8

/-! ### UTF-8 -/

theorem skipTrails_le (s : Nat → Byte) (count i : Nat) : skipTrails s count i ≤ i + count := by
  induction count generalizing i with
  | zero => exact le_rfl
  | succ count ih =>
    rw [skipTrails]
    split
    next => exact (ih (i + 1)).trans_eq (by omega)
    next => exact Nat.le_add_right _ _

variable {c : Nat}

theorem lead_of_encoded {s : Nat → Byte} {i : Nat} (valid : isValidCodepoint c = true) (encoded : Encoded s i c)
    (multi : 0x80 ≤ c) : isLead (s i).toNat = true ∧ countTrailBytes (s i).toNat + 1 = (cbu8Append c).length := by
  have small := le_of_isValidCodepoint valid
  rw [isLead_iff, length_cbu8Append, countTrailBytes]
  rw [Encoded] at encoded
  split_ifs at encoded with one two three
  · omega
  · rw [if_neg one, if_pos two, if_neg (by omega), if_pos (by omega)]
    omega
  · rw [if_neg one, if_neg two, if_pos three, if_neg (by omega), if_neg (by omega), if_pos (by omega)]
    omega
  · rw [if_neg one, if_neg two, if_neg three, if_neg (by omega), if_neg (by omega), if_neg (by omega),
      if_pos (by omega)]
    omega

theorem encoded_append (valid : c.isValidChar) (rest : List Byte) : Encoded (reader (utf8.encode c ++ rest)) 0 c := by
  have small := le_of_isValidCodepoint ((isValidCodepoint_iff_isValidChar c).mpr valid)
  rw [encoded_iff small, utf8_encode_eq valid, slice_eq_take (holds_reader _) (by rw [List.length_append]; omega),
    List.take_left]

theorem nextCharUTF8_read (valid : c.isValidChar) (rest : List Byte)
    (room : c < 0x80 ∨ (utf8.encode c).length ≤ int32Length (utf8.encode c ++ rest).length) :
    nextCharUTF8.read (utf8.encode c ++ rest) = ((c : Int), rest) := by
  have encoded := encoded_append valid rest
  have next : cbu8Next (reader (utf8.encode c ++ rest)) 0 (int32Length (utf8.encode c ++ rest).length) =
      ((c : Int), (utf8.encode c).length) := by
    by_cases single : c < 0x80
    · rw [Encoded, if_pos (by omega)] at encoded
      rw [cbu8Next_single (by omega), encoded, utf8_encode_ascii single]
      rfl
    · have covers := room.resolve_left single
      rw [utf8_encode_eq valid] at encoded covers ⊢
      rw [cbu8Next_of_encoded ((isValidCodepoint_iff_isValidChar c).mpr valid) encoded (by omega), Nat.zero_add]
  rw [nextCharUTF8]
  dsimp only
  rw [next, List.drop_left]

theorem nextCharUTF8_cut (valid : c.isValidChar) (rest : List Byte) (multi : 0x80 ≤ c)
    (cut : int32Length (utf8.encode c ++ rest).length < (utf8.encode c).length) :
    ∃ units, units <:+ (utf8.encode c).tail ∧
      nextCharUTF8.read (utf8.encode c ++ rest) = (sentinel, units ++ rest) := by
  have encoded := encoded_append valid rest
  obtain ⟨lead, count⟩ := lead_of_encoded ((isValidCodepoint_iff_isValidChar c).mpr valid) encoded multi
  rw [← utf8_encode_eq valid] at count
  have leads := (isLead_iff _).mp lead
  have stops := skipTrails_le (reader (utf8.encode c ++ rest)) (int32Length (utf8.encode c ++ rest).length - 1) 1
  have starts := le_skipTrails (reader (utf8.encode c ++ rest)) (int32Length (utf8.encode c ++ rest).length - 1) 1
  have next : cbu8Next (reader (utf8.encode c ++ rest)) 0 (int32Length (utf8.encode c ++ rest).length) =
      (sentinel, skipTrails (reader (utf8.encode c ++ rest)) (int32Length (utf8.encode c ++ rest).length - 1) 1) := by
    rw [cbu8Next, if_pos (by omega), if_pos lead, nextCharSafeBody, if_neg (by omega)]
  rw [nextCharUTF8]
  dsimp only
  rw [next]
  generalize skipTrails _ _ 1 = index at starts stops ⊢
  refine ⟨(utf8.encode c).drop index, ?_, ?_⟩
  · rw [show index = index - 1 + 1 by omega, ← List.drop_tail]
    exact List.drop_suffix _ _
  · rw [List.drop_append_of_le_length (by omega)]

theorem utf8_decodes : Decodes utf8 nextCharUTF8 (fun byte => isTrail byte = true) where
  character c rest valid := by
    by_cases room : c < 0x80 ∨ (utf8.encode c).length ≤ int32Length (utf8.encode c ++ rest).length
    · exact .inl (nextCharUTF8_read valid rest room)
    · rw [not_or, not_lt, not_le] at room
      exact .inr (nextCharUTF8_cut valid rest room.1 room.2)
  inside unit rest trail := by
    obtain ⟨low, high⟩ := (isTrail_iff unit).mp trail
    have notLead : isLead unit.toNat = false := by
      rw [← Bool.not_eq_true, isLead_iff]
      omega
    have next (length : Nat) : cbu8Next (reader (unit :: rest)) 0 length = (sentinel, 1) := by
      have first : reader (unit :: rest) 0 = unit := rfl
      rw [cbu8Next, first, if_pos low, if_neg (by rw [notLead]; exact Bool.false_ne_true)]
    rw [nextCharUTF8]
    dsimp only
    rw [next]
    refine ⟨rfl, fun c _ same => ?_⟩
    simp only [sentinel] at same
    omega
  tail c unit valid member := by
    rw [utf8_encode_eq valid] at member
    exact isTrail_of_mem_tail ((isValidCodepoint_iff_isValidChar c).mpr valid) member
  ascii c small := utf8_encode_ascii small
  head c unit units valid same a small is_ := by
    have value : unit.toNat = a := by
      rw [is_, BitVec.toNat_ofNat]
      omega
    rw [← value]
    exact eq_of_mem_utf8 valid (by rw [same]; exact List.mem_cons_self) (by omega)

variable {text : List Nat}

theorem utf8_readable (valid : Valid utf8 text) (short : (text.flatMap utf8.encode).length < 2 ^ 31) :
    Readable utf8 nextCharUTF8 text := by
  intro c rest suffix
  have fewer := (@flatMap_suffix 8 utf8 _ _ suffix).length_le
  rw [List.flatMap_cons] at fewer
  apply nextCharUTF8_read (valid c (suffix.subset List.mem_cons_self))
  rw [int32Length_of_lt (by omega), List.length_append]
  exact .inr (Nat.le_add_right _ _)

/-! ### UTF-16 -/

theorem isLead16_iff (c : Nat) : isLead16 c = true ↔ 0xd800 ≤ c ∧ c < 0xdc00 := by
  simp only [isLead16, decide_eq_true_eq]
  omega

theorem nextCharUTF16_read (valid : c.isValidChar) (rest : List Unit16) :
    nextCharUTF16.read (utf16.encode c ++ rest) = ((c : Int), rest) := by
  have bounds := (isValidCodepoint_iff c).mp ((isValidCodepoint_iff_isValidChar c).mpr valid)
  by_cases plane : c < 0x10000
  · have first : (BitVec.ofNat 16 c).toNat = c := (unit_eq plane).mp rfl
    have single : ¬ isLead16 c = true := by
      rw [isLead16_iff]
      omega
    have here : reader16 (BitVec.ofNat 16 c :: rest) 0 = BitVec.ofNat 16 c := rfl
    rw [utf16_encode_single plane, nextCharUTF16, List.singleton_append]
    dsimp only
    rw [cbu16Next, here, first, if_neg fun all => single all.1]
    rfl
  · have high : (BitVec.ofNat 16 (0xd800 + (c - 0x10000) / 0x400)).toNat = 0xd800 + (c - 0x10000) / 0x400 :=
      (unit_eq (by omega)).mp rfl
    have low : (BitVec.ofNat 16 (0xdc00 + (c - 0x10000) % 0x400)).toNat = 0xdc00 + (c - 0x10000) % 0x400 :=
      (unit_eq (by omega)).mp rfl
    have lead : isLead16 (0xd800 + (c - 0x10000) / 0x400) = true := (isLead16_iff _).mpr (by omega)
    have trail : isTrail16 (0xdc00 + (c - 0x10000) % 0x400) = true := (isTrail16_iff _).mpr (by omega)
    have value : getSupplementary (0xd800 + (c - 0x10000) / 0x400) (0xdc00 + (c - 0x10000) % 0x400) = c := by
      rw [getSupplementary, surrogateOffset]
      omega
    rw [utf16_encode_pair (by omega), nextCharUTF16]
    generalize BitVec.ofNat 16 (0xd800 + (c - 0x10000) / 0x400) = leadUnit at high
    generalize BitVec.ofNat 16 (0xdc00 + (c - 0x10000) % 0x400) = trailUnit at low
    have here : reader16 ([leadUnit, trailUnit] ++ rest) 0 = leadUnit := rfl
    have second : reader16 ([leadUnit, trailUnit] ++ rest) (0 + 1) = trailUnit := rfl
    dsimp only
    have inside : 0 + 1 < ([leadUnit, trailUnit] ++ rest).length := by
      rw [List.length_append, List.length_cons, List.length_singleton]
      omega
    rw [cbu16Next, here, second, high, low, if_pos ⟨lead, inside, trail⟩, value]
    rfl

theorem utf16_decodes : Decodes utf16 nextCharUTF16 (fun unit => isTrail16 unit.toNat = true) where
  character c rest valid := .inl (nextCharUTF16_read valid rest)
  inside unit rest trail := by
    have bounds := (isTrail16_iff _).mp trail
    have single : ¬ isLead16 unit.toNat = true := by
      rw [isLead16_iff]
      omega
    have here : reader16 (unit :: rest) 0 = unit := rfl
    rw [nextCharUTF16]
    dsimp only
    rw [cbu16Next, here, if_neg fun all => single all.1]
    refine ⟨rfl, fun c valid same => ?_⟩
    have notSurrogate := (isValidCodepoint_iff c).mp ((isValidCodepoint_iff_isValidChar c).mpr valid)
    have equal := Int.ofNat.inj same
    omega
  tail c unit valid member := by
    by_cases plane : c < 0x10000
    · rw [utf16_encode_single plane] at member
      cases member
    · rw [utf16_encode_pair (by omega)] at member
      rw [List.mem_singleton.mp member, isTrail16_iff, BitVec.toNat_ofNat]
      omega
  ascii c small := utf16_encode_ascii small
  head c unit units valid same a small is_ := by
    have value : unit.toNat = a := by
      rw [is_, BitVec.toNat_ofNat]
      omega
    have bounds := (isValidCodepoint_iff c).mp ((isValidCodepoint_iff_isValidChar c).mpr valid)
    by_cases plane : c < 0x10000
    · rw [utf16_encode_single plane] at same
      rw [← (List.cons.inj same).1, BitVec.toNat_ofNat] at value
      omega
    · rw [utf16_encode_pair (by omega)] at same
      rw [← (List.cons.inj same).1, BitVec.toNat_ofNat] at value
      omega

theorem utf16_readable (valid : Valid utf16 text) : Readable utf16 nextCharUTF16 text :=
  fun c _ suffix => nextCharUTF16_read (valid c (suffix.subset List.mem_cons_self)) _

/-! ### Both -/

/-- Whatever `MatchPattern` accepts is matched by the pattern. With at most 16 wildcards it accepts all that is; of
UTF-8, when the lengths fit `int32_t`. -/
theorem matchPattern_glob (eval pattern : List Nat) (validEval : ∀ c ∈ eval, c.isValidChar)
    (validPattern : ∀ c ∈ pattern, c.isValidChar) :
    ((matchPattern nextCharUTF8 (eval.flatMap utf8.encode) (pattern.flatMap utf8.encode) = true →
        eval ∈ glob pattern) ∧
      (wildcards pattern ≤ 16 → (eval.flatMap utf8.encode).length < 2 ^ 31 →
        (pattern.flatMap utf8.encode).length < 2 ^ 31 →
          (matchPattern nextCharUTF8 (eval.flatMap utf8.encode) (pattern.flatMap utf8.encode) = true ↔
            eval ∈ glob pattern))) ∧
    ((matchPattern nextCharUTF16 (eval.flatMap utf16.encode) (pattern.flatMap utf16.encode) = true →
        eval ∈ glob pattern) ∧
      (wildcards pattern ≤ 16 →
        (matchPattern nextCharUTF16 (eval.flatMap utf16.encode) (pattern.flatMap utf16.encode) = true ↔
          eval ∈ glob pattern))) := by
  have sound8 : matchPattern nextCharUTF8 (eval.flatMap utf8.encode) (pattern.flatMap utf8.encode) = true →
      eval ∈ glob pattern := fun matched =>
    (utf8_decodes.matchPatternT_sound (kMaxDepth + 1) validPattern validEval
      (fun _ member => absurd member List.not_mem_nil) matched).matches_
  have sound16 : matchPattern nextCharUTF16 (eval.flatMap utf16.encode) (pattern.flatMap utf16.encode) = true →
      eval ∈ glob pattern := fun matched =>
    (utf16_decodes.matchPatternT_sound (kMaxDepth + 1) validPattern validEval
      (fun _ member => absurd member List.not_mem_nil) matched).matches_
  refine ⟨⟨sound8, fun few short shortPattern => ⟨sound8, fun matches_ => ?_⟩⟩,
    ⟨sound16, fun few => ⟨sound16, fun matches_ => ?_⟩⟩⟩
  · exact utf8_decodes.matchPatternT_complete (kMaxDepth + 1) validPattern validEval
      (utf8_readable validPattern shortPattern) (utf8_readable validEval short) matches_ (Nat.lt_succ_of_le few)
  · exact utf16_decodes.matchPatternT_complete (kMaxDepth + 1) validPattern validEval (utf16_readable validPattern)
      (utf16_readable validEval) matches_ (Nat.lt_succ_of_le few)

theorem matchPattern_glob_hello :
    matchPattern nextCharUTF8 ([0x48, 0xE9].flatMap utf8.encode) ([0x48, 0x3F, 0x3F].flatMap utf8.encode) = true ∧
      [0x48, 0xE9] ∈ glob [0x48, 0x3F, 0x3F] := by
  have matched := (matchPattern_glob [0x48, 0xE9] [0x48, 0x3F, 0x3F] (by decide) (by decide)).1.2 (by decide)
    (by decide) (by decide)
  have accepts : matchPattern nextCharUTF8 ([0x48, 0xE9].flatMap utf8.encode) ([0x48, 0x3F, 0x3F].flatMap utf8.encode) =
      true := by decide +kernel
  exact ⟨accepts, matched.mp accepts⟩

/-- The pieces of a pattern in which a backslash escapes wildcards only. -/
def piecesEscapingWildcards : List Nat → List (Piece Nat)
  | [] => []
  | [c] => [piece c]
  | c :: other :: pattern =>
    if c = 0x5C ∧ wild other = true then .char other :: piecesEscapingWildcards pattern
    else piece c :: piecesEscapingWildcards (other :: pattern)

/-- Nothing matches a pattern whose first character is not covered by the length as `int32_t`. -/
theorem matchPattern_of_cut {rest : List Nat} (valid : c.isValidChar) (multi : 0x80 ≤ c)
    (cut : int32Length ((c :: rest).flatMap utf8.encode).length < (utf8.encode c).length) {eval : List Byte}
    (some_ : eval ≠ []) : matchPattern nextCharUTF8 eval ((c :: rest).flatMap utf8.encode) = false := by
  have literal : (none : Option (List Byte)) = none → wild c = false ∧ c ≠ 0x5C := fun _ =>
    ⟨decide_eq_false (by omega), by omega⟩
  obtain ⟨units, _, same⟩ := nextCharUTF8_cut valid (rest.flatMap utf8.encode) multi cut
  have eaten : eatSameChars nextCharUTF8 none ((c :: rest).flatMap utf8.encode) eval =
      ((c :: rest).flatMap utf8.encode, eval) := by
    rw [List.flatMap_cons, utf8_decodes.eatSameChars_compare valid literal _ some_, same, if_neg fun both => both.2 rfl]
    rfl
  obtain ⟨unit, others, is_⟩ := @exists_unit 8 utf8 c valid
  have notQuestion : ((c :: rest).flatMap utf8.encode).head? ≠ some 0x3F := by
    rw [List.flatMap_cons, is_, List.cons_append, List.head?_cons, Ne, Option.some.injEq]
    exact mt (utf8_decodes.unit_eq valid is_ (by decide)).mp (show c ≠ 0x3F by omega)
  have notStar : ((c :: rest).flatMap utf8.encode).head? ≠ some 0x2A := by
    rw [List.flatMap_cons, is_, List.cons_append, List.head?_cons, Ne, Option.some.injEq]
    exact mt (utf8_decodes.unit_eq valid is_ (by decide)).mp (show c ≠ 0x2A by omega)
  rw [matchPattern, matchPatternT, eaten, if_neg some_, if_neg notQuestion, if_neg notStar, ite_self]

theorem mem_glob_self (literal : ∀ c ∈ text, wild c = false ∧ c ≠ 0x5C) : text ∈ glob text := by
  induction text with
  | nil => exact mem_glob_nil.mpr rfl
  | cons c text ih =>
    obtain ⟨wildcard, escape⟩ := literal c List.mem_cons_self
    exact (mem_glob_literal escape wildcard).mpr
      ⟨text, ih fun other member => literal other (List.mem_cons_of_mem c member), rfl⟩

theorem wildcards_eq_zero (literal : ∀ c ∈ text, wild c = false ∧ c ≠ 0x5C) : wildcards text = 0 := by
  induction text with
  | nil => rfl
  | cons c text ih =>
    obtain ⟨wildcard, escape⟩ := literal c List.mem_cons_self
    rw [wildcards_literal escape wildcard]
    exact ih fun other member => literal other (List.mem_cons_of_mem c member)

/-- A backslash makes a letter stand for itself too, and stands for nothing at the end of a pattern; and a text of two
gibibytes does not match itself. -/
theorem matchPattern_differs :
    (¬ ∀ eval pattern : List Nat, (∀ c ∈ eval, c.isValidChar) → (∀ c ∈ pattern, c.isValidChar) →
      matchPattern nextCharUTF8 (eval.flatMap utf8.encode) (pattern.flatMap utf8.encode) = true →
        eval ∈ language (piecesEscapingWildcards pattern)) ∧
    (¬ ∀ eval pattern : List Nat, (∀ c ∈ eval, c.isValidChar) → (∀ c ∈ pattern, c.isValidChar) →
      wildcards pattern ≤ 16 → eval ∈ language (piecesEscapingWildcards pattern) →
        matchPattern nextCharUTF8 (eval.flatMap utf8.encode) (pattern.flatMap utf8.encode) = true) ∧
    ¬ ∀ eval pattern : List Nat, (∀ c ∈ eval, c.isValidChar) → (∀ c ∈ pattern, c.isValidChar) →
      wildcards pattern ≤ 16 → eval ∈ glob pattern →
        matchPattern nextCharUTF8 (eval.flatMap utf8.encode) (pattern.flatMap utf8.encode) = true := by
  refine ⟨fun sound => ?_, fun complete => ?_, fun complete => ?_⟩
  · have letter := sound [0x61] [0x5C, 0x61] (by decide) (by decide) (by decide +kernel)
    obtain ⟨rest, _, same⟩ := mem_char.mp letter
    cases same
  · have accepts := complete [0x5C] [0x5C] (by decide) (by decide) (by decide) (mem_char.mpr ⟨[], mem_nil.mpr rfl, rfl⟩)
    exact absurd accepts (by decide +kernel)
  · obtain ⟨count, size⟩ : ∃ count, 2 ^ 31 - 2 = count := ⟨_, rfl⟩
    have each (c : Nat) (member : c ∈ 0xE9 :: List.replicate count 0x61) : c = 0xE9 ∨ c = 0x61 :=
      (List.mem_cons.mp member).imp_right List.eq_of_mem_replicate
    have valid : ∀ c ∈ 0xE9 :: List.replicate count 0x61, c.isValidChar := by
      intro c member
      rcases each c member with rfl | rfl
      · decide
      · decide
    have literal : ∀ c ∈ 0xE9 :: List.replicate count 0x61, wild c = false ∧ c ≠ 0x5C := by
      intro c member
      rcases each c member with rfl | rfl
      · decide
      · decide
    have lead : utf8.encode 0xE9 = [0xC3, 0xA9] := by decide
    have length : ((0xE9 :: List.replicate count 0x61).flatMap utf8.encode).length = 2 ^ 31 := by
      rw [List.flatMap_cons, List.flatMap_replicate, utf8_encode_ascii (show 0x61 < 0x80 by decide),
        List.flatten_replicate_singleton, lead, List.length_append, List.length_replicate, ← size]
      rfl
    have cut : int32Length ((0xE9 :: List.replicate count 0x61).flatMap utf8.encode).length <
        (utf8.encode 0xE9).length := by
      rw [length, lead]
      decide
    have some_ : (0xE9 :: List.replicate count 0x61).flatMap utf8.encode ≠ [] :=
      List.append_ne_nil_of_left_ne_nil (utf8.encode_ne_nil 0xE9 (valid 0xE9 List.mem_cons_self)) _
    have none : wildcards (0xE9 :: List.replicate count 0x61) ≤ 16 :=
      (wildcards_eq_zero literal).trans_le (Nat.zero_le _)
    have accepts := complete _ _ valid valid none (mem_glob_self literal)
    rw [matchPattern_of_cut (by decide) (by decide) cut some_] at accepts
    cases accepts

end Libchrome.Base.Strings.Pattern
