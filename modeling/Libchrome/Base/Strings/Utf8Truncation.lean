import Libchrome.Base.Utf8
import Libchrome.Library.TextEncoding

/-! `TruncateUTF8ToByteSize` (`string_util.cc`), and the texts that `IsStringUTF8` accepts. -/

namespace Libchrome.Base.Strings
open Library.Bytes Library.TextEncoding Utf8

/-- The loop of `TruncateUTF8ToByteSize`, which moves backwards from the truncation point: the index behind the first
character that it finds. -/
def scanBack (data : Nat → Byte) (truncationLength : Nat) : Nat → Option Nat
  | 0 => none
  | prev + 1 =>
    let (codePoint, charIndex) := cbu8Next data prev truncationLength
    if !isValidCharacter codePoint || !isValidCodepoint codePoint.toNat then scanBack data truncationLength prev
    else some charIndex

/-- `TruncateUTF8ToByteSize`. -/
def truncateUTF8ToByteSize (input : List Byte) (byteSize : Nat) : List Byte :=
  if input.length < byteSize then input
  else
    let truncationLength : Int := (BitVec.ofNat 32 byteSize).toInt
    match scanBack (reader input) truncationLength.toNat truncationLength.toNat with
    | some charIndex => input.take charIndex
    | none => []

/-! ### The texts that `IsStringUTF8` accepts -/

/-- The valid characters and their bytes. -/
def characterForm : Form Nat Byte where
  valid c := isValidCharacter c = true
  encode := cbu8Append
  encode_ne_nil c _ := by
    rw [← List.length_pos_iff, length_cbu8Append]
    split_ifs <;> decide

variable {rest : List Byte}

theorem wellFormed_of_append (text : List Nat) (valid : ∀ c ∈ text, isValidCharacter c = true)
    (wellFormed : characterForm.WellFormed (text.flatMap cbu8Append ++ rest)) : characterForm.WellFormed rest := by
  induction text with
  | nil => exact wellFormed
  | cons c text ih =>
    obtain ⟨whole, validWhole, same⟩ := wellFormed
    have validFirst := valid c List.mem_cons_self
    rw [List.flatMap_cons, List.append_assoc] at same
    cases whole with
    | nil => exact absurd (List.append_eq_nil_iff.mp same).1 (characterForm.encode_ne_nil c validFirst)
    | cons d whole =>
      have first := decodeFirst_append validFirst (text.flatMap cbu8Append ++ rest)
      rw [same] at first
      have second := decodeFirst_append (validWhole d List.mem_cons_self) (whole.flatMap cbu8Append)
      have both : (d, whole.flatMap cbu8Append) = (c, text.flatMap cbu8Append ++ rest) :=
        Option.some.inj (second.symm.trans first)
      obtain ⟨_, tails⟩ := Prod.mk.inj both
      exact ih (fun other member => valid other (List.mem_cons_of_mem c member))
        ⟨whole, fun other member => validWhole other (List.mem_cons_of_mem d member), tails.symm⟩

theorem eq_of_prefix {c d : Nat} (valid : isValidCharacter c = true) (validOther : isValidCharacter d = true)
    (starts : cbu8Append d <+: cbu8Append c ++ rest) : d = c := by
  obtain ⟨more, same⟩ := starts
  have first := decodeFirst_append validOther more
  rw [same, decodeFirst_append valid rest] at first
  exact (Prod.mk.inj (Option.some.inj first)).1.symm

theorem holds_behind {s : Nat → Byte} {i : Nat} {front : List Byte} (holds : Holds s i (front ++ rest)) :
    Holds s (i + front.length) rest := by
  intro k inside
  have same := holds (front.length + k) (by rw [List.length_append]; omega)
  rw [List.getElem_append_right (Nat.le_add_right _ _)] at same
  simpa only [Nat.add_sub_cancel_left, Nat.add_assoc] using same

theorem wellFormed_append_iff {c : Nat} (valid : isValidCharacter c = true) (rest : List Byte) :
    characterForm.WellFormed (cbu8Append c ++ rest) ↔ characterForm.WellFormed rest := by
  constructor
  · intro wellFormed
    apply wellFormed_of_append [c] (fun other member => by rwa [List.mem_singleton.mp member])
    rwa [List.flatMap_cons, List.flatMap_nil, List.append_nil]
  · rintro ⟨text, validText, rfl⟩
    exact ⟨c :: text, List.forall_mem_cons.mpr ⟨valid, validText⟩, List.flatMap_cons.symm⟩

theorem isStringUTF8From_iff (bytes : List Byte) (fuel charIndex : Nat) (rest : List Byte)
    (holds : Holds (reader bytes) charIndex rest) (fits : charIndex + rest.length = bytes.length)
    (enough : rest.length ≤ fuel) :
    isStringUTF8From bytes fuel charIndex = true ↔ characterForm.WellFormed rest := by
  have empty : characterForm.WellFormed [] := ⟨[], List.forall_mem_nil _, rfl⟩
  induction fuel generalizing charIndex rest with
  | zero =>
    rw [List.length_eq_zero_iff.mp (Nat.le_zero.mp enough)]
    exact iff_of_true rfl empty
  | succ fuel ih =>
    rw [isStringUTF8From]
    split
    next inside =>
      have more : rest ≠ [] := List.ne_nil_of_length_pos (by omega)
      have decoded := decodeFirst_of_holds holds fits inside
      by_cases valid : isValidCharacter (cbu8Next (reader bytes) charIndex bytes.length).1 = true
      · obtain ⟨c, next, _, _, room⟩ := exists_of_cbu8Next inside (nonneg_of_isValidCharacter valid)
        rw [if_pos valid, next] at decoded
        obtain ⟨validFirst, front⟩ := eq_append_of_decodeFirst decoded more
        rw [Int.toNat_natCast] at validFirst front
        rw [Nat.add_sub_cancel_left] at front
        have positive := List.length_pos_iff.mpr (characterForm.encode_ne_nil c validFirst)
        rw [next] at valid ⊢
        simp only [valid, Bool.true_and]
        rw [front] at holds fits enough ⊢
        rw [List.length_append] at fits enough
        rw [wellFormed_append_iff validFirst]
        exact ih _ _ (holds_behind holds) (by omega) (by change 0 < (cbu8Append c).length at positive; omega)
      · rw [if_neg valid] at decoded
        simp only [Bool.eq_false_iff.mpr valid, Bool.false_and, Bool.false_eq_true, false_iff]
        rintro ⟨text, validText, rfl⟩
        cases text with
        | nil => exact more rfl
        | cons c text =>
          have starts := decodeFirst_append (validText c List.mem_cons_self) (text.flatMap cbu8Append)
          cases decoded.symm.trans starts
    next atEnd =>
      rw [List.length_eq_zero_iff.mp (show rest.length = 0 by omega)]
      exact iff_of_true rfl empty

/-- `IsStringUTF8` accepts the encodings of valid characters. -/
theorem isStringUTF8_iff (bytes : List Byte) : isStringUTF8 bytes = true ↔ characterForm.WellFormed bytes :=
  isStringUTF8From_iff bytes bytes.length 0 bytes (holds_reader bytes) (Nat.zero_add _) le_rfl

/-! ### The scan finds the last boundary -/

variable {data : Nat → Byte} {length : Nat}

theorem scanBack_skip {low high : Nat} (below : low ≤ high)
    (invalid : ∀ prev, low ≤ prev → prev < high → isValidCharacter (cbu8Next data prev length).1 = false) :
    scanBack data length high = scanBack data length low := by
  induction high, below using Nat.le_induction with
  | base => rfl
  | succ high below ih =>
    rw [scanBack]
    simp only [invalid high below (Nat.lt_succ_self high), Bool.not_false, Bool.true_or, if_true]
    exact ih fun prev above under => invalid prev above (under.trans (Nat.lt_succ_self high))

/-- The bytes of a character behind its first one are trail bytes. -/
theorem isTrail_of_mem_tail {c : Nat} (valid : isValidCodepoint c = true) {byte : Byte} (member : byte ∈ (cbu8Append c).tail) :
    isTrail byte = true := by
  have small := le_of_isValidCodepoint valid
  have value {part : Nat} (fits : part < 256) : (BitVec.ofNat 8 part).toNat = part := Nat.mod_eq_of_lt fits
  rw [isTrail_iff]
  rw [cbu8Append] at member
  split at member
  next => cases member
  next =>
    split_ifs at member
    all_goals
      simp only [List.tail_cons, List.mem_cons, List.not_mem_nil, or_false] at member
      rcases member with rfl | rfl | rfl
      all_goals
        rw [value (by omega)]
        omega

theorem invalid_of_isTrail {prev : Nat} (trail : isTrail (data prev) = true) :
    isValidCharacter (cbu8Next data prev length).1 = false := by
  obtain ⟨low, high⟩ := (isTrail_iff _).mp trail
  have notLead : isLead (data prev).toNat = false := by
    rw [← Bool.not_eq_true, isLead_iff]
    omega
  rw [cbu8Next]
  simp only [if_pos low, notLead]
  rfl

theorem invalid_inside {data : Nat → Byte} {start prev length c : Nat} {rest : List Byte}
    (valid : isValidCharacter c = true) (holds : Holds data start (cbu8Append c ++ rest)) (above : start < prev)
    (below : prev < start + (cbu8Append c).length) : isValidCharacter (cbu8Next data prev length).1 = false := by
  apply invalid_of_isTrail
  obtain ⟨byte, trails, bytes⟩ := List.exists_cons_of_ne_nil (characterForm.encode_ne_nil c valid)
  change cbu8Append c = byte :: trails at bytes
  have trail := fun byte => @isTrail_of_mem_tail c (isValidCodepoint_of_isValidCharacter valid) byte
  rw [bytes] at holds below trail
  rw [List.length_cons] at below
  rw [List.cons_append] at holds
  have inside : prev - (start + 1) < trails.length := by omega
  have held := holds.tail (prev - (start + 1)) (by rw [List.length_append]; omega)
  rw [Nat.add_sub_cancel' above] at held
  rw [held]
  apply trail
  rw [List.tail_cons, List.getElem_append_left inside]
  exact List.getElem_mem inside

theorem invalid_cut {start c : Nat} (valid : isValidCharacter c = true)
    (holds : Holds data start (cbu8Append c ++ rest)) (inside : start < length)
    (cut : length < start + (cbu8Append c).length) : isValidCharacter (cbu8Next data start length).1 = false := by
  by_contra validOther
  rw [Bool.not_eq_false] at validOther
  obtain ⟨d, next, codepoint, encoded, room⟩ := exists_of_cbu8Next inside (nonneg_of_isValidCharacter validOther)
  rw [next] at validOther
  have held := (encoded_iff (le_of_isValidCodepoint codepoint)).mp encoded
  rw [slice_eq_take holds (by rw [List.length_append]; omega)] at held
  have same := eq_of_prefix valid validOther (held ▸ List.take_prefix _ _)
  rw [same] at room
  omega

theorem scanBack_boundary {data : Nat → Byte} {length : Nat} {text : List Nat}
    (valid : ∀ c ∈ text, isValidCharacter c = true) {rest : List Byte} (holds : Holds data 0 (text.flatMap cbu8Append ++ rest))
    (inside : (text.flatMap cbu8Append).length ≤ length) :
    scanBack data length (text.flatMap cbu8Append).length = if text = [] then none else some (text.flatMap cbu8Append).length := by
  induction text using List.reverseRecOn with
  | nil => rfl
  | append_singleton front last ih =>
    rw [if_neg (by simp)]
    have validLast := valid last (List.mem_append_right _ List.mem_cons_self)
    have codepoint := isValidCodepoint_of_isValidCharacter validLast
    have positive := List.length_pos_iff.mpr (characterForm.encode_ne_nil last validLast)
    change 0 < (cbu8Append last).length at positive
    rw [List.flatMap_append, List.flatMap_cons, List.flatMap_nil, List.append_nil] at holds inside ⊢
    rw [List.length_append] at inside ⊢
    have there : Holds data (front.flatMap cbu8Append).length (cbu8Append last ++ rest) := by
      rw [List.append_assoc] at holds
      simpa only [Nat.zero_add] using holds_behind holds
    have back := scanBack_skip (show (front.flatMap cbu8Append).length + 1 ≤ _ by omega)
      fun prev above below => @invalid_inside data _ prev length last rest validLast there above below
    rw [back]
    have encoded : Encoded data (front.flatMap cbu8Append).length last := by
      rw [encoded_iff (le_of_isValidCodepoint codepoint), slice_eq_take there (by rw [List.length_append]; omega),
        List.take_left]
    rw [scanBack, cbu8Next_of_encoded codepoint encoded inside]
    simp only [validLast, Int.toNat_natCast, codepoint, Bool.not_true, Bool.or_self, Bool.false_eq_true, if_false]

theorem exists_boundary (text : List Nat) (length : Nat) :
    ∃ front back : List Nat, text = front ++ back ∧ (front.flatMap cbu8Append).length ≤ length ∧
      ∀ c rest, back = c :: rest → length < (front.flatMap cbu8Append).length + (cbu8Append c).length := by
  induction text generalizing length with
  | nil => exact ⟨[], [], rfl, Nat.zero_le _, fun c rest same => by cases same⟩
  | cons c text ih =>
    by_cases room : (cbu8Append c).length ≤ length
    · obtain ⟨front, back, same, inside, cut⟩ := ih (length - (cbu8Append c).length)
      refine ⟨c :: front, back, by rw [same]; rfl, ?_, fun d rest starts => ?_⟩
      · rw [List.flatMap_cons, List.length_append]
        omega
      · rw [List.flatMap_cons, List.length_append]
        have further := cut d rest starts
        omega
    · refine ⟨[], c :: text, rfl, Nat.zero_le _, fun d rest starts => ?_⟩
      cases starts
      rw [List.flatMap_nil, List.length_nil]
      omega

theorem scanBack_cut {front back : List Nat} (valid : ∀ c ∈ front ++ back, isValidCharacter c = true)
    (holds : Holds data 0 ((front ++ back).flatMap cbu8Append)) (inside : (front.flatMap cbu8Append).length ≤ length)
    (within : length ≤ ((front ++ back).flatMap cbu8Append).length)
    (cut : ∀ c rest, back = c :: rest → length < (front.flatMap cbu8Append).length + (cbu8Append c).length) :
    scanBack data length length = scanBack data length (front.flatMap cbu8Append).length := by
  apply scanBack_skip inside
  intro prev above below
  rw [List.flatMap_append] at holds within
  cases back with
  | nil =>
    rw [List.flatMap_nil, List.append_nil] at within
    omega
  | cons c rest =>
    have validNext := valid c (List.mem_append_right _ List.mem_cons_self)
    have there := holds_behind holds
    have short := cut c rest rfl
    rw [Nat.zero_add, List.flatMap_cons] at there
    rcases above.eq_or_lt with rfl | above
    · exact invalid_cut validNext there below short
    · exact invalid_inside validNext there above (below.trans short)

theorem length_le_boundary {front back : List Nat} (valid : ∀ c ∈ front ++ back, isValidCharacter c = true)
    (cut : ∀ c rest, back = c :: rest → length < (front.flatMap cbu8Append).length + (cbu8Append c).length)
    {start : List Byte} (starts : start <+: (front ++ back).flatMap cbu8Append) (short : start.length ≤ length)
    (wellFormed : characterForm.WellFormed start) : start.length ≤ (front.flatMap cbu8Append).length := by
  by_contra longer
  rw [not_le] at longer
  rw [List.flatMap_append] at starts
  obtain ⟨more, rfl⟩ : front.flatMap cbu8Append <+: start :=
    List.prefix_of_prefix_length_le (List.prefix_append _ _) starts longer.le
  have rest := wellFormed_of_append front (fun c member => valid c (List.mem_append_left _ member)) wellFormed
  rw [List.prefix_append_right_inj] at starts
  rw [List.length_append] at longer short
  obtain ⟨text, validText, rfl⟩ := rest
  cases text with
  | nil => exact absurd longer (lt_irrefl _)
  | cons d text =>
    cases back with
    | nil =>
      have none := List.prefix_nil.mp starts
      exact characterForm.encode_ne_nil d (validText d List.mem_cons_self) (List.append_eq_nil_iff.mp none).1
    | cons c rest =>
      have validNext := valid c (List.mem_append_right _ List.mem_cons_self)
      have same : d = c := by
        apply eq_of_prefix validNext (validText d List.mem_cons_self)
        exact (List.prefix_append _ _).trans starts
      have further := cut c rest rfl
      rw [same, List.flatMap_cons, List.length_append] at short
      change _ + ((cbu8Append c).length + _) ≤ _ at short
      omega

theorem toInt_ofNat_of_le {byteSize : Nat} (small : byteSize ≤ 2 ^ 31 - 1) : (BitVec.ofNat 32 byteSize).toInt = byteSize := by
  rw [BitVec.toInt_ofNat', Int.bmod_eq_of_le]
  all_goals omega

end Libchrome.Base.Strings
