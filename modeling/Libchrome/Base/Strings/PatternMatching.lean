import Libchrome.Base.Strings.Pattern

/-! `MatchPattern` decides the language of the pattern, in any encoding form that `NEXT` reads. -/

namespace Libchrome.Base.Strings.Pattern
open Library.TextEncoding Library.Globbing Utf8

variable {w : Nat}

/-- What `NEXT` does in text of a form: it reads a character, or gives up inside of it; no character starts inside of
another one. -/
structure Decodes (form : Form Nat (BitVec w)) (next : Next w) (trail : BitVec w → Prop) : Prop where
  character : ∀ c rest, form.valid c → next.read (form.encode c ++ rest) = ((c : Int), rest) ∨
    ∃ units, units <:+ (form.encode c).tail ∧ next.read (form.encode c ++ rest) = (sentinel, units ++ rest)
  inside : ∀ unit rest, trail unit → (next.read (unit :: rest)).2 = rest ∧
    ∀ c, form.valid c → (next.read (unit :: rest)).1 ≠ (c : Int)
  tail : ∀ c unit, form.valid c → unit ∈ (form.encode c).tail → trail unit
  ascii : ∀ c, c < 0x80 → form.encode c = [BitVec.ofNat w c]
  head : ∀ c unit units, form.valid c → form.encode c = unit :: units →
    ∀ a < 0x80, unit = BitVec.ofNat w a → c = a

/-- Each character of the text is read. -/
def Readable (form : Form Nat (BitVec w)) (next : Next w) (text : List Nat) : Prop :=
  ∀ c rest, c :: rest <:+ text →
    next.read (form.encode c ++ rest.flatMap form.encode) = ((c : Int), rest.flatMap form.encode)

theorem Readable.suffix {form : Form Nat (BitVec w)} {next : Next w} {text rest : List Nat}
    (readable : Readable form next text) (suffix : rest <:+ text) : Readable form next rest :=
  fun c behind isSuffix => readable c behind (isSuffix.trans suffix)

/-- All characters are of the form. -/
def Valid (form : Form Nat (BitVec w)) (text : List Nat) : Prop := ∀ c ∈ text, form.valid c

theorem Valid.suffix {form : Form Nat (BitVec w)} {text rest : List Nat} (valid : Valid form text)
    (suffix : rest <:+ text) : Valid form rest :=
  fun c member => valid c (suffix.subset member)

section Matching
variable {form : Form Nat (BitVec w)} {next : Next w} {trail : BitVec w → Prop} (decodes : Decodes form next trail)
variable {pattern text : List Nat} {units : List (BitVec w)}

theorem exists_unit {c : Nat} (valid : form.valid c) : ∃ unit units, form.encode c = unit :: units :=
  List.exists_cons_of_ne_nil (form.encode_ne_nil c valid)

theorem flatMap_eq_nil (valid : Valid form text) : text.flatMap form.encode = [] ↔ text = [] := by
  cases text with
  | nil => exact iff_of_true rfl rfl
  | cons c text =>
    obtain ⟨unit, units, same⟩ := exists_unit (valid c List.mem_cons_self)
    rw [List.flatMap_cons, same]
    exact iff_of_false (List.cons_ne_nil _ _) (List.cons_ne_nil _ _)

include decodes

variable {c : Nat}

theorem Decodes.unit_eq {a : Nat} {unit : BitVec w} (valid : form.valid c) (same : form.encode c = unit :: units)
    (small : a < 0x80) : unit = BitVec.ofNat w a ↔ c = a := by
  constructor
  · exact decodes.head c unit units valid same a small
  · rintro rfl
    exact (List.cons.inj (same.symm.trans (decodes.ascii c small))).1

theorem Decodes.isWildcard_eq {unit : BitVec w} (valid : form.valid c) (same : form.encode c = unit :: units) :
    isWildcard unit = wild c :=
  decide_eq_decide.mpr (or_congr (decodes.unit_eq valid same (by decide)) (decodes.unit_eq valid same (by decide)))

/-- A character of ASCII is passed over, whether it is read or not. -/
theorem Decodes.read_ascii (valid : form.valid c) (small : c < 0x80) (rest : List (BitVec w)) :
    (next.read (form.encode c ++ rest)).2 = rest := by
  rcases decodes.character c rest valid with same | ⟨others, suffix, same⟩
  · rw [same]
  · rw [decodes.ascii c small, List.tail_cons, List.suffix_nil] at suffix
    rw [same, suffix, List.nil_append]

omit decodes in
theorem small_of_wild (wildcard : wild c = true) : c < 0x80 := by
  rcases of_decide_eq_true wildcard with rfl | rfl
  · decide
  · decide

/-! ### `EatSameChars` -/

omit decodes in
theorem eatSameChars_done (escape : Option (List (BitVec w))) (units : List (BitVec w)) :
    eatSameChars next escape units [] = (units, []) := by
  cases units with
  | nil => rw [eatSameChars]
  | cons unit units => rw [eatSameChars]

theorem Decodes.eatSameChars_wild (valid : form.valid c) (wildcard : wild c = true) (rest eval : List (BitVec w)) :
    eatSameChars next none (form.encode c ++ rest) eval = (form.encode c ++ rest, eval) := by
  obtain ⟨unit, units, same⟩ := exists_unit valid
  rw [same, List.cons_append]
  cases eval with
  | nil => rw [eatSameChars]
  | cons other eval => rw [eatSameChars, if_pos ⟨rfl, (decodes.isWildcard_eq valid same).trans wildcard⟩]

variable {eval : List (BitVec w)}

theorem Decodes.eatSameChars_escape (valid : form.valid 0x5C) (rest : List (BitVec w)) (more : eval ≠ []) :
    eatSameChars next none (form.encode 0x5C ++ rest) eval =
      eatSameChars next (some (form.encode 0x5C ++ rest)) rest eval := by
  obtain ⟨unit, units, same⟩ := exists_unit valid
  obtain ⟨other, eval, rfl⟩ := List.exists_cons_of_ne_nil more
  have behind := decodes.read_ascii valid (by decide) rest
  have plain : ¬ isWildcard unit = true := by
    rw [decodes.isWildcard_eq valid same]
    exact Bool.false_ne_true
  rw [same, List.cons_append] at behind ⊢
  rw [eatSameChars, if_neg fun both => plain both.2,
    if_pos ⟨rfl, (decodes.unit_eq valid same (by decide)).mpr rfl⟩, behind]

/-- A character that is escaped or stands for itself is compared. -/
theorem Decodes.eatSameChars_compare (valid : form.valid c) {escape : Option (List (BitVec w))}
    (literal : escape = none → wild c = false ∧ c ≠ 0x5C) (rest : List (BitVec w)) (more : eval ≠ []) :
    eatSameChars next escape (form.encode c ++ rest) eval =
      if (next.read (form.encode c ++ rest)).1 = (next.read eval).1 ∧
          (next.read (form.encode c ++ rest)).1 ≠ sentinel then
        eatSameChars next none (next.read (form.encode c ++ rest)).2 (next.read eval).2
      else (escape.getD (form.encode c ++ rest), eval) := by
  obtain ⟨unit, units, same⟩ := exists_unit valid
  obtain ⟨other, eval, rfl⟩ := List.exists_cons_of_ne_nil more
  rw [same, List.cons_append, eatSameChars, if_neg, if_neg]
  · rintro ⟨none, backslash⟩
    exact (literal none).2 ((decodes.unit_eq valid same (by decide)).mp backslash)
  · rintro ⟨none, wildcard⟩
    rw [decodes.isWildcard_eq valid same, (literal none).1] at wildcard
    exact Bool.false_ne_true wildcard

theorem Decodes.eq_of_read (valid : form.valid c) (validText : Valid form text) (trails : ∀ unit ∈ units, trail unit)
    {rest : List (BitVec w)} (more : units ++ text.flatMap form.encode ≠ [])
    (equal : (next.read (form.encode c ++ rest)).1 = (next.read (units ++ text.flatMap form.encode)).1)
    (found : (next.read (form.encode c ++ rest)).1 ≠ sentinel) :
    units = [] ∧ ∃ behind, text = c :: behind ∧ (next.read (form.encode c ++ rest)).2 = rest ∧
      (next.read (units ++ text.flatMap form.encode)).2 = behind.flatMap form.encode := by
  rcases decodes.character c rest valid with same | ⟨_, _, same⟩
  · rw [same] at equal ⊢
    cases units with
    | cons unit units =>
      rw [List.cons_append] at equal
      exact absurd equal.symm ((decodes.inside unit _ (trails unit List.mem_cons_self)).2 c valid)
    | nil =>
      rw [List.nil_append] at more equal ⊢
      cases text with
      | nil => exact absurd rfl more
      | cons d text =>
        rw [List.flatMap_cons] at equal ⊢
        rcases decodes.character d (text.flatMap form.encode) (validText d List.mem_cons_self) with read | ⟨_, _, read⟩
        · rw [read] at equal ⊢
          rw [Int.ofNat.inj equal]
          exact ⟨rfl, text, rfl, rfl, rfl⟩
        · rw [read] at equal
          exact absurd equal (by simp only [sentinel]; omega)
  · rw [same] at found
    exact absurd rfl found

omit decodes in
/-- A pattern matches a text behind the rest of a character; what is left of that takes a wildcard. -/
structure Held (pattern : List Nat) (units : List (BitVec w)) (text : List Nat) : Prop where
  matches_ : text ∈ glob pattern
  wildcard : units ≠ [] → ∃ c rest, pattern = c :: rest ∧ wild c = true

omit decodes in
/-- The pattern and the text that a result is the encoding of are ends of the given ones, which match if those do. -/
def Leaves (form : Form Nat (BitVec w)) (trail : BitVec w → Prop) (pattern : List Nat) (units : List (BitVec w))
    (text : List Nat) (result : List (BitVec w) × List (BitVec w)) : Prop :=
  ∃ pattern' units' text', result = (pattern'.flatMap form.encode, units' ++ text'.flatMap form.encode) ∧
    pattern' <:+ pattern ∧ text' <:+ text ∧ (∀ unit ∈ units', trail unit) ∧
    (Held pattern' units' text' → Held pattern units text)

omit decodes in
theorem Leaves.unchanged (trails : ∀ unit ∈ units, trail unit) :
    Leaves form trail pattern units text (pattern.flatMap form.encode, units ++ text.flatMap form.encode) :=
  ⟨pattern, units, text, rfl, List.suffix_rfl, List.suffix_rfl, trails, id⟩

omit decodes in
theorem Leaves.literal {literal : List Nat} {result : List (BitVec w) × List (BitVec w)}
    (leaves : Leaves form trail pattern [] text result) (suffix : pattern <:+ literal)
    (one : ∀ whole, whole ∈ glob literal ↔ ∃ rest ∈ glob pattern, whole = c :: rest) :
    Leaves form trail literal [] (c :: text) result := by
  obtain ⟨pattern', units', text', same, suffixPattern, suffixText, trails, sound⟩ := leaves
  refine ⟨pattern', units', text', same, suffixPattern.trans suffix, suffixText.trans (List.suffix_cons c text), trails,
    fun held => ⟨(one _).mpr ⟨text, (sound held).matches_, rfl⟩, fun some_ => absurd rfl some_⟩⟩

theorem Decodes.eatSameChars_leaves (pattern text : List Nat) (units : List (BitVec w))
    (validPattern : Valid form pattern) (validText : Valid form text) (trails : ∀ unit ∈ units, trail unit) :
    Leaves form trail pattern units text
      (eatSameChars next none (pattern.flatMap form.encode) (units ++ text.flatMap form.encode)) := by
  have unchanged := @Leaves.unchanged w form trail pattern text units trails
  by_cases more : units ++ text.flatMap form.encode = []
  · rw [more] at unchanged ⊢
    rw [eatSameChars_done]
    exact unchanged
  cases pattern with
  | nil =>
    rw [List.flatMap_nil, eatSameChars]
    exact unchanged
  | cons c pattern =>
    have valid := validPattern c List.mem_cons_self
    have validRest : Valid form pattern := validPattern.suffix (List.suffix_cons c pattern)
    -- Behind a character that compares equal, the loop goes on without an escape.
    have goesOn (rest behind : List Nat) (shorter : rest.length < (c :: pattern).length) (suffix : rest <:+ pattern)
        (suffixText : behind <:+ text) : Leaves form trail rest [] behind
          (eatSameChars next none (rest.flatMap form.encode) (behind.flatMap form.encode)) :=
      Decodes.eatSameChars_leaves rest behind [] (validRest.suffix suffix) (validText.suffix suffixText)
        (fun _ member => absurd member List.not_mem_nil)
    by_cases wildcard : wild c = true
    · rw [List.flatMap_cons, decodes.eatSameChars_wild valid wildcard]
      exact unchanged
    rw [Bool.not_eq_true] at wildcard
    by_cases escape : c = 0x5C
    · subst escape
      rw [List.flatMap_cons, decodes.eatSameChars_escape valid _ more]
      cases pattern with
      | nil =>
        rw [List.flatMap_nil, eatSameChars]
        refine ⟨[], units, text, rfl, List.nil_suffix, List.suffix_rfl, trails, fun held => ?_⟩
        have none : units = [] := by
          by_contra some_
          obtain ⟨_, _, same, _⟩ := held.wildcard some_
          cases same
        rw [none, mem_glob_nil.mp held.matches_] at more
        exact absurd rfl more
      | cons d pattern =>
        have validNext := validRest d List.mem_cons_self
        rw [List.flatMap_cons, decodes.eatSameChars_compare validNext (fun none => by cases none) _ more]
        split
        next equal =>
          obtain ⟨rfl, behind, rfl, patternBehind, textBehind⟩ :=
            decodes.eq_of_read validNext validText trails more equal.1 equal.2
          have leaves := goesOn pattern behind (by simp only [List.length_cons]; omega) (List.suffix_cons d pattern)
            (List.suffix_cons d behind)
          rw [patternBehind, textBehind]
          exact leaves.literal ((List.suffix_cons _ _).trans (List.suffix_cons _ _)) fun _ => mem_glob_escaped
        next => exact unchanged
    · have literal : (none : Option (List (BitVec w))) = none → wild c = false ∧ c ≠ 0x5C := fun _ => ⟨wildcard, escape⟩
      rw [List.flatMap_cons, decodes.eatSameChars_compare valid literal _ more]
      split
      next equal =>
        obtain ⟨rfl, behind, rfl, patternBehind, textBehind⟩ :=
          decodes.eq_of_read valid validText trails more equal.1 equal.2
        have leaves := goesOn pattern behind (Nat.lt_succ_self _) List.suffix_rfl (List.suffix_cons c behind)
        rw [patternBehind, textBehind]
        exact leaves.literal (List.suffix_cons _ _) fun _ => mem_glob_literal escape wildcard
      next => exact unchanged
termination_by pattern.length

/-! ### What is accepted matches -/

theorem Decodes.eatWildcard_eq (valid : Valid form pattern) :
    eatWildcard next (pattern.flatMap form.encode) = (pattern.dropWhile wild).flatMap form.encode := by
  induction pattern with
  | nil => rw [List.flatMap_nil, eatWildcard, List.dropWhile_nil, List.flatMap_nil]
  | cons c pattern ih =>
    have here := valid c List.mem_cons_self
    obtain ⟨unit, units, same⟩ := exists_unit here
    have test := decodes.isWildcard_eq here same
    rw [List.flatMap_cons]
    cases wildcard : wild c with
    | true =>
      have behind := decodes.read_ascii here (small_of_wild wildcard) (pattern.flatMap form.encode)
      rw [same, List.cons_append] at behind ⊢
      rw [eatWildcard, if_pos (test.trans wildcard), behind, List.dropWhile_cons_of_pos wildcard]
      exact ih (valid.suffix (List.suffix_cons c pattern))
    | false =>
      rw [List.dropWhile_cons_of_neg (by rw [wildcard]; exact Bool.false_ne_true), List.flatMap_cons, same,
        List.cons_append, eatWildcard, if_neg (by rw [test, wildcard]; exact Bool.false_ne_true)]

/-- Only wildcards are left. -/
theorem Decodes.eatWildcard_eq_nil (valid : Valid form pattern) :
    eatWildcard next (pattern.flatMap form.encode) = [] ↔ [] ∈ glob pattern := by
  rw [decodes.eatWildcard_eq valid, nil_mem_glob, flatMap_eq_nil (valid.suffix (List.dropWhile_suffix wild))]

theorem Decodes.exists_of_anySuffix {matches_ : List (BitVec w) → Bool} (validText : Valid form text)
    (trails : ∀ unit ∈ units, trail unit) (found : anySuffix matches_ (units ++ text.flatMap form.encode) = true) :
    ∃ units' rest, matches_ (units' ++ rest.flatMap form.encode) = true ∧ rest <:+ text ∧
      ∀ unit ∈ units', trail unit := by
  generalize same : units ++ text.flatMap form.encode = eval at found
  induction eval generalizing units text with
  | nil => cases found
  | cons unit eval ih =>
    rw [anySuffix, Bool.or_eq_true] at found
    rcases found with here | later
    · exact ⟨units, text, same ▸ here, List.suffix_rfl, trails⟩
    · cases units with
      | cons first units =>
        obtain ⟨units', rest, matches_, suffix, trails'⟩ := ih validText
          (fun unit member => trails unit (List.mem_cons_of_mem first member)) (List.cons.inj same).2 later
        exact ⟨units', rest, matches_, suffix, trails'⟩
      | nil =>
        cases text with
        | nil => cases same
        | cons c text =>
          have valid := validText c List.mem_cons_self
          obtain ⟨first, others, is_⟩ := exists_unit valid
          rw [List.nil_append, List.flatMap_cons, is_, List.cons_append] at same
          obtain ⟨units', rest, matches_, suffix, trails'⟩ := ih (validText.suffix (List.suffix_cons c text))
            (fun unit member => decodes.tail c unit valid (by rw [is_]; exact member)) (List.cons.inj same).2 later
          exact ⟨units', rest, matches_, suffix.trans (List.suffix_cons c text), trails'⟩

theorem Decodes.read_behind (validText : Valid form text) (trails : ∀ unit ∈ units, trail unit)
    (more : units ++ text.flatMap form.encode ≠ []) :
    ∃ units' rest, (next.read (units ++ text.flatMap form.encode)).2 = units' ++ rest.flatMap form.encode ∧
      (∀ unit ∈ units', trail unit) ∧ (rest = text ∨ ∃ c, text = c :: rest) := by
  cases units with
  | cons unit units =>
    rw [List.cons_append]
    exact ⟨units, text, (decodes.inside unit _ (trails unit List.mem_cons_self)).1,
      fun unit' member => trails unit' (List.mem_cons_of_mem unit member), .inl rfl⟩
  | nil =>
    cases text with
    | nil => exact absurd rfl more
    | cons c text =>
      have valid := validText c List.mem_cons_self
      rw [List.nil_append, List.flatMap_cons]
      rcases decodes.character c (text.flatMap form.encode) valid with same | ⟨others, suffix, same⟩
      · rw [same]
        exact ⟨[], text, rfl, fun _ member => absurd member List.not_mem_nil, .inr ⟨c, rfl⟩⟩
      · rw [same]
        exact ⟨others, text, rfl, fun unit member => decodes.tail c unit valid (suffix.subset member), .inr ⟨c, rfl⟩⟩

theorem Decodes.head_eq {a : Nat} (valid : Valid form (c :: pattern)) (small : a < 0x80) :
    ((c :: pattern).flatMap form.encode).head? = some (BitVec.ofNat w a) ↔ c = a := by
  have here := valid c List.mem_cons_self
  obtain ⟨unit, units, same⟩ := exists_unit here
  rw [List.flatMap_cons, same, List.cons_append, List.head?_cons, Option.some.injEq]
  exact decodes.unit_eq here same small

theorem Decodes.matchPatternT_sound (left : Nat) (validPattern : Valid form pattern) (validText : Valid form text)
    (trails : ∀ unit ∈ units, trail unit)
    (matched : matchPatternT next left (units ++ text.flatMap form.encode) (pattern.flatMap form.encode) = true) :
    Held pattern units text := by
  induction left generalizing pattern units text with
  | zero => cases matched
  | succ left ih =>
    obtain ⟨pattern', units', text', same, suffix, suffixText, trails', sound⟩ :=
      decodes.eatSameChars_leaves pattern text units validPattern validText trails
    apply sound
    have valid' := validPattern.suffix suffix
    have validText' := validText.suffix suffixText
    rw [matchPatternT, same] at matched
    dsimp only at matched
    split at matched
    next ended =>
      obtain ⟨noUnits, noText⟩ := List.append_eq_nil_iff.mp ended
      rw [flatMap_eq_nil validText'] at noText
      rw [noText]
      exact ⟨(decodes.eatWildcard_eq_nil valid').mp (of_decide_eq_true matched), fun some_ => absurd noUnits some_⟩
    next more =>
      split at matched
      next => cases matched
      next some_ =>
        cases pattern' with
        | nil => exact absurd rfl some_
        | cons c rest =>
          have validRest := valid'.suffix (List.suffix_cons c rest)
          split at matched
          next optional =>
            have is_ : c = 0x3F := (decodes.head_eq valid' (by decide)).mp optional
            subst is_
            rw [List.flatMap_cons, decodes.read_ascii (valid' 0x3F List.mem_cons_self) (by decide), Bool.or_eq_true]
              at matched
            have wildcard : units' ≠ [] → ∃ c others, 0x3F :: rest = c :: others ∧ wild c = true :=
              fun _ => ⟨0x3F, rest, rfl, rfl⟩
            rcases matched with none | one
            · exact ⟨mem_glob_optional.mpr (.inl (ih validRest validText' trails' none).matches_), wildcard⟩
            · obtain ⟨behind, rest', same', trails'', at_⟩ := decodes.read_behind validText' trails' more
              rw [same'] at one
              rcases at_ with rfl | ⟨d, rfl⟩
              · exact ⟨mem_glob_optional.mpr (.inl (ih validRest validText' trails'' one).matches_), wildcard⟩
              · have inner := ih validRest (validText'.suffix (List.suffix_cons d rest')) trails'' one
                exact ⟨mem_glob_optional.mpr (.inr ⟨d, rest', inner.matches_, rfl⟩), wildcard⟩
          next =>
            split at matched
            next any =>
              have is_ : c = 0x2A := (decodes.head_eq valid' (by decide)).mp any
              subst is_
              have wildcard : units' ≠ [] → ∃ c others, 0x2A :: rest = c :: others ∧ wild c = true :=
                fun _ => ⟨0x2A, rest, rfl, rfl⟩
              rw [Bool.or_eq_true, decide_eq_true_eq, decodes.eatWildcard_eq_nil valid', List.flatMap_cons,
                decodes.read_ascii (valid' 0x2A List.mem_cons_self) (by decide), decodes.eatWildcard_eq validRest]
                at matched
              refine ⟨mem_glob_any.mpr ?_, wildcard⟩
              rcases matched with found | all
              · obtain ⟨others, rest', inner, suffix', trails''⟩ := decodes.exists_of_anySuffix validText' trails' found
                exact ⟨rest', (ih (validRest.suffix (List.dropWhile_suffix wild)) (validText'.suffix suffix') trails''
                  inner).matches_, suffix'⟩
              · obtain ⟨last, matches_, suffix'⟩ := mem_glob_any.mp all
                exact ⟨last, matches_, suffix'.trans List.nil_suffix⟩
            next => cases matched

/-! ### What matches is accepted -/

theorem Decodes.eatSameChars_both (valid : form.valid c) {escape : Option (List (BitVec w))}
    (literal : escape = none → wild c = false ∧ c ≠ 0x5C)
    (read : next.read (form.encode c ++ pattern.flatMap form.encode) = ((c : Int), pattern.flatMap form.encode))
    (readText : next.read (form.encode c ++ text.flatMap form.encode) = ((c : Int), text.flatMap form.encode)) :
    eatSameChars next escape (form.encode c ++ pattern.flatMap form.encode)
        (form.encode c ++ text.flatMap form.encode) =
      eatSameChars next none (pattern.flatMap form.encode) (text.flatMap form.encode) := by
  have more : form.encode c ++ text.flatMap form.encode ≠ [] :=
    List.append_ne_nil_of_left_ne_nil (form.encode_ne_nil c valid) _
  have nonneg : (c : Int) ≠ sentinel := by
    simp only [sentinel]
    omega
  rw [decodes.eatSameChars_compare valid literal _ more, read, readText, if_pos ⟨rfl, nonneg⟩]

/-- A text that matches is eaten up to a wildcard. -/
theorem Decodes.eatSameChars_complete (pattern text : List Nat) (validPattern : Valid form pattern)
    (readable : Readable form next pattern) (readableText : Readable form next text) (matches_ : text ∈ glob pattern) :
    ∃ pattern' text', eatSameChars next none (pattern.flatMap form.encode) (text.flatMap form.encode) =
        (pattern'.flatMap form.encode, text'.flatMap form.encode) ∧
      pattern' <:+ pattern ∧ text' <:+ text ∧ text' ∈ glob pattern' ∧ wildcards pattern' ≤ wildcards pattern ∧
      (text' = [] ∨ ∃ c rest, pattern' = c :: rest ∧ wild c = true) := by
  cases text with
  | nil =>
    exact ⟨pattern, [], eatSameChars_done none _, List.suffix_rfl, List.suffix_rfl, matches_, le_rfl, .inl rfl⟩
  | cons d text =>
    cases pattern with
    | nil => cases mem_glob_nil.mp matches_
    | cons c pattern =>
      have valid := validPattern c List.mem_cons_self
      have suffix := List.suffix_cons c pattern
      have readRest := readableText d text List.suffix_rfl
      by_cases wildcard : wild c = true
      · exact ⟨c :: pattern, d :: text, decodes.eatSameChars_wild valid wildcard _ _, List.suffix_rfl, List.suffix_rfl,
          matches_, le_rfl, .inr ⟨c, pattern, rfl, wildcard⟩⟩
      rw [Bool.not_eq_true] at wildcard
      by_cases escape : c = 0x5C
      · subst escape
        cases pattern with
        | nil => exact absurd matches_ not_mem_glob_backslash
        | cons c pattern =>
          obtain ⟨rest, matchesRest, same⟩ := mem_glob_escaped.mp matches_
          obtain ⟨rfl, rfl⟩ := List.cons.inj same
          have behind := (List.suffix_cons d pattern).trans suffix
          have validNext := validPattern d (List.mem_cons_of_mem _ List.mem_cons_self)
          have more : (d :: text).flatMap form.encode ≠ [] :=
            List.append_ne_nil_of_left_ne_nil (form.encode_ne_nil d validNext) _
          obtain ⟨pattern', text', eaten, suffix', suffixText, matches', fewer, stops⟩ :=
            Decodes.eatSameChars_complete pattern text (validPattern.suffix behind) (readable.suffix behind)
              (readableText.suffix (List.suffix_cons d text)) matchesRest
          refine ⟨pattern', text', ?_, suffix'.trans behind, suffixText.trans (List.suffix_cons d text), matches',
            fewer.trans_eq (wildcards_escaped d).symm, stops⟩
          rw [List.flatMap_cons, decodes.eatSameChars_escape valid _ more, List.flatMap_cons, List.flatMap_cons,
            decodes.eatSameChars_both validNext (fun none => by cases none) (readable d pattern suffix) readRest, eaten]
      · obtain ⟨rest, matchesRest, same⟩ := (mem_glob_literal escape wildcard).mp matches_
        obtain ⟨rfl, rfl⟩ := List.cons.inj same
        obtain ⟨pattern', text', eaten, suffix', suffixText, matches', fewer, stops⟩ :=
          Decodes.eatSameChars_complete pattern text (validPattern.suffix suffix) (readable.suffix suffix)
            (readableText.suffix (List.suffix_cons d text)) matchesRest
        refine ⟨pattern', text', ?_, suffix'.trans suffix, suffixText.trans (List.suffix_cons d text), matches',
          fewer.trans_eq (wildcards_literal escape wildcard).symm, stops⟩
        rw [List.flatMap_cons, List.flatMap_cons, decodes.eatSameChars_both valid (fun _ => ⟨wildcard, escape⟩)
          (readable d pattern List.suffix_rfl) readRest, eaten]
termination_by pattern.length

omit decodes in
theorem anySuffix_of_suffix {matches_ : List (BitVec w) → Bool} {rest : List (BitVec w)} (suffix : rest <:+ eval)
    (some_ : rest ≠ []) (found : matches_ rest = true) : anySuffix matches_ eval = true := by
  induction eval with
  | nil => exact absurd (List.suffix_nil.mp suffix) some_
  | cons unit eval ih =>
    rw [anySuffix, Bool.or_eq_true]
    rcases List.suffix_cons_iff.mp suffix with rfl | inner
    · exact .inl found
    · exact .inr (ih inner)

omit decodes in
theorem flatMap_suffix {rest : List Nat} (suffix : rest <:+ text) :
    rest.flatMap form.encode <:+ text.flatMap form.encode := by
  obtain ⟨front, rfl⟩ := suffix
  rw [List.flatMap_append]
  exact List.suffix_append _ _

theorem Decodes.matchPatternT_complete (left : Nat) (validPattern : Valid form pattern) (validText : Valid form text)
    (readable : Readable form next pattern) (readableText : Readable form next text) (matches_ : text ∈ glob pattern)
    (few : wildcards pattern < left) :
    matchPatternT next left (text.flatMap form.encode) (pattern.flatMap form.encode) = true := by
  induction left generalizing pattern text with
  | zero => exact absurd few (Nat.not_lt_zero _)
  | succ left ih =>
    obtain ⟨pattern', text', same, suffix, suffixText, matches', fewer, stops⟩ :=
      decodes.eatSameChars_complete pattern text validPattern readable readableText matches_
    have valid' := validPattern.suffix suffix
    have validText' := validText.suffix suffixText
    have readText' := readableText.suffix suffixText
    rw [matchPatternT, same]
    dsimp only
    split
    next ended =>
      rw [flatMap_eq_nil validText'] at ended
      exact decide_eq_true ((decodes.eatWildcard_eq_nil valid').mpr (ended ▸ matches'))
    next more =>
      obtain ⟨c, rest, rfl, wildcard⟩ := stops.resolve_left fun none => more (by rw [none, List.flatMap_nil])
      have validRest := valid'.suffix (List.suffix_cons c rest)
      have readRest := (readable.suffix suffix).suffix (List.suffix_cons c rest)
      have behind :=
        decodes.read_ascii (valid' c List.mem_cons_self) (small_of_wild wildcard) (rest.flatMap form.encode)
      have some_ : (c :: rest).flatMap form.encode ≠ [] := by
        rw [Ne, flatMap_eq_nil valid']
        exact List.cons_ne_nil _ _
      have optional : ((c :: rest).flatMap form.encode).head? = some 0x3F ↔ c = 0x3F :=
        decodes.head_eq valid' (by decide)
      have any : ((c :: rest).flatMap form.encode).head? = some 0x2A ↔ c = 0x2A := decodes.head_eq valid' (by decide)
      have fewerBehind := wildcards_wild wildcard matches'
      rw [if_neg some_]
      split
      next question =>
        have is_ := optional.mp question
        subst is_
        rw [List.flatMap_cons, behind, Bool.or_eq_true]
        rcases mem_glob_optional.mp matches' with none | ⟨d, last, one, rfl⟩
        · exact .inl (ih validRest validText' readRest readText' none (by omega))
        · rw [List.flatMap_cons, readText' d last List.suffix_rfl]
          have suffix' := List.suffix_cons d last
          exact .inr (ih validRest (validText'.suffix suffix') readRest (readText'.suffix suffix') one (by omega))
      next other =>
        have is_ : c = 0x2A := (of_decide_eq_true wildcard).resolve_right fun question => other (optional.mpr question)
        subst is_
        rw [if_pos (any.mpr rfl), Bool.or_eq_true, decide_eq_true_eq, decodes.eatWildcard_eq_nil valid',
          List.flatMap_cons, behind, decodes.eatWildcard_eq validRest]
        obtain ⟨last, matchesLast, suffix'⟩ := mem_glob_any.mp matches'
        by_cases ends : last = []
        · exact .inr (mem_glob_any.mpr ⟨[], ends ▸ matchesLast, List.nil_suffix⟩)
        · have dropped := List.dropWhile_suffix wild (l := rest)
          have atMost := wildcards_dropWhile_le rest
          have validLast := validText'.suffix suffix'
          exact .inl (anySuffix_of_suffix (flatMap_suffix suffix') (mt (flatMap_eq_nil validLast).mp ends)
            (ih (validRest.suffix dropped) validLast (readRest.suffix dropped) (readText'.suffix suffix') matchesLast
              (by omega)))

end Matching

end Libchrome.Base.Strings.Pattern
