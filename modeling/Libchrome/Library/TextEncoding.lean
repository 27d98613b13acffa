import Mathlib.Data.List.Basic
import Mathlib.Data.List.GetD
import Mathlib.Tactic.Common

/-!
# Encoding forms of text

A form writes each character as some units. A reader takes one character from an index of a text in
memory, and a scan reads a text to its end and writes a replacement for what is no character.
-/

namespace Libchrome.Library.TextEncoding

/-- Which characters there are, and the units of each. -/
structure Form (C U : Type) where
  valid : C → Prop
  encode : C → List U
  encode_ne_nil : ∀ c, valid c → encode c ≠ []

variable {C U V : Type}

def Form.WellFormed (form : Form C U) (units : List U) : Prop :=
  ∃ text : List C, (∀ c ∈ text, form.valid c) ∧ units = text.flatMap form.encode

/-- The `count` units from `i` on. -/
def window (memory : Nat → U) (i count : Nat) : List U := (List.range' i count).map memory

@[simp] theorem length_window (memory : Nat → U) (i count : Nat) : (window memory i count).length = count := by
  rw [window, List.length_map, List.length_range']

theorem window_add (memory : Nat → U) (i first second : Nat) :
    window memory i (first + second) = window memory i first ++ window memory (i + first) second := by
  rw [window, window, window, ← List.map_append]
  congr 1
  rw [← List.range'_append_1]

/-- What a list holds from its first unit on. -/
theorem window_getD (units : List U) (default : U) {count : Nat} (room : count ≤ units.length) :
    window (fun i => units.getD i default) 0 count = units.take count := by
  apply List.ext_getElem
  · rw [length_window, List.length_take, Nat.min_eq_left room]
  · intro i inside insideTake
    rw [length_window] at inside
    simp only [window, List.getElem_map, List.getElem_range', Nat.zero_add, Nat.one_mul, List.getElem_take]
    rw [List.getD_eq_getElem units default (by omega)]

/-- Reading takes a character where there is the encoding of one within the length, and only there. -/
structure Reads (form : Form C U) (read : (Nat → U) → Nat → Nat → Option C × Nat) : Prop where
  advances : ∀ memory length i, i < length → i < (read memory length i).2
  sound : ∀ memory length i c, i < length → (read memory length i).1 = some c →
    form.valid c ∧ (read memory length i).2 = i + (form.encode c).length ∧ i + (form.encode c).length ≤ length ∧
      window memory i (form.encode c).length = form.encode c
  complete : ∀ memory length i c, i < length → form.valid c → i + (form.encode c).length ≤ length →
    window memory i (form.encode c).length = form.encode c →
      read memory length i = (some c, i + (form.encode c).length)

/-- Read to the end; there are at most `fuel` units. -/
def scan (read : Nat → Option C × Nat) (emit : C → List V) (replacement : C) (length : Nat) : Nat → Nat → List V × Bool
  | 0, _ => ([], true)
  | fuel + 1, i =>
    if i < length then
      let (c, next) := read i
      let (rest, success) := scan read emit replacement length fuel next
      (emit (c.getD replacement) ++ rest, c.isSome && success)
    else ([], true)

section Scan

variable {form : Form C U} {read : (Nat → U) → Nat → Nat → Option C × Nat} (reads : Reads form read)
  (emit : C → List V) (replacement : C) {memory : Nat → U} {length : Nat}

theorem scan_end (single : Nat → Option C × Nat) (fuel : Nat) {i : Nat} (atEnd : length ≤ i) :
    scan single emit replacement length fuel i = ([], true) := by
  cases fuel with
  | zero => rfl
  | succ fuel => rw [scan, if_neg (Nat.not_lt.mpr atEnd)]

include reads

/-- A text in the form is written character by character. -/
theorem scan_flatMap {text : List C} (valid : ∀ c ∈ text, form.valid c) {fuel i : Nat} (enough : length - i ≤ fuel)
    (inside : i ≤ length) (held : window memory i (length - i) = text.flatMap form.encode) :
    scan (read memory length) emit replacement length fuel i = (text.flatMap emit, true) := by
  induction text generalizing fuel i with
  | nil =>
    have none : length - i = 0 := by
      rw [← length_window memory i (length - i), held]
      rfl
    exact scan_end emit replacement _ fuel (by omega)
  | cons c text ih =>
    rw [List.flatMap_cons] at held
    have lengths := congrArg List.length held
    rw [length_window, List.length_append] at lengths
    have split : length - i = (form.encode c).length + (length - (i + (form.encode c).length)) := by omega
    rw [split, window_add] at held
    obtain ⟨here, later⟩ := List.append_inj held (length_window memory i _)
    have some := List.length_pos_iff.mpr (form.encode_ne_nil c (valid c List.mem_cons_self))
    cases fuel with
    | zero => omega
    | succ fuel =>
      have decoded := reads.complete memory length i c (by omega) (valid c List.mem_cons_self) (by omega) here
      rw [scan, if_pos (by omega), decoded]
      simp only
      rw [ih (fun other member => valid other (List.mem_cons_of_mem c member)) (by omega) (by omega) later]
      rfl

/-- A scan that replaces nothing has read a text in the form. -/
theorem wellFormed_of_scan {fuel i : Nat} (enough : length - i ≤ fuel) (inside : i ≤ length)
    (success : (scan (read memory length) emit replacement length fuel i).2 = true) :
    form.WellFormed (window memory i (length - i)) := by
  induction fuel generalizing i with
  | zero =>
    rw [Nat.le_zero.mp enough]
    exact ⟨[], nofun, rfl⟩
  | succ fuel ih =>
    by_cases further : i < length
    · rw [scan, if_pos further] at success
      obtain ⟨isRead, rest⟩ := Bool.and_eq_true_iff.mp success
      obtain ⟨c, found⟩ := Option.isSome_iff_exists.mp isRead
      obtain ⟨valid, behind, room, here⟩ := reads.sound memory length i c further found
      have some := List.length_pos_iff.mpr (form.encode_ne_nil c valid)
      rw [behind] at rest
      obtain ⟨text, validRest, held⟩ := ih (by omega) room rest
      refine ⟨c :: text, ?_, ?_⟩
      · intro other member
        rcases List.mem_cons.mp member with rfl | later
        · exact valid
        · exact validRest other later
      · have split : length - i = (form.encode c).length + (length - (i + (form.encode c).length)) := by omega
        rw [split, window_add, here, held, List.flatMap_cons]
    · rw [show length - i = 0 by omega]
      exact ⟨[], nofun, rfl⟩

/-- What a scan writes is written character by character. -/
theorem scan_writes (validReplacement : form.valid replacement) (fuel i : Nat) :
    ∃ text : List C, (∀ c ∈ text, form.valid c) ∧
      (scan (read memory length) emit replacement length fuel i).1 = text.flatMap emit := by
  induction fuel generalizing i with
  | zero => exact ⟨[], nofun, rfl⟩
  | succ fuel ih =>
    rw [scan]
    split
    next further =>
      obtain ⟨text, valid, written⟩ := ih (read memory length i).2
      refine ⟨(read memory length i).1.getD replacement :: text, ?_, ?_⟩
      · intro c member
        rcases List.mem_cons.mp member with rfl | later
        · cases found : (read memory length i).1 with
          | none => exact validReplacement
          | some c => exact (reads.sound memory length i c further found).1
        · exact valid c later
      · rw [List.flatMap_cons, ← written]
    next => exact ⟨[], nofun, rfl⟩

include replacement in
/-- A text in the form is known by its units. -/
theorem text_eq (default : U) {text other : List C} (valid : ∀ c ∈ text, form.valid c) (otherValid : ∀ c ∈ other, form.valid c)
    (same : text.flatMap form.encode = other.flatMap form.encode) : text = other := by
  have held := window_getD (text.flatMap form.encode) default (Nat.le_refl _)
  rw [List.take_length] at held
  have first := scan_flatMap reads (fun c => [c]) replacement valid (Nat.le_refl _) (Nat.zero_le _) held
  have second := scan_flatMap reads (fun c => [c]) replacement otherValid (Nat.le_refl _) (Nat.zero_le _) (held.trans same)
  rw [first, List.flatMap_singleton', List.flatMap_singleton', Prod.mk.injEq] at second
  exact second.1

end Scan

/-! ### Unicode -/

/-- UTF-8, of scalar values. -/
def utf8 : Form Nat (BitVec 8) where
  valid := Nat.isValidChar
  encode c := (String.utf8EncodeChar (Char.ofNat c)).map UInt8.toBitVec
  encode_ne_nil _ _ empty := String.utf8EncodeChar_ne_nil (List.map_eq_nil_iff.mp empty)

/-- UTF-16: a scalar value behind the first plane is a pair of surrogates. -/
def utf16 : Form Nat (BitVec 16) where
  valid := Nat.isValidChar
  encode c :=
    if c < 0x10000 then [BitVec.ofNat 16 c]
    else [BitVec.ofNat 16 (0xd800 + (c - 0x10000) / 0x400), BitVec.ofNat 16 (0xdc00 + (c - 0x10000) % 0x400)]
  encode_ne_nil c _ := by
    split
    · exact List.cons_ne_nil _ _
    · exact List.cons_ne_nil _ _

theorem toNat_ofNat {c : Nat} (valid : c.isValidChar) : (Char.ofNat c).toNat = c := by
  rw [Char.ofNat, dif_pos valid]
  rfl

end Libchrome.Library.TextEncoding
