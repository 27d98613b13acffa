import Mathlib.Data.Finset.Card
import Mathlib.Data.Finset.Dedup

/-! Keys numbered in the order in which they first come. -/

namespace Libchrome.Library.Numbering
variable {K : Type} [DecidableEq K]

/-- The keys known after `key` came. -/
def enter (known : List K) (key : K) : List K :=
  if key ∈ known then known else known ++ [key]

/-- The keys known after `keys` came. -/
def enterAll (known keys : List K) : List K := keys.foldl enter known

theorem enter_of_mem {known : List K} {key : K} (member : key ∈ known) : enter known key = known :=
  if_pos member

theorem enter_of_not_mem {known : List K} {key : K} (fresh : key ∉ known) : enter known key = known ++ [key] :=
  if_neg fresh

theorem mem_enter (known : List K) (key other : K) : other ∈ enter known key ↔ other ∈ known ∨ other = key := by
  by_cases member : key ∈ known
  · rw [enter_of_mem member, iff_self_or]
    rintro rfl
    exact member
  · rw [enter_of_not_mem member, List.mem_append, List.mem_singleton]

theorem enter_nodup {known : List K} (distinct : known.Nodup) (key : K) : (enter known key).Nodup := by
  by_cases member : key ∈ known
  · rwa [enter_of_mem member]
  · rw [enter_of_not_mem member]
    rw [← List.concat_eq_append]
    exact distinct.concat member

theorem prefix_enter (known : List K) (key : K) : known <+: enter known key := by
  by_cases member : key ∈ known
  · rw [enter_of_mem member]
  · rw [enter_of_not_mem member]
    exact List.prefix_append known [key]

theorem prefix_enterAll (known keys : List K) : known <+: enterAll known keys := by
  induction keys generalizing known with
  | nil => exact List.prefix_rfl
  | cons key keys ih => exact (prefix_enter known key).trans (ih (enter known key))

theorem mem_enterAll (known keys : List K) (other : K) : other ∈ enterAll known keys ↔ other ∈ known ∨ other ∈ keys := by
  induction keys generalizing known with
  | nil => simp [enterAll]
  | cons key keys ih =>
    calc other ∈ enterAll (enter known key) keys
      _ ↔ (other ∈ known ∨ other = key) ∨ other ∈ keys := by rw [ih, mem_enter]
      _ ↔ other ∈ known ∨ other ∈ key :: keys := by rw [or_assoc, List.mem_cons]

theorem enterAll_nodup {known : List K} (distinct : known.Nodup) (keys : List K) : (enterAll known keys).Nodup := by
  induction keys generalizing known with
  | nil => exact distinct
  | cons key keys ih => exact ih (enter_nodup distinct key)

/-- The keys that came are counted once each. -/
theorem enterAll_length (keys : List K) : (enterAll [] keys).length = keys.toFinset.card := by
  have same : (enterAll [] keys).toFinset = keys.toFinset := by
    ext key
    rw [List.mem_toFinset, List.mem_toFinset, mem_enterAll]
    simp
  rw [← same, List.toFinset_card_of_nodup (enterAll_nodup List.nodup_nil keys)]

theorem getElem?_idxOf {known : List K} {key : K} (member : key ∈ known) : known[known.idxOf key]? = some key := by
  rw [List.getElem?_eq_getElem (List.idxOf_lt_length_of_mem member), List.getElem_idxOf]

/-- The number of a key. -/
def numberOf (known : List K) (key : K) : Nat := known.idxOf key

section Numbers
variable {known : List K} {key other : K}

theorem numberOf_append (more : List K) (member : key ∈ known) : numberOf (known ++ more) key = numberOf known key :=
  List.idxOf_append_of_mem member

theorem numberOf_inj (member : key ∈ known) (same : numberOf known key = numberOf known other) : key = other :=
  (List.idxOf_inj member).mp same

theorem numberOf_lt (member : key ∈ known) : numberOf known key < known.length := List.idxOf_lt_length_of_mem member

theorem getElem?_numberOf (member : key ∈ known) : known[numberOf known key]? = some key := getElem?_idxOf member

theorem numberOf_fresh (fresh : key ∉ known) : numberOf (known ++ [key]) key = known.length := by
  rw [numberOf, List.idxOf_append_of_notMem fresh, List.idxOf_cons_self, Nat.add_zero]

end Numbers

end Libchrome.Library.Numbering
