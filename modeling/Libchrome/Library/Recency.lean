import Mathlib.Data.List.Basic
import Mathlib.Data.List.Nodup
import Mathlib.Tactic.Common

/-! A list of entries in the order of their last use, the latest first. What a change drops it gives in the order in
which it is dropped. -/

namespace Libchrome.Library.Recency

variable {K P : Type}

/-- The entries, the latest used first. -/
abbrev Entries (K P : Type) := List (K × P)

namespace Entries

/-- The oldest entries beyond `size` go, the oldest first. -/
def shrink (entries : Entries K P) (size : Nat) : Entries K P × List P :=
  (entries.take size, ((entries.drop size).map Prod.snd).reverse)

theorem shrink_self {entries : Entries K P} {size : Nat} (small : entries.length ≤ size) : entries.shrink size = (entries, []) := by
  rw [shrink, List.take_of_length_le small, List.drop_of_length_le small, List.map_nil, List.reverse_nil]

/-- Shrinking by one entry more drops the last of those that are left. -/
theorem shrink_last {entries : Entries K P} {last : K × P} {size : Nat} (small : size ≤ entries.length) :
    (entries ++ [last]).shrink size = ((entries.shrink size).1, last.2 :: (entries.shrink size).2) := by
  simp only [shrink, List.take_append_of_le_length small, List.drop_append_of_le_length small, List.map_append,
    List.map_cons, List.map_nil, List.reverse_append, List.reverse_singleton, List.singleton_append]

theorem length_shrink_le (entries : Entries K P) (size : Nat) : (entries.shrink size).1.length ≤ size := by
  rw [shrink, List.length_take]
  exact Nat.min_le_left _ _

theorem shrink_conserves (entries : Entries K P) (size : Nat) :
    (entries.map Prod.snd).Perm ((entries.shrink size).1.map Prod.snd ++ (entries.shrink size).2) := by
  have split := congrArg (List.map Prod.snd) (List.take_append_drop size entries)
  rw [List.map_append] at split
  rw [← split]
  exact (List.reverse_perm _).symm.append_left _

variable [DecidableEq K]

def lookup (entries : Entries K P) (key : K) : Option (K × P) := entries.find? fun entry => entry.1 = key

def without (entries : Entries K P) (key : K) : Entries K P := entries.filter fun entry => entry.1 ≠ key

/-- The entry of a key becomes the latest used. -/
def touch (entries : Entries K P) (key : K) : Entries K P :=
  match entries.lookup key with
  | none => entries
  | some entry => entry :: entries.without key

/-- A new entry, in place of one with the same key or after room is made for it; no limit is 0. -/
def put (limit : Nat) (entries : Entries K P) (key : K) (payload : P) : Entries K P × List P :=
  match entries.lookup key with
  | some entry => ((key, payload) :: entries.without key, [entry.2])
  | none =>
    let kept := if limit = 0 then (entries, []) else entries.shrink (limit - 1)
    ((key, payload) :: kept.1, kept.2)

/-- The entry behind the one of a key. -/
def following (entries : Entries K P) (key : K) : Option (K × P) :=
  (entries.dropWhile fun entry => entry.1 ≠ key).tail.head?

/-- The entry of a key goes. -/
def erase (entries : Entries K P) (key : K) : Entries K P × List P :=
  (entries.without key, (entries.filter fun entry => entry.1 = key).map Prod.snd)

def clear (entries : Entries K P) : Entries K P × List P := ([], entries.map Prod.snd)

variable {entries : Entries K P} {key : K}

theorem lookup_mem {entry : K × P} (found : entries.lookup key = some entry) : entry ∈ entries ∧ entry.1 = key := by
  constructor
  · exact List.mem_of_find?_eq_some found
  · have holds := List.find?_some found
    simpa only [decide_eq_true_eq] using holds

theorem without_eq_self (absent : key ∉ entries.map Prod.fst) : entries.without key = entries := by
  apply List.filter_eq_self.mpr
  intro entry member
  rw [decide_eq_true_eq]
  intro same
  exact absent (same ▸ List.mem_map_of_mem member)

/-- Between other entries, the entry of a key is alone. -/
theorem lookup_between {front back : Entries K P} {payload : P} (unique : ((front ++ (key, payload) :: back).map Prod.fst).Nodup) :
    (front ++ (key, payload) :: back).without key = front ++ back ∧
    (front ++ (key, payload) :: back).following key = back.head? ∧
    ((front ++ (key, payload) :: back).erase key).2 = [payload] := by
  rw [List.map_append, List.map_cons, List.nodup_append, List.nodup_cons] at unique
  have ahead : key ∉ front.map Prod.fst := by
    intro member
    exact unique.2.2 key member key List.mem_cons_self rfl
  have behind := unique.2.1.1
  have others : ∀ entries : Entries K P, key ∉ entries.map Prod.fst → ∀ entry ∈ entries, entry.1 ≠ key := by
    intro entries absent entry member same
    exact absent (same ▸ List.mem_map_of_mem member)
  refine ⟨?_, ?_, ?_⟩
  · have kept := without_eq_self ahead
    have kept' := without_eq_self behind
    rw [without] at *
    rw [List.filter_append, List.filter_cons_of_neg (by simp), kept, kept']
  · rw [following, List.dropWhile_append_of_pos (by simpa using others front ahead), List.dropWhile_cons_of_neg (by simp)]
    rfl
  · rw [erase, List.filter_append, List.filter_cons_of_pos (by simp), List.filter_eq_nil_iff.mpr (by simpa using others front ahead),
      List.filter_eq_nil_iff.mpr (by simpa using others back behind)]
    rfl

theorem erase_of_lookup (unique : (entries.map Prod.fst).Nodup) {entry : K × P} (found : entries.lookup key = some entry) :
    entries.erase key = (entries.without key, [entry.2]) := by
  rcases lookup_mem found with ⟨member, rfl⟩
  rcases List.append_of_mem member with ⟨front, back, rfl⟩
  have between := lookup_between unique
  rw [← between.2.2]
  rfl

theorem perm_lookup_without (unique : (entries.map Prod.fst).Nodup) {entry : K × P}
    (found : entries.lookup key = some entry) : entries.Perm (entry :: entries.without key) := by
  induction entries with
  | nil => cases found
  | cons first rest inductive_hypothesis =>
    rw [List.map_cons, List.nodup_cons] at unique
    rw [lookup, List.find?_cons] at found
    by_cases here : first.1 = key
    · simp only [here, decide_true] at found
      have all : ∀ other ∈ rest, other.1 ≠ key := by
        intro other member same
        exact unique.1 (here ▸ same ▸ List.mem_map_of_mem member)
      cases found
      rw [without, List.filter_cons_of_neg (by simpa using here), List.filter_eq_self.mpr (by simpa using all)]
    · simp only [here, decide_false] at found
      rw [without, List.filter_cons_of_pos (by simpa using here)]
      exact ((inductive_hypothesis unique.2 found).cons first).trans (List.Perm.swap _ _ _)

theorem put_conserves (unique : (entries.map Prod.fst).Nodup) (limit : Nat) (payload : P) :
    (payload :: entries.map Prod.snd).Perm
      ((entries.put limit key payload).1.map Prod.snd ++ (entries.put limit key payload).2) := by
  unfold put
  cases found : entries.lookup key with
  | some entry =>
    have split := (perm_lookup_without unique found).map Prod.snd
    rw [List.map_cons] at split
    simp only [List.map_cons, List.cons_append]
    exact (split.trans (List.perm_append_singleton _ _).symm).cons payload
  | none =>
    simp only [List.map_cons, List.cons_append]
    apply List.Perm.cons
    split
    next =>
      rw [List.append_nil]
    next => exact shrink_conserves _ _

theorem erase_conserves (entries : Entries K P) (key : K) :
    (entries.map Prod.snd).Perm ((entries.erase key).1.map Prod.snd ++ (entries.erase key).2) := by
  rw [erase, without, ← List.map_append]
  have split := (List.filter_append_perm (fun entry : K × P => entry.1 ≠ key) entries).symm
  simpa only [ne_eq, decide_not, Bool.not_not] using split.map Prod.snd

theorem touch_perm (unique : (entries.map Prod.fst).Nodup) (key : K) : (entries.touch key).Perm entries := by
  unfold touch
  cases found : entries.lookup key with
  | none => exact List.Perm.refl _
  | some entry => exact (perm_lookup_without unique found).symm

theorem length_put_le {limit : Nat} (some_ : limit ≠ 0) (payload : P) (within : entries.length ≤ limit) :
    (entries.put limit key payload).1.length ≤ limit := by
  unfold put
  cases found : entries.lookup key with
  | some entry =>
    have fewer : (entries.without key).length < entries.length := by
      apply List.length_filter_lt_length_iff_exists.mpr
      exact ⟨entry, (lookup_mem found).1, by simpa using (lookup_mem found).2⟩
    rw [List.length_cons]
    omega
  | none =>
    have shrunk := length_shrink_le entries (limit - 1)
    simp only [if_neg some_, List.length_cons]
    omega

end Entries

end Libchrome.Library.Recency
