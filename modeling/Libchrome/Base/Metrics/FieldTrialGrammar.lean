import Libchrome.Base.Metrics.FieldTrial
import Mathlib.Data.List.Basic

/-!
# The grammar of field trial strings

`ParseFieldTrialsString` reads exactly the sequences of entries `[*]name/group`, but it also takes a last
entry whose group is empty: it looks for an empty group before it replaces `npos` by the length.
-/

namespace Libchrome.Base.Metrics

open FieldTrial Library

/-- Entries separated by `/`, with an optional final one. -/
def Spelled (text : Text) (states : List State) : Prop :=
  text = [kPersistentStringSeparator].intercalate (states.map State.entry) ∨
    states ≠ [] ∧
      text = [kPersistentStringSeparator].intercalate (states.map State.entry) ++ [kPersistentStringSeparator]

/-- The grammar, with the entries that it gives. -/
structure Grammatical (text : Text) (states : List State) : Prop where
  clear : ∀ state ∈ states, state.Clear
  spelled : Spelled text states

/-- Entries with a `/` each, and behind them a name with its `/` but no group. -/
def Truncated (text : Text) : Prop :=
  ∃ (states : List State) (lead : Text), (∀ state ∈ states, state.Clear) ∧ Plain lead ∧ lead ≠ [kActivationMarker] ∧
    text = states.flatMap State.render ++ (lead ++ [kPersistentStringSeparator])

theorem intercalate_cons_cons (first second : State) (rest : List State) :
    [kPersistentStringSeparator].intercalate ((first :: second :: rest).map State.entry) =
      first.render ++ [kPersistentStringSeparator].intercalate ((second :: rest).map State.entry) := by
  simp [List.intercalate, first.render_eq]

theorem intercalate_append (states : List State) (nonempty : states ≠ []) :
    [kPersistentStringSeparator].intercalate (states.map State.entry) ++ [kPersistentStringSeparator] =
      states.flatMap State.render := by
  induction states with
  | nil => exact absurd rfl nonempty
  | cons state rest ih =>
    cases rest with
    | nil => simp [List.intercalate, state.render_eq]
    | cons second rest =>
      rw [intercalate_cons_cons, List.append_assoc, ih (List.cons_ne_nil _ _)]
      rfl

theorem intercalate_concat (states : List State) (last : State) :
    [kPersistentStringSeparator].intercalate ((states ++ [last]).map State.entry) =
      states.flatMap State.render ++ last.entry := by
  induction states with
  | nil => simp [List.intercalate]
  | cons state rest ih =>
    cases rest with
    | nil => simp [List.intercalate, state.render_eq]
    | cons second rest =>
      rw [List.cons_append, List.cons_append, intercalate_cons_cons, List.flatMap_cons, List.append_assoc]
      rw [List.cons_append] at ih
      rw [ih]

/-! ### Reading -/

theorem stateOf_clear {lead group : Text} (first : Plain lead) (named : lead ≠ [kActivationMarker])
    (second : Plain group) : (stateOf lead group).Clear := by
  unfold stateOf
  split
  next marked =>
    obtain ⟨tail, rfl⟩ := List.head?_eq_some_iff.mp marked
    refine ⟨⟨?_, ?_⟩, second, nofun⟩
    · intro empty
      exact named (congrArg _ empty)
    · intro member
      exact first.undivided (List.mem_cons_of_mem _ member)
  next unmarked => exact ⟨first, second, fun _ => unmarked⟩

theorem parseFrom_unnamed (front rest : Text) (turns : Nat) (entries : List State) :
    parseFrom (front ++ kPersistentStringSeparator :: rest) (turns + 1) front.length entries = (entries, false) := by
  have nameEnd : findFrom (front ++ kPersistentStringSeparator :: rest) kPersistentStringSeparator front.length =
      some front.length := findFrom_append front [] rest List.not_mem_nil
  have inside : front.length < (front ++ kPersistentStringSeparator :: rest).length := by simp
  rw [parseFrom, if_pos inside, nameEnd]
  simp only [true_or, if_true]

theorem parseFrom_ungrouped (front rest : Text) {lead : Text} (first : Plain lead) (turns : Nat)
    (entries : List State) :
    parseFrom (front ++ (lead ++ kPersistentStringSeparator :: kPersistentStringSeparator :: rest)) (turns + 1)
      front.length entries = (entries, false) := by
  have nameEnd := findFrom_append front lead (kPersistentStringSeparator :: rest) first.undivided
  have groupEnd := findFrom_append (front ++ (lead ++ [kPersistentStringSeparator])) [] rest
    (List.not_mem_nil : kPersistentStringSeparator ∉ [])
  simp only [List.append_assoc, List.cons_append, List.nil_append, List.length_append, List.length_cons,
    List.length_nil, Nat.add_zero, Nat.zero_add] at groupEnd
  rw [← Nat.add_assoc] at groupEnd
  have inside : front.length <
      (front ++ (lead ++ kPersistentStringSeparator :: kPersistentStringSeparator :: rest)).length := by
    simp only [List.length_append, List.length_cons]
    omega
  rw [parseFrom, if_pos inside, nameEnd]
  simp only [groupEnd, or_true, if_true]

theorem parse_concat (states : List State) (clear : ∀ state ∈ states, state.Clear) {lead group : Text}
    (first : Plain lead) (named : lead ≠ [kActivationMarker]) (undivided : kPersistentStringSeparator ∉ group) :
    parseFieldTrialsString (states.flatMap State.render ++ (lead ++ kPersistentStringSeparator :: group)) =
      (states ++ [stateOf lead group], true) := by
  have shorter := length_le_render states
  obtain ⟨turns, count⟩ : ∃ turns, (states.flatMap State.render ++
      (lead ++ kPersistentStringSeparator :: group)).length = turns + 1 + states.length := by
    refine ⟨(states.flatMap State.render).length - states.length + lead.length + group.length, ?_⟩
    rw [List.length_append, List.length_append, List.length_cons]
    omega
  have passed := parseFrom_prefix states clear [] (lead ++ kPersistentStringSeparator :: group) (turns + 1) []
  have last := parseFrom_last (states.flatMap State.render) first undivided rfl turns states
  rw [if_neg named] at last
  rw [parseFieldTrialsString, count]
  exact passed.trans last

theorem parse_of_grammatical {text : Text} {states : List State} (grammatical : Grammatical text states) :
    parseFieldTrialsString text = (states, true) := by
  obtain ⟨clear, spelled⟩ := grammatical
  cases spelled with
  | inl separated =>
    rcases List.eq_nil_or_concat states with rfl | ⟨before, last, rfl⟩
    · rw [separated]
      rfl
    · have clearLast := clear last (by simp)
      have clearBefore (state : State) (member : state ∈ before) : state.Clear :=
        clear state (by simp [member])
      obtain ⟨lead, first, named, same⟩ := clearLast.exists_lead
      have entry : last.entry = lead ++ kPersistentStringSeparator :: last.groupName := by
        rw [same, stateOf_entry, stateOf_groupName, List.append_assoc]
        rfl
      rw [separated, List.concat_eq_append, intercalate_concat, entry,
        parse_concat before clearBefore first named clearLast.group.undivided, ← same]
  | inr closed =>
    obtain ⟨nonempty, same⟩ := closed
    rw [same, intercalate_append states nonempty]
    exact parseFrom_render states clear [] (length_le_render states) []

theorem grammatical_render {states : List State} (clear : ∀ state ∈ states, state.Clear) :
    Grammatical (states.flatMap State.render) states := by
  refine ⟨clear, ?_⟩
  cases states with
  | nil => exact .inl rfl
  | cons state rest =>
    have nonempty := List.cons_ne_nil state rest
    exact .inr ⟨nonempty, (intercalate_append _ nonempty).symm⟩

theorem grammatical_concat {states : List State} (clear : ∀ state ∈ states, state.Clear) {last : State}
    (clearLast : last.Clear) : Grammatical (states.flatMap State.render ++ last.entry) (states ++ [last]) := by
  refine ⟨?_, .inl (intercalate_concat states last).symm⟩
  intro state member
  cases List.mem_append.mp member with
  | inl before => exact clear state before
  | inr same => rwa [List.mem_singleton.mp same]

theorem grammatical_of_parseFrom (turns : Nat) (rest : Text) (states result : List State)
    (enough : rest.length ≤ turns) (clear : ∀ state ∈ states, state.Clear)
    (accepted : parseFrom (states.flatMap State.render ++ rest) turns (states.flatMap State.render).length states =
      (result, true)) :
    Grammatical (states.flatMap State.render ++ rest) result ∨ Truncated (states.flatMap State.render ++ rest) := by
  induction turns generalizing rest states with
  | zero =>
    cases accepted
    rw [List.eq_nil_of_length_eq_zero (Nat.le_zero.mp enough), List.append_nil]
    exact .inl (grammatical_render clear)
  | succ turns ih =>
    generalize whole : states.flatMap State.render ++ rest = text at accepted
    by_cases inside : (states.flatMap State.render).length < text.length
    · by_cases divided : kPersistentStringSeparator ∈ rest
      · obtain ⟨lead, afterName, rfl, undivided⟩ := List.eq_append_cons_of_mem divided
        by_cases unnamed : lead = []
        · rw [← whole, unnamed, List.nil_append, parseFrom_unnamed] at accepted
          cases accepted
        · have first : Plain lead := ⟨unnamed, undivided⟩
          by_cases follows : kPersistentStringSeparator ∈ afterName
          · obtain ⟨group, rest, rfl, undividedGroup⟩ := List.eq_append_cons_of_mem follows
            by_cases ungrouped : group = []
            · rw [← whole, ungrouped, List.nil_append, parseFrom_ungrouped _ _ first] at accepted
              cases accepted
            · have second : Plain group := ⟨ungrouped, undividedGroup⟩
              rw [parseFrom_stateOf _ rest first second whole.symm] at accepted
              split at accepted
              next => cases accepted
              next named =>
                have passed : (states ++ [stateOf lead group]).flatMap State.render =
                    states.flatMap State.render ++ (stateOf lead group).render := by
                  rw [List.flatMap_append, List.flatMap_singleton]
                have same : (states ++ [stateOf lead group]).flatMap State.render ++ rest = text := by
                  rw [passed, ← whole, State.render_eq, stateOf_entry]
                  simp only [List.append_assoc, List.cons_append, List.nil_append]
                have clearAll : ∀ state ∈ states ++ [stateOf lead group], state.Clear := by
                  intro state member
                  cases List.mem_append.mp member with
                  | inl before => exact clear state before
                  | inr last => exact List.mem_singleton.mp last ▸ stateOf_clear first named second
                have shorter : rest.length ≤ turns := by
                  simp only [List.length_append, List.length_cons] at enough
                  omega
                have later := ih rest (states ++ [stateOf lead group]) shorter clearAll
                rw [same, passed] at later
                exact later accepted
          · rw [parseFrom_last _ first follows whole.symm] at accepted
            split at accepted
            next => cases accepted
            next named =>
              cases accepted
              rw [← whole]
              by_cases ungrouped : afterName = []
              · rw [ungrouped]
                exact .inr ⟨states, lead, clear, first, named, rfl⟩
              · have clearLast := stateOf_clear first named ⟨ungrouped, follows⟩
                have concat := grammatical_concat clear clearLast
                rw [stateOf_entry, List.append_assoc] at concat
                exact .inl concat
      · have nameEnd : findFrom text kPersistentStringSeparator (states.flatMap State.render).length = none := by
          apply findFrom_none
          rwa [← whole, List.drop_left]
        rw [parseFrom, if_pos inside, nameEnd] at accepted
        cases accepted
    · rw [parseFrom, if_neg inside] at accepted
      cases accepted
      rw [← whole, List.length_append] at inside
      have empty : rest = [] := List.eq_nil_of_length_eq_zero (by omega)
      rw [← whole, empty, List.append_nil]
      exact .inl (grammatical_render clear)

/-- What is to be shown of a string: it is accepted if the grammar derives it, and then with those entries. -/
def Reads (text : Text) : Prop :=
  ((parseFieldTrialsString text).2 = true ↔ ∃ states, Grammatical text states) ∧
    ∀ states, Grammatical text states → parseFieldTrialsString text = (states, true)

/-- A string is read by the grammar unless it ends in a name with its separator. -/
theorem reads_iff (text : Text) : Reads text ↔ ¬Truncated text := by
  constructor
  · rintro ⟨accepts, reads⟩ ⟨states, lead, clear, first, named, same⟩
    have undivided : kPersistentStringSeparator ∉ ([] : Text) := List.not_mem_nil
    have parsed := parse_concat states clear first named undivided
    rw [← same] at parsed
    obtain ⟨states', grammatical⟩ := accepts.mp (by rw [parsed])
    have read := reads states' grammatical
    rw [parsed] at read
    have last : stateOf lead [] ∈ states' := by
      rw [← (Prod.mk.inj read).1]
      exact List.mem_append_right states List.mem_cons_self
    have grouped := (grammatical.clear _ last).group.nonempty
    exact grouped (stateOf_groupName lead [])
  · intro whole
    refine ⟨⟨?_, ?_⟩, fun states => parse_of_grammatical⟩
    · intro accepted
      have parsed : parseFrom text text.length 0 [] = ((parseFieldTrialsString text).1, true) := Prod.ext rfl accepted
      cases grammatical_of_parseFrom text.length text [] _ (Nat.le_refl _) nofun parsed with
      | inl grammatical => exact ⟨_, grammatical⟩
      | inr truncated => exact absurd truncated whole
    · rintro ⟨states, grammatical⟩
      rw [parse_of_grammatical grammatical]

/-- The string `a/` is accepted with an empty group. -/
theorem not_reads_ungrouped : ¬∀ text, Reads text := by
  intro reads
  obtain ⟨accepts, derives⟩ := reads [97, 47]
  have parsed : parseFieldTrialsString [97, 47] = ([⟨[97], [], false⟩], true) := by decide
  obtain ⟨states, grammatical⟩ := accepts.mp (by rw [parsed])
  have read := derives states grammatical
  rw [parsed] at read
  have last : (⟨[97], [], false⟩ : State) ∈ states := by
    rw [← (Prod.mk.inj read).1]
    exact List.mem_cons_self
  exact (grammatical.clear _ last).group.nonempty rfl

end Libchrome.Base.Metrics
