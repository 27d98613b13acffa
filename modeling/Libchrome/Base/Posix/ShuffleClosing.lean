import Libchrome.Base.Posix.ShuffleValues

/-!
# What a shuffle closes

For one number the run is followed through its arcs. It is closed once if it is a flagged source and no destination; a
destination is closed only if an arc in place, from the number to itself, stands before another arc that has the number
as its source.
-/

namespace Libchrome.Base.Posix
variable {File : Type}

/-- The run over these arcs closes `fd`. -/
def closes (fd : Int) : List InjectionArc → Bool
  | [] => false
  | i :: rest =>
    if i.dest = fd then i.source = fd && rest.any fun j => j.source = fd && (i.close || j.close)
    else if rest.any fun j => j.dest = fd then closes fd rest
    else (i :: rest).any fun j => j.source = fd && j.close

section Arcs
variable {fd : Int} {i j : InjectionArc} {rest : List InjectionArc}

theorem closes_of_no_dest (none : ∀ j ∈ rest, j.dest ≠ fd) :
    closes fd rest = rest.any fun j => j.source = fd && j.close := by
  cases rest with
  | nil => rfl
  | cons i rest =>
    have behind : (rest.any fun j => decide (j.dest = fd)) = false := by
      simpa using fun j member => none j (List.mem_cons_of_mem i member)
    rw [closes, if_neg (none i List.mem_cons_self), behind]
    rfl

theorem closes_of_no_source (none : ∀ j ∈ rest, j.source ≠ fd) : closes fd rest = false := by
  induction rest with
  | nil => rfl
  | cons i rest ih =>
    have behind : ∀ j ∈ rest, j.source ≠ fd := fun j member => none j (List.mem_cons_of_mem i member)
    have sources : ((i :: rest).any fun j => decide (j.source = fd) && j.close) = false := by
      simp only [List.any_eq_false, Bool.and_eq_true, decide_eq_true_eq]
      exact fun j member both => none j member both.1
    rw [closes, ih behind, sources]
    simp [none i List.mem_cons_self]

/-- An arc that does not go to the number, and does not come from it with a flag. -/
theorem closes_skip (clear : i.source = fd → i.close = false) (dest : i.dest ≠ fd) :
    closes fd (i :: rest) = closes fd rest := by
  rw [closes, if_neg dest]
  split
  · rfl
  next none =>
    have none : ∀ j ∈ rest, j.dest ≠ fd := by simpa using none
    rw [closes_of_no_dest none, List.any_cons]
    by_cases source : i.source = fd
    · simp [clear source]
    · simp [source]

theorem closes_flagged (source : i.source = fd) (close : i.close = true) (dest : i.dest ≠ fd)
    (none : ∀ j ∈ rest, j.dest ≠ fd) : closes fd (i :: rest) = true := by
  have all : ∀ j ∈ i :: rest, j.dest ≠ fd := List.forall_mem_cons.mpr ⟨dest, none⟩
  rw [closes_of_no_dest all, List.any_cons, close, decide_eq_true source]
  rfl

/-- An arc that goes elsewhere does not count if a later one goes to the number. -/
theorem closes_behind (dest : i.dest ≠ fd) (later : j ∈ rest) (at_fd : j.dest = fd) :
    closes fd (i :: rest) = closes fd rest := by
  rw [closes, if_neg dest, if_pos]
  exact List.any_eq_true.mpr ⟨j, later, decide_eq_true at_fd⟩

/-- Two arcs are the same as far as the number is concerned. -/
def Alike (fd : Int) (i j : InjectionArc) : Prop :=
  i.dest = j.dest ∧ (i.source = fd ↔ j.source = fd) ∧ (i.source = fd → i.close = j.close)

theorem any_of_alike {others : List InjectionArc} {test : InjectionArc → Bool}
    (same : ∀ i j, Alike fd i j → test i = test j) (alike : List.Forall₂ (Alike fd) rest others) :
    rest.any test = others.any test := by
  induction alike with
  | nil => rfl
  | cons one _ ih => rw [List.any_cons, List.any_cons, same _ _ one, ih]

theorem closes_of_alike {others : List InjectionArc} (alike : List.Forall₂ (Alike fd) rest others) :
    closes fd rest = closes fd others := by
  induction alike with
  | nil => rfl
  | @cons i j rest others one more ih =>
    have flags : ∀ close i j, Alike fd i j →
        (decide (i.source = fd) && (close || i.close)) = (decide (j.source = fd) && (close || j.close)) := by
      rintro close i j ⟨-, source, flag⟩
      by_cases at_fd : i.source = fd
      · simp [at_fd, source.mp at_fd, flag at_fd]
      · simp [at_fd, mt source.mpr at_fd]
    have dests : (rest.any fun j => decide (j.dest = fd)) = others.any fun j => decide (j.dest = fd) :=
      any_of_alike (fun i j alike => by rw [alike.1]) more
    have behind := any_of_alike (flags i.close) more
    have listed := any_of_alike (flags false) (.cons one more)
    simp only [Bool.false_or] at listed
    rw [closes, closes, dests, ih, behind, listed, one.1]
    by_cases at_fd : i.source = fd
    · simp [at_fd, one.2.1.mp at_fd, one.2.2 at_fd]
    · simp [at_fd, mt one.2.1.mpr at_fd]

theorem alike_passFlag (other : i.source ≠ fd) : List.Forall₂ (Alike fd) (passFlag i rest).2 rest := by
  induction rest generalizing i with
  | nil => exact .nil
  | cons j rest ih =>
    rw [passFlag_cons]
    have ends := handOver_ends i j
    refine .cons ⟨ends.2.2.2, by rw [ends.2.2.1], fun at_fd => ?_⟩ (ih (ends.1 ▸ other))
    rw [ends.2.2.1] at at_fd
    have apart : i.source ≠ j.source := fun same => other (same.trans at_fd)
    unfold handOver
    dsimp only
    split <;> simp [apart]

theorem alike_redirect {dest temp_fd : Int} (other : dest ≠ fd) (new : temp_fd ≠ fd) :
    List.Forall₂ (Alike fd) (redirect dest temp_fd rest) rest := by
  induction rest with
  | nil => exact .nil
  | cons j rest ih =>
    refine .cons ?_ ih
    dsimp only
    by_cases same : dest = j.source
    · rw [if_pos same]
      exact ⟨rfl, iff_of_false new (same ▸ other), fun at_fd => absurd at_fd new⟩
    · rw [if_neg same]
      exact ⟨rfl, Iff.rfl, fun _ => rfl⟩

theorem closes_passFlag_of_ne (other : i.source ≠ fd) : closes fd (passFlag i rest).2 = closes fd rest :=
  closes_of_alike (alike_passFlag other)

/-- What an arc from the number to elsewhere closes, the hand-over leaves to it or to the later arcs. -/
theorem closes_passFlag (dest : i.dest ≠ i.source) :
    (closes i.source (i :: rest)).toNat =
      (passFlag i rest).1.close.toNat + (closes i.source (passFlag i rest).2).toNat := by
  cases set : i.close with
  | false => rw [passFlag_of_not_close set, closes_skip (fun _ => set) dest, set, Bool.toNat_false, Nat.zero_add]
  | true =>
    induction rest with
    | nil =>
      rw [closes_flagged rfl set dest fun j member => absurd member List.not_mem_nil, passFlag, set]
      rfl
    | cons j rest ih =>
      rw [passFlag_cons]
      by_cases to_source : i.source = j.dest
      · rw [handOver_of_dest set to_source, passFlag_of_not_close rfl,
          closes_behind dest List.mem_cons_self to_source.symm, Bool.toNat_false, Nat.zero_add]
      · have elsewhere : j.dest ≠ i.source := Ne.symm to_source
        by_cases from_source : i.source = j.source
        · rw [handOver_of_source set to_source from_source, passFlag_of_not_close rfl, Bool.toNat_false,
            Nat.zero_add]
          by_cases later : ∃ k ∈ rest, k.dest = i.source
          · obtain ⟨k, member, at_source⟩ := later
            rw [closes_behind dest (List.mem_cons_of_mem j member) at_source, closes_behind elsewhere member at_source]
            rw [closes_behind (show { j with close := true }.dest ≠ i.source from elsewhere) member at_source]
          · have none : ∀ k ∈ rest, k.dest ≠ i.source := fun k member at_source => later ⟨k, member, at_source⟩
            have handed : closes i.source ({ j with close := true } :: rest) = true :=
              closes_flagged (i := { j with close := true }) from_source.symm rfl elsewhere none
            rw [closes_flagged rfl set dest (List.forall_mem_cons.mpr ⟨elsewhere, none⟩), handed]
        · have skips : ∀ arcs, closes i.source (j :: arcs) = closes i.source arcs :=
            fun arcs => closes_skip (fun at_source => absurd at_source.symm from_source) elsewhere
          rw [handOver_of_apart to_source from_source, skips, ← ih]
          by_cases later : ∃ k ∈ rest, k.dest = i.source
          · obtain ⟨k, member, at_source⟩ := later
            rw [closes_behind dest (List.mem_cons_of_mem j member) at_source, skips,
              closes_behind dest member at_source]
          · have none : ∀ k ∈ rest, k.dest ≠ i.source := fun k member at_source => later ⟨k, member, at_source⟩
            rw [closes_flagged rfl set dest (List.forall_mem_cons.mpr ⟨elsewhere, none⟩),
              closes_flagged rfl set dest none]

theorem closes_passFlag_inPlace (identity : i.source = i.dest) (distinct : ∀ j ∈ rest, j.dest ≠ i.source) :
    closes i.source (i :: rest) = closes i.source (passFlag i rest).2 := by
  have dests : ∀ j ∈ (passFlag i rest).2, j.dest ≠ i.source := by
    intro j member
    have listed := List.mem_map_of_mem (f := InjectionArc.dest) member
    rw [map_dest_passFlag] at listed
    obtain ⟨k, behind, same⟩ := List.mem_map.mp listed
    exact same ▸ distinct k behind
  rw [closes, if_pos identity.symm, closes_of_no_dest dests, decide_eq_true rfl, Bool.true_and]
  cases set : i.close with
  | false => simp only [passFlag_of_not_close set, Bool.false_or]
  | true =>
    simp only [Bool.true_or, Bool.and_true]
    clear dests
    induction rest with
    | nil => rfl
    | cons j rest ih =>
      obtain ⟨elsewhere, distinct⟩ := List.forall_mem_cons.mp distinct
      rw [passFlag_cons]
      by_cases from_source : i.source = j.source
      · rw [handOver_of_source set (Ne.symm elsewhere) from_source, passFlag_of_not_close rfl]
        simp [from_source]
      · rw [handOver_of_apart (Ne.symm elsewhere) from_source, List.any_cons, List.any_cons, ih distinct]
        simp [Ne.symm from_source]

theorem source_of_redirect {dest temp_fd : Int} (other : dest ≠ temp_fd) :
    dest ∉ (redirect dest temp_fd rest).map InjectionArc.source := by
  intro member
  obtain ⟨j, listed, source⟩ := List.mem_map.mp member
  obtain ⟨old, -, rfl⟩ := List.mem_map.mp listed
  split at source
  · exact other source.symm
  next different => exact different source.symm

theorem closes_of_elsewhere (dest : i.dest = fd) (source : i.source ≠ fd) : closes fd (i :: rest) = false := by
  rw [closes, if_pos dest, decide_eq_false source, Bool.false_and]

theorem closes_moved (different : i.source ≠ i.dest) (unneeded : i.dest ∉ rest.map InjectionArc.source) :
    (closes fd (i :: rest)).toNat =
      (if (passFlag i rest).1.close = true ∧ fd = i.source then 1 else 0) + (closes fd (passFlag i rest).2).toNat := by
  by_cases source : i.source = fd
  · subst source
    rw [closes_passFlag different.symm]
    cases (passFlag i rest).1.close <;> simp
  · rw [if_neg fun both => source both.2.symm, Nat.zero_add, closes_passFlag_of_ne source]
    by_cases dest : i.dest = fd
    · have none : ∀ j ∈ rest, j.source ≠ fd :=
        fun j member same => unneeded (List.mem_map.mpr ⟨j, member, same.trans dest.symm⟩)
      rw [closes_of_elsewhere dest source, closes_of_no_source none]
    · rw [closes_skip (fun same => absurd same source) dest]

theorem closes_redirected {temp_fd : Int} (different : i.source ≠ i.dest) (new : temp_fd ≠ fd) :
    closes fd (i :: rest) = closes fd (i :: redirect i.dest temp_fd rest) := by
  by_cases dest : i.dest = fd
  · have source : i.source ≠ fd := dest ▸ different
    rw [closes_of_elsewhere dest source, closes_of_elsewhere dest source]
  · exact (closes_of_alike (.cons ⟨rfl, Iff.rfl, fun _ => rfl⟩ (alike_redirect dest new))).symm

section Running
variable {pick : Table File → Int → Option Int} {accepts : Table File → Int → Int → Bool}
  {arcs : List InjectionArc} {extra_fds later : List Int} {table final : Table File}

theorem Ran.duplicated_suffix (ran : Ran pick accepts arcs extra_fds table later final) :
    table.duplicated <:+ final.duplicated := by
  induction ran with
  | done => exact List.suffix_rfl
  | inPlace identity ran ih => exact ih
  | moved different unneeded accepted ran ih => simpa using ih
  | duplicated different needed picked accepted ran ih =>
    exact (List.suffix_cons _ _).trans (by simpa using ih)

theorem Ran.count_closed {Dest : Int → Prop} (apart : ∀ {table fd new}, pick table fd = some new → ¬ Dest new)
    (ran : Ran pick accepts arcs extra_fds table later final) (dests : ∀ fd ∈ arcs.map InjectionArc.dest, Dest fd)
    (distinct : (arcs.map InjectionArc.dest).Nodup) (own : fd ∉ final.duplicated) :
    final.closed.count fd = table.closed.count fd + (closes fd arcs).toNat := by
  induction ran with
  | done => rfl
  | @inPlace i rest extra_fds later table final identity ran ih =>
    obtain ⟨dest, distinct⟩ := List.nodup_cons.mp distinct
    obtain ⟨-, dests⟩ := List.forall_mem_cons.mp dests
    rw [← map_dest_passFlag i rest] at dests distinct
    rw [ih dests distinct own]
    have others : ∀ j ∈ rest, j.dest ≠ i.source :=
      fun j member same => dest (List.mem_map.mpr ⟨j, member, same.trans identity⟩)
    by_cases source : i.source = fd
    · rw [← source, closes_passFlag_inPlace identity others]
    · rw [closes_passFlag_of_ne source, closes_skip (fun same => absurd same source) (identity ▸ source)]
  | @moved i rest extra_fds later table final different unneeded accepted ran ih =>
    obtain ⟨-, distinct⟩ := List.nodup_cons.mp distinct
    obtain ⟨-, dests⟩ := List.forall_mem_cons.mp dests
    rw [← map_dest_passFlag i rest] at dests distinct
    rw [ih dests distinct own, Table.count_closed_settle, (passFlag_ends i rest).1, Table.closed_copy, Nat.add_assoc,
      closes_moved different unneeded]
  | @duplicated i rest extra_fds later table final temp_fd different needed picked accepted ran ih =>
    obtain ⟨-, distinct⟩ := List.nodup_cons.mp distinct
    obtain ⟨dest, dests⟩ := List.forall_mem_cons.mp dests
    have mine : temp_fd ∈ final.duplicated := ran.duplicated_suffix.subset (by simp)
    have new : temp_fd ≠ fd := fun same => own (same ▸ mine)
    have other : i.dest ≠ temp_fd := fun same => apart picked (same ▸ dest)
    rw [← map_dest_redirect i.dest temp_fd, ← map_dest_passFlag i] at dests distinct
    rw [ih dests distinct own, Table.count_closed_settle, (passFlag_ends i _).1, Table.closed_copy,
      Table.closed_duplicate, Nat.add_assoc, closes_redirected different new,
      closes_moved different (source_of_redirect other)]

theorem Ran.extras_duplicated (ran : Ran pick accepts arcs extra_fds table later final)
    (before : ∀ x ∈ extra_fds, x ∈ table.duplicated) : ∀ x ∈ later, x ∈ final.duplicated := by
  induction ran with
  | done => exact before
  | inPlace identity ran ih => exact ih before
  | moved different unneeded accepted ran ih => exact ih (by simpa using before)
  | duplicated different needed picked accepted ran ih =>
    refine ih fun x member => ?_
    rcases mem_pushExtra member with old | new
    · simp [before x old]
    · simp [new]

theorem Ran.mem_duplicated (ran : Ran pick accepts arcs extra_fds table later final) {x : Int}
    (member : x ∈ final.duplicated) : x ∈ table.duplicated ∨ ∃ before fd, pick before fd = some x := by
  induction ran with
  | done => exact .inl member
  | inPlace identity ran ih => exact ih member
  | moved different unneeded accepted ran ih => simpa using ih member
  | duplicated different needed picked accepted ran ih =>
    rcases ih member with old | given
    · rcases List.mem_cons.mp (by simpa using old) with new | old
      · exact .inr ⟨_, _, new ▸ picked⟩
      · exact .inl old
    · exact .inr given

end Running

theorem closes_append {front back : List InjectionArc} {k : InjectionArc} (dest : k.dest = fd)
    (distinct : ((front ++ k :: back).map InjectionArc.dest).Nodup) :
    closes fd (front ++ k :: back) = closes fd (k :: back) := by
  induction front with
  | nil => rfl
  | cons i front ih =>
    obtain ⟨apart, distinct⟩ := List.nodup_cons.mp distinct
    have member : k ∈ front ++ k :: back := List.mem_append_right _ List.mem_cons_self
    have other : i.dest ≠ fd := fun same => apart (List.mem_map.mpr ⟨k, member, dest.trans same.symm⟩)
    rw [List.cons_append, closes_behind other member dest, ih distinct]

end Arcs

/-- The numbers that a map asks to be closed: flagged sources that are no destinations. -/
def ToClose (m : List InjectionArc) (fd : Int) : Prop :=
  (∃ arc ∈ m, arc.source = fd ∧ arc.close = true) ∧ ∀ arc ∈ m, arc.dest ≠ fd

instance (m : List InjectionArc) (fd : Int) : Decidable (ToClose m fd) := inferInstanceAs (Decidable (_ ∧ _))

/-- An arc in place stands before another arc from the same number, and one of the two is flagged. -/
def ClosesDestination (m : List InjectionArc) : Prop :=
  ∃ front k back, m = front ++ k :: back ∧ k.source = k.dest ∧
    ∃ j ∈ back, j.source = k.source ∧ (k.close = true ∨ j.close = true)

theorem closes_iff_of_not {m : List InjectionArc} (distinct : (m.map InjectionArc.dest).Nodup)
    (safe : ¬ ClosesDestination m) (fd : Int) : closes fd m = true ↔ ToClose m fd := by
  by_cases listed : fd ∈ m.map InjectionArc.dest
  · obtain ⟨k, member, dest⟩ := List.mem_map.mp listed
    obtain ⟨front, back, rfl⟩ := List.append_of_mem member
    refine iff_of_false ?_ fun toClose => toClose.2 k member dest
    rw [closes_append dest distinct, closes, if_pos dest]
    intro closed
    simp only [Bool.and_eq_true, decide_eq_true_eq, List.any_eq_true, Bool.or_eq_true] at closed
    obtain ⟨source, j, behind, from_fd, flag⟩ := closed
    exact safe ⟨front, k, back, rfl, source.trans dest.symm, j, behind, from_fd.trans source.symm, flag⟩
  · have none : ∀ arc ∈ m, arc.dest ≠ fd := fun arc member same => listed (List.mem_map.mpr ⟨arc, member, same⟩)
    rw [closes_of_no_dest none, ToClose, and_iff_left none]
    simp

theorem closes_of_closesDestination {m : List InjectionArc} (distinct : (m.map InjectionArc.dest).Nodup)
    (unsafe_ : ClosesDestination m) : ∃ arc ∈ m, closes arc.dest m = true := by
  obtain ⟨front, k, back, rfl, identity, j, behind, source, flag⟩ := unsafe_
  refine ⟨k, List.mem_append_right _ List.mem_cons_self, ?_⟩
  rw [closes_append rfl distinct, closes, if_pos rfl, decide_eq_true identity, Bool.true_and, List.any_eq_true]
  exact ⟨j, behind, by simpa [source.trans identity] using flag⟩

section Shuffling
variable {pick : Table File → Int → Option Int} {accepts : Table File → Int → Int → Bool}
  {file : Int → Option File} {m : List InjectionArc} {final : Table File}

/-- Every duplicate is a number that is not in the map and was not given before, nor the one that stands for none. -/
def Fresh (pick : Table File → Int → Option Int) (m : List InjectionArc) : Prop :=
  ∀ table fd new, pick table fd = some new →
    new ≠ -1 ∧ new ∉ table.duplicated ∧ ∀ arc ∈ m, new ≠ arc.source ∧ new ≠ arc.dest

/-- The number is in the map. -/
def Listed (m : List InjectionArc) (fd : Int) : Prop := ∃ arc ∈ m, fd = arc.source ∨ fd = arc.dest

theorem Fresh.not_listed (fresh : Fresh pick m) {table : Table File} {fd new : Int}
    (picked : pick table fd = some new) : ¬ Listed m new := by
  rintro ⟨arc, member, source | dest⟩
  · exact ((fresh table fd new picked).2.2 arc member).1 source
  · exact ((fresh table fd new picked).2.2 arc member).2 dest

theorem Fresh.reserved (fresh : Fresh pick m) :
    Reserved pick (Listed m) fun table x => Listed m x ∨ x ∈ table.duplicated where
  picked {table fd new} picked := by
    rintro (listed | given)
    · exact fresh.not_listed picked listed
    · exact (fresh table fd new picked).2.1 given
  duplicate _ taken := taken.imp_right fun given => List.mem_cons_of_mem _ given
  temp _ := .inr List.mem_cons_self
  copy _ taken := taken
  dest _ listed := .inl listed
  close _ taken := taken

/-- With fresh duplicates, a shuffle that returns true leaves each destination the file of its source, and closes the
flagged sources that are no destinations once each and no other number but duplicates, exactly if no arc in place
stands before another arc from the same number with a flag on one of the two. -/
theorem shuffle_closes_iff (fresh : Fresh pick m) (distinct : (m.map InjectionArc.dest).Nodup)
    (returned : performInjectiveMultimap (Table.delegate pick accepts) m (Table.fresh file) = some final) :
    ((∀ arc ∈ m, final.file arc.dest = file arc.source) ∧
        ∀ fd, fd ∉ final.duplicated → final.closed.count fd = if ToClose m fd then 1 else 0) ↔
      ¬ ClosesDestination m := by
  obtain ⟨extra_fds, middle, ran, rfl⟩ := ran_of_performInjectiveMultimap
    (fun table fd new picked => (fresh table fd new picked).1) returned
  have extras : ∀ x ∈ extra_fds, x ∈ middle.duplicated := ran.extras_duplicated nofun
  have own : ∀ {fd}, Listed m fd → fd ∉ middle.duplicated := by
    intro fd listed given
    obtain ⟨before, other, picked⟩ := (ran.mem_duplicated given).resolve_left List.not_mem_nil
    exact fresh.not_listed picked listed
  have dest_listed : ∀ fd ∈ m.map InjectionArc.dest, Listed m fd := by
    intro fd member
    obtain ⟨arc, inside, rfl⟩ := List.mem_map.mp member
    exact ⟨arc, inside, .inr rfl⟩
  have count : ∀ fd, fd ∉ middle.duplicated → middle.closed.count fd = (closes fd m).toNat := by
    intro fd own
    have counted := ran.count_closed fresh.not_listed dest_listed distinct own
    rwa [show (Table.fresh file).closed = [] from rfl, List.count_nil, Nat.zero_add] at counted
  have total : ∀ fd, fd ∉ middle.duplicated →
      (extra_fds.foldl Table.close middle).closed.count fd = (closes fd m).toNat := by
    intro fd own
    have apart : fd ∉ extra_fds.reverse := fun member => own (extras fd (List.mem_reverse.mp member))
    rw [Table.closed_closeAll, List.count_append, List.count_eq_zero_of_not_mem apart, Nat.zero_add, count fd own]
  rw [Table.duplicated_closeAll]
  constructor
  · rintro ⟨-, exact_⟩ unsafe_
    obtain ⟨arc, member, closed⟩ := closes_of_closesDestination distinct unsafe_
    have given : arc.dest ∉ middle.duplicated := own ⟨arc, member, .inr rfl⟩
    have once := exact_ arc.dest given
    rw [total arc.dest given, closed, if_neg fun toClose => toClose.2 arc member rfl] at once
    exact Nat.one_ne_zero once
  · intro safe
    have closes_iff := closes_iff_of_not distinct safe
    constructor
    · intro arc member
      have listed : Listed m arc.dest := ⟨arc, member, .inr rfl⟩
      have ready : Ready (Listed m) (fun table x => Listed m x ∨ x ∈ table.duplicated) (m.map InjectionArc.ends)
          (Table.fresh file) middle := by
        refine ⟨?_, ?_, ?_, ?_⟩
        · intro ends there
          obtain ⟨other, inside, rfl⟩ := List.mem_map.mp there
          exact .inl ⟨other, inside, .inl rfl⟩
        · intro ends there
          obtain ⟨other, inside, rfl⟩ := List.mem_map.mp there
          exact ⟨other, inside, .inr rfl⟩
        · rw [List.map_map]
          exact distinct
        · intro ends there
          obtain ⟨other, inside, rfl⟩ := List.mem_map.mp there
          have kept : closes other.dest m = false :=
            Bool.eq_false_iff.mpr fun closed => ((closes_iff other.dest).mp closed).2 other inside rfl
          exact (count other.dest (own ⟨other, inside, .inr rfl⟩)).trans (congrArg Bool.toNat kept)
      rw [Table.file_closeAll, if_neg fun inside => own listed (extras arc.dest inside)]
      exact (ran.shuffled fresh.reserved ready).moved arc.ends (List.mem_map_of_mem member)
    · intro fd own
      rw [total fd own]
      by_cases toClose : ToClose m fd
      · rw [if_pos toClose, (closes_iff fd).mpr toClose]
        rfl
      · rw [if_neg toClose, Bool.eq_false_iff.mpr fun closed => toClose ((closes_iff fd).mp closed)]
        rfl

end Shuffling

/-- A delegate that has the number 1000 for its one duplicate. -/
def oneDuplicate (table : Table Nat) (_ : Int) : Option Int := if 1000 ∈ table.duplicated then none else some 1000

/-- A file at every number. -/
def numbered (fd : Int) : Option Nat := some fd.toNat

theorem fresh_oneDuplicate {m : List InjectionArc} (small : ∀ arc ∈ m, 1000 ≠ arc.source ∧ 1000 ≠ arc.dest) :
    Fresh oneDuplicate m := by
  intro table fd new picked
  unfold oneDuplicate at picked
  split at picked
  next => cases picked
  next absent =>
    cases picked
    exact ⟨by decide, absent, small⟩

theorem shuffle_closes_iff_swap :
    ∃ final, performInjectiveMultimap (Table.delegate oneDuplicate fun _ _ _ => true)
        [⟨0, 1, true⟩, ⟨1, 0, false⟩] (Table.fresh numbered) = some final ∧
      (((∀ arc ∈ [InjectionArc.mk 0 1 true, ⟨1, 0, false⟩], final.file arc.dest = numbered arc.source) ∧
          ∀ fd, fd ∉ final.duplicated →
            final.closed.count fd = if ToClose [⟨0, 1, true⟩, ⟨1, 0, false⟩] fd then 1 else 0) ↔
        ¬ ClosesDestination [⟨0, 1, true⟩, ⟨1, 0, false⟩]) := by
  refine ⟨_, rfl, ?_⟩
  exact @shuffle_closes_iff Nat oneDuplicate (fun _ _ _ => true) numbered _ _ (fresh_oneDuplicate (by decide))
    (by decide) rfl

/-- The number 5 stays in place and also goes to 6: the flag of the second arc closes it. -/
theorem not_shuffle_closes :
    ¬ ∀ (pick : Table Nat → Int → Option Int) (accepts : Table Nat → Int → Int → Bool) (file : Int → Option Nat)
      (m : List InjectionArc) (final : Table Nat), Fresh pick m → (m.map InjectionArc.dest).Nodup →
        performInjectiveMultimap (Table.delegate pick accepts) m (Table.fresh file) = some final →
          (∀ arc ∈ m, final.file arc.dest = file arc.source) ∧
            ∀ fd, fd ∉ final.duplicated → final.closed.count fd = if ToClose m fd then 1 else 0 := by
  intro claim
  have moved := (claim oneDuplicate (fun _ _ _ => true) numbered [⟨5, 5, false⟩, ⟨5, 6, true⟩] _
    (fresh_oneDuplicate (by decide)) (by decide) rfl).1 ⟨5, 5, false⟩ (by decide)
  exact absurd moved (by decide)

end Libchrome.Base.Posix
