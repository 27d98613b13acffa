import Libchrome.Base.Posix.ShuffleValues

/-!
# The shuffle on the descriptor table

`dup` returns the lowest number that is not in use, which may be the destination of a later arc. That destination is
then closed with the duplicates at the end.
-/

namespace Libchrome.Base.Posix
variable {File : Type} {limit : Nat}

/-- One of the duplicates, of which the first `room` are closed at the end, comes to the destination of a later arc.
`used` says which numbers are in use. -/
def Collides (limit : Nat) (used : Int → Bool) : Nat → List InjectionArc → Prop
  | _, [] => False
  | room, i :: rest =>
    if i.source ≠ i.dest ∧ i.dest ∈ rest.map InjectionArc.source then
      match Table.lowest limit used with
      | none => False
      | some temp_fd => (0 < room ∧ temp_fd ∈ rest.map InjectionArc.dest) ∨
          Collides limit (fun fd => fd = temp_fd || fd = i.dest || used fd) (room - 1) rest
    else Collides limit (fun fd => fd = i.dest || used fd) room rest

variable {used : Int → Bool}

theorem not_used_of_lowest {fd : Int} (found : Table.lowest limit used = some fd) : used fd = false ∧ fd ≠ -1 := by
  obtain ⟨number, first, rfl⟩ := Option.map_eq_some_iff.mp found
  have free := List.find?_some first
  simp only [Bool.not_eq_true'] at free
  exact ⟨free, fun same => by cases same⟩

theorem dup_eq {table : Table File} {fd new : Int} (picked : Table.dup limit table fd = some new) :
    Table.lowest limit table.used = some new := by
  unfold Table.dup at picked
  split at picked
  · exact picked
  · cases picked

namespace Table
variable (table : Table File) (source dest fd new x : Int)

@[simp] theorem used_copy : (table.copy source dest).used x = if x = dest then table.used source else table.used x := by
  unfold used
  rw [file_copy, apply_ite Option.isSome]

@[simp] theorem used_duplicate :
    (table.duplicate fd new).used x = if x = new then table.used fd else table.used x := by
  unfold used
  rw [file_duplicate, apply_ite Option.isSome]

@[simp] theorem used_close : (table.close fd).used x = if x = fd then false else table.used x := by
  unfold used
  exact apply_ite Option.isSome _ _ _

end Table

theorem reserved_dup :
    Reserved (Table.dup limit) (fun _ => True) fun (table : Table File) x => table.used x = true where
  picked picked := by simp [(not_used_of_lowest (dup_eq picked)).1]
  duplicate source taken := by simp [source, taken]
  temp taken := by simpa using taken
  copy source taken := by simp [source, taken]
  dest source _ := by simpa using source
  close other taken := by simp [other, taken]

theorem collides_zero {arcs : List InjectionArc} : ¬ Collides limit used 0 arcs := by
  induction arcs generalizing used with
  | nil => exact not_false
  | cons i rest ih =>
    unfold Collides
    split
    · split
      · exact not_false
      · rintro (⟨room, -⟩ | later)
        · exact absurd room (Nat.lt_irrefl 0)
        · exact ih later
    · exact ih

theorem mem_source_redirect {dest temp_fd fd : Int} (rest : List InjectionArc) (other : fd ≠ dest)
    (new : fd ≠ temp_fd) :
    fd ∈ (redirect dest temp_fd rest).map InjectionArc.source ↔ fd ∈ rest.map InjectionArc.source := by
  induction rest with
  | nil => exact Iff.rfl
  | cons j rest ih =>
    rw [redirect, List.map_cons, ← redirect, List.map_cons, List.map_cons, List.mem_cons, List.mem_cons, ih]
    by_cases same : dest = j.source
    · simp [same, new, same ▸ other]
    · simp [same]

/-- The redirected arcs have the same duplicates to come, if the duplicate is no destination of theirs. -/
theorem collides_redirect {dest temp_fd : Int} {rest : List InjectionArc} {room : Nat}
    (other : dest ∉ rest.map InjectionArc.dest) (new : temp_fd ∉ rest.map InjectionArc.dest) :
    Collides limit used room (redirect dest temp_fd rest) ↔ Collides limit used room rest := by
  induction rest generalizing used room with
  | nil => exact Iff.rfl
  | cons j rest ih =>
    simp only [List.map_cons, List.mem_cons, not_or] at other new
    have later : ∀ {used : Int → Bool} {room : Nat},
        Collides limit used room (redirect dest temp_fd rest) ↔ Collides limit used room rest := ih other.2 new.2
    have source := mem_source_redirect rest (Ne.symm other.1) (Ne.symm new.1)
    rw [redirect, List.map_cons, ← redirect]
    unfold Collides
    rw [map_dest_redirect]
    by_cases same : dest = j.source
    · have before : j.source ≠ j.dest := same ▸ other.1
      rw [if_pos same]
      simp only [source, later, ne_eq, before, new.1, not_false_eq_true, true_and]
    · rw [if_neg same]
      simp only [source, later]

section Running
variable {arcs : List InjectionArc} {extra_fds later : List Int} {table final : Table File}
  {pick : Table File → Int → Option Int} {accepts : Table File → Int → Int → Bool}

theorem Ran.extras_subset (ran : Ran pick accepts arcs extra_fds table later final) : extra_fds ⊆ later := by
  induction ran with
  | done => exact List.Subset.refl _
  | inPlace identity ran ih => exact ih
  | moved different unneeded accepted ran ih => exact ih
  | duplicated different needed picked accepted ran ih => exact fun x member => ih (pushExtra_subset _ _ member)

theorem Ran.extras_full (ran : Ran pick accepts arcs extra_fds table later final)
    (full : ¬ extra_fds.length < kMaxExtraFDs) : later = extra_fds := by
  induction ran with
  | done => rfl
  | inPlace identity ran ih => exact ih full
  | moved different unneeded accepted ran ih => exact ih full
  | duplicated different needed picked accepted ran ih =>
    rw [pushExtra, if_neg full] at ih
    exact ih full

variable {i : InjectionArc} {rest : List InjectionArc}

theorem passFlag_of_none (none : ∀ j ∈ i :: rest, j.close = false) :
    passFlag i rest = (i, rest) := passFlag_of_not_close (none i List.mem_cons_self) rest

theorem redirect_none {dest temp_fd : Int} (none : ∀ j ∈ rest, j.close = false) :
    ∀ j ∈ redirect dest temp_fd rest, j.close = false := by
  intro j member
  obtain ⟨old, behind, rfl⟩ := List.mem_map.mp member
  split
  · rfl
  · exact none old behind

theorem Table.settle_of_none (none : i.close = false) : table.settle i = table := by
  unfold settle
  rw [none]
  rfl

theorem Ran.closed_of_none (ran : Ran pick accepts arcs extra_fds table later final)
    (none : ∀ j ∈ arcs, j.close = false) : final.closed = table.closed := by
  induction ran with
  | done => rfl
  | inPlace identity ran ih =>
    rw [passFlag_of_none none] at ih
    exact ih fun j behind => none j (List.mem_cons_of_mem _ behind)
  | moved different unneeded accepted ran ih =>
    rw [passFlag_of_none none, Table.settle_of_none (none _ List.mem_cons_self)] at ih
    exact ih fun j behind => none j (List.mem_cons_of_mem _ behind)
  | duplicated different needed picked accepted ran ih =>
    have clear := none _ List.mem_cons_self
    rw [passFlag_of_not_close clear, Table.settle_of_none clear] at ih
    exact ih (redirect_none fun j behind => none j (List.mem_cons_of_mem _ behind))

theorem used_moved (source : table.used i.source = true) :
    (table.copy i.source i.dest).used = fun fd => fd = i.dest || table.used fd := by
  funext fd
  by_cases same : fd = i.dest <;> simp [same, source]

theorem used_duplicated {temp_fd : Int} (source : table.used i.source = true) (needed : table.used i.dest = true) :
    ((table.duplicate i.dest temp_fd).copy i.source i.dest).used =
      fun fd => fd = temp_fd || fd = i.dest || table.used fd := by
  funext fd
  by_cases same : fd = i.dest <;> by_cases new : fd = temp_fd <;> simp [same, new, source, needed]

theorem used_redirect {dest temp_fd : Int} {used : Int → Bool} (sources : ∀ j ∈ rest, used j.source = true) :
    ∀ j ∈ redirect dest temp_fd rest, (decide (j.source = temp_fd) || decide (j.source = dest) || used j.source) = true := by
  intro j member
  obtain ⟨old, behind, rfl⟩ := List.mem_map.mp member
  split
  · simp
  · simp [sources old behind]

/-- The numbers of files in use are not among the duplicates to come. -/
theorem Ran.used_not_extra (ran : Ran (Table.dup limit) (Table.dup2 limit) arcs extra_fds table later final)
    (none : ∀ j ∈ arcs, j.close = false) (sources : ∀ j ∈ arcs, table.used j.source = true) {x : Int}
    (used : table.used x = true) (out : x ∉ extra_fds) : x ∉ later := by
  induction ran with
  | done => exact out
  | inPlace identity ran ih =>
    rw [passFlag_of_none none] at ih
    exact ih (fun j behind => none j (List.mem_cons_of_mem _ behind))
      (fun j behind => sources j (List.mem_cons_of_mem _ behind)) used out
  | moved different unneeded accepted ran ih =>
    rw [passFlag_of_none none, Table.settle_of_none (none _ List.mem_cons_self),
      used_moved (sources _ List.mem_cons_self)] at ih
    exact ih (fun j behind => none j (List.mem_cons_of_mem _ behind))
      (fun j behind => by simp [sources j (List.mem_cons_of_mem _ behind)]) (by simp [used]) out
  | duplicated different needed picked accepted ran ih =>
    have clear := none _ List.mem_cons_self
    have behind_used := fun j behind => sources j (List.mem_cons_of_mem _ behind)
    obtain ⟨j, behind, same⟩ := List.mem_map.mp needed
    rw [passFlag_of_not_close clear, Table.settle_of_none clear,
      used_duplicated (sources _ List.mem_cons_self) (same ▸ behind_used j behind)] at ih
    refine ih (redirect_none fun j behind => none j (List.mem_cons_of_mem _ behind)) (used_redirect behind_used)
      (by simp [used]) fun member => ?_
    rcases mem_pushExtra member with before | new
    · exact out before
    · have free := (not_used_of_lowest (dup_eq picked)).1
      rw [← new, used] at free
      cases free

theorem Ran.collides_iff (ran : Ran (Table.dup limit) (Table.dup2 limit) arcs extra_fds table later final)
    (none : ∀ j ∈ arcs, j.close = false) (sources : ∀ j ∈ arcs, table.used j.source = true)
    (distinct : (arcs.map InjectionArc.dest).Nodup) (apart : ∀ fd ∈ arcs.map InjectionArc.dest, fd ∉ extra_fds) :
    (∃ fd ∈ arcs.map InjectionArc.dest, fd ∈ later) ↔ Collides limit table.used (kMaxExtraFDs - extra_fds.length) arcs := by
  induction ran with
  | done => exact iff_of_false (fun ⟨fd, member, _⟩ => absurd member List.not_mem_nil) not_false
  | @inPlace i rest extra_fds later table final identity ran ih =>
    rw [passFlag_of_none none] at ih ran
    have none_behind := fun j behind => none j (List.mem_cons_of_mem i behind)
    have used_behind := fun j behind => sources j (List.mem_cons_of_mem i behind)
    have used : table.used i.dest = true := identity ▸ sources i List.mem_cons_self
    have same : (fun fd => decide (fd = i.dest) || table.used fd) = table.used := by
      funext fd
      by_cases at_dest : fd = i.dest <;> simp [at_dest, used]
    have unclosed := ran.used_not_extra none_behind used_behind used (apart i.dest List.mem_cons_self)
    rw [List.map_cons, List.exists_mem_cons_iff, or_iff_right unclosed, Collides, if_neg fun both => both.1 identity, same]
    exact ih none_behind used_behind (List.nodup_cons.mp distinct).2 fun fd behind =>
      apart fd (List.mem_cons_of_mem i.dest behind)
  | @moved i rest extra_fds later table final different unneeded accepted ran ih =>
    have clear := none i List.mem_cons_self
    have source := sources i List.mem_cons_self
    rw [passFlag_of_none none, Table.settle_of_none clear] at ih ran
    have none_behind := fun j behind => none j (List.mem_cons_of_mem i behind)
    have used_behind : ∀ j ∈ rest, (table.copy i.source i.dest).used j.source = true := by
      intro j behind
      simp [source, sources j (List.mem_cons_of_mem i behind)]
    have used : (table.copy i.source i.dest).used i.dest = true := by simpa using source
    have unclosed := ran.used_not_extra none_behind used_behind used (apart i.dest List.mem_cons_self)
    rw [List.map_cons, List.exists_mem_cons_iff, or_iff_right unclosed, Collides, if_neg fun both => unneeded both.2,
      ← used_moved source]
    exact ih none_behind used_behind (List.nodup_cons.mp distinct).2 fun fd behind =>
      apart fd (List.mem_cons_of_mem i.dest behind)
  | @duplicated i rest extra_fds later table final temp_fd different needed picked accepted ran ih =>
    have clear := none i List.mem_cons_self
    have source := sources i List.mem_cons_self
    have lowest := dup_eq picked
    obtain ⟨behind_dest, behind_distinct⟩ := List.nodup_cons.mp distinct
    rw [passFlag_of_not_close clear, Table.settle_of_none clear] at ih ran
    by_cases room : extra_fds.length < kMaxExtraFDs
    · have pushed : pushExtra extra_fds temp_fd = extra_fds ++ [temp_fd] := if_pos room
      rw [Collides, if_pos ⟨different, needed⟩, lowest]
      dsimp only
      by_cases collides : temp_fd ∈ rest.map InjectionArc.dest
      · have inside : temp_fd ∈ later :=
          ran.extras_subset (pushed ▸ List.mem_append_right _ (List.mem_singleton_self temp_fd))
        exact iff_of_true ⟨temp_fd, List.mem_cons_of_mem _ collides, inside⟩
          (.inl ⟨Nat.sub_pos_of_lt room, collides⟩)
      · have used_behind := fun j behind => sources j (List.mem_cons_of_mem i behind)
        have used_dest : table.used i.dest = true := by
          obtain ⟨j, behind, same⟩ := List.mem_map.mp needed
          exact same ▸ used_behind j behind
        have used : ((table.duplicate i.dest temp_fd).copy i.source i.dest).used =
            fun fd => fd = temp_fd || fd = i.dest || table.used fd := used_duplicated source used_dest
        have none_behind : ∀ j ∈ redirect i.dest temp_fd rest, j.close = false :=
          redirect_none fun j behind => none j (List.mem_cons_of_mem i behind)
        have still : ∀ j ∈ redirect i.dest temp_fd rest,
            ((table.duplicate i.dest temp_fd).copy i.source i.dest).used j.source = true := by
          rw [used]
          exact used_redirect used_behind
        have free := (not_used_of_lowest lowest).1
        have other : temp_fd ≠ i.dest := fun same => by simp [same, used_dest] at free
        have arrived : ((table.duplicate i.dest temp_fd).copy i.source i.dest).used i.dest = true := by
          rw [used]
          simp
        have unclosed : i.dest ∉ later := by
          refine ran.used_not_extra none_behind still arrived fun member => ?_
          rcases mem_pushExtra member with before | new
          · exact apart i.dest List.mem_cons_self before
          · exact other new.symm
        rw [List.map_cons, List.exists_mem_cons_iff, or_iff_right unclosed, or_iff_right fun both => collides both.2,
          ← used, ← collides_redirect behind_dest collides]
        rw [map_dest_redirect, pushed, List.length_append, List.length_singleton, ← Nat.sub_sub] at ih
        refine ih none_behind still behind_distinct fun fd behind member => ?_
        rcases List.mem_append.mp member with before | new
        · exact apart fd (List.mem_cons_of_mem _ behind) before
        · exact collides (List.mem_singleton.mp new ▸ behind)
    · rw [Nat.sub_eq_zero_of_le (Nat.le_of_not_lt room)]
      have full : later = extra_fds := by
        rw [pushExtra, if_neg room] at ran
        exact ran.extras_full room
      exact iff_of_false (fun ⟨fd, member, inside⟩ => apart fd member (full ▸ inside)) collides_zero

end Running

/-- Without flags, a shuffle that returns true leaves each destination the file of its source exactly if none of the
first sixteen duplicates comes to a destination. -/
theorem shuffle_moves_iff {file : Int → Option File} {m : List InjectionArc} {final : Table File}
    (inUse : ∀ arc ∈ m, (file arc.source).isSome = true) (distinct : (m.map InjectionArc.dest).Nodup)
    (keeps : ∀ arc ∈ m, arc.close = false)
    (returned : performInjectiveMultimap (fileDescriptorTableInjection limit) m (Table.fresh file) = some final) :
    (∀ arc ∈ m, final.file arc.dest = file arc.source) ↔
      ¬ Collides limit (fun fd => (file fd).isSome) kMaxExtraFDs m := by
  obtain ⟨extra_fds, middle, ran, rfl⟩ := ran_of_performInjectiveMultimap
    (fun table fd new picked => (not_used_of_lowest (dup_eq picked)).2) returned
  have collides := ran.collides_iff keeps inUse distinct fun fd _ => List.not_mem_nil
  have unclosed := ran.closed_of_none keeps
  have shuffled : Shuffled (fun table x => table.used x = true) (m.map InjectionArc.ends) (Table.fresh file) middle := by
    refine ran.shuffled reserved_dup ⟨?_, fun _ _ => trivial, ?_, fun _ _ => by rw [unclosed]⟩
    · intro arc member
      obtain ⟨j, behind, rfl⟩ := List.mem_map.mp member
      exact inUse j behind
    · rw [List.map_map]
      exact distinct
  have moved : ∀ arc ∈ m, middle.file arc.dest = file arc.source :=
    fun arc member => shuffled.moved arc.ends (List.mem_map_of_mem member)
  rw [← show _ ↔ Collides limit (fun fd => (file fd).isSome) kMaxExtraFDs m from collides]
  constructor
  · rintro all ⟨fd, member, inside⟩
    obtain ⟨arc, listed, rfl⟩ := List.mem_map.mp member
    have lost := all arc listed
    have inUse := inUse arc listed
    rw [Table.file_closeAll, if_pos inside] at lost
    rw [← lost] at inUse
    cases inUse
  · intro apart arc member
    rw [Table.file_closeAll, if_neg fun inside => apart ⟨arc.dest, List.mem_map_of_mem member, inside⟩]
    exact moved arc member

/-- Two files, at 0 and 1. -/
def twoFiles (fd : Int) : Option Nat := if fd = 0 then some 10 else if fd = 1 then some 11 else none

theorem shuffle_moves_iff_swap :
    ∃ final, performInjectiveMultimap (fileDescriptorTableInjection 8) [⟨0, 1, false⟩, ⟨1, 0, false⟩]
        (Table.fresh twoFiles) = some final ∧
      ((∀ arc ∈ [InjectionArc.mk 0 1 false, ⟨1, 0, false⟩], final.file arc.dest = twoFiles arc.source) ↔
        ¬ Collides 8 (fun fd => (twoFiles fd).isSome) kMaxExtraFDs [⟨0, 1, false⟩, ⟨1, 0, false⟩]) := by
  refine ⟨_, rfl, ?_⟩
  exact shuffle_moves_iff (by decide) (by decide) (by decide) rfl

/-- When the files move up by one, the duplicate of 1 comes to 2, where it is to stay, and is closed. -/
theorem not_shuffle_moves :
    ¬ ∀ (limit : Nat) (file : Int → Option Nat) (m : List InjectionArc) (final : Table Nat),
      (∀ arc ∈ m, (file arc.source).isSome = true) → (m.map InjectionArc.dest).Nodup →
        (∀ arc ∈ m, arc.close = false) →
          performInjectiveMultimap (fileDescriptorTableInjection limit) m (Table.fresh file) = some final →
            ∀ arc ∈ m, final.file arc.dest = file arc.source := by
  intro claim
  have moved := claim 8 twoFiles [⟨0, 1, false⟩, ⟨1, 2, false⟩] _ (by decide) (by decide) (by decide) rfl
    ⟨1, 2, false⟩ (by decide)
  exact absurd moved (by decide)

end Libchrome.Base.Posix
