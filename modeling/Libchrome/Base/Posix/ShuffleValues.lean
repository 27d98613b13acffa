import Libchrome.Base.Posix.ShuffleRun

/-!
# What stands at the destinations

As long as no duplicate comes to a number that is taken and no destination is closed, a run leaves at each destination
what stood at the source, and leaves every other taken number alone.
-/

namespace Libchrome.Base.Posix
variable {File : Type}

namespace Table
variable (table : Table File) (i : InjectionArc) (source dest fd new x : Int)

@[simp] theorem file_copy : (table.copy source dest).file x = if x = dest then table.file source else table.file x :=
  rfl

@[simp] theorem file_duplicate :
    (table.duplicate fd new).file x = if x = new then table.file fd else table.file x := rfl

@[simp] theorem file_settle :
    (table.settle i).file x = if i.close = true ∧ x = i.source then none else table.file x := by
  unfold settle
  by_cases set : i.close = true <;> simp [set, close]

@[simp] theorem closed_copy : (table.copy source dest).closed = table.closed := rfl

@[simp] theorem closed_duplicate : (table.duplicate fd new).closed = table.closed := rfl

@[simp] theorem closed_settle :
    (table.settle i).closed = if i.close = true then i.source :: table.closed else table.closed := by
  unfold settle
  split <;> rfl

@[simp] theorem duplicated_copy : (table.copy source dest).duplicated = table.duplicated := rfl

@[simp] theorem duplicated_duplicate : (table.duplicate fd new).duplicated = new :: table.duplicated := rfl

@[simp] theorem duplicated_settle : (table.settle i).duplicated = table.duplicated := by
  unfold settle
  split <;> rfl

end Table

/-- Numbers that a delegate does not duplicate to, and that stay so until they are closed. `Dest` says which numbers
are destinations. -/
structure Reserved (pick : Table File → Int → Option Int) (Dest : Int → Prop) (Taken : Table File → Int → Prop) :
    Prop where
  picked : ∀ {table fd new}, pick table fd = some new → ¬ Taken table new
  duplicate : ∀ {table fd new x}, Taken table fd → Taken table x → Taken (table.duplicate fd new) x
  temp : ∀ {table fd new}, Taken table fd → Taken (table.duplicate fd new) new
  copy : ∀ {table source dest x}, Taken table source → Taken table x → Taken (table.copy source dest) x
  dest : ∀ {table source dest}, Taken table source → Dest dest → Taken (table.copy source dest) dest
  close : ∀ {table fd x}, x ≠ fd → Taken table x → Taken (table.close fd) x

section Running
variable {pick : Table File → Int → Option Int} {accepts : Table File → Int → Int → Bool}
  {Dest : Int → Prop} {Taken : Table File → Int → Prop} {arcs : List InjectionArc} {extra_fds later : List Int}
  {table final : Table File}

theorem Ran.count_closed_le (ran : Ran pick accepts arcs extra_fds table later final) (x : Int) :
    table.closed.count x ≤ final.closed.count x := by
  have settles : ∀ (table : Table File) (i : InjectionArc), table.closed.count x ≤ (table.settle i).closed.count x := by
    intro table i
    rw [Table.closed_settle]
    split
    · exact List.count_le_count_cons
    · exact Nat.le_refl _
  induction ran with
  | done => exact Nat.le_refl _
  | inPlace identity ran ih => exact ih
  | moved different unneeded accepted ran ih => exact Nat.le_trans (settles (Table.copy _ _ _) _) ih
  | duplicated different needed picked accepted ran ih =>
    exact Nat.le_trans (settles (Table.copy (Table.duplicate _ _ _) _ _) _) ih

theorem Reserved.settle (reserved : Reserved pick Dest Taken) {i : InjectionArc} {x : Int} (taken : Taken table x)
    (apart : i.close = true → x ≠ i.source) : Taken (table.settle i) x := by
  unfold Table.settle
  split
  next close => exact reserved.close (apart close) taken
  next => exact taken

/-- What a run does to the files. -/
structure Shuffled (Taken : Table File → Int → Prop) (arcs : List (Int × Int)) (table final : Table File) : Prop where
  moved : ∀ arc ∈ arcs, final.file arc.2 = table.file arc.1
  kept : ∀ x, Taken table x → x ∉ arcs.map Prod.snd → final.closed.count x = table.closed.count x →
    final.file x = table.file x

/-- What an iteration does to the files: the later arcs find the same file, where `route` points them. -/
structure Iteration (Taken : Table File → Int → Prop) (i : InjectionArc) (rest : List InjectionArc) (route : Int → Int)
    (table next : Table File) : Prop where
  routed : ∀ j ∈ rest, Taken next (route j.source) ∧ next.file (route j.source) = table.file j.source
  arrived : next.file i.dest = table.file i.source
  taken : Taken next i.dest
  kept : ∀ x, Taken table x → x ≠ i.dest → next.closed.count x = table.closed.count x →
    Taken next x ∧ next.file x = table.file x
  closed : ∀ x, table.closed.count x ≤ next.closed.count x

/-- The ends of the later arcs after an iteration. -/
def routeEnds (route : Int → Int) (j : InjectionArc) : Int × Int := (route j.source, j.dest)

/-- What is asked of the arcs that are left. -/
structure Ready (Dest : Int → Prop) (Taken : Table File → Int → Prop) (arcs : List (Int × Int))
    (table final : Table File) : Prop where
  sources : ∀ arc ∈ arcs, Taken table arc.1
  dests : ∀ arc ∈ arcs, Dest arc.2
  distinct : (arcs.map Prod.snd).Nodup
  unclosed : ∀ arc ∈ arcs, final.closed.count arc.2 = table.closed.count arc.2

section Iterating
variable {i : InjectionArc} {rest : List InjectionArc} {route : Int → Int} {next : Table File}

theorem map_snd_routeEnds (route : Int → Int) (rest : List InjectionArc) :
    (rest.map (routeEnds route)).map Prod.snd = (rest.map InjectionArc.ends).map Prod.snd := by
  rw [List.map_map, List.map_map]
  rfl

theorem Iteration.ready (iteration : Iteration Taken i rest route table next)
    (after : ∀ x, next.closed.count x ≤ final.closed.count x)
    (ready : Ready Dest Taken ((i :: rest).map InjectionArc.ends) table final) :
    Ready Dest Taken (rest.map (routeEnds route)) next final where
  sources := by
    intro arc member
    obtain ⟨j, behind, rfl⟩ := List.mem_map.mp member
    exact (iteration.routed j behind).1
  dests := by
    intro arc member
    obtain ⟨j, behind, rfl⟩ := List.mem_map.mp member
    exact ready.dests j.ends (List.mem_map_of_mem (List.mem_cons_of_mem _ behind))
  distinct := by
    rw [map_snd_routeEnds]
    exact (List.nodup_cons.mp ready.distinct).2
  unclosed := by
    intro arc member
    obtain ⟨j, behind, rfl⟩ := List.mem_map.mp member
    have same := ready.unclosed j.ends (List.mem_map_of_mem (List.mem_cons_of_mem _ behind))
    exact Nat.le_antisymm (same ▸ iteration.closed j.dest) (after j.dest)

theorem Iteration.shuffled (iteration : Iteration Taken i rest route table next)
    (after : ∀ x, next.closed.count x ≤ final.closed.count x)
    (ready : Ready Dest Taken ((i :: rest).map InjectionArc.ends) table final)
    (shuffled : Shuffled Taken (rest.map (routeEnds route)) next final) :
    Shuffled Taken ((i :: rest).map InjectionArc.ends) table final where
  moved := by
    intro arc member
    rcases List.mem_cons.mp member with rfl | member
    · have unclosed := ready.unclosed i.ends List.mem_cons_self
      have once : final.closed.count i.dest = next.closed.count i.dest :=
        Nat.le_antisymm (unclosed ▸ iteration.closed i.dest) (after i.dest)
      have distinct := (List.nodup_cons.mp ready.distinct).1
      rw [← map_snd_routeEnds route] at distinct
      exact (shuffled.kept i.dest iteration.taken distinct once).trans iteration.arrived
    · obtain ⟨j, behind, rfl⟩ := List.mem_map.mp member
      have moved := shuffled.moved (routeEnds route j) (List.mem_map_of_mem behind)
      exact moved.trans (iteration.routed j behind).2
  kept := by
    intro x taken other same
    have apart : x ≠ i.dest := fun same => other (same ▸ List.mem_cons_self)
    have behind : x ∉ (rest.map (routeEnds route)).map Prod.snd := by
      rw [map_snd_routeEnds]
      exact fun member => other (List.mem_cons_of_mem _ member)
    have before : next.closed.count x = table.closed.count x :=
      Nat.le_antisymm (same ▸ after x) (iteration.closed x)
    obtain ⟨still, file⟩ := iteration.kept x taken apart before
    exact (shuffled.kept x still behind (same.trans before.symm)).trans file

end Iterating

theorem Table.count_closed_settle (i : InjectionArc) (x : Int) :
    (table.settle i).closed.count x =
      table.closed.count x + if i.close = true ∧ x = i.source then 1 else 0 := by
  rw [Table.closed_settle]
  by_cases close : i.close = true
  · by_cases same : x = i.source
    · simp [close, same]
    · simp [close, same, List.count_cons_of_ne (Ne.symm same)]
  · simp [close]

theorem iteration_moved (reserved : Reserved pick Dest Taken) {i passed : InjectionArc} {rest : List InjectionArc}
    (different : i.source ≠ i.dest) (unneeded : i.dest ∉ rest.map InjectionArc.source)
    (same : passed.source = i.source) (last : passed.close = true → ∀ j ∈ rest, i.source ≠ j.source)
    (sources : ∀ j ∈ rest, Taken table j.source) (source : Taken table i.source) (dest : Dest i.dest) :
    Iteration Taken i rest id table ((table.copy i.source i.dest).settle passed) where
  routed := by
    intro j member
    have other : j.source ≠ i.dest := fun same => unneeded (same ▸ List.mem_map_of_mem member)
    refine ⟨reserved.settle (reserved.copy source (sources j member)) fun close =>
      same ▸ (last close j member).symm, ?_⟩
    have open_ : ¬(passed.close = true ∧ j.source = i.source) := fun both => last both.1 j member both.2.symm
    simp [same, other, open_]
  arrived := by simp [same, different.symm]
  taken := reserved.settle (reserved.dest source dest) fun _ => same ▸ different.symm
  kept := by
    intro x taken other count
    rw [Table.count_closed_settle, Table.closed_copy, same] at count
    have open_ : ¬(passed.close = true ∧ x = i.source) := fun both => by simp [both] at count
    refine ⟨reserved.settle (reserved.copy source taken) fun close => same ▸ fun at_source => open_ ⟨close, at_source⟩, ?_⟩
    simp [same, other, open_]
  closed := by
    intro x
    rw [Table.count_closed_settle, Table.closed_copy]
    exact Nat.le_add_right _ _

theorem iteration_duplicated (reserved : Reserved pick Dest Taken) {i passed : InjectionArc} {rest : List InjectionArc}
    {temp_fd : Int} (different : i.source ≠ i.dest) (picked : pick table i.dest = some temp_fd)
    (same : passed.source = i.source)
    (last : passed.close = true → ∀ j ∈ rest, i.dest ≠ j.source → i.source ≠ j.source)
    (sources : ∀ j ∈ rest, Taken table j.source) (source : Taken table i.source) (needed : Taken table i.dest)
    (dest : Dest i.dest) :
    Iteration Taken i rest (fun fd => if i.dest = fd then temp_fd else fd) table
      (((table.duplicate i.dest temp_fd).copy i.source i.dest).settle passed) where
  routed := by
    intro j member
    have new : temp_fd ≠ i.source ∧ temp_fd ≠ i.dest ∧ j.source ≠ temp_fd :=
      ⟨fun eq => reserved.picked picked (eq ▸ source), fun eq => reserved.picked picked (eq ▸ needed),
        fun eq => reserved.picked picked (eq ▸ sources j member)⟩
    by_cases redirected : i.dest = j.source
    · rw [if_pos redirected]
      refine ⟨reserved.settle (reserved.copy (reserved.duplicate needed source) (reserved.temp needed)) fun _ =>
        same ▸ new.1, ?_⟩
      simp [← redirected, same, new]
    · rw [if_neg redirected]
      refine ⟨reserved.settle (reserved.copy (reserved.duplicate needed source) (reserved.duplicate needed (sources j member)))
        fun close => same ▸ (last close j member redirected).symm, ?_⟩
      have open_ : ¬(passed.close = true ∧ j.source = i.source) :=
        fun both => last both.1 j member redirected both.2.symm
      simp [same, open_, new, Ne.symm redirected]
  arrived := by
    have new : i.source ≠ temp_fd := fun eq => reserved.picked picked (eq ▸ source)
    simp [same, different.symm, new]
  taken := reserved.settle (reserved.dest (reserved.duplicate needed source) dest) fun _ => same ▸ different.symm
  kept := by
    intro x taken other count
    rw [Table.count_closed_settle, Table.closed_copy, Table.closed_duplicate, same] at count
    have open_ : ¬(passed.close = true ∧ x = i.source) := fun both => by simp [both] at count
    have new : x ≠ temp_fd := fun eq => reserved.picked picked (eq ▸ taken)
    refine ⟨reserved.settle (reserved.copy (reserved.duplicate needed source) (reserved.duplicate needed taken)) fun close =>
      same ▸ fun at_source => open_ ⟨close, at_source⟩, ?_⟩
    simp [same, other, open_, new]
  closed := by
    intro x
    rw [Table.count_closed_settle, Table.closed_copy, Table.closed_duplicate]
    exact Nat.le_add_right _ _

theorem map_ends_redirect (dest temp_fd : Int) (rest : List InjectionArc) :
    (redirect dest temp_fd rest).map InjectionArc.ends =
      rest.map (routeEnds fun fd => if dest = fd then temp_fd else fd) := by
  rw [redirect, List.map_map]
  refine List.map_congr_left fun j _ => ?_
  by_cases same : dest = j.source <;> simp [same, InjectionArc.ends, routeEnds]

theorem mem_redirect {dest temp_fd : Int} {rest : List InjectionArc} {j : InjectionArc} (member : j ∈ rest)
    (other : dest ≠ j.source) : j ∈ redirect dest temp_fd rest :=
  List.mem_map.mpr ⟨j, member, if_neg other⟩

/-- A run shuffles the files, if it closes no destination. -/
theorem Ran.shuffled (reserved : Reserved pick Dest Taken) (ran : Ran pick accepts arcs extra_fds table later final)
    (ready : Ready Dest Taken (arcs.map InjectionArc.ends) table final) :
    Shuffled Taken (arcs.map InjectionArc.ends) table final := by
  induction ran with
  | done => exact ⟨fun arc member => absurd member List.not_mem_nil, fun x _ _ _ => rfl⟩
  | @inPlace i rest extra_fds later table final identity ran ih =>
    have sources := fun j behind => ready.sources (InjectionArc.ends j) (List.mem_map_of_mem behind)
    have iteration : Iteration Taken i rest id table table := {
      routed := fun j behind => ⟨sources j (List.mem_cons_of_mem _ behind), rfl⟩
      arrived := congrArg table.file identity.symm
      taken := identity ▸ sources i List.mem_cons_self
      kept := fun x taken _ _ => ⟨taken, rfl⟩
      closed := fun x => Nat.le_refl _ }
    rw [map_ends_passFlag] at ih
    exact iteration.shuffled ran.count_closed_le ready (ih (iteration.ready ran.count_closed_le ready))
  | @moved i rest extra_fds later table final different unneeded accepted ran ih =>
    have sources := fun j behind => ready.sources (InjectionArc.ends j) (List.mem_map_of_mem behind)
    have last : (passFlag i rest).1.close = true → ∀ j ∈ rest, i.source ≠ j.source :=
      fun close j behind => ((passFlag_close close).2 j behind).2
    have iteration := iteration_moved reserved different unneeded (passFlag_ends i rest).1 last
      (fun j behind => sources j (List.mem_cons_of_mem _ behind)) (sources i List.mem_cons_self)
      (ready.dests i.ends List.mem_cons_self)
    rw [map_ends_passFlag] at ih
    exact iteration.shuffled ran.count_closed_le ready (ih (iteration.ready ran.count_closed_le ready))
  | @duplicated i rest extra_fds later table final temp_fd different needed picked accepted ran ih =>
    have sources := fun j behind => ready.sources (InjectionArc.ends j) (List.mem_map_of_mem behind)
    have needed : Taken table i.dest := by
      obtain ⟨j, behind, same⟩ := List.mem_map.mp needed
      exact same ▸ sources j (List.mem_cons_of_mem _ behind)
    have iteration := iteration_duplicated reserved different picked
      (passFlag_ends i (redirect i.dest temp_fd rest)).1
      (fun close j behind other => ((passFlag_close close).2 j (mem_redirect behind other)).2)
      (fun j behind => sources j (List.mem_cons_of_mem _ behind)) (sources i List.mem_cons_self) needed
      (ready.dests i.ends List.mem_cons_self)
    rw [map_ends_passFlag, map_ends_redirect] at ih
    exact iteration.shuffled ran.count_closed_le ready (ih (iteration.ready ran.count_closed_le ready))

end Running
end Libchrome.Base.Posix
