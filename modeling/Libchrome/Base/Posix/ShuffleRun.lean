import Mathlib.Data.List.Basic
import Mathlib.Data.List.Nodup
import Mathlib.Tactic.Common

/-!
# Shuffling file descriptors

`PerformInjectiveMultimap` carries out the arcs of a map one after the other, through a delegate. Before it overwrites
the source of a later arc it lets the delegate duplicate that source, and points the later arc at the duplicate.
-/

namespace Libchrome.Base.Posix

/-- The operations of a delegate on its domain. `none` is a return value of false. -/
structure InjectionDelegate (State : Type) where
  duplicate : Int → State → Option (Int × State)
  move : Int → Int → State → Option State
  close : Int → State → State

structure InjectionArc where
  source : Int
  dest : Int
  close : Bool
  deriving DecidableEq, Repr

def kMaxExtraFDs : Nat := 16

/-- The variables of the loop over the arcs behind the arc `i`. -/
structure Scan (State : Type) where
  arc : InjectionArc
  temp_fd : Int
  /-- The part of the array that is filled. -/
  extra_fds : List Int
  state : State

section Performing
variable {State : Type} (delegate : InjectionDelegate State)

/-- A duplicate that no room is left for is never closed. -/
def pushExtra (extra_fds : List Int) (temp_fd : Int) : List Int :=
  if extra_fds.length < kMaxExtraFDs then extra_fds ++ [temp_fd] else extra_fds

/-- The duplicate of the destination, made where it is needed for the first time. -/
def ensureTemp (scan : Scan State) : Option (Scan State) :=
  if scan.temp_fd = -1 then do
    let (temp_fd, state) ← delegate.duplicate scan.arc.dest scan.state
    return { scan with temp_fd := temp_fd, extra_fds := pushExtra scan.extra_fds temp_fd, state := state }
  else some scan

/-- Points a later arc at the duplicate of what its source will lose. -/
def redirectArc (is_identity : Bool) (scan : Scan State) (j : InjectionArc) :
    Option (Scan State × InjectionArc) :=
  if !is_identity ∧ scan.arc.dest = j.source then do
    let scan ← ensureTemp delegate scan
    return (scan, { j with source := scan.temp_fd, close := false })
  else some (scan, j)

/-- What becomes of the flag of the arc `i` at a later arc: a source that is a destination is not to be closed, and one
that is used again is to be closed there. -/
def handOver (i j : InjectionArc) : InjectionArc × InjectionArc :=
  let i := if i.close ∧ i.source = j.dest then { i with close := false } else i
  if i.close ∧ i.source = j.source then ({ i with close := false }, { j with close := true }) else (i, j)

def scanArcs (is_identity : Bool) : Scan State → List InjectionArc → Option (Scan State × List InjectionArc)
  | scan, [] => some (scan, [])
  | scan, j :: rest => do
    let (scan, j) ← redirectArc delegate is_identity scan j
    let (i, j) := handOver scan.arc j
    let (scan, rest) ← scanArcs is_identity { scan with arc := i } rest
    return (scan, j :: rest)

/-- The loop over the arcs, of which `count` are left. -/
def performArcs : Nat → List InjectionArc → List Int → State → Option (List Int × State)
  | 0, _, extra_fds, state => some (extra_fds, state)
  | _ + 1, [], extra_fds, state => some (extra_fds, state)
  | count + 1, i :: rest, extra_fds, state => do
    let (scan, rest) ← scanArcs delegate (i.source = i.dest) ⟨i, -1, extra_fds, state⟩ rest
    let state ← if i.source = i.dest then some scan.state
      else delegate.move scan.arc.source scan.arc.dest scan.state
    let state := if i.source ≠ i.dest ∧ scan.arc.close then delegate.close scan.arc.source state else state
    performArcs count rest scan.extra_fds state

/-- `PerformInjectiveMultimap`; it returns true where there is a result. -/
def performInjectiveMultimap (m : List InjectionArc) (state : State) : Option State := do
  let (extra_fds, state) ← performArcs delegate m.length m [] state
  return extra_fds.foldl (fun state fd => delegate.close fd state) state

end Performing

/-- What stands at each number, and what has been duplicated and closed, the latest first. -/
structure Table (File : Type) where
  file : Int → Option File
  duplicated : List Int
  closed : List Int

namespace Table
variable {File : Type}

/-- Nothing has been duplicated or closed. -/
def fresh (file : Int → Option File) : Table File := ⟨file, [], []⟩

/-- What stands at `source` also stands at `dest`. -/
def copy (table : Table File) (source dest : Int) : Table File :=
  { table with file := fun fd => if fd = dest then table.file source else table.file fd }

def duplicate (table : Table File) (fd new : Int) : Table File :=
  { table.copy fd new with duplicated := new :: table.duplicated }

def close (table : Table File) (fd : Int) : Table File :=
  { table with
    file := fun other => if other = fd then none else table.file other
    closed := fd :: table.closed }

/-- A delegate that duplicates to the numbers that `pick` gives, and moves what `accepts` lets it. -/
def delegate (pick : Table File → Int → Option Int) (accepts : Table File → Int → Int → Bool) :
    InjectionDelegate (Table File) where
  duplicate fd table := (pick table fd).map fun new => (new, table.duplicate fd new)
  move source dest table := if accepts table source dest then some (table.copy source dest) else none
  close fd table := table.close fd

/-- The lowest number that is not in use. -/
def lowest (limit : Nat) (used : Int → Bool) : Option Int :=
  ((List.range limit).find? fun fd : Nat => !used fd).map Int.ofNat

def used (table : Table File) (fd : Int) : Bool := (table.file fd).isSome

/-- The number that `dup` returns, of a process that may have `limit` files. -/
def dup (limit : Nat) (table : Table File) (fd : Int) : Option Int :=
  if table.used fd then lowest limit table.used else none

/-- The arguments on which `dup2` does not fail. -/
def dup2 (limit : Nat) (table : Table File) (source dest : Int) : Bool :=
  table.used source && decide (0 ≤ dest ∧ dest < limit)

end Table

/-- The table of the process as the domain. -/
def fileDescriptorTableInjection {File : Type} (limit : Nat) : InjectionDelegate (Table File) :=
  Table.delegate (Table.dup limit) (Table.dup2 limit)

/-!
## The run of a shuffle, arc by arc

One pass over the later arcs is a redirection to the duplicate, followed by the hand-over of the flag. A run that
succeeds is then a derivation with one rule for each kind of arc: in place, moved, or moved after a duplication.
-/

variable {File : Type}

/-- The later arcs, with every source `dest` replaced by the duplicate. -/
def redirect (dest temp_fd : Int) (rest : List InjectionArc) : List InjectionArc :=
  rest.map fun j => if dest = j.source then { j with source := temp_fd, close := false } else j

/-- The flag of an arc after the arcs behind it, and these. -/
def passFlag (i : InjectionArc) : List InjectionArc → InjectionArc × List InjectionArc
  | [] => (i, [])
  | j :: rest =>
    let (i, j) := handOver i j
    let (i, rest) := passFlag i rest
    (i, j :: rest)

theorem passFlag_cons (i j : InjectionArc) (rest : List InjectionArc) :
    passFlag i (j :: rest) = ((passFlag (handOver i j).1 rest).1,
      (handOver i j).2 :: (passFlag (handOver i j).1 rest).2) := rfl

variable {i : InjectionArc}

theorem handOver_of_not_close (clear : i.close = false) (j : InjectionArc) : handOver i j = (i, j) := by
  simp [handOver, clear]

variable {j : InjectionArc}

theorem handOver_of_dest (close : i.close = true) (dest : i.source = j.dest) :
    handOver i j = ({ i with close := false }, j) := by
  simp [handOver, close, dest]

theorem handOver_of_source (close : i.close = true) (dest : i.source ≠ j.dest) (source : i.source = j.source) :
    handOver i j = ({ i with close := false }, { j with close := true }) := by
  simp only [handOver, dest, and_false, if_false]
  exact if_pos ⟨close, source⟩

theorem handOver_of_apart (dest : i.source ≠ j.dest) (source : i.source ≠ j.source) : handOver i j = (i, j) := by
  simp [handOver, dest, source]

theorem handOver_ends (i j : InjectionArc) :
    (handOver i j).1.source = i.source ∧ (handOver i j).1.dest = i.dest ∧ (handOver i j).2.source = j.source ∧
      (handOver i j).2.dest = j.dest := by
  unfold handOver
  dsimp only
  split <;> split <;> exact ⟨rfl, rfl, rfl, rfl⟩

theorem passFlag_ends (i : InjectionArc) (rest : List InjectionArc) :
    (passFlag i rest).1.source = i.source ∧ (passFlag i rest).1.dest = i.dest := by
  induction rest generalizing i with
  | nil => exact ⟨rfl, rfl⟩
  | cons j rest ih =>
    have one := handOver_ends i j
    have later := ih (handOver i j).1
    exact ⟨later.1.trans one.1, later.2.trans one.2.1⟩

/-- An arc without its flag. -/
def InjectionArc.ends (arc : InjectionArc) : Int × Int := (arc.source, arc.dest)

/-- The flags move, the arcs stay. -/
theorem map_ends_passFlag (i : InjectionArc) (rest : List InjectionArc) :
    (passFlag i rest).2.map InjectionArc.ends = rest.map InjectionArc.ends := by
  induction rest generalizing i with
  | nil => rfl
  | cons j rest ih =>
    have same := handOver_ends i j
    have ends : (handOver i j).2.ends = j.ends := Prod.ext same.2.2.1 same.2.2.2
    rw [passFlag, List.map_cons, List.map_cons, ih, ends]

theorem map_dest_passFlag (i : InjectionArc) (rest : List InjectionArc) :
    (passFlag i rest).2.map InjectionArc.dest = rest.map InjectionArc.dest := by
  have same := congrArg (List.map Prod.snd) (map_ends_passFlag i rest)
  rwa [List.map_map, List.map_map] at same

theorem map_dest_redirect (dest temp_fd : Int) (rest : List InjectionArc) :
    (redirect dest temp_fd rest).map InjectionArc.dest = rest.map InjectionArc.dest := by
  rw [redirect, List.map_map]
  refine List.map_congr_left fun j _ => ?_
  by_cases same : dest = j.source <;> simp [same]

theorem passFlag_of_not_close (clear : i.close = false) (rest : List InjectionArc) : passFlag i rest = (i, rest) := by
  induction rest with
  | nil => rfl
  | cons j rest ih => rw [passFlag_cons, handOver_of_not_close clear, ih]

/-- A flag that is kept belongs to a source that no later arc has at either end. -/
theorem passFlag_close {rest : List InjectionArc} (close : (passFlag i rest).1.close = true) :
    i.close = true ∧ ∀ j ∈ rest, i.source ≠ j.dest ∧ i.source ≠ j.source := by
  induction rest generalizing i with
  | nil => exact ⟨close, fun j member => absurd member List.not_mem_nil⟩
  | cons j rest ih =>
    rw [passFlag_cons] at close
    have set : i.close = true := by
      by_contra unset
      have clear := Bool.eq_false_iff.mpr unset
      rw [handOver_of_not_close clear, passFlag_of_not_close clear] at close
      exact unset close
    have dest : i.source ≠ j.dest := by
      intro same
      rw [handOver_of_dest set same, passFlag_of_not_close rfl] at close
      cases close
    have source : i.source ≠ j.source := by
      intro same
      rw [handOver_of_source set dest same, passFlag_of_not_close rfl] at close
      cases close
    rw [handOver_of_apart dest source] at close
    refine ⟨set, fun other member => ?_⟩
    rcases List.mem_cons.mp member with rfl | member
    · exact ⟨dest, source⟩
    · exact (ih close).2 other member

theorem pushExtra_subset (extra_fds : List Int) (temp_fd : Int) : extra_fds ⊆ pushExtra extra_fds temp_fd := by
  unfold pushExtra
  split
  · exact List.subset_append_left _ _
  · exact List.Subset.refl _

theorem mem_pushExtra {extra_fds : List Int} {temp_fd fd : Int} (member : fd ∈ pushExtra extra_fds temp_fd) :
    fd ∈ extra_fds ∨ fd = temp_fd := by
  unfold pushExtra at member
  split at member
  · simpa using member
  · exact .inl member

section Scanning
variable {State : Type} {delegate : InjectionDelegate State}

variable {scan : Scan State}

theorem scanArcs_cons {is_identity : Bool} {later : Scan State} {j redirected : InjectionArc}
    (rest : List InjectionArc) (step : redirectArc delegate is_identity scan j = some (later, redirected)) :
    scanArcs delegate is_identity scan (j :: rest) =
      (scanArcs delegate is_identity { later with arc := (handOver later.arc redirected).1 } rest).map
        fun scanned => (scanned.1, (handOver later.arc redirected).2 :: scanned.2) := by
  rw [scanArcs, step, Option.bind_eq_bind, Option.bind_some]
  dsimp only
  generalize handOver later.arc redirected = handed
  cases handed with
  | mk i j =>
    dsimp only
    cases scanArcs delegate is_identity { later with arc := i } rest <;> rfl

theorem scanArcs_unneeded {is_identity : Bool} {rest : List InjectionArc}
    (unneeded : is_identity = true ∨ scan.arc.dest ∉ rest.map InjectionArc.source) :
    scanArcs delegate is_identity scan rest =
      some ({ scan with arc := (passFlag scan.arc rest).1 }, (passFlag scan.arc rest).2) := by
  induction rest generalizing scan with
  | nil => rfl
  | cons j rest ih =>
    have stays : ¬(!is_identity ∧ scan.arc.dest = j.source) := by
      rintro ⟨different, same⟩
      rcases unneeded with identity | unused
      · simp [identity] at different
      · exact unused (same ▸ List.mem_cons_self)
    have later : is_identity = true ∨ (handOver scan.arc j).1.dest ∉ rest.map InjectionArc.source := by
      rw [(handOver_ends scan.arc j).2.1]
      exact unneeded.imp_right fun unused member => unused (List.mem_cons_of_mem _ member)
    rw [scanArcs_cons rest (if_neg stays), ih later]
    rfl

theorem scanArcs_made (made : scan.temp_fd ≠ -1) (rest : List InjectionArc) :
    scanArcs delegate false scan rest =
      some ({ scan with arc := (passFlag scan.arc (redirect scan.arc.dest scan.temp_fd rest)).1 },
        (passFlag scan.arc (redirect scan.arc.dest scan.temp_fd rest)).2) := by
  induction rest generalizing scan with
  | nil => rfl
  | cons j rest ih =>
    have step : redirectArc delegate false scan j = some (scan,
        if scan.arc.dest = j.source then { j with source := scan.temp_fd, close := false } else j) := by
      unfold redirectArc ensureTemp
      by_cases same : scan.arc.dest = j.source
      · rw [if_pos ⟨rfl, same⟩, if_neg made, if_pos same]
        rfl
      · rw [if_neg fun both => same both.2, if_neg same]
    rw [scanArcs_cons rest step, ih, (handOver_ends scan.arc _).2.1]
    · rfl
    · exact made

theorem scanArcs_needed {rest : List InjectionArc} (unmade : scan.temp_fd = -1)
    (real : ∀ fd temp_fd state, delegate.duplicate fd scan.state = some (temp_fd, state) → temp_fd ≠ -1)
    (needed : scan.arc.dest ∈ rest.map InjectionArc.source) :
    scanArcs delegate false scan rest = (delegate.duplicate scan.arc.dest scan.state).map fun made =>
      (⟨(passFlag scan.arc (redirect scan.arc.dest made.1 rest)).1, made.1, pushExtra scan.extra_fds made.1, made.2⟩,
        (passFlag scan.arc (redirect scan.arc.dest made.1 rest)).2) := by
  induction rest generalizing scan with
  | nil => exact absurd needed List.not_mem_nil
  | cons j rest ih =>
    by_cases same : scan.arc.dest = j.source
    · cases made : delegate.duplicate scan.arc.dest scan.state with
      | none =>
        rw [scanArcs, redirectArc, if_pos ⟨rfl, same⟩, ensureTemp, if_pos unmade, made]
        rfl
      | some both =>
        obtain ⟨temp_fd, state⟩ := both
        have step : redirectArc delegate false scan j =
            some (⟨scan.arc, temp_fd, pushExtra scan.extra_fds temp_fd, state⟩,
              { j with source := temp_fd, close := false }) := by
          rw [redirectArc, if_pos ⟨rfl, same⟩, ensureTemp, if_pos unmade, made]
          rfl
        rw [scanArcs_cons rest step, scanArcs_made (real _ _ _ made), (handOver_ends scan.arc _).2.1]
        simp only [Option.map_some, redirect, List.map_cons, if_pos same, passFlag]
    · have later : scan.arc.dest ∈ rest.map InjectionArc.source := (List.mem_cons.mp needed).resolve_left same
      rw [scanArcs_cons rest (if_neg fun both => same both.2), ih, (handOver_ends scan.arc j).2.1]
      · cases delegate.duplicate scan.arc.dest scan.state with
        | none => rfl
        | some made => simp only [Option.map_some, redirect, List.map_cons, if_neg same, passFlag]
      · exact unmade
      · exact real
      · rw [(handOver_ends scan.arc j).2.1]
        exact later

end Scanning

/-- The end of an iteration: the source is closed if the flag is still set. -/
def Table.settle (table : Table File) (i : InjectionArc) : Table File :=
  if i.close then table.close i.source else table

/-- A run of the loop that succeeds, by its arcs: one in place, one that is moved, and one that is moved after its
destination was duplicated. -/
inductive Ran (pick : Table File → Int → Option Int) (accepts : Table File → Int → Int → Bool) :
    List InjectionArc → List Int → Table File → List Int → Table File → Prop where
  | done {extra_fds : List Int} {table : Table File} : Ran pick accepts [] extra_fds table extra_fds table
  | inPlace {i : InjectionArc} {rest : List InjectionArc} {extra_fds later : List Int} {table final : Table File}
      (identity : i.source = i.dest)
      (ran : Ran pick accepts (passFlag i rest).2 extra_fds table later final) :
      Ran pick accepts (i :: rest) extra_fds table later final
  | moved {i : InjectionArc} {rest : List InjectionArc} {extra_fds later : List Int} {table final : Table File}
      (different : i.source ≠ i.dest) (unneeded : i.dest ∉ rest.map InjectionArc.source)
      (accepted : accepts table i.source i.dest = true)
      (ran : Ran pick accepts (passFlag i rest).2 extra_fds
        ((table.copy i.source i.dest).settle (passFlag i rest).1) later final) :
      Ran pick accepts (i :: rest) extra_fds table later final
  | duplicated {i : InjectionArc} {rest : List InjectionArc} {extra_fds later : List Int} {table final : Table File}
      {temp_fd : Int} (different : i.source ≠ i.dest) (needed : i.dest ∈ rest.map InjectionArc.source)
      (picked : pick table i.dest = some temp_fd)
      (accepted : accepts (table.duplicate i.dest temp_fd) i.source i.dest = true)
      (ran : Ran pick accepts (passFlag i (redirect i.dest temp_fd rest)).2 (pushExtra extra_fds temp_fd)
        (((table.duplicate i.dest temp_fd).copy i.source i.dest).settle
          (passFlag i (redirect i.dest temp_fd rest)).1) later final) :
      Ran pick accepts (i :: rest) extra_fds table later final

section Running
variable {pick : Table File → Int → Option Int} {accepts : Table File → Int → Int → Bool}

theorem length_passFlag (i : InjectionArc) (rest : List InjectionArc) :
    (passFlag i rest).2.length = rest.length := by
  simpa only [List.length_map] using congrArg List.length (map_ends_passFlag i rest)

theorem length_redirect (dest temp_fd : Int) (rest : List InjectionArc) :
    (redirect dest temp_fd rest).length = rest.length := List.length_map _

theorem ran_of_performArcs (real : ∀ table fd new, pick table fd = some new → new ≠ -1) {count : Nat}
    {arcs : List InjectionArc} {extra_fds later : List Int} {table final : Table File} (enough : arcs.length ≤ count)
    (performed : performArcs (Table.delegate pick accepts) count arcs extra_fds table = some (later, final)) :
    Ran pick accepts arcs extra_fds table later final := by
  induction count generalizing arcs extra_fds table with
  | zero =>
    cases List.length_eq_zero_iff.mp (Nat.le_zero.mp enough)
    cases performed
    exact .done
  | succ count ih =>
    cases arcs with
    | nil =>
      cases performed
      exact .done
    | cons i rest =>
      have shorter : rest.length ≤ count := Nat.le_of_succ_le_succ enough
      rw [performArcs] at performed
      by_cases identity : i.source = i.dest
      · rw [scanArcs_unneeded (.inl (decide_eq_true identity))] at performed
        simp only [Option.bind_eq_bind, Option.bind_some, identity, if_true, ne_eq, not_true_eq_false, false_and,
          if_false] at performed
        exact .inPlace identity (ih ((length_passFlag i rest).symm ▸ shorter) performed)
      · rw [decide_eq_false identity] at performed
        by_cases needed : i.dest ∈ rest.map InjectionArc.source
        · have given : ∀ fd temp_fd state, (Table.delegate pick accepts).duplicate fd table = some (temp_fd, state) →
              temp_fd ≠ -1 := by
            intro fd temp_fd state made
            obtain ⟨new, picked, same⟩ := Option.map_eq_some_iff.mp made
            cases same
            exact real table fd _ picked
          rw [scanArcs_needed rfl given needed] at performed
          cases picked : pick table i.dest with
          | none => simp [Table.delegate, picked] at performed
          | some temp_fd =>
            have ends := passFlag_ends i (redirect i.dest temp_fd rest)
            by_cases accepted : accepts (table.duplicate i.dest temp_fd) i.source i.dest = true
            · simp only [Table.delegate, picked, Option.map_some, Option.bind_eq_bind, Option.bind_some, identity,
                if_false, ends.1, ends.2, accepted, if_true, ne_eq, not_false_eq_true, true_and] at performed
              refine .duplicated identity needed picked accepted (ih ?_ ?_)
              · rw [length_passFlag, length_redirect]
                exact shorter
              · rw [Table.settle, ends.1]
                exact performed
            · simp [Table.delegate, picked, identity, ends.1, ends.2, accepted] at performed
        · rw [scanArcs_unneeded (.inr needed)] at performed
          have ends := passFlag_ends i rest
          by_cases accepted : accepts table i.source i.dest = true
          · simp only [Table.delegate, Option.bind_eq_bind, Option.bind_some, identity, if_false, ends.1, ends.2,
              accepted, if_true, ne_eq, not_false_eq_true, true_and] at performed
            refine .moved identity needed accepted (ih ?_ ?_)
            · rw [length_passFlag]
              exact shorter
            · rw [Table.settle, ends.1]
              exact performed
          · simp [Table.delegate, identity, ends.1, ends.2, accepted] at performed

/-- A shuffle that returns true is a run, after which the duplicates are closed. -/
theorem ran_of_performInjectiveMultimap (real : ∀ table fd new, pick table fd = some new → new ≠ -1)
    {m : List InjectionArc} {table final : Table File}
    (returned : performInjectiveMultimap (Table.delegate pick accepts) m table = some final) :
    ∃ extra_fds middle, Ran pick accepts m [] table extra_fds middle ∧
      final = extra_fds.foldl Table.close middle := by
  obtain ⟨⟨extra_fds, middle⟩, performed, same⟩ := Option.bind_eq_some_iff.mp returned
  cases same
  exact ⟨extra_fds, middle, ran_of_performArcs real (Nat.le_refl _) performed, rfl⟩

theorem Table.file_closeAll (table : Table File) (fds : List Int) (x : Int) :
    (fds.foldl Table.close table).file x = if x ∈ fds then none else table.file x := by
  induction fds generalizing table with
  | nil => rfl
  | cons fd rest ih =>
    rw [List.foldl_cons, ih]
    by_cases later : x ∈ rest
    · simp [later]
    · by_cases same : x = fd <;> simp [later, same, close]

theorem Table.closed_closeAll (table : Table File) (fds : List Int) :
    (fds.foldl Table.close table).closed = fds.reverse ++ table.closed := by
  induction fds generalizing table with
  | nil => rfl
  | cons fd rest ih => rw [List.foldl_cons, ih, List.reverse_cons, List.append_assoc, List.singleton_append, close]

theorem Table.duplicated_closeAll (table : Table File) (fds : List Int) :
    (fds.foldl Table.close table).duplicated = table.duplicated := by
  induction fds generalizing table with
  | nil => rfl
  | cons fd rest ih => rw [List.foldl_cons, ih, close]

end Running
end Libchrome.Base.Posix
