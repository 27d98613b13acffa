import Mathlib.Tactic.Common

/-!
# Loops that consume

A loop runs while items remain and relies on its body to consume them. A computation made of such
loops is either still going when its fuel is used up, or it ends with the passes that its loops made.
-/

namespace Libchrome.Library.Consuming
variable {ε σ α β : Type}

/-- A round after which the loop went on, with the numbers of items that remained. -/
structure Pass where
  before : Nat
  after : Nat

def Pass.Consumes (pass : Pass) : Prop := pass.after < pass.before

/-- A computation with loops, which is `none` while a loop is still going. -/
def Walk (α : Type) : Type := Option (α × List Pass)

def Walk.andThen (walk : Walk α) (next : α → Walk β) : Walk β :=
  match walk with
  | none => none
  | some (value, passes) =>
    match next value with
    | none => none
    | some (result, more) => some (result, passes ++ more)

instance walkMonad : Monad Walk where
  pure value := some (value, [])
  bind := Walk.andThen

/-- The note that a loop goes on. -/
def noted (before after : Nat) : Walk Unit := some ((), [⟨before, after⟩])

/-- It ends, with a value that `post` admits, and every pass consumed. -/
def Ends (walk : Walk α) (post : α → Prop) : Prop :=
  ∃ value passes, walk = some (value, passes) ∧ (∀ pass ∈ passes, pass.Consumes) ∧ post value

/-- If it ends, then with a value that `post` admits. -/
def Leaves (walk : Walk α) (post : α → Prop) : Prop :=
  ∀ value passes, walk = some (value, passes) → post value

/-- With enough fuel it ends. -/
def Terminates (consumer : Nat → Walk α) : Prop := ∃ fuel, Ends (consumer fuel) fun _ => True

section Rules

variable {walk : Walk α} {next : α → Walk β} {middle : α → Prop} {post : β → Prop}

theorem Ends.pure {value : β} (holds : post value) : Ends (Pure.pure value) post :=
  ⟨value, [], rfl, fun _ member => absurd member List.not_mem_nil, holds⟩

theorem Ends.bind (first : Ends walk middle) (rest : ∀ value, middle value → Ends (next value) post) :
    Ends (walk >>= next) post := by
  obtain ⟨value, passes, rfl, consumed, held⟩ := first
  obtain ⟨result, more, ended, followed, holds⟩ := rest value held
  refine ⟨result, passes ++ more, ?_, ?_, holds⟩
  · change Walk.andThen _ _ = _
    simp only [Walk.andThen, ended]
    rfl
  · intro pass member
    rcases List.mem_append.mp member with former | latter
    · exact consumed pass former
    · exact followed pass latter

theorem Ends.noted {before after : Nat} (consumes : after < before) :
    Ends (Consuming.noted before after) fun _ => True := by
  refine ⟨(), [⟨before, after⟩], rfl, ?_, trivial⟩
  intro pass member
  rw [List.mem_singleton.mp member]
  exact consumes

variable {other : α → Prop}

theorem Ends.mono {post : α → Prop} (ended : Ends walk post) (weaker : ∀ value, post value → other value) :
    Ends walk other := by
  obtain ⟨value, passes, same, consumed, holds⟩ := ended
  exact ⟨value, passes, same, consumed, weaker value holds⟩

theorem Leaves.pure {value : β} (holds : post value) : Leaves (Pure.pure value) post := by
  intro other passes same
  cases same
  exact holds

theorem Leaves.bind (first : Leaves walk middle) (rest : ∀ value, middle value → Leaves (next value) post) :
    Leaves (walk >>= next) post := by
  intro result passes ended
  change Walk.andThen _ _ = _ at ended
  unfold Walk.andThen at ended
  split at ended
  next => cases ended
  next value former =>
    split at ended
    next => cases ended
    next other latter later =>
      cases ended
      exact rest value (first value former rfl) result latter later

theorem Leaves.mono {post : α → Prop} (leaves : Leaves walk post) (weaker : ∀ value, post value → other value) :
    Leaves walk other :=
  fun value passes ended => weaker value (leaves value passes ended)

theorem Leaves.any (walk : Walk α) : Leaves walk fun _ => True :=
  fun _ _ _ => trivial

theorem Ends.and_leaves {post : α → Prop} (ended : Ends walk post) (leaves : Leaves walk other) :
    ∃ value, other value := by
  obtain ⟨value, passes, same, -, -⟩ := ended
  exact ⟨value, leaves value passes same⟩

theorem Ends.first (ended : Ends (walk >>= next) post) (leaves : Leaves walk middle) : ∃ value, middle value := by
  have found : Leaves (walk >>= next) fun _ => ∃ value, middle value :=
    Leaves.bind leaves fun value holds => Leaves.mono (Leaves.any _) fun _ _ => ⟨value, holds⟩
  exact (ended.and_leaves found).choose_spec

end Rules

/-- What a round of a loop comes to: the loop goes on, or its function returns. -/
inductive Round (ε σ β : Type) where
  | again (remaining : List ε) (state : σ)
  | leave (result : β)

/-- `while (HasMoreData()) body`, and what comes after it. -/
def whileMore (body : List ε → σ → Walk (Round ε σ β)) (after : σ → β) : Nat → List ε → σ → Walk β
  | 0, _, _ => none
  | _ + 1, [], state => pure (after state)
  | fuel + 1, item :: rest, state => do
    match ← body (item :: rest) state with
    | .again remaining state =>
      noted (item :: rest).length remaining.length
      whileMore body after fuel remaining state
    | .leave result => pure result

section Loops

variable {body : List ε → σ → Walk (Round ε σ β)} {after : σ → β} {post : β → Prop}

/-- The round consumed just one item, or it left the loop. -/
def Advances (invariant : σ → Prop) (post : β → Prop) (rest : List ε) : Round ε σ β → Prop
  | .again remaining state => remaining = rest ∧ invariant state
  | .leave result => post result

/-- The round consumed just one item, a good one, or it changed nothing that remains. -/
def Turns (good : ε → Prop) (invariant : σ → Prop) (item : ε) (rest : List ε) : Round ε σ β → Prop
  | .again remaining state => (remaining = rest ∧ good item ∨ remaining = item :: rest) ∧ invariant state
  | .leave _ => False

variable {fuel : Nat} {remaining : List ε} {state : σ}

/-- A loop ends whose rounds advance. -/
theorem whileMore_ends (invariant : σ → Prop) (enough : remaining.length < fuel) (holds : invariant state)
    (round : ∀ item ∈ remaining, ∀ rest state, invariant state →
      Ends (body (item :: rest) state) (Advances invariant post rest))
    (last : ∀ state, invariant state → post (after state)) :
    Ends (whileMore body after fuel remaining state) post := by
  induction remaining generalizing fuel state with
  | nil =>
    obtain ⟨fuel, rfl⟩ := Nat.exists_eq_succ_of_ne_zero (Nat.ne_of_gt enough)
    exact Ends.pure (last state holds)
  | cons item rest ih =>
    obtain ⟨fuel, rfl⟩ := Nat.exists_eq_succ_of_ne_zero (Nat.ne_of_gt (Nat.zero_lt_of_lt enough))
    have short : rest.length < fuel := by
      rw [List.length_cons] at enough
      omega
    refine Ends.bind (round item List.mem_cons_self rest state holds) ?_
    intro outcome advanced
    cases outcome with
    | leave result => exact Ends.pure advanced
    | again remaining state =>
      obtain ⟨rfl, kept⟩ := advanced
      apply Ends.bind (Ends.noted (Nat.lt_succ_self _))
      intro _ _
      exact ih short kept fun item member => round item (List.mem_cons_of_mem _ member)

/-- A loop whose bad items are never consumed ends only where every item is good. -/
theorem whileMore_leaves (good : ε → Prop) (invariant : σ → Prop) (post : β → Prop) (holds : invariant state)
    (round : ∀ item rest state, invariant state →
      Leaves (body (item :: rest) state) (Turns good invariant item rest))
    (last : ∀ state, invariant state → post (after state)) :
    Leaves (whileMore body after fuel remaining state) fun result => (∀ item ∈ remaining, good item) ∧ post result := by
  induction fuel generalizing remaining state with
  | zero =>
    intro result passes ended
    cases ended
  | succ fuel ih =>
    cases remaining with
    | nil => exact Leaves.pure ⟨fun _ member => absurd member List.not_mem_nil, last state holds⟩
    | cons item rest =>
      refine Leaves.bind (round item rest state holds) ?_
      intro outcome turned
      cases outcome with
      | leave result => exact turned.elim
      | again remaining state =>
        obtain ⟨consumed | stuck, kept⟩ := turned
        · obtain ⟨rfl, fine⟩ := consumed
          refine Leaves.bind (Leaves.any (noted _ _)) fun _ _ => Leaves.mono (ih kept) ?_
          intro result all
          exact ⟨List.forall_mem_cons.mpr ⟨fine, all.1⟩, all.2⟩
        · subst stuck
          exact Leaves.bind (Leaves.any (noted _ _)) fun _ _ => ih kept

/-- A loop whose rounds fold their items into the state, and leave where that fails. -/
theorem whileMore_folds (step : σ → ε → Option σ) (failed : β) {items : List ε} (enough : items.length < fuel)
    (round : ∀ item ∈ items, ∀ rest state, Ends (body (item :: rest) state)
      (· = (step state item).elim (.leave failed) (.again rest))) :
    Ends (whileMore body after fuel items state) (· = (items.foldlM step state).elim failed after) := by
  induction items generalizing fuel state with
  | nil =>
    obtain ⟨fuel, rfl⟩ := Nat.exists_eq_succ_of_ne_zero (Nat.ne_of_gt enough)
    exact Ends.pure rfl
  | cons item rest ih =>
    obtain ⟨fuel, rfl⟩ := Nat.exists_eq_succ_of_ne_zero (Nat.ne_of_gt (Nat.zero_lt_of_lt enough))
    refine Ends.bind (round item List.mem_cons_self rest state) ?_
    rintro outcome rfl
    rw [List.foldlM_cons]
    cases step state item with
    | none => exact Ends.pure rfl
    | some state =>
      refine Ends.bind (Ends.noted (Nat.lt_succ_self _)) fun _ _ => ?_
      exact ih (Nat.succ_lt_succ_iff.mp enough) fun item member => round item (List.mem_cons_of_mem _ member)

/-- The round keeps what holds of the items that remain and of the state, or it left the loop. -/
def Continues (holds : List ε → σ → Prop) (post : β → Prop) : Round ε σ β → Prop
  | .again remaining state => holds remaining state
  | .leave result => post result

theorem whileMore_continues (holds : List ε → σ → Prop) (first : holds remaining state)
    (round : ∀ item rest state, holds (item :: rest) state →
      Leaves (body (item :: rest) state) (Continues holds post))
    (last : ∀ state, holds [] state → post (after state)) :
    Leaves (whileMore body after fuel remaining state) post := by
  induction fuel generalizing remaining state with
  | zero =>
    intro result passes ended
    cases ended
  | succ fuel ih =>
    cases remaining with
    | nil => exact Leaves.pure (last state first)
    | cons item rest =>
      refine Leaves.bind (round item rest state first) ?_
      intro outcome continues
      cases outcome with
      | leave result => exact Leaves.pure continues
      | again remaining state => exact Leaves.bind (Leaves.any (noted _ _)) fun _ _ => ih continues

variable {τ : Type}

/-- The round took its item into the state, or left where the item cannot be taken. -/
def Gathers (take : ε → Option τ) (add : σ → τ → σ) (bad : β → Prop) (item : ε) (rest : List ε) (state : σ) :
    Round ε σ β → Prop
  | .again remaining state' => remaining = rest ∧ ∃ taken, take item = some taken ∧ state' = add state taken
  | .leave result => take item = none ∧ bad result

/-- A loop whose rounds gather takes all items, or fails at one. -/
theorem whileMore_gathers (take : ε → Option τ) (add : σ → τ → σ) (bad : β → Prop) {items : List ε}
    (round : ∀ item rest state, Leaves (body (item :: rest) state) (Gathers take add bad item rest state)) :
    Leaves (whileMore body after fuel items state) fun result =>
      (∃ all, items.mapM take = some all ∧ result = after (all.foldl add state)) ∨
        items.mapM take = none ∧ bad result := by
  induction fuel generalizing items state with
  | zero =>
    intro result passes ended
    cases ended
  | succ fuel ih =>
    cases items with
    | nil => exact Leaves.pure (.inl ⟨[], rfl, rfl⟩)
    | cons item rest =>
      refine Leaves.bind (round item rest state) ?_
      intro outcome gathers
      cases outcome with
      | leave result => exact Leaves.pure (.inr ⟨by rw [List.mapM_cons, gathers.1]; rfl, gathers.2⟩)
      | again remaining state =>
        obtain ⟨rfl, taken, takes, rfl⟩ := gathers
        refine Leaves.bind (Leaves.any (noted _ _)) fun _ _ => Leaves.mono ih fun result either => ?_
        rw [List.mapM_cons, takes]
        rcases either with ⟨all, gathered, rfl⟩ | ⟨missing, failed⟩
        · exact .inl ⟨taken :: all, by rw [gathered]; rfl, rfl⟩
        · exact .inr ⟨by rw [missing]; rfl, failed⟩

end Loops

end Libchrome.Library.Consuming
