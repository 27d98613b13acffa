import Libchrome.Base.CallbackList

/-!
# When a callback list runs its removal callback

The history of a list tells when the removal callback is owed: after each subscription that is destroyed while nothing is
notified, and after each outermost `Notify` in which one was destroyed.
-/

namespace Libchrome.Base.CallbackList
variable {C R : Type}

/-- Everything but the runs of the removal callback. -/
def Event.happened : Event C R → Bool
  | .removalCallbackRan _ => false
  | _ => true

/-- How many calls of `Notify` are running, whether a subscription was destroyed in the outermost of them, and the removal
callback. -/
structure Outline (R : Type) where
  depth : Nat
  destroyed : Bool
  removalCallback : Option R

namespace Outline

def start : Outline R := ⟨0, false, none⟩

def after (outline : Outline R) : Event C R → Outline R
  | .destroyed _ => { outline with destroyed := decide (outline.depth ≠ 0) }
  | .removalCallbackSet callback => { outline with removalCallback := callback }
  | .notifyBegan _ => { outline with depth := outline.depth + 1 }
  | .notifyEnded _ =>
    { outline with depth := outline.depth - 1, destroyed := outline.destroyed && decide (outline.depth ≠ 1) }
  | _ => outline

/-- The removal callback that is to run after an event. -/
def owed (outline : Outline R) : Event C R → Option R
  | .destroyed _ => if outline.depth = 0 then outline.removalCallback else none
  | .notifyEnded _ => if outline.depth = 1 ∧ outline.destroyed then outline.removalCallback else none
  | _ => none

/-- A history with the runs of the removal callback, each once and in its place. -/
def told : Outline R → List (Event C R) → List (Event C R)
  | _, [] => []
  | outline, event :: rest =>
    event :: ((outline.owed event).toList.map .removalCallbackRan ++ told (outline.after event) rest)

theorem told_append (outline : Outline R) (history : List (Event C R)) (event : Event C R) :
    outline.told (history ++ [event]) = outline.told history ++
      event :: ((history.foldl after outline).owed event).toList.map .removalCallbackRan := by
  induction history generalizing outline with
  | nil => exact congrArg (event :: ·) (List.append_nil _)
  | cons first rest inductive_hypothesis =>
    rw [List.cons_append, told, inductive_hypothesis, told, List.cons_append, List.append_assoc]
    rfl

end Outline

namespace Session

/-- What happened to a list, without the runs of its removal callback. -/
def history (session : Session C R) : List (Event C R) := session.log.filter Event.happened

def outline (session : Session C R) : Outline R := session.history.foldl Outline.after .start

end Session

/-- The log is what its history tells, and the list is as its history has it. -/
structure Narrated (session : Session C R) : Prop where
  log : session.log = Outline.start.told session.history
  depth : session.outline.depth = session.running.length
  destroyed : session.outline.destroyed = session.list.callbacks.any fun node => node.callback.isNone
  removalCallback : session.outline.removalCallback = session.list.removalCallback
  nonnull : ∀ notification subscription, Event.ran notification subscription none ∉ session.log

section Telling
variable {session next : Session C R} {event : Event C R}

theorem history_extend (ran : List R) (happened : event.happened = true)
    (log : next.log = session.log ++ event :: ran.map .removalCallbackRan) : next.history = session.history ++ [event] := by
  have unheard : (ran.map (Event.removalCallbackRan : R → Event C R)).filter Event.happened = [] := by
    refine List.filter_eq_nil_iff.mpr fun other member => ?_
    obtain ⟨callback, -, rfl⟩ := List.mem_map.mp member
    exact Bool.false_ne_true
  rw [Session.history, log, List.filter_append, List.filter_cons_of_pos happened, unheard]
  rfl

theorem outline_extend (history : next.history = session.history ++ [event]) :
    next.outline = session.outline.after event := by
  rw [Session.outline, history, List.foldl_append]
  rfl

/-- A step tells what it does, and owes what it then runs. -/
theorem Narrated.extend (narrated : Narrated session) (event : Event C R) (ran : List R)
    (happened : event.happened = true)
    (log : next.log = session.log ++ event :: ran.map .removalCallbackRan)
    (owed : ran = (session.outline.owed event).toList)
    (depth : (session.outline.after event).depth = next.running.length)
    (destroyed : (session.outline.after event).destroyed = next.list.callbacks.any fun node => node.callback.isNone)
    (removalCallback : (session.outline.after event).removalCallback = next.list.removalCallback)
    (nonnull : ∀ notification subscription, event ≠ .ran notification subscription none) : Narrated next := by
  have history := history_extend ran happened log
  have outline := outline_extend history
  refine ⟨?_, outline ▸ depth, outline ▸ destroyed, outline ▸ removalCallback, ?_⟩
  · rw [history, Outline.told_append, log, ← narrated.log, owed]
    rfl
  · intro notification subscription member
    rw [log] at member
    rcases List.mem_append.mp member with earlier | member
    · exact narrated.nonnull notification subscription earlier
    · rcases List.mem_cons.mp member with same | later
      · exact nonnull notification subscription same.symm
      · obtain ⟨callback, -, different⟩ := List.mem_map.mp later
        cases different

theorem Narrated.depth_eq_zero (narrated : Narrated session) : session.outline.depth = 0 ↔ session.running = [] := by
  rw [narrated.depth]
  exact List.length_eq_zero_iff

theorem Sound.any_reset (sound : Sound session) (outside : session.running = []) :
    (session.list.callbacks.any fun node => node.callback.isNone) = false := by
  rw [List.any_eq_false]
  intro node member reset
  have alive := sound.compact outside node member
  rw [Option.isNone_iff_eq_none.mp reset] at alive
  cases alive

theorem Narrated.step (sound : Sound session) (narrated : Narrated session) {call : Call C R}
    (allowed : session.Allowed call) (moved : Moves session call next) : Narrated next := by
  cases moved with
  | add callback =>
    apply narrated.extend (.added session.list.inserted callback session.atEnd) []
    · rfl
    · rfl
    · rfl
    · exact narrated.depth
    · have present : callback.isNone = false := Option.isNone_eq_false_iff.mpr allowed.2
      change session.outline.destroyed = (session.list.callbacks ++ [_]).any _
      rw [List.any_append, ← narrated.destroyed, List.any_cons, present]
      simp
    · exact narrated.removalCallback
    · nofun
  | destroyInside subscription inside =>
    have deep : session.outline.depth ≠ 0 := mt narrated.depth_eq_zero.mp inside
    apply narrated.extend (.destroyed subscription) []
    · rfl
    · rfl
    · rw [Outline.owed, if_neg deep]
      rfl
    · exact narrated.depth
    · obtain ⟨node, member, -, same⟩ := mem_live.mp (sound.live ▸ allowed.2)
      change decide (session.outline.depth ≠ 0) = (session.list.callbacks.map _).any _
      rw [decide_eq_true deep, eq_comm, List.any_eq_true]
      refine ⟨node.reset subscription, List.mem_map_of_mem member, ?_⟩
      rw [Node.reset, if_pos same]
      rfl
    · exact narrated.removalCallback
    · nofun
  | destroyOutside subscription outside =>
    have level : session.outline.depth = 0 := narrated.depth_eq_zero.mpr outside
    apply narrated.extend (.destroyed subscription) session.list.removalCallback.toList
    · rfl
    · rfl
    · rw [Outline.owed, if_pos level, narrated.removalCallback]
    · exact narrated.depth
    · change decide (session.outline.depth ≠ 0) = (session.list.callbacks.filter _).any _
      rw [level, eq_comm]
      have kept := List.any_eq_false.mp (sound.any_reset outside)
      exact List.any_eq_false.mpr fun node member => kept node (List.mem_filter.mp member).1
    · exact narrated.removalCallback
    · nofun
  | setRemovalCallback callback =>
    apply narrated.extend (.removalCallbackSet callback) []
    · rfl
    · rfl
    · rfl
    · exact narrated.depth
    · exact narrated.destroyed
    · rfl
    · nofun
  | notify copies =>
    apply narrated.extend (.notifyBegan session.notified) []
    · rfl
    · rfl
    · rfl
    · exact congrArg (· + 1) narrated.depth
    · exact narrated.destroyed
    · exact narrated.removalCallback
    · nofun
  | run top outer running node member alive ahead position kept passed =>
    apply narrated.extend (.ran top.number node.number node.callback) []
    · rfl
    · rfl
    · rfl
    · have depth := narrated.depth
      rw [running] at depth
      exact depth
    · exact narrated.destroyed
    · exact narrated.removalCallback
    · rintro notification subscription same
      injection same with _ _ reset
      rw [reset] at alive
      cases alive
  | finish top outer running nested done =>
    have depth : session.outline.depth = outer.length + 1 := by rw [narrated.depth, running]; rfl
    have deep : session.outline.depth ≠ 1 := by
      have some_outer : outer.length ≠ 0 := mt List.length_eq_zero_iff.mp nested
      omega
    apply narrated.extend (.notifyEnded top.number) []
    · rfl
    · rfl
    · rw [Outline.owed, if_neg fun both => deep both.1]
      rfl
    · exact congrArg (· - 1) depth
    · change (session.outline.destroyed && decide (session.outline.depth ≠ 1)) = _
      rw [decide_eq_true deep, Bool.and_true]
      exact narrated.destroyed
    · exact narrated.removalCallback
    · nofun
  | finishLast top running done =>
    have depth : session.outline.depth = 1 := by rw [narrated.depth, running]; rfl
    apply narrated.extend (.notifyEnded top.number)
      (if session.list.callbacks.any fun node => node.callback.isNone then session.list.removalCallback
        else none).toList
    · rfl
    · rfl
    · rw [Outline.owed, narrated.destroyed, narrated.removalCallback]
      simp only [depth, true_and]
    · exact congrArg (· - 1) depth
    · change (session.outline.destroyed && decide (session.outline.depth ≠ 1)) = (session.list.callbacks.filter _).any _
      rw [depth, Bool.and_comm, eq_comm]
      refine List.any_eq_false.mpr fun node member => ?_
      rw [Option.isNone_eq_false_iff.mpr (List.mem_filter.mp member).2]
      exact Bool.false_ne_true
    · exact narrated.removalCallback
    · nofun

theorem narrated_new : Narrated (Session.new : Session C R) where
  log := rfl
  depth := rfl
  destroyed := rfl
  removalCallback := rfl
  nonnull := fun _ _ => List.not_mem_nil

end Telling

theorem reached_narrated {session : Session C R}
    (reached : Library.Reaches Session.exec Session.Allowed Session.new session) : Sound session ∧ Narrated session := by
  refine reached.invariant (fun session => Sound session ∧ Narrated session) ⟨sound_new, narrated_new⟩ ?_
  intro before call after ⟨sound, narrated⟩ allowed moved
  obtain ⟨next, same, moves⟩ := sound.moves allowed
  cases Option.some.inj (moved.symm.trans same)
  exact ⟨sound.step allowed moves, narrated.step sound allowed moves⟩

theorem callbackList_compacts {session : Session C R}
    (reached : Library.Reaches Session.exec Session.Allowed Session.new session) :
    (session.running = [] → ∀ node ∈ session.list.callbacks, node.callback ≠ none) ∧
    (∀ notification subscription, Event.ran notification subscription none ∉ session.log) ∧
    session.list.activeIteratorCount = session.running.length ∧
    session.log = Outline.start.told session.history ∧
    ∀ call, session.Allowed call → ∃ next, session.exec call = some next := by
  obtain ⟨sound, narrated⟩ := reached_narrated reached
  refine ⟨fun outside node member reset => ?_, narrated.nonnull, sound.count, narrated.log, fun call allowed => ?_⟩
  · have alive := sound.compact outside node member
    rw [reset] at alive
    cases alive
  · obtain ⟨next, moved, -⟩ := sound.moves allowed
    exact ⟨next, moved⟩

/-- A callback that goes while it runs. -/
theorem callbackList_compacts_destroying : ∃ session : Session Nat Nat,
    session.log = [.removalCallbackSet (some 7), .added 0 (some 5) [], .notifyBegan 0, .ran 0 0 (some 5), .destroyed 0,
      .notifyEnded 0, .removalCallbackRan 7] ∧ session.log = Outline.start.told session.history := by
  have first : Library.Reaches Session.exec Session.Allowed (Session.new : Session Nat Nat) Session.new := .start
  have reached := first.run (rfl : Library.runFrom Session.exec Session.Allowed Session.new
    [.setRemovalCallback (some 7), .add (some 5), .notify 1, .proceed, .destroy 0, .proceed] = some _)
  exact ⟨_, rfl, (callbackList_compacts reached).2.2.2.1⟩

end Libchrome.Base.CallbackList
