import Libchrome.Base.CallbackListCompaction

/-!
# Which callbacks a `Notify` runs

The iterator of a `Notify` is already past the callback that is running. It comes to what is added behind it, unless it is
at the end: the list then grows in front of it.
-/

namespace Libchrome.Base.CallbackList
variable {C R : Type}

/-- What a list is for: its subscriptions, and what each running `Notify` has yet to come to. -/
structure Ledger (C R : Type) where
  running : List Notification
  subscriptions : List Nat
  inserted : Nat
  notified : Nat
  history : List (Event C R)

namespace Ledger

/-- The calls of `Notify` that will come to nothing more. -/
def atEnd (ledger : Ledger C R) : List Nat :=
  (ledger.running.filter fun notification => notification.iterator.isNone).map Notification.number

inductive Turn (ledger : Ledger C R) : Ledger C R → Prop
  | add (callback : Option C)
      (reached : ∀ notification ∈ ledger.running, ∀ number ∈ notification.iterator, number < ledger.inserted) :
      Turn ledger
        { ledger with
          subscriptions := ledger.subscriptions ++ [ledger.inserted]
          inserted := ledger.inserted + 1
          history := ledger.history ++ [.added ledger.inserted callback ledger.atEnd] }
  | destroy (subscription : Nat) (distinct : ledger.subscriptions.Nodup) (member : subscription ∈ ledger.subscriptions) :
      Turn ledger
      { ledger with
        subscriptions := ledger.subscriptions.erase subscription
        history := ledger.history ++ [.destroyed subscription] }
  | setRemovalCallback (callback : Option R) : Turn ledger
      { ledger with history := ledger.history ++ [.removalCallbackSet callback] }
  | notify (first : Position) (all : ∀ subscription ∈ ledger.subscriptions, first.ahead subscription = true) :
      Turn ledger
        { ledger with
          running := ⟨ledger.notified, first, false⟩ :: ledger.running
          notified := ledger.notified + 1
          history := ledger.history ++ [.notifyBegan ledger.notified] }
  | run (top : Notification) (outer : List Notification) (running : ledger.running = top :: outer)
      (subscription : Nat) (callback : Option C) (member : subscription ∈ ledger.subscriptions)
      (ahead : top.iterator.ahead subscription = true) (next : Position)
      (passed : ∀ other ∈ ledger.subscriptions,
        next.ahead other = (top.iterator.ahead other && decide (other ≠ subscription))) : Turn ledger
      { ledger with
        running := { top with iterator := next, inCallback := true } :: outer
        history := ledger.history ++ [.ran top.number subscription callback] }
  | finish (top : Notification) (outer : List Notification) (running : ledger.running = top :: outer)
      (done : ∀ subscription ∈ ledger.subscriptions, top.iterator.ahead subscription = false) : Turn ledger
      { ledger with
        running := outer
        history := ledger.history ++ [.notifyEnded top.number] }

end Ledger

def Session.ledger (session : Session C R) : Ledger C R :=
  ⟨session.running, session.subscriptions, session.list.inserted, session.notified, session.history⟩

section Refining
variable {session next : Session C R}

theorem turn_of {ledger : Ledger C R} (turn : session.ledger.Turn ledger) {event : Event C R}
    (history : ledger.history = session.history ++ [event]) (ran : List R) (happened : event.happened = true)
    (log : next.log = session.log ++ event :: ran.map .removalCallbackRan)
    (same : next.ledger = { ledger with history := next.history }) : session.ledger.Turn next.ledger := by
  rw [same, history_extend ran happened log, ← history]
  exact turn

theorem Sound.reached (sound : Sound session) : ∀ notification ∈ session.running, ∀ number ∈ notification.iterator,
    number < session.list.inserted := by
  intro notification member number at_number
  obtain ⟨node, inside, rfl⟩ := List.mem_map.mp (sound.valid notification member number at_number)
  exact sound.below node inside

theorem Sound.distinct (sound : Sound session) : session.subscriptions.Nodup := sound.live ▸ live_nodup sound.ordered

theorem Sound.first_ahead (sound : Sound session) : ∀ subscription ∈ session.subscriptions,
    Position.ahead (session.list.callbacks.head?.map Node.number) subscription = true := by
  intro subscription member
  obtain ⟨node, inside, -, rfl⟩ := mem_live.mp (sound.live ▸ member)
  cases callbacks : session.list.callbacks with
  | nil => exact absurd (callbacks ▸ inside) List.not_mem_nil
  | cons first rest =>
    have ordered := sound.ordered
    rw [callbacks] at ordered inside
    apply decide_eq_true
    rcases List.mem_cons.mp inside with rfl | inside
    · exact Nat.le_refl _
    · exact Nat.le_of_lt ((List.pairwise_cons.mp ordered).1 node inside)

/-- A list does what its ledger has it do. -/
theorem Moves.turn (sound : Sound session) {call : Call C R} (allowed : session.Allowed call)
    (moved : Moves session call next) : session.ledger.Turn next.ledger := by
  cases moved with
  | add callback => exact turn_of (.add callback sound.reached) rfl [] rfl rfl rfl
  | destroyInside subscription inside => exact turn_of (.destroy subscription sound.distinct allowed.2) rfl [] rfl rfl rfl
  | destroyOutside subscription outside =>
    exact turn_of (.destroy subscription sound.distinct allowed.2) rfl session.list.removalCallback.toList rfl rfl rfl
  | setRemovalCallback callback => exact turn_of (.setRemovalCallback callback) rfl [] rfl rfl rfl
  | notify copies => exact turn_of (.notify _ sound.first_ahead) rfl [] rfl rfl rfl
  | run top outer running node member alive ahead position kept passed =>
    rw [← sound.live] at passed
    have subscribed : node.number ∈ session.subscriptions := by
      rw [sound.live]
      exact mem_live.mpr ⟨node, member, alive, rfl⟩
    exact turn_of (.run top outer running node.number node.callback subscribed ahead position passed) rfl [] rfl rfl rfl
  | finish top outer running nested done =>
    rw [← sound.live] at done
    exact turn_of (.finish top outer running done) rfl [] rfl rfl rfl
  | finishLast top running done =>
    rw [← sound.live] at done
    exact turn_of (.finish top [] running done) rfl _ rfl rfl rfl

end Refining

/-! ### The history -/

/-- The subscriptions whose callbacks a `Notify` has run. -/
def runsOf (notification : Nat) (history : List (Event C R)) : List Nat :=
  history.filterMap fun
    | .ran number subscription _ => if number = notification then some subscription else none
    | _ => none

/-- What may stand before an event: a destroyed subscription is neither run nor added again, and a `Notify` runs and misses
nothing before it begins. -/
def Event.Precedes : Event C R → Event C R → Prop
  | first, .ran _ subscription _ => first ≠ .destroyed subscription
  | .destroyed other, .added subscription _ _ => other ≠ subscription
  | .ran number _ _, .notifyBegan notification => number ≠ notification
  | .added _ _ missed, .notifyBegan notification => notification ∉ missed
  | _, _ => True

/-- An event names only what there is. -/
def Event.Known (inserted notified : Nat) : Event C R → Prop
  | .added subscription _ missed => subscription < inserted ∧ ∀ notification ∈ missed, notification < notified
  | .destroyed subscription => subscription < inserted
  | .ran notification subscription _ => notification < notified ∧ subscription < inserted
  | _ => True

theorem Event.Known.mono {inserted notified inserted' notified' : Nat} (more : inserted ≤ inserted')
    (later : notified ≤ notified') {event : Event C R} (known : event.Known inserted notified) :
    event.Known inserted' notified' := by
  cases event with
  | added subscription callback missed =>
    exact ⟨Nat.lt_of_lt_of_le known.1 more, fun notification member => Nat.lt_of_lt_of_le (known.2 notification member) later⟩
  | destroyed subscription => exact Nat.lt_of_lt_of_le known more
  | ran notification subscription callback => exact ⟨Nat.lt_of_lt_of_le known.1 later, Nat.lt_of_lt_of_le known.2 more⟩
  | _ => trivial

/-- A callback that is there when a `Notify` ends was run once, unless its addition was missed. -/
def Completed (history : List (Event C R)) : Prop :=
  ∀ before notification during after,
    history = before ++ .notifyBegan notification :: (during ++ .notifyEnded notification :: after) →
    ∀ subscription callback missed, .added subscription callback missed ∈ before ++ during →
      .destroyed subscription ∉ before ++ during →
        (runsOf notification during).count subscription = if notification ∈ missed then 0 else 1

theorem runsOf_append (notification : Nat) (history : List (Event C R)) (others : List (Event C R)) :
    runsOf notification (history ++ others) = runsOf notification history ++ runsOf notification others :=
  List.filterMap_append

theorem mem_runsOf {notification subscription : Nat} {history : List (Event C R)} :
    subscription ∈ runsOf notification history ↔ ∃ callback, .ran notification subscription callback ∈ history := by
  rw [runsOf, List.mem_filterMap]
  constructor
  · rintro ⟨event, member, ran⟩
    cases event with
    | ran number other callback =>
      obtain ⟨rfl, same⟩ := Option.ite_none_right_eq_some.mp ran
      exact ⟨callback, Option.some.inj same ▸ member⟩
    | _ => cases ran
  · rintro ⟨callback, member⟩
    exact ⟨_, member, if_pos rfl⟩

theorem Completed.snoc {history : List (Event C R)} (completed : Completed history) {event : Event C R}
    (ended : ∀ notification, event = .notifyEnded notification → ∀ before during,
      history = before ++ .notifyBegan notification :: during →
      ∀ subscription callback missed, .added subscription callback missed ∈ before ++ during →
        .destroyed subscription ∉ before ++ during →
          (runsOf notification during).count subscription = if notification ∈ missed then 0 else 1) :
    Completed (history ++ [event]) := by
  intro before notification during after same
  rcases List.eq_nil_or_concat after with rfl | ⟨earlier, last, rfl⟩
  · have split : history ++ [event] = (before ++ .notifyBegan notification :: during) ++ [.notifyEnded notification] := by
      rw [same, List.append_assoc, List.cons_append]
    obtain ⟨front, back⟩ := List.append_inj' split rfl
    exact ended notification (List.cons.inj back).1 before during front
  · have split : history ++ [event] =
        (before ++ .notifyBegan notification :: (during ++ .notifyEnded notification :: earlier)) ++ [last] := by
      rw [same]
      simp
    exact completed before notification during earlier (List.append_inj' split rfl).1

/-! ### What a ledger keeps -/

namespace Ledger

/-- Numbers are given out once. -/
structure Numbered (ledger : Ledger C R) : Prop where
  distinct : (ledger.running.map Notification.number).Nodup
  running : ∀ notification ∈ ledger.running, notification.number < ledger.notified
  subscriptions : ∀ subscription ∈ ledger.subscriptions, subscription < ledger.inserted
  known : ∀ event ∈ ledger.history, event.Known ledger.inserted ledger.notified

/-- The subscriptions are those that were added and not destroyed. -/
structure Registered (ledger : Ledger C R) : Prop where
  kept : ∀ subscription callback missed, .added subscription callback missed ∈ ledger.history →
    .destroyed subscription ∉ ledger.history → subscription ∈ ledger.subscriptions
  gone : ∀ subscription ∈ ledger.subscriptions, .destroyed subscription ∉ ledger.history

/-- A running `Notify` has run what it is past, but for the additions it missed. -/
structure Counted (ledger : Ledger C R) : Prop where
  missed : ∀ notification ∈ ledger.running, ∀ subscription callback missed,
    .added subscription callback missed ∈ ledger.history → notification.number ∈ missed → notification.iterator = none
  count : ∀ notification ∈ ledger.running, ∀ subscription callback missed,
    .added subscription callback missed ∈ ledger.history → subscription ∈ ledger.subscriptions →
      (runsOf notification.number ledger.history).count subscription =
        if notification.iterator.ahead subscription = true ∨ notification.number ∈ missed then 0 else 1

structure Recorded (ledger : Ledger C R) : Prop where
  ordered : ledger.history.Pairwise Event.Precedes
  completed : Completed ledger.history

section Turning
variable {ledger next : Ledger C R}

variable {history : List (Event C R)} {last : Event C R}

theorem mem_snoc {event : Event C R} : event ∈ history ++ [last] ↔ event ∈ history ∨ event = last := by
  rw [List.mem_append, List.mem_singleton]

theorem known_snoc {inserted notified inserted' notified' : Nat}
    (known : ∀ event ∈ history, event.Known inserted notified) (more : inserted ≤ inserted') (later : notified ≤ notified')
    (new : last.Known inserted' notified') : ∀ event ∈ history ++ [last], event.Known inserted' notified' := by
  intro event member
  rcases mem_snoc.mp member with member | rfl
  · exact (known event member).mono more later
  · exact new

theorem Numbered.turn (numbered : Numbered ledger) (turn : ledger.Turn next) : Numbered next := by
  obtain ⟨distinct, running, subscriptions, known⟩ := numbered
  cases turn with
  | add callback reached =>
    refine ⟨distinct, running, ?_, known_snoc known (Nat.le_succ _) (Nat.le_refl _) ⟨Nat.lt_succ_self _, ?_⟩⟩
    · intro subscription member
      rcases List.mem_append.mp member with member | new
      · exact Nat.lt_succ_of_lt (subscriptions subscription member)
      · exact List.mem_singleton.mp new ▸ Nat.lt_succ_self _
    · intro notification late
      obtain ⟨other, kept, rfl⟩ := List.mem_map.mp late
      exact running other (List.mem_filter.mp kept).1
  | destroy subscription unique allowed =>
    refine ⟨distinct, running, fun other member => subscriptions other (List.mem_of_mem_erase member),
      known_snoc known (Nat.le_refl _) (Nat.le_refl _) (subscriptions subscription allowed)⟩
  | setRemovalCallback callback =>
    exact ⟨distinct, running, subscriptions, known_snoc known (Nat.le_refl _) (Nat.le_refl _) trivial⟩
  | notify first all =>
    refine ⟨?_, ?_, subscriptions, known_snoc known (Nat.le_refl _) (Nat.le_succ _) trivial⟩
    · refine List.nodup_cons.mpr ⟨fun member => ?_, distinct⟩
      obtain ⟨notification, inside, same⟩ := List.mem_map.mp member
      exact Nat.lt_irrefl _ (same ▸ running notification inside)
    · intro notification member
      rcases List.mem_cons.mp member with rfl | member
      · exact Nat.lt_succ_self _
      · exact Nat.lt_succ_of_lt (running notification member)
  | run top outer innermost subscription callback member ahead position passed =>
    rw [innermost] at distinct running
    have number := running top List.mem_cons_self
    refine ⟨distinct, ?_, subscriptions,
      known_snoc known (Nat.le_refl _) (Nat.le_refl _) ⟨number, subscriptions subscription member⟩⟩
    intro notification inside
    rcases List.mem_cons.mp inside with rfl | inside
    · exact number
    · exact running notification (List.mem_cons_of_mem _ inside)
  | finish top outer innermost done =>
    rw [innermost] at distinct running
    exact ⟨distinct.of_cons, fun notification inside => running notification (List.mem_cons_of_mem _ inside), subscriptions,
      known_snoc known (Nat.le_refl _) (Nat.le_refl _) trivial⟩

theorem Registered.turn (numbered : Numbered ledger) (registered : Registered ledger) (turn : ledger.Turn next) :
    Registered next := by
  obtain ⟨kept, gone⟩ := registered
  cases turn with
  | add callback reached =>
    constructor
    · intro subscription callback missed member alive
      rcases mem_snoc.mp member with member | same
      · exact List.mem_append_left _
          (kept subscription callback missed member fun destroyed => alive (List.mem_append_left _ destroyed))
      · injection same with number
        exact List.mem_append_right _ (List.mem_singleton.mpr number)
    · intro subscription member destroyed
      rcases mem_snoc.mp destroyed with destroyed | same
      · rcases List.mem_append.mp member with member | new
        · exact gone subscription member destroyed
        · exact Nat.lt_irrefl _ (List.mem_singleton.mp new ▸ numbered.known _ destroyed)
      · cases same
  | destroy subscription unique allowed =>
    constructor
    · intro other callback missed member alive
      have different : other ≠ subscription := fun same => alive (mem_snoc.mpr (.inr (same ▸ rfl)))
      rcases mem_snoc.mp member with member | same
      · exact (List.mem_erase_of_ne different).mpr
          (kept other callback missed member fun destroyed => alive (List.mem_append_left _ destroyed))
      · cases same
    · intro other member destroyed
      obtain ⟨different, member⟩ := unique.mem_erase_iff.mp member
      rcases mem_snoc.mp destroyed with destroyed | same
      · exact gone other member destroyed
      · injection same with same
        exact different same
  | _ =>
    constructor
    · intro subscription callback missed member alive
      rcases mem_snoc.mp member with member | same
      · exact kept subscription callback missed member fun destroyed => alive (List.mem_append_left _ destroyed)
      · cases same
    · intro subscription member destroyed
      rcases mem_snoc.mp destroyed with destroyed | same
      · exact gone subscription member destroyed
      · cases same

/-- A `Notify` among others, after an event that neither adds nor runs anything. -/
theorem Counted.quiet (counted : Counted ledger) {running : List Notification} {subscriptions : List Nat}
    {inserted notified : Nat} (fewer : ∀ notification ∈ running, notification ∈ ledger.running)
    (kept : ∀ subscription ∈ subscriptions, subscription ∈ ledger.subscriptions)
    (silent : ∀ number, runsOf number [last] = [])
    (other : ∀ subscription callback missed, last ≠ .added subscription callback missed) :
    Counted ⟨running, subscriptions, inserted, notified, ledger.history ++ [last]⟩ where
  missed := by
    intro notification inside subscription callback late member
    refine counted.missed notification (fewer notification inside) subscription callback late ?_
    exact (mem_snoc.mp member).resolve_right fun same => other _ _ _ same.symm
  count := by
    intro notification inside subscription callback late member there
    rw [runsOf_append, silent, List.append_nil]
    refine counted.count notification (fewer notification inside) subscription callback late ?_ (kept subscription there)
    exact (mem_snoc.mp member).resolve_right fun same => other _ _ _ same.symm

theorem count_unknown {inserted notified number subscription : Nat}
    (known : ∀ event ∈ history, event.Known inserted notified) (new : notified ≤ number ∨ inserted ≤ subscription) :
    (runsOf number history).count subscription = 0 := by
  refine List.count_eq_zero.mpr fun member => ?_
  obtain ⟨callback, ran⟩ := mem_runsOf.mp member
  have before := known _ ran
  rcases new with new | new
  · exact Nat.lt_irrefl _ (Nat.lt_of_lt_of_le before.1 new)
  · exact Nat.lt_irrefl _ (Nat.lt_of_lt_of_le before.2 new)

section
variable (numbered : Numbered ledger)
include numbered

/-- An iterator that is not at the end has what is added before it. -/
theorem Counted.add (counted : Counted ledger) (callback : Option C)
    (reached : ∀ notification ∈ ledger.running, ∀ number ∈ notification.iterator, number < ledger.inserted) :
    Counted { ledger with
      subscriptions := ledger.subscriptions ++ [ledger.inserted]
      inserted := ledger.inserted + 1
      history := ledger.history ++ [.added ledger.inserted callback ledger.atEnd] } where
  missed := by
    intro notification inside subscription other late member listed
    rcases mem_snoc.mp member with member | same
    · exact counted.missed notification inside subscription other late member listed
    · injection same with _ _ same
      obtain ⟨stuck, kept, number⟩ := List.mem_map.mp (same ▸ listed)
      obtain ⟨there, at_end⟩ := List.mem_filter.mp kept
      cases List.inj_on_of_nodup_map numbered.distinct there inside number
      exact Option.isNone_iff_eq_none.mp at_end
  count := by
    intro notification inside subscription other late member there
    change (runsOf notification.number (ledger.history ++ [_])).count subscription = _
    rw [runsOf_append]
    change (_ ++ []).count subscription = _
    rw [List.append_nil]
    rcases mem_snoc.mp member with member | same
    · have old := (numbered.known _ member).1
      rcases List.mem_append.mp there with there | new
      · exact counted.count notification inside subscription other late member there
      · exact absurd (List.mem_singleton.mp new) (Nat.ne_of_lt old)
    · injection same with new _ late_eq
      rw [count_unknown numbered.known (.inr (Nat.le_of_eq new.symm)), if_pos]
      cases place : notification.iterator with
      | none =>
        right
        rw [late_eq]
        exact List.mem_map.mpr ⟨notification, List.mem_filter.mpr ⟨inside, Option.isNone_iff_eq_none.mpr place⟩, rfl⟩
      | some number =>
        left
        exact decide_eq_true (Nat.le_of_lt (new ▸ reached notification inside number place))

theorem Counted.notify (counted : Counted ledger) (first : Position)
    (all : ∀ subscription ∈ ledger.subscriptions, first.ahead subscription = true) :
    Counted { ledger with
      running := ⟨ledger.notified, first, false⟩ :: ledger.running
      notified := ledger.notified + 1
      history := ledger.history ++ [.notifyBegan ledger.notified] } where
  missed := by
    intro notification inside subscription other late member listed
    have member := (mem_snoc.mp member).resolve_right nofun
    rcases List.mem_cons.mp inside with rfl | inside
    · exact absurd ((numbered.known _ member).2 _ listed) (Nat.lt_irrefl _)
    · exact counted.missed notification inside subscription other late member listed
  count := by
    intro notification inside subscription other late member there
    have member := (mem_snoc.mp member).resolve_right nofun
    change (runsOf notification.number (ledger.history ++ [_])).count subscription = _
    rw [runsOf_append]
    change (_ ++ []).count subscription = _
    rw [List.append_nil]
    rcases List.mem_cons.mp inside with rfl | inside
    · rw [count_unknown numbered.known (.inl (Nat.le_refl _)), if_pos (.inl (all subscription there))]
    · exact counted.count notification inside subscription other late member there

/-- The callback that is run is counted, and the iterator is past it. -/
theorem Counted.run (counted : Counted ledger) {top : Notification}
    {outer : List Notification} (innermost : ledger.running = top :: outer) {subscription : Nat} (callback : Option C)
    (ahead : top.iterator.ahead subscription = true) {next : Position}
    (passed : ∀ other ∈ ledger.subscriptions,
      next.ahead other = (top.iterator.ahead other && decide (other ≠ subscription))) :
    Counted { ledger with
      running := { top with iterator := next, inCallback := true } :: outer
      history := ledger.history ++ [.ran top.number subscription callback] } where
  missed := by
    intro notification inside other added late member listed
    have member := (mem_snoc.mp member).resolve_right nofun
    rcases List.mem_cons.mp inside with rfl | inside
    · have at_end := counted.missed top (innermost ▸ List.mem_cons_self) other added late member listed
      rw [at_end] at ahead
      cases ahead
    · exact counted.missed notification (innermost ▸ List.mem_cons_of_mem _ inside) other added late member listed
  count := by
    intro notification inside other added late member there
    have member := (mem_snoc.mp member).resolve_right nofun
    have distinct := numbered.distinct
    rw [innermost] at distinct
    change (runsOf notification.number (ledger.history ++ [_])).count other = _
    rw [runsOf_append, List.count_append]
    rcases List.mem_cons.mp inside with rfl | inside
    · have here : top ∈ ledger.running := innermost ▸ List.mem_cons_self
      have before := counted.count top here other added late member there
      have reach : top.number ∉ late := fun listed => by
        have at_end := counted.missed top here other added late member listed
        rw [at_end] at ahead
        cases ahead
      simp only [reach, or_false] at before ⊢
      rw [before, passed other there]
      by_cases same : other = subscription
      · subst same
        simp [runsOf, ahead]
      · simp [runsOf, same, Ne.symm same]
    · have different : top.number ≠ notification.number := fun same =>
        (List.nodup_cons.mp distinct).1 (same ▸ List.mem_map_of_mem inside)
      have before := counted.count notification (innermost ▸ List.mem_cons_of_mem _ inside) other added late member there
      simpa [runsOf, different] using before

theorem Counted.turn (counted : Counted ledger) (turn : ledger.Turn next) :
    Counted next := by
  cases turn with
  | add callback reached => exact counted.add numbered callback reached
  | destroy subscription unique allowed =>
    exact counted.quiet (fun _ inside => inside) (fun _ member => List.mem_of_mem_erase member) (fun _ => rfl) nofun
  | setRemovalCallback callback =>
    exact counted.quiet (fun _ inside => inside) (fun _ member => member) (fun _ => rfl) nofun
  | notify first all => exact counted.notify numbered first all
  | run top outer innermost subscription callback member ahead position passed =>
    exact counted.run numbered innermost callback ahead passed
  | finish top outer innermost done =>
    exact counted.quiet (fun _ inside => innermost ▸ List.mem_cons_of_mem _ inside) (fun _ member => member) (fun _ => rfl) nofun

end

theorem Recorded.snoc (recorded : Recorded ledger) (history : next.history = ledger.history ++ [last])
    (follows : ∀ event ∈ ledger.history, event.Precedes last)
    (running : ∀ notification, last ≠ .notifyEnded notification) : Recorded next := by
  constructor
  · rw [history]
    refine List.pairwise_append.mpr ⟨recorded.ordered, List.pairwise_singleton _ _, fun event member other new => ?_⟩
    exact List.mem_singleton.mp new ▸ follows event member
  · rw [history]
    exact recorded.completed.snoc fun notification same => absurd same (running notification)

/-- When a `Notify` has come to the end, what is still there was run. -/
theorem Recorded.finish (registered : Registered ledger) (counted : Counted ledger) (recorded : Recorded ledger)
    {top : Notification} {outer : List Notification} (innermost : ledger.running = top :: outer)
    (done : ∀ subscription ∈ ledger.subscriptions, top.iterator.ahead subscription = false) :
    Recorded { ledger with
      running := outer
      history := ledger.history ++ [.notifyEnded top.number] } where
  ordered := by
    refine List.pairwise_append.mpr ⟨recorded.ordered, List.pairwise_singleton _ _, fun event member other new => ?_⟩
    cases List.mem_singleton.mp new
    cases event <;> trivial
  completed := by
    apply recorded.completed.snoc
    intro notification same before during split subscription callback missed added alive
    injection same with number
    have whole : ∀ event, event ∈ before ++ during → event ∈ ledger.history := by
      intro event member
      rw [split]
      exact (List.mem_append.mp member).elim (List.mem_append_left _) fun later =>
        List.mem_append_right _ (List.mem_cons_of_mem _ later)
    have there : subscription ∈ ledger.subscriptions := by
      refine registered.kept subscription callback missed (whole _ added) fun destroyed => alive ?_
      rw [split] at destroyed
      rcases List.mem_append.mp destroyed with earlier | later
      · exact List.mem_append_left _ earlier
      · exact List.mem_append_right _ ((List.mem_cons.mp later).resolve_left nofun)
    have earlier : runsOf notification before = [] := by
      refine List.eq_nil_iff_forall_not_mem.mpr fun other member => ?_
      obtain ⟨run, ran⟩ := mem_runsOf.mp member
      have ordered := recorded.ordered
      rw [split] at ordered
      exact (List.pairwise_append.mp ordered).2.2 _ ran _ List.mem_cons_self rfl
    have count := counted.count top (innermost ▸ List.mem_cons_self) subscription callback missed (whole _ added) there
    rw [done subscription there, number, split, runsOf_append, earlier] at count
    change (runsOf notification during).count subscription = _ at count
    simpa only [Bool.false_eq_true, false_or] using count

theorem Recorded.turn (numbered : Numbered ledger) (registered : Registered ledger) (counted : Counted ledger)
    (recorded : Recorded ledger) (turn : ledger.Turn next) : Recorded next := by
  cases turn with
  | add callback reached =>
    refine recorded.snoc rfl (fun event member => ?_) nofun
    have known := numbered.known event member
    cases event with
    | destroyed subscription => exact Nat.ne_of_lt known
    | _ => trivial
  | destroy subscription unique allowed => exact recorded.snoc rfl (fun event _ => by cases event <;> trivial) nofun
  | setRemovalCallback callback => exact recorded.snoc rfl (fun event _ => by cases event <;> trivial) nofun
  | notify first all =>
    refine recorded.snoc rfl (fun event member => ?_) nofun
    have known := numbered.known event member
    cases event with
    | added subscription callback missed => exact fun listed => Nat.lt_irrefl _ (known.2 _ listed)
    | ran notification subscription callback => exact Nat.ne_of_lt known.1
    | _ => trivial
  | run top outer innermost subscription callback member ahead position passed =>
    refine recorded.snoc rfl (fun event inside => ?_) nofun
    have alive : event ≠ .destroyed subscription := fun same => registered.gone subscription member (same ▸ inside)
    cases event <;> exact alive
  | finish top outer innermost done => exact recorded.finish registered counted innermost done

end Turning

structure Kept (ledger : Ledger C R) : Prop where
  numbered : Numbered ledger
  registered : Registered ledger
  counted : Counted ledger
  recorded : Recorded ledger

theorem Kept.turn {ledger next : Ledger C R} (kept : Kept ledger) (turn : ledger.Turn next) : Kept next where
  numbered := kept.numbered.turn turn
  registered := kept.registered.turn kept.numbered turn
  counted := kept.counted.turn kept.numbered turn
  recorded := kept.recorded.turn kept.numbered kept.registered kept.counted turn

theorem kept_new : Kept (Session.new : Session C R).ledger where
  numbered := ⟨List.nodup_nil, fun _ => nofun, fun _ => nofun, fun _ => nofun⟩
  registered := ⟨fun _ _ _ => nofun, fun _ => nofun⟩
  counted := ⟨fun _ => nofun, fun _ => nofun⟩
  recorded := ⟨List.Pairwise.nil, fun before _ _ _ same => by cases before <;> cases same⟩

end Ledger

/-! ### What a `Notify` runs -/

/-- In a history each `Notify` runs what is added while it runs and not destroyed, it runs once what is there throughout, and
nothing is run once it is destroyed. -/
structure Notifies (history : List (Event C R)) : Prop where
  added : ∀ before notification during after,
    history = before ++ .notifyBegan notification :: (during ++ .notifyEnded notification :: after) →
    ∀ subscription callback missed, .added subscription callback missed ∈ during → .destroyed subscription ∉ during →
      subscription ∈ runsOf notification during
  present : ∀ before notification during after,
    history = before ++ .notifyBegan notification :: (during ++ .notifyEnded notification :: after) →
    ∀ subscription callback missed, .added subscription callback missed ∈ before → .destroyed subscription ∉ before →
      .destroyed subscription ∉ during → (runsOf notification during).count subscription = 1
  destroyed : ∀ earlier subscription later, history = earlier ++ .destroyed subscription :: later →
    ∀ notification callback, .ran notification subscription callback ∉ later

/-- No addition that stays was missed by a `Notify` it was made in. -/
def MissesNone (history : List (Event C R)) : Prop :=
  ∀ before notification during after,
    history = before ++ .notifyBegan notification :: (during ++ .notifyEnded notification :: after) →
    ∀ subscription callback missed, .added subscription callback missed ∈ during → .destroyed subscription ∉ during →
      notification ∉ missed

namespace Ledger.Recorded
variable {ledger : Ledger C R} {before during after : List (Event C R)} {notification : Nat}

variable {subscription : Nat}

section
variable (recorded : Recorded ledger)
include recorded

theorem count_added
    (split : ledger.history = before ++ .notifyBegan notification :: (during ++ .notifyEnded notification :: after))
    {callback : Option C} {missed : List Nat} (added : .added subscription callback missed ∈ during)
    (alive : .destroyed subscription ∉ during) :
    (runsOf notification during).count subscription = if notification ∈ missed then 0 else 1 := by
  refine recorded.completed before notification during after split subscription callback missed
    (List.mem_append_right _ added) fun destroyed => ?_
  have ordered := recorded.ordered
  rw [split] at ordered
  rcases List.mem_append.mp destroyed with earlier | destroyed
  · exact (List.pairwise_append.mp ordered).2.2 _ earlier _
      (List.mem_cons_of_mem _ (List.mem_append_left _ added)) rfl
  · exact alive destroyed

theorem count_present
    (split : ledger.history = before ++ .notifyBegan notification :: (during ++ .notifyEnded notification :: after))
    {callback : Option C} {missed : List Nat} (added : .added subscription callback missed ∈ before)
    (before_alive : .destroyed subscription ∉ before) (alive : .destroyed subscription ∉ during) :
    (runsOf notification during).count subscription = 1 := by
  have ordered := recorded.ordered
  rw [split] at ordered
  have unmissed : notification ∉ missed := (List.pairwise_append.mp ordered).2.2 _ added _ List.mem_cons_self
  rw [recorded.completed before notification during after split subscription callback missed
    (List.mem_append_left _ added) fun destroyed => (List.mem_append.mp destroyed).elim before_alive alive, if_neg unmissed]

theorem destroyed_not_run {earlier later : List (Event C R)}
    (split : ledger.history = earlier ++ .destroyed subscription :: later) (number : Nat) (callback : Option C) :
    .ran number subscription callback ∉ later := by
  intro ran
  have ordered := recorded.ordered
  rw [split] at ordered
  exact (List.pairwise_cons.mp (List.pairwise_append.mp ordered).2.1).1 _ ran rfl

theorem notifies_iff : Notifies ledger.history ↔ MissesNone ledger.history := by
  constructor
  · intro notifies before notification during after split subscription callback missed added alive late
    have run := notifies.added before notification during after split subscription callback missed added alive
    have count := recorded.count_added split added alive
    rw [if_pos late] at count
    exact List.count_eq_zero.mp count run
  · intro reached
    refine ⟨?_, ?_, ?_⟩
    · intro before notification during after split subscription callback missed added alive
      have count := recorded.count_added split added alive
      rw [if_neg (reached before notification during after split subscription callback missed added alive)] at count
      exact List.count_pos_iff.mp (count ▸ Nat.one_pos)
    · intro before notification during after split subscription callback missed
      exact recorded.count_present split
    · intro earlier subscription later
      exact recorded.destroyed_not_run

end

end Ledger.Recorded

/-- A callback is added while every running `Notify` still has a node before it. -/
def Session.Timely (session : Session C R) : Call C R → Prop
  | .add _ => session.atEnd = []
  | _ => True

instance (session : Session C R) (call : Call C R) : Decidable (session.Timely call) :=
  match call with
  | .add _ => inferInstanceAs (Decidable (session.atEnd = []))
  | .destroy _ | .setRemovalCallback _ | .notify _ | .proceed => isTrue trivial

theorem moves_kept {before after : Session C R} {call : Call C R} (sound : Sound before) (kept : before.ledger.Kept)
    (allowed : before.Allowed call) (moved : before.exec call = some after) :
    Moves before call after ∧ Sound after ∧ after.ledger.Kept := by
  obtain ⟨next, same, moves⟩ := sound.moves allowed
  cases Option.some.inj (moved.symm.trans same)
  exact ⟨moves, sound.step allowed moves, kept.turn (moves.turn sound allowed)⟩

theorem missed_eq_nil {before after : Session C R} {call : Call C R} (moves : Moves before call after)
    (timely : before.Timely call)
    (missed : ∀ subscription callback missed, .added subscription callback missed ∈ before.log → missed = []) :
    ∀ subscription callback missed, .added subscription callback missed ∈ after.log → missed = [] := by
  intro subscription callback late member
  cases moves with
  | add added =>
    rcases Ledger.mem_snoc.mp member with member | same
    · exact missed subscription callback late member
    · injection same with _ _ same
      exact same.trans timely
  | _ => exact missed subscription callback late (by simpa using member)

theorem callbackList_notifies {session : Session C R}
    (reached : Library.Reaches Session.exec (fun session call => session.Allowed call ∧ session.Timely call) Session.new
      session) : Notifies session.history := by
  have kept : Sound session ∧ session.ledger.Kept ∧
      ∀ subscription callback missed, .added subscription callback missed ∈ session.log → missed = [] := by
    refine reached.invariant (fun session => Sound session ∧ session.ledger.Kept ∧
      ∀ subscription callback missed, .added subscription callback missed ∈ session.log → missed = [])
      ⟨sound_new, Ledger.kept_new, fun _ _ _ => nofun⟩ ?_
    intro before call after ⟨sound, kept, missed⟩ ⟨allowed, timely⟩ moved
    obtain ⟨moves, sound', kept'⟩ := moves_kept sound kept allowed moved
    exact ⟨sound', kept', missed_eq_nil moves timely missed⟩
  refine kept.2.1.recorded.notifies_iff.mpr ?_
  intro before notification during after split subscription callback missed added alive
  have logged : .added subscription callback missed ∈ session.history := by
    change _ ∈ session.ledger.history
    rw [split]
    exact List.mem_append_right _ (List.mem_cons_of_mem _ (List.mem_append_left _ added))
  rw [kept.2.2 subscription callback missed (List.mem_filter.mp logged).1]
  exact List.not_mem_nil

/-- A callback that another one adds before the last of the list. -/
theorem callbackList_notifies_added : ∃ session : Session Nat Nat,
    session.history = [.added 0 (some 5) [], .added 1 (some 6) [], .notifyBegan 0, .ran 0 0 (some 5), .added 2 (some 7) [],
      .ran 0 1 (some 6), .ran 0 2 (some 7), .notifyEnded 0] ∧ Notifies session.history := by
  have first : Library.Reaches Session.exec (fun session call => session.Allowed call ∧ session.Timely call)
    (Session.new : Session Nat Nat) Session.new := .start
  have reached := first.run (rfl : Library.runFrom Session.exec _ Session.new
    [.add (some 5), .add (some 6), .notify 0, .proceed, .add (some 7), .proceed, .proceed, .proceed] = some _)
  exact ⟨_, rfl, callbackList_notifies reached⟩

/-- What the last callback of the list adds is not run. -/
theorem not_callbackList_notifies : ¬ ∀ session : Session Nat Nat,
    Library.Reaches Session.exec Session.Allowed Session.new session → Notifies session.history := by
  intro notifies
  have first : Library.Reaches Session.exec Session.Allowed (Session.new : Session Nat Nat) Session.new := .start
  have reached := first.run (rfl : Library.runFrom Session.exec Session.Allowed Session.new
    [.add (some 5), .notify 0, .proceed, .add (some 6), .proceed] = some _)
  have run := (notifies _ reached).added [.added 0 (some 5) []] 0 [.ran 0 0 (some 5), .added 1 (some 6) [0]] [] rfl
    1 (some 6) [0] (by simp) (by simp)
  simp [runsOf] at run

end Libchrome.Base.CallbackList
