import Mathlib.Data.List.Basic
import Mathlib.Data.List.Nodup
import Mathlib.Data.List.TakeWhile
import Libchrome.Library.Machine

/-!
# `base::CallbackList`

A list of callbacks that may change while its callbacks are run. A node whose subscription goes while there are iterators
is reset and stays in its place until the last iterator takes it out.
-/

namespace Libchrome.Base.CallbackList

/-- A node of the `std::list`. The number is its place in the order of insertion, and stands for its address. -/
structure Node (C : Type) where
  number : Nat
  callback : Option C

/-- A `std::list` iterator, `none` at the end. -/
abbrev Position := Option Nat

structure CallbackListBase (C R : Type) where
  callbacks : List (Node C)
  activeIteratorCount : Int
  removalCallback : Option R
  inserted : Nat

namespace CallbackListBase
variable {C R : Type}

def new : CallbackListBase C R := ⟨[], 0, none, 0⟩

def setRemovalCallback (list : CallbackListBase C R) (callback : Option R) : CallbackListBase C R :=
  { list with removalCallback := callback }

def empty (list : CallbackListBase C R) : Bool := list.callbacks.isEmpty

/-- The list with the new subscription's node. -/
def add (list : CallbackListBase C R) (callback : Option C) : CallbackListBase C R × Nat :=
  ({ list with callbacks := list.callbacks ++ [⟨list.inserted, callback⟩], inserted := list.inserted + 1 }, list.inserted)

/-- `Subscription::~Subscription`, with the removal callback it runs. Fails on a node that is no longer there. -/
def destroySubscription (list : CallbackListBase C R) (subscription : Nat) : Option (CallbackListBase C R × Option R) :=
  if subscription ∈ list.callbacks.map Node.number then
    if list.activeIteratorCount ≠ 0 then
      some ({ list with callbacks := list.callbacks.map fun node =>
        if node.number = subscription then { node with callback := none } else node }, none)
    else
      some ({ list with callbacks := list.callbacks.filter fun node => node.number ≠ subscription }, list.removalCallback)
  else none

/-- The loop of `Compact`: the nodes it leaves, and whether it took one out. -/
def compactFrom : List (Node C) → List (Node C) × Bool
  | [] => ([], false)
  | node :: rest =>
    if node.callback.isNone then ((compactFrom rest).1, true)
    else (node :: (compactFrom rest).1, (compactFrom rest).2)

/-- The list after `Compact`, and the removal callback it runs. -/
def compact (list : CallbackListBase C R) : CallbackListBase C R × Option R :=
  ({ list with callbacks := (compactFrom list.callbacks).1 },
    if (compactFrom list.callbacks).2 then list.removalCallback else none)

def newIterator (list : CallbackListBase C R) : CallbackListBase C R × Position :=
  ({ list with activeIteratorCount := list.activeIteratorCount + 1 }, list.callbacks.head?.map Node.number)

def copyIterator (list : CallbackListBase C R) (iterator : Position) : CallbackListBase C R × Position :=
  ({ list with activeIteratorCount := list.activeIteratorCount + 1 }, iterator)

def destroyIterator (list : CallbackListBase C R) : CallbackListBase C R × Option R :=
  if list.activeIteratorCount - 1 = 0 then
    { list with activeIteratorCount := list.activeIteratorCount - 1 }.compact
  else ({ list with activeIteratorCount := list.activeIteratorCount - 1 }, none)

/-- An iterator handed on through copies, each of which outlives the one it was made from. -/
def handOn : Nat → CallbackListBase C R → Position → CallbackListBase C R × Position × List R
  | 0, list, iterator => (list, iterator, [])
  | copies + 1, list, iterator =>
    let (list, copy) := list.copyIterator iterator
    let (list, ran) := list.destroyIterator
    let (list, iterator, later) := handOn copies list copy
    (list, iterator, ran.toList ++ later)

/-- `GetIterator`, its result copied as often as the compiler does not leave it out. -/
def getIterator (copies : Nat) (list : CallbackListBase C R) : CallbackListBase C R × Position × List R :=
  let (list, iterator) := list.newIterator
  handOn copies list iterator

/-- The nodes from a position on; `none` for that of a node that is no longer there. -/
def nodesFrom (list : CallbackListBase C R) : Position → Option (List (Node C))
  | none => some []
  | some number =>
    if number ∈ list.callbacks.map Node.number then
      some (list.callbacks.dropWhile fun node => node.number ≠ number)
    else none

/-- `Iterator::GetNext`: the node it points to, and where the iterator is then. -/
def getNext (list : CallbackListBase C R) (iterator : Position) : Option (Option (Node C) × Position) :=
  (list.nodesFrom iterator).map fun nodes =>
    match nodes.dropWhile fun node => node.callback.isNone with
    | [] => (none, none)
    | node :: rest => (some node, rest.head?.map Node.number)

end CallbackListBase

/-- A running call of `Notify`, and whether it is inside one of the callbacks. -/
structure Notification where
  number : Nat
  iterator : Position
  inCallback : Bool

/-- What happens to a list. An addition names the calls of `Notify` whose iterators are at the end of the list. -/
inductive Event (C R : Type) where
  | added (subscription : Nat) (callback : Option C) (missed : List Nat)
  | destroyed (subscription : Nat)
  | removalCallbackSet (callback : Option R)
  | notifyBegan (notification : Nat)
  | ran (notification subscription : Nat) (callback : Option C)
  | notifyEnded (notification : Nat)
  | removalCallbackRan (callback : R)

/-- What the client does, or the innermost `Notify`. -/
inductive Call (C R : Type) where
  | add (callback : Option C)
  | destroy (subscription : Nat)
  | setRemovalCallback (callback : Option R)
  | notify (copies : Nat)
  | proceed

/-- A list with its subscriptions, the calls of `Notify` that are running on it (innermost first) and its history. -/
structure Session (C R : Type) where
  list : CallbackListBase C R
  subscriptions : List Nat
  running : List Notification
  notified : Nat
  log : List (Event C R)

namespace Session
variable {C R : Type}

def new : Session C R := ⟨.new, [], [], 0, []⟩

/-- The client acts outside `Notify` and in the callbacks. -/
def ClientActs (session : Session C R) : Prop := ∀ top ∈ session.running.head?, top.inCallback = true

/-- Callbacks that are added are not null, and each subscription is destroyed once. -/
def Allowed (session : Session C R) : Call C R → Prop
  | .add callback => session.ClientActs ∧ callback.isSome
  | .destroy subscription => session.ClientActs ∧ subscription ∈ session.subscriptions
  | .setRemovalCallback _ | .notify _ => session.ClientActs
  | .proceed => session.running ≠ []

instance (session : Session C R) : Decidable session.ClientActs :=
  inferInstanceAs (Decidable (∀ top ∈ session.running.head?, top.inCallback = true))

instance (session : Session C R) (call : Call C R) : Decidable (session.Allowed call) :=
  match call with
  | .add callback => inferInstanceAs (Decidable (session.ClientActs ∧ callback.isSome))
  | .destroy subscription => inferInstanceAs (Decidable (session.ClientActs ∧ subscription ∈ session.subscriptions))
  | .setRemovalCallback _ | .notify _ => inferInstanceAs (Decidable session.ClientActs)
  | .proceed => decidable_of_iff (session.running.isEmpty = false) List.isEmpty_eq_false_iff

/-- The calls of `Notify` that are past the last node. -/
def atEnd (session : Session C R) : List Nat :=
  (session.running.filter fun notification => notification.iterator.isNone).map Notification.number

def exec (session : Session C R) : Call C R → Option (Session C R)
  | .add callback =>
    let (list, subscription) := session.list.add callback
    some { session with
      list
      subscriptions := session.subscriptions ++ [subscription]
      log := session.log ++ [.added subscription callback session.atEnd] }
  | .destroy subscription =>
    (session.list.destroySubscription subscription).map fun (list, ran) => { session with
      list
      subscriptions := session.subscriptions.erase subscription
      log := session.log ++ .destroyed subscription :: ran.toList.map .removalCallbackRan }
  | .setRemovalCallback callback =>
    some { session with
      list := session.list.setRemovalCallback callback
      log := session.log ++ [.removalCallbackSet callback] }
  | .notify copies =>
    let (list, iterator, ran) := session.list.getIterator copies
    some { session with
      list
      running := ⟨session.notified, iterator, false⟩ :: session.running
      notified := session.notified + 1
      log := session.log ++ .notifyBegan session.notified :: ran.map .removalCallbackRan }
  | .proceed =>
    match session.running with
    | [] => none
    | top :: outer =>
      -- The callback that was running has returned.
      (session.list.getNext top.iterator).map fun
        | (some node, iterator) => { session with
            running := { top with iterator, inCallback := true } :: outer
            log := session.log ++ [.ran top.number node.number node.callback] }
        | (none, _) =>
          let (list, ran) := session.list.destroyIterator
          { session with
            list
            running := outer
            log := session.log ++ .notifyEnded top.number :: ran.toList.map .removalCallbackRan }

end Session

/-! What holds of a callback list in every state of every run, and when its removal callback is run. -/

variable {C R : Type}

/-- The numbers of the nodes that have not been reset. -/
def live (nodes : List (Node C)) : List Nat := (nodes.filter fun node => node.callback.isSome).map Node.number

/-- The node with this number is one that an iterator has yet to come to. -/
def Position.ahead (position : Position) (number : Nat) : Bool := position.any (· ≤ number)

structure Sound (session : Session C R) : Prop where
  count : session.list.activeIteratorCount = session.running.length
  ordered : session.list.callbacks.Pairwise fun first second => first.number < second.number
  below : ∀ node ∈ session.list.callbacks, node.number < session.list.inserted
  live : session.subscriptions = live session.list.callbacks
  compact : session.running = [] → ∀ node ∈ session.list.callbacks, node.callback.isSome
  valid : ∀ notification ∈ session.running, ∀ number ∈ notification.iterator,
    number ∈ session.list.callbacks.map Node.number

/-! ### Nodes -/

def Node.reset (node : Node C) (number : Nat) : Node C :=
  if node.number = number then { node with callback := none } else node

@[simp] theorem Node.reset_number (node : Node C) (number : Nat) : (node.reset number).number = node.number := by
  unfold Node.reset
  split <;> rfl

theorem Node.reset_callback (node : Node C) (number : Nat) :
    (node.reset number).callback.isSome = (node.callback.isSome && decide (node.number ≠ number)) := by
  unfold Node.reset
  split
  next same => simp [same]
  next different => simp [different]

theorem map_reset_number (nodes : List (Node C)) (number : Nat) :
    (nodes.map fun node => node.reset number).map Node.number = nodes.map Node.number := by
  rw [List.map_map]
  exact List.map_congr_left fun node _ => node.reset_number number

variable {nodes : List (Node C)}

theorem mem_live {number : Nat} :
    number ∈ live nodes ↔ ∃ node ∈ nodes, node.callback.isSome ∧ node.number = number := by
  simp only [live, List.mem_map, List.mem_filter, and_assoc]

theorem live_append (nodes others : List (Node C)) : live (nodes ++ others) = live nodes ++ live others := by
  rw [live, List.filter_append, List.map_append]
  rfl

theorem live_filter (nodes : List (Node C)) (number : Nat) :
    live (nodes.filter fun node => node.number ≠ number) = (live nodes).filter (· ≠ number) := by
  rw [live, live, List.filter_map, List.filter_comm]
  rfl

theorem live_reset (nodes : List (Node C)) (number : Nat) :
    live (nodes.map fun node => node.reset number) = (live nodes).filter (· ≠ number) := by
  induction nodes with
  | nil => rfl
  | cons node rest inductive_hypothesis =>
    change live ([node.reset number] ++ rest.map _) = (live ([node] ++ rest)).filter _
    rw [live_append, live_append, List.filter_append, inductive_hypothesis]
    congr 1
    cases alive : node.callback.isSome <;> by_cases same : node.number = number <;>
      simp [live, Node.reset_callback, alive, same]

theorem live_nodup (ordered : nodes.Pairwise fun first second => first.number < second.number) :
    (live nodes).Nodup := by
  rw [live, List.Nodup, List.pairwise_map]
  exact (ordered.filter _).imp fun before => Nat.ne_of_lt before

theorem ordered_reset (number : Nat) (ordered : nodes.Pairwise fun first second => first.number < second.number) :
    (nodes.map fun node => node.reset number).Pairwise fun first second => first.number < second.number := by
  rw [List.pairwise_map]
  simpa only [Node.reset_number] using ordered

namespace CallbackListBase

theorem compactFrom_eq (nodes : List (Node C)) :
    compactFrom nodes = (nodes.filter fun node => node.callback.isSome, nodes.any fun node => node.callback.isNone) := by
  induction nodes with
  | nil => rfl
  | cons node rest inductive_hypothesis =>
    rw [compactFrom, inductive_hypothesis]
    cases reset : node.callback with
    | none => simp [reset]
    | some callback => simp [reset]

theorem handOn_eq (copies : Nat) {list : CallbackListBase C R} (positive : 0 < list.activeIteratorCount)
    (iterator : Position) : handOn copies list iterator = (list, iterator, []) := by
  induction copies with
  | zero => rfl
  | succ copies inductive_hypothesis =>
    have others : list.activeIteratorCount ≠ 0 := Int.ne_of_gt positive
    rw [handOn]
    simp only [copyIterator, destroyIterator, Int.add_sub_cancel, others, if_false, inductive_hypothesis]
    rfl

/-- However often the iterator is copied on its way, there is one more in the end, and nothing was compacted. -/
theorem getIterator_eq (copies : Nat) {list : CallbackListBase C R} (positive : 0 ≤ list.activeIteratorCount) :
    list.getIterator copies = ({ list with activeIteratorCount := list.activeIteratorCount + 1 },
      list.callbacks.head?.map Node.number, []) := by
  have more : 0 < list.activeIteratorCount + 1 := by omega
  exact handOn_eq copies more _

theorem destroyIterator_last {list : CallbackListBase C R} (last : list.activeIteratorCount = 1) :
    list.destroyIterator =
      ({ list with
          callbacks := list.callbacks.filter fun node => node.callback.isSome
          activeIteratorCount := 0 },
        if list.callbacks.any fun node => node.callback.isNone then list.removalCallback else none) := by
  simp only [destroyIterator, last, Int.sub_self, if_true, compact, compactFrom_eq]

theorem destroyIterator_more {list : CallbackListBase C R} (more : list.activeIteratorCount ≠ 1) :
    list.destroyIterator = ({ list with activeIteratorCount := list.activeIteratorCount - 1 }, none) := by
  have others : list.activeIteratorCount - 1 ≠ 0 := by omega
  rw [destroyIterator, if_neg others]

/-! ### `GetNext` -/

theorem dropWhile_eq_filter {nodes : List (Node C)} {number : Nat}
    (ordered : nodes.Pairwise fun first second => first.number < second.number)
    (member : number ∈ nodes.map Node.number) :
    nodes.dropWhile (fun node => decide (node.number ≠ number)) = nodes.filter fun node => number ≤ node.number := by
  induction nodes with
  | nil => rfl
  | cons node rest inductive_hypothesis =>
    obtain ⟨before, ordered⟩ := List.pairwise_cons.mp ordered
    by_cases same : node.number = number
    · have later : ∀ other ∈ node :: rest, decide (number ≤ other.number) = true := by
        intro other member
        rcases List.mem_cons.mp member with rfl | member
        · exact decide_eq_true (Nat.le_of_eq same.symm)
        · exact decide_eq_true (Nat.le_of_lt (same ▸ before other member))
      rw [List.filter_eq_self.mpr later]
      simp [same]
    · have member : number ∈ rest.map Node.number := (List.mem_cons.mp member).resolve_left fun equal => same equal.symm
      obtain ⟨other, inside, at_number⟩ := List.mem_map.mp member
      have earlier : ¬ number ≤ node.number := Nat.not_le_of_lt (at_number ▸ before other inside)
      rw [List.dropWhile_cons, if_pos (by simpa using same), inductive_hypothesis ordered member,
        List.filter_cons_of_neg (by simpa using earlier)]

variable {list : CallbackListBase C R} {position : Position}

theorem nodesFrom_eq (ordered : list.callbacks.Pairwise fun first second => first.number < second.number)
    (valid : ∀ number ∈ position, number ∈ list.callbacks.map Node.number) :
    list.nodesFrom position = some (list.callbacks.filter fun node => position.ahead node.number) := by
  cases position with
  | none => simp [nodesFrom, Position.ahead]
  | some number =>
    rw [nodesFrom, if_pos (valid number rfl), dropWhile_eq_filter ordered (valid number rfl)]
    rfl

theorem ahead_mono {number later : Nat} (ahead : position.ahead number = true) (order : number ≤ later) :
    position.ahead later = true := by
  obtain ⟨first, at_first, before⟩ := Option.any_eq_true _ _ |>.mp ahead
  exact (Option.any_eq_true _ _).mpr ⟨first, at_first, decide_eq_true (Nat.le_trans (of_decide_eq_true before) order)⟩

theorem ahead_rest {node : Node C} {rest : List (Node C)}
    (ordered : (node :: rest).Pairwise fun first second => first.number < second.number) {other : Node C}
    (member : other ∈ node :: rest) :
    Position.ahead (rest.head?.map Node.number) other.number = decide (other.number ≠ node.number) := by
  obtain ⟨before, ordered⟩ := List.pairwise_cons.mp ordered
  cases rest with
  | nil =>
    obtain rfl := List.mem_singleton.mp member
    simp [Position.ahead]
  | cons first rest =>
    have later := (List.pairwise_cons.mp ordered).1
    have start := before first List.mem_cons_self
    rcases List.mem_cons.mp member with rfl | member
    · simpa [Position.ahead] using start
    · have passed : first.number ≤ other.number := by
        rcases List.mem_cons.mp member with rfl | member
        · exact Nat.le_refl _
        · exact Nat.le_of_lt (later other member)
      have different : other.number ≠ node.number := by omega
      simp [Position.ahead, passed, different]

/-- An iterator comes to the next node that has not been reset, and leaves those after it for later. -/
theorem getNext_eq (ordered : list.callbacks.Pairwise fun first second => first.number < second.number)
    (valid : ∀ number ∈ position, number ∈ list.callbacks.map Node.number) :
    (list.getNext position = some (none, none) ∧
      ∀ number ∈ live list.callbacks, position.ahead number = false) ∨
    ∃ node next, list.getNext position = some (some node, next) ∧ node ∈ list.callbacks ∧
      node.callback.isSome ∧ position.ahead node.number = true ∧
      (∀ number ∈ next, number ∈ list.callbacks.map Node.number) ∧
      ∀ number ∈ live list.callbacks,
        next.ahead number = (position.ahead number && decide (number ≠ node.number)) := by
  rw [getNext, nodesFrom_eq ordered valid, Option.map_some]
  have inside : ∀ node, node ∈ list.callbacks.filter (fun node => position.ahead node.number) ↔
      node ∈ list.callbacks ∧ position.ahead node.number = true := fun node => List.mem_filter
  have sorted := ordered.filter fun node => position.ahead node.number
  generalize list.callbacks.filter (fun node => position.ahead node.number) = nodes at inside sorted ⊢
  have head := List.head?_dropWhile_not (fun node : Node C => node.callback.isNone) nodes
  have whole := List.takeWhile_append_dropWhile (p := fun node : Node C => node.callback.isNone) (l := nodes)
  cases found : nodes.dropWhile fun node => node.callback.isNone with
  | nil =>
    refine .inl ⟨rfl, fun number member => ?_⟩
    obtain ⟨node, there, alive, rfl⟩ := mem_live.mp member
    by_contra ahead
    have reset := List.dropWhile_eq_nil_iff.mp found node ((inside node).mpr ⟨there, eq_true_of_ne_false ahead⟩)
    rw [Option.isNone_iff_eq_none.mp reset] at alive
    cases alive
  | cons node rest =>
    rw [found] at head whole
    have alive : node.callback.isSome := by simpa using head
    have suffix : ∀ other ∈ node :: rest, other ∈ list.callbacks ∧ position.ahead other.number = true :=
      fun other member => (inside other).mp (whole ▸ List.mem_append_right _ member)
    have here := suffix node List.mem_cons_self
    refine .inr ⟨node, _, rfl, here.1, alive, here.2, fun number at_number => ?_, fun number member => ?_⟩
    · obtain ⟨first, at_first, rfl⟩ := Option.map_eq_some_iff.mp at_number
      have member := List.mem_cons_of_mem node (List.mem_of_head? at_first)
      exact List.mem_map_of_mem (suffix first member).1
    · obtain ⟨other, there, kept, rfl⟩ := mem_live.mp member
      have after : (node :: rest).Pairwise fun first second => first.number < second.number := by
        rw [← whole] at sorted
        exact (List.pairwise_append.mp sorted).2.1
      cases ahead : position.ahead other.number with
      | true =>
        have remaining : other ∈ node :: rest := by
          have member := (inside other).mpr ⟨there, ahead⟩
          rw [← whole] at member
          refine (List.mem_append.mp member).resolve_left fun skipped => ?_
          have reset := List.mem_takeWhile_imp skipped
          rw [Option.isNone_iff_eq_none.mp reset] at kept
          cases kept
        rw [ahead_rest after remaining, Bool.true_and]
      | false =>
        rw [Bool.false_and]
        by_contra reached
        obtain ⟨number, at_first, before⟩ := (Option.any_eq_true _ _).mp (eq_true_of_ne_false reached)
        obtain ⟨first, at_head, rfl⟩ := Option.map_eq_some_iff.mp at_first
        have passed := (suffix first (List.mem_cons_of_mem node (List.mem_of_head? at_head))).2
        rw [ahead_mono passed (of_decide_eq_true before)] at ahead
        cases ahead

end CallbackListBase

/-! ### Steps -/

/-- What a call makes of a session. -/
inductive Moves (session : Session C R) : Call C R → Session C R → Prop
  | add (callback : Option C) : Moves session (.add callback)
      { session with
        list := (session.list.add callback).1
        subscriptions := session.subscriptions ++ [session.list.inserted]
        log := session.log ++ [.added session.list.inserted callback session.atEnd] }
  | destroyInside (subscription : Nat) (inside : session.running ≠ []) : Moves session (.destroy subscription)
      { session with
        list := { session.list with callbacks := session.list.callbacks.map fun node => node.reset subscription }
        subscriptions := session.subscriptions.erase subscription
        log := session.log ++ [.destroyed subscription] }
  | destroyOutside (subscription : Nat) (outside : session.running = []) : Moves session (.destroy subscription)
      { session with
        list := { session.list with
          callbacks := session.list.callbacks.filter fun node => node.number ≠ subscription }
        subscriptions := session.subscriptions.erase subscription
        log := session.log ++ .destroyed subscription ::
          session.list.removalCallback.toList.map .removalCallbackRan }
  | setRemovalCallback (callback : Option R) : Moves session (.setRemovalCallback callback)
      { session with
        list := session.list.setRemovalCallback callback
        log := session.log ++ [.removalCallbackSet callback] }
  | notify (copies : Nat) : Moves session (.notify copies)
      { session with
        list := { session.list with activeIteratorCount := session.list.activeIteratorCount + 1 }
        running := ⟨session.notified, session.list.callbacks.head?.map Node.number, false⟩ :: session.running
        notified := session.notified + 1
        log := session.log ++ [.notifyBegan session.notified] }
  | run (top : Notification) (outer : List Notification) (running : session.running = top :: outer)
      (node : Node C) (member : node ∈ session.list.callbacks) (alive : node.callback.isSome)
      (ahead : top.iterator.ahead node.number = true)
      (next : Position) (valid : ∀ number ∈ next, number ∈ session.list.callbacks.map Node.number)
      (passed : ∀ number ∈ CallbackList.live session.list.callbacks,
        next.ahead number = (top.iterator.ahead number && decide (number ≠ node.number))) :
      Moves session .proceed
        { session with
          running := { top with iterator := next, inCallback := true } :: outer
          log := session.log ++ [.ran top.number node.number node.callback] }
  | finish (top : Notification) (outer : List Notification) (running : session.running = top :: outer)
      (nested : outer ≠ [])
      (done : ∀ number ∈ CallbackList.live session.list.callbacks, top.iterator.ahead number = false) :
      Moves session .proceed
        { session with
          list := { session.list with activeIteratorCount := session.list.activeIteratorCount - 1 }
          running := outer
          log := session.log ++ [.notifyEnded top.number] }
  | finishLast (top : Notification) (running : session.running = [top])
      (done : ∀ number ∈ CallbackList.live session.list.callbacks, top.iterator.ahead number = false) :
      Moves session .proceed
        { session with
          list := { session.list with
            callbacks := session.list.callbacks.filter fun node => node.callback.isSome
            activeIteratorCount := 0 }
          running := []
          log := session.log ++ .notifyEnded top.number ::
            (if session.list.callbacks.any fun node => node.callback.isNone then session.list.removalCallback
              else none).toList.map .removalCallbackRan }

theorem Sound.count_eq_zero {session : Session C R} (sound : Sound session) :
    session.list.activeIteratorCount = 0 ↔ session.running = [] := by
  rw [sound.count]
  exact Int.natCast_eq_zero.trans List.length_eq_zero_iff

/-- Every call that is allowed can be made. -/
theorem Sound.moves {session : Session C R} (sound : Sound session) {call : Call C R} (allowed : session.Allowed call) :
    ∃ next, session.exec call = some next ∧ Moves session call next := by
  cases call with
  | add callback => exact ⟨_, rfl, .add callback⟩
  | destroy subscription =>
    have member : subscription ∈ session.list.callbacks.map Node.number := by
      obtain ⟨node, member, -, same⟩ := mem_live.mp (sound.live ▸ allowed.2)
      exact List.mem_map.mpr ⟨node, member, same⟩
    by_cases outside : session.running = []
    · have none_active := sound.count_eq_zero.mpr outside
      refine ⟨_, ?_, .destroyOutside subscription outside⟩
      rw [Session.exec, CallbackListBase.destroySubscription, if_pos member, if_neg (not_not.mpr none_active)]
      rfl
    · have some_active := mt sound.count_eq_zero.mp outside
      refine ⟨_, ?_, .destroyInside subscription outside⟩
      rw [Session.exec, CallbackListBase.destroySubscription, if_pos member, if_pos some_active]
      rfl
  | setRemovalCallback callback => exact ⟨_, rfl, .setRemovalCallback callback⟩
  | notify copies =>
    refine ⟨_, ?_, .notify copies⟩
    have positive : 0 ≤ session.list.activeIteratorCount := by rw [sound.count]; exact Int.natCast_nonneg _
    rw [Session.exec, CallbackListBase.getIterator_eq copies positive]
    rfl
  | proceed =>
    cases running : session.running with
    | nil => exact absurd running allowed
    | cons top outer =>
      have valid := sound.valid top (running ▸ List.mem_cons_self)
      rcases CallbackListBase.getNext_eq sound.ordered valid with ⟨answer, done⟩ |
        ⟨node, next, answer, member, alive, ahead, kept, passed⟩
      · by_cases nested : outer = []
        · subst nested
          have last : session.list.activeIteratorCount = 1 := by rw [sound.count, running]; rfl
          refine ⟨_, ?_, .finishLast top running done⟩
          simp only [Session.exec, running, answer, Option.map_some, CallbackListBase.destroyIterator_last last]
        · have more : session.list.activeIteratorCount ≠ 1 := by
            have some_outer : outer.length ≠ 0 := mt List.length_eq_zero_iff.mp nested
            rw [sound.count, running, List.length_cons]
            omega
          refine ⟨_, ?_, .finish top outer running nested done⟩
          simp only [Session.exec, running, answer, Option.map_some, CallbackListBase.destroyIterator_more more]
          rfl
      · refine ⟨_, ?_, .run top outer running node member alive ahead next kept passed⟩
        simp only [Session.exec, running, answer, Option.map_some]

theorem live_compacted (nodes : List (Node C)) : live (nodes.filter fun node => node.callback.isSome) = live nodes := by
  rw [live, List.filter_filter]
  simp only [Bool.and_self, live]

theorem live_erase (ordered : nodes.Pairwise fun first second => first.number < second.number) (number : Nat) :
    (live nodes).erase number = (live nodes).filter (· ≠ number) := by
  rw [(live_nodup ordered).erase_eq_filter]
  exact List.filter_congr fun other _ => by by_cases same : other = number <;> simp [same]

section Stepping
variable {session next : Session C R}

section
variable (sound : Sound session)
include sound

theorem Sound.add {callback : Option C} (present : callback.isSome) :
    Sound { session with
      list := (session.list.add callback).1
      subscriptions := session.subscriptions ++ [session.list.inserted]
      log := session.log ++ [.added session.list.inserted callback session.atEnd] } where
  count := sound.count
  ordered := by
    refine List.pairwise_append.mpr ⟨sound.ordered, List.pairwise_singleton _ _, fun node member added new => ?_⟩
    rw [List.mem_singleton.mp new]
    exact sound.below node member
  below := by
    intro node member
    rcases List.mem_append.mp member with member | new
    · exact Nat.lt_succ_of_lt (sound.below node member)
    · rw [List.mem_singleton.mp new]
      exact Nat.lt_succ_self _
  live := by
    change _ = CallbackList.live (session.list.callbacks ++ [_])
    rw [live_append, sound.live]
    simp [CallbackList.live, present]
  compact := by
    intro outside node member
    rcases List.mem_append.mp member with member | new
    · exact sound.compact outside node member
    · rw [List.mem_singleton.mp new]
      exact present
  valid := by
    intro notification member number at_number
    change number ∈ (session.list.callbacks ++ [_]).map Node.number
    rw [List.map_append]
    exact List.mem_append_left _ (sound.valid notification member number at_number)

theorem Sound.destroyInside (subscription : Nat) (inside : session.running ≠ []) :
    Sound { session with
      list := { session.list with callbacks := session.list.callbacks.map fun node => node.reset subscription }
      subscriptions := session.subscriptions.erase subscription
      log := session.log ++ [.destroyed subscription] } where
  count := sound.count
  ordered := ordered_reset subscription sound.ordered
  below := by
    intro node member
    obtain ⟨original, there, rfl⟩ := List.mem_map.mp member
    rw [Node.reset_number]
    exact sound.below original there
  live := by
    change session.subscriptions.erase subscription = CallbackList.live (session.list.callbacks.map _)
    rw [live_reset, sound.live]
    exact live_erase sound.ordered subscription
  compact := fun outside => absurd outside inside
  valid := by
    intro notification member number at_number
    change number ∈ (session.list.callbacks.map _).map Node.number
    rw [map_reset_number]
    exact sound.valid notification member number at_number

theorem Sound.destroyOutside (subscription : Nat) (outside : session.running = []) :
    Sound { session with
      list := { session.list with
        callbacks := session.list.callbacks.filter fun node => node.number ≠ subscription }
      subscriptions := session.subscriptions.erase subscription
      log := session.log ++ .destroyed subscription ::
        session.list.removalCallback.toList.map .removalCallbackRan } where
  count := sound.count
  ordered := sound.ordered.filter _
  below := fun node member => sound.below node (List.mem_filter.mp member).1
  live := by
    change session.subscriptions.erase subscription = CallbackList.live (session.list.callbacks.filter _)
    rw [live_filter, sound.live]
    exact live_erase sound.ordered subscription
  compact := fun _ node member => sound.compact outside node (List.mem_filter.mp member).1
  valid := fun notification member => absurd (outside ▸ member) List.not_mem_nil

theorem Sound.notify :
    Sound { session with
      list := { session.list with activeIteratorCount := session.list.activeIteratorCount + 1 }
      running := ⟨session.notified, session.list.callbacks.head?.map Node.number, false⟩ :: session.running
      notified := session.notified + 1
      log := session.log ++ [.notifyBegan session.notified] } where
  count := by
    rw [List.length_cons, Int.natCast_succ]
    exact congrArg (· + 1) sound.count
  ordered := sound.ordered
  below := sound.below
  live := sound.live
  compact := fun outside => absurd outside (List.cons_ne_nil _ _)
  valid := by
    intro notification member number at_number
    rcases List.mem_cons.mp member with rfl | member
    · obtain ⟨first, at_first, rfl⟩ := Option.map_eq_some_iff.mp at_number
      exact List.mem_map_of_mem (List.mem_of_head? at_first)
    · exact sound.valid notification member number at_number

theorem Sound.step {call : Call C R} (allowed : session.Allowed call)
    (moved : Moves session call next) : Sound next := by
  cases moved with
  | add callback => exact sound.add allowed.2
  | destroyInside subscription inside => exact sound.destroyInside subscription inside
  | destroyOutside subscription outside => exact sound.destroyOutside subscription outside
  | setRemovalCallback callback =>
    exact ⟨sound.count, sound.ordered, sound.below, sound.live, sound.compact, sound.valid⟩
  | notify copies => exact sound.notify
  | run top outer running node member alive ahead position kept passed =>
    have valid := sound.valid
    rw [running] at valid
    refine ⟨?_, sound.ordered, sound.below, sound.live, fun outside => absurd outside (List.cons_ne_nil _ _), ?_⟩
    · rw [sound.count, running]
      rfl
    · intro notification inside
      rcases List.mem_cons.mp inside with rfl | inside
      · exact kept
      · exact valid notification (List.mem_cons_of_mem _ inside)
  | finish top outer running nested done =>
    have valid := sound.valid
    rw [running] at valid
    refine ⟨?_, sound.ordered, sound.below, sound.live, fun outside => absurd outside nested, ?_⟩
    · change session.list.activeIteratorCount - 1 = _
      rw [sound.count, running, List.length_cons, Int.natCast_succ, Int.add_sub_cancel]
    · exact fun notification inside => valid notification (List.mem_cons_of_mem _ inside)
  | finishLast top running done =>
    refine ⟨rfl, sound.ordered.filter _, fun node member => sound.below node (List.mem_filter.mp member).1, ?_,
      fun _ node member => (List.mem_filter.mp member).2, fun notification member => absurd member List.not_mem_nil⟩
    exact sound.live.trans (live_compacted _).symm

end

end Stepping

theorem sound_new : Sound (Session.new : Session C R) where
  count := rfl
  ordered := List.Pairwise.nil
  below := fun _ member => absurd member List.not_mem_nil
  live := rfl
  compact := fun _ _ member => absurd member List.not_mem_nil
  valid := fun _ member => absurd member List.not_mem_nil

end Libchrome.Base.CallbackList
