import Libchrome.Base.Synchronization.WaitableEventMoves

/-!
# What every step keeps

A lock is held by the one thread that stands where the code holds it, and no event is signalled under a lock that
is kept. A waiter is in a queue only while its thread is in a wait on that event, and has been fired by the event
whose queue it is in only while `SignalAll` runs. Each wait agrees with what the log says of it, and each event with
its last `Signal`.
-/

namespace Libchrome.Base.Synchronization

variable {Event Thread : Type} [LinearOrder Event] [DecidableEq Thread]

/-- The thread keeps the lock of the event from one step to the next. -/
def Pc.holds (event : Event) : Pc Event Thread → Prop
  | .signalOne other => other = event
  | .signalAll other _ _ => other = event
  | .enqueueMany _ _ _ held => event ∈ held
  | _ => False

/-- The thread's waiter may be in the queue of the event. -/
def Pc.queued (event : Event) : Pc Event Thread → Prop
  | .timedWait other _ => other = event
  | .disabled other _ => other = event
  | .waitMany raw => event ∈ raw
  | .dequeueMany raw _ i _ => event ∈ raw.drop i
  | _ => False

structure Locks (s : State Event Thread) : Prop where
  owner : ∀ event thread, (s.kernel event).owner = some thread ↔ (s.thread thread).pc.holds event
  quiet : ∀ event thread, (s.kernel event).owner = some thread → (s.kernel event).signaled = false

structure Queues (s : State Event Thread) : Prop where
  nodup : ∀ event, (s.kernel event).waiters.Nodup
  empty : ∀ event, (s.kernel event).signaled = true → (s.kernel event).waiters = []
  queued : ∀ event, ∀ waiter ∈ (s.kernel event).waiters, (s.thread waiter).pc.queued event
  fresh : ∀ event, ∀ waiter ∈ (s.kernel event).waiters, (s.thread waiter).waiter.signalingEvent = some event →
    ∃ thread queued rest, (s.thread thread).pc = .signalAll event queued rest

/-- The waiter of a wait that has not left its loop, beside what the log says of the wait. -/
structure Pending (sw : SyncWaiter Event) (grants : List Event) (released : Bool) : Prop where
  grants : grants = sw.signalingEvent.toList
  fired : sw.fired = sw.signalingEvent.isSome
  released : released = sw.fired

/-- What the log says of the thread's wait fits where the thread stands. -/
def Local.Agrees (now : Local Event Thread) (grants : List Event) (released : Bool) : Prop :=
  match now.pc with
  | .timedWait event _ => Pending now.waiter grants released ∧ ∀ other ∈ grants, other = event
  | .disabled event returnValue =>
    grants = (if returnValue then [event] else []) ∧ now.waiter.fired = true ∧ released = true
  | .enqueueMany raw waitables rest held =>
    grants = [] ∧ released = false ∧ rest <:+ waitables ∧ (∀ entry ∈ waitables, raw[entry.2]? = some entry.1) ∧
      ∀ event ∈ held, event ∈ raw
  | .waitMany raw => Pending now.waiter grants released ∧ ∀ event ∈ grants, event ∈ raw
  | .dequeueMany raw signaledEvent i signaledIndex =>
    now.waiter.fired = true ∧ released = true ∧ signaledEvent = now.waiter.signalingEvent ∧
      ∃ event ∈ raw, now.waiter.signalingEvent = some event ∧ grants = [event] ∧
        (event ∈ raw.take i → raw[signaledIndex]? = some event)
  | _ => True

def Waits (s : State Event Thread) : Prop :=
  ∀ thread, (s.thread thread).Agrees (grants thread s.log) (released thread s.log)

/-- What the log says of each event. `one` and `all` are a `Signal` under way, `due` is what its end leaves. -/
structure Signals (manualReset initiallySignaled : Event → Bool) (s : State Event Thread) : Prop where
  kind : ∀ event, (s.kernel event).manualReset = manualReset event
  one : ∀ thread event, (s.thread thread).pc = .signalOne event →
    manualReset event = false ∧ standing initiallySignaled event s.log = true ∧ taken event s.log = 0
  all : ∀ thread event queued rest, (s.thread thread).pc = .signalAll event queued rest →
    manualReset event = true ∧ standing initiallySignaled event s.log = true ∧ queuedAt event s.log = queued ∧
      (s.kernel event).waiters = queued ∧ (∀ waiter ∈ rest, waiter ∈ queued) ∧
        ∀ waiter ∈ queued, waiter ∈ rest ∨ (s.thread waiter).waiter.fired = true
  sound : ∀ event, (s.kernel event).signaled = true → standing initiallySignaled event s.log = true
  spent : ∀ event, manualReset event = false → taken event s.log + (s.kernel event).signaled.toNat ≤ 1
  due : ∀ event, manualReset event = false → standing initiallySignaled event s.log = true →
    (∀ thread, (s.thread thread).pc ≠ .signalOne event) →
      taken event s.log + (s.kernel event).signaled.toNat = 1

theorem mem_waitables {raw : List Event} {entry : Event × Nat} (member : entry ∈ State.waitables raw) :
    raw[entry.2]? = some entry.1 := by
  have member := (List.perm_insertionSort _ raw.zipIdx).mem_iff.mp member
  exact List.mem_zipIdx_iff_getElem?.mp member

theorem mem_drop_iff {α : Type} {raw : List α} {i : Nat} {event other : α} (here : raw[i]? = some event) :
    other ∈ raw.drop i ↔ other = event ∨ other ∈ raw.drop (i + 1) := by
  obtain ⟨inside, same⟩ := List.getElem?_eq_some_iff.mp here
  rw [List.drop_eq_getElem_cons inside, same, List.mem_cons]

theorem not_mem_drop {α : Type} {raw : List α} {i : Nat} {event : α} (past : raw[i]? = none) : event ∉ raw.drop i := by
  simp [List.drop_eq_nil_of_le (List.getElem?_eq_none_iff.mp past)]

variable {s t : State Event Thread} {thread : Thread} {manualReset initiallySignaled : Event → Bool}

variable {other : Thread}

/-- A step changes the place of its own thread only. -/
theorem Move.pc_other (move : Move s thread t) (apart : other ≠ thread) :
    (t.thread other).pc = (s.thread other).pc := by
  cases move <;> simp [apart] <;> grind

variable {event : Event}

theorem Locks.owner_other (locks : Locks s) (move : Move s thread t) (apart : other ≠ thread) :
    (t.kernel event).owner = some other ↔ (s.kernel event).owner = some other := by
  have mine := locks.owner event thread
  cases move <;> simp <;> grind [Pc.holds]

theorem Locks.owner_self (locks : Locks s) (move : Move s thread t) (event : Event) :
    (t.kernel event).owner = some thread ↔ (t.thread thread).pc.holds event := by
  have mine := locks.owner event thread
  cases move <;> simp <;> grind [Pc.holds]

theorem Locks.move (locks : Locks s) (move : Move s thread t) : Locks t where
  owner event other := by
    by_cases mine : other = thread
    · exact mine ▸ locks.owner_self move event
    · rw [locks.owner_other move mine, locks.owner event other, move.pc_other mine]
  quiet event other held := by
    have mine := locks.owner event thread
    have quiet := locks.quiet event other
    cases move <;> simp at * <;> grind [Pc.holds]

theorem Queues.queued_move (queues : Queues s) (locks : Locks s) (waits : Waits s) (move : Move s thread t)
    {waiter : Thread} (member : waiter ∈ (t.kernel event).waiters) : (t.thread waiter).pc.queued event := by
  have queued := queues.queued event waiter
  have mine := waits thread
  cases move with
  | leave =>
    have nodup := queues.nodup event
    simp at member ⊢
    grind [Pc.queued]
  | leaveMany _ _ _ _ dequeuing past =>
    have gone : event ∉ _ := not_mem_drop past
    simp at member ⊢
    grind [Pc.queued]
  | passSignaled _ passed _ _ dequeuing here free =>
    have behind : event ∈ _ ↔ _ := mem_drop_iff here
    have fresh := queues.fresh passed waiter
    have held := locks.owner passed
    simp at member ⊢
    grind [Pc.queued, Pc.holds, Local.Agrees]
  | dequeue _ _ _ _ _ dequeuing here =>
    have behind : event ∈ _ ↔ _ := mem_drop_iff here
    have nodup := queues.nodup event
    simp at member ⊢
    grind [Pc.queued]
  | _ =>
    simp at member ⊢
    grind [Pc.queued, Local.Agrees]

theorem Queues.move (queues : Queues s) (locks : Locks s) (waits : Waits s) (move : Move s thread t) : Queues t where
  nodup event := by
    have nodup := queues.nodup event
    have queued := queues.queued event
    cases move <;> simp <;> grind [Pc.queued]
  empty event := by
    have mine := locks.owner event thread
    have quiet := locks.quiet event thread
    have empty := queues.empty event
    cases move <;> simp <;> grind [Pc.holds]
  queued event waiter := queues.queued_move locks waits move
  fresh event waiter := by
    have queued := queues.queued event waiter
    have nodup := queues.nodup event
    have fresh := queues.fresh event waiter
    have mine := waits thread
    cases move <;> simp <;> grind [Pc.queued, SyncWaiter.fire, SyncWaiter.unlock, SyncWaiter.disable]

section
omit [LinearOrder Event]

namespace Pending

theorem grants_eq_nil {sw : SyncWaiter Event} {grants : List Event} {released : Bool}
    (pending : Pending sw grants released) (ready : sw.fired = false) : grants = [] := by
  have fired := pending.fired
  cases event : sw.signalingEvent with
  | none => exact pending.grants.trans (event ▸ rfl)
  | some => simp [event, ready] at fired

theorem fire (sw : SyncWaiter Event) (event : Event) : Pending (sw.fire event) [event] true := ⟨rfl, rfl, rfl⟩

end Pending

omit [DecidableEq Thread] in
/-- A waiter that is fired in a queue of its wait had no grant before, and now has one of the wait's events. -/
theorem Local.Agrees.fire {now : Local Event Thread} {grants : List Event} {released : Bool} {event : Event}
    (agrees : now.Agrees grants released) (queued : now.pc.queued event) (ready : now.waiter.fired = false) :
    grants = [] ∧ Local.Agrees { now with waiter := now.waiter.fire event } [event] true := by
  obtain ⟨pc, sw⟩ := now
  cases pc with
  | timedWait =>
    have grants_nil := agrees.1.grants_eq_nil ready
    exact ⟨grants_nil, .fire sw event, fun other member => List.mem_singleton.mp member ▸ queued.symm⟩
  | waitMany =>
    have grants_nil := agrees.1.grants_eq_nil ready
    exact ⟨grants_nil, .fire sw event, fun other member => List.mem_singleton.mp member ▸ queued⟩
  | disabled => exact absurd agrees.2.1 (Bool.eq_false_iff.mp ready)
  | dequeueMany => exact absurd agrees.1 (Bool.eq_false_iff.mp ready)
  | _ => exact queued.elim

omit [DecidableEq Thread] in
theorem Local.Agrees.released_of_fired {now : Local Event Thread} {grants : List Event} {released : Bool}
    {event : Event} (agrees : now.Agrees grants released) (queued : now.pc.queued event)
    (fired : now.waiter.fired = true) : released = true := by
  obtain ⟨pc, sw⟩ := now
  cases pc with
  | timedWait => exact agrees.1.released.trans fired
  | waitMany => exact agrees.1.released.trans fired
  | disabled => exact agrees.2.2
  | dequeueMany => exact agrees.2.1
  | _ => exact queued.elim

omit [DecidableEq Thread] in
theorem Local.Agrees.unlock {now : Local Event Thread} {grants : List Event} {released : Bool}
    (agrees : now.Agrees grants released) :
    Local.Agrees { now with waiter := now.waiter.unlock } grants released := by
  obtain ⟨pc, sw⟩ := now
  cases pc with
  | timedWait => exact ⟨⟨agrees.1.grants, agrees.1.fired, agrees.1.released⟩, agrees.2⟩
  | waitMany => exact ⟨⟨agrees.1.grants, agrees.1.fired, agrees.1.released⟩, agrees.2⟩
  | _ => exact agrees

end

theorem Move.wait_other (signals : Signals manualReset initiallySignaled s) (move : Move s thread t)
    (apart : other ≠ thread) :
    ((t.thread other) = (s.thread other) ∧ grants other t.log = grants other s.log ∧
      released other t.log = released other s.log) ∨
    ∃ event, other ∈ (s.kernel event).waiters ∧ (s.thread other).waiter.fired = false ∧
      t.thread other = { s.thread other with waiter := (s.thread other).waiter.fire event } ∧
      grants other t.log = event :: grants other s.log ∧ released other t.log = true := by
  have apart' := apart.symm
  cases move with
  | fireOne event first =>
    by_cases mine : other = first
    · right
      subst mine
      exact ⟨event, by simp [*, grants, released]⟩
    · left
      have mine := Ne.symm mine
      simp [*, grants, released]
  | fireAll event first queued rest signaling =>
    have all := signals.all thread event queued _ signaling
    by_cases mine : other = first
    · right
      subst mine
      exact ⟨event, by simp [*, grants, released]⟩
    · left
      have mine := Ne.symm mine
      simp [*, grants, released]
  | _ =>
    left
    simp [*, grants, released]

/-- The steps of a wait itself. -/
theorem Waits.own (waits : Waits s) (move : Move s thread t) :
    (t.thread thread).Agrees (grants thread t.log) (released thread t.log) := by
  have agrees := waits thread
  cases move with
  | sleep =>
    simp only [State.setWaiter_thread, if_true, State.setWaiter_log]
    exact agrees.unlock
  | timedWait =>
    simp only [State.record_thread, State.setThread_thread, if_true]
    exact ⟨⟨by simp [grants], rfl, by simp [released]⟩, by simp [grants]⟩
  | waitMany raw =>
    simp only [State.record_thread, State.setThread_thread, if_true]
    exact ⟨by simp [grants], by simp [released], List.suffix_rfl, fun _ => mem_waitables, nofun⟩
  | awake event finiteTime place fired =>
    simp only [Local.Agrees, place] at agrees
    obtain ⟨pending, only⟩ := agrees
    obtain ⟨other, accepted⟩ := Option.isSome_iff_exists.mp (pending.fired.symm.trans fired)
    have granted := pending.grants.trans (accepted ▸ rfl : _ = [other])
    simp only [State.setThread_thread, if_true, State.setThread_log]
    exact ⟨by simp [granted, only other], rfl, pending.released.trans fired⟩
  | expire event finiteTime place ready =>
    simp only [Local.Agrees, place] at agrees
    have none := agrees.1.grants_eq_nil ready
    simp [Local.Agrees, grants, released, SyncWaiter.disable, none]
  | enqueued raw waitables held place =>
    simp only [Local.Agrees, place] at agrees
    simp only [State.setThread_thread, if_true, State.setThread_log, State.release_log]
    exact ⟨⟨agrees.1, rfl, agrees.2.1⟩, by simp [agrees.1]⟩
  | lock raw waitables event index rest held place =>
    simp only [Local.Agrees, place] at agrees
    obtain ⟨none, free, suffix, indices, inside⟩ := agrees
    have here := indices _ (suffix.subset List.mem_cons_self)
    have inside : ∀ other ∈ event :: held, other ∈ raw :=
      List.forall_mem_cons.mpr ⟨List.mem_of_getElem? here, inside⟩
    simp only [State.setPc_thread, if_true, State.setPc_log, State.setKernel_log]
    exact ⟨none, free, (List.suffix_cons _ _).trans suffix, indices, inside⟩
  | awakeMany raw place fired =>
    simp only [Local.Agrees, place] at agrees
    obtain ⟨pending, inside⟩ := agrees
    obtain ⟨event, accepted⟩ := Option.isSome_iff_exists.mp (pending.fired.symm.trans fired)
    have granted := pending.grants.trans (accepted ▸ rfl : _ = [event])
    simp only [State.setThread_thread, if_true, State.setThread_log]
    exact ⟨fired, pending.released.trans fired, rfl, event, inside event (by simp [granted]), accepted, granted, nofun⟩
  | passSignaled raw event i signaledIndex place here =>
    simp only [Local.Agrees, place] at agrees
    obtain ⟨fired, free, same, other, inside, accepted, granted, -⟩ := agrees
    have mine : event = other := Option.some.inj (same.trans accepted)
    simp only [State.setPc_thread, if_true, State.setPc_log]
    exact ⟨fired, free, same, other, inside, accepted, granted, fun _ => mine ▸ here⟩
  | dequeue raw signaledEvent event i signaledIndex place here apart =>
    simp only [Local.Agrees, place] at agrees
    obtain ⟨fired, free, same, other, inside, accepted, granted, passed⟩ := agrees
    have passed : other ∈ raw.take (i + 1) → raw[signaledIndex]? = some other := by
      intro member
      rw [List.take_add_one, here] at member
      rcases List.mem_append.mp member with before | last
      · exact passed before
      · exact absurd (same.trans (accepted.trans (by simp_all))) apart
    simp only [State.dequeue, State.setPc_thread, if_true, State.setPc_log, State.setKernel_thread, State.setKernel_log]
    exact ⟨fired, free, same, other, inside, accepted, granted, passed⟩
  | _ => simp [*, Local.Agrees]

theorem Waits.move (waits : Waits s) (queues : Queues s) (signals : Signals manualReset initiallySignaled s)
    (move : Move s thread t) : Waits t := by
  intro other
  by_cases mine : other = thread
  · subst mine
    exact waits.own move
  · rcases move.wait_other signals mine with ⟨same, grants, released⟩ | ⟨event, member, ready, fired, grants, released⟩
    · rw [same, grants, released]
      exact waits other
    · have kept := (waits other).fire (queues.queued event other member) ready
      rw [fired, grants, released, kept.1]
      exact kept.2

theorem Move.fired (move : Move s thread t) {waiter : Thread} (queued : (s.thread waiter).pc.queued event)
    (fired : (s.thread waiter).waiter.fired = true) : (t.thread waiter).waiter.fired = true := by
  cases move <;> simp <;> grind [Pc.queued, SyncWaiter.fire, SyncWaiter.unlock, SyncWaiter.disable]

theorem Locks.guarded (locks : Locks s) (move : Move s thread t) (held : (s.thread other).pc.holds event)
    (apart : other ≠ thread) :
    t.kernel event = s.kernel event ∧ taken event t.log = taken event s.log ∧
      queuedAt event t.log = queuedAt event s.log ∧
        standing initiallySignaled event t.log = standing initiallySignaled event s.log := by
  have owned := (locks.owner event other).mpr held
  have mine := locks.owner event thread
  cases move <;> simp [taken, queuedAt, standing] <;> grind [Pc.holds]

section
variable (signals : Signals manualReset initiallySignaled s)
include signals

theorem Signals.one_move (locks : Locks s)
    (move : Move s thread t) (place : (t.thread other).pc = .signalOne event) :
    manualReset event = false ∧ standing initiallySignaled event t.log = true ∧ taken event t.log = 0 := by
  by_cases mine : other = thread
  · have kind := signals.kind event
    have one := signals.one other event
    subst mine
    cases move <;> simp [standing, taken] at place ⊢ <;> grind
  · have before := (move.pc_other mine).symm.trans place
    have one := signals.one other event before
    have holds : (s.thread other).pc.holds event := before ▸ rfl
    obtain ⟨-, taken, -, standing⟩ := locks.guarded move holds mine
    rw [taken, standing]
    exact one

theorem Signals.all_move (locks : Locks s) (queues : Queues s)
    (move : Move s thread t) {queued rest : List Thread} (place : (t.thread other).pc = .signalAll event queued rest) :
    manualReset event = true ∧ standing initiallySignaled event t.log = true ∧ queuedAt event t.log = queued ∧
      (t.kernel event).waiters = queued ∧ (∀ waiter ∈ rest, waiter ∈ queued) ∧
        ∀ waiter ∈ queued, waiter ∈ rest ∨ (t.thread waiter).waiter.fired = true := by
  by_cases mine : other = thread
  · have kind := signals.kind event
    have all := signals.all other event
    have queue := queues.queued event
    subst mine
    cases move <;> simp [standing, queuedAt] at place ⊢ <;> grind [Pc.queued, SyncWaiter.fire]
  · have before := (move.pc_other mine).symm.trans place
    obtain ⟨manual, stands, at_signal, waiters, subset, fired⟩ := signals.all other event queued rest before
    have holds : (s.thread other).pc.holds event := before ▸ rfl
    obtain ⟨kernel, -, same, standing⟩ := locks.guarded move holds mine
    rw [standing, same, kernel]
    refine ⟨manual, stands, at_signal, waiters, subset, fun waiter member => ?_⟩
    have queued := queues.queued event waiter (waiters ▸ member)
    exact (fired waiter member).imp_right (move.fired queued)

theorem Signals.sound_move (move : Move s thread t)
    (signaled : (t.kernel event).signaled = true) : standing initiallySignaled event t.log = true := by
  have sound := signals.sound event
  have one := signals.one thread event
  have all := signals.all thread event
  cases move <;> simp [standing] at * <;> grind

theorem Signals.spent_move (locks : Locks s)
    (move : Move s thread t) (auto : manualReset event = false) :
    taken event t.log + (t.kernel event).signaled.toNat ≤ 1 := by
  have kind := signals.kind event
  have spent := signals.spent event auto
  have quiet := locks.quiet event thread
  have mine := locks.owner event thread
  have one := signals.one thread event
  have all := signals.all thread event
  cases move <;> simp [taken] at * <;> grind [Pc.holds]

theorem Signals.due_move (locks : Locks s)
    (move : Move s thread t) (auto : manualReset event = false)
    (stands : standing initiallySignaled event t.log = true)
    (silent : ∀ thread, (t.thread thread).pc ≠ .signalOne event) :
    taken event t.log + (t.kernel event).signaled.toNat = 1 := by
  have kind := signals.kind event
  have spent := signals.spent event auto
  have quiet := locks.quiet event thread
  have held := locks.owner event thread
  have one := signals.one thread event
  have all := signals.all thread event
  have own := silent thread
  have due : standing initiallySignaled event s.log = true → (s.thread thread).pc ≠ .signalOne event →
      taken event s.log + (s.kernel event).signaled.toNat = 1 := by
    intro stood not_one
    refine signals.due event auto stood fun other => ?_
    by_cases mine : other = thread
    · exact mine ▸ not_one
    · exact move.pc_other mine ▸ silent other
  clear silent
  cases move <;> simp [taken, standing] at stands own ⊢ <;> grind [Pc.holds]

theorem Signals.move (locks : Locks s) (queues : Queues s)
    (move : Move s thread t) : Signals manualReset initiallySignaled t where
  kind event := by
    have kind := signals.kind event
    cases move <;> simp <;> grind
  one other event := signals.one_move locks move
  all other event queued rest := signals.all_move locks queues move
  sound event := signals.sound_move move
  spent event := signals.spent_move locks move
  due event := signals.due_move locks move

end

/-!
# Signals are delivered

Every step keeps the log lawful. What the events promise is then read off: no `Signal` of an auto-reset event serves
two waits, none is lost, and a `Signal` of a manual-reset event releases all it finds.
-/

/-- The invariant, with the contract of the log. -/
structure Sound (manualReset initiallySignaled : Event → Bool) (s : State Event Thread) : Prop where
  locks : Locks s
  queues : Queues s
  waits : Waits s
  signals : Signals manualReset initiallySignaled s
  lawful : Lawful manualReset initiallySignaled s.log

theorem index_of_suffix {α : Type} {raw : List α} {waitables rest : List (α × Nat)} {event : α} {index : Nat}
    (suffix : (event, index) :: rest <:+ waitables)
    (indices : ∀ entry ∈ waitables, raw[entry.2]? = some entry.1) :
    raw[(waitables[waitables.length - ((event, index) :: rest).length]?.map Prod.snd).getD 0]? = some event := by
  obtain ⟨front, rfl⟩ := suffix
  have here := indices (event, index) (by simp)
  simpa using here

omit [DecidableEq Thread] in
/-- An auto-reset event that is signalled has granted no wait since its last `Signal`. -/
theorem Signals.unspent (signals : Signals manualReset initiallySignaled s) {event : Event}
    (signaled : (s.kernel event).signaled = true) (auto : manualReset event = false) : taken event s.log = 0 := by
  have spent := signals.spent event auto
  rw [signaled] at spent
  exact Nat.le_zero.mp (Nat.le_of_succ_le_succ spent)

theorem Sound.lawful_move (sound : Sound manualReset initiallySignaled s) (move : Move s thread t) :
    Lawful manualReset initiallySignaled t.log := by
  have lawful := sound.lawful
  have agrees := sound.waits thread
  cases move with
  | merged event idle free signaled =>
    have empty := sound.queues.empty event signaled
    simp [Lawful, Entry.Allowed, lawful, queuedAt, empty]
  | found event result idle free signaled result_event single =>
    have standing_before := sound.signals.sound event signaled
    have unspent : manualReset event = false → taken event s.log = 0 := sound.signals.unspent signaled
    refine ⟨⟨by simp [grants, result_event], fun raw index same => absurd same (single raw index)⟩, ?_⟩
    exact ⟨⟨standing_before, unspent, by simp [grants]⟩, trivial, lawful⟩
  | notSignaled event => simp [Lawful, Entry.Allowed, lawful, grants, Result.event]
  | raiseOne event signaling =>
    have one := sound.signals.one thread event signaling
    simp [Lawful, Entry.Allowed, lawful, one]
  | raiseAll event queued signaling =>
    obtain ⟨-, -, same, waiters, -, fired⟩ := sound.signals.all thread event queued [] signaling
    refine ⟨fun _ waiter member => ?_, lawful⟩
    have member : waiter ∈ queued := same ▸ member
    have place := sound.queues.queued event waiter (waiters ▸ member)
    have fired := (fired waiter member).resolve_left List.not_mem_nil
    exact (sound.waits waiter).released_of_fired place fired
  | fireOne event first rest signaling queue ready =>
    have one := sound.signals.one thread event signaling
    have place := sound.queues.queued event first (queue ▸ List.mem_cons_self)
    exact ⟨⟨one.2.1, fun _ => one.2.2, ((sound.waits first).fire place ready).1⟩, lawful⟩
  | fireAll event first queued rest signaling ready =>
    obtain ⟨manual, stands, -, waiters, inside, -⟩ := sound.signals.all thread event queued _ signaling
    have place := sound.queues.queued event first (waiters ▸ inside first List.mem_cons_self)
    exact ⟨⟨stands, fun auto => absurd manual (Bool.eq_false_iff.mp auto), ((sound.waits first).fire place ready).1⟩,
      lawful⟩
  | leave event returnValue disabled =>
    simp only [Local.Agrees, disabled] at agrees
    refine ⟨⟨agrees.1.trans ?_, fun _ _ same => ?_⟩, lawful⟩
    · cases returnValue <;> rfl
    · cases same
  | foundMany raw waitables event index rest held place free signaled =>
    simp only [Local.Agrees, place] at agrees
    obtain ⟨none, -, suffix, indices, -⟩ := agrees
    have unspent : manualReset event = false → taken event s.log = 0 := sound.signals.unspent signaled
    have here := index_of_suffix suffix indices
    have granted : grants thread (.granted event thread :: s.log) = [event] := by simp [grants, none]
    refine ⟨⟨granted.trans ?_, fun _ _ same => ?_⟩, ⟨sound.signals.sound event signaled, unspent, none⟩, lawful⟩
    · simp only [Result.event, here, Option.toList]
    · cases same
      exact (List.getElem?_eq_some_iff.mp here).1
  | leaveMany raw signaledEvent i signaledIndex place past =>
    simp only [Local.Agrees, place] at agrees
    obtain ⟨-, -, -, event, inside, -, granted, passed⟩ := agrees
    have all : raw.take i = raw := List.take_of_length_le (List.getElem?_eq_none_iff.mp past)
    have here := passed (all.symm ▸ inside)
    refine ⟨⟨granted.trans ?_, fun _ _ same => ?_⟩, lawful⟩
    · simp only [Result.event, here, Option.toList]
    · cases same
      exact (List.getElem?_eq_some_iff.mp here).1
  | _ => simp [Lawful, Entry.Allowed, lawful]

theorem Sound.move (sound : Sound manualReset initiallySignaled s) (move : Move s thread t) :
    Sound manualReset initiallySignaled t where
  locks := sound.locks.move move
  queues := sound.queues.move sound.locks sound.waits move
  waits := sound.waits.move sound.queues sound.signals move
  signals := sound.signals.move sound.locks sound.queues move
  lawful := sound.lawful_move move

theorem initial_sound :
    Sound manualReset initiallySignaled (initial manualReset initiallySignaled : State Event Thread) where
  locks := ⟨fun _ _ => ⟨nofun, nofun⟩, nofun⟩
  queues := ⟨fun _ => List.nodup_nil, fun _ _ => rfl, nofun, nofun⟩
  waits _ := trivial
  signals := by
    refine ⟨fun _ => rfl, nofun, nofun, fun _ signaled => signaled, fun event _ => ?_, fun event _ stands _ => ?_⟩
    · simp only [initial, taken, Nat.zero_add, Bool.toNat_le]
    · simp only [initial, taken, Nat.zero_add]
      exact congrArg Bool.toNat stands
  lawful := trivial

/-- Every reachable state is sound. -/
theorem Reachable.sound (reached : Reachable manualReset initiallySignaled s) :
    Sound manualReset initiallySignaled s := by
  refine Library.Reaches.invariant (Sound manualReset initiallySignaled) initial_sound ?_ reached
  intro before action after sound _ moved
  obtain ⟨thread, move⟩ := step_move moved
  exact sound.move move

/-- Delivery. Of an auto-reset event no `Signal` grants two waits; unless a `Reset` came after it or it is under
way, the last one has granted one wait or leaves the event signalled. A wait is granted once and by an event that
was signalled, and returns that event, or nothing when it was not granted. When a `Signal` of a manual-reset
event has raised it, every wait it found in the queue is released. -/
theorem waitableEvent_delivers (reached : Reachable manualReset initiallySignaled s) :
    (∀ event, manualReset event = false →
      (∀ newer older, s.log = newer ++ older → taken event older ≤ 1) ∧
      (standing initiallySignaled event s.log = true → (∀ thread, (s.thread thread).pc ≠ .signalOne event) →
        (taken event s.log = 1 ∧ (s.kernel event).signaled = false) ∨
        (taken event s.log = 0 ∧ (s.kernel event).signaled = true))) ∧
    (∀ event thread newer older, s.log = newer ++ .granted event thread :: older →
      standing initiallySignaled event older = true ∧ grants thread older = []) ∧
    (∀ thread result newer older, s.log = newer ++ .returned thread result :: older →
      grants thread older = result.event.toList ∧ ∀ raw index, result = .waitMany raw index → index < raw.length) ∧
    (∀ event newer older, manualReset event = true → s.log = newer ++ .raised event :: older →
      ∀ waiter ∈ queuedAt event older, released waiter older = true) := by
  have sound := reached.sound
  have lawful := sound.lawful
  refine ⟨fun event auto => ⟨?_, ?_⟩, ?_, ?_, ?_⟩
  · intro newer older split
    exact (split ▸ lawful).older.taken_le_one auto
  · intro stands silent
    have due := sound.signals.due event auto stands silent
    cases signaled : (s.kernel event).signaled with
    | false => exact .inl ⟨by simpa [signaled] using due, rfl⟩
    | true => exact .inr ⟨by simpa [signaled] using due, rfl⟩
  · intro event thread newer older split
    obtain ⟨stands, -, first⟩ := (split ▸ lawful).allowed
    exact ⟨stands, first⟩
  · intro thread result newer older split
    exact (split ▸ lawful).allowed
  · intro event newer older manual split
    exact (split ▸ lawful).allowed manual

/-- Thread 1 waits on event 0 and thread 2 signals it. -/
def handedOver : State Nat Nat :=
  (Library.runFrom step (fun _ _ => True) (initial (fun _ => false) fun _ => false)
    [.timedWait 1 0 true, .advance 1 false, .signal 2 0, .advance 2 false, .advance 1 false, .advance 1 false]).getD
    (initial (fun _ => false) fun _ => false)

theorem waitableEvent_delivers_handedOver :
    handedOver.log = [.returned 1 (.timedWait 0 true), .granted 0 1, .signal 0 [1], .waiting 1] ∧
      taken 0 handedOver.log = 1 ∧ (handedOver.kernel 0).signaled = false ∧
        grants 1 (handedOver.log.drop 1) = [0] := by
  have ran : Library.runFrom step (fun _ _ => True) (initial (fun _ => false) fun _ => false)
      [.timedWait 1 0 true, .advance 1 false, .signal 2 0, .advance 2 false, .advance 1 false, .advance 1 false] =
      some handedOver := rfl
  have reached : Reachable (fun _ => false) (fun _ => false) handedOver := Library.Reaches.start.run ran
  have delivers := waitableEvent_delivers reached
  have returned := delivers.2.2.1 1 (.timedWait 0 true) [] _ rfl
  refine ⟨rfl, ?_, rfl, returned.1⟩
  exact Nat.le_antisymm ((delivers.1 0 rfl).1 [] _ rfl) (by decide)

end Libchrome.Base.Synchronization
