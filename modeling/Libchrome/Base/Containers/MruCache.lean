import Mathlib.Data.List.AList
import Mathlib.Data.List.Perm.Basic
import Libchrome.Library.Keyed
import Libchrome.Library.Recency

/-! `MRUCacheBase` (`mru_cache.h`). A node of the list keeps its name when it moves, as a list iterator does. -/

namespace Libchrome.Base.Containers

/-- A node of a `std::list`, under the name that iterators to it hold. -/
structure Node (K P : Type) where
  name : Nat
  key : K
  payload : P

structure MruCache (K P : Type) where
  ordering : List (Node K P)
  /-- The map from a key to an iterator. -/
  index : AList fun _ : K => Nat
  maxSize : Nat
  /-- A name that no node had so far. -/
  fresh : Nat
  /-- What the deletor was called on, the latest last. -/
  deleted : List P

/-- The value of `max_size` for a cache without a limit. -/
def noAutoEvict : Nat := 0

namespace MruCache

variable {K P : Type}

/-- `ordering_.erase`. -/
def unlink (ordering : List (Node K P)) (pos : Nat) : List (Node K P) := ordering.filter fun node => node.name ≠ pos

/-- The node that an iterator points to. -/
def node (cache : MruCache K P) (pos : Nat) : Option (Node K P) := cache.ordering.find? fun node => node.name = pos

/-- The iterator behind one that points to a node; `end()` is none. -/
def next (cache : MruCache K P) (pos : Nat) : Option Nat :=
  (cache.ordering.dropWhile fun node => node.name ≠ pos).tail.head?.map Node.name

variable [DecidableEq K]

def new (maxSize : Nat) : MruCache K P := ⟨[], ∅, maxSize, 0, []⟩

def size (cache : MruCache K P) : Nat := cache.index.entries.length

/-- `Erase`; none where the iterator points to no node. -/
def erase (cache : MruCache K P) (pos : Nat) : Option (MruCache K P × Option Nat) :=
  (cache.node pos).map fun node =>
    ({ cache with
        deleted := cache.deleted ++ [node.payload]
        index := cache.index.erase node.key
        ordering := unlink cache.ordering pos }, cache.next pos)

/-- `Erase(rbegin())`. -/
def eraseLast (cache : MruCache K P) : Option (MruCache K P) :=
  cache.ordering.getLast?.bind fun node => (cache.erase node.name).map Prod.fst

/-- The loop of `ShrinkToSize`, with so many rounds to go. -/
def shrinkBy : Nat → MruCache K P → Option (MruCache K P)
  | 0, cache => some cache
  | rounds + 1, cache => cache.eraseLast.bind (shrinkBy rounds)

def shrinkToSize (cache : MruCache K P) (newSize : Nat) : Option (MruCache K P) :=
  shrinkBy (cache.size - newSize) cache

/-- The end of `Put`: `push_front`, and an `insert` that keeps an entry that is there. -/
def pushFront (cache : MruCache K P) (key : K) (payload : P) : MruCache K P :=
  { cache with
    ordering := ⟨cache.fresh, key, payload⟩ :: cache.ordering
    index := if key ∈ cache.index then cache.index else cache.index.insert key cache.fresh
    fresh := cache.fresh + 1 }

/-- The beginning of `Put`: an existing entry of the key goes, or the oldest ones where a new one needs room. -/
def makeRoom (cache : MruCache K P) (key : K) : Option (MruCache K P) :=
  match cache.index.lookup key with
  | some pos => (cache.erase pos).map Prod.fst
  | none => if cache.maxSize ≠ noAutoEvict then cache.shrinkToSize (cache.maxSize - 1) else some cache

def put (cache : MruCache K P) (key : K) (payload : P) : Option (MruCache K P × Option Nat) :=
  (cache.makeRoom key).map fun cache => (cache.pushFront key payload, some cache.fresh)

/-- `Get`; none where the index holds an iterator that points to no node. -/
def get (cache : MruCache K P) (key : K) : Option (MruCache K P × Option Nat) :=
  match cache.index.lookup key with
  | none => some (cache, none)
  | some pos =>
    (cache.node pos).map fun node => ({ cache with ordering := node :: unlink cache.ordering pos }, some pos)

def peek (cache : MruCache K P) (key : K) : Option Nat := cache.index.lookup key

def clear (cache : MruCache K P) : MruCache K P :=
  { cache with deleted := cache.deleted ++ cache.ordering.map Node.payload, index := ∅, ordering := [] }

/-- The loop of the destructor, which erases at `begin()`, for so many rounds. -/
def destroyBy : Nat → MruCache K P → Option (MruCache K P)
  | 0, cache => some cache
  | rounds + 1, cache =>
    match cache.ordering with
    | [] => some cache
    | node :: _ => (cache.erase node.name).bind fun result => destroyBy rounds result.1

/-- `~MRUCacheBase`; a round takes a node. -/
def destroy (cache : MruCache K P) : Option (MruCache K P) := destroyBy cache.ordering.length cache

end MruCache

/-- What a client may ask of a cache. -/
inductive MruCall (K P : Type) where
  | put (key : K) (payload : P)
  | get (key : K)
  | peek (key : K)
  | erase (pos : Nat)
  | shrinkToSize (newSize : Nat)
  | clear

/-- One call, with the iterator that it returns if it returns one. -/
def MruCache.exec {K P : Type} [DecidableEq K] (cache : MruCache K P) :
    MruCall K P → Option (MruCache K P × Option Nat)
  | .put key payload => cache.put key payload
  | .get key => cache.get key
  | .peek key => some (cache, cache.peek key)
  | .erase pos => cache.erase pos
  | .shrinkToSize newSize => (cache.shrinkToSize newSize).map fun cache => (cache, none)
  | .clear => some (cache.clear, none)

/-! An `MRUCacheBase` is a list of entries in the order of their last use. -/

open Library.Keyed Library.Recency

variable {K P : Type} [DecidableEq K]

/-- What is asked of the list of entries, where an iterator is the key it points at. -/
inductive MruRequest (K P : Type) where
  | put (key : K) (payload : P)
  | get (key : K)
  | peek (key : K)
  | erase (key : K)
  | shrinkToSize (newSize : Nat)
  | clear

namespace MruRequest

/-- The entries after a request, and what it drops. -/
def after (limit : Nat) (entries : Entries K P) : MruRequest K P → Entries K P × List P
  | put key payload => entries.put limit key payload
  | get key => (entries.touch key, [])
  | peek _ => (entries, [])
  | erase key => entries.erase key
  | shrinkToSize newSize => entries.shrink newSize
  | clear => entries.clear

/-- The entry that a request answers with. -/
def answer (entries : Entries K P) : MruRequest K P → Option (K × P)
  | put key payload => some (key, payload)
  | get key => entries.lookup key
  | peek key => entries.lookup key
  | erase key => entries.following key
  | _ => none

/-- The payload that a request brings. -/
def brought : MruRequest K P → List P
  | put _ payload => [payload]
  | _ => []

end MruRequest

namespace MruCache

def entry (node : Node K P) : K × P := (node.key, node.payload)

def contents (cache : MruCache K P) : Entries K P := cache.ordering.map entry

/-- What an iterator points at. -/
def entryAt (cache : MruCache K P) (pos : Option Nat) : Option (K × P) := (pos.bind cache.node).map entry

/-- What a call asks of the entries, unless its iterator points to no node. -/
def request (cache : MruCache K P) : MruCall K P → Option (MruRequest K P)
  | .put key payload => some (.put key payload)
  | .get key => some (.get key)
  | .peek key => some (.peek key)
  | .erase pos => (cache.node pos).map fun node => .erase node.key
  | .shrinkToSize newSize => some (.shrinkToSize newSize)
  | .clear => some .clear

/-- The map and the list are in bijection. -/
structure Valid (cache : MruCache K P) : Prop where
  names : (cache.ordering.map Node.name).Nodup
  keys : (cache.ordering.map Node.key).Nodup
  index : ∀ key pos, cache.index.lookup key = some pos ↔ ∃ node ∈ cache.ordering, node.key = key ∧ node.name = pos
  fresh : ∀ node ∈ cache.ordering, node.name < cache.fresh

/-- A cache looks like these entries, and to destroy it deletes each payload. -/
structure Agrees (cache : MruCache K P) (entries : Entries K P) : Prop extends Valid cache where
  contents : cache.contents = entries
  size : cache.size = entries.length
  destroyed : ∃ after, cache.destroy = some after ∧ after.ordering = [] ∧ after.deleted = cache.deleted ++ entries.map Prod.snd

/-- A call that asked `request` of these entries deleted what the request drops, each payload once, answered with its
entry, and kept the limit if it was a `Put`. -/
structure Answers (maxSize : Nat) (entries : Entries K P) (request : MruRequest K P) (cache next : MruCache K P)
    (pos : Option Nat) : Prop where
  deleted : next.deleted = cache.deleted ++ (request.after maxSize entries).2
  conserved : (request.brought ++ entries.map Prod.snd).Perm (next.contents.map Prod.snd ++ (request.after maxSize entries).2)
  answer : next.entryAt pos = request.answer entries
  limit : ∀ key payload, request = .put key payload → maxSize ≠ noAutoEvict → next.size ≤ maxSize

/-- In every state of a run the cache looks like the entries, and every call with an iterator to a node is answered. -/
def RefinesAlong (maxSize : Nat) (cache : MruCache K P) (entries : Entries K P) : List (MruCall K P) → Prop
  | [] => Agrees cache entries
  | call :: calls => Agrees cache entries ∧ ∀ request, cache.request call = some request →
      ∃ next pos, cache.exec call = some (next, pos) ∧ Answers maxSize entries request cache next pos ∧
        RefinesAlong maxSize next (request.after maxSize entries).1 calls

/-! ### Nodes and entries -/

section

variable {cache : MruCache K P} {found : Node K P} {pos : Nat}

omit [DecidableEq K] in
theorem contents_keys (cache : MruCache K P) : cache.contents.map Prod.fst = cache.ordering.map Node.key := by
  rw [contents, List.map_map]
  rfl

omit [DecidableEq K] in
theorem contents_payloads (cache : MruCache K P) : cache.contents.map Prod.snd = cache.ordering.map Node.payload := by
  rw [contents, List.map_map]
  rfl

namespace Valid

section
variable (valid : Valid cache)
include valid

theorem node_iff : cache.node pos = some found ↔ found ∈ cache.ordering ∧ found.name = pos :=
  find_iff valid.names

theorem node_of_mem (member : found ∈ cache.ordering) : cache.node found.name = some found :=
  valid.node_iff.mpr ⟨member, rfl⟩

/-- An iterator in the map points to the node of its key. -/
theorem node_of_lookup {key : K} (indexed : cache.index.lookup key = some pos) :
    ∃ node, cache.node pos = some node ∧ node.key = key := by
  rcases (valid.index key pos).mp indexed with ⟨node, member, same, named⟩
  exact ⟨node, valid.node_iff.mpr ⟨member, named⟩, same⟩

theorem lookup_of_mem (member : found ∈ cache.ordering) :
    cache.index.lookup found.key = some found.name := (valid.index _ _).mpr ⟨found, member, rfl, rfl⟩

theorem keys_perm : cache.index.keys.Perm (cache.ordering.map Node.key) := by
  apply (List.perm_ext_iff_of_nodup cache.index.nodupKeys valid.keys).mpr
  intro key
  change key ∈ cache.index ↔ key ∈ cache.ordering.map Node.key
  rw [← AList.lookup_isSome, Option.isSome_iff_exists, List.mem_map]
  constructor
  · intro indexed
    rcases indexed with ⟨pos, indexed⟩
    rcases (valid.index key pos).mp indexed with ⟨node, member, same, -⟩
    exact ⟨node, member, same⟩
  · intro listed
    rcases listed with ⟨node, member, rfl⟩
    exact ⟨node.name, valid.lookup_of_mem member⟩

theorem size : cache.size = cache.contents.length := by
  have same := valid.keys_perm.length_eq
  rw [List.length_map] at same
  rw [contents, List.length_map, ← same]
  exact (List.length_map _).symm

theorem unlink_eq (member : found ∈ cache.ordering) :
    unlink cache.ordering found.name = cache.ordering.filter fun node => node.key ≠ found.key := by
  apply List.filter_congr
  intro other otherMember
  rw [decide_eq_decide]
  constructor
  · intro named same
    exact named (congrArg Node.name (List.inj_on_of_nodup_map valid.keys otherMember member same))
  · intro keyed same
    exact keyed (congrArg Node.key (List.inj_on_of_nodup_map valid.names otherMember member same))

theorem contents_unlink (member : found ∈ cache.ordering) :
    (unlink cache.ordering found.name).map entry = cache.contents.without found.key := by
  rw [valid.unlink_eq member, contents, Entries.without, List.filter_map]
  rfl

theorem lookup_contents_of_mem (member : found ∈ cache.ordering) :
    cache.contents.lookup found.key = some (entry found) := by
  have unique : (cache.contents.map Prod.fst).Nodup := by
    rw [contents_keys]
    exact valid.keys
  exact (find_iff unique).mpr ⟨List.mem_map_of_mem member, rfl⟩

theorem lookup_contents_none {key : K} (none_ : cache.index.lookup key = none) :
    cache.contents.lookup key = none := by
  apply List.find?_eq_none.mpr
  intro listed member
  rcases List.mem_map.mp member with ⟨node, nodeMember, rfl⟩
  rw [decide_eq_true_eq]
  intro same
  have indexed := valid.lookup_of_mem nodeMember
  rw [show node.key = key from same, none_] at indexed
  cases indexed

theorem entryAt_lookup (key : K) :
    cache.entryAt (cache.index.lookup key) = cache.contents.lookup key := by
  cases indexed : cache.index.lookup key with
  | none => rw [valid.lookup_contents_none indexed]; rfl
  | some pos =>
    rcases valid.node_of_lookup indexed with ⟨node, there, rfl⟩
    rw [valid.lookup_contents_of_mem (valid.node_iff.mp there).1, entryAt, Option.bind_some, there, Option.map_some]

end

end Valid

/-! ### One change at a time -/

/-- What a change made of a cache: these entries, with these payloads deleted. -/
structure Became (cache next : MruCache K P) (result : Entries K P × List P) : Prop where
  valid : Valid next
  contents : next.contents = result.1
  deleted : next.deleted = cache.deleted ++ result.2
  maxSize : next.maxSize = cache.maxSize

theorem Valid.became_self (valid : Valid cache) : Became cache cache (cache.contents, []) where
  valid := valid
  contents := rfl
  deleted := (List.append_nil _).symm
  maxSize := rfl

theorem valid_new (maxSize : Nat) : Valid (new maxSize : MruCache K P) where
  names := List.nodup_nil
  keys := List.nodup_nil
  index key pos := by
    constructor
    · intro indexed
      cases indexed
    · intro listed
      rcases listed with ⟨node, member, -⟩
      cases member
  fresh node member := by cases member

section
variable (valid : Valid cache)
include valid

/-- What is left when a node is taken out of the list and its key out of the map. -/
theorem Valid.unlink (member : found ∈ cache.ordering) (deleted : List P) :
    Valid { cache with
      deleted, index := cache.index.erase found.key, ordering := MruCache.unlink cache.ordering found.name } where
  names := valid.names.sublist (List.filter_sublist.map _)
  keys := valid.keys.sublist (List.filter_sublist.map _)
  fresh node listed := valid.fresh node (List.mem_of_mem_filter listed)
  index key pos := by
    simp only [valid.unlink_eq member, List.mem_filter, decide_eq_true_eq]
    by_cases same : key = found.key
    · subst same
      rw [AList.lookup_erase]
      constructor
      · intro indexed
        cases indexed
      · intro listed
        rcases listed with ⟨node, ⟨-, other⟩, keyed, -⟩
        exact absurd keyed other
    · rw [AList.lookup_erase_ne same, valid.index]
      constructor
      · intro listed
        rcases listed with ⟨node, listed, rfl, named⟩
        exact ⟨node, ⟨listed, same⟩, rfl, named⟩
      · intro listed
        rcases listed with ⟨node, ⟨listed, -⟩, keyed, named⟩
        exact ⟨node, listed, keyed, named⟩

/-- A node stands between others, which differ from it in name. -/
theorem Valid.split (member : found ∈ cache.ordering) :
    ∃ front back, cache.ordering = front ++ found :: back ∧ MruCache.unlink cache.ordering found.name = front ++ back ∧
      cache.next found.name = back.head?.map Node.name := by
  rcases List.append_of_mem member with ⟨front, back, split⟩
  have names := valid.names
  rw [split, List.map_append, List.map_cons, List.nodup_append, List.nodup_cons] at names
  have ahead : ∀ node ∈ front, node.name ≠ found.name := by
    intro node listed same
    exact names.2.2 _ (List.mem_map_of_mem listed) _ List.mem_cons_self same
  have behind : ∀ node ∈ back, node.name ≠ found.name := by
    intro node listed same
    exact names.2.1.1 (same ▸ List.mem_map_of_mem listed)
  refine ⟨front, back, split, ?_, ?_⟩
  · rw [MruCache.unlink, split, List.filter_append, List.filter_cons_of_neg (by simp),
      List.filter_eq_self.mpr (by simpa using ahead), List.filter_eq_self.mpr (by simpa using behind)]
  · rw [next, split, List.dropWhile_append_of_pos (by simpa using ahead), List.dropWhile_cons_of_neg (by simp)]
    rfl

theorem Valid.contents_unique : (cache.contents.map Prod.fst).Nodup := by
  rw [contents_keys]
  exact valid.keys

theorem erase_became (there : cache.node pos = some found) :
    ∃ next following, cache.erase pos = some (next, following) ∧ Became cache next (cache.contents.erase found.key) ∧
      next.entryAt following = cache.contents.following found.key := by
  rcases valid.node_iff.mp there with ⟨member, rfl⟩
  rcases valid.split member with ⟨front, back, split, unlinked, following⟩
  have entries : cache.contents = front.map entry ++ (found.key, found.payload) :: back.map entry := by
    rw [contents, split, List.map_append, List.map_cons]
    rfl
  have unique := valid.contents_unique
  rw [entries] at unique
  have between := Entries.lookup_between unique
  have after := valid.unlink member (cache.deleted ++ [found.payload])
  refine ⟨_, _, by rw [erase, there]; rfl, ⟨after, ?_, ?_, rfl⟩, ?_⟩
  · exact valid.contents_unlink member
  · rw [entries, between.2.2]
  · rw [entries, between.2.1, following, List.head?_map]
    cases back with
    | nil => rfl
    | cons node rest =>
      have listed : node ∈ MruCache.unlink cache.ordering found.name := by
        rw [unlinked]
        exact List.mem_append_right _ List.mem_cons_self
      rw [List.head?_cons, Option.map_some, Option.map_some, entryAt, Option.bind_some, after.node_of_mem listed, Option.map_some]

theorem eraseLast_became {front : List (Node K P)} {last : Node K P}
    (ordering : cache.ordering = front ++ [last]) :
    ∃ next, cache.eraseLast = some next ∧ Became cache next (front.map entry, [last.payload]) := by
  have member : last ∈ cache.ordering := by
    rw [ordering]
    exact List.mem_append_right _ List.mem_cons_self
  have entries : cache.contents = front.map entry ++ (last.key, last.payload) :: [] := by
    rw [contents, ordering, List.map_append, List.map_singleton]
    rfl
  have unique := valid.contents_unique
  rw [entries] at unique
  have between := Entries.lookup_between unique
  rw [List.append_nil] at between
  rcases erase_became valid (valid.node_of_mem member) with ⟨next, following, erased, became, -⟩
  rw [entries, Entries.erase, between.1] at became
  refine ⟨next, ?_, became.valid, became.contents, ?_, became.maxSize⟩
  · rw [eraseLast, ordering, List.getLast?_concat, Option.bind_some, erased]
    rfl
  · rw [became.deleted]
    exact congrArg (cache.deleted ++ ·) between.2.2

end

theorem shrinkBy_became (rounds : Nat) (valid : Valid cache) (enough : rounds ≤ cache.ordering.length) :
    ∃ next, shrinkBy rounds cache = some next ∧
      Became cache next (cache.contents.shrink (cache.ordering.length - rounds)) := by
  induction rounds generalizing cache with
  | zero =>
    refine ⟨cache, rfl, ?_⟩
    rw [Entries.shrink_self (by rw [contents, List.length_map]; omega)]
    exact valid.became_self
  | succ rounds inductive_hypothesis =>
    rcases List.eq_nil_or_concat' cache.ordering with none_ | ⟨front, last, ordering⟩
    · rw [none_] at enough
      exact absurd enough (Nat.not_succ_le_zero rounds)
    · rcases eraseLast_became valid ordering with ⟨middle, erased, first⟩
      have length : middle.ordering.length = front.length := by
        have same := congrArg List.length first.contents
        simpa only [contents, List.length_map] using same
      have entries : cache.contents = front.map entry ++ [entry last] := by
        rw [contents, ordering, List.map_append, List.map_singleton]
      have count : cache.ordering.length - (rounds + 1) = front.length - rounds := by
        rw [ordering, List.length_append, List.length_singleton]
        omega
      rw [ordering, List.length_append, List.length_singleton] at enough
      rcases inductive_hypothesis first.valid (by omega) with ⟨next, shrunk, others⟩
      rw [first.contents, length] at others
      have small : front.length - rounds ≤ (front.map entry).length := by
        rw [List.length_map]
        exact Nat.sub_le _ _
      refine ⟨next, by rw [shrinkBy, erased, Option.bind_some, shrunk], ?_⟩
      rw [entries, count, Entries.shrink_last small]
      refine ⟨others.valid, others.contents, ?_, others.maxSize.trans first.maxSize⟩
      rw [others.deleted, first.deleted, List.append_assoc]
      rfl

theorem shrinkToSize_became (valid : Valid cache) (newSize : Nat) :
    ∃ next, cache.shrinkToSize newSize = some next ∧ Became cache next (cache.contents.shrink newSize) := by
  have size := valid.size
  rw [contents, List.length_map] at size
  rcases shrinkBy_became (cache.size - newSize) valid (by omega) with ⟨next, shrunk, became⟩
  refine ⟨next, shrunk, ?_⟩
  by_cases fits : cache.ordering.length ≤ newSize
  · rw [Entries.shrink_self (by rw [contents, List.length_map]; omega)] at became
    rw [Entries.shrink_self (by rw [contents, List.length_map]; exact fits)]
    exact became
  · rw [show cache.ordering.length - (cache.size - newSize) = newSize by omega] at became
    exact became

/-- The end of `Put`, for a key that is not there. -/
theorem Valid.pushFront (valid : Valid cache) {key : K} (absent : key ∉ cache.contents.map Prod.fst) (payload : P) :
    Valid (cache.pushFront key payload) := by
  rw [contents_keys] at absent
  have unindexed : key ∉ cache.index := by
    intro indexed
    exact absent (valid.keys_perm.mem_iff.mp indexed)
  constructor
  · rw [MruCache.pushFront, List.map_cons, List.nodup_cons]
    refine ⟨?_, valid.names⟩
    intro taken
    rcases List.mem_map.mp taken with ⟨node, member, same⟩
    exact absurd (valid.fresh node member) (by rw [same]; exact Nat.lt_irrefl _)
  · rw [MruCache.pushFront, List.map_cons, List.nodup_cons]
    exact ⟨absent, valid.keys⟩
  · intro other pos
    simp only [MruCache.pushFront, if_neg unindexed, List.mem_cons]
    by_cases same : other = key
    · subst same
      rw [AList.lookup_insert, Option.some.injEq]
      constructor
      · intro named
        exact ⟨_, Or.inl rfl, rfl, named⟩
      · intro listed
        rcases listed with ⟨node, rfl | member, keyed, named⟩
        · exact named
        · exact absurd (keyed ▸ List.mem_map_of_mem member) absent
    · rw [AList.lookup_insert_ne same, valid.index]
      constructor
      · intro listed
        rcases listed with ⟨node, member, both⟩
        exact ⟨node, Or.inr member, both⟩
      · intro listed
        rcases listed with ⟨node, rfl | member, both⟩
        · exact absurd both.1.symm same
        · exact ⟨node, member, both⟩
  · intro node member
    rcases List.mem_cons.mp member with rfl | member
    · exact Nat.lt_succ_self _
    · exact Nat.lt_succ_of_lt (valid.fresh node member)

theorem put_became (valid : Valid cache) (key : K) (payload : P) :
    ∃ next pos, cache.put key payload = some (next, pos) ∧
      Became cache next (cache.contents.put cache.maxSize key payload) ∧ next.entryAt pos = some (key, payload) := by
  -- Room is made, and the key is not there.
  have room : ∃ middle entries dropped, cache.makeRoom key = some middle ∧ Became cache middle (entries, dropped) ∧
      key ∉ entries.map Prod.fst ∧ cache.contents.put cache.maxSize key payload = ((key, payload) :: entries, dropped) := by
    unfold makeRoom
    cases indexed : cache.index.lookup key with
    | some pos =>
      rcases valid.node_of_lookup indexed with ⟨found, there, rfl⟩
      rcases erase_became valid there with ⟨middle, following, erased, became, -⟩
      refine ⟨middle, (cache.contents.erase found.key).1, (cache.contents.erase found.key).2,
        by simp only [erased, Option.map_some], became, ?_, ?_⟩
      · intro member
        rcases List.mem_map.mp member with ⟨listed, member, same⟩
        exact (of_decide_eq_true (List.mem_filter.mp member).2) same
      · have listed := valid.lookup_contents_of_mem (valid.node_iff.mp there).1
        rw [Entries.put, listed, Entries.erase_of_lookup valid.contents_unique listed]
    | none =>
      have none_ := valid.lookup_contents_none indexed
      have absent : key ∉ cache.contents.map Prod.fst := by
        intro member
        rcases List.mem_map.mp member with ⟨listed, member, same⟩
        exact absurd (List.find?_eq_none.mp none_ listed member) (by simpa using same)
      by_cases limited : cache.maxSize ≠ noAutoEvict
      · rcases shrinkToSize_became valid (cache.maxSize - 1) with ⟨middle, shrunk, became⟩
        refine ⟨middle, _, _, by simp only [if_pos limited, shrunk], became, ?_, ?_⟩
        · intro member
          exact absent ((List.take_sublist _ _).map _ |>.subset member)
        · rw [Entries.put, none_]
          simp only [if_neg (show ¬ cache.maxSize = 0 from limited)]
          rfl
      · refine ⟨cache, cache.contents, [], by simp only [if_neg limited], valid.became_self, absent, ?_⟩
        rw [Entries.put, none_]
        simp only [if_pos (not_not.mp limited : cache.maxSize = 0)]
  rcases room with ⟨middle, entries, dropped, made, became, absent, put_⟩
  rw [show entries = middle.contents from became.contents.symm] at absent
  have after := became.valid.pushFront absent payload
  refine ⟨middle.pushFront key payload, some middle.fresh, ?_, ?_, ?_⟩
  · rw [MruCache.put, made, Option.map_some]
  · rw [put_]
    refine ⟨after, ?_, became.deleted, became.maxSize⟩
    exact congrArg ((key, payload) :: ·) became.contents
  · have listed : (⟨middle.fresh, key, payload⟩ : Node K P) ∈ (middle.pushFront key payload).ordering := List.mem_cons_self
    rw [entryAt, Option.bind_some, after.node_of_mem listed]
    rfl

theorem get_became (valid : Valid cache) (key : K) :
    ∃ next pos, cache.get key = some (next, pos) ∧ Became cache next (cache.contents.touch key, []) ∧
      next.entryAt pos = cache.contents.lookup key := by
  unfold MruCache.get
  cases indexed : cache.index.lookup key with
  | none =>
    have none_ := valid.lookup_contents_none indexed
    refine ⟨cache, none, rfl, ?_, none_.symm⟩
    rw [Entries.touch, none_]
    exact valid.became_self
  | some pos =>
    rcases valid.node_of_lookup indexed with ⟨found, there, rfl⟩
    rcases valid.node_iff.mp there with ⟨member, rfl⟩
    have listed := valid.lookup_contents_of_mem member
    rcases valid.split member with ⟨front, back, split, unlinked, -⟩
    have moved : (found :: MruCache.unlink cache.ordering found.name).Perm cache.ordering := by
      rw [unlinked, split]
      exact List.perm_middle.symm
    have after : Valid { cache with ordering := found :: MruCache.unlink cache.ordering found.name } := by
      constructor
      · exact (moved.map _).nodup_iff.mpr valid.names
      · exact (moved.map _).nodup_iff.mpr valid.keys
      · intro key pos
        simp only [moved.mem_iff]
        exact valid.index key pos
      · intro node member
        exact valid.fresh node (moved.mem_iff.mp member)
    refine ⟨_, _, by simp only [there, Option.map_some]; rfl, ⟨after, ?_, (List.append_nil _).symm, rfl⟩, ?_⟩
    · rw [Entries.touch, listed]
      exact congrArg (entry found :: ·) (valid.contents_unlink member)
    · rw [entryAt, Option.bind_some, after.node_of_mem List.mem_cons_self, listed, Option.map_some]

theorem clear_became (cache : MruCache K P) : Became cache cache.clear cache.contents.clear where
  valid :=
    { names := List.nodup_nil
      keys := List.nodup_nil
      index := (valid_new 0).index
      fresh := by
        intro node member
        cases member }
  contents := rfl
  deleted := by
    rw [MruCache.clear, Entries.clear, contents_payloads]
  maxSize := rfl

theorem exec_became (valid : Valid cache) {call : MruCall K P} {request : MruRequest K P}
    (asked : cache.request call = some request) :
    ∃ next pos, cache.exec call = some (next, pos) ∧ Became cache next (request.after cache.maxSize cache.contents) ∧
      next.entryAt pos = request.answer cache.contents := by
  cases call with
  | put key payload =>
    cases asked
    exact put_became valid key payload
  | get key =>
    cases asked
    exact get_became valid key
  | peek key =>
    cases asked
    exact ⟨cache, cache.peek key, rfl, valid.became_self, valid.entryAt_lookup key⟩
  | erase pos =>
    rw [MruCache.request, Option.map_eq_some_iff] at asked
    rcases asked with ⟨found, there, rfl⟩
    exact erase_became valid there
  | shrinkToSize newSize =>
    cases asked
    rcases shrinkToSize_became valid newSize with ⟨next, shrunk, became⟩
    exact ⟨next, none, by rw [exec, shrunk, Option.map_some], became, rfl⟩
  | clear =>
    cases asked
    exact ⟨cache.clear, none, rfl, clear_became cache, rfl⟩

/-! ### Runs -/

theorem destroyBy_deletes (rounds : Nat) (valid : Valid cache) (enough : cache.ordering.length ≤ rounds) :
    ∃ after, destroyBy rounds cache = some after ∧ after.ordering = [] ∧
      after.deleted = cache.deleted ++ cache.contents.map Prod.snd := by
  induction rounds generalizing cache with
  | zero =>
    have none_ := List.length_eq_zero_iff.mp (Nat.le_zero.mp enough)
    refine ⟨cache, rfl, none_, ?_⟩
    rw [contents_payloads, none_, List.map_nil, List.append_nil]
  | succ rounds inductive_hypothesis =>
    rw [destroyBy]
    cases ordering : cache.ordering with
    | nil =>
      refine ⟨cache, rfl, ordering, ?_⟩
      rw [contents_payloads, ordering, List.map_nil, List.append_nil]
    | cons first rest =>
      have member : first ∈ cache.ordering := by
        rw [ordering]
        exact List.mem_cons_self
      rcases erase_became valid (valid.node_of_mem member) with ⟨next, following, erased, became, -⟩
      have entries : cache.contents = [] ++ (first.key, first.payload) :: rest.map entry := by
        rw [contents, ordering]
        rfl
      have unique := valid.contents_unique
      rw [entries] at unique
      have between := Entries.lookup_between unique
      rw [entries, Entries.erase, between.1] at became
      have fewer := congrArg List.length became.contents
      simp only [contents, List.length_map, List.nil_append] at fewer
      rw [ordering, List.length_cons] at enough
      rcases inductive_hypothesis became.valid (by omega) with ⟨after, destroyed, empty, deleted⟩
      refine ⟨after, by simp only [erased, Option.bind_some, destroyed], empty, ?_⟩
      have dropped : next.deleted = cache.deleted ++ [first.payload] := by
        rw [became.deleted]
        exact congrArg (cache.deleted ++ ·) between.2.2
      rw [deleted, became.contents, dropped, entries, List.append_assoc]
      rfl

theorem Valid.agrees (valid : Valid cache) : Agrees cache cache.contents where
  toValid := valid
  contents := rfl
  size := valid.size
  destroyed := destroyBy_deletes _ valid (Nat.le_refl _)

theorem conserves {entries : Entries K P} (unique : (entries.map Prod.fst).Nodup) (limit : Nat) (request : MruRequest K P) :
    (request.brought ++ entries.map Prod.snd).Perm
      ((request.after limit entries).1.map Prod.snd ++ (request.after limit entries).2) := by
  cases request with
  | put key payload => exact Entries.put_conserves unique limit payload
  | get key =>
    simp only [MruRequest.brought, MruRequest.after, List.nil_append, List.append_nil]
    exact ((Entries.touch_perm unique key).map _).symm
  | peek key =>
    simp only [MruRequest.brought, MruRequest.after, List.nil_append, List.append_nil]
    exact List.Perm.refl _
  | erase key => exact Entries.erase_conserves entries key
  | shrinkToSize newSize => exact Entries.shrink_conserves entries newSize
  | clear => exact List.Perm.refl _

/-- The limit holds in every state, if there is one. -/
def Within (cache : MruCache K P) : Prop := cache.maxSize ≠ noAutoEvict → cache.contents.length ≤ cache.maxSize

theorem length_after_le {entries : Entries K P} {limit : Nat} (unique : (entries.map Prod.fst).Nodup) (some_ : limit ≠ 0)
    (within : entries.length ≤ limit) (request : MruRequest K P) : (request.after limit entries).1.length ≤ limit := by
  cases request with
  | put key payload => exact Entries.length_put_le some_ payload within
  | get key => exact le_of_eq_of_le (Entries.touch_perm unique key).length_eq within
  | peek key => exact within
  | erase key => exact Nat.le_trans (List.length_filter_le _ _) within
  | shrinkToSize newSize => exact Nat.le_trans (List.length_take_le' _ _) within
  | clear => exact Nat.zero_le limit

theorem Became.within {request : MruRequest K P} {next : MruCache K P} (valid : Valid cache) (within : Within cache)
    (became : Became cache next (request.after cache.maxSize cache.contents)) : Within next := by
  intro limited
  rw [became.maxSize] at limited ⊢
  rw [became.contents]
  exact length_after_le valid.contents_unique limited (within limited) request

theorem refinesAlong (calls : List (MruCall K P)) (valid : Valid cache) (within : Within cache) :
    RefinesAlong cache.maxSize cache cache.contents calls := by
  induction calls generalizing cache with
  | nil => exact valid.agrees
  | cons call calls inductive_hypothesis =>
    refine ⟨valid.agrees, ?_⟩
    intro request asked
    rcases exec_became valid asked with ⟨next, pos, executed, became, answer⟩
    have within' := became.within valid within
    refine ⟨next, pos, executed, ⟨became.deleted, ?_, answer, ?_⟩, ?_⟩
    · rw [became.contents]
      exact conserves valid.contents_unique cache.maxSize request
    · intro key payload put limited
      rw [became.valid.size, ← became.maxSize]
      exact within' (became.maxSize ▸ limited)
    · rw [← became.contents, ← became.maxSize]
      exact inductive_hypothesis became.valid within'

end

/-- A cache of any limit is a list of entries in the order of their last use, over all calls. -/
theorem mruCache_refines (maxSize : Nat) (calls : List (MruCall K P)) :
    RefinesAlong maxSize (new maxSize) [] calls := by
  apply refinesAlong calls (valid_new maxSize)
  intro limited
  exact Nat.zero_le maxSize

end MruCache

end Libchrome.Base.Containers
