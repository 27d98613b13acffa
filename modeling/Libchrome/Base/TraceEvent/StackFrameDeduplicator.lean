import Libchrome.Library.Numbering
import Mathlib.Data.BitVec
import Mathlib.Data.List.Infix

/-! `StackFrameDeduplicator`: backtraces in a tree of frames (`heap_profiler_stack_frame_deduplicator.cc`). -/

namespace Libchrome.Base.TraceEvent
open Library.Numbering

/-- A pointer to the name of a frame. -/
abbrev StackFrame := BitVec 64

structure FrameNode where
  frame : StackFrame
  parent_frame_index : Int
  children : List (StackFrame × Int)

structure StackFrameDeduplicator where
  roots_ : List (StackFrame × Int) := []
  frames_ : List FrameNode := []

namespace StackFrameDeduplicator

variable (self : StackFrameDeduplicator)

/-- A map that `nodes` points to: `roots_`, or the children of a node. -/
def children : Option Nat → List (StackFrame × Int)
  | none => self.roots_
  | some k => (self.frames_[k]?.map FrameNode.children).getD []

/-- `nodes->insert`, and then the node is appended. -/
def append (nodes : Option Nat) (frame_node : FrameNode) (frame_index : Int) : StackFrameDeduplicator :=
  match nodes with
  | none =>
    { roots_ := (frame_node.frame, frame_index) :: self.roots_
      frames_ := self.frames_ ++ [frame_node] }
  | some k =>
    { self with
      frames_ := self.frames_.modify k (fun node =>
        { node with children := (frame_node.frame, frame_index) :: node.children }) ++ [frame_node] }

/-- The rounds of the loop for the frames that are left; `none` where it takes a node out of bounds. -/
def insertFrom (frame_index : Int) (nodes : Option Nat) :
    StackFrameDeduplicator → List StackFrame → Option (Int × StackFrameDeduplicator)
  | self, [] => some (frame_index, self)
  | self, frame :: rest =>
    if frame = 0 then some (frame_index, self)
    else
      let next := match (self.children nodes).lookup frame with
        | none =>
          let new_index := (BitVec.ofNat 32 self.frames_.length).toInt
          (new_index, self.append nodes ⟨frame, frame_index, []⟩ new_index)
        | some index => (index, self)
      let place := (BitVec.ofInt 64 next.1).toNat
      if place < next.2.frames_.length then insertFrom next.1 (some place) next.2 rest else none

/-- `Insert`, of the frames from `beginFrame` to `endFrame`. -/
def insert (frames : List StackFrame) : Option (Int × StackFrameDeduplicator) := insertFrom (-1) none self frames

/-- One `Insert` after the other, with what they return. -/
def insertAll : StackFrameDeduplicator → List (List StackFrame) → Option (List Int × StackFrameDeduplicator)
  | self, [] => some ([], self)
  | self, frames :: rest =>
    (self.insert frames).bind fun first =>
      (insertAll first.2 rest).map fun all => (first.1 :: all.1, all.2)

end StackFrameDeduplicator

/-! ### What the indices stand for -/

/-- The frames up to the first `NULL`. -/
def backtrace (frames : List StackFrame) : List StackFrame := frames.takeWhile (· ≠ 0)

/-- The parents of a node, from the root on. -/
inductive Spells (frames_ : List FrameNode) : Int → List StackFrame → Prop
  | root : Spells frames_ (-1) []
  | node {k : Nat} {node : FrameNode} {up : List StackFrame} (here : frames_[k]? = some node)
      (parents : Spells frames_ node.parent_frame_index up) : Spells frames_ k (up ++ [node.frame])

/-- Nodes stay where they are, with their frames and their parents. -/
def Kept (before after : List FrameNode) : Prop :=
  ∀ (k : Nat) (node : FrameNode), before[k]? = some node → ∃ later, after[k]? = some later ∧
    later.frame = node.frame ∧ later.parent_frame_index = node.parent_frame_index

structure Deduplicated (calls : List (List StackFrame)) (results : List Int) (trie : StackFrameDeduplicator) :
    Prop where
  spelled : List.Forall₂ (fun frames index => Spells trie.frames_ index (backtrace frames)) calls results
  same : ∀ (i j : Nat) (frames others : List StackFrame) (index other : Int), calls[i]? = some frames →
    calls[j]? = some others → results[i]? = some index → results[j]? = some other →
    (index = other ↔ backtrace frames = backtrace others)
  parents : ∀ (k : Nat) (node : FrameNode), trie.frames_[k]? = some node →
    -1 ≤ node.parent_frame_index ∧ node.parent_frame_index < k

/-- The nodes of a backtrace: its non-empty prefixes. -/
def branches (frames : List StackFrame) : List (List StackFrame) := (backtrace frames).inits.tail

/-! ### The tree as a numbering of its branches -/

/-- Each frame behind those of `up`, with all before it. -/
def branchesFrom (up : List StackFrame) : List StackFrame → List (List StackFrame)
  | [] => []
  | frame :: rest => (up ++ [frame]) :: branchesFrom (up ++ [frame]) rest

theorem branchesFrom_eq (up frames : List StackFrame) : branchesFrom up frames = frames.inits.tail.map (up ++ ·) := by
  induction frames generalizing up with
  | nil => rfl
  | cons frame rest ih =>
    have first : rest.inits = [] :: rest.inits.tail := by
      cases rest with
      | nil => rfl
      | cons second rest => rw [List.inits_cons, List.tail_cons]
    rw [branchesFrom, ih, List.inits_cons, List.tail_cons, first, List.tail_cons, List.map_cons, List.map_cons,
      List.map_map]
    refine congrArg (_ :: ·) (List.map_congr_left fun branch _ => ?_)
    rw [Function.comp_apply, List.append_assoc, List.singleton_append]

/-- The number of a branch. -/
def indexOf (known : List (List StackFrame)) (branch : List StackFrame) : Int :=
  if branch = [] then -1 else numberOf known branch

def placeOf (known : List (List StackFrame)) (branch : List StackFrame) : Option Nat :=
  if branch = [] then none else some (numberOf known branch)

/-- The nodes are the known branches, in order. -/
structure Tree (trie : StackFrameDeduplicator) (known : List (List StackFrame)) : Prop where
  length : trie.frames_.length = known.length
  distinct : known.Nodup
  some_ : [] ∉ known
  node : ∀ (k : Nat) (node : FrameNode), trie.frames_[k]? = some node →
    ∃ up, known[k]? = some (up ++ [node.frame]) ∧ up ∈ [] :: known.take k ∧ node.parent_frame_index = indexOf known up
  child : ∀ up ∈ [] :: known, ∀ frame, (trie.children (placeOf known up)).lookup frame =
    if up ++ [frame] ∈ known then some (indexOf known (up ++ [frame])) else none

section Numbers

variable {known : List (List StackFrame)} {branch up : List StackFrame} {frame : StackFrame}

theorem concat_ne_nil : up ++ [frame] ≠ [] := List.append_ne_nil_of_right_ne_nil up (List.cons_ne_nil frame [])

theorem indexOf_concat : indexOf known (up ++ [frame]) = numberOf known (up ++ [frame]) := if_neg concat_ne_nil

theorem placeOf_concat : placeOf known (up ++ [frame]) = some (numberOf known (up ++ [frame])) := if_neg concat_ne_nil

/-- Known branches keep their numbers. -/
theorem indexOf_append (more : List (List StackFrame)) (member : branch ∈ [] :: known) :
    indexOf (known ++ more) branch = indexOf known branch := by
  rw [indexOf, indexOf]
  split
  next => rfl
  next more_than =>
    rw [numberOf_append more ((List.mem_cons.mp member).resolve_left more_than)]

theorem placeOf_append (more : List (List StackFrame)) (member : branch ∈ [] :: known) :
    placeOf (known ++ more) branch = placeOf known branch := by
  rw [placeOf, placeOf]
  split
  next => rfl
  next more_than =>
    rw [numberOf_append more ((List.mem_cons.mp member).resolve_left more_than)]

theorem placeOf_inj {other : List StackFrame} (member : branch ∈ [] :: known)
    (same : placeOf known branch = placeOf known other) : branch = other := by
  rw [placeOf, placeOf] at same
  split at same
  next empty =>
    split at same
    next empty' => rw [empty, empty']
    next => cases same
  next more =>
    split at same
    next => cases same
    next => exact numberOf_inj ((List.mem_cons.mp member).resolve_left more) (Option.some.inj same)

theorem indexOf_inj {other : List StackFrame} (member : branch ∈ [] :: known)
    (same : indexOf known branch = indexOf known other) : branch = other := by
  rw [indexOf, indexOf] at same
  split at same
  next empty =>
    split at same
    next empty' => rw [empty, empty']
    next => cases same
  next more =>
    split at same
    next => cases same
    next => exact numberOf_inj ((List.mem_cons.mp member).resolve_left more) (Int.ofNat.inj same)

end Numbers

/-! ### A node is appended -/

section Append

variable {self : StackFrameDeduplicator} {known : List (List StackFrame)} {up : List StackFrame}
variable {nodes : Option Nat} {frame_node : FrameNode} {frame_index : Int}

namespace StackFrameDeduplicator

theorem length_append : (self.append nodes frame_node frame_index).frames_.length = self.frames_.length + 1 := by
  cases nodes with
  | none => exact List.length_append
  | some k => rw [append, List.length_append, List.length_modify, List.length_singleton]

theorem getElem?_append_length :
    (self.append nodes frame_node frame_index).frames_[self.frames_.length]? = some frame_node := by
  cases nodes with
  | none => exact List.getElem?_concat_length
  | some k =>
    have here := @List.getElem?_concat_length _ (self.frames_.modify k (fun node =>
      { node with children := (frame_node.frame, frame_index) :: node.children })) frame_node
    rwa [List.length_modify] at here

/-- Other nodes keep their places. -/
theorem getElem?_append_of_lt {k : Nat} (inside : k < self.frames_.length) :
    (self.append nodes frame_node frame_index).frames_[k]? = self.frames_[k]?.map fun node =>
      if nodes = some k then { node with children := (frame_node.frame, frame_index) :: node.children } else node := by
  cases nodes with
  | none =>
    rw [append, List.getElem?_append_left inside]
    exact Option.map_id'.symm
  | some place =>
    rw [append, List.getElem?_append_left (by rwa [List.length_modify]), List.getElem?_modify]
    simp only [Option.some.injEq]
    rfl

/-- The map that `nodes` points to has one more entry, the new node has none, and other maps stay the same. -/
theorem children_append (valid : ∀ k ∈ nodes, k < self.frames_.length) (place : Option Nat)
    (valid' : ∀ k ∈ place, k < self.frames_.length) : (self.append nodes frame_node frame_index).children place =
      if place = nodes then (frame_node.frame, frame_index) :: self.children place else self.children place := by
  cases place with
  | none =>
    cases nodes with
    | none => rfl
    | some k => rfl
  | some k =>
    have here := List.getElem?_eq_getElem (valid' k rfl)
    rw [children, children, getElem?_append_of_lt (valid' k rfl), here, Option.map_some]
    split
    next same =>
      rw [if_pos same.symm]
      rfl
    next other => rw [if_neg (Ne.symm other)]

theorem children_append_length : (self.append nodes frame_node frame_index).children (some self.frames_.length) =
    frame_node.children := by
  rw [children, getElem?_append_length]
  rfl

theorem exists_of_append {k : Nat} {node : FrameNode} (inside : k < self.frames_.length)
    (here : (self.append nodes frame_node frame_index).frames_[k]? = some node) : ∃ old, self.frames_[k]? = some old ∧
      old.frame = node.frame ∧ old.parent_frame_index = node.parent_frame_index := by
  rw [getElem?_append_of_lt inside] at here
  obtain ⟨old, there, rfl⟩ := Option.map_eq_some_iff.mp here
  refine ⟨old, there, ?_⟩
  split
  next => exact ⟨rfl, rfl⟩
  next => exact ⟨rfl, rfl⟩

theorem kept_append : Kept self.frames_ (self.append nodes frame_node frame_index).frames_ := by
  intro k node here
  rw [getElem?_append_of_lt (List.getElem?_eq_some_iff.mp here).1, here]
  refine ⟨_, rfl, ?_⟩
  dsimp only
  split
  next => exact ⟨rfl, rfl⟩
  next => exact ⟨rfl, rfl⟩

end StackFrameDeduplicator

theorem Kept.trans {first second third : List FrameNode} (kept : Kept first second) (kept' : Kept second third) :
    Kept first third := by
  intro k node here
  obtain ⟨later, there, frame, parent⟩ := kept k node here
  obtain ⟨last, end_, frame', parent'⟩ := kept' k later there
  exact ⟨last, end_, frame'.trans frame, parent'.trans parent⟩

theorem Kept.refl (frames_ : List FrameNode) : Kept frames_ frames_ := fun _ node here => ⟨node, here, rfl, rfl⟩

theorem Tree.lt_of_placeOf (tree : Tree self known) (member : up ∈ [] :: known) :
    ∀ k ∈ placeOf known up, k < self.frames_.length := by
  intro k is_
  rw [placeOf] at is_
  split at is_
  next => cases is_
  next more =>
    cases is_
    rw [tree.length]
    exact numberOf_lt ((List.mem_cons.mp member).resolve_left more)

/-- What is in front of a known branch is known. -/
theorem Tree.closed (tree : Tree self known) {frame : StackFrame} (member : up ++ [frame] ∈ known) :
    up ∈ [] :: known := by
  obtain ⟨k, here⟩ := List.mem_iff_getElem?.mp member
  have inside : k < self.frames_.length := tree.length ▸ (List.getElem?_eq_some_iff.mp here).1
  obtain ⟨front, branch, before, _⟩ := tree.node k _ (List.getElem?_eq_getElem inside)
  rw [here] at branch
  obtain ⟨rfl, _⟩ := List.append_inj' (Option.some.inj branch) rfl
  exact List.mem_cons.mpr ((List.mem_cons.mp before).imp_right List.mem_of_mem_take)

theorem Tree.append (tree : Tree self known) (member : up ∈ [] :: known) {frame : StackFrame}
    (fresh : up ++ [frame] ∉ known) :
    Tree (self.append (placeOf known up) ⟨frame, indexOf known up, []⟩ self.frames_.length)
      (known ++ [up ++ [frame]]) where
  length := by
    rw [StackFrameDeduplicator.length_append, tree.length, List.length_append, List.length_singleton]
  distinct := by
    rw [← List.concat_eq_append]
    exact tree.distinct.concat fresh
  some_ := by
    rw [List.mem_append, List.mem_singleton]
    exact fun either => either.elim tree.some_ (concat_ne_nil ·.symm)
  node := by
    intro k node here
    have inside := (List.getElem?_eq_some_iff.mp here).1
    rw [StackFrameDeduplicator.length_append] at inside
    rcases Nat.lt_succ_iff_lt_or_eq.mp inside with below | rfl
    · obtain ⟨old, there, same, same'⟩ := StackFrameDeduplicator.exists_of_append below here
      obtain ⟨front, branch, before, parent⟩ := tree.node k old there
      have below' : k < known.length := tree.length ▸ below
      have known_front : front ∈ [] :: known :=
        List.mem_cons.mpr ((List.mem_cons.mp before).imp_right List.mem_of_mem_take)
      refine ⟨front, ?_, ?_, ?_⟩
      · rw [List.getElem?_append_left below', branch, same]
      · rwa [List.take_append_of_le_length below'.le]
      · rw [indexOf_append _ known_front, ← parent, same']
    · rw [StackFrameDeduplicator.getElem?_append_length] at here
      cases here
      refine ⟨up, ?_, ?_, ?_⟩
      · rw [tree.length, List.getElem?_concat_length]
      · rwa [tree.length, List.take_left]
      · rw [indexOf_append _ member]
  child := by
    intro front member' other
    have valid := tree.lt_of_placeOf member
    have apart {front : List StackFrame} (different : front ≠ up) : front ++ [other] ≠ up ++ [frame] := fun same =>
      different (List.append_inj' same rfl).1
    have same_number {branch : List StackFrame} (different : branch ≠ up ++ [frame]) :
        (if branch ∈ known ++ [up ++ [frame]] then some (indexOf (known ++ [up ++ [frame]]) branch) else none) =
          if branch ∈ known then some (indexOf known branch) else none := by
      by_cases held : branch ∈ known
      · rw [if_pos held, if_pos (List.mem_append_left _ held), indexOf_append _ (List.mem_cons_of_mem _ held)]
      · rw [if_neg held,
          if_neg fun either => (List.mem_append.mp either).elim held (different <| List.mem_singleton.mp ·)]
    rcases List.mem_append.mp (show front ∈ ([] :: known) ++ [up ++ [frame]] from member') with old | new
    · rw [placeOf_append _ old, StackFrameDeduplicator.children_append valid _ (tree.lt_of_placeOf old)]
      by_cases here : front = up
      · subst here
        rw [if_pos rfl, List.lookup_cons, tree.child front old]
        by_cases again : other = frame
        · subst again
          have number : indexOf (known ++ [front ++ [other]]) (front ++ [other]) = self.frames_.length := by
            rw [indexOf_concat, numberOf_fresh fresh, tree.length]
          rw [beq_self_eq_true, if_pos (List.mem_append_right _ (List.mem_singleton_self _)), number]
        · rw [beq_eq_false_iff_ne.mpr again,
            same_number fun same => again (List.singleton_inj.mp (List.append_cancel_left same))]
      · rw [if_neg fun same => here (placeOf_inj old same), tree.child front old, same_number (apart here)]
    · cases List.mem_singleton.mp new
      have none_ : up ++ [frame] ++ [other] ∉ known := fun held =>
        (List.mem_cons.mp (tree.closed held)).elim concat_ne_nil fresh
      have longer : up ++ [frame] ++ [other] ≠ up ++ [frame] :=
        mt List.append_right_eq_self.mp (List.cons_ne_nil other [])
      rw [placeOf_concat, numberOf_fresh fresh, ← tree.length, StackFrameDeduplicator.children_append_length,
        same_number longer, if_neg none_]
      rfl

end Append

/-! ### The loop -/

section Loop

variable {self : StackFrameDeduplicator} {known : List (List StackFrame)} {up : List StackFrame} {frame : StackFrame}

theorem toNat_ofInt_numberOf {number : Nat} (few : number < 2 ^ 31) :
    (BitVec.ofInt 64 (number : Int)).toNat = number := by
  rw [BitVec.ofInt_natCast, BitVec.toNat_ofNat, Nat.mod_eq_of_lt (Nat.lt_trans few (by decide))]

theorem toInt_ofNat_length {length : Nat} (few : length < 2 ^ 31) : (BitVec.ofNat 32 length).toInt = length := by
  have same : (BitVec.ofNat 32 length).toNat = length := by
    rw [BitVec.toNat_ofNat, Nat.mod_eq_of_lt (Nat.lt_trans few (by decide))]
  rw [BitVec.toInt_eq_toNat_of_lt (by omega), same]

theorem insertFrom_known (tree : Tree self known) (few : known.length ≤ 2 ^ 31) (member : up ∈ [] :: known)
    (frame_ne : frame ≠ 0) (held : up ++ [frame] ∈ known) (rest : List StackFrame) :
    StackFrameDeduplicator.insertFrom (indexOf known up) (placeOf known up) self (frame :: rest) =
      StackFrameDeduplicator.insertFrom (indexOf known (up ++ [frame])) (placeOf known (up ++ [frame])) self rest := by
  have inside := numberOf_lt held
  rw [StackFrameDeduplicator.insertFrom, if_neg frame_ne, tree.child up member, if_pos held, indexOf_concat,
    placeOf_concat]
  dsimp only
  rw [toNat_ofInt_numberOf (Nat.lt_of_lt_of_le inside few), if_pos (tree.length ▸ inside)]

theorem insertFrom_fresh (tree : Tree self known) (room : known.length < 2 ^ 31) (member : up ∈ [] :: known)
    (frame_ne : frame ≠ 0) (fresh : up ++ [frame] ∉ known) (rest : List StackFrame) :
    StackFrameDeduplicator.insertFrom (indexOf known up) (placeOf known up) self (frame :: rest) =
      StackFrameDeduplicator.insertFrom (indexOf (known ++ [up ++ [frame]]) (up ++ [frame]))
        (placeOf (known ++ [up ++ [frame]]) (up ++ [frame]))
        (self.append (placeOf known up) ⟨frame, indexOf known up, []⟩ self.frames_.length) rest := by
  rw [StackFrameDeduplicator.insertFrom, if_neg frame_ne, tree.child up member, if_neg fresh, indexOf_concat,
    placeOf_concat, numberOf_fresh fresh]
  dsimp only
  rw [StackFrameDeduplicator.length_append, tree.length, toInt_ofNat_length room, toNat_ofInt_numberOf room,
    if_pos (Nat.lt_succ_self _)]

theorem insertFrom_full (tree : Tree self known) (full : known.length = 2 ^ 31) (member : up ∈ [] :: known)
    (frame_ne : frame ≠ 0) (fresh : up ++ [frame] ∉ known) (rest : List StackFrame) :
    StackFrameDeduplicator.insertFrom (indexOf known up) (placeOf known up) self (frame :: rest) = none := by
  rw [StackFrameDeduplicator.insertFrom, if_neg frame_ne, tree.child up member, if_neg fresh]
  dsimp only
  rw [StackFrameDeduplicator.length_append, tree.length, full, if_neg (by decide)]

/-- What an `Insert` has done for the branches that are numbered behind it. -/
structure Inserted (before : StackFrameDeduplicator) (known : List (List StackFrame)) (branch : List StackFrame)
    (result : Option (Int × StackFrameDeduplicator)) : Prop where
  of_room : known.length ≤ 2 ^ 31 → ∃ trie, result = some (indexOf known branch, trie) ∧ Tree trie known ∧
    Kept before.frames_ trie.frames_ ∧ branch ∈ [] :: known
  of_full : 2 ^ 31 < known.length → result = none

theorem Inserted.after {middle : StackFrameDeduplicator} {result : Option (Int × StackFrameDeduplicator)}
    (inserted : Inserted middle known up result) (kept : Kept self.frames_ middle.frames_) :
    Inserted self known up result where
  of_room room := by
    obtain ⟨trie, same, tree, kept', member⟩ := inserted.of_room room
    exact ⟨trie, same, tree, kept.trans kept', member⟩
  of_full := inserted.of_full

theorem Inserted.stop (tree : Tree self known) (few : known.length ≤ 2 ^ 31) (member : up ∈ [] :: known) :
    Inserted self (enterAll known (branchesFrom up [])) (up ++ []) (some (indexOf known up, self)) := by
  rw [List.append_nil]
  exact ⟨fun _ => ⟨self, rfl, tree, .refl _, member⟩, fun full => absurd few (Nat.not_le.mpr full)⟩

theorem insertFrom_inserted (tree : Tree self known) (few : known.length ≤ 2 ^ 31) (member : up ∈ [] :: known)
    (frames : List StackFrame) :
    Inserted self (enterAll known (branchesFrom up (backtrace frames))) (up ++ backtrace frames)
      (StackFrameDeduplicator.insertFrom (indexOf known up) (placeOf known up) self frames) := by
  induction frames generalizing self known up with
  | nil => exact .stop tree few member
  | cons frame rest ih =>
    by_cases null : frame = 0
    · have none_ : backtrace (frame :: rest) = [] := List.takeWhile_cons_of_neg (by simpa using null)
      rw [none_, StackFrameDeduplicator.insertFrom, if_pos null]
      exact .stop tree few member
    · have some_ : backtrace (frame :: rest) = frame :: backtrace rest :=
        List.takeWhile_cons_of_pos (by simpa using null)
      have all : enterAll known (branchesFrom up (frame :: backtrace rest)) =
          enterAll (enter known (up ++ [frame])) (branchesFrom (up ++ [frame]) (backtrace rest)) := rfl
      have path : up ++ frame :: backtrace rest = up ++ [frame] ++ backtrace rest := by
        rw [List.append_assoc, List.singleton_append]
      rw [some_, all, path]
      by_cases held : up ++ [frame] ∈ known
      · rw [enter_of_mem held, insertFrom_known tree few member null held]
        exact ih tree few (List.mem_cons_of_mem _ held)
      · have longer : (known ++ [up ++ [frame]]).length = known.length + 1 := by
          rw [List.length_append, List.length_singleton]
        rw [enter_of_not_mem held]
        rcases Nat.lt_or_eq_of_le few with room | full
        · have here : up ++ [frame] ∈ [] :: (known ++ [up ++ [frame]]) :=
            List.mem_cons_of_mem _ (List.mem_append_right _ (List.mem_singleton_self _))
          rw [insertFrom_fresh tree room member null held]
          exact (ih (tree.append member held) (longer.trans_le room) here).after StackFrameDeduplicator.kept_append
        · have grown := (prefix_enterAll (known ++ [up ++ [frame]]) (branchesFrom (up ++ [frame])
            (backtrace rest))).length_le
          rw [longer, full] at grown
          exact ⟨fun room => absurd room (Nat.not_le.mpr grown),
            fun _ => insertFrom_full tree full member null held rest⟩

theorem insert_inserted (tree : Tree self known) (few : known.length ≤ 2 ^ 31) (frames : List StackFrame) :
    Inserted self (enterAll known (branches frames)) (backtrace frames) (self.insert frames) := by
  have whole : branchesFrom [] (backtrace frames) = branches frames := by
    rw [branchesFrom_eq]
    exact List.map_id _
  rw [← whole]
  exact insertFrom_inserted tree few List.mem_cons_self frames

/-- What the calls have done for the branches that are numbered behind them. -/
structure InsertedAll (before : StackFrameDeduplicator) (known calls : List (List StackFrame))
    (result : Option (List Int × StackFrameDeduplicator)) : Prop where
  of_room : known.length ≤ 2 ^ 31 → ∃ trie,
    result = some (calls.map fun frames => indexOf known (backtrace frames), trie) ∧ Tree trie known ∧
      Kept before.frames_ trie.frames_ ∧ ∀ frames ∈ calls, backtrace frames ∈ [] :: known
  of_full : 2 ^ 31 < known.length → result = none

theorem insertAll_inserted (tree : Tree self known) (few : known.length ≤ 2 ^ 31) (calls : List (List StackFrame)) :
    InsertedAll self (enterAll known (calls.flatMap branches)) calls (StackFrameDeduplicator.insertAll self calls) := by
  induction calls generalizing self known with
  | nil =>
    exact ⟨fun _ => ⟨self, rfl, tree, .refl _, fun _ member => absurd member List.not_mem_nil⟩,
      fun full => absurd few (Nat.not_le.mpr full)⟩
  | cons frames rest ih =>
    have inserted := insert_inserted tree few frames
    have all : enterAll known ((frames :: rest).flatMap branches) =
        enterAll (enterAll known (branches frames)) (rest.flatMap branches) := by
      rw [List.flatMap_cons]
      exact List.foldl_append
    obtain ⟨more, grown⟩ := prefix_enterAll (enterAll known (branches frames)) (rest.flatMap branches)
    have longer := congrArg List.length grown
    rw [List.length_append] at longer
    rw [all, StackFrameDeduplicator.insertAll]
    rcases Nat.lt_or_ge (2 ^ 31) (enterAll known (branches frames)).length with full | room
    · rw [inserted.of_full full]
      exact ⟨fun room => by omega, fun _ => rfl⟩
    · obtain ⟨trie, same, tree, kept, member⟩ := inserted.of_room room
      have left := ih tree room
      rw [same, Option.bind_some]
      constructor
      · intro room
        obtain ⟨last, same, tree, kept', members⟩ := left.of_room room
        have number := indexOf_append more member
        rw [grown] at number
        refine ⟨last, ?_, tree, kept.trans kept', ?_⟩
        · rw [same, Option.map_some, List.map_cons, number]
        · intro other called
          rcases List.mem_cons.mp called with rfl | called
          · rw [← grown]
            exact List.mem_append_left more member
          · exact members other called
      · intro full
        rw [left.of_full full]
        rfl

end Loop

/-! ### Runs -/

theorem tree_empty : Tree {} [] where
  length := rfl
  distinct := List.nodup_nil
  some_ := List.not_mem_nil
  node := fun k node here => by cases here
  child := fun up member frame => by
    cases List.mem_singleton.mp member
    rfl

theorem insertAll_append (self : StackFrameDeduplicator) (front back : List (List StackFrame)) :
    self.insertAll (front ++ back) = (self.insertAll front).bind fun first =>
      (first.2.insertAll back).map fun all => (first.1 ++ all.1, all.2) := by
  induction front generalizing self with
  | nil => exact Option.map_id'.symm
  | cons frames rest ih =>
    rw [List.cons_append, StackFrameDeduplicator.insertAll, StackFrameDeduplicator.insertAll, Option.bind_assoc]
    refine congrArg ((self.insert frames).bind ·) (funext fun first => ?_)
    rw [ih, Option.map_bind, Option.bind_map]
    refine congrArg ((first.2.insertAll rest).bind ·) (funext fun all => ?_)
    rw [Function.comp_apply, Function.comp_apply, Option.map_map]
    rfl

section Tree

variable {self : StackFrameDeduplicator} {known : List (List StackFrame)}

theorem Tree.spells (tree : Tree self known) {branch : List StackFrame} (member : branch ∈ [] :: known) :
    Spells self.frames_ (indexOf known branch) branch := by
  induction branch using List.reverseRecOn with
  | nil => exact .root
  | append_singleton up frame ih =>
    have held := (List.mem_cons.mp member).resolve_left concat_ne_nil
    have place := getElem?_numberOf held
    obtain ⟨node, here⟩ : ∃ node, self.frames_[numberOf known (up ++ [frame])]? = some node :=
      ⟨_, List.getElem?_eq_getElem (tree.length ▸ numberOf_lt held)⟩
    obtain ⟨front, branch, before, parent⟩ := tree.node _ node here
    rw [place] at branch
    obtain ⟨rfl, same⟩ := List.append_inj' (Option.some.inj branch) rfl
    obtain rfl := List.singleton_inj.mp same
    rw [indexOf_concat]
    exact .node here (parent ▸ ih (tree.closed held))

theorem Tree.parent_lt (tree : Tree self known) {k : Nat} {node : FrameNode} (here : self.frames_[k]? = some node) :
    -1 ≤ node.parent_frame_index ∧ node.parent_frame_index < k := by
  obtain ⟨up, branch, before, parent⟩ := tree.node k node here
  rw [parent, indexOf]
  split
  next => exact ⟨Int.le_refl _, by omega⟩
  next more =>
    have earlier := (List.mem_cons.mp before).resolve_left more
    obtain ⟨later, split⟩ := (List.take_prefix k known)
    have number := numberOf_append later earlier
    rw [split] at number
    have inside := numberOf_lt earlier
    rw [← number, List.length_take] at inside
    omega

end Tree

/-- While there are at most 2 ^ 31 branches, indices stand for backtraces, and stay the same. -/
theorem insertAll_deduplicated (calls : List (List StackFrame))
    (few : (calls.flatMap branches).toFinset.card ≤ 2 ^ 31) :
    ∃ results self, StackFrameDeduplicator.insertAll {} calls = some (results, self) ∧ Deduplicated calls results self ∧
      ∀ front back, calls = front ++ back → ∃ earlier,
        StackFrameDeduplicator.insertAll {} front = some (results.take front.length, earlier) ∧
          Kept earlier.frames_ self.frames_ := by
  rw [← enterAll_length] at few
  obtain ⟨self, run, tree, _, members⟩ := (insertAll_inserted tree_empty (Nat.zero_le _) calls).of_room few
  refine ⟨_, self, run, ⟨?_, ?_, fun k node here => tree.parent_lt here⟩, ?_⟩
  · rw [List.forall₂_map_right_iff, List.forall₂_same]
    exact fun frames called => tree.spells (members frames called)
  · intro i j frames others index other called called' here there
    rw [List.getElem?_map, called, Option.map_some] at here
    rw [List.getElem?_map, called', Option.map_some] at there
    cases here
    cases there
    exact ⟨indexOf_inj (members frames (List.mem_of_getElem? called)), congrArg _⟩
  · rintro front back rfl
    have all : enterAll [] ((front ++ back).flatMap branches) =
        enterAll (enterAll [] (front.flatMap branches)) (back.flatMap branches) := by
      rw [List.flatMap_append]
      exact List.foldl_append
    obtain ⟨more, grown⟩ := prefix_enterAll (enterAll [] (front.flatMap branches)) (back.flatMap branches)
    have room : (enterAll [] (front.flatMap branches)).length ≤ 2 ^ 31 := by
      have longer := congrArg List.length grown
      rw [List.length_append, ← all] at longer
      omega
    obtain ⟨earlier, run', tree', _, members'⟩ := (insertAll_inserted tree_empty (Nat.zero_le _) front).of_room room
    obtain ⟨last, run'', _, kept, _⟩ := (insertAll_inserted tree' room back).of_room (all ▸ few)
    refine ⟨earlier, ?_, ?_⟩
    · rw [run', List.map_append, List.take_left' (List.length_map _), all, ← grown]
      refine congrArg (fun results => some (results, earlier)) (List.map_congr_left fun frames called => ?_)
      exact (indexOf_append more (members' frames called)).symm
    · rw [insertAll_append, run', Option.bind_some, run''] at run
      cases (Prod.mk.inj (Option.some.inj run)).2
      exact kept

theorem insertAll_deduplicated_two : ∃ results self,
    StackFrameDeduplicator.insertAll {} [[1, 2, 0, 3], [1], [2, 1]] = some (results, self) ∧
      Deduplicated [[1, 2, 0, 3], [1], [2, 1]] results self ∧
      ∀ front back, [[1, 2, 0, 3], [1], [2, 1]] = front ++ back → ∃ earlier,
        StackFrameDeduplicator.insertAll {} front = some (results.take front.length, earlier) ∧
          Kept earlier.frames_ self.frames_ :=
  insertAll_deduplicated [[1, 2, 0, 3], [1], [2, 1]] (by decide)

theorem map_length_inits (frames : List StackFrame) :
    frames.inits.map List.length = List.range (frames.length + 1) := by
  induction frames with
  | nil => rfl
  | cons frame rest ih =>
    rw [List.inits_cons, List.map_cons, List.map_map, List.length_cons, List.range_succ_eq_map, ← ih, List.map_map]
    rfl

theorem nodup_inits (frames : List StackFrame) : frames.inits.Nodup :=
  List.Nodup.of_map List.length (map_length_inits frames ▸ List.nodup_range)

/-- A backtrace of one more frame has a node whose index would be negative. -/
theorem insertAll_deep : ¬ ∀ calls : List (List StackFrame), ∃ results self,
    StackFrameDeduplicator.insertAll {} calls = some (results, self) ∧ Deduplicated calls results self := by
  intro all
  obtain ⟨count, size⟩ : ∃ count, 2 ^ 31 + 1 = count := ⟨_, rfl⟩
  obtain ⟨results, self, run, _⟩ := all [List.replicate count 1]
  have whole : backtrace (List.replicate count 1) = List.replicate count 1 :=
    List.takeWhile_replicate_eq_filter.trans (List.filter_replicate_of_pos rfl)
  have full : 2 ^ 31 < (enterAll [] ([List.replicate count (1 : StackFrame)].flatMap branches)).length := by
    rw [List.flatMap_singleton, branches, whole, enterAll_length,
      List.toFinset_card_of_nodup (nodup_inits _).tail, List.length_tail, List.length_inits, List.length_replicate,
      Nat.add_sub_cancel, ← size]
    exact Nat.lt_succ_self _
  rw [(insertAll_inserted tree_empty (Nat.zero_le _) _).of_full full] at run
  cases run

end Libchrome.Base.TraceEvent
