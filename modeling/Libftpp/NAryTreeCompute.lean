import Mathlib.Algebra.BigOperators.Group.List.Basic
import Libftpp.NAryTree

/-! `NAryTree::postorderCompute` (`n_ary_tree.hpp`). A node with a function has
its children computed one after the other, and the function makes its result of
theirs; a node without one gives its value, and nothing below it is looked at. -/
namespace Libftpp
open Program
open OrderedTree (Position Order Reached change prune pruneAll subtree visit visitAll within)

variable {ε σ TType TResult : Type}

/-- The conversions between the values of the nodes and the results, and `TResult()`. -/
structure ResultType (TType TResult : Type) where
  initial : TResult
  ofValue : TType → TResult
  toValue : TResult → TType

/-- The node for which a result has been produced, and what its function
received, if it has one. -/
structure Produced (TType TResult : Type) where
  position : Position
  received : Option (List TType)
  result : TResult

/-- What the functions act on, and the results so far. -/
structure Computation (σ TType TResult : Type) where
  outer : σ
  produced : List (Produced TType TResult)

namespace NAryTree

/-- A function of a node is called. It does not touch the tree. -/
def callFunct (funct : List TType → Program ε σ TType) (childResults : List TType) :
    Program ε (Computation σ TType TResult) TType :=
  zoom Computation.outer (fun computation outer => { computation with outer }) (funct childResults)

/-- A result is returned. -/
def produce (position : Position) (received : Option (List TType)) (result : TResult) :
    Program ε (Computation σ TType TResult) TResult := do
  modify fun computation => { computation with produced := computation.produced ++ [⟨position, received, result⟩] }
  pure result

section Compute
variable (types : ResultType TType TResult)

mutual
/-- `postorderCompute` for the node at this position. -/
def computeNode (position : Position) : Node ε σ TType → Program ε (Computation σ TType TResult) TResult
  | .node content children =>
    match content.parentFunct with
    | some funct => do
      let childResults ← computeChildren position 0 children
      let value ← callFunct funct childResults
      produce position (some childResults) (types.ofValue value)
    | none => produce position none (types.ofValue content.data)

/-- The loop over the children, from this index on. -/
def computeChildren (position : Position) :
    Nat → List (Node ε σ TType) → Program ε (Computation σ TType TResult) (List TType)
  | _, [] => pure []
  | index, child :: children => do
    let result ← computeNode (position ++ [index]) child
    let childResults ← computeChildren position (index + 1) children
    pure (types.toValue result :: childResults)
end

/-- `postorderCompute`. The pointer is null or points to a node of the tree. -/
def postorderCompute (tree : NAryTree ε σ TType) :
    Option Position → Program ε (Computation σ TType TResult) TResult
  | none => pure types.initial
  | some position =>
    match tree.nodeAt position with
    | some node => computeNode types position node
    | none => undefinedBehaviour

end Compute

/-! ### What is to be produced -/

/-- The node carries a function. -/
def hasFunct (content : NodeContent ε σ TType) : Bool := content.parentFunct.isSome

/-- The nodes below this one that get results, in their order. -/
def places (position : Position) (node : Node ε σ TType) : List Position :=
  (visit .postorder (prune hasFunct node)).map fun entry => position ++ entry.1

/-- The result of a node is its own value, or what its function made of the
results of its children. -/
def Accounts (types : ResultType TType TResult) (node : Node ε σ TType) (log : List (Produced TType TResult))
    (entry : Produced TType TResult) : Prop :=
  match node.label.parentFunct with
  | none => entry.received = none ∧ entry.result = types.ofValue node.label.data
  | some funct => ∃ results : List TResult, entry.received = some (results.map types.toValue) ∧
    results.length = node.children.length ∧
    (∀ index result, results[index]? = some result →
      ∃ child ∈ log, child.position = entry.position ++ [index] ∧ child.result = result) ∧
    ∃ before value after, (funct (results.map types.toValue)).run before = .ok value after ∧
      entry.result = types.ofValue value

/-- Every result is accounted for by results before or behind it. -/
def Explained (types : ResultType TType TResult) (position : Position) (node : Node ε σ TType)
    (log : List (Produced TType TResult)) : Prop :=
  ∀ entry ∈ log, ∃ rest inner, entry.position = position ++ rest ∧ node.subtree rest = some inner ∧
    Accounts types inner log entry

/-- A function that is called does not return. -/
def Stopped (node : Node ε σ TType) (halt : Halt ε) : Prop :=
  ∃ rest inner funct childResults before after, node.subtree rest = some inner ∧ Reached hasFunct node rest ∧
    inner.label.parentFunct = some funct ∧ (funct childResults).run before = .error halt after

theorem Accounts.mono {types : ResultType TType TResult} {node : Node ε σ TType}
    {log more : List (Produced TType TResult)} {entry : Produced TType TResult}
    (accounts : Accounts types node log entry) (kept : log ⊆ more) : Accounts types node more entry := by
  unfold Accounts at accounts ⊢
  cases carried : node.label.parentFunct with
  | none =>
    simp only [carried] at accounts ⊢
    exact accounts
  | some funct =>
    simp only [carried] at accounts ⊢
    obtain ⟨results, received, length, children, called⟩ := accounts
    refine ⟨results, received, length, fun index result found => ?_, called⟩
    obtain ⟨child, member, rest⟩ := children index result found
    exact ⟨child, kept member, rest⟩

/-- The same for the results below children in a row. -/
def ExplainedAll (types : ResultType TType TResult) (position : Position) (index : Nat)
    (children : List (Node ε σ TType)) (log : List (Produced TType TResult)) : Prop :=
  ∀ entry ∈ log, ∃ offset child rest inner, children[offset]? = some child ∧
    entry.position = position ++ (index + offset) :: rest ∧ child.subtree rest = some inner ∧
    Accounts types inner log entry

theorem ExplainedAll.cons {types : ResultType TType TResult} {position : Position} {index : Nat}
    {child : Node ε σ TType} {children : List (Node ε σ TType)} {first second : List (Produced TType TResult)}
    (one : Explained types (position ++ [index]) child first)
    (others : ExplainedAll types position (index + 1) children second) :
    ExplainedAll types position index (child :: children) (first ++ second) := by
  intro entry member
  rcases List.mem_append.mp member with here | there
  · obtain ⟨rest, inner, place, found, accounts⟩ := one entry here
    exact ⟨0, child, rest, inner, rfl, by simp [place], found, accounts.mono (List.subset_append_left ..)⟩
  · obtain ⟨offset, other, rest, inner, at_offset, place, found, accounts⟩ := others entry there
    refine ⟨offset + 1, other, rest, inner, at_offset, ?_, found, accounts.mono (List.subset_append_right ..)⟩
    rw [place, Nat.add_assoc, Nat.add_comm 1]

theorem ExplainedAll.below {types : ResultType TType TResult} {position : Position}
    {content : NodeContent ε σ TType} {children : List (Node ε σ TType)} {log : List (Produced TType TResult)}
    (all : ExplainedAll types position 0 children log) : Explained types position (.node content children) log := by
  intro entry member
  obtain ⟨offset, child, rest, inner, at_offset, place, found, accounts⟩ := all entry member
  refine ⟨offset :: rest, inner, by rw [place, Nat.zero_add], ?_, accounts⟩
  rw [OrderedTree.subtree_cons, at_offset]
  exact found

/-- What a computation that returns has produced. -/
structure Computed (types : ResultType TType TResult) (position : Position) (node : Node ε σ TType)
    (log : List (Produced TType TResult)) (result : TResult) : Prop where
  places : log.map Produced.position = places position node
  explained : Explained types position node log
  own : ∃ entry ∈ log, entry.position = position ∧ entry.result = result

/-- The places below children in a row that get results. -/
def placesAll (position : Position) (index : Nat) (children : List (Node ε σ TType)) : List Position :=
  (visitAll .postorder index (pruneAll hasFunct children)).map fun entry => position ++ entry.1

/-- What the loop over the children has produced. -/
structure ComputedAll (types : ResultType TType TResult) (position : Position) (index : Nat)
    (children : List (Node ε σ TType)) (log : List (Produced TType TResult)) (results : List TResult) : Prop where
  places : log.map Produced.position = placesAll position index children
  explained : ExplainedAll types position index children log
  length : results.length = children.length
  own : ∀ offset result, results[offset]? = some result →
    ∃ entry ∈ log, entry.position = position ++ [index + offset] ∧ entry.result = result

theorem placesAll_cons (position : Position) (index : Nat) (child : Node ε σ TType)
    (children : List (Node ε σ TType)) :
    placesAll position index (child :: children) =
      places (position ++ [index]) child ++ placesAll position (index + 1) children := by
  simp [placesAll, places, pruneAll, visitAll, within]

theorem places_without {content : NodeContent ε σ TType} (position : Position) (children : List (Node ε σ TType))
    (missing : content.parentFunct = none) : places position (.node content children) = [position] := by
  simp [places, prune, hasFunct, missing, OrderedTree.visit_node, visitAll, Order.opening, Order.closing]

theorem places_with {content : NodeContent ε σ TType} {funct : List TType → Program ε σ TType} (position : Position)
    (children : List (Node ε σ TType)) (carried : content.parentFunct = some funct) :
    places position (.node content children) = placesAll position 0 children ++ [position] := by
  simp [places, placesAll, prune, hasFunct, carried, OrderedTree.visit_node, Order.opening, Order.closing]

/-! ### Runs that return -/

section Runs
variable {types : ResultType TType TResult} {before after : Computation σ TType TResult}

theorem callFunct_returns {funct : List TType → Program ε σ TType}
    (ran : (callFunct funct childResults : Program ε (Computation σ TType TResult) TType).run before = .ok value after) :
    after.produced = before.produced ∧ ∃ outer, (funct childResults).run before.outer = .ok value outer := by
  rw [callFunct, run_zoom] at ran
  split at ran <;> cases ran
  exact ⟨rfl, _, ‹_›⟩

theorem computeChildren_returns {position : Position} {index : Nat} {children : List (Node ε σ TType)}
    (each : ∀ child ∈ children, ∀ position before value after,
      (computeNode types position child).run before = .ok value after →
        ∃ log, after.produced = before.produced ++ log ∧ Computed types position child log value)
    (ran : (computeChildren types position index children).run before = .ok childResults after) :
    ∃ log results, childResults = results.map types.toValue ∧ after.produced = before.produced ++ log ∧
      ComputedAll types position index children log results := by
  induction children generalizing index before childResults with
  | nil =>
    cases ran
    exact ⟨[], [], rfl, by simp, rfl, nofun, rfl, nofun⟩
  | cons child children ih =>
    obtain ⟨result, middle, one, ran⟩ := bind_returns.mp ran
    obtain ⟨childResults, last, others, ended⟩ := bind_returns.mp ran
    cases ended
    obtain ⟨first, extended, computed⟩ := each child (List.mem_cons_self ..) _ _ _ _ one
    obtain ⟨second, results, rfl, grown, all⟩ :=
      ih (fun other member => each other (List.mem_cons_of_mem _ member)) others
    refine ⟨first ++ second, result :: results, rfl, by rw [grown, extended, List.append_assoc], ?_, ?_, ?_, ?_⟩
    · rw [List.map_append, computed.places, all.places, placesAll_cons]
    · exact ExplainedAll.cons computed.explained all.explained
    · rw [List.length_cons, all.length, List.length_cons]
    · intro offset value found
      cases offset with
      | zero =>
        cases found
        obtain ⟨entry, member, place⟩ := computed.own
        exact ⟨entry, List.mem_append_left _ member, place⟩
      | succ offset =>
        obtain ⟨entry, member, place, same⟩ := all.own offset value found
        exact ⟨entry, List.mem_append_right _ member, by rw [place, Nat.add_assoc, Nat.add_comm 1], same⟩

/-- A computation that returns has produced a result for each node below nodes
with functions, children before their parents. -/
theorem computeNode_returns {position : Position} {node : Node ε σ TType}
    (ran : (computeNode types position node).run before = .ok value after) :
    ∃ log, after.produced = before.produced ++ log ∧ Computed types position node log value := by
  induction node using OrderedTree.induct generalizing position before value after with
  | node content children ih =>
    unfold computeNode at ran
    cases carried : content.parentFunct with
    | none =>
      simp only [carried] at ran
      cases ran
      refine ⟨[⟨position, none, types.ofValue content.data⟩], rfl, ?_, ?_,
        ⟨_, List.mem_singleton_self _, rfl, rfl⟩⟩
      · rw [places_without position children carried]
        rfl
      · intro entry member
        cases List.mem_singleton.mp member
        exact ⟨[], _, (List.append_nil _).symm, OrderedTree.subtree_nil _, by simp [Accounts, carried]⟩
    | some funct =>
      simp only [carried] at ran
      obtain ⟨childResults, middle, looped, ran⟩ := bind_returns.mp ran
      obtain ⟨value, called, ranFunct, ended⟩ := bind_returns.mp ran
      cases ended
      obtain ⟨log, results, rfl, extended, all⟩ :=
        computeChildren_returns (fun child member _ _ _ _ => ih child member) looped
      obtain ⟨same, outer, returned⟩ := callFunct_returns ranFunct
      let own : Produced TType TResult := ⟨position, some (results.map types.toValue), types.ofValue value⟩
      refine ⟨log ++ [own], ?_, ?_, ?_, ⟨own, List.mem_append_right _ (List.mem_singleton_self _), rfl, rfl⟩⟩
      · change called.produced ++ [own] = _
        rw [same, extended, List.append_assoc]
      · rw [List.map_append, all.places, places_with position children carried]
        rfl
      · intro entry member
        rcases List.mem_append.mp member with below | last
        · have explained : Explained types position (.node content children) log := all.explained.below
          obtain ⟨rest, inner, place, found, accounts⟩ := explained entry below
          exact ⟨rest, inner, place, found, accounts.mono (List.subset_append_left ..)⟩
        · cases List.mem_singleton.mp last
          refine ⟨[], _, (List.append_nil _).symm, OrderedTree.subtree_nil _, ?_⟩
          simp only [Accounts, OrderedTree.label_node, carried]
          refine ⟨results, rfl, all.length, fun index result found => ?_, _, _, _, returned, rfl⟩
          obtain ⟨child, member, place, same⟩ := all.own index result found
          exact ⟨child, List.mem_append_left _ member, by rw [place, Nat.zero_add], same⟩

/-! ### Runs that stop -/

/-- What a computation that a function stops has produced. -/
structure Halted (types : ResultType TType TResult) (position : Position) (node : Node ε σ TType)
    (log : List (Produced TType TResult)) (halt : Halt ε) : Prop where
  places : log.map Produced.position <+: places position node
  explained : Explained types position node log
  stopped : Stopped node halt

theorem Stopped.of_child {content : NodeContent ε σ TType} {children : List (Node ε σ TType)} {index : Nat}
    {child : Node ε σ TType} (carried : hasFunct content = true) (there : children[index]? = some child)
    (stopped : Stopped child halt) : Stopped (.node content children) halt := by
  obtain ⟨rest, inner, funct, childResults, before, after, found, reached, which, ran⟩ := stopped
  refine ⟨index :: rest, inner, funct, childResults, before, after, ?_,
    (OrderedTree.reached_cons there).mpr ⟨carried, reached⟩, which, ran⟩
  rw [OrderedTree.subtree_cons, there]
  exact found

theorem callFunct_stops {funct : List TType → Program ε σ TType}
    (ran : (callFunct funct childResults : Program ε (Computation σ TType TResult) TType).run before =
      .error halt after) :
    after.produced = before.produced ∧ ∃ outer, (funct childResults).run before.outer = .error halt outer := by
  rw [callFunct, run_zoom] at ran
  split at ran <;> cases ran
  exact ⟨rfl, _, ‹_›⟩

theorem computeChildren_stops {position : Position} {index : Nat} {children : List (Node ε σ TType)}
    (each : ∀ child ∈ children, ∀ position before halt after,
      (computeNode types position child).run before = .error halt after →
        ∃ log, after.produced = before.produced ++ log ∧ Halted types position child log halt)
    (ran : (computeChildren types position index children).run before = .error halt after) :
    ∃ log, after.produced = before.produced ++ log ∧
      log.map Produced.position <+: placesAll position index children ∧
      ExplainedAll types position index children log ∧
      ∃ (offset : Nat) (child : Node ε σ TType), children[offset]? = some child ∧ Stopped child halt := by
  induction children generalizing index before with
  | nil => cases ran
  | cons child children ih =>
    rcases bind_stops.mp ran with one | ⟨result, middle, one, ran⟩
    · obtain ⟨log, extended, halted⟩ := each child (List.mem_cons_self ..) _ _ _ _ one
      refine ⟨log, extended, ?_, ?_, 0, child, rfl, halted.stopped⟩
      · rw [placesAll_cons]
        exact halted.places.trans (List.prefix_append ..)
      · have alone := ExplainedAll.cons halted.explained (nofun : ExplainedAll types position (index + 1) children [])
        rwa [List.append_nil] at alone
    · rcases bind_stops.mp ran with others | ⟨_, _, _, ended⟩
      · obtain ⟨first, extended, computed⟩ := computeNode_returns one
        obtain ⟨second, grown, begun, explained, offset, other, there, stopped⟩ :=
          ih (fun other member => each other (List.mem_cons_of_mem _ member)) others
        refine ⟨first ++ second, by rw [grown, extended, List.append_assoc], ?_,
          ExplainedAll.cons computed.explained explained, offset + 1, other, there, stopped⟩
        rw [List.map_append, computed.places, placesAll_cons]
        exact (List.prefix_append_right_inj _).mpr begun
      · cases ended

/-- A computation stops only in a function that is called, and what it has
produced until then is the beginning of what was to be produced. -/
theorem computeNode_stops {position : Position} {node : Node ε σ TType}
    (ran : (computeNode types position node).run before = .error halt after) :
    ∃ log, after.produced = before.produced ++ log ∧ Halted types position node log halt := by
  induction node using OrderedTree.induct generalizing position before halt after with
  | node content children ih =>
    unfold computeNode at ran
    cases carried : content.parentFunct with
    | none =>
      simp only [carried] at ran
      cases ran
    | some funct =>
      have has : hasFunct content = true := by simp [hasFunct, carried]
      simp only [carried] at ran
      rcases bind_stops.mp ran with looped | ⟨childResults, middle, looped, ran⟩
      · obtain ⟨log, extended, begun, explained, offset, child, there, stopped⟩ :=
          computeChildren_stops (fun child member _ _ _ _ => ih child member) looped
        refine ⟨log, extended, ?_, explained.below, stopped.of_child has there⟩
        rw [places_with position children carried]
        exact begun.trans (List.prefix_append ..)
      · obtain ⟨log, results, rfl, extended, all⟩ :=
          computeChildren_returns (fun _ _ _ _ _ _ => computeNode_returns) looped
        rcases bind_stops.mp ran with called | ⟨_, _, _, ended⟩
        · obtain ⟨same, outer, stopped⟩ := callFunct_stops called
          refine ⟨log, by rw [same, extended], ?_, all.explained.below, ?_⟩
          · rw [all.places, places_with position children carried]
            exact List.prefix_append ..
          · exact ⟨[], _, funct, _, _, _, OrderedTree.subtree_nil _, OrderedTree.reached_root _, carried, stopped⟩
        · cases ended

end Runs

/-! ### What makes no difference -/

theorem computeChildren_pruneAll {types : ResultType TType TResult} {children : List (Node ε σ TType)}
    (each : ∀ child ∈ children, ∀ position,
      computeNode types position (prune hasFunct child) = computeNode types position child)
    (position : Position) (index : Nat) :
    computeChildren types position index (pruneAll hasFunct children) =
      computeChildren types position index children := by
  induction children generalizing index with
  | nil => rfl
  | cons child children ih =>
    rw [pruneAll, computeChildren, computeChildren, each child (List.mem_cons_self ..),
      ih fun other member => each other (List.mem_cons_of_mem _ member)]

/-- What is below a node without a function is not looked at. -/
theorem computeNode_prune (types : ResultType TType TResult) (position : Position) (node : Node ε σ TType) :
    computeNode types position (prune hasFunct node) = computeNode types position node := by
  induction node using OrderedTree.induct generalizing position with
  | node content children ih =>
    unfold prune computeNode
    cases carried : content.parentFunct with
    | none => rfl
    | some funct =>
      simp only [carried, hasFunct, Option.isSome_some, if_true]
      rw [computeChildren_pruneAll ih]

/-! ### Sums -/

section Sums
variable [AddMonoid TType]

/-- `std::accumulate` over the results of the children. -/
def sumFunct (childResults : List TType) : Program ε σ TType := pure (childResults.foldl (· + ·) 0)

/-- The inner nodes carry the sum, and the leaves carry nothing. -/
def InnerNodesSum (root : Node ε σ TType) : Prop :=
  ∀ position node, root.subtree position = some node →
    node.label.parentFunct = if node.children.isEmpty then none else some sumFunct

theorem InnerNodesSum.child {content : NodeContent ε σ TType} {children : List (Node ε σ TType)}
    (sums : InnerNodesSum (.node content children)) {child : Node ε σ TType} (member : child ∈ children) :
    InnerNodesSum child := by
  intro position node found
  obtain ⟨index, there⟩ := List.mem_iff_getElem?.mp member
  refine sums (index :: position) node ?_
  rw [OrderedTree.subtree_cons, there]
  exact found

/-- The values of the leaves. -/
def leafValues (node : Node ε σ TType) : List TType := (OrderedTree.leaves node).map NodeContent.data

variable {types : ResultType TType TResult} (lossless : ∀ value, types.toValue (types.ofValue value) = value)
include lossless

theorem computeChildren_sums {children : List (Node ε σ TType)}
    (each : ∀ child ∈ children, ∀ position before, ∃ after,
      (computeNode types position child).run before = .ok (types.ofValue (leafValues child).sum) after)
    (position : Position) (index : Nat) (before : Computation σ TType TResult) :
    ∃ childResults after, (computeChildren types position index children).run before = .ok childResults after ∧
      childResults.sum = ((OrderedTree.leavesAll children).map NodeContent.data).sum := by
  induction children generalizing index before with
  | nil => exact ⟨[], before, rfl, rfl⟩
  | cons child children ih =>
    obtain ⟨middle, one⟩ := each child (List.mem_cons_self ..) (position ++ [index]) before
    obtain ⟨childResults, after, others, total⟩ :=
      ih (fun other member => each other (List.mem_cons_of_mem _ member)) (index + 1) middle
    refine ⟨_, after, bind_returns.mpr ⟨_, middle, one, bind_returns.mpr ⟨_, after, others, rfl⟩⟩, ?_⟩
    rw [List.sum_cons, lossless, total, OrderedTree.leavesAll, List.map_append, List.sum_append]
    rfl

theorem computeNode_sums {node : Node ε σ TType} (sums : InnerNodesSum node) (position : Position)
    (before : Computation σ TType TResult) :
    ∃ after, (computeNode types position node).run before = .ok (types.ofValue (leafValues node).sum) after := by
  induction node using OrderedTree.induct generalizing position before with
  | node content children ih =>
    have carried := sums [] _ (OrderedTree.subtree_nil _)
    rw [OrderedTree.label_node, OrderedTree.children_node] at carried
    unfold computeNode
    cases children with
    | nil =>
      rw [List.isEmpty_nil, if_pos rfl] at carried
      have alone : (leafValues (.node content [])).sum = content.data := by simp [leafValues, OrderedTree.leaves]
      simp only [carried, alone]
      exact ⟨_, rfl⟩
    | cons child children =>
      rw [List.isEmpty_cons, if_neg Bool.false_ne_true] at carried
      simp only [carried]
      obtain ⟨childResults, middle, looped, total⟩ :=
        computeChildren_sums lossless (fun child member => ih child member (sums.child member)) position 0 before
      have added : childResults.foldl (· + ·) 0 = (leafValues (.node content (child :: children))).sum := by
        rw [← List.sum_eq_foldl, total]
        rfl
      rw [← added]
      exact ⟨{ middle with produced := middle.produced ++ [⟨position, some childResults, _⟩] },
        bind_returns.mpr ⟨_, middle, looped, rfl⟩⟩

end Sums

/-! ### From the root -/

/-- The nodes all of whose proper ancestors carry a function, in postorder. -/
def computed (root : Node ε σ TType) : List Position :=
  ((entries .postorder ⟨some root⟩).map Prod.fst).filter fun position => Reached hasFunct root position

theorem places_root (root : Node ε σ TType) : places [] root = computed root := by
  rw [places, OrderedTree.visit_prune, computed, entries_some rfl, List.map_map, List.filter_map]
  rfl

/-- Each of these nodes has got one result, in this order, and every result is
accounted for. -/
structure InPostorder (types : ResultType TType TResult) (root : Node ε σ TType) (log : List (Produced TType TResult))
    (result : TResult) : Prop where
  order : log.map Produced.position = computed root
  once : (log.map Produced.position).Nodup
  explained : Explained types [] root log
  result : ∃ entry ∈ log, entry.position = [] ∧ entry.result = result

/-- A function has not come back, and the results are the first of those. -/
structure Interrupted (types : ResultType TType TResult) (root : Node ε σ TType)
    (log : List (Produced TType TResult)) (halt : Halt ε) : Prop where
  order : log.map Produced.position <+: computed root
  explained : Explained types [] root log
  stopped : Stopped root halt

/-- `postorderCompute` produces results in postorder, for the nodes whose proper
ancestors all carry functions, unless a function stops it; what is below nodes
without functions makes no difference; and with sums in the inner nodes, the
result is the sum of the leaves. -/
theorem postorderCompute_postorder (types : ResultType TType TResult) (root : Node ε σ TType) (outer : σ) :
    (∀ value after, (postorderCompute types ⟨some root⟩ (some [])).run ⟨outer, []⟩ = .ok value after →
        InPostorder types root after.produced value) ∧
      (∀ halt after, (postorderCompute types ⟨some root⟩ (some [])).run ⟨outer, []⟩ = .error halt after →
        Interrupted types root after.produced halt) ∧
      (∀ other : Node ε σ TType, prune hasFunct other = prune hasFunct root →
        postorderCompute types ⟨some other⟩ (some []) = postorderCompute types ⟨some root⟩ (some [])) ∧
      ∀ [AddMonoid TType], InnerNodesSum root → (∀ value, types.toValue (types.ofValue value) = value) →
        ∃ after, (postorderCompute types ⟨some root⟩ (some [])).run ⟨outer, []⟩ =
          .ok (types.ofValue (leafValues root).sum) after := by
  have started (node : Node ε σ TType) : postorderCompute types ⟨some node⟩ (some []) = computeNode types [] node := by
    simp [postorderCompute, nodeAt]
  simp only [started]
  refine ⟨fun value after ran => ?_, fun halt after ran => ?_, fun other same => ?_, fun sums lossless => ?_⟩
  · obtain ⟨log, extended, computed⟩ := computeNode_returns ran
    cases extended
    have order := computed.places.trans (places_root root)
    refine ⟨order, ?_, computed.explained, computed.own⟩
    rw [order]
    exact (entries_spec .postorder ⟨some root⟩).1.filter _
  · obtain ⟨log, extended, halted⟩ := computeNode_stops ran
    cases extended
    exact ⟨places_root root ▸ halted.places, halted.explained, halted.stopped⟩
  · rw [← computeNode_prune, same, computeNode_prune]
  · exact computeNode_sums lossless sums [] ⟨outer, []⟩

/-- The documented tree with sums in its inner nodes. -/
def documentedSums : List (Call Exn Unit Nat) :=
  documented ++ [.setParentFunct (some []) (some sumFunct), .setParentFunct (some [0]) (some sumFunct),
    .setParentFunct (some [1]) (some sumFunct)]

example : ((outcome (build documentedSums) new).bind fun (_, tree) =>
    (outcome (postorderCompute ⟨0, id, id⟩ tree (some [])) ⟨(), []⟩).map fun (result, computation) =>
      (result, computation.produced.map Produced.position)) =
    some (15, [[0, 0], [0, 1], [0], [1, 0], [1], []]) := by rfl

/-- Nothing that is done to a node below one without a function changes what is computed. -/
theorem postorderCompute_change (types : ResultType TType TResult) {root : Node ε σ TType} {position : Position}
    (unreached : ¬ Reached hasFunct root position) (f : Node ε σ TType → Node ε σ TType) :
    postorderCompute types ⟨some (root.change f position)⟩ (some []) =
      postorderCompute types ⟨some root⟩ (some []) := by
  simp only [postorderCompute, nodeAt, Option.bind_some, OrderedTree.subtree_nil]
  rw [← computeNode_prune, OrderedTree.prune_change unreached, computeNode_prune]

end NAryTree
end Libftpp
