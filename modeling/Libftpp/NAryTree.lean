import Libftpp.DataBuffer
import Libftpp.OrderedTree

/-! The n-ary tree (`n_ary_tree.hpp`). A node owns its children, and children are
only added behind those that are there, so the place of a node is what a `Node*`
keeps pointing to. Adding a child changes either traversal in one place: in
preorder behind everything below the parent, in postorder before the parent. -/
namespace Libftpp
open Program
open OrderedTree (Position Order addLast change subtree visit visitAll within)

variable {ε σ TType : Type}

/-- What a node has besides its children. A function may be missing; it may throw
and act on a state of its own. -/
structure NodeContent (ε σ TType : Type) where
  data : TType
  parentFunct : Option (List TType → Program ε σ TType)

/-- `class Node`. -/
abbrev Node (ε σ TType : Type) := OrderedTree (NodeContent ε σ TType)

namespace Node

/-- `Node::Node`. -/
def new (value : TType) : Node ε σ TType := .node ⟨value, none⟩ []

/-- `Node::addChild`. -/
def addChild (node : Node ε σ TType) (child : TType) : Node ε σ TType := addLast node (new child)

/-- `Node::setParentFunct`. -/
def setParentFunct (func : Option (List TType → Program ε σ TType)) : Node ε σ TType → Node ε σ TType
  | .node content children => .node { content with parentFunct := func } children

end Node

/-- `class NAryTree`. -/
structure NAryTree (ε σ TType : Type) where
  root : Option (Node ε σ TType)

namespace NAryTree

/-- `NAryTree::NAryTree`. -/
def new : NAryTree ε σ TType := ⟨none⟩

/-- The node a pointer points to. -/
def nodeAt (tree : NAryTree ε σ TType) (position : Position) : Option (Node ε σ TType) :=
  tree.root.bind (subtree · position)

/-- `setRoot`. -/
def setRoot (value : TType) : Program Exn (NAryTree ε σ TType) (Option Position) := do
  let tree ← get
  if tree.root.isNone then set (⟨some (Node.new value)⟩ : NAryTree ε σ TType)
  pure (some [])

/-- `getRoot`. -/
def getRoot : Program Exn (NAryTree ε σ TType) (Option Position) := do
  let tree ← get
  pure (tree.root.map fun _ => [])

/-- `addChild`. The pointer is null or points to a node of the tree. -/
def addChild (parent : Option Position) (value : TType) : Program Exn (NAryTree ε σ TType) (Option Position) := do
  match parent with
  | none => pure none
  | some position =>
    let tree ← get
    match tree.nodeAt position with
    | some node =>
      set (⟨tree.root.map (change (Node.addChild · value) · position)⟩ : NAryTree ε σ TType)
      pure (some (position ++ [node.children.length]))
    | none => undefinedBehaviour

/-- `addChildToRoot`. -/
def addChildToRoot (value : TType) : Program Exn (NAryTree ε σ TType) (Option Position) := do
  addChild (← getRoot) value

/-- `setParentFunct` through a pointer. -/
def setParentFunct (node : Option Position) (func : Option (List TType → Program ε σ TType)) :
    Program Exn (NAryTree ε σ TType) (Option Position) := do
  let tree ← get
  match node.bind tree.nodeAt with
  | some _ =>
    set (⟨tree.root.map (change (Node.setParentFunct func) · (node.getD []))⟩ : NAryTree ε σ TType)
    pure node
  | none => undefinedBehaviour

/-! ### Traversals -/

section Visitors
variable {ε' τ : Type} (funct : TType → Program ε' τ Unit)

mutual
/-- `preorder(Node*, std::function<void(TType)>&)` for a node. The function does not touch the tree. -/
def preorderVisit : Node ε σ TType → Program ε' τ Unit
  | .node content children => do
    funct content.data
    preorderVisitAll children

def preorderVisitAll : List (Node ε σ TType) → Program ε' τ Unit
  | [] => pure ()
  | child :: children => do
    preorderVisit child
    preorderVisitAll children
end

mutual
/-- `postorder(Node*, std::function<void(TType)>&)` for a node. -/
def postorderVisit : Node ε σ TType → Program ε' τ Unit
  | .node content children => do
    postorderVisitAll children
    funct content.data

def postorderVisitAll : List (Node ε σ TType) → Program ε' τ Unit
  | [] => pure ()
  | child :: children => do
    postorderVisit child
    postorderVisitAll children
end

/-- `preorder(Node*, std::function<void(TType)>&)`. -/
def preorder : Option (Node ε σ TType) → Program ε' τ Unit
  | none => pure ()
  | some node => preorderVisit funct node

/-- `postorder(Node*, std::function<void(TType)>&)`. -/
def postorder : Option (Node ε σ TType) → Program ε' τ Unit
  | none => pure ()
  | some node => postorderVisit funct node

/-- `preorder(std::function<void(TType)>&)`. Its counterpart for the postorder
hands on the `unique_ptr` itself and does not compile. -/
def preorderFromRoot (tree : NAryTree ε σ TType) : Program ε' τ Unit :=
  if tree.root.isSome then preorder funct tree.root else pure ()

end Visitors

mutual
/-- `preorder(Node*, std::vector<TType>&)` for a node. -/
def preorderInto : Node ε σ TType → List TType → List TType
  | .node content children, result => preorderIntoAll children (result ++ [content.data])

def preorderIntoAll : List (Node ε σ TType) → List TType → List TType
  | [], result => result
  | child :: children, result => preorderIntoAll children (preorderInto child result)
end

mutual
/-- `postorder(Node*, std::vector<TType>&)` for a node. -/
def postorderInto : Node ε σ TType → List TType → List TType
  | .node content children, result => postorderIntoAll children result ++ [content.data]

def postorderIntoAll : List (Node ε σ TType) → List TType → List TType
  | [], result => result
  | child :: children, result => postorderIntoAll children (postorderInto child result)
end

/-- `preorderValues`. -/
def preorderValues (tree : NAryTree ε σ TType) : List TType :=
  match tree.root with
  | none => []
  | some root => preorderInto root []

/-- `postorderValues`. -/
def postorderValues (tree : NAryTree ε σ TType) : List TType :=
  match tree.root with
  | none => []
  | some root => postorderInto root []

/-! ### What the traversals list -/

/-- The nodes with their values, in the order of the visits. -/
def entries (order : Order) (tree : NAryTree ε σ TType) : List (Position × TType) :=
  match tree.root with
  | none => []
  | some root => (visit order root).map fun entry => (entry.1, entry.2.data)

/-- Each node of the tree is listed once, with its value. -/
theorem entries_spec (order : Order) (tree : NAryTree ε σ TType) :
    ((tree.entries order).map Prod.fst).Nodup ∧
      ∀ position value, (position, value) ∈ tree.entries order ↔
        ∃ node, tree.nodeAt position = some node ∧ node.label.data = value := by
  unfold entries nodeAt
  cases tree.root with
  | none => simp
  | some root =>
    constructor
    · rw [List.map_map]
      exact OrderedTree.visit_nodup order root
    · intro position value
      constructor
      · intro member
        obtain ⟨⟨_, content⟩, visited, same⟩ := List.mem_map.mp member
        cases same
        obtain ⟨node, found, rfl⟩ := OrderedTree.mem_visit.mp visited
        exact ⟨node, found, rfl⟩
      · rintro ⟨node, found, rfl⟩
        exact List.mem_map.mpr ⟨(position, node.label), OrderedTree.mem_visit.mpr ⟨node, found, rfl⟩, rfl⟩

/-- The values of a list of places. -/
def valuesOf (entries : List (Position × NodeContent ε σ TType)) : List TType := entries.map fun entry => entry.2.data

@[simp] theorem valuesOf_append (first second : List (Position × NodeContent ε σ TType)) :
    valuesOf (first ++ second) = valuesOf first ++ valuesOf second := List.map_append

@[simp] theorem valuesOf_within (position : Position) (entries : List (Position × NodeContent ε σ TType)) :
    valuesOf (entries.map (within position)) = valuesOf entries := by
  simp [valuesOf, within]

/-- A loop over the children pushes what the visits of the children push. -/
theorem intoAll_eq {order : Order} {into : Node ε σ TType → List TType → List TType}
    (intoAll : List (Node ε σ TType) → List TType → List TType) (nil : ∀ result, intoAll [] result = result)
    (cons : ∀ child children result, intoAll (child :: children) result = intoAll children (into child result))
    {children : List (Node ε σ TType)}
    (each : ∀ child ∈ children, ∀ result, into child result = result ++ valuesOf (visit order child))
    (index : Nat) (result : List TType) :
    intoAll children result = result ++ valuesOf (visitAll order index children) := by
  induction children generalizing index result with
  | nil => simp [nil, visitAll, valuesOf]
  | cons child children ih =>
    rw [cons, each child (List.mem_cons_self ..),
      ih (fun other member => each other (List.mem_cons_of_mem _ member)) (index + 1)]
    simp [visitAll]

theorem preorderInto_eq (node : Node ε σ TType) (result : List TType) :
    preorderInto node result = result ++ valuesOf (visit .preorder node) := by
  induction node using OrderedTree.induct generalizing result with
  | node content children ih =>
    rw [preorderInto, intoAll_eq preorderIntoAll (fun _ => rfl) (fun _ _ _ => rfl) ih 0]
    simp [OrderedTree.visit_node, Order.opening, Order.closing, valuesOf]

theorem postorderInto_eq (node : Node ε σ TType) (result : List TType) :
    postorderInto node result = result ++ valuesOf (visit .postorder node) := by
  induction node using OrderedTree.induct generalizing result with
  | node content children ih =>
    rw [postorderInto, intoAll_eq postorderIntoAll (fun _ => rfl) (fun _ _ _ => rfl) ih 0]
    simp [OrderedTree.visit_node, Order.opening, Order.closing, valuesOf]

theorem preorderValues_eq (tree : NAryTree ε σ TType) :
    tree.preorderValues = (tree.entries .preorder).map Prod.snd := by
  unfold preorderValues entries
  cases tree.root with
  | none => rfl
  | some root => simp [preorderInto_eq, valuesOf]

theorem postorderValues_eq (tree : NAryTree ε σ TType) :
    tree.postorderValues = (tree.entries .postorder).map Prod.snd := by
  unfold postorderValues entries
  cases tree.root with
  | none => rfl
  | some root => simp [postorderInto_eq, valuesOf]

section Visitors
variable {ε' τ : Type} {funct : TType → Program ε' τ Unit}

/-- A loop over the children calls the function on what the visits of the children list. -/
theorem visitAll_calls {order : Order} {run : Node ε σ TType → Program ε' τ Unit}
    (runAll : List (Node ε σ TType) → Program ε' τ Unit) (nil : runAll [] = pure ())
    (cons : ∀ child children, runAll (child :: children) = (do run child; runAll children))
    {children : List (Node ε σ TType)}
    (each : ∀ child ∈ children, run child = (valuesOf (visit order child)).forM funct) (index : Nat) :
    runAll children = (valuesOf (visitAll order index children)).forM funct := by
  induction children generalizing index with
  | nil => exact nil
  | cons child children ih =>
    rw [cons, each child (List.mem_cons_self ..),
      ih (fun other member => each other (List.mem_cons_of_mem _ member)) (index + 1)]
    simp [visitAll]

theorem preorderVisit_eq (node : Node ε σ TType) :
    preorderVisit funct node = (valuesOf (visit .preorder node)).forM funct := by
  induction node using OrderedTree.induct with
  | node content children ih =>
    rw [preorderVisit, visitAll_calls (preorderVisitAll funct) rfl (fun _ _ => rfl) ih 0]
    simp [OrderedTree.visit_node, Order.opening, Order.closing, valuesOf]

theorem postorderVisit_eq (node : Node ε σ TType) :
    postorderVisit funct node = (valuesOf (visit .postorder node)).forM funct := by
  induction node using OrderedTree.induct with
  | node content children ih =>
    rw [postorderVisit, visitAll_calls (postorderVisitAll funct) rfl (fun _ _ => rfl) ih 0]
    simp [OrderedTree.visit_node, Order.opening, Order.closing, valuesOf]

end Visitors

/-- The visitors call their function on what the vectors list, and both list
the values of the nodes in their order. -/
structure OverloadsAgree (tree : NAryTree ε σ TType) : Prop where
  preorderValues : tree.preorderValues = (tree.entries .preorder).map Prod.snd
  postorderValues : tree.postorderValues = (tree.entries .postorder).map Prod.snd
  preorder : ∀ {ε' τ : Type} (funct : TType → Program ε' τ Unit),
    preorder funct tree.root = tree.preorderValues.forM funct
  postorder : ∀ {ε' τ : Type} (funct : TType → Program ε' τ Unit),
    postorder funct tree.root = tree.postorderValues.forM funct

theorem overloadsAgree (tree : NAryTree ε σ TType) : OverloadsAgree tree := by
  refine ⟨preorderValues_eq tree, postorderValues_eq tree, fun funct => ?_, fun funct => ?_⟩
  · unfold NAryTree.preorderValues NAryTree.preorder
    cases tree.root with
    | none => rfl
    | some root => simp only [preorderVisit_eq, preorderInto_eq, List.nil_append]
  · unfold NAryTree.postorderValues NAryTree.postorder
    cases tree.root with
    | none => rfl
    | some root => simp only [postorderVisit_eq, postorderInto_eq, List.nil_append]

/-! ### Adding a child -/

/-- One more item, right behind the last of those inside. -/
def InsertedBehindLast {α : Type} (inside : α → Prop) (item : α) (before after : List α) : Prop :=
  ∃ left last right, before = left ++ last :: right ∧ inside last ∧ (∀ other ∈ right, ¬ inside other) ∧
    after = left ++ last :: item :: right

/-- One more item, right before the only one that is here. -/
def InsertedBefore {α : Type} (here : α → Prop) (item : α) (before after : List α) : Prop :=
  ∃ left this right, before = left ++ this :: right ∧ here this ∧ (∀ other ∈ left ++ right, ¬ here other) ∧
    after = left ++ item :: this :: right

theorem InsertedBehindLast.perm {α : Type} {inside : α → Prop} {item : α} {before after : List α}
    (inserted : InsertedBehindLast inside item before after) : after.Perm (item :: before) := by
  obtain ⟨left, last, right, rfl, _, _, rfl⟩ := inserted
  have moved : (left ++ [last] ++ item :: right).Perm (item :: (left ++ [last] ++ right)) := List.perm_middle
  simpa using moved

theorem InsertedBefore.perm {α : Type} {here : α → Prop} {item : α} {before after : List α}
    (inserted : InsertedBefore here item before after) : after.Perm (item :: before) := by
  obtain ⟨left, this, right, rfl, _, _, rfl⟩ := inserted
  exact List.perm_middle

theorem InsertedBehindLast.of_block {α : Type} {inside : α → Prop} {left block right : List α} (item : α)
    (nonempty : block ≠ []) (stretch : ∀ other ∈ block, inside other) (apart : ∀ other ∈ right, ¬ inside other) :
    InsertedBehindLast inside item (left ++ block ++ right) (left ++ (block ++ [item]) ++ right) := by
  rcases List.eq_nil_or_concat block with rfl | ⟨front, last, rfl⟩
  · exact absurd rfl nonempty
  · exact ⟨left ++ front, last, right, by simp, stretch last (by simp), apart, by simp⟩

/-- The new child is behind all that is below its parent in preorder, and
before its parent in postorder, and nothing else has changed. -/
structure AddsChild (before : NAryTree ε σ TType) (parent child : Position) (value : TType)
    (after : NAryTree ε σ TType) : Prop where
  preorder : InsertedBehindLast (parent <+: ·.1) (child, value) (before.entries .preorder) (after.entries .preorder)
  postorder : InsertedBefore (·.1 = parent) (child, value) (before.entries .postorder) (after.entries .postorder)

/-- The place of a node with its value. -/
def valued (entry : Position × NodeContent ε σ TType) : Position × TType := (entry.1, entry.2.data)

theorem entries_some {tree : NAryTree ε σ TType} {root : Node ε σ TType} (rooted : tree.root = some root)
    (order : Order) : tree.entries order = (visit order root).map valued := by
  unfold entries
  rw [rooted]
  rfl

theorem visit_new (order : Order) (value : TType) (position : Position) :
    ((visit order (Node.new value : Node ε σ TType)).map (within position)).map valued = [(position, value)] := by
  cases order <;> simp [within, valued, Node.new, OrderedTree.visit_node, visitAll, Order.opening, Order.closing]

theorem addChild_preorder {root node : Node ε σ TType} {position : Position}
    (found : root.subtree position = some node) (value : TType) :
    InsertedBehindLast (position <+: ·.1) (position ++ [node.children.length], value)
      ((visit .preorder root).map valued)
      ((visit .preorder (root.change (Node.addChild · value) position)).map valued) := by
  obtain ⟨left, right, apart, same, changed⟩ := OrderedTree.visit_change .preorder found
  have nonempty : visit .preorder node ≠ [] :=
    List.ne_nil_of_mem (OrderedTree.mem_visit.mpr ⟨node, OrderedTree.subtree_nil node, rfl⟩)
  rw [same, changed, Node.addChild, OrderedTree.preorder_addLast]
  simp only [List.map_append, OrderedTree.map_within_map_within, visit_new]
  refine InsertedBehindLast.of_block _ (by simpa using nonempty) ?_ ?_
  · intro other member
    obtain ⟨entry, mapped, rfl⟩ := List.mem_map.mp member
    obtain ⟨entry, _, rfl⟩ := List.mem_map.mp mapped
    exact List.prefix_append position entry.1
  · intro other mapped
    obtain ⟨entry, member, rfl⟩ := List.mem_map.mp mapped
    exact apart entry (List.mem_append_right _ member)

theorem addChild_postorder {root node : Node ε σ TType} {position : Position}
    (found : root.subtree position = some node) (value : TType) :
    InsertedBefore (·.1 = position) (position ++ [node.children.length], value)
      ((visit .postorder root).map valued)
      ((visit .postorder (root.change (Node.addChild · value) position)).map valued) := by
  obtain ⟨left, right, apart, same, changed⟩ := OrderedTree.visit_change .postorder found
  obtain ⟨below, proper, alone, added⟩ := OrderedTree.postorder_addLast node (Node.new value)
  rw [same, changed, Node.addChild, alone, added]
  simp only [List.map_append, OrderedTree.map_within_map_within, visit_new]
  refine ⟨left.map valued ++ (below.map (within position)).map valued, (position, node.label.data), right.map valued,
    ?_, rfl, ?_, ?_⟩
  · simp [within, valued]
  · intro other member elsewhere
    simp only [List.mem_append, or_assoc] at member
    rcases member with outside | inside | outside
    · obtain ⟨entry, member, rfl⟩ := List.mem_map.mp outside
      exact apart entry (List.mem_append_left _ member) (elsewhere ▸ List.prefix_rfl)
    · obtain ⟨entry, mapped, rfl⟩ := List.mem_map.mp inside
      obtain ⟨entry, member, rfl⟩ := List.mem_map.mp mapped
      exact proper entry member (List.append_right_eq_self.mp elsewhere)
    · obtain ⟨entry, member, rfl⟩ := List.mem_map.mp outside
      exact apart entry (List.mem_append_right _ member) (elsewhere ▸ List.prefix_rfl)
  · simp [within, valued]

theorem addChild_returns {tree : NAryTree ε σ TType} {node : Node ε σ TType} {position : Position}
    (found : tree.nodeAt position = some node) (value : TType) :
    ∃ after, (addChild (some position) value).run tree = .ok (some (position ++ [node.children.length])) after ∧
      AddsChild tree position (position ++ [node.children.length]) value after := by
  obtain ⟨root, rooted, inside⟩ := Option.bind_eq_some_iff.mp found
  obtain ⟨_⟩ := tree
  subst rooted
  refine ⟨⟨some (root.change (Node.addChild · value) position)⟩, ?_, addChild_preorder inside value,
    addChild_postorder inside value⟩
  simp [addChild, found]

/-! ### Runs -/

/-- A call of the tree's user. -/
inductive Call (ε σ TType : Type) where
  | setRoot (value : TType)
  | addChild (parent : Option Position) (value : TType)
  | addChildToRoot (value : TType)
  | setParentFunct (node : Option Position) (func : Option (List TType → Program ε σ TType))

/-- Performs a call; the result is the pointer it hands out. -/
def perform : Call ε σ TType → Program Exn (NAryTree ε σ TType) (Option Position)
  | .setRoot value => setRoot value
  | .addChild parent value => addChild parent value
  | .addChildToRoot value => addChildToRoot value
  | .setParentFunct node func => setParentFunct node func

/-- The value a call puts into the tree. There is one root, and nothing is put
below a null pointer. -/
def inserts (tree : NAryTree ε σ TType) : Call ε σ TType → List TType
  | .setRoot value => if tree.root.isNone then [value] else []
  | .addChild parent value => if parent.isSome then [value] else []
  | .addChildToRoot value => if tree.root.isSome then [value] else []
  | .setParentFunct _ _ => []

/-- Performs calls one after the other and collects what they put into the tree. -/
def build : List (Call ε σ TType) → Program Exn (NAryTree ε σ TType) (List TType)
  | [] => pure []
  | call :: calls => do
    let tree ← get
    let _ ← perform call
    let inserted ← build calls
    pure (tree.inserts call ++ inserted)

/-- The values of the nodes, in the order of the visits. -/
def values (order : Order) (tree : NAryTree ε σ TType) : List TType := (tree.entries order).map Prod.snd

theorem setParentFunct_entries {root node : Node ε σ TType} {position : Position} (order : Order)
    (found : root.subtree position = some node) (func : Option (List TType → Program ε σ TType)) :
    (visit order (root.change (Node.setParentFunct func) position)).map valued = (visit order root).map valued := by
  obtain ⟨left, right, _, same, changed⟩ := OrderedTree.visit_change order found
  obtain ⟨content, children⟩ := node
  rw [same, changed]
  cases order <;>
    simp [Node.setParentFunct, OrderedTree.visit_node, Order.opening, Order.closing, within, valued]

theorem AddsChild.values {before after : NAryTree ε σ TType} {parent child : Position} {value : TType}
    (adds : AddsChild before parent child value after) (order : Order) :
    (after.values order).Perm (before.values order ++ [value]) := by
  have entries : (after.entries order).Perm ((child, value) :: before.entries order) := by
    cases order with
    | preorder => exact adds.preorder.perm
    | postorder => exact adds.postorder.perm
  exact (entries.map Prod.snd).trans (List.perm_append_singleton _ _).symm

theorem addChild_values {parent : Option Position} {value : TType} {before after : NAryTree ε σ TType} (order : Order)
    (ran : (addChild parent value).run before = .ok answer after) :
    (after.values order).Perm (before.values order ++ if parent.isSome then [value] else []) := by
  cases parent with
  | none =>
    cases ran
    simp
  | some position =>
    cases found : before.nodeAt position with
    | none => simp [addChild, found] at ran
    | some node =>
      obtain ⟨_, returned, adds⟩ := addChild_returns found value
      cases returned.symm.trans ran
      exact adds.values order

/-- A call puts in what it says, and keeps everything else. -/
theorem perform_values {call : Call ε σ TType} {before after : NAryTree ε σ TType} (order : Order)
    (ran : (perform call).run before = .ok answer after) :
    (after.values order).Perm (before.values order ++ before.inserts call) := by
  obtain ⟨root⟩ := before
  cases call with
  | setRoot value =>
    cases root with
    | none =>
      cases ran
      cases order <;> exact List.Perm.refl _
    | some root =>
      cases ran
      simp [inserts]
  | addChild parent value => exact addChild_values order ran
  | addChildToRoot value =>
    cases root with
    | none =>
      cases ran
      simp [inserts]
    | some root =>
      have below : (perform (.addChildToRoot value)).run ⟨some root⟩ =
          (addChild (some []) value).run ⟨some root⟩ := rfl
      rw [below] at ran
      exact addChild_values order ran
  | setParentFunct node func =>
    cases node with
    | none => cases ran
    | some position =>
      cases root with
      | none => cases ran
      | some root =>
        cases found : root.subtree position with
        | none => simp [perform, setParentFunct, nodeAt, found] at ran
        | some inner =>
          simp only [perform, setParentFunct, EStateM.run_bind, EStateM.run_get, Option.bind_some, nodeAt, found,
            Option.getD_some] at ran
          cases ran
          simp [inserts, values, entries_some rfl, setParentFunct_entries order found func]

theorem build_values {calls : List (Call ε σ TType)} {before after : NAryTree ε σ TType} (order : Order)
    (ran : (build calls).run before = .ok inserted after) :
    (after.values order).Perm (before.values order ++ inserted) := by
  induction calls generalizing before inserted with
  | nil =>
    cases ran
    simp
  | cons call calls ih =>
    obtain ⟨_, _, here, ran⟩ := bind_returns.mp ran
    cases here
    obtain ⟨_, middle, performed, ran⟩ := bind_returns.mp ran
    obtain ⟨rest, _, built, ended⟩ := bind_returns.mp ran
    cases ended
    have grown := (perform_values order performed).append_right rest
    rw [List.append_assoc] at grown
    exact (ih built).trans grown

/-- All overloads go through the nodes of the tree in their order; a new child
comes into either order in one place; and after any calls, a tree has the values
they have put in, as often as they have. -/
theorem addChild_traversals (tree : NAryTree ε σ TType) :
    OverloadsAgree tree ∧
      (∀ position node value, tree.nodeAt position = some node →
        ∃ after, (addChild (some position) value).run tree = .ok (some (position ++ [node.children.length])) after ∧
          AddsChild tree position (position ++ [node.children.length]) value after) ∧
      ∀ calls inserted, (build calls).run new = .ok inserted tree →
        tree.preorderValues.Perm inserted ∧ tree.postorderValues.Perm inserted := by
  refine ⟨overloadsAgree tree, fun position node value found => addChild_returns found value,
    fun calls inserted ran => ⟨?_, ?_⟩⟩
  · rw [preorderValues_eq]
    exact build_values .preorder ran
  · rw [postorderValues_eq]
    exact build_values .postorder ran

/-- The tree of the header's comment. -/
def documented : List (Call Exn Unit Nat) :=
  [.setRoot 1, .addChild (some []) 2, .addChildToRoot 3, .addChild (some [0]) 4, .addChild (some [0]) 5,
    .addChild (some [1]) 6]

example : ((outcome (build documented) new).map fun (_, tree) => (tree.preorderValues, tree.postorderValues)) =
    some ([1, 2, 4, 5, 3, 6], [4, 5, 2, 6, 3, 1]) := by rfl

end NAryTree
end Libftpp
