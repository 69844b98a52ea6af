import Mathlib.Data.List.Perm.Basic
import Libftpp.NAryTree

/-! What two traversals tell of a tree. With labels that are all different, the
preorder names the first tree of a forest and the postorder says where it ends, so
both together leave no choice. For an `NAryTree` (`n_ary_tree.hpp`) this makes
`preorderValues` and `postorderValues` a complete description. -/
namespace Libftpp

namespace OrderedTree
variable {α β : Type}

/-- The keys of a tree in the order of the visits. -/
def keys (key : α → β) (order : Order) (tree : OrderedTree α) : List β :=
  (visit order tree).map fun entry => key entry.2

/-- The same for trees in a row. -/
def keysAll (key : α → β) (order : Order) (forest : List (OrderedTree α)) : List β :=
  forest.flatMap (keys key order)

/-- The places of trees in a row with their keys. -/
def keyed (key : α → β) (order : Order) (index : Nat) (forest : List (OrderedTree α)) : List (Position × β) :=
  (visitAll order index forest).map (Prod.map id key)

variable {key : α → β} {order : Order}

theorem keys_visitAll (order : Order) (index : Nat) (forest : List (OrderedTree α)) :
    (visitAll order index forest).map (fun entry => key entry.2) = keysAll key order forest := by
  induction forest generalizing index with
  | nil => rfl
  | cons tree forest ih =>
    rw [visitAll, List.map_append, ih, List.map_map]
    rfl

theorem keys_preorder (label : α) (children : List (OrderedTree α)) :
    keys key .preorder (node label children) = key label :: keysAll key .preorder children := by
  rw [← keys_visitAll .preorder 0]
  simp [keys, visit_node, Order.opening, Order.closing]

theorem keys_postorder (label : α) (children : List (OrderedTree α)) :
    keys key .postorder (node label children) = keysAll key .postorder children ++ [key label] := by
  rw [← keys_visitAll .postorder 0]
  simp [keys, visit_node, Order.opening, Order.closing]

theorem keysAll_cons (order : Order) (tree : OrderedTree α) (forest : List (OrderedTree α)) :
    keysAll key order (tree :: forest) = keys key order tree ++ keysAll key order forest := rfl

/-- Both orders list the same keys. -/
theorem keys_perm (tree : OrderedTree α) : (keys key .preorder tree).Perm (keys key .postorder tree) := by
  induction tree with
  | node label children ih =>
    rw [keys_preorder, keys_postorder]
    have inner : (keysAll key .preorder children).Perm (keysAll key .postorder children) :=
      List.Perm.flatMap_left _ ih
    exact (inner.cons _).trans (List.perm_append_singleton _ _).symm

theorem keysAll_perm (forest : List (OrderedTree α)) :
    (keysAll key .preorder forest).Perm (keysAll key .postorder forest) :=
  List.Perm.flatMap_left _ fun tree _ => keys_perm tree

theorem keyed_cons (order : Order) (index : Nat) (label : α) (children forest : List (OrderedTree α)) :
    keyed key order index (node label children :: forest) =
      (order.opening ([], key label) ++ keyed key order 0 children ++ order.closing ([], key label)).map (within [index]) ++
        keyed key order (index + 1) forest := by
  cases order <;> simp [keyed, visitAll, visit_node, Order.opening, Order.closing, within, Prod.map]

/-- Trees in a row, whose keys are all different, are determined by two traversals. -/
theorem keyed_eq_of_traversals {first second : List (OrderedTree α)} (distinct : (keysAll key .preorder first).Nodup)
    (pre : keysAll key .preorder first = keysAll key .preorder second)
    (post : keysAll key .postorder first = keysAll key .postorder second) (order : Order) (index : Nat) :
    keyed key order index first = keyed key order index second := by
  induction size : (keysAll key .preorder first).length using Nat.strong_induction_on
    generalizing first second index with
  | _ size ih =>
    rcases first with _ | ⟨⟨label, children⟩, rest⟩ <;> rcases second with _ | ⟨⟨label', children'⟩, rest'⟩
    · rfl
    · simp [keysAll, keys_preorder] at pre
    · simp [keysAll, keys_preorder] at pre
    · rw [keysAll_cons, keys_preorder, List.cons_append] at distinct pre size
      rw [keysAll_cons, keys_preorder, List.cons_append] at pre
      rw [keysAll_cons, keysAll_cons, keys_postorder, keys_postorder, List.append_assoc, List.append_assoc] at post
      obtain ⟨apart, distinct⟩ := List.nodup_cons.mp distinct
      obtain ⟨root, pre⟩ := List.cons.inj pre
      rw [List.mem_append, not_or] at apart
      obtain ⟨distinctInner, distinctRest, _⟩ := List.nodup_append.mp distinct
      -- The root is the only place where the postorders can be cut.
      have outside : key label' ∉ keysAll key .postorder children := by
        rw [← root, ← (keysAll_perm children).mem_iff]
        exact apart.1
      have behind : key label' ∉ keysAll key .postorder rest := by
        rw [← root, ← (keysAll_perm rest).mem_iff]
        exact apart.2
      obtain ⟨postInner, _, postRest⟩ := (List.append_cons_inj_of_notMem outside behind).mp post
      have lengths : (keysAll key .preorder children).length = (keysAll key .preorder children').length := by
        rw [(keysAll_perm children).length_eq, (keysAll_perm children').length_eq, postInner]
      obtain ⟨preInner, preRest⟩ := List.append_inj pre lengths
      rw [List.length_cons, List.length_append] at size
      have inner := ih _ (by omega) distinctInner preInner postInner 0 rfl
      have others := ih _ (by omega) distinctRest preRest postRest (index + 1) rfl
      rw [keyed_cons, keyed_cons, root, inner, others]

/-- The same for one tree. -/
theorem visit_eq_of_traversals {tree tree' : OrderedTree α} (distinct : (keys key .preorder tree).Nodup)
    (pre : keys key .preorder tree = keys key .preorder tree')
    (post : keys key .postorder tree = keys key .postorder tree') (order : Order) :
    (visit order tree).map (Prod.map id key) = (visit order tree').map (Prod.map id key) := by
  have one : ∀ order (tree : OrderedTree α), keysAll key order [tree] = keys key order tree :=
    fun order tree => List.append_nil _
  have row : ∀ tree : OrderedTree α,
      keyed key order 0 [tree] = ((visit order tree).map (Prod.map id key)).map (within [0]) := by
    intro tree
    simp only [keyed, visitAll, List.append_nil, List.map_map]
    rfl
  rw [← one] at distinct
  rw [← one, ← one .preorder tree'] at pre
  rw [← one, ← one .postorder tree'] at post
  have same := keyed_eq_of_traversals distinct pre post order 0
  rw [row, row] at same
  refine List.map_injective_iff.mpr ?_ same
  rintro ⟨position, value⟩ ⟨position', value'⟩ equal
  simpa [within] using equal

end OrderedTree

namespace NAryTree
open OrderedTree Program
variable {ε σ TType : Type}

/-- The traversals list the keys of the root. -/
theorem traversals_some {tree : NAryTree ε σ TType} {root : Node ε σ TType} (rooted : tree.root = some root) :
    tree.preorderValues = keys NodeContent.data .preorder root ∧
      tree.postorderValues = keys NodeContent.data .postorder root := by
  rw [preorderValues_eq, postorderValues_eq, entries, entries, rooted]
  simp [keys]

theorem traversals_none {tree : NAryTree ε σ TType} (empty : tree.root = none) : tree.preorderValues = [] := by
  rw [preorderValues, empty]

theorem keys_ne_nil (root : Node ε σ TType) : keys NodeContent.data .preorder root ≠ [] := by
  cases root
  rw [keys_preorder]
  exact List.cons_ne_nil _ _

/-- Two trees with different values at their nodes that list the same values in
preorder and in postorder have the same values at the same places. -/
theorem traversals_determine_tree {tree tree' : NAryTree ε σ TType} (distinct : tree.preorderValues.Nodup)
    (pre : tree.preorderValues = tree'.preorderValues) (post : tree.postorderValues = tree'.postorderValues)
    (order : Order) : tree.entries order = tree'.entries order := by
  rcases rooted : tree.root with _ | root <;> rcases rooted' : tree'.root with _ | root'
  · rw [entries, entries, rooted, rooted']
  · rw [traversals_none rooted, (traversals_some rooted').1] at pre
    exact absurd pre.symm (keys_ne_nil root')
  · rw [traversals_none rooted', (traversals_some rooted).1] at pre
    exact absurd pre (keys_ne_nil root)
  · rw [(traversals_some rooted).1] at distinct pre
    rw [(traversals_some rooted').1] at pre
    rw [(traversals_some rooted).2, (traversals_some rooted').2] at post
    rw [entries, entries, rooted, rooted']
    exact visit_eq_of_traversals distinct pre post order

/-- The calls of the header's comment, and the same branch by branch. -/
def documentedBranches : List (Call Exn Unit Nat) :=
  [.setRoot 1, .addChild (some []) 2, .addChild (some [0]) 4, .addChild (some [0]) 5, .addChildToRoot 3,
    .addChild (some [1]) 6]

theorem traversals_determine_documented : ∃ tree tree' : NAryTree Exn Unit Nat,
    tree.preorderValues = [1, 2, 4, 5, 3, 6] ∧ tree.entries .postorder = tree'.entries .postorder :=
  ⟨((outcome (build documented) new).get rfl).2, ((outcome (build documentedBranches) new).get rfl).2, rfl,
    traversals_determine_tree (by decide +kernel) rfl rfl .postorder⟩

end NAryTree
end Libftpp
