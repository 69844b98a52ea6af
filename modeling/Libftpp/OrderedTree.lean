import Mathlib.Data.List.Infix
import Mathlib.Data.List.Nodup

/-! Trees whose nodes carry a label and have their children in a row. A node is
named by the way down to it, since the same label, and the same subtree, may
stand at several places. A node is visited before its children or behind them;
either way every place comes once, and those of a subtree one after the other. -/
namespace Libftpp

inductive OrderedTree (α : Type) where
  | node (label : α) (children : List (OrderedTree α))

namespace OrderedTree
variable {α β : Type}

def label : OrderedTree α → α
  | node label _ => label

def children : OrderedTree α → List (OrderedTree α)
  | node _ children => children

variable {tree inner : OrderedTree α} {label : α} {children : List (OrderedTree α)}

@[simp] theorem label_node : (node label children).label = label := rfl

@[simp] theorem children_node : (node label children).children = children := rfl

/-- What holds of a node if it holds of its children, holds of every tree. -/
@[elab_as_elim, induction_eliminator]
theorem induct {motive : OrderedTree α → Prop}
    (node : ∀ label children, (∀ child ∈ children, motive child) → motive (.node label children)) :
    ∀ tree, motive tree
  | .node label children => node label children fun child _ => induct node child

/-! ### Places -/

/-- The way from the root down to a node: which child to take at each level. -/
abbrev Position := List Nat

/-- The node at a position, with all that is below it. -/
def subtree : OrderedTree α → Position → Option (OrderedTree α)
  | tree, [] => some tree
  | node _ children, index :: rest => children[index]?.bind (subtree · rest)

/-- The tree with another node, and what is to be below it, at a position. -/
def change (f : OrderedTree α → OrderedTree α) : OrderedTree α → Position → OrderedTree α
  | tree, [] => f tree
  | node label children, index :: rest => node label (children.modify index (change f · rest))

@[simp] theorem subtree_nil (tree : OrderedTree α) : tree.subtree [] = some tree := by
  cases tree
  rfl

@[simp] theorem change_nil (f : OrderedTree α → OrderedTree α) (tree : OrderedTree α) : tree.change f [] = f tree := by
  cases tree
  rfl

@[simp] theorem subtree_cons (index : Nat) (rest : Position) :
    (node label children).subtree (index :: rest) = children[index]?.bind (subtree · rest) := rfl

/-! ### Visits -/

/-- A node comes before its children or behind them. -/
inductive Order where
  | preorder
  | postorder

/-- What is said of a node before its children. -/
def Order.opening (order : Order) (own : β) : List β :=
  match order with
  | .preorder => [own]
  | .postorder => []

/-- What is said of a node behind its children. -/
def Order.closing (order : Order) (own : β) : List β :=
  match order with
  | .preorder => []
  | .postorder => [own]

/-- A place in a subtree at this position, seen from the whole tree. -/
def within (position : Position) (entry : Position × α) : Position × α := (position ++ entry.1, entry.2)

mutual
/-- The places of a tree with their labels, in the order of the visits. -/
def visit (order : Order) : OrderedTree α → List (Position × α)
  | node label children =>
    order.opening ([], label) ++ visitAll order 0 children ++ order.closing ([], label)

/-- The same for children in a row, the first of which has this index. -/
def visitAll (order : Order) : Nat → List (OrderedTree α) → List (Position × α)
  | _, [] => []
  | index, child :: children => (visit order child).map (within [index]) ++ visitAll order (index + 1) children
end

variable {order : Order}

theorem visit_node (order : Order) (label : α) (children : List (OrderedTree α)) :
    visit order (node label children) =
      order.opening ([], label) ++ visitAll order 0 children ++ order.closing ([], label) := rfl

@[simp] theorem within_nil : within [] = (id : Position × α → Position × α) := rfl

theorem map_within_map_within (outer position : Position) (entries : List (Position × α)) :
    (entries.map (within position)).map (within outer) = entries.map (within (outer ++ position)) := by
  simp [within, List.append_assoc]

/-- The order decides only where a node itself stands. -/
theorem visit_perm (order : Order) (label : α) (children : List (OrderedTree α)) :
    (visit order (node label children)).Perm (([], label) :: visitAll order 0 children) := by
  cases order with
  | preorder => simp [visit_node, Order.opening, Order.closing]
  | postorder => simp [visit_node, Order.opening, Order.closing]

theorem visitAll_append (order : Order) (index : Nat) (first second : List (OrderedTree α)) :
    visitAll order index (first ++ second) =
      visitAll order index first ++ visitAll order (index + first.length) second := by
  induction first generalizing index with
  | nil => rfl
  | cons child first ih =>
    rw [List.cons_append, visitAll, visitAll, ih, List.append_assoc, List.length_cons, Nat.add_assoc,
      Nat.add_comm 1]

theorem mem_visitAll {index : Nat} {position : Position} :
    (position, label) ∈ visitAll order index children ↔
      ∃ offset child rest, children[offset]? = some child ∧ position = (index + offset) :: rest ∧
        (rest, label) ∈ visit order child := by
  induction children generalizing index with
  | nil => simp [visitAll]
  | cons first children ih =>
    rw [visitAll, List.mem_append, ih]
    constructor
    · rintro (mapped | ⟨offset, child, rest, found, rfl, member⟩)
      · obtain ⟨⟨rest, same⟩, member, entry⟩ := List.mem_map.mp mapped
        cases entry
        exact ⟨0, first, rest, rfl, rfl, member⟩
      · exact ⟨offset + 1, child, rest, found, by rw [Nat.add_right_comm, Nat.add_assoc], member⟩
    · rintro ⟨offset, child, rest, found, rfl, member⟩
      cases offset with
      | zero =>
        cases found
        exact Or.inl (List.mem_map.mpr ⟨(rest, label), member, rfl⟩)
      | succ offset => exact Or.inr ⟨offset, child, rest, found, by rw [Nat.add_right_comm, Nat.add_assoc], member⟩

/-- The places that are visited are those of the tree, with their labels. -/
theorem mem_visit {position : Position} :
    (position, label) ∈ visit order tree ↔ ∃ inner, tree.subtree position = some inner ∧ inner.label = label := by
  induction tree generalizing position label with
  | node own children ih =>
    rw [(visit_perm order own children).mem_iff, List.mem_cons, mem_visitAll]
    constructor
    · rintro (same | ⟨offset, child, rest, found, rfl, member⟩)
      · cases same
        exact ⟨_, subtree_nil _, rfl⟩
      · obtain ⟨inner, below, labelled⟩ := (ih child (List.mem_of_getElem? found)).mp member
        exact ⟨inner, by rw [Nat.zero_add, subtree_cons, found]; exact below, labelled⟩
    · rintro ⟨inner, found, labelled⟩
      cases position with
      | nil =>
        cases found
        exact Or.inl (labelled ▸ rfl)
      | cons index rest =>
        obtain ⟨child, there, below⟩ := Option.bind_eq_some_iff.mp found
        exact Or.inr ⟨index, child, rest, there, by rw [Nat.zero_add],
          (ih child (List.mem_of_getElem? there)).mpr ⟨inner, below, labelled⟩⟩

theorem visitAll_nodup (each : ∀ child ∈ children, ((visit order child).map Prod.fst).Nodup) (index : Nat) :
    ((visitAll order index children).map Prod.fst).Nodup := by
  induction children generalizing index with
  | nil => exact List.nodup_nil
  | cons child children ih =>
    rw [visitAll, List.map_append, List.nodup_append]
    refine ⟨?_, ih (fun other member => each other (List.mem_cons_of_mem _ member)) _, ?_⟩
    · have shifted : ((visit order child).map (within [index])).map Prod.fst =
          ((visit order child).map Prod.fst).map (index :: ·) := by simp [within]
      rw [shifted]
      exact (each child (List.mem_cons_self ..)).map fun _ _ same => (List.cons.inj same).2
    · rintro _ here position there rfl
      obtain ⟨_, mapped, rfl⟩ := List.mem_map.mp here
      obtain ⟨_, _, rfl⟩ := List.mem_map.mp mapped
      obtain ⟨⟨_, label⟩, member, same⟩ := List.mem_map.mp there
      obtain ⟨offset, _, rest, _, rfl, _⟩ := mem_visitAll.mp member
      have indices := (List.cons.inj same).1
      omega

/-- No place is visited twice. -/
theorem visit_nodup (order : Order) (tree : OrderedTree α) : ((visit order tree).map Prod.fst).Nodup := by
  induction tree with
  | node label children ih =>
    rw [((visit_perm order label children).map Prod.fst).nodup_iff, List.map_cons, List.nodup_cons]
    refine ⟨?_, visitAll_nodup ih 0⟩
    intro member
    obtain ⟨⟨position, other⟩, member, empty⟩ := List.mem_map.mp member
    obtain ⟨_, _, _, _, rfl, _⟩ := mem_visitAll.mp member
    cases empty

mutual
/-- The labels of the nodes without children, from left to right. -/
def leaves : OrderedTree α → List α
  | node label children => if children.isEmpty then [label] else leavesAll children

def leavesAll : List (OrderedTree α) → List α
  | [] => []
  | child :: children => leaves child ++ leavesAll children
end

/-! ### Trees that differ in one place -/

theorem not_prefix_root {index : Nat} {rest : Position} {entry : Position × α}
    (own : entry ∈ order.opening ([], label) ∨ entry ∈ order.closing ([], label)) : ¬ index :: rest <+: entry.1 := by
  have root : entry = ([], label) := by cases order <;> simpa [Order.opening, Order.closing] using own
  simp [root]

/-- Of children in a row, those with another index are not on the way. -/
theorem not_prefix_visitAll {start index : Nat} {rest : Position} {entry : Position × α}
    (member : entry ∈ visitAll order start children) (other : index < start ∨ start + children.length ≤ index) :
    ¬ index :: rest <+: entry.1 := by
  obtain ⟨position, label⟩ := entry
  obtain ⟨offset, child, below, found, rfl, _⟩ := mem_visitAll.mp member
  have inside := (List.getElem?_eq_some_iff.mp found).1
  rw [List.cons_prefix_cons]
  omega

/-- A subtree is visited in one go, and a change in it changes nothing else. -/
theorem visit_change {position : Position} (order : Order) (found : tree.subtree position = some inner) :
    ∃ left right : List (Position × α), (∀ entry ∈ left ++ right, ¬ position <+: entry.1) ∧
      visit order tree = left ++ (visit order inner).map (within position) ++ right ∧
      ∀ f, visit order (tree.change f position) = left ++ (visit order (f inner)).map (within position) ++ right := by
  induction position generalizing tree with
  | nil =>
    cases (subtree_nil tree).symm.trans found
    exact ⟨[], [], nofun, by simp, fun f => by simp [change_nil]⟩
  | cons index rest ih =>
    obtain ⟨label, children⟩ := tree
    obtain ⟨child, there, below⟩ := Option.bind_eq_some_iff.mp found
    obtain ⟨left, right, apart, same, changed⟩ := ih below
    obtain ⟨inside, rfl⟩ := List.getElem?_eq_some_iff.mp there
    have before : children = children.take index ++ children[index] :: children.drop (index + 1) := by simp
    have split (child : OrderedTree α) :
        visit order (node label (children.take index ++ child :: children.drop (index + 1))) =
          order.opening ([], label) ++ visitAll order 0 (children.take index) ++
            (visit order child).map (within [index]) ++
            (visitAll order (index + 1) (children.drop (index + 1)) ++ order.closing ([], label)) := by
      rw [visit_node, visitAll_append, visitAll, Nat.zero_add, List.length_take, Nat.min_eq_left (Nat.le_of_lt inside)]
      simp only [List.append_assoc]
    refine ⟨order.opening ([], label) ++ visitAll order 0 (children.take index) ++ left.map (within [index]),
      right.map (within [index]) ++ (visitAll order (index + 1) (children.drop (index + 1)) ++ order.closing ([], label)),
      ?_, ?_, fun f => ?_⟩
    · intro entry member
      simp only [List.mem_append, or_assoc] at member
      rcases member with own | beside | inside | inside | beside | own
      · exact not_prefix_root (Or.inl own)
      · exact not_prefix_visitAll beside (Or.inr (by rw [List.length_take]; omega))
      · obtain ⟨entry, member, rfl⟩ := List.mem_map.mp inside
        simpa [within] using apart entry (List.mem_append_left _ member)
      · obtain ⟨entry, member, rfl⟩ := List.mem_map.mp inside
        simpa [within] using apart entry (List.mem_append_right _ member)
      · exact not_prefix_visitAll beside (Or.inl (Nat.lt_succ_self _))
      · exact not_prefix_root (Or.inr own)
    · conv_lhs => rw [before, split, same]
      simp only [List.map_append, map_within_map_within, List.append_assoc, List.singleton_append]
    · rw [change, List.modify_eq_take_cons_drop inside, split, changed]
      simp only [List.map_append, map_within_map_within, List.append_assoc, List.singleton_append]

/-- The node with one more child, behind those it has. -/
def addLast : OrderedTree α → OrderedTree α → OrderedTree α
  | node label children, new => node label (children ++ [new])

/-- In preorder, a new last child stands behind all that is below its parent. -/
theorem preorder_addLast (tree new : OrderedTree α) :
    visit .preorder (tree.addLast new) =
      visit .preorder tree ++ (visit .preorder new).map (within [tree.children.length]) := by
  obtain ⟨label, children⟩ := tree
  simp [addLast, visit_node, visitAll_append, visitAll, Order.opening, Order.closing]

/-- In postorder, it stands right before its parent. -/
theorem postorder_addLast (tree new : OrderedTree α) :
    ∃ below : List (Position × α), (∀ entry ∈ below, entry.1 ≠ []) ∧
      visit .postorder tree = below ++ [([], tree.label)] ∧
      visit .postorder (tree.addLast new) =
        below ++ (visit .postorder new).map (within [tree.children.length]) ++ [([], tree.label)] := by
  obtain ⟨label, children⟩ := tree
  refine ⟨visitAll .postorder 0 children, ?_, by simp [visit_node, Order.opening, Order.closing],
    by simp [addLast, visit_node, visitAll_append, visitAll, Order.opening, Order.closing]⟩
  rintro ⟨position, other⟩ member
  obtain ⟨_, _, _, _, rfl, _⟩ := mem_visitAll.mp member
  exact List.cons_ne_nil _ _

/-! ### Descending only where a label allows it -/

mutual
/-- The tree without what is below the nodes that are not descended from. -/
def prune (descends : α → Bool) : OrderedTree α → OrderedTree α
  | node label children => node label (if descends label then pruneAll descends children else [])

def pruneAll (descends : α → Bool) : List (OrderedTree α) → List (OrderedTree α)
  | [] => []
  | child :: children => prune descends child :: pruneAll descends children
end

/-- All proper ancestors of the place are descended from. -/
def Reached (descends : α → Bool) (tree : OrderedTree α) (position : Position) : Prop :=
  ∀ ancestor, ancestor <+: position → ancestor ≠ position →
    ∃ node, tree.subtree ancestor = some node ∧ descends node.label = true

instance (descends : α → Bool) (tree : OrderedTree α) (position : Position) :
    Decidable (Reached descends tree position) :=
  decidable_of_iff
    (∀ ancestor ∈ position.inits, ancestor ≠ position →
      (tree.subtree ancestor).any (fun node => descends node.label) = true)
    (by simp [Reached, Option.any_eq_true])

variable {descends : α → Bool}

theorem reached_root (tree : OrderedTree α) : Reached descends tree [] :=
  fun _ before proper => absurd (List.prefix_nil.mp before) proper

theorem reached_cons {index : Nat} {rest : Position} {child : OrderedTree α} (there : children[index]? = some child) :
    Reached descends (node label children) (index :: rest) ↔ descends label = true ∧ Reached descends child rest := by
  constructor
  · intro reached
    obtain ⟨root, found, descending⟩ := reached [] List.nil_prefix nofun
    cases found
    refine ⟨descending, fun ancestor before proper => ?_⟩
    obtain ⟨inner, found, descending⟩ := reached (index :: ancestor) (List.prefix_cons_inj index |>.mpr before)
      (fun same => proper (List.cons.inj same).2)
    rw [subtree_cons, there] at found
    exact ⟨inner, found, descending⟩
  · rintro ⟨descending, reached⟩ ancestor before proper
    cases ancestor with
    | nil => exact ⟨_, subtree_nil _, descending⟩
    | cons first ancestor =>
      obtain ⟨rfl, rest_before⟩ := List.cons_prefix_cons.mp before
      obtain ⟨inner, found, descending⟩ := reached ancestor rest_before (fun same => proper (same ▸ rfl))
      exact ⟨inner, by rw [subtree_cons, there]; exact found, descending⟩

theorem visitAll_pruneAll {kept : Position × α → Bool} {start : Nat}
    (each : ∀ child ∈ children,
      visit order (prune descends child) = (visit order child).filter fun entry => Reached descends child entry.1)
    (agrees : ∀ offset child rest label, children[offset]? = some child →
      kept ((start + offset) :: rest, label) = decide (Reached descends child rest)) :
    visitAll order start (pruneAll descends children) = (visitAll order start children).filter kept := by
  induction children generalizing start with
  | nil => rfl
  | cons child children ih =>
    have first : kept ∘ within [start] = fun entry => decide (Reached descends child entry.1) := by
      funext entry
      exact agrees 0 child entry.1 entry.2 rfl
    rw [pruneAll, visitAll, visitAll, List.filter_append, List.filter_map, first, each child (List.mem_cons_self ..),
      ih (fun other member => each other (List.mem_cons_of_mem _ member))]
    intro offset other rest label found
    rw [Nat.add_assoc, Nat.add_comm 1]
    exact agrees (offset + 1) other rest label found

/-- Descending only where it is allowed, one visits the places whose proper
ancestors all allow it, in the same order. -/
theorem visit_prune (order : Order) (descends : α → Bool) (tree : OrderedTree α) :
    visit order (prune descends tree) =
      (visit order tree).filter fun entry => Reached descends tree entry.1 := by
  induction tree with
  | node label children ih =>
    have root : ∀ entry ∈ order.opening ([], label) ++ order.closing ([], label),
        decide (Reached descends (node label children) entry.1) = true := by
      intro entry member
      have same : entry = ([], label) := by cases order <;> simpa [Order.opening, Order.closing] using member
      rw [same]
      exact decide_eq_true (reached_root _)
    rw [prune, visit_node, visit_node, List.filter_append, List.filter_append,
      List.filter_eq_self.mpr fun entry member => root entry (List.mem_append_left _ member),
      List.filter_eq_self.mpr fun entry member => root entry (List.mem_append_right _ member)]
    congr 2
    by_cases descending : descends label = true
    · rw [if_pos descending]
      refine visitAll_pruneAll ih fun offset child rest own found => ?_
      rw [Nat.zero_add, decide_eq_decide, reached_cons found]
      exact and_iff_right descending
    · rw [if_neg descending]
      refine (List.filter_eq_nil_iff.mpr fun entry member => ?_).symm
      obtain ⟨position, other⟩ := entry
      obtain ⟨offset, child, rest, found, rfl, _⟩ := mem_visitAll.mp member
      rw [Nat.zero_add, decide_eq_true_iff, reached_cons found]
      exact fun reached => descending reached.1

theorem pruneAll_eq_map (descends : α → Bool) (children : List (OrderedTree α)) :
    pruneAll descends children = children.map (prune descends) := by
  induction children with
  | nil => rfl
  | cons child children ih => rw [pruneAll, ih, List.map_cons]

/-- A change in a place that is not reached is not seen. -/
theorem prune_change {position : Position} (unreached : ¬ Reached descends tree position)
    (f : OrderedTree α → OrderedTree α) : prune descends (tree.change f position) = prune descends tree := by
  induction position generalizing tree with
  | nil => exact absurd (reached_root tree) unreached
  | cons index rest ih =>
    obtain ⟨label, children⟩ := tree
    rw [change, prune, prune]
    by_cases descending : descends label = true
    · rw [if_pos descending, if_pos descending, pruneAll_eq_map, pruneAll_eq_map]
      congr 1
      apply List.ext_getElem?
      intro other
      rw [List.getElem?_map, List.getElem?_map, List.getElem?_modify]
      by_cases here : index = other
      · subst here
        cases there : children[index]? with
        | none => rfl
        | some child =>
          have below : ¬ Reached descends child rest := fun reached =>
            unreached ((reached_cons there).mpr ⟨descending, reached⟩)
          simp [ih below]
      · simp [here]
    · rw [if_neg descending, if_neg descending]

end OrderedTree
end Libftpp
