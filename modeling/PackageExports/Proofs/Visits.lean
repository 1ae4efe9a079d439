import Mathlib.Data.List.Basic
import Mathlib.Logic.Function.Iterate
import Mathlib.Tactic.Lemma
import PackageExports.Script.Specifier

/-!
# Visits of syntax trees

A visit keeps what is still to be visited on a stack: it takes the node on top and puts the children of the node in its
place. What it still has to give is at any time the preorder of the trees on the stack, and each step gives the first node
of that. The place of a node in a tree is the way down to it, by the numbers of the children, and in preorder these ways
stand in lexicographic order: a node comes before its descendants, and the trees of siblings from left to right.

Main results: `Node.walk_eq`, `Node.pairwise_ways`, `Script.visited_in_preorder`.
-/

namespace PackageExports.Script

namespace Node

variable {n : Node} {stack : List Node}

/-! ### Ways down a tree -/

/-- The node to which a way leads down from a node; each number says which child comes next. -/
def at? : List ℕ → Node → Option Node
  | [], n => some n
  | i :: way, n => n.children[i]?.bind (at? way)

mutual

/-- The ways that lead from a node to the nodes of its tree. -/
def ways : Node → List (List ℕ)
  | node _ _ children => [] :: waysFrom 0 children
termination_by structural n => n

def waysFrom (i : ℕ) : List Node → List (List ℕ)
  | [] => []
  | n :: rest => n.ways.map (i :: ·) ++ waysFrom (i + 1) rest
termination_by structural ns => ns

end

lemma ways_eq (n : Node) : n.ways = [] :: waysFrom 0 n.children := by
  cases n
  rfl

lemma preorder_eq (n : Node) : n.preorder = n :: preorderAll n.children := by
  cases n
  rfl

lemma mem_waysFrom {i : ℕ} {children : List Node} {way : List ℕ} :
    way ∈ waysFrom i children ↔ ∃ j child rest, children[j]? = some child ∧ rest ∈ child.ways ∧ way = (i + j) :: rest := by
  induction children generalizing i with
  | nil => simp [waysFrom]
  | cons first others ih =>
    rw [waysFrom, List.mem_append, List.mem_map, ih]
    constructor
    · rintro (⟨rest, hrest, rfl⟩ | ⟨j, child, rest, hchild, hrest, rfl⟩)
      · exact ⟨0, first, rest, rfl, hrest, rfl⟩
      · exact ⟨j + 1, child, rest, hchild, hrest, by rw [Nat.add_assoc, Nat.add_comm 1 j]⟩
    · rintro ⟨_ | j, child, rest, hchild, hrest, rfl⟩
      · obtain rfl := Option.some.inj hchild
        exact .inl ⟨rest, hrest, rfl⟩
      · exact .inr ⟨j, child, rest, hchild, hrest, by rw [Nat.add_assoc, Nat.add_comm 1 j]⟩

/-- The ways are those that lead somewhere. -/
theorem mem_ways {way : List ℕ} : way ∈ n.ways ↔ ∃ m, at? way n = some m := by
  induction way generalizing n with
  | nil => simp [ways_eq, at?]
  | cons i way ih =>
    rw [ways_eq, List.mem_cons, or_iff_right (List.cons_ne_nil _ _), mem_waysFrom, at?]
    constructor
    · rintro ⟨j, child, rest, hchild, hrest, hway⟩
      obtain ⟨rfl, rfl⟩ := List.cons.inj hway
      rw [Nat.zero_add, hchild]
      exact ih.mp hrest
    · rintro ⟨m, hm⟩
      obtain ⟨child, hchild, hrest⟩ := Option.bind_eq_some_iff.mp hm
      exact ⟨i, child, way, hchild, ih.mpr ⟨m, hrest⟩, by rw [Nat.zero_add]⟩

mutual

/-- The ways of a tree are in lexicographic order. -/
theorem pairwise_ways : (n : Node) → n.ways.Pairwise (· < ·)
  | node _ _ children => by
    rw [ways]
    refine List.pairwise_cons.mpr ⟨fun way hway => ?_, pairwise_waysFrom children 0⟩
    obtain ⟨j, child, rest, -, -, rfl⟩ := mem_waysFrom.mp hway
    exact List.nil_lt_cons _ _

/-- The ways to children are in lexicographic order. -/
theorem pairwise_waysFrom : (children : List Node) → (i : ℕ) → (waysFrom i children).Pairwise (· < ·)
  | [], _ => List.Pairwise.nil
  | n :: rest, i => by
    rw [waysFrom, List.pairwise_append, List.pairwise_map]
    refine ⟨(pairwise_ways n).imp List.cons_lt_cons_self.mpr, pairwise_waysFrom rest (i + 1), ?_⟩
    intro a ha b hb
    obtain ⟨way, -, rfl⟩ := List.mem_map.mp ha
    obtain ⟨j, child, other, -, -, rfl⟩ := mem_waysFrom.mp hb
    exact List.Lex.rel (by omega)

end

mutual

/-- The nodes in preorder are those to which the ways lead, one after the other. -/
theorem map_ways : (n : Node) → (n.ways.map fun way => at? way n) = n.preorder.map some
  | node kind text children => by
    rw [ways, preorder, List.map_cons, List.map_cons]
    exact congrArg _ (map_waysFrom children 0 (node kind text children) fun j => by rw [Nat.zero_add]; rfl)

theorem map_waysFrom : (children : List Node) → (i : ℕ) → (n : Node) → (∀ j, n.children[i + j]? = children[j]?) →
    ((waysFrom i children).map fun way => at? way n) = (preorderAll children).map some
  | [], _, _, _ => rfl
  | child :: rest, i, n, h => by
    have hchild : n.children[i]? = some child := h 0
    have hrest (j : ℕ) : n.children[i + 1 + j]? = rest[j]? := by
      rw [Nat.add_assoc, Nat.add_comm 1 j]
      exact h (j + 1)
    have hown : (child.ways.map fun way => at? (i :: way) n) = child.ways.map fun way => at? way child :=
      List.map_congr_left fun way _ => by rw [at?, hchild, Option.bind_some]
    rw [waysFrom, preorderAll, List.map_append, List.map_append, List.map_map, map_waysFrom rest (i + 1) n hrest,
      ← map_ways child]
    exact congrArg (· ++ _) hown

end

/-! ### Visits -/

/-- The stack after the node on top was visited. -/
def pop : List Node → List Node
  | [] => []
  | n :: stack => n.children ++ stack

lemma preorderAll_append (a b : List Node) : preorderAll (a ++ b) = preorderAll a ++ preorderAll b := by
  induction a with
  | nil => rfl
  | cons n rest ih => rw [List.cons_append, preorderAll, preorderAll, ih, List.append_assoc]

/-- A visit gives the trees on the stack in preorder. -/
theorem walk_eq (stack : List Node) : walk stack = preorderAll stack := by
  fun_induction walk stack with
  | case1 => rfl
  | case2 n stack ih => rw [ih, preorderAll, preorder_eq, List.cons_append, preorderAll_append]

/-- One step takes the first node from what is still to be given. -/
lemma preorderAll_pop (stack : List Node) : preorderAll (pop stack) = (preorderAll stack).tail := by
  cases stack with
  | nil => rfl
  | cons n stack => rw [pop, preorderAll_append, preorderAll, preorder_eq, List.cons_append, List.tail_cons]

lemma head?_preorderAll (stack : List Node) : (preorderAll stack).head? = stack.head? := by
  cases stack with
  | nil => rfl
  | cons n stack =>
    rw [preorderAll, preorder_eq]
    rfl

theorem preorderAll_iterate (stack : List Node) (k : ℕ) :
    preorderAll (pop^[k] stack) = (preorderAll stack).drop k := by
  induction k generalizing stack with
  | zero => rfl
  | succ k ih => rw [Function.iterate_succ_apply, ih, preorderAll_pop, List.drop_tail]

mutual

lemma length_preorder : (n : Node) → n.preorder.length = n.size
  | node _ _ children => by rw [preorder, size, List.length_cons, length_preorderAll children]

lemma length_preorderAll : (ns : List Node) → (preorderAll ns).length = sizeAll ns
  | [] => rfl
  | n :: rest => by rw [preorderAll, sizeAll, List.length_append, length_preorder n, length_preorderAll rest]

end

/-- The stack is empty when all nodes were visited, and not before. -/
theorem iterate_eq_nil_iff (stack : List Node) (k : ℕ) : pop^[k] stack = [] ↔ sizeAll stack ≤ k := by
  have hempty (rest : List Node) : rest = [] ↔ preorderAll rest = [] := by
    rw [← List.head?_eq_none_iff, ← List.head?_eq_none_iff, head?_preorderAll]
  rw [hempty, preorderAll_iterate, List.drop_eq_nil_iff, length_preorderAll]

mutual

/-- The specifier of a node, and those of its children one after the other. -/
def specifiersIn : Node → List Text
  | node kind text children => (node kind text children).specifier?.toList ++ specifiersInAll children
termination_by structural n => n

def specifiersInAll : List Node → List Text
  | [] => []
  | n :: rest => n.specifiersIn ++ specifiersInAll rest
termination_by structural ns => ns

end

mutual

lemma filterMap_preorder : (n : Node) → n.preorder.filterMap specifier? = n.specifiersIn
  | node kind text children => by
    rw [preorder, specifiersIn, List.filterMap_cons, filterMap_preorderAll children]
    cases (node kind text children).specifier? <;> rfl

lemma filterMap_preorderAll : (ns : List Node) → (preorderAll ns).filterMap specifier? = specifiersInAll ns
  | [] => rfl
  | n :: rest => by
    rw [preorderAll, specifiersInAll, List.filterMap_append, filterMap_preorder n, filterMap_preorderAll rest]

end

end Node

/-- A visit of a tree ends after as many steps as the tree has nodes. Each step gives the node on top of the stack; all
together these are the nodes at the end of the ways down the tree, each way once and in lexicographic order. So the
specifiers of a script are those of the recursion over its tree: the one of a node before those of its children. -/
theorem visited_in_preorder :
    (∀ n : Node,
      (∀ k, Node.pop^[k] [n] = [] ↔ n.size ≤ k) ∧ (∀ k, (Node.walk [n])[k]? = (Node.pop^[k] [n]).head?) ∧
      (Node.walk [n]).map some = n.ways.map (Node.at? · n) ∧ n.ways.Pairwise (· < ·) ∧
      (∀ way, way ∈ n.ways ↔ ∃ m, Node.at? way n = some m) ∧ specifiersOf [n] = n.specifiersIn) ∧
    ∀ path source, specifiers path source =
      Node.specifiersInAll (read (if allowsElements path then withElements else typed) source) := by
  have hspecifiers (nodes : List Node) : specifiersOf nodes = Node.specifiersInAll nodes := by
    rw [specifiersOf, Node.walk_eq, Node.filterMap_preorderAll]
  refine ⟨fun n => ?_, fun path source => hspecifiers _⟩
  have hwalk : Node.walk [n] = n.preorder := by
    rw [Node.walk_eq, Node.preorderAll, Node.preorderAll, List.append_nil]
  refine ⟨fun k => ?_, fun k => ?_, ?_, n.pairwise_ways, fun _ => Node.mem_ways, ?_⟩
  · rw [Node.iterate_eq_nil_iff, Node.sizeAll, Node.sizeAll, Nat.add_zero]
  · rw [Node.walk_eq, ← Node.head?_preorderAll, Node.preorderAll_iterate, List.head?_drop]
  · rw [hwalk, n.map_ways]
  · rw [hspecifiers, Node.specifiersInAll, Node.specifiersInAll, List.append_nil]

end PackageExports.Script
