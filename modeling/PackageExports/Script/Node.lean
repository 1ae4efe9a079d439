import PackageExports.Script.Category
import PackageExports.Script.Token
import PackageExports.Text.Basic

/-!
# Syntax trees of scripts

A script is a tree of phrases whose leaves are tokens. A tree is visited with each node before its children and the
children from left to right. `Node.walk` does so with a stack of what is still to be visited, `Node.preorder` by
recursion.

Main definitions: `Node`, `Node.walk`, `Node.preorder`.
-/

namespace PackageExports.Script

/-- What a node is. -/
inductive Kind where
  | token (t : Token)
  | phrase (c : Category)
  /-- A part of a script that could not be understood. -/
  | confusion
deriving DecidableEq

/-- A node of a syntax tree, with the text that it covers. -/
inductive Node where
  | node (kind : Kind) (text : Text) (children : List Node)

namespace Node

def kind : Node → Kind
  | node kind _ _ => kind

def text : Node → Text
  | node _ text _ => text

def children : Node → List Node
  | node _ _ children => children

def isPhrase (c : Category) (n : Node) : Bool :=
  n.kind = .phrase c

mutual

def size : Node → Nat
  | node _ _ children => sizeAll children + 1
termination_by structural n => n

def sizeAll : List Node → Nat
  | [] => 0
  | n :: rest => n.size + sizeAll rest
termination_by structural ns => ns

end

theorem sizeAll_append (a b : List Node) : sizeAll (a ++ b) = sizeAll a + sizeAll b := by
  induction a with
  | nil => simp [sizeAll]
  | cons n rest ih => simp [sizeAll, ih, Nat.add_assoc]

theorem sizeAll_children (n : Node) : sizeAll n.children + 1 = n.size := by
  cases n
  simp [children, size]

/-- The nodes of trees in the order of a visit that keeps what is still to be visited on a stack. -/
def walk : List Node → List Node
  | [] => []
  | n :: stack => n :: walk (n.children ++ stack)
termination_by stack => sizeAll stack
decreasing_by
  have := sizeAll_children n
  simp only [sizeAll_append, sizeAll]
  omega

mutual

/-- The nodes of a tree, each before its descendants. -/
def preorder : Node → List Node
  | node kind text children => node kind text children :: preorderAll children
termination_by structural n => n

/-- The nodes of trees one after the other. -/
def preorderAll : List Node → List Node
  | [] => []
  | n :: rest => n.preorder ++ preorderAll rest
termination_by structural ns => ns

end

end Node

end PackageExports.Script
