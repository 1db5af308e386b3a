import ProcLang.Tree.Nesting
import ProcLang.Tree.Nodes

/-!
# The height of a tree

The height of a tree is the length of the longest chain of nested statements and expressions
in it. Every node counts as one, but the links of a postfix chain, which are the operators `++`
and `--`, calls and subscripts, may be given another weight: with weight zero the height is the
number of the nodes of a chain that are no links.
-/

set_option autoImplicit false

namespace ProcLang

namespace Node

/-- What a node counts, the links of postfix chains counting `link`. -/
def weight (link : Nat) : Node → Nat
  | expr (.postIncrement _) | expr (.postDecrement _) | expr (.call _ _)
  | expr (.subscript _ _) => link
  | _ => 1

/-- The largest sum of the weights of nested nodes, from a node downwards. -/
def height (link : Nat) (n : Node) : Nat :=
  n.weight link + largest (n.children.attach.map fun c => height link c.1)
termination_by sizeOf n
decreasing_by exact child_lt c.2

theorem height_eq (link : Nat) (n : Node) :
    n.height link = n.weight link + largest (n.children.map (height link)) := by
  rw [height, List.map_subtype (g := height link) fun _ _ => rfl, List.unattach_attach]

end Node

/-- The number of links of the postfix chain that an expression is. -/
def Expr.chainLength : Expr → Nat
  | postIncrement base => 1 + base.chainLength
  | postDecrement base => 1 + base.chainLength
  | call callee _ => 1 + callee.chainLength
  | subscript base _ => 1 + base.chainLength
  | _ => 0

/-- The number of links of the postfix chain that a node is. -/
def Node.chainLength : Node → Nat
  | expr e => e.chainLength
  | _ => 0

namespace Program

/-- The height of a program, in which declarations do not count. -/
def height (link : Nat) (p : Program) : Nat :=
  largest (p.decls.map fun d => largest (d.children.map (Node.height link)))

/-- The largest number of links of a postfix chain in a program. -/
def longestChain (p : Program) : Nat :=
  largest (p.nodes.map Node.chainLength)

end Program

end ProcLang
