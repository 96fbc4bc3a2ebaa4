import SecScan.Syntax.Node

/-! The height of a tree: how many levels a walk of it has. -/
namespace SecScan.Syntax.Node

theorem sizeOf_lt_of_mem_children {m n : Node} (h : m ∈ n.children) : sizeOf m < sizeOf n := by
  cases n with
  | expr e => cases e <;> simp [children, Expr.children, exprs, opt] at h <;> grind [→ List.sizeOf_lt_of_mem]
  | stmt s => cases s <;> simp [children, Stmt.children, exprs, opt, stmts] at h <;> grind [→ List.sizeOf_lt_of_mem]
  | pattern p => cases p <;> simp [children, Pattern.children, exprs] at h <;> grind [→ List.sizeOf_lt_of_mem]
  | module x | arguments x | arg x | keyword x | comprehension x | withItem x | handler x | matchCase x | «alias» x =>
    cases x
    simp [children, exprs, opt, stmts] at h <;> grind [→ List.sizeOf_lt_of_mem]

@[semireducible] def height (n : Node) : Nat := (n.children.attach.map fun m => m.1.height).max?.getD 0 + 1
  termination_by sizeOf n
  decreasing_by exact sizeOf_lt_of_mem_children m.2

def levels : Nat → List Node → List Node
  | 0, _ => []
  | n + 1, level => level ++ levels n (level.flatMap children)

def walk (n : Node) : List Node := levels n.height [n]

def preorderTo : Nat → Node → List Node
  | 0, n => [n]
  | d + 1, n => n :: n.children.flatMap (preorderTo d)

def preorder (n : Node) : List Node := preorderTo n.height n

end SecScan.Syntax.Node
