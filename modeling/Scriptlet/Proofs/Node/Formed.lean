import Scriptlet.Limits
import Scriptlet.Proofs.Eval.Discipline

/-!
# Formed trees

A tree that was read from a text is never just any `Node`: `Node.Formed` says which parts are always
there. Operands, arguments, elements and conditions may be holes, and `Node.holes` counts them. The
alternative of a conditional is no hole if it is missing, for it may be left out.

A formed tree without holes has a value everywhere (`Node.Complete`).
-/

namespace Scriptlet

namespace Node

/-- Whether the parts of a node that are always read are there. -/
def wellMade : Node → Bool
  | .hole | .bare _ | .tokenless _ | .parameterList _ => false
  | .program statements | .block _ statements => statements.all fun statement => !statement.isHole
  | .letStatement _ name value => name.isSome && !value.isHole
  | .returnStatement _ value => !value.isHole
  | .expressionStatement _ expression => !expression.isHole
  | .conditional _ _ consequence _ => !consequence.isHole
  | .function _ _ body => !body.isHole
  | _ => true

/-- The node is well made, and so is everything below it but for holes. -/
inductive Formed : Node → Prop
  | mk {node : Node} (made : node.wellMade = true)
    (below : ∀ child ∈ node.children, child.isHole = false → Formed child) : Formed node

def FormedOrHole (node : Node) : Prop := node.isHole = false → node.Formed

/-- The nodes of a tree: its root, and with a node all that stands right below it. -/
inductive Contains (root : Node) : Node → Prop
  | root : Contains root root
  | child {node inner : Node} (above : Contains root node) (h : inner ∈ node.children) : Contains root inner

mutual

/-- The number of missing children, the node itself included if it is one. -/
def holes : Node → Nat
  | .hole => 1
  | .bare _ | .parameterList _ | .identifier _ | .integer _ _ | .boolean _ _ | .string _ _ => 0
  | .tokenless node => node.holes
  | .program statements | .block _ statements => holesOfAll statements
  | .prefixOp _ _ right => right.holes
  | .infixOp _ _ left right => left.holes + right.holes
  | .conditional _ condition consequence alternative =>
    condition.holes + consequence.holes + if alternative.isHole then 0 else alternative.holes
  | .function _ _ body => body.holes
  | .call _ callee arguments => callee.holes + holesOfAll arguments
  | .array _ elements => holesOfAll elements
  | .index _ left subscript => left.holes + subscript.holes
  | .letStatement _ _ value | .returnStatement _ value => value.holes
  | .expressionStatement _ expression => expression.holes

def holesOfAll : List Node → Nat
  | [] => 0
  | node :: nodes => node.holes + holesOfAll nodes

end

/-- The node is formed and nothing is missing. -/
structure Complete (node : Node) : Prop where
  formed : node.Formed
  holes : node.holes = 0

variable {node inner : Node}

theorem isHole_iff : node.isHole = true ↔ node = .hole := by
  cases node <;> simp [isHole]

theorem holes_of_isHole (h : node.isHole = true) : node.holes = 1 := by
  rw [isHole_iff.1 h, holes]

theorem isHole_of_holes (h : node.holes = 0) : node.isHole = false := by
  rw [Bool.eq_false_iff]
  intro hh
  rw [holes_of_isHole hh] at h
  cases h

@[simp] theorem holesOfAll_append (nodes nodes' : List Node) :
    holesOfAll (nodes ++ nodes') = holesOfAll nodes + holesOfAll nodes' := by
  induction nodes with
  | nil => simp [holesOfAll]
  | cons node nodes ih =>
    simp only [List.cons_append, holesOfAll, ih]
    omega

@[simp] theorem holesOfAll_reverse (nodes : List Node) : holesOfAll nodes.reverse = holesOfAll nodes := by
  induction nodes with
  | nil => rfl
  | cons node nodes ih =>
    simp only [List.reverse_cons, holesOfAll_append, holesOfAll, ih]
    omega

theorem holes_le_holesOfAll {nodes : List Node} (h : node ∈ nodes) : node.holes ≤ holesOfAll nodes := by
  induction nodes with
  | nil => cases h
  | cons first nodes ih =>
    rw [holesOfAll]
    rcases List.mem_cons.1 h with rfl | h
    · omega
    · have := ih h
      omega

theorem mem_children_of_mem_parts (h : inner ∈ node.parts) : inner ∈ node.children := by
  unfold parts at h
  split at h
  · cases h
  · split at h
    · exact List.mem_append_left [_] h
    · exact h
  · exact h

theorem isHole_of_mem_children (h : inner ∈ node.children) : node.isHole = false := by
  cases node with
  | hole => cases h
  | _ => rfl

/-- What evaluation asks for in a node is at most as incomplete as the node. -/
theorem holes_le_of_mem_parts (h : inner ∈ node.parts) : inner.holes ≤ node.holes := by
  cases node <;> simp only [parts, children, List.mem_cons, List.not_mem_nil, or_false] at h
  case program => rw [holes]; exact holes_le_holesOfAll h
  case block => rw [holes]; exact holes_le_holesOfAll h
  case array => rw [holes]; exact holes_le_holesOfAll h
  case call =>
    rw [holes]
    rcases h with rfl | h
    · omega
    · have := holes_le_holesOfAll h
      omega
  case conditional =>
    rw [holes]
    split at h
    · simp only [List.mem_cons, List.not_mem_nil, or_false] at h
      rcases h with rfl | rfl <;> omega
    · next ha =>
      rw [if_neg ha]
      simp only [List.mem_cons, List.not_mem_nil, or_false] at h
      rcases h with rfl | rfl | rfl <;> omega
  case infixOp => rw [holes]; rcases h with rfl | rfl <;> omega
  case index => rw [holes]; rcases h with rfl | rfl <;> omega
  all_goals
    subst h
    exact Nat.le_of_eq (by rw [holes])

namespace Formed

theorem child (h : node.Formed) (hc : inner ∈ node.children) (hh : inner.isHole = false) :
    inner.Formed := by
  cases h with
  | mk _ below => exact below inner hc hh

theorem wellMade (h : node.Formed) : node.wellMade = true := by
  cases h with
  | mk made _ => exact made

theorem contains {root : Node} (h : root.Formed) (hc : root.Contains node) : node.FormedOrHole := by
  induction hc with
  | root => exact fun _ => h
  | child above hm ih => exact fun hi => (ih (isHole_of_mem_children hm)).child hm hi

theorem hasValue (h : node.Formed) : node.hasValue = true := by
  have hm := h.wellMade
  cases node <;> simp_all [Node.wellMade, Node.hasValue]

theorem body {token : Token} {parameters : List Identifier} {body : Node}
    (h : (Node.function token parameters body).Formed) : body.Formed :=
  h.child (by simp [children]) (by simpa [Node.wellMade] using h.wellMade)

end Formed

theorem FormedOrHole.child (h : node.FormedOrHole) (hc : inner ∈ node.children) : inner.FormedOrHole :=
  fun hi => (h (isHole_of_mem_children hc)).child hc hi

theorem FormedOrHole.part (h : node.FormedOrHole) (hp : inner ∈ node.parts) : inner.FormedOrHole :=
  h.child (mem_children_of_mem_parts hp)

namespace Complete

theorem part (h : node.Complete) (hp : inner ∈ node.parts) : inner.Complete := by
  have hle := holes_le_of_mem_parts hp
  have hzero : inner.holes = 0 := by
    rw [h.holes] at hle
    omega
  exact ⟨h.formed.child (mem_children_of_mem_parts hp) (isHole_of_holes hzero), hzero⟩

theorem body {token : Token} {parameters : List Identifier} {body : Node}
    (h : (Node.function token parameters body).Complete) : body.Complete := by
  refine ⟨h.formed.body, ?_⟩
  have hzero := h.holes
  rwa [Node.holes] at hzero

end Complete

/-- Nothing but its depth keeps a formed tree from being written. -/
theorem FormedOrHole.obstacle {limit : Nat} {cause : Fault} (h : node.FormedOrHole)
    (ho : node.obstacle? limit = some cause) : cause = .tooDeep := by
  induction limit generalizing node with
  | zero => exact (Option.some.inj ho).symm
  | succ limit ih =>
    unfold obstacle? at ho
    split at ho
    · exact absurd (h rfl).wellMade nofun
    · obtain ⟨inner, hm, hi⟩ := List.exists_of_findSome?_eq_some ho
      exact ih (h.child hm) hi

end Node

end Scriptlet
