import QueryGate.Access.Restrict

/-! # Fields and leaf chains of an operation

A tree of selections is seen as the list of its nodes or of its fields at any depth, and as the list
of the chains of nodes that lead from the outermost selections to each field without selections. The
lists are in document order and have one entry for every occurrence. -/
namespace QueryGate

namespace Node

/-- Induction on a node with the selections below it as members. -/
@[elab_as_elim]
theorem nested {P : Node → Prop} (field : ∀ f cs, (∀ c ∈ cs, P c) → P (.field f cs))
    (fragment : ∀ f cs, (∀ c ∈ cs, P c) → P (.fragment f cs)) (n : Node) : P n :=
  @Node.rec P (fun ns => ∀ n ∈ ns, P n) field fragment
    (by simp) (fun _ _ hn hns => List.forall_mem_cons.mpr ⟨hn, hns⟩) n

inductive Head where
  | field (head : Field)
  | fragment (head : Fragment)
  deriving DecidableEq

def head : Node → Head
  | .field head _ => .field head
  | .fragment head _ => .fragment head

mutual

def subtrees : Node → List Node
  | .field head children => .field head children :: listSubtrees children
  | .fragment head children => .fragment head children :: listSubtrees children

def listSubtrees : List Node → List Node
  | [] => []
  | node :: rest => node.subtrees ++ listSubtrees rest

end

mutual

def fields : Node → List (Field × List Node)
  | .field head children => (head, children) :: listFields children
  | .fragment _ children => listFields children

def listFields : List Node → List (Field × List Node)
  | [] => []
  | node :: rest => node.fields ++ listFields rest

end

mutual

def leafChains : Node → List (List Node)
  | .field head children =>
    if children.isEmpty then [[.field head []]]
    else (listLeafChains children).map (.field head children :: ·)
  | .fragment head children => (listLeafChains children).map (.fragment head children :: ·)

def listLeafChains : List Node → List (List Node)
  | [] => []
  | node :: rest => node.leafChains ++ listLeafChains rest

end

/-- A field passes a test on its own; an inline fragment always does. -/
def passes (test : FieldTest) : Node → Bool
  | .field head children => test head children
  | .fragment _ _ => true

@[simp] theorem listLeafChains_append (as bs : List Node) :
    listLeafChains (as ++ bs) = listLeafChains as ++ listLeafChains bs := by
  induction as with
  | nil => rfl
  | cons a as ih => simp [listLeafChains, ih]

theorem mem_listSubtrees {ns : List Node} {n : Node} :
    n ∈ listSubtrees ns ↔ ∃ m ∈ ns, n ∈ m.subtrees := by
  induction ns with
  | nil => simp [listSubtrees]
  | cons m ns ih => simp [listSubtrees, ih]

theorem mem_listFields {ns : List Node} {f : Field × List Node} :
    f ∈ listFields ns ↔ ∃ n ∈ ns, f ∈ n.fields := by
  induction ns with
  | nil => simp [listFields]
  | cons n ns ih => simp [listFields, ih]

theorem mem_listLeafChains {ns : List Node} {chain : List Node} :
    chain ∈ listLeafChains ns ↔ ∃ n ∈ ns, chain ∈ n.leafChains := by
  induction ns with
  | nil => simp [listLeafChains]
  | cons n ns ih => simp [listLeafChains, ih]

end Node

namespace Operation

def subtrees (o : Operation) : List Node := Node.listSubtrees o.nodes

def fields (o : Operation) : List (Field × List Node) := Node.listFields o.nodes

/-- The chains of nodes that lead to the fields without selections. -/
def leafChains (o : Operation) : List (List Node) := Node.listLeafChains o.nodes

def leafHeads (o : Operation) : List (List Node.Head) := o.leafChains.map (·.map Node.head)

end Operation

end QueryGate
