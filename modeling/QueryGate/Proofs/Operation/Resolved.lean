import QueryGate.Operation.Printer
import QueryGate.Proofs.GraphQL.WellFormed
import QueryGate.Proofs.Operation.Occurrences

/-! # Operations that are resolved on a schema

What a field is known for is what the schema says about it below the type its selections are
resolved on: the output type of the field around it, or the type condition of a fragment in between.
Restricting an operation keeps it resolved. -/
namespace QueryGate

open GraphQL (Argument Directive VariableDefinition)
open GraphQL.Token (IsName)

structure Field.WellFormed (f : Field) : Prop where
  name : IsName f.name
  aliasName : ∀ a, f.aliasName = some a → IsName a
  arguments : ∀ a ∈ f.arguments, Argument.WellFormed a
  directives : ∀ d ∈ f.directives, d.WellFormed

/-- A field has what the schema says about it on a type, once as a whole and once more in its mark
for lists. -/
structure Field.ResolvedOn (s : Schema) (type : Option String) (f : Field) : Prop where
  info : f.info = s.fieldOrUnknown type f.name
  isList : f.isList = f.info.isList

structure Fragment.WellFormed (f : Fragment) : Prop where
  typeCondition : ∀ t, f.typeCondition = some t → IsName t
  directives : ∀ d ∈ f.directives, d.WellFormed

def Field.hasFloat (f : Field) : Bool :=
  Argument.haveFloat f.arguments || Directive.haveFloat f.directives

namespace Node

mutual

def Resolved (s : Schema) (parent : Option String) : Node → Prop
  | .field head children =>
    head.WellFormed ∧ head.ResolvedOn s parent ∧ ListResolved s head.info.output children
  | .fragment head children =>
    head.WellFormed ∧ children ≠ [] ∧ ListResolved s (head.typeCondition.or parent) children

def ListResolved (s : Schema) (parent : Option String) : List Node → Prop
  | [] => True
  | node :: rest => node.Resolved s parent ∧ ListResolved s parent rest

end

mutual

def hasFloat : Node → Bool
  | .field head children => head.hasFloat || listHasFloat children
  | .fragment head children => Directive.haveFloat head.directives || listHasFloat children

def listHasFloat : List Node → Bool
  | [] => false
  | node :: rest => node.hasFloat || listHasFloat rest

end

theorem list_resolved_iff {s : Schema} {parent : Option String} {ns : List Node} :
    ListResolved s parent ns ↔ ∀ n ∈ ns, n.Resolved s parent := by
  induction ns with
  | nil => simp [ListResolved]
  | cons n ns ih => simp [ListResolved, ih]

theorem list_has_no_float_iff {ns : List Node} :
    listHasFloat ns = false ↔ ∀ n ∈ ns, n.hasFloat = false := by
  induction ns with
  | nil => simp [listHasFloat]
  | cons n ns ih => simp [listHasFloat, ih]

theorem Resolved.below {s : Schema} {n : Node} {parent : Option String} (h : n.Resolved s parent) :
    ∀ c ∈ n.children, ∃ type, c.Resolved s type := by
  intro c hc
  cases n with
  | field f cs => exact ⟨_, list_resolved_iff.mp h.2.2 c hc⟩
  | fragment f cs => exact ⟨_, list_resolved_iff.mp h.2.2 c hc⟩

theorem Resolved.of_mem_subtrees {s : Schema} {parent : Option String} {n k : Node}
    (h : n.Resolved s parent) (hk : k ∈ n.subtrees) : ∃ below, k.Resolved s below := by
  induction n using Node.descend generalizing parent with
  | h n ih =>
    rcases mem_subtrees.mp hk with rfl | ⟨c, hc, hk⟩
    · exact ⟨parent, h⟩
    · obtain ⟨type, hresolved⟩ := h.below c hc
      exact ih c hc hresolved hk

theorem Resolved.restrict {s : Schema} {keep : FieldTest} {n m : Node} {parent : Option String}
    (h : n.Resolved s parent) (hm : n.restrict keep = some m) : m.Resolved s parent := by
  induction n using Node.nested generalizing m parent with
  | field f cs ih =>
    obtain ⟨_, _, he, -, -, rfl⟩ | ⟨_, _, he, -, -⟩ := restrict_some hm
    · cases he
      refine ⟨h.1, h.2.1, list_resolved_iff.mpr fun m hm => ?_⟩
      obtain ⟨n, hn, hm⟩ := mem_restrictList hm
      exact ih n hn (list_resolved_iff.mp h.2.2 n hn) hm
    · cases he
  | fragment f cs ih =>
    obtain ⟨_, _, he, -, -, -⟩ | ⟨_, _, he, hne, rfl⟩ := restrict_some hm
    · cases he
    · cases he
      refine ⟨h.1, hne, list_resolved_iff.mpr fun m hm => ?_⟩
      obtain ⟨n, hn, hm⟩ := mem_restrictList hm
      exact ih n hn (list_resolved_iff.mp h.2.2 n hn) hm

end Node

namespace Operation

/-- An operation as reading a text against a schema gives it, up to the number of its selections. -/
structure Resolved (s : Schema) (o : Operation) : Prop where
  root : s.root? o.kind = some o.root
  name : ∀ n, o.name = some n → IsName n
  variableDefinitions : ∀ v ∈ o.variableDefinitions, v.WellFormed
  directives : ∀ d ∈ o.directives, d.WellFormed
  nodes : Node.ListResolved s (some o.root) o.nodes

theorem Resolved.of_mem_subtrees {s : Schema} {o : Operation} (h : o.Resolved s) {n : Node}
    (hn : n ∈ o.subtrees) : ∃ parent, n.Resolved s parent := by
  obtain ⟨m, hm, hn⟩ := Node.mem_listSubtrees.mp hn
  exact (Node.list_resolved_iff.mp h.nodes m hm).of_mem_subtrees hn

def hasFloat (o : Operation) : Bool :=
  VariableDefinition.haveFloat o.variableDefinitions || Directive.haveFloat o.directives ||
    Node.listHasFloat o.nodes

theorem Resolved.restrict {s : Schema} {o : Operation} (h : o.Resolved s) (keep : FieldTest) :
    (o.restrict keep).Resolved s where
  root := h.root
  name := h.name
  variableDefinitions := fun v hv => h.variableDefinitions v (List.mem_filter.mp hv).1
  directives := h.directives
  nodes := Node.list_resolved_iff.mpr fun m hm => by
    obtain ⟨n, hn, hm⟩ := Node.mem_restrictList hm
    exact (Node.list_resolved_iff.mp h.nodes n hn).restrict hm

end Operation

end QueryGate
