import QueryGate.Proofs.Operation.Resolved

/-! # Routes to the type of a field

A field is resolved on the root type, on the output type of the field around it, or on the type
condition of the innermost fragment that has one. Where no fragment is empty, every field lies on
the way to a leaf. -/
namespace QueryGate

open Node (passes)

/-- How the type that a field is resolved on comes about. -/
inductive Route where
  | root
  | output
  | condition
  deriving DecidableEq

namespace Node

mutual

/-- The fields at and below a node with their routes; `route` leads to the type of the node. -/
def routedFields (route : Route) : Node → List (Field × Route)
  | .field head children => (head, route) :: listRoutedFields .output children
  | .fragment head children =>
    listRoutedFields (if head.typeCondition.isSome then .condition else route) children

def listRoutedFields (route : Route) : List Node → List (Field × Route)
  | [] => []
  | node :: rest => node.routedFields route ++ listRoutedFields route rest

end

mutual

theorem routed_fields_fst : ∀ (n : Node) (route : Route),
    (n.routedFields route).map (·.1) = n.fields.map (·.1)
  | .field head children, route => by
    simp [routedFields, fields, list_routed_fields_fst children .output]
  | .fragment head children, route => by
    rw [routedFields, fields, list_routed_fields_fst children]

theorem list_routed_fields_fst : ∀ (ns : List Node) (route : Route),
    (listRoutedFields route ns).map (·.1) = (listFields ns).map (·.1)
  | [], _ => rfl
  | n :: ns, route => by
    simp [listRoutedFields, listFields, routed_fields_fst n route, list_routed_fields_fst ns route]

end

theorem mem_listRoutedFields {ns : List Node} {route : Route} {place : Field × Route} :
    place ∈ listRoutedFields route ns ↔ ∃ n ∈ ns, place ∈ n.routedFields route := by
  induction ns with
  | nil => simp [listRoutedFields]
  | cons n ns ih => simp [listRoutedFields, ih]

theorem leaf_chains_ne_nil {s : Schema} {n : Node} {parent : Option String}
    (h : n.Resolved s parent) : n.leafChains ≠ [] := by
  induction n using Node.descend generalizing parent with
  | h n ih =>
    cases hchildren : n.children with
    | nil =>
      cases n with
      | field f cs =>
        have hnone : cs = [] := hchildren
        subst hnone
        simp [leafChains]
      | fragment f cs => exact absurd hchildren h.2.1
    | cons c cs =>
      have hc : c ∈ n.children := by
        rw [hchildren]
        exact List.mem_cons_self
      obtain ⟨type, hresolved⟩ := h.below c hc
      obtain ⟨chain, hchain⟩ := List.exists_mem_of_ne_nil _ (ih c hc hresolved)
      exact List.ne_nil_of_mem (extended_leaf_chain hc hchain)

theorem on_leaf_chain {s : Schema} {n m : Node} {parent : Option String} (h : n.Resolved s parent)
    (hm : m ∈ n.subtrees) : ∃ chain ∈ n.leafChains, m ∈ chain := by
  induction n using Node.descend generalizing parent with
  | h n ih =>
    rcases mem_subtrees.mp hm with rfl | ⟨c, hc, hm⟩
    · obtain ⟨chain, hchain⟩ := List.exists_mem_of_ne_nil _ (leaf_chains_ne_nil h)
      exact ⟨chain, hchain, self_on_leaf_chain hchain⟩
    · obtain ⟨type, hresolved⟩ := h.below c hc
      obtain ⟨chain, hchain, hmem⟩ := ih c hc hresolved hm
      exact ⟨n :: chain, extended_leaf_chain hc hchain, List.mem_cons_of_mem n hmem⟩

theorem field_of_leaf_chain {n : Node} {chain : List Node} (hc : chain ∈ n.leafChains)
    {f : Field} {cs : List Node} (hf : .field f cs ∈ chain) : (f, cs) ∈ n.fields :=
  mem_fields.mpr (mem_subtrees_of_field_chain (field_chain_of_leaf_chain hc) hf)

end Node

namespace Operation

def routedFields (o : Operation) : List (Field × Route) := Node.listRoutedFields .root o.nodes

theorem mem_routed_fields {o : Operation} {f : Field} :
    (∃ route, (f, route) ∈ o.routedFields) ↔ ∃ cs, (f, cs) ∈ o.fields := by
  have hfst : f ∈ o.routedFields.map (·.1) ↔ f ∈ o.fields.map (·.1) := by
    rw [routedFields, Node.list_routed_fields_fst, fields]
  simpa using hfst

theorem mem_fields_iff {s : Schema} {o : Operation} (h : o.Resolved s) {f : Field} :
    (∃ cs, (f, cs) ∈ o.fields) ↔ ∃ chain ∈ o.leafHeads, Node.Head.field f ∈ chain := by
  have hnodes := Node.list_resolved_iff.mp h.nodes
  constructor
  · rintro ⟨cs, hf⟩
    obtain ⟨n, hn, hf⟩ := Node.mem_listFields.mp hf
    obtain ⟨chain, hchain, hmem⟩ := Node.on_leaf_chain (hnodes n hn) (Node.mem_fields.mp hf)
    exact ⟨_, List.mem_map_of_mem (Node.mem_listLeafChains.mpr ⟨n, hn, hchain⟩),
      List.mem_map.mpr ⟨_, hmem, rfl⟩⟩
  · rintro ⟨_, hheads, hmem⟩
    obtain ⟨chain, hchain, rfl⟩ := List.mem_map.mp hheads
    obtain ⟨n, hn, hchain⟩ := Node.mem_listLeafChains.mp hchain
    obtain ⟨m, hm, he⟩ := List.mem_map.mp hmem
    cases m with
    | field g cs =>
      cases he
      exact ⟨cs, Node.mem_listFields.mpr ⟨n, hn, Node.field_of_leaf_chain hchain hm⟩⟩
    | fragment g cs => cases he

/-- Where no field passes a test, no leaf chain is lost to it. -/
theorem leaf_chains_without {o : Operation} {test : FieldTest}
    (h : ∀ f ∈ o.fields, test f.1 f.2 = false) :
    o.leafChains.filter (·.all (passes test.negate)) = o.leafChains := by
  refine List.filter_eq_self.mpr fun chain hchain => List.all_eq_true.mpr fun m hm => ?_
  obtain ⟨n, hn, hchain⟩ := Node.mem_listLeafChains.mp hchain
  cases m with
  | field f cs =>
    have hf := Node.mem_listFields.mpr ⟨n, hn, Node.field_of_leaf_chain hchain hm⟩
    simp [passes, FieldTest.negate, h (f, cs) hf]
  | fragment f cs => rfl

/-- Where some leaf chains of an operation are left, so are the fields on them, and no others. -/
theorem mem_routed_fields_of_heads {s : Schema} {o a : Operation} (ha : a.Resolved s)
    {keep : FieldTest}
    (hheads : a.leafHeads = (o.leafChains.filter (·.all (passes keep))).map (·.map Node.head))
    {f : Field} :
    (∃ route, (f, route) ∈ a.routedFields) ↔
      ∃ chain ∈ o.leafChains, chain.all (passes keep) = true ∧ ∃ cs, .field f cs ∈ chain := by
  rw [mem_routed_fields, mem_fields_iff ha, hheads]
  constructor
  · rintro ⟨_, hmem, hf⟩
    obtain ⟨chain, hchain, rfl⟩ := List.mem_map.mp hmem
    obtain ⟨hchain, hpass⟩ := List.mem_filter.mp hchain
    obtain ⟨m, hm, he⟩ := List.mem_map.mp hf
    cases m with
    | field g cs =>
      cases he
      exact ⟨chain, hchain, hpass, cs, hm⟩
    | fragment g cs => cases he
  · rintro ⟨chain, hchain, hpass, cs, hf⟩
    exact ⟨_, List.mem_map_of_mem (List.mem_filter.mpr ⟨hchain, hpass⟩),
      List.mem_map.mpr ⟨_, hf, rfl⟩⟩

end Operation

end QueryGate
