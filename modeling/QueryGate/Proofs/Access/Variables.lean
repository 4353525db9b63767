import QueryGate.Proofs.Access.Composition
import QueryGate.Proofs.GraphQL.WellFormed

/-! # Variables of a restriction

A variable is used where it occurs in an argument, at any depth of its value: in the directives of
the operation, or in the arguments and directives of a field or a fragment. A restriction keeps the
definitions of the variables that are used in what it leaves, so it leaves an operation closed. A
default value is a constant and uses no variable. -/
namespace QueryGate

open GraphQL (Argument Directive Value VariableDefinition)
open Node (passes)

namespace GraphQL

/-- A variable is the value or occurs in an item or a field of it. -/
inductive Value.Mentions (name : String) : Value → Prop where
  | reference : Mentions name (.variable name)
  | item {items : List Value} {v : Value} : v ∈ items → Mentions name v →
      Mentions name (.list items)
  | field {fields : List (String × Value)} {f : String × Value} : f ∈ fields → Mentions name f.2 →
      Mentions name (.object fields)

def Directive.Mentions (name : String) (d : Directive) : Prop :=
  ∃ a ∈ d.arguments, a.2.Mentions name

namespace Value

theorem mem_itemVariables {name : String} {items : List Value} :
    name ∈ itemVariables items ↔ ∃ v ∈ items, name ∈ v.variableNames := by
  induction items with
  | nil => simp [itemVariables]
  | cons v items ih => simp [itemVariables, ih]

theorem mem_fieldVariables {name : String} {fields : List (String × Value)} :
    name ∈ fieldVariables fields ↔ ∃ f ∈ fields, name ∈ f.2.variableNames := by
  induction fields with
  | nil => simp [fieldVariables]
  | cons f fields ih => simp [fieldVariables, ih]

theorem mem_variableNames {name : String} {v : Value} :
    name ∈ v.variableNames ↔ v.Mentions name := by
  have hplain : ∀ {v : Value}, v.variableNames = [] → ¬ v.Mentions name →
      (name ∈ v.variableNames ↔ v.Mentions name) := by
    intro v hnone hnot
    simp [hnone, hnot]
  induction v using Value.nested with
  | reference other =>
    rw [variableNames, List.mem_singleton]
    constructor
    · rintro rfl
      exact .reference
    · rintro ⟨⟩
      rfl
  | list items ih =>
    rw [variableNames, mem_itemVariables]
    constructor
    · rintro ⟨v, hv, hname⟩
      exact .item hv ((ih v hv).mp hname)
    · rintro (_ | ⟨hv, hname⟩)
      exact ⟨_, hv, (ih _ hv).mpr hname⟩
  | object fields ih =>
    rw [variableNames, mem_fieldVariables]
    constructor
    · rintro ⟨f, hf, hname⟩
      exact .field hf ((ih f hf).mp hname)
    · rintro (_ | _ | ⟨hf, hname⟩)
      exact ⟨_, hf, (ih _ hf).mpr hname⟩
  | int n => exact hplain rfl nofun
  | float x => exact hplain rfl nofun
  | string s => exact hplain rfl nofun
  | boolean b => exact hplain rfl nofun
  | null => exact hplain rfl nofun
  | enum s => exact hplain rfl nofun

end Value

theorem mem_argumentVariables {name : String} {arguments : List Argument} :
    name ∈ Argument.variableNames arguments ↔ ∃ a ∈ arguments, a.2.Mentions name := by
  simp [Argument.variableNames, Value.mem_variableNames]

theorem mem_directiveVariables {name : String} {directives : List Directive} :
    name ∈ Directive.variableNames directives ↔ ∃ d ∈ directives, d.Mentions name := by
  simp only [Directive.variableNames, List.mem_flatMap, mem_argumentVariables, Directive.Mentions]

end GraphQL

open GraphQL (mem_argumentVariables mem_directiveVariables)

namespace Node

def Head.Mentions (name : String) : Head → Prop
  | .field f => (∃ a ∈ f.arguments, a.2.Mentions name) ∨ ∃ d ∈ f.directives, d.Mentions name
  | .fragment f => ∃ d ∈ f.directives, d.Mentions name

mutual

theorem mem_variableNames (name : String) : ∀ n : Node,
    name ∈ n.variableNames ↔ ∃ m ∈ n.subtrees, m.head.Mentions name
  | .field f cs => by
    have ih := mem_listVariables name cs
    simp only [variableNames, subtrees, List.mem_append, List.exists_mem_cons_iff, ih, head,
      Head.Mentions, Field.variableNames, mem_argumentVariables, mem_directiveVariables]
  | .fragment f cs => by
    have ih := mem_listVariables name cs
    simp only [variableNames, subtrees, List.mem_append, List.exists_mem_cons_iff, ih, head,
      Head.Mentions, Fragment.variableNames, mem_directiveVariables]

theorem mem_listVariables (name : String) : ∀ ns : List Node,
    name ∈ listVariables ns ↔ ∃ m ∈ listSubtrees ns, m.head.Mentions name
  | [] => by simp [listVariables, listSubtrees]
  | n :: ns => by
    have hnode := mem_variableNames name n
    have hrest := mem_listVariables name ns
    simp only [listVariables, listSubtrees, List.mem_append, hnode, hrest, or_and_right, exists_or]

end

theorem restricted_on_leaf_chain {keep : FieldTest} {n m k : Node} (h : n.restrict keep = some m)
    (hk : k ∈ m.subtrees) : ∃ chain ∈ m.leafChains, k ∈ chain := by
  induction n using Node.descend generalizing m with
  | h n ih =>
    rcases mem_subtrees.mp hk with rfl | ⟨c, hc, hk⟩
    · obtain ⟨chain, hchain⟩ := List.exists_mem_of_ne_nil _ (leaf_chains_of_restricted h)
      exact ⟨chain, hchain, self_on_leaf_chain hchain⟩
    · obtain ⟨d, hd, hdc⟩ := child_of_restrict h hc
      obtain ⟨chain, hchain, hmem⟩ := ih d hd hdc hk
      exact ⟨m :: chain, extended_leaf_chain hc hchain, List.mem_cons_of_mem m hmem⟩

end Node

namespace Operation

/-- A variable occurs in the directives of an operation or on a field or a fragment at any depth. -/
def Uses (o : Operation) (name : String) : Prop :=
  (∃ d ∈ o.directives, d.Mentions name) ∨ ∃ n ∈ o.subtrees, n.head.Mentions name

def IsClosed (o : Operation) : Prop :=
  ∀ name, o.Uses name → ∃ v ∈ o.variableDefinitions, v.name = name

theorem mem_usedVariables {o : Operation} {name : String} :
    name ∈ o.usedVariables ↔ o.Uses name := by
  rw [usedVariables, List.mem_append, mem_directiveVariables, Node.mem_listVariables]
  rfl

instance (o : Operation) (name : String) : Decidable (o.Uses name) :=
  decidable_of_iff _ mem_usedVariables

instance (o : Operation) : Decidable o.IsClosed :=
  decidable_of_iff (∀ name ∈ o.usedVariables, ∃ v ∈ o.variableDefinitions, v.name = name)
    (forall_congr' fun _ => imp_congr_left mem_usedVariables)

/-- The fields and fragments that a restriction leaves are those on the leaf chains it leaves. -/
theorem subtrees_restrict_iff (o : Operation) (keep : FieldTest) {P : Node.Head → Prop} :
    (∃ n ∈ (o.restrict keep).subtrees, P n.head) ↔
      ∃ chain ∈ o.leafChains, chain.all (passes keep) = true ∧ ∃ n ∈ chain, P n.head := by
  have hheads := o.leaf_heads_restrict keep
  constructor
  · rintro ⟨k, hk, hP⟩
    obtain ⟨m, hm, hk⟩ := Node.mem_listSubtrees.mp hk
    obtain ⟨n, -, hn⟩ := Node.mem_restrictList hm
    obtain ⟨chain, hchain, hmem⟩ := Node.restricted_on_leaf_chain hn hk
    have hleft : chain.map Node.head ∈ (o.restrict keep).leafHeads :=
      List.mem_map_of_mem (Node.mem_listLeafChains.mpr ⟨m, hm, hchain⟩)
    rw [hheads] at hleft
    obtain ⟨before, hbefore, he⟩ := List.mem_map.mp hleft
    obtain ⟨hbefore, hpass⟩ := List.mem_filter.mp hbefore
    have hhead : k.head ∈ before.map Node.head := he ▸ List.mem_map_of_mem hmem
    obtain ⟨b, hb, hsame⟩ := List.mem_map.mp hhead
    exact ⟨before, hbefore, hpass, b, hb, hsame ▸ hP⟩
  · rintro ⟨chain, hchain, hpass, n, hn, hP⟩
    have hleft : chain.map Node.head ∈ (o.restrict keep).leafHeads := by
      rw [hheads]
      exact List.mem_map_of_mem (List.mem_filter.mpr ⟨hchain, hpass⟩)
    obtain ⟨after, hafter, he⟩ := List.mem_map.mp hleft
    obtain ⟨m, hm, hafter⟩ := Node.mem_listLeafChains.mp hafter
    have hhead : n.head ∈ after.map Node.head := he ▸ List.mem_map_of_mem hn
    obtain ⟨k, hk, hsame⟩ := List.mem_map.mp hhead
    have hmem :=
      Node.mem_subtrees_of_field_chain (Node.field_chain_of_leaf_chain hafter) hk
    exact ⟨k, Node.mem_listSubtrees.mpr ⟨m, hm, hmem⟩, hsame ▸ hP⟩

theorem definitions_restrict (o : Operation) (keep : FieldTest) :
    (o.restrict keep).variableDefinitions =
      o.variableDefinitions.filter fun v => decide ((o.restrict keep).Uses v.name) := by
  refine List.filter_congr fun v _ => ?_
  rw [Bool.eq_iff_iff, List.contains_iff_mem, decide_eq_true_iff]
  exact mem_usedVariables

/-- A restriction keeps the definitions of the variables that are used in what it leaves, in order
and unchanged. These are the variables in the directives of the operation, and on the fields and
fragments of the leaf chains on which every field passes the test. So a closed operation stays
closed, and no definition is left unused. -/
theorem restriction_keeps_used_definitions (o : Operation) (keep : FieldTest) :
    ((o.restrict keep).variableDefinitions =
        o.variableDefinitions.filter fun v => decide ((o.restrict keep).Uses v.name)) ∧
      (∀ name, (o.restrict keep).Uses name ↔
        (∃ d ∈ o.directives, d.Mentions name) ∨
          ∃ chain ∈ o.leafChains, chain.all (passes keep) = true ∧
            ∃ n ∈ chain, n.head.Mentions name) ∧
      (o.IsClosed → (o.restrict keep).IsClosed) ∧
      ∀ v ∈ (o.restrict keep).variableDefinitions, (o.restrict keep).Uses v.name := by
  have hdefinitions := o.definitions_restrict keep
  refine ⟨hdefinitions, fun name => ?_, fun hclosed name hname => ?_, fun v hv => ?_⟩
  · exact or_congr Iff.rfl (o.subtrees_restrict_iff keep)
  · have hbefore : o.Uses name :=
      mem_usedVariables.mp (o.usedVariables_restrict keep (mem_usedVariables.mpr hname))
    obtain ⟨v, hv, rfl⟩ := hclosed name hbefore
    refine ⟨v, ?_, rfl⟩
    rw [hdefinitions]
    exact List.mem_filter.mpr ⟨hv, decide_eq_true hname⟩
  · rw [hdefinitions] at hv
    exact of_decide_eq_true (List.mem_filter.mp hv).2

/-- Products with variables at every kind of place: in a directive of the operation, in an argument
and a directive of a field, in a directive of a fragment, and inside a list and an object. The
reviews, with the least grade of them, are for authenticated callers only. -/
def tours : Operation :=
  let field (name : String) (arguments : List Argument) (directives : List Directive)
      (marks : List Annotation) : Field :=
    ⟨name, none, arguments, directives, ⟨none, none, false, false, marks, []⟩, false⟩
  let number (name : String) : VariableDefinition := ⟨name, .named "Int", none⟩
  ⟨.query, none, "Query",
    ["mode", "first", "size", "more", "tag", "grade"].map number,
    [⟨"trace", [("mode", .variable "mode")]⟩],
    [.field (field "products" [("first", .variable "first")]
        [⟨"page", [("size", .variable "size")]⟩] [])
      [.fragment ⟨some "Product", [⟨"include", [("if", .variable "more")]⟩]⟩
          [.field (field "name" [("by", .list [.null, .object [("tag", .variable "tag")]])] [] [])
            []],
        .field (field "reviews" [("grade", .variable "grade")] []
            [⟨"authenticated", none⟩]) []]]⟩

theorem definitions_of_tours_are_kept :
    tours.IsClosed ∧ ∃ rest,
      tours.restrict (FieldTest.annotated "authenticated").negate = rest ∧ rest.IsClosed ∧
      rest.variableDefinitions.map (·.name) = ["mode", "first", "size", "more", "tag"] ∧
      (∀ v ∈ rest.variableDefinitions, rest.Uses v.name) ∧ rest.Uses "tag" ∧
      tours.Uses "grade" ∧ ¬ rest.Uses "grade" := by
  have hclosed : tours.IsClosed := by decide
  obtain ⟨-, -, hstays, hused⟩ :=
    restriction_keeps_used_definitions tours (FieldTest.annotated "authenticated").negate
  exact ⟨hclosed, _, rfl, hstays hclosed, by decide, hused, by decide, by decide, by decide⟩

end Operation

end QueryGate
