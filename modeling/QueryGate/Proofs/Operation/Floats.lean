import QueryGate.Proofs.GraphQL.Floats
import QueryGate.Proofs.Operation.Expansion

/-! # The fractional numbers of an operation

They are those of its arguments, its directives and the defaults of its variables. Replacing them
keeps an operation resolved and changes nothing else of its tokens. -/
namespace QueryGate

open GraphQL (Argument Directive Replaces Token Value VariableDefinition)

def Field.mapFloats (g : Binary64 → Value) (f : Field) : Field :=
  { f with
    arguments := f.arguments.map (Argument.mapFloats g)
    directives := f.directives.map (Directive.mapFloats g) }

def Fragment.mapFloats (g : Binary64 → Value) (f : Fragment) : Fragment :=
  { f with directives := f.directives.map (Directive.mapFloats g) }

namespace Node

mutual

def mapFloats (g : Binary64 → Value) : Node → Node
  | .field head children => .field (head.mapFloats g) (mapList g children)
  | .fragment head children => .fragment (head.mapFloats g) (mapList g children)

def mapList (g : Binary64 → Value) : List Node → List Node
  | [] => []
  | node :: rest => node.mapFloats g :: mapList g rest

end

theorem mapList_eq (g : Binary64 → Value) (ns : List Node) : mapList g ns = ns.map (mapFloats g) := by
  induction ns with
  | nil => rfl
  | cons n ns ih => simp [mapList, ih]

end Node

namespace Operation

def mapFloats (g : Binary64 → Value) (o : Operation) : Operation :=
  { o with
    variableDefinitions := o.variableDefinitions.map (VariableDefinition.mapFloats g)
    directives := o.directives.map (Directive.mapFloats g)
    nodes := Node.mapList g o.nodes }

def floats (o : Operation) : List Binary64 :=
  o.tokens.filterMap fun
    | .float x => some x
    | _ => none

theorem mem_floats {o : Operation} {x : Binary64} : x ∈ o.floats ↔ Token.float x ∈ o.tokens := by
  unfold floats
  constructor
  · intro h
    obtain ⟨t, ht, he⟩ := List.mem_filterMap.mp h
    cases t with
    | float y => exact Option.some.inj he ▸ ht
    | _ => cases he
  · exact fun h => List.mem_filterMap.mpr ⟨.float x, h, rfl⟩

end Operation

section Replacing

variable {g : Binary64 → Value} {t : Binary64 → Token} (h : Replaces g t)

include h

theorem Field.tokens_mapFloats (f : Field) :
    (f.mapFloats g).tokens = f.tokens.map (Token.mapFloat t) := by
  have halias : (aliasTokens f.aliasName).map (Token.mapFloat t) = aliasTokens f.aliasName := by
    cases f.aliasName <;> rfl
  simp [mapFloats, tokens, h.arguments_tokens, h.directives_tokens, halias, Token.mapFloat]

theorem Fragment.tokens_mapFloats (f : Fragment) :
    (f.mapFloats g).tokens = f.tokens.map (Token.mapFloat t) := by
  have hcondition : (conditionTokens f.typeCondition).map (Token.mapFloat t) =
      conditionTokens f.typeCondition := by
    cases f.typeCondition <;> rfl
  simp [mapFloats, tokens, h.directives_tokens, hcondition, Token.mapFloat]

theorem Node.tokens_mapFloats (n : Node) :
    (n.mapFloats g).tokens = n.tokens.map (Token.mapFloat t) := by
  induction n using Node.nested with
  | field f cs ih =>
    have hcs := Token.map_flatMap (f := Node.mapFloats g) ih
    rw [mapFloats, tokens, tokens, mapList_eq, list_tokens_eq, list_tokens_eq, hcs,
      Field.tokens_mapFloats h, List.isEmpty_map, List.map_append]
    split_ifs
    · rfl
    · simp [Token.mapFloat]
  | fragment f cs ih =>
    have hcs := Token.map_flatMap (f := Node.mapFloats g) ih
    rw [mapFloats, tokens, tokens, mapList_eq, list_tokens_eq, list_tokens_eq, hcs,
      Fragment.tokens_mapFloats h]
    simp [Token.mapFloat]

theorem Operation.tokens_mapFloats (o : Operation) :
    (o.mapFloats g).tokens = o.tokens.map (Token.mapFloat t) := by
  have hnodes : Node.listTokens (o.mapFloats g).nodes =
      (Node.listTokens o.nodes).map (Token.mapFloat t) := by
    rw [mapFloats, Node.mapList_eq, Node.list_tokens_eq, Node.list_tokens_eq]
    exact Token.map_flatMap fun n _ => Node.tokens_mapFloats h n
  have hname : (nameTokens o.name).map (Token.mapFloat t) = nameTokens o.name := by
    cases o.name <;> rfl
  have hvariables : variableTokens (o.mapFloats g).variableDefinitions =
      (variableTokens o.variableDefinitions).map (Token.mapFloat t) := by
    have hall : (o.variableDefinitions.map (VariableDefinition.mapFloats g)).flatMap
        VariableDefinition.tokens =
          (o.variableDefinitions.flatMap VariableDefinition.tokens).map (Token.mapFloat t) :=
      Token.map_flatMap fun v _ => h.variable_tokens v
    rw [variableTokens, mapFloats, List.isEmpty_map, hall, variableTokens]
    split_ifs
    · rfl
    · simp [Token.mapFloat]
  have hheader : (o.mapFloats g).headerTokens = o.headerTokens.map (Token.mapFloat t) := by
    rw [headerTokens, hvariables]
    simp [headerTokens, mapFloats, hname, h.directives_tokens, Token.mapFloat]
  have hshort : (o.mapFloats g).isShorthand = o.isShorthand := by
    simp [isShorthand, mapFloats]
  rw [tokens, hnodes, hheader, hshort, tokens]
  split_ifs <;> simp [Token.mapFloat]

theorem Field.WellFormed.mapFloats {f : Field} (hf : f.WellFormed) : (f.mapFloats g).WellFormed where
  name := hf.name
  aliasName := hf.aliasName
  arguments := List.forall_mem_map.mpr fun a ha => h.argument_wellFormed (hf.arguments a ha)
  directives := List.forall_mem_map.mpr fun d hd => h.directive_wellFormed (hf.directives d hd)

theorem Fragment.WellFormed.mapFloats {f : Fragment} (hf : f.WellFormed) :
    (f.mapFloats g).WellFormed where
  typeCondition := hf.typeCondition
  directives := List.forall_mem_map.mpr fun d hd => h.directive_wellFormed (hf.directives d hd)

theorem Node.Resolved.mapFloats {s : Schema} {n : Node} {parent : Option String}
    (hn : n.Resolved s parent) : (n.mapFloats g).Resolved s parent := by
  induction n using Node.nested generalizing parent with
  | field f cs ih =>
    obtain ⟨hhead, hinfo, hcs⟩ := hn
    refine ⟨hhead.mapFloats h, ⟨hinfo.info, hinfo.isList⟩, ?_⟩
    rw [mapList_eq]
    refine list_resolved_iff.mpr (List.forall_mem_map.mpr fun c hc => ?_)
    exact ih c hc (list_resolved_iff.mp hcs c hc)
  | fragment f cs ih =>
    obtain ⟨hhead, hne, hcs⟩ := hn
    rw [Node.mapFloats, mapList_eq]
    refine ⟨hhead.mapFloats h, by simpa using hne, ?_⟩
    refine list_resolved_iff.mpr (List.forall_mem_map.mpr fun c hc => ?_)
    exact ih c hc (list_resolved_iff.mp hcs c hc)

theorem Operation.Resolved.mapFloats {s : Schema} {o : Operation} (ho : o.Resolved s) :
    (o.mapFloats g).Resolved s where
  root := ho.root
  name := ho.name
  variableDefinitions := List.forall_mem_map.mpr fun v hv =>
    h.variable_wellFormed (ho.variableDefinitions v hv)
  directives := List.forall_mem_map.mpr fun d hd => h.directive_wellFormed (ho.directives d hd)
  nodes := by
    rw [Operation.mapFloats, Node.mapList_eq]
    refine Node.list_resolved_iff.mpr (List.forall_mem_map.mpr fun n hn => ?_)
    exact (Node.list_resolved_iff.mp ho.nodes n hn).mapFloats h

end Replacing

namespace Node

mutual

theorem size_mapFloats (g : Binary64 → Value) : ∀ n : Node, (n.mapFloats g).size = n.size
  | .field head children => by rw [mapFloats, size, size, size_mapList g children]
  | .fragment head children => by rw [mapFloats, size, size, size_mapList g children]

theorem size_mapList (g : Binary64 → Value) : ∀ ns : List Node, listSize (mapList g ns) = listSize ns
  | [] => rfl
  | n :: ns => by rw [mapList, listSize, listSize, size_mapFloats g n, size_mapList g ns]

end

end Node

theorem Field.no_float {f : Field} (h : f.hasFloat = false) (x : Binary64) :
    Token.float x ∉ f.tokens := by
  have h : Argument.haveFloat f.arguments = false ∧ Directive.haveFloat f.directives = false := by
    simpa [hasFloat] using h
  have harguments := Argument.no_float h.1 x
  have hdirectives : ∀ d ∈ f.directives, Token.float x ∉ d.tokens := by
    simpa using Directive.no_float h.2 x
  cases ha : f.aliasName <;> simpa [tokens, aliasTokens, ha] using ⟨harguments, hdirectives⟩

theorem Fragment.no_float {f : Fragment} (h : Directive.haveFloat f.directives = false)
    (x : Binary64) : Token.float x ∉ f.tokens := by
  have hdirectives : ∀ d ∈ f.directives, Token.float x ∉ d.tokens := by
    simpa using Directive.no_float h x
  cases ht : f.typeCondition <;> simpa [tokens, conditionTokens, ht] using hdirectives

theorem Node.no_float {n : Node} (h : n.hasFloat = false) (x : Binary64) :
    Token.float x ∉ n.tokens := by
  induction n using Node.nested with
  | field f cs ih =>
    have h : f.hasFloat = false ∧ listHasFloat cs = false := by simpa [hasFloat] using h
    have hhead := Field.no_float h.1 x
    have hcs : ∀ c ∈ cs, Token.float x ∉ c.tokens := fun c hc =>
      ih c hc (list_has_no_float_iff.mp h.2 c hc)
    rw [tokens, list_tokens_eq]
    split_ifs
    · simpa using hhead
    · simpa using ⟨hhead, hcs⟩
  | fragment f cs ih =>
    have h : Directive.haveFloat f.directives = false ∧ listHasFloat cs = false := by
      simpa [hasFloat] using h
    have hhead := Fragment.no_float h.1 x
    have hcs : ∀ c ∈ cs, Token.float x ∉ c.tokens := fun c hc =>
      ih c hc (list_has_no_float_iff.mp h.2 c hc)
    rw [tokens, list_tokens_eq]
    simpa using ⟨hhead, hcs⟩

theorem Operation.no_float {o : Operation} (h : o.hasFloat = false) (x : Binary64) :
    Token.float x ∉ o.tokens := by
  simp only [hasFloat, Bool.or_eq_false_iff] at h
  obtain ⟨⟨hvariables, hdirectives⟩, hnodes⟩ := h
  have hvariables : ∀ v ∈ o.variableDefinitions, v.default.any Value.hasFloat = false := by
    simpa [VariableDefinition.haveFloat] using hvariables
  have hdefinitions : Token.float x ∉ variableTokens o.variableDefinitions := by
    have hall : ∀ v ∈ o.variableDefinitions, Token.float x ∉ v.tokens := fun v hv =>
      VariableDefinition.no_float (hvariables v hv) x
    unfold variableTokens
    split_ifs
    · exact List.not_mem_nil
    · simpa using hall
  have hdirectives : ∀ d ∈ o.directives, Token.float x ∉ d.tokens := by
    simpa using Directive.no_float hdirectives x
  have hbody : ∀ n ∈ o.nodes, Token.float x ∉ n.tokens := fun n hn =>
    Node.no_float (Node.list_has_no_float_iff.mp hnodes n hn) x
  have hheader : Token.float x ∉ o.headerTokens := by
    cases hn : o.name <;> simpa [headerTokens, nameTokens, hn] using ⟨hdefinitions, hdirectives⟩
  rw [tokens, Node.list_tokens_eq]
  split_ifs
  · simpa using hbody
  · simpa using ⟨hheader, hbody⟩

end QueryGate
