import QueryGate.Proofs.GraphQL.Spelling
import QueryGate.Proofs.Operation.Resolved

/-! # The tokens of operations

The compact text of a resolved operation spells the tokens of its header and its selections. -/
namespace QueryGate

open GraphQL (Argument Directive Token VariableDefinition joined)
open GraphQL.Token (Spells separated separated_append)

namespace Field

def aliasTokens : Option String → List Token
  | none => []
  | some a => [.name a, .mark ':']

def tokens (f : Field) : List Token :=
  aliasTokens f.aliasName ++ .name f.name ::
    (Argument.listTokens f.arguments ++ f.directives.flatMap Directive.tokens)

theorem spells {f : Field} (h : f.WellFormed) : Spells f.chars f.tokens := by
  obtain ⟨hsep, hdirectives⟩ := Directive.spells_list h.directives
  have harguments := (Argument.spells_list h.arguments).append hsep hdirectives
  have hname := (Token.Spells.name h.name).append
    (separated_append (Argument.separated_listChars f.arguments) hsep) harguments
  cases ha : f.aliasName with
  | none => simpa [chars, tokens, aliasTokens, ha] using hname
  | some a =>
    have hwhole := (Token.Spells.name (h.aliasName a ha)).append rfl (.mark (c := ':') rfl hname)
    simpa [chars, tokens, aliasTokens, ha] using hwhole

end Field

namespace Fragment

def conditionTokens : Option String → List Token
  | none => []
  | some t => [.name "on", .name t]

def tokens (f : Fragment) : List Token :=
  .spread :: (conditionTokens f.typeCondition ++ f.directives.flatMap Directive.tokens)

theorem spells {f : Fragment} (h : f.WellFormed) : Spells f.chars f.tokens := by
  obtain ⟨hsep, hdirectives⟩ := Directive.spells_list h.directives
  cases ht : f.typeCondition with
  | none => simpa [chars, tokens, conditionTokens, ht] using hdirectives.spread
  | some t =>
    have htype := (Token.Spells.name (h.typeCondition t ht)).append hsep hdirectives
    have hon : Spells "on".toList [.name "on"] := .name ⟨'o', _, rfl, rfl, rfl⟩
    have hwhole := hon.append rfl (.separator (c := ' ') (.inl rfl) htype)
    simpa [chars, tokens, conditionTokens, ht] using hwhole.spread

end Fragment

namespace Node

mutual

def tokens : Node → List Token
  | .field head children =>
    head.tokens ++
      (if children.isEmpty then [] else .mark '\x7b' :: (listTokens children ++ [.mark '\x7d']))
  | .fragment head children =>
    head.tokens ++ .mark '\x7b' :: (listTokens children ++ [.mark '\x7d'])

def listTokens : List Node → List Token
  | [] => []
  | node :: rest => node.tokens ++ listTokens rest

end

theorem list_tokens_eq (ns : List Node) : listTokens ns = ns.flatMap tokens := by
  induction ns with
  | nil => rfl
  | cons n ns ih => simp [listTokens, ih]

theorem list_chars_eq (ns : List Node) : listChars ns = ns.map chars := by
  induction ns with
  | nil => rfl
  | cons n ns ih => simp [listChars, ih]

theorem spells_in_braces {ns : List Node} (h : ∀ n ∈ ns, Spells n.chars n.tokens) :
    Spells (inBraces (listChars ns)) (.mark '\x7b' :: (listTokens ns ++ [.mark '\x7d'])) := by
  rw [list_tokens_eq, list_chars_eq]
  exact (Token.Spells.joined (.inl rfl) h).enclosed rfl rfl

theorem spells {s : Schema} {n : Node} {parent : Option String} (h : n.Resolved s parent) :
    Spells n.chars n.tokens := by
  induction n using Node.nested generalizing parent with
  | field f cs ih =>
    obtain ⟨hhead, -, hcs⟩ := h
    have hchildren := spells_in_braces fun c hc => ih c hc (list_resolved_iff.mp hcs c hc)
    rw [chars, tokens]
    split_ifs
    · simpa using Field.spells hhead
    · exact (Field.spells hhead).append rfl hchildren
  | fragment f cs ih =>
    obtain ⟨hhead, -, hcs⟩ := h
    have hchildren := spells_in_braces fun c hc => ih c hc (list_resolved_iff.mp hcs c hc)
    exact (Fragment.spells hhead).append rfl hchildren

end Node

namespace Operation

def nameTokens : Option String → List Token
  | none => []
  | some n => [.name n]

def variableTokens (definitions : List VariableDefinition) : List Token :=
  if definitions.isEmpty then []
  else .mark '(' :: (definitions.flatMap VariableDefinition.tokens ++ [.mark ')'])

def headerTokens (o : Operation) : List Token :=
  .name o.kind.word :: (nameTokens o.name ++
    (variableTokens o.variableDefinitions ++ o.directives.flatMap Directive.tokens))

def tokens (o : Operation) : List Token :=
  (if o.isShorthand then [] else o.headerTokens) ++
    .mark '\x7b' :: (Node.listTokens o.nodes ++ [.mark '\x7d'])

theorem spells_header {s : Schema} {o : Operation} (h : o.Resolved s) :
    Spells o.headerChars o.headerTokens := by
  obtain ⟨hsep, hdirectives⟩ := Directive.spells_list h.directives
  have hvariables := Token.Spells.joined (c := ',') (.inr rfl) fun v hv =>
    VariableDefinition.spells (h.variableDefinitions v hv)
  have hkind : GraphQL.Token.IsName o.kind.word := by
    cases o.kind <;> exact ⟨_, _, rfl, rfl, rfl⟩
  have hrest : separated ((if o.variableDefinitions.isEmpty then []
        else '(' :: joined ',' (o.variableDefinitions.map VariableDefinition.chars) ++ [')']) ++
          o.directives.flatMap Directive.chars) = true ∧
      Spells ((if o.variableDefinitions.isEmpty then []
        else '(' :: joined ',' (o.variableDefinitions.map VariableDefinition.chars) ++ [')']) ++
          o.directives.flatMap Directive.chars)
        (variableTokens o.variableDefinitions ++ o.directives.flatMap Directive.tokens) := by
    unfold variableTokens
    split_ifs
    · exact ⟨hsep, hdirectives⟩
    · exact ⟨rfl, (hvariables.enclosed rfl rfl).append hsep hdirectives⟩
  unfold headerChars headerTokens
  rw [List.append_assoc]
  cases hn : o.name with
  | none => simpa [nameTokens] using (Token.Spells.name hkind).append hrest.1 hrest.2
  | some n =>
    have hname := (Token.Spells.name (h.name n hn)).append hrest.1 hrest.2
    have hwhole := (Token.Spells.name hkind).append rfl (.separator (c := ' ') (.inl rfl) hname)
    simpa [nameTokens] using hwhole

theorem spells {s : Schema} {o : Operation} (h : o.Resolved s) : Spells o.chars o.tokens := by
  have hbody := Node.spells_in_braces fun n hn =>
    Node.spells (Node.list_resolved_iff.mp h.nodes n hn)
  unfold chars tokens
  split_ifs
  · exact hbody
  · exact (spells_header h).append rfl hbody

end Operation

end QueryGate
