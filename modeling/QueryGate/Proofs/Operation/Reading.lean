import QueryGate.Operation.Expand
import QueryGate.Proofs.GraphQL.Reading
import QueryGate.Proofs.Operation.Spelling

/-! # Reading an operation back

The tokens of a resolved operation are read as a document with a single operation, whose selections
are the fields and inline fragments of the operation without what the schema says about them. -/
namespace QueryGate

open GraphQL (Argument Directive Document OperationDefinition Rule Selection Token
  VariableDefinition)
open GraphQL.Rule (Item NotMarked Reads notMarked_of_mark startsWithMark)

namespace Node

mutual

def selection : Node → Selection
  | .field head children =>
    .field head.aliasName head.name head.arguments head.directives (selections children)
  | .fragment head children => .inline head.typeCondition head.directives (selections children)

def selections : List Node → List Selection
  | [] => []
  | node :: rest => node.selection :: selections rest

end

theorem selections_eq (ns : List Node) : selections ns = ns.map selection := by
  induction ns with
  | nil => rfl
  | cons n ns ih => simp [selections, ih]

end Node

def Operation.definition (o : Operation) : OperationDefinition :=
  ⟨o.kind, o.name, o.variableDefinitions, o.directives, Node.selections o.nodes⟩

theorem notMarked_arguments {marks : List Char} (h : '(' ∉ marks) (arguments : List Argument) :
    NotMarked marks (Argument.listTokens arguments) := by
  unfold Argument.listTokens
  split_ifs
  · exact fun _ _ => rfl
  · exact notMarked_of_mark h _

theorem notMarked_directives {marks : List Char} (h : '@' ∉ marks) (ds : List Directive) :
    NotMarked marks (ds.flatMap Directive.tokens) := by
  cases ds with
  | nil => exact fun _ _ => rfl
  | cons d ds => exact notMarked_of_mark h _

namespace Node

def bodyTokens (children : List Node) : List Token :=
  if children.isEmpty then [] else .mark '\x7b' :: (listTokens children ++ [.mark '\x7d'])

theorem notMarked_body {marks : List Char} (h : '\x7b' ∉ marks) (children : List Node) :
    NotMarked marks (bodyTokens children) := by
  unfold bodyTokens
  split_ifs
  · exact fun _ _ => rfl
  · exact notMarked_of_mark h _

def fieldMarks : List Char := [':', '(', '@', '\x7b']

theorem body_reads {children : List Node} {inner : Rule (List Selection)}
    (h : children ≠ [] → Reads inner [] (bodyTokens children) (selections children))
    {rest : List Token} (hrest : startsWithMark '\x7b' rest = false) :
    ∃ found, Rule.optional (startsWithMark '\x7b') inner (bodyTokens children ++ rest) =
      .ok (found, rest) ∧ found.getD [] = selections children := by
  cases children with
  | nil => exact ⟨none, Rule.optional_none inner hrest, rfl⟩
  | cons c cs =>
    have hread := h (List.cons_ne_nil c cs) rest (Rule.notMarked_nil rest)
    exact ⟨some (selections (c :: cs)), Rule.optional_some rfl hread, rfl⟩

theorem field_reads {f : Field} (hf : f.WellFormed) {children : List Node}
    {inner : Rule (List Selection)}
    (h : children ≠ [] → Reads inner [] (bodyTokens children) (selections children)) :
    Reads (Rule.selection inner) fieldMarks (f.tokens ++ bodyTokens children)
      (Node.field f children).selection := by
  intro rest hrest
  obtain ⟨found, hbody, hfound⟩ := body_reads h (hrest '\x7b' (by decide))
  have hmarks : NotMarked [':', '(', '@'] (bodyTokens children ++ rest) :=
    (notMarked_body (by decide) children).append (hrest.mono (by decide))
  have hdirectives := Rule.directives_reads hf.directives _ (hmarks.mono (by decide))
  have hmarks : NotMarked [':', '('] (f.directives.flatMap Directive.tokens ++ _) :=
    (notMarked_directives (by decide) f.directives).append (hmarks.mono (by decide))
  have harguments := Rule.arguments_reads hf.arguments _ (hmarks.mono (by decide))
  have hmarks : NotMarked [':'] (Argument.listTokens f.arguments ++ _) :=
    (notMarked_arguments (by decide) f.arguments).append (hmarks.mono (by decide))
  cases ha : f.aliasName with
  | none =>
    have halias := Rule.optional_none Rule.aliased (hmarks ':' List.mem_cons_self)
    simp [Field.tokens, Field.aliasTokens, ha, Rule.selection, Rule.name, halias,
      harguments, hdirectives, hbody, hfound, selection]
  | some a =>
    have halias : Rule.optional (startsWithMark ':') Rule.aliased
        (.mark ':' :: .name f.name :: (Argument.listTokens f.arguments ++
          (f.directives.flatMap Directive.tokens ++ (bodyTokens children ++ rest)))) =
      .ok (some f.name, Argument.listTokens f.arguments ++
          (f.directives.flatMap Directive.tokens ++ (bodyTokens children ++ rest))) :=
      Rule.optional_some rfl rfl
    simp [Field.tokens, Field.aliasTokens, ha, Rule.selection, Rule.name, halias,
      harguments, hdirectives, hbody, hfound, selection]

theorem fragment_reads {f : Fragment} (hf : f.WellFormed) {children : List Node}
    {inner : Rule (List Selection)} {body : List Token}
    (h : Reads inner [] (.mark '\x7b' :: body) (selections children)) :
    Reads (Rule.selection inner) [] (f.tokens ++ .mark '\x7b' :: body)
      (Node.fragment f children).selection := by
  intro rest hrest
  have hbody := h rest hrest
  have hmarks : NotMarked ['@', '('] (.mark '\x7b' :: body ++ rest) :=
    notMarked_of_mark (by decide) _
  have hdirectives := Rule.directives_reads hf.directives _ hmarks
  cases hc : f.typeCondition with
  | none =>
    have hinline : Rule.startsInline (f.directives.flatMap Directive.tokens ++
        (.mark '\x7b' :: body ++ rest)) = true := by
      cases f.directives <;> rfl
    have hcondition : Rule.optional (Rule.startsWithName "on") Rule.typeCondition
        (f.directives.flatMap Directive.tokens ++ (.mark '\x7b' :: body ++ rest)) =
          .ok (none, f.directives.flatMap Directive.tokens ++ (.mark '\x7b' :: body ++ rest)) := by
      refine Rule.optional_none _ ?_
      cases f.directives <;> rfl
    simp only [Fragment.tokens, Fragment.conditionTokens, hc, Rule.selection, List.nil_append,
      List.cons_append, List.append_assoc] at hbody hinline hcondition hdirectives ⊢
    simp [hinline, hcondition, hdirectives, hbody, selection, hc]
  | some t =>
    have hcondition : Rule.optional (Rule.startsWithName "on") Rule.typeCondition
        (.name "on" :: .name t :: (f.directives.flatMap Directive.tokens ++
          (.mark '\x7b' :: body ++ rest))) =
            .ok (some t, f.directives.flatMap Directive.tokens ++ (.mark '\x7b' :: body ++ rest)) :=
      Rule.optional_some rfl rfl
    have hinline : ∀ ts, Rule.startsInline (.name "on" :: ts) = true := fun _ => rfl
    simp only [Fragment.tokens, Fragment.conditionTokens, hc, Rule.selection, List.nil_append,
      List.cons_append, List.append_assoc] at hbody hcondition hdirectives ⊢
    simp [hinline, hcondition, hdirectives, hbody, selection, hc]

theorem tokens_nonempty (n : Node) : n.tokens ≠ [] := by
  cases n with
  | field f cs => simp [tokens, Field.tokens]
  | fragment f cs => simp [tokens, Fragment.tokens]

/-- A node starts with a name or with three dots, and with no mark. -/
theorem notMarked_tokens (n : Node) (c : Char) (rest : List Token) :
    startsWithMark c (n.tokens ++ rest) = false := by
  cases n with
  | field f cs =>
    rw [tokens, Field.tokens]
    cases f.aliasName <;> rfl
  | fragment f cs => rfl

/-- What is read in front of another selection or of the brace behind the last one. -/
abbrev ReadsAt (depth : Nat) (n : Node) : Prop :=
  Item (!startsWithMark '\x7d' ·) (Rule.selection (Rule.selectionSet depth)) fieldMarks n.tokens
    n.selection

theorem ReadsAt.of_reads {depth : Nat} {n : Node}
    (h : Reads (Rule.selection (Rule.selectionSet depth)) fieldMarks n.tokens n.selection) :
    n.ReadsAt depth where
  nonempty := n.tokens_nonempty
  starts := fun rest => by simp [notMarked_tokens]
  notMarked := fun rest c _ => n.notMarked_tokens c rest
  reads := h

theorem selectionSet_reads {ns : List Node} (hne : ns ≠ []) {depth : Nat}
    (h : ∀ n ∈ ns, n.ReadsAt depth) :
    Reads (Rule.selectionSet (depth + 1)) [] (.mark '\x7b' :: (listTokens ns ++ [.mark '\x7d']))
      (selections ns) := by
  intro rest _
  rw [selections_eq, list_tokens_eq, Rule.selectionSet, List.cons_append, List.append_assoc,
    List.singleton_append]
  exact Rule.between_reads (by decide) hne h rest

theorem reads_at {s : Schema} {n : Node} {parent : Option String} (h : n.Resolved s parent)
    {depth : Nat} (hd : n.tokens.length ≤ depth) : n.ReadsAt depth := by
  induction n using Node.nested generalizing parent depth with
  | field f cs ih =>
    obtain ⟨hf, -, hcs⟩ := h
    refine .of_reads (field_reads hf fun hne => ?_)
    have hbody : bodyTokens cs = .mark '\x7b' :: (listTokens cs ++ [.mark '\x7d']) := by
      rw [bodyTokens, if_neg (by simpa using hne)]
    have hlen : (listTokens cs).length + 2 ≤ depth := by
      have htokens : (Node.field f cs).tokens = f.tokens ++ bodyTokens cs := rfl
      rw [htokens, hbody, List.length_append, List.length_cons, List.length_append] at hd
      simp at hd
      omega
    obtain ⟨depth, rfl⟩ : ∃ d, depth = d + 1 := ⟨depth - 1, by omega⟩
    rw [hbody]
    refine selectionSet_reads hne fun c hc => ih c hc (list_resolved_iff.mp hcs c hc) ?_
    have hmem := Rule.length_le_of_mem tokens hc
    rw [← list_tokens_eq] at hmem
    omega
  | fragment f cs ih =>
    obtain ⟨hf, hne, hcs⟩ := h
    have hlen : (listTokens cs).length + 2 ≤ depth := by
      rw [tokens, List.length_append, List.length_cons, List.length_append] at hd
      simp at hd
      omega
    obtain ⟨depth, rfl⟩ : ∃ d, depth = d + 1 := ⟨depth - 1, by omega⟩
    have hchildren : ∀ c ∈ cs, c.ReadsAt depth := by
      intro c hc
      have hmem := Rule.length_le_of_mem tokens hc
      rw [← list_tokens_eq] at hmem
      exact ih c hc (list_resolved_iff.mp hcs c hc) (by omega)
    have hread := fragment_reads hf (selectionSet_reads hne hchildren)
    exact .of_reads fun rest _ => hread rest (Rule.notMarked_nil rest)

theorem selections_read {s : Schema} {ns : List Node} {parent : Option String} (hne : ns ≠ [])
    (h : ListResolved s parent ns) :
    Reads Rule.selections [] (.mark '\x7b' :: (listTokens ns ++ [.mark '\x7d']))
      (selections ns) := by
  intro rest hrest
  rw [Rule.selections]
  refine selectionSet_reads hne (fun n hn => reads_at (list_resolved_iff.mp h n hn) ?_) rest hrest
  have hmem := Rule.length_le_of_mem tokens hn
  rw [← list_tokens_eq] at hmem
  simp
  omega

end Node

namespace Operation

theorem name_reads (name : Option String) {rest : List Token}
    (h : Rule.startsWithAnyName rest = false) :
    Rule.optional Rule.startsWithAnyName Rule.name (nameTokens name ++ rest) =
      .ok (name, rest) := by
  cases name with
  | none => exact Rule.optional_none _ h
  | some n => exact Rule.optional_some rfl rfl

theorem variables_read {definitions : List VariableDefinition}
    (h : ∀ v ∈ definitions, v.WellFormed) {rest : List Token}
    (hrest : startsWithMark '(' rest = false) :
    ∃ found, Rule.optional (startsWithMark '(') (Rule.between '(' ')' Rule.variableDefinition)
      (variableTokens definitions ++ rest) = .ok (found, rest) ∧ found.getD [] = definitions := by
  unfold variableTokens
  split_ifs with hempty
  · exact ⟨none, Rule.optional_none _ hrest, (List.isEmpty_iff.mp hempty).symm⟩
  · have hne : definitions ≠ [] := fun he => hempty (List.isEmpty_iff.mpr he)
    refine ⟨some (definitions.map fun v => v), Rule.optional_some rfl ?_, by simp⟩
    rw [List.cons_append, List.append_assoc, List.singleton_append]
    exact Rule.between_reads (by decide) hne
      (fun v hv => Rule.variableDefinition_reads (h v hv)) rest

theorem header_reads {s : Schema} {o : Operation} (h : o.Resolved s) (hne : o.nodes ≠ []) :
    Rule.operationDefinition o.kind (nameTokens o.name ++ (variableTokens o.variableDefinitions ++
      (o.directives.flatMap Directive.tokens ++
        .mark '\x7b' :: (Node.listTokens o.nodes ++ [.mark '\x7d'])))) =
      .ok (o.definition, []) := by
  have hbody := Node.selections_read hne h.nodes [] (Rule.notMarked_nil [])
  rw [List.append_nil] at hbody
  have hdirectives := Rule.directives_reads h.directives
    (.mark '\x7b' :: (Node.listTokens o.nodes ++ [.mark '\x7d'])) (notMarked_of_mark (by decide) _)
  have hmarks : NotMarked ['('] (o.directives.flatMap Directive.tokens ++
      .mark '\x7b' :: (Node.listTokens o.nodes ++ [.mark '\x7d'])) :=
    (notMarked_directives (by decide) _).append (notMarked_of_mark (by decide) _)
  obtain ⟨found, hvariables, hfound⟩ :=
    variables_read h.variableDefinitions (hmarks '(' List.mem_cons_self)
  have hstart : Rule.startsWithAnyName (variableTokens o.variableDefinitions ++
      (o.directives.flatMap Directive.tokens ++
        .mark '\x7b' :: (Node.listTokens o.nodes ++ [.mark '\x7d']))) = false := by
    unfold variableTokens
    split_ifs
    · cases o.directives <;> rfl
    · rfl
  have hname := name_reads o.name hstart
  simp [Rule.operationDefinition, hname, hvariables, hdirectives, hbody, hfound, definition]

/-- The text of an operation is read as a document that defines this operation and nothing else. -/
theorem definition_reads {s : Schema} {o : Operation} (h : o.Resolved s) (hne : o.nodes ≠ []) :
    Rule.definition o.tokens = .ok (.operation o.definition, []) := by
  unfold tokens
  split_ifs with hshort
  · simp only [isShorthand, Bool.and_eq_true, beq_iff_eq, Option.isNone_iff_eq_none,
      List.isEmpty_iff] at hshort
    obtain ⟨⟨⟨hkind, hname⟩, hvariables⟩, hdirectives⟩ := hshort
    have hbody := Node.selections_read hne h.nodes [] (Rule.notMarked_nil [])
    rw [List.append_nil] at hbody
    simp [Rule.definition, hbody, definition, hkind, hname, hvariables, hdirectives]
  · have hkind : GraphQL.OperationKind.ofWord? o.kind.word = some o.kind := by
      cases o.kind <;> rfl
    have hread := header_reads h hne
    simp only [headerTokens, List.cons_append, List.append_assoc]
    simp [Rule.definition, hkind, hread]

theorem read_document {s : Schema} {o : Operation} (h : o.Resolved s) (hne : o.nodes ≠ [])
    {text : String} (htokens : (GraphQL.scan text).items.map (·.token) = o.tokens)
    (hcomplete : (GraphQL.scan text).complete = true) :
    Document.read text = .ok ⟨[.operation o.definition]⟩ := by
  have hmany : Rule.many (!·.isEmpty) Rule.definition [] = .ok ([], []) := rfl
  simp [Document.read, GraphQL.readAll, htokens, hcomplete, definition_reads h hne, hmany,
    Except.map]

end Operation

end QueryGate
