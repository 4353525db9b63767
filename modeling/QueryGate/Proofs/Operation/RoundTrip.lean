import QueryGate.Proofs.Operation.Floats

/-! # Printing and reading are inverse

An operation that was read, or what a restriction leaves of it, is printed as a text from which the
same operation is read against the same schema: the kind, the name, the variables, the directives,
and every field with all that the schema says about it. -/
namespace QueryGate

open GraphQL (Document OperationDefinition Token)

namespace Operation

theorem select_mem {operations : List OperationDefinition} {name : Option String}
    {o : OperationDefinition} (h : select operations name = .ok o) :
    o ∈ operations ∧ ∀ n, name = some n → o.name = some n := by
  unfold select at h
  split at h
  · rename_i n
    split at h
    · rename_i found hfound
      cases h
      have hname : o.name = some n := by simpa using List.find?_some hfound
      exact ⟨List.mem_of_find?_eq_some hfound, fun m hm => Option.some.inj hm ▸ hname⟩
    · cases h
  · split at h
    · cases h
    · cases h
      exact ⟨List.mem_singleton_self o, fun n hn => nomatch hn⟩
    · cases h

theorem select_only {o : OperationDefinition} {name : Option String}
    (h : ∀ n, name = some n → o.name = some n) : select [o] name = .ok o := by
  cases name with
  | none => rfl
  | some n => simp [select, h n rfl]

structure ReadFrom (s : Schema) (options : ExpandOptions) (name : Option String) (o : Operation) :
    Prop where
  resolved : o.Resolved s
  named : ∀ n, name.filter (!·.isEmpty) = some n → o.name = some n
  counted : Node.listSize o.nodes ≤ options.maxSelections

theorem ofDefinition_resolved {e : Expansion} (hd : ∀ d ∈ e.document.definitions, d.WellFormed)
    {d : OperationDefinition} (hmem : d ∈ e.document.operations) {o : Operation}
    (h : ofDefinition e d = .ok o) :
    o.Resolved e.schema ∧ o.name = d.name ∧ o.nodes ≠ [] ∧
      Node.listSize o.nodes ≤ e.options.maxSelections := by
  have hdefinition : d.WellFormed := by
    obtain ⟨x, hx, he⟩ := List.mem_filterMap.mp hmem
    cases x with
    | operation d => cases he; exact hd _ hx
    | fragment f => cases he
  unfold ofDefinition at h
  split at h
  · cases h
  · rename_i root hroot
    obtain ⟨⟨nodes, left⟩, hnodes, h⟩ := bind_eq_ok_iff.mp h
    cases h
    obtain ⟨hyields, hne⟩ := Expansion.nodes_yields hd (Expansion.enter_yields hd _ []) []
      d.selections (some root) [] e.options.maxSelections hdefinition.selections.2 hnodes
    have hcounted := hyields.counted
    refine ⟨⟨hroot, hdefinition.name, hdefinition.variableDefinitions, hdefinition.directives,
      hyields.resolved⟩, rfl, hne hdefinition.selections.1 rfl, ?_⟩
    change Node.listSize nodes ≤ e.options.maxSelections
    omega

theorem read_from {text : String} {name : Option String} {s : Schema} {options : ExpandOptions}
    {o : Operation} (h : read text name s options = .ok o) :
    o.ReadFrom s options name ∧ o.nodes ≠ [] := by
  unfold read at h
  split at h
  · cases h
  · rename_i document hdocument
    obtain ⟨d, hselect, h⟩ := bind_eq_ok_iff.mp h
    obtain ⟨hmem, hname⟩ := select_mem hselect
    obtain ⟨hresolved, hnamed, hne, hcounted⟩ :=
      ofDefinition_resolved (GraphQL.document_well_formed hdocument) hmem h
    exact ⟨⟨hresolved, fun n hn => hnamed ▸ hname n hn, hcounted⟩, hne⟩

theorem ReadFrom.restrict {s : Schema} {options : ExpandOptions} {name : Option String}
    {o : Operation} (h : o.ReadFrom s options name) (keep : FieldTest) :
    (o.restrict keep).ReadFrom s options name where
  resolved := h.resolved.restrict keep
  named := h.named
  counted := Nat.le_trans (Node.size_restrictList keep o.nodes) h.counted

theorem ReadFrom.read_scanned {s : Schema} {options : ExpandOptions} {name : Option String}
    {o : Operation} (h : o.ReadFrom s options name) (hne : o.nodes ≠ []) {text : String}
    (htokens : (GraphQL.scan text).items.map (·.token) = o.tokens)
    (hcomplete : (GraphQL.scan text).complete = true) : read text name s options = .ok o := by
  have hdocument := read_document h.resolved hne htokens hcomplete
  have hselect := select_only (o := o.definition) h.named
  have hroot : s.root? o.definition.kind = some o.root := h.resolved.root
  have hnodes : ∀ enter visiting,
      (Expansion.mk s ⟨[.operation o.definition]⟩ options).nodes enter visiting (some o.root) []
        options.maxSelections o.definition.selections =
          .ok (o.nodes, options.maxSelections - Node.listSize o.nodes) := fun enter visiting =>
    Expansion.nodes_again enter visiting o.nodes _ _ _ h.resolved.nodes h.counted
  simp only [read, hdocument]
  have hoperations : Document.operations ⟨[.operation o.definition]⟩ = [o.definition] := rfl
  rw [hoperations, hselect]
  change ofDefinition _ _ = _
  simp only [ofDefinition, hroot, hnodes]
  rfl

theorem ReadFrom.read_again {s : Schema} {options : ExpandOptions} {name : Option String}
    {o : Operation} (h : o.ReadFrom s options name) (hne : o.nodes ≠ [])
    (hfloat : o.hasFloat = false)
    (hfit : Token.bracketsFit Token.maxOpenBrackets false o.chars = true) :
    read o.text name s options = .ok o := by
  obtain ⟨hcomplete, htokens⟩ := Token.scan_of_spells (spells h.resolved)
  have hnone := no_float hfloat
  have hreadable : o.tokens.all Token.isReadable = true := List.all_eq_true.mpr fun t ht => by
    cases t with
    | float x => exact absurd ht (hnone x)
    | _ => rfl
  rw [hreadable, hfit] at hcomplete
  rw [Token.reread_eq, Token.map_of_no_float hnone] at htokens
  exact h.read_scanned hne (htokens hcomplete) hcomplete

/-- Printing what was read, or what a restriction leaves of it, and reading the text again with the
same name, schema and options gives the same operation. -/
theorem read_text {text : String} {name : Option String} {s : Schema} {options : ExpandOptions}
    {o : Operation} (h : read text name s options = .ok o) {a : Operation}
    (ha : a = o ∨ ∃ keep, a = o.restrict keep ∧ a.isEmpty = false) (hfloat : a.hasFloat = false)
    (hfit : Token.bracketsFit Token.maxOpenBrackets false a.chars = true) :
    read a.text name s options = .ok a := by
  obtain ⟨hread, hne⟩ := read_from h
  rcases ha with rfl | ⟨keep, rfl, hempty⟩
  · exact hread.read_again hne hfloat hfit
  · have hne : (o.restrict keep).nodes ≠ [] := by
      intro hnil
      simp [isEmpty, hnil] at hempty
    exact (hread.restrict keep).read_again hne hfloat hfit

def articles : Schema :=
  let article : Contribution :=
    ⟨"Article", [], [⟨"title", .named "String", []⟩,
      ⟨"body", .nonNull (.named "String"), [⟨"authenticated", []⟩]⟩]⟩
  let query : Contribution :=
    ⟨"Query", [], [⟨"article", .list (.nonNull (.named "Article")), []⟩]⟩
  ⟨"Query", none, none, [query, article]⟩

/-- A query with a variable, an alias, nested arguments and a fragment that is spread twice. -/
def articleText : String :=
  "query Page($n: [Int!]! = [1, -2]) \x7b
     first: article(slug: \"a\\n\\\"(\", filter: \x7bby: TITLE, and: [$n, null]\x7d) @include(if: true) \x7b
       ...Parts ...Parts body \x7d \x7d
   fragment Parts on Article \x7b title ... @skip(if: $n) \x7b body \x7d \x7d"

def publicText : String :=
  "query Page($n:[Int!]!=[1,-2])\x7bfirst:article(slug:\"a\\n\\\"(\",filter:\x7band:[$n,null]," ++
    "by:TITLE\x7d)@include(if:true)\x7b...on Article\x7btitle\x7d\x7d\x7d"

theorem read_text_of_article : ∃ o a, read articleText none articles .standard = .ok o ∧
    (a = o ∨ ∃ keep, a = o.restrict keep ∧ a.isEmpty = false) ∧ a.hasFloat = false ∧
    Token.bracketsFit Token.maxOpenBrackets false a.chars = true ∧ a.text = publicText ∧
    read publicText none articles .standard = .ok a := by
  have hchecked : (read articleText none articles .standard).toOption.any (fun o =>
      let a := o.restrict (FieldTest.annotated "authenticated").negate
      !a.isEmpty && !a.hasFloat && Token.bracketsFit Token.maxOpenBrackets false a.chars &&
        a.text == publicText) = true := by decide +kernel
  obtain ⟨o, ho, hchecked⟩ := exists_ok_of_any hchecked
  simp only [Bool.and_eq_true, Bool.not_eq_true', beq_iff_eq] at hchecked
  obtain ⟨⟨⟨hempty, hfloat⟩, hfit⟩, htext⟩ := hchecked
  have hread := read_text ho (.inr ⟨_, rfl, hempty⟩) hfloat hfit
  exact ⟨o, _, ho, .inr ⟨_, rfl, hempty⟩, hfloat, hfit, htext, htext ▸ hread⟩

end Operation

end QueryGate
