import QueryGate.Proofs.Operation.Expansion

/-! # Inlining every spread

The plain way to get rid of fragments puts the body of a fragment in the place of each spread,
however often it is spread, and counts nothing. That succeeds exactly if each spread that is met
names a fragment which it does not lie inside of. -/
namespace QueryGate

open GraphQL (Argument Directive Document FragmentDefinition OperationDefinition Selection)

namespace Expansion

def unopened (e : Expansion) (visiting : List String) : List FragmentDefinition :=
  e.document.fragments.filter fun f => !visiting.contains f.name

theorem unopened_lt {e : Expansion} {visiting : List String} {name : String}
    {f : FragmentDefinition} (h : e.fragmentFor visiting name = .ok f) :
    (e.unopened (f.name :: visiting)).length < (e.unopened visiting).length := by
  obtain ⟨-, -, hclosed⟩ := fragmentFor_eq_ok_iff.mp h
  have hsub : e.unopened (f.name :: visiting) =
      (e.unopened visiting).filter fun g => g.name != f.name := by
    rw [unopened, unopened, List.filter_filter]
    refine List.filter_congr fun g _ => ?_
    by_cases hg : g.name = f.name <;> simp [hg]
  rw [hsub]
  refine List.length_filter_lt_length_iff_exists.mpr ⟨f, ?_, by simp⟩
  exact List.mem_filter.mpr ⟨mem_fragments h, by simpa using hclosed⟩

mutual

/-- Resolves a selection below a type as expansion does, but enters the fragment of every spread. -/
def inlinedNode (e : Expansion) (visiting : List String) (parent : Option String) :
    Selection → Except OperationError Node
  | .field aliasName name arguments directives selections => do
    let info := e.schema.fieldOrUnknown parent name
    let children ← inlinedNodes e visiting info.output selections
    return .field ⟨name, aliasName, arguments, directives, info, info.isList⟩ children
  | .inline condition directives selections => do
    let children ← inlinedNodes e visiting (condition.or parent) selections
    return .fragment ⟨condition, directives⟩ children
  | .spread name directives =>
    match _ : e.fragmentFor visiting name with
    | .error x => .error x
    | .ok f => do
      let children ← inlinedNodes e (f.name :: visiting) (some f.typeCondition) f.selections
      return .fragment ⟨some f.typeCondition, directives⟩ children
termination_by selection => ((e.unopened visiting).length, sizeOf selection)
decreasing_by
  · exact Prod.Lex.right _ (by rw [Selection.field.sizeOf_spec]; omega)
  · exact Prod.Lex.right _ (by rw [Selection.inline.sizeOf_spec]; omega)
  · exact Prod.Lex.left _ _ (unopened_lt ‹_›)

def inlinedNodes (e : Expansion) (visiting : List String) (parent : Option String) :
    List Selection → Except OperationError (List Node)
  | [] => .ok []
  | selection :: rest => do
    let node ← inlinedNode e visiting parent selection
    let nodes ← inlinedNodes e visiting parent rest
    return node :: nodes
termination_by selections => ((e.unopened visiting).length, sizeOf selections)

end

theorem inlinedNode_spread (e : Expansion) (visiting : List String) (parent : Option String)
    (name : String) (directives : List Directive) :
    e.inlinedNode visiting parent (.spread name directives) = (do
      let f ← e.fragmentFor visiting name
      let children ← e.inlinedNodes (f.name :: visiting) (some f.typeCondition) f.selections
      return .fragment ⟨some f.typeCondition, directives⟩ children) := by
  rw [inlinedNode]
  split
  · rename_i hf
    rw [hf]
    rfl
  · rename_i hf
    rw [hf]
    rfl

/-- The spreads that inlining comes across, each with the fragments that it lies inside of. -/
inductive Meets (e : Expansion) :
    (visiting : List String) → List Selection → (inside : List String) → (name : String) → Prop
    where
  | here {visiting : List String} {selections : List Selection} {name : String}
      {directives : List Directive} : .spread name directives ∈ selections →
      Meets e visiting selections visiting name
  | field {visiting inside : List String} {selections below : List Selection}
      {aliasName : Option String} {name spread : String} {arguments : List Argument}
      {directives : List Directive} :
      .field aliasName name arguments directives below ∈ selections →
      Meets e visiting below inside spread → Meets e visiting selections inside spread
  | inline {visiting inside : List String} {selections below : List Selection}
      {condition : Option String} {spread : String} {directives : List Directive} :
      .inline condition directives below ∈ selections →
      Meets e visiting below inside spread → Meets e visiting selections inside spread
  | body {visiting inside : List String} {selections : List Selection} {name spread : String}
      {directives : List Directive} {f : FragmentDefinition} :
      .spread name directives ∈ selections → e.fragmentFor visiting name = .ok f →
      Meets e (f.name :: visiting) f.selections inside spread →
      Meets e visiting selections inside spread

theorem Meets.mono {e : Expansion} {visiting inside : List String} {as bs : List Selection}
    {name : String} (h : e.Meets visiting as inside name) (hsub : as ⊆ bs) :
    e.Meets visiting bs inside name := by
  cases h with
  | here hmem => exact .here (hsub hmem)
  | field hmem hbelow => exact .field (hsub hmem) hbelow
  | inline hmem hbelow => exact .inline (hsub hmem) hbelow
  | body hmem hf hbody => exact .body (hsub hmem) hf hbody

theorem inlinedNode_of_mem {e : Expansion} {visiting : List String} {parent : Option String} :
    ∀ {selections : List Selection} {ns : List Node},
      e.inlinedNodes visiting parent selections = .ok ns →
      ∀ selection ∈ selections, ∃ n, e.inlinedNode visiting parent selection = .ok n
  | [], _, _, selection, hmem => by cases hmem
  | first :: rest, ns, h, selection, hmem => by
    rw [inlinedNodes] at h
    obtain ⟨n, hn, h⟩ := bind_eq_ok_iff.mp h
    obtain ⟨more, hmore, -⟩ := bind_eq_ok_iff.mp h
    rcases List.mem_cons.mp hmem with rfl | hmem
    · exact ⟨n, hn⟩
    · exact inlinedNode_of_mem hmore selection hmem

/-- Where inlining succeeds, each spread that it met stands for a fragment. -/
theorem fragmentFor_of_inlined {e : Expansion} {visiting inside : List String}
    {selections : List Selection} {name : String} (hmet : e.Meets visiting selections inside name)
    {parent : Option String} {ns : List Node}
    (h : e.inlinedNodes visiting parent selections = .ok ns) :
    ∃ f, e.fragmentFor inside name = .ok f := by
  induction hmet generalizing parent ns with
  | here hmem =>
    obtain ⟨n, hn⟩ := inlinedNode_of_mem h _ hmem
    rw [inlinedNode_spread] at hn
    obtain ⟨f, hf, -⟩ := bind_eq_ok_iff.mp hn
    exact ⟨f, hf⟩
  | field hmem _ ih =>
    obtain ⟨n, hn⟩ := inlinedNode_of_mem h _ hmem
    rw [inlinedNode] at hn
    obtain ⟨children, hchildren, -⟩ := bind_eq_ok_iff.mp hn
    exact ih hchildren
  | inline hmem _ ih =>
    obtain ⟨n, hn⟩ := inlinedNode_of_mem h _ hmem
    rw [inlinedNode] at hn
    obtain ⟨children, hchildren, -⟩ := bind_eq_ok_iff.mp hn
    exact ih hchildren
  | body hmem hf _ ih =>
    obtain ⟨n, hn⟩ := inlinedNode_of_mem h _ hmem
    rw [inlinedNode_spread, hf, ok_bind] at hn
    obtain ⟨children, hchildren, -⟩ := bind_eq_ok_iff.mp hn
    exact ih hchildren

mutual

theorem inlinedNode_of_met (e : Expansion) (visiting : List String) (parent : Option String) :
    ∀ selection : Selection,
      (∀ inside name, e.Meets visiting [selection] inside name →
        ∃ f, e.fragmentFor inside name = .ok f) →
      ∃ n, e.inlinedNode visiting parent selection = .ok n
  | .field aliasName name arguments directives selections, h => by
    obtain ⟨children, hchildren⟩ := inlinedNodes_of_met e visiting
      (e.schema.fieldOrUnknown parent name).output selections fun inside spread hmet =>
        h inside spread (.field List.mem_cons_self hmet)
    rw [inlinedNode, hchildren]
    exact ⟨_, rfl⟩
  | .inline condition directives selections, h => by
    obtain ⟨children, hchildren⟩ := inlinedNodes_of_met e visiting (condition.or parent) selections
      fun inside spread hmet => h inside spread (.inline List.mem_cons_self hmet)
    rw [inlinedNode, hchildren]
    exact ⟨_, rfl⟩
  | .spread name directives, h => by
    obtain ⟨f, hf⟩ := h visiting name (.here List.mem_cons_self)
    have hless := unopened_lt hf
    obtain ⟨children, hchildren⟩ := inlinedNodes_of_met e (f.name :: visiting)
      (some f.typeCondition) f.selections fun inside spread hmet =>
        h inside spread (.body List.mem_cons_self hf hmet)
    rw [inlinedNode_spread, hf, ok_bind, hchildren]
    exact ⟨_, rfl⟩
termination_by selection => ((e.unopened visiting).length, sizeOf selection)
decreasing_by
  · exact Prod.Lex.right _ (by rw [Selection.field.sizeOf_spec]; omega)
  · exact Prod.Lex.right _ (by rw [Selection.inline.sizeOf_spec]; omega)
  · exact Prod.Lex.left _ _ hless

theorem inlinedNodes_of_met (e : Expansion) (visiting : List String) (parent : Option String) :
    ∀ selections : List Selection,
      (∀ inside name, e.Meets visiting selections inside name →
        ∃ f, e.fragmentFor inside name = .ok f) →
      ∃ ns, e.inlinedNodes visiting parent selections = .ok ns
  | [], _ => ⟨[], by rw [inlinedNodes]⟩
  | selection :: rest, h => by
    obtain ⟨n, hn⟩ := inlinedNode_of_met e visiting parent selection fun inside spread hmet =>
      h inside spread (hmet.mono (by simp))
    obtain ⟨ns, hns⟩ := inlinedNodes_of_met e visiting parent rest fun inside spread hmet =>
      h inside spread (hmet.mono (by simp))
    rw [inlinedNodes, hn, ok_bind, hns]
    exact ⟨_, rfl⟩
termination_by selections => ((e.unopened visiting).length, sizeOf selections)

end

/-- Inlining succeeds exactly if each spread that it meets names a fragment which the spread does
not lie inside of. -/
theorem inlinedNodes_ok_iff (e : Expansion) (parent : Option String)
    (selections : List Selection) :
    (∃ ns, e.inlinedNodes [] parent selections = .ok ns) ↔
      ∀ inside name, e.Meets [] selections inside name → e.options.spreads = true ∧
        ∃ f, e.document.fragment? name = some f ∧ f.name ∉ inside := by
  constructor
  · rintro ⟨ns, hns⟩ inside name hmet
    obtain ⟨f, hf⟩ := fragmentFor_of_inlined hmet hns
    obtain ⟨hspreads, hfound, hclosed⟩ := fragmentFor_eq_ok_iff.mp hf
    exact ⟨hspreads, f, hfound, hclosed⟩
  · intro h
    refine inlinedNodes_of_met e [] parent selections fun inside name hmet => ?_
    obtain ⟨hspreads, f, hfound, hclosed⟩ := h inside name hmet
    exact ⟨f, fragmentFor_eq_ok_iff.mpr ⟨hspreads, hfound, hclosed⟩⟩

end Expansion

namespace Operation

def inlined (e : Expansion) (o : OperationDefinition) : Except OperationError Operation :=
  match e.schema.root? o.kind with
  | none => .error (.missingRootType o.kind)
  | some root => do
    let nodes ← e.inlinedNodes [] (some root) o.selections
    return ⟨o.kind, o.name, root, o.variableDefinitions, o.directives, nodes⟩

def readInlined (text : String) (name : Option String) (schema : Schema) (options : ExpandOptions) :
    Except OperationError Operation := do
  match Document.read text with
  | .error e => .error (.malformed e)
  | .ok document =>
    let o ← select document.operations (name.filter (!·.isEmpty))
    inlined ⟨schema, document, options⟩ o

theorem readInlined_ok_iff {text : String} {name : Option String} {s : Schema}
    {options : ExpandOptions} {document : Document} {o : OperationDefinition} {root : String}
    (hdocument : Document.read text = .ok document)
    (hselect : select document.operations (name.filter (!·.isEmpty)) = .ok o)
    (hroot : s.root? o.kind = some root) :
    (∃ b, readInlined text name s options = .ok b) ↔
      ∀ inside spread, Expansion.Meets ⟨s, document, options⟩ [] o.selections inside spread →
        options.spreads = true ∧ ∃ f, document.fragment? spread = some f ∧ f.name ∉ inside := by
  rw [← Expansion.inlinedNodes_ok_iff ⟨s, document, options⟩ (some root), readInlined, hdocument]
  simp only [hselect, ok_bind, inlined, hroot]
  constructor
  · rintro ⟨b, hb⟩
    obtain ⟨ns, hns, -⟩ := bind_eq_ok_iff.mp hb
    exact ⟨ns, hns⟩
  · rintro ⟨ns, hns⟩
    rw [hns]
    exact ⟨_, rfl⟩

end Operation

end QueryGate
