import QueryGate.Proofs.Operation.Counted

/-! # What expansion reaches

A fragment leads to the fragments that are spread in it, at any depth of its fields and inline
fragments. What expansion comes to, and how many selections it visits, depends on the fragments that
it reaches from the selections of an operation, and on no others. The limit has no say in it. -/
namespace QueryGate

open GraphQL (Argument Directive Document FragmentDefinition OperationDefinition Selection)

namespace GraphQL.Document

theorem fragment?_eq_some_iff {d : Document} {name : String} {f : FragmentDefinition} :
    d.fragment? name = some f ↔ f.name = name ∧ ∃ before after,
      d.fragments = before ++ f :: after ∧ ∀ g ∈ after, g.name ≠ name := by
  rw [fragment?, List.find?_eq_some_iff_append]
  simp only [beq_iff_eq, Bool.not_eq_true', beq_eq_false_iff_ne]
  refine and_congr_right fun _ => ⟨?_, ?_⟩
  · rintro ⟨after, before, hsplit, hafter⟩
    refine ⟨before.reverse, after.reverse, ?_, fun g hg => hafter g (List.mem_reverse.mp hg)⟩
    rw [← List.reverse_reverse d.fragments, hsplit]
    simp
  · rintro ⟨before, after, hsplit, hafter⟩
    refine ⟨after.reverse, before.reverse, ?_, fun g hg => hafter g (List.mem_reverse.mp hg)⟩
    rw [hsplit]
    simp

theorem fragment?_name {d : Document} {name : String} {f : FragmentDefinition}
    (h : d.fragment? name = some f) : d.fragment? f.name = some f := by
  rw [(fragment?_eq_some_iff.mp h).1]
  exact h

/-- The names that are spread in some selections, or in a fragment that is reached from there. -/
inductive Reaches (d : Document) : List Selection → String → Prop where
  | here {selections : List Selection} {name : String} {directives : List Directive} :
      .spread name directives ∈ selections → Reaches d selections name
  | field {selections below : List Selection} {aliasName : Option String} {name spread : String}
      {arguments : List Argument} {directives : List Directive} :
      .field aliasName name arguments directives below ∈ selections →
      Reaches d below spread → Reaches d selections spread
  | inline {selections below : List Selection} {condition : Option String} {spread : String}
      {directives : List Directive} :
      .inline condition directives below ∈ selections →
      Reaches d below spread → Reaches d selections spread
  | body {selections : List Selection} {name spread : String} {directives : List Directive}
      {f : FragmentDefinition} :
      .spread name directives ∈ selections → d.fragment? name = some f →
      Reaches d f.selections spread → Reaches d selections spread

theorem Reaches.mono {d : Document} {as bs : List Selection} {name : String}
    (h : d.Reaches as name) (hsub : as ⊆ bs) : d.Reaches bs name := by
  cases h with
  | here hmem => exact .here (hsub hmem)
  | field hmem hbelow => exact .field (hsub hmem) hbelow
  | inline hmem hbelow => exact .inline (hsub hmem) hbelow
  | body hmem hfound hbody => exact .body (hsub hmem) hfound hbody

end GraphQL.Document

namespace Expansion

variable {name : String}

theorem fragmentFor_congr {e e' : Expansion} (hspreads : e'.options.spreads = e.options.spreads)
    (hsame : e'.document.fragment? name = e.document.fragment? name) (visiting : List String) :
    e'.fragmentFor visiting name = e.fragmentFor visiting name := by
  rw [fragmentFor, fragmentFor, hspreads, hsame]

mutual

theorem countedNode_congr {e e' : Expansion} (hschema : e'.schema = e.schema)
    (hspreads : e'.options.spreads = e.options.spreads) (visiting : List String)
    (parent : Option String) (seen : List String) :
    ∀ selection : Selection, (∀ name, e.document.Reaches [selection] name →
        e'.document.fragment? name = e.document.fragment? name) →
      e'.countedNode visiting parent seen selection = e.countedNode visiting parent seen selection
  | .field aliasName name arguments directives selections, h => by
    have ih := countedNodes_congr hschema hspreads visiting
      (e.schema.fieldOrUnknown parent name).output [] selections
        fun spread hreached => h spread (.field List.mem_cons_self hreached)
    rw [countedNode, countedNode, hschema, ih]
  | .inline condition directives selections, h => by
    have ih := countedNodes_congr hschema hspreads visiting (condition.or parent) [] selections
      fun spread hreached => h spread (.inline List.mem_cons_self hreached)
    rw [countedNode, countedNode, ih]
  | .spread name directives, h => by
    have hsame := fragmentFor_congr hspreads (h name (.here List.mem_cons_self)) visiting
    rw [countedNode_spread, countedNode_spread, hsame]
    cases hf : e.fragmentFor visiting name with
    | error x => rfl
    | ok f =>
      have hless := unopened_lt hf
      obtain ⟨-, hfound, -⟩ := fragmentFor_eq_ok_iff.mp hf
      have ih := countedNodes_congr hschema hspreads (f.name :: visiting) (some f.typeCondition) []
        f.selections fun spread hreached => h spread (.body List.mem_cons_self hfound hreached)
      rw [Counted.lift_bind, Counted.lift_bind]
      dsimp only
      rw [ih]
termination_by selection => ((e.unopened visiting).length, sizeOf selection)
decreasing_by
  · exact Prod.Lex.right _ (by rw [Selection.field.sizeOf_spec]; omega)
  · exact Prod.Lex.right _ (by rw [Selection.inline.sizeOf_spec]; omega)
  · exact Prod.Lex.left _ _ hless

/-- Expansion depends on the fragments that it reaches, and on no others. -/
theorem countedNodes_congr {e e' : Expansion} (hschema : e'.schema = e.schema)
    (hspreads : e'.options.spreads = e.options.spreads) (visiting : List String)
    (parent : Option String) (seen : List String) :
    ∀ selections : List Selection, (∀ name, e.document.Reaches selections name →
        e'.document.fragment? name = e.document.fragment? name) →
      e'.countedNodes visiting parent seen selections =
        e.countedNodes visiting parent seen selections
  | [], _ => by rw [countedNodes, countedNodes]
  | selection :: rest, h => by
    have ihnode := countedNode_congr hschema hspreads visiting parent seen selection
      fun name hreached => h name (hreached.mono (by simp))
    have ihrest := fun seen => countedNodes_congr hschema hspreads visiting parent seen rest
      fun name hreached => h name (hreached.mono (by simp))
    rw [countedNodes, countedNodes, ihnode]
    simp only [ihrest]
termination_by selections => ((e.unopened visiting).length, sizeOf selections)

end

end Expansion

namespace Operation

open Expansion

theorem counted_congr {e e' : Expansion} {o : OperationDefinition} (hschema : e'.schema = e.schema)
    (hspreads : e'.options.spreads = e.options.spreads)
    (hsame : ∀ name, e.document.Reaches o.selections name →
      e'.document.fragment? name = e.document.fragment? name) : counted e' o = counted e o := by
  rw [counted, counted, hschema]
  cases e.schema.root? o.kind with
  | none => rfl
  | some root =>
    dsimp only
    rw [countedNodes_congr hschema hspreads [] (some root) [] o.selections hsame]

def readCounted (text : String) (name : Option String) (s : Schema) (spreads : Bool) :
    Counted Operation :=
  match Document.read text with
  | .error y => .lift (.error (.malformed y))
  | .ok document => do
    let o ← .lift (select document.operations (name.filter (!·.isEmpty)))
    -- Any limit does here: counted expansion does not look at it.
    counted ⟨s, document, ⟨spreads, 0⟩⟩ o

theorem read_counted (text : String) (name : Option String) (s : Schema) (options : ExpandOptions) :
    read text name s options =
      (readCounted text name s options.spreads).cut options.maxSelections := by
  rw [read, readCounted]
  cases Document.read text with
  | error y => exact (Counted.cut_lift _ _).symm
  | ok document =>
    dsimp only
    rw [Counted.lift_bind]
    cases select document.operations (name.filter (!·.isEmpty)) with
    | error y => exact (Counted.cut_lift _ _).symm
    | ok o =>
      have hsame : counted ⟨s, document, options⟩ o =
          counted ⟨s, document, ⟨options.spreads, 0⟩⟩ o := counted_congr rfl rfl fun _ _ => rfl
      rw [ok_bind, ofDefinition_counted, hsame]

theorem visits_le_of_read {text : String} {name : Option String} {s : Schema}
    {options : ExpandOptions} {o : Operation} (h : read text name s options = .ok o) :
    (readCounted text name s options.spreads).visits ≤ options.maxSelections := by
  rw [read_counted, Counted.cut] at h
  by_contra hover
  rw [if_neg hover] at h
  cases h

theorem select_unlimited (operations : List OperationDefinition) (name : Option String) :
    (Counted.lift (select operations name)).Unlimited := by
  intro limit h
  simp only [Counted.lift, select] at h
  split at h <;> split at h <;> cases h

theorem readCounted_unlimited (text : String) (name : Option String) (s : Schema) (spreads : Bool) :
    (readCounted text name s spreads).Unlimited := by
  rw [readCounted]
  split
  · intro limit h
    cases h
  · exact (select_unlimited _ _).bind fun o _ => counted_unlimited _ o

end Operation

end QueryGate
