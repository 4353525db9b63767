import QueryGate.Proofs.Schema.Tables

/-! # Definitions in another order

The definitions of a schema may be moved past each other as long as the parts of each type, and the
schema blocks, stay in their order. Root types and fields are the same then, with the annotations
that a field has from a type before or behind it. -/
namespace QueryGate

open GraphQL (TypeSystemDefinition)

namespace GraphQL.TypeSystemDefinition

def typeName? : TypeSystemDefinition → Option String
  | .type t | .extension t => some t.name
  | .schema .. | .directive _ => none

def isSchema : TypeSystemDefinition → Bool
  | .schema .. => true
  | .type _ | .extension _ | .directive _ => false

/-- The same definitions in another order. The definitions and extensions of each type keep theirs,
and so do the schema blocks. -/
structure Rearranges (as bs : List TypeSystemDefinition) : Prop where
  perm : as.Perm bs
  types : ∀ type, as.filter (·.typeName? == some type) = bs.filter (·.typeName? == some type)
  blocks : as.filter isSchema = bs.filter isSchema

end GraphQL.TypeSystemDefinition

namespace Schema

/-- No question about root types or fields tells two results of reading a schema apart, whatever
order the tables of fields are made in. -/
inductive Alike : Except SchemaError Schema → Except SchemaError Schema → Prop where
  | missing : Alike (.error .missingQueryType) (.error .missingQueryType)
  | same {s u : Schema} (root : ∀ kind, u.root? kind = s.root? kind)
      (field : ∀ type name, u.field? type name = s.field? type name)
      (exists_table : (∃ t, s.IsTable t) ∧ ∃ t, u.IsTable t)
      (table : ∀ t, s.IsTable t ∨ u.IsTable t →
        ∀ type name, (t type).bind (· name) = s.field? type name) :
      Alike (.ok s) (.ok u)

theorem declaredRoots_filter (ds : List TypeSystemDefinition) :
    declaredRoots (ds.filter (·.isSchema)) = declaredRoots ds := by
  simp only [declaredRoots, ← List.filter_reverse, ← List.head?_filterMap, List.filterMap_filter]
  congr 4
  funext d
  cases d <;> rfl

theorem ofDefinition?_type {d : TypeSystemDefinition} {c : Contribution}
    (h : Contribution.ofDefinition? d = some c) : d.typeName? = some c.type := by
  cases d with
  | type t =>
    cases h
    rfl
  | extension t =>
    rw [Contribution.ofDefinition?_extension] at h
    split at h
    · cases h
      rfl
    · cases h
  | schema _ _ _ => cases h
  | directive _ => cases h

theorem contributionsOf_filter (ds : List TypeSystemDefinition) (type : String) :
    contributionsOf (ds.filter (·.typeName? == some type)) =
      (contributionsOf ds).filter (·.type == type) := by
  rw [contributionsOf, contributionsOf, List.filterMap_filter, List.filter_filterMap]
  congr 1
  funext d
  cases hd : Contribution.ofDefinition? d with
  | none => simp
  | some c => simp [ofDefinition?_type hd, Option.filter]

theorem ofDefinitions_error {ds : List TypeSystemDefinition} {e : SchemaError}
    (h : ofDefinitions ds = .error e) : e = .missingQueryType := by
  unfold ofDefinitions at h
  dsimp only at h
  split at h
  · cases h
    rfl
  · cases h

theorem read_of_readAll {text : String} {ds : List TypeSystemDefinition}
    (h : TypeSystemDefinition.readAll text = .ok ds) : read text = ofDefinitions ds := by
  rw [read, h]

section

variable {as bs : List TypeSystemDefinition} {s u : Schema}

theorem contributions_of_rearranged (h : TypeSystemDefinition.Rearranges as bs) (type : String) :
    (contributionsOf bs).filter (·.type == type) = (contributionsOf as).filter (·.type == type) := by
  rw [← contributionsOf_filter, ← contributionsOf_filter, h.types]

theorem declares_eq_filter (cs : List Contribution) (type : String) :
    declares cs type = !(cs.filter (·.type == type)).isEmpty := by
  rw [Bool.eq_iff_iff]
  simp [declares]

/-- What the schema says about a field depends on what is contributed to each type only. -/
theorem field_of_same_contributions
    (h : ∀ type, u.contributions.filter (·.type == type) = s.contributions.filter (·.type == type))
    (type name : String) : u.field? type name = s.field? type name := by
  have hfields (type : String) : u.fieldsOf type = s.fieldsOf type := by
    rw [fieldsOf, fieldsOf, h]
  refine (same_field_iff hfields).mpr fun _ out _ _ => ?_
  rw [annotationsOf, annotationsOf, h]

theorem ofDefinitions_of_rearranged (h : TypeSystemDefinition.Rearranges as bs) :
    Alike (ofDefinitions as) (ofDefinitions bs) := by
  have hroots : declaredRoots bs = declaredRoots as := by
    rw [← declaredRoots_filter bs, ← h.blocks, declaredRoots_filter]
  have hcontributions := contributions_of_rearranged h
  have hdeclares (type : String) :
      declares (contributionsOf bs) type = declares (contributionsOf as) type := by
    rw [declares_eq_filter, declares_eq_filter, hcontributions]
  cases has : ofDefinitions as with
  | error e =>
    obtain rfl := ofDefinitions_error has
    rw [ofDefinitions_of_same_roots hroots hdeclares, has]
    exact .missing
  | ok s =>
    obtain ⟨u, hu, hroot, hc⟩ := ofDefinitions_ok_of_same_roots hroots hdeclares has
    rw [hu]
    have hfield : ∀ type name, u.field? type name = s.field? type name := by
      refine field_of_same_contributions fun type => ?_
      rw [hc, contributions_of_definitions has, hcontributions]
    refine .same hroot hfield ⟨s.exists_isTable, u.exists_isTable⟩ fun t ht type name => ?_
    rcases ht with ht | ht
    · exact ht.lookup type name
    · rw [ht.lookup, hfield]

/-- Definitions in another order make no difference, neither to the schema nor to a text. -/
theorem rearranged_definitions_are_alike (h : TypeSystemDefinition.Rearranges as bs) :
    Alike (ofDefinitions as) (ofDefinitions bs) ∧
      ∀ text other, TypeSystemDefinition.readAll text = .ok as →
        TypeSystemDefinition.readAll other = .ok bs → Alike (read text) (read other) := by
  have halike := ofDefinitions_of_rearranged h
  refine ⟨halike, fun text other htext hother => ?_⟩
  rw [read_of_readAll htext, read_of_readAll hother]
  exact halike

end

/-- The account is described behind its use, its annotation in an extension at the end. -/
def accountText : String :=
  "type Query \x7b me: Account \x7d type Account \x7b id: ID \x7d extend type Account @authenticated"

def rearrangedAccountText : String :=
  "type Account \x7b id: ID \x7d extend type Account @authenticated type Query \x7b me: Account \x7d"

theorem account_before_its_use_is_alike : ∃ as bs : List TypeSystemDefinition,
    TypeSystemDefinition.readAll accountText = .ok as ∧
    TypeSystemDefinition.readAll rearrangedAccountText = .ok bs ∧
    TypeSystemDefinition.Rearranges as bs ∧ Alike (read accountText) (read rearrangedAccountText) ∧
    ∃ s u, read accountText = .ok s ∧ read rearrangedAccountText = .ok u ∧
      (s.field? "Query" "me").map (·.isAnnotated "authenticated") = some true ∧
      u.field? "Query" "me" = s.field? "Query" "me" := by
  let query : TypeSystemDefinition := .type (queryFor "me" "Account")
  let type : TypeSystemDefinition := .type ⟨.object, "Account", [], [], [⟨"id", .named "ID", []⟩]⟩
  let extension : TypeSystemDefinition :=
    .extension ⟨.object, "Account", [], [⟨"authenticated", []⟩], []⟩
  have hperm : ([query] ++ [type, extension]).Perm ([type, extension] ++ [query]) :=
    List.perm_append_comm
  have htypes (name : String) : [query, type, extension].filter (·.typeName? == some name) =
      [type, extension, query].filter (·.typeName? == some name) := by
    by_cases hname : name = "Query"
    · subst hname
      rfl
    · have hquery : (query.typeName? == some name) = false := by
        simpa [query, queryFor, TypeSystemDefinition.typeName?] using fun h => hname h.symm
      simp [List.filter_cons, hquery]
  have hrearranges : TypeSystemDefinition.Rearranges [query, type, extension]
      [type, extension, query] := ⟨hperm, htypes, rfl⟩
  have htext : TypeSystemDefinition.readAll accountText = .ok [query, type, extension] := rfl
  have hother : TypeSystemDefinition.readAll rearrangedAccountText =
      .ok [type, extension, query] := rfl
  obtain ⟨-, htexts⟩ := rearranged_definitions_are_alike hrearranges
  exact ⟨_, _, htext, hother, hrearranges, htexts _ _ htext hother, _, _,
    (read_of_readAll htext).trans rfl, (read_of_readAll hother).trans rfl, by decide, by decide⟩

end Schema

end QueryGate
