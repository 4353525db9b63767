import Mathlib.Data.List.Basic
import QueryGate.Proofs.Access.Pruning

/-! # Restricting twice

A test that sees of the selections below a field only whether there are any answers the same on what
another restriction leaves of the field. Two restrictions after each other are therefore one by both
tests, also in the variable definitions: a pruned tree uses no variable that the whole tree does not
use, so the definitions that the first restriction drops would be dropped by the second one. -/
namespace QueryGate

open Node (restrictList)

namespace FieldTest

def both (p q : FieldTest) : FieldTest := fun field children => p field children && q field children

theorem both_self (p : FieldTest) : p.both p = p := by
  funext field children
  exact Bool.and_self _

theorem both_comm (p q : FieldTest) : p.both q = q.both p := by
  funext field children
  exact Bool.and_comm _ _

end FieldTest

namespace Node

theorem restrictList_both {p q : FieldTest} {ns : List Node}
    (h : ∀ n ∈ ns, (n.restrict p).bind (restrict q) = n.restrict (p.both q)) :
    restrictList q (restrictList p ns) = restrictList (p.both q) ns := by
  rw [restrictList_eq, restrictList_eq, restrictList_eq, List.filterMap_filterMap]
  exact List.filterMap_congr h

/-- A restriction after another one is a single one. The second test is made when some of the nodes
below a field are gone, but never all of them. -/
theorem restrict_both (p : FieldTest) {q : FieldTest} (hq : q.ShapeOnly) (n : Node) :
    (n.restrict p).bind (restrict q) = n.restrict (p.both q) := by
  induction n using Node.nested with
  | field f cs ih =>
    have hkept := restrictList_both ih
    have hempty : cs = [] → restrictList p cs = [] := by rintro rfl; rfl
    rw [restrict_field_eq p, restrict_field_eq (p.both q), ← hkept]
    by_cases hp : p f cs = true ∧ (restrictList p cs = [] → cs = [])
    · have hiff : restrictList p cs = [] ↔ cs = [] := ⟨hp.2, hempty⟩
      have hshape : (restrictList p cs).isEmpty = cs.isEmpty := by
        rw [Bool.eq_iff_iff, List.isEmpty_iff, List.isEmpty_iff, hiff]
      rw [if_pos hp, Option.bind_some, restrict_field_eq q, hq f _ _ hshape]
      simp only [FieldTest.both, hp.1, hiff, Bool.true_and]
    · rw [if_neg hp, Option.bind_none, if_neg]
      rintro ⟨hboth, hnil⟩
      have hpass : p f cs = true ∧ q f cs = true := by simpa [FieldTest.both] using hboth
      refine hp ⟨hpass.1, fun hks => hnil ?_⟩
      rw [hks]
      rfl
  | fragment f cs ih =>
    rw [restrict_fragment, restrict_fragment, ← restrictList_both ih]
    by_cases hks : restrictList p cs = []
    · rw [hks]
      rfl
    · rw [if_neg (by simpa using hks), Option.bind_some, restrict_fragment]

mutual

theorem Prunes.variables_sublist : ∀ {n m : Node}, Prunes n m →
    m.variableNames.Sublist n.variableNames
  | .field f _, .field _ _, .field h _ => h.variables_sublist.append_left f.variableNames
  | .fragment f _, .fragment _ _, .fragment h _ => h.variables_sublist.append_left f.variableNames

theorem ListPrunes.variables_sublist : ∀ {ns ms : List Node}, ListPrunes ns ms →
    (listVariables ms).Sublist (listVariables ns)
  | _, _, .nil => List.Sublist.refl _
  | _, _, .drop h => List.sublist_append_of_sublist_right h.variables_sublist
  | _, _, .keep hnode hrest => hnode.variables_sublist.append hrest.variables_sublist

end

end Node

namespace Operation

theorem usedVariables_restrict (o : Operation) (keep : FieldTest) :
    (o.restrict keep).usedVariables ⊆ o.usedVariables :=
  ((o.prunes_restrict keep).variables_sublist.append_left _).subset

theorem restrict_pruneVariables (o : Operation) (keep : FieldTest) :
    o.pruneVariables.restrict keep = o.restrict keep := by
  have hdefinitions : o.pruneVariables.variableDefinitions.filter
        ((o.restrict keep).usedVariables.contains ·.name) =
      o.variableDefinitions.filter ((o.restrict keep).usedVariables.contains ·.name) := by
    rw [pruneVariables, List.filter_filter]
    refine List.filter_congr fun v _ => Bool.and_eq_left_iff_imp.mpr fun hused => ?_
    rw [List.contains_iff_mem] at hused ⊢
    exact o.usedVariables_restrict keep hused
  exact congrArg (fun vs => { o.restrict keep with variableDefinitions := vs }) hdefinitions

theorem restrict_restrict (o : Operation) (p : FieldTest) {q : FieldTest} (hq : q.ShapeOnly) :
    (o.restrict p).restrict q = o.restrict (p.both q) := by
  have hnodes : restrictList q (restrictList p o.nodes) = restrictList (p.both q) o.nodes :=
    Node.restrictList_both fun n _ => Node.restrict_both p hq n
  calc (o.restrict p).restrict q
    _ = restrict { o with nodes := restrictList p o.nodes } q := restrict_pruneVariables _ q
    _ = pruneVariables { o with nodes := restrictList q (restrictList p o.nodes) } := rfl
    _ = o.restrict (p.both q) := by rw [hnodes]; rfl

/-- Restricting by one test and then by another is restricting once by both, with the same variable
definitions left. A second restriction by the same test therefore changes nothing, and the order of
two restrictions does not matter. -/
theorem restrictions_compose {p q : FieldTest} (hp : p.ShapeOnly) (hq : q.ShapeOnly)
    (o : Operation) :
    (o.restrict p).restrict q = o.restrict (p.both q) ∧
      (o.restrict p).restrict p = o.restrict p ∧
      (o.restrict p).restrict q = (o.restrict q).restrict p := by
  refine ⟨o.restrict_restrict p hq, ?_, ?_⟩
  · rw [o.restrict_restrict p hp, p.both_self]
  · rw [o.restrict_restrict p hq, o.restrict_restrict q hp, p.both_comm]

/-- The first products with their identifiers, with the reviews of at least some grade for
authenticated callers only, and the titles of the news in a language. -/
def offers : Operation :=
  let field (name : String) (arguments : List GraphQL.Argument) (marks : List Annotation) : Field :=
    ⟨name, none, arguments, [], ⟨none, none, false, false, marks, []⟩, false⟩
  let number (name : String) : GraphQL.VariableDefinition := ⟨name, .named "Int", none⟩
  ⟨.query, none, "Query", [number "first", number "min", ⟨"lang", .named "String", none⟩], [],
    [.field (field "products" [("first", .variable "first")] [])
      [.field (field "id" [] []) [],
        .fragment ⟨some "Product", []⟩
          [.field (field "reviews" [("min", .variable "min")] [])
            [.field (field "body" [] [⟨"authenticated", none⟩]) []]]],
      .field (field "news" [("lang", .list [.variable "lang"])] [])
        [.field (field "title" [] []) []]]⟩

/-- The reviews go first and take their grade along, then the products and their number. -/
theorem offers_are_restricted_twice :
    ∃ p q : FieldTest, p.ShapeOnly ∧ q.ShapeOnly ∧
      (offers.restrict p).variableDefinitions.map (·.name) = ["first", "lang"] ∧
      ((offers.restrict p).restrict q).variableDefinitions.map (·.name) = ["lang"] ∧
      (offers.restrict p).restrict q = offers.restrict (p.both q) ∧
      (offers.restrict p).restrict p = offers.restrict p ∧
      (offers.restrict p).restrict q = (offers.restrict q).restrict p := by
  have hp : (FieldTest.annotated "authenticated").negate.ShapeOnly := fun _ _ _ _ => rfl
  have hq : FieldTest.ShapeOnly fun f _ => f.name != "id" := fun _ _ _ _ => rfl
  exact ⟨_, _, hp, hq, by decide, by decide, restrictions_compose hp hq offers⟩

/-- A test that counts the selections below a field may answer otherwise after a restriction. -/
example : ∃ p q, (offers.restrict p).restrict q ≠ offers.restrict (p.both q) :=
  ⟨fun f _ => f.name != "id", fun f children => f.name != "products" || children.length == 2,
    by decide⟩

end Operation

end QueryGate
