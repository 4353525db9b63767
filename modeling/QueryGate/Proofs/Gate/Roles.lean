import QueryGate.Proofs.Gate.TypeRestriction
import QueryGate.Proofs.Operation.Occurrences

/-! # Callers with more roles

What is forbidden to a caller is forbidden to every caller with fewer roles, and all that is
forbidden to anybody is forbidden to a caller who is not authenticated. A verdict depends on what is
forbidden only, so nobody sees less for having more roles. -/
namespace QueryGate

open Node (leadsTo passes)

namespace Verdict

def shown (o : Operation) : Verdict → Option Operation
  | .unrestricted | .granted => some o
  | .filtered rest _ => some rest
  | .rejected _ => none

def withheld : Verdict → List Path
  | .unrestricted | .granted => []
  | .filtered _ paths | .rejected paths => paths

def isRejected : Verdict → Bool
  | .rejected _ => true
  | _ => false

end Verdict

namespace AccessRules

variable {User : Type} {rules : AccessRules User}

def verdict (rules : AccessRules User) (o : Operation) (user : Option User)
    (partialAccess : Bool) : Verdict :=
  rules.decide o (rules.restrictedPaths o) user partialAccess

def sees (rules : AccessRules User) (user : Option User) (chain : List Node) : Bool :=
  chain.all (passes (rules.forbids user).negate)

theorem shown_leaves (rules : AccessRules User) (o : Operation) (user : Option User) :
    ∃ a, (rules.verdict o user true).shown o = some a ∧
      a.leafHeads = (o.leafChains.filter (rules.sees user)).map (·.map Node.head) := by
  have hwhole : (∀ f ∈ o.fields, rules.forbids user f.1 f.2 = false) →
      o.leafHeads = (o.leafChains.filter (rules.sees user)).map (·.map Node.head) := by
    intro hnone
    have hall : o.leafChains.filter (rules.sees user) = o.leafChains :=
      Operation.leaf_chains_without hnone
    rw [hall, Operation.leafHeads]
  rw [verdict, decide_eq]
  split_ifs with hu hg hs
  · exact ⟨o, rfl, hwhole (forbids_nothing_of_unrestricted hu user)⟩
  · exact ⟨o, rfl, hwhole ((o.paths_isEmpty_iff _).mp hg)⟩
  · simp at hs
  · exact ⟨_, rfl, o.leaf_heads_restrict _⟩

theorem paths_of_unrestricted {o : Operation} (h : (rules.restrictedPaths o).isEmpty = true)
    (user : Option User) : o.paths (rules.forbids user) = [] :=
  List.isEmpty_iff.mp ((o.paths_isEmpty_iff _).mpr (forbids_nothing_of_unrestricted h user))

theorem withheld_eq (rules : AccessRules User) (o : Operation) (user : Option User)
    (partialAccess : Bool) :
    (rules.verdict o user partialAccess).withheld = o.paths (rules.forbids user) := by
  rw [verdict, decide_eq]
  split_ifs with hu hg hs
  · exact (paths_of_unrestricted hu user).symm
  · exact (List.isEmpty_iff.mp hg).symm
  · rfl
  · rfl

theorem isRejected_iff (rules : AccessRules User) (o : Operation) (u : User) :
    (rules.verdict o (some u) false).isRejected = true ↔
      o.paths (rules.forbids (some u)) ≠ [] := by
  rw [verdict, decide_eq]
  split_ifs with hu hg hs
  · simp [Verdict.isRejected, paths_of_unrestricted hu (some u)]
  · simp [Verdict.isRejected, List.isEmpty_iff.mp hg]
  · simpa [Verdict.isRejected] using hg
  · simp at hs

/-- All that is forbidden to one caller is forbidden to the other. -/
def Covers (rules : AccessRules User) (few more : Option User) : Prop :=
  ∀ f cs, rules.forbids more f cs = true → rules.forbids few f cs = true

theorem Covers.anonymous (rules : AccessRules User) (user : Option User) :
    rules.Covers none user := by
  intro f cs h
  obtain ⟨restricted, ha, hr⟩ := forbids_implies_restricted h
  rw [forbids_of_anonymous ha, hr]

theorem Covers.sees {few more : Option User} (h : rules.Covers few more) {chain : List Node}
    (hc : rules.sees few chain = true) : rules.sees more chain = true := by
  refine List.all_eq_true.mpr fun n hn => ?_
  have hpass := List.all_eq_true.mp hc n hn
  cases n with
  | field f cs =>
    have hfree : rules.forbids few f cs = false := by simpa [passes, FieldTest.negate] using hpass
    have hmore : rules.forbids more f cs = false :=
      Bool.eq_false_iff.mpr fun hf => by simp [h f cs hf] at hfree
    simp [passes, FieldTest.negate, hmore]
  | fragment f cs => rfl

theorem Covers.paths {few more : Option User} (h : rules.Covers few more) (o : Operation) :
    o.paths (rules.forbids more) ⊆ o.paths (rules.forbids few) := by
  intro p hp
  obtain ⟨chain, hc, hforbidden, rfl⟩ := Operation.mem_paths.mp hp
  refine Operation.mem_paths.mpr ⟨chain, hc, ?_, rfl⟩
  unfold leadsTo at hforbidden ⊢
  cases hl : chain.getLast? with
  | none =>
    rw [hl] at hforbidden
    cases hforbidden
  | some n =>
    rw [hl] at hforbidden
    cases n with
    | field f cs => exact h f cs hforbidden
    | fragment f cs => rfl

end AccessRules

theorem User.satisfies_of_more_roles {u v : User} (h : u.roles ⊆ v.roles) {body : Option String}
    (hs : u.satisfies body = true) : v.satisfies body = true := by
  cases body with
  | none => rfl
  | some body =>
    obtain ⟨role, hlisted, hrole⟩ := List.any_eq_true.mp hs
    refine List.any_eq_true.mpr ⟨role, hlisted, ?_⟩
    exact List.contains_iff_mem.mpr (h (List.contains_iff_mem.mp hrole))

namespace Server

theorem covers_of_more_roles (names : AnnotationNames) {u v : User} (h : u.roles ⊆ v.roles) :
    (rulesOf names).Covers (some u) (some v) := by
  intro f cs hforbidden
  rw [AccessRules.forbids_of_user rfl rfl, AccessRules.unauthorized, Bool.and_eq_true,
    Bool.not_eq_true'] at hforbidden ⊢
  obtain ⟨hrestricted, hdenied⟩ := hforbidden
  refine ⟨hrestricted, ?_⟩
  unfold FieldTest.granted at hdenied ⊢
  cases ha : f.info.annotation? names.role with
  | none =>
    rw [ha] at hdenied
    cases hdenied
  | some annotation =>
    rw [ha] at hdenied
    exact Bool.eq_false_iff.mpr fun hs => by
      simp [User.satisfies_of_more_roles h hs] at hdenied

variable {schema : Schema} {settings : Settings} {now : Nat} {server : Server}

/-- A partial verdict shows each caller the leaves on whose chains nothing is forbidden. With more
roles a user sees no leaf less, no further path is withheld, and no further operation is rejected
where all or nothing is served. Every user sees the leaves that a caller sees who is not
authenticated. -/
theorem more_roles_show_more (h : ofSettings schema settings now = .ok server) (o : Operation) :
    (∀ user, ∃ a, (server.gate.rules.verdict o user true).shown o = some a ∧
      a.leafHeads =
        (o.leafChains.filter (server.gate.rules.sees user)).map (·.map Node.head)) ∧
    (∀ u v : User, u.roles ⊆ v.roles →
      (∀ chain ∈ o.leafChains, server.gate.rules.sees (some u) chain = true →
        server.gate.rules.sees (some v) chain = true) ∧
      (∀ partialAccess, (server.gate.rules.verdict o (some v) partialAccess).withheld ⊆
        (server.gate.rules.verdict o (some u) partialAccess).withheld) ∧
      ((server.gate.rules.verdict o (some v) false).isRejected = true →
        (server.gate.rules.verdict o (some u) false).isRejected = true)) ∧
    ∀ u : User, ∀ chain ∈ o.leafChains, server.gate.rules.sees none chain = true →
      server.gate.rules.sees (some u) chain = true := by
  obtain ⟨-, -, hrules⟩ := gate_of_settings h
  refine ⟨server.gate.rules.shown_leaves o, fun u v hroles => ?_, fun u chain _ hc =>
    (AccessRules.Covers.anonymous _ _).sees hc⟩
  have hcovers : server.gate.rules.Covers (some u) (some v) :=
    hrules ▸ covers_of_more_roles settings.access.annotations hroles
  refine ⟨fun chain _ hc => hcovers.sees hc, fun partialAccess => ?_, fun hrejected => ?_⟩
  · rw [AccessRules.withheld_eq, AccessRules.withheld_eq]
    exact hcovers.paths o
  · rw [AccessRules.isRejected_iff] at hrejected ⊢
    intro hnone
    exact hrejected (List.eq_nil_of_subset_nil (hnone ▸ hcovers.paths o))

def draftOperation : Operation :=
  let field (parent name : String) (output : Option String) (marks : List Annotation) : Field :=
    ⟨name, none, [], [], ⟨some parent, output, false, false, marks, []⟩, false⟩
  ⟨.query, none, "Query", [], [],
    [.field (field "Query" "article" (some "Article") [])
      [.field (field "Article" "title" none []) [],
        .field (field "Article" "draft" none [⟨"hasRole", some "admin, editor"⟩]) []]]⟩

def reader : User := ⟨none, ["reader"]⟩
def editor : User := ⟨none, ["editor", "reader"]⟩

theorem editor_sees_more_than_reader :
    ofSettings members {} 0 = .ok (usual members) ∧ reader.roles ⊆ editor.roles ∧
      (∃ chain ∈ draftOperation.leafChains,
        (usual members).gate.rules.sees (some editor) chain = true ∧
          (usual members).gate.rules.sees (some reader) chain = false) ∧
      ((usual members).gate.rules.verdict draftOperation (some editor) true).withheld ⊆
        ((usual members).gate.rules.verdict draftOperation (some reader) true).withheld ∧
      ∃ a, ((usual members).gate.rules.verdict draftOperation (some reader) true).shown
          draftOperation = some a ∧
        a.leafHeads.length = 1 := by
  have hroles : reader.roles ⊆ editor.roles := by decide
  obtain ⟨hshown, hmore, -⟩ := more_roles_show_more usual_of_settings draftOperation
  obtain ⟨a, ha, hleaves⟩ := hshown (some reader)
  refine ⟨rfl, hroles, by decide, (hmore reader editor hroles).2.1 true, a, ha, ?_⟩
  rw [hleaves]
  decide

end Server

end QueryGate
