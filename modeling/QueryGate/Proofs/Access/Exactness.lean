import Mathlib.Tactic.ByContra
import Mathlib.Tactic.SplitIfs
import QueryGate.Access.Verdict
import QueryGate.Proofs.Access.Restriction

/-! # The verdict and the access relation

A field is forbidden to a caller if it requires authentication and the caller is no user that
authorization permits it to. Whichever way a verdict is reached, it shows all that is not forbidden
and nothing that is. -/
namespace QueryGate

variable {User : Type}

namespace AccessRules

/-- Both predicates look at the selections below a field at most to see whether there are any. -/
structure ShapeOnly (rules : AccessRules User) : Prop where
  authentication : ∀ t, rules.authentication = some t → t.ShapeOnly
  authorization : ∀ permitted, rules.authorization = some permitted → ∀ u, (permitted u).ShapeOnly

def permits (rules : AccessRules User) (user : Option User) : FieldTest := fun field children =>
  user.any fun u => rules.authorization.all fun permitted => permitted u field children

/-- The field requires authentication and is not permitted to the caller. -/
def forbids (rules : AccessRules User) (user : Option User) : FieldTest := fun field children =>
  rules.authentication.any (· field children) && !rules.permits user field children

theorem forbids_congr {rules : AccessRules User} {f g : Field} {cs ds : List Node}
    (hauthentication : ∀ t, rules.authentication = some t → t f cs = t g ds)
    (hauthorization : ∀ permitted, rules.authorization = some permitted →
      ∀ u, permitted u f cs = permitted u g ds) (user : Option User) :
    rules.forbids user f cs = rules.forbids user g ds := by
  obtain ⟨restricted, permitted⟩ := rules
  have ha : restricted.any (· f cs) = restricted.any (· g ds) := by
    cases restricted with
    | none => rfl
    | some t => exact hauthentication t rfl
  have hp : (user.any fun u => permitted.all fun p => p u f cs) =
      user.any fun u => permitted.all fun p => p u g ds := by
    cases user with
    | none => rfl
    | some u =>
      cases permitted with
      | none => rfl
      | some p => exact hauthorization p rfl u
  simp [AccessRules.forbids, permits, ha, hp]

theorem ShapeOnly.forbids {rules : AccessRules User} (h : rules.ShapeOnly) (user : Option User) :
    (rules.forbids user).ShapeOnly := fun f cs ds he =>
  forbids_congr (fun t ht => h.authentication t ht f cs ds he)
    (fun permitted hp u => h.authorization permitted hp u f cs ds he) user

theorem forbids_of_anonymous {rules : AccessRules User} {restricted : FieldTest}
    (h : rules.authentication = some restricted) : rules.forbids none = restricted := by
  funext f cs
  simp [forbids, permits, h]

theorem forbids_of_user {rules : AccessRules User} {restricted : FieldTest}
    {permitted : User → FieldTest} (h : rules.authentication = some restricted)
    (hz : rules.authorization = some permitted) (u : User) :
    rules.forbids (some u) = unauthorized restricted (permitted u) := by
  funext f cs
  simp [forbids, permits, unauthorized, h, hz]

theorem forbids_nothing_of_user {rules : AccessRules User} (hz : rules.authorization = none)
    (u : User) (f : Field) (cs : List Node) : rules.forbids (some u) f cs = false := by
  simp [forbids, permits, hz]

theorem forbids_implies_restricted {rules : AccessRules User} {user : Option User} {f : Field}
    {cs : List Node} (h : rules.forbids user f cs = true) :
    ∃ restricted, rules.authentication = some restricted ∧ restricted f cs = true := by
  cases ha : rules.authentication with
  | none => simp [forbids, ha] at h
  | some restricted =>
    have hb : restricted f cs = true ∧ rules.permits user f cs = false := by
      simpa [forbids, ha] using h
    exact ⟨restricted, rfl, hb.1⟩

theorem forbids_nothing_of_unrestricted {rules : AccessRules User} {o : Operation}
    (h : (rules.restrictedPaths o).isEmpty = true) (user : Option User) :
    ∀ f ∈ o.fields, rules.forbids user f.1 f.2 = false := by
  intro f hf
  cases hb : rules.forbids user f.1 f.2 with
  | false => rfl
  | true =>
    obtain ⟨restricted, ha, hr⟩ := forbids_implies_restricted hb
    rw [restrictedPaths, ha] at h
    exact absurd ((o.paths_isEmpty_iff restricted).mp h f hf) (by simp [hr])

/-- The verdict depends on what is restricted and on what is forbidden to the caller. -/
theorem decide_eq (rules : AccessRules User) (o : Operation) (user : Option User)
    (partialAccess : Bool) :
    rules.decide o (rules.restrictedPaths o) user partialAccess =
      if (rules.restrictedPaths o).isEmpty then .unrestricted
      else if (o.paths (rules.forbids user)).isEmpty then .granted
      else if user.isSome && !partialAccess then .rejected (o.paths (rules.forbids user))
      else .filtered (o.restrict (rules.forbids user).negate) (o.paths (rules.forbids user)) := by
  cases ha : rules.authentication with
  | none => simp [decide, restrictedPaths, ha]
  | some restricted =>
    have hp : rules.restrictedPaths o = o.paths restricted := by simp [restrictedPaths, ha]
    cases he : (o.paths restricted).isEmpty with
    | true => simp [decide, ha, hp, he]
    | false =>
      cases user with
      | none => simp [decide, ha, hp, he, forbids_of_anonymous ha]
      | some u =>
        cases hz : rules.authorization with
        | none =>
          have hn : (o.paths (rules.forbids (some u))).isEmpty = true :=
            (o.paths_isEmpty_iff _).mpr fun f _ => forbids_nothing_of_user hz u f.1 f.2
          simp [decide, ha, hz, hp, he, hn]
        | some permitted =>
          cases partialAccess <;> simp [decide, ha, hz, hp, he, forbids_of_user ha hz]

theorem rejected_iff {rules : AccessRules User} {o : Operation} {user : Option User}
    {partialAccess : Bool} :
    (∃ paths, rules.decide o (rules.restrictedPaths o) user partialAccess = .rejected paths) ↔
      partialAccess = false ∧ user.isSome = true ∧
        ∃ f ∈ o.fields, rules.forbids user f.1 f.2 = true := by
  have hsome : ¬ (o.paths (rules.forbids user)).isEmpty = true ↔
      ∃ f ∈ o.fields, rules.forbids user f.1 f.2 = true := by
    simp [o.paths_isEmpty_iff]
  rw [decide_eq, ← hsome]
  split_ifs with hu hg hs
  · have hnone := (o.paths_isEmpty_iff _).mpr (forbids_nothing_of_unrestricted hu user)
    simp [hnone]
  · simp [hg]
  · simpa [hg, and_comm] using hs
  · simp only [Bool.and_eq_true, Bool.not_eq_true'] at hs
    constructor
    · rintro ⟨paths, hpaths⟩
      cases hpaths
    · exact fun h => absurd ⟨h.2.1, h.1⟩ hs

/-- A verdict shows the caller exactly what is not forbidden: the whole operation only if nothing
in it is, and otherwise the leaves that no forbidden field is or encloses. -/
theorem verdict_is_exact {rules : AccessRules User} (hr : rules.ShapeOnly) (o : Operation)
    (user : Option User) (partialAccess : Bool) :
    match rules.decide o (rules.restrictedPaths o) user partialAccess with
    | .unrestricted | .granted => ∀ f ∈ o.fields, rules.forbids user f.1 f.2 = false
    | .filtered rest _ =>
      (∀ f ∈ rest.fields, rules.forbids user f.1 f.2 = false) ∧
        rest.leafHeads =
          (o.leafChains.filter (·.all (Node.passes (rules.forbids user).negate))).map
            (·.map Node.head)
    | .rejected _ =>
      partialAccess = false ∧ ∃ f ∈ o.fields, rules.forbids user f.1 f.2 = true := by
  rw [decide_eq]
  split_ifs with hu hg hs
  · exact forbids_nothing_of_unrestricted hu user
  · exact (o.paths_isEmpty_iff _).mp hg
  · have hs : user.isSome = true ∧ partialAccess = false := by simpa using hs
    refine ⟨hs.2, ?_⟩
    by_contra hn
    exact hg ((o.paths_isEmpty_iff _).mpr fun f hf => by
      cases hb : rules.forbids user f.1 f.2 with
      | false => rfl
      | true => exact (hn ⟨f, hf, hb⟩).elim)
  · have hshape := (hr.forbids user).negate
    exact ⟨fun f hf => by simpa [FieldTest.negate] using o.fields_restrict hshape f hf,
      o.leaf_heads_restrict _⟩

/-- Products with a public identifier, and behind a fragment a name and an owner for authenticated
callers only. -/
def catalogue : Operation :=
  let secret : Annotation := ⟨"authenticated", none⟩
  let field (parent name : String) (output : Option String) (marks : List Annotation) : Field :=
    ⟨name, none, [], [], ⟨some parent, output, false, false, marks, []⟩, false⟩
  ⟨.query, none, "Query", [], [],
    [.field (field "Query" "products" (some "Product") [])
      [.field (field "Product" "id" none []) [],
        .fragment ⟨some "Product", []⟩
          [.field (field "Product" "name" none [secret]) [],
            .field (field "Product" "owner" (some "Person") [])
              [.field (field "Person" "email" none [secret]) []]]]]⟩

def authenticatedOnly : AccessRules Unit := ⟨some (.annotated "authenticated"), none⟩

theorem verdict_is_exact_on_catalogue :
    authenticatedOnly.ShapeOnly ∧
      ∃ rest withheld,
        authenticatedOnly.decide catalogue (authenticatedOnly.restrictedPaths catalogue) none true =
            .filtered rest withheld ∧
          (∀ f ∈ rest.fields, authenticatedOnly.forbids none f.1 f.2 = false) ∧
          rest.leafHeads.length = 1 ∧ catalogue.leafChains.length = 3 := by
  have hs : authenticatedOnly.ShapeOnly :=
    ⟨by rintro _ ⟨⟩ f cs ds _; rfl, by rintro _ ⟨⟩⟩
  have h := verdict_is_exact hs catalogue none true
  refine ⟨hs, _, _, rfl, ?_⟩
  exact ⟨h.1, by rw [h.2]; decide, by decide⟩

end AccessRules

end QueryGate
