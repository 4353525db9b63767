import QueryGate.Proofs.Gate.TypeRestriction

/-! # Restrictions on fields of interfaces

A field is restricted by what is declared on the type that it is resolved on. Where a type restricts
a field, the field stays restricted on this type alone: on an interface that the type implements it
is handed on, unless the interface restricts it as well or a field around it is restricted. -/
namespace QueryGate

open GraphQL (TypeSystemDefinition)
open Node (passes)

def GraphQL.TypeSystemDefinition.Implements (definitions : List TypeSystemDefinition)
    (type interface : String) : Prop :=
  (∃ i, .type i ∈ definitions ∧ i.kind = .interface ∧ i.name = interface) ∧
    ∃ t, (.type t ∈ definitions ∨ .extension t ∈ definitions) ∧ t.kind = .object ∧
      t.name = type ∧ interface ∈ t.interfaces

/-- Definitions of a schema in which an interface and a type that implements it declare a field of
one name, which carries a directive on the type. -/
structure Schema.RestrictedBelow (definitions : List TypeSystemDefinition) (s : Schema)
    (directive type interface name : String) : Prop where
  schema : ofDefinitions definitions = .ok s
  implemented : TypeSystemDefinition.Implements definitions type interface
  declared : (s.field? interface name).isSome
  restricted : (s.field? type name).any fun i => i.annotations.any (·.name == directive)

def Field.isOn (f : Field) (type name : String) : Bool :=
  f.info.parent == some type && f.name == name

def Operation.Selects (o : Operation) (type name : String) : Prop :=
  ∃ f ∈ o.fields, f.1.isOn type name = true

def FieldInfo.restrictedBy (names : List String) (i : FieldInfo) : Bool := names.any i.isAnnotated

theorem Node.Resolved.of_field {s : Schema} {n : Node} {parent : Option String}
    (h : n.Resolved s parent) {f : Field × List Node} (hf : f ∈ n.fields) :
    ∃ type, f.1.info = s.fieldOrUnknown type f.1.name := by
  induction n using Node.nested generalizing parent with
  | field head cs ih =>
    rcases List.mem_cons.mp hf with rfl | hf
    · exact ⟨parent, h.2.1.info⟩
    · obtain ⟨c, hc, hf⟩ := Node.mem_listFields.mp hf
      exact ih c hc (Node.list_resolved_iff.mp h.2.2 c hc) hf
  | fragment head cs ih =>
    obtain ⟨c, hc, hf⟩ := Node.mem_listFields.mp hf
    exact ih c hc (Node.list_resolved_iff.mp h.2.2 c hc) hf

theorem Schema.info_of_isOn {s : Schema} {f : Field} {place : Option String}
    (hinfo : f.info = s.fieldOrUnknown place f.name) {type name : String}
    (h : f.isOn type name = true) : s.field? type name = some f.info := by
  obtain ⟨hparent, hname⟩ : f.info.parent = some type ∧ f.name = name := by
    simpa [Field.isOn] using h
  rcases info_cases s place f.name with hunknown | ⟨t, u, hplace, htype, -, -⟩
  · rw [hinfo, hunknown] at hparent
    cases hparent
  · have ht : t = type := Option.some.inj (htype.symm.trans (hinfo ▸ hparent))
    subst ht hname
    rw [hplace] at hinfo htype
    have hfound : s.fieldOrUnknown (some t) f.name = (s.field? t f.name).getD .unknown := rfl
    cases hfield : s.field? t f.name with
    | none =>
      rw [hfound, hfield] at htype
      cases htype
    | some i => rw [hinfo, hfound, hfield, Option.getD_some]

theorem Operation.Resolved.field_of_selects {s : Schema} {o : Operation} (h : o.Resolved s)
    {type name : String} (hselects : o.Selects type name) :
    ∃ f ∈ o.fields, s.field? type name = some f.1.info := by
  obtain ⟨f, hf, hon⟩ := hselects
  obtain ⟨n, hn, hmem⟩ := Node.mem_listFields.mp hf
  obtain ⟨place, hinfo⟩ := (Node.list_resolved_iff.mp h.nodes n hn).of_field hmem
  exact ⟨f, hf, Schema.info_of_isOn hinfo hon⟩

theorem FieldInfo.isAnnotated_of_own {i : FieldInfo} {name : String}
    (h : i.annotations.any (·.name == name) = true) : i.isAnnotated name = true := by
  obtain ⟨a, ha, hname⟩ := List.any_eq_true.mp h
  rw [isAnnotated, annotation?, List.find?_isSome]
  exact ⟨a, List.mem_append_left _ ha, hname⟩

deriving instance DecidableEq for GraphQL.TypeDefinition, TypeSystemDefinition

namespace Server

variable {schema : Schema} {settings : Settings} {now : Nat} {server : Server}

/-- What is handed on to a caller who is not authenticated has no annotated field, and it has a
field exactly if the field lies on a way to a leaf without annotated fields. -/
theorem handed_on_to_anonymous (h : ofSettings schema settings now = .ok server) {r : Request}
    (hanonymous : server.gate.caller? r = none) {q : GuardedQuery}
    (hq : server.gate.handedOn? r = some q) :
    ∃ o a, server.gate.Forwards r q o a ∧ a.Resolved schema ∧
      (∀ f ∈ a.fields, f.1.info.restrictedBy settings.access.annotations.all = false) ∧
      ∀ f, (∃ cs, (f, cs) ∈ a.fields) ↔
        ∃ chain ∈ o.leafChains,
          chain.all (passes (FieldTest.annotatedAny settings.access.annotations.all).negate) =
              true ∧
            ∃ cs, .field f cs ∈ chain := by
  obtain ⟨hschema, hreader, hrules⟩ := gate_of_settings h
  obtain ⟨o, a, hforwards⟩ := Gate.forwards_of_handed_on hq
  obtain ⟨p, query, -, hread, -⟩ := hforwards.asked
  have ho : o.Resolved schema :=
    hschema ▸ (Operation.read_from (read_by_standard hreader hread)).1.resolved
  have hleft := hforwards.left
  rw [hanonymous] at hleft
  have hrestricted : server.gate.rules.authentication =
      some (FieldTest.annotatedAny settings.access.annotations.all) := by
    rw [hrules]
    rfl
  have ha : a.Resolved schema := by
    rcases Gate.left_for_anonymous hrestricted hleft with ⟨rfl, -⟩ | rfl
    · exact ho
    · exact ho.restrict _
  obtain ⟨hfields, hheads⟩ := Gate.shown_to_anonymous hrestricted (fun _ _ _ _ => rfl) hleft
  refine ⟨o, a, hforwards, ha, hfields, fun f => ?_⟩
  rw [← Operation.mem_routed_fields]
  exact Operation.mem_routed_fields_of_heads ha hheads

/-- Where a type restricts a field of an interface that it implements, a caller who is not
authenticated is handed no selection of the field on the type, and none on the interface if the
interface restricts the field as well. Otherwise there is one on the interface exactly if one lies
on a way to a leaf on which no field is annotated, be it itself or by the type that it returns. -/
theorem interface_field_is_handed_on_iff (h : ofSettings schema settings now = .ok server)
    {r : Request} (hanonymous : server.gate.caller? r = none) {q : GuardedQuery}
    (hq : server.gate.handedOn? r = some q) :
    ∃ o a, server.gate.Forwards r q o a ∧
      ∀ definitions type interface name,
        schema.RestrictedBelow definitions settings.access.annotations.authenticated type interface
          name →
        ¬ a.Selects type name ∧
        ((schema.field? interface name).any (·.restrictedBy settings.access.annotations.all) =
            true →
          ¬ a.Selects interface name) ∧
        (a.Selects interface name ↔
          ∃ chain ∈ o.leafChains,
            chain.all (passes (FieldTest.annotatedAny settings.access.annotations.all).negate) =
              true ∧
            ∃ f cs, .field f cs ∈ chain ∧ f.isOn interface name = true) := by
  obtain ⟨o, a, hforwards, ha, hfree, hfields⟩ := handed_on_to_anonymous h hanonymous hq
  have hnone : ∀ type name,
      (schema.field? type name).any (·.restrictedBy settings.access.annotations.all) = true →
        ¬ a.Selects type name := by
    intro type name hrestricted hselects
    obtain ⟨f, hf, hinfo⟩ := ha.field_of_selects hselects
    rw [hinfo, Option.any_some, hfree f hf] at hrestricted
    cases hrestricted
  refine ⟨o, a, hforwards, fun definitions type interface name hbelow => ⟨?_, ?_, ?_⟩⟩
  · apply hnone
    have hown := hbelow.restricted
    cases hi : schema.field? type name with
    | none =>
      rw [hi] at hown
      cases hown
    | some i =>
      rw [hi] at hown
      have hannotated := FieldInfo.isAnnotated_of_own hown
      exact List.any_eq_true.mpr ⟨_, List.mem_cons_self, hannotated⟩
  · exact hnone interface name
  · constructor
    · rintro ⟨f, hf, hon⟩
      obtain ⟨chain, hchain, hpass, cs, hmem⟩ := (hfields f.1).mp ⟨f.2, hf⟩
      exact ⟨chain, hchain, hpass, f.1, cs, hmem, hon⟩
    · rintro ⟨chain, hchain, hpass, f, cs, hmem, hon⟩
      obtain ⟨ds, hf⟩ := (hfields f).mpr ⟨chain, hchain, hpass, cs, hmem⟩
      exact ⟨(f, ds), hf, hon⟩

/-- Accounts are nodes, and only authenticated callers may see the secret of an account. -/
def nodesText : String :=
  "directive @authenticated on FIELD_DEFINITION interface Node \x7b id: ID secret: String \x7d " ++
    "type Account implements Node \x7b id: ID secret: String @authenticated \x7d " ++
    "type Query \x7b node: Node me: Account \x7d"

def nodeDefinitions : List TypeSystemDefinition :=
  [.directive "authenticated",
    .type ⟨.interface, "Node", [], [], [⟨"id", .named "ID", []⟩, ⟨"secret", .named "String", []⟩]⟩,
    .type ⟨.object, "Account", ["Node"], [], [⟨"id", .named "ID", []⟩,
      ⟨"secret", .named "String", [⟨"authenticated", []⟩]⟩]⟩,
    .type ⟨.object, "Query", [], [],
      [⟨"node", .named "Node", []⟩, ⟨"me", .named "Account", []⟩]⟩]

def nodes : Schema := ⟨"Query", none, none, Schema.contributionsOf nodeDefinitions⟩

theorem secret_of_nodes :
    nodes.RestrictedBelow nodeDefinitions "authenticated" "Account" "Node" "secret" where
  schema := rfl
  implemented := ⟨⟨_, .tail _ (.head _), rfl, rfl⟩,
    _, .inl (.tail _ (.tail _ (.head _))), rfl, rfl, .head _⟩
  declared := by decide
  restricted := by decide

theorem usual_of_nodes : ofSettings nodes {} 0 = .ok (usual nodes) := rfl

def ownSecretText : String := "\x7b me \x7b id secret \x7d node \x7b secret \x7d \x7d"

/-- The secret is withheld from the account and not from the node. -/
theorem secret_of_account_is_withheld :
    ofSettings nodes {} 0 = .ok (usual nodes) ∧
      nodes.RestrictedBelow nodeDefinitions "authenticated" "Account" "Node" "secret" ∧
      (usual nodes).gate.caller? (asking ownSecretText) = none ∧
      ∃ q, (usual nodes).gate.handedOn? (asking ownSecretText) = some q ∧
        q.query = "\x7bme\x7bid\x7d node\x7bsecret\x7d\x7d" ∧
        ∃ o a, (usual nodes).gate.Forwards (asking ownSecretText) q o a ∧
          ¬ a.Selects "Account" "secret" ∧
          (a.Selects "Node" "secret" ↔
            ∃ chain ∈ o.leafChains,
              chain.all (passes (FieldTest.annotatedAny (AnnotationNames.all {})).negate) = true ∧
              ∃ f cs, .field f cs ∈ chain ∧ f.isOn "Node" "secret" = true) := by
  have hhanded : ((usual nodes).gate.handedOn? (asking ownSecretText)).any
      (·.query == "\x7bme\x7bid\x7d node\x7bsecret\x7d\x7d") = true := by decide +kernel
  refine ⟨usual_of_nodes, secret_of_nodes, rfl, ?_⟩
  cases hq : (usual nodes).gate.handedOn? (asking ownSecretText) with
  | none =>
    rw [hq] at hhanded
    cases hhanded
  | some q =>
    rw [hq] at hhanded
    obtain ⟨o, a, hforwards, hall⟩ := interface_field_is_handed_on_iff usual_of_nodes rfl hq
    obtain ⟨hown, -, hiff⟩ := hall _ _ _ _ secret_of_nodes
    exact ⟨q, rfl, by simpa using hhanded, o, a, hforwards, hown, hiff⟩

def secretText : String := "\x7b node \x7b id secret \x7d \x7d"

/-- On the interface, the secret is handed on to everybody. -/
theorem implemented_field_is_handed_on :
    TypeSystemDefinition.readAll nodesText = .ok nodeDefinitions ∧
      nodes.RestrictedBelow nodeDefinitions "authenticated" "Account" "Node" "secret" ∧
      ofSettings nodes {} 0 = .ok (usual nodes) ∧
      (usual nodes).gate.options.partialAccess = true ∧
      (usual nodes).gate.caller? (asking secretText) = none ∧
      ∃ q a, (usual nodes).gate.handedOn? (asking secretText) = some q ∧ q.query = secretText ∧
        (usual nodes).gate.Forwards (asking secretText) q a a ∧ a.Selects "Node" "secret" := by
  have hasked : (usual nodes).gate.asked? (asking secretText) =
      some (⟨some secretText, none, none⟩, secretText) := rfl
  have hchecked : ((usual nodes).gate.readOperation ⟨some secretText, none, none⟩
      secretText).toOption.any (fun o => (usual nodes).gate.verdict o none == .unrestricted &&
        o.fields.any (·.1.isOn "Node" "secret")) = true := by
    decide +kernel
  refine ⟨by decide +kernel, secret_of_nodes, usual_of_nodes, rfl, rfl, ?_⟩
  obtain ⟨o, hread, hchecked⟩ := exists_ok_of_any hchecked
  simp only [Bool.and_eq_true, beq_iff_eq, List.any_eq_true] at hchecked
  obtain ⟨hverdict, hselects⟩ := hchecked
  obtain ⟨q, hhanded, hquery, hforwards⟩ :=
    Gate.handed_on_of_unrestricted rfl hasked hread hverdict
  exact ⟨q, o, hhanded, hquery, hforwards, hselects⟩

end Server

end QueryGate
