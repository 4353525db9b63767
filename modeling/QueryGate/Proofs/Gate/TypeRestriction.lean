import Mathlib.Tactic.SplitIfs
import QueryGate.Proofs.Gate.Context
import QueryGate.Proofs.Operation.RoundTrip
import QueryGate.Proofs.Operation.Routes
import QueryGate.Server

/-! # Restrictions on types

An annotation on a type restricts the fields that return the type, and with them everything that is
selected below them. It does not restrict a type condition or a root type: what is selected on a
restricted type by these routes is handed on unless a field around it or in it is restricted. -/
namespace QueryGate

open Node (passes)

def AnnotationNames.all (n : AnnotationNames) : List String := [n.authenticated, n.role]

def Schema.restricts (s : Schema) (names : List String) (type : String) : Bool :=
  (s.annotationsOf type).any fun a => names.contains a.name

/-- The field is resolved on a type that the schema declares with one of some annotations. -/
def Field.onRestricted (s : Schema) (names : List String) (f : Field) : Bool :=
  f.info.parent.any (s.restricts names)

namespace Schema

variable {s : Schema} {names : List String}

theorem info_cases (s : Schema) (parent : Option String) (name : String) :
    s.fieldOrUnknown parent name = .unknown ∨
      ∃ t u, parent = some t ∧ (s.fieldOrUnknown parent name).parent = some t ∧
        (s.fieldOrUnknown parent name).output = some u ∧
        (s.fieldOrUnknown parent name).typeAnnotations = s.annotationsOf u := by
  cases parent with
  | none => exact .inl rfl
  | some t =>
    have hinfo : s.fieldOrUnknown (some t) name = (s.field? t name).getD .unknown := rfl
    rw [hinfo]
    cases hf : (s.fieldsOf t).reverse.find? (·.name == name) with
    | none =>
      left
      simp [field?, hf]
    | some d =>
      right
      exact ⟨t, d.type.baseName, rfl, by simp [field?, hf], by simp [field?, hf],
        by simp [field?, hf]⟩

theorem annotated_of_restricted_output {parent : Option String} {f : Field}
    (hinfo : f.info = s.fieldOrUnknown parent f.name)
    (h : f.info.output.any (s.restricts names) = true) (cs : List Node) :
    FieldTest.annotatedAny names f cs = true := by
  rcases info_cases s parent f.name with hunknown | ⟨t, u, -, -, houtput, hannotations⟩
  · rw [hinfo, hunknown] at h
    cases h
  · rw [hinfo, houtput] at h
    obtain ⟨a, ha, hname⟩ := List.any_eq_true.mp h
    refine List.any_eq_true.mpr ⟨a.name, by simpa using hname, ?_⟩
    rw [FieldInfo.isAnnotated, FieldInfo.annotation?, List.find?_isSome, hinfo, hannotations]
    exact ⟨a, List.mem_append_right _ ha, by simp⟩

theorem onRestricted_of_parent {parent : Option String} {f : Field}
    (hinfo : f.info = s.fieldOrUnknown parent f.name) (h : parent.any (s.restricts names) = false) :
    f.onRestricted s names = false := by
  rw [Field.onRestricted, hinfo]
  rcases info_cases s parent f.name with hunknown | ⟨t, u, hparent, hinfo, -, -⟩
  · rw [hunknown]
    rfl
  · rw [hinfo, ← hparent]
    exact h

end Schema

namespace Node

theorem no_restricted_output {s : Schema} {names : List String} {n : Node} {parent : Option String}
    (hn : n.Resolved s parent) (hf : ∀ f ∈ n.fields, FieldTest.annotatedAny names f.1 f.2 = false)
    {route : Route} (hr : route = .output → parent.any (s.restricts names) = false) {f : Field}
    (hmem : (f, Route.output) ∈ n.routedFields route) : f.onRestricted s names = false := by
  -- Behind a field, the type is its output; a type condition is a route of its own. So the type
  -- reached by an output is never restricted, or the field that returns it would be annotated.
  induction n using Node.nested generalizing parent route with
  | field head cs ih =>
    obtain ⟨-, hinfo, hcs⟩ := hn
    rcases List.mem_cons.mp hmem with he | hmem
    · cases he
      exact Schema.onRestricted_of_parent hinfo.info (hr rfl)
    · obtain ⟨c, hc, hmem⟩ := mem_listRoutedFields.mp hmem
      have houtput : head.info.output.any (s.restricts names) = false := by
        cases ho : head.info.output.any (s.restricts names) with
        | false => rfl
        | true =>
          have hhead := hf (head, cs) List.mem_cons_self
          rw [Schema.annotated_of_restricted_output hinfo.info ho cs] at hhead
          cases hhead
      have hbelow : ∀ f ∈ c.fields, FieldTest.annotatedAny names f.1 f.2 = false := fun f hmem =>
        hf f (List.mem_cons_of_mem _ (mem_listFields.mpr ⟨c, hc, hmem⟩))
      exact ih c hc (list_resolved_iff.mp hcs c hc) hbelow (fun _ => houtput) hmem
  | fragment head cs ih =>
    obtain ⟨-, -, hcs⟩ := hn
    rw [routedFields] at hmem
    obtain ⟨c, hc, hmem⟩ := mem_listRoutedFields.mp hmem
    have hbelow : ∀ f ∈ c.fields, FieldTest.annotatedAny names f.1 f.2 = false := fun f hmem =>
      hf f (mem_listFields.mpr ⟨c, hc, hmem⟩)
    refine ih c hc (list_resolved_iff.mp hcs c hc) hbelow (fun hroute => ?_) hmem
    cases ht : head.typeCondition with
    | none =>
      rw [ht] at hroute
      exact hr hroute
    | some t =>
      rw [ht] at hroute
      cases hroute

end Node

def Gate.handedOn? {User : Type} (g : Gate User) (r : Request) : Option GuardedQuery :=
  match g.context r with
  | .ok (some (.query q)) => some q
  | _ => none

def Verdict.leaves (o : Operation) : Verdict → Option Operation
  | .unrestricted | .granted => some o
  | .filtered rest _ => if rest.isEmpty then none else some rest
  | .rejected _ => none

/-- A query that is handed on for a request stands for what the verdict leaves of the operation that
the request asks for: it is the query of the request, or that operation is printed. -/
structure Gate.Forwards {User : Type} (g : Gate User) (r : Request) (q : GuardedQuery)
    (o a : Operation) : Prop where
  asked : ∃ p query, g.asked? r = some (p, query) ∧ g.readOperation p query = .ok o ∧
    (a = o ∧ q.query = query ∨ g.printer a = .ok q.query)
  left : (g.verdict o (g.caller? r)).leaves o = some a

namespace Gate

variable {User : Type} {g : Gate User} {r : Request}

theorem guarded_printed {p : Params} {o : Operation} {withheld : List Path} {q : GuardedQuery}
    (h : (do return g.guarded p (← g.printed o) withheld) = Except.ok (Context.query q)) :
    g.printer o = .ok q.query := by
  cases hp : g.printed o with
  | error e => rw [hp] at h; cases h
  | ok text =>
    rw [hp] at h
    cases h
    exact printed_ok hp

theorem handed_on_iff {q : GuardedQuery} :
    g.handedOn? r = some q ↔ g.context r = .ok (some (.query q)) := by
  unfold handedOn?
  constructor
  · intro h
    split at h
    · rename_i hcontext
      cases h
      exact hcontext
    · cases h
  · intro h
    rw [h]

theorem forwards_of_handed_on {q : GuardedQuery} (h : g.handedOn? r = some q) :
    ∃ o a, g.Forwards r q o a := by
  have h := handed_on_iff.mp h
  obtain ⟨p, query, o, hasked, hread, -, hcontext⟩ := context_some h
  cases hv : g.verdict o (g.caller? r) with
  | unrestricted =>
    rw [hv] at hcontext
    cases hcontext
    exact ⟨o, o, ⟨p, query, hasked, hread, .inl ⟨rfl, rfl⟩⟩, by rw [hv]; rfl⟩
  | granted =>
    rw [hv] at hcontext
    exact ⟨o, o, ⟨p, query, hasked, hread, .inr (guarded_printed hcontext)⟩, by rw [hv]; rfl⟩
  | filtered rest withheld =>
    rw [hv, contextOf] at hcontext
    split at hcontext
    · cases hcontext
    · rename_i hempty
      exact ⟨o, rest, ⟨p, query, hasked, hread, .inr (guarded_printed hcontext)⟩,
        by rw [hv, Verdict.leaves, if_neg hempty]⟩
  | rejected paths =>
    rw [hv] at hcontext
    cases hcontext

theorem handed_on_of_unrestricted (hpartial : g.options.partialAccess = true) {p : Params}
    {query : String} {o : Operation} (hasked : g.asked? r = some (p, query))
    (hread : g.readOperation p query = .ok o)
    (hverdict : g.verdict o (g.caller? r) = .unrestricted) :
    ∃ q, g.handedOn? r = some q ∧ q.query = query ∧ g.Forwards r q o o := by
  have hcontext : g.context r = .ok (some (g.guarded p query [])) := by
    simp only [context_of_query hasked, hread, hverdict, hpartial]
    rfl
  refine ⟨_, handed_on_iff.mpr hcontext, rfl, ⟨p, query, hasked, hread, .inl ⟨rfl, rfl⟩⟩, ?_⟩
  rw [hverdict]
  rfl

theorem left_for_anonymous {restricted : FieldTest} (hr : g.rules.authentication = some restricted)
    {o a : Operation} (h : (g.verdict o none).leaves o = some a) :
    a = o ∧ (∀ f ∈ o.fields, restricted f.1 f.2 = false) ∨ a = o.restrict restricted.negate := by
  have hv : g.verdict o none = _ := g.rules.decide_eq o none g.options.partialAccess
  rw [hv, AccessRules.forbids_of_anonymous hr] at h
  split_ifs at h with hu hg
  · cases h
    exact .inl ⟨rfl, fun f hf => by
      simpa [AccessRules.forbids_of_anonymous hr] using
        AccessRules.forbids_nothing_of_unrestricted hu none f hf⟩
  · cases h
    exact .inl ⟨rfl, (o.paths_isEmpty_iff _).mp hg⟩
  · cases h
  · rw [Verdict.leaves] at h
    split_ifs at h
    exact .inr (Option.some.inj h).symm

/-- No restricted field is left, and the leaf chains that are left are those without any. -/
theorem shown_to_anonymous {restricted : FieldTest} (hr : g.rules.authentication = some restricted)
    (hshape : restricted.ShapeOnly) {o a : Operation} (h : (g.verdict o none).leaves o = some a) :
    (∀ f ∈ a.fields, restricted f.1 f.2 = false) ∧
      a.leafHeads =
        (o.leafChains.filter (·.all (passes restricted.negate))).map (·.map Node.head) := by
  rcases left_for_anonymous hr h with ⟨rfl, hall⟩ | rfl
  · rw [Operation.leaf_chains_without hall]
    exact ⟨hall, rfl⟩
  · refine ⟨fun f hf => ?_, o.leaf_heads_restrict _⟩
    simpa [FieldTest.negate] using o.fields_restrict hshape.negate f hf

end Gate

deriving instance DecidableEq for GraphQL.FieldDefinition, Contribution, Schema

namespace Server

variable {schema : Schema} {settings : Settings} {now : Nat} {server : Server}

theorem gate_of_settings (h : ofSettings schema settings now = .ok server) :
    server.gate.schema = schema ∧ server.gate.reader = .standard ∧
      server.gate.rules = rulesOf settings.access.annotations := by
  unfold ofSettings at h
  split at h
  · cases h
  · dsimp only at h
    split at h
    · cases h
    · rename_i g hg
      cases h
      unfold Gate.checked at hg
      split_ifs at hg
      cases hg
      exact ⟨rfl, rfl, rfl⟩

theorem read_by_standard {User : Type} {g : Gate User} (hreader : g.reader = .standard) {p : Params}
    {query : String} {o : Operation} (h : g.readOperation p query = .ok o) :
    Operation.read query p.operationName g.schema g.options.expansion = .ok o := by
  unfold Gate.readOperation at h
  rw [hreader, OperationReader.standard] at h
  cases hread : Operation.read query p.operationName g.schema g.options.expansion with
  | ok o' =>
    rw [hread] at h
    cases h
    rfl
  | error e =>
    rw [hread] at h
    split at h <;> simp_all [Except.mapError]

/-- What a server hands on for a caller who is not authenticated has no field on a restricted type
that another field returns. It has a field on a restricted type at all exactly if one lies on a way
to a leaf on which no field is annotated, neither itself nor by the type that it returns. -/
theorem restricted_types_reached_iff (h : ofSettings schema settings now = .ok server)
    {r : Request} (hanonymous : server.gate.caller? r = none) {q : GuardedQuery}
    (hq : server.gate.handedOn? r = some q) :
    ∃ o a, server.gate.Forwards r q o a ∧
      (∀ f, (f, Route.output) ∈ a.routedFields →
        f.onRestricted schema settings.access.annotations.all = false) ∧
      ((∃ f route, (f, route) ∈ a.routedFields ∧
          f.onRestricted schema settings.access.annotations.all = true) ↔
        ∃ chain ∈ o.leafChains,
          chain.all (passes (FieldTest.annotatedAny settings.access.annotations.all).negate) = true ∧
          ∃ f cs, .field f cs ∈ chain ∧
            f.onRestricted schema settings.access.annotations.all = true) := by
  obtain ⟨hschema, hreader, hrules⟩ := gate_of_settings h
  obtain ⟨o, a, hforwards⟩ := Gate.forwards_of_handed_on hq
  obtain ⟨p, query, -, hread, -⟩ := hforwards.asked
  have ho : o.Resolved schema :=
    hschema ▸ (Operation.read_from (read_by_standard hreader hread)).1.resolved
  have hleft := hforwards.left
  rw [hanonymous] at hleft
  have hrestricted : server.gate.rules.authentication =
      some (FieldTest.annotatedAny settings.access.annotations.all) := by
    rw [hrules]
    rfl
  have ha : a.Resolved schema := by
    rcases Gate.left_for_anonymous hrestricted hleft with ⟨rfl, -⟩ | rfl
    · exact ho
    · exact ho.restrict _
  obtain ⟨hfields, hheads⟩ := Gate.shown_to_anonymous hrestricted (fun _ _ _ _ => rfl) hleft
  refine ⟨o, a, hforwards, fun f hf => ?_, ?_⟩
  · obtain ⟨n, hn, hf⟩ := Node.mem_listRoutedFields.mp hf
    exact Node.no_restricted_output (Node.list_resolved_iff.mp ha.nodes n hn)
      (fun f hf => hfields f (Node.mem_listFields.mpr ⟨n, hn, hf⟩))
      (fun hroute => by cases hroute) hf
  · constructor
    · rintro ⟨f, route, hf, hon⟩
      obtain ⟨chain, hchain, hpass, cs, hmem⟩ :=
        (Operation.mem_routed_fields_of_heads ha hheads).mp ⟨route, hf⟩
      exact ⟨chain, hchain, hpass, f, cs, hmem, hon⟩
    · rintro ⟨chain, hchain, hpass, f, cs, hmem, hon⟩
      obtain ⟨route, hf⟩ :=
        (Operation.mem_routed_fields_of_heads ha hheads).mpr ⟨chain, hchain, hpass, cs, hmem⟩
      exact ⟨f, route, hf, hon⟩

/-- Search results that are products or accounts, where accounts are for authenticated callers. -/
def membersText : String :=
  "directive @authenticated on FIELD_DEFINITION | OBJECT union SearchResult = Product | Account " ++
    "type Query \x7b search: [SearchResult] me: Account \x7d type Product \x7b name: String \x7d " ++
    "type Account @authenticated \x7b email: String \x7d"

def members : Schema :=
  ⟨"Query", none, none,
    [⟨"SearchResult", [], []⟩,
      ⟨"Query", [], [⟨"search", .list (.named "SearchResult"), []⟩, ⟨"me", .named "Account", []⟩]⟩,
      ⟨"Product", [], [⟨"name", .named "String", []⟩]⟩,
      ⟨"Account", [⟨"authenticated", none⟩], [⟨"email", .named "String", []⟩]⟩]⟩

def usual (schema : Schema) : Server :=
  ⟨{ Gate.start schema fun _ => .anonymous with rules := rulesOf {} }, {}⟩

def asking (query : String) : Request := Request.fresh.setParams "params" ⟨some query, none, none⟩

theorem usual_of_settings : ofSettings members {} 0 = .ok (usual members) := rfl

def ownText : String :=
  "\x7b me \x7b email \x7d search \x7b ... on Account \x7b email \x7d \x7d \x7d"

theorem restricted_types_of_members :
    ofSettings members {} 0 = .ok (usual members) ∧
      (usual members).gate.caller? (asking ownText) = none ∧
      ∃ q, (usual members).gate.handedOn? (asking ownText) = some q ∧
        q.query = "\x7bsearch\x7b...on Account\x7bemail\x7d\x7d\x7d" ∧
        ∃ o a, (usual members).gate.Forwards (asking ownText) q o a ∧
          (∀ f, (f, Route.output) ∈ a.routedFields →
            f.onRestricted members (AnnotationNames.all {}) = false) ∧
          ((∃ f route, (f, route) ∈ a.routedFields ∧
              f.onRestricted members (AnnotationNames.all {}) = true) ↔
            ∃ chain ∈ o.leafChains,
              chain.all (passes (FieldTest.annotatedAny (AnnotationNames.all {})).negate) = true ∧
              ∃ f cs, .field f cs ∈ chain ∧
                f.onRestricted members (AnnotationNames.all {}) = true) := by
  have hhanded : ((usual members).gate.handedOn? (asking ownText)).any
      (·.query == "\x7bsearch\x7b...on Account\x7bemail\x7d\x7d\x7d") = true := by decide +kernel
  cases hq : (usual members).gate.handedOn? (asking ownText) with
  | none =>
    rw [hq] at hhanded
    cases hhanded
  | some q =>
    rw [hq] at hhanded
    exact ⟨rfl, rfl, q, rfl, by simpa using hhanded,
      restricted_types_reached_iff usual_of_settings rfl hq⟩

def searchText : String :=
  "\x7b search \x7b ... on Product \x7b name \x7d ... on Account \x7b email \x7d \x7d \x7d"

/-- A member of a union is handed on although the schema declares it for authenticated callers. -/
theorem member_type_is_handed_on :
    Schema.read membersText = .ok members ∧ ofSettings members {} 0 = .ok (usual members) ∧
      (usual members).gate.options.partialAccess = true ∧
      (usual members).gate.caller? (asking searchText) = none ∧
      ∃ q a, (usual members).gate.handedOn? (asking searchText) = some q ∧
        (usual members).gate.Forwards (asking searchText) q a a ∧
        ∃ f route, (f, route) ∈ a.routedFields ∧
          f.onRestricted members (AnnotationNames.all {}) = true := by
  have hasked : (usual members).gate.asked? (asking searchText) =
      some (⟨some searchText, none, none⟩, searchText) := rfl
  have hchecked : ((usual members).gate.readOperation ⟨some searchText, none, none⟩
      searchText).toOption.any (fun o => (usual members).gate.verdict o none == .unrestricted &&
        o.routedFields.any (·.1.onRestricted members (AnnotationNames.all {}))) = true := by
    decide +kernel
  refine ⟨by decide +kernel, rfl, rfl, rfl, ?_⟩
  obtain ⟨o, hread, hchecked⟩ := exists_ok_of_any hchecked
  simp only [Bool.and_eq_true, beq_iff_eq, List.any_eq_true] at hchecked
  obtain ⟨hverdict, ⟨f, route⟩, hf, hon⟩ := hchecked
  obtain ⟨q, hhanded, -, hforwards⟩ :=
    Gate.handed_on_of_unrestricted rfl hasked hread hverdict
  exact ⟨q, o, hhanded, hforwards, f, route, hf, hon⟩

end Server

end QueryGate
