import QueryGate.Identity
import QueryGate.Proofs.Gate.Context

/-! # A gate without partial access

Such a gate hands on an operation as a whole or not at all. What it attaches is for an authenticated
caller who may see every field of the operation; whatever else happens attaches nothing. -/
namespace QueryGate.Gate

variable {User : Type}

structure ServedWhole (g : Gate User) (query : String) (o : Operation) (u : User)
    (q : GuardedQuery) : Prop where
  permitted : ∀ f ∈ o.fields, g.rules.forbids (some u) f.1 f.2 = false
  text : q.query = query ∨ g.printer o = .ok q.query
  no_warnings : q.warnings = []
  no_nulls : q.nullPaths = none

theorem strict_contextOf {g : Gate User} (hs : g.options.partialAccess = false) {p : Params}
    {query : String} {o : Operation} {paths : List Path} {u : User} {c : Context}
    (h : g.contextOf p query o paths (g.verdict o (some u)) = .ok c) :
    ∃ q, c = .query q ∧ g.ServedWhole query o u q := by
  have hv : g.verdict o (some u) = _ :=
    g.rules.decide_eq o (some u) g.options.partialAccess
  rw [hv, hs] at h
  split_ifs at h with hu hg hr
  · cases h
    exact ⟨_, rfl, AccessRules.forbids_nothing_of_unrestricted hu (some u), .inl rfl, rfl, rfl⟩
  · cases hp : g.printed o with
    | error e => rw [contextOf, hp] at h; cases h
    | ok text =>
      rw [contextOf, hp] at h
      cases h
      exact ⟨_, rfl, (o.paths_isEmpty_iff _).mp hg, .inr (printed_ok hp), rfl, rfl⟩
  · cases h
  · simp at hr

/-- What a strict gate may make of an exchange: the query is served as a whole to a caller who is
named, or there is no query, or the exchange ends with an error and nothing is attached. -/
inductive AllOrNothing (g : Gate User) (x : Exchange) : Outcome × Exchange → Prop where
  | served {p query o u q} :
      g.asked? x.request = some (p, query) → g.readOperation p query = .ok o →
      g.caller? x.request = some u → g.ServedWhole query o u q →
      AllOrNothing g x
        (.attached, { x with request := { x.request with context := some (.query q) } })
  | noQuery : g.asked? x.request = none → AllOrNothing g x (.passThrough, x)
  | refused {response : Response} :
      IsGateStatus response.status → AllOrNothing g x (.responded, { x with response })

theorem strict_gate_is_all_or_nothing (g : Gate User) (hs : g.options.partialAccess = false)
    (x : Exchange) : g.AllOrNothing x (g.process x) := by
  cases hc : g.context x.request with
  | error e =>
    simp only [process, hc]
    exact .refused (context_error_status hc)
  | ok attached =>
    cases attached with
    | none =>
      simp only [process, hc]
      exact .noQuery (context_none_iff.mp hc)
    | some c =>
      obtain ⟨p, query, o, ha, ho, hcaller, hctx⟩ := context_some hc
      -- The verdict alone would still filter for a caller who is not named.
      obtain ⟨u, hu⟩ := Option.isSome_iff_exists.mp (hcaller hs)
      rw [hu] at hctx
      obtain ⟨q, rfl, hq⟩ := strict_contextOf hs hctx
      simp only [process, hc]
      exact .served ha ho hu hq

/-- A strict gate for articles whose drafts are for editors, asked by a caller with the given
roles. -/
def editorialGate (roles : List String) : Gate QueryGate.User :=
  let article : Contribution :=
    ⟨"Article", [], [⟨"title", .named "String", []⟩,
      ⟨"draft", .named "String", [⟨"hasRole", [("role", .string "editor")]⟩]⟩]⟩
  let query : Contribution := ⟨"Query", [], [⟨"article", .named "Article", []⟩]⟩
  { Gate.start ⟨"Query", none, none, [query, article]⟩ fun _ => .user ⟨none, roles⟩ with
    rules := ⟨some (.annotated "hasRole"), some fun u => .granted "hasRole" u.satisfies⟩
    options := .ofPolicy { partialAccess := false } .standard }

def draftRequest : Exchange :=
  ⟨Request.fresh.setParams "params" ⟨some "{ article { title ... { draft } } }", none, none⟩,
    .fresh⟩

theorem strict_gate_serves_editor :
    (editorialGate ["editor"]).options.partialAccess = false ∧
      ((editorialGate ["editor"]).process draftRequest).1 = .attached ∧
      (editorialGate ["editor"]).AllOrNothing draftRequest
        ((editorialGate ["editor"]).process draftRequest) :=
  ⟨rfl, by decide +kernel, strict_gate_is_all_or_nothing _ rfl _⟩

end QueryGate.Gate
