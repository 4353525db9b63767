import QueryGate.Proofs.Gate.Context
import QueryGate.Proofs.Operation.Occurrences
import QueryGate.Proofs.Operation.RoundTrip

/-! # How a gate with partial access serves a query

Every query that can be read is served in one of four ways, and which one depends only on the fields
that require authentication, on those that are forbidden to the caller, and on whether some leaf has
no forbidden field on its chain. The reported paths are those of the occurrences, in document order
and each once. -/
namespace QueryGate

open Node (passes)

namespace AccessRules

variable {User : Type}

def requires (rules : AccessRules User) : FieldTest := fun field children =>
  rules.authentication.any (· field children)

theorem restrictedPaths_eq (rules : AccessRules User) (o : Operation) :
    rules.restrictedPaths o = o.paths rules.requires := by
  unfold restrictedPaths requires
  cases rules.authentication with
  | some restricted => rfl
  | none => exact (List.isEmpty_iff.mp ((o.paths_isEmpty_iff _).mpr fun _ _ => rfl)).symm

theorem requires_of_forbids {rules : AccessRules User} {user : Option User} {f : Field}
    {cs : List Node} (h : rules.forbids user f cs = true) : rules.requires f cs = true := by
  obtain ⟨restricted, ha, hr⟩ := forbids_implies_restricted h
  simp [requires, ha, hr]

end AccessRules

/-- The user that an authenticator names. It names none if it says that there is none, if it fails
and if it crashes. -/
def Attempt.named? {User : Type} : Attempt User → Option User
  | .user u => some u
  | .anonymous => none
  | .failed _ => none
  | .crashed _ => none

namespace Gate

inductive Service where
  /-- The text of the request itself. -/
  | verbatim
  /-- The operation is printed as a whole. -/
  | whole
  /-- What is not forbidden is printed. -/
  | partly
  | denied

variable {User : Type} {g : Gate User}

def Service.Due (rules : AccessRules User) (o : Operation) (user : Option User) : Service → Prop
  | verbatim => ∀ f ∈ o.fields, rules.requires f.1 f.2 = false
  | whole =>
    (∃ f ∈ o.fields, rules.requires f.1 f.2 = true) ∧
      ∀ f ∈ o.fields, rules.forbids user f.1 f.2 = false
  | partly =>
    (∃ f ∈ o.fields, rules.forbids user f.1 f.2 = true) ∧
      ∃ chain ∈ o.leafChains, chain.all (passes (rules.forbids user).negate) = true
  | denied =>
    (∃ f ∈ o.fields, rules.forbids user f.1 f.2 = true) ∧
      ∀ chain ∈ o.leafChains, chain.all (passes (rules.forbids user).negate) = false

def Service.context (g : Gate User) (p : Params) (query : String) (o : Operation)
    (user : Option User) : Service → Context
  | verbatim => .query ⟨query, p.variableValues, p.operationName, [], none⟩
  | whole => .query ⟨o.text, p.variableValues, p.operationName, [], none⟩
  | partly =>
    let withheld := o.occurrencePaths (g.rules.forbids user)
    .query ⟨(o.restrict (g.rules.forbids user).negate).text, p.variableValues, p.operationName,
      [⟨withheldMessage, withheld⟩], if g.options.nullify then some withheld else none⟩
  | denied => .denied ⟨emptyQuery, [⟨deniedMessage, o.occurrencePaths g.rules.requires⟩]⟩

theorem Service.due_unique {rules : AccessRules User} {o : Operation} {user : Option User}
    {a b : Service} (ha : a.Due rules o user) (hb : b.Due rules o user) : a = b := by
  have hfree : (∀ f ∈ o.fields, rules.requires f.1 f.2 = false) →
      ¬ ∃ f ∈ o.fields, rules.forbids user f.1 f.2 = true := by
    rintro hnone ⟨f, hf, hforbidden⟩
    exact absurd (hnone f hf) (by simp [AccessRules.requires_of_forbids hforbidden])
  cases a <;> cases b <;> simp only [Due] at ha hb <;> grind

theorem guarded_withheld {withheld : List Path} (h : withheld.isEmpty = false) (p : Params)
    (text : String) :
    g.guarded p text withheld =
      .query ⟨text, p.variableValues, p.operationName, [⟨withheldMessage, withheld⟩],
        if g.options.nullify then some withheld else none⟩ := by
  simp [guarded, h]

/-- For each verdict, the context is that of the service that is due. -/
theorem contextOf_verdict (hpartial : g.options.partialAccess = true)
    (hprinter : g.printer = .compact) (p : Params) (query : String) (o : Operation)
    (user : Option User) :
    ∃ s : Service, s.Due g.rules o user ∧
      (s = .partly → (o.restrict (g.rules.forbids user).negate).isEmpty = false) ∧
      g.contextOf p query o (g.rules.restrictedPaths o) (g.verdict o user) =
        .ok (s.context g p query o user) := by
  have hprinted : ∀ a : Operation, g.printed a = .ok a.text := by
    intro a
    rw [printed, hprinter]
    rfl
  have hverdict : g.verdict o user = _ := g.rules.decide_eq o user g.options.partialAccess
  rw [hverdict, hpartial, AccessRules.restrictedPaths_eq]
  have hsome : ∀ test : FieldTest, ¬ (o.paths test).isEmpty = true →
      ∃ f ∈ o.fields, test f.1 f.2 = true := by
    intro test h
    simpa [o.paths_isEmpty_iff] using h
  split_ifs with hu hg hs
  · refine ⟨.verbatim, (o.paths_isEmpty_iff _).mp hu, ?_, rfl⟩
    intro h
    cases h
  · refine ⟨.whole, ⟨hsome _ hu, (o.paths_isEmpty_iff _).mp hg⟩, ?_, ?_⟩
    · intro h
      cases h
    · rw [contextOf, hprinted]
      rfl
  · simp at hs
  · have hwithheld : (o.paths (g.rules.forbids user)).isEmpty = false := by simpa using hg
    cases hrest : (o.restrict (g.rules.forbids user).negate).isEmpty with
    | true =>
      refine ⟨.denied, ⟨hsome _ hg, (o.isEmpty_restrict_iff _).mp hrest⟩, ?_, ?_⟩
      · intro h
        cases h
      · rw [contextOf, if_pos hrest, o.paths_eq]
        rfl
    | false =>
      refine ⟨.partly, ⟨hsome _ hg, ?_⟩, fun _ => rfl, ?_⟩
      · by_contra hnone
        have hall := (o.isEmpty_restrict_iff (g.rules.forbids user).negate).mpr fun chain hc =>
          Bool.eq_false_iff.mpr fun h => hnone ⟨chain, hc, h⟩
        rw [hrest] at hall
        cases hall
      · rw [contextOf, if_neg (by simp [hrest]), hprinted, Service.context, ← o.paths_eq,
          ← guarded_withheld hwithheld]
        rfl

theorem caller?_eq (g : Gate User) (r : Request) : g.caller? r = (g.authenticator r).named? := by
  rw [caller?, Authenticator.run]
  cases g.authenticator r <;> rfl

/-- With partial access, every query that can be read is served in exactly one way, whatever the
authenticator comes to. If a part is served, that part is not empty. -/
theorem partial_gate_serves (hpartial : g.options.partialAccess = true)
    (hprinter : g.printer = .compact) (x : Exchange) {p : Params} {query : String} {o : Operation}
    (hasked : g.asked? x.request = some (p, query)) (hread : g.readOperation p query = .ok o) :
    let user := (g.authenticator x.request).named?
    ∃ s : Service, s.Due g.rules o user ∧ (∀ t : Service, t.Due g.rules o user → t = s) ∧
      (s = .partly → (o.restrict (g.rules.forbids user).negate).isEmpty = false) ∧
      g.process x = (.attached, { x with request := { x.request with
        context := some (s.context g p query o user) } }) := by
  intro user
  obtain ⟨s, hdue, hrest, hcontext⟩ := contextOf_verdict hpartial hprinter p query o user
  refine ⟨s, hdue, fun t ht => Service.due_unique ht hdue, hrest, ?_⟩
  have hattached : g.context x.request = .ok (some (s.context g p query o user)) := by
    rw [context_of_query hasked, hread, caller?_eq]
    simp [hpartial, user, hcontext, Except.map]
  rw [process, hattached]

/-- A gate for articles with a title and a body for authenticated callers. Readers are permitted the
title, and editors the body as well. -/
def articleGate (attempt : Attempt String) : Gate String :=
  { Gate.start Operation.articles fun _ => attempt with
    rules :=
      { authentication := some fun f _ => f.name == "title" || f.name == "body"
        authorization := some fun u f _ => u == "editor" || f.name == "title" } }

def bodyText : String := "\x7b article \x7b title body \x7d \x7d"

def bodyParams : Params := ⟨some bodyText, none, none⟩

def bodyRequest : Exchange := ⟨Request.fresh.setParams "params" bodyParams, .fresh⟩

def bodyServed (attempt : Attempt String) (o : Operation) (s : Service) : Outcome × Exchange :=
  (.attached, { bodyRequest with request := { bodyRequest.request with
    context := some (s.context (articleGate attempt) bodyParams bodyText o attempt.named?) } })

theorem article_reader (attempt : Attempt String) :
    (articleGate attempt).readOperation = (articleGate .anonymous).readOperation := rfl

/-- The whole article is due to an editor, its title to a reader, and nothing to anybody else. -/
theorem articles_due :
    ∃ o, (∀ attempt, (articleGate attempt).readOperation bodyParams bodyText = .ok o) ∧
      Service.whole.Due (articleGate .anonymous).rules o (some "editor") ∧
      Service.partly.Due (articleGate .anonymous).rules o (some "reader") ∧
      Service.denied.Due (articleGate .anonymous).rules o none ∧
      o.text = "\x7barticle\x7btitle body\x7d\x7d" ∧
      (o.restrict ((articleGate .anonymous).rules.forbids (some "reader")).negate).text =
        "\x7barticle\x7btitle\x7d\x7d" := by
  have hchecked : ((articleGate .anonymous).readOperation bodyParams bodyText).toOption.any
      (fun o =>
        let forbids := (articleGate .anonymous).rules.forbids
        let shows (user : Option String) (chain : List Node) :=
          chain.all (passes (forbids user).negate)
        o.fields.any (fun f => (articleGate .anonymous).rules.requires f.1 f.2) &&
        o.fields.all (fun f => !forbids (some "editor") f.1 f.2) &&
        o.fields.any (fun f => forbids (some "reader") f.1 f.2) &&
        o.leafChains.any (shows (some "reader")) &&
        o.fields.any (fun f => forbids none f.1 f.2) &&
        o.leafChains.all (!shows none ·) &&
        o.text == "\x7barticle\x7btitle body\x7d\x7d" &&
        (o.restrict (forbids (some "reader")).negate).text == "\x7barticle\x7btitle\x7d\x7d") =
      true := by
    decide +kernel
  obtain ⟨o, ho, hchecked⟩ := exists_ok_of_any hchecked
  simp only [Bool.and_eq_true, beq_iff_eq, List.any_eq_true, List.all_eq_true, Bool.not_eq_true']
    at hchecked
  obtain ⟨⟨⟨⟨⟨⟨⟨hrequired, hfree⟩, hpart⟩, hshown⟩, hforbidden⟩, hhidden⟩, htext⟩, hrest⟩ :=
    hchecked
  have hread : ∀ attempt, (articleGate attempt).readOperation bodyParams bodyText = .ok o := by
    intro attempt
    rw [article_reader, ho]
  have hshown : ∃ chain ∈ o.leafChains, chain.all
      (passes ((articleGate .anonymous).rules.forbids (some "reader")).negate) = true := by
    simpa only [List.all_eq_true] using hshown
  exact ⟨o, hread, ⟨hrequired, hfree⟩, ⟨hpart, hshown⟩, ⟨hforbidden, hhidden⟩, htext, hrest⟩

theorem partial_gate_serves_articles :
    ∃ o, (∀ attempt, (articleGate attempt).options.partialAccess = true ∧
        (articleGate attempt).printer = .compact ∧
        (articleGate attempt).asked? bodyRequest.request = some (bodyParams, bodyText) ∧
        (articleGate attempt).readOperation bodyParams bodyText = .ok o) ∧
      o.text = "\x7barticle\x7btitle body\x7d\x7d" ∧
      (articleGate (.user "editor")).process bodyRequest =
        bodyServed (.user "editor") o .whole ∧
      (o.restrict ((articleGate .anonymous).rules.forbids (some "reader")).negate).text =
        "\x7barticle\x7btitle\x7d\x7d" ∧
      (articleGate (.user "reader")).process bodyRequest =
        bodyServed (.user "reader") o .partly ∧
      (articleGate .anonymous).process bodyRequest = bodyServed .anonymous o .denied ∧
      (articleGate (.failed (.other "no key"))).process bodyRequest =
        bodyServed (.failed (.other "no key")) o .denied ∧
      (articleGate (.crashed .silent)).process bodyRequest =
        bodyServed (.crashed .silent) o .denied := by
  obtain ⟨o, hread, hwhole, hpartly, hdenied, htext, hrest⟩ := articles_due
  have hserved : ∀ (attempt : Attempt String) (s : Service),
      s.Due (articleGate .anonymous).rules o attempt.named? →
      (articleGate attempt).process bodyRequest = bodyServed attempt o s := by
    intro attempt s hdue
    have hasked : (articleGate attempt).asked? bodyRequest.request =
        some (bodyParams, bodyText) := rfl
    obtain ⟨t, -, honly, -, hprocess⟩ :=
      partial_gate_serves (g := articleGate attempt) rfl rfl bodyRequest hasked (hread attempt)
    obtain rfl := honly s hdue
    exact hprocess
  exact ⟨o, fun attempt => ⟨rfl, rfl, rfl, hread attempt⟩, htext, hserved _ .whole hwhole, hrest,
    hserved _ .partly hpartly, hserved _ .denied hdenied, hserved _ .denied hdenied,
    hserved _ .denied hdenied⟩

end Gate

end QueryGate
