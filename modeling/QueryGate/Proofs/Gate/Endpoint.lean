import QueryGate.Proofs.Gate.Body
import QueryGate.Proofs.Gate.Context
import QueryGate.Proofs.Operation.RoundTrip
import QueryGate.Server

/-! # What the endpoint answers

Three parties may write the answer to a request: whoever reads the body, the gate, and the dry run
behind it, which is called behind an error as well if the gate is to continue then. Every request
gets one answer all the same. Its status tells which of the three wrote it and why, and the answer
does not depend on whether the gate continues. -/
namespace QueryGate

/-- What was read from the body of a request carries no query but a blank one. -/
def Params.LacksQuery : Except ParamsError Params → Prop
  | .error _ => True
  | .ok p => ∀ query, p.query = some query → Text.isAllBlank query = true

theorem Gate.queryText_none_iff {p : Params} :
    queryText? p = none ↔ Params.LacksQuery (.ok p) := by
  rw [queryText?, Option.filter_eq_none_iff]
  exact forall₂_congr fun query _ => by simp

namespace Gate

variable {User : Type} {g : Gate User}

theorem contextOf_ok {p : Params} {query : String} {o : Operation} {paths : List Path}
    {v : Verdict} {c : Context} (h : g.contextOf p query o paths v = .ok c) :
    (∃ text withheld, c = g.guarded p text withheld) ∨ ∃ d, c = .denied d := by
  have hprinted : ∀ {a withheld},
      (do return g.guarded p (← g.printed a) withheld) = Except.ok c →
        ∃ text withheld, c = g.guarded p text withheld := by
    intro a withheld h
    obtain ⟨text, -, hc⟩ := bind_eq_ok_iff.mp h
    cases hc
    exact ⟨text, withheld, rfl⟩
  cases v with
  | unrestricted =>
    cases h
    exact .inl ⟨query, [], rfl⟩
  | granted => exact .inl (hprinted h)
  | rejected withheld => cases h
  | filtered rest withheld =>
    rw [contextOf] at h
    by_cases hempty : rest.isEmpty = true
    · rw [if_pos hempty] at h
      cases h
      exact .inr ⟨_, rfl⟩
    · rw [if_neg hempty] at h
      exact .inl (hprinted h)

/-- The paths that get nulls in the response are those that the query warns of. -/
theorem nullPaths_of_context {r : Request} {c : Context} (h : g.context r = .ok (some c))
    {paths : List Path} (hpaths : c.nullPaths? = some paths) :
    ∃ q n, c = .query q ∧ q.warnings = [n] ∧ n.paths = paths := by
  obtain ⟨p, query, o, -, -, -, hc⟩ := context_some h
  rcases contextOf_ok hc with ⟨text, withheld, rfl⟩ | ⟨d, rfl⟩
  · cases hempty : withheld.isEmpty with
    | true => simp [guarded, Context.nullPaths?, hempty] at hpaths
    | false =>
      have hsome : withheld = paths := by
        simp only [guarded, Context.nullPaths?, hempty, Bool.not_false, Bool.true_and,
          Option.ite_none_right_eq_some, Option.some.injEq] at hpaths
        exact hpaths.2
      exact ⟨_, ⟨withheldMessage, withheld⟩, rfl, by simp [hempty], hsome⟩
  · cases hpaths

end Gate

theorem Context.warnings_toJson {q : GuardedQuery} {n : Notice} (h : q.warnings = [n]) :
    (Context.query q).toJson.member? "warnings" = some (.array [n.toJson]) := by
  cases hv : q.variableValues <;> cases ho : q.operationName <;>
    simp [toJson, Json.member?, Record.get?, h, hv, ho]

theorem Json.text_of_object_ne (members : List (String × Json)) :
    (Json.object members).text ≠ "" := by
  intro h
  have hchars : (Json.object members).chars = [] := by
    simpa [text] using congrArg String.toList h
  cases hchars

namespace Server

def arriving (s : Server) (headers : List Header) (p : Params) : Request :=
  { Request.fresh with headers }.setParams s.gate.options.paramsSlot p

def exchanged (s : Server) (headers : List Header) (p : Params) : Outcome × Exchange :=
  Id.run (s.gate.handle (fun x => pure (dryRun x)) ⟨s.arriving headers p, .fresh⟩)

/-- The context that the gate has attached to a request in the end. -/
def attached? (s : Server) (headers : List Header) (body : List UInt8) : Option Context :=
  match Params.decode body with
  | .error _ => none
  | .ok p => (s.exchanged headers p).2.request.context

def continuing (s : Server) (b : Bool) : Server :=
  { s with gate := { s.gate with options := { s.gate.options with continueAfterResponse := b } } }

/-- The answer to a request is a JSON value. Its status is 400 exactly if there is no query to be
taken through the gate, 200 exactly if a context was attached, which is then reported, and otherwise
that of an error of the gate. -/
structure Answers (s : Server) (headers : List Header) (body : List UInt8) (j : Json) : Prop where
  text : (s.run headers body).body = some j.text
  nonempty : j.text ≠ ""
  contentType : Record.get? (s.run headers body).headers Response.contentType =
    some "application/json"
  badRequest_iff : (s.run headers body).status = 400 ↔ Params.LacksQuery (Params.decode body)
  served_iff : (s.run headers body).status = 200 ↔ (s.attached? headers body).isSome
  refused : ¬ Params.LacksQuery (Params.decode body) → s.attached? headers body = none →
    (s.run headers body).status = 403 ∨ (s.run headers body).status = 500
  reported : ∀ c, s.attached? headers body = some c → j = report c
  nullified : ∀ listed, j.member? "nullifiedPaths" = some listed →
    ∃ n : Notice, (j.member? "graphql").bind (·.member? "warnings") = some (.array [n.toJson]) ∧
      listed = .array (n.paths.map Path.toJson)

variable {s : Server} {headers : List Header} {body : List UInt8} {p : Params}

theorem dryRun_of_sent {x : Exchange} (h : x.response.isSent = true) : dryRun x = x := by
  rw [dryRun, if_pos h]

theorem run_of_error (s : Server) (headers : List Header) {e : ParamsError}
    (h : Params.decode body = .error e) :
    (s.run headers body, s.attached? headers body) =
      (Response.fresh.sendError (.malformedBody e), none) := by
  rw [run, attached?, h]

/-- The dry run leaves an answer as it is, so it makes no difference whether it is called behind
one. -/
theorem run_of_ok (s : Server) (headers : List Header) (h : Params.decode body = .ok p) :
    (s.run headers body, s.attached? headers body) =
      match s.gate.context (s.arriving headers p) with
      | .ok none => (Response.fresh.sendError .missingOperation, none)
      | .ok (some c) => (Response.fresh.sendJson 200 (report c), some c)
      | .error e => (Response.fresh.sendError e, none) := by
  have hrun : s.run headers body = (s.exchanged headers p).2.response := by
    rw [run, h]
    rfl
  have hattached : s.attached? headers body = (s.exchanged headers p).2.request.context := by
    rw [attached?, h]
  rw [hrun, hattached, exchanged, Gate.handle]
  cases hc : s.gate.context (s.arriving headers p) with
  | ok attached => cases attached <;> simp only [Gate.process, hc] <;> rfl
  | error e =>
    have hleft := @dryRun_of_sent ⟨s.arriving headers p, Response.fresh.sendError e⟩ rfl
    simp only [Gate.process, hc, hleft]
    cases s.gate.options.continueAfterResponse <;> rfl

theorem run_continuing (s : Server) (headers : List Header) (body : List UInt8) (b : Bool) :
    (s.continuing b).run headers body = s.run headers body := by
  cases hread : Params.decode body with
  | error e =>
    have heq := (s.continuing b).run_of_error headers hread
    rw [← s.run_of_error headers hread] at heq
    exact congrArg Prod.fst heq
  | ok p =>
    have hcontext : (s.continuing b).gate.context ((s.continuing b).arriving headers p) =
        s.gate.context (s.arriving headers p) := rfl
    have heq := (s.continuing b).run_of_ok headers hread
    rw [hcontext, ← s.run_of_ok headers hread] at heq
    exact congrArg Prod.fst heq

theorem lacksQuery_iff (s : Server) (headers : List Header) (p : Params) :
    Params.LacksQuery (.ok p) ↔ s.gate.context (s.arriving headers p) = .ok none := by
  have hasked : s.gate.asked? (s.arriving headers p) = (Gate.queryText? p).map (p, ·) := by
    rw [Gate.asked?, arriving, Request.params?, Request.setParams, Record.get?_insert_self]
    rfl
  rw [Gate.context_none_iff, hasked, Option.map_eq_none_iff, Gate.queryText_none_iff]

/-- An error is an answer if its status is right for what was read. -/
theorem answers_error {e : GateError}
    (heq : (s.run headers body, s.attached? headers body) = (Response.fresh.sendError e, none))
    (hbad : e.status = 400 ↔ Params.LacksQuery (Params.decode body))
    (hgate : ¬ Params.LacksQuery (Params.decode body) → Gate.IsGateStatus e.status) :
    s.Answers headers body e.toJson := by
  obtain ⟨hrun, hnone⟩ := Prod.mk.inj heq
  have hstatus : (s.run headers body).status = e.status := by
    rw [hrun]
    rfl
  have hmember : e.toJson.member? "nullifiedPaths" = none := rfl
  constructor
  case text =>
    rw [hrun]
    rfl
  case nonempty => exact Json.text_of_object_ne _
  case contentType =>
    rw [hrun]
    exact Record.get?_insert_self _ _ _
  case badRequest_iff =>
    rw [hstatus]
    exact hbad
  case served_iff =>
    rw [hstatus, hnone]
    cases e <;> simp [GateError.status]
  case refused =>
    intro hquery _
    rw [hstatus]
    exact hgate hquery
  case reported =>
    intro c hc
    rw [hnone] at hc
    cases hc
  case nullified =>
    intro listed hlisted
    rw [hmember] at hlisted
    cases hlisted

theorem answers_context {c : Context} (hread : Params.decode body = .ok p)
    (hc : s.gate.context (s.arriving headers p) = .ok (some c)) :
    s.Answers headers body (report c) := by
  have heq := s.run_of_ok headers hread
  rw [hc] at heq
  obtain ⟨hrun, hattached⟩ := Prod.mk.inj heq
  have hquery : ¬ Params.LacksQuery (Params.decode body) := by
    rw [hread, s.lacksQuery_iff headers, hc]
    simp
  constructor
  case text =>
    rw [hrun]
    rfl
  case nonempty => exact Json.text_of_object_ne _
  case contentType =>
    rw [hrun]
    exact Record.get?_insert_self _ _ _
  case badRequest_iff =>
    rw [hrun]
    exact iff_of_false (by simp [Response.sendJson]) hquery
  case served_iff =>
    rw [hrun, hattached]
    exact iff_of_true rfl rfl
  case refused =>
    intro _ hnone
    rw [hattached] at hnone
    cases hnone
  case reported =>
    intro d hd
    rw [hattached] at hd
    cases hd
    rfl
  case nullified =>
    intro listed hlisted
    cases hpaths : c.nullPaths? with
    | none => simp [report, Json.member?, Record.get?, hpaths] at hlisted
    | some paths =>
      obtain ⟨q, n, rfl, hwarnings, rfl⟩ := Gate.nullPaths_of_context hc hpaths
      have hlist : Json.array (n.paths.map Path.toJson) = listed := by
        simpa [report, Json.member?, Record.get?, hpaths] using hlisted
      exact ⟨n, Context.warnings_toJson hwarnings, hlist.symm⟩

theorem exists_answer (s : Server) (headers : List Header) (body : List UInt8) :
    ∃ j, s.Answers headers body j := by
  cases hread : Params.decode body with
  | error e =>
    have hlacks : Params.LacksQuery (Params.decode body) := by
      rw [hread]
      trivial
    have hrun := s.run_of_error headers hread
    exact ⟨_, answers_error hrun (iff_of_true rfl hlacks) fun h => absurd hlacks h⟩
  | ok p =>
    have heq := s.run_of_ok headers hread
    have hlacks := s.lacksQuery_iff headers p
    rw [← hread] at hlacks
    cases hc : s.gate.context (s.arriving headers p) with
    | ok attached =>
      cases attached with
      | none =>
        rw [hc] at heq
        have hquery := hlacks.mpr hc
        exact ⟨_, answers_error heq (iff_of_true rfl hquery) fun h => absurd hquery h⟩
      | some c => exact ⟨_, answers_context hread hc⟩
    | error e =>
      rw [hc] at heq hlacks
      have hquery : ¬ Params.LacksQuery (Params.decode body) := by
        rw [hlacks]
        simp
      have hstatus := Gate.context_error_status hc
      have hbad : e.status ≠ 400 := by
        rcases hstatus with h | h <;> simp [h]
      exact ⟨_, answers_error heq (iff_of_false hbad hquery) fun _ => hstatus⟩

/-- Every request to the endpoint is answered with a JSON value, whatever bytes its body holds, and
the same answer is given whether the gate continues behind an error or not. A body that is written
for a query and the name of an operation is read as these. -/
theorem every_request_is_answered (s : Server) (headers : List Header) (body : List UInt8) :
    (∃ j, s.Answers headers body j) ∧
    (∀ b, (s.continuing b).run headers body = s.run headers body) ∧
    ∀ query name, body = Text.utf8 (Params.toJson ⟨query, name, none⟩).text →
      Params.decode body = .ok ⟨query, name, none⟩ := by
  refine ⟨s.exists_answer headers body, s.run_continuing headers body, ?_⟩
  rintro query name rfl
  exact Params.decode_toJson query name

def articleServer (partialAccess : Bool) : Server :=
  let gate := Gate.start Operation.articles fun _ => .anonymous
  let options := { gate.options with partialAccess, nullify := true }
  ⟨{ gate with rules := rulesOf {}, options }, {}⟩

def queryBody (query : String) : List UInt8 :=
  Text.utf8 (Params.toJson ⟨some query, none, none⟩).text

def bodyQuery : String := "\x7barticle\x7btitle body\x7d\x7d"

/-- A query beside another member, the value of which is a string that is no UTF-8. -/
def foreignBody (member : String) : List UInt8 :=
  Text.utf8 ("\x7b\"query\":\"\x7barticle\x7btitle\x7d\x7d\",\"" ++ member ++ "\":\"") ++
    0xFF :: Text.utf8 "\"\x7d"

def bodyAnswer : String :=
  "\x7b\"graphql\":\x7b\"query\":\"\x7barticle\x7btitle\x7d\x7d\",\"warnings\":[\x7b\"message\":" ++
    "\"Some requested fields were removed because the caller is not allowed to see them.\"," ++
    "\"path\":[\"article.body\"]\x7d]\x7d," ++
    "\"nullifiedPaths\":[\x7b\"property\":\"article.body\"\x7d]\x7d"

theorem articles_are_answered :
    Params.decode (queryBody bodyQuery) = .ok ⟨some bodyQuery, none, none⟩ ∧
    ((articleServer true).run [] (queryBody bodyQuery)).body = some bodyAnswer ∧
    ((articleServer true).run [] (queryBody bodyQuery)).status = 200 ∧
    ((articleServer true).run [] (foreignBody "extensions")).status = 200 ∧
    ((articleServer true).run [] (foreignBody "operationName")).status = 400 ∧
    ((articleServer true).run [] (queryBody " ")).status = 400 ∧
    ((articleServer true).run [] [0x7B]).status = 400 ∧
    ((articleServer false).run [] (queryBody bodyQuery)).status = 403 ∧
    ((articleServer true).run [] (queryBody "\x7b")).status = 500 := by
  have hanswers := every_request_is_answered (articleServer true) []
  obtain ⟨⟨j, hj⟩, -, hread⟩ := hanswers (queryBody bodyQuery)
  obtain ⟨⟨k, hk⟩, -, hblank⟩ := hanswers (queryBody " ")
  have hlacks : Params.LacksQuery (Params.decode (queryBody " ")) := by
    rw [hblank (some " ") none rfl]
    rintro query ⟨⟩
    decide +kernel
  refine ⟨hread (some bodyQuery) none rfl, ?_, hj.served_iff.mpr ?_, ?_, ?_,
    hk.badRequest_iff.mpr hlacks, ?_, ?_, ?_⟩
  all_goals decide +kernel

end Server

end QueryGate
