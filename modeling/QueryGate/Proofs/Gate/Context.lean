import QueryGate.Gate.Process
import QueryGate.Proofs.Access.Exactness

/-! # How a request gets its context

A gate takes a request through one chain of steps: the query is looked up and read, the caller is
told, and the verdict becomes a context. Each step may end the chain, with nothing attached if there
is no query and otherwise with an error. -/
namespace QueryGate.Gate

variable {User : Type} {g : Gate User} {r : Request}

def asked? (g : Gate User) (r : Request) : Option (Params × String) :=
  (r.params? g.options.paramsSlot).bind fun p => (queryText? p).map (p, ·)

def caller? (g : Gate User) (r : Request) : Option User := (g.authenticator.run r).user?

def verdict (g : Gate User) (o : Operation) (user : Option User) : Verdict :=
  g.rules.decide o (g.rules.restrictedPaths o) user g.options.partialAccess

theorem context_of_no_query (h : g.asked? r = none) : g.context r = .ok none := by
  unfold context
  cases hp : r.params? g.options.paramsSlot with
  | none => rfl
  | some p =>
    have hq : queryText? p = none := by simpa [asked?, hp] using h
    simp [hq]

theorem context_of_query {p : Params} {query : String} (h : g.asked? r = some (p, query)) :
    g.context r =
      match g.readOperation p query with
      | .error e => .error e
      | .ok o =>
        if !g.options.partialAccess && (g.caller? r).isNone then .error .accessDenied
        else
          (g.contextOf p query o (g.rules.restrictedPaths o)
            (g.verdict o (g.caller? r))).map some := by
  unfold context
  cases hp : r.params? g.options.paramsSlot with
  | none => simp [asked?, hp] at h
  | some p' =>
    obtain ⟨q', hq, he⟩ : ∃ q', queryText? p' = some q' ∧ (p', q') = (p, query) := by
      simpa [asked?, hp] using h
    cases he
    simp only [hq]
    cases g.readOperation p query with
    | error e => rfl
    | ok o =>
      change (if _ then _ else _) = if _ then _ else _
      congr 1

/-- A query was read and is not served: it could be served as a whole only, and the caller is not
authenticated or may not see all of it. -/
def Denies (g : Gate User) (r : Request) : Prop :=
  g.options.partialAccess = false ∧ ∃ p query o,
    g.asked? r = some (p, query) ∧ g.readOperation p query = .ok o ∧
      (g.caller? r = none ∨ ∃ f ∈ o.fields, g.rules.forbids (g.caller? r) f.1 f.2 = true)

/-- The reader fails on the query, or the printer on what is to be handed on. -/
def Breaks (g : Gate User) (r : Request) : Prop :=
  ∃ p query, g.asked? r = some (p, query) ∧
    ((∃ fault, g.reader query p.operationName g.schema g.options.expansion = .error fault) ∨
      ∃ o crash, g.printer o = .error crash)

theorem printed_error {o : Operation} {e : GateError} (h : g.printed o = .error e) :
    e.status = 500 ∧ ∃ crash, g.printer o = .error crash := by
  unfold printed at h
  split at h
  · cases h
  · rename_i crash hcrash
    cases h
    exact ⟨rfl, crash, hcrash⟩

theorem readOperation_error {p : Params} {query : String} {e : GateError}
    (h : g.readOperation p query = .error e) :
    e.status = 500 ∧
      ∃ fault, g.reader query p.operationName g.schema g.options.expansion = .error fault := by
  unfold readOperation at h
  split at h
  · cases h
  · rename_i cause hfault
    cases h
    exact ⟨rfl, _, hfault⟩
  · rename_i crash hfault
    cases h
    exact ⟨rfl, _, hfault⟩

theorem contextOf_error {p : Params} {query : String} {o : Operation} {paths : List Path}
    {v : Verdict} {e : GateError} (h : g.contextOf p query o paths v = .error e) :
    (e = .accessDenied ∧ ∃ withheld, v = .rejected withheld) ∨
      (e.status = 500 ∧ ∃ a crash, g.printer a = .error crash) := by
  have hprinted : ∀ {a withheld},
      (do return g.guarded p (← g.printed a) withheld) = Except.error e →
        e.status = 500 ∧ ∃ a crash, g.printer a = .error crash := by
    intro a withheld h
    cases hp : g.printed a with
    | ok text =>
      rw [hp] at h
      cases h
    | error d =>
      rw [hp] at h
      cases h
      obtain ⟨hstatus, crash, hcrash⟩ := printed_error hp
      exact ⟨hstatus, a, crash, hcrash⟩
  cases v with
  | unrestricted => cases h
  | granted => exact .inr (hprinted h)
  | rejected withheld =>
    cases h
    exact .inl ⟨rfl, withheld, rfl⟩
  | filtered rest withheld =>
    rw [contextOf] at h
    split at h
    · cases h
    · exact .inr (hprinted h)

/-- Why there is no context: access is denied, or the reader or the printer fails. -/
theorem context_error {e : GateError} (h : g.context r = .error e) :
    (e = .accessDenied ∧ g.Denies r) ∨ (e.status = 500 ∧ g.Breaks r) := by
  cases ha : g.asked? r with
  | none =>
    rw [context_of_no_query ha] at h
    cases h
  | some asked =>
    obtain ⟨p, query⟩ := asked
    rw [context_of_query ha] at h
    cases ho : g.readOperation p query with
    | error d =>
      rw [ho] at h
      cases h
      obtain ⟨hstatus, hfault⟩ := readOperation_error ho
      exact .inr ⟨hstatus, p, query, ha, .inl hfault⟩
    | ok o =>
      simp only [ho] at h
      split at h
      · rename_i hrefused
        cases h
        simp only [Bool.and_eq_true, Bool.not_eq_true', Option.isNone_iff_eq_none] at hrefused
        exact .inl ⟨rfl, hrefused.1, p, query, o, ha, ho, .inl hrefused.2⟩
      · cases hc : g.contextOf p query o (g.rules.restrictedPaths o)
          (g.verdict o (g.caller? r)) with
        | ok c =>
          rw [hc] at h
          cases h
        | error d =>
          rw [hc] at h
          cases h
          rcases contextOf_error hc with ⟨he, hrejected⟩ | ⟨hstatus, hcrash⟩
          · obtain ⟨hpartial, -, hforbidden⟩ := AccessRules.rejected_iff.mp hrejected
            exact .inl ⟨he, hpartial, p, query, o, ha, ho, .inr hforbidden⟩
          · exact .inr ⟨hstatus, p, query, ha, .inr hcrash⟩

def IsGateStatus (n : Nat) : Prop := n = 403 ∨ n = 500

theorem context_error_status {e : GateError} (h : g.context r = .error e) :
    IsGateStatus e.status := by
  rcases context_error h with ⟨rfl, -⟩ | ⟨hstatus, -⟩
  · exact .inl rfl
  · exact .inr hstatus

theorem context_none_iff : g.context r = .ok none ↔ g.asked? r = none := by
  refine ⟨fun h => ?_, context_of_no_query⟩
  cases ha : g.asked? r with
  | none => rfl
  | some asked =>
    obtain ⟨p, query⟩ := asked
    rw [context_of_query ha] at h
    split at h
    · cases h
    · split at h
      · cases h
      · rw [Except.map.eq_def] at h
        split at h <;> cases h

theorem context_some {c : Context} (h : g.context r = .ok (some c)) :
    ∃ p query o, g.asked? r = some (p, query) ∧ g.readOperation p query = .ok o ∧
      (g.options.partialAccess = false → (g.caller? r).isSome) ∧
      g.contextOf p query o (g.rules.restrictedPaths o) (g.verdict o (g.caller? r)) = .ok c := by
  cases ha : g.asked? r with
  | none => rw [context_of_no_query ha] at h; cases h
  | some asked =>
    obtain ⟨p, query⟩ := asked
    rw [context_of_query ha] at h
    cases ho : g.readOperation p query with
    | error d => rw [ho] at h; cases h
    | ok o =>
      simp only [ho] at h
      split at h
      · cases h
      · rename_i hu
        refine ⟨p, query, o, rfl, ho, fun hp => ?_, ?_⟩
        · cases hc : g.caller? r with
          | none => simp [hp, hc] at hu
          | some u => rfl
        · cases hc : g.contextOf p query o (g.rules.restrictedPaths o)
            (g.verdict o (g.caller? r)) with
          | error d => rw [hc] at h; cases h
          | ok c' => rw [hc] at h; cases h; rfl

theorem printed_ok {o : Operation} {text : String} (h : g.printed o = .ok text) :
    g.printer o = .ok text := by
  unfold printed at h
  split at h
  · cases h; assumption
  · cases h

end QueryGate.Gate
