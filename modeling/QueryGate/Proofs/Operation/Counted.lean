import QueryGate.Proofs.Operation.Inlining

/-! # Counted expansion

Expansion without a limit visits some number of selections until it ends, well or with an error.
Each field, inline fragment and spread that it comes to is one visit, repeated spreads as well.
Expansion within a limit is the same run, cut off where it would visit one selection too many. -/
namespace QueryGate

open GraphQL (Argument Directive FragmentDefinition OperationDefinition Selection)

/-- How a run ends, and the selections it has visited by then. -/
structure Counted (α : Type) where
  result : Except OperationError α
  visits : Nat

namespace Counted

variable {α β : Type}

def lift (x : Except OperationError α) : Counted α := ⟨x, 0⟩

def tick (x : Counted α) : Counted α := ⟨x.result, x.visits + 1⟩

instance : Monad Counted where
  pure a := lift (.ok a)
  bind x f :=
    match x.result with
    | .error y => ⟨.error y, x.visits⟩
    | .ok a => ⟨(f a).result, x.visits + (f a).visits⟩

/-- What becomes of a run if at most `left` selections may be visited, with the number of them that
are left in the end. -/
def within (limit left : Nat) (x : Counted α) : Except OperationError (α × Nat) :=
  if x.visits ≤ left then x.result.map (·, left - x.visits) else .error (.limitExceeded limit)

theorem within_lift (limit left : Nat) (x : Except OperationError α) :
    (lift x).within limit left = x.map (·, left) := by
  simp [within, lift]

theorem within_pure (limit left : Nat) (a : α) :
    (pure a : Counted α).within limit left = .ok (a, left) :=
  within_lift limit left (.ok a)

theorem within_tick_zero (limit : Nat) (x : Counted α) :
    x.tick.within limit 0 = .error (.limitExceeded limit) := by
  simp [within, tick]

theorem within_tick_succ (limit left : Nat) (x : Counted α) :
    x.tick.within limit (left + 1) = x.within limit left := by
  simp [within, tick]

theorem failed_bind (y : OperationError) (visits : Nat) (f : α → Counted β) :
    (⟨.error y, visits⟩ >>= f) = ⟨.error y, visits⟩ := rfl

theorem done_bind (a : α) (visits : Nat) (f : α → Counted β) :
    (⟨.ok a, visits⟩ >>= f) = ⟨(f a).result, visits + (f a).visits⟩ := rfl

theorem lift_bind (x : Except OperationError α) (f : α → Counted β) :
    lift x >>= f = match x with
      | .error y => lift (.error y)
      | .ok a => f a := by
  cases x with
  | error y => rfl
  | ok a => rw [lift, done_bind, Nat.zero_add]

/-- A chain of steps is cut off where its first step is, or else in the rest, for which there is
left what the first step leaves. -/
theorem within_bind (limit left : Nat) (x : Counted α) (f : α → Counted β) :
    (x >>= f).within limit left =
      x.within limit left >>= fun r => (f r.1).within limit r.2 := by
  obtain ⟨result, visits⟩ := x
  cases result with
  | error y =>
    rw [failed_bind, within, within]
    split <;> rfl
  | ok a =>
    rw [done_bind]
    simp only [within]
    by_cases hfirst : visits ≤ left
    · have hrest : visits + (f a).visits ≤ left ↔ (f a).visits ≤ left - visits := by omega
      simp only [if_pos hfirst, hrest, ← Nat.sub_sub]
      rfl
    · have hover : ¬ visits + (f a).visits ≤ left := by omega
      rw [if_neg hfirst, if_neg hover]
      rfl

def cut (limit : Nat) (x : Counted α) : Except OperationError α :=
  if x.visits ≤ limit then x.result else .error (.limitExceeded limit)

theorem cut_lift (limit : Nat) (x : Except OperationError α) : (lift x).cut limit = x := by
  simp [cut, lift]

theorem cut_eq_within (limit : Nat) (x : Counted α) :
    x.cut limit = (x.within limit limit).map Prod.fst := by
  obtain ⟨result, visits⟩ := x
  rw [cut, within]
  split
  · cases result <;> rfl
  · rfl

/-- Whatever makes a run fail, it is not a limit. -/
def Unlimited (x : Counted α) : Prop := ∀ limit, x.result ≠ .error (.limitExceeded limit)

theorem Unlimited.pure (a : α) : Unlimited (Pure.pure a : Counted α) := by
  intro limit h
  cases h

theorem Unlimited.tick {x : Counted α} (hx : x.Unlimited) : x.tick.Unlimited := hx

theorem Unlimited.bind {x : Counted α} {f : α → Counted β} (hx : x.Unlimited)
    (hf : ∀ a, x.result = .ok a → (f a).Unlimited) : (x >>= f).Unlimited := by
  obtain ⟨result, visits⟩ := x
  cases result with
  | error y =>
    intro limit h
    obtain rfl : y = .limitExceeded limit := Except.error.inj h
    exact hx limit rfl
  | ok a => exact hf a rfl

theorem Unlimited.cut_ne {x : Counted α} (hx : x.Unlimited) {limit : Nat} (h : x.visits ≤ limit)
    (n : Nat) : x.cut limit ≠ .error (.limitExceeded n) := by
  rw [cut, if_pos h]
  exact hx n

end Counted

namespace Expansion

mutual

def countedNode (e : Expansion) (visiting : List String) (parent : Option String)
    (seen : List String) : Selection → Counted (Option Node × List String)
  | .field aliasName name arguments directives selections => do
    let info := e.schema.fieldOrUnknown parent name
    let children ← countedNodes e visiting info.output [] selections
    return (some (.field ⟨name, aliasName, arguments, directives, info, info.isList⟩ children),
      seen)
  | .inline condition directives selections => do
    let children ← countedNodes e visiting (condition.or parent) [] selections
    return (some (.fragment ⟨condition, directives⟩ children), seen)
  | .spread name directives =>
    match _ : e.fragmentFor visiting name with
    | .error x => .lift (.error x)
    | .ok f =>
      if directives.isEmpty && seen.contains name then return (none, seen)
      else do
        let children ← countedNodes e (f.name :: visiting) (some f.typeCondition) [] f.selections
        return (some (.fragment ⟨some f.typeCondition, directives⟩ children),
          if directives.isEmpty then name :: seen else seen)
termination_by selection => ((e.unopened visiting).length, sizeOf selection)
decreasing_by
  · exact Prod.Lex.right _ (by rw [Selection.field.sizeOf_spec]; omega)
  · exact Prod.Lex.right _ (by rw [Selection.inline.sizeOf_spec]; omega)
  · exact Prod.Lex.left _ _ (unopened_lt ‹_›)

def countedNodes (e : Expansion) (visiting : List String) (parent : Option String)
    (seen : List String) : List Selection → Counted (List Node)
  | [] => return []
  | selection :: rest => do
    let (found, seen) ← (countedNode e visiting parent seen selection).tick
    let more ← countedNodes e visiting parent seen rest
    return found.toList ++ more
termination_by selections => ((e.unopened visiting).length, sizeOf selections)

end

theorem countedNode_spread (e : Expansion) (visiting : List String) (parent : Option String)
    (seen : List String) (name : String) (directives : List Directive) :
    e.countedNode visiting parent seen (.spread name directives) = (do
      let f ← Counted.lift (e.fragmentFor visiting name)
      if directives.isEmpty && seen.contains name then return (none, seen)
      else do
        let children ← e.countedNodes (f.name :: visiting) (some f.typeCondition) [] f.selections
        return (some (.fragment ⟨some f.typeCondition, directives⟩ children),
          if directives.isEmpty then name :: seen else seen)) := by
  rw [countedNode, Counted.lift_bind]
  split
  · rename_i hf
    rw [hf]
  · rename_i hf
    rw [hf]

/-- The body of each fragment is expanded as the counted expansion says, up to the limit. -/
def Counts (e : Expansion) (visiting : List String)
    (enter : FragmentDefinition → Nat → Except OperationError (List Node × Nat)) : Prop :=
  ∀ (name : String) (f : FragmentDefinition) (left : Nat), e.fragmentFor visiting name = .ok f →
    enter f left =
      (e.countedNodes (f.name :: visiting) (some f.typeCondition) [] f.selections).within
        e.options.maxSelections left

variable {e : Expansion} {visiting : List String}
  {enter : FragmentDefinition → Nat → Except OperationError (List Node × Nat)}

mutual

theorem node_counted (henter : Counts e visiting enter) :
    ∀ (selection : Selection) (parent : Option String) (seen : List String) (left : Nat),
      e.node enter visiting parent seen left selection =
        ((e.countedNode visiting parent seen selection).within e.options.maxSelections left).map
          fun r => (r.1.1, r.1.2, r.2)
  | .field aliasName name arguments directives selections, parent, seen, left => by
    have ih := nodes_counted henter selections (e.schema.fieldOrUnknown parent name).output [] left
    rw [node, countedNode, ih, Counted.within_bind]
    cases (e.countedNodes visiting (e.schema.fieldOrUnknown parent name).output []
      selections).within e.options.maxSelections left <;> rfl
  | .inline condition directives selections, parent, seen, left => by
    have ih := nodes_counted henter selections (condition.or parent) [] left
    rw [node, countedNode, ih, Counted.within_bind]
    cases (e.countedNodes visiting (condition.or parent) [] selections).within
      e.options.maxSelections left <;> rfl
  | .spread name directives, parent, seen, left => by
    rw [node, countedNode_spread, Counted.lift_bind]
    cases hf : e.fragmentFor visiting name with
    | error x =>
      rw [Counted.within_lift]
      rfl
    | ok f =>
      rw [ok_bind]
      split
      · rfl
      · rw [henter name f left hf, Counted.within_bind]
        cases (e.countedNodes (f.name :: visiting) (some f.typeCondition) [] f.selections).within
          e.options.maxSelections left <;> rfl

/-- Expansion within a limit is the counted expansion, cut off at the limit. -/
theorem nodes_counted (henter : Counts e visiting enter) :
    ∀ (selections : List Selection) (parent : Option String) (seen : List String) (left : Nat),
      e.nodes enter visiting parent seen left selections =
        (e.countedNodes visiting parent seen selections).within e.options.maxSelections left
  | [], parent, seen, left => by
    rw [nodes, countedNodes, Counted.within_pure]
  | selection :: rest, parent, seen, left => by
    rw [countedNodes, Counted.within_bind]
    cases left with
    | zero =>
      rw [Counted.within_tick_zero]
      rfl
    | succ left =>
      rw [nodes, Counted.within_tick_succ, node_counted henter selection parent seen left]
      cases (e.countedNode visiting parent seen selection).within e.options.maxSelections left with
      | error x => rfl
      | ok r =>
        obtain ⟨⟨found, seen₁⟩, left₁⟩ := r
        have ih := nodes_counted henter rest parent seen₁ left₁
        simp only [Except.map, ok_bind]
        rw [ih, Counted.within_bind]
        rfl

end

/-- With one more level than there are fragments to enter, the levels never run out. -/
theorem enter_counted (e : Expansion) (depth : Nat) (visiting : List String)
    (hdepth : (e.unopened visiting).length ≤ depth) :
    Counts e visiting (e.enter depth visiting) := by
  induction depth generalizing visiting with
  | zero =>
    intro name f left hf
    have hless := unopened_lt hf
    omega
  | succ depth ih =>
    intro name f left hf
    have hless := unopened_lt hf
    exact nodes_counted (ih (f.name :: visiting) (by omega)) f.selections _ [] left

theorem fragmentFor_unlimited (e : Expansion) (visiting : List String) (name : String) :
    (Counted.lift (e.fragmentFor visiting name)).Unlimited := by
  intro limit h
  simp only [Counted.lift, fragmentFor] at h
  split at h
  · cases h
  · split at h
    · cases h
    · split at h <;> cases h

mutual

theorem countedNode_unlimited (e : Expansion) (visiting : List String) (parent : Option String)
    (seen : List String) : ∀ selection : Selection,
      (e.countedNode visiting parent seen selection).Unlimited
  | .field aliasName name arguments directives selections => by
    have ih := countedNodes_unlimited e visiting (e.schema.fieldOrUnknown parent name).output []
      selections
    rw [countedNode]
    exact ih.bind fun _ _ => .pure _
  | .inline condition directives selections => by
    have ih := countedNodes_unlimited e visiting (condition.or parent) [] selections
    rw [countedNode]
    exact ih.bind fun _ _ => .pure _
  | .spread name directives => by
    rw [countedNode_spread]
    refine (fragmentFor_unlimited e visiting name).bind fun f hf => ?_
    have hless := unopened_lt hf
    have ih := countedNodes_unlimited e (f.name :: visiting) (some f.typeCondition) [] f.selections
    split
    · exact .pure _
    · exact ih.bind fun _ _ => .pure _
termination_by selection => ((e.unopened visiting).length, sizeOf selection)
decreasing_by
  · exact Prod.Lex.right _ (by rw [Selection.field.sizeOf_spec]; omega)
  · exact Prod.Lex.right _ (by rw [Selection.inline.sizeOf_spec]; omega)
  · exact Prod.Lex.left _ _ hless

theorem countedNodes_unlimited (e : Expansion) (visiting : List String) (parent : Option String)
    (seen : List String) : ∀ selections : List Selection,
      (e.countedNodes visiting parent seen selections).Unlimited
  | [] => by
    rw [countedNodes]
    exact .pure _
  | selection :: rest => by
    have ihnode := countedNode_unlimited e visiting parent seen selection
    have ihrest := fun seen => countedNodes_unlimited e visiting parent seen rest
    rw [countedNodes]
    exact ihnode.tick.bind fun r _ => (ihrest r.2).bind fun _ _ => .pure _
termination_by selections => ((e.unopened visiting).length, sizeOf selections)

end

end Expansion

namespace Operation

def counted (e : Expansion) (o : OperationDefinition) : Counted Operation :=
  match e.schema.root? o.kind with
  | none => .lift (.error (.missingRootType o.kind))
  | some root => do
    let nodes ← e.countedNodes [] (some root) [] o.selections
    return ⟨o.kind, o.name, root, o.variableDefinitions, o.directives, nodes⟩

theorem ofDefinition_counted (e : Expansion) (o : OperationDefinition) :
    ofDefinition e o = (counted e o).cut e.options.maxSelections := by
  rw [ofDefinition, counted]
  cases e.schema.root? o.kind with
  | none => rw [Counted.cut_lift]
  | some root =>
    have henter := e.enter_counted e.document.fragments.length [] (List.length_filter_le _ _)
    have hnodes := Expansion.nodes_counted henter o.selections (some root) []
      e.options.maxSelections
    simp only [hnodes, Counted.cut_eq_within, Counted.within_bind, Counted.within_pure]
    cases (e.countedNodes [] (some root) [] o.selections).within e.options.maxSelections
      e.options.maxSelections <;> rfl

theorem counted_unlimited (e : Expansion) (o : OperationDefinition) : (counted e o).Unlimited := by
  rw [counted]
  cases e.schema.root? o.kind with
  | none =>
    intro limit h
    cases h
  | some root =>
    exact (e.countedNodes_unlimited [] (some root) [] o.selections).bind fun _ _ => .pure _

end Operation

end QueryGate
