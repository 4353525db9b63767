import Mathlib.Tactic.SplitIfs
import QueryGate.Proofs.GraphQL.WellFormed

/-! # What is read is well-formed

Every token of a text is well-formed, and so is whatever a rule makes of such tokens. -/
namespace QueryGate.GraphQL

namespace Token

theorem float_is_float {whole : List Char} {fraction power : Option (List Char)} {t : Token}
    (h : float? whole fraction power = some t) : t.WellFormed := by
  obtain ⟨-, -, h⟩ := Option.bind_eq_some_iff.mp h
  obtain ⟨e, -, h⟩ := Option.bind_eq_some_iff.mp h
  cases h
  trivial

theorem number_well_formed {s : List Char} {t : Token} (h : number? s = some t) :
    t.WellFormed := by
  unfold number? at h
  split at h
  · split at h
    · simp only [int?, Option.ite_none_right_eq_some] at h
      obtain ⟨-, hrange, h⟩ := h
      cases h
      exact hrange
    · exact float_is_float h
  · split at h
    · cases h
    · split at h
      · exact float_is_float h
      · exact float_is_float h

theorem block_well_formed (body : List Char) : (block body).WellFormed := by
  unfold block
  split <;> trivial

theorem next_well_formed {s : List Char} {t : Token} {a rest : List Char}
    (h : next? s = some (t, a, rest)) : t.WellFormed := by
  unfold next? at h
  split at h
  · cases h
  · cases h
    trivial
  · simp only [Option.bind_eq_bind, Option.bind_eq_some_iff] at h
    obtain ⟨_, -, h⟩ := h
    cases h
    exact block_well_formed _
  · simp only [Option.bind_eq_bind, Option.bind_eq_some_iff] at h
    obtain ⟨_, -, _, -, h⟩ := h
    cases h
    trivial
  · rename_i c s _ _ _
    split at h
    · cases h
      trivial
    · split at h
      · rename_i hc
        rw [List.span_eq_takeWhile_dropWhile] at h
        cases h
        exact ⟨c, s.takeWhile continuesName, String.toList_ofList, hc, List.all_takeWhile⟩
      · split at h
        · simp only [Option.bind_eq_bind, Option.bind_eq_some_iff] at h
          obtain ⟨token, hnumber, h⟩ := h
          cases h
          exact number_well_formed hnumber
        · cases h

theorem scanFrom_well_formed (rounds left : Nat) (p : Position) (s : List Char) :
    ∀ l ∈ (scanFrom rounds left p s).items, l.token.WellFormed := by
  induction rounds generalizing left p s with
  | zero => simp [scanFrom]
  | succ rounds ih =>
    cases hskip : skip false p s with
    | mk p' s' =>
      simp only [scanFrom, hskip]
      cases hnext : next? s' with
      | none => simp
      | some found =>
        obtain ⟨t, consumed, rest⟩ := found
        cases hleft : bracketsLeft? left t with
        | none => simp [hleft]
        | some left' =>
          simp only [hleft]
          exact List.forall_mem_cons.mpr ⟨next_well_formed hnext, ih left' _ rest⟩

end Token

namespace Rule

variable {α β : Type}

/-- From well-formed tokens a rule makes only values with a property, and it leaves well-formed
tokens. -/
def Yields (rule : Rule α) (P : α → Prop) : Prop :=
  ∀ ⦃ts x rest⦄, (∀ t ∈ ts, t.WellFormed) → rule ts = .ok (x, rest) →
    P x ∧ ∀ t ∈ rest, t.WellFormed

theorem name_yields : Yields name Token.IsName := by
  intro ts x rest hts h
  unfold name at h
  split at h
  · cases h
    exact List.forall_mem_cons.mp hts
  · cases h

theorem keyword_yields (word : String) : Yields (keyword word) fun _ => True := by
  intro ts x rest hts h
  unfold keyword at h
  split at h
  · split at h
    · cases h
      exact ⟨trivial, (List.forall_mem_cons.mp hts).2⟩
    · cases h
  · cases h

theorem mark_yields (c : Char) : Yields (mark c) fun _ => True := by
  intro ts x rest hts h
  unfold mark at h
  split at h
  · split at h
    · cases h
      exact ⟨trivial, (List.forall_mem_cons.mp hts).2⟩
    · cases h
  · cases h

theorem optional_yields {starts : List Token → Bool} {rule : Rule α} {P : α → Prop}
    (hr : Yields rule P) :
    Yields (optional starts rule) fun found => ∀ x, found = some x → P x := by
  intro ts found rest hts h
  unfold optional at h
  split at h
  · obtain ⟨⟨x, rest'⟩, hx, h⟩ := bind_eq_ok_iff.mp h
    cases h
    obtain ⟨hp, hrest⟩ := hr hts hx
    exact ⟨fun y hy => Option.some.inj hy ▸ hp, hrest⟩
  · cases h
    exact ⟨by simp, hts⟩

theorem manyFrom_yields {starts : List Token → Bool} {rule : Rule α} {P : α → Prop}
    (hr : Yields rule P) (rounds : Nat) :
    Yields (manyFrom starts rule rounds) fun xs => ∀ x ∈ xs, P x := by
  induction rounds with
  | zero =>
    intro ts xs rest _ h
    cases h
  | succ rounds ih =>
    intro ts xs rest hts h
    rw [manyFrom] at h
    split at h
    · obtain ⟨⟨y, rest₁⟩, hy, h⟩ := bind_eq_ok_iff.mp h
      obtain ⟨⟨ys, rest₂⟩, hys, h⟩ := bind_eq_ok_iff.mp h
      cases h
      obtain ⟨hp, hrest₁⟩ := hr hts hy
      obtain ⟨hps, hrest₂⟩ := ih hrest₁ hys
      exact ⟨List.forall_mem_cons.mpr ⟨hp, hps⟩, hrest₂⟩
    · cases h
      exact ⟨by simp, hts⟩

theorem many_yields {starts : List Token → Bool} {rule : Rule α} {P : α → Prop}
    (hr : Yields rule P) : Yields (many starts rule) fun xs => ∀ x ∈ xs, P x :=
  fun _ _ _ hts h => manyFrom_yields hr _ hts h

theorem upTo_yields {close : Char} {rule : Rule α} {P : α → Prop} (hr : Yields rule P) :
    Yields (Rule.upTo close rule) fun xs => ∀ x ∈ xs, P x := by
  intro ts xs rest hts h
  obtain ⟨⟨ys, rest₁⟩, hys, h⟩ := bind_eq_ok_iff.mp h
  obtain ⟨⟨_, rest₂⟩, hclose, h⟩ := bind_eq_ok_iff.mp h
  cases h
  obtain ⟨hp, hrest₁⟩ := many_yields hr hts hys
  exact ⟨hp, (mark_yields close hrest₁ hclose).2⟩

theorem between_yields {opening close : Char} {rule : Rule α} {P : α → Prop} (hr : Yields rule P) :
    Yields (Rule.between opening close rule) fun xs => xs ≠ [] ∧ ∀ x ∈ xs, P x := by
  intro ts xs rest hts h
  obtain ⟨⟨_, rest₁⟩, hopen, h⟩ := bind_eq_ok_iff.mp h
  obtain ⟨⟨y, rest₂⟩, hy, h⟩ := bind_eq_ok_iff.mp h
  obtain ⟨⟨ys, rest₃⟩, hys, h⟩ := bind_eq_ok_iff.mp h
  cases h
  obtain ⟨hp, hrest₂⟩ := hr (mark_yields opening hts hopen).2 hy
  obtain ⟨hps, hrest₃⟩ := upTo_yields hr hrest₂ hys
  exact ⟨⟨List.cons_ne_nil y ys, List.forall_mem_cons.mpr ⟨hp, hps⟩⟩, hrest₃⟩

theorem entry_yields {inner : Rule Value} {P : Value → Prop} (hr : Yields inner P) :
    Yields (entry inner) fun a => Token.IsName a.1 ∧ P a.2 := by
  intro ts a rest hts h
  obtain ⟨⟨key, rest₁⟩, hkey, h⟩ := bind_eq_ok_iff.mp h
  obtain ⟨⟨_, rest₂⟩, hmark, h⟩ := bind_eq_ok_iff.mp h
  obtain ⟨⟨v, rest₃⟩, hv, h⟩ := bind_eq_ok_iff.mp h
  cases h
  obtain ⟨hname, hrest₁⟩ := name_yields hts hkey
  obtain ⟨hp, hrest₃⟩ := hr (mark_yields ':' hrest₁ hmark).2 hv
  exact ⟨⟨hname, hp⟩, hrest₃⟩

theorem value_yields (constant : Bool) (depth : Nat) :
    Yields (value constant depth) (Value.WellFormed constant) := by
  induction depth using Nat.strongRecOn with
  | ind depth ih =>
    intro ts v rest hts h
    unfold value at h
    split at h
    · cases h
    · obtain ⟨ht, hrest⟩ := List.forall_mem_cons.mp hts
      split at h
      · cases h
        refine ⟨?_, hrest⟩
        split_ifs with htrue hfalse hnull
        · trivial
        · trivial
        · trivial
        · exact ⟨ht, htrue, hfalse, hnull⟩
      · cases h
        exact ⟨ht, hrest⟩
      · cases h
        exact ⟨trivial, hrest⟩
      · cases h
        exact ⟨trivial, hrest⟩
      · cases h
      · split at h
        · cases h
        · rename_i hconstant
          obtain ⟨⟨s, _⟩, hs, h⟩ := bind_eq_ok_iff.mp h
          cases h
          obtain ⟨hname, hrest⟩ := name_yields hrest hs
          exact ⟨⟨by simpa using hconstant, hname⟩, hrest⟩
      · obtain ⟨⟨items, _⟩, hitems, h⟩ := bind_eq_ok_iff.mp h
        cases h
        obtain ⟨hp, hrest⟩ := upTo_yields (ih _ (Nat.lt_succ_self _)) hrest hitems
        exact ⟨Value.items_well_formed_iff.mpr hp, hrest⟩
      · obtain ⟨⟨fields, _⟩, hfields, h⟩ := bind_eq_ok_iff.mp h
        cases h
        obtain ⟨hp, hrest⟩ := upTo_yields (entry_yields (ih _ (Nat.lt_succ_self _))) hrest hfields
        refine ⟨⟨Record.ordered_ofEntries fields, ?_⟩, hrest⟩
        exact Value.fields_well_formed_iff.mpr fun f hf => hp f (Record.mem_ofEntries hf)
      · cases h

theorem arguments_yields : Yields Rule.arguments fun as => ∀ a ∈ as, Argument.WellFormed a := by
  intro ts as rest hts h
  obtain ⟨⟨found, _⟩, hfound, h⟩ := bind_eq_ok_iff.mp h
  cases h
  have hargument : Yields argument Argument.WellFormed :=
    entry_yields fun _ _ _ hts h => value_yields false _ hts h
  obtain ⟨hp, hrest⟩ := optional_yields (between_yields hargument) hts hfound
  cases found with
  | none => exact ⟨by simp, hrest⟩
  | some as => exact ⟨(hp as rfl).2, hrest⟩

theorem directives_yields : Yields directives fun ds => ∀ d ∈ ds, d.WellFormed := by
  refine many_yields fun ts d rest hts h => ?_
  obtain ⟨⟨_, _⟩, hmark, h⟩ := bind_eq_ok_iff.mp h
  obtain ⟨⟨word, _⟩, hword, h⟩ := bind_eq_ok_iff.mp h
  obtain ⟨⟨as, _⟩, has, h⟩ := bind_eq_ok_iff.mp h
  cases h
  obtain ⟨hname, hrest⟩ := name_yields (mark_yields '@' hts hmark).2 hword
  obtain ⟨hp, hrest⟩ := arguments_yields hrest has
  exact ⟨⟨hname, hp⟩, hrest⟩

theorem nullable_yields {item : Rule TypeRef} (hr : Yields item TypeRef.WellFormed) :
    Yields (nullable item) fun t => t.isNonNull = false ∧ t.WellFormed := by
  intro ts t rest hts h
  unfold nullable at h
  split at h
  · obtain ⟨⟨_, _⟩, hopen, h⟩ := bind_eq_ok_iff.mp h
    obtain ⟨⟨t, _⟩, ht, h⟩ := bind_eq_ok_iff.mp h
    obtain ⟨⟨_, _⟩, hclose, h⟩ := bind_eq_ok_iff.mp h
    cases h
    obtain ⟨hp, hrest⟩ := hr (mark_yields '[' hts hopen).2 ht
    exact ⟨⟨rfl, hp⟩, (mark_yields ']' hrest hclose).2⟩
  · obtain ⟨⟨word, _⟩, hword, h⟩ := bind_eq_ok_iff.mp h
    cases h
    obtain ⟨hname, hrest⟩ := name_yields hts hword
    exact ⟨⟨rfl, hname⟩, hrest⟩

theorem typeAt_yields (depth : Nat) : Yields (typeAt depth) TypeRef.WellFormed := by
  induction depth with
  | zero =>
    intro ts t rest _ h
    cases h
  | succ depth ih =>
    intro ts t rest hts h
    obtain ⟨⟨inner, _⟩, hinner, h⟩ := bind_eq_ok_iff.mp h
    obtain ⟨⟨bang, _⟩, hbang, h⟩ := bind_eq_ok_iff.mp h
    cases h
    obtain ⟨hp, hrest⟩ := nullable_yields ih hts hinner
    have hrest := (optional_yields (mark_yields '!') hrest hbang).2
    refine ⟨?_, hrest⟩
    split
    · exact hp
    · exact hp.2

theorem variableDefinition_yields : Yields variableDefinition VariableDefinition.WellFormed := by
  intro ts v rest hts h
  obtain ⟨⟨_, _⟩, hmark, h⟩ := bind_eq_ok_iff.mp h
  obtain ⟨⟨word, _⟩, hword, h⟩ := bind_eq_ok_iff.mp h
  obtain ⟨⟨_, _⟩, hcolon, h⟩ := bind_eq_ok_iff.mp h
  obtain ⟨⟨t, _⟩, ht, h⟩ := bind_eq_ok_iff.mp h
  obtain ⟨⟨value, _⟩, hvalue, h⟩ := bind_eq_ok_iff.mp h
  cases h
  obtain ⟨hname, hrest⟩ := name_yields (mark_yields '$' hts hmark).2 hword
  obtain ⟨htype, hrest⟩ := typeAt_yields _ (mark_yields ':' hrest hcolon).2 ht
  have hconstant : Yields (fun ts => mark '=' ts >>= fun p => constant p.2)
      (Value.WellFormed true) := by
    intro ts v rest hts h
    obtain ⟨⟨_, _⟩, hmark, h⟩ := bind_eq_ok_iff.mp h
    exact value_yields true _ (mark_yields '=' hts hmark).2 h
  obtain ⟨hdefault, hrest⟩ := optional_yields hconstant hrest hvalue
  exact ⟨⟨hname, htype, hdefault⟩, hrest⟩

end Rule

mutual

/-- A selection as it can be written; an inline fragment selects something. -/
def Selection.WellFormed : Selection → Prop
  | .field aliasName name arguments directives selections =>
    (∀ a, aliasName = some a → Token.IsName a) ∧ Token.IsName name ∧
      (∀ a ∈ arguments, Argument.WellFormed a) ∧ (∀ d ∈ directives, d.WellFormed) ∧
      SelectionsWellFormed selections
  | .inline condition directives selections =>
    (∀ t, condition = some t → Token.IsName t) ∧ (∀ d ∈ directives, d.WellFormed) ∧
      selections ≠ [] ∧ SelectionsWellFormed selections
  | .spread _ directives => ∀ d ∈ directives, d.WellFormed

def SelectionsWellFormed : List Selection → Prop
  | [] => True
  | selection :: rest => selection.WellFormed ∧ SelectionsWellFormed rest

end

theorem selections_well_formed_iff {ss : List Selection} :
    SelectionsWellFormed ss ↔ ∀ s ∈ ss, s.WellFormed := by
  induction ss with
  | nil => simp [SelectionsWellFormed]
  | cons s ss ih => simp [SelectionsWellFormed, ih]

def Selection.Body (ss : List Selection) : Prop := ss ≠ [] ∧ SelectionsWellFormed ss

structure OperationDefinition.WellFormed (o : OperationDefinition) : Prop where
  name : ∀ n, o.name = some n → Token.IsName n
  variableDefinitions : ∀ v ∈ o.variableDefinitions, v.WellFormed
  directives : ∀ d ∈ o.directives, d.WellFormed
  selections : Selection.Body o.selections

structure FragmentDefinition.WellFormed (f : FragmentDefinition) : Prop where
  typeCondition : Token.IsName f.typeCondition
  selections : Selection.Body f.selections

def Definition.WellFormed : Definition → Prop
  | .operation o => o.WellFormed
  | .fragment f => f.WellFormed

namespace Rule

theorem typeCondition_yields : Yields typeCondition Token.IsName := by
  intro ts t rest hts h
  obtain ⟨⟨_, _⟩, hon, h⟩ := bind_eq_ok_iff.mp h
  exact name_yields (keyword_yields "on" hts hon).2 h

theorem aliased_yields : Yields aliased Token.IsName := by
  intro ts t rest hts h
  obtain ⟨⟨_, _⟩, hmark, h⟩ := bind_eq_ok_iff.mp h
  exact name_yields (mark_yields ':' hts hmark).2 h

theorem selection_yields {inner : Rule (List Selection)} (hr : Yields inner Selection.Body) :
    Yields (selection inner) Selection.WellFormed := by
  intro ts s rest hts h
  unfold selection at h
  split at h
  · have hts := (List.forall_mem_cons.mp hts).2
    split at h
    · obtain ⟨⟨condition, _⟩, hcondition, h⟩ := bind_eq_ok_iff.mp h
      obtain ⟨⟨ds, _⟩, hds, h⟩ := bind_eq_ok_iff.mp h
      obtain ⟨⟨ss, _⟩, hss, h⟩ := bind_eq_ok_iff.mp h
      cases h
      obtain ⟨hcondition, hrest⟩ := optional_yields typeCondition_yields hts hcondition
      obtain ⟨hds, hrest⟩ := directives_yields hrest hds
      obtain ⟨hss, hrest⟩ := hr hrest hss
      exact ⟨⟨hcondition, hds, hss⟩, hrest⟩
    · obtain ⟨⟨fragment, _⟩, hfragment, h⟩ := bind_eq_ok_iff.mp h
      obtain ⟨⟨ds, _⟩, hds, h⟩ := bind_eq_ok_iff.mp h
      cases h
      exact directives_yields (name_yields hts hfragment).2 hds
  · obtain ⟨⟨first, _⟩, hfirst, h⟩ := bind_eq_ok_iff.mp h
    obtain ⟨⟨second, _⟩, hsecond, h⟩ := bind_eq_ok_iff.mp h
    obtain ⟨⟨as, _⟩, has, h⟩ := bind_eq_ok_iff.mp h
    obtain ⟨⟨ds, _⟩, hds, h⟩ := bind_eq_ok_iff.mp h
    obtain ⟨⟨found, _⟩, hfound, h⟩ := bind_eq_ok_iff.mp h
    obtain ⟨hfirst, hrest⟩ := name_yields hts hfirst
    obtain ⟨hsecond, hrest⟩ := optional_yields aliased_yields hrest hsecond
    obtain ⟨has, hrest⟩ := arguments_yields hrest has
    obtain ⟨hds, hrest⟩ := directives_yields hrest hds
    obtain ⟨hfound, hrest⟩ := optional_yields hr hrest hfound
    have hss : SelectionsWellFormed (found.getD []) := by
      cases found with
      | none => trivial
      | some ss => exact (hfound ss rfl).2
    cases second with
    | none =>
      cases h
      exact ⟨⟨by simp, hfirst, has, hds, hss⟩, hrest⟩
    | some field =>
      cases h
      exact ⟨⟨fun a ha => Option.some.inj ha ▸ hfirst, hsecond field rfl, has, hds, hss⟩, hrest⟩

theorem selectionSet_yields (depth : Nat) : Yields (selectionSet depth) Selection.Body := by
  induction depth with
  | zero =>
    intro ts ss rest _ h
    cases h
  | succ depth ih =>
    intro ts ss rest hts h
    obtain ⟨⟨hne, hss⟩, hrest⟩ := between_yields (selection_yields ih) hts h
    exact ⟨⟨hne, selections_well_formed_iff.mpr hss⟩, hrest⟩

theorem selections_yields : Yields selections Selection.Body :=
  fun _ _ _ hts h => selectionSet_yields _ hts h

theorem operationDefinition_yields (kind : OperationKind) :
    Yields (operationDefinition kind) OperationDefinition.WellFormed := by
  intro ts o rest hts h
  obtain ⟨⟨word, _⟩, hword, h⟩ := bind_eq_ok_iff.mp h
  obtain ⟨⟨found, _⟩, hfound, h⟩ := bind_eq_ok_iff.mp h
  obtain ⟨⟨ds, _⟩, hds, h⟩ := bind_eq_ok_iff.mp h
  obtain ⟨⟨ss, _⟩, hss, h⟩ := bind_eq_ok_iff.mp h
  cases h
  obtain ⟨hword, hrest⟩ := optional_yields name_yields hts hword
  obtain ⟨hfound, hrest⟩ := optional_yields (between_yields variableDefinition_yields) hrest hfound
  obtain ⟨hds, hrest⟩ := directives_yields hrest hds
  obtain ⟨hss, hrest⟩ := selections_yields hrest hss
  have hvariables : ∀ v ∈ found.getD [], v.WellFormed := by
    cases found with
    | none => simp
    | some vs => exact (hfound vs rfl).2
  exact ⟨⟨hword, hvariables, hds, hss⟩, hrest⟩

theorem fragmentDefinition_yields : Yields fragmentDefinition FragmentDefinition.WellFormed := by
  intro ts f rest hts h
  obtain ⟨⟨_, _⟩, hkeyword, h⟩ := bind_eq_ok_iff.mp h
  obtain ⟨⟨word, _⟩, hword, h⟩ := bind_eq_ok_iff.mp h
  obtain ⟨⟨condition, _⟩, hcondition, h⟩ := bind_eq_ok_iff.mp h
  obtain ⟨⟨ds, _⟩, hds, h⟩ := bind_eq_ok_iff.mp h
  obtain ⟨⟨ss, _⟩, hss, h⟩ := bind_eq_ok_iff.mp h
  cases h
  obtain ⟨-, hrest⟩ := name_yields (keyword_yields "fragment" hts hkeyword).2 hword
  obtain ⟨hcondition, hrest⟩ := typeCondition_yields hrest hcondition
  obtain ⟨-, hrest⟩ := directives_yields hrest hds
  obtain ⟨hss, hrest⟩ := selections_yields hrest hss
  exact ⟨⟨hcondition, hss⟩, hrest⟩

theorem definition_yields : Yields definition Definition.WellFormed := by
  intro ts d rest hts h
  unfold definition at h
  split at h
  · split at h
    · obtain ⟨⟨o, _⟩, ho, h⟩ := bind_eq_ok_iff.mp h
      cases h
      exact operationDefinition_yields _ (List.forall_mem_cons.mp hts).2 ho
    · obtain ⟨⟨f, _⟩, hf, h⟩ := bind_eq_ok_iff.mp h
      cases h
      exact fragmentDefinition_yields hts hf
  · obtain ⟨⟨ss, _⟩, hss, h⟩ := bind_eq_ok_iff.mp h
    cases h
    obtain ⟨hss, hrest⟩ := selections_yields hts hss
    exact ⟨⟨by simp, by simp, by simp, hss⟩, hrest⟩

end Rule

theorem readAll_yields {α : Type} {rule : Rule α} {P : α → Prop} (hr : Rule.Yields rule P)
    {text : String} {xs : List α} (h : readAll rule text = .ok xs) : ∀ x ∈ xs, P x := by
  have htokens : ∀ t ∈ (scan text).items.map (·.token), t.WellFormed := by
    intro t ht
    obtain ⟨l, hl, rfl⟩ := List.mem_map.mp ht
    exact Token.scanFrom_well_formed _ _ _ _ l hl
  simp only [readAll] at h
  split at h
  · rename_i found _ hread
    split at h
    · cases h
      obtain ⟨⟨y, _⟩, hy, hread⟩ := bind_eq_ok_iff.mp hread
      obtain ⟨⟨ys, _⟩, hys, hread⟩ := bind_eq_ok_iff.mp hread
      cases hread
      obtain ⟨hp, hrest⟩ := hr htokens hy
      exact List.forall_mem_cons.mpr ⟨hp, (Rule.many_yields hr hrest hys).1⟩
    · cases h
  · cases h
  · cases h

theorem document_well_formed {text : String} {d : Document} (h : Document.read text = .ok d) :
    ∀ x ∈ d.definitions, x.WellFormed := by
  unfold Document.read at h
  cases hread : readAll Rule.definition text with
  | error e => rw [hread] at h; cases h
  | ok definitions =>
    rw [hread] at h
    cases h
    exact readAll_yields Rule.definition_yields hread

end QueryGate.GraphQL
