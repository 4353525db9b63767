import QueryGate.Proofs.Operation.Occurrences
import QueryGate.Proofs.Operation.RoundTrip

/-! # Fields by place, fragments by name

What a field is known for is settled by the place it stands at: by the nearest type condition on the
way to the field around it, and by this field. What a spread is replaced by is settled by the name
of the fragment alone. Neither the type that a spread stands below, nor the fragments that are open
around it, nor the selections that are left before the limit have a say in it. -/
namespace QueryGate

open GraphQL (Argument Directive Document FragmentDefinition OperationDefinition Selection)

def GraphQL.Selection.plainSpread? : Selection → Option String
  | .spread name [] => some name
  | _ => none

namespace Node

/-- The type that a field is resolved on, from the nodes around it, the nearest one first: the
nearest type condition before the field around it, or else the output type of this field. -/
def typeWithin (root : Option String) : (around : List Node) → Option String
  | [] => root
  | .field f _ :: _ => f.info.output
  | .fragment g _ :: around => g.typeCondition.or (typeWithin root around)

mutual

/-- A selection of a document was expanded to a node, where every spread of a fragment was replaced
by the same `body`. -/
inductive Expands (document : Document) (body : String → List Node) : Selection → Node → Prop
    where
  | field {aliasName : Option String} {name : String} {arguments : List Argument}
      {directives : List Directive} {selections : List Selection} {info : FieldInfo}
      {isList : Bool} {children : List Node} :
      ListExpands document body [] selections children →
      Expands document body (.field aliasName name arguments directives selections)
        (.field ⟨name, aliasName, arguments, directives, info, isList⟩ children)
  | inline {condition : Option String} {directives : List Directive}
      {selections : List Selection} {children : List Node} :
      ListExpands document body [] selections children →
      Expands document body (.inline condition directives selections)
        (.fragment ⟨condition, directives⟩ children)
  | spread {name : String} {directives : List Directive} {f : FragmentDefinition} :
      document.fragment? name = some f → ListExpands document body [] f.selections (body name) →
      Expands document body (.spread name directives)
        (.fragment ⟨some f.typeCondition, directives⟩ (body name))

/-- The same for some selections, of which those are left out that spread plainly what has been
spread plainly among them, or is in `seen`. -/
inductive ListExpands (document : Document) (body : String → List Node) :
    (seen : List String) → List Selection → List Node → Prop where
  | nil {seen : List String} : ListExpands document body seen [] []
  | cons {seen : List String} {selection : Selection} {rest : List Selection} {n : Node}
      {ns : List Node} : (∀ name, selection.plainSpread? = some name → name ∉ seen) →
      Expands document body selection n →
      ListExpands document body (selection.plainSpread?.toList ++ seen) rest ns →
      ListExpands document body seen (selection :: rest) (n :: ns)
  | repeated {seen : List String} {selection : Selection} {rest : List Selection}
      {ns : List Node} {name : String} : selection.plainSpread? = some name → name ∈ seen →
      ListExpands document body seen rest ns →
      ListExpands document body seen (selection :: rest) ns

end

/-- Around the nodes that lie inside of `n`, the type below `n` plays the part of the root. -/
theorem typeWithin_append (root : Option String) (n : Node) (around : List Node) :
    typeWithin root (around ++ [n]) = typeWithin (typeWithin root [n]) around := by
  induction around with
  | nil => rfl
  | cons m around ih =>
    cases m with
    | field f cs => rfl
    | fragment g cs => rw [List.cons_append, typeWithin, typeWithin, ih]

theorem Resolved.of_child {s : Schema} {parent : Option String} {n c : Node}
    (h : n.Resolved s parent) (hc : c ∈ n.children) : c.Resolved s (typeWithin parent [n]) := by
  cases n with
  | field f cs => exact list_resolved_iff.mp h.2.2 c hc
  | fragment g cs => exact list_resolved_iff.mp h.2.2 c hc

theorem Resolved.field_of_chain {s : Schema} {parent : Option String} {n : Node}
    (h : n.Resolved s parent) {around : List Node} {f : Field} {cs : List Node}
    (hchain : around ++ [.field f cs] ∈ n.fieldChains) :
    f.ResolvedOn s (typeWithin parent around.reverse) := by
  induction n using Node.descend generalizing parent around with
  | h n ih =>
    obtain ⟨g, ds, rfl, hself⟩ | ⟨c, hc, rest, hrest, hbelow⟩ := field_chain_cases hchain
    · have hself : around ++ [.field f cs] = [] ++ [.field g ds] := hself
      obtain ⟨rfl, he⟩ := List.append_inj' hself rfl
      cases he
      exact h.2.1
    · cases around with
      | nil =>
        obtain ⟨-, rfl⟩ := List.cons.inj hbelow
        exact absurd rfl (field_chain_ne_nil hrest)
      | cons m around =>
        obtain ⟨rfl, rfl⟩ := List.cons.inj hbelow
        rw [List.reverse_cons, typeWithin_append]
        exact ih c hc (h.of_child hc) hrest

end Node

namespace Expansion

def Agree (enter₁ enter₂ : FragmentDefinition → Nat → Except OperationError (List Node × Nat)) :
    Prop :=
  ∀ ⦃f left₁ left₂ r₁ r₂⦄, enter₁ f left₁ = .ok r₁ → enter₂ f left₂ = .ok r₂ → r₁.1 = r₂.1

variable {e : Expansion}
  {enter enter₁ enter₂ : FragmentDefinition → Nat → Except OperationError (List Node × Nat)}
  {visiting₁ visiting₂ : List String}

mutual

theorem node_agree (henter : Agree enter₁ enter₂) :
    ∀ (selection : Selection) (parent : Option String) (seen : List String) (left₁ left₂ : Nat)
      {found₁ found₂ seen₁ seen₂ left₁' left₂'},
      e.node enter₁ visiting₁ parent seen left₁ selection = .ok (found₁, seen₁, left₁') →
      e.node enter₂ visiting₂ parent seen left₂ selection = .ok (found₂, seen₂, left₂') →
      found₁ = found₂ ∧ seen₁ = seen₂
  | .field aliasName name arguments directives selections, parent, seen, left₁, left₂,
      _, _, _, _, _, _, h₁, h₂ => by
    obtain ⟨⟨children₁, _⟩, hchildren₁, h₁⟩ := bind_eq_ok_iff.mp h₁
    obtain ⟨⟨children₂, _⟩, hchildren₂, h₂⟩ := bind_eq_ok_iff.mp h₂
    cases h₁
    cases h₂
    obtain rfl := nodes_agree henter selections _ [] left₁ left₂ hchildren₁ hchildren₂
    exact ⟨rfl, rfl⟩
  | .inline condition directives selections, parent, seen, left₁, left₂,
      _, _, _, _, _, _, h₁, h₂ => by
    obtain ⟨⟨children₁, _⟩, hchildren₁, h₁⟩ := bind_eq_ok_iff.mp h₁
    obtain ⟨⟨children₂, _⟩, hchildren₂, h₂⟩ := bind_eq_ok_iff.mp h₂
    cases h₁
    cases h₂
    obtain rfl := nodes_agree henter selections _ [] left₁ left₂ hchildren₁ hchildren₂
    exact ⟨rfl, rfl⟩
  | .spread name directives, parent, seen, left₁, left₂, _, _, _, _, _, _, h₁, h₂ => by
    obtain ⟨f, hf, h₁⟩ := bind_eq_ok_iff.mp h₁
    obtain ⟨g, hg, h₂⟩ := bind_eq_ok_iff.mp h₂
    -- The open fragments decide whether a fragment is found, but not which one.
    have hsame : f = g := by
      obtain ⟨-, hf, -⟩ := fragmentFor_eq_ok_iff.mp hf
      obtain ⟨-, hg, -⟩ := fragmentFor_eq_ok_iff.mp hg
      exact Option.some.inj (hf.symm.trans hg)
    subst hsame
    by_cases hrepeated : (directives.isEmpty && seen.contains name) = true
    · rw [if_pos hrepeated] at h₁ h₂
      cases h₁
      cases h₂
      exact ⟨rfl, rfl⟩
    · rw [if_neg hrepeated] at h₁ h₂
      obtain ⟨⟨children₁, _⟩, hchildren₁, h₁⟩ := bind_eq_ok_iff.mp h₁
      obtain ⟨⟨children₂, _⟩, hchildren₂, h₂⟩ := bind_eq_ok_iff.mp h₂
      cases h₁
      cases h₂
      obtain rfl : children₁ = children₂ := henter hchildren₁ hchildren₂
      exact ⟨rfl, rfl⟩

/-- What selections are expanded to does not depend on the open fragments or on the limit. -/
theorem nodes_agree (henter : Agree enter₁ enter₂) :
    ∀ (selections : List Selection) (parent : Option String) (seen : List String)
      (left₁ left₂ : Nat) {ns₁ ns₂ left₁' left₂'},
      e.nodes enter₁ visiting₁ parent seen left₁ selections = .ok (ns₁, left₁') →
      e.nodes enter₂ visiting₂ parent seen left₂ selections = .ok (ns₂, left₂') → ns₁ = ns₂
  | [], parent, seen, left₁, left₂, _, _, _, _, h₁, h₂ => by
    cases h₁
    cases h₂
    rfl
  | selection :: rest, parent, seen, left₁, left₂, _, _, _, _, h₁, h₂ => by
    cases left₁ with
    | zero => cases h₁
    | succ left₁ =>
      cases left₂ with
      | zero => cases h₂
      | succ left₂ =>
        obtain ⟨⟨found₁, seen₁, _⟩, hfound₁, h₁⟩ := bind_eq_ok_iff.mp h₁
        obtain ⟨⟨found₂, seen₂, _⟩, hfound₂, h₂⟩ := bind_eq_ok_iff.mp h₂
        obtain ⟨⟨more₁, _⟩, hmore₁, h₁⟩ := bind_eq_ok_iff.mp h₁
        obtain ⟨⟨more₂, _⟩, hmore₂, h₂⟩ := bind_eq_ok_iff.mp h₂
        cases h₁
        cases h₂
        obtain ⟨rfl, rfl⟩ := node_agree henter selection parent seen left₁ left₂ hfound₁ hfound₂
        obtain rfl := nodes_agree henter rest parent seen₁ _ _ hmore₁ hmore₂
        rfl

end

theorem enter_agree (e : Expansion) (depth₁ depth₂ : Nat) (visiting₁ visiting₂ : List String) :
    Agree (e.enter depth₁ visiting₁) (e.enter depth₂ visiting₂) := by
  induction depth₁ generalizing depth₂ visiting₁ visiting₂ with
  | zero =>
    intro f left₁ left₂ r₁ r₂ h₁ _
    cases h₁
  | succ depth₁ ih =>
    intro f left₁ left₂ r₁ r₂ h₁ h₂
    cases depth₂ with
    | zero => cases h₂
    | succ depth₂ =>
      exact nodes_agree (ih depth₂ (f.name :: visiting₁) (f.name :: visiting₂)) f.selections _ []
        left₁ left₂ h₁ h₂

def HasBodies (e : Expansion) (body : String → List Node) : Prop :=
  ∀ ⦃name f depth visiting left ns left'⦄, e.document.fragment? name = some f →
    e.enter depth visiting f left = .ok (ns, left') → ns = body name

theorem exists_bodies (e : Expansion) : ∃ body, e.HasBodies body := by
  have hbody : ∀ name, ∃ ms : List Node, ∀ f depth visiting left ns left',
      e.document.fragment? name = some f → e.enter depth visiting f left = .ok (ns, left') →
        ns = ms := by
    intro name
    by_cases hsome : ∃ f depth visiting left ns left', e.document.fragment? name = some f ∧
        e.enter depth visiting f left = .ok (ns, left')
    · obtain ⟨f, depth, visiting, left, ms, left', hf, hms⟩ := hsome
      refine ⟨ms, fun g depth₁ visiting₁ left₁ ns left₁' hg hns => ?_⟩
      obtain rfl : g = f := Option.some.inj (hg.symm.trans hf)
      exact enter_agree e depth₁ depth visiting₁ visiting hns hms
    · exact ⟨[], fun f depth visiting left ns left' hf hns =>
        absurd ⟨f, depth, visiting, left, ns, left', hf, hns⟩ hsome⟩
  exact ⟨fun name => (hbody name).choose, fun name => (hbody name).choose_spec⟩

/-- Entering a fragment gives the body of its name, and this is what its selections expand to. -/
def EntersBodies (e : Expansion) (body : String → List Node)
    (enter : FragmentDefinition → Nat → Except OperationError (List Node × Nat)) : Prop :=
  ∀ ⦃name f left ns left'⦄, e.document.fragment? name = some f → enter f left = .ok (ns, left') →
    ns = body name ∧ Node.ListExpands e.document body [] f.selections ns

variable {body : String → List Node} {visiting : List String}

mutual

theorem node_expands (henter : EntersBodies e body enter) :
    ∀ (selection : Selection) (parent : Option String) (seen : List String) (left : Nat)
      {found seen' left'},
      e.node enter visiting parent seen left selection = .ok (found, seen', left') →
      (∃ n, found = some n ∧ seen' = selection.plainSpread?.toList ++ seen ∧
        (∀ name, selection.plainSpread? = some name → name ∉ seen) ∧
        Node.Expands e.document body selection n) ∨
      (found = none ∧ seen' = seen ∧ ∃ name, selection.plainSpread? = some name ∧ name ∈ seen)
  | .field aliasName name arguments directives selections, parent, seen, left, _, _, _, h => by
    obtain ⟨⟨children, _⟩, hchildren, h⟩ := bind_eq_ok_iff.mp h
    cases h
    have ih := nodes_expand henter selections _ [] left hchildren
    exact .inl ⟨_, rfl, rfl, fun _ hname => (nomatch hname), .field ih⟩
  | .inline condition directives selections, parent, seen, left, _, _, _, h => by
    obtain ⟨⟨children, _⟩, hchildren, h⟩ := bind_eq_ok_iff.mp h
    cases h
    have ih := nodes_expand henter selections _ [] left hchildren
    exact .inl ⟨_, rfl, rfl, fun _ hname => (nomatch hname), .inline ih⟩
  | .spread name [], parent, seen, left, _, _, _, h => by
    obtain ⟨f, hf, h⟩ := bind_eq_ok_iff.mp h
    obtain ⟨-, hf, -⟩ := fragmentFor_eq_ok_iff.mp hf
    by_cases hseen : name ∈ seen
    · rw [if_pos (by simpa using hseen)] at h
      cases h
      exact .inr ⟨rfl, rfl, name, rfl, hseen⟩
    · rw [if_neg (by simpa using hseen)] at h
      obtain ⟨⟨children, _⟩, hchildren, h⟩ := bind_eq_ok_iff.mp h
      cases h
      obtain ⟨rfl, hexpands⟩ := henter hf hchildren
      refine .inl ⟨_, rfl, rfl, fun other hother => ?_, .spread hf hexpands⟩
      exact Option.some.inj hother ▸ hseen
  | .spread name (directive :: more), parent, seen, left, _, _, _, h => by
    obtain ⟨f, hf, h⟩ := bind_eq_ok_iff.mp h
    obtain ⟨-, hf, -⟩ := fragmentFor_eq_ok_iff.mp hf
    obtain ⟨⟨children, _⟩, hchildren, h⟩ := bind_eq_ok_iff.mp h
    cases h
    obtain ⟨rfl, hexpands⟩ := henter hf hchildren
    exact .inl ⟨_, rfl, rfl, fun _ hname => (nomatch hname), .spread hf hexpands⟩

theorem nodes_expand (henter : EntersBodies e body enter) :
    ∀ (selections : List Selection) (parent : Option String) (seen : List String) (left : Nat)
      {ns left'}, e.nodes enter visiting parent seen left selections = .ok (ns, left') →
      Node.ListExpands e.document body seen selections ns
  | [], parent, seen, left, _, _, h => by
    cases h
    exact .nil
  | selection :: rest, parent, seen, left, _, _, h => by
    cases left with
    | zero => cases h
    | succ left =>
      obtain ⟨⟨found, seen₁, _⟩, hfound, h⟩ := bind_eq_ok_iff.mp h
      obtain ⟨⟨more, _⟩, hmore, h⟩ := bind_eq_ok_iff.mp h
      cases h
      have ih := nodes_expand henter rest parent seen₁ _ hmore
      obtain ⟨n, rfl, rfl, hnew, hn⟩ | ⟨rfl, rfl, name, hplain, hseen⟩ :=
        node_expands henter selection parent seen left hfound
      · exact .cons hnew hn ih
      · exact .repeated hplain hseen ih

end

theorem enter_expands (hbody : e.HasBodies body) (depth : Nat) (visiting : List String) :
    EntersBodies e body (e.enter depth visiting) := by
  induction depth generalizing visiting with
  | zero =>
    intro name f left ns left' _ h
    cases h
  | succ depth ih =>
    intro name f left ns left' hf h
    exact ⟨hbody hf h, nodes_expand (ih (f.name :: visiting)) f.selections _ [] left h⟩

end Expansion

namespace Operation

theorem expands_of_read {text : String} {name : Option String} {s : Schema}
    {options : ExpandOptions} {o : Operation} (h : read text name s options = .ok o) :
    ∃ document d body, Document.read text = .ok document ∧
      select document.operations (name.filter (!·.isEmpty)) = .ok d ∧
      Node.ListExpands document body [] d.selections o.nodes := by
  unfold read at h
  split at h
  · cases h
  · rename_i document hdocument
    obtain ⟨d, hselect, h⟩ := bind_eq_ok_iff.mp h
    unfold ofDefinition at h
    split at h
    · cases h
    · rename_i root _
      obtain ⟨⟨nodes, left⟩, hnodes, h⟩ := bind_eq_ok_iff.mp h
      cases h
      obtain ⟨body, hbody⟩ := Expansion.exists_bodies ⟨s, document, options⟩
      have henter := Expansion.enter_expands hbody document.fragments.length []
      exact ⟨document, d, body, hdocument, hselect,
        Expansion.nodes_expand henter d.selections (some root) [] options.maxSelections hnodes⟩

theorem Resolved.restricted {s : Schema} {o : Operation} (h : o.Resolved s)
    (tests : List FieldTest) : (tests.foldl Operation.restrict o).Resolved s := by
  induction tests generalizing o with
  | nil => exact h
  | cons keep tests ih => exact ih (h.restrict keep)

theorem kind_of_restricted (tests : List FieldTest) (o : Operation) :
    (tests.foldl restrict o).kind = o.kind := by
  induction tests generalizing o with
  | nil => rfl
  | cons keep tests ih => exact ih (o.restrict keep)

theorem Resolved.field_of_chain {s : Schema} {o : Operation} (h : o.Resolved s)
    {around : List Node} {f : Field} {cs : List Node}
    (hchain : around ++ [.field f cs] ∈ o.fieldChains) :
    f.ResolvedOn s (Node.typeWithin (s.root? o.kind) around.reverse) := by
  obtain ⟨n, hn, hchain⟩ := Node.mem_listFieldChains.mp hchain
  rw [h.root]
  exact (Node.list_resolved_iff.mp h.nodes n hn).field_of_chain hchain

/-- In an operation that was read, and in what any restrictions leave of it, each field has exactly
what the schema says about it on the type within the nodes around it, or nothing if it does not say
anything. In the operation that was read, all spreads of a fragment, with directives or without, are
replaced by the same nodes. -/
theorem resolved_by_place_and_expanded_by_name {text : String} {name : Option String} {s : Schema}
    {options : ExpandOptions} {o : Operation} (h : read text name s options = .ok o) :
    (∀ (tests : List FieldTest) (around : List Node) (f : Field) (cs : List Node),
      around ++ [.field f cs] ∈ (tests.foldl restrict o).fieldChains →
        f.info = ((Node.typeWithin (s.root? o.kind) around.reverse).bind (s.field? · f.name)).getD
            ⟨none, none, false, false, [], []⟩ ∧
          f.isList = f.info.isList) ∧
    ∃ document d body, Document.read text = .ok document ∧
      select document.operations (name.filter (!·.isEmpty)) = .ok d ∧
      Node.ListExpands document body [] d.selections o.nodes := by
  obtain ⟨hread, -⟩ := read_from h
  refine ⟨fun tests around f cs hchain => ?_, expands_of_read h⟩
  have hfield := (hread.resolved.restricted tests).field_of_chain hchain
  rw [kind_of_restricted tests o] at hfield
  exact ⟨hfield.info, hfield.isList⟩

def partsText : String :=
  "\x7barticle\x7b...Parts ... on Article\x7b...Parts lost\x7d...Parts @include(if:true)\x7d" ++
    "\x7dfragment Parts on Article\x7bbody\x7d"

def articleField : Field :=
  ⟨"article", none, [], [], ⟨some "Query", some "Article", true, false, [], []⟩, true⟩

def bodyField : Field :=
  ⟨"body", none, [], [],
    ⟨some "Article", some "String", false, true, [⟨"authenticated", none⟩], []⟩, false⟩

def lostField : Field := ⟨"lost", none, [], [], ⟨none, none, false, false, [], []⟩, false⟩

def partsNode (directives : List Directive) : Node :=
  .fragment ⟨some "Article", directives⟩ [.field bodyField []]

def articleNode : Node :=
  .field articleField
    [partsNode [], .fragment ⟨some "Article", []⟩ [partsNode [], .field lostField []],
      partsNode [⟨"include", [("if", .boolean true)]⟩]]

def partsOperation : Operation := ⟨.query, none, "Query", [], [], [articleNode]⟩

theorem parts_are_expanded_by_name :
    read partsText none articles .standard = .ok partsOperation ∧
    bodyField.info = (articles.field? "Article" "body").getD ⟨none, none, false, false, [], []⟩ ∧
    lostField.info = (articles.field? "Article" "lost").getD ⟨none, none, false, false, [], []⟩ ∧
    articleField.isList = articleField.info.isList ∧
    ∃ document d body, Document.read partsText = .ok document ∧
      select document.operations none = .ok d ∧
      Node.ListExpands document body [] d.selections [articleNode] := by
  have hread : read partsText none articles .standard = .ok partsOperation := by
    have hchecked : (read partsText none articles .standard).toOption.any
        (fun o => decide (o = partsOperation)) = true := by
      decide +kernel
    obtain ⟨o, ho, heq⟩ := exists_ok_of_any hchecked
    rw [ho, of_decide_eq_true heq]
  obtain ⟨hfield, hexpands⟩ := resolved_by_place_and_expanded_by_name hread
  have hbody : [articleNode, partsNode []] ++ [.field bodyField []] ∈
      partsOperation.fieldChains := by
    decide +kernel
  have hlost : [articleNode, .fragment ⟨some "Article", []⟩ [partsNode [], .field lostField []]] ++
      [.field lostField []] ∈ partsOperation.fieldChains := by
    decide +kernel
  have harticle : [] ++ [.field articleField [.fragment ⟨some "Article", []⟩
      [.field lostField []]]] ∈
      (partsOperation.restrict (FieldTest.annotated "authenticated").negate).fieldChains := by
    decide +kernel
  exact ⟨hread, (hfield [] _ _ _ hbody).1, (hfield [] _ _ _ hlost).1,
    (hfield [(FieldTest.annotated "authenticated").negate] _ _ _ harticle).2, hexpands⟩

end Operation

end QueryGate
