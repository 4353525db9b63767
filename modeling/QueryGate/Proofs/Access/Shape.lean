import QueryGate.Proofs.Access.Unchanged

/-! # Selections where the document has selections

Reading leaves out repeated spreads, and a restriction takes fields away. Neither empties a set of
selections that stays: the first of some selections repeats nothing, and what a restriction empties
goes as a whole. So a field selects something exactly if it is written with selections in the
document, however often an operation is restricted, and its text has no empty braces for them. -/
namespace QueryGate

open GraphQL (Argument Directive Document FragmentDefinition Selection)

/-- The selections at any depth of some selections and of the fragments that are spread there. -/
inductive GraphQL.Document.LeadsTo (d : Document) (selections : List Selection) : Selection → Prop
    where
  | here {selection : Selection} : selection ∈ selections → d.LeadsTo selections selection
  | field {selection : Selection} {aliasName : Option String} {name : String}
      {arguments : List Argument} {directives : List Directive} {below : List Selection} :
      d.LeadsTo selections (.field aliasName name arguments directives below) →
      selection ∈ below → d.LeadsTo selections selection
  | inline {selection : Selection} {condition : Option String} {directives : List Directive}
      {below : List Selection} :
      d.LeadsTo selections (.inline condition directives below) →
      selection ∈ below → d.LeadsTo selections selection
  | body {selection : Selection} {name : String} {directives : List Directive}
      {f : FragmentDefinition} :
      d.LeadsTo selections (.spread name directives) → d.fragment? name = some f →
      selection ∈ f.selections → d.LeadsTo selections selection

namespace Node

def restrictAll (tests : List FieldTest) (n : Node) : Option Node :=
  tests.foldlM (fun n keep => n.restrict keep) n

/-- A node is what some tests leave of the node that a selection was expanded to. -/
def StemsFrom (document : Document) (body : String → List Node) (tests : List FieldTest)
    (source : Selection) (n : Node) : Prop :=
  ∃ m, Expands document body source m ∧ m.restrictAll tests = some n

theorem restrictAll_concat {tests : List FieldTest} {keep : FieldTest} {n m : Node} :
    n.restrictAll (tests ++ [keep]) = some m ↔
      ∃ k, n.restrictAll tests = some k ∧ k.restrict keep = some m := by
  simp [restrictAll, List.foldlM_append, Option.bind_eq_some_iff]

/-- What is left of a node has what is written on it, and it selects something exactly if the node
did. -/
theorem shape_of_restrict {keep : FieldTest} {n m : Node} (h : n.restrict keep = some m) :
    m.head = n.head ∧ (m.children = [] ↔ n.children = []) := by
  obtain ⟨f, cs, rfl, -, hnil, rfl⟩ | ⟨f, cs, rfl, hne, rfl⟩ := restrict_some h
  · refine ⟨rfl, hnil, fun hcs => ?_⟩
    have hcs : cs = [] := hcs
    subst hcs
    rfl
  · refine ⟨rfl, fun hnil => absurd hnil hne, fun hcs => ?_⟩
    have hcs : cs = [] := hcs
    subst hcs
    exact absurd rfl hne

theorem shape_of_restrictAll {tests : List FieldTest} {n m : Node}
    (h : n.restrictAll tests = some m) :
    m.head = n.head ∧ (m.children = [] ↔ n.children = []) := by
  induction tests using List.reverseRecOn generalizing m with
  | nil =>
    obtain rfl : n = m := Option.some.inj h
    exact ⟨rfl, Iff.rfl⟩
  | append_singleton tests keep ih =>
    obtain ⟨k, hk, hm⟩ := restrictAll_concat.mp h
    obtain ⟨hhead, hchildren⟩ := shape_of_restrict hm
    exact ⟨hhead.trans (ih hk).1, hchildren.trans (ih hk).2⟩

/-- Whatever lies in what is left of a node is left of something in the node. -/
theorem mem_subtrees_of_restrict {keep : FieldTest} {n m k : Node} (h : n.restrict keep = some m)
    (hk : k ∈ m.subtrees) : ∃ j ∈ n.subtrees, j.restrict keep = some k := by
  induction n using Node.descend generalizing m with
  | h n ih =>
    rcases mem_subtrees.mp hk with rfl | ⟨c, hc, hk⟩
    · exact ⟨n, mem_subtrees.mpr (.inl rfl), h⟩
    · obtain ⟨d, hd, hdc⟩ := child_of_restrict h hc
      obtain ⟨j, hj, hjk⟩ := ih d hd hdc hk
      exact ⟨j, mem_subtrees.mpr (.inr ⟨d, hd, hj⟩), hjk⟩

section

variable {document : Document} {body : String → List Node} {selections : List Selection}

theorem ListExpands.eq_nil_iff {ns : List Node} (h : ListExpands document body [] selections ns) :
    ns = [] ↔ selections = [] := by
  cases h with
  | nil => exact iff_of_true rfl rfl
  | cons _ _ _ => exact iff_of_false nofun nofun
  | repeated _ hseen _ => cases hseen

theorem ListExpands.exists_source {seen : List String} {ns : List Node} {n : Node}
    (h : ListExpands document body seen selections ns) (hn : n ∈ ns) :
    ∃ selection ∈ selections, Expands document body selection n := by
  induction selections generalizing seen ns with
  | nil =>
    cases h
    cases hn
  | cons selection rest ih =>
    cases h with
    | cons _ hm hrest =>
      rcases List.mem_cons.mp hn with rfl | hn
      · exact ⟨selection, List.mem_cons_self, hm⟩
      · obtain ⟨source, hsource, hexpands⟩ := ih hrest hn
        exact ⟨source, List.mem_cons_of_mem _ hsource, hexpands⟩
    | repeated _ _ hrest =>
      obtain ⟨source, hsource, hexpands⟩ := ih hrest hn
      exact ⟨source, List.mem_cons_of_mem _ hsource, hexpands⟩

theorem Expands.exists_source_of_child {selection : Selection} {n c : Node}
    (h : Expands document body selection n) (hc : c ∈ n.children)
    (hleads : document.LeadsTo selections selection) :
    ∃ source, document.LeadsTo selections source ∧ Expands document body source c := by
  cases h with
  | field hbelow =>
    obtain ⟨source, hsource, hexpands⟩ := hbelow.exists_source hc
    exact ⟨source, .field hleads hsource, hexpands⟩
  | inline hbelow =>
    obtain ⟨source, hsource, hexpands⟩ := hbelow.exists_source hc
    exact ⟨source, .inline hleads hsource, hexpands⟩
  | spread hf hbelow =>
    obtain ⟨source, hsource, hexpands⟩ := hbelow.exists_source hc
    exact ⟨source, .body hleads hf hsource, hexpands⟩

theorem Expands.exists_source {selection : Selection} {n k : Node}
    (h : Expands document body selection n) (hk : k ∈ n.subtrees)
    (hleads : document.LeadsTo selections selection) :
    ∃ source, document.LeadsTo selections source ∧ Expands document body source k := by
  induction n using Node.descend generalizing selection with
  | h n ih =>
    rcases mem_subtrees.mp hk with rfl | ⟨c, hc, hk⟩
    · exact ⟨selection, hleads, h⟩
    · obtain ⟨source, hsource, hexpands⟩ := h.exists_source_of_child hc hleads
      exact ih c hc hexpands hk hsource

/-- A field stems only from fields with the same written on them, and it selects something exactly
if they do. -/
theorem StemsFrom.field {tests : List FieldTest} {source : Selection} {f : Field} {cs : List Node}
    (h : StemsFrom document body tests source (.field f cs)) :
    ∃ below, source = .field f.aliasName f.name f.arguments f.directives below ∧
      (cs = [] ↔ below = []) := by
  obtain ⟨m, hm, hleft⟩ := h
  obtain ⟨hhead, hchildren⟩ := shape_of_restrictAll hleft
  cases hm with
  | field hbelow =>
    cases hhead
    exact ⟨_, rfl, hchildren.trans hbelow.eq_nil_iff⟩
  | inline _ => cases hhead
  | spread _ _ => cases hhead

end

/-- Some text in braces that starts with a selection. -/
def WritesSelections (text : List Char) : Prop :=
  ∃ first rest, first ≠ [] ∧ text = inBraces (first :: rest)

theorem Resolved.chars_ne_nil {s : Schema} {parent : Option String} {n : Node}
    (h : n.Resolved s parent) : n.chars ≠ [] := by
  cases n with
  | field f cs =>
    obtain ⟨c, rest, hname, -, -⟩ := h.1.name
    simp [chars, Field.chars, hname]
  | fragment f cs => simp [chars, Fragment.chars]

theorem writes_selections {ns : List Node} (hne : ns ≠ []) (h : ∀ n ∈ ns, n.chars ≠ []) :
    WritesSelections (inBraces (listChars ns)) := by
  obtain ⟨n, rest, rfl⟩ := List.exists_cons_of_ne_nil hne
  exact ⟨n.chars, listChars rest, h n List.mem_cons_self, rfl⟩

theorem Resolved.writes_children {s : Schema} {parent : Option String} {n : Node}
    (h : n.Resolved s parent) (hne : n.children ≠ []) :
    WritesSelections (inBraces (listChars n.children)) :=
  writes_selections hne fun _ hc => (h.of_child hc).chars_ne_nil

end Node

namespace Operation

open Node (StemsFrom WritesSelections inBraces listChars)

theorem stems_from_document {document : Document} {body : String → List Node}
    {selections : List Selection} {o : Operation}
    (h : Node.ListExpands document body [] selections o.nodes) (tests : List FieldTest) {n : Node}
    (hn : n ∈ (tests.foldl restrict o).subtrees) :
    ∃ source, document.LeadsTo selections source ∧ StemsFrom document body tests source n := by
  induction tests using List.reverseRecOn generalizing n with
  | nil =>
    obtain ⟨m, hm, hn⟩ := Node.mem_listSubtrees.mp hn
    obtain ⟨selection, hselection, hexpands⟩ := h.exists_source hm
    obtain ⟨source, hsource, hexpands⟩ := hexpands.exists_source hn (.here hselection)
    exact ⟨source, hsource, n, hexpands, rfl⟩
  | append_singleton tests keep ih =>
    rw [List.foldl_append] at hn
    obtain ⟨m, hm, hn⟩ := Node.mem_listSubtrees.mp hn
    obtain ⟨k, hk, hm⟩ := Node.mem_restrictList hm
    obtain ⟨j, hj, hjn⟩ := Node.mem_subtrees_of_restrict hm hn
    obtain ⟨source, hsource, root, hroot, hleft⟩ := ih (Node.mem_listSubtrees.mpr ⟨k, hk, hj⟩)
    exact ⟨source, hsource, root, hroot, Node.restrictAll_concat.mpr ⟨j, hleft, hjn⟩⟩

/-- A fragment always selects something, and a field exactly if its source in a document does. The
text shows what is selected and has no empty braces for it. -/
structure HasShapeOf (document : Document) (selections : List Selection)
    (body : String → List Node) (tests : List FieldTest) (o : Operation) : Prop where
  source : ∀ n ∈ o.subtrees, ∃ source, document.LeadsTo selections source ∧
    StemsFrom document body tests source n
  fragment : ∀ f cs, .fragment f cs ∈ o.subtrees →
    cs ≠ [] ∧ (Node.fragment f cs).chars = f.chars ++ inBraces (listChars cs) ∧
      WritesSelections (inBraces (listChars cs))
  field : ∀ f cs source, .field f cs ∈ o.subtrees →
    StemsFrom document body tests source (.field f cs) →
      ∃ selections, source = .field f.aliasName f.name f.arguments f.directives selections ∧
        (cs = [] ↔ selections = []) ∧
        (selections = [] → (Node.field f cs).chars = f.chars) ∧
        (selections ≠ [] → (Node.field f cs).chars = f.chars ++ inBraces (listChars cs) ∧
          WritesSelections (inBraces (listChars cs)))
  text : o.isEmpty = false →
    o.chars = (if o.isShorthand then [] else o.headerChars) ++ inBraces (listChars o.nodes) ∧
      WritesSelections (inBraces (listChars o.nodes))

theorem hasShapeOf_restricted {document : Document} {body : String → List Node}
    {selections : List Selection} {s : Schema} {o : Operation} (hresolved : o.Resolved s)
    (h : Node.ListExpands document body [] selections o.nodes) (tests : List FieldTest) :
    (tests.foldl restrict o).HasShapeOf document selections body tests where
  source n hn := stems_from_document h tests hn
  fragment f cs hmem := by
    have hne : cs ≠ [] := (hresolved.restricted tests).isFull f cs hmem
    obtain ⟨_, hn⟩ := (hresolved.restricted tests).of_mem_subtrees hmem
    exact ⟨hne, by rw [Node.chars], hn.writes_children hne⟩
  field f cs source hmem hstems := by
    obtain ⟨below, hsource, hiff⟩ := hstems.field
    refine ⟨below, hsource, hiff, fun hnone => ?_, fun hsome => ?_⟩
    · simp [Node.chars, hiff.mpr hnone]
    · have hne : cs ≠ [] := fun hnil => hsome (hiff.mp hnil)
      obtain ⟨_, hn⟩ := (hresolved.restricted tests).of_mem_subtrees hmem
      exact ⟨by rw [Node.chars, if_neg (by simpa using hne)], hn.writes_children hne⟩
  text hfull := by
    have hne : (tests.foldl restrict o).nodes ≠ [] := by
      simpa [isEmpty] using hfull
    refine ⟨rfl, Node.writes_selections hne fun n hn => ?_⟩
    have hnodes := Node.list_resolved_iff.mp (hresolved.restricted tests).nodes
    exact (hnodes n hn).chars_ne_nil

/-- An operation that was read has the shape of its document, and so has whatever any restrictions
leave of it. -/
theorem shape_follows_document {text : String} {name : Option String} {s : Schema}
    {options : ExpandOptions} {o : Operation} (h : read text name s options = .ok o) :
    ∃ document d body, Document.read text = .ok document ∧
      select document.operations (name.filter (!·.isEmpty)) = .ok d ∧
      Node.ListExpands document body [] d.selections o.nodes ∧
      ∀ tests : List FieldTest,
        (tests.foldl restrict o).HasShapeOf document d.selections body tests := by
  obtain ⟨document, d, body, hdocument, hd, hexpands⟩ := expands_of_read h
  exact ⟨document, d, body, hdocument, hd, hexpands,
    fun tests => hasShapeOf_restricted (read_from h).1.resolved hexpands tests⟩

theorem shape_of_repeated_parts : ∃ o document d body,
    read repeatedText none articles .standard = .ok o ∧ Document.read repeatedText = .ok document ∧
    select document.operations none = .ok d ∧ o.subtrees.length = 5 ∧
    o.HasShapeOf document d.selections body [] ∧
    (o.restrict (FieldTest.annotated "authenticated").negate).text =
      "\x7barticle\x7b...on Article\x7btitle\x7d\x7d\x7d" ∧
    (o.restrict (FieldTest.annotated "authenticated").negate).HasShapeOf document d.selections body
      [(FieldTest.annotated "authenticated").negate] := by
  have hchecked : (read repeatedText none articles .standard).toOption.any (fun o =>
      o.subtrees.length == 5 &&
        (o.restrict (FieldTest.annotated "authenticated").negate).text ==
          "\x7barticle\x7b...on Article\x7btitle\x7d\x7d\x7d") = true := by decide +kernel
  obtain ⟨o, ho, hchecked⟩ := exists_ok_of_any hchecked
  simp only [Bool.and_eq_true, beq_iff_eq] at hchecked
  obtain ⟨hlength, htext⟩ := hchecked
  obtain ⟨document, d, body, hdocument, hd, -, hshape⟩ := shape_follows_document ho
  exact ⟨o, document, d, body, ho, hdocument, hd, hlength, hshape [], htext, hshape [_]⟩

end Operation

end QueryGate
