import QueryGate.Proofs.Operation.Agreement

/-! # The graph of fragments

A fragment leads to the fragments that are spread in it, at any depth of its fields and inline
fragments. Expansion follows the graph from the selections of an operation. It succeeds exactly if
each name that it reaches is defined and none leads back to itself. The rest of the graph does not
matter to it, and it ends whatever the graph looks like. -/
namespace QueryGate

open GraphQL (Argument Directive Document FragmentDefinition OperationDefinition Selection)

namespace GraphQL.Document

/-- Every name that is reached from some selections is defined, and its fragment does not lead back
to it. -/
def IsExpandable (d : Document) (selections : List Selection) : Prop :=
  ∀ name, d.Reaches selections name →
    ∃ f, d.fragment? name = some f ∧ ¬ d.Reaches f.selections name

end GraphQL.Document

namespace Expansion

variable {e : Expansion} {visiting inside : List String} {selections : List Selection}
  {name : String}

/-- A spread that is met is reached, and so it is from each fragment that was opened on the way. -/
theorem Meets.reaches (h : e.Meets visiting selections inside name) :
    e.document.Reaches selections name ∧ ∀ opened ∈ inside, opened ∈ visiting ∨
      ∃ f, e.document.fragment? opened = some f ∧ e.document.Reaches f.selections name := by
  induction h with
  | here hmem => exact ⟨.here hmem, fun opened hopened => .inl hopened⟩
  | field hmem _ ih => exact ⟨.field hmem ih.1, ih.2⟩
  | inline hmem _ ih => exact ⟨.inline hmem ih.1, ih.2⟩
  | body hmem hf _ ih =>
    -- The fragment that is opened here leads to the spread as those that are opened further in do.
    obtain ⟨-, hfound, -⟩ := fragmentFor_eq_ok_iff.mp hf
    refine ⟨.body hmem hfound ih.1, fun opened hopened => ?_⟩
    rcases ih.2 opened hopened with hvisiting | hopened
    · rcases List.mem_cons.mp hvisiting with rfl | hvisiting
      · exact .inr ⟨_, Document.fragment?_name hfound, ih.1⟩
      · exact .inl hvisiting
    · exact .inr hopened

/-- What is met in the body of a fragment is met where the fragment is spread. -/
theorem Meets.trans {f : FragmentDefinition} (h : e.Meets visiting selections inside name)
    (hf : e.fragmentFor inside name = .ok f) {further : List String} {spread : String}
    (hbody : e.Meets (f.name :: inside) f.selections further spread) :
    e.Meets visiting selections further spread := by
  induction h with
  | here hmem => exact .body hmem hf hbody
  | field hmem _ ih => exact .field hmem (ih hf hbody)
  | inline hmem _ ih => exact .inline hmem (ih hf hbody)
  | body hmem hopen _ ih => exact .body hmem hopen (ih hf hbody)

/-- Where each spread that is met stands for a fragment, all that is reached is met, and inside all
the fragments that are open already. -/
theorem meets_of_reaches (hreached : e.document.Reaches selections name) :
    ∀ visiting, (∀ inside spread, e.Meets visiting selections inside spread →
        ∃ f, e.fragmentFor inside spread = .ok f) →
      ∃ inside, visiting ⊆ inside ∧ e.Meets visiting selections inside name := by
  induction hreached with
  | here hmem => exact fun visiting _ => ⟨visiting, List.Subset.refl _, .here hmem⟩
  | field hmem _ ih =>
    intro visiting hmet
    obtain ⟨inside, hsub, hbelow⟩ := ih visiting fun _ _ h => hmet _ _ (.field hmem h)
    exact ⟨inside, hsub, .field hmem hbelow⟩
  | inline hmem _ ih =>
    intro visiting hmet
    obtain ⟨inside, hsub, hbelow⟩ := ih visiting fun _ _ h => hmet _ _ (.inline hmem h)
    exact ⟨inside, hsub, .inline hmem hbelow⟩
  | @body selections opened spread directives f hmem hfound _ ih =>
    intro visiting hmet
    obtain ⟨g, hg⟩ := hmet visiting opened (.here hmem)
    obtain ⟨-, hsame, -⟩ := fragmentFor_eq_ok_iff.mp hg
    obtain rfl : f = g := Option.some.inj (hfound.symm.trans hsame)
    obtain ⟨inside, hsub, hbody⟩ := ih (f.name :: visiting) fun _ _ h => hmet _ _ (.body hmem hg h)
    exact ⟨inside, List.subset_of_cons_subset hsub, .body hmem hg hbody⟩

/-- No spread that is met lies inside the fragment it names exactly if nothing that is reached leads
back to itself. -/
theorem met_iff_expandable (e : Expansion) (selections : List Selection)
    (hspreads : e.options.spreads = true) :
    (∀ inside name, e.Meets [] selections inside name →
      ∃ f, e.document.fragment? name = some f ∧ f.name ∉ inside) ↔
    e.document.IsExpandable selections := by
  constructor
  · intro h name hreached
    have hmet : ∀ inside spread, e.Meets [] selections inside spread →
        ∃ f, e.fragmentFor inside spread = .ok f := fun inside spread hmeets => by
      obtain ⟨f, hfound, hclosed⟩ := h inside spread hmeets
      exact ⟨f, fragmentFor_eq_ok_iff.mpr ⟨hspreads, hfound, hclosed⟩⟩
    obtain ⟨inside, -, hmeets⟩ := meets_of_reaches hreached [] hmet
    obtain ⟨f, hf⟩ := hmet inside name hmeets
    obtain ⟨-, hfound, -⟩ := fragmentFor_eq_ok_iff.mp hf
    refine ⟨f, hfound, fun hback => ?_⟩
    -- On its way back to the name the fragment itself is open.
    obtain ⟨further, hsub, hagain⟩ := meets_of_reaches hback (f.name :: inside)
      fun _ _ hbody => hmet _ _ (hmeets.trans hf hbody)
    obtain ⟨g, hsame, hclosed⟩ := h further name (hmeets.trans hf hagain)
    obtain rfl : f = g := Option.some.inj (hfound.symm.trans hsame)
    exact hclosed (hsub List.mem_cons_self)
  · intro h inside name hmeets
    obtain ⟨hreached, hopened⟩ := hmeets.reaches
    obtain ⟨f, hfound, hacyclic⟩ := h name hreached
    refine ⟨f, hfound, fun hinside => ?_⟩
    obtain hnil | ⟨g, hsame, hback⟩ := hopened f.name hinside
    · cases hnil
    · obtain ⟨hname, -⟩ := Document.fragment?_eq_some_iff.mp hfound
      obtain rfl : f = g := Option.some.inj ((Document.fragment?_name hfound).symm.trans hsame)
      exact hacyclic (hname ▸ hback)

/-- The calls that expansion makes for some selections inside the fragments that are open: one for
the selections of each field and of each inline fragment, and one for each fragment that it can
open. -/
inductive Calls (e : Expansion) :
    List String × List Selection → List String × List Selection → Prop where
  | field {visiting : List String} {selections below : List Selection} {aliasName : Option String}
      {name : String} {arguments : List Argument} {directives : List Directive} :
      .field aliasName name arguments directives below ∈ selections →
      Calls e (visiting, selections) (visiting, below)
  | inline {visiting : List String} {selections below : List Selection} {condition : Option String}
      {directives : List Directive} : .inline condition directives below ∈ selections →
      Calls e (visiting, selections) (visiting, below)
  | body {visiting : List String} {selections : List Selection} {name : String}
      {directives : List Directive} {f : FragmentDefinition} :
      .spread name directives ∈ selections → e.fragmentFor visiting name = .ok f →
      Calls e (visiting, selections) (f.name :: visiting, f.selections)

/-- Each call has fewer fragments left to open than its caller, or else fewer selections. -/
theorem calls_well_founded (e : Expansion) :
    WellFounded fun callee caller => e.Calls caller callee := by
  let measure (call : List String × List Selection) : Nat × Nat :=
    ((e.unopened call.1).length, sizeOf call.2)
  have hlex : WellFounded (InvImage (Prod.Lex (· < ·) (· < ·)) measure) :=
    InvImage.wf measure (Prod.lex ⟨_, Nat.lt_wfRel.wf⟩ ⟨_, Nat.lt_wfRel.wf⟩).wf
  refine Subrelation.wf (fun {callee caller} hcall => ?_) hlex
  cases hcall with
  | @field _ selections below _ _ _ _ hmem =>
    have hsmaller : sizeOf below < sizeOf selections := by
      have hsize := List.sizeOf_lt_of_mem hmem
      rw [Selection.field.sizeOf_spec] at hsize
      omega
    exact Prod.Lex.right _ hsmaller
  | @inline _ selections below _ _ hmem =>
    have hsmaller : sizeOf below < sizeOf selections := by
      have hsize := List.sizeOf_lt_of_mem hmem
      rw [Selection.inline.sizeOf_spec] at hsize
      omega
    exact Prod.Lex.right _ hsmaller
  | body hmem hf => exact Prod.Lex.left _ _ (unopened_lt hf)

end Expansion

namespace Operation

open Expansion

theorem inlined_ok_iff (e : Expansion) (o : OperationDefinition)
    (hspreads : e.options.spreads = true) :
    (∃ b, inlined e o = .ok b) ↔
      (∃ root, e.schema.root? o.kind = some root) ∧ e.document.IsExpandable o.selections := by
  rw [inlined]
  cases e.schema.root? o.kind with
  | none => simp
  | some root =>
    have hnodes := e.inlinedNodes_ok_iff (some root) o.selections
    simp only [hspreads, true_and] at hnodes
    rw [met_iff_expandable e o.selections hspreads] at hnodes
    rw [← hnodes]
    constructor
    · rintro ⟨b, hb⟩
      obtain ⟨ns, hns, -⟩ := bind_eq_ok_iff.mp hb
      exact ⟨⟨root, rfl⟩, ns, hns⟩
    · rintro ⟨-, ns, hns⟩
      simp only [hns, ok_bind]
      exact ⟨_, rfl⟩

/-- An operation that is not larger than the limit is resolved exactly if it has a root type, all
names that it reaches are defined and none of them leads back to itself. Other fragments make no
difference. For any document and limit no chain of calls goes on for ever, and as many levels as
there are fragments are enough for what expansion comes to without a bound on them. -/
theorem expansion_follows_fragment_graph (e : Expansion) (o : OperationDefinition)
    (hspreads : e.options.spreads = true) :
    ((counted e o).visits ≤ e.options.maxSelections →
      ((∃ a, ofDefinition e o = .ok a) ↔
        (∃ root, e.schema.root? o.kind = some root) ∧ e.document.IsExpandable o.selections)) ∧
    (∀ d : Document,
      (∀ name, e.document.Reaches o.selections name →
        d.fragment? name = e.document.fragment? name) →
      ofDefinition { e with document := d } o = ofDefinition e o) ∧
    WellFounded (fun callee caller => e.Calls caller callee) ∧
    ∀ (parent : Option String) (depth : Nat), e.document.fragments.length ≤ depth →
      e.nodes (e.enter depth []) [] parent [] e.options.maxSelections o.selections =
        (e.countedNodes [] parent [] o.selections).within e.options.maxSelections
          e.options.maxSelections := by
  refine ⟨fun hvisits => ?_, fun d hsame => ?_, calls_well_founded e, fun parent depth hdepth => ?_⟩
  · have hlimit : ofDefinition e o ≠ .error (.limitExceeded e.options.maxSelections) := by
      rw [ofDefinition_counted]
      exact (counted_unlimited e o).cut_ne hvisits _
    rw [(ofDefinition_inlined e o).exists_ok_iff hlimit]
    exact inlined_ok_iff e o hspreads
  · have hcounted : counted { e with document := d } o = counted e o :=
      counted_congr rfl rfl hsame
    rw [ofDefinition_counted, ofDefinition_counted, hcounted]
  · have hlevels : (e.unopened []).length ≤ depth :=
      Nat.le_trans (List.length_filter_le _ _) hdepth
    exact nodes_counted (enter_counted e depth [] hlevels) o.selections parent [] _

/-- Two fragments that lead to one another, beside one that leads nowhere. -/
def loopDocument : Document :=
  ⟨[.fragment ⟨"Parts", "Article", [], [.field none "title" [] [] []]⟩,
    .fragment ⟨"Ping", "Article", [], [.field none "next" [] [] [.spread "Pong" []]]⟩,
    .fragment ⟨"Pong", "Article", [], [.inline none [] [.spread "Ping" []], .spread "Lost" []]⟩]⟩

def loopExpansion : Expansion := ⟨articles, loopDocument, .standard⟩

def articleWith (fragment : String) : OperationDefinition :=
  ⟨.query, none, [], [], [.field none "article" [] [] [.spread fragment []]]⟩

def titleOperation : Operation :=
  let title : Field :=
    ⟨"title", none, [], [], ⟨some "Article", some "String", false, false, [], []⟩, false⟩
  let article : Field :=
    ⟨"article", none, [], [], ⟨some "Query", some "Article", true, false, [], []⟩, true⟩
  ⟨.query, none, "Query", [], [],
    [.field article [.fragment ⟨some "Article", []⟩ [.field title []]]]⟩

theorem loops_are_found_where_they_are_reached :
    loopExpansion.options.spreads = true ∧
    (counted loopExpansion (articleWith "Parts")).visits = 3 ∧
    ofDefinition loopExpansion (articleWith "Parts") = .ok titleOperation ∧
    loopDocument.IsExpandable (articleWith "Parts").selections ∧
    (counted loopExpansion (articleWith "Pong")).visits = 6 ∧
    ofDefinition loopExpansion (articleWith "Pong") = .error (.cyclicFragment "Pong") ∧
    ¬ loopDocument.IsExpandable (articleWith "Pong").selections := by
  have hparts : ofDefinition loopExpansion (articleWith "Parts") = .ok titleOperation := rfl
  have hpong : ofDefinition loopExpansion (articleWith "Pong") = .error (.cyclicFragment "Pong") :=
    rfl
  have hthree : (counted loopExpansion (articleWith "Parts")).visits = 3 := by cbv
  have hsix : (counted loopExpansion (articleWith "Pong")).visits = 6 := by cbv
  obtain ⟨hopen, -⟩ := expansion_follows_fragment_graph loopExpansion (articleWith "Parts") rfl
  obtain ⟨hcycle, -⟩ := expansion_follows_fragment_graph loopExpansion (articleWith "Pong") rfl
  have hopen := hopen (by rw [hthree]; decide)
  have hcycle := hcycle (by rw [hsix]; decide)
  refine ⟨rfl, hthree, hparts, (hopen.mp ⟨_, hparts⟩).2, hsix, hpong, fun hexpandable => ?_⟩
  obtain ⟨a, ha⟩ := hcycle.mpr ⟨⟨"Query", rfl⟩, hexpandable⟩
  cases hpong.symm.trans ha

end Operation

end QueryGate
