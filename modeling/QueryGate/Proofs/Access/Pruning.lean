import QueryGate.Proofs.Access.Exactness
import QueryGate.Proofs.Operation.Occurrences

/-! # A restriction prunes

Pruning leaves selections out at any depth and changes nothing else. It never takes away all that is
selected below a field or a fragment that stays. A restriction is such a pruning, and of the leaf
chains it leaves exactly those on which every field passes the test. -/
namespace QueryGate

namespace Node

mutual

/-- The second node is the first one with some of the selections below it left out. Where nothing is
selected any more nothing was selected before, and that only below a field. -/
inductive Prunes : Node → Node → Prop where
  | field {f : Field} {cs ds : List Node} : ListPrunes cs ds → (ds = [] → cs = []) →
      Prunes (.field f cs) (.field f ds)
  | fragment {f : Fragment} {cs ds : List Node} : ListPrunes cs ds → ds ≠ [] →
      Prunes (.fragment f cs) (.fragment f ds)

inductive ListPrunes : List Node → List Node → Prop where
  | nil : ListPrunes [] []
  | drop {n : Node} {ns ms : List Node} : ListPrunes ns ms → ListPrunes (n :: ns) ms
  | keep {n m : Node} {ns ms : List Node} : Prunes n m → ListPrunes ns ms →
      ListPrunes (n :: ns) (m :: ms)

end

theorem listPrunes_restrictList {keep : FieldTest} {ns : List Node}
    (h : ∀ n ∈ ns, ∀ m, n.restrict keep = some m → Prunes n m) :
    ListPrunes ns (restrictList keep ns) := by
  induction ns with
  | nil => exact .nil
  | cons n ns ih =>
    have hrest := ih fun k hk => h k (List.mem_cons_of_mem n hk)
    rw [restrictList_cons]
    cases hn : n.restrict keep with
    | none => exact .drop hrest
    | some m => exact .keep (h n List.mem_cons_self m hn) hrest

theorem prunes_of_restrict {keep : FieldTest} {n m : Node} (h : n.restrict keep = some m) :
    Prunes n m := by
  induction n using Node.nested generalizing m with
  | field f cs ih =>
    obtain ⟨_, _, he, -, hnil, rfl⟩ | ⟨_, _, he, -, -⟩ := restrict_some h
    · cases he
      exact .field (listPrunes_restrictList fun c hc m hm => ih c hc hm) hnil
    · cases he
  | fragment f cs ih =>
    obtain ⟨_, _, he, -, -, -⟩ | ⟨_, _, he, hne, rfl⟩ := restrict_some h
    · cases he
    · cases he
      exact .fragment (listPrunes_restrictList fun c hc m hm => ih c hc hm) hne

mutual

theorem Prunes.childless {k : Node} (hk : k.children = []) : ∀ {n m : Node}, Prunes n m →
    k ∈ m.subtrees → ∃ f, k = .field f [] ∧ k ∈ n.subtrees
  | .field f cs, .field _ ds, .field hprunes hnil, h => by
    rcases List.mem_cons.mp h with rfl | h
    · have hds : ds = [] := hk
      subst hds
      rw [hnil rfl]
      exact ⟨f, rfl, List.mem_cons_self⟩
    · obtain ⟨g, hg, hmem⟩ := hprunes.childless hk h
      exact ⟨g, hg, List.mem_cons_of_mem _ hmem⟩
  | .fragment f cs, .fragment _ ds, .fragment hprunes hne, h => by
    rcases List.mem_cons.mp h with rfl | h
    · exact absurd hk hne
    · obtain ⟨g, hg, hmem⟩ := hprunes.childless hk h
      exact ⟨g, hg, List.mem_cons_of_mem _ hmem⟩

theorem ListPrunes.childless {k : Node} (hk : k.children = []) : ∀ {ns ms : List Node},
    ListPrunes ns ms → k ∈ listSubtrees ms → ∃ f, k = .field f [] ∧ k ∈ listSubtrees ns
  | _, _, .nil, h => nomatch h
  | _, _, .drop hprunes, h => by
    obtain ⟨g, hg, hmem⟩ := hprunes.childless hk h
    exact ⟨g, hg, List.mem_append_right _ hmem⟩
  | _, _, .keep hnode hrest, h => by
    rcases List.mem_append.mp h with h | h
    · obtain ⟨g, hg, hmem⟩ := hnode.childless hk h
      exact ⟨g, hg, List.mem_append_left _ hmem⟩
    · obtain ⟨g, hg, hmem⟩ := hrest.childless hk h
      exact ⟨g, hg, List.mem_append_right _ hmem⟩

end

end Node

open Node (ListPrunes passes)

namespace Operation

theorem prunes_restrict (o : Operation) (keep : FieldTest) :
    ListPrunes o.nodes (o.restrict keep).nodes :=
  Node.listPrunes_restrictList fun _ _ _ hm => Node.prunes_of_restrict hm

/-- The leaf chains of a restriction are, in order, the leaf chains on which every field passes the
test. All else is pruned: the nodes that are left keep what is written on them and their order, one
below which nothing is selected was a field without selections before, and of the operation itself
only the variable definitions change. -/
theorem restriction_leaves_passing_chains (o : Operation) (keep : FieldTest) :
    (o.restrict keep).leafHeads =
        (o.leafChains.filter (·.all (passes keep))).map (·.map Node.head) ∧
      ListPrunes o.nodes (o.restrict keep).nodes ∧
      (∀ n ∈ (o.restrict keep).subtrees, n.children = [] →
        ∃ f, n = .field f [] ∧ n ∈ o.subtrees) ∧
      (o.restrict keep).kind = o.kind ∧ (o.restrict keep).name = o.name ∧
      (o.restrict keep).root = o.root ∧ (o.restrict keep).directives = o.directives := by
  refine ⟨o.leaf_heads_restrict keep, o.prunes_restrict keep, fun n hn hnone => ?_,
    rfl, rfl, rfl, rfl⟩
  exact (o.prunes_restrict keep).childless hnone hn

/-- Of the catalogue an anonymous caller keeps the identifiers: the name fails, the owner has
nothing left below it, and so the fragment around both goes as well. -/
theorem restriction_leaves_identifiers :
    ∃ rest, AccessRules.catalogue.restrict (FieldTest.annotated "authenticated").negate = rest ∧
      rest.leafHeads.map List.length = [2] ∧ ListPrunes AccessRules.catalogue.nodes rest.nodes ∧
      AccessRules.catalogue.subtrees.length = 6 ∧ rest.subtrees.length = 2 ∧
      ∃ n ∈ rest.subtrees, n.children = [] ∧ n ∈ AccessRules.catalogue.subtrees := by
  obtain ⟨hheads, hprunes, hchildless, -⟩ := restriction_leaves_passing_chains
    AccessRules.catalogue (FieldTest.annotated "authenticated").negate
  have hleaf : ∃ n ∈ (AccessRules.catalogue.restrict
      (FieldTest.annotated "authenticated").negate).subtrees, n.children = [] := by decide
  obtain ⟨n, hn, hnone⟩ := hleaf
  obtain ⟨_, -, hbefore⟩ := hchildless n hn hnone
  exact ⟨_, rfl, by rw [hheads]; decide, hprunes, by decide, by decide, n, hn, hnone, hbefore⟩

end Operation

end QueryGate
