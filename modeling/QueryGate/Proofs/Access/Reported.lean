import QueryGate.Proofs.Access.Withheld

/-! # What is reported as withheld

A verdict that withholds something reports all of it and nothing else. The path of a removed leaf,
or of a field around it, is among the withheld paths, and each of these is the path of a field that
is removed. -/
namespace QueryGate

open Node (leadsTo passes stays)

def FieldTest.leaf : FieldTest := fun _ children => children.isEmpty

namespace Node

/-- A leaf is removed only because of a field on the way to it. -/
theorem leaf_stays {keep : FieldTest} {n : Node} {chain : List Node} (hc : chain ∈ n.fieldChains)
    (hleaf : leadsTo .leaf chain = true) (hpass : chain.all (passes keep) = true) :
    stays keep chain = true := by
  induction n using Node.descend generalizing chain with
  | h n ih =>
    obtain ⟨f, cs, rfl, rfl⟩ | ⟨c, hmem, rest, hrest, rfl⟩ := field_chain_cases hc
    · have hcs : cs = [] := by simpa [leadsTo, passes, FieldTest.leaf] using hleaf
      have hkeep : keep f cs = true := by simpa [passes] using hpass
      subst hcs
      simp [stays, restrict, hkeep]
    · rw [leadsTo_cons (field_chain_ne_nil hrest)] at hleaf
      obtain ⟨hn, hbelow⟩ : passes keep n = true ∧ rest.all (passes keep) = true := by
        simpa using hpass
      have hrest_stays := ih c hmem hrest hleaf hbelow
      have hsome : (n.restrict keep).isSome = true := by
        cases hr : n.restrict keep with
        | some _ => rfl
        | none =>
          obtain ⟨more, rfl⟩ := head_of_field_chain hrest
          simp [stays, restrict_none hr hn c hmem] at hrest_stays
      simpa [stays, hsome] using hrest_stays

/-- If a node on the way to an occurrence fails, it is a field, and it is an occurrence itself. -/
theorem failing_on_chain {keep : FieldTest} {n : Node} {chain : List Node}
    (hc : chain ∈ n.fieldChains) (hfail : chain.all (passes keep) = false) :
    ∃ above ∈ n.fieldChains, above <+: chain ∧ leadsTo keep.negate above = true := by
  induction n using Node.descend generalizing chain with
  | h n ih =>
    obtain ⟨rest, rfl⟩ := head_of_field_chain hc
    cases hn : passes keep n with
    | false =>
      cases n with
      | field f cs =>
        have hf : keep f cs = false := hn
        refine ⟨[.field f cs], List.mem_cons_self, ⟨rest, rfl⟩, ?_⟩
        simp [leadsTo, passes, FieldTest.negate, hf]
      | fragment f cs => cases hn
    | true =>
      have hrest : rest.all (passes keep) = false := by simpa [hn] using hfail
      obtain ⟨_, _, -, he⟩ | ⟨c, hmem, rest, hchain, he⟩ := field_chain_cases hc
      · obtain ⟨-, rfl⟩ := List.cons.inj he
        cases hrest
      · obtain ⟨-, rfl⟩ := List.cons.inj he
        obtain ⟨above, habove, hprefix, hfails⟩ := ih c hmem hchain hrest
        refine ⟨n :: above, extended_field_chain hmem habove, ?_, ?_⟩
        · exact List.cons_prefix_cons.mpr ⟨rfl, hprefix⟩
        · rwa [leadsTo_cons (field_chain_ne_nil habove)]

/-- An occurrence whose own field fails is removed. -/
theorem failing_not_stays {keep : FieldTest} {n : Node} {chain : List Node}
    (hc : chain ∈ n.fieldChains) (hfails : leadsTo keep.negate chain = true) :
    stays keep chain = false := by
  induction n using Node.descend generalizing chain with
  | h n ih =>
    obtain ⟨f, cs, rfl, rfl⟩ | ⟨c, hmem, rest, hrest, rfl⟩ := field_chain_cases hc
    · have hkeep : keep f cs = false := by simpa [leadsTo, passes, FieldTest.negate] using hfails
      simp [stays, restrict, hkeep]
    · rw [leadsTo_cons (field_chain_ne_nil hrest)] at hfails
      have hgone := ih c hmem hrest hfails
      simp only [stays, List.all_cons, Bool.and_eq_false_iff] at hgone ⊢
      exact .inr hgone

end Node

namespace AccessRules

variable {User : Type} {rules : AccessRules User} {o rest : Operation} {user : Option User}
  {partialAccess : Bool} {withheld : List Path}

/-- A restriction leaves the occurrences that stay, in order. Some path is withheld, and none twice.
For each leaf that is removed the path of the leaf or of a field around it is withheld, and each
withheld path is that of a field that is removed. -/
theorem report_is_exact
    (h : rules.decide o (rules.restrictedPaths o) user partialAccess = .filtered rest withheld) :
    rest.fieldHeads =
        (o.fieldChains.filter (stays (rules.forbids user).negate)).map (·.map Node.head) ∧
      withheld ≠ [] ∧ withheld.Nodup ∧
      (∀ chain ∈ o.fieldChains, leadsTo .leaf chain = true →
        stays (rules.forbids user).negate chain = false →
        ∃ above ∈ o.fieldChains, above <+: chain ∧ o.pathTo above ∈ withheld) ∧
      ∀ p ∈ withheld, ∃ chain ∈ o.fieldChains,
        stays (rules.forbids user).negate chain = false ∧ o.pathTo chain = p := by
  obtain ⟨rfl, rfl⟩ := filtered_eq h
  refine ⟨o.field_heads_restrict _, withheld_ne_nil h, o.nodup_paths _, ?_, ?_⟩
  · intro chain hc hleaf hgone
    obtain ⟨n, hn, hchain⟩ := Node.mem_listFieldChains.mp hc
    have hfail : chain.all (passes (rules.forbids user).negate) = false :=
      Bool.eq_false_iff.mpr fun hpass => by simp [Node.leaf_stays hchain hleaf hpass] at hgone
    obtain ⟨above, habove, hprefix, hforbidden⟩ := Node.failing_on_chain hchain hfail
    rw [FieldTest.negate_negate] at hforbidden
    have hmem : above ∈ o.fieldChains := Node.mem_listFieldChains.mpr ⟨n, hn, habove⟩
    exact ⟨above, hmem, hprefix, Operation.mem_paths.mpr ⟨above, hmem, hforbidden, rfl⟩⟩
  · intro p hp
    obtain ⟨chain, hc, hforbidden, rfl⟩ := Operation.mem_paths.mp hp
    obtain ⟨n, -, hchain⟩ := Node.mem_listFieldChains.mp hc
    refine ⟨chain, hc, Node.failing_not_stays hchain ?_, rfl⟩
    rwa [FieldTest.negate_negate]

theorem report_on_catalogue :
    ∃ rest, authenticatedOnly.decide catalogue (authenticatedOnly.restrictedPaths catalogue) none
        true = .filtered rest [⟨"products.name"⟩, ⟨"products.owner.email"⟩] ∧
      rest.fieldHeads.length = 2 ∧ catalogue.fieldChains.length = 5 ∧
      [(⟨"products.name"⟩ : Path), ⟨"products.owner.email"⟩].Nodup ∧
      (∀ chain ∈ catalogue.fieldChains, leadsTo .leaf chain = true →
        stays (authenticatedOnly.forbids none).negate chain = false →
        ∃ above ∈ catalogue.fieldChains, above <+: chain ∧
          catalogue.pathTo above ∈ [(⟨"products.name"⟩ : Path), ⟨"products.owner.email"⟩]) ∧
      ∃ chain ∈ catalogue.fieldChains, stays (authenticatedOnly.forbids none).negate chain = false ∧
        catalogue.pathTo chain = ⟨"products.owner.email"⟩ := by
  have hverdict : authenticatedOnly.decide catalogue (authenticatedOnly.restrictedPaths catalogue)
      none true = .filtered (catalogue.restrict (authenticatedOnly.forbids none).negate)
        [⟨"products.name"⟩, ⟨"products.owner.email"⟩] := by decide +kernel
  obtain ⟨hheads, -, hnodup, hleaves, hpaths⟩ := report_is_exact hverdict
  exact ⟨_, hverdict, by rw [hheads]; decide, by decide, hnodup, hleaves, hpaths _ (by simp)⟩

end AccessRules

end QueryGate
