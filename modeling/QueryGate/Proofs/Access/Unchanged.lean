import QueryGate.Proofs.Access.Exactness
import QueryGate.Proofs.Access.Variables
import QueryGate.Proofs.Operation.Agreement
import QueryGate.Proofs.Operation.Bodies

/-! # Restrictions that change nothing

Whether anything is withheld is decided by looking for paths, and only then is an operation
restricted. The two agree on every operation in which each inline fragment selects something, as is
the case after reading and after any restriction. -/
namespace QueryGate

open Node (listFields restrictList)

namespace Node

/-- Every inline fragment at or below a node selects something. -/
def IsFull (n : Node) : Prop := ∀ f cs, .fragment f cs ∈ n.subtrees → cs ≠ []

theorem IsFull.of_child {n c : Node} (h : n.IsFull) (hc : c ∈ n.children) : c.IsFull :=
  fun f cs hmem => h f cs (mem_subtrees.mpr (.inr ⟨c, hc, hmem⟩))

theorem forall_mem_listFields {ns : List Node} {P : Field × List Node → Prop} :
    (∀ f ∈ listFields ns, P f) ↔ ∀ n ∈ ns, ∀ f ∈ n.fields, P f := by
  simp only [mem_listFields]
  exact ⟨fun h n hn f hf => h f ⟨n, hn, hf⟩, fun h f ⟨n, hn, hf⟩ => h n hn f hf⟩

theorem restrictList_eq_self_iff {keep : FieldTest} {ns : List Node} :
    restrictList keep ns = ns ↔ ∀ n ∈ ns, n.restrict keep = some n := by
  rw [restrictList_eq]
  induction ns with
  | nil => simp
  | cons n ns ih =>
    cases hn : n.restrict keep with
    | none =>
      -- With a node gone the list is shorter than it was.
      have hless := List.length_filterMap_le (restrict keep) ns
      rw [List.filterMap_cons_none hn]
      refine iff_of_false (fun he => ?_) fun hall => ?_
      · rw [he, List.length_cons] at hless
        omega
      · rw [hall n List.mem_cons_self] at hn
        cases hn
    | some m => simp [List.filterMap_cons_some hn, hn, ih]

theorem restrict_eq_self_iff {keep : FieldTest} {n : Node} (h : n.IsFull) :
    n.restrict keep = some n ↔ ∀ f ∈ n.fields, keep f.1 f.2 = true := by
  have hbelow : ∀ {cs : List Node},
      (∀ c ∈ cs, c.restrict keep = some c ↔ ∀ f ∈ c.fields, keep f.1 f.2 = true) →
      (restrictList keep cs = cs ↔ ∀ f ∈ listFields cs, keep f.1 f.2 = true) := by
    intro cs hcs
    rw [restrictList_eq_self_iff, forall_mem_listFields]
    exact forall₂_congr hcs
  induction n using Node.nested with
  | field g cs ih =>
    have hcs := hbelow fun c hc => ih c hc (h.of_child hc)
    rw [fields, List.forall_mem_cons, ← hcs, restrict_field_eq]
    split
    · rename_i hkept
      simp [hkept.1]
    · rename_i hlost
      refine iff_of_false nofun fun ⟨hkeep, hsame⟩ => hlost ⟨hkeep, fun hnil => ?_⟩
      exact hsame.symm.trans hnil
  | fragment g cs ih =>
    have hcs := hbelow fun c hc => ih c hc (h.of_child hc)
    have hne : cs ≠ [] := h g cs (mem_subtrees.mpr (.inl rfl))
    rw [fields, ← hcs, restrict_fragment]
    split
    · rename_i hnone
      refine iff_of_false nofun fun hsame => hne ?_
      exact hsame.symm.trans (List.isEmpty_iff.mp hnone)
    · simp

end Node

namespace Operation

def IsFull (o : Operation) : Prop := ∀ f cs, .fragment f cs ∈ o.subtrees → cs ≠ []

theorem IsFull.of_mem {o : Operation} (h : o.IsFull) {n : Node} (hn : n ∈ o.nodes) : n.IsFull :=
  fun f cs hmem => h f cs (Node.mem_listSubtrees.mpr ⟨n, hn, hmem⟩)

theorem Resolved.isFull {s : Schema} {o : Operation} (h : o.Resolved s) : o.IsFull := by
  intro f cs hmem
  obtain ⟨_, _, hne, _⟩ := h.of_mem_subtrees hmem
  exact hne

theorem isFull_restrict (o : Operation) (keep : FieldTest) : (o.restrict keep).IsFull := by
  intro f cs hmem hnil
  have hchildren : (Node.fragment f cs).children = [] := hnil
  obtain ⟨_, he, -⟩ := (o.prunes_restrict keep).childless hchildren hmem
  cases he

theorem IsFull.restrict_eq_self_iff {o : Operation} (h : o.IsFull) (keep : FieldTest) :
    (o.restrict keep).nodes = o.nodes ↔ ∀ f ∈ o.fields, keep f.1 f.2 = true := by
  have hnodes : (o.restrict keep).nodes = restrictList keep o.nodes := rfl
  rw [hnodes, Node.restrictList_eq_self_iff, fields, Node.forall_mem_listFields]
  exact forall₂_congr fun n hn => Node.restrict_eq_self_iff (h.of_mem hn)

theorem IsFull.paths_eq_nil_iff {o : Operation} (h : o.IsFull) (test : FieldTest) :
    o.paths test = [] ↔ (o.restrict test.negate).nodes = o.nodes := by
  rw [← List.isEmpty_iff, paths_isEmpty_iff, h.restrict_eq_self_iff]
  simp [FieldTest.negate]

end Operation

namespace AccessRules

variable {User : Type}

/-- There is a path to a field that fails a test exactly if the restriction by this test changes the
selections. So an operation that is handed on as a whole is what a restriction would have left of
it, and one that is handed on restricted is never the whole. -/
theorem unchanged_iff_no_path (o : Operation) :
    (∀ text name s options, Operation.read text name s options = .ok o → o.IsFull) ∧
    (∀ keep, (o.restrict keep).IsFull) ∧
    (o.IsFull →
      (∀ keep : FieldTest, o.paths keep.negate = [] ↔ (o.restrict keep).nodes = o.nodes) ∧
      ∀ (rules : AccessRules User) (user : Option User) (partialAccess : Bool),
        match rules.decide o (rules.restrictedPaths o) user partialAccess with
        | .unrestricted =>
          ∀ caller, (o.restrict (rules.forbids caller).negate).nodes = o.nodes
        | .granted => (o.restrict (rules.forbids user).negate).nodes = o.nodes
        | .filtered rest _ =>
          rest = o.restrict (rules.forbids user).negate ∧ rest.nodes ≠ o.nodes
        | .rejected _ => (o.restrict (rules.forbids user).negate).nodes ≠ o.nodes) := by
  refine ⟨fun text name s options hread => ?_, o.isFull_restrict, fun h => ⟨fun keep => ?_, ?_⟩⟩
  · exact (Operation.read_from hread).1.resolved.isFull
  · rw [h.paths_eq_nil_iff, FieldTest.negate_negate]
  · intro rules user partialAccess
    have hforbids := fun caller => h.paths_eq_nil_iff (rules.forbids caller)
    rw [decide_eq]
    split_ifs with hu hg hs
    · intro caller
      refine (hforbids caller).mp (List.isEmpty_iff.mp ?_)
      exact (o.paths_isEmpty_iff _).mpr (forbids_nothing_of_unrestricted hu caller)
    · exact (hforbids user).mp (List.isEmpty_iff.mp hg)
    · exact fun hsame => hg (List.isEmpty_iff.mpr ((hforbids user).mpr hsame))
    · exact ⟨rfl, fun hsame => hg (List.isEmpty_iff.mpr ((hforbids user).mpr hsame))⟩

theorem article_is_changed_for_anonymous :
    ∃ o, Operation.read Operation.repeatedText none Operation.articles .standard = .ok o ∧
      o.IsFull ∧
      (∃ rest withheld,
        authenticatedOnly.decide o (authenticatedOnly.restrictedPaths o) none true =
          .filtered rest withheld ∧ rest.nodes ≠ o.nodes) ∧
      authenticatedOnly.decide o (authenticatedOnly.restrictedPaths o) (some ()) true = .granted ∧
      (o.restrict (authenticatedOnly.forbids (some ())).negate).nodes = o.nodes := by
  have hchecked : (Operation.read Operation.repeatedText none Operation.articles
      .standard).toOption.any (fun o =>
        let verdict user := authenticatedOnly.decide o (authenticatedOnly.restrictedPaths o) user true
        (verdict none matches .filtered _ _) && verdict (some ()) == .granted) = true := by
    decide +kernel
  obtain ⟨o, ho, hchecked⟩ := exists_ok_of_any hchecked
  simp only [Bool.and_eq_true, beq_iff_eq] at hchecked
  obtain ⟨hfiltered, hgranted⟩ := hchecked
  obtain ⟨hfull, -, hexact⟩ := @unchanged_iff_no_path Unit o
  have hfull := hfull _ _ _ _ ho
  have hverdict := (hexact hfull).2 authenticatedOnly
  have hanonymous := hverdict none true
  have hunit := hverdict (some ()) true
  rw [hgranted] at hunit
  split at hfiltered
  · rename_i rest withheld hrest
    rw [hrest] at hanonymous
    exact ⟨o, ho, hfull, ⟨rest, withheld, hrest, hanonymous.2⟩, hgranted, hunit⟩
  · cases hfiltered

end AccessRules

end QueryGate
