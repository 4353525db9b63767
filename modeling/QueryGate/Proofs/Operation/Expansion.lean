import QueryGate.Proofs.GraphQL.Soundness
import QueryGate.Proofs.Operation.Reading

/-! # Expanding selections

Expansion resolves every selection on the type it stands below and counts it. What it gives can be
written down and expanded again, with or without the fragments of the first document: the result is
the same, and no more selections are counted. -/
namespace QueryGate

open GraphQL (Document FragmentDefinition OperationDefinition Selection SelectionsWellFormed)

namespace Node

mutual

def size : Node → Nat
  | .field _ children => 1 + listSize children
  | .fragment _ children => 1 + listSize children

def listSize : List Node → Nat
  | [] => 0
  | node :: rest => node.size + listSize rest

end

theorem size_pos (n : Node) : 0 < n.size := by
  cases n with
  | field => exact Nat.lt_add_right _ Nat.zero_lt_one
  | fragment => exact Nat.lt_add_right _ Nat.zero_lt_one

theorem list_size_append (as bs : List Node) : listSize (as ++ bs) = listSize as + listSize bs := by
  induction as with
  | nil => simp [listSize]
  | cons a as ih => simp [listSize, ih, Nat.add_assoc]

theorem list_resolved_append {s : Schema} {parent : Option String} {as bs : List Node} :
    ListResolved s parent (as ++ bs) ↔ ListResolved s parent as ∧ ListResolved s parent bs := by
  simp only [list_resolved_iff, List.forall_mem_append]

mutual

theorem size_restrict (keep : FieldTest) : ∀ node : Node,
    listSize (node.restrict keep).toList ≤ node.size
  | .field head children => by
    have ih := size_restrictList keep children
    cases hr : (Node.field head children).restrict keep with
    | none => exact Nat.zero_le _
    | some m =>
      obtain ⟨_, _, he, -, -, rfl⟩ | ⟨_, _, he, -, -⟩ := restrict_some hr
      · cases he
        simpa [listSize, size] using ih
      · cases he
  | .fragment head children => by
    have ih := size_restrictList keep children
    cases hr : (Node.fragment head children).restrict keep with
    | none => exact Nat.zero_le _
    | some m =>
      obtain ⟨_, _, he, -, -, -⟩ | ⟨_, _, he, -, rfl⟩ := restrict_some hr
      · cases he
      · cases he
        simpa [listSize, size] using ih

theorem size_restrictList (keep : FieldTest) : ∀ ns : List Node,
    listSize (restrictList keep ns) ≤ listSize ns
  | [] => Nat.le_refl _
  | node :: rest => by
    have hnode := size_restrict keep node
    have hrest := size_restrictList keep rest
    rw [restrictList_cons, list_size_append, listSize]
    omega

end

end Node

namespace Expansion

/-- Nodes that are resolved below a type, and counted against the selections to go. -/
structure Yields (s : Schema) (parent : Option String) (ns : List Node) (left left' : Nat) :
    Prop where
  resolved : Node.ListResolved s parent ns
  counted : Node.listSize ns + left' ≤ left

def Enters (s : Schema)
    (enter : FragmentDefinition → Nat → Except OperationError (List Node × Nat)) : Prop :=
  ∀ ⦃f left ns left'⦄, f.WellFormed → enter f left = .ok (ns, left') →
    ns ≠ [] ∧ Yields s (some f.typeCondition) ns left left'

variable {e : Expansion}
  {enter : FragmentDefinition → Nat → Except OperationError (List Node × Nat)}

theorem fragmentFor_eq_ok_iff {visiting : List String} {name : String} {f : FragmentDefinition} :
    e.fragmentFor visiting name = .ok f ↔
      e.options.spreads = true ∧ e.document.fragment? name = some f ∧ f.name ∉ visiting := by
  unfold fragmentFor
  cases e.options.spreads with
  | false => simp
  | true =>
    cases e.document.fragment? name with
    | none => simp
    | some g =>
      by_cases hopen : g.name ∈ visiting
      · have hnot : ¬ (g = f ∧ f.name ∉ visiting) := fun ⟨he, hclosed⟩ => hclosed (he ▸ hopen)
        simpa [hopen] using hnot
      · have hsame : g = f → f.name ∉ visiting := fun he => he ▸ hopen
        simpa [hopen] using hsame

theorem mem_fragments {visiting : List String} {name : String} {f : FragmentDefinition}
    (h : e.fragmentFor visiting name = .ok f) : f ∈ e.document.fragments := by
  obtain ⟨-, hfound, -⟩ := fragmentFor_eq_ok_iff.mp h
  exact List.mem_reverse.mp (List.mem_of_find?_eq_some hfound)

theorem fragmentFor_well_formed (hd : ∀ d ∈ e.document.definitions, d.WellFormed)
    {visiting : List String} {name : String} {f : FragmentDefinition}
    (h : e.fragmentFor visiting name = .ok f) : f.WellFormed := by
  obtain ⟨d, hdmem, hdf⟩ := List.mem_filterMap.mp (mem_fragments h)
  cases d with
  | operation o => cases hdf
  | fragment g =>
    cases hdf
    exact hd _ hdmem

mutual

theorem node_yields (hd : ∀ d ∈ e.document.definitions, d.WellFormed)
    (henter : Enters e.schema enter) (visiting : List String) :
    ∀ (selection : Selection) (parent : Option String) (seen : List String) (left : Nat)
      {found seen' left'}, selection.WellFormed →
      e.node enter visiting parent seen left selection = .ok (found, seen', left') →
      Yields e.schema parent found.toList (left + 1) left' ∧ (found = none → seen ≠ [])
  | .field aliasName name arguments directives selections, parent, seen, left, found, seen', left',
      hs, h => by
    obtain ⟨halias, hname, harguments, hdirectives, hselections⟩ := hs
    obtain ⟨⟨children, left₁⟩, hchildren, h⟩ := bind_eq_ok_iff.mp h
    cases h
    have ih := nodes_yields hd henter visiting selections _ [] left hselections hchildren
    refine ⟨⟨?_, ?_⟩, by simp⟩
    · exact ⟨⟨⟨hname, halias, harguments, hdirectives⟩, ⟨rfl, rfl⟩, ih.1.resolved⟩, trivial⟩
    · have hcounted := ih.1.counted
      simp [Node.listSize, Node.size]
      omega
  | .inline condition directives selections, parent, seen, left, found, seen', left', hs, h => by
    obtain ⟨hcondition, hdirectives, hne, hselections⟩ := hs
    obtain ⟨⟨children, left₁⟩, hchildren, h⟩ := bind_eq_ok_iff.mp h
    cases h
    have ih := nodes_yields hd henter visiting selections _ [] left hselections hchildren
    refine ⟨⟨?_, ?_⟩, by simp⟩
    · exact ⟨⟨⟨hcondition, hdirectives⟩, ih.2 hne rfl, ih.1.resolved⟩, trivial⟩
    · have hcounted := ih.1.counted
      simp [Node.listSize, Node.size]
      omega
  | .spread name directives, parent, seen, left, found, seen', left', hs, h => by
    obtain ⟨f, hf, h⟩ := bind_eq_ok_iff.mp h
    have hfragment := fragmentFor_well_formed hd hf
    split at h
    · rename_i hseen
      cases h
      refine ⟨⟨trivial, by simp [Node.listSize]⟩, fun _ => ?_⟩
      rintro rfl
      simp at hseen
    · obtain ⟨⟨children, left₁⟩, hchildren, h⟩ := bind_eq_ok_iff.mp h
      cases h
      obtain ⟨hne, hyields⟩ := henter hfragment hchildren
      refine ⟨⟨?_, ?_⟩, by simp⟩
      · refine ⟨⟨⟨fun t ht => ?_, hs⟩, hne, hyields.resolved⟩, trivial⟩
        exact Option.some.inj ht ▸ hfragment.typeCondition
      · have hcounted := hyields.counted
        simp [Node.listSize, Node.size]
        omega

/-- The first of some selections always selects something new. -/
theorem nodes_yields (hd : ∀ d ∈ e.document.definitions, d.WellFormed)
    (henter : Enters e.schema enter) (visiting : List String) :
    ∀ (selections : List Selection) (parent : Option String) (seen : List String) (left : Nat)
      {ns left'}, SelectionsWellFormed selections →
      e.nodes enter visiting parent seen left selections = .ok (ns, left') →
      Yields e.schema parent ns left left' ∧ (selections ≠ [] → seen = [] → ns ≠ [])
  | [], parent, seen, left, ns, left', _, h => by
    cases h
    exact ⟨⟨trivial, by simp [Node.listSize]⟩, by simp⟩
  | selection :: rest, parent, seen, left, ns, left', hs, h => by
    cases left with
    | zero => cases h
    | succ left =>
      obtain ⟨⟨found, seen₁, left₁⟩, hfound, h⟩ := bind_eq_ok_iff.mp h
      obtain ⟨⟨more, left₂⟩, hmore, h⟩ := bind_eq_ok_iff.mp h
      cases h
      obtain ⟨hnode, hseen⟩ := node_yields hd henter visiting selection parent seen left hs.1 hfound
      have hrest := nodes_yields hd henter visiting rest parent seen₁ left₁ hs.2 hmore
      refine ⟨⟨?_, ?_⟩, fun _ hnil => ?_⟩
      · exact Node.list_resolved_append.mpr ⟨hnode.resolved, hrest.1.resolved⟩
      · have hcounted := hnode.counted
        have hmore := hrest.1.counted
        rw [Node.list_size_append]
        omega
      · cases found with
        | none => exact absurd hnil (hseen rfl)
        | some n => simp

end

theorem enter_yields (hd : ∀ d ∈ e.document.definitions, d.WellFormed) (depth : Nat)
    (visiting : List String) : Enters e.schema (e.enter depth visiting) := by
  -- A fragment is entered with one level less, for whatever fragments are open around it.
  induction depth generalizing visiting with
  | zero =>
    intro f left ns left' _ h
    cases h
  | succ depth ih =>
    intro f left ns left' hf h
    have hnodes := nodes_yields hd (ih (f.name :: visiting)) (f.name :: visiting) f.selections _ []
      left hf.selections.2 h
    exact ⟨hnodes.2 hf.selections.1 rfl, hnodes.1⟩

mutual

/-- A resolved node is expanded to itself, without spreading any fragment. -/
theorem node_again (enter : FragmentDefinition → Nat → Except OperationError (List Node × Nat))
    (visiting : List String) : ∀ (n : Node) (parent : Option String) (seen : List String)
      (left : Nat), n.Resolved e.schema parent → n.size ≤ left + 1 →
      e.node enter visiting parent seen left n.selection =
        .ok (some n, seen, left + 1 - n.size)
  | .field head children, parent, seen, left, h, hsize => by
    obtain ⟨-, ⟨hinfo, hlist⟩, hchildren⟩ := h
    rw [Node.size] at hsize ⊢
    have ih := nodes_again enter visiting children head.info.output [] left hchildren (by omega)
    have hleft : left + 1 - (1 + Node.listSize children) = left - Node.listSize children := by omega
    rw [Node.selection, node, ← hinfo, ← hlist, hleft]
    simp [ih]
  | .fragment head children, parent, seen, left, h, hsize => by
    obtain ⟨-, -, hchildren⟩ := h
    rw [Node.size] at hsize ⊢
    have ih := nodes_again enter visiting children (head.typeCondition.or parent) [] left hchildren
      (by omega)
    have hleft : left + 1 - (1 + Node.listSize children) = left - Node.listSize children := by omega
    rw [Node.selection, node, hleft]
    simp [ih]

theorem nodes_again (enter : FragmentDefinition → Nat → Except OperationError (List Node × Nat))
    (visiting : List String) : ∀ (ns : List Node) (parent : Option String) (seen : List String)
      (left : Nat), Node.ListResolved e.schema parent ns → Node.listSize ns ≤ left →
      e.nodes enter visiting parent seen left (Node.selections ns) =
        .ok (ns, left - Node.listSize ns)
  | [], parent, seen, left, _, _ => rfl
  | n :: ns, parent, seen, left, h, hsize => by
    rw [Node.listSize] at hsize ⊢
    have hpos := n.size_pos
    obtain ⟨left, rfl⟩ : ∃ l, left = l + 1 := ⟨left - 1, by omega⟩
    have hnode := node_again enter visiting n parent seen left h.1 (by omega)
    have hrest := nodes_again enter visiting ns parent seen (left + 1 - n.size) h.2 (by omega)
    have hleft : left + 1 - n.size - Node.listSize ns = left + 1 - (n.size + Node.listSize ns) := by
      omega
    simp [Node.selections, nodes, hnode, hrest, hleft]

end

end Expansion

end QueryGate
