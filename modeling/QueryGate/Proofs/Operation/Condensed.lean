import QueryGate.Proofs.Access.Restriction
import QueryGate.Proofs.Operation.Occurrences

/-! # Repeated selections

A tree is condensed if selections that stand earlier among the same selections have been left out at
some places of it. Nothing that can be said of paths depends on the selections left out, nor does it
depend on them whether a restriction leaves anything. -/
namespace QueryGate

namespace Node

mutual

/-- The first node is the second one without some selections that repeat earlier ones. -/
inductive Condensed : Node → Node → Prop where
  | field {f : Field} {cs ds : List Node} : CondensedList [] cs ds →
      Condensed (.field f cs) (.field f ds)
  | fragment {f : Fragment} {cs ds : List Node} : CondensedList [] cs ds →
      Condensed (.fragment f cs) (.fragment f ds)

/-- The same for some nodes behind others, `before`, of the second tree. -/
inductive CondensedList : (before : List Node) → List Node → List Node → Prop where
  | nil {before : List Node} : CondensedList before [] []
  | cons {before : List Node} {n m : Node} {ns ms : List Node} : Condensed n m →
      CondensedList (m :: before) ns ms → CondensedList before (n :: ns) (m :: ms)
  | repeated {before : List Node} {m : Node} {ns ms : List Node} : m ∈ before →
      CondensedList before ns ms → CondensedList before ns (m :: ms)

end

theorem CondensedList.isEmpty_eq {cs ds : List Node} (h : CondensedList [] cs ds) :
    cs.isEmpty = ds.isEmpty := by
  cases h with
  | nil => rfl
  | cons => rfl
  | repeated hmem => cases hmem

theorem restrict_field_none_iff {keep : FieldTest} {f : Field} {cs : List Node} :
    restrict keep (.field f cs) = none ↔
      keep f cs = false ∨ (cs.isEmpty = false ∧ restrictList keep cs = []) := by
  cases cs with
  | nil => cases hk : keep f [] <;> simp [restrict, hk]
  | cons c cs => cases hk : keep f (c :: cs) <;> simp [restrict_field, hk]

theorem restrict_fragment_none_iff {keep : FieldTest} {f : Fragment} {cs : List Node} :
    restrict keep (.fragment f cs) = none ↔ restrictList keep cs = [] := by
  simp [restrict_fragment]

theorem restrictList_cons_nil_iff {keep : FieldTest} {n : Node} {ns : List Node} :
    restrictList keep (n :: ns) = [] ↔ n.restrict keep = none ∧ restrictList keep ns = [] := by
  rw [restrictList_cons, List.append_eq_nil_iff, Option.toList_eq_nil_iff]

mutual

theorem Condensed.restrict_none_iff {keep : FieldTest} (hs : keep.ShapeOnly) :
    ∀ {n m : Node}, Condensed n m → (n.restrict keep = none ↔ m.restrict keep = none)
  | .field f cs, .field _ ds, .field h => by
    have ih := CondensedList.restrict_nil_iff hs h (by simp)
    rw [restrict_field_none_iff, restrict_field_none_iff, ih, h.isEmpty_eq,
      hs f cs ds h.isEmpty_eq]
  | _, _, .fragment h => by
    have ih := CondensedList.restrict_nil_iff hs h (by simp)
    rw [restrict_fragment_none_iff, restrict_fragment_none_iff, ih]
termination_by _ m => sizeOf m

/-- If nothing is left of the nodes before, a restriction leaves something of both or of none. -/
theorem CondensedList.restrict_nil_iff {keep : FieldTest} (hs : keep.ShapeOnly) :
    ∀ {before ns ms : List Node}, CondensedList before ns ms →
      (∀ b ∈ before, b.restrict keep = none) →
        (restrictList keep ns = [] ↔ restrictList keep ms = [])
  | _, _, _, .nil, _ => Iff.rfl
  | _, _, _, .cons h hrest, hbefore => by
    have hnode := Condensed.restrict_none_iff hs h
    rw [restrictList_cons_nil_iff, restrictList_cons_nil_iff, hnode]
    refine and_congr_right fun hnone => ?_
    exact CondensedList.restrict_nil_iff hs hrest (List.forall_mem_cons.mpr ⟨hnone, hbefore⟩)
  | _, _, _, .repeated hmem hrest, hbefore => by
    have ih := CondensedList.restrict_nil_iff hs hrest hbefore
    rw [restrictList_cons_nil_iff, ih]
    exact (and_iff_right (hbefore _ hmem)).symm
termination_by _ _ ms => sizeOf ms

end

/-! Dropping repetitions -/

theorem eraseDups_append_congr {as bs : List String} (h : as.eraseDups = bs.eraseDups)
    (cs : List String) : (as ++ cs).eraseDups = (bs ++ cs).eraseDups := by
  have hmem : ∀ c, as.elem c = bs.elem c := by
    intro c
    rw [Bool.eq_iff_iff, List.elem_iff, List.elem_iff, ← List.mem_eraseDups, h, List.mem_eraseDups]
  rw [List.eraseDups_append, List.eraseDups_append, h, List.removeAll, List.removeAll]
  simp only [hmem]

theorem eraseDups_append_of_subset {as bs : List String} (h : bs ⊆ as) :
    (as ++ bs).eraseDups = as.eraseDups := by
  have hnone : bs.removeAll as = [] :=
    List.filter_eq_nil_iff.mpr fun b hb => by simp [h hb]
  rw [List.eraseDups_append, hnone]
  simp

mutual

theorem Condensed.properties_eq {test : FieldTest} (hs : test.ShapeOnly) :
    ∀ {n m : Node}, Condensed n m → ∀ (stem : String) (parent type : Option String)
      (found : List String),
      (found ++ n.properties test stem parent type).eraseDups =
        (found ++ m.properties test stem parent type).eraseDups
  | .field f cs, .field _ ds, .field h, stem, parent, type, found => by
    have ih := CondensedList.properties_eq hs h (Path.child stem f.key type) f.info.output none
    have ht := hs f cs ds h.isEmpty_eq
    rw [properties, properties, ← ht]
    cases test f cs with
    | false => exact ih found (by simp)
    | true =>
      have hbelow := ih (found ++ [Path.child stem f.key type]) (by simp)
      simpa using hbelow
  | _, _, .fragment h, stem, parent, type, found => by
    rw [properties, properties]
    exact CondensedList.properties_eq hs h stem parent _ found (by simp)
termination_by _ m => sizeOf m

theorem CondensedList.properties_eq {test : FieldTest} (hs : test.ShapeOnly) :
    ∀ {before ns ms : List Node}, CondensedList before ns ms →
      ∀ (stem : String) (parent type : Option String) (found : List String),
        (∀ b ∈ before, b.properties test stem parent type ⊆ found) →
          (found ++ listProperties test stem parent type ns).eraseDups =
            (found ++ listProperties test stem parent type ms).eraseDups
  | _, _, _, .nil, _, _, _, _, _ => rfl
  | before, n :: ns, m :: ms, .cons h hrest, stem, parent, type, found, hbefore => by
    have hnode := Condensed.properties_eq hs h stem parent type found
    have hmore : ∀ b ∈ m :: before,
        b.properties test stem parent type ⊆ found ++ m.properties test stem parent type := by
      intro b hb
      rcases List.mem_cons.mp hb with rfl | hb
      · exact List.subset_append_right _ _
      · exact List.subset_append_of_subset_left _ (hbefore b hb)
    have ih := CondensedList.properties_eq hs hrest stem parent type _ hmore
    rw [listProperties, listProperties, ← List.append_assoc, ← List.append_assoc,
      eraseDups_append_congr hnode, ih]
  | before, ns, m :: ms, .repeated hmem hrest, stem, parent, type, found, hbefore => by
    have ih := CondensedList.properties_eq hs hrest stem parent type found hbefore
    have hsame := eraseDups_append_of_subset (hbefore m hmem)
    rw [ih, listProperties, ← List.append_assoc, eraseDups_append_congr hsame]
termination_by _ _ ms => sizeOf ms

end

end Node

end QueryGate
