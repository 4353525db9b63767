import QueryGate.Access.Restrict
import QueryGate.Proofs.Operation.Tree

/-! # What a restriction keeps and what a collection finds

A restriction keeps exactly the leaf chains on which every field passes the test, and a collection
of paths is empty exactly if no field at any depth passes it. -/
namespace QueryGate

open Node (head passes restrictList listFields listLeafChains listProperties)

namespace FieldTest

theorem negate_negate (t : FieldTest) : t.negate.negate = t := by
  funext field children
  exact Bool.not_not _

/-- The test looks at the selections below a field at most to see whether there are any. -/
def ShapeOnly (t : FieldTest) : Prop :=
  ∀ f cs ds, List.isEmpty cs = List.isEmpty ds → t f cs = t f ds

theorem ShapeOnly.negate {t : FieldTest} (h : t.ShapeOnly) : t.negate.ShapeOnly := by
  intro f cs ds he
  simp [FieldTest.negate, h f cs ds he]

end FieldTest

namespace Node

theorem restrictList_cons (keep : FieldTest) (node : Node) (rest : List Node) :
    restrictList keep (node :: rest) = (node.restrict keep).toList ++ restrictList keep rest := by
  rw [restrictList]
  cases node.restrict keep <;> rfl

theorem restrict_field (keep : FieldTest) (head : Field) (child : Node) (others : List Node) :
    restrict keep (.field head (child :: others)) =
      if keep head (child :: others) then
        if (restrictList keep (child :: others)).isEmpty then none
        else some (.field head (restrictList keep (child :: others)))
      else none := by
  rw [restrict]
  rfl

theorem restrict_fragment (keep : FieldTest) (head : Fragment) (children : List Node) :
    restrict keep (.fragment head children) =
      if (restrictList keep children).isEmpty then none
      else some (.fragment head (restrictList keep children)) := by
  rw [restrict]

theorem restrictList_eq (keep : FieldTest) (ns : List Node) :
    restrictList keep ns = ns.filterMap (restrict keep) := by
  induction ns with
  | nil => rfl
  | cons n ns ih =>
    rw [restrictList_cons, ih]
    cases hn : n.restrict keep with
    | none => rw [List.filterMap_cons_none hn]; rfl
    | some m => rw [List.filterMap_cons_some hn]; rfl

theorem restrict_field_eq (keep : FieldTest) (f : Field) (cs : List Node) :
    restrict keep (.field f cs) =
      if keep f cs = true ∧ (restrictList keep cs = [] → cs = []) then
        some (.field f (restrictList keep cs))
      else none := by
  cases cs with
  | nil => cases hk : keep f [] <;> simp [restrict, hk, restrictList]
  | cons c cs =>
    rw [restrict_field]
    cases hk : keep f (c :: cs) <;> simp

theorem mem_restrictList {keep : FieldTest} {ns : List Node} {m : Node}
    (h : m ∈ restrictList keep ns) : ∃ n ∈ ns, n.restrict keep = some m := by
  rw [restrictList_eq] at h
  exact List.mem_filterMap.mp h

/-- What a restriction leaves of a node: the node with what is left of the selections below it,
where none are left only if there were none. -/
theorem restrict_some {keep : FieldTest} {n m : Node} (h : n.restrict keep = some m) :
    (∃ f cs, n = .field f cs ∧ keep f cs = true ∧ (restrictList keep cs = [] → cs = []) ∧
      m = .field f (restrictList keep cs)) ∨
    (∃ f cs, n = .fragment f cs ∧ restrictList keep cs ≠ [] ∧
      m = .fragment f (restrictList keep cs)) := by
  cases n with
  | field f cs =>
    rw [restrict_field_eq] at h
    split at h
    · rename_i hkept
      cases h
      exact .inl ⟨f, cs, rfl, hkept.1, hkept.2, rfl⟩
    · cases h
  | fragment f cs =>
    rw [restrict_fragment] at h
    split at h
    · cases h
    · rename_i hkept
      cases h
      exact .inr ⟨f, cs, rfl, fun hnil => hkept (List.isEmpty_iff.mpr hnil), rfl⟩

theorem leaf_chains_field (head : Field) (child : Node) (others : List Node) :
    leafChains (.field head (child :: others)) =
      (listLeafChains (child :: others)).map (.field head (child :: others) :: ·) := by
  rw [leafChains]
  rfl

theorem heads_of_cons (node : Node) (chains : List (List Node)) :
    (chains.map (node :: ·)).map (·.map head) =
      (chains.map (·.map head)).map (node.head :: ·) := by
  simp [Function.comp_def]

theorem filter_of_cons {keep : FieldTest} {node : Node} (hn : passes keep node = true)
    (chains : List (List Node)) :
    (chains.map (node :: ·)).filter (·.all (passes keep)) =
      (chains.filter (·.all (passes keep))).map (node :: ·) := by
  simp [List.filter_map, Function.comp_def, hn]

theorem filter_of_cons_failing {keep : FieldTest} {node : Node} (hn : passes keep node = false)
    (chains : List (List Node)) :
    (chains.map (node :: ·)).filter (·.all (passes keep)) = [] := by
  simp [hn]

mutual

theorem leaf_chains_restrict (keep : FieldTest) : ∀ node : Node,
    (listLeafChains (node.restrict keep).toList).map (·.map head) =
      (node.leafChains.filter (·.all (passes keep))).map (·.map head)
  | .field head [] => by
    cases hk : keep head [] <;> simp [restrict, hk, listLeafChains, leafChains, passes]
  | .field head (child :: others) => by
    have ih := leaf_chains_restrictList keep (child :: others)
    rw [restrict_field, leaf_chains_field]
    cases hk : keep head (child :: others) with
    | false =>
      rw [filter_of_cons_failing (by simpa [passes] using hk)]
      rfl
    | true =>
      rw [filter_of_cons (by simpa [passes] using hk), heads_of_cons, ← ih]
      cases restrictList keep (child :: others) with
      | nil => rfl
      | cons kept more => simp [listLeafChains, leafChains, Node.head, Function.comp_def]
  | .fragment head children => by
    have ih := leaf_chains_restrictList keep children
    have hp : passes keep (.fragment head children) = true := rfl
    rw [restrict_fragment, leafChains, filter_of_cons hp, heads_of_cons, ← ih]
    cases restrictList keep children with
    | nil => rfl
    | cons kept more => simp [listLeafChains, leafChains, Node.head, Function.comp_def]

/-- The leaf chains of a restriction are, in order, those on which every field passes. -/
theorem leaf_chains_restrictList (keep : FieldTest) : ∀ ns : List Node,
    (listLeafChains (restrictList keep ns)).map (·.map head) =
      ((listLeafChains ns).filter (·.all (passes keep))).map (·.map head)
  | [] => rfl
  | node :: rest => by
    rw [restrictList_cons, listLeafChains_append, listLeafChains, List.filter_append,
      List.map_append, List.map_append, leaf_chains_restrict keep node,
      leaf_chains_restrictList keep rest]

end

theorem leaf_chains_of_restricted {keep : FieldTest} {n m : Node} (h : n.restrict keep = some m) :
    m.leafChains ≠ [] := by
  induction n using Node.nested generalizing m with
  | field f cs ih =>
    obtain ⟨_, _, he, -, -, rfl⟩ | ⟨_, _, he, -, -⟩ := restrict_some h
    · cases he
      cases hkept : restrictList keep cs with
      | nil => simp [leafChains]
      | cons k ks =>
        obtain ⟨n, hn, hk⟩ := mem_restrictList (hkept ▸ List.mem_cons_self)
        simp [leafChains, listLeafChains, ih n hn hk]
    · cases he
  | fragment f cs ih =>
    obtain ⟨_, _, he, -, -, -⟩ | ⟨_, _, he, hne, rfl⟩ := restrict_some h
    · cases he
    · cases he
      obtain ⟨k, ks, hkept⟩ := List.exists_cons_of_ne_nil hne
      obtain ⟨n, hn, hk⟩ := mem_restrictList (hkept ▸ List.mem_cons_self)
      simp [leafChains, listLeafChains, hkept, ih n hn hk]

theorem fields_restrict_pass {keep : FieldTest} (hs : keep.ShapeOnly) {n m : Node}
    (h : n.restrict keep = some m) {f : Field × List Node} (hf : f ∈ m.fields) :
    keep f.1 f.2 = true := by
  induction n using Node.nested generalizing m with
  | field head cs ih =>
    obtain ⟨_, _, he, hk, hnil, rfl⟩ | ⟨_, _, he, -, -⟩ := restrict_some h
    · cases he
      rcases List.mem_cons.mp hf with rfl | hf
      -- The test was made with the selections that stood below the field.
      · have hshape : (restrictList keep cs).isEmpty = cs.isEmpty := by
          cases cs with
          | nil => rfl
          | cons c cs => simpa using fun he => List.cons_ne_nil c cs (hnil he)
        exact (hs head (restrictList keep cs) cs hshape).trans hk
      · obtain ⟨m, hm, hf⟩ := mem_listFields.mp hf
        obtain ⟨n, hn, hm⟩ := mem_restrictList hm
        exact ih n hn hm hf
    · cases he
  | fragment head cs ih =>
    obtain ⟨_, _, he, -, -, -⟩ | ⟨_, _, he, -, rfl⟩ := restrict_some h
    · cases he
    · cases he
      obtain ⟨m, hm, hf⟩ := mem_listFields.mp hf
      obtain ⟨n, hn, hm⟩ := mem_restrictList hm
      exact ih n hn hm hf

mutual

theorem properties_nil_iff (test : FieldTest) : ∀ (node : Node) (stem : String)
    (parent type : Option String),
    node.properties test stem parent type = [] ↔ ∀ f ∈ node.fields, test f.1 f.2 = false
  | .field head children, stem, parent, type => by
    have ih := listProperties_nil_iff test children (Path.child stem head.key type)
      head.info.output none
    cases ht : test head children <;> simp [properties, fields, ht, ih]
  | .fragment head children, stem, parent, type => by
    rw [properties, fields]
    exact listProperties_nil_iff test children stem parent (markedType parent type head)

theorem listProperties_nil_iff (test : FieldTest) : ∀ (ns : List Node) (stem : String)
    (parent type : Option String),
    listProperties test stem parent type ns = [] ↔ ∀ f ∈ listFields ns, test f.1 f.2 = false
  | [], _, _, _ => by simp [listProperties, listFields]
  | node :: rest, stem, parent, type => by
    rw [listProperties, listFields, List.append_eq_nil_iff,
      properties_nil_iff test node, listProperties_nil_iff test rest]
    simp only [List.mem_append]
    exact ⟨fun h f hf => hf.elim (h.1 f) (h.2 f), fun h => ⟨fun f hf => h f (.inl hf),
      fun f hf => h f (.inr hf)⟩⟩

end

end Node

namespace Operation

theorem leaf_heads_restrict (o : Operation) (keep : FieldTest) :
    (o.restrict keep).leafHeads =
      (o.leafChains.filter (·.all (passes keep))).map (·.map head) :=
  Node.leaf_chains_restrictList keep o.nodes

/-- Something is left exactly if there is a leaf chain on which every field passes. -/
theorem isEmpty_restrict_iff (o : Operation) (keep : FieldTest) :
    (o.restrict keep).isEmpty = true ↔ ∀ chain ∈ o.leafChains, chain.all (passes keep) = false := by
  have hheads := o.leaf_heads_restrict keep
  constructor
  · intro h
    have hnone : (o.restrict keep).leafHeads = [] := by
      rw [leafHeads, leafChains, List.isEmpty_iff.mp h]
      rfl
    rw [hnone, eq_comm, List.map_eq_nil_iff, List.filter_eq_nil_iff] at hheads
    exact fun chain hc => Bool.eq_false_iff.mpr (hheads chain hc)
  · intro h
    rw [List.filter_eq_nil_iff.mpr fun chain hc => Bool.eq_false_iff.mp (h chain hc)] at hheads
    have hnone : (o.restrict keep).leafChains = [] := List.map_eq_nil_iff.mp hheads
    refine List.isEmpty_iff.mpr (List.eq_nil_iff_forall_not_mem.mpr fun m hm => ?_)
    obtain ⟨n, -, hn⟩ := Node.mem_restrictList hm
    obtain ⟨chain, hc⟩ := List.exists_mem_of_ne_nil _ (Node.leaf_chains_of_restricted hn)
    have hmem : chain ∈ (o.restrict keep).leafChains := Node.mem_listLeafChains.mpr ⟨m, hm, hc⟩
    rw [hnone] at hmem
    cases hmem

theorem fields_restrict (o : Operation) {keep : FieldTest} (hs : keep.ShapeOnly) :
    ∀ f ∈ (o.restrict keep).fields, keep f.1 f.2 = true := by
  intro f hf
  obtain ⟨m, hm, hf⟩ := Node.mem_listFields.mp hf
  obtain ⟨n, -, hm⟩ := Node.mem_restrictList hm
  exact Node.fields_restrict_pass hs hm hf

theorem paths_isEmpty_iff (o : Operation) (test : FieldTest) :
    (o.paths test).isEmpty = true ↔ ∀ f ∈ o.fields, test f.1 f.2 = false := by
  rw [List.isEmpty_iff, paths, List.map_eq_nil_iff]
  constructor
  · intro h
    apply (Node.listProperties_nil_iff test o.nodes "" (some o.root) none).mp
    cases hl : listProperties test "" (some o.root) none o.nodes with
    | nil => rfl
    | cons p ps => simp [hl, List.eraseDups_cons] at h
  · intro h
    have := (Node.listProperties_nil_iff test o.nodes "" (some o.root) none).mpr h
    simp [this]

end Operation

end QueryGate
