import QueryGate.Access.Restrict
import QueryGate.Proofs.Access.Restriction

/-! # Field occurrences

An operation is the list of its field occurrences in document order, each with the chain of nodes
that leads to it. The chain gives the path of an occurrence and its response keys, and it decides
whether a restriction keeps the occurrence. The nodes on a chain are nodes of the operation, and the
chains that lead to leaves are among these chains. -/
namespace QueryGate

namespace Node

mutual

def fieldChains : Node → List (List Node)
  | .field head children =>
    [.field head children] :: (listFieldChains children).map (.field head children :: ·)
  | .fragment head children => (listFieldChains children).map (.fragment head children :: ·)

def listFieldChains : List Node → List (List Node)
  | [] => []
  | node :: rest => node.fieldChains ++ listFieldChains rest

end

def children : Node → List Node
  | .field _ children => children
  | .fragment _ children => children

def leadsTo (test : FieldTest) (chain : List Node) : Bool := chain.getLast?.any (passes test)

def stays (keep : FieldTest) (chain : List Node) : Bool := chain.all fun n => (n.restrict keep).isSome

/-- The property that a chain leads to from the path of the field around it. `type` marks the fields
of the fragments in between. -/
def property (stem : String) (parent type : Option String) : List Node → String
  | [] => stem
  | .field head _ :: rest =>
    property (Path.child stem head.key type) head.info.output none rest
  | .fragment head _ :: rest => property stem parent (markedType parent type head) rest

def keys : List Node → List String
  | [] => []
  | .field head _ :: rest => head.key :: keys rest
  | .fragment _ _ :: rest => keys rest

@[elab_as_elim]
theorem descend {P : Node → Prop} (h : ∀ n, (∀ c ∈ n.children, P c) → P n) (n : Node) : P n :=
  nested (fun f cs => h (.field f cs)) (fun f cs => h (.fragment f cs)) n

theorem mem_subtrees {n m : Node} :
    m ∈ n.subtrees ↔ m = n ∨ ∃ c ∈ n.children, m ∈ c.subtrees := by
  cases n with
  | field f cs => simp [subtrees, children, mem_listSubtrees]
  | fragment f cs => simp [subtrees, children, mem_listSubtrees]

theorem mem_fields {n : Node} {f : Field × List Node} :
    f ∈ n.fields ↔ .field f.1 f.2 ∈ n.subtrees := by
  induction n using Node.nested with
  | field g ds ih =>
    have hbelow : f ∈ listFields ds ↔ .field f.1 f.2 ∈ listSubtrees ds := by
      rw [mem_listFields, mem_listSubtrees]
      exact exists_congr fun c => and_congr_right (ih c)
    have hself : f = (g, ds) ↔ Node.field f.1 f.2 = .field g ds := by
      rw [Node.field.injEq, Prod.ext_iff]
    rw [fields, subtrees, List.mem_cons, List.mem_cons, hself, hbelow]
  | fragment g ds ih =>
    rw [fields, subtrees, List.mem_cons, mem_listFields, mem_listSubtrees]
    constructor
    · rintro ⟨c, hc, hf⟩
      exact .inr ⟨c, hc, (ih c hc).mp hf⟩
    · rintro (he | ⟨c, hc, hf⟩)
      · cases he
      · exact ⟨c, hc, (ih c hc).mpr hf⟩

theorem child_of_restrict {keep : FieldTest} {n m c : Node} (h : n.restrict keep = some m)
    (hc : c ∈ m.children) : ∃ d ∈ n.children, d.restrict keep = some c := by
  obtain ⟨_, _, rfl, -, -, rfl⟩ | ⟨_, _, rfl, -, rfl⟩ := restrict_some h
  · exact mem_restrictList hc
  · exact mem_restrictList hc

theorem mem_listFieldChains {ns : List Node} {chain : List Node} :
    chain ∈ listFieldChains ns ↔ ∃ n ∈ ns, chain ∈ n.fieldChains := by
  induction ns with
  | nil => simp [listFieldChains]
  | cons n ns ih => simp [listFieldChains, ih]

theorem listFieldChains_append (as bs : List Node) :
    listFieldChains (as ++ bs) = listFieldChains as ++ listFieldChains bs := by
  induction as with
  | nil => rfl
  | cons a as ih => simp [listFieldChains, ih]

theorem field_chain_cases {n : Node} {chain : List Node} (h : chain ∈ n.fieldChains) :
    (∃ f cs, n = .field f cs ∧ chain = [n]) ∨
      ∃ c ∈ n.children, ∃ rest ∈ c.fieldChains, chain = n :: rest := by
  have hbelow : ∀ {cs : List Node}, chain ∈ (listFieldChains cs).map (n :: ·) →
      ∃ c ∈ cs, ∃ rest ∈ c.fieldChains, chain = n :: rest := by
    intro cs h
    obtain ⟨rest, hrest, rfl⟩ := List.mem_map.mp h
    obtain ⟨c, hc, hrest⟩ := mem_listFieldChains.mp hrest
    exact ⟨c, hc, rest, hrest, rfl⟩
  cases n with
  | field f cs =>
    rcases List.mem_cons.mp h with rfl | h
    · exact .inl ⟨f, cs, rfl, rfl⟩
    · exact .inr (hbelow h)
  | fragment f cs => exact .inr (hbelow h)

theorem mem_subtrees_of_field_chain {n m : Node} {chain : List Node} (h : chain ∈ n.fieldChains)
    (hm : m ∈ chain) : m ∈ n.subtrees := by
  induction n using Node.descend generalizing chain with
  | h n ih =>
    rw [mem_subtrees]
    rcases field_chain_cases h with ⟨_, _, -, rfl⟩ | ⟨c, hc, rest, hrest, rfl⟩
    · exact .inl (List.mem_singleton.mp hm)
    · rcases List.mem_cons.mp hm with he | hm
      · exact .inl he
      · exact .inr ⟨c, hc, ih c hc hrest hm⟩

theorem extended_field_chain {n c : Node} (hc : c ∈ n.children) {rest : List Node}
    (h : rest ∈ c.fieldChains) : n :: rest ∈ n.fieldChains := by
  have hmem : n :: rest ∈ (listFieldChains n.children).map (n :: ·) :=
    List.mem_map_of_mem (mem_listFieldChains.mpr ⟨c, hc, h⟩)
  cases n with
  | field f cs => exact List.mem_cons_of_mem _ hmem
  | fragment f cs => exact hmem

theorem leaf_chain_cases {n : Node} {chain : List Node} (h : chain ∈ n.leafChains) :
    (∃ f, n = .field f [] ∧ chain = [n]) ∨
      ∃ c ∈ n.children, ∃ rest ∈ c.leafChains, chain = n :: rest := by
  have hbelow : ∀ {cs : List Node}, chain ∈ (listLeafChains cs).map (n :: ·) →
      ∃ c ∈ cs, ∃ rest ∈ c.leafChains, chain = n :: rest := by
    intro cs h
    obtain ⟨rest, hrest, rfl⟩ := List.mem_map.mp h
    obtain ⟨c, hc, hrest⟩ := mem_listLeafChains.mp hrest
    exact ⟨c, hc, rest, hrest, rfl⟩
  cases n with
  | field f cs =>
    cases cs with
    | nil => exact .inl ⟨f, rfl, by simpa [leafChains] using h⟩
    | cons c cs =>
      rw [leaf_chains_field] at h
      exact .inr (hbelow h)
  | fragment f cs => exact .inr (hbelow h)

theorem extended_leaf_chain {n c : Node} (hc : c ∈ n.children) {chain : List Node}
    (h : chain ∈ c.leafChains) : n :: chain ∈ n.leafChains := by
  have hmem : n :: chain ∈ (listLeafChains n.children).map (n :: ·) :=
    List.mem_map_of_mem (mem_listLeafChains.mpr ⟨c, hc, h⟩)
  cases n with
  | field f cs =>
    cases cs with
    | nil => cases hc
    | cons d ds =>
      rw [leaf_chains_field]
      exact hmem
  | fragment f cs => exact hmem

theorem self_on_leaf_chain {n : Node} {chain : List Node} (h : chain ∈ n.leafChains) :
    n ∈ chain := by
  obtain ⟨_, -, rfl⟩ | ⟨_, -, rest, -, rfl⟩ := leaf_chain_cases h
  · exact List.mem_singleton.mpr rfl
  · exact List.mem_cons_self

theorem field_chain_of_leaf_chain {n : Node} {chain : List Node} (h : chain ∈ n.leafChains) :
    chain ∈ n.fieldChains := by
  induction n using Node.descend generalizing chain with
  | h n ih =>
    rcases leaf_chain_cases h with ⟨f, rfl, rfl⟩ | ⟨c, hc, rest, hrest, rfl⟩
    · exact List.mem_cons_self
    · exact extended_field_chain hc (ih c hc hrest)

theorem head_of_field_chain {n : Node} {chain : List Node} (h : chain ∈ n.fieldChains) :
    ∃ rest, chain = n :: rest := by
  obtain ⟨_, _, -, rfl⟩ | ⟨_, -, rest, -, rfl⟩ := field_chain_cases h
  · exact ⟨[], rfl⟩
  · exact ⟨rest, rfl⟩

theorem keys_ne_nil {n : Node} {chain : List Node} (h : chain ∈ n.fieldChains) :
    keys chain ≠ [] := by
  induction n using Node.descend generalizing chain with
  | h n ih =>
    obtain ⟨f, cs, rfl, rfl⟩ | ⟨c, hc, rest, hrest, rfl⟩ := field_chain_cases h
    · exact List.cons_ne_nil _ _
    · cases n with
      | field f cs => exact List.cons_ne_nil _ _
      | fragment f cs =>
        rw [keys]
        exact ih c hc hrest

theorem field_chain_ne_nil {n : Node} {chain : List Node} (h : chain ∈ n.fieldChains) :
    chain ≠ [] := by
  obtain ⟨rest, rfl⟩ := head_of_field_chain h
  exact List.cons_ne_nil n rest

theorem leadsTo_cons {chain : List Node} (h : chain ≠ []) (test : FieldTest) (n : Node) :
    leadsTo test (n :: chain) = leadsTo test chain := by
  rw [leadsTo, leadsTo, List.getLast?_cons_of_ne_nil h]

theorem filter_leadsTo_cons (test : FieldTest) (n : Node) (ns : List Node) :
    ((listFieldChains ns).map (n :: ·)).filter (leadsTo test) =
      ((listFieldChains ns).filter (leadsTo test)).map (n :: ·) := by
  rw [List.filter_map]
  congr 1
  refine List.filter_congr fun chain hchain => ?_
  obtain ⟨c, -, hchain⟩ := mem_listFieldChains.mp hchain
  exact leadsTo_cons (field_chain_ne_nil hchain) test n

theorem filter_stays_cons {keep : FieldTest} {n : Node} (h : (n.restrict keep).isSome = true)
    (chains : List (List Node)) :
    (chains.map (n :: ·)).filter (stays keep) = (chains.filter (stays keep)).map (n :: ·) := by
  rw [List.filter_map]
  congr 1
  exact List.filter_congr fun chain _ => by simp [stays, h]

mutual

theorem properties_eq (test : FieldTest) : ∀ (n : Node) (stem : String)
    (parent type : Option String),
    n.properties test stem parent type =
      (n.fieldChains.filter (leadsTo test)).map (property stem parent type)
  | .field head children, stem, parent, type => by
    have ih := listProperties_eq test children (Path.child stem head.key type) head.info.output none
    have hself : leadsTo test [.field head children] = test head children := rfl
    rw [properties, fieldChains, List.filter_cons, hself, filter_leadsTo_cons, ih]
    cases test head children <;> simp [property, Function.comp_def]
  | .fragment head children, stem, parent, type => by
    have ih := listProperties_eq test children stem parent (markedType parent type head)
    rw [properties, fieldChains, filter_leadsTo_cons, ih]
    simp [property, Function.comp_def]

/-- The properties that are collected are those of the occurrences that pass the test. -/
theorem listProperties_eq (test : FieldTest) : ∀ (ns : List Node) (stem : String)
    (parent type : Option String),
    listProperties test stem parent type ns =
      ((listFieldChains ns).filter (leadsTo test)).map (property stem parent type)
  | [], _, _, _ => rfl
  | n :: ns, stem, parent, type => by
    rw [listProperties, listFieldChains, List.filter_append, List.map_append,
      properties_eq test n, listProperties_eq test ns]

end

theorem stays_none {keep : FieldTest} {n : Node} (h : n.restrict keep = none) :
    n.fieldChains.filter (stays keep) = [] := by
  refine List.filter_eq_nil_iff.mpr fun chain hchain => ?_
  obtain ⟨rest, rfl⟩ := head_of_field_chain hchain
  simp [stays, h]

mutual

theorem field_chains_restrict (keep : FieldTest) : ∀ n : Node,
    (listFieldChains (n.restrict keep).toList).map (·.map head) =
      (n.fieldChains.filter (stays keep)).map (·.map head)
  | .field f cs => by
    have ih := field_chains_restrictList keep cs
    cases hr : (Node.field f cs).restrict keep with
    | none => rw [stays_none hr]; rfl
    | some m =>
      have hsome : ((Node.field f cs).restrict keep).isSome = true := by rw [hr]; rfl
      have hself : stays keep [.field f cs] = true := by simp [stays, hsome]
      obtain ⟨_, _, he, -, -, rfl⟩ | ⟨_, _, he, -, -⟩ := restrict_some hr
      · cases he
        rw [fieldChains, List.filter_cons_of_pos hself, filter_stays_cons hsome, List.map_cons,
          heads_of_cons, ← ih]
        simp [listFieldChains, fieldChains, head, Function.comp_def]
      · cases he
  | .fragment f cs => by
    have ih := field_chains_restrictList keep cs
    cases hr : (Node.fragment f cs).restrict keep with
    | none => rw [stays_none hr]; rfl
    | some m =>
      have hsome : ((Node.fragment f cs).restrict keep).isSome = true := by rw [hr]; rfl
      obtain ⟨_, _, he, -, -, -⟩ | ⟨_, _, he, -, rfl⟩ := restrict_some hr
      · cases he
      · cases he
        rw [fieldChains, filter_stays_cons hsome, heads_of_cons, ← ih]
        simp [listFieldChains, fieldChains, head, Function.comp_def]

/-- The occurrences in a restriction are, in order, those that stay. -/
theorem field_chains_restrictList (keep : FieldTest) : ∀ ns : List Node,
    (listFieldChains (restrictList keep ns)).map (·.map head) =
      ((listFieldChains ns).filter (stays keep)).map (·.map head)
  | [] => rfl
  | n :: ns => by
    rw [restrictList_cons, listFieldChains_append, listFieldChains, List.filter_append,
      List.map_append, List.map_append, field_chains_restrict keep n,
      field_chains_restrictList keep ns]

end

end Node

namespace Operation

def fieldChains (o : Operation) : List (List Node) := Node.listFieldChains o.nodes

def fieldHeads (o : Operation) : List (List Node.Head) := o.fieldChains.map (·.map Node.head)

def pathTo (o : Operation) (chain : List Node) : Path :=
  ⟨Node.property "" (some o.root) none chain⟩

/-- The paths of the occurrences that pass a test, in document order and each once. -/
def occurrencePaths (o : Operation) (test : FieldTest) : List Path :=
  ((o.fieldChains.filter (Node.leadsTo test)).map o.pathTo).eraseDups

theorem field_heads_restrict (o : Operation) (keep : FieldTest) :
    (o.restrict keep).fieldHeads =
      (o.fieldChains.filter (Node.stays keep)).map (·.map Node.head) :=
  Node.field_chains_restrictList keep o.nodes

theorem eraseDups_paths (properties : List String) :
    (properties.map Path.mk).eraseDups = properties.eraseDups.map Path.mk := by
  match properties with
  | [] => rfl
  | p :: ps =>
    have hsame : (fun q : Path => !q == Path.mk p) ∘ Path.mk = fun q => !q == p := by
      funext q
      exact congrArg not (Bool.eq_iff_iff.mpr (by simp))
    rw [List.map_cons, List.eraseDups_cons, List.eraseDups_cons, List.filter_map, hsame,
      eraseDups_paths (ps.filter fun q => !q == p), List.map_cons]
termination_by properties.length
decreasing_by
  have hle := List.length_filter_le (fun q => !q == p) ps
  simp only [List.length_cons]
  omega

theorem nodup_eraseDups (properties : List String) : properties.eraseDups.Nodup := by
  match properties with
  | [] => exact List.Pairwise.nil
  | p :: ps =>
    rw [List.eraseDups_cons, List.nodup_cons]
    exact ⟨by simp, nodup_eraseDups (ps.filter fun q => !q == p)⟩
termination_by properties.length
decreasing_by
  have hle := List.length_filter_le (fun q => !q == p) ps
  simp only [List.length_cons]
  omega

theorem nodup_paths (o : Operation) (test : FieldTest) : (o.paths test).Nodup := by
  have hinj : ∀ p q : String, Path.mk p = Path.mk q → p = q := fun _ _ h => congrArg Path.property h
  exact List.Pairwise.map Path.mk (fun p q hne he => hne (hinj p q he)) (nodup_eraseDups _)

theorem paths_eq (o : Operation) (test : FieldTest) : o.paths test = o.occurrencePaths test := by
  rw [paths, Node.listProperties_eq, ← eraseDups_paths, List.map_map]
  rfl

theorem mem_paths {o : Operation} {test : FieldTest} {p : Path} :
    p ∈ o.paths test ↔
      ∃ chain ∈ o.fieldChains, Node.leadsTo test chain = true ∧ o.pathTo chain = p := by
  simp [paths_eq, occurrencePaths, and_assoc]

end Operation

end QueryGate
