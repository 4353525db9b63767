import QueryGate.Proofs.Access.Reported

/-! # Paths that several fields share

A path consists of response keys and of the types that mark them, so it can be that of several
occurrences. A withheld path is still selected exactly if one of them stays. Where a path leads
through fields of the same names only, and the marks tell which types these are resolved on, the
occurrences of a path are one field of the schema, and what is withheld is no longer selected. -/
namespace QueryGate

open Node (leadsTo passes stays)

namespace FieldTest

def ByInfo (t : FieldTest) : Prop :=
  ∀ f g cs ds, f.name = g.name → f.info = g.info → t f cs = t g ds

end FieldTest

namespace AccessRules

variable {User : Type}

structure ByInfo (rules : AccessRules User) : Prop where
  authentication : ∀ t, rules.authentication = some t → t.ByInfo
  authorization : ∀ permitted, rules.authorization = some permitted → ∀ u, (permitted u).ByInfo

theorem ByInfo.forbids {rules : AccessRules User} (h : rules.ByInfo) (user : Option User) :
    (rules.forbids user).ByInfo := fun f g cs ds hname hinfo =>
  forbids_congr (fun t ht => h.authentication t ht f g cs ds hname hinfo)
    (fun permitted hp u => h.authorization permitted hp u f g cs ds hname hinfo) user

end AccessRules

namespace Node

def chainFields : List Node → List Field
  | [] => []
  | .field head _ :: rest => head :: chainFields rest
  | .fragment _ _ :: rest => chainFields rest

/-- No fragment on the type of the field around it stands inside a fragment that marks another. -/
def keepsMarks (parent type : Option String) : List Node → Bool
  | [] => true
  | .field head _ :: rest => keepsMarks head.info.output none rest
  | .fragment head _ :: rest =>
    (type.isNone || head.typeCondition.isNone || head.typeCondition != parent) &&
      keepsMarks parent (markedType parent type head) rest

/-- What a schema says about fields one below the other, each resolved on the type that marks it or
else on the output type of the field around it. -/
def infosBelow (s : Schema) : Option String → List (Option String × String) → List FieldInfo
  | _, [] => []
  | parent, (type, name) :: rest =>
    let info := s.fieldOrUnknown (type.or parent) name
    info :: infosBelow s info.output rest

def places (parent type : Option String) (chain : List Node) : List (Option String × String) :=
  ((segments parent type chain).map (·.2)).zip ((chainFields chain).map (·.name))

theorem marked_place {parent type : Option String} {f : Fragment}
    (h : (type.isNone || f.typeCondition.isNone || f.typeCondition != parent) = true) :
    f.typeCondition.or (type.or parent) = (markedType parent type f).or parent := by
  unfold markedType
  cases hcondition : f.typeCondition with
  | none => rfl
  | some t =>
    by_cases hparent : some t = parent
    · subst hparent
      cases type with
      | none => simp
      | some u => simp [hcondition] at h
    · simp [hparent]

theorem infos_eq {s : Schema} {n : Node} {parent type : Option String}
    (hn : n.Resolved s (type.or parent)) {chain : List Node} (hc : chain ∈ n.fieldChains)
    (hmarks : keepsMarks parent type chain = true) :
    (chainFields chain).map (·.info) = infosBelow s parent (places parent type chain) := by
  induction n using Node.descend generalizing parent type chain with
  | h n ih =>
    obtain ⟨f, cs, rfl, rfl⟩ | ⟨c, hmem, rest, hrest, rfl⟩ := field_chain_cases hc
    · simp [chainFields, places, segments, infosBelow, hn.2.1.info]
    · cases n with
      | field f cs =>
        have hplace : c.Resolved s ((none : Option String).or f.info.output) :=
          list_resolved_iff.mp hn.2.2 c hmem
        rw [chainFields, List.map_cons, ih c hmem hplace hrest hmarks]
        simp [chainFields, places, segments, infosBelow, ← hn.2.1.info]
      | fragment f cs =>
        obtain ⟨hmark, hmarks⟩ : _ ∧ _ := by simpa only [keepsMarks, Bool.and_eq_true] using hmarks
        have hplace := list_resolved_iff.mp hn.2.2 c hmem
        rw [marked_place hmark] at hplace
        exact ih c hmem hplace hrest hmarks

theorem last_field {n : Node} {chain : List Node} (hc : chain ∈ n.fieldChains) :
    ∃ f cs, chain.getLast? = some (.field f cs) ∧ (chainFields chain).getLast? = some f := by
  induction n using Node.descend generalizing chain with
  | h n ih =>
    obtain ⟨f, cs, rfl, rfl⟩ | ⟨c, hmem, rest, hrest, rfl⟩ := field_chain_cases hc
    · exact ⟨f, cs, rfl, rfl⟩
    · obtain ⟨f, cs, hlast, hfield⟩ := ih c hmem hrest
      refine ⟨f, cs, ?_, ?_⟩
      · rw [List.getLast?_cons_of_ne_nil (field_chain_ne_nil hrest), hlast]
      · cases n with
        | field g ds =>
          have hne : chainFields rest ≠ [] := by
            intro hnil
            simp [hnil] at hfield
          rw [chainFields, List.getLast?_cons_of_ne_nil hne, hfield]
        | fragment g ds => exact hfield

theorem property_of_heads {as bs : List Node} (h : as.map head = bs.map head) (stem : String)
    (parent type : Option String) : property stem parent type as = property stem parent type bs := by
  induction as generalizing bs stem parent type with
  | nil =>
    rw [List.map_eq_nil_iff.mp h.symm]
  | cons a as ih =>
    cases bs with
    | nil => cases h
    | cons b bs =>
      obtain ⟨hhead, htail⟩ := List.cons.inj h
      cases a with
      | field f cs =>
        cases b with
        | field g ds =>
          cases hhead
          exact ih htail _ _ _
        | fragment g ds => cases hhead
      | fragment f cs =>
        cases b with
        | field g ds => cases hhead
        | fragment g ds =>
          cases hhead
          exact ih htail _ _ _

end Node

namespace Operation

/-- Occurrences with one path are reached through fields of the same names. -/
def NamesFollowPaths (o : Operation) : Prop :=
  ∀ a ∈ o.fieldChains, ∀ b ∈ o.fieldChains, o.pathTo a = o.pathTo b →
    (Node.chainFields a).map (·.name) = (Node.chainFields b).map (·.name)

def KeepsMarks (o : Operation) : Prop :=
  ∀ chain ∈ o.fieldChains, Node.keepsMarks (some o.root) none chain = true

theorem infos_of_pathTo {s : Schema} {o : Operation} (h : o.Resolved s)
    (hnames : o.NamesFollowPaths) (hmarks : o.KeepsMarks) {a b : List Node}
    (ha : a ∈ o.fieldChains) (hb : b ∈ o.fieldChains) (hpath : o.pathTo a = o.pathTo b) :
    (Node.chainFields a).map (·.info) = (Node.chainFields b).map (·.info) := by
  have hinfos : ∀ chain ∈ o.fieldChains, (Node.chainFields chain).map (·.info) =
      Node.infosBelow s (some o.root) (Node.places (some o.root) none chain) := by
    intro chain hc
    obtain ⟨n, hn, hchain⟩ := Node.mem_listFieldChains.mp hc
    exact Node.infos_eq (Node.list_resolved_iff.mp h.nodes n hn) hchain (hmarks chain hc)
  rw [hinfos a ha, hinfos b hb, Node.places, Node.places, ← segments_pathTo h.hasNames ha,
    ← segments_pathTo h.hasNames hb, hpath, hnames a ha b hb hpath]

/-- A test that looks at names and at the schema answers the same for all occurrences of a path. -/
theorem leadsTo_of_pathTo {s : Schema} {o : Operation} (h : o.Resolved s)
    (hnames : o.NamesFollowPaths) (hmarks : o.KeepsMarks) {test : FieldTest} (ht : test.ByInfo)
    {a b : List Node} (ha : a ∈ o.fieldChains) (hb : b ∈ o.fieldChains)
    (hpath : o.pathTo a = o.pathTo b) : leadsTo test a = leadsTo test b := by
  obtain ⟨_, -, hchain⟩ := Node.mem_listFieldChains.mp ha
  obtain ⟨f, cs, hlast, hf⟩ := Node.last_field hchain
  obtain ⟨_, -, hchain⟩ := Node.mem_listFieldChains.mp hb
  obtain ⟨g, ds, hother, hg⟩ := Node.last_field hchain
  have hname := congrArg List.getLast? (hnames a ha b hb hpath)
  have hinfo := congrArg List.getLast? (infos_of_pathTo h hnames hmarks ha hb hpath)
  simp only [List.getLast?_map, hf, hg, Option.map_some, Option.some.injEq] at hname hinfo
  simp [leadsTo, hlast, hother, passes, ht f g cs ds hname hinfo]

theorem pathTo_restrict {o : Operation} {keep : FieldTest} {p : Path} :
    (∃ chain ∈ (o.restrict keep).fieldChains, (o.restrict keep).pathTo chain = p) ↔
      ∃ chain ∈ o.fieldChains, stays keep chain = true ∧ o.pathTo chain = p := by
  have hheads := o.field_heads_restrict keep
  have hsame : ∀ {a b : List Node}, a.map Node.head = b.map Node.head →
      (o.restrict keep).pathTo a = o.pathTo b := fun h =>
    congrArg Path.mk (Node.property_of_heads h _ _ _)
  constructor
  · rintro ⟨chain, hc, rfl⟩
    have hmem : chain.map Node.head ∈ (o.restrict keep).fieldHeads := List.mem_map_of_mem hc
    rw [hheads] at hmem
    obtain ⟨kept, hkept, he⟩ := List.mem_map.mp hmem
    obtain ⟨hkept, hstays⟩ := List.mem_filter.mp hkept
    exact ⟨kept, hkept, hstays, (hsame he.symm).symm⟩
  · rintro ⟨kept, hkept, hstays, rfl⟩
    have hmem : kept.map Node.head ∈ (o.restrict keep).fieldHeads := by
      rw [hheads]
      exact List.mem_map_of_mem (List.mem_filter.mpr ⟨hkept, hstays⟩)
    obtain ⟨chain, hc, he⟩ := List.mem_map.mp hmem
    exact ⟨chain, hc, hsame he⟩

end Operation

namespace AccessRules

variable {User : Type} {rules : AccessRules User} {o rest : Operation} {user : Option User}
  {partialAccess : Bool} {withheld : List Path}

/-- A withheld path is still selected exactly if some other occurrence of it stays. This does not
happen if the rules look at names and at the schema only, the occurrences of a path are reached
through fields of the same names, and the marks of a path tell the types of its fields. -/
theorem withheld_path_is_selected_iff {text : String} {name : Option String} {s : Schema}
    {options : ExpandOptions} (hread : Operation.read text name s options = .ok o)
    (h : rules.decide o (rules.restrictedPaths o) user partialAccess = .filtered rest withheld) :
    (∀ p ∈ withheld, (∃ chain ∈ rest.fieldChains, rest.pathTo chain = p) ↔
      ∃ gone ∈ o.fieldChains, ∃ kept ∈ o.fieldChains,
        o.pathTo gone = p ∧ o.pathTo kept = p ∧ leadsTo (rules.forbids user) gone = true ∧
          stays (rules.forbids user).negate kept = true) ∧
      (rules.ByInfo → o.NamesFollowPaths → o.KeepsMarks →
        ∀ p ∈ withheld, ∀ chain ∈ rest.fieldChains, rest.pathTo chain ≠ p) := by
  obtain ⟨rfl, rfl⟩ := filtered_eq h
  have hselected : ∀ p ∈ o.paths (rules.forbids user),
      (∃ chain ∈ (o.restrict (rules.forbids user).negate).fieldChains,
        (o.restrict (rules.forbids user).negate).pathTo chain = p) ↔
      ∃ gone ∈ o.fieldChains, ∃ kept ∈ o.fieldChains,
        o.pathTo gone = p ∧ o.pathTo kept = p ∧ leadsTo (rules.forbids user) gone = true ∧
          stays (rules.forbids user).negate kept = true := by
    intro p hp
    rw [Operation.pathTo_restrict]
    constructor
    · rintro ⟨kept, hkept, hstays, hpath⟩
      obtain ⟨gone, hgone, hforbidden, hgonePath⟩ := Operation.mem_paths.mp hp
      exact ⟨gone, hgone, kept, hkept, hgonePath, hpath, hforbidden, hstays⟩
    · rintro ⟨_, -, kept, hkept, -, hpath, -, hstays⟩
      exact ⟨kept, hkept, hstays, hpath⟩
  refine ⟨hselected, fun hrules hnames hmarks p hp chain hc hpath => ?_⟩
  obtain ⟨gone, hgone, kept, hkept, hgonePath, hkeptPath, hforbidden, hstays⟩ :=
    (hselected p hp).mp ⟨chain, hc, hpath⟩
  -- Both occurrences are one field of the schema, so the kept one would be forbidden as well.
  rw [Operation.leadsTo_of_pathTo (Operation.read_from hread).1.resolved hnames hmarks
    (hrules.forbids user) hgone hkept (hgonePath.trans hkeptPath.symm)] at hforbidden
  obtain ⟨_, -, hchain⟩ := Node.mem_listFieldChains.mp hkept
  rw [Node.failing_not_stays hchain (by rwa [FieldTest.negate_negate])] at hstays
  cases hstays

def partsText : String :=
  "\x7b article \x7b title body ...Parts \x7d \x7d fragment Parts on Article \x7b body title \x7d"

theorem withheld_body_is_not_selected :
    ∃ o rest, Operation.read partsText none Operation.articles .standard = .ok o ∧
      authenticatedOnly.decide o (authenticatedOnly.restrictedPaths o) none true =
        .filtered rest [⟨"article.body"⟩] ∧
      authenticatedOnly.ByInfo ∧ o.NamesFollowPaths ∧ o.KeepsMarks ∧
      rest.text = "\x7barticle\x7btitle ...on Article\x7btitle\x7d\x7d\x7d" ∧
      ∀ chain ∈ rest.fieldChains, rest.pathTo chain ≠ ⟨"article.body"⟩ := by
  have hchecked : (Operation.read partsText none Operation.articles .standard).toOption.any (fun o =>
      let rest := o.restrict (authenticatedOnly.forbids none).negate
      authenticatedOnly.decide o (authenticatedOnly.restrictedPaths o) none true ==
          .filtered rest [⟨"article.body"⟩] &&
        (o.fieldChains.all fun a => o.fieldChains.all fun b => o.pathTo a != o.pathTo b ||
          (Node.chainFields a).map (·.name) == (Node.chainFields b).map (·.name)) &&
        o.fieldChains.all (Node.keepsMarks (some o.root) none) &&
        rest.text == "\x7barticle\x7btitle ...on Article\x7btitle\x7d\x7d\x7d") = true := by
    decide +kernel
  obtain ⟨o, ho, hchecked⟩ := exists_ok_of_any hchecked
  simp only [Bool.and_eq_true, Bool.or_eq_true, beq_iff_eq, bne_iff_ne, List.all_eq_true]
    at hchecked
  obtain ⟨⟨⟨hverdict, hnames⟩, hmarks⟩, htext⟩ := hchecked
  have hrules : authenticatedOnly.ByInfo := by
    refine ⟨?_, by rintro _ ⟨⟩⟩
    rintro _ ⟨⟩ f g cs ds _ hinfo
    exact congrArg (FieldInfo.isAnnotated · "authenticated") hinfo
  have hfollow : o.NamesFollowPaths := fun a ha b hb hpath =>
    (hnames a ha b hb).resolve_left fun hne => hne hpath
  have hgone := (withheld_path_is_selected_iff ho hverdict).2 hrules hfollow hmarks _
    (List.mem_singleton.mpr rfl)
  exact ⟨o, _, ho, hverdict, hrules, hfollow, hmarks, htext, hgone⟩

def sharedKeyText : String := "\x7b article \x7b title text: title text: body \x7d \x7d"

/-- The body is withheld at a path at which the title is still selected. -/
theorem withheld_path_is_still_selected :
    ∃ o rest, Operation.read sharedKeyText none Operation.articles .standard = .ok o ∧
      authenticatedOnly.ShapeOnly ∧
      authenticatedOnly.decide o (authenticatedOnly.restrictedPaths o) none true =
        .filtered rest [⟨"article.text"⟩] ∧
      rest.text = "\x7barticle\x7btitle text:title\x7d\x7d" ∧
      ∃ chain ∈ rest.fieldChains, rest.pathTo chain = ⟨"article.text"⟩ := by
  have hchecked : (Operation.read sharedKeyText none Operation.articles .standard).toOption.any
      (fun o =>
        let rest := o.restrict (authenticatedOnly.forbids none).negate
        authenticatedOnly.decide o (authenticatedOnly.restrictedPaths o) none true ==
            .filtered rest [⟨"article.text"⟩] &&
          rest.text == "\x7barticle\x7btitle text:title\x7d\x7d" &&
          rest.fieldChains.any (rest.pathTo · == ⟨"article.text"⟩)) = true := by decide +kernel
  obtain ⟨o, ho, hchecked⟩ := exists_ok_of_any hchecked
  simp only [Bool.and_eq_true, beq_iff_eq, List.any_eq_true] at hchecked
  obtain ⟨⟨hverdict, htext⟩, hselected⟩ := hchecked
  have hshape : authenticatedOnly.ShapeOnly :=
    ⟨by rintro _ ⟨⟩ f cs ds _; rfl, by rintro _ ⟨⟩⟩
  exact ⟨o, _, ho, hshape, hverdict, htext, hselected⟩

end AccessRules

end QueryGate
