import QueryGate.Proofs.Access.Exactness
import QueryGate.Proofs.Access.Paths
import QueryGate.Proofs.Completion
import QueryGate.Proofs.Operation.RoundTrip

/-! # What becomes of withheld fields

A field that a restriction removes is forbidden or has a forbidden field below it, so the path of
either is withheld. Filling in nulls along the withheld paths therefore gives every removed field
back as a null, and changes nothing else in the response. -/
namespace QueryGate

open Node (leadsTo passes restrictList stays)

namespace Node

theorem restrictList_nil {keep : FieldTest} {ns : List Node} (h : restrictList keep ns = []) :
    ∀ n ∈ ns, n.restrict keep = none := by
  rw [restrictList_eq] at h
  exact List.filterMap_eq_nil_iff.mp h

/-- A node that passes and is removed nevertheless has lost everything below it. -/
theorem restrict_none {keep : FieldTest} {n : Node} (h : n.restrict keep = none)
    (hp : passes keep n = true) : ∀ c ∈ n.children, c.restrict keep = none := by
  cases n with
  | field f cs =>
    cases cs with
    | nil => exact fun c hc => nomatch hc
    | cons c cs =>
      have hp : keep f (c :: cs) = true := hp
      rw [restrict_field, if_pos hp] at h
      split_ifs at h with hempty
      exact restrictList_nil (List.isEmpty_iff.mp hempty)
  | fragment f cs =>
    rw [restrict_fragment] at h
    split_ifs at h with hempty
    exact restrictList_nil (List.isEmpty_iff.mp hempty)

/-- Below a removed node, or at it, some field fails. -/
theorem failing_below {s : Schema} {keep : FieldTest} {n : Node} {parent : Option String}
    (hn : n.Resolved s parent) (h : n.restrict keep = none) :
    ∃ chain ∈ n.fieldChains, leadsTo keep.negate chain = true := by
  induction n using Node.descend generalizing parent with
  | h n ih =>
    have hbelow : passes keep n = true → ∀ c ∈ n.children,
        ∃ chain ∈ n.fieldChains, leadsTo keep.negate chain = true := by
      intro hp c hc
      obtain ⟨type, hresolved⟩ := hn.below c hc
      obtain ⟨chain, hchain, hfails⟩ := ih c hc hresolved (restrict_none h hp c hc)
      refine ⟨n :: chain, extended_field_chain hc hchain, ?_⟩
      obtain ⟨rest, rfl⟩ := head_of_field_chain hchain
      rwa [leadsTo_cons (List.cons_ne_nil c rest)]
    cases n with
    | field f cs =>
      cases hk : keep f cs with
      | false =>
        refine ⟨[.field f cs], List.mem_cons_self, ?_⟩
        simp [leadsTo, passes, FieldTest.negate, hk]
      | true =>
        cases cs with
        | nil =>
          rw [restrict, if_pos hk] at h
          cases h
        | cons c cs => exact hbelow hk c List.mem_cons_self
    | fragment f cs =>
      obtain ⟨c, cs, rfl⟩ := List.exists_cons_of_ne_nil hn.2.1
      exact hbelow rfl c List.mem_cons_self

/-- If all nodes above a removed occurrence pass, nothing of its own field is left. -/
theorem restrict_none_of_not_stays {keep : FieldTest} {n m : Node} {above : List Node}
    (hc : above ++ [m] ∈ n.fieldChains) (h : stays keep (above ++ [m]) = false)
    (hp : above.all (passes keep) = true) : m.restrict keep = none := by
  induction n using Node.descend generalizing above with
  | h n ih =>
    obtain ⟨f, cs, rfl, he⟩ | ⟨c, hmem, rest, hrest, he⟩ := field_chain_cases hc
    · obtain ⟨rfl, rfl⟩ : above = [] ∧ m = .field f cs := by
        cases above with
        | nil => exact ⟨rfl, by simpa using he⟩
        | cons a above => simp at he
      simpa [stays] using h
    · cases above with
      | nil =>
        obtain ⟨-, rfl⟩ := List.cons.inj he
        exact absurd rfl (field_chain_ne_nil hrest)
      | cons a above =>
        obtain ⟨rfl, rfl⟩ := List.cons.inj he
        obtain ⟨hpass, habove⟩ : passes keep a = true ∧ above.all (passes keep) = true := by
          simpa using hp
        refine ih c hmem hrest ?_ habove
        cases hr : a.restrict keep with
        | some _ => simpa [stays, hr] using h
        | none =>
          obtain ⟨rest, hhead⟩ := head_of_field_chain hrest
          change stays keep (above.append [m]) = false
          rw [hhead]
          simp [stays, restrict_none hr hpass c hmem]

theorem extended_at_end {n m : Node} {above below : List Node} (h : above ++ [m] ∈ n.fieldChains)
    (hbelow : below ∈ m.fieldChains) : above ++ below ∈ n.fieldChains := by
  induction above generalizing n with
  | nil =>
    obtain ⟨rest, he⟩ := head_of_field_chain h
    obtain ⟨rfl, -⟩ := List.cons.inj he
    exact hbelow
  | cons a above ih =>
    obtain ⟨_, _, rfl, he⟩ | ⟨c, hmem, rest, hrest, he⟩ := field_chain_cases h
    · simp at he
    · obtain ⟨rfl, rfl⟩ := List.cons.inj he
      exact extended_field_chain hmem (ih hrest)

theorem leadsTo_append (test : FieldTest) (as : List Node) {bs : List Node} (h : bs ≠ []) :
    leadsTo test (as ++ bs) = leadsTo test bs := by
  induction as with
  | nil => rfl
  | cons a as ih => rw [List.cons_append, leadsTo_cons (by simp [h]), ih]

theorem keys_append (as bs : List Node) : keys (as ++ bs) = keys as ++ keys bs := by
  induction as with
  | nil => rfl
  | cons a as ih => cases a <;> simp [keys, ih]

end Node

namespace AccessRules

variable {User : Type} {rules : AccessRules User} {o rest : Operation} {user : Option User}
  {partialAccess : Bool} {withheld : List Path}

/-- A verdict that withholds something keeps what is not forbidden and withholds the paths of what
is. -/
theorem filtered_eq
    (h : rules.decide o (rules.restrictedPaths o) user partialAccess = .filtered rest withheld) :
    rest = o.restrict (rules.forbids user).negate ∧ withheld = o.paths (rules.forbids user) := by
  rw [decide_eq] at h
  split_ifs at h
  cases h
  exact ⟨rfl, rfl⟩

theorem withheld_ne_nil
    (h : rules.decide o (rules.restrictedPaths o) user partialAccess = .filtered rest withheld) :
    withheld ≠ [] := by
  rw [decide_eq] at h
  split_ifs at h with hu hg
  cases h
  exact fun hnil => hg (List.isEmpty_iff.mpr hnil)

theorem withheld_at_or_below {s : Schema} (ho : o.Resolved s) {chain : List Node}
    (hc : chain ∈ o.fieldChains) (hgone : stays (rules.forbids user).negate chain = false)
    (habove : chain.dropLast.all (passes (rules.forbids user).negate) = true) :
    ∃ p ∈ o.paths (rules.forbids user), Node.keys chain <+: p.keys := by
  obtain ⟨n, hn, hchain⟩ := Node.mem_listFieldChains.mp hc
  obtain ⟨above, m, rfl⟩ : ∃ above m, chain = above ++ [m] :=
    ⟨_, _, (List.dropLast_concat_getLast (Node.field_chain_ne_nil hchain)).symm⟩
  rw [List.dropLast_concat] at habove
  have hlast : m ∈ n.subtrees :=
    Node.mem_subtrees_of_field_chain hchain (List.mem_append_right above List.mem_cons_self)
  obtain ⟨type, hm⟩ := (Node.list_resolved_iff.mp ho.nodes n hn).of_mem_subtrees hlast
  obtain ⟨below, hbelow, hforbidden⟩ :=
    Node.failing_below hm (Node.restrict_none_of_not_stays hchain hgone habove)
  rw [FieldTest.negate_negate] at hforbidden
  have hwhole : above ++ below ∈ o.fieldChains :=
    Node.mem_listFieldChains.mpr ⟨n, hn, Node.extended_at_end hchain hbelow⟩
  refine ⟨o.pathTo (above ++ below), Operation.mem_paths.mpr ⟨_, hwhole, ?_, rfl⟩, ?_⟩
  · rwa [Node.leadsTo_append _ above (Node.field_chain_ne_nil hbelow)]
  · obtain ⟨rest, rfl⟩ := Node.head_of_field_chain hbelow
    rw [Operation.keys_pathTo ho.hasNames hwhole, List.append_cons above m rest,
      Node.keys_append _ rest]
    exact List.prefix_append _ _

/-- A restriction leaves the occurrences that stay, in order. Filling in nulls adds null members to
the data and nothing else, and it gives every removed field without a forbidden field around it its
key in each object that the keys before it lead to. -/
theorem removed_fields_become_null {text : String} {name : Option String} {s : Schema}
    {options : ExpandOptions} (hread : Operation.read text name s options = .ok o)
    (h : rules.decide o (rules.restrictedPaths o) user partialAccess = .filtered rest withheld)
    (data : Json) :
    rest.fieldHeads =
        (o.fieldChains.filter (stays (rules.forbids user).negate)).map (·.map Node.head) ∧
      Json.Widens data (Json.fillNulls withheld data) ∧
      ∀ chain ∈ o.fieldChains, stays (rules.forbids user).negate chain = false →
        chain.dropLast.all (passes (rules.forbids user).negate) = true →
        Json.HasKeys (Node.keys chain) (Json.fillNulls withheld data) := by
  obtain ⟨rfl, rfl⟩ := filtered_eq h
  rw [Json.fillNulls_eq]
  refine ⟨o.field_heads_restrict _, Json.widens_fill _ data, fun chain hc hgone habove => ?_⟩
  obtain ⟨p, hp, hprefix⟩ :=
    withheld_at_or_below (Operation.read_from hread).1.resolved hc hgone habove
  exact (Json.hasKeys_fill (List.mem_map_of_mem hp) data).front hprefix

def newsText : String :=
  "\x7b article \x7b title body \x7d news: article \x7b ... \x7b body \x7d \x7d \x7d"

def newsData : Json := .object [("article", .array [.object [("title", .string "a")], .null])]

def filledNews : Json :=
  .object [("article", .array [.object [("body", .null), ("title", .string "a")], .null]),
    ("news", .null)]

theorem removed_news_become_null :
    ∃ o rest withheld, Operation.read newsText none Operation.articles .standard = .ok o ∧
      authenticatedOnly.decide o (authenticatedOnly.restrictedPaths o) none true =
        .filtered rest withheld ∧
      rest.text = "\x7barticle\x7btitle\x7d\x7d" ∧
      Json.fillNulls withheld newsData = filledNews ∧ Json.Widens newsData filledNews ∧
      Json.HasKeys ["article", "body"] filledNews ∧ Json.HasKeys ["news"] filledNews := by
  have hchecked : (Operation.read newsText none Operation.articles .standard).toOption.any (fun o =>
      let keep := (authenticatedOnly.forbids none).negate
      let gone (keys : List String) := o.fieldChains.any fun chain =>
        !stays keep chain && chain.dropLast.all (passes keep) && Node.keys chain == keys
      authenticatedOnly.decide o (authenticatedOnly.restrictedPaths o) none true ==
          .filtered (o.restrict keep) [⟨"article.body"⟩, ⟨"news.body"⟩] &&
        (o.restrict keep).text == "\x7barticle\x7btitle\x7d\x7d" &&
        gone ["article", "body"] && gone ["news"]) = true := by decide +kernel
  obtain ⟨o, ho, hchecked⟩ := exists_ok_of_any hchecked
  simp only [Bool.and_eq_true, beq_iff_eq, List.any_eq_true, Bool.not_eq_true'] at hchecked
  obtain ⟨⟨⟨hverdict, htext⟩, body, hbody, ⟨hgone, habove⟩, hkeys⟩,
    news, hnews, ⟨hnone, haround⟩, hkey⟩ := hchecked
  obtain ⟨-, hwidens, hhas⟩ := removed_fields_become_null ho hverdict newsData
  have hfilled : Json.fillNulls [⟨"article.body"⟩, ⟨"news.body"⟩] newsData = filledNews := by
    have hpaths : [(⟨"article.body"⟩ : Path), ⟨"news.body"⟩].map Path.keys =
        [["article", "body"], ["news", "body"]] := by decide +kernel
    rw [Json.fillNulls_eq, hpaths]
    simp +decide [newsData, filledNews, Json.fill, Json.fillMembers, Json.fillItems, Json.behind,
      Json.firsts, Json.addNull, Record.insert]
  rw [hfilled] at hwidens hhas
  exact ⟨o, _, _, ho, hverdict, htext, hfilled, hwidens, hkeys ▸ hhas body hbody hgone habove,
    hkey ▸ hhas news hnews hnone haround⟩

end AccessRules

end QueryGate
