import QueryGate.Proofs.GraphQL.Spelling

/-! # Reading tokens back

Each rule takes the tokens of a value, a directive or a type off the front of a list and gives that
value back, unless the list goes on with a mark by which the rule would continue. Nested rules are
given at least as much depth as there are tokens. -/
namespace QueryGate.GraphQL

namespace Rule

variable {α β : Type}

/-- Tokens that do not go on with any of these marks. -/
def NotMarked (marks : List Char) (ts : List Token) : Prop :=
  ∀ c ∈ marks, startsWithMark c ts = false

theorem NotMarked.mono {marks others : List Char} {ts : List Token} (h : NotMarked marks ts)
    (hs : others ⊆ marks) : NotMarked others ts := fun c hc => h c (hs hc)

theorem NotMarked.append {marks : List Char} {ts rest : List Token} (h : NotMarked marks ts)
    (hrest : NotMarked marks rest) : NotMarked marks (ts ++ rest) := by
  cases ts with
  | nil => exact hrest
  | cons t ts => cases t <;> exact h

theorem notMarked_of_mark {marks : List Char} {c : Char} (h : c ∉ marks) (ts : List Token) :
    NotMarked marks (.mark c :: ts) := by
  intro d hd
  have hne : c ≠ d := fun he => h (he ▸ hd)
  simp [startsWithMark, hne]

/-- A rule takes these tokens and no more off any list that does not go on with one of the marks. -/
def Reads (rule : Rule α) (marks : List Char) (ts : List Token) (x : α) : Prop :=
  ∀ rest, NotMarked marks rest → rule (ts ++ rest) = .ok (x, rest)

structure Item (starts : List Token → Bool) (rule : Rule α) (marks : List Char) (ts : List Token)
    (x : α) : Prop where
  nonempty : ts ≠ []
  starts : ∀ rest, starts (ts ++ rest) = true
  notMarked : ∀ rest, NotMarked marks (ts ++ rest)
  reads : Reads rule marks ts x

theorem manyFrom_reads {starts : List Token → Bool} {rule : Rule α} {marks : List Char}
    {tokens : β → List Token} {value : β → α} {xs : List β}
    (h : ∀ x ∈ xs, Item starts rule marks (tokens x) (value x)) {rest : List Token}
    (hstop : starts rest = false) (hrest : NotMarked marks rest) {rounds : Nat}
    (hrounds : xs.length < rounds) :
    manyFrom starts rule rounds (xs.flatMap tokens ++ rest) = .ok (xs.map value, rest) := by
  induction xs generalizing rounds with
  | nil =>
    obtain ⟨rounds, rfl⟩ := Nat.exists_eq_add_of_lt hrounds
    simp [manyFrom, hstop]
  | cons x xs ih =>
    obtain ⟨rounds, rfl⟩ : ∃ r, rounds = r + 1 := ⟨rounds - 1, by omega⟩
    have hx := h x List.mem_cons_self
    have hxs := fun y hy => h y (List.mem_cons_of_mem x hy)
    have hnext : NotMarked marks (xs.flatMap tokens ++ rest) := by
      cases xs with
      | nil => exact hrest
      | cons y ys =>
        rw [List.flatMap_cons, List.append_assoc]
        exact (hxs y List.mem_cons_self).notMarked _
    have hlen : xs.length < rounds := by simpa using hrounds
    have ih := ih hxs hlen
    rw [List.flatMap_cons, List.append_assoc, manyFrom, hx.starts, hx.reads _ hnext]
    simp [ih]

theorem length_le_tokens {tokens : β → List Token} {xs : List β} (h : ∀ x ∈ xs, tokens x ≠ []) :
    xs.length ≤ (xs.flatMap tokens).length := by
  induction xs with
  | nil => simp
  | cons x xs ih =>
    have hx := List.length_pos_iff.mpr (h x List.mem_cons_self)
    have ih := ih fun y hy => h y (List.mem_cons_of_mem x hy)
    rw [List.flatMap_cons, List.length_append, List.length_cons]
    omega

theorem many_reads {starts : List Token → Bool} {rule : Rule α} {marks : List Char}
    {tokens : β → List Token} {value : β → α} {xs : List β}
    (h : ∀ x ∈ xs, Item starts rule marks (tokens x) (value x)) {rest : List Token}
    (hstop : starts rest = false) (hrest : NotMarked marks rest) :
    many starts rule (xs.flatMap tokens ++ rest) = .ok (xs.map value, rest) := by
  have hlen := length_le_tokens fun x hx => (h x hx).nonempty
  refine manyFrom_reads h hstop hrest ?_
  rw [List.length_append]
  omega

theorem upTo_reads {close : Char} {rule : Rule α} {marks : List Char} (hclose : close ∉ marks)
    {tokens : β → List Token} {value : β → α} {xs : List β}
    (h : ∀ x ∈ xs, Item (!startsWithMark close ·) rule marks (tokens x) (value x))
    (rest : List Token) :
    Rule.upTo close rule (xs.flatMap tokens ++ .mark close :: rest) = .ok (xs.map value, rest) := by
  have hstop : (!startsWithMark close (.mark close :: rest)) = false := by simp [startsWithMark]
  have hread := many_reads h hstop (notMarked_of_mark hclose rest)
  simp [Rule.upTo, hread, mark]

theorem between_reads {opening close : Char} {rule : Rule α} {marks : List Char}
    (hclose : close ∉ marks) {tokens : β → List Token} {value : β → α} {xs : List β} (hne : xs ≠ [])
    (h : ∀ x ∈ xs, Item (!startsWithMark close ·) rule marks (tokens x) (value x))
    (rest : List Token) :
    Rule.between opening close rule
      (.mark opening :: (xs.flatMap tokens ++ .mark close :: rest)) = .ok (xs.map value, rest) := by
  obtain ⟨x, xs, rfl⟩ := List.exists_cons_of_ne_nil hne
  have hxs := fun y hy => h y (List.mem_cons_of_mem x hy)
  have hrest : NotMarked marks (xs.flatMap tokens ++ .mark close :: rest) := by
    cases xs with
    | nil => exact notMarked_of_mark hclose rest
    | cons y ys =>
      rw [List.flatMap_cons, List.append_assoc]
      exact (hxs y List.mem_cons_self).notMarked _
  have hx := (h x List.mem_cons_self).reads _ hrest
  simp [Rule.between, mark, someUpTo, hx, upTo_reads hclose hxs rest]

theorem optional_none {starts : List Token → Bool} (rule : Rule α) {ts : List Token}
    (h : starts ts = false) : optional starts rule ts = .ok (none, ts) := by
  simp [optional, h]

theorem optional_some {starts : List Token → Bool} {rule : Rule α} {ts rest : List Token} {x : α}
    (h : starts ts = true) (hx : rule ts = .ok (x, rest)) :
    optional starts rule ts = .ok (some x, rest) := by
  simp [optional, h, hx]

theorem notMarked_nil (ts : List Token) : NotMarked [] ts := by simp [NotMarked]

theorem entry_reads {inner : Rule Value} {a : Argument} (h : Reads inner [] a.2.tokens a.2)
    (close : Char) : Item (!startsWithMark close ·) (entry inner) [] a.tokens a where
  nonempty := by simp [Argument.tokens]
  starts := fun _ => rfl
  notMarked := fun _ => notMarked_nil _
  reads := by
    intro rest hrest
    have ha := h rest hrest
    simp [entry, Argument.tokens, name, mark, ha]

theorem value_item {rule : Rule Value} {v : Value} (h : Reads rule [] v.tokens v) :
    Item (!startsWithMark ']' ·) rule [] v.tokens v where
  nonempty := by
    cases v with
    | boolean b => cases b <;> simp [Value.tokens]
    | _ => simp [Value.tokens]
  starts := by
    intro rest
    cases v with
    | boolean b => cases b <;> rfl
    | _ => rfl
  notMarked := fun _ => notMarked_nil _
  reads := h

theorem length_le_of_mem (tokens : β → List Token) {xs : List β} {x : β} (h : x ∈ xs) :
    (tokens x).length ≤ (xs.flatMap tokens).length := by
  obtain ⟨before, after, rfl⟩ := List.append_of_mem h
  rw [List.flatMap_append, List.flatMap_cons, List.length_append, List.length_append]
  omega

theorem value_reads {constant : Bool} {v : Value} (hv : v.WellFormed constant) {depth : Nat}
    (hd : v.tokens.length ≤ depth) : Reads (value constant depth) [] v.tokens v := by
  induction v using Value.nested generalizing depth with
  | reference s =>
    intro rest _
    simp [Value.tokens, value, hv.1, name]
  | int n => exact fun _ _ => by simp [Value.tokens, value]
  | float x => exact fun _ _ => by simp [Value.tokens, value]
  | string s => exact fun _ _ => by simp [Value.tokens, value]
  | boolean b =>
    intro rest _
    cases b <;> simp [Value.tokens, value]
  | null => exact fun _ _ => by simp [Value.tokens, value]
  | enum s =>
    intro rest _
    simp [Value.tokens, value, hv.2.1, hv.2.2.1, hv.2.2.2]
  -- What is nested is read with one level less, and has at least two tokens less.
  | list items ih =>
    intro rest _
    rw [Value.tokens, Value.items_tokens] at hd ⊢
    simp only [List.length_cons, List.length_append] at hd
    obtain ⟨depth, rfl⟩ : ∃ d, depth = d + 1 := ⟨depth - 1, by omega⟩
    have hitems : ∀ v ∈ items,
        Item (!startsWithMark ']' ·) (value constant depth) [] v.tokens v := by
      intro v hmem
      have hlen := length_le_of_mem Value.tokens hmem
      exact value_item (ih v hmem (Value.items_well_formed_iff.mp hv v hmem) (by omega))
    have hread := upTo_reads List.not_mem_nil hitems rest
    simp [value, hread]
  | object fields ih =>
    intro rest _
    rw [Value.tokens, Value.fields_tokens] at hd ⊢
    simp only [List.length_cons, List.length_append] at hd
    obtain ⟨depth, rfl⟩ : ∃ d, depth = d + 1 := ⟨depth - 1, by omega⟩
    have hfields : ∀ f ∈ fields,
        Item (!startsWithMark '\x7d' ·) (entry (value constant depth)) []
          (Argument.tokens f) f := by
      intro f hmem
      have hlen := length_le_of_mem Argument.tokens hmem
      rw [Argument.tokens, List.length_cons, List.length_cons] at hlen
      exact entry_reads (ih f hmem (Value.fields_well_formed_iff.mp hv.2 f hmem).2 (by omega)) _
    have hread := upTo_reads List.not_mem_nil hfields rest
    simp [value, hread, Record.ofEntries_of_ordered hv.1]

theorem argument_reads {a : Argument} (h : a.WellFormed) (close : Char) :
    Item (!startsWithMark close ·) argument [] a.tokens a := by
  refine entry_reads (fun rest hrest => ?_) close
  refine value_reads h.2 ?_ rest hrest
  rw [List.length_append]
  omega

theorem arguments_reads {arguments : List Argument} (h : ∀ a ∈ arguments, a.WellFormed) :
    Reads Rule.arguments ['('] (Argument.listTokens arguments) arguments := by
  intro rest hrest
  unfold Argument.listTokens
  split_ifs with hempty
  · have hnone := hrest '(' List.mem_cons_self
    simp [Rule.arguments, optional_none _ hnone, List.isEmpty_iff.mp hempty]
  · have hne : arguments ≠ [] := fun he => hempty (List.isEmpty_iff.mpr he)
    have hsome : optional (startsWithMark '(') (between '(' ')' argument)
        (.mark '(' :: (arguments.flatMap Argument.tokens ++ .mark ')' :: rest)) =
          .ok (some (arguments.map fun a => a), rest) :=
      optional_some rfl
        (between_reads List.not_mem_nil hne (fun a ha => argument_reads (h a ha) ')') rest)
    simp [Rule.arguments, hsome]

theorem directive_reads {d : Directive} (h : d.WellFormed) :
    Item (startsWithMark '@') directive ['('] d.tokens d where
  nonempty := by simp [Directive.tokens]
  starts := fun _ => rfl
  notMarked := by
    intro rest c hc
    rw [List.mem_singleton.mp hc]
    rfl
  reads := by
    intro rest hrest
    have hargs := arguments_reads h.arguments rest hrest
    simp [directive, Directive.tokens, mark, name, hargs]

theorem directives_reads {ds : List Directive} (h : ∀ d ∈ ds, d.WellFormed) :
    Reads directives ['@', '('] (ds.flatMap Directive.tokens) ds := by
  intro rest hrest
  have hstop := hrest '@' List.mem_cons_self
  have hread := many_reads (fun d hd => directive_reads (h d hd)) hstop (hrest.mono (by simp))
  simpa [directives] using hread

theorem typeAt_reads {t : TypeRef} (h : t.WellFormed) {depth : Nat} (hd : t.tokens.length ≤ depth) :
    Reads (typeAt depth) ['!'] t.tokens t ∧
      (t.isNonNull = false → ∀ rest,
        typeAt depth (t.tokens ++ .mark '!' :: rest) = .ok (.nonNull t, rest)) := by
  induction t generalizing depth with
  | named s =>
    obtain ⟨depth, rfl⟩ : ∃ d, depth = d + 1 := ⟨depth - 1, by simp [TypeRef.tokens] at hd; omega⟩
    constructor
    · intro rest hrest
      have hnone : optional (startsWithMark '!') (mark '!') rest = .ok (none, rest) :=
        optional_none _ (hrest '!' List.mem_cons_self)
      simp [typeAt, nullable, TypeRef.tokens, startsWithMark, name, hnone]
    · intro _ rest
      simp [typeAt, nullable, TypeRef.tokens, startsWithMark, name, optional, mark]
  | list item ih =>
    simp only [TypeRef.tokens, List.length_cons, List.length_append] at hd
    obtain ⟨depth, rfl⟩ : ∃ d, depth = d + 1 := ⟨depth - 1, by omega⟩
    have hitem : ∀ rest, typeAt depth (item.tokens ++ .mark ']' :: rest) =
        .ok (item, .mark ']' :: rest) := fun rest =>
      (ih h (by omega)).1 _ (by simp [NotMarked, startsWithMark])
    constructor
    · intro rest hrest
      have hnone : optional (startsWithMark '!') (mark '!') rest = .ok (none, rest) :=
        optional_none _ (hrest '!' List.mem_cons_self)
      simp [typeAt, nullable, TypeRef.tokens, startsWithMark, mark, hitem, hnone]
    · intro _ rest
      simp [typeAt, nullable, TypeRef.tokens, startsWithMark, hitem, optional, mark]
  | nonNull inner ih =>
    have hd : inner.tokens.length ≤ depth := by
      rw [TypeRef.tokens, List.length_append] at hd
      omega
    constructor
    · intro rest _
      rw [TypeRef.tokens, List.append_assoc]
      exact (ih h.2 hd).2 h.1 rest
    · intro hn
      cases hn

theorem type_reads {t : TypeRef} (h : t.WellFormed) : Reads type ['!'] t.tokens t := by
  intro rest hrest
  refine (typeAt_reads h ?_).1 rest hrest
  rw [List.length_append]
  omega

theorem default_reads {v : Option Value} (h : ∀ x, v = some x → x.WellFormed true) :
    Reads default ['='] (VariableDefinition.defaultTokens v) v := by
  intro rest hrest
  cases v with
  | none => exact optional_none _ (hrest '=' List.mem_cons_self)
  | some v =>
    have hlen : v.tokens.length ≤ (v.tokens ++ rest).length + 1 := by
      rw [List.length_append]
      omega
    have hvalue := value_reads (h v rfl) hlen rest (notMarked_nil rest)
    refine optional_some rfl ?_
    exact hvalue

theorem variableDefinition_reads {v : VariableDefinition} (h : v.WellFormed) :
    Item (!startsWithMark ')' ·) variableDefinition ['!', '='] v.tokens v where
  nonempty := by simp [VariableDefinition.tokens]
  starts := fun _ => rfl
  notMarked := by
    intro rest c hc
    simp only [List.mem_cons, List.not_mem_nil, or_false] at hc
    rcases hc with rfl | rfl <;> rfl
  reads := by
    intro rest hrest
    have hdefault := default_reads h.default rest (hrest.mono (by simp))
    have hmarks : NotMarked ['!'] (VariableDefinition.defaultTokens v.default) := by
      cases v.default with
      | none => exact fun _ _ => rfl
      | some value => exact notMarked_of_mark (by decide) _
    have htype := type_reads h.type _ (hmarks.append (hrest.mono (by simp)))
    simp [variableDefinition, VariableDefinition.tokens, mark, name, htype, hdefault]

end Rule

end QueryGate.GraphQL
