import QueryGate.Proofs.Operation.RoundTrip

/-! # When a printed text is accepted

The text of an operation is read again exactly if its brackets are not too deep and all its
fractional numbers are legible or the greater infinity. All that can change are these numbers: the
greater infinity becomes an enum value, and the others stay numbers. -/
namespace QueryGate.Operation

open GraphQL (Replaces Token Value)

def rereadFloat : Binary64 → Value
  | .infinite false => .enum "inf"
  | x => .float x.reread

theorem replaces_reread : Replaces rereadFloat fun x => Token.reread (.float x) where
  tokens := by
    rintro (_ | (_ | _))
    · rfl
    · rfl
    · rfl
  wellFormed := by
    rintro constant (_ | (_ | _))
    · trivial
    · exact ⟨⟨'i', _, rfl, rfl, rfl⟩, by decide, by decide, by decide⟩
    · trivial

theorem replaces_float (g : Binary64 → Binary64) :
    Replaces (fun x => .float (g x)) fun x => .float (g x) where
  tokens := fun _ => rfl
  wellFormed := fun _ _ => trivial

theorem complete_of_read {text : String} {name : Option String} {s : Schema}
    {options : ExpandOptions} {o : Operation} (h : read text name s options = .ok o) :
    (GraphQL.scan text).complete = true := by
  unfold read at h
  split at h
  · cases h
  · rename_i document hdocument
    unfold GraphQL.Document.read GraphQL.readAll at hdocument
    cases hc : (GraphQL.scan text).complete with
    | true => rfl
    | false =>
      simp only [hc] at hdocument
      split at hdocument <;> cases hdocument

theorem readable_iff {o : Operation} : o.tokens.all Token.isReadable = true ↔
    ∀ x ∈ o.floats, x.isLegible = true ∨ x = .infinite false := by
  rw [List.all_eq_true]
  constructor
  · intro h x hx
    simpa [Token.isReadable] using h _ (mem_floats.mp hx)
  · intro h t ht
    cases t with
    | float x => simpa [Token.isReadable] using h x (mem_floats.mpr ht)
    | _ => rfl

theorem map_tokens_congr {o : Operation} {t u : Binary64 → Token} :
    o.tokens.map (Token.mapFloat t) = o.tokens.map (Token.mapFloat u) ↔ ∀ x ∈ o.floats, t x = u x := by
  rw [List.map_inj_left]
  constructor
  · intro h x hx
    exact h _ (mem_floats.mp hx)
  · intro h v hv
    cases v with
    | float x => exact h x (mem_floats.mpr hv)
    | _ => rfl

namespace ReadFrom

variable {s : Schema} {options : ExpandOptions} {name : Option String} {o : Operation}
  (h : o.ReadFrom s options name)

include h

theorem mapFloats {g : Binary64 → Value} {t : Binary64 → Token} (hg : Replaces g t) :
    (o.mapFloats g).ReadFrom s options name where
  resolved := h.resolved.mapFloats hg
  named := h.named
  counted := by
    have hsize : Node.listSize (o.mapFloats g).nodes = Node.listSize o.nodes :=
      Node.size_mapList g o.nodes
    exact hsize ▸ h.counted

/-- Literals that are written as the tokens that are read from the numbers are read for them. -/
theorem read_replaced (hne : o.nodes ≠ []) {g : Binary64 → Value} {t : Binary64 → Token}
    (hg : Replaces g t) (hcomplete : (GraphQL.scan o.text).complete = true)
    (hagree : ∀ x ∈ o.floats, Token.reread (.float x) = t x) :
    read o.text name s options = .ok (o.mapFloats g) := by
  obtain ⟨-, htokens⟩ := Token.scan_of_spells (spells h.resolved)
  have htokens := htokens hcomplete
  rw [Token.reread_eq, map_tokens_congr.mpr hagree, ← tokens_mapFloats hg] at htokens
  have hne : (o.mapFloats g).nodes ≠ [] := by
    rw [Operation.mapFloats, Node.mapList_eq]
    simpa using hne
  exact (h.mapFloats hg).read_scanned hne htokens hcomplete

theorem read_printed_iff (hne : o.nodes ≠ []) {b : Operation} :
    read o.text name s options = .ok b ↔
      (Token.bracketsFit Token.maxOpenBrackets false o.chars = true ∧
        ∀ x ∈ o.floats, x.isLegible = true ∨ x = .infinite false) ∧
      b = o.mapFloats rereadFloat := by
  obtain ⟨hscan, -⟩ := Token.scan_of_spells (spells h.resolved)
  have hcomplete : (GraphQL.scan o.text).complete = true ↔
      Token.bracketsFit Token.maxOpenBrackets false o.chars = true ∧
        ∀ x ∈ o.floats, x.isLegible = true ∨ x = .infinite false := by
    rw [← readable_iff, and_comm, ← Bool.and_eq_true, ← hscan, text]
  have hread := fun hc => h.read_replaced hne replaces_reread hc fun _ _ => rfl
  rw [← hcomplete]
  constructor
  · intro hb
    have hc := complete_of_read hb
    rw [hread hc] at hb
    exact ⟨hc, (Except.ok.inj hb).symm⟩
  · rintro ⟨hc, rfl⟩
    exact hread hc

theorem same_kinds_iff (hne : o.nodes ≠ []) :
    (∃ g : Binary64 → Binary64,
        read o.text name s options = .ok (o.mapFloats fun x => .float (g x))) ↔
      Token.bracketsFit Token.maxOpenBrackets false o.chars = true ∧
        ∀ x ∈ o.floats, x.isLegible = true := by
  constructor
  · rintro ⟨g, hg⟩
    obtain ⟨⟨hfit, hreadable⟩, heq⟩ := (h.read_printed_iff hne).mp hg
    refine ⟨hfit, fun x hx => (hreadable x hx).resolve_right ?_⟩
    rintro rfl
    have htokens := congrArg tokens heq
    rw [tokens_mapFloats (replaces_float g), tokens_mapFloats replaces_reread] at htokens
    cases map_tokens_congr.mp htokens _ hx
  · rintro ⟨hfit, hlegible⟩
    have hread := (h.read_printed_iff hne).mpr ⟨⟨hfit, fun x hx => .inl (hlegible x hx)⟩, rfl⟩
    refine ⟨Binary64.reread, h.read_replaced hne (replaces_float _) (complete_of_read hread) ?_⟩
    intro x hx
    have hx := hlegible x hx
    rcases x with _ | (_ | _)
    · rfl
    · cases hx
    · cases hx

end ReadFrom

theorem read_from_left {text : String} {name : Option String} {s : Schema}
    {options : ExpandOptions} {o : Operation} (h : read text name s options = .ok o)
    {a : Operation} (ha : a = o ∨ ∃ keep, a = o.restrict keep ∧ a.isEmpty = false) :
    a.ReadFrom s options name ∧ a.nodes ≠ [] := by
  obtain ⟨hread, hne⟩ := read_from h
  rcases ha with rfl | ⟨keep, rfl, hempty⟩
  · exact ⟨hread, hne⟩
  · refine ⟨hread.restrict keep, fun hnil => ?_⟩
    simp [isEmpty, hnil] at hempty

/-- What was read, or what a restriction leaves of it, is printed as a text that is read again
exactly if its brackets are not too deep and its fractional numbers are legible or the greater
infinity. All literals keep their kinds exactly if moreover no number is the greater infinity. -/
theorem printed_is_accepted_iff {text : String} {name : Option String} {s : Schema}
    {options : ExpandOptions} {o : Operation} (h : read text name s options = .ok o)
    {a : Operation} (ha : a = o ∨ ∃ keep, a = o.restrict keep ∧ a.isEmpty = false) :
    (∀ b, read a.text name s options = .ok b ↔
      (Token.bracketsFit Token.maxOpenBrackets false a.chars = true ∧
        ∀ x ∈ a.floats, x.isLegible = true ∨ x = .infinite false) ∧
      b = a.mapFloats rereadFloat) ∧
    ((∃ g : Binary64 → Binary64,
        read a.text name s options = .ok (a.mapFloats fun x => .float (g x))) ↔
      Token.bracketsFit Token.maxOpenBrackets false a.chars = true ∧
        ∀ x ∈ a.floats, x.isLegible = true) := by
  obtain ⟨hread, hne⟩ := read_from_left h ha
  exact ⟨fun b => hread.read_printed_iff hne, hread.same_kinds_iff hne⟩

def pricesText : String := "\x7barticle(low:12.50,high:1e+16)\x7btitle body\x7d\x7d"

theorem printed_is_accepted_of_prices : ∃ o a, read pricesText none articles .standard = .ok o ∧
    (a = o ∨ ∃ keep, a = o.restrict keep ∧ a.isEmpty = false) ∧
    a.text = "\x7barticle(low:12.5,high:1e16)\x7btitle\x7d\x7d" ∧
    ∃ g : Binary64 → Binary64,
      read a.text none articles .standard = .ok (a.mapFloats fun x => .float (g x)) := by
  have hchecked : (read pricesText none articles .standard).toOption.any (fun o =>
      let a := o.restrict (FieldTest.annotated "authenticated").negate
      !a.isEmpty && Token.bracketsFit Token.maxOpenBrackets false a.chars &&
        a.floats.all Binary64.isLegible &&
        a.text == "\x7barticle(low:12.5,high:1e16)\x7btitle\x7d\x7d") = true := by decide +kernel
  obtain ⟨o, ho, hchecked⟩ := exists_ok_of_any hchecked
  simp only [Bool.and_eq_true, Bool.not_eq_true', beq_iff_eq, List.all_eq_true] at hchecked
  obtain ⟨⟨⟨hempty, hfit⟩, hlegible⟩, htext⟩ := hchecked
  have hread := (printed_is_accepted_iff ho (.inr ⟨_, rfl, hempty⟩)).2.mpr ⟨hfit, hlegible⟩
  exact ⟨o, _, ho, .inr ⟨_, rfl, hempty⟩, htext, hread⟩

/-- A number that is printed with a power of ten that the reader refuses. -/
def hugeText : String := "\x7barticle(limit:1e+90)\x7btitle\x7d\x7d"

def overflowText : String := "\x7barticle(limit:1e400)\x7btitle\x7d\x7d"

/-- Selections that are too deep only together with those of the fragment among them. -/
def deepText : String :=
  let nested (inner : String) : String :=
    String.join (List.replicate 25 "\x7ba") ++ inner ++ String.join (List.replicate 25 "\x7d")
  nested "\x7b...B\x7d" ++ "fragment B on A" ++ nested ""

theorem refused_of_checked {text : String} {s : Schema}
    (h : (read text none s .standard).toOption.any (fun o =>
      !(Token.bracketsFit Token.maxOpenBrackets false o.chars && o.tokens.all Token.isReadable)) =
        true) :
    ∃ o, read text none s .standard = .ok o ∧ ∀ b, read o.text none s .standard ≠ .ok b := by
  obtain ⟨o, ho, h⟩ := exists_ok_of_any h
  refine ⟨o, ho, fun b hb => ?_⟩
  obtain ⟨hread, hne⟩ := read_from ho
  obtain ⟨⟨hfit, hreadable⟩, -⟩ := (hread.read_printed_iff hne).mp hb
  simp [hfit, readable_iff.mpr hreadable] at h

theorem printed_text_is_refused :
    (∃ o, read hugeText none articles .standard = .ok o ∧
      ∀ b, read o.text none articles .standard ≠ .ok b) ∧
    (∃ o b, read overflowText none articles .standard = .ok o ∧ o.floats = [.infinite false] ∧
      read o.text none articles .standard = .ok b ∧ b.floats = []) ∧
    (∃ o, read deepText none articles .standard = .ok o ∧
      ∀ b, read o.text none articles .standard ≠ .ok b) := by
  refine ⟨refused_of_checked (by decide +kernel), ?_, refused_of_checked (by decide +kernel)⟩
  have hchecked : (read overflowText none articles .standard).toOption.any (fun o =>
      (read o.text none articles .standard).toOption.any fun b =>
        o.floats == [.infinite false] && b.floats == []) = true := by decide +kernel
  obtain ⟨o, ho, hchecked⟩ := exists_ok_of_any hchecked
  obtain ⟨b, hb, hchecked⟩ := exists_ok_of_any hchecked
  simp only [Bool.and_eq_true, beq_iff_eq] at hchecked
  exact ⟨o, b, ho, hchecked.1, hb, hchecked.2⟩

end QueryGate.Operation
