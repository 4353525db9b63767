import QueryGate.Proofs.GraphQL.Spelling

/-! # The fractional numbers of a value

Replacing every fractional number of a value by a literal that is written as one token replaces the
tokens of these numbers and no others, and keeps the value well-formed. -/
namespace QueryGate.GraphQL

variable {β : Type}

def Token.mapFloat (t : Binary64 → Token) : Token → Token
  | .float x => t x
  | u => u

theorem Token.map_flatMap {r : Token → Token} {f : β → β} {tokens : β → List Token} {xs : List β}
    (h : ∀ x ∈ xs, tokens (f x) = (tokens x).map r) :
    (xs.map f).flatMap tokens = (xs.flatMap tokens).map r := by
  induction xs with
  | nil => rfl
  | cons x xs ih =>
    have ih := ih fun y hy => h y (List.mem_cons_of_mem x hy)
    simp [h x List.mem_cons_self, ih]

theorem Token.map_of_no_float {t : Binary64 → Token} {ts : List Token}
    (h : ∀ x, Token.float x ∉ ts) : ts.map (Token.mapFloat t) = ts := by
  refine (List.map_congr_left (g := id) fun u hu => ?_).trans (List.map_id ts)
  cases u with
  | float x => exact absurd hu (h x)
  | _ => rfl

theorem Token.reread_eq : Token.reread = Token.mapFloat fun x => Token.reread (.float x) := by
  funext t
  cases t <;> rfl

namespace Value

mutual

def mapFloats (g : Binary64 → Value) : Value → Value
  | .float x => g x
  | .list items => .list (mapItems g items)
  | .object fields => .object (mapFields g fields)
  | v => v

def mapItems (g : Binary64 → Value) : List Value → List Value
  | [] => []
  | item :: rest => item.mapFloats g :: mapItems g rest

def mapFields (g : Binary64 → Value) : List (String × Value) → List (String × Value)
  | [] => []
  | (name, value) :: rest => (name, value.mapFloats g) :: mapFields g rest

end

end Value

def Argument.mapFloats (g : Binary64 → Value) (a : Argument) : Argument := (a.1, a.2.mapFloats g)

def Directive.mapFloats (g : Binary64 → Value) (d : Directive) : Directive :=
  { d with arguments := d.arguments.map (Argument.mapFloats g) }

def VariableDefinition.mapFloats (g : Binary64 → Value) (v : VariableDefinition) :
    VariableDefinition := { v with default := v.default.map (Value.mapFloats g) }

/-- Every number is replaced by a well-formed literal that is written as this token. -/
structure Replaces (g : Binary64 → Value) (t : Binary64 → Token) : Prop where
  tokens : ∀ x, (g x).tokens = [t x]
  wellFormed : ∀ constant x, (g x).WellFormed constant

theorem Value.mapItems_eq (g : Binary64 → Value) (items : List Value) :
    mapItems g items = items.map (mapFloats g) := by
  induction items with
  | nil => rfl
  | cons item rest ih => simp [mapItems, ih]

theorem Value.mapFields_eq (g : Binary64 → Value) (fields : List (String × Value)) :
    mapFields g fields = fields.map (Argument.mapFloats g) := by
  induction fields with
  | nil => rfl
  | cons f rest ih =>
    obtain ⟨name, value⟩ := f
    simp [mapFields, Argument.mapFloats, ih]

theorem TypeRef.no_float (t : TypeRef) (x : Binary64) : Token.float x ∉ t.tokens := by
  induction t with
  | named name => simp [tokens]
  | list item ih => simp [tokens, ih]
  | nonNull inner ih => simp [tokens, ih]

theorem Value.no_float {v : Value} (h : v.hasFloat = false) (x : Binary64) :
    Token.float x ∉ v.tokens := by
  induction v using Value.nested with
  | float y => cases h
  | boolean b => cases b <;> simp [tokens]
  | reference | int | string | null | enum => simp [tokens]
  | list items ih =>
    have hitems : ∀ v ∈ items, Token.float x ∉ v.tokens := fun v hv =>
      ih v hv (items_have_no_float_iff.mp h v hv)
    simpa [tokens, items_tokens] using hitems
  | object fields ih =>
    have hfields : ∀ f ∈ fields, Token.float x ∉ f.2.tokens := fun f hf =>
      ih f hf (fields_have_no_float_iff.mp h f hf)
    simpa [tokens, fields_tokens, Argument.tokens] using hfields

theorem Argument.no_float {arguments : List Argument} (h : haveFloat arguments = false)
    (x : Binary64) : Token.float x ∉ listTokens arguments := by
  have hvalues : ∀ a ∈ arguments, a.2.hasFloat = false := by simpa [haveFloat] using h
  have hall : ∀ a ∈ arguments, Token.float x ∉ a.2.tokens := fun a ha =>
    Value.no_float (hvalues a ha) x
  unfold listTokens
  split_ifs
  · exact List.not_mem_nil
  · simpa [tokens] using hall

theorem Directive.no_float {ds : List Directive} (h : haveFloat ds = false) (x : Binary64) :
    Token.float x ∉ ds.flatMap tokens := by
  have hall : ∀ d ∈ ds, Argument.haveFloat d.arguments = false := by simpa [haveFloat] using h
  have harguments : ∀ d ∈ ds, Token.float x ∉ Argument.listTokens d.arguments := fun d hd =>
    Argument.no_float (hall d hd) x
  simpa [tokens] using harguments

theorem VariableDefinition.no_float {v : VariableDefinition}
    (h : v.default.any Value.hasFloat = false) (x : Binary64) : Token.float x ∉ v.tokens := by
  have htype := v.type.no_float x
  obtain ⟨name, type, default⟩ := v
  cases default with
  | none => simpa [tokens, defaultTokens] using htype
  | some value =>
    have hvalue := Value.no_float (v := value) h x
    simpa [tokens, defaultTokens] using ⟨htype, hvalue⟩

namespace Replaces

variable {g : Binary64 → Value} {t : Binary64 → Token} (h : Replaces g t)

include h

theorem value_tokens (v : Value) : (v.mapFloats g).tokens = v.tokens.map (Token.mapFloat t) := by
  induction v using Value.nested with
  | float x => simp [Value.mapFloats, h.tokens, Value.tokens, Token.mapFloat]
  | boolean b => cases b <;> rfl
  | reference | int | string | null | enum => rfl
  | list items ih =>
    have hitems := Token.map_flatMap (f := Value.mapFloats g) ih
    simp [Value.mapFloats, Value.mapItems_eq, Value.tokens, Value.items_tokens, hitems,
      Token.mapFloat]
  | object fields ih =>
    have hfields : (fields.map (Argument.mapFloats g)).flatMap Argument.tokens =
        (fields.flatMap Argument.tokens).map (Token.mapFloat t) :=
      Token.map_flatMap fun f hf => by
        simp [Argument.mapFloats, Argument.tokens, ih f hf, Token.mapFloat]
    simp [Value.mapFloats, Value.mapFields_eq, Value.tokens, Value.fields_tokens, hfields,
      Token.mapFloat]

theorem argument_tokens (a : Argument) :
    (a.mapFloats g).tokens = a.tokens.map (Token.mapFloat t) := by
  simp [Argument.mapFloats, Argument.tokens, h.value_tokens, Token.mapFloat]

theorem arguments_tokens (arguments : List Argument) :
    Argument.listTokens (arguments.map (Argument.mapFloats g)) =
      (Argument.listTokens arguments).map (Token.mapFloat t) := by
  have hall : (arguments.map (Argument.mapFloats g)).flatMap Argument.tokens =
      (arguments.flatMap Argument.tokens).map (Token.mapFloat t) :=
    Token.map_flatMap fun a _ => h.argument_tokens a
  unfold Argument.listTokens
  rw [List.isEmpty_map, hall]
  split_ifs
  · rfl
  · simp [Token.mapFloat]

theorem directive_tokens (d : Directive) :
    (d.mapFloats g).tokens = d.tokens.map (Token.mapFloat t) := by
  simp [Directive.mapFloats, Directive.tokens, h.arguments_tokens, Token.mapFloat]

theorem directives_tokens (ds : List Directive) :
    (ds.map (Directive.mapFloats g)).flatMap Directive.tokens =
      (ds.flatMap Directive.tokens).map (Token.mapFloat t) :=
  Token.map_flatMap fun d _ => h.directive_tokens d

theorem variable_tokens (v : VariableDefinition) :
    (v.mapFloats g).tokens = v.tokens.map (Token.mapFloat t) := by
  have htype := Token.map_of_no_float (t := t) v.type.no_float
  obtain ⟨name, type, default⟩ := v
  cases default with
  | none => simp [VariableDefinition.mapFloats, VariableDefinition.tokens,
      VariableDefinition.defaultTokens, htype, Token.mapFloat]
  | some value => simp [VariableDefinition.mapFloats, VariableDefinition.tokens,
      VariableDefinition.defaultTokens, htype, h.value_tokens, Token.mapFloat]

theorem value_wellFormed {constant : Bool} {v : Value} (hv : v.WellFormed constant) :
    (v.mapFloats g).WellFormed constant := by
  induction v using Value.nested with
  | float x => exact h.wellFormed constant x
  | reference | int | string | boolean | null | enum => exact hv
  | list items ih =>
    rw [Value.mapFloats, Value.mapItems_eq]
    refine Value.items_well_formed_iff.mpr (List.forall_mem_map.mpr fun v hmem => ?_)
    exact ih v hmem (Value.items_well_formed_iff.mp hv v hmem)
  | object fields ih =>
    rw [Value.mapFloats, Value.mapFields_eq]
    refine ⟨List.pairwise_map.mpr hv.1, ?_⟩
    refine Value.fields_well_formed_iff.mpr (List.forall_mem_map.mpr fun f hmem => ?_)
    obtain ⟨hname, hvalue⟩ := Value.fields_well_formed_iff.mp hv.2 f hmem
    exact ⟨hname, ih f hmem hvalue⟩

theorem argument_wellFormed {a : Argument} (ha : a.WellFormed) : (a.mapFloats g).WellFormed :=
  ⟨ha.1, h.value_wellFormed ha.2⟩

theorem directive_wellFormed {d : Directive} (hd : d.WellFormed) : (d.mapFloats g).WellFormed where
  name := hd.name
  arguments := List.forall_mem_map.mpr fun a ha => h.argument_wellFormed (hd.arguments a ha)

theorem variable_wellFormed {v : VariableDefinition} (hv : v.WellFormed) :
    (v.mapFloats g).WellFormed where
  name := hv.name
  type := hv.type
  default := by
    intro value he
    obtain ⟨old, hold, rfl⟩ := Option.map_eq_some_iff.mp he
    exact h.value_wellFormed (hv.default old hold)

end Replaces

end QueryGate.GraphQL
