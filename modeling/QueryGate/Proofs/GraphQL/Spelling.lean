import Mathlib.Tactic.SplitIfs
import QueryGate.Proofs.GraphQL.Fractions
import QueryGate.Proofs.GraphQL.WellFormed

/-! # The tokens of values, directives and types

The compact text of each spells its tokens. Where no separator is written between two tokens, one
of them is a mark. -/
namespace QueryGate.GraphQL

open Token (Spells separated)

namespace Value

mutual

def tokens : Value → List Token
  | .variable name => [.mark '$', .name name]
  | .int n => [.int n]
  | .float x => [.float x]
  | .string s => [.string s]
  | .boolean true => [.name "true"]
  | .boolean false => [.name "false"]
  | .null => [.name "null"]
  | .enum name => [.name name]
  | .list items => .mark '[' :: (itemTokens items ++ [.mark ']'])
  | .object fields => .mark '\x7b' :: (fieldTokens fields ++ [.mark '\x7d'])

def itemTokens : List Value → List Token
  | [] => []
  | item :: rest => item.tokens ++ itemTokens rest

def fieldTokens : List (String × Value) → List Token
  | [] => []
  | (name, value) :: rest => (.name name :: .mark ':' :: value.tokens) ++ fieldTokens rest

end

end Value

namespace Argument

def tokens (a : Argument) : List Token := .name a.1 :: .mark ':' :: a.2.tokens

def listTokens (arguments : List Argument) : List Token :=
  if arguments.isEmpty then [] else .mark '(' :: (arguments.flatMap tokens ++ [.mark ')'])

end Argument

def Directive.tokens (d : Directive) : List Token :=
  .mark '@' :: .name d.name :: Argument.listTokens d.arguments

def TypeRef.tokens : TypeRef → List Token
  | .named name => [.name name]
  | .list item => .mark '[' :: (item.tokens ++ [.mark ']'])
  | .nonNull inner => inner.tokens ++ [.mark '!']

namespace VariableDefinition

def defaultTokens : Option Value → List Token
  | none => []
  | some value => .mark '=' :: value.tokens

def tokens (v : VariableDefinition) : List Token :=
  .mark '$' :: .name v.name :: .mark ':' :: (v.type.tokens ++ defaultTokens v.default)

end VariableDefinition

theorem Value.items_tokens (items : List Value) :
    itemTokens items = items.flatMap Value.tokens := by
  induction items with
  | nil => rfl
  | cons item rest ih => simp [itemTokens, ih]

theorem Value.fields_tokens (fields : List (String × Value)) :
    fieldTokens fields = fields.flatMap Argument.tokens := by
  induction fields with
  | nil => rfl
  | cons f rest ih =>
    obtain ⟨name, value⟩ := f
    simp [fieldTokens, Argument.tokens, ih]

theorem Value.items_chars (items : List Value) : itemChars items = items.map Value.chars := by
  induction items with
  | nil => rfl
  | cons item rest ih => simp [itemChars, ih]

theorem Value.fields_chars (fields : List (String × Value)) :
    fieldChars fields = fields.map Argument.chars := by
  induction fields with
  | nil => rfl
  | cons f rest ih =>
    obtain ⟨name, value⟩ := f
    simp [fieldChars, Argument.chars, ih]

namespace Token.Spells

variable {β : Type}

theorem closed {a : List Char} {ts : List Token} (ha : Spells a ts) {c : Char}
    (hc : isMark c = true) : Spells (a ++ [c]) (ts ++ [.mark c]) :=
  ha.append (by simp [separated, endsNumber, hc]) (mark hc nil)

theorem enclosed {a : List Char} {ts : List Token} (ha : Spells a ts) {c d : Char}
    (hc : isMark c = true) (hd : isMark d = true) :
    Spells (c :: a ++ [d]) (.mark c :: (ts ++ [.mark d])) :=
  mark hc (ha.closed hd)

theorem joined {c : Char} (hc : c = ' ' ∨ c = ',') {chars : β → List Char}
    {tokens : β → List Token} {xs : List β} (h : ∀ x ∈ xs, Spells (chars x) (tokens x)) :
    Spells (GraphQL.joined c (xs.map chars)) (xs.flatMap tokens) := by
  induction xs with
  | nil => exact nil
  | cons x xs ih =>
    have hx := h x List.mem_cons_self
    have ih := ih fun y hy => h y (List.mem_cons_of_mem x hy)
    cases xs with
    | nil => simpa [GraphQL.joined] using hx
    | cons y ys =>
      have hs : separated (c :: GraphQL.joined c ((y :: ys).map chars)) = true := by
        rcases hc with rfl | rfl <;> rfl
      exact hx.append hs (separator hc ih)

theorem flatMap {chars : β → List Char} {tokens : β → List Token} {xs : List β}
    (hs : ∀ x ∈ xs, separated (chars x) = true) (h : ∀ x ∈ xs, Spells (chars x) (tokens x)) :
    separated (xs.flatMap chars) = true ∧ Spells (xs.flatMap chars) (xs.flatMap tokens) := by
  induction xs with
  | nil => exact ⟨rfl, nil⟩
  | cons x xs ih =>
    have ih := ih (fun y hy => hs y (List.mem_cons_of_mem x hy))
      fun y hy => h y (List.mem_cons_of_mem x hy)
    exact ⟨separated_append (hs x List.mem_cons_self) ih.1,
      (h x List.mem_cons_self).append ih.1 ih.2⟩

end Token.Spells

theorem Value.spells {constant : Bool} {v : Value} (hv : v.WellFormed constant) :
    Spells v.chars v.tokens := by
  induction v using Value.nested with
  | reference name => exact .mark rfl (.name hv.2)
  | int n => exact .int hv.1 hv.2
  | float x => exact .float x
  | string s => exact .string s
  | boolean b =>
    cases b with
    | true => exact .name ⟨'t', _, rfl, rfl, rfl⟩
    | false => exact .name ⟨'f', _, rfl, rfl, rfl⟩
  | null => exact .name ⟨'n', _, rfl, rfl, rfl⟩
  | enum name => exact .name hv.1
  | list items ih =>
    have hitems : ∀ v ∈ items, Spells v.chars v.tokens := fun v hmem =>
      ih v hmem (items_well_formed_iff.mp hv v hmem)
    rw [chars, tokens, items_chars, items_tokens]
    exact (Token.Spells.joined (.inr rfl) hitems).enclosed rfl rfl
  | object fields ih =>
    have hfields : ∀ f ∈ fields, Spells (Argument.chars f) (Argument.tokens f) := by
      intro f hmem
      obtain ⟨hname, hvalue⟩ := fields_well_formed_iff.mp hv.2 f hmem
      exact (Token.Spells.name hname).append rfl (.mark rfl (ih f hmem hvalue))
    rw [chars, tokens, fields_chars, fields_tokens]
    exact (Token.Spells.joined (.inr rfl) hfields).enclosed rfl rfl

namespace Argument

theorem spells {a : Argument} (ha : a.WellFormed) : Spells a.chars a.tokens :=
  (Token.Spells.name ha.1).append rfl (.mark rfl (Value.spells ha.2))

theorem separated_listChars (arguments : List Argument) :
    separated (listChars arguments) = true := by
  unfold listChars
  split_ifs <;> rfl

theorem spells_list {arguments : List Argument} (ha : ∀ a ∈ arguments, a.WellFormed) :
    Spells (listChars arguments) (listTokens arguments) := by
  unfold listChars listTokens
  split_ifs with h
  · exact .nil
  · exact (Token.Spells.joined (.inr rfl) fun a hmem => spells (ha a hmem)).enclosed rfl rfl

end Argument

theorem Directive.spells {d : Directive} (hd : d.WellFormed) : Spells d.chars d.tokens :=
  .mark rfl ((Token.Spells.name hd.name).append (Argument.separated_listChars d.arguments)
    (Argument.spells_list hd.arguments))

theorem Directive.spells_list {ds : List Directive} (hd : ∀ d ∈ ds, d.WellFormed) :
    separated (ds.flatMap chars) = true ∧ Spells (ds.flatMap chars) (ds.flatMap tokens) :=
  Token.Spells.flatMap (fun _ _ => rfl) fun d hmem => spells (hd d hmem)

theorem TypeRef.spells {t : TypeRef} (ht : t.WellFormed) : Spells t.chars t.tokens := by
  induction t with
  | named name => exact .name ht
  | list item ih => exact (ih ht).enclosed rfl rfl
  | nonNull inner ih => exact (ih ht.2).closed rfl

theorem VariableDefinition.spells {v : VariableDefinition} (hv : v.WellFormed) :
    Spells v.chars v.tokens := by
  obtain ⟨name, type, default⟩ := v
  have hname := Token.Spells.name hv.name
  have htype := TypeRef.spells hv.type
  cases default with
  | none =>
    have h := hname.append rfl (.mark (c := ':') rfl htype)
    simpa [chars, tokens, defaultTokens] using h.mark (c := '$') rfl
  | some value =>
    have hvalue := Value.spells (hv.default value rfl)
    have h := hname.append rfl
      (.mark (c := ':') rfl (htype.append rfl (.mark (c := '=') rfl hvalue)))
    simpa [chars, tokens, defaultTokens] using h.mark (c := '$') rfl

end QueryGate.GraphQL
