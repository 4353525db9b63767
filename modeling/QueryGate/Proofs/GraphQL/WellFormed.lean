import QueryGate.GraphQL.Document
import QueryGate.Proofs.GraphQL.Literals
import QueryGate.Proofs.Record

/-! # Well-formed values, directives and types

What reading a text can give: names are names, whole numbers are in range, the fields of an object
are in order, and a constant has no variable in it. A value with a fractional number is well-formed,
but its text need not be read back as this number and is told apart here. -/
namespace QueryGate.GraphQL

namespace Token

def WellFormed : Token → Prop
  | .name s => IsName s
  | .int n => minInt ≤ n ∧ n ≤ maxInt
  | _ => True

end Token

namespace Value

/-- Induction on a value with the items of a list and the fields of an object as members. -/
@[elab_as_elim]
theorem nested {P : Value → Prop} (reference : ∀ name, P (.variable name)) (int : ∀ n, P (.int n))
    (float : ∀ x, P (.float x)) (string : ∀ s, P (.string s)) (boolean : ∀ b, P (.boolean b))
    (null : P .null) (enum : ∀ name, P (.enum name))
    (list : ∀ items, (∀ v ∈ items, P v) → P (.list items))
    (object : ∀ fields, (∀ f ∈ fields, P f.2) → P (.object fields)) (v : Value) : P v :=
  @Value.rec P (fun items => ∀ v ∈ items, P v) (fun fields => ∀ f ∈ fields, P f.2) (fun f => P f.2)
    reference int float string boolean null enum list object
    (by simp) (fun _ _ hv hvs => List.forall_mem_cons.mpr ⟨hv, hvs⟩)
    (by simp) (fun _ _ hf hfs => List.forall_mem_cons.mpr ⟨hf, hfs⟩) (fun _ _ hv => hv) v

mutual

def WellFormed (constant : Bool) : Value → Prop
  | .variable name => constant = false ∧ Token.IsName name
  | .int n => Token.minInt ≤ n ∧ n ≤ Token.maxInt
  | .enum name => Token.IsName name ∧ name ≠ "true" ∧ name ≠ "false" ∧ name ≠ "null"
  | .list items => ItemsWellFormed constant items
  | .object fields => Record.Ordered fields ∧ FieldsWellFormed constant fields
  | .float _ | .string _ | .boolean _ | .null => True

def ItemsWellFormed (constant : Bool) : List Value → Prop
  | [] => True
  | item :: rest => item.WellFormed constant ∧ ItemsWellFormed constant rest

def FieldsWellFormed (constant : Bool) : List (String × Value) → Prop
  | [] => True
  | (name, value) :: rest =>
    (Token.IsName name ∧ value.WellFormed constant) ∧ FieldsWellFormed constant rest

end

mutual

def hasFloat : Value → Bool
  | .float _ => true
  | .list items => itemsHaveFloat items
  | .object fields => fieldsHaveFloat fields
  | _ => false

def itemsHaveFloat : List Value → Bool
  | [] => false
  | item :: rest => item.hasFloat || itemsHaveFloat rest

def fieldsHaveFloat : List (String × Value) → Bool
  | [] => false
  | (_, value) :: rest => value.hasFloat || fieldsHaveFloat rest

end

theorem items_well_formed_iff {constant : Bool} {items : List Value} :
    ItemsWellFormed constant items ↔ ∀ v ∈ items, v.WellFormed constant := by
  induction items with
  | nil => simp [ItemsWellFormed]
  | cons item rest ih => simp [ItemsWellFormed, ih]

theorem fields_well_formed_iff {constant : Bool} {fields : List (String × Value)} :
    FieldsWellFormed constant fields ↔
      ∀ f ∈ fields, Token.IsName f.1 ∧ f.2.WellFormed constant := by
  induction fields with
  | nil => simp [FieldsWellFormed]
  | cons f rest ih =>
    obtain ⟨name, value⟩ := f
    simp [FieldsWellFormed, ih]

theorem items_have_no_float_iff {items : List Value} :
    itemsHaveFloat items = false ↔ ∀ v ∈ items, v.hasFloat = false := by
  induction items with
  | nil => simp [itemsHaveFloat]
  | cons item rest ih => simp [itemsHaveFloat, ih]

theorem fields_have_no_float_iff {fields : List (String × Value)} :
    fieldsHaveFloat fields = false ↔ ∀ f ∈ fields, f.2.hasFloat = false := by
  induction fields with
  | nil => simp [fieldsHaveFloat]
  | cons f rest ih =>
    obtain ⟨name, value⟩ := f
    simp [fieldsHaveFloat, ih]

end Value

namespace Argument

def WellFormed (a : Argument) : Prop := Token.IsName a.1 ∧ a.2.WellFormed false

def haveFloat (arguments : List Argument) : Bool := arguments.any (·.2.hasFloat)

end Argument

namespace Directive

structure WellFormed (d : Directive) : Prop where
  name : Token.IsName d.name
  arguments : ∀ a ∈ d.arguments, Argument.WellFormed a

def haveFloat (directives : List Directive) : Bool :=
  directives.any fun d => Argument.haveFloat d.arguments

end Directive

/-- Only what may be absent is told not to be, and only once. -/
def TypeRef.WellFormed : TypeRef → Prop
  | .named name => Token.IsName name
  | .list item => item.WellFormed
  | .nonNull inner => inner.isNonNull = false ∧ inner.WellFormed

namespace VariableDefinition

structure WellFormed (v : VariableDefinition) : Prop where
  name : Token.IsName v.name
  type : v.type.WellFormed
  default : ∀ value, v.default = some value → value.WellFormed true

def haveFloat (definitions : List VariableDefinition) : Bool :=
  definitions.any (·.default.any Value.hasFloat)

end VariableDefinition

end QueryGate.GraphQL
