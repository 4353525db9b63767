import Mathlib.Data.List.Dedup
import Mathlib.Data.List.Induction
import Mathlib.Logic.Function.Basic
import QueryGate.Proofs.Schema.Extension

/-! # Tables of fields

A schema may be kept as a table of fields. It is made in two passes: what is contributed to the
types is gathered in a table of types, and then the fields of each type are described with the
annotations that this table has for the types they return. The second pass meets the types in no
particular order. In any order it gives what the schema says of its fields. -/
namespace QueryGate

open GraphQL (FieldDefinition)

abbrev Table (α : Type) := String → Option α

namespace Table

variable {α β : Type}

def empty : Table α := fun _ => none

def insert (t : Table α) (key : String) (value : α) : Table α := Function.update t key (some value)

@[simp] theorem empty_apply (key : String) : (empty : Table α) key = none := rfl

@[simp] theorem insert_self (t : Table α) (key : String) (value : α) :
    t.insert key value key = some value := Function.update_self ..

theorem insert_of_ne {key other : String} (h : other ≠ key) (t : Table α) (value : α) :
    t.insert key value other = t other := Function.update_of_ne h ..

structure Enumerates (order : List (String × α)) (t : Table α) : Prop where
  nodup : (order.map Prod.fst).Nodup
  mem_iff : ∀ key value, (key, value) ∈ order ↔ t key = some value

theorem Enumerates.not_mem_keys {order : List (String × α)} {t : Table α} (h : Enumerates order t)
    {key : String} (hnone : t key = none) : key ∉ order.map Prod.fst := by
  intro hmem
  obtain ⟨⟨other, value⟩, hentry, rfl⟩ := List.mem_map.mp hmem
  have hsome := (h.mem_iff other value).mp hentry
  cases hnone.symm.trans hsome

/-- Of several values that are inserted for a key the last stays. -/
theorem foldl_insert_apply (key : β → String) (value : β → α) (xs : List β) (t : Table α)
    (k : String) :
    xs.foldl (fun t x => t.insert (key x) (value x)) t k =
      ((xs.reverse.find? (key · == k)).map value).or (t k) := by
  induction xs generalizing t with
  | nil => simp
  | cons x xs ih =>
    rw [List.foldl_cons, ih, List.reverse_cons, List.find?_append]
    cases xs.reverse.find? (key · == k) with
    | some y => simp
    | none =>
      by_cases hk : key x = k
      · subst hk
        simp
      · have hother : k ≠ key x := fun h => hk h.symm
        simp [hk, insert_of_ne hother]

end Table

namespace Schema

open Contribution (gathered)

structure TypeEntry where
  annotations : List Annotation
  fields : List FieldDefinition

namespace TypeEntry

def add (e : TypeEntry) (c : Contribution) : TypeEntry :=
  ⟨e.annotations ++ c.annotations, e.fields ++ c.fields⟩

def ofContributions (cs : List Contribution) (type : String) : TypeEntry :=
  ⟨gathered (·.annotations) cs type, gathered (·.fields) cs type⟩

theorem ofContributions_concat_self (cs : List Contribution) (c : Contribution) :
    ofContributions (cs ++ [c]) c.type = (ofContributions cs c.type).add c := by
  simp [ofContributions, add, gathered]

theorem ofContributions_concat_of_ne {c : Contribution} {type : String} (h : c.type ≠ type)
    (cs : List Contribution) : ofContributions (cs ++ [c]) type = ofContributions cs type := by
  simp [ofContributions, gathered, h]

theorem ofContributions_of_not_declares {cs : List Contribution} {type : String}
    (h : declares cs type = false) : ofContributions cs type = ⟨[], []⟩ := by
  have hnone : cs.filter (·.type == type) = [] := by
    simpa [declares] using h
  simp [ofContributions, gathered, hnone]

end TypeEntry

/-- A contribution goes to the entry of its type, which is made if there is none. -/
def addContribution (t : Table TypeEntry) (c : Contribution) : Table TypeEntry :=
  t.insert c.type (((t c.type).getD ⟨[], []⟩).add c)

def typeTable (cs : List Contribution) : Table TypeEntry :=
  cs.foldl addContribution .empty

def describe (types : Table TypeEntry) (type : String) (f : FieldDefinition) : FieldInfo :=
  { parent := some type
    output := some f.type.baseName
    isList := f.type.isList
    isNonNull := f.type.isNonNull
    annotations := f.directives.map Annotation.ofDirective
    typeAnnotations := ((types f.type.baseName).map (·.annotations)).getD [] }

def addType (types : Table TypeEntry) (t : Table (Table FieldInfo)) (entry : String × TypeEntry) :
    Table (Table FieldInfo) :=
  t.insert entry.1 <|
    entry.2.fields.foldl (fun fields f => fields.insert f.name (describe types entry.1 f))
      ((t entry.1).getD .empty)

def tabulate (types : Table TypeEntry) (order : List (String × TypeEntry)) :
    Table (Table FieldInfo) :=
  order.foldl (addType types) .empty

/-- The table of fields of a schema, made in some order of the types. -/
def IsTable (s : Schema) (t : Table (Table FieldInfo)) : Prop :=
  ∃ order, Table.Enumerates order (typeTable s.contributions) ∧
    t = tabulate (typeTable s.contributions) order

/-- A type has an entry exactly if something is contributed to it, and the entry has all of it. -/
theorem typeTable_apply (cs : List Contribution) (type : String) :
    typeTable cs type =
      if declares cs type then some (TypeEntry.ofContributions cs type) else none := by
  induction cs using List.reverseRecOn with
  | nil => rfl
  | append_singleton cs c ih =>
    have hstep : typeTable (cs ++ [c]) = addContribution (typeTable cs) c := by
      simp [typeTable, List.foldl_append]
    rw [hstep, addContribution]
    by_cases hc : c.type = type
    · subst hc
      have hentry : (typeTable cs c.type).getD ⟨[], []⟩ = TypeEntry.ofContributions cs c.type := by
        rw [ih]
        cases hd : declares cs c.type with
        | true => rfl
        | false => exact (TypeEntry.ofContributions_of_not_declares hd).symm
      have hdeclares : declares (cs ++ [c]) c.type = true := by simp [declares]
      rw [Table.insert_self, hentry, if_pos hdeclares, TypeEntry.ofContributions_concat_self]
    · have hdeclares : declares (cs ++ [c]) type = declares cs type := by simp [declares, hc]
      have hother : type ≠ c.type := fun h => hc h.symm
      rw [Table.insert_of_ne hother, ih, hdeclares, TypeEntry.ofContributions_concat_of_ne hc]

theorem annotations_of_typeTable (s : Schema) (type : String) :
    ((typeTable s.contributions type).map (·.annotations)).getD [] = s.annotationsOf type := by
  have hall : s.annotationsOf type = (TypeEntry.ofContributions s.contributions type).annotations :=
    rfl
  rw [typeTable_apply, hall]
  cases hd : declares s.contributions type with
  | true => rfl
  | false => rw [TypeEntry.ofContributions_of_not_declares hd]; rfl

theorem typeTable_eq_some_iff {cs : List Contribution} {type : String} {e : TypeEntry} :
    typeTable cs type = some e ↔
      type ∈ cs.map (·.type) ∧ TypeEntry.ofContributions cs type = e := by
  have hdeclares : declares cs type = true ↔ type ∈ cs.map (·.type) := by simp [declares]
  rw [typeTable_apply, ← hdeclares]
  cases declares cs type <;> simp

theorem exists_enumerates_typeTable (cs : List Contribution) :
    ∃ order, Table.Enumerates order (typeTable cs) := by
  refine ⟨(cs.map (·.type)).dedup.map fun type => (type, TypeEntry.ofContributions cs type),
    ⟨?_, fun type e => ?_⟩⟩
  · have hkeys (types : List String) :
        (types.map fun type => (type, TypeEntry.ofContributions cs type)).map Prod.fst = types := by
      simp [Function.comp_def]
    rw [hkeys]
    exact List.nodup_dedup _
  · rw [typeTable_eq_some_iff, List.mem_map]
    constructor
    · rintro ⟨key, hmem, hkey⟩
      cases hkey
      exact ⟨List.mem_dedup.mp hmem, rfl⟩
    · rintro ⟨hmem, rfl⟩
      exact ⟨type, List.mem_dedup.mpr hmem, rfl⟩

theorem exists_isTable (s : Schema) : ∃ t, s.IsTable t := by
  obtain ⟨order, horder⟩ := exists_enumerates_typeTable s.contributions
  exact ⟨_, order, horder, rfl⟩

section

variable {types : Table TypeEntry} {type : String}

theorem foldl_addType_of_not_mem {order : List (String × TypeEntry)}
    (h : type ∉ order.map Prod.fst) (t : Table (Table FieldInfo)) :
    order.foldl (addType types) t type = t type := by
  induction order generalizing t with
  | nil => rfl
  | cons entry order ih =>
    rw [List.map_cons, List.mem_cons, not_or] at h
    rw [List.foldl_cons, ih h.2, addType, Table.insert_of_ne h.1]

theorem foldl_addType_of_mem {entry : TypeEntry} {order : List (String × TypeEntry)}
    (hnodup : (order.map Prod.fst).Nodup) (hmem : (type, entry) ∈ order)
    {t : Table (Table FieldInfo)} (ht : t type = none) :
    order.foldl (addType types) t type =
      some (entry.fields.foldl (fun fields f => fields.insert f.name (describe types type f))
        .empty) := by
  induction order generalizing t with
  | nil => cases hmem
  | cons first order ih =>
    rw [List.map_cons, List.nodup_cons] at hnodup
    rw [List.foldl_cons]
    rcases List.mem_cons.mp hmem with rfl | hlater
    · rw [foldl_addType_of_not_mem hnodup.1, addType, Table.insert_self, ht]
      rfl
    · have hkey : type ∈ order.map Prod.fst := List.mem_map_of_mem hlater
      have hne : type ≠ first.1 := fun he => hnodup.1 (he ▸ hkey)
      refine ih hnodup.2 hlater ?_
      rw [addType, Table.insert_of_ne hne, ht]

end

/-- In whatever order the types come, the table of fields says what the schema says. -/
theorem IsTable.lookup {s : Schema} {t : Table (Table FieldInfo)} (h : s.IsTable t)
    (type name : String) : (t type).bind (· name) = s.field? type name := by
  obtain ⟨order, horder, rfl⟩ := h
  have hentry := typeTable_apply s.contributions type
  cases hd : declares s.contributions type with
  | false =>
    rw [hd, if_neg Bool.false_ne_true] at hentry
    have hnone : tabulate (typeTable s.contributions) order type = none :=
      foldl_addType_of_not_mem (horder.not_mem_keys hentry) _
    have hfields : s.fieldsOf type = [] :=
      congrArg TypeEntry.fields (TypeEntry.ofContributions_of_not_declares hd)
    rw [hnone, field?, hfields]
    rfl
  | true =>
    rw [hd, if_pos rfl] at hentry
    have hmem := (horder.mem_iff _ _).mpr hentry
    have hsome := @foldl_addType_of_mem (typeTable s.contributions) type _ order horder.nodup hmem
      _ (Table.empty_apply type)
    rw [tabulate, hsome, Option.bind_some, Table.foldl_insert_apply, Table.empty_apply,
      Option.or_none, field?]
    congr 1
    funext f
    rw [describe, annotations_of_typeTable]

end Schema

end QueryGate
