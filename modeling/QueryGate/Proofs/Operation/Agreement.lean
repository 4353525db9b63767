import QueryGate.Proofs.Operation.Condensed
import QueryGate.Proofs.Operation.Reaches
import QueryGate.Proofs.Operation.RoundTrip

/-! # Expansion agrees with inlining

Expansion leaves out the plain spreads that repeat one among the same selections. Unless it exceeds
its limit it fails exactly where inlining does, and otherwise gives the same operation without those
repetitions. -/
namespace QueryGate

open GraphQL (Document FragmentDefinition Selection OperationDefinition)

namespace Expansion

/-- What a run within a limit gives, beside what a run without one gives: either they fail in the
same way, or their results are related, or the limit is exceeded. -/
inductive Within (limit : Nat) {α β : Type} (R : α → β → Prop) :
    Except OperationError α → Except OperationError β → Prop where
  | ok {a : α} {b : β} : R a b → Within limit R (.ok a) (.ok b)
  | error (x : OperationError) : Within limit R (.error x) (.error x)
  | exceeded (y : Except OperationError β) : Within limit R (.error (.limitExceeded limit)) y

namespace Within

variable {limit : Nat} {α β γ δ : Type} {R : α → β → Prop} {S : γ → δ → Prop}

theorem refl_bind (x : Except OperationError α) {f : α → Except OperationError γ}
    {g : α → Except OperationError δ} (h : ∀ a, x = .ok a → Within limit S (f a) (g a)) :
    Within limit S (x >>= f) (x >>= g) := by
  cases x with
  | error x => exact .error x
  | ok a => exact h a rfl

variable {x : Except OperationError α} {y : Except OperationError β}

theorem bind {f : α → Except OperationError γ} {g : β → Except OperationError δ}
    (hxy : Within limit R x y)
    (h : ∀ a b, y = .ok b → R a b → Within limit S (f a) (g b)) :
    Within limit S (x >>= f) (y >>= g) := by
  cases hxy with
  | ok hab => exact h _ _ rfl hab
  | error x => exact .error x
  | exceeded y => exact .exceeded _

theorem of_ok (h : Within limit R x y) {a : α} (hx : x = .ok a) : ∃ b, y = .ok b ∧ R a b := by
  subst hx
  cases h with
  | ok hab => exact ⟨_, rfl, hab⟩

theorem error_iff (h : Within limit R x y) (hlimit : x ≠ .error (.limitExceeded limit))
    (z : OperationError) : x = .error z ↔ y = .error z := by
  cases h with
  | ok => simp
  | error => simp
  | exceeded => exact absurd rfl hlimit

theorem exists_ok_iff (h : Within limit R x y) (hlimit : x ≠ .error (.limitExceeded limit)) :
    (∃ a, x = .ok a) ↔ ∃ b, y = .ok b := by
  cases h with
  | ok => simp
  | error => simp
  | exceeded => exact absurd rfl hlimit

end Within

/-- The body of each fragment is expanded to what inlining gives, without repetitions. -/
def Inlines (e : Expansion) (visiting : List String)
    (enter : FragmentDefinition → Nat → Except OperationError (List Node × Nat)) : Prop :=
  ∀ (name : String) (f : FragmentDefinition) (left : Nat), e.fragmentFor visiting name = .ok f →
    Within e.options.maxSelections (fun r ms => Node.CondensedList [] r.1 ms) (enter f left)
      (e.inlinedNodes (f.name :: visiting) (some f.typeCondition) f.selections)

/-- Each of some fragments has been spread plainly, and `before` holds what it was replaced by. -/
def Covers (e : Expansion) (visiting : List String) (parent : Option String) (before : List Node)
    (seen : List String) : Prop :=
  ∀ name ∈ seen, ∃ m ∈ before, e.inlinedNode visiting parent (.spread name []) = .ok m

/-- What the expansion of a selection comes to, beside the node `m` of the same selection inlined:
a node that condenses `m`, or nothing if `m` is there already. -/
structure Replaces (e : Expansion) (visiting : List String) (parent : Option String)
    (before : List Node) (r : Option Node × List String × Nat) (m : Node) : Prop where
  found : match r.1 with
    | some n => n.Condensed m
    | none => m ∈ before
  covers : Covers e visiting parent (m :: before) r.2.1

section

variable {e : Expansion} {visiting : List String} {parent : Option String} {before : List Node}
  {seen : List String}

theorem Covers.cons (h : Covers e visiting parent before seen) (m : Node) :
    Covers e visiting parent (m :: before) seen := by
  intro name hname
  obtain ⟨b, hb, hinlined⟩ := h name hname
  exact ⟨b, List.mem_cons_of_mem m hb, hinlined⟩

theorem Covers.of_cons {m : Node} (h : Covers e visiting parent (m :: before) seen)
    (hm : m ∈ before) : Covers e visiting parent before seen := by
  intro name hname
  obtain ⟨b, hb, hinlined⟩ := h name hname
  rcases List.mem_cons.mp hb with rfl | hb
  · exact ⟨b, hm, hinlined⟩
  · exact ⟨b, hb, hinlined⟩

theorem Covers.nil : Covers e visiting parent before [] := by
  intro name hname
  cases hname

theorem Covers.spread {m : Node} {name : String} (h : Covers e visiting parent before seen)
    (hm : e.inlinedNode visiting parent (.spread name []) = .ok m) :
    Covers e visiting parent (m :: before) (name :: seen) := by
  intro other hother
  rcases List.mem_cons.mp hother with rfl | hother
  · exact ⟨m, List.mem_cons_self, hm⟩
  · exact h.cons m other hother

end

variable {e : Expansion} {visiting : List String}
  {enter : FragmentDefinition → Nat → Except OperationError (List Node × Nat)}

mutual

theorem node_inlined (henter : Inlines e visiting enter) :
    ∀ (selection : Selection) (parent : Option String) (before : List Node) (seen : List String)
      (left : Nat), Covers e visiting parent before seen →
      Within e.options.maxSelections (Replaces e visiting parent before)
        (e.node enter visiting parent seen left selection) (e.inlinedNode visiting parent selection)
  | .field aliasName name arguments directives selections, parent, before, seen, left, h => by
    have ih := nodes_inlined henter selections (e.schema.fieldOrUnknown parent name).output [] []
      left .nil
    rw [node, inlinedNode]
    refine ih.bind fun r children _ hr => ?_
    exact .ok ⟨.field hr, h.cons _⟩
  | .inline condition directives selections, parent, before, seen, left, h => by
    have ih := nodes_inlined henter selections (condition.or parent) [] [] left .nil
    rw [node, inlinedNode]
    refine ih.bind fun r children _ hr => ?_
    exact .ok ⟨.fragment hr, h.cons _⟩
  | .spread name directives, parent, before, seen, left, h => by
    have hinlined := inlinedNode_spread e visiting parent name directives
    rw [hinlined, node]
    refine Within.refl_bind _ fun f hf => ?_
    rw [hf, ok_bind] at hinlined
    split
    · rename_i hrepeated
      obtain ⟨hplain, hseen⟩ : directives = [] ∧ name ∈ seen := by simpa using hrepeated
      subst hplain
      -- The spread that was met before was inlined inside the same fragments, hence to the same.
      obtain ⟨m, hm, hsame⟩ := h name hseen
      rw [← hinlined, hsame]
      exact .ok ⟨hm, h.cons m⟩
    · refine (henter name f left hf).bind fun r children hchildren hr => ?_
      rw [hchildren, ok_bind] at hinlined
      refine .ok ⟨.fragment hr, ?_⟩
      split
      · rename_i hplain
        obtain rfl := List.isEmpty_iff.mp hplain
        exact h.spread hinlined
      · exact h.cons _

theorem nodes_inlined (henter : Inlines e visiting enter) :
    ∀ (selections : List Selection) (parent : Option String) (before : List Node)
      (seen : List String) (left : Nat), Covers e visiting parent before seen →
      Within e.options.maxSelections (fun r ms => Node.CondensedList before r.1 ms)
        (e.nodes enter visiting parent seen left selections)
        (e.inlinedNodes visiting parent selections)
  | [], parent, before, seen, left, _ => by
    rw [nodes, inlinedNodes]
    exact .ok .nil
  | selection :: rest, parent, before, seen, left, h => by
    cases left with
    | zero => exact .exceeded _
    | succ left =>
      rw [nodes, inlinedNodes]
      refine (node_inlined henter selection parent before seen left h).bind fun r m _ hr => ?_
      obtain ⟨found, seen₁, left₁⟩ := r
      obtain ⟨hfound, hcovers⟩ := hr
      cases found with
      | none =>
        have ih := nodes_inlined henter rest parent before seen₁ left₁ (hcovers.of_cons hfound)
        exact ih.bind fun r ms _ hms => .ok (.repeated hfound hms)
      | some n =>
        have ih := nodes_inlined henter rest parent (m :: before) seen₁ left₁ hcovers
        exact ih.bind fun r ms _ hms => .ok (.cons hfound hms)

end

/-- One more level than there are fragments to enter is never needed. -/
theorem enter_inlined (e : Expansion) (depth : Nat) (visiting : List String)
    (hdepth : (e.unopened visiting).length ≤ depth) :
    Inlines e visiting (e.enter depth visiting) := by
  induction depth generalizing visiting with
  | zero =>
    -- Nothing is left to be entered, so the spread is refused before its body is looked at.
    intro name f left hf
    have hless := unopened_lt hf
    omega
  | succ depth ih =>
    intro name f left hf
    have hless := unopened_lt hf
    exact nodes_inlined (ih (f.name :: visiting) (by omega)) f.selections _ [] [] left .nil

end Expansion

namespace Operation

open Expansion

structure SamePaths (a b : Operation) : Prop where
  head : { a with nodes := b.nodes } = b
  paths : ∀ test : FieldTest, test.ShapeOnly → a.paths test = b.paths test
  isEmpty : ∀ test : FieldTest, test.ShapeOnly →
    (a.restrict test).isEmpty = (b.restrict test).isEmpty

theorem samePaths_of_condensed {a : Operation} {ms : List Node}
    (h : Node.CondensedList [] a.nodes ms) : a.SamePaths { a with nodes := ms } where
  head := rfl
  paths test hs := by
    have hsame := h.properties_eq hs "" (some a.root) none [] (by simp)
    rw [List.nil_append, List.nil_append] at hsame
    rw [Operation.paths, Operation.paths, hsame]
  isEmpty test hs := by
    have hnil := h.restrict_nil_iff hs (by simp)
    rw [Bool.eq_iff_iff, Operation.isEmpty, Operation.isEmpty, List.isEmpty_iff, List.isEmpty_iff]
    exact hnil

theorem ofDefinition_inlined (e : Expansion) (o : OperationDefinition) :
    Within e.options.maxSelections SamePaths (ofDefinition e o) (inlined e o) := by
  rw [ofDefinition, inlined]
  cases e.schema.root? o.kind with
  | none => exact .error _
  | some root =>
    have henter := e.enter_inlined e.document.fragments.length [] (List.length_filter_le _ _)
    have hnodes := nodes_inlined henter o.selections (some root) [] [] e.options.maxSelections .nil
    exact hnodes.bind fun r ms _ hr => .ok (samePaths_of_condensed hr)

theorem read_inlined (text : String) (name : Option String) (s : Schema) (options : ExpandOptions) :
    Within options.maxSelections SamePaths (read text name s options)
      (readInlined text name s options) := by
  rw [read, readInlined]
  cases Document.read text with
  | error e => exact .error _
  | ok document =>
    exact Within.refl_bind _ fun o _ => ofDefinition_inlined ⟨s, document, options⟩ o

/-- Within the limit, reading fails exactly as inlining every spread does, and if it gives an
operation, then one with the same paths. It gives one exactly if each spread that is met names a
fragment which the spread does not lie inside of. -/
theorem expansion_matches_inlining {text : String} {name : Option String} {s : Schema}
    {options : ExpandOptions}
    (hvisits : (readCounted text name s options.spreads).visits ≤ options.maxSelections) :
    (∀ x, read text name s options = .error x ↔ readInlined text name s options = .error x) ∧
    (∀ a, read text name s options = .ok a →
      ∃ b, readInlined text name s options = .ok b ∧ a.SamePaths b) ∧
    ∀ document o root, Document.read text = .ok document →
      select document.operations (name.filter (!·.isEmpty)) = .ok o → s.root? o.kind = some root →
      ((∃ a, read text name s options = .ok a) ↔
        ∀ inside spread, Meets ⟨s, document, options⟩ [] o.selections inside spread →
          options.spreads = true ∧ ∃ f, document.fragment? spread = some f ∧ f.name ∉ inside) := by
  have hwithin := read_inlined text name s options
  have hlimit : read text name s options ≠ .error (.limitExceeded options.maxSelections) := by
    rw [read_counted]
    exact (readCounted_unlimited text name s options.spreads).cut_ne hvisits _
  refine ⟨hwithin.error_iff hlimit, fun a => hwithin.of_ok, ?_⟩
  intro document o root hdocument hselect hroot
  rw [hwithin.exists_ok_iff hlimit]
  exact readInlined_ok_iff hdocument hselect hroot

def repeatedText : String :=
  "\x7barticle\x7b...Parts ...Parts body\x7d\x7d fragment Parts on Article\x7btitle body\x7d"

theorem repeated_parts_are_inlined :
    (readCounted repeatedText none articles true).visits ≤ ExpandOptions.standard.maxSelections ∧
    ∃ a b, read repeatedText none articles .standard = .ok a ∧
    readInlined repeatedText none articles .standard = .ok b ∧
    a.paths (FieldTest.annotated "authenticated") = [⟨"article.body"⟩] ∧
    b.paths (FieldTest.annotated "authenticated") = [⟨"article.body"⟩] ∧
    (b.restrict (FieldTest.annotated "authenticated").negate).isEmpty = false := by
  have hchecked : (read repeatedText none articles .standard).toOption.any (fun a =>
      a.paths (FieldTest.annotated "authenticated") == [⟨"article.body"⟩] &&
        !(a.restrict (FieldTest.annotated "authenticated").negate).isEmpty) = true := by
    decide +kernel
  obtain ⟨a, ha, hchecked⟩ := exists_ok_of_any hchecked
  simp only [Bool.and_eq_true, Bool.not_eq_true', beq_iff_eq] at hchecked
  obtain ⟨hpaths, hempty⟩ := hchecked
  have hshape : (FieldTest.annotated "authenticated").ShapeOnly := fun _ _ _ _ => rfl
  have hvisits := visits_le_of_read ha
  obtain ⟨-, hread, -⟩ := expansion_matches_inlining hvisits
  obtain ⟨b, hb, hsame⟩ := hread a ha
  rw [hsame.paths _ hshape] at hpaths
  rw [hsame.isEmpty _ hshape.negate] at hempty
  exact ⟨hvisits, a, b, ha, hb, (hsame.paths _ hshape).trans hpaths, hpaths, hempty⟩

end Operation

end QueryGate
