import QueryGate.Schema

/-! # Types in two parts

A type may be written as a definition with an extension behind it that has the last of its
directives and fields. That makes no difference to objects and interfaces. An extension of another
kind is not looked at, so the directives in it are lost for every field that returns the type. -/
namespace QueryGate

open GraphQL (TypeDefinition TypeKind TypeSystemDefinition)

def GraphQL.TypeKind.hasFields : TypeKind → Bool
  | .object | .interface => true
  | .scalar | .union | .enum | .input => false

/-- A type in two parts. Only where the types of a kind have fields there are fields to be moved. -/
structure GraphQL.TypeDefinition.SplitsInto (t base extension : TypeDefinition) : Prop where
  kind : base.kind = t.kind ∧ extension.kind = t.kind
  name : base.name = t.name ∧ extension.name = t.name
  directives : base.directives ++ extension.directives = t.directives
  fields : base.fields ++ extension.fields = t.fields
  no_fields : t.kind.hasFields = false → extension.fields = []

namespace Contribution

variable {α : Type} {part : Contribution → List α}

/-- All that some contributions have of one part for a type. -/
def gathered (part : Contribution → List α) (cs : List Contribution) (type : String) : List α :=
  (cs.filter (·.type == type)).flatMap part

theorem gathered_append (as bs : List Contribution) (type : String) :
    gathered part (as ++ bs) type = gathered part as type ++ gathered part bs type := by
  simp [gathered]

theorem gathered_cons_of_eq {c : Contribution} {type : String} (h : c.type = type)
    (cs : List Contribution) : gathered part (c :: cs) type = part c ++ gathered part cs type := by
  simp [gathered, h]

theorem gathered_cons_of_ne {c : Contribution} {type : String} (h : c.type ≠ type)
    (cs : List Contribution) : gathered part (c :: cs) type = gathered part cs type := by
  simp [gathered, h]

theorem gathered_congr {c d : Contribution} (htype : d.type = c.type) (hpart : part d = part c)
    (cs : List Contribution) (type : String) :
    gathered part (d :: cs) type = gathered part (c :: cs) type := by
  by_cases h : c.type = type
  · rw [gathered_cons_of_eq (htype.trans h), gathered_cons_of_eq h, hpart]
  · rw [gathered_cons_of_ne (htype ▸ h), gathered_cons_of_ne h]

theorem gathered_in_two {c first second : Contribution} (hfirst : first.type = c.type)
    (hsecond : second.type = c.type) (hpart : part first ++ part second = part c)
    (cs : List Contribution) (type : String) :
    gathered part (first :: second :: cs) type = gathered part (c :: cs) type := by
  by_cases h : c.type = type
  · rw [gathered_cons_of_eq (hfirst.trans h), gathered_cons_of_eq (hsecond.trans h),
      gathered_cons_of_eq h, ← List.append_assoc, hpart]
  · rw [gathered_cons_of_ne (hfirst ▸ h), gathered_cons_of_ne (hsecond ▸ h), gathered_cons_of_ne h]

/-- An extension counts if the types of its kind have fields. -/
theorem ofDefinition?_extension (t : TypeDefinition) :
    ofDefinition? (.extension t) = if t.kind.hasFields then some (ofType t) else none := by
  obtain ⟨kind, name, interfaces, directives, fields⟩ := t
  cases kind <;> rfl

end Contribution

namespace Schema

open Contribution (gathered ofType)

theorem contributionsOf_whole (before after : List TypeSystemDefinition) (t : TypeDefinition) :
    contributionsOf (before ++ .type t :: after) =
      contributionsOf before ++ ofType t :: contributionsOf after := by
  simp [contributionsOf, Contribution.ofDefinition?]

theorem contributionsOf_parts (before after : List TypeSystemDefinition) (t u : TypeDefinition) :
    contributionsOf (before ++ .type t :: .extension u :: after) =
      contributionsOf before ++
        ofType t :: ((if u.kind.hasFields then [ofType u] else []) ++ contributionsOf after) := by
  have htype : contributionsOf (.type t :: .extension u :: after) =
      ofType t :: contributionsOf (.extension u :: after) := by
    simp [contributionsOf, Contribution.ofDefinition?]
  have hextension : contributionsOf (.extension u :: after) =
      (if u.kind.hasFields then [ofType u] else []) ++ contributionsOf after := by
    rw [contributionsOf, List.filterMap_cons, Contribution.ofDefinition?_extension]
    cases u.kind.hasFields with
    | true => rfl
    | false => rfl
  rw [← hextension, ← htype]
  exact List.filterMap_append

theorem declaredRoots_parts (before after : List TypeSystemDefinition) (t u v : TypeDefinition) :
    declaredRoots (before ++ .type t :: .extension u :: after) =
      declaredRoots (before ++ .type v :: after) := by
  simp [declaredRoots, List.findSome?_append]

theorem ofDefinitions_of_same_roots {as bs : List TypeSystemDefinition}
    (hroots : declaredRoots bs = declaredRoots as)
    (hdeclares : ∀ type,
      declares (contributionsOf bs) type = declares (contributionsOf as) type) :
    ofDefinitions bs =
      (ofDefinitions as).map fun s => { s with contributions := contributionsOf bs } := by
  have hroot : ∀ declared usual, rootOr declared (contributionsOf bs) usual =
      rootOr declared (contributionsOf as) usual := by
    intro declared usual
    rw [rootOr, rootOr, hdeclares]
  simp only [ofDefinitions, hroots, hroot]
  cases rootOr (declaredRoots as).1 (contributionsOf as) "Query" with
  | none => rfl
  | some query => rfl

/-- Where the root types are the same, one list of definitions gives a schema if the other does. -/
theorem ofDefinitions_ok_of_same_roots {as bs : List TypeSystemDefinition}
    (hroots : declaredRoots bs = declaredRoots as)
    (hdeclares : ∀ type,
      declares (contributionsOf bs) type = declares (contributionsOf as) type)
    {s : Schema} (hs : ofDefinitions as = .ok s) :
    ∃ u, ofDefinitions bs = .ok u ∧ (∀ kind, u.root? kind = s.root? kind) ∧
      u.contributions = contributionsOf bs := by
  refine ⟨_, (ofDefinitions_of_same_roots hroots hdeclares).trans (by rw [hs]; rfl), ?_, rfl⟩
  intro kind
  cases kind <;> rfl

theorem contributions_of_definitions {definitions : List TypeSystemDefinition} {s : Schema}
    (h : ofDefinitions definitions = .ok s) : s.contributions = contributionsOf definitions := by
  unfold ofDefinitions at h
  dsimp only at h
  split at h
  · cases h
  · cases h
    rfl

/-- A schema with the same fields says the same of a field exactly if it has the same annotations
for the type that the field returns. -/
theorem same_field_iff {s u : Schema} (h : ∀ type, u.fieldsOf type = s.fieldsOf type)
    {type name : String} :
    u.field? type name = s.field? type name ↔
      ∀ i out, s.field? type name = some i → i.output = some out →
        u.annotationsOf out = s.annotationsOf out := by
  rw [field?, field?, h]
  cases (s.fieldsOf type).reverse.find? (·.name == name) with
  | none => simp
  | some d =>
    constructor
    · intro hsame i out hi hout
      obtain rfl := Option.some.inj hi
      obtain rfl := Option.some.inj hout
      exact congrArg FieldInfo.typeAnnotations (Option.some.inj hsame)
    · intro hsame
      have hannotations := hsame _ _ rfl rfl
      simp [hannotations]

section

variable {t base extension : TypeDefinition} {before after : List TypeSystemDefinition}
  {s u : Schema}

theorem declares_parts (h : t.SplitsInto base extension) (type : String) :
    declares (contributionsOf (before ++ .type base :: .extension extension :: after)) type =
      declares (contributionsOf (before ++ .type t :: after)) type := by
  have hbase : (ofType base).type = (ofType t).type := h.name.1
  have hextension : (ofType extension).type = (ofType t).type := h.name.2
  rw [contributionsOf_parts, contributionsOf_whole]
  cases extension.kind.hasFields with
  | true => simp [declares, hbase, hextension]
  | false => simp [declares, hbase]

theorem fieldsOf_parts (h : t.SplitsInto base extension)
    (hs : s.contributions = contributionsOf (before ++ .type t :: after))
    (hu : u.contributions =
      contributionsOf (before ++ .type base :: .extension extension :: after))
    (type : String) : u.fieldsOf type = s.fieldsOf type := by
  have hfields : gathered (·.fields) u.contributions type =
      gathered (·.fields) s.contributions type := by
    rw [hs, hu, contributionsOf_parts, contributionsOf_whole, Contribution.gathered_append,
      Contribution.gathered_append, h.kind.2]
    congr 1
    cases hk : t.kind.hasFields with
    | true => exact Contribution.gathered_in_two h.name.1 h.name.2 h.fields _ type
    | false =>
      have hbase : base.fields = t.fields := by
        rw [← h.fields, h.no_fields hk, List.append_nil]
      exact Contribution.gathered_congr h.name.1 hbase _ type
  exact hfields

/-- The extension is lost exactly if it has directives for a type without fields. -/
theorem annotationsOf_parts_iff (h : t.SplitsInto base extension)
    (hs : s.contributions = contributionsOf (before ++ .type t :: after))
    (hu : u.contributions =
      contributionsOf (before ++ .type base :: .extension extension :: after))
    (type : String) :
    u.annotationsOf type = s.annotationsOf type ↔
      t.kind.hasFields = true ∨ extension.directives = [] ∨ type ≠ t.name := by
  have hdirectives : (ofType base).annotations ++ (ofType extension).annotations =
      (ofType t).annotations := by
    simp [ofType, ← h.directives]
  have hannotations : u.annotationsOf type = s.annotationsOf type ↔
      gathered (·.annotations) u.contributions type =
        gathered (·.annotations) s.contributions type := Iff.rfl
  rw [hannotations, hs, hu, contributionsOf_parts, contributionsOf_whole,
    Contribution.gathered_append, Contribution.gathered_append, h.kind.2,
    List.append_cancel_left_eq]
  cases hk : t.kind.hasFields with
  | true =>
    refine iff_of_true ?_ (.inl rfl)
    exact Contribution.gathered_in_two (c := ofType t) h.name.1 h.name.2 hdirectives _ type
  | false =>
    by_cases ht : t.name = type
    · have hlost : gathered (·.annotations) (ofType base :: contributionsOf after) type =
            gathered (·.annotations) (ofType t :: contributionsOf after) type ↔
          extension.directives = [] := by
        rw [Contribution.gathered_cons_of_eq (h.name.1.trans ht),
          Contribution.gathered_cons_of_eq (c := ofType t) ht, ← hdirectives, List.append_assoc,
          List.append_cancel_left_eq, List.self_eq_append_left]
        exact List.map_eq_nil_iff
      simpa [ht] using hlost
    · have hother : gathered (·.annotations) (ofType base :: contributionsOf after) type =
          gathered (·.annotations) (ofType t :: contributionsOf after) type := by
        have hbase : base.name ≠ type := fun he => ht (h.name.1.symm.trans he)
        rw [Contribution.gathered_cons_of_ne (c := ofType base) hbase,
          Contribution.gathered_cons_of_ne (c := ofType t) ht]
      exact iff_of_true hother (.inr (.inr fun he => ht he.symm))

theorem field_of_parts_iff (h : t.SplitsInto base extension)
    (hs : s.contributions = contributionsOf (before ++ .type t :: after))
    (hu : u.contributions =
      contributionsOf (before ++ .type base :: .extension extension :: after))
    (type name : String) :
    u.field? type name = s.field? type name ↔
      t.kind.hasFields = true ∨ extension.directives = [] ∨
        ∀ i, s.field? type name = some i → i.output ≠ some t.name := by
  rw [same_field_iff (fieldsOf_parts h hs hu)]
  simp only [annotationsOf_parts_iff h hs hu]
  constructor
  · intro hall
    by_cases hk : t.kind.hasFields = true
    · exact .inl hk
    by_cases hd : extension.directives = []
    · exact .inr (.inl hd)
    refine .inr (.inr fun i hi hout => ?_)
    rcases hall i t.name hi hout with hkind | hnone | hne
    · exact hk hkind
    · exact hd hnone
    · exact hne rfl
  · intro hkept i out hi hout
    rcases hkept with hk | hd | hreturns
    · exact .inl hk
    · exact .inr (.inl hd)
    · exact .inr (.inr fun he => hreturns i hi (he ▸ hout))

/-- A type in two parts leaves the root types, and all fields that do not return the type, as they
are. It leaves everything as it is exactly if the types of its kind have fields, or no directives
are moved, or no field returns the type. -/
theorem type_in_two_parts_is_same_iff (h : t.SplitsInto base extension) :
    (∀ e, ofDefinitions (before ++ .type t :: after) = .error e ↔
      ofDefinitions (before ++ .type base :: .extension extension :: after) = .error e) ∧
    ∀ s, ofDefinitions (before ++ .type t :: after) = .ok s →
      ∃ u, ofDefinitions (before ++ .type base :: .extension extension :: after) = .ok u ∧
        (∀ kind, u.root? kind = s.root? kind) ∧
        (∀ type name, (∀ i, s.field? type name = some i → i.output ≠ some t.name) →
          u.field? type name = s.field? type name) ∧
        ((∀ type name, u.field? type name = s.field? type name) ↔
          t.kind.hasFields = true ∨ extension.directives = [] ∨
            ∀ type name i, s.field? type name = some i → i.output ≠ some t.name) := by
  have hroots := declaredRoots_parts before after base extension t
  refine ⟨fun e => ?_, fun s hs => ?_⟩
  · rw [ofDefinitions_of_same_roots hroots (declares_parts h)]
    cases ofDefinitions (before ++ .type t :: after) with
    | error f => exact Iff.rfl
    | ok s => exact iff_of_false nofun nofun
  · obtain ⟨u, hu, hroot, hcontributions⟩ :=
      ofDefinitions_ok_of_same_roots hroots (declares_parts h) hs
    have hfield := field_of_parts_iff h (contributions_of_definitions hs) hcontributions
    refine ⟨u, hu, hroot, fun type name hreturns => ?_, ?_⟩
    · exact (hfield type name).mpr (.inr (.inr hreturns))
    · constructor
      · intro hall
        by_cases hk : t.kind.hasFields = true
        · exact .inl hk
        by_cases hd : extension.directives = []
        · exact .inr (.inl hd)
        refine .inr (.inr fun type name => ?_)
        have hkept := (hfield type name).mp (hall type name)
        exact (hkept.resolve_left hk).resolve_left hd
      · intro hkept type name
        refine (hfield type name).mpr ?_
        exact hkept.imp_right fun hkept => hkept.imp_right fun hreturns => hreturns type name

end

def queryFor (name type : String) : TypeDefinition :=
  ⟨.object, "Query", [], [], [⟨name, .named type, []⟩]⟩

def account : TypeDefinition :=
  ⟨.object, "Account", [], [⟨"key", []⟩, ⟨"authenticated", []⟩],
    [⟨"id", .named "ID", []⟩, ⟨"owner", .named "Account", []⟩]⟩

theorem account_in_two_parts_is_same : ∃ base extension : TypeDefinition,
    account.SplitsInto base extension ∧ extension.directives = [⟨"authenticated", []⟩] ∧
      extension.fields.length = 1 ∧
      ∃ s u, ofDefinitions [.type (queryFor "me" "Account"), .type account] = .ok s ∧
        ofDefinitions [.type (queryFor "me" "Account"), .type base, .extension extension] = .ok u ∧
        (u.field? "Query" "me").any (·.isAnnotated "authenticated") = true ∧
        ∀ type name, u.field? type name = s.field? type name := by
  let base : TypeDefinition :=
    ⟨.object, "Account", [], [⟨"key", []⟩], [⟨"id", .named "ID", []⟩]⟩
  let extension : TypeDefinition :=
    ⟨.object, "Account", [], [⟨"authenticated", []⟩], [⟨"owner", .named "Account", []⟩]⟩
  have hsplit : account.SplitsInto base extension :=
    ⟨⟨rfl, rfl⟩, ⟨rfl, rfl⟩, rfl, rfl, nofun⟩
  let query : List TypeSystemDefinition := [.type (queryFor "me" "Account")]
  obtain ⟨-, hok⟩ := @type_in_two_parts_is_same_iff account base extension query [] hsplit
  obtain ⟨u, hu, -, -, hsame⟩ := hok _ rfl
  have hfields := hsame.mpr (.inl rfl)
  refine ⟨base, extension, hsplit, rfl, rfl, _, u, rfl, hu, ?_, hfields⟩
  rw [hfields]
  decide

def statusText : String :=
  "type Query \x7b status: Status \x7d enum Status @authenticated \x7b OPEN \x7d"

def extendedStatusText : String :=
  "type Query \x7b status: Status \x7d enum Status \x7b OPEN \x7d extend enum Status @authenticated"

/-- A directive in the extension of an enumeration does not restrict the fields that return it. -/
theorem enum_in_two_parts_differs : ∃ t base extension : TypeDefinition,
    TypeSystemDefinition.readAll statusText =
      .ok ([.type (queryFor "status" "Status")] ++ .type t :: []) ∧
    TypeSystemDefinition.readAll extendedStatusText =
      .ok ([.type (queryFor "status" "Status")] ++ .type base :: .extension extension :: []) ∧
    t.SplitsInto base extension ∧
    ∃ s u, read statusText = .ok s ∧ read extendedStatusText = .ok u ∧
      (s.field? "Query" "status").map (·.isAnnotated "authenticated") = some true ∧
      (u.field? "Query" "status").map (·.isAnnotated "authenticated") = some false ∧
      u.field? "Query" "status" ≠ s.field? "Query" "status" :=
  ⟨⟨.enum, "Status", [], [⟨"authenticated", []⟩], []⟩, ⟨.enum, "Status", [], [], []⟩,
    ⟨.enum, "Status", [], [⟨"authenticated", []⟩], []⟩, rfl, rfl,
    ⟨⟨rfl, rfl⟩, ⟨rfl, rfl⟩, rfl, rfl, fun _ => rfl⟩, _, _, rfl, rfl, by decide, by decide,
    by decide⟩

end Schema

end QueryGate
