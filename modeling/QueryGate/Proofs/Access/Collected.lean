import Mathlib.Data.List.Basic
import QueryGate.Proofs.Access.Paths
import QueryGate.Proofs.Operation.RoundTrip

/-! # Collected paths

Each field occurrence has a path that can be read off the nodes around it: the response keys from
the root, joined by dots, where a key is marked by the innermost type condition that tells its field
apart. What a collection gives are the paths of the occurrences that pass the test, each once, in
the order in which a walk of the document in pre-order first comes to them. -/
namespace QueryGate

open Node (leadsTo)

namespace Node

/-- The output type of the field around a place, or the type of the root. The nodes around the place
are given from the innermost one outwards. -/
def outputAround (root : Option String) : (around : List Node) → Option String
  | [] => root
  | .field f _ :: _ => f.info.output
  | .fragment _ _ :: around => outputAround root around

def conditionsAround : (around : List Node) → List String
  | .fragment g _ :: around => g.typeCondition.toList ++ conditionsAround around
  | _ => []

/-- The innermost of these conditions that is not just the type selected on. -/
def markAround (root : Option String) (around : List Node) : Option String :=
  (conditionsAround around).find? fun t => some t != outputAround root around

def markedKey (key : String) : (type : Option String) → String
  | none => key
  | some t => key ++ ":" ++ t

def markedKeys (root : Option String) : (around chain : List Node) → List String
  | _, [] => []
  | around, .field f cs :: rest =>
    markedKey f.key (markAround root around) :: markedKeys root (.field f cs :: around) rest
  | around, .fragment g cs :: rest => markedKeys root (.fragment g cs :: around) rest

theorem markAround_fragment (root : Option String) (around : List Node) (g : Fragment)
    (cs : List Node) : markAround root (.fragment g cs :: around) =
      markedType (outputAround root around) (markAround root around) g := by
  unfold markAround markedType
  rw [conditionsAround, outputAround]
  cases g.typeCondition with
  | none => rfl
  | some t =>
    by_cases ht : some t = outputAround root around
    · have hskip : (some t != outputAround root around) = false := by simpa using ht
      simp only [Option.toList_some, List.singleton_append, List.find?_cons, hskip, if_pos ht]
    · have htake : (some t != outputAround root around) = true := by simpa using ht
      simp only [Option.toList_some, List.singleton_append, List.find?_cons, htake, if_neg ht]

theorem child_eq (stem key : String) (type : Option String) :
    Path.child stem key type =
      if stem.isEmpty then markedKey key type else stem ++ "." ++ markedKey key type := by
  cases type with
  | none => rfl
  | some t =>
    unfold Path.child markedKey
    split <;> simp [String.append_assoc]

theorem property_behind (root : Option String) {stem : String} (hstem : stem.isEmpty = false)
    (around chain : List Node) :
    property stem (outputAround root around) (markAround root around) chain =
      ".".intercalate (stem :: markedKeys root around chain) := by
  induction chain generalizing stem around with
  | nil => rfl
  | cons n rest ih =>
    cases n with
    | field f cs =>
      have hchild : Path.child stem f.key (markAround root around) =
          stem ++ "." ++ markedKey f.key (markAround root around) := by
        simp [child_eq, hstem]
      have hne : (stem ++ "." ++ markedKey f.key (markAround root around)).isEmpty = false := by
        simp [Bool.eq_false_iff, String.isEmpty_iff]
      rw [property, hchild]
      exact ih hne (.field f cs :: around)
    | fragment g cs =>
      rw [property, ← markAround_fragment root around g cs]
      exact ih hstem (.fragment g cs :: around)

theorem property_from_root (root : Option String) (around chain : List Node) :
    property "" (outputAround root around) (markAround root around) chain =
      ".".intercalate ((markedKeys root around chain).dropWhile (·.isEmpty)) := by
  induction chain generalizing around with
  | nil => rfl
  | cons n rest ih =>
    cases n with
    | field f cs =>
      have hchild : Path.child "" f.key (markAround root around) =
          markedKey f.key (markAround root around) := by
        simp [child_eq]
      rw [property, hchild, markedKeys]
      cases hempty : (markedKey f.key (markAround root around)).isEmpty with
      | true =>
        rw [List.dropWhile_cons_of_pos hempty, String.isEmpty_iff.mp hempty]
        exact ih (.field f cs :: around)
      | false =>
        rw [List.dropWhile_cons_of_neg (Bool.eq_false_iff.mp hempty)]
        exact property_behind root hempty (.field f cs :: around) rest
    | fragment g cs =>
      rw [property, ← markAround_fragment root around g cs]
      exact ih (.fragment g cs :: around)

theorem markedKey_ne_empty {key : String} (h : key ≠ "") (type : Option String) :
    (markedKey key type).isEmpty = false := by
  cases type with
  | none => simpa [markedKey, Bool.eq_false_iff, String.isEmpty_iff] using h
  | some t => simp [markedKey, Bool.eq_false_iff, String.isEmpty_iff]

/-- No key is left out where none is empty. -/
theorem markedKeys_dropWhile (root : Option String) (around : List Node) {chain : List Node}
    (h : "" ∉ keys chain) :
    (markedKeys root around chain).dropWhile (·.isEmpty) = markedKeys root around chain := by
  induction chain generalizing around with
  | nil => rfl
  | cons n rest ih =>
    cases n with
    | field f cs =>
      have hkey : f.key ≠ "" := fun he => h (he ▸ List.mem_cons_self)
      have hne := markedKey_ne_empty hkey (markAround root around)
      rw [markedKeys, List.dropWhile_cons_of_neg (Bool.eq_false_iff.mp hne)]
    | fragment g cs => exact ih (.fragment g cs :: around) h

theorem mem_keys {key : String} {chain : List Node} :
    key ∈ keys chain ↔ ∃ f cs, .field f cs ∈ chain ∧ key = f.key := by
  induction chain with
  | nil => simp [keys]
  | cons n rest ih =>
    cases n with
    | field f cs => simp [keys, ih, or_and_right, exists_or]
    | fragment g cs => simp [keys, ih]

theorem field_at_end {n : Node} {chain : List Node} (h : chain ∈ n.fieldChains) :
    ∃ around f cs, chain = around ++ [.field f cs] := by
  induction n using Node.descend generalizing chain with
  | h n ih =>
    obtain ⟨f, cs, rfl, rfl⟩ | ⟨c, hc, rest, hrest, rfl⟩ := field_chain_cases h
    · exact ⟨[], f, cs, rfl⟩
    · obtain ⟨around, f, cs, rfl⟩ := ih c hc hrest
      exact ⟨n :: around, f, cs, rfl⟩

theorem leadsTo_field (test : FieldTest) (around : List Node) (f : Field) (cs : List Node) :
    leadsTo test (around ++ [.field f cs]) = test f cs := by
  simp [leadsTo, passes]

end Node

/-! First occurrences -/

theorem findIdx_filter_lt_iff {α : Type} (l : List α) (t p q : α → Bool) :
    (l.filter t).findIdx p < (l.filter t).findIdx q ↔
      l.findIdx (fun x => t x && p x) < l.findIdx fun x => t x && q x := by
  induction l with
  | nil => simp
  | cons x l ih =>
    cases ht : t x with
    | false => simpa [List.findIdx_cons, ht] using ih
    | true => cases hp : p x <;> cases hq : q x <;> simp [List.findIdx_cons, ht, hp, hq, ih]

theorem idxOf_eraseDups_lt_iff {α : Type} [DecidableEq α] (l : List α) (a b : α) :
    l.eraseDups.idxOf a < l.eraseDups.idxOf b ↔ l.idxOf a < l.idxOf b := by
  match l with
  | [] => simp
  | c :: l =>
    have ih := idxOf_eraseDups_lt_iff (l.filter fun x => !x == c) a b
    have hpast : ∀ {x : α}, x ≠ c → (fun y => (!y == c) && y == x) = fun y => y == x := by
      intro x hx
      funext y
      by_cases hy : y = x <;> simp [hy, hx]
    rw [List.eraseDups_cons, List.idxOf_cons, List.idxOf_cons, List.idxOf_cons, List.idxOf_cons]
    cases ha : c == a with
    | true => cases c == b <;> simp
    | false =>
      cases hb : c == b with
      | true => simp
      | false =>
        have hca : a ≠ c := fun he => by simp [he] at ha
        have hcb : b ≠ c := fun he => by simp [he] at hb
        simp only [cond_false, Nat.add_lt_add_iff_right]
        rw [ih, List.idxOf, List.idxOf, findIdx_filter_lt_iff, hpast hca, hpast hcb]
termination_by l.length
decreasing_by
  have hle := List.length_filter_le (fun x => !x == c) l
  simp only [List.length_cons]
  omega

namespace Operation

/-- The path of an occurrence, read off the nodes on the way to it. An empty key at the root is not
followed by a dot. -/
def markedPath (o : Operation) (chain : List Node) : Path :=
  ⟨".".intercalate ((Node.markedKeys (some o.root) [] chain).dropWhile (·.isEmpty))⟩

theorem pathTo_eq (o : Operation) (chain : List Node) : o.pathTo chain = o.markedPath chain :=
  congrArg Path.mk (Node.property_from_root (some o.root) [] chain)

/-- How many occurrences a walk in pre-order meets before the first one that passes a test and has
the given path. -/
def firstAt (o : Operation) (test : FieldTest) (p : Path) : Nat :=
  o.fieldChains.findIdx fun chain => leadsTo test chain && o.markedPath chain == p

theorem idxOf_paths_lt_iff (o : Operation) (test : FieldTest) (p q : Path) :
    (o.paths test).idxOf p < (o.paths test).idxOf q ↔ o.firstAt test p < o.firstAt test q := by
  rw [paths_eq, occurrencePaths, idxOf_eraseDups_lt_iff, List.idxOf, List.idxOf, List.findIdx_map,
    List.findIdx_map, findIdx_filter_lt_iff]
  simp only [Function.comp_def, pathTo_eq]
  rfl

theorem mem_paths_iff (o : Operation) (test : FieldTest) (p : Path) :
    p ∈ o.paths test ↔ ∃ around f cs, around ++ [.field f cs] ∈ o.fieldChains ∧
      test f cs = true ∧ p = o.markedPath (around ++ [.field f cs]) := by
  rw [mem_paths]
  constructor
  · rintro ⟨chain, hc, hpass, rfl⟩
    obtain ⟨n, -, hchain⟩ := Node.mem_listFieldChains.mp hc
    obtain ⟨around, f, cs, rfl⟩ := Node.field_at_end hchain
    rw [Node.leadsTo_field] at hpass
    exact ⟨around, f, cs, hc, hpass, o.pathTo_eq _⟩
  · rintro ⟨around, f, cs, hc, hpass, rfl⟩
    exact ⟨_, hc, (Node.leadsTo_field test around f cs).trans hpass, o.pathTo_eq _⟩

/-- Every field that is read has a name, and so it has a key. -/
theorem keys_of_read {text : String} {name : Option String} {s : Schema} {options : ExpandOptions}
    {o : Operation} (h : read text name s options = .ok o) {chain : List Node}
    (hchain : chain ∈ o.fieldChains) : "" ∉ Node.keys chain := by
  intro hempty
  obtain ⟨f, cs, hmem, hkey⟩ := Node.mem_keys.mp hempty
  have hnames := (read_from h).1.resolved.hasNames.on_chain hchain _ hmem
  obtain ⟨c, rest, hchars, -⟩ := hnames.key
  rw [← hkey] at hchars
  cases hchars

theorem markedPath_of_keys (o : Operation) {chain : List Node} (h : "" ∉ Node.keys chain) :
    o.markedPath chain = ⟨".".intercalate (Node.markedKeys (some o.root) [] chain)⟩ := by
  rw [markedPath, Node.markedKeys_dropWhile (some o.root) [] h]

/-- A collection has each path once. It has exactly the paths of the occurrences that pass the test,
whatever the test says about the nodes around them: the response keys joined by dots, each marked by
the innermost type condition between its field and the field around it that differs from the output
type of that field, or of the root. No key is empty in an operation that was read. Of two paths the
one stands first that a walk of the document in pre-order meets first. -/
theorem paths_are_exact (o : Operation) (test : FieldTest) :
    (o.paths test).Nodup ∧
      (∀ p, p ∈ o.paths test ↔ ∃ around f cs, around ++ [.field f cs] ∈ o.fieldChains ∧
        test f cs = true ∧ p = o.markedPath (around ++ [.field f cs])) ∧
      (∀ p ∈ o.paths test, ∀ q ∈ o.paths test,
        (o.paths test).idxOf p < (o.paths test).idxOf q ↔ o.firstAt test p < o.firstAt test q) ∧
      (∀ chain ∈ o.fieldChains, "" ∉ Node.keys chain →
        o.markedPath chain = ⟨".".intercalate (Node.markedKeys (some o.root) [] chain)⟩) ∧
      ∀ (text : String) (name : Option String) (s : Schema) (options : ExpandOptions),
        read text name s options = .ok o → ∀ chain ∈ o.fieldChains, "" ∉ Node.keys chain :=
  ⟨o.nodup_paths test, o.mem_paths_iff test, fun p _ q _ => o.idxOf_paths_lt_iff test p q,
    fun _ _ h => o.markedPath_of_keys h, fun _ _ _ _ h _ hchain => keys_of_read h hchain⟩

/-- A condition on the type that is searched for, or none at all, does not take the mark away, and a
second selection of a name is not collected again. -/
example :
    let field (name : String) (output : Option String) : Field :=
      ⟨name, none, [], [], ⟨none, output, false, false, [], []⟩, false⟩
    let name : Node := .field (field "name" none) []
    let search : Node := .field (field "search" (some "Result"))
      [.fragment ⟨some "Product", []⟩
        [.fragment ⟨none, []⟩ [name], .fragment ⟨some "Result", []⟩ [name], name],
        .fragment ⟨some "Result", []⟩ [name]]
    Operation.paths ⟨.query, none, "Query", [], [], [search]⟩ (fun _ _ => true) =
      [⟨"search"⟩, ⟨"search.name:Product"⟩, ⟨"search.name"⟩] := by
  decide +kernel

end Operation

end QueryGate
