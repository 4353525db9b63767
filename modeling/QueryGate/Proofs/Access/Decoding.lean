import QueryGate.Proofs.Access.Collected

/-! # Reading a path back

The property of an occurrence is put together on the way down, with a dot only where something
stands before it and a colon only where a type tells the field apart. Cutting it at the dots, and
each piece at its first colon, gives back the keys and types it was put together from. So no key is
merged, cut or lost, and two occurrences share a path only if they share all of its segments. -/
namespace QueryGate

open Node (leadsTo)

namespace Node

def markedSegments (root : Option String) : (around chain : List Node) →
    List (String × Option String)
  | _, [] => []
  | around, .field f cs :: rest =>
    (f.key, markAround root around) :: markedSegments root (.field f cs :: around) rest
  | around, .fragment g cs :: rest => markedSegments root (.fragment g cs :: around) rest

theorem markedSegments_eq (root : Option String) (around chain : List Node) :
    markedSegments root around chain =
      segments (outputAround root around) (markAround root around) chain := by
  induction chain generalizing around with
  | nil => rfl
  | cons n rest ih =>
    cases n with
    | field f cs =>
      rw [markedSegments, segments, ih]
      rfl
    | fragment g cs =>
      rw [markedSegments, segments, ih, markAround_fragment]
      rfl

theorem markedKeys_eq (root : Option String) (around chain : List Node) :
    markedKeys root around chain =
      (markedSegments root around chain).map fun p => markedKey p.1 p.2 := by
  induction chain generalizing around with
  | nil => rfl
  | cons n rest ih =>
    cases n with
    | field f cs => rw [markedKeys, markedSegments, List.map_cons, ih]
    | fragment g cs => exact ih (.fragment g cs :: around)

end Node

namespace Operation

/-- The keys on the way to an occurrence, each with the type that tells its field apart: the
innermost type condition between the field and the one around it that is not the type selected on.
-/
def segmentsTo (o : Operation) (chain : List Node) : List (String × Option String) :=
  Node.markedSegments (some o.root) [] chain

theorem segments_pathTo_eq {o : Operation} (h : o.HasNames) {chain : List Node}
    (hc : chain ∈ o.fieldChains) : (o.pathTo chain).segments = o.segmentsTo chain := by
  rw [segments_pathTo h hc, segmentsTo, Node.markedSegments_eq]
  rfl

theorem pathTo_of_segments {o other : Operation} {a b : List Node}
    (h : o.segmentsTo a = other.segmentsTo b) : o.pathTo a = other.pathTo b := by
  have hkeys : Node.markedKeys (some o.root) [] a = Node.markedKeys (some other.root) [] b := by
    rw [Node.markedKeys_eq, Node.markedKeys_eq]
    exact congrArg _ h
  rw [pathTo_eq, pathTo_eq, markedPath, markedPath, hkeys]

/-- A collection consists of the paths of the occurrences that pass the test. Where whatever is
written as a name is one, the path of an occurrence is read as the segments on the way to it, and
its keys are the response keys of the fields there, from the root. So occurrences have the same path
exactly if they have the same segments. -/
theorem paths_are_read_back {o : Operation} (h : o.HasNames) :
    (∀ test, o.paths test = ((o.fieldChains.filter (leadsTo test)).map o.pathTo).eraseDups) ∧
      (∀ chain ∈ o.fieldChains, (o.pathTo chain).keys = Node.keys chain ∧
        (o.pathTo chain).segments = o.segmentsTo chain) ∧
      ∀ other : Operation, other.HasNames → ∀ a ∈ o.fieldChains, ∀ b ∈ other.fieldChains,
        o.pathTo a = other.pathTo b ↔ o.segmentsTo a = other.segmentsTo b := by
  refine ⟨o.paths_eq, fun chain hc => ?_, fun other hother a ha b hb => ?_⟩
  · exact ⟨keys_pathTo h hc, segments_pathTo_eq h hc⟩
  · constructor
    · intro hpath
      rw [← segments_pathTo_eq h ha, ← segments_pathTo_eq hother hb, hpath]
    · exact pathTo_of_segments

/-- Articles behind an alias, with fields that are selected on other types. The condition on the
type of the articles themselves tells nothing apart. -/
def teaserText : String :=
  "\x7b first: article \x7b ... on Teaser \x7b title ... on Article \x7b body \x7d \x7d
     ... on Archive \x7b next: article \x7b title \x7d \x7d \x7d \x7d"

theorem paths_of_teasers_are_read_back :
    ∃ o, read teaserText none articles .standard = .ok o ∧ o.HasNames ∧
      o.fieldChains.map o.pathTo = [⟨"first"⟩, ⟨"first.title:Teaser"⟩, ⟨"first.body:Teaser"⟩,
        ⟨"first.next:Archive"⟩, ⟨"first.next:Archive.title"⟩] ∧
      o.fieldChains.map Node.keys = [["first"], ["first", "title"], ["first", "body"],
        ["first", "next"], ["first", "next", "title"]] ∧
      o.fieldChains.map o.segmentsTo = [[("first", none)],
        [("first", none), ("title", some "Teaser")], [("first", none), ("body", some "Teaser")],
        [("first", none), ("next", some "Archive")],
        [("first", none), ("next", some "Archive"), ("title", none)]] := by
  have hchecked : (read teaserText none articles .standard).toOption.any (fun o =>
      o.fieldChains.map o.pathTo == [⟨"first"⟩, ⟨"first.title:Teaser"⟩, ⟨"first.body:Teaser"⟩,
        ⟨"first.next:Archive"⟩, ⟨"first.next:Archive.title"⟩]) = true := by decide +kernel
  obtain ⟨o, ho, hchecked⟩ := exists_ok_of_any hchecked
  simp only [beq_iff_eq] at hchecked
  have hnames : o.HasNames := (read_from ho).1.resolved.hasNames
  obtain ⟨-, hread, -⟩ := paths_are_read_back hnames
  refine ⟨o, ho, hnames, hchecked, ?_, ?_⟩
  · have hkeys : o.fieldChains.map Node.keys = (o.fieldChains.map o.pathTo).map Path.keys := by
      rw [List.map_map]
      exact List.map_congr_left fun chain hc => (hread chain hc).1.symm
    rw [hkeys, hchecked]
    decide
  · have hsegments : o.fieldChains.map o.segmentsTo =
        (o.fieldChains.map o.pathTo).map Path.segments := by
      rw [List.map_map]
      exact List.map_congr_left fun chain hc => (hread chain hc).2.symm
    rw [hsegments, hchecked]
    decide

end Operation

end QueryGate
