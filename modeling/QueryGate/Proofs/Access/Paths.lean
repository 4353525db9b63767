import Mathlib.Data.List.TakeDrop
import QueryGate.Proofs.Operation.Occurrences
import QueryGate.Proofs.Operation.Resolved

/-! # Paths as texts

The property of a path is put together from names, which hold neither a dot nor a colon. So it is
read as the segments that it was put together from, and the keys of these are the response keys of
the fields on the way, without the types that tell the fields apart. -/
namespace QueryGate

open GraphQL.Token (IsName)

namespace Path

theorem not_in_name {s : String} (h : IsName s) : separator ∉ s.toList ∧ typeMark ∉ s.toList := by
  obtain ⟨c, cs, hs, hc, hcs⟩ := h
  have hplain : ∀ d ∈ s.toList, GraphQL.Token.continuesName d = true := by
    intro d hd
    rw [hs] at hd
    rcases List.mem_cons.mp hd with rfl | hd
    · simp [GraphQL.Token.continuesName, hc]
    · exact List.all_eq_true.mp hcs d hd
  constructor
  · intro hd
    exact absurd (hplain _ hd) (by decide)
  · intro hd
    exact absurd (hplain _ hd) (by decide)

def segment (key : String) (type : Option String) : List Char :=
  key.toList ++
    (match type with
     | none => []
     | some t => typeMark :: t.toList)

/-- A segment read as a key and the type behind the first mark. -/
def readSegment (segment : List Char) : String × Option String :=
  (String.ofList (keyChars segment),
    (segment.dropWhile (· != typeMark)).tail?.map String.ofList)

def segments (p : Path) : List (String × Option String) :=
  (Text.pieces separator p.property.toList).map readSegment

theorem keys_eq (p : Path) : p.keys = p.segments.map (·.1) := by
  rw [keys, segments, List.map_map]
  rfl

theorem readSegment_segment {key : String} (hk : IsName key) (type : Option String) :
    readSegment (segment key type) = (key, type) := by
  have hpass : ∀ c ∈ key.toList, (c != typeMark) = true := by
    intro c hc
    have hne : c ≠ typeMark := fun he => (not_in_name hk).2 (he ▸ hc)
    simpa using hne
  unfold readSegment keyChars segment
  rw [List.takeWhile_append_of_pos hpass, List.dropWhile_append_of_pos hpass]
  cases type <;> simp

theorem pieces_segment {key : String} (hk : IsName key) {type : Option String}
    (ht : ∀ t, type = some t → IsName t) :
    Text.pieces separator (segment key type) = [segment key type] := by
  refine Text.pieces_of_not_mem fun hmem => ?_
  rcases List.mem_append.mp hmem with hmem | hmem
  · exact (not_in_name hk).1 hmem
  · cases type with
    | none => cases hmem
    | some t =>
      rcases List.mem_cons.mp hmem with he | hmem
      · exact absurd he (by decide)
      · exact (not_in_name (ht t rfl)).1 hmem

theorem child_toList (parent key : String) (type : Option String) :
    (child parent key type).toList =
      (if parent.isEmpty then [] else parent.toList ++ [separator]) ++ segment key type := by
  unfold child segment
  cases type <;> split_ifs <;> simp [separator, typeMark]

def stemSegments (property : String) : List (String × Option String) :=
  if property.isEmpty then [] else segments ⟨property⟩

theorem stemSegments_child (parent : String) {key : String} (hk : IsName key)
    {type : Option String} (ht : ∀ t, type = some t → IsName t) :
    stemSegments (child parent key type) = stemSegments parent ++ [(key, type)] := by
  have hsegments : segments ⟨child parent key type⟩ = stemSegments parent ++ [(key, type)] := by
    rw [segments, child_toList, stemSegments]
    split_ifs
    · simp [pieces_segment hk ht, readSegment_segment hk]
    · rw [List.append_assoc, List.singleton_append, Text.pieces_append, pieces_segment hk ht,
        List.map_append, List.map_singleton, readSegment_segment hk]
      rfl
  have hne : (child parent key type).isEmpty = false := by
    obtain ⟨c, cs, hs, -, -⟩ := hk
    have hmem : c ∈ (child parent key type).toList := by
      simp [child_toList, segment, hs]
    cases he : (child parent key type).isEmpty with
    | false => rfl
    | true =>
      rw [String.isEmpty_iff.mp he] at hmem
      cases hmem
  rw [stemSegments, hne]
  exact hsegments

end Path

namespace Node

/-- The name and the alias that are written on a field are names, and so is the type condition of a
fragment. -/
def HasNames : Node → Prop
  | .field f _ => IsName f.name ∧ ∀ a, f.aliasName = some a → IsName a
  | .fragment f _ => ∀ t, f.typeCondition = some t → IsName t

theorem HasNames.key {f : Field} {cs : List Node} (h : HasNames (.field f cs)) : IsName f.key := by
  unfold Field.key
  cases ha : f.aliasName with
  | none => exact h.1
  | some a => exact h.2 a ha

theorem Resolved.hasNames {s : Schema} {n : Node} {parent : Option String}
    (h : n.Resolved s parent) : n.HasNames := by
  cases n with
  | field f cs => exact ⟨h.1.name, h.1.aliasName⟩
  | fragment f cs => exact h.1.typeCondition

def segments (parent type : Option String) : List Node → List (String × Option String)
  | [] => []
  | .field head _ :: rest => (head.key, type) :: segments head.info.output none rest
  | .fragment head _ :: rest => segments parent (markedType parent type head) rest

theorem keys_eq_segments (chain : List Node) (parent type : Option String) :
    keys chain = (segments parent type chain).map (·.1) := by
  induction chain generalizing parent type with
  | nil => rfl
  | cons n rest ih =>
    cases n with
    | field f cs => rw [keys, segments, List.map_cons, ← ih]
    | fragment f cs => rw [keys, segments, ← ih]

theorem marked_name {parent type : Option String} {f : Fragment}
    (hf : ∀ t, f.typeCondition = some t → IsName t) (ht : ∀ t, type = some t → IsName t) :
    ∀ t, markedType parent type f = some t → IsName t := by
  intro t he
  unfold markedType at he
  split at he
  · rename_i condition hcondition
    split_ifs at he
    · exact ht t he
    · exact Option.some.inj he ▸ hf condition hcondition
  · exact ht t he

/-- A property has the segments of the path it starts from and behind them those of the fields that
lead on from there. -/
theorem stemSegments_property {chain : List Node} (h : ∀ n ∈ chain, n.HasNames) (stem : String)
    (parent : Option String) {type : Option String} (ht : ∀ t, type = some t → IsName t) :
    Path.stemSegments (property stem parent type chain) =
      Path.stemSegments stem ++ segments parent type chain := by
  induction chain generalizing stem parent type with
  | nil => simp [property, segments]
  | cons n rest ih =>
    have hn := h n List.mem_cons_self
    have hrest := fun m hm => h m (List.mem_cons_of_mem n hm)
    -- Below a field no type marks anything yet; a fragment hands its mark on to what is in it.
    cases n with
    | field f cs =>
      rw [property, segments, ih hrest _ _ (by simp), Path.stemSegments_child stem hn.key ht,
        List.append_assoc, List.singleton_append]
    | fragment f cs => exact ih hrest stem parent (marked_name hn ht)

end Node

namespace Operation

def HasNames (o : Operation) : Prop := ∀ n ∈ o.subtrees, n.HasNames

theorem Resolved.hasNames {s : Schema} {o : Operation} (h : o.Resolved s) : o.HasNames := by
  intro n hn
  obtain ⟨parent, hresolved⟩ := h.of_mem_subtrees hn
  exact hresolved.hasNames

variable {o : Operation} {chain : List Node}

theorem HasNames.on_chain (h : o.HasNames) (hc : chain ∈ o.fieldChains) :
    ∀ n ∈ chain, n.HasNames := by
  intro n hn
  obtain ⟨m, hm, hchain⟩ := Node.mem_listFieldChains.mp hc
  exact h n (Node.mem_listSubtrees.mpr ⟨m, hm, Node.mem_subtrees_of_field_chain hchain hn⟩)

theorem segments_pathTo (h : o.HasNames) (hc : chain ∈ o.fieldChains) :
    (o.pathTo chain).segments = Node.segments (some o.root) none chain := by
  have hsegments : Path.stemSegments (o.pathTo chain).property =
      Node.segments (some o.root) none chain :=
    Node.stemSegments_property (h.on_chain hc) "" (some o.root) (by simp)
  have hne : (o.pathTo chain).property.isEmpty = false := by
    cases he : (o.pathTo chain).property.isEmpty with
    | false => rfl
    | true =>
      rw [Path.stemSegments, he] at hsegments
      obtain ⟨n, -, hchain⟩ := Node.mem_listFieldChains.mp hc
      refine absurd ?_ (Node.keys_ne_nil hchain)
      rw [Node.keys_eq_segments chain (some o.root) none, ← hsegments]
      rfl
  rw [Path.stemSegments, hne] at hsegments
  exact hsegments

theorem keys_pathTo (h : o.HasNames) (hc : chain ∈ o.fieldChains) :
    (o.pathTo chain).keys = Node.keys chain := by
  rw [Path.keys_eq, segments_pathTo h hc, Node.keys_eq_segments chain (some o.root) none]

end Operation

end QueryGate
