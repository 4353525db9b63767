import Mathlib.Data.Set.Basic
import QueryGate.Proofs.Completion.Least

/-! # Locations

Nulls are filled in along one path after the other, and an earlier path can put a null where a later
one goes on. The result nevertheless depends on the locations alone that the paths name, and neither
on the order of the paths nor on their repetitions or types. Members may be added in any order, and
what is added to an object is what the paths go on with behind its keys. -/
namespace QueryGate

def Path.locations (paths : List Path) : Set (List String) := {keys | keys ∈ paths.map Path.keys}

namespace Json

/-! Adding members in any order -/

theorem addNull_comm (members : List (String × Json)) (key other : String) :
    addNull (addNull members key) other = addNull (addNull members other) key := by
  by_cases heq : key = other
  · rw [heq]
  by_cases hkey : key ∈ names members
  · rw [addNull_of_mem hkey, addNull_of_mem ((names_addNull members other key).mpr (.inr hkey))]
  by_cases hother : other ∈ names members
  · rw [addNull_of_mem hother, addNull_of_mem ((names_addNull members key other).mpr (.inr hother))]
  have hkey' : key ∉ names (addNull members other) := by simp [names_addNull, heq, hkey]
  have hother' : other ∉ names (addNull members key) := by simp [names_addNull, Ne.symm heq, hother]
  rw [addNull_of_not_mem hother', addNull_of_not_mem hkey', addNull_of_not_mem hkey,
    addNull_of_not_mem hother, Record.insert_comm (Ne.symm heq)]

theorem addNulls_addNull (keys : List String) (members : List (String × Json)) (key : String) :
    keys.foldl addNull (addNull members key) = addNull (keys.foldl addNull members) key := by
  induction keys generalizing members with
  | nil => rfl
  | cons first keys ih => rw [List.foldl_cons, addNull_comm, ih, List.foldl_cons]

theorem addNulls_comm (keys others : List String) (members : List (String × Json)) :
    keys.foldl addNull (others.foldl addNull members) =
      others.foldl addNull (keys.foldl addNull members) := by
  induction keys generalizing members with
  | nil => rfl
  | cons key keys ih => rw [List.foldl_cons, List.foldl_cons, ← addNulls_addNull, ih]

theorem addNulls_of_names {keys : List String} {members : List (String × Json)}
    (h : ∀ key ∈ keys, key ∈ names members) : keys.foldl addNull members = members := by
  induction keys with
  | nil => rfl
  | cons key keys ih =>
    rw [List.foldl_cons, addNull_of_mem (h key List.mem_cons_self)]
    exact ih fun k hk => h k (List.mem_cons_of_mem key hk)

/-- Which members are added depends on the set of the keys. -/
theorem addNulls_congr {keys others : List String} (h : ∀ key, key ∈ keys ↔ key ∈ others)
    (members : List (String × Json)) :
    keys.foldl addNull members = others.foldl addNull members := by
  have hothers : ∀ key ∈ others, key ∈ names (keys.foldl addNull members) := fun key hkey =>
    (names_addNulls keys members key).mpr (.inl ((h key).mpr hkey))
  have hkeys : ∀ key ∈ keys, key ∈ names (others.foldl addNull members) := fun key hkey =>
    (names_addNulls others members key).mpr (.inl ((h key).mp hkey))
  calc keys.foldl addNull members
    _ = others.foldl addNull (keys.foldl addNull members) := (addNulls_of_names hothers).symm
    _ = keys.foldl addNull (others.foldl addNull members) := addNulls_comm others keys members
    _ = others.foldl addNull members := addNulls_of_names hkeys

/-! Paths that go on alike -/

theorem goesOn_behind {paths : List (List String)} {name key : String} {keys : List String} :
    GoesOn (behind name paths) keys key ↔ GoesOn paths (name :: keys) key := by
  simp only [GoesOn, mem_behind, List.cons_append]

theorem fill_congr {paths others : List (List String)}
    (h : ∀ keys key, GoesOn paths keys key ↔ GoesOn others keys key) (v : Json) :
    fill paths v = fill others v := by
  induction v using Json.nested generalizing paths others with
  | null | bool | int | float | string => rfl
  | array items ih =>
    rw [fill, fill, fillItems_eq, fillItems_eq]
    congr 1
    exact List.map_congr_left fun item hitem => ih item hitem h
  | object members ih =>
    have hfirsts : ∀ key, key ∈ firsts paths ↔ key ∈ firsts others := fun key => by
      rw [mem_firsts, mem_firsts]
      exact h [] key
    have hmembers : members.map (fillAt paths) = members.map (fillAt others) := by
      refine List.map_congr_left fun m hm => Prod.ext rfl (ih m hm fun keys key => ?_)
      rw [goesOn_behind, goesOn_behind]
      exact h (m.1 :: keys) key
    rw [fill, fill, fillMembers_eq, fillMembers_eq, hmembers, addNulls_congr hfirsts]

def nest : List String → Json
  | [] => .object []
  | key :: keys => .object [(key, nest keys)]

theorem at_nest (keys : List String) : (nest keys).at? (keys.map .member) = some (.object []) := by
  induction keys with
  | nil => rfl
  | cons key keys ih => simpa [nest, at?, part?, Record.get?] using ih

theorem keysTo_members (keys : List String) : keysTo (keys.map .member) = keys := by
  induction keys with
  | nil => rfl
  | cons key keys ih => exact congrArg (key :: ·) ih

/-- Completing objects in each other shows what the paths go on with. -/
theorem goesOn_iff_of_nest (paths : List (List String)) (keys : List String) :
    ∃ members, (fill paths (nest keys)).at? (keys.map .member) = some (.object members) ∧
      ∀ key, key ∈ names members ↔ GoesOn paths keys key := by
  obtain ⟨t, ht, hwider⟩ := at_widens (widens_fill paths (nest keys)) (at_nest keys)
  obtain ⟨members, rfl, -⟩ := widens_object hwider
  obtain ⟨old, hold, hnames⟩ := names_at_fill ht
  rw [at_nest] at hold
  cases hold
  refine ⟨members, ht, fun key => ?_⟩
  rw [hnames, keysTo_members]
  simp [names]

/-- Two lists of paths complete every value alike exactly if behind the same keys they go on with
the same keys. -/
theorem fill_eq_iff (paths others : List (List String)) :
    (∀ v, fill paths v = fill others v) ↔
      ∀ keys key, GoesOn paths keys key ↔ GoesOn others keys key := by
  refine ⟨fun h keys key => ?_, fun h v => fill_congr h v⟩
  obtain ⟨members, hat, hnames⟩ := goesOn_iff_of_nest paths keys
  obtain ⟨members', hat', hnames'⟩ := goesOn_iff_of_nest others keys
  rw [h, hat'] at hat
  cases hat
  exact (hnames key).symm.trans (hnames' key)

theorem fillNulls_congr {paths others : List Path}
    (h : Path.locations paths = Path.locations others) (data : Json) :
    fillNulls paths data = fillNulls others data := by
  rw [fillNulls_eq, fillNulls_eq]
  refine fill_congr (fun keys key => ?_) data
  have hmem := Set.ext_iff.mp h
  exact exists_congr fun rest => hmem (keys ++ key :: rest)

theorem fillNulls_append (paths others : List Path) (data : Json) :
    fillNulls (paths ++ others) data = fillNulls others (fillNulls paths data) :=
  List.foldl_append

theorem locations_append (paths others : List Path) :
    Path.locations (paths ++ others) = Path.locations paths ∪ Path.locations others := by
  ext keys
  simp [Path.locations]

/-- Paths with the same locations complete every value alike, whatever their order, their
repetitions and their types. In particular filling in nulls along the same paths again changes
nothing, and along two lists of paths after each other, in either order, is the same as along any
list of paths with the locations of both. -/
theorem nulls_depend_on_locations (paths others : List Path) :
    (Path.locations paths = Path.locations others →
        ∀ data, fillNulls paths data = fillNulls others data) ∧
      (∀ data, fillNulls paths (fillNulls paths data) = fillNulls paths data) ∧
      ∀ union, Path.locations union = Path.locations paths ∪ Path.locations others → ∀ data,
        fillNulls others (fillNulls paths data) = fillNulls union data ∧
          fillNulls paths (fillNulls others data) = fillNulls union data := by
  refine ⟨fun h => fillNulls_congr h, fun data => ?_, fun union h data => ⟨?_, ?_⟩⟩
  · rw [← fillNulls_append]
    exact fillNulls_congr (by rw [locations_append, Set.union_self]) data
  · rw [← fillNulls_append]
    exact fillNulls_congr (by rw [locations_append, h]) data
  · rw [← fillNulls_append]
    exact fillNulls_congr (by rw [locations_append, h, Set.union_comm]) data

/-- The same locations the other way round, one of them twice and with another type. -/
def shopPathsAgain : List Path :=
  [⟨"shops.products"⟩, ⟨"me.email"⟩, ⟨"shops.products.name"⟩, ⟨"me.email:Account"⟩]

theorem shops_are_completed_alike :
    Path.locations shopPaths = Path.locations shopPathsAgain ∧
      fillNulls shopPathsAgain shops = filledShops ∧
      ∀ data, fillNulls [⟨"me"⟩] (fillNulls shopPaths data) =
        fillNulls (⟨"me"⟩ :: shopPathsAgain) data := by
  have hagain : shopPathsAgain.map Path.keys = [["shops", "products"], ["me", "email"],
      ["shops", "products", "name"], ["me", "email"]] := by decide +kernel
  have hlocations : Path.locations shopPaths = Path.locations shopPathsAgain := by
    ext keys
    change keys ∈ shopPaths.map Path.keys ↔ keys ∈ shopPathsAgain.map Path.keys
    rw [keys_of_shopPaths, hagain]
    grind
  have hunion : Path.locations (⟨"me"⟩ :: shopPathsAgain) =
      Path.locations shopPaths ∪ Path.locations [⟨"me"⟩] := by
    rw [hlocations, Set.union_comm]
    exact locations_append [⟨"me"⟩] shopPathsAgain
  obtain ⟨hsame, -, -⟩ := nulls_depend_on_locations shopPaths shopPathsAgain
  obtain ⟨-, -, hboth⟩ := nulls_depend_on_locations shopPaths [⟨"me"⟩]
  refine ⟨hlocations, ?_, fun data => (hboth _ hunion data).1⟩
  rw [← hsame hlocations, fillNulls_shops]

end Json

end QueryGate
