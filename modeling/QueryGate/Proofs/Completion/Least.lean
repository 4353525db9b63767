import QueryGate.Proofs.Completion.Places

/-! # The least completion

What stands at a place of a completed value stood there before, completed along what the paths have
left behind the keys of the place. So a member is added to an object only if a path leads to the
object and goes on with the name of the member, and every other completion has that member as well.
-/
namespace QueryGate.Json

def ahead : List String → List (List String) → List (List String)
  | [], paths => paths
  | key :: keys, paths => ahead keys (behind key paths)

/-- Some path starts with some keys and goes on with another one. -/
def GoesOn (paths : List (List String)) (keys : List String) (key : String) : Prop :=
  ∃ rest, keys ++ key :: rest ∈ paths

theorem mem_ahead {keys rest : List String} {paths : List (List String)} :
    rest ∈ ahead keys paths ↔ keys ++ rest ∈ paths := by
  induction keys generalizing paths with
  | nil => rfl
  | cons key keys ih => rw [ahead, ih, mem_behind, List.cons_append]

theorem ahead_append (keys more : List String) (paths : List (List String)) :
    ahead (keys ++ more) paths = ahead more (ahead keys paths) := by
  induction keys generalizing paths with
  | nil => rfl
  | cons key keys ih => exact ih (behind key paths)

theorem get?_filled (paths : List (List String)) (members : List (String × Json)) (name : String) :
    Record.get? (members.map (fillAt paths)) name =
      (Record.get? members name).map (fill (behind name paths)) := by
  induction members with
  | nil => rfl
  | cons m rest ih =>
    rw [List.map_cons]
    by_cases h : m.1 = name
    · simp [Record.get?, fillAt, h]
    · have hne : (m.1 == name) = false := by simpa using h
      simpa [Record.get?, fillAt, hne] using ih

theorem get?_addNulls {keys : List String} {members : List (String × Json)} {name : String}
    {v : Json} (h : Record.get? (keys.foldl addNull members) name = some v) :
    Record.get? members name = some v ∨ v = .null := by
  induction keys generalizing members with
  | nil => exact .inl h
  | cons key keys ih =>
    rcases ih h with h | h
    · by_cases hmem : key ∈ names members
      · rw [addNull_of_mem hmem] at h
        exact .inl h
      · rw [addNull_of_not_mem hmem] at h
        by_cases hname : name = key
        · rw [hname, Record.get?_insert_self] at h
          exact .inr (Option.some.inj h).symm
        · rw [Record.get?_insert_of_ne hname] at h
          exact .inl h
    · exact .inr h

theorem part_fill {step : Step} {paths : List (List String)} {v w : Json}
    (h : part? step (fill paths v) = some w) (hw : w ≠ .null) :
    ∃ u, part? step v = some u ∧ w = fill (ahead step.keys paths) u := by
  obtain ⟨index, items, rfl, hfill, hitem⟩ | ⟨name, members, rfl, hfill, hget⟩ := part_cases h
  · obtain ⟨old, rfl, rfl⟩ := fill_eq_array hfill
    rw [List.getElem?_map] at hitem
    obtain ⟨u, hu, rfl⟩ := Option.map_eq_some_iff.mp hitem
    exact ⟨u, hu, rfl⟩
  · obtain ⟨old, rfl, rfl⟩ := fill_eq_object hfill
    rcases get?_addNulls hget with hget | hnull
    · rw [get?_filled] at hget
      obtain ⟨u, hu, rfl⟩ := Option.map_eq_some_iff.mp hget
      exact ⟨u, hu, rfl⟩
    · exact absurd hnull hw

theorem at_null {place : List Step} {w : Json} (h : at? place .null = some w) : w = .null := by
  cases place with
  | nil => exact (Option.some.inj h).symm
  | cons step place => cases step <;> cases h

/-- What stands at a place of a completed value is null or was there before, and it is completed
along what the paths have left behind the keys of the place. -/
theorem at_fill {place : List Step} {paths : List (List String)} {v w : Json}
    (h : at? place (fill paths v) = some w) (hw : w ≠ .null) :
    ∃ u, at? place v = some u ∧ w = fill (ahead (keysTo place) paths) u := by
  induction place generalizing paths v with
  | nil => exact ⟨v, rfl, (Option.some.inj h).symm⟩
  | cons step place ih =>
    obtain ⟨x, hx, hat⟩ := Option.bind_eq_some_iff.mp h
    have hne : x ≠ .null := by
      rintro rfl
      exact hw (at_null hat)
    obtain ⟨u, hu, rfl⟩ := part_fill hx hne
    obtain ⟨t, ht, rfl⟩ := ih hat
    refine ⟨t, Option.bind_eq_some_iff.mpr ⟨u, hu, ht⟩, ?_⟩
    rw [← ahead_append]
    rfl

/-- An object of a completed value was an object before. Its names are the old ones and those that
some path goes on with behind the keys of the object. -/
theorem names_at_fill {place : List Step} {paths : List (List String)} {v : Json}
    {members : List (String × Json)} (h : at? place (fill paths v) = some (.object members)) :
    ∃ old, at? place v = some (.object old) ∧
      ∀ key, key ∈ names members ↔ key ∈ names old ∨ GoesOn paths (keysTo place) key := by
  obtain ⟨u, hu, hfill⟩ := at_fill h (by simp)
  obtain ⟨old, rfl, rfl⟩ := fill_eq_object hfill.symm
  refine ⟨old, hu, fun key => ?_⟩
  rw [names_addNulls, names_map (g := fillAt _) (fun _ => rfl), mem_firsts, or_comm]
  simp only [mem_ahead, GoesOn]

/-- An object of a completed value has no name that it would lack in another completion. -/
theorem names_in_completion {paths : List (List String)} {v w : Json} (h : Widens v w)
    (hkeys : ∀ keys ∈ paths, HasKeys keys w) {place : List Step} {members : List (String × Json)}
    (hat : at? place (fill paths v) = some (.object members)) :
    ∃ others, at? place w = some (.object others) ∧ names members ⊆ names others := by
  obtain ⟨old, hold, hnames⟩ := names_at_fill hat
  obtain ⟨t, ht, hwider⟩ := at_widens h hold
  obtain ⟨others, rfl, hmembers⟩ := widens_object hwider
  refine ⟨others, ht, fun key hkey => ?_⟩
  rcases (hnames key).mp hkey with hkey | ⟨rest, hpath⟩
  · rw [names_of_members_widen hmembers] at hkey
    exact (List.filter_sublist.map _).subset hkey
  · exact hkeys _ hpath (keysTo place) key rest rfl others (leads_of_at ht)

/-- Filling in nulls gives the least completion of a value along some paths. Nothing is added but
members with the value null; afterwards each object that the front of a path leads to has the next
key of the path; each key that is added is such a next key, of an object that was there before; and
every other completion has these keys as well. The errors and the extensions of a payload stay as
they are, and so does a payload without data. -/
theorem nulls_are_least_completion (paths : List Path) (data : Json) :
    Widens data (fillNulls paths data) ∧
      (∀ p ∈ paths, HasKeys p.keys (fillNulls paths data)) ∧
      (∀ place members, (fillNulls paths data).at? place = some (.object members) →
        ∃ old, data.at? place = some (.object old) ∧ Leads (keysTo place) data (.object old) ∧
          ∀ key ∈ names members, key ∉ names old →
            ∃ p ∈ paths, ∃ rest, p.keys = keysTo place ++ key :: rest) ∧
      (∀ other, Widens data other → (∀ p ∈ paths, HasKeys p.keys other) →
        ∀ place members, (fillNulls paths data).at? place = some (.object members) →
          ∃ more, other.at? place = some (.object more) ∧ names members ⊆ names more) ∧
      ∀ errors extensions,
        Payload.fillNulls paths ⟨some data, errors, extensions⟩ =
            ⟨some (fillNulls paths data), errors, extensions⟩ ∧
          Payload.fillNulls paths ⟨none, errors, extensions⟩ = ⟨none, errors, extensions⟩ := by
  rw [fillNulls_eq]
  refine ⟨widens_fill _ data, ?_, ?_, ?_, fun errors extensions => ⟨?_, rfl⟩⟩
  · exact fun p hp => hasKeys_fill (List.mem_map_of_mem hp) data
  · intro place members hat
    obtain ⟨old, hold, hnames⟩ := names_at_fill hat
    refine ⟨old, hold, leads_of_at hold, fun key hkey hnew => ?_⟩
    obtain ⟨rest, hrest⟩ := ((hnames key).mp hkey).resolve_left hnew
    obtain ⟨p, hp, hkeys⟩ := List.mem_map.mp hrest
    exact ⟨p, hp, rest, hkeys⟩
  · intro other hwidens hkeys place members hat
    refine names_in_completion hwidens (fun keys hmem => ?_) hat
    obtain ⟨p, hp, rfl⟩ := List.mem_map.mp hmem
    exact hkeys p hp
  · rw [← fillNulls_eq]
    rfl

def shops : Json :=
  .object [("shops", .array [
    .object [("products", .array [.array [.object [("id", .int 1)]]])], .object []])]

def shopPaths : List Path := [⟨"shops.products.name:Product"⟩, ⟨"me.email"⟩, ⟨"shops.products"⟩]

def namedProduct : List (String × Json) := [("id", .int 1), ("name", .null)]

def filledShops : Json :=
  .object [("me", .null), ("shops", .array [
    .object [("products", .array [.array [.object namedProduct]])],
    .object [("products", .null)]])]

def productPlace : List Step := [.member "shops", .item 0, .member "products", .item 0, .item 0]

theorem keys_of_shopPaths : shopPaths.map Path.keys =
    [["shops", "products", "name"], ["me", "email"], ["shops", "products"]] := by decide +kernel

theorem fillNulls_shops : fillNulls shopPaths shops = filledShops := by
  rw [fillNulls_eq, keys_of_shopPaths]
  simp +decide [shops, filledShops, namedProduct, fill, fillMembers, fillItems, behind, firsts,
    addNull, Record.insert, List.filterMap]

theorem shops_are_completed : fillNulls shopPaths shops = filledShops ∧ Widens shops filledShops ∧
    HasKeys ["shops", "products", "name"] filledShops ∧ HasKeys ["me", "email"] filledShops ∧
    ∃ old, shops.at? productPlace = some (.object old) ∧
      Leads ["shops", "products"] shops (.object old) ∧ "name" ∉ names old ∧
      ∃ p ∈ shopPaths, ∃ rest, p.keys = ["shops", "products"] ++ "name" :: rest := by
  obtain ⟨hwidens, hhas, hleast, -⟩ := nulls_are_least_completion shopPaths shops
  have hproduct : filledShops.at? productPlace = some (.object namedProduct) := by
    simp [filledShops, productPlace, at?, part?, Record.get?]
  have hhas : ∀ keys ∈ shopPaths.map Path.keys, HasKeys keys filledShops := by
    rw [← fillNulls_shops]
    exact List.forall_mem_map.mpr hhas
  rw [keys_of_shopPaths] at hhas
  rw [fillNulls_shops] at hwidens hleast
  obtain ⟨old, hold, hleads, hadded⟩ := hleast productPlace namedProduct hproduct
  have hnew : "name" ∉ names old := by
    simp only [shops, productPlace, at?, part?, Record.get?] at hold
    cases hold
    simp [names]
  exact ⟨fillNulls_shops, hwidens, hhas _ (by simp), hhas _ (by simp), old, hold, hleads, hnew,
    hadded "name" (by simp [namedProduct, names]) hnew⟩

end QueryGate.Json
