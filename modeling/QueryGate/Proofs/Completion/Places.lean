import QueryGate.Proofs.Completion

/-! # Places of a value

A place of a value is given by the steps that lead to it, through items of lists and members of
objects. A wider value has all places of the narrower one. -/
namespace QueryGate.Json

/-- A step from a value to a part of it. -/
inductive Step where
  | item (index : Nat)
  | member (name : String)

def Step.keys : Step → List String
  | .item _ => []
  | .member name => [name]

def part? : Step → Json → Option Json
  | .item index, .array items => items[index]?
  | .member name, .object members => Record.get? members name
  | _, _ => none

def at? : List Step → Json → Option Json
  | [], v => some v
  | step :: place, v => (part? step v).bind (at? place)

def keysTo (place : List Step) : List String := place.flatMap Step.keys

theorem part_cases {step : Step} {v u : Json} (h : part? step v = some u) :
    (∃ index items, step = .item index ∧ v = .array items ∧ items[index]? = some u) ∨
      ∃ name members, step = .member name ∧ v = .object members ∧
        Record.get? members name = some u := by
  cases step with
  | item index =>
    cases v with
    | array items => exact .inl ⟨index, items, rfl, rfl, h⟩
    | null | bool | int | float | string | object => cases h
  | member name =>
    cases v with
    | object members => exact .inr ⟨name, members, rfl, rfl, h⟩
    | null | bool | int | float | string | array => cases h

theorem mem_of_get? {members : List (String × Json)} {name : String} {v : Json}
    (h : Record.get? members name = some v) : (name, v) ∈ members := by
  obtain ⟨m, hm, rfl⟩ := Option.map_eq_some_iff.mp h
  have hname : m.1 = name := by simpa using List.find?_some hm
  exact hname ▸ List.mem_of_find?_eq_some hm

theorem leads_of_at {place : List Step} {v w : Json} (h : at? place v = some w) :
    Leads (keysTo place) v w := by
  induction place generalizing v with
  | nil =>
    cases h
    exact .here _
  | cons step place ih =>
    obtain ⟨u, hu, hat⟩ := Option.bind_eq_some_iff.mp h
    obtain ⟨index, items, rfl, rfl, hitem⟩ | ⟨name, members, rfl, rfl, hget⟩ := part_cases hu
    · exact .item (List.mem_of_getElem? hitem) (ih hat)
    · exact .member (mem_of_get? hget) (ih hat)

/-! Places of a wider value -/

theorem widens_array {items : List Json} {w : Json} (h : Widens (.array items) w) :
    ∃ others, w = .array others ∧ ItemsWiden items others := by
  cases w with
  | array others => exact ⟨others, rfl, h⟩
  | null | bool | int | float | string | object => cases h

theorem widens_object {members : List (String × Json)} {w : Json} (h : Widens (.object members) w) :
    ∃ others, w = .object others ∧
      MembersWiden members (others.filter fun m => (names members).contains m.1) := by
  cases w with
  | object others => exact ⟨others, rfl, h.1⟩
  | null | bool | int | float | string | array => cases h

theorem items_widen_at {items others : List Json} (h : ItemsWiden items others) {index : Nat}
    {v : Json} (hv : items[index]? = some v) : ∃ w, others[index]? = some w ∧ Widens v w := by
  induction items generalizing others index with
  | nil => cases hv
  | cons item rest ih =>
    cases others with
    | nil => exact h.elim
    | cons other more =>
      cases index with
      | zero =>
        cases hv
        exact ⟨other, rfl, h.1⟩
      | succ index => exact ih h.2 hv

theorem members_widen_get? {members others : List (String × Json)} (h : MembersWiden members others)
    {name : String} {v : Json} (hv : Record.get? members name = some v) :
    ∃ w, Record.get? others name = some w ∧ Widens v w := by
  induction members generalizing others with
  | nil => cases hv
  | cons m rest ih =>
    cases others with
    | nil => exact h.elim
    | cons other more =>
      obtain ⟨hname, hwider, hrest⟩ := h
      by_cases hm : m.1 = name
      · have hother : other.1 = name := hname ▸ hm
        have hvalue : m.2 = v := by simpa [Record.get?, hm] using hv
        exact ⟨other.2, by simp [Record.get?, hother], hvalue ▸ hwider⟩
      · have hne : (m.1 == name) = false := by simpa using hm
        have hother : (other.1 == name) = false := by rwa [← hname]
        obtain ⟨w, hw, hvw⟩ := ih hrest (by simpa [Record.get?, hne] using hv)
        exact ⟨w, by simpa [Record.get?, hother] using hw, hvw⟩

theorem get?_filter {p : String → Bool} {name : String} (h : p name = true)
    (members : List (String × Json)) :
    Record.get? (members.filter fun m => p m.1) name = Record.get? members name := by
  rw [Record.get?, List.find?_filter, Record.get?]
  congr 2
  funext m
  by_cases hm : m.1 = name
  · simp [hm, h]
  · simp [hm]

theorem part_widens {step : Step} {v w u : Json} (h : Widens v w) (hu : part? step v = some u) :
    ∃ t, part? step w = some t ∧ Widens u t := by
  obtain ⟨index, items, rfl, rfl, hitem⟩ | ⟨name, members, rfl, rfl, hget⟩ := part_cases hu
  · obtain ⟨others, rfl, hitems⟩ := widens_array h
    exact items_widen_at hitems hitem
  · obtain ⟨others, rfl, hmembers⟩ := widens_object h
    have hname : (names members).contains name = true :=
      List.contains_iff_mem.mpr (List.mem_map_of_mem (mem_of_get? hget))
    obtain ⟨t, ht, hwider⟩ := members_widen_get? hmembers hget
    exact ⟨t, (get?_filter hname others).symm.trans ht, hwider⟩

theorem at_widens {place : List Step} {v w u : Json} (h : Widens v w) (hu : at? place v = some u) :
    ∃ t, at? place w = some t ∧ Widens u t := by
  induction place generalizing v w with
  | nil =>
    cases hu
    exact ⟨w, rfl, h⟩
  | cons step place ih =>
    obtain ⟨x, hx, hat⟩ := Option.bind_eq_some_iff.mp hu
    obtain ⟨y, hy, hwider⟩ := part_widens h hx
    obtain ⟨t, ht, hut⟩ := ih hwider hat
    exact ⟨t, Option.bind_eq_some_iff.mpr ⟨y, hy, ht⟩, hut⟩

theorem names_of_members_widen {members others : List (String × Json)}
    (h : MembersWiden members others) : names members = names others := by
  induction members generalizing others with
  | nil =>
    cases others with
    | nil => rfl
    | cons m more => exact h.elim
  | cons m rest ih =>
    cases others with
    | nil => exact h.elim
    | cons other more =>
      have hrest : names rest = names more := ih h.2.2
      have hname : m.1 = other.1 := h.1
      simp only [names, List.map_cons] at hrest ⊢
      rw [hname, hrest]

end QueryGate.Json
