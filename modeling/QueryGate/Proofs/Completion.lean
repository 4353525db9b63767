import Mathlib.Tactic.SplitIfs
import QueryGate.Payload
import QueryGate.Proofs.Record

/-! # Completing a value along many paths

Completing a value along one path after the other is the same as one pass down the value that knows
all paths. Such a pass adds members with the value null and changes nothing else, and afterwards
every object on the way of a path has the next key of the path. -/
namespace QueryGate.Json

/-- What remains of the key sequences that start with a key. -/
def behind (key : String) (paths : List (List String)) : List (List String) :=
  paths.filterMap fun
    | [] => none
    | first :: rest => if first = key then some rest else none

def firsts (paths : List (List String)) : List String := paths.filterMap List.head?

def names (members : List (String × Json)) : List String := members.map (·.1)

def addNull (members : List (String × Json)) (key : String) : List (String × Json) :=
  if members.any (·.1 == key) then members else Record.insert key .null members

mutual

def fill (paths : List (List String)) : Json → Json
  | .array items => .array (fillItems paths items)
  | .object members => .object ((firsts paths).foldl addNull (fillMembers paths members))
  | other => other

def fillItems (paths : List (List String)) : List Json → List Json
  | [] => []
  | item :: rest => fill paths item :: fillItems paths rest

def fillMembers (paths : List (List String)) : List (String × Json) → List (String × Json)
  | [] => []
  | (name, value) :: rest => (name, fill (behind name paths) value) :: fillMembers paths rest

end

/-- A value is reached along some keys, where lists on the way are passed through. -/
inductive Leads : List String → Json → Json → Prop where
  | here (v : Json) : Leads [] v v
  | item {keys items item v} : item ∈ items → Leads keys item v → Leads keys (.array items) v
  | member {key keys members value v} : (key, value) ∈ members → Leads keys value v →
      Leads (key :: keys) (.object members) v

/-- Every object that the front of some keys leads to has the next one of them. -/
def HasKeys (keys : List String) (v : Json) : Prop :=
  ∀ before key after, keys = before ++ key :: after →
    ∀ members, Leads before v (.object members) → key ∈ names members

mutual

/-- The second value is the first one with further members, all of them null, in its objects. -/
def Widens : Json → Json → Prop
  | .array items, .array others => ItemsWiden items others
  | .object members, .object others =>
    MembersWiden members (others.filter fun m => (names members).contains m.1) ∧
      ∀ m ∈ others, m.1 ∉ names members → m.2 = .null
  | v, w => v = w

def ItemsWiden : List Json → List Json → Prop
  | [], [] => True
  | item :: rest, other :: more => Widens item other ∧ ItemsWiden rest more
  | _, _ => False

def MembersWiden : List (String × Json) → List (String × Json) → Prop
  | [], [] => True
  | (name, value) :: rest, (other, wider) :: more =>
    name = other ∧ Widens value wider ∧ MembersWiden rest more
  | _, _ => False

end

@[elab_as_elim]
theorem nested {P : Json → Prop} (null : P .null) (bool : ∀ b, P (.bool b)) (int : ∀ n, P (.int n))
    (float : ∀ x, P (.float x)) (string : ∀ s, P (.string s))
    (array : ∀ items, (∀ v ∈ items, P v) → P (.array items))
    (object : ∀ members, (∀ m ∈ members, P m.2) → P (.object members)) (v : Json) : P v :=
  @Json.rec P (fun items => ∀ v ∈ items, P v) (fun members => ∀ m ∈ members, P m.2) (fun m => P m.2)
    null bool int float string array object
    (by simp) (fun _ _ hv hvs => List.forall_mem_cons.mpr ⟨hv, hvs⟩)
    (by simp) (fun _ _ hm hms => List.forall_mem_cons.mpr ⟨hm, hms⟩) (fun _ _ hv => hv) v

def completeAt (key : String) (keys : List String) (m : String × Json) : String × Json :=
  (m.1, if m.1 == key then complete keys m.2 else m.2)

def fillAt (paths : List (List String)) (m : String × Json) : String × Json :=
  (m.1, fill (behind m.1 paths) m.2)

theorem completeItems_eq (keys : List String) (items : List Json) :
    completeItems keys items = items.map (complete keys) := by
  induction items with
  | nil => rfl
  | cons item rest ih => rw [completeItems, ih, List.map_cons]

theorem completeMember_eq (key : String) (keys : List String) (members : List (String × Json)) :
    completeMember key keys members = members.map (completeAt key keys) := by
  induction members with
  | nil => rfl
  | cons m rest ih => rw [completeMember, ih, List.map_cons, completeAt]

theorem fillItems_eq (paths : List (List String)) (items : List Json) :
    fillItems paths items = items.map (fill paths) := by
  induction items with
  | nil => rfl
  | cons item rest ih => rw [fillItems, ih, List.map_cons]

theorem fillMembers_eq (paths : List (List String)) (members : List (String × Json)) :
    fillMembers paths members = members.map (fillAt paths) := by
  induction members with
  | nil => rfl
  | cons m rest ih => rw [fillMembers, ih, List.map_cons, fillAt]

/-! Adding members -/

theorem any_name_iff {members : List (String × Json)} {key : String} :
    members.any (·.1 == key) = true ↔ key ∈ names members := by
  simp [names]

theorem addNull_of_mem {members : List (String × Json)} {key : String} (h : key ∈ names members) :
    addNull members key = members := if_pos (any_name_iff.mpr h)

theorem addNull_of_not_mem {members : List (String × Json)} {key : String}
    (h : key ∉ names members) : addNull members key = Record.insert key .null members :=
  if_neg (mt any_name_iff.mp h)

theorem names_map {g : String × Json → String × Json} (hname : ∀ m, (g m).1 = m.1)
    (members : List (String × Json)) : names (members.map g) = names members := by
  simp [names, Function.comp_def, hname]

theorem map_addNull {g : String × Json → String × Json} (hname : ∀ m, (g m).1 = m.1)
    (hnull : ∀ name, g (name, .null) = (name, .null)) (members : List (String × Json))
    (key : String) : (addNull members key).map g = addNull (members.map g) key := by
  have hinsert : (Record.insert key .null members).map g =
      Record.insert key .null (members.map g) := by
    induction members with
    | nil => simp [Record.insert, hnull]
    | cons m rest ih =>
      have hm : g m = (m.1, (g m).2) := Prod.ext (hname m) rfl
      rw [Record.insert, List.map_cons, hm, Record.insert]
      split_ifs
      · simp [hnull, ← hm]
      · simp [hnull]
      · simp [ih, ← hm]
  by_cases h : key ∈ names members
  · rw [addNull_of_mem h, addNull_of_mem (by rwa [names_map hname])]
  · rw [addNull_of_not_mem h, addNull_of_not_mem (by rwa [names_map hname]), hinsert]

theorem map_addNulls {g : String × Json → String × Json} (hname : ∀ m, (g m).1 = m.1)
    (hnull : ∀ name, g (name, .null) = (name, .null)) (keys : List String)
    (members : List (String × Json)) :
    (keys.foldl addNull members).map g = keys.foldl addNull (members.map g) := by
  induction keys generalizing members with
  | nil => rfl
  | cons key keys ih => rw [List.foldl_cons, List.foldl_cons, ih, map_addNull hname hnull]

/-- An addition changes nothing, or it puts one new member between the others. -/
theorem addNull_cases (members : List (String × Json)) (key : String) :
    (key ∈ names members ∧ addNull members key = members) ∨
      (key ∉ names members ∧ ∃ before after, members = before ++ after ∧
        addNull members key = before ++ (key, .null) :: after) := by
  by_cases h : key ∈ names members
  · exact .inl ⟨h, addNull_of_mem h⟩
  · refine .inr ⟨h, ?_⟩
    rw [addNull_of_not_mem h]
    induction members with
    | nil => exact ⟨[], [], rfl, rfl⟩
    | cons m rest ih =>
      have hne : key ≠ m.1 := fun he => h (by simp [names, he])
      have hrest : key ∉ names rest := fun hmem => h (List.mem_cons_of_mem _ hmem)
      rw [Record.insert, if_neg hne]
      split_ifs
      · exact ⟨[], m :: rest, rfl, rfl⟩
      · obtain ⟨before, after, he, hi⟩ := ih hrest
        exact ⟨m :: before, after, by rw [he, List.cons_append], by rw [hi, List.cons_append]⟩

theorem mem_addNulls {keys : List String} {members : List (String × Json)} {m : String × Json}
    (h : m ∈ keys.foldl addNull members) : m ∈ members ∨ (m.1 ∈ keys ∧ m.2 = .null) := by
  induction keys generalizing members with
  | nil => exact .inl h
  | cons key keys ih =>
    rcases ih h with h | h
    · rcases addNull_cases members key with ⟨-, he⟩ | ⟨-, before, after, rfl, ha⟩
      · rw [he] at h
        exact .inl h
      · rw [ha] at h
        simp only [List.mem_append, List.mem_cons] at h ⊢
        rcases h with h | rfl | h
        · exact .inl (.inl h)
        · exact .inr ⟨.inl rfl, rfl⟩
        · exact .inl (.inr h)
    · exact .inr ⟨List.mem_cons_of_mem key h.1, h.2⟩

theorem names_addNull (members : List (String × Json)) (key name : String) :
    name ∈ names (addNull members key) ↔ name = key ∨ name ∈ names members := by
  rcases addNull_cases members key with ⟨h, he⟩ | ⟨-, before, after, rfl, ha⟩
  · rw [he]
    exact ⟨.inr, fun hname => hname.elim (fun heq => heq ▸ h) id⟩
  · rw [ha]
    simp only [names, List.map_append, List.map_cons, List.mem_append, List.mem_cons]
    exact or_left_comm

theorem names_addNulls (keys : List String) (members : List (String × Json)) (name : String) :
    name ∈ names (keys.foldl addNull members) ↔ name ∈ keys ∨ name ∈ names members := by
  induction keys generalizing members with
  | nil => simp
  | cons key keys ih =>
    rw [List.foldl_cons, ih, names_addNull, List.mem_cons]
    exact or_left_comm.trans or_assoc.symm

theorem filter_addNulls {p : String → Bool} {members : List (String × Json)}
    (h : ∀ name, p name = true → name ∈ names members) (keys : List String) :
    (keys.foldl addNull members).filter (fun m => p m.1) = members.filter fun m => p m.1 := by
  induction keys generalizing members with
  | nil => rfl
  | cons key keys ih =>
    have hadd : (addNull members key).filter (fun m => p m.1) = members.filter fun m => p m.1 := by
      rcases addNull_cases members key with ⟨-, he⟩ | ⟨hnew, before, after, rfl, ha⟩
      · rw [he]
      · have hkey : p key = false := by simpa using mt (h key) hnew
        rw [ha]
        simp [hkey]
    rw [List.foldl_cons, ih (fun name hname => (names_addNull _ _ _).mpr (.inr (h name hname))), hadd]

/-! One pass -/

theorem complete_null (keys : List String) : complete keys .null = .null := by
  cases keys <;> rfl

theorem complete_object (key : String) (keys : List String) (members : List (String × Json)) :
    complete (key :: keys) (.object members) =
      .object (addNull (members.map (completeAt key keys)) key) := by
  have hnames := names_map (g := completeAt key keys) (fun _ => rfl) members
  by_cases h : key ∈ names members
  · rw [addNull_of_mem (by rwa [hnames]), ← completeMember_eq, complete]
    simp [any_name_iff.mpr h]
  · have hsame : members.map (completeAt key keys) = members := by
      refine (List.map_congr_left (g := id) fun m hm => ?_).trans (List.map_id members)
      have hne : m.1 ≠ key := by
        rintro rfl
        exact h (List.mem_map_of_mem hm)
      simp [completeAt, hne]
    rw [hsame, addNull_of_not_mem h, complete]
    simp [mt any_name_iff.mp h]

theorem firsts_append (paths others : List (List String)) :
    firsts (paths ++ others) = firsts paths ++ firsts others := List.filterMap_append

/-- Completing along one more path is one pass that knows this path too. -/
theorem complete_fill (keys : List String) (paths : List (List String)) (v : Json) :
    complete keys (fill paths v) = fill (paths ++ [keys]) v := by
  induction v using Json.nested generalizing keys paths with
  | null | bool | int | float | string => cases keys <;> rfl
  | array items ih =>
    have hitems : ∀ v ∈ items, complete keys (fill paths v) = fill (paths ++ [keys]) v :=
      fun v hv => ih v hv keys paths
    rw [fill, complete, completeItems_eq, fill, fillItems_eq, fillItems_eq, List.map_map]
    congr 1
    exact List.map_congr_left hitems
  | object members ih =>
    rw [fill, fill, fillMembers_eq, fillMembers_eq, firsts_append]
    cases keys with
    | nil =>
      have hsame : members.map (fillAt (paths ++ [[]])) = members.map (fillAt paths) :=
        List.map_congr_left fun m _ => by simp [fillAt, behind]
      have hnone : firsts [[]] = [] := rfl
      rw [hsame, hnone, List.append_nil, complete]
    | cons key keys =>
      have hmembers : (members.map (fillAt paths)).map (completeAt key keys) =
          members.map (fillAt (paths ++ [key :: keys])) := by
        rw [List.map_map]
        refine List.map_congr_left fun m hm => ?_
        by_cases hname : key = m.1
        · simp [fillAt, completeAt, behind, hname, ih m hm]
        · have hne : m.1 ≠ key := fun he => hname he.symm
          simp [fillAt, completeAt, behind, hname, hne]
      rw [complete_object, map_addNulls (g := completeAt key keys) (fun _ => rfl)
        (fun name => by simp [completeAt, complete_null]), hmembers, List.foldl_append]
      rfl

theorem fill_nil (v : Json) : fill [] v = v := by
  induction v using Json.nested with
  | null | bool | int | float | string => rfl
  | array items ih =>
    rw [fill, fillItems_eq]
    congr 1
    exact (List.map_congr_left (g := id) ih).trans (List.map_id items)
  | object members ih =>
    rw [fill, fillMembers_eq]
    congr 1
    have hmembers : ∀ m ∈ members, fillAt [] m = id m := fun m hm => Prod.ext rfl (ih m hm)
    exact (List.map_congr_left hmembers).trans (List.map_id members)

theorem fillNulls_eq (paths : List Path) (data : Json) :
    fillNulls paths data = fill (paths.map Path.keys) data := by
  have hfold : ∀ done, paths.foldl (fun v p => complete p.keys v) (fill done data) =
      fill (done ++ paths.map Path.keys) data := by
    induction paths with
    | nil => simp
    | cons p paths ih =>
      intro done
      rw [List.foldl_cons, complete_fill, ih]
      simp
  have hstart := hfold []
  rw [fill_nil] at hstart
  exact hstart

/-! What one pass does -/

theorem members_widen_map {members : List (String × Json)} {g : String × Json → String × Json}
    (hname : ∀ m, (g m).1 = m.1) (h : ∀ m ∈ members, Widens m.2 (g m).2) :
    MembersWiden members (members.map g) := by
  induction members with
  | nil => trivial
  | cons m rest ih =>
    exact ⟨(hname m).symm, h m List.mem_cons_self, ih fun m' hm => h m' (List.mem_cons_of_mem m hm)⟩

theorem widens_fill (paths : List (List String)) (v : Json) : Widens v (fill paths v) := by
  induction v using Json.nested generalizing paths with
  | null | bool | int | float | string => rfl
  | array items ih =>
    rw [fill, fillItems_eq]
    induction items with
    | nil => trivial
    | cons item rest ihrest =>
      exact ⟨ih item List.mem_cons_self paths,
        ihrest fun v hv => ih v (List.mem_cons_of_mem item hv)⟩
  | object members ih =>
    have hnames : names (members.map (fillAt paths)) = names members :=
      names_map (g := fillAt paths) (fun _ => rfl) members
    rw [fill, fillMembers_eq]
    constructor
    · rw [filter_addNulls (p := (names members).contains) (by simp [hnames])]
      have hall : ∀ m ∈ members.map (fillAt paths), (names members).contains m.1 = true := by
        intro m hm
        have hmem : m.1 ∈ names (members.map (fillAt paths)) := List.mem_map_of_mem hm
        rw [hnames] at hmem
        simpa using hmem
      rw [List.filter_eq_self.mpr hall]
      exact members_widen_map (fun _ => rfl) fun m hm => ih m hm (behind m.1 paths)
    · intro m hm hnew
      rcases mem_addNulls hm with hm | hm
      · exact absurd (hnames ▸ List.mem_map_of_mem hm) hnew
      · exact hm.2

theorem mem_behind {key : String} {keys : List String} {paths : List (List String)} :
    keys ∈ behind key paths ↔ key :: keys ∈ paths := by
  rw [behind, List.mem_filterMap]
  constructor
  · rintro ⟨path, hmem, hrest⟩
    cases path with
    | nil => cases hrest
    | cons first rest =>
      obtain ⟨rfl, rfl⟩ : first = key ∧ rest = keys := by simpa using hrest
      exact hmem
  · exact fun h => ⟨key :: keys, h, if_pos rfl⟩

theorem mem_firsts {key : String} {paths : List (List String)} :
    key ∈ firsts paths ↔ ∃ rest, key :: rest ∈ paths := by
  rw [firsts, List.mem_filterMap]
  constructor
  · rintro ⟨path, hmem, hfirst⟩
    obtain ⟨rest, rfl⟩ := List.head?_eq_some_iff.mp hfirst
    exact ⟨rest, hmem⟩
  · exact fun ⟨rest, hmem⟩ => ⟨key :: rest, hmem, rfl⟩

theorem fill_eq_array {paths : List (List String)} {v : Json} {items : List Json}
    (h : fill paths v = .array items) : ∃ old, v = .array old ∧ items = old.map (fill paths) := by
  cases v with
  | array old =>
    rw [fill, fillItems_eq] at h
    exact ⟨old, rfl, (Json.array.inj h).symm⟩
  | null | bool | int | float | string | object => cases h

theorem fill_eq_object {paths : List (List String)} {v : Json} {members : List (String × Json)}
    (h : fill paths v = .object members) : ∃ old, v = .object old ∧
      members = (firsts paths).foldl addNull (old.map (fillAt paths)) := by
  cases v with
  | object old =>
    rw [fill, fillMembers_eq] at h
    exact ⟨old, rfl, (Json.object.inj h).symm⟩
  | null | bool | int | float | string | array => cases h

theorem hasKeys_fill {paths : List (List String)} {keys : List String} (h : keys ∈ paths)
    (v : Json) : HasKeys keys (fill paths v) := by
  intro before key after he members hleads
  -- The walk that leads to the object also leads down the value that was filled.
  generalize hw : fill paths v = w at hleads
  generalize ht : Json.object members = target at hleads
  induction hleads generalizing v paths keys with
  | here w =>
    subst ht
    obtain ⟨old, rfl, rfl⟩ := fill_eq_object hw
    have hfirst : key ∈ firsts paths := mem_firsts.mpr ⟨after, by rwa [he] at h⟩
    exact (names_addNulls _ _ key).mpr (.inl hfirst)
  | @item before items item target hitem _ ih =>
    obtain ⟨old, rfl, rfl⟩ := fill_eq_array hw
    obtain ⟨v, -, rfl⟩ := List.mem_map.mp hitem
    exact ih h v he rfl ht
  | @member first before found value target hmem hleads ih =>
    obtain ⟨old, rfl, rfl⟩ := fill_eq_object hw
    rcases mem_addNulls hmem with hmem | ⟨-, hnull⟩
    · obtain ⟨m, -, hm⟩ := List.mem_map.mp hmem
      cases hm
      have hbehind : before ++ key :: after ∈ behind m.1 paths := mem_behind.mpr (by rwa [he] at h)
      exact ih hbehind m.2 rfl rfl ht
    · subst ht
      cases hnull
      cases hleads

theorem HasKeys.front {keys longer : List String} {v : Json} (h : HasKeys longer v)
    (hp : keys <+: longer) : HasKeys keys v := by
  intro before key after he
  obtain ⟨rest, rfl⟩ := hp
  exact h before key (after ++ rest) (by simp [he])

end QueryGate.Json
