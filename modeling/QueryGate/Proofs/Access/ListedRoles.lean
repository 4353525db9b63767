import QueryGate.Identity
import QueryGate.Schema

/-! # Roles that are listed in an annotation

The strings in the list of a directive are joined by commas, and a caller is checked against what
stands between the commas, without the blanks around it. A string that is empty, that has a comma in
it or that has a blank at either end does not come out as it went in. -/
namespace QueryGate

open GraphQL (Directive Value)

namespace Text

theorem pieces_intercalate (separator : Char) {texts : List (List Char)} (h : texts ≠ []) :
    pieces separator (List.intercalate [separator] texts) = texts.flatMap (pieces separator) := by
  induction texts with
  | nil => exact absurd rfl h
  | cons text rest ih =>
    cases rest with
    | nil => simp
    | cons next rest =>
      rw [List.intercalate_cons_cons, List.append_assoc, List.singleton_append, pieces_append,
        ih (List.cons_ne_nil next rest)]
      rfl

theorem not_mem_piece {separator : Char} {text piece : List Char}
    (h : piece ∈ pieces separator text) : separator ∉ piece := by
  induction text generalizing piece with
  | nil =>
    obtain rfl := List.mem_singleton.mp h
    exact List.not_mem_nil
  | cons c rest ih =>
    rw [pieces] at h
    split at h
    · rcases List.mem_cons.mp h with rfl | h
      · exact List.not_mem_nil
      · exact ih h
    · rename_i hc
      cases hp : pieces separator rest with
      | nil => exact absurd hp (pieces_ne_nil separator rest)
      | cons first more =>
        rw [hp] at h ih
        rcases List.mem_cons.mp h with rfl | h
        · exact List.not_mem_cons_of_ne_of_not_mem (Ne.symm hc) (ih List.mem_cons_self)
        · exact ih (List.mem_cons_of_mem first h)

structure IsTrimmed (s : List Char) : Prop where
  first : ∀ c, s.head? = some c → isBlank c = false
  last : ∀ c, s.getLast? = some c → isBlank c = false

theorem head_dropWhile {s : List Char} {c : Char} (h : (s.dropWhile isBlank).head? = some c) :
    isBlank c = false := by
  have hhead := List.head?_dropWhile_not isBlank s
  rw [h] at hhead
  exact hhead

theorem dropWhile_of_head {s : List Char} (h : ∀ c, s.head? = some c → isBlank c = false) :
    s.dropWhile isBlank = s := by
  cases s with
  | nil => rfl
  | cons c rest => rw [List.dropWhile_cons_of_neg (by simp [h c rfl])]

theorem trimChars_starts (s : List Char) : trimChars s <+: s.dropWhile isBlank := by
  rw [trimChars, ← List.reverse_suffix, List.reverse_reverse]
  exact List.dropWhile_suffix isBlank

theorem trimChars_sublist (s : List Char) : (trimChars s).Sublist s :=
  (trimChars_starts s).sublist.trans (List.dropWhile_sublist isBlank)

theorem isTrimmed_trimChars (s : List Char) : IsTrimmed (trimChars s) where
  first c hc := by
    obtain ⟨rest, hrest⟩ := trimChars_starts s
    refine head_dropWhile (s := s) ?_
    rw [← hrest, List.head?_append, hc]
    rfl
  last c hc := by
    rw [trimChars, List.getLast?_reverse] at hc
    exact head_dropWhile hc

theorem trimChars_eq_self {s : List Char} (h : IsTrimmed s) : trimChars s = s := by
  have hlast : s.reverse.dropWhile isBlank = s.reverse :=
    dropWhile_of_head fun c hc => h.last c (List.head?_reverse ▸ hc)
  rw [trimChars, dropWhile_of_head h.first, hlast, List.reverse_reverse]

end Text

namespace User

/-- A role that stands for itself between commas. -/
structure IsListable (role : String) : Prop where
  nonempty : role ≠ ""
  comma : ',' ∉ role.toList
  trimmed : Text.IsTrimmed role.toList

theorem mem_listedRoles {body role : String} :
    role ∈ listedRoles body ↔ ∃ piece ∈ Text.split ',' body, Text.trim piece ≠ "" ∧
      role = Text.trim piece := by
  simp only [listedRoles, List.mem_filter, List.mem_map, Bool.not_eq_true',
    String.isEmpty_eq_false_iff]
  constructor
  · rintro ⟨⟨piece, hpiece, rfl⟩, hne⟩
    exact ⟨piece, hpiece, hne, rfl⟩
  · rintro ⟨piece, hpiece, hne, rfl⟩
    exact ⟨⟨piece, hpiece, rfl⟩, hne⟩

theorem isListable_of_listed {body role : String} (h : role ∈ listedRoles body) :
    IsListable role := by
  obtain ⟨_, hpiece, hne, rfl⟩ := mem_listedRoles.mp h
  obtain ⟨piece, hmem, rfl⟩ := List.mem_map.mp hpiece
  have htrim : (Text.trim (String.ofList piece)).toList = Text.trimChars piece := by
    rw [Text.trim, String.toList_ofList, String.toList_ofList]
  refine ⟨hne, ?_, ?_⟩
  · rw [htrim]
    exact fun hcomma => Text.not_mem_piece hmem ((Text.trimChars_sublist piece).subset hcomma)
  · rw [htrim]
    exact Text.isTrimmed_trimChars piece

theorem IsListable.listedRoles_eq {role : String} (h : IsListable role) :
    listedRoles role = [role] := by
  have htrim : Text.trim role = role := by
    rw [Text.trim, Text.trimChars_eq_self h.trimmed, String.ofList_toList]
  simp [listedRoles, Text.split, Text.pieces_of_not_mem h.comma, htrim, h.nonempty]

theorem split_intercalate {texts : List String} (h : texts ≠ []) :
    Text.split ',' (String.intercalate "," texts) = texts.flatMap (Text.split ',') := by
  have hcomma : ",".toList = [','] := rfl
  rw [Text.split, String.toList_intercalate, hcomma,
    Text.pieces_intercalate ',' (by simpa using h), List.flatMap_map, List.map_flatMap]
  rfl

theorem listedRoles_intercalate (roles : List String) :
    listedRoles (String.intercalate "," roles) = roles.flatMap listedRoles := by
  by_cases hne : roles = []
  · subst hne
    rfl
  · rw [listedRoles, split_intercalate hne, List.map_flatMap, List.filter_flatMap]
    rfl

end User

namespace Annotation

def roleList (directive argument : String) (roles : List String) : Directive :=
  ⟨directive, [(argument, .list (roles.map .string))]⟩

theorem listTexts?_strings (texts : List String) :
    listTexts? (.list (texts.map .string)) = some texts := by
  rw [listTexts?]
  induction texts with
  | nil => rfl
  | cons text rest ih =>
    rw [List.map_cons, List.mapM_cons, ih]
    rfl

theorem satisfies_roleList (directive argument : String) (roles : List String) (u : User) :
    u.satisfies (ofDirective (roleList directive argument roles)).body = true ↔
      ∃ role ∈ roles, ∃ listed ∈ User.listedRoles role, listed ∈ u.roles := by
  have hbody : (ofDirective (roleList directive argument roles)).body =
      some (String.intercalate "," roles) := by
    simp [ofDirective, roleList, bodyOf, Value.string?, listTexts?_strings]
  rw [hbody, User.satisfies, User.listedRoles_intercalate, List.any_flatMap]
  simp only [List.any_eq_true, User.hasRole, List.contains_iff_mem]

/-- A caller is let in by a list of strings for each role that stands, with blanks around it or not,
between the commas in one of the strings. Whatever the caller, that is as much as having one of the
strings as a role exactly if no string is empty, has a comma in it or has a blank at either end. -/
theorem listed_roles_are_kept_iff (directive argument : String) (roles : List String) :
    (∀ u : User, u.satisfies (ofDirective (roleList directive argument roles)).body = true ↔
      ∃ role ∈ roles, ∃ piece ∈ Text.split ',' role,
        Text.trim piece ≠ "" ∧ Text.trim piece ∈ u.roles) ∧
    ((∀ u : User, u.satisfies (ofDirective (roleList directive argument roles)).body = true ↔
        ∃ role ∈ roles, role ∈ u.roles) ↔
      ∀ role ∈ roles, User.IsListable role) := by
  refine ⟨fun u => ?_, fun hkept role hrole => ?_, fun hlistable u => ?_⟩
  · rw [satisfies_roleList]
    refine exists_congr fun role => and_congr_right fun _ => ?_
    constructor
    · rintro ⟨listed, hlisted, hu⟩
      obtain ⟨piece, hpiece, hne, rfl⟩ := User.mem_listedRoles.mp hlisted
      exact ⟨piece, hpiece, hne, hu⟩
    · rintro ⟨piece, hpiece, hne, hu⟩
      exact ⟨_, User.mem_listedRoles.mpr ⟨piece, hpiece, hne, rfl⟩, hu⟩
  · -- A caller with this role only is let in for it, so it is listed as it stands.
    have hin := (hkept ⟨none, [role]⟩).mpr ⟨role, hrole, List.mem_singleton_self role⟩
    obtain ⟨other, -, listed, hlisted, hsame⟩ := (satisfies_roleList ..).mp hin
    obtain rfl := List.mem_singleton.mp hsame
    exact User.isListable_of_listed hlisted
  · rw [satisfies_roleList]
    refine exists_congr fun role => and_congr_right fun hrole => ?_
    rw [(hlistable role hrole).listedRoles_eq]
    simp

def dividedText : String :=
  "type Query \x7b title: String secret: String @hasRole(roles: [\"admin,editor\"]) \x7d"

def admin : User := ⟨none, ["admin"]⟩

/-- The role is divided, so a caller is let in who does not have it. -/
theorem role_with_comma_is_divided : ∃ s a, Schema.read dividedText = .ok s ∧
    (s.field? "Query" "secret").bind (·.annotation? "hasRole") = some a ∧
    a = ofDirective (roleList "hasRole" "roles" ["admin,editor"]) ∧
    ¬ (admin.satisfies a.body = true ↔ ∃ role ∈ ["admin,editor"], role ∈ admin.roles) :=
  ⟨_, _, rfl, rfl, rfl, by decide⟩

end Annotation

end QueryGate
