import Mathlib.Data.List.TakeDrop
import QueryGate.Proofs.GraphQL.Lexing

/-! # Names, whole numbers and strings

The written form of each is read back as the one token it stands for, whatever separated text comes
behind it. A string in quotes needs no separation: no character of it can end its text early. -/
namespace QueryGate.GraphQL.Token

def IsName (s : String) : Prop :=
  ∃ c cs, s.toList = c :: cs ∧ startsName c = true ∧ cs.all continuesName = true

theorem not_continues_of_ends {c : Char} (h : endsNumber c = true) : continuesName c = false := by
  simp only [endsNumber, isMark, Bool.or_eq_true, beq_iff_eq, List.contains_iff_mem] at h
  have hmarks : "!$:=@|&()[]\x7b\x7d".toList.all (!continuesName ·) = true := by decide +kernel
  rcases h with (((((rfl | rfl) | rfl) | rfl) | rfl) | rfl) | h
  · rfl
  · rfl
  · rfl
  · rfl
  · rfl
  · rfl
  · simpa using List.all_eq_true.mp hmarks c h

theorem plain_of_continues {c : Char} (h : continuesName c = true) :
    c ≠ '"' ∧ c ≠ '.' ∧ isMark c = false ∧ endsNumber c = false := by
  refine ⟨?_, ?_, ?_, ?_⟩
  · rintro rfl; revert h; decide
  · rintro rfl; revert h; decide
  · cases hm : isMark c with
    | false => rfl
    | true => rw [not_continues_of_ends (by simp [endsNumber, hm])] at h; cases h
  · cases he : endsNumber c with
    | false => rfl
    | true => rw [not_continues_of_ends he] at h; cases h

theorem not_bracket {c : Char} (h : isMark c = false) : opens c = false ∧ closes c = false := by
  constructor
  · cases ho : opens c with
    | false => rfl
    | true =>
      simp only [opens, Bool.or_eq_true, beq_iff_eq] at ho
      rcases ho with (rfl | rfl) | rfl <;> cases h
  · cases ho : closes c with
    | false => rfl
    | true =>
      simp only [closes, Bool.or_eq_true, beq_iff_eq] at ho
      rcases ho with (rfl | rfl) | rfl <;> cases h

theorem brackets_fit_plain {a : List Char} (h : ∀ c ∈ a, c ≠ '"' ∧ isMark c = false)
    (rest : List Char) (left : Nat) :
    bracketsFit left false (a ++ rest) = bracketsFit left false rest := by
  induction a with
  | nil => rfl
  | cons c a ih =>
    have hc := h c List.mem_cons_self
    have hb := not_bracket hc.2
    have ih := ih fun d hd => h d (List.mem_cons_of_mem c hd)
    have hquote : (c == '"') = false := by simpa using hc.1
    simp [bracketsFit, hb.1, hb.2, hquote, ih]

theorem span_append {p : Char → Bool} {a rest : List Char} (ha : a.all p = true)
    (hr : ∀ c cs, rest = c :: cs → p c = false) : (a ++ rest).span p = (a, rest) := by
  have ha : ∀ c ∈ a, p c = true := by simpa using ha
  rw [List.span_eq_takeWhile_dropWhile, List.takeWhile_append_of_pos ha,
    List.dropWhile_append_of_pos ha]
  cases rest with
  | nil => simp
  | cons c cs => simp [hr c cs rfl]

namespace Spells

theorem name {s : String} (h : IsName s) : Spells s.toList [.name s] := by
  obtain ⟨c, cs, hs, hc, hcs⟩ := h
  have hcc : continuesName c = true := by simp [continuesName, hc]
  obtain ⟨hquote, hdot, hmark, -⟩ := plain_of_continues hcc
  have hplain : ∀ d ∈ c :: cs, d ≠ '"' ∧ isMark d = false := by
    intro d hd
    have hd : continuesName d = true := by
      rcases List.mem_cons.mp hd with rfl | hd
      · exact hcc
      · exact List.all_eq_true.mp hcs d hd
    exact ⟨(plain_of_continues hd).1, (plain_of_continues hd).2.2.1⟩
  rw [hs]
  refine single (u := .name s) rfl rfl (fun left => rfl) (by simp) (fun rest hr => ?_)
    (brackets_fit_plain hplain)
  have hspan : (cs ++ rest).span continuesName = (cs, rest) := by
    refine span_append hcs fun d ds hd => not_continues_of_ends ?_
    subst hd
    exact hr
  have hname : s = String.ofList (c :: cs) := by rw [← hs, String.ofList_toList]
  rw [List.cons_append, next?]
  · simp only [hmark, hc, hspan, hname, Bool.false_eq_true, if_false, if_true]
  · rintro rest' rfl; exact absurd rfl hdot
  · rintro rest' rfl; exact absurd rfl hquote
  · rintro rfl; exact absurd rfl hquote

end Spells

theorem natOfDigits_toDigits (n : Nat) : natOfDigits (Nat.toDigits 10 n) = n := by
  have h := Nat.ofDigitChars_ten_toDigits (n := n)
  rw [Nat.ofDigitChars_eq_foldl] at h
  exact h

theorem digits_are_digits (n : Nat) : ∀ c ∈ Nat.toDigits 10 n, c.isDigit = true :=
  fun _ hc => Nat.isDigit_of_mem_toDigits (by omega) (by omega) hc

theorem head_of_digits {n : Nat} (hn : 0 < n) : ∃ c cs, Nat.toDigits 10 n = c :: cs ∧ c ≠ '0' := by
  induction n using Nat.strongRecOn with
  | ind n ih =>
    by_cases hlt : n < 10
    · rw [Nat.toDigits_of_lt_base hlt]
      refine ⟨n.digitChar, [], rfl, ?_⟩
      have hd : ∀ m < 10, 0 < m → m.digitChar ≠ '0' := by decide
      exact hd n hlt hn
    · obtain ⟨c, cs, hc, hne⟩ := ih (n / 10) (by omega) (by omega)
      rw [Nat.toDigits_of_base_le (by omega) (by omega), hc]
      exact ⟨c, cs ++ [(n % 10).digitChar], rfl, hne⟩

theorem isWhole_digits (n : Nat) : isWhole (Nat.toDigits 10 n) = true := by
  rcases Nat.eq_zero_or_pos n with rfl | hn
  · rfl
  · obtain ⟨c, cs, hc, hne⟩ := head_of_digits hn
    have hdigits := digits_are_digits n
    rw [hc] at hdigits ⊢
    have hminus : c ≠ '-' := by
      rintro rfl
      exact absurd (hdigits '-' List.mem_cons_self) (by decide)
    have hcs : isDigits cs = true := List.all_eq_true.mpr fun d hd =>
      hdigits d (List.mem_cons_of_mem c hd)
    simp [isWhole, hminus, hcs]

theorem isWhole_minus_digits {n : Nat} (hn : 0 < n) :
    isWhole ('-' :: Nat.toDigits 10 n) = true := by
  obtain ⟨c, cs, hc, hne⟩ := head_of_digits hn
  have hdigits : isDigits (Nat.toDigits 10 n) = true :=
    List.all_eq_true.mpr (digits_are_digits n)
  rw [hc] at hdigits ⊢
  simp [isWhole, hne, hdigits]

theorem int_chars (n : Int) : (toString n).toList =
    if 0 ≤ n then Nat.toDigits 10 n.toNat else '-' :: Nat.toDigits 10 (-n).toNat := by
  rw [Int.toString_eq_repr, Int.repr_eq_if]
  split_ifs with h
  · exact Nat.toList_repr
  · rw [String.toList_append, Nat.toList_repr]
    rfl

theorem splitLast_none {kind : Char → Bool} {s : List Char} (h : ∀ c ∈ s, kind c = false) :
    splitLast kind s = none := by
  induction s with
  | nil => rfl
  | cons c s ih =>
    simp [splitLast, h c List.mem_cons_self, ih fun d hd => h d (List.mem_cons_of_mem c hd)]

def inWhole (c : Char) : Bool := c == '-' || c.isDigit

theorem in_whole_of_int (n : Int) : ∀ c ∈ (toString n).toList, inWhole c = true := by
  intro c hc
  rw [int_chars] at hc
  split_ifs at hc with h
  · simp [inWhole, digits_are_digits _ c hc]
  · rcases List.mem_cons.mp hc with rfl | hc
    · rfl
    · simp [inWhole, digits_are_digits _ c hc]

theorem not_starts_of_digit {c : Char} (h : c.isDigit = true) : startsName c = false := by
  cases hs : startsName c with
  | false => rfl
  | true =>
    have hd : 48 ≤ c.toNat ∧ c.toNat ≤ 57 := Char.isDigit_iff_toNat.mp h
    have hs : (c == '_' || (decide (c.val ≥ 'A'.val ∧ c.val ≤ 'Z'.val) ||
        (c.val ≥ 'a'.val && c.val ≤ 'z'.val))) = true := hs
    have hs : c = '_' ∨ (65 ≤ c.toNat ∧ c.toNat ≤ 90) ∨ 97 ≤ c.toNat ∧ c.toNat ≤ 122 := by
      simpa [UInt32.le_iff_toNat_le, or_assoc] using hs
    rcases hs with rfl | hs
    · exact absurd h (by decide)
    · omega

theorem plain_of_whole {c : Char} (h : inWhole c = true) :
    c ≠ '"' ∧ c ≠ '.' ∧ isMark c = false ∧ endsNumber c = false ∧ startsName c = false := by
  simp only [inWhole, Bool.or_eq_true, beq_iff_eq] at h
  rcases h with rfl | h
  · decide
  · obtain ⟨hquote, hdot, hmark, hends⟩ := plain_of_continues (c := c) (by simp [continuesName, h])
    exact ⟨hquote, hdot, hmark, hends, not_starts_of_digit h⟩

theorem number_of_int {n : Int} (hmin : minInt ≤ n) (hmax : n ≤ maxInt) :
    number? (toString n).toList = some (.int n) := by
  have hwhole := in_whole_of_int n
  have hexp : splitLast isExponentMark (toString n).toList = none :=
    splitLast_none fun c hc => by
      cases he : isExponentMark c with
      | false => rfl
      | true =>
        simp only [isExponentMark, Bool.or_eq_true, beq_iff_eq] at he
        rcases he with rfl | rfl <;> exact absurd (hwhole _ hc) (by decide)
  have hdot : splitLast (· == '.') (toString n).toList = none :=
    splitLast_none fun c hc => beq_false_of_ne (plain_of_whole (hwhole c hc)).2.1
  rw [number?, hexp, hdot]
  simp only
  rw [int_chars]
  split_ifs with h
  · have hsign : unsigned (Nat.toDigits 10 n.toNat) = (false, Nat.toDigits 10 n.toNat) := by
      unfold unsigned
      split
      · rename_i ds hds
        exact absurd (digits_are_digits n.toNat '-' (by rw [hds]; exact List.mem_cons_self))
          (by decide)
      · rfl
    have hn : ((n.toNat : Nat) : Int) = n := Int.toNat_of_nonneg h
    simp [int?, isWhole_digits, hsign, natOfDigits_toDigits, hn, hmin, hmax]
  · have hn : (((-n).toNat : Nat) : Int) = -n := Int.toNat_of_nonneg (by omega)
    have hpos : 0 < (-n).toNat := by omega
    simp [int?, isWhole_minus_digits hpos, unsigned, natOfDigits_toDigits, hn, hmin, hmax]

/-- What starts like a number is read up to the character that ends it, or not at all. -/
theorem next_of_number {c : Char} {cs rest : List Char} (hc : inWhole c = true)
    (hcs : ∀ d ∈ cs, endsNumber d = false) (hr : separated rest = true) :
    next? (c :: cs ++ rest) = (number? (c :: cs)).map fun t => (t, c :: cs, rest) := by
  obtain ⟨hquote, hdot, hmark, -, hstart⟩ := plain_of_whole hc
  have hspan : (cs ++ rest).span (!endsNumber ·) = (cs, rest) := by
    refine span_append (List.all_eq_true.mpr fun d hd => by simp [hcs d hd]) fun d ds hd => ?_
    subst hd
    simpa [separated] using hr
  have hsign : c = '-' ∨ c.isDigit = true := by simpa [inWhole] using hc
  rw [List.cons_append, next?]
  · simp only [hmark, hstart, hsign, hspan, Bool.false_eq_true, if_false, if_true]
    cases number? (c :: cs) <;> rfl
  · rintro rest' rfl; exact absurd rfl hdot
  · rintro rest' rfl; exact absurd rfl hquote
  · rintro rfl; exact absurd rfl hquote

namespace Spells

theorem int {n : Int} (hmin : minInt ≤ n) (hmax : n ≤ maxInt) :
    Spells (toString n).toList [.int n] := by
  have hwhole := in_whole_of_int n
  have hnumber := number_of_int hmin hmax
  cases hs : (toString n).toList with
  | nil =>
    rw [int_chars] at hs
    split_ifs at hs
    exact absurd hs Nat.toDigits_ne_nil
  | cons c cs =>
    rw [hs] at hwhole hnumber
    refine single (u := .int n) rfl rfl (fun left => rfl) (by simp) (fun rest hr => ?_)
      (brackets_fit_plain fun d hd => ?_)
    · rw [next_of_number (hwhole c List.mem_cons_self) (fun d hd =>
        (plain_of_whole (hwhole d (List.mem_cons_of_mem c hd))).2.2.2.1) hr, hnumber]
      rfl
    · have hd := plain_of_whole (hwhole d hd)
      exact ⟨hd.1, hd.2.2.1⟩

end Spells

theorem hexDigit_spec (n : Nat) : hexValue? (hexDigit n) = some (n % 16) ∧
    hexDigit n ≠ '"' ∧ hexDigit n ≠ '\\' ∧ hexDigit n ≠ '\n' := by
  have hd : ∀ m < 16, hexValue? (Nat.digitChar m) = some m ∧ Nat.digitChar m ≠ '"' ∧
    Nat.digitChar m ≠ '\\' ∧ Nat.digitChar m ≠ '\n' := by decide
  exact hd (n % 16) (Nat.mod_lt n (by omega))

theorem codePoint_of_control {c : Char} (hc : isControl c = true) :
    codePoint? '0' '0' (hexDigit (c.toNat / 16)) (hexDigit c.toNat) = some c := by
  have hlt : c.toNat < 0xA0 := by
    simp only [isControl, Bool.or_eq_true, Bool.and_eq_true, decide_eq_true_eq] at hc
    omega
  have hn : 16 * (c.toNat / 16 % 16) + c.toNat % 16 = c.toNat := by omega
  have hzero : hexValue? '0' = some 0 := rfl
  simp [codePoint?, (hexDigit_spec _).1, hzero, hn]
  omega

/-- The ways in which a character is written in a string. -/
inductive Escaped (c : Char) : List Char → Prop where
  | plain : c ≠ '"' → c ≠ '\\' → c ≠ '\n' → Escaped c [c]
  | short {d} : d ≠ '\n' → d ≠ 'u' → escape? d = some c → Escaped c ['\\', d]
  | code : isControl c = true →
      Escaped c ['\\', 'u', '0', '0', hexDigit (c.toNat / 16), hexDigit c.toNat]

theorem escaped_spec (c : Char) : Escaped c (escaped c) := by
  unfold escaped
  split_ifs with hq hb hn hr ht hc
  · subst hq; exact .short (by decide) (by decide) rfl
  · subst hb; exact .short (by decide) (by decide) rfl
  · subst hn; exact .short (by decide) (by decide) rfl
  · subst hr; exact .short (by decide) (by decide) rfl
  · subst ht; exact .short (by decide) (by decide) rfl
  · exact .code hc
  · exact .plain hq hb hn

theorem stringBody_plain {c : Char} (hq : c ≠ '"') (hb : c ≠ '\\') (hn : c ≠ '\n')
    (s : List Char) : stringBody (c :: s) = (stringBody s).map fun (b, r) => (c :: b, r) := by
  rw [stringBody]
  · simp only [hn, if_false]
  · rintro rfl; exact absurd rfl hq
  · rintro d s' rfl; exact absurd rfl hb

namespace Escaped

variable {c : Char} {cs : List Char}

theorem stringBody (he : Escaped c cs) {s body rest : List Char}
    (h : stringBody s = some (body, rest)) :
    Token.stringBody (cs ++ s) = some (cs ++ body, rest) := by
  cases he with
  | plain hq hb hn => simp [stringBody_plain hq hb hn, h]
  | short hn _ _ => simp [Token.stringBody, hn, h]
  | code =>
    obtain ⟨-, hq1, hb1, hn1⟩ := hexDigit_spec (c.toNat / 16)
    obtain ⟨-, hq2, hb2, hn2⟩ := hexDigit_spec c.toNat
    simp [Token.stringBody, stringBody_plain hq1 hb1 hn1, stringBody_plain hq2 hb2 hn2, h]

theorem unescape (he : Escaped c cs) {s value : List Char} (h : unescape? s = some value) :
    unescape? (cs ++ s) = some (c :: value) := by
  cases he with
  | plain hq hb hn =>
    rw [List.singleton_append, unescape?]
    · simp [h]
    · rintro a b c d rest rfl; exact absurd rfl hb
    · rintro d rest rfl; exact absurd rfl hb
  | short _ hu hd =>
    rw [List.cons_append, List.singleton_append, unescape?]
    · simp [hd, h]
    · rintro a b c d' rest rfl; exact absurd rfl hu
  | code hc => simp [unescape?, codePoint_of_control hc, h]

theorem bracketsFit (he : Escaped c cs) (left : Nat) (s : List Char) :
    bracketsFit left true (cs ++ s) = bracketsFit left true s := by
  have hplain : ∀ d s, d ≠ '"' → d ≠ '\\' →
      Token.bracketsFit left true (d :: s) = Token.bracketsFit left true s := by
    intro d s hq hb
    rw [Token.bracketsFit]
    · rw [bne_iff_ne.mpr hq]
    · rintro e s' rfl; exact absurd rfl hb
  cases he with
  | plain hq hb _ => exact hplain c s hq hb
  | short _ _ _ => rfl
  | code =>
    obtain ⟨-, hq1, hb1, -⟩ := hexDigit_spec (c.toNat / 16)
    obtain ⟨-, hq2, hb2, -⟩ := hexDigit_spec c.toNat
    change Token.bracketsFit left true (hexDigit (c.toNat / 16) :: hexDigit c.toNat :: s) = _
    rw [hplain _ _ hq1 hb1, hplain _ _ hq2 hb2]

theorem head (he : Escaped c cs) : ∃ d ds, cs = d :: ds ∧ d ≠ '"' := by
  cases he with
  | plain hq _ _ => exact ⟨c, [], rfl, hq⟩
  | short _ _ _ => exact ⟨_, _, rfl, by decide⟩
  | code => exact ⟨_, _, rfl, by decide⟩

end Escaped

theorem quoted_append (s rest : List Char) :
    quoted s ++ rest = '"' :: (s.flatMap escaped ++ '"' :: rest) := by
  simp [quoted]

theorem stringBody_quoted (s rest : List Char) :
    stringBody (s.flatMap escaped ++ '"' :: rest) = some (s.flatMap escaped, rest) := by
  induction s with
  | nil => rfl
  | cons c s ih =>
    rw [List.flatMap_cons, List.append_assoc]
    exact (escaped_spec c).stringBody ih

theorem unescape_quoted (s : List Char) : unescape? (s.flatMap escaped) = some s := by
  induction s with
  | nil => rfl
  | cons c s ih =>
    rw [List.flatMap_cons]
    exact (escaped_spec c).unescape ih

theorem brackets_fit_quoted (s rest : List Char) (left : Nat) :
    bracketsFit left false (quoted s ++ rest) = bracketsFit left false rest := by
  have hbody : bracketsFit left true (s.flatMap escaped ++ '"' :: rest) =
      bracketsFit left false rest := by
    induction s with
    | nil => rfl
    | cons c s ih =>
      rw [List.flatMap_cons, List.append_assoc, (escaped_spec c).bracketsFit, ih]
  rw [quoted_append]
  exact hbody

/-- The quotes of the empty string and one more would start a block string. -/
theorem next_quoted {s rest : List Char} (h : s = [] → rest.head? ≠ some '"') :
    next? (quoted s ++ rest) = some (.string (String.ofList s), quoted s, rest) := by
  have hbody := stringBody_quoted s rest
  have hvalue := unescape_quoted s
  have hnot : ∀ t, s.flatMap escaped ++ '"' :: rest ≠ '"' :: '"' :: t := by
    intro t ht
    cases s with
    | nil =>
      have hrest : rest = '"' :: t := by simpa using ht
      rw [hrest] at h
      exact h rfl rfl
    | cons c s =>
      obtain ⟨d, ds, hd, hne⟩ := (escaped_spec c).head
      rw [List.flatMap_cons, hd] at ht
      exact hne (List.cons.inj ht).1
  rw [quoted_append, next?]
  · simp only [hbody, hvalue, Option.bind_eq_bind, Option.bind_some]
    rfl
  · exact hnot

theorem head_of_separated {rest : List Char} (h : separated rest = true) :
    rest.head? ≠ some '"' := by
  intro hquote
  obtain ⟨rest, rfl⟩ := List.head?_eq_some_iff.mp hquote
  cases h

theorem Spells.string (s : String) : Spells (quoted s.toList) [.string s] := by
  refine single (u := .string s) rfl rfl (fun left => rfl) (by simp [quoted]) (fun rest hr => ?_)
    (brackets_fit_quoted s.toList)
  rw [next_quoted fun _ => head_of_separated hr, String.ofList_toList]

theorem next_three_quotes {rest : List Char} {t : Token} {consumed behind : List Char}
    (h : next? ('"' :: '"' :: '"' :: rest) = some (t, consumed, behind)) :
    2 < consumed.length := by
  rw [next?] at h
  cases hbody : blockBody false rest with
  | none =>
    rw [hbody] at h
    cases h
  | some split =>
    rw [hbody] at h
    cases h
    simp

/-- The text of a string in quotes is one token, whatever the string and whatever follows: it has
the string as its value, all of the quoted text is taken off, and reading goes on behind it with as
many brackets left to open as before. Only the quotes of the empty string may not be followed by one
more quote. -/
theorem quoted_text_is_one_token (s : String) (rest : List Char) :
    (next? (quoted s.toList ++ rest) = some (.string s, quoted s.toList, rest) ↔
        (s = "" → rest.head? ≠ some '"')) ∧
      ((s = "" → rest.head? ≠ some '"') → ∀ rounds left p,
        let behind := scanFrom rounds left (p.after (quoted s.toList)) rest
        scanFrom (rounds + 1) left p (quoted s.toList ++ rest) =
          { behind with items := ⟨.string s, p⟩ :: behind.items }) := by
  have hnext : (s = "" → rest.head? ≠ some '"') →
      next? (quoted s.toList ++ rest) = some (.string s, quoted s.toList, rest) := by
    intro h
    rw [next_quoted fun hs => h (String.toList_eq_nil_iff.mp hs), String.ofList_toList]
  refine ⟨⟨?_, hnext⟩, ?_⟩
  · rintro hone rfl hquote
    obtain ⟨rest, rfl⟩ := List.head?_eq_some_iff.mp hquote
    exact absurd (next_three_quotes hone) (by decide)
  · intro h rounds left p
    have hone := hnext h
    have hleft : bracketsLeft? left (.string s) = some left := rfl
    simp only [scanFrom, skip_of_next hone, hone, hleft]

/-- A string with a quote, brackets, a line end and a backslash at its end does not leave its
quotes. -/
theorem closing_text_stays_quoted :
    let s := "\")\x7bbody\x7d\n\\"
    let rest := ")\x7btitle\x7d".toList
    quoted s.toList = "\"\\\")\x7bbody\x7d\\n\\\\\"".toList ∧ (s = "" → rest.head? ≠ some '"') ∧
      next? (quoted s.toList ++ rest) = some (.string s, quoted s.toList, rest) := by
  intro s rest
  have hne : s = "" → rest.head? ≠ some '"' := fun hs => absurd hs (by decide)
  refine ⟨by decide, hne, ?_⟩
  exact (quoted_text_is_one_token s rest).1.mpr hne

/-- A quote behind the empty string starts a block string, here one that does not end. -/
example : next? (quoted [] ++ ['"', ')']) = none := rfl

end QueryGate.GraphQL.Token
