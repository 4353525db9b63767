import Mathlib.Tactic.SplitIfs
import QueryGate.Json.Token

/-! # Strings that are written and read back

A string between quotes is read back as it was, whatever bytes follow. Its characters are written
one by one: as themselves, behind a backslash, or by number, so that no byte between the quotes ends
the string early. A text is read token by token if each token is the first one of the text that is
left. -/
namespace QueryGate

open Text (charOf encode encode_append utf8EncodeChar_ascii)

namespace Json

namespace Token

structure IsPlain (b : UInt8) : Prop where
  ne_quote : b ≠ quote
  ne_backslash : b ≠ backslash
  not_control : ¬ b < 0x20

theorem isPlain_of_le {b : UInt8} (h : 0x80 ≤ b) : IsPlain b where
  ne_quote := by rintro rfl; exact absurd h (by decide)
  ne_backslash := by rintro rfl; exact absurd h (by decide)
  not_control := fun hlt => absurd (UInt8.lt_of_le_of_lt h hlt) (by decide)

theorem stringBody_plain {bs : List UInt8} (h : ∀ b ∈ bs, IsPlain b) (s : List UInt8) :
    stringBody (bs ++ s) = (stringBody s).map fun r => (bs ++ r.1, r.2) := by
  induction bs with
  | nil => simp
  | cons b bs ih =>
    have hb := h b List.mem_cons_self
    have ih := ih fun d hd => h d (List.mem_cons_of_mem b hd)
    rw [List.cons_append, stringBody, if_neg hb.not_control, ih]
    · cases stringBody s <;> rfl
    · exact hb.ne_quote
    · exact fun _ _ hback _ => hb.ne_backslash hback

theorem stringPieces?_plain {bs : List UInt8} (h : ∀ b ∈ bs, IsPlain b) (s : List UInt8) :
    stringPieces? (bs ++ s) = (stringPieces? s).map (bs.map .plain ++ ·) := by
  induction bs with
  | nil => simp
  | cons b bs ih =>
    have hb := h b List.mem_cons_self
    have ih := ih fun d hd => h d (List.mem_cons_of_mem b hd)
    rw [List.cons_append, stringPieces?, ih]
    · cases stringPieces? s <;> rfl
    · exact fun _ _ _ _ _ hback _ => hb.ne_backslash hback
    · exact fun _ _ hback _ => hb.ne_backslash hback

theorem joinUnits?_plain {α : Type} (encode : Char → List α) (xs : List α) (ps : List (Piece α)) :
    joinUnits? encode (xs.map .plain ++ ps) = (joinUnits? encode ps).map (xs ++ ·) := by
  induction xs with
  | nil => simp
  | cons x xs ih =>
    rw [List.map_cons, List.cons_append, joinUnits?, ih]
    cases joinUnits? encode ps <;> rfl

theorem stringPieces?_short {x : UInt8} (hx : x ≠ unitMark) (s : List UInt8) :
    stringPieces? (backslash :: x :: s) =
      (shortEscape? (charOf x)).bind fun d => (stringPieces? s).map (.plain d.toUInt8 :: ·) := by
  refine (stringPieces?.eq_3 x s fun _ _ _ _ _ h _ => hx h).trans ?_
  cases shortEscape? (charOf x) <;> cases stringPieces? s <;> rfl

def Hexadecimal (c : Char) (d : Nat) : Prop :=
  c.toNat < 0x80 ∧ UInt8.ofNat c.toNat ≠ quote ∧ UInt8.ofNat c.toNat ≠ backslash ∧
    ¬ UInt8.ofNat c.toNat < 0x20 ∧ hexValue? (charOf (UInt8.ofNat c.toNat)) = some d

instance (c : Char) (d : Nat) : Decidable (Hexadecimal c d) := by
  unfold Hexadecimal
  infer_instance

theorem hexadecimal (n : Nat) : Hexadecimal (hexDigit n) (n % 16) := by
  have hall : ∀ d : Fin 16, Hexadecimal (Nat.digitChar d) d := by decide +kernel
  exact hall ⟨n % 16, Nat.mod_lt n (by decide)⟩

/-- The ways in which a character is written in a string. -/
inductive Escaped (c : Char) : List UInt8 → Prop where
  | plain : (∀ b ∈ String.utf8EncodeChar c, IsPlain b) → Escaped c (String.utf8EncodeChar c)
  | short {x : UInt8} {d : Char} : x ≠ unitMark → shortEscape? (charOf x) = some d →
      String.utf8EncodeChar c = [d.toUInt8] → Escaped c [backslash, x]
  | code {h₁ h₂ : UInt8} : c.toNat < 0x20 → IsPlain h₁ → IsPlain h₂ →
      hexUnit? '0' '0' (charOf h₁) (charOf h₂) = some c.toNat →
      Escaped c [backslash, unitMark, 0x30, 0x30, h₁, h₂]

theorem isPlain_of_mem_utf8EncodeChar {c : Char} (hq : c ≠ '"') (hb : c ≠ '\\')
    (hc : ¬ c.toNat < 0x20) : ∀ b ∈ String.utf8EncodeChar c, IsPlain b := by
  intro b hmem
  by_cases hascii : c.toNat < 0x80
  · rw [utf8EncodeChar_ascii hascii] at hmem
    obtain rfl := List.mem_singleton.mp hmem
    have hne : ∀ d : Char, c ≠ d → d.toNat < 0x80 →
        UInt8.ofNat c.toNat ≠ UInt8.ofNat d.toNat := by
      intro d hcd hd hbyte
      have hnat := congrArg UInt8.toNat hbyte
      simp only [UInt8.toNat_ofNat'] at hnat
      exact hcd (Char.toNat_inj.mp (by omega))
    refine ⟨hne '"' hq (by decide), hne '\\' hb (by decide), fun hlt => ?_⟩
    have hnat := UInt8.lt_iff_toNat_lt.mp hlt
    rw [UInt8.toNat_ofNat'] at hnat
    change c.toNat % 256 < 32 at hnat
    omega
  · exact isPlain_of_le (Text.le_of_mem_utf8EncodeChar (by omega) b hmem)

theorem escaped_control {c : Char} (hc : c.toNat < 0x20) :
    Escaped c (encode ['\\', 'u', '0', '0', hexDigit (c.toNat / 16), hexDigit c.toNat]) := by
  obtain ⟨hascii₁, hquote₁, hback₁, hcontrol₁, hvalue₁⟩ := hexadecimal (c.toNat / 16)
  obtain ⟨hascii₂, hquote₂, hback₂, hcontrol₂, hvalue₂⟩ := hexadecimal c.toNat
  have hzero : hexValue? '0' = some 0 := rfl
  have hsum : 16 * (c.toNat / 16 % 16) + c.toNat % 16 = c.toNat := by omega
  simp only [Text.encode_cons, Text.encode_nil, utf8EncodeChar_ascii hascii₁,
    utf8EncodeChar_ascii hascii₂]
  refine .code hc ⟨hquote₁, hback₁, hcontrol₁⟩ ⟨hquote₂, hback₂, hcontrol₂⟩ ?_
  simp [hexUnit?, hzero, hvalue₁, hvalue₂, hsum]

theorem escaped_spec (c : Char) : Escaped c (encode (escaped c)) := by
  unfold escaped
  split_ifs with hq hb hback hfeed hn hr ht hc
  · subst hq; exact .short (by decide) rfl rfl
  · subst hb; exact .short (by decide) rfl rfl
  · subst hback; exact .short (by decide) rfl rfl
  · subst hfeed; exact .short (by decide) rfl rfl
  · subst hn; exact .short (by decide) rfl rfl
  · subst hr; exact .short (by decide) rfl rfl
  · subst ht; exact .short (by decide) rfl rfl
  · exact escaped_control hc
  · rw [Text.encode_cons, Text.encode_nil, List.append_nil]
    exact .plain (isPlain_of_mem_utf8EncodeChar hq hb hc)

namespace Escaped

variable {c : Char} {bs : List UInt8}

theorem stringBody (he : Escaped c bs) (s : List UInt8) :
    Token.stringBody (bs ++ s) = (Token.stringBody s).map fun r => (bs ++ r.1, r.2) := by
  cases he with
  | plain h => exact stringBody_plain h s
  | short => rfl
  | @code h₁ h₂ _ hplain₁ hplain₂ _ =>
    have hdigits : ∀ b ∈ [0x30, 0x30, h₁, h₂], IsPlain b := by
      have hzero : IsPlain 0x30 := ⟨by decide, by decide, by decide⟩
      simp [hzero, hplain₁, hplain₂]
    change (Token.stringBody ([0x30, 0x30, h₁, h₂] ++ s)).map _ = _
    rw [stringBody_plain hdigits s]
    cases Token.stringBody s <;> rfl

/-- What is written for a character stands for it, whatever follows. -/
theorem pieces (he : Escaped c bs) : ∃ ps : List (Piece UInt8),
    (∀ s, stringPieces? (bs ++ s) = (stringPieces? s).map (ps ++ ·)) ∧
    ∀ qs, joinUnits? String.utf8EncodeChar (ps ++ qs) =
      (joinUnits? String.utf8EncodeChar qs).map (String.utf8EncodeChar c ++ ·) := by
  cases he with
  | plain h => exact ⟨_, stringPieces?_plain h, joinUnits?_plain _ _⟩
  | @short x d hmark hd hc =>
    refine ⟨[.plain d.toUInt8], fun s => ?_, fun qs => ?_⟩
    · change stringPieces? (backslash :: x :: s) = _
      rw [stringPieces?_short hmark, hd]
      rfl
    · rw [hc]
      rfl
  | @code h₁ h₂ hcontrol _ _ hunit =>
    refine ⟨[.unit c.toNat], fun s => ?_, fun qs => ?_⟩
    · change (hexUnit? '0' '0' (charOf h₁) (charOf h₂)).bind _ = _
      rw [hunit]
      cases hs : stringPieces? s <;> simp [hs]
    · have hlow : isLowSurrogate c.toNat = false := by simp [isLowSurrogate]; omega
      have hhigh : isHighSurrogate c.toNat = false := by simp [isHighSurrogate]; omega
      rw [List.cons_append, List.nil_append, joinUnits?.eq_def]
      simp only [hlow, hhigh, Bool.false_eq_true, if_false, Char.ofNat_toNat]

end Escaped

theorem stringBody_quoted (cs : List Char) (rest : List UInt8) :
    stringBody (encode (cs.flatMap escaped) ++ quote :: rest) =
      some (encode (cs.flatMap escaped), rest) := by
  induction cs with
  | nil => rfl
  | cons c cs ih =>
    rw [List.flatMap_cons, encode_append, List.append_assoc, (escaped_spec c).stringBody, ih]
    rfl

theorem pieces_quoted (cs : List Char) :
    ∃ ps, stringPieces? (encode (cs.flatMap escaped)) = some ps ∧
      joinUnits? String.utf8EncodeChar ps = some (encode cs) := by
  induction cs with
  | nil => exact ⟨[], rfl, rfl⟩
  | cons c cs ih =>
    obtain ⟨ps, hpieces, hjoined⟩ := ih
    obtain ⟨front, hfront, hencoded⟩ := (escaped_spec c).pieces
    refine ⟨front ++ ps, ?_, ?_⟩
    · rw [List.flatMap_cons, encode_append, hfront, hpieces]
      rfl
    · rw [hencoded, hjoined]
      rfl

/-- A string that is written is read back, whatever follows. -/
theorem next?_quoted (s : String) (rest : List UInt8) :
    next? (encode (quoted s) ++ rest) = some (.string (some s), rest) := by
  obtain ⟨ps, hpieces, hjoined⟩ := pieces_quoted s.toList
  have hbytes : encode (quoted s) ++ rest =
      quote :: (encode (s.toList.flatMap escaped) ++ quote :: rest) := by
    simp only [quoted, List.cons_append, Text.encode_cons, encode_append, List.append_assoc]
    rfl
  have hvalue : stringValue? ps = some s := by
    rw [stringValue?, hjoined]
    exact Text.ofUtf8?_utf8 s
  rw [hbytes]
  change (stringBody _).bind _ = _
  rw [stringBody_quoted]
  change (stringPieces? _).bind _ = _
  rw [hpieces]
  change some (Token.string (stringValue? ps), rest) = _
  rw [hvalue]

/-- A text spells tokens: each is the first one of the text that is left. -/
inductive Spelled : List UInt8 → List Token → Prop where
  | nil : Spelled [] []
  | cons {b : UInt8} {bs rest : List UInt8} {t : Token} {ts : List Token} :
      isSpace b = false → next? (b :: bs ++ rest) = some (t, rest) → Spelled rest ts →
      Spelled (b :: bs ++ rest) (t :: ts)

theorem Spelled.scanFrom {s : List UInt8} {ts : List Token} (h : Spelled s ts) :
    ∀ rounds, s.length < rounds →
      (scanFrom rounds s).items.map Lexeme.token = ts ∧ (scanFrom rounds s).rest = [] := by
  induction h with
  | nil =>
    intro rounds hrounds
    cases rounds <;> exact ⟨rfl, rfl⟩
  | @cons b bs rest t ts hspace hnext _ ih =>
    intro rounds hrounds
    cases rounds with
    | zero => omega
    | succ rounds =>
      have hlength : rest.length < rounds := by
        simp only [List.length_append, List.length_cons] at hrounds
        omega
      obtain ⟨htokens, hrest⟩ := ih rounds hlength
      have hdrop : (b :: bs ++ rest).dropWhile isSpace = b :: bs ++ rest := by
        simp [hspace]
      simp only [Token.scanFrom, hdrop, hnext]
      exact ⟨by rw [List.map_cons, htokens], hrest⟩

theorem Spelled.scan {s : List UInt8} {ts : List Token} (h : Spelled s ts) :
    (scan s).items.map Lexeme.token = ts ∧ (scan s).rest = [] :=
  h.scanFrom (s.length + 1) (by omega)

theorem Spelled.quoted {s : String} {rest : List UInt8} {ts : List Token} (h : Spelled rest ts) :
    Spelled (encode (quoted s) ++ rest) (.string (some s) :: ts) :=
  .cons rfl (next?_quoted s rest) h

theorem Spelled.mark {b : UInt8} {rest : List UInt8} {t : Token} {ts : List Token}
    (hspace : isSpace b = false) (hnext : next? (b :: rest) = some (t, rest))
    (h : Spelled rest ts) : Spelled (b :: rest) (t :: ts) :=
  @Spelled.cons b [] rest t ts hspace hnext h

end Token
end Json

end QueryGate
