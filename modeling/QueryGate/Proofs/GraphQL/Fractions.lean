import Mathlib.Data.List.DropRight
import QueryGate.Proofs.GraphQL.Literals

/-! # The texts of fractional numbers

A finite number is written with a point or with a power of ten. Its text is read back as a number
unless the power starts with a nine, which no power in a text may. -/
namespace QueryGate

open GraphQL (Token numberStyle)

namespace GraphQL.Token

/-- Digits of which the first is a zero only if it is the last one too. -/
def IsWholeText (cs : List Char) : Prop :=
  ∃ d ds, cs = d :: ds ∧ (∀ c ∈ d :: ds, c.isDigit = true) ∧ (d = '0' → ds = [])

def IsPowerText (cs : List Char) : Prop :=
  ∃ n, cs = Nat.toDigits 10 n ∨ cs = '-' :: Nat.toDigits 10 n

/-- The ways to write a magnitude, and whether the power of ten is one that may stand in a text. -/
inductive Written : Bool → List Char → Prop where
  | positional {whole fraction} : IsWholeText whole → isFraction fraction = true →
      Written true (whole ++ '.' :: fraction)
  | digit {d power} : d.isDigit = true → IsPowerText power →
      Written (isPower power) (d :: 'e' :: power)
  | scientific {d fraction power} : d.isDigit = true → isFraction fraction = true →
      IsPowerText power → Written (isPower power) (d :: '.' :: fraction ++ 'e' :: power)

def signed (negative : Bool) (cs : List Char) : List Char := if negative then '-' :: cs else cs

theorem signed_append (negative : Bool) (as bs : List Char) :
    signed negative (as ++ bs) = signed negative as ++ bs := by
  cases negative <;> rfl

theorem splitLast_append {kind : Char → Bool} {m : Char} (hm : kind m = true)
    (before : List Char) {after : List Char} (h : ∀ c ∈ after, kind c = false) :
    splitLast kind (before ++ m :: after) = some (before, after) := by
  induction before with
  | nil => simp [splitLast, splitLast_none h, hm]
  | cons c before ih => simp [splitLast, ih]

theorem isWhole_signed {cs : List Char} (h : IsWholeText cs) (negative : Bool) :
    isWhole (signed negative cs) = true := by
  obtain ⟨d, ds, rfl, hdigits, hzero⟩ := h
  by_cases hd : d = '0'
  · cases hzero hd
    subst hd
    cases negative <;> rfl
  · have hminus : d ≠ '-' := by
      rintro rfl
      exact absurd (hdigits '-' List.mem_cons_self) (by decide)
    have hds : isDigits ds = true :=
      List.all_eq_true.mpr fun c hc => hdigits c (List.mem_cons_of_mem d hc)
    have hall : isDigits (d :: ds) = true := List.all_eq_true.mpr hdigits
    cases negative <;> simp [signed, isWhole, hd, hminus, hds, hall]

theorem in_whole_of_signed {cs : List Char} (h : ∀ c ∈ cs, c.isDigit = true) (negative : Bool) :
    ∀ c ∈ signed negative cs, inWhole c = true := by
  intro c hc
  cases negative with
  | false => simp [inWhole, h c hc]
  | true =>
    rcases List.mem_cons.mp hc with rfl | hc
    · rfl
    · simp [inWhole, h c hc]

theorem in_whole_of_power {cs : List Char} (h : IsPowerText cs) : ∀ c ∈ cs, inWhole c = true := by
  obtain ⟨n, rfl | rfl⟩ := h
  · exact in_whole_of_signed (digits_are_digits n) false
  · exact in_whole_of_signed (digits_are_digits n) true

theorem in_whole_of_fraction {cs : List Char} (h : isFraction cs = true) :
    ∀ c ∈ cs, inWhole c = true := by
  have hdigits : ∀ c ∈ cs, c.isDigit = true := by
    simp only [isFraction, isDigits, Bool.and_eq_true, List.all_eq_true] at h
    exact h.2
  exact in_whole_of_signed hdigits false

theorem not_exponent {c : Char} (h : inWhole c = true) : isExponentMark c = false := by
  cases he : isExponentMark c with
  | false => rfl
  | true =>
    simp only [isExponentMark, Bool.or_eq_true, beq_iff_eq] at he
    rcases he with rfl | rfl <;> exact absurd h (by decide)

theorem not_point {c : Char} (h : inWhole c = true) : (c == '.') = false :=
  beq_false_of_ne (plain_of_whole h).2.1

theorem power_of_text {cs : List Char} (h : IsPowerText cs) : ∃ e, power? cs = some e := by
  obtain ⟨n, rfl | rfl⟩ := h
  · have hdigits := digits_are_digits n
    cases hn : Nat.toDigits 10 n with
    | nil => exact absurd hn Nat.toDigits_ne_nil
    | cons d ds =>
      rw [hn] at hdigits
      have hd := hdigits d List.mem_cons_self
      have hminus : d ≠ '-' := by rintro rfl; exact absurd hd (by decide)
      have hplus : d ≠ '+' := by rintro rfl; exact absurd hd (by decide)
      exact ⟨natOfDigits (d :: ds), by simp [power?, hminus, hplus]⟩
  · exact ⟨-(natOfDigits (Nat.toDigits 10 n) : Int), by simp [power?]⟩

theorem float_of_parts {whole : List Char} {fraction power : Option (List Char)}
    (hw : isWhole whole = true) (hf : fraction.all isFraction = true)
    (hp : ∀ p, power = some p → isPower p = true ∧ ∃ e, power? p = some e) :
    ∃ y, float? whole fraction power = some (.float y) := by
  unfold float?
  cases power with
  | none =>
    rw [hw, hf]
    exact ⟨_, rfl⟩
  | some p =>
    obtain ⟨hpower, e, he⟩ := hp p rfl
    rw [hw, hf, Option.all_some, hpower, Option.map_some, he]
    exact ⟨_, rfl⟩

theorem float_of_bad_power {whole power : List Char} {fraction : Option (List Char)}
    (hp : isPower power = false) : float? whole fraction (some power) = none := by
  unfold float?
  rw [Option.all_some, hp, Bool.and_false]
  rfl

theorem float_of_power {whole power : List Char} {fraction : Option (List Char)}
    (hw : isWhole whole = true) (hf : fraction.all isFraction = true) (hp : IsPowerText power) :
    if isPower power then ∃ y, float? whole fraction (some power) = some (.float y)
    else float? whole fraction (some power) = none := by
  split_ifs with hpower
  · exact float_of_parts hw hf fun p he => Option.some.inj he ▸ ⟨hpower, power_of_text hp⟩
  · exact float_of_bad_power (Bool.eq_false_iff.mpr hpower)

theorem IsWholeText.digit {d : Char} (hd : d.isDigit = true) : IsWholeText [d] :=
  ⟨d, [], rfl, by simpa using hd, fun _ => rfl⟩

theorem split_power (negative : Bool) (mantissa : List Char) {power : List Char}
    (h : IsPowerText power) :
    splitLast isExponentMark (signed negative (mantissa ++ 'e' :: power)) =
        some (signed negative mantissa, power) ∧ power.contains '.' = false := by
  have hwhole := in_whole_of_power h
  rw [signed_append]
  refine ⟨splitLast_append rfl _ fun c hc => not_exponent (hwhole c hc), ?_⟩
  simpa using fun hc : '.' ∈ power => absurd (hwhole '.' hc) (by decide)

theorem split_fraction (negative : Bool) (whole : List Char) {fraction : List Char}
    (h : isFraction fraction = true) :
    splitLast (· == '.') (signed negative (whole ++ '.' :: fraction)) =
      some (signed negative whole, fraction) := by
  rw [signed_append]
  exact splitLast_append rfl _ fun c hc => not_point (in_whole_of_fraction h c hc)

/-- A magnitude with a sign or without one is read as a number exactly if it is legible. -/
theorem number_of_written {legible : Bool} {cs : List Char} (h : Written legible cs)
    (negative : Bool) :
    if legible then ∃ y, number? (signed negative cs) = some (.float y)
    else number? (signed negative cs) = none := by
  cases h with
  | @positional whole fraction hw hf =>
    have hexponent :
        splitLast isExponentMark (signed negative (whole ++ '.' :: fraction)) = none := by
      refine splitLast_none fun c hc => ?_
      rw [signed_append, List.mem_append, List.mem_cons] at hc
      obtain ⟨d, ds, rfl, hdigits, -⟩ := hw
      rcases hc with hc | rfl | hc
      · exact not_exponent (in_whole_of_signed hdigits negative c hc)
      · rfl
      · exact not_exponent (in_whole_of_fraction hf c hc)
    simp only [number?, hexponent, split_fraction negative whole hf, if_true]
    refine float_of_parts (isWhole_signed hw negative) hf ?_
    intro power hnone
    cases hnone
  | @digit d power hd hpower =>
    obtain ⟨hsplit, hplain⟩ := split_power negative [d] hpower
    have hnone : splitLast (· == '.') (signed negative [d]) = none := splitLast_none fun c hc =>
      not_point (in_whole_of_signed (by simpa using hd) negative c hc)
    rw [List.singleton_append] at hsplit
    simp only [number?, hsplit, hplain, hnone]
    exact float_of_power (isWhole_signed (.digit hd) negative) rfl hpower
  | @scientific d fraction power hd hf hpower =>
    obtain ⟨hsplit, hplain⟩ := split_power negative (d :: '.' :: fraction) hpower
    have hparts := split_fraction negative [d] hf
    rw [List.singleton_append] at hparts
    simp only [number?, hsplit, hplain, hparts]
    exact float_of_power (isWhole_signed (.digit hd) negative) hf hpower

def inFraction (c : Char) : Bool := inWhole c || c == '.' || c == 'e'

theorem in_fraction_of_written {legible : Bool} {cs : List Char} (h : Written legible cs) :
    ∀ c ∈ cs, inFraction c = true := by
  have hwhole : ∀ {c : Char}, inWhole c = true → inFraction c = true := fun h => by
    simp [inFraction, h]
  have hdigit : ∀ {c : Char}, c.isDigit = true → inFraction c = true := fun h =>
    hwhole (by simp [inWhole, h])
  intro c hc
  cases h with
  | positional hw hf =>
    obtain ⟨d, ds, rfl, hdigits, -⟩ := hw
    rcases List.mem_append.mp hc with hc | hc
    · exact hdigit (hdigits c hc)
    · rcases List.mem_cons.mp hc with rfl | hc
      · rfl
      · exact hwhole (in_whole_of_fraction hf c hc)
  | digit hd hpower =>
    rcases List.mem_cons.mp hc with rfl | hc
    · exact hdigit hd
    · rcases List.mem_cons.mp hc with rfl | hc
      · rfl
      · exact hwhole (in_whole_of_power hpower c hc)
  | scientific hd hf hpower =>
    rcases List.mem_append.mp hc with hc | hc
    · rcases List.mem_cons.mp hc with rfl | hc
      · exact hdigit hd
      · rcases List.mem_cons.mp hc with rfl | hc
        · rfl
        · exact hwhole (in_whole_of_fraction hf c hc)
    · rcases List.mem_cons.mp hc with rfl | hc
      · rfl
      · exact hwhole (in_whole_of_power hpower c hc)

theorem plain_of_fraction {c : Char} (h : inFraction c = true) :
    c ≠ '"' ∧ isMark c = false ∧ endsNumber c = false := by
  simp only [inFraction, Bool.or_eq_true, beq_iff_eq] at h
  rcases h with (h | rfl) | rfl
  · obtain ⟨hquote, -, hmark, hends, -⟩ := plain_of_whole h
    exact ⟨hquote, hmark, hends⟩
  · decide
  · decide

theorem signed_of_written {legible : Bool} {cs : List Char} (h : Written legible cs)
    (negative : Bool) : ∃ d ds, signed negative cs = d :: ds ∧ inWhole d = true ∧
      ∀ c ∈ d :: ds, inFraction c = true := by
  have hall := in_fraction_of_written h
  cases negative with
  | true => exact ⟨'-', cs, rfl, rfl, List.forall_mem_cons.mpr ⟨rfl, hall⟩⟩
  | false =>
    cases h with
    | positional hw _ =>
      obtain ⟨d, ds, rfl, hdigits, -⟩ := hw
      exact ⟨d, _, rfl, by simp [inWhole, hdigits d List.mem_cons_self], hall⟩
    | digit hd _ => exact ⟨_, _, rfl, by simp [inWhole, hd], hall⟩
    | scientific hd _ _ => exact ⟨_, _, rfl, by simp [inWhole, hd], hall⟩

end GraphQL.Token

namespace Decimal

open GraphQL.Token

/-- The interval around a number that is not zero does not reach down to zero. -/
theorem not_contains_zero {m : Nat} (hm : 0 < m) (q : Int) {scale unit : Nat} (hu : 0 < unit) :
    (interval m q).contains scale 0 unit = false := by
  have hlow : 0 < (interval m q).low * unit := by
    refine Nat.mul_pos ?_ hu
    unfold interval
    split_ifs
    all_goals
      simp only
      omega
  have hle : ¬(interval m q).low * unit ≤ 0 * scale := by omega
  have hlt : ¬(interval m q).low * unit < 0 * scale := by omega
  unfold Interval.contains
  split_ifs
  · rw [decide_eq_false hle, Bool.false_and]
  · rw [decide_eq_false hlt, Bool.false_and]

theorem coefficient_of_neighbour {tie : Tie} {m : Nat} {q g : Int} (hm : 0 < m) {d : Decimal}
    (h : neighbour? tie m q g = some d) : d.coefficient ≠ 0 := by
  unfold neighbour? at h
  extract_lets i e scale unit value c at h
  have hu : 0 < unit := Nat.mul_pos (tenTo_pos _) (twoTo_pos _)
  have hc : i.contains scale c unit = true → c ≠ 0 := by
    intro hcontains hzero
    rw [hzero, not_contains_zero hm q hu] at hcontains
    cases hcontains
  split at h
  · cases h
  · rename_i hcontains _
    cases h
    exact hc hcontains
  · cases h
    exact Nat.succ_ne_zero c
  · rename_i hcontains _
    split_ifs at h
    · cases h
      exact hc hcontains
    · cases h
      exact Nat.succ_ne_zero c
    · cases tie with
      | even =>
        cases h
        exact fun he => hc hcontains (Nat.add_eq_zero_iff.mp he).1
      | up =>
        cases h
        exact Nat.succ_ne_zero c

theorem shortest_cases {m : Nat} (hm : 0 < m) (q : Int) :
    (shortest .up m q).coefficient ≠ 0 ∨ shortest .up m q = ⟨0, 0⟩ := by
  simp only [shortest]
  cases hf : (List.range 17).findSome? fun (n : Nat) =>
      neighbour? .up m q (leadingPower m q - n) with
  | none => exact .inr rfl
  | some d =>
    obtain ⟨n, -, hn⟩ := List.exists_of_findSome?_eq_some hf
    exact .inl (coefficient_of_neighbour hm hn)

/-- The significant digits start with the first digit of the coefficient, which is not zero. -/
theorem significant_digits {d : Decimal} (h : d.coefficient ≠ 0) :
    ∃ c cs, d.significant.1 = c :: cs ∧ c ≠ '0' ∧ ∀ x ∈ c :: cs, x.isDigit = true := by
  obtain ⟨c, cs, hdigits, hc⟩ := head_of_digits (Nat.pos_of_ne_zero h)
  have hall := digits_are_digits d.coefficient
  have hsignificant : d.significant.1 = (Nat.toDigits 10 d.coefficient).rdropWhile (· == '0') := rfl
  obtain ⟨zeros, hprefix⟩ := List.rdropWhile_prefix (· == '0') (l := Nat.toDigits 10 d.coefficient)
  rw [hsignificant]
  cases hs : (Nat.toDigits 10 d.coefficient).rdropWhile (· == '0') with
  | nil =>
    have hzero := List.rdropWhile_eq_nil_iff.mp hs c (by simp [hdigits])
    exact absurd (by simpa using hzero) hc
  | cons x xs =>
    rw [hs, hdigits] at hprefix
    obtain ⟨rfl, htail⟩ := List.cons.inj hprefix
    refine ⟨x, xs, rfl, hc, fun y hy => hall y ?_⟩
    rw [hdigits, ← htail]
    exact List.mem_append_left zeros hy

theorem zeros_are_digits (n : Int) : ∀ c ∈ zeros n, c.isDigit = true := by
  intro c hc
  rw [(List.mem_replicate.mp hc).2]
  rfl

theorem isFraction_of_digits {cs : List Char} (hne : cs ≠ []) (h : ∀ x ∈ cs, x.isDigit = true) :
    isFraction cs = true := by
  have hempty : cs.isEmpty = false := by simpa using hne
  have hall : isDigits cs = true := List.all_eq_true.mpr h
  simp [isFraction, hempty, hall]

theorem written_positional {c : Char} {cs : List Char} (hc : c ≠ '0')
    (hdigits : ∀ x ∈ c :: cs, x.isDigit = true) (lead : Int) :
    Written true (positionalText (c :: cs) lead true) := by
  by_cases hlead : lead < 0
  · have hfraction : ∀ x ∈ zeros (-lead - 1) ++ c :: cs, x.isDigit = true := by
      intro x hx
      rcases List.mem_append.mp hx with hx | hx
      · exact zeros_are_digits _ x hx
      · exact hdigits x hx
    rw [positionalText, if_pos hlead]
    exact .positional (.digit rfl) (isFraction_of_digits (by simp) hfraction)
  · have hwhole : IsWholeText ((c :: cs).take (lead.toNat + 1) ++
        zeros (lead + 1 - (c :: cs).length)) := by
      refine ⟨c, cs.take lead.toNat ++ zeros (lead + 1 - (c :: cs).length), by simp, ?_,
        fun he => absurd he hc⟩
      intro x hx
      rcases List.mem_cons.mp hx with rfl | hx
      · exact hdigits x List.mem_cons_self
      · rcases List.mem_append.mp hx with hx | hx
        · exact hdigits x (List.mem_cons_of_mem c (List.mem_of_mem_take hx))
        · exact zeros_are_digits _ x hx
    rw [positionalText, if_neg hlead]
    simp only [↓reduceIte]
    split_ifs with hempty
    · exact .positional hwhole rfl
    · exact .positional hwhole (isFraction_of_digits (fun he => hempty (List.isEmpty_iff.mpr he))
        fun x hx => hdigits x (List.mem_of_mem_drop hx))

theorem startsPower_of_digit {c : Char} (hc : c.isDigit = true) (hne : c ≠ '0') :
    (c == '-' || c == '+' || (decide ('1' ≤ c) && decide (c ≤ '8'))) = (some c != some '9') := by
  have hcheck : ∀ n < 58, 48 < n → (Char.ofNat n == '-' || Char.ofNat n == '+' ||
      (decide ('1' ≤ Char.ofNat n) && decide (Char.ofNat n ≤ '8'))) =
        (some (Char.ofNat n) != some '9') := by decide
  have hrange : 48 ≤ c.toNat ∧ c.toNat ≤ 57 := Char.isDigit_iff_toNat.mp hc
  have hzero : c.toNat ≠ 48 := fun he => hne (Char.toNat_inj.mp he)
  have hnumber := hcheck c.toNat (by omega) (by omega)
  rwa [Char.ofNat_toNat] at hnumber

/-- A power with a sign is always read; of the others, those that start with a nine are not. -/
theorem isPower_text (lead : Int) (hlead : lead ≠ 0) :
    isPower ((if lead < 0 then ['-'] else []) ++ Nat.toDigits 10 lead.natAbs) =
      (decide (lead < 0) || (Nat.toDigits 10 lead.natAbs).head? != some '9') := by
  have hall := digits_are_digits lead.natAbs
  obtain ⟨c, cs, hdigits, hc⟩ := head_of_digits (Int.natAbs_pos.mpr hlead)
  rw [hdigits] at hall ⊢
  split_ifs with hneg
  · have hdigits : isDigits (c :: cs) = true := List.all_eq_true.mpr hall
    simp [isPower, hdigits, hneg]
  · have hcs : isDigits cs = true :=
      List.all_eq_true.mpr fun x hx => hall x (List.mem_cons_of_mem c hx)
    rw [List.nil_append, isPower, startsPower_of_digit (hall c List.mem_cons_self) hc, hcs]
    simp [hneg]

theorem written_scientific {c : Char} {cs : List Char}
    (hdigits : ∀ x ∈ c :: cs, x.isDigit = true) {lead : Int} (hlead : lead ≠ 0) :
    Written (decide (lead < 0) || (Nat.toDigits 10 lead.natAbs).head? != some '9')
      (scientificText (c :: cs) lead false) := by
  have hc := hdigits c List.mem_cons_self
  have hpower : IsPowerText ((if lead < 0 then ['-'] else []) ++ Nat.toDigits 10 lead.natAbs) := by
    refine ⟨lead.natAbs, ?_⟩
    split_ifs
    · exact .inr rfl
    · exact .inl rfl
  rw [← isPower_text lead hlead]
  cases cs with
  | nil =>
    have htext := Written.digit hc hpower
    simpa [scientificText] using htext
  | cons d ds =>
    have hf := isFraction_of_digits (List.cons_ne_nil d ds) fun x hx =>
      hdigits x (List.mem_cons_of_mem c hx)
    have htext := Written.scientific hc hf hpower
    simpa [scientificText] using htext

theorem written_zero : Written true ['0', '.', '0'] :=
  @Written.positional ['0'] ['0'] (.digit rfl) rfl

theorem written_text {d : Decimal} (h : d.coefficient ≠ 0 ∨ d = ⟨0, 0⟩) :
    Written (decide (d.significant.2 < 16) ||
      (Nat.toDigits 10 d.significant.2.natAbs).head? != some '9') (d.text numberStyle) := by
  rcases h with h | rfl
  · obtain ⟨c, cs, hdigits, hc, hall⟩ := significant_digits h
    have hsplit : d.significant = (c :: cs, d.significant.2) := Prod.ext hdigits rfl
    generalize d.significant.2 = lead at hsplit ⊢
    rw [text, hsplit]
    dsimp only
    by_cases hlead : -4 ≤ lead ∧ lead < 16
    · have hpositional : numberStyle.positional lead = true := by simp [numberStyle, hlead]
      rw [if_pos hpositional, decide_eq_true hlead.2, Bool.true_or]
      exact written_positional hc hall lead
    · have hscientific : ¬numberStyle.positional lead = true := by simpa [numberStyle] using hlead
      have hsame : decide (lead < 16) = decide (lead < 0) := decide_eq_decide.mpr (by omega)
      rw [if_neg hscientific, hsame]
      exact written_scientific hall (by omega)
  · exact written_zero

end Decimal

namespace Binary64

open GraphQL.Token Decimal

theorem text_of_finite (negative : Bool) (m : Nat) (q : Int) :
    ∃ cs, ((Binary64.finite negative m q).text numberStyle).toList = signed negative cs ∧
      Written (Binary64.finite negative m q).isLegible cs := by
  refine ⟨_, String.toList_ofList, ?_⟩
  by_cases hm : m = 0
  · subst hm
    exact written_zero
  · simp only [isLegible, if_neg hm, beq_false_of_ne hm, Bool.false_or]
    exact written_text (shortest_cases (Nat.pos_of_ne_zero hm) q)

end Binary64

namespace GraphQL.Token

theorem not_ignored {c : Char} (h : inWhole c = true) : c ∉ ignored := by
  intro hc
  have hall : ignored.all (!inWhole ·) = true := rfl
  have hnot := List.all_eq_true.mp hall c hc
  rw [h] at hnot
  cases hnot

/-- Of the numbers, the legible ones are read as numbers and the greater infinity as a name. -/
theorem Spells.float (x : Binary64) : Spells (x.text numberStyle).toList [.float x] := by
  cases x with
  | infinite negative =>
    cases negative with
    | false =>
      have hname : Spells "inf".toList [.name "inf"] := .name ⟨'i', _, rfl, rfl, rfl⟩
      exact hname
    | true =>
      have htext : ((Binary64.infinite true).text numberStyle).toList = ['-', 'i', 'n', 'f'] := rfl
      rw [htext]
      have hall : ['i', 'n', 'f'].all (!endsNumber ·) = true := rfl
      refine unreadable rfl (not_ignored rfl) fun rest hr => ?_
      rw [next_of_number rfl (fun d hd => by simpa using List.all_eq_true.mp hall d hd) hr]
      rfl
  | finite negative m q =>
    obtain ⟨cs, htext, hwritten⟩ := Binary64.text_of_finite negative m q
    have hnumber := number_of_written hwritten negative
    obtain ⟨d, ds, hcs, hhead, hplain⟩ := signed_of_written hwritten negative
    have hnext : ∀ rest, separated rest = true →
        next? (d :: ds ++ rest) = (number? (d :: ds)).map fun t => (t, d :: ds, rest) :=
      fun rest hr => next_of_number hhead
        (fun c hc => (plain_of_fraction (hplain c (List.mem_cons_of_mem d hc))).2.2) hr
    rw [hcs] at htext hnumber
    rw [htext]
    cases hlegible : (Binary64.finite negative m q).isLegible with
    | true =>
      rw [hlegible, if_pos rfl] at hnumber
      obtain ⟨y, hy⟩ := hnumber
      have hreread : (Binary64.finite negative m q).reread = y := by
        simp only [Binary64.reread, htext, hy]
      refine single (u := .float y) (by simp [isReadable, hlegible]) ?_ (fun left => rfl) (by simp)
        (fun rest hr => ?_) (brackets_fit_plain fun c hc => ?_)
      · exact congrArg Token.float hreread
      · rw [hnext rest hr, hy]
        rfl
      · obtain ⟨hquote, hmark, -⟩ := plain_of_fraction (hplain c hc)
        exact ⟨hquote, hmark⟩
    | false =>
      rw [hlegible, if_neg (by simp)] at hnumber
      refine unreadable ?_ (not_ignored hhead) fun rest hr => ?_
      · simp [isReadable, hlegible]
      · rw [hnext rest hr, hnumber]
        rfl

end GraphQL.Token

end QueryGate
