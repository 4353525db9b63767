import Mathlib.Tactic.SplitIfs
import QueryGate.GraphQL.Token

/-! # Texts that are read token by token

Characters spell tokens if reading them in front of any further text takes off these tokens, as long
as that text does not go on with the last of them. Reading gets stuck instead exactly if more
brackets are open than may be or one of the tokens is a number that cannot be read from its text.
Spellings are put together piece by piece. -/
namespace QueryGate

open GraphQL (numberStyle)

namespace Binary64

/-- The number is finite, and where it is written with a power of ten of sixteen or more, this power
does not start with a nine. -/
def isLegible : Binary64 → Bool
  | .infinite _ => false
  | .finite _ m q =>
    let lead := (Decimal.shortest .up m q).significant.2
    m == 0 || lead < 16 || (Nat.toDigits 10 lead.natAbs).head? != some '9'

def reread (x : Binary64) : Binary64 :=
  match GraphQL.Token.number? (x.text numberStyle).toList with
  | some (.float y) => y
  | _ => x

end Binary64

namespace GraphQL.Token

/-- Some token is read from the text of this one. The text of the greater infinity is a name. -/
def isReadable : Token → Bool
  | .float x => x.isLegible || x == .infinite false
  | _ => true

def reread : Token → Token
  | .float (.infinite false) => .name "inf"
  | .float x => .float x.reread
  | t => t

/-- At most `left` more brackets are open at once in a text. Brackets in quoted strings do not
count. -/
def bracketsFit : (left : Nat) → (quoted : Bool) → List Char → Bool
  | _, _, [] => true
  | left, true, '\\' :: _ :: rest => bracketsFit left true rest
  | left, true, c :: rest => bracketsFit left (c != '"') rest
  | left, false, c :: rest =>
    if opens c then 0 < left && bracketsFit (left - 1) false rest
    else if closes c then bracketsFit (left + 1) false rest
    else bracketsFit left (c == '"') rest

/-- Reading takes tokens off the front of a text, with `left` more brackets that may be opened, and
goes on at the rest. -/
inductive Lexes : Nat → List Char → List Token → Nat → List Char → Prop where
  | stop (left s) : Lexes left s [] left s
  | separator {left c s ts left' s'} : c = ' ' ∨ c = ',' → Lexes left s ts left' s' →
      Lexes left (c :: s) ts left' s'
  | token {left a rest t left' ts left'' s'} : a ≠ [] →
      next? (a ++ rest) = some (t, a, rest) → bracketsLeft? left t = some left' →
      Lexes left' rest ts left'' s' → Lexes left (a ++ rest) (t :: ts) left'' s'

theorem Lexes.append {left left' left'' : Nat} {s s' s'' : List Char} {ts us : List Token}
    (h : Lexes left s ts left' s') (k : Lexes left' s' us left'' s'') :
    Lexes left s (ts ++ us) left'' s'' := by
  induction h with
  | stop => exact k
  | separator hc _ ih => exact .separator hc (ih k)
  | token hne hn hb _ ih => exact .token hne hn hb (ih k)

def ignored : List Char := [' ', ',', '\t', '\n', '\r', '\ufeff', '#']

theorem next_of_ignored {c : Char} (hc : c ∈ ignored) (s : List Char) : next? (c :: s) = none := by
  simp only [ignored, List.mem_cons, List.not_mem_nil, or_false] at hc
  rcases hc with rfl | rfl | rfl | rfl | rfl | rfl | rfl <;> rfl

theorem skip_of_not_ignored {c : Char} (hc : c ∉ ignored) (p : Position) (s : List Char) :
    skip false p (c :: s) = (p, c :: s) := by
  simp only [ignored, List.mem_cons, List.not_mem_nil, or_false, not_or] at hc
  obtain ⟨h1, h2, h3, h4, h5, h6, h7⟩ := hc
  simp [skip, h1, h2, h3, h4, h5, h6, h7]

theorem skip_of_next {s : List Char} {t : Token} {cs rest : List Char}
    (h : next? s = some (t, cs, rest)) (p : Position) : skip false p s = (p, s) := by
  cases s with
  | nil => rfl
  | cons c s =>
    refine skip_of_not_ignored (fun hc => ?_) p s
    rw [next_of_ignored hc] at h
    cases h

theorem skip_separator {c : Char} (hc : c = ' ' ∨ c = ',') (p : Position) (s : List Char) :
    ∃ p', skip false p (c :: s) = skip false p' s := by
  rcases hc with rfl | rfl <;> exact ⟨⟨p.line, p.column + 1⟩, by simp [skip]⟩

theorem scanFrom_of_lexes {left left' : Nat} {s s' : List Char} {ts : List Token}
    (h : Lexes left s ts left' s') (hs : s' = []) : ∀ rounds p, s.length < rounds →
    (scanFrom rounds left p s).items.map (·.token) = ts ∧
      (scanFrom rounds left p s).complete = true := by
  -- A separator takes a character but no round.
  induction h with
  | stop left s =>
    subst hs
    intro rounds p hr
    obtain ⟨rounds, rfl⟩ := Nat.exists_eq_add_of_lt hr
    simp [scanFrom, skip, next?]
  | @separator left c s ts left' s' hc _ ih =>
    intro rounds p hr
    obtain ⟨rounds, rfl⟩ : ∃ r, rounds = r + 1 := ⟨rounds - 1, by omega⟩
    obtain ⟨p', hp⟩ := skip_separator hc p s
    have heq : scanFrom (rounds + 1) left p (c :: s) = scanFrom (rounds + 1) left p' s := by
      simp only [scanFrom, hp]
    rw [heq]
    exact ih hs (rounds + 1) p' (by simp at hr; omega)
  | @token left cs rest t left' ts left'' s' hne hn hb _ ih =>
    intro rounds p hr
    obtain ⟨rounds, rfl⟩ : ∃ r, rounds = r + 1 := ⟨rounds - 1, by omega⟩
    have hlen : 0 < cs.length := List.length_pos_iff.mpr hne
    have ih := ih hs rounds (p.after cs) (by simp at hr; omega)
    simp only [scanFrom, skip_of_next hn, hn, hb]
    exact ⟨by simp [ih.1], ih.2⟩

def Stuck (left : Nat) (s : List Char) : Prop :=
  ∀ rounds p, (scanFrom rounds left p s).complete = false

theorem stuck_of_next {left : Nat} {c : Char} {s : List Char} (hc : c ∉ ignored)
    (hn : next? (c :: s) = none) : Stuck left (c :: s) := by
  intro rounds p
  cases rounds with
  | zero => rfl
  | succ rounds => simp [scanFrom, skip_of_not_ignored hc, hn]

theorem stuck_of_brackets {left : Nat} {s cs rest : List Char} {t : Token} (hne : s ≠ [])
    (hn : next? s = some (t, cs, rest)) (hb : bracketsLeft? left t = none) : Stuck left s := by
  intro rounds p
  have hempty : s.isEmpty = false := by simpa using hne
  cases rounds with
  | zero => exact hempty
  | succ rounds => simp [scanFrom, skip_of_next hn, hn, hb]

theorem Lexes.stuck {left left' : Nat} {s s' : List Char} {ts : List Token}
    (h : Lexes left s ts left' s') (hs : Stuck left' s') : Stuck left s := by
  induction h with
  | stop => exact hs
  | @separator left c s ts left' s' hc _ ih =>
    intro rounds p
    cases rounds with
    | zero => rfl
    | succ rounds =>
      obtain ⟨p', hp⟩ := skip_separator hc p s
      have hnext := ih hs (rounds + 1) p'
      simp only [scanFrom, hp] at hnext ⊢
      exact hnext
  | @token left a rest t left' ts left'' s' hne hn hb _ ih =>
    intro rounds p
    cases rounds with
    | zero => simpa [scanFrom] using fun ha => absurd ha hne
    | succ rounds =>
      simp only [scanFrom, skip_of_next hn, hn, hb]
      exact ih hs rounds _

def separated : List Char → Bool
  | [] => true
  | c :: _ => endsNumber c

theorem separated_append {a b : List Char} (ha : separated a = true) (hb : separated b = true) :
    separated (a ++ b) = true := by
  cases a with
  | nil => exact hb
  | cons c a => exact ha

/-- In front of a text, characters are taken off as the tokens that are read from some tokens, or
reading gets stuck. -/
def Takes (left : Nat) (cs : List Char) (ts : List Token) (rest : List Char) : Prop :=
  (ts.all isReadable = true ∧ ∃ left', Lexes left (cs ++ rest) (ts.map reread) left' rest ∧
    bracketsFit left false (cs ++ rest) = bracketsFit left' false rest) ∨
  ((ts.all isReadable && bracketsFit left false (cs ++ rest)) = false ∧ Stuck left (cs ++ rest))

theorem Takes.append {left : Nat} {a b rest : List Char} {ts us : List Token}
    (ha : Takes left a ts (b ++ rest)) (hb : ∀ left, Takes left b us rest) :
    Takes left (a ++ b) (ts ++ us) rest := by
  unfold Takes
  rw [List.append_assoc, List.all_append, List.map_append]
  rcases ha with ⟨hts, left', hl, hfit⟩ | ⟨hts, hstuck⟩
  · rw [hts, hfit, Bool.true_and]
    rcases hb left' with ⟨hus, left'', hl', hfit'⟩ | ⟨hus, hstuck⟩
    · exact .inl ⟨hus, left'', hl.append hl', hfit'⟩
    · exact .inr ⟨hus, hl.stuck hstuck⟩
  · refine .inr ⟨?_, hstuck⟩
    rw [Bool.and_right_comm, hts, Bool.false_and]

/-- Characters spell tokens in front of any text that is separated from them. -/
def Spells (cs : List Char) (ts : List Token) : Prop :=
  ∀ rest left, separated rest = true → Takes left cs ts rest

theorem takes_mark {c : Char} (hc : isMark c = true) (left : Nat) (rest : List Char) :
    Takes left [c] [.mark c] rest := by
  have hdot : c ≠ '.' := by rintro rfl; cases hc
  have hquote : c ≠ '"' := by rintro rfl; cases hc
  have hn : next? ([c] ++ rest) = some (.mark c, [c], rest) := by
    simp only [List.singleton_append]
    unfold next?
    split <;> simp_all
  have hleft : bracketsLeft? left (.mark c) = if opens c then if left = 0 then none
      else some (left - 1) else if closes c then some (left + 1) else some left := rfl
  have hfit : bracketsFit left false ([c] ++ rest) =
      if opens c then decide (0 < left) && bracketsFit (left - 1) false rest
      else if closes c then bracketsFit (left + 1) false rest
      else bracketsFit left false rest := by
    rw [List.singleton_append, bracketsFit, beq_false_of_ne hquote]
  have htaken : ∀ left', bracketsLeft? left (.mark c) = some left' →
      bracketsFit left false ([c] ++ rest) = bracketsFit left' false rest →
      Takes left [c] [.mark c] rest := fun left' hleft hfit =>
    .inl ⟨rfl, left', .token (by simp) hn hleft (.stop _ _), hfit⟩
  split_ifs at hleft hfit with ho hz hcl
  · exact .inr ⟨by rw [hfit]; simp [hz], stuck_of_brackets (by simp) hn hleft⟩
  · exact htaken _ hleft (by rw [hfit]; simp [Nat.pos_of_ne_zero hz])
  · exact htaken _ hleft hfit
  · exact htaken _ hleft hfit

namespace Spells

variable {a b : List Char} {ts us : List Token}

theorem nil : Spells [] [] := fun rest left _ => .inl ⟨rfl, left, .stop left rest, rfl⟩

theorem append (ha : Spells a ts) (hs : separated b = true) (hb : Spells b us) :
    Spells (a ++ b) (ts ++ us) := fun rest left hr =>
  (ha (b ++ rest) left (separated_append hs hr)).append fun left => hb rest left hr

theorem separator {c : Char} (hc : c = ' ' ∨ c = ',') (hb : Spells b us) : Spells (c :: b) us := by
  intro rest left hr
  have hskipped : Takes left [c] [] (b ++ rest) := by
    refine .inl ⟨rfl, left, .separator hc (.stop _ _), ?_⟩
    rcases hc with rfl | rfl <;> rfl
  exact hskipped.append fun left => hb rest left hr

theorem single {t u : Token} (ht : isReadable t = true) (hu : reread t = u)
    (hleft : ∀ left, bracketsLeft? left u = some left) (hne : a ≠ [])
    (hn : ∀ rest, separated rest = true → next? (a ++ rest) = some (u, a, rest))
    (hfit : ∀ rest left, bracketsFit left false (a ++ rest) = bracketsFit left false rest) :
    Spells a [t] := by
  intro rest left hr
  subst hu
  exact .inl ⟨by simp [ht], left, .token hne (hn rest hr) (hleft left) (.stop left rest),
    hfit rest left⟩

theorem unreadable {t : Token} (ht : isReadable t = false) {c : Char} (hc : c ∉ ignored)
    (hn : ∀ rest, separated rest = true → next? (c :: a ++ rest) = none) : Spells (c :: a) [t] :=
  fun rest left hr => .inr ⟨by simp [ht], stuck_of_next hc (hn rest hr)⟩

theorem spread (hb : Spells b us) : Spells ('.' :: '.' :: '.' :: b) (.spread :: us) := by
  intro rest left hr
  have hdots : Takes left ['.', '.', '.'] [.spread] (b ++ rest) :=
    .inl ⟨rfl, left, .token (by simp) rfl rfl (.stop _ _), rfl⟩
  exact hdots.append fun left => hb rest left hr

theorem mark {c : Char} (hc : isMark c = true) (hb : Spells b us) :
    Spells (c :: b) (.mark c :: us) := fun rest left hr =>
  (takes_mark hc left (b ++ rest)).append fun left => hb rest left hr

end Spells

/-- A text that spells tokens is scanned to its end exactly if all of them can be read and its
brackets are not too deep. -/
theorem scan_of_spells {cs : List Char} {ts : List Token} (h : Spells cs ts) :
    (scan (String.ofList cs)).complete =
        (ts.all isReadable && bracketsFit maxOpenBrackets false cs) ∧
      ((scan (String.ofList cs)).complete = true →
        (scan (String.ofList cs)).items.map (·.token) = ts.map reread) := by
  have hscan := h [] maxOpenBrackets rfl
  rw [Takes, List.append_nil] at hscan
  rw [scan, String.toList_ofList]
  rcases hscan with ⟨hts, left', hl, hfit⟩ | ⟨hts, hstuck⟩
  · obtain ⟨htokens, hcomplete⟩ :=
      scanFrom_of_lexes hl rfl (cs.length + 1) .start (Nat.lt_succ_self _)
    rw [hcomplete, hts, hfit]
    exact ⟨rfl, fun _ => htokens⟩
  · rw [hstuck, hts]
    exact ⟨rfl, nofun⟩

end GraphQL.Token

end QueryGate
