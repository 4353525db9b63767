/-!
# Texts

Bytes in UTF-8, white space, and separators. Where bytes are read, a text stands for its encoding.
Blanks are the characters with the Unicode property `White_Space`. A text with `n` separators has
`n + 1` pieces, empty ones included, and joining the pieces with the separator gives the text back.
-/
namespace QueryGate.Text

def encode (cs : List Char) : List UInt8 := cs.flatMap String.utf8EncodeChar

def utf8 (s : String) : List UInt8 := encode s.toList

def ofUtf8? (bytes : List UInt8) : Option String := String.fromUTF8? bytes.toByteArray

def charOf (b : UInt8) : Char := Char.ofNat b.toNat

instance coeUtf8 : Coe String (List UInt8) := ⟨utf8⟩

@[simp] theorem encode_nil : encode [] = [] := rfl

@[simp] theorem encode_cons (c : Char) (cs : List Char) :
    encode (c :: cs) = String.utf8EncodeChar c ++ encode cs := rfl

theorem encode_append (cs ds : List Char) : encode (cs ++ ds) = encode cs ++ encode ds :=
  List.flatMap_append

theorem utf8EncodeChar_ascii {c : Char} (h : c.toNat < 0x80) :
    String.utf8EncodeChar c = [UInt8.ofNat c.toNat] := by
  have hone : c.val.toNat ≤ 127 := by
    change c.toNat ≤ 127
    omega
  simp only [String.utf8EncodeChar, if_pos hone]
  rfl

theorem le_of_mem_utf8EncodeChar {c : Char} (h : 0x80 ≤ c.toNat) :
    ∀ b ∈ String.utf8EncodeChar c, 0x80 ≤ b := by
  have hbyte : ∀ n : Nat, 0x80 ≤ n → n < 0x100 → 0x80 ≤ UInt8.ofNat n := by
    intro n hlow hhigh
    rw [UInt8.le_iff_toNat_le, UInt8.toNat_ofNat']
    change 128 ≤ n % 256
    omega
  intro b hb
  change 0x80 ≤ c.val.toNat at h
  simp only [String.utf8EncodeChar] at hb
  generalize c.val.toNat = v at *
  have hmore : ¬ v ≤ 127 := by omega
  rw [if_neg hmore] at hb
  split at hb
  · simp only [List.mem_cons, List.not_mem_nil, or_false] at hb
    rcases hb with rfl | rfl
    all_goals exact hbyte _ (by omega) (by omega)
  · split at hb
    all_goals simp only [List.mem_cons, List.not_mem_nil, or_false] at hb
    · rcases hb with rfl | rfl | rfl
      all_goals exact hbyte _ (by omega) (by omega)
    · rcases hb with rfl | rfl | rfl | rfl
      all_goals exact hbyte _ (by omega) (by omega)

theorem ofUtf8?_utf8 (s : String) : ofUtf8? (utf8 s) = some s := by
  have hbytes : (utf8 s).toByteArray = s.toByteArray := String.utf8Encode_toList
  rw [ofUtf8?, hbytes, String.fromUTF8?, dif_pos s.isValidUTF8]
  rfl

def isBlank (c : Char) : Bool :=
  let n := c.toNat
  (0x09 ≤ n && n ≤ 0x0D) || n == 0x20 || n == 0x85 || n == 0xA0 || n == 0x1680 ||
  (0x2000 ≤ n && n ≤ 0x200A) || n == 0x2028 || n == 0x2029 || n == 0x202F || n == 0x205F ||
  n == 0x3000

def trimChars (s : List Char) : List Char :=
  ((s.dropWhile isBlank).reverse.dropWhile isBlank).reverse

def trim (s : String) : String := String.ofList (trimChars s.toList)

def isAllBlank (s : String) : Bool := s.toList.all isBlank

def pieces (separator : Char) : List Char → List (List Char)
  | [] => [[]]
  | c :: rest =>
    if c = separator then [] :: pieces separator rest
    else
      match pieces separator rest with
      | [] => [[c]]
      | piece :: more => (c :: piece) :: more

def joinPieces (separator : Char) : List (List Char) → List Char
  | [] => []
  | [piece] => piece
  | piece :: more => piece ++ separator :: joinPieces separator more

def split (separator : Char) (s : String) : List String :=
  (pieces separator s.toList).map String.ofList

theorem pieces_ne_nil (separator : Char) (s : List Char) : pieces separator s ≠ [] := by
  cases s with
  | nil => simp [pieces]
  | cons c rest =>
    simp only [pieces]
    split
    · simp
    · split <;> simp

theorem joinPieces_cons_cons (separator c : Char) (piece : List Char) (more : List (List Char)) :
    joinPieces separator ((c :: piece) :: more) = c :: joinPieces separator (piece :: more) := by
  cases more <;> rfl

theorem joinPieces_pieces (separator : Char) (s : List Char) :
    joinPieces separator (pieces separator s) = s := by
  induction s with
  | nil => rfl
  | cons c rest ih =>
    have hne := pieces_ne_nil separator rest
    by_cases hc : c = separator
    · subst hc
      simp only [pieces, if_pos]
      cases hp : pieces c rest with
      | nil => exact absurd hp hne
      | cons piece more => rw [hp] at ih; simp [joinPieces, ih]
    · simp only [pieces, if_neg hc]
      cases hp : pieces separator rest with
      | nil => exact absurd hp hne
      | cons piece more =>
        rw [hp] at ih
        simp [joinPieces_cons_cons, ih]

theorem pieces_append (separator : Char) (a b : List Char) :
    pieces separator (a ++ separator :: b) = pieces separator a ++ pieces separator b := by
  induction a with
  | nil => simp [pieces]
  | cons c a ih =>
    simp only [List.cons_append, pieces]
    split
    · rw [ih, List.cons_append]
    · rw [ih]
      cases hp : pieces separator a with
      | nil => exact absurd hp (pieces_ne_nil separator a)
      | cons piece more => rfl

theorem pieces_of_not_mem {separator : Char} {a : List Char} (h : separator ∉ a) :
    pieces separator a = [a] := by
  induction a with
  | nil => rfl
  | cons c a ih =>
    have hc : c ≠ separator := fun he => h (he ▸ List.mem_cons_self)
    rw [pieces, if_neg hc, ih fun hmem => h (List.mem_cons_of_mem c hmem)]

end QueryGate.Text
