import QueryGate.Params
import QueryGate.Proofs.Json.Strings

/-! # Bodies that are read back

The parameters of a request are read from the text that is written for them, for any query and any
operation name. Each part of the reader takes some tokens off the front, whatever follows, and the
parts are put together in the order in which the members stand. -/
namespace QueryGate

open Text (encode encode_append)

namespace Params

open Json (Lexeme Token)
open Json.Token (Spelled)

def textToken : Option String → Token
  | none => .null
  | some s => .string (some s)

def textJson (x : Option String) : Json := (x.map .string).getD .null

theorem spelled_text {x : Option String} {rest : List UInt8} {ts : List Token}
    (h : Spelled rest ts) : Spelled (encode (textJson x).chars ++ rest) (textToken x :: ts) := by
  cases x with
  | none => exact .cons rfl rfl h
  | some s => exact h.quoted

def memberTokens (query name : Option String) : List Token :=
  [.string (some "query"), .colon, textToken query, .comma, .string (some "operationName"), .colon,
    textToken name, .comma, .string (some "variables"), .colon, .null, .endObject]

theorem spelled_toJson (query name : Option String) :
    Spelled (Text.utf8 (toJson ⟨query, name, none⟩).text)
      (.beginObject :: memberTokens query name) := by
  have hbytes : Text.utf8 (toJson ⟨query, name, none⟩).text =
      0x7B :: (encode (Json.quoted "query") ++ 0x3A :: (encode (textJson query).chars ++
        0x2C :: (encode (Json.quoted "operationName") ++ 0x3A :: (encode (textJson name).chars ++
          0x2C :: (encode (Json.quoted "variables") ++ 0x3A :: (encode (textJson none).chars ++
            [0x7D])))))) := by
    have hopen : String.utf8EncodeChar '\x7b' = [0x7B] := rfl
    have hcolon : String.utf8EncodeChar ':' = [0x3A] := rfl
    have hcomma : String.utf8EncodeChar ',' = [0x2C] := rfl
    have hclose : String.utf8EncodeChar '\x7d' = [0x7D] := rfl
    simp only [Text.utf8, Json.text, String.toList_ofList, toJson, Json.chars, Json.memberChars,
      encode_append, Text.encode_cons, Text.encode_nil, hopen, hcolon, hcomma, hclose,
      List.append_assoc, List.cons_append, List.nil_append]
    rfl
  rw [hbytes]
  have hend : Spelled [0x7D] [.endObject] := .mark rfl rfl .nil
  exact .mark rfl rfl (.quoted (.mark rfl rfl (spelled_text (.mark rfl rfl (.quoted (.mark rfl rfl
    (spelled_text (.mark rfl rfl (.quoted (.mark rfl rfl (spelled_text hend)))))))))))

theorem lexeme_of_tokens {ls : List Lexeme} {t : Token} {ts : List Token}
    (h : ls.map Lexeme.token = t :: ts) :
    ∃ start rest more, ls = ⟨t, start, rest⟩ :: more ∧ more.map Lexeme.token = ts := by
  obtain ⟨⟨_, start, rest⟩, more, rfl, rfl, hmore⟩ := List.map_eq_cons_iff.mp h
  exact ⟨start, rest, more, rfl, hmore⟩

/-- A reader takes some tokens off the front, wherever they stand in a text and whatever follows. -/
def Reads {α : Type} (read : Reader α) (ts : List Token) (x : α) : Prop :=
  ∀ ls more, ls.map Lexeme.token = ts ++ more →
    ∃ rest, read ls = .ok (x, rest) ∧ rest.map Lexeme.token = more

theorem Reads.map {α β : Type} {read : Reader α} {ts : List Token} {x : α}
    (h : Reads read ts x) (f : α → β) :
    Reads (fun ls => do
      let (x, rest) ← read ls
      return (f x, rest)) ts (f x) := by
  intro ls more hls
  obtain ⟨rest, hread, hrest⟩ := h ls more hls
  refine ⟨rest, ?_, hrest⟩
  simp only [hread]
  rfl

theorem optionalText_reads (x : Option String) : Reads optionalText [textToken x] x := by
  intro ls more h
  obtain ⟨_, _, rest, rfl, hrest⟩ := lexeme_of_tokens h
  cases x <;> exact ⟨rest, rfl, hrest⟩

theorem optionalValue_reads : Reads optionalValue [.null] none := by
  intro ls more h
  obtain ⟨_, _, rest, rfl, hrest⟩ := lexeme_of_tokens h
  exact ⟨rest, rfl, hrest⟩

variable {stop : List UInt8} {rounds : Nat} {seen : List String} {p q r : Params} {name : String}
  {ts more : List Token}

theorem query_reads (p : Params) (x : Option String) :
    Reads (field p "query") [textToken x] { p with query := x } := by
  have h := (optionalText_reads x).map fun y => { p with query := y }
  exact h

theorem operationName_reads (p : Params) (x : Option String) :
    Reads (field p "operationName") [textToken x] { p with operationName := x } := by
  have h := (optionalText_reads x).map fun y => { p with operationName := y }
  exact h

theorem variables_reads (p : Params) :
    Reads (field p "variables") [.null] { p with variableValues := none } := by
  have h := optionalValue_reads.map fun y => { p with variableValues := y }
  exact h

theorem field_of_member {ls : List Lexeme} (hfield : Reads (field p name) ts q)
    (behind : List Token)
    (h : ls.map Lexeme.token = .string (some name) :: .colon :: (ts ++ behind)) :
    ∃ s₁ r₁ s₂ r₂ value rest,
      ls = ⟨.string (some name), s₁, r₁⟩ :: ⟨.colon, s₂, r₂⟩ :: value ∧
      field p name value = .ok (q, rest) ∧ rest.map Lexeme.token = behind := by
  obtain ⟨_, _, _, rfl, hname⟩ := lexeme_of_tokens h
  obtain ⟨_, _, value, rfl, hvalue⟩ := lexeme_of_tokens hname
  obtain ⟨rest, hread, hrest⟩ := hfield value behind hvalue
  exact ⟨_, _, _, _, value, rest, rfl, hread, hrest⟩

theorem members_cons (hnew : seen.contains name = false) (hfield : Reads (field p name) ts q)
    (hmore : Reads (members stop rounds
      (if fieldNames.contains name then name :: seen else seen) q) more r) :
    Reads (members stop (rounds + 1) seen p)
      (.string (some name) :: .colon :: (ts ++ .comma :: more)) r := by
  intro ls behind h
  obtain ⟨_, _, _, _, _, rest, rfl, hread, hrest⟩ :=
    field_of_member hfield (.comma :: (more ++ behind)) (by simpa using h)
  obtain ⟨_, _, afterComma, rfl, hcomma⟩ := lexeme_of_tokens hrest
  obtain ⟨rest, hmembers, hrest⟩ := hmore afterComma behind hcomma
  refine ⟨rest, ?_, hrest⟩
  simp only [members, hnew, hread]
  exact hmembers

theorem members_last (hnew : seen.contains name = false) (hfield : Reads (field p name) ts q) :
    Reads (members stop (rounds + 1) seen p)
      (.string (some name) :: .colon :: (ts ++ [.endObject])) q := by
  intro ls behind h
  obtain ⟨_, _, _, _, _, rest, rfl, hread, hrest⟩ :=
    field_of_member hfield (.endObject :: behind) (by simpa using h)
  obtain ⟨_, _, rest, rfl, hbehind⟩ := lexeme_of_tokens hrest
  refine ⟨rest, ?_, hbehind⟩
  simp only [members, hnew, hread]
  rfl

/-- The text of some parameters denotes these parameters. -/
theorem decode_toJson (query name : Option String) :
    decode (Text.utf8 (toJson ⟨query, name, none⟩).text) = .ok ⟨query, name, none⟩ := by
  obtain ⟨htokens, hrest⟩ := (spelled_toJson query name).scan
  generalize hls : Json.scan (Text.utf8 (toJson ⟨query, name, none⟩).text) = lexemes at *
  obtain ⟨_, _, ls, hitems, hmembers⟩ := lexeme_of_tokens htokens
  have hread : Reads (members lexemes.rest ls.length [] empty) (memberTokens query name)
      ⟨query, name, none⟩ := by
    have hlength : ls.length = 12 := by
      rw [← List.length_map Lexeme.token, hmembers]
      rfl
    rw [hlength]
    exact members_cons rfl (query_reads empty query)
      (members_cons rfl (operationName_reads _ name) (members_last rfl (variables_reads _)))
  obtain ⟨rest, hall, hnil⟩ := hread ls [] (by rw [hmembers, List.append_nil])
  obtain rfl : rest = [] := List.map_eq_nil_iff.mp hnil
  have hobject : all lexemes.rest lexemes.items = .ok (⟨query, name, none⟩, []) := by
    obtain ⟨_, _, _, rfl, -⟩ := lexeme_of_tokens hmembers
    rw [hitems]
    exact hall
  simp only [decode, hls, hobject]
  rw [hrest]
  rfl

end Params

end QueryGate
