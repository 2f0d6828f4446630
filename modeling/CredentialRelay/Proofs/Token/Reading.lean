import Mathlib
import CredentialRelay.Proofs.Bytes.Base64
import CredentialRelay.Proofs.Bytes.Utf8
import CredentialRelay.Proofs.Json.Integers
import CredentialRelay.Proofs.Text.Pieces
import CredentialRelay.Token

namespace CredentialRelay.Token

open Base64 (Alphabet encode decode? decode?_encode decode?_unique)
open Json.Reader (Fits64)

variable {token header segment signature before after : String} {bytes : Bytes} {held : Claims}

theorem decodeSegment?_of_decode? {alphabet : Alphabet} (h : decode? alphabet segment = some bytes) :
    decodeSegment? segment = some bytes := by
  unfold decodeSegment?
  cases first : decode? .urlSafe segment with
  | some bytes' => rw [Option.some_or, decode?_unique first h]
  | none =>
      cases alphabet with
      | urlSafe => cases first.symm.trans h
      | standard => exact h

theorem decodeSegment?_comm (segment : String) :
    decodeSegment? segment = (decode? .standard segment).or (decode? .urlSafe segment) := by
  cases h : decode? .standard segment with
  | some bytes => exact decodeSegment?_of_decode? h
  | none => rw [decodeSegment?, h, Option.or_none, Option.none_or]

theorem dot_notMem_encode (alphabet : Alphabet) (padded : Bool) (bytes : Bytes) :
    '.' ∉ (encode alphabet padded bytes).toList := by
  intro member
  exact absurd (Base64.eq_pad_of_mem_encode member (by decide)) (by decide)

def ofSegments (header segment signature : String) : String :=
  header ++ "." ++ (segment ++ "." ++ signature)

theorem ofSegments_eq (header segment signature : String) :
    ofSegments header segment signature =
      header ++ String.singleton '.' ++ (segment ++ String.singleton '.' ++ signature) := rfl

theorem split_ofSegments (front : '.' ∉ header.toList) (middle : '.' ∉ segment.toList)
    (back : '.' ∉ signature.toList) :
    Text.split '.' (ofSegments header segment signature) = [header, segment, signature] := by
  rw [ofSegments_eq, Text.split_append front, Text.split_append middle,
    Text.split_eq_singleton back]

theorem claims?_ofSegments (front : '.' ∉ header.toList) (middle : '.' ∉ segment.toList)
    (back : '.' ∉ signature.toList) (decoded : decodeSegment? segment = some bytes)
    (parsed : Json.ofBytes? bytes = some (.object held))
    (left : ∀ c ∈ before.toList, Text.isBlank c = true)
    (right : ∀ c ∈ after.toList, Text.isBlank c = true) :
    claims? (before ++ ofSegments header segment signature ++ after) = some held := by
  -- Blanks next to the token may be part of the header or the signature, never of the claims.
  have plain : Text.isBlank '.' = false := by decide
  obtain ⟨header', signature', inFront, inBack, trimmed⟩ :=
    Text.trim_between plain header segment signature
  rw [← ofSegments_eq, ← ofSegments_eq] at trimmed
  have segments := split_ofSegments (fun member => front (inFront member)) middle
    fun member => back (inBack member)
  rw [claims?, Text.trim_append_blanks left right, trimmed, segments]
  simp only [decoded, Option.bind_some, parsed]

theorem claims?_eq_none (dots : (Text.trim token).toList.count '.' ≠ 2) : claims? token = none := by
  have pieces := Text.length_split '.' (Text.trim token)
  unfold claims?
  split
  · next three =>
    rw [three] at pieces
    exact absurd (Nat.succ_inj.1 pieces).symm dots
  · rfl

theorem identityOfClaims?_integer {n : Int} (h : held.lookup "userID" = some (.number (.integer n))) :
    identityOfClaims? held = some (toString n) := by
  rw [identityOfClaims?, subjectClaims, List.findSome?_cons, h, Option.bind_some, subjectText?,
    Decimal.text_eq_toString]

theorem claims_eq_ok : claims token = .ok held ↔ claims? token = some held := by
  unfold claims
  cases claims? token <;> simp

theorem identity_of_claims {subject : String} (h : claims token = .ok held)
    (named : identityOfClaims? held = some subject) : identity token = .ok subject := by
  rw [identity, identity?, claims_eq_ok.1 h, Option.bind_some, named]

/-- Claims are read back from every token written with them, and an integer subject from `-2^63` to
`2^64 - 1` is the identity. -/
theorem claims_read_back :
    (∀ bytes held alphabet padded header signature before after,
      Json.ofBytes? bytes = some (.object held) →
      '.' ∉ header.toList → '.' ∉ signature.toList →
      (∀ c ∈ before.toList, Text.isBlank c = true) → (∀ c ∈ after.toList, Text.isBlank c = true) →
      claims (before ++ ofSegments header (encode alphabet padded bytes) signature ++ after) =
        .ok held) ∧
    (∀ segment bytes bytes', decode? .urlSafe segment = some bytes →
      decode? .standard segment = some bytes' → bytes = bytes') ∧
    (∀ segment, decodeSegment? segment =
      (decode? .standard segment).or (decode? .urlSafe segment)) ∧
    (∀ token, (Text.trim token).toList.count '.' ≠ 2 →
      claims token = .error .identityNotFound ∧ identity token = .error .identityNotFound) ∧
    (∀ n, Fits64 n → Json.ofText? (toString n) = some (.number (.integer n)) ∧
      ∀ token held, claims token = .ok held → held.lookup "userID" = Json.ofText? (toString n) →
        identity token = .ok (toString n)) := by
  refine ⟨?_, ?_, decodeSegment?_comm, ?_, ?_⟩
  · intro bytes held alphabet padded header signature before after parsed front back left right
    have decoded := decodeSegment?_of_decode? (decode?_encode alphabet padded bytes)
    exact claims_eq_ok.2 (claims?_ofSegments front (dot_notMem_encode alphabet padded bytes) back
      decoded parsed left right)
  · intro segment bytes bytes' one other
    exact decode?_unique one other
  · intro token dots
    have absent := claims?_eq_none dots
    rw [claims, identity, identity?, absent]
    exact ⟨rfl, rfl⟩
  · intro n fits
    have literal := Json.ofText?_toString fits
    refine ⟨literal, fun token held read subject => ?_⟩
    exact identity_of_claims read (identityOfClaims?_integer (subject.trans literal))

theorem claims_read_back_padded :
    let token := "\u3000 h.eyJ1c2VySUQiOjE4NDQ2NzQ0MDczNzA5NTUxNjE1LCJuYW1lIjoifj8+In0=. \n"
    let held : Claims :=
      [("name", .string "~?>"), ("userID", .number (.integer 18446744073709551615))]
    claims token = .ok held ∧ identity token = .ok "18446744073709551615" := by
  intro token held
  let bytes := Bytes.ofText "\x7b\"userID\":18446744073709551615,\"name\":\"~?>\"\x7d"
  have parsed : Json.ofBytes? bytes = some (.object held) := by
    rw [Json.ofBytes?, Bytes.text?_ofText, Option.bind_some]
    cbv
  have written :
      "\u3000" ++ ofSegments " h" (encode .standard true bytes) " " ++ "\n" = token := by
    decide +kernel
  obtain ⟨literal, identical⟩ := claims_read_back.2.2.2.2 18446744073709551615
    ⟨by decide, by decide⟩
  have read := claims_read_back.1 bytes held .standard true " h" " " "\u3000" "\n" parsed
    (by decide) (by decide) (List.all_eq_true.1 rfl) (List.all_eq_true.1 rfl)
  rw [written] at read
  exact ⟨read, identical token held read (literal ▸ rfl)⟩

end CredentialRelay.Token
