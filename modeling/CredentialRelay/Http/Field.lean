import CredentialRelay.Http.Layout

namespace CredentialRelay.Http
open Bytes

def isPad (b : UInt8) : Bool := b == space || b == tab

structure Field where
  name : Bytes
  lead : Bytes
  value : Bytes
  trail : Bytes
deriving DecidableEq, Repr

namespace Field

def bytes (field : Field) : Bytes := field.name ++ field.lead ++ field.value ++ field.trail

def ofLine? (line : Bytes) : Option Field :=
  (cutAt? colon (content line)).map fun (name, rest) =>
    let padded := rest.dropWhile isPad
    { name
      lead := colon :: rest.takeWhile isPad
      value := (padded.reverse.dropWhile isPad).reverse
      trail := (padded.reverse.takeWhile isPad).reverse ++ lineEnd line }

def isNamed (name : String) (field : Field) : Bool :=
  sameName (trimBy isAsciiBlank field.name) (ofText name)

theorem append_of_cutAt? {b : UInt8} {xs before after : Bytes}
    (h : cutAt? b xs = some (before, after)) : before ++ b :: after = xs := by
  unfold cutAt? at h
  split at h
  · cases h
  · next x rest hd =>
    cases h
    have hx : x = b := by
      have := List.head?_dropWhile_not (· != b) xs
      rw [hd] at this
      simpa using this
    rw [← hx, ← hd]
    subst hx
    exact List.takeWhile_append_dropWhile

theorem bytes_of_ofLine? {line : Bytes} {field : Field} (h : ofLine? line = some field) :
    field.bytes = line := by
  unfold ofLine? at h
  obtain ⟨⟨name, rest⟩, cut, rfl⟩ := Option.map_eq_some_iff.1 h
  have padded := List.takeWhile_append_dropWhile (p := isPad) (l := (rest.dropWhile isPad).reverse)
  have back := congrArg List.reverse padded
  simp only [List.reverse_append, List.reverse_reverse] at back
  have front := List.takeWhile_append_dropWhile (p := isPad) (l := rest)
  have whole := append_of_cutAt? cut
  simp only [bytes]
  calc name ++ colon :: rest.takeWhile isPad ++ _ ++ (_ ++ lineEnd line)
      = name ++ colon :: (rest.takeWhile isPad ++
          ((List.dropWhile isPad (rest.dropWhile isPad).reverse).reverse ++
            (List.takeWhile isPad (rest.dropWhile isPad).reverse).reverse)) ++ lineEnd line := by
        simp
    _ = line := by rw [back, front, whole, content_append_lineEnd]

end Field

end CredentialRelay.Http
