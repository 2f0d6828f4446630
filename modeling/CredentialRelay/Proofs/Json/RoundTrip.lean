import Mathlib
import CredentialRelay.Json.Printer
import CredentialRelay.Proofs.Json.Formed
import CredentialRelay.Proofs.Json.Integers

namespace CredentialRelay.Json
open Reader

inductive Whole : Json → Prop
  | null : Whole .null
  | bool (value : Bool) : Whole (.bool value)
  | integer {n : Int} (fits : Fits64 n) : Whole (.number (.integer n))
  | string (value : String) : Whole (.string value)
  | array {items : List Json} (all : ∀ item ∈ items, Whole item) : Whole (.array items)
  | object {members : List (String × Json)} (all : ∀ member ∈ members, Whole member.2) :
      Whole (.object members)

namespace Reader

variable {fuel room : Nat} {rest : List Char} {json : Json}

theorem unit?_unicodeEscape {n : Nat} (control : n < 32) :
    unit? '0' '0' (Nat.digitChar (n / 16)) (Nat.digitChar (n % 16)) = some n := by
  have all : ∀ n < 32, unit? '0' '0' (Nat.digitChar (n / 16)) (Nat.digitChar (n % 16)) = some n := by
    decide
  exact all n control

theorem escape_cases (c : Char) :
    (∃ short, escape c = ['\\', short] ∧ unescape? short = some c) ∨
      (escape c = unicodeEscape c ∧ c < ' ') ∨
      (escape c = [c] ∧ c ≠ '"' ∧ c ≠ '\\' ∧ ¬c < ' ') := by
  by_cases short : c ∈ ['"', '\\', '\n', '\r', '\t', '\x08', '\x0c']
  · simp only [List.mem_cons, List.not_mem_nil, or_false] at short
    rcases short with rfl | rfl | rfl | rfl | rfl | rfl | rfl <;> exact .inl ⟨_, rfl, rfl⟩
  · simp only [List.mem_cons, List.not_mem_nil, or_false, not_or] at short
    have long : escape c = if c < ' ' then unicodeEscape c else [c] := by simp [escape, short]
    rw [long]
    split
    · next control => exact .inr (.inl ⟨rfl, control⟩)
    · next printable => exact .inr (.inr ⟨rfl, short.1, short.2.1, printable⟩)

theorem stringRest_escape (c : Char) (read rest : List Char) :
    stringRest read (escape c ++ rest) = stringRest (c :: read) rest := by
  obtain ⟨short, written, meant⟩ | ⟨written, control⟩ | ⟨written, quoteless, slashless, printable⟩ :=
    escape_cases c
  · have other : short ≠ 'u' := by
      rintro rfl
      cases meant
    rw [written, List.cons_append, List.cons_append, List.nil_append, stringRest, meant]
    exact fun _ _ _ _ _ same => absurd same other
  · have small : c.toNat < 32 := control
    rw [written, unicodeEscape]
    simp only [List.cons_append, List.nil_append, stringRest, unit?_unicodeEscape small]
    have plain : isLowSurrogate c.toNat = false ∧ isHighSurrogate c.toNat = false := by
      simp [isLowSurrogate, isHighSurrogate]
      omega
    rw [plain.1, plain.2, Char.ofNat_toNat]
    rfl
  · rw [written, List.cons_append, List.nil_append, stringRest, if_neg printable]
    · exact quoteless
    · exact fun _ _ _ _ _ same => absurd same slashless
    · exact fun _ _ same => absurd same slashless

theorem stringRest_flatMap_escape (cs read rest : List Char) :
    stringRest read (cs.flatMap escape ++ '"' :: rest) =
      some (String.ofList (read.reverse ++ cs), rest) := by
  induction cs generalizing read with
  | nil => rw [List.flatMap_nil, List.nil_append, stringRest, List.append_nil]
  | cons c cs ih =>
      rw [List.flatMap_cons, List.append_assoc, stringRest_escape, ih, List.reverse_cons,
        List.append_assoc, List.singleton_append]

theorem stringRest_quote (s : String) (rest : List Char) :
    stringRest [] (s.toList.flatMap escape ++ '"' :: rest) = some (s, rest) := by
  rw [stringRest_flatMap_escape, List.reverse_nil, List.nil_append, String.ofList_toList]

theorem skipSpace_cons {c : Char} (dark : isSpace c = false) : skipSpace (c :: rest) = c :: rest :=
  List.dropWhile_cons_of_neg (by simp [dark])

theorem value_quote (fuel room : Nat) (s : String) (rest : List Char) :
    value (fuel + 1) room (quote s ++ rest) = some (.string s, rest) := by
  rw [quote, List.append_assoc, List.cons_append, List.singleton_append, value,
    skipSpace_cons (by decide)]
  simp only [stringRest_quote, Option.map_some]

def ReadsBack (room : Nat) (json : Json) : Prop :=
  ∀ fuel rest, 2 * json.chars.length ≤ fuel → EndsNumber rest →
    value fuel room (json.chars ++ rest) = some (json, rest)

theorem endsNumber_cons {c : Char} (other : c ∈ [',', ']', '\x7d']) (rest : List Char) :
    EndsNumber (c :: rest) := by
  intro first same
  obtain rfl := Option.some.inj same
  simp only [List.mem_cons, List.not_mem_nil, or_false] at other
  rcases other with rfl | rfl | rfl <;> decide

theorem items_itemChars {items : List Json} (any : items ≠ [])
    (all : ∀ item ∈ items, ReadsBack room item) (enough : 2 * (itemChars items).length < fuel)
    (rest : List Char) :
    Reader.items fuel room (itemChars items ++ ']' :: rest) = some (items, rest) := by
  induction items generalizing fuel with
  | nil => exact absurd rfl any
  | cons item items ih =>
      obtain ⟨fuel, rfl⟩ : ∃ fuel', fuel = fuel' + 1 := ⟨fuel - 1, by omega⟩
      obtain ⟨first, later⟩ := List.forall_mem_cons.1 all
      cases items with
      | nil =>
          rw [itemChars] at enough ⊢
          rw [Reader.items, first fuel _ (by omega) (endsNumber_cons (by decide) rest)]
          rfl
      | cons next items =>
          -- The fuel for the text pays for the comma, and so for the call that reads the other items.
          rw [itemChars, List.length_append, List.length_cons] at enough
          have read := ih (List.cons_ne_nil next items) later (show _ < fuel by omega)
          rw [itemChars, List.append_assoc, List.cons_append, Reader.items,
            first fuel _ (by omega) (endsNumber_cons (by decide) _)]
          simp only [skipSpace_cons (c := ',') (by decide), read, Option.map_some]

theorem oneMemberChars_append (name : String) (json : Json) (rest : List Char) :
    oneMemberChars (name, json) ++ rest =
      '"' :: (name.toList.flatMap escape ++ '"' :: ':' :: (json.chars ++ rest)) := by
  simp [oneMemberChars, quote]

theorem members_last {name : String} (reads : ReadsBack room json)
    (enough : 2 * json.chars.length ≤ fuel) (rest : List Char) :
    Reader.members (fuel + 1) room (oneMemberChars (name, json) ++ '\x7d' :: rest) =
      some ([(name, json)], rest) := by
  have read := reads fuel ('\x7d' :: rest) enough (endsNumber_cons (by decide) rest)
  rw [oneMemberChars_append, Reader.members, skipSpace_cons (by decide)]
  simp only [stringRest_quote, skipSpace_cons (c := ':') (by decide), read,
    skipSpace_cons (c := '\x7d') (by decide)]

theorem members_more {name : String} (reads : ReadsBack room json)
    (enough : 2 * json.chars.length ≤ fuel) {members : List (String × Json)} {tail : List Char}
    (later : Reader.members fuel room tail = some (members, rest)) :
    Reader.members (fuel + 1) room (oneMemberChars (name, json) ++ ',' :: tail) =
      some ((name, json) :: members, rest) := by
  have read := reads fuel (',' :: tail) enough (endsNumber_cons (by decide) tail)
  rw [oneMemberChars_append, Reader.members, skipSpace_cons (by decide)]
  simp only [stringRest_quote, skipSpace_cons (c := ':') (by decide), read,
    skipSpace_cons (c := ',') (by decide), later, Option.map_some]

theorem members_memberChars {members : List (String × Json)} (any : members ≠ [])
    (all : ∀ member ∈ members, ReadsBack room member.2)
    (enough : 2 * (memberChars members).length < fuel) (rest : List Char) :
    Reader.members fuel room (memberChars members ++ '\x7d' :: rest) = some (members, rest) := by
  induction members generalizing fuel with
  | nil => exact absurd rfl any
  | cons member members ih =>
      obtain ⟨name, value⟩ := member
      obtain ⟨fuel, rfl⟩ : ∃ fuel', fuel = fuel' + 1 := ⟨fuel - 1, by omega⟩
      obtain ⟨first, later⟩ := List.forall_mem_cons.1 all
      have shorter : value.chars.length ≤ (oneMemberChars (name, value)).length := by
        simp [oneMemberChars]
        omega
      cases members with
      | nil =>
          rw [memberChars] at enough ⊢
          exact members_last first (by dsimp only; omega) rest
      | cons next members =>
          rw [memberChars, List.length_append, List.length_cons] at enough
          have read := ih (List.cons_ne_nil next members) later (show _ < fuel by omega)
          rw [memberChars, List.append_assoc, List.cons_append]
          exact members_more first (by dsimp only; omega) read

theorem exists_chars_cons (whole : Whole json) :
    ∃ first tail, json.chars = first :: tail ∧ isSpace first = false ∧ first ≠ ']' := by
  cases whole with
  | null => exact ⟨'n', _, rfl, by decide⟩
  | bool value =>
      cases value with
      | true => exact ⟨'t', _, rfl, by decide⟩
      | false => exact ⟨'f', _, rfl, by decide⟩
  | @integer n fits =>
      obtain ⟨first, digits, cut, sign⟩ := text_eq_cons n
      refine ⟨first, digits, cut, ?_⟩
      obtain ⟨rfl, -⟩ | ⟨digit, -⟩ := sign
      · decide
      · have other (c : Char) (out : isDigit c = false) : first ≠ c := by
          rintro rfl
          cases out.symm.trans digit
        refine ⟨?_, other ']' (by decide)⟩
        simp [isSpace, other ' ' (by decide), other '\n' (by decide), other '\t' (by decide),
          other '\r' (by decide)]
  | string value => exact ⟨'"', _, rfl, by decide⟩
  | array all => exact ⟨'[', _, rfl, by decide⟩
  | object all => exact ⟨'\x7b', _, rfl, by decide⟩

theorem value_array {first : Char} (dark : isSpace first = false) (other : first ≠ ']')
    (fuel room : Nat) (tail : List Char) :
    value (fuel + 1) (room + 1) ('[' :: first :: tail) =
      (Reader.items fuel room (first :: tail)).map fun (items, rest) => (array items, rest) := by
  rw [value, skipSpace_cons (by decide)]
  simp only [skipSpace_cons dark]
  split
  · next same => exact absurd (List.cons.inj same).1 other
  · rfl

theorem value_object {first : Char} (dark : isSpace first = false) (other : first ≠ '\x7d')
    (fuel room : Nat) (tail : List Char) :
    value (fuel + 1) (room + 1) ('\x7b' :: first :: tail) =
      (Reader.members fuel room (first :: tail)).map fun (members, rest) =>
        (ofMembers members, rest) := by
  rw [value, skipSpace_cons (by decide)]
  simp only [skipSpace_cons dark]
  split
  · next same => exact absurd (List.cons.inj same).1 other
  · rfl

theorem readsBack_array {items : List Json} (whole : ∀ item ∈ items, Whole item)
    (all : ∀ item ∈ items, ReadsBack room item) : ReadsBack (room + 1) (.array items) := by
  intro fuel rest enough ends
  rw [chars, List.length_append, List.length_cons, List.length_singleton] at enough
  obtain ⟨fuel, rfl⟩ : ∃ fuel', fuel = fuel' + 1 := ⟨fuel - 1, by omega⟩
  rw [chars, List.append_assoc, List.cons_append, List.singleton_append]
  cases items with
  | nil => rfl
  | cons item items =>
      have read := items_itemChars (List.cons_ne_nil item items) all (show _ < fuel by omega) rest
      obtain ⟨first, tail, cut, dark, other⟩ := exists_chars_cons (whole item List.mem_cons_self)
      obtain ⟨tail, cut⟩ : ∃ tail, itemChars (item :: items) = first :: tail := by
        cases items with
        | nil => exact ⟨tail, cut⟩
        | cons next items => exact ⟨_, by rw [itemChars, cut, List.cons_append]⟩
      rw [cut, List.cons_append] at read ⊢
      rw [value_array dark other, read, Option.map_some]

theorem readsBack_object {members : List (String × Json)} (ascending : Ascending members)
    (all : ∀ member ∈ members, ReadsBack room member.2) :
    ReadsBack (room + 1) (.object members) := by
  intro fuel rest enough ends
  rw [chars, List.length_append, List.length_cons, List.length_singleton] at enough
  obtain ⟨fuel, rfl⟩ : ∃ fuel', fuel = fuel' + 1 := ⟨fuel - 1, by omega⟩
  rw [chars, List.append_assoc, List.cons_append, List.singleton_append]
  cases members with
  | nil => rfl
  | cons member members =>
      have read := members_memberChars (List.cons_ne_nil member members) all
        (show _ < fuel by omega) rest
      obtain ⟨tail, cut⟩ : ∃ tail, memberChars (member :: members) = '"' :: tail := by
        cases members with
        | nil => exact ⟨_, by rw [memberChars, oneMemberChars, quote]; rfl⟩
        | cons next members => exact ⟨_, by rw [memberChars, oneMemberChars, quote]; rfl⟩
      rw [cut, List.cons_append] at read ⊢
      rw [value_object (by decide) (by decide), read, Option.map_some]
      exact congrArg (fun json => some (json, rest)) (ofMembers_eq_object ascending)

theorem readsBack_scalar (whole : Whole json)
    (reads : ∀ fuel rest, EndsNumber rest →
      value (fuel + 1) room (json.chars ++ rest) = some (json, rest)) : ReadsBack room json := by
  intro fuel rest enough ends
  obtain ⟨first, tail, cut, -⟩ := exists_chars_cons whole
  rw [cut, List.length_cons] at enough
  obtain ⟨fuel, rfl⟩ : ∃ fuel', fuel = fuel' + 1 := ⟨fuel - 1, by omega⟩
  exact reads fuel rest ends

theorem readsBack_of_formed (formed : Formed room json) (whole : Whole json) :
    ReadsBack room json := by
  -- Along the way it was read, which knows how deep it may be and that all names ascend.
  induction formed with
  | null => exact readsBack_scalar whole fun fuel rest _ => rfl
  | bool room value =>
      refine readsBack_scalar whole fun fuel rest _ => ?_
      cases value <;> rfl
  | number room value =>
      refine readsBack_scalar whole fun fuel rest ends => ?_
      cases whole with
      | integer fits => exact value_text_append fits ends fuel _
  | string room value =>
      exact readsBack_scalar whole fun fuel rest _ => value_quote fuel _ value rest
  | array all ih =>
      cases whole with
      | array whole =>
          exact readsBack_array whole fun item inside => ih item inside (whole item inside)
  | object ascending all ih =>
      cases whole with
      | object whole =>
          exact readsBack_object ascending fun member inside => ih member inside (whole member inside)

end Reader

theorem ofText?_text {json : Json} (formed : Formed Reader.maxDepth json) (whole : Whole json) :
    ofText? json.text = some json := by
  have read := Reader.readsBack_of_formed formed whole (2 * json.chars.length + 2) [] (by omega)
    (by simp [Reader.EndsNumber])
  rw [List.append_nil] at read
  rw [ofText?, text, String.toList_ofList, ofChars?, read]
  rfl

end CredentialRelay.Json
