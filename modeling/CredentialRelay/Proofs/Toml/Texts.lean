import Mathlib
import CredentialRelay.Toml.Reader

namespace CredentialRelay.Toml

variable {c : Char} {cs read rest : List Char}

theorem hexDigit?_digitChar : ∀ d < 16, hexDigit? (Nat.digitChar d) = some d := by decide

def codeDigits : (width : Nat) → Nat → List Nat
  | 0, _ => []
  | width + 1, n => codeDigits width (n / 16) ++ [n % 16]

theorem foldl_codeDigits (width n : Nat) :
    (codeDigits width n).foldl (fun n d => n * 16 + d) 0 = n % 16 ^ width := by
  induction width generalizing n with
  | zero => rw [codeDigits, List.foldl_nil, Nat.pow_zero, Nat.mod_one]
  | succ width ih =>
      rw [codeDigits, List.foldl_append, ih, List.foldl_cons, List.foldl_nil, Nat.pow_succ',
        Nat.mod_mul, Nat.mul_comm, Nat.add_comm]

theorem mapM_hexDigit?_codeDigits (width n : Nat) :
    ((codeDigits width n).map Nat.digitChar).mapM hexDigit? = some (codeDigits width n) := by
  induction width generalizing n with
  | zero => rfl
  | succ width ih =>
      rw [codeDigits, List.map_append, List.mapM_append, ih, List.map_singleton, List.mapM_cons,
        hexDigit?_digitChar _ (Nat.mod_lt n (by decide))]
      rfl

theorem codePoint?_codeDigits (c : Char) :
    codePoint? ((codeDigits 8 c.toNat).map Nat.digitChar) = some c := by
  have valid : c.toNat.isValidChar := c.valid
  have small : c.toNat < 16 ^ 8 := by
    rw [Nat.isValidChar] at valid
    omega
  rw [codePoint?, mapM_hexDigit?_codeDigits, Option.bind_some, foldl_codeDigits,
    Nat.mod_eq_of_lt small]
  dsimp only
  rw [if_pos valid, Char.ofNat_toNat]

def spelled (c : Char) : List Char := '\\' :: 'U' :: (codeDigits 8 c.toNat).map Nat.digitChar

theorem basicRest_spelled (c : Char) (read rest : List Char) :
    basicRest 0 read (spelled c ++ rest) = basicRest 0 (c :: read) rest := by
  have meant : escaped? ('U' :: (codeDigits 8 c.toNat).map Nat.digitChar ++ rest) = some (c, rest) := by
    show (codePoint? ((codeDigits 8 c.toNat).map Nat.digitChar)).map (·, rest) = _
    rw [codePoint?_codeDigits, Option.map_some]
  rw [spelled, List.cons_append, basicRest]
  simp only [Char.reduceEq, if_false, if_true, meant]
  rfl

theorem basicRest_flatMap_spelled (cs read rest : List Char) :
    basicRest 0 read (cs.flatMap spelled ++ '"' :: rest) =
      some (String.ofList (read.reverse ++ cs), rest) := by
  induction cs generalizing read with
  | nil => rw [List.flatMap_nil, List.nil_append, basicRest, List.append_nil, if_pos rfl]
  | cons c cs ih =>
      rw [List.flatMap_cons, List.append_assoc, basicRest_spelled, ih, List.reverse_cons,
        List.append_assoc, List.singleton_append]

def quoted (s : String) : List Char := '"' :: (s.toList.flatMap spelled ++ ['"'])

theorem scalar?_quoted (s : String) : scalar? (quoted s) = some (.string s, []) := by
  have inside := basicRest_flatMap_spelled s.toList [] []
  rw [List.reverse_nil, List.nil_append, String.ofList_toList] at inside
  have plain : scalar? (quoted s) =
      (basicRest 0 [] (s.toList.flatMap spelled ++ ['"'])).map fun read => (.string read.1, read.2) := by
    rw [quoted]
    cases s.toList <;> rfl
  rw [plain, inside, Option.map_some]

theorem ne_of_isBare (bare : isBare c) {d : Char} (other : isBare d = false) : c ≠ d := by
  rintro rfl
  rw [bare] at other
  cases other

theorem skipBlank_bare (bare : isBare c) : skipBlank (c :: rest) = c :: rest := by
  refine List.dropWhile_cons_of_neg fun blank => ?_
  rw [isBlank, Bool.or_eq_true, beq_iff_eq, beq_iff_eq] at blank
  exact blank.elim (ne_of_isBare bare rfl) (ne_of_isBare bare rfl)

theorem newline?_bare (bare : isBare c) : newline? (c :: rest) = none := by
  unfold newline?
  split
  · next same => exact absurd (List.cons.inj same).1 (ne_of_isBare bare rfl)
  · next same => exact absurd (List.cons.inj same).1 (ne_of_isBare bare rfl)
  · rfl

theorem keyPart?_bare (bare : ∀ d ∈ c :: cs, isBare d) (rest : List Char) :
    keyPart? (c :: cs ++ '=' :: rest) = some (String.ofList (c :: cs), '=' :: rest) := by
  have first : isBare c := bare c List.mem_cons_self
  have part : (c :: cs ++ '=' :: rest).takeWhile isBare = c :: cs := by
    rw [List.takeWhile_append_of_pos bare, List.takeWhile_cons_of_neg (by decide), List.append_nil]
  have left : (c :: cs ++ '=' :: rest).dropWhile isBare = '=' :: rest := by
    rw [List.dropWhile_append_of_pos bare, List.dropWhile_cons_of_neg (by decide)]
  rw [List.cons_append] at part left ⊢
  rw [keyPart?, part, left]
  · exact fun _ same => ne_of_isBare first rfl (List.cons.inj same).1
  · exact fun _ same => ne_of_isBare first rfl (List.cons.inj same).1

theorem key?_bare (bare : ∀ d ∈ c :: cs, isBare d) (rest : List Char) :
    key? (c :: cs ++ '=' :: rest) = some (([], String.ofList (c :: cs)), '=' :: rest) := by
  have first : isBare c := bare c List.mem_cons_self
  have parts : keyParts? maxParts (c :: cs ++ '=' :: rest) =
      some ([String.ofList (c :: cs)], '=' :: rest) := by
    have read := keyPart?_bare bare rest
    rw [List.cons_append] at read ⊢
    rw [maxParts, keyParts?, skipBlank_bare first, read]
    rfl
  rw [key?, parts]
  rfl

theorem assignment?_quoted (bare : ∀ d ∈ c :: cs, isBare d) (s : String) (fuel room : Nat) :
    assignment? (fuel + 2) room (c :: cs ++ '=' :: quoted s) =
      some (⟨[], String.ofList (c :: cs), .string s⟩, []) := by
  have read : value? (fuel + 1) room (skipBlank (quoted s)) = some (.string s, []) := by
    have kept : skipBlank (quoted s) = quoted s := rfl
    rw [kept, ← scalar?_quoted, quoted, value?]
    · exact fun _ same => absurd (List.cons.inj same).1 (by decide)
    · exact fun _ same => absurd (List.cons.inj same).1 (by decide)
  rw [assignment?, key?_bare bare]
  simp only [read, Option.map_some]

theorem parts?_quoted (bare : ∀ d ∈ c :: cs, isBare d) (s : String) (fuel : Nat) :
    parts? (fuel + 2) (c :: cs ++ '=' :: quoted s) =
      some ⟨[⟨[], String.ofList (c :: cs), .string s⟩], []⟩ := by
  have first : isBare c := bare c List.mem_cons_self
  have read := assignment?_quoted bare s (2 * (cs ++ '=' :: quoted s).length + 2) maxParts
  rw [List.cons_append] at read ⊢
  rw [parts?, skipBlank_bare first]
  split
  · next same => cases same
  · next same => exact absurd (List.cons.inj same).1 (ne_of_isBare first rfl)
  · next same => exact absurd (List.cons.inj same).1 (ne_of_isBare first rfl)
  · next same =>
    obtain ⟨rfl, rfl⟩ := List.cons.inj same
    rw [newline?_bare first]
    dsimp only
    rw [read]
    rfl

def lineOf (key s : String) : String := String.ofList (key.toList ++ '=' :: quoted s)

theorem ofText?_lineOf {key : String} (filled : key.toList ≠ []) (bare : ∀ c ∈ key.toList, isBare c)
    (s : String) : ofText? (lineOf key s) = some (.table .header [(key, .string s)]) := by
  obtain ⟨c, cs, spelling⟩ := List.exists_cons_of_ne_nil filled
  rw [spelling] at bare
  have marked : c ≠ '\uFEFF' := ne_of_isBare (bare c List.mem_cons_self) rfl
  have parts := parts?_quoted bare s (cs ++ '=' :: quoted s).length
  rw [← spelling, String.ofList_toList, spelling, List.cons_append] at parts
  rw [ofText?, lineOf, String.toList_ofList, spelling, List.cons_append]
  split
  · next same => exact absurd (List.cons.inj same).1 marked
  · rw [List.length_cons, parts, Option.bind_some]
    rfl

end CredentialRelay.Toml
