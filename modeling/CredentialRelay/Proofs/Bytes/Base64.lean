import Mathlib
import CredentialRelay.Bytes.Base64
import CredentialRelay.Text.Blank

namespace CredentialRelay.Base64

variable {alphabet alphabet' : Alphabet}

def Alphabet.digit (alphabet : Alphabet) (n : Nat) : Char :=
  if n < 26 then Char.ofNat (n + 65)
  else if n < 52 then Char.ofNat (n + 71)
  else if n < 62 then Char.ofNat (n - 4)
  else if n = 62 then alphabet.last.1
  else alphabet.last.2

def isMark (c : Char) : Bool := c = '=' || c = '.' || Text.isBlank c

theorem value?_digit (alphabet : Alphabet) {n : Nat} (small : n < 64) :
    alphabet.value? (alphabet.digit n) = some n := by
  have all : ∀ n < 64, alphabet.value? (alphabet.digit n) = some n := by
    cases alphabet <;> decide +kernel
  exact all n small

theorem isMark_digit (alphabet : Alphabet) {n : Nat} (small : n < 64) :
    isMark (alphabet.digit n) = false := by
  have all : ∀ n < 64, isMark (alphabet.digit n) = false := by
    cases alphabet <;> decide +kernel
  exact all n small

theorem value?_unique {c : Char} {m n : Nat} (one : alphabet.value? c = some m)
    (other : alphabet'.value? c = some n) : m = n := by
  have same {x : Nat} (first : some x = some m) (second : some x = some n) : m = n :=
    (Option.some.inj first).symm.trans (Option.some.inj second)
  unfold Alphabet.value? at one other
  split at one
  · next upper =>
    rw [if_pos upper] at other
    exact same one other
  · next upper =>
    rw [if_neg upper] at other
    split at one
    · next lower =>
      rw [if_pos lower] at other
      exact same one other
    · next lower =>
      rw [if_neg lower] at other
      split at one
      · next digit =>
        rw [if_pos digit] at other
        exact same one other
      · next digit =>
        -- The last two digits of one alphabet are not in the other.
        rw [if_neg digit] at other
        cases alphabet <;> cases alphabet' <;> grind [Alphabet.last]

def sextets : Bytes → List Nat
  | [] => []
  | [a] => [a.toNat / 4, a.toNat % 4 * 16]
  | [a, b] => [a.toNat / 4, a.toNat % 4 * 16 + b.toNat / 16, b.toNat % 16 * 4]
  | a :: b :: c :: rest =>
    a.toNat / 4 :: (a.toNat % 4 * 16 + b.toNat / 16) :: (b.toNat % 16 * 4 + c.toNat / 64) ::
      c.toNat % 64 :: sextets rest

def padding (bytes : Bytes) : Nat := (3 - bytes.length % 3) % 3

def encode (alphabet : Alphabet) (padded : Bool) (bytes : Bytes) : String :=
  String.ofList ((sextets bytes).map alphabet.digit ++
    List.replicate (if padded then padding bytes else 0) '=')

theorem sextets_lt {bytes : Bytes} {n : Nat} (member : n ∈ sextets bytes) : n < 64 := by
  fun_induction sextets bytes with
  | case1 => cases member
  | case2 a =>
      have := a.toNat_lt
      simp only [List.mem_cons, List.not_mem_nil, or_false] at member
      omega
  | case3 a b =>
      have := a.toNat_lt
      have := b.toNat_lt
      simp only [List.mem_cons, List.not_mem_nil, or_false] at member
      omega
  | case4 a b c rest ih =>
      have := a.toNat_lt
      have := b.toNat_lt
      have := c.toNat_lt
      simp only [List.mem_cons] at member
      rcases member with first | second | third | fourth | later
      all_goals first | exact ih later | omega

theorem ofNat_eq {a : UInt8} {n : Nat} (same : n = a.toNat) : UInt8.ofNat n = a := by
  rw [same, UInt8.ofNat_toNat]

theorem join?_sextets (bytes : Bytes) : join? (sextets bytes) = some bytes := by
  fun_induction sextets bytes with
  | case1 => rfl
  | case2 a =>
      have := a.toNat_lt
      rw [join?, if_pos (by omega), ofNat_eq (a := a) (by omega)]
  | case3 a b =>
      have := a.toNat_lt
      have := b.toNat_lt
      rw [join?, if_pos (by omega), ofNat_eq (a := a) (by omega), ofNat_eq (a := b) (by omega)]
  | case4 a b c rest ih =>
      have := a.toNat_lt
      have := b.toNat_lt
      have := c.toNat_lt
      rw [join?, ih, Option.map_some, ofNat_eq (a := a) (by omega), ofNat_eq (a := b) (by omega),
        ofNat_eq (a := c) (by omega)]

theorem paddingRoom_sextets (bytes : Bytes) :
    paddingRoom (sextets bytes).length = padding bytes := by
  fun_induction sextets bytes with
  | case1 => rfl
  | case2 a => rfl
  | case3 a b => rfl
  | case4 a b c rest ih =>
      have digits (n : Nat) : paddingRoom (n + 4) = paddingRoom n := by
        rw [paddingRoom, Nat.add_mod_right, ← paddingRoom]
      have bytes (n : Nat) : (n + 3) % 3 = n % 3 := Nat.add_mod_right n 3
      rw [List.length_cons, List.length_cons, List.length_cons, List.length_cons, digits, ih, padding,
        padding, List.length_cons, List.length_cons, List.length_cons, bytes]

theorem eq_pad_of_mem_encode {bytes : Bytes} {padded : Bool} {c : Char}
    (member : c ∈ (encode alphabet padded bytes).toList) (mark : isMark c = true) : c = '=' := by
  rw [encode, String.toList_ofList, List.mem_append] at member
  rcases member with digit | pad
  · obtain ⟨n, inside, rfl⟩ := List.mem_map.1 digit
    cases mark.symm.trans (isMark_digit alphabet (sextets_lt inside))
  · exact List.eq_of_mem_replicate pad

theorem mapM_value?_digits (alphabet : Alphabet) {values : List Nat} (small : ∀ n ∈ values, n < 64) :
    (values.map alphabet.digit).mapM alphabet.value? = some values := by
  induction values with
  | nil => rfl
  | cons n values ih =>
      rw [List.forall_mem_cons] at small
      rw [List.map_cons, List.mapM_cons, value?_digit alphabet small.1, ih small.2]
      rfl

theorem decode?_ofList {digits : List Char} (plain : '=' ∉ digits) {pads : Nat}
    (room : pads ≤ paddingRoom digits.length) :
    decode? alphabet (String.ofList (digits ++ List.replicate pads '=')) =
      (digits.mapM alphabet.value?).bind join? := by
  have front : ∀ c ∈ digits, (c != '=') = true := fun c member =>
    bne_iff_ne.2 fun same => plain (same ▸ member)
  unfold decode?
  dsimp only
  rw [String.toList_ofList, List.takeWhile_append_of_pos front, List.dropWhile_append_of_pos front]
  simp [room]

theorem decode?_encode (alphabet : Alphabet) (padded : Bool) (bytes : Bytes) :
    decode? alphabet (encode alphabet padded bytes) = some bytes := by
  have plain : '=' ∉ (sextets bytes).map alphabet.digit := by
    intro member
    obtain ⟨n, inside, sign⟩ := List.mem_map.1 member
    exact absurd (isMark_digit alphabet (sextets_lt inside)) (by rw [sign]; decide)
  have room : (if padded then padding bytes else 0) ≤
      paddingRoom ((sextets bytes).map alphabet.digit).length := by
    rw [List.length_map, paddingRoom_sextets]
    split <;> simp
  rw [encode, decode?_ofList plain room, mapM_value?_digits alphabet fun n => sextets_lt]
  exact join?_sextets bytes

theorem mapM_value?_unique {cs : List Char} {xs ys : List Nat}
    (one : cs.mapM alphabet.value? = some xs) (other : cs.mapM alphabet'.value? = some ys) :
    xs = ys := by
  induction cs generalizing xs ys with
  | nil =>
      cases one
      cases other
      rfl
  | cons c cs ih =>
      simp only [List.mapM_cons, Option.bind_eq_bind, Option.bind_eq_some_iff, Option.pure_def,
        Option.some.injEq] at one other
      obtain ⟨x, first, xs, rest, rfl⟩ := one
      obtain ⟨y, first', ys, rest', rfl⟩ := other
      rw [value?_unique first first', ih rest rest']

theorem decode?_unique {s : String} {bytes bytes' : Bytes} (one : decode? alphabet s = some bytes)
    (other : decode? alphabet' s = some bytes') : bytes = bytes' := by
  unfold decode? at one other
  dsimp only at one other
  -- Whether the padding is right does not depend on the alphabet.
  split at one
  · next closed =>
    rw [if_pos closed] at other
    obtain ⟨xs, read, joined⟩ := Option.bind_eq_some_iff.1 one
    obtain ⟨ys, read', joined'⟩ := Option.bind_eq_some_iff.1 other
    rw [mapM_value?_unique read read', joined'] at joined
    exact (Option.some.inj joined).symm
  · cases one

end CredentialRelay.Base64
