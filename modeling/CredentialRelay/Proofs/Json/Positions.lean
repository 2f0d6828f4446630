import Mathlib
import CredentialRelay.ResponseBody

/-!
# Positions in a document

A position spells a path if its names are those of the path, whatever indices of array items stand
between them. The integers along a path are those at the positions that spell it, in the order in which
they stand in the document.
-/

namespace CredentialRelay

namespace Json

inductive Step where
  | member (name : String)
  | item (i : Nat)
deriving DecidableEq, Repr

abbrev Position := List Step

def Step.name? : Step → Option String
  | member name => some name
  | item _ => none

def spelled (position : Position) : List String := position.filterMap Step.name?

def isArray : Json → Bool
  | array _ => true
  | _ => false

def child? : Step → Json → Option Json
  | .member name, json => json.get? name
  | .item i, array items => items[i]?
  | .item _, _ => none

def valueAt? : Position → Json → Option Json
  | [], json => some json
  | step :: rest, json => (json.child? step).bind (valueAt? rest)

structure Leads (path : List String) (doc : Json) (position : Position) (value : Json) : Prop where
  spells : spelled position = path
  reached : doc.valueAt? position = some value
  leaf : value.isArray = false

/-- The positions part at an array, where the first takes the earlier item. -/
def Precedes (p q : Position) : Prop :=
  ∃ shared i j p' q', p = shared ++ .item i :: p' ∧ q = shared ++ .item j :: q' ∧ i < j

abbrev Ordered (found : List (Position × Json)) : Prop :=
  found.Pairwise fun a b => Precedes a.1 b.1

structure Gathers (path : List String) (doc : Json) (found : List (Position × Json)) : Prop where
  ordered : Ordered found
  once : (found.map Prod.fst).Nodup
  mem_iff : ∀ position value, (position, value) ∈ found ↔ Leads path doc position value

def MeetsArray (path : List String) (doc : Json) : Prop :=
  ∃ before items, before <+: path ∧ doc.at? before = some (array items)

def EndsAtNumber (path : List String) (doc : Json) : Prop :=
  ∃ n, doc.at? path = some (number n)

theorem Precedes.append_left {p q : Position} (h : Precedes p q) (front : Position) :
    Precedes (front ++ p) (front ++ q) := by
  obtain ⟨shared, i, j, p', q', rfl, rfl, lt⟩ := h
  exact ⟨front ++ shared, i, j, p', q', by simp, by simp, lt⟩

theorem Precedes.append_right {p q : Position} (h : Precedes p q) (r s : Position) :
    Precedes (p ++ r) (q ++ s) := by
  obtain ⟨shared, i, j, p', q', rfl, rfl, lt⟩ := h
  exact ⟨shared, i, j, p' ++ r, q' ++ s, by simp, by simp, lt⟩

theorem Precedes.ne {p q : Position} (h : Precedes p q) : p ≠ q := by
  obtain ⟨shared, i, j, p', q', rfl, rfl, lt⟩ := h
  simp [lt.ne]

theorem Ordered.once {found : List (Position × Json)} (ordered : Ordered found) :
    (found.map Prod.fst).Nodup := by
  rw [List.Nodup, List.pairwise_map]
  exact ordered.imp Precedes.ne

@[simp] theorem spelled_append (p q : Position) : spelled (p ++ q) = spelled p ++ spelled q :=
  List.filterMap_append

@[simp] theorem spelled_member (name : String) (p : Position) :
    spelled (.member name :: p) = name :: spelled p :=
  List.filterMap_cons_some rfl

@[simp] theorem spelled_item (i : Nat) (p : Position) : spelled (.item i :: p) = spelled p :=
  List.filterMap_cons_none rfl

theorem exists_items {json : Json} (h : json.isArray = true) : ∃ items, json = array items := by
  cases json with
  | array items => exact ⟨items, rfl⟩
  | _ => cases h

theorem isArray_of_get? {name : String} {json child : Json} (h : json.get? name = some child) :
    json.isArray = false := by
  cases json with
  | object members => rfl
  | _ => cases h

theorem child?_item {json : Json} (leaf : json.isArray = false) (i : Nat) :
    json.child? (.item i) = none := by
  cases json with
  | array items => cases leaf
  | _ => rfl

theorem valueAt?_append (p q : Position) (doc : Json) :
    doc.valueAt? (p ++ q) = (doc.valueAt? p).bind (valueAt? q) := by
  induction p generalizing doc with
  | nil => rfl
  | cons step p ih =>
      rw [List.cons_append, valueAt?, valueAt?, Option.bind_assoc]
      exact congrArg _ (funext ih)

theorem induction_on_arrays {motive : Json → Prop}
    (leaf : ∀ json, json.isArray = false → motive json)
    (array : ∀ items, (∀ item ∈ items, motive item) → motive (array items)) (json : Json) :
    motive json := by
  match json with
  | .array items =>
      refine array items fun item member => ?_
      have smaller := List.sizeOf_lt_of_mem member
      exact induction_on_arrays leaf array item
  | .null | .bool _ | .number _ | .string _ | .object _ => exact leaf _ rfl
termination_by sizeOf json
decreasing_by
  rw [Json.array.sizeOf_spec]
  omega

/-! ## Where a position goes -/

theorem leads_nil_iff {json : Json} (leaf : json.isArray = false) {position : Position}
    {value : Json} : Leads [] json position value ↔ position = [] ∧ value = json := by
  constructor
  · rintro ⟨spells, reached, -⟩
    cases position with
    | nil => exact ⟨rfl, (Option.some.inj reached).symm⟩
    | cons step rest =>
        cases step with
        | member name => simp at spells
        | item i => simp [valueAt?, child?_item leaf] at reached
  · rintro ⟨rfl, rfl⟩
    exact ⟨rfl, rfl, leaf⟩

theorem leads_array_iff {path : List String} {items : List Json} {position : Position}
    {value : Json} : Leads path (array items) position value ↔
      ∃ i item rest, items[i]? = some item ∧ position = .item i :: rest ∧
        Leads path item rest value := by
  constructor
  · rintro ⟨spells, reached, leaf⟩
    cases position with
    | nil =>
        cases reached
        cases leaf
    | cons step rest =>
        obtain ⟨item, here, below⟩ := Option.bind_eq_some_iff.1 reached
        cases step with
        | member name => cases here
        | item i =>
            rw [spelled_item] at spells
            exact ⟨i, item, rest, here, rfl, spells, below, leaf⟩
  · rintro ⟨i, item, rest, here, rfl, spells, below, leaf⟩
    refine ⟨by rwa [spelled_item], ?_, leaf⟩
    rw [valueAt?, child?, here, Option.bind_some, below]

theorem leads_cons_iff {name : String} {path : List String} {doc : Json} {position : Position}
    {value : Json} : Leads (name :: path) doc position value ↔
      ∃ front owner child rest, Leads [] doc front owner ∧ owner.get? name = some child ∧
        position = front ++ .member name :: rest ∧ Leads path child rest value := by
  constructor
  · rintro ⟨spells, reached, leaf⟩
    -- Steps into arrays come off the position one by one, up to its first member.
    induction position generalizing doc with
    | nil => cases spells
    | cons step rest ih =>
        obtain ⟨child, here, below⟩ := Option.bind_eq_some_iff.1 reached
        cases step with
        | member other =>
            rw [spelled_member, List.cons.injEq] at spells
            obtain ⟨rfl, spells⟩ := spells
            exact ⟨[], doc, child, rest, ⟨rfl, rfl, isArray_of_get? here⟩, here, rfl, spells,
              below, leaf⟩
        | item i =>
            rw [spelled_item] at spells
            obtain ⟨front, owner, last, rest, ⟨names, above, bare⟩, inside, rfl, leads⟩ :=
              ih spells below
            refine ⟨.item i :: front, owner, last, rest, ⟨?_, ?_, bare⟩, inside, rfl, leads⟩
            · rw [spelled_item, names]
            · rw [valueAt?, here, Option.bind_some, above]
  · rintro ⟨front, owner, child, rest, ⟨names, above, -⟩, inside, rfl, spells, below, leaf⟩
    refine ⟨by simp [names, spells], ?_, leaf⟩
    rw [valueAt?_append, above, Option.bind_some, valueAt?, child?, inside, Option.bind_some, below]

/-! ## All positions of a path -/

def under (front : Position) (found : List (Position × Json)) : List (Position × Json) :=
  found.map fun (position, value) => (front ++ position, value)

mutual

def locatedLeaves : Json → List (Position × Json)
  | array items => locatedLeavesFrom 0 items
  | json => [([], json)]

def locatedLeavesFrom (i : Nat) : List Json → List (Position × Json)
  | [] => []
  | item :: rest => under [.item i] (locatedLeaves item) ++ locatedLeavesFrom (i + 1) rest

end

def locatedIn (name : String) (search : Json → List (Position × Json)) (leaf : Position × Json) :
    List (Position × Json) :=
  (leaf.2.get? name).elim [] fun child => under (leaf.1 ++ [.member name]) (search child)

def located : List String → Json → List (Position × Json)
  | [], doc => doc.locatedLeaves
  | name :: path, doc => doc.locatedLeaves.flatMap (locatedIn name (located path))

theorem mem_under {front position : Position} {value : Json} {found : List (Position × Json)} :
    (position, value) ∈ under front found ↔
      ∃ rest, position = front ++ rest ∧ (rest, value) ∈ found := by
  simp only [under, List.mem_map, Prod.exists, Prod.mk.injEq]
  constructor
  · rintro ⟨rest, _, inside, rfl, rfl⟩
    exact ⟨rest, rfl, inside⟩
  · rintro ⟨rest, rfl, inside⟩
    exact ⟨rest, value, inside, rfl, rfl⟩

theorem map_under (front : Position) (found : List (Position × Json)) :
    (under front found).map Prod.snd = found.map Prod.snd := by
  simp [under]

theorem ordered_under {found : List (Position × Json)} (ordered : Ordered found)
    (front : Position) : Ordered (under front found) := by
  rw [under, Ordered, List.pairwise_map]
  exact ordered.imp fun before => before.append_left front

theorem mem_locatedIn {name : String} {search : Json → List (Position × Json)}
    {leaf : Position × Json} {position : Position} {value : Json} :
    (position, value) ∈ locatedIn name search leaf ↔
      ∃ child rest, leaf.2.get? name = some child ∧ position = leaf.1 ++ .member name :: rest ∧
        (rest, value) ∈ search child := by
  rw [locatedIn]
  cases leaf.2.get? name with
  | none => simp
  | some child => simp [mem_under]

theorem map_locatedIn (name : String) (search : Json → List (Position × Json))
    (leaf : Position × Json) : (locatedIn name search leaf).map Prod.snd =
      (leaf.2.get? name).toList.flatMap fun child => (search child).map Prod.snd := by
  rw [locatedIn]
  cases leaf.2.get? name with
  | none => rfl
  | some child => simp [map_under]

theorem locatedLeaves_of_leaf {json : Json} (leaf : json.isArray = false) :
    json.locatedLeaves = [([], json)] := by
  cases json with
  | array items => cases leaf
  | _ => rfl

theorem locatedLeavesFrom_eq (i : Nat) (items : List Json) :
    locatedLeavesFrom i items =
      (items.mapIdx fun j item => under [.item (i + j)] item.locatedLeaves).flatten := by
  induction items generalizing i with
  | nil => rfl
  | cons item items ih =>
      rw [locatedLeavesFrom, ih, List.mapIdx_cons, List.flatten_cons]
      simp only [Nat.add_zero, Nat.add_assoc, Nat.add_comm 1]

theorem locatedLeaves_array (items : List Json) : (array items).locatedLeaves =
    (items.mapIdx fun i item => under [.item i] item.locatedLeaves).flatten := by
  rw [locatedLeaves, locatedLeavesFrom_eq]
  simp only [Nat.zero_add]

theorem mem_locatedLeaves {json : Json} {position : Position} {value : Json} :
    (position, value) ∈ json.locatedLeaves ↔ Leads [] json position value := by
  induction json using induction_on_arrays generalizing position with
  | leaf json leaf =>
      rw [locatedLeaves_of_leaf leaf, List.mem_singleton, Prod.mk.injEq, leads_nil_iff leaf]
  | array items ih =>
      rw [locatedLeaves_array, leads_array_iff]
      simp only [List.mem_flatten, List.mem_mapIdx]
      constructor
      · rintro ⟨_, ⟨i, inside, rfl⟩, found⟩
        obtain ⟨rest, rfl, below⟩ := mem_under.1 found
        exact ⟨i, items[i], rest, List.getElem?_eq_getElem inside, rfl,
          (ih _ (List.getElem_mem inside)).1 below⟩
      · rintro ⟨i, item, rest, here, rfl, below⟩
        obtain ⟨inside, rfl⟩ := List.getElem?_eq_some_iff.1 here
        exact ⟨_, ⟨i, inside, rfl⟩,
          mem_under.2 ⟨rest, rfl, (ih _ (List.getElem_mem inside)).2 below⟩⟩

theorem ordered_locatedLeaves (json : Json) : Ordered json.locatedLeaves := by
  induction json using induction_on_arrays with
  | leaf json leaf =>
      rw [locatedLeaves_of_leaf leaf]
      exact List.pairwise_singleton _ _
  | array items ih =>
      rw [locatedLeaves_array, Ordered, List.pairwise_flatten]
      constructor
      · intro found member
        obtain ⟨i, inside, rfl⟩ := List.mem_mapIdx.1 member
        exact ordered_under (ih _ (List.getElem_mem inside)) _
      · rw [List.pairwise_iff_getElem]
        rintro i j _ _ lt ⟨p, _⟩ first ⟨q, _⟩ second
        rw [List.getElem_mapIdx, mem_under] at first second
        obtain ⟨p', rfl, -⟩ := first
        obtain ⟨q', rfl, -⟩ := second
        exact ⟨[], i, j, p', q', rfl, rfl, lt⟩

theorem leaves_of_leaf {json : Json} (leaf : json.isArray = false) : json.leaves = [json] := by
  cases json with
  | array items => cases leaf
  | _ => rfl

theorem map_locatedLeaves (json : Json) : json.locatedLeaves.map Prod.snd = json.leaves := by
  induction json using induction_on_arrays with
  | leaf json leaf => rw [locatedLeaves_of_leaf leaf, leaves_of_leaf leaf, List.map_singleton]
  | array items ih =>
      have all (items : List Json) : leavesOfAll items = (items.map leaves).flatten := by
        induction items with
        | nil => rfl
        | cons item items ih => rw [leavesOfAll, ih, List.map_cons, List.flatten_cons]
      rw [locatedLeaves_array, List.map_flatten, leaves, all]
      congr 1
      apply List.ext_getElem?
      intro i
      simp only [List.getElem?_map, List.getElem?_mapIdx, Option.map_map]
      refine Option.map_congr fun item here => ?_
      rw [Function.comp_apply, map_under, ih item (List.mem_of_getElem? here)]

theorem mem_located {path : List String} {doc : Json} {position : Position} {value : Json} :
    (position, value) ∈ located path doc ↔ Leads path doc position value := by
  induction path generalizing doc position with
  | nil => exact mem_locatedLeaves
  | cons name path ih =>
      rw [located, List.mem_flatMap, leads_cons_iff]
      constructor
      · rintro ⟨⟨front, owner⟩, above, found⟩
        obtain ⟨child, rest, inside, rfl, below⟩ := mem_locatedIn.1 found
        exact ⟨front, owner, child, rest, mem_locatedLeaves.1 above, inside, rfl, ih.1 below⟩
      · rintro ⟨front, owner, child, rest, above, inside, rfl, below⟩
        exact ⟨(front, owner), mem_locatedLeaves.2 above,
          mem_locatedIn.2 ⟨child, rest, inside, rfl, ih.2 below⟩⟩

theorem ordered_located (path : List String) (doc : Json) : Ordered (located path doc) := by
  induction path generalizing doc with
  | nil => exact ordered_locatedLeaves doc
  | cons name path ih =>
      rw [located, Ordered, List.pairwise_flatMap]
      constructor
      · intro leaf _
        rw [locatedIn]
        cases leaf.2.get? name with
        | none => exact .nil
        | some child => exact ordered_under (ih child) _
      · -- Whatever comes below two leaves, their own positions have parted before.
        refine (ordered_locatedLeaves doc).imp ?_
        rintro leaf leaf' before ⟨p, _⟩ first ⟨q, _⟩ second
        obtain ⟨_, rest, -, rfl, -⟩ := mem_locatedIn.1 first
        obtain ⟨_, rest', -, rfl, -⟩ := mem_locatedIn.1 second
        exact before.append_right _ _

theorem gathers_located (path : List String) (doc : Json) : Gathers path doc (located path doc) :=
  ⟨ordered_located path doc, (ordered_located path doc).once, fun _ _ => mem_located⟩

/-! ## The integers of a path -/

theorem foldl_descend_leaves (path : List String) (values : List Json) :
    path.foldl descend (values.flatMap leaves) =
      values.flatMap fun value => path.foldl descend value.leaves := by
  induction path generalizing values with
  | nil => rfl
  | cons name path ih =>
      rw [List.foldl_cons, descend, ih, List.filterMap_flatMap, List.flatMap_assoc]
      simp only [List.foldl_cons, descend, ih]

theorem map_located (path : List String) (doc : Json) :
    (located path doc).map Prod.snd = path.foldl descend doc.leaves := by
  induction path generalizing doc with
  | nil => exact map_locatedLeaves doc
  | cons name path ih =>
      -- One level of `descend` for all leaves is one step into each, by the lemma above.
      rw [located, List.map_flatMap, List.foldl_cons, descend, foldl_descend_leaves,
        ← map_locatedLeaves, List.filterMap_map, List.filterMap_eq_flatMap_toList, List.flatMap_assoc]
      simp only [map_locatedIn, ih, Function.comp_apply]

theorem signedBelow_eq (path : List String) (doc : Json) :
    signedBelow path doc = (located path doc).filterMap fun leaf => leaf.2.signed? := by
  rw [signedBelow, ← map_located, List.filterMap_map]
  rfl

/-! ## Where a walk along the path stops -/

theorem meetsArray_array (path : List String) (items : List Json) :
    MeetsArray path (array items) :=
  ⟨[], items, List.nil_prefix, rfl⟩

theorem not_meetsArray_nil {doc : Json} (leaf : doc.isArray = false) : ¬MeetsArray [] doc := by
  rintro ⟨before, items, front, met⟩
  obtain rfl := List.prefix_nil.1 front
  cases met
  cases leaf

theorem at?_cons (name : String) (path : List String) (doc : Json) :
    doc.at? (name :: path) = (doc.get? name).bind (at? path) := rfl

theorem meetsArray_cons_iff {name : String} {path : List String} {doc : Json}
    (leaf : doc.isArray = false) : MeetsArray (name :: path) doc ↔
      ∃ child, doc.get? name = some child ∧ MeetsArray path child := by
  constructor
  · rintro ⟨before, items, front, met⟩
    cases before with
    | nil =>
        cases met
        cases leaf
    | cons first before =>
        obtain ⟨rfl, rest⟩ := List.cons_prefix_cons.1 front
        obtain ⟨child, inside, below⟩ := Option.bind_eq_some_iff.1 met
        exact ⟨child, inside, before, items, rest, below⟩
  · rintro ⟨child, inside, before, items, front, met⟩
    refine ⟨name :: before, items, List.cons_prefix_cons.2 ⟨rfl, front⟩, ?_⟩
    rw [at?_cons, inside, Option.bind_some, met]

theorem endsAtNumber_cons_iff {name : String} {path : List String} {doc : Json} :
    EndsAtNumber (name :: path) doc ↔ ∃ child, doc.get? name = some child ∧ EndsAtNumber path child := by
  simp only [EndsAtNumber, at?_cons, Option.bind_eq_some_iff]
  constructor
  · rintro ⟨n, child, inside, met⟩
    exact ⟨child, inside, n, met⟩
  · rintro ⟨child, inside, n, met⟩
    exact ⟨n, child, inside, met⟩

theorem signedBelow_nil {doc : Json} (leaf : doc.isArray = false) :
    signedBelow [] doc = doc.signed?.toList := by
  rw [signedBelow, List.foldl_nil, leaves_of_leaf leaf]
  cases read : doc.signed? <;> simp [read]

theorem signedBelow_cons {name : String} {doc child : Json} (inside : doc.get? name = some child)
    (path : List String) : signedBelow (name :: path) doc = signedBelow path child := by
  rw [signedBelow, leaves_of_leaf (isArray_of_get? inside), List.foldl_cons, descend]
  simp [inside, signedBelow]

theorem signedAt?_nil {doc : Json} (leaf : doc.isArray = false) :
    signedAt? [] doc = doc.signed?.map ([·]) := by
  cases doc with
  | array items => cases leaf
  | _ => rfl

theorem signedAt?_cons {doc : Json} (leaf : doc.isArray = false) (name : String)
    (path : List String) : signedAt? (name :: path) doc = (doc.get? name).bind (signedAt? path) := by
  cases doc with
  | array items => cases leaf
  | _ => rfl

theorem signedAt?_array_iff {path : List String} {items : List Json} {found : List Int} :
    signedAt? path (array items) = some found ↔
      (MeetsArray path (array items) ∨ EndsAtNumber path (array items)) ∧
        found = signedBelow path (array items) := by
  rw [signedAt?, Option.some.injEq, eq_comm]
  exact ⟨fun same => ⟨.inl (meetsArray_array path items), same⟩, And.right⟩

theorem signedAt?_eq_some_iff {path : List String} {doc : Json} {found : List Int} :
    signedAt? path doc = some found ↔
      (MeetsArray path doc ∨ EndsAtNumber path doc) ∧ found = signedBelow path doc := by
  induction path generalizing doc with
  | nil =>
      cases shape : doc.isArray with
      | true =>
          obtain ⟨items, rfl⟩ := exists_items shape
          exact signedAt?_array_iff
      | false =>
          rw [signedAt?_nil shape, signedBelow_nil shape]
          simp only [not_meetsArray_nil shape, false_or]
          cases doc <;> simp [signed?, number?, EndsAtNumber, at?, eq_comm]
  | cons name path ih =>
      cases shape : doc.isArray with
      | true =>
          obtain ⟨items, rfl⟩ := exists_items shape
          exact signedAt?_array_iff
      | false =>
          rw [signedAt?_cons shape, meetsArray_cons_iff shape, endsAtNumber_cons_iff]
          cases inside : doc.get? name with
          | none => simp
          | some child => simp [ih, signedBelow_cons inside]

end Json

namespace ResponseBody

/-- If a walk from the top along the path meets an array or ends at a number, the integers are those of
the numbers at all positions that spell the path, each once and in order. If not, there are none. -/
theorem integers_gathered (body : Bytes) (path : List String) :
    (∃ doc found, Json.ofBytes? body = some doc ∧
        (Json.MeetsArray path doc ∨ Json.EndsAtNumber path doc) ∧ Json.Gathers path doc found ∧
        integers body path = .ok (found.filterMap fun leaf => leaf.2.signed?)) ∨
      (∀ doc, Json.ofBytes? body = some doc →
        ¬Json.MeetsArray path doc ∧ ¬Json.EndsAtNumber path doc) ∧
        integers body path = .error (.pathNotFound (Json.pathLabel path)) := by
  rw [integers]
  cases found : (Json.ofBytes? body).bind (Json.signedAt? path) with
  | some integers =>
      obtain ⟨doc, read, at?⟩ := Option.bind_eq_some_iff.1 found
      obtain ⟨stop, rfl⟩ := Json.signedAt?_eq_some_iff.1 at?
      exact .inl ⟨doc, Json.located path doc, read, stop, Json.gathers_located path doc,
        congrArg Except.ok (Json.signedBelow_eq path doc)⟩
  | none =>
      refine .inr ⟨fun doc read => ?_, rfl⟩
      rw [read, Option.bind_some] at found
      rw [← not_or]
      intro stop
      cases found.symm.trans (Json.signedAt?_eq_some_iff.2 ⟨stop, rfl⟩)

open Json in
example :
    signedAt? ["a", "b"] (object [("a", array [object [("b", number (.integer 1))],
      array [object [("b", array [number (.integer 2), string "x"])]], object [("c", null)],
      number (.integer 3)])]) = some [1, 2] := by
  decide

end ResponseBody

end CredentialRelay
