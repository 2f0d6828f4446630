import Mathlib
import CredentialRelay.Json.Reader

namespace CredentialRelay.Json

section Members

variable {name : String} {value : Json} {members : List (String × Json)} {member : String × Json}

abbrev Ascending (members : List (String × Json)) : Prop :=
  members.Pairwise fun member later => member.1 < later.1

theorem mem_insertMember (inside : member ∈ insertMember name value members) :
    member = (name, value) ∨ member ∈ members := by
  induction members with
  | nil => exact .inl (List.mem_singleton.1 inside)
  | cons first rest ih =>
      unfold insertMember at inside
      split at inside
      · exact List.mem_cons.1 inside
      · split at inside
        · exact (List.mem_cons.1 inside).imp id (List.mem_cons_of_mem _)
        · obtain rfl | later := List.mem_cons.1 inside
          · exact .inr List.mem_cons_self
          · exact (ih later).imp id (List.mem_cons_of_mem _)

theorem Ascending.insertMember (ascending : Ascending members) :
    Ascending (insertMember name value members) := by
  induction members with
  | nil => exact List.pairwise_singleton _ _
  | cons first rest ih =>
      obtain ⟨below, later⟩ := List.pairwise_cons.1 ascending
      unfold Json.insertMember
      split
      · next before =>
        refine List.pairwise_cons.2 ⟨fun member inside => ?_, ascending⟩
        obtain rfl | inside := List.mem_cons.1 inside
        · exact before
        · exact before.trans (below member inside)
      · next behind =>
        split
        · next same =>
          exact List.pairwise_cons.2 ⟨fun member inside => same ▸ below member inside, later⟩
        · next other =>
          refine List.pairwise_cons.2 ⟨fun member inside => ?_, ih later⟩
          obtain rfl | inside := mem_insertMember inside
          · exact lt_of_le_of_ne (not_lt.1 behind) (Ne.symm other)
          · exact below member inside

theorem insertMember_last (below : ∀ member ∈ members, member.1 < name) :
    insertMember name value members = members ++ [(name, value)] := by
  induction members with
  | nil => rfl
  | cons first rest ih =>
      obtain ⟨before, later⟩ := List.forall_mem_cons.1 below
      rw [insertMember, if_neg before.not_gt, if_neg before.ne', ih later, List.cons_append]

theorem foldl_insertMember {front : List (String × Json)}
    (ascending : Ascending (front ++ members)) :
    members.foldl (fun object (name, value) => insertMember name value object) front =
      front ++ members := by
  induction members generalizing front with
  | nil => rw [List.foldl_nil, List.append_nil]
  | cons member rest ih =>
      obtain ⟨name, value⟩ := member
      have below : ∀ earlier ∈ front, earlier.1 < name := fun earlier inside =>
        (List.pairwise_append.1 ascending).2.2 earlier inside _ List.mem_cons_self
      rw [List.append_cons] at ascending ⊢
      rw [List.foldl_cons]
      dsimp only
      rw [insertMember_last below, ih ascending]

theorem ofMembers_eq_object (ascending : Ascending members) :
    ofMembers members = .object members := by
  rw [ofMembers, foldl_insertMember (by rwa [List.nil_append]), List.nil_append]

/-- At most `room` arrays and objects are open at once, and each object is in order. -/
inductive Formed : Nat → Json → Prop
  | null (room : Nat) : Formed room .null
  | bool (room : Nat) (value : Bool) : Formed room (.bool value)
  | number (room : Nat) (value : Number) : Formed room (.number value)
  | string (room : Nat) (value : String) : Formed room (.string value)
  | array {room : Nat} {items : List Json} (all : ∀ item ∈ items, Formed room item) :
      Formed (room + 1) (.array items)
  | object {room : Nat} {members : List (String × Json)} (ascending : Ascending members)
      (all : ∀ member ∈ members, Formed room member.2) : Formed (room + 1) (.object members)

theorem Formed.ofMembers {room : Nat} (all : ∀ member ∈ members, Formed room member.2) :
    Formed (room + 1) (ofMembers members) := by
  have go (front : List (String × Json)) (ascending : Ascending front)
      (held : ∀ member ∈ front, Formed room member.2) :
      Formed (room + 1) (.object
        (members.foldl (fun object (name, value) => insertMember name value object) front)) := by
    induction members generalizing front with
    | nil => exact .object ascending held
    | cons member rest ih =>
        obtain ⟨first, later⟩ := List.forall_mem_cons.1 all
        refine ih later _ ascending.insertMember fun member inside => ?_
        obtain rfl | inside := mem_insertMember inside
        · exact first
        · exact held member inside
  exact go [] .nil nofun

end Members

namespace Reader

structure ReadsFormed (fuel : Nat) : Prop where
  value : ∀ {room : Nat} {cs rest : List Char} {json : Json},
    value fuel room cs = some (json, rest) → Formed room json
  items : ∀ {room : Nat} {cs rest : List Char} {found : List Json},
    items fuel room cs = some (found, rest) → ∀ item ∈ found, Formed room item
  members : ∀ {room : Nat} {cs rest : List Char} {found : List (String × Json)},
    members fuel room cs = some (found, rest) → ∀ member ∈ found, Formed room member.2

namespace ReadsFormed

variable {fuel room : Nat} {cs rest : List Char}

theorem value_succ (reads : ReadsFormed fuel) {json : Json}
    (read : Reader.value (fuel + 1) room cs = some (json, rest)) : Formed room json := by
  unfold Reader.value at read
  split at read
  · cases read
    exact .null room
  · cases read
    exact .bool room true
  · cases read
    exact .bool room false
  · obtain ⟨_, -, same⟩ := Option.map_eq_some_iff.1 read
    cases same
    exact .string room _
  · split at read
    · cases read
    · split at read
      · cases read
        exact .array nofun
      · obtain ⟨_, found, same⟩ := Option.map_eq_some_iff.1 read
        cases same
        exact .array (reads.items found)
  · split at read
    · cases read
    · split at read
      · cases read
        exact .object .nil nofun
      · obtain ⟨_, found, same⟩ := Option.map_eq_some_iff.1 read
        cases same
        exact .ofMembers (reads.members found)
  · obtain ⟨_, -, same⟩ := Option.map_eq_some_iff.1 read
    cases same
    exact .number room _

theorem items_succ (reads : ReadsFormed fuel) {found : List Json}
    (read : Reader.items (fuel + 1) room cs = some (found, rest)) :
    ∀ item ∈ found, Formed room item := by
  unfold Reader.items at read
  split at read
  · cases read
  · next item behind first =>
    split at read
    · cases read
      exact List.forall_mem_singleton.2 (reads.value first)
    · obtain ⟨_, later, same⟩ := Option.map_eq_some_iff.1 read
      cases same
      exact List.forall_mem_cons.2 ⟨reads.value first, reads.items later⟩
    · cases read

theorem members_succ (reads : ReadsFormed fuel) {found : List (String × Json)}
    (read : Reader.members (fuel + 1) room cs = some (found, rest)) :
    ∀ member ∈ found, Formed room member.2 := by
  unfold Reader.members at read
  split at read
  · split at read
    · cases read
    · split at read
      · split at read
        · cases read
        · next first =>
          split at read
          · cases read
            exact List.forall_mem_singleton.2 (reads.value first)
          · obtain ⟨_, later, same⟩ := Option.map_eq_some_iff.1 read
            cases same
            exact List.forall_mem_cons.2 ⟨reads.value first, reads.members later⟩
          · cases read
      · cases read
  · cases read

end ReadsFormed

theorem readsFormed (fuel : Nat) : ReadsFormed fuel := by
  -- The three readers call each other, and each call has one unit of fuel less.
  induction fuel with
  | zero => constructor <;> exact nofun
  | succ fuel ih => exact ⟨ih.value_succ, ih.items_succ, ih.members_succ⟩

end Reader

theorem formed_of_ofText? {text : String} {json : Json} (read : ofText? text = some json) :
    Formed Reader.maxDepth json := by
  unfold ofText? ofChars? at read
  split at read
  · next found =>
    split at read
    · cases read
      exact (Reader.readsFormed _).value found
    · cases read
  · cases read

end CredentialRelay.Json
