import Mathlib
import CredentialRelay.Cache.Credentials

namespace CredentialRelay.Cache

inductive Use where
  | write (value : String)
  | read
  | remove
deriving DecidableEq, Repr

def held? (ttl : Nat) : Nat → List (Nat × Use) → Option String
  | _, [] => none
  | now, (time, use) :: earlier =>
    if isExpired ttl now time then none
    else
      match use with
      | .write value => some value
      | .read => held? ttl time earlier
      | .remove => none

def Kept (ttl : Nat) (now : Nat) (uses : List (Nat × Use)) (value : String) : Prop :=
  ∃ reads time earlier, uses = reads ++ (time, .write value) :: earlier ∧
    (∀ use ∈ reads, use.2 = .read) ∧
    (now :: (reads.map Prod.fst ++ [time])).IsChain fun next previous => next ≤ previous + ttl

theorem isExpired_eq_false {ttl now lastUse : Nat} :
    isExpired ttl now lastUse = false ↔ now ≤ lastUse + ttl := by
  rw [isExpired, decide_eq_false_iff_not, not_lt, Nat.sub_le_iff_le_add']

theorem isExpired_mono {ttl now later lastUse : Nat} (order : now ≤ later)
    (expired : isExpired ttl now lastUse = true) : isExpired ttl later lastUse = true := by
  simp only [isExpired, decide_eq_true_eq] at *
  omega

theorem held?_eq_some_iff {ttl now : Nat} {uses : List (Nat × Use)} {value : String} :
    held? ttl now uses = some value ↔ Kept ttl now uses value := by
  induction uses generalizing now with
  | nil => simp [held?, Kept]
  | cons entry earlier ih =>
      obtain ⟨time, use⟩ := entry
      unfold held?
      constructor
      · intro held
        split at held
        · cases held
        · next fresh =>
          rw [Bool.not_eq_true, isExpired_eq_false] at fresh
          cases use with
          | write first =>
              cases held
              exact ⟨[], time, earlier, rfl, by simp, by simpa using fresh⟩
          | read =>
              obtain ⟨reads, first, before, rfl, only, chain⟩ := ih.1 held
              refine ⟨(time, .read) :: reads, first, before, rfl, by simpa using only, ?_⟩
              rw [List.map_cons, List.cons_append, List.isChain_cons_cons]
              exact ⟨fresh, chain⟩
          | remove => cases held
      · rintro ⟨reads, first, before, cut, only, chain⟩
        cases reads with
        | nil =>
            cases cut
            rw [List.map_nil, List.nil_append, List.isChain_cons_cons] at chain
            simp [isExpired_eq_false.2 chain.1]
        | cons latest reads =>
            cases cut
            rw [List.map_cons, List.cons_append, List.isChain_cons_cons] at chain
            rw [List.forall_mem_cons] at only
            obtain rfl : use = .read := only.1
            simpa [isExpired_eq_false.2 chain.1] using
              ih.2 ⟨reads, first, before, rfl, only.2, chain.2⟩

theorem held?_eq_none_iff {ttl now : Nat} {uses : List (Nat × Use)} :
    held? ttl now uses = none ↔ ∀ value, ¬Kept ttl now uses value := by
  rw [Option.eq_none_iff_forall_ne_some]
  exact forall_congr' fun value => not_congr held?_eq_some_iff

theorem Kept.mem {ttl now : Nat} {uses : List (Nat × Use)} {value : String}
    (kept : Kept ttl now uses value) : ∃ time, (time, .write value) ∈ uses := by
  obtain ⟨reads, time, earlier, rfl, -⟩ := kept
  exact ⟨time, by simp⟩

namespace LocalCache

variable {cache : LocalCache} {key other : String} {now later : Nat} {uses : List (Nat × Use)}

def peek? (now : Nat) (key : String) (cache : LocalCache) : Option String :=
  ((cache.entries.get? key).filter fun entry => !isExpired cache.ttl now entry.lastUse).map (·.value)

def Follows (cache : LocalCache) (key : String) (now : Nat) (uses : List (Nat × Use)) : Prop :=
  ∀ later, now ≤ later → cache.peek? later key = held? cache.ttl later uses

theorem get_fst (now : Nat) (key : String) (cache : LocalCache) :
    (cache.get now key).1 = cache.peek? now key := by
  unfold get peek?
  split
  · next absent => simp [absent]
  · next entry found =>
    rw [found]
    split
    · next expired => simp [expired, Option.filter]
    · next fresh => simp [fresh, Option.filter]

theorem peek?_get (now : Nat) (key : String) (cache : LocalCache) :
    (cache.get now key).2.peek? now key = cache.peek? now key := by
  unfold get peek?
  split
  · rfl
  · next entry found =>
    rw [found]
    split
    · next expired =>
      rw [Table.get?_erase, if_pos rfl]
      simp [expired, Option.filter]
    · next fresh =>
      have again : isExpired cache.ttl now now = false := by simp [isExpired]
      rw [Table.get?_insert, if_pos rfl]
      simp [fresh, again, Option.filter]

theorem Follows.get_fst (follows : cache.Follows key now uses) :
    (cache.get now key).1 = held? cache.ttl now uses :=
  (LocalCache.get_fst now key cache).trans (follows now le_rfl)

theorem Follows.mono (follows : cache.Follows key now uses) (order : now ≤ later) :
    cache.Follows key later uses :=
  fun time after => follows time (order.trans after)

theorem follows_empty (ttl : Nat) (key : String) (now : Nat) : (empty ttl).Follows key now [] :=
  fun _ _ => rfl

@[simp] theorem ttl_get (now : Nat) (key : String) (cache : LocalCache) :
    (cache.get now key).2.ttl = cache.ttl := by
  unfold get
  split
  · rfl
  · split <;> rfl

theorem follows_set (now : Nat) (key value : String) (cache : LocalCache)
    (uses : List (Nat × Use)) :
    (cache.set now key value).Follows key now ((now, .write value) :: uses) := by
  intro later _
  rw [peek?, set, Table.get?_insert, if_pos rfl, held?]
  by_cases expired : isExpired cache.ttl later now
  · simp [expired, Option.filter]
  · simp [expired, Option.filter]

theorem Follows.get (follows : cache.Follows key now uses) :
    (cache.get now key).2.Follows key now ((now, .read) :: uses) := by
  intro later order
  have held := follows now le_rfl
  rw [held?, ttl_get, ← held]
  unfold LocalCache.get peek?
  split
  · next absent => simp [absent]
  · next entry found =>
    rw [found]
    split
    · next expired =>
      rw [Table.get?_erase, if_pos rfl]
      simp [expired, Option.filter]
    · next fresh =>
      rw [Table.get?_insert, if_pos rfl]
      by_cases expired : isExpired cache.ttl later now
      · simp [expired, Option.filter]
      · simp [expired, fresh, Option.filter]

theorem follows_remove (now : Nat) (key : String) (cache : LocalCache) (uses : List (Nat × Use)) :
    (cache.remove key).Follows key now ((now, .remove) :: uses) := by
  intro later _
  rw [peek?, remove, Table.get?_erase, if_pos rfl, held?]
  split <;> rfl

theorem Follows.set_of_ne (follows : cache.Follows key now uses) (ne : key ≠ other)
    (time : Nat) (value : String) : (cache.set time other value).Follows key now uses := by
  intro later order
  rw [peek?, set, Table.get?_insert, if_neg ne]
  exact follows later order

theorem Follows.get_of_ne (follows : cache.Follows key now uses) (ne : key ≠ other) (time : Nat) :
    (cache.get time other).2.Follows key now uses := by
  intro later order
  rw [ttl_get, ← follows later order]
  unfold LocalCache.get peek?
  split
  · rfl
  · split
    · rw [Table.get?_erase, if_neg ne]
    · rw [Table.get?_insert, if_neg ne]

theorem Follows.remove_of_ne (follows : cache.Follows key now uses) (ne : key ≠ other) :
    (cache.remove other).Follows key now uses := by
  intro later order
  rw [peek?, remove, Table.get?_erase, if_neg ne]
  exact follows later order

theorem Follows.sweep (follows : cache.Follows key now uses) :
    (cache.sweep now).Follows key now uses := by
  intro later order
  rw [LocalCache.sweep, ← follows later order, peek?, Table.get?_filter, peek?]
  cases found : cache.entries.get? key with
  | none => rfl
  | some entry =>
      by_cases expired : isExpired cache.ttl now entry.lastUse
      · simp [expired, isExpired_mono order expired, Option.filter]
      · simp [expired, Option.filter]

def stored? (key : String) (cache : LocalCache) : Option String :=
  (cache.entries.get? key).map (·.value)

theorem stored?_of_get_fst {value : String} (h : (cache.get now key).1 = some value) :
    cache.stored? key = some value := by
  rw [get_fst, peek?] at h
  obtain ⟨entry, found, same⟩ := Option.map_eq_some_iff.1 h
  rw [stored?, (Option.filter_eq_some_iff.1 found).1, Option.map_some, same]

theorem stored?_of_get {value : String} (h : (cache.get now other).2.stored? key = some value) :
    cache.stored? key = some value := by
  unfold LocalCache.get at h
  split at h
  · exact h
  · next entry found =>
    split at h
    · rw [stored?, Table.get?_erase] at h
      split at h
      · cases h
      · exact h
    · rw [stored?, Table.get?_insert] at h
      split at h
      · next same =>
        rw [stored?, same, found]
        exact h
      · exact h

theorem stored?_set (now : Nat) (key other value : String) (cache : LocalCache) :
    (cache.set now other value).stored? key =
      if key = other then some value else cache.stored? key := by
  rw [stored?, set, Table.get?_insert]
  split <;> rfl

theorem eq_of_stored?_set_empty {ttl now : Nat} {key other written value : String}
    (stored : ((LocalCache.empty ttl).set now other written).stored? key = some value) :
    value = written := by
  rw [stored?_set] at stored
  split at stored
  · exact (Option.some.inj stored).symm
  · cases stored

theorem stored?_of_sweep {value : String} (h : (cache.sweep now).stored? key = some value) :
    cache.stored? key = some value := by
  rw [stored?, LocalCache.sweep, Table.get?_filter] at h
  obtain ⟨entry, found, same⟩ := Option.map_eq_some_iff.1 h
  rw [stored?, (Option.filter_eq_some_iff.1 found).1, Option.map_some, same]

end LocalCache

namespace LocalCaches

def edit (credential : Credential) (f : LocalCache → LocalCache) (caches : LocalCaches) :
    LocalCaches :=
  caches.update credential (f (caches.cache credential))

theorem cache_edit (credential other : Credential) (f : LocalCache → LocalCache)
    (caches : LocalCaches) :
    (caches.edit credential f).cache other =
      if other = credential then f (caches.cache other) else caches.cache other := by
  unfold edit update
  dsimp only
  split
  · next same => rw [same]
  · rfl

theorem sweep_eq (credential : Credential) (caches : LocalCaches) :
    caches.sweep credential = caches.edit credential (LocalCache.sweep caches.now) := rfl

theorem edit_id (credential : Credential) (caches : LocalCaches) :
    caches.edit credential id = caches := by
  have each : (caches.edit credential id).cache = caches.cache := by
    funext other
    rw [cache_edit]
    split <;> rfl
  calc caches.edit credential id = ⟨caches.now, (caches.edit credential id).cache⟩ := rfl
    _ = caches := by rw [each]

theorem edit_in_turn (f : Credential → LocalCache → LocalCache) {first second third : Credential}
    (apart : [first, second, third].Nodup) (all : ∀ credential, credential ∈ [first, second, third])
    (caches : LocalCaches) :
    ((caches.edit first (f first)).edit second (f second)).edit third (f third) =
      { caches with cache := fun credential => f credential (caches.cache credential) } := by
  let edited := ((caches.edit first (f first)).edit second (f second)).edit third (f third)
  have each : edited.cache = fun credential => f credential (caches.cache credential) := by
    funext credential
    simp only [edited, cache_edit]
    simp only [List.nodup_cons, List.mem_cons, List.not_mem_nil, or_false, not_or] at apart
    have member := all credential
    simp only [List.mem_cons, List.not_mem_nil, or_false] at member
    rcases member with rfl | rfl | rfl
    · simp [apart]
    · simp [apart, Ne.symm apart.1.1]
    · simp [Ne.symm apart.1.2, Ne.symm apart.2.1]
  calc edited = ⟨caches.now, edited.cache⟩ := rfl
    _ = ⟨caches.now, fun credential => f credential (caches.cache credential)⟩ := by rw [each]

end LocalCaches

end CredentialRelay.Cache
