import CredentialRelay.Cache.Credentials
import CredentialRelay.Cache.FaultyStore
import CredentialRelay.Cache.Station

/-!
Several caches over one store, in a time that moves only when it is told to or when a call has to
wait: for the deletion that a sweep has under way, or for a deletion of its own.
-/

namespace CredentialRelay.Cache

structure Timeline where
  now : Nat
  store : FaultyStore
  stations : List Station

namespace Timeline

def runStations (horizon : Nat) (taken : Option Nat) :
    (place : Nat) → List Station → FaultyStore → List Station × FaultyStore
  | _, [], store => ([], store)
  | place, station :: rest, store =>
    let (station, store) := station.run horizon store.deleteDelay (taken = some place) store
    let (rest, store) := runStations horizon taken (place + 1) rest store
    (station :: rest, store)

def moveTo (time : Nat) (taken : Option Nat) (timeline : Timeline) : Timeline :=
  let (stations, store) := runStations time taken 0 timeline.stations timeline.store
  { now := time, store, stations }

def advance (span : Nat) (timeline : Timeline) : Timeline :=
  timeline.moveTo (timeline.now + span) none

def setStation (place : Nat) (station : Station) (timeline : Timeline) : Timeline :=
  { timeline with stations := timeline.stations.set place station }

def setCache (place : Nat) (cache : AnyCache) (timeline : Timeline) : Timeline :=
  match timeline.stations[place]? with
  | none => timeline
  | some station => timeline.setStation place { station with cache }

def cache? (place : Nat) (timeline : Timeline) : Option AnyCache :=
  timeline.stations[place]?.map (·.cache)

def acquire (place : Nat) (timeline : Timeline) : Timeline :=
  match timeline.stations[place]? with
  | none => timeline
  | some station =>
    let time := max timeline.now (station.freeAt timeline.now)
    let (station, store) := station.handOver timeline.store
    ({ timeline with store }.setStation place station).moveTo time (some place)

def yield (place : Nat) (timeline : Timeline) : Timeline :=
  match timeline.stations[place]? with
  | none => timeline
  | some station =>
    (timeline.setStation place
      (station.resume timeline.now timeline.store.deleteDelay)).moveTo timeline.now none

def getField (key field : String) (timeline : Timeline) :
    Except RelayError (Option String) × Timeline :=
  let (result, store) := FieldStore.getField key field timeline.store
  (result, { timeline with store })

def setField (key field value : String) (timeline : Timeline) :
    Except RelayError Unit × Timeline :=
  let (result, store) := FieldStore.setField key field value timeline.store
  (result, { timeline with store })

def deleteField (key field : String) (taken : Option Nat) (timeline : Timeline) :
    Except RelayError Unit × Timeline :=
  let timeline := timeline.moveTo (timeline.now + timeline.store.deleteDelay) taken
  let (result, store) := FieldStore.deleteField key field timeline.store
  (result, { timeline with store })

/-- A call on the shared cache at `place`: refused if the cache has a fault when the call comes,
else made when the cache is free. -/
def onShared {α : Type} [Inhabited α] (place : Nat) (cache : SharedCache)
    (call : SharedCache → Timeline → Except RelayError α × Timeline) (timeline : Timeline) :
    Except RelayError α × Timeline :=
  match cache.refusal? with
  | some error => (.error error, timeline)
  | none =>
    let timeline := timeline.acquire place
    match timeline.cache? place with
    | some (.shared cache) =>
      let (result, timeline) := call cache timeline
      (result, timeline.yield place)
    | _ => (.ok default, timeline)

def get (place : Nat) (key : String) (timeline : Timeline) :
    Except RelayError (Option String) × Timeline :=
  match timeline.cache? place with
  | none => (.ok none, timeline)
  | some (.local cache) =>
    let (value, cache) := cache.get timeline.now key
    (.ok value, timeline.setCache place (.local cache))
  | some (.shared cache) =>
    timeline.onShared place cache fun cache timeline =>
      let (result, cache, store) := cache.read timeline.now key timeline.store
      (result, { timeline with store }.setCache place (.shared cache))

def set (place : Nat) (key value : String) (timeline : Timeline) :
    Except RelayError Unit × Timeline :=
  match timeline.cache? place with
  | none => (.ok (), timeline)
  | some (.local cache) =>
    (.ok (), timeline.setCache place (.local (cache.set timeline.now key value)))
  | some (.shared cache) =>
    timeline.onShared place cache fun cache timeline =>
      let (result, cache, store) := cache.write timeline.now key value timeline.store
      (result, { timeline with store }.setCache place (.shared cache))

def remove (place : Nat) (key : String) (timeline : Timeline) :
    Except RelayError Unit × Timeline :=
  match timeline.cache? place with
  | none => (.ok (), timeline)
  | some (.local cache) => (.ok (), timeline.setCache place (.local (cache.remove key)))
  | some (.shared cache) =>
    timeline.onShared place cache fun cache timeline =>
      (timeline.setCache place (.shared (cache.forget key))).deleteField key cache.field
        (some place)

def setMany (place : Nat) (value : String) :
    List String → Timeline → Except RelayError Unit × Timeline
  | [], timeline => (.ok (), timeline)
  | key :: keys, timeline =>
    match timeline.set place key value with
    | (.ok (), timeline) => setMany place value keys timeline
    | failed => failed

def sizes (timeline : Timeline) : List Nat := timeline.stations.map (·.size)

def place : Credential → Nat
  | .sessionCookie => 0
  | .accessToken => 1
  | .problem => 2

def kinds : List Credential := [.sessionCookie, .accessToken, .problem]

instance : CredentialCaches Timeline where
  lookup credential identity := get (place credential) identity
  record credential identity value := set (place credential) identity value

def ofCaches (caches : List (AnyCache × Nat)) : Timeline :=
  { now := 0, store := .empty, stations := caches.map fun (cache, period) => .create cache period }

def ofLocal (ttl period : Nat) : Timeline :=
  ofCaches (kinds.map fun _ => (.local (.empty ttl), period))

def ofShared (ttl period : Nat) : Timeline :=
  ofCaches (kinds.map fun kind => (.shared (.empty kind.field ttl), period))

end Timeline

end CredentialRelay.Cache
