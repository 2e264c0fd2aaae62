import HttpRaftKv.Lib.Json
import Mathlib.Logic.Function.Basic

/-!
# The store of the games

What a store of game state offers, and the plain store that keeps one value for
each key.  The store of a run may be unavailable: a load fails without effect,
and a write is committed, is refused, or is committed although the caller is
told that it failed.
-/

namespace HttpRaftKv.Gomoku

inductive GameStateStoreStatus
  | ok
  | notFound
  | unavailable
deriving DecidableEq, Repr

/-- A value comes with the status `ok` only. -/
inductive GameStateStoreReadResult
  | ok (value : Json)
  | notFound
  | unavailable

abbrev Records := List (String × Json)

/-- The values of a store by key. -/
abbrev Values := String → Option Json

namespace Values

def empty : Values :=
  fun _ ↦ none

/-- The loop of `replace` over the records. -/
def replace (values : Values) (records : Records) : Values :=
  records.foldl (fun values record ↦ Function.update values record.1 (some record.2)) values

def load (values : Values) (key : String) : GameStateStoreReadResult :=
  match values key with
  | none => .notFound
  | some value => .ok value

@[simp] theorem replace_nil (values : Values) : values.replace [] = values := rfl

@[simp] theorem replace_cons (values : Values) (key : String) (value : Json) (records : Records) :
    values.replace ((key, value) :: records) =
      replace (Function.update values key (some value)) records := rfl

theorem replace_of_notMem (values : Values) {records : Records} {key : String}
    (h : key ∉ records.map Prod.fst) : values.replace records key = values key := by
  induction records generalizing values with
  | nil => rfl
  | cons record records ih =>
      obtain ⟨k, v⟩ := record
      rw [List.map_cons, List.mem_cons, not_or] at h
      rw [replace_cons, ih _ h.2, Function.update_of_ne h.1]

end Values

/-- What becomes of a write. -/
inductive WriteOutcome
  | committed
  | refused
  | ambiguous
deriving DecidableEq, Repr

/-- How the store behaves during one call of the service: which of the loads
fail, in the order in which the call makes them, and what becomes of its write. -/
structure Faults where
  load : ℕ → Bool
  write : WriteOutcome

/-- A store that works. -/
def Faults.none : Faults where
  load := fun _ ↦ false
  write := .committed

namespace Values

/-- A load that may fail. -/
def tryLoad (values : Values) (fails : Bool) (key : String) : GameStateStoreReadResult :=
  if fails then .unavailable else values.load key

/-- A write with its outcome. -/
def tryReplace (values : Values) (outcome : WriteOutcome) (records : Records) :
    GameStateStoreStatus × Values :=
  match outcome with
  | .committed => (.ok, values.replace records)
  | .refused => (.unavailable, values)
  | .ambiguous => (.unavailable, values.replace records)

end Values

/-- `MemoryGameStateStore` with its two switches for failing writes. -/
structure MemoryGameStateStore where
  values : Values
  failNextWrite : Bool
  writesBeforeFailure : Option ℕ

namespace MemoryGameStateStore

def create : MemoryGameStateStore where
  values := .empty
  failNextWrite := false
  writesBeforeFailure := none

def load (store : MemoryGameStateStore) (key : String) : GameStateStoreReadResult :=
  store.values.load key

def replace (store : MemoryGameStateStore) (records : Records) :
    GameStateStoreStatus × MemoryGameStateStore :=
  if store.failNextWrite || store.writesBeforeFailure.any (· < records.length) then
    (.unavailable, { store with failNextWrite := false, writesBeforeFailure := none })
  else
    (.ok, { store with
      values := store.values.replace records
      writesBeforeFailure := store.writesBeforeFailure.map (· - records.length) })

/-- What becomes of the write with the switches as they are. -/
def outcome (store : MemoryGameStateStore) (records : Records) : WriteOutcome :=
  if store.failNextWrite || store.writesBeforeFailure.any (· < records.length) then .refused
  else .committed

theorem load_eq (store : MemoryGameStateStore) (key : String) :
    store.load key = store.values.tryLoad false key := rfl

/-- The store refuses a write or commits it, and it tells the caller which. -/
theorem replace_eq (store : MemoryGameStateStore) (records : Records) :
    ((store.replace records).1, (store.replace records).2.values) =
      store.values.tryReplace (store.outcome records) records := by
  unfold replace outcome
  split_ifs with hfails
  · rfl
  · rfl

end MemoryGameStateStore

end HttpRaftKv.Gomoku
