import HttpRaftKv.Lib.Archive
import HttpRaftKv.Lib.LinkedCells
import Mathlib.Logic.Function.Basic
import Mathlib.Order.Lattice

/-!
# The skip list

The nodes of a skip list and its operations, each of which runs with the mutex
of the list held.  A pointer is an address in the heap of the list; the null
pointer is `none`.  A read through a pointer that is null or points to a
deleted node, and an access outside an array, have no defined result, so an
operation that does one returns `none`; so does an operation whose archive
throws.  What the generator of `get_random_level` draws is an argument: `heads`
is the number of odd draws before the first even one.  The texts that the
operations print are left out.
-/

namespace HttpRaftKv

structure SkipNode (K V : Type) where
  key : K
  value : V
  nodeLevel : ℕ
  forward : List (Option ℕ)
deriving Repr

/-- `fresh` is the address that the next allocated node gets. -/
structure SkipList (K V : Type) where
  maxLevel : ℕ
  skipListLevel : ℕ
  header : ℕ
  elementCount : ℕ
  heap : ℕ → Option (SkipNode K V)
  fresh : ℕ

/-- What `dump_file` archives. -/
structure SkipListDump (K V : Type) where
  keyDumpVt : List K
  valDumpVt : List V
deriving DecidableEq, Repr

namespace SkipList

variable {K V : Type}

/-- A node with a null pointer on each of its levels. -/
def newNode (key : K) (value : V) (level : ℕ) : SkipNode K V where
  key := key
  value := value
  nodeLevel := level
  forward := List.replicate (level + 1) none

def create [Inhabited K] [Inhabited V] (maxLevel : ℕ) : SkipList K V where
  maxLevel := maxLevel
  skipListLevel := 0
  header := 0
  elementCount := 0
  heap := Function.update (fun _ ↦ none) 0 (some (newNode default default maxLevel))
  fresh := 1

def createNode (s : SkipList K V) (key : K) (value : V) (level : ℕ) : ℕ × SkipList K V :=
  (s.fresh, { s with
    heap := Function.update s.heap s.fresh (some (newNode key value level))
    fresh := s.fresh + 1 })

def getRandomLevel (s : SkipList K V) (heads : ℕ) : ℕ :=
  let k := 1 + heads
  if k < s.maxLevel then k else s.maxLevel

/-- Read the pointer `forward[i]` of a node. -/
def forward (s : SkipList K V) (a i : ℕ) : Option (Option ℕ) := do
  let node ← s.heap a
  node.forward[i]?

/-- Write the pointer `forward[i]` of a node. -/
def setForward (s : SkipList K V) (a i : ℕ) (next : Option ℕ) : Option (SkipList K V) := do
  let node ← s.heap a
  let pointers ← store node.forward i next
  return { s with heap := Function.update s.heap a (some { node with forward := pointers }) }

variable [LinearOrder K]

/-- The inner loop of a search: go on while the next key on level `i` is
smaller.  Each round passes one element, so the number of elements bounds the
rounds. -/
def advance (s : SkipList K V) (key : K) (i : ℕ) : ℕ → ℕ → Option ℕ
  | 0, _ => none
  | rounds + 1, current => do
      match ← s.forward current i with
      | none => return current
      | some next =>
          let node ← s.heap next
          if node.key < key then s.advance key i rounds next else return current

/-- One round of the loop that fills `update`. -/
def descendLevel (s : SkipList K V) (key : K) (found : ℕ × List (Option ℕ)) (i : ℕ) :
    Option (ℕ × List (Option ℕ)) := do
  let current ← s.advance key i (s.elementCount + 1) found.1
  let update ← store found.2 i (some current)
  return (current, update)

/-- The loop of `insert_element` and of `delete_element` that fills `update`,
from the highest level down. -/
def descend (s : SkipList K V) (key : K) : Option (ℕ × List (Option ℕ)) :=
  (List.range (s.skipListLevel + 1)).reverse.foldlM (s.descendLevel key)
    (s.header, List.replicate (s.maxLevel + 1) none)

/-- Whether a pointer is not null and its node has the key. -/
def hasKey (s : SkipList K V) (current : Option ℕ) (key : K) : Option Bool :=
  match current with
  | none => some false
  | some a => do
      let node ← s.heap a
      return decide (node.key = key)

/-- Read a slot of `update`; the null pointer there is never followed. -/
def target (update : List (Option ℕ)) (i : ℕ) : Option ℕ := do
  (← update[i]?)

/-- Link the node `x` on level `i`. -/
def link (x : ℕ) (update : List (Option ℕ)) (s : SkipList K V) (i : ℕ) :
    Option (SkipList K V) := do
  let a ← target update i
  let next ← s.forward a i
  let s ← s.setForward x i next
  s.setForward a i (some x)

/-- The result is `1` if the key exists, which leaves the list as it is. -/
def insertElement (s : SkipList K V) (key : K) (value : V) (heads : ℕ) :
    Option (ℕ × SkipList K V) := do
  let (current, update) ← s.descend key
  let next ← s.forward current 0
  if ← s.hasKey next key then
    return (1, s)
  let level := s.getRandomLevel heads
  let update ← (List.range' (s.skipListLevel + 1) (level - s.skipListLevel)).foldlM
    (fun update i ↦ store update i (some s.header)) update
  let s := { s with skipListLevel := max s.skipListLevel level }
  let (x, s) := s.createNode key value level
  let s ← (List.range' 0 (level + 1)).foldlM (link x update) s
  return (0, { s with elementCount := s.elementCount + 1 })

/-- Take the node `x` out of its levels, from `i` on.  The loop stops at the
first level whose next node is another one. -/
def unlink (x : ℕ) (update : List (Option ℕ)) :
    ℕ → ℕ → SkipList K V → Option (SkipList K V)
  | 0, _, s => some s
  | levels + 1, i, s => do
      let a ← target update i
      let next ← s.forward a i
      if next ≠ some x then
        return s
      let behind ← s.forward x i
      let s ← s.setForward a i behind
      unlink x update levels (i + 1) s

/-- Remove levels which have no elements. -/
def dropLevels (s : SkipList K V) : ℕ → Option ℕ
  | 0 => some 0
  | level + 1 => do
      match ← s.forward s.header (level + 1) with
      | none => s.dropLevels level
      | some _ => return level + 1

def deleteElement (s : SkipList K V) (key : K) : Option (SkipList K V) := do
  let (current, update) ← s.descend key
  match ← s.forward current 0 with
  | none => return s
  | some x =>
      if ← s.hasKey (some x) key then
        let s ← unlink x update (s.skipListLevel + 1) 0 s
        let level ← s.dropLevels s.skipListLevel
        return { s with
          skipListLevel := level
          heap := Function.update s.heap x none
          elementCount := s.elementCount - 1 }
      else
        return s

/-- The value of the key, or `none` if there is no such key. -/
def searchElement (s : SkipList K V) (key : K) : Option (Option V) := do
  let current ← (List.range (s.skipListLevel + 1)).reverse.foldlM
    (fun current i ↦ s.advance key i (s.elementCount + 1) current) s.header
  match ← s.forward current 0 with
  | none => return none
  | some a =>
      let node ← s.heap a
      return if node.key = key then some node.value else none

def insertSetElement (s : SkipList K V) (key : K) (value : V) (heads : ℕ) :
    Option (SkipList K V) := do
  let found ← s.searchElement key
  let s ← if found.isSome then s.deleteElement key else pure s
  let (_, s) ← s.insertElement key value heads
  return s

/-- The keys and the values in the order of level 0, from a node on. -/
def dumpFrom (s : SkipList K V) : ℕ → Option ℕ → SkipListDump K V → Option (SkipListDump K V)
  | 0, _, _ => none
  | _ + 1, none, dumper => some dumper
  | rounds + 1, some a, dumper => do
      let node ← s.heap a
      let next ← s.forward a 0
      s.dumpFrom rounds next
        ⟨dumper.keyDumpVt ++ [node.key], dumper.valDumpVt ++ [node.value]⟩

def dump (s : SkipList K V) : Option (SkipListDump K V) := do
  let first ← s.forward s.header 0
  s.dumpFrom (s.elementCount + 1) first ⟨[], []⟩

def dumpFile [TextArchive (SkipListDump K V)] (s : SkipList K V) : Option String := do
  let dumper ← s.dump
  return TextArchive.save dumper

/-- The values of the dump are not read: every key is inserted as its own value.
So the source compiles only where keys are values. -/
def loadKey (dumper : SkipListDump K K) (heads : ℕ → ℕ) (s : SkipList K K) (i : ℕ) :
    Option (SkipList K K) := do
  let key ← dumper.keyDumpVt[i]?
  let (_, s) ← s.insertElement key key (heads i)
  return s

def loadFile [TextArchive (SkipListDump K K)] (s : SkipList K K) (dumpStr : String)
    (heads : ℕ → ℕ) : Option (SkipList K K) := do
  if dumpStr = "" then
    return s
  let dumper : SkipListDump K K ← TextArchive.load dumpStr
  (List.range' 0 dumper.keyDumpVt.length).foldlM (loadKey dumper heads) s

end SkipList

end HttpRaftKv
