import HttpRaftKv.Kv.Server
import HttpRaftKv.Lib.TextFormat

/-!
# The archives of a server

The dump of a skip list, the snapshot of a server and a command as text
formats.  The instances are scoped, as the one of a Raft node is.
-/

namespace HttpRaftKv.Kv.Archive

open TextFormat

def skipListDump : TextFormat (SkipListDump String String) :=
  (text.list.pair text.list).via (fun dumper ↦ (dumper.keyDumpVt, dumper.valDumpVt))
    (fun (keys, values) ↦ some ⟨keys, values⟩) fun _ ↦ rfl

/-- The pairs of a table are written in the order in which it holds them. -/
def encodeTable (table : LastRequestId) : List (String × ℤ) :=
  table.entries.map fun entry ↦ (entry.1, entry.2)

def decodeTable (entries : List (String × ℤ)) : Option LastRequestId :=
  if h : (entries.map Prod.fst).Nodup then
    some ⟨entries.map fun entry ↦ ⟨entry.1, entry.2⟩, by
      rw [List.NodupKeys, List.keys, List.map_map]
      exact h⟩
  else
    none

theorem decodeTable_encodeTable (table : LastRequestId) :
    decodeTable (encodeTable table) = some table := by
  have hnodup : ((encodeTable table).map Prod.fst).Nodup := by
    rw [encodeTable, List.map_map]
    exact table.nodupKeys
  rw [decodeTable, dif_pos hnodup]
  congr 1
  apply AList.ext
  simp [encodeTable, List.map_map, Function.comp_def]

def kvSnapshot : TextFormat KvSnapshot :=
  (text.pair ((text.pair int).list.via encodeTable decodeTable decodeTable_encodeTable)).via
    (fun snapshot ↦ (snapshot.serializedKVData, snapshot.lastRequestId))
    (fun (data, table) ↦ some ⟨data, table⟩) fun _ ↦ rfl

def op : TextFormat Op :=
  (text.pair (text.pair (text.pair (text.pair int)))).via
    (fun op ↦ (op.operation, op.key, op.value, op.clientId, op.requestId))
    (fun (operation, key, value, clientId, requestId) ↦
      some ⟨operation, key, value, clientId, requestId⟩) fun _ ↦ rfl

scoped instance : TextArchive (SkipListDump String String) :=
  skipListDump.archive

scoped instance : LawfulTextArchive (SkipListDump String String) :=
  skipListDump.lawful_archive

scoped instance : TextArchive KvSnapshot :=
  kvSnapshot.archive

scoped instance : LawfulTextArchive KvSnapshot :=
  kvSnapshot.lawful_archive

scoped instance : TextArchive Op :=
  op.archive

scoped instance : LawfulTextArchive Op :=
  op.lawful_archive

end HttpRaftKv.Kv.Archive
