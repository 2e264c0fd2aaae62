import HttpRaftKv.Gomoku.GameStateStore
import HttpRaftKv.Lib.JsonText
import HttpRaftKv.Lib.Transducers

/-!
# The store behind the key-value service

All records of the games are the fields of one JSON object, the envelope, and its
text is the value of one key of the key-value service.  A load reads the envelope
and looks up a field; a replace reads it, sets the fields and writes it back.
Seen from outside, this is the plain store that fails at the same calls.
-/

namespace HttpRaftKv.Gomoku

inductive RaftGameStateClientStatus
  | ok
  | notFound
  | unavailable
deriving DecidableEq, Repr

structure RaftGameStateReadResult where
  status : RaftGameStateClientStatus
  value : String := ""

/-- The key-value service behind a client, as one register for each key. -/
abbrev RaftGameStateClient := String → Option String

/-- Which calls of the client fail during one call of the store. -/
structure ClientFaults where
  get : Bool
  put : Bool
deriving DecidableEq, Repr

namespace RaftGameStateClient

def get (client : RaftGameStateClient) (fails : Bool) (key : String) : RaftGameStateReadResult :=
  if fails then ⟨.unavailable, ""⟩
  else
    match client key with
    | none => ⟨.notFound, ""⟩
    | some value => ⟨.ok, value⟩

def put (client : RaftGameStateClient) (fails : Bool) (key value : String) :
    RaftGameStateClientStatus × RaftGameStateClient :=
  if fails then (.unavailable, client) else (.ok, Function.update client key (some value))

end RaftGameStateClient

namespace RaftGameStateStore

def stateEnvelopeKey : String :=
  "gomoku:state"

/-- The fields of a text that is parsed and `isStateEnvelope`. -/
def stateEnvelope? (text : JsonText) (value : String) : Option (List (String × Json)) :=
  match text.parse value with
  | some (.object fields) => some fields
  | _ => none

def load (text : JsonText) (client : RaftGameStateClient) (faults : ClientFaults) (key : String) :
    GameStateStoreReadResult :=
  let result := client.get faults.get stateEnvelopeKey
  match result.status with
  | .notFound => .notFound
  | .unavailable => .unavailable
  | .ok =>
      match stateEnvelope? text result.value with
      | none => .unavailable
      | some envelope =>
          match envelope.lookup key with
          | none => .notFound
          | some value => .ok value

/-- The part of `replace` behind the read of the envelope. -/
def store (text : JsonText) (client : RaftGameStateClient) (faults : ClientFaults)
    (envelope : List (String × Json)) (records : Records) :
    GameStateStoreStatus × RaftGameStateClient :=
  let envelope := records.foldl (fun envelope record ↦ Json.setField record.1 record.2 envelope)
    envelope
  let (status, client) := client.put faults.put stateEnvelopeKey (text.dump (.object envelope))
  (if status = .ok then .ok else .unavailable, client)

def replace (text : JsonText) (client : RaftGameStateClient) (faults : ClientFaults)
    (records : Records) : GameStateStoreStatus × RaftGameStateClient :=
  let stored := client.get faults.get stateEnvelopeKey
  match stored.status with
  | .notFound => store text client faults [] records
  | .unavailable => (.unavailable, client)
  | .ok =>
      match stateEnvelope? text stored.value with
      | none => (.unavailable, client)
      | some envelope => store text client faults envelope records

/-! ## Calls -/

/-- The values of a record are those that the JSON library can hold. -/
inductive Request
  | load (key : String)
  | replace (records : List (String × HeldJson))

def records (given : List (String × HeldJson)) : Records :=
  given.map fun record ↦ (record.1, record.2.val)

inductive Answer
  | loaded (result : GameStateStoreReadResult)
  | replaced (status : GameStateStoreStatus)

def step (text : JsonText) (client : RaftGameStateClient) (call : Request × ClientFaults) :
    Answer × RaftGameStateClient :=
  match call.1 with
  | .load key => (.loaded (load text client call.2 key), client)
  | .replace given =>
      let (status, client) := replace text client call.2 (records given)
      (.replaced status, client)

/-- A plain store, which is told at every call whether it fails. -/
def plainStep (values : Values) (call : Request × Bool) : Answer × Values :=
  match call.1 with
  | .load key => (.loaded (values.tryLoad call.2 key), values)
  | .replace given =>
      let (status, values) :=
        values.tryReplace (if call.2 then .refused else .committed) (records given)
      (.replaced status, values)

/-! ## The envelope -/

/-- The records in the envelope of a client: there are none if there is no
envelope, and there is no result if it cannot be read. -/
def fields? (text : JsonText) (client : RaftGameStateClient) : Option (List (String × Json)) :=
  match client stateEnvelopeKey with
  | none => some []
  | some value => stateEnvelope? text value

def contents (text : JsonText) (client : RaftGameStateClient) : Values :=
  fun key ↦ (fields? text client).bind fun fields ↦ fields.lookup key

/-- The call of the plain store fails if a call of the client fails that the
store needs, or if the envelope cannot be read. -/
def plainCall (readable : Bool) (call : Request × ClientFaults) : Request × Bool :=
  match call.1 with
  | .load _ => (call.1, call.2.get || !readable)
  | .replace _ => (call.1, call.2.get || call.2.put || !readable)

variable {text : JsonText} {client : RaftGameStateClient} {fields : List (String × Json)}

theorem held_of_stateEnvelope? {value : String} (h : stateEnvelope? text value = some fields) :
    (Json.object fields).held = true := by
  unfold stateEnvelope? at h
  split at h
  · next hparse =>
      cases h
      exact text.held_of_parse value _ hparse
  · exact absurd h (by simp)

theorem held_of_fields? (h : fields? text client = some fields) :
    (Json.object fields).held = true := by
  unfold fields? at h
  split at h
  · cases h
    rfl
  · exact held_of_stateEnvelope? h

/-- The envelope after a loop over records. -/
def merged (fields : List (String × Json)) (rs : Records) : List (String × Json) :=
  rs.foldl (fun fields record ↦ Json.setField record.1 record.2 fields) fields

theorem held_merged (h : (Json.object fields).held = true)
    (given : List (String × HeldJson)) :
    (Json.object (merged fields (records given))).held = true := by
  induction given generalizing fields with
  | nil => exact h
  | cons record given ih =>
      apply ih
      exact Json.held_setField record.2.property h

theorem lookup_merged (fields : List (String × Json)) (rs : Records) (key : String) :
    (merged fields rs).lookup key = Values.replace (fun key ↦ fields.lookup key) rs key := by
  induction rs generalizing fields with
  | nil => rfl
  | cons record rs ih =>
      obtain ⟨k, v⟩ := record
      have hset : (fun key ↦ (Json.setField k v fields).lookup key) =
          Function.update (fun key ↦ fields.lookup key) k (some v) := by
        funext key
        rw [Json.lookup_setField, Function.update_apply]
      change (merged (Json.setField k v fields) rs).lookup key = _
      rw [ih, hset, Values.replace_cons]

/-- A client that has been given the text of an object holds its fields. -/
theorem fields?_update (text : JsonText) (client : RaftGameStateClient)
    (h : (Json.object fields).held = true) :
    fields? text (Function.update client stateEnvelopeKey (some (text.dump (.object fields)))) =
      some fields := by
  simp [fields?, stateEnvelope?, text.parse_dump _ h]

/-! ## One call -/

theorem load_eq (text : JsonText) (client : RaftGameStateClient) (faults : ClientFaults)
    (key : String) :
    load text client faults key =
      (contents text client).tryLoad (faults.get || !(fields? text client).isSome) key := by
  cases hget : faults.get with
  | true => simp [load, RaftGameStateClient.get, hget, Values.tryLoad]
  | false =>
      cases hvalue : client stateEnvelopeKey with
      | none =>
          simp [load, RaftGameStateClient.get, hget, hvalue, contents, fields?, Values.tryLoad,
            Values.load]
      | some value =>
          cases henvelope : stateEnvelope? text value with
          | none =>
              simp [load, RaftGameStateClient.get, hget, hvalue, henvelope, fields?,
                Values.tryLoad]
          | some envelope =>
              cases hlookup : envelope.lookup key with
              | none =>
                  simp [load, RaftGameStateClient.get, hget, hvalue, henvelope, hlookup, contents,
                    fields?, Values.tryLoad, Values.load]
              | some value =>
                  simp [load, RaftGameStateClient.get, hget, hvalue, henvelope, hlookup, contents,
                    fields?, Values.tryLoad, Values.load]

theorem store_eq (text : JsonText) (client : RaftGameStateClient) (faults : ClientFaults)
    (fields : List (String × Json)) (rs : Records) :
    store text client faults fields rs =
      if faults.put then (.unavailable, client)
      else (.ok, Function.update client stateEnvelopeKey
        (some (text.dump (.object (merged fields rs))))) := by
  cases hput : faults.put with
  | true => simp [store, RaftGameStateClient.put, hput]
  | false => simp [store, RaftGameStateClient.put, hput, merged]

/-- A replace that succeeds merges the records into the envelope, and one that
fails leaves the client as it is. -/
theorem replace_eq (text : JsonText) (client : RaftGameStateClient) (faults : ClientFaults)
    (rs : Records) :
    replace text client faults rs =
      match fields? text client with
      | some fields =>
          if faults.get || faults.put then (.unavailable, client)
          else (.ok, Function.update client stateEnvelopeKey
            (some (text.dump (.object (merged fields rs)))))
      | none => (.unavailable, client) := by
  cases hget : faults.get with
  | true =>
      cases hfields : fields? text client with
      | none => simp [replace, RaftGameStateClient.get, hget]
      | some fields => simp [replace, RaftGameStateClient.get, hget]
  | false =>
      cases hvalue : client stateEnvelopeKey with
      | none => simp [replace, RaftGameStateClient.get, hget, hvalue, fields?, store_eq]
      | some value =>
          cases henvelope : stateEnvelope? text value with
          | none => simp [replace, RaftGameStateClient.get, hget, hvalue, henvelope, fields?]
          | some envelope =>
              simp [replace, RaftGameStateClient.get, hget, hvalue, henvelope, fields?, store_eq]

/-- What a replace makes of the client and of its records. -/
theorem replace_spec (text : JsonText) (client : RaftGameStateClient) (faults : ClientFaults)
    (given : List (String × HeldJson)) :
    ∃ status client', replace text client faults (records given) = (status, client') ∧
      (contents text client).tryReplace
        (if faults.get || faults.put || !(fields? text client).isSome then .refused
          else .committed) (records given) = (status, contents text client') ∧
      (fields? text client').isSome = (fields? text client).isSome ∧
      (status ≠ .ok → client' = client) ∧
      ∀ key, key ≠ stateEnvelopeKey → client' key = client key := by
  rw [replace_eq]
  cases hfields : fields? text client with
  | none => exact ⟨.unavailable, client, rfl, by simp [Values.tryReplace], by simp [hfields]⟩
  | some fields =>
      cases hfails : (faults.get || faults.put) with
      | true => exact ⟨.unavailable, client, rfl, by simp [Values.tryReplace], by simp [hfields]⟩
      | false =>
          have hmerged := fields?_update text client
            (held_merged (held_of_fields? hfields) given)
          have hbefore : contents text client = fun key ↦ fields.lookup key := by
            funext key
            rw [contents, hfields, Option.bind_some]
          have hafter : contents text (Function.update client stateEnvelopeKey
              (some (text.dump (.object (merged fields (records given)))))) =
              (contents text client).replace (records given) := by
            funext key
            rw [contents, hmerged, Option.bind_some, lookup_merged, hbefore]
          refine ⟨.ok, _, rfl, ?_, ?_, ?_, ?_⟩
          · simp [Values.tryReplace, hafter]
          · simp [hmerged]
          · simp
          · intro key hkey
            simp [hkey]

/-! ## All calls -/

/-- Whatever the client holds at first and whichever of its calls fail, the store
answers as a plain store with the records of the envelope that fails at the same
calls.  A replace that succeeds has replaced the given records and no other; one
that fails has changed nothing; and the other keys of the client stay as they
are. -/
theorem answers_eq_plain (text : JsonText) (client : RaftGameStateClient) :
    (∀ calls, Transducers.answers (step text) client calls =
      Transducers.answers plainStep (contents text client)
        (calls.map (plainCall (fields? text client).isSome))) ∧
      ∀ faults given, ∃ status client',
        replace text client faults (records given) = (status, client') ∧
        (status = .ok → contents text client' = (contents text client).replace (records given)) ∧
        (status ≠ .ok → client' = client) ∧
        (∀ key ∉ given.map Prod.fst, contents text client' key = contents text client key) ∧
        ∀ key, key ≠ stateEnvelopeKey → client' key = client key := by
  refine ⟨fun calls ↦ ?_, fun faults given ↦ ?_⟩
  · apply Transducers.answers_eq_answers_map
      (R := fun client' values ↦ values = contents text client' ∧
        (fields? text client').isSome = (fields? text client).isSome)
    · rintro client' _ ⟨request, faults⟩ ⟨rfl, hreadable⟩
      cases request with
      | load key => simp [step, plainStep, plainCall, load_eq, hreadable]
      | replace given =>
          obtain ⟨status, client'', hreplace, hplain, -⟩ := replace_spec text client' faults given
          rw [hreadable] at hplain
          simp only [step, plainStep, plainCall, hreplace]
          exact congrArg Answer.replaced (Prod.ext_iff.mp hplain).1.symm
    · rintro client' _ ⟨request, faults⟩ ⟨rfl, hreadable⟩
      cases request with
      | load key => exact ⟨rfl, hreadable⟩
      | replace given =>
          obtain ⟨status, client'', hreplace, hplain, hkept, -⟩ :=
            replace_spec text client' faults given
          rw [hreadable] at hplain hkept
          simp only [step, plainStep, plainCall, hreplace]
          exact ⟨(Prod.ext_iff.mp hplain).2, hkept⟩
    · exact ⟨rfl, rfl⟩
  · obtain ⟨status, client', hreplace, hplain, -, hfailed, hother⟩ :=
      replace_spec text client faults given
    have hcontents : status = .ok →
        contents text client' = (contents text client).replace (records given) := by
      rintro rfl
      split at hplain
      · exact absurd hplain (by simp [Values.tryReplace])
      · exact (Prod.ext_iff.mp hplain).2.symm
    refine ⟨status, client', hreplace, hcontents, hfailed, fun key hkey ↦ ?_, hother⟩
    by_cases hok : status = .ok
    · have hkeys : (records given).map Prod.fst = given.map Prod.fst := by
        simp [records]
      rw [hcontents hok, Values.replace_of_notMem _ (hkeys ▸ hkey)]
    · rw [hfailed hok]

end RaftGameStateStore

end HttpRaftKv.Gomoku
