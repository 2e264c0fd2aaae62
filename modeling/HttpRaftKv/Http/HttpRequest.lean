import HttpRaftKv.Lib.OrderedMap
import HttpRaftKv.Lib.Varint
import Mathlib.Data.Int.Notation

/-!
# Requests

A request as the parser fills it, field by field.  Texts are bytes.  The fields
that no parser and no handler reads are left out, and so are those that are set
only in the copy that the handlers get.
-/

namespace HttpRaftKv.Http

/-- The bytes of a text of ASCII characters. -/
def ascii (text : String) : Bytes :=
  text.toList.map fun c ↦ UInt8.ofNat c.toNat

/-- `isspace` in the C locale. -/
def isspace (b : UInt8) : Bool :=
  b = 32 || (9 ≤ b && b ≤ 13)

def isdigit (b : UInt8) : Bool :=
  48 ≤ b && b ≤ 57

/-- `std::stoi`, which ignores what stands behind the number and throws if there
is no number or one that does not fit into an `int`. -/
def stoi (text : Bytes) : Option ℤ :=
  let text := text.dropWhile isspace
  let sign : ℤ := if text.head? = some 45 then -1 else 1
  let text := if text.head? = some 45 ∨ text.head? = some 43 then text.tail else text
  let digits := text.takeWhile isdigit
  let value := sign * digits.foldl (fun (value : ℤ) b ↦ 10 * value + ((b.toNat : ℤ) - 48)) 0
  if digits = [] ∨ value < -2 ^ 31 ∨ 2 ^ 31 ≤ value then none else some value

/-- `map[key] = value`. -/
def assignField (entries : List (Bytes × Bytes)) (key value : Bytes) : List (Bytes × Bytes) :=
  (key, value) :: entries.filter fun entry ↦ entry.1 ≠ key

theorem lookup_assignField (entries : List (Bytes × Bytes)) (key value key' : Bytes) :
    (assignField entries key value).lookup key' =
      if key' = key then some value else entries.lookup key' := by
  rw [assignField, List.lookup_cons]
  by_cases h : key' = key
  · rw [if_pos h, h, beq_self_eq_true]
  · rw [if_neg h, beq_eq_false_iff_ne.mpr h]
    exact (OrderedMap.lookup_filter_ne entries key key').trans (if_neg h)

inductive Method
  | invalid
  | get
  | post
  | head
  | put
  | delete
  | options
deriving DecidableEq, Repr

structure HttpRequest where
  method : Method
  version : Bytes
  path : Bytes
  queryParameters : List (Bytes × Bytes)
  queryString : Bytes
  headers : List (Bytes × Bytes)
  content : Bytes
  contentLength : ℕ
deriving DecidableEq, Repr

namespace HttpRequest

/-- The constructor. -/
def create : HttpRequest where
  method := .invalid
  version := ascii "Unknown"
  path := []
  queryParameters := []
  queryString := []
  headers := []
  content := []
  contentLength := 0

/-- The method with the name; `HEAD` is not among them. -/
def methodOf (m : Bytes) : Method :=
  if m = ascii "GET" then .get
  else if m = ascii "POST" then .post
  else if m = ascii "PUT" then .put
  else if m = ascii "DELETE" then .delete
  else if m = ascii "OPTIONS" then .options
  else .invalid

/-- The assertion at the start of `setMethod` fails if there is no result. -/
def setMethod (r : HttpRequest) (m : Bytes) : Option (Bool × HttpRequest) :=
  if r.method ≠ .invalid then none
  else some (methodOf m ≠ .invalid, { r with method := methodOf m })

def setPath (r : HttpRequest) (path : Bytes) : HttpRequest :=
  { r with path := path }

/-- One pair of the query; one without `=` is left out. -/
def addQueryParameter (entries : List (Bytes × Bytes)) (pair : Bytes) : List (Bytes × Bytes) :=
  if 61 ∈ pair then
    assignField entries (pair.takeWhile (· ≠ 61)) (pair.dropWhile (· ≠ 61)).tail
  else entries

/-- The pairs of the query are separated by `&`. -/
def setQueryParameters (r : HttpRequest) (arguments : Bytes) : HttpRequest :=
  { r with
    queryString := arguments
    queryParameters := (arguments.splitOn 38).foldl addQueryParameter r.queryParameters }

def setVersion (r : HttpRequest) (version : Bytes) : HttpRequest :=
  { r with version := version }

/-- The value of a header without the blanks on its two sides. -/
def trim (text : Bytes) : Bytes :=
  ((text.dropWhile isspace).reverse.dropWhile isspace).reverse

/-- A header line, of which `key` stands before the colon and `text` behind it. -/
def addHeader (r : HttpRequest) (key text : Bytes) : HttpRequest :=
  { r with headers := assignField r.headers key (trim text) }

/-- A header that is missing has the empty value. -/
def getHeader (r : HttpRequest) (field : Bytes) : Bytes :=
  (r.headers.lookup field).getD []

/-- The conversion of an `int` to `uint64_t` included. -/
def setContentLength (r : HttpRequest) (length : ℤ) : HttpRequest :=
  { r with contentLength := (length % 2 ^ 64).toNat }

def setBody (r : HttpRequest) (body : Bytes) : HttpRequest :=
  { r with content := body }

/-- What `swap` leaves in the request; it does not touch the content and its
length. -/
def swap (r that : HttpRequest) : HttpRequest :=
  { that with
    content := r.content
    contentLength := r.contentLength }

end HttpRequest

end HttpRaftKv.Http
