import Agora.Query.Access

/-!
# The search projection

`Projection.synchronize` brings a search index in line with the index of the canvases. It scans the
source page by page, compares the fingerprint of each document with the one its entry carries, and
writes the entries that differ, with vectors that are encoded four texts at a time; then it scans
the projection and deletes the entries whose documents are confirmed missing.

Everything a run meets is given by an
`Elasticsearch`: what the source holds at each request, how each request goes, what the searches
answer. A request that fails may have been carried out all the same. A run is cut off when it has
made as many searches in a scan as its limit allows.
-/

namespace Agora

namespace Search

/-- The fields of a canvas that are searched. -/
structure Document where
  canvasName : Option String
  canvasId : Option ℤ
  description : Option String
  deriving DecidableEq

/-- What a fingerprint is taken of. -/
structure Content where
  canvasName : String
  description : String
  canvasId : Option ℤ
  modelRevision : String
  deriving DecidableEq

/-- A document of the projection, with its vector in `ν`. -/
structure Entry (ν : Type) where
  canvasName : Option String
  canvasId : Option ℤ
  description : Option String
  fingerprint : String
  embedding : ν
  modelRevision : String
  updatedAt : ℕ

/-- An index: its documents, each under an id of its own. -/
structure Index (α : Type) where
  documents : List (String × α)
  nodup : (documents.map Prod.fst).Nodup

variable {ν α β : Type}

namespace Index

def empty : Index α := ⟨[], List.nodup_nil⟩

def find (p : Index α) (id : String) : Option α := p.documents.lookup id

def set (p : Index α) (id : String) (value : α) : Index α :=
  ⟨Assoc.set id value p.documents, Assoc.nodup_set p.nodup id value⟩

def erase (p : Index α) (id : String) : Index α :=
  ⟨Assoc.erase id p.documents, Assoc.nodup_erase p.nodup id⟩

/-- The same ids with a part of each document. -/
def select (f : α → β) (p : Index α) : Index β :=
  ⟨p.documents.map fun d ↦ (d.1, f d.2), by simpa [Function.comp_def] using p.nodup⟩

@[simp] theorem find_empty (id : String) : (empty : Index α).find id = none := rfl

theorem find_set (p : Index α) (id id' : String) (value : α) :
    (p.set id value).find id' = if id = id' then some value else p.find id' :=
  Assoc.lookup_set ..

theorem find_erase (p : Index α) (id id' : String) :
    (p.erase id).find id' = if id = id' then none else p.find id' :=
  Assoc.lookup_erase ..

theorem erase_of_find {p : Index α} {id : String} (h : p.find id = none) : p.erase id = p := by
  obtain ⟨documents, nodup⟩ := p
  rw [erase, mk.injEq]
  exact Assoc.erase_of_lookup h

@[simp] theorem find_select (f : α → β) (p : Index α) (id : String) :
    (p.select f).find id = (p.find id).map f := by
  change (p.documents.map fun d ↦ (d.1, f d.2)).lookup id = (p.documents.lookup id).map f
  induction p.documents with
  | nil => rfl
  | cons d documents ih =>
    rcases eq_or_ne d.1 id with rfl | hd
    · rw [List.map_cons, List.lookup_cons_self, List.lookup_cons_self]
      rfl
    · rw [List.map_cons, Assoc.lookup_cons_of_ne hd, Assoc.lookup_cons_of_ne hd, ih]

end Index

/-- What is digested: an absent name or description counts as empty. -/
def content (source : Document) (revision : String) : Content where
  canvasName := source.canvasName.getD ""
  description := source.description.getD ""
  canvasId := source.canvasId
  modelRevision := revision

def fingerprint (digest : Content → String) (source : Document) (revision : String) : String :=
  digest (content source revision)

/-! ## Vectors -/

/-- The characters that `str.strip` removes. -/
def isSpace (c : Char) : Bool :=
  let n := c.toNat
  (9 ≤ n && n ≤ 13) || (28 ≤ n && n ≤ 32) || n = 0x85 || n = 0xa0 || n = 0x1680
    || (0x2000 ≤ n && n ≤ 0x200a) || n = 0x2028 || n = 0x2029 || n = 0x202f || n = 0x205f
    || n = 0x3000

def strip (text : List Char) : List Char :=
  ((text.dropWhile isSpace).reverse.dropWhile isSpace).reverse

/-- The text of a document that is encoded. -/
def passage (source : Document) : String :=
  let text := source.canvasName.getD "" ++ "\n" ++ source.description.getD ""
  let text := (strip text.toList).take 8192
  if text.isEmpty then "빈 캔버스" else String.ofList text

/-- The encoder: what its session infers from the texts, at the time of a request. -/
structure E5 (ν : Type) where
  revision : String
  infer : ℕ → List String → Checked (List ν)

def E5.encode (model : E5 ν) (now : ℕ) (texts : List String) (kind : String) : Checked (List ν) :=
  if (kind ≠ "query" ∧ kind ≠ "passage") ∨ texts.length < 1 ∨ 8 < texts.length then
    reject "Invalid embedding batch"
  else if texts.any fun text ↦ (strip text.toList).isEmpty || 8192 < text.toList.length then
    reject "Text must contain 1..8192 characters"
  else model.infer now (texts.map fun text ↦ kind ++ ": " ++ text)

/-! ## Requests -/

/-- How a request goes. -/
inductive Outcome
  | answered
  /-- It is carried out, but the answer does not come back. -/
  | lost
  | refused (status : ℕ)
  deriving DecidableEq

structure Hit (α : Type) where
  id : String
  source : α
  sort : List ℤ

/-- The answer to a search. -/
structure Response (α : Type) where
  pitId : Option String
  timedOut : Bool
  failedShards : ℕ
  hits : List (Hit α)

/-- What is found under an id. -/
inductive Fetched (α : Type)
  | found (value : α)
  | missing
  | error

def Fetched.failed : Fetched α → Bool
  | .error => true
  | _ => false

/-- What a run meets, by the number of the request. A search answers for the index as it was when
the point in time was opened. -/
structure Elasticsearch where
  source : ℕ → Index Document
  outcome : ℕ → Outcome
  unavailable : ℕ → String → Bool
  pit : ℕ → String
  searchSource : ℕ → Index Document → String → Option (List ℤ) → Response Document
  searchProjection : ℕ → Index String → String → Option (List ℤ) → Response String
  time : ℕ → ℕ

/-- The projection, and the number of requests that were made. -/
structure World (ν : Type) where
  projection : Index (Entry ν)
  requests : ℕ

variable (e : Elasticsearch)

/-- Make a request: what it does to the projection, and what it answers. -/
def request (effect : ℕ → Index (Entry ν) → Index (Entry ν)) (reply : World ν → α) :
    Query (World ν) α := fun w ↦
  let done : World ν := ⟨effect w.requests w.projection, w.requests + 1⟩
  match e.outcome w.requests with
  | .answered => (.ok (reply w), done)
  | .lost => (.error (.threw .other), done)
  | .refused status =>
    (.error (.threw (.runtimeError ("ES metadata request failed: " ++ toString status))),
      { w with requests := w.requests + 1 })

/-- A request that only reads. -/
def ask (reply : World ν → α) : Query (World ν) α := request e (fun _ p ↦ p) reply

/-- The documents of an index under some ids, with an error where a shard does not answer. -/
def mget (index : World ν → Index α) (ids : List String) :
    Query (World ν) (List (String × Fetched α)) :=
  ask e fun w ↦ ids.map fun id ↦
    (id, if e.unavailable w.requests id then .error
      else match (index w).find id with
        | some value => .found value
        | none => .missing)

/-! ## Scanning -/

/-- `finally`, where what goes wrong in the last step is ignored. -/
def finallyDo (x : Query (World ν) α) (last : Query (World ν) Unit) : Query (World ν) α := fun w ↦
  let (result, w) := x w
  (result, (last w).2)

/-- The pages of a scan, each visited before the next is asked for. -/
def pages (search : ℕ → String → Option (List ℤ) → Response α)
    (visit : ℕ → List (Hit α) → Query (World ν) ℕ) :
    ℕ → String → Option (List ℤ) → ℕ → Query (World ν) ℕ
  | 0, _, _, _ => Query.fail "Interrupted"
  | limit + 1, pit, after, updated => do
    let response ← ask e fun w ↦ search w.requests pit after
    let pit := response.pitId.getD pit
    if response.timedOut || response.failedShards ≠ 0 then Query.fail "Incomplete metadata scan"
    else if response.hits.isEmpty then pure updated
    else do
      let updated ← visit updated response.hits
      pages search visit limit pit (response.hits.getLast?.map Hit.sort) updated

def scan (index : World ν → Index α)
    (search : ℕ → Index α → String → Option (List ℤ) → Response α)
    (visit : ℕ → List (Hit α) → Query (World ν) ℕ) (limit updated : ℕ) : Query (World ν) ℕ := do
  let (pit, opened) ← ask e fun w ↦ (e.pit w.requests, index w)
  finallyDo (pages e (fun n ↦ search n opened) visit limit pit none updated) (ask e fun _ ↦ ())

/-! ## Synchronizing -/

variable (digest : Content → String) (model : E5 ν)

/-- The part of a list from each multiple of four, four elements of it. -/
def batches (changed : List α) : List (List α) :=
  (List.range ((changed.length + 3) / 4)).map fun k ↦ (changed.drop (4 * k)).take 4

/-- The entry of a document. -/
def entryOf (hit : Hit Document) (vector : ν) (updatedAt : ℕ) : Entry ν where
  canvasName := hit.source.canvasName
  canvasId := hit.source.canvasId
  description := hit.source.description
  fingerprint := fingerprint digest hit.source model.revision
  embedding := vector
  modelRevision := model.revision
  updatedAt := updatedAt

def put (hit : Hit Document) (vector : ν) : Query (World ν) Unit :=
  request e (fun n p ↦ p.set hit.id (entryOf digest model hit vector (e.time n))) fun _ ↦ ()

/-- Delete an entry. -/
def delete (id : String) : Query (World ν) Unit :=
  request e (fun _ p ↦ p.erase id) fun _ ↦ ()

/-- Encode and write up to four entries. -/
def writeBatch (updated : ℕ) (batch : List (Hit Document)) : Query (World ν) ℕ := do
  let vectors ← (fun w ↦ (model.encode w.requests (batch.map fun hit ↦ passage hit.source)
    "passage", w) : Query (World ν) (List ν))
  (batch.zip vectors).foldlM (fun updated pair ↦ do
    put e digest model pair.1 pair.2
    pure (updated + 1)) updated

/-- What the entry under an id carried, by the documents that were fetched. -/
def previous (existing : List (String × Fetched α)) (id : String) : Option α :=
  match existing.reverse.lookup id with
  | some (.found value) => some value
  | _ => none

/-- The fingerprints of the entries. -/
def fingerprints (w : World ν) : Index String := w.projection.select Entry.fingerprint

/-- Write the entries of a page of source documents that are not up to date. -/
def updatePage (updated : ℕ) (hits : List (Hit Document)) : Query (World ν) ℕ := do
  let existing ← mget e fingerprints (hits.map Hit.id)
  if existing.any fun doc ↦ doc.2.failed then Query.fail "Projection read incomplete"
  else do
    let changed := hits.filter fun hit ↦
      previous existing hit.id ≠ some (fingerprint digest hit.source model.revision)
    (batches changed).foldlM (writeBatch e digest model) updated

/-- Delete the entries of a page whose documents are missing. -/
def deletePage (updated : ℕ) (hits : List (Hit String)) : Query (World ν) ℕ := do
  let originals ← mget e (fun w ↦ e.source w.requests) (hits.map Hit.id)
  if originals.any fun doc ↦ doc.2.failed then Query.fail "Source existence check incomplete"
  else do
    originals.forM fun doc ↦
      match doc.2 with
      | .missing => delete e doc.1
      | _ => pure ()
    pure updated

def synchronize (limit : ℕ) : Query (World ν) ℕ := do
  let updated ← scan e (fun w ↦ e.source w.requests) e.searchSource (updatePage e digest model)
    limit 0
  scan e fingerprints e.searchProjection (deletePage e) limit updated

end Search

end Agora
