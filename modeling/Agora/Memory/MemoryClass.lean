import Agora.Memory.CacheManager
import Agora.Memory.Redis

/-!
# `MemoryClass`

The operations of the document memory: a cache of regions (the subtrees at `regionDepth`) in front
of RedisJSON. A write of a cached region stays in the cache, dirty; everything else goes to Redis,
after the dirty regions it could disturb were written back. A whole document is read from Redis
and overlaid with the dirty regions.

`remoteFields` names fields of a region that stay in Redis: they are removed from a value that is
cached (`project`) and put back when it is written or read as a whole (`merge`).

Every operation holds the lock of its document, and an eviction takes the lock of the document it
removes, so an operation is one step of the shared state. What happens to each of its commands is
an input (`Outcomes`).
-/

namespace Agora

structure Options where
  maximumDocuments : ℕ := 256
  entriesPerDocument : ℕ := 64
  maximumEntryBytes : ℕ := 256 * 1024
  regionDepth : ℕ := 0
  remoteFields : Option (Json → List String) := none

/-- What the environment decides during one operation. Each command it can issue has its own
entry; reads are answered or not. -/
structure Outcomes where
  /-- The order in which dirty regions are walked. -/
  order : Iteration
  /-- Whether the lock of another document is free. -/
  tryLock : String → Bool
  /-- The `JSON.GET` before a region is written back. -/
  current : String → String → Bool
  /-- The `JSON.SET` that writes a region back. -/
  writeBack : String → String → Fate
  /-- The `JSON.GET` of a region. -/
  raw : Bool
  /-- The `JSON.GET` of the operation's own path or document, or its `KEYS`. -/
  get : Bool
  /-- The `GET` of a document that is a text. -/
  text : Bool
  /-- The command that makes the operation's own change. -/
  own : Fate
  /-- The `DEL` of a text that a document replaces, and the second `JSON.SET`. -/
  delete : Fate
  again : Fate

/-- Every command is answered. -/
def Outcomes.fine : Outcomes where
  order := ⟨id, fun l ↦ List.Perm.refl l⟩
  tryLock := fun _ ↦ true
  current := fun _ _ ↦ true
  writeBack := fun _ _ ↦ .answered
  raw := true
  get := true
  text := true
  own := .answered
  delete := .answered
  again := .answered

/-- The shared state: Redis and the cache in front of it. -/
structure MemoryState where
  redis : Redis
  cache : CacheManager

namespace MemoryClass

/-! ## Remote fields -/

section Remote

variable (options : Options)

def remote (value : Json) : List String :=
  match options.remoteFields with
  | some fields => fields value
  | none => []

def project (value : Json) : Json :=
  match value with
  | .obj fields => .obj ((remote options value).foldl (fun fs field ↦ Assoc.erase field fs) fields)
  | value => value

def excluded (value : Json) (relative : List Segment) : Bool :=
  match remote options value, relative with
  | [], _ => false
  | _ :: _, [] => true
  | fields, .key key :: _ => key ∈ fields
  | _ :: _, .index _ :: _ => false

/-- The fields of `original` that are remote for the cached value and not among its own. -/
def mergeFields (original : List (String × Json)) :
    List String → List (String × Json) → List (String × Json)
  | [], fields => fields
  | field :: names, fields =>
    mergeFields original names <|
      match fields.lookup field, original.lookup field with
      | none, some value => Assoc.set field value fields
      | _, _ => fields

def merge (cached original : Json) : Json :=
  match cached, original with
  | .obj fields, .obj others => .obj (mergeFields others (remote options cached) fields)
  | cached, _ => cached

/-! ## Regions -/

/-- The canonical path of the region a path lies in, and the rest of the path. -/
def region (path : String) : Option (String × List Segment) :=
  match parseJsonPath path with
  | none => none
  | some segments =>
    if segments.length < options.regionDepth then none
    else some (canonical (segments.take options.regionDepth), segments.drop options.regionDepth)

def invalidate (cache : CacheManager) (key path : String) : CacheManager :=
  match region options path with
  | none => cache.removeDocument key
  | some (parent, _) => cache.removeRegion key parent

/-- The document with the dirty regions put in. Every region has a canonical path. -/
def overlay : List (String × Json) → Json → Option Json
  | [], value => some value
  | (path, updated) :: dirty, value =>
    let segments := (parseJsonPath path).getD []
    let updated :=
      match findJsonPathValue value segments with
      | some original => merge options updated original
      | none => updated
    (setJsonPathValue value segments updated).bind (overlay dirty)

end Remote

/-- A reply that reports an error, or none. -/
def error (reply : Option String) : Bool :=
  match reply with
  | none => true
  | some text => text.isEmpty || text.toList.head? = some (Char.ofNat 1)

/-- The serialized array of what a path matches in a cached value. -/
def result (value : Json) (path : List Segment) : List Json := (findJsonPathValue value path).toList

section Impl

variable (platform : Platform) (options : Options) (net : Outcomes)

/-- `JSON.GET key path`, as far as it is answered. -/
def getPath (redis : Redis) (key path : String) (answered : Bool) : Option (List Json) :=
  if answered then
    match redis.lookup key with
    | some (.json j) => platform.pathMatches path j
    | _ => none
  else none

/-- The first value a path matches. -/
def raw (redis : Redis) (key path : String) (answered : Bool) : Option Json :=
  (getPath platform redis key path answered).bind List.head?

def writeBack : RegionWriter Redis := fun key path value redis ↦
  let merged :=
    if remote options value = [] then some value
    else (raw platform redis key path (net.current key path)).map (merge options value)
  match merged with
  | none => (false, redis)
  | some value =>
    let (reply, redis) := redis.execute key (platform.jsonSet path value) (net.writeBack key path)
    (reply = some "OK", redis)

/-- The whole document; a text is read with `GET`, also when a document only looks like the answer
for a text. -/
def fetch (redis : Redis) (key : String) : Option Json :=
  if net.get then
    match redis.lookup key with
    | some (.json j) => if j.mentions "WRONGTYPE" then none else some j
    | some (.text content) => if net.text then content else none
    | none => none
  else none

def document (key : String) (s : MemoryState) : Option Json × MemoryState :=
  match fetch net s.redis key with
  | none => (none, s)
  | some value =>
    let (dirty, cache) := s.cache.dirtyRegions net.order key
    (overlay options dirty value, { s with cache })

/-! ## Operations -/

def flush (key : String) (s : MemoryState) : Bool × MemoryState :=
  let (flushed, cache, redis) :=
    s.cache.flush net.order (writeBack platform options net) key s.redis
  (flushed, ⟨redis, cache⟩)

/-- `read(key, path)`: the array of the values the path matches. -/
def read (key path : String) (s : MemoryState) : Option (List Json) × MemoryState :=
  match region options path with
  | none =>
    match parseJsonPath path with
    | some segments =>
      match document options net key s with
      | (none, s) => (none, s)
      | (some doc, s) => (some (result doc segments), s)
    | none =>
      match flush platform options net key s with
      | (false, s) => (none, s)
      | (true, s) => (getPath platform s.redis key path net.get, s)
  | some (parent, relative) =>
    let (lookup, cache, redis) := s.cache.lookup net.order net.tryLock
      (writeBack platform options net) key parent s.redis
    let s : MemoryState := ⟨redis, cache⟩
    match lookup.value with
    | some value =>
      if excluded options value relative then
        match raw platform s.redis key parent net.raw with
        | none => (none, s)
        | some current => (some (result (merge options value current) relative), s)
      else (some (result value relative), s)
    | none =>
      if lookup.admitOnMiss then
        match raw platform s.redis key parent net.raw with
        | none => (getPath platform s.redis key path net.get, s)
        | some value =>
          let (_, cache, redis) := s.cache.admitRegion platform.dumpSize net.order net.tryLock
            (writeBack platform options net) key parent (project options value) s.redis
          (some (result value relative), ⟨redis, cache⟩)
      else (getPath platform s.redis key path net.get, s)

/-- `read(key)`: the document. -/
def readDocument (key : String) (s : MemoryState) : Option Json × MemoryState :=
  if options.regionDepth = 0 then
    let (value, s) := read platform options net key "$" s
    (value.bind List.head?, s)
  else document options net key s

/-- Whether a key holds a text, so that JSON commands are answered with `WRONGTYPE`. -/
def isText (redis : Redis) (key : String) : Bool :=
  match redis.lookup key with
  | some (.text _) => true
  | _ => false

/-- `JSON.SET`; a document replaces a text that is in its place. -/
def sendSet (redis : Redis) (key : String) (value : Json) (path : String) :
    Option String × Redis :=
  let first := redis.execute key (platform.jsonSet path value) net.own
  if path = "$" ∧ isText redis key ∧ net.own = .answered then
    let second := first.2.execute key del net.delete
    if error second.1 then (none, second.2)
    else second.2.execute key (platform.jsonSet path value) net.again
  else first

/-- The direct part of `write`. -/
def writeThrough (key : String) (value : Json) (path : String) (s : MemoryState) :
    Bool × MemoryState :=
  let (reply, redis) := sendSet platform net s.redis key value path
  if reply = some "OK" then (true, ⟨redis, invalidate options s.cache key path⟩)
  else (false, { s with redis })

/-- The direct part of `write`, after the dirty regions it could disturb were written back. -/
def writeFlushed (key : String) (value : Json) (path : String) (s : MemoryState) :
    Bool × MemoryState :=
  match flush platform options net key s with
  | (false, s) => (false, s)
  | (true, s) => writeThrough platform options net key value path s

/-- Whether a whole-region write mentions a field that is remote for the cached value. -/
def replacesRemote (cached : Json) (value : Json) (relative : List Segment) : Bool :=
  match relative, value with
  | [], .obj fields => (remote options cached).any fun field ↦ (fields.lookup field).isSome
  | _, _ => false

/-- Whether a write below a cached region stays in the cache: remote fields are written through,
but a whole-region write that mentions none of them preserves them. -/
def staysCached (cached : Json) (value : Json) (relative : List Segment) : Bool :=
  (!excluded options cached relative || relative.isEmpty)
    && !replacesRemote options cached value relative

def write (key : String) (value : Json) (path : String) (s : MemoryState) : Bool × MemoryState :=
  match region options path with
  | some (parent, relative) =>
    let (cached, cache) := s.cache.get key parent
    let s := { s with cache }
    match cached with
    | some updated =>
      if staysCached options updated value relative then
        match setJsonPathValue updated relative value with
        | none => (false, s)
        | some updated =>
          let (written, cache, redis) := s.cache.update platform.dumpSize
            (writeBack platform options net) key parent (project options updated) s.redis
          (written, ⟨redis, cache⟩)
      else writeFlushed platform options net key value path s
    | none => writeThrough platform options net key value path s
  | none => writeFlushed platform options net key value path s

/-- Whether a path has an array index, so that removing it moves later elements. -/
def shiftsArray (path : String) : Bool :=
  match parseJsonPath path with
  | some segments => segments.any fun segment ↦ match segment with
    | .index _ => true
    | .key _ => false
  | none => false

/-- Whether a path names a place strictly inside a region. -/
def insideRegion (path : String) : Bool :=
  match region options path with
  | some (_, relative) => !relative.isEmpty
  | none => false

/-- The flushes that precede an erase. -/
def flushForErase (key path : String) (s : MemoryState) : Bool × MemoryState :=
  match (if path ≠ "$" ∧ insideRegion options path then flush platform options net key s
    else (true, s)) with
  | (false, s) => (false, s)
  | (true, s) => if shiftsArray path then flush platform options net key s else (true, s)

/-- The command of an erase. -/
def eraseCommand (path : String) : Command := if path = "$" then del else platform.jsonDel path

/-- The path whose regions an erase forgets. -/
def erasedPath (path : String) : String := if shiftsArray path then "$" else path

def erase (key path : String) (s : MemoryState) : Bool × MemoryState :=
  match flushForErase platform options net key path s with
  | (false, s) => (false, s)
  | (true, s) =>
    let (reply, redis) := s.redis.execute key (eraseCommand platform path) net.own
    if error reply then (false, { s with redis })
    else (true, ⟨redis, invalidate options s.cache key (erasedPath path)⟩)

def invalidateAll (key : String) (paths : List String) (cache : CacheManager) : CacheManager :=
  paths.foldl (fun cache path ↦ invalidate options cache key path) cache

def executeAtomic (key : String) (command : Command) (changedPaths : List String)
    (s : MemoryState) : Option String × MemoryState :=
  match flush platform options net key s with
  | (false, s) => (none, s)
  | (true, s) =>
    let (reply, redis) := s.redis.execute key command net.own
    (if error reply then none else reply, ⟨redis, invalidateAll options key changedPaths s.cache⟩)

/-- The keys a `KEYS` reply lists, separated by blanks in the text the client makes of it. -/
def replyText (keys : List String) : List Char := [' '].intercalate (keys.map String.toList)

/-- `std::isspace` in the C locale. -/
def isSpace (c : Char) : Bool := c = ' ' ∨ 9 ≤ c.toNat ∧ c.toNat ≤ 13

/-- The words of a text, read with `stream >> word`. -/
def words (text : List Char) : List String :=
  ((text.splitOnP isSpace).filter (· ≠ [])).map String.ofList

/-- The store after `DEL` of several keys. -/
def deleteKeys (keys : List String) (redis : Redis) : Redis :=
  keys.foldl (fun redis key ↦ Assoc.erase key redis) redis

def erasePattern (pattern : String) (s : MemoryState) : Bool × MemoryState :=
  let text := replyText ((s.redis.map Prod.fst).filter (platform.glob pattern))
  if !net.get || text.head? = some (Char.ofNat 1) then (false, s)
  else
    let keys := words text
    if keys = [] then (true, s)
    else
      match net.own with
      | .rejected => (false, s)
      | .lost => (false, { s with redis := deleteKeys keys s.redis })
      | .answered =>
        (true, ⟨deleteKeys keys s.redis, keys.foldl CacheManager.removeDocument s.cache⟩)

end Impl

end MemoryClass

end Agora
