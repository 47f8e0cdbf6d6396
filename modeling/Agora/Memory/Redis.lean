import Agora.Json.Prune
import Agora.Memory.JsonPath

/-!
# Redis, as the memory sees it

A key holds a JSON document or, from before the JSON types, a text. A command is answered,
rejected with no effect, or takes effect while its reply is lost; the client reports a rejected
command and a lost reply alike.

RedisJSON reads a path that `parseJsonPath` accepts as the segments it parses to. How it reads any
other path, which keys match a `KEYS` pattern, and how long a value is when it is serialized are
taken from outside (`Platform`).
-/

namespace Agora

/-- What becomes of a command. -/
inductive Fate where
  | answered
  | rejected
  | lost
  deriving DecidableEq, Repr

/-- A value under a Redis key; a text has a JSON value when it parses. -/
inductive RedisValue where
  | json (document : Json)
  | text (content : Option Json)
  deriving DecidableEq

abbrev Redis := List (String × RedisValue)

/-- The behaviour of RedisJSON, Redis and the serializer that the code relies on. -/
structure Platform where
  /-- The values a path matches, or an error; for paths the parser refuses. -/
  matching : String → Json → Option (List Json)
  /-- `JSON.SET` with such a path, on a key that may be absent. -/
  assign : String → Option Json → Json → Option Json
  /-- The locations `JSON.DEL` removes for such a path, or an error. -/
  select : String → Json → Option (List Segment → Bool)
  /-- Whether a key matches a `KEYS` pattern. -/
  glob : String → String → Bool
  /-- The length of a serialized value. -/
  dumpSize : Json → ℕ

/-- A platform that refuses the paths the parser refuses, matches a key by its own name, and finds
every value small. -/
def Platform.plain : Platform where
  matching := fun _ _ ↦ none
  assign := fun _ _ _ ↦ none
  select := fun _ _ ↦ none
  glob := fun pattern key ↦ pattern = key
  dumpSize := fun _ ↦ 1

/-! ## Commands -/

/-- The effect of a command on the value of its key, with its reply; `none` when Redis answers an
error, which changes nothing. -/
abbrev Command := Option RedisValue → Option (String × Option RedisValue)

namespace Platform

variable (platform : Platform)

/-- The values that `JSON.GET` returns for a path. -/
def pathMatches (path : String) (j : Json) : Option (List Json) :=
  match parseJsonPath path with
  | some segments => some (j.find segments).toList
  | none => platform.matching path j

/-- The document after `JSON.SET`; only a root path creates a key. -/
def pathAssign (path : String) (current : Option Json) (value : Json) : Option Json :=
  match parseJsonPath path with
  | some segments =>
    match current with
    | some j => j.set segments value
    | none => if segments = [] then some value else none
  | none => platform.assign path current value

/-- The locations `JSON.DEL` removes. -/
def pathSelect (path : String) (j : Json) : Option (List Segment → Bool) :=
  match parseJsonPath path with
  | some segments => some fun p ↦ p = segments
  | none => platform.select path j

/-- `JSON.SET key path value`. -/
def jsonSet (path : String) (value : Json) : Command
  | none => (platform.pathAssign path none value).map fun j ↦ ("OK", some (.json j))
  | some (.json j) => (platform.pathAssign path (some j) value).map fun j ↦ ("OK", some (.json j))
  | some (.text _) => none

/-- `JSON.DEL key path`; removing the root removes the key. -/
def jsonDel (path : String) : Command
  | none => some ("0", none)
  | some (.json j) => (platform.pathSelect path j).map fun select ↦
    if select [] then ("1", none) else ("1", some (.json (j.prune select)))
  | some (.text _) => none

end Platform

/-- `DEL key`. -/
def del : Command
  | none => some ("0", none)
  | some _ => some ("1", none)

namespace Redis

/-- Put a value under a key, or remove the key. -/
def put (redis : Redis) (key : String) : Option RedisValue → Redis
  | some value => Assoc.set key value redis
  | none => Assoc.erase key redis

/-- Execute a command on a key: the reply the client gets, if any, and the store afterwards. -/
def execute (redis : Redis) (key : String) (command : Command) (fate : Fate) :
    Option String × Redis :=
  match fate, command (redis.lookup key) with
  | .rejected, _ => (none, redis)
  | _, none => (none, redis)
  | .answered, some (reply, value) => (some reply, redis.put key value)
  | .lost, some (_, value) => (none, redis.put key value)

@[simp] theorem lookup_put (redis : Redis) (key key' : String) (value : Option RedisValue) :
    (redis.put key value).lookup key' = if key = key' then value else redis.lookup key' := by
  cases value with
  | some value => exact Assoc.lookup_set ..
  | none => exact Assoc.lookup_erase ..

theorem lookup_execute_of_ne (redis : Redis) {key key' : String} (h : key ≠ key')
    (command : Command) (fate : Fate) :
    (redis.execute key command fate).2.lookup key' = redis.lookup key' := by
  unfold execute
  split
  · rfl
  · rfl
  · exact (lookup_put ..).trans (if_neg h)
  · exact (lookup_put ..).trans (if_neg h)

/-- A command is applied, or has no effect and no reply. -/
theorem execute_cases (redis : Redis) (key : String) (command : Command) (fate : Fate) :
    (∃ reply value, command (redis.lookup key) = some (reply, value) ∧ fate ≠ .rejected ∧
      redis.execute key command fate
        = (if fate = .answered then some reply else none, redis.put key value)) ∨
      redis.execute key command fate = (none, redis) := by
  unfold execute
  cases fate <;> cases hc : command (redis.lookup key) with
  | none => exact Or.inr rfl
  | some p =>
    first
      | exact Or.inr rfl
      | exact Or.inl ⟨p.1, p.2, rfl, by simp, rfl⟩

end Redis

end Agora
