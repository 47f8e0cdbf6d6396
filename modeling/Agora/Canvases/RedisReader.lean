import Agora.Java.CanvasDocument
import Agora.Resp.Replies

/-!
# The reader of Redis replies in the services

The services read a document of a loaded canvas from Redis themselves: they authenticate, ask the
node for its role, and ask for the document. Other than the servers' reader this one keeps the
structure of a reply, throws at an error anywhere inside it, and never reads on after a failure.

`readDocument_iff`: from the bytes of any three replies, cut off anywhere, a document is read
exactly when nothing is cut off, the node has accepted the password and called itself a primary, and
the last reply is the text of a projection with one of the fields that were asked for.
-/

namespace Agora

namespace RedisReader

open Java (isBlank)
open Snapshot (Fields)
open Resp (Reply encodeAll crlf decimalOf bytes isdigit decimal signed)

/-! ## Reading -/

inductive Value where
  | text (content : List UInt8)
  | number (n : ℤ)
  | null
  | list (values : List Value)

def lineSize : ℕ := 1024

def maxBulk : ℤ := 16 * 1024 * 1024

def maxElements : ℤ := 4096

/-- What the reader goes on with, and what is still to be read. -/
abbrev Read (α : Type) := Option (α × List UInt8)

/-- One byte, which has to be this one. -/
def expect (c : UInt8) : List UInt8 → Option (List UInt8)
  | [] => none
  | d :: t => if d = c then some t else none

/-- A line with so much room for its bytes. -/
def readLine : ℕ → List UInt8 → Read (List UInt8)
  | 0, _ => none
  | _ + 1, [] => none
  | room + 1, c :: t =>
    if c = '\r'.toUInt8 then (expect '\n'.toUInt8 t).map fun t ↦ ([], t)
    else (readLine room t).map fun r ↦ (c :: r.1, r.2)

/-- `Integer.parseInt` and `Long.parseLong`, for numbers between the limit and its opposite that are
written in the ten digits. -/
def parseNumber (limit : ℤ) (line : List UInt8) : Option ℤ :=
  let (negative, digits) := signed line
  let value : ℤ := if negative then -decimal digits else decimal digits
  if digits.isEmpty || !digits.all isdigit then none
  else if value < -limit ∨ limit ≤ value then none
  else some value

def parseInt : List UInt8 → Option ℤ := parseNumber 2147483648

def parseLong : List UInt8 → Option ℤ := parseNumber 9223372036854775808

def readBulkString (length : ℤ) (t : List UInt8) : Read Value :=
  if length < 0 then some (.null, t)
  else if maxBulk < length then none
  -- `readNBytes` gives fewer bytes only at the end of the connection
  else if t.length < length.toNat then none
  else ((expect '\r'.toUInt8 (t.drop length.toNat)).bind (expect '\n'.toUInt8)).map fun rest ↦
    (.text (t.take length.toNat), rest)

def readValues (read : List UInt8 → Read Value) : ℕ → List UInt8 → Read (List Value)
  | 0, t => some ([], t)
  | count + 1, t =>
    (read t).bind fun r ↦ (readValues read count r.2).map fun rs ↦ (r.1 :: rs.1, rs.2)

def readArray (read : List UInt8 → Read Value) (count : ℤ) (t : List UInt8) : Read Value :=
  if count < 0 then some (.null, t)
  else if maxElements < count then none
  else (readValues read count.toNat t).map fun r ↦ (.list r.1, r.2)

/-- What follows the kind of a reply and its line. -/
def readKind (read : List UInt8 → Read Value) (kind : UInt8) (line t : List UInt8) : Read Value :=
  if kind = '+'.toUInt8 then some (.text line, t)
  -- an error throws, also inside an array
  else if kind = '-'.toUInt8 then none
  else if kind = ':'.toUInt8 then (parseLong line).map fun n ↦ (.number n, t)
  else if kind = '$'.toUInt8 then (parseInt line).bind fun length ↦ readBulkString length t
  else if kind = '*'.toUInt8 then (parseInt line).bind fun count ↦ readArray read count t
  else none

/-- A reply whose arrays are nested at most so deep. -/
def readDepth : ℕ → List UInt8 → Read Value
  | 0, _ => none
  | _ + 1, [] => none
  | depth + 1, kind :: t =>
    (readLine lineSize t).bind fun r ↦ readKind (readDepth depth) kind r.1 r.2

/-- A reply; it is not nested deeper than there are bytes. -/
def readReply (t : List UInt8) : Read Value := readDepth (t.length + 1) t

/-! ## Reading a document -/

/-- A letter without its case; the long s is a letter s as well. -/
def foldCase (c : Char) : Char := if c = 'ſ' then 'S' else c.toUpper

/-- The text of some bytes; none where there are bytes that have to be replaced. -/
def decode (content : List UInt8) : Option String := String.fromUTF8? ⟨content.toArray⟩

def Value.isOk : Value → Bool
  | .text content => content = bytes "OK"
  | _ => false

/-- `"master".equalsIgnoreCase` of the first element. -/
def Value.isMaster : Value → Bool
  | .list (.text content :: _) =>
    (decode content).any fun s ↦ s.toList.map foldCase = "MASTER".toList
  | _ => false

/-- The text of a document that is there. -/
def Value.document : Value → Option (List UInt8)
  | .text json => if (decode json).any isBlank then none else some json
  | _ => none

/-- The fields that the services read of a loaded document, in the order in which they put them
together. -/
def metadataFields : List String :=
  ["canvas-name", "canvasName", "canvas_name", "canvas-id", "canvasId", "canvas_id",
   "admin-user-id", "admin", "adminUserId", "admin_user_id", "description",
   "canvas-password-hash", "canvasPassword", "canvas_password_hash", "canvas-password",
   "people", "peoples", "inner-group", "innerGroup", "inner_group",
   "init-group", "initGroup", "init_group", "settings-revision", "visibility"]

/-- The path by which a field is asked for. -/
def metadataPath (field : String) : String := "$[\"" ++ field ++ "\"]"

/-- The first of the values that a path has in a projection. -/
def firstAt (path : String) : Json → Option Json
  | .obj found =>
    match found.lookup path with
    | some (.arr (v :: _)) => some v
    | _ => none
  | _ => none

def metadata (projection : Json) : Fields :=
  metadataFields.filterMap fun field ↦
    (firstAt (metadataPath field) projection).map fun v ↦ (field, v)

/-- The fields in the last reply, for what the JSON library makes of a text. -/
def Value.metadata (readTree : List UInt8 → Option Json) (v : Value) : Option Fields :=
  (v.document.bind readTree).bind fun projection ↦
    if (RedisReader.metadata projection).isEmpty then none
    else some (RedisReader.metadata projection)

/-- The next reply, when it passes a test. -/
def check (test : Value → Bool) (t : List UInt8) : Option (List UInt8) :=
  (readReply t).bind fun r ↦ if test r.1 then some r.2 else none

def readDocument (readTree : List UInt8 → Option Json) (requirePrimary : Bool) (t : List UInt8) :
    Option Fields :=
  (check Value.isOk t).bind fun t ↦
    (if requirePrimary then check Value.isMaster t else some t).bind fun t ↦
      (readReply t).bind fun r ↦ r.1.metadata readTree

/-! ## Replies -/

mutual

/-- What a reply is read as; none where there is an error in it. -/
def value : Reply → Option Value
  | .simple line => some (.text line.text)
  | .error _ => none
  | .integer n => some (.number n)
  | .bulk content => some (.text content)
  | .nil | .nilArray => some .null
  | .array items => (values items).map .list

def values : List Reply → Option (List Value)
  | [] => some []
  | reply :: replies => (value reply).bind fun v ↦ (values replies).map fun vs ↦ v :: vs

end

mutual

/-- A reply within the limits. -/
def Fits : Reply → Prop
  | .simple line | .error line => line.text.length < lineSize
  | .integer n => -9223372036854775808 ≤ n ∧ n < 9223372036854775808
  | .bulk content => content.length ≤ maxBulk
  | .nil | .nilArray => True
  | .array items => items.length ≤ maxElements ∧ FitAll items

def FitAll : List Reply → Prop
  | [] => True
  | reply :: replies => Fits reply ∧ FitAll replies

end

/-! ## Lines and numbers -/

theorem readLine_crlf {line rest : List UInt8} (hline : '\r'.toUInt8 ∉ line) {room : ℕ}
    (hroom : line.length < room) : readLine room (line ++ crlf ++ rest) = some (line, rest) := by
  induction line generalizing room with
  | nil =>
    obtain ⟨room, rfl⟩ := Nat.exists_eq_succ_of_ne_zero (Nat.ne_of_gt hroom)
    rfl
  | cons c line ih =>
    obtain ⟨room, rfl⟩ := Nat.exists_eq_succ_of_ne_zero (Nat.ne_of_gt (Nat.zero_lt_of_lt hroom))
    obtain ⟨hc, hrest⟩ := not_or.mp (List.mem_cons.not.mp hline)
    rw [List.cons_append, List.cons_append, readLine, if_neg (Ne.symm hc),
      ih hrest (Nat.lt_of_succ_lt_succ hroom)]
    rfl

theorem signed_decimalOf (n : ℕ) : signed (decimalOf n) = (false, decimalOf n) := by
  obtain ⟨c, digits, hdigits⟩ := List.exists_cons_of_ne_nil (Resp.decimalOf_ne_nil n)
  have hc := Resp.mem_decimalOf (hdigits ▸ List.mem_cons_self)
  have hne {b : UInt8} (hb : b.toNat < 48) : c ≠ b := by
    rintro rfl
    omega
  rw [hdigits, signed, if_neg (hne (by decide)), if_neg (hne (by decide))]

theorem parseNumber_digits {limit : ℤ} {line : List UInt8} {n : ℕ} (negative : Bool)
    (hsigned : signed line = (negative, decimalOf n))
    (hlow : -limit ≤ if negative then -(n : ℤ) else n)
    (hhigh : (if negative then -(n : ℤ) else n) < limit) :
    parseNumber limit line = some (if negative then -(n : ℤ) else n) := by
  have hall : (decimalOf n).all isdigit = true :=
    List.all_eq_true.mpr fun b hb ↦ Resp.isdigit_of_mem_decimalOf hb
  rw [parseNumber, hsigned]
  dsimp only
  rw [Resp.decimal_decimalOf, hall, List.isEmpty_eq_false_iff.mpr (Resp.decimalOf_ne_nil n),
    if_neg (by decide), if_neg (by omega)]

theorem parseNumber_decimalOf {limit : ℤ} {n : ℕ} (h : (n : ℤ) < limit) :
    parseNumber limit (decimalOf n) = some (n : ℤ) := by
  have hlow : -limit ≤ (n : ℤ) := by omega
  exact parseNumber_digits false (signed_decimalOf n) hlow h

theorem bytes_negSucc (n : ℕ) :
    bytes (toString (Int.negSucc n)) = '-'.toUInt8 :: decimalOf (n + 1) := by
  rw [show toString (Int.negSucc n) = "-" ++ (n + 1).repr from rfl, bytes, String.toList_append,
    List.map_append]
  rfl

/-- A number within the limits is read back. -/
theorem parseLong_integer {n : ℤ} (hlow : -9223372036854775808 ≤ n)
    (hhigh : n < 9223372036854775808) : parseLong (bytes (toString n)) = some n := by
  rw [parseLong]
  cases n with
  | ofNat n => exact parseNumber_decimalOf hhigh
  | negSucc n =>
    rw [bytes_negSucc]
    have hvalue : (Int.negSucc n) = -((n + 1 : ℕ) : ℤ) := rfl
    rw [hvalue] at hlow hhigh ⊢
    exact parseNumber_digits true rfl hlow hhigh

theorem length_integer {n : ℤ} (hlow : -9223372036854775808 ≤ n)
    (hhigh : n < 9223372036854775808) : (bytes (toString n)).length < lineSize := by
  cases n with
  | ofNat n =>
    have hn : (n : ℤ) < 9223372036854775808 := hhigh
    have hle : (decimalOf n).length ≤ 20 := Resp.length_decimalOf_le (by decide) (by omega)
    exact Nat.lt_of_le_of_lt hle (by decide)
  | negSucc n =>
    have hle : (decimalOf (n + 1)).length ≤ 20 := Resp.length_decimalOf_le (by decide) (by omega)
    rw [bytes_negSucc, List.length_cons]
    exact Nat.lt_of_le_of_lt (Nat.succ_le_succ hle) (by decide)

/-! ## Round trips -/

theorem decimalOf_line {n : ℕ} (h : n ≤ 16777216) (rest : List UInt8) :
    readLine lineSize (decimalOf n ++ crlf ++ rest) = some (decimalOf n, rest) ∧
      parseInt (decimalOf n) = some (n : ℤ) := by
  have hle : (decimalOf n).length ≤ 8 := Resp.length_decimalOf_le (by decide) (by omega)
  refine ⟨readLine_crlf (fun hmem ↦ ?_) (Nat.lt_of_le_of_lt hle (by decide)), ?_⟩
  · exact Resp.ne_return_of_digit (Resp.mem_decimalOf hmem) rfl
  · exact parseNumber_decimalOf (by omega)

theorem readBulkString_crlf {content rest : List UInt8} (h : (content.length : ℤ) ≤ maxBulk) :
    readBulkString content.length (content ++ crlf ++ rest) = some (.text content, rest) := by
  rw [readBulkString, if_neg (by omega), if_neg (by omega), Int.toNat_natCast, List.append_assoc,
    if_neg (by rw [List.length_append]; omega), List.drop_left, List.take_left]
  rfl

theorem readLine_line {line : Resp.Line} (h : line.text.length < lineSize) (rest : List UInt8) :
    readLine lineSize (line.text ++ crlf ++ rest) = some (line.text, rest) :=
  readLine_crlf (fun hmem ↦ (line.plain _ hmem).1 rfl) h

mutual

/-- A reply is read as it was sent, and thrown at where it has an error. -/
theorem readDepth_encode (reply : Reply) (hfits : Fits reply) {depth : ℕ}
    (hdepth : reply.encode.length < depth) (rest : List UInt8) :
    readDepth depth (reply.encode ++ rest) = (value reply).map fun v ↦ (v, rest) := by
  obtain ⟨depth, rfl⟩ := Nat.exists_eq_succ_of_ne_zero (Nat.ne_of_gt (Nat.zero_lt_of_lt hdepth))
  -- The kind decides which branch of `readKind` is taken; an array goes on with its elements.
  cases reply with
  | simple line =>
    rw [Reply.encode, List.cons_append, List.cons_append, readDepth, readLine_line hfits]
    rfl
  | error line =>
    rw [Reply.encode, List.cons_append, List.cons_append, readDepth, readLine_line hfits]
    rfl
  | integer n =>
    rw [Reply.encode, List.cons_append, List.cons_append, readDepth,
      readLine_crlf (Resp.return_notMem_integer n) (length_integer hfits.1 hfits.2),
      Option.bind_some, readKind, if_neg (by decide), if_neg (by decide), if_pos rfl,
      parseLong_integer hfits.1 hfits.2]
    rfl
  | bulk content =>
    have hsize : (content.length : ℤ) ≤ maxBulk := hfits
    obtain ⟨hline, hparse⟩ := decimalOf_line (n := content.length)
      (Int.ofNat_le.mp hsize) (content ++ crlf ++ rest)
    rw [Reply.encode, List.cons_append, List.cons_append, List.cons_append, readDepth,
      List.append_assoc (decimalOf content.length ++ crlf), hline, Option.bind_some, readKind,
      if_neg (by decide), if_neg (by decide), if_neg (by decide), if_pos rfl, hparse,
      Option.bind_some, readBulkString_crlf hsize]
    rfl
  | nil => rfl
  | nilArray => rfl
  | array items =>
    obtain ⟨hcount, hitems⟩ := hfits
    have hsmall : items.length ≤ 16777216 := by
      have hle : items.length ≤ 4096 := Int.ofNat_le.mp hcount
      omega
    obtain ⟨hline, hparse⟩ := decimalOf_line hsmall (encodeAll items ++ rest)
    have hlength : (encodeAll items).length < depth := by
      rw [Reply.encode, List.cons_append, List.cons_append, List.length_cons, List.length_append]
        at hdepth
      omega
    rw [Reply.encode, List.cons_append, List.cons_append, List.cons_append, readDepth,
      List.append_assoc (decimalOf items.length ++ crlf), hline, Option.bind_some, readKind,
      if_neg (by decide), if_neg (by decide), if_neg (by decide), if_neg (by decide), if_pos rfl,
      hparse, Option.bind_some, readArray, if_neg (by omega), if_neg (by omega),
      Int.toNat_natCast, readValues_encodeAll items hitems hlength rest, value]
    cases values items
    · rfl
    · rfl

theorem readValues_encodeAll (replies : List Reply) (hfits : FitAll replies) {depth : ℕ}
    (hdepth : (encodeAll replies).length < depth) (rest : List UInt8) :
    readValues (readDepth depth) replies.length (encodeAll replies ++ rest)
      = (values replies).map fun vs ↦ (vs, rest) := by
  cases replies with
  | nil => rfl
  | cons reply replies =>
    rw [encodeAll, List.length_append] at hdepth
    rw [List.length_cons, readValues, encodeAll, List.append_assoc,
      readDepth_encode reply hfits.1 (by omega), values]
    cases value reply with
    | none => rfl
    | some v =>
      dsimp only [Option.map_some, Option.bind_some]
      rw [readValues_encodeAll replies hfits.2 (by omega) rest]
      cases values replies
      · rfl
      · rfl

end

theorem readReply_encode {reply : Reply} (hfits : Fits reply) (rest : List UInt8) :
    readReply (reply.encode ++ rest) = (value reply).map fun v ↦ (v, rest) := by
  refine readDepth_encode reply hfits ?_ rest
  rw [List.length_append]
  omega

/-! ## More bytes -/

/-- What one reader reads the other reads as well, where more bytes follow. -/
def Extends {α : Type} (more : List UInt8) (read read' : List UInt8 → Read α) : Prop :=
  ∀ t a rest, read t = some (a, rest) → read' (t ++ more) = some (a, rest ++ more)

section Extends

variable {more : List UInt8} {read read' : List UInt8 → Read Value}

theorem expect_append {c : UInt8} {t rest : List UInt8} (h : expect c t = some rest) :
    expect c (t ++ more) = some (rest ++ more) := by
  cases t with
  | nil => cases h
  | cons d t =>
    rw [expect] at h
    split_ifs at h with hd
    rw [← Option.some.inj h, List.cons_append, expect, if_pos hd]

theorem readLine_extends (room : ℕ) : Extends more (readLine room) (readLine room) := by
  induction room with
  | zero =>
    intro t a rest h
    cases h
  | succ room ih =>
    intro t a rest h
    cases t with
    | nil => cases h
    | cons c t =>
      rw [readLine] at h
      rw [List.cons_append, readLine]
      split_ifs at h ⊢ with hc
      · obtain ⟨left, hleft, heq⟩ := Option.map_eq_some_iff.mp h
        obtain ⟨rfl, rfl⟩ := Prod.mk.inj heq
        rw [expect_append hleft]
        rfl
      · obtain ⟨⟨line, left⟩, hleft, heq⟩ := Option.map_eq_some_iff.mp h
        obtain ⟨rfl, rfl⟩ := Prod.mk.inj heq
        rw [ih t line left hleft]
        rfl

theorem readBulkString_extends (length : ℤ) :
    Extends more (readBulkString length) (readBulkString length) := by
  intro t v rest h
  rw [readBulkString] at h ⊢
  split_ifs at h ⊢ with hnegative hlarge hlong hlong'
  · obtain ⟨rfl, rfl⟩ := Prod.mk.inj (Option.some.inj h)
    rfl
  · rw [List.length_append] at hlong
    omega
  · have hle : length.toNat ≤ t.length := Nat.le_of_not_lt (by assumption)
    obtain ⟨left, hends, heq⟩ := Option.map_eq_some_iff.mp h
    obtain ⟨rfl, rfl⟩ := Prod.mk.inj heq
    obtain ⟨middle, hreturn, hnewline⟩ := Option.bind_eq_some_iff.mp hends
    rw [List.drop_append_of_le_length hle, List.take_append_of_le_length hle,
      expect_append hreturn, Option.bind_some, expect_append hnewline]
    rfl

theorem readValues_extends (h : Extends more read read') (count : ℕ) :
    Extends more (readValues read count) (readValues read' count) := by
  induction count with
  | zero =>
    intro t vs rest hread
    obtain ⟨rfl, rfl⟩ := Prod.mk.inj (Option.some.inj hread)
    rfl
  | succ count ih =>
    intro t vs rest hread
    obtain ⟨⟨v, left⟩, hfirst, hread⟩ := Option.bind_eq_some_iff.mp hread
    obtain ⟨⟨ws, last⟩, hrest, heq⟩ := Option.map_eq_some_iff.mp hread
    obtain ⟨rfl, rfl⟩ := Prod.mk.inj heq
    rw [readValues, h t v left hfirst, Option.bind_some, ih left ws last hrest]
    rfl

theorem readArray_extends (h : Extends more read read') (count : ℤ) :
    Extends more (readArray read count) (readArray read' count) := by
  intro t v rest hread
  rw [readArray] at hread ⊢
  split_ifs at hread ⊢ with hnegative hlarge
  · obtain ⟨rfl, rfl⟩ := Prod.mk.inj (Option.some.inj hread)
    rfl
  · obtain ⟨⟨vs, left⟩, hvalues, heq⟩ := Option.map_eq_some_iff.mp hread
    obtain ⟨rfl, rfl⟩ := Prod.mk.inj heq
    rw [readValues_extends h _ t vs left hvalues]
    rfl

theorem readKind_extends (h : Extends more read read') (kind : UInt8) (line : List UInt8) :
    Extends more (readKind read kind line) (readKind read' kind line) := by
  intro t v rest hread
  rw [readKind] at hread ⊢
  split_ifs at hread ⊢ with hsimple herror hinteger hbulk harray
  · obtain ⟨rfl, rfl⟩ := Prod.mk.inj (Option.some.inj hread)
    rfl
  · obtain ⟨n, hn, heq⟩ := Option.map_eq_some_iff.mp hread
    obtain ⟨rfl, rfl⟩ := Prod.mk.inj heq
    rw [hn]
    rfl
  · obtain ⟨length, hlength, hread⟩ := Option.bind_eq_some_iff.mp hread
    rw [hlength, Option.bind_some]
    exact readBulkString_extends length t v rest hread
  · obtain ⟨count, hcount, hread⟩ := Option.bind_eq_some_iff.mp hread
    rw [hcount, Option.bind_some]
    exact readArray_extends h count t v rest hread

end Extends

/-- A reply that has been read is read as well when more bytes follow it. -/
theorem readDepth_extends {more : List UInt8} {depth depth' : ℕ} (hle : depth ≤ depth') :
    Extends more (readDepth depth) (readDepth depth') := by
  induction depth generalizing depth' with
  | zero =>
    intro t v rest h
    cases h
  | succ depth ih =>
    obtain ⟨depth', rfl⟩ := Nat.exists_eq_succ_of_ne_zero (Nat.ne_of_gt (Nat.zero_lt_of_lt hle))
    intro t v rest h
    cases t with
    | nil => cases h
    | cons kind t =>
      rw [readDepth] at h
      obtain ⟨⟨line, left⟩, hline, h⟩ := Option.bind_eq_some_iff.mp h
      rw [List.cons_append, readDepth, readLine_extends lineSize t line left hline,
        Option.bind_some]
      exact readKind_extends (ih (Nat.le_of_succ_le_succ hle)) kind line left v rest h

theorem readReply_append {t more rest : List UInt8} {v : Value}
    (h : readReply t = some (v, rest)) : readReply (t ++ more) = some (v, rest ++ more) := by
  refine readDepth_extends ?_ t v rest h
  rw [List.length_append]
  omega

/-- A reply that is cut off is not read. -/
theorem readReply_of_cut {reply : Reply} (hfits : Fits reply) {t lost : List UInt8}
    (h : t ++ lost = reply.encode) (hlost : lost ≠ []) : readReply t = none := by
  rcases hread : readReply t with _ | ⟨v, rest⟩
  · rfl
  · have hwhole := readReply_encode hfits []
    have hmore : readReply (t ++ lost) = some (v, rest ++ lost) := readReply_append hread
    rw [List.append_nil, ← h, hmore] at hwhole
    obtain ⟨w, -, heq⟩ := Option.map_eq_some_iff.mp hwhole.symm
    have hnil := (Prod.mk.inj heq).2
    exact absurd (List.append_eq_nil_iff.mp hnil.symm).2 hlost

/-! ## A connection -/

theorem metadata_iff {reply : Reply} {readTree : List UInt8 → Option Json} {found : Fields} :
    (∃ v, value reply = some v ∧ v.metadata readTree = some found) ↔
      ∃ json, value reply = some (.text json) ∧ (decode json).any isBlank = false ∧
        ∃ tree, readTree json = some tree ∧ metadata tree = found ∧ found ≠ [] := by
  constructor
  · rintro ⟨v, hv, hmetadata⟩
    obtain ⟨tree, htree, hfound⟩ := Option.bind_eq_some_iff.mp hmetadata
    obtain ⟨json, hdocument, hread⟩ := Option.bind_eq_some_iff.mp htree
    split_ifs at hfound with hempty
    have heq := Option.some.inj hfound
    -- Only a text can be a document.
    cases v with
    | text content =>
      rw [Value.document] at hdocument
      split_ifs at hdocument with hblank
      rw [← Option.some.inj hdocument] at hread
      refine ⟨content, hv, Bool.eq_false_of_not_eq_true hblank, tree, hread, heq, ?_⟩
      rw [← heq]
      exact fun hnil ↦ hempty (List.isEmpty_iff.mpr hnil)
    | number n => cases hdocument
    | null => cases hdocument
    | list vs => cases hdocument
  · rintro ⟨json, hv, hblank, tree, hread, rfl, hne⟩
    refine ⟨.text json, hv, ?_⟩
    rw [Value.metadata, Value.document, hblank, if_neg Bool.false_ne_true, Option.bind_some, hread,
      Option.bind_some, if_neg fun hempty ↦ hne (List.isEmpty_iff.mp hempty)]

section Connection

variable {reply : Reply} {t lost following rest : List UInt8}

/-- What is read of a reply whose bytes may be cut off: all of it, or nothing. -/
theorem readReply_iff (hfits : Fits reply) (h : t ++ lost = reply.encode ++ following) {v : Value} :
    readReply t = some (v, rest) ↔ value reply = some v ∧ rest ++ lost = following := by
  have hfull {left : List UInt8} (ht : t = reply.encode ++ left)
      (hleft : left ++ lost = following) :
      readReply t = some (v, rest) ↔ value reply = some v ∧ rest ++ lost = following := by
    rw [ht, readReply_encode hfits, ← hleft, List.append_cancel_right_eq, Option.map_eq_some_iff]
    constructor
    · rintro ⟨w, hw, heq⟩
      obtain ⟨rfl, rfl⟩ := Prod.mk.inj heq
      exact ⟨hw, rfl⟩
    · rintro ⟨hv, rfl⟩
      exact ⟨v, hv, rfl⟩
  obtain ⟨cut, hencode, hlost⟩ | ⟨left, ht, hleft⟩ := List.append_eq_append_iff.mp h
  -- either the reply is cut off, or all of it has arrived
  · by_cases hcut : cut = []
    · subst hcut
      rw [List.append_nil] at hencode
      exact @hfull [] (hencode.symm.trans (List.append_nil _).symm) hlost
    · constructor
      · intro hread
        rw [readReply_of_cut hfits hencode.symm hcut] at hread
        cases hread
      · rintro ⟨-, hrest⟩
        have hlength := congrArg List.length hrest
        rw [hlost, List.length_append, List.length_append] at hlength
        have hpositive := List.length_pos_of_ne_nil hcut
        omega
  · exact hfull ht hleft.symm

theorem check_iff (hfits : Fits reply) (h : t ++ lost = reply.encode ++ following)
    {test : Value → Bool} :
    check test t = some rest ↔
      (∃ v, value reply = some v ∧ test v = true) ∧ rest ++ lost = following := by
  rw [check, Option.bind_eq_some_iff]
  constructor
  · rintro ⟨⟨v, left⟩, hread, htest⟩
    obtain ⟨hv, hleft⟩ := (readReply_iff hfits h).mp hread
    split_ifs at htest with hv'
    rw [← Option.some.inj htest]
    exact ⟨⟨v, hv, hv'⟩, hleft⟩
  · rintro ⟨⟨v, hv, hv'⟩, hrest⟩
    exact ⟨(v, rest), (readReply_iff hfits h).mpr ⟨hv, hrest⟩, if_pos hv'⟩

/-- The last reply of a connection. -/
theorem readReply_last_iff (hfits : Fits reply) (h : t ++ lost = reply.encode)
    {readTree : List UInt8 → Option Json} {found : Fields} :
    ((readReply t).bind fun r ↦ r.1.metadata readTree) = some found ↔
      lost = [] ∧ ∃ v, value reply = some v ∧ v.metadata readTree = some found := by
  have hend : t ++ lost = reply.encode ++ [] := h.trans (List.append_nil _).symm
  rw [Option.bind_eq_some_iff]
  constructor
  · rintro ⟨⟨v, left⟩, hread, hdocument⟩
    obtain ⟨hv, hleft⟩ := (readReply_iff hfits hend).mp hread
    exact ⟨(List.append_eq_nil_iff.mp hleft).2, v, hv, hdocument⟩
  · rintro ⟨rfl, v, hv, hdocument⟩
    exact ⟨(v, []), (readReply_iff hfits hend).mpr ⟨hv, rfl⟩, hdocument⟩

/-- **A document is read whole, from a node that is what it has to be.** Whatever a node answers,
and wherever its answers are cut off, a document is read exactly when nothing is missing, the
password was accepted, the node called itself a primary if that is asked for, and one of the fields
that were asked for is there. -/
theorem readDocument_iff {auth role document : Reply} (hauth : Fits auth) (hrole : Fits role)
    (hdocument : Fits document) {requirePrimary : Bool}
    (h : t ++ lost =
      auth.encode ++ ((if requirePrimary then role.encode else []) ++ document.encode))
    (readTree : List UInt8 → Option Json) (found : Fields) :
    readDocument readTree requirePrimary t = some found ↔ lost = [] ∧
      (∃ v, value auth = some v ∧ v.isOk = true) ∧
      (requirePrimary = true → ∃ v, value role = some v ∧ v.isMaster = true) ∧
      ∃ json, value document = some (.text json) ∧ (decode json).any isBlank = false ∧
        ∃ tree, readTree json = some tree ∧ metadata tree = found ∧ found ≠ [] := by
  rw [← metadata_iff]
  rw [readDocument, Option.bind_eq_some_iff]
  cases requirePrimary with
  | false =>
    constructor
    · rintro ⟨left, hok, hread⟩
      obtain ⟨haccepted, hleft⟩ := (check_iff hauth h).mp hok
      obtain ⟨hlost, hdoc⟩ := (readReply_last_iff hdocument hleft).mp hread
      exact ⟨hlost, haccepted, fun hprimary ↦ absurd hprimary Bool.false_ne_true, hdoc⟩
    · rintro ⟨rfl, haccepted, -, hdoc⟩
      exact ⟨document.encode, (check_iff hauth h).mpr ⟨haccepted, List.append_nil _⟩,
        (readReply_last_iff hdocument (List.append_nil _)).mpr ⟨rfl, hdoc⟩⟩
  | true =>
    constructor
    · rintro ⟨left, hok, hread⟩
      obtain ⟨haccepted, hleft⟩ := (check_iff hauth h).mp hok
      obtain ⟨last, hmaster, hread⟩ := Option.bind_eq_some_iff.mp hread
      obtain ⟨hprimary, hlast⟩ := (check_iff hrole hleft).mp hmaster
      obtain ⟨hlost, hdoc⟩ := (readReply_last_iff hdocument hlast).mp hread
      exact ⟨hlost, haccepted, fun _ ↦ hprimary, hdoc⟩
    · rintro ⟨rfl, haccepted, hprimary, hdoc⟩
      have hleft : (role.encode ++ document.encode) ++ [] = role.encode ++ document.encode :=
        List.append_nil _
      refine ⟨role.encode ++ document.encode, (check_iff hauth h).mpr ⟨haccepted, hleft⟩,
        Option.bind_eq_some_iff.mpr ⟨document.encode, ?_, ?_⟩⟩
      · exact (check_iff hrole hleft).mpr ⟨hprimary rfl, List.append_nil _⟩
      · exact (readReply_last_iff hdocument (List.append_nil _)).mpr ⟨rfl, hdoc⟩

end Connection

/-! ## The fields of a document -/

/-! ## A primary -/

theorem ok_plain : ∀ c ∈ bytes "OK", c ≠ '\r'.toUInt8 ∧ c ≠ '\n'.toUInt8 := by
  have hletters : bytes "OK" = ['O'.toUInt8, 'K'.toUInt8] := by decide
  intro c hc
  rw [hletters] at hc
  rcases List.mem_cons.mp hc with rfl | hc
  · decide
  · rw [List.mem_singleton.mp hc]
    decide

def okLine : Resp.Line := ⟨bytes "OK", ok_plain⟩

/-- The role of a primary without replicas. -/
def masterRole : Reply := .array [.bulk (bytes "Master"), .integer 12, .array []]

def savedText : List UInt8 :=
  bytes "\x7b\"$[\\\"canvas-id\\\"]\":[7],\"$[\\\"people\\\"]\":[]\x7d"

def savedTree : Json :=
  .obj [(metadataPath "canvas-id", .arr [.int 7]), (metadataPath "people", .arr [])]

def readSaved (json : List UInt8) : Option Json := if json = savedText then some savedTree else none

def primaryAnswers : List UInt8 :=
  (Reply.simple okLine).encode ++ (masterRole.encode ++ (Reply.bulk savedText).encode)

theorem accepted_fits : Fits (.simple okLine) := by
  have hlength : okLine.text.length < lineSize := by decide
  exact hlength

theorem masterRole_fits : Fits masterRole := by
  have hbulk : ((bytes "Master").length : ℤ) ≤ maxBulk := by decide
  have hthree : (3 : ℤ) ≤ maxElements := by decide
  have hnone : (0 : ℤ) ≤ maxElements := by decide
  have hnumber : (-9223372036854775808 : ℤ) ≤ 12 ∧ (12 : ℤ) < 9223372036854775808 := by decide
  exact ⟨hthree, hbulk, hnumber, ⟨hnone, trivial⟩, trivial⟩

theorem savedText_fits : Fits (.bulk savedText) := by
  have hlength : (savedText.length : ℤ) ≤ maxBulk := by decide
  exact hlength

theorem primary_read :
    readDocument readSaved true primaryAnswers = some [("canvas-id", .int 7)] := by
  have hbytes : primaryAnswers ++ [] = (Reply.simple okLine).encode ++
      ((if true then masterRole.encode else []) ++ (Reply.bulk savedText).encode) :=
    List.append_nil _
  have hmetadata : metadata savedTree = [("canvas-id", .int 7)] := by decide +kernel
  refine (readDocument_iff accepted_fits masterRole_fits savedText_fits hbytes _ _).mpr
    ⟨rfl, ⟨_, rfl, ?_⟩, fun _ ↦ ⟨_, rfl, ?_⟩, _, rfl, ?_, savedTree, if_pos rfl, hmetadata,
      List.cons_ne_nil _ _⟩
  · decide
  · decide +kernel
  · decide +kernel

end RedisReader

end Agora
