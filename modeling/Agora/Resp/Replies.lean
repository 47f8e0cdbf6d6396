import Agora.Resp.Reader
import Mathlib.Data.List.Induction

/-!
# Replies in step with commands

The replies of Redis as trees, with the bytes they are sent as and the text that the client makes
of them. However the bytes arrive, the client either reads exactly those of one reply or closes
the connection; when nothing stalls and the reply is within the limits, it reads it.

**Main result.** `execute_in_step`, for one command and for all the commands of a client.
-/

namespace Agora

namespace Resp

open Transport

/-! ## Replies -/

/-- A text that is sent as a line. -/
structure Line where
  text : List UInt8
  plain : ∀ c ∈ text, c ≠ '\r'.toUInt8 ∧ c ≠ '\n'.toUInt8

inductive Reply where
  | simple (line : Line)
  | error (line : Line)
  | integer (value : ℤ)
  | bulk (content : List UInt8)
  | nil
  | nilArray
  | array (items : List Reply)

/-- The end of a line. -/
def crlf : List UInt8 := ['\r'.toUInt8, '\n'.toUInt8]

def decimalOf (n : ℕ) : List UInt8 := bytes n.repr

mutual

/-- The bytes of a reply. -/
def Reply.encode : Reply → List UInt8
  | .simple line => '+'.toUInt8 :: line.text ++ crlf
  | .error line => '-'.toUInt8 :: line.text ++ crlf
  | .integer value => ':'.toUInt8 :: bytes (toString value) ++ crlf
  | .bulk content =>
    '$'.toUInt8 :: decimalOf content.length ++ crlf ++ (content ++ crlf)
  | .nil => '$'.toUInt8 :: bytes "-1" ++ crlf
  | .nilArray => '*'.toUInt8 :: bytes "-1" ++ crlf
  | .array items => '*'.toUInt8 :: decimalOf items.length ++ crlf ++ encodeAll items

def encodeAll : List Reply → List UInt8
  | [] => []
  | reply :: replies => reply.encode ++ encodeAll replies

end

mutual

/-- The text that the client makes of a reply; a null is the empty text. -/
def Reply.text : Reply → List UInt8
  | .simple line => line.text
  | .error line => kRedisErrorMarker :: line.text
  | .integer value => bytes (toString value)
  | .bulk content => content
  | .nil | .nilArray => []
  | .array items => textAll true items

def textAll : Bool → List Reply → List UInt8
  | _, [] => []
  | first, reply :: replies =>
    (if first then [] else [' '.toUInt8]) ++ reply.text ++ textAll false replies

end

mutual

/-- A reply that the client does not close its connection at. -/
def Reply.Fits : Reply → Prop
  | .simple line => line.text.length < lineLimit
  | .error line => line.text.length < lineLimit ∧
      ¬(bytes "READONLY" <+: line.text ∨ bytes "MASTERDOWN" <+: line.text)
  | .integer value => (bytes (toString value)).length < lineLimit
  | .bulk content => content.length ≤ kMaximumRedisBulkReplyBytes
  | .nil | .nilArray => True
  | .array items => items.length ≤ kMaximumRedisArrayElements ∧ FitAll items

def FitAll : List Reply → Prop
  | [] => True
  | reply :: replies => reply.Fits ∧ FitAll replies

end

/-! ## Numbers -/

theorem toNat_toUInt8_of_isDigit {c : Char} (h : c.isDigit = true) :
    c.toUInt8.toNat = c.toNat ∧ 48 ≤ c.toNat ∧ c.toNat ≤ 57 := by
  rw [Char.isDigit, Bool.and_eq_true, decide_eq_true_eq, decide_eq_true_eq,
    ge_iff_le, UInt32.le_iff_toNat_le, UInt32.le_iff_toNat_le] at h
  have hlow : 48 ≤ c.toNat := h.1
  have hhigh : c.toNat ≤ 57 := h.2
  have hval : c.toUInt8.toNat = c.toNat % 256 := rfl
  omega

theorem isDigit_of_mem_decimal {n : ℕ} {c : Char} (h : c ∈ n.repr.toList) : c.isDigit = true := by
  rw [Nat.toList_repr] at h
  exact Nat.isDigit_of_mem_toDigits (by decide) (by decide) h

/-- The digits of a number are bytes between those of `0` and `9`. -/
theorem mem_decimalOf {n : ℕ} {b : UInt8} (h : b ∈ decimalOf n) : 48 ≤ b.toNat ∧ b.toNat ≤ 57 := by
  obtain ⟨c, hc, rfl⟩ := List.mem_map.mp h
  obtain ⟨heq, hrange⟩ := toNat_toUInt8_of_isDigit (isDigit_of_mem_decimal hc)
  rwa [heq]

theorem ne_return_of_digit {b : UInt8} (h : 48 ≤ b.toNat ∧ b.toNat ≤ 57) : b ≠ '\r'.toUInt8 := by
  rintro rfl
  exact absurd h.1 (by decide)

theorem return_notMem_integer (value : ℤ) : '\r'.toUInt8 ∉ bytes (toString value) := by
  have hdigits (n : ℕ) : '\r'.toUInt8 ∉ decimalOf n :=
    fun hmem ↦ ne_return_of_digit (mem_decimalOf hmem) rfl
  match value with
  | .ofNat n => exact hdigits n
  | .negSucc n =>
    have hsign : bytes (toString (Int.negSucc n)) = '-'.toUInt8 :: decimalOf (n + 1) := by
      rw [show toString (Int.negSucc n) = "-" ++ (n + 1).repr from rfl, bytes,
        String.toList_append, List.map_append]
      rfl
    rw [hsign, List.mem_cons, not_or]
    exact ⟨by decide, hdigits _⟩

theorem decimal_decimalOf (n : ℕ) : decimal (decimalOf n) = n := by
  have hfold (l : List Char) (hl : ∀ c ∈ l, c.isDigit = true) (value : ℕ) :
      (l.map Char.toUInt8).foldl (fun value c ↦ value * 10 + (c.toNat - '0'.toNat)) value =
        Nat.ofDigitChars 10 l value := by
    induction l generalizing value with
    | nil => rfl
    | cons c l ih =>
      obtain ⟨hc, hl⟩ := List.forall_mem_cons.mp hl
      rw [List.map_cons, List.foldl_cons, ih hl, Nat.ofDigitChars_cons,
        (toNat_toUInt8_of_isDigit hc).1, Nat.mul_comm value 10]
  rw [decimal, decimalOf, bytes, hfold _ (fun c hc ↦ isDigit_of_mem_decimal hc), Nat.toList_repr,
    Nat.ofDigitChars_ten_toDigits]

theorem decimalOf_ne_nil (n : ℕ) : decimalOf n ≠ [] := by
  rw [decimalOf, bytes, Nat.toList_repr, ne_eq, List.map_eq_nil_iff]
  exact Nat.toDigits_ne_nil

theorem isdigit_of_mem_decimalOf {n : ℕ} {b : UInt8} (h : b ∈ decimalOf n) : isdigit b = true := by
  obtain ⟨hlow, hhigh⟩ := mem_decimalOf h
  rw [isdigit, Bool.and_eq_true, decide_eq_true_eq, decide_eq_true_eq, UInt8.le_iff_toNat_le,
    UInt8.le_iff_toNat_le]
  exact ⟨hlow, hhigh⟩

/-- A number that fits in 64 bits is read back. -/
theorem parseRespLength_decimalOf (n : ℕ) :
    parseRespLength (decimalOf n) =
      if n ≤ 9223372036854775807 then some (n : ℤ) else none := by
  obtain ⟨c, digits, hdigits⟩ := List.exists_cons_of_ne_nil (decimalOf_ne_nil n)
  have hc := mem_decimalOf (hdigits ▸ List.mem_cons_self)
  have hne {b : UInt8} (hb : b.toNat < 48) : c ≠ b := by
    rintro rfl
    omega
  have hspace : isspace c = false := by
    rw [isspace, Bool.or_eq_false_iff, Bool.and_eq_false_iff]
    refine ⟨decide_eq_false (hne (by decide)), Or.inr (decide_eq_false ?_)⟩
    rw [UInt8.le_iff_toNat_le, not_le]
    exact lt_of_lt_of_le (by decide) hc.1
  have hsigned : signed (c :: digits) = (false, c :: digits) := by
    rw [signed, if_neg (hne (by decide)), if_neg (hne (by decide))]
  have hall : (decimalOf n).all isdigit = true :=
    List.all_eq_true.mpr fun b hb ↦ isdigit_of_mem_decimalOf hb
  rw [parseRespLength, hdigits, List.dropWhile_cons_of_neg (by rw [hspace]; decide), hsigned,
    ← hdigits]
  dsimp only
  rw [decimal_decimalOf, hall, List.isEmpty_eq_false_iff.mpr (decimalOf_ne_nil n)]
  by_cases hle : n ≤ 9223372036854775807
  · rw [if_pos hle, if_neg (by decide), if_neg (by rw [if_neg (by decide)]; omega),
      if_neg (by decide)]
  · rw [if_neg hle, if_neg (by decide), if_pos (by rw [if_neg (by decide)]; omega)]

theorem length_decimalOf_le {n k : ℕ} (hk : 0 < k) (h : n < 10 ^ k) :
    (decimalOf n).length ≤ k := by
  rw [decimalOf, bytes, List.length_map, Nat.toList_repr]
  exact (Nat.length_toDigits_le_iff (by decide) hk).mpr h

/-! ## Lines -/

/-- A line that was read is the line that was sent, when that has no end inside. -/
theorem of_readLine {room : ℕ} {t t' : Stream UInt8} {read line lost following : List UInt8}
    (h : readLine room t = some (read, t')) (hline : '\r'.toUInt8 ∉ line)
    (hbytes : t.bytes ++ lost = line ++ crlf ++ following) :
    read = line ∧ t'.bytes ++ lost = following := by
  have hstep {readRest : Stream UInt8 → Option (List UInt8 × Stream UInt8)} {t : Stream UInt8}
      {read line : List UInt8} (h : readLineWith readRest t = some (read, t'))
      (hline : '\r'.toUInt8 ∉ line) (hbytes : t.bytes ++ lost = line ++ crlf ++ following)
      (hrest : ∀ {read line}, readRest (t.read 1).2 = some (read, t') → '\r'.toUInt8 ∉ line →
        (t.read 1).2.bytes ++ lost = line ++ crlf ++ following →
        read = line ∧ t'.bytes ++ lost = following) :
      read = line ∧ t'.bytes ++ lost = following := by
    have hfirst := t.read_bytes 1
    obtain ⟨hc, hnext, rfl, rfl⟩ | ⟨c, read', hc, hne, rfl, hread⟩ := readLineWith_cases h
    · have hsecond := (t.read 1).2.read_bytes 1
      rw [← hfirst, ← hsecond, hc, hnext] at hbytes
      match line, hline with
      | [], _ => exact ⟨rfl, (List.cons.inj (List.cons.inj hbytes).2).2⟩
      | b :: line, hline =>
        exact absurd (List.cons.inj hbytes).1.symm (List.ne_of_not_mem_cons hline).symm
    · rw [← hfirst, hc] at hbytes
      match line, hline with
      | [], _ => exact absurd (List.cons.inj hbytes).1 hne
      | b :: line, hline =>
        obtain ⟨rfl, htail⟩ := List.cons.inj hbytes
        obtain ⟨rfl, hfollowing⟩ := hrest hread (List.not_mem_of_not_mem_cons hline) htail
        exact ⟨rfl, hfollowing⟩
  induction room generalizing t read line with
  | zero => exact hstep h hline hbytes fun hnone ↦ nomatch hnone
  | succ room ih => exact hstep h hline hbytes fun hread hline hbytes ↦ ih hread hline hbytes

theorem steady_read_one {t : Stream UInt8} (h : Stream.Steady t) {c : UInt8} {rest : List UInt8}
    (hbytes : t.bytes = c :: rest) :
    (t.read 1).1 = [c] ∧ (t.read 1).2.bytes = rest ∧ Stream.Steady (t.read 1).2 := by
  have hne := h.read_ne_nil one_ne_zero (by rw [hbytes]; exact List.cons_ne_nil c rest)
  have hlength := t.length_read_le 1
  obtain ⟨b, bs, hread⟩ := List.exists_cons_of_ne_nil hne
  rw [hread, List.length_cons] at hlength
  obtain rfl : bs = [] := List.length_eq_zero_iff.mp (by omega)
  have hfirst := t.read_bytes 1
  rw [hread, hbytes, List.singleton_append] at hfirst
  obtain ⟨rfl, hrest⟩ := List.cons.inj hfirst
  exact ⟨hread, hrest, h.read 1⟩

/-- A line that there is room for is read, when nothing stalls. -/
theorem readLine_steady {room : ℕ} {t : Stream UInt8} (h : Stream.Steady t)
    {line following : List UInt8} (hroom : line.length ≤ room) (hline : '\r'.toUInt8 ∉ line)
    (hbytes : t.bytes = line ++ crlf ++ following) :
    ∃ t', readLine room t = some (line, t') ∧ Stream.Steady t' := by
  induction line generalizing room t with
  | nil =>
    obtain ⟨hreturn, hrest, hsteady⟩ := steady_read_one h hbytes
    obtain ⟨hnewline, -, hsteady'⟩ := steady_read_one hsteady hrest
    refine ⟨_, ?_, hsteady'⟩
    have hread (readRest : Stream UInt8 → Option (List UInt8 × Stream UInt8)) :
        readLineWith readRest t = some ([], ((t.read 1).2.read 1).2) := by
      rw [readLineWith]
      dsimp only
      rw [hreturn, hnewline]
      rfl
    rcases room with _ | room
    · exact hread _
    · exact hread _
  | cons c line ih =>
    obtain ⟨hc, hrest, hsteady⟩ := steady_read_one h hbytes
    rcases room with _ | room
    · exact absurd hroom (Nat.not_succ_le_zero _)
    · obtain ⟨t', hread, hsteady'⟩ := ih hsteady (Nat.le_of_succ_le_succ hroom)
        (List.not_mem_of_not_mem_cons hline) hrest
      refine ⟨t', ?_, hsteady'⟩
      rw [readLine, readLineWith]
      dsimp only
      rw [hc]
      dsimp only
      rw [if_neg (List.ne_of_not_mem_cons hline).symm, hread]
      rfl

/-! ## One reply -/

/-- How something that is sent is read: its text comes back and the stream is left right after it,
or the connection is closed; what is within the limits comes back when nothing stalls. -/
structure Reads (fits : Prop) (text following lost : List UInt8) (t : Stream UInt8)
    (r : List UInt8 × Connection) : Prop where
  in_step : r.2 = none ∨ ∃ t', r = (text, some t') ∧ t'.bytes ++ lost = following
  answers : fits → Stream.Steady t → lost = [] → ∃ t', r = (text, some t') ∧ Stream.Steady t'

section Reading

variable {fits : Prop} {text following lost : List UInt8} {t : Stream UInt8}
  {read : Connection → List UInt8 × Connection}

/-- What is refused at once is outside the limits. -/
theorem Reads.refused {r : List UInt8 × Connection} (h : r.2 = none) (hfits : ¬fits) :
    Reads fits text following lost t r :=
  ⟨Or.inl h, fun h ↦ absurd h hfits⟩

theorem Reads.imp {fits' : Prop} {r : List UInt8 × Connection}
    (h : Reads fits' text following lost t r) (himp : fits → fits') :
    Reads fits text following lost t r :=
  ⟨h.in_step, fun hfits ↦ h.answers (himp hfits)⟩

theorem Reads.done (text : List UInt8) (h : t.bytes ++ lost = following) :
    Reads fits text following lost t (text, some t) :=
  ⟨Or.inr ⟨t, rfl, h⟩, fun _ hsteady _ ↦ ⟨t, rfl, hsteady⟩⟩

/-- What is within the limits is read to its end, when nothing stalls. -/
theorem Reads.to_end {r : List UInt8 × Connection} (h : Reads fits text following lost t r)
    (hfits : fits) (hsteady : Stream.Steady t) (hlost : lost = []) :
    ∃ t', r = (text, some t') ∧ Stream.Steady t' ∧ t'.bytes ++ lost = following := by
  obtain ⟨t', rfl, hsteady'⟩ := h.answers hfits hsteady hlost
  rcases h.in_step with hclosed | ⟨t'', heq, hfollowing⟩
  · nomatch hclosed
  · obtain ⟨-, hsome⟩ := Prod.mk.inj heq
    exact ⟨t', rfl, hsteady', Option.some.inj hsome ▸ hfollowing⟩

/-- A line is read before what it announces. -/
theorem Reads.line {type : UInt8} {rest announced : List UInt8}
    (hroom : fits → rest.length < lineLimit)
    (hline : '\r'.toUInt8 ∉ type :: rest)
    (hbytes : t.bytes ++ lost = (type :: rest) ++ crlf ++ announced)
    (h : ∀ t', t'.bytes ++ lost = announced →
      Reads fits text following lost t' (readTyped read type rest t')) :
    Reads fits text following lost t (readWith read (some t)) := by
  rw [readWith]
  rcases hread : readLine lineLimit t with _ | ⟨line, t'⟩
  · refine ⟨Or.inl rfl, fun hfits hsteady hlost ↦ ?_⟩
    rw [hlost, List.append_nil] at hbytes
    obtain ⟨t', hsome, -⟩ := readLine_steady hsteady (hroom hfits) hline hbytes
    rw [hread] at hsome
    nomatch hsome
  · obtain ⟨rfl, hannounced⟩ := of_readLine hread hline hbytes
    refine ⟨(h t' hannounced).in_step, fun hfits hsteady hlost ↦ ?_⟩
    subst hlost
    rw [List.append_nil] at hbytes
    obtain ⟨t'', hsome, hsteady'⟩ := readLine_steady hsteady (hroom hfits) hline hbytes
    obtain ⟨-, rfl⟩ := Prod.mk.inj (Option.some.inj (hread.symm.trans hsome))
    exact (h t' hannounced).answers hfits hsteady' rfl

/-- A number is announced as what is read, when it is within its limit. -/
theorem readAnnounced_decimalOf {limit : ℕ} (hlimit : limit ≤ 9223372036854775807) (n : ℕ)
    (t : Stream UInt8) (readMany : ℕ → List UInt8 × Connection) :
    readAnnounced limit (decimalOf n) t readMany =
      if n ≤ limit then readMany n else ([], none) := by
  rw [readAnnounced, parseRespLength_decimalOf]
  by_cases hfits : n ≤ 9223372036854775807
  · rw [if_pos hfits]
    dsimp only
    by_cases hn : n ≤ limit
    · rw [if_pos hn, if_neg (by omega), if_neg (by omega), Int.toNat_natCast]
    · rw [if_neg hn, if_pos (by omega)]
  · rw [if_neg hfits, if_neg (by omega)]

theorem readTyped_bulk (n : ℕ) (t : Stream UInt8) :
    readTyped read '$'.toUInt8 (decimalOf n) t =
      if n ≤ kMaximumRedisBulkReplyBytes then readBulk n t else ([], none) := by
  rw [readTyped, if_neg (by decide), if_neg (by decide), if_pos rfl]
  exact readAnnounced_decimalOf (by decide) n t _

theorem readTyped_array (n : ℕ) (t : Stream UInt8) :
    readTyped read '*'.toUInt8 (decimalOf n) t =
      if n ≤ kMaximumRedisArrayElements then readItems read true n (some t) else ([], none) := by
  rw [readTyped, if_neg (by decide), if_neg (by decide), if_neg (by decide), if_pos rfl]
  exact readAnnounced_decimalOf (by decide) n t _

/-- A string and the end of its line are read by their lengths. -/
theorem Reads.bulk {content : List UInt8}
    (hbytes : t.bytes ++ lost = content ++ (crlf ++ following)) :
    Reads fits content following lost t (readBulk content.length t) := by
  have hfull (h : (t.readExact content.length).1.length = content.length) :=
    Stream.of_readExact h rfl hbytes
  rw [readBulk]
  split
  · next hfailed =>
    refine ⟨Or.inl rfl, fun _ hsteady hlost ↦ absurd hfailed ?_⟩
    subst hlost
    have hlength := congrArg List.length hbytes
    rw [List.append_nil, List.length_append, List.length_append] at hlength
    have hresult := hsteady.length_readExact (by omega : content.length ≤ t.bytes.length)
    obtain ⟨-, hrest⟩ := hfull hresult
    have hlength' := congrArg List.length hrest
    rw [List.append_nil, List.length_append] at hlength'
    have hroom : 2 ≤ (t.readExact content.length).2.bytes.length := by
      rw [hlength']
      exact Nat.le_add_right 2 _
    have hcrlf := (hsteady.readExact content.length).length_readExact hroom
    obtain ⟨heq, -⟩ := Stream.of_readExact hcrlf (by rfl : crlf.length = 2) hrest
    rw [hresult, heq]
    simp [crlf]
  · next hread =>
    rw [Bool.or_eq_true, not_or, decide_eq_true_eq, decide_eq_true_eq, not_not, not_not] at hread
    obtain ⟨heq, hrest⟩ := hfull hread.1
    have hcrlf := congrArg List.length hread.2
    obtain ⟨-, hfollowing⟩ := Stream.of_readExact hcrlf (by rfl : crlf.length = 2) hrest
    rw [heq]
    refine ⟨Or.inr ⟨_, rfl, hfollowing⟩, fun _ hsteady _ ↦ ⟨_, rfl, ?_⟩⟩
    exact (hsteady.readExact _).readExact 2

end Reading

theorem Line.notMem_cons (line : Line) {type : UInt8} (h : '\r'.toUInt8 ≠ type) :
    '\r'.toUInt8 ∉ type :: line.text :=
  List.not_mem_cons_of_ne_of_not_mem h fun hmem ↦ (line.plain _ hmem).1 rfl

theorem return_notMem_length (n : ℕ) {type : UInt8} (h : '\r'.toUInt8 ≠ type) :
    '\r'.toUInt8 ∉ type :: decimalOf n :=
  List.not_mem_cons_of_ne_of_not_mem h fun hmem ↦ ne_return_of_digit (mem_decimalOf hmem) rfl

/-- A number within a limit of bytes or elements has room in a line. -/
theorem room_of_le {limit n : ℕ} (hlimit : limit < 10 ^ 9) (h : n ≤ limit) :
    (decimalOf n).length < lineLimit :=
  lt_of_le_of_lt (length_decimalOf_le (by decide) (lt_of_le_of_lt h hlimit)) (by decide)

theorem readResponse_none : readResponse none = ([], none) := rfl

theorem readItems_none (first : Bool) (count : ℕ) :
    (readItems readResponse first count none).2 = none := by
  induction count generalizing first with
  | zero => rfl
  | succ count ih =>
    rw [readItems, readResponse_none]
    exact ih false

mutual

/-- However its bytes arrive, a reply is read as it was sent or the connection is closed. -/
theorem reads (reply : Reply) {t : Stream UInt8} {following lost : List UInt8}
    (h : t.bytes ++ lost = reply.encode ++ following) :
    Reads reply.Fits reply.text following lost t (readResponse (some t)) := by
  rw [readResponse_eq]
  match reply with
  | .simple line =>
    refine Reads.line id (line.notMem_cons (by decide)) h fun t' ht' ↦ ?_
    rw [readTyped, if_neg (by decide), if_pos (by decide)]
    exact Reads.done _ ht'
  | .error line =>
    refine Reads.line And.left (line.notMem_cons (by decide)) h fun t' ht' ↦ ?_
    rw [readTyped, if_pos rfl]
    split
    · next hdown => exact Reads.refused rfl fun hfits ↦ hfits.2 hdown
    · exact Reads.done _ ht'
  | .integer value =>
    refine Reads.line id ?_ h fun t' ht' ↦ ?_
    · exact List.not_mem_cons_of_ne_of_not_mem (by decide) (return_notMem_integer value)
    · rw [readTyped, if_neg (by decide), if_pos (by decide)]
      exact Reads.done _ ht'
  | .bulk content =>
    rw [Reply.encode, List.append_assoc] at h
    refine Reads.line (room_of_le (by decide)) (return_notMem_length _ (by decide)) h
      fun t' ht' ↦ ?_
    rw [readTyped_bulk]
    split
    · exact Reads.bulk ((ht'.trans (List.append_assoc ..)))
    · next hlarge => exact Reads.refused rfl hlarge
  | .nil =>
    refine Reads.line (fun _ ↦ by decide) (by decide) h fun t' ht' ↦ ?_
    exact Reads.done _ ht'
  | .nilArray =>
    refine Reads.line (fun _ ↦ by decide) (by decide) h fun t' ht' ↦ ?_
    exact Reads.done _ ht'
  | .array items =>
    rw [Reply.encode, List.append_assoc] at h
    refine Reads.line (fun hfits ↦ room_of_le (by decide) hfits.1)
      (return_notMem_length _ (by decide)) h fun t' ht' ↦ ?_
    rw [readTyped_array]
    split
    · exact (readsAll items true ht').imp And.right
    · next hlarge => exact Reads.refused rfl fun hfits ↦ hlarge hfits.1

theorem readsAll (replies : List Reply) (first : Bool) {t : Stream UInt8}
    {following lost : List UInt8} (h : t.bytes ++ lost = encodeAll replies ++ following) :
    Reads (FitAll replies) (textAll first replies) following lost t
      (readItems readResponse first replies.length (some t)) := by
  match replies with
  | [] => exact Reads.done _ h
  | reply :: replies =>
    rw [encodeAll, List.append_assoc] at h
    have hreply := reads reply h
    rw [List.length_cons, readItems]
    refine ⟨?_, ?_⟩
    · rcases hreply.in_step with hclosed | ⟨t', hread, hrest⟩
      · rw [hclosed]
        exact Or.inl (readItems_none _ _)
      · rw [hread]
        rcases (readsAll replies false hrest).in_step with hclosed | ⟨t'', hread', hfollowing⟩
        · exact Or.inl hclosed
        · rw [hread']
          exact Or.inr ⟨t'', rfl, hfollowing⟩
    · rintro ⟨hfits, hall⟩ hsteady hlost
      obtain ⟨t', hread, hsteady', hrest⟩ := hreply.to_end hfits hsteady hlost
      obtain ⟨t'', hread', hsteady''⟩ :=
        (readsAll replies false hrest).answers hall hsteady' hlost
      rw [hread, hread']
      exact ⟨t'', rfl, hsteady''⟩

end

/-! ## The commands of a client -/

/-- A command whose reply is read answers with it and leaves the stream right after it; otherwise
the connection is closed. -/
theorem execute_reply (reply : Reply) {t : Stream UInt8} {following lost : List UInt8}
    (h : t.bytes ++ lost = reply.encode ++ following) :
    (∃ t', execute (some t) = (some reply.text, some t') ∧ t'.bytes ++ lost = following) ∨
      execute (some t) = (none, none) := by
  rw [execute]
  rcases (reads reply h).in_step with hclosed | ⟨t', hread, hfollowing⟩
  · obtain ⟨response, hread⟩ : ∃ response, readResponse (some t) = (response, none) :=
      ⟨_, Prod.ext rfl hclosed⟩
    rw [hread]
    exact Or.inr rfl
  · rw [hread]
    exact Or.inl ⟨t', rfl, hfollowing⟩

/-- A reply within the limits that arrives without a stall answers its command. -/
theorem execute_of_fits (reply : Reply) {t : Stream UInt8} {following : List UInt8}
    (hfits : reply.Fits) (hsteady : Stream.Steady t) (h : t.bytes = reply.encode ++ following) :
    ∃ t', execute (some t) = (some reply.text, some t') ∧ t'.bytes = following := by
  obtain ⟨t', hread, -, hfollowing⟩ :=
    (reads reply ((List.append_nil _).trans h)).to_end hfits hsteady rfl
  rw [execute, hread]
  exact ⟨t', rfl, (List.append_nil _).symm.trans hfollowing⟩

/-- A command, what Redis replies to it, the connection that a client without one gets for it, and
whether all of it is written. -/
structure Attempt where
  reply : Reply
  fresh : Connection
  sent : Bool

def Attempt.sendCommand (attempt : Attempt) (conn : Connection) : Connection :=
  match conn with
  | some t => if attempt.sent then some t else none
  | none => if attempt.sent then attempt.fresh else none

/-- What the commands of a client answer, one after the other. -/
def executeAll : List Attempt → Connection → List (Option (List UInt8))
  | [], _ => []
  | attempt :: attempts, conn =>
    let r := execute (attempt.sendCommand conn)
    r.1 :: executeAll attempts r.2

/-- A connection carries the replies to the commands that are sent on it, in their order and up to
where it breaks. -/
def Carries (conn : Connection) (attempts : List Attempt) : Prop :=
  ∀ t, conn = some t → t.bytes <+: encodeAll (attempts.map Attempt.reply)

/-- Every connection that is opened carries the replies to the commands from then on. -/
def Served : List Attempt → Prop
  | [] => True
  | attempt :: attempts => Carries attempt.fresh (attempt :: attempts) ∧ Served attempts

theorem Carries.sendCommand {attempt : Attempt} {attempts : List Attempt} {conn : Connection}
    (h : Carries conn (attempt :: attempts)) (hserved : Served (attempt :: attempts)) :
    Carries (attempt.sendCommand conn) (attempt :: attempts) := by
  intro t ht
  rw [Attempt.sendCommand.eq_def] at ht
  split at ht
  · split at ht
    · exact h t ht
    · nomatch ht
  · split at ht
    · exact hserved.1 t ht
    · nomatch ht

/-- One command keeps the client in step. -/
theorem Carries.execute {attempt : Attempt} {attempts : List Attempt} {conn : Connection}
    (h : Carries conn (attempt :: attempts)) :
    ((execute conn).1 = none ∨ (execute conn).1 = some attempt.reply.text) ∧
      Carries (execute conn).2 attempts := by
  match conn with
  | none => exact ⟨Or.inl rfl, nofun⟩
  | some t =>
    obtain ⟨lost, hlost⟩ := h t rfl
    rw [List.map_cons, encodeAll] at hlost
    rcases execute_reply attempt.reply hlost with ⟨t', heq, hrest⟩ | hclosed
    · rw [heq]
      refine ⟨Or.inr rfl, fun t'' ht ↦ ?_⟩
      exact Option.some.inj ht ▸ ⟨lost, hrest⟩
    · rw [hclosed]
      exact ⟨Or.inl rfl, nofun⟩

/-- No command of a client is answered with the reply to another. -/
theorem executeAll_in_step {attempts : List Attempt} (hserved : Served attempts)
    {conn : Connection} (h : Carries conn attempts) :
    List.Forall₂ (fun attempt answer ↦ answer = none ∨ answer = some attempt.reply.text)
      attempts (executeAll attempts conn) := by
  induction attempts generalizing conn with
  | nil => exact List.Forall₂.nil
  | cons attempt attempts ih =>
    obtain ⟨hanswer, hrest⟩ := (h.sendCommand hserved).execute
    exact List.Forall₂.cons hanswer (ih hserved.2 hrest)

/-- **Replies stay in step with commands.** However the bytes of a reply arrive, and wherever they
stall or end, the command consumes exactly them or closes the connection; so over all the commands
of a client each is answered with its own reply or not at all. -/
theorem execute_in_step :
    (∀ (reply : Reply) (t : Stream UInt8) (following lost : List UInt8),
      t.bytes ++ lost = reply.encode ++ following →
        ((∃ t', execute (some t) = (some reply.text, some t') ∧ t'.bytes ++ lost = following) ∨
          execute (some t) = (none, none)) ∧
        (reply.Fits → Stream.Steady t → lost = [] →
          ∃ t', execute (some t) = (some reply.text, some t') ∧ t'.bytes = following)) ∧
    ∀ (attempts : List Attempt) (conn : Connection), Served attempts → Carries conn attempts →
      List.Forall₂ (fun attempt answer ↦ answer = none ∨ answer = some attempt.reply.text)
        attempts (executeAll attempts conn) := by
  refine ⟨fun reply t following lost h ↦ ⟨execute_reply reply h, fun hfits hsteady hlost ↦ ?_⟩,
    fun attempts conn hserved h ↦ executeAll_in_step hserved h⟩
  rw [hlost, List.append_nil] at h
  exact execute_of_fits reply hfits hsteady h

/-- Three commands. The connection breaks within the second reply, and the third command opens
another one, on which its reply arrives in two pieces. -/
def broken : List Attempt :=
  [⟨.integer 1, some [.data (bytes ":1\r\n$2\r"), .stall, .data (bytes "\na")], true⟩,
    ⟨.bulk (bytes "ab"), none, true⟩,
    ⟨.integer 3, some [.data (bytes ":"), .data (bytes "3\r\n")], true⟩]

theorem carries_of_sent {t : Stream UInt8} {attempts : List Attempt}
    (h : t.bytes <+: encodeAll (attempts.map Attempt.reply)) : Carries (some t) attempts :=
  fun _ ht ↦ Option.some.inj ht ▸ h

theorem served_broken : Served broken :=
  ⟨carries_of_sent (by decide +kernel), fun _ ht ↦ (by cases ht),
    carries_of_sent (by decide +kernel), trivial⟩

theorem execute_in_step_broken :
    executeAll broken none = [some (bytes "1"), none, some (bytes "3")] ∧
      List.Forall₂ (fun attempt answer ↦ answer = none ∨ answer = some attempt.reply.text)
        broken (executeAll broken none) :=
  ⟨by decide +kernel, execute_in_step.2 broken none served_broken fun _ ht ↦ (by cases ht)⟩

end Resp

end Agora
