import Agora.Json.Path
import Agora.Json.Text

/-!
# Paths of the document memory

The path syntax of `MemoryClass.cpp`: `$`, then segments in dot notation (`.name`), quoted bracket
notation (`["name"]`, a JSON string literal) or index notation (`[7]`). Wildcards, filters and
slices are refused by `parseJsonPath`; such a path is still a path for RedisJSON, but the cache
does not know which part of the document it means.

**Canonical form.** `canonical` writes every key in quoted bracket notation. Regions of a document
are named by their canonical path, and parsing that name gives the segments back
(`parseJsonPath_canonical`), so two spellings of a path name the same region.
-/

namespace Agora

/-- `std::stoull`, on decimal digits: out of range from `2 ^ 64` on. -/
def stoull (digits : List Char) : Option ℕ :=
  if Nat.ofDigitChars 10 digits 0 < 2 ^ 64 then some (Nat.ofDigitChars 10 digits 0) else none

/-- A character of a key in dot notation. -/
def isDotKeyChar (c : Char) : Bool := c ≠ '.' ∧ c ≠ '['

/-- One segment of a path, with the text behind it. -/
def parseSegment : List Char → Option (Segment × List Char)
  | [] => none
  | c :: cs =>
    if c = '.' then
      let key := cs.takeWhile isDotKeyChar
      if key = [] then none
      else if key.any fun c ↦ c ∈ ['*', ':', '?', '@', '(', ')'] then none
      else some (.key (String.ofList key), cs.dropWhile isDotKeyChar)
    else if c ≠ '[' then none
    else if cs.head? = some JsonText.quoteChar then do
      let (literal, rest) ← JsonText.scanQuoted cs.tail
      if rest.head? = some ']' then
        let key ← JsonText.unescape literal
        return (.key (String.ofList key), rest.tail)
      else none
    else
      let digits := cs.takeWhile Char.isDigit
      let rest := cs.dropWhile Char.isDigit
      if digits = [] ∨ rest.head? ≠ some ']' then none
      else (stoull digits).map fun index ↦ (.index index, rest.tail)

/-- The segments of a path behind `$`. Every segment takes at least one character, so a text of
length `fuel` never runs out (`parseSegments_of_length_le`). -/
def parseSegments : ℕ → List Char → Option (List Segment)
  | _, [] => some []
  | 0, _ :: _ => none
  | fuel + 1, c :: cs => do
    let (segment, rest) ← parseSegment (c :: cs)
    let segments ← parseSegments fuel rest
    return segment :: segments

def parseJsonPath (path : String) : Option (List Segment) :=
  match path.toList with
  | [] => none
  | c :: cs => if c = '$' then parseSegments cs.length cs else none

/-- A segment in bracket notation. -/
def segmentText : Segment → List Char
  | .key key => '[' :: (JsonText.quote key.toList ++ [']'])
  | .index index => '[' :: (Nat.toDigits 10 index ++ [']'])

def canonical (segments : List Segment) : String :=
  String.ofList ('$' :: segments.flatMap segmentText)

abbrev setJsonPathValue (root : Json) (segments : List Segment) (value : Json) : Option Json :=
  root.set segments value

abbrev findJsonPathValue (root : Json) (segments : List Segment) : Option Json :=
  root.find segments

/-! ## Parsing -/

/-- An index that fits `std::size_t`. -/
def Segment.Fits : Segment → Prop
  | .key _ => True
  | .index i => i < 2 ^ 64

theorem stoull_lt {digits : List Char} {n : ℕ} (h : stoull digits = some n) : n < 2 ^ 64 := by
  rw [stoull] at h
  split at h
  · next hlt => rwa [← Option.some.inj h]
  · simp at h

theorem parseSegment_spec {cs rest : List Char} {s : Segment}
    (h : parseSegment cs = some (s, rest)) : Segment.Fits s ∧ rest.length < cs.length := by
  cases cs with
  | nil => simp [parseSegment] at h
  | cons c cs =>
    have hdrop : ∀ p : Char → Bool, (cs.dropWhile p).length ≤ cs.length := fun p ↦
      (List.dropWhile_sublist p).length_le
    rw [parseSegment] at h
    split_ifs at h with hdot hbracket hquote
    · simp only [Option.ite_none_left_eq_some, Option.some.injEq, Prod.mk.injEq] at h
      obtain ⟨-, -, rfl, rfl⟩ := h
      exact ⟨trivial, by have := hdrop isDotKeyChar; simp only [List.length_cons]; omega⟩
    · simp only [Option.bind_eq_bind, Option.bind_eq_some_iff, Prod.exists] at h
      obtain ⟨literal, text, hscan, h⟩ := h
      split_ifs at h
      simp only [Option.bind_eq_some_iff, Option.pure_def, Option.some.injEq,
        Prod.mk.injEq] at h
      obtain ⟨key, -, rfl, rfl⟩ := h
      have hlen := JsonText.length_of_scanQuoted hscan
      refine ⟨trivial, ?_⟩
      simp only [List.length_tail, List.length_cons] at hlen ⊢
      omega
    · simp only [Option.ite_none_left_eq_some, Option.map_eq_some_iff, Prod.mk.injEq] at h
      obtain ⟨-, index, hindex, rfl, rfl⟩ := h
      refine ⟨stoull_lt hindex, ?_⟩
      have := hdrop Char.isDigit
      simp only [List.length_tail, List.length_cons]
      omega

/-- More fuel than characters changes nothing. -/
theorem parseSegments_of_length_le {fuel : ℕ} {cs : List Char} (h : cs.length ≤ fuel) :
    parseSegments fuel cs = parseSegments cs.length cs := by
  induction fuel using Nat.strong_induction_on generalizing cs with
  | _ fuel ih =>
    cases cs with
    | nil => cases fuel <;> rfl
    | cons c cs =>
      obtain ⟨fuel, rfl⟩ : ∃ n, fuel = n + 1 :=
        Nat.exists_eq_add_of_lt (lt_of_lt_of_le (Nat.succ_pos _) h) |>.imp fun n hn ↦ by
          simpa using hn
      rw [List.length_cons, parseSegments, parseSegments]
      cases hs : parseSegment (c :: cs) with
      | none => rfl
      | some sr =>
        obtain ⟨s, rest⟩ := sr
        have hrest := (parseSegment_spec hs).2
        simp only [List.length_cons] at h hrest
        simp only [Option.bind_eq_bind, Option.bind_some]
        rw [ih fuel (by omega) (by omega), ← ih cs.length (by omega) (by omega)]

theorem parseSegments_fits {fuel : ℕ} {cs : List Char} {segments : List Segment}
    (h : parseSegments fuel cs = some segments) : ∀ s ∈ segments, Segment.Fits s := by
  induction fuel generalizing cs segments with
  | zero =>
    cases cs with
    | nil =>
      obtain rfl : [] = segments := Option.some.inj h
      simp
    | cons c cs => simp [parseSegments] at h
  | succ fuel ih =>
    cases cs with
    | nil =>
      obtain rfl : [] = segments := Option.some.inj h
      simp
    | cons c cs =>
      rw [parseSegments] at h
      simp only [Option.bind_eq_bind, Option.bind_eq_some_iff, Prod.exists, Option.pure_def,
        Option.some.injEq] at h
      obtain ⟨s, rest, hs, segments', hsegs, rfl⟩ := h
      intro t ht
      rcases List.mem_cons.mp ht with rfl | ht
      · exact (parseSegment_spec hs).1
      · exact ih hsegs t ht

/-- A parsed index fits `std::size_t`. -/
theorem parseJsonPath_fits {path : String} {segments : List Segment}
    (h : parseJsonPath path = some segments) : ∀ s ∈ segments, Segment.Fits s := by
  rw [parseJsonPath] at h
  split at h
  · simp at h
  · split_ifs at h
    exact parseSegments_fits h

/-! ## Canonical paths -/

theorem parseSegment_segmentText {s : Segment} (hs : Segment.Fits s) (rest : List Char) :
    parseSegment (segmentText s ++ rest) = some (s, rest) := by
  cases s with
  | key key =>
    have hscan := JsonText.scanQuoted_quote key.toList (']' :: rest)
    have hhead : (JsonText.quote key.toList ++ (']' :: rest)).head? = some JsonText.quoteChar := rfl
    rw [segmentText, List.cons_append, List.append_assoc, List.singleton_append, parseSegment,
      if_neg (by decide), if_neg (by decide), if_pos hhead, hscan]
    simp [JsonText.unescape_escape]
  | index index =>
    have hdigit : ∀ c ∈ Nat.toDigits 10 index, c.isDigit = true := fun c hc ↦
      Nat.isDigit_of_mem_toDigits (by decide) (by decide) hc
    have hhead : (Nat.toDigits 10 index ++ (']' :: rest)).head? ≠ some JsonText.quoteChar := by
      rw [List.head?_append_of_ne_nil _ Nat.toDigits_ne_nil]
      intro hq
      exact absurd (hdigit _ (List.mem_of_mem_head? hq)) (by decide)
    have htake : (Nat.toDigits 10 index ++ (']' :: rest)).takeWhile Char.isDigit
        = Nat.toDigits 10 index := by
      rw [List.takeWhile_append_of_pos hdigit, List.takeWhile_cons_of_neg (by decide),
        List.append_nil]
    have hdrop : (Nat.toDigits 10 index ++ (']' :: rest)).dropWhile Char.isDigit
        = ']' :: rest := by
      rw [List.dropWhile_append_of_pos hdigit, List.dropWhile_cons_of_neg (by decide)]
    have hstoull : stoull (Nat.toDigits 10 index) = some index := by
      rw [stoull, Nat.ofDigitChars_ten_toDigits]
      exact if_pos hs
    rw [segmentText, List.cons_append, List.append_assoc, List.singleton_append, parseSegment,
      if_neg (by decide), if_neg (by decide), if_neg hhead]
    simp only [htake, hdrop, hstoull]
    simp [Nat.toDigits_ne_nil]

theorem parseSegments_flatMap {segments : List Segment} (hfits : ∀ s ∈ segments, Segment.Fits s) :
    parseSegments (segments.flatMap segmentText).length (segments.flatMap segmentText)
      = some segments := by
  induction segments with
  | nil => rfl
  | cons s segments ih =>
    have hs := parseSegment_segmentText (hfits s List.mem_cons_self)
      (segments.flatMap segmentText)
    have ih := ih fun t ht ↦ hfits t (List.mem_cons_of_mem _ ht)
    rw [List.flatMap_cons]
    obtain ⟨c, cs, hcs⟩ : ∃ c cs, segmentText s = c :: cs := by cases s <;> exact ⟨_, _, rfl⟩
    rw [hcs, List.cons_append] at hs ⊢
    rw [List.length_cons, parseSegments, hs]
    simp only [Option.bind_eq_bind, Option.bind_some]
    rw [parseSegments_of_length_le (by simp), ih]
    rfl

/-- **A canonical path parses to the segments it was written from.** -/
theorem parseJsonPath_canonical {segments : List Segment}
    (hfits : ∀ s ∈ segments, Segment.Fits s) :
    parseJsonPath (canonical segments) = some segments := by
  rw [parseJsonPath, canonical, String.toList_ofList]
  exact parseSegments_flatMap hfits

example : parseJsonPath "$.items[\"a\"][10]"
    = some [.key "items", .key "a", .index 10] := by decide +kernel

example : parseJsonPath "$.items[*]" = none := by decide +kernel

end Agora
