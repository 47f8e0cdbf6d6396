import Agora.Json.Bytes
import Mathlib.Data.List.Basic
import Mathlib.Tactic.Common
import Mathlib.Algebra.GroupWithZero.Nat

/-!
# The keys of regions, in bytes

The paths of the document memory as the byte strings they are. A key in dot notation is taken as it
stands, whatever its bytes; a key in brackets is a literal, which holds well-formed UTF-8 only. The
canonical form writes every key as a literal, so that it exists just when all keys are well-formed:
a serializer throws otherwise.

**Main result.** Where the canonical form exists, it parses to the segments it was written from
(`parseJsonPath_canonical`), so it names a region (`region_eq_iff`). A path that is well-formed has
well-formed keys (`wellFormed_of_parseJsonPath`).
-/

namespace Agora

namespace RegionKeys

open JsonBytes

inductive Segment
  | key (key : List UInt8)
  | index (index : UInt64)
  deriving DecidableEq

def isdigit (c : UInt8) : Bool := '0'.toUInt8 ≤ c && c ≤ '9'.toUInt8

/-- `std::stoull`, on decimal digits; it throws from `2 ^ 64` on. -/
def stoull (digits : List UInt8) : Option UInt64 :=
  let n := Nat.ofDigitChars 10 (digits.map fun c ↦ Char.ofNat c.toNat) 0
  if n < 2 ^ 64 then some (UInt64.ofNat n) else none

def toString (n : UInt64) : List UInt8 := (Nat.toDigits 10 n.toNat).map Char.toUInt8

def isDotKeyByte (c : UInt8) : Bool := c ≠ '.'.toUInt8 ∧ c ≠ '['.toUInt8

/-- The bytes that no key in dot notation has. -/
def reserved : List UInt8 := "*:?@()".toList.map Char.toUInt8

/-- One segment of a path, with the text behind it. -/
def parseSegment : List UInt8 → Option (Segment × List UInt8)
  | [] => none
  | c :: cs =>
    if c = '.'.toUInt8 then
      let key := cs.takeWhile isDotKeyByte
      if key = [] then none
      else if key.any reserved.contains then none
      else some (.key key, cs.dropWhile isDotKeyByte)
    else if c ≠ '['.toUInt8 then none
    else if cs.head? = some quoteByte then do
      let (literal, rest) ← scanQuoted false cs.tail
      if rest.head? = some ']'.toUInt8 then
        let key ← unescape [] literal
        return (.key key, rest.tail)
      else none
    else
      let digits := cs.takeWhile isdigit
      let rest := cs.dropWhile isdigit
      if digits = [] ∨ rest.head? ≠ some ']'.toUInt8 then none
      else (stoull digits).map fun index ↦ (.index index, rest.tail)

theorem length_of_parseSegment {cs rest : List UInt8} {s : Segment}
    (h : parseSegment cs = some (s, rest)) : rest.length < cs.length := by
  rcases cs with _ | ⟨c, cs⟩
  · exact absurd h (by simp [parseSegment])
  · have hdrop : ∀ p : UInt8 → Bool, (cs.dropWhile p).length ≤ cs.length := fun p ↦
      (List.dropWhile_sublist p).length_le
    rw [parseSegment] at h
    split_ifs at h with hdot hbracket hquote
    · simp only [Option.ite_none_left_eq_some, Option.some.injEq, Prod.mk.injEq] at h
      obtain ⟨-, -, -, rfl⟩ := h
      exact Nat.lt_succ_of_le (hdrop isDotKeyByte)
    · simp only [Option.bind_eq_bind, Option.bind_eq_some_iff, Prod.exists] at h
      obtain ⟨literal, text, hscan, h⟩ := h
      split_ifs at h
      simp only [Option.bind_eq_some_iff, Option.pure_def, Option.some.injEq, Prod.mk.injEq] at h
      obtain ⟨key, -, -, rfl⟩ := h
      have hlength := length_of_scanQuoted hscan
      simp only [List.length_tail, List.length_cons] at hlength ⊢
      omega
    · simp only [Option.ite_none_left_eq_some, Option.map_eq_some_iff, Prod.mk.injEq] at h
      obtain ⟨-, index, -, -, rfl⟩ := h
      have hle := hdrop isdigit
      simp only [List.length_tail, List.length_cons]
      omega

/-- The segments of a path behind `$`. -/
def parseSegments (text : List UInt8) : Option (List Segment) :=
  match text with
  | [] => some []
  | c :: cs =>
    match _ : parseSegment (c :: cs) with
    | none => none
    | some (segment, rest) => (parseSegments rest).map (segment :: ·)
  termination_by text.length
  decreasing_by exact length_of_parseSegment ‹_›

def parseJsonPath (path : List UInt8) : Option (List Segment) :=
  match path with
  | [] => none
  | c :: cs => if c = '$'.toUInt8 then parseSegments cs else none

/-- A segment in bracket notation; the literal of a key may be missing. -/
def segmentText : Segment → Option (List UInt8)
  | .key key => (dump key).map fun literal ↦ '['.toUInt8 :: (literal ++ [']'.toUInt8])
  | .index index => some ('['.toUInt8 :: (toString index ++ [']'.toUInt8]))

/-- The canonical form, if no literal is missing: the serializer throws then. -/
def canonical (segments : List Segment) : Option (List UInt8) :=
  (segments.mapM segmentText).map fun texts ↦ '$'.toUInt8 :: texts.flatten

/-- What becomes of a path: it lies in no region, writing the key of the region throws, or it lies
in the region of this key, with the segments below it. -/
inductive Region
  | refused
  | threw
  | found (parent : List UInt8) (relative : List Segment)
  deriving DecidableEq

def region (regionDepth : ℕ) (path : List UInt8) : Region :=
  match parseJsonPath path with
  | none => .refused
  | some segments =>
    if segments.length < regionDepth then .refused
    else
      match canonical (segments.take regionDepth) with
      | none => .threw
      | some parent => .found parent (segments.drop regionDepth)

/-! ## Reading a canonical form -/

/-- An index is well-formed; a key may not be. -/
def Segment.wellFormed : Segment → Bool
  | .key text => JsonBytes.wellFormed [] text
  | .index _ => true

theorem segmentText_isSome (s : Segment) : (segmentText s).isSome = s.wellFormed := by
  rcases s with key | index
  · rw [segmentText, Option.isSome_map, dump, Segment.wellFormed]
    split_ifs with h
    · exact h.symm
    · exact (Bool.eq_false_iff.mpr h).symm
  · rfl

theorem isdigit_toUInt8 {c : Char} (hc : c.isDigit = true) :
    isdigit c.toUInt8 = true ∧ Char.ofNat c.toUInt8.toNat = c := by
  obtain ⟨hlo, hhi⟩ := Char.isDigit_iff_toNat.mp hc
  have hlo : 48 ≤ c.toNat := hlo
  have hhi : c.toNat ≤ 57 := hhi
  have hbyte : c.toUInt8.toNat = c.toNat := by
    change c.val.toUInt8.toNat = c.toNat
    rw [UInt32.toNat_toUInt8]
    exact Nat.mod_eq_of_lt (show c.toNat < 256 by omega)
  refine ⟨?_, by rw [hbyte, Char.ofNat_toNat]⟩
  rw [isdigit, Bool.and_eq_true, decide_eq_true_iff, decide_eq_true_iff, UInt8.le_iff_toNat_le,
    UInt8.le_iff_toNat_le, hbyte]
  exact ⟨hlo, hhi⟩

theorem stoull_toString (n : UInt64) : stoull (toString n) = some n := by
  have hdigits : ((toString n).map fun c ↦ Char.ofNat c.toNat) = Nat.toDigits 10 n.toNat := by
    rw [toString, List.map_map]
    refine (List.map_congr_left fun c hc ↦ ?_).trans (List.map_id _)
    exact (isdigit_toUInt8 (Nat.isDigit_of_mem_toDigits (by decide) (by decide) hc)).2
  rw [stoull, hdigits, Nat.ofDigitChars_ten_toDigits, if_pos n.toNat_lt, UInt64.ofNat_toNat]

theorem parseSegment_segmentText {s : Segment} {text : List UInt8} (h : segmentText s = some text)
    (rest : List UInt8) : parseSegment (text ++ rest) = some (s, rest) := by
  rcases s with key | index
  · obtain ⟨literal, hdump, rfl⟩ := Option.map_eq_some_iff.mp h
    rw [dump] at hdump
    split_ifs at hdump with hkey
    obtain rfl := Option.some.inj hdump
    have hscan := scanQuoted_escape key (']'.toUInt8 :: rest)
    have hread : unescape [] (escape key) = some key :=
      unescape_escape (fun _ hb ↦ absurd hb List.not_mem_nil) hkey
    have hhead : (quoteByte :: (escape key ++ quoteByte :: ']'.toUInt8 :: rest)).head?
        = some quoteByte := rfl
    simp only [List.cons_append, List.append_assoc, List.nil_append]
    rw [parseSegment, if_neg (by decide), if_neg (by decide), if_pos hhead, List.tail_cons, hscan]
    simp [hread]
  · obtain rfl := Option.some.inj h
    have hall : ∀ c ∈ toString index, isdigit c = true := fun c hc ↦ by
      obtain ⟨d, hd, rfl⟩ := List.mem_map.mp hc
      exact (isdigit_toUInt8 (Nat.isDigit_of_mem_toDigits (by decide) (by decide) hd)).1
    have hne : toString index ≠ [] := fun hnil ↦ Nat.toDigits_ne_nil (List.map_eq_nil_iff.mp hnil)
    have hhead : (toString index ++ (']'.toUInt8 :: rest)).head? ≠ some quoteByte := by
      rw [List.head?_append_of_ne_nil _ hne]
      intro hq
      exact absurd (hall _ (List.mem_of_mem_head? hq)) (by decide)
    have htake : (toString index ++ (']'.toUInt8 :: rest)).takeWhile isdigit = toString index := by
      rw [List.takeWhile_append_of_pos hall, List.takeWhile_cons_of_neg (by decide),
        List.append_nil]
    have hdrop : (toString index ++ (']'.toUInt8 :: rest)).dropWhile isdigit
        = ']'.toUInt8 :: rest := by
      rw [List.dropWhile_append_of_pos hall, List.dropWhile_cons_of_neg (by decide)]
    simp only [List.cons_append, List.append_assoc, List.nil_append]
    rw [parseSegment, if_neg (by decide), if_neg (by decide), if_neg hhead]
    simp only [htake, hdrop, stoull_toString]
    simp [hne]

theorem parseSegments_cons {text rest : List UInt8} {s : Segment}
    (h : parseSegment text = some (s, rest)) :
    parseSegments text = (parseSegments rest).map (s :: ·) := by
  rcases text with _ | ⟨c, cs⟩
  · exact absurd h (by simp [parseSegment])
  · rw [parseSegments.eq_def]
    dsimp only
    split
    · next hnone => exact absurd (hnone.symm.trans h) (by simp)
    · next s' rest' hsome =>
      obtain ⟨rfl, rfl⟩ := Prod.mk.inj (Option.some.inj (hsome.symm.trans h))
      rfl

theorem parseSegments_flatten {segments : List Segment} {texts : List (List UInt8)}
    (h : segments.mapM segmentText = some texts) : parseSegments texts.flatten = some segments := by
  induction segments generalizing texts with
  | nil =>
    rw [List.mapM_nil] at h
    obtain rfl := Option.some.inj h
    rw [List.flatten_nil, parseSegments]
  | cons s segments ih =>
    rw [List.mapM_cons] at h
    simp only [Option.bind_eq_bind, Option.bind_eq_some_iff, Option.pure_def,
      Option.some.injEq] at h
    obtain ⟨text, htext, texts, htexts, rfl⟩ := h
    rw [List.flatten_cons, parseSegments_cons (parseSegment_segmentText htext _), ih htexts]
    rfl

/-- **A canonical form parses to the segments it was written from.** -/
theorem parseJsonPath_canonical {segments : List Segment} {text : List UInt8}
    (h : canonical segments = some text) : parseJsonPath text = some segments := by
  obtain ⟨texts, htexts, rfl⟩ := Option.map_eq_some_iff.mp h
  rw [parseJsonPath, if_pos rfl]
  exact parseSegments_flatten htexts

theorem mapM_isSome {α β : Type} {f : α → Option β} (l : List α) :
    (l.mapM f).isSome = l.all fun a ↦ (f a).isSome := by
  induction l with
  | nil => rfl
  | cons a l ih =>
    rw [List.mapM_cons, List.all_cons, ← ih]
    rcases f a with _ | b
    · rfl
    · rcases l.mapM f with _ | bs <;> rfl

/-- The canonical form exists just when every key is well-formed. -/
theorem canonical_isSome (segments : List Segment) :
    (canonical segments).isSome = segments.all Segment.wellFormed := by
  rw [canonical, Option.isSome_map, mapM_isSome]
  exact congrArg (segments.all ·) (funext segmentText_isSome)

theorem exists_canonical {segments : List Segment} (h : ∀ s ∈ segments, s.wellFormed = true) :
    ∃ text, canonical segments = some text :=
  Option.isSome_iff_exists.mp ((canonical_isSome segments).trans (List.all_eq_true.mpr h))

/-! ## Well-formed paths -/

theorem wellFormed_tail {c : UInt8} {cs : List UInt8} (hc : c < 0x80)
    (h : wellFormed [] (c :: cs) = true) : wellFormed [] cs = true :=
  (wellFormed_append_cons (s := []) high_nil hc h).2

/-- What is scanned is a part of the text, up to a quote. -/
theorem eq_of_scanQuoted {escaped : Bool} {cs body rest : List UInt8}
    (h : scanQuoted escaped cs = some (body, rest)) : cs = body ++ quoteByte :: rest := by
  induction cs generalizing escaped body with
  | nil => exact absurd h (by simp [scanQuoted])
  | cons c cs ih =>
    have hmap : ∀ {escaped' : Bool}, (scanQuoted escaped' cs).map
        (fun (body, rest) ↦ (c :: body, rest)) = some (body, rest) →
        c :: cs = body ++ quoteByte :: rest := by
      intro escaped' hmap
      obtain ⟨⟨body', rest'⟩, hscan, heq⟩ := Option.map_eq_some_iff.mp hmap
      obtain ⟨rfl, rfl⟩ := Prod.mk.inj heq
      rw [ih hscan, List.cons_append]
    rw [scanQuoted] at h
    split_ifs at h with hescaped hbackslash hquote
    · exact hmap h
    · exact hmap h
    · obtain ⟨rfl, rfl⟩ := Prod.mk.inj (Option.some.inj h)
      rw [hquote, List.nil_append]
    · exact hmap h

theorem wellFormed_of_parseSegment {cs rest : List UInt8} {s : Segment}
    (hcs : wellFormed [] cs = true) (h : parseSegment cs = some (s, rest)) :
    s.wellFormed = true ∧ wellFormed [] rest = true := by
  rcases cs with _ | ⟨c, cs⟩
  · exact absurd h (by simp [parseSegment])
  · rw [parseSegment] at h
    split_ifs at h with hdot hbracket hquote
    · -- a key in dot notation ends at the next segment or with the path
      simp only [Option.ite_none_left_eq_some, Option.some.injEq, Prod.mk.injEq] at h
      obtain ⟨-, -, rfl, rfl⟩ := h
      have htail := wellFormed_tail (by rw [hdot]; decide) hcs
      have hsplit := List.takeWhile_append_dropWhile (p := isDotKeyByte) (l := cs)
      rcases hrest : cs.dropWhile isDotKeyByte with _ | ⟨d, ds⟩
      · rw [hrest, List.append_nil] at hsplit
        exact ⟨by rw [Segment.wellFormed, hsplit]; exact htail, rfl⟩
      · have hd : isDotKeyByte d = false := by
          have hhead := List.head?_dropWhile_not isDotKeyByte cs
          rw [hrest] at hhead
          simpa using hhead
        have hascii : d < 0x80 := by
          have hcases : d = '.'.toUInt8 ∨ d = '['.toUInt8 := by
            rw [isDotKeyByte, decide_eq_false_iff_not, not_and_or, not_not, not_not] at hd
            exact hd
          rcases hcases with rfl | rfl <;> decide
        rw [← hsplit, hrest] at htail
        obtain ⟨hkey, hds⟩ := wellFormed_append_cons high_nil hascii htail
        refine ⟨hkey, ?_⟩
        rw [wellFormed, follow_of_lt hascii]
        exact hds
    · -- a key in brackets is read from a literal
      simp only [Option.bind_eq_bind, Option.bind_eq_some_iff, Prod.exists] at h
      obtain ⟨literal, text, hscan, h⟩ := h
      split_ifs at h with hclose
      simp only [Option.bind_eq_some_iff, Option.pure_def, Option.some.injEq, Prod.mk.injEq] at h
      obtain ⟨key, hkey, rfl, rfl⟩ := h
      obtain ⟨cs', rfl⟩ := List.head?_eq_some_iff.mp hquote
      obtain ⟨text', rfl⟩ := List.head?_eq_some_iff.mp hclose
      have hbracket : c = '['.toUInt8 := not_not.mp hbracket
      have htail := wellFormed_tail (by decide) (wellFormed_tail (by rw [hbracket]; decide) hcs)
      have hsplit := eq_of_scanQuoted hscan
      rw [List.tail_cons] at hsplit
      rw [hsplit] at htail
      exact ⟨wellFormed_of_unescape hkey,
        wellFormed_tail (by decide) (wellFormed_append_cons high_nil (by decide) htail).2⟩
    · simp only [Option.ite_none_left_eq_some, Option.map_eq_some_iff, Prod.mk.injEq, not_or,
        not_not] at h
      obtain ⟨⟨-, hclose⟩, index, -, rfl, rfl⟩ := h
      obtain ⟨text', htext⟩ := List.head?_eq_some_iff.mp hclose
      have hbracket : c = '['.toUInt8 := not_not.mp hbracket
      have htail := wellFormed_tail (by rw [hbracket]; decide) hcs
      rw [← List.takeWhile_append_dropWhile (p := isdigit) (l := cs), htext] at htail
      rw [htext]
      exact ⟨rfl, (wellFormed_append_cons high_nil (by decide) htail).2⟩

theorem wellFormed_of_parseSegments {cs : List UInt8} {segments : List Segment}
    (hcs : wellFormed [] cs = true) (h : parseSegments cs = some segments) :
    ∀ s ∈ segments, s.wellFormed = true := by
  induction segments generalizing cs with
  | nil => exact fun s hs ↦ absurd hs List.not_mem_nil
  | cons s segments ih =>
    rcases cs with _ | ⟨c, cs⟩
    · rw [parseSegments] at h
      exact absurd h (by simp)
    · rcases hs : parseSegment (c :: cs) with _ | ⟨s', rest⟩
      · rw [parseSegments.eq_def] at h
        dsimp only at h
        split at h
        · exact absurd h (by simp)
        · next hsome => exact absurd (hsome.symm.trans hs) (by simp)
      · rw [parseSegments_cons hs, Option.map_eq_some_iff] at h
        obtain ⟨segments', hsegments, heq⟩ := h
        obtain ⟨rfl, rfl⟩ := List.cons.inj heq
        obtain ⟨hwell, hrest⟩ := wellFormed_of_parseSegment hcs hs
        exact List.forall_mem_cons.mpr ⟨hwell, ih hrest hsegments⟩

/-- The keys of a well-formed path are well-formed. -/
theorem wellFormed_of_parseJsonPath {path : List UInt8} {segments : List Segment}
    (hpath : wellFormed [] path = true) (h : parseJsonPath path = some segments) :
    ∀ s ∈ segments, s.wellFormed = true := by
  rcases path with _ | ⟨c, cs⟩
  · exact absurd h (by simp [parseJsonPath])
  · rw [parseJsonPath] at h
    split_ifs at h with hc
    exact wellFormed_of_parseSegments (wellFormed_tail (by rw [hc]; decide) hpath) h

/-! ## Regions -/

theorem region_of_parseJsonPath {path : List UInt8} {segments : List Segment} {regionDepth : ℕ}
    (h : parseJsonPath path = some segments) (hdepth : regionDepth ≤ segments.length)
    {parent : List UInt8} (hparent : canonical (segments.take regionDepth) = some parent) :
    region regionDepth path = .found parent (segments.drop regionDepth) := by
  rw [region, h]
  dsimp only
  rw [if_neg (Nat.not_lt.mpr hdepth), hparent]

/-- Canonical forms of different segments differ. -/
theorem canonical_inj {segments segments' : List Segment} {text text' : List UInt8}
    (h : canonical segments = some text) (h' : canonical segments' = some text') :
    text = text' ↔ segments = segments' := by
  constructor
  · rintro rfl
    exact Option.some.inj ((parseJsonPath_canonical h).symm.trans (parseJsonPath_canonical h'))
  · rintro rfl
    exact Option.some.inj (h.symm.trans h')

/-- **Region keys are canonical.** Segments with well-formed keys have a canonical form that parses
to them; so it is for the segments of every accepted path with well-formed keys, as those of a
well-formed path are, and two such paths lie in the same region just when their leading segments
agree. With another key there is no canonical form: writing it throws. -/
theorem region_keys_canonical :
    (∀ segments : List Segment, (∀ s ∈ segments, s.wellFormed = true) →
      ∃ text, canonical segments = some text ∧ parseJsonPath text = some segments) ∧
    (∀ path segments, parseJsonPath path = some segments →
      (wellFormed [] path = true → ∀ s ∈ segments, s.wellFormed = true) ∧
        ((∀ s ∈ segments, s.wellFormed = true) →
          ∃ text, canonical segments = some text ∧ parseJsonPath text = some segments) ∧
        (¬(∀ s ∈ segments, s.wellFormed = true) → canonical segments = none)) ∧
    ∀ regionDepth path path' segments segments', parseJsonPath path = some segments →
      parseJsonPath path' = some segments' →
      regionDepth ≤ segments.length → regionDepth ≤ segments'.length →
      (∀ s ∈ segments.take regionDepth, s.wellFormed = true) →
      (∀ s ∈ segments'.take regionDepth, s.wellFormed = true) →
      ∃ parent parent', region regionDepth path = .found parent (segments.drop regionDepth) ∧
        region regionDepth path' = .found parent' (segments'.drop regionDepth) ∧
        (parent = parent' ↔ segments.take regionDepth = segments'.take regionDepth) := by
  have hcanonical : ∀ segments : List Segment, (∀ s ∈ segments, s.wellFormed = true) →
      ∃ text, canonical segments = some text ∧ parseJsonPath text = some segments :=
    fun segments h ↦ (exists_canonical h).imp fun _ htext ↦ ⟨htext, parseJsonPath_canonical htext⟩
  refine ⟨hcanonical, fun path segments h ↦ ⟨fun hpath ↦ wellFormed_of_parseJsonPath hpath h,
    hcanonical segments, fun hill ↦ ?_⟩, ?_⟩
  · have hnone := canonical_isSome segments
    rw [Bool.eq_false_iff.mpr fun hall ↦ hill (List.all_eq_true.mp hall)] at hnone
    exact Option.isSome_eq_false_iff.mp hnone |> Option.isNone_iff_eq_none.mp
  · intro regionDepth path path' segments segments' h h' hdepth hdepth' hkeys hkeys'
    obtain ⟨parent, hparent⟩ := exists_canonical hkeys
    obtain ⟨parent', hparent'⟩ := exists_canonical hkeys'
    exact ⟨parent, parent', region_of_parseJsonPath h hdepth hparent,
      region_of_parseJsonPath h' hdepth' hparent', canonical_inj hparent hparent'⟩

/-- The path `$.` and a byte that begins no sequence: it is accepted, and its key has no literal. -/
theorem region_keys_ill_formed :
    ¬∀ path segments, parseJsonPath path = some segments →
      ∃ text, canonical segments = some text ∧ parseJsonPath text = some segments := by
  intro h
  have hsegment : parseSegment ['.'.toUInt8, 0xff] = some (.key [0xff], []) := by decide +kernel
  have hpath : parseJsonPath ['$'.toUInt8, '.'.toUInt8, 0xff] = some [.key [0xff]] := by
    rw [parseJsonPath, if_pos rfl, parseSegments_cons hsegment, parseSegments]
    rfl
  obtain ⟨text, htext, -⟩ := h _ _ hpath
  have hnone : canonical [.key [0xff]] = none := by decide +kernel
  exact absurd (htext.symm.trans hnone) (by simp)

end RegionKeys

end Agora
