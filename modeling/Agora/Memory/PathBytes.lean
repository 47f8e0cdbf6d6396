import Agora.Json.Utf8
import Agora.Memory.MemoryClass
import Agora.Memory.RegionKeys

/-!
# The bytes of a path

The document memory reads its paths as bytes; where every path is a text, the cache is modelled
over characters. On texts the two agree: parsing (`parseJsonPath_utf8`), the canonical form
(`canonical_utf8`) and so the region a path lies in (`region_utf8`) are the same, up to the
sequences of the characters. A text has no key without a canonical form.
-/

namespace Agora

open JsonBytes

/-- A segment of a text, in bytes. -/
def segmentBytes : Segment → RegionKeys.Segment
  | .key key => .key (utf8 key.toList)
  | .index index => .index (UInt64.ofNat index)

theorem utf8_eq_nil {cs : List Char} : utf8 cs = [] ↔ cs = [] := by
  rcases cs with _ | ⟨c, cs⟩
  · exact ⟨fun _ ↦ rfl, fun _ ↦ rfl⟩
  · obtain ⟨b, bs, hbs, -⟩ := exists_utf8EncodeChar c
    rw [utf8_cons, hbs]
    simp

/-! ## The classes of characters -/

theorem byte_ne_of_le {b : UInt8} (hb : 0x80 ≤ b) {d : UInt8} (hd : d < 0x80) : b ≠ d := by
  rintro rfl
  exact absurd (UInt8.lt_of_le_of_lt hb hd) (UInt8.lt_irrefl _)

theorem char_ne_of_le {c : Char} (hc : 0x80 ≤ c.toNat) {d : Char} (hd : d.toNat < 0x80) :
    c ≠ d := by
  rintro rfl
  omega

theorem mirrors_isdigit : Mirrors RegionKeys.isdigit Char.isDigit := by
  refine mirrors_of_ascii (by decide) (fun b hb ↦ ?_) fun c hc ↦ Bool.eq_false_iff.mpr fun h ↦ ?_
  · have hle : ¬b ≤ '9'.toUInt8 := fun h ↦ absurd (UInt8.le_trans hb h) (by decide)
    rw [RegionKeys.isdigit, decide_eq_false hle, Bool.and_false]
  · have hle : c.toNat ≤ 57 := (Char.isDigit_iff_toNat.mp h).2
    omega

theorem mirrors_dotKey : Mirrors RegionKeys.isDotKeyByte isDotKeyChar :=
  mirrors_of_ascii (by decide)
    (fun _ hb ↦ decide_eq_true ⟨byte_ne_of_le hb (by decide), byte_ne_of_le hb (by decide)⟩)
    fun _ hc ↦ decide_eq_true ⟨char_ne_of_le hc (by decide), char_ne_of_le hc (by decide)⟩

theorem mirrors_reserved : Mirrors RegionKeys.reserved.contains
    fun c ↦ c ∈ ['*', ':', '?', '@', '(', ')'] := by
  have hbytes : (RegionKeys.reserved.all fun d ↦ d < 0x80) = true := by decide
  have hchars : (['*', ':', '?', '@', '(', ')'].all fun d ↦ d.toNat < 0x80) = true := by decide
  refine mirrors_of_ascii (v := false) (by decide) (fun b hb ↦ ?_) fun c hc ↦ ?_
  · refine Bool.eq_false_iff.mpr fun h ↦ byte_ne_of_le hb ?_ rfl
    exact of_decide_eq_true (List.all_eq_true.mp hbytes b (List.contains_iff_mem.mp h))
  · refine decide_eq_false fun h ↦ char_ne_of_le hc ?_ rfl
    exact of_decide_eq_true (List.all_eq_true.mp hchars c h)

/-! ## Parsing -/

theorem stoull_utf8 {digits : List Char} (h : ∀ c ∈ digits, c.isDigit = true) :
    RegionKeys.stoull (utf8 digits) = (stoull digits).map UInt64.ofNat := by
  have hdigits : ((utf8 digits).map fun c ↦ Char.ofNat c.toNat) = digits := by
    induction digits with
    | nil => rfl
    | cons c digits ih =>
      obtain ⟨hc, hrest⟩ := List.forall_mem_cons.mp h
      have hlt : c.toNat ≤ 57 := (Char.isDigit_iff_toNat.mp hc).2
      rw [utf8_cons_ascii (by omega), List.map_cons, toNat_ofNat (by omega), Char.ofNat_toNat,
        ih hrest]
  rw [RegionKeys.stoull, stoull, hdigits]
  split_ifs
  · rfl
  · rfl

theorem parseSegment_utf8 (cs : List Char) :
    RegionKeys.parseSegment (utf8 cs) = (parseSegment cs).map (Prod.map segmentBytes utf8) := by
  rcases cs with _ | ⟨c, cs⟩
  · rfl
  · rw [parseSegment]
    split_ifs with hdot hbracket hquote
    · obtain rfl := hdot
      obtain ⟨htake, hdrop⟩ := takeWhile_utf8 mirrors_dotKey cs
      rw [utf8_cons_ascii (by decide), RegionKeys.parseSegment, if_pos (by decide)]
      simp only [htake, hdrop, utf8_eq_nil, any_utf8 mirrors_reserved]
      split_ifs
      · rfl
      · rfl
      · rw [Option.map_some, Prod.map_apply, segmentBytes, String.toList_ofList]
    · -- neither a dot nor a bracket, and no byte of it is one
      obtain ⟨b, bs, hbs, -⟩ := exists_utf8EncodeChar c
      have hb₁ : b ≠ '.'.toUInt8 := ne_of_utf8EncodeChar hbs (by decide) hdot
      have hb₂ : b ≠ '['.toUInt8 := ne_of_utf8EncodeChar hbs (by decide) hbracket
      rw [utf8_cons, hbs, List.cons_append, RegionKeys.parseSegment, if_neg hb₁, if_pos hb₂]
      rfl
    · -- a literal: both scanners stop at the same quote
      obtain rfl := not_not.mp hbracket
      have hhead := (head?_utf8 quote_ascii cs).mpr hquote
      rw [utf8_cons_ascii (by decide), RegionKeys.parseSegment, if_neg (by decide),
        if_neg (by decide), if_pos (show (utf8 cs).head? = some quoteByte from hhead),
        tail_utf8 quote_ascii hquote, scanQuoted_utf8]
      rcases JsonText.scanQuoted cs.tail with _ | ⟨literal, rest⟩
      · rfl
      simp only [Option.map_some, Option.bind_eq_bind, Option.bind_some]
      have hclose := head?_utf8 (d := ']') (by decide) rest
      rcases Decidable.em (rest.head? = some ']') with hrest | hrest
      · rw [if_pos hrest, if_pos (show (utf8 rest).head? = some ']'.toUInt8 from hclose.mpr hrest),
          unescape_utf8, tail_utf8 (by decide) hrest]
        rcases JsonText.unescape literal with _ | key
        · rfl
        · simp only [Option.map_some, Option.bind_some, Option.pure_def, Prod.map_apply,
            segmentBytes, String.toList_ofList]
      · rw [if_neg hrest,
          if_neg (show (utf8 rest).head? ≠ some ']'.toUInt8 from fun h ↦ hrest (hclose.mp h))]
        rfl
    · -- an index, whose digits are ASCII
      obtain rfl := not_not.mp hbracket
      obtain ⟨htake, hdrop⟩ := takeWhile_utf8 mirrors_isdigit cs
      have hhead : (utf8 cs).head? ≠ some quoteByte := fun h ↦
        hquote ((head?_utf8 quote_ascii cs).mp h)
      have hdigits : ∀ c ∈ cs.takeWhile Char.isDigit, c.isDigit = true := fun c hc ↦
        (List.all_eq_true.mp List.all_takeWhile) c hc
      have hclose := head?_utf8 (d := ']') (by decide) (cs.dropWhile Char.isDigit)
      rw [utf8_cons_ascii (by decide), RegionKeys.parseSegment, if_neg (by decide),
        if_neg (by decide), if_neg hhead]
      have hrefused : cs.takeWhile Char.isDigit = []
          ∨ (utf8 (cs.dropWhile Char.isDigit)).head? ≠ some ']'.toUInt8
          ↔ cs.takeWhile Char.isDigit = [] ∨ (cs.dropWhile Char.isDigit).head? ≠ some ']' :=
        or_congr_right (not_congr hclose)
      simp only [htake, hdrop, utf8_eq_nil, stoull_utf8 hdigits]
      rcases Decidable.em (cs.takeWhile Char.isDigit = []
        ∨ (cs.dropWhile Char.isDigit).head? ≠ some ']') with h | h
      · rw [if_pos h, if_pos (hrefused.mpr h)]
        rfl
      · rw [if_neg h, if_neg fun h' ↦ h (hrefused.mp h')]
        have hrest := not_not.mp (not_or.mp h).2
        rw [tail_utf8 (by decide) hrest, Option.map_map, Option.map_map]
        rfl

theorem RegionKeys.parseSegments_refused {b : UInt8} {bs : List UInt8}
    (h : RegionKeys.parseSegment (b :: bs) = none) : RegionKeys.parseSegments (b :: bs) = none := by
  rw [RegionKeys.parseSegments.eq_def]
  dsimp only
  split
  · rfl
  · next hsome => exact absurd (h.symm.trans hsome) (by simp)

theorem parseSegments_utf8 (fuel : ℕ) {cs : List Char} (h : cs.length ≤ fuel) :
    RegionKeys.parseSegments (utf8 cs) = (parseSegments fuel cs).map (List.map segmentBytes) := by
  induction fuel generalizing cs with
  | zero =>
    obtain rfl := List.length_eq_zero_iff.mp (Nat.le_zero.mp h)
    rw [show utf8 [] = [] from rfl, RegionKeys.parseSegments]
    rfl
  | succ fuel ih =>
    rcases cs with _ | ⟨c, cs⟩
    · rw [show utf8 [] = [] from rfl, RegionKeys.parseSegments]
      rfl
    · have hone := parseSegment_utf8 (c :: cs)
      rw [parseSegments]
      rcases hs : parseSegment (c :: cs) with _ | ⟨s, rest⟩
      · obtain ⟨b, bs, hbs, -⟩ := exists_utf8EncodeChar c
        rw [hs, utf8_cons, hbs, List.cons_append] at hone
        rw [utf8_cons, hbs, List.cons_append, RegionKeys.parseSegments_refused hone]
        rfl
      · have hlt := (parseSegment_spec hs).2
        rw [hs] at hone
        rw [RegionKeys.parseSegments_cons hone, ih (by rw [List.length_cons] at hlt h; omega)]
        simp only [Option.bind_eq_bind, Option.bind_some]
        rcases parseSegments fuel rest with _ | segments
        · rfl
        · rfl

/-- **A path parses to the same segments in bytes and in characters.** -/
theorem parseJsonPath_utf8 (path : String) :
    RegionKeys.parseJsonPath (utf8 path.toList)
      = (parseJsonPath path).map (List.map segmentBytes) := by
  rw [parseJsonPath]
  rcases path.toList with _ | ⟨c, cs⟩
  · rfl
  · dsimp only
    split_ifs with hc
    · obtain rfl := hc
      rw [utf8_cons_ascii (by decide), RegionKeys.parseJsonPath, if_pos (by decide)]
      exact parseSegments_utf8 cs.length le_rfl
    · obtain ⟨b, bs, hbs, -⟩ := exists_utf8EncodeChar c
      have hb : b ≠ '$'.toUInt8 := ne_of_utf8EncodeChar hbs (by decide) hc
      rw [utf8_cons, hbs, List.cons_append, RegionKeys.parseJsonPath, if_neg hb]
      rfl

/-! ## Canonical paths -/

theorem utf8_digits {cs : List Char} (h : ∀ c ∈ cs, c.isDigit = true) :
    utf8 cs = cs.map Char.toUInt8 := by
  induction cs with
  | nil => rfl
  | cons c cs ih =>
    obtain ⟨hc, hcs⟩ := List.forall_mem_cons.mp h
    have hlt : c.toNat ≤ 57 := (Char.isDigit_iff_toNat.mp hc).2
    rw [utf8_cons_ascii (by omega), ih hcs]
    rfl

theorem segmentText_utf8 {s : Segment} (hs : Segment.Fits s) :
    RegionKeys.segmentText (segmentBytes s) = some (utf8 (segmentText s)) := by
  rcases s with key | index
  · rw [segmentBytes, RegionKeys.segmentText, dump, if_pos (wellFormed_utf8 _), escape_utf8,
      segmentText, utf8_cons_ascii (by decide), utf8_append, JsonText.quote, utf8_quote,
      utf8_append]
    rfl
  · have hindex : (UInt64.ofNat index).toNat = index := by
      rw [UInt64.toNat_ofNat']
      exact Nat.mod_eq_of_lt hs
    have hdigits : ∀ c ∈ Nat.toDigits 10 index, c.isDigit = true := fun c hc ↦
      Nat.isDigit_of_mem_toDigits (by decide) (by decide) hc
    rw [segmentBytes, RegionKeys.segmentText, RegionKeys.toString, hindex, segmentText,
      utf8_cons_ascii (by decide), utf8_append, utf8_digits hdigits]
    rfl

/-- **The canonical form is the same in bytes and in characters**, and it exists. -/
theorem canonical_utf8 {segments : List Segment} (hfits : ∀ s ∈ segments, Segment.Fits s) :
    RegionKeys.canonical (segments.map segmentBytes)
      = some (utf8 (canonical segments).toList) := by
  have htexts : (segments.map segmentBytes).mapM RegionKeys.segmentText
      = some (segments.map fun s ↦ utf8 (segmentText s)) := by
    induction segments with
    | nil => rfl
    | cons s segments ih =>
      obtain ⟨hs, hrest⟩ := List.forall_mem_cons.mp hfits
      rw [List.map_cons, List.mapM_cons, segmentText_utf8 hs, ih hrest]
      rfl
  have hflatten : (segments.map fun s ↦ utf8 (segmentText s)).flatten
      = utf8 (segments.flatMap segmentText) := by
    rw [utf8, List.flatMap_assoc, List.flatMap_def]
    rfl
  rw [RegionKeys.canonical, htexts, Option.map_some, hflatten, canonical, String.toList_ofList,
    utf8_cons_ascii (by decide)]
  rfl

/-! ## Regions -/

/-- What a path's region is in bytes. -/
def regionBytes : Option (String × List Segment) → RegionKeys.Region
  | none => .refused
  | some (parent, relative) => .found (utf8 parent.toList) (relative.map segmentBytes)

/-- **The regions of the cache are those of the paths' bytes.** -/
theorem region_utf8 (options : Options) (path : String) :
    RegionKeys.region options.regionDepth (utf8 path.toList)
      = regionBytes (MemoryClass.region options path) := by
  rw [RegionKeys.region, MemoryClass.region, parseJsonPath_utf8]
  rcases hparse : parseJsonPath path with _ | segments
  · rfl
  · simp only [Option.map_some, List.length_map]
    split_ifs with hdepth
    · rfl
    · have hfits : ∀ s ∈ segments.take options.regionDepth, Segment.Fits s := fun s hs ↦
        parseJsonPath_fits hparse s (List.mem_of_mem_take hs)
      rw [← List.map_take, canonical_utf8 hfits, ← List.map_drop]
      rfl

end Agora
