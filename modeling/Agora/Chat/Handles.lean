import Mathlib.Algebra.Order.Group.Int
import Mathlib.Algebra.Order.Group.Nat
import Mathlib.Data.List.Forall2
import Mathlib.Data.List.TakeWhile

/-!
# The handles in a text

A handle is an at sign, a name and, after a number sign, a tag. Names may have blanks, at signs and
number signs in them, so that the scanner tries one number sign after the other until a tag follows.

**Main result.** `parseMentionHandles_spec`: the scanner finds the handles of the grammar
(`HandleAt`), in the order of their at signs, each once and at most twenty; the tag never leaves
the range of its type, where the scanner would have no value.
-/

namespace Agora

namespace Mentions

/-- A name and a tag. -/
abbrev Handle := List UInt8 × ℤ

/-! ## The scanner -/

def isspace (c : UInt8) : Bool := c = ' '.toUInt8 || ('\t'.toUInt8 ≤ c && c ≤ '\r'.toUInt8)

def isdigit (c : UInt8) : Bool := '0'.toUInt8 ≤ c && c ≤ '9'.toUInt8

def bytes (text : String) : List UInt8 := text.toList.map Char.toUInt8

def mentionStartBoundary (c : UInt8) : Bool :=
  isspace c || c = '('.toUInt8 || c = '['.toUInt8 || c = 0x7b

def mentionEndBoundary (c : UInt8) : Bool :=
  isspace c || (bytes ".,!?;:)]" ++ [0x7d]).contains c

def intMax : ℤ := 2147483647

/-- A value of the type `long long`, none when it overflows. -/
def longLong (value : ℤ) : Option ℤ :=
  if -9223372036854775808 ≤ value ∧ value ≤ 9223372036854775807 then some value else none

/-- The tag up to its last digit, or up to the digit that makes it too large, and the text from
there on. -/
def scanTag (tag : ℤ) : List UInt8 → Option (ℤ × List UInt8)
  | [] => some (tag, [])
  | c :: text =>
    if isdigit c then do
      let shifted ← longLong (tag * 10)
      let tag ← longLong (shifted + (c.toNat - '0'.toNat : ℤ))
      if intMax < tag then some (tag, c :: text) else scanTag tag text
    else some (tag, c :: text)

/-- The tag right after a number sign, if one stands there. -/
def tagAfter (text : List UInt8) : Option (Option ℤ) := do
  let (tag, rest) ← scanTag 0 text
  if rest.length = text.length ∨ intMax < tag ∨ rest.head?.any (fun c ↦ !mentionEndBoundary c) then
    some none
  else some (some tag)

/-- The handle after an at sign, where so much of the text has been passed. -/
def scanHash (passed : List UInt8) : List UInt8 → Option (Option Handle)
  | [] => some none
  | c :: text =>
    if 400 < passed.length then some none
    else if c = '\n'.toUInt8 ∨ c = '\r'.toUInt8 then some none
    else if c ≠ '#'.toUInt8 ∨ passed = [] then scanHash (passed ++ [c]) text
    else do
      match ← tagAfter text with
      | some tag => some (some (passed, tag))
      | none => scanHash (passed ++ [c]) text

/-- The handles of a text, after those that were found before it. -/
def scanAt (previous : Option UInt8) (result : List Handle) : List UInt8 → Option (List Handle)
  | [] => some result
  | c :: text =>
    if 20 ≤ result.length then some result
    else if c ≠ '@'.toUInt8 ∨ previous.any (fun c ↦ !mentionStartBoundary c) then
      scanAt (some c) result text
    else do
      match ← scanHash [] text with
      | some value =>
        scanAt (some c) (if result.contains value then result else result ++ [value]) text
      | none => scanAt (some c) result text

def parseMentionHandles (text : List UInt8) : Option (List Handle) := scanAt none [] text

/-! ## The grammar -/

/-- The value of a run of digits that goes on from a tag. -/
def valueFrom (tag : ℤ) (digits : List UInt8) : ℤ :=
  digits.foldl (fun tag c ↦ tag * 10 + (c.toNat - '0'.toNat : ℤ)) tag

/-- A tag: all the digits that stand there, of a value that fits, before a boundary or the end. -/
structure IsTag (text : List UInt8) (tag : ℤ) : Prop where
  nonempty : text.takeWhile isdigit ≠ []
  value : valueFrom 0 (text.takeWhile isdigit) = tag
  fits : tag ≤ intMax
  boundary : ∀ c, (text.dropWhile isdigit).head? = some c → mentionEndBoundary c = true

/-- A handle right after an at sign: a name on one line, a number sign and a tag. -/
structure IsHandle (text : List UInt8) (handle : Handle) : Prop where
  nonempty : handle.1 ≠ []
  short : handle.1.length ≤ 400
  oneLine : ∀ c ∈ handle.1, c ≠ '\n'.toUInt8 ∧ c ≠ '\r'.toUInt8
  tag : ∃ rest, text = handle.1 ++ '#'.toUInt8 :: rest ∧ IsTag rest handle.2

/-- The handle of an at sign that counts: of all the handles that stand there, the one with the
shortest name. -/
structure HandleAt (text : List UInt8) (position : ℕ) (handle : Handle) : Prop where
  sign : text[position]? = some '@'.toUInt8
  start : position = 0 ∨ ∃ c, text[position - 1]? = some c ∧ mentionStartBoundary c = true
  isHandle : IsHandle (text.drop (position + 1)) handle
  shortest : ∀ other, IsHandle (text.drop (position + 1)) other →
    handle.1.length ≤ other.1.length

/-! ## Tags -/

theorem isdigit_iff {c : UInt8} : isdigit c = true ↔ 48 ≤ c.toNat ∧ c.toNat ≤ 57 := by
  rw [isdigit, Bool.and_eq_true, decide_eq_true_eq, decide_eq_true_eq, UInt8.le_iff_toNat_le,
    UInt8.le_iff_toNat_le]
  rfl

theorem le_valueFrom {tag : ℤ} (htag : 0 ≤ tag) {digits : List UInt8}
    (h : ∀ c ∈ digits, isdigit c = true) : tag ≤ valueFrom tag digits := by
  induction digits generalizing tag with
  | nil => exact le_refl tag
  | cons c digits ih =>
    obtain ⟨hc, hdigits⟩ := List.forall_mem_cons.mp h
    have hdigit := isdigit_iff.mp hc
    have hzero : ('0'.toNat : ℤ) = 48 := rfl
    have hnext : 0 ≤ tag * 10 + (c.toNat - '0'.toNat : ℤ) := by omega
    have hle := ih hnext hdigits
    rw [valueFrom, List.foldl_cons, ← valueFrom]
    omega

theorem all_takeWhile_isdigit (text : List UInt8) :
    ∀ c ∈ text.takeWhile isdigit, isdigit c = true :=
  fun _ hc ↦ List.mem_takeWhile_imp hc

/-- The scan of a tag has a value: that of all the digits, or one that is too large as theirs is. -/
theorem scanTag_spec {tag : ℤ} (hlow : 0 ≤ tag) (hhigh : tag ≤ intMax) (text : List UInt8) :
    (valueFrom tag (text.takeWhile isdigit) ≤ intMax ∧
      scanTag tag text =
        some (valueFrom tag (text.takeWhile isdigit), text.dropWhile isdigit)) ∨
    intMax < valueFrom tag (text.takeWhile isdigit) ∧
      ∃ tag' rest, scanTag tag text = some (tag', rest) ∧ intMax < tag' := by
  induction text generalizing tag with
  | nil => exact Or.inl ⟨hhigh, rfl⟩
  | cons c text ih =>
    rw [scanTag]
    split
    · next hc =>
      have hdigit := isdigit_iff.mp hc
      have hzero : ('0'.toNat : ℤ) = 48 := rfl
      have hmax : intMax = 2147483647 := rfl
      -- neither the product nor the sum leaves the type
      have hshifted : longLong (tag * 10) = some (tag * 10) := if_pos (by omega)
      have hsum : longLong (tag * 10 + (c.toNat - '0'.toNat : ℤ)) =
          some (tag * 10 + (c.toNat - '0'.toNat : ℤ)) := if_pos (by omega)
      rw [hshifted, Option.bind_eq_bind, Option.bind_some, hsum, Option.bind_some,
        List.takeWhile_cons_of_pos hc, List.dropWhile_cons_of_pos hc]
      have hnext : 0 ≤ tag * 10 + (c.toNat - '0'.toNat : ℤ) := by omega
      split
      · next hlarge =>
        refine Or.inr ⟨?_, _, _, rfl, hlarge⟩
        exact lt_of_lt_of_le hlarge (le_valueFrom hnext (all_takeWhile_isdigit text))
      · next hfits => exact ih hnext (not_lt.mp hfits)
    · next hc =>
      rw [List.takeWhile_cons_of_neg hc, List.dropWhile_cons_of_neg hc]
      exact Or.inl ⟨hhigh, rfl⟩

/-- The tag that is found is the tag that stands there. -/
theorem tagAfter_spec (text : List UInt8) :
    ∃ found, tagAfter text = some found ∧ ∀ tag, found = some tag ↔ IsTag text tag := by
  have hlength := congrArg List.length (@List.takeWhile_append_dropWhile _ isdigit text)
  rw [List.length_append] at hlength
  rw [tagAfter]
  rcases scanTag_spec (le_refl 0) (by decide) text with
    ⟨hfits, heq⟩ | ⟨hlarge, tag', rest, heq, hlarge'⟩
  · rw [heq, Option.bind_eq_bind, Option.bind_some]
    dsimp only
    split
    · next hnone =>
      refine ⟨none, rfl, fun tag ↦ ⟨nofun, fun h ↦ ?_⟩⟩
      have hpos := List.length_pos_iff.mpr h.nonempty
      rcases hnone with hempty | hlarge | hboundary
      · omega
      · omega
      · obtain ⟨c, hc, hnot⟩ := (Option.any_eq_true _ _).mp hboundary
        rw [h.boundary c hc] at hnot
        nomatch hnot
    · next hsome =>
      obtain ⟨hempty, -, hboundary⟩ := by simpa only [not_or] using hsome
      refine ⟨some _, rfl, fun tag ↦ ?_⟩
      constructor
      · rintro h
        obtain rfl := Option.some.inj h
        refine ⟨fun hnil ↦ hempty ?_, rfl, hfits, fun c hc ↦ ?_⟩
        · rw [hnil, List.length_nil, Nat.zero_add] at hlength
          exact hlength
        · by_contra hnot
          exact hboundary ((Option.any_eq_true _ _).mpr ⟨c, hc, by simpa using hnot⟩)
      · exact fun h ↦ congrArg some h.value
  · rw [heq, Option.bind_eq_bind, Option.bind_some]
    dsimp only
    rw [if_pos (Or.inr (Or.inl hlarge'))]
    refine ⟨none, rfl, fun tag ↦ ⟨nofun, fun h ↦ ?_⟩⟩
    have hvalue := h.value
    have hfits := h.fits
    omega

theorem IsTag.unique {text : List UInt8} {tag tag' : ℤ} (h : IsTag text tag)
    (h' : IsTag text tag') : tag = tag' :=
  h.value.symm.trans h'.value

/-! ## Names -/

/-- Handles with names of one length are the same. -/
theorem IsHandle.unique {text : List UInt8} {handle other : Handle} (h : IsHandle text handle)
    (h' : IsHandle text other) (hlength : handle.1.length = other.1.length) : handle = other := by
  obtain ⟨rest, htext, htag⟩ := h.tag
  obtain ⟨rest', htext', htag'⟩ := h'.tag
  obtain ⟨hname, hrest⟩ := List.append_inj (htext.symm.trans htext') hlength
  obtain ⟨-, rfl⟩ := List.cons.inj hrest
  exact Prod.ext hname (htag.unique htag')

/-- A handle whose name is what has been passed. -/
theorem isHandle_iff {passed text : List UInt8} {c : UInt8} {handle : Handle}
    (hlength : handle.1.length = passed.length) :
    IsHandle (passed ++ c :: text) handle ↔
      handle.1 = passed ∧ passed ≠ [] ∧ passed.length ≤ 400 ∧
        (∀ b ∈ passed, b ≠ '\n'.toUInt8 ∧ b ≠ '\r'.toUInt8) ∧ c = '#'.toUInt8 ∧
        IsTag text handle.2 := by
  constructor
  · rintro ⟨hne, hshort, hline, rest, htext, htag⟩
    obtain ⟨hname, hrest⟩ := List.append_inj htext hlength.symm
    obtain ⟨rfl, rfl⟩ := List.cons.inj hrest
    exact ⟨hname.symm, hname ▸ hne, hname ▸ hshort, hname ▸ hline, rfl, htag⟩
  · rintro ⟨rfl, hne, hshort, hline, rfl, htag⟩
    exact ⟨hne, hshort, hline, text, rfl, htag⟩

/-- A longer name has what comes after what has been passed in it. -/
theorem mem_of_lt_length {passed text : List UInt8} {c : UInt8} {handle : Handle}
    (h : IsHandle (passed ++ c :: text) handle) (hlt : passed.length < handle.1.length) :
    c ∈ handle.1 := by
  obtain ⟨rest, htext, -⟩ := h.tag
  have hget : (passed ++ c :: text)[passed.length]? =
      (handle.1 ++ '#'.toUInt8 :: rest)[passed.length]? := by rw [htext]
  rw [List.getElem?_append_right (le_refl _), Nat.sub_self, List.getElem?_cons_zero,
    List.getElem?_append_left hlt] at hget
  exact List.mem_of_getElem? hget.symm

/-- The shortest of the handles with names of at least some length. -/
structure Shortest (length : ℕ) (text : List UInt8) (handle : Handle) : Prop where
  isHandle : IsHandle text handle
  le : length ≤ handle.1.length
  shortest : ∀ other, IsHandle text other → length ≤ other.1.length →
    handle.1.length ≤ other.1.length

/-- Where no name ends, the next position may be the first. -/
theorem shortest_succ_iff {length : ℕ} {text : List UInt8} {handle : Handle}
    (h : ∀ other, IsHandle text other → other.1.length ≠ length) :
    Shortest (length + 1) text handle ↔ Shortest length text handle := by
  constructor
  · intro hs
    refine ⟨hs.isHandle, (Nat.le_succ _).trans hs.le, fun other hother hle ↦ ?_⟩
    exact hs.shortest other hother (lt_of_le_of_ne hle (h other hother).symm)
  · intro hs
    refine ⟨hs.isHandle, lt_of_le_of_ne hs.le (h handle hs.isHandle).symm,
      fun other hother hle ↦ ?_⟩
    exact hs.shortest other hother ((Nat.le_succ _).trans hle)

/-- The handle that is found is the shortest from there on. -/
theorem scanHash_spec {passed : List UInt8}
    (hline : ∀ b ∈ passed, b ≠ '\n'.toUInt8 ∧ b ≠ '\r'.toUInt8) (text : List UInt8) :
    ∃ found, scanHash passed text = some found ∧
      ∀ handle, found = some handle ↔ Shortest passed.length (passed ++ text) handle := by
  induction text generalizing passed with
  | nil =>
    refine ⟨none, rfl, fun handle ↦ ⟨nofun, fun h ↦ ?_⟩⟩
    obtain ⟨rest, htext, -⟩ := h.isHandle.tag
    have hlength := congrArg List.length htext
    have hle := h.le
    rw [List.append_nil, List.length_append, List.length_cons] at hlength
    omega
  | cons c text ih =>
    have hnext (hc : c ≠ '\n'.toUInt8 ∧ c ≠ '\r'.toUInt8)
        (hnone : ∀ other, IsHandle (passed ++ c :: text) other → other.1.length ≠ passed.length) :
        ∃ found, scanHash (passed ++ [c]) text = some found ∧
          ∀ handle, found = some handle ↔
            Shortest passed.length (passed ++ c :: text) handle := by
      obtain ⟨found, hscan, hfound⟩ := @ih (passed ++ [c])
        (List.forall_mem_append.mpr ⟨hline, List.forall_mem_singleton.mpr hc⟩)
      refine ⟨found, hscan, fun handle ↦ ?_⟩
      rw [hfound handle, List.length_append, List.length_singleton, List.append_assoc,
        List.singleton_append]
      exact shortest_succ_iff hnone
    rw [scanHash]
    split
    · next hlong =>
      refine ⟨none, rfl, fun handle ↦ ⟨nofun, fun h ↦ ?_⟩⟩
      exact absurd h.isHandle.short (by have hle := h.le; omega)
    · next hshort =>
      split
      · next hbreak =>
        refine ⟨none, rfl, fun handle ↦ ⟨nofun, fun h ↦ ?_⟩⟩
        -- the name ends here, where no number sign is, or has the break in it
        rcases Nat.lt_or_eq_of_le h.le with hlt | heq
        · have hc := h.isHandle.oneLine c (mem_of_lt_length h.isHandle hlt)
          exact hbreak.elim (absurd · hc.1) (absurd · hc.2)
        · obtain ⟨-, -, -, -, rfl, -⟩ := (isHandle_iff heq.symm).mp h.isHandle
          exact absurd hbreak (by decide)
      · next hbreak =>
        rw [not_or] at hbreak
        split
        · next hskip =>
          refine hnext hbreak fun other hother hlength ↦ ?_
          obtain ⟨-, hne, -, -, hhash, -⟩ := (isHandle_iff hlength).mp hother
          exact hskip.elim (absurd hhash) hne
        · next hhash =>
          obtain ⟨hc, hne⟩ := by simpa only [not_or, not_not] using hhash
          obtain ⟨found, htag, hfound⟩ := tagAfter_spec text
          rw [htag, Option.bind_eq_bind, Option.bind_some]
          match found with
          | none =>
            refine hnext hbreak fun other hother hlength ↦ ?_
            obtain ⟨-, -, -, -, -, htag⟩ := (isHandle_iff hlength).mp hother
            nomatch (hfound _).mpr htag
          | some tag =>
            have hstands : IsHandle (passed ++ c :: text) (passed, tag) :=
              (@isHandle_iff passed text c (passed, tag) rfl).mpr
                ⟨rfl, hne, not_lt.mp hshort, hline, hc, (hfound tag).mp rfl⟩
            refine ⟨some (passed, tag), rfl, fun handle ↦ ?_⟩
            constructor
            · intro heq
              obtain rfl := Option.some.inj heq
              exact ⟨hstands, le_refl _, fun other _ hle ↦ hle⟩
            · intro h
              have hle := h.shortest (passed, tag) hstands (le_refl _)
              exact congrArg some (hstands.unique h.isHandle (le_antisymm h.le hle))

/-! ## All handles -/

theorem HandleAt.unique {text : List UInt8} {position : ℕ} {handle other : Handle}
    (h : HandleAt text position handle) (h' : HandleAt text position other) : handle = other :=
  h.isHandle.unique h'.isHandle
    (le_antisymm (h.shortest other h'.isHandle) (h'.shortest handle h.isHandle))

/-- A handle right at the end of what has been scanned. -/
theorem handleAt_iff {before text : List UInt8} {c : UInt8} {handle : Handle} :
    HandleAt (before ++ c :: text) before.length handle ↔
      c = '@'.toUInt8 ∧ (∀ b, before.getLast? = some b → mentionStartBoundary b = true) ∧
        Shortest 0 text handle := by
  have hsign : (before ++ c :: text)[before.length]? = some c := by
    rw [List.getElem?_append_right (le_refl _), Nat.sub_self, List.getElem?_cons_zero]
  have hdrop : (before ++ c :: text).drop (before.length + 1) = text := by
    rw [List.drop_length_add_append, List.drop_one, List.tail_cons]
  have hstart : (before.length = 0 ∨ ∃ b, (before ++ c :: text)[before.length - 1]? = some b ∧
      mentionStartBoundary b = true) ↔
      ∀ b, before.getLast? = some b → mentionStartBoundary b = true := by
    rcases List.eq_nil_or_concat' before with rfl | ⟨init, last, rfl⟩
    · exact iff_of_true (Or.inl rfl) nofun
    · have hlast : (init ++ [last] ++ c :: text)[(init ++ [last]).length - 1]? = some last := by
        rw [List.length_append, List.length_singleton, Nat.add_sub_cancel, List.append_assoc,
          List.getElem?_append_right (le_refl _), Nat.sub_self]
        rfl
      rw [hlast, List.getLast?_concat]
      constructor
      · rintro (hzero | ⟨b, hb, hboundary⟩) b' hb'
        · rw [List.length_append, List.length_singleton] at hzero
          omega
        · exact Option.some.inj (hb.symm.trans hb') ▸ hboundary
      · exact fun h ↦ Or.inr ⟨last, rfl, h last rfl⟩
  constructor
  · intro h
    refine ⟨Option.some.inj (hsign.symm.trans h.sign), hstart.mp h.start, ?_⟩
    have hhandle := h.isHandle
    have hshortest := h.shortest
    rw [hdrop] at hhandle hshortest
    exact ⟨hhandle, Nat.zero_le _, fun other hother _ ↦ hshortest other hother⟩
  · rintro ⟨rfl, hboundary, h⟩
    refine ⟨hsign, hstart.mpr hboundary, ?_, ?_⟩
    · rw [hdrop]
      exact h.isHandle
    · rw [hdrop]
      exact fun other hother ↦ h.shortest other hother (Nat.zero_le _)

/-- The handles of a text from a position on, with the positions of their at signs. -/
structure HandlesFrom (text : List UInt8) (start : ℕ) (positions : List ℕ)
    (handles : List Handle) : Prop where
  increasing : positions.Pairwise (· < ·)
  mem : ∀ position, position ∈ positions ↔
    start ≤ position ∧ ∃ handle, HandleAt text position handle
  handleAt : List.Forall₂ (HandleAt text) positions handles

theorem handlesFrom_nil (before : List UInt8) : HandlesFrom (before ++ []) before.length [] [] := by
  refine ⟨List.Pairwise.nil, fun position ↦ ?_, List.Forall₂.nil⟩
  refine ⟨fun h ↦ absurd h List.not_mem_nil, fun ⟨hle, handle, h⟩ ↦ ?_⟩
  have hsign := h.sign
  rw [List.append_nil, List.getElem?_eq_none hle] at hsign
  nomatch hsign

/-- A position without a handle is passed. -/
theorem HandlesFrom.skip {text : List UInt8} {start : ℕ} {positions : List ℕ}
    {handles : List Handle} (h : HandlesFrom text (start + 1) positions handles)
    (hnone : ∀ handle, ¬HandleAt text start handle) :
    HandlesFrom text start positions handles := by
  refine ⟨h.increasing, fun position ↦ ?_, h.handleAt⟩
  rw [h.mem]
  refine and_congr_left fun ⟨handle, hhandle⟩ ↦ ⟨Nat.le_of_succ_le, fun hle ↦ ?_⟩
  refine lt_of_le_of_ne hle ?_
  rintro rfl
  exact hnone handle hhandle

theorem HandlesFrom.cons {text : List UInt8} {start : ℕ} {positions : List ℕ}
    {handles : List Handle} (h : HandlesFrom text (start + 1) positions handles) {handle : Handle}
    (hhandle : HandleAt text start handle) :
    HandlesFrom text start (start :: positions) (handle :: handles) := by
  refine ⟨List.pairwise_cons.mpr ⟨fun position hposition ↦ ((h.mem position).mp hposition).1,
    h.increasing⟩, fun position ↦ ?_, List.Forall₂.cons hhandle h.handleAt⟩
  rw [List.mem_cons, h.mem]
  constructor
  · rintro (rfl | ⟨hle, hother⟩)
    · exact ⟨le_refl _, handle, hhandle⟩
    · exact ⟨Nat.le_of_succ_le hle, hother⟩
  · rintro ⟨hle, hother⟩
    rcases Nat.lt_or_eq_of_le hle with hlt | rfl
    · exact Or.inr ⟨hlt, hother⟩
    · exact Or.inl rfl

/-- Every text has its handles. -/
theorem exists_handlesFrom (text before : List UInt8) :
    ∃ positions handles, HandlesFrom (before ++ text) before.length positions handles := by
  induction text generalizing before with
  | nil => exact ⟨[], [], handlesFrom_nil before⟩
  | cons c text ih =>
    obtain ⟨positions, handles, hfrom⟩ := ih (before ++ [c])
    rw [List.append_assoc, List.singleton_append, List.length_append, List.length_singleton]
      at hfrom
    by_cases h : ∃ handle, HandleAt (before ++ c :: text) before.length handle
    · obtain ⟨handle, hhandle⟩ := h
      exact ⟨_, _, hfrom.cons hhandle⟩
    · exact ⟨_, _, hfrom.skip (not_exists.mp h)⟩

theorem eraseDups_concat (found : List Handle) (value : Handle) :
    (found ++ [value]).eraseDups =
      if found.eraseDups.contains value then found.eraseDups else found.eraseDups ++ [value] := by
  have hcontains : found.eraseDups.contains value = found.contains value := by
    rw [Bool.eq_iff_iff, List.contains_iff_mem, List.contains_iff_mem, List.mem_eraseDups]
  rw [hcontains, List.eraseDups_append, List.cons_removeAll, List.nil_removeAll]
  cases found.contains value with
  | false => rfl
  | true => exact List.append_nil _

/-- What the scanner adds up is the handles without repetitions, as far as there is room. -/
theorem scanAt_spec (text : List UInt8) {before : List UInt8} {found : List Handle}
    (hroom : found.eraseDups.length ≤ 20) :
    ∃ positions handles, HandlesFrom (before ++ text) before.length positions handles ∧
      scanAt before.getLast? found.eraseDups text =
        some ((found ++ handles).eraseDups.take 20) := by
  induction text generalizing before found with
  | nil =>
    refine ⟨[], [], handlesFrom_nil before, ?_⟩
    rw [scanAt, List.append_nil, List.take_of_length_le hroom]
  | cons c text ih =>
    have hnext {found : List Handle} (hroom : found.eraseDups.length ≤ 20) :
        ∃ positions handles,
          HandlesFrom (before ++ c :: text) (before.length + 1) positions handles ∧
          scanAt (some c) found.eraseDups text =
            some ((found ++ handles).eraseDups.take 20) := by
      obtain ⟨positions, handles, hfrom, hscan⟩ := @ih (before ++ [c]) found hroom
      rw [List.append_assoc, List.singleton_append, List.length_append, List.length_singleton]
        at hfrom
      rw [List.getLast?_concat] at hscan
      exact ⟨positions, handles, hfrom, hscan⟩
    rw [scanAt]
    split
    · next hfull =>
      -- the scanner stops, and what comes after has no room
      obtain ⟨positions, handles, hfrom⟩ := exists_handlesFrom (c :: text) before
      refine ⟨positions, handles, hfrom, ?_⟩
      rw [List.eraseDups_append, List.take_left' (le_antisymm hroom hfull)]
    · next hspace =>
      split
      · next hskip =>
        obtain ⟨positions, handles, hfrom, hscan⟩ := hnext hroom
        refine ⟨positions, handles, hfrom.skip fun handle h ↦ ?_, hscan⟩
        obtain ⟨hsign, hboundary, -⟩ := handleAt_iff.mp h
        rcases hskip with hother | hinside
        · exact hother hsign
        · obtain ⟨b, hb, hnot⟩ := (Option.any_eq_true _ _).mp hinside
          rw [hboundary b hb] at hnot
          nomatch hnot
      · next hsign =>
        rw [not_or, not_not] at hsign
        obtain ⟨value, hscan, hvalue⟩ := @scanHash_spec [] (by simp) text
        rw [hscan, Option.bind_eq_bind, Option.bind_some]
        match value with
        | none =>
          obtain ⟨positions, handles, hfrom, hscan⟩ := hnext hroom
          refine ⟨positions, handles, hfrom.skip fun handle h ↦ ?_, hscan⟩
          nomatch (hvalue handle).mpr (handleAt_iff.mp h).2.2
        | some value =>
          have hhandle : HandleAt (before ++ c :: text) before.length value := by
            refine handleAt_iff.mpr ⟨hsign.1, fun b hb ↦ ?_, (hvalue value).mp rfl⟩
            by_contra hnot
            exact hsign.2 ((Option.any_eq_true _ _).mpr ⟨b, hb, by simpa using hnot⟩)
          have hroom' : (found ++ [value]).eraseDups.length ≤ 20 := by
            rw [eraseDups_concat]
            split
            · exact hroom
            · rw [List.length_append, List.length_singleton]
              omega
          obtain ⟨positions, handles, hfrom, hscan⟩ := hnext hroom'
          refine ⟨_, _, hfrom.cons hhandle, ?_⟩
          rw [eraseDups_concat, List.append_assoc, List.singleton_append] at hscan
          exact hscan

/-- **The mention parser.** For every text the parser has a value, so no arithmetic on tags
overflows, and it is the handles of the grammar in the order of their at signs, each at its first
place only and at most twenty. -/
theorem parseMentionHandles_spec (text : List UInt8) :
    ∃ positions handles, positions.Pairwise (· < ·) ∧
      (∀ position, position ∈ positions ↔ ∃ handle, HandleAt text position handle) ∧
      List.Forall₂ (HandleAt text) positions handles ∧
      (∀ position handle other, HandleAt text position handle → HandleAt text position other →
        handle = other) ∧
      parseMentionHandles text = some (handles.eraseDups.take 20) := by
  obtain ⟨positions, handles, hfrom, hscan⟩ :=
    @scanAt_spec text [] [] (Nat.zero_le 20)
  refine ⟨positions, handles, hfrom.increasing, fun position ↦ ?_, hfrom.handleAt,
    fun _ _ _ h h' ↦ h.unique h', hscan⟩
  rw [hfrom.mem]
  exact and_iff_right (Nat.zero_le position)

end Mentions

end Agora
