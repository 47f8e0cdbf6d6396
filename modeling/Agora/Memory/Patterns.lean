import Agora.Memory.Operations

/-!
# Erasing by pattern

The keys of a pattern come as one text, which the memory takes apart again at its blanks. A key
that has a blank in it, or nothing in it, does not come through: its pieces are deleted in its
place.

**Main result.** `erasePattern_exact_iff`: an erase that reports success removed exactly the keys
of the pattern, with their regions and no others, exactly when all of them are words.
-/

namespace Agora

namespace MemoryClass

open WriteBack

/-! ## Words -/

/-- A key that is read back as it was written: not empty, and without blanks. -/
def IsWord (key : String) : Prop := key ≠ "" ∧ ∀ c ∈ key.toList, isSpace c = false

/-- The words on both sides of a blank. -/
theorem words_append_cons (left right : List Char) {blank : Char} (h : isSpace blank = true) :
    words (left ++ blank :: right) = words left ++ words right := by
  rw [words, List.splitOnP_append_cons left right h, List.filter_append, List.map_append]
  rfl

theorem words_of_isWord {key : String} (h : IsWord key) : words key.toList = [key] := by
  have hne : key.toList ≠ [] := fun hnil ↦ h.1 (String.toList_eq_nil_iff.mp hnil)
  rw [words, List.splitOnP_eq_singleton h.2, List.filter_singleton]
  simp [hne]

/-- The parts of a list that is split are without the separators. -/
theorem of_mem_splitOnP {α : Type*} {p : α → Bool} {l part : List α} (h : part ∈ l.splitOnP p) :
    ∀ a ∈ part, p a = false := by
  induction l generalizing part with
  | nil =>
    rw [List.splitOnP_nil, List.mem_singleton] at h
    rw [h]
    exact fun a ha ↦ absurd ha List.not_mem_nil
  | cons a l ih =>
    rw [List.splitOnP_cons_eq_if_modifyHead] at h
    split at h
    · rcases List.mem_cons.mp h with rfl | hmem
      · exact fun a ha ↦ absurd ha List.not_mem_nil
      · exact ih hmem
    · next ha =>
      obtain ⟨first, rest, hsplit⟩ := List.exists_cons_of_ne_nil (List.splitOnP_ne_nil p l)
      rw [hsplit, List.modifyHead_cons] at h
      rcases List.mem_cons.mp h with rfl | hmem
      · exact List.forall_mem_cons.mpr
          ⟨eq_false_of_ne_true ha, ih (hsplit ▸ List.mem_cons_self)⟩
      · exact ih (hsplit ▸ List.mem_cons_of_mem _ hmem)

/-- A word of a text has no blank in it. -/
theorem isWord_of_mem_words {text : List Char} {key : String} (h : key ∈ words text) :
    IsWord key := by
  obtain ⟨part, hpart, rfl⟩ := List.mem_map.mp h
  obtain ⟨hmem, hne⟩ := List.mem_filter.mp hpart
  refine ⟨fun hempty ↦ ?_, ?_⟩
  · rw [← String.toList_eq_nil_iff, String.toList_ofList] at hempty
    exact absurd hempty (of_decide_eq_true hne)
  · rw [String.toList_ofList]
    exact of_mem_splitOnP hmem

/-- The words of a reply are those of the single keys. -/
theorem words_replyText (keys : List String) :
    words (replyText keys) = keys.flatMap fun key ↦ words key.toList := by
  induction keys with
  | nil => rfl
  | cons key keys ih =>
    match keys with
    | [] => simp [replyText]
    | next :: keys =>
      rw [replyText, List.map_cons, List.map_cons, List.intercalate_cons_cons, List.append_assoc,
        List.singleton_append, ← List.map_cons, ← replyText, words_append_cons _ _ (by decide), ih]
      rfl

/-! ## What an erase by pattern does -/

@[simp] theorem lookup_deleteKeys (keys : List String) (redis : Redis) (key : String) :
    (deleteKeys keys redis).lookup key = if key ∈ keys then none else redis.lookup key := by
  induction keys generalizing redis with
  | nil => rfl
  | cons k keys ih =>
    rw [deleteKeys, List.foldl_cons, ← deleteKeys, ih, Assoc.lookup_erase]
    by_cases hkey : k = key
    · simp [hkey]
    · simp [hkey, Ne.symm hkey]

@[simp] theorem view_removeDocuments (keys : List String) (m : CacheManager) (key r : String) :
    (keys.foldl CacheManager.removeDocument m).view (key, r) =
      if key ∈ keys then none else m.view (key, r) := by
  induction keys generalizing m with
  | nil => rfl
  | cons k keys ih =>
    rw [List.foldl_cons, ih, CacheManager.view_removeDocument]
    by_cases hkey : key = k
    · simp [hkey, View.setPart]
    · simp [hkey, View.setPart]

variable {platform : Platform} {net : Outcomes} {s : MemoryState} {pattern : String}

/-- An erase by pattern that reports success deleted the words of the reply, and nothing else. -/
theorem erasePattern_eq (h : (erasePattern platform net pattern s).1 = true) :
    (erasePattern platform net pattern s).2 =
      ⟨deleteKeys (matchedKeys platform s.redis pattern) s.redis,
        (matchedKeys platform s.redis pattern).foldl CacheManager.removeDocument s.cache⟩ := by
  rw [erasePattern] at h ⊢
  dsimp only at h ⊢
  rw [← matchedKeys] at h ⊢
  split at h
  · nomatch h
  · next hreply =>
    rw [if_neg hreply]
    split at h
    · next hnone => rw [if_pos hnone, hnone]; rfl
    · next hsome =>
      rw [if_neg hsome]
      split at h
      · nomatch h
      · nomatch h
      · rfl

/-- Exactly the keys of the pattern are removed; the regions of the removed keys are forgotten, and
those of all other keys stay. -/
structure Exact (platform : Platform) (pattern : String) (before after : MemoryState) : Prop where
  removed : ∀ key, after.redis.lookup key =
    if platform.glob pattern key then none else before.redis.lookup key
  forgotten : ∀ key, (before.redis.lookup key).isSome → after.redis.lookup key = none →
    ∀ r, after.cache.view (key, r) = none
  kept : ∀ key, ¬((before.redis.lookup key).isSome ∧ after.redis.lookup key = none) →
    ∀ r, after.cache.view (key, r) = before.cache.view (key, r)

theorem mem_matchedKeys {key : String} : key ∈ matchedKeys platform s.redis pattern ↔
    ∃ k, (s.redis.lookup k).isSome ∧ platform.glob pattern k = true ∧ key ∈ words k.toList := by
  rw [matchedKeys, words_replyText, List.mem_flatMap]
  refine exists_congr fun k ↦ ?_
  rw [List.mem_filter, Assoc.lookup_isSome_iff, and_assoc]

/-- **Erasing by pattern.** An erase that reports success removed exactly the matches when none of
them is empty or has a blank in it, and only then. -/
theorem erasePattern_exact_iff (platform : Platform) (net : Outcomes) (pattern : String)
    (s : MemoryState) (h : (erasePattern platform net pattern s).1 = true) :
    Exact platform pattern s (erasePattern platform net pattern s).2 ↔
      ∀ key, (s.redis.lookup key).isSome → platform.glob pattern key = true → IsWord key := by
  rw [erasePattern_eq h]
  constructor
  · intro hexact key hkey hglob
    have hgone := hexact.removed key
    rw [hglob, if_pos rfl, lookup_deleteKeys] at hgone
    split at hgone
    · next hmem =>
      obtain ⟨k, -, -, hword⟩ := mem_matchedKeys.mp hmem
      exact isWord_of_mem_words hword
    · rw [hgone] at hkey
      nomatch hkey
  · intro hwords
    -- every match is its own only word
    have hmem (key : String) : key ∈ matchedKeys platform s.redis pattern ↔
        (s.redis.lookup key).isSome ∧ platform.glob pattern key = true := by
      rw [mem_matchedKeys]
      constructor
      · rintro ⟨k, hk, hglob, hword⟩
        rw [words_of_isWord (hwords k hk hglob), List.mem_singleton] at hword
        exact hword ▸ ⟨hk, hglob⟩
      · rintro ⟨hk, hglob⟩
        refine ⟨key, hk, hglob, ?_⟩
        rw [words_of_isWord (hwords key hk hglob)]
        exact List.mem_singleton_self key
    have hgone (key : String) (hkey : (s.redis.lookup key).isSome) :
        (deleteKeys (matchedKeys platform s.redis pattern) s.redis).lookup key = none ↔
          key ∈ matchedKeys platform s.redis pattern := by
      rw [lookup_deleteKeys, ite_eq_left_iff]
      constructor
      · intro hnone
        by_contra hnot
        rw [hnone hnot] at hkey
        nomatch hkey
      · exact fun hin hnot ↦ absurd hin hnot
    refine ⟨fun key ↦ ?_, fun key hkey hremoved r ↦ ?_, fun key hkept r ↦ ?_⟩
    · rw [lookup_deleteKeys]
      rcases hlookup : s.redis.lookup key with _ | value
      · rw [ite_self, ite_self]
      · have hiff := hmem key
        rw [hlookup, Option.isSome_some, eq_self_iff_true, true_and] at hiff
        exact if_congr hiff rfl rfl
    · rw [view_removeDocuments, if_pos ((hgone key hkey).mp hremoved)]
    · rw [view_removeDocuments, if_neg]
      intro hin
      have hkey := ((hmem key).mp hin).1
      exact hkept ⟨hkey, (hgone key hkey).mpr hin⟩

/-- An erase of one key that is a word. -/
theorem erasePattern_exact_word :
    Exact .plain "a" ⟨[("a", .text none)], .create 1 1 1⟩
      (erasePattern .plain .fine "a" ⟨[("a", .text none)], .create 1 1 1⟩).2 := by
  refine (erasePattern_exact_iff .plain .fine "a" ⟨[("a", .text none)], .create 1 1 1⟩
    (by decide)).mpr fun key hkey hglob ↦ ?_
  obtain rfl : "a" = key := of_decide_eq_true hglob
  refine ⟨by decide, fun c hc ↦ ?_⟩
  obtain rfl : c = 'a' := by simpa using hc
  rfl

/-- An erase of one key with a blank in it keeps the key and deletes two others. -/
theorem erasePattern_blank :
    let before : MemoryState :=
      ⟨[("a b", .text none), ("a", .text none), ("b", .text none)], .create 1 1 1⟩
    (erasePattern .plain .fine "a b" before).1 = true ∧
      (erasePattern .plain .fine "a b" before).2.redis = [("a b", .text none)] ∧
      ¬Exact .plain "a b" before (erasePattern .plain .fine "a b" before).2 := by
  refine ⟨by decide +kernel, by decide +kernel, fun h ↦ ?_⟩
  have hremoved := h.removed "a b"
  revert hremoved
  decide +kernel

end MemoryClass

end Agora
