import Agora.Chat.Ordered
import Agora.Chat.Page

/-!
# A slice of a history, and the sorted history

A page is cut out of the array of a history when the messages of the slice carry the numbers of
their positions; otherwise the whole history is sorted by number. The check looks at the slice only.
It is the page of the sorted history exactly when every message has a number, and the messages
outside the slice that the request asks for lie beyond it in the direction of reading.

How sorting orders messages with the same number is left open.
-/

namespace Agora

namespace Chat

variable (readNumber : String → Option ℚ)

/-- The messages with a positive number, with it. -/
def numbered (data : List Json) : List (ℚ × Json) :=
  data.filterMap fun message ↦
    match sequenceOf readNumber message with
    | some n => if 0 < n then some (n, message) else none
    | none => none

/-- The messages with a positive number in some order of the numbers. -/
def Sorting (data : List Json) (rows : List (ℚ × Json)) : Prop :=
  rows.Perm (numbered readNumber data) ∧ Ordered Prod.fst rows

/-- The page from sorted rows. -/
def rowsPage (r : PageRequest) (rows : List (ℚ × Json)) : Json :=
  let selected := r.select rows
  let start := (selected.1.head?.map fun row ↦ row.1 - 1).getD 0
  let stop := (selected.1.getLast?.map Prod.fst).getD 0
  pageJson readNumber rows.length (selected.1.map Prod.snd) selected.2 start stop

theorem sorting_sortedRows (data : List Json) :
    Sorting readNumber data (sortedRows readNumber data) := by
  have htotal : Std.Total fun a b : ℚ × Json ↦ a.1 ≤ b.1 := ⟨fun a b ↦ le_total _ _⟩
  have htrans : IsTrans (ℚ × Json) fun a b ↦ a.1 ≤ b.1 := ⟨fun _ _ _ ↦ le_trans⟩
  exact ⟨List.perm_insertionSort _ _, List.pairwise_insertionSort _ _⟩

namespace PageRequest

variable (r : PageRequest)

/-- The slice of a history that is looked at first. -/
def sliceOf (data : List Json) : List Json :=
  slice data (r.window data.length).start (r.window data.length).stop

/-- The messages outside that slice. -/
def outside (data : List Json) : List Json :=
  data.take (r.window data.length).start.toNat ++ data.drop (r.window data.length).stop.toNat

/-- The page from the slice. -/
def slicePage (data : List Json) : Json :=
  let w := r.window data.length
  pageJson readNumber data.length (r.sliceOf data) w.more w.start w.stop

/-- The messages of the slice carry the numbers of their positions. -/
def Accepts (data : List Json) : Prop :=
  contiguous readNumber (r.window data.length) (r.sliceOf data) = true

instance (data : List Json) : Decidable (r.Accepts readNumber data) :=
  inferInstanceAs (Decidable (_ = true))

/-- Whether a number is one that is asked for. -/
def picks (n : ℚ) : Bool :=
  (r.fromSequence.all fun k : ℕ ↦ decide ((k : ℚ) ≤ n)) &&
    r.toSequence.all fun k : ℕ ↦ decide (n ≤ (k : ℚ))

/-- The bounds and the limit are positive. -/
structure Positive : Prop where
  fromSequence : ∀ n, r.fromSequence = some n → 1 ≤ n
  toSequence : ∀ n, r.toSequence = some n → 1 ≤ n
  limit : 1 ≤ r.limit

/-- A message lies beyond the slice in the direction of reading: below its first message when the
latest ones are read, above its last one when reading goes on from a number. -/
def Beyond (data : List Json) (n : ℚ) (message : Json) : Prop :=
  match r.fromSequence, r.toSequence with
  | none, _ => ∀ first, (r.sliceOf data).head? = some first →
      (∀ k, sequenceOf readNumber first = some k → n < k) ∨ message = first
  | some _, none => ∀ last, (r.sliceOf data).getLast? = some last →
      (∀ k, sequenceOf readNumber last = some k → k < n) ∨ message = last
  | some _, some _ => False

/-- Every message has a positive number, and the messages outside the slice that are asked for lie
beyond it; there are some exactly when there are positions left. -/
structure InOrder (data : List Json) : Prop where
  numbered : ∀ message ∈ data, ∃ n, sequenceOf readNumber message = some n ∧ 0 < n
  beyond : ∀ message ∈ r.outside data, ∀ n, sequenceOf readNumber message = some n →
    r.picks n → r.Beyond readNumber data n message
  more : (r.window data.length).more = true ↔
    ∃ message ∈ r.outside data, ∃ n, sequenceOf readNumber message = some n ∧ r.picks n

end PageRequest

/-! ## Rows -/

section Rows

variable {readNumber : String → Option ℚ} {data : List Json}

/-- A message with its number. -/
def row (readNumber : String → Option ℚ) (message : Json) : ℚ × Json :=
  ((sequenceOf readNumber message).getD 0, message)

/-- Every message has a positive number. -/
def Numbered (readNumber : String → Option ℚ) (data : List Json) : Prop :=
  ∀ message ∈ data, ∃ n, sequenceOf readNumber message = some n ∧ 0 < n

theorem numbered_eq (h : Numbered readNumber data) :
    numbered readNumber data = data.map (row readNumber) := by
  induction data with
  | nil => rfl
  | cons message data ih =>
    obtain ⟨⟨n, hn, hpos⟩, hrest⟩ := List.forall_mem_cons.mp h
    rw [numbered, List.filterMap_cons, List.map_cons, ← ih hrest]
    simp only [hn, if_pos hpos, row, Option.getD_some]
    rfl

theorem numbered_of_length (h : (numbered readNumber data).length = data.length) :
    Numbered readNumber data := by
  induction data with
  | nil => exact fun _ hmem ↦ nomatch hmem
  | cons message data ih =>
    have hle : (numbered readNumber data).length ≤ data.length := List.length_filterMap_le _ _
    rw [numbered, List.filterMap_cons] at h
    split at h
    · rw [← numbered, List.length_cons] at h
      omega
    · next found hfound =>
      rw [← numbered, List.length_cons, List.length_cons, Nat.add_right_cancel_iff] at h
      refine List.forall_mem_cons.mpr ⟨?_, ih h⟩
      rcases hn : sequenceOf readNumber message with _ | n
      · rw [hn] at hfound
        nomatch hfound
      · by_cases hpos : 0 < n
        · exact ⟨n, rfl, hpos⟩
        · simp only [hn, if_neg hpos] at hfound
          nomatch hfound

/-- The messages of a slice that is accepted. -/
theorem contiguousFrom_spec {start : ℤ} {l : List Json}
    (h : contiguousFrom readNumber start l = true) :
    (∀ message ∈ l, ∃ k : ℤ, sequenceOf readNumber message = some (k : ℚ) ∧ start < k ∧
      k ≤ start + l.length) ∧
      (l.map (row readNumber)).Pairwise fun a b ↦ a.1 < b.1 := by
  induction l generalizing start with
  | nil => exact ⟨fun _ hmem ↦ absurd hmem List.not_mem_nil, List.Pairwise.nil⟩
  | cons message l ih =>
    rw [contiguousFrom, Bool.and_eq_true] at h
    have hfirst := of_decide_eq_true h.1
    obtain ⟨hrest, horder⟩ := ih h.2
    constructor
    · refine List.forall_mem_cons.mpr ⟨⟨start + 1, hfirst, by omega, ?_⟩, fun m hm ↦ ?_⟩
      · rw [List.length_cons]
        omega
      · obtain ⟨k, hk, hlow, hhigh⟩ := hrest m hm
        exact ⟨k, hk, by omega, by rw [List.length_cons]; omega⟩
    · rw [List.map_cons]
      refine List.pairwise_cons.mpr ⟨fun b hb ↦ ?_, horder⟩
      obtain ⟨m, hm, rfl⟩ := List.mem_map.mp hb
      obtain ⟨k, hk, hlow, -⟩ := hrest m hm
      simp only [row, hfirst, hk, Option.getD_some]
      exact_mod_cast hlow

end Rows

/-! ## Pages -/

section Pages

variable {readNumber : String → Option ℚ} {total total' : ℤ} {messages messages' : List Json}
  {more more' : Bool} {start stop start' stop' : ℚ}

theorem listJson_injective : Function.Injective listJson := by
  intro a b h
  rcases a with _ | ⟨x, a⟩
  · rcases b with _ | ⟨y, b⟩
    · rfl
    · nomatch h
  · rcases b with _ | ⟨y, b⟩
    · nomatch h
    · exact Json.arr.inj h

theorem pageJson_inj (h : pageJson readNumber total messages more start stop
      = pageJson readNumber total' messages' more' start' stop') :
    total = total' ∧ messages = messages' ∧ more = more' := by
  have hfields := Json.obj.inj h
  obtain ⟨hparts, -⟩ := List.append_inj hfields rfl
  simp only [List.cons.injEq, Prod.mk.injEq, true_and, and_true, Json.int.injEq,
    Json.bool.injEq] at hparts
  exact ⟨hparts.1, listJson_injective hparts.2.1, hparts.2.2⟩

/-- The ends of a page of numbered messages are their numbers. -/
theorem pageJson_congr (h : ∀ message ∈ messages, ∃ n, sequenceOf readNumber message = some n) :
    pageJson readNumber total messages more start stop
      = pageJson readNumber total messages more start' stop' := by
  unfold pageJson
  rcases hfirst : messages.head? with _ | first
  · rfl
  rcases hlast : messages.getLast? with _ | last
  · rfl
  obtain ⟨n, hn⟩ := h first (List.mem_of_head? hfirst)
  obtain ⟨k, hk⟩ := h last (List.mem_of_getLast? hlast)
  simp only [hn, hk, Option.getD_some]

end Pages

/-! ## Windows -/

namespace PageRequest

variable {readNumber : String → Option ℚ} {r : PageRequest} {data : List Json}

theorem window_bounds (hfrom : ∀ n, r.fromSequence = some n → 1 ≤ n) (n : ℕ) :
    0 ≤ (r.window n).start ∧ (r.window n).start ≤ (r.window n).stop ∧ (r.window n).stop ≤ n := by
  unfold window
  rcases hf : r.fromSequence with _ | k
  · rcases ht : r.toSequence with _ | k'
    · dsimp only
      omega
    · dsimp only
      omega
  · have hk := hfrom k hf
    rcases ht : r.toSequence with _ | k'
    · dsimp only
      omega
    · dsimp only
      omega

/-- The positions of a window are asked for. -/
theorem picks_window (hr : r.Positive) {n : ℕ} {k : ℤ} (hlow : (r.window n).start < k)
    (hhigh : k ≤ (r.window n).stop) : r.picks k = true := by
  have hfrom := hr.fromSequence
  unfold window at hlow hhigh
  unfold picks
  rcases hf : r.fromSequence with _ | m
  · rcases ht : r.toSequence with _ | m'
    · rfl
    · simp only [hf, ht] at hhigh
      have hle : k ≤ m' := by omega
      have hle' : (k : ℚ) ≤ m' := by exact_mod_cast hle
      simpa using hle'
  · have hm := hfrom m hf
    rcases ht : r.toSequence with _ | m'
    · simp only [hf, ht] at hlow hhigh
      have hle : (m : ℤ) ≤ k := by omega
      have hle' : (m : ℚ) ≤ k := by exact_mod_cast hle
      simpa using hle'
    · simp only [hf, ht] at hlow hhigh
      have hle : (m : ℤ) ≤ k := by omega
      have hle' : (m : ℚ) ≤ k := by exact_mod_cast hle
      have hle₂ : k ≤ m' := by omega
      have hle₂' : (k : ℚ) ≤ m' := by exact_mod_cast hle₂
      simpa using ⟨hle', hle₂'⟩

theorem sliceOf_eq (hfrom : ∀ n, r.fromSequence = some n → 1 ≤ n) (data : List Json) :
    r.sliceOf data =
      (data.take (r.window data.length).stop.toNat).drop (r.window data.length).start.toNat := by
  have hbounds := window_bounds hfrom data.length
  unfold sliceOf slice
  rw [if_neg (by omega)]

theorem outside_append (hr : r.Positive) (data : List Json) :
    (r.outside data ++ r.sliceOf data).Perm data := by
  have hbounds := window_bounds hr.fromSequence data.length
  rw [sliceOf_eq hr.fromSequence, outside]
  generalize hstart : (r.window data.length).start.toNat = start
  generalize hstop : (r.window data.length).stop.toNat = stop
  have hle : start ≤ stop := by omega
  have hcut : data = data.take start ++ (data.take stop).drop start ++ data.drop stop := by
    conv_lhs =>
      rw [← List.take_append_drop stop data, ← List.take_append_drop start (data.take stop)]
    rw [List.take_take, min_eq_left hle]
  conv_rhs => rw [hcut]
  rw [List.append_assoc, List.append_assoc]
  exact (List.Perm.refl _).append List.perm_append_comm

theorem length_sliceOf (haccepts : r.Accepts readNumber data) :
    ((r.sliceOf data).length : ℤ) = (r.window data.length).stop - (r.window data.length).start := by
  unfold Accepts contiguous at haccepts
  rw [Bool.and_eq_true] at haccepts
  exact of_decide_eq_true haccepts.1

/-- The messages of an accepted slice are asked for, and in order. -/
theorem sliceOf_spec (hr : r.Positive) (haccepts : r.Accepts readNumber data) :
    (∀ message ∈ r.sliceOf data, r.picks (row readNumber message).1 = true) ∧
      ((r.sliceOf data).map (row readNumber)).Pairwise fun a b ↦ a.1 < b.1 := by
  have hlength := length_sliceOf haccepts
  unfold Accepts contiguous at haccepts
  rw [Bool.and_eq_true] at haccepts
  obtain ⟨hmem, horder⟩ := contiguousFrom_spec haccepts.2
  refine ⟨fun message hm ↦ ?_, horder⟩
  obtain ⟨k, hk, hlow, hhigh⟩ := hmem message hm
  rw [row, hk, Option.getD_some]
  exact picks_window hr hlow (by omega)

/-- A full page stops where there is more to read. -/
theorem length_of_more (hr : r.Positive) (haccepts : r.Accepts readNumber data)
    (hmore : (r.window data.length).more = true) : (r.sliceOf data).length = r.limit := by
  have hlength := length_sliceOf haccepts
  have hfrom := hr.fromSequence
  have hto := hr.toSequence
  revert hlength hmore
  unfold window
  rcases hf : r.fromSequence with _ | n
  · rcases ht : r.toSequence with _ | m
    · simp only [decide_eq_true_eq]
      omega
    · simp only [decide_eq_true_eq]
      omega
  · have hn := hfrom n hf
    rcases ht : r.toSequence with _ | m
    · simp only [decide_eq_true_eq]
      omega
    · exact fun hmore ↦ nomatch hmore

theorem length_of_not_more (hr : r.Positive) (haccepts : r.Accepts readNumber data)
    (hopen : r.fromSequence = none ∨ r.toSequence = none)
    (hmore : ¬(r.window data.length).more = true) : (r.sliceOf data).length ≤ r.limit := by
  have hlength := length_sliceOf haccepts
  have hfrom := hr.fromSequence
  have hto := hr.toSequence
  revert hlength hmore
  unfold window
  rcases hf : r.fromSequence with _ | n
  · rcases ht : r.toSequence with _ | m
    · simp only [decide_eq_true_eq]
      omega
    · simp only [decide_eq_true_eq]
      omega
  · have hn := hfrom n hf
    rcases ht : r.toSequence with _ | m
    · simp only [decide_eq_true_eq]
      omega
    · rcases hopen with h | h
      · rw [hf] at h
        nomatch h
      · rw [ht] at h
        nomatch h

/-! ## The rows that are asked for -/

/-- The rows with a number that is asked for. -/
def candidates (r : PageRequest) (rows : List (ℚ × Json)) : List (ℚ × Json) :=
  rows.filter fun row ↦ r.picks row.1

theorem select_none (hf : r.fromSequence = none) (rows : List (ℚ × Json)) : r.select rows =
    ((r.candidates rows).drop ((r.candidates rows).length - r.limit),
      decide (r.limit < (r.candidates rows).length)) := by
  unfold select candidates picks
  rcases ht : r.toSequence with _ | m
  · have hall : (rows.filter fun row ↦ (r.fromSequence.all fun k : ℕ ↦ decide ((k : ℚ) ≤ row.1)) &&
        (none : Option ℕ).all fun k : ℕ ↦ decide (row.1 ≤ (k : ℚ))) = rows := by
      rw [hf]
      exact List.filter_eq_self.mpr fun _ _ ↦ rfl
    rw [hall]
    simp only [hf]
  · simp only [hf, Option.all_none, Option.all_some, Bool.true_and]

theorem select_some {n : ℕ} (hf : r.fromSequence = some n) (ht : r.toSequence = none)
    (rows : List (ℚ × Json)) : r.select rows =
      ((r.candidates rows).take r.limit, decide (r.limit < (r.candidates rows).length)) := by
  unfold select candidates picks
  simp only [hf, ht, Option.all_none, Option.all_some, Bool.and_true]

theorem select_both {n m : ℕ} (hf : r.fromSequence = some n) (ht : r.toSequence = some m)
    (rows : List (ℚ × Json)) : r.select rows = (r.candidates rows, false) := by
  unfold select candidates picks
  simp only [hf, ht, Option.all_some, Bool.decide_and]

theorem select_subset (rows : List (ℚ × Json)) : ∀ x ∈ (r.select rows).1, x ∈ rows := by
  intro x hx
  have hcandidates : ∀ x ∈ r.candidates rows, x ∈ rows := fun x hx ↦ List.mem_of_mem_filter hx
  rcases hf : r.fromSequence with _ | n
  · rw [select_none hf] at hx
    exact hcandidates x (List.mem_of_mem_drop hx)
  · rcases ht : r.toSequence with _ | m
    · rw [select_some hf ht] at hx
      exact hcandidates x (List.mem_of_mem_take hx)
    · rw [select_both hf ht] at hx
      exact hcandidates x hx

/-- The page of sorted rows is that of the slice when the same messages are selected. -/
theorem rowsPage_eq_iff (haccepts : r.Accepts readNumber data)
    (hnumbered : Numbered readNumber data) {rows : List (ℚ × Json)}
    (hrows : Sorting readNumber data rows) :
    rowsPage readNumber r rows = r.slicePage readNumber data ↔
      (r.select rows).1 = (r.sliceOf data).map (row readNumber) ∧
        ((r.select rows).2 = true ↔ (r.window data.length).more = true) := by
  have hperm := hrows.1
  rw [numbered_eq hnumbered] at hperm
  have hlength : (rows.length : ℤ) = data.length := by
    rw [hperm.length_eq, List.length_map]
  have hrow : ∀ x ∈ (r.select rows).1, row readNumber x.2 = x := by
    intro x hx
    obtain ⟨message, -, rfl⟩ := List.mem_map.mp (hperm.subset (select_subset rows x hx))
    rfl
  have hselected : (r.select rows).1 = ((r.select rows).1.map Prod.snd).map (row readNumber) := by
    rw [List.map_map]
    exact ((List.map_congr_left hrow).trans (List.map_id _)).symm
  constructor
  · intro h
    obtain ⟨-, hmessages, hmore⟩ := pageJson_inj h
    refine ⟨?_, by rw [hmore]⟩
    rw [hselected, hmessages]
  · rintro ⟨hmessages, hmore⟩
    have hslice : (r.select rows).1.map Prod.snd = r.sliceOf data := by
      rw [hmessages, List.map_map]
      exact List.map_id _
    have hnumbers : ∀ message ∈ r.sliceOf data, ∃ n, sequenceOf readNumber message = some n := by
      intro message hm
      unfold Accepts contiguous at haccepts
      rw [Bool.and_eq_true] at haccepts
      obtain ⟨k, hk, -⟩ := (contiguousFrom_spec haccepts.2).1 message hm
      exact ⟨_, hk⟩
    unfold rowsPage slicePage
    dsimp only
    rw [hslice, Bool.eq_iff_iff.mpr hmore, hlength]
    exact pageJson_congr hnumbers

/-- A property of the rows that are asked for, in every order of the rows. -/
theorem forall_sorting_iff (hr : r.Positive) (haccepts : r.Accepts readNumber data)
    (hnumbered : Numbered readNumber data) (P : List (ℚ × Json) → Prop) :
    (∀ rows, Sorting readNumber data rows → P (r.candidates rows)) ↔
      ∀ C, C.Perm (r.candidates ((r.outside data).map (row readNumber)) ++
        (r.sliceOf data).map (row readNumber)) → Ordered Prod.fst C → P C := by
  have hcandidates : (r.candidates (data.map (row readNumber))).Perm
      (r.candidates ((r.outside data).map (row readNumber)) ++
        (r.sliceOf data).map (row readNumber)) := by
    have hparts := (((outside_append hr data).map (row readNumber)).filter
      fun row ↦ r.picks row.1).symm
    rw [List.map_append, List.filter_append] at hparts
    have hall : ((r.sliceOf data).map (row readNumber)).filter (fun row ↦ r.picks row.1)
        = (r.sliceOf data).map (row readNumber) := by
      refine List.filter_eq_self.mpr fun x hx ↦ ?_
      obtain ⟨message, hm, rfl⟩ := List.mem_map.mp hx
      exact (sliceOf_spec hr haccepts).1 message hm
    rwa [hall] at hparts
  constructor
  · intro h C hC horder
    have hfiltered : C.Perm ((data.map (row readNumber)).filter fun x ↦ r.picks x.1) :=
      hC.trans hcandidates.symm
    obtain ⟨rows, hperm, hordered, hfilter⟩ := @exists_ordered_filter (ℚ × Json) ℚ _ Prod.fst _ _
      (fun x ↦ r.picks x.1) (fun x ↦ !r.fromSequence.all fun k : ℕ ↦ decide ((k : ℚ) ≤ x.1))
      (fun x ↦ !r.toSequence.all fun k : ℕ ↦ decide (x.1 ≤ (k : ℚ)))
      hfiltered horder
      (fun a ↦ by simp only [picks, Bool.not_not])
      (fun a b ha hb ↦ by
        rcases hf : r.fromSequence with _ | k
        · simp [hf] at ha
        · simp only [hf, Option.all_some, Bool.not_eq_true', Bool.not_eq_false', decide_eq_true_eq,
            decide_eq_false_iff_not, not_le] at ha hb
          exact (ha.trans_le hb).le)
      (fun a b ha hb ↦ by
        rcases ht : r.toSequence with _ | k
        · simp [ht] at hb
        · simp only [ht, Option.all_some, Bool.not_eq_true', Bool.not_eq_false', decide_eq_true_eq,
            decide_eq_false_iff_not, not_le] at ha hb
          exact (ha.trans_lt hb).le)
    rw [← hfilter]
    refine h rows ⟨?_, hordered⟩
    rwa [numbered_eq hnumbered]
  · intro h rows hrows
    have hperm := hrows.1
    rw [numbered_eq hnumbered] at hperm
    exact h _ ((hperm.filter _).trans hcandidates) (hrows.2.filter _)

section Outside

variable (hr : r.Positive) (hnumbered : Numbered readNumber data)

include hr hnumbered

theorem mem_candidates_outside {x : ℚ × Json} :
    x ∈ r.candidates ((r.outside data).map (row readNumber)) ↔
      ∃ message ∈ r.outside data, ∃ n, sequenceOf readNumber message = some n ∧ r.picks n ∧
        x = (n, message) := by
  unfold candidates
  rw [List.mem_filter, List.mem_map]
  constructor
  · rintro ⟨⟨message, hm, rfl⟩, hpicks⟩
    have hmem := (outside_append hr data).subset (List.mem_append_left _ hm)
    obtain ⟨n, hn, -⟩ := hnumbered message hmem
    have hrow : row readNumber message = (n, message) := by rw [row, hn, Option.getD_some]
    rw [hrow] at hpicks
    exact ⟨message, hm, n, hn, hpicks, hrow⟩
  · rintro ⟨message, hm, n, hn, hpicks, rfl⟩
    exact ⟨⟨message, hm, by rw [row, hn, Option.getD_some]⟩, hpicks⟩

theorem candidates_outside_ne_nil :
    r.candidates ((r.outside data).map (row readNumber)) ≠ [] ↔
      ∃ message ∈ r.outside data, ∃ n, sequenceOf readNumber message = some n ∧ r.picks n := by
  constructor
  · intro hne
    obtain ⟨x, hx⟩ := List.exists_mem_of_ne_nil _ hne
    obtain ⟨message, hm, n, hn, hpicks, -⟩ := (mem_candidates_outside hr hnumbered).mp hx
    exact ⟨message, hm, n, hn, hpicks⟩
  · rintro ⟨message, hm, n, hn, hpicks⟩
    exact List.ne_nil_of_mem
      ((mem_candidates_outside hr hnumbered).mpr ⟨message, hm, n, hn, hpicks, rfl⟩)

/-- What holds of the messages outside the slice holds of their rows. -/
theorem forall_candidates_outside {P : ℚ → Json → Prop} :
    (∀ x ∈ r.candidates ((r.outside data).map (row readNumber)), P x.1 x.2) ↔
      ∀ message ∈ r.outside data, ∀ n, sequenceOf readNumber message = some n → r.picks n →
        P n message := by
  constructor
  · intro h message hm n hn hpicks
    exact h (n, message)
      ((mem_candidates_outside hr hnumbered).mpr ⟨message, hm, n, hn, hpicks, rfl⟩)
  · intro h x hx
    obtain ⟨message, hm, n, hn, hpicks, rfl⟩ := (mem_candidates_outside hr hnumbered).mp hx
    exact h message hm n hn hpicks

end Outside

/-- An order of a row and an end of the slice, said of its message. -/
theorem forall_end_iff (hnumbered : Numbered readNumber data) (lt : ℚ → ℚ → Prop) {e : Option Json}
    (he : ∀ m ∈ e, m ∈ data) {n : ℚ} {message : Json}
    (hn : sequenceOf readNumber message = some n) :
    (∀ s ∈ e.map (row readNumber), lt n s.1 ∨ (n, message) = s) ↔
      ∀ m, e = some m → (∀ k, sequenceOf readNumber m = some k → lt n k) ∨ message = m := by
  rcases e with _ | m
  · exact ⟨fun _ ↦ nofun, fun _ ↦ nofun⟩
  · obtain ⟨k, hk, -⟩ := hnumbered m (he m rfl)
    have hrow : row readNumber m = (k, m) := by rw [row, hk, Option.getD_some]
    have hsame : (n, message) = (k, m) ↔ message = m := by
      constructor
      · exact congrArg Prod.snd
      · rintro rfl
        rw [Option.some.inj (hn.symm.trans hk)]
    simp only [Option.map_some, Option.mem_some_iff, hrow, forall_eq', Option.some.injEq, hk, hsame]

theorem slicePage_iff (hr : r.Positive) (haccepts : r.Accepts readNumber data) :
    (∀ rows, Sorting readNumber data rows →
      rowsPage readNumber r rows = r.slicePage readNumber data) ↔ r.InOrder readNumber data := by
  have hnumbered : (∀ rows, Sorting readNumber data rows →
      rowsPage readNumber r rows = r.slicePage readNumber data) → Numbered readNumber data := by
    intro h
    have htotal := (pageJson_inj (h _ (sorting_sortedRows readNumber data))).1
    rw [(sorting_sortedRows readNumber data).1.length_eq] at htotal
    exact numbered_of_length (Int.ofNat_inj.mp htotal)
  suffices hmain : Numbered readNumber data → ((∀ rows, Sorting readNumber data rows →
      rowsPage readNumber r rows = r.slicePage readNumber data) ↔
        r.InOrder readNumber data) from
    ⟨fun h ↦ (hmain (hnumbered h)).mp h, fun h ↦ (hmain h.numbered).mpr h⟩
  intro hnumbered
  obtain ⟨-, horder⟩ := sliceOf_spec hr haccepts
  have hmem : ∀ m ∈ r.sliceOf data, m ∈ data := fun m hm ↦
    (outside_append hr data).subset (List.mem_append_right _ hm)
  -- the pages agree when the rows and the sign for more do
  have hrows : (∀ rows, Sorting readNumber data rows →
      rowsPage readNumber r rows = r.slicePage readNumber data) ↔
        ∀ rows, Sorting readNumber data rows →
          (r.select rows).1 = (r.sliceOf data).map (row readNumber) ∧
            ((r.select rows).2 = true ↔ (r.window data.length).more = true) :=
    forall₂_congr fun rows h ↦ rowsPage_eq_iff haccepts hnumbered h
  rw [hrows]
  have hinOrder :
      ((∀ x ∈ r.candidates ((r.outside data).map (row readNumber)),
          r.Beyond readNumber data x.1 x.2) ∧
        ((r.window data.length).more = true ↔
          r.candidates ((r.outside data).map (row readNumber)) ≠ []))
        ↔ r.InOrder readNumber data := by
    rw [candidates_outside_ne_nil hr hnumbered, forall_candidates_outside hr hnumbered]
    exact ⟨fun h ↦ ⟨hnumbered, h.1, h.2⟩, fun h ↦ ⟨h.beyond, h.more⟩⟩
  refine Iff.trans ?_ hinOrder
  -- the last rows, the first ones from a number on, or all between two numbers
  rcases hf : r.fromSequence with _ | n
  · simp only [select_none hf, decide_eq_true_eq]
    rw [forall_sorting_iff hr haccepts hnumbered fun C ↦
      C.drop (C.length - r.limit) = (r.sliceOf data).map (row readNumber) ∧
        (r.limit < C.length ↔ (r.window data.length).more = true)]
    rw [drop_eq_iff horder hr.limit (by rw [List.length_map]; exact length_of_more hr haccepts)
      (by rw [List.length_map]; exact length_of_not_more hr haccepts (Or.inl hf)), List.head?_map]
    refine and_congr_left' (forall₂_congr fun x hx ↦ ?_)
    obtain ⟨message, -, n, hn, -, rfl⟩ := (mem_candidates_outside hr hnumbered).mp hx
    rw [forall_end_iff hnumbered (fun a b ↦ a < b) (fun m hm ↦ hmem m (List.mem_of_head? hm)) hn]
    simp only [Beyond, hf]
  · rcases ht : r.toSequence with _ | m
    · simp only [select_some hf ht, decide_eq_true_eq]
      rw [forall_sorting_iff hr haccepts hnumbered fun C ↦
        C.take r.limit = (r.sliceOf data).map (row readNumber) ∧
          (r.limit < C.length ↔ (r.window data.length).more = true)]
      rw [take_eq_iff horder hr.limit (by rw [List.length_map]; exact length_of_more hr haccepts)
        (by rw [List.length_map]; exact length_of_not_more hr haccepts (Or.inr ht)),
        List.getLast?_map]
      refine and_congr_left' (forall₂_congr fun x hx ↦ ?_)
      obtain ⟨message, -, k, hk, -, rfl⟩ := (mem_candidates_outside hr hnumbered).mp hx
      rw [forall_end_iff hnumbered (fun a b ↦ b < a)
        (fun m hm ↦ hmem m (List.mem_of_getLast? hm)) hk]
      simp only [Beyond, hf, ht]
    · have hmore : (r.window data.length).more = false := by simp only [window, hf, ht]
      simp only [select_both hf ht, hmore, Bool.false_eq_true, iff_self, and_true]
      rw [forall_sorting_iff hr haccepts hnumbered fun C ↦
        C = (r.sliceOf data).map (row readNumber), eq_iff horder]
      simp only [Beyond, hf, ht]
      constructor
      · intro hnil
        rw [hnil]
        exact ⟨fun _ hx ↦ absurd hx List.not_mem_nil, by simp⟩
      · rintro ⟨-, hne⟩
        by_contra hnot
        exact hne.mpr hnot

theorem pageOf_of_accepts {stored : Option Json} (hstored : tableElements stored = some data)
    (haccepts : r.Accepts readNumber data) :
    pageOf readNumber r stored = some (r.slicePage readNumber data) := by
  have hpositioned : positioned stored = data := by
    unfold tableElements at hstored
    split at hstored
    · exact Option.some.inj hstored
    · exact Option.some.inj hstored
    · exact Option.some.inj hstored
    · exact Option.some.inj hstored
    · nomatch hstored
  unfold pageOf
  rw [hpositioned]
  exact if_pos haccepts

/-- **Slices of a history.** When a slice is accepted, its page is the page of the sorted history,
however sorting orders messages with the same number, exactly when every message has a positive
number and those outside the slice that are asked for lie beyond it. -/
theorem pageOf_slice_iff {stored : Option Json} (hstored : tableElements stored = some data)
    (hr : r.Positive) (haccepts : r.Accepts readNumber data) :
    (∀ rows, Sorting readNumber data rows →
      pageOf readNumber r stored = some (rowsPage readNumber r rows)) ↔
        r.InOrder readNumber data := by
  rw [← slicePage_iff hr haccepts, pageOf_of_accepts hstored haccepts]
  exact forall₂_congr fun _ _ ↦ by rw [Option.some.injEq, eq_comm]

/-- Messages 1 to 4, the last of them twice. -/
def repeated : List Json := [1, 2, 3, 4, 4].map fun n : ℤ ↦ .obj [("sequence", .int n)]

/-- A page in the middle: the two messages with one number lie behind it. -/
theorem pageOf_slice_iff_middle :
    (∀ rows, Sorting (fun _ ↦ none) repeated rows →
      pageOf (fun _ ↦ none) ⟨"room", some 2, some 3, 50⟩ (some (.arr repeated)) =
        some (rowsPage (fun _ ↦ none) ⟨"room", some 2, some 3, 50⟩ rows)) ↔
      InOrder (fun _ ↦ none) ⟨"room", some 2, some 3, 50⟩ repeated :=
  pageOf_slice_iff rfl
    ⟨fun n h ↦ by rw [← Option.some.inj h]; decide, fun n h ↦ by rw [← Option.some.inj h]; decide,
      by decide⟩
    (by decide +kernel)

/-- Message 5 of a history without the others is at position 1: reading on from 3 finds nothing,
where the sorted history has it. -/
theorem pageOf_slice_sparse :
    Positive ⟨"room", some 3, none, 50⟩ ∧
      Accepts (fun _ ↦ none) ⟨"room", some 3, none, 50⟩ [.obj [("sequence", .int 5)]] ∧
      pageOf (fun _ ↦ none) ⟨"room", some 3, none, 50⟩ (some (.arr [.obj [("sequence", .int 5)]])) =
        some (.obj [("total", .int 1), ("messages", .obj []), ("has_more", .bool false)]) ∧
      sortedPage (fun _ ↦ none) ⟨"room", some 3, none, 50⟩ [.obj [("sequence", .int 5)]] =
        .obj [("total", .int 1), ("messages", .arr [.obj [("sequence", .int 5)]]),
          ("has_more", .bool false), ("from_sequence", .int 5), ("to_sequence", .int 5)] ∧
      pageOf (fun _ ↦ none) ⟨"room", some 3, none, 50⟩ (some (.arr [.obj [("sequence", .int 5)]])) ≠
        some (sortedPage (fun _ ↦ none) ⟨"room", some 3, none, 50⟩ [.obj [("sequence", .int 5)]]) :=
  ⟨⟨fun n h ↦ by rw [← Option.some.inj h]; decide, nofun, by decide⟩, by decide +kernel,
    by decide +kernel, by decide +kernel, by decide +kernel⟩

end PageRequest

end Chat

end Agora
