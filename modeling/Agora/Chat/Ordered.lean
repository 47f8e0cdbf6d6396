import Mathlib.Data.List.Nodup
import Mathlib.Data.List.Sort

/-!
# Ends of an ordered list

A list in the order of a key may have elements with equal keys in any order. When the last elements
of every such list are the same, the others lie below them: an element with the key of the first of
them, and not equal to it, could come after it.
-/

namespace Agora

variable {α κ : Type*} [LinearOrder κ] (key : α → κ)

/-- In the order of the keys. -/
def Ordered (l : List α) : Prop := l.Pairwise fun a b ↦ key a ≤ key b

variable {key} {l l' O S C : List α} {limit : ℕ}

theorem exists_ordered (key : α → κ) (l : List α) : ∃ l', l'.Perm l ∧ Ordered key l' := by
  have htotal : Std.Total fun a b : α ↦ key a ≤ key b := ⟨fun a b ↦ le_total _ _⟩
  have htrans : IsTrans α fun a b ↦ key a ≤ key b := ⟨fun _ _ _ ↦ le_trans⟩
  exact ⟨l.insertionSort fun a b ↦ key a ≤ key b, List.perm_insertionSort _ l,
    List.pairwise_insertionSort _ l⟩

theorem eq_of_key_eq (hl : l.Pairwise fun a b ↦ key a < key b) {a b : α} (ha : a ∈ l) (hb : b ∈ l)
    (h : key a = key b) : a = b := by
  have hkeys : (l.map key).Nodup := List.pairwise_map.mpr (hl.imp ne_of_lt)
  exact List.inj_on_of_nodup_map hkeys ha hb h

/-- Lists without equal keys have one order. -/
theorem Ordered.eq_of_perm (h : Ordered key l) (hl' : l'.Pairwise fun a b ↦ key a < key b)
    (hperm : l.Perm l') : l = l' :=
  List.Perm.eq_of_pairwise
    (fun _ _ ha hb hab hba ↦ eq_of_key_eq hl' (hperm.subset ha) hb (le_antisymm hab hba))
    (h : l.Pairwise fun a b ↦ key a ≤ key b) (hl'.imp le_of_lt) hperm

theorem Ordered.append {l₁ l₂ : List α} (h₁ : Ordered key l₁) (h₂ : Ordered key l₂)
    (h : ∀ a ∈ l₁, ∀ b ∈ l₂, key a ≤ key b) : Ordered key (l₁ ++ l₂) :=
  List.pairwise_append.mpr ⟨h₁, h₂, h⟩

/-- An ordered list is cut by any bound. -/
theorem Ordered.filter_append (h : Ordered key l) (c : κ) :
    l = l.filter (fun a ↦ key a ≤ c) ++ l.filter (fun a ↦ c < key a) := by
  induction l with
  | nil => rfl
  | cons a l ih =>
    obtain ⟨hfirst, hrest⟩ := List.pairwise_cons.mp h
    by_cases ha : key a ≤ c
    · rw [List.filter_cons_of_pos (by simpa using ha), List.filter_cons_of_neg (by simpa using ha),
        List.cons_append, ← ih hrest]
    · have hnone : l.filter (fun a ↦ key a ≤ c) = [] := by
        refine List.filter_eq_nil_iff.mpr fun b hb ↦ ?_
        have hle := hfirst b hb
        simpa using lt_of_lt_of_le (not_le.mp ha) hle
      have hall : l.filter (fun a ↦ c < key a) = l := by
        refine List.filter_eq_self.mpr fun b hb ↦ ?_
        have hle := hfirst b hb
        simpa using lt_of_lt_of_le (not_le.mp ha) hle
      rw [List.filter_cons_of_neg (by simpa using ha), List.filter_cons_of_pos (by simpa using ha),
        hnone, hall, List.nil_append]

/-- An order in which an element comes after all with its key. -/
theorem exists_ordered_last (key : α → κ) {o : α} (ho : o ∈ l) : ∃ P Q, (P ++ o :: Q).Perm l ∧
    Ordered key (P ++ o :: Q) ∧ ∀ a ∈ Q, key o < key a := by
  obtain ⟨s, t, rfl⟩ := List.append_of_mem ho
  obtain ⟨P, hP, hPorder⟩ := exists_ordered key ((s ++ t).filter fun a ↦ key a ≤ key o)
  obtain ⟨Q, hQ, hQorder⟩ := exists_ordered key ((s ++ t).filter fun a ↦ !decide (key a ≤ key o))
  have hlow : ∀ a ∈ P, key a ≤ key o := by
    intro a ha
    simpa using (List.mem_filter.mp (hP.subset ha)).2
  have hhigh : ∀ a ∈ Q, key o < key a := by
    intro a ha
    simpa using (List.mem_filter.mp (hQ.subset ha)).2
  refine ⟨P, Q, ?_, ?_, hhigh⟩
  · have hparts : (P ++ Q).Perm (s ++ t) :=
      (hP.append hQ).trans (List.filter_append_perm _ _)
    exact List.perm_middle.trans ((hparts.cons o).trans List.perm_middle.symm)
  · refine hPorder.append (List.pairwise_cons.mpr ⟨fun a ha ↦ (hhigh a ha).le, hQorder⟩)
      fun a ha b hb ↦ ?_
    rcases List.mem_cons.mp hb with rfl | hb
    · exact hlow a ha
    · exact (hlow a ha).trans (hhigh b hb).le

/-- An order of the elements between two bounds is part of one of all elements. -/
theorem exists_ordered_filter {p : α → Bool} {low high : α → Bool} (hC : C.Perm (l.filter p))
    (horder : Ordered key C) (hcases : ∀ a, p a = (!low a && !high a))
    (hlow : ∀ a b, low a → low b = false → key a ≤ key b)
    (hhigh : ∀ a b, high a = false → high b → key a ≤ key b) :
    ∃ rows, rows.Perm l ∧ Ordered key rows ∧ rows.filter p = C := by
  obtain ⟨L, hL, hLorder⟩ := exists_ordered key (l.filter low)
  obtain ⟨H, hH, hHorder⟩ := exists_ordered key ((l.filter fun a ↦ !low a).filter high)
  have hmemL : ∀ a ∈ L, low a = true := fun a ha ↦ (List.mem_filter.mp (hL.subset ha)).2
  have hmemH : ∀ a ∈ H, low a = false ∧ high a = true := fun a ha ↦ by
    have hmem := List.mem_filter.mp (hH.subset ha)
    exact ⟨by simpa using (List.mem_filter.mp hmem.1).2, hmem.2⟩
  have hmemC : ∀ a ∈ C, low a = false ∧ high a = false := fun a ha ↦ by
    have hp := (List.mem_filter.mp (hC.subset ha)).2
    rw [hcases] at hp
    simpa using hp
  refine ⟨L ++ (C ++ H), ?_, ?_, ?_⟩
  · have hmiddle : (l.filter fun a ↦ !low a).filter (fun a ↦ !high a) = l.filter p := by
      rw [List.filter_filter]
      refine List.filter_congr fun a _ ↦ ?_
      rw [hcases, Bool.and_comm]
    have hupper : (C ++ H).Perm (l.filter fun a ↦ !low a) := by
      have hparts := List.filter_append_perm (fun a ↦ !high a) (l.filter fun a ↦ !low a)
      simp only [Bool.not_not] at hparts
      rw [hmiddle] at hparts
      exact (hC.append hH).trans hparts
    exact (hL.append hupper).trans (List.filter_append_perm low l)
  · refine hLorder.append (horder.append hHorder fun a ha b hb ↦ ?_) fun a ha b hb ↦ ?_
    · exact hhigh a b (hmemC a ha).2 (hmemH b hb).2
    · refine hlow a b (hmemL a ha) ?_
      exact (List.mem_append.mp hb).elim (fun hb ↦ (hmemC b hb).1) fun hb ↦ (hmemH b hb).1
  · have hnone : ∀ a ∈ L, ¬p a := fun a ha ↦ by simp [hcases, hmemL a ha]
    have hnone' : ∀ a ∈ H, ¬p a := fun a ha ↦ by simp [hcases, (hmemH a ha).2]
    have hall : ∀ a ∈ C, p a := fun a ha ↦ by simp [hcases, hmemC a ha]
    rw [List.filter_append, List.filter_append, List.filter_eq_nil_iff.mpr hnone,
      List.filter_eq_nil_iff.mpr hnone', List.filter_eq_self.mpr hall, List.nil_append,
      List.append_nil]

section Ends

variable {more : Prop}

/-- Elements that lie below the last ones are not among them. -/
theorem drop_eq_of_below {s : α} (hS : (s :: S).Pairwise fun a b ↦ key a < key b)
    (hO : ∀ o ∈ O, key o < key s ∨ o = s) (hC : C.Perm (O ++ s :: S)) (horder : Ordered key C) :
    C.drop O.length = s :: S := by
  obtain ⟨hs, hS⟩ := List.pairwise_cons.mp hS
  have hlow : ∀ o ∈ O, key o ≤ key s := fun o ho ↦ (hO o ho).elim le_of_lt fun h ↦ h ▸ le_rfl
  have habove : C.filter (fun a ↦ key s < key a) = S := by
    refine Ordered.eq_of_perm (horder.filter _) hS ((hC.filter _).trans (List.Perm.of_eq ?_))
    rw [List.filter_append, List.filter_cons_of_neg (by simp),
      List.filter_eq_nil_iff.mpr fun o ho ↦ by simpa using hlow o ho,
      List.filter_eq_self.mpr fun a ha ↦ by simpa using hs a ha, List.nil_append]
  obtain ⟨T, hT⟩ : ∃ T, T = C.filter fun a ↦ key a ≤ key s := ⟨_, rfl⟩
  have hcut := horder.filter_append (key s)
  rw [← hT, habove] at hcut
  have hTperm : T.Perm (O ++ [s]) := by
    rw [hT]
    refine (hC.filter _).trans (List.Perm.of_eq ?_)
    rw [List.filter_append, List.filter_cons_of_pos (by simp)]
    rw [List.filter_eq_self.mpr fun o ho ↦ by simpa using hlow o ho,
      List.filter_eq_nil_iff.mpr fun a ha ↦ by simpa using hs a ha]
  -- The last of those up to the key of `s` has this key, so it is `s`.
  rcases List.eq_nil_or_concat' T with rfl | ⟨init, last, rfl⟩
  · have hlength := hTperm.length_eq
    rw [List.length_append, List.length_nil, List.length_singleton] at hlength
    omega
  have hlast : last = s := by
    have hmem := hTperm.subset (List.mem_append_right init (List.mem_singleton_self last))
    rcases List.mem_append.mp hmem with ho | hs
    · refine (hO last ho).resolve_left fun hlt ↦ ?_
      have hTorder : Ordered key (init ++ [last]) := by
        rw [hT]
        exact horder.filter _
      have hmems := hTperm.symm.subset (List.mem_append_right O (List.mem_singleton_self s))
      rcases List.mem_append.mp hmems with hinit | heq
      · have hle := (List.pairwise_append.mp hTorder).2.2 s hinit last (List.mem_singleton_self _)
        exact absurd hle (not_le.mpr hlt)
      · rw [List.mem_singleton.mp heq] at hlt
        exact absurd hlt (lt_irrefl _)
    · exact List.mem_singleton.mp hs
  have hlength : init.length = O.length := by
    have hlen := hTperm.length_eq
    simpa using hlen
  rw [hcut, List.append_assoc, ← hlength, List.drop_left, hlast, List.singleton_append]

/-- **The last elements.** The last `limit` elements of every order are the same, and there are more
exactly as expected, when the others lie below them. -/
theorem drop_eq_iff (hS : S.Pairwise fun a b ↦ key a < key b) (hlimit : 1 ≤ limit)
    (hfull : more → S.length = limit) (hpart : ¬more → S.length ≤ limit) :
    (∀ C, C.Perm (O ++ S) → Ordered key C →
      C.drop (C.length - limit) = S ∧ (limit < C.length ↔ more)) ↔
      (∀ o ∈ O, ∀ s ∈ S.head?, key o < key s ∨ o = s) ∧ (more ↔ O ≠ []) := by
  constructor
  · intro h
    obtain ⟨C, hC, horder⟩ := exists_ordered key (O ++ S)
    obtain ⟨hdrop, hmore⟩ := h C hC horder
    have hlength := hC.length_eq
    rw [List.length_append] at hlength
    have hnonempty : more ↔ O ≠ [] := by
      rw [← hmore, ← List.length_pos_iff]
      constructor
      · intro hlt
        have hfull := hfull (hmore.mp hlt)
        omega
      · intro hpos
        by_contra hnot
        have hpart := hpart fun hm ↦ hnot (hmore.mpr hm)
        have hlen := congrArg List.length hdrop
        rw [List.length_drop] at hlen
        omega
    refine ⟨fun o ho s hs ↦ ?_, hnonempty⟩
    have hfull := hfull (hnonempty.mpr (List.ne_nil_of_mem ho))
    obtain ⟨S', rfl⟩ : ∃ S', S = s :: S' := by
      rcases S with _ | ⟨s', S'⟩
      · nomatch hs
      · exact ⟨S', by rw [Option.some.inj hs]⟩
    obtain ⟨habove, hS'⟩ := List.pairwise_cons.mp hS
    -- No other lies above `s`, since the elements before the last ones do not.
    have hbelow : ∀ o ∈ O, key o ≤ key s := by
      intro o ho
      have hsplit := List.take_append_drop (C.length - limit) C
      rw [hdrop] at hsplit
      have hX : (C.take (C.length - limit)).Perm O := by
        rw [← hsplit] at hC
        exact (List.perm_append_right_iff _).mp hC
      have hordered : Ordered key (C.take (C.length - limit) ++ s :: S') := by rwa [hsplit]
      exact (List.pairwise_append.mp hordered).2.2 o (hX.symm.subset ho) s List.mem_cons_self
    rcases lt_or_eq_of_le (hbelow o ho) with hlt | heq
    · exact Or.inl hlt
    · -- Put `o` after all with its key.
      obtain ⟨P, Q, hperm, horder', hhigh⟩ :=
        exists_ordered_last key (List.mem_append_left (s :: S') ho)
      have hQ : Q.length = S'.length := by
        have hcount := (hperm.filter fun a ↦ decide (key o < key a)).length_eq
        have hP : ∀ a ∈ P, key a ≤ key o := fun a ha ↦
          (List.pairwise_append.mp horder').2.2 a ha o List.mem_cons_self
        rw [List.filter_append, List.filter_append, List.filter_cons_of_neg (by simp),
          List.filter_cons_of_neg (by simp [heq])] at hcount
        rw [List.filter_eq_nil_iff.mpr fun a ha ↦ by simpa using hP a ha,
          List.filter_eq_self.mpr fun a ha ↦ by simpa using hhigh a ha,
          List.filter_eq_nil_iff.mpr fun a ha ↦ by simpa [heq] using hbelow a ha,
          List.filter_eq_self.mpr fun a ha ↦ by simpa [heq] using habove a ha,
          List.nil_append, List.nil_append] at hcount
        exact hcount
      have hdrop' := (h (P ++ o :: Q) hperm horder').1
      have hcut : (P ++ o :: Q).length - limit = P.length := by
        rw [List.length_append, List.length_cons, hQ]
        rw [List.length_cons] at hfull
        omega
      rw [hcut, List.drop_left] at hdrop'
      exact Or.inr (List.cons.inj hdrop').1
  · rintro ⟨hbelow, hmore⟩ C hC horder
    have hlength := hC.length_eq
    rw [List.length_append] at hlength
    rcases S with _ | ⟨s, S⟩
    · have hnot : ¬more := fun hm ↦ by
        have hzero := hfull hm
        rw [List.length_nil] at hzero
        omega
      have hnil : O = [] := by
        by_contra hne
        exact hnot (hmore.mpr hne)
      subst hnil
      obtain rfl := List.length_eq_zero_iff.mp hlength
      exact ⟨List.drop_nil, by simpa using hnot⟩
    · have hcut := drop_eq_of_below hS (fun o ho ↦ hbelow o ho s rfl) hC horder
      by_cases hm : more
      · have hfull := hfull hm
        have hpos := List.length_pos_iff.mpr (hmore.mp hm)
        rw [hlength, hfull, Nat.add_sub_cancel]
        exact ⟨hcut, by simp only [hm, iff_true]; omega⟩
      · have hpart := hpart hm
        have hnil : O = [] := by
          by_contra hne
          exact hm (hmore.mpr hne)
        subst hnil
        rw [List.length_nil, Nat.zero_add] at hlength
        rw [hlength, Nat.sub_eq_zero_of_le hpart]
        exact ⟨hcut, by simp only [hm, iff_false]; omega⟩

/-- **The first elements.** -/
theorem take_eq_iff (hS : S.Pairwise fun a b ↦ key a < key b) (hlimit : 1 ≤ limit)
    (hfull : more → S.length = limit) (hpart : ¬more → S.length ≤ limit) :
    (∀ C, C.Perm (O ++ S) → Ordered key C → C.take limit = S ∧ (limit < C.length ↔ more)) ↔
      (∀ o ∈ O, ∀ s ∈ S.getLast?, key s < key o ∨ o = s) ∧ (more ↔ O ≠ []) := by
  have hreverse := @drop_eq_iff α κᵒᵈ _ (fun a ↦ OrderDual.toDual (key a)) O S.reverse limit more
    (List.pairwise_reverse.mpr hS) hlimit (by rwa [List.length_reverse])
    (by rwa [List.length_reverse])
  rw [List.head?_reverse] at hreverse
  refine Iff.trans ⟨fun h C hC horder ↦ ?_, fun h C hC horder ↦ ?_⟩ hreverse
  · have hC' : C.reverse.Perm (O ++ S) :=
      (List.reverse_perm C).trans (hC.trans ((List.Perm.refl O).append (List.reverse_perm S)))
    obtain ⟨htake, hmore⟩ := h C.reverse hC' (List.pairwise_reverse.mpr horder)
    rw [List.length_reverse] at hmore
    refine ⟨?_, hmore⟩
    rw [← htake, List.reverse_take, List.reverse_reverse, List.length_reverse]
  · have hC' : C.reverse.Perm (O ++ S.reverse) :=
      (List.reverse_perm C).trans (hC.trans ((List.Perm.refl O).append (List.reverse_perm S).symm))
    obtain ⟨hdrop, hmore⟩ := h C.reverse hC' (List.pairwise_reverse.mpr horder)
    rw [List.length_reverse] at hdrop hmore
    refine ⟨?_, hmore⟩
    rw [← List.reverse_inj, ← hdrop, List.reverse_take]

/-- **All elements.** -/
theorem eq_iff (hS : S.Pairwise fun a b ↦ key a < key b) :
    (∀ C, C.Perm (O ++ S) → Ordered key C → C = S) ↔ O = [] := by
  constructor
  · intro h
    obtain ⟨C, hC, horder⟩ := exists_ordered key (O ++ S)
    rw [h C hC horder] at hC
    have hlength := hC.length_eq
    rw [List.length_append] at hlength
    exact List.length_eq_zero_iff.mp (by omega)
  · rintro rfl C hC horder
    exact horder.eq_of_perm hS hC

end Ends

end Agora
