import Agora.Json.Path

/-!
# Removing locations

`prune` removes every location a predicate selects. Later elements of an array move down, and a
selection below a removed location has no further effect.
-/

namespace Json

mutual

/-- Remove the selected locations below a value; later elements of an array move down. -/
def prune (select : List Segment → Bool) : Json → Json
  | .arr elements => .arr (pruneElements select 0 elements)
  | .obj fields => .obj (pruneFields select fields)
  | .null => .null
  | .bool b => .bool b
  | .int n => .int n
  | .float q => .float q
  | .str s => .str s

def pruneElements (select : List Segment → Bool) (i : ℕ) : List Json → List Json
  | [] => []
  | e :: es =>
    if select [.index i] then pruneElements select (i + 1) es
    else prune (fun p ↦ select (.index i :: p)) e :: pruneElements select (i + 1) es

def pruneFields (select : List Segment → Bool) :
    List (String × Json) → List (String × Json)
  | [] => []
  | (k, v) :: fs =>
    if select [.key k] then pruneFields select fs
    else (k, prune (fun p ↦ select (.key k :: p)) v) :: pruneFields select fs

end

/-- The document after what `select` selects was removed, the root included. -/
def without (select : List Segment → Bool) (d : Json) : Option Json :=
  if select [] then none else some (d.prune select)

/-! ## Following a location afterwards -/

mutual

/-- Nothing selected, nothing removed. -/
theorem prune_of_forall {select : List Segment → Bool} (h : ∀ p, p ≠ [] → select p = false) :
    ∀ j : Json, prune select j = j
  | .arr elements => congrArg arr (pruneElements_of_forall h 0 elements)
  | .obj fields => congrArg obj (pruneFields_of_forall h fields)
  | .null | .bool _ | .int _ | .float _ | .str _ => rfl

theorem pruneElements_of_forall {select : List Segment → Bool}
    (h : ∀ p, p ≠ [] → select p = false) (i : ℕ) :
    ∀ es : List Json, pruneElements select i es = es
  | [] => rfl
  | e :: es => by
    rw [pruneElements, h _ (List.cons_ne_nil _ _), pruneElements_of_forall h (i + 1) es,
      prune_of_forall (fun p _ ↦ h _ (List.cons_ne_nil _ p)) e]
    rfl

theorem pruneFields_of_forall {select : List Segment → Bool}
    (h : ∀ p, p ≠ [] → select p = false) :
    ∀ fs : List (String × Json), pruneFields select fs = fs
  | [] => rfl
  | (k, v) :: fs => by
    rw [pruneFields, h _ (List.cons_ne_nil _ _), pruneFields_of_forall h fs,
      prune_of_forall (fun p _ ↦ h _ (List.cons_ne_nil _ p)) v]
    rfl

end

theorem lookup_pruneFields (select : List Segment → Bool) (fs : List (String × Json)) (k : String) :
    (pruneFields select fs).lookup k
      = if select [.key k] then none
        else (fs.lookup k).map (prune fun p ↦ select (.key k :: p)) := by
  induction fs with
  | nil => simp [pruneFields]
  | cons e fs ih =>
    obtain ⟨k', v⟩ := e
    rw [pruneFields]
    by_cases hk : k' = k
    · subst hk
      split_ifs with h
      · rw [ih, if_pos h]
      · simp
    · rw [Assoc.lookup_cons_of_ne hk]
      split_ifs with h h' h'
      · rw [ih, if_pos h']
      · rw [ih, if_neg h']
      · rw [Assoc.lookup_cons_of_ne hk, ih, if_pos h']
      · rw [Assoc.lookup_cons_of_ne hk, ih, if_neg h']

/-- When no element of an array is selected, none moves. -/
theorem getElem?_pruneElements {select : List Segment → Bool}
    (h : ∀ i, select [.index i] = false) (n : ℕ) (es : List Json) (i : ℕ) :
    (pruneElements select n es)[i]?
      = es[i]?.map (prune fun p ↦ select (.index (n + i) :: p)) := by
  induction es generalizing n i with
  | nil => simp [pruneElements]
  | cons e es ih =>
    rw [pruneElements, h]
    cases i with
    | zero => simp
    | succ i =>
      simp only [Bool.false_eq_true, if_false, List.getElem?_cons_succ]
      rw [ih, Nat.add_right_comm, Nat.add_assoc]

theorem child_prune {select : List Segment → Bool} (h : ∀ i, select [.index i] = false)
    {s : Segment} (hs : select [s] = false) (j : Json) :
    child s (prune select j) = (child s j).map (prune fun p ↦ select (s :: p)) := by
  cases s with
  | key k =>
    cases j with
    | obj fields => simp only [prune, child, lookup_pruneFields, hs, Bool.false_eq_true, if_false]
    | _ => rfl
  | index i =>
    cases j with
    | arr elements =>
      simp only [prune, child]
      rw [getElem?_pruneElements h, Nat.zero_add]
    | _ => rfl

/-- **Frame of a removal.** When no array element is selected, a location none of whose prefixes is
selected is where it was, less what is selected below it. -/
theorem find_prune {select : List Segment → Bool} (h : ∀ p i, select (p ++ [.index i]) = false)
    {q : List Segment} (hq : ∀ p, p ≠ [] → p <+: q → select p = false) (j : Json) :
    find q (prune select j) = (find q j).map (prune fun p ↦ select (q ++ p)) := by
  induction q generalizing select j with
  | nil => rfl
  | cons s q ih =>
    have hs : select [s] = false := hq [s] (List.cons_ne_nil _ _) ⟨q, rfl⟩
    rw [find_cons, find_cons, child_prune (h []) hs]
    cases child s j with
    | none => rfl
    | some c =>
      exact ih (fun p i ↦ h (s :: p) i)
        (fun p _ hp ↦ hq (s :: p) (List.cons_ne_nil _ _) (List.cons_prefix_cons.mpr ⟨rfl, hp⟩)) c

/-- Removing one location that does not end in an array index leaves the locations apart from
it. -/
theorem find_prune_of_apart {p q : List Segment} (h : ∀ r i, p ≠ r ++ [.index i])
    (hapart : Apart p q) (j : Json) : find q (prune (fun r ↦ r = p) j) = find q j := by
  have hselect : ∀ r i, decide (r ++ [Segment.index i] = p) = false := fun r i ↦
    decide_eq_false (Ne.symm (h r i))
  have hprefix : ∀ r, r ≠ [] → r <+: q → decide (r = p) = false := fun r _ hr ↦
    decide_eq_false fun heq ↦ hapart.1 (heq ▸ hr)
  rw [find_prune hselect hprefix]
  have hbelow : ∀ r, r ≠ [] → decide (q ++ r = p) = false := fun r _ ↦
    decide_eq_false fun heq ↦ hapart.2 ⟨r, heq⟩
  cases find q j with
  | none => rfl
  | some c => exact congrArg some (prune_of_forall hbelow c)

/-- A removed key is gone. -/
theorem find_prune_key (p : List Segment) (k : String) (j : Json) :
    find (p ++ [.key k]) (prune (fun r ↦ r = p ++ [.key k]) j) = none := by
  induction p generalizing j with
  | nil =>
    rw [List.nil_append, find_cons]
    cases j with
    | obj fields => simp [prune, child, lookup_pruneFields]
    | _ => rfl
  | cons s p ih =>
    have hindex : ∀ i, decide ([Segment.index i] = s :: (p ++ [.key k])) = false := fun i ↦
      decide_eq_false (by simp)
    have hs : decide ([s] = s :: (p ++ [.key k])) = false := decide_eq_false (by simp)
    rw [List.cons_append, find_cons, child_prune hindex hs]
    cases child s j with
    | none => rfl
    | some c =>
      rw [Option.map_some, Option.bind_some]
      simpa using ih c

/-- The object a key is removed from is still an object. -/
theorem find_holder_prune {p : List Segment} {j : Json} {fields : List (String × Json)}
    (h : find p j = some (.obj fields)) (k : String) :
    ∃ fields', find p (prune (fun r ↦ r = p ++ [.key k]) j) = some (.obj fields') := by
  have hindex : ∀ r i, decide (r ++ [Segment.index i] = p ++ [.key k]) = false := fun r i ↦
    decide_eq_false fun heq ↦ by simpa using congrArg List.getLast? heq
  have hprefix : ∀ r, r ≠ [] → r <+: p → decide (r = p ++ [.key k]) = false := fun r _ hr ↦
    decide_eq_false fun heq ↦ by
      have hlength := hr.length_le
      rw [heq, List.length_append, List.length_singleton] at hlength
      omega
  rw [find_prune hindex hprefix, h]
  exact ⟨_, rfl⟩

/-! ## Removing and replacing -/

theorem pruneFields_set (select : List Segment → Bool) (k : String) (v : Json)
    (fs : List (String × Json)) :
    pruneFields select (Assoc.set k v fs)
      = if select [.key k] then pruneFields select fs
        else Assoc.set k (prune (fun p ↦ select (.key k :: p)) v) (pruneFields select fs) := by
  induction fs with
  | nil =>
    rw [Assoc.set, pruneFields]
    split_ifs with h <;> simp [pruneFields, Assoc.set, h]
  | cons e fs ih =>
    obtain ⟨k', w⟩ := e
    by_cases hk : k' = k
    · subst hk
      rw [Assoc.set, if_pos rfl, pruneFields, pruneFields]
      split_ifs
      · rfl
      · rw [Assoc.set, if_pos rfl]
    · rw [Assoc.set, if_neg hk, pruneFields, pruneFields, ih]
      split_ifs
      · rfl
      · rfl
      · rfl
      · rw [Assoc.set, if_neg hk]

theorem pruneElements_set {select : List Segment → Bool} (h : ∀ i, select [.index i] = false)
    (v : Json) (n : ℕ) (es : List Json) (i : ℕ) :
    pruneElements select n (es.set i v)
      = (pruneElements select n es).set i (prune (fun p ↦ select (.index (n + i) :: p)) v) := by
  induction es generalizing n i with
  | nil => simp [pruneElements]
  | cons e es ih =>
    rcases i with _ | i
    · simp [pruneElements, h]
    · rw [List.set_cons_succ, pruneElements, pruneElements, h, ih]
      simp [Nat.add_right_comm, Nat.add_assoc]

theorem length_pruneElements {select : List Segment → Bool} (h : ∀ i, select [.index i] = false)
    (n : ℕ) (es : List Json) : (pruneElements select n es).length = es.length := by
  induction es generalizing n with
  | nil => rfl
  | cons e es ih => simp [pruneElements, h, ih]

/-- Replacing a child that is not removed commutes with removing. -/
theorem putChild_prune {select : List Segment → Bool} (h : ∀ i, select [.index i] = false)
    {s : Segment} (hs : select [s] = false) (j v : Json) :
    putChild s (prune select j) (prune (fun p ↦ select (s :: p)) v)
      = (putChild s j v).map (prune select) := by
  cases s with
  | key k =>
    cases j with
    | obj fields => simp [prune, putChild, pruneFields_set, hs]
    | _ => rfl
  | index i =>
    cases j with
    | arr elements =>
      simp only [prune, putChild, length_pruneElements h]
      split_ifs
      · simp [prune, pruneElements_set h]
      · rfl
    | _ => rfl

/-- Below a child that the removed location does not pass, nothing happens. -/
theorem prune_eq_self {s : Segment} {p : List Segment} (hp : ∀ p', p ≠ s :: p') (j : Json) :
    prune (fun r ↦ decide (s :: r = p)) j = j :=
  prune_of_forall (fun r _ ↦ decide_eq_false (Ne.symm (hp r))) j

/-- A location that does not end in an array index is removed without moving anything, and a place
apart from it can be replaced before or after. -/
theorem set_prune_of_apart {p q : List Segment} (h : ∀ r i, p ≠ r ++ [.index i])
    (hapart : Apart p q) {j : Json} (hq : (find q j).isSome) (w : Json) :
    set q (prune (fun r ↦ r = p) j) w = (set q j w).map (prune fun r ↦ r = p) := by
  induction q generalizing p j with
  | nil => exact absurd List.nil_prefix hapart.2
  | cons s q ih =>
    obtain ⟨d, hd⟩ := Option.isSome_iff_exists.mp hq
    obtain ⟨c, hc, hfind⟩ := Option.bind_eq_some_iff.mp hd
    have hindex : ∀ i, decide ([Segment.index i] = p) = false := fun i ↦
      decide_eq_false (Ne.symm (h [] i))
    have hself : decide ([s] = p) = false := decide_eq_false fun heq ↦
      hapart.1 (heq ▸ ⟨q, rfl⟩)
    have hchild := @child_prune (fun r ↦ r = p) hindex _ hself j
    have hput := @putChild_prune (fun r ↦ r = p) hindex _ hself j
    rw [hc, Option.map_some] at hchild
    rw [set_cons_of_child hchild, set_cons_of_child hc]
    by_cases hp : ∃ p', p = s :: p'
    · obtain ⟨p', rfl⟩ := hp
      simp only [List.cons.injEq, true_and] at hput ⊢
      rw [ih (fun r i heq ↦ h (s :: r) i (by rw [heq]; rfl))
        ((apart_cons_iff.mp hapart).resolve_left (by simp)) (by rw [hfind]; rfl)]
      cases set q c w with
      | none => rfl
      | some c' => exact hput c'
    · have hp' : ∀ p', p ≠ s :: p' := fun p' heq ↦ hp ⟨p', heq⟩
      simp only [prune_eq_self hp'] at hput ⊢
      cases set q c w with
      | none => rfl
      | some c' => exact hput c'

/-! ## Two documents that leave the same -/

theorem pruneElements_set_eq {select : List Segment → Bool} {n i : ℕ} {es : List Json} {c v : Json}
    (hc : es[i]? = some c)
    (h : select [.index (n + i)] = true ∨
      prune (fun p ↦ select (.index (n + i) :: p)) v
        = prune (fun p ↦ select (.index (n + i) :: p)) c) :
    pruneElements select n (es.set i v) = pruneElements select n es := by
  induction es generalizing n i with
  | nil => rfl
  | cons e es ih =>
    cases i with
    | zero =>
      obtain rfl : e = c := by simpa using hc
      rw [Nat.add_zero] at h
      rw [List.set_cons_zero, pruneElements, pruneElements]
      rcases h with h | h
      · rw [if_pos h, if_pos h]
      · rw [h]
    | succ i =>
      rw [← Nat.succ_add_eq_add_succ] at h
      rw [List.set_cons_succ, pruneElements, pruneElements, ih hc h]

/-- Replacing a child makes no difference when the child is removed, or leaves the same. -/
theorem prune_putChild_eq {select : List Segment → Bool} {s : Segment} {j c v j' : Json}
    (hc : child s j = some c) (hput : putChild s j v = some j')
    (h : select [s] = true ∨
      prune (fun p ↦ select (s :: p)) v = prune (fun p ↦ select (s :: p)) c) :
    prune select j' = prune select j := by
  cases s with
  | key k =>
    cases j with
    | obj fields =>
      obtain rfl := Option.some.inj hput
      refine congrArg obj ?_
      rw [pruneFields_set]
      split_ifs with hs
      · rfl
      · -- what is put in is what was there
        rw [h.resolve_left hs]
        refine Assoc.set_of_lookup ?_
        rw [lookup_pruneFields, if_neg hs, show fields.lookup k = some c from hc, Option.map_some]
    | _ => simp [child] at hc
  | index i =>
    cases j with
    | arr elements =>
      obtain ⟨hi, rfl⟩ : i < elements.length ∧ arr (elements.set i v) = j' := by
        simpa [putChild] using hput
      refine congrArg arr (pruneElements_set_eq hc ?_)
      rwa [Nat.zero_add]
    | _ => simp [child] at hc

theorem pruneElements_inj {select : List Segment → Bool} {n i : ℕ} {es es' : List Json}
    {c d : Json} (h : pruneElements select n es = pruneElements select n es')
    (hs : select [.index (n + i)] = false) (hc : es[i]? = some c) (hd : es'[i]? = some d) :
    prune (fun p ↦ select (.index (n + i) :: p)) c
      = prune (fun p ↦ select (.index (n + i) :: p)) d := by
  induction es generalizing n i es' with
  | nil => simp at hc
  | cons e es ih =>
    cases es' with
    | nil => simp at hd
    | cons e' es' =>
      rw [pruneElements, pruneElements] at h
      cases i with
      | zero =>
        obtain rfl : e = c := by simpa using hc
        obtain rfl : e' = d := by simpa using hd
        rw [Nat.add_zero] at hs ⊢
        rw [hs] at h
        exact (List.cons.inj h).1
      | succ i =>
        rw [← Nat.succ_add_eq_add_succ] at hs ⊢
        refine ih ?_ hs hc hd
        split_ifs at h
        · exact h
        · exact (List.cons.inj h).2

/-- Documents that leave the same have children that leave the same, where none is removed. -/
theorem prune_child_eq {select : List Segment → Bool} {a b : Json}
    (h : prune select a = prune select b) {s : Segment} (hs : select [s] = false) {c d : Json}
    (hc : child s a = some c) (hd : child s b = some d) :
    prune (fun p ↦ select (s :: p)) c = prune (fun p ↦ select (s :: p)) d := by
  cases s with
  | key k =>
    cases a with
    | obj fields =>
      cases b with
      | obj others =>
        have hlookup := congrArg (List.lookup k) (obj.inj h)
        rw [lookup_pruneFields, lookup_pruneFields, hs,
          show fields.lookup k = some c from hc, show others.lookup k = some d from hd] at hlookup
        exact Option.some.inj hlookup
      | _ => simp [child] at hd
    | _ => simp [child] at hc
  | index i =>
    cases a with
    | arr elements =>
      cases b with
      | arr others =>
        have hinj := @pruneElements_inj select 0 i _ _ c d (arr.inj h)
        rw [Nat.zero_add] at hinj
        exact hinj hs hc hd
      | _ => simp [child] at hd
    | _ => simp [child] at hc

/-- Whether `u` or `w` is at `q` makes no difference to what is left: the place is removed, or both
leave the same. -/
def LeavesSame (select : List Segment → Bool) (q : List Segment) (u w : Json) : Prop :=
  (∃ p, p <+: q ∧ select p) ∨
    prune (fun p ↦ select (q ++ p)) w = prune (fun p ↦ select (q ++ p)) u

theorem leavesSame_cons {select : List Segment → Bool} {s : Segment} {q : List Segment}
    {u w : Json} : LeavesSame select (s :: q) u w ↔
      select [] ∨ LeavesSame (fun p ↦ select (s :: p)) q u w := by
  rw [LeavesSame, LeavesSame, ← or_assoc]
  refine or_congr ⟨?_, ?_⟩ Iff.rfl
  · rintro ⟨_ | ⟨t, p⟩, hp, hselect⟩
    · exact Or.inl hselect
    · obtain ⟨rfl, hrest⟩ := List.cons_prefix_cons.mp hp
      exact Or.inr ⟨p, hrest, hselect⟩
  · rintro (h | ⟨p, hp, hselect⟩)
    · exact ⟨[], List.nil_prefix, h⟩
    · exact ⟨s :: p, List.cons_prefix_cons.mpr ⟨rfl, hp⟩, hselect⟩

theorem leavesSame_nil {select : List Segment → Bool} {u w : Json} :
    LeavesSame select [] u w ↔ w.without select = u.without select := by
  rw [LeavesSame, without, without]
  cases hs : select [] with
  | true => exact iff_of_true (Or.inl ⟨[], List.nil_prefix, hs⟩) rfl
  | false =>
    simp only [List.nil_append, Bool.false_eq_true, if_false, Option.some.injEq]
    refine or_iff_right ?_
    rintro ⟨p, hp, hselect⟩
    rw [List.prefix_nil.mp hp, hs] at hselect
    simp at hselect

/-- Documents leave the same when the one is the other with a place replaced that makes no
difference. -/
theorem without_set {select : List Segment → Bool} {q : List Segment} {j u w j' : Json}
    (hu : find q j = some u) (hset : set q j w = some j') (h : LeavesSame select q u w) :
    j'.without select = j.without select := by
  induction q generalizing select j j' with
  | nil =>
    obtain rfl := Option.some.inj hu
    obtain rfl := Option.some.inj hset
    exact leavesSame_nil.mp h
  | cons s q ih =>
    obtain ⟨c, hc, hfind⟩ := Option.bind_eq_some_iff.mp hu
    rw [set_cons_of_child hc] at hset
    obtain ⟨c', hc', hput⟩ := Option.bind_eq_some_iff.mp hset
    rw [without, without]
    rcases leavesSame_cons.mp h with hroot | h
    · rw [if_pos hroot, if_pos hroot]
    · refine congrArg (fun d ↦ if select [] then none else some d) (prune_putChild_eq hc hput ?_)
      have hrest := ih hfind hc' h
      rw [without, without] at hrest
      split_ifs at hrest with hs
      · exact Or.inl hs
      · exact Or.inr (Option.some.inj hrest)

/-- Where documents leave the same, it makes no difference which of them is at a place. -/
theorem leavesSame_of_without {select : List Segment → Bool} {q : List Segment} {a b u w : Json}
    (h : b.without select = a.without select) (hu : find q a = some u) (hw : find q b = some w) :
    LeavesSame select q u w := by
  induction q generalizing select a b with
  | nil =>
    obtain rfl := Option.some.inj hu
    obtain rfl := Option.some.inj hw
    exact leavesSame_nil.mpr h
  | cons s q ih =>
    obtain ⟨c, hc, hu⟩ := Option.bind_eq_some_iff.mp hu
    obtain ⟨d, hd, hw⟩ := Option.bind_eq_some_iff.mp hw
    refine leavesSame_cons.mpr ?_
    cases hroot : select [] with
    | true => exact Or.inl rfl
    | false =>
      refine Or.inr (ih ?_ hu hw)
      rw [without, without, hroot] at h
      rw [without, without]
      split_ifs with hs
      · rfl
      · exact congrArg some
          (prune_child_eq (Option.some.inj h) (by simpa using hs) hd hc)

end Json
