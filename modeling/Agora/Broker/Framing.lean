import Mathlib.Algebra.Order.Group.Nat
import Mathlib.Data.List.Forall2

/-!
# Messages in fragments

A message goes out whole or in a first fragment, fragments in the middle and a last one. What has
gone out of a list of messages is some of them complete, in their order, and the beginning of the
next (`Framed`).
-/

namespace Framing

variable {α : Type*}

inductive Kind where
  | whole
  | first
  | middle
  | last
  deriving DecidableEq, Repr

structure Frame (α : Type*) where
  kind : Kind
  bytes : List α

/-- The frames of one message. -/
def IsMessage (data : List α) (frames : List (Frame α)) : Prop :=
  frames = [⟨.whole, data⟩] ∨
    ∃ (a : List α) (bs : List (List α)) (c : List α), a ≠ [] ∧ (∀ b ∈ bs, b ≠ []) ∧ c ≠ [] ∧
      frames = ⟨.first, a⟩ :: bs.map (Frame.mk .middle) ++ [⟨.last, c⟩] ∧
        data = a ++ bs.flatten ++ c

/-- The frames of a message that has been begun, with the part of it that they have. -/
def IsBegun (sent : List α) (frames : List (Frame α)) : Prop :=
  ∃ (a : List α) (bs : List (List α)), a ≠ [] ∧ (∀ b ∈ bs, b ≠ []) ∧
    frames = ⟨.first, a⟩ :: bs.map (Frame.mk .middle) ∧ sent = a ++ bs.flatten

/-- The frames after the last complete message, where `offset` bytes of the next are out. -/
def Current (undelivered : List (List α)) (offset : ℕ) (frames : List (Frame α)) : Prop :=
  (offset = 0 ∧ frames = []) ∨
    ∃ next rest, undelivered = next :: rest ∧ 0 < offset ∧ offset < next.length ∧
      IsBegun (next.take offset) frames

/-- Of the messages, all but the undelivered ones are out, and so many bytes of the next. -/
def Framed (enqueued undelivered : List (List α)) (offset : ℕ) (frames : List (Frame α)) : Prop :=
  ∃ done messages begun, enqueued = done ++ undelivered ∧ List.Forall₂ IsMessage done messages ∧
    frames = messages.flatten ++ begun ∧ Current undelivered offset begun

section Steps

variable {enqueued rest : List (List α)} {next : List α} {offset : ℕ} {frames : List (Frame α)}

theorem framed_nil : Framed ([] : List (List α)) [] 0 [] :=
  ⟨[], [], [], rfl, List.Forall₂.nil, rfl, Or.inl ⟨rfl, rfl⟩⟩

/-- A new message waits behind the others. -/
theorem Framed.enqueue {undelivered : List (List α)} (h : Framed enqueued undelivered offset frames)
    (message : List α) :
    Framed (enqueued ++ [message]) (undelivered ++ [message]) offset frames := by
  obtain ⟨done, messages, begun, rfl, hmessages, hframes, hcurrent⟩ := h
  refine ⟨done, messages, begun, List.append_assoc .., hmessages, hframes, ?_⟩
  rcases hcurrent with hnone | ⟨next, rest, rfl, hpos, hlt, hbegun⟩
  · exact Or.inl hnone
  · exact Or.inr ⟨next, rest ++ [message], rfl, hpos, hlt, hbegun⟩

/-- A message whose last frame goes out is complete. -/
theorem Framed.complete {frame : Frame α} (h : Framed enqueued (next :: rest) offset frames)
    (hmessage : ∀ begun, Current (next :: rest) offset begun → IsMessage next (begun ++ [frame])) :
    Framed enqueued rest 0 (frames ++ [frame]) := by
  obtain ⟨done, messages, begun, rfl, hmessages, rfl, hcurrent⟩ := h
  refine ⟨done ++ [next], messages ++ [begun ++ [frame]], [], ?_, ?_, ?_, Or.inl ⟨rfl, rfl⟩⟩
  · rw [List.append_assoc, List.singleton_append]
  · exact List.rel_append hmessages (List.Forall₂.cons (hmessage begun hcurrent) List.Forall₂.nil)
  · rw [List.append_nil, List.flatten_append, List.flatten_singleton, List.append_assoc]

/-- A message that goes out whole. -/
theorem Framed.whole (h : Framed enqueued (next :: rest) 0 frames) :
    Framed enqueued rest 0 (frames ++ [⟨.whole, next⟩]) := by
  refine h.complete fun begun hcurrent ↦ ?_
  rcases hcurrent with ⟨-, rfl⟩ | ⟨-, -, -, hpos, -⟩
  · exact Or.inl rfl
  · exact absurd hpos (lt_irrefl 0)

/-- The last fragment of a message. -/
theorem Framed.last (h : Framed enqueued (next :: rest) offset frames) (hpos : 0 < offset)
    (hlt : offset < next.length) :
    Framed enqueued rest 0 (frames ++ [⟨.last, next.drop offset⟩]) := by
  refine h.complete fun begun hcurrent ↦ ?_
  rcases hcurrent with ⟨hzero, -⟩ | ⟨next', rest', heq, -, -, a, bs, ha, hbs, rfl, hsent⟩
  · omega
  · obtain ⟨rfl, rfl⟩ := List.cons.inj heq
    refine Or.inr ⟨a, bs, next.drop offset, ha, hbs, ?_, rfl, ?_⟩
    · exact fun hnil ↦ absurd (List.drop_eq_nil_iff.mp hnil) (not_le.mpr hlt)
    · rw [← hsent, List.take_append_drop]

/-- The first fragment of a message. -/
theorem Framed.first (h : Framed enqueued (next :: rest) 0 frames) {n : ℕ} (hpos : 0 < n)
    (hlt : n < next.length) :
    Framed enqueued (next :: rest) n (frames ++ [⟨.first, next.take n⟩]) := by
  obtain ⟨done, messages, begun, rfl, hmessages, rfl, hcurrent⟩ := h
  rcases hcurrent with ⟨-, rfl⟩ | ⟨-, -, -, hpos', -⟩
  · refine ⟨done, messages, [⟨.first, next.take n⟩], rfl, hmessages, by rw [List.append_nil],
      Or.inr ?_⟩
    refine ⟨next, rest, rfl, hpos, hlt, next.take n, [], ?_, by simp, rfl, by simp⟩
    rw [ne_eq, List.take_eq_nil_iff, not_or]
    exact ⟨hpos.ne', fun hnil ↦ by rw [hnil] at hlt; exact absurd hlt (Nat.not_lt_zero n)⟩
  · exact absurd hpos' (lt_irrefl 0)

/-- A fragment in the middle of a message. -/
theorem Framed.middle (h : Framed enqueued (next :: rest) offset frames) (hoffset : 0 < offset)
    {n : ℕ} (hpos : 0 < n) (hlt : offset + n < next.length) :
    Framed enqueued (next :: rest) (offset + n)
      (frames ++ [⟨.middle, (next.drop offset).take n⟩]) := by
  obtain ⟨done, messages, begun, rfl, hmessages, rfl, hcurrent⟩ := h
  rcases hcurrent with ⟨hzero, -⟩ | ⟨next', rest', heq, -, -, a, bs, ha, hbs, rfl, hsent⟩
  · omega
  obtain ⟨rfl, rfl⟩ := List.cons.inj heq
  have hchunk : (next.drop offset).take n ≠ [] := by
    rw [ne_eq, List.take_eq_nil_iff, List.drop_eq_nil_iff]
    omega
  refine ⟨done, messages, _, rfl, hmessages, List.append_assoc .., Or.inr ?_⟩
  refine ⟨next, rest, rfl, by omega, hlt, a, bs ++ [(next.drop offset).take n], ha, ?_, ?_, ?_⟩
  · exact List.forall_mem_append.mpr ⟨hbs, List.forall_mem_singleton.mpr hchunk⟩
  · rw [List.map_append, List.map_singleton, List.cons_append]
  · rw [List.take_add, hsent, List.flatten_append, List.flatten_singleton, List.append_assoc]

end Steps

/-! ## The bytes -/

/-- The bytes of frames, in their order. -/
def payload (frames : List (Frame α)) : List α := (frames.map Frame.bytes).flatten

theorem payload_append (frames frames' : List (Frame α)) :
    payload (frames ++ frames') = payload frames ++ payload frames' := by
  rw [payload, List.map_append, List.flatten_append]
  rfl

theorem payload_middle (bs : List (List α)) : payload (bs.map (Frame.mk .middle)) = bs.flatten := by
  rw [payload, List.map_map]
  exact congrArg List.flatten (List.map_id bs)

theorem IsMessage.payload {data : List α} {frames : List (Frame α)} (h : IsMessage data frames) :
    payload frames = data := by
  rcases h with rfl | ⟨a, bs, c, -, -, -, rfl, rfl⟩
  · exact List.append_nil data
  · rw [payload_append, ← List.singleton_append, payload_append, payload_middle]
    simp [Framing.payload]

theorem IsBegun.payload {sent : List α} {frames : List (Frame α)} (h : IsBegun sent frames) :
    payload frames = sent := by
  obtain ⟨a, bs, -, -, rfl, rfl⟩ := h
  rw [← List.singleton_append, payload_append, payload_middle]
  simp [Framing.payload]

theorem payload_messages {done : List (List α)} {messages : List (List (Frame α))}
    (h : List.Forall₂ IsMessage done messages) : payload messages.flatten = done.flatten := by
  induction h with
  | nil => rfl
  | cons hmessage _ ih =>
    rw [List.flatten_cons, List.flatten_cons, payload_append, hmessage.payload, ih]

/-- The bytes that are out are the first bytes of the messages one after the other. -/
theorem Framed.payload_begins {enqueued undelivered : List (List α)} {offset : ℕ}
    {frames : List (Frame α)} (h : Framed enqueued undelivered offset frames) :
    payload frames <+: enqueued.flatten := by
  obtain ⟨done, messages, begun, rfl, hmessages, rfl, hcurrent⟩ := h
  rw [payload_append, payload_messages hmessages, List.flatten_append]
  refine (List.prefix_append_right_inj _).mpr ?_
  rcases hcurrent with ⟨-, rfl⟩ | ⟨next, rest, rfl, -, -, hbegun⟩
  · exact List.nil_prefix
  · rw [hbegun.payload, List.flatten_cons]
    exact (List.take_prefix offset next).trans (List.prefix_append _ _)

end Framing
