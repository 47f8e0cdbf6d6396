import Agora.Resp.Replies

/-!
# Commands on the wire

A command is written as its number of arguments and then each argument with its length, whatever
bytes the argument has. `commands_determine`: what has been written says which commands it was, also
when the end is missing, so that no argument can pass for a command of its own. The transport takes
the bytes in pieces of its own choice (`writeAll`).
-/

namespace Agora

namespace Resp

/-- The bytes of an argument. -/
def encodeArgument (argument : List UInt8) : List UInt8 :=
  '$'.toUInt8 :: decimalOf argument.length ++ crlf ++ (argument ++ crlf)

/-- The bytes of a command. -/
def encodeCommand (command : List (List UInt8)) : List UInt8 :=
  '*'.toUInt8 :: decimalOf command.length ++ crlf ++ command.flatMap encodeArgument

/-- Commands one after the other. -/
def encodeCommands (commands : List (List (List UInt8))) : List UInt8 :=
  commands.flatMap encodeCommand

/-! ## What the bytes say -/

theorem return_notMem_decimalOf (n : ℕ) : '\r'.toUInt8 ∉ decimalOf n :=
  fun h ↦ ne_return_of_digit (mem_decimalOf h) rfl

/-- A number and what follows its line are found again. -/
theorem decimalOf_append_inj {m n : ℕ} {s t : List UInt8}
    (h : decimalOf m ++ (crlf ++ s) = decimalOf n ++ (crlf ++ t)) : m = n ∧ s = t := by
  have htake : ∀ k (rest : List UInt8),
      (decimalOf k ++ (crlf ++ rest)).takeWhile (· ≠ '\r'.toUInt8) = decimalOf k := by
    intro k rest
    rw [List.takeWhile_append_of_pos]
    · exact List.append_nil _
    · intro c hc
      exact decide_eq_true fun heq ↦ return_notMem_decimalOf k (heq ▸ hc)
  have hdigits : decimalOf m = decimalOf n := by rw [← htake m s, h, htake n t]
  have hmn : m = n := by rw [← decimal_decimalOf m, hdigits, decimal_decimalOf]
  rw [hmn] at h
  exact ⟨hmn, List.append_cancel_left (List.append_cancel_left h)⟩

theorem encodeArgument_append_inj {a b s t : List UInt8}
    (h : encodeArgument a ++ s = encodeArgument b ++ t) : a = b ∧ s = t := by
  simp only [encodeArgument, List.append_assoc, List.cons_append] at h
  obtain ⟨hlength, hrest⟩ := decimalOf_append_inj (List.tail_eq_of_cons_eq h)
  obtain ⟨hab, hrest⟩ := List.append_inj hrest hlength
  exact ⟨hab, List.append_cancel_left hrest⟩

theorem encodeArguments_append_inj {as bs : List (List UInt8)} {s t : List UInt8}
    (hlength : as.length = bs.length)
    (h : as.flatMap encodeArgument ++ s = bs.flatMap encodeArgument ++ t) : as = bs ∧ s = t := by
  induction as generalizing bs with
  | nil =>
    obtain rfl := List.length_eq_zero_iff.mp hlength.symm
    exact ⟨rfl, h⟩
  | cons a as ih =>
    rcases bs with _ | ⟨b, bs⟩
    · cases hlength
    · rw [List.flatMap_cons, List.flatMap_cons, List.append_assoc, List.append_assoc] at h
      obtain ⟨rfl, hrest⟩ := encodeArgument_append_inj h
      obtain ⟨rfl, hst⟩ := ih (Nat.succ.inj hlength) hrest
      exact ⟨rfl, hst⟩

theorem encodeCommand_append_inj {c d : List (List UInt8)} {s t : List UInt8}
    (h : encodeCommand c ++ s = encodeCommand d ++ t) : c = d ∧ s = t := by
  simp only [encodeCommand, List.append_assoc, List.cons_append] at h
  obtain ⟨hlength, hrest⟩ := decimalOf_append_inj (List.tail_eq_of_cons_eq h)
  exact encodeArguments_append_inj hlength hrest

theorem encodeCommand_ne_nil (command : List (List UInt8)) (rest : List UInt8) :
    encodeCommand command ++ rest ≠ [] :=
  List.cons_ne_nil _ _

theorem encodeCommands_append (cs ds : List (List (List UInt8))) :
    encodeCommands (cs ++ ds) = encodeCommands cs ++ encodeCommands ds :=
  List.flatMap_append

theorem encodeCommands_singleton (c : List (List UInt8)) :
    encodeCommands [c] = encodeCommand c :=
  List.flatMap_singleton _ _

/-- **The bytes determine the commands.** Commands are written to the end before others are begun,
as far as the bytes go. -/
theorem commands_determine (cs ds : List (List (List UInt8))) :
    encodeCommands cs <+: encodeCommands ds ↔ cs <+: ds := by
  constructor
  · rintro ⟨rest, h⟩
    induction cs generalizing ds with
    | nil => exact List.nil_prefix
    | cons c cs ih =>
      rw [encodeCommands, List.flatMap_cons, List.append_assoc] at h
      rcases ds with _ | ⟨d, ds⟩
      · exact absurd h (encodeCommand_ne_nil _ _)
      · rw [encodeCommands, List.flatMap_cons] at h
        obtain ⟨rfl, hrest⟩ := encodeCommand_append_inj h
        exact (List.prefix_cons_inj c).mpr (ih ds hrest)
  · rintro ⟨rest, rfl⟩
    exact ⟨encodeCommands rest, (encodeCommands_append cs rest).symm⟩

example : encodeCommands [[bytes "GET", bytes "k"]] = bytes "*2\r\n$3\r\nGET\r\n$1\r\nk\r\n" := by
  decide +kernel

/-! ## Writing -/

/-- The loop that writes a message: each write takes at least one byte, or fails; what has been
written, whether it is everything, and what later writes do. -/
def writeAll : List ℕ → List UInt8 → List UInt8 × Bool × List ℕ
  | sizes, [] => ([], true, sizes)
  | [], _ :: _ => ([], false, [])
  | size :: sizes, b :: msg =>
    if size = 0 then ([], false, sizes)
    else
      let r := writeAll sizes ((b :: msg).drop size)
      ((b :: msg).take size ++ r.1, r.2)

/-- What has been written is how the message begins, and all of it when no write failed. -/
theorem writeAll_spec (sizes : List ℕ) (msg : List UInt8) :
    (writeAll sizes msg).1 <+: msg ∧
      ((writeAll sizes msg).2.1 = true → (writeAll sizes msg).1 = msg) := by
  induction sizes generalizing msg with
  | nil =>
    rcases msg with _ | ⟨b, msg⟩
    · exact ⟨List.prefix_refl _, fun _ ↦ rfl⟩
    · refine ⟨List.nil_prefix, fun h ↦ ?_⟩
      cases h
  | cons size sizes ih =>
    rcases msg with _ | ⟨b, msg⟩
    · exact ⟨List.prefix_refl _, fun _ ↦ rfl⟩
    · rw [writeAll]
      split
      · refine ⟨List.nil_prefix, fun h ↦ ?_⟩
        cases h
      · obtain ⟨hbegin, hall⟩ := ih ((b :: msg).drop size)
        constructor
        · obtain ⟨rest, hrest⟩ := hbegin
          refine ⟨rest, ?_⟩
          rw [List.append_assoc, hrest, List.take_append_drop]
        · intro h
          dsimp only at h ⊢
          rw [hall h, List.take_append_drop]

end Resp

end Agora
