import Mathlib.Data.List.Basic
import Mathlib.Data.List.Nodup
import Mathlib.Data.String.Basic

/-!
# SQL commands

A command keeps its statement and its values apart: the values go to the server as parameters, and a
text declares their names and types. The statement is the program's own, but the declarations are
put together from the names, so that a name that is no identifier could declare something else. The
names are checked before anything is sent.

**Main results.** The declarations of a checked command can be read in one way only: they determine
the names and the types of all parameters (`declarations_determine`). And a checked command is bound
as it is, each value under its own name and with its own type, although the numbers are collected in
two lists of their own first (`executeSql_eq`).
-/

namespace Agora

namespace Sql

/-! ## Commands -/

inductive ParameterType where
  | varchar
  | unicodeText
  | unicodeMaxText
  | int32
  | int64
  deriving DecidableEq

structure Parameter where
  name : String
  type : ParameterType
  textValue : String := ""
  intValue : Int32 := 0
  int64Value : Int64 := 0

structure SqlCommand where
  statement : String
  parameters : List Parameter := []

def SqlCommand.addText (name value : String) (command : SqlCommand) : SqlCommand :=
  { command with parameters := command.parameters ++ [⟨name, .unicodeText, value, 0, 0⟩] }

def SqlCommand.addMaxText (name value : String) (command : SqlCommand) : SqlCommand :=
  { command with parameters := command.parameters ++ [⟨name, .unicodeMaxText, value, 0, 0⟩] }

def SqlCommand.addVarchar (name value : String) (command : SqlCommand) : SqlCommand :=
  { command with parameters := command.parameters ++ [⟨name, .varchar, value, 0, 0⟩] }

def SqlCommand.addInt (name : String) (value : Int32) (command : SqlCommand) : SqlCommand :=
  { command with parameters := command.parameters ++ [⟨name, .int32, "", value, 0⟩] }

def SqlCommand.addInt64 (name : String) (value : Int64) (command : SqlCommand) : SqlCommand :=
  { command with parameters := command.parameters ++ [⟨name, .int64, "", 0, value⟩] }

/-- How a type is declared. -/
def typeText : ParameterType → String
  | .varchar => " VARCHAR(4000)"
  | .unicodeText => " NVARCHAR(4000)"
  | .unicodeMaxText => " NVARCHAR(MAX)"
  | .int32 => " INT"
  | .int64 => " BIGINT"

def addDeclaration (declarations : String) (parameter : Parameter) : String :=
  (if declarations = "" then declarations else declarations ++ ", ")
    ++ parameter.name ++ typeText parameter.type

def SqlCommand.parameterDeclarations (command : SqlCommand) : String :=
  command.parameters.foldl addDeclaration ""

/-! ## The check -/

def kMaxStatementBytes : ℕ := 64 * 1024

def kMaxRpcTextBytes : ℕ := 4000

def kMaxBoundTextBytes : ℕ := 1024 * 1024

def isAlpha (c : Char) : Bool :=
  ('A' ≤ c && c ≤ 'Z') || ('a' ≤ c && c ≤ 'z') || c = '_'

def isAlphaNumeric (c : Char) : Bool := isAlpha c || ('0' ≤ c && c ≤ '9')

/-- The name is an at sign and an identifier. -/
def isValidName (name : String) : Bool :=
  if name.utf8ByteSize < 2 || 128 < name.utf8ByteSize then false
  else
    match name.toList with
    | '@' :: first :: rest => isAlpha first && rest.all isAlphaNumeric
    | _ => false

/-- What is wrong with a parameter, after the parameters before it. -/
def parameterError (earlier : List Parameter) (parameter : Parameter) : String :=
  let index := toString earlier.length
  if !isValidName parameter.name then "invalid parameter name at index " ++ index
  else if (parameter.type = .varchar ∨ parameter.type = .unicodeText) ∧
      kMaxRpcTextBytes < parameter.textValue.utf8ByteSize then
    "text parameter exceeds RPC text limit at index " ++ index
  else if parameter.type = .unicodeMaxText ∧
      kMaxBoundTextBytes < parameter.textValue.utf8ByteSize then
    "MAX text parameter exceeds bound text limit at index " ++ index
  else if earlier.any fun other ↦ other.name = parameter.name then
    "duplicate parameter name at index " ++ index
  else ""

def parametersError (earlier : List Parameter) : List Parameter → String
  | [] => ""
  | parameter :: rest =>
    let error := parameterError earlier parameter
    if error = "" then parametersError (earlier ++ [parameter]) rest else error

def SqlCommand.validationError (command : SqlCommand) : String :=
  if command.statement = "" then "statement is empty"
  else if kMaxStatementBytes < command.statement.utf8ByteSize then
    "statement exceeds SQL statement limit"
  else
    let error := parametersError [] command.parameters
    if error = "" then
      if kMaxRpcTextBytes < command.parameterDeclarations.utf8ByteSize then
        "parameter declarations exceed RPC text limit"
      else ""
    else error

/-! ## Sending -/

/-- A value as it is bound. -/
inductive RpcValue where
  | text (value : String)
  | int4 (value : Int32)
  | int8 (value : Int64)
  deriving DecidableEq

/-- The numbers of a command, one list for each width. -/
def intValues (parameters : List Parameter) : List Int32 :=
  (parameters.filter (·.type = .int32)).map Parameter.intValue

def bigintValues (parameters : List Parameter) : List Int64 :=
  (parameters.filter (·.type = .int64)).map Parameter.int64Value

/-- Bind the parameters in their order; the next number comes from its list. -/
def bindParameters : List Parameter → List Int32 → List Int64 → Option (List (String × RpcValue))
  | [], _, _ => some []
  | parameter :: rest, ints, bigints =>
    match parameter.type, ints, bigints with
    | .int32, value :: ints, bigints =>
      (bindParameters rest ints bigints).map ((parameter.name, .int4 value) :: ·)
    | .int64, ints, value :: bigints =>
      (bindParameters rest ints bigints).map ((parameter.name, .int8 value) :: ·)
    | .int32, [], _ => none
    | .int64, _, [] => none
    | _, ints, bigints =>
      if kMaxBoundTextBytes < parameter.textValue.utf8ByteSize then none
      else
        (bindParameters rest ints bigints).map ((parameter.name, .text parameter.textValue) :: ·)

/-- What is sent: the statement, the declarations and the values. -/
structure Rpc where
  statement : String
  declarations : String
  values : List (String × RpcValue)

/-- The call that is sent for a command, unless it is refused. -/
def executeSql (command : SqlCommand) : Option Rpc :=
  if command.validationError = "" then
    if kMaxStatementBytes < command.statement.utf8ByteSize ∨
        kMaxStatementBytes < command.parameterDeclarations.utf8ByteSize then none
    else
      (bindParameters command.parameters (intValues command.parameters)
        (bigintValues command.parameters)).map fun values ↦
          ⟨command.statement, command.parameterDeclarations, values⟩
  else none

/-! ## What a checked command looks like -/

/-- The text of a parameter is within the bound of its type. -/
def Parameter.Fits (parameter : Parameter) : Prop :=
  match parameter.type with
  | .varchar | .unicodeText => parameter.textValue.utf8ByteSize ≤ kMaxRpcTextBytes
  | .unicodeMaxText => parameter.textValue.utf8ByteSize ≤ kMaxBoundTextBytes
  | .int32 | .int64 => True

theorem parameterError_eq_empty {earlier : List Parameter} {parameter : Parameter}
    (h : parameterError earlier parameter = "") :
    isValidName parameter.name ∧ parameter.Fits ∧
      ∀ other ∈ earlier, other.name ≠ parameter.name := by
  have hnonempty : ∀ text rest : String, text ≠ "" → text ++ rest ≠ "" := by
    intro text rest htext hempty
    have hlist := congrArg String.toList hempty
    rw [String.toList_append] at hlist
    exact htext (String.toList_eq_nil_iff.mp (List.append_eq_nil_iff.mp hlist).1)
  rw [parameterError] at h
  split_ifs at h with hname hshort hlong hduplicate
  · exact absurd h (hnonempty _ _ (by decide))
  · exact absurd h (hnonempty _ _ (by decide))
  · exact absurd h (hnonempty _ _ (by decide))
  · exact absurd h (hnonempty _ _ (by decide))
  · refine ⟨by simpa using hname, ?_, ?_⟩
    · rw [Parameter.Fits]
      rcases htype : parameter.type
      · exact Nat.le_of_not_lt fun hlt ↦ hshort ⟨Or.inl htype, hlt⟩
      · exact Nat.le_of_not_lt fun hlt ↦ hshort ⟨Or.inr htype, hlt⟩
      · exact Nat.le_of_not_lt fun hlt ↦ hlong ⟨htype, hlt⟩
      · trivial
      · trivial
    · intro other hother heq
      exact hduplicate (List.any_eq_true.mpr ⟨other, hother, decide_eq_true heq⟩)

theorem parametersError_eq_empty {parameters earlier : List Parameter}
    (h : parametersError earlier parameters = "") :
    (∀ parameter ∈ parameters, isValidName parameter.name ∧ parameter.Fits) ∧
      (parameters.map Parameter.name).Nodup ∧
      ∀ parameter ∈ parameters, ∀ other ∈ earlier, other.name ≠ parameter.name := by
  induction parameters generalizing earlier with
  | nil => exact ⟨by simp, List.nodup_nil, by simp⟩
  | cons parameter rest ih =>
    rw [parametersError] at h
    have hfirst : parameterError earlier parameter = "" := by
      by_contra herror
      exact herror ((if_neg herror).symm.trans h)
    rw [if_pos hfirst] at h
    obtain ⟨hname, hfits, hnew⟩ := parameterError_eq_empty hfirst
    obtain ⟨hall, hnodup, hearlier⟩ := ih h
    refine ⟨List.forall_mem_cons.mpr ⟨⟨hname, hfits⟩, hall⟩, ?_, ?_⟩
    · rw [List.map_cons, List.nodup_cons]
      refine ⟨fun hmem ↦ ?_, hnodup⟩
      obtain ⟨other, hother, heq⟩ := List.mem_map.mp hmem
      exact hearlier other hother parameter (List.mem_append_right _ List.mem_cons_self) heq.symm
    · refine List.forall_mem_cons.mpr ⟨hnew, fun later hlater other hother ↦ ?_⟩
      exact hearlier later hlater other (List.mem_append_left _ hother)

/-- A command passes the check when all its parts do. -/
theorem validationError_eq_empty {command : SqlCommand} (h : command.validationError = "") :
    command.statement.utf8ByteSize ≤ kMaxStatementBytes ∧
      command.parameterDeclarations.utf8ByteSize ≤ kMaxRpcTextBytes ∧
      (∀ parameter ∈ command.parameters, isValidName parameter.name ∧ parameter.Fits) ∧
      (command.parameters.map Parameter.name).Nodup := by
  rw [SqlCommand.validationError] at h
  split at h
  · exact absurd h (by decide)
  · split at h
    · exact absurd h (by decide)
    · next hlong =>
      dsimp only at h
      split at h
      · next herror =>
        split at h
        · exact absurd h (by decide)
        · next hdeclarations =>
          obtain ⟨hall, hnodup, -⟩ := parametersError_eq_empty herror
          exact ⟨Nat.le_of_not_lt hlong, Nat.le_of_not_lt hdeclarations, hall, hnodup⟩
      · next herror => exact absurd h herror

/-! ## Reading the declarations -/

/-- A text up to a mark and what follows it are found again. -/
theorem append_inj_of_mark {α : Type*} {mark : α} {a b s t : List α} (ha : mark ∉ a) (hb : mark ∉ b)
    (hs : s = [] ∨ s.head? = some mark) (ht : t = [] ∨ t.head? = some mark)
    (h : a ++ s = b ++ t) : a = b ∧ s = t := by
  induction a generalizing b with
  | nil =>
    rcases b with _ | ⟨c, b⟩
    · exact ⟨rfl, h⟩
    · rcases hs with rfl | hs
      · cases h
      · rw [List.nil_append] at h
        rw [h, List.cons_append, List.head?_cons] at hs
        exact absurd (Option.some.inj hs ▸ List.mem_cons_self) hb
  | cons c a ih =>
    rcases b with _ | ⟨d, b⟩
    · rcases ht with rfl | ht
      · cases h
      · rw [List.nil_append] at h
        rw [← h, List.cons_append, List.head?_cons] at ht
        exact absurd (Option.some.inj ht ▸ List.mem_cons_self) ha
    · rw [List.cons_append, List.cons_append] at h
      obtain ⟨rfl, hrest⟩ := List.cons.inj h
      obtain ⟨rfl, rfl⟩ := ih (fun hmem ↦ ha (List.mem_cons_of_mem _ hmem))
        (fun hmem ↦ hb (List.mem_cons_of_mem _ hmem)) hrest
      exact ⟨rfl, rfl⟩

/-- The declaration of one parameter. -/
def declaration (parameter : Parameter) : List Char :=
  parameter.name.toList ++ (typeText parameter.type).toList

/-- The declarations after the first one. -/
def moreDeclarations (parameters : List Parameter) : List Char :=
  parameters.flatMap fun parameter ↦ ',' :: ' ' :: declaration parameter

theorem typeText_ne (type : ParameterType) : typeText type ≠ "" := by
  rcases type
  all_goals decide

theorem addDeclaration_ne (declarations : String) (parameter : Parameter) :
    addDeclaration declarations parameter ≠ "" := by
  intro hempty
  have hlist := congrArg String.toList hempty
  rw [addDeclaration, String.toList_append] at hlist
  exact typeText_ne parameter.type (String.toList_eq_nil_iff.mp (List.append_eq_nil_iff.mp hlist).2)

theorem foldl_addDeclaration (parameters : List Parameter) {declarations : String}
    (h : declarations ≠ "") :
    (parameters.foldl addDeclaration declarations).toList
      = declarations.toList ++ moreDeclarations parameters := by
  induction parameters generalizing declarations with
  | nil => exact (List.append_nil _).symm
  | cons parameter rest ih =>
    rw [List.foldl_cons, ih (addDeclaration_ne _ _), addDeclaration, if_neg h, String.toList_append,
      String.toList_append, String.toList_append, moreDeclarations, moreDeclarations,
      List.flatMap_cons]
    simp [declaration]

/-- The first declaration stands alone, the others come after a comma. -/
theorem toList_parameterDeclarations (command : SqlCommand) :
    command.parameterDeclarations.toList = match command.parameters with
      | [] => []
      | parameter :: rest => declaration parameter ++ moreDeclarations rest := by
  rw [SqlCommand.parameterDeclarations]
  rcases command.parameters with _ | ⟨parameter, rest⟩
  · rfl
  · rw [List.foldl_cons, foldl_addDeclaration rest (addDeclaration_ne _ _), addDeclaration,
      if_pos rfl]
    simp [declaration]

theorem isAlphaNumeric_ne {c : Char} (h : isAlphaNumeric c) : c ≠ ',' ∧ c ≠ ' ' := by
  constructor
  · rintro rfl
    exact absurd h (by decide)
  · rintro rfl
    exact absurd h (by decide)

/-- A valid name is an at sign and letters, digits and underscores. -/
theorem isValidName_chars {name : String} (h : isValidName name) {c : Char}
    (hc : c ∈ name.toList) : c = '@' ∨ isAlphaNumeric c := by
  rw [isValidName] at h
  split_ifs at h
  split at h
  · next first rest heq =>
    rw [heq] at hc
    obtain ⟨hfirst, hrest⟩ := (Bool.and_eq_true _ _).mp h
    rcases List.mem_cons.mp hc with rfl | hc
    · exact Or.inl rfl
    · rcases List.mem_cons.mp hc with rfl | hc
      · exact Or.inr ((Bool.or_eq_true _ _).mpr (Or.inl hfirst))
      · exact Or.inr (List.all_eq_true.mp hrest c hc)
  · cases h

theorem notMem_name {name : String} (h : isValidName name) :
    ',' ∉ name.toList ∧ ' ' ∉ name.toList := by
  constructor
  · intro hmem
    rcases isValidName_chars h hmem with heq | hc
    · exact absurd heq (by decide)
    · exact (isAlphaNumeric_ne hc).1 rfl
  · intro hmem
    rcases isValidName_chars h hmem with heq | hc
    · exact absurd heq (by decide)
    · exact (isAlphaNumeric_ne hc).2 rfl

theorem notMem_declaration {parameter : Parameter} (h : isValidName parameter.name) :
    ',' ∉ declaration parameter := by
  rw [declaration, List.mem_append, not_or]
  refine ⟨(notMem_name h).1, ?_⟩
  rcases parameter.type
  all_goals decide

theorem typeText_head (type : ParameterType) : (typeText type).toList.head? = some ' ' := by
  rcases type
  all_goals rfl

theorem typeText_injective {type type' : ParameterType}
    (h : (typeText type).toList = (typeText type').toList) : type = type' := by
  have hdistinct : ∀ a b : ParameterType, typeText a = typeText b → a = b := by
    intro a b heq
    rcases a <;> rcases b <;> first | rfl | exact absurd heq (by decide)
  exact hdistinct _ _ (String.toList_inj.mp h)

/-- A declaration says the name and the type. -/
theorem declaration_injective {p q : Parameter} (hp : isValidName p.name) (hq : isValidName q.name)
    (h : declaration p = declaration q) : p.name = q.name ∧ p.type = q.type := by
  obtain ⟨hname, htype⟩ := append_inj_of_mark (notMem_name hp).2 (notMem_name hq).2
    (Or.inr (typeText_head p.type)) (Or.inr (typeText_head q.type)) h
  exact ⟨String.toList_inj.mp hname, typeText_injective htype⟩

theorem moreDeclarations_head (parameters : List Parameter) :
    moreDeclarations parameters = [] ∨ (moreDeclarations parameters).head? = some ',' := by
  rcases parameters with _ | ⟨parameter, rest⟩
  · exact Or.inl rfl
  · exact Or.inr rfl

/-- The names and types of parameters. -/
def declared (parameters : List Parameter) : List (String × ParameterType) :=
  parameters.map fun parameter ↦ (parameter.name, parameter.type)

theorem declared_of_append {p q : Parameter} {ps qs : List Parameter}
    (hps : ∀ parameter ∈ p :: ps, isValidName parameter.name)
    (hqs : ∀ parameter ∈ q :: qs, isValidName parameter.name)
    (h : declaration p ++ moreDeclarations ps = declaration q ++ moreDeclarations qs) :
    declared (p :: ps) = declared (q :: qs) := by
  induction ps generalizing p q qs with
  | nil =>
    obtain ⟨hp, -⟩ := List.forall_mem_cons.mp hps
    obtain ⟨hq, hqs⟩ := List.forall_mem_cons.mp hqs
    obtain ⟨hfirst, hrest⟩ := append_inj_of_mark (notMem_declaration hp) (notMem_declaration hq)
      (moreDeclarations_head []) (moreDeclarations_head qs) h
    obtain ⟨hname, htype⟩ := declaration_injective hp hq hfirst
    rcases qs with _ | ⟨q', qs⟩
    · rw [declared, declared, List.map_singleton, List.map_singleton, hname, htype]
    · cases hrest
  | cons p' ps ih =>
    obtain ⟨hp, hps⟩ := List.forall_mem_cons.mp hps
    obtain ⟨hq, hqs⟩ := List.forall_mem_cons.mp hqs
    -- The first comma is behind the first declaration.
    obtain ⟨hfirst, hrest⟩ := append_inj_of_mark (notMem_declaration hp) (notMem_declaration hq)
      (moreDeclarations_head (p' :: ps)) (moreDeclarations_head qs) h
    obtain ⟨hname, htype⟩ := declaration_injective hp hq hfirst
    rcases qs with _ | ⟨q', qs⟩
    · cases hrest
    · have hmore : declaration p' ++ moreDeclarations ps = declaration q' ++ moreDeclarations qs :=
        List.tail_eq_of_cons_eq (List.tail_eq_of_cons_eq hrest)
      have hdeclared : declared (p' :: ps) = declared (q' :: qs) := ih hps hqs hmore
      rw [declared, List.map_cons, hname, htype]
      exact congrArg _ hdeclared

theorem declaration_ne_nil (parameter : Parameter) (rest : List Char) :
    declaration parameter ++ rest ≠ [] := by
  intro h
  have htype := (List.append_eq_nil_iff.mp (List.append_eq_nil_iff.mp h).1).2
  exact typeText_ne parameter.type (String.toList_eq_nil_iff.mp htype)

/-- **Declarations.** The declarations of a checked command say the names and the types of its
parameters, and nothing else: no name can pretend to be another declaration. -/
theorem declarations_determine {c d : SqlCommand} (hc : c.validationError = "")
    (hd : d.validationError = "") (h : c.parameterDeclarations = d.parameterDeclarations) :
    declared c.parameters = declared d.parameters := by
  have hcs := fun parameter hmem ↦ ((validationError_eq_empty hc).2.2.1 parameter hmem).1
  have hds := fun parameter hmem ↦ ((validationError_eq_empty hd).2.2.1 parameter hmem).1
  have hlist := congrArg String.toList h
  rw [toList_parameterDeclarations, toList_parameterDeclarations] at hlist
  rcases hps : c.parameters with _ | ⟨p, ps⟩
  · rcases hqs : d.parameters with _ | ⟨q, qs⟩
    · rfl
    · rw [hps, hqs] at hlist
      exact absurd hlist.symm (declaration_ne_nil q _)
  · rcases hqs : d.parameters with _ | ⟨q, qs⟩
    · rw [hps, hqs] at hlist
      exact absurd hlist (declaration_ne_nil p _)
    · rw [hps, hqs] at hlist
      rw [hps] at hcs
      rw [hqs] at hds
      exact declared_of_append hcs hds hlist

/-! ## Binding -/

/-- The value of a parameter, as its type says. -/
def Parameter.value (parameter : Parameter) : RpcValue :=
  match parameter.type with
  | .int32 => .int4 parameter.intValue
  | .int64 => .int8 parameter.int64Value
  | _ => .text parameter.textValue

theorem fits_bound {parameter : Parameter} (h : parameter.Fits)
    (htype : parameter.type ≠ .int32 ∧ parameter.type ≠ .int64) :
    ¬kMaxBoundTextBytes < parameter.textValue.utf8ByteSize := by
  rw [Parameter.Fits] at h
  have hbounds : kMaxRpcTextBytes ≤ kMaxBoundTextBytes := by decide
  rcases hcase : parameter.type
  all_goals
    rw [hcase] at h htype
  · exact Nat.not_lt.mpr (Nat.le_trans h hbounds)
  · exact Nat.not_lt.mpr (Nat.le_trans h hbounds)
  · exact Nat.not_lt.mpr h
  · exact absurd rfl htype.1
  · exact absurd rfl htype.2

/-- The lists of numbers give each parameter its own. -/
theorem bindParameters_eq {parameters : List Parameter}
    (h : ∀ parameter ∈ parameters, parameter.Fits) :
    bindParameters parameters (intValues parameters) (bigintValues parameters)
      = some (parameters.map fun parameter ↦ (parameter.name, parameter.value)) := by
  induction parameters with
  | nil => rfl
  | cons parameter rest ih =>
    obtain ⟨hfits, hrest⟩ := List.forall_mem_cons.mp h
    have hbound := fits_bound hfits
    have hvalues := ih hrest
    rw [intValues, bigintValues] at hvalues ⊢
    rw [List.map_cons, Parameter.value, bindParameters.eq_def]
    -- A text is within the bound; a number is the first one of its list.
    rcases htype : parameter.type
    case int32 => simpa [htype] using hvalues
    case int64 => simpa [htype] using hvalues
    all_goals simpa [htype, Nat.not_lt.mp (hbound (by simp [htype]))] using hvalues

/-- **Binding.** A checked command is sent as it is: its statement, its declarations, and each value
under its own name; a command that is not is not sent. -/
theorem executeSql_eq (command : SqlCommand) :
    executeSql command = if command.validationError = "" then
      some ⟨command.statement, command.parameterDeclarations,
        command.parameters.map fun parameter ↦ (parameter.name, parameter.value)⟩
    else none := by
  rw [executeSql]
  split
  · next hvalid =>
    obtain ⟨hstatement, hdeclarations, hparameters, -⟩ := validationError_eq_empty hvalid
    have hbounds : kMaxRpcTextBytes ≤ kMaxStatementBytes := by decide
    have hsize : ¬(kMaxStatementBytes < command.statement.utf8ByteSize ∨
        kMaxStatementBytes < command.parameterDeclarations.utf8ByteSize) := by omega
    rw [if_neg hsize, bindParameters_eq fun parameter hmem ↦ (hparameters parameter hmem).2]
    rfl
  · rfl

/-- A command with a parameter of each type. -/
def everyType (statement nickname : String) (tag : Int32) (canvasId : Int64) : SqlCommand :=
  SqlCommand.mk statement []
    |>.addText "@nickname" nickname
    |>.addInt "@tag_number" tag
    |>.addVarchar "@server_ip" "10.0.0.1"
    |>.addMaxText "@document" "\x7b\x7d"
    |>.addInt64 "@canvas_id" canvasId

/-- Two commands of one declaration. -/
theorem everyType_declared :
    declared (everyType "SELECT 1;" "ada" 1 7).parameters
      = declared (everyType "SELECT @nickname;" "bob" 2 9).parameters :=
  declarations_determine (by decide +kernel) (by decide +kernel) (by decide +kernel)

end Sql

end Agora
