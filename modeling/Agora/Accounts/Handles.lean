import Agora.Accounts.Numbering
import Agora.Accounts.Users
import Mathlib.Data.List.MinMax
import Mathlib.Tactic.SplitIfs

/-!
# Handles

A nickname and a tag number should name one person for good: tokens and mentions carry nothing else.
The numbers are given out above the ones in use, so they do as long as nobody leaves a nickname with
its highest number (`handle_names_one_person`); once that happens, the next account under the
nickname gets the number again.
-/

namespace Agora

namespace Accounts

open Java Agora.Numbering

variable {κ : Type} [DecidableEq κ] (collate : String → κ) (encode : String → String)
  (flushes : Bool)

/-- The handle of a user. -/
def handle (u : User) : κ × ℤ := (collate u.nickname, u.tagNumber)

def held (t : Table) (i : ℕ) : Option (κ × ℤ) := t.users[i]?.map (handle collate)

/-- A nickname and a number name a user of the table. -/
def Identifies (t : Table) (nickname : String) (tagNumber : ℤ) (i : ℕ) : Prop :=
  held collate t i = some (collate nickname, tagNumber)

instance (t : Table) (nickname : String) (tagNumber : ℤ) (i : ℕ) :
    Decidable (Identifies collate t nickname tagNumber i) := inferInstanceAs (Decidable (_ = _))

/-! ## Careful requests -/

/-- Someone else has a higher number under the nickname of a user. -/
def Outranked (users : List User) (u : User) : Prop :=
  ∃ v ∈ users, collate v.nickname = collate u.nickname ∧ u.tagNumber < v.tagNumber

/-- There is a next number. -/
def Room (highest : ℤ) : Prop := highest ≠ 2147483647

/-- A request by which nobody leaves a nickname with its highest number, nobody that is deleted
comes to a nickname below one of its numbers, and no numbers run out. Who signs up, comes from
elsewhere or takes another nickname is asked for a next number even if the request is then refused
for its e-mail or its password. -/
def Careful (t : Table) : Request → Prop
  | .signup _ _ nickname => Room (findMaxTagNumberByNicknameForUpdate collate t.users nickname)
  | .loginGoogle principal =>
    Room (findMaxTagNumberByNicknameForUpdate collate t.users (googleName principal.fullName))
  | .updateUser nickname tagNumber request caller => ∀ i u new,
    findByNicknameAndTagNumber collate t.users nickname tagNumber = .ok (i, u) →
    validateSelfOrAdmin i caller = .ok () → u.status ≠ .withdrawn →
    newNickname request u = some new →
      (collate new = collate u.nickname ∨ Outranked collate t.users u) ∧
        Room (highestSeen collate flushes t.users i u new)
  | .deleteUser nickname tagNumber caller hash => ∀ i u,
    findByNicknameAndTagNumber collate t.users nickname tagNumber = .ok (i, u) →
    validateSelfOrAdmin i caller = .ok () → u.status ≠ .withdrawn → t.accessed i = false →
      (collate (deletedName hash) = collate u.nickname ∨ Outranked collate t.users u) ∧
        ∀ j v, j ≠ i → t.users[j]? = some v → collate v.nickname = collate (deletedName hash) →
          v.tagNumber < u.tagNumber
  | .access _ _ => True

/-! ## Numbers -/

variable {collate encode flushes}

theorem increment_of_room {n : ℤ} (h : Room n) : increment n = n + 1 := if_neg h

theorem le_findMax {users : List User} {nickname : String} {u : User} (hu : u ∈ users)
    (hkey : collate u.nickname = collate nickname) :
    u.tagNumber ≤ findMaxTagNumberByNicknameForUpdate collate users nickname := by
  have hmem : u.tagNumber ∈ (users.filter fun u ↦ collate u.nickname = collate nickname).map
      User.tagNumber := by
    refine List.mem_map_of_mem (List.mem_filter.mpr ⟨hu, ?_⟩)
    exact decide_eq_true hkey
  rw [findMaxTagNumberByNicknameForUpdate]
  cases hmax : ((users.filter fun u ↦ collate u.nickname = collate nickname).map
      User.tagNumber).max? with
  | none =>
    rw [List.max?_eq_none_iff] at hmax
    rw [hmax] at hmem
    exact absurd hmem List.not_mem_nil
  | some m => exact (List.max?_le_iff hmax).mp le_rfl _ hmem

theorem lt_nextTagNumber {users : List User} {nickname : String} {u : User} (hu : u ∈ users)
    (hkey : collate u.nickname = collate nickname)
    (hroom : Room (findMaxTagNumberByNicknameForUpdate collate users nickname)) :
    u.tagNumber < nextTagNumber collate users nickname := by
  rw [nextTagNumber, increment_of_room hroom]
  exact Int.lt_add_one_of_le (le_findMax hu hkey)

theorem findByNickname_ok {users : List User} {nickname : String} {tagNumber : ℤ} {i : ℕ} {u : User}
    (h : findByNicknameAndTagNumber collate users nickname tagNumber = .ok (i, u)) :
    users[i]? = some u ∧ hasHandle collate nickname tagNumber u := by
  unfold findByNicknameAndTagNumber at h
  split at h
  · nomatch h
  · next u' i' hfilter =>
    obtain ⟨rfl, rfl⟩ := Prod.mk.inj (Except.ok.inj h)
    have hmem := List.mem_filter.mp (hfilter ▸ List.mem_singleton_self (u', i'))
    exact ⟨List.mk_mem_zipIdx_iff_getElem?.mp hmem.1, hmem.2⟩
  · nomatch h

/-! ## Steps -/

omit [DecidableEq κ] in
/-- A new row, above all numbers of its nickname. -/
theorem moves_add {t : Table} {u : User}
    (habove : ∀ v ∈ t.users, collate v.nickname = collate u.nickname → v.tagNumber < u.tagNumber) :
    Moves (held collate t) (held collate (t.add u)) t.users.length (collate u.nickname)
      u.tagNumber := by
  have hnone : held collate t t.users.length = none := by simp [held]
  refine ⟨by simp [held, Table.add, handle], fun j hj ↦ ?_, fun j m hj hm ↦ ?_, ?_, ?_⟩
  · simp only [held, Table.add]
    rcases Nat.lt_or_ge j t.users.length with hlt | hge
    · rw [List.getElem?_append_left hlt]
    · rw [List.getElem?_eq_none hge, List.getElem?_eq_none]
      simp only [List.length_append, List.length_singleton]
      omega
  · obtain ⟨v, hv, hhandle⟩ := Option.map_eq_some_iff.mp hm
    obtain ⟨hkey, rfl⟩ := Prod.mk.inj hhandle
    exact habove v (List.mem_of_getElem? hv) hkey
  · intro m hm
    rw [hnone] at hm
    nomatch hm
  · intro k m hm
    rw [hnone] at hm
    nomatch hm

omit [DecidableEq κ] in
/-- A row that is changed, and arrives above all others of its nickname. -/
theorem moves_put {t : Table} {i : ℕ} {u u' : User} (hu : t.users[i]? = some u)
    (habove : ∀ j v, j ≠ i → t.users[j]? = some v → collate v.nickname = collate u'.nickname →
      v.tagNumber < u'.tagNumber)
    (hrises : collate u.nickname = collate u'.nickname → u.tagNumber ≤ u'.tagNumber)
    (houtranked : collate u'.nickname = collate u.nickname ∨ Outranked collate t.users u) :
    Moves (held collate t) (held collate (t.put i u')) i (collate u'.nickname) u'.tagNumber := by
  have hi : held collate t i = some (handle collate u) := by rw [held, hu, Option.map_some]
  have hlt : i < t.users.length := (List.getElem?_eq_some_iff.mp hu).1
  refine ⟨?_, fun j hj ↦ ?_, fun j m hj hm ↦ ?_, fun m hm ↦ ?_, fun k m hm ↦ ?_⟩
  · simp [held, Table.put, hlt, handle]
  · simp [held, Table.put, Ne.symm hj]
  · obtain ⟨v, hv, hhandle⟩ := Option.map_eq_some_iff.mp hm
    obtain ⟨hkey, rfl⟩ := Prod.mk.inj hhandle
    exact habove j v hj hv hkey
  · obtain ⟨hkey, rfl⟩ := Prod.mk.inj (Option.some.inj (hi.symm.trans hm))
    exact hrises hkey
  · obtain ⟨rfl, rfl⟩ := Prod.mk.inj (Option.some.inj (hi.symm.trans hm))
    refine houtranked.imp Eq.symm ?_
    rintro ⟨v, hmem, hkey, hlt⟩
    obtain ⟨j, hj⟩ := List.mem_iff_getElem?.mp hmem
    exact ⟨j, v.tagNumber, by rw [held, hj, Option.map_some, handle, hkey], hlt⟩

omit [DecidableEq κ] in
/-- A row whose handle stays is as good as not changed. -/
theorem held_put {t : Table} {i : ℕ} {u u' : User} (hu : t.users[i]? = some u)
    (hhandle : handle collate u' = handle collate u) :
    held collate (t.put i u') = held collate t := by
  funext j
  simp only [held, Table.put]
  by_cases hj : i = j
  · subst hj
    have hlt : i < t.users.length := (List.getElem?_eq_some_iff.mp hu).1
    rw [List.getElem?_set_self hlt, hu, Option.map_some, Option.map_some, hhandle]
  · rw [List.getElem?_set_ne hj]

omit [DecidableEq κ] in
theorem changePassword_handle (collate : String → κ) {request : UpdateUserRequest} {u u' : User}
    (h : changePassword encode request u = .ok u') : handle collate u' = handle collate u := by
  unfold changePassword at h
  split at h
  · rw [Except.ok.inj h]
  · obtain ⟨_, -, h⟩ := Result.bind_ok.mp h
    rw [← Result.pure_ok.mp h]
    rfl

theorem signup_step {t t' : Table} {email password nickname : String}
    (hroom : Room (findMaxTagNumberByNicknameForUpdate collate t.users nickname))
    (h : signup collate encode t email password nickname = .ok t') :
    Step (held collate t) (held collate t') := by
  obtain ⟨_, -, h⟩ := Result.bind_ok.mp h
  obtain ⟨_, -, h⟩ := Result.bind_ok.mp h
  rw [← Result.pure_ok.mp h]
  exact Or.inr ⟨_, _, _, moves_add fun v hv hkey ↦ lt_nextTagNumber hv hkey hroom⟩

theorem loginGoogle_step {t t' : Table} {principal : OidcUser}
    (hroom : Room (findMaxTagNumberByNicknameForUpdate collate t.users
      (googleName principal.fullName)))
    (h : loginGoogle collate t principal = .ok t') : Step (held collate t) (held collate t') := by
  obtain ⟨claims, -, h⟩ := Result.bind_ok.mp h
  obtain ⟨found, -, h⟩ := Result.bind_ok.mp h
  cases found with
  | some u =>
    obtain ⟨_, -, h⟩ := Result.bind_ok.mp h
    rw [← Result.pure_ok.mp h]
    exact Or.inl rfl
  | none =>
    obtain ⟨_, -, h⟩ := Result.bind_ok.mp h
    rw [← Result.pure_ok.mp h]
    exact Or.inr ⟨_, _, _, moves_add fun v hv hkey ↦ lt_nextTagNumber hv hkey hroom⟩

/-- The others and, under the same nickname, the user's own old number are below the new one. -/
theorem tagNumber_lt_renamed {users : List User} {i : ℕ} {u : User} {nickname : String}
    (hu : users[i]? = some u) (hroom : Room (highestSeen collate flushes users i u nickname)) :
    (∀ j v, j ≠ i → users[j]? = some v → collate v.nickname = collate nickname →
      v.tagNumber < increment (highestSeen collate flushes users i u nickname)) ∧
    (collate u.nickname = collate nickname →
      u.tagNumber < increment (highestSeen collate flushes users i u nickname)) := by
  rw [increment_of_room hroom]
  have hlt : i < users.length := (List.getElem?_eq_some_iff.mp hu).1
  constructor
  · intro j v hj hv hkey
    refine Int.lt_add_one_of_le (le_findMax ?_ hkey)
    split
    · exact List.mem_of_getElem? ((List.getElem?_set_ne (Ne.symm hj)).trans hv)
    · exact List.mem_of_getElem? hv
  · intro hkey
    refine Int.lt_add_one_of_le ?_
    rw [highestSeen]
    split
    · exact @le_findMax _ _ collate _ nickname { u with nickname }
        (List.mem_of_getElem? (List.getElem?_set_self hlt)) rfl
    · exact le_findMax (List.mem_of_getElem? hu) hkey

theorem updateUser_step {t t' : Table} {nickname : String} {tagNumber : ℤ}
    {request : UpdateUserRequest} {caller : Caller}
    (hcareful : Careful collate flushes t (.updateUser nickname tagNumber request caller))
    (h : updateUser collate encode flushes t nickname tagNumber request caller = .ok t') :
    Step (held collate t) (held collate t') := by
  obtain ⟨⟨i, u⟩, hfound, h⟩ := Result.bind_ok.mp h
  obtain ⟨_, hcaller, h⟩ := Result.bind_ok.mp h
  obtain ⟨_, hstatus, h⟩ := Result.bind_ok.mp h
  obtain ⟨changed, hchanged, h⟩ := Result.bind_ok.mp h
  rw [← Result.pure_ok.mp h]
  obtain ⟨hu, -⟩ := findByNickname_ok hfound
  have hhandle := changePassword_handle collate hchanged
  cases hnew : newNickname request u with
  | none =>
    rw [renamed, hnew] at hhandle
    exact Or.inl (held_put hu hhandle)
  | some new =>
    rw [renamed, hnew] at hhandle
    have hactive : u.status ≠ .withdrawn := of_decide_eq_false (Result.throwIf_ok.mp hstatus)
    obtain ⟨hleaves, hroom⟩ := hcareful i u new hfound hcaller hactive hnew
    obtain ⟨hothers, hown⟩ := tagNumber_lt_renamed hu hroom
    obtain ⟨hkey, htag⟩ := Prod.mk.inj hhandle
    dsimp only at hkey htag
    refine Or.inr ⟨_, _, _, moves_put hu ?_ ?_ ?_⟩
    · intro j v hj hv hsame
      rw [htag]
      exact hothers j v hj hv (hsame.trans hkey)
    · intro hsame
      rw [htag]
      exact (hown (hsame.trans hkey)).le
    · rw [hkey]
      exact hleaves

theorem deleteUser_step {t t' : Table} {nickname hash : String} {tagNumber : ℤ} {caller : Caller}
    (hcareful : Careful collate flushes t (.deleteUser nickname tagNumber caller hash))
    (h : deleteUser collate t nickname tagNumber caller hash = .ok t') :
    Step (held collate t) (held collate t') := by
  obtain ⟨⟨i, u⟩, hfound, h⟩ := Result.bind_ok.mp h
  obtain ⟨_, hcaller, h⟩ := Result.bind_ok.mp h
  split at h
  · rw [← Result.pure_ok.mp h]
    exact Or.inl rfl
  · next hstatus =>
    obtain ⟨_, haccessed, h⟩ := Result.bind_ok.mp h
    rw [← Result.pure_ok.mp h]
    obtain ⟨hleaves, habove⟩ :=
      hcareful i u hfound hcaller hstatus (Result.throwIf_ok.mp haccessed)
    exact Or.inr ⟨_, _, _, moves_put (findByNickname_ok hfound).1 habove (fun _ ↦ le_rfl) hleaves⟩

/-- **A careful request** moves at most one handle, and upwards. -/
theorem after_step {t : Table} {request : Request} (hcareful : Careful collate flushes t request) :
    Step (held collate t) (held collate (after collate encode flushes t request)) := by
  unfold after
  split
  · next t' hanswer =>
    cases request with
    | signup email password nickname => exact signup_step hcareful hanswer
    | loginGoogle principal => exact loginGoogle_step hcareful hanswer
    | updateUser nickname tagNumber request caller => exact updateUser_step hcareful hanswer
    | deleteUser nickname tagNumber caller hash => exact deleteUser_step hcareful hanswer
    | access id accessed =>
      rw [← Except.ok.inj hanswer]
      exact Or.inl rfl
  · exact Or.inl rfl

/-! ## Runs -/

variable (collate encode flushes)

/-- A careful request and the table after it. -/
def CarefulStep (t t' : Table) : Prop :=
  ∃ request, Careful collate flushes t request ∧ after collate encode flushes t request = t'

theorem carefulStep_moving : Moving (CarefulStep collate encode flushes) (held collate) where
  moves := by
    rintro t _ ⟨request, hcareful, rfl⟩
    exact after_step hcareful

variable {collate encode flushes}

theorem identifies_of_hasHandle {t : Table} {nickname : String} {tagNumber : ℤ} {i : ℕ} {u : User}
    (hu : t.users[i]? = some u) (h : hasHandle collate nickname tagNumber u) :
    Identifies collate t nickname tagNumber i := by
  simp only [hasHandle, Bool.and_eq_true, decide_eq_true_eq] at h
  rw [Identifies, held, hu, Option.map_some, handle, h.1, h.2]

theorem getActiveUserId_identifies {t : Table} {nickname : String} {tagNumber : ℤ} {i : ℕ}
    (h : getActiveUserId collate t.users nickname tagNumber = some i) :
    Identifies collate t nickname tagNumber i := by
  unfold getActiveUserId at h
  split at h
  · nomatch h
  · obtain ⟨⟨u, j⟩, hlast, rfl⟩ := Option.map_eq_some_iff.mp h
    obtain ⟨hmem, hfound⟩ := List.mem_filter.mp (List.mem_of_getLast? hlast)
    rw [Bool.and_eq_true] at hfound
    exact identifies_of_hasHandle (List.mk_mem_zipIdx_iff_getElem?.mp hmem) hfound.1

/-- **A handle names one person**, in every run of careful requests: whoever it has named once, it
names later or nobody, and no lookup of either server finds anyone else under it. -/
theorem handle_names_one_person {start t t' : Table} (hstart : Distinct (held collate start))
    (h : Relation.ReflTransGen (CarefulStep collate encode flushes) start t)
    (h' : Relation.ReflTransGen (CarefulStep collate encode flushes) t t')
    {nickname : String} {tagNumber : ℤ} {a : ℕ} (ha : Identifies collate t nickname tagNumber a) :
    (∀ b, Identifies collate t' nickname tagNumber b → b = a) ∧
      (∀ b u, findByNicknameAndTagNumber collate t'.users nickname tagNumber = .ok (b, u) → b = a) ∧
      ∀ b, getActiveUserId collate t'.users nickname tagNumber = some b → b = a := by
  have hmoving := carefulStep_moving collate encode flushes
  have hsame : ∀ b, Identifies collate t' nickname tagNumber b → b = a := fun b hb ↦
    hmoving.unchanged (hmoving.distinct hstart h) h' ha hb
  refine ⟨hsame, fun b u hb ↦ hsame b ?_, fun b hb ↦ hsame b (getActiveUserId_identifies hb)⟩
  obtain ⟨hu, hhandle⟩ := findByNickname_ok hb
  exact identifies_of_hasHandle hu hhandle

/-! ### Someone leaves a nickname -/

def signupKim (email : String) : Request := .signup email "password" "kim"

/-- The first of two users of a nickname is deleted. -/
def deleteFirst : Request := .deleteUser "kim" 1 ⟨some 0, false⟩ "0123456789abcdef"

def afterAll (requests : List Request) : Table := requests.foldl (after id id true) {}

def kim (email : String) (tagNumber : ℤ) : User :=
  { email, passwordHash := some "password", nickname := "kim", tagNumber }

def bothSignedUp : Table := { users := [kim "a@example.com" 1, kim "b@example.com" 2] }

theorem both_sign_up : Relation.ReflTransGen (CarefulStep id id true) {} bothSignedUp := by
  have hroom : ∀ users : List User, findMaxTagNumberByNicknameForUpdate id users "kim" ≤ 1 →
      Room (findMaxTagNumberByNicknameForUpdate id users "kim") := by
    intro users hlow hfull
    omega
  have hfirst : CarefulStep id id true {} { users := [kim "a@example.com" 1] } :=
    ⟨signupKim "a@example.com", hroom _ (by decide), by with_unfolding_all rfl⟩
  have hsecond : CarefulStep id id true { users := [kim "a@example.com" 1] } bothSignedUp :=
    ⟨signupKim "b@example.com", hroom _ (by decide), by with_unfolding_all rfl⟩
  exact .tail (.single hfirst) hsecond

theorem first_deletion_careful : Careful id true bothSignedUp deleteFirst := by
  intro i u hfound _ _ _
  have hfirst : findByNicknameAndTagNumber id bothSignedUp.users "kim" 1
      = .ok (0, kim "a@example.com" 1) := by decide +kernel
  obtain ⟨rfl, rfl⟩ := Prod.mk.inj (Except.ok.inj (hfound.symm.trans hfirst))
  refine ⟨Or.inr ⟨kim "b@example.com" 2, by decide, rfl, by decide⟩, fun j v _ hv hname ↦ ?_⟩
  have hmem := List.mem_of_getElem? hv
  simp only [bothSignedUp, List.mem_cons, List.not_mem_nil, or_false] at hmem
  rcases hmem with rfl | rfl
  · exact absurd hname (by decide +kernel)
  · exact absurd hname (by decide +kernel)

theorem second_keeps_its_handle :
    let t' := after id id true bothSignedUp deleteFirst
    (∀ b, Identifies id t' "kim" 2 b → b = 1) ∧
      (∀ b u, findByNicknameAndTagNumber id t'.users "kim" 2 = .ok (b, u) → b = 1) ∧
      ∀ b, getActiveUserId id t'.users "kim" 2 = some b → b = 1 :=
  have hstart : Distinct (held id {}) := fun _ _ _ h ↦ nomatch h
  have hname : Identifies id bothSignedUp "kim" 2 1 := by decide +kernel
  handle_names_one_person hstart both_sign_up
    (.single ⟨deleteFirst, first_deletion_careful, rfl⟩) hname

/-- The only user of a nickname is deleted, and someone else signs up under it. -/
theorem handle_is_given_again :
    ∃ t t' : Table, t = afterAll [signupKim "a@example.com"] ∧
      t' = afterAll [signupKim "a@example.com", deleteFirst, signupKim "b@example.com"] ∧
      Identifies id t "kim" 1 0 ∧ getActiveUserId id t.users "kim" 1 = some 0 ∧
      Identifies id t' "kim" 1 1 ∧ getActiveUserId id t'.users "kim" 1 = some 1 :=
  ⟨_, _, rfl, rfl, by decide +kernel, by decide +kernel, by decide +kernel, by decide +kernel⟩

end Accounts

end Agora
