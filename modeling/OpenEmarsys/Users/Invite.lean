import OpenEmarsys.Javascript.Values
import OpenEmarsys.Postgres.Faults
import OpenEmarsys.Users.Service

/-! `InvitationsService.invite`, and what is left of an invitation that fails.

The rows are those of one tenant. They are committed before the mail is sent, so all that comes from
the commit on fails with the rows in place.
-/

set_option autoImplicit false

namespace OpenEmarsys.Invite

open Postgres Javascript
open Users (UserStatus)

inductive Locale where
  | es
  | pt
  | en
  deriving DecidableEq, Repr

structure User where
  id : Uuid
  email : String
  /-- What the unique index has of the address, `lower("email")`. -/
  lowerEmail : String
  locale : Locale
  status : UserStatus
  deriving DecidableEq, Repr

structure Invitation where
  id : Uuid
  userId : Uuid
  email : String
  tokenHash : String
  roleIds : List Uuid
  invitedBy : Uuid
  expiresAt : Time
  deriving DecidableEq, Repr

inductive Row where
  | user (user : User)
  | role (id : Uuid)
  | userRole (userId roleId : Uuid)
  | invitation (invitation : Invitation)
  deriving DecidableEq, Repr

inductive IndexKey where
  | user (id : Uuid)
  | email (lower : String)
  | role (id : Uuid)
  | userRole (userId roleId : Uuid)
  | invitation (id : Uuid)
  | tokenHash (hash : String)
  deriving DecidableEq

instance : Indexed Row where
  Key := IndexKey
  decideKey := inferInstance
  primary
    | .user user => .user user.id
    | .role id => .role id
    | .userRole userId roleId => .userRole userId roleId
    | .invitation invitation => .invitation invitation.id
  uniques
    | .user user => [.email user.lowerEmail]
    | .invitation invitation => [.tokenHash invitation.tokenHash]
    | _ => []

namespace Row

def isUser (p : User → Bool) : Row → Bool
  | .user row => p row
  | _ => false

def isRole (p : Uuid → Bool) : Row → Bool
  | .role id => p id
  | _ => false

end Row

inductive InviteError where
  | notFound (message : String)
  | conflict (message : String)
  | mail
  | sql (error : SqlError)
  deriving DecidableEq, Repr

instance : ClientError InviteError := ⟨.sql⟩

inductive Label where
  | read
  | invite
  deriving DecidableEq

inductive Request where
  /-- `randomBytes(32).toString('base64url')`. -/
  | randomBytes
  /-- The default of `users.id`. -/
  | userId
  /-- The default of `invitations.id`. -/
  | invitationId
  | now
  /-- `transport.sendMail`, which may throw. -/
  | sendInvite (email token : String) (locale : Locale)

abbrev Request.Reply : Request → Type
  | .randomBytes => String
  | .userId => Uuid
  | .invitationId => Uuid
  | .now => Time
  | .sendInvite .. => Bool

abbrev InviteScript (α : Type) := Client Row Label Request.Reply InviteError α

/-- What is computed outside the service. -/
structure Core where
  /-- SHA-256, in hex. -/
  sha256 : String → String
  /-- `lower` of the database. -/
  lower : String → String
  /-- `equals` with `mode: 'insensitive'`. -/
  equalsInsensitive : String → String → Bool

structure InviteUserInput where
  email : String
  role_ids : List Uuid
  locale : Option Locale

structure InvitationDto where
  id : Uuid
  user_id : Uuid
  email : String
  expires_at : String
  deriving DecidableEq

def INVITATION_TTL_MS : Time := 7 * 24 * 60 * 60 * 1000

def emailTaken : InviteError := .conflict "a user with this email already exists in this tenant"

section
variable (core : Core) (tenantId : String) (invitedBy : Uuid) (input : InviteUserInput)

def pending (rawToken : String) (userId id : Uuid) (now : Time) : Invitation :=
  ⟨id, userId, input.email, core.sha256 rawToken, input.role_ids, invitedBy, now + INVITATION_TTL_MS⟩

/-- The user, its roles and its invitation, in one transaction. -/
def save (rawToken : String) (locale : Locale) : InviteScript Invitation :=
  transaction .invite do
    let userId ← ask .userId
    let _ ← sql (.insert [.user ⟨userId, input.email, core.lower input.email, locale, .invited⟩] false)
    let _ ← sql (.insert (input.role_ids.map (.userRole userId)) false)
    let now ← ask .now
    let id ← ask .invitationId
    let _ ← sql (.insert [.invitation (pending core invitedBy input rawToken userId id now)] false)
    pure (pending core invitedBy input rawToken userId id now)

def isUniqueViolation (error : InviteError) : InviteScript Invitation :=
  throw (if error = .sql .unique then emailTaken else error)

def deliver (rawToken : String) (locale : Locale) (invitation : Invitation) : InviteScript InvitationDto := do
  let sent ← ask (.sendInvite input.email (tenantId ++ "." ++ rawToken) locale)
  if !sent then throw .mail
  pure ⟨invitation.id, invitation.userId, invitation.email, toISOString invitation.expiresAt⟩

def checkRoles : InviteScript Unit := do
  let roles ← transaction .read (sql (.select (Row.isRole input.role_ids.contains)))
  if roles.length ≠ input.role_ids.length then throw (.notFound "one or more roles not found")

def checkEmail : InviteScript Unit := do
  let existing ← transaction .read
    (sql (.select (Row.isUser fun user => core.equalsInsensitive user.email input.email)))
  if !existing.isEmpty then throw emailTaken

def invite : InviteScript InvitationDto := do
  checkRoles input
  checkEmail core input
  let rawToken ← ask .randomBytes
  let locale : Locale := input.locale.getD .es
  let invitation ← (save core invitedBy input rawToken locale).handle isUniqueViolation
  deliver tenantId input rawToken locale invitation

end

/-! ## Inserted rows -/

/-- The indexes admit the rows, one after the other. -/
def fits : List Row → List Row → Bool
  | [], _ => true
  | row :: rest, db => !db.any (clash row) && fits rest (db ++ [row])

theorem insertRows_eq (new db : List Row) :
    insertRows false new db = if fits new db then .ok (new, db ++ new) else .error .unique := by
  induction new generalizing db with
  | nil => simp [insertRows, fits]
  | cons row rest ih =>
    rw [insertRows, fits]
    cases taken : db.any (clash row) with
    | true => rfl
    | false =>
      rw [if_neg Bool.false_ne_true, ih]
      cases fits rest (db ++ [row]) with
      | true => simp
      | false => rfl

theorem fits_append (first second db : List Row) : fits (first ++ second) db =
    (fits first db && fits second (db ++ first)) := by
  induction first generalizing db with
  | nil => simp [fits]
  | cons row rest ih =>
    rw [List.cons_append, fits, fits, ih, Bool.and_assoc, List.append_assoc,
      List.singleton_append]

section
variable (core : Core) (tenantId : String) (invitedBy : Uuid) (input : InviteUserInput)
  (replies : (request : Request) → request.Reply) {rows : List Row}

def invited : Invitation :=
  pending core invitedBy input (replies .randomBytes) (replies .userId) (replies .invitationId) (replies .now)

def invitee : User := ⟨replies .userId, input.email, core.lower input.email, input.locale.getD .es, .invited⟩

/-- The rows of a user, its roles and its invitation. -/
def newRows : List Row :=
  [.user (invitee core input replies)] ++ input.role_ids.map (.userRole (replies .userId)) ++
    [.invitation (invited core invitedBy input replies)]

/-- The roles are there, nobody has the address, and the indexes admit the new rows. -/
def admits (rows : List Row) : Bool :=
  ((rows.filter (Row.isRole input.role_ids.contains)).length == input.role_ids.length) &&
    !rows.any (Row.isUser fun user => core.equalsInsensitive user.email input.email) &&
    fits (newRows core invitedBy input replies) rows

def delivered : Bool :=
  replies (.sendInvite input.email (tenantId ++ "." ++ replies .randomBytes) (input.locale.getD .es))

/-- The calls up to the commit of the rows, which is the last of them. -/
def commitCalls : Nat := 20

def inviteCalls : Nat := 21

theorem checkRoles_steps (rows : List Row) :
    ∃ last, Steps replies rows 4 (checkRoles input) ⟨rows, none⟩ last ⟨rows, none⟩ ∧
      last = (if (rows.filter (Row.isRole input.role_ids.contains)).length = input.role_ids.length
        then .ret ()
        else .fail (.notFound "one or more roles not found")) := by
  refine ⟨_, Steps.next (.transaction (.sql rfl)) (.refl _ _), ?_⟩
  by_cases same : (rows.filter (Row.isRole input.role_ids.contains)).length = input.role_ids.length
  · rw [if_neg (not_not.mpr same), if_pos same]
    rfl
  · rw [if_pos same, if_neg same]
    rfl

theorem checkEmail_steps (rows : List Row) :
    ∃ last, Steps replies rows 4 (checkEmail core input) ⟨rows, none⟩ last ⟨rows, none⟩ ∧
      last = (if rows.any (Row.isUser fun user => core.equalsInsensitive user.email input.email)
        then .fail emailTaken
        else .ret ()) := by
  refine ⟨_, Steps.next (.transaction (.sql rfl)) (.refl _ _), ?_⟩
  cases taken : rows.any (Row.isUser fun user => core.equalsInsensitive user.email input.email) with
  | true =>
    have found :
        (rows.filter (Row.isUser fun user => core.equalsInsensitive user.email input.email)).isEmpty =
        false := by
      rw [List.isEmpty_eq_false_iff_exists_mem]
      obtain ⟨row, member, is⟩ := List.any_eq_true.mp taken
      exact ⟨row, List.mem_filter.mpr ⟨member, is⟩⟩
    rw [found]
    rfl
  | false =>
    have none_ :
        (rows.filter (Row.isUser fun user => core.equalsInsensitive user.email input.email)).isEmpty =
        true := by
      rw [List.isEmpty_iff, List.filter_eq_nil_iff]
      intro row member
      exact List.any_eq_false.mp taken row member
    rw [none_]
    rfl

theorem insert_steps (new committed seen : List Row) :
    (fits new seen = true ∧ Steps replies committed 2 (sql (.insert new false) : InviteScript (List Row))
      ⟨committed, some seen⟩
        (.ret new) ⟨committed, some (seen ++ new)⟩) ∨
      fits new seen = false ∧ Steps replies committed 2
      (sql (.insert new false) : InviteScript (List Row)) ⟨committed, some seen⟩
        (.fail (.sql .unique)) ⟨committed, some seen⟩ := by
  cases admitted : fits new seen with
  | true => exact .inl ⟨rfl, .sql (by rw [Statement.apply, insertRows_eq, if_pos admitted])⟩
  | false =>
    refine .inr ⟨rfl, .sql_error ?_⟩
    rw [Statement.apply, insertRows_eq, admitted]
    rfl

theorem askIn {request : Request} {seen : List Row} :
    Steps replies rows 1 (ask request : InviteScript (request.Reply)) ⟨rows, some seen⟩
    (.ret (replies request)) ⟨rows, some seen⟩ :=
  .call rfl (.refl _ _)

theorem save_steps (rows : List Row) :
    (fits (newRows core invitedBy input replies) rows = true ∧
        Steps replies rows 11
        (save core invitedBy input (replies .randomBytes) (input.locale.getD .es)) ⟨rows, none⟩
          (.ret (invited core invitedBy input replies)) ⟨rows ++
            newRows core invitedBy input replies, none⟩) ∨
      fits (newRows core invitedBy input replies) rows = false ∧
        ∃ count, Steps replies rows count
        (save core invitedBy input (replies .randomBytes) (input.locale.getD .es)) ⟨rows, none⟩
          (.fail (.sql .unique)) ⟨rows, none⟩ := by
  let user : List Row := [.user (invitee core input replies)]
  let roles : List Row := input.role_ids.map (.userRole (replies .userId))
  let invitation : List Row := [.invitation (invited core invitedBy input replies)]
  have whole : fits (newRows core invitedBy input replies) rows =
      (fits user rows && fits roles (rows ++ user) && fits invitation (rows ++ user ++ roles)) := by
    rw [newRows, fits_append, fits_append, List.append_assoc rows user]
  have all : rows ++ newRows core invitedBy input replies = rows ++ user ++ roles ++ invitation := by
    simp only [newRows, user, roles, invitation, List.append_assoc]
  rw [whole, all]
  rcases insert_steps replies user rows rows with ⟨first, inserts⟩ | ⟨first, fails⟩
  · rw [first, Bool.true_and]
    rcases insert_steps replies roles rows (rows ++ user) with ⟨second, assigns⟩ | ⟨second, fails⟩
    · rw [second, Bool.true_and]
      rcases insert_steps replies invitation rows (rows ++ user ++ roles) with ⟨third,
        invites⟩ | ⟨third, fails⟩
      · refine .inl ⟨third, ?_⟩
        exact .transaction ((askIn replies).next (inserts.next
          (assigns.next ((askIn replies).next ((askIn replies).next
          (invites.next (.refl _ _)))))))
      · exact .inr ⟨third, _, .transaction_error ((askIn replies).next (inserts.next (assigns.next
          ((askIn replies).next ((askIn replies).next fails.throws)))))⟩
    · exact .inr ⟨by simp [second], _, .transaction_error ((askIn replies).next (inserts.next fails.throws))⟩
  · exact .inr ⟨by simp [first], _, .transaction_error ((askIn replies).next fails.throws)⟩

-- An invitation that is not admitted throws and leaves everything as it is; one that is commits its
-- rows and goes on to the mail.
theorem invite_steps (rows : List Row) :
    (admits core invitedBy input replies rows = true ∧
        Steps replies rows commitCalls (invite core tenantId invitedBy input) ⟨rows, none⟩
          (deliver tenantId input (replies .randomBytes) (input.locale.getD .es)
            (invited core invitedBy input replies))
          ⟨rows ++ newRows core invitedBy input replies, none⟩) ∨
      admits core invitedBy input replies rows = false ∧
        ∃ count error, Steps replies rows count (invite core tenantId invitedBy input) ⟨rows, none⟩
        (.fail error) ⟨rows, none⟩ := by
  obtain ⟨last, roles, is⟩ := checkRoles_steps input replies rows
  by_cases there : (rows.filter (Row.isRole input.role_ids.contains)).length = input.role_ids.length
  · rw [if_pos there] at is
    subst is
    obtain ⟨last, email, is⟩ := checkEmail_steps core input replies rows
    cases taken : rows.any (Row.isUser fun user => core.equalsInsensitive user.email input.email) with
    | false =>
      rw [taken] at is
      subst is
      rcases save_steps core invitedBy input replies rows with ⟨fit, saves⟩ | ⟨fit, count, fails⟩
      · have saved : Steps replies rows 11 _ ⟨rows, none⟩ (.ret (invited core invitedBy input replies))
            ⟨rows ++ newRows core invitedBy input replies, none⟩ := saves.handle isUniqueViolation
        refine .inl ⟨by simp [admits, there, taken, fit], ?_⟩
        exact roles.next (email.next ((Steps.ask Request.randomBytes).next (saved.next (.refl _ _))))
      · have refused : Steps replies rows count _ ⟨rows, none⟩ (.fail emailTaken) ⟨rows, none⟩ :=
          fails.handle isUniqueViolation
        exact .inr ⟨by simp [admits, fit], _, emailTaken,
          roles.next (email.next ((Steps.ask Request.randomBytes).next
          refused.throws))⟩
    | true =>
      rw [taken] at is
      subst is
      exact .inr ⟨by simp [admits, taken], _, _, roles.next email.throws⟩
  · rw [if_neg there] at is
    subst is
    exact .inr ⟨by simp [admits, there], _, _, roles.throws⟩

theorem deliver_steps (after : List Row) :
    ∃ last, Steps replies after 1 (deliver tenantId input (replies .randomBytes) (input.locale.getD .es)
        (invited core invitedBy input replies)) ⟨after, none⟩ last ⟨after, none⟩ ∧
      (delivered tenantId input replies = true ∧ (∃ dto, last = .ret dto) ∨
        delivered tenantId input replies = false ∧ last = .fail .mail) := by
  refine ⟨_, (Steps.ask (Request.sendInvite ..)).next (.refl _ _), ?_⟩
  unfold delivered
  cases replies (.sendInvite input.email (tenantId ++ "." ++
    replies .randomBytes) (input.locale.getD .es)) with
  | true => exact .inl ⟨rfl, _, rfl⟩
  | false => exact .inr ⟨rfl, rfl⟩

theorem newRows_grow : rows ++ newRows core invitedBy input replies ≠ rows := by
  intro same
  have lengths := congrArg List.length same
  simp only [newRows, List.length_append, List.length_cons, List.length_nil] at lengths
  omega

def Returns (rows : List Row) : Prop :=
  ∃ dto, (alone replies (invite core tenantId invitedBy input) rows).1 = .ok dto

/-- The tables are as before, and the call can be repeated. -/
structure Undone (before after : List Row) : Prop where
  same : after = before
  repeatable : ∀ later, Returns core tenantId invitedBy input later before →
    Returns core tenantId invitedBy input later after

theorem undone_refl (rows : List Row) : Undone core tenantId invitedBy input rows rows :=
  ⟨rfl, fun _ returns => returns⟩

def LeavesNothing (error : InviteError) (fault : Option Nat) (rows : List Row) : Prop :=
  ∀ thrown after, alone replies (faulty error fault (invite core tenantId invitedBy input)) rows =
    (.error thrown, after) →
    Undone core tenantId invitedBy input rows after

/-- A call that throws leaves nothing behind if it throws before its rows are committed, and only then. -/
theorem leaves_nothing_iff (error : InviteError) (fault : Option Nat) (rows : List Row) :
    LeavesNothing core tenantId invitedBy input replies error fault rows ↔
        admits core invitedBy input replies rows = false ∨ (∃ calls ∈ fault, calls < commitCalls) ∨
        delivered tenantId input replies = true ∧ ∀ calls ∈ fault, inviteCalls < calls := by
  have kept {thrown : InviteError} (ends : alone replies
    (faulty error fault (invite core tenantId invitedBy input)) rows =
      (.error thrown, rows)) : LeavesNothing core tenantId invitedBy input replies error fault rows := by
    intro other after throws
    rw [ends] at throws
    cases throws
    exact undone_refl core tenantId invitedBy input rows
  rcases invite_steps core tenantId invitedBy input replies rows with ⟨admitted,
    commits⟩ | ⟨refused, count, thrown, fails⟩
  · by_cases early : ∃ calls ∈ fault, calls < commitCalls
    · refine ⟨fun _ => .inr (.inl early), fun _ => ?_⟩
      obtain ⟨calls, rfl, early⟩ := early
      exact kept (commits.alone_early early)
    · have late : ∀ calls ∈ fault, commitCalls ≤ calls :=
        fun calls member => Nat.not_lt.mp fun before => early ⟨calls, member, before⟩
      have left {thrown : InviteError} (ends : alone replies
        (faulty error fault (invite core tenantId invitedBy input)) rows =
          (.error thrown, rows ++ newRows core invitedBy input replies)) :
          ¬ LeavesNothing core tenantId invitedBy input replies error fault rows :=
        fun nothing => newRows_grow core invitedBy input replies (nothing thrown _ ends).same
      have rest : alone replies (faulty error fault _) rows = _ := commits.alone_late late
      obtain ⟨last, delivers, ⟨sent, dto, is⟩ | ⟨unsent, is⟩⟩ :=
        deliver_steps core tenantId invitedBy input replies (rows ++ newRows core invitedBy input replies)
      · subst is
        rcases alone_returns error (fault.map (· - commitCalls)) delivers with ⟨returns,
          outlives⟩ | ⟨throws, short⟩
        · constructor
          · intro _
            refine .inr (.inr ⟨sent, fun calls member => ?_⟩)
            have more := outlives _ (Option.mem_map_of_mem (· - commitCalls) member)
            simp only [commitCalls, inviteCalls] at *
            omega
          · intro _ thrown after throws
            rw [rest, returns] at throws
            cases throws
        · constructor
          · rcases throws with throws | throws
            · exact fun nothing => absurd nothing (left (rest.trans throws))
            · exact fun nothing => absurd nothing (left (rest.trans throws))
          · rintro (refused | early' | ⟨_, outlives⟩)
            · rw [admitted] at refused
              cases refused
            · exact absurd early' early
            · obtain ⟨calls, member, few⟩ := short
              obtain ⟨given, here, same⟩ := Option.mem_map.mp member
              have more := outlives given here
              simp only [commitCalls, inviteCalls] at *
              omega
      · subst is
        obtain ⟨thrown, throws⟩ := alone_throws error (fault.map (· - commitCalls)) delivers
        constructor
        · exact fun nothing => absurd nothing (left (rest.trans throws))
        · rintro (refused | early' | ⟨sent, _⟩)
          · rw [admitted] at refused
            cases refused
          · exact absurd early' early
          · rw [unsent] at sent
            cases sent
  · refine ⟨fun _ => .inl refused, fun _ => ?_⟩
    obtain ⟨thrown', ends⟩ := alone_throws error fault fails
    exact kept ends

end

def plainCore : Core := ⟨id, id, fun a b => a == b⟩

def unsent : (request : Request) → request.Reply
  | .randomBytes => "token"
  | .userId => 10
  | .invitationId => 11
  | .now => 0
  | .sendInvite .. => false

def ann : InviteUserInput := ⟨"ann@example.org", [1], none⟩

/-- The mail server refuses the mail: the call throws, and the rows stay. -/
theorem rows_left_behind :
    ¬ ∀ (core : Core) (tenantId : String) (invitedBy : Uuid) (input : InviteUserInput)
      (replies : (request : Request) → request.Reply) (error : InviteError) (fault : Option Nat)
      (rows : List Row),
      LeavesNothing core tenantId invitedBy input replies error fault rows := by
  intro nothing
  have throws : alone unsent (invite plainCore "t" 2 ann) [.role 1] =
      (.error .mail, [.role 1, .user ⟨10, "ann@example.org", "ann@example.org", .es,
        .invited⟩, .userRole 10 1,
        .invitation ⟨11, 10, "ann@example.org", "token", [1], 2, INVITATION_TTL_MS⟩]) := by rfl
  have undone := nothing plainCore "t" 2 ann unsent .mail none [.role 1] .mail _ throws
  exact absurd (congrArg List.length undone.same) (by decide)

end OpenEmarsys.Invite
