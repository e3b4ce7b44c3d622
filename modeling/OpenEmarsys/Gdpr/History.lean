import OpenEmarsys.Gdpr.Requests

/-! What becomes of a request, as a journal of commits.

A request is over when somebody writes its end. Nobody writes the end of a request that is over,
as long as no two executions of it get in each other's way.
-/

set_option autoImplicit false

namespace OpenEmarsys.Gdpr

open Javascript Postgres Gdpr.Core

/-- What a commit of this kind may do to a request. -/
inductive Transition (core : Core) : Label → GdprRequest → GdprRequest → Prop where
  | claim {old : GdprRequest} : old.status.ended = false → Transition core (.claim old.id) old (claimed old)
  | record {old : GdprRequest} (key : ExportKey) (now : Time) : Transition core (.record old.id) old
    (exported key now old)
  | close {old : GdprRequest} (now : Time) : Transition core (.close old.id) old (closed now old)
  | forget {old : GdprRequest} (now : Time) : Transition core (.forget old.id) old (closed now old)
  | forgetErased {old : GdprRequest} (now : Time) (contactId : Uuid) :
      Transition core (.forget old.id) old (closed now (core.erased contactId old))
  /-- The erasure of its contact by another request. -/
  | erase {old : GdprRequest} (id contactId : Uuid) : id ≠ old.id →
    Transition core (.forget id) old (core.erased contactId old)
  | fail {old : GdprRequest} (now : Time) (message : String) : Transition core (.fail old.id) old
    (failed now message old)

def finalOf : Label → Option Uuid
  | .record id | .forget id | .close id | .fail id => some id
  | .read | .create | .claim _ => none

structure Erased (row now : GdprRequest) : Prop where
  id : now.id = row.id
  status : now.status = row.status
  completedAt : now.completedAt = row.completedAt
  resultKey : now.resultKey = none
  contactId : now.contactId = none

section Transition
variable {core : Core} {label : Label} {old new : GdprRequest}

theorem Transition.id (moves : Transition core label old new) : new.id = old.id := by
  cases moves <;> rfl

-- A request changes otherwise than by its end only while it is claimed, or when its contact is erased.
theorem Transition.other (moves : Transition core label old new) (other : finalOf label ≠ some old.id) :
    (old.status.ended = false ∧ new.status = .running) ∨ Erased old new := by
  cases moves with
  | claim isOpen => exact .inl ⟨isOpen, rfl⟩
  | erase id contactId distinct => exact .inr ⟨rfl, rfl, rfl, rfl, rfl⟩
  | _ => exact absurd rfl other

theorem Transition.claimed (moves : Transition core label old new) {id : Uuid} (isClaim : label = .claim id) :
    old.id = id ∧ old.status.ended = false ∧ new.status = .running := by
  cases moves with
  | claim isOpen =>
    cases isClaim
    exact ⟨rfl, isOpen, rfl⟩
  | _ => cases isClaim

end Transition

def claims (pid : Tid) (id : Uuid) (commit : Commit Row Label) : Bool :=
  commit.tid == pid && commit.tx.label == some (.claim id) &&
    commit.tx.added.any (Row.isRequest fun row => row.id == id)

def Claimed (pid : Tid) (id : Uuid) (log : Log) : Prop := ∃ commit ∈ log, claims pid id commit = true

theorem claimed_persists (pid : Tid) (id : Uuid) : Persists (Claimed pid id) := by
  rintro log next grown ⟨commit, member, claim⟩
  exact ⟨commit, grown.subset member, claim⟩

/-- What any commit does to requests, contacts and events. -/
structure Effect (core : Core) (log : Log) (commit : Commit Row Label) : Prop where
  added : ∀ row, .request row ∈ commit.tx.added → (commit.tx.label = some .create ∧ row.status = .pending) ∨
      ∃ old, .request old ∈ commit.before ∧ ∃ label, commit.tx.label = some label ∧
      Transition core label old row
  removed : ∀ old, .request old ∈ commit.before → .request old.id ∈ commit.tx.removed →
      ∃ row, .request row ∈ commit.tx.added ∧ ∃ label, commit.tx.label = some label ∧
      Transition core label old row
  contacts : ∀ id, .contact id ∉ commit.tx.added
  /-- The event goes with the row of the contact. -/
  deleted : ∀ id contactId, .deleted id contactId ∈ commit.tx.added → .contact contactId ∈ commit.before ∧
      .contact contactId ∈ commit.tx.removed ∧ ∀ other another,
      .deleted other another ∈ commit.tx.added → other = id
  /-- Only who has claimed a request writes its result. -/
  claimed : ∀ id, commit.tx.label = some (.record id) ∨ commit.tx.label = some (.forget id) ∨
    commit.tx.label = some (.close id) →
    Claimed commit.tid id log

section Effect
variable {core : Core} {log : Log} {commit : Commit Row Label} {row : GdprRequest}

theorem Effect.after (effect : Effect core log commit) (present : .request row ∈ commit.after) :
    .request row ∈ commit.before ∨ row.status = .pending ∨
      ∃ old, .request old ∈ commit.before ∧ ∃ label, commit.tx.label = some label ∧
      Transition core label old row := by
  rcases Tx.mem_view.mp present with ⟨before, -⟩ | added
  · exact .inl before
  · exact .inr ((effect.added row added).imp And.right id)

theorem Effect.before (effect : Effect core log commit) (present : .request row ∈ commit.before) :
    .request row ∈ commit.after ∨ ∃ new, .request new ∈ commit.after ∧ ∃ label, commit.tx.label = some label ∧
      Transition core label row new := by
  by_cases removes : commit.tx.removes (.request row) = true
  · obtain ⟨new, added, moves⟩ := effect.removed row present (Tx.removes_iff.mp removes)
    exact .inr ⟨new, Tx.mem_view.mpr (.inr added), moves⟩
  · exact .inl (Tx.mem_view.mpr (.inl ⟨present, by simpa using removes⟩))

end Effect

def sinceClaim (pid : Tid) (id : Uuid) : Log → Option Log
  | [] => none
  | commit :: rest => if claims pid id commit then some rest else sinceClaim pid id rest

/-- The end of a request is written by an execution since whose claim nobody has written it; by one whose
claim has not been answered, only while the request is not over. -/
def orderly (past : Log) (commit : Commit Row Label) : Bool :=
  match commit.tx.label.bind finalOf with
  | none => true
  | some id =>
      match sinceClaim commit.tid id past with
      | some rest => rest.all fun other => other.tx.label.bind finalOf != some id
      | none =>
          commit.tx.label != some (.fail id) ||
            commit.before.all fun row => !(Row.isRequest
              fun request => request.id == id && request.status.ended) row

/-- In this order has every end of a request been written. -/
def Orderly (log : Log) : Prop := ∀ past commit, past ++ [commit] <+: log → orderly past commit = true

theorem Orderly.earlier {past log : Log} (inOrder : Orderly log) (earlier : past <+: log) : Orderly past :=
  fun before commit within => inOrder before commit (within.trans earlier)

theorem since_of_claim {pid : Tid} {id : Uuid} {log rest : Log} (found : sinceClaim pid id log = some rest) :
    ∃ before claim, log = before ++ claim :: rest ∧ claims pid id claim = true := by
  induction log with
  | nil => cases found
  | cons commit log ih =>
    simp only [sinceClaim] at found
    split at found
    · next claim =>
      cases found
      exact ⟨[], commit, rfl, claim⟩
    · obtain ⟨before, claim, same, isClaim⟩ := ih found
      exact ⟨commit :: before, claim, by rw [same]; rfl, isClaim⟩

theorem claim_of_claimed {pid : Tid} {id : Uuid} {log : Log} (claimed : Claimed pid id log) :
    ∃ rest, sinceClaim pid id log = some rest := by
  obtain ⟨commit, member, claim⟩ := claimed
  induction log with
  | nil => cases member
  | cons head log ih =>
    simp only [sinceClaim]
    split
    · exact ⟨log, rfl⟩
    · next free =>
      rcases List.mem_cons.mp member with rfl | within
      · exact absurd claim free
      · exact ih within

def Open (id : Uuid) (rows : List Row) : Prop := ∀ row, .request row ∈ rows → row.id = id →
    row.status.ended = false

section Journal
variable {core : Core} {first : List Row} {log past : Log} {row : GdprRequest}

theorem same_request {rows : List Row} (apart : rows.Pairwise NoClash) {row other : GdprRequest}
    (here : .request row ∈ rows) (there : .request other ∈ rows) (same : row.id = other.id) : row = other :=
  Row.request.inj (eq_of_primary apart here there (congrArg IndexKey.request same))

theorem open_of_claim {pid : Tid} {id : Uuid} {commit : Commit Row Label} (effect : Effect core log commit)
    (apart : commit.after.Pairwise NoClash) (claim : claims pid id commit = true) : Open id commit.after := by
  simp only [claims, Bool.and_eq_true, beq_iff_eq, List.any_eq_true] at claim
  obtain ⟨⟨-, isClaim⟩, added, member, isRequest⟩ := claim
  intro row present same
  cases added with
  | request new =>
    have after : .request new ∈ commit.after := Tx.mem_view.mpr (.inr member)
    obtain rfl : row = new := same_request apart present after (same.trans (beq_iff_eq.mp isRequest).symm)
    rcases effect.added row member with ⟨isCreate, -⟩ | ⟨old, -, label, isLabel, moves⟩
    · rw [isCreate] at isClaim
      cases isClaim
    · rw [isLabel] at isClaim
      rw [(moves.claimed (Option.some.inj isClaim)).2.2]
      rfl
  | _ => cases isRequest

theorem open_step {id : Uuid} {commit : Commit Row Label} (effect : Effect core log commit)
    (isOpen : Open id commit.before)
    (other : commit.tx.label.bind finalOf ≠ some id) : Open id commit.after := by
  intro row present same
  rcases effect.after present with before | pending | ⟨old, before, label, isLabel, moves⟩
  · exact isOpen row before same
  · rw [pending]
    rfl
  · have isOld : old.id = id := moves.id.symm.trans same
    rcases moves.other (by rw [isOld]; rwa [isLabel] at other) with ⟨-, running⟩ | erased
    · rw [running]
      rfl
    · rw [erased.status]
      exact isOpen old before isOld

theorem open_since {pid : Tid} {id : Uuid} (journal : Journal first (Effect core) log) {before rest : Log}
    {claim : Commit Row Label} (same : log = before ++ claim :: rest) (isClaim : claims pid id claim = true)
    (alone : ∀ other ∈ rest, other.tx.label.bind finalOf ≠ some id) : Open id (rowsAfter first log) := by
  induction journal generalizing rest with
  | start => simp at same
  | @commit log commit journal rows apart effect ih =>
    rw [rowsAfter_append]
    rcases List.eq_nil_or_concat rest with rfl | ⟨middle, last, rfl⟩
    · obtain ⟨-, last⟩ := List.append_inj' same rfl
      cases last
      exact open_of_claim effect apart isClaim
    · have shape : log ++ [commit] = (before ++ claim :: middle) ++ [last] := by simpa using same
      obtain ⟨earlier, isLast⟩ := List.append_inj' shape rfl
      cases isLast
      refine open_step effect (rows ▸ ih earlier fun other member => alone other (by simp [member]))
        (alone commit (by simp))

theorem final_finds_open {commit : Commit Row Label}
    (journal : Journal first (Effect core) (past ++ [commit]))
    (inOrder : orderly past commit = true) {id : Uuid} (final : commit.tx.label.bind finalOf = some id) :
    Open id commit.before := by
  obtain ⟨rows, effect⟩ := journal.last
  simp only [orderly, final] at inOrder
  split at inOrder
  · next rest found =>
    obtain ⟨before, claim, same, isClaim⟩ := since_of_claim found
    rw [rows]
    refine open_since (journal.prefix_ (List.prefix_append ..)) same isClaim fun other member => ?_
    simpa using List.all_eq_true.mp inOrder other member
  · next unclaimed =>
    obtain ⟨label, isLabel, isFinal⟩ := Option.bind_eq_some_iff.mp final
    have claimed : ∀ id, label = .record id ∨ label = .forget id ∨ label = .close id →
        Claimed commit.tid id past := by
      intro id is
      exact effect.claimed id (by rwa [isLabel, Option.some.injEq, Option.some.injEq, Option.some.injEq])
    have failing : label = .fail id := by
      cases label with
      | fail other => exact congrArg Label.fail (Option.some.inj isFinal)
      | record other | forget other | close other =>
        cases isFinal
        obtain ⟨rest, found⟩ := claim_of_claimed (claimed id (by simp))
        rw [unclaimed] at found
        cases found
      | _ => cases isFinal
    intro row present same
    rw [isLabel, failing] at inOrder
    have free : ∀ row ∈ commit.before,
        Row.isRequest (fun request => request.id == id && request.status.ended) row = false := by
      simpa using inOrder
    simpa [Row.isRequest, same] using free _ present

/-- A request that is over stays as it is, but for what an erasure takes away. -/
def Stays (row now : GdprRequest) : Prop := now = row ∨ Erased row now

theorem Stays.trans {row now later : GdprRequest} (first : Stays row now)
    (second : Stays now later) : Stays row later := by
  rcases second with rfl | second
  · exact first
  · rcases first with rfl | first
    · exact .inr second
    · exact .inr ⟨second.id.trans first.id, second.status.trans first.status,
        second.completedAt.trans first.completedAt,
        second.resultKey, second.contactId⟩

theorem Stays.id {row now : GdprRequest} (stays : Stays row now) : now.id = row.id := by
  rcases stays with rfl | erased
  · rfl
  · exact erased.id

theorem Stays.status {row now : GdprRequest} (stays : Stays row now) : now.status = row.status := by
  rcases stays with rfl | erased
  · rfl
  · exact erased.status

theorem over_step {commit : Commit Row Label} (journal : Journal first (Effect core) (past ++ [commit]))
    (inOrder : orderly past commit = true) (present : .request row ∈ commit.before)
    (ended : row.status.ended = true) :
    ∃ now, .request now ∈ commit.after ∧ Stays row now := by
  obtain ⟨-, effect⟩ := journal.last
  rcases effect.before present with after | ⟨new, after, label, isLabel, moves⟩
  · exact ⟨row, after, .inl rfl⟩
  · refine ⟨new, after, .inr ?_⟩
    have other : finalOf label ≠ some row.id := by
      intro final
      have writes : commit.tx.label.bind finalOf = some row.id := by rw [isLabel]; exact final
      have isOpen := final_finds_open journal inOrder writes
      exact absurd ended (by simp [isOpen row present rfl])
    rcases moves.other other with ⟨isOpen, -⟩ | erased
    · exact absurd ended (by simp [isOpen])
    · exact erased

theorem over_stays (journal : Journal first (Effect core) log) (inOrder : Orderly log)
    (earlier : past <+: log)
    (present : .request row ∈ rowsAfter first past) (ended : row.status.ended = true) :
    ∃ now, .request now ∈ rowsAfter first log ∧ Stays row now := by
  induction journal with
  | start =>
    rw [List.prefix_nil.mp earlier] at present
    exact ⟨row, present, .inl rfl⟩
  | @commit log commit journal rows apart effect ih =>
    rcases List.prefix_concat_iff.mp earlier with rfl | within
    · exact ⟨row, present, .inl rfl⟩
    · obtain ⟨middle, here, stays⟩ := ih (inOrder.earlier (List.prefix_append ..)) within
      obtain ⟨now, after, still⟩ :=
        over_step (journal.commit rows apart effect) (inOrder log commit List.prefix_rfl)
        (rows ▸ here) (by rwa [stays.status])
      exact ⟨now, by rwa [rowsAfter_append], stays.trans still⟩

theorem over_untouched {commit : Commit Row Label} (journal : Journal first (Effect core) (past ++ [commit]))
    (inOrder : orderly past commit = true) (apart : commit.before.Pairwise NoClash)
    (present : .request row ∈ commit.before)
    (ended : row.status.ended = true) : claims commit.tid row.id commit = false ∧
    commit.tx.label.bind finalOf ≠ some row.id := by
  obtain ⟨-, effect⟩ := journal.last
  constructor
  · by_contra claim
    simp only [claims, Bool.not_eq_false, Bool.and_eq_true, beq_iff_eq, List.any_eq_true] at claim
    obtain ⟨⟨-, isClaim⟩, added, member, isRequest⟩ := claim
    cases added with
    | request new =>
      rcases effect.added new member with ⟨isCreate, -⟩ | ⟨old, before, label, isLabel, moves⟩
      · rw [isCreate] at isClaim
        cases isClaim
      · rw [isLabel] at isClaim
        obtain ⟨same, isOpen, -⟩ := moves.claimed (Option.some.inj isClaim)
        cases same_request apart before present same
        exact absurd ended (by simp [isOpen])
    | _ => cases isRequest
  · intro final
    exact absurd ended (by simp [final_finds_open journal inOrder final row present rfl])

end Journal

def deletedIn (commit : Commit Row Label) : List (Uuid × Uuid) :=
  commit.tx.added.filterMap fun
    | .deleted id contactId => some (id, contactId)
    | _ => none

/-- The events of erased contacts that were ever appended to the outbox. -/
def deletions (log : Log) : List (Uuid × Uuid) := log.flatMap deletedIn

theorem mem_deletedIn {commit : Commit Row Label} {id contactId : Uuid} :
    (id, contactId) ∈ deletedIn commit ↔ .deleted id contactId ∈ commit.tx.added := by
  simp only [deletedIn, List.mem_filterMap]
  constructor
  · rintro ⟨row, member, same⟩
    cases row with
    | deleted other another =>
      cases same
      exact member
    | _ => cases same
  · exact fun member => ⟨_, member, rfl⟩

section Events
variable {core : Core} {first : List Row} {log : Log}

theorem deletedIn_nodup {commit : Commit Row Label} (effect : Effect core log commit)
    (apart : commit.after.Pairwise NoClash) :
    ((deletedIn commit).map Prod.snd).Nodup := by
  have added : commit.tx.added.Pairwise NoClash := (List.pairwise_append.mp apart).2.1
  rw [List.Nodup, List.pairwise_map, deletedIn, List.pairwise_filterMap]
  refine (added.imp_of_mem ?_)
  intro row other member another clear event isEvent later isLater
  cases row with
  | deleted id contactId =>
    cases other with
    | deleted otherId otherContact =>
      have same := (effect.deleted id contactId member).2.2 otherId otherContact another
      have meets : clash (Row.deleted id contactId) (.deleted otherId otherContact) = true :=
        clash_of_sameRow (sameRow_iff.mpr (congrArg IndexKey.deleted same.symm))
      rw [NoClash, meets] at clear
      cases clear
    | _ => cases isLater
  | _ => cases isEvent

theorem deletions_once (journal : Journal first (Effect core) log) :
    ((deletions log).map Prod.snd).Nodup ∧ ∀ id contactId, (id, contactId) ∈ deletions log →
    .contact contactId ∉ rowsAfter first log := by
  refine journal.invariant (fun log => ((deletions log).map Prod.snd).Nodup ∧
      ∀ id contactId, (id, contactId) ∈ deletions log → .contact contactId ∉ rowsAfter first log) ⟨.nil,
      fun _ _ absurd_ => by cases absurd_⟩ ?_
  rintro log commit - before apart effect ⟨once, gone⟩
  have shape : deletions (log ++ [commit]) = deletions log ++ deletedIn commit := by simp [deletions]
  have stays : ∀ id, .contact id ∈ commit.after → .contact id ∈ commit.before ∧
      .contact id ∉ commit.tx.removed := by
    intro id after
    rcases Tx.mem_view.mp after with ⟨present, kept⟩ | added
    · have removes : commit.tx.removes (.contact id) = true ↔
        IndexKey.contact id ∈ commit.tx.removed := Tx.removes_iff
      exact ⟨present, fun removed => by simp [removes.mpr removed] at kept⟩
    · exact absurd added (effect.contacts id)
  rw [shape, List.map_append, List.nodup_append]
  refine ⟨⟨once, deletedIn_nodup effect apart, ?_⟩, ?_⟩
  · rintro contactId earlier other now rfl
    obtain ⟨⟨id, _⟩, member, rfl⟩ := List.mem_map.mp earlier
    obtain ⟨⟨another, _⟩, appended, same⟩ := List.mem_map.mp now
    cases same
    exact gone _ _ member (before ▸ (effect.deleted _ _ (mem_deletedIn.mp appended)).1)
  · intro id contactId member
    rw [rowsAfter_append]
    intro after
    obtain ⟨present, kept⟩ := stays contactId after
    rcases List.mem_append.mp member with earlier | now
    · exact gone id contactId earlier (before ▸ present)
    · exact kept (effect.deleted id contactId (mem_deletedIn.mp now)).2.1

end Events

end OpenEmarsys.Gdpr
