import OpenEmarsys.Gdpr.Executions
import OpenEmarsys.Postgres.Undisturbed

/-! Requests that are over stay so, in runs whose executions keep out of each other's way. -/

set_option autoImplicit false

namespace OpenEmarsys.Gdpr

open Javascript Postgres Interleaving Gdpr.Core

section Calls

variable {core : Core} {first : List Row} {rules : Rules Operation
  (Action Row Label Request) State} {pid : Tid}
  {known : Log → Prop}

/-- A script keeps the journal, whatever comes of it. -/
abbrev Journals {α : Type} (core : Core) (first : List Row)
    (rules : Rules Operation (Action Row Label Request) State) (pid : Tid)
    (known : Log → Prop) (script : GdprScript α) : Prop :=
  (ledger core first).Learns respond rules pid known script fun _ _ => True

theorem journals_ret {α : Type} (value : α) : Journals core first rules pid known (.ret value) :=
  .ret (persists_const True) fun _ _ _ => trivial

theorem journals_fail {α : Type} (error : GdprError) : Journals core first rules pid known
    (.fail error : GdprScript α) :=
  .fail

theorem journals_of {α : Type} {script : GdprScript α} {post : α → Log → Prop}
    (learns : (ledger core first).Learns respond rules pid known script post) :
    Journals core first rules pid known script :=
  learns.weaken fun _ _ _ => trivial

theorem entitled_of_claim {id : Uuid} {label : Label} (own : ∀ other, label = .record other ∨
    label = .forget other ∨ label = .close other → other = id)
    (log : Log) (claimed : Claimed pid id log) : Entitled pid label log := by
  intro other is
  rw [own other is]
  exact claimed

theorem export_journals (req : GdprRequest) : Journals core first rules pid (Claimed pid req.id)
    (core.export_ req) := by
  have persists : Persists (Claimed pid req.id) := claimed_persists pid req.id
  unfold export_
  split
  · exact journals_fail _
  · refine .bind (learns_find persists _) fun found => ?_
    cases found with
    | none => exact journals_fail _
    | some found =>
      refine .bind (learns_call persists _) fun (document : Except String String) => ?_
      cases document with
      | error message => exact journals_fail _
      | ok doc =>
        refine .bind (learns_call persists _) fun (failure : Option String) => ?_
        refine .bind (learns_orElse (fun _ => persists) () failure) fun _ => ?_
        refine .bind (learns_call persists .now) fun (now : Time) =>
          journals_of (learns_updateRequest persists
          (entitled_of_claim (by simp)) req.id _ ?_)
        rintro old same
        rw [← same]
        exact .record _ now

theorem forget_journals (req : GdprRequest) : Journals core first rules pid (Claimed pid req.id)
    (core.forget req) := by
  have persists : Persists (Claimed pid req.id) := claimed_persists pid req.id
  unfold forget
  split
  · refine .bind (learns_call persists .now) fun (now : Time) => journals_of (learns_updateRequest persists
      (entitled_of_claim (by simp)) req.id _ ?_)
    rintro old same
    rw [← same]
    exact .close now
  · refine .bind (learns_erase persists req _ (entitled_of_claim (by simp))) fun staleExports => ?_
    induction staleExports with
    | nil => exact journals_ret ()
    | cons key rest ih => exact .bind (.bind (learns_call persists _) fun _ => .keep persists ()) fun _ => ih

theorem message_journals (error : GdprError) : Journals core first rules pid (fun _ => True)
    (message error) := by
  cases error with
  | error text => exact journals_ret text
  | notFound text => exact journals_ret text
  | _ => exact learns_call (persists_const True) _

theorem markFailed_journals (id : Uuid) (error : GdprError) :
    Journals core first rules pid (fun _ => True) (markFailed id error) := by
  refine Chronicle.Learns.handle (.bind (message_journals error) fun text => ?_) fun _ => journals_ret ()
  refine .bind (learns_call (persists_const True) .now)
    fun (now : Time) => journals_of (learns_updateRequest (persists_const True)
    (fun log _ => entitled_other (by simp) log) id _ ?_)
  rintro old rfl
  exact .fail now text

theorem run_journals (id : Uuid) : Journals core first rules pid (fun _ => True) (core.run id) := by
  refine Chronicle.Learns.handle ?_ fun error => markFailed_journals id error
  refine .bind (learns_claim id) fun rows => ?_
  split
  · exact journals_ret ()
  · next some_ =>
    have claimed : Persists (Claimed pid id) := claimed_persists pid id
    refine Chronicle.Learns.strengthen (.bind (learns_select claimed _) fun found => .fact fun matched => ?_)
      fun log held => held some_
    split
    · exact journals_fail _
    · next req rest head =>
      have member : req ∈ found.filterMap Row.request? := head ▸ List.mem_cons_self ..
      obtain ⟨row, present, isRequest⟩ := List.mem_filterMap.mp member
      cases row with
      | request row =>
        cases isRequest
        obtain rfl : req.id = id := beq_iff_eq.mp (matched _ present)
        split
        · exact export_journals req
        · exact forget_journals req
      | _ => cases isRequest

theorem request_journals (contactId : Uuid) (kind : RequestKind) (requestedBy : Option String) :
    Journals core first rules pid (fun _ => True) (Core.request contactId kind requestedBy) := by
  have anything : Persists fun _ : Log => True := persists_const True
  refine .bind (journals_of (learns_select anything _)) fun contacts => ?_
  split
  · exact journals_fail _
  · refine .bind (learns_call anything .newV7) fun (id : Uuid) => ?_
    refine .bind (learns_call anything .now) fun (now : Time) => ?_
    refine .bind (learns_ready anything ?_) fun _ => journals_ret id
    let new : GdprRequest :=
      { id := id, contactId := some contactId, kind := kind, requestedBy := requestedBy, requestedAt := now }
    have within : ∀ row ∈ [Row.request new], tableOf row = Area.requests := by
      intro row member
      rw [List.mem_singleton.mp member]
      rfl
    refine (Chronicle.Makes.insert Area.requests anything within).weaken fun result shared _ held => ?_
    cases result with
    | error error => trivial
    | ok rows =>
      refine held.imp (fun closed => closed) fun holding =>
        ⟨_, (moves_create core rfl : Moves core .create
          (Contents.empty.set Area.requests ⟨[], [.request new]⟩)), holding.weaken fun log _ => ?_⟩
      exact ⟨entitled_other (by simp) log, trivial⟩

theorem code_journals (operation : Operation) : Journals core first rules pid (fun _ => True)
    (operation.code core) := by
  cases operation with
  | request contactId kind requestedBy =>
    exact .bind (request_journals contactId kind requestedBy)
      fun _ => journals_ret ()
  | run id => exact run_journals id

end Calls

/-- What holds from a state of the requests to any later one. -/
structure Lifecycle (config later : Config) : Prop where
  /-- A request that is over keeps its status, its `completedAt` and, until an erasure, its result key. -/
  stays : ∀ row, .request row ∈ config.state.server.rows → row.status.ended = true →
    ∃ now, .request now ∈ later.state.server.rows ∧ Stays row now
  /-- It is not claimed again, and nobody writes another end of it. -/
  untouched : ∀ row, .request row ∈ config.state.server.rows → row.status.ended = true → ∀ past commit,
    config.state.server.log <+: past → past ++ [commit] <+: later.state.server.log →
    claims commit.tid row.id commit = false ∧ commit.tx.label.bind finalOf ≠ some row.id
  /-- A contact has at most one event of its erasure. -/
  once : ((deletions later.state.server.log).map Prod.snd).Nodup

section Runs
variable {core : Core} {rows : List Row} {rules : Rules Operation (Action Row Label Request) State}
  {config later : Config}

theorem run_journaled (apart : rows.Pairwise NoClash)
    (run : (machine respond).Reaches (Operation.code core) rules (.start (State.opening rows)) config) :
    (ledger core rows).Kept config.state.public :=
  Chronicle.journaled apart (fun _ operation => code_journals operation) trivial run

/-- In a run whose executions write the ends of requests in order. -/
theorem requests_lifecycle (core : Core) (rows : List Row) (apart : rows.Pairwise NoClash)
    (config later : Config)
    (run : (machine respond).Reaches (Operation.code core) {} (.start (State.opening rows)) config)
    (more : (machine respond).Reaches (Operation.code core) {} config later)
    (inOrder : Orderly later.state.server.log) :
    Lifecycle config later := by
  have keptConfig := run_journaled apart run
  have kept := run_journaled apart (run.trans more)
  have grown := reaches_log more
  have rowsConfig : config.state.server.rows = rowsAfter rows config.state.server.log := keptConfig.server
  have rowsLater : later.state.server.rows = rowsAfter rows later.state.server.log := kept.server
  refine ⟨fun row present ended => ?_, fun row present ended past commit since within => ?_,
    (deletions_once kept.journal).1⟩
  · rw [rowsLater]
    exact over_stays kept.journal inOrder grown (rowsConfig ▸ present) ended
  · have journal := kept.journal.prefix_ within
    have before := journal.prefix_ (List.prefix_append past [commit])
    obtain ⟨now, here, stays⟩ :=
      over_stays before (inOrder.earlier ((List.prefix_append past [commit]).trans within)) since
      (rowsConfig ▸ present) ended
    have found := over_untouched journal (inOrder past commit within) (journal.last.1 ▸ before.apart apart)
      (journal.last.1 ▸ here)
      (by rwa [stays.status])
    rwa [stays.id] at found

end Runs

def exampleCore : Core := ⟨9, fun _ => "0"⟩

def exampleCode : Operation → GdprScript Unit := Operation.code exampleCore

def exampleFirst : State := State.opening [.contact 7]

def plainCalls (pid : Tid) (count : Nat) : List (Move Operation Draw) :=
  List.replicate count (.act pid (.lost none))

/-- A contact asks for its data, and a process has stored them. -/
def stored : List (Move Operation Draw) :=
  .spawn 1 (.request 7 .export none) :: plainCalls 1 5 ++
    [.act 1 (.uuid 5), .act 1 (.time 0)] ++ plainCalls 1 5 ++
  .spawn 2 (.run 5) :: plainCalls 2 21 ++ [.act 2 (.document (.ok "{}")), .act 2 (.storage true none)]

def recorded : List (Move Operation Draw) := .act 2 (.time 8) :: plainCalls 2 5

/-- The same from a process that has started in the meantime, but fails. -/
def startedAgain : List (Move Operation Draw) := .spawn 3 (.run 5) :: plainCalls 3 21

def failedAgain : List (Move Operation Draw) := .act 3 (.document (.error "timeout")) :: .act 3
    (.time 9) :: plainCalls 3 5

theorem orderly_iff (log : Log) :
    (∀ i : Fin log.length, orderly (log.take i) (log.get i) = true) ↔ Orderly log := by
  rw [Orderly, forall_commits_iff]

instance (log : Log) : Decidable (Orderly log) := decidable_of_iff _ (orderly_iff log)

/-- A request is done, and a process that starts later does not execute it. -/
theorem requests_lifecycle_done : ∃ config later,
      (machine respond).moves exampleCode (stored ++ recorded) (.start exampleFirst) = some config ∧
      (machine respond).moves exampleCode (.spawn 3 (.run 5) :: plainCalls 3 5) config = some later ∧
      Lifecycle config later := by
  obtain ⟨config, ran⟩ := Option.isSome_iff_exists.mp (by decide :
    ((machine respond).moves exampleCode (stored ++ recorded) (.start exampleFirst)).isSome = true)
  have found : ((machine respond).moves exampleCode (stored ++
      recorded) (.start exampleFirst)).bind (fun config =>
      ((machine respond).moves exampleCode (.spawn 3 (.run 5) :: plainCalls 3 5) config).map fun later =>
        decide (Orderly later.state.server.log)) = some true := by decide
  rw [ran, Option.bind_some, Option.map_eq_some_iff] at found
  obtain ⟨later, ranLater, inOrder⟩ := found
  have run := (machine respond).reaches_moves exampleCode .refl _ ran
  have more := (machine respond).reaches_moves exampleCode .refl _ ranLater
  exact ⟨config, later, ran, ranLater,
    requests_lifecycle exampleCore [.contact 7] (by simp) config later run more
    (of_decide_eq_true inOrder)⟩

/-- Two processes execute the same request: the first has done it, and then the second fails and says so. -/
theorem done_then_failed :
    ¬ ∀ (core : Core) (rows : List Row) (config later : Config), rows.Pairwise NoClash →
      (machine respond).Reaches (Operation.code core) {} (.start (State.opening rows)) config →
      (machine respond).Reaches (Operation.code core) {} config later → Lifecycle config later := by
  intro lifecycle
  let run := stored ++ startedAgain ++ recorded
  obtain ⟨config, ran⟩ := Option.isSome_iff_exists.mp (by decide :
    ((machine respond).moves exampleCode run (.start exampleFirst)).isSome = true)
  have found : ((machine respond).moves exampleCode run (.start exampleFirst)).bind (fun config =>
      ((machine respond).moves exampleCode failedAgain config).map fun later =>
        (config.state.server.rows.filterMap Row.request?, later.state.server.rows.filterMap Row.request?)) =
      some ([exported ⟨9, 5⟩ 8 ⟨5, some 7, none, .export, .running, none, none, none, 0, none⟩],
        [failed 9 "timeout" (exported ⟨9, 5⟩ 8 ⟨5, some 7, none, .export, .running, none, none, none,
          0, none⟩)]) := by decide
  rw [ran, Option.bind_some, Option.map_eq_some_iff] at found
  obtain ⟨later, ranLater, same⟩ := found
  obtain ⟨before, after⟩ := Prod.mk.inj same
  have reached := (machine respond).reaches_moves exampleCode .refl _ ran
  have more := (machine respond).reaches_moves exampleCode .refl _ ranLater
  obtain ⟨row, present, isRequest⟩ := List.mem_filterMap.mp (before ▸ List.mem_singleton_self _ :
    exported ⟨9, 5⟩ 8 ⟨5, some 7, none, .export, .running, none, none, none, 0, none⟩ ∈
      config.state.server.rows.filterMap Row.request?)
  cases row with
  | request row =>
    cases isRequest
    obtain ⟨now, there, stays⟩ :=
      (lifecycle exampleCore [.contact 7] config later (by simp) reached more).stays _ present rfl
    have isLast : now ∈ later.state.server.rows.filterMap Row.request? :=
      List.mem_filterMap.mpr ⟨_, there, rfl⟩
    rw [after] at isLast
    cases List.mem_singleton.mp isLast
    exact absurd stays.status (by decide)
  | _ => cases isRequest

end OpenEmarsys.Gdpr
