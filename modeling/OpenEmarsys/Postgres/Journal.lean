import OpenEmarsys.Postgres.Public

/-! Journals: a run of the server as the sequence of its commits.

What each commit does is described once, from what its transaction read and locked;
an application then argues about the sequence and not about interleaved statements.
A fact about the log that more commits cannot spoil holds between any two calls.
-/

set_option autoImplicit false

namespace OpenEmarsys.Postgres

open Interleaving

variable {Row Label World : Type} [Indexed Row]

def rowsAfter (first : List Row) (log : List (Commit Row Label)) : List Row :=
  (log.getLast?.map Commit.after).getD first

@[simp] theorem rowsAfter_nil (first : List Row) : rowsAfter first
    ([] : List (Commit Row Label)) = first := rfl

@[simp] theorem rowsAfter_append (first : List Row) (log : List (Commit Row Label))
    (commit : Commit Row Label) :
    rowsAfter first (log ++ [commit]) = commit.after := by
  simp [rowsAfter]

/-- Each commit applies to the rows the earlier ones left, and is as `Effect` says. -/
inductive Journal (first : List Row) (Effect : List (Commit Row Label) → Commit Row Label → Prop) :
    List (Commit Row Label) → Prop where
  | start : Journal first Effect []
  | commit {log : List (Commit Row Label)} {commit : Commit Row Label} : Journal first Effect log →
      commit.before = rowsAfter first log → commit.after.Pairwise NoClash → Effect log commit →
      Journal first Effect (log ++ [commit])

namespace Journal

variable {first : List Row} {Effect : List (Commit Row Label) → Commit Row Label →
  Prop} {log past : List (Commit Row Label)}

theorem prefix_ (journal : Journal first Effect log) (earlier : past <+: log) :
    Journal first Effect past := by
  induction journal with
  | start => rw [List.prefix_nil.mp earlier]; exact .start
  | @commit log commit journal before apart effect ih =>
      rcases List.prefix_concat_iff.mp earlier with rfl | within
      · exact journal.commit before apart effect
      · exact ih within

theorem last {commit : Commit Row Label} (journal : Journal first Effect (log ++ [commit])) :
    commit.before = rowsAfter first log ∧ Effect log commit := by
  generalize whole : log ++ [commit] = all at journal
  cases journal with
  | start => simp at whole
  | commit journal before apart effect =>
      obtain ⟨rfl, same⟩ := List.append_inj' whole rfl
      cases same
      exact ⟨before, effect⟩

theorem entry {commit : Commit Row Label} (journal : Journal first Effect log)
    (earlier : past ++ [commit] <+: log) :
    commit.before = rowsAfter first past ∧ Effect past commit := (journal.prefix_ earlier).last

theorem apart (journal : Journal first Effect log) (initial : first.Pairwise NoClash) :
    (rowsAfter first log).Pairwise NoClash := by
  cases journal with
  | start => exact initial
  | commit journal before apart effect => rwa [rowsAfter_append]

theorem invariant (journal : Journal first Effect log) (holds : List (Commit Row Label) → Prop)
    (initial : holds [])
    (keeps : ∀ log commit, Journal first Effect log → commit.before = rowsAfter first log →
      commit.after.Pairwise NoClash →
      Effect log commit → holds log → holds (log ++ [commit])) : holds log := by
  induction journal with
  | start => exact initial
  | commit journal before apart effect ih => exact keeps _ _ journal before apart effect ih

end Journal

-- Conditions on each commit and the ones before it can be checked commit by commit.
theorem forall_commits_iff {Entry : Type} {holds : List Entry → Entry → Prop} {log : List Entry} :
    (∀ past commit, past ++ [commit] <+: log → holds past commit) ↔ ∀ i :
    Fin log.length, holds (log.take i) (log.get i) := by
  constructor
  · intro all i
    refine all _ _ ?_
    have next : log.take i ++ [log.get i] = log.take (i + 1) := by simp
    exact next ▸ List.take_prefix ..
  · rintro each past commit ⟨rest, rfl⟩
    simpa using each ⟨past.length, by simp⟩

/-- A fact that more commits leave true. -/
def Persists (known : List (Commit Row Label) → Prop) : Prop :=
  ∀ log next, log <+: next → known log → known next

theorem Persists.and {left right : List (Commit Row Label) → Prop} (first : Persists left)
    (second : Persists right) :
    Persists fun log => left log ∧ right log :=
  fun log next grown known => ⟨first log next grown known.1, second log next grown known.2⟩

theorem persists_const (fact : Prop) : Persists fun _ : List (Commit Row Label) => fact :=
  fun _ _ _ known => known

/-- A fact about the log as it was at some time. -/
def Once (fact : List (Commit Row Label) → Prop) (log : List (Commit Row Label)) : Prop :=
  ∃ past, past <+: log ∧ fact past

theorem once_persists (fact : List (Commit Row Label) → Prop) : Persists (Once fact) :=
  fun _ _ grown ⟨past, earlier, held⟩ => ⟨past, earlier.trans grown, held⟩

/-- What the journal of a run satisfies, and what it says of the world beside the database. -/
structure Chronicle (Row Label World : Type) [Indexed Row] where
  first : List Row
  Effect : List (Commit Row Label) → Commit Row Label → Prop
  Outside : List (Commit Row Label) → World → Prop
  outside : ∀ {log next world}, log <+: next → Outside log world → Outside next world

namespace Chronicle

variable (chronicle : Chronicle Row Label World)

structure Kept (state : Public Row Label World) : Prop where
  journal : Journal chronicle.first chronicle.Effect state.log
  rows : state.rows = rowsAfter chronicle.first state.log
  outside : chronicle.Outside state.log state.world

def public_ : PublicProtocol Row Label World where
  App := chronicle.Kept
  Grow _ state next := state.log <+: next.log
  refl _ _ := List.prefix_rfl
  trans := List.IsPrefix.trans

abbrev protocol : Protocol Row Label World := chronicle.public_.protocol

variable {chronicle}

theorem Kept.server {shared : Shared Row Label World} (kept : chronicle.Kept shared.public) :
    shared.server.rows = rowsAfter chronicle.first shared.server.log := kept.rows

theorem steady {known : List (Commit Row Label) → Prop} (persists : Persists known) (pid : Tid) :
    PublicProtocol.Steady chronicle.public_ pid fun state => known state.log :=
  fun _ _ _ _ grown held => persists _ _ grown held

theorem stable {known : List (Commit Row Label) → Prop} (persists : Persists known) (pid : Tid) :
    Stable chronicle.protocol.Rely chronicle.protocol.Inv pid fun shared => known shared.server.log :=
  (steady persists pid).stable

theorem commits {shared : Shared Row Label World} {pid : Tid} (inv : chronicle.protocol.Inv shared)
    (effect : chronicle.Effect shared.server.log ⟨pid, shared.server.rows, shared.server.txs pid⟩) :
    let next : Shared Row Label World := { shared with server := shared.server.commit pid }
    chronicle.Kept next.public ∧ shared.server.log <+: next.server.log := by
  obtain ⟨sane, journal, rows, outside⟩ := inv
  let commit : Commit Row Label := ⟨pid, shared.server.rows, shared.server.txs pid⟩
  have grown : shared.server.log <+: shared.server.log ++ [commit] := List.prefix_append ..
  refine ⟨⟨journal.commit rows ?_ effect, ?_, chronicle.outside grown outside⟩, grown⟩
  · exact (sane.fits pid).view_apart sane
  · exact (rowsAfter_append chronicle.first shared.server.log commit).symm

end Chronicle

/-- A transaction as it was when these transactions had committed. -/
structure Checkpoint (Row Label : Type) [Indexed Row] where
  log : List (Commit Row Label)
  tx : Tx Row Label

instance : Nonempty (Checkpoint Row Label) := ⟨⟨[], .idle⟩⟩

/-- What has held since a checkpoint: the rows it had locked stay, and no transaction that commits
has needed what it excludes. -/
structure Checkpoint.Since (first : List Row) (check : Checkpoint Row Label) (log : List (Commit Row Label))
    (tx : Tx Row Label) : Prop where
  earlier : check.log <+: log
  continues : Continues check.tx tx
  rows : ∀ past, check.log <+: past → past <+: log → ∀ row ∈ rowsAfter first check.log,
    check.tx.Locks (primary row) →
    row ∈ rowsAfter first past
  beside : ∀ past commit, check.log <+: past → past ++ [commit] <+: log → Beside check.tx commit

namespace Checkpoint

variable {first : List Row} {check : Checkpoint Row Label} {log : List (Commit Row Label)} {tx : Tx Row Label}

theorem Since.now (tx : Tx Row Label) (log : List (Commit Row Label)) : Since first ⟨log, tx⟩ log tx := by
  refine ⟨List.prefix_rfl, .refl tx, fun past left right row present _ => ?_,
    fun past commit left right => ?_⟩
  · exact (left.eq_of_length_le right.length_le) ▸ present
  · have longer : log.length ≤ past.length := left.length_le
    have within := right.length_le
    simp only [List.length_append, List.length_singleton] at within
    omega

theorem Since.follow {after : Tx Row Label} (since : Since first check log tx)
    (continues : Continues tx after) :
    Since first check log after :=
  ⟨since.earlier, since.continues.trans continues, since.rows, since.beside⟩

theorem prefix_cases {past log more : List (Commit Row Label)} (within : past <+: log ++ more) :
    past <+: log ∨ ∃ tail, tail ≠ [] ∧ tail <+: more ∧ past = log ++ tail := by
  rcases List.prefix_or_prefix_of_prefix within (List.prefix_append log more) with shorter | ⟨tail, rfl⟩
  · exact .inl shorter
  · by_cases empty : tail = []
    · exact .inl (by simp [empty])
    · exact .inr ⟨tail, empty, (List.prefix_append_right_inj log).mp within, rfl⟩

theorem Since.alongside {server next : Server Row Label} (rows : server.rows = rowsAfter first server.log)
    (since : Since first check server.log tx) (alongside : Alongside tx server next) :
    Since first check next.log tx := by
  obtain ⟨more, grown, besides⟩ := alongside.log
  rw [grown]
  refine ⟨since.earlier.trans (List.prefix_append ..), since.continues,
    fun past left right row present locked => ?_,
    fun past commit left right => ?_⟩
  · rcases prefix_cases right with shorter | ⟨tail, nonempty, within, rfl⟩
    · exact since.rows past left shorter row present locked
    · obtain ⟨start, last, rfl⟩ := List.eq_nil_or_concat tail |>.resolve_left nonempty
      have member : last ∈ more := within.subset (by simp)
      have here : row ∈ server.rows :=
        rows ▸ since.rows server.log since.earlier List.prefix_rfl row present locked
      rw [List.concat_eq_append, ← List.append_assoc, rowsAfter_append]
      exact (besides last member).2 row here (since.continues.locked locked)
  · rcases prefix_cases right with shorter | ⟨tail, nonempty, within, same⟩
    · exact since.beside past commit left shorter
    · obtain ⟨start, last, rfl⟩ := List.eq_nil_or_concat tail |>.resolve_left nonempty
      rw [List.concat_eq_append, ← List.append_assoc] at same
      obtain ⟨-, same⟩ := List.append_inj' same rfl
      cases same
      obtain ⟨locks, shared, strong⟩ := (besides commit (within.subset (by simp))).1
      exact ⟨fun key held => locks key (since.continues.locked held),
        fun key held => shared key (since.continues.shares held),
        fun key held mine => strong key held (since.continues.strong mine)⟩

end Checkpoint

end OpenEmarsys.Postgres
