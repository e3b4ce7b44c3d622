import OpenEmarsys.Chx.Batcher

/-! The batcher conserves rows, as long as a failing insert carries the rows of its own call only.

A row that was appended is in one place, or an insert of its own call failed. Whoever
takes rows moves them from one place to the next; nobody copies them.
-/

set_option autoImplicit false

namespace OpenEmarsys.Chx

open Interleaving

variable {ρ : Type}

/-- Where the client fails, all rows of the insert are of the call of `BatchInsert` that runs it. -/
def owned (pid : Nat) : Act ρ → Choice → Batcher ρ → Bool
  | _, .client (some _), batcher => (batcher.inFlight pid).all (·.call = pid)
  | _, _, _ => true

-- The entries of two parts of a list, in any order, are those of the list.
theorem map_filter_perm {α β : Type} (f : α → β) (chosen : α → Bool) (list : List α) :
    ((list.filter chosen).map f ++ (list.filter (!chosen ·)).map f).Perm (list.map f) := by
  rw [← List.map_append]
  exact (List.filter_append_perm chosen list).map f

namespace Batcher

variable (batcher : Batcher ρ) (pid : Nat)

theorem inFlight_perm :
    (batcher.inFlight pid ++ (batcher.inserting.filter (·.1 ≠ pid)).map Prod.snd).Perm
    (batcher.inserting.map Prod.snd) := by
  have parts := map_filter_perm Prod.snd (fun held : Nat × Entry ρ => decide (held.1 = pid)) batcher.inserting
  simpa only [inFlight, decide_not] using parts

theorem places_append (table : String) (rows : List ρ) :
    (batcher.append pid table rows).places.Perm (entries pid table rows ++ batcher.places) := by
  simp only [places, append, List.append_assoc]
  refine (List.Perm.append_left _ (List.perm_append_comm_assoc ..)).trans ?_
  exact List.perm_append_comm_assoc ..

theorem places_take (table : String) : (batcher.take pid table).places.Perm batcher.places := by
  have parts := List.filter_append_perm (fun entry : Entry ρ => decide (entry.table = table)) batcher.buffered
  have held : (List.map Prod.snd (batcher.inserting ++ (batcher.buffer table).map (pid, ·))) =
      batcher.inserting.map Prod.snd ++ batcher.buffer table := by
    simp [List.map_append, Function.comp_def]
  simp only [places, take, held, List.append_assoc]
  refine List.Perm.append_left _ ?_
  calc batcher.buffered.filter (·.table ≠ table) ++ (batcher.inserting.map Prod.snd ++ batcher.buffer table)
      _ |>.Perm (batcher.inserting.map Prod.snd ++ (batcher.buffered.filter (·.table ≠ table) ++
          batcher.buffer table)) :=
        List.perm_append_comm_assoc ..
      _ |>.Perm (batcher.inserting.map Prod.snd ++ (batcher.buffer table ++
          batcher.buffered.filter (·.table ≠ table))) :=
        List.Perm.append_left _ List.perm_append_comm
      _ |>.Perm (batcher.inserting.map Prod.snd ++ batcher.buffered) := by
        refine List.Perm.append_left _ ?_
        simpa only [buffer, decide_not] using parts
      _ |>.Perm (batcher.buffered ++ batcher.inserting.map Prod.snd) := List.perm_append_comm

theorem places_store (table : String) (own : ∀ entry ∈ batcher.inFlight pid, entry.table = table) :
    (batcher.store pid ⟨"INSERT INTO " ++ table, batcher.inFlight pid⟩).places.Perm batcher.places := by
  have stored : (batcher.store pid ⟨"INSERT INTO " ++ table, batcher.inFlight pid⟩).stored =
      batcher.stored ++ batcher.inFlight pid := by
    have all : (batcher.inFlight pid).filter (fun entry => "INSERT INTO " ++
      table = "INSERT INTO " ++ entry.table) =
        batcher.inFlight pid := List.filter_eq_self.mpr fun entry member => by simp [own entry member]
    simpa [Batcher.stored, store, List.filter_append, List.filter_map, Function.comp_def] using all
  simp only [places, stored, List.append_assoc]
  refine List.Perm.append_left _ ?_
  exact (List.perm_append_comm_assoc ..).trans (List.Perm.append_left _ (batcher.inFlight_perm pid))

theorem places_abandon : (batcher.inFlight pid ++ (batcher.abandon pid).places).Perm batcher.places := by
  simp only [places, abandon, List.append_assoc]
  refine (List.perm_append_comm_assoc ..).trans (List.Perm.append_left _ ?_)
  exact (List.perm_append_comm_assoc ..).trans (List.Perm.append_left _ (batcher.inFlight_perm pid))

end Batcher

theorem mem_entries {pid : Nat} {table : String} {rows : List ρ} {entry : Entry ρ}
    (member : entry ∈ entries pid table rows) :
    entry.call = pid := by
  rw [entries, List.mem_mapIdx] at member
  obtain ⟨index, bound, rfl⟩ := member
  rfl

theorem entries_nodup (pid : Nat) (table : String) (rows : List ρ) : (entries pid table rows).Nodup := by
  refine List.Nodup.of_map (·.index) ?_
  have indices : (entries pid table rows).map (·.index) = List.range rows.length := by
    refine List.ext_getElem (by simp [entries]) fun index _ _ => by simp [entries]
  rw [indices]
  exact List.nodup_range

/-- Rows that were appended are in one place, unless an insert of their own call failed. -/
structure Kept (batcher : Batcher ρ) : Prop where
  nodup : batcher.places.Nodup
  known : ∀ entry ∈ batcher.places, entry ∈ batcher.appended
  placed : ∀ entry ∈ batcher.appended, entry ∈ batcher.places ∨ entry.call ∈ batcher.failed

/-- The others keep the invariant, and leave a process its own rows and its own failures. -/
structure Alongside (pid : Nat) (batcher next : Batcher ρ) : Prop where
  kept : Kept batcher → Kept next
  appended : ∀ entry ∈ batcher.appended, entry ∈ next.appended
  own : ∀ entry ∈ next.appended, entry.call = pid → entry ∈ batcher.appended
  inFlight : next.inFlight pid = batcher.inFlight pid
  batches : next.batches pid = batcher.batches pid
  failed : pid ∈ next.failed → pid ∈ batcher.failed

structure Fresh (pid : Nat) (batcher : Batcher ρ) : Prop where
  appended : ∀ entry ∈ batcher.appended, entry.call ≠ pid
  inFlight : batcher.inFlight pid = []
  failed : pid ∉ batcher.failed

theorem Alongside.refl (pid : Nat) (batcher : Batcher ρ) : Alongside pid batcher batcher :=
  ⟨fun kept => kept, fun _ member => member, fun _ member _ => member, rfl, rfl, fun member => member⟩

theorem discipline (maxRows : Int) :
    Discipline ((machine (ρ := ρ) maxRows).restrict owned) running Alongside Kept Fresh where
  refl := Alongside.refl
  trans first second :=
    { kept := fun kept => second.kept (first.kept kept)
      appended := fun entry member => second.appended entry (first.appended entry member)
      own := fun entry member mine => first.own entry (second.own entry member mine) mine
      inFlight := second.inFlight.trans first.inFlight
      batches := second.batches.trans first.batches
      failed := fun member => first.failed (second.failed member) }
  inv kept along := along.kept kept
  idle _ fresh along :=
    { appended := fun entry member mine => fresh.appended entry (along.own entry member mine) mine
      inFlight := along.inFlight.trans fresh.inFlight
      failed := fun member => fresh.failed (along.failed member) }
  disturb _ _ taken := nomatch taken
  crash _ never := nomatch never

theorem Kept.perm {batcher next : Batcher ρ} (kept : Kept batcher) (same : next.places.Perm batcher.places)
    (appended : next.appended = batcher.appended) (failed : next.failed = batcher.failed) : Kept next where
  nodup := same.nodup_iff.mpr kept.nodup
  known entry member := appended ▸ kept.known entry (same.mem_iff.mp member)
  placed entry member := by
    rw [same.mem_iff, failed]
    exact kept.placed entry (appended ▸ member)

-- Only the rows of the insert go, and they are of the call whose insert fails.
theorem Kept.abandon {batcher : Batcher ρ} {pid : Nat} (kept : Kept batcher)
    (own : ∀ entry ∈ batcher.inFlight pid, entry.call = pid) : Kept (batcher.abandon pid) := by
  have parts := batcher.places_abandon pid
  have distinct : (batcher.inFlight pid ++ (batcher.abandon pid).places).Nodup :=
    parts.nodup_iff.mpr kept.nodup
  refine ⟨(List.nodup_append.mp distinct).2.1, fun entry member => ?_, fun entry member => ?_⟩
  · exact kept.known entry (parts.mem_iff.mp (List.mem_append_right _ member))
  · rcases kept.placed entry member with placed | failed
    · rcases List.mem_append.mp (parts.mem_iff.mpr placed) with carried | elsewhere
      · exact .inr (own entry carried ▸ List.mem_cons_self ..)
      · exact .inl elsewhere
    · exact .inr (List.mem_cons_of_mem _ failed)

theorem Kept.append {batcher : Batcher ρ} {pid : Nat} (kept : Kept batcher) (fresh : Fresh pid batcher)
    (table : String) (rows : List ρ) : Kept (batcher.append pid table rows) := by
  have parts := batcher.places_append pid table rows
  refine ⟨parts.nodup_iff.mpr ?_, fun entry member => ?_, fun entry member => ?_⟩
  · refine List.nodup_append.mpr ⟨entries_nodup pid table rows, kept.nodup,
      fun entry new other old same => ?_⟩
    exact fresh.appended other (kept.known other old) (same ▸ mem_entries new)
  · rcases List.mem_append.mp (parts.mem_iff.mp member) with new | old
    · exact List.mem_append_right _ new
    · exact List.mem_append_left _ (kept.known entry old)
  · rw [parts.mem_iff]
    rcases List.mem_append.mp member with old | new
    · exact (kept.placed entry old).imp_left (List.mem_append_right _)
    · exact .inl (List.mem_append_left _ new)

/-- What a process carries of the buffers; if all went `fine`, no insert of it has failed. -/
structure Carries (pid : Nat) (fine : Prop) (rows : List (Entry ρ)) (batcher : Batcher ρ) : Prop where
  inFlight : batcher.inFlight pid = rows
  failed : fine → pid ∉ batcher.failed

theorem carries_stable (pid : Nat) (fine : Prop) (rows : List (Entry ρ)) :
    Stable Alongside Kept pid (Carries pid fine rows) :=
  fun _ _ _ carries along => ⟨along.inFlight.trans carries.inFlight,
    fun well member => carries.failed well (along.failed member)⟩

theorem filter_other {β : Type} {pid other : Nat} (distinct : other ≠ pid) (held : List (Nat × β)) :
    (held.filter (·.1 ≠ pid)).filter (·.1 = other) = held.filter (·.1 = other) := by
  rw [List.filter_filter]
  refine List.filter_congr fun entry _ => ?_
  by_cases same : entry.1 = other <;> simp [same, distinct]

theorem alongside_take {pid other : Nat} (distinct : other ≠ pid) (batcher : Batcher ρ) (table : String) :
    Alongside other batcher (batcher.take pid table) where
  kept kept := kept.perm (batcher.places_take pid table) rfl rfl
  appended _ member := member
  own _ member _ := member
  inFlight := by
    simp [Batcher.inFlight, Batcher.take, List.filter_append, List.filter_map,
      Function.comp_def, Ne.symm distinct]
  batches := rfl
  failed member := member

theorem alongside_build {pid other : Nat} (distinct : other ≠ pid) (batcher : Batcher ρ) (batch : Batch ρ) :
    Alongside other batcher (batcher.build pid batch) where
  kept kept := ⟨kept.nodup, kept.known, kept.placed⟩
  appended _ member := member
  own _ member _ := member
  inFlight := rfl
  batches := Function.update_of_ne distinct ..
  failed member := member

theorem alongside_store {pid other : Nat} (distinct : other ≠ pid) (batcher : Batcher ρ) (table : String)
    (own : ∀ entry ∈ batcher.inFlight pid, entry.table = table) :
    Alongside other batcher (batcher.store pid ⟨"INSERT INTO " ++ table, batcher.inFlight pid⟩) where
  kept kept := kept.perm (batcher.places_store pid table own) rfl rfl
  appended _ member := member
  own _ member _ := member
  inFlight := congrArg (List.map Prod.snd) (filter_other distinct batcher.inserting)
  batches := Function.update_of_ne distinct ..
  failed member := member

theorem alongside_abandon {pid other : Nat} (distinct : other ≠ pid) {batcher : Batcher ρ}
    (own : ∀ entry ∈ batcher.inFlight pid, entry.call = pid) :
    Alongside other batcher (batcher.abandon pid) where
  kept kept := kept.abandon own
  appended _ member := member
  own _ member _ := member
  inFlight := congrArg (List.map Prod.snd) (filter_other distinct batcher.inserting)
  batches := Function.update_of_ne distinct ..
  failed member := (List.mem_cons.mp member).resolve_left distinct

theorem alongside_append {pid other : Nat} (distinct : other ≠ pid) {batcher : Batcher ρ}
    (fresh : Fresh pid batcher)
    (table : String) (rows : List ρ) : Alongside other batcher (batcher.append pid table rows) where
  kept kept := kept.append fresh table rows
  appended _ member := List.mem_append_left _ member
  own entry member mine := by
    rcases List.mem_append.mp member with old | new
    · exact old
    · exact absurd (mine.symm.trans (mem_entries new)) distinct
  inFlight := rfl
  batches := rfl
  failed member := member

/-! ## Scripts -/

/-- A triple about the calls of one process, where a failing insert carries its own rows only. -/
abbrev Does (maxRows : Int) (pid : Nat) {α : Type} (pre : Batcher ρ → Prop) (script : BatchScript ρ α)
    (post : α → Batcher ρ → Prop) : Prop :=
  Triple ((machine maxRows).restrict owned) running Alongside Kept pid pre script (Returning post)

section Scripts
variable {maxRows : Int} {pid : Nat} {α β : Type}

theorem does_await {act : Act ρ} {pre : Batcher ρ → Prop} {post : act.Reply → Batcher ρ → Prop}
    (before : Stable Alongside Kept pid pre) (after : ∀ reply, Stable Alongside Kept pid (post reply))
    (step : ∀ batcher, Kept batcher → pre batcher → ∀ choice reply next, owned pid act choice batcher = true →
      respond maxRows pid act choice batcher = some (reply, next) →
      (∀ other, other ≠ pid → Alongside other batcher next) ∧ post reply next) :
    Does maxRows pid pre (await act) post := by
  refine Triple.await (discipline maxRows) before after fun batcher kept holds _ choice reply next taken => ?_
  obtain ⟨own, answered⟩ := Machine.restrict_act.mp taken
  exact step batcher kept holds choice reply next own answered

theorem does_bind {pre : Batcher ρ → Prop} {first : BatchScript ρ β} {next : β → BatchScript ρ α}
    {post : α → Batcher ρ → Prop} (middle : β → Batcher ρ → Prop) (head : Does maxRows pid pre first middle)
    (tail : ∀ value, Does maxRows pid (middle value) (next value) post) :
    Does maxRows pid pre (first >>= next) post :=
  Triple.seq (discipline maxRows) middle head tail

theorem does_pure (value : α) (post : α → Batcher ρ → Prop)
    (stable : Stable Alongside Kept pid (post value)) :
    Does maxRows pid (post value) (pure value) post := Triple.done (discipline maxRows) value post stable

theorem does_nothing {act : Act ρ} {pre : Batcher ρ → Prop} (stable : Stable Alongside Kept pid pre)
    (along : ∀ batcher choice reply next, respond maxRows pid act choice batcher = some (reply, next) →
      (∀ other, Alongside other batcher next)) :
    Does maxRows pid pre (await act) fun _ => pre := by
  refine does_await stable (fun _ => stable) fun batcher kept holds choice reply next _ answered => ?_
  have moved := along batcher choice reply next answered
  exact ⟨fun other _ => moved other, stable batcher next kept holds (moved pid)⟩

structure Builds (pid : Nat) (fine : Prop) (rows : List (Entry ρ)) (batch : Option (Batch ρ))
    (batcher : Batcher ρ) : Prop where
  carries : Carries pid fine rows batcher
  batch : batcher.batches pid = batch

theorem builds_stable (fine : Prop) (rows : List (Entry ρ)) (batch : Option (Batch ρ)) :
    Stable Alongside Kept pid (Builds pid fine rows batch) :=
  fun batcher next kept builds along => ⟨carries_stable pid fine rows batcher next kept builds.carries along,
    along.batches.trans builds.batch⟩

/-- What a process carries once a part of its insert returned: nothing, if that failed. -/
def Attempted (pid : Nat) (fine : Prop) (rows : List (Entry ρ)) (batch : Option (Batch ρ)) :
    Err → Batcher ρ → Prop
  | none => Builds pid fine rows batch
  | some _ => Carries pid False []

theorem attempted_stable (fine : Prop) (rows : List (Entry ρ)) (batch : Option (Batch ρ)) (err : Err) :
    Stable Alongside Kept pid (Attempted pid fine rows batch err) := by
  cases err with
  | none => exact builds_stable fine rows batch
  | some err => exact carries_stable pid False []

theorem filter_none {γ : Type} (held : List (Nat × γ)) :
    (held.filter (·.1 ≠ pid)).filter (·.1 = pid) = [] := by
  simp [List.filter_filter]

theorem does_attempt (act : Act ρ) {fine : Prop} {rows later : List (Entry ρ)}
    {batch built : Option (Batch ρ)} (err : act.Reply → Err) (next : Batcher ρ → Batcher ρ)
    (answers : ∀ batcher choice reply last, batcher.batches pid = batch →
      respond maxRows pid act choice batcher = some (reply, last) →
      choice = .client (err reply) ∧ last = (batcher.attempt pid (err reply) (next batcher)).2)
    (along : ∀ batcher, batcher.inFlight pid = rows → ∀ other, other ≠ pid →
      Alongside other batcher (next batcher))
    (builds : ∀ batcher, Builds pid fine rows batch batcher → Builds pid fine later built (next batcher)) :
    Does maxRows pid (Builds pid fine rows batch) (await act) fun reply => Attempted pid fine later built
    (err reply) := by
  refine does_await (builds_stable fine rows batch) (fun reply =>
    attempted_stable fine later built (err reply))
    fun batcher kept holds choice reply last own answered => ?_
  obtain ⟨rfl, rfl⟩ := answers batcher choice reply last holds.batch answered
  cases text : err reply with
  | none => exact ⟨along batcher holds.carries.inFlight, builds batcher holds⟩
  | some _ =>
    rw [text] at own
    have mine : ∀ entry ∈ batcher.inFlight pid, entry.call = pid := by simpa [owned] using own
    refine ⟨fun other distinct => alongside_abandon distinct mine, ?_, fun never => nomatch never⟩
    exact congrArg (List.map Prod.snd) (filter_none batcher.inserting)

theorem Builds.build {fine : Prop} {rows : List (Entry ρ)} {batch : Option (Batch ρ)} {batcher : Batcher ρ}
    (builds : Builds pid fine rows batch batcher) (built : Batch ρ) :
    Builds pid fine rows (some built) (batcher.build pid built) :=
  ⟨⟨builds.carries.inFlight, builds.carries.failed⟩, Function.update_self ..⟩

theorem does_prepareBatch (query : String) {fine : Prop} {rows : List (Entry ρ)} :
    Does maxRows pid (Carries pid fine rows) (await (.prepareBatch query))
    (Attempted pid fine rows (some ⟨query, []⟩)) := by
  suffices whatever : Does maxRows pid (fun batcher => ∃ batch,
    Builds pid fine rows batch batcher) (await (.prepareBatch query))
      (Attempted pid fine rows (some ⟨query, []⟩)) from
    whatever.strengthen fun batcher _ carries => ⟨batcher.batches pid, carries, rfl⟩
  refine Triple.exists_ fun batch => ?_
  refine does_attempt (.prepareBatch query) (fun err => err) (·.build pid ⟨query, []⟩)
    (fun batcher choice reply last _ answered => ?_)
    (fun batcher _ other distinct => alongside_build distinct batcher _) fun batcher builds => builds.build _
  cases choice with
  | client err =>
    cases answered
    exact ⟨rfl, rfl⟩
  | _ => cases answered

theorem does_appendRow (row : Entry ρ) {fine : Prop} {rows : List (Entry ρ)} (query : String)
    (before : List (Entry ρ)) :
    Does maxRows pid (Builds pid fine rows (some ⟨query, before⟩)) (await (.appendRow row))
      (Attempted pid fine rows (some ⟨query, before ++ [row]⟩)) := by
  refine does_attempt (.appendRow row) (fun err => err) (·.build pid ⟨query, before ++ [row]⟩)
    (fun batcher choice reply last batch answered => ?_)
      (fun batcher _ other distinct => alongside_build distinct batcher _)
    fun batcher builds => builds.build _
  cases choice with
  | client err =>
    simp only [respond, batch, Option.map_some] at answered
    cases answered
    exact ⟨rfl, rfl⟩
  | _ => cases answered

-- A batch of the very rows that are carried, for their table, leaves nothing to carry.
theorem does_send {fine : Prop} {rows : List (Entry ρ)} (table : String)
    (own : ∀ entry ∈ rows, entry.table = table) :
    Does maxRows pid (Builds pid fine rows (some ⟨"INSERT INTO " ++ table, rows⟩)) (await .send)
    (Attempted pid fine [] none) := by
  refine does_attempt .send (fun err => err) (·.store pid ⟨"INSERT INTO " ++ table, rows⟩)
    (fun batcher choice reply last batch answered => ?_) (fun batcher same other distinct => ?_)
      fun batcher builds => ?_
  · cases choice with
    | client err =>
      simp only [respond, batch, Option.map_some] at answered
      cases answered
      exact ⟨rfl, rfl⟩
    | _ => cases answered
  · subst same
    exact alongside_store distinct batcher table own
  · refine ⟨⟨?_, builds.carries.failed⟩, Function.update_self ..⟩
    exact congrArg (List.map Prod.snd) (filter_none batcher.inserting)

theorem attempted_over {fine : Prop} {batch : Option (Batch ρ)} (err : Err) (batcher : Batcher ρ)
    (attempted : Attempted pid fine [] batch err batcher) : Carries pid (fine ∧ err = none) [] batcher := by
  cases err with
  | none => exact ⟨attempted.carries.inFlight, fun well => attempted.carries.failed well.1⟩
  | some err => exact ⟨attempted.inFlight, fun well => nomatch well.2⟩

theorem does_refuse {fine : Prop} {rows later : List (Entry ρ)} {batch built : Option (Batch ρ)}
    (err text : String) :
    Does maxRows pid (Attempted pid fine rows batch (some err)) (pure (some text))
    (Attempted pid fine later built) :=
  does_pure (some text) (Attempted pid fine later built) (attempted_stable fine later built (some text))

theorem does_appendRows {fine : Prop} {rows : List (Entry ρ)} (query : String)
    (before rest : List (Entry ρ)) :
    Does maxRows pid (Builds pid fine rows (some ⟨query, before⟩)) (appendRows rest)
      (Attempted pid fine rows (some ⟨query, before ++ rest⟩)) := by
  induction rest generalizing before with
  | nil =>
    rw [List.append_nil]
    exact does_pure none (Attempted pid fine rows (some ⟨query, before⟩)) (builds_stable fine rows _)
  | cons row rest ih =>
    refine does_bind _ (does_appendRow row query before) fun err => ?_
    cases err with
    | some err => exact does_refuse err _
    | none =>
      have later := ih (before ++ [row])
      rw [List.append_assoc, List.singleton_append] at later
      exact later

theorem does_insert {fine : Prop} {rows : List (Entry ρ)} (table : String)
    (own : ∀ entry ∈ rows, entry.table = table) :
    Does maxRows pid (Carries pid fine rows) (insert table rows) (Attempted pid fine [] none) := by
  refine does_bind _ (does_prepareBatch _) fun err => ?_
  cases err with
  | some err => exact does_refuse err _
  | none =>
    refine does_bind _ (does_appendRows _ [] rows) fun err => ?_
    cases err with
    | some err => exact does_refuse err err
    | none =>
      refine does_bind _ (does_send table own) fun err => ?_
      cases err with
      | some err => exact does_refuse err _
      | none => exact does_pure none (Attempted pid fine [] none) (builds_stable fine [] none)

theorem does_take (table : String) {fine : Prop} :
    Does maxRows pid (Carries pid fine []) (await (.take table)) fun (rows : List (Entry ρ)) batcher =>
      (∀ entry ∈ rows, entry.table = table) ∧ Carries pid fine rows batcher := by
  refine does_await (carries_stable pid fine []) (fun rows => .and (.const _) (carries_stable pid fine rows))
    fun batcher kept carries choice rows next _ answered => ?_
  cases choice with
  | plain =>
    cases answered
    refine ⟨fun other distinct => alongside_take distinct batcher table,
      fun entry member => ?_, ?_, carries.failed⟩
    · exact of_decide_eq_true (List.mem_filter.mp member).2
    · have none_ : batcher.inserting.filter (·.1 = pid) = [] := List.map_eq_nil_iff.mp carries.inFlight
      simp [Batcher.inFlight, Batcher.take, List.filter_append, List.filter_map, Function.comp_def, none_]
  | _ => cases answered

-- `Flush` carries the rows it takes until they are stored; an error is an insert of its own that
-- failed.
theorem does_flush (table : String) {fine : Prop} :
    Does maxRows pid (Carries pid fine []) (flush table : BatchScript ρ Err) fun err => Carries pid
    (fine ∧ err = none) [] := by
  refine does_bind _ (does_take table) fun rows => Triple.fact fun own => ?_
  split
  · next empty =>
    rw [List.isEmpty_iff.mp empty]
    refine (does_pure none (fun err => Carries pid (fine ∧ err = none) [])
      (carries_stable pid _ [])).strengthen
      fun batcher _ carries => ⟨carries.inFlight, fun well => carries.failed well.1⟩
  · refine (does_insert table own).weaken fun result batcher _ attempted => ?_
    cases result with
    | ok err => exact attempted_over err batcher attempted
    | error error => exact nomatch error

theorem does_release (table : String) :
    Does maxRows pid (Carries pid False []) (flush table : BatchScript ρ Err) fun _ => Carries pid False
    [] := by
  refine (does_flush table).weaken fun result batcher _ carries => ?_
  cases result with
  | ok err => exact ⟨carries.inFlight, fun never => nomatch never⟩
  | error error => exact nomatch error

theorem does_flushEach (tables : List String) :
    Does maxRows pid (Carries pid False []) (flushEach tables : BatchScript ρ (List String))
    fun _ => Carries pid False [] := by
  induction tables with
  | nil => exact does_pure [] (fun _ => Carries pid False []) (carries_stable pid False [])
  | cons table rest ih =>
    refine does_bind _ (does_release table) fun err => ?_
    refine does_bind _ ih fun errs => ?_
    exact does_pure _ (fun _ => Carries pid False []) (carries_stable pid False [])

theorem does_flushAll : Does maxRows pid (Carries pid False [])
    (flushAll : BatchScript ρ Err) fun _ => Carries pid False [] := by
  refine does_bind _ (does_nothing (carries_stable pid False [])
    fun batcher choice tables next answered other => ?_) fun tables => ?_
  · cases choice with
    | order order =>
      simp only [respond] at answered
      split at answered <;> cases answered
      exact Alongside.refl other batcher
    | _ => cases answered
  · refine does_bind _ (does_flushEach tables) fun errs => ?_
    exact does_pure _ (fun _ => Carries pid False []) (carries_stable pid False [])

theorem does_loop (turns : Nat) :
    Does maxRows pid (Carries pid False []) (loop turns : BatchScript ρ Err) fun _ => Carries pid False
    [] := by
  induction turns with
  | zero => exact does_pure none (fun _ => Carries pid False []) (carries_stable pid False [])
  | succ more ih =>
    refine does_bind _ (does_nothing (carries_stable pid False [])
      fun batcher choice ticked next answered other => ?_) fun ticked => ?_
    · cases choice with
      | ticked =>
        cases answered
        exact Alongside.refl other batcher
      | stopped =>
        simp only [respond] at answered
        split at answered <;> cases answered
        exact Alongside.refl other batcher
      | _ => cases answered
    · split
      · exact does_bind _ does_flushAll fun _ => ih
      · refine does_bind _ (does_nothing (carries_stable pid False [])
          fun batcher choice reply next answered other => ?_) fun _ => ?_
        · cases choice with
          | plain =>
            cases answered
            exact ⟨fun kept => ⟨kept.nodup, kept.known, kept.placed⟩, fun _ is => is, fun _ is _ => is,
              rfl, rfl, fun is => is⟩
          | _ => cases answered
        · exact does_pure none (fun _ => Carries pid False []) (carries_stable pid False [])

theorem does_close : Does maxRows pid (Carries pid False [])
    (close : BatchScript ρ Err) fun _ => Carries pid False [] := by
  refine does_bind _ (does_nothing (carries_stable pid False [])
      fun batcher choice reply next answered other => ?_) fun _ =>
    does_bind _ (does_nothing (carries_stable pid False [])
      fun batcher choice reply next answered other => ?_) fun _ => does_flushAll
  · cases choice with
    | plain =>
      cases answered
      exact ⟨fun kept => ⟨kept.nodup, kept.known, kept.placed⟩, fun _ is => is, fun _ is _ => is,
        rfl, rfl, fun is => is⟩
    | _ => cases answered
  · cases choice with
    | plain =>
      simp only [respond] at answered
      split at answered <;> cases answered
      exact Alongside.refl other batcher
    | _ => cases answered

theorem fresh_stable (pid : Nat) : Stable Alongside Kept pid (Fresh (ρ := ρ) pid) :=
  fun _ _ kept fresh along => (discipline 0).idle kept fresh along

theorem does_append (table : String) (rows : List ρ) :
    Does maxRows pid (Fresh pid) (await (.append table rows)) fun _ batcher =>
      Carries pid True [] batcher ∧ ∀ entry ∈ entries pid table rows, entry ∈ batcher.appended := by
  have appended : Stable Alongside Kept pid fun batcher => ∀ entry ∈ entries pid table rows,
      entry ∈ batcher.appended :=
    fun _ _ _ holds along entry member => along.appended entry (holds entry member)
  refine does_await (fresh_stable pid) (fun _ => .and (carries_stable pid True []) appended)
    fun batcher kept fresh choice full next _ answered => ?_
  cases choice with
  | plain =>
    cases answered
    exact ⟨fun other distinct => alongside_append distinct fresh table rows,
      ⟨fresh.inFlight, fun _ => fresh.failed⟩,
      fun entry member => List.mem_append_right _ member⟩
  | _ => cases answered

-- `BatchInsert` returns nil only if no insert of its own failed.
theorem does_batchInsert (table : String) (rows : List ρ) :
    Does maxRows pid (Fresh pid) (batchInsert table rows) fun err batcher =>
      Carries pid (True ∧ err = none) [] batcher ∧ ∀ entry ∈ entries pid table rows,
      entry ∈ batcher.appended := by
  have grows (other : Nat) (batcher next : Batcher ρ) (along : Alongside other batcher next)
      (holds : ∀ entry ∈ entries pid table rows, entry ∈ batcher.appended) : ∀ entry ∈ entries pid table rows,
          entry ∈ next.appended :=
    fun entry member => along.appended entry (holds entry member)
  refine does_bind _ (does_append table rows) fun full => ?_
  split
  · refine (Triple.frame _ grows (does_flush table)).weaken fun result batcher _ holds => ?_
    cases result with
    | ok err => exact holds
    | error error => exact nomatch error
  · refine Triple.strengthen (does_pure none (fun err batcher => Carries pid (True ∧ err = none) [] batcher ∧
      ∀ entry ∈ entries pid table rows, entry ∈ batcher.appended) ?_) fun batcher _ holds => ?_
    · exact .and (carries_stable pid _ []) fun _ _ _ holds along => grows pid _ _ along holds
    · exact ⟨⟨holds.1.inFlight, fun _ => holds.1.failed trivial⟩, holds.2⟩

end Scripts

/-! ## Runs -/

/-- What a call establishes: if it is a `BatchInsert` that returns nil, its rows were appended and no
insert of its own failed. -/
def Answers (pid : Nat) : Call ρ → Except Empty Err → Batcher ρ → Prop
  | .batchInsert table rows, .ok none, batcher =>
      pid ∉ batcher.failed ∧ ∀ entry ∈ entries pid table rows, entry ∈ batcher.appended
  | _, _, _ => True

theorem call_answers (maxRows : Int) (pid : Nat) (call : Call ρ) :
    Triple ((machine maxRows).restrict owned) running Alongside Kept pid (Fresh pid) (code call)
    (Answers pid call) := by
  have free {script : BatchScript ρ Err} (does : Does maxRows pid (Carries pid False []) script
    fun _ => Carries pid False [])
      (any : ∀ result batcher, Answers pid call result batcher) :
      Triple ((machine maxRows).restrict owned) running Alongside Kept pid (Fresh pid)
          script (Answers pid call) :=
    does.conseq (fun _ _ fresh => ⟨fresh.inFlight, fun never => nomatch never⟩)
      fun result batcher _ _ => any result batcher
  cases call with
  | batchInsert table rows =>
    refine (does_batchInsert table rows).weaken fun result batcher _ holds => ?_
    match result with
    | .ok none => exact ⟨holds.1.failed ⟨trivial, rfl⟩, holds.2⟩
    | .ok (some _) => trivial
  | flush table => exact free (does_release table) fun _ _ => trivial
  | flushAll => exact free does_flushAll fun _ _ => trivial
  | loop turns => exact free (does_loop turns) fun _ _ => trivial
  | close => exact free does_close fun _ _ => trivial

end OpenEmarsys.Chx
