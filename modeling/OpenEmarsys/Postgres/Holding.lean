import OpenEmarsys.Postgres.Stages

/-! What an open transaction holds, and what a script has learnt from the log.

The rules for single statements once more, without the times at which a transaction began and took
its locks; and an update of a table that the transaction has changed before.
-/

set_option autoImplicit false

namespace OpenEmarsys.Postgres

open Interleaving

variable {Row Label World : Type} [Indexed Row] [Tabled Row]

namespace Contents

/-- The rows of `hits` that are no new versions. -/
def untouched (new hits : List Row) : List Row := hits.filter fun row => !new.any fun mine => sameRow mine row

/-- The new versions none of which is in `hits`. -/
def spared (new hits : List Row) : List Row := new.filter fun row => !hits.any fun hit => sameRow hit row

omit [Tabled Row] in
theorem mem_untouched {new hits : List Row} {row : Row} :
    row ∈ untouched new hits ↔ row ∈ hits ∧ ∀ mine ∈ new, primary mine ≠ primary row := by
  simp [untouched, sameRow]

omit [Tabled Row] in
theorem mem_spared {new hits : List Row} {row : Row} :
    row ∈ spared new hits ↔ row ∈ new ∧ ∀ hit ∈ hits, primary hit ≠ primary row := by
  simp [spared, sameRow]

variable {contents : Contents Row} {rows : List Row} {tx after : Tx Row Label} {table : Table Row}

-- Rows of one table replaced by new ones under the same keys; some may be new versions themselves.
theorem In.supersedes {hits new : List Row} (held : contents.In rows tx)
    (versions : ∀ row ∈ (contents table).new, ∃ old ∈ (contents table).gone, primary old = primary row)
    (within : ∀ hit ∈ hits, tableOf hit = table ∧ (hit ∈ rows ∨ hit ∈ (contents table).new))
    (keyed : ∀ row ∈ new, ∃ old ∈ hits, primary row = primary old) (change : Change rows tx after hits new) :
    (contents.set table ⟨(contents table).gone ++ untouched (contents table).new hits,
      spared (contents table).new hits ++ new⟩).In rows after := by
  have foreign : ∀ mine ∈ tx.added, ∀ hit ∈ untouched (contents table).new hits,
      primary mine ≠ primary hit := by
    intro mine member hit untouched same
    obtain ⟨isHit, apart⟩ := mem_untouched.mp untouched
    have here : tableOf mine = table := (congrArg Tabled.table same).trans (within hit isHit).1
    have version := (held.added mine).mp member
    rw [here] at version
    exact apart mine version same
  refine ⟨fun row => ?_, fun key => ?_, fun other => ?_, fun other => ?_⟩
  · rw [change.added]
    by_cases here : tableOf row = table
    · rw [here, set_same, List.mem_append, mem_spared, held.added, here]
    · rw [set_other _ _ here, ← held.added]
      constructor
      · rintro (⟨mine, -⟩ | member)
        · exact mine
        · obtain ⟨old, hit, same⟩ := keyed row member
          exact absurd ((congrArg Tabled.table same).trans (within old hit).1) here
      · refine fun mine => .inl ⟨mine, fun old hit same => here ?_⟩
        exact (congrArg Tabled.table same).symm.trans (within old hit).1
  · by_cases here : Tabled.table key = table
    · rw [here, set_same]
      constructor
      · intro member
        have known : key ∈ tx.removed → ∃ old ∈ (contents table).gone ++ untouched (contents table).new hits,
            primary old = key := by
          intro before
          obtain ⟨old, gone, same⟩ := (held.removed key).mp before
          rw [here] at gone
          exact ⟨old, List.mem_append_left _ gone, same⟩
        rcases change.removed key member with before | ⟨old, hit, rfl⟩
        · exact known before
        · by_cases mine : ∃ version ∈ (contents table).new, primary version = primary old
          · obtain ⟨version, isNew, same⟩ := mine
            obtain ⟨first, gone, equal⟩ := versions version isNew
            exact ⟨first, List.mem_append_left _ gone, equal.trans same⟩
          · push Not at mine
            exact ⟨old, List.mem_append_right _ (mem_untouched.mpr ⟨hit, mine⟩), rfl⟩
      · rintro ⟨old, member, rfl⟩
        rcases List.mem_append.mp member with before | hit
        · exact change.kept _ ((held.removed _).mpr ⟨old, by rwa [here], rfl⟩)
        · exact change.gone old (mem_untouched.mp hit).1 fun mine added => foreign mine added old hit
    · rw [set_other _ _ here, ← held.removed]
      refine ⟨fun member => (change.removed key member).resolve_right ?_, change.kept key⟩
      rintro ⟨old, hit, rfl⟩
      exact here (within old hit).1
  · by_cases here : other = table
    · subst here
      rw [set_same]
      intro old member
      rcases List.mem_append.mp member with before | hit
      · exact held.gone other old before
      · obtain ⟨isHit, apart⟩ := mem_untouched.mp hit
        obtain ⟨isTable, present⟩ := within old isHit
        exact ⟨isTable, present.resolve_right fun version => apart old version rfl⟩
    · rw [set_other _ _ here]
      exact held.gone other
  · by_cases here : other = table
    · subst here
      rw [set_same]
      intro row member
      rcases List.mem_append.mp member with before | now
      · exact held.new other row (mem_spared.mp before).1
      · obtain ⟨old, hit, same⟩ := keyed row now
        exact (congrArg Tabled.table same).trans (within old hit).1
    · rw [set_other _ _ here]
      exact held.new other

end Contents

/-- The open transaction has these contents, whenever it has begun and whatever it has locked. -/
def Holding (first : List Row) (pid : Tid) (label : Label) (contents : Contents Row)
    (known : List (Commit Row Label) → Prop)
    (shared : Shared Row Label World) : Prop :=
  ∃ history : List (Commit Row Label) × List (Checkpoint Row Label),
    Stage.At first pid ⟨label, history.1, history.2, contents⟩ known shared

/-- The same, unless the server has closed it. -/
abbrev Has (first : List Row) (pid : Tid) (label : Label) (contents : Contents Row)
    (known : List (Commit Row Label) → Prop) :
    Shared Row Label World → Prop := Protocol.Unless pid (Holding first pid label contents known)

section Holding
variable {chronicle : Chronicle Row Label World} {pid : Tid} {label : Label} {contents : Contents Row}
  {known : List (Commit Row Label) → Prop}

theorem holding_lasting (persists : Persists known) :
    chronicle.protocol.Lasting pid (Holding chronicle.first pid label contents known) := by
  rintro shared next inv later ⟨history, at_⟩ same alongside grown
  exact ⟨history, Stage.At.lasting persists shared next inv later at_ same alongside grown⟩

theorem Holding.weaken {first : List Row} {weaker : List (Commit Row Label) → Prop}
    {shared : Shared Row Label World}
    (holding : Holding first pid label contents known shared) (implies : ∀ log, known log → weaker log) :
    Holding first pid label contents weaker shared := by
  obtain ⟨history, at_⟩ := holding
  exact ⟨history, at_.weaken implies⟩

theorem Holding.and {first : List Row} {fact : Prop} {shared : Shared Row Label World}
    (holding : Holding first pid label contents known shared) (holds : fact) :
    Holding first pid label contents (fun log => known log ∧ fact) shared :=
  holding.weaken fun _ here => ⟨here, holds⟩

theorem Holding.knows {first : List Row} {shared : Shared Row Label World}
    (holding : Holding first pid label contents known shared) :
    known shared.server.log := by
  obtain ⟨history, at_⟩ := holding
  exact at_.known

theorem Holding.labelled {first : List Row} {shared : Shared Row Label World}
    (holding : Holding first pid label contents known shared) :
    (shared.server.txs pid).label = some label := by
  obtain ⟨history, at_⟩ := holding
  exact at_.label

theorem Holding.in_ {first : List Row} {shared : Shared Row Label World}
    (holding : Holding first pid label contents known shared) :
    contents.In shared.server.rows (shared.server.txs pid) := by
  obtain ⟨history, at_⟩ := holding
  exact at_.contents

end Holding

namespace Chronicle

variable {Call Choice Extra : Type} {ExtraReply : Extra → Type} {ε α β : Type}

section Scripts
variable (chronicle : Chronicle Row Label World)
  (extra : Tid → (call : Extra) → Choice → Shared Row Label World → Option (ExtraReply call × World))
  (rules : Rules Call (Action Row Label Extra) (Shared Row Label World)) (pid : Tid)

omit [Tabled Row] in
/-- What a script does to the log, and what is known of the log afterwards. -/
abbrev Learns (known : List (Commit Row Label) → Prop) (script : Client Row Label ExtraReply ε α)
    (post : α → List (Commit Row Label) → Prop) : Prop :=
  PublicProtocol.Step chronicle.public_ extra rules pid (fun state => known state.log) script
    fun value state => post value state.log

omit [Tabled Row] in
abbrev Makes (pre : Shared Row Label World → Prop) (script : Client Row Label ExtraReply ε α)
    (post : α → Shared Row Label World → Prop) : Prop :=
  chronicle.protocol.Proves extra rules pid pre script (Protocol.Returns post)

end Scripts

variable {chronicle : Chronicle Row Label World}
  {extra : Tid → (call : Extra) → Choice → Shared Row Label World → Option (ExtraReply call × World)}
  {rules : Rules Call (Action Row Label Extra) (Shared Row Label World)} {pid : Tid} {label : Label}
    {contents : Contents Row}
  {known : List (Commit Row Label) → Prop}

/-! ## Between transactions -/

section Learns
omit [Tabled Row]

theorem Learns.ret {post : α → List (Commit Row Label) → Prop} {value : α} (persists : Persists (post value))
    (ends : ∀ state : Public Row Label World, chronicle.Kept state → known state.log → post value state.log) :
    chronicle.Learns extra rules pid known (.ret value : Client Row Label ExtraReply ε α) post :=
  PublicProtocol.Step.strengthen (PublicProtocol.Step.ret (fun value state => post value state.log)
    (steady persists pid)) ends

theorem Learns.keep (persists : Persists known) (value : α) :
    chronicle.Learns extra rules pid known (.ret value : Client Row Label ExtraReply ε α) fun _ => known :=
  .ret persists fun _ _ here => here

theorem Learns.bind {script : Client Row Label ExtraReply ε β} {next : β → Client Row Label ExtraReply ε α}
    {middle : β → List (Commit Row Label) → Prop} {post : α → List (Commit Row Label) → Prop}
    (head : chronicle.Learns extra rules pid known script middle)
    (tail : ∀ value, chronicle.Learns extra rules pid (middle value) (next value) post) :
    chronicle.Learns extra rules pid known (script >>= next) post :=
  PublicProtocol.Step.bind (fun value state => middle value state.log) head tail

theorem Learns.fail {error : ε} {post : α → List (Commit Row Label) → Prop} :
    chronicle.Learns extra rules pid known (.fail error : Client Row Label ExtraReply ε α) post :=
  PublicProtocol.Step.fail

theorem Learns.handle {script : Client Row Label ExtraReply ε α}
    {handler : ε → Client Row Label ExtraReply ε α}
    {post : α → List (Commit Row Label) → Prop} (body : chronicle.Learns extra rules pid known script post)
    (rescue : ∀ error, chronicle.Learns extra rules pid (fun _ => True) (handler error) post) :
    chronicle.Learns extra rules pid known (script.handle handler) post :=
  PublicProtocol.Step.handle body rescue

theorem Learns.weaken {script : Client Row Label ExtraReply ε α}
    {post weaker : α → List (Commit Row Label) → Prop}
    (learns : chronicle.Learns extra rules pid known script post)
    (implies : ∀ value log, post value log → weaker value log) :
    chronicle.Learns extra rules pid known script weaker :=
  PublicProtocol.Step.weaken learns fun value state _ => implies value state.log

theorem Learns.conclude {script : Client Row Label ExtraReply ε α}
    {post weaker : α → List (Commit Row Label) → Prop}
    (learns : chronicle.Learns extra rules pid known script post)
    (implies : ∀ value log, Journal chronicle.first chronicle.Effect log →
      post value log → weaker value log) :
    chronicle.Learns extra rules pid known script weaker :=
  PublicProtocol.Step.weaken learns fun value state kept => implies value state.log kept.journal

theorem Learns.strengthen {script : Client Row Label ExtraReply ε α}
    {post : α → List (Commit Row Label) → Prop}
    {stronger : List (Commit Row Label) → Prop} (learns : chronicle.Learns extra rules pid known script post)
    (implies : ∀ log, stronger log → known log) : chronicle.Learns extra rules pid stronger script post :=
  PublicProtocol.Step.strengthen learns fun state _ => implies state.log

theorem Learns.fact {given : Prop} {script : Client Row Label ExtraReply ε α}
    {post : α → List (Commit Row Label) → Prop}
    (learns : given → chronicle.Learns extra rules pid known script post) :
    chronicle.Learns extra rules pid (fun log => given ∧ known log) script post :=
  PublicProtocol.Step.fact learns

-- A call to something else, which leaves alone what the journal says of the world.
theorem Learns.ask (persists : Persists known) (request : Extra)
    (effect : ∀ (shared : Shared Row Label World) choice reply world,
      chronicle.Outside shared.server.log shared.world →
      extra pid request choice shared = some (reply, world) → chronicle.Outside shared.server.log world) :
    chronicle.Learns extra rules pid known
    (Postgres.ask request : Client Row Label ExtraReply ε (ExtraReply request))
      fun _ => known := by
  refine PublicProtocol.Step.ask (steady persists pid) (fun shared choice reply world app held answered => ?_)
      fun _ =>
    steady persists pid
  exact ⟨⟨app.journal, app.rows, effect shared choice reply world app.outside answered⟩,
    fun _ _ => List.prefix_rfl, held⟩

end Learns

omit [Tabled Row] in
theorem Makes.done {value : α} {pre : Shared Row Label World → Prop} (last : Shared Row Label World → Prop)
    (lasting : chronicle.protocol.Lasting pid last) (ends : ∀ shared, chronicle.protocol.Inv shared →
      pre shared → last shared) :
    chronicle.Makes extra rules pid (Protocol.Unless pid pre) (.ret value : Client Row Label ExtraReply ε α)
      fun _ => Protocol.Unless pid last :=
  (Stage.ret (fun _ => Protocol.Unless pid last) lasting.stable).strengthen fun shared inv held =>
    held.imp (fun closed => closed) (ends shared inv)

omit [Tabled Row] in
theorem Makes.bind {script : Client Row Label ExtraReply ε β} {next : β → Client Row Label ExtraReply ε α}
    {pre : Shared Row Label World → Prop} {middle : β → Shared Row Label World → Prop}
    {post : α → Shared Row Label World → Prop}
    (head : chronicle.Makes extra rules pid pre script middle)
    (tail : ∀ value, chronicle.Makes extra rules pid (middle value) (next value) post) :
    chronicle.Makes extra rules pid pre (script >>= next) post := Stage.bind middle head tail

theorem Makes.keep (persists : Persists known) (value : α) :
    chronicle.Makes extra rules pid (Has chronicle.first pid label contents known)
      (.ret value : Client Row Label ExtraReply ε α) fun _ => Has chronicle.first pid label contents known :=
  Stage.ret (fun _ => Has chronicle.first pid label contents known) (holding_lasting persists).stable

theorem Makes.ask (persists : Persists known) (request : Extra)
    (effect : ∀ shared choice reply world, chronicle.Outside shared.server.log shared.world →
      extra pid request choice shared = some (reply, world) → chronicle.Outside shared.server.log world) :
    chronicle.Makes extra rules pid (Has chronicle.first pid label contents known)
      (Postgres.ask request : Client Row Label ExtraReply ε (ExtraReply request))
      fun _ => Has chronicle.first pid label contents known := by
  refine Stage.choose fun history => (Stage.ask persists request (fun _ => True)
      fun shared choice reply world outside answered =>
    ⟨effect shared choice reply world outside answered, trivial⟩).weaken fun result shared _ held => ?_
  cases result with
  | error error => trivial
  | ok reply => exact held.imp id fun at_ => ⟨history, at_.weaken fun log here => here.1⟩

variable [ClientError ε] {p : Row → Bool}

theorem Makes.select (persists : Persists known) (p : Row → Bool) :
    chronicle.Makes extra rules pid (Has chronicle.first pid label contents known)
      (sql (.select p) : Client Row Label ExtraReply ε (List Row))
      fun rows => Has chronicle.first pid label contents fun log => known log ∧ Once (fun past => known past ∧
        ∀ row, row ∈ rows ↔ p row = true ∧ contents.Sees (rowsAfter chronicle.first past) row) log := by
  refine Stage.choose fun history => (Stage.select persists p).weaken fun result shared _ held => ?_
  cases result with
  | error error => trivial
  | ok rows =>
    refine held.imp id fun at_ => ⟨history, at_.weaken ?_⟩
    rintro log ⟨here, past, earlier, since, -, found⟩
    exact ⟨here, past, earlier, since.known, found⟩

theorem Makes.reads (persists : Persists known) (p : Row → Bool) :
    chronicle.Makes extra rules pid (Has chronicle.first pid label contents known)
      (sql (.select p) : Client Row Label ExtraReply ε (List Row))
      fun _ => Has chronicle.first pid label contents known := by
  refine (Makes.select persists p).weaken fun result shared _ held => ?_
  cases result with
  | error error => trivial
  | ok rows => exact held.imp id fun holding => holding.weaken fun log here => here.1

theorem Makes.lockRows (persists : Persists known) (p : Row → Bool) :
    chronicle.Makes extra rules pid (Has chronicle.first pid label contents known)
      (sql (.lockRows p) : Client Row Label ExtraReply ε (List Row))
      fun _ => Has chronicle.first pid label contents known := by
  refine Stage.choose fun history => (Stage.lockRows persists p).weaken fun result shared _ held => ?_
  cases result with
  | error error => trivial
  | ok rows =>
    exact held.imp id fun ⟨check, at_⟩ => ⟨(history.1, check :: history.2), at_.weaken
      fun log here => here.1⟩

theorem Makes.shareKey (persists : Persists known) (p : Row → Bool) :
    chronicle.Makes extra rules pid (Has chronicle.first pid label contents known)
      (sql (.shareKey p) : Client Row Label ExtraReply ε (List Row))
      fun _ => Has chronicle.first pid label contents known := by
  refine Stage.choose fun history => (Stage.shareKey persists p).weaken fun result shared _ held => ?_
  cases result with
  | error error => trivial
  | ok rows =>
    exact held.imp id fun ⟨check, at_⟩ => ⟨(history.1, check :: history.2), at_.weaken
      fun log here => here.1⟩

variable (table : Table Row)

theorem Makes.delete (persists : Persists known) (within : ∀ row, p row = true → tableOf row = table)
    (none_ : (contents table).new = []) :
    chronicle.Makes extra rules pid (Has chronicle.first pid label contents known)
      (sql (.delete p) : Client Row Label ExtraReply ε (List Row))
      fun rows => Has chronicle.first pid label (contents.set table ⟨(contents table).gone ++ rows, []⟩)
        fun log => known log ∧ ∀ row ∈ rows, p row = true := by
  refine Stage.choose fun history => (Stage.delete persists p within none_).weaken
    fun result shared _ held => ?_
  cases result with
  | error error => trivial
  | ok rows =>
    refine held.imp id fun at_ => ⟨history, at_.weaken ?_⟩
    rintro log ⟨here, now, -, -, start, -, -, matched⟩
    exact ⟨here, fun row member => ((matched row).mp member).1⟩

theorem Makes.insert (persists : Persists known) {new : List Row}
    (within : ∀ row ∈ new, tableOf row = table) :
    chronicle.Makes extra rules pid (Has chronicle.first pid label contents known)
      (sql (.insert new false) : Client Row Label ExtraReply ε (List Row))
      fun _ => Has chronicle.first pid label
      (contents.set table ⟨(contents table).gone, (contents table).new ++ new⟩) known := by
  refine Stage.choose fun history => (Stage.insert persists new false within).weaken
    fun result shared _ held => ?_
  cases result with
  | error error => trivial
  | ok rows =>
    refine held.imp id fun at_ => ?_
    obtain ⟨-, -, all⟩ := at_.known
    cases all rfl
    exact ⟨history, at_.weaken fun log here => here.1⟩

theorem Makes.update (persists : Persists known) {f : Row → Row}
    (within : ∀ row, p row = true → tableOf row = table)
    (keyed : ∀ row, primary (f row) = primary row) (none_ : contents table = ⟨[], []⟩) :
    chronicle.Makes extra rules pid (Has chronicle.first pid label contents known)
      (sql (.update p f) : Client Row Label ExtraReply ε (List Row))
      fun rows => Protocol.Unless pid fun shared => ∃ hits, rows = hits.map f ∧ (∀ row ∈ hits, p row = true) ∧
        Holding chronicle.first pid label (contents.set table ⟨hits, hits.map f⟩) known shared := by
  refine Stage.choose fun history => (Stage.update persists p f within keyed none_).weaken
    fun result shared _ held => ?_
  cases result with
  | error error => trivial
  | ok rows =>
    refine held.imp (fun closed => closed) ?_
    rintro ⟨⟨check, hits⟩, at_⟩
    obtain ⟨-, reply, -, -, -, -, start, -, -, matched⟩ := at_.known
    exact ⟨hits, reply, fun row member => ((matched row).mp member).1, (history.1, check :: history.2),
      at_.weaken fun log here => here.1⟩

-- An update of a table in which the transaction has so far replaced rows.
theorem Makes.updateAgain (persists : Persists known) {f : Row → Row}
    (within : ∀ row, p row = true → tableOf row = table)
    (keyed : ∀ row, primary (f row) = primary row)
    (versions : ∀ row ∈ (contents table).new, ∃ old ∈ (contents table).gone, primary old = primary row) :
    chronicle.Makes extra rules pid (Has chronicle.first pid label contents known)
      (sql (.update p f) : Client Row Label ExtraReply ε (List Row))
      fun rows => Protocol.Unless pid fun shared => ∃ hits, rows = hits.map f ∧
        (∀ row ∈ hits, p row = true ∧ (row ∈ (contents table).new ∨
          row ∈ Contents.untouched (contents table).new hits)) ∧
        Holding chronicle.first pid label
        (contents.set table ⟨(contents table).gone ++ Contents.untouched (contents table).new hits,
          Contents.spared (contents table).new hits ++ hits.map f⟩) known shared := by
  refine Stage.choose fun history => Protocol.sql (Stage.At.lasting persists)
    (fun _ _ at_ same => at_.snapshot same) (fun rows => ?_) ?_
  · rintro shared next inv later ⟨hits, reply, matched, holding⟩ same alongside grown
    exact ⟨hits, reply, matched, holding_lasting persists shared next inv later holding same alongside grown⟩
  · intro started shared rows tx first inv before at_ snapshot grown run
    obtain ⟨rfl, change⟩ := execute_update inv.1 keyed run
    have hits := before.hits first.2 inv.2 at_ snapshot p
    have here : ∀ hit ∈ shared.server.hits pid p, tableOf hit = table ∧
        ((hit ∈ shared.server.rows ∧ ∀ old ∈ (contents table).gone, primary old ≠ primary hit) ∨
            hit ∈ (contents table).new) := by
      intro hit member
      obtain ⟨matches_, sees, -⟩ := (hits hit).mp member
      have isTable := within hit matches_
      rw [Contents.Sees, isTable, ← inv.2.server] at sees
      exact ⟨isTable, sees⟩
    have held :=
      at_.contents.supersedes versions (fun hit member =>
      ⟨(here hit member).1, (here hit member).2.imp And.left id⟩)
      (fun row member => by
        obtain ⟨old, hit, rfl⟩ := List.mem_map.mp member
        exact ⟨old, hit, keyed old⟩) change
    refine ⟨_, rfl, fun row member => ⟨((hits row).mp member).1, ?_⟩, history,
      at_.after (execute_continues run) held⟩
    rcases (here row member).2 with ⟨-, kept⟩ | new
    · refine .inr (Contents.mem_untouched.mpr ⟨member, fun mine version same => ?_⟩)
      obtain ⟨old, gone, equal⟩ := versions mine version
      exact kept old gone (equal.trans same)
    · exact .inl new

end Chronicle

namespace Chronicle

variable {Call Choice Extra : Type} {ExtraReply : Extra →
  Type} {ε α : Type} [ClientError ε] {chronicle : Chronicle Row Label World}
  {extra : Tid → (call : Extra) → Choice → Shared Row Label World → Option (ExtraReply call × World)}
  {rules : Rules Call (Action Row Label Extra) (Shared Row Label World)} {pid : Tid} {label : Label}
  {known : List (Commit Row Label) → Prop}

theorem Learns.transaction {body : Client Row Label ExtraReply ε α} (persists : Persists known)
    (last : α → Shared Row Label World → Prop) (done : α → List (Commit Row Label) → Prop)
    (runs : chronicle.Makes extra rules pid (Has chronicle.first pid label .empty known) body
      fun value => Protocol.Unless pid (last value))
    (lasting : ∀ value, chronicle.protocol.Lasting pid (last value))
    (commits : ∀ value shared, chronicle.protocol.Inv shared → last value shared →
      let commit : Commit Row Label := ⟨pid, shared.server.rows, shared.server.txs pid⟩
      chronicle.Effect shared.server.log commit ∧ done value (shared.server.log ++ [commit]))
    (after : ∀ value, Persists (done value)) :
    chronicle.Learns extra rules pid known (Postgres.transaction label body) done :=
  Stage.transaction persists last done (fun opened => runs.strengthen fun _ _ held => held.imp id
    fun at_ => ⟨(opened, []), at_⟩)
    lasting commits after

omit [Tabled Row] [ClientError ε] in
theorem journaled {code : Call → Client Row Label ExtraReply ε α} (apart : chronicle.first.Pairwise NoClash)
    (calls : ∀ pid call, chronicle.Learns extra rules pid (fun _ => True) (code call) fun _ _ => True)
    {world : World} (outside : chronicle.Outside [] world)
    {config : Config Call (Action Row Label Extra) (Answer ExtraReply) ε α (Shared Row Label World)}
    (run : (machine extra).Reaches code rules (.start ⟨.holding chronicle.first, world⟩) config) :
    chronicle.Kept config.state.public := by
  have anything : ∀ pid, PublicProtocol.Steady chronicle.public_ pid fun _ => True :=
    fun pid => steady (persists_const True) pid
  exact (PublicProtocol.reaches anything calls run (sane_holding apart) ⟨.start, rfl, outside⟩
    fun pid => ⟨rfl, trivial⟩).2.1

end Chronicle

end OpenEmarsys.Postgres
