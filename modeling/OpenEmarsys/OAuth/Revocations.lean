import OpenEmarsys.OAuth.Clients

/-! Whether the revocation list covers every token that is still accepted. -/

set_option autoImplicit false

namespace OpenEmarsys.OAuth

open Interleaving (Typestate Script)

/-- Nanoseconds of the clock skew the verifiers allow. -/
def TOLERANCE := 60 * 1000000000

/-- `parseClaims` of the Go verifier: what it says about the times. -/
def goAccepts (token : Token) (clock : Clock) : Prop :=
  ¬ token.exp * 1000000000 + TOLERANCE < clock ∧ ¬ clock + TOLERANCE < token.iat * 1000000000

/-- `jwtVerify` with `clockTolerance: 60`: whole seconds, and the last one is too late. -/
def tsAccepts (token : Token) (clock : Clock) : Prop := clock.seconds < token.exp + 60

instance (token : Token) (clock : Clock) : Decidable (goAccepts token clock) :=
  inferInstanceAs (Decidable (_ ∧ _))

instance (token : Token) (clock : Clock) : Decidable (tsAccepts token clock) :=
  inferInstanceAs (Decidable (_ < _))

/-- The list names every revoked client with a token that some verifier accepts. -/
def Covers (state : State) (items : List (String × Nat)) : Prop :=
  ∀ row ∈ state.clients, row.revokedAt.isSome = true → ∀ token ∈ state.issued, token.sub = row.clientId →
    goAccepts token state.clock ∨ tsAccepts token state.clock → row.clientId ∈ items.map Prod.fst

/-- This step ends a `revocations` call, and the list is its answer. -/
structure Answers (verify : String → String → Bool) (config next : Config) (pid : Nat)
    (items : List (String × Nat)) : Prop where
  step : ∃ move, machine.step (code verify) config move = some next
  running : config.procs pid ≠ next.procs pid
  answer : next.procs pid = .running .revocations (.ret (.items items))

/-- A call that found its client not revoked signs in no second from the revocation on, and the date of a
revocation is later than the second of every token the client has by the time it takes effect. -/
def timely : Interleaving.Rules Call Act State where
  act pid act state :=
    match act with
    | .sign sub _ _ => (∃ found ∈ (state.memory pid).client, found.1 = sub ∧ found.2.revokedAt = none) →
        ∀ row ∈ state.clients, row.clientId = sub → ∀ date ∈ row.revokedAt, state.clock.seconds * 1000 < date
    | .revoke _ id _ => ∀ row ∈ state.clients, row.id = id → row.revokedAt = none →
        ∀ token ∈ state.issued, token.sub = row.clientId → token.iat * 1000 < (state.memory pid).now
    | _ => True

-- The last moment a token is accepted is within the window of the second it was issued in.
theorem accepted_within {token : Token} {clock : Clock} (lives : token.exp = token.iat + CLIENT_TOKEN_TTL)
    (accepted : goAccepts token clock ∨ tsAccepts token clock) :
    clock.millis ≤ token.iat * 1000 + REVOCATION_WINDOW_MS := by
  unfold Clock.millis REVOCATION_WINDOW_MS CLIENT_TOKEN_TTL
  rcases accepted with ⟨unexpired, -⟩ | unexpired
  · simp only [lives, TOLERANCE, CLIENT_TOKEN_TTL] at unexpired
    omega
  · simp only [tsAccepts, lives, Clock.seconds, CLIENT_TOKEN_TTL] at unexpired
    omega

theorem mem_revokedSince {clients : List ApiClient} {row : ApiClient} (member : row ∈ clients) {date : Nat}
    (revoked : date ∈ row.revokedAt) {since : Int} (recent : since < date) :
    (row.clientId, date) ∈ revokedSince clients since := by
  rw [revokedSince, List.mem_insertionSort, List.mem_filterMap]
  refine ⟨row, member, ?_⟩
  rw [Option.mem_def.mp revoked, Option.bind_some, if_pos recent]

/-- A token is signed for the client that was found not revoked, a revocation is dated, and a list asked
for, from the last reading of the clock. -/
def disciplined : Typestate Act Act.Reply Memory where
  allows act memory :=
    match act with
    | .sign sub _ _ => ∃ found ∈ memory.client, found.1 = sub ∧ found.2.revokedAt = none
    | .revoke _ _ date => date = memory.now
    | .revokedSince since => since = memory.now - REVOCATION_WINDOW_MS
    | _ => True
  after := Memory.after

section Scripts
variable {verify : String → String → Bool}

theorem ask_follows {α : Type} {act : Act} {next : act.Reply → OAuthScript α} {memory : Memory}
    {returns : α → Memory → Prop} (allowed : disciplined.allows act memory)
    (later : ∀ reply, (next reply).Follows disciplined (memory.after act reply) returns fun _ _ => True) :
    (ask act >>= next).Follows disciplined memory returns fun _ _ => True := ⟨allowed, later⟩

theorem clientToken_follows (replica : Nat) (clientId secret : String) (scope : Option String)
    (memory : Memory) :
    (clientToken verify replica clientId secret scope).Follows disciplined memory
    (fun _ _ => True) fun _ _ => True := by
  refine ask_follows trivial fun now => ask_follows trivial fun failure => ?_
  dsimp only
  split
  · trivial
  · refine ask_follows trivial fun found => ?_
    cases found with
    | none => exact ask_follows trivial fun _ => trivial
    | some pair =>
      obtain ⟨row, suspended⟩ := pair
      dsimp only
      split
      · split
        · trivial
        · next usable =>
          split
          · trivial
          · refine ask_follows trivial fun _ => ask_follows trivial
              fun _ => ⟨⟨(clientId, row), rfl, rfl, ?_⟩, fun _ => trivial⟩
            simp only [Bool.or_eq_true, not_or, Bool.not_eq_true, Option.isSome_eq_false_iff,
              Option.isNone_iff_eq_none] at usable
            exact usable.1
      · exact ask_follows trivial fun _ => trivial

theorem revoke_follows (tenantId id : Uuid) (memory : Memory) :
    (revoke tenantId id).Follows disciplined memory (fun _ _ => True) fun _ _ => True := by
  refine ask_follows trivial fun date => ask_follows rfl fun _ => ask_follows trivial fun found => ?_
  cases found with
  | none => trivial
  | some row => exact ⟨trivial, fun _ => trivial⟩

theorem revocations_follows (memory : Memory) :
    revocations.Follows disciplined memory (fun items memory => memory.listed = some items) fun _ _ => True :=
  ⟨trivial, fun _ => ⟨rfl, fun _ => rfl⟩⟩

/-- The answer of a call is the list it was told last. -/
def Told (answer : Answer) (memory : Memory) : Prop := ∀ items, answer = .items items →
    memory.listed = some items

theorem code_follows (call : Call) (memory : Memory) :
    (code verify call).Follows disciplined memory Told fun _ _ => True := by
  cases call with
  | clientToken replica clientId secret scope =>
    refine (clientToken_follows replica clientId secret scope memory).bind fun token memory _ => ?_
    rintro items ⟨⟩
  | revoke tenantId id =>
    refine (revoke_follows tenantId id memory).bind fun _ memory _ => ?_
    rintro items ⟨⟩
  | revocations =>
    refine (revocations_follows memory).bind fun items memory told => ?_
    rintro _ ⟨⟩
    exact told

end Scripts

/-- Every token of a revoked client was issued in a second that began before the revocation. -/
structure Ordered (state : State) : Prop where
  lives : ∀ token ∈ state.issued, token.exp = token.iat + CLIENT_TOKEN_TTL
  before : ∀ row ∈ state.clients, ∀ date ∈ row.revokedAt, ∀ token ∈ state.issued, token.sub = row.clientId →
    token.iat * 1000 < date

theorem Ordered.covers {state : State} (ordered : Ordered state) {now : Nat}
    (past : now ≤ state.clock.millis) :
    Covers state (revokedSince state.clients (now - REVOCATION_WINDOW_MS)) := by
  intro row member revoked token issued own accepted
  obtain ⟨date, dated⟩ := Option.isSome_iff_exists.mp revoked
  have window := accepted_within (ordered.lives token issued) accepted
  have before := ordered.before row member date dated token issued own
  have recent : (now : Int) - REVOCATION_WINDOW_MS < date := by omega
  have listed := mem_revokedSince member dated recent
  exact List.mem_map_of_mem listed

theorem Ordered.mapClients {state : State} (ordered : Ordered state) {f : ApiClient → ApiClient}
    (named : ∀ row, (f row).clientId = row.clientId)
    (dated : ∀ row ∈ state.clients, ∀ date ∈ (f row).revokedAt, date ∈ row.revokedAt ∨
      ∀ token ∈ state.issued, token.sub = row.clientId →
      token.iat * 1000 < date) : Ordered (state.mapClients f) := by
  refine ⟨ordered.lives, fun row member date revoked token issued own => ?_⟩
  obtain ⟨old, here, rfl⟩ := List.mem_map.mp member
  rw [named] at own
  rcases dated old here date revoked with before | late
  · exact ordered.before old here date before token issued own
  · exact late token issued own

-- A step of a call that keeps to its discipline and to the rules keeps the order.
theorem Ordered.act {state : State} (ordered : Ordered state) {pid : Nat} (act : Act)
    (allowed : disciplined.allows act (state.memory pid))
    (permitted : timely.act pid act state) : Ordered (perform act state).2 := by
  cases act with
  | sign sub tenantId scopes =>
    refine ⟨fun token issued => ?_, fun row member date revoked token issued own => ?_⟩
    · rcases List.mem_cons.mp issued with rfl | old
      · rfl
      · exact ordered.lives token old
    · rcases List.mem_cons.mp issued with rfl | old
      · exact permitted allowed row member own.symm date revoked
      · exact ordered.before row member date revoked token old own
  | touch id now =>
    refine ordered.mapClients (fun row => ?_) fun row _ date revoked => .inl ?_
    · split <;> rfl
    · split at revoked <;> exact revoked
  | revoke tenantId id date =>
    refine ordered.mapClients (fun row => ?_) fun row member other revoked => ?_
    · split <;> rfl
    · split at revoked
      · next hit =>
        cases revoked
        have reading : date = (state.memory pid).now := allowed
        rw [reading]
        exact .inr (permitted row member hit.1 hit.2.2)
      · exact .inl revoked
  | _ => exact ⟨ordered.lives, ordered.before⟩

theorem perform_clock (act : Act) (state : State) : (perform act state).2.clock = state.clock := by
  cases act <;> rfl

theorem perform_memory (act : Act) (state : State) : (perform act state).2.memory = state.memory := by
  cases act <;> rfl

theorem Memory.after_now {memory : Memory} {state : State} (past : memory.now ≤ state.clock.millis)
    (act : Act) :
    (memory.after act (perform act state).1).now ≤ state.clock.millis := by
  cases act with
  | now => exact Nat.le_refl _
  | _ => exact past

variable {verify : String → String → Bool}

/-- What every configuration keeps: the order, and calls that do what they may from what they have read. -/
structure Sound (config : Config) : Prop where
  ordered : Ordered config.state
  past : ∀ pid, (config.state.memory pid).now ≤ config.state.clock.millis
  follows : ∀ pid call script, config.procs pid = .running call script →
    script.Follows disciplined (config.state.memory pid) Told fun _ _ => True

theorem Sound.spawned {config : Config} (sound : Sound config) (pid : Nat) (call : Call) :
    Sound (config.put pid config.state (.running call (code verify call))) := by
  refine ⟨sound.ordered, sound.past, fun other own script running => ?_⟩
  by_cases same : other = pid
  · subst same
    rw [Interleaving.Config.put_same] at running
    cases running
    exact code_follows call _
  · rw [Interleaving.Config.put_other _ _ _ same] at running
    exact sound.follows other own script running

theorem Sound.acted {config : Config} (sound : Sound config) {pid : Nat} {call : Call} {act : Act}
    {rest : act.Reply → OAuthScript Answer}
    (running : config.procs pid = .running call (.call act rest))
    (permitted : timely.act pid act config.state) :
    Sound (config.put pid ((perform act config.state).2.remember pid
      ((config.state.memory pid).after act (perform act config.state).1))
      (.running call (rest (perform act config.state).1))) := by
  obtain ⟨allowed, later⟩ := sound.follows pid call _ running
  have ordered := sound.ordered.act act allowed permitted
  refine ⟨⟨ordered.lives, ordered.before⟩, fun other => ?_, fun other own script found => ?_⟩
  all_goals
    simp only [Interleaving.Config.put_state, State.remember, perform_memory, perform_clock] at *
    by_cases same : other = pid
  · subst same
    rw [Function.update_self]
    exact Memory.after_now (sound.past other) act
  · rw [Function.update_of_ne same]
    exact sound.past other
  · subst same
    rw [Interleaving.Config.put_same] at found
    cases found
    rw [Function.update_self]
    exact later _
  · rw [Interleaving.Config.put_other _ _ _ same] at found
    rw [Function.update_of_ne same]
    exact sound.follows other own script found

theorem Sound.step {config next : Config} (sound : Sound config) (move : Interleaving.Move Call Nat)
    (legal : Interleaving.Machine.Legal timely config move)
    (taken : machine.step (code verify) config move = some next) : Sound next := by
  cases move with
  | spawn pid call =>
    simp only [Interleaving.Machine.step] at taken
    split at taken <;> cases taken
    exact sound.spawned pid call
  | act pid choice =>
    simp only [Interleaving.Machine.step] at taken
    split at taken
    · next call act rest running =>
      cases taken
      exact sound.acted running (legal call act rest running)
    · cases taken
  | disturb pid passed =>
    cases taken
    refine ⟨⟨sound.ordered.lives, sound.ordered.before⟩,
      fun other => (sound.past other).trans ?_, sound.follows⟩
    exact Nat.div_le_div_right (Nat.le_add_right _ _)
  | crash pid =>
    simp only [Interleaving.Machine.step] at taken
    split at taken <;> cases taken
    refine ⟨sound.ordered, sound.past, fun other call script running => ?_⟩
    by_cases same : other = pid
    · rw [same, Interleaving.Config.put_same] at running
      cases running
    · rw [Interleaving.Config.put_other _ _ _ same] at running
      exact sound.follows other call script running

theorem reaches_sound {state : State} {last : Config} (unissued : state.issued = [])
    (unread : state.memory = fun _ => {})
    (run : machine.Reaches (code verify) timely (.start state) last) : Sound last := by
  induction run with
  | refl =>
    refine ⟨⟨fun token issued => ?_, fun row _ date _ token issued => ?_⟩, fun pid => ?_,
      fun pid call script running => ?_⟩
    · simp [Interleaving.Config.start, unissued] at issued
    · simp [Interleaving.Config.start, unissued] at issued
    · simp [Interleaving.Config.start, unread]
    · cases running
  | move move _ legal taken sound => exact sound.step move legal taken

/-! ## Answers -/

theorem Answers.mover {config next : Config} {pid other : Nat} {items : List (String × Nat)} {state : State}
    {status : Interleaving.Status Call Act Act.Reply OAuthError Answer}
    (answers : Answers verify config next pid items)
    (put : next = config.put other state status) : other = pid ∧ status = .running .revocations
    (.ret (.items items)) := by
  have same : other = pid := by
    by_contra distinct
    refine answers.running ?_
    rw [put, Interleaving.Config.put_other _ _ _ (Ne.symm distinct)]
  have answer := answers.answer
  rw [put, same, Interleaving.Config.put_same] at answer
  exact ⟨same, answer⟩

-- What a call returns as the list was read off the clients, up to the time it had asked for.
theorem covers_of_told {state : State} (ordered : Ordered state) {memory : Memory}
    (past : memory.now ≤ state.clock.millis) {act : Act}
    (allowed : disciplined.allows act memory) {items : List (String × Nat)}
    (told : (memory.after act (perform act state).1).listed = some items) :
    Covers (perform act state).2 items := by
  cases act with
  | revokedSince since =>
    have asked : since = memory.now - REVOCATION_WINDOW_MS := allowed
    cases told
    rw [asked]
    exact ordered.covers past
  | _ => cases told

theorem Sound.answers {config next : Config} (sound : Sound config) {pid : Nat} {items : List (String × Nat)}
    (answers : Answers verify config next pid items) : Covers next.state items := by
  obtain ⟨move, taken⟩ := answers.step
  cases move with
  | spawn other call =>
    simp only [Interleaving.Machine.step] at taken
    split at taken <;> cases taken
    have started := (answers.mover rfl).2
    injection started with revocations script
    subst revocations
    cases script
  | act other choice =>
    simp only [Interleaving.Machine.step] at taken
    split at taken
    · next call act rest running =>
      cases taken
      obtain ⟨same, answer⟩ := answers.mover rfl
      obtain ⟨allowed, later⟩ := sound.follows other call _ running
      have returned : rest (perform act config.state).1 = .ret (.items items) :=
        (Interleaving.Status.running.inj answer).2
      have told := later (perform act config.state).1
      rw [returned] at told
      exact covers_of_told sound.ordered (sound.past other) allowed (told items rfl)
    · cases taken
  | disturb other passed =>
    cases taken
    exact absurd rfl answers.running
  | crash other =>
    simp only [Interleaving.Machine.step] at taken
    split at taken <;> cases taken
    cases (answers.mover rfl).2

/-- A `revocations` call that nothing comes between. -/
def askList (pid : Nat) : List (Interleaving.Move Call Nat) :=
  [.spawn pid .revocations, .act pid 0, .act pid 0]

/-- Whatever `revocations` answers covers every usable token at that moment, and it can be asked at any,
in every run in which no client gets a token from the second of its revocation on. -/
theorem revocations_cover (verify : String → String → Bool) {state : State} {last : Config}
    (unissued : state.issued = [])
    (unread : state.memory = fun _ => {}) (run : machine.Reaches (code verify) timely (.start state) last) :
    (∀ next pid items, Answers verify last next pid items → Covers next.state items) ∧
      ∀ pid, last.procs pid = .idle → ∃ next items, machine.moves (code verify)
      (askList pid) last = some next ∧
        next.procs pid = .running .revocations (.ret (.items items)) ∧ Covers next.state items := by
  have sound := reaches_sound unissued unread run
  refine ⟨fun next pid items answers => sound.answers answers, fun pid idle => ?_⟩
  have moves : ∃ next, machine.moves (code verify) (askList pid) last = some next ∧
    next.procs pid = .running .revocations
      (.ret (.items (revokedSince last.state.clients (last.state.clock.millis - REVOCATION_WINDOW_MS)))) ∧
      ∃ memory, next.state = { last.state with memory := memory } := by
    simp [askList, Interleaving.Machine.moves, Interleaving.Machine.step, idle, code, revocations, ask,
      Interleaving.Script.await,
      machine, perform, State.remember]
  obtain ⟨next, moves, answer, memory, kept⟩ := moves
  refine ⟨next, _, moves, answer, ?_⟩
  rw [kept]
  exact sound.ordered.covers (Nat.le_refl _)

instance (pid : Nat) (act : Act) (state : State) : Decidable (timely.act pid act state) := by
  cases act with
  | sign sub tenantId scopes =>
    exact inferInstanceAs (Decidable ((∃ found ∈ (state.memory pid).client, found.1 = sub ∧
      found.2.revokedAt = none) →
      ∀ row ∈ state.clients, row.clientId = sub → ∀ date ∈ row.revokedAt, state.clock.seconds * 1000 < date))
  | revoke tenantId id date =>
    exact inferInstanceAs (Decidable (∀ row ∈ state.clients, row.id = id → row.revokedAt = none →
      ∀ token ∈ state.issued, token.sub = row.clientId → token.iat * 1000 < (state.memory pid).now))
  | _ => exact .isTrue trivial

def oneClient : State where
  clock := 10000000000
  clients := [⟨1, 1, "client", "secret", ["contacts:view"], none, none⟩]
  suspended := []
  failures _ := []
  issued := []
  published := []

def plainVerify (hash secret : String) : Bool := hash == secret

def steps (pid count : Nat) : List (Interleaving.Move Call Nat) := List.replicate count (.act pid 0)

def askToken : List (Interleaving.Move Call Nat) := .spawn 0
    (.clientToken 0 "client" "secret" none) :: steps 0 5

def revokeClient : List (Interleaving.Move Call Nat) := .spawn 1 (.revoke 1 1) :: steps 1 4

/-- The client is revoked after its row was read and a second before its token is signed. -/
def revokedMeanwhile : List (Interleaving.Move Call Nat) :=
  askToken ++ revokeClient ++ [.disturb 0 1000000000] ++ steps 0 1 ++
    [.disturb 0 3659500000000] ++ (askList 2).take 2

/-- The token is signed a second before the client is revoked, and an hour later both are still there. -/
def revokedAfterwards : List (Interleaving.Move Call Nat) :=
  askToken ++ steps 0 1 ++ [.disturb 0 1000000000] ++ revokeClient ++
    [.disturb 0 3600000000000] ++ (askList 2).take 2

def listed : Interleaving.Status Call Act Act.Reply OAuthError Answer → Option (List (String × Nat))
  | .running .revocations (.ret (.items items)) => some items
  | _ => none

theorem answers_of_listed {config next : Config} {pid : Nat} {items : List (String × Nat)}
    (taken : machine.step (code verify) config (.act pid 0) = some next)
    (asking : (config.procs pid).next.isSome = true)
    (answer : listed (next.procs pid) = some items) : Answers verify config next pid items := by
  have returned : next.procs pid = .running .revocations (.ret (.items items)) := by
    generalize next.procs pid = status at answer
    unfold listed at answer
    split at answer <;> cases answer
    rfl
  refine ⟨⟨_, taken⟩, fun same => ?_, returned⟩
  rw [same, returned] at asking
  cases asking

/-- Some token that the Go verifier accepts is of a revoked client. -/
def usable (state : State) : Bool :=
  state.clients.any fun row => row.revokedAt.isSome && state.issued.any fun token =>
    decide (token.sub = row.clientId) && decide (goAccepts token state.clock)

theorem not_covers_of_usable {state : State} (found : usable state = true) : ¬ Covers state [] := by
  intro covers
  simp only [usable, List.any_eq_true, Bool.and_eq_true, decide_eq_true_eq] at found
  obtain ⟨row, member, revoked, token, issued, own, accepted⟩ := found
  cases covers row member revoked token issued own (.inl accepted)

theorem late_token_uncovered : ∃ (config next : Config) (items : List (String × Nat)),
      machine.Reaches (code plainVerify) {} (.start oneClient) config ∧ oneClient.issued = [] ∧
      Answers plainVerify config next 2 items ∧ ¬ Covers next.state items := by
  have runs : ((machine.moves (code plainVerify) revokedMeanwhile (.start oneClient)).bind fun config =>
      (machine.step (code plainVerify) config (.act 2 0)).map fun next =>
        ((config.procs 2).next.isSome, listed (next.procs 2), usable next.state)) = some (true,
          some [], true) := by decide
  obtain ⟨config, ran, later⟩ := Option.bind_eq_some_iff.mp runs
  obtain ⟨next, taken, ended⟩ := Option.map_eq_some_iff.mp later
  simp only [Prod.mk.injEq] at ended
  exact ⟨config, next, [], machine.reaches_moves (code plainVerify) .refl revokedMeanwhile ran, rfl,
    answers_of_listed taken ended.1 ended.2.1, not_covers_of_usable ended.2.2⟩

theorem revocations_cover_example : ∃ (config next : Config),
      machine.Reaches (code plainVerify) timely (.start oneClient) config ∧ config.state.issued.length = 1 ∧
      Answers plainVerify config next 2 [("client", 11000)] ∧ Covers next.state [("client", 11000)] := by
  let allowed : Nat → Act → State → Bool := fun pid act state => decide (timely.act pid act state)
  have runs : ((machine.guarded (code plainVerify) allowed revokedAfterwards (.start oneClient)).bind
      fun config =>
      (machine.step (code plainVerify) config (.act 2 0)).map fun next =>
        (config.state.issued.length, (config.procs 2).next.isSome, listed (next.procs 2))) =
      some (1, true, some [("client", 11000)]) := by decide
  obtain ⟨config, ran, later⟩ := Option.bind_eq_some_iff.mp runs
  obtain ⟨next, taken, ended⟩ := Option.map_eq_some_iff.mp later
  simp only [Prod.mk.injEq] at ended
  have reached : machine.Reaches (code plainVerify) timely (.start oneClient) config :=
    (machine.reaches_guarded (code plainVerify) .refl revokedAfterwards ran).permitted
      (fun pid act state permitted => of_decide_eq_true permitted) (fun _ _ _ => trivial) (fun _ _ => trivial)
        fun _ _ => trivial
  have answers := answers_of_listed taken ended.2.1 ended.2.2
  exact ⟨config, next, reached, ended.1, answers,
    (revocations_cover plainVerify rfl rfl reached).1 next 2 _ answers⟩

end OpenEmarsys.OAuth
