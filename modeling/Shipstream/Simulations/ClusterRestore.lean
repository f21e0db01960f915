import Shipstream.Python.Threads

/-! The outside calls of the three simulations that disturb the cluster, in the order
their main functions and threads make them. -/
namespace Shipstream.Simulations.ClusterRestore
open Python Transition

inductive DockerVerb where
  | stop
  | start
  | pause
  | unpause
  deriving DecidableEq, Repr

/-- `client` stands for the imports and constructors; durations are in milliseconds. -/
inductive Call where
  | rpk (args : List String)
  | docker (verb : DockerVerb) (container : String)
  | client
  | serialize
  | produce
  | poll
  | flush
  | sleep (ms : Nat)
  | join
  deriving DecidableEq, Repr

/-- What a run may leave behind. -/
inductive Disturbance where
  | autoCreateOff
  | stopped (container : String)
  | paused (container : String)
  deriving DecidableEq, Repr

def autoCreateTopics (value : String) : Call := .rpk ["cluster", "config", "set", "auto_create_topics_enabled", value]

def effect (c : Call) : Effect Disturbance :=
  if c = autoCreateTopics "false" then .disturb .autoCreateOff
  else if c = autoCreateTopics "true" then .undo .autoCreateOff
  else match c with
    | .docker .stop container => .disturb (.stopped container)
    | .docker .start container => .undo (.stopped container)
    | .docker .pause container => .disturb (.paused container)
    | .docker .unpause container => .undo (.paused container)
    | _ => .neutral

/-- The thread targets. -/
inductive Target where
  | produceUntilStopped (round : Nat)
  | pauseAndResume (leader : String)
  deriving DecidableEq, Repr

abbrev Script := List (Instr Call Target)

/-! sim_auto_create_footgun.py -/

def correctTopic : String := "payment.processed"
def typoTopic : String := "payment.procesed"

/-- `produce_to`: only the body of the loop is in a try block, and only KafkaException is handled. -/
def produceTo (count : Nat) : Script :=
  .call .client :: (List.replicate count (.attempt [.serialize, .produce]) ++ [.call .flush])

/-- Round 1 and round 2 of `main`, after auto-create has been set. -/
def roundEnabled : Script :=
  .call (.sleep 1000) :: (produceTo 20 ++ [.call (.sleep 1000), .call (.rpk ["topic", "list"]),
    .call (.rpk ["group", "describe", "sim-s2-group", "--topics", correctTopic])])

def roundDisabled : Script :=
  .call (.sleep 2000) :: (produceTo 20 ++ [.call (.rpk ["topic", "delete", typoTopic])])

def autoCreateFootgun : Script :=
  .call (autoCreateTopics "true") :: (roundEnabled ++
    .call (autoCreateTopics "false") :: (roundDisabled ++ [.call (autoCreateTopics "true")]))

/-! sim_acks_comparison.py -/

def recreateTopic (topic : String) : Script :=
  [.call (.rpk ["topic", "delete", topic]), .call (.sleep 2000),
    .call (.rpk ["topic", "create", topic, "--partitions", "1", "--replicas", "3"]), .call (.sleep 2000)]

def describeTopic (topic : String) : Instr Call Target :=
  .call (.rpk ["topic", "describe", topic, "--print-partitions"])

/-- `produce_until_stopped`, with the stop flag of its round. -/
def produceUntilStopped (round : Nat) : Script :=
  [.call .client, .whileNot round [.produce, .poll, .sleep 10], .call .flush]

/-- `run_round`, for the leader that `find_leader` returns. -/
def acksRound (round : Nat) (leader : Option String) : Script :=
  recreateTopic "sim.acks-comparison" ++ describeTopic "sim.acks-comparison" ::
    match leader with
    | none => []
    | some container =>
      [.spawn (.produceUntilStopped round), .call (.sleep 3000), .call (.docker .stop container),
        .call (.sleep 3000), .setFlag round, .call .join, .call (.sleep 2000),
        describeTopic "sim.acks-comparison", .call (.docker .start container), .call (.sleep 10000)]

def acksComparison (leader₁ leader₂ : Option String) : Script := acksRound 0 leader₁ ++ acksRound 1 leader₂

/-! sim_idempotence.py -/

def pauseAndResume (leader : String) : Script :=
  [.call (.sleep 500), .call (.docker .pause leader), .call (.sleep 1500), .call (.docker .unpause leader)]

/-- `run_round`; `pauser.join(timeout=5)` may return with the pauser still at work. -/
def idempotenceRound (count : Nat) (leader : String) : Script :=
  recreateTopic "sim.idempotence" ++
    [.call .client, describeTopic "sim.idempotence", .spawn (.pauseAndResume leader)] ++
    (List.replicate count [.call .produce, .call .poll]).flatten ++
    [.call .flush, .call .join, .call (.sleep 3000), describeTopic "sim.idempotence"]

def idempotence (leader₁ leader₂ : String) : Script := idempotenceRound 50 leader₁ ++ idempotenceRound 50 leader₂

/-- The producer thread is an ordinary one, the pauser a daemon. -/
def program : Program Call Target Disturbance where
  effect := effect
  body
    | .produceUntilStopped round => produceUntilStopped round
    | .pauseAndResume leader => pauseAndResume leader
  daemon
    | .produceUntilStopped _ => false
    | .pauseAndResume _ => true

/-- The three simulations, with the leaders their rounds find. -/
inductive Simulation where
  | autoCreateFootgun
  | acksComparison (leader₁ leader₂ : Option String)
  | idempotence (leader₁ leader₂ : String)
  deriving DecidableEq, Repr

def Simulation.main : Simulation → Script
  | .autoCreateFootgun => ClusterRestore.autoCreateFootgun
  | .acksComparison leader₁ leader₂ => ClusterRestore.acksComparison leader₁ leader₂
  | .idempotence leader₁ leader₂ => ClusterRestore.idempotence leader₁ leader₂

/-- Auto-create is not left off, and no container stopped or paused. -/
def Restored (s : Process Call Target Disturbance) : Prop :=
  .autoCreateOff ∉ s.outstanding ∧ ∀ container, .stopped container ∉ s.outstanding ∧ .paused container ∉ s.outstanding

/-! Every script is sound: each disturbance has its undo further on. -/

private theorem produceTo_quiet (count : Nat) : ∀ instr ∈ produceTo count, Quiet program instr := by
  intro instr hin
  simp only [produceTo, List.mem_cons, List.mem_append, List.mem_replicate, List.not_mem_nil, or_false] at hin
  rcases hin with rfl | ⟨-, rfl⟩ | rfl
  · rfl
  · intro c hc
    simp only [List.mem_cons, List.not_mem_nil, or_false] at hc
    rcases hc with rfl | rfl <;> rfl
  · rfl

private theorem quiet_append {rest more : Script} (h : ∀ instr ∈ rest, Quiet program instr)
    (h' : ∀ instr ∈ more, Quiet program instr) : ∀ instr ∈ rest ++ more, Quiet program instr :=
  List.forall_mem_append.mpr ⟨h, h'⟩

private theorem roundEnabled_quiet : ∀ instr ∈ roundEnabled, Quiet program instr :=
  List.forall_mem_cons.mpr
    ⟨rfl, quiet_append (produceTo_quiet 20) (by simp [Quiet, program, effect, autoCreateTopics])⟩

private theorem roundDisabled_quiet : ∀ instr ∈ roundDisabled, Quiet program instr :=
  List.forall_mem_cons.mpr
    ⟨rfl, quiet_append (produceTo_quiet 20) (by simp [Quiet, program, effect, autoCreateTopics])⟩

private theorem effect_on : program.effect (autoCreateTopics "true") = .undo .autoCreateOff := rfl

private theorem effect_off : program.effect (autoCreateTopics "false") = .disturb .autoCreateOff := rfl

private theorem effect_docker (verb : DockerVerb) (container : String) : program.effect (.docker verb container) =
    match verb with
    | .stop => .disturb (.stopped container)
    | .start => .undo (.stopped container)
    | .pause => .disturb (.paused container)
    | .unpause => .undo (.paused container) := by
  cases verb <;> rfl

private theorem autoCreateFootgun_sound : Sound program autoCreateFootgun :=
  Sound.undo effect_on (Sound.quiet roundEnabled_quiet
    (Sound.bracket effect_off roundDisabled_quiet effect_on Sound.nil))

private theorem recreateTopic_quiet (topic : String) : ∀ instr ∈ recreateTopic topic, Quiet program instr := by
  simp [recreateTopic, Quiet, program, effect, autoCreateTopics]

private theorem describeTopic_quiet (topic : String) : Quiet program (describeTopic topic) := by
  simp [describeTopic, Quiet, program, effect, autoCreateTopics]

private theorem acksRound_sound (round : Nat) (leader : Option String) {more : Script} (h : Sound program more) :
    Sound program (acksRound round leader ++ more) := by
  have hdescribe := describeTopic_quiet "sim.acks-comparison"
  have hsetup : ∀ instr ∈ recreateTopic "sim.acks-comparison" ++ [describeTopic "sim.acks-comparison"],
      Quiet program instr := quiet_append (recreateTopic_quiet _) (by simpa using hdescribe)
  cases leader with
  | none => simpa [acksRound] using Sound.quiet hsetup h
  | some container =>
    have hproduce : ∀ instr ∈ ([.spawn (.produceUntilStopped round), .call (.sleep 3000)] : Script),
        Quiet program instr := by simp [Quiet, program, effect, autoCreateTopics]
    have hstopped : ∀ instr ∈ ([.call (.sleep 3000), .setFlag round, .call .join, .call (.sleep 2000),
        describeTopic "sim.acks-comparison"] : Script), Quiet program instr := by
      simp [describeTopic, Quiet, program, effect, autoCreateTopics]
    have hlast : ∀ instr ∈ ([.call (.sleep 10000)] : Script), Quiet program instr := by
      simp [Quiet, program, effect, autoCreateTopics]
    have hsound := Sound.quiet hsetup (Sound.quiet hproduce
      (Sound.bracket (effect_docker .stop container) hstopped (effect_docker .start container) (Sound.quiet hlast h)))
    simpa [acksRound] using hsound

private theorem idempotenceRound_quiet (count : Nat) (leader : String) :
    ∀ instr ∈ idempotenceRound count leader, Quiet program instr := by
  intro instr hin
  simp only [idempotenceRound, List.mem_append, List.mem_flatten, List.mem_replicate] at hin
  rcases hin with ((hin | hin) | ⟨calls, ⟨-, rfl⟩, hin⟩) | hin
  · exact recreateTopic_quiet _ instr hin
  · revert instr
    simp [describeTopic, Quiet, program, effect, autoCreateTopics]
  · revert instr
    simp [Quiet, program, effect, autoCreateTopics]
  · revert instr
    simp [describeTopic, Quiet, program, effect, autoCreateTopics]

private theorem Simulation.main_sound (sim : Simulation) : Sound program sim.main := by
  cases sim with
  | autoCreateFootgun => exact autoCreateFootgun_sound
  | acksComparison leader₁ leader₂ =>
    have hsecond := acksRound_sound 1 leader₂ (Sound.nil : Sound program [])
    rw [List.append_nil] at hsecond
    exact acksRound_sound 0 leader₁ hsecond
  | idempotence leader₁ leader₂ =>
    have hquiet := quiet_append (idempotenceRound_quiet 50 leader₁) (idempotenceRound_quiet 50 leader₂)
    simpa [Simulation.main, ClusterRestore.idempotence] using Sound.quiet hquiet Sound.nil

private theorem body_sound (t : Target) : Sound program (program.body t) := by
  cases t with
  | produceUntilStopped round =>
    have hquiet : ∀ instr ∈ produceUntilStopped round, Quiet program instr := by
      simp [produceUntilStopped, Quiet, program, effect, autoCreateTopics]
    rw [← List.append_nil (program.body _)]
    exact Sound.quiet hquiet Sound.nil
  | pauseAndResume leader =>
    have hbefore : ∀ instr ∈ ([.call (.sleep 500)] : Script), Quiet program instr := by
      simp [Quiet, program, effect, autoCreateTopics]
    have hpaused : ∀ instr ∈ ([.call (.sleep 1500)] : Script), Quiet program instr := by
      simp [Quiet, program, effect, autoCreateTopics]
    exact Sound.quiet hbefore
      (Sound.bracket (effect_docker .pause leader) hpaused (effect_docker .unpause leader) Sound.nil)

/-- In every run of the three simulations in which no thread is ended, by an exception
or with the process, between disturbing the cluster and undoing it, everything is
restored at the exit of the process. -/
theorem cluster_restored (sim : Simulation) {events : List Event} {s : Process Call Target Disturbance}
    (hrun : Run (Guarded (Step program) (Unhurt program)) (.initial sim.main) events s)
    (hexit : s.exited = true) : Restored s := by
  have hnone := restored_of_unhurt body_sound sim.main_sound hrun hexit
  simp [Restored, hnone]

/-- The exit of every run with at most one exception that is not handled leaves nothing behind. -/
def Restores (sim : Simulation) : Prop := ∀ (events : List Event) (s : Process Call Target Disturbance),
  Run (Step program) (.initial sim.main) events s → events.countP Event.isRaise ≤ 1 → s.exited = true → Restored s

private theorem over_of_two {s : Process Call Target Disturbance} (hcount : s.count = 2) (h₀ : (s.threads 0).Over)
    (h₁ : (s.threads 1).daemon = true ∨ (s.threads 1).Over) :
    ∀ i < s.count, (s.threads i).daemon = false → (s.threads i).Over := by
  intro i hi hd
  rw [hcount] at hi
  interval_cases i
  · exact h₀
  · apply h₁.resolve_left
    intro ht
    rw [ht] at hd
    cases hd

/-- A run that stops the leader of its first round, starts it again, and finds none for the second. -/
theorem run_acks : ∃ events s, Run (Guarded (Step program) (Unhurt program))
    (.initial (Simulation.acksComparison (some "redpanda-1") none).main) events s ∧ s.exited = true :=
  ⟨_, _,
    Step.unhurt_cons (.call 0 _ ⟨rfl, by decide, rfl⟩ rfl) <|
    Step.unhurt_cons (.call 0 _ ⟨rfl, by decide, rfl⟩ rfl) <|
    Step.unhurt_cons (.call 0 _ ⟨rfl, by decide, rfl⟩ rfl) <|
    Step.unhurt_cons (.call 0 _ ⟨rfl, by decide, rfl⟩ rfl) <|
    Step.unhurt_cons (.call 0 _ ⟨rfl, by decide, rfl⟩ rfl) <|
    Step.unhurt_cons (.spawn 0 ⟨rfl, by decide, rfl⟩ rfl) <|
    Step.unhurt_cons (.call 0 _ ⟨rfl, by decide, rfl⟩ rfl) <|
    Step.unhurt_cons (.call 0 _ ⟨rfl, by decide, rfl⟩ rfl) <|
    Step.unhurt_cons (.call 0 _ ⟨rfl, by decide, rfl⟩ rfl) <|
    Step.unhurt_cons (.setFlag 0 ⟨rfl, by decide, rfl⟩ rfl) <|
    Step.unhurt_cons (.call 1 _ ⟨rfl, by decide, rfl⟩ rfl) <|
    Step.unhurt_cons (.test 1 ⟨rfl, by decide, rfl⟩ rfl) <|
    Step.unhurt_cons (.call 1 _ ⟨rfl, by decide, rfl⟩ rfl) <|
    Step.unhurt_cons (.call 0 _ ⟨rfl, by decide, rfl⟩ rfl) <|
    Step.unhurt_cons (.call 0 _ ⟨rfl, by decide, rfl⟩ rfl) <|
    Step.unhurt_cons (.call 0 _ ⟨rfl, by decide, rfl⟩ rfl) <|
    Step.unhurt_cons (.call 0 _ ⟨rfl, by decide, rfl⟩ rfl) <|
    Step.unhurt_cons (.call 0 _ ⟨rfl, by decide, rfl⟩ rfl) <|
    Step.unhurt_cons (.call 0 _ ⟨rfl, by decide, rfl⟩ rfl) <|
    Step.unhurt_cons (.call 0 _ ⟨rfl, by decide, rfl⟩ rfl) <|
    Step.unhurt_cons (.call 0 _ ⟨rfl, by decide, rfl⟩ rfl) <|
    Step.unhurt_cons (.call 0 _ ⟨rfl, by decide, rfl⟩ rfl) <|
    Step.unhurt_cons (.call 0 _ ⟨rfl, by decide, rfl⟩ rfl) <|
    Step.unhurt_exit (.exit rfl (.inl rfl) (over_of_two rfl (.inl rfl) (.inr (.inl rfl)))) (by decide), rfl⟩

theorem cluster_restored_acks : ∃ events s, Run (Guarded (Step program) (Unhurt program))
    (.initial (Simulation.acksComparison (some "redpanda-1") none).main) events s ∧ s.exited = true ∧ Restored s := by
  obtain ⟨events, s, hrun, hexit⟩ := run_acks
  exact ⟨events, s, hrun, hexit, cluster_restored _ hrun hexit⟩

/-- `rpk` raises in `high_watermark`, with the leader stopped. -/
theorem acks_leaves_stopped : ∃ events s,
    Run (Step program) (.initial (Simulation.acksComparison (some "redpanda-1") none).main) events s ∧
      events.countP Event.isRaise ≤ 1 ∧ s.exited = true ∧ s.outstanding = {.stopped "redpanda-1"} :=
  ⟨_, _,
    .cons (.call 0 _ ⟨rfl, by decide, rfl⟩ rfl) <| .cons (.call 0 _ ⟨rfl, by decide, rfl⟩ rfl) <|
    .cons (.call 0 _ ⟨rfl, by decide, rfl⟩ rfl) <| .cons (.call 0 _ ⟨rfl, by decide, rfl⟩ rfl) <|
    .cons (.call 0 _ ⟨rfl, by decide, rfl⟩ rfl) <| .cons (.spawn 0 ⟨rfl, by decide, rfl⟩ rfl) <|
    .cons (.call 0 _ ⟨rfl, by decide, rfl⟩ rfl) <| .cons (.call 0 _ ⟨rfl, by decide, rfl⟩ rfl) <|
    .cons (.call 0 _ ⟨rfl, by decide, rfl⟩ rfl) <| .cons (.setFlag 0 ⟨rfl, by decide, rfl⟩ rfl) <|
    .cons (.call 1 _ ⟨rfl, by decide, rfl⟩ rfl) <| .cons (.test 1 ⟨rfl, by decide, rfl⟩ rfl) <|
    .cons (.call 1 _ ⟨rfl, by decide, rfl⟩ rfl) <| .cons (.call 0 _ ⟨rfl, by decide, rfl⟩ rfl) <|
    .cons (.call 0 _ ⟨rfl, by decide, rfl⟩ rfl) <|
    .cons (.raise 0 _ ⟨rfl, by decide, rfl⟩ rfl (by decide)) <|
    .cons (.exit rfl (.inr rfl) (over_of_two rfl (.inr rfl) (.inr (.inl rfl)))) <| .nil _,
    by decide, rfl, by decide⟩

/-- A produce raises in the main thread, with the leader paused. -/
theorem idempotence_leaves_paused : ∃ events s,
    Run (Step program) (.initial (Simulation.idempotence "redpanda-1" "redpanda-1").main) events s ∧
      events.countP Event.isRaise ≤ 1 ∧ s.exited = true ∧ s.outstanding = {.paused "redpanda-1"} :=
  ⟨_, _,
    .cons (.call 0 _ ⟨rfl, by decide, rfl⟩ rfl) <| .cons (.call 0 _ ⟨rfl, by decide, rfl⟩ rfl) <|
    .cons (.call 0 _ ⟨rfl, by decide, rfl⟩ rfl) <| .cons (.call 0 _ ⟨rfl, by decide, rfl⟩ rfl) <|
    .cons (.call 0 _ ⟨rfl, by decide, rfl⟩ rfl) <| .cons (.call 0 _ ⟨rfl, by decide, rfl⟩ rfl) <|
    .cons (.spawn 0 ⟨rfl, by decide, rfl⟩ rfl) <| .cons (.call 1 _ ⟨rfl, by decide, rfl⟩ rfl) <|
    .cons (.call 1 _ ⟨rfl, by decide, rfl⟩ rfl) <|
    .cons (.raise 0 _ ⟨rfl, by decide, rfl⟩ rfl (by decide)) <|
    .cons (.exit rfl (.inr rfl) (over_of_two rfl (.inr rfl) (.inl rfl))) <| .nil _,
    by decide, rfl, by decide⟩

/-- The sleep after switching auto-create off raises. -/
theorem footgun_leaves_off : ∃ events s,
    Run (Step program) (.initial Simulation.autoCreateFootgun.main) events s ∧
      events.countP Event.isRaise ≤ 1 ∧ s.exited = true ∧ s.outstanding = {.autoCreateOff} := by
  let off : Script := .call (autoCreateTopics "false") :: (roundDisabled ++ [.call (autoCreateTopics "true")])
  let started : Process Call Target Disturbance := .initial Simulation.autoCreateFootgun.main
  let enabled : Process Call Target Disturbance :=
    { started.setRest 0 (roundEnabled ++ off) with outstanding := ∅ }
  have hstarted : started.Live 0 := ⟨rfl, by decide, rfl⟩
  have henabled : enabled.Live 0 := ⟨rfl, by decide, rfl⟩
  have hfirst : Step program started (.step 0) enabled := .call 0 (autoCreateTopics "true") hstarted rfl
  obtain ⟨events, hround, hcount⟩ := run_quiet roundEnabled_quiet (by decide) henabled
    (rfl : _ = roundEnabled ++ off)
  refine ⟨_, _, (Run.cons hfirst hround).append <| .cons (.call 0 _ ⟨rfl, by decide, rfl⟩ rfl) <|
    .cons (.raise 0 _ ⟨rfl, by decide, rfl⟩ rfl (by decide)) <| .cons (.exit rfl (.inr rfl) ?_) <| .nil _,
    ?_, rfl, by decide⟩
  · intro i hi _
    have hi' : i < 1 := hi
    interval_cases i
    exact .inr rfl
  · rw [List.countP_append, List.countP_cons, hcount]
    decide

/-- None of the three simulations restores the cluster on every path. -/
theorem not_restored : ¬ Restores .autoCreateFootgun ∧ ¬ Restores (.acksComparison (some "redpanda-1") none) ∧
    ¬ Restores (.idempotence "redpanda-1" "redpanda-1") := by
  refine ⟨fun h => ?_, fun h => ?_, fun h => ?_⟩
  · obtain ⟨events, s, hrun, hraise, hexit, hleft⟩ := footgun_leaves_off
    exact (h events s hrun hraise hexit).1 (by simp [hleft])
  · obtain ⟨events, s, hrun, hraise, hexit, hleft⟩ := acks_leaves_stopped
    exact ((h events s hrun hraise hexit).2 "redpanda-1").1 (by simp [hleft])
  · obtain ⟨events, s, hrun, hraise, hexit, hleft⟩ := idempotence_leaves_paused
    exact ((h events s hrun hraise hexit).2 "redpanda-1").2 (by simp [hleft])

end Shipstream.Simulations.ClusterRestore
