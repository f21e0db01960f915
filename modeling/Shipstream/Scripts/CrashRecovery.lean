import Shipstream.Shell.Errexit

/-! simulations/sim_crash_recovery.sh under `set -euo pipefail`. Any command that runs a program
may fail at any point, and the clock may be set while the script runs. -/
namespace Shipstream.Scripts.CrashRecovery
open Shell

/-- `topic:parts:msgs` -/
structure Spec where
  topic : String
  parts : Nat
  msgs : Nat
  deriving DecidableEq, Repr

structure Scenario where
  label : String
  specs : List Spec
  deriving DecidableEq, Repr

/-- The sum that `total_parts` should hold. -/
def Scenario.total (sc : Scenario) : Nat := (sc.specs.map Spec.parts).sum

/-- The container as `docker kill` and `docker start` left it, the topics with their partitions, the
background producers not waited for, what the clock showed so far, the log file and the variables of
the script. -/
structure Sim where
  running : Bool
  topics : String → Option Nat
  floods : Nat
  labels : List String -- RESULT_LABELS
  parts : List Nat     -- RESULT_PARTS
  ms : List Int        -- RESULT_MS
  readings : List Int
  lines : List String
  start : Int
  finish : Int
  recoveryMs : Int
  totalParts : Nat
  kafkaThreads : Nat
  result : String

/-! The commands. -/

/-- A program that changes nothing of the state. -/
def program : Cmd Sim := .simple fun s _ t => t = s

def sleep (_milliseconds : Nat) : Cmd Sim := program

/-- `printf '%s\n' "$1" | tee -a "$LOG_FILE"`; a failing `tee` may have written the line. -/
def log (line : String) : Cmd Sim := .simple fun s ok t =>
  t = { s with lines := s.lines ++ [line] } ∨ ok = false ∧ t = s

def sep : Cmd Sim := log (String.ofList (List.replicate 70 '='))

def sep2 : Cmd Sim := log (String.ofList (List.replicate 70 '-'))

/-- `> "$LOG_FILE"` -/
def truncate : Cmd Sim := .simple fun s ok t => t = { s with lines := [] } ∨ ok = false ∧ t = s

/-- `start=$(ms_now)` and `end=$(ms_now)`: the program prints what the clock shows, which may be less
than what it showed before. -/
def msNow (store : Sim → Int → Sim) : Cmd Sim := .simple fun s ok t =>
  (∃ now, t = { store s now with readings := s.readings ++ [now] }) ∨ ok = false ∧ t = s

/-- `docker kill redpanda`; a failing one may have stopped the container. -/
def dockerKill : Cmd Sim := .simple fun s ok t => ∃ running, (ok = true → running = false) ∧
  t = { s with running := running }

/-- `docker start redpanda`; a failing one may have started the container. -/
def dockerStart : Cmd Sim := .simple fun s ok t => ∃ running, (ok = true → running = true) ∧
  t = { s with running := running }

/-- `docker exec redpanda rpk cluster health | grep -q "Healthy:.*true"` -/
def healthy : Cmd Sim := .simple fun s ok t => t = s ∧ (ok = true → s.running = true)

def deleteTopic (topic : String) : Cmd Sim := .simple fun s ok t =>
  t = { s with topics := Function.update s.topics topic none } ∨ ok = false ∧ t = s

/-- `result=$(docker exec redpanda rpk topic create ... | awk ...)`: with pipefail the assignment
fails when `rpk` does, which it does when the topic was not created. -/
def rpkTopicCreate (topic : String) (parts : Nat) : Cmd Sim := .simple fun s ok t => ∃ text,
  t = { s with result := text, topics := Function.update s.topics topic (some parts) } ∨
    ok = false ∧ t = { s with result := text }

def createTopic (topic : String) (parts : Nat) : Cmd Sim := .call <| .block [
  .orElse (deleteTopic topic) .skip, sleep 500, rpkTopicCreate topic parts,
  .expand fun s => log ("  [create] " ++ topic ++ " (" ++ toString parts ++ " partitions): " ++
    if s.result = "" then "OK" else s.result)]

/-- `python3 simulations/payment_producer.py --topic "$1" --count "$2" --silent` -/
def flood (_topic : String) (_msgs : Nat) : Cmd Sim := .call program

def startFlood : Cmd Sim := .assign fun s => { s with floods := s.floods + 1 }

/-- `wait "$flood_pid" 2>/dev/null` returns when the producer has ended, with its status. -/
def waitFlood : Cmd Sim := .simple fun s _ t => t = { s with floods := s.floods - 1 }

/-- `for _ in $(seq 1 90)` -/
def pollHealth : Cmd Sim := .each (fun _ => .block [
  .cond healthy
    (.block [msNow fun s now => { s with finish := now },
      .assign fun s => { s with recoveryMs := s.finish - s.start }, .ret])
    .skip,
  sleep 1000]) (List.range 90)

def waitHealthy : Cmd Sim := .call <| .block [
  msNow fun s now => { s with start := now }, pollHealth,
  log "[ERROR] Broker did not become healthy within 90s", .exit]

def killLine : String := "[kill]    docker kill redpanda (SIGKILL — simulates power loss)..."

def startLine : String := "[start]   docker start redpanda..."

def crashAndRecover : Cmd Sim := .call <| .block [
  log killLine, dockerKill, sleep 500, log startLine, dockerStart, log "[waiting] polling cluster health...",
  waitHealthy, .expand fun s => log ("[healthy] broker ready in " ++ toString s.recoveryMs ++ "ms")]

/-- The line about `primary_topic`; with `set -u` the script ends where `specs[0]` is unbound. -/
def announceFlood : List Spec → Cmd Sim
  | [] => .exit
  | spec :: _ => log ("  [flood]   Starting background flood on " ++ spec.topic ++ " (in-flight at kill)...")

/-- Create topics -/
def createTopics (sc : Scenario) : Cmd Sim := .block [
  sep, log ("  " ++ sc.label), sep, log "",
  .assign fun s => { s with totalParts := 0 },
  .each (fun spec => .block [createTopic spec.topic spec.parts,
    .assign fun s => { s with totalParts := s.totalParts + spec.parts }]) sc.specs,
  log "",
  .expand fun s => log ("  Total partition directories broker must recover: " ++ toString s.totalParts),
  log ""]

/-- Seed all topics with committed messages -/
def seedTopics (sc : Scenario) : Cmd Sim := .block [
  log "  Seeding topics...",
  .each (fun spec => .block [log ("  [flood]   " ++ spec.topic ++ " ← " ++ toString spec.msgs ++ " payments"),
    flood spec.topic spec.msgs]) sc.specs,
  log ""]

/-- Crash with in-flight messages, and recover -/
def crashUnderLoad (sc : Scenario) : Cmd Sim := .block [
  announceFlood sc.specs, startFlood, sleep 2000, crashAndRecover, .orElse waitFlood .skip, log ""]

/-- Kafka thread analogy, and the row of the results -/
def recordResult (sc : Scenario) : Cmd Sim := .block [
  .assign fun s => { s with kafkaThreads := s.totalParts / 3 },
  .andThen (.simple fun s ok t => ok = decide (s.kafkaThreads < 1) ∧ t = s)
    (.assign fun s => { s with kafkaThreads := 1 }),
  .expand fun s => log ("  Kafka analogy: " ++ toString s.totalParts ++ " partition dirs → use"),
  .expand fun s => log ("  num.recovery.threads.per.data.dir=" ++ toString s.kafkaThreads ++ " to scan " ++
    toString s.kafkaThreads ++ " dirs in parallel."),
  log "",
  .assign fun s => { s with labels := s.labels ++ [sc.label] },
  .assign fun s => { s with parts := s.parts ++ [s.totalParts] },
  .assign fun s => { s with ms := s.ms ++ [s.recoveryMs] },
  sep2, log ""]

def runScenario (sc : Scenario) : Cmd Sim :=
  .call <| .block [createTopics sc, seedTopics sc, crashUnderLoad sc, recordResult sc]

/-- A row of the summary; `row` is what `printf` makes of its three columns. With `set -u` an index
that one of the arrays does not have ends the script. -/
def summaryRow (row : String → String → String → String) (i : Nat) : Cmd Sim := .expand fun s =>
  match s.labels[i]?, s.parts[i]?, s.ms[i]? with
  | some label, some parts, some ms => log (row label (toString parts) (toString ms))
  | _, _, _ => .exit

/-- The note that closes the log. -/
def notes : List String := ["",
  "  Note: on this single-node Docker setup with --smp 1, partition count",
  "  has limited impact because only one core is available. On a real",
  "  multi-core Kafka broker the difference would be more pronounced.", "",
  "  Kafka analogy — num.recovery.threads.per.data.dir",
  "  ──────────────────────────────────────────────────",
  "  threads=1 (default) : partition dirs scanned one at a time",
  "                        → recovery time scales linearly with partition count", "",
  "  threads=N           : N dirs scanned concurrently per log.dir",
  "                        → recovery time ≈ max(time per dir) when N ≥ dir count", "",
  "  With 2 log.dirs and threads=4: 4 × 2 = 8 dirs recovered in parallel.", "",
  "  Rule of thumb: set threads to match the number of physical disks,",
  "  multiplied by available I/O cores. Kafka default (1) is almost always",
  "  too low for production clusters with many partitions.", "",
  "  Redpanda note: the Seastar scheduler manages per-shard I/O concurrency",
  "  internally — no manual thread knob is exposed.", "",
  "Log saved to logs/simulations/crash_recovery.log"]

/-- The script with the given scenarios. -/
def script (row : String → String → String → String) (rule : String) (scenarios : List Scenario) : Cmd Sim :=
  .block [
    program, truncate,
    log "Simulation S5 — Crash recovery: partition count vs recovery time",
    log "Demonstrates the workload that num.recovery.threads.per.data.dir parallelises.", log "",
    .assign fun s => { s with recoveryMs := 0, labels := [], parts := [], ms := [] },
    .each runScenario scenarios,
    sep, log "  RECOVERY TIME SUMMARY", sep, log "", log (row "Scenario" "Partitions" "Recovery (ms)"), log rule,
    .expand fun s => .each (summaryRow row) (List.range s.labels.length),
    .each log notes]

/-- SCENARIO A, B and C. -/
def scenarios : List Scenario := [
  ⟨"SCENARIO A — 3 partitions (low recovery load)", [⟨"payment.processed", 3, 300⟩]⟩,
  ⟨"SCENARIO B — 12 partitions across 3 topics (medium recovery load)",
    [⟨"payment.processed", 4, 300⟩, ⟨"payment.refunds", 4, 100⟩, ⟨"payment.failures", 4, 100⟩]⟩,
  ⟨"SCENARIO C — 24 partitions across 6 topics (high recovery load)",
    [⟨"payment.processed", 6, 300⟩, ⟨"payment.refunds", 4, 100⟩, ⟨"payment.failures", 4, 100⟩,
      ⟨"payment.chargebacks", 4, 50⟩, ⟨"payment.disputes", 4, 50⟩, ⟨"payment.audit", 2, 50⟩]⟩]

/-! What holds between and within the scenarios. -/

/-- The topics after creating the given ones. -/
def created (topics : String → Option Nat) (specs : List Spec) : String → Option Nat :=
  specs.foldl (fun topics spec => Function.update topics spec.topic (some spec.parts)) topics

/-- One row for each of the given scenarios, with the difference of the two readings of the clock that
were made for it; the given readings came after them. -/
structure Rows (finished : List Scenario) (rest : List Int) (s : Sim) : Prop where
  labels : s.labels = finished.map Scenario.label
  parts : s.parts = finished.map Scenario.total
  measured : ∃ times : List (Int × Int), times.length = finished.length ∧
    s.ms = times.map (fun time => time.2 - time.1) ∧
    s.readings = times.flatMap (fun time => [time.1, time.2]) ++ rest

/-- The broker is up, with its topics created, the given number of producers in the background and
the given number of partitions counted. -/
structure Up (finished : List Scenario) (topics : String → Option Nat) (floods total : Nat) (rest : List Int)
    (s : Sim) : Prop extends Rows finished rest s where
  running : s.running = true
  topics : s.topics = topics
  floods : s.floods = floods
  total : s.totalParts = total

/-- The script may stop anywhere: at most one producer is left, and a container that is left
stopped shows in the last line of the log. -/
def Stopped (scenarios : List Scenario) (s : Sim) : Prop :=
  s.floods ≤ 1 ∧ (∃ finished rest, finished <+: scenarios ∧ Rows finished rest s) ∧
    (s.running = false → s.lines.getLast? = some killLine ∨ s.lines.getLast? = some startLine)

/-- A condition that further lines in the log do not end. -/
def Quiet (P : Sim → Prop) : Prop := ∀ s more, P s → P { s with lines := s.lines ++ more }

variable {scs finished : List Scenario} {topics : String → Option Nat} {floods total : Nat} {rest : List Int}
  {P R : Sim → Prop}

private theorem Rows.quiet : Quiet (Rows finished rest) := fun _ _ h => ⟨h.labels, h.parts, h.measured⟩

private theorem Rows.read {s : Sim} (h : Rows finished rest s) (now : Int) :
    Rows finished (rest ++ [now]) { s with readings := s.readings ++ [now] } := by
  obtain ⟨times, hlength, hms, hreadings⟩ := h.measured
  exact ⟨h.labels, h.parts, times, hlength, hms, by rw [hreadings, List.append_assoc]⟩

private theorem Up.quiet : Quiet (Up finished topics floods total rest) :=
  fun s more h => ⟨Rows.quiet s more h.toRows, h.running, h.topics, h.floods, h.total⟩

private theorem Up.stopped {s : Sim} (h : Up finished topics floods total rest s) (hf : finished <+: scs)
    (hfloods : floods ≤ 1) : Stopped scs s := by
  refine ⟨h.floods.trans_le hfloods, ⟨finished, rest, hf, h.toRows⟩, fun hr => ?_⟩
  rw [h.running] at hr
  cases hr

/-- The broker is up again, and the time that took is known. -/
def Recovered (finished : List Scenario) (topics : String → Option Nat) (floods total : Nat) (s : Sim) : Prop :=
  ∃ start finish, Up finished topics floods total [start, finish] s ∧ s.recoveryMs = finish - start

private theorem Recovered.quiet : Quiet (Recovered finished topics floods total) :=
  fun s more ⟨start, finish, h, hms⟩ => ⟨start, finish, Up.quiet s more h, hms⟩

private theorem Recovered.stopped {s : Sim} (h : Recovered finished topics floods total s) (hf : finished <+: scs)
    (hfloods : floods ≤ 1) : Stopped scs s := by
  obtain ⟨start, finish, hup, -⟩ := h
  exact hup.stopped hf hfloods

section Commands
variable {E : Sim → Prop} {tested : Bool}

/-- How a condition goes on when a command fails. -/
private theorem status_at {s : Sim} (h : P s) (hE : ∀ s, P s → E s) :
    (⟨fun _ => P, R, E⟩ : Post Sim).At (.status tested false) s := by
  cases tested with
  | true => exact h
  | false => exact hE s h

private theorem log_quiet (hP : Quiet P) (hE : ∀ s, P s → E s) (line : String) :
    Triple tested P (log line) ⟨fun _ => P, R, E⟩ := by
  refine .simple ?_ ?_
  · rintro s t hp (rfl | ⟨hok, -⟩)
    · exact hP s [line] hp
    · cases hok
  · rintro s t hp (rfl | ⟨-, rfl⟩)
    · exact status_at (hP s [line] hp) hE
    · exact status_at hp hE

private theorem program_keeps (hE : ∀ s, P s → E s) : Triple tested P program ⟨fun _ => P, R, E⟩ := by
  refine .simple ?_ ?_
  · rintro s t hp rfl
    exact hp
  · rintro s t hp rfl
    exact status_at hp hE

private theorem log_of_quiet (hP : Quiet P) (hE : ∀ s, P s → E s) (line : Sim → String) :
    Triple tested P (.expand fun s => log (line s)) ⟨fun _ => P, R, E⟩ :=
  .expand fun s hs => (log_quiet hP hE (line s)).pre fun _ h => h ▸ hs

/-- A program that ends well or not under a tested `|| true`. -/
private theorem orTrue {c : Cmd Sim} {Q : Sim → Prop} (h : Triple true P c ⟨fun _ => Q, R, E⟩) :
    Triple tested P (.orElse c .skip) ⟨fun _ => Q, R, E⟩ :=
  .orElse h (fun _ => id) (.skip fun _ => id)

private theorem msNow_spec {Q : Sim → Prop} {store : Sim → Int → Sim}
    (hok : ∀ s now, P s → Q { store s now with readings := s.readings ++ [now] }) (hQ : ∀ s, Q s → E s)
    (hE : ∀ s, P s → E s) : Triple false P (msNow store) ⟨fun _ => Q, R, E⟩ := by
  refine .simple ?_ ?_
  · rintro s t hp (⟨now, rfl⟩ | ⟨hok, -⟩)
    · exact hok s now hp
    · cases hok
  · rintro s t hp (⟨now, rfl⟩ | ⟨-, rfl⟩)
    · exact hQ _ (hok s now hp)
    · exact hE _ hp

end Commands

/-! One scenario. -/

/-- Polled until it is healthy, the broker has been measured; else the script has stopped. -/
theorem waitHealthy_spec (hf : finished <+: scs) (hfloods : floods ≤ 1) :
    Triple false (Up finished topics floods total []) waitHealthy
      ⟨fun _ => Recovered finished topics floods total, R, Stopped scs⟩ := by
  have hstop : ∀ rest s, Up finished topics floods total rest s → Stopped scs s := fun _ s h => h.stopped hf hfloods
  have hread : ∀ rest s now, Up finished topics floods total rest s →
      Up finished topics floods total (rest ++ [now]) { s with readings := s.readings ++ [now] } :=
    fun _ s now h => ⟨h.toRows.read now, h.running, h.topics, h.floods, h.total⟩
  let started : Sim → Prop := fun s => Up finished topics floods total [s.start] s
  let ended : Sim → Prop := fun s => Up finished topics floods total [s.start, s.finish] s
  have hstarted : Quiet started := fun s more h => Up.quiet s more h
  refine .call_of (.block_cons (M := started) ?_ <| .block_cons ?_ <|
    .block_cons (log_quiet hstarted (fun s => hstop _ s) _) <| .exit fun s => hstop _ s)
    fun s h => h.stopped hf hfloods
  · refine msNow_spec (fun s now h => ?_) (fun s => hstop _ s) (hstop [])
    obtain ⟨⟨hlabels, hparts, hmeasured⟩, hrunning, htopics, hfloods, htotal⟩ := hread [] s now h
    exact ⟨⟨hlabels, hparts, hmeasured⟩, hrunning, htopics, hfloods, htotal⟩
  · refine .each (J := fun _ => started) fun _ _ _ => .block_cons (M := started)
      (.cond (Q := fun _ => started) ?_ ?_ (.skip fun _ => id)) (program_keeps fun s => hstop _ s)
    · refine .simple ?_ ?_
      · rintro s t h ⟨rfl, -⟩
        exact h
      · rintro s t h ⟨rfl, -⟩
        exact h
    · refine .block_cons (M := ended) ?_ <| .block_cons (M := Recovered finished topics floods total) ?_ <|
        .ret fun _ => id
      · refine msNow_spec (fun s now h => ?_) (fun s => hstop _ s) fun s => hstop _ s
        obtain ⟨⟨hlabels, hparts, hmeasured⟩, hrunning, htopics, hfloods, htotal⟩ := hread [s.start] s now h
        exact ⟨⟨hlabels, hparts, hmeasured⟩, hrunning, htopics, hfloods, htotal⟩
      · refine .assign fun s h => ⟨s.start, s.finish, ?_, rfl⟩
        exact ⟨⟨h.labels, h.parts, h.measured⟩, h.running, h.topics, h.floods, h.total⟩

/-- The container is stopped, and the last line of the log is the given one. -/
structure Killed (finished : List Scenario) (topics : String → Option Nat) (floods total : Nat) (line : String)
    (s : Sim) : Prop extends Rows finished [] s where
  topics : s.topics = topics
  floods : s.floods = floods
  total : s.totalParts = total
  last : s.lines.getLast? = some line

private theorem Killed.stopped {line : String} {s : Sim} (h : Killed finished topics floods total line s)
    (hline : line = killLine ∨ line = startLine) (hf : finished <+: scs) (hfloods : floods ≤ 1) : Stopped scs s := by
  refine ⟨h.floods.trans_le hfloods, ⟨finished, [], hf, h.toRows⟩, fun _ => ?_⟩
  rw [h.last]
  exact hline.imp (congrArg some) (congrArg some)

private theorem crashAndRecover_spec (hf : finished <+: scs) (hfloods : floods ≤ 1) :
    Triple false (Up finished topics floods total []) crashAndRecover
      ⟨fun _ => Recovered finished topics floods total, R, Stopped scs⟩ := by
  have hstop : ∀ s, Up finished topics floods total [] s → Stopped scs s := fun s h => h.stopped hf hfloods
  have hrecovered : ∀ s, Recovered finished topics floods total s → Stopped scs s := fun s h =>
    h.stopped hf hfloods
  refine .call_of
    (.block_cons (M := fun s => Up finished topics floods total [] s ∧ s.lines.getLast? = some killLine) ?_ <|
    .block_cons (M := Killed finished topics floods total killLine) ?_ <|
    .block_cons (M := Killed finished topics floods total killLine)
      (program_keeps fun s h => h.stopped (.inl rfl) hf hfloods) <|
    .block_cons (M := Killed finished topics floods total startLine) ?_ <|
    .block_cons (M := Up finished topics floods total []) ?_ <| .block_cons (log_quiet Up.quiet hstop _) <|
    .block_cons (waitHealthy_spec hf hfloods) <| log_of_quiet Recovered.quiet hrecovered _) hrecovered
  · refine .simple ?_ ?_
    · rintro s t h (rfl | ⟨hok, -⟩)
      · exact ⟨Up.quiet s _ h, List.getLast?_concat⟩
      · cases hok
    · rintro s t h (rfl | ⟨-, rfl⟩)
      · exact hstop _ (Up.quiet s _ h)
      · exact hstop _ h
  · have hkilled : ∀ s running, Up finished topics floods total [] s ∧ s.lines.getLast? = some killLine →
        Killed finished topics floods total killLine { s with running := running } := by
      rintro s running ⟨h, hlast⟩
      exact ⟨⟨h.labels, h.parts, h.measured⟩, h.topics, h.floods, h.total, hlast⟩
    refine .simple ?_ ?_
    · rintro s t h ⟨running, -, rfl⟩
      exact hkilled s running h
    · rintro s t h ⟨running, -, rfl⟩
      exact (hkilled s running h).stopped (.inl rfl) hf hfloods
  · have hlogged : ∀ s, Killed finished topics floods total killLine s →
        Killed finished topics floods total startLine { s with lines := s.lines ++ [startLine] } := fun s h =>
      ⟨⟨h.labels, h.parts, h.measured⟩, h.topics, h.floods, h.total, List.getLast?_concat⟩
    refine .simple ?_ ?_
    · rintro s t h (rfl | ⟨hok, -⟩)
      · exact hlogged s h
      · cases hok
    · rintro s t h (rfl | ⟨-, rfl⟩)
      · exact (hlogged s h).stopped (.inr rfl) hf hfloods
      · exact h.stopped (.inl rfl) hf hfloods
  · refine .simple ?_ ?_
    · rintro s t h ⟨running, hrunning, rfl⟩
      exact ⟨⟨h.labels, h.parts, h.measured⟩, hrunning rfl, h.topics, h.floods, h.total⟩
    · rintro s t h ⟨running, -, rfl⟩
      have hstarted : Killed finished topics floods total startLine { s with running := running } :=
        ⟨⟨h.labels, h.parts, h.measured⟩, h.topics, h.floods, h.total, h.last⟩
      exact hstarted.stopped (.inr rfl) hf hfloods

/-- A created topic has its partitions, whatever became of the one before. -/
theorem createTopic_spec (hf : finished <+: scs) (hfloods : floods ≤ 1) (topic : String) (parts : Nat) :
    Triple false (Up finished topics floods total []) (createTopic topic parts)
      ⟨fun _ => Up finished (Function.update topics topic (some parts)) floods total [], R, Stopped scs⟩ := by
  have hstop : ∀ topics s, Up finished topics floods total [] s → Stopped scs s := fun _ s h =>
    h.stopped hf hfloods
  let pending : Sim → Prop := fun s => ∃ topics', Up finished topics' floods total [] s ∧
    Function.update topics' topic (some parts) = Function.update topics topic (some parts)
  have hpending : ∀ s, pending s → Stopped scs s := fun s ⟨topics', h, _⟩ => hstop topics' s h
  refine .call_of
    (.block_cons (orTrue (Q := pending) ?_) <| .block_cons (program_keeps hpending) <|
    .block_cons (M := Up finished (Function.update topics topic (some parts)) floods total []) ?_ <|
    log_of_quiet Up.quiet (hstop _) _) (hstop _)
  · have hdeleted : ∀ s, Up finished topics floods total [] s →
        pending { s with topics := Function.update s.topics topic none } := fun s h =>
      ⟨_, ⟨⟨h.labels, h.parts, h.measured⟩, h.running, rfl, h.floods, h.total⟩, by
        rw [h.topics, Function.update_idem]⟩
    refine .simple ?_ ?_
    · rintro s t h (rfl | ⟨hok, -⟩)
      · exact hdeleted s h
      · cases hok
    · rintro s t h (rfl | ⟨-, rfl⟩)
      · exact hdeleted s h
      · exact ⟨topics, h, rfl⟩
  · have hmade : ∀ s text, pending s → Up finished (Function.update topics topic (some parts)) floods total []
        { s with result := text, topics := Function.update s.topics topic (some parts) } := by
      rintro s text ⟨topics', h, heq⟩
      exact ⟨⟨h.labels, h.parts, h.measured⟩, h.running, h.topics ▸ heq, h.floods, h.total⟩
    refine .simple ?_ ?_
    · rintro s t h ⟨text, rfl | ⟨hok, -⟩⟩
      · exact hmade s text h
      · cases hok
    · rintro s t h ⟨text, rfl | ⟨-, rfl⟩⟩
      · exact hstop _ _ (hmade s text h)
      · obtain ⟨topics', h, -⟩ := h
        have hup : Up finished topics' floods total [] { s with result := text } :=
          ⟨⟨h.labels, h.parts, h.measured⟩, h.running, h.topics, h.floods, h.total⟩
        exact hstop _ _ hup

private theorem created_snoc (topics : String → Option Nat) (specs : List Spec) (spec : Spec) :
    created topics (specs ++ [spec]) = Function.update (created topics specs) spec.topic (some spec.parts) := by
  simp only [created, List.foldl_append, List.foldl_cons, List.foldl_nil]

private theorem created_append (topics : String → Option Nat) (specs specs' : List Spec) :
    created topics (specs ++ specs') = created (created topics specs) specs' := List.foldl_append

private theorem announceFlood_spec (hstop : ∀ s, P s → Stopped scs s) (hP : Quiet P) (specs : List Spec) :
    Triple false P (announceFlood specs) ⟨fun _ => P, R, Stopped scs⟩ := by
  cases specs with
  | nil => exact .exit hstop
  | cons spec specs => exact log_quiet hP hstop _

private theorem createTopics_spec (hf : finished <+: scs) (sc : Scenario) :
    Triple false (Up finished topics 0 total []) (createTopics sc)
      ⟨fun _ => Up finished (created topics sc.specs) 0 sc.total [], R, Stopped scs⟩ := by
  have hstop : ∀ topics total s, Up finished topics 0 total [] s → Stopped scs s := fun _ _ s h =>
    h.stopped hf (Nat.zero_le 1)
  refine .block_cons (log_quiet Up.quiet (hstop _ _) _) <| .block_cons (log_quiet Up.quiet (hstop _ _) _) <|
    .block_cons (log_quiet Up.quiet (hstop _ _) _) <| .block_cons (log_quiet Up.quiet (hstop _ _) _) <|
    .block_cons (M := Up finished (created topics []) 0 ([].map Spec.parts).sum []) (.assign fun s h => ?_) <|
    .block_cons (.each (J := fun before => Up finished (created topics before) 0 (before.map Spec.parts).sum [])
      fun before spec _ => .block_cons (createTopic_spec hf (Nat.zero_le 1) spec.topic spec.parts)
        (.assign fun s h => ?_)) <|
    .block_cons (log_quiet Up.quiet (hstop _ _) _) <| .block_cons (log_of_quiet Up.quiet (hstop _ _) _) <|
    log_quiet Up.quiet (hstop _ _) _
  · exact ⟨⟨h.labels, h.parts, h.measured⟩, h.running, h.topics, h.floods, rfl⟩
  · refine ⟨⟨h.labels, h.parts, h.measured⟩, h.running, h.topics.trans (created_snoc _ _ _).symm, h.floods, ?_⟩
    simp only [h.total, List.map_append, List.map_cons, List.map_nil, List.sum_append, List.sum_cons, List.sum_nil,
      Nat.add_zero]

private theorem seedTopics_spec (hf : finished <+: scs) (sc : Scenario) :
    Triple false (Up finished topics 0 total []) (seedTopics sc)
      ⟨fun _ => Up finished topics 0 total [], R, Stopped scs⟩ := by
  have hstop : ∀ s, Up finished topics 0 total [] s → Stopped scs s := fun s h => h.stopped hf (Nat.zero_le 1)
  exact .block_cons (log_quiet Up.quiet hstop _) <|
    .block_cons (.each (J := fun _ => Up finished topics 0 total []) fun _ spec _ =>
      .block_cons (log_quiet Up.quiet hstop _) (.call_of (program_keeps hstop) hstop)) <|
    log_quiet Up.quiet hstop _

private theorem crashUnderLoad_spec (hf : finished <+: scs) (sc : Scenario) :
    Triple false (Up finished topics 0 total []) (crashUnderLoad sc)
      ⟨fun _ => Recovered finished topics 0 total, R, Stopped scs⟩ := by
  have hstop : ∀ s, Up finished topics 0 total [] s → Stopped scs s := fun s h => h.stopped hf (Nat.zero_le 1)
  have hstop₁ : ∀ s, Up finished topics 1 total [] s → Stopped scs s := fun s h => h.stopped hf (le_refl 1)
  refine .block_cons (announceFlood_spec hstop Up.quiet _) <|
    .block_cons (M := Up finished topics 1 total []) (.assign fun s h => ?_) <|
    .block_cons (program_keeps hstop₁) <| .block_cons (crashAndRecover_spec hf (le_refl 1)) <|
    .block_cons (orTrue (Q := Recovered finished topics 0 total) ?_) <|
    log_quiet Recovered.quiet (fun s h => h.stopped hf (Nat.zero_le 1)) _
  · exact ⟨⟨h.labels, h.parts, h.measured⟩, h.running, h.topics, congrArg (· + 1) h.floods, h.total⟩
  · have hwaited : ∀ s, Recovered finished topics 1 total s →
        Recovered finished topics 0 total { s with floods := s.floods - 1 } := by
      rintro s ⟨start, finish, h, hms⟩
      refine ⟨start, finish, ?_, hms⟩
      exact ⟨⟨h.labels, h.parts, h.measured⟩, h.running, h.topics, congrArg (· - 1) h.floods, h.total⟩
    refine .simple ?_ ?_
    · rintro s t h rfl
      exact hwaited s h
    · rintro s t h rfl
      exact hwaited s h

/-- The three arrays grow together. -/
theorem recordResult_spec {sc : Scenario} (hf : finished ++ [sc] <+: scs) :
    Triple false (Recovered finished topics 0 sc.total) (recordResult sc)
      ⟨fun _ => Up (finished ++ [sc]) topics 0 sc.total [], R, Stopped scs⟩ := by
  have hstop : ∀ s, Recovered finished topics 0 sc.total s → Stopped scs s := fun s h =>
    h.stopped ((List.prefix_append _ _).trans hf) (Nat.zero_le 1)
  have hstop' : ∀ s, Up (finished ++ [sc]) topics 0 sc.total [] s → Stopped scs s := fun s h =>
    h.stopped hf (Nat.zero_le 1)
  have hthreads : ∀ s threads, Recovered finished topics 0 sc.total s →
      Recovered finished topics 0 sc.total { s with kafkaThreads := threads } := by
    rintro s threads ⟨start, finish, h, hms⟩
    exact ⟨start, finish, ⟨⟨h.labels, h.parts, h.measured⟩, h.running, h.topics, h.floods, h.total⟩, hms⟩
  refine .block_cons (M := Recovered finished topics 0 sc.total) (.assign fun s h => hthreads s _ h) <|
    .block_cons (M := Recovered finished topics 0 sc.total)
      (.andThen (Q := fun _ => Recovered finished topics 0 sc.total)
        (.simple (fun s t h ht => ht.2 ▸ h) fun s t h ht => ht.2 ▸ h) (.assign fun s h => hthreads s _ h)
        fun _ => id) <|
    .block_cons (log_of_quiet Recovered.quiet hstop _) <| .block_cons (log_of_quiet Recovered.quiet hstop _) <|
    .block_cons (log_quiet Recovered.quiet hstop _) <|
    .block_cons (M := fun s => Up (finished ++ [sc]) topics 0 sc.total []
      { s with parts := s.parts ++ [s.totalParts], ms := s.ms ++ [s.recoveryMs] }) (.assign ?_) <|
    .block_cons (M := fun s => Up (finished ++ [sc]) topics 0 sc.total []
      { s with ms := s.ms ++ [s.recoveryMs] }) (.assign fun s h => h) <|
    .block_cons (M := Up (finished ++ [sc]) topics 0 sc.total []) (.assign fun s h => h) <|
    .block_cons (log_quiet Up.quiet hstop' _) <| log_quiet Up.quiet hstop' _
  rintro s ⟨start, finish, h, hms⟩
  obtain ⟨times, hlength, htimes, hreadings⟩ := h.measured
  refine ⟨⟨?_, ?_, times ++ [(start, finish)], ?_, ?_, ?_⟩, h.running, h.topics, h.floods, h.total⟩
  · simp only [h.labels, List.map_append, List.map_cons, List.map_nil]
  · simp only [h.parts, h.total, List.map_append, List.map_cons, List.map_nil]
  · simp only [List.length_append, hlength, List.length_cons, List.length_nil]
  · simp only [htimes, hms, List.map_append, List.map_cons, List.map_nil]
  · simp only [hreadings, List.flatMap_append, List.flatMap_singleton, List.append_nil]

/-- A scenario that ends well adds its row, with the sum of its partitions, and leaves the broker
up with its topics and no producer in the background. -/
theorem runScenario_spec {sc : Scenario} (hf : finished ++ [sc] <+: scs) :
    Triple false (Up finished topics 0 total []) (runScenario sc)
      ⟨fun _ => Up (finished ++ [sc]) (created topics sc.specs) 0 sc.total [], R, Stopped scs⟩ := by
  have hf' : finished <+: scs := (List.prefix_append _ _).trans hf
  exact .call_of (.block_cons (createTopics_spec hf' sc) <| .block_cons (seedTopics_spec hf' sc) <|
    .block_cons (crashUnderLoad_spec hf' sc) <| recordResult_spec hf) fun s h => h.stopped hf (Nat.zero_le 1)

/-! The summary. -/

private theorem last_of_range_prefix {n i : Nat} {before : List Nat} (h : before ++ [i] <+: List.range n) :
    before.length < n ∧ i = before.length := by
  have hlen := h.length_le
  rw [List.length_append, List.length_singleton, List.length_range] at hlen
  have hget := h.getElem (i := before.length) (by simp)
  simp only [List.getElem_concat_length, List.getElem_range] at hget
  exact ⟨by omega, hget⟩

/-- The rows of the summary, from the scenarios and the times measured. -/
def summary (row : String → String → String → String) (scs : List Scenario) (ms : List Int) : List String :=
  List.zipWith (fun sc m => row sc.label (toString sc.total) (toString m)) scs ms

/-- The log goes on from the given lines with the first rows of the summary. -/
def Logged (row : String → String → String → String) (scs : List Scenario) (i : Nat) (s : Sim) : Prop :=
  ∃ before, s.lines = before ++ (summary row scs s.ms).take i

private theorem Rows.ms_length {s : Sim} (h : Rows finished rest s) : s.ms.length = finished.length := by
  obtain ⟨times, hlength, hms, -⟩ := h.measured
  rw [hms, List.length_map, hlength]

private theorem summaryRow_spec (row : String → String → String → String) {i : Nat} (hi : i < scs.length) :
    Triple false (fun s => Up scs topics 0 total [] s ∧ Logged row scs i s) (summaryRow row i)
      ⟨fun _ s => Up scs topics 0 total [] s ∧ Logged row scs (i + 1) s, R, Stopped scs⟩ := by
  have hstop : ∀ s, Up scs topics 0 total [] s → Stopped scs s := fun s h =>
    h.stopped List.prefix_rfl (Nat.zero_le 1)
  refine .expand fun s hs => ?_
  obtain ⟨h, before, hlines⟩ := hs
  have hms : i < s.ms.length := h.ms_length.symm ▸ hi
  have hlabel : s.labels[i]? = some scs[i].label := by
    rw [h.labels, List.getElem?_map, List.getElem?_eq_getElem hi, Option.map_some]
  have hparts : s.parts[i]? = some scs[i].total := by
    rw [h.parts, List.getElem?_map, List.getElem?_eq_getElem hi, Option.map_some]
  have hrow : (summary row scs s.ms)[i]? = some (row scs[i].label (toString scs[i].total) (toString s.ms[i])) := by
    rw [summary, List.getElem?_zipWith, List.getElem?_eq_getElem hi, List.getElem?_eq_getElem hms]
  simp only [hlabel, hparts, List.getElem?_eq_getElem hms]
  refine .simple ?_ ?_
  · rintro s' t rfl (rfl | ⟨hok, -⟩)
    · refine ⟨Up.quiet _ _ h, before, ?_⟩
      simp only [hlines, List.append_assoc]
      rw [List.take_add_one, hrow, Option.toList_some]
    · cases hok
  · rintro s' t rfl (rfl | ⟨-, rfl⟩)
    · exact hstop _ (Up.quiet _ _ h)
    · exact hstop _ h

/-- What the script leaves when it ends well: the broker up, every topic with its partitions, no
producer in the background, and in the log a row for each scenario, with the difference of the two
readings of the clock that were made for it. -/
def Finished (row : String → String → String → String) (scs : List Scenario) (topics : String → Option Nat)
    (s : Sim) : Prop :=
  s.running = true ∧ s.floods = 0 ∧ s.topics = created topics (scs.flatMap Scenario.specs) ∧
    ∃ times : List (Int × Int), times.length = scs.length ∧
      s.readings = times.flatMap (fun time => [time.1, time.2]) ∧
      summary row scs (times.map fun time => time.2 - time.1) <:+: s.lines

private theorem Finished.of_up {row : String → String → String → String} {s : Sim}
    (h : Up scs (created topics (scs.flatMap Scenario.specs)) 0 total [] s)
    (hrows : summary row scs s.ms <:+: s.lines) : Finished row scs topics s := by
  obtain ⟨times, hlength, hms, hreadings⟩ := h.measured
  rw [List.append_nil] at hreadings
  exact ⟨h.running, h.floods, h.topics, times, hlength, hreadings, hms ▸ hrows⟩

/-- The partitions that the labels of the scenarios announce. -/
example : scenarios.map Scenario.total = [3, 12, 24] := rfl

/-- The script is started with the broker up; its variables are not set yet. -/
structure Begun (s : Sim) : Prop where
  running : s.running = true
  floods : s.floods = 0
  readings : s.readings = []
  labels : s.labels = []
  parts : s.parts = []
  ms : s.ms = []

private theorem Begun.up {s : Sim} (h : Begun s) : Up [] s.topics 0 s.totalParts [] s :=
  ⟨⟨h.labels, h.parts, [], rfl, h.ms, h.readings⟩, h.running, rfl, h.floods, rfl⟩

/-- The three arrays and the variables are set before the first scenario. -/
private theorem start_spec : Triple false (Up [] topics 0 total [])
    (.assign fun s => { s with recoveryMs := 0, labels := [], parts := [], ms := [] })
    ⟨fun _ => Up [] topics 0 total [], R, Stopped scs⟩ := by
  refine .assign fun s h => ?_
  obtain ⟨times, hlength, -, hreadings⟩ := h.measured
  obtain rfl := List.eq_nil_of_length_eq_zero hlength
  exact ⟨⟨rfl, rfl, [], rfl, rfl, hreadings⟩, h.running, h.topics, h.floods, h.total⟩

/-- The log file is empty when the script begins. -/
private theorem truncate_spec : Triple false (Up [] topics 0 total []) truncate
    ⟨fun _ => Up [] topics 0 total [], R, Stopped scs⟩ := by
  have hemptied : ∀ s, Up [] topics 0 total [] s → Up [] topics 0 total [] { s with lines := [] } :=
    fun s h => ⟨⟨h.labels, h.parts, h.measured⟩, h.running, h.topics, h.floods, h.total⟩
  refine .simple ?_ ?_
  · rintro s t h (rfl | ⟨hok, -⟩)
    · exact hemptied s h
    · cases hok
  · rintro s t h (rfl | ⟨-, rfl⟩)
    · exact (hemptied s h).stopped List.nil_prefix (Nat.zero_le 1)
    · exact h.stopped List.nil_prefix (Nat.zero_le 1)

/-- The scenarios so far are in the rows and their topics are created. -/
def Through (topics : String → Option Nat) (before : List Scenario) (s : Sim) : Prop :=
  ∃ total, Up before (created topics (before.flatMap Scenario.specs)) 0 total [] s

private theorem Through.quiet : Quiet (Through topics finished) := fun s more ⟨total, h⟩ => ⟨total, Up.quiet s more h⟩

private theorem Through.stopped {s : Sim} (h : Through topics finished s) (hf : finished <+: scs) : Stopped scs s := by
  obtain ⟨total, hup⟩ := h
  exact hup.stopped hf (Nat.zero_le 1)

private theorem runScenario_through {sc : Scenario} (hf : finished ++ [sc] <+: scs) :
    Triple false (Through topics finished) (runScenario sc)
      ⟨fun _ => Through topics (finished ++ [sc]), R, Stopped scs⟩ := by
  rintro s o t ⟨total, h⟩ hexec
  have hspec := runScenario_spec (R := R) hf s o t h hexec
  cases o with
  | done ok =>
    refine ⟨sc.total, ?_⟩
    rw [List.flatMap_append, created_append, List.flatMap_singleton]
    exact hspec
  | returned => exact hspec
  | exited => exact hspec

/-- The loop over the arrays logs the whole summary, one row below the other. -/
theorem summaryRows_spec (row : String → String → String → String) :
    Triple false (Through topics scs) (.expand fun s => .each (summaryRow row) (List.range s.labels.length))
      ⟨fun _ s => Through topics scs s ∧ summary row scs s.ms <:+: s.lines, R, Stopped scs⟩ := by
  refine .expand fun s ⟨total, h⟩ => ?_
  set topics' := created topics (scs.flatMap Scenario.specs) with htopics
  have hlength : s.labels.length = scs.length := by rw [h.labels, List.length_map]
  have hloop : Triple false (fun t => Up scs topics' 0 total [] t ∧ Logged row scs 0 t)
      (.each (summaryRow row) (List.range scs.length))
      ⟨fun _ t => Up scs topics' 0 total [] t ∧ Logged row scs (List.range scs.length).length t, R, Stopped scs⟩ := by
    refine .each (J := fun before t => Up scs topics' 0 total [] t ∧ Logged row scs before.length t)
      fun before i hi => ?_
    obtain ⟨hlt, rfl⟩ := last_of_range_prefix hi
    rw [List.length_append, List.length_singleton]
    exact summaryRow_spec row hlt
  rw [List.length_range] at hloop
  rw [hlength]
  refine hloop.weaken (fun t ht => ?_) fun o t ht => ?_
  · subst ht
    exact ⟨h, t.lines, by rw [List.take_zero, List.append_nil]⟩
  · cases o with
    | done ok =>
      obtain ⟨hup, before, hlines⟩ := ht
      refine ⟨⟨total, hup⟩, before, [], ?_⟩
      have hall : (summary row scs t.ms).length ≤ scs.length := by
        rw [summary, List.length_zipWith]
        exact Nat.min_le_left _ _
      rw [hlines, List.take_of_length_le hall, List.append_nil]
    | returned => exact ht
    | exited => exact ht

/-- Every command and then the whole script, whatever fails. -/
private theorem script_triple (row : String → String → String → String) (rule : String) (scs : List Scenario)
    (topics : String → Option Nat) (total : Nat) :
    Triple false (Up [] topics 0 total []) (script row rule scs)
      ⟨fun _ => Finished row scs topics, fun _ => False, Stopped scs⟩ := by
  have hstop : ∀ s, Up [] topics 0 total [] s → Stopped scs s := fun s h => h.stopped List.nil_prefix (Nat.zero_le 1)
  have hall : ∀ s, Through topics scs s → Stopped scs s := fun s h => h.stopped List.prefix_rfl
  have hrows : Quiet fun s => Through topics scs s ∧ summary row scs s.ms <:+: s.lines :=
    fun s more h => ⟨Through.quiet s more h.1, h.2.trans (List.prefix_append _ _).isInfix⟩
  have hscenarios : Triple false (Up [] topics 0 total []) (.each runScenario scs)
      ⟨fun _ => Through topics scs, fun _ => False, Stopped scs⟩ :=
    (Triple.each fun before sc hsc => runScenario_through hsc).pre fun s h => ⟨total, h⟩
  refine .block_cons (program_keeps hstop) <| .block_cons truncate_spec <|
    .block_cons (log_quiet Up.quiet hstop _) <| .block_cons (log_quiet Up.quiet hstop _) <|
    .block_cons (log_quiet Up.quiet hstop _) <| .block_cons start_spec <| .block_cons hscenarios <|
    .block_cons (log_quiet Through.quiet hall _) <| .block_cons (log_quiet Through.quiet hall _) <|
    .block_cons (log_quiet Through.quiet hall _) <| .block_cons (log_quiet Through.quiet hall _) <|
    .block_cons (log_quiet Through.quiet hall _) <| .block_cons (log_quiet Through.quiet hall _) <|
    .block_cons (summaryRows_spec row) ?_
  refine .weaken (.each (R := fun _ => False) fun _ line _ =>
    log_quiet hrows (fun s h => hall s h.1) line) (fun _ => id) fun o s h => ?_
  cases o with
  | done ok =>
    obtain ⟨⟨total, hup⟩, hinfix⟩ := h
    exact .of_up hup hinfix
  | returned => exact h
  | exited => exact h

/-- Started with the broker up, whatever command fails, and whenever, and whatever the clock shows:
either the script ends well, or it has stopped with the broker up, unless its last line in the log is
the one of the kill or of the start. -/
theorem script_spec (row : String → String → String → String) (rule : String) {scs : List Scenario} {s t : Sim}
    {o : Outcome} (hs : Begun s) (h : (script row rule scs).exec false s o t) :
    (∃ ok, o = .done ok ∧ Finished row scs s.topics t) ∨ o = .exited ∧ Stopped scs t := by
  have hend := script_triple row rule scs s.topics s.totalParts s o t hs.up h
  cases o with
  | done ok => exact .inl ⟨ok, rfl, hend⟩
  | returned => exact hend.elim
  | exited => exact .inr ⟨rfl, hend⟩

/-! The script can end well. -/

/-- The three arrays are equally long. -/
def Aligned (s : Sim) : Prop := s.parts.length = s.labels.length ∧ s.ms.length = s.labels.length

def Going (s : Sim) : Prop := s.running = true ∧ Aligned s

section CanEnd
variable {Q : Sim → Prop} {tested : Bool}

private theorem log_canEnd (hP : Quiet P) (line : String) : CanEnd tested P (log line) (.success P R) :=
  .simple fun s hp => ⟨_, .inl rfl, rfl, hP s [line] hp⟩

private theorem log_of_canEnd (hP : Quiet P) (line : Sim → String) :
    CanEnd tested P (.expand fun s => log (line s)) (.success P R) :=
  .expand fun s hs => (log_canEnd hP (line s)).weaken (fun _ h => h ▸ hs) fun _ _ => id

private theorem program_canEnd : CanEnd tested P program (.success P R) := .simple fun s hp => ⟨s, rfl, rfl, hp⟩

private theorem assign_canEnd {f : Sim → Sim} (h : ∀ s, P s → Q (f s)) :
    CanEnd tested P (.assign f) (.success Q R) := .assign fun s hp => ⟨rfl, h s hp⟩

private theorem orTrue_canEnd {c : Cmd Sim} (h : CanEnd true P c (.success Q R)) :
    CanEnd tested P (.orElse c .skip) (.success Q R) :=
  .orElse (Q := fun ok s => ok = true ∧ Q s) h (fun _ => id) (.skip fun _ h => (Bool.false_ne_true h.1).elim)

private theorem Aligned.quiet : Quiet Aligned := fun _ _ h => h

private theorem Going.quiet : Quiet Going := fun _ _ h => h

private theorem msNow_canEnd {store : Sim → Int → Sim}
    (h : ∀ s now, P s → P { store s now with readings := s.readings ++ [now] }) :
    CanEnd tested P (msNow store) (.success P R) := .simple fun s hp => ⟨_, .inl ⟨0, rfl⟩, rfl, h s 0 hp⟩

private theorem createTopic_canEnd (topic : String) (parts : Nat) :
    CanEnd tested Going (createTopic topic parts) (.success Going R) :=
  .call <| .block_cons (orTrue_canEnd (.simple fun _ h => ⟨_, .inl rfl, rfl, h⟩)) <| .block_cons program_canEnd <|
    .block_cons (.simple fun _ h => ⟨_, ⟨"", .inl rfl⟩, rfl, h⟩) <| log_of_canEnd Going.quiet _

/-- The first look at a broker that is up may find it healthy. -/
private theorem pollHealth_canEnd : CanEnd tested Going pollHealth (.success (fun _ => False) Going) := by
  rw [pollHealth, List.range_succ_eq_map]
  refine .each_returns <| .block_cons (M := fun _ => False)
    (.cond (Q := fun ok s => ok = true ∧ Going s) ?_ ?_ fun s h => ?_) fun _ h => h.elim
  · exact .simple fun s h => ⟨s, ⟨rfl, fun _ => h.1⟩, rfl, h⟩
  · refine .block_cons (M := Going) ?_ <| .block_cons (M := Going) (assign_canEnd fun _ => id) <| .ret fun _ => id
    exact .simple fun s h => ⟨_, .inl ⟨0, rfl⟩, rfl, h.2⟩
  · exact (Bool.false_ne_true h.1).elim

private theorem waitHealthy_canEnd : CanEnd tested Going waitHealthy (.success Going R) :=
  .call <| .block_cons (msNow_canEnd fun _ _ => id) <| .block_cons pollHealth_canEnd fun _ h => h.elim

private theorem crashAndRecover_canEnd : CanEnd tested Going crashAndRecover (.success Going R) :=
  .call <| .block_cons (log_canEnd Going.quiet _) <|
    .block_cons (M := Aligned) (.simple fun _ h => ⟨_, ⟨false, fun _ => rfl, rfl⟩, rfl, h.2⟩) <|
    .block_cons program_canEnd <| .block_cons (log_canEnd Aligned.quiet _) <|
    .block_cons (M := Going) (.simple fun _ h => ⟨_, ⟨true, fun _ => rfl, rfl⟩, rfl, rfl, h⟩) <|
    .block_cons (log_canEnd Going.quiet _) <| .block_cons waitHealthy_canEnd <| log_of_canEnd Going.quiet _

private theorem announceFlood_canEnd {specs : List Spec} (h : specs ≠ []) :
    CanEnd tested Going (announceFlood specs) (.success Going R) := by
  cases specs with
  | nil => exact absurd rfl h
  | cons spec specs => exact log_canEnd Going.quiet _

private theorem createTopics_canEnd (sc : Scenario) : CanEnd tested Going (createTopics sc) (.success Going R) :=
  .block_cons (log_canEnd Going.quiet _) <| .block_cons (log_canEnd Going.quiet _) <|
    .block_cons (log_canEnd Going.quiet _) <| .block_cons (log_canEnd Going.quiet _) <|
    .block_cons (assign_canEnd fun _ => id) <|
    .block_cons (.each fun _ _ => .block_cons (createTopic_canEnd _ _) (assign_canEnd fun _ => id)) <|
    .block_cons (log_canEnd Going.quiet _) <| .block_cons (log_of_canEnd Going.quiet _) <| log_canEnd Going.quiet _

private theorem seedTopics_canEnd (sc : Scenario) : CanEnd tested Going (seedTopics sc) (.success Going R) :=
  .block_cons (log_canEnd Going.quiet _) <|
    .block_cons (.each fun _ _ => .block_cons (log_canEnd Going.quiet _) (.call program_canEnd)) <|
    log_canEnd Going.quiet _

private theorem crashUnderLoad_canEnd {sc : Scenario} (h : sc.specs ≠ []) :
    CanEnd tested Going (crashUnderLoad sc) (.success Going R) :=
  .block_cons (announceFlood_canEnd h) <| .block_cons (assign_canEnd fun _ => id) <| .block_cons program_canEnd <|
    .block_cons crashAndRecover_canEnd <|
    .block_cons (orTrue_canEnd (.simple fun _ h => ⟨_, rfl, rfl, h⟩)) <| log_canEnd Going.quiet _

private theorem recordResult_canEnd (sc : Scenario) :
    CanEnd tested Going (recordResult sc) (.success Going R) := by
  refine .block_cons (M := Going) (assign_canEnd fun _ => id) <| .seq (M := Going) ?_ <|
    .block_cons (log_of_canEnd Going.quiet _) <| .block_cons (log_of_canEnd Going.quiet _) <|
    .block_cons (log_canEnd Going.quiet _) <|
    .block_cons (M := fun s => Going { s with parts := s.parts ++ [s.totalParts], ms := s.ms ++ [s.recoveryMs] })
      (assign_canEnd fun s h => ⟨h.1, ?_, ?_⟩) <|
    .block_cons (M := fun s => Going { s with ms := s.ms ++ [s.recoveryMs] }) (assign_canEnd fun _ => id) <|
    .block_cons (M := Going) (assign_canEnd fun _ => id) <|
    .block_cons (log_canEnd Going.quiet _) <| log_canEnd Going.quiet _
  · refine .andThen (Q := fun _ => Going) (.simple_of fun s h => ?_) (.assign fun _ => id) fun _ => id
    exact ⟨_, s, ⟨rfl, rfl⟩, by cases decide (s.kafkaThreads < 1) <;> exact h⟩
  · simp only [List.length_append, h.2.1, List.length_cons, List.length_nil]
  · simp only [List.length_append, h.2.2, List.length_cons, List.length_nil]

private theorem runScenario_canEnd {sc : Scenario} (h : sc.specs ≠ []) :
    CanEnd tested Going (runScenario sc) (.success Going R) :=
  .call <| .block_cons (createTopics_canEnd sc) <| .block_cons (seedTopics_canEnd sc) <|
    .block_cons (crashUnderLoad_canEnd h) <| recordResult_canEnd sc

private theorem summaryRows_canEnd (row : String → String → String → String) :
    CanEnd tested Going (.expand fun s => .each (summaryRow row) (List.range s.labels.length)) (.success Going R) := by
  refine .expand fun s h => ?_
  have hrow : ∀ i ∈ List.range s.labels.length, CanEnd tested (fun t => Going t ∧ t.labels = s.labels)
      (summaryRow row i) (.success (fun t => Going t ∧ t.labels = s.labels) R) := by
    intro i hi
    refine .expand fun t ⟨ht, hlabels⟩ => ?_
    have hlt : i < t.labels.length := hlabels ▸ List.mem_range.mp hi
    have hparts : i < t.parts.length := ht.2.1.symm ▸ hlt
    have hms : i < t.ms.length := ht.2.2.symm ▸ hlt
    simp only [List.getElem?_eq_getElem hlt, List.getElem?_eq_getElem hparts, List.getElem?_eq_getElem hms]
    refine .simple ?_
    rintro u rfl
    exact ⟨_, .inl rfl, rfl, ht, hlabels⟩
  refine (CanEnd.each hrow).weaken (fun t ht => ?_) fun o t ht => ?_
  · subst ht
    exact ⟨h, rfl⟩
  · cases o with
    | done ok => exact ⟨ht.1, ht.2.1⟩
    | returned => exact ht
    | exited => exact ht

/-- Started with the broker up, the script can end well for any scenarios that have a topic each. -/
theorem script_canEnd (row : String → String → String → String) (rule : String) {scs : List Scenario}
    (hspecs : ∀ sc ∈ scs, sc.specs ≠ []) {s : Sim} (hs : Begun s) :
    ∃ t, (script row rule scs).exec false s (.done true) t ∧ Finished row scs s.topics t := by
  have hgoing : Going s := ⟨hs.running, by simp only [hs.parts, hs.labels, List.length_nil],
    by simp only [hs.ms, hs.labels, List.length_nil]⟩
  have hcan : CanEnd false Going (script row rule scs) (.success Going fun _ => False) :=
    .block_cons program_canEnd <| .block_cons (.simple fun _ h => ⟨_, .inl rfl, rfl, h⟩) <|
    .block_cons (log_canEnd Going.quiet _) <| .block_cons (log_canEnd Going.quiet _) <|
    .block_cons (log_canEnd Going.quiet _) <| .block_cons (assign_canEnd fun _ h => ⟨h.1, rfl, rfl⟩) <|
    .block_cons (.each fun sc hsc => runScenario_canEnd (hspecs sc hsc)) <|
    .block_cons (log_canEnd Going.quiet _) <| .block_cons (log_canEnd Going.quiet _) <|
    .block_cons (log_canEnd Going.quiet _) <| .block_cons (log_canEnd Going.quiet _) <|
    .block_cons (log_canEnd Going.quiet _) <| .block_cons (log_canEnd Going.quiet _) <|
    .block_cons (summaryRows_canEnd row) <| .each fun line _ => log_canEnd Going.quiet line
  obtain ⟨o, t, hexec, ht⟩ := hcan s hgoing
  have hend := script_triple row rule scs s.topics s.totalParts s o t hs.up hexec
  cases o with
  | done ok =>
    obtain ⟨rfl, -⟩ := ht
    exact ⟨t, hexec, hend⟩
  | returned => exact ht.elim
  | exited => exact ht.elim

end CanEnd

/-- The three scenarios of the script, from a broker without topics. -/
theorem script_spec_scenarios : ∃ s t, Begun s ∧
    (script (fun label parts ms => label ++ " " ++ parts ++ " " ++ ms) "---" scenarios).exec false s (.done true) t ∧
    Finished (fun label parts ms => label ++ " " ++ parts ++ " " ++ ms) scenarios s.topics t := by
  have hspecs : ∀ sc ∈ scenarios, sc.specs ≠ [] := by decide
  have hs : Begun ⟨true, fun _ => none, 0, [], [], [], [], [], 0, 0, 0, 0, 0, ""⟩ := ⟨rfl, rfl, rfl, rfl, rfl, rfl⟩
  obtain ⟨t, hexec, -⟩ := script_canEnd (fun label parts ms => label ++ " " ++ parts ++ " " ++ ms) "---" hspecs hs
  rcases script_spec _ _ hs hexec with ⟨ok, -, hfinished⟩ | ⟨hexited, -⟩
  · exact ⟨_, t, hs, hexec, hfinished⟩
  · cases hexited

end Shipstream.Scripts.CrashRecovery
