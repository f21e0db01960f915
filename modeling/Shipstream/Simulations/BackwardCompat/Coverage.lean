import Shipstream.Simulations.BackwardCompat.History

/-! What the logs of an execution cover, after any history of earlier executions. -/
namespace Shipstream.Simulations.BackwardCompat
open Kafka Orders Transition

/-- A log with a row for every message of the topic. -/
def Covers (log : LogFile) (topic : Topic) : Prop := ∀ p < topic.partitions, ∀ m ∈ topic.content p,
  ∃ row ∈ log.rows, row.1.partition = p ∧ row.1.offset = m.offset

variable {α : Type} {deserializer : Deserializer α}

/-- The rows written carry the partitions and offsets of the drained messages. -/
theorem writeRows_places (logged : α → Logged) {results : List (Message × Option α)} {rows : List (LogRow × String)}
    (h : writeRows logged results = .ok rows) :
    rows.map (fun row => (row.1.partition, row.1.offset)) =
      (results.map Prod.fst).map fun m => (m.partition, m.offset) := by
  induction results generalizing rows with
  | nil =>
    cases h
    rfl
  | cons r results ih =>
    obtain ⟨raw, order?⟩ := r
    cases order? with
    | none => cases h
    | some order =>
      rw [writeRows] at h
      cases hrest : writeRows logged results with
      | error text =>
        rw [hrest] at h
        cases h
      | ok rest =>
        rw [hrest] at h
        cases h
        simp only [List.map_cons, ih hrest]
        rfl

private theorem writeLog_places {logged : α → Logged} {results : List (Message × Option α)} {preamble : String}
    {isV2 : Bool} {log : LogFile} (h : writeLog logged results header preamble isV2 = .ok log) :
    log.rows.map (fun row => (row.1.partition, row.1.offset)) =
      (results.map Prod.fst).map fun m => (m.partition, m.offset) := by
  rw [writeLog] at h
  cases hw : writeRows logged results with
  | error text =>
    rw [hw] at h
    cases h
  | ok rows =>
    rw [hw] at h
    cases h
    exact writeRows_places logged hw

section
variable {b : Broker} {reader : Reader} {trace : List PollEvent}

/-- A message of the topic is among those a drain returned exactly when it lies at or
behind the offset the drain started from. -/
theorem ReadFrom.drained_iff (h : ReadFrom b reader deserializer trace) {p : Nat}
    (hp : p < b.topic.partitions) {m : Message} (hm : m ∈ b.topic.content p) :
    (p, m.offset) ∈ (messages (polls trace)).map (fun m => (m.partition, m.offset)) ↔
      b.startOf reader p ≤ m.offset := by
  obtain ⟨-, -, hdelivers, -⟩ := h
  have hcontent : ((messages (polls trace)).filter fun m => m.partition = p) =
      (b.topic.content p).filter fun m => b.startOf reader p ≤ m.offset :=
    hdelivers.append_nil.content_of_ended (hdelivers.eof_mem hp)
  rw [List.mem_map]
  constructor
  · rintro ⟨m', hm', hplace⟩
    simp only [Prod.mk.injEq] at hplace
    have hin : m' ∈ (messages (polls trace)).filter fun m => m.partition = p :=
      List.mem_filter.mpr ⟨hm', by simp [hplace.1]⟩
    rw [hcontent] at hin
    have hstart := (List.mem_filter.mp hin).2
    simp only [decide_eq_true_eq] at hstart
    omega
  · intro hle
    have hin : m ∈ (b.topic.content p).filter fun m => b.startOf reader p ≤ m.offset :=
      List.mem_filter.mpr ⟨hm, by simpa using hle⟩
    rw [← hcontent] at hin
    exact ⟨m, (List.mem_filter.mp hin).1, by rw [b.topic.own p m hm]⟩

/-- A log covers the topic exactly when its drain started at or before every message. -/
theorem covers_iff {logged : α → Logged} {preamble : String} {isV2 : Bool} {log : LogFile}
    {results : List (Message × Option α)} (hread : ReadFrom b reader deserializer trace)
    (hr : (drain deserializer trace).1 = .returned results)
    (hlog : writeLog logged results header preamble isV2 = .ok log) :
    Covers log b.topic ↔
      ∀ p < b.topic.partitions, ∀ m ∈ b.topic.content p, b.startOf reader p ≤ m.offset := by
  obtain ⟨results', hresults, -, hmessages⟩ := id hread
  rw [hresults] at hr
  cases hr
  have hrow (p : Nat) (hp : p < b.topic.partitions) (m : Message) (hm : m ∈ b.topic.content p) :
      (∃ row ∈ log.rows, row.1.partition = p ∧ row.1.offset = m.offset) ↔ b.startOf reader p ≤ m.offset := by
    rw [← hread.drained_iff hp hm, ← hmessages, ← writeLog_places hlog, List.mem_map]
    simp only [Prod.mk.injEq]
  constructor
  · exact fun h p hp m hm => (hrow p hp m hm).mp (h p hp m hm)
  · exact fun h p hp m hm => (hrow p hp m hm).mpr (h p hp m hm)

end

/-! Executions that go through. -/

section
variable (deserV1 : Deserializer V1.Order) (deserV2 : Deserializer V2.Order)

/-- A session that polls the given results one after the other. -/
def Session.Polls (topic : Topic) : Session → List PollEvent → Prop
  | _, [] => True
  | s, e :: trace => s.Polling deserV1 deserV2 ∧ Offers topic s.position e ∧ (s.polled e).Polls topic trace

def Session.after (s : Session) (trace : List PollEvent) : Session := trace.foldl Session.polled s

/-- What the first drain leaves when it polls the given trace. -/
def Broker.drainedV1 (b : Broker) (traceV1 : List PollEvent) : Broker :=
  b.commit .v1 ((Session.start b .v1 []).after traceV1).stored

/-- What an execution leaves whose drains poll the given traces. -/
def executed (b : Broker) (traceV1 traceV2 : List PollEvent) : System where
  broker := (b.drainedV1 traceV1).commit .v2 ((Session.start (b.drainedV1 traceV1) .v2 traceV1).after traceV2).stored
  session := none
  written := some (main deserV1 deserV2 traceV1 traceV2)

end

variable {deserV1 : Deserializer V1.Order} {deserV2 : Deserializer V2.Order} {v w : System}

private theorem Session.after_start (b : Broker) (reader : Reader) (earlier trace : List PollEvent) :
    ((Session.start b reader earlier).after trace).trace = trace ∧
      ((Session.start b reader earlier).after trace).reader = reader ∧
      ((Session.start b reader earlier).after trace).earlier = earlier := by
  induction trace using List.reverseRecOn with
  | nil => exact ⟨rfl, rfl, rfl⟩
  | append_singleton trace e ih =>
    obtain ⟨htrace, hreader, hearlier⟩ := ih
    rw [Session.after, List.foldl_append, List.foldl_cons, List.foldl_nil, polled_trace]
    have hkept := polled_reader ((Session.start b reader earlier).after trace) e
    exact ⟨congrArg (· ++ [e]) htrace, hkept.1.trans hreader, hkept.2.trans hearlier⟩

theorem Session.Polls.run {s : Session} {trace : List PollEvent} (h : s.Polls deserV1 deserV2 v.broker.topic trace)
    (hs : v.session = some s) : Run (Guarded (Step deserV1 deserV2) Undisturbed) v (trace.map .poll)
      { v with session := some (s.after trace) } := by
  induction trace generalizing v s with
  | nil =>
    have hv : { v with session := some (s.after []) } = v := by
      rw [Session.after, List.foldl_nil, ← hs]
    rw [hv]
    exact .nil v
  | cons e trace ih =>
    obtain ⟨hp, ho, hrest⟩ := h
    exact Run.guarded_cons (.poll e hs hp ho) trivial (ih (v := { v with session := some (s.polled e) }) hrest rfl)

/-- Traces that the client may return and that end the drains make a complete execution. -/
theorem completeRun_executed {traceV1 traceV2 : List PollEvent} {resultsV1 : List (Message × Option V1.Order)}
    {resultsV2 : List (Message × Option V2.Order)} (hidle : v.session = none)
    (h₁ : (Session.start v.broker .v1 []).Polls deserV1 deserV2 v.broker.topic traceV1)
    (hd₁ : drain deserV1 traceV1 = (.returned resultsV1, []))
    (h₂ : (Session.start (v.broker.drainedV1 traceV1) .v2 traceV1).Polls deserV1 deserV2 v.broker.topic traceV2)
    (hd₂ : drain deserV2 traceV2 = (.returned resultsV2, [])) :
    CompleteRun deserV1 deserV2 v (executed deserV1 deserV2 v.broker traceV1 traceV2) := by
  obtain ⟨htraceV1, hreaderV1, -⟩ := Session.after_start v.broker .v1 [] traceV1
  obtain ⟨htraceV2, hreaderV2, hearlier⟩ := Session.after_start (v.broker.drainedV1 traceV1) .v2 traceV1 traceV2
  have hnext : Step deserV1 deserV2 { v with session := some ((Session.start v.broker .v1 []).after traceV1) } _ _ :=
    .nextReader rfl ⟨hreaderV1, resultsV1, htraceV1.symm ▸ hd₁⟩
  rw [htraceV1] at hnext
  have hfinish : Step deserV1 deserV2 ⟨v.broker.drainedV1 traceV1,
      some ((Session.start (v.broker.drainedV1 traceV1) .v2 traceV1).after traceV2), v.written⟩ _ _ :=
    .finish rfl ⟨hreaderV2, resultsV2, htraceV2.symm ▸ hd₂⟩
  rw [hearlier, htraceV2] at hfinish
  have hrunV1 := h₁.run (v := { v with session := some (.start v.broker .v1 []) }) rfl
  have hrunV2 := h₂.run (v := ⟨v.broker.drainedV1 traceV1,
    some (.start (v.broker.drainedV1 traceV1) .v2 traceV1), v.written⟩) rfl
  exact ⟨_, _, _, .start hidle, hrunV1.append (Run.guarded_cons hnext trivial hrunV2), hfinish⟩

/-- A complete execution is a run. -/
theorem CompleteRun.run (h : CompleteRun deserV1 deserV2 v w) : ∃ events, Run (Step deserV1 deserV2) v events w := by
  obtain ⟨u, events, x, hstart, hrun, hfinish⟩ := h
  exact ⟨_, .cons hstart (hrun.unguarded.append (.cons hfinish (.nil w)))⟩

private theorem polling_v1 {s : Session} {st : DrainState V1.Order} (hr : s.reader = .v1)
    (h : drain deserV1 s.trace = (.polling st, [])) : s.Polling deserV1 deserV2 := by
  rw [Session.Polling, hr]
  exact ⟨st, h⟩

private theorem polling_v2 {s : Session} {st : DrainState V2.Order} (hr : s.reader = .v2)
    (h : drain deserV2 s.trace = (.polling st, [])) : s.Polling deserV1 deserV2 := by
  rw [Session.Polling, hr]
  exact ⟨st, h⟩

/-- A committed offset is behind a message, so a group starts before every message of a
partition exactly when it has committed nothing there. -/
theorem HistoryInv.uncommitted_iff (h : HistoryInv v) (reader : Reader) (p : Nat) :
    v.broker.committed reader p = none ↔ ∀ m ∈ v.broker.topic.content p, v.broker.startOf reader p ≤ m.offset := by
  constructor
  · intro hnone m _
    rw [Broker.startOf, hnone]
    exact Nat.zero_le _
  · intro hstart
    cases hk : v.broker.committed reader p with
    | none => rfl
    | some k =>
      obtain ⟨m, hm, hlt⟩ := h.committed reader p k hk
      have hle := hstart m hm
      rw [Broker.startOf, hk, resumeAt, Option.getD_some] at hle
      omega

/-- After any history, a complete execution logs the whole topic twice exactly when
neither group had committed an offset in any of its partitions. -/
theorem logs_cover_iff_uncommitted {topic : Topic} {endOffset : Nat → Nat}
    {below : ∀ p, ∀ m ∈ topic.content p, m.offset < endOffset p} {history : List Event}
    {logV1 logV2 : LogFile} {countV1 countV2 : Nat}
    (hhistory : Run (Step deserV1 deserV2) (initial topic endOffset below) history v)
    (hrun : CompleteRun deserV1 deserV2 v w)
    (hwritten : w.written = some (.done logV1 logV2 countV1 countV2)) :
    (Covers logV1 v.broker.topic ∧ Covers logV2 v.broker.topic) ↔
      ∀ reader, ∀ p < v.broker.topic.partitions, v.broker.committed reader p = none := by
  have hinv : HistoryInv v :=
    hhistory.invariant HistoryInv (fun _ _ _ hs => hs.historyInv) (initial_historyInv topic endOffset below)
  obtain ⟨traceV1, traceV2, hreadV1, hreadV2, hmain⟩ := hrun.read
  rw [hwritten, Option.some.injEq] at hmain
  obtain ⟨resultsV1, resultsV2, hr₁, hr₂, hlog₁, hlog₂, -, -⟩ := main_done hmain.symm
  rw [covers_iff hreadV1 hr₁ hlog₁, covers_iff hreadV2 hr₂ hlog₂]
  constructor
  · rintro ⟨hV1, hV2⟩ reader p hp
    rw [hinv.uncommitted_iff]
    cases reader with
    | v1 => exact hV1 p hp
    | v2 => exact hV2 p hp
  · intro h
    exact ⟨fun p hp => (hinv.uncommitted_iff .v1 p).mp (h .v1 p hp),
      fun p hp => (hinv.uncommitted_iff .v2 p).mp (h .v2 p hp)⟩

/-- One partition with one Order. -/
def oneOrder : Topic where
  partitions := 1
  content
    | 0 => [⟨0, 0, some [0, 0, 0, 0, 1, 0, 0x0a, 1, 0x61]⟩]
    | _ => []
  own p := by
    match p with
    | 0 => decide
    | _ + 1 => simp
  ordered p := by
    match p with
    | 0 => decide
    | _ + 1 => exact .nil

def oneOrderInitial : System := initial oneOrder (fun _ => 1) fun
  | 0 => by decide
  | _ + 1 => by simp [oneOrder]

/-- A trace of the one partition. -/
def oneOrderTrace (ms : List Message) : List PollEvent :=
  (ms.map Polled.message ++ [Polled.eof 0]).map fun polled => ⟨polled, [0]⟩

def firstRun : System := executed (registryDeserializer V1.orderClass) (registryDeserializer V2.orderClass)
  oneOrderInitial.broker (oneOrderTrace (oneOrder.content 0)) (oneOrderTrace (oneOrder.content 0))

def secondRun : System := executed (registryDeserializer V1.orderClass) (registryDeserializer V2.orderClass)
  firstRun.broker (oneOrderTrace []) (oneOrderTrace [])

private theorem firstRun_complete : CompleteRun (registryDeserializer V1.orderClass)
    (registryDeserializer V2.orderClass) oneOrderInitial firstRun :=
  completeRun_executed rfl
    ⟨polling_v1 rfl rfl, by decide, polling_v1 rfl rfl, by decide, trivial⟩ rfl
    ⟨polling_v2 rfl rfl, by decide, polling_v2 rfl rfl, by decide, trivial⟩ rfl

private theorem secondRun_complete : CompleteRun (registryDeserializer V1.orderClass)
    (registryDeserializer V2.orderClass) firstRun secondRun :=
  completeRun_executed rfl ⟨polling_v1 rfl rfl, by decide, trivial⟩ rfl ⟨polling_v2 rfl rfl, by decide, trivial⟩ rfl

theorem logs_cover_first_run : ∃ logV1 logV2 countV1 countV2,
    firstRun.written = some (.done logV1 logV2 countV1 countV2) ∧ Covers logV1 oneOrder ∧ Covers logV2 oneOrder :=
  ⟨_, _, _, _, rfl, (logs_cover_iff_uncommitted (.nil _) firstRun_complete rfl).mpr fun _ _ _ => rfl⟩

/-- The second run resumes behind the one Order and logs nothing. -/
theorem logs_depend_on_history : ¬ ∀ (topic : Topic) (endOffset : Nat → Nat)
    (below : ∀ p, ∀ m ∈ topic.content p, m.offset < endOffset p) (history : List Event) (v w : System)
    (logV1 logV2 : LogFile) (countV1 countV2 : Nat),
    Run (Step (registryDeserializer V1.orderClass) (registryDeserializer V2.orderClass))
      (initial topic endOffset below) history v →
    CompleteRun (registryDeserializer V1.orderClass) (registryDeserializer V2.orderClass) v w →
    w.written = some (.done logV1 logV2 countV1 countV2) →
    Covers logV1 v.broker.topic ∧ Covers logV2 v.broker.topic := by
  intro h
  obtain ⟨events, hhistory⟩ := firstRun_complete.run
  obtain ⟨row, hrow, -⟩ := (h _ _ _ events _ _ _ _ _ _ hhistory secondRun_complete rfl).1 0 (by decide)
    ⟨0, 0, some [0, 0, 0, 0, 1, 0, 0x0a, 1, 0x61]⟩ (by decide)
  exact absurd hrow List.not_mem_nil

end Shipstream.Simulations.BackwardCompat
