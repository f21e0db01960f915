import Shipstream.Kafka.Delivery
import Shipstream.Orders.Envelope
import Shipstream.Python.Text
import Shipstream.Simulations.BackwardCompat.Drain

/-! simulations/sim_backward_compat.py: the two readers of one topic and the log
files they leave. Both drains are taken over arbitrary interleavings of the partitions. -/
namespace Shipstream.Simulations.BackwardCompat
open Kafka Orders
open Python (leftAligned)

/-- What `write_log` reads off an order; version 2 has no region attribute. -/
structure Logged where
  customerId : String
  item : String
  status : BitVec 32
  region : Option String
  deriving DecidableEq, Repr

def loggedV1 (order : V1.Order) : Logged := ⟨order.customerId, order.item, order.status, some order.region⟩

def loggedV2 (order : V2.Order) : Logged := ⟨order.customerId, order.item, order.status, none⟩

/-- The columns shared by both logs. -/
structure LogRow where
  partition : Nat
  offset : Nat
  customerId : String
  item : String
  status : String
  deriving DecidableEq, Repr

def logRow (raw : Message) (order : Logged) : LogRow where
  partition := raw.partition
  offset := raw.offset
  customerId := order.customerId
  item := order.item
  status := (statusName order.status).getD "?"

def regionColumn (order : Logged) : String :=
  match order.region with
  | some region => if region = "" then "(empty)" else region
  | none => "(field does not exist in v2 schema)"

def LogRow.text (row : LogRow) (region : String) : String :=
  "p=" ++ toString row.partition ++ "         | " ++ leftAligned 6 (toString row.offset) ++ " | " ++
    leftAligned 16 row.customerId ++ "| " ++ leftAligned 26 row.item ++ "| " ++ leftAligned 24 row.status ++
    "| " ++ region ++ "\n"

/-- A written log file. -/
structure LogFile where
  preamble : String
  header : String
  rows : List (LogRow × String)
  closing : String
  deriving DecidableEq, Repr

def separator : String := String.ofList (List.replicate 100 '-') ++ "\n"

def LogFile.text (log : LogFile) : String :=
  log.preamble ++ log.header ++ separator ++ String.join (log.rows.map fun row => row.1.text row.2) ++
    separator ++ log.closing

variable {α : Type}

/-- The rows of the loop; a None order raises at its first unguarded attribute. -/
def writeRows (logged : α → Logged) : List (Message × Option α) → Except String (List (LogRow × String))
  | [] => .ok []
  | (_, none) :: _ => .error "'NoneType' object has no attribute 'customer_id'"
  | (raw, some order) :: results =>
    (writeRows logged results).map ((logRow raw (logged order), regionColumn (logged order)) :: ·)

def writeLog (logged : α → Logged) (results : List (Message × Option α)) (header preamble : String)
    (isV2 : Bool) : Except String LogFile :=
  (writeRows logged results).map fun rows =>
    let count := toString results.length
    { preamble, header, rows
      closing :=
        if isV2 then "\n[v2-consumer] " ++ count ++
          " messages read. region bytes on wire were silently dropped.\n" ++
          "[v2-consumer] BACKWARD compatibility confirmed: no errors, no corruption.\n"
        else "\n[v1-consumer] " ++ count ++ " messages read. region field populated on all.\n" }

def header : String :=
  "partition | offset | customer        | item                      | status                  | region\n"

def preambleV1 : String :=
  "[v1-consumer] Schema: Order v1 (has region field)\n" ++
  "[v1-consumer] Messages produced by: v1 producer (region encoded at field 7)\n\n"

def preambleV2 : String :=
  "[v2-consumer] Schema: Order v2 (region field removed)\n" ++
  "[v2-consumer] Messages produced by: v1 producer (region encoded at field 7)\n" ++
  "[v2-consumer] Expectation: region bytes silently discarded — no crash, no value\n\n"

/-- How a run of the script stands after the polls of its two readers. -/
inductive Outcome where
  | draining
  | raised (error : String)
  | done (logV1 logV2 : LogFile) (countV1 countV2 : Nat)
  deriving DecidableEq, Repr

/-- `main`, given the polls of the first reader and then of the second. -/
def main (deserV1 : Deserializer V1.Order) (deserV2 : Deserializer V2.Order)
    (traceV1 traceV2 : List PollEvent) : Outcome :=
  match (drain deserV1 traceV1).1 with
  | .polling _ => .draining
  | .raised error => .raised error
  | .returned resultsV1 =>
    match (drain deserV2 traceV2).1 with
    | .polling _ => .draining
    | .raised error => .raised error
    | .returned resultsV2 =>
      match writeLog loggedV1 resultsV1 header preambleV1 false with
      | .error error => .raised error
      | .ok logV1 =>
        match writeLog loggedV2 resultsV2 header preambleV2 true with
        | .error error => .raised error
        | .ok logV2 => .done logV1 logV2 resultsV1.length resultsV2.length

/-! Draining a topic. -/

/-- A reading of a topic by a member that holds all its partitions throughout. -/
def Delivers (topic : Topic) (trace : List PollEvent) : Prop :=
  topic.Delivers (polls trace) ∧ ∀ e ∈ trace, e.assignment.toFinset = Finset.range topic.partitions

/-- The topic holds orders only. -/
def HoldsOrders (deserializer : Deserializer α) (topic : Topic) : Prop :=
  ∀ p < topic.partitions, ∀ m ∈ topic.content p, ∃ order, deserializer m.value = .ok (some order)

variable {topic : Topic} {deserializer : Deserializer α} {trace pre rest : List PollEvent} {e : PollEvent}

theorem Delivers.decodes (h : Delivers topic trace) (ho : HoldsOrders deserializer topic) :
    Decodes deserializer (polls trace) := fun m hm => by
  have hlt := h.1.append_nil.partition_lt hm
  obtain ⟨order, horder⟩ := ho _ hlt m (h.1.mem_content hm)
  exact ⟨some order, horder⟩

/-- With all partitions assigned, the exit test passes on the event that leaves none outstanding. -/
theorem Delivers.stops_iff (h : Delivers topic trace) (he : e ∈ trace) (ended : Finset Nat) :
    Stops ended e ↔ ∃ p < topic.partitions, e.polled = .eof p ∧ ∀ q < topic.partitions, q ≠ p → q ∈ ended := by
  have hset := h.2 e he
  constructor
  · rintro ⟨p, hp, -, hsub⟩
    refine ⟨p, h.1.known _ (List.mem_map_of_mem he) p (by rw [hp]; rfl), hp, fun q hq hne => ?_⟩
    rw [hset] at hsub
    exact (Finset.mem_insert.mp (hsub (Finset.mem_range.mpr hq))).resolve_left hne
  · rintro ⟨p, hlt, hp, hothers⟩
    refine ⟨p, hp, fun hnil => ?_, fun q hq => ?_⟩
    · rw [hnil, List.toFinset_nil] at hset
      exact absurd (Finset.mem_range.mpr hlt) (hset ▸ Finset.notMem_empty p)
    · rw [hset, Finset.mem_range] at hq
      by_cases hqp : q = p
      · exact Finset.mem_insert.mpr (.inl hqp)
      · exact Finset.mem_insert_of_mem (hothers q hq hqp)

/-- A reading in which every partition ended had an event that stops the loop.
Induction on the reading from its end: the last event either ends the last partition or is not needed. -/
theorem Delivers.not_runsOn (h : Delivers topic trace) (hpos : 0 < topic.partitions) (hpre : pre <+: trace)
    (hall : ∀ p < topic.partitions, .eof p ∈ polls pre) : ¬ RunsOn ∅ pre := by
  induction pre using List.reverseRecOn with
  | nil => simpa [polls] using hall 0 hpos
  | append_singleton pre e ih =>
    intro hrun
    by_cases hbefore : ∀ p < topic.partitions, .eof p ∈ polls pre
    · apply ih ((List.prefix_append _ _).trans hpre) hbefore
      intro xs f ys hx
      exact hrun xs f (ys ++ [e]) (by rw [hx, List.append_assoc, List.cons_append])
    · push Not at hbefore
      obtain ⟨p, hp, hout⟩ := hbefore
      have hpolled : e.polled = .eof p := by
        have := hall p hp
        simp only [polls, List.map_append, List.mem_append, List.map_cons, List.map_nil,
          List.mem_singleton] at this
        exact (this.resolve_left hout).symm
      have he : e ∈ trace := hpre.subset (List.mem_append_right _ (List.mem_singleton_self e))
      refine hrun pre e [] rfl ((h.stops_iff he _).mpr ⟨p, hp, hpolled, fun q hq hne => ?_⟩)
      have := hall q hq
      simp only [polls, List.map_append, List.mem_append, List.map_cons, List.map_nil,
        List.mem_singleton, hpolled, Polled.eof.injEq] at this
      exact Finset.mem_union_right _ (mem_eofs.mpr (this.resolve_right hne))

/-- The loop reaches and stops at an event exactly when that event completes the reading. -/
theorem Delivers.stops_first_iff (h : Delivers topic trace) (htrace : trace = pre ++ e :: rest) :
    (RunsOn ∅ pre ∧ Stops (∅ ∪ eofs (polls pre)) e) ↔
      Topic.Completes topic.partitions (polls pre) e.polled := by
  have he : e ∈ trace := by simp [htrace]
  rw [h.stops_iff he, Finset.empty_union]
  constructor
  · rintro ⟨hrun, p, hlt, hp, hothers⟩
    refine ⟨p, hlt, hp, fun hin => ?_, fun q hq hne => mem_eofs.mp (hothers q hq hne)⟩
    refine h.not_runsOn (by omega) (htrace ▸ List.prefix_append _ _) (fun q hq => ?_) hrun
    by_cases hqp : q = p
    · exact hqp ▸ hin
    · exact mem_eofs.mp (hothers q hq hqp)
  · rintro ⟨p, hlt, hp, hnot, hothers⟩
    refine ⟨fun xs f ys hx hstop => hnot ?_, p, hlt, hp, fun q hq hne => mem_eofs.mpr (hothers q hq hne)⟩
    have hf : f ∈ trace := by simp [htrace, hx]
    obtain ⟨q, -, hq, hended⟩ := (h.stops_iff hf _).mp hstop
    rw [hx, polls, List.map_append, List.map_cons, List.mem_append, List.mem_cons]
    by_cases hpq : p = q
    · exact .inr (.inl (by rw [hq, hpq]))
    · have hin := hended p hlt hpq
      rw [Finset.empty_union] at hin
      exact .inl (mem_eofs.mp hin)

/-- `drain` returns exactly at the event that completes the reading, with what it read before. -/
theorem drain_returned_iff (h : Delivers topic trace) (ho : HoldsOrders deserializer topic)
    {results : List (Message × Option α)} :
    drain deserializer trace = (.returned results, rest) ↔
      ∃ pre e, trace = pre ++ e :: rest ∧ Topic.Completes topic.partitions (polls pre) e.polled ∧
        results = (messages (polls pre)).map (decoded deserializer) := by
  rw [drain, drainFrom_returned_iff deserializer (h.decodes ho)]
  constructor
  · rintro ⟨pre, e, htrace, hrun, hstop, hres⟩
    exact ⟨pre, e, htrace, (h.stops_first_iff htrace).mp ⟨hrun, hstop⟩, by simpa using hres⟩
  · rintro ⟨pre, e, htrace, hc, hres⟩
    obtain ⟨hrun, hstop⟩ := (h.stops_first_iff htrace).mpr hc
    exact ⟨pre, e, htrace, hrun, hstop, by simpa using hres⟩

/-- A reading of at least one partition makes `drain` return. -/
theorem drain_returns (h : Delivers topic trace) (ho : HoldsOrders deserializer topic)
    (hpos : 0 < topic.partitions) : ∃ results rest, drain deserializer trace = (.returned results, rest) := by
  obtain ⟨pre, e, rest, htrace, hrun, hstop⟩ := exists_first_stop ∅ trace
    (h.not_runsOn hpos (List.prefix_refl _) fun p hp => h.1.eof_mem hp)
  exact ⟨_, rest, (drain_returned_iff h ho).mpr
    ⟨pre, e, htrace, (h.stops_first_iff htrace).mp ⟨hrun, hstop⟩, rfl⟩⟩

/-- What a drain of a topic returns: every message once, each partition in offset
order, each decoded. -/
structure Read (deserializer : Deserializer α) (topic : Topic) (results : List (Message × Option α)) : Prop where
  content : ∀ p < topic.partitions, ((results.map Prod.fst).filter fun m => m.partition = p) = topic.content p
  known : ∀ m ∈ results.map Prod.fst, m.partition < topic.partitions
  decoded : ∀ r ∈ results, ∃ order, r.2 = some order ∧ deserializer r.1.value = .ok (some order)

private theorem drain_read (h : Delivers topic trace) (ho : HoldsOrders deserializer topic)
    {results : List (Message × Option α)} (hr : drain deserializer trace = (.returned results, rest)) :
    Read deserializer topic results := by
  obtain ⟨pre, e, rfl, hc, rfl⟩ := (drain_returned_iff h ho).mp hr
  have hpolls : polls (pre ++ e :: rest) = polls pre ++ e.polled :: polls rest := by simp [polls]
  have hdel := h.1
  rw [hpolls] at hdel
  have hfst := map_fst_decoded deserializer (messages (polls pre))
  refine ⟨fun p hp => ?_, fun m hm => ?_, fun r hmem => ?_⟩
  · rw [hfst]
    exact hdel.content_of_completes hc hp
  · rw [hfst] at hm
    exact hdel.partition_lt hm
  · obtain ⟨m, hm, rfl⟩ := List.mem_map.mp hmem
    have hlt := hdel.partition_lt hm
    have hin : m ∈ topic.content m.partition := by
      rw [← hdel.content_of_completes hc hlt]
      exact List.mem_filter.mpr ⟨hm, by simp⟩
    obtain ⟨order, horder⟩ := ho _ hlt m hin
    exact ⟨order, by simp [BackwardCompat.decoded, horder], horder⟩

/-- `drain` on one reading of a topic: it returns exactly at the completing event,
always returns when there is a partition, and returns each message once. -/
structure DrainsExactly (deserializer : Deserializer α) (topic : Topic) (trace : List PollEvent) : Prop where
  stops : ∀ pre e rest, trace = pre ++ e :: rest →
    ((∃ results, drain deserializer trace = (.returned results, rest)) ↔
      Topic.Completes topic.partitions (polls pre) e.polled)
  returns : 0 < topic.partitions → ∃ results rest, drain deserializer trace = (.returned results, rest)
  read : ∀ results rest, drain deserializer trace = (.returned results, rest) →
    Read deserializer topic results ∧ (results.map Prod.fst).Nodup

private theorem Read.filter_eq {results : List (Message × Option α)} (h : Read deserializer topic results) (p : Nat) :
    ((results.map Prod.fst).filter fun m => m.partition = p) =
      if p < topic.partitions then topic.content p else [] := by
  split
  · next hp => exact h.content p hp
  · next hp =>
    apply List.filter_eq_nil_iff.mpr
    intro m hm
    have := h.known m hm
    simp only [decide_eq_true_eq]
    omega

/-- A drain returns the messages of the topic, each once. -/
theorem Read.perm {results : List (Message × Option α)} (h : Read deserializer topic results) :
    (results.map Prod.fst).Perm topic.all :=
  perm_of_partitions fun p => by rw [h.filter_eq, topic.filter_all]

theorem Read.nodup {results : List (Message × Option α)} (h : Read deserializer topic results) :
    (results.map Prod.fst).Nodup := by
  apply nodup_of_partitions
  intro p
  rw [h.filter_eq]
  split
  · exact topic.content_nodup p
  · exact List.nodup_nil

private theorem drain_drainsExactly (h : Delivers topic trace) (ho : HoldsOrders deserializer topic) :
    DrainsExactly deserializer topic trace where
  stops pre e rest htrace := by
    constructor
    · rintro ⟨results, hr⟩
      obtain ⟨pre', e', htrace', hc, -⟩ := (drain_returned_iff h ho).mp hr
      have hlen : pre.length = pre'.length := by
        have := congrArg List.length (htrace.symm.trans htrace')
        simp only [List.length_append, List.length_cons] at this
        omega
      obtain ⟨rfl, hcons⟩ := List.append_inj (htrace.symm.trans htrace') hlen
      cases hcons
      exact hc
    · intro hc
      exact ⟨_, (drain_returned_iff h ho).mpr ⟨pre, e, htrace, hc, rfl⟩⟩
  returns := drain_returns h ho
  read results rest hr := ⟨drain_read h ho hr, (drain_read h ho hr).nodup⟩

/-! From the drained messages to the log rows. -/

/-- The row logged for a message, without the region. -/
def messageRow (deserializer : Deserializer α) (logged : α → Logged) (m : Message) : Option LogRow :=
  match deserializer m.value with
  | .ok (some order) => some (logRow m (logged order))
  | _ => none

/-- The rows of decoded messages are written without raising, one for each message. -/
theorem writeRows_ok (logged : α → Logged) {results : List (Message × Option α)}
    (h : ∀ r ∈ results, ∃ order, r.2 = some order ∧ deserializer r.1.value = .ok (some order)) :
    ∃ rows, writeRows logged results = .ok rows ∧
      rows.map Prod.fst = (results.map Prod.fst).filterMap (messageRow deserializer logged) := by
  induction results with
  | nil => exact ⟨[], rfl, rfl⟩
  | cons r results ih =>
    obtain ⟨raw, order?⟩ := r
    obtain ⟨order, rfl, horder⟩ := h _ List.mem_cons_self
    obtain ⟨rows, hrows, hmap⟩ := ih fun r hr => h r (List.mem_cons_of_mem _ hr)
    refine ⟨_, by rw [writeRows, hrows]; rfl, ?_⟩
    rw [List.map_cons, List.map_cons, hmap]
    exact (List.filterMap_cons_some (by simp only [messageRow, horder])).symm

private theorem writeLog_ok (logged : α → Logged) {results : List (Message × Option α)} (preamble : String)
    (isV2 : Bool) (h : Read deserializer topic results) :
    ∃ log, writeLog logged results header preamble isV2 = .ok log ∧
      (log.rows.map Prod.fst).Perm (topic.all.filterMap (messageRow deserializer logged)) := by
  obtain ⟨rows, hrows, hmap⟩ := writeRows_ok logged h.decoded
  refine ⟨⟨preamble, header, rows, _⟩, by rw [writeLog, hrows]; rfl, ?_⟩
  rw [hmap]
  exact h.perm.filterMap _

theorem HoldsOrders.v2 {deserV1 : Deserializer V1.Order} {deserV2 : Deserializer V2.Order}
    (hread : ReadsAlike deserV1 deserV2) (ho : HoldsOrders deserV1 topic) : HoldsOrders deserV2 topic :=
  fun p hp m hm => by
    obtain ⟨order, horder⟩ := ho p hp m hm
    exact ⟨_, hread _ _ horder⟩

/-- Both versions log the same shared columns for a message that version 1 decodes. -/
theorem messageRow_v2 {deserV1 : Deserializer V1.Order} {deserV2 : Deserializer V2.Order}
    (hread : ReadsAlike deserV1 deserV2) {m : Message} {order : V1.Order}
    (h : deserV1 m.value = .ok (some order)) :
    messageRow deserV2 loggedV2 m = messageRow deserV1 loggedV1 m := by
  simp only [messageRow, h, hread _ _ h]
  rfl

/-- Of a topic of orders every message has a row. -/
theorem HoldsOrders.rows_length {deserV1 : Deserializer V1.Order} (ho : HoldsOrders deserV1 topic) :
    (topic.all.filterMap (messageRow deserV1 loggedV1)).length = topic.all.length := by
  rw [List.length_filterMap_eq_countP, List.countP_eq_length]
  intro m hm
  obtain ⟨hp, hcontent⟩ := Topic.mem_all.mp hm
  obtain ⟨order, horder⟩ := ho _ hp m hcontent
  simp only [messageRow, horder, Option.isSome_some]

/-- A log file, with the count printed for it, of all that a topic of orders holds: its rows without the
region are those of the messages, each once and in some order, and so many are counted. -/
structure LogsTopic (deserV1 : Deserializer V1.Order) (topic : Topic) (log : LogFile) (count : Nat) : Prop where
  rows : (log.rows.map Prod.fst).Perm (topic.all.filterMap (messageRow deserV1 loggedV1))
  length : log.rows.length = topic.all.length
  count : count = topic.all.length

/-- What either reader drained and wrote is such a log. -/
theorem Read.logsTopic {deserV1 : Deserializer V1.Order} (ho : HoldsOrders deserV1 topic) {logged : α → Logged}
    {results : List (Message × Option α)} (h : Read deserializer topic results)
    (hsame : ∀ m ∈ topic.all, messageRow deserializer logged m = messageRow deserV1 loggedV1 m)
    {log : LogFile} {preamble : String} {isV2 : Bool}
    (hw : writeLog logged results header preamble isV2 = .ok log) :
    LogsTopic deserV1 topic log results.length := by
  obtain ⟨log', hlog', hperm⟩ := writeLog_ok logged preamble isV2 h
  cases hw.symm.trans hlog'
  rw [List.filterMap_congr hsame] at hperm
  refine ⟨hperm, ?_, by simpa using h.perm.length_eq⟩
  rw [← ho.rows_length, ← hperm.length_eq, List.length_map]

/-- A finished run drained both readers and wrote their logs. -/
theorem main_done {deserV1 : Deserializer V1.Order} {deserV2 : Deserializer V2.Order}
    {traceV1 traceV2 : List PollEvent} {logV1 logV2 : LogFile} {countV1 countV2 : Nat}
    (h : main deserV1 deserV2 traceV1 traceV2 = .done logV1 logV2 countV1 countV2) :
    ∃ resultsV1 resultsV2, (drain deserV1 traceV1).1 = .returned resultsV1 ∧
      (drain deserV2 traceV2).1 = .returned resultsV2 ∧
      writeLog loggedV1 resultsV1 header preambleV1 false = .ok logV1 ∧
      writeLog loggedV2 resultsV2 header preambleV2 true = .ok logV2 ∧
      countV1 = resultsV1.length ∧ countV2 = resultsV2.length := by
  unfold main at h
  split at h <;> try cases h
  next resultsV1 h₁ =>
  split at h <;> try cases h
  next resultsV2 h₂ =>
  split at h <;> try cases h
  next log₁ hw₁ =>
  split at h <;> cases h
  next hw₂ => exact ⟨resultsV1, resultsV2, h₁, h₂, hw₁, hw₂, rfl, rfl⟩

/-- Both readers of one topic see the same messages, whatever the order of delivery: each drain
returns exactly when the last outstanding partition ends, with every message once; both logs hold
the rows of the topic's messages, each once, so they agree up to order and the region column; and
both counts are the number of messages in the topic. -/
theorem readers_see_same_topic (topic : Topic) (deserV1 : Deserializer V1.Order)
    (deserV2 : Deserializer V2.Order) (hread : ReadsAlike deserV1 deserV2) (ho : HoldsOrders deserV1 topic) :
    (∀ trace, Delivers topic trace →
      DrainsExactly deserV1 topic trace ∧ DrainsExactly deserV2 topic trace) ∧
    ∀ traceV1 traceV2, Delivers topic traceV1 → Delivers topic traceV2 →
      (0 < topic.partitions → ∃ logV1 logV2 countV1 countV2,
        main deserV1 deserV2 traceV1 traceV2 = .done logV1 logV2 countV1 countV2) ∧
      ∀ logV1 logV2 countV1 countV2,
        main deserV1 deserV2 traceV1 traceV2 = .done logV1 logV2 countV1 countV2 →
        LogsTopic deserV1 topic logV1 countV1 ∧ LogsTopic deserV1 topic logV2 countV2 ∧
        (logV1.rows.map Prod.fst).Perm (logV2.rows.map Prod.fst) ∧ countV1 = countV2 := by
  have ho₂ := ho.v2 hread
  refine ⟨fun trace h => ⟨drain_drainsExactly h ho, drain_drainsExactly h ho₂⟩, fun traceV1 traceV2 h₁ h₂ => ?_⟩
  refine ⟨fun hpos => ?_, fun logV1 logV2 countV1 countV2 hdone => ?_⟩
  · obtain ⟨resultsV1, rest₁, hr₁⟩ := drain_returns h₁ ho hpos
    obtain ⟨resultsV2, rest₂, hr₂⟩ := drain_returns h₂ ho₂ hpos
    obtain ⟨logV1, hw₁, -⟩ := writeLog_ok loggedV1 preambleV1 false (drain_read h₁ ho hr₁)
    obtain ⟨logV2, hw₂, -⟩ := writeLog_ok loggedV2 preambleV2 true (drain_read h₂ ho₂ hr₂)
    exact ⟨logV1, logV2, resultsV1.length, resultsV2.length, by simp only [main, hr₁, hr₂, hw₁, hw₂]⟩
  · obtain ⟨resultsV1, resultsV2, hr₁, hr₂, hw₁, hw₂, rfl, rfl⟩ := main_done hdone
    have read₁ : Read deserV1 topic resultsV1 := drain_read h₁ ho (Prod.ext hr₁ rfl)
    have read₂ : Read deserV2 topic resultsV2 := drain_read h₂ ho₂ (Prod.ext hr₂ rfl)
    have hsame : ∀ m ∈ topic.all, messageRow deserV2 loggedV2 m = messageRow deserV1 loggedV1 m := fun m hm => by
      obtain ⟨hp, hcontent⟩ := Topic.mem_all.mp hm
      obtain ⟨order, horder⟩ := ho _ hp m hcontent
      exact messageRow_v2 hread horder
    have hlog₁ := read₁.logsTopic ho (fun _ _ => rfl) hw₁
    have hlog₂ := read₂.logsTopic ho hsame hw₂
    exact ⟨hlog₁, hlog₂, hlog₁.rows.trans hlog₂.rows.symm, hlog₁.count.trans hlog₂.count.symm⟩

/-- Two partitions; the Orders carry an id, and a region that version 2 drops. -/
def exampleTopic : Topic where
  partitions := 2
  content
    | 0 => [⟨0, 5, some [0, 0, 0, 0, 1, 0, 0x0a, 1, 0x61]⟩,
        ⟨0, 8, some [0, 0, 0, 0, 1, 0, 0x0a, 1, 0x62, 0x3a, 1, 0x75]⟩]
    | 1 => [⟨1, 3, some [0, 0, 0, 0, 1, 0, 0x0a, 1, 0x63]⟩]
    | _ => []
  own p := by
    match p with
    | 0 | 1 => decide
    | _ + 2 => simp
  ordered p := by
    match p with
    | 0 | 1 => decide
    | _ + 2 => exact .nil

def exampleTrace (polls : List Polled) : List PollEvent := polls.map fun polled => ⟨polled, [1, 0]⟩

/-- Partition 1 first. -/
def exampleTraceV1 : List PollEvent := exampleTrace
  ((exampleTopic.content 1).map .message ++ [.eof 1, .timeout] ++ (exampleTopic.content 0).map .message ++ [.eof 0])

/-- Partition 0 first, with an error before its end. -/
def exampleTraceV2 : List PollEvent := exampleTrace
  ((exampleTopic.content 0).map .message ++ [.error "timed out", .eof 0] ++ (exampleTopic.content 1).map .message ++
    [.eof 1])

private theorem exampleTopic_holdsOrders : HoldsOrders (registryDeserializer V1.orderClass) exampleTopic := by
  intro p (hp : p < 2) m hm
  interval_cases p <;> simp only [exampleTopic, List.mem_cons, List.not_mem_nil, or_false] at hm
  · rcases hm with rfl | rfl
    · exact ⟨⟨⟨"a", "", "", 0, 0, none⟩, ""⟩, by rfl⟩
    · exact ⟨⟨⟨"b", "", "", 0, 0, none⟩, "u"⟩, by rfl⟩
  · exact ⟨⟨⟨"c", "", "", 0, 0, none⟩, ""⟩, by rw [hm]; rfl⟩

private theorem exampleTrace_delivers {polled : List Polled}
    (hknown : ∀ x ∈ polled, ∀ p ∈ x.partition?, p < 2)
    (h₀ : (polled.filter fun x => x.partition? = some 0) = (exampleTopic.content 0).map .message ++ [.eof 0])
    (h₁ : (polled.filter fun x => x.partition? = some 1) = (exampleTopic.content 1).map .message ++ [.eof 1]) :
    Delivers exampleTopic (exampleTrace polled) := by
  have hpolls : polls (exampleTrace polled) = polled := by
    rw [polls, exampleTrace, List.map_map]
    exact List.map_id _
  refine ⟨⟨fun x hx p hp => hknown x (hpolls ▸ hx) p hp, fun p (hp : p < 2) => ⟨0, ?_⟩⟩, fun e he => ?_⟩
  · rw [hpolls]
    interval_cases p
    · exact h₀
    · exact h₁
  · obtain ⟨x, -, rfl⟩ := List.mem_map.mp he
    exact (by decide : [1, 0].toFinset = Finset.range 2)

/-- Three messages, each in a row of both logs. -/
theorem readers_see_same_topic_example :
    ∃ logV1 logV2 countV1 countV2, main (registryDeserializer V1.orderClass)
      (registryDeserializer V2.orderClass) exampleTraceV1 exampleTraceV2 = .done logV1 logV2 countV1 countV2 ∧
      (logV1.rows.map Prod.fst).Perm [⟨0, 5, "", "", "ORDER_STATUS_UNSPECIFIED"⟩,
        ⟨0, 8, "", "", "ORDER_STATUS_UNSPECIFIED"⟩, ⟨1, 3, "", "", "ORDER_STATUS_UNSPECIFIED"⟩] ∧
      (logV1.rows.map Prod.fst).Perm (logV2.rows.map Prod.fst) ∧ countV1 = 3 ∧ countV2 = 3 := by
  have h := (readers_see_same_topic exampleTopic _ _ registryDeserializer_readsAlike exampleTopic_holdsOrders).2
    exampleTraceV1 exampleTraceV2 (exampleTrace_delivers (by decide) (by decide) (by decide))
    (exampleTrace_delivers (by decide) (by decide) (by decide))
  obtain ⟨logV1, logV2, countV1, countV2, hdone⟩ := h.1 (by decide)
  obtain ⟨h₁, h₂, hperm, -⟩ := h.2 _ _ _ _ hdone
  exact ⟨logV1, logV2, countV1, countV2, hdone, h₁.rows, hperm, h₁.count, h₂.count⟩

end Shipstream.Simulations.BackwardCompat
