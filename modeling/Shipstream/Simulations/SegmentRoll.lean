import Shipstream.Kafka.SegmentedLog
import Shipstream.Simulations.PartitionRow

/-! simulations/sim_segment_roll.py: what `main` reports of two topics that differ in the size of
their segments, against the log that the broker keeps of each. -/
namespace Shipstream.Simulations.SegmentRoll
open Kafka Python Transition

/-- An optional number in an f-string. -/
def shown : Option Int → String
  | some n => toString n
  | none => "None"

inductive Line where
  | check (logStart highWatermark : Option Int)
  | stillZero
  | unexpected (logStart : Option Int)
  | before (logStart highWatermark : Option Int)
  | after (logStart highWatermark : Option Int)
  | advanced (logStart : Int)
  | notAdvanced
  deriving DecidableEq, Repr

def Line.text : Line → String
  | .check lso hw => "\n[check]  log-start-offset=" ++ shown lso ++ "  high-watermark=" ++ shown hw
  | .stillZero =>
    "[result] LOW WATERMARK IS STILL 0 — confirmed.\n" ++
      "         The active segment never rolled, so nothing was eligible\n" ++
      "         for deletion. All messages still on disk despite being\n" ++
      "         past the 5-second retention window."
  | .unexpected lso => "[result] Unexpected: low watermark advanced to " ++ shown lso ++ "."
  | .before lso hw =>
    "\n[check]  immediately after produce: log-start-offset=" ++ shown lso ++ "  high-watermark=" ++ shown hw
  | .after lso hw =>
    "\n[check]  after waiting:             log-start-offset=" ++ shown lso ++ "  high-watermark=" ++ shown hw
  | .advanced lso =>
    "\n[result] LOW WATERMARK ADVANCED to " ++ toString lso ++ " — confirmed.\n" ++
      "         Closed segments older than 5 seconds were deleted.\n" ++
      "         The active segment (most recent messages) is still kept."
  | .notAdvanced => "\n[result] Low watermark did not advance — retention did not fire yet."

/-- Round 1 of `main` after its sleep. -/
def round1 (stdout : Text) : List Line :=
  let (lso1, hw1) := watermarks stdout
  [.check lso1 hw1, if lso1 = some 0 then .stillZero else .unexpected lso1]

/-- Round 2 of `main`, with the outputs of rpk before and after its sleep. -/
def round2 (before after : Text) : List Line :=
  let (lsoBefore, hwBefore) := watermarks before
  let (lsoAfter, hwAfter) := watermarks after
  [.before lsoBefore hwBefore, .after lsoAfter hwAfter,
    match lsoAfter with
    | some n => if n ≠ 0 ∧ 0 < n then .advanced n else .notAdvanced
    | none => .notAdvanced]

/-- `create_topic`: the age at which segments roll and the retention size stay the broker's. -/
def topicConfig (segmentBytes retentionMs : Nat) (segmentMs : Option Nat) : LogConfig :=
  ⟨segmentBytes, segmentMs, some retentionMs, none⟩

def topic1 (segmentMs : Option Nat) : LogConfig := topicConfig 10485760 5000 segmentMs

def topic2 (segmentMs : Option Nat) : LogConfig := topicConfig 1024 5000 segmentMs

/-- rpk describes the log of partition 0, which has one replica. -/
def Describes {α : Type} (stdout : Text) (l : SegmentedLog α) : Prop :=
  ∃ layout line row, stdout = describe layout [(line, row)] ∧ row.partition = 0 ∧ row.replicas.length = 1 ∧
    row.logStart = l.logStart ∧ row.highWatermark = l.logEnd

section
variable {α : Type} {start : Nat} {segmentMs : Option Nat} {events : List (LogEvent α)} {l m : SegmentedLog α}
  {stdout : Text}

/-- The offsets read are those of the log. -/
theorem Describes.watermarks (h : Describes stdout l) :
    watermarks stdout = (some (l.logStart : Int), some (l.logEnd : Int)) := by
  obtain ⟨layout, line, row, rfl, hzero, hreplicas, hstart, hend⟩ := h
  obtain ⟨replica, hreplica⟩ := List.length_eq_one_iff.mp hreplicas
  have hnodup : ([(line, row)].map fun row => row.2.partition).Nodup := List.nodup_singleton _
  have hread := watermarks_describe layout hnodup List.mem_cons_self hzero
  rw [hread, PartitionRow.readings, hreplica, hstart, hend]

/-- Round 1: a log that does not fill its first segment loses nothing, however long its messages
are past the retention time, and the report says so. -/
theorem round1_confirmed (hrun : Run (LogStep (topic1 segmentMs)) (.empty start) events l)
    (hsmall : totalBytes (appended events) < 10485760) (hyoung : ∀ ms, segmentMs = some ms → l.now < start + ms)
    (hd : Describes stdout l) :
    round1 stdout = [.check (some 0) (some (appended events).length), .stillZero] ∧
      ∀ k, l.read k = (appended events)[k]? := by
  have hkeeps : Keeps (appended events) l := run_keeps hrun (empty_keeps start)
  obtain ⟨-, -, hzero⟩ := run_singleWhileSmall hrun hsmall hyoung
  refine ⟨?_, fun k => ?_⟩
  · simp only [round1, hd.watermarks, hzero, hkeeps.logEnd]
    rfl
  · rw [hkeeps.read, if_pos (by omega)]

/-- The report of round 2, and what holds of the log when it is made. -/
structure Round2Report (start : Nat) (segmentMs : Option Nat) (events : List (LogEvent α)) (l m : SegmentedLog α)
    (lines : List Line) : Prop where
  lines : lines = [.before (some l.logStart) (some l.logEnd), .after (some m.logStart) (some m.logEnd),
    if 0 < m.logStart then .advanced m.logStart else .notAdvanced]
  grows : l.logStart ≤ m.logStart
  deleted : ∀ k, m.read k = none ↔ k < m.logStart ∨ (appended events).length ≤ k
  fresh : ((appended events).Pairwise fun r r' => r.time ≤ r'.time) → ∀ k r, (appended events)[k]? = some r →
    m.now ≤ r.time + 5000 → m.read k = some r
  rolls : (∀ ms, segmentMs = some ms → m.now < start + ms) →
    events.countP LogEvent.isRoll * 1024 ≤ totalBytes (appended events)

/-- Round 2: the low watermark is announced as advanced exactly when messages have been deleted;
no message within the retention time is, and a segment takes 1024 bytes to roll. -/
theorem round2_report {events' : List (LogEvent α)} {before after : Text}
    (hrun : Run (LogStep (topic2 segmentMs)) (.empty start) events l)
    (hrun' : Run (LogStep (topic2 segmentMs)) l events' m) (hbefore : Describes before l)
    (hafter : Describes after m) : Round2Report start segmentMs (events ++ events') l m (round2 before after) := by
  have hall := hrun.append hrun'
  have hkeeps : Keeps (appended (events ++ events')) m := run_keeps hall (empty_keeps start)
  have hexplained := run_explained hall
  refine ⟨?_, run_logStart_le hrun', hkeeps.read_eq_none, fun hsorted k r hr hfresh => ?_, fun hyoung => ?_⟩
  · simp only [round2, hbefore.watermarks, hafter.watermarks]
    congr 3
    by_cases hpos : 0 < m.logStart
    · rw [if_pos (by omega), if_pos hpos]
    · rw [if_neg (by omega), if_neg hpos]
  · refine hkeeps.read_fresh hexplained rfl hsorted hr fun ms hms => ?_
    have hwindow : 5000 = ms := Option.some.inj hms
    omega
  · have hrolls := run_rolls hall (Nat.le_refl start) (Nat.le_refl start) hyoung
    have hempty : (SegmentedLog.empty start : SegmentedLog α).active.bytes = 0 := rfl
    rw [hempty, Nat.zero_add] at hrolls
    exact (Nat.le_add_right _ _).trans hrolls

end

/-- What rpk prints for the one partition of a log. -/
def printed (l : SegmentedLog Unit) : Text :=
  describe plainLayout [(plainLayout, ⟨0, 1, 1, [1], by decide, l.logStart, l.logEnd⟩)]

private theorem printed_describes (l : SegmentedLog Unit) : Describes (printed l) l :=
  ⟨_, _, _, rfl, rfl, rfl, rfl, rfl⟩

/-- One message in a segment of 10 MB, fifteen seconds later. -/
theorem round1_confirmed_single : ∃ events l,
    Run (LogStep (topic1 none)) (.empty 0 : SegmentedLog Unit) events l ∧ l.now = 15000 ∧
      round1 (printed l) = [.check (some 0) (some 1), .stillZero] := by
  have hrun : Run (LogStep (topic1 none)) (.empty 0 : SegmentedLog Unit) [.append [⟨(), 200, 0⟩], .tick 15000] _ :=
    .cons (.append _ (by decide)) <| .cons (.tick _) <| .nil _
  exact ⟨_, _, hrun, rfl, (round1_confirmed hrun (by decide) (fun _ h => by cases h) (printed_describes _)).1⟩

/-- One message that fills its segment, twenty seconds later. -/
theorem round2_report_single : ∃ events l events' m,
    Run (LogStep (topic2 none)) (.empty 0 : SegmentedLog Unit) events l ∧ Run (LogStep (topic2 none)) l events' m ∧
      m.logStart = 1 ∧ Round2Report 0 none (events ++ events') l m (round2 (printed l) (printed m)) := by
  let l := ((SegmentedLog.empty 0 : SegmentedLog Unit).append [⟨(), 1100, 0⟩]).roll
  have hrun : Run (LogStep (topic2 none)) (.empty 0) [.append [⟨(), 1100, 0⟩], .roll] l :=
    .cons (.append _ (by decide)) <| .cons (.roll (by simp [SegmentedLog.append]) (.inl (by decide))) <| .nil _
  have hrun' : Run (LogStep (topic2 none)) l [.tick 20000, .delete] (l.tick 20000).deleteOldest :=
    .cons (.tick _) <| .cons (.delete _ rfl (.inl ⟨5000, 0, rfl, rfl, by decide⟩)) <| .nil _
  exact ⟨_, _, _, _, hrun, hrun', rfl, round2_report hrun hrun' (printed_describes _) (printed_describes _)⟩

end Shipstream.Simulations.SegmentRoll
