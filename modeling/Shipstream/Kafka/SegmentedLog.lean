import Shipstream.Transition.Run

/-! A partition log kept in segments. Appends go to the active segment, a batch at a time, a roll
closes it, and retention deletes closed segments, the oldest first. What is stored is a history
with a prefix deleted. -/
namespace Shipstream.Kafka
open Transition

/-- A stored record, with its size on disk and its timestamp in milliseconds. The header of a batch
counts with its first record. -/
structure Stored (α : Type) where
  value : α
  bytes : Nat
  time : Nat
  deriving DecidableEq, Repr

variable {α : Type}

def totalBytes (records : List (Stored α)) : Nat := (records.map Stored.bytes).sum

@[simp] theorem totalBytes_nil : totalBytes ([] : List (Stored α)) = 0 := rfl

@[simp] theorem totalBytes_append (xs ys : List (Stored α)) :
    totalBytes (xs ++ ys) = totalBytes xs + totalBytes ys := by
  rw [totalBytes, List.map_append, List.sum_append]
  rfl

/-- Deleting a prefix frees its bytes. -/
theorem totalBytes_drop_le (n : Nat) (records : List (Stored α)) :
    totalBytes (records.drop n) ≤ totalBytes records := by
  have hsplit := totalBytes_append (records.take n) (records.drop n)
  rw [List.take_append_drop] at hsplit
  omega

/-- `base` is the offset of the first record, `opened` the time the segment was opened. -/
structure Segment (α : Type) where
  base : Nat
  opened : Nat
  records : List (Stored α)

namespace Segment
variable (g : Segment α)

/-- The offset behind the last record. -/
def next : Nat := g.base + g.records.length

def bytes : Nat := totalBytes g.records

def lastTime? : Option Nat := g.records.getLast?.map Stored.time

def read (k : Nat) : Option (Stored α) := if g.base ≤ k then g.records[k - g.base]? else none

end Segment

/-- The storage limits of a topic; none is no limit. -/
structure LogConfig where
  segmentBytes : Nat
  segmentMs : Option Nat
  retentionMs : Option Nat
  retentionBytes : Option Nat
  deriving DecidableEq, Repr

/-- Consecutive segments meet. -/
def Linked (segments : List (Segment α)) : Prop := segments.IsChain fun g h => h.base = g.next

/-- The closed segments, oldest first, and the active one, without holes between them. -/
structure SegmentedLog (α : Type) where
  closed : List (Segment α)
  active : Segment α
  now : Nat
  linked : Linked (closed ++ [active])

/-- The last segment may be replaced by one with the same base. -/
theorem Linked.replaceLast {closed : List (Segment α)} {g h : Segment α} (hl : Linked (closed ++ [g]))
    (hb : h.base = g.base) : Linked (closed ++ [h]) := by
  obtain ⟨hclosed, -, hmeet⟩ := List.isChain_append.mp hl
  refine List.isChain_append.mpr ⟨hclosed, List.isChain_singleton _, fun x hx y hy => ?_⟩
  cases hy
  exact hb.trans (hmeet x hx g rfl)

private theorem Linked.extend {closed : List (Segment α)} {g h : Segment α} (hl : Linked (closed ++ [g]))
    (hb : h.base = g.next) : Linked ((closed ++ [g]) ++ [h]) := by
  refine List.isChain_append.mpr ⟨hl, List.isChain_singleton _, fun x hx y hy => ?_⟩
  rw [List.getLast?_concat, Option.mem_some_iff] at hx
  cases hy
  exact hx ▸ hb

private theorem Linked.dropOldest {closed : List (Segment α)} {g : Segment α} (hl : Linked (closed ++ [g])) :
    Linked (closed.tail ++ [g]) := by
  cases closed with
  | nil => exact hl
  | cons oldest closed => exact hl.tail

namespace SegmentedLog
variable (l : SegmentedLog α)

def segments : List (Segment α) := l.closed ++ [l.active]

/-- The log start offset: the base of the oldest segment. -/
def logStart : Nat := (l.closed.head?.getD l.active).base

/-- The offset of the next record. -/
def logEnd : Nat := l.active.next

/-- Everything that is still stored. -/
def records : List (Stored α) := l.segments.flatMap Segment.records

def closedBytes : Nat := (l.closed.map Segment.bytes).sum

def bytes : Nat := l.closedBytes + l.active.bytes

/-- The record at an offset, from the segment that holds it. -/
def read (k : Nat) : Option (Stored α) := l.segments.findSome? (Segment.read · k)

def empty (now : Nat) : SegmentedLog α := ⟨[], ⟨0, now, []⟩, now, List.isChain_singleton _⟩

def append (batch : List (Stored α)) : SegmentedLog α where
  closed := l.closed
  active := { l.active with records := l.active.records ++ batch }
  now := l.now
  linked := l.linked.replaceLast rfl

/-- The active segment is closed and a new one opened behind it. -/
def roll : SegmentedLog α where
  closed := l.closed ++ [l.active]
  active := ⟨l.active.next, l.now, []⟩
  now := l.now
  linked := l.linked.extend rfl

def deleteOldest : SegmentedLog α where
  closed := l.closed.tail
  active := l.active
  now := l.now
  linked := l.linked.dropOldest

def tick (ms : Nat) : SegmentedLog α := { l with now := l.now + ms }

end SegmentedLog

namespace LogConfig
variable (c : LogConfig) (l : SegmentedLog α)

/-- The active segment has reached its size, or its age. -/
def RollDue : Prop :=
  c.segmentBytes ≤ l.active.bytes ∨ ∃ ms, c.segmentMs = some ms ∧ l.active.opened + ms ≤ l.now

/-- The last record of the segment is older than the retention time. -/
def Expired (g : Segment α) : Prop :=
  ∃ ms time, c.retentionMs = some ms ∧ g.lastTime? = some time ∧ time + ms < l.now

/-- The closed segments together exceed the retention size. -/
def OverCap : Prop := ∃ cap, c.retentionBytes = some cap ∧ cap < l.closedBytes

/-- The cleaner has nothing to delete. -/
def Settled : Prop := ∀ g, l.closed.head? = some g → ¬ (c.Expired l g ∨ c.OverCap l)

end LogConfig

inductive LogEvent (α : Type) where
  | append (batch : List (Stored α))
  | roll
  | delete
  | tick (ms : Nat)

def LogEvent.records : LogEvent α → List (Stored α)
  | .append batch => batch
  | .roll | .delete | .tick _ => []

def LogEvent.batches : LogEvent α → List (List (Stored α))
  | .append batch => [batch]
  | .roll | .delete | .tick _ => []

/-- The records appended in a run. -/
def appended (events : List (LogEvent α)) : List (Stored α) := events.flatMap LogEvent.records

/-- The batches they came in, whose sizes the producer decides. -/
def batches (events : List (LogEvent α)) : List (List (Stored α)) := events.flatMap LogEvent.batches

/-- A batch is stored in one segment, and a full segment takes none before it is rolled; the cleaner
deletes the oldest closed segment at any time at which it has expired or the closed ones exceed
the cap. -/
inductive LogStep (c : LogConfig) : SegmentedLog α → LogEvent α → SegmentedLog α → Prop where
  | append {l : SegmentedLog α} (batch : List (Stored α)) (hb : l.active.bytes < c.segmentBytes) :
      LogStep c l (.append batch) (l.append batch)
  | roll {l : SegmentedLog α} (hne : l.active.records ≠ []) (hd : c.RollDue l) : LogStep c l .roll l.roll
  | delete {l : SegmentedLog α} (g : Segment α) (hg : l.closed.head? = some g)
      (hd : c.Expired l g ∨ c.OverCap l) : LogStep c l .delete l.deleteOldest
  | tick {l : SegmentedLog α} (ms : Nat) : LogStep c l (.tick ms) (l.tick ms)

/-! Reading by offset. -/

/-- The offsets of linked segments run on from the first base. -/
theorem Linked.next_last {g : Segment α} {segments : List (Segment α)} (hl : Linked (g :: segments)) :
    (segments.getLast?.getD g).next = g.base + ((g :: segments).flatMap Segment.records).length := by
  induction segments generalizing g with
  | nil => simp [Segment.next]
  | cons h segments ih =>
    obtain ⟨hb, hrest⟩ := List.isChain_cons_cons.mp hl
    have hnext : g.next = g.base + g.records.length := rfl
    have hlast : (h :: segments).getLast?.getD g = segments.getLast?.getD h := by
      cases segments <;> rfl
    rw [hlast, ih hrest, hb, hnext, List.flatMap_cons (x := g), List.length_append]
    omega

/-- Looking an offset up segment by segment reads the records one after the other. -/
theorem Linked.findSome_read {g : Segment α} {segments : List (Segment α)} (hl : Linked (g :: segments)) (k : Nat) :
    (g :: segments).findSome? (Segment.read · k) =
      if g.base ≤ k then ((g :: segments).flatMap Segment.records)[k - g.base]? else none := by
  induction segments generalizing g with
  | nil => simp [Segment.read]
  | cons h segments ih =>
    obtain ⟨hb, hrest⟩ := List.isChain_cons_cons.mp hl
    have hnext : g.next = g.base + g.records.length := rfl
    rw [List.findSome?_cons, ih hrest, List.flatMap_cons (x := g), Segment.read]
    by_cases hk : g.base ≤ k
    · rw [if_pos hk, if_pos hk]
      by_cases hin : k - g.base < g.records.length
      · rw [List.getElem?_append_left hin, List.getElem?_eq_getElem hin]
      · have hle : h.base ≤ k := by omega
        have hsub : k - g.base - g.records.length = k - h.base := by omega
        rw [List.getElem?_append_right (by omega), List.getElem?_eq_none (by omega), if_pos hle, hsub]
    · rw [if_neg hk, if_neg hk, if_neg (by omega)]

namespace SegmentedLog
variable (l : SegmentedLog α)

theorem logStart_eq : ∃ g rest, l.segments = g :: rest ∧ g.base = l.logStart := by
  unfold segments logStart
  cases l.closed with
  | nil => exact ⟨_, _, rfl, rfl⟩
  | cons g closed => exact ⟨_, _, rfl, rfl⟩

theorem logEnd_eq : l.logEnd = l.logStart + l.records.length := by
  obtain ⟨g, rest, hsegments, hbase⟩ := l.logStart_eq
  have hlinked : Linked (g :: rest) := hsegments ▸ l.linked
  have hlast : rest.getLast?.getD g = l.active := by
    have hactive : l.segments.getLast? = some l.active := List.getLast?_concat
    rw [hsegments, List.getLast?_cons] at hactive
    exact Option.some.inj hactive
  have hnext := hlinked.next_last
  rw [hlast, hbase] at hnext
  rw [logEnd, hnext, records, hsegments]

theorem logStart_le_logEnd : l.logStart ≤ l.logEnd := l.logEnd_eq ▸ Nat.le_add_right _ _

theorem read_eq (k : Nat) : l.read k = if l.logStart ≤ k then l.records[k - l.logStart]? else none := by
  obtain ⟨g, rest, hsegments, hbase⟩ := l.logStart_eq
  have hlinked : Linked (g :: rest) := hsegments ▸ l.linked
  rw [read, records, hsegments, hlinked.findSome_read, hbase]

theorem records_eq : l.records = l.closed.flatMap Segment.records ++ l.active.records := by
  rw [records, segments, List.flatMap_append, List.flatMap_singleton]

theorem bytes_eq : l.bytes = totalBytes l.records := by
  have hclosed : l.closedBytes = totalBytes (l.closed.flatMap Segment.records) := by
    unfold closedBytes
    induction l.closed with
    | nil => rfl
    | cons g closed ih =>
      rw [List.map_cons, List.sum_cons, ih, List.flatMap_cons, totalBytes_append]
      rfl
  rw [bytes, hclosed, records_eq, totalBytes_append]
  rfl

/-! What an operation does to the records and to the log start. -/

@[simp] theorem append_logStart (batch : List (Stored α)) : (l.append batch).logStart = l.logStart := by
  obtain ⟨closed, active, now, linked⟩ := l
  cases closed <;> rfl

@[simp] theorem append_records (batch : List (Stored α)) : (l.append batch).records = l.records ++ batch := by
  rw [records_eq, records_eq, List.append_assoc]
  rfl

theorem append_active_bytes (batch : List (Stored α)) :
    (l.append batch).active.bytes = l.active.bytes + totalBytes batch := by
  rw [Segment.bytes, append, totalBytes_append]
  rfl

@[simp] theorem roll_logStart : l.roll.logStart = l.logStart := by
  obtain ⟨closed, active, now, linked⟩ := l
  cases closed <;> rfl

@[simp] theorem roll_records : l.roll.records = l.records := by
  rw [records_eq, records_eq, roll]
  simp only [List.flatMap_append, List.flatMap_singleton, List.append_nil]

@[simp] theorem tick_logStart (ms : Nat) : (l.tick ms).logStart = l.logStart := rfl

@[simp] theorem tick_records (ms : Nat) : (l.tick ms).records = l.records := rfl

variable {l} in
/-- Deleting the oldest segment moves the log start behind it. -/
theorem deleteOldest_spec {g : Segment α} (hg : l.closed.head? = some g) :
    l.logStart = g.base ∧ l.deleteOldest.logStart = g.next ∧ l.records = g.records ++ l.deleteOldest.records := by
  obtain ⟨closed, active, now, linked⟩ := l
  cases closed with
  | nil => cases hg
  | cons oldest rest =>
    cases hg
    refine ⟨rfl, ?_, ?_⟩
    · cases rest with
      | nil => exact (List.isChain_cons_cons.mp linked).1
      | cons second rest => exact (List.isChain_cons_cons.mp linked).1
    · rw [records_eq, records_eq, deleteOldest, List.flatMap_cons, List.append_assoc]
      rfl

end SegmentedLog

/-! What is stored of a history. -/

/-- The log holds the history from its start on. -/
structure Keeps (history : List (Stored α)) (l : SegmentedLog α) : Prop where
  records : l.records = history.drop l.logStart
  logEnd : l.logEnd = history.length

variable {c : LogConfig} {history : List (Stored α)} {l m : SegmentedLog α} {ev : LogEvent α}
  {events : List (LogEvent α)} {start : Nat}

theorem Keeps.logStart_le (h : Keeps history l) : l.logStart ≤ history.length := by
  have := l.logEnd_eq
  have := h.logEnd
  omega

/-- A record that is not deleted is read back from its offset, a deleted one is not. -/
theorem Keeps.read (h : Keeps history l) (k : Nat) :
    l.read k = if l.logStart ≤ k then history[k]? else none := by
  rw [l.read_eq, h.records, List.getElem?_drop]
  split
  · next hk => rw [Nat.add_sub_cancel' hk]
  · rfl

theorem Keeps.read_eq_none (h : Keeps history l) (k : Nat) :
    l.read k = none ↔ k < l.logStart ∨ history.length ≤ k := by
  rw [h.read]
  split
  · rw [List.getElem?_eq_none_iff]
    omega
  · simp only [true_iff]
    omega

theorem Keeps.bytes_le (h : Keeps history l) : l.bytes ≤ totalBytes history := by
  rw [l.bytes_eq, h.records]
  exact totalBytes_drop_le _ _

theorem LogStep.keeps (hs : LogStep c l ev m) (h : Keeps history l) : Keeps (history ++ ev.records) m := by
  have hend := l.logEnd_eq
  have hlogEnd := h.logEnd
  cases hs with
  | append batch =>
    refine ⟨?_, ?_⟩
    · rw [l.append_records, l.append_logStart, h.records, LogEvent.records, List.drop_append_of_le_length h.logStart_le]
    · rw [SegmentedLog.logEnd_eq, l.append_logStart, l.append_records, LogEvent.records, List.length_append,
        List.length_append, ← hlogEnd, hend, Nat.add_assoc]
  | roll =>
    refine ⟨?_, ?_⟩
    · simp only [l.roll_records, l.roll_logStart, LogEvent.records, List.append_nil, h.records]
    · rw [SegmentedLog.logEnd_eq, l.roll_logStart, l.roll_records, ← hend, hlogEnd, LogEvent.records, List.append_nil]
  | delete g hg =>
    obtain ⟨hstart, hstart', hrecords⟩ := SegmentedLog.deleteOldest_spec hg
    have hnext : g.next = g.base + g.records.length := rfl
    refine ⟨?_, ?_⟩
    · have hdrop := congrArg (List.drop g.records.length) (hrecords.symm.trans h.records)
      rw [List.drop_left, List.drop_drop, hstart, ← hnext, ← hstart'] at hdrop
      rw [LogEvent.records, List.append_nil, hdrop]
    · rw [LogEvent.records, List.append_nil, ← hlogEnd]
      rfl
  | tick ms =>
    refine ⟨?_, ?_⟩
    · simp only [l.tick_records, l.tick_logStart, LogEvent.records, List.append_nil, h.records]
    · rw [LogEvent.records, List.append_nil, ← hlogEnd]
      rfl

private theorem LogStep.logStart_le (hs : LogStep c l ev m) : l.logStart ≤ m.logStart := by
  cases hs with
  | append => rw [l.append_logStart]
  | roll => rw [l.roll_logStart]
  | delete g hg =>
    obtain ⟨hstart, hstart', -⟩ := SegmentedLog.deleteOldest_spec hg
    rw [hstart, hstart']
    exact Nat.le_add_right _ _
  | tick ms => rw [l.tick_logStart]

private theorem LogStep.now_le (hs : LogStep c l ev m) : l.now ≤ m.now := by
  cases hs with
  | append | roll | delete => exact Nat.le_refl _
  | tick ms => exact Nat.le_add_right _ _

theorem empty_keeps (now : Nat) : Keeps [] (SegmentedLog.empty now : SegmentedLog α) := ⟨rfl, rfl⟩

theorem run_keeps (hrun : Run (LogStep c) l events m) (h : Keeps history l) :
    Keeps (history ++ appended events) m :=
  hrun.accumulate LogEvent.records Keeps (fun _ _ _ _ => LogStep.keeps) _ h

theorem run_logStart_le (hrun : Run (LogStep c) l events m) : l.logStart ≤ m.logStart :=
  hrun.invariant (fun m => l.logStart ≤ m.logStart) (fun _ _ _ hs h => h.trans hs.logStart_le) (Nat.le_refl _)

private theorem run_now_le (hrun : Run (LogStep c) l events m) : l.now ≤ m.now :=
  hrun.invariant (fun m => l.now ≤ m.now) (fun _ _ _ hs h => h.trans hs.now_le) (Nat.le_refl _)

/-! What retention may delete. -/

/-- Why an offset may be gone: it, or a later record deleted with it, has passed the retention
time, or the log has outgrown the retention size. -/
def Explained (c : LogConfig) (history : List (Stored α)) (l : SegmentedLog α) (k : Nat) : Prop :=
  (∃ ms j r, c.retentionMs = some ms ∧ k ≤ j ∧ j < l.logStart ∧ history[j]? = some r ∧ r.time + ms < l.now) ∨
    ∃ cap, c.retentionBytes = some cap ∧ cap < totalBytes history

theorem Explained.step {k : Nat} (h : Explained c history l k) (hs : LogStep c l ev m) :
    Explained c (history ++ ev.records) m k := by
  rcases h with ⟨ms, j, r, hms, hkj, hj, hr, hold⟩ | ⟨cap, hcap, hover⟩
  · refine .inl ⟨ms, j, r, hms, hkj, hj.trans_le hs.logStart_le, ?_, hold.trans_le hs.now_le⟩
    rw [List.getElem?_append_left (List.getElem?_eq_some_iff.mp hr).1, hr]
  · rw [Explained, totalBytes_append]
    exact .inr ⟨cap, hcap, hover.trans_le (Nat.le_add_right _ _)⟩

/-- The last record of the oldest segment, by its offset. -/
theorem Keeps.last_of_oldest (h : Keeps history l) {g : Segment α} (hg : l.closed.head? = some g) {time : Nat}
    (ht : g.lastTime? = some time) : g.base < g.next ∧ ∃ r, history[g.next - 1]? = some r ∧ r.time = time := by
  obtain ⟨hstart, -, hrecords⟩ := SegmentedLog.deleteOldest_spec hg
  obtain ⟨r, hr, rfl⟩ := Option.map_eq_some_iff.mp ht
  have hpos : 0 < g.records.length := by
    rw [List.length_pos_iff]
    rintro he
    rw [he] at hr
    cases hr
  have hindex : g.next - 1 = l.logStart + (g.records.length - 1) := by
    have hnext : g.next = g.base + g.records.length := rfl
    omega
  have hnext : g.base < g.next := Nat.lt_add_of_pos_right hpos
  refine ⟨hnext, r, ?_, rfl⟩
  rw [hindex, ← List.getElem?_drop, ← h.records, hrecords, List.getElem?_append_left (by omega),
    ← List.getLast?_eq_getElem?, hr]

private theorem LogStep.explained (hs : LogStep c l ev m) (hk : Keeps history l)
    (h : ∀ k < l.logStart, Explained c history l k) : ∀ k < m.logStart, Explained c (history ++ ev.records) m k := by
  intro k hlt
  by_cases hold : k < l.logStart
  · exact (h k hold).step hs
  · cases hs with
    | append => rw [l.append_logStart] at hlt; exact absurd hlt hold
    | roll => rw [l.roll_logStart] at hlt; exact absurd hlt hold
    | tick ms => rw [l.tick_logStart] at hlt; exact absurd hlt hold
    | delete g hg hd =>
      obtain ⟨-, hstart', -⟩ := SegmentedLog.deleteOldest_spec hg
      rw [LogEvent.records, List.append_nil]
      rcases hd with ⟨ms, time, hms, htime, hexpired⟩ | ⟨cap, hcap, hover⟩
      · obtain ⟨hpos, r, hr, rfl⟩ := hk.last_of_oldest hg htime
        exact .inl ⟨ms, g.next - 1, r, hms, by omega, by omega, hr, hexpired⟩
      · have hclosed : l.closedBytes ≤ l.bytes := Nat.le_add_right _ _
        exact .inr ⟨cap, hcap, hover.trans_le (hclosed.trans hk.bytes_le)⟩

theorem run_explained (hrun : Run (LogStep c) (SegmentedLog.empty start) events l) :
    ∀ k < l.logStart, Explained c (appended events) l k := by
  have hboth := hrun.accumulate LogEvent.records
    (fun history l => Keeps history l ∧ ∀ k < l.logStart, Explained c history l k)
    (fun _ _ _ _ hs h => ⟨hs.keeps h.1, hs.explained h.1 h.2⟩)
    [] ⟨empty_keeps start, fun k hk => absurd hk (Nat.not_lt_zero k)⟩
  exact hboth.2

/-- A log that fits into the retention size loses nothing while none of its records has expired. -/
theorem kept_of_fits (h : ∀ k < l.logStart, Explained c history l k)
    (hfits : ∀ cap, c.retentionBytes = some cap → totalBytes history ≤ cap)
    (hfresh : ∀ ms, c.retentionMs = some ms → ∀ r ∈ history, l.now ≤ r.time + ms) : l.logStart = 0 := by
  by_contra hne
  rcases h 0 (Nat.pos_of_ne_zero hne) with ⟨ms, j, r, hms, -, -, hr, hold⟩ | ⟨cap, hcap, hover⟩
  · have := hfresh ms hms r (List.mem_of_getElem? hr)
    omega
  · have := hfits cap hcap
    omega

/-- Without a retention size, and with timestamps in order, no record within the retention time
is deleted. -/
theorem Keeps.read_fresh (hk : Keeps history l) (h : ∀ k < l.logStart, Explained c history l k)
    (hcap : c.retentionBytes = none) (hsorted : history.Pairwise fun r r' => r.time ≤ r'.time) {k : Nat}
    {r : Stored α} (hr : history[k]? = some r) (hfresh : ∀ ms, c.retentionMs = some ms → l.now ≤ r.time + ms) :
    l.read k = some r := by
  rw [hk.read, hr, if_pos]
  by_contra hlt
  rcases h k (by omega) with ⟨ms, j, r', hms, hkj, -, hr', hold⟩ | ⟨cap, hsome, -⟩
  · have htime : r.time ≤ r'.time := by
      rcases Nat.lt_or_eq_of_le hkj with hkj | rfl
      · obtain ⟨hk', rfl⟩ := List.getElem?_eq_some_iff.mp hr
        obtain ⟨hj', rfl⟩ := List.getElem?_eq_some_iff.mp hr'
        exact List.pairwise_iff_getElem.mp hsorted k j hk' hj' hkj
      · rw [Option.some.inj (hr.symm.trans hr')]
    have := hfresh ms hms
    omega
  · rw [hcap] at hsome
    cases hsome

/-! Rolling. -/

/-- A log smaller than a segment, and younger than the age of one, has a single segment. -/
def SingleWhileSmall (c : LogConfig) (start : Nat) (history : List (Stored α)) (l : SegmentedLog α) : Prop :=
  totalBytes history < c.segmentBytes → (∀ ms, c.segmentMs = some ms → l.now < start + ms) →
    l.closed = [] ∧ l.active.opened = start ∧ l.logStart = 0

private theorem LogStep.singleWhileSmall (hs : LogStep c l ev m) (hk : Keeps history l)
    (h : SingleWhileSmall c start history l) : SingleWhileSmall c start (history ++ ev.records) m := by
  intro hsmall hyoung
  rw [totalBytes_append] at hsmall
  obtain ⟨hclosed, hopened, hzero⟩ := h (by omega) fun ms hms => hs.now_le.trans_lt (hyoung ms hms)
  cases hs with
  | append batch => exact ⟨hclosed, hopened, (l.append_logStart batch).trans hzero⟩
  | tick ms => exact ⟨hclosed, hopened, hzero⟩
  | roll hne hd =>
    have hactive : l.active.bytes ≤ l.bytes := Nat.le_add_left _ _
    have hbytes := hk.bytes_le
    rcases hd with hfull | ⟨ms, hms, hold⟩
    · omega
    · have hnow : l.now < start + ms := hyoung ms hms
      omega
  | delete g hg =>
    rw [hclosed] at hg
    cases hg

theorem run_singleWhileSmall (hrun : Run (LogStep c) (SegmentedLog.empty start) events l) :
    SingleWhileSmall c start (appended events) l := by
  have hboth := hrun.accumulate LogEvent.records
    (fun history l => Keeps history l ∧ SingleWhileSmall c start history l)
    (fun _ _ _ _ hs h => ⟨hs.keeps h.1, hs.singleWhileSmall h.1 h.2⟩)
    [] ⟨empty_keeps start, fun _ _ => ⟨rfl, rfl, rfl⟩⟩
  exact hboth.2

/-- The active segment is never larger than its limit and one batch. -/
def ActiveBounded (c : LogConfig) (bound : Nat) (batches : List (List (Stored α))) (l : SegmentedLog α) : Prop :=
  (∀ batch ∈ batches, totalBytes batch ≤ bound) → l.active.bytes ≤ c.segmentBytes + bound

private theorem LogStep.activeBounded {bound : Nat} {before : List (List (Stored α))} (hs : LogStep c l ev m)
    (h : ActiveBounded c bound before l) : ActiveBounded c bound (before ++ ev.batches) m := by
  intro hall
  have hle := h fun batch hbatch => hall batch (List.mem_append_left _ hbatch)
  cases hs with
  | append batch hb =>
    have hbatch := hall batch (List.mem_append_right _ (List.mem_singleton_self batch))
    rw [l.append_active_bytes]
    omega
  | roll => exact Nat.zero_le _
  | delete | tick => exact hle

theorem run_activeBounded (bound : Nat) (hrun : Run (LogStep c) (SegmentedLog.empty start) events l) :
    ActiveBounded c bound (batches events) l := by
  have hempty : ActiveBounded c bound [] (SegmentedLog.empty start : SegmentedLog α) := fun _ => Nat.zero_le _
  exact hrun.accumulate LogEvent.batches (ActiveBounded c bound) (fun _ _ _ _ => LogStep.activeBounded) _ hempty

/-- After the cleaner the closed segments fit into the retention size. -/
theorem LogConfig.Settled.closedBytes_le (h : c.Settled l) {cap : Nat} (hcap : c.retentionBytes = some cap) :
    l.closedBytes ≤ cap := by
  cases hclosed : l.closed with
  | nil =>
    rw [SegmentedLog.closedBytes, hclosed]
    exact Nat.zero_le _
  | cons g rest =>
    have hnot := not_or.mp (h g (by rw [hclosed]; rfl))
    by_contra hlt
    exact hnot.2 ⟨cap, hcap, by omega⟩

/-- After the cleaner a log that has outgrown the retention size by more than a segment and a
batch has lost its first records. -/
theorem deleted_of_exceeds {bound cap : Nat} (hrun : Run (LogStep c) (SegmentedLog.empty start) events l)
    (hbound : ∀ batch ∈ batches events, totalBytes batch ≤ bound) (hcap : c.retentionBytes = some cap) (hs : c.Settled l)
    (hexceeds : cap + c.segmentBytes + bound < totalBytes (appended events)) : 0 < l.logStart := by
  have hkeeps : Keeps (appended events) l := run_keeps hrun (empty_keeps start)
  have hclosed := hs.closedBytes_le hcap
  have hactive := run_activeBounded bound hrun hbound
  have hbytes : l.bytes = l.closedBytes + l.active.bytes := rfl
  by_contra hnot
  have hzero : l.logStart = 0 := by omega
  have hall := l.bytes_eq
  rw [hkeeps.records, hzero, List.drop_zero] at hall
  omega

/-- The cleaner can always finish: it deletes closed segments until it has nothing to delete.
Induction over the closed segments. -/
theorem exists_settled (c : LogConfig) (l : SegmentedLog α) :
    ∃ events m, Run (LogStep c) l events m ∧ c.Settled m ∧ batches events = [] ∧ appended events = [] := by
  generalize hn : l.closed.length = n
  induction n generalizing l with
  | zero =>
    have hclosed : l.closed = [] := List.length_eq_zero_iff.mp hn
    refine ⟨[], l, .nil l, fun g hg => ?_, rfl, rfl⟩
    rw [hclosed] at hg
    cases hg
  | succ n ih =>
    by_cases hs : c.Settled l
    · exact ⟨[], l, .nil l, hs, rfl, rfl⟩
    · simp only [LogConfig.Settled, not_forall, not_not] at hs
      obtain ⟨g, hg, hd⟩ := hs
      have hlength : l.deleteOldest.closed.length = n := by
        rw [SegmentedLog.deleteOldest, List.length_tail, hn, Nat.add_sub_cancel]
      obtain ⟨events, m, hrun, hsettled, hbatches, happended⟩ := ih l.deleteOldest hlength
      exact ⟨.delete :: events, m, .cons (.delete g hg hd) hrun, hsettled, hbatches, happended⟩

/-- The log takes any records, each in a batch of its own: a full segment is rolled first. Induction
over the records. -/
theorem exists_appended (hc : 0 < c.segmentBytes) (l : SegmentedLog α) (records : List (Stored α)) :
    ∃ events m, Run (LogStep c) l events m ∧ batches events = records.map ([·]) ∧ appended events = records := by
  induction records generalizing l with
  | nil => exact ⟨[], l, .nil l, rfl, rfl⟩
  | cons r records ih =>
    by_cases hb : l.active.bytes < c.segmentBytes
    · obtain ⟨events, m, hrun, hbatches, happended⟩ := ih (l.append [r])
      exact ⟨.append [r] :: events, m, .cons (.append [r] hb) hrun, congrArg ([r] :: ·) hbatches,
        congrArg (r :: ·) happended⟩
    · have hne : l.active.records ≠ [] := by
        intro hnil
        rw [Segment.bytes, hnil, totalBytes_nil] at hb
        exact hb hc
      obtain ⟨events, m, hrun, hbatches, happended⟩ := ih (l.roll.append [r])
      exact ⟨.roll :: .append [r] :: events, m,
        .cons (.roll hne (.inl (Nat.not_lt.mp hb))) (.cons (.append [r] hc) hrun),
        congrArg ([r] :: ·) hbatches, congrArg (r :: ·) happended⟩

/-! Counting the rolls. -/

def LogEvent.isRoll : LogEvent α → Bool
  | .roll => true
  | .append _ | .delete | .tick _ => false

/-- Each roll closes a full segment, unless it closes an old one. Induction over the run. -/
theorem run_rolls (hrun : Run (LogStep c) l events m) (ho : start ≤ l.active.opened) (hn : start ≤ l.now)
    (hyoung : ∀ ms, c.segmentMs = some ms → m.now < start + ms) :
    events.countP LogEvent.isRoll * c.segmentBytes + m.active.bytes ≤ l.active.bytes + totalBytes (appended events) := by
  induction hrun with
  | nil => simp [appended]
  | @cons l l' m ev events hs hr ih =>
    have hnow : l'.now ≤ m.now := run_now_le hr
    have happended : totalBytes (appended (ev :: events)) = totalBytes ev.records + totalBytes (appended events) := by
      rw [appended, List.flatMap_cons, totalBytes_append]
      rfl
    rw [happended, List.countP_cons, Nat.add_mul]
    cases hs with
    | append batch =>
      have hrest := ih ho hn hyoung
      rw [l.append_active_bytes] at hrest
      simp only [LogEvent.isRoll, LogEvent.records, Bool.false_eq_true, if_false]
      omega
    | roll hne hd =>
      have hrest := ih hn hn hyoung
      have hactive : l.roll.active.bytes = 0 := rfl
      have hfull : c.segmentBytes ≤ l.active.bytes := by
        rcases hd with hfull | ⟨ms, hms, hold⟩
        · exact hfull
        · have := hyoung ms hms
          have hsame : l.roll.now = l.now := rfl
          omega
      simp only [LogEvent.isRoll, LogEvent.records, totalBytes_nil, if_true]
      omega
    | delete =>
      have hrest := ih ho hn hyoung
      have hactive : l.deleteOldest.active.bytes = l.active.bytes := rfl
      simp only [LogEvent.isRoll, LogEvent.records, totalBytes_nil, Bool.false_eq_true, if_false]
      omega
    | tick ms =>
      have hrest := ih ho (hn.trans (Nat.le_add_right _ _)) hyoung
      have hactive : (l.tick ms).active.bytes = l.active.bytes := rfl
      simp only [LogEvent.isRoll, LogEvent.records, totalBytes_nil, Bool.false_eq_true, if_false]
      omega

/-! Topics. -/

/-- The logs of a topic, by partition. -/
abbrev TopicLog (α : Type) := Nat → SegmentedLog α

/-- A step of one partition leaves the others alone. -/
inductive TopicStep (partitions : Nat) (c : LogConfig) : TopicLog α → Nat × LogEvent α → TopicLog α → Prop where
  | step {t : TopicLog α} {l : SegmentedLog α} {ev : LogEvent α} (p : Nat) (hp : p < partitions)
      (hs : LogStep c (t p) ev l) : TopicStep partitions c t (p, ev) (Function.update t p l)

/-- The events of one partition. -/
def eventsOf (p : Nat) (events : List (Nat × LogEvent α)) : List (LogEvent α) :=
  events.filterMap fun ev => if ev.1 = p then some ev.2 else none

variable {partitions : Nat} {t u : TopicLog α} {topicEvents : List (Nat × LogEvent α)}

/-- A run of a topic is a run of each of its partitions. -/
theorem run_partition (hrun : Run (TopicStep partitions c) t topicEvents u) (p : Nat) :
    Run (LogStep c) (t p) (eventsOf p topicEvents) (u p) := by
  induction hrun with
  | nil => exact .nil _
  | @cons t t' u ev events hs _ ih =>
    cases hs with
    | step q hq hs =>
      by_cases hpq : q = p
      · subst hpq
        rw [Function.update_self] at ih
        simpa only [eventsOf, List.filterMap_cons, if_true] using Run.cons hs ih
      · rw [Function.update_of_ne (Ne.symm hpq)] at ih
        simpa only [eventsOf, List.filterMap_cons, if_neg hpq] using ih

/-- A run of one partition is a run of the topic, and of no other partition. -/
theorem run_topic {p : Nat} (hp : p < partitions) {events : List (LogEvent α)} (hrun : Run (LogStep c) l events m)
    (hl : t p = l) : Run (TopicStep partitions c) t (events.map (p, ·)) (Function.update t p m) := by
  induction hrun generalizing t with
  | nil =>
    rw [← hl, Function.update_eq_self]
    exact .nil t
  | cons hs _ ih =>
    subst hl
    have hrest := ih (t := Function.update t p _) (Function.update_self _ _ _)
    rw [Function.update_idem] at hrest
    exact .cons (.step p hp hs) hrest

private theorem eventsOf_map (p q : Nat) (events : List (LogEvent α)) :
    eventsOf q (events.map (p, ·)) = if p = q then events else [] := by
  induction events with
  | nil => simp [eventsOf]
  | cons ev events ih =>
    rw [eventsOf, List.map_cons, List.filterMap_cons]
    split
    · next hnone =>
      rw [← eventsOf, ih]
      split
      · next hpq => simp [hpq] at hnone
      · rfl
    · next ev' hsome =>
      simp only [Option.ite_none_right_eq_some, Option.some.injEq] at hsome
      obtain ⟨hpq, rfl⟩ := hsome
      rw [← eventsOf, ih, if_pos hpq, if_pos hpq]

private theorem empty_settled (c : LogConfig) (start : Nat) : c.Settled (SegmentedLog.empty start : SegmentedLog α) :=
  fun _ hg => by cases hg

/-- Any records can be written to one partition of a new topic, each in a batch of its own, and the
cleaner finish. -/
theorem exists_filled {p : Nat} (hp : p < partitions) (hc : 0 < c.segmentBytes) (start : Nat)
    (records : List (Stored α)) : ∃ events u, Run (TopicStep partitions c) (fun _ => .empty start) events u ∧
      (∀ q, batches (eventsOf q events) = if p = q then records.map ([·]) else []) ∧
      (∀ q, appended (eventsOf q events) = if p = q then records else []) ∧ ∀ q, c.Settled (u q) := by
  obtain ⟨events, l, hrun, hbatches, happended⟩ := exists_appended hc (SegmentedLog.empty start) records
  obtain ⟨events', m, hrun', hsettled, hnone, hnone'⟩ := exists_settled c l
  refine ⟨_, _, run_topic hp (hrun.append hrun') rfl, fun q => ?_, fun q => ?_, fun q => ?_⟩
  · rw [eventsOf_map]
    split
    · rw [batches, List.flatMap_append, ← batches, ← batches, hbatches, hnone, List.append_nil]
    · rfl
  · rw [eventsOf_map]
    split
    · rw [appended, List.flatMap_append, ← appended, ← appended, happended, hnone', List.append_nil]
    · rfl
  · by_cases hq : q = p
    · rw [hq, Function.update_self]
      exact hsettled
    · rw [Function.update_of_ne hq]
      exact empty_settled c start

/-- The partitions of a new topic can be sent all their records in one batch each, which stay in the
active segments, so the cleaner has nothing to delete. -/
theorem exists_one_batch_each (hc : 0 < c.segmentBytes) (partitions start : Nat) (content : Nat → List (Stored α)) :
    ∃ events u, Run (TopicStep partitions c) (fun _ => .empty start) events u ∧
      ∀ p < partitions, (u p).records = content p ∧ (u p).logStart = 0 ∧ c.Settled (u p) := by
  let sent (p : Nat) : SegmentedLog α := (SegmentedLog.empty start).append (content p)
  let I (t : TopicLog α) : Prop := ∀ p, t p = .empty start ∨ t p = sent p
  have hstep (t : TopicLog α) (p : Nat) (ht : I t) (hp : p < partitions) : ∃ events u,
      Run (TopicStep partitions c) t events u ∧ I u ∧ u p = sent p ∧ ∀ q, q ≠ p → t q = sent q → u q = sent q := by
    rcases ht p with hempty | hsent
    · have happend : LogStep c (t p) (.append (content p)) (sent p) := hempty ▸ .append (content p) hc
      refine ⟨_, _, .cons (.step p hp happend) (.nil _), fun q => ?_, Function.update_self _ _ _, fun q hne hq => ?_⟩
      · by_cases hq : q = p
        · subst hq
          exact .inr (Function.update_self _ _ _)
        · rw [Function.update_of_ne hq]
          exact ht q
      · rwa [Function.update_of_ne hne]
    · exact ⟨[], t, .nil t, ht, hsent, fun _ _ hq => hq⟩
  obtain ⟨events, u, hrun, -, hsent⟩ := exists_run_forall_lt I (fun p t => t p = sent p) hstep (fun _ => .inl rfl)
  refine ⟨events, u, hrun, fun p hp => ?_⟩
  rw [hsent p hp]
  exact ⟨SegmentedLog.append_records _ _, rfl, fun g hg => by cases hg⟩

end Shipstream.Kafka
