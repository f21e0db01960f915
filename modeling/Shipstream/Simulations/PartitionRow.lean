import Shipstream.Python.Text

/-! The partition table that `rpk topic describe --print-partitions` prints, and how
sim_acks_comparison.py, sim_idempotence.py and sim_segment_roll.py read it. -/
namespace Shipstream.Simulations
open Python

/-- What is printed for one partition. -/
structure PartitionRow where
  partition : Nat
  leader : Int
  epoch : Int
  replicas : List Int
  replicas_ne : replicas ≠ []
  logStart : Int
  highWatermark : Int

/-- The gaps of one line, between its columns and inside its replica list. -/
structure Layout where
  column : Nat → Gap
  replica : Nat → Gap

def tableHeader : List Text :=
  ["PARTITION", "LEADER", "EPOCH", "REPLICAS", "LOG-START-OFFSET", "HIGH-WATERMARK"].map String.toList

/-- A replica list is printed with blanks inside its brackets. -/
def replicaColumn (layout : Layout) (replicas : List Int) : Text :=
  '[' :: joinColumns layout.replica (replicas.map decimal) ++ [']']

def PartitionRow.columns (row : PartitionRow) (layout : Layout) : List Text :=
  [decimal row.partition, decimal row.leader, decimal row.epoch, replicaColumn layout row.replicas,
    decimal row.logStart, decimal row.highWatermark]

def PartitionRow.line (row : PartitionRow) (layout : Layout) : Text := joinColumns layout.column (row.columns layout)

/-- The output of rpk: the header and a line for each partition. -/
def describe (layout : Layout) (rows : List (Layout × PartitionRow)) : Text :=
  joinLines (joinColumns layout.column tableHeader :: rows.map fun row => row.2.line row.1) ++ ['\n']

/-- The loop of all five functions: `read` is tried on each line of partition 0 until it raises neither
an IndexError nor a ValueError. -/
def readPartition {α : Type} (read : List Text → Option α) (stdout : Text) : Option α :=
  ((splitlines (strip stdout)).map split).findSome? fun parts =>
    if parts.head? = some ['0'] then read parts else none

/-- `int(parts[i])`. -/
def intColumn (parts : List Text) (i : Nat) : Option Int := parts[i]?.bind int

def SegmentRoll.watermarks (stdout : Text) : Option Int × Option Int :=
  match readPartition (fun parts => do return (← intColumn parts 4, ← intColumn parts 5)) stdout with
  | some (logStart, highWatermark) => (some logStart, some highWatermark)
  | none => (none, none)

def AcksComparison.highWatermark (stdout : Text) : Option Int := readPartition (intColumn · 5) stdout

def Idempotence.highWatermark (stdout : Text) : Option Int := readPartition (intColumn · 5) stdout

/-- `NODES`, with the bootstrap addresses. -/
def AcksComparison.nodes : Int → Option (String × String)
  | 0 => some ("redpanda-1", "localhost:19092")
  | 1 => some ("redpanda-2", "localhost:29092")
  | 2 => some ("redpanda-3", "localhost:39092")
  | _ => none

/-- A leader that is no key of `NODES` raises the KeyError that the loop passes over. -/
def AcksComparison.findLeader (stdout : Text) : Option Int × Option String :=
  match readPartition (fun parts => do
    let nodeId ← intColumn parts 1
    let (container, _) ← nodes nodeId
    return (nodeId, container)) stdout with
  | some (nodeId, container) => (some nodeId, some container)
  | none => (none, none)

def Idempotence.nodes : Int → Option String
  | 0 => some "redpanda-1"
  | 1 => some "redpanda-2"
  | 2 => some "redpanda-3"
  | _ => none

def Idempotence.findLeaderContainer (stdout : Text) : String :=
  (readPartition (fun parts => (intColumn parts 1).map fun nodeId => (nodes nodeId).getD "redpanda-1") stdout).getD
    "redpanda-1"

/-! Splitting the printed lines. -/

/-- The words of the replicas after the first, with the closing bracket. -/
def closingWords : List Int → List Text
  | [] => []
  | [r] => [decimal r ++ [']']]
  | r :: rs => decimal r :: closingWords rs

def replicaWords : List Int → List Text
  | [] => []
  | [r] => ['[' :: decimal r ++ [']']]
  | r :: rs => ('[' :: decimal r) :: closingWords rs

/-- The words of a line; the replica list takes one for each replica. -/
def PartitionRow.words (row : PartitionRow) : List Text :=
  [decimal row.partition, decimal row.leader, decimal row.epoch] ++ replicaWords row.replicas ++
    [decimal row.logStart, decimal row.highWatermark]

private theorem split_decimal (n : Int) : split (decimal n) = [decimal n] := split_word (decimal_isWord n)

private theorem bracket_isWord : IsWord ['['] ∧ IsWord [']'] := by decide

private theorem split_closing (gap : Nat → Gap) {replicas : List Int} (hne : replicas ≠ []) :
    split (joinColumns gap (replicas.map decimal) ++ [']']) = closingWords replicas := by
  induction replicas with
  | nil => exact absurd rfl hne
  | cons r replicas ih =>
    cases replicas with
    | nil => exact split_word ((decimal_isWord r).append bracket_isWord.2)
    | cons next replicas =>
      have hrest := ih (List.cons_ne_nil next replicas)
      rw [List.map_cons] at hrest
      rw [List.map_cons, List.map_cons, joinColumns_cons_cons, List.append_assoc, split_gap, hrest, split_decimal]
      rfl

private theorem split_replicaColumn (layout : Layout) {replicas : List Int} (hne : replicas ≠ []) :
    split (replicaColumn layout replicas) = replicaWords replicas := by
  cases replicas with
  | nil => exact absurd rfl hne
  | cons r replicas =>
    have hopened : IsWord ('[' :: decimal r) := bracket_isWord.1.append (decimal_isWord r)
    cases replicas with
    | nil => exact split_word (hopened.append bracket_isWord.2)
    | cons next replicas =>
      have hrest := split_closing layout.replica (List.cons_ne_nil next replicas)
      rw [List.map_cons] at hrest
      rw [replicaColumn, List.map_cons, List.map_cons, joinColumns_cons_cons, ← List.cons_append, ← List.cons_append,
        List.append_assoc, split_gap, hrest, split_word hopened]
      rfl

/-- Splitting the line of a partition gives its words. -/
theorem PartitionRow.split_line (row : PartitionRow) (layout : Layout) : split (row.line layout) = row.words := by
  simp only [PartitionRow.line, split_joinColumns, PartitionRow.columns, List.flatMap_cons, List.flatMap_nil,
    split_decimal, split_replicaColumn layout row.replicas_ne]
  rfl

/-! Reading the lines. -/

private theorem replicaColumn_trimmed (layout : Layout) (replicas : List Int) :
    Trimmed (replicaColumn layout replicas) :=
  (bracket_isWord.1.trimmed.append _ bracket_isWord.2.trimmed)

private theorem replicaColumn_isLine (layout : Layout) {replicas : List Int} (hne : replicas ≠ []) :
    IsLine (replicaColumn layout replicas) := by
  refine (bracket_isWord.1.isLine.append (joinColumns_isLine (by simpa using hne) fun column hc => ?_)).append
    bracket_isWord.2.isLine
  obtain ⟨r, -, rfl⟩ := List.mem_map.mp hc
  exact (decimal_isWord r).isLine

private theorem PartitionRow.line_spec (row : PartitionRow) (layout : Layout) :
    Trimmed (row.line layout) ∧ IsLine (row.line layout) := by
  refine ⟨joinColumns_trimmed (List.cons_ne_nil _ _) ?_, joinColumns_isLine (List.cons_ne_nil _ _) ?_⟩
  all_goals simp only [PartitionRow.columns, List.mem_cons, List.not_mem_nil, or_false]
  · rintro column (rfl | rfl | rfl | rfl | rfl | rfl)
    case inr.inr.inr.inl => exact replicaColumn_trimmed layout row.replicas
    all_goals exact (decimal_isWord _).trimmed
  · rintro column (rfl | rfl | rfl | rfl | rfl | rfl)
    case inr.inr.inr.inl => exact replicaColumn_isLine layout row.replicas_ne
    all_goals exact (decimal_isWord _).isLine

private theorem tableHeader_words : ∀ column ∈ tableHeader, IsWord column := by
  simp only [tableHeader, List.map_cons, List.map_nil, List.mem_cons, List.not_mem_nil, or_false]
  rintro column (rfl | rfl | rfl | rfl | rfl | rfl) <;> decide

/-- The words of the lines of an output. -/
theorem split_describe (layout : Layout) (rows : List (Layout × PartitionRow)) :
    (splitlines (strip (describe layout rows))).map split = tableHeader :: rows.map fun row => row.2.words := by
  have hheader : Trimmed (joinColumns layout.column tableHeader) ∧ IsLine (joinColumns layout.column tableHeader) :=
    ⟨joinColumns_trimmed (List.cons_ne_nil _ _) fun column hc => (tableHeader_words column hc).trimmed,
      joinColumns_isLine (List.cons_ne_nil _ _) fun column hc => (tableHeader_words column hc).isLine⟩
  have hlines : ∀ line ∈ joinColumns layout.column tableHeader :: rows.map (fun row => row.2.line row.1),
      Trimmed line ∧ IsLine line := by
    intro line hline
    rcases List.mem_cons.mp hline with rfl | hline
    · exact hheader
    · obtain ⟨row, -, rfl⟩ := List.mem_map.mp hline
      exact row.2.line_spec row.1
  have hbreak : ∀ c ∈ ['\n'], isSpace c = true := List.forall_mem_singleton.mpr rfl
  have hsplit : split (joinColumns layout.column tableHeader) = tableHeader := by
    rw [split_joinColumns]
    have hwords : tableHeader.flatMap split = tableHeader.flatMap fun column => [column] :=
      List.flatMap_congr fun column hc => split_word (tableHeader_words column hc)
    rw [hwords, List.flatMap_singleton']
  rw [describe, strip_append (joinLines_trimmed (List.cons_ne_nil _ _) fun line h => (hlines line h).1) hbreak,
    splitlines_joinLines fun line h => (hlines line h).2, List.map_cons, List.map_map, hsplit]
  exact congrArg _ (List.map_congr_left fun row _ => row.2.split_line row.1)

private theorem decimal_partition (p : Nat) : decimal p = ['0'] ↔ p = 0 := by
  constructor
  · intro h
    have hp : decimal p = decimal (0 : Nat) := h
    exact_mod_cast decimal_injective hp
  · rintro rfl
    rfl

variable {α : Type} {layout : Layout} {rows : List (Layout × PartitionRow)} {line : Layout} {row : PartitionRow}

/-- The loop reads the words of the one line of partition 0. -/
theorem readPartition_describe (hnodup : (rows.map fun row => row.2.partition).Nodup) (hrow : (line, row) ∈ rows)
    (hzero : row.partition = 0) (read : List Text → Option α) :
    readPartition read (describe layout rows) = read row.words := by
  have hhead (other : PartitionRow) : other.words.head? = some ['0'] ↔ other.partition = 0 := by
    rw [← decimal_partition]
    exact Option.some_inj
  obtain ⟨before, after, rfl⟩ := List.append_of_mem hrow
  rw [List.map_append, List.map_cons, List.nodup_append] at hnodup
  obtain ⟨-, hafter, hbefore⟩ := hnodup
  have hothers {others : List (Layout × PartitionRow)} (h : ∀ other ∈ others, other.2.partition ≠ 0) :
      ((others.map fun row => row.2.words).findSome? fun parts =>
        if parts.head? = some ['0'] then read parts else none) = none := by
    refine List.findSome?_eq_none_iff.mpr fun parts hparts => ?_
    obtain ⟨other, hother, rfl⟩ := List.mem_map.mp hparts
    exact if_neg fun hzero => h other hother ((hhead other.2).mp hzero)
  rw [readPartition, split_describe, List.findSome?_cons, if_neg (by decide), List.map_append, List.findSome?_append,
    hothers fun other hother => ?_, Option.none_or, List.map_cons, List.findSome?_cons,
    if_pos ((hhead row).mpr hzero), hothers fun other hother => ?_]
  · cases read row.words <;> rfl
  · intro hp
    apply (List.nodup_cons.mp hafter).1
    rw [hzero, ← hp]
    exact List.mem_map_of_mem hother
  · intro hp
    exact hbefore _ (List.mem_map_of_mem hother) _ List.mem_cons_self (hp.trans hzero.symm)

/-- What the positions of the last two columns hold, as numbers: they shift with the replicas. -/
def PartitionRow.readings (row : PartitionRow) : Option Int × Option Int :=
  match row.replicas with
  | [] | [_] => (some row.logStart, some row.highWatermark)
  | [_, _] => (none, some row.logStart)
  | [_, second, _] => (some second, none)
  | _ :: second :: third :: _ => (some second, some third)

private theorem PartitionRow.intColumn_words (row : PartitionRow) :
    intColumn row.words 1 = some row.leader ∧ intColumn row.words 4 = row.readings.1 ∧
      intColumn row.words 5 = row.readings.2 := by
  have hclosed (n : Int) : int (decimal n ++ [']']) = none := int_decimal_append n (by decide) (by decide) (by decide)
  unfold PartitionRow.readings PartitionRow.words
  refine ⟨int_decimal _, ?_⟩
  match row.replicas, row.replicas_ne with
  | [], hne => exact absurd rfl hne
  | [_], _ => exact ⟨int_decimal _, int_decimal _⟩
  | [_, _], _ => exact ⟨hclosed _, int_decimal _⟩
  | [_, _, _], _ => exact ⟨int_decimal _, hclosed _⟩
  | _ :: _ :: _ :: _ :: _, _ => exact ⟨int_decimal _, int_decimal _⟩

/-- The container of a node, as both scripts name it. -/
def containerOf : Fin 3 → String := !["redpanda-1", "redpanda-2", "redpanda-3"]

/-- The five functions give back what was printed for partition 0. -/
structure ReadsBack (stdout : Text) (row : PartitionRow) : Prop where
  watermarks : SegmentRoll.watermarks stdout = (some row.logStart, some row.highWatermark)
  acksHighWatermark : AcksComparison.highWatermark stdout = some row.highWatermark
  idempotenceHighWatermark : Idempotence.highWatermark stdout = some row.highWatermark
  leader : ∀ node : Fin 3, row.leader = (node : Nat) →
    AcksComparison.findLeader stdout = (some row.leader, some (containerOf node)) ∧
      Idempotence.findLeaderContainer stdout = containerOf node

section
variable (layout)
variable (hnodup : (rows.map fun row => row.2.partition).Nodup) (hrow : (line, row) ∈ rows)
  (hzero : row.partition = 0)
include hnodup hrow hzero

private theorem highWatermark_describe : AcksComparison.highWatermark (describe layout rows) = row.readings.2 ∧
    Idempotence.highWatermark (describe layout rows) = row.readings.2 := by
  rw [AcksComparison.highWatermark, Idempotence.highWatermark, readPartition_describe hnodup hrow hzero]
  exact ⟨row.intColumn_words.2.2, row.intColumn_words.2.2⟩

theorem watermarks_describe : SegmentRoll.watermarks (describe layout rows) =
    match row.readings with
    | (some logStart, some highWatermark) => (some logStart, some highWatermark)
    | _ => (none, none) := by
  obtain ⟨-, hfourth, hfifth⟩ := row.intColumn_words
  rw [SegmentRoll.watermarks, readPartition_describe hnodup hrow hzero, hfourth, hfifth]
  rcases row.readings with ⟨_ | logStart, _ | highWatermark⟩ <;> rfl

/-- The leader stands before the replicas and is always read back. -/
theorem findLeader_describe (node : Fin 3) (hleader : row.leader = (node : Nat)) :
    AcksComparison.findLeader (describe layout rows) = (some row.leader, some (containerOf node)) ∧
      Idempotence.findLeaderContainer (describe layout rows) = containerOf node := by
  rw [AcksComparison.findLeader, Idempotence.findLeaderContainer, readPartition_describe hnodup hrow hzero,
    readPartition_describe hnodup hrow hzero, row.intColumn_words.1, hleader]
  fin_cases node <;> exact ⟨rfl, rfl⟩

end

/-- The numbers printed for partition 0 are read back exactly when its replica list is one
word, or when the ids of two of at least four replicas stand where the watermarks are
expected and happen to equal them. -/
theorem reads_back_iff (hnodup : (rows.map fun row => row.2.partition).Nodup) (hrow : (line, row) ∈ rows)
    (hzero : row.partition = 0) :
    ReadsBack (describe layout rows) row ↔ row.replicas.length = 1 ∨ (4 ≤ row.replicas.length ∧
      row.replicas[1]? = some row.logStart ∧ row.replicas[2]? = some row.highWatermark) := by
  have hwatermarks := watermarks_describe layout hnodup hrow hzero
  obtain ⟨hacks, hidempotence⟩ := highWatermark_describe layout hnodup hrow hzero
  have hsame : ReadsBack (describe layout rows) row ↔ row.readings = (some row.logStart, some row.highWatermark) := by
    constructor
    · intro h
      have hread := hwatermarks.symm.trans h.watermarks
      revert hread
      rcases row.readings with ⟨_ | logStart, _ | highWatermark⟩ <;> simp
    · intro h
      exact ⟨by rw [hwatermarks, h], by rw [hacks, h], by rw [hidempotence, h],
        findLeader_describe layout hnodup hrow hzero⟩
  rw [hsame, PartitionRow.readings]
  match row.replicas, row.replicas_ne with
  | [], hne => exact absurd rfl hne
  | [_], _ | [_, _], _ | [_, _, _], _ | _ :: _ :: _ :: _ :: _, _ => simp

/-- Columns two blanks apart, replicas one. -/
def plainLayout : Layout :=
  ⟨fun _ => ⟨[' ', ' '], by decide, by simp⟩, fun _ => ⟨[' '], by decide, by simp⟩⟩

/-- A partition with the given replicas, led by node 1, that holds the offsets 3 to 99. -/
def partitionWith (partition : Nat) (replicas : List Int) (hne : replicas ≠ []) : PartitionRow :=
  ⟨partition, 1, 4, replicas, hne, 3, 100⟩

theorem reads_back_one_replica : ReadsBack
    (describe plainLayout [(plainLayout, partitionWith 1 [0, 1, 2] (by decide)),
      (plainLayout, partitionWith 0 [1] (by decide))]) (partitionWith 0 [1] (by decide)) :=
  (reads_back_iff (by decide) (List.mem_cons_of_mem _ List.mem_cons_self) rfl).mpr (.inl rfl)

/-- With the three replicas the scripts create their topics with, no watermark is read. -/
theorem not_read_back : ¬ ∀ (layout : Layout) (rows : List (Layout × PartitionRow)) (line : Layout)
    (row : PartitionRow), (rows.map fun row => row.2.partition).Nodup → (line, row) ∈ rows → row.partition = 0 →
    ReadsBack (describe layout rows) row := by
  intro h
  have hread := h plainLayout [(plainLayout, partitionWith 0 [0, 1, 2] (by decide))] plainLayout _ (by decide)
    List.mem_cons_self rfl
  have hnone : AcksComparison.highWatermark
      (describe plainLayout [(plainLayout, partitionWith 0 [0, 1, 2] (by decide))]) = none := by decide
  exact absurd (hnone.symm.trans hread.acksHighWatermark) (by decide)

end Shipstream.Simulations
