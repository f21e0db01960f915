import Shipstream.Simulations.BackwardCompat.Logs
import Shipstream.Transition.Run

/-! Executions of sim_backward_compat.py one after the other against one broker. The
groups keep their committed offsets between executions, and an execution may be killed. -/
namespace Shipstream.Simulations.BackwardCompat
open Kafka Orders Transition

/-- The two consumers of `main`, in the order they are drained. -/
inductive Reader where
  | v1
  | v2
  deriving DecidableEq, Repr

def Reader.groupId : Reader → String
  | .v1 => "sim-s1-v1-group"
  | .v2 => "sim-s1-v2-group"

example : Reader.v1.groupId ≠ Reader.v2.groupId := by decide

/-- The topic, and what each group has committed in each partition. -/
structure Broker where
  topic : Topic
  endOffset : Nat → Nat
  below : ∀ p, ∀ m ∈ topic.content p, m.offset < endOffset p
  committed : Reader → Nat → Option Nat

/-- An execution under way: the reader being drained, its position and stored offset in
each partition, what it has polled, and what an earlier reader polled. -/
structure Session where
  reader : Reader
  position : Nat → Nat
  stored : Nat → Option Nat
  trace : List PollEvent
  earlier : List PollEvent

/-- `written` is what the last execution that reached its end did with its results. -/
structure System where
  broker : Broker
  session : Option Session
  written : Option Outcome

namespace Broker

def produce (b : Broker) (p : Nat) (value : Option Protobuf.Bytes) : Broker where
  topic := b.topic.append ⟨p, b.endOffset p, value⟩ (b.below p)
  endOffset := Function.update b.endOffset p (b.endOffset p + 1)
  below q m hm := by
    by_cases hq : q = p
    · subst hq
      rw [Function.update_self]
      simp only [Topic.append, Function.update_self, List.mem_append, List.mem_singleton] at hm
      rcases hm with hm | rfl
      · exact Nat.lt_succ_of_lt (b.below q m hm)
      · exact Nat.lt_succ_self _
    · rw [Function.update_of_ne hq]
      simp only [Topic.append, Function.update_of_ne hq] at hm
      exact b.below q m hm
  committed := b.committed

def commit (b : Broker) (reader : Reader) (offsets : Nat → Option Nat) : Broker :=
  { b with committed := Function.update b.committed reader fun p => (offsets p).or (b.committed reader p) }

end Broker

namespace Session

/-- A fresh consumer resumes at what its group has committed. -/
def start (b : Broker) (reader : Reader) (earlier : List PollEvent) : Session where
  reader := reader
  position p := resumeAt (b.committed reader p)
  stored _ := none
  trace := []
  earlier := earlier

/-- A poll result, with the offset of a message stored for commit. -/
def polled (s : Session) (e : PollEvent) : Session :=
  match e.polled with
  | .message m => { s with
      position := Function.update s.position m.partition (m.offset + 1)
      stored := Function.update s.stored m.partition (some (m.offset + 1))
      trace := s.trace ++ [e] }
  | _ => { s with trace := s.trace ++ [e] }

end Session

/-- What the client may return next: nothing of any partition or, once all partitions are
assigned, the next message of a partition, or its end when there is none. -/
def Offers (topic : Topic) (position : Nat → Nat) (e : PollEvent) : Prop :=
  match e.polled with
  | .message m => e.assignment.toFinset = Finset.range topic.partitions ∧ m.partition < topic.partitions ∧
      topic.next? m.partition (position m.partition) = some m
  | .eof p => e.assignment.toFinset = Finset.range topic.partitions ∧ p < topic.partitions ∧
      topic.next? p (position p) = none
  | _ => True

instance (topic : Topic) (position : Nat → Nat) : (e : PollEvent) → Decidable (Offers topic position e)
  | ⟨.message m, assignment⟩ => inferInstanceAs (Decidable (assignment.toFinset = Finset.range topic.partitions ∧
      m.partition < topic.partitions ∧ topic.next? m.partition (position m.partition) = some m))
  | ⟨.eof p, assignment⟩ => inferInstanceAs (Decidable (assignment.toFinset = Finset.range topic.partitions ∧
      p < topic.partitions ∧ topic.next? p (position p) = none))
  | ⟨.timeout, _⟩ | ⟨.error _, _⟩ => inferInstanceAs (Decidable True)

inductive Event where
  | produce (p : Nat) (value : Option Protobuf.Bytes)
  | start
  | poll (e : PollEvent)
  | commit (p : Nat)
  | nextReader
  | finish
  | kill

variable (deserV1 : Deserializer V1.Order) (deserV2 : Deserializer V2.Order)

/-- The drain of the current reader is still in its loop. -/
def Session.Polling (s : Session) : Prop :=
  match s.reader with
  | .v1 => ∃ st, drain deserV1 s.trace = (.polling st, [])
  | .v2 => ∃ st, drain deserV2 s.trace = (.polling st, [])

/-- The drain of the given reader has returned. -/
def Session.Drained (s : Session) (reader : Reader) : Prop :=
  s.reader = reader ∧ match reader with
    | .v1 => ∃ results, drain deserV1 s.trace = (.returned results, [])
    | .v2 => ∃ results, drain deserV2 s.trace = (.returned results, [])

/-- Producers, and one execution of `main` at a time. Stored offsets are committed in the
background and on `close`; an execution whose deserializer raises can only be killed. -/
inductive Step : System → Event → System → Prop where
  | produce {v : System} (p : Nat) (value : Option Protobuf.Bytes) (hp : p < v.broker.topic.partitions) :
      Step v (.produce p value) { v with broker := v.broker.produce p value }
  | start {v : System} (hs : v.session = none) :
      Step v .start { v with session := some (.start v.broker .v1 []) }
  | poll {v : System} {s : Session} (e : PollEvent) (hs : v.session = some s) (hp : s.Polling deserV1 deserV2)
      (ho : Offers v.broker.topic s.position e) : Step v (.poll e) { v with session := some (s.polled e) }
  | commit {v : System} {s : Session} (p : Nat) (hs : v.session = some s) :
      Step v (.commit p) { v with
        broker := v.broker.commit s.reader fun q => if q = p then s.stored q else none }
  | nextReader {v : System} {s : Session} (hs : v.session = some s) (hd : s.Drained deserV1 deserV2 .v1) :
      Step v .nextReader { v with
        broker := v.broker.commit .v1 s.stored
        session := some (.start (v.broker.commit .v1 s.stored) .v2 s.trace) }
  | finish {v : System} {s : Session} (hs : v.session = some s) (hd : s.Drained deserV1 deserV2 .v2) :
      Step v .finish {
        broker := v.broker.commit .v2 s.stored
        session := none
        written := some (main deserV1 deserV2 s.earlier s.trace) }
  | kill {v : System} (hs : v.session ≠ none) : Step v .kill { v with session := none }

/-- A topic of any content that neither group has read yet. -/
def initial (topic : Topic) (endOffset : Nat → Nat)
    (below : ∀ p, ∀ m ∈ topic.content p, m.offset < endOffset p) : System :=
  ⟨⟨topic, endOffset, below, fun _ _ => none⟩, none, none⟩

/-- The steps of an execution between its start and its end, with nothing produced. -/
def Undisturbed (_ : System) : Event → Prop
  | .poll _ | .commit _ | .nextReader => True
  | _ => False

/-- An execution from start to end. -/
def CompleteRun (v w : System) : Prop := ∃ u events x, Step deserV1 deserV2 v .start u ∧
  Run (Guarded (Step deserV1 deserV2) Undisturbed) u events x ∧ Step deserV1 deserV2 x .finish w

/-! What histories leave committed. -/

/-- An offset behind some message of its partition. -/
def Behind (topic : Topic) (p : Nat) (offset : Option Nat) : Prop :=
  ∀ k ∈ offset, ∃ m ∈ topic.content p, m.offset < k

/-- Offsets are committed and stored only behind messages that were read. -/
structure HistoryInv (v : System) : Prop where
  committed : ∀ reader p, Behind v.broker.topic p (v.broker.committed reader p)
  stored : ∀ s ∈ v.session, ∀ p, Behind v.broker.topic p (s.stored p)

theorem Behind.none (topic : Topic) (p : Nat) : Behind topic p none := by simp [Behind]

theorem Behind.produce {b : Broker} {p q : Nat} {value : Option Protobuf.Bytes} {offset : Option Nat}
    (h : Behind b.topic q offset) : Behind (b.produce p value).topic q offset := fun k hk => by
  obtain ⟨m, hm, hlt⟩ := h k hk
  exact ⟨m, Topic.mem_append_content (h := b.below p) hm, hlt⟩

theorem Behind.or {topic : Topic} {p : Nat} {x y : Option Nat} (hx : Behind topic p x) (hy : Behind topic p y) :
    Behind topic p (x.or y) := by
  cases x with
  | none => exact hy
  | some k => exact hx

private theorem behind_commit {b : Broker} (h : ∀ reader p, Behind b.topic p (b.committed reader p)) (r : Reader)
    {offsets : Nat → Option Nat} (ho : ∀ p, Behind b.topic p (offsets p)) (reader : Reader) (p : Nat) :
    Behind (b.commit r offsets).topic p ((b.commit r offsets).committed reader p) := by
  by_cases hr : reader = r
  · subst hr
    simp only [Broker.commit, Function.update_self]
    exact (ho p).or (h reader p)
  · simp only [Broker.commit, Function.update_of_ne hr]
    exact h reader p

private theorem Session.polled_stored {topic : Topic} {s : Session} {e : PollEvent}
    (h : ∀ p, Behind topic p (s.stored p)) (ho : Offers topic s.position e) (p : Nat) : Behind topic p ((s.polled e).stored p) := by
  unfold Session.polled
  split
  · next m he =>
    simp only [Offers, he] at ho
    by_cases hp : p = m.partition
    · subst hp
      simp only [Function.update_self]
      intro k hk
      cases hk
      exact ⟨m, List.mem_of_find?_eq_some ho.2.2, Nat.lt_succ_self _⟩
    · simpa only [Function.update_of_ne hp] using h p
  · exact h p

variable {deserV1 deserV2} {v w : System} {ev : Event}

theorem Step.historyInv (hs : Step deserV1 deserV2 v ev w) (h : HistoryInv v) : HistoryInv w := by
  cases hs with
  | produce p value =>
    exact ⟨fun reader q => (h.committed reader q).produce, fun s hs q => (h.stored s hs q).produce⟩
  | start =>
    refine ⟨h.committed, fun s hs p => ?_⟩
    cases hs
    exact Behind.none _ _
  | @poll s e hs hp ho =>
    refine ⟨h.committed, fun s' hs' p => ?_⟩
    cases hs'
    exact Session.polled_stored (h.stored s hs) ho p
  | @commit s p hs =>
    refine ⟨behind_commit h.committed s.reader fun q => ?_, h.stored⟩
    split
    · exact h.stored s hs q
    · exact Behind.none _ _
  | @nextReader s hs =>
    refine ⟨behind_commit h.committed .v1 (h.stored s hs), fun s' hs' p => ?_⟩
    cases hs'
    exact Behind.none _ _
  | @finish s hs => exact ⟨behind_commit h.committed .v2 (h.stored s hs), nofun⟩
  | kill => exact ⟨h.committed, nofun⟩

theorem initial_historyInv (topic : Topic) (endOffset : Nat → Nat)
    (below : ∀ p, ∀ m ∈ topic.content p, m.offset < endOffset p) : HistoryInv (initial topic endOffset below) :=
  ⟨fun _ _ => Behind.none _ _, nofun⟩

/-! What one complete execution reads. -/

/-- The poll results of a partition are its messages from the start up to the position, and
its end, reported any number of times once there is nothing left. -/
def ReadTo (topic : Topic) (p start position : Nat) (polled : List Polled) : Prop :=
  ∃ k, polled = ((topic.content p).filter fun m => start ≤ m.offset ∧ m.offset < position).map .message ++
      List.replicate k (.eof p) ∧
    (0 < k → ∀ m ∈ topic.content p, m.offset < position)

theorem ReadTo.nil (topic : Topic) (p start : Nat) : ReadTo topic p start start [] := by
  refine ⟨0, ?_, by omega⟩
  rw [List.filter_eq_nil_iff.mpr fun m _ => by simp]
  rfl

theorem ReadTo.eof {topic : Topic} {p start position : Nat} {polled : List Polled}
    (h : ReadTo topic p start position polled) (hnext : topic.next? p position = none) :
    ReadTo topic p start position (polled ++ [.eof p]) := by
  obtain ⟨k, rfl, -⟩ := h
  refine ⟨k + 1, ?_, fun _ => Topic.lt_of_next?_eq_none hnext⟩
  rw [List.append_assoc, ← List.replicate_succ']

theorem ReadTo.message {topic : Topic} {p start position : Nat} {polled : List Polled} {m : Message}
    (h : ReadTo topic p start position polled) (hstart : start ≤ position)
    (hnext : topic.next? p position = some m) : ReadTo topic p start (m.offset + 1) (polled ++ [.message m]) := by
  obtain ⟨k, rfl, hend⟩ := h
  have hk : k = 0 := by
    by_contra hne
    have hbefore := hend (by omega) m (List.mem_of_find?_eq_some hnext)
    have hat : position ≤ m.offset := by simpa using (List.find?_eq_some_iff_append.mp hnext).1
    omega
  refine ⟨0, ?_, by omega⟩
  rw [hk, Topic.filter_next hstart hnext, List.map_append]
  simp

/-- A session has read each partition from the start up to its position. -/
structure Reading (topic : Topic) (start : Nat → Nat) (s : Session) : Prop where
  assigned : ∀ e ∈ s.trace, ∀ p, e.polled = .eof p → e.assignment.toFinset = Finset.range topic.partitions
  known : ∀ polled ∈ polls s.trace, ∀ p, polled.partition? = some p → p < topic.partitions
  forward : ∀ p, start p ≤ s.position p
  read : ∀ p, ReadTo topic p (start p) (s.position p)
    ((polls s.trace).filter fun polled => polled.partition? = some p)

theorem Reading.start (b : Broker) (reader : Reader) (earlier : List PollEvent) :
    Reading b.topic (fun p => resumeAt (b.committed reader p)) (.start b reader earlier) where
  assigned e he := by simp [Session.start] at he
  known polled hp := by simp [Session.start, polls] at hp
  forward _ := Nat.le_refl _
  read p := ReadTo.nil _ p _

theorem polled_trace (s : Session) (e : PollEvent) : (s.polled e).trace = s.trace ++ [e] := by
  unfold Session.polled
  split <;> rfl

private theorem polls_append (xs ys : List PollEvent) : polls (xs ++ ys) = polls xs ++ polls ys := List.map_append

/-- What a poll adds to the poll results of a partition. -/
theorem filter_polled (s : Session) (e : PollEvent) (p : Nat) :
    ((polls (s.polled e).trace).filter fun polled => polled.partition? = some p) =
      ((polls s.trace).filter fun polled => polled.partition? = some p) ++
        if e.polled.partition? = some p then [e.polled] else [] := by
  rw [polled_trace, polls_append, List.filter_append]
  congr 1
  by_cases h : e.polled.partition? = some p <;> simp [polls, h]

private theorem polled_position (s : Session) (e : PollEvent) : (s.polled e).position =
    match e.polled with
    | .message m => Function.update s.position m.partition (m.offset + 1)
    | _ => s.position := by
  unfold Session.polled
  split <;> rfl

section
variable {topic : Topic} {start : Nat → Nat} {s : Session} {e : PollEvent}

private theorem Reading.polled_assigned (h : Reading topic start s) (ho : Offers topic s.position e) :
    ∀ f ∈ (s.polled e).trace, ∀ p, f.polled = .eof p →
      f.assignment.toFinset = Finset.range topic.partitions := by
  intro f hf p hp
  rw [polled_trace] at hf
  rcases List.mem_append.mp hf with hf | hf
  · exact h.assigned f hf p hp
  · rw [List.mem_singleton.mp hf] at hp ⊢
    simp only [Offers, hp] at ho
    exact ho.1

private theorem Reading.polled_known (h : Reading topic start s) (ho : Offers topic s.position e) :
    ∀ polled ∈ polls (s.polled e).trace, ∀ p, polled.partition? = some p → p < topic.partitions := by
  intro polled hp p hpart
  rw [polled_trace, polls_append] at hp
  rcases List.mem_append.mp hp with hp | hp
  · exact h.known polled hp p hpart
  · rw [List.mem_singleton.mp hp] at hpart
    cases he : e.polled with
    | timeout | error _ => simp [he, Polled.partition?] at hpart
    | eof q | message m =>
      simp only [he, Polled.partition?, Option.some.injEq] at hpart
      simp only [Offers, he] at ho
      exact hpart ▸ ho.2.1

/-- A poll reads on in its own partition and leaves the others where they are. -/
theorem Reading.polled_read (h : Reading topic start s) (ho : Offers topic s.position e) :
    (∀ p, start p ≤ (s.polled e).position p) ∧ ∀ p, ReadTo topic p (start p) ((s.polled e).position p)
      ((polls (s.polled e).trace).filter fun polled => polled.partition? = some p) := by
  have hposition := polled_position s e
  cases he : e.polled with
  | timeout | error _ =>
    simp only [he] at hposition
    refine ⟨hposition ▸ h.forward, fun p => ?_⟩
    rw [filter_polled, hposition, he, if_neg (by simp [Polled.partition?]), List.append_nil]
    exact h.read p
  | eof q =>
    simp only [he] at hposition
    simp only [Offers, he] at ho
    refine ⟨hposition ▸ h.forward, fun p => ?_⟩
    rw [filter_polled, hposition, he]
    by_cases hp : q = p
    · subst hp
      rw [if_pos (by simp [Polled.partition?])]
      exact (h.read q).eof ho.2.2
    · rw [if_neg (by simp [Polled.partition?, hp]), List.append_nil]
      exact h.read p
  | message m =>
    simp only [he] at hposition
    simp only [Offers, he] at ho
    have hat : s.position m.partition ≤ m.offset := by
      simpa using (List.find?_eq_some_iff_append.mp ho.2.2).1
    refine ⟨fun p => ?_, fun p => ?_⟩
    · rw [hposition]
      by_cases hp : p = m.partition
      · subst hp
        rw [Function.update_self]
        exact (h.forward m.partition).trans (Nat.le_succ_of_le hat)
      · rw [Function.update_of_ne hp]
        exact h.forward p
    · rw [filter_polled, hposition, he]
      by_cases hp : p = m.partition
      · subst hp
        rw [if_pos (by simp [Polled.partition?]), Function.update_self]
        exact (h.read m.partition).message (h.forward m.partition) ho.2.2
      · rw [if_neg (by simp [Polled.partition?, Ne.symm hp]), List.append_nil, Function.update_of_ne hp]
        exact h.read p

theorem Reading.polled (h : Reading topic start s) (ho : Offers topic s.position e) :
    Reading topic start (s.polled e) :=
  ⟨h.polled_assigned ho, h.polled_known ho, (h.polled_read ho).1, (h.polled_read ho).2⟩

end

variable {α : Type} {deserializer : Deserializer α}

/-- A session whose drain has returned has read the topic from its start to its end. -/
theorem Reading.drained {topic : Topic} {start : Nat → Nat} {s : Session} (h : Reading topic start s)
    {results : List (Message × Option α)} (hr : drain deserializer s.trace = (.returned results, [])) :
    (topic.since start).Delivers (polls s.trace) ∧ results.map Prod.fst = messages (polls s.trace) := by
  obtain ⟨pre, e, htrace, ⟨p, hp, -, hsub⟩, hres⟩ := drainFrom_returned deserializer hr
  have he : e ∈ s.trace := by simp [htrace]
  have hpolls : polls s.trace = polls pre ++ [.eof p] := by rw [htrace, polls_append, ← hp]; rfl
  have hended : ∀ q < topic.partitions, .eof q ∈ polls s.trace := fun q hq => by
    rw [h.assigned e he p hp, Finset.empty_union] at hsub
    rw [hpolls]
    rcases Finset.mem_insert.mp (hsub (Finset.mem_range.mpr hq)) with rfl | hin
    · simp
    · exact List.mem_append_left _ (mem_eofs.mp hin)
  refine ⟨⟨h.known, fun q hq => ?_⟩, ?_⟩
  · obtain ⟨k, hread, hend⟩ := h.read q
    have hk : 0 < k := by
      by_contra hne
      have hzero : k = 0 := by omega
      have hin : Polled.eof q ∈ (polls s.trace).filter fun polled => polled.partition? = some q :=
        List.mem_filter.mpr ⟨hended q hq, by simp [Polled.partition?]⟩
      rw [hread, hzero] at hin
      simp at hin
    refine ⟨k - 1, ?_⟩
    rw [hread, Nat.sub_add_cancel hk]
    congr 2
    apply List.filter_congr
    intro m hm
    have := hend hk m hm
    simp only [decide_eq_decide]
    omega
  · rw [hpolls, messages_append]
    exact hres.trans (List.append_nil _).symm

/-- The starting offsets that a group's committed offsets give. -/
def Broker.startOf (b : Broker) (reader : Reader) (p : Nat) : Nat := resumeAt (b.committed reader p)

/-- A drain that read the topic from the offsets its group had committed at `b`. -/
def ReadFrom (b : Broker) (reader : Reader) (deserializer : Deserializer α) (trace : List PollEvent) : Prop :=
  ∃ results, drain deserializer trace = (.returned results, []) ∧
    (b.topic.since (b.startOf reader)).Delivers (polls trace) ∧ results.map Prod.fst = messages (polls trace)

/-- An execution started at `b`: the topic stays, the second group keeps its offsets until
it is read, and each reader reads from what its group had committed at the start. -/
def ExecutionInv (deserV1 : Deserializer V1.Order) (b : Broker) (x : System) : Prop :=
  x.broker.topic = b.topic ∧ ∃ s, x.session = some s ∧ Reading b.topic (b.startOf s.reader) s ∧
    match s.reader with
    | .v1 => x.broker.committed .v2 = b.committed .v2
    | .v2 => ReadFrom b .v1 deserV1 s.earlier

theorem polled_reader (s : Session) (e : PollEvent) :
    (s.polled e).reader = s.reader ∧ (s.polled e).earlier = s.earlier := by
  unfold Session.polled
  split <;> exact ⟨rfl, rfl⟩

private theorem Step.executionInv {b : Broker} {x y : System} (hs : Step deserV1 deserV2 x ev y) (hok : Undisturbed x ev)
    (h : ExecutionInv deserV1 b x) : ExecutionInv deserV1 b y := by
  obtain ⟨htopic, s, hsession, hreading, hreader⟩ := h
  cases hs with
  | produce | start | finish | kill => exact hok.elim
  | @poll s' e hs hp ho =>
    cases hsession.symm.trans hs
    obtain ⟨hr, he⟩ := polled_reader s e
    refine ⟨htopic, _, rfl, hr ▸ hreading.polled (htopic ▸ ho), ?_⟩
    rw [hr, he]
    exact hreader
  | @commit s' p hs =>
    cases hsession.symm.trans hs
    refine ⟨htopic, s, hsession, hreading, ?_⟩
    cases hr : s.reader with
    | v1 =>
      rw [hr] at hreader
      simpa [Broker.commit, Function.update_of_ne] using hreader
    | v2 =>
      rw [hr] at hreader
      exact hreader
  | @nextReader s' hs hd =>
    cases hsession.symm.trans hs
    obtain ⟨hr, results, hresults⟩ := hd
    rw [hr] at hreader hreading
    have hcommitted : (x.broker.commit .v1 s.stored).committed .v2 = b.committed .v2 := by
      simpa [Broker.commit, Function.update_of_ne] using hreader
    have hstart := Reading.start (x.broker.commit .v1 s.stored) .v2 s.trace
    refine ⟨htopic, _, rfl, ?_, results, hresults, hreading.drained hresults⟩
    have htopic' : (x.broker.commit .v1 s.stored).topic = b.topic := htopic
    rw [htopic', hcommitted] at hstart
    exact hstart

/-- A complete execution that reached its end read both times from what the groups had committed. -/
theorem CompleteRun.read {v w : System} (h : CompleteRun deserV1 deserV2 v w) :
    ∃ traceV1 traceV2, ReadFrom v.broker .v1 deserV1 traceV1 ∧ ReadFrom v.broker .v2 deserV2 traceV2 ∧
      w.written = some (main deserV1 deserV2 traceV1 traceV2) := by
  obtain ⟨u, events, x, hstart, hrun, hfinish⟩ := h
  have hu : ExecutionInv deserV1 v.broker u := by
    cases hstart
    exact ⟨rfl, _, rfl, Reading.start v.broker .v1 [], rfl⟩
  have hx := hrun.invariant (ExecutionInv deserV1 v.broker) (fun _ _ _ hs => hs.2.executionInv hs.1) hu
  obtain ⟨htopic, s, hsession, hreading, hreader⟩ := hx
  cases hfinish with
  | @finish s' hs hd =>
    cases hsession.symm.trans hs
    obtain ⟨hr, results, hresults⟩ := hd
    rw [hr] at hreader hreading
    exact ⟨s.earlier, s.trace, hreader, ⟨results, hresults, hreading.drained hresults⟩, rfl⟩

end Shipstream.Simulations.BackwardCompat
