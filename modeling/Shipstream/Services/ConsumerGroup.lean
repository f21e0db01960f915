import Shipstream.Orders.Envelope
import Shipstream.Services.Consumer
import Shipstream.Transition.Run

/-! The consumer processes of one group against the broker. Auto-commit and auto
offset store are left on: `poll` stores the offset behind the message it hands out,
and stored offsets are committed in the background while the loop is still at work. -/
namespace Shipstream.Services
open Kafka Orders Transition

inductive Status where
  | unstarted
  | running
  | ended
  deriving DecidableEq, Repr

/-- One `python services/consumer.py`. `inFlight` is the message handed out by the
last `poll` whose loop iteration has not been finished; it stays visible after a kill. -/
structure Consumer where
  status : Status
  position : Nat → Nat
  stored : Nat → Option Nat
  inFlight : Option Message

/-- Partition logs and committed offsets on the broker, the coordinator's assignment,
the processes, and everything printed so far. -/
structure Group where
  log : Nat → List (Option Protobuf.Bytes)
  committed : Nat → Option Nat
  owner : Nat → Option Nat
  consumer : Nat → Consumer
  reported : List (Message × Line)

/-- `./run_consumers.sh consumers` on a topic of the given number of partitions. -/
structure Deployment where
  partitions : Nat
  consumers : Nat
  deserializer : Deserializer V1.Order

inductive Event where
  | append (partition : Nat) (value : Option Protobuf.Bytes)
  | start (consumer : Nat)
  | poll (consumer partition : Nat)
  | report (consumer : Nat)
  | commit (consumer partition : Nat)
  | rebalance (owner : Nat → Option Nat)
  | close (consumer : Nat)
  | kill (consumer : Nat)

namespace Consumer

def fresh : Consumer := ⟨.unstarted, fun _ => 0, fun _ => none, none⟩

/-- `poll` returns the message and stores the offset behind it. -/
def handOut (c : Consumer) (m : Message) : Consumer where
  status := c.status
  position := Function.update c.position m.partition (m.offset + 1)
  stored := Function.update c.stored m.partition (some (m.offset + 1))
  inFlight := some m

end Consumer

namespace Group
variable (g : Group)

def setConsumer (c : Nat) (k : Consumer) : Group := { g with consumer := Function.update g.consumer c k }

def append (p : Nat) (value : Option Protobuf.Bytes) : Group :=
  { g with log := Function.update g.log p (g.log p ++ [value]) }

def start (c : Nat) : Group := g.setConsumer c { g.consumer c with status := .running }

def poll (c : Nat) (m : Message) : Group := g.setConsumer c ((g.consumer c).handOut m)

/-- The iteration prints its line and the loop is back at `poll`. -/
def report (c : Nat) (m : Message) (line : Line) : Group :=
  { g.setConsumer c { g.consumer c with inFlight := none } with reported := g.reported ++ [(m, line)] }

def commit (p k : Nat) : Group := { g with committed := Function.update g.committed p (some k) }

/-- A new assignment. A partition that changes hands is fetched from its committed
offset, and nothing stored for it survives. -/
def rebalance (owner : Nat → Option Nat) : Group :=
  { g with
    owner := owner
    consumer := fun c =>
      { g.consumer c with
        position := fun p =>
          if owner p = some c ∧ g.owner p ≠ some c then resumeAt (g.committed p)
          else (g.consumer c).position p
        stored := fun p => if owner p = g.owner p then (g.consumer c).stored p else none } }

/-- `consumer.close()` in the `finally` block: stored offsets are committed and the
group is left, whatever line of the loop was interrupted. -/
def close (c : Nat) : Group :=
  { g.setConsumer c { g.consumer c with status := .ended } with
    committed := fun p => if g.owner p = some c then ((g.consumer c).stored p).or (g.committed p) else g.committed p
    owner := fun p => if g.owner p = some c then none else g.owner p }

/-- A killed process commits nothing; its partitions wait for a rebalance. -/
def kill (c : Nat) : Group := g.setConsumer c { g.consumer c with status := .ended }

def Running (c : Nat) : Prop := (g.consumer c).status = .running

end Group

def Group.initial (log : Nat → List (Option Protobuf.Bytes)) : Group :=
  ⟨log, fun _ => none, fun _ => none, fun _ => .fresh, []⟩

/-- Any order of these steps is a schedule. Polls that hand out no message change nothing here. -/
inductive Step (d : Deployment) : Group → Event → Group → Prop where
  | append {g : Group} (p : Nat) (value : Option Protobuf.Bytes) (hp : p < d.partitions) :
      Step d g (.append p value) (g.append p value)
  | start {g : Group} (c : Nat) (hc : c < d.consumers) (hs : (g.consumer c).status = .unstarted) :
      Step d g (.start c) (g.start c)
  | poll {g : Group} (c p : Nat) (value : Option Protobuf.Bytes) (hrun : g.Running c)
      (hidle : (g.consumer c).inFlight = none) (howner : g.owner p = some c)
      (hvalue : (g.log p)[(g.consumer c).position p]? = some value) :
      Step d g (.poll c p) (g.poll c ⟨p, (g.consumer c).position p, value⟩)
  | report {g : Group} (c : Nat) (m : Message) (line : Line) (hrun : g.Running c)
      (hm : (g.consumer c).inFlight = some m)
      (hline : iteration d.deserializer (.message m) = .printed line) :
      Step d g (.report c) (g.report c m line)
  | commit {g : Group} (c p k : Nat) (hrun : g.Running c) (howner : g.owner p = some c)
      (hstored : (g.consumer c).stored p = some k) :
      Step d g (.commit c p) (g.commit p k)
  | rebalance {g : Group} (owner : Nat → Option Nat)
      (howner : ∀ p c, owner p = some c → p < d.partitions ∧ g.Running c) :
      Step d g (.rebalance owner) (g.rebalance owner)
  | close {g : Group} (c : Nat) (hrun : g.Running c) : Step d g (.close c) (g.close c)
  | kill {g : Group} (c : Nat) (hrun : g.Running c) : Step d g (.kill c) (g.kill c)

/-- Printed or reported by some consumer of the group. -/
def Group.Reported (g : Group) (p k : Nat) : Prop :=
  ∃ r ∈ g.reported, r.1.partition = p ∧ r.1.offset = k

/-- Handed to a process that has not finished that iteration, or never will. -/
def Group.HeldBy (g : Group) (c p k : Nat) : Prop :=
  ∃ m, (g.consumer c).inFlight = some m ∧ m.partition = p ∧ m.offset = k

def Group.Accounted (g : Group) (d : Deployment) (p k : Nat) : Prop :=
  g.Reported p k ∨ ∃ c < d.consumers, g.HeldBy c p k

/-- Committed, stored and fetch positions never run ahead of what was handed out. -/
structure Invariant (d : Deployment) (g : Group) : Prop where
  started : ∀ c, (g.consumer c).status ≠ .unstarted → c < d.consumers
  committed : ∀ p k j, g.committed p = some k → j < k → g.Accounted d p j
  stored : ∀ c p k j, (g.consumer c).stored p = some k → j < k → g.Accounted d p j
  position : ∀ c p j, g.owner p = some c → j < (g.consumer c).position p → g.Accounted d p j

theorem initial_invariant (d : Deployment) (log : Nat → List (Option Protobuf.Bytes)) :
    Invariant d (.initial log) where
  started _ h := absurd rfl h
  committed _ _ _ h := by cases h
  stored _ _ _ _ h := by cases h
  position _ _ _ h := by cases h

/-- Nothing reported is forgotten, and a held message is held on or reported. -/
theorem Step.accounted {d : Deployment} {g g' : Group} {e : Event} (h : Step d g e g') {p k : Nat}
    (ha : g.Accounted d p k) : g'.Accounted d p k := by
  rcases ha with hr | ⟨c', hc', m', hm', hp, hk⟩
  · left
    obtain ⟨r, hr, he⟩ := hr
    cases h
    case report => exact ⟨r, List.mem_append_left _ hr, he⟩
    all_goals exact ⟨r, hr, he⟩
  · cases h with
    | append | commit => exact .inr ⟨c', hc', m', hm', hp, hk⟩
    | rebalance => exact .inr ⟨c', hc', m', hm', hp, hk⟩
    | start c _ _ | close c _ | kill c _ =>
      refine .inr ⟨c', hc', m', ?_, hp, hk⟩
      by_cases hcc : c' = c
      · subst hcc
        simpa [Group.start, Group.close, Group.kill, Group.setConsumer] using hm'
      · simpa [Group.start, Group.close, Group.kill, Group.setConsumer, hcc] using hm'
    | poll c q value _ hidle _ _ =>
      have hcc : c' ≠ c := fun he => by rw [he, hidle] at hm'; cases hm'
      exact .inr ⟨c', hc', m', by simpa [Group.poll, Group.setConsumer, hcc] using hm', hp, hk⟩
    | report c m line _ hm _ =>
      by_cases hcc : c' = c
      · subst hcc
        rw [hm] at hm'
        cases hm'
        exact .inl ⟨(m', line), by simp [Group.report], hp, hk⟩
      · exact .inr ⟨c', hc', m', by simpa [Group.report, Group.setConsumer, hcc] using hm', hp, hk⟩

/-- A commit only ever publishes a stored offset. -/
theorem Step.committed_of {d : Deployment} {g g' : Group} {e : Event} (h : Step d g e g') {p k : Nat}
    (hk : g'.committed p = some k) : g.committed p = some k ∨ ∃ c, (g.consumer c).stored p = some k := by
  cases h with
  | append | start | poll | report | rebalance | kill => exact .inl hk
  | commit c q n _ _ hs =>
    by_cases hpq : p = q
    · subst hpq
      simp only [Group.commit, Function.update_self, Option.some.injEq] at hk
      exact .inr ⟨c, hk ▸ hs⟩
    · exact .inl (by simpa [Group.commit, hpq] using hk)
  | close c _ =>
    simp only [Group.close, Group.setConsumer] at hk
    split at hk
    · cases hs : (g.consumer c).stored p with
      | none => exact .inl (by simpa [hs] using hk)
      | some n => exact .inr ⟨c, by simpa [hs] using hk⟩
    · exact .inl hk

theorem Group.heldBy_poll (g : Group) (c : Nat) (m : Message) : (g.poll c m).HeldBy c m.partition m.offset :=
  ⟨m, by simp [Group.poll, Group.setConsumer, Consumer.handOut], rfl, rfl⟩

/-- A new stored offset is the one behind the message `poll` has just handed out. -/
theorem Step.stored_of {d : Deployment} {g g' : Group} {e : Event} (h : Step d g e g') {c p k : Nat}
    (hk : (g'.consumer c).stored p = some k) :
    (g.consumer c).stored p = some k ∨
      ∃ n, k = n + 1 ∧ n = (g.consumer c).position p ∧ g.Running c ∧ g.owner p = some c ∧ g'.HeldBy c p n := by
  cases h with
  | append | commit => exact .inl hk
  | rebalance owner _ =>
    simp only [Group.rebalance] at hk
    split at hk
    · exact .inl hk
    · cases hk
  | start b _ _ | close b _ | kill b _ | report b _ _ _ _ _ =>
    left
    by_cases hb : c = b
    · subst hb
      simpa [Group.start, Group.close, Group.kill, Group.report, Group.setConsumer] using hk
    · simpa [Group.start, Group.close, Group.kill, Group.report, Group.setConsumer, hb] using hk
  | poll b q value hrun _ howner _ =>
    by_cases hb : c = b
    · subst hb
      by_cases hq : p = q
      · subst hq
        refine .inr ⟨_, ?_, rfl, hrun, howner, g.heldBy_poll c _⟩
        simpa [Group.poll, Group.setConsumer, Consumer.handOut, eq_comm] using hk
      · exact .inl (by simpa [Group.poll, Group.setConsumer, Consumer.handOut, hq] using hk)
    · exact .inl (by simpa [Group.poll, Group.setConsumer, hb] using hk)

/-- An owner's fetch position stays, restarts at the committed offset, or moves
past the message just handed out. -/
theorem Step.position_of {d : Deployment} {g g' : Group} {e : Event} (h : Step d g e g') {c p : Nat}
    (ho : g'.owner p = some c) :
    (g.owner p = some c ∧ (g'.consumer c).position p = (g.consumer c).position p) ∨
      (g'.consumer c).position p = resumeAt (g.committed p) ∨
      (g.owner p = some c ∧ g.Running c ∧ (g'.consumer c).position p = (g.consumer c).position p + 1 ∧
        g'.HeldBy c p ((g.consumer c).position p)) := by
  cases h with
  | append | commit => exact .inl ⟨ho, rfl⟩
  | rebalance owner _ =>
    by_cases hc : g.owner p = some c
    · exact .inl ⟨hc, by simp [Group.rebalance, hc]⟩
    · have howner : owner p = some c := ho
      exact .inr (.inl (by simp [Group.rebalance, hc, howner]))
  | close b _ =>
    have howner : g.owner p = some c ∧ c ≠ b := by
      simp only [Group.close] at ho
      split at ho
      · cases ho
      · next hb => exact ⟨ho, fun he => hb (he ▸ ho)⟩
    exact .inl ⟨howner.1, by simp [Group.close, Group.setConsumer, howner.2]⟩
  | start b _ _ | kill b _ | report b _ _ _ _ _ =>
    refine .inl ⟨ho, ?_⟩
    by_cases hb : c = b
    · subst hb
      simp [Group.start, Group.kill, Group.report, Group.setConsumer]
    · simp [Group.start, Group.kill, Group.report, Group.setConsumer, hb]
  | poll b q value hrun _ _ _ =>
    by_cases hb : c = b
    · subst hb
      by_cases hq : p = q
      · subst hq
        refine .inr (.inr ⟨ho, hrun, ?_, g.heldBy_poll c _⟩)
        simp [Group.poll, Group.setConsumer, Consumer.handOut]
      · exact .inl ⟨ho, by simp [Group.poll, Group.setConsumer, Consumer.handOut, hq]⟩
    · exact .inl ⟨ho, by simp [Group.poll, Group.setConsumer, hb]⟩

theorem Step.started {d : Deployment} {g g' : Group} {e : Event} (h : Step d g e g') {c : Nat}
    (hs : (g'.consumer c).status ≠ .unstarted) :
    (g.consumer c).status ≠ .unstarted ∨ c < d.consumers := by
  cases h with
  | append | commit | rebalance => exact .inl hs
  | start b hb _ =>
    by_cases hc : c = b
    · exact .inr (hc ▸ hb)
    · exact .inl (by simpa [Group.start, Group.setConsumer, hc] using hs)
  | close b hrun | kill b hrun | report b _ _ hrun _ _ | poll b _ _ hrun _ _ _ =>
    left
    by_cases hc : c = b
    · subst hc
      rw [hrun]
      decide
    · simpa [Group.close, Group.kill, Group.report, Group.poll, Group.setConsumer, hc] using hs

theorem Invariant.step {d : Deployment} {g g' : Group} {e : Event} (hi : Invariant d g)
    (h : Step d g e g') : Invariant d g' where
  started c hs := (h.started hs).elim (hi.started c) id
  committed p k j hk hj := by
    apply h.accounted
    rcases h.committed_of hk with hk | ⟨c, hs⟩
    · exact hi.committed p k j hk hj
    · exact hi.stored c p k j hs hj
  stored c p k j hk hj := by
    rcases h.stored_of hk with hk | ⟨n, rfl, rfl, hrun, howner, hheld⟩
    · exact h.accounted (hi.stored c p k j hk hj)
    · have hc := hi.started c (by rw [hrun]; decide)
      rcases Nat.lt_succ_iff_lt_or_eq.mp hj with hj | rfl
      · exact h.accounted (hi.position c p j howner hj)
      · exact .inr ⟨c, hc, hheld⟩
  position c p j howner hj := by
    rcases h.position_of howner with ⟨ho, hpos⟩ | hpos | ⟨ho, hrun, hpos, hheld⟩
    · exact h.accounted (hi.position c p j ho (hpos ▸ hj))
    · rw [hpos, resumeAt] at hj
      cases hc : g.committed p with
      | none => simp [hc] at hj
      | some k => exact h.accounted (hi.committed p k j hc (by simpa [hc] using hj))
    · have hc := hi.started c (by rw [hrun]; decide)
      rw [hpos] at hj
      rcases Nat.lt_succ_iff_lt_or_eq.mp hj with hj | rfl
      · exact h.accounted (hi.position c p j ho hj)
      · exact .inr ⟨c, hc, hheld⟩

theorem run_invariant {d : Deployment} {log : Nat → List (Option Protobuf.Bytes)} {es : List Event}
    {g : Group} (h : Run (Step d) (.initial log) es g) : Invariant d g :=
  h.invariant (Invariant d) (fun _ _ _ hs hi => hi.step hs) (initial_invariant d log)

/-- In every reachable state each offset below a committed offset has been printed
or reported, or is the message that some process took from `poll` in an iteration
it has not finished, because it is still in it or was killed or closed there. No
process accounts for two such offsets. -/
theorem committed_reported_or_held (d : Deployment) (log : Nat → List (Option Protobuf.Bytes))
    (es : List Event) (g : Group) (h : Run (Step d) (.initial log) es g) (p k j : Nat)
    (hk : g.committed p = some k) (hj : j < k) :
    g.Reported p j ∨
      ∃ c < d.consumers, g.HeldBy c p j ∧ ∀ q i, g.HeldBy c q i → q = p ∧ i = j := by
  rcases (run_invariant h).committed p k j hk hj with hr | ⟨c, hc, m, hm, rfl, rfl⟩
  · exact .inl hr
  · refine .inr ⟨c, hc, ⟨m, hm, rfl, rfl⟩, ?_⟩
    rintro q i ⟨m', hm', rfl, rfl⟩
    rw [hm, Option.some.injEq] at hm'
    exact ⟨congrArg Message.partition hm'.symm, congrArg Message.offset hm'.symm⟩

/-- Two processes on one partition that holds one tombstone. -/
def smallDeployment : Deployment := ⟨1, 2, registryDeserializer V1.orderClass⟩

/-- The first process takes the message, its background commit runs, and it is
killed before it prints; the second process takes over behind the message. -/
theorem committed_offset_skipped :
    ¬ ∀ (d : Deployment) (log : Nat → List (Option Protobuf.Bytes)) (es : List Event) (g : Group),
      Run (Step d) (.initial log) es g →
        ∀ p k j, g.committed p = some k → j < k → g.Reported p j := by
  intro hall
  let log : Nat → List (Option Protobuf.Bytes) := fun p => if p = 0 then [none] else []
  let ownedBy (c : Nat) : Nat → Option Nat := fun p => if p = 0 then some c else none
  let started := ((Group.initial log).start 0).start 1
  let polled := (started.rebalance (ownedBy 0)).poll 0 ⟨0, 0, none⟩
  let lost := ((polled.commit 0 1).kill 0).rebalance (ownedBy 1)
  have howner (g : Group) (c : Nat) (hc : g.Running c) (p b : Nat) (hb : ownedBy c p = some b) :
      p < smallDeployment.partitions ∧ g.Running b := by
    simp only [ownedBy, Option.ite_none_right_eq_some, Option.some.injEq] at hb
    obtain ⟨rfl, rfl⟩ := hb
    exact ⟨by decide, hc⟩
  have hrun : Run (Step smallDeployment) (.initial log)
      [.start 0, .start 1, .rebalance (ownedBy 0), .poll 0 0, .commit 0 0, .kill 0, .rebalance (ownedBy 1)]
      lost :=
    .cons (.start 0 (by decide) rfl) <| .cons (.start 1 (by decide) rfl) <|
    .cons (.rebalance (ownedBy 0) (howner _ 0 rfl)) <| .cons (.poll 0 0 none rfl rfl rfl rfl) <|
    .cons (.commit 0 0 1 rfl rfl rfl) <| .cons (.kill 0 rfl) <|
    .cons (.rebalance (ownedBy 1) (howner _ 1 rfl)) <| .nil _
  obtain ⟨r, hr, -⟩ := hall smallDeployment log _ lost hrun 0 1 0 rfl (by decide)
  cases hr

/-- The same schedule without the kill: the message is held while its offset is committed. -/
theorem committed_reported_or_held_small :
    let g := ((((Group.initial fun _ => [none]).start 0).rebalance fun p =>
      if p = 0 then some 0 else none).poll 0 ⟨0, 0, none⟩).commit 0 1
    g.Reported 0 0 ∨
      ∃ c < smallDeployment.consumers, g.HeldBy c 0 0 ∧ ∀ q i, g.HeldBy c q i → q = 0 ∧ i = 0 := by
  intro g
  refine committed_reported_or_held smallDeployment (fun _ => [none])
    [.start 0, .rebalance fun p => if p = 0 then some 0 else none, .poll 0 0, .commit 0 0] g ?_ 0 1 0 rfl
    (by decide)
  refine .cons (.start 0 (by decide) rfl) <| .cons (.rebalance _ fun p c hc => ?_) <|
    .cons (.poll 0 0 none rfl rfl rfl rfl) <| .cons (.commit 0 0 1 rfl rfl rfl) <| .nil _
  simp only [Option.ite_none_right_eq_some, Option.some.injEq] at hc
  obtain ⟨rfl, rfl⟩ := hc
  exact ⟨by decide, rfl⟩

end Shipstream.Services
