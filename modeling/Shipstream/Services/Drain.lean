import Shipstream.Services.ConsumerGroup

/-! The group is never stuck: a process that is left can take over the whole topic and print it to
its end. -/
namespace Shipstream.Services
open Kafka Orders Transition

variable {d : Deployment} {g g' : Group} {e : Event} {c : Nat}

/-- Positions, stored and committed offsets stay within the log. -/
structure WithinLog (g : Group) : Prop where
  committed : ∀ p k, g.committed p = some k → k ≤ (g.log p).length
  stored : ∀ c p k, (g.consumer c).stored p = some k → k ≤ (g.log p).length
  position : ∀ c p, (g.consumer c).position p ≤ (g.log p).length

theorem WithinLog.resumeAt (h : WithinLog g) (p : Nat) : resumeAt (g.committed p) ≤ (g.log p).length := by
  unfold Kafka.resumeAt
  cases hk : g.committed p with
  | none => exact Nat.zero_le _
  | some k => exact h.committed p k hk

theorem WithinLog.setConsumer (h : WithinLog g) {k : Consumer} (hposition : ∀ p, k.position p ≤ (g.log p).length)
    (hstored : ∀ p n, k.stored p = some n → n ≤ (g.log p).length) : WithinLog (g.setConsumer c k) where
  committed := h.committed
  stored b p n hn := by
    by_cases hb : b = c
    · subst hb
      simp only [Group.setConsumer, Function.update_self] at hn
      exact hstored p n hn
    · simp only [Group.setConsumer, Function.update_of_ne hb] at hn
      exact h.stored b p n hn
  position b p := by
    by_cases hb : b = c
    · subst hb
      simp only [Group.setConsumer, Function.update_self]
      exact hposition p
    · simp only [Group.setConsumer, Function.update_of_ne hb]
      exact h.position b p

theorem WithinLog.step (h : WithinLog g) (hs : Step d g e g') : WithinLog g' := by
  cases hs with
  | append p value hp =>
    have hle : ∀ q, (g.log q).length ≤ ((g.append p value).log q).length := fun q => by
      by_cases hq : q = p
      · subst hq
        simp [Group.append]
      · simp [Group.append, hq]
    exact ⟨fun q k hk => (h.committed q k hk).trans (hle q), fun b q k hk => (h.stored b q k hk).trans (hle q),
      fun b q => (h.position b q).trans (hle q)⟩
  | start c | kill c => exact h.setConsumer (h.position c) (h.stored c)
  | report c m line =>
    have h' : WithinLog (g.setConsumer c { g.consumer c with inFlight := none }) :=
      h.setConsumer (h.position c) (h.stored c)
    exact ⟨h'.committed, h'.stored, h'.position⟩
  | poll c p value hrun hidle howner hvalue =>
    have hlt := (List.getElem?_eq_some_iff.mp hvalue).1
    refine h.setConsumer (fun q => ?_) fun q n hn => ?_
    · by_cases hq : q = p
      · subst hq
        simpa [Consumer.handOut] using hlt
      · simpa [Consumer.handOut, hq] using h.position c q
    · by_cases hq : q = p
      · subst hq
        simp only [Consumer.handOut, Function.update_self, Option.some.injEq] at hn
        exact hn ▸ hlt
      · simp only [Consumer.handOut, Function.update_of_ne hq] at hn
        exact h.stored c q n hn
  | commit c p k hrun howner hstored =>
    refine ⟨fun q n hn => ?_, h.stored, h.position⟩
    by_cases hq : q = p
    · subst hq
      simp only [Group.commit, Function.update_self, Option.some.injEq] at hn
      exact hn ▸ h.stored c q k hstored
    · simp only [Group.commit, Function.update_of_ne hq] at hn
      exact h.committed q n hn
  | rebalance owner howner =>
    refine ⟨h.committed, fun b q n hn => ?_, fun b q => ?_⟩
    · simp only [Group.rebalance] at hn
      split at hn
      · exact h.stored b q n hn
      · cases hn
    · simp only [Group.rebalance]
      split
      · exact h.resumeAt q
      · exact h.position b q
  | close c hrun =>
    have h' : WithinLog (g.setConsumer c { g.consumer c with status := .ended }) :=
      h.setConsumer (h.position c) (h.stored c)
    refine ⟨fun q n hn => ?_, h'.stored, h'.position⟩
    simp only [Group.close] at hn
    split at hn
    · rcases Option.or_eq_some_iff.mp hn with hn | ⟨-, hn⟩
      · exact h.stored c q n hn
      · exact h.committed q n hn
    · exact h.committed q n hn

private theorem run_withinLog {log : Nat → List (Option Protobuf.Bytes)} {es : List Event}
    (h : Run (Step d) (.initial log) es g) : WithinLog g :=
  h.invariant WithinLog (fun _ _ _ hs h => h.step hs) ⟨nofun, nofun, fun _ _ => Nat.zero_le _⟩

/-! One process reads the whole topic. -/

/-- The process runs, has nothing in hand and owns every partition; what it has read of each is
stored or committed. -/
structure Sole (d : Deployment) (c : Nat) (g : Group) : Prop where
  running : g.Running c
  idle : (g.consumer c).inFlight = none
  owner : ∀ p < d.partitions, g.owner p = some c
  read : ∀ p < d.partitions, (g.consumer c).stored p = some ((g.consumer c).position p) ∨
    resumeAt (g.committed p) = (g.consumer c).position p

/-- The deserializer raises or returns an object: only for no value at all does it return None. -/
def NeverNone (deserializer : Deserializer V1.Order) : Prop := ∀ raw, deserializer (some raw) ≠ .ok none

private theorem registryDeserializer_neverNone : NeverNone (registryDeserializer V1.orderClass) :=
  registryDeserializer_ne_none

private theorem iteration_printed (h : NeverNone d.deserializer) (m : Message) :
    ∃ line, iteration d.deserializer (.message m) = .printed line := by
  simp only [iteration]
  cases m.value with
  | none => exact ⟨_, rfl⟩
  | some raw =>
    dsimp only
    cases hraw : d.deserializer (some raw) with
    | error text => exact ⟨_, rfl⟩
    | ok order =>
      cases order with
      | none => exact absurd hraw (h raw)
      | some order => exact ⟨_, rfl⟩

/-- A running process finishes the iteration it is in. -/
theorem exists_idle (hn : NeverNone d.deserializer) (hc : g.Running c) : ∃ es g', Run (Step d) g es g' ∧
    g'.Running c ∧ (g'.consumer c).inFlight = none ∧ g'.log = g.log := by
  cases hm : (g.consumer c).inFlight with
  | none => exact ⟨[], g, .nil g, hc, hm, rfl⟩
  | some m =>
    obtain ⟨line, hline⟩ := iteration_printed hn m
    refine ⟨_, _, .cons (.report c m line hc hm hline) (.nil _), ?_, ?_, rfl⟩
    · simpa [Group.Running, Group.report, Group.setConsumer] using hc
    · simp [Group.report, Group.setConsumer]

/-- Everything is taken from all processes and then given to one. -/
theorem exists_sole (hc : g.Running c) (hidle : (g.consumer c).inFlight = none) :
    ∃ es g', Run (Step d) g es g' ∧ Sole d c g' ∧ g'.log = g.log := by
  refine ⟨_, _, .cons (.rebalance (fun _ => none) nofun) <|
    .cons (.rebalance (fun p => if p < d.partitions then some c else none) fun p b hb => ?_) (.nil _),
    ⟨hc, hidle, fun p hp => if_pos hp, fun p hp => .inr ?_⟩, rfl⟩
  · simp only [Option.ite_none_right_eq_some, Option.some.injEq] at hb
    exact ⟨hb.1, hb.2 ▸ hc⟩
  · simp [Group.rebalance, hp]

/-- One more record of a partition is polled and printed. -/
theorem Sole.next (h : Sole d c g) (hn : NeverNone d.deserializer) {p : Nat} (hp : p < d.partitions)
    (hlt : (g.consumer c).position p < (g.log p).length) : ∃ es g', Run (Step d) g es g' ∧ Sole d c g' ∧
      g'.log = g.log ∧ (g'.consumer c).position = Function.update (g.consumer c).position p
        ((g.consumer c).position p + 1) := by
  obtain ⟨line, hline⟩ := iteration_printed hn ⟨p, (g.consumer c).position p, (g.log p)[(g.consumer c).position p]⟩
  have hpolled : ((g.poll c ⟨p, (g.consumer c).position p, (g.log p)[(g.consumer c).position p]⟩).consumer c) =
      (g.consumer c).handOut ⟨p, (g.consumer c).position p, (g.log p)[(g.consumer c).position p]⟩ := by
    simp [Group.poll, Group.setConsumer]
  refine ⟨_, _, .cons (.poll c p _ h.running h.idle (h.owner p hp) (List.getElem?_eq_getElem hlt)) <|
    .cons (.report c _ line ?_ ?_ hline) (.nil _), ⟨?_, ?_, h.owner, fun q hq => ?_⟩, rfl, ?_⟩
  · rw [Group.Running, hpolled]
    exact h.running
  · rw [hpolled]
    rfl
  · rw [Group.Running, Group.report, Group.setConsumer]
    have hrunning : (g.consumer c).status = .running := h.running
    simpa [hpolled, Consumer.handOut] using hrunning
  · simp [Group.report, Group.setConsumer]
  · have hread := h.read q hq
    by_cases hqp : q = p
    · subst hqp
      left
      simp [Group.report, Group.setConsumer, hpolled, Consumer.handOut]
    · simpa [Group.report, Group.poll, Group.setConsumer, Consumer.handOut, hqp] using hread
  · simp [Group.report, Group.setConsumer, hpolled, Consumer.handOut]

/-- A partition is read to its end. Induction on what is left of it. -/
theorem Sole.readPartition (h : Sole d c g) (hw : WithinLog g) (hn : NeverNone d.deserializer) {p : Nat}
    (hp : p < d.partitions) : ∃ es g', Run (Step d) g es g' ∧ Sole d c g' ∧ g'.log = g.log ∧
      (g'.consumer c).position = Function.update (g.consumer c).position p (g.log p).length := by
  obtain ⟨n, hleft⟩ := Nat.exists_eq_add_of_le (hw.position c p)
  induction n generalizing g with
  | zero =>
    refine ⟨[], g, .nil g, h, rfl, ?_⟩
    rw [hleft, Nat.add_zero, Function.update_eq_self]
  | succ n ih =>
    obtain ⟨es, g₁, hrun, h₁, hlog, hposition⟩ := h.next hn hp (by omega)
    obtain ⟨es', g₂, hrun', h₂, hlog', hposition'⟩ := ih h₁
      (hrun.invariant WithinLog (fun _ _ _ hs h => h.step hs) hw) (by
        rw [hlog, hposition, Function.update_self]
        omega)
    refine ⟨es ++ es', g₂, hrun.append hrun', h₂, hlog'.trans hlog, ?_⟩
    rw [hposition', hlog, hposition, Function.update_idem]

/-- What was read of a partition is committed. -/
theorem Sole.commitPartition (h : Sole d c g) {p : Nat} (hp : p < d.partitions) : ∃ es g', Run (Step d) g es g' ∧
    Sole d c g' ∧ g'.log = g.log ∧ g'.consumer = g.consumer ∧
      resumeAt (g'.committed p) = (g.consumer c).position p ∧ ∀ q, q ≠ p → g'.committed q = g.committed q := by
  rcases h.read p hp with hstored | hcommitted
  · have hself : resumeAt ((g.commit p ((g.consumer c).position p)).committed p) = (g.consumer c).position p := by
      simp [Group.commit, resumeAt]
    have hother : ∀ q, q ≠ p → (g.commit p ((g.consumer c).position p)).committed q = g.committed q := fun q hq =>
      Function.update_of_ne hq _ _
    refine ⟨_, _, .cons (.commit c p _ h.running (h.owner p hp) hstored) (.nil _),
      ⟨h.running, h.idle, h.owner, fun q hq => ?_⟩, rfl, rfl, hself, hother⟩
    by_cases hqp : q = p
    · exact .inr (hqp ▸ hself)
    · rw [hother q hqp]
      exact h.read q hq
  · exact ⟨[], g, .nil g, h, rfl, rfl, hcommitted, fun _ _ => rfl⟩

private theorem Sole.readTopic (h : Sole d c g) (hw : WithinLog g) (hn : NeverNone d.deserializer) :
    ∃ es g', Run (Step d) g es g' ∧ Sole d c g' ∧ g'.log = g.log ∧
      ∀ p < d.partitions, (g'.consumer c).position p = (g.log p).length := by
  obtain ⟨es, g', hrun, ⟨h', -, hlog⟩, hread⟩ := @exists_run_forall_lt _ _ (Step d)
    (fun g' => Sole d c g' ∧ WithinLog g' ∧ g'.log = g.log)
    (fun p g' => (g'.consumer c).position p = (g.log p).length) d.partitions
    (fun g₁ p ⟨h₁, hw₁, hlog₁⟩ hp => by
      obtain ⟨es, g₂, hrun, h₂, hlog₂, hposition⟩ := h₁.readPartition hw₁ hn hp
      refine ⟨es, g₂, hrun, ⟨h₂, hrun.invariant WithinLog (fun _ _ _ hs h => h.step hs) hw₁, hlog₂.trans hlog₁⟩, ?_,
        fun q hq heq => ?_⟩
      · rw [hposition, Function.update_self, hlog₁]
      · rw [hposition, Function.update_of_ne hq, heq]) g ⟨h, hw, rfl⟩
  exact ⟨es, g', hrun, h', hlog, hread⟩

private theorem Sole.commitTopic (h : Sole d c g) : ∃ es g', Run (Step d) g es g' ∧ Sole d c g' ∧ g'.log = g.log ∧
    g'.consumer = g.consumer ∧ ∀ p < d.partitions, resumeAt (g'.committed p) = (g.consumer c).position p := by
  obtain ⟨es, g', hrun, ⟨h', hlog, hconsumer⟩, hread⟩ := @exists_run_forall_lt _ _ (Step d)
    (fun g' => Sole d c g' ∧ g'.log = g.log ∧ g'.consumer = g.consumer)
    (fun p g' => resumeAt (g'.committed p) = (g.consumer c).position p) d.partitions
    (fun g₁ p ⟨h₁, hlog₁, hconsumer₁⟩ hp => by
      obtain ⟨es, g₂, hrun, h₂, hlog₂, hconsumer₂, hself, hother⟩ := h₁.commitPartition hp
      refine ⟨es, g₂, hrun, ⟨h₂, hlog₂.trans hlog₁, hconsumer₂.trans hconsumer₁⟩, ?_, fun q hq heq => ?_⟩
      · rw [hself, hconsumer₁]
      · rw [hother q hq, heq]) g ⟨h, rfl, rfl⟩
  exact ⟨es, g', hrun, h', hlog, hconsumer, hread⟩

/-- Whatever has happened, a process that still runs can bring the group to the end of the topic:
every record is printed, but for one in the hands of each other process, and every partition is
committed to its end. -/
theorem drains {log : Nat → List (Option Protobuf.Bytes)} {es : List Event}
    (hrun : Run (Step d) (.initial log) es g) (hc : g.Running c) (hn : NeverNone d.deserializer) :
    ∃ es' g', Run (Step d) g es' g' ∧ g'.log = g.log ∧
      (∀ p < d.partitions, resumeAt (g'.committed p) = (g.log p).length) ∧
      ∀ p < d.partitions, ∀ k < (g.log p).length, g'.Reported p k ∨ ∃ c' < d.consumers, c' ≠ c ∧ g'.HeldBy c' p k := by
  obtain ⟨es₁, g₁, hrun₁, hc₁, hidle, hlog₁⟩ := exists_idle hn hc
  obtain ⟨es₂, g₂, hrun₂, h₂, hlog₂⟩ := exists_sole (d := d) hc₁ hidle
  have hreach := hrun.append (hrun₁.append hrun₂)
  obtain ⟨es₃, g₃, hrun₃, h₃, hlog₃, hread⟩ := h₂.readTopic (run_withinLog hreach) hn
  obtain ⟨es₄, g₄, hrun₄, h₄, hlog₄, hconsumer, hcommitted⟩ := h₃.commitTopic
  have hlog : g₂.log = g.log := hlog₂.trans hlog₁
  have hposition : ∀ p < d.partitions, (g₄.consumer c).position p = (g.log p).length := fun p hp => by
    rw [hconsumer, hread p hp, hlog]
  refine ⟨_, g₄, (hrun₁.append hrun₂).append (hrun₃.append hrun₄), hlog₄.trans (hlog₃.trans hlog), fun p hp => ?_,
    fun p hp k hk => ?_⟩
  · rw [hcommitted p hp, hread p hp, hlog]
  · have hinv := run_invariant (hreach.append (hrun₃.append hrun₄))
    rcases hinv.position c p k (h₄.owner p hp) (hposition p hp ▸ hk) with hr | ⟨c', hc', hheld⟩
    · exact .inl hr
    · refine .inr ⟨c', hc', ?_, hheld⟩
      rintro rfl
      obtain ⟨m, hm, -⟩ := hheld
      rw [h₄.idle] at hm
      cases hm

/-- The first process is killed with the only record in hand; the second is left. -/
theorem run_killed : ∃ es g, Run (Step smallDeployment) (.initial fun _ => [none]) es g ∧ g.Running 1 ∧
    g.HeldBy 0 0 0 := by
  refine ⟨_, _, .cons (.start 0 (by decide) rfl) <| .cons (.start 1 (by decide) rfl) <|
    .cons (.rebalance (fun p => if p = 0 then some 0 else none) fun p b hb => ?_) <|
    .cons (.poll 0 0 none rfl rfl rfl rfl) <| .cons (.kill 0 rfl) <| .nil _, rfl, _, rfl, rfl, rfl⟩
  simp only [Option.ite_none_right_eq_some, Option.some.injEq] at hb
  obtain ⟨rfl, rfl⟩ := hb
  exact ⟨by decide, rfl⟩

theorem drains_killed : ∃ g, g.HeldBy 0 0 0 ∧ ∃ es' g', Run (Step smallDeployment) g es' g' ∧
    ∀ p < 1, ∀ k < (g.log p).length, g'.Reported p k ∨ ∃ c < 2, c ≠ 1 ∧ g'.HeldBy c p k := by
  obtain ⟨es, g, hrun, hc, hheld⟩ := run_killed
  obtain ⟨es', g', hrun', -, -, hall⟩ := drains hrun hc registryDeserializer_neverNone
  exact ⟨g, hheld, es', g', hrun', hall⟩

end Shipstream.Services
