import Shipstream.Services.ConsumerGroup

/-! How often the group prints a record when partitions move at any time: at most once for each time
a process takes its partition over. -/
namespace Shipstream.Services
open Kafka Orders Transition

/-- Who owns the partition after an event. -/
def Event.ownerAfter (p : Nat) (owner : Option Nat) : Event → Option Nat
  | .rebalance assigned => assigned p
  | .close c => if owner = some c then none else owner
  | _ => owner

/-- One for an event that gives the partition to a process that did not own it just before. -/
def Event.takeover (p : Nat) (owner : Option Nat) (e : Event) : Nat :=
  if e.ownerAfter p owner = none ∨ e.ownerAfter p owner = owner then 0 else 1

/-- How often the partition is taken over. -/
def takeovers (p : Nat) (es : List Event) : Nat := totalCost (Event.ownerAfter p) (Event.takeover p) none es

/-- Whether the process has the record in hand. -/
def Consumer.holding (c : Consumer) (p k : Nat) : Nat :=
  match c.inFlight with
  | none => 0
  | some m => if m.partition = p ∧ m.offset = k then 1 else 0

namespace Group

/-- How often the record was printed or reported. -/
def prints (g : Group) (p k : Nat) : Nat := g.reported.countP fun r => r.1.partition = p ∧ r.1.offset = k

def holders (d : Deployment) (g : Group) (p k : Nat) : Nat :=
  ∑ c ∈ Finset.range d.consumers, (g.consumer c).holding p k

/-- Whether the owner of the partition has the record still before it. -/
def ahead (g : Group) (p k : Nat) : Nat :=
  match g.owner p with
  | none => 0
  | some c => if (g.consumer c).position p ≤ k then 1 else 0

/-- Printings of the record that happened, are under way, or are due to the present owner. -/
def due (d : Deployment) (p k : Nat) (g : Group) : Nat := g.prints p k + g.holders d p k + g.ahead p k

end Group

variable {d : Deployment} {g g' : Group} {e : Event} {p k : Nat}

private theorem Step.owner_eq (h : Step d g e g') (p : Nat) : g'.owner p = e.ownerAfter p (g.owner p) := by
  cases h with
  | _ => rfl

namespace Group

private theorem holders_congr (h : ∀ c, (g'.consumer c).inFlight = (g.consumer c).inFlight) :
    g'.holders d p k = g.holders d p k :=
  Finset.sum_congr rfl fun c _ => by rw [Consumer.holding, h c, Consumer.holding]

private theorem holders_setConsumer (g : Group) {c : Nat} (hc : c < d.consumers) (b : Consumer) :
    (g.setConsumer c b).holders d p k + (g.consumer c).holding p k = g.holders d p k + b.holding p k := by
  have hupdate : (fun a => ((g.setConsumer c b).consumer a).holding p k) =
      Function.update (fun a => (g.consumer a).holding p k) c (b.holding p k) := by
    funext a
    by_cases ha : a = c
    · subst ha
      simp [setConsumer]
    · simp [setConsumer, ha]
  have hmem := Finset.mem_range.mpr hc
  have hsplit := Finset.sum_eq_add_sum_sdiff_singleton_of_mem hmem fun a => (g.consumer a).holding p k
  rw [holders, hupdate, Finset.sum_update_of_mem hmem, holders, hsplit]
  omega

private theorem ahead_congr (howner : g'.owner p = g.owner p)
    (hposition : ∀ c, (g'.consumer c).position p = (g.consumer c).position p) : g'.ahead p k = g.ahead p k := by
  simp only [ahead, howner, hposition]

private theorem ahead_of_none (h : g.owner p = none) : g.ahead p k = 0 := by
  rw [ahead, h]

private theorem ahead_of_some {c : Nat} (h : g.owner p = some c) :
    g.ahead p k = if (g.consumer c).position p ≤ k then 1 else 0 := by
  rw [ahead, h]

private theorem ahead_le_one (g : Group) (p k : Nat) : g.ahead p k ≤ 1 := by
  unfold ahead
  split
  · exact Nat.zero_le _
  · split <;> decide

/-- A change of status leaves everything in hand and every position as it was. -/
theorem due_setStatus (g : Group) (c : Nat) (status : Status) :
    (g.setConsumer c { g.consumer c with status := status }).due d p k = g.due d p k := by
  have hconsumer : ∀ b, ((g.setConsumer c { g.consumer c with status := status }).consumer b).inFlight =
      (g.consumer b).inFlight ∧
      ((g.setConsumer c { g.consumer c with status := status }).consumer b).position p = (g.consumer b).position p := by
    intro b
    by_cases hb : b = c
    · subst hb
      simp [setConsumer]
    · simp [setConsumer, hb]
  have hholders : (g.setConsumer c { g.consumer c with status := status }).holders d p k = g.holders d p k :=
    holders_congr fun b => (hconsumer b).1
  have hahead : (g.setConsumer c { g.consumer c with status := status }).ahead p k = g.ahead p k :=
    ahead_congr rfl fun b => (hconsumer b).2
  rw [due, hholders, hahead]
  rfl

/-- A record handed out is no longer before its owner. -/
theorem due_poll (g : Group) {c q : Nat} {value : Option Protobuf.Bytes} (hc : c < d.consumers)
    (hidle : (g.consumer c).inFlight = none) (howner : g.owner q = some c) :
    (g.poll c ⟨q, (g.consumer c).position q, value⟩).due d p k ≤ g.due d p k := by
  have hholders : (g.poll c ⟨q, (g.consumer c).position q, value⟩).holders d p k =
      g.holders d p k + if q = p ∧ (g.consumer c).position q = k then 1 else 0 := by
    have h := g.holders_setConsumer (p := p) (k := k) hc ((g.consumer c).handOut ⟨q, (g.consumer c).position q, value⟩)
    rwa [Consumer.holding, hidle, Nat.add_zero] at h
  have hahead : (g.poll c ⟨q, (g.consumer c).position q, value⟩).ahead p k +
      (if q = p ∧ (g.consumer c).position q = k then 1 else 0) ≤ g.ahead p k := by
    by_cases hq : q = p
    · subst hq
      have hposition : ((g.poll c ⟨q, (g.consumer c).position q, value⟩).consumer c).position q =
          (g.consumer c).position q + 1 := by simp [poll, setConsumer, Consumer.handOut]
      rw [ahead_of_some howner, ahead_of_some (show (g.poll c _).owner q = some c from howner), hposition]
      split_ifs <;> omega
    · rw [if_neg fun h => hq h.1, Nat.add_zero]
      apply Nat.le_of_eq
      refine ahead_congr rfl fun b => ?_
      by_cases hb : b = c
      · subst hb
        simp [poll, setConsumer, Consumer.handOut, Ne.symm hq]
      · simp [poll, setConsumer, hb]
  have hprints : (g.poll c ⟨q, (g.consumer c).position q, value⟩).prints p k = g.prints p k := rfl
  rw [due, due, hprints, hholders]
  omega

/-- A printed record is no longer in hand. -/
theorem due_report (g : Group) {c : Nat} {m : Message} {line : Line} (hc : c < d.consumers)
    (hm : (g.consumer c).inFlight = some m) : (g.report c m line).due d p k = g.due d p k := by
  have hprints : (g.report c m line).prints p k = g.prints p k + (g.consumer c).holding p k := by
    rw [prints, report, List.countP_append, List.countP_singleton, prints, Consumer.holding, hm]
    simp
  have hholders : (g.report c m line).holders d p k + (g.consumer c).holding p k = g.holders d p k :=
    g.holders_setConsumer hc { g.consumer c with inFlight := none }
  have hahead : (g.report c m line).ahead p k = g.ahead p k := by
    refine ahead_congr rfl fun b => ?_
    by_cases hb : b = c
    · subst hb
      simp [report, setConsumer]
    · simp [report, setConsumer, hb]
  rw [due, due, hprints, hahead]
  omega

/-- Only a process that takes the partition over gets the record before it again. -/
theorem due_rebalance (g : Group) (owner : Nat → Option Nat) :
    (g.rebalance owner).due d p k ≤ g.due d p k + (Event.rebalance owner).takeover p (g.owner p) := by
  have hholders : (g.rebalance owner).holders d p k = g.holders d p k := holders_congr fun _ => rfl
  have hahead : (g.rebalance owner).ahead p k ≤ g.ahead p k + (Event.rebalance owner).takeover p (g.owner p) := by
    by_cases hnone : owner p = none
    · rw [ahead_of_none (show (g.rebalance owner).owner p = none from hnone)]
      exact Nat.zero_le _
    · by_cases hsame : owner p = g.owner p
      · have hposition : ∀ c, ((g.rebalance owner).consumer c).position p = (g.consumer c).position p := fun c =>
          if_neg fun hc => hc.2 (hsame ▸ hc.1)
        rw [ahead_congr hsame hposition]
        exact Nat.le_add_right _ _
      · have hcost : (Event.rebalance owner).takeover p (g.owner p) = 1 :=
          if_neg fun h => h.elim hnone hsame
        have hle := (g.rebalance owner).ahead_le_one p k
        omega
  have hprints : (g.rebalance owner).prints p k = g.prints p k := rfl
  rw [due, due, hprints, hholders]
  omega

private theorem due_close (g : Group) (c : Nat) : (g.close c).due d p k ≤ g.due d p k := by
  have hconsumer : ∀ b, ((g.close c).consumer b).inFlight = (g.consumer b).inFlight ∧
      ((g.close c).consumer b).position p = (g.consumer b).position p := by
    intro b
    by_cases hb : b = c
    · subst hb
      simp [close, setConsumer]
    · simp [close, setConsumer, hb]
  have hholders : (g.close c).holders d p k = g.holders d p k := holders_congr fun b => (hconsumer b).1
  have hahead : (g.close c).ahead p k ≤ g.ahead p k := by
    by_cases howner : g.owner p = some c
    · rw [ahead_of_none (by simp [close, howner])]
      exact Nat.zero_le _
    · exact (ahead_congr (by simp [close, howner]) fun b => (hconsumer b).2).le
  have hprints : (g.close c).prints p k = g.prints p k := rfl
  rw [due, due, hprints, hholders]
  omega

end Group

private theorem Step.due_le (h : Step d g e g') (hi : Invariant d g) :
    g'.due d p k ≤ g.due d p k + e.takeover p (g.owner p) := by
  have hstarted : ∀ c, g.Running c → c < d.consumers := fun c hrun => hi.started c (by rw [hrun]; decide)
  cases h with
  | append | commit => exact Nat.le_add_right _ _
  | start c | kill c => exact (g.due_setStatus c _).le.trans (Nat.le_add_right _ _)
  | poll c q value hrun hidle howner => exact (g.due_poll (hstarted c hrun) hidle howner).trans (Nat.le_add_right _ _)
  | report c m line hrun hm => exact (g.due_report (hstarted c hrun) hm).le.trans (Nat.le_add_right _ _)
  | rebalance owner => exact g.due_rebalance owner
  | close c => exact (g.due_close c).trans (Nat.le_add_right _ _)

variable {log : Nat → List (Option Protobuf.Bytes)} {es : List Event}

/-- In every run, however partitions move and wherever processes are closed or killed, no record is
printed more often than its partition was taken over. -/
theorem prints_le_takeovers (h : Run (Step d) (.initial log) es g) (p k : Nat) : g.prints p k ≤ takeovers p es := by
  have hdue : g.due d p k ≤ (Group.initial log).due d p k + takeovers p es :=
    h.measure_le (Invariant d) (Group.owner · p) (Group.due d p k) (fun _ _ _ hs hi => hi.step hs)
      (fun _ _ _ hs => hs.owner_eq p) (fun _ _ _ hs hi => hs.due_le hi) (initial_invariant d log)
  have hinitial : (Group.initial log).due d p k = 0 := by
    simp [Group.due, Group.prints, Group.holders, Group.ahead, Group.initial, Consumer.holding, Consumer.fresh]
  rw [hinitial, Nat.zero_add] at hdue
  exact (Nat.le_add_right _ _).trans ((Nat.le_add_right _ _).trans hdue)

/-- A partition is taken from a process that printed its record and has not committed it: the second
process prints it again. -/
theorem prints_le_takeovers_twice : ∃ es g,
    Run (Step smallDeployment) (.initial fun p => if p = 0 then [none] else []) es g ∧
      g.prints 0 0 = 2 ∧ takeovers 0 es = 2 ∧ g.prints 0 0 ≤ takeovers 0 es := by
  let ownedBy (c : Nat) : Nat → Option Nat := fun p => if p = 0 then some c else none
  have howner (g : Group) (c : Nat) (hc : g.Running c) (p b : Nat) (hb : ownedBy c p = some b) :
      p < smallDeployment.partitions ∧ g.Running b := by
    simp only [ownedBy, Option.ite_none_right_eq_some, Option.some.injEq] at hb
    obtain ⟨rfl, rfl⟩ := hb
    exact ⟨by decide, hc⟩
  have hrun : ∃ g, Run (Step smallDeployment) (.initial fun p => if p = 0 then [none] else [])
      [.start 0, .start 1, .rebalance (ownedBy 0), .poll 0 0, .report 0, .rebalance (ownedBy 1), .poll 1 0, .report 1] g ∧
      g.prints 0 0 = 2 :=
    ⟨_, .cons (.start 0 (by decide) rfl) <| .cons (.start 1 (by decide) rfl) <|
      .cons (.rebalance (ownedBy 0) (howner _ 0 rfl)) <| .cons (.poll 0 0 none rfl rfl rfl rfl) <|
      .cons (.report 0 _ .noneValue rfl rfl rfl) <| .cons (.rebalance (ownedBy 1) (howner _ 1 rfl)) <|
      .cons (.poll 1 0 none rfl rfl rfl rfl) <| .cons (.report 1 _ .noneValue rfl rfl rfl) <| .nil _, rfl⟩
  obtain ⟨g, hrun, hprints⟩ := hrun
  exact ⟨_, g, hrun, hprints, rfl, prints_le_takeovers hrun 0 0⟩

end Shipstream.Services
