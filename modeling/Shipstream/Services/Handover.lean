import Shipstream.Services.ConsumerGroup
import Shipstream.Transition.Prefix

/-! What the group as a whole prints of each partition. Every line is the line of the record at
its offset; where partitions change hands cleanly, each record is printed once and in order. -/
namespace Shipstream.Services
open Kafka Orders Transition

namespace Group

/-- The message is the record of the log at its partition and offset. -/
def Holds (g : Group) (m : Message) : Prop := (g.log m.partition)[m.offset]? = some m.value

/-- The records of a partition as the messages a poll hands out. -/
def records (g : Group) (p : Nat) : List Message := (g.log p).mapIdx fun offset value => ⟨p, offset, value⟩

/-- What was printed of a partition, with the messages, in the order of printing. -/
def lines (g : Group) (p : Nat) : List (Message × Line) := g.reported.filter fun r => r.1.partition = p

end Group

variable {d : Deployment} {g g' : Group} {e : Event} {p : Nat}

/-- Only the producers touch the log, and they only append to it. -/
theorem Step.log_prefix (h : Step d g e g') (p : Nat) : g.log p <+: g'.log p := by
  cases h with
  | append q value _ =>
    by_cases hpq : p = q
    · subst hpq
      simp only [Group.append, Function.update_self]
      exact List.prefix_append _ _
    · simp only [Group.append, Function.update_of_ne hpq]
      exact List.prefix_refl _
  | _ => exact List.prefix_refl _

theorem Group.Holds.mono {m : Message} (hm : g.Holds m) (h : Step d g e g') : g'.Holds m := by
  obtain ⟨rest, hrest⟩ := h.log_prefix m.partition
  rw [Group.Holds, ← hrest, List.getElem?_append_left (List.getElem?_eq_some_iff.mp hm).1]
  exact hm

/-- A message in hand stays, or was handed out in this step. -/
theorem Step.inFlight_of (h : Step d g e g') {c : Nat} {m : Message} (hm : (g'.consumer c).inFlight = some m) :
    (g.consumer c).inFlight = some m ∨ g.Holds m := by
  cases h with
  | append | commit | rebalance => exact .inl hm
  | start b _ _ | close b _ | kill b _ =>
    left
    by_cases hb : c = b
    · subst hb
      simpa [Group.start, Group.close, Group.kill, Group.setConsumer] using hm
    · simpa [Group.start, Group.close, Group.kill, Group.setConsumer, hb] using hm
  | report b n line _ _ _ =>
    left
    by_cases hb : c = b
    · subst hb
      simp [Group.report, Group.setConsumer] at hm
    · simpa [Group.report, Group.setConsumer, hb] using hm
  | poll b q value _ _ _ hvalue =>
    by_cases hb : c = b
    · subst hb
      have heq : (⟨q, (g.consumer c).position q, value⟩ : Message) = m := by
        simpa [Group.poll, Group.setConsumer, Consumer.handOut] using hm
      exact .inr (heq ▸ hvalue)
    · exact .inl (by simpa [Group.poll, Group.setConsumer, hb] using hm)

private theorem Step.reported_of (h : Step d g e g') {r : Message × Line} (hr : r ∈ g'.reported) :
    r ∈ g.reported ∨
      (∃ c, (g.consumer c).inFlight = some r.1) ∧ iteration d.deserializer (.message r.1) = .printed r.2 := by
  cases h with
  | report c m line _ hm hline =>
    rcases List.mem_append.mp hr with hr | hr
    · exact .inl hr
    · rw [List.mem_singleton.mp hr]
      exact .inr ⟨⟨c, hm⟩, hline⟩
  | _ => exact .inl hr

/-- What is in hand or printed is on the log, and a printed line is the one of its message. -/
structure Faithful (d : Deployment) (g : Group) : Prop where
  held : ∀ c m, (g.consumer c).inFlight = some m → g.Holds m
  reported : ∀ r ∈ g.reported, g.Holds r.1 ∧ iteration d.deserializer (.message r.1) = .printed r.2

theorem Faithful.step (hf : Faithful d g) (h : Step d g e g') : Faithful d g' where
  held c m hm := by
    rcases h.inFlight_of hm with hm | hm
    · exact (hf.held c m hm).mono h
    · exact hm.mono h
  reported r hr := by
    rcases h.reported_of hr with hr | ⟨⟨c, hm⟩, hline⟩
    · exact ⟨(hf.reported r hr).1.mono h, (hf.reported r hr).2⟩
    · exact ⟨(hf.held c r.1 hm).mono h, hline⟩

variable {log : Nat → List (Option Protobuf.Bytes)} {es : List Event}

theorem run_faithful (h : Run (Step d) (.initial log) es g) : Faithful d g :=
  h.invariant (Faithful d) (fun _ _ _ hs hf => hf.step hs) ⟨nofun, nofun⟩

/-! Clean hand-overs. -/

/-- The owner of a partition has nothing of it in hand and has committed up to its position. -/
def Group.Settled (g : Group) (p c : Nat) : Prop :=
  (∀ k, ¬ g.HeldBy c p k) ∧ resumeAt (g.committed p) = (g.consumer c).position p

/-- A rebalance takes a partition away only from an owner that is settled, and a process closes
only between two iterations. -/
def CleanHandover (g : Group) : Event → Prop
  | .rebalance owner => ∀ p c, g.owner p = some c → owner p ≠ some c → g.Settled p c
  | .close c => (g.consumer c).inFlight = none
  | _ => True

/-- A partition is printed in order, and its owner goes on where the printing stands. -/
structure InOrder (g : Group) (p : Nat) : Prop where
  reported : (g.lines p).map Prod.fst <+: g.records p
  unowned : g.owner p = none → resumeAt (g.committed p) = (g.lines p).length
  position : ∀ c, g.owner p = some c →
    (g.consumer c).position p = (g.lines p).length ∨ ∃ k, g.HeldBy c p k
  held : ∀ c k, g.HeldBy c p k → g.owner p = some c ∧ k = (g.lines p).length ∧ (g.consumer c).position p = k + 1
  stored : ∀ c, g.owner p = some c → (g.consumer c).stored p = some ((g.consumer c).position p) ∨
    (g.consumer c).stored p = none ∧ resumeAt (g.committed p) = (g.consumer c).position p

private theorem initial_inOrder (log : Nat → List (Option Protobuf.Bytes)) (p : Nat) : InOrder (.initial log) p where
  reported := List.nil_prefix
  unowned _ := rfl
  position _ h := by cases h
  held c k h := by
    obtain ⟨m, hm, -⟩ := h
    cases hm
  stored _ h := by cases h

theorem Group.records_getElem? (g : Group) (p k : Nat) :
    (g.records p)[k]? = ((g.log p)[k]?).map fun value => ⟨p, k, value⟩ := by
  rw [records, List.getElem?_mapIdx]

theorem Group.records_mono {g g' : Group} {p : Nat} (h : g.log p <+: g'.log p) : g.records p <+: g'.records p := by
  obtain ⟨rest, hrest⟩ := h
  rw [records, records, ← hrest, List.mapIdx_append]
  exact List.prefix_append _ _

namespace InOrder

/-- A step that leaves the partition alone keeps it in order. -/
theorem congr (h : InOrder g p) (hlog : g.log p <+: g'.log p) (hlines : g'.lines p = g.lines p)
    (howner : g'.owner p = g.owner p) (hcommitted : g'.committed p = g.committed p)
    (hconsumer : ∀ c, (g'.consumer c).position p = (g.consumer c).position p ∧
      (g'.consumer c).stored p = (g.consumer c).stored p ∧ ∀ k, g'.HeldBy c p k ↔ g.HeldBy c p k) : InOrder g' p where
  reported := hlines ▸ h.reported.trans (Group.records_mono hlog)
  unowned := by
    rw [howner, hcommitted, hlines]
    exact h.unowned
  position c hc := by
    rw [howner] at hc
    simp only [(hconsumer c).1, hlines, (hconsumer c).2.2]
    exact h.position c hc
  held c k hk := by
    rw [howner, hlines, (hconsumer c).1]
    exact h.held c k (((hconsumer c).2.2 k).mp hk)
  stored c hc := by
    rw [howner] at hc
    rw [(hconsumer c).1, (hconsumer c).2.1, hcommitted]
    exact h.stored c hc

/-- An owner with nothing of the partition in hand stands where the printing does. -/
theorem position_eq (h : InOrder g p) {c : Nat} (hc : g.owner p = some c) (hk : ∀ k, ¬ g.HeldBy c p k) :
    (g.consumer c).position p = (g.lines p).length :=
  (h.position c hc).resolve_right fun ⟨k, hk'⟩ => hk k hk'

/-- Starting or killing a process changes its status only. -/
theorem setStatus (h : InOrder g p) (c : Nat) (status : Status) :
    InOrder (g.setConsumer c { g.consumer c with status := status }) p := by
  refine h.congr (List.prefix_refl _) rfl rfl rfl fun b => ?_
  by_cases hb : b = c
  · subst hb
    simp [Group.setConsumer, Group.HeldBy]
  · simp [Group.setConsumer, Group.HeldBy, hb]

theorem append (h : InOrder g p) (q : Nat) (value : Option Protobuf.Bytes) (hlog : g.log p <+: (g.append q value).log p) :
    InOrder (g.append q value) p :=
  h.congr hlog rfl rfl rfl fun _ => ⟨rfl, rfl, fun _ => Iff.rfl⟩

theorem poll (h : InOrder g p) {c q : Nat} {value : Option Protobuf.Bytes}
    (hidle : (g.consumer c).inFlight = none) (howner : g.owner q = some c) :
    InOrder (g.poll c ⟨q, (g.consumer c).position q, value⟩) p := by
  have hnone : ∀ r k, ¬ g.HeldBy c r k := by
    rintro r k ⟨m, hm, -⟩
    rw [hidle] at hm
    cases hm
  by_cases hq : p = q
  · subst hq
    have hposition := h.position_eq howner (hnone p)
    refine ⟨h.reported, fun hu => ?_, fun b hb => ?_, fun b k hk => ?_, fun b hb => ?_⟩
    · rw [show g.owner p = none from hu] at howner
      cases howner
    all_goals
      have hbc : b = c ∨ b ≠ c := Decidable.em _
    · right
      obtain rfl : b = c := Option.some.inj (hb.symm.trans howner)
      exact ⟨_, g.heldBy_poll b _⟩
    · rcases hbc with rfl | hbc
      · obtain ⟨m, hm, -, hk⟩ := hk
        simp only [Group.poll, Group.setConsumer, Function.update_self, Consumer.handOut, Option.some.injEq] at hm
        subst hm
        subst hk
        refine ⟨howner, hposition, ?_⟩
        simp [Group.poll, Group.setConsumer, Consumer.handOut]
      · have hheld : g.HeldBy b p k := by
          obtain ⟨m, hm, hmk⟩ := hk
          exact ⟨m, by simpa [Group.poll, Group.setConsumer, hbc] using hm, hmk⟩
        exact absurd (Option.some.inj ((h.held b k hheld).1.symm.trans howner)) hbc
    · obtain rfl : b = c := Option.some.inj (hb.symm.trans howner)
      left
      simp [Group.poll, Group.setConsumer, Consumer.handOut]
  · refine h.congr (List.prefix_refl _) rfl rfl rfl fun b => ?_
    by_cases hb : b = c
    · subst hb
      refine ⟨by simp [Group.poll, Group.setConsumer, Consumer.handOut, hq],
        by simp [Group.poll, Group.setConsumer, Consumer.handOut, hq], fun k => iff_of_false ?_ (hnone p k)⟩
      rintro ⟨m, hm, hmp, -⟩
      simp only [Group.poll, Group.setConsumer, Function.update_self, Consumer.handOut, Option.some.injEq] at hm
      exact hq (hmp.symm.trans (congrArg Message.partition hm.symm))
    · simp [Group.poll, Group.setConsumer, Group.HeldBy, hb]

/-- The printed record is the next one of its partition. -/
theorem report (h : InOrder g p) {c : Nat} {m : Message} {line : Line} (hm : (g.consumer c).inFlight = some m)
    (hholds : g.Holds m) : InOrder (g.report c m line) p := by
  have hother : ∀ b, b ≠ c → (g.report c m line).consumer b = g.consumer b := fun b hb => by
    simp [Group.report, Group.setConsumer, hb]
  have hself : (g.report c m line).consumer c = { g.consumer c with inFlight := none } := by
    simp [Group.report, Group.setConsumer]
  have hlast : ∀ k, ¬ (g.report c m line).HeldBy c p k := by
    rintro k ⟨n, hn, -⟩
    rw [hself] at hn
    cases hn
  by_cases hp : m.partition = p
  · obtain ⟨howner, hnext, hposition⟩ := h.held c m.offset ⟨m, hm, hp, rfl⟩
    have hlines : (g.report c m line).lines p = g.lines p ++ [(m, line)] := by
      simp [Group.lines, Group.report, List.filter_append, hp]
    have hlength : ((g.report c m line).lines p).length = m.offset + 1 := by
      rw [hlines, List.length_append, List.length_singleton, hnext]
    refine ⟨?_, fun hu => ?_, fun b hb => ?_, fun b k hk => ?_, fun b hb => ?_⟩
    · rw [hlines, List.map_append]
      apply prefix_snoc h.reported
      rw [List.length_map, ← hnext]
      show (g.records p)[m.offset]? = some m
      rw [Group.records_getElem?, ← hp, show (g.log m.partition)[m.offset]? = some m.value from hholds]
      rfl
    · rw [show g.owner p = none from hu] at howner
      cases howner
    · obtain rfl : b = c := Option.some.inj (hb.symm.trans howner)
      left
      rw [hself, hlength]
      exact hposition
    · by_cases hbc : b = c
      · exact absurd (hbc ▸ hk) (hlast k)
      · have hheld : g.HeldBy b p k := by rwa [Group.HeldBy, hother b hbc] at hk
        exact absurd (Option.some.inj ((h.held b k hheld).1.symm.trans howner)) hbc
    · obtain rfl : b = c := Option.some.inj (hb.symm.trans howner)
      rw [hself]
      exact h.stored b howner
  · have hlines : (g.report c m line).lines p = g.lines p := by
      simp [Group.lines, Group.report, List.filter_append, hp]
    refine h.congr (List.prefix_refl _) hlines rfl rfl fun b => ?_
    by_cases hb : b = c
    · subst hb
      rw [hself]
      refine ⟨rfl, rfl, fun k => iff_of_false (hlast k) ?_⟩
      rintro ⟨n, hn, hnp, -⟩
      exact hp (Option.some.inj (hm.symm.trans hn) ▸ hnp)
    · rw [hother b hb]
      exact ⟨rfl, rfl, fun k => by rw [Group.HeldBy, Group.HeldBy, hother b hb]⟩

theorem commit (h : InOrder g p) {c q k : Nat} (howner : g.owner q = some c)
    (hstored : (g.consumer c).stored q = some k) : InOrder (g.commit q k) p := by
  by_cases hq : p = q
  · subst hq
    refine ⟨h.reported, fun hu => ?_, h.position, h.held, fun b hb => ?_⟩
    · rw [show g.owner p = none from hu] at howner
      cases howner
    · obtain rfl : b = c := Option.some.inj (hb.symm.trans howner)
      rcases h.stored b howner with hs | ⟨hs, -⟩
      · exact .inl hs
      · rw [hstored] at hs
        cases hs
  · exact h.congr (List.prefix_refl _) rfl rfl (by simp [Group.commit, hq]) fun _ => ⟨rfl, rfl, fun _ => Iff.rfl⟩

/-- A settled partition restarts where the printing stands. -/
theorem rebalance (h : InOrder g p) {owner : Nat → Option Nat}
    (hclean : ∀ c, g.owner p = some c → owner p ≠ some c → g.Settled p c) : InOrder (g.rebalance owner) p := by
  by_cases hsame : owner p = g.owner p
  · refine h.congr (List.prefix_refl _) rfl hsame rfl fun c => ⟨?_, if_pos hsame, fun _ => Iff.rfl⟩
    exact if_neg fun hc => hc.2 (hsame ▸ hc.1)
  · -- the partition changes hands, so nothing of it is in hand
    have hsettled : (∀ c k, ¬ g.HeldBy c p k) ∧ resumeAt (g.committed p) = (g.lines p).length := by
      cases ho : g.owner p with
      | none =>
        refine ⟨fun c k hk => ?_, h.unowned ho⟩
        rw [(h.held c k hk).1] at ho
        cases ho
      | some b =>
        obtain ⟨hidle, hcommitted⟩ := hclean b ho fun he => hsame (he.trans ho.symm)
        refine ⟨fun c k hk => ?_, hcommitted.trans (h.position_eq ho hidle)⟩
        obtain rfl : c = b := Option.some.inj ((h.held c k hk).1.symm.trans ho)
        exact hidle k hk
    obtain ⟨hidle, hcommitted⟩ := hsettled
    have hposition : ∀ c, owner p = some c →
        ((g.rebalance owner).consumer c).position p = resumeAt (g.committed p) := fun c hc =>
      if_pos ⟨hc, fun ho => hsame (hc.trans ho.symm)⟩
    refine ⟨h.reported, fun _ => hcommitted, fun c hc => .inl ?_, fun c k hk => absurd hk (hidle c k), fun c hc => ?_⟩
    · exact (hposition c hc).trans hcommitted
    · exact .inr ⟨if_neg hsame, (hposition c hc).symm⟩

/-- Closing between two iterations commits up to where the printing stands. -/
theorem close (h : InOrder g p) {c : Nat} (hidle : (g.consumer c).inFlight = none) : InOrder (g.close c) p := by
  have hnone : ∀ k, ¬ g.HeldBy c p k := by
    rintro k ⟨m, hm, -⟩
    rw [hidle] at hm
    cases hm
  have hconsumer : ∀ b, ((g.close c).consumer b).position p = (g.consumer b).position p ∧
      ((g.close c).consumer b).stored p = (g.consumer b).stored p ∧
      ∀ k, (g.close c).HeldBy b p k ↔ g.HeldBy b p k := fun b => by
    by_cases hb : b = c
    · subst hb
      simp [Group.close, Group.setConsumer, Group.HeldBy]
    · simp [Group.close, Group.setConsumer, Group.HeldBy, hb]
  by_cases howner : g.owner p = some c
  · have hunowned : (g.close c).owner p = none := by simp [Group.close, howner]
    have hposition := h.position_eq howner hnone
    refine ⟨h.reported, fun _ => ?_, fun b hb => ?_, fun b k hk => ?_, fun b hb => ?_⟩
    · have hcommitted : (g.close c).committed p = ((g.consumer c).stored p).or (g.committed p) := by
        simp [Group.close, howner]
      rw [hcommitted]
      rcases h.stored c howner with hs | ⟨hs, hr⟩
      · rw [hs]
        exact hposition
      · rw [hs]
        exact hr.trans hposition
    · rw [hunowned] at hb
      cases hb
    · have hheld := ((hconsumer b).2.2 k).mp hk
      obtain rfl : b = c := Option.some.inj ((h.held b k hheld).1.symm.trans howner)
      exact absurd hheld (hnone k)
    · rw [hunowned] at hb
      cases hb
  · exact h.congr (List.prefix_refl _) rfl (by simp [Group.close, howner]) (by simp [Group.close, howner]) hconsumer

theorem step (h : InOrder g p) (hs : Step d g e g') (hf : Faithful d g) (hclean : CleanHandover g e) :
    InOrder g' p := by
  have hlog := hs.log_prefix p
  cases hs with
  | append q value _ => exact h.append q value hlog
  | start c _ _ => exact h.setStatus c .running
  | poll c q value _ hidle howner _ => exact h.poll hidle howner
  | report c m line _ hm _ => exact h.report hm (hf.held c m hm)
  | commit c q k _ howner hstored => exact h.commit howner hstored
  | rebalance owner _ => exact h.rebalance (hclean p)
  | close c _ => exact h.close hclean
  | kill c _ => exact h.setStatus c .ended

end InOrder

theorem run_inOrder (h : Run (Guarded (Step d) CleanHandover) (.initial log) es g) :
    Faithful d g ∧ ∀ p, InOrder g p := by
  refine h.invariant (fun g => Faithful d g ∧ ∀ p, InOrder g p) ?_ ⟨⟨nofun, nofun⟩, initial_inOrder log⟩
  rintro g e g' ⟨hclean, hs⟩ ⟨hf, hi⟩
  exact ⟨hf.step hs, fun p => (hi p).step hs hf hclean⟩

/-- In every run whose hand-overs are clean, whatever processes start, close or are killed and
wherever the partitions move, what the group prints of a partition is a prefix of the
partition's records: each is printed once, in order, and none is left out. -/
theorem printed_in_order (h : Run (Guarded (Step d) CleanHandover) (.initial log) es g) (p : Nat) :
    (g.lines p).map Prod.fst <+: g.records p := ((run_inOrder h).2 p).reported

/-- A partition with two tombstones: the first process prints one and commits, the second takes
over and prints the other. -/
theorem run_handed_over : ∃ es g,
    Run (Guarded (Step smallDeployment) CleanHandover) (.initial fun p => if p = 0 then [none, none] else []) es g ∧
      g.reported = [(⟨0, 0, none⟩, .noneValue), (⟨0, 1, none⟩, .noneValue)] := by
  let ownedBy (c : Nat) : Nat → Option Nat := fun p => if p = 0 then some c else none
  have howner (g : Group) (c : Nat) (hc : g.Running c) (p b : Nat) (hb : ownedBy c p = some b) :
      p < smallDeployment.partitions ∧ g.Running b := by
    simp only [ownedBy, Option.ite_none_right_eq_some, Option.some.injEq] at hb
    obtain ⟨rfl, rfl⟩ := hb
    exact ⟨by decide, hc⟩
  refine ⟨_, _,
    .guarded_cons (.start 0 (by decide) rfl) trivial <| .guarded_cons (.start 1 (by decide) rfl) trivial <|
    .guarded_cons (.rebalance (ownedBy 0) (howner _ 0 rfl)) (fun p c hc => by cases hc) <|
    .guarded_cons (.poll 0 0 none rfl rfl rfl rfl) trivial <| .guarded_cons (.report 0 _ .noneValue rfl rfl rfl) trivial <|
    .guarded_cons (.commit 0 0 1 rfl rfl rfl) trivial <|
    .guarded_cons (.rebalance (ownedBy 1) (howner _ 1 rfl)) (fun p c hc _ => ?_) <|
    .guarded_cons (.poll 1 0 none rfl rfl rfl rfl) trivial <|
    .guarded_cons (.report 1 _ .noneValue rfl rfl rfl) trivial <| .nil _, rfl⟩
  obtain ⟨rfl, rfl⟩ : p = 0 ∧ 0 = c := by
    have hc : ownedBy 0 p = some c := hc
    simpa only [ownedBy, Option.ite_none_right_eq_some, Option.some.injEq] using hc
  exact ⟨fun k ⟨m, hm, _⟩ => (by cases hm), rfl⟩

theorem printed_in_order_handed_over : ∃ es g,
    Run (Guarded (Step smallDeployment) CleanHandover) (.initial fun p => if p = 0 then [none, none] else []) es g ∧
      g.reported = [(⟨0, 0, none⟩, .noneValue), (⟨0, 1, none⟩, .noneValue)] ∧
      (g.lines 0).map Prod.fst <+: g.records 0 := by
  obtain ⟨es, g, hrun, hreported⟩ := run_handed_over
  exact ⟨es, g, hrun, hreported, printed_in_order hrun 0⟩

end Shipstream.Services
