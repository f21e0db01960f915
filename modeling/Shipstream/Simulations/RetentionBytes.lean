import Shipstream.Kafka.SegmentedLog

/-! simulations/sim_retention_bytes.py: what the two results that `main` prints say of the logs
of its topic, and what the retention size does to each partition. -/
namespace Shipstream.Simulations.RetentionBytes
open Kafka Transition

/-- `create_topic`: retention by time is a day, and the age at which segments roll the broker's. -/
def createTopic (retentionBytes segmentBytes : Nat) (segmentMs : Option Nat) : LogConfig :=
  ⟨segmentBytes, segmentMs, some 86400000, some retentionBytes⟩

def partitions : Nat := 3

/-- The topic of `main`: RETENTION_BYTES and SEGMENT_BYTES. -/
def topic (segmentMs : Option Nat) : LogConfig := createTopic 5120 512 segmentMs

inductive Result where
  | round1
  | round2
  deriving DecidableEq, Repr

/-- Printed after each round, whatever the watermarks are. -/
def Result.text : Result → String
  | .round1 =>
    "\n[result] Low watermarks have advanced on each partition.\n" ++
      "         The oldest closed segments were deleted to bring each\n" ++
      "         partition back under the 5 KB retention.bytes cap."
  | .round2 =>
    "\n[result] Only the overloaded partition shows an advanced low watermark.\n" ++
      "         The two empty partitions are untouched.\n" ++
      "         retention.bytes is enforced per partition, not per topic."

/-- What the results say of the topic; `overloaded` is the partition of the fixed key. -/
def Result.Holds {α : Type} (overloaded : Nat) (t : TopicLog α) : Result → Prop
  | .round1 => ∀ p < partitions, 0 < (t p).logStart
  | .round2 => 0 < (t overloaded).logStart ∧ ∀ p < partitions, p ≠ overloaded → (t p).logStart = 0

section
variable {α : Type} {start count retentionBytes segmentBytes bound : Nat} {segmentMs : Option Nat}
  {events events' : List (Nat × LogEvent α)} {t u : TopicLog α}

/-- The room a partition takes, and the topic. -/
structure Capped (count retentionBytes segmentBytes bound : Nat) (t : TopicLog α) : Prop where
  closed : ∀ p < count, (t p).closedBytes ≤ retentionBytes
  partition : ∀ p < count, (t p).bytes ≤ retentionBytes + segmentBytes + bound
  topic : ∑ p ∈ Finset.range count, (t p).bytes ≤ count * (retentionBytes + segmentBytes + bound)

/-- After the cleaner each partition is capped on its own, up to its active segment. It is
untouched while what was written to it fits into the cap, and trimmed once that exceeds the cap
by more than a segment and a batch, whatever is written to the others and however the client
batches it. -/
theorem retention_per_partition
    (hrun : Run (TopicStep count (createTopic retentionBytes segmentBytes segmentMs)) (fun _ => .empty start) events t)
    (hbound : ∀ p, ∀ batch ∈ batches (eventsOf p events), totalBytes batch ≤ bound)
    (hsettled : ∀ p < count, (createTopic retentionBytes segmentBytes segmentMs).Settled (t p)) :
    Capped count retentionBytes segmentBytes bound t ∧ ∀ p < count,
      (totalBytes (appended (eventsOf p events)) ≤ retentionBytes →
        (∀ r ∈ appended (eventsOf p events), (t p).now ≤ r.time + 86400000) → (t p).logStart = 0) ∧
      (retentionBytes + segmentBytes + bound < totalBytes (appended (eventsOf p events)) →
        0 < (t p).logStart) := by
  have hclosed : ∀ p < count, (t p).closedBytes ≤ retentionBytes := fun p hp =>
    (hsettled p hp).closedBytes_le rfl
  have hpartition : ∀ p < count, (t p).bytes ≤ retentionBytes + segmentBytes + bound := by
    intro p hp
    have hactive := run_activeBounded bound (run_partition hrun p) (hbound p)
    have hle := hclosed p hp
    rw [SegmentedLog.bytes, Nat.add_assoc]
    exact Nat.add_le_add hle hactive
  refine ⟨⟨hclosed, hpartition, ?_⟩, fun p hp => ⟨fun hfits hfresh => ?_, fun hexceeds => ?_⟩⟩
  · have hsum := Finset.sum_le_card_nsmul (Finset.range count) (fun p => (t p).bytes) _
      fun p hp => hpartition p (Finset.mem_range.mp hp)
    rwa [Finset.card_range, smul_eq_mul] at hsum
  · refine kept_of_fits (run_explained (run_partition hrun p)) (fun cap hcap => ?_) fun ms hms => ?_
    · cases hcap
      exact hfits
    · have hday : 86400000 = ms := Option.some.inj hms
      exact hday ▸ hfresh
  · exact deleted_of_exceeds (run_partition hrun p) (hbound p) rfl (hsettled p hp) hexceeds

/-- What round 2 prints of its partition holds at the end only if no other partition was trimmed by
then, and the result of round 1 was wrong. Whether round 1 trims a partition at all is up to the
batches: some partition is trimmed once the topic has outgrown a cap, a segment and a batch for
each of them, and none need be when each gets its records in one batch. -/
theorem results_exclusive (hrun : Run (TopicStep partitions (topic segmentMs)) (fun _ => .empty start) events t)
    (hrun' : Run (TopicStep partitions (topic segmentMs)) t events' u) :
    (∀ overloaded, Result.round2.Holds overloaded u →
      (∀ p < partitions, p ≠ overloaded → (t p).logStart = 0) ∧ ¬ Result.round1.Holds overloaded t) ∧
    ((∀ p, ∀ batch ∈ batches (eventsOf p events), totalBytes batch ≤ bound) →
      (∀ p < partitions, (topic segmentMs).Settled (t p)) →
      partitions * (5120 + 512 + bound) < ∑ p ∈ Finset.range partitions, totalBytes (appended (eventsOf p events)) →
      ∃ p < partitions, 0 < (t p).logStart) ∧
    ∀ content : Nat → List (Stored α), ∃ sent v,
      Run (TopicStep partitions (topic segmentMs)) (fun _ => .empty start) sent v ∧ ∀ p < partitions,
        (v p).records = content p ∧ (v p).logStart = 0 ∧ (topic segmentMs).Settled (v p) := by
  refine ⟨fun overloaded h => ?_, fun hbound hsettled hexceeds => ?_, fun content =>
    exists_one_batch_each (by decide : 0 < 512) partitions start content⟩
  · have hothers : ∀ p < partitions, p ≠ overloaded → (t p).logStart = 0 := by
      intro p hp hne
      have hend := h.2 p hp hne
      have hgrows := run_logStart_le (run_partition hrun' p)
      omega
    refine ⟨hothers, fun hall => ?_⟩
    obtain ⟨p, hp, hne⟩ : ∃ p < partitions, p ≠ overloaded := by
      by_cases hzero : overloaded = 0
      · exact ⟨1, by decide, by omega⟩
      · exact ⟨0, by decide, by omega⟩
    have hzero := hothers p hp hne
    have hpos := hall p hp
    omega
  · by_contra hnone
    have hfits : ∀ p ∈ Finset.range partitions, totalBytes (appended (eventsOf p events)) ≤ 5120 + 512 + bound := by
      intro p hp
      by_contra hlt
      have hp' := Finset.mem_range.mp hp
      exact hnone ⟨p, hp', deleted_of_exceeds (run_partition hrun p) (hbound p) rfl (hsettled p hp')
        (Nat.lt_of_not_le hlt)⟩
    have hsum := Finset.sum_le_card_nsmul _ _ _ hfits
    rw [Finset.card_range, smul_eq_mul] at hsum
    omega

end

/-- Five messages of 60 bytes in segments of 50, capped at 100. -/
theorem retention_per_partition_filled : ∃ events t,
    Run (TopicStep 1 (createTopic 100 50 none)) (fun _ => .empty 0 : TopicLog Unit) events t ∧
      Capped 1 100 50 60 t ∧ 0 < (t 0).logStart := by
  obtain ⟨events, t, hrun, hbatches, happended, hsettled⟩ := exists_filled (c := createTopic 100 50 none) Nat.one_pos
    (by decide) 0 (List.replicate 5 (⟨(), 60, 0⟩ : Stored Unit))
  have hbound : ∀ p, ∀ batch ∈ batches (eventsOf p events), totalBytes batch ≤ 60 := by
    intro p batch hbatch
    rw [hbatches] at hbatch
    split at hbatch
    · obtain ⟨r, hr, rfl⟩ := List.mem_map.mp hbatch
      rw [List.eq_of_mem_replicate hr]
      decide
    · cases hbatch
  obtain ⟨hcapped, hpartition⟩ := retention_per_partition hrun hbound fun p _ => hsettled p
  refine ⟨events, t, hrun, hcapped, (hpartition 0 Nat.one_pos).2 ?_⟩
  rw [happended]
  decide

/-- A hundred messages of 200 bytes, each in a batch of its own, all in partition 0: then the result of
round 2 holds after round 1. -/
theorem results_exclusive_skewed : ∃ events t,
    Run (TopicStep partitions (topic none)) (fun _ => .empty 0 : TopicLog Unit) events t ∧
      (∃ p < partitions, 0 < (t p).logStart) ∧ Result.round2.Holds 0 t ∧ ¬ Result.round1.Holds 0 t := by
  obtain ⟨events, t, hrun, hbatches, happended, hsettled⟩ := exists_filled (c := topic none)
    (by decide : 0 < partitions) (by decide) 0 (List.replicate 100 (⟨(), 200, 0⟩ : Stored Unit))
  have hbound : ∀ p, ∀ batch ∈ batches (eventsOf p events), totalBytes batch ≤ 200 := by
    intro p batch hbatch
    rw [hbatches] at hbatch
    split at hbatch
    · obtain ⟨r, hr, rfl⟩ := List.mem_map.mp hbatch
      rw [List.eq_of_mem_replicate hr]
      decide
    · cases hbatch
  have hexceeds : partitions * (5120 + 512 + 200) <
      ∑ p ∈ Finset.range partitions, totalBytes (appended (eventsOf p events)) := by
    simp only [happended]
    decide
  obtain ⟨hexclusive, htrimmed, -⟩ := results_exclusive hrun (.nil t)
  obtain ⟨p, hp, hpos⟩ := htrimmed hbound (fun p _ => hsettled p) hexceeds
  have hothers : ∀ q < partitions, q ≠ 0 → (t q).logStart = 0 := fun q _ hne => by
    have hnone : appended (eventsOf q events) = [] := by rw [happended, if_neg (Ne.symm hne)]
    refine kept_of_fits (run_explained (run_partition hrun q)) (fun cap _ => ?_) fun ms _ r hr => ?_
    · rw [hnone]
      exact Nat.zero_le cap
    · rw [hnone] at hr
      cases hr
  have hzero : p = 0 := by
    by_contra hne
    rw [hothers p hp hne] at hpos
    exact lt_irrefl 0 hpos
  subst hzero
  have hround2 : Result.round2.Holds 0 t := ⟨hpos, hothers⟩
  exact ⟨events, t, hrun, ⟨0, hp, hpos⟩, hround2, (hexclusive 0 hround2).2⟩

end Shipstream.Simulations.RetentionBytes
