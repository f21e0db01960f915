import Shipstream.Simulations.PartitionCeiling

/-! simulations/sim_partition_ceiling.py: a round with the topic that `flood_topic` fills, and what the
report shows as messages consumed. -/
namespace Shipstream.Simulations.PartitionCeiling
open Transition

/-! Rows and columns of which each column is claimed by one row. -/

private theorem sum_sum_of_claimed_once {ι κ : Type*} (rows : Finset ι) (columns : Finset κ) (f : ι → κ → Nat)
    (size : κ → Nat)
    (hle : ∀ i ∈ rows, ∀ j ∈ columns, f i j ≤ size j)
    (honce : ∀ j ∈ columns, ∀ i ∈ rows, ∀ i' ∈ rows, 0 < f i j → 0 < f i' j → i = i') :
    ∑ i ∈ rows, ∑ j ∈ columns, f i j ≤ ∑ j ∈ columns, size j ∧
      (∑ i ∈ rows, ∑ j ∈ columns, f i j = ∑ j ∈ columns, size j ↔
        ∀ j ∈ columns, 0 < size j → ∃ i ∈ rows, f i j = size j) := by
  -- a column adds up to what its only row takes of it
  have hsingle : ∀ j ∈ columns, ∀ i ∈ rows, 0 < f i j → ∑ x ∈ rows, f x j = f i j := by
    intro j hj i hi hpos
    refine Finset.sum_eq_single_of_mem i hi fun x hx hne => ?_
    by_contra hx0
    exact hne (honce j hj x hx i hi (Nat.pos_of_ne_zero hx0) hpos)
  have hcolumn : ∀ j ∈ columns, ∑ i ∈ rows, f i j ≤ size j := by
    intro j hj
    by_cases h : ∃ i ∈ rows, 0 < f i j
    · obtain ⟨i, hi, hpos⟩ := h
      rw [hsingle j hj i hi hpos]
      exact hle i hi j hj
    · have hzero : ∑ i ∈ rows, f i j = 0 := Finset.sum_eq_zero fun i hi => by
        by_contra hne
        exact h ⟨i, hi, Nat.pos_of_ne_zero hne⟩
      rw [hzero]
      exact Nat.zero_le _
  rw [Finset.sum_comm]
  refine ⟨Finset.sum_le_sum hcolumn, (Finset.sum_eq_sum_iff_of_le hcolumn).trans ?_⟩
  constructor
  · intro h j hj hsize
    obtain ⟨i, hi, hne⟩ := Finset.exists_ne_zero_of_sum_ne_zero (show ∑ i ∈ rows, f i j ≠ 0 by rw [h j hj]; omega)
    refine ⟨i, hi, ?_⟩
    rw [← hsingle j hj i hi (Nat.pos_of_ne_zero hne), h j hj]
  · intro h j hj
    by_cases hsize : 0 < size j
    · obtain ⟨i, hi, heq⟩ := h j hj hsize
      rw [hsingle j hj i hi (by omega), heq]
    · have hle := hcolumn j hj
      omega

/-! The round with its topic. -/

/-- The messages in each partition, the offsets that the group has committed, and where the
fetching of each consumer stands. -/
structure Flooded where
  round : Round
  size : Nat → Nat
  committed : Nat → Nat
  position : Nat → Nat → Nat

inductive FloodEvent where
  | flood (p : Nat)
  | consume (c p : Nat)
  | commit (c p : Nat)
  | assign (c : Nat)
  | round (ev : Event)

/-- The events of a round that touch the topic. -/
def Event.ofTopic : Event → Bool
  | .message _ | .onAssign _ => true
  | _ => false

def Flooded.consume (s : Flooded) (c p : Nat) : Flooded where
  round := { s.round with counters := Function.update s.round.counters c (s.round.counters c + 1) }
  size := s.size
  committed := s.committed
  position := Function.update s.position c (Function.update (s.position c) p (s.position c p + 1))

/-- `on_assign`: whatever the consumer had before, it fetches from the committed offsets. -/
def Flooded.assign (partitions : Nat) (s : Flooded) (c : Nat) : Flooded where
  round := { s.round with
    log := Function.update s.round.log c (some (assigned partitions s.round.owner c))
    pending := s.round.pending.erase c }
  size := s.size
  committed := s.committed
  position := Function.update s.position c s.committed

/-- A member that has handled its latest assignment reads its partitions and commits, in the
background or as it closes. -/
inductive FloodStep (partitions numConsumers : Nat) : Flooded → FloodEvent → Flooded → Prop where
  | flood {s : Flooded} (p : Nat) (hp : p < partitions) :
      FloodStep partitions numConsumers s (.flood p) { s with size := Function.update s.size p (s.size p + 1) }
  | consume {s : Flooded} (c p : Nat) (ht : s.round.thread c = .polling) (hm : c ∈ s.round.members)
      (hc : c ∉ s.round.pending) (hp : p ∈ listed s.round.log c) (hlt : s.position c p < s.size p) :
      FloodStep partitions numConsumers s (.consume c p) (s.consume c p)
  | commit {s : Flooded} (c p : Nat) (hm : c ∈ s.round.members) (hc : c ∉ s.round.pending)
      (hp : p ∈ listed s.round.log c) :
      FloodStep partitions numConsumers s (.commit c p)
        { s with committed := Function.update s.committed p (s.position c p) }
  | assign {s : Flooded} (c : Nat) (ht : s.round.thread c = .polling) (hc : c ∈ s.round.pending) :
      FloodStep partitions numConsumers s (.assign c) (s.assign partitions c)
  | round {s : Flooded} {r : Round} (ev : Event) (hev : ev.ofTopic = false)
      (hr : Step partitions numConsumers s.round ev r) :
      FloodStep partitions numConsumers s (.round ev) { s with round := r }

/-- The topic has been recreated and the group deleted. -/
def flooded : Flooded := ⟨initial, fun _ => 0, fun _ => 0, fun _ _ => 0⟩

variable {partitions numConsumers : Nat} {s t : Flooded} {ev : FloodEvent} {events : List FloodEvent} {c p : Nat}

/-- With the topic left out, a run is a run of the round. -/
theorem run_round (h : Run (FloodStep partitions numConsumers) s events t) :
    ∃ rounds, Run (Step partitions numConsumers) s.round rounds t.round := by
  refine h.project Flooded.round fun s ev t hs => ?_
  cases hs with
  | flood | commit => exact .inl rfl
  | consume c p ht hm => exact .inr ⟨_, .message c ht hm⟩
  | assign c ht hc => exact .inr ⟨_, .onAssign c ht hc⟩
  | round ev _ hr => exact .inr ⟨ev, hr⟩

/-- Once the flood has begun `on_assign` runs for no consumer that has partitions or is handed some. -/
def AssignedBefore (partitions : Nat) (s : Flooded) : FloodEvent → Prop
  | .assign c => (∀ p, s.size p = 0) ∨ listed s.round.log c = [] ∧ assigned partitions s.round.owner c = []
  | _ => True

/-- The counters are the positions; while a member may read, the lists of all that have read are those
of the coordinator. -/
structure Counted (partitions : Nat) (s : Flooded) : Prop where
  pending : s.round.pending ⊆ s.round.members
  outsiders : ∀ c, s.round.thread c = .polling → c ∉ s.round.members → s.round.log c = none
  handled : ∀ c ∈ s.round.members, c ∉ s.round.pending →
    s.round.log c = none ∨ s.round.log c = some (assigned partitions s.round.owner c)
  bounded : ∀ c, ∀ p ∈ listed s.round.log c, p < partitions
  read : ∀ c p, s.position c p ≤ s.size p
  committed : ∀ p, s.committed p ≤ s.size p
  counted : ∀ c, s.round.counters c = ∑ p ∈ (listed s.round.log c).toFinset, s.position c p
  current : ∀ c ∈ s.round.members, c ∉ s.round.pending → listed s.round.log c ≠ [] →
    ∀ c', 0 < s.round.counters c' → listed s.round.log c' = assigned partitions s.round.owner c'
  once : ∀ c c' p, 0 < s.round.counters c → 0 < s.round.counters c' → p ∈ listed s.round.log c →
    p ∈ listed s.round.log c' → c = c'

private theorem flooded_counted : Counted partitions flooded where
  pending := Finset.Subset.refl _
  outsiders _ _ _ := rfl
  handled _ _ _ := .inl rfl
  bounded c p hp := by simp [flooded, initial, listed] at hp
  read _ _ := Nat.le_refl _
  committed _ := Nat.le_refl _
  counted _ := rfl
  current _ hc := by simp [flooded, initial] at hc
  once _ _ _ hc := by simp [flooded, initial] at hc

namespace Counted

/-- A member that may read has the list that the coordinator gave it. -/
theorem listed_eq (h : Counted partitions s) (hm : c ∈ s.round.members) (hc : c ∉ s.round.pending)
    (hne : listed s.round.log c ≠ []) : listed s.round.log c = assigned partitions s.round.owner c := by
  rcases h.handled c hm hc with hnone | hsome
  · simp [listed, hnone] at hne
  · rw [listed, hsome]
    rfl

private theorem counters_eq_zero (h : Counted partitions s) (hempty : ∀ p, s.size p = 0) (c : Nat) :
    s.round.counters c = 0 := by
  rw [h.counted c]
  exact Finset.sum_eq_zero fun p _ => Nat.le_zero.mp (hempty p ▸ h.read c p)

theorem consume (h : Counted partitions s) (hm : c ∈ s.round.members) (hc : c ∉ s.round.pending)
    (hp : p ∈ listed s.round.log c) (hlt : s.position c p < s.size p) : Counted partitions (s.consume c p) := by
  have hlisted := h.listed_eq hm hc (List.ne_nil_of_mem hp)
  -- the reader and all that have read before have their lists from the coordinator
  have hcurrent : ∀ x, 0 < (s.consume c p).round.counters x →
      listed s.round.log x = assigned partitions s.round.owner x := by
    intro x hx
    by_cases hxc : x = c
    · exact hxc ▸ hlisted
    · simp only [Flooded.consume, Function.update_of_ne hxc] at hx
      exact h.current c hm hc (List.ne_nil_of_mem hp) x hx
  refine ⟨h.pending, h.outsiders, h.handled, h.bounded, fun x q => ?_, h.committed, fun x => ?_,
    fun _ _ _ _ => hcurrent, fun x y q hx hy hqx hqy => ?_⟩
  · by_cases hxc : x = c
    · subst hxc
      by_cases hq : q = p
      · subst hq
        simpa [Flooded.consume] using hlt
      · simpa [Flooded.consume, hq] using h.read x q
    · simpa [Flooded.consume, hxc] using h.read x q
  · by_cases hxc : x = c
    · subst hxc
      have hmem := List.mem_toFinset.mpr hp
      have hsplit := Finset.sum_eq_add_sum_sdiff_singleton_of_mem hmem (s.position x)
      simp only [Flooded.consume, Function.update_self]
      rw [Finset.sum_update_of_mem hmem, h.counted x, hsplit]
      omega
    · simpa [Flooded.consume, hxc] using h.counted x
  · have hqx' := hcurrent x hx ▸ hqx
    have hqy' := hcurrent y hy ▸ hqy
    exact Option.some.inj ((mem_assigned.mp hqx').2.symm.trans (mem_assigned.mp hqy').2)

theorem assign (h : Counted partitions s) (hc : c ∈ s.round.pending)
    (hok : (∀ p, s.size p = 0) ∨ listed s.round.log c = [] ∧ assigned partitions s.round.owner c = []) :
    Counted partitions (s.assign partitions c) := by
  have hlisted : ∀ x, listed (s.assign partitions c).round.log x =
      if x = c then assigned partitions s.round.owner c else listed s.round.log x := fun x => listed_update _ _ _ x
  -- the consumer has counted nothing, and what it is handed starts at nothing
  have hzero : s.round.counters c = 0 := by
    rcases hok with hempty | ⟨hnil, -⟩
    · exact h.counters_eq_zero hempty c
    · rw [h.counted c, hnil]
      rfl
  have hstart : ∀ p ∈ assigned partitions s.round.owner c, s.committed p = 0 := by
    intro p hp
    rcases hok with hempty | ⟨-, hnil⟩
    · exact Nat.le_zero.mp (hempty p ▸ h.committed p)
    · simp [hnil] at hp
  have hother : ∀ x, 0 < s.round.counters x → x ≠ c := by
    rintro x hx rfl
    omega
  refine ⟨(Finset.erase_subset _ _).trans h.pending, fun x ht hx => ?_, fun x hx hxp => ?_, fun x q hq => ?_,
    fun x q => ?_, h.committed, fun x => ?_, fun x hx hxp hne y hy => ?_, fun x y q hx hy hqx hqy => ?_⟩
  · have hxc : x ≠ c := by
      rintro rfl
      exact hx (h.pending hc)
    simpa [Flooded.assign, Function.update_of_ne hxc] using h.outsiders x ht hx
  · by_cases hxc : x = c
    · simp [Flooded.assign, hxc]
    · simp only [Flooded.assign, Function.update_of_ne hxc]
      exact h.handled x hx fun hin => hxp (Finset.mem_erase.mpr ⟨hxc, hin⟩)
  · rw [hlisted] at hq
    split at hq
    · exact (mem_assigned.mp hq).1
    · exact h.bounded x q hq
  · by_cases hxc : x = c
    · subst hxc
      simpa [Flooded.assign] using h.committed q
    · simpa [Flooded.assign, hxc] using h.read x q
  · by_cases hxc : x = c
    · subst hxc
      have hcounters : (s.assign partitions x).round.counters x = 0 := hzero
      rw [hcounters, hlisted, if_pos rfl]
      refine (Finset.sum_eq_zero fun q hq => ?_).symm
      simpa [Flooded.assign] using hstart q (List.mem_toFinset.mp hq)
    · rw [hlisted, if_neg hxc]
      simpa [Flooded.assign, hxc] using h.counted x
  · have hyc := hother y hy
    rw [hlisted, if_neg hyc]
    by_cases hxc : x = c
    · -- a list that is not empty was handed out before the flood, when nobody had counted
      subst hxc
      rw [hlisted, if_pos rfl] at hne
      have hcounters := h.counters_eq_zero (hok.resolve_right fun hnil => hne hnil.2) y
      exact absurd hy (by simp [Flooded.assign, hcounters])
    · rw [hlisted, if_neg hxc] at hne
      exact h.current x hx (fun hin => hxp (Finset.mem_erase.mpr ⟨hxc, hin⟩)) hne y hy
  · rw [hlisted, if_neg (hother x hx)] at hqx
    rw [hlisted, if_neg (hother y hy)] at hqy
    exact h.once x y q hx hy hqx hqy

theorem round (h : Counted partitions s) {r : Round} {ev : Event} (hev : ev.ofTopic = false)
    (hr : Step partitions numConsumers s.round ev r) : Counted partitions { s with round := r } := by
  cases hr with
  | message | onAssign => cases hev
  | joinGroup c hc ht hm =>
    have hnone := h.outsiders c ht hm
    refine ⟨h.pending.trans (Finset.subset_insert _ _), fun x hx hxm => ?_, fun x hx hxp => ?_, h.bounded, h.read,
      h.committed, h.counted, fun x hx hxp hne => ?_, h.once⟩
    · exact h.outsiders x hx fun hin => hxm (Finset.mem_insert_of_mem hin)
    · rcases Finset.mem_insert.mp hx with rfl | hx
      · exact .inl hnone
      · exact h.handled x hx hxp
    · rcases Finset.mem_insert.mp hx with rfl | hx
      · simp [listed, hnone] at hne
      · exact h.current x hx hxp hne
  | rebalance owner howner =>
    exact ⟨Finset.Subset.refl _, h.outsiders, fun x hx hxp => absurd hx hxp, h.bounded, h.read, h.committed, h.counted,
      fun x hx hxp => absurd hx hxp, h.once⟩
  | setStop | join =>
    exact ⟨h.pending, h.outsiders, h.handled, h.bounded, h.read, h.committed, h.counted, h.current, h.once⟩
  | noticeStop c ht hs =>
    refine ⟨h.pending, fun x hx => ?_, h.handled, h.bounded, h.read, h.committed, h.counted, h.current, h.once⟩
    by_cases hxc : x = c
    · simp [hxc] at hx
    · exact h.outsiders x (by simpa [hxc] using hx)
  | close c ht =>
    -- those that stay members are pending exactly when they were
    have hstays : ∀ x ∈ s.round.members.erase c, x ∉ s.round.pending.erase c →
        x ∈ s.round.members ∧ x ∉ s.round.pending := fun x hx hxp => by
      obtain ⟨hxc, hx⟩ := Finset.mem_erase.mp hx
      exact ⟨hx, fun hin => hxp (Finset.mem_erase.mpr ⟨hxc, hin⟩)⟩
    refine ⟨Finset.erase_subset_erase _ h.pending, fun x hx hxm => ?_,
      fun x hx hxp => h.handled x (hstays x hx hxp).1 (hstays x hx hxp).2, h.bounded, h.read, h.committed, h.counted,
      fun x hx hxp => h.current x (hstays x hx hxp).1 (hstays x hx hxp).2, h.once⟩
    by_cases hxc : x = c
    · simp [hxc] at hx
    · exact h.outsiders x (by simpa [hxc] using hx) fun hin => hxm (Finset.mem_erase.mpr ⟨hxc, hin⟩)

theorem step (h : Counted partitions s) (hs : FloodStep partitions numConsumers s ev t)
    (hok : AssignedBefore partitions s ev) :
    Counted partitions t := by
  cases hs with
  | flood p hp =>
    have hle : ∀ q, s.size q ≤ Function.update s.size p (s.size p + 1) q := fun q => by
      by_cases hq : q = p
      · subst hq
        simp
      · simp [hq]
    exact ⟨h.pending, h.outsiders, h.handled, h.bounded, fun x q => (h.read x q).trans (hle q),
      fun q => (h.committed q).trans (hle q), h.counted, h.current, h.once⟩
  | consume c p ht hm hc hp hlt => exact h.consume hm hc hp hlt
  | commit c p hm hc hp =>
    refine ⟨h.pending, h.outsiders, h.handled, h.bounded, h.read, fun q => ?_, h.counted, h.current, h.once⟩
    by_cases hq : q = p
    · subst hq
      simpa using h.read c q
    · simpa [hq] using h.committed q
  | assign c ht hc => exact h.assign hc hok
  | round ev hev hr => exact h.round hev hr

end Counted

/-- What the rows of the report say of the messages. -/
structure Tally (partitions numConsumers : Nat) (s : Flooded) : Prop where
  shown : ∀ c, s.round.counters c = ∑ p ∈ (listed s.round.log c).toFinset, s.position c p
  idle : ∀ c, listed s.round.log c = [] → s.round.counters c = 0
  total : ∑ c ∈ Finset.range numConsumers, s.round.counters c ≤ ∑ p ∈ Finset.range partitions, s.size p
  complete : ∑ c ∈ Finset.range numConsumers, s.round.counters c = ∑ p ∈ Finset.range partitions, s.size p ↔
    ∀ p < partitions, 0 < s.size p → ∃ c < numConsumers, p ∈ listed s.round.log c ∧ s.position c p = s.size p
  rows : (List.range 4).countP (fun c => 0 < s.round.counters c) ≤ partitions

/-- No more rows than partitions show messages. -/
theorem Counted.rows_le (h : Counted partitions s) :
    (List.range 4).countP (fun c => 0 < s.round.counters c) ≤ partitions := by
  let log : Nat → Option (List Nat) := fun c => if 0 < s.round.counters c then s.round.log c else none
  have hlisted : ∀ c, ∀ p ∈ listed log c, 0 < s.round.counters c ∧ p ∈ listed s.round.log c := by
    intro c p hp
    by_cases hc : 0 < s.round.counters c
    · exact ⟨hc, by simpa [log, listed, hc] using hp⟩
    · simp [log, listed, hc] at hp
  have honce : OwnedOnce log := fun c c' p hp hp' =>
    h.once c c' p (hlisted c p hp).1 (hlisted c' p hp').1 (hlisted c p hp).2 (hlisted c' p hp').2
  refine le_trans ?_ (active_le honce fun c p hp => h.bounded c p (hlisted c p hp).2)
  refine List.countP_mono_left fun c _ hc => ?_
  simp only [decide_eq_true_eq] at hc ⊢
  have hne : listed s.round.log c ≠ [] := fun hnil => by
    rw [h.counted c, hnil] at hc
    simp at hc
  simpa [log, listed, hc] using hne

theorem Counted.tally (h : Counted partitions s) : Tally partitions numConsumers s := by
  let f : Nat → Nat → Nat := fun c p => if p ∈ listed s.round.log c then s.position c p else 0
  have hcounters : ∀ c, s.round.counters c = ∑ p ∈ Finset.range partitions, f c p := by
    intro c
    have hfilter : (Finset.range partitions).filter (· ∈ listed s.round.log c) = (listed s.round.log c).toFinset := by
      ext p
      simpa using fun hp => h.bounded c p hp
    rw [h.counted c, ← hfilter, Finset.sum_filter]
  have hread : ∀ c p, 0 < f c p → p < partitions → 0 < s.round.counters c ∧ p ∈ listed s.round.log c := by
    intro c p hpos hp
    refine ⟨?_, by_contra fun hnot => ?_⟩
    · rw [hcounters]
      exact hpos.trans_le (Finset.single_le_sum (fun _ _ => Nat.zero_le _) (Finset.mem_range.mpr hp))
    · simp [f, hnot] at hpos
  have hle : ∀ c p, f c p ≤ s.size p := fun c p => by
    simp only [f]
    split
    · exact h.read c p
    · exact Nat.zero_le _
  obtain ⟨htotal, hcomplete⟩ := sum_sum_of_claimed_once (Finset.range numConsumers) (Finset.range partitions) f s.size
    (fun c _ p _ => hle c p) fun p hp c _ c' _ hc hc' => by
      have hp := Finset.mem_range.mp hp
      exact h.once c c' p (hread c p hc hp).1 (hread c' p hc' hp).1 (hread c p hc hp).2 (hread c' p hc' hp).2
  simp only [← hcounters] at htotal hcomplete
  refine ⟨h.counted, fun c hnil => ?_, htotal, hcomplete.trans ?_, h.rows_le⟩
  · rw [h.counted c, hnil]
    rfl
  · simp only [Finset.mem_range]
    refine forall₂_congr fun p hp => forall_congr' fun hsize => exists_congr fun c => and_congr_right fun _ => ?_
    constructor
    · intro heq
      have hmem := (hread c p (heq ▸ hsize) hp).2
      exact ⟨hmem, by simpa [f, hmem] using heq⟩
    · rintro ⟨hmem, heq⟩
      simpa [f, hmem] using heq

private theorem run_counted
    (h : Run (Guarded (FloodStep partitions numConsumers) (AssignedBefore partitions)) flooded events s) :
    Counted partitions s :=
  h.invariant (Counted partitions) (fun _ _ _ hs hi => hi.step hs.2 hs.1) flooded_counted

/-- In every run of a round in which no consumer gets a new list once the flood has begun, other than an
empty one for an empty one: each row shows how far its consumer has read its listed partitions, so an
idle row shows none; the rows add up to at most what was flooded, and to all of it exactly when each
partition has been read to its end; and no more rows than partitions show messages. -/
theorem consumed_once
    (h : Run (Guarded (FloodStep partitions numConsumers) (AssignedBefore partitions)) flooded events s) :
    Tally partitions numConsumers s := (run_counted h).tally

/-- In the report that is printed of such a run, a line that says IDLE shows no messages, and as many
lines say so as the report counts. -/
theorem report_printed
    (h : Run (Guarded (FloodStep partitions numConsumers) (AssignedBefore partitions)) flooded events s) :
    (∀ line ∈ summariseRound partitions numConsumers s.round.counters s.round.log, saysIdle line = true →
      ∃ row, line = row ++ " 0") ∧
    (summariseRound partitions numConsumers s.round.counters s.round.log).countP saysIdle =
      4 - active s.round.log := by
  have htally : Tally partitions numConsumers s := (run_counted h).tally
  refine ⟨fun line hline hidle => ?_, countP_saysIdle partitions numConsumers⟩
  obtain ⟨c, -, rfl⟩ := exists_row_of_saysIdle hline hidle
  have hzero := htally.idle c ((saysIdle_rowText c).mp hidle)
  rw [rowText, hzero, String.append_assoc]
  exact ⟨_, rfl⟩

/-- Two partitions and two consumers: one message on each partition, both read. -/
theorem consumed_once_settled : ∃ events s,
    Run (Guarded (FloodStep 2 2) (AssignedBefore 2)) flooded events s ∧ s.round.counters 0 = 1 ∧ s.round.counters 1 = 1 ∧
      Tally 2 2 s := by
  have hrun : ∃ events s, Run (Guarded (FloodStep 2 2) (AssignedBefore 2)) flooded events s ∧
      s.round.counters 0 = 1 ∧ s.round.counters 1 = 1 :=
    ⟨_, _,
      .guarded_cons (.round _ rfl (.joinGroup 0 (by decide) rfl (by decide))) trivial <|
      .guarded_cons (.round _ rfl (.joinGroup 1 (by decide) rfl (by decide))) trivial <|
      .guarded_cons (.round _ rfl (.rebalance firstOwner (by decide))) trivial <|
      .guarded_cons (.assign 0 rfl (by decide)) (.inl fun _ => rfl) <|
      .guarded_cons (.assign 1 rfl (by decide)) (.inl fun _ => rfl) <|
      .guarded_cons (.flood 0 (by decide)) trivial <| .guarded_cons (.flood 1 (by decide)) trivial <|
      .guarded_cons (.consume 0 0 rfl (by decide) (by decide) (by decide) (by decide)) trivial <|
      .guarded_cons (.consume 1 1 rfl (by decide) (by decide) (by decide) (by decide)) trivial <| .nil _, rfl, rfl⟩
  obtain ⟨events, s, hrun, h0, h1⟩ := hrun
  exact ⟨events, s, hrun, h0, h1, consumed_once hrun⟩

/-- A partition that moves during the flood is read again from its committed offset: the rows show two
messages where there is one. -/
theorem consumed_twice : ∃ events s, Run (FloodStep 1 2) flooded events s ∧ s.size 0 = 1 ∧
    s.round.counters 0 + s.round.counters 1 = 2 := by
  let ownedBy (c : Nat) : Nat → Option Nat := fun p => if p = 0 then some c else none
  exact ⟨_, _,
    .cons (.round _ rfl (.joinGroup 0 (by decide) rfl (by decide))) <|
    .cons (.round _ rfl (.rebalance (ownedBy 0) (by decide))) <| .cons (.assign 0 rfl (by decide)) <|
    .cons (.flood 0 (by decide)) <| .cons (.consume 0 0 rfl (by decide) (by decide) (by decide) (by decide)) <|
    .cons (.round _ rfl (.joinGroup 1 (by decide) rfl (by decide))) <|
    .cons (.round _ rfl (.rebalance (ownedBy 1) (by decide))) <| .cons (.assign 1 rfl (by decide)) <|
    .cons (.consume 1 0 rfl (by decide) (by decide) (by decide) (by decide)) <| .nil _, rfl, rfl⟩

end Shipstream.Simulations.PartitionCeiling
