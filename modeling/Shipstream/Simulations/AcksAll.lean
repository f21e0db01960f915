import Shipstream.Simulations.AcksComparison

/-! The acks=all round of sim_acks_comparison.py over whole runs: an acknowledged message keeps
its place in every in-sync log, and the printed gap never overstates the loss. -/
namespace Shipstream.Simulations.AcksComparison
open Kafka Transition

variable {Node : Type} [DecidableEq Node] {acks : Acks} {container : Node} {s t : State Node} {ev : Event Node}

/-- A step of the round takes at most one step of the replicas. -/
theorem Step.replicas (hs : Step acks container s ev t) :
    t.replicas = s.replicas ∨ ∃ ev, s.replicas.step ev = some t.replicas := by
  cases hs with
  | append m hm hr => exact .inr ⟨_, hr⟩
  | replica ev hev hr => exact .inr ⟨_, hr⟩
  | dockerStop hp hr => exact .inr ⟨_, hr⟩
  | _ => exact .inl rfl

/-- The message is on every in-sync replica, behind the given messages on each. -/
def Placed (r : Replicas Node Nat) (m : Nat) (before : List Nat) : Prop :=
  r.Replicated m ∧ ∀ g ∈ r.isr, upTo m (r.log g) = before

theorem Placed.step {m : Nat} {before : List Nat} (hs : Step acks container s ev t) (hi : Inv acks s)
    (hisr : s.replicas.isr.Nonempty) (h : Placed s.replicas m before) : Placed t.replicas m before := by
  rcases hs.replicas with heq | ⟨ev, hr⟩
  · rwa [heq]
  · obtain ⟨f, hf⟩ := hisr
    refine ⟨Replicas.Replicated.step h.1 hi.log.valid hr, fun g hg => ?_⟩
    rw [Replicas.Replicated.upTo_step h.1 hi.log.valid hr hf hg]
    exact h.2 f hf

omit [DecidableEq Node] in
private theorem Placed.of_valid {r : Replicas Node Nat} {m : Nat} (hv : r.Valid) (h : r.Replicated m) {f : Node}
    (hf : f ∈ r.isr) : Placed r m (upTo m (r.log f)) :=
  ⟨h, fun g hg => hv.agree m g f (h g hg) (h f hf)⟩

theorem Step.isr_nonempty (hs : Step acks container s ev t) (hi : Inv acks s)
    (h : s.replicas.isr.Nonempty) : t.replicas.isr.Nonempty := by
  rcases hs.replicas with heq | ⟨ev, hr⟩
  · rwa [heq]
  · exact hi.log.valid.isr_nonempty hr h

theorem run_inv {nodes : Finset Node} (hc : container ∈ nodes) {events : List (Event Node)}
    (hrun : Run (Step acks container) (initial nodes container) events s) :
    Inv acks s ∧ s.replicas.isr.Nonempty := by
  refine hrun.invariant (fun s => Inv acks s ∧ s.replicas.isr.Nonempty) ?_ ⟨initial_inv hc, container, hc⟩
  exact fun s ev t hs hi => ⟨hs.inv hi.1, hs.isr_nonempty hi.1 hi.2⟩

/-- With acks=all a message that was acknowledged once is from then on, through any crashes and
elections, in every in-sync log, and always behind the same messages: it keeps its offset. -/
theorem acknowledged_kept {nodes : Finset Node} (hc : container ∈ nodes) {events events' : List (Event Node)}
    (hrun : Run (Step .all container) (initial nodes container) events s)
    (hlater : Run (Step .all container) s events' t) {m : Nat} (hm : m ∈ s.responses ∨ m ∈ s.delivered)
    {f g : Node} (hf : f ∈ s.replicas.isr) (hg : g ∈ t.replicas.isr) :
    m ∈ t.replicas.log g ∧ upTo m (t.replicas.log g) = upTo m (s.replicas.log f) := by
  obtain ⟨hi, hisr⟩ := run_inv hc hrun
  have hplaced : Placed s.replicas m (upTo m (s.replicas.log f)) := .of_valid hi.log.valid (hi.ack rfl m hm) hf
  obtain ⟨-, -, hreplicated, hbefore⟩ : Inv .all t ∧ t.replicas.isr.Nonempty ∧
      Placed t.replicas m (upTo m (s.replicas.log f)) := by
    refine hlater.invariant (fun t => Inv .all t ∧ t.replicas.isr.Nonempty ∧
      Placed t.replicas m (upTo m (s.replicas.log f))) ?_ ⟨hi, hisr, hplaced⟩
    rintro u ev v hs ⟨hi, hisr, hplaced⟩
    exact ⟨hs.inv hi, hs.isr_nonempty hi hisr, hplaced.step hs hi hisr⟩
  exact ⟨hreplicated g hg, hbefore g hg⟩

/-- Message 0 is acknowledged by the first leader; that leader crashes and node 1 is elected. -/
theorem run_failover : ∃ events s events' t,
    Run (Step .all 0) (initial (Finset.univ : Finset (Fin 3)) 0) events s ∧ Run (Step .all 0) s events' t ∧
      0 ∈ s.responses ∧ 0 ∈ s.replicas.isr ∧ 1 ∈ t.replicas.isr ∧ t.replicas.leader = some 1 :=
  ⟨_, _, _, _,
    .cons (.testStop rfl) <| .cons (.produce rfl) <| .cons (.append 0 (by decide) rfl) <|
    .cons (.replica (.replicate 1) (by simp) rfl) <| .cons (.replica (.replicate 2) (by simp) rfl) <|
    .cons (.acknowledge 0 0 rfl (by decide : ∀ f ∈ (Finset.univ : Finset (Fin 3)),
      0 ∈ Function.update (Function.update (Function.update (fun _ => []) 0 [0]) 1 [0]) 2 [0] f)) <| .nil _,
    .cons (.dockerStop rfl rfl) <| .cons (.replica (.elect 1) (by simp) rfl) <| .nil _,
    by decide, by decide, by decide, rfl⟩

theorem acknowledged_kept_failover : ∃ events s events' t,
    Run (Step .all 0) (initial (Finset.univ : Finset (Fin 3)) 0) events s ∧ Run (Step .all 0) s events' t ∧
      t.replicas.leader = some 1 ∧ 0 ∈ t.replicas.log 1 ∧
      upTo 0 (t.replicas.log 1) = upTo 0 (s.replicas.log 0) := by
  obtain ⟨events, s, events', t, hrun, hlater, hm, hf, hg, hleader⟩ := run_failover
  exact ⟨events, s, events', t, hrun, hlater, hleader,
    acknowledged_kept (Finset.mem_univ 0) hrun hlater (.inl hm) hf hg⟩

/-! The printed gap. -/

omit [DecidableEq Node] in
/-- `run_round` never reads a count above the number of messages delivered. -/
theorem CountInv.joined_le (h : CountInv s) {confirmed : Nat} {thread : Thread}
    (hp : s.main = .joined confirmed thread) : confirmed ≤ s.delivered.card := by
  have hjoined := h.joined confirmed thread hp
  split at hjoined
  · exact (hjoined.2.trans h.counted).le
  · exact hjoined.trans_le (Nat.zero_le _)

private theorem verdict_eq_lost {confirmed hw gap : Nat} (h : verdict confirmed (some hw) = .lost gap) :
    0 < gap ∧ gap + hw = confirmed := by
  simp only [verdict] at h
  split at h
  · cases h
    omega
  · cases h

private theorem gap_le_lost (hi : Inv acks s) (hread : Step acks container s .readHighWatermark t) {gap : Nat}
    (hgap : t.main = .reported (.lost gap)) : gap ≤ (s.delivered \ s.stored).card := by
  cases hread with
  | @readHighWatermark confirmed thread b hp hb =>
    obtain ⟨-, hsum⟩ := verdict_eq_lost (Main.reported.inj hgap)
    have hcard : s.stored.card ≤ (s.replicas.log b).length := by
      rw [State.stored, hb]
      exact List.toFinset_card_le _
    have hcount := hi.count.joined_le hp
    have hlost := Finset.le_card_sdiff s.stored s.delivered
    omega

/-- A printed gap is a loss: at least that many delivered messages are missing from the log of
the surviving leader, and the round ran with acks=1. -/
theorem gap_never_overstated {nodes : Finset Node} (hc : container ∈ nodes) {events : List (Event Node)}
    (hrun : Run (Step acks container) (initial nodes container) events s)
    (hread : Step acks container s .readHighWatermark t) {gap : Nat} (hgap : t.main = .reported (.lost gap)) :
    acks = .one ∧ 0 < gap ∧ gap ≤ (s.delivered \ s.stored).card := by
  have hi := (run_inv hc hrun).1
  have hlost := gap_le_lost hi hread hgap
  cases hread with
  | @readHighWatermark confirmed thread b hp hb =>
    obtain ⟨hpos, -⟩ := verdict_eq_lost (Main.reported.inj hgap)
    refine ⟨?_, hpos, hlost⟩
    cases acks with
    | one => rfl
    | all =>
      have hsub : s.delivered ⊆ s.stored := by
        intro m hm
        rw [State.stored, hb, List.mem_toFinset]
        exact hi.ack rfl m (.inr hm) b (hi.log.valid.leader b hb).1
      rw [Finset.sdiff_eq_empty_iff_subset.mpr hsub, Finset.card_empty] at hlost
      omega

/-- With acks=1 message 0 is delivered and lost with the leader, and the thread stops in time. -/
theorem run_loss : ∃ events s t, Run (Step .one 0) (initial (Finset.univ : Finset (Fin 3)) 0) events s ∧
    Step .one 0 s .readHighWatermark t ∧ t.main = .reported (.lost 1) :=
  ⟨_, _, _,
    .cons (.testStop rfl) <| .cons (.produce rfl) <| .cons (.append 0 (by decide) rfl) <|
    .cons (.acknowledge 0 0 rfl (by decide : 0 ∈ [0])) <|
    .cons (.deliver 0 (.inl rfl) (by decide) (by decide)) <| .cons (.endPoll rfl) <|
    .cons (.dockerStop rfl rfl) <| .cons (.replica (.elect 1) (by simp) rfl) <|
    .cons (.setStop rfl) <| .cons (.testStop rfl) <| .cons (.endFlush rfl) <|
    .cons (.handOver rfl) <| .cons (.join rfl) <| .nil _,
    .readHighWatermark 1 rfl rfl, rfl⟩

theorem gap_never_overstated_loss : ∃ events s t,
    Run (Step .one 0) (initial (Finset.univ : Finset (Fin 3)) 0) events s ∧ Step .one 0 s .readHighWatermark t ∧
      Acks.one = .one ∧ 0 < 1 ∧ 1 ≤ (s.delivered \ s.stored).card := by
  obtain ⟨events, s, t, hrun, hread, hmain⟩ := run_loss
  exact ⟨events, s, t, hrun, hread, gap_never_overstated (Finset.mem_univ 0) hrun hread hmain⟩

/-! Where a lost message was lost. -/

/-- The event takes the leader from its place: its broker goes down, or it steps down. -/
def Event.Unseats (container b : Node) : Event Node → Prop
  | .dockerStop => container = b
  | .replica (.crash c) => c = b
  | .replica .stepDown => True
  | _ => False

/-- The message was acknowledged to the producer. -/
def State.Acknowledged (s : State Node) (m : Nat) : Prop := m ∈ s.responses ∨ m ∈ s.delivered

/-- The leader has the message, or all in-sync replicas while nobody leads. -/
def Held (r : Replicas Node Nat) (m : Nat) : Prop :=
  match r.leader with
  | some b => m ∈ r.log b
  | none => r.Replicated m

/-- The event takes the leader, which has the acknowledged message, from its place before all
in-sync replicas have the message. -/
structure LostWith (container : Node) (m : Nat) (s : State Node) (ev : Event Node) (b : Node) : Prop where
  acknowledged : s.Acknowledged m
  leader : s.replicas.leader = some b
  unseated : ev.Unseats container b
  held : m ∈ s.replicas.log b
  behind : ∃ f ∈ s.replicas.isr, m ∉ s.replicas.log f

omit [DecidableEq Node] in
private theorem held_some {r : Replicas Node Nat} {b : Node} (hb : r.leader = some b) {m : Nat} :
    Held r m ↔ m ∈ r.log b := by
  rw [Held, hb]

/-- A held message is lost by no step but one that takes the leader from its place. -/
private theorem Held.step {r r' : Replicas Node Nat} {ev : ReplicaEvent Node Nat} {m : Nat} (h : Held r m)
    (hr : r.step ev = some r')
    (hall : ∀ b, ev = .crash b ∨ ev = .stepDown → r.leader = some b → r.Replicated m) : Held r' m := by
  cases Replicas.step_spec hr with
  | append x b hb =>
    have hkept : m ∈ (r.setLog b (r.log b ++ [x])).log b := by
      rw [Replicas.setLog_log, if_pos rfl]
      exact List.mem_append_left _ ((held_some hb).mp h)
    exact (held_some (r := r.setLog b _) hb).mpr hkept
  | replicate f b hb hf =>
    have hkept : m ∈ (r.setLog f (fetch (r.log f) (r.log b))).log b := by
      rw [Replicas.setLog_log, if_neg hf.symm]
      exact (held_some hb).mp h
    exact (held_some (r := r.setLog f _) hb).mpr hkept
  | shrinkIsr f b hb =>
    exact (held_some (r := { r with isr := r.isr.erase f }) hb).mpr ((held_some hb).mp h)
  | expandIsr f b hb =>
    exact (held_some (r := { r with isr := insert f r.isr }) hb).mpr ((held_some hb).mp h)
  | crash b =>
    by_cases hb : r.leader = some b
    · rw [Held, if_pos hb]
      exact hall b (.inl rfl) hb
    · rw [Held, if_neg hb]
      exact h
  | stepDown =>
    cases hb : r.leader with
    | none =>
      rw [Held, hb] at h
      exact h
    | some b => exact hall b (.inr rfl) hb
  | elect n hnone hisr =>
    -- whoever is elected was in sync, and nobody led before
    rw [Held, hnone] at h
    exact h n hisr

/-- An acknowledged message stays held until it is lost with its leader. -/
private theorem Step.held (hs : Step acks container s ev t) (hi : Inv acks s) {m : Nat}
    (hlost : ¬ ∃ b, LostWith container m s ev b) (h : s.Acknowledged m → Held s.replicas m) :
    t.Acknowledged m → Held t.replicas m := by
  have hspare (hm : s.Acknowledged m) (b : Node) (hev : ev.Unseats container b)
      (hb : s.replicas.leader = some b) : s.replicas.Replicated m := by
    by_contra hbehind
    simp only [Replicas.Replicated, not_forall] at hbehind
    obtain ⟨f, hf, hmf⟩ := hbehind
    exact hlost ⟨b, hm, hb, hev, (held_some hb).mp (h hm), f, hf, hmf⟩
  cases hs with
  | append x hx hr => exact fun hm => (h hm).step hr (by simp)
  | replica ev hev hr =>
    intro hm
    refine (h hm).step hr fun b hunseat => ?_
    rcases hunseat with rfl | rfl
    · exact hspare hm b rfl
    · exact hspare hm b trivial
  | dockerStop hp hr =>
    intro hm
    refine (h hm).step hr fun b hunseat => ?_
    rcases hunseat with hcrash | hdown
    · cases hcrash
      exact hspare hm container rfl
    · cases hdown
  | acknowledge x b hb hack =>
    have hin : x ∈ s.replicas.log b := by
      cases acks with
      | one => exact hack
      | all => exact hack b (hi.log.valid.leader b hb).1
    rintro (hm | hm)
    · rcases Finset.mem_insert.mp hm with rfl | hm
      · exact (held_some hb).mpr hin
      · exact h (.inl hm)
    · exact h (.inr hm)
  | dropResponse x => exact fun hm => h (hm.imp_left Finset.mem_of_mem_erase)
  | deliver x ht hx hr =>
    rintro (hm | hm)
    · exact h (.inl hm)
    · rcases Finset.mem_insert.mp hm with rfl | hm
      · exact h (.inl hr)
      · exact h (.inr hm)
  | _ => exact h

/-- Every message behind a printed gap had been acknowledged when the leader that held it went down,
or stepped down, and some in-sync replica did not have it yet. -/
theorem gap_lost_with_leader {nodes : Finset Node} (hc : container ∈ nodes) {events : List (Event Node)}
    (hrun : Run (Step acks container) (initial nodes container) events s)
    (hread : Step acks container s .readHighWatermark t) {gap : Nat} (hgap : t.main = .reported (.lost gap)) :
    gap ≤ (s.delivered \ s.stored).card ∧ ∀ m ∈ s.delivered \ s.stored, ∃ before ev after u v b,
      events = before ++ ev :: after ∧ Run (Step acks container) (initial nodes container) before u ∧
        Step acks container u ev v ∧ Run (Step acks container) v after s ∧ LostWith container m u ev b := by
  refine ⟨gap_le_lost (run_inv hc hrun).1 hread hgap, fun m hm => ?_⟩
  obtain ⟨hdelivered, hstored⟩ := Finset.mem_sdiff.mp hm
  have hnot : ¬ (Inv acks s ∧ (s.Acknowledged m → Held s.replicas m)) := by
    rintro ⟨-, hheld⟩
    cases hread with
    | readHighWatermark b hp hb =>
      rw [State.stored, hb, List.mem_toFinset] at hstored
      exact hstored ((held_some hb).mp (hheld (.inr hdelivered)))
  have hfirst : Inv acks (initial nodes container) ∧
      ((initial nodes container).Acknowledged m → Held (initial nodes container).replicas m) :=
    ⟨initial_inv hc, fun hm => by simp [State.Acknowledged, initial] at hm⟩
  obtain ⟨before, ev, after, u, v, hsplit, hbefore, hs, hafter, ⟨hi, hheld⟩, hbreak⟩ :=
    hrun.exists_break (fun s => Inv acks s ∧ (s.Acknowledged m → Held s.replicas m)) hfirst hnot
  by_cases hlost : ∃ b, LostWith container m u ev b
  · obtain ⟨b, hlost⟩ := hlost
    exact ⟨before, ev, after, u, v, b, hsplit, hbefore, hs, hafter, hlost⟩
  · exact absurd ⟨hs.inv hi, hs.held hi hlost hheld⟩ hbreak

theorem gap_lost_with_leader_loss : ∃ events s t,
    Run (Step .one 0) (initial (Finset.univ : Finset (Fin 3)) 0) events s ∧ Step .one 0 s .readHighWatermark t ∧
      t.main = .reported (.lost 1) ∧ 1 ≤ (s.delivered \ s.stored).card ∧
      ∀ m ∈ s.delivered \ s.stored, ∃ before ev after u v b, events = before ++ ev :: after ∧
        Run (Step .one 0) (initial Finset.univ 0) before u ∧ Step .one 0 u ev v ∧
        Run (Step .one 0) v after s ∧ LostWith 0 m u ev b := by
  obtain ⟨events, s, t, hrun, hread, hmain⟩ := run_loss
  exact ⟨events, s, t, hrun, hread, hmain, gap_lost_with_leader (Finset.mem_univ 0) hrun hread hmain⟩

end Shipstream.Simulations.AcksComparison
