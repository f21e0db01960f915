import Shipstream.Simulations.Idempotence

/-! sim_idempotence.py, the delivery reports of a whole round: a confirmed message is on disk, and
when all of them are confirmed the verdict is right. -/
namespace Shipstream.Simulations.Idempotence
open Transition

/-- The message that an event confirms. -/
def Event.confirms : Event → List Nat
  | .report k => [k]
  | _ => []

/-- The messages confirmed so far against the state: each is stored, was confirmed once and is
no longer pending. Every message handed over is confirmed, failed or pending. -/
structure Confirmed (history : List Nat) (s : State) : Prop where
  responses : ∀ k ∈ s.responses, k ∈ s.log
  stored : ∀ k ∈ history, k ∈ s.log
  settled : ∀ k ∈ history, k < s.produced ∧ k ∉ s.pending
  once : history.Nodup
  counted : s.confirmed = history.length
  conserved : s.confirmed + s.errors + s.pending.card = s.produced

variable {idempotent : Bool} {count : Nat} {s t : State} {ev : Event} {history : List Nat}

private theorem mem_store_of_mem {log : List Nat} {x : Nat} (k : Nat) (h : x ∈ log) : x ∈ store idempotent log k := by
  unfold store
  split
  · exact h
  · exact List.mem_append_left _ h

private theorem self_mem_store (log : List Nat) (k : Nat) : k ∈ store idempotent log k := by
  unfold store
  split
  · next hk => simpa using (Bool.and_eq_true_iff.mp hk).2
  · exact List.mem_append_right _ (List.mem_singleton_self k)

theorem Confirmed.produce (h : Confirmed history s) (hpending : ∀ k ∈ s.pending, k < s.produced)
    {attempts requests : Nat → Nat} : Confirmed history { s with
      produced := s.produced + 1, attempts := attempts, requests := requests
      pending := insert s.produced s.pending } where
  responses := h.responses
  stored := h.stored
  settled k hk := by
    obtain ⟨hlt, hnot⟩ := h.settled k hk
    refine ⟨Nat.lt_succ_of_lt hlt, fun hin => ?_⟩
    rcases Finset.mem_insert.mp hin with rfl | hin
    · exact Nat.lt_irrefl _ hlt
    · exact hnot hin
  once := h.once
  counted := h.counted
  conserved := by
    have hnew : s.produced ∉ s.pending := fun hin => Nat.lt_irrefl _ (hpending _ hin)
    have := h.conserved
    simp only [Finset.card_insert_of_notMem hnew]
    omega

theorem Confirmed.arrive (h : Confirmed history s) (k : Nat) {requests : Nat → Nat} : Confirmed history { s with
      requests := requests, responses := insert k s.responses, log := store idempotent s.log k } where
  responses x hx := by
    rcases Finset.mem_insert.mp hx with rfl | hx
    · exact self_mem_store s.log x
    · exact mem_store_of_mem k (h.responses x hx)
  stored x hx := mem_store_of_mem k (h.stored x hx)
  settled := h.settled
  once := h.once
  counted := h.counted
  conserved := h.conserved

/-- A report moves one message from the pending ones to the confirmed ones. -/
theorem Confirmed.report (h : Confirmed history s) (hpending : ∀ k ∈ s.pending, k < s.produced) {k : Nat}
    (hk : k ∈ s.pending) (hr : k ∈ s.responses) :
    Confirmed (history ++ [k]) { s with pending := s.pending.erase k, confirmed := s.confirmed + 1 } where
  responses := h.responses
  stored x hx := by
    rcases List.mem_append.mp hx with hx | hx
    · exact h.stored x hx
    · exact List.mem_singleton.mp hx ▸ h.responses k hr
  settled x hx := by
    rcases List.mem_append.mp hx with hx | hx
    · exact ⟨(h.settled x hx).1, fun hin => (h.settled x hx).2 (Finset.mem_of_mem_erase hin)⟩
    · rw [List.mem_singleton.mp hx]
      exact ⟨hpending k hk, Finset.notMem_erase k _⟩
  once := by
    have hnew : k ∉ history := fun hin => (h.settled k hin).2 hk
    exact List.nodup_append_comm.mp (List.nodup_cons.mpr ⟨hnew, h.once⟩ : ([k] ++ history).Nodup)
  counted := by
    rw [List.length_append, List.length_singleton, ← h.counted]
  conserved := by
    have hcard := Finset.card_erase_add_one hk
    have := h.conserved
    simp only
    omega

theorem Confirmed.giveUp (h : Confirmed history s) {k : Nat} (hk : k ∈ s.pending) :
    Confirmed history { s with pending := s.pending.erase k, errors := s.errors + 1 } where
  responses := h.responses
  stored := h.stored
  settled x hx := ⟨(h.settled x hx).1, fun hin => (h.settled x hx).2 (Finset.mem_of_mem_erase hin)⟩
  once := h.once
  counted := h.counted
  conserved := by
    have hcard := Finset.card_erase_add_one hk
    have := h.conserved
    simp only
    omega

theorem Step.confirmed (hs : Step idempotent count s ev t) (hi : Inv idempotent count s)
    (h : Confirmed history s) : Confirmed (history ++ ev.confirms) t := by
  -- only a report adds to the history
  have hsame : history ++ [] = history := List.append_nil history
  cases hs with
  | report k hp hk hr => exact h.report hi.pending hk hr
  | produce hp hk => exact hsame.symm ▸ h.produce hi.pending
  | arrive k hk => exact hsame.symm ▸ h.arrive k
  | giveUp k hp hk => exact hsame.symm ▸ h.giveUp hk
  | dropResponse k =>
    have hresponses : ∀ x ∈ s.responses.erase k, x ∈ s.log := fun x hx => h.responses x (Finset.mem_of_mem_erase hx)
    exact hsame.symm ▸ ⟨hresponses, h.stored, h.settled, h.once, h.counted, h.conserved⟩
  | retry | dropRequest | endFlush | readHighWatermark | readNothing =>
    exact hsame.symm ▸ ⟨h.responses, h.stored, h.settled, h.once, h.counted, h.conserved⟩

private theorem run_confirmed {events : List Event} (hrun : Run (Step idempotent count) initial events s) :
    Inv idempotent count s ∧ Confirmed (events.flatMap Event.confirms) s := by
  refine hrun.accumulate Event.confirms (fun history s => Inv idempotent count s ∧ Confirmed history s) ?_
    [] ⟨initial_inv, ?_⟩
  · exact fun history s ev t hs h => ⟨hs.inv h.1, hs.confirmed h.1 h.2⟩
  · exact ⟨by simp [initial], by simp, by simp, List.nodup_nil, rfl, rfl⟩

/-- In every run each message is confirmed at most once, whatever is retried, dropped or late,
the confirmed ones are on disk, and every message handed over is confirmed, failed or pending. -/
theorem confirmed_stored {events : List Event} (hrun : Run (Step idempotent count) initial events s) :
    (events.flatMap Event.confirms).Nodup ∧ s.confirmed = (events.flatMap Event.confirms).length ∧
      (∀ k ∈ events.flatMap Event.confirms, k ∈ s.log) ∧ s.confirmed ≤ s.log.length ∧
      s.confirmed + s.errors + s.pending.card = s.produced := by
  obtain ⟨-, h⟩ := run_confirmed hrun
  refine ⟨h.once, h.counted, h.stored, ?_, h.conserved⟩
  rw [h.counted, ← List.toFinset_card_of_nodup h.once]
  calc
    (events.flatMap Event.confirms).toFinset.card ≤ s.log.toFinset.card := by
      apply Finset.card_le_card
      exact fun k hk => List.mem_toFinset.mpr (h.stored k (List.mem_toFinset.mp hk))
    _ ≤ s.log.length := List.toFinset_card_le s.log

/-- When the producer has confirmed all COUNT messages no key is missing, so the verdict is exact
with either setting; with idempotence it is then the one without duplicates. -/
theorem all_confirmed_exact {events : List Event} (hrun : Run (Step idempotent count) initial events s)
    (hall : s.confirmed = count) (hread : Step idempotent count s .readHighWatermark t) :
    ∃ v, t.main = .reported v ∧ Exact count s.log v ∧ (idempotent = true → v = .exactly) := by
  obtain ⟨hi, h⟩ := run_confirmed hrun
  have hcomplete : ∀ k < count, k ∈ s.log := by
    have hsub : (events.flatMap Event.confirms).toFinset ⊆ Finset.range count := by
      intro k hk
      have hlt := (h.settled k (List.mem_toFinset.mp hk)).1
      exact Finset.mem_range.mpr (Nat.lt_of_lt_of_le hlt hi.produced)
    have hfull : (events.flatMap Event.confirms).toFinset = Finset.range count := by
      apply Finset.eq_of_subset_of_card_le hsub
      rw [Finset.card_range, List.toFinset_card_of_nodup h.once, ← h.counted, hall]
    intro k hk
    have hin : k ∈ (events.flatMap Event.confirms).toFinset := hfull ▸ Finset.mem_range.mpr hk
    exact h.stored k (List.mem_toFinset.mp hin)
  have hbounded : ∀ k ∈ s.log, k < count := fun k hk => Nat.lt_of_lt_of_le (hi.stored k hk) hi.produced
  cases hread with
  | readHighWatermark hp =>
    refine ⟨_, rfl, (exact_verdict_iff hbounded).mpr (.inl hcomplete), fun hid => ?_⟩
    have hlength := length_add_missing hbounded
    rw [missing_card_eq_zero.mpr hcomplete, surplus_eq_zero_of_nodup (hi.once hid)] at hlength
    have hzero : (s.log.length : Int) - count = 0 := by omega
    simp only [verdict, hzero]
    rfl

/-- One message whose first acknowledgement is lost: it is sent again, stored once and confirmed. -/
theorem run_retried : ∃ events s t, Run (Step true 1) initial events s ∧
    s.confirmed = 1 ∧ Step true 1 s .readHighWatermark t :=
  ⟨_, _, _,
    .cons (.produce rfl (by decide)) <| .cons (.arrive 0 (by decide)) <| .cons (.dropResponse 0) <|
    .cons (.retry 0 (by decide) (by decide)) <| .cons (.arrive 0 (by decide)) <|
    .cons (.report 0 rfl (by decide) (by decide)) <| .cons (.endFlush rfl rfl) <| .nil _,
    rfl, .readHighWatermark rfl⟩

theorem all_confirmed_exact_retried : ∃ events s t, Run (Step true 1) initial events s ∧ s.confirmed = 1 ∧
    Step true 1 s .readHighWatermark t ∧
    ∃ v, t.main = .reported v ∧ Exact 1 s.log v ∧ (true = true → v = .exactly) := by
  obtain ⟨events, s, t, hrun, hall, hread⟩ := run_retried
  exact ⟨events, s, t, hrun, hall, hread, all_confirmed_exact hrun hall hread⟩

theorem confirmed_stored_retried : ∃ events s, Run (Step true 1) initial events s ∧ s.confirmed = 1 ∧
    (events.flatMap Event.confirms).Nodup ∧ s.confirmed = (events.flatMap Event.confirms).length ∧
      (∀ k ∈ events.flatMap Event.confirms, k ∈ s.log) ∧ s.confirmed ≤ s.log.length ∧
      s.confirmed + s.errors + s.pending.card = s.produced := by
  obtain ⟨events, s, t, hrun, hall, -⟩ := run_retried
  exact ⟨events, s, hrun, hall, confirmed_stored hrun⟩

/-! Copies against retries. -/

/-- The copies of a key, stored or under way, are among its attempts, and each attempt after the
first is a retry. -/
structure Attempted (retried : List Nat) (s : State) : Prop where
  unsent : ∀ k, s.produced ≤ k → s.attempts k = 0 ∧ k ∉ retried
  copies : ∀ k, s.log.count k + s.requests k ≤ s.attempts k
  attempts : ∀ k, s.attempts k ≤ 1 + retried.count k
  bound : ∀ k, s.attempts k ≤ retries + 1

/-- The key that an event sends again. -/
def Event.retries : Event → List Nat
  | .retry k => [k]
  | _ => []

private theorem count_store_le (log : List Nat) (k x : Nat) :
    (store idempotent log k).count x ≤ log.count x + if x = k then 1 else 0 := by
  unfold store
  split
  · exact Nat.le_add_right _ _
  · rw [List.count_append, List.count_singleton]
    by_cases h : x = k
    · simp [h]
    · simp [h, Ne.symm h]

theorem Attempted.produce (h : Attempted history s) {pending : Finset Nat} : Attempted history { s with
      produced := s.produced + 1, attempts := Function.update s.attempts s.produced 1
      requests := Function.update s.requests s.produced 1, pending := pending } where
  unsent k hk := by
    have hne : k ≠ s.produced := by
      rintro rfl
      exact Nat.not_succ_le_self _ hk
    simpa only [Function.update_of_ne hne] using h.unsent k (Nat.le_of_succ_le hk)
  copies k := by
    by_cases hk : k = s.produced
    · have hcopies := h.copies k
      have hzero := (h.unsent k hk.ge).1
      subst hk
      simp only [Function.update_self]
      omega
    · simpa only [Function.update_of_ne hk] using h.copies k
  attempts k := by
    by_cases hk : k = s.produced
    · subst hk
      simp only [Function.update_self]
      omega
    · simpa only [Function.update_of_ne hk] using h.attempts k
  bound k := by
    by_cases hk : k = s.produced
    · subst hk
      simp [Idempotence.retries]
    · simpa only [Function.update_of_ne hk] using h.bound k

theorem Attempted.retry (h : Attempted history s) {k : Nat} (hk : k < s.produced)
    (hr : s.attempts k ≤ Idempotence.retries) : Attempted (history ++ [k]) { s with
      attempts := Function.update s.attempts k (s.attempts k + 1)
      requests := Function.update s.requests k (s.requests k + 1) } where
  unsent x hx := by
    have hx : s.produced ≤ x := hx
    have hne : x ≠ k := by omega
    obtain ⟨hzero, hnot⟩ := h.unsent x hx
    refine ⟨by simpa only [Function.update_of_ne hne] using hzero, fun hin => ?_⟩
    rcases List.mem_append.mp hin with hin | hin
    · exact hnot hin
    · exact hne (List.mem_singleton.mp hin)
  copies x := by
    have hcopies := h.copies x
    by_cases hx : x = k
    · subst hx
      simp only [Function.update_self]
      omega
    · simpa only [Function.update_of_ne hx] using hcopies
  attempts x := by
    have hattempts := h.attempts x
    rw [List.count_append, List.count_singleton]
    by_cases hx : x = k
    · subst hx
      simp only [Function.update_self, beq_self_eq_true, if_true]
      omega
    · simp only [Function.update_of_ne hx]
      omega
  bound x := by
    by_cases hx : x = k
    · subst hx
      simp only [Function.update_self]
      omega
    · simpa only [Function.update_of_ne hx] using h.bound x

/-- Requests that become fewer leave room for at most as many stored copies. -/
theorem Attempted.receive (h : Attempted history s) {k : Nat} {log : List Nat} {responses : Finset Nat}
    (hlog : ∀ x, log.count x ≤ s.log.count x + if x = k ∧ 0 < s.requests k then 1 else 0) :
    Attempted history { s with
      requests := Function.update s.requests k (s.requests k - 1), responses := responses, log := log } where
  unsent := h.unsent
  copies x := by
    have hcopies := h.copies x
    have hcount := hlog x
    by_cases hx : x = k
    · subst hx
      simp only [Function.update_self]
      split at hcount <;> omega
    · rw [if_neg fun hand => hx hand.1] at hcount
      simp only [Function.update_of_ne hx]
      omega
  attempts := h.attempts
  bound := h.bound

theorem Step.attempted (hs : Step idempotent count s ev t) (hi : Inv idempotent count s)
    (h : Attempted history s) : Attempted (history ++ ev.retries) t := by
  have hsame : history ++ [] = history := List.append_nil history
  cases hs with
  | produce hp hk => exact hsame.symm ▸ h.produce
  | retry k hk hr => exact h.retry (hi.pending k hk) hr
  | arrive k hk =>
    have hstored : ∀ x, (store idempotent s.log k).count x ≤
        s.log.count x + if x = k ∧ 0 < s.requests k then 1 else 0 := by
      intro x
      simpa only [hk, and_true] using count_store_le s.log k x
    exact hsame.symm ▸ h.receive hstored
  | dropRequest k =>
    have hlog : ∀ x, s.log.count x ≤ s.log.count x + if x = k ∧ 0 < s.requests k then 1 else 0 :=
      fun x => Nat.le_add_right _ _
    exact hsame.symm ▸ h.receive hlog
  | dropResponse | report | giveUp | endFlush | readHighWatermark | readNothing =>
    exact hsame.symm ▸ ⟨h.unsent, h.copies, h.attempts, h.bound⟩

/-- In every run a key has at most one copy more than it was sent again, so without retries there
are no duplicates; no key has more than eleven copies, and the watermark is at most eleven
times COUNT. -/
theorem copies_bounded {events : List Event} (hrun : Run (Step idempotent count) initial events s) :
    (∀ k, s.log.count k ≤ 1 + (events.flatMap Event.retries).count k) ∧ (∀ k, s.log.count k ≤ 11) ∧
      s.log.length ≤ 11 * count := by
  obtain ⟨hi, h⟩ : Inv idempotent count s ∧ Attempted (events.flatMap Event.retries) s := by
    refine hrun.accumulate Event.retries (fun history s => Inv idempotent count s ∧ Attempted history s) ?_
      [] ⟨initial_inv, ?_⟩
    · exact fun history s ev t hs h => ⟨hs.inv h.1, hs.attempted h.1 h.2⟩
    · exact ⟨fun k _ => ⟨rfl, List.not_mem_nil⟩, fun k => le_rfl, fun k => Nat.zero_le _, fun k => Nat.zero_le _⟩
  have hcopies (k : Nat) : s.log.count k ≤ s.attempts k := Nat.le_of_add_right_le (h.copies k)
  have heleven (k : Nat) : s.log.count k ≤ 11 := (hcopies k).trans (h.bound k)
  refine ⟨fun k => (hcopies k).trans (h.attempts k), heleven, ?_⟩
  have hsub : s.log.toFinset ⊆ Finset.range count := fun k hk =>
    Finset.mem_range.mpr (Nat.lt_of_lt_of_le (hi.stored k (List.mem_toFinset.mp hk)) hi.produced)
  calc
    s.log.length = ∑ k ∈ s.log.toFinset, s.log.count k := (List.sum_toFinset_count_eq_length s.log).symm
    _ ≤ s.log.toFinset.card • 11 := Finset.sum_le_card_nsmul _ _ _ fun k _ => heleven k
    _ ≤ 11 * count := by
      rw [smul_eq_mul, Nat.mul_comm]
      exact Nat.mul_le_mul_left 11 ((Finset.card_le_card hsub).trans (Finset.card_range count).le)

theorem copies_bounded_retried : ∃ events s, Run (Step true 1) initial events s ∧
    (∀ k, s.log.count k ≤ 1 + (events.flatMap Event.retries).count k) ∧ (∀ k, s.log.count k ≤ 11) ∧
      s.log.length ≤ 11 * 1 := by
  obtain ⟨events, s, t, hrun, -⟩ := run_retried
  exact ⟨events, s, hrun, copies_bounded hrun⟩

end Shipstream.Simulations.Idempotence
