import Shipstream.Transition.Run

/-! simulations/sim_idempotence.py: requests, acknowledgements and retries of one round,
against a broker that may or may not drop repeated sequence numbers. -/
namespace Shipstream.Simulations.Idempotence
open Transition

inductive Verdict where
  | duplicates (surplus : Nat)
  | exactly
  | fewer
  | unread
  deriving DecidableEq, Repr

/-- The verdict of `run_round`: `duplicates = hw - COUNT`. -/
def verdict (count : Nat) : Option Nat → Verdict
  | some hw =>
    let duplicates := (hw : Int) - count
    if duplicates > 0 then .duplicates duplicates.toNat
    else if duplicates = 0 then .exactly
    else .fewer
  | none => .unread

/-- What is printed after the three result lines; nothing when no watermark was read. -/
def Verdict.text (count hw : Nat) : Verdict → String
  | .duplicates surplus =>
    "\n[result] Duplicates: " ++ toString surplus ++ "\n         " ++ toString hw ++ " messages on disk for " ++
      toString count ++ " logical messages.\n" ++
      "         Retries re-wrote messages the broker had already committed.\n"
  | .exactly =>
    "\n[result] Duplicates: 0\n         Exactly " ++ toString count ++ " messages on disk. Retries were silently\n" ++
      "         discarded by the broker using (PID, sequence) deduplication.\n"
  | .fewer => "\n[result] " ++ toString hw ++ " messages on disk (some messages may have been lost).\n"
  | .unread => ""

/-- `"retries": "10"`. -/
def retries : Nat := 10

inductive Main where
  | producing
  | settling
  | reported (verdict : Verdict)
  deriving DecidableEq, Repr

/-- Message `k` carries key `msg-k` and sequence number `k`. `requests` counts the copies
under way; a message stays `pending` until its delivery report. -/
structure State where
  produced : Nat
  attempts : Nat → Nat
  requests : Nat → Nat
  responses : Finset Nat
  pending : Finset Nat
  log : List Nat
  confirmed : Nat
  errors : Nat
  main : Main

inductive Event where
  | produce
  | retry (k : Nat)
  | arrive (k : Nat)
  | dropRequest (k : Nat)
  | dropResponse (k : Nat)
  | report (k : Nat)
  | giveUp (k : Nat)
  | endFlush
  | readHighWatermark
  | readNothing
  deriving DecidableEq, Repr

/-- The broker on an arriving request. -/
def store (idempotent : Bool) (log : List Nat) (k : Nat) : List Nat :=
  if idempotent && log.contains k then log else log ++ [k]

/-- A round over `count` messages. A message is sent at most once more than `retries`,
each copy and each acknowledgement may be lost or come late, and `message.timeout.ms` or
the end of the flush may give a message up at any time. -/
inductive Step (idempotent : Bool) (count : Nat) : State → Event → State → Prop where
  | produce {s : State} (hp : s.main = .producing) (hk : s.produced < count) :
      Step idempotent count s .produce { s with
        produced := s.produced + 1
        attempts := Function.update s.attempts s.produced 1
        requests := Function.update s.requests s.produced 1
        pending := insert s.produced s.pending }
  | retry {s : State} (k : Nat) (hk : k ∈ s.pending) (hr : s.attempts k ≤ retries) :
      Step idempotent count s (.retry k) { s with
        attempts := Function.update s.attempts k (s.attempts k + 1)
        requests := Function.update s.requests k (s.requests k + 1) }
  | arrive {s : State} (k : Nat) (hk : 0 < s.requests k) :
      Step idempotent count s (.arrive k) { s with
        requests := Function.update s.requests k (s.requests k - 1)
        responses := insert k s.responses
        log := store idempotent s.log k }
  | dropRequest {s : State} (k : Nat) :
      Step idempotent count s (.dropRequest k) { s with
        requests := Function.update s.requests k (s.requests k - 1) }
  | dropResponse {s : State} (k : Nat) :
      Step idempotent count s (.dropResponse k) { s with responses := s.responses.erase k }
  | report {s : State} (k : Nat) (hp : s.main = .producing) (hk : k ∈ s.pending) (hr : k ∈ s.responses) :
      Step idempotent count s (.report k) { s with
        pending := s.pending.erase k, confirmed := s.confirmed + 1 }
  | giveUp {s : State} (k : Nat) (hp : s.main = .producing) (hk : k ∈ s.pending) :
      Step idempotent count s (.giveUp k) { s with pending := s.pending.erase k, errors := s.errors + 1 }
  | endFlush {s : State} (hp : s.main = .producing) (hk : s.produced = count) :
      Step idempotent count s .endFlush { s with main := .settling }
  | readHighWatermark {s : State} (hp : s.main = .settling) :
      Step idempotent count s .readHighWatermark { s with main := .reported (verdict count (some s.log.length)) }
  | readNothing {s : State} (hp : s.main = .settling) :
      Step idempotent count s .readNothing { s with main := .reported (verdict count none) }

def initial : State := ⟨0, fun _ => 0, fun _ => 0, ∅, ∅, [], 0, 0, .producing⟩

/-- Only produced messages are sent, pending or stored, and a deduplicating broker stores each once. -/
structure Inv (idempotent : Bool) (count : Nat) (s : State) : Prop where
  produced : s.produced ≤ count
  sent : ∀ k, 0 < s.requests k → k < s.produced
  pending : ∀ k ∈ s.pending, k < s.produced
  stored : ∀ k ∈ s.log, k < s.produced
  once : idempotent = true → s.log.Nodup

private theorem mem_store {idempotent : Bool} {log : List Nat} {k x : Nat} (h : x ∈ store idempotent log k) :
    x ∈ log ∨ x = k := by
  unfold store at h
  split at h
  · exact .inl h
  · exact (List.mem_append.mp h).imp_right List.mem_singleton.mp

private theorem store_nodup {log : List Nat} (k : Nat) (h : log.Nodup) : (store true log k).Nodup := by
  unfold store
  split
  · exact h
  · next hk =>
    have hnot : k ∉ log := by simpa using hk
    exact List.nodup_append_comm.mp (List.nodup_cons.mpr ⟨hnot, h⟩ : ([k] ++ log).Nodup)

variable {idempotent : Bool} {count : Nat} {s t : State} {ev : Event}

theorem Inv.request (h : Inv idempotent count s) {k n : Nat} (hk : 0 < n → k < s.produced) (x : Nat)
    (hx : 0 < Function.update s.requests k n x) : x < s.produced := by
  by_cases he : x = k
  · subst he
    rw [Function.update_self] at hx
    exact hk hx
  · rw [Function.update_of_ne he] at hx
    exact h.sent x hx

theorem Step.inv (hs : Step idempotent count s ev t) (h : Inv idempotent count s) : Inv idempotent count t := by
  cases hs with
  | produce hp hk =>
    refine ⟨hk, fun x hx => ?_, fun x hx => ?_, fun x hx => Nat.lt_succ_of_lt (h.stored x hx), h.once⟩
    · by_cases he : x = s.produced
      · exact he ▸ Nat.lt_succ_self _
      · simp only [Function.update_of_ne he] at hx
        exact Nat.lt_succ_of_lt (h.sent x hx)
    · rcases Finset.mem_insert.mp hx with rfl | hx
      · exact Nat.lt_succ_self _
      · exact Nat.lt_succ_of_lt (h.pending x hx)
  | retry k hk =>
    exact ⟨h.produced, h.request fun _ => h.pending k hk, h.pending, h.stored, h.once⟩
  | arrive k hk =>
    have hkp := h.sent k hk
    refine ⟨h.produced, h.request fun _ => hkp, h.pending, fun x hx => ?_, fun hid => ?_⟩
    · rcases mem_store hx with hx | rfl
      · exact h.stored x hx
      · exact hkp
    · subst hid
      exact store_nodup k (h.once rfl)
  | dropRequest k =>
    exact ⟨h.produced, h.request fun hpos => h.sent k (by omega), h.pending, h.stored, h.once⟩
  | report | giveUp =>
    exact ⟨h.produced, h.sent, fun x hx => h.pending x (Finset.mem_of_mem_erase hx), h.stored, h.once⟩
  | dropResponse | endFlush | readHighWatermark | readNothing =>
    exact ⟨h.produced, h.sent, h.pending, h.stored, h.once⟩

theorem initial_inv : Inv idempotent count initial :=
  ⟨Nat.zero_le _, by simp [initial], by simp [initial], by simp [initial], fun _ => List.nodup_nil⟩

/-! Counting copies. -/

/-- The surplus copies of a log: over its keys, the copies beyond the first. -/
def surplus (log : List Nat) : Nat := ∑ k ∈ log.toFinset, (log.count k - 1)

/-- The keys of a round that are in no copy. -/
def missing (count : Nat) (log : List Nat) : Finset Nat := Finset.range count \ log.toFinset

private theorem length_eq_card_add_surplus (log : List Nat) : log.length = log.toFinset.card + surplus log := by
  have hcount : ∀ k ∈ log.toFinset, log.count k = 1 + (log.count k - 1) := fun k hk => by
    have := List.count_pos_iff.mpr (List.mem_toFinset.mp hk)
    omega
  calc
    log.length = ∑ k ∈ log.toFinset, log.count k := (List.sum_toFinset_count_eq_length log).symm
    _ = ∑ k ∈ log.toFinset, (1 + (log.count k - 1)) := Finset.sum_congr rfl hcount
    _ = log.toFinset.card + surplus log := by
      rw [Finset.sum_add_distrib, Finset.sum_const, smul_eq_mul, mul_one, surplus]

/-- The watermark differs from COUNT by the surplus copies and the missing keys together. -/
theorem length_add_missing {log : List Nat} (h : ∀ k ∈ log, k < count) :
    log.length + (missing count log).card = count + surplus log := by
  have hsub : log.toFinset ⊆ Finset.range count := fun k hk =>
    Finset.mem_range.mpr (h k (List.mem_toFinset.mp hk))
  have hcard := Finset.card_sdiff_add_card_eq_card hsub
  rw [Finset.card_range] at hcard
  rw [length_eq_card_add_surplus, missing]
  omega

theorem surplus_eq_zero_of_nodup {log : List Nat} (h : log.Nodup) : surplus log = 0 := by
  have := length_eq_card_add_surplus log
  rw [List.toFinset_card_of_nodup h] at this
  omega

theorem missing_card_eq_zero {log : List Nat} : (missing count log).card = 0 ↔ ∀ k < count, k ∈ log := by
  rw [Finset.card_eq_zero, missing, Finset.sdiff_eq_empty_iff_subset]
  constructor
  · exact fun h k hk => List.mem_toFinset.mp (h (Finset.mem_range.mpr hk))
  · exact fun h k hk => List.mem_toFinset.mpr (h k (Finset.mem_range.mp hk))

private theorem count_eq_one {log : List Nat} (hs : surplus log = 0) {k : Nat} (hk : k ∈ log) : log.count k = 1 := by
  have hzero := Finset.sum_eq_zero_iff.mp hs k (List.mem_toFinset.mpr hk)
  have := List.count_pos_iff.mpr hk
  omega

/-- What the printed verdict should say of the final log. -/
def Exact (count : Nat) (log : List Nat) (v : Verdict) : Prop :=
  (∀ d, 0 < d → (v = .duplicates d ↔ surplus log = d)) ∧ (v = .exactly → ∀ k < count, log.count k = 1)

/-- The difference is exact when no key is missing or no copy is surplus. -/
theorem exact_verdict_iff {log : List Nat} (h : ∀ k ∈ log, k < count) :
    Exact count log (verdict count (some log.length)) ↔ (∀ k < count, k ∈ log) ∨ surplus log = 0 := by
  have hlen := length_add_missing h
  rw [← missing_card_eq_zero]
  constructor
  · intro hexact
    by_contra hne
    push Not at hne
    have hduplicates := (hexact.1 (surplus log) (by omega)).mpr rfl
    simp only [verdict] at hduplicates
    split at hduplicates
    · simp only [Verdict.duplicates.injEq] at hduplicates
      omega
    · split at hduplicates <;> cases hduplicates
  · intro hcase
    refine ⟨fun d hd => ?_, fun hexactly k hk => ?_⟩
    · simp only [verdict]
      split
      · simp only [Verdict.duplicates.injEq]
        omega
      · split <;> simp only [reduceCtorEq, false_iff] <;> omega
    · have heq : (log.length : Int) - count = 0 := by
        simp only [verdict] at hexactly
        split at hexactly
        · cases hexactly
        · split at hexactly
          · assumption
          · cases hexactly
      have hnone : (missing count log).card = 0 := by omega
      exact count_eq_one (by omega) (missing_card_eq_zero.mp hnone k hk)

/-- In every run the verdict on a watermark that was read is exact if and only if no key
is missing from the log or no key has a surplus copy; with idempotence no key ever has one. -/
theorem duplicates_exact_iff {events : List Event} (hrun : Run (Step idempotent count) initial events s)
    (hread : Step idempotent count s .readHighWatermark t) :
    (∃ v, t.main = .reported v ∧ (Exact count s.log v ↔ (∀ k < count, k ∈ s.log) ∨ surplus s.log = 0)) ∧
      (idempotent = true → surplus s.log = 0) := by
  have hinv : Inv idempotent count s := hrun.invariant _ (fun _ _ _ => Step.inv) initial_inv
  cases hread with
  | readHighWatermark hp =>
    refine ⟨⟨_, rfl, exact_verdict_iff fun k hk => ?_⟩, fun hid => surplus_eq_zero_of_nodup (hinv.once hid)⟩
    exact Nat.lt_of_lt_of_le (hinv.stored k hk) hinv.produced

/-- A round without idempotence whose first messages are all stored once. -/
theorem run_range {n : Nat} (hn : n ≤ count) : ∃ events s, Run (Step false count) initial events s ∧
    s.main = .producing ∧ s.produced = n ∧ s.log = List.range n := by
  induction n with
  | zero => exact ⟨[], initial, .nil _, rfl, rfl, rfl⟩
  | succ n ih =>
    obtain ⟨events, s, hrun, hmain, rfl, hlog⟩ := ih (by omega)
    refine ⟨_, _, hrun.append (.cons (.produce hmain (by omega)) (.cons (.arrive s.produced ?_) (.nil _))),
      hmain, rfl, ?_⟩
    · simp
    · rw [List.range_succ, ← hlog]
      rfl

/-- Fifty messages: the last but one is stored twice, the last is lost. -/
theorem run_duplicate_and_loss : ∃ events s t,
    Run (Step false 50) initial events s ∧ Step false 50 s .readHighWatermark t ∧
      t.main = .reported .exactly ∧ s.log = List.range 48 ++ [48] ++ [48] := by
  obtain ⟨events, s, hrun, hmain, hproduced, hlog⟩ := run_range (show 48 ≤ 50 by omega)
  refine ⟨_, _, _, hrun.append <| .cons (.produce hmain (by omega)) <| .cons (.retry 48 ?_ ?_) <|
    .cons (.arrive 48 ?_) <| .cons (.arrive 48 ?_) <| .cons (.produce hmain ?_) <| .cons (.dropRequest 49) <|
    .cons (.giveUp 49 hmain ?_) <| .cons (.endFlush hmain ?_) <| .nil _, .readHighWatermark rfl, ?_, ?_⟩
  all_goals simp [hproduced, hlog, retries, store, verdict]

/-- The duplicate and the loss cancel out: "Duplicates: 0, exactly 50 messages on disk". -/
theorem duplicates_not_exact : ¬ ∀ (events : List Event) (s t : State) (v : Verdict),
    Run (Step false 50) initial events s → Step false 50 s .readHighWatermark t →
      t.main = .reported v → Exact 50 s.log v := by
  intro h
  obtain ⟨events, s, t, hrun, hread, hmain, hlog⟩ := run_duplicate_and_loss
  have hlost := (h events s t .exactly hrun hread hmain).2 rfl 49 (by omega)
  rw [hlog] at hlost
  exact absurd hlost (by decide)

theorem duplicates_exact_iff_duplicate_and_loss : ∃ events s t,
    Run (Step false 50) initial events s ∧ Step false 50 s .readHighWatermark t ∧
      (∃ v, t.main = .reported v ∧ (Exact 50 s.log v ↔ (∀ k < 50, k ∈ s.log) ∨ surplus s.log = 0)) ∧
      (false = true → surplus s.log = 0) := by
  obtain ⟨events, s, t, hrun, hread, -⟩ := run_duplicate_and_loss
  exact ⟨events, s, t, hrun, hread, duplicates_exact_iff hrun hread⟩

end Shipstream.Simulations.Idempotence
