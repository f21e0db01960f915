import Shipstream.Kafka.Replication
import Shipstream.Transition.Run

/-! simulations/sim_acks_comparison.py: one round against a replicated partition. The
producer thread, the main thread, the replicas and the network take steps in any order. -/
namespace Shipstream.Simulations.AcksComparison
open Kafka Transition

inductive Acks where
  | one
  | all
  deriving DecidableEq, Repr

/-- Where `produce_until_stopped` stands. -/
inductive Thread where
  | testing    -- while not results.get("stop")
  | producing
  | polling    -- p.poll(0)
  | flushing   -- p.flush(timeout=5)
  | returning  -- results["confirmed"] = confirmed
  | ended
  | died
  deriving DecidableEq, Repr

structure Results where
  stop : Bool
  confirmed : Nat
  deriving DecidableEq, Repr

inductive Verdict where
  | lost (gap : Nat)
  | noLoss
  | unreadable
  deriving DecidableEq, Repr

/-- The verdict of `run_round`: `gap = confirmed - hw`. -/
def verdict (confirmed : Nat) : Option Nat → Verdict
  | some hw =>
    let gap := (confirmed : Int) - hw
    if gap > 0 then .lost gap.toNat else .noLoss
  | none => .unreadable

def Verdict.text : Verdict → String
  | .lost gap =>
    "[result] Gap: " ++ toString gap ++ " messages confirmed by producer but LOST on leader crash"
  | .noLoss => "[result] Gap: 0 — no data loss"
  | .unreadable => "[result] Could not read high watermark from surviving broker."

/-- Where `run_round` stands. After the join it holds the count it read, and the
state of the thread at that moment. -/
inductive Main where
  | started
  | killed
  | stopping
  | joined (confirmed : Nat) (thread : Thread)
  | reported (verdict : Verdict)
  deriving DecidableEq, Repr

/-- Messages are numbered by the producer's `i`. `requests` may still reach a leader,
`responses` are successes on their way back, `pending` have no delivery report yet,
and `delivered` had a report without error. -/
structure State (Node : Type) where
  replicas : Replicas Node Nat
  requests : Finset Nat
  responses : Finset Nat
  pending : Finset Nat
  delivered : Finset Nat
  i : Nat
  confirmed : Nat
  thread : Thread
  results : Results
  main : Main

inductive Event (Node : Type) where
  | testStop
  | produce
  | endPoll
  | endFlush
  | handOver
  | die
  | append (m : Nat)
  | replica (ev : ReplicaEvent Node Nat)
  | dropRequest (m : Nat)
  | acknowledge (m : Nat)
  | dropResponse (m : Nat)
  | deliver (m : Nat)
  | deliverError (m : Nat)
  | dockerStop
  | setStop
  | join
  | readHighWatermark
  | readNothing

variable {Node : Type} [DecidableEq Node]

/-- When a leader acknowledges a message it holds. -/
def Acknowledges (r : Replicas Node Nat) (b : Node) (m : Nat) : Acks → Prop
  | .one => m ∈ r.log b
  | .all => r.Replicated m

/-- A round on a topic whose leader, found at the start, runs in the given container.
With retries at 0 a request reaches a log at most once; `t.join` may time out, and a
flush may end with messages pending. -/
inductive Step (acks : Acks) (container : Node) : State Node → Event Node → State Node → Prop where
  | testStop {s : State Node} (ht : s.thread = .testing) :
      Step acks container s .testStop { s with thread := if s.results.stop then .flushing else .producing }
  | produce {s : State Node} (ht : s.thread = .producing) :
      Step acks container s .produce { s with
        requests := insert s.i s.requests, pending := insert s.i s.pending, i := s.i + 1, thread := .polling }
  | endPoll {s : State Node} (ht : s.thread = .polling) :
      Step acks container s .endPoll { s with thread := .testing }
  | endFlush {s : State Node} (ht : s.thread = .flushing) :
      Step acks container s .endFlush { s with thread := .returning }
  | handOver {s : State Node} (ht : s.thread = .returning) :
      Step acks container s .handOver { s with
        results := { s.results with confirmed := s.confirmed }, thread := .ended }
  | die {s : State Node} (ht : s.thread ≠ .ended) :
      Step acks container s .die { s with thread := .died }
  | append {s : State Node} {r : Replicas Node Nat} (m : Nat) (hm : m ∈ s.requests)
      (hr : s.replicas.step (.append m) = some r) :
      Step acks container s (.append m) { s with replicas := r, requests := s.requests.erase m }
  | replica {s : State Node} {r : Replicas Node Nat} (ev : ReplicaEvent Node Nat)
      (hev : ∀ m, ev ≠ .append m) (hr : s.replicas.step ev = some r) :
      Step acks container s (.replica ev) { s with replicas := r }
  | dropRequest {s : State Node} (m : Nat) :
      Step acks container s (.dropRequest m) { s with requests := s.requests.erase m }
  | acknowledge {s : State Node} (m : Nat) (b : Node) (hb : s.replicas.leader = some b)
      (hack : Acknowledges s.replicas b m acks) :
      Step acks container s (.acknowledge m) { s with responses := insert m s.responses }
  | dropResponse {s : State Node} (m : Nat) :
      Step acks container s (.dropResponse m) { s with responses := s.responses.erase m }
  | deliver {s : State Node} (m : Nat) (ht : s.thread = .polling ∨ s.thread = .flushing)
      (hm : m ∈ s.pending) (hr : m ∈ s.responses) :
      Step acks container s (.deliver m) { s with
        pending := s.pending.erase m, delivered := insert m s.delivered, confirmed := s.confirmed + 1 }
  | deliverError {s : State Node} (m : Nat) (ht : s.thread = .polling ∨ s.thread = .flushing)
      (hm : m ∈ s.pending) :
      Step acks container s (.deliverError m) { s with pending := s.pending.erase m }
  | dockerStop {s : State Node} {r : Replicas Node Nat} (hp : s.main = .started)
      (hr : s.replicas.step (.crash container) = some r) :
      Step acks container s .dockerStop { s with replicas := r, main := .killed }
  | setStop {s : State Node} (hp : s.main = .killed) :
      Step acks container s .setStop { s with results := { s.results with stop := true }, main := .stopping }
  | join {s : State Node} (hp : s.main = .stopping) :
      Step acks container s .join { s with main := .joined s.results.confirmed s.thread }
  | readHighWatermark {s : State Node} {confirmed : Nat} {thread : Thread} (b : Node)
      (hp : s.main = .joined confirmed thread) (hb : s.replicas.leader = some b) :
      Step acks container s .readHighWatermark { s with
        main := .reported (verdict confirmed (some (s.replicas.log b).length)) }
  | readNothing {s : State Node} {confirmed : Nat} {thread : Thread} (hp : s.main = .joined confirmed thread) :
      Step acks container s .readNothing { s with main := .reported (verdict confirmed none) }

/-- A created topic: empty logs in sync, and the thread just started. -/
def initial (nodes : Finset Node) (container : Node) : State Node where
  replicas := .initial nodes container
  requests := ∅
  responses := ∅
  pending := ∅
  delivered := ∅
  i := 0
  confirmed := 0
  thread := .testing
  results := ⟨false, 0⟩
  main := .started

/-! Invariants: what is in the logs, what was counted, and what was acknowledged. -/

/-- The logs are valid and hold only messages sent, and a request still under way is in none. -/
structure LogInv (r : Replicas Node Nat) (requests : Finset Nat) (i : Nat) : Prop where
  valid : r.Valid
  requests : ∀ m ∈ requests, m < i ∧ r.Fresh m
  unsent : ∀ m, i ≤ m → r.Fresh m

theorem LogInv.replica {r r' : Replicas Node Nat} {requests : Finset Nat} {i : Nat} (h : LogInv r requests i)
    {ev : ReplicaEvent Node Nat} (hev : ∀ m, ev ≠ .append m) (hr : r.step ev = some r') :
    LogInv r' requests i where
  valid := h.valid.step (by cases ev with
    | append m => exact absurd rfl (hev m)
    | _ => trivial) hr
  requests m hm := ⟨(h.requests m hm).1, (h.requests m hm).2.step (hev m) hr⟩
  unsent m hm := (h.unsent m hm).step (hev m) hr

omit [DecidableEq Node] in
theorem LogInv.erase {r : Replicas Node Nat} {requests : Finset Nat} {i : Nat} (h : LogInv r requests i)
    (m : Nat) : LogInv r (requests.erase m) i :=
  ⟨h.valid, fun _ hm => h.requests _ (Finset.mem_of_mem_erase hm), h.unsent⟩

variable {acks : Acks} {container : Node} {s t : State Node} {ev : Event Node}

theorem Step.logInv (hs : Step acks container s ev t) (h : LogInv s.replicas s.requests s.i) :
    LogInv t.replicas t.requests t.i := by
  cases hs with
  | produce =>
    refine ⟨h.valid, fun m hm => ?_, fun m hm => h.unsent m (Nat.le_of_succ_le hm)⟩
    rcases Finset.mem_insert.mp hm with rfl | hm
    · exact ⟨Nat.lt_succ_self _, h.unsent _ (Nat.le_refl _)⟩
    · exact ⟨Nat.lt_succ_of_lt (h.requests m hm).1, (h.requests m hm).2⟩
  | append m hm hr =>
    have hother {x : Nat} (hx : x ≠ m) : (.append m : ReplicaEvent Node Nat) ≠ .append x := by
      intro he
      cases he
      exact hx rfl
    have hfresh : s.replicas.EventFresh (.append m) := (h.requests m hm).2
    refine ⟨h.valid.step hfresh hr, fun x hx => ?_, fun x (hx : s.i ≤ x) => ?_⟩
    · obtain ⟨hne, hx⟩ := Finset.mem_erase.mp hx
      exact ⟨(h.requests x hx).1, (h.requests x hx).2.step (hother hne) hr⟩
    · refine (h.unsent x hx).step (hother ?_) hr
      have := (h.requests m hm).1
      omega
  | replica ev hev hr => exact h.replica hev hr
  | dropRequest m => exact h.erase m
  | dockerStop _ hr => exact h.replica (by simp) hr
  | _ => exact h

/-- The thread's counter counts the deliveries, and reaches `results` only when the thread ends. -/
structure CountInv (s : State Node) : Prop where
  pending : ∀ m ∈ s.pending, m < s.i
  delivered : ∀ m ∈ s.delivered, m < s.i ∧ m ∉ s.pending
  counted : s.confirmed = s.delivered.card
  handedOver : s.results.confirmed = if s.thread = .ended then s.confirmed else 0
  joined : ∀ confirmed thread, s.main = .joined confirmed thread →
    if thread = .ended then s.thread = .ended ∧ confirmed = s.confirmed else confirmed = 0

omit [DecidableEq Node] in
/-- A thread that has not ended moves on without handing over. -/
theorem CountInv.moveThread (h : CountInv s) {thread : Thread} (hs : s.thread ≠ .ended)
    (ht : thread ≠ .ended) : CountInv { s with thread := thread } where
  pending := h.pending
  delivered := h.delivered
  counted := h.counted
  handedOver := by simpa only [if_neg hs, if_neg ht] using h.handedOver
  joined confirmed th hmain := by
    have := h.joined confirmed th hmain
    split at this
    · exact absurd this.1 hs
    · next hth => rwa [if_neg hth]

omit [DecidableEq Node] in
theorem CountInv.handOver (h : CountInv s) (hs : s.thread ≠ .ended) :
    CountInv { s with results := { s.results with confirmed := s.confirmed }, thread := .ended } where
  pending := h.pending
  delivered := h.delivered
  counted := h.counted
  handedOver := (if_pos rfl).symm
  joined confirmed th hmain := by
    have := h.joined confirmed th hmain
    split at this
    · exact absurd this.1 hs
    · next hth => rwa [if_neg hth]

omit [DecidableEq Node] in
/-- A delivery report is counted once: its message leaves the pending ones. -/
theorem CountInv.deliver (h : CountInv s) {m : Nat} (hs : s.thread ≠ .ended) (hm : m ∈ s.pending) :
    CountInv { s with
      pending := s.pending.erase m, delivered := insert m s.delivered, confirmed := s.confirmed + 1 } where
  pending x hx := h.pending x (Finset.mem_of_mem_erase hx)
  delivered x hx := by
    rcases Finset.mem_insert.mp hx with rfl | hx
    · exact ⟨h.pending _ hm, Finset.notMem_erase _ _⟩
    · exact ⟨(h.delivered x hx).1, fun hin => (h.delivered x hx).2 (Finset.mem_of_mem_erase hin)⟩
  counted := by
    have hnot : m ∉ s.delivered := fun hin => (h.delivered m hin).2 hm
    rw [Finset.card_insert_of_notMem hnot, ← h.counted]
  handedOver := by simpa only [if_neg hs] using h.handedOver
  joined confirmed th hmain := by
    have := h.joined confirmed th hmain
    split at this
    · exact absurd this.1 hs
    · next hth => rwa [if_neg hth]

theorem Step.countInv (hs : Step acks container s ev t) (h : CountInv s) : CountInv t := by
  cases hs with
  | testStop ht =>
    apply h.moveThread (by simp [ht])
    split <;> simp
  | produce ht =>
    have hmoved : CountInv { s with thread := .polling } := h.moveThread (by simp [ht]) (by simp)
    refine ⟨fun m hm => ?_, fun m hm => ⟨?_, fun hin => ?_⟩, h.counted, hmoved.handedOver, hmoved.joined⟩
    · rcases Finset.mem_insert.mp hm with rfl | hm
      · exact Nat.lt_succ_self _
      · exact Nat.lt_succ_of_lt (h.pending m hm)
    · exact Nat.lt_succ_of_lt (h.delivered m hm).1
    · rcases Finset.mem_insert.mp hin with rfl | hin
      · exact Nat.lt_irrefl _ (h.delivered _ hm).1
      · exact (h.delivered m hm).2 hin
  | endPoll ht => exact h.moveThread (by simp [ht]) (by simp)
  | endFlush ht => exact h.moveThread (by simp [ht]) (by simp)
  | handOver ht => exact h.handOver (by simp [ht])
  | die ht => exact h.moveThread ht (by simp)
  | deliver m ht hm => exact h.deliver (by rcases ht with ht | ht <;> simp [ht]) hm
  | deliverError m ht hm =>
    refine ⟨fun x hx => h.pending x (Finset.mem_of_mem_erase hx), fun x hx => ⟨(h.delivered x hx).1, fun hin => ?_⟩,
      h.counted, h.handedOver, h.joined⟩
    exact (h.delivered x hx).2 (Finset.mem_of_mem_erase hin)
  | dockerStop | setStop | readHighWatermark | readNothing =>
    exact ⟨h.pending, h.delivered, h.counted, h.handedOver, nofun⟩
  | join hp =>
    refine ⟨h.pending, h.delivered, h.counted, h.handedOver, fun confirmed thread hmain => ?_⟩
    cases hmain
    have := h.handedOver
    split
    · next ht =>
      rw [if_pos ht] at this
      exact ⟨ht, this⟩
    · next ht => rwa [if_neg ht] at this
  | append | replica | dropRequest | acknowledge | dropResponse =>
    exact ⟨h.pending, h.delivered, h.counted, h.handedOver, h.joined⟩

/-- With acks=all whatever was acknowledged is on every in-sync replica. -/
def AckInv (acks : Acks) (r : Replicas Node Nat) (responses delivered : Finset Nat) : Prop :=
  acks = .all → ∀ m, m ∈ responses ∨ m ∈ delivered → r.Replicated m

theorem AckInv.replica {r r' : Replicas Node Nat} {responses delivered : Finset Nat}
    (h : AckInv acks r responses delivered) (hv : r.Valid) {ev : ReplicaEvent Node Nat}
    (hr : r.step ev = some r') : AckInv acks r' responses delivered :=
  fun hall m hm => (h hall m hm).step hv hr

theorem Step.ackInv (hs : Step acks container s ev t) (hlog : LogInv s.replicas s.requests s.i)
    (h : AckInv acks s.replicas s.responses s.delivered) : AckInv acks t.replicas t.responses t.delivered := by
  cases hs with
  | append m hm hr => exact h.replica hlog.valid hr
  | replica ev hev hr => exact h.replica hlog.valid hr
  | dockerStop _ hr => exact h.replica hlog.valid hr
  | acknowledge m b hb hack =>
    intro hall x hx
    subst hall
    rcases hx with hx | hx
    · rcases Finset.mem_insert.mp hx with rfl | hx
      · exact hack
      · exact h rfl x (.inl hx)
    · exact h rfl x (.inr hx)
  | dropResponse m =>
    exact fun hall x hx => h hall x (hx.imp_left Finset.mem_of_mem_erase)
  | deliver m ht hm hr =>
    intro hall x hx
    rcases hx with hx | hx
    · exact h hall x (.inl hx)
    · rcases Finset.mem_insert.mp hx with rfl | hx
      · exact h hall _ (.inl hr)
      · exact h hall x (.inr hx)
  | _ => exact h

structure Inv (acks : Acks) (s : State Node) : Prop where
  log : LogInv s.replicas s.requests s.i
  count : CountInv s
  ack : AckInv acks s.replicas s.responses s.delivered

omit [DecidableEq Node] in
theorem initial_inv {nodes : Finset Node} (hc : container ∈ nodes) :
    Inv acks (initial nodes container) where
  log := ⟨Replicas.initial_valid hc, by simp [initial], fun m _ b => by simp [initial, Replicas.initial]⟩
  count := ⟨by simp [initial], by simp [initial], rfl, rfl, by simp [initial]⟩
  ack := fun _ m hm => by simp [initial] at hm

theorem Step.inv (hs : Step acks container s ev t) (h : Inv acks s) : Inv acks t :=
  ⟨hs.logInv h.log, hs.countInv h.count, hs.ackInv h.log h.ack⟩

/-! The verdict. -/

/-- The messages in the log of the surviving leader. -/
def State.stored (s : State Node) : Finset Nat :=
  match s.replicas.leader with
  | some b => (s.replicas.log b).toFinset
  | none => ∅

/-- What the printed verdict should say of the delivered messages and the stored ones. -/
def Exact (delivered stored : Finset Nat) (v : Verdict) : Prop :=
  (0 < (delivered \ stored).card → v = .lost (delivered \ stored).card) ∧ (v = .noLoss → delivered ⊆ stored)

/-- `run_round` read the count of a thread that had handed it over. -/
def State.HandedOver (s : State Node) : Prop := ∃ confirmed, s.main = .joined confirmed .ended

omit [DecidableEq Node] in
/-- Subtracting the watermark from the count is exact when no delivered message is
missing, or when the count is complete and no stored message is undelivered. -/
theorem exact_verdict_iff {delivered stored : Finset Nat} {handedOver : Prop} {confirmed : Nat}
    (hyes : handedOver → confirmed = delivered.card) (hno : ¬ handedOver → confirmed = 0) :
    Exact delivered stored (verdict confirmed (some stored.card)) ↔
      delivered ⊆ stored ∨ (handedOver ∧ stored ⊆ delivered) := by
  have hlost : (delivered \ stored).card + (delivered ∩ stored).card = delivered.card :=
    Finset.card_sdiff_add_card_inter _ _
  have hextra : (stored \ delivered).card + (stored ∩ delivered).card = stored.card :=
    Finset.card_sdiff_add_card_inter _ _
  rw [Finset.inter_comm] at hextra
  have hsub : delivered ⊆ stored ↔ (delivered \ stored).card = 0 := by
    rw [Finset.card_eq_zero, Finset.sdiff_eq_empty_iff_subset]
  have hsup : stored ⊆ delivered ↔ (stored \ delivered).card = 0 := by
    rw [Finset.card_eq_zero, Finset.sdiff_eq_empty_iff_subset]
  rw [Exact, hsub, hsup]
  generalize (delivered \ stored).card = lost at hlost ⊢
  generalize (stored \ delivered).card = extra at hextra ⊢
  by_cases hh : handedOver
  · have hcount := hyes hh
    simp only [verdict, hh, true_and]
    split
    · simp only [Verdict.lost.injEq, reduceCtorEq, false_implies, and_true]
      omega
    · simp only [reduceCtorEq, imp_false, true_implies]
      omega
  · have hcount := hno hh
    simp only [verdict, hh, false_and, or_false]
    rw [if_neg (by omega)]
    simp only [reduceCtorEq, imp_false, true_implies]
    omega

/-- In every run the verdict on a watermark that was read is exact if and only if no
delivered message is missing from the surviving log, or the thread handed its count
over in time and no stored message is undelivered. With acks=all none is ever missing. -/
theorem gap_exact_iff {nodes : Finset Node} (hc : container ∈ nodes) {events : List (Event Node)}
    (hrun : Run (Step acks container) (initial nodes container) events s)
    (hread : Step acks container s .readHighWatermark t) :
    (∃ v, t.main = .reported v ∧
      (Exact s.delivered s.stored v ↔
        s.delivered ⊆ s.stored ∨ (s.HandedOver ∧ s.stored ⊆ s.delivered))) ∧
      (acks = .all → s.delivered ⊆ s.stored) := by
  have hinv : Inv acks s := hrun.invariant _ (fun _ _ _ => Step.inv) (initial_inv hc)
  cases hread with
  | @readHighWatermark confirmed thread b hp hb =>
    have hstored : s.stored = (s.replicas.log b).toFinset := by rw [State.stored, hb]
    have hcard : (s.replicas.log b).length = s.stored.card := by
      rw [hstored, List.toFinset_card_of_nodup (hinv.log.valid.nodup b)]
    refine ⟨⟨_, rfl, ?_⟩, fun hall m hm => ?_⟩
    · rw [hcard]
      have hjoined := hinv.count.joined confirmed thread hp
      refine exact_verdict_iff (fun ⟨c, hover⟩ => ?_) fun hnot => ?_
      · cases hp.symm.trans hover
        rw [if_pos rfl] at hjoined
        exact hjoined.2.trans hinv.count.counted
      · rwa [if_neg fun hth => hnot ⟨confirmed, by rw [hp, hth]⟩] at hjoined
    · rw [hstored, List.mem_toFinset]
      exact hinv.ack hall m (.inr hm) b (hinv.log.valid.leader b hb).1

/-- A run with acks=1: message 0 is acknowledged and lost with the leader, message 1
is stored by the next leader but never reported. -/
theorem run_loss_and_leftover : ∃ events s t,
    Run (Step .one 0) (initial (Finset.univ : Finset (Fin 3)) 0) events s ∧ Step .one 0 s .readHighWatermark t ∧
      t.main = .reported .noLoss ∧ s.delivered = {0} ∧ s.stored = {1} :=
  ⟨_, _, _,
    .cons (.testStop rfl) <| .cons (.produce rfl) <| .cons (.append 0 (by decide) rfl) <|
    .cons (.acknowledge 0 0 rfl (by decide : 0 ∈ [0])) <|
    .cons (.deliver 0 (.inl rfl) (by decide) (by decide)) <| .cons (.endPoll rfl) <|
    .cons (.dockerStop rfl rfl) <| .cons (.replica (.elect 1) (by simp) rfl) <|
    .cons (.testStop rfl) <| .cons (.produce rfl) <| .cons (.append 1 (by decide) rfl) <|
    .cons (.endPoll rfl) <| .cons (.setStop rfl) <| .cons (.testStop rfl) <| .cons (.endFlush rfl) <|
    .cons (.handOver rfl) <| .cons (.join rfl) <| .nil _,
    .readHighWatermark 1 rfl rfl, rfl, by decide, by decide⟩

/-- The lost message and the stored but unreported one cancel out: "Gap: 0 — no data loss". -/
theorem gap_not_exact : ¬ ∀ (events : List (Event (Fin 3))) (s t : State (Fin 3)) (v : Verdict),
    Run (Step .one 0) (initial Finset.univ 0) events s → Step .one 0 s .readHighWatermark t →
      t.main = .reported v → Exact s.delivered s.stored v := by
  intro h
  obtain ⟨events, s, t, hrun, hread, hmain, hdelivered, hstored⟩ := run_loss_and_leftover
  have hsub := (h events s t .noLoss hrun hread hmain).2 rfl
  rw [hdelivered, hstored] at hsub
  exact absurd hsub (by decide)

theorem gap_exact_iff_loss_and_leftover : ∃ events s t,
    Run (Step .one 0) (initial (Finset.univ : Finset (Fin 3)) 0) events s ∧ Step .one 0 s .readHighWatermark t ∧
      (∃ v, t.main = .reported v ∧
        (Exact s.delivered s.stored v ↔
          s.delivered ⊆ s.stored ∨ (s.HandedOver ∧ s.stored ⊆ s.delivered))) ∧
      (Acks.one = .all → s.delivered ⊆ s.stored) := by
  obtain ⟨events, s, t, hrun, hread, -⟩ := run_loss_and_leftover
  exact ⟨events, s, t, hrun, hread, gap_exact_iff (Finset.mem_univ 0) hrun hread⟩

end Shipstream.Simulations.AcksComparison
