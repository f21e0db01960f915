import Shipstream.Python.Text
import Shipstream.Transition.Run

/-! simulations/sim_partition_ceiling.py: the consumer threads of one round, their group
coordinator, and the assignment log they share. -/
namespace Shipstream.Simulations.PartitionCeiling
open Transition
open Python (leftAligned)

/-- Where `run_consumer` stands: in its loop, past it, or after `c.close()`. -/
inductive Thread where
  | polling
  | leaving
  | closed
  deriving DecidableEq, Repr

inductive Main where
  | observing
  | joining
  | returned
  deriving DecidableEq, Repr

/-- The group of a round. A member is pending until it has handled its latest assignment;
`log` is `assignment_log` and `counters` counts consumed messages. -/
structure Round where
  thread : Nat → Thread
  members : Finset Nat
  owner : Nat → Option Nat
  pending : Finset Nat
  log : Nat → Option (List Nat)
  counters : Nat → Nat
  stop : Bool
  main : Main

inductive Event where
  | joinGroup (c : Nat)
  | rebalance (owner : Nat → Option Nat)
  | onAssign (c : Nat)
  | message (c : Nat)
  | setStop
  | noticeStop (c : Nat)
  | close (c : Nat)
  | join

/-- The partitions the coordinator gives a consumer. -/
def assigned (partitions : Nat) (owner : Nat → Option Nat) (c : Nat) : List Nat :=
  (List.range partitions).filter fun p => owner p = some c

/-- `run_round(partitions, num_consumers)`. A rebalance gives each partition to one member;
`on_assign` runs in a later poll of the member, and `t.join` may time out. -/
inductive Step (partitions numConsumers : Nat) : Round → Event → Round → Prop where
  | joinGroup {s : Round} (c : Nat) (hc : c < numConsumers) (ht : s.thread c = .polling) (hm : c ∉ s.members) :
      Step partitions numConsumers s (.joinGroup c) { s with members := insert c s.members }
  | rebalance {s : Round} (owner : Nat → Option Nat)
      (howner : ∀ p < partitions, ∃ c ∈ s.members, owner p = some c) :
      Step partitions numConsumers s (.rebalance owner) { s with owner := owner, pending := s.members }
  | onAssign {s : Round} (c : Nat) (ht : s.thread c = .polling) (hp : c ∈ s.pending) :
      Step partitions numConsumers s (.onAssign c) { s with
        log := Function.update s.log c (some (assigned partitions s.owner c))
        pending := s.pending.erase c }
  | message {s : Round} (c : Nat) (ht : s.thread c = .polling) (hm : c ∈ s.members) :
      Step partitions numConsumers s (.message c) { s with
        counters := Function.update s.counters c (s.counters c + 1) }
  | setStop {s : Round} (hp : s.main = .observing) :
      Step partitions numConsumers s .setStop { s with stop := true, main := .joining }
  | noticeStop {s : Round} (c : Nat) (ht : s.thread c = .polling) (hs : s.stop = true) :
      Step partitions numConsumers s (.noticeStop c) { s with thread := Function.update s.thread c .leaving }
  | close {s : Round} (c : Nat) (ht : s.thread c = .leaving) :
      Step partitions numConsumers s (.close c) { s with
        thread := Function.update s.thread c .closed
        members := s.members.erase c
        pending := s.pending.erase c }
  | join {s : Round} (hp : s.main = .joining) : Step partitions numConsumers s .join { s with main := .returned }

def initial : Round where
  thread _ := .polling
  members := ∅
  owner _ := none
  pending := ∅
  log _ := none
  counters _ := 0
  stop := false
  main := .observing

/-! The report. -/

/-- `assignment_log.get(c, [])`. -/
def listed (log : Nat → Option (List Nat)) (c : Nat) : List Nat := (log c).getD []

/-- `Consumers running`: the largest consumer that counted a message, or 4. -/
def consumersRunning (numConsumers : Nat) (counters : Nat → Nat) : Nat :=
  match ((List.range numConsumers).filter fun c => 0 < counters c).getLast? with
  | some c => c + 1
  | none => 4

/-- The consumers of the report with a partition; the report always has four rows. -/
def active (log : Nat → Option (List Nat)) : Nat := (List.range 4).countP fun c => listed log c ≠ []

/-- `status` of a row. -/
def status : List Nat → String
  | [] => "IDLE — no partition assigned"
  | p :: ps => toString ((p :: ps).mergeSort (· ≤ ·))

def rowText (log : Nat → Option (List Nat)) (counters : Nat → Nat) (c : Nat) : String :=
  "  consumer-" ++ leftAligned 3 (toString c) ++ "  " ++ leftAligned 28 (status (listed log c)) ++ " " ++
    toString (counters c)

/-- The lines of `summarise_round` above the rows. -/
def reportHead (partitions numConsumers : Nat) (counters : Nat → Nat) : List String :=
  ["\n  Topic partitions : " ++ toString partitions,
    "  Consumers running: " ++ toString (consumersRunning numConsumers counters), "",
    "  " ++ leftAligned 12 "Consumer" ++ " " ++ leftAligned 28 "Assigned partitions" ++ " Messages consumed",
    "  " ++ String.ofList (List.replicate 12 '-') ++ " " ++ String.ofList (List.replicate 28 '-') ++ " " ++
      String.ofList (List.replicate 17 '-')]

/-- The lines below them. -/
def reportFoot (partitions : Nat) (log : Nat → Option (List Nat)) : List String :=
  ["\n  Active: " ++ toString (active log) ++ "   Idle: " ++ toString (4 - active log),
    "  → Partition count (" ++ toString partitions ++ ") is the hard ceiling on parallelism."]

/-- `summarise_round`, without the section title. -/
def summariseRound (partitions numConsumers : Nat) (counters : Nat → Nat) (log : Nat → Option (List Nat)) :
    List String :=
  reportHead partitions numConsumers counters ++ (List.range 4).map (rowText log counters) ++
    reportFoot partitions log

/-- The line contains the word of an idle row. -/
def saysIdle (line : String) : Bool := "IDLE".toList <:+: line.toList

variable {log : Nat → Option (List Nat)} {counters : Nat → Nat}

private theorem saysIdle_eq_false {line : String} (h : 'D' ∉ line.toList) : saysIdle line = false := by
  refine decide_eq_false fun hidle => h (hidle.subset ?_)
  decide

private theorem notMem_toString (n : Nat) : 'D' ∉ (toString n).toList := by
  intro h
  rw [Nat.toString_eq_repr, Nat.toList_repr] at h
  exact absurd (Nat.isDigit_of_mem_toDigits (by decide) (by decide) h) (by decide)

private theorem notMem_append {x y : String} (hx : 'D' ∉ x.toList) (hy : 'D' ∉ y.toList) : 'D' ∉ (x ++ y).toList := by
  rw [String.toList_append, List.mem_append, not_or]
  exact ⟨hx, hy⟩

private theorem notMem_leftAligned {text : String} (h : 'D' ∉ text.toList) (width : Nat) :
    'D' ∉ (leftAligned width text).toList := by
  refine notMem_append h fun hpad => ?_
  rw [String.toList_ofList] at hpad
  exact absurd (List.eq_of_mem_replicate hpad) (by decide)

/-- A printed list has digits, brackets, commas and spaces. Induction on what follows its head. -/
private theorem notMem_toString_list (ps : List Nat) : 'D' ∉ (toString ps).toList := by
  have hmore : ∀ (qs : List Nat) (text : String), 'D' ∉ text.toList →
      'D' ∉ (qs.foldl (fun l r => l ++ ", " ++ toString r) text).toList := by
    intro qs
    induction qs with
    | nil => exact fun _ => id
    | cons q qs ih =>
      exact fun text h => ih _ (notMem_append (notMem_append h (by decide)) (notMem_toString q))
  match ps with
  | [] => decide
  | [p] => exact notMem_append (notMem_append (by decide) (notMem_toString p)) (by decide)
  | p :: q :: ps =>
    have hfold := hmore (q :: ps) _ (notMem_append (by decide : 'D' ∉ "[".toList) (notMem_toString p))
    show 'D' ∉ (String.push _ ']').toList
    rw [String.toList_push, List.mem_append, not_or]
    exact ⟨hfold, by decide⟩

private theorem notMem_rowText {c : Nat} (hne : listed log c ≠ []) : 'D' ∉ (rowText log counters c).toList := by
  have hstatus : 'D' ∉ (status (listed log c)).toList := by
    obtain ⟨p, ps, hps⟩ := List.exists_cons_of_ne_nil hne
    rw [hps]
    exact notMem_toString_list _
  have hconsumer : 'D' ∉ ("  consumer-" ++ leftAligned 3 (toString c) ++ "  ").toList :=
    notMem_append (notMem_append (by decide) (notMem_leftAligned (notMem_toString c) 3)) (by decide)
  exact notMem_append (notMem_append (notMem_append hconsumer (notMem_leftAligned hstatus 28)) (by decide))
    (notMem_toString _)

private theorem status_infix_rowText (c : Nat) :
    (status (listed log c)).toList <:+: (rowText log counters c).toList := by
  have hrow : rowText log counters c = "  consumer-" ++ leftAligned 3 (toString c) ++ "  " ++ status (listed log c) ++
      (String.ofList (List.replicate (28 - (status (listed log c)).length) ' ') ++ " " ++ toString (counters c)) := by
    delta rowText
    simp only [leftAligned, String.append_assoc]
  rw [hrow, String.toList_append, String.toList_append]
  exact ⟨_, _, rfl⟩

/-- A row says IDLE just when its consumer has no partition. -/
theorem saysIdle_rowText (c : Nat) : saysIdle (rowText log counters c) = true ↔ listed log c = [] := by
  constructor
  · intro h
    by_contra hne
    exact Bool.false_ne_true ((saysIdle_eq_false (notMem_rowText hne)).symm.trans h)
  · intro hnil
    have hword : "IDLE".toList <:+: (status (listed log c)).toList := by
      rw [hnil]
      decide
    exact decide_eq_true (hword.trans (status_infix_rowText c))

private theorem notMem_reportHead {partitions numConsumers : Nat} :
    ∀ line ∈ reportHead partitions numConsumers counters, 'D' ∉ line.toList := by
  simp only [reportHead, List.forall_mem_cons]
  refine ⟨notMem_append (by decide) (notMem_toString _), notMem_append (by decide) (notMem_toString _), by decide,
    by decide, by decide, fun _ hnil => (List.not_mem_nil hnil).elim⟩

private theorem notMem_reportFoot {partitions : Nat} : ∀ line ∈ reportFoot partitions log, 'D' ∉ line.toList := by
  simp only [reportFoot, List.forall_mem_cons]
  refine ⟨?_, ?_, fun _ hnil => (List.not_mem_nil hnil).elim⟩
  · exact notMem_append (notMem_append (notMem_append (by decide) (notMem_toString _)) (by decide))
      (notMem_toString _)
  · exact notMem_append (notMem_append (by decide) (notMem_toString _)) (by decide)

/-- Only rows say IDLE. -/
theorem exists_row_of_saysIdle {partitions numConsumers : Nat} {line : String}
    (hline : line ∈ summariseRound partitions numConsumers counters log) (h : saysIdle line = true) :
    ∃ c < 4, line = rowText log counters c := by
  have hword : 'D' ∈ line.toList := by
    by_contra hnot
    exact Bool.false_ne_true ((saysIdle_eq_false hnot).symm.trans h)
  rcases List.mem_append.mp hline with hline | hfoot
  · rcases List.mem_append.mp hline with hhead | hrow
    · exact absurd hword (notMem_reportHead line hhead)
    · obtain ⟨c, hc, rfl⟩ := List.mem_map.mp hrow
      exact ⟨c, List.mem_range.mp hc, rfl⟩
  · exact absurd hword (notMem_reportFoot line hfoot)

private theorem countP_plain {lines : List String} (h : ∀ line ∈ lines, 'D' ∉ line.toList) :
    lines.countP saysIdle = 0 :=
  List.countP_eq_zero.mpr fun line hline => Bool.eq_false_iff.mp (saysIdle_eq_false (h line hline))

/-- As many lines of the report say IDLE as its last but one line counts. -/
theorem countP_saysIdle (partitions numConsumers : Nat) :
    (summariseRound partitions numConsumers counters log).countP saysIdle = 4 - active log := by
  have hsplit : 4 = active log + (List.range 4).countP fun c => decide (listed log c = []) := by
    simpa [active] using List.length_eq_countP_add_countP (fun c => decide (listed log c ≠ [])) (l := List.range 4)
  have hrows : ((List.range 4).map (rowText log counters)).countP saysIdle =
      (List.range 4).countP fun c => decide (listed log c = []) := by
    rw [List.countP_map]
    refine List.countP_congr fun c _ => ?_
    simpa using saysIdle_rowText c
  rw [summariseRound, List.countP_append, List.countP_append, hrows, countP_plain notMem_reportHead,
    countP_plain notMem_reportFoot]
  omega

/-! What the log shows. -/

/-- No partition is listed under two consumers. -/
def OwnedOnce (log : Nat → Option (List Nat)) : Prop :=
  ∀ c c' p, p ∈ listed log c → p ∈ listed log c' → c = c'

/-- Every member has handled its latest assignment before the stop event is set. -/
def SettledAtStop (s : Round) : Event → Prop
  | .setStop => s.pending = ∅
  | _ => True

/-- After the stop event no consumer is handed a partition it did not have. -/
def NothingHandedOver (partitions : Nat) (s : Round) : Event → Prop
  | .onAssign c => s.stop = true → ∀ p ∈ assigned partitions s.owner c, p ∈ listed s.log c
  | _ => True

def Allowed (partitions : Nat) (s : Round) (ev : Event) : Prop :=
  SettledAtStop s ev ∧ NothingHandedOver partitions s ev

/-- Before the stop event the log agrees with the coordinator, up to pending members;
after it the log lists each partition once. -/
structure Inv (partitions : Nat) (s : Round) : Prop where
  bounded : ∀ c, ∀ p ∈ listed s.log c, p < partitions
  pending : s.pending ⊆ s.members
  running : s.stop = false → ∀ c, s.thread c = .polling
  outsiders : s.stop = false → ∀ c, c ∉ s.members → s.log c = none
  handled : s.stop = false → ∀ c, c ∉ s.pending → s.log c = none ∨ s.log c = some (assigned partitions s.owner c)
  once : s.stop = true → OwnedOnce s.log
  stopped : s.main ≠ .observing → s.stop = true

theorem mem_assigned {partitions : Nat} {owner : Nat → Option Nat} {c p : Nat} :
    p ∈ assigned partitions owner c ↔ p < partitions ∧ owner p = some c := by
  simp [assigned]

theorem listed_update (log : Nat → Option (List Nat)) (c : Nat) (ps : List Nat) (x : Nat) :
    listed (Function.update log c (some ps)) x = if x = c then ps else listed log x := by
  by_cases h : x = c
  · simp [listed, h]
  · simp [listed, h]

/-- A settled log lists each partition once, since the coordinator gives it to one member. -/
theorem ownedOnce_of_handled {partitions : Nat} {s : Round}
    (h : ∀ c, s.log c = none ∨ s.log c = some (assigned partitions s.owner c)) : OwnedOnce s.log := by
  have howner (c p : Nat) (hp : p ∈ listed s.log c) : s.owner p = some c := by
    rcases h c with hnone | hsome
    · simp [listed, hnone] at hp
    · rw [listed, hsome] at hp
      exact (mem_assigned.mp hp).2
  intro c c' p hp hp'
  exact Option.some.inj ((howner c p hp).symm.trans (howner c' p hp'))

/-- Listing less keeps each partition listed once. -/
theorem OwnedOnce.mono {log log' : Nat → Option (List Nat)} (h : OwnedOnce log)
    (hsub : ∀ c, ∀ p ∈ listed log' c, p ∈ listed log c) : OwnedOnce log' :=
  fun c c' p hp hp' => h c c' p (hsub c p hp) (hsub c' p hp')

variable {partitions numConsumers : Nat} {s t : Round} {ev : Event}

theorem Inv.onAssign (h : Inv partitions s) {c : Nat} (hp : c ∈ s.pending)
    (hok : s.stop = true → ∀ p ∈ assigned partitions s.owner c, p ∈ listed s.log c) :
    Inv partitions { s with
      log := Function.update s.log c (some (assigned partitions s.owner c)), pending := s.pending.erase c } where
  bounded x p hin := by
    rw [listed_update] at hin
    split at hin
    · exact (mem_assigned.mp hin).1
    · exact h.bounded x p hin
  pending := (Finset.erase_subset _ _).trans h.pending
  running := h.running
  outsiders hs x hx := by
    have hne : x ≠ c := by
      rintro rfl
      exact hx (h.pending hp)
    simpa [Function.update_of_ne hne] using h.outsiders hs x hx
  handled hs x hx := by
    by_cases hxc : x = c
    · simp [hxc]
    · simp only [Function.update_of_ne hxc]
      exact h.handled hs x fun hin => hx (Finset.mem_erase.mpr ⟨hxc, hin⟩)
  once hs := (h.once hs).mono fun x p hin => by
    rw [listed_update] at hin
    split at hin
    · next hxc => exact hxc ▸ hok hs p hin
    · exact hin
  stopped := h.stopped

theorem Step.inv (hs : Step partitions numConsumers s ev t) (hok : Allowed partitions s ev)
    (h : Inv partitions s) : Inv partitions t := by
  cases hs with
  | joinGroup c hc ht hm =>
    refine ⟨h.bounded, h.pending.trans (Finset.subset_insert _ _), h.running, fun hs x hx => ?_, h.handled, h.once,
      h.stopped⟩
    exact h.outsiders hs x fun hin => hx (Finset.mem_insert_of_mem hin)
  | rebalance owner howner =>
    exact ⟨h.bounded, Finset.Subset.refl _, h.running, h.outsiders, fun hs x hx => .inl (h.outsiders hs x hx),
      h.once, h.stopped⟩
  | onAssign c ht hp => exact h.onAssign hp hok.2
  | message => exact ⟨h.bounded, h.pending, h.running, h.outsiders, h.handled, h.once, h.stopped⟩
  | setStop hp =>
    refine ⟨h.bounded, h.pending, nofun, nofun, nofun, fun _ => ?_, fun _ => rfl⟩
    cases hstop : s.stop with
    | true => exact h.once hstop
    | false =>
      have hsettled : s.pending = ∅ := hok.1
      exact ownedOnce_of_handled fun c => h.handled hstop c (by simp [hsettled])
  | noticeStop c ht hstop =>
    have hfalse (hs : s.stop = false) : False := by simp [hstop] at hs
    exact ⟨h.bounded, h.pending, fun hs => (hfalse hs).elim, h.outsiders, h.handled, h.once,
      h.stopped⟩
  | close c ht =>
    have hfalse (hs : s.stop = false) : False := by simp [h.running hs c] at ht
    exact ⟨h.bounded, Finset.erase_subset_erase _ h.pending, fun hs => (hfalse hs).elim, fun hs => (hfalse hs).elim,
      fun hs => (hfalse hs).elim, h.once, h.stopped⟩
  | join hp =>
    exact ⟨h.bounded, h.pending, h.running, h.outsiders, h.handled, h.once, fun _ => h.stopped (by simp [hp])⟩

theorem initial_inv : Inv partitions initial :=
  ⟨by simp [initial, listed], by simp [initial], fun _ _ => rfl, fun _ _ _ => rfl, fun _ _ _ => .inl rfl, nofun,
    fun h => absurd rfl h⟩

/-- If no partition is listed twice, no more consumers are active than there are partitions. -/
theorem active_le {log : Nat → Option (List Nat)} (honce : OwnedOnce log)
    (hbounded : ∀ c, ∀ p ∈ listed log c, p < partitions) : active log ≤ partitions := by
  have hhead (c : Nat) (hc : listed log c ≠ []) : (listed log c).headD 0 ∈ listed log c := by
    obtain ⟨p, ps, hps⟩ := List.exists_cons_of_ne_nil hc
    rw [hps]
    exact List.mem_cons_self
  rw [active, List.countP_eq_length_filter, ← List.toFinset_card_of_nodup (List.nodup_range.filter _)]
  calc
    _ ≤ (Finset.range partitions).card := by
      refine Finset.card_le_card_of_injOn (fun c => (listed log c).headD 0) (fun c hc => ?_) fun c hc c' hc' heq => ?_
      · have hne : listed log c ≠ [] := by simpa using (List.mem_filter.mp (List.mem_toFinset.mp hc)).2
        exact Finset.mem_coe.mpr (Finset.mem_range.mpr (hbounded c _ (hhead c hne)))
      · have hne : listed log c ≠ [] := by simpa using (List.mem_filter.mp (List.mem_toFinset.mp hc)).2
        have hne' : listed log c' ≠ [] := by simpa using (List.mem_filter.mp (List.mem_toFinset.mp hc')).2
        have hfirst := hhead c' hne'
        rw [← show (listed log c).headD 0 = (listed log c').headD 0 from heq] at hfirst
        exact honce c c' _ (hhead c hne) hfirst
    _ = partitions := Finset.card_range partitions

/-- In every run that had settled at the stop event and in which no consumer is handed a
new partition after it, the returned log lists each partition under at most one consumer,
and the report shows at most as many active consumers as partitions. -/
theorem report_owned_once {events : List Event}
    (hrun : Run (Guarded (Step partitions numConsumers) (Allowed partitions)) initial events s)
    (hreturned : s.main = .returned) : OwnedOnce s.log ∧ active s.log ≤ partitions := by
  have hinv : Inv partitions s := hrun.invariant _ (fun _ _ _ hs => hs.2.inv hs.1) initial_inv
  have honce := hinv.once (hinv.stopped (by simp [hreturned]))
  exact ⟨honce, active_le honce hinv.bounded⟩

/-- Two partitions: consumers 0 and 1 have one each. -/
def firstOwner : Nat → Option Nat
  | 0 => some 0
  | 1 => some 1
  | _ => none

/-- After consumer 0 has left, consumer 2 gets its partition. -/
def secondOwner : Nat → Option Nat
  | 0 => some 2
  | 1 => some 1
  | _ => none

/-- Four consumers on two partitions, settled; consumer 0 notices the stop event first and
leaves, and consumer 2 is still polling when it is handed partition 0. -/
theorem run_handed_over : ∃ events s, Run (Guarded (Step 2 4) SettledAtStop) initial events s ∧
    s.main = .returned ∧ listed s.log 0 = [0] ∧ listed s.log 2 = [0] ∧ active s.log = 3 :=
  ⟨_, _,
    .guarded_cons (.joinGroup 0 (by decide) rfl (by decide)) trivial <|
    .guarded_cons (.joinGroup 1 (by decide) rfl (by decide)) trivial <|
    .guarded_cons (.joinGroup 2 (by decide) rfl (by decide)) trivial <|
    .guarded_cons (.joinGroup 3 (by decide) rfl (by decide)) trivial <|
    .guarded_cons (.rebalance firstOwner (by decide)) trivial <|
    .guarded_cons (.onAssign 0 rfl (by decide)) trivial <| .guarded_cons (.onAssign 1 rfl (by decide)) trivial <|
    .guarded_cons (.onAssign 2 rfl (by decide)) trivial <| .guarded_cons (.onAssign 3 rfl (by decide)) trivial <|
    .guarded_cons (.setStop rfl) (by decide : _ = ∅) <| .guarded_cons (.noticeStop 0 rfl rfl) trivial <|
    .guarded_cons (.close 0 rfl) trivial <| .guarded_cons (.rebalance secondOwner (by decide)) trivial <|
    .guarded_cons (.onAssign 2 rfl (by decide)) trivial <| .guarded_cons (.noticeStop 1 rfl rfl) trivial <|
    .guarded_cons (.noticeStop 2 rfl rfl) trivial <| .guarded_cons (.noticeStop 3 rfl rfl) trivial <|
    .guarded_cons (.close 1 rfl) trivial <| .guarded_cons (.close 2 rfl) trivial <|
    .guarded_cons (.close 3 rfl) trivial <| .guarded_cons (.join rfl) trivial <| .nil _,
    rfl, rfl, rfl, rfl⟩

/-- Partition 0 is listed under consumers 0 and 2, and three consumers are active on two partitions. -/
theorem report_not_owned_once : ¬ ∀ (events : List Event) (s : Round),
    Run (Guarded (Step 2 4) SettledAtStop) initial events s → s.main = .returned →
      OwnedOnce s.log ∧ active s.log ≤ 2 := by
  intro h
  obtain ⟨events, s, hrun, hreturned, -, -, hactive⟩ := run_handed_over
  have hle := (h events s hrun hreturned).2
  omega

/-- The same round when every consumer leaves without another assignment. -/
theorem run_settled : ∃ events s, Run (Guarded (Step 2 3) (Allowed 2)) initial events s ∧
    s.main = .returned ∧ listed s.log 0 = [0] ∧ listed s.log 1 = [1] :=
  ⟨_, _,
    .guarded_cons (.joinGroup 0 (by decide) rfl (by decide)) ⟨trivial, trivial⟩ <|
    .guarded_cons (.joinGroup 1 (by decide) rfl (by decide)) ⟨trivial, trivial⟩ <|
    .guarded_cons (.joinGroup 2 (by decide) rfl (by decide)) ⟨trivial, trivial⟩ <|
    .guarded_cons (.rebalance firstOwner (by decide)) ⟨trivial, trivial⟩ <|
    .guarded_cons (.onAssign 0 rfl (by decide)) ⟨trivial, nofun⟩ <|
    .guarded_cons (.onAssign 1 rfl (by decide)) ⟨trivial, nofun⟩ <|
    .guarded_cons (.onAssign 2 rfl (by decide)) ⟨trivial, nofun⟩ <|
    .guarded_cons (.message 0 rfl (by decide)) ⟨trivial, trivial⟩ <|
    .guarded_cons (.setStop rfl) ⟨(by decide : _ = ∅), trivial⟩ <|
    .guarded_cons (.noticeStop 0 rfl rfl) ⟨trivial, trivial⟩ <|
    .guarded_cons (.close 0 rfl) ⟨trivial, trivial⟩ <|
    .guarded_cons (.join rfl) ⟨trivial, trivial⟩ <|
    .nil _, rfl, rfl, rfl⟩

theorem report_owned_once_settled : ∃ events s, Run (Guarded (Step 2 3) (Allowed 2)) initial events s ∧
    s.main = .returned ∧ OwnedOnce s.log ∧ active s.log ≤ 2 := by
  obtain ⟨events, s, hrun, hreturned, -⟩ := run_settled
  exact ⟨events, s, hrun, hreturned, report_owned_once hrun hreturned⟩

end Shipstream.Simulations.PartitionCeiling
