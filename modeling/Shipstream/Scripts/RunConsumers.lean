import Shipstream.Transition.Run

/-! run_consumers.sh, command by command, with children that may end on their own and
signals that may arrive between any two commands once the trap is set. -/
namespace Shipstream.Scripts.RunConsumers
open Transition

/-- The background processes of the script. -/
inductive Child where
  | consumer (i : Nat)
  | tail
  deriving DecidableEq, Repr

/-- The command the script executes next. -/
inductive Place where
  | banner
  | log (i : Nat)       -- LOG="$LOG_DIR/consumer-$i.log"
  | start (i : Nat)     -- CONSUMER_ID=$i python services/consumer.py > "$LOG" 2>&1 &
  | register (i : Nat)  -- PIDS+=($!)
  | announce (i : Nat)  -- echo "  Consumer $i started ..."
  | blank               -- echo ""
  | startTail           -- tail -f "$LOG_DIR"/consumer-*.log &
  | assignTail          -- TAIL_PID=$!
  | waitPids            -- wait "${PIDS[@]}"
  | killTail            -- kill "$TAIL_PID" 2>/dev/null
  | last
  deriving DecidableEq, Repr

/-- The script at a place, or in `cleanup` with the place it was interrupted at. -/
inductive Point where
  | script (place : Place)
  | killing (interrupted : Place) (rest : List Child)
  | waitAll (interrupted : Place)
  | stopped
  deriving DecidableEq, Repr

/-- PIDS and TAIL_PID, the children that are alive, and those sent SIGTERM. -/
structure Children where
  pids : List Child
  tailPid : Option Child
  running : Finset Child
  signalled : Finset Child

structure Shell extends Children where
  point : Point

/-- The body of the loop over `seq 1 numConsumers`, or what follows it. -/
def loopFrom (numConsumers i : Nat) : Place := if i ≤ numConsumers then .log i else .blank

/-- `wait` is over: for the given children, or for every child when none is given. -/
abbrev Waited (pids : List Child) (running : Finset Child) : Prop :=
  (pids = [] → running = ∅) ∧ ∀ pid ∈ pids, pid ∉ running

/-- The next command. Both waits block while a child they wait for is alive. -/
def command (numConsumers : Nat) (s : Shell) : Option Shell :=
  match s.point with
  | .script .banner => some { s with point := .script (loopFrom numConsumers 1) }
  | .script (.log i) => some { s with point := .script (.start i) }
  | .script (.start i) =>
    some { s with running := insert (.consumer i) s.running, point := .script (.register i) }
  | .script (.register i) => some { s with pids := s.pids ++ [.consumer i], point := .script (.announce i) }
  | .script (.announce i) => some { s with point := .script (loopFrom numConsumers (i + 1)) }
  | .script .blank => some { s with point := .script .startTail }
  | .script .startTail => some { s with running := insert .tail s.running, point := .script .assignTail }
  | .script .assignTail => some { s with tailPid := some .tail, point := .script .waitPids }
  | .script .waitPids =>
    if Waited s.pids s.running then some { s with point := .script .killTail } else none
  | .script .killTail => some { s with signalled := s.tailPid.toFinset ∪ s.signalled, point := .script .last }
  | .script .last => none
  | .killing interrupted (pid :: rest) =>
    some { s with signalled := insert pid s.signalled, point := .killing interrupted rest }
  | .killing interrupted [] => some { s with point := .waitAll interrupted }
  | .waitAll _ => if Waited [] s.running then some { s with point := .stopped } else none
  | .stopped => none

/-- The trap: `cleanup` starts by signalling what PIDS holds at that moment. -/
def trap (s : Shell) : Option Shell :=
  match s.point with
  | .script place => some { s with point := .killing place s.pids }
  | .killing interrupted _ => some { s with point := .killing interrupted s.pids }
  | .waitAll interrupted => some { s with point := .killing interrupted s.pids }
  | .stopped => none

inductive Event where
  | command
  | signal
  | exit (c : Child)
  deriving DecidableEq, Repr

inductive Step (numConsumers : Nat) : Shell → Event → Shell → Prop where
  | command {s t : Shell} (h : command numConsumers s = some t) : Step numConsumers s .command t
  | signal {s t : Shell} (h : trap s = some t) : Step numConsumers s .signal t
  | exit {s : Shell} (c : Child) (hc : c ∈ s.running) :
      Step numConsumers s (.exit c) { s with running := s.running.erase c }

/-- `PIDS=()` and the trap is set. -/
def initial : Shell := ⟨⟨[], none, ∅, ∅⟩, .script .banner⟩

/-- The place in the script, also while it is interrupted. -/
def Point.place? : Point → Option Place
  | .script place | .killing place _ | .waitAll place => some place
  | .stopped => none

/-- How many consumers have been recorded when the script is at a place. -/
def registered (numConsumers : Nat) : Place → Nat
  | .banner => 0
  | .log i | .start i | .register i => i - 1
  | .announce i => i
  | _ => numConsumers

/-- The PIDs kept and the children alive, by place: only a consumer about to be
recorded and the tail can be alive without being in PIDS. -/
structure Registered (numConsumers : Nat) (s : Children) (place : Place) : Prop where
  pids : ∀ c, c ∈ s.pids ↔ ∃ i, 1 ≤ i ∧ i ≤ registered numConsumers place ∧ c = .consumer i
  running : ∀ i, .consumer i ∈ s.running → .consumer i ∈ s.pids ∨ place = .register i
  index : ∀ i, place = .log i ∨ place = .start i ∨ place = .register i ∨ place = .announce i →
    1 ≤ i ∧ i ≤ numConsumers
  tailPid : place = .waitPids ∨ place = .killTail → s.tailPid = some .tail
  tail : .tail ∈ s.signalled ↔ place = .last
  others : ∀ i, .consumer i ∈ s.signalled → .consumer i ∈ s.pids

/-- What `cleanup` has signalled so far. -/
def Signalled (s : Shell) : Prop :=
  match s.point with
  | .killing _ rest => (∀ c ∈ rest, c ∈ s.pids) ∧ ∀ c ∈ s.pids, c ∈ s.signalled ∨ c ∈ rest
  | .waitAll _ => ∀ c ∈ s.pids, c ∈ s.signalled
  | _ => True

structure Inv (numConsumers : Nat) (s : Shell) : Prop where
  registered : ∀ place, s.point.place? = some place → Registered numConsumers s.toChildren place
  signalled : Signalled s

private theorem registered_loopFrom {numConsumers i : Nat} (h : i ≤ numConsumers) :
    registered numConsumers (loopFrom numConsumers (i + 1)) = i := by
  unfold loopFrom
  split
  · rfl
  · simp only [registered]
    omega

theorem loopFrom_cases (numConsumers i : Nat) :
    loopFrom numConsumers i = .log i ∧ i ≤ numConsumers ∨ loopFrom numConsumers i = .blank := by
  unfold loopFrom
  split
  · next h => exact .inl ⟨rfl, h⟩
  · exact .inr rfl

variable {numConsumers : Nat} {s : Children} {place place' : Place}

/-- A command that touches no variable and no child moves between places of one count. -/
theorem Registered.move (h : Registered numConsumers s place)
    (hcount : registered numConsumers place' = registered numConsumers place)
    (hrunning : ∀ i, place = .register i → place' = .register i)
    (hindex : ∀ i, place' = .log i ∨ place' = .start i ∨ place' = .register i ∨ place' = .announce i →
      1 ≤ i ∧ i ≤ numConsumers)
    (htail : place' = .waitPids ∨ place' = .killTail → s.tailPid = some .tail)
    (hlast : place ≠ .last) (hlast' : place' ≠ .last) : Registered numConsumers s place' where
  pids c := by rw [h.pids, hcount]
  running i hi := (h.running i hi).imp_right (hrunning i)
  index := hindex
  tailPid := htail
  tail := h.tail.trans (iff_of_false hlast hlast')
  others := h.others

/-- To the head of the loop, from the banner or from the end of its body. -/
theorem Registered.loop (h : Registered numConsumers s place) {i : Nat} (hi : i ≤ numConsumers)
    (hcount : registered numConsumers place = i) (hplace : ∀ j, place ≠ .register j) (hlast : place ≠ .last) :
    Registered numConsumers s (loopFrom numConsumers (i + 1)) := by
  have hcount' := (registered_loopFrom hi).trans hcount.symm
  rcases loopFrom_cases numConsumers (i + 1) with ⟨he, hle⟩ | he
  · rw [he] at hcount' ⊢
    refine h.move hcount' (fun j hj => absurd hj (hplace j)) (fun j hj => ?_) (by simp) hlast (by simp)
    simp only [Place.log.injEq, reduceCtorEq, or_self, or_false] at hj
    omega
  · rw [he] at hcount' ⊢
    exact h.move hcount' (fun j hj => absurd hj (hplace j)) (by simp) (by simp) hlast (by simp)

theorem Registered.start {i : Nat} (h : Registered numConsumers s (.start i)) :
    Registered numConsumers { s with running := insert (.consumer i) s.running } (.register i) where
  pids := h.pids
  running j hj := by
    rcases Finset.mem_insert.mp hj with hj | hj
    · cases hj
      exact .inr rfl
    · exact .inl ((h.running j hj).resolve_right (by simp))
  index j hj := by
    simp only [Place.register.injEq, reduceCtorEq, false_or, or_false] at hj
    exact hj ▸ h.index i (by simp)
  tailPid := by simp
  tail := h.tail.trans (by simp)
  others := h.others

theorem Registered.register {i : Nat} (h : Registered numConsumers s (.register i)) :
    Registered numConsumers { s with pids := s.pids ++ [.consumer i] } (.announce i) where
  pids c := by
    have hi := (h.index i (by simp)).1
    rw [List.mem_append, h.pids, List.mem_singleton]
    simp only [registered]
    constructor
    · rintro (⟨j, h1, h2, rfl⟩ | rfl)
      · exact ⟨j, h1, by omega, rfl⟩
      · exact ⟨i, hi, Nat.le_refl i, rfl⟩
    · rintro ⟨j, h1, h2, rfl⟩
      by_cases hj : j = i
      · exact .inr (hj ▸ rfl)
      · exact .inl ⟨j, h1, by omega, rfl⟩
  running j hj := by
    refine .inl (List.mem_append.mpr ((h.running j hj).imp_right fun he => ?_))
    cases he
    exact List.mem_singleton_self _
  index j hj := by
    simp only [Place.announce.injEq, reduceCtorEq, false_or] at hj
    exact hj ▸ h.index i (by simp)
  tailPid := by simp
  tail := h.tail.trans (by simp)
  others j hj := List.mem_append_left _ (h.others j hj)

/-- Changing the children alive to fewer keeps what is registered. -/
theorem Registered.subset (h : Registered numConsumers s place) {running : Finset Child}
    (hsub : running ⊆ s.running) : Registered numConsumers { s with running := running } place :=
  ⟨h.pids, fun i hi => h.running i (hsub hi), h.index, h.tailPid, h.tail, h.others⟩

/-- Each command of the script keeps the invariant. -/
theorem Registered.command {s t : Shell} (h : Registered numConsumers s.toChildren place)
    (hp : s.point = .script place) (hc : command numConsumers s = some t) :
    ∃ place', t.point = .script place' ∧ Registered numConsumers t.toChildren place' := by
  simp only [RunConsumers.command, hp] at hc
  cases place with
  | banner =>
    cases hc
    exact ⟨_, rfl, h.loop (Nat.zero_le _) rfl (by simp) (by simp)⟩
  | log i =>
    cases hc
    refine ⟨_, rfl, h.move rfl (by simp) (fun j hj => ?_) (by simp) (by simp) (by simp)⟩
    simp only [Place.start.injEq, reduceCtorEq, false_or, or_false] at hj
    exact hj ▸ h.index i (by simp)
  | start i =>
    cases hc
    exact ⟨_, rfl, h.start⟩
  | register i =>
    cases hc
    exact ⟨_, rfl, h.register⟩
  | announce i =>
    cases hc
    exact ⟨_, rfl, h.loop (h.index i (by simp)).2 rfl (by simp) (by simp)⟩
  | blank =>
    cases hc
    exact ⟨_, rfl, h.move rfl (by simp) (by simp) (by simp) (by simp) (by simp)⟩
  | startTail =>
    cases hc
    have hmoved : Registered numConsumers s.toChildren .assignTail :=
      h.move rfl (by simp) (by simp) (by simp) (by simp) (by simp)
    refine ⟨_, rfl, hmoved.pids, fun i hi => hmoved.running i ?_, hmoved.index, hmoved.tailPid, hmoved.tail,
      hmoved.others⟩
    exact (Finset.mem_insert.mp hi).resolve_left (by simp)
  | assignTail =>
    cases hc
    have hassigned : Registered numConsumers { s.toChildren with tailPid := some .tail } .assignTail :=
      ⟨h.pids, h.running, h.index, fun _ => rfl, h.tail, h.others⟩
    exact ⟨_, rfl, hassigned.move rfl (by simp) (by simp) (fun _ => rfl) (by simp) (by simp)⟩
  | waitPids =>
    simp only [Option.ite_none_right_eq_some, Option.some.injEq] at hc
    obtain ⟨-, rfl⟩ := hc
    exact ⟨_, rfl, h.move rfl (by simp) (by simp) (fun _ => h.tailPid (.inl rfl)) (by simp) (by simp)⟩
  | killTail =>
    cases hc
    have htail := h.tailPid (.inr rfl)
    refine ⟨_, rfl, h.pids, fun i hi => .inl ((h.running i hi).resolve_right (by simp)), by simp, by simp, ?_, ?_⟩
    · simp [htail]
    · intro i hi
      simp only [htail, Option.toFinset_some, Finset.mem_union, Finset.mem_singleton, reduceCtorEq,
        false_or] at hi
      exact h.others i hi
  | last => cases hc

private theorem Registered.tail_notMem (h : Registered numConsumers s place) : .tail ∉ s.pids := fun hin => by
  obtain ⟨i, -, -, he⟩ := (h.pids _).mp hin
  cases he

/-- `kill "$pid"` for a recorded consumer. -/
theorem Registered.kill (h : Registered numConsumers s place) {pid : Child} (hpid : pid ∈ s.pids) :
    Registered numConsumers { s with signalled := insert pid s.signalled } place where
  pids := h.pids
  running := h.running
  index := h.index
  tailPid := h.tailPid
  tail := by
    rw [Finset.mem_insert, or_iff_right (by rintro rfl; exact h.tail_notMem hpid)]
    exact h.tail
  others i hi := by
    rcases Finset.mem_insert.mp hi with rfl | hi
    · exact hpid
    · exact h.others i hi

variable {u v : Shell} {ev : Event}

theorem Inv.command (h : Inv numConsumers u) (hc : command numConsumers u = some v) : Inv numConsumers v := by
  cases hp : u.point with
  | script place =>
    obtain ⟨place', hp', hreg⟩ := (h.registered place (by rw [hp]; rfl)).command hp hc
    refine ⟨fun q hq => ?_, by simp [Signalled, hp']⟩
    rw [hp'] at hq
    cases hq
    exact hreg
  | killing interrupted rest =>
    have hreg := h.registered interrupted (by rw [hp]; rfl)
    have hsig := h.signalled
    simp only [Signalled, hp] at hsig
    simp only [RunConsumers.command, hp] at hc
    cases rest with
    | nil =>
      cases hc
      refine ⟨fun q hq => ?_, fun c hc => (hsig.2 c hc).resolve_right (by simp)⟩
      cases hq
      exact hreg
    | cons pid rest =>
      cases hc
      refine ⟨fun q hq => ?_, fun c hc => hsig.1 c (List.mem_cons_of_mem _ hc), fun c hc => ?_⟩
      · cases hq
        exact hreg.kill (hsig.1 pid List.mem_cons_self)
      · rcases hsig.2 c hc with hs | hr
        · exact .inl (Finset.mem_insert_of_mem hs)
        · rcases List.mem_cons.mp hr with rfl | hr
          · exact .inl (Finset.mem_insert_self _ _)
          · exact .inr hr
  | waitAll interrupted =>
    simp only [RunConsumers.command, hp, Option.ite_none_right_eq_some, Option.some.injEq] at hc
    obtain ⟨-, rfl⟩ := hc
    exact ⟨fun q hq => (by cases hq), trivial⟩
  | stopped => simp [RunConsumers.command, hp] at hc

theorem Inv.trap (h : Inv numConsumers u) (hc : trap u = some v) : Inv numConsumers v := by
  unfold RunConsumers.trap at hc
  split at hc <;> cases hc
  all_goals
    next hp =>
    refine ⟨fun q hq => ?_, fun c hc => hc, fun c hc => .inr hc⟩
    cases hq
    exact h.registered _ (by rw [hp]; rfl)

theorem Step.inv (hs : Step numConsumers u ev v) (h : Inv numConsumers u) : Inv numConsumers v := by
  cases hs with
  | command hc => exact h.command hc
  | signal hc => exact h.trap hc
  | exit c hc =>
    exact ⟨fun q hq => (h.registered q hq).subset (Finset.erase_subset _ _), h.signalled⟩

theorem initial_inv : Inv numConsumers initial where
  registered place hp := by
    cases hp
    refine ⟨fun c => ?_, by simp [initial], by simp, by simp, by simp [initial], by simp [initial]⟩
    simp only [initial, registered, List.not_mem_nil, false_iff]
    rintro ⟨i, h1, h2, -⟩
    omega
  signalled := trivial

/-! The bare wait of `cleanup`. -/

/-- A step of the shell, or the end of a child that was sent SIGTERM. -/
def Expected (s : Shell) (ev : Event) : Prop := ev = .command ∨ ∃ c ∈ s.signalled, ev = .exit c

/-- The wait is over once the children that were signalled have ended. -/
def WaitReturns (numConsumers : Nat) (s : Shell) : Prop :=
  ∃ events t, Run (Guarded (Step numConsumers) Expected) s events t ∧ t.point = .stopped

private theorem waitReturns_of_subset (hp : u.point = .waitAll place) (h : u.running ⊆ u.signalled) :
    WaitReturns numConsumers u := by
  generalize hn : u.running.card = n
  induction n generalizing u with
  | zero =>
    have hnone : u.running = ∅ := Finset.card_eq_zero.mp hn
    have hc : command numConsumers u = some { u with point := .stopped } := by
      simp only [RunConsumers.command, hp]
      exact if_pos ⟨fun _ => hnone, by simp⟩
    exact ⟨_, _, .cons ⟨.inl rfl, .command hc⟩ (.nil _), rfl⟩
  | succ n ih =>
    obtain ⟨c, hc⟩ : u.running.Nonempty := Finset.card_pos.mp (by omega)
    obtain ⟨events, t, hrun, ht⟩ := ih (u := { u with running := u.running.erase c }) hp
      ((Finset.erase_subset _ _).trans h) (by rw [Finset.card_erase_of_mem hc, hn]; rfl)
    exact ⟨_, t, .cons ⟨.inr ⟨c, h hc, rfl⟩, .exit c hc⟩ hrun, ht⟩

private theorem subset_of_waitReturns (hp : u.point = .waitAll place) (h : WaitReturns numConsumers u) :
    u.running ⊆ u.signalled := by
  obtain ⟨events, t, hrun, ht⟩ := h
  have hinv : (t.point = .waitAll place ∧ t.signalled = u.signalled ∧ u.running \ u.signalled ⊆ t.running) ∨
      u.running ⊆ u.signalled := by
    refine hrun.invariant (fun v => (v.point = .waitAll place ∧ v.signalled = u.signalled ∧
      u.running \ u.signalled ⊆ v.running) ∨ u.running ⊆ u.signalled) ?_ (.inl ⟨hp, rfl, Finset.sdiff_subset⟩)
    rintro v ev w ⟨hev, hs⟩ (⟨hpv, hsv, hrv⟩ | hdone)
    · cases hs with
      | command hc =>
        simp only [RunConsumers.command, hpv, Option.ite_none_right_eq_some, Option.some.injEq] at hc
        obtain ⟨hnone, rfl⟩ := hc
        rw [hnone.1 rfl, Finset.subset_empty, Finset.sdiff_eq_empty_iff_subset] at hrv
        exact .inr hrv
      | signal => rcases hev with hev | ⟨_, _, hev⟩ <;> cases hev
      | exit c hc =>
        rcases hev with hev | ⟨c', hc', hev⟩ <;> cases hev
        refine .inl ⟨hpv, hsv, fun x hx => Finset.mem_erase.mpr ⟨?_, hrv hx⟩⟩
        rintro rfl
        exact (Finset.mem_sdiff.mp hx).2 (hsv ▸ hc')
    · exact .inr hdone
  rcases hinv with ⟨hpt, -⟩ | hdone
  · rw [ht] at hpt
    cases hpt
  · exact hdone

/-- No consumer is alive that was started but not recorded when the signal came, and
the tail is not alive unless the last line has killed it. -/
def Covered (s : Shell) (interrupted : Place) : Prop :=
  (∀ i, interrupted = .register i → .consumer i ∉ s.running) ∧ (.tail ∈ s.running → interrupted = .last)

/-- When `cleanup` arrives at its wait, every child alive has been sent SIGTERM, and the
wait returns on that account, if and only if the children alive are covered. -/
theorem cleanup_signals_all_iff (numConsumers : Nat) {events : List Event} {s : Shell} {interrupted : Place}
    (hrun : Run (Step numConsumers) initial events s) (hp : s.point = .waitAll interrupted) :
    (s.running ⊆ s.signalled ↔ Covered s interrupted) ∧ (WaitReturns numConsumers s ↔ Covered s interrupted) := by
  have hinv : Inv numConsumers s := hrun.invariant _ (fun _ _ _ => Step.inv) initial_inv
  have hreg := hinv.registered interrupted (by rw [hp]; rfl)
  have hsig := hinv.signalled
  simp only [Signalled, hp] at hsig
  have hiff : s.running ⊆ s.signalled ↔ Covered s interrupted := by
    constructor
    · refine fun hsub => ⟨fun i hi hrunning => ?_, fun htail => hreg.tail.mp (hsub htail)⟩
      obtain ⟨j, -, hj, he⟩ := (hreg.pids _).mp (hreg.others i (hsub hrunning))
      cases he
      have hindex := (hreg.index i (by simp [hi])).1
      simp only [hi, registered] at hj
      omega
    · rintro ⟨hconsumer, htail⟩ c hc
      cases c with
      | consumer i =>
        rcases hreg.running i hc with hin | hat
        · exact hsig _ hin
        · exact absurd hc (hconsumer i hat)
      | tail => exact hreg.tail.mpr (htail hc)
  exact ⟨hiff, ⟨fun h => hiff.mp (subset_of_waitReturns hp h), fun h => waitReturns_of_subset hp (hiff.mpr h)⟩⟩

/-- Ctrl+C while one consumer runs and the logs are tailed. -/
theorem run_interrupted : ∃ events s, Run (Step 1) initial events s ∧ s.point = .waitAll .waitPids ∧
    s.running = {.tail, .consumer 1} ∧ s.signalled = {.consumer 1} :=
  ⟨_, _,
    .cons (.command rfl) <| .cons (.command rfl) <| .cons (.command rfl) <| .cons (.command rfl) <|
    .cons (.command rfl) <| .cons (.command rfl) <| .cons (.command rfl) <| .cons (.command rfl) <|
    .cons (.signal rfl) <| .cons (.command rfl) <| .cons (.command rfl) <| .nil _,
    rfl, by decide, by decide⟩

/-- The tail is alive, was not signalled, and the wait does not return. -/
theorem cleanup_leaves_tail : ¬ ∀ (events : List Event) (s : Shell) (interrupted : Place),
    Run (Step 1) initial events s → s.point = .waitAll interrupted → s.running ⊆ s.signalled := by
  intro h
  obtain ⟨events, s, hrun, hp, hrunning, hsignalled⟩ := run_interrupted
  have hsub := h events s _ hrun hp
  rw [hrunning, hsignalled] at hsub
  exact absurd hsub (by decide)

theorem cleanup_signals_all_iff_interrupted : ∃ events s,
    Run (Step 1) initial events s ∧ s.point = .waitAll .waitPids ∧
      (s.running ⊆ s.signalled ↔ Covered s .waitPids) ∧ (WaitReturns 1 s ↔ Covered s .waitPids) := by
  obtain ⟨events, s, hrun, hp, -⟩ := run_interrupted
  exact ⟨events, s, hrun, hp, cleanup_signals_all_iff 1 hrun hp⟩

end Shipstream.Scripts.RunConsumers
