import Shipstream.Scripts.RunConsumers

/-! run_consumers.sh: which children outlive the script, and what its wait waits for. -/
namespace Shipstream.Scripts.RunConsumers
open Transition

variable {numConsumers : Nat} {s t : Shell} {ev : Event}

/-- The place is behind the wait for the consumers. -/
def Place.waited (place : Place) : Prop := place = .killTail ∨ place = .last

/-- No consumer is alive behind the wait, and nothing is once the cleanup is done. -/
structure Ended (s : Shell) : Prop where
  stopped : s.point = .stopped → s.running = ∅
  waited : ∀ place, s.point.place? = some place → place.waited → ∀ i, .consumer i ∉ s.running

/-- The next place of a command is behind the wait only if the command was the wait or is behind it. -/
theorem Ended.of_command {place : Place} (h : Ended s) (hi : Inv numConsumers s)
    (hp : s.point = .script place) (hc : command numConsumers s = some t) : Ended t := by
  simp only [command, hp] at hc
  have hnone : ∀ {i : Nat}, ¬ (loopFrom numConsumers i).waited := by
    intro i hw
    rcases loopFrom_cases numConsumers i with ⟨he, -⟩ | he <;> rw [he] at hw <;> rcases hw with hw | hw <;> cases hw
  cases place with
  | waitPids =>
    simp only [Option.ite_none_right_eq_some, Option.some.injEq] at hc
    obtain ⟨⟨-, hended⟩, rfl⟩ := hc
    refine ⟨(by cases ·), fun _ _ _ i hrunning => ?_⟩
    have hreg := hi.registered .waitPids (by rw [hp]; rfl)
    exact hended _ ((hreg.running i hrunning).resolve_right (by simp)) hrunning
  | killTail =>
    cases hc
    exact ⟨(by cases ·), fun _ _ _ => h.waited .killTail (by rw [hp]; rfl) (.inl rfl)⟩
  | last => cases hc
  | banner | announce =>
    cases hc
    refine ⟨(by cases ·), fun place hplace hw => ?_⟩
    cases hplace
    exact absurd hw hnone
  | log | start | register | blank | startTail | assignTail =>
    cases hc
    refine ⟨(by cases ·), fun place hplace hw => ?_⟩
    cases hplace
    rcases hw with hw | hw <;> cases hw

theorem Step.ended (hs : Step numConsumers s ev t) (hi : Inv numConsumers s) (h : Ended s) : Ended t := by
  cases hs with
  | command hc =>
    cases hp : s.point with
    | script place => exact h.of_command hi hp hc
    | killing interrupted rest =>
      have hwaited := h.waited interrupted (by rw [hp]; rfl)
      simp only [RunConsumers.command, hp] at hc
      cases rest with
      | nil | cons =>
        cases hc
        refine ⟨(by cases ·), fun place hplace hw => ?_⟩
        cases hplace
        exact hwaited hw
    | waitAll interrupted =>
      simp only [RunConsumers.command, hp, Option.ite_none_right_eq_some, Option.some.injEq] at hc
      obtain ⟨hnone, rfl⟩ := hc
      exact ⟨fun _ => hnone.1 rfl, fun _ hplace => by cases hplace⟩
    | stopped => simp [RunConsumers.command, hp] at hc
  | signal hc =>
    unfold trap at hc
    split at hc <;> cases hc
    all_goals
      next hp =>
      refine ⟨(by cases ·), fun place hplace => ?_⟩
      cases hplace
      exact h.waited _ (by rw [hp]; rfl)
  | exit c hc =>
    refine ⟨fun hp => ?_, fun place hplace hw i hin => h.waited place hplace hw i (Finset.mem_of_mem_erase hin)⟩
    rw [h.stopped hp] at hc
    exact absurd hc (Finset.notMem_empty c)

private theorem run_ended {events : List Event} (hrun : Run (Step numConsumers) initial events s) :
    Inv numConsumers s ∧ Ended s := by
  refine hrun.invariant (fun s => Inv numConsumers s ∧ Ended s) ?_ ⟨initial_inv, (by cases ·), ?_⟩
  · exact fun s ev t hs h => ⟨hs.inv h.1, hs.ended h.1 h.2⟩
  · intro place hplace hw
    cases hplace
    rcases hw with hw | hw <;> cases hw

/-- In every run, whatever signals arrive and whichever children end on their own, nothing that the
script has started is alive when its cleanup is done, and no consumer is when its last line is
reached, where all of them have been started and the tail has been killed. At the wait the
script goes on as soon as the consumers have ended; but with no consumers to wait for it hangs
for as long as the tail is alive. -/
theorem no_consumer_outlives {events : List Event} (hrun : Run (Step numConsumers) initial events s) :
    (s.point = .stopped → s.running = ∅) ∧
      (s.point = .script .last → (∀ i, .consumer i ∉ s.running) ∧ .tail ∈ s.signalled ∧
        ∀ i, .consumer i ∈ s.pids ↔ 1 ≤ i ∧ i ≤ numConsumers) ∧
      (s.point = .script .waitPids → ((command numConsumers s).isSome = true ↔
        if numConsumers = 0 then .tail ∉ s.running else ∀ i, .consumer i ∉ s.running)) := by
  obtain ⟨hi, h⟩ := run_ended hrun
  refine ⟨h.stopped, fun hp => ?_, fun hp => ?_⟩
  · have hplace : s.point.place? = some .last := by rw [hp]; rfl
    have hreg := hi.registered .last hplace
    refine ⟨h.waited .last hplace (.inr rfl), hreg.tail.mpr rfl, fun i => (hreg.pids _).trans ?_⟩
    constructor
    · rintro ⟨j, h1, h2, he⟩
      cases he
      exact ⟨h1, h2⟩
    · rintro ⟨h1, h2⟩
      exact ⟨i, h1, h2, rfl⟩
  · have hreg := hi.registered .waitPids (by rw [hp]; rfl)
    have hpids (i : Nat) (hin : .consumer i ∈ s.running) : .consumer i ∈ s.pids :=
      (hreg.running i hin).resolve_right (by simp)
    have hcommand : (command numConsumers s).isSome = true ↔ Waited s.pids s.running := by
      simp only [command, hp, Option.isSome_ite]
    rw [hcommand]
    split
    · next hzero =>
      -- PIDS is empty, so the wait is for every child
      have hempty : s.pids = [] := List.eq_nil_iff_forall_not_mem.mpr fun c hc => by
        obtain ⟨i, h1, h2, -⟩ := (hreg.pids c).mp hc
        simp only [registered] at h2
        omega
      constructor
      · rintro ⟨hnone, -⟩ htail
        rw [hnone hempty] at htail
        exact absurd htail (Finset.notMem_empty _)
      · refine fun htail => ⟨fun _ => Finset.eq_empty_of_forall_notMem fun c hc => ?_, by simp [hempty]⟩
        cases c with
        | tail => exact htail hc
        | consumer i =>
          have hin := hpids i hc
          rw [hempty] at hin
          cases hin
    · next hpos =>
      have hfirst : .consumer 1 ∈ s.pids := (hreg.pids _).mpr ⟨1, le_refl 1, by simp only [registered]; omega, rfl⟩
      constructor
      · exact fun hw i hin => hw.2 _ (hpids i hin) hin
      · refine fun hended => ⟨fun hempty => ?_, fun pid hpid => ?_⟩
        · rw [hempty] at hfirst
          cases hfirst
        · obtain ⟨i, -, -, rfl⟩ := (hreg.pids pid).mp hpid
          exact hended i

/-- One consumer that ends on its own: the script runs to its last line. -/
theorem run_to_last : ∃ events s, Run (Step 1) initial events s ∧ s.point = .script .last :=
  ⟨_, _,
    .cons (.command rfl) <| .cons (.command rfl) <| .cons (.command rfl) <| .cons (.command rfl) <|
    .cons (.command rfl) <| .cons (.command rfl) <| .cons (.command rfl) <| .cons (.command rfl) <|
    .cons (.exit (.consumer 1) (by decide)) <| .cons (.command rfl) <| .cons (.command rfl) <| .nil _, rfl⟩

theorem no_consumer_outlives_to_last : ∃ events s, Run (Step 1) initial events s ∧ s.point = .script .last ∧
    (∀ i, .consumer i ∉ s.running) ∧ .tail ∈ s.signalled ∧ ∀ i, .consumer i ∈ s.pids ↔ 1 ≤ i ∧ i ≤ 1 := by
  obtain ⟨events, s, hrun, hp⟩ := run_to_last
  exact ⟨events, s, hrun, hp, (no_consumer_outlives hrun).2.1 hp⟩

end Shipstream.Scripts.RunConsumers
