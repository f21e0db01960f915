import Shipstream.Transition.Run

/-! Threads that run straight-line scripts of outside calls, with exceptions and daemon
threads, and what a script leaves undone when a thread of it is cut short. -/
namespace Shipstream.Python
open Transition

/-- Outside calls `C`, and thread bodies named by `T`. -/
inductive Instr (C T : Type) where
  | call (c : C)
  | attempt (body : List C)                -- try: body, with a handler for one kind of exception
  | whileNot (flag : Nat) (body : List C)
  | setFlag (flag : Nat)
  | spawn (t : T)

/-- What a call does to the surroundings: nothing, disturb something, or undo that. -/
inductive Effect (X : Type) where
  | neutral
  | disturb (x : X)
  | undo (x : X)
  deriving DecidableEq, Repr

structure Program (C T X : Type) where
  effect : C → Effect X
  body : T → List (Instr C T)
  daemon : T → Bool

/-- A thread that raised stays at the instruction that raised. -/
structure Thread (C T : Type) where
  rest : List (Instr C T)
  daemon : Bool
  raised : Bool

/-- Thread 0 is the main thread; `outstanding` is what was disturbed and not undone since. -/
structure Process (C T X : Type) where
  threads : Nat → Thread C T
  count : Nat
  flags : Nat → Bool
  outstanding : Finset X
  exited : Bool

inductive Event where
  | step (i : Nat)
  | caught (i : Nat)
  | raise (i : Nat)
  | exit
  deriving DecidableEq, Repr

variable {C T X : Type} [DecidableEq X]

def Effect.apply (outstanding : Finset X) : Effect X → Finset X
  | .neutral => outstanding
  | .disturb x => insert x outstanding
  | .undo x => outstanding.erase x

namespace Process

def setRest (s : Process C T X) (i : Nat) (rest : List (Instr C T)) : Process C T X :=
  { s with threads := Function.update s.threads i { s.threads i with rest := rest } }

def spawn (s : Process C T X) (P : Program C T X) (t : T) : Process C T X :=
  { s with
    threads := Function.update s.threads s.count ⟨P.body t, P.daemon t, false⟩
    count := s.count + 1 }

/-- The thread can take a step. -/
def Live (s : Process C T X) (i : Nat) : Prop := s.exited = false ∧ i < s.count ∧ (s.threads i).raised = false

def initial (main : List (Instr C T)) : Process C T X where
  threads i := if i = 0 then ⟨main, false, false⟩ else ⟨[], true, false⟩
  count := 1
  flags _ := false
  outstanding := ∅
  exited := false

end Process

/-- Nothing of the thread is left to run. -/
def Thread.Over (t : Thread C T) : Prop := t.rest = [] ∨ t.raised = true

/-- The call an instruction list makes next, if its next step is a call. -/
def nextCall : List (Instr C T) → Option C
  | .call c :: _ => some c
  | .attempt (c :: _) :: _ => some c
  | _ => none

/-- The steps of the threads in any order. Any call may raise, except one that undoes
something outstanding; inside `attempt` the exception may be of the handled kind. An
unhandled one ends its thread. The process exits when no thread but daemons is left. -/
inductive Step (P : Program C T X) : Process C T X → Event → Process C T X → Prop where
  | call {s : Process C T X} {rest : List (Instr C T)} (i : Nat) (c : C) (hl : s.Live i)
      (h : (s.threads i).rest = .call c :: rest) :
      Step P s (.step i) { s.setRest i rest with outstanding := (P.effect c).apply s.outstanding }
  | attempt {s : Process C T X} {rest : List (Instr C T)} {body : List C} (i : Nat) (c : C) (hl : s.Live i)
      (h : (s.threads i).rest = .attempt (c :: body) :: rest) :
      Step P s (.step i)
        { s.setRest i (.attempt body :: rest) with outstanding := (P.effect c).apply s.outstanding }
  | attempted {s : Process C T X} {rest : List (Instr C T)} (i : Nat) (hl : s.Live i)
      (h : (s.threads i).rest = .attempt [] :: rest) : Step P s (.step i) (s.setRest i rest)
  | test {s : Process C T X} {rest : List (Instr C T)} {body : List C} {flag : Nat} (i : Nat) (hl : s.Live i)
      (h : (s.threads i).rest = .whileNot flag body :: rest) :
      Step P s (.step i)
        (s.setRest i (if s.flags flag then rest else body.map .call ++ .whileNot flag body :: rest))
  | setFlag {s : Process C T X} {rest : List (Instr C T)} {flag : Nat} (i : Nat) (hl : s.Live i)
      (h : (s.threads i).rest = .setFlag flag :: rest) :
      Step P s (.step i) { s.setRest i rest with flags := Function.update s.flags flag true }
  | spawn {s : Process C T X} {rest : List (Instr C T)} {t : T} (i : Nat) (hl : s.Live i)
      (h : (s.threads i).rest = .spawn t :: rest) : Step P s (.step i) ((s.setRest i rest).spawn P t)
  | caught {s : Process C T X} {rest : List (Instr C T)} {body : List C} (i : Nat) (c : C) (hl : s.Live i)
      (h : (s.threads i).rest = .attempt (c :: body) :: rest)
      (hc : ∀ x ∈ s.outstanding, P.effect c ≠ .undo x) : Step P s (.caught i) (s.setRest i rest)
  | raise {s : Process C T X} (i : Nat) (c : C) (hl : s.Live i) (h : nextCall (s.threads i).rest = some c)
      (hc : ∀ x ∈ s.outstanding, P.effect c ≠ .undo x) :
      Step P s (.raise i)
        { s with threads := Function.update s.threads i { s.threads i with raised := true } }
  | exit {s : Process C T X} (hl : s.exited = false) (hmain : (s.threads 0).Over)
      (hall : ∀ i < s.count, (s.threads i).daemon = false → (s.threads i).Over) :
      Step P s .exit { s with exited := true }

/-! What a script still owes. -/

namespace Program
variable (P : Program C T X)

/-- An undo of `x` comes before any further disturbance of it. -/
def due (x : X) : List C → Bool
  | [] => false
  | c :: cs =>
    match P.effect c with
    | .neutral => due x cs
    | .disturb y => if y = x then false else due x cs
    | .undo y => if y = x then true else due x cs

/-- Every disturbance is undone further on. -/
def closed : List C → Bool
  | [] => true
  | c :: cs =>
    match P.effect c with
    | .disturb x => P.due x cs && closed cs
    | _ => closed cs

end Program

/-- The calls outside `attempt` and loops. -/
def topCalls (rest : List (Instr C T)) : List C := rest.filterMap fun
  | .call c => some c
  | _ => none

/-- A script undoes what it disturbs, and disturbs nothing in `attempt` and loops. -/
structure Sound (P : Program C T X) (rest : List (Instr C T)) : Prop where
  neutral : ∀ instr ∈ rest, match instr with
    | .attempt body | .whileNot _ body => ∀ c ∈ body, P.effect c = .neutral
    | _ => True
  closed : P.closed (topCalls rest) = true

/-- No disturbance that is outstanding is one the thread still has to undo. -/
def OwesNothing (P : Program C T X) (s : Process C T X) (i : Nat) : Prop :=
  ∀ x ∈ s.outstanding, P.due x (topCalls (s.threads i).rest) = false

private theorem owesNothing_of_restored {P : Program C T X} {s : Process C T X} (h : s.outstanding = ∅) (i : Nat) :
    OwesNothing P s i := fun x hx => by simp [h] at hx

/-- No thread is ended, by an exception or by the exit of the process, while it owes an undo. -/
def Unhurt (P : Program C T X) (s : Process C T X) : Event → Prop
  | .raise i => OwesNothing P s i
  | .exit => ∀ i, (s.threads i).daemon = true → (s.threads i).raised = false → OwesNothing P s i
  | _ => True

/-- Whatever is outstanding is owed by a thread that has not raised. -/
structure Inv (P : Program C T X) (s : Process C T X) : Prop where
  sound : ∀ i, Sound P (s.threads i).rest
  fresh : ∀ i, s.count ≤ i → (s.threads i).rest = []
  owed : ∀ x ∈ s.outstanding, ∃ i, (s.threads i).raised = false ∧ P.due x (topCalls (s.threads i).rest) = true

variable {P : Program C T X} {s t : Process C T X} {ev : Event} {i : Nat} {c : C} {cs : List C}
  {instr : Instr C T} {rest rest' : List (Instr C T)}

theorem Sound.tail (h : Sound P (instr :: rest)) : Sound P rest where
  neutral instr' hin := h.neutral instr' (List.mem_cons_of_mem _ hin)
  closed := by
    cases instr with
    | call c =>
      have hclosed : P.closed (c :: topCalls rest) = true := h.closed
      simp only [Program.closed] at hclosed
      split at hclosed
      · exact (Bool.and_eq_true_iff.mp hclosed).2
      · exact hclosed
    | _ => exact h.closed

/-- After a call, what is outstanding was owed before or is newly disturbed, and is owed still. -/
theorem due_of_apply {x : X} {outstanding : Finset X} (hclosed : P.closed (c :: cs) = true)
    (hx : x ∈ (P.effect c).apply outstanding) :
    P.due x cs = true ∨ (x ∈ outstanding ∧ (P.due x (c :: cs) = true → P.due x cs = true)) := by
  cases he : P.effect c with
  | neutral =>
    rw [he] at hx
    exact .inr ⟨hx, fun h => by simpa only [Program.due, he] using h⟩
  | disturb y =>
    rw [he] at hx
    rcases Finset.mem_insert.mp hx with rfl | hx
    · simp only [Program.closed, he, Bool.and_eq_true] at hclosed
      exact .inl hclosed.1
    · refine .inr ⟨hx, fun h => ?_⟩
      simp only [Program.due, he] at h
      split at h
      · cases h
      · exact h
  | undo y =>
    rw [he] at hx
    obtain ⟨hne, hx⟩ := Finset.mem_erase.mp hx
    refine .inr ⟨hx, fun h => ?_⟩
    simp only [Program.due, he] at h
    split at h
    · next hxy => exact absurd hxy.symm hne
    · exact h

/-- Calls of no effect do not change what is owed. -/
theorem due_append_neutral (x : X) (h : ∀ c ∈ cs, P.effect c = .neutral) (more : List C) :
    P.due x (cs ++ more) = P.due x more := by
  induction cs with
  | nil => rfl
  | cons c cs ih =>
    rw [List.cons_append, Program.due, h c List.mem_cons_self]
    exact ih fun d hd => h d (List.mem_cons_of_mem _ hd)

private theorem closed_append_neutral (h : ∀ c ∈ cs, P.effect c = .neutral) (more : List C) :
    P.closed (cs ++ more) = P.closed more := by
  induction cs with
  | nil => rfl
  | cons c cs ih =>
    rw [List.cons_append, Program.closed, h c List.mem_cons_self]
    exact ih fun d hd => h d (List.mem_cons_of_mem _ hd)

private theorem topCalls_append : topCalls (rest ++ rest') = topCalls rest ++ topCalls rest' := List.filterMap_append

private theorem topCalls_map_call (body : List C) : topCalls (body.map (Instr.call (T := T))) = body := by
  induction body with
  | nil => rfl
  | cons c body ih => exact congrArg (c :: ·) ih

/-- Unrolling a loop once more keeps a script sound. -/
theorem Sound.unroll {body : List C} {flag : Nat} (h : Sound P (.whileNot flag body :: rest)) :
    Sound P (body.map .call ++ .whileNot flag body :: rest) where
  neutral instr' hin := by
    rcases List.mem_append.mp hin with hin | hin
    · obtain ⟨c, -, rfl⟩ := List.mem_map.mp hin
      trivial
    · exact h.neutral instr' hin
  closed := by
    rw [topCalls_append, topCalls_map_call, closed_append_neutral (h.neutral _ List.mem_cons_self)]
    exact h.closed

omit [DecidableEq X] in
private theorem setRest_rest (s : Process C T X) (i j : Nat) (rest : List (Instr C T)) :
    ((s.setRest i rest).threads j).rest = if j = i then rest else (s.threads j).rest := by
  by_cases h : j = i
  · simp [Process.setRest, h]
  · simp [Process.setRest, h]

omit [DecidableEq X] in
private theorem setRest_raised (s : Process C T X) (i j : Nat) (rest : List (Instr C T)) :
    ((s.setRest i rest).threads j).raised = (s.threads j).raised := by
  by_cases h : j = i
  · simp [Process.setRest, h]
  · simp [Process.setRest, Function.update_of_ne h]

/-- A live thread moves on. -/
theorem Inv.move (h : Inv P s) (hl : s.Live i) (hsound : Sound P rest) {outstanding : Finset X}
    (howed : ∀ x ∈ outstanding, P.due x (topCalls rest) = true ∨
      (x ∈ s.outstanding ∧ (P.due x (topCalls (s.threads i).rest) = true → P.due x (topCalls rest) = true))) :
    Inv P { s.setRest i rest with outstanding := outstanding } where
  sound j := by
    simp only [setRest_rest]
    split
    · exact hsound
    · exact h.sound j
  fresh j hj := by
    have hne : j ≠ i := fun he => absurd hl.2.1 (Nat.not_lt.mpr (he ▸ hj))
    simpa only [setRest_rest, if_neg hne] using h.fresh j hj
  owed x hx := by
    simp only [setRest_rest, setRest_raised]
    rcases howed x hx with hdue | ⟨hin, himp⟩
    · exact ⟨i, hl.2.2, by simpa using hdue⟩
    · obtain ⟨j, hraised, hdue⟩ := h.owed x hin
      refine ⟨j, hraised, ?_⟩
      split
      · next hji => exact himp (hji ▸ hdue)
      · exact hdue

/-- A live thread moves on without changing what it owes. -/
theorem Inv.keep (h : Inv P s) (hl : s.Live i) (hsound : Sound P rest)
    (hdue : ∀ x, P.due x (topCalls (s.threads i).rest) = P.due x (topCalls rest)) : Inv P (s.setRest i rest) :=
  h.move hl hsound fun x hx => .inr ⟨hx, fun hd => hdue x ▸ hd⟩

theorem Inv.spawn (h : Inv P s) {body : T} (hbody : Sound P (P.body body)) : Inv P (s.spawn P body) where
  sound j := by
    by_cases hj : j = s.count
    · simpa [Process.spawn, hj] using hbody
    · simpa [Process.spawn, Function.update_of_ne hj] using h.sound j
  fresh j hj := by
    have hj' : s.count + 1 ≤ j := hj
    have hne : j ≠ s.count := by omega
    simpa [Process.spawn, Function.update_of_ne hne] using h.fresh j (by omega)
  owed x hx := by
    obtain ⟨j, hraised, hdue⟩ := h.owed x hx
    have hne : j ≠ s.count := by
      rintro rfl
      rw [h.fresh _ (Nat.le_refl _)] at hdue
      cases hdue
    exact ⟨j, by simpa [Process.spawn, Function.update_of_ne hne] using ⟨hraised, hdue⟩⟩

/-- Each step that hurts no thread keeps what is outstanding owed. -/
theorem Step.inv (hbody : ∀ t, Sound P (P.body t)) (hs : Step P s ev t) (hok : Unhurt P s ev) (h : Inv P s) :
    Inv P t := by
  cases hs with
  | call i c hl hr =>
    have hsound := hr ▸ h.sound i
    apply h.move hl hsound.tail
    intro x hx
    rw [hr]
    exact due_of_apply hsound.closed hx
  | @attempt rest body i c hl hr =>
    have hsound := hr ▸ h.sound i
    have hneutral : ∀ d ∈ c :: body, P.effect d = .neutral := hsound.neutral _ List.mem_cons_self
    have hrest : Sound P (.attempt body :: rest) := by
      refine ⟨fun instr hin => ?_, hsound.closed⟩
      rcases List.mem_cons.mp hin with rfl | hin
      · exact fun d hd => hneutral d (List.mem_cons_of_mem _ hd)
      · exact hsound.neutral instr (List.mem_cons_of_mem _ hin)
    rw [hneutral c List.mem_cons_self]
    exact h.keep hl hrest fun x => by rw [hr]; rfl
  | attempted i hl hr =>
    exact h.keep hl (hr ▸ h.sound i).tail fun x => by rw [hr]; rfl
  | @test rest body flag i hl hr =>
    have hsound := hr ▸ h.sound i
    split
    · exact h.keep hl hsound.tail fun x => by rw [hr]; rfl
    · apply h.keep hl hsound.unroll
      intro x
      rw [hr, topCalls_append, topCalls_map_call, due_append_neutral x (hsound.neutral _ List.mem_cons_self)]
  | setFlag i hl hr =>
    have hmoved := h.keep hl (hr ▸ h.sound i).tail fun x => by rw [hr]; rfl
    exact ⟨hmoved.sound, hmoved.fresh, hmoved.owed⟩
  | spawn i hl hr =>
    exact (h.keep hl (hr ▸ h.sound i).tail fun x => by rw [hr]; rfl).spawn (hbody _)
  | caught i c hl hr hc =>
    exact h.keep hl (hr ▸ h.sound i).tail fun x => by rw [hr]; rfl
  | raise i c hl hr hc =>
    refine ⟨fun j => ?_, fun j hj => ?_, fun x hx => ?_⟩
    · by_cases hj : j = i
      · simpa [hj] using h.sound i
      · simpa [Function.update_of_ne hj] using h.sound j
    · have hne : j ≠ i := fun he => absurd hl.2.1 (Nat.not_lt.mpr (he ▸ hj))
      simpa [Function.update_of_ne hne] using h.fresh j hj
    · obtain ⟨j, hraised, hdue⟩ := h.owed x hx
      have hne : j ≠ i := by
        rintro rfl
        rw [hok x hx] at hdue
        cases hdue
      exact ⟨j, by simpa [Function.update_of_ne hne] using ⟨hraised, hdue⟩⟩
  | exit => exact ⟨h.sound, h.fresh, h.owed⟩

theorem initial_inv {main : List (Instr C T)} (hmain : Sound P main) :
    Inv P (Process.initial main) where
  sound i := by
    simp only [Process.initial]
    split
    · exact hmain
    · exact ⟨by simp, rfl⟩
  fresh i hi := by
    have hi' : 1 ≤ i := hi
    simp only [Process.initial, if_neg (show i ≠ 0 by omega)]
  owed x hx := by simp [Process.initial] at hx

/-- A process whose threads are never ended while they owe an undo has undone
everything at its exit. -/
theorem restored_of_unhurt (hbody : ∀ t, Sound P (P.body t)) {main : List (Instr C T)} (hmain : Sound P main)
    {events : List Event} (hrun : Run (Guarded (Step P) (Unhurt P)) (.initial main) events s)
    (hexit : s.exited = true) : s.outstanding = ∅ := by
  have hinv : Inv P s ∧ (s.exited = true → s.outstanding = ∅) := by
    refine hrun.invariant (fun s => Inv P s ∧ (s.exited = true → s.outstanding = ∅)) ?_
      ⟨initial_inv hmain, by simp [Process.initial]⟩
    rintro u ev v ⟨hok, hs⟩ ⟨hu, -⟩
    refine ⟨hs.inv hbody hok hu, fun hv => ?_⟩
    cases hs with
    | exit hl hmain hall =>
      apply Finset.eq_empty_of_forall_notMem
      intro x hx
      obtain ⟨j, hraised, hdue⟩ := hu.owed x hx
      cases hd : (u.threads j).daemon with
      | true =>
        rw [hok j hd hraised x hx] at hdue
        cases hdue
      | false =>
        have hlt : j < u.count := by
          by_contra hge
          rw [hu.fresh j (Nat.not_lt.mp hge)] at hdue
          cases hdue
        rcases hall j hlt hd with hrest | hr
        · rw [hrest] at hdue
          cases hdue
        · rw [hraised] at hr
          cases hr
    | call _ _ hl | attempt _ _ hl | attempted _ hl | test _ hl | setFlag _ hl | caught _ _ hl | raise _ _ hl
    | spawn _ hl =>
      have hfalse := hl.1
      simp_all [Process.setRest, Process.spawn]
  exact hinv.2 hexit

/-- A step that ends no thread hurts none. -/
theorem Step.unhurt_cons {u : Process C T X} {events : List Event} (hs : Step P s (.step i) t)
    (hrun : Run (Guarded (Step P) (Unhurt P)) t events u) :
    Run (Guarded (Step P) (Unhurt P)) s (.step i :: events) u := .cons ⟨trivial, hs⟩ hrun

theorem Step.unhurt_exit (hs : Step P s .exit t) (h : s.outstanding = ∅) :
    Run (Guarded (Step P) (Unhurt P)) s [.exit] t :=
  .cons ⟨fun i _ _ => owesNothing_of_restored h i, hs⟩ (.nil t)

/-! Building sound scripts. -/

/-- An instruction that neither disturbs nor undoes anything itself. -/
def Quiet (P : Program C T X) : Instr C T → Prop
  | .call c => P.effect c = .neutral
  | .attempt body | .whileNot _ body => ∀ c ∈ body, P.effect c = .neutral
  | _ => True

omit [DecidableEq X] in
private theorem topCalls_quiet (h : ∀ instr ∈ rest, Quiet P instr) : ∀ c ∈ topCalls rest, P.effect c = .neutral := by
  intro c hc
  obtain ⟨instr, hin, hinstr⟩ := List.mem_filterMap.mp hc
  have := h instr hin
  cases instr <;> simp at hinstr
  exact hinstr ▸ this

theorem Sound.nil : Sound P ([] : List (Instr C T)) := ⟨by simp, rfl⟩

theorem Sound.quiet (hquiet : ∀ instr ∈ rest, Quiet P instr) (h : Sound P rest') : Sound P (rest ++ rest') where
  neutral instr hin := by
    rcases List.mem_append.mp hin with hin | hin
    · have := hquiet instr hin
      cases instr <;> trivial
    · exact h.neutral instr hin
  closed := by
    rw [topCalls_append, closed_append_neutral (topCalls_quiet hquiet)]
    exact h.closed

theorem Sound.undo {x : X} (hc : P.effect c = .undo x) (h : Sound P rest) : Sound P (.call c :: rest) where
  neutral instr hin := by
    rcases List.mem_cons.mp hin with rfl | hin
    · trivial
    · exact h.neutral instr hin
  closed := by
    change P.closed (c :: topCalls rest) = true
    simp only [Program.closed, hc]
    exact h.closed

/-- A disturbance, quiet instructions, and its undo. -/
theorem Sound.bracket {x : X} {c' : C} (hc : P.effect c = .disturb x) (hquiet : ∀ instr ∈ rest, Quiet P instr)
    (hc' : P.effect c' = .undo x) (h : Sound P rest') : Sound P (.call c :: (rest ++ .call c' :: rest')) where
  neutral instr hin := by
    rcases List.mem_cons.mp hin with rfl | hin
    · trivial
    · exact (Sound.quiet hquiet (h.undo hc')).neutral instr hin
  closed := by
    have hdue : P.due x (topCalls rest ++ c' :: topCalls rest') = true := by
      rw [due_append_neutral x (topCalls_quiet hquiet)]
      simp only [Program.due, hc', if_true]
    change P.closed (c :: topCalls (rest ++ .call c' :: rest')) = true
    simp only [Program.closed, hc, Bool.and_eq_true]
    refine ⟨?_, (Sound.quiet hquiet (h.undo hc')).closed⟩
    rw [topCalls_append]
    exact hdue

/-! Running a thread through calls of no effect. -/

/-- Whether an event is an exception that no handler catches. -/
def Event.isRaise : Event → Bool
  | .raise _ => true
  | _ => false

omit [DecidableEq X] in
private theorem setRest_setRest (s : Process C T X) (i : Nat) (rest rest' : List (Instr C T)) :
    (s.setRest i rest).setRest i rest' = s.setRest i rest' := by
  simp [Process.setRest]

omit [DecidableEq X] in
theorem Process.Live.setRest (hl : s.Live i) (rest : List (Instr C T)) : (s.setRest i rest).Live i :=
  ⟨hl.1, hl.2.1, by rw [setRest_raised]; exact hl.2.2⟩

/-- A live thread runs through a handled block of calls of no effect. -/
theorem run_attempt {body : List C} (hbody : ∀ c ∈ body, P.effect c = .neutral) (hl : s.Live i)
    (h : (s.threads i).rest = .attempt body :: rest) :
    ∃ events, Run (Step P) s events (s.setRest i rest) ∧ events.countP Event.isRaise = 0 := by
  induction body generalizing s with
  | nil => exact ⟨_, .cons (.attempted i hl h) (.nil _), rfl⟩
  | cons c body ih =>
    obtain ⟨events, hrun, hcount⟩ := ih (s := s.setRest i (.attempt body :: rest))
      (fun d hd => hbody d (List.mem_cons_of_mem _ hd)) (hl.setRest _) (by simp [setRest_rest])
    have hstep : Step P s (.step i) (s.setRest i (.attempt body :: rest)) := by
      have hcall := (Step.attempt i c hl h : Step P s _ _)
      rw [hbody c List.mem_cons_self] at hcall
      exact hcall
    rw [setRest_setRest] at hrun
    exact ⟨_, .cons hstep hrun, hcount⟩

/-- The instructions that are calls, handled or not. -/
def Instr.isCall : Instr C T → Bool
  | .call _ | .attempt _ => true
  | _ => false

/-- A live thread runs through quiet calls. -/
theorem run_quiet {before : List (Instr C T)} (hquiet : ∀ instr ∈ before, Quiet P instr)
    (hcalls : ∀ instr ∈ before, instr.isCall = true) (hl : s.Live i) (h : (s.threads i).rest = before ++ rest) :
    ∃ events, Run (Step P) s events (s.setRest i rest) ∧ events.countP Event.isRaise = 0 := by
  induction before generalizing s with
  | nil =>
    have hsame : s.setRest i rest = s := by
      rw [List.nil_append] at h
      simp [Process.setRest, ← h]
    exact ⟨[], by rw [hsame]; exact .nil s, rfl⟩
  | cons instr before ih =>
    obtain ⟨hinstr, hbefore⟩ := List.forall_mem_cons.mp hquiet
    obtain ⟨hcall, hcalls⟩ := List.forall_mem_cons.mp hcalls
    obtain ⟨events, hrun, hcount⟩ := ih (s := s.setRest i (before ++ rest)) hbefore hcalls (hl.setRest _)
      (by simp [setRest_rest])
    rw [setRest_setRest] at hrun
    cases instr with
    | call c =>
      have hstep : Step P s (.step i) (s.setRest i (before ++ rest)) := by
        have hcall := (Step.call i c hl h : Step P s _ _)
        rw [show P.effect c = .neutral from hinstr] at hcall
        exact hcall
      exact ⟨_, .cons hstep hrun, hcount⟩
    | attempt body =>
      obtain ⟨first, hfirst, hzero⟩ := run_attempt hinstr hl h
      exact ⟨_, hfirst.append hrun, by rw [List.countP_append, hzero, hcount]⟩
    | _ => cases hcall

end Shipstream.Python
