import Shipstream.Kafka.Poll

/-! sim_log_start_offset.py: what `try_consume_with_reset` reports of a resumed group. -/
namespace Shipstream.Simulations.LogStartOffset
open Kafka

/-- auto.offset.reset -/
inductive Policy where
  | earliest
  | latest
  | error
  deriving DecidableEq, Repr

def Policy.name : Policy → String
  | .earliest => "earliest"
  | .latest => "latest"
  | .error => "error"

/-- The appended lines. `skipped` carries the end of the range, one less than the first offset read. -/
inductive ReportLine where
  | header (policy : Policy)
  | exceptionRaised (text : String)
  | halted
  | noMessages
  | allSkipped
  | resumed (offset : Nat)
  | readOffsets (offsets : List Nat)
  | skipped (last : Int)
  deriving DecidableEq, Repr

def ReportLine.text : ReportLine → String
  | .header policy => "\n  [policy] auto.offset.reset = " ++ policy.name
  | .exceptionRaised text => "  [result] Exception raised: " ++ text
  | .halted => "           Consumer halted. The gap must be handled explicitly."
  | .noMessages => "  [result] No messages received (reset to latest — at tip of log)."
  | .allSkipped => "           All historical messages were silently skipped."
  | .resumed offset => "  [result] Resumed from offset " ++ toString offset ++ " (log start offset)."
  | .readOffsets offsets => "           Read offsets: [" ++ ", ".intercalate (offsets.map toString) ++ "]"
  | .skipped last => "           Offsets 0–" ++ toString last ++ " were silently skipped."

/-- `result_offsets` and `error_seen` after the loop. -/
@[ext]
structure Reading where
  offsets : List Nat
  errorSeen : Option String
  deriving DecidableEq, Repr

/-- The loop over the polls made before the deadline. A poll may raise instead of returning. -/
def readLoop : List Nat → List (Except String Polled) → Reading
  | offsets, [] => ⟨offsets, none⟩
  | offsets, .error text :: _ => ⟨offsets, some text⟩
  | offsets, .ok .timeout :: rest => if offsets ≠ [] then ⟨offsets, none⟩ else readLoop offsets rest
  | offsets, .ok (.eof _) :: _ => ⟨offsets, none⟩
  | offsets, .ok (.error text) :: _ => ⟨offsets, some text⟩
  | offsets, .ok (.message m) :: rest =>
    let offsets := offsets ++ [m.offset]
    if 3 ≤ offsets.length then ⟨offsets, none⟩ else readLoop offsets rest

/-- The lines derived from the reading. -/
def Reading.report (reading : Reading) : List ReportLine :=
  match reading.errorSeen, reading.offsets with
  | some text, _ => [.exceptionRaised text, .halted]
  | none, [] => [.noMessages, .allSkipped]
  | none, first :: rest => [.resumed first, .readOffsets (first :: rest), .skipped (first - 1)]

/-- The lines that `try_consume_with_reset` appends. -/
def tryConsumeWithReset (policy : Policy) (polls : List (Except String Polled)) : List ReportLine :=
  .header policy :: (readLoop [] polls).report

/-! The broker. -/

/-- A partition with the group's committed offset in it. -/
structure Log where
  committed : Nat
  logStart : Nat
  logEnd : Nat
  ordered : logStart ≤ logEnd
  inside : committed ≤ logEnd
  deriving DecidableEq, Repr

/-- Where a consumer resumes; none when the policy raises. -/
def Log.resume (log : Log) (policy : Policy) : Option Nat :=
  if log.logStart ≤ log.committed then some log.committed
  else match policy with
    | .earliest => some log.logStart
    | .latest => some log.logEnd
    | .error => none

/-- What a consumer polls from a position on, time-outs at any point: the messages in offset
order, and the end of the partition where it is. -/
inductive Serves (logEnd : Nat) : Nat → List (Except String Polled) → Prop where
  | deadline (position : Nat) : Serves logEnd position []
  | timeout {position : Nat} {rest : List (Except String Polled)} (hr : Serves logEnd position rest) :
      Serves logEnd position (.ok .timeout :: rest)
  | message {position : Nat} {rest : List (Except String Polled)} (m : Message) (hm : m.offset = position)
      (hp : position < logEnd) (hr : Serves logEnd (position + 1) rest) :
      Serves logEnd position (.ok (.message m) :: rest)
  | eof {position : Nat} {rest : List (Except String Polled)} (p : Nat) (hp : position = logEnd)
      (hr : Serves logEnd position rest) : Serves logEnd position (.ok (.eof p) :: rest)

/-- What a consumer polls that must not reset: time-outs until the error, raised or returned. -/
inductive Refuses : List (Except String Polled) → Prop where
  | deadline : Refuses []
  | timeout {rest : List (Except String Polled)} (hr : Refuses rest) : Refuses (.ok .timeout :: rest)
  | raised (text : String) (rest : List (Except String Polled)) : Refuses (.error text :: rest)
  | returned (text : String) (rest : List (Except String Polled)) : Refuses (.ok (.error text) :: rest)

/-- The polls of a consumer that resumes by the broker's rule. -/
def Log.Polls (log : Log) (policy : Policy) (polls : List (Except String Polled)) : Prop :=
  match log.resume policy with
  | some position => Serves log.logEnd position polls
  | none => Refuses polls

/-- The first offset read. -/
def firstRead (polls : List (Except String Polled)) : Option Nat := (readLoop [] polls).offsets.head?

/-- The offsets that a report calls silently skipped: those up to the last of a `skipped` line. -/
def reportedSkipped (lines : List ReportLine) (k : Nat) : Prop := ∃ last, .skipped last ∈ lines ∧ (k : Int) ≤ last

/-- The report tells what happened: an exception exactly under the policy error, a reset to
latest only where one took place, and, when messages were read, as skipped exactly the
offsets from the committed one up to the first read, in no line if there is none. -/
structure Exact (log : Log) (policy : Policy) (polls : List (Except String Polled)) : Prop where
  exception : (∃ text, .exceptionRaised text ∈ tryConsumeWithReset policy polls) ↔
    log.committed < log.logStart ∧ policy = .error
  reset : .noMessages ∈ tryConsumeWithReset policy polls ∨ .allSkipped ∈ tryConsumeWithReset policy polls →
    log.committed < log.logStart ∧ policy = .latest
  skipped : ∀ first, firstRead polls = some first →
    ∀ k, reportedSkipped (tryConsumeWithReset policy polls) k ↔ log.committed ≤ k ∧ k < first
  silent : ∀ first, firstRead polls = some first → first ≤ log.committed →
    ∀ last, .skipped last ∉ tryConsumeWithReset policy polls

def MessagePolled (polls : List (Except String Polled)) : Prop := ∃ m, .ok (.message m) ∈ polls

def ErrorPolled (polls : List (Except String Polled)) : Prop :=
  ∃ text, .error text ∈ polls ∨ .ok (.error text) ∈ polls

private theorem messagePolled_cons {poll : Except String Polled} {rest : List (Except String Polled)}
    (hp : ∀ m, poll ≠ .ok (.message m)) : MessagePolled (poll :: rest) ↔ MessagePolled rest := by
  apply exists_congr
  intro m
  rw [List.mem_cons, or_iff_right (hp m).symm]

/-! What the loop reads. -/

section Reading
variable {logEnd position : Nat} {offsets : List Nat} {polls : List (Except String Polled)}

/-- The loop only appends to its offsets. -/
theorem readLoop_prefix (offsets : List Nat) (polls : List (Except String Polled)) :
    offsets <+: (readLoop offsets polls).offsets := by
  induction polls generalizing offsets with
  | nil => exact List.prefix_rfl
  | cons poll rest ih =>
    match poll with
    | .error text => exact List.prefix_rfl
    | .ok (.eof p) => exact List.prefix_rfl
    | .ok (.error text) => exact List.prefix_rfl
    | .ok .timeout =>
      rw [readLoop]
      split
      · exact List.prefix_rfl
      · exact ih offsets
    | .ok (.message m) =>
      rw [readLoop]
      split
      · exact List.prefix_append _ _
      · exact (List.prefix_append _ _).trans (ih _)

theorem Serves.errorSeen (h : Serves logEnd position polls) (offsets : List Nat) :
    (readLoop offsets polls).errorSeen = none := by
  induction h generalizing offsets with
  | deadline => rfl
  | timeout hr ih =>
    rw [readLoop]
    split
    · rfl
    · exact ih offsets
  | message m hm hp hr ih =>
    rw [readLoop]
    split
    · rfl
    · exact ih _
  | eof p hp hr ih => rfl

/-- At the end of the partition nothing is polled. -/
theorem Serves.no_message (h : Serves logEnd position polls) (he : position = logEnd) : ¬ MessagePolled polls := by
  induction h with
  | deadline => rintro ⟨m, hm⟩; cases hm
  | timeout hr ih =>
    rw [messagePolled_cons (fun m hm => by cases hm)]
    exact ih he
  | message m hm hp hr ih => omega
  | eof p hp hr ih =>
    rw [messagePolled_cons (fun m hm => by cases hm)]
    exact ih he

/-- What is read from a position on: nothing without a message, else that offset first. -/
theorem Serves.read (h : Serves logEnd position polls) :
    ((readLoop [] polls).offsets = [] ∧ ¬ MessagePolled polls) ∨
      ∃ more, (readLoop [] polls).offsets = position :: more ∧ MessagePolled polls ∧ position < logEnd := by
  induction h with
  | deadline =>
    refine .inl ⟨rfl, ?_⟩
    rintro ⟨m, hm⟩
    cases hm
  | timeout hr ih =>
    rw [messagePolled_cons (fun m hm => by cases hm), readLoop, if_neg (not_not.mpr rfl)]
    exact ih
  | @message position rest m hm hp hr ih =>
    obtain ⟨more, hmore⟩ := readLoop_prefix [m.offset] rest
    refine .inr ⟨more, ?_, ⟨m, List.mem_cons_self⟩, hp⟩
    rw [readLoop, if_neg (by simp), List.nil_append, ← hmore, hm]
    rfl
  | eof p hp hr ih =>
    refine .inl ⟨rfl, ?_⟩
    rw [messagePolled_cons (fun m hm => by cases hm)]
    exact hr.no_message hp

/-- A consumer that must not reset reads nothing, and sees the error if it is polled. -/
theorem Refuses.read (h : Refuses polls) : (readLoop [] polls = ⟨[], none⟩ ∧ ¬ ErrorPolled polls) ∨
    ∃ text, readLoop [] polls = ⟨[], some text⟩ ∧ ErrorPolled polls := by
  induction h with
  | deadline =>
    refine .inl ⟨rfl, ?_⟩
    rintro ⟨text, hm | hm⟩ <;> cases hm
  | timeout hr ih =>
    have hcons : ∀ rest, ErrorPolled (.ok .timeout :: rest) ↔ ErrorPolled rest := fun rest => by
      simp [ErrorPolled]
    rw [hcons, readLoop, if_neg (not_not.mpr rfl)]
    exact ih
  | raised text rest => exact .inr ⟨text, rfl, text, .inl List.mem_cons_self⟩
  | returned text rest => exact .inr ⟨text, rfl, text, .inr List.mem_cons_self⟩

end Reading

/-! The report. -/

section Report
variable {log : Log} {policy : Policy} {polls : List (Except String Polled)}

theorem Log.resume_eq_none : log.resume policy = none ↔ log.committed < log.logStart ∧ policy = .error := by
  unfold Log.resume
  split
  · next hle => simp [Nat.not_lt.mpr hle]
  · next hlt => cases policy <;> simp [Nat.lt_of_not_le hlt]

theorem Log.resume_eq_some {position : Nat} (h : log.resume policy = some position) :
    (log.logStart ≤ log.committed ∧ position = log.committed) ∨
      (log.committed < log.logStart ∧ policy = .earliest ∧ position = log.logStart) ∨
      (log.committed < log.logStart ∧ policy = .latest ∧ position = log.logEnd) := by
  unfold Log.resume at h
  split at h
  · next hle =>
    cases h
    exact .inl ⟨hle, rfl⟩
  · next hgt =>
    have hlt := Nat.lt_of_not_le hgt
    cases policy with
    | earliest =>
      cases h
      exact .inr (.inl ⟨hlt, rfl, rfl⟩)
    | latest =>
      cases h
      exact .inr (.inr ⟨hlt, rfl, rfl⟩)
    | error => cases h

/-! The lines of each reading. -/

theorem report_of_nothing (policy : Policy) (h : readLoop [] polls = ⟨[], none⟩) :
    tryConsumeWithReset policy polls = [.header policy, .noMessages, .allSkipped] := by
  rw [tryConsumeWithReset, h]
  rfl

private theorem report_of_read (policy : Policy) {first : Nat} {more : List Nat}
    (h : readLoop [] polls = ⟨first :: more, none⟩) :
    tryConsumeWithReset policy polls =
      [.header policy, .resumed first, .readOffsets (first :: more), .skipped (first - 1)] := by
  rw [tryConsumeWithReset, h]
  rfl

theorem report_of_error (policy : Policy) {text : String} {offsets : List Nat}
    (h : readLoop [] polls = ⟨offsets, some text⟩) :
    tryConsumeWithReset policy polls = [.header policy, .exceptionRaised text, .halted] := by
  rw [tryConsumeWithReset, h]
  rfl

/-- Every offset before the first one read is reported as skipped. -/
theorem reportedSkipped_of_read (policy : Policy) {first : Nat} {more : List Nat}
    (h : readLoop [] polls = ⟨first :: more, none⟩) (k : Nat) :
    reportedSkipped (tryConsumeWithReset policy polls) k ↔ k < first := by
  simp only [reportedSkipped, report_of_read policy h, List.mem_cons, reduceCtorEq, ReportLine.skipped.injEq,
    List.not_mem_nil, false_or, or_false, exists_eq_left]
  omega

/-- Nothing read and no error seen: the report says that the group was reset to latest. -/
theorem exact_of_nothing (h : readLoop [] polls = ⟨[], none⟩) :
    Exact log policy polls ↔ log.committed < log.logStart ∧ policy = .latest := by
  have hreport := report_of_nothing policy h
  have hfirst : firstRead polls = none := by
    rw [firstRead, h]
    rfl
  constructor
  · intro hexact
    exact hexact.reset (.inl (by simp [hreport]))
  · rintro ⟨hlt, rfl⟩
    refine ⟨?_, fun _ => ⟨hlt, rfl⟩, fun first hf => ?_, fun first hf => ?_⟩
    · simp [hreport]
    · rw [hfirst] at hf
      cases hf
    · rw [hfirst] at hf
      cases hf

/-- Messages read: the report says that everything before the first one was skipped. -/
theorem exact_of_read {first : Nat} {more : List Nat} (h : readLoop [] polls = ⟨first :: more, none⟩)
    (hresume : log.resume policy = some first) :
    Exact log policy polls ↔ log.committed = 0 ∧ log.committed < first := by
  have hreport := report_of_read policy h
  have hfirst : firstRead polls = some first := by
    rw [firstRead, h]
    rfl
  have hskipped := reportedSkipped_of_read policy h
  constructor
  · intro hexact
    have hlt : log.committed < first := by
      by_contra hle
      exact hexact.silent first hfirst (Nat.not_lt.mp hle) (first - 1) (by simp [hreport])
    refine ⟨?_, hlt⟩
    have hzero := (hexact.skipped first hfirst 0).mp ((hskipped 0).mpr (by omega))
    omega
  · rintro ⟨hzero, hlt⟩
    refine ⟨?_, ?_, fun f hf k => ?_, fun f hf hle => ?_⟩
    · have hresets : ¬ (log.committed < log.logStart ∧ policy = .error) := by
        rw [← Log.resume_eq_none, hresume]
        exact Option.some_ne_none _
      simp [hreport, hresets]
    · simp [hreport]
    · cases hfirst.symm.trans hf
      rw [hskipped, hzero]
      omega
    · cases hfirst.symm.trans hf
      omega

/-- An error seen: the report names it. -/
theorem exact_of_error {text : String} (h : readLoop [] polls = ⟨[], some text⟩) :
    Exact log policy polls ↔ log.committed < log.logStart ∧ policy = .error := by
  have hreport := report_of_error policy h
  have hfirst : firstRead polls = none := by
    rw [firstRead, h]
    rfl
  constructor
  · intro hexact
    exact hexact.exception.mp ⟨text, by simp [hreport]⟩
  · intro hresets
    refine ⟨⟨fun _ => hresets, fun _ => ⟨text, by simp [hreport]⟩⟩, ?_, fun first hf => ?_, fun first hf => ?_⟩
    · simp [hreport]
    · rw [hfirst] at hf
      cases hf
    · rw [hfirst] at hf
      cases hf

/-- The group's offset has been deleted, and the policy is latest, or it is error and the error
comes before the deadline, or it is earliest, a message comes before the deadline and the
group had committed offset 0. -/
def Told (log : Log) (policy : Policy) (polls : List (Except String Polled)) : Prop :=
  log.committed < log.logStart ∧
    match policy with
    | .earliest => log.committed = 0 ∧ MessagePolled polls
    | .latest => True
    | .error => ErrorPolled polls

/-- Over every position of the committed offset, every policy and every timing of the polls, the
report is exact if and only if the condition holds. -/
theorem report_exact_iff (h : log.Polls policy polls) : Exact log policy polls ↔ Told log policy polls := by
  unfold Log.Polls at h
  cases hresume : log.resume policy with
  | none =>
    rw [hresume] at h
    obtain ⟨hlt, rfl⟩ := Log.resume_eq_none.mp hresume
    rcases Refuses.read h with ⟨hread, hpolled⟩ | ⟨text, hread, hpolled⟩
    · rw [exact_of_nothing hread]
      simp [Told, hpolled]
    · rw [exact_of_error hread]
      simp [Told, hpolled]
  | some position =>
    rw [hresume] at h
    have hnone := Serves.errorSeen h []
    rcases Serves.read h with ⟨hread, hpolled⟩ | ⟨more, hread, hpolled, hlt⟩
    · rw [exact_of_nothing (Reading.ext hread hnone)]
      rcases Log.resume_eq_some hresume with ⟨hle, -⟩ | ⟨hlt, rfl, -⟩ | ⟨hlt, rfl, -⟩
      · simp [Told, Nat.not_lt.mpr hle]
      · simp [Told, hpolled]
      · simp [Told]
    · rw [exact_of_read (Reading.ext hread hnone) hresume]
      rcases Log.resume_eq_some hresume with ⟨hle, rfl⟩ | ⟨-, rfl, rfl⟩ | ⟨-, -, rfl⟩
      · simp [Told, Nat.not_lt.mpr hle]
      · simp only [Told, hpolled, and_true]
        exact and_comm
      · exact absurd hlt (lt_irrefl _)

end Report

/-- The guide's example: offsets 10 to 15 of the committed group are deleted. -/
def deleted : Log := ⟨10, 16, 30, by decide, by decide⟩

def resumedAt16 : List (Except String Polled) :=
  [.ok .timeout, .ok (.message ⟨0, 16, some []⟩), .ok (.message ⟨0, 17, some []⟩), .ok (.message ⟨0, 18, some []⟩)]

private theorem deleted_polls : deleted.Polls .earliest resumedAt16 :=
  .timeout (.message _ rfl (by decide) (.message _ rfl (by decide) (.message _ rfl (by decide) (.deadline _))))

/-- Offsets 0 to 15 are reported as skipped, of which the group had read 0 to 9. -/
theorem report_not_exact : ¬ ∀ (log : Log) (policy : Policy) (polls : List (Except String Polled)),
    log.Polls policy polls → Exact log policy polls := by
  intro hall
  have h := hall deleted .earliest resumedAt16 deleted_polls
  have hskipped := (h.skipped 16 (by decide) 0).mp ⟨15, by decide, by decide⟩
  exact absurd hskipped.1 (by decide)

theorem report_exact_iff_deleted : deleted.Polls .earliest resumedAt16 ∧
    (Exact deleted .earliest resumedAt16 ↔ Told deleted .earliest resumedAt16) :=
  ⟨deleted_polls, report_exact_iff deleted_polls⟩

end Shipstream.Simulations.LogStartOffset
