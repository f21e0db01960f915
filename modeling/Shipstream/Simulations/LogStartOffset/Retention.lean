import Shipstream.Kafka.SegmentedLog
import Shipstream.Simulations.LogStartOffset.Commit
import Shipstream.Simulations.LogStartOffset.Reset

/-! The steps of sim_log_start_offset.py over the log of its topic: a group commits, retention
runs, and the group resumes under each policy. -/
namespace Shipstream.Simulations.LogStartOffset
open Kafka Transition

/-- `create_topic`; the age at which segments roll stays the broker's. -/
def topic (segmentMs : Option Nat) : LogConfig := ⟨512, segmentMs, some 5000, none⟩

section
variable {α : Type} {start count position c : Nat} {segmentMs : Option Nat} {events events' : List (LogEvent α)}
  {l m : SegmentedLog α} {trace : List Polled} {polls : List (Except String Polled)} {policy : Policy} {k : Nat}

/-- The partition as a group with a committed offset in it finds it. -/
def logOf (l : SegmentedLog α) (committed : Nat) (inside : committed ≤ l.logEnd) : Log where
  committed := committed
  logStart := l.logStart
  logEnd := l.logEnd
  ordered := l.logEnd_eq ▸ Nat.le_add_right _ _
  inside := inside

/-- What a log serves lies in it. -/
theorem Serves.readable_lt {logEnd : Nat} (h : Serves logEnd position (trace.map Except.ok)) :
    ∀ msg ∈ readable trace, msg.offset < logEnd := by
  induction trace generalizing position with
  | nil => simp [readable]
  | cons polled rest ih =>
    cases h with
    | timeout hr => exact ih hr
    | eof p hp hr => simp [readable]
    | message msg hm hp hr =>
      intro msg' hin
      rcases List.mem_cons.mp hin with rfl | hin
      · exact hm ▸ hp
      · exact ih hr msg' hin

/-- What `consume_and_commit` commits lies in the log it was served from. -/
theorem committed_le (hserves : Serves l.logEnd position (trace.map Except.ok))
    (hc : (consumeAndCommit count ⟨position, none⟩ trace).2.committed = some c) : c ≤ l.logEnd := by
  rw [consumeAndCommit_committed] at hc
  split at hc
  · obtain ⟨offset, hlast, rfl⟩ := Option.map_eq_some_iff.mp hc
    have hin := List.mem_of_getLast? hlast
    rw [consumeAndCommit_offsets] at hin
    obtain ⟨msg, hmsg, rfl⟩ := List.mem_map.mp hin
    exact hserves.readable_lt msg (List.mem_of_mem_take hmsg)
  · cases hc

/-- Some message from the committed offset on is deleted. -/
def Behind (log : Log) (m : SegmentedLog α) : Prop := ∃ j, log.committed ≤ j ∧ j < log.logEnd ∧ m.read j = none

/-- What `try_consume_with_reset` reads and reports, against what is left of the messages that the
group had not read. What it reads is at most three messages of the log in a row, from the
committed offset on; the messages before the first one are the deleted ones, and from the
committed offset on they are what the report calls skipped. A group that is behind reads nothing
under latest and error; otherwise something is read if any message is polled. -/
structure Recovers (history : List (Stored α)) (m : SegmentedLog α) (log : Log) (policy : Policy)
    (polls : List (Except String Polled)) : Prop where
  consecutive : ∃ first n, (readLoop [] polls).offsets = List.range' first n ∧ n ≤ 3
  stored : ∀ k ∈ (readLoop [] polls).offsets, log.committed ≤ k ∧ k < history.length ∧ m.read k = history[k]?
  reads : ¬ (policy = .error ∧ Behind log m) → ((firstRead polls).isSome ↔ MessagePolled polls)
  skips : ∀ first, firstRead polls = some first → ∀ k, log.committed ≤ k → k < log.logEnd →
    (k < first ↔ m.read k = none)
  reports : ∀ first, firstRead polls = some first → ∀ k, log.committed ≤ k → k < log.logEnd →
    (reportedSkipped (tryConsumeWithReset policy polls) k ↔ m.read k = none)
  latest : policy = .latest → Behind log m →
    tryConsumeWithReset policy polls = [.header .latest, .noMessages, .allSkipped]
  error : policy = .error → Behind log m → firstRead polls = none ∧
    ((∃ text, tryConsumeWithReset policy polls = [.header .error, .exceptionRaised text, .halted]) ↔ ErrorPolled polls)

variable {history : List (Stored α)} {inside : c ≤ m.logEnd}

private theorem deleted_iff (h : Keeps history m) (hk : k < m.logEnd) : m.read k = none ↔ k < m.logStart := by
  have hend := h.logEnd
  rw [h.read_eq_none]
  omega

private theorem behind_iff (h : Keeps history m) : Behind (logOf m c inside) m ↔ c < m.logStart := by
  have hle := m.logStart_le_logEnd
  constructor
  · rintro ⟨j, hcj, hj, hnone⟩
    exact Nat.lt_of_le_of_lt hcj ((deleted_iff h hj).mp hnone)
  · intro hlt
    exact ⟨c, Nat.le_refl c, hlt.trans_le hle, (deleted_iff h (hlt.trans_le hle)).mpr hlt⟩

/-- The loop reads what is served from its position on, one offset after the other, and ends with the
third message. Induction over what is served. -/
theorem Serves.offsets {logEnd : Nat} (h : Serves logEnd position polls) (hle : position ≤ logEnd)
    (offsets : List Nat) (hlength : offsets.length < 3) :
    ∃ n, (readLoop offsets polls).offsets = offsets ++ List.range' position n ∧ offsets.length + n ≤ 3 ∧
      position + n ≤ logEnd := by
  induction h generalizing offsets with
  | deadline => exact ⟨0, (List.append_nil _).symm, hlength.le, hle⟩
  | timeout hr ih =>
    rw [readLoop]
    split
    · exact ⟨0, (List.append_nil _).symm, hlength.le, hle⟩
    · exact ih hle offsets hlength
  | @message position rest msg hm hp hr ih =>
    have hsize : (offsets ++ [msg.offset]).length = offsets.length + 1 := List.length_append
    have hrange (n : Nat) : offsets ++ List.range' position (n + 1) =
        offsets ++ [msg.offset] ++ List.range' (position + 1) n := by
      rw [hm, List.range'_succ, List.append_assoc, List.singleton_append]
    rw [readLoop]
    split
    · exact ⟨1, (hrange 0).trans (List.append_nil _) |>.symm, by omega, hp⟩
    · obtain ⟨n, hn, hthree, hend⟩ := ih hp (offsets ++ [msg.offset]) (by omega)
      exact ⟨n + 1, hn.trans (hrange n).symm, by omega, by omega⟩
  | eof p hp hr => exact ⟨0, (List.append_nil _).symm, hlength.le, hle⟩

/-- No policy resumes at a deleted offset, nor before the committed one. -/
theorem le_resume {log : Log} (hresume : log.resume policy = some position) :
    log.logStart ≤ position ∧ log.committed ≤ position ∧ position ≤ log.logEnd := by
  rcases Log.resume_eq_some hresume with ⟨hle, rfl⟩ | ⟨hlt, -, rfl⟩ | ⟨-, -, rfl⟩
  · exact ⟨hle, Nat.le_refl _, log.inside⟩
  · exact ⟨Nat.le_refl _, hlt.le, log.ordered⟩
  · exact ⟨log.ordered, log.inside, Nat.le_refl _⟩

/-- A consumer that may not reset reads nothing. -/
theorem recovers_of_refuses (h : Keeps history m) (hbehind : c < m.logStart) (hrefuses : Refuses polls) :
    Recovers history m (logOf m c inside) .error polls := by
  have hnothing : (readLoop [] polls).offsets = [] := by
    rcases hrefuses.read with ⟨hread, -⟩ | ⟨text, hread, -⟩ <;> rw [hread]
  have hfirst : firstRead polls = none := by
    rw [firstRead, hnothing]
    rfl
  refine ⟨⟨0, 0, hnothing, by decide⟩, fun k hk => ?_, fun hnot => ?_, fun first hf => ?_, fun first hf => ?_,
    fun hpolicy => ?_, fun _ _ => ⟨hfirst, ?_⟩⟩
  · rw [hnothing] at hk
    cases hk
  · exact absurd ⟨rfl, (behind_iff h).mpr hbehind⟩ hnot
  · rw [hfirst] at hf
    cases hf
  · rw [hfirst] at hf
    cases hf
  · cases hpolicy
  · rcases hrefuses.read with ⟨hread, hpolled⟩ | ⟨text, hread, hpolled⟩
    · simp [report_of_nothing _ hread, hpolled]
    · exact ⟨fun _ => hpolled, fun _ => ⟨text, report_of_error _ hread⟩⟩

/-- A consumer that resumes reads on from its position. -/
theorem recovers_of_serves (h : Keeps history m) (hresume : (logOf m c inside).resume policy = some position)
    (hserves : Serves m.logEnd position polls) : Recovers history m (logOf m c inside) policy polls := by
  obtain ⟨hstart, hcommitted, hend⟩ : m.logStart ≤ position ∧ c ≤ position ∧ position ≤ m.logEnd := le_resume hresume
  obtain ⟨n, hoffsets, hthree, hlast⟩ := hserves.offsets hend [] (by decide)
  have hnone := hserves.errorSeen []
  have hbehind : Behind (logOf m c inside) m ↔ c < m.logStart := behind_iff h
  have hcases : (m.logStart ≤ c ∧ position = c) ∨ (c < m.logStart ∧ policy = .earliest ∧ position = m.logStart) ∨
      (c < m.logStart ∧ policy = .latest ∧ position = m.logEnd) := Log.resume_eq_some hresume
  rw [List.nil_append] at hoffsets
  rw [List.length_nil, Nat.zero_add] at hthree
  -- what is read starts at the position, behind the deleted messages
  have hfirst : ∀ first, firstRead polls = some first → first = position ∧ position < m.logEnd ∧
      ∃ more, readLoop [] polls = ⟨position :: more, none⟩ := by
    intro first hf
    rcases hserves.read with ⟨hread, -⟩ | ⟨more, hread, -, hlt⟩
    · rw [firstRead, hread] at hf
      cases hf
    · rw [firstRead, hread] at hf
      cases hf
      exact ⟨rfl, hlt, more, Reading.ext hread hnone⟩
  have hdeleted : ∀ first, firstRead polls = some first → ∀ k, c ≤ k → k < m.logEnd →
      (k < first ↔ m.read k = none) := by
    intro first hf k hck hk
    obtain ⟨rfl, hlt, -⟩ := hfirst first hf
    rw [deleted_iff h hk]
    rcases hcases with ⟨hle, rfl⟩ | ⟨-, -, rfl⟩ | ⟨-, -, rfl⟩ <;> omega
  refine ⟨⟨position, n, hoffsets, hthree⟩, fun k hk => ?_, fun _ => ?_, hdeleted, fun first hf k hck hk => ?_,
    fun hpolicy hb => ?_, fun hpolicy hb => ?_⟩
  · rw [hoffsets, List.mem_range'_1] at hk
    refine ⟨hcommitted.trans hk.1, h.logEnd ▸ hk.2.trans_le hlast, ?_⟩
    rw [h.read, if_pos (hstart.trans hk.1)]
  · rcases hserves.read with ⟨hread, hpolled⟩ | ⟨more, hread, hpolled, -⟩
    · simp [firstRead, hread, hpolled]
    · simp [firstRead, hread, hpolled]
  · obtain ⟨rfl, -, more, hread⟩ := hfirst first hf
    rw [reportedSkipped_of_read _ hread]
    exact hdeleted first hf k hck hk
  · subst hpolicy
    have hlt := hbehind.mp hb
    have hnothing : readLoop [] polls = ⟨[], none⟩ := by
      refine Reading.ext ?_ hnone
      rcases hserves.read with ⟨hread, -⟩ | ⟨more, -, -, hposition⟩
      · exact hread
      · rcases hcases with ⟨hle, -⟩ | ⟨-, hpolicy, -⟩ | ⟨-, -, heq⟩
        · exact absurd hlt (Nat.not_lt.mpr hle)
        · cases hpolicy
        · exact absurd hposition (heq ▸ lt_irrefl _)
    exact report_of_nothing _ hnothing
  · subst hpolicy
    have hrefused : (logOf m c inside).resume .error = none := Log.resume_eq_none.mpr ⟨hbehind.mp hb, rfl⟩
    rw [hresume] at hrefused
    cases hrefused

/-- A group that commits what it was served, and resumes after any run of retention: what
`try_consume_with_reset` then reads and reports, under each policy and for every timing of its
polls, is what retention has left of the messages the group had not read. -/
theorem lagging_group (hrun : Run (LogStep (topic segmentMs)) (.empty start) events l)
    (hserves : Serves l.logEnd position (trace.map Except.ok))
    (hc : (consumeAndCommit count ⟨position, none⟩ trace).2.committed = some c)
    (hrun' : Run (LogStep (topic segmentMs)) l events' m) :
    ∃ inside : c ≤ m.logEnd, ∀ policy polls, (logOf m c inside).Polls policy polls →
      Recovers (appended (events ++ events')) m (logOf m c inside) policy polls := by
  have hl : Keeps (appended events) l := run_keeps hrun (empty_keeps start)
  have hm : Keeps (appended (events ++ events')) m := run_keeps (hrun.append hrun') (empty_keeps start)
  have hgrows : l.logEnd ≤ m.logEnd := by
    rw [hl.logEnd, hm.logEnd, appended, appended, List.flatMap_append, List.length_append]
    exact Nat.le_add_right _ _
  have hinside : c ≤ m.logEnd := (committed_le hserves hc).trans hgrows
  refine ⟨hinside, fun policy polls hpolls => ?_⟩
  unfold Log.Polls at hpolls
  cases hresume : (logOf m c hinside).resume policy with
  | none =>
    rw [hresume] at hpolls
    obtain ⟨hlt, rfl⟩ := Log.resume_eq_none.mp hresume
    exact recovers_of_refuses hm hlt hpolls
  | some position =>
    rw [hresume] at hpolls
    exact recovers_of_serves hm hresume hpolls

end

/-- Three messages that fill a segment each: one is read and committed, two are deleted, and the group
resumes at the third under earliest. -/
theorem lagging_group_deleted : ∃ events l events' m,
    Run (LogStep (topic none)) (.empty 0 : SegmentedLog Unit) events l ∧ Run (LogStep (topic none)) l events' m ∧
      m.read 1 = none ∧ ∃ inside : 1 ≤ m.logEnd, ∃ polls, firstRead polls = some 2 ∧
        Recovers (appended (events ++ events')) m (logOf m 1 inside) .earliest polls := by
  let r : Stored Unit := ⟨(), 600, 0⟩
  let l := (((((SegmentedLog.empty 0).append [r]).roll.append [r]).roll).append [r])
  let m := (l.tick 12000).deleteOldest.deleteOldest
  have hrun : Run (LogStep (topic none)) (.empty 0) [.append [r], .roll, .append [r], .roll, .append [r]] l :=
    .cons (.append _ (by decide)) <| .cons (.roll (by simp [SegmentedLog.append]) (.inl (by decide))) <|
    .cons (.append _ (by decide)) <| .cons (.roll (by simp [SegmentedLog.append]) (.inl (by decide))) <|
    .cons (.append _ (by decide)) <| .nil _
  have hrun' : Run (LogStep (topic none)) l [.tick 12000, .delete, .delete] m :=
    .cons (.tick _) <| .cons (.delete _ rfl (.inl ⟨5000, 0, rfl, rfl, by decide⟩)) <|
    .cons (.delete _ rfl (.inl ⟨5000, 0, rfl, rfl, by decide⟩)) <| .nil _
  have hserves : Serves l.logEnd 0 ([.message ⟨0, 0, none⟩].map Except.ok) :=
    .message ⟨0, 0, none⟩ rfl (by decide) (.deadline _)
  obtain ⟨inside, h⟩ := lagging_group hrun hserves (show (consumeAndCommit 1 _ _).2.committed = some 1 by decide) hrun'
  have hpolls : (logOf m 1 inside).Polls .earliest [.ok .timeout, .ok (.message ⟨0, 2, none⟩)] :=
    .timeout (.message _ rfl (by decide : 2 < 3) (.deadline _))
  exact ⟨_, l, _, m, hrun, hrun', rfl, inside, _, rfl, h _ _ hpolls⟩

end Shipstream.Simulations.LogStartOffset
