import Shipstream.Kafka.Poll

/-! What a group member polls when it reads a topic from its starting positions to
the ends, the partitions arbitrarily interleaved. -/
namespace Shipstream.Kafka

/-- What each partition holds from the starting position on, in offset order. -/
structure Topic where
  partitions : Nat
  content : Nat → List Message
  own : ∀ p, ∀ m ∈ content p, m.partition = p
  ordered : ∀ p, (content p).Pairwise fun m m' => m.offset < m'.offset

namespace Topic

/-- The topic as seen from a starting offset in each partition. -/
def since (topic : Topic) (start : Nat → Nat) : Topic where
  partitions := topic.partitions
  content p := (topic.content p).filter fun m => start p ≤ m.offset
  own p m hm := topic.own p m (List.mem_filter.mp hm).1
  ordered p := (topic.ordered p).filter _

/-- All that the topic holds, partition by partition. -/
def all (topic : Topic) : List Message := (List.range topic.partitions).flatMap topic.content

/-- One more message at the end of its partition. -/
def append (topic : Topic) (m : Message) (h : ∀ m' ∈ topic.content m.partition, m'.offset < m.offset) : Topic where
  partitions := topic.partitions
  content := Function.update topic.content m.partition (topic.content m.partition ++ [m])
  own p m' hm := by
    by_cases hp : p = m.partition
    · subst hp
      rw [Function.update_self] at hm
      rcases List.mem_append.mp hm with hm | hm
      · exact topic.own _ m' hm
      · rw [List.mem_singleton.mp hm]
    · rw [Function.update_of_ne hp] at hm
      exact topic.own p m' hm
  ordered p := by
    by_cases hp : p = m.partition
    · subst hp
      rw [Function.update_self]
      refine List.pairwise_append.mpr ⟨topic.ordered _, List.pairwise_singleton _ _, fun m' hm x hx => ?_⟩
      exact List.mem_singleton.mp hx ▸ h m' hm
    · rw [Function.update_of_ne hp]
      exact topic.ordered p

/-- The message a fetch from an offset returns first. -/
def next? (topic : Topic) (p position : Nat) : Option Message :=
  (topic.content p).find? fun m => position ≤ m.offset

/-- Each partition delivers its messages in offset order and then its end, possibly
repeated, among timeouts and errors. -/
structure Delivers (topic : Topic) (polls : List Polled) : Prop where
  known : ∀ polled ∈ polls, ∀ p, polled.partition? = some p → p < topic.partitions
  inOrder : ∀ p < topic.partitions, ∃ k,
    (polls.filter fun polled => polled.partition? = some p) =
      (topic.content p).map .message ++ List.replicate (k + 1) (.eof p)

theorem mem_append_content {topic : Topic} {m m' : Message} {p : Nat}
    {h : ∀ m' ∈ topic.content m.partition, m'.offset < m.offset} (hm : m' ∈ topic.content p) :
    m' ∈ (topic.append m h).content p := by
  by_cases hp : p = m.partition
  · subst hp
    simp only [append, Function.update_self]
    exact List.mem_append_left _ hm
  · simpa only [append, Function.update_of_ne hp] using hm

/-- Reading the next message extends what was read from a starting offset by that message. -/
theorem filter_next {topic : Topic} {p start position : Nat} {m : Message} (hstart : start ≤ position)
    (h : topic.next? p position = some m) :
    ((topic.content p).filter fun m' => start ≤ m'.offset ∧ m'.offset < m.offset + 1) =
      ((topic.content p).filter fun m' => start ≤ m'.offset ∧ m'.offset < position) ++ [m] := by
  obtain ⟨hm, before, after, hcontent, hbefore⟩ := List.find?_eq_some_iff_append.mp h
  have hposition : position ≤ m.offset := by simpa using hm
  have hordered := topic.ordered p
  rw [hcontent] at hordered ⊢
  have hafter : ∀ m' ∈ after, m.offset < m'.offset :=
    (List.pairwise_cons.mp (List.pairwise_append.mp hordered).2.1).1
  have hlow : ∀ m' ∈ before, m'.offset < position := fun m' hm' => by simpa using hbefore m' hm'
  have hkeep : (before.filter fun m' => start ≤ m'.offset ∧ m'.offset < m.offset + 1) =
      before.filter fun m' => start ≤ m'.offset ∧ m'.offset < position :=
    List.filter_congr fun m' hm' => by
      have := hlow m' hm'
      simp only [decide_eq_decide]
      omega
  have hnone (bound : Nat) (hb : bound ≤ m.offset + 1) :
      (after.filter fun m' => start ≤ m'.offset ∧ m'.offset < bound) = [] :=
    List.filter_eq_nil_iff.mpr fun m' hm' => by
      have := hafter m' hm'
      simp only [decide_eq_true_eq]
      omega
  rw [List.filter_append, List.filter_append, hkeep, List.filter_cons_of_pos (by simp; omega),
    List.filter_cons_of_neg (by simp; omega), hnone _ (Nat.le_refl _), hnone _ (by omega), List.append_nil]

theorem lt_of_next?_eq_none {topic : Topic} {p position : Nat} (h : topic.next? p position = none) :
    ∀ m ∈ topic.content p, m.offset < position := fun m hm => by
  have := List.find?_eq_none.mp h m hm
  simpa using this

theorem content_nodup (topic : Topic) (p : Nat) : (topic.content p).Nodup :=
  (topic.ordered p).imp fun {a b} hlt heq => by
    rw [heq] at hlt
    omega

theorem mem_all {topic : Topic} {m : Message} :
    m ∈ topic.all ↔ m.partition < topic.partitions ∧ m ∈ topic.content m.partition := by
  simp only [all, List.mem_flatMap, List.mem_range]
  constructor
  · rintro ⟨p, hp, hm⟩
    rw [topic.own p m hm]
    exact ⟨hp, hm⟩
  · rintro ⟨hp, hm⟩
    exact ⟨_, hp, hm⟩

private theorem filter_flatMap_content (topic : Topic) (p : Nat) {ps : List Nat} (hps : ps.Nodup) :
    ((ps.flatMap topic.content).filter fun m => m.partition = p) = if p ∈ ps then topic.content p else [] := by
  induction ps with
  | nil => rfl
  | cons q ps ih =>
    obtain ⟨hq, hps⟩ := List.nodup_cons.mp hps
    rw [List.flatMap_cons, List.filter_append, ih hps]
    by_cases hpq : p = q
    · subst hpq
      have hown : ((topic.content p).filter fun m => m.partition = p) = topic.content p :=
        List.filter_eq_self.mpr fun m hm => by simpa using topic.own p m hm
      rw [hown, if_neg hq, if_pos List.mem_cons_self, List.append_nil]
    · have hother : ((topic.content q).filter fun m => m.partition = p) = [] :=
        List.filter_eq_nil_iff.mpr fun m hm => by simpa [topic.own q m hm] using Ne.symm hpq
      simp [hother, hpq]

theorem filter_all (topic : Topic) (p : Nat) :
    (topic.all.filter fun m => m.partition = p) = if p < topic.partitions then topic.content p else [] := by
  rw [all, topic.filter_flatMap_content p List.nodup_range]
  simp only [List.mem_range]

end Topic

private theorem messages_map_message (ms : List Message) : messages (ms.map .message) = ms := by
  induction ms with
  | nil => rfl
  | cons m ms ih => exact congrArg (m :: ·) ih

private theorem messages_eq_nil {polls : List Polled} (h : ∀ polled ∈ polls, polled.message? = none) :
    messages polls = [] := List.filterMap_eq_nil_iff.mpr h

private theorem mem_messages {polls : List Polled} {m : Message} : m ∈ messages polls ↔ .message m ∈ polls := by
  simp only [messages, List.mem_filterMap]
  constructor
  · rintro ⟨polled, hm, he⟩
    cases polled <;> simp [Polled.message?] at he
    exact he ▸ hm
  · intro h
    exact ⟨_, h, rfl⟩

/-- Once an end has been polled, nothing of that partition is outstanding. -/
private theorem messages_of_ended {ms : List Message} {p k : Nat} {xs ys : List Polled}
    (h : xs ++ ys = ms.map .message ++ List.replicate k (.eof p)) (hp : .eof p ∈ xs) : messages xs = ms := by
  rcases List.append_eq_append_iff.mp h with ⟨as, hms, -⟩ | ⟨bs, rfl, hends⟩
  · have : Polled.eof p ∈ ms.map Polled.message := hms ▸ List.mem_append_left _ hp
    simp at this
  · have hbs : messages bs = [] := messages_eq_nil fun polled hm => by
      have : polled ∈ List.replicate k (Polled.eof p) := hends ▸ List.mem_append_left _ hm
      rw [List.eq_of_mem_replicate this]
      rfl
    rw [messages_append, messages_map_message, hbs, List.append_nil]

namespace Topic
variable {topic : Topic} {pre post : List Polled} {p : Nat}

theorem Delivers.content_of_ended (h : topic.Delivers (pre ++ post)) (hp : .eof p ∈ pre) :
    ((messages pre).filter fun m => m.partition = p) = topic.content p := by
  have hlt : p < topic.partitions := h.known _ (List.mem_append_left _ hp) p rfl
  obtain ⟨k, hk⟩ := h.inOrder p hlt
  rw [List.filter_append] at hk
  rw [← messages_filter]
  exact messages_of_ended hk (List.mem_filter.mpr ⟨hp, by simp [Polled.partition?]⟩)

theorem Delivers.eof_mem (h : topic.Delivers pre) (hp : p < topic.partitions) : .eof p ∈ pre := by
  obtain ⟨k, hk⟩ := h.inOrder p hp
  have : Polled.eof p ∈ pre.filter fun polled => polled.partition? = some p := by simp [hk]
  exact List.mem_of_mem_filter this

/-- A poll result that completes a reading: the end of the last outstanding partition. -/
def Completes (partitions : Nat) (pre : List Polled) (polled : Polled) : Prop :=
  ∃ p < partitions, polled = .eof p ∧ .eof p ∉ pre ∧ ∀ q < partitions, q ≠ p → .eof q ∈ pre

/-- When a reading completes, every partition has been read in offset order. -/
theorem Delivers.content_of_completes {polled : Polled} (h : topic.Delivers (pre ++ polled :: post))
    (hc : Completes topic.partitions pre polled) (hp : p < topic.partitions) :
    ((messages pre).filter fun m => m.partition = p) = topic.content p := by
  obtain ⟨q, -, rfl, -, hothers⟩ := hc
  rw [List.append_cons] at h
  have hmessages : messages (pre ++ [.eof q]) = messages pre := by
    rw [messages_append]
    exact List.append_nil _
  rw [← hmessages]
  by_cases hpq : p = q
  · exact h.content_of_ended (by simp [hpq])
  · exact h.content_of_ended (List.mem_append_left _ (hothers p hp hpq))

theorem Delivers.partition_lt (h : topic.Delivers (pre ++ post)) {m : Message} (hm : m ∈ messages pre) :
    m.partition < topic.partitions :=
  h.known _ (List.mem_append_left _ (mem_messages.mp hm)) _ rfl

theorem Delivers.append_nil (h : topic.Delivers pre) : topic.Delivers (pre ++ []) := by
  rwa [List.append_nil]

/-- A message read from a topic is one of its content. -/
theorem Delivers.mem_content (h : topic.Delivers pre) {m : Message} (hm : m ∈ messages pre) :
    m ∈ topic.content m.partition := by
  have hlt := h.append_nil.partition_lt hm
  have hread := h.append_nil.content_of_ended (h.eof_mem hlt)
  rw [← hread]
  exact List.mem_filter.mpr ⟨hm, by simp⟩

end Topic

/-- Messages are counted partition by partition. -/
theorem count_partition (ms : List Message) (m : Message) :
    ms.count m = (ms.filter fun m' => m'.partition = m.partition).count m :=
  (List.count_filter (by simp)).symm

/-- Two readings with the same messages of every partition differ in the interleaving only. -/
theorem perm_of_partitions {xs ys : List Message}
    (h : ∀ p, (xs.filter fun m => m.partition = p) = ys.filter fun m => m.partition = p) : xs.Perm ys := by
  apply List.perm_iff_count.mpr
  intro m
  rw [count_partition, h, ← count_partition]

/-- A reading whose partitions hold no message twice holds no message twice. -/
theorem nodup_of_partitions {xs : List Message}
    (h : ∀ p, (xs.filter fun m => m.partition = p).Nodup) : xs.Nodup := by
  apply List.nodup_iff_count_le_one.mpr
  intro m
  rw [count_partition]
  exact List.nodup_iff_count_le_one.mp (h m.partition) m

end Shipstream.Kafka
