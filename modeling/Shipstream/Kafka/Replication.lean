import Mathlib.Tactic
import Mathlib.Data.Finset.Basic
import Mathlib.Data.List.Nodup

/-! One replicated partition: a leader's log, the followers that fetch from it, the
in-sync set, crashes, leaders that step down and elections. Records and nodes are of any type. -/
namespace Shipstream.Kafka

/-- The replica logs, the current leader, the in-sync replicas and the nodes that are up. -/
structure Replicas (Node α : Type) where
  log : Node → List α
  leader : Option Node
  isr : Finset Node
  alive : Finset Node

inductive ReplicaEvent (Node α : Type) where
  | append (m : α)
  | replicate (follower : Node)
  | shrinkIsr (follower : Node)
  | expandIsr (follower : Node)
  | crash (node : Node)
  | stepDown
  | elect (node : Node)

variable {Node α : Type} [DecidableEq Node] [DecidableEq α]

/-- One fetch: the follower cuts its log where it differs from the leader's and
takes the leader's next record. -/
def fetch : List α → List α → List α
  | _, [] => []
  | [], y :: _ => [y]
  | x :: xs, y :: ys => if x = y then x :: fetch xs ys else [y]

/-- What comes before a record in a log. -/
def upTo (m : α) (log : List α) : List α := log.takeWhile (· ≠ m)

theorem upTo_append {m : α} {log : List α} (h : m ∈ log) (rest : List α) :
    upTo m (log ++ rest) = upTo m log := by
  induction log with
  | nil => simp at h
  | cons x log ih =>
    by_cases hx : x = m
    · simp [upTo, hx]
    · have hm : m ∈ log := (List.mem_cons.mp h).resolve_left (Ne.symm hx)
      simpa [upTo, hx] using ih hm

theorem upTo_prefixOf {m : α} {log log' : List α} (hp : log <+: log') (h : m ∈ log) :
    upTo m log = upTo m log' := by
  obtain ⟨rest, rfl⟩ := hp
  exact (upTo_append h rest).symm

theorem fetch_prefixOf (xs ys : List α) : fetch xs ys <+: ys := by
  fun_induction fetch xs ys with
  | case1 => exact List.prefix_refl _
  | case2 y ys => exact ⟨ys, rfl⟩
  | case3 xs y ys ih => exact (List.prefix_cons_inj y).mpr ih
  | case4 x xs y ys => exact ⟨ys, rfl⟩

/-- A fetch keeps the records on whose position both logs agree. -/
theorem mem_fetch {m : α} {xs ys : List α} (hx : m ∈ xs) (hy : m ∈ ys) (h : upTo m xs = upTo m ys) :
    m ∈ fetch xs ys := by
  fun_induction fetch xs ys with
  | case1 => exact hy
  | case2 => simp at hx
  | case3 xs y ys ih =>
    by_cases hym : y = m
    · exact hym ▸ List.mem_cons_self
    · refine List.mem_cons_of_mem _ (ih ?_ ?_ (by simpa [upTo, hym] using h))
      · exact (List.mem_cons.mp hx).resolve_left (Ne.symm hym)
      · exact (List.mem_cons.mp hy).resolve_left (Ne.symm hym)
  | case4 x xs y ys hne =>
    -- the logs differ at once, so they agree on nothing before m but the empty log
    by_cases hxm : x = m <;> by_cases hym : y = m
    · exact absurd (hxm.trans hym.symm) hne
    · simp [upTo, hxm, hym] at h
    · exact hym ▸ List.mem_cons_self
    · simp [upTo, hxm, hym, hne] at h

namespace Replicas

def setLog (r : Replicas Node α) (n : Node) (log : List α) : Replicas Node α :=
  { r with log := Function.update r.log n log }

omit [DecidableEq α] in
theorem setLog_log (r : Replicas Node α) (n : Node) (log : List α) (b : Node) :
    (r.setLog n log).log b = if b = n then log else r.log b := by
  by_cases h : b = n
  · simp [setLog, h]
  · simp [setLog, h]

def step (r : Replicas Node α) : ReplicaEvent Node α → Option (Replicas Node α)
  | .append m =>
    match r.leader with
    | some b => some (r.setLog b (r.log b ++ [m]))
    | none => none
  | .replicate f =>
    match r.leader with
    | some b =>
      if f ∈ r.alive ∧ f ≠ b then some (r.setLog f (fetch (r.log f) (r.log b)))
      else none
    | none => none
  | .shrinkIsr f =>
    match r.leader with
    | some b => if f ≠ b then some { r with isr := r.isr.erase f } else none
    | none => none
  | .expandIsr f =>
    match r.leader with
    | some b => if f ∈ r.alive ∧ r.log f = r.log b then some { r with isr := insert f r.isr } else none
    | none => none
  | .crash b =>
    some { r with alive := r.alive.erase b, leader := if r.leader = some b then none else r.leader }
  | .stepDown => some { r with leader := none }
  | .elect n =>
    if r.leader = none ∧ n ∈ r.isr ∧ n ∈ r.alive then some { r with leader := some n } else none

/-- Replicas over the given nodes with empty logs, all in sync. -/
def initial (nodes : Finset Node) (leader : Node) : Replicas Node α := ⟨fun _ => [], some leader, nodes, nodes⟩

/-- The leader is an in-sync node that is up, no log repeats a record, and logs that
share a record agree on everything before it. -/
structure Valid (r : Replicas Node α) : Prop where
  leader : ∀ b, r.leader = some b → b ∈ r.isr ∧ b ∈ r.alive
  nodup : ∀ b, (r.log b).Nodup
  agree : ∀ m b c, m ∈ r.log b → m ∈ r.log c → upTo m (r.log b) = upTo m (r.log c)

/-- Every in-sync replica has the record. -/
def Replicated (r : Replicas Node α) (m : α) : Prop := ∀ f ∈ r.isr, m ∈ r.log f

/-- A record in no log. -/
def Fresh (r : Replicas Node α) (m : α) : Prop := ∀ b, m ∉ r.log b

/-- What an event needs beyond the guard of its step: only fresh records are appended. -/
def EventFresh (r : Replicas Node α) : ReplicaEvent Node α → Prop
  | .append m => r.Fresh m
  | _ => True

omit [DecidableEq Node] in
theorem initial_valid {nodes : Finset Node} {leader : Node} (h : leader ∈ nodes) :
    (initial nodes leader : Replicas Node α).Valid where
  leader b hb := by
    cases hb
    exact ⟨h, h⟩
  nodup _ := List.nodup_nil
  agree m b c hm := by simp [initial] at hm

/-- What a step that is taken does, by event. -/
inductive StepSpec (r : Replicas Node α) : ReplicaEvent Node α → Replicas Node α → Prop where
  | append (m : α) (b : Node) (hb : r.leader = some b) :
      StepSpec r (.append m) (r.setLog b (r.log b ++ [m]))
  | replicate (f b : Node) (hb : r.leader = some b) (hf : f ≠ b) :
      StepSpec r (.replicate f) (r.setLog f (fetch (r.log f) (r.log b)))
  | shrinkIsr (f b : Node) (hb : r.leader = some b) (hf : f ≠ b) :
      StepSpec r (.shrinkIsr f) { r with isr := r.isr.erase f }
  | expandIsr (f b : Node) (hb : r.leader = some b) (hlog : r.log f = r.log b) :
      StepSpec r (.expandIsr f) { r with isr := insert f r.isr }
  | crash (b : Node) : StepSpec r (.crash b)
      { r with alive := r.alive.erase b, leader := if r.leader = some b then none else r.leader }
  | stepDown : StepSpec r .stepDown { r with leader := none }
  | elect (n : Node) (hnone : r.leader = none) (hisr : n ∈ r.isr) (halive : n ∈ r.alive) :
      StepSpec r (.elect n) { r with leader := some n }

theorem step_spec {r r' : Replicas Node α} {ev : ReplicaEvent Node α} (h : r.step ev = some r') :
    StepSpec r ev r' := by
  cases ev with
  | append m =>
    simp only [step] at h
    split at h <;> cases h
    next b hb => exact .append m b hb
  | replicate f =>
    simp only [step] at h
    split at h <;> try cases h
    next b hb =>
    split at h <;> cases h
    next hf => exact .replicate f b hb hf.2
  | shrinkIsr f =>
    simp only [step] at h
    split at h <;> try cases h
    next b hb =>
    split at h <;> cases h
    next hf => exact .shrinkIsr f b hb hf
  | expandIsr f =>
    simp only [step] at h
    split at h <;> try cases h
    next b hb =>
    split at h <;> cases h
    next hf => exact .expandIsr f b hb hf.2
  | crash b =>
    cases h
    exact .crash b
  | stepDown =>
    cases h
    exact .stepDown
  | elect n =>
    simp only [step] at h
    split at h <;> cases h
    next hn => exact .elect n hn.1 hn.2.1 hn.2.2

/-- Changing one log keeps the replicas valid when the new log agrees with the others. -/
private theorem Valid.setLog {r : Replicas Node α} (hv : r.Valid) {n : Node} {log : List α} (hnodup : log.Nodup)
    (h : ∀ m ∈ log, ∀ c, c ≠ n → m ∈ r.log c → upTo m log = upTo m (r.log c)) : (r.setLog n log).Valid where
  leader := hv.leader
  nodup b := by
    rw [setLog_log]
    split
    · exact hnodup
    · exact hv.nodup b
  agree m b c hb hc := by
    rw [setLog_log] at hb hc ⊢
    rw [setLog_log]
    split at hb <;> split at hc
    · next hbn hcn => rw [if_pos hbn, if_pos hcn]
    · next hbn hcn =>
      rw [if_pos hbn, if_neg hcn]
      exact h m hb c hcn hc
    · next hbn hcn =>
      rw [if_neg hbn, if_pos hcn]
      exact (h m hc b hbn hb).symm
    · next hbn hcn =>
      rw [if_neg hbn, if_neg hcn]
      exact hv.agree m b c hb hc

theorem Valid.step {r r' : Replicas Node α} {ev : ReplicaEvent Node α} (hv : r.Valid) (hf : r.EventFresh ev)
    (h : r.step ev = some r') : r'.Valid := by
  cases step_spec h with
  | append m b hb =>
    have hfresh : r.Fresh m := hf
    refine hv.setLog ?_ fun x hx c _ hc => ?_
    · exact List.nodup_append_comm.mp (List.nodup_cons.mpr ⟨hfresh b, hv.nodup b⟩ : ([m] ++ r.log b).Nodup)
    · have hxb : x ∈ r.log b := by
        rcases List.mem_append.mp hx with hx | hx
        · exact hx
        · exact absurd (List.mem_singleton.mp hx ▸ hc) (hfresh c)
      rw [upTo_append hxb]
      exact hv.agree x b c hxb hc
  | replicate f b hb hne =>
    have hpre := fetch_prefixOf (r.log f) (r.log b)
    apply hv.setLog (hpre.sublist.nodup (hv.nodup b))
    intro x hx c _ hc
    rw [upTo_prefixOf hpre hx]
    exact hv.agree x b c (hpre.subset hx) hc
  | shrinkIsr f b hb hne =>
    refine ⟨fun c hc => ⟨Finset.mem_erase.mpr ⟨?_, (hv.leader c hc).1⟩, (hv.leader c hc).2⟩, hv.nodup, hv.agree⟩
    exact Option.some.inj (hb.symm.trans hc) ▸ hne.symm
  | expandIsr f b hb hlog =>
    exact ⟨fun c hc => ⟨Finset.mem_insert_of_mem (hv.leader c hc).1, (hv.leader c hc).2⟩, hv.nodup, hv.agree⟩
  | crash b =>
    refine ⟨fun c hc => ?_, hv.nodup, hv.agree⟩
    simp only at hc
    split at hc
    · cases hc
    · next hne =>
      refine ⟨(hv.leader c hc).1, Finset.mem_erase.mpr ⟨?_, (hv.leader c hc).2⟩⟩
      rintro rfl
      exact hne hc
  | stepDown => exact ⟨nofun, hv.nodup, hv.agree⟩
  | elect n hnone hisr halive =>
    refine ⟨fun c hc => ?_, hv.nodup, hv.agree⟩
    cases hc
    exact ⟨hisr, halive⟩

/-- The in-sync set never empties: no step removes the leader from it. -/
theorem Valid.isr_nonempty {r r' : Replicas Node α} {ev : ReplicaEvent Node α} (hv : r.Valid)
    (h : r.step ev = some r') (hisr : r.isr.Nonempty) : r'.isr.Nonempty := by
  cases step_spec h with
  | shrinkIsr f b hb hf => exact ⟨b, Finset.mem_erase.mpr ⟨hf.symm, (hv.leader b hb).1⟩⟩
  | expandIsr f b hb hlog => exact hisr.mono (Finset.subset_insert _ _)
  | append | replicate | crash | stepDown | elect => exact hisr

/-- A record that every in-sync replica has is not lost by any step. -/
theorem Replicated.step {r r' : Replicas Node α} {ev : ReplicaEvent Node α} {m : α} (hm : r.Replicated m)
    (hv : r.Valid) (h : r.step ev = some r') : r'.Replicated m := by
  cases step_spec h with
  | append x b hb =>
    intro f hf
    rw [setLog_log]
    split
    · next hfb => exact List.mem_append_left _ (hm b (hfb ▸ hf))
    · exact hm f hf
  | replicate f b hb hne =>
    intro c hc
    rw [setLog_log]
    split
    · next hcf =>
      have hleader := hm b (hv.leader b hb).1
      have hfollower := hm f (hcf ▸ hc)
      exact mem_fetch hfollower hleader (hv.agree m f b hfollower hleader)
    · exact hm c hc
  | shrinkIsr f b hb hne => exact fun c hc => hm c (Finset.mem_of_mem_erase hc)
  | expandIsr f b hb hlog =>
    intro c hc
    rcases Finset.mem_insert.mp hc with rfl | hc
    · exact hlog ▸ hm b (hv.leader b hb).1
    · exact hm c hc
  | crash | stepDown | elect => exact hm

/-- What comes before a replicated record is the same on the in-sync replicas before and after a step. -/
theorem Replicated.upTo_step {r r' : Replicas Node α} {ev : ReplicaEvent Node α} {m : α} (hm : r.Replicated m)
    (hv : r.Valid) (h : r.step ev = some r') {f g : Node} (hf : f ∈ r.isr) (hg : g ∈ r'.isr) :
    upTo m (r'.log g) = upTo m (r.log f) := by
  have hsame {c : Node} (hc : m ∈ r.log c) : upTo m (r.log c) = upTo m (r.log f) := hv.agree m c f hc (hm f hf)
  cases step_spec h with
  | append x b hb =>
    rw [setLog_log]
    split
    · next hgb =>
      have hin := hm b (hgb ▸ hg)
      rw [upTo_append hin]
      exact hsame hin
    · exact hsame (hm g hg)
  | replicate c b hb hne =>
    rw [setLog_log]
    split
    · next hgc =>
      have hleader := hm b (hv.leader b hb).1
      have hfollower := hm c (hgc ▸ hg)
      have hin := mem_fetch hfollower hleader (hv.agree m c b hfollower hleader)
      rw [upTo_prefixOf (fetch_prefixOf _ _) hin]
      exact hsame hleader
    · exact hsame (hm g hg)
  | shrinkIsr c b hb hne => exact hsame (hm g (Finset.mem_of_mem_erase hg))
  | expandIsr c b hb hlog =>
    rcases Finset.mem_insert.mp hg with rfl | hg
    · exact hsame (hlog ▸ hm b (hv.leader b hb).1)
    · exact hsame (hm g hg)
  | crash | stepDown | elect => exact hsame (hm g hg)

/-- A step adds no record to a log but the one it appends. -/
theorem Fresh.step {r r' : Replicas Node α} {ev : ReplicaEvent Node α} {m : α} (hm : r.Fresh m)
    (hne : ev ≠ .append m) (h : r.step ev = some r') : r'.Fresh m := by
  cases step_spec h with
  | append x b hb =>
    intro c hc
    rw [setLog_log] at hc
    split at hc
    · rcases List.mem_append.mp hc with hc | hc
      · exact hm b hc
      · exact hne (List.mem_singleton.mp hc ▸ rfl)
    · exact hm c hc
  | replicate f b hb hnf =>
    intro c hc
    rw [setLog_log] at hc
    split at hc
    · exact hm b ((fetch_prefixOf _ _).subset hc)
    · exact hm c hc
  | shrinkIsr | expandIsr | crash | stepDown | elect => exact hm

end Replicas
end Shipstream.Kafka
