import Mathlib.Tactic

/-! Shell scripts under `set -e`. A simple command changes a state of any type and succeeds or
fails; what it may do is a relation. Failing ends the script, but not where a command is tested. -/
namespace Shipstream.Shell

/-- How a command ends: with a status, by a `return`, or by leaving the shell. -/
inductive Outcome where
  | done (ok : Bool)
  | returned
  | exited
  deriving DecidableEq, Repr

inductive Cmd (σ : Type) where
  | simple (rel : σ → Bool → σ → Prop)
  | seq (first second : Cmd σ)
  | cond (test yes no : Cmd σ)     -- if test; then yes; else no; fi
  | orElse (first second : Cmd σ)  -- first || second
  | andThen (first second : Cmd σ) -- first && second
  | call (body : Cmd σ)            -- a function call
  | expand (words : σ → Cmd σ)     -- a command whose words depend on the variables
  | ret                            -- return 0
  | exit

/-- The command does not end normally, so what follows it is skipped. -/
def Outcome.leaves : Outcome → Prop
  | .done _ => False
  | _ => True

/-- A status that is not success ends the shell unless the command is tested. -/
def Outcome.status (tested ok : Bool) : Outcome := if ok || tested then .done ok else .exited

/-- What a caller sees of a function body. -/
def Outcome.called (tested : Bool) : Outcome → Outcome
  | .done ok => status tested ok
  | .returned => .done true
  | .exited => .exited

variable {σ α : Type}

namespace Cmd

/-- The executions of a command. `tested` says that it stands in a test, where `set -e` is off. -/
def exec (tested : Bool) : Cmd σ → σ → Outcome → σ → Prop
  | .simple rel, s, o, t => ∃ ok, rel s ok t ∧ o = .status tested ok
  | .seq first second, s, o, u =>
    (∃ ok t, first.exec tested s (.done ok) t ∧ second.exec tested t o u) ∨ o.leaves ∧ first.exec tested s o u
  | .cond test yes no, s, o, u =>
    (∃ t, test.exec true s (.done true) t ∧ yes.exec tested t o u) ∨
      (∃ t, test.exec true s (.done false) t ∧ no.exec tested t o u) ∨ o.leaves ∧ test.exec true s o u
  | .orElse first second, s, o, u =>
    (o = .done true ∧ first.exec true s o u) ∨
      (∃ t, first.exec true s (.done false) t ∧ second.exec tested t o u) ∨ o.leaves ∧ first.exec true s o u
  | .andThen first second, s, o, u =>
    (∃ t, first.exec true s (.done true) t ∧ second.exec tested t o u) ∨
      (o = .done false ∧ first.exec true s o u) ∨ o.leaves ∧ first.exec true s o u
  | .call body, s, o, t => ∃ o', body.exec tested s o' t ∧ o = o'.called tested
  | .expand words, s, o, t => (words s).exec tested s o t
  | .ret, s, o, t => o = .returned ∧ t = s
  | .exit, s, o, t => o = .exited ∧ t = s

/-- A command that cannot fail, such as an assignment. -/
def always (rel : σ → σ → Prop) : Cmd σ := .simple fun s ok t => ok = true ∧ rel s t

/-- An assignment. -/
def assign (f : σ → σ) : Cmd σ := .always fun s t => t = f s

def skip : Cmd σ := .assign id

/-- Commands one after the other; the last one gives the status. -/
def block : List (Cmd σ) → Cmd σ
  | [] => skip
  | [c] => c
  | c :: d :: cs => .seq c (block (d :: cs))

/-- `for x in xs; do body; done` -/
def each (body : α → Cmd σ) (xs : List α) : Cmd σ := block (xs.map body)

end Cmd

/-- What holds after a command, by how it ended. -/
structure Post (σ : Type) where
  done : Bool → σ → Prop
  returned : σ → Prop
  exited : σ → Prop

def Post.At (post : Post σ) : Outcome → σ → Prop
  | .done ok => post.done ok
  | .returned => post.returned
  | .exited => post.exited

/-- The same conditions on leaving, another one on ending normally. -/
abbrev Post.andThen (post : Post σ) (mid : Bool → σ → Prop) : Post σ := { post with done := mid }

/-- A Hoare triple: partial in nothing but the commands that never end. -/
def Triple (tested : Bool) (P : σ → Prop) (c : Cmd σ) (post : Post σ) : Prop :=
  ∀ s o t, P s → c.exec tested s o t → post.At o t

theorem Post.at_of_leaves {post : Post σ} {mid : Bool → σ → Prop} {o : Outcome} {s : σ} (ho : o.leaves)
    (h : (post.andThen mid).At o s) : post.At o s := by
  cases o with
  | done ok => exact ho.elim
  | returned => exact h
  | exited => exact h

namespace Triple
variable {tested : Bool} {P P' M : σ → Prop} {Q : Bool → σ → Prop} {c d e : Cmd σ} {post post' : Post σ}
  {rel : σ → Bool → σ → Prop}

theorem simple (hok : ∀ s t, P s → rel s true t → post.done true t)
    (hfail : ∀ s t, P s → rel s false t → post.At (.status tested false) t) : Triple tested P (.simple rel) post := by
  rintro s o t hp ⟨ok, hrel, rfl⟩
  cases ok with
  | true => exact hok s t hp hrel
  | false => exact hfail s t hp hrel

theorem always {rel : σ → σ → Prop} (h : ∀ s t, P s → rel s t → post.done true t) :
    Triple tested P (.always rel) post :=
  simple (fun s t hp hrel => h s t hp hrel.2) fun _ _ _ hrel => (Bool.false_ne_true hrel.1).elim

theorem assign {f : σ → σ} (h : ∀ s, P s → post.done true (f s)) : Triple tested P (.assign f) post :=
  always fun s t hp ht => (show t = f s from ht) ▸ h s hp

theorem seq (h : Triple tested P c (post.andThen fun _ => M)) (h' : Triple tested M d post) :
    Triple tested P (c.seq d) post := by
  rintro s o u hp (⟨ok, t, hc, hd⟩ | ⟨ho, hc⟩)
  · exact h' t o u (h s _ t hp hc) hd
  · exact Post.at_of_leaves ho (h s o u hp hc)

theorem cond (h : Triple true P c (post.andThen Q)) (hyes : Triple tested (Q true) d post)
    (hno : Triple tested (Q false) e post) : Triple tested P (.cond c d e) post := by
  rintro s o u hp (⟨t, hc, hd⟩ | ⟨t, hc, he⟩ | ⟨ho, hc⟩)
  · exact hyes t o u (h s _ t hp hc) hd
  · exact hno t o u (h s _ t hp hc) he
  · exact Post.at_of_leaves ho (h s o u hp hc)

theorem orElse (h : Triple true P c (post.andThen Q)) (hok : ∀ s, Q true s → post.done true s)
    (hd : Triple tested (Q false) d post) : Triple tested P (.orElse c d) post := by
  rintro s o u hp (⟨rfl, hc⟩ | ⟨t, hc, hd'⟩ | ⟨ho, hc⟩)
  · exact hok u (h s _ u hp hc)
  · exact hd t o u (h s _ t hp hc) hd'
  · exact Post.at_of_leaves ho (h s o u hp hc)

theorem andThen (h : Triple true P c (post.andThen Q)) (hd : Triple tested (Q true) d post)
    (hfail : ∀ s, Q false s → post.done false s) : Triple tested P (.andThen c d) post := by
  rintro s o u hp (⟨t, hc, hd'⟩ | ⟨rfl, hc⟩ | ⟨ho, hc⟩)
  · exact hd t o u (h s _ t hp hc) hd'
  · exact hfail u (h s _ u hp hc)
  · exact Post.at_of_leaves ho (h s o u hp hc)

/-- In a function body `return` is the normal end. -/
theorem call (h : Triple tested P c ⟨fun ok => post.At (.status tested ok), post.done true, post.exited⟩) :
    Triple tested P (.call c) post := by
  rintro s o t hp ⟨o', hc, rfl⟩
  have := h s o' t hp hc
  cases o' with
  | done ok => exact this
  | returned => exact this
  | exited => exact this

/-- A function that ends well in either way. -/
theorem call_of {Q R E : σ → Prop} (h : Triple tested P c ⟨fun _ => Q, Q, E⟩) (hexit : ∀ s, Q s → E s) :
    Triple tested P (.call c) ⟨fun _ => Q, R, E⟩ := by
  refine call fun s o t hp hc => ?_
  have := h s o t hp hc
  cases o with
  | done ok =>
    cases ok with
    | true => exact this
    | false =>
      cases tested with
      | true => exact this
      | false => exact hexit t this
  | returned => exact this
  | exited => exact this

theorem expand {words : σ → Cmd σ} (h : ∀ s, P s → Triple tested (· = s) (words s) post) :
    Triple tested P (.expand words) post := fun s o t hp hc => h s hp s o t rfl hc

theorem ret (h : ∀ s, P s → post.returned s) : Triple tested P .ret post := by
  rintro s o t hp ⟨rfl, rfl⟩
  exact h t hp

theorem exit (h : ∀ s, P s → post.exited s) : Triple tested P .exit post := by
  rintro s o t hp ⟨rfl, rfl⟩
  exact h t hp

theorem weaken (h : Triple tested P' c post') (hp : ∀ s, P s → P' s) (hpost : ∀ o s, post'.At o s → post.At o s) :
    Triple tested P c post := fun s o t hps hc => hpost o t (h s o t (hp s hps) hc)

theorem pre (h : Triple tested P' c post) (hp : ∀ s, P s → P' s) : Triple tested P c post :=
  h.weaken hp fun _ _ => id

theorem skip (h : ∀ s, P s → post.done true s) : Triple tested P .skip post := assign h

theorem block_cons {cs : List (Cmd σ)} (h : Triple tested P c (post.andThen fun _ => M))
    (h' : Triple tested M (.block (d :: cs)) post) : Triple tested P (.block (c :: d :: cs)) post := seq h h'

/-- The loop rule: a condition on what the loop has gone through so far. Induction on the words left. -/
theorem each {body : α → Cmd σ} {xs : List α} {J : List α → σ → Prop} {R E : σ → Prop}
    (h : ∀ before x, before ++ [x] <+: xs →
      Triple tested (J before) (body x) ⟨fun _ => J (before ++ [x]), R, E⟩) :
    Triple tested (J []) (.each body xs) ⟨fun _ => J xs, R, E⟩ := by
  have hrest : ∀ rest before, before ++ rest = xs →
      Triple tested (J before) (.each body rest) ⟨fun _ => J xs, R, E⟩ := by
    intro rest
    induction rest with
    | nil =>
      rintro before rfl
      rw [List.append_nil]
      exact skip fun _ => id
    | cons x rest ih =>
      rintro before rfl
      have hsplit : before ++ x :: rest = before ++ [x] ++ rest := by simp
      have hx := h before x ⟨rest, hsplit.symm⟩
      have hnext := ih (before ++ [x]) hsplit.symm
      cases rest with
      | nil => exact hx
      | cons y rest => exact block_cons hx hnext
  exact hrest xs [] rfl

end Triple

/-- Success, or a return, with a condition for each. -/
abbrev Post.success (Q R : σ → Prop) : Post σ := ⟨fun ok s => ok = true ∧ Q s, R, fun _ => False⟩

/-- From every state of the precondition some execution of the command ends as the postcondition says. -/
def CanEnd (tested : Bool) (P : σ → Prop) (c : Cmd σ) (post : Post σ) : Prop :=
  ∀ s, P s → ∃ o t, c.exec tested s o t ∧ post.At o t

namespace CanEnd
variable {tested : Bool} {P P' M : σ → Prop} {Q : Bool → σ → Prop} {c d e : Cmd σ} {post : Post σ}
  {rel : σ → Bool → σ → Prop}

theorem simple_of (h : ∀ s, P s → ∃ ok t, rel s ok t ∧ post.At (.status tested ok) t) :
    CanEnd tested P (.simple rel) post := by
  intro s hp
  obtain ⟨ok, t, hrel, ht⟩ := h s hp
  exact ⟨_, t, ⟨ok, hrel, rfl⟩, ht⟩

theorem simple (h : ∀ s, P s → ∃ t, rel s true t ∧ post.done true t) : CanEnd tested P (.simple rel) post := by
  refine simple_of fun s hp => ?_
  obtain ⟨t, hrel, ht⟩ := h s hp
  exact ⟨true, t, hrel, ht⟩

theorem assign {f : σ → σ} (h : ∀ s, P s → post.done true (f s)) : CanEnd tested P (.assign f) post :=
  simple fun s hp => ⟨f s, ⟨rfl, rfl⟩, h s hp⟩

theorem seq (h : CanEnd tested P c (post.andThen fun _ => M)) (h' : CanEnd tested M d post) :
    CanEnd tested P (c.seq d) post := by
  intro s hp
  obtain ⟨o, t, hc, ht⟩ := h s hp
  cases o with
  | done ok =>
    obtain ⟨o, u, hd, hu⟩ := h' t ht
    exact ⟨o, u, .inl ⟨ok, t, hc, hd⟩, hu⟩
  | returned => exact ⟨.returned, t, .inr ⟨trivial, hc⟩, ht⟩
  | exited => exact ⟨.exited, t, .inr ⟨trivial, hc⟩, ht⟩

theorem cond (h : CanEnd true P c (post.andThen Q)) (hyes : CanEnd tested (Q true) d post)
    (hno : CanEnd tested (Q false) e post) : CanEnd tested P (.cond c d e) post := by
  intro s hp
  obtain ⟨o, t, hc, ht⟩ := h s hp
  cases o with
  | done ok =>
    cases ok with
    | true =>
      obtain ⟨o, u, hd, hu⟩ := hyes t ht
      exact ⟨o, u, .inl ⟨t, hc, hd⟩, hu⟩
    | false =>
      obtain ⟨o, u, he, hu⟩ := hno t ht
      exact ⟨o, u, .inr (.inl ⟨t, hc, he⟩), hu⟩
  | returned => exact ⟨.returned, t, .inr (.inr ⟨trivial, hc⟩), ht⟩
  | exited => exact ⟨.exited, t, .inr (.inr ⟨trivial, hc⟩), ht⟩

theorem orElse (h : CanEnd true P c (post.andThen Q)) (hok : ∀ s, Q true s → post.done true s)
    (hd : CanEnd tested (Q false) d post) : CanEnd tested P (.orElse c d) post := by
  intro s hp
  obtain ⟨o, t, hc, ht⟩ := h s hp
  cases o with
  | done ok =>
    cases ok with
    | true => exact ⟨.done true, t, .inl ⟨rfl, hc⟩, hok t ht⟩
    | false =>
      obtain ⟨o, u, hd, hu⟩ := hd t ht
      exact ⟨o, u, .inr (.inl ⟨t, hc, hd⟩), hu⟩
  | returned => exact ⟨.returned, t, .inr (.inr ⟨trivial, hc⟩), ht⟩
  | exited => exact ⟨.exited, t, .inr (.inr ⟨trivial, hc⟩), ht⟩

theorem andThen (h : CanEnd true P c (post.andThen Q)) (hd : CanEnd tested (Q true) d post)
    (hfail : ∀ s, Q false s → post.done false s) : CanEnd tested P (.andThen c d) post := by
  intro s hp
  obtain ⟨o, t, hc, ht⟩ := h s hp
  cases o with
  | done ok =>
    cases ok with
    | true =>
      obtain ⟨o, u, hd, hu⟩ := hd t ht
      exact ⟨o, u, .inl ⟨t, hc, hd⟩, hu⟩
    | false => exact ⟨.done false, t, .inr (.inl ⟨rfl, hc⟩), hfail t ht⟩
  | returned => exact ⟨.returned, t, .inr (.inr ⟨trivial, hc⟩), ht⟩
  | exited => exact ⟨.exited, t, .inr (.inr ⟨trivial, hc⟩), ht⟩

/-- A function that can end well in either way. -/
theorem call {Q R : σ → Prop} (h : CanEnd tested P c (.success Q Q)) : CanEnd tested P (.call c) (.success Q R) := by
  intro s hp
  obtain ⟨o, t, hc, ht⟩ := h s hp
  cases o with
  | done ok =>
    obtain ⟨rfl, ht⟩ := ht
    exact ⟨.done true, t, ⟨_, hc, rfl⟩, rfl, ht⟩
  | returned => exact ⟨.done true, t, ⟨_, hc, rfl⟩, rfl, ht⟩
  | exited => exact ht.elim

theorem expand {words : σ → Cmd σ} (h : ∀ s, P s → CanEnd tested (· = s) (words s) post) :
    CanEnd tested P (.expand words) post := fun s hp => h s hp s rfl

theorem ret (h : ∀ s, P s → post.returned s) : CanEnd tested P .ret post :=
  fun s hp => ⟨.returned, s, ⟨rfl, rfl⟩, h s hp⟩

theorem weaken {post' : Post σ} (h : CanEnd tested P' c post') (hp : ∀ s, P s → P' s)
    (hpost : ∀ o s, post'.At o s → post.At o s) : CanEnd tested P c post := by
  intro s hps
  obtain ⟨o, t, hc, ht⟩ := h s (hp s hps)
  exact ⟨o, t, hc, hpost o t ht⟩

theorem skip (h : ∀ s, P s → post.done true s) : CanEnd tested P .skip post := assign h

theorem block_cons {Q R : σ → Prop} {cs : List (Cmd σ)} (h : CanEnd tested P c (.success M R))
    (h' : CanEnd tested M (.block (d :: cs)) (.success Q R)) :
    CanEnd tested P (.block (c :: d :: cs)) (.success Q R) := by
  refine seq (M := M) (h.weaken (fun _ => id) fun o s ho => ?_) h'
  cases o with
  | done ok => exact ho.2
  | returned => exact ho
  | exited => exact ho

/-- A loop whose body can succeed each time can succeed. Induction on the words. -/
theorem each {body : α → Cmd σ} {xs : List α} {R : σ → Prop}
    (h : ∀ x ∈ xs, CanEnd tested P (body x) (.success P R)) : CanEnd tested P (.each body xs) (.success P R) := by
  induction xs with
  | nil => exact skip fun _ hp => ⟨rfl, hp⟩
  | cons x xs ih =>
    have hx := h x List.mem_cons_self
    have hrest := ih fun y hy => h y (List.mem_cons_of_mem x hy)
    cases xs with
    | nil => exact hx
    | cons y xs => exact block_cons hx hrest

/-- A loop whose body can return the first time can return. -/
theorem each_returns {body : α → Cmd σ} {x : α} {xs : List α} {R : σ → Prop}
    (h : CanEnd tested P (body x) (.success (fun _ => False) R)) :
    CanEnd tested P (.each body (x :: xs)) (.success (fun _ => False) R) := by
  cases xs with
  | nil => exact h
  | cons y xs => exact block_cons h fun _ hs => hs.elim

end CanEnd
end Shipstream.Shell
