import Scriptlet.Proofs.Grammar
import Scriptlet.Proofs.Parser.Success

/-!
# Passing tokens

A stream reaches another one by passing tokens, of which the grammar sees the
symbols. On a stream that holds an end token, a parser that passes only other
tokens never comes to the last one, so each of its steps really passes a
token. Loops are treated once and for all: what a loop answers is settled by
what its rounds do, and a loop whose rounds pass tokens is never cut short.
-/

namespace Scriptlet

namespace TokenStream

/-- The tokens that are still to be read. -/
def tokens (s : TokenStream) : List Token :=
  s.current :: s.later

/-- Whether one stream is left of another after tokens with the given symbols
are passed. -/
def Passes (s : TokenStream) (w : List Symbol) (t : TokenStream) : Prop :=
  ∃ passed, s.tokens = passed ++ t.tokens ∧ passed.map Token.symbol = w ∧
    t.index = s.index + passed.length

/-- Whether an end token is still to come. -/
def Terminated (s : TokenStream) : Prop :=
  ∃ x ∈ s.tokens, x.kind = .eof

section Passes

variable {s t u : TokenStream} {w v : List Symbol} {x : Symbol}

/-- Nothing is passed to stay where one is. -/
theorem Passes.refl (s : TokenStream) : s.Passes [] s :=
  ⟨[], rfl, rfl, rfl⟩

/-- What is passed on two ways after each other is passed on the whole way. -/
theorem Passes.trans (h : s.Passes w t) (h' : t.Passes v u) : s.Passes (w ++ v) u := by
  obtain ⟨passed, hs, rfl, hi⟩ := h
  obtain ⟨passed', ht, rfl, hi'⟩ := h'
  refine ⟨passed ++ passed', ?_, ?_, ?_⟩
  · rw [hs, ht, List.append_assoc]
  · rw [List.map_append]
  · rw [hi', hi, List.length_append]
    omega

/-- A stream with later tokens passes its current one. -/
theorem passes_next (h : s.later ≠ []) : s.Passes [s.current.symbol] s.next := by
  obtain ⟨index, current, later⟩ := s
  cases later with
  | nil => exact absurd rfl h
  | cons token later => exact ⟨[current], rfl, rfl, rfl⟩

/-- The first symbol passed is that of the current token. The stream after it starts
with what is passed next, if anything is. -/
theorem Passes.of_cons (h : s.Passes (x :: w) t) :
    s.current.symbol = x ∧ s.next.Passes w t := by
  obtain ⟨index, current, later⟩ := s
  obtain ⟨passed, hs, hw, hi⟩ := h
  cases passed with
  | nil => simp at hw
  | cons token passed =>
    simp only [tokens, List.cons_append, List.cons.injEq] at hs
    obtain ⟨rfl, rfl⟩ := hs
    simp only [List.map_cons, List.cons.injEq] at hw
    refine ⟨hw.1, ?_⟩
    cases passed with
    | nil => exact ⟨[], rfl, hw.2, by simpa [next, tokens] using hi⟩
    | cons token passed =>
      exact ⟨token :: passed, rfl, hw.2, by simp [next] at hi ⊢; omega⟩

/-- A way can be taken in two parts. What is left after the first part holds at least
the current token of the end. -/
theorem Passes.of_append (h : s.Passes (w ++ v) u) : ∃ t, s.Passes w t ∧ t.Passes v u := by
  obtain ⟨passed, hs, hw, hi⟩ := h
  obtain ⟨first, second, rfl, rfl, rfl⟩ := List.map_eq_append_iff.1 hw
  cases hl : second ++ u.tokens with
  | nil => simp [tokens] at hl
  | cons token later =>
    refine ⟨⟨s.index + first.length, token, later⟩, ⟨first, ?_, rfl, rfl⟩, ⟨second, ?_, rfl, ?_⟩⟩
    · rw [hs, List.append_assoc, hl]
      rfl
    · exact hl.symm
    · rw [hi, List.length_append]
      simp only
      omega

/-- What starts the symbols passed is told of the current token. -/
theorem Passes.current_of_starts {P : Kind → Prop} (h : s.Passes w t)
    (hw : Grammar.Starts w P) : P s.current.kind := by
  obtain ⟨x, v, rfl, hx⟩ := hw
  obtain ⟨rfl, -⟩ := h.of_cons
  exact hx

/-- The number of tokens that are left shows how many are passed. -/
theorem Passes.length (h : s.Passes w t) : s.later.length = w.length + t.later.length := by
  obtain ⟨passed, hs, rfl, -⟩ := h
  have hl := congrArg List.length hs
  simp only [tokens, List.length_cons, List.length_append] at hl
  rw [List.length_map]
  omega

/-- No tokens come up on the way. -/
theorem Passes.later_le (h : s.Passes w t) : t.later.length ≤ s.later.length := by
  have hl := h.length
  omega

/-- A token that is passed is left behind. -/
theorem Passes.next_later_lt (h : s.Passes (x :: w) t) :
    s.next.later.length < s.later.length := by
  have hl := h.length
  have hl' := h.of_cons.2.length
  rw [List.length_cons] at hl
  omega

/-- The symbols passed determine where one gets. -/
theorem Passes.unique (h : s.Passes w t) (h' : s.Passes w u) : t = u := by
  obtain ⟨passed, hs, rfl, hi⟩ := h
  obtain ⟨passed', hs', hw, hi'⟩ := h'
  have hl : passed'.length = passed.length := by simpa using congrArg List.length hw
  obtain ⟨-, ht⟩ := List.append_inj (hs'.symm.trans hs) hl
  obtain ⟨i, c, l⟩ := t
  obtain ⟨j, d, m⟩ := u
  simp only [tokens, List.cons.injEq] at ht
  obtain ⟨rfl, rfl⟩ := ht
  simp only at hi hi'
  rw [hi, hi', hl]

/-- One symbol is passed with the current token. -/
theorem Passes.of_singleton (h : s.Passes [x] t) : s.current.symbol = x ∧ t = s.next := by
  obtain ⟨hx, h'⟩ := h.of_cons
  exact ⟨hx, h'.unique (.refl _)⟩

end Passes

section Terminated

variable {s t u : TokenStream} {w v : List Symbol}

/-- A current token that is no end token is not the last one. -/
theorem Terminated.later_ne_nil (hs : s.Terminated) (hk : s.current.kind ≠ .eof) :
    s.later ≠ [] := by
  obtain ⟨x, hx, hxk⟩ := hs
  intro hl
  rw [tokens, hl, List.mem_singleton] at hx
  exact hk (hx ▸ hxk)

/-- The end token is still to come after another token. -/
theorem Terminated.next (hs : s.Terminated) (hk : s.current.kind ≠ .eof) :
    s.next.Terminated := by
  obtain ⟨index, current, later⟩ := s
  obtain ⟨x, hx, hxk⟩ := hs
  rcases List.mem_cons.1 hx with rfl | hx
  · exact absurd hxk hk
  · cases later with
    | nil => simp at hx
    | cons token later => exact ⟨x, hx, hxk⟩

/-- One stream reaches another one, and does not pass the end token. -/
structure Reads (s : TokenStream) (w : List Symbol) (t : TokenStream) : Prop where
  /-- Tokens with the given symbols are passed. -/
  passes : s.Passes w t
  /-- The end token is still to come. -/
  terminated : t.Terminated

/-- Reading nothing. -/
theorem Terminated.reads (hs : s.Terminated) : s.Reads [] s :=
  ⟨.refl s, hs⟩

/-- Reading goes on where it has come to. -/
theorem Reads.trans (h : s.Reads w t) (h' : t.Reads v u) : s.Reads (w ++ v) u :=
  ⟨h.passes.trans h'.passes, h'.terminated⟩

/-- Reading one token that is no end token. -/
theorem Terminated.reads_next (hs : s.Terminated) (hk : s.current.kind ≠ .eof) :
    s.Reads [s.current.symbol] s.next :=
  ⟨passes_next (hs.later_ne_nil hk), hs.next hk⟩

/-- Reading one more token at the end. -/
theorem Reads.concat (h : s.Reads w t) (hk : t.current.kind ≠ .eof) :
    s.Reads (w ++ [t.current.symbol]) t.next :=
  h.trans (h.terminated.reads_next hk)

/-- Reading one more token at the start. -/
theorem Terminated.reads_cons (hs : s.Terminated) (hk : s.current.kind ≠ .eof)
    (h : s.next.Reads w t) : s.Reads (s.current.symbol :: w) t :=
  (hs.reads_next hk).trans h

end Terminated

end TokenStream

namespace Parser

variable {α β : Type} {step : α → Parser (α ⊕ β)}

/-- What holds of the last round of a loop, and of every round before one of
which it holds, holds of the whole loop. -/
theorem iterate_induct {P : α → TokenStream → β → TokenStream → Prop}
    (stop : ∀ {a s b t}, step a s = .ok (.inr b) t → P a s b t)
    (more : ∀ {a a' s s' b t}, step a s = .ok (.inl a') s' → P a' s' b t → P a s b t)
    {bound : Nat} {a : α} {b : β} {s t : TokenStream} (h : iterate step bound a s = .ok b t) :
    P a s b t := by
  induction bound generalizing a s with
  | zero =>
    rw [iterate, throw_apply] at h
    simp at h
  | succ bound ih =>
    rw [iterate, bind_eq_ok_iff] at h
    obtain ⟨r, u, hr, h⟩ := h
    cases r with
    | inl a' => exact more hr (ih h)
    | inr b' =>
      dsimp only at h
      rw [pure_apply] at h
      cases h
      exact stop hr

/-- An invariant that every round of a loop keeps holds when its last round
starts. -/
theorem loop_invariant {I : α → TokenStream → Prop} {Q : β → TokenStream → Prop}
    (stop : ∀ {a s b t}, I a s → step a s = .ok (.inr b) t → Q b t)
    (more : ∀ {a a' s t}, I a s → step a s = .ok (.inl a') t → I a' t)
    {a : α} {b : β} {s t : TokenStream} (h : loop step a s = .ok b t) (ha : I a s) : Q b t :=
  iterate_induct (P := fun a s b t => I a s → Q b t) (fun hr hi => stop hi hr)
    (fun hr hq hi => hq (more hi hr)) h ha

/-- Rounds of a loop up to its answer, each of which passes a token unless it is
the last one. -/
inductive Rounds (step : α → Parser (α ⊕ β)) : α → TokenStream → β → TokenStream → Prop
  | stop {a : α} {b : β} {s t : TokenStream} :
      step a s = .ok (.inr b) t → Rounds step a s b t
  | more {a a' : α} {b : β} {s s' t : TokenStream} :
      step a s = .ok (.inl a') s' → s'.later.length < s.later.length →
        Rounds step a' s' b t → Rounds step a s b t

/-- As many rounds as there are tokens are enough. -/
theorem Rounds.iterate_eq {a : α} {b : β} {s t : TokenStream} (h : Rounds step a s b t)
    {bound : Nat} (hb : s.later.length < bound) : iterate step bound a s = .ok b t := by
  induction h generalizing bound with
  | stop hr =>
    obtain ⟨bound, rfl⟩ := Nat.exists_eq_add_of_lt hb
    rw [iterate, bind_eq_ok_iff]
    exact ⟨_, _, hr, rfl⟩
  | more hr hlt _ ih =>
    obtain ⟨bound, rfl⟩ := Nat.exists_eq_add_of_lt hb
    rw [iterate, bind_eq_ok_iff]
    exact ⟨_, _, hr, ih (by omega)⟩

/-- A loop answers what its rounds lead to. -/
theorem Rounds.loop_eq {a : α} {b : β} {s t : TokenStream} (h : Rounds step a s b t) :
    loop step a s = .ok b t :=
  h.iterate_eq (by omega)

end Parser

end Scriptlet
