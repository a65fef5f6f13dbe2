import Mathlib.Data.Nat.Notation
import PacketTrace.Bytes.Instances

/-!
# Repeated calls

An operation that answers and moves on to another state can be called again
and again: `answer` numbers its answers from zero, and `stateAfter` is where it
has got to.

* `stateAfter_induction`: what holds at the start and is kept by a call holds
  after any number of calls;
* `Produces`: a stream answers with some items in turn, and then with its end or
  with the failure that cuts them off;
* `putAll`: passes items on to an encoder, up to the first one that it refuses;
* `putEach`: passes all of them on, whatever becomes of each.
-/

namespace PacketTrace

variable {σ τ α β : Type}

/-- The state after so many calls. -/
def stateAfter (call : σ → α × σ) (s : σ) : ℕ → σ
  | 0 => s
  | n + 1 => stateAfter call (call s).2 n

/-- The answer to a call, by its number. -/
def answer (call : σ → α × σ) (s : σ) (n : ℕ) : α := (call (stateAfter call s n)).1

theorem stateAfter_succ (call : σ → α × σ) (s : σ) (n : ℕ) :
    stateAfter call s (n + 1) = (call (stateAfter call s n)).2 := by
  induction n generalizing s with
  | zero => rfl
  | succ n ih => exact ih (call s).2

theorem stateAfter_add (call : σ → α × σ) (s : σ) (m n : ℕ) :
    stateAfter call s (m + n) = stateAfter call (stateAfter call s m) n := by
  induction n with
  | zero => rfl
  | succ n ih => rw [Nat.add_succ, stateAfter_succ, stateAfter_succ, ih]

theorem answer_add (call : σ → α × σ) (s : σ) (m n : ℕ) :
    answer call s (m + n) = answer call (stateAfter call s m) n := by
  rw [answer, answer, stateAfter_add]

theorem answer_zero (call : σ → α × σ) (s : σ) : answer call s 0 = (call s).1 := rfl

theorem answer_succ (call : σ → α × σ) (s : σ) (n : ℕ) :
    answer call s (n + 1) = answer call (call s).2 n := rfl

/-- What holds of a state and stays true from call to call holds after any
    number of them. -/
theorem stateAfter_induction {call : σ → α × σ} {P : σ → Prop} {s : σ} (hs : P s)
    (hcall : ∀ s, P s → P (call s).2) (n : ℕ) : P (stateAfter call s n) := by
  induction n generalizing s with
  | zero => exact hs
  | succ n ih => exact ih (hcall s hs)

/-- A state that a call leaves as it is stays for good. -/
theorem stateAfter_of_fixed {call : σ → α × σ} {s : σ} (h : (call s).2 = s) (n : ℕ) :
    stateAfter call s n = s :=
  stateAfter_induction (P := (· = s)) rfl (by rintro _ rfl; exact h) n

theorem answer_of_fixed {call : σ → α × σ} {s : σ} {a : α} (h : call s = (a, s)) (n : ℕ) :
    answer call s n = a := by
  have hstate : (call s).2 = s := congrArg Prod.snd h
  rw [answer, stateAfter_of_fixed hstate, h]

/-- The answers to the first calls. -/
def answers (call : σ → α × σ) (s : σ) : ℕ → List α
  | 0 => []
  | n + 1 => (call s).1 :: answers call (call s).2 n

/-! ## Streams -/

/-- The answer to a call, by its number, if there are these items to come, and
    then a failure that cuts them off, or none: after it, all is over. -/
def answerOf {ε : Type} : List α → Option ε → ℕ → Except ε (Option α)
  | a :: _, _, 0 => .ok (some a)
  | _ :: items, failure, n + 1 => answerOf items failure n
  | [], some failure, 0 => .error failure
  | [], _, _ => .ok none

/-- The stream answers with these items in turn, and then with the failure that
    cuts them off, if there is one. -/
def Produces {ε : Type} (next : τ → σ → Except ε (Option α) × τ × σ) (items : List α)
    (failure : Option ε) (stream : τ) (s : σ) : Prop :=
  ∀ n, answer (Function.uncurry next) (stream, s) n = answerOf items failure n

section Produces

variable {ε : Type} {next : τ → σ → Except ε (Option α) × τ × σ} {items : List α}
  {failure : Option ε} {stream : τ} {s : σ}

theorem Produces.head (h : Produces next items failure stream s) :
    (next stream s).1 = answerOf items failure 0 := h 0

theorem Produces.tail {a : α} (h : Produces next (a :: items) failure stream s) :
    Produces next items failure (next stream s).2.1 (next stream s).2.2 := fun n => h (n + 1)

/-- There is only one sequence of items, with one failure or none, that a stream
    answers with. -/
theorem Produces.unique {items' : List α} {failure' : Option ε}
    (h : Produces next items failure stream s) (h' : Produces next items' failure' stream s) :
    items = items' ∧ failure = failure' := by
  induction items generalizing items' stream s with
  | nil =>
    have hhead := h.head.symm.trans h'.head
    cases items' with
    | nil => cases failure <;> cases failure' <;> cases hhead <;> exact ⟨rfl, rfl⟩
    | cons a' items' => cases failure <;> cases hhead
  | cons a items ih =>
    have hhead := h.head.symm.trans h'.head
    cases items' with
    | nil => cases failure' <;> cases hhead
    | cons a' items' =>
      cases hhead
      obtain ⟨rfl, rfl⟩ := ih h.tail h'.tail
      exact ⟨rfl, rfl⟩

/-- Items are produced one by one. -/
theorem produces_cons {a : α} {stream' : τ} {s' : σ}
    (hcall : next stream s = (.ok (some a), stream', s'))
    (h : Produces next items failure stream' s') : Produces next (a :: items) failure stream s := by
  have hcall : Function.uncurry next (stream, s) = (.ok (some a), stream', s') := hcall
  intro n
  cases n with
  | zero => exact congrArg Prod.fst hcall
  | succ n =>
    rw [answer_succ, hcall]
    exact h n

/-- After its last answer, a stream that stays as it is has no more items. -/
theorem produces_nil {stream' : τ} {s' : σ}
    (hcall : next stream s = (answerOf [] failure 0, stream', s'))
    (hend : next stream' s' = (.ok none, stream', s')) : Produces next [] failure stream s := by
  have hcall : Function.uncurry next (stream, s) = (answerOf [] failure 0, stream', s') := hcall
  have hend : Function.uncurry next (stream', s') = (.ok none, stream', s') := hend
  intro n
  cases n with
  | zero => exact congrArg Prod.fst hcall
  | succ n =>
    rw [answer_succ, hcall, answer_of_fixed hend]
    cases failure <;> rfl

end Produces

/-! ## Encoders -/

/-- A result that is a success leaves an encoder and a sink. -/
theorem exists_eq_ok {ε : Type} {x : Except ε α × τ × σ} {a : α} (h : x.1 = .ok a) :
    ∃ encoder s, x = (.ok a, encoder, s) := by
  obtain ⟨result, encoder, s⟩ := x
  exact ⟨encoder, s, by rw [show result = .ok a from h]⟩

/-- Passes items on to an encoder one after the other, up to the first
    failure. -/
def putAll {ε : Type} (put : τ → α → σ → Except ε Unit × τ × σ) :
    List α → τ → σ → Except ε Unit × τ × σ
  | [], encoder, s => (.ok (), encoder, s)
  | a :: items, encoder, s =>
    match put encoder a s with
    | (.error failure, encoder, s) => (.error failure, encoder, s)
    | (.ok (), encoder, s) => putAll put items encoder s

/-- Passes items on to an encoder one after the other, also after a failure, and
    keeps what becomes of each. -/
def putEach {ε : Type} (put : τ → α → σ → Except ε Unit × τ × σ) :
    List α → τ → σ → List (Except ε Unit) × τ × σ
  | [], encoder, s => ([], encoder, s)
  | a :: items, encoder, s =>
    let (result, encoder, s) := put encoder a s
    let (results, encoder, s) := putEach put items encoder s
    (result :: results, encoder, s)

theorem putAll_cons_eq_ok {ε : Type} {put : τ → α → σ → Except ε Unit × τ × σ} {a : α}
    {items : List α} {encoder encoder' : τ} {s s' : σ}
    (h : putAll put (a :: items) encoder s = (.ok (), encoder', s')) :
    ∃ encoder₁ s₁, put encoder a s = (.ok (), encoder₁, s₁) ∧
      putAll put items encoder₁ s₁ = (.ok (), encoder', s') := by
  rw [putAll] at h
  split at h
  · cases h
  next encoder₁ s₁ hput => exact ⟨encoder₁, s₁, hput, h⟩

theorem putAll_append {ε : Type} {put : τ → α → σ → Except ε Unit × τ × σ} {items : List α}
    {encoder encoder' : τ} {s s' : σ} (h : putAll put items encoder s = (.ok (), encoder', s'))
    (more : List α) : putAll put (items ++ more) encoder s = putAll put more encoder' s' := by
  induction items generalizing encoder s with
  | nil =>
    cases h
    rfl
  | cons a items ih =>
    obtain ⟨encoder₁, s₁, hput, hrest⟩ := putAll_cons_eq_ok h
    rw [List.cons_append, putAll, hput]
    exact ih hrest

theorem putAll_append_of_error {ε : Type} {put : τ → α → σ → Except ε Unit × τ × σ}
    {items : List α} {failure : ε} {encoder encoder' : τ} {s s' : σ}
    (h : putAll put items encoder s = (.error failure, encoder', s')) (more : List α) :
    putAll put (items ++ more) encoder s = (.error failure, encoder', s') := by
  induction items generalizing encoder s with
  | nil => cases h
  | cons a items ih =>
    rw [putAll] at h
    rw [List.cons_append, putAll]
    rcases hput : put encoder a s with ⟨_ | _, encoder₁, s₁⟩ <;> rw [hput] at h
    · exact h
    · exact ih h

/-- A failure is that of the first item that is refused. -/
theorem putAll_eq_error {ε : Type} {put : τ → α → σ → Except ε Unit × τ × σ} {items : List α}
    {failure : ε} {encoder encoder' : τ} {s s' : σ}
    (h : putAll put items encoder s = (.error failure, encoder', s')) :
    ∃ before a after encoder₁ s₁, items = before ++ a :: after ∧
      putAll put before encoder s = (.ok (), encoder₁, s₁) ∧
      put encoder₁ a s₁ = (.error failure, encoder', s') := by
  induction items generalizing encoder s with
  | nil => cases h
  | cons a items ih =>
    rw [putAll] at h
    split at h
    next hput =>
      cases h
      exact ⟨[], a, items, encoder, s, rfl, rfl, hput⟩
    next hput =>
      obtain ⟨before, b, after, encoder₂, s₂, rfl, hbefore, hb⟩ := ih h
      refine ⟨a :: before, b, after, encoder₂, s₂, rfl, ?_, hb⟩
      rw [putAll, hput]
      exact hbefore

end PacketTrace
