import Mathlib.Data.Nat.Notation
import PacketTrace.Proofs.Stream.Spool

/-!
# Sinks that run out of room

What is done to a sink can often be told apart into fields that are written in
turn, and what follows once all of them are written (`writeThen`). A spool with
a limit takes the fields as long as they fit in it. The first that does not is
taken in part, or refused whole, and nothing is written after it.

* `writeThen_append`: what follows some fields may be more fields;
* `Spool.writeThen_of_le`: on a spool with room for all fields;
* `Spool.writeThen_of_cut`: on one that has no room for the field in the middle;
* `Spool.not_lacks_of_writeFields`: a field for which there was no room once
  (`Spool.Lacks`) is never written later.
-/

namespace PacketTrace

variable {τ α β : Type}

section Sink

variable [ByteSink τ] {next : τ → Except Failure α × τ}

/-- Writes fields in turn, and goes on once all of them are written. -/
def writeThen (fields : List Bytes) (next : τ → Except Failure α × τ) (t : τ) :
    Except Failure α × τ :=
  match writeFields fields t with
  | (.error failure, t) => (.error failure, t)
  | (.ok _, t) => next t

/-- Comes to a result. The sink is flushed for a success. -/
def conclude (result : Except Failure α) (t : τ) : Except Failure α × τ :=
  match result with
  | .error failure => (.error failure, t)
  | .ok a =>
    match flushSink t with
    | (.error failure, t) => (.error failure, t)
    | (.ok (), t) => (.ok a, t)

theorem writeThen_nil (next : τ → Except Failure α × τ) : writeThen [] next = next := rfl

theorem writeThen_cons (field : Bytes) (fields : List Bytes) (next : τ → Except Failure α × τ)
    (t : τ) : writeThen (field :: fields) next t =
      match ByteSink.write field t with
      | (.error cause, t) => (.error (.device cause), t)
      | (.ok taken, t) =>
        if taken < field.length then (.error (.encoding (.short (field.length - taken))), t)
        else writeThen fields next t := by
  rw [writeThen, writeFields]
  rcases ByteSink.write field t with ⟨_ | taken, t₁⟩
  · rfl
  · by_cases hshort : taken < field.length
    · simp only [if_pos hshort]
    · simp only [if_neg hshort, writeThen]
      rcases writeFields fields t₁ with ⟨_ | _, t₂⟩ <;> rfl

theorem writeThen_append (fields more : List Bytes) (next : τ → Except Failure α × τ) :
    writeThen (fields ++ more) next = writeThen fields (writeThen more next) := by
  induction fields with
  | nil => rfl
  | cons field fields ih =>
    funext t
    rw [List.cons_append, writeThen_cons, writeThen_cons, ih]

/-- Goes on after an operation that succeeds. -/
def andThen (operation : τ → Except Failure α × τ) (next : α → τ → Except Failure β × τ) (t : τ) :
    Except Failure β × τ :=
  match operation t with
  | (.error failure, t) => (.error failure, t)
  | (.ok a, t) => next a t

theorem andThen_writeThen (fields : List Bytes) (operation : τ → Except Failure α × τ)
    (next : α → τ → Except Failure β × τ) :
    andThen (writeThen fields operation) next = writeThen fields (andThen operation next) := by
  funext t
  rw [andThen, writeThen, writeThen]
  rcases writeFields fields t with ⟨_ | _, t'⟩ <;> rfl

theorem andThen_conclude (a : α) (f : α → β) :
    andThen (conclude (.ok a)) (fun a t => (.ok (f a), t)) = conclude (τ := τ) (.ok (f a)) := by
  funext t
  rw [andThen, conclude, conclude]
  rcases flushSink t with ⟨_ | _, t'⟩ <;> rfl

end Sink

/-- On every spool the operation writes these fields, and comes to this result
    once all of them are written. -/
def Issues (operation : Spool → Except Failure α × Spool) (fields : List Bytes)
    (result : Except Failure α) : Prop :=
  operation = writeThen fields fun t => (result, t)

namespace Issues

variable {operation : Spool → Except Failure α × Spool} {fields : List Bytes}

theorem writeFields (fields : List Bytes) :
    Issues (PacketTrace.writeFields fields) fields (.ok fields.flatten.length) := by
  funext t
  rw [writeThen]
  rcases hwrite : PacketTrace.writeFields fields t with ⟨_ | written, t'⟩
  · rfl
  · rw [(Spool.writeFields_eq_ok hwrite).1]

theorem andThen_ok {a : α} (h : Issues operation fields (.ok a))
    (next : α → Spool → Except Failure β × Spool) :
    andThen operation next = writeThen fields (next a) := by
  rw [show operation = _ from h, andThen_writeThen]
  rfl

theorem andThen_error {failure : Failure} (h : Issues operation fields (.error failure))
    (next : α → Spool → Except Failure β × Spool) :
    Issues (andThen operation next) fields (.error failure) := by
  rw [Issues, show operation = _ from h, andThen_writeThen]
  rfl

end Issues

namespace Spool

variable {s : Spool} {fields whole rest : List Bytes} {cut : Bytes} {limit : ℕ}

@[simp]
theorem size_content_append (s : Spool) (bytes : Bytes) :
    (s.append bytes).content.size = s.content.size + bytes.length := by
  simp [append]

theorem write_of_le {bytes : Bytes} (h : ∀ limit ∈ s.limit, s.content.size + bytes.length ≤ limit) :
    ByteSink.write bytes s = (.ok bytes.length, s.append bytes) := by
  cases hlimit : s.limit with
  | none => exact write_of_limit_eq_none hlimit bytes
  | some limit =>
    have hroom := h limit hlimit
    change s.write bytes = _
    rw [write, hlimit]
    exact if_pos (by omega)

theorem write_of_gt {bytes : Bytes} (hlimit : s.limit = some limit) (hle : s.content.size ≤ limit)
    (h : limit < s.content.size + bytes.length) :
    ByteSink.write bytes s =
      if s.refuses then (.error writeFailure, s)
      else (.ok (limit - s.content.size), s.append (bytes.take (limit - s.content.size))) := by
  change s.write bytes = _
  rw [write, hlimit]
  exact if_neg (by omega)

/-- With room for all fields, all of them are written. -/
theorem writeThen_of_le
    (h : ∀ limit ∈ s.limit, s.content.size + fields.flatten.length ≤ limit)
    (next : Spool → Except Failure α × Spool) :
    writeThen fields next s = next (s.append fields.flatten) := by
  induction fields generalizing s with
  | nil => rw [writeThen_nil, List.flatten_nil, append_nil]
  | cons field fields ih =>
    rw [List.flatten_cons, List.length_append] at h
    have hfield : ByteSink.write field s = (.ok field.length, s.append field) :=
      write_of_le fun limit hlimit => by
        have := h limit hlimit
        omega
    have hfields : writeThen fields next (s.append field) =
        next ((s.append field).append fields.flatten) := ih fun limit hlimit => by
      have := h limit hlimit
      rw [size_content_append]
      omega
    rw [writeThen_cons, hfield]
    simp only [Nat.lt_irrefl, if_false]
    rw [hfields, append_append, List.flatten_cons]

/-- The first field for which there is no room is taken as far as there is, or
    refused whole. It is the last that is written. -/
theorem writeThen_of_cut (hlimit : s.limit = some limit)
    (hwhole : s.content.size + whole.flatten.length ≤ limit)
    (hcut : limit < s.content.size + whole.flatten.length + cut.length)
    (next : Spool → Except Failure α × Spool) :
    writeThen (whole ++ cut :: rest) next s =
      if s.refuses then (.error (.device writeFailure), s.append whole.flatten)
      else
        (.error (.encoding (.short (s.content.size + whole.flatten.length + cut.length - limit))),
          s.append ((whole.flatten ++ cut).take (limit - s.content.size))) := by
  have hall : writeThen whole (writeThen (cut :: rest) next) s =
      writeThen (cut :: rest) next (s.append whole.flatten) := by
    refine writeThen_of_le ?_ _
    rw [hlimit]
    rintro _ ⟨⟩
    exact hwhole
  have htake : (whole.flatten ++ cut).take (limit - s.content.size) =
      whole.flatten ++ cut.take (limit - (s.content.size + whole.flatten.length)) := by
    rw [List.take_append, List.take_of_length_le (Nat.le_sub_of_add_le' hwhole), Nat.sub_sub]
  have hwrite : ByteSink.write cut (s.append whole.flatten) = _ :=
    write_of_gt hlimit (by rwa [size_content_append]) (by rwa [size_content_append])
  rw [size_content_append, show (s.append whole.flatten).refuses = s.refuses from rfl] at hwrite
  rw [writeThen_append, hall, writeThen_cons, hwrite, htake]
  cases s.refuses with
  | true => rfl
  | false =>
    have hmissing : cut.length - (limit - (s.content.size + whole.flatten.length)) =
        s.content.size + whole.flatten.length + cut.length - limit := by omega
    simp only [Bool.false_eq_true, if_false]
    rw [if_pos (by omega), hmissing, append_append]

/-- There is no room for so many bytes more. -/
def Lacks (s : Spool) (n : ℕ) : Prop := ∃ limit, s.limit = some limit ∧ limit - s.content.size < n

theorem Lacks.pos {n : ℕ} (h : s.Lacks n) : 0 < n := by
  obtain ⟨limit, -, hroom⟩ := h
  exact Nat.zero_lt_of_lt hroom

/-- What is written takes room away. -/
theorem Lacks.append {n : ℕ} (h : s.Lacks n) (bytes : Bytes) : (s.append bytes).Lacks n := by
  obtain ⟨limit, hlimit, hroom⟩ := h
  refine ⟨limit, hlimit, ?_⟩
  rw [size_content_append]
  omega

/-- A field that is not written whole has no room, neither before nor after. -/
theorem write_eq_short {field : Bytes} {taken : ℕ} {s' : Spool}
    (h : ByteSink.write field s = (.ok taken, s')) (hshort : taken < field.length) :
    s' = s.append (field.take taken) ∧ s.Lacks field.length := by
  change s.write field = _ at h
  rw [write] at h
  split at h
  · cases h
    exact absurd hshort (Nat.lt_irrefl _)
  next limit hlimit =>
    simp only at h
    split at h
    · cases h
      exact absurd hshort (Nat.lt_irrefl _)
    next hroom =>
      split at h
      · cases h
      · cases h
        exact ⟨rfl, limit, hlimit, Nat.lt_of_not_le hroom⟩

theorem write_eq_error {field : Bytes} {cause : DeviceFailure} {s' : Spool}
    (h : ByteSink.write field s = (.error cause, s')) :
    cause = writeFailure ∧ s' = s ∧ s.Lacks field.length := by
  change s.write field = _ at h
  rw [write] at h
  split at h
  · cases h
  next limit hlimit =>
    simp only at h
    split at h
    · cases h
    next hroom =>
      split at h
      · cases h
        exact ⟨rfl, rfl, limit, hlimit, Nat.lt_of_not_le hroom⟩
      · cases h

theorem not_lacks_of_write {field : Bytes} {taken : ℕ} {s' : Spool}
    (h : ByteSink.write field s = (.ok taken, s')) (hwhole : field.length ≤ taken) :
    ¬ s.Lacks field.length := by
  rintro ⟨limit, hlimit, hroom⟩
  change s.write field = _ at h
  rw [write, hlimit] at h
  simp only [if_neg (Nat.not_le.2 hroom)] at h
  split at h
  · cases h
  · cases h
    exact Nat.not_lt.2 hwhole hroom

/-- Fields that are not all written are written in part, up to one for which
    there is no room then. It is not the flush that fails. -/
theorem writeFields_eq_error {failure : Failure} {s' : Spool}
    (h : writeFields fields s = (.error failure, s')) :
    failure ≠ .device flushFailure ∧
      (∃ part, s' = s.append part ∧ part.length < fields.flatten.length) ∧
      ∃ field ∈ fields, s'.Lacks field.length := by
  induction fields generalizing s with
  | nil => cases h
  | cons field fields ih =>
    rw [writeFields] at h
    split at h
    next hwrite =>
      cases h
      obtain ⟨rfl, rfl, hlacks⟩ := write_eq_error hwrite
      have hpos := hlacks.pos
      refine ⟨by decide, ⟨[], (append_nil _).symm, ?_⟩, field, List.mem_cons_self, hlacks⟩
      rw [List.flatten_cons, List.length_append, List.length_nil]
      omega
    next taken s₁ hwrite =>
      split at h
      next hshort =>
        cases h
        obtain ⟨rfl, hlacks⟩ := write_eq_short hwrite hshort
        refine ⟨by simp, ⟨_, rfl, ?_⟩, field, List.mem_cons_self, hlacks.append _⟩
        rw [List.length_take, List.flatten_cons, List.length_append]
        omega
      next hwhole =>
        split at h
        · cases h
        next hfields =>
          cases h
          obtain ⟨rfl, rfl⟩ := write_eq_ok hwrite (Nat.le_of_not_lt hwhole)
          obtain ⟨hne, ⟨part, rfl, hpart⟩, cut, hcut, hlacks⟩ := ih hfields
          refine ⟨hne, ⟨field ++ part, append_append .., ?_⟩, cut, List.mem_cons_of_mem _ hcut,
            hlacks⟩
          rw [List.flatten_cons, List.length_append, List.length_append]
          omega

/-- Where all fields are written, there was room for each of them. -/
theorem not_lacks_of_writeFields {written : ℕ} {s' : Spool}
    (h : writeFields fields s = (.ok written, s')) : ∀ field ∈ fields, ¬ s.Lacks field.length := by
  induction fields generalizing s written with
  | nil => simp
  | cons field fields ih =>
    rw [writeFields] at h
    split at h
    · cases h
    next taken s₁ hwrite =>
      split at h
      · cases h
      next hwhole =>
        split at h
        next hfields =>
          cases h
          have hle := Nat.le_of_not_lt hwhole
          obtain ⟨-, rfl⟩ := write_eq_ok hwrite hle
          exact List.forall_mem_cons.2 ⟨not_lacks_of_write hwrite hle,
            fun later hlater => mt (Lacks.append · field) (ih hfields later hlater)⟩
        · cases h

/-- The result of an operation that ends with a flush that fails. -/
def unflushed (result : Except Failure α) : Except Failure α :=
  result.bind fun _ => .error (.device flushFailure)

theorem conclude_eq (result : Except Failure α) (s : Spool) :
    conclude result s = (if s.failsFlush then unflushed result else result, s) := by
  cases result with
  | error failure =>
    change (_, s) = _
    cases s.failsFlush <;> rfl
  | ok a =>
    rw [conclude, flushSink]
    cases hflush : s.failsFlush <;> simp [ByteSink.flush, hflush, unflushed, Except.bind]

end Spool

/-- Fields that do not all fit in some room have one among them that does not
    fit after those before it. -/
theorem exists_cut {fields : List Bytes} {room : ℕ} (h : room < fields.flatten.length) :
    ∃ whole cut rest, fields = whole ++ cut :: rest ∧ whole.flatten.length ≤ room ∧
      room < whole.flatten.length + cut.length := by
  induction fields generalizing room with
  | nil => exact absurd h (Nat.not_lt_zero _)
  | cons field fields ih =>
    rcases Nat.lt_or_ge room field.length with hcut | hroom
    · exact ⟨[], field, fields, rfl, Nat.zero_le _, by simpa using hcut⟩
    · rw [List.flatten_cons, List.length_append] at h
      obtain ⟨whole, cut, rest, rfl, hwhole, hcut⟩ := ih (Nat.sub_lt_left_of_lt_add hroom h)
      refine ⟨field :: whole, cut, rest, rfl, ?_, ?_⟩
      · rw [List.flatten_cons, List.length_append]
        omega
      · rw [List.flatten_cons, List.length_append]
        omega

end PacketTrace
