import PacketTrace.Proofs.Stream.Calls
import PacketTrace.Proofs.Stream.Simulation
import PacketTrace.Proofs.Stream.Spool

/-!
# Sinks that never fail

A sink that never fails takes every write whole (`IsIntake`), and what it has
taken is then known from what has been written. Nothing that is written to it
comes to anything else than on a spool without a limit: such a spool *mirrors*
the sink (`Mirrors`), and an operation on either of them keeps that up
(`Agrees`).

* `Spool.isIntake`: a spool without a limit is a sink that never fails;
* `Mirrors.writeFields`, `Mirrors.flushSink`: writing to both;
* `Mirrors.putAll`, `Mirrors.putEach`: passing items on to encoders of both.
-/

namespace PacketTrace

variable {τ α β : Type}

/-- A relation between sinks and the bytes that they have taken, in which every
    write is taken whole, and no flush fails. -/
structure IsIntake [ByteSink τ] (R : Bytes → τ → Prop) : Prop where
  write : ∀ {taken t} (bytes : Bytes), R taken t →
    ∃ t', ByteSink.write bytes t = (.ok bytes.length, t') ∧ R (taken ++ bytes) t'
  flush : ∀ {taken t}, R taken t → ∃ t', ByteSink.flush t = (.ok (), t') ∧ R taken t'

/-- A spool without a limit takes everything. -/
theorem Spool.isIntake : IsIntake fun taken (s : Spool) =>
    s.toBytes = taken ∧ s.limit = none ∧ s.failsFlush = false where
  write := by
    rintro taken s bytes ⟨rfl, hlimit, hflush⟩
    exact ⟨s.append bytes, write_of_limit_eq_none hlimit bytes, toBytes_append s bytes, hlimit,
      hflush⟩
  flush := by
    rintro taken s ⟨rfl, hlimit, hflush⟩
    exact ⟨s, by simp [ByteSink.flush, hflush], rfl, hlimit, hflush⟩

/-- The spool has no limit, and has been given what the sink has taken. -/
structure Mirrors (R : Bytes → τ → Prop) (spool : Spool) (t : τ) : Prop where
  limit : spool.limit = none
  failsFlush : spool.failsFlush = false
  taken : R spool.toBytes t

variable {R : Bytes → τ → Prop} {spool : Spool} {t : τ}

/-- A new spool mirrors a sink that has taken nothing. -/
theorem mirrors_new (h : R [] t) : Mirrors R {} t := ⟨rfl, rfl, h⟩

theorem Mirrors.of_append {output : Bytes} (h : Mirrors R (({} : Spool).append output) t) :
    R output t := by
  have htaken := h.taken
  rwa [Spool.toBytes_append] at htaken

theorem isWriteSimulation_mirrors [ByteSink τ] (hR : IsIntake R) :
    IsWriteSimulation (Mirrors R) where
  write := by
    intro spool t h bytes
    obtain ⟨t', hwrite, htaken⟩ := hR.write bytes h.taken
    rw [Spool.write_of_limit_eq_none h.limit]
    exact ⟨t', hwrite, h.limit, h.failsFlush, by rwa [Spool.toBytes_append]⟩
  flush := by
    intro spool t h
    obtain ⟨t', hflush, htaken⟩ := hR.flush h.taken
    have hspool : ByteSink.flush spool = (.ok (), spool) := by
      simp [ByteSink.flush, h.failsFlush]
    rw [hspool]
    exact ⟨t', hflush, h.limit, h.failsFlush, htaken⟩

theorem Mirrors.writeFields [ByteSink τ] (h : Mirrors R spool t) (hR : IsIntake R)
    (fields : List Bytes) :
    ∃ t', PacketTrace.writeFields fields t = (.ok fields.flatten.length, t') ∧
      Mirrors R (spool.append fields.flatten) t' := by
  have halike := writeFields_alike (isWriteSimulation_mirrors hR) h fields
  rwa [Spool.writeFields_of_limit_eq_none h.limit] at halike

theorem Mirrors.flushSink [ByteSink τ] (h : Mirrors R spool t) (hR : IsIntake R) :
    ∃ t', PacketTrace.flushSink t = (.ok (), t') ∧ Mirrors R spool t' := by
  have halike := flushSink_alike (isWriteSimulation_mirrors hR) h
  rwa [Spool.flushSink_of_failsFlush_eq_false h.failsFlush] at halike

/-- An operation comes to the same on both, and they mirror each other after
    it. -/
def Agrees (R : Bytes → τ → Prop) (x : α × β × Spool) (y : α × β × τ) : Prop :=
  ∃ t', y = (x.1, x.2.1, t') ∧ Mirrors R x.2.2 t'

theorem Mirrors.agrees (h : Mirrors R spool t) (a : α) (b : β) :
    Agrees R (a, b, spool) (a, b, t) := ⟨t, rfl, h⟩

/-- Items that are passed on one by one, while the encoders agree on each. -/
theorem Mirrors.putAll {ε : Type} {put : β → α → Spool → Except ε Unit × β × Spool}
    {put' : β → α → τ → Except ε Unit × β × τ}
    (hput : ∀ {spool t} (b : β) (a : α), Mirrors R spool t → Agrees R (put b a spool) (put' b a t))
    (h : Mirrors R spool t) (items : List α) (b : β) :
    Agrees R (PacketTrace.putAll put items b spool) (PacketTrace.putAll put' items b t) := by
  induction items generalizing b spool t with
  | nil => exact h.agrees _ b
  | cons a items ih =>
    obtain ⟨t₁, heq, hmirrors⟩ := hput b a h
    rw [PacketTrace.putAll, PacketTrace.putAll, heq]
    rcases hresult : put b a spool with ⟨_ | _, b₁, spool₁⟩ <;> rw [hresult] at hmirrors
    · exact hmirrors.agrees _ b₁
    · exact ih hmirrors b₁

/-- Items that are passed on whatever becomes of each, while the encoders agree
    on it. -/
theorem Mirrors.putEach {ε : Type} {put : β → α → Spool → Except ε Unit × β × Spool}
    {put' : β → α → τ → Except ε Unit × β × τ}
    (hput : ∀ {spool t} (b : β) (a : α), Mirrors R spool t → Agrees R (put b a spool) (put' b a t))
    (h : Mirrors R spool t) (items : List α) (b : β) :
    Agrees R (PacketTrace.putEach put items b spool) (PacketTrace.putEach put' items b t) := by
  induction items generalizing b spool t with
  | nil => exact h.agrees _ b
  | cons a items ih =>
    obtain ⟨t₁, heq, hmirrors⟩ := hput b a h
    obtain ⟨t₂, heqs, hmirrors'⟩ := ih hmirrors (put b a spool).2.1
    refine ⟨t₂, ?_, hmirrors'⟩
    simp only [PacketTrace.putEach, heq, heqs]

end PacketTrace
