import PacketTrace.Proofs.Stream.Simulation

/-!
# Operations on one of two states

A pair of a source and a sink is both. What reads from it leaves the sink
alone, and what writes to it leaves the source alone: they do to the pair what
they do to their part of it, which cannot be told apart from it.

* `isReadSimulation_pair`: reading from the first of two states;
* `isWriteSimulation_pair`: writing to the second.
-/

namespace PacketTrace

variable {σ τ α β : Type}

/-- What an operation on the first of two states comes to. -/
def withSecond (t : τ) (x : α × β × σ) : α × β × σ × τ := (x.1, x.2.1, x.2.2, t)

/-- What an operation on the second of two states comes to. -/
def withFirst (s : σ) (x : α × β × τ) : α × β × σ × τ := (x.1, x.2.1, s, x.2.2)

theorem isReadSimulation_pair [ByteSource σ] (t : τ) :
    IsReadSimulation fun (s : σ) (x : σ × τ) => x = (s, t) where
  read := by
    rintro s _ rfl n
    exact ⟨_, rfl, rfl⟩

theorem isWriteSimulation_pair [ByteSink τ] (s : σ) :
    IsWriteSimulation fun (t : τ) (x : σ × τ) => x = (s, t) where
  write := by
    rintro t _ rfl bytes
    exact ⟨_, rfl, rfl⟩
  flush := by
    rintro t _ rfl
    exact ⟨_, rfl, rfl⟩

theorem withSecond_of_alikeWith {t : τ} {x : α × β × σ} {y : α × β × σ × τ}
    (h : AlikeWith (fun s x => x = (s, t)) x y) : y = withSecond t x := by
  obtain ⟨_, heq, rfl⟩ := h
  exact heq

theorem withFirst_of_alikeWith {s : σ} {x : α × β × τ} {y : α × β × σ × τ}
    (h : AlikeWith (fun t x => x = (s, t)) x y) : y = withFirst s x := by
  obtain ⟨_, heq, rfl⟩ := h
  exact heq

theorem flushSink_pair [ByteSink τ] (s : σ) (t : τ) :
    flushSink (s, t) = ((flushSink t).1, s, (flushSink t).2) := by
  obtain ⟨_, heq, rfl⟩ := flushSink_alike (isWriteSimulation_pair s) (t := (s, t)) rfl
  exact heq

end PacketTrace
