import PacketTrace.Stream.Sink
import PacketTrace.Stream.Window

/-!
# States that cannot be told apart

Two states, possibly of different types, cannot be told apart by reading if
every read brings the same from both, and they are still related after it
(`IsReadSimulation`); and likewise for writing (`IsWriteSimulation`). Nothing
that is made of reads and writes tells them apart then: it comes to the same on
both, and leaves related states (`Alike`).

A relation of a state with itself is what stays true of it, whatever is read or
written (`isReadSimulation_of_invariant`, `isWriteSimulation_of_invariant`).

* `Window.fetch_alike`: fetching from related states;
* `writeFields_alike`, `flushSink_alike`: writing to them.
-/

namespace PacketTrace

variable {σ τ α β : Type}

/-- An operation comes to the same on two states, and leaves related ones. -/
def Alike (S : σ → τ → Prop) (x : α × σ) (y : α × τ) : Prop := ∃ t, y = (x.1, t) ∧ S x.2 t

/-- So does one that has a state of its own. -/
def AlikeWith (S : σ → τ → Prop) (x : α × β × σ) (y : α × β × τ) : Prop :=
  ∃ t, y = (x.1, x.2.1, t) ∧ S x.2.2 t

variable {S : σ → τ → Prop} {s : σ} {t : τ}

theorem alike_mk (h : S s t) (a : α) : Alike S (a, s) (a, t) := ⟨t, rfl, h⟩

theorem alikeWith_mk (h : S s t) (a : α) (b : β) : AlikeWith S (a, b, s) (a, b, t) := ⟨t, rfl, h⟩

/-- Reads do not tell related states apart. -/
structure IsReadSimulation [ByteSource σ] [ByteSource τ] (S : σ → τ → Prop) : Prop where
  read : ∀ {s t}, S s t → ∀ n, Alike S (ByteSource.read n s) (ByteSource.read n t)

/-- Writes do not tell related states apart. -/
structure IsWriteSimulation [ByteSink σ] [ByteSink τ] (S : σ → τ → Prop) : Prop where
  write : ∀ {s t}, S s t → ∀ bytes, Alike S (ByteSink.write bytes s) (ByteSink.write bytes t)
  flush : ∀ {s t}, S s t → Alike S (ByteSink.flush s) (ByteSink.flush t)

/-! ## Invariants -/

/-- A state, and something that is true of it. -/
def Keeps (P : σ → Prop) (s s' : σ) : Prop := s' = s ∧ P s

theorem isReadSimulation_of_invariant [ByteSource σ] {P : σ → Prop}
    (h : ∀ {s}, P s → ∀ n, P (ByteSource.read n s).2) : IsReadSimulation (Keeps P) where
  read := by
    rintro s _ ⟨rfl, hs⟩ n
    exact ⟨_, rfl, rfl, h hs n⟩

theorem isWriteSimulation_of_invariant [ByteSink σ] {P : σ → Prop}
    (hwrite : ∀ {s}, P s → ∀ bytes, P (ByteSink.write bytes s).2)
    (hflush : ∀ {s}, P s → P (ByteSink.flush s).2) : IsWriteSimulation (Keeps P) where
  write := by
    rintro s _ ⟨rfl, hs⟩ bytes
    exact ⟨_, rfl, rfl, hwrite hs bytes⟩
  flush := by
    rintro s _ ⟨rfl, hs⟩
    exact ⟨_, rfl, rfl, hflush hs⟩

theorem Alike.keeps {P : σ → Prop} {x y : α × σ} (h : Alike (Keeps P) x y) : P x.2 := by
  obtain ⟨t, -, -, hP⟩ := h
  exact hP

/-! ## Reading -/

theorem Window.fetch_alike [ByteSource σ] [ByteSource τ] (hS : IsReadSimulation S) (h : S s t)
    (decoder : Decoder α) (w : Window) :
    AlikeWith S (w.fetch decoder s) (w.fetch decoder t) := by
  fun_induction fetch decoder w s generalizing t with
  | case1 w s hover =>
    rw [fetch, if_pos hover]
    exact alikeWith_mk h _ w
  | case2 w s hmore a unread hvalue =>
    rw [fetch, if_neg hmore, hvalue]
    exact alikeWith_mk h _ _
  | case3 w s hmore failure hrefused =>
    rw [fetch, if_neg hmore, hrefused]
    exact alikeWith_mk h _ w
  | case4 w s hmore missing hshort hend =>
    rw [fetch, if_neg hmore, hshort]
    exact ⟨t, dif_pos hend, h⟩
  | case5 w s hmore missing hshort hopen hlarge =>
    rw [fetch, if_neg hmore, hshort]
    exact ⟨t, (dif_neg hopen).trans (if_pos hlarge), h⟩
  | case6 w s hmore missing hshort hopen hroom cause s' hread =>
    obtain ⟨t', hread', h'⟩ := hS.read h w.room
    rw [hread] at hread' h'
    exact ⟨t', fetch_of_read_error hmore hshort hopen hroom hread', h'⟩
  | case7 w s hmore missing hshort hopen hroom bytes s' hread ih =>
    obtain ⟨t', hread', h'⟩ := hS.read h w.room
    rw [hread] at hread' h'
    rw [fetch_of_read hmore hshort hopen hroom hread']
    exact ih h'

/-! ## Writing -/

section Writing

variable [ByteSink σ] [ByteSink τ] (hS : IsWriteSimulation S)

include hS

theorem writeFields_alike (h : S s t) (fields : List Bytes) :
    Alike S (writeFields fields s) (writeFields fields t) := by
  induction fields generalizing s t with
  | nil => exact alike_mk h _
  | cons field fields ih =>
    obtain ⟨t₁, hwrite, h₁⟩ := hS.write h field
    rw [writeFields, writeFields, hwrite]
    rcases hresult : ByteSink.write field s with ⟨cause | taken, s₁⟩ <;> rw [hresult] at h₁
    · exact alike_mk h₁ _
    · by_cases hshort : taken < field.length
      · simp only [if_pos hshort]
        exact alike_mk h₁ _
      · obtain ⟨t₂, hfields, h₂⟩ := ih h₁
        simp only [if_neg hshort, hfields]
        rcases hresult' : writeFields fields s₁ with ⟨_ | _, s₂⟩ <;> rw [hresult'] at h₂ <;>
          exact alike_mk h₂ _

theorem flushSink_alike (h : S s t) : Alike S (flushSink s) (flushSink t) := by
  obtain ⟨t₁, hflush, h₁⟩ := hS.flush h
  rw [flushSink, flushSink, hflush]
  rcases hresult : ByteSink.flush s with ⟨_ | _, s₁⟩ <;> rw [hresult] at h₁ <;>
    exact alike_mk h₁ _

end Writing

end PacketTrace
