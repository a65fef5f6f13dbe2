import Mathlib.Data.Nat.Notation
import PacketTrace.Stream.Tape

/-!
# Sources that deliver

A source *delivers* some bytes (`Delivers`) if reads bring them, in order and
in pieces of any size, until none are left: a read that asks for bytes brings
at least one of them as long as there are any. The sizes of the pieces are not
said, so what is proved of a source that delivers holds of every schedule of
short reads.

A source *holds* bytes (`Holds`) if it can be measured and rewound, and then
delivers them. It may also be known to deliver them whenever it is rewound,
again and again (`Rewinds`).

* `Tape.delivers`, `Tape.holds`, `Tape.rewinds`: a tape does, unless one of its
  reads or seeks is set to fail or to bring nothing.
-/

namespace PacketTrace

variable {σ τ : Type}

/-- A relation between sources and the bytes that they are to deliver, which
    is kept by every read. -/
structure IsDelivery [ByteSource σ] (R : Bytes → σ → Prop) : Prop where
  read : ∀ {rest s n}, R rest s → 0 < n → ∃ bytes rest' s',
    ByteSource.read n s = (.ok bytes, s') ∧ rest = bytes ++ rest' ∧
      (bytes = [] → rest = []) ∧ R rest' s'
  bound : ∀ {rest s}, R rest s → rest.length ≤ ByteSource.bound s

/-- The source delivers these bytes, and then no more. -/
def Delivers [ByteSource σ] (rest : Bytes) (s : σ) : Prop :=
  ∃ R : Bytes → σ → Prop, IsDelivery R ∧ R rest s

section Delivers

variable [ByteSource σ] {rest : Bytes} {s : σ}

/-- A read brings some of the bytes, and the source delivers the others. -/
theorem Delivers.read (h : Delivers rest s) {n : ℕ} (hn : 0 < n) : ∃ bytes rest' s',
    ByteSource.read n s = (.ok bytes, s') ∧ rest = bytes ++ rest' ∧
      (bytes = [] → rest = []) ∧ Delivers rest' s' := by
  obtain ⟨R, hR, hrest⟩ := h
  obtain ⟨bytes, rest', s', hread, happend, hend, hrest'⟩ := hR.read hrest hn
  exact ⟨bytes, rest', s', hread, happend, hend, R, hR, hrest'⟩

theorem Delivers.length_le (h : Delivers rest s) : rest.length ≤ ByteSource.bound s := by
  obtain ⟨R, hR, hrest⟩ := h
  exact hR.bound hrest

end Delivers

/-- The source can be measured and rewound, and then delivers these bytes. -/
def Holds [SeekableSource σ] (content : Bytes) (s : σ) : Prop :=
  ∃ s₁ s₂, SeekableSource.seekEnd s = (.ok content.length, s₁) ∧
    SeekableSource.rewind s₁ = (.ok (), s₂) ∧ Delivers content s₂

/-- Something that stays true of a source, whatever is read of it, and because
    of which it can be rewound and then delivers these bytes. -/
structure IsRewinding [SeekableSource σ] (content : Bytes) (P : σ → Prop) : Prop where
  read : ∀ {s}, P s → ∀ n, P (ByteSource.read n s).2
  rewind : ∀ {s}, P s → ∃ s',
    SeekableSource.rewind s = (.ok (), s') ∧ Delivers content s' ∧ P s'

/-- The source can be rewound at any time, and then delivers these bytes. -/
def Rewinds [SeekableSource σ] (content : Bytes) (s : σ) : Prop :=
  ∃ P : σ → Prop, IsRewinding content P ∧ P s

section Rewinds

variable [SeekableSource σ] {content : Bytes} {s : σ}

theorem Rewinds.read (h : Rewinds content s) (n : ℕ) :
    Rewinds content (ByteSource.read n s).2 := by
  obtain ⟨P, hP, hs⟩ := h
  exact ⟨P, hP, hP.read hs n⟩

theorem Rewinds.rewind (h : Rewinds content s) : ∃ s',
    SeekableSource.rewind s = (.ok (), s') ∧ Delivers content s' ∧ Rewinds content s' := by
  obtain ⟨P, hP, hs⟩ := h
  obtain ⟨s', hrewind, hdelivers, hs'⟩ := hP.rewind hs
  exact ⟨s', hrewind, hdelivers, P, hP, hs'⟩

end Rewinds

namespace Tape

/-- All reads that are set bring something. -/
def IsSteady (t : Tape) : Prop := ∀ step ∈ t.reads, ∃ limit, 0 < limit ∧ step = .upTo limit

theorem isDelivery : IsDelivery fun rest (t : Tape) => t.rest = rest ∧ t.IsSteady where
  read := by
    rintro rest t n ⟨rfl, hsteady⟩ hn
    change ∃ bytes rest' t', t.read n = (.ok bytes, t') ∧ _
    -- In every read, some of the bytes, but not none, are asked for.
    have hdeliver (t' : Tape) (m : ℕ) (hm : 0 < m) (hrest : t'.rest = t.rest)
        (hsteady' : t'.IsSteady) : ∃ bytes rest' t'', t'.deliver m = (.ok bytes, t'') ∧
          t.rest = bytes ++ rest' ∧ (bytes = [] → t.rest = []) ∧ t''.rest = rest' ∧
            t''.IsSteady := by
      refine ⟨_, _, _, rfl, ?_, fun hnil => ?_, rfl, hsteady'⟩
      · rw [hrest, List.take_append_drop]
      · rw [List.take_eq_nil_iff, hrest] at hnil
        exact hnil.resolve_left (Nat.ne_of_gt hm)
    cases hreads : t.reads with
    | nil =>
      rw [read, hreads]
      exact hdeliver t n hn rfl hsteady
    | cons step reads =>
      rw [IsSteady, hreads] at hsteady
      obtain ⟨limit, hlimit, rfl⟩ := hsteady step List.mem_cons_self
      rw [read, hreads]
      exact hdeliver { t with reads } (min limit n) (Nat.lt_min.2 ⟨hlimit, hn⟩) rfl
        fun step hstep => hsteady step (List.mem_cons_of_mem _ hstep)
  bound := by
    rintro rest t ⟨rfl, -⟩
    exact Nat.le_refl _

/-- A tape delivers what is left of it. -/
theorem delivers {t : Tape} (h : t.IsSteady) : Delivers t.rest t :=
  ⟨_, isDelivery, rfl, h⟩

/-- A tape holds its content. -/
theorem holds {t : Tape} (h : t.IsSteady) (hseek : t.seekFault = none) : Holds t.content t := by
  refine ⟨{ t with rest := [] }, { t with rest := t.content }, ?_, ?_, ?_⟩
  · change t.seek t.content.length [] = _
    rw [seek, hseek]
  · change seek () t.content { t with rest := [] } = _
    rw [seek, hseek]
  · exact delivers (t := { t with rest := t.content }) h

/-- Reading a tape leaves its content and its seeks as they are. -/
theorem isRewinding (content : Bytes) : IsRewinding content fun t : Tape =>
    t.content = content ∧ t.IsSteady ∧ t.seekFault = none where
  read := by
    rintro ⟨_, rest, reads, _⟩ ⟨rfl, hsteady, rfl⟩ n
    rcases reads with _ | ⟨_ | _, reads⟩
    · exact ⟨rfl, hsteady, rfl⟩
    all_goals exact ⟨rfl, fun step hstep => hsteady step (List.mem_cons_of_mem _ hstep), rfl⟩
  rewind := by
    rintro t ⟨rfl, hsteady, hseek⟩
    have hrewind : SeekableSource.rewind t = (.ok (), { t with rest := t.content }) := by
      change t.seek () t.content = _
      rw [seek, hseek]
    exact ⟨_, hrewind, delivers (t := { t with rest := t.content }) hsteady, rfl, hsteady, hseek⟩

/-- A tape can be rewound, unless it is set to fail to seek. -/
theorem rewinds {t : Tape} (h : t.IsSteady) (hseek : t.seekFault = none) : Rewinds t.content t :=
  ⟨_, isRewinding t.content, rfl, h, hseek⟩

end Tape

end PacketTrace
