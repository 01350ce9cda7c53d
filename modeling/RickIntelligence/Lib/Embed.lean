import RickIntelligence.Lib.Proc

/-!
# Procedures on a part of a state

A procedure that works on a part of a larger state is run there (`embed`): the part is read, the procedure
is run on it, and what it leaves is written back, also when it raises. What holds of the procedure then
holds of the whole (`holds_embed`).
-/

namespace RickIntelligence.Lib.Proc

variable {σ τ ε ε' α β : Type}

/-- Run a procedure on a part of the state. -/
def embed (read : τ → σ) (write : τ → σ → τ) (wrap : ε → ε') (x : Proc σ ε α) : Proc τ ε' α :=
  fun t => ((exec x (read t)).1.mapError wrap, write t (exec x (read t)).2)

/-- A procedure on a part does there what it does by itself. -/
theorem holds_embed {read : τ → σ} {write : τ → σ → τ} {wrap : ε → ε'} {x : Proc σ ε α} {t : τ}
    {Q : Except ε' α → τ → Prop}
    (h : Holds x (read t) fun r s => Q (r.mapError wrap) (write t s)) :
    Holds (embed read write wrap x) t Q := h

/-- The state is changed. -/
theorem holds_modify_bind {f : σ → σ} {g : PUnit → Proc σ ε β} {s : σ}
    {Q : Except ε β → σ → Prop} (h : Holds (g ⟨⟩) (f s) Q) : Holds (modify f >>= g) s Q :=
  holds_bind h

/-- The state is changed. -/
theorem holds_modify {f : σ → σ} {s : σ} {Q : Except ε PUnit → σ → Prop} (h : Q (.ok ⟨⟩) (f s)) :
    Holds (modify f : Proc σ ε PUnit) s Q := h

end RickIntelligence.Lib.Proc
