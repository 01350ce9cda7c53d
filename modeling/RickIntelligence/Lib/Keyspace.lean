import Mathlib

/-!
# Keys that expire

A keyspace is a server's map from keys to values that may carry the instant, in milliseconds, after
which they are gone. Reading a key looks at its entry only while it is alive (`get`), and so do the
commands: what expired is as good as deleted, whether or not the server has removed it.
-/

namespace RickIntelligence.Lib

/-- A value with the last instant at which it is alive, if there is one. -/
structure Expiring (α : Type) where
  value : α
  expires_at : Option ℕ

/-- The entries of a server. -/
abbrev Keyspace (κ α : Type) := κ → Option (Expiring α)

namespace Keyspace

variable {κ α : Type} {now : ℕ} {k k' : κ}

/-- The entry of a key, if it is alive. -/
def get (db : Keyspace κ α) (now : ℕ) (k : κ) : Option (Expiring α) :=
  (db k).filter fun e => e.expires_at.all fun t => decide (now ≤ t)

/-- What is alive later with an entry that has not changed was alive before. -/
theorem get_later {db : Keyspace κ α} {now' : ℕ} {e : Expiring α} (hle : now ≤ now')
    (h : db.get now' k = some e) : db.get now k = some e := by
  obtain ⟨he, hlive⟩ := Option.filter_eq_some_iff.mp h
  refine Option.filter_eq_some_iff.mpr ⟨he, ?_⟩
  simp only [Option.all_eq_true, decide_eq_true_eq] at hlive ⊢
  intro t ht
  exact le_trans hle (hlive t ht)

variable [DecidableEq κ]

/-- The entries with another one under a key. -/
def put (db : Keyspace κ α) (k : κ) (e : Expiring α) : Keyspace κ α := Function.update db k (some e)

/-- A key with a new entry that is alive. -/
theorem get_put_self (db : Keyspace κ α) {e : Expiring α} (h : ∀ t, e.expires_at = some t → now ≤ t) :
    (db.put k e).get now k = some e := by
  simp only [get, put, Function.update_self]
  refine Option.filter_eq_some_iff.mpr ⟨rfl, ?_⟩
  simpa [Option.all_eq_true] using h

/-- `SET` with `PX`. -/
def setPx (db : Keyspace κ α) (now : ℕ) (k : κ) (v : α) (ms : ℕ) : Keyspace κ α :=
  db.put k ⟨v, some (now + ms)⟩

/-- `INCR`: the count, and the entries after it. A missing key counts from zero and does not
expire. -/
def incr (db : Keyspace κ ℕ) (now : ℕ) (k : κ) : ℕ × Keyspace κ ℕ :=
  match db.get now k with
  | some e => (e.value + 1, db.put k { e with value := e.value + 1 })
  | none => (1, db.put k ⟨1, none⟩)

/-- `PEXPIRE`. -/
def pexpire (db : Keyspace κ α) (now : ℕ) (k : κ) (ms : ℕ) : Keyspace κ α :=
  match db.get now k with
  | some e => db.put k { e with expires_at := some (now + ms) }
  | none => db

/-- A key with a new entry that is alive is given another end. -/
theorem pexpire_put (db : Keyspace κ α) {e : Expiring α}
    (h : ∀ t, e.expires_at = some t → now ≤ t) (ms : ℕ) :
    (db.put k e).pexpire now k ms = db.put k ⟨e.value, some (now + ms)⟩ := by
  rw [pexpire, get_put_self db h]
  simp [put]

end Keyspace

end RickIntelligence.Lib
