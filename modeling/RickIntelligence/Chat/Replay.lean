import RickIntelligence.Lib.Trace
import RickIntelligence.Chat.Stores

/-!
# One turn for each idempotency key

In both stores at most one turn carries a key of a scope, the turn keeps its conversation and its
fingerprint, and a turn whose stream was not interrupted is final: the same request is answered with the
stored response, and changes nothing.

Two things break this. The store in memory makes the conversation of a call before it finds that the key
is another request's, and the error leaves the conversation (`Orphans`). The store in SQLite cannot read
back a response whose text is too long, and takes the retry of its own request for another one.
-/

namespace RickIntelligence.Chat

open Lib

/-! ## The property -/

/-- A call that writes. -/
inductive Write where
  | append (a : Append)
  | outcome (o : StreamOutcome)

/-- The turn of a call. -/
def Write.turn (env : Env) (n : ℕ) : Write → Except ChatError Turn
  | .append a => a.turn env n
  | .outcome o => (o.append n).bind fun a => a.turn env n

/-- A call with the times that it reads. -/
structure Timed where
  write : Write
  now : ℚ
  later : ℚ

/-- A turn that is stored, with the fingerprint of its request. -/
structure Keyed where
  question : String
  response : SafeResponse
  created_at : ℚ
  fingerprint : Option String

/-- The calls one after the other. -/
def after {σ : Type} (write : σ → Timed → Except ChatError SafeResponse × σ) (s : σ) (c : Timed) :
    Option σ := some (write s c).2

/-- In every run of calls that are not bad: at most one turn carries a key; a turn with a key keeps its
conversation and its fingerprint, and stays as it is once it was not interrupted; the same request is then
answered with the stored response and changes nothing; and a call that raises changes nothing. -/
def OneTurnPerKey {σ : Type} (env : Env) (n : ℕ)
    (write : σ → Timed → Except ChatError SafeResponse × σ) (keyed : σ → Scope → String → List Keyed)
    (bad : σ → Timed → Prop) (initial : σ) : Prop :=
  ∀ calls s, execAll (after write) initial calls = some s → ¬ Happens (after write) initial calls bad →
    (∀ scope key, (keyed s scope key).length ≤ 1) ∧
    (∀ scope key, ∀ k ∈ keyed s scope key, ∀ calls' s', execAll (after write) s calls' = some s' →
      ¬ Happens (after write) s calls' bad → ∃ k' ∈ keyed s' scope key,
        k'.response.conversation_id = k.response.conversation_id ∧ k'.fingerprint = k.fingerprint ∧
        (k.response.interrupted = false → k' = k)) ∧
    (∀ scope key, ∀ k ∈ keyed s scope key, k.response.interrupted = false → ∀ c t, ¬ bad s c →
      c.write.turn env n = .ok t → t.scope = scope → t.key = some key →
      t.response.conversation_id = k.response.conversation_id → t.fingerprint = k.fingerprint →
      write s c = (.ok k.response, s)) ∧
    ∀ c, ¬ bad s c → (write s c).1 = .error .conflict ∨ (write s c).1 = .error .value →
      (write s c).2 = s

/-- Every turn with a key stays with its conversation and its fingerprint, and as it is if it was not
interrupted. -/
def KeysStay {σ : Type} (keyed : σ → Scope → String → List Keyed) (s s' : σ) : Prop :=
  ∀ scope key, ∀ k ∈ keyed s scope key, ∃ k' ∈ keyed s' scope key,
    k'.response.conversation_id = k.response.conversation_id ∧ k'.fingerprint = k.fingerprint ∧
    (k.response.interrupted = false → k' = k)

/-- The property of a store whose calls keep an invariant. -/
theorem oneTurnPerKey_of {σ : Type} {env : Env} {n : ℕ}
    {write : σ → Timed → Except ChatError SafeResponse × σ} {keyed : σ → Scope → String → List Keyed}
    {bad : σ → Timed → Prop} {initial : σ} (I : σ → Prop) (hinitial : I initial)
    (hstep : ∀ s c, I s → ¬ bad s c → I (write s c).2 ∧ KeysStay keyed s (write s c).2)
    (hone : ∀ s, I s → ∀ scope key, (keyed s scope key).length ≤ 1)
    (hfinal : ∀ s, I s → ∀ scope key, ∀ k ∈ keyed s scope key, k.response.interrupted = false →
      ∀ c t, ¬ bad s c → c.write.turn env n = .ok t → t.scope = scope → t.key = some key →
        t.response.conversation_id = k.response.conversation_id → t.fingerprint = k.fingerprint →
        write s c = (.ok k.response, s))
    (hraises : ∀ s c, I s → ¬ bad s c →
      (write s c).1 = .error .conflict ∨ (write s c).1 = .error .value → (write s c).2 = s) :
    OneTurnPerKey env n write keyed bad initial := by
  -- The invariant holds along every run without bad calls, from any state that has it.
  have hrun : ∀ calls s s', I s → execAll (after write) s calls = some s' →
      ¬ Happens (after write) s calls bad → I s' := by
    intro calls s s' hs hcalls
    refine trace_invariant (I := fun es u => ¬ Happens (after write) s es bad → I u) (fun _ => hs) ?_ hcalls
    intro es u c u' hes hu hu' hgood
    rw [happens_snoc hes, not_or] at hgood
    cases hu'
    exact (hstep u c (hu hgood.1) hgood.2).1
  intro calls s hcalls hgood
  have hs : I s := hrun calls initial s hinitial hcalls hgood
  refine ⟨hone s hs, ?_, hfinal s hs, fun c => hraises s c hs⟩
  intro scope key k hk calls' s' hcalls' hgood'
  revert hgood'
  refine trace_invariant (I := fun es u => ¬ Happens (after write) s es bad → ∃ k' ∈ keyed u scope key,
    k'.response.conversation_id = k.response.conversation_id ∧ k'.fingerprint = k.fingerprint ∧
      (k.response.interrupted = false → k' = k)) (fun _ => ⟨k, hk, rfl, rfl, fun _ => rfl⟩) ?_ hcalls'
  intro es u c u' hes hu hu' hno
  have hno' := hno
  rw [happens_snoc hes, not_or] at hno'
  cases hu'
  obtain ⟨k₁, hk₁, hconversation, hfingerprint, hsame⟩ := hu hno'.1
  have hu₁ : I u := hrun es s u hs hes hno'.1
  obtain ⟨k₂, hk₂, hconversation', hfingerprint', hsame'⟩ :=
    (hstep u c hu₁ hno'.2).2 scope key k₁ hk₁
  refine ⟨k₂, hk₂, hconversation'.trans hconversation, hfingerprint'.trans hfingerprint, ?_⟩
  intro hcomplete
  have heq : k₁ = k := hsame hcomplete
  rw [heq] at hsame'
  exact hsame' hcomplete

/-- The response of a turn is not changed by cutting it down again. -/
theorem turn_safe {env : Env} {n : ℕ} {w : Write} {t : Turn} (h : w.turn env n = .ok t) :
    safeChatResponse env n t.response.members = .ok t.response := by
  have happend : ∀ a : Append, a.turn env n = .ok t →
      safeChatResponse env n t.response.members = .ok t.response := by
    intro a ha
    unfold Append.turn at ha
    cases hscope : a.session.scope with
    | error e =>
      rw [hscope] at ha
      cases ha
    | ok scope =>
      cases hresponse : safeChatResponse env n a.response with
      | error e =>
        rw [hscope, hresponse] at ha
        cases ha
      | ok response =>
        rw [hscope, hresponse] at ha
        cases ha
        exact safe_again hresponse
  cases w with
  | append a => exact happend a h
  | outcome o =>
    change ((o.append n).bind fun a => a.turn env n) = .ok t at h
    cases ho : o.append n with
    | error e =>
      rw [ho] at h
      cases h
    | ok a =>
      rw [ho] at h
      exact happend a h

/-- The change of the first one with a property. -/
theorem replaceFirst_some {α : Type} {p : α → Bool} {f : α → α} {l l' : List α}
    (h : replaceFirst p f l = some l') :
    ∃ l₁ a l₂, l = l₁ ++ a :: l₂ ∧ p a = true ∧ l' = l₁ ++ f a :: l₂ := by
  induction l generalizing l' with
  | nil => cases h
  | cons b l ih =>
    unfold replaceFirst at h
    split at h
    · next hb =>
      cases h
      exact ⟨[], b, l, rfl, hb, rfl⟩
    · obtain ⟨l'', hl'', rfl⟩ := Option.map_eq_some_iff.mp h
      obtain ⟨l₁, a, l₂, rfl, ha, rfl⟩ := ih hl''
      exact ⟨b :: l₁, a, l₂, rfl, ha, rfl⟩

/-- Without a change, none has the property. -/
theorem replaceFirst_none {α : Type} {p : α → Bool} {f : α → α} {l : List α}
    (h : replaceFirst p f l = none) : ∀ a ∈ l, p a = false := by
  induction l with
  | nil => exact fun a ha => nomatch ha
  | cons b l ih =>
    unfold replaceFirst at h
    split at h
    · cases h
    · next hb =>
      intro a ha
      rcases List.mem_cons.mp ha with rfl | ha
      · exact Bool.eq_false_iff.mpr hb
      · exact ih (Option.map_eq_none_iff.mp h) a ha

/-! ## The store in memory -/

namespace Memory

variable {env : Env} {limits : MemoryLimits} {m : Memory} {t : Turn} {scope : Scope} {key : String}
  {now later : ℚ}

/-- A call of the store in memory. -/
def write (env : Env) (limits : MemoryLimits) (m : Memory) (c : Timed) :
    Except ChatError SafeResponse × Memory :=
  match c.write.turn env limits.max_answer_chars with
  | .error e => (.error e, m)
  | .ok t => m.append env limits c.now c.later t

/-- The turns with the key. -/
def carriers (m : Memory) (scope : Scope) (key : String) : List Entry :=
  m.entries.filter (carries scope key)

/-- The turns with the key, with the fingerprint of their replay record. -/
def keyed (m : Memory) (scope : Scope) (key : String) : List Keyed :=
  (m.carriers scope key).map fun e =>
    ⟨e.question, e.response, e.created_at, (m.idempotent (scope, key)).bind Replay.fingerprint⟩

/-- The store has as many turns as it may have. -/
def Full (limits : MemoryLimits) (m : Memory) : Prop := limits.max_entries ≤ m.entries.length

/-- The call has the key of another request, and a conversation that is not there. -/
def Orphans (env : Env) (limits : MemoryLimits) (m : Memory) (c : Timed) : Prop :=
  ∃ t key r, c.write.turn env limits.max_answer_chars = .ok t ∧ t.key = some key ∧
    m.idempotent (t.scope, key) = some r ∧
    (r.response.conversation_id ≠ t.response.conversation_id ∨ r.fingerprint ≠ t.fingerprint) ∧
    m.conversations (t.scope, t.response.conversation_id) = none

/-- What holds of the store in every run of calls that write. -/
structure Ok (env : Env) (limits : MemoryLimits) (m : Memory) : Prop where
  /-- A key has a turn if and only if it has a replay record, with the same response. -/
  keys : ∀ scope key, match m.idempotent (scope, key) with
    | none => m.carriers scope key = []
    | some r => ∃ e, m.carriers scope key = [e] ∧ e.response = r.response
  conversations : ∀ e ∈ m.entries,
    (m.conversations (e.scope, e.response.conversation_id)).isSome = true
  active : ∀ k c, m.conversations k = some c → c.archived = false
  safe : ∀ e ∈ m.entries,
    safeChatResponse env limits.max_answer_chars e.response.members = .ok e.response

/-- A store with nothing in it. -/
theorem ok_empty : Ok env limits empty where
  keys _ _ := rfl
  conversations _ he := nomatch he
  active _ _ hc := nomatch hc
  safe _ he := nomatch he

/-- The turn with a key, and its replay record. -/
theorem Ok.carrier (h : Ok env limits m) {e : Entry} (he : e ∈ m.carriers scope key) :
    m.carriers scope key = [e] ∧ ∃ r, m.idempotent (scope, key) = some r ∧ r.response = e.response := by
  have hkeys := h.keys scope key
  cases hr : m.idempotent (scope, key) with
  | none =>
    rw [hr] at hkeys
    rw [hkeys] at he
    cases he
  | some r =>
    rw [hr] at hkeys
    obtain ⟨e', he', hresponse⟩ := hkeys
    rw [he'] at he
    cases List.mem_singleton.mp he
    exact ⟨he', r, rfl, hresponse.symm⟩

/-- The turns with other keys are not those of this one. -/
theorem carries_iff {e : Entry} : carries scope key e = true ↔ e.scope = scope ∧ e.key = some key := by
  unfold carries
  rw [Bool.and_eq_true, beq_iff_eq, beq_iff_eq]

/-- The conversations once that of the turn is made. -/
theorem ensure_conversations (m : Memory) (t : Turn) (now : ℚ) :
    (∀ k c, m.conversations k = some c → (m.ensure t now).conversations k = some c) ∧
    ((m.ensure t now).conversations (t.scope, t.response.conversation_id)).isSome = true ∧
    ∀ k c, (m.ensure t now).conversations k = some c → m.conversations k = some c ∨ c.archived = false := by
  unfold ensure
  dsimp only
  cases hc : m.conversations (t.scope, t.response.conversation_id) with
  | some c => exact ⟨fun _ _ h => h, by rw [hc]; rfl, fun _ _ h => .inl h⟩
  | none =>
    refine ⟨?_, by simp, ?_⟩
    · intro k c hk
      have hne : k ≠ (t.scope, t.response.conversation_id) := by
        intro heq
        rw [heq, hc] at hk
        cases hk
      exact (Function.update_of_ne hne ..).trans hk
    · intro k c hk
      by_cases heq : k = (t.scope, t.response.conversation_id)
      · rw [heq] at hk
        simp only [Function.update_self] at hk
        cases hk
        exact .inr rfl
      · exact .inl ((Function.update_of_ne heq ..).symm.trans hk)

/-- Nothing else changes when the conversation of a turn is made. -/
theorem ensure_others (m : Memory) (t : Turn) (now : ℚ) :
    (m.ensure t now).entries = m.entries ∧ (m.ensure t now).idempotent = m.idempotent := by
  unfold ensure
  dsimp only
  split <;> exact ⟨rfl, rfl⟩

/-- The store does not change when the conversation is there. -/
theorem ensure_eq (h : (m.conversations (t.scope, t.response.conversation_id)).isSome = true) :
    m.ensure t now = m := by
  obtain ⟨c, hc⟩ := Option.isSome_iff_exists.mp h
  unfold ensure
  simp only [hc]

/-- The store with the conversation of a turn. -/
theorem Ok.ensure (h : Ok env limits m) (t : Turn) (now : ℚ) : Ok env limits (m.ensure t now) := by
  obtain ⟨hentries, hidempotent⟩ := ensure_others m t now
  obtain ⟨hold, -, hnew⟩ := ensure_conversations m t now
  refine ⟨?_, ?_, ?_, ?_⟩
  · intro scope key
    unfold carriers
    rw [hentries, hidempotent]
    exact h.keys scope key
  · intro e he
    rw [hentries] at he
    obtain ⟨c, hc⟩ := Option.isSome_iff_exists.mp (h.conversations e he)
    rw [hold _ c hc]
    rfl
  · intro k c hc
    rcases hnew k c hc with hold | harchived
    · exact h.active k c hold
    · exact harchived
  · intro e he
    rw [hentries] at he
    exact h.safe e he

/-- The conversation of a turn is changed, and not archived. -/
theorem Ok.touch (h : Ok env limits m) (t : Turn) {f : Conversation → Conversation}
    (hf : ∀ c, (f c).archived = c.archived) : Ok env limits (m.touch t f) := by
  refine ⟨h.keys, ?_, ?_, h.safe⟩
  · intro e he
    show (Function.update m.conversations _ _ _).isSome = true
    have hsome := h.conversations e he
    by_cases heq : (e.scope, e.response.conversation_id) = (t.scope, t.response.conversation_id)
    · rw [heq] at hsome ⊢
      rw [Function.update_self, Option.isSome_map]
      exact hsome
    · rw [Function.update_of_ne heq]
      exact hsome
  · intro k c hc
    change Function.update m.conversations _ _ k = some c at hc
    by_cases heq : k = (t.scope, t.response.conversation_id)
    · rw [heq, Function.update_self] at hc
      obtain ⟨c₀, hc₀, rfl⟩ := Option.map_eq_some_iff.mp hc
      rw [hf]
      exact h.active _ c₀ hc₀
    · rw [Function.update_of_ne heq] at hc
      exact h.active k c hc

/-- A turn that is added to a store that is not full. -/
theorem push_eq (h : ¬ Full limits m) : m.push limits t now =
    { m with entries := m.entries ++ [entry t now] }.touch t fun c =>
      { c with updated_at := now, message_count := c.message_count + 2 } := by
  unfold Full at h
  have hdrop : (m.entries ++ [entry t now]).length - limits.max_entries = 0 := by
    rw [List.length_append, List.length_singleton]
    omega
  unfold push
  simp only [hdrop, List.drop_zero]

/-- The turns with a key, with one more turn. -/
theorem filter_snoc (es : List Entry) (e : Entry) (scope : Scope) (key : String) :
    (es ++ [e]).filter (carries scope key) =
      if carries scope key e then es.filter (carries scope key) ++ [e]
      else es.filter (carries scope key) := by
  rw [List.filter_append, List.filter_cons, List.filter_nil]
  split <;> simp

/-- A turn without a key is added. -/
theorem Ok.addPlain (h : Ok env limits m) (now : ℚ) (hkey : t.key = none)
    (hsafe : safeChatResponse env limits.max_answer_chars t.response.members = .ok t.response)
    (hc : (m.conversations (t.scope, t.response.conversation_id)).isSome = true) :
    Ok env limits { m with entries := m.entries ++ [entry t now] } ∧
      keyed { m with entries := m.entries ++ [entry t now] } = keyed m := by
  have hcarriers : ∀ scope key, carriers { m with entries := m.entries ++ [entry t now] } scope key =
      m.carriers scope key := by
    intro scope key
    have hnot : carries scope key (entry t now) = false := by
      unfold carries entry
      rw [hkey]
      simp
    show (m.entries ++ [entry t now]).filter (carries scope key) = _
    rw [filter_snoc, hnot]
    rfl
  refine ⟨⟨?_, ?_, h.active, ?_⟩, ?_⟩
  · intro scope key
    rw [hcarriers]
    exact h.keys scope key
  · intro e he
    rcases List.mem_append.mp he with he | he
    · exact h.conversations e he
    · cases List.mem_singleton.mp he
      exact hc
  · intro e he
    rcases List.mem_append.mp he with he | he
    · exact h.safe e he
    · cases List.mem_singleton.mp he
      exact hsafe
  · funext scope key
    unfold keyed
    rw [hcarriers]

/-- A turn with a key that no turn has is added. -/
theorem Ok.addKeyed (h : Ok env limits m) (now : ℚ) (hkey : t.key = some key)
    (hnone : m.idempotent (t.scope, key) = none)
    (hsafe : safeChatResponse env limits.max_answer_chars t.response.members = .ok t.response)
    (hc : (m.conversations (t.scope, t.response.conversation_id)).isSome = true) :
    Ok env limits { m.remember t key with entries := m.entries ++ [entry t now] } ∧
      KeysStay keyed m { m.remember t key with entries := m.entries ++ [entry t now] } := by
  have hempty : m.carriers t.scope key = [] := by
    have hkeys := h.keys t.scope key
    rw [hnone] at hkeys
    exact hkeys
  have hself : carriers { m.remember t key with entries := m.entries ++ [entry t now] } t.scope key =
      [entry t now] := by
    have hcarries : carries t.scope key (entry t now) = true := carries_iff.mpr ⟨rfl, hkey⟩
    show (m.entries ++ [entry t now]).filter (carries t.scope key) = _
    rw [filter_snoc, hcarries, if_pos rfl]
    show m.carriers t.scope key ++ _ = _
    rw [hempty]
    rfl
  have hother : ∀ scope' key', (scope', key') ≠ (t.scope, key) →
      carriers { m.remember t key with entries := m.entries ++ [entry t now] } scope' key' =
        m.carriers scope' key' ∧
      (m.remember t key).idempotent (scope', key') = m.idempotent (scope', key') := by
    intro scope' key' hne
    have hnot : carries scope' key' (entry t now) = false := by
      rw [Bool.eq_false_iff]
      intro hcarries
      obtain ⟨hscope, hkey'⟩ := carries_iff.mp hcarries
      apply hne
      rw [← hscope, ← Option.some.inj (hkey.symm.trans hkey')]
      rfl
    constructor
    · show (m.entries ++ [entry t now]).filter (carries scope' key') = _
      rw [filter_snoc, hnot]
      rfl
    · exact Function.update_of_ne hne ..
  refine ⟨⟨?_, ?_, h.active, ?_⟩, ?_⟩
  · intro scope' key'
    by_cases heq : (scope', key') = (t.scope, key)
    · cases heq
      have hr : (m.remember t key).idempotent (t.scope, key) = some ⟨t.response, t.fingerprint⟩ :=
        Function.update_self ..
      rw [hr]
      exact ⟨entry t now, hself, rfl⟩
    · obtain ⟨hcarriers, hidempotent⟩ := hother scope' key' heq
      rw [hcarriers, hidempotent]
      exact h.keys scope' key'
  · intro e he
    rcases List.mem_append.mp he with he | he
    · exact h.conversations e he
    · cases List.mem_singleton.mp he
      exact hc
  · intro e he
    rcases List.mem_append.mp he with he | he
    · exact h.safe e he
    · cases List.mem_singleton.mp he
      exact hsafe
  · intro scope' key' k hk
    by_cases heq : (scope', key') = (t.scope, key)
    · cases heq
      unfold keyed at hk
      rw [hempty] at hk
      cases hk
    · obtain ⟨hcarriers, hidempotent⟩ := hother scope' key' heq
      refine ⟨k, ?_, rfl, rfl, fun _ => rfl⟩
      unfold keyed at hk ⊢
      rw [hcarriers, hidempotent]
      exact hk

/-- The turn that is replaced, and the others. -/
theorem replace_some {m' : Memory} (h : m.replace t key = some m') :
    ∃ pre e post, m.entries = pre ++ e :: post ∧ carries t.scope key e = true ∧
      m' = { m with entries := pre ++ entry t e.created_at :: post } := by
  obtain ⟨l, hl, rfl⟩ := Option.map_eq_some_iff.mp h
  obtain ⟨l₁, e, l₂, hentries, he, rfl⟩ := replaceFirst_some hl
  refine ⟨l₂.reverse, e, l₁.reverse, ?_, he, ?_⟩
  · rw [← List.reverse_reverse m.entries, hentries]
    simp
  · simp

/-- Without a turn to replace, no turn has the key. -/
theorem replace_none (h : m.replace t key = none) : m.carriers t.scope key = [] := by
  have hnone := replaceFirst_none (Option.map_eq_none_iff.mp h)
  unfold carriers
  rw [List.filter_eq_nil_iff]
  intro e he
  rw [hnone e (List.mem_reverse.mpr he)]
  exact nofun

/-- The interrupted turn of a key is replaced by one of the same conversation. -/
theorem Ok.replaced {r : Replay} {pre post : List Entry} {e : Entry} (h : Ok env limits m)
    (hkey : t.key = some key) (hentries : m.entries = pre ++ e :: post)
    (he : carries t.scope key e = true) (hr : m.idempotent (t.scope, key) = some r)
    (hconversation : r.response.conversation_id = t.response.conversation_id)
    (hfingerprint : r.fingerprint = t.fingerprint) (hinterrupted : r.response.interrupted = true)
    (hsafe : safeChatResponse env limits.max_answer_chars t.response.members = .ok t.response)
    (hc : (m.conversations (t.scope, t.response.conversation_id)).isSome = true) :
    Ok env limits { m.remember t key with entries := pre ++ entry t e.created_at :: post } ∧
      KeysStay keyed m { m.remember t key with entries := pre ++ entry t e.created_at :: post } := by
  obtain ⟨hescope, hekey⟩ := carries_iff.mp he
  -- The turn is the only one with its key.
  have hparts : ∀ p : Entry → Bool, p e = true → p (entry t e.created_at) = true →
      m.entries.filter p = [e] →
      (pre ++ entry t e.created_at :: post).filter p = [entry t e.created_at] := by
    intro p hpe hpnew hone
    rw [hentries, List.filter_append, List.filter_cons, if_pos hpe] at hone
    rw [List.filter_append, List.filter_cons, if_pos hpnew]
    cases hpre : pre.filter p with
    | nil =>
      rw [hpre, List.nil_append, List.cons.injEq] at hone
      rw [List.nil_append, hone.2]
    | cons x xs =>
      rw [hpre] at hone
      have hlength := congrArg List.length hone
      simp at hlength
  have hcarriers : m.carriers t.scope key = [e] := by
    have hmem : e ∈ m.carriers t.scope key := by
      unfold carriers
      rw [List.mem_filter, hentries]
      exact ⟨by simp, he⟩
    exact (h.carrier hmem).1
  have hresponse : e.response = r.response := by
    have hkeys := h.keys t.scope key
    rw [hr] at hkeys
    obtain ⟨e', he', hresponse⟩ := hkeys
    rw [hcarriers] at he'
    cases he'
    exact hresponse
  have hself : carriers { m.remember t key with entries := pre ++ entry t e.created_at :: post } t.scope
      key = [entry t e.created_at] :=
    hparts (carries t.scope key) he (carries_iff.mpr ⟨rfl, hkey⟩) hcarriers
  have hother : ∀ scope' key', (scope', key') ≠ (t.scope, key) →
      carriers { m.remember t key with entries := pre ++ entry t e.created_at :: post } scope' key' =
        m.carriers scope' key' ∧
      (m.remember t key).idempotent (scope', key') = m.idempotent (scope', key') := by
    intro scope' key' hne
    have hnot : ∀ e' : Entry, e'.scope = t.scope → e'.key = some key →
        carries scope' key' e' = false := by
      intro e' hscope hkey'
      rw [Bool.eq_false_iff]
      intro hcarries
      obtain ⟨hscope', hkey''⟩ := carries_iff.mp hcarries
      apply hne
      rw [← hscope', hscope, Option.some.inj (hkey''.symm.trans hkey')]
    refine ⟨?_, Function.update_of_ne hne ..⟩
    show (pre ++ entry t e.created_at :: post).filter (carries scope' key') = m.entries.filter _
    rw [hentries, List.filter_append, List.filter_append, List.filter_cons, List.filter_cons,
      hnot e hescope hekey, hnot (entry t e.created_at) rfl hkey]
    rfl
  refine ⟨⟨?_, ?_, h.active, ?_⟩, ?_⟩
  · intro scope' key'
    by_cases heq : (scope', key') = (t.scope, key)
    · cases heq
      have hnew : (m.remember t key).idempotent (t.scope, key) = some ⟨t.response, t.fingerprint⟩ :=
        Function.update_self ..
      rw [hnew]
      exact ⟨entry t e.created_at, hself, rfl⟩
    · obtain ⟨hsame, hidempotent⟩ := hother scope' key' heq
      rw [hsame, hidempotent]
      exact h.keys scope' key'
  · intro e' he'
    rcases List.mem_append.mp he' with he' | he'
    · exact h.conversations e' (by rw [hentries]; exact List.mem_append_left _ he')
    · rcases List.mem_cons.mp he' with rfl | he'
      · exact hc
      · exact h.conversations e' (by rw [hentries]; simp [he'])
  · intro e' he'
    rcases List.mem_append.mp he' with he' | he'
    · exact h.safe e' (by rw [hentries]; exact List.mem_append_left _ he')
    · rcases List.mem_cons.mp he' with rfl | he'
      · exact hsafe
      · exact h.safe e' (by rw [hentries]; simp [he'])
  · intro scope' key' k hk
    by_cases heq : (scope', key') = (t.scope, key)
    · cases heq
      unfold keyed at hk
      rw [hcarriers, hr] at hk
      cases List.mem_singleton.mp hk
      have hnew : (m.remember t key).idempotent (t.scope, key) = some ⟨t.response, t.fingerprint⟩ :=
        Function.update_self ..
      refine ⟨⟨t.question, t.response, e.created_at, t.fingerprint⟩, ?_, ?_, hfingerprint.symm, ?_⟩
      · unfold keyed
        rw [hself, hnew]
        exact List.mem_singleton.mpr rfl
      · show t.response.conversation_id = e.response.conversation_id
        rw [hresponse, hconversation]
      · intro hcomplete
        change e.response.interrupted = false at hcomplete
        rw [hresponse, hinterrupted] at hcomplete
        cases hcomplete
    · obtain ⟨hsame, hidempotent⟩ := hother scope' key' heq
      refine ⟨k, ?_, rfl, rfl, fun _ => rfl⟩
      unfold keyed at hk ⊢
      rw [hsame, hidempotent]
      exact hk

/-- The keys once the conversation of a turn is made. -/
theorem keyed_ensure (m : Memory) (t : Turn) (now : ℚ) : (m.ensure t now).keyed = m.keyed := by
  obtain ⟨hentries, hidempotent⟩ := ensure_others m t now
  funext scope key
  unfold keyed carriers
  rw [hentries, hidempotent]

/-- Turns that are the same stay. -/
theorem keysStay_of_eq {σ : Type} {keyed : σ → Scope → String → List Keyed} {s s' : σ}
    (h : keyed s' = keyed s) : KeysStay keyed s s' := by
  intro scope key k hk
  exact ⟨k, by rw [h]; exact hk, rfl, rfl, fun _ => rfl⟩

/-- What `append` does, where no conversation is archived and the store is not full. -/
theorem append_cases (h : Ok env limits m) (hfull : ¬ Full limits m)
    (hsafe : safeChatResponse env limits.max_answer_chars t.response.members = .ok t.response)
    (now later : ℚ) :
    (Ok env limits (m.append env limits now later t).2 ∧
      KeysStay keyed m (m.append env limits now later t).2 ∧
      ∃ response, (m.append env limits now later t).1 = .ok response) ∨
    (∃ key r, t.key = some key ∧ m.idempotent (t.scope, key) = some r ∧
      (r.response.conversation_id ≠ t.response.conversation_id ∨ r.fingerprint ≠ t.fingerprint) ∧
      m.append env limits now later t = (.error .conflict, m.ensure t now)) := by
  have hok := h.ensure t now
  have hkeyed := keyed_ensure m t now
  obtain ⟨hentries, hidempotent⟩ := ensure_others m t now
  obtain ⟨-, hsome, -⟩ := ensure_conversations m t now
  have hfull' : ¬ Full limits (m.ensure t now) := by
    unfold Full
    rw [hentries]
    exact hfull
  obtain ⟨c, hc⟩ := Option.isSome_iff_exists.mp hsome
  have hactive : ((m.ensure t now).conversations (t.scope, t.response.conversation_id)).any
      Conversation.archived = false := by
    rw [hc]
    exact hok.active _ c hc
  unfold append
  simp only [hactive]
  generalize m.ensure t now = m₁ at *
  have hstay : ∀ {m₂ : Memory}, KeysStay keyed m₁ m₂ → KeysStay keyed m m₂ := by
    intro m₂ hstay scope key k hk
    rw [← hkeyed] at hk
    exact hstay scope key k hk
  cases hkey : t.key with
  | none =>
    left
    dsimp only
    obtain ⟨hok', hkeyed'⟩ := hok.addPlain now hkey hsafe hsome
    rw [push_eq hfull']
    exact ⟨hok'.touch t fun _ => rfl, hstay (keysStay_of_eq hkeyed'), _, rfl⟩
  | some key =>
    dsimp only
    rw [hidempotent]
    cases hr : m.idempotent (t.scope, key) with
    | none =>
      left
      dsimp only
      obtain ⟨hok', hstay'⟩ := hok.addKeyed now hkey (by rw [hidempotent]; exact hr) hsafe hsome
      have hpush : (m₁.remember t key).push limits t now = _ := push_eq hfull'
      rw [hpush]
      exact ⟨hok'.touch t fun _ => rfl, hstay hstay', _, rfl⟩
    | some r =>
      dsimp only
      by_cases hmatch : r.response.conversation_id ≠ t.response.conversation_id ∨
          r.fingerprint ≠ t.fingerprint
      · right
        refine ⟨key, r, rfl, hr, hmatch, ?_⟩
        rw [if_pos hmatch]
        rfl
      · left
        have hr₁ : m₁.idempotent (t.scope, key) = some r := by rw [hidempotent]; exact hr
        have hkeys := hok.keys t.scope key
        rw [hr₁] at hkeys
        obtain ⟨e, hcarriers, hresponse⟩ := hkeys
        rw [if_neg hmatch]
        rw [not_or, not_not, not_not] at hmatch
        cases hinterrupted : r.response.interrupted with
        | true =>
          rw [if_pos rfl]
          cases hreplace : m₁.replace t key with
          | none =>
            rw [replace_none hreplace] at hcarriers
            cases hcarriers
          | some m₂ =>
            obtain ⟨pre, e', post, hentries', he', rfl⟩ := replace_some hreplace
            obtain ⟨hok', hstay'⟩ := hok.replaced hkey hentries' he' hr₁ hmatch.1 hmatch.2 hinterrupted
              hsafe hsome
            exact ⟨hok'.touch t fun _ => rfl, hstay hstay', _, rfl⟩
        | false =>
          have he : e ∈ m₁.entries := by
            have hmem : e ∈ m₁.carriers t.scope key := by rw [hcarriers]; exact List.mem_singleton_self e
            exact (List.mem_filter.mp hmem).1
          have hstored := hok.safe e he
          rw [hresponse] at hstored
          refine ⟨hok, hstay (keysStay_of_eq rfl), r.response, ?_⟩
          exact hstored

/-- A call that is not bad keeps what holds of the store, and its keys. -/
theorem write_step {c : Timed} (h : Ok env limits m) (hfull : ¬ Full limits m)
    (horphans : ¬ Orphans env limits m c) :
    Ok env limits (m.write env limits c).2 ∧ KeysStay keyed m (m.write env limits c).2 ∧
      ∀ e, (m.write env limits c).1 = .error e → (m.write env limits c).2 = m := by
  unfold write
  cases hturn : c.write.turn env limits.max_answer_chars with
  | error e => exact ⟨h, keysStay_of_eq rfl, fun _ _ => rfl⟩
  | ok t =>
    dsimp only
    rcases append_cases h hfull (turn_safe hturn) c.now c.later with
      ⟨hok, hstay, response, hresponse⟩ | ⟨key, r, hkey, hr, hother, happend⟩
    · refine ⟨hok, hstay, ?_⟩
      intro e he
      rw [hresponse] at he
      cases he
    · -- The conversation was there before, or the call would leave one behind.
      have hthere : (m.conversations (t.scope, t.response.conversation_id)).isSome = true := by
        rw [Option.isSome_iff_ne_none]
        intro hnone
        exact horphans ⟨t, key, r, hturn, hkey, hr, hother, hnone⟩
      rw [happend, ensure_eq hthere]
      exact ⟨h, keysStay_of_eq rfl, fun _ _ => rfl⟩

/-- The same request of a turn that was not interrupted is answered with the stored response. -/
theorem append_again {k : Keyed} (h : Ok env limits m) (hkey : t.key = some key)
    (hk : k ∈ m.keyed t.scope key) (hcomplete : k.response.interrupted = false)
    (hconversation : t.response.conversation_id = k.response.conversation_id)
    (hfingerprint : t.fingerprint = k.fingerprint) :
    m.append env limits now later t = (.ok k.response, m) := by
  unfold keyed at hk
  obtain ⟨e, he, rfl⟩ := List.mem_map.mp hk
  obtain ⟨-, r, hr, hresponse⟩ := h.carrier he
  dsimp only at hcomplete hconversation hfingerprint ⊢
  rw [hr] at hfingerprint
  change t.fingerprint = r.fingerprint at hfingerprint
  obtain ⟨hmem, hcarries⟩ := List.mem_filter.mp he
  obtain ⟨hscope, -⟩ := carries_iff.mp hcarries
  have hthere : (m.conversations (t.scope, t.response.conversation_id)).isSome = true := by
    rw [hconversation, ← hscope]
    exact h.conversations e hmem
  obtain ⟨c, hc⟩ := Option.isSome_iff_exists.mp hthere
  have hactive : (m.conversations (t.scope, t.response.conversation_id)).any Conversation.archived =
      false := by
    rw [hc]
    exact h.active _ c hc
  have hsame : ¬ (r.response.conversation_id ≠ t.response.conversation_id ∨
      r.fingerprint ≠ t.fingerprint) := by
    rw [hresponse, hconversation, hfingerprint]
    simp
  have hnot : r.response.interrupted = false := by rw [hresponse]; exact hcomplete
  unfold append
  simp only [ensure_eq hthere, hactive, hkey, hr]
  rw [if_neg hsame, hnot, hresponse, h.safe e hmem]
  rfl

/-- The store in memory has one turn for each key, for calls on a store that is not full that leave no
conversation behind. -/
theorem oneTurnPerKey (env : Env) (limits : MemoryLimits) :
    OneTurnPerKey env limits.max_answer_chars (write env limits) keyed
      (fun m c => Full limits m ∨ Orphans env limits m c) empty := by
  apply oneTurnPerKey_of (Ok env limits) ok_empty
  · intro m c h hgood
    rw [not_or] at hgood
    obtain ⟨hok, hstay, -⟩ := write_step h hgood.1 hgood.2
    exact ⟨hok, hstay⟩
  · intro m h scope key
    unfold keyed
    rw [List.length_map]
    have hkeys := h.keys scope key
    cases hr : m.idempotent (scope, key) with
    | none =>
      rw [hr] at hkeys
      rw [hkeys]
      exact Nat.zero_le 1
    | some r =>
      rw [hr] at hkeys
      obtain ⟨e, he, -⟩ := hkeys
      rw [he]
      exact le_refl 1
  · intro m h scope key k hk hcomplete c t _ hturn hscope hkey hconversation hfingerprint
    unfold write
    rw [hturn]
    subst hscope
    exact append_again h hkey hk hcomplete hconversation hfingerprint
  · intro m c h hgood hraises
    rw [not_or] at hgood
    obtain ⟨-, -, hsame⟩ := write_step h hgood.1 hgood.2
    rcases hraises with hraises | hraises
    · exact hsame _ hraises
    · exact hsame _ hraises

end Memory

/-! ## The store in SQLite -/

namespace Sqlite

variable {env : Env} {columns : Columns} {q q' : Sqlite} {t : Turn} {scope : Scope} {key : String}
  {now : ℚ} {response : SafeResponse}

/-- A call of the store in SQLite: an error rolls the transaction back. -/
def write (env : Env) (columns : Columns) (q : Sqlite) (c : Timed) :
    Except ChatError SafeResponse × Sqlite :=
  match c.write.turn env 8000 with
  | .error e => (.error e, q)
  | .ok t =>
    match q.append env columns c.now t with
    | .error e => (.error e, q)
    | .ok (response, q') => (.ok response, q')

/-- The row carries the key in the scope. -/
def carries (scope : Scope) (key : String) (r : Row) : Bool := r.scope == scope && r.key == some key

/-- A row as a turn with a key. -/
def Row.keyed (r : Row) : Keyed := ⟨r.question, r.response, r.created_at, r.fingerprint⟩

/-- The turns with the key. -/
def keyed (q : Sqlite) (scope : Scope) (key : String) : List Keyed :=
  (q.rows.filter (carries scope key)).map Row.keyed

/-- The call has a key and a response that cannot be read back. -/
def Unreadable (env : Env) (columns : Columns) (c : Timed) : Prop :=
  ∃ t, c.write.turn env 8000 = .ok t ∧ t.key ≠ none ∧ columns.response t.response = false

/-- What holds of the store in every run of calls whose responses can be read back. -/
structure Ok (env : Env) (columns : Columns) (q : Sqlite) : Prop where
  one : ∀ scope key, (q.rows.filter (carries scope key)).length ≤ 1
  readable : ∀ r ∈ q.rows, r.key ≠ none → columns.response r.response = true
  safe : ∀ r ∈ q.rows, safeChatResponse env 8000 r.response.members = .ok r.response

/-- A store with nothing in it. -/
theorem ok_empty : Ok env columns empty where
  one _ _ := Nat.zero_le 1
  readable _ hr := nomatch hr
  safe _ hr := nomatch hr

/-- The rows of other keys are not those of this one. -/
theorem carries_iff {r : Row} : carries scope key r = true ↔ r.scope = scope ∧ r.key = some key := by
  unfold carries
  rw [Bool.and_eq_true, beq_iff_eq, beq_iff_eq]

/-- The row of a key is the first one that carries it. -/
theorem find_eq (q : Sqlite) (scope : Scope) (key : String) :
    q.find scope key = (q.rows.filter (carries scope key)).head? :=
  List.head?_filter.symm

/-- A row with a key is the only one, and the one that is found. -/
theorem Ok.find (h : Ok env columns q) {r : Row} (hr : r ∈ q.rows.filter (carries scope key)) :
    q.rows.filter (carries scope key) = [r] ∧ q.find scope key = some r := by
  have hone := h.one scope key
  rw [find_eq]
  cases hrows : q.rows.filter (carries scope key) with
  | nil =>
    rw [hrows] at hr
    cases hr
  | cons r' rest =>
    rw [hrows, List.length_cons] at hone
    have hrest : rest = [] := List.eq_nil_of_length_eq_zero (by omega)
    rw [hrows, hrest] at hr
    rw [hrest, List.mem_singleton.mp hr]
    exact ⟨rfl, rfl⟩

/-- What a new turn leaves of the rows. -/
theorem insertTurn_rows (h : q.insertTurn now t = .ok (response, q')) :
    response = t.response ∧ q'.rows = q.rows ++ [row t now] := by
  unfold insertTurn at h
  dsimp only at h
  cases hc : q.conversations (t.scope, t.response.conversation_id) with
  | some c =>
    simp only [hc] at h
    split_ifs at h
    cases h
    exact ⟨rfl, rfl⟩
  | none =>
    simp only [hc] at h
    split_ifs at h
    cases h
    exact ⟨rfl, rfl⟩

/-- A new turn with a key that no row has. -/
theorem Ok.insert (h : Ok env columns q) (hrows : q'.rows = q.rows ++ [row t now])
    (hfree : ∀ key, t.key = some key → q.find t.scope key = none)
    (hreadable : t.key ≠ none → columns.response t.response = true)
    (hsafe : safeChatResponse env 8000 t.response.members = .ok t.response) :
    Ok env columns q' ∧ KeysStay keyed q q' := by
  refine ⟨⟨?_, ?_, ?_⟩, ?_⟩
  · intro scope key
    rw [hrows, List.filter_append, List.length_append]
    by_cases hcarries : carries scope key (row t now) = true
    · obtain ⟨hscope, hkey⟩ := carries_iff.mp hcarries
      have hnone : q.find scope key = none := by
        rw [← hscope]
        exact hfree key hkey
      rw [find_eq, List.head?_eq_none_iff] at hnone
      rw [hnone, List.length_nil, Nat.zero_add]
      exact List.length_filter_le _ [row t now]
    · rw [List.filter_cons_of_neg hcarries, List.filter_nil, List.length_nil]
      exact h.one scope key
  · intro r hr
    rw [hrows] at hr
    rcases List.mem_append.mp hr with hr | hr
    · exact h.readable r hr
    · cases List.mem_singleton.mp hr
      exact hreadable
  · intro r hr
    rw [hrows] at hr
    rcases List.mem_append.mp hr with hr | hr
    · exact h.safe r hr
    · cases List.mem_singleton.mp hr
      exact hsafe
  · intro scope key k hk
    refine ⟨k, ?_, rfl, rfl, fun _ => rfl⟩
    unfold keyed at hk ⊢
    rw [hrows, List.filter_append, List.map_append]
    exact List.mem_append_left _ hk

/-- The interrupted turn of a key is replaced by one of the same conversation. -/
theorem Ok.replaced (h : Ok env columns q) {r : Row} (hkey : t.key = some key)
    (hfind : q.find t.scope key = some r)
    (hrows : q'.rows = q.rows.map fun r => if carries t.scope key r then row t now else r)
    (hconversation : r.response.conversation_id = t.response.conversation_id)
    (hfingerprint : r.fingerprint = t.fingerprint) (hinterrupted : r.response.interrupted = true)
    (hreadable : t.key ≠ none → columns.response t.response = true)
    (hsafe : safeChatResponse env 8000 t.response.members = .ok t.response) :
    Ok env columns q' ∧ KeysStay keyed q q' := by
  have hnew : carries t.scope key (row t now) = true := carries_iff.mpr ⟨rfl, hkey⟩
  -- The row that is written carries the keys that the old one carried.
  have hsame : ∀ scope' key' r', carries scope' key'
      (if carries t.scope key r' then row t now else r') = carries scope' key' r' := by
    intro scope' key' r'
    split
    · next hr' =>
      obtain ⟨hscope, hkey'⟩ := carries_iff.mp hr'
      unfold carries row
      rw [hscope, hkey', hkey]
    · rfl
  have hfilter : ∀ scope' key', q'.rows.filter (carries scope' key') =
      (q.rows.filter (carries scope' key')).map fun r => if carries t.scope key r then row t now else r := by
    intro scope' key'
    rw [hrows, List.filter_map]
    congr 1
    exact List.filter_congr fun r' _ => hsame scope' key' r'
  refine ⟨⟨?_, ?_, ?_⟩, ?_⟩
  · intro scope' key'
    rw [hfilter, List.length_map]
    exact h.one scope' key'
  · intro r' hr'
    rw [hrows] at hr'
    obtain ⟨r₀, hr₀, rfl⟩ := List.mem_map.mp hr'
    split
    · exact hreadable
    · exact h.readable r₀ hr₀
  · intro r' hr'
    rw [hrows] at hr'
    obtain ⟨r₀, hr₀, rfl⟩ := List.mem_map.mp hr'
    split
    · exact hsafe
    · exact h.safe r₀ hr₀
  · intro scope' key' k hk
    unfold keyed at hk
    obtain ⟨r₀, hr₀, rfl⟩ := List.mem_map.mp hk
    by_cases hcarries : carries t.scope key r₀ = true
    · have hmem : r₀ ∈ q.rows.filter (carries t.scope key) :=
        List.mem_filter.mpr ⟨(List.mem_filter.mp hr₀).1, hcarries⟩
      have heq : r = r₀ := Option.some.inj (hfind.symm.trans (h.find hmem).2)
      subst heq
      refine ⟨Row.keyed (row t now), ?_, hconversation.symm, hfingerprint.symm, ?_⟩
      · unfold keyed
        rw [hfilter]
        refine List.mem_map_of_mem (List.mem_map.mpr ⟨r, hr₀, if_pos hcarries⟩)
      · intro hcomplete
        change r.response.interrupted = false at hcomplete
        rw [hinterrupted] at hcomplete
        cases hcomplete
    · refine ⟨Row.keyed r₀, ?_, rfl, rfl, fun _ => rfl⟩
      unfold keyed
      rw [hfilter]
      refine List.mem_map_of_mem (List.mem_map.mpr ⟨r₀, hr₀, if_neg hcarries⟩)

/-- What `append` keeps. -/
theorem append_step (h : Ok env columns q) (happend : q.append env columns now t = .ok (response, q'))
    (hreadable : t.key ≠ none → columns.response t.response = true)
    (hsafe : safeChatResponse env 8000 t.response.members = .ok t.response) :
    Ok env columns q' ∧ KeysStay keyed q q' := by
  unfold append at happend
  cases hkey : t.key with
  | none =>
    rw [hkey] at happend
    obtain ⟨-, hrows⟩ := insertTurn_rows happend
    exact h.insert hrows (fun key hkey' => nomatch hkey.symm.trans hkey') hreadable hsafe
  | some key =>
    rw [hkey] at happend
    dsimp only at happend
    cases hfind : q.find t.scope key with
    | none =>
      rw [hfind] at happend
      obtain ⟨-, hrows⟩ := insertTurn_rows happend
      refine h.insert hrows ?_ hreadable hsafe
      intro key' hkey'
      rw [← Option.some.inj (hkey.symm.trans hkey')]
      exact hfind
    | some r =>
      rw [hfind] at happend
      dsimp only at happend
      split_ifs at happend with hother hinterrupted htaken
      · cases happend
        rw [not_or, not_or, not_not, not_not] at hother
        exact h.replaced hkey hfind rfl hother.2.1 hother.2.2 hinterrupted hreadable hsafe
      · cases hstored : safeChatResponse env 8000 r.response.members with
        | error e =>
          rw [hstored] at happend
          cases happend
        | ok response' =>
          rw [hstored] at happend
          cases happend
          exact ⟨h, fun scope key k hk => ⟨k, hk, rfl, rfl, fun _ => rfl⟩⟩

/-- The same request of a turn that was not interrupted is answered with the stored response. -/
theorem append_again {k : Keyed} (h : Ok env columns q) (hkey : t.key = some key)
    (hk : k ∈ q.keyed t.scope key) (hcomplete : k.response.interrupted = false)
    (hconversation : t.response.conversation_id = k.response.conversation_id)
    (hfingerprint : t.fingerprint = k.fingerprint) :
    q.append env columns now t = .ok (k.response, q) := by
  unfold keyed at hk
  obtain ⟨r, hr, rfl⟩ := List.mem_map.mp hk
  obtain ⟨-, hfind⟩ := h.find hr
  obtain ⟨hmem, hcarries⟩ := List.mem_filter.mp hr
  obtain ⟨-, hrkey⟩ := carries_iff.mp hcarries
  have hreadable : columns.response r.response = true := by
    apply h.readable r hmem
    rw [hrkey]
    exact nofun
  change r.response.interrupted = false at hcomplete
  change t.response.conversation_id = r.response.conversation_id at hconversation
  change t.fingerprint = r.fingerprint at hfingerprint
  have hsame : ¬ (columns.response r.response = false ∨
      r.response.conversation_id ≠ t.response.conversation_id ∨ r.fingerprint ≠ t.fingerprint) := by
    rw [hreadable, hconversation, hfingerprint]
    simp
  unfold append
  simp only [hkey, hfind]
  rw [if_neg hsame, hcomplete, h.safe r hmem]
  rfl

/-- The store in SQLite has one turn for each key, for calls whose responses can be read back. -/
theorem oneTurnPerKey (env : Env) (columns : Columns) :
    OneTurnPerKey env 8000 (write env columns) keyed (fun _ c => Unreadable env columns c) empty := by
  apply oneTurnPerKey_of (Ok env columns) ok_empty
  · intro q c h hgood
    unfold write
    cases hturn : c.write.turn env 8000 with
    | error e => exact ⟨h, Memory.keysStay_of_eq rfl⟩
    | ok t =>
      have hreadable : t.key ≠ none → columns.response t.response = true := by
        intro hkey
        rw [← Bool.not_eq_false]
        exact fun hunreadable => hgood ⟨t, hturn, hkey, hunreadable⟩
      dsimp only
      cases happend : q.append env columns c.now t with
      | error e => exact ⟨h, Memory.keysStay_of_eq rfl⟩
      | ok result => exact append_step h happend hreadable (turn_safe hturn)
  · intro q h scope key
    unfold keyed
    rw [List.length_map]
    exact h.one scope key
  · intro q h scope key k hk hcomplete c t _ hturn hscope hkey hconversation hfingerprint
    subst hscope
    unfold write
    simp only [hturn, append_again h hkey hk hcomplete hconversation hfingerprint]
  · intro q c _ _ hraises
    unfold write at hraises ⊢
    cases hturn : c.write.turn env 8000 with
    | error e => rfl
    | ok t =>
      simp only [hturn] at hraises ⊢
      cases happend : q.append env columns c.now t with
      | error e => rfl
      | ok result =>
        simp only [happend] at hraises
        rcases hraises with hraises | hraises <;> cases hraises

end Sqlite

/-- In both stores there is one turn for each key of a scope, and a completed turn is final: in memory as
long as the store is not full and no call of another request's key names a conversation that is not
there, in SQLite as long as every response of a call with a key can be read back. -/
theorem one_turn_per_key (env : Env) (limits : MemoryLimits) (columns : Columns) :
    OneTurnPerKey env limits.max_answer_chars (Memory.write env limits) Memory.keyed
      (fun m c => Memory.Full limits m ∨ Memory.Orphans env limits m c) Memory.empty ∧
    OneTurnPerKey env 8000 (Sqlite.write env columns) Sqlite.keyed
      (fun _ c => Sqlite.Unreadable env columns c) Sqlite.empty :=
  ⟨Memory.oneTurnPerKey env limits, Sqlite.oneTurnPerKey env columns⟩

/-- An environment that refuses texts. -/
def plainEnv : Env := ⟨fun n => some n, fun _ => none⟩

/-- A call of `append` with the key `k` and a response of a conversation. -/
def keyedCall (conversation_id message_id : String) (now : ℚ) : Timed where
  write := .append {
    session := ⟨"t", "w", "u"⟩
    message := "q"
    response := [("conversation_id", .str conversation_id), ("message_id", .str message_id)]
    idempotency_key := some "k"
    fingerprint := some "f" }
  now := now
  later := now

/-- Without the conditions it fails: the key of a turn of the conversation `c1` comes back with the
conversation `c2`, and the conflict leaves `c2` in the store in memory. -/
theorem conflict_leaves_conversation : ¬ ∀ env limits columns,
    OneTurnPerKey env limits.max_answer_chars (Memory.write env limits) Memory.keyed
      (fun m _ => Memory.Full limits m) Memory.empty ∧
    OneTurnPerKey env 8000 (Sqlite.write env columns) Sqlite.keyed (fun _ _ => False) Sqlite.empty := by
  intro hall
  let limits : MemoryLimits := ⟨2000, 8000⟩
  let first := (Memory.write plainEnv limits Memory.empty (keyedCall "c1" "m1" 1)).2
  let second := Memory.write plainEnv limits first (keyedCall "c2" "m2" 2)
  have hproperty := (hall plainEnv limits ⟨fun _ => true, fun _ => true, fun _ => true⟩).1
  have hgood : ¬ Happens (after (Memory.write plainEnv limits)) Memory.empty [keyedCall "c1" "m1" 1]
      fun m _ => Memory.Full limits m := by
    rintro ⟨u, e, hmem, hfull⟩
    cases List.mem_singleton.mp hmem
    exact absurd (show 2000 ≤ 0 from hfull) (by decide)
  obtain ⟨-, -, -, hraises⟩ := hproperty [keyedCall "c1" "m1" 1] first rfl hgood
  have hconflict : (second.1.map fun _ => ()) = .error .conflict := by decide +kernel
  have hleft : (second.2.conversations (⟨"t", "w", "u"⟩, "c2")).isSome = true := by decide +kernel
  have hbefore : (first.conversations (⟨"t", "w", "u"⟩, "c2")).isSome = false := by decide +kernel
  have hfull : ¬ Memory.Full limits first := by
    have hlength : first.entries.length = 1 := by decide +kernel
    show ¬ 2000 ≤ first.entries.length
    rw [hlength]
    decide
  have hsame : second.2 = first := by
    apply hraises _ hfull
    left
    show second.1 = _
    cases hwritten : second.1 with
    | ok result =>
      rw [hwritten] at hconflict
      cases hconflict
    | error e =>
      rw [hwritten] at hconflict
      cases hconflict
      rfl
  rw [hsame, hbefore] at hleft
  cases hleft

end RickIntelligence.Chat
