import RickIntelligence.Lib.Trace
import RickIntelligence.Providers.Stream

/-!
# What a stream delivers

What the chunks that `chat_completion_stream` hands on have to do with what was on the wire. `Heard` says
it of the events so far of one attempt, and every event keeps it; `stream_never_replays` is what
follows for a consumer, whatever the transport does in each of the attempts.
-/

namespace RickIntelligence.Providers

open Lib

/-! ## Frames -/

/-- The object of an event that is a frame. -/
def frame? (cfg : StreamConfig) (data : String) : Option Json.Members :=
  if data = "[DONE]" then none else (cfg.loads data).bind obj?

/-- The chunk of an event. -/
def wireChunk (cfg : StreamConfig) (data : String) : Option Chunk :=
  if data = "[DONE]" then none
  else (cfg.loads data).bind fun decoded =>
    match extractChatChunk cfg.shapes cfg.model cfg.native decoded with
    | .ok chunk => chunk
    | .error _ => none

/-- The model that a frame names. -/
def modelOf (cfg : StreamConfig) (body : Json.Members) : Option String :=
  (frameModel cfg.model body).text?.map strip

/-- The id of the completion that a frame names. -/
def idOf (body : Json.Members) : Option String := (Json.member? "id" body).bind Json.text?

/-- The time of the completion that a frame names. -/
def createdOf (body : Json.Members) : Option ℤ := (Json.member? "created" body).bind int?

/-- The chunk is that of the event at a position, with its own usage if it ends the completion. -/
def Carries (cfg : StreamConfig) (events : List String) (c : Chunk) (p : ℕ) : Prop :=
  ∃ c', (events[p]?).bind (wireChunk cfg) = some c' ∧ c = { c' with usage := c.usage } ∧
    (c.finish_reason = none → c = c')

/-- No event after a position is a frame with a choice. -/
def NoChoiceAfter (cfg : StreamConfig) (events : List String) (p : ℕ) : Prop :=
  ∀ j data body, p < j → events[j]? = some data → frame? cfg data = some body → choicesOf body = []

/-- The frames name one completion. -/
structure OneCompletion (cfg : StreamConfig) (events : List String) (model : Option String)
    (id : Option String) (created : Option ℤ) : Prop where
  models : ∀ data ∈ events, ∀ body, frame? cfg data = some body →
    modelOf cfg body = model ∧ model ≠ none
  ids : ∀ data ∈ events, ∀ body, frame? cfg data = some body → ∀ v, idOf body = some v → id = some v
  times : ∀ data ∈ events, ∀ body, frame? cfg data = some body →
    ∀ v, createdOf body = some v → created = some v

/-! ## Steps -/

section Steps

variable {cfg : StreamConfig} {st st' : StreamState} {data : String} {body : Json.Members}

/-- A requirement that was met. -/
theorem require_ok {c : Bool} {u : Unit} : require c = .ok u ↔ c = true := by
  simp [require, raiseFirst_ok]

/-- What a frame that is identified does to the state: it counts, and it names the completion. -/
structure StreamState.Identified (cfg : StreamConfig) (st : StreamState) (body : Json.Members)
    (st' : StreamState) : Prop where
  model : st'.resolved_model = modelOf cfg body ∧ modelOf cfg body ≠ none ∧
    (st.resolved_model = none ∨ st.resolved_model = st'.resolved_model)
  id : st'.completion_id = (idOf body <|> st.completion_id) ∧
    ∀ v, idOf body = some v → st.completion_id = none ∨ st.completion_id = some v
  created : st'.completion_created = (createdOf body <|> st.completion_created) ∧
    ∀ v, createdOf body = some v → st.completion_created = none ∨ st.completion_created = some v
  rest : st'.emitted = st.emitted ∧ st'.saw_done = st.saw_done ∧ st'.terminal_chunk = st.terminal_chunk ∧
    st'.delivered = st.delivered ∧ st'.json_fragments = st.json_fragments

/-- `x.all (· == v)` of an option. -/
theorem all_beq_iff {α : Type} [DecidableEq α] {x : Option α} {v : α} :
    x.all (· == v) = true ↔ x = none ∨ x = some v := by
  cases x with
  | none => simp
  | some y => simp

/-- A frame that passes its checks is identified. -/
theorem identify_ok {st₁ st₂ : StreamState} (hmeasure : st.measure body = .ok st₁)
    (hmodel : st₁.identifyModel cfg body = .ok st₂) (hid : st₂.identifyCompletion body = .ok st') :
    st.Identified cfg body st' := by
  have hmeasured : ∃ citation_end text_length, st₁ = { st with citation_end, text_length } := by
    unfold StreamState.measure at hmeasure
    split at hmeasure
    · cases hmeasure
      exact ⟨_, _, rfl⟩
    · simp only [except_bind_ok] at hmeasure
      obtain ⟨_, -, _, -, hst⟩ := hmeasure
      cases hst
      exact ⟨_, _, rfl⟩
  obtain ⟨citation_end, text_length, rfl⟩ := hmeasured
  unfold StreamState.identifyModel at hmodel
  cases htext : (frameModel cfg.model body).text? with
  | none =>
    rw [htext] at hmodel
    cases hmodel
  | some model =>
    simp only [htext] at hmodel
    split at hmodel
    case isFalse => cases hmodel
    case isTrue hsame =>
      cases hmodel
      simp only [StreamState.identifyCompletion, except_bind_ok, require_ok, Option.all_eq_true] at hid
      obtain ⟨_, hid, _, hcreated, hst⟩ := hid
      cases hst
      have hmodelOf : modelOf cfg body = some (strip model) := by
        unfold modelOf
        rw [htext]
        rfl
      refine ⟨⟨hmodelOf.symm, ?_, all_beq_iff.mp hsame⟩, ⟨rfl, fun v hv => ?_⟩, ⟨rfl, fun v hv => ?_⟩,
        rfl, rfl, rfl, rfl, rfl⟩
      · rw [hmodelOf]
        exact Option.some_ne_none _
      · rw [← all_beq_iff, Option.all_eq_true]
        exact hid v hv
      · rw [← all_beq_iff, Option.all_eq_true]
        exact hcreated v hv

/-- What a chunk does to the state that it is accepted in. -/
inductive StreamState.Accepted (cfg : StreamConfig) (st : StreamState) (c : Chunk) :
    StreamState → Prop
  /-- Usage is merged into the chunk that is held back. -/
  | merges {st' : StreamState} {terminal : Chunk} (hterminal : st.terminal_chunk = some terminal)
      (hfinish : c.finish_reason = none)
      (hnow : st'.terminal_chunk = some { terminal with usage := c.usage })
      (hdelivered : st'.delivered = st.delivered) (hjson : st'.json_fragments = st.json_fragments)
      (hemitted : st'.emitted = true) (hdone : st'.saw_done = st.saw_done) : Accepted cfg st c st'
  /-- The chunk is handed on. -/
  | delivers {st' : StreamState} (hterminal : st.terminal_chunk = none)
      (hfinish : c.finish_reason = none) (hnow : st'.terminal_chunk = none)
      (hdelivered : st'.delivered = st.delivered ++ [c])
      (hjson : cfg.format.isJson = true →
        String.join st'.json_fragments = String.join st.json_fragments ++ c.delta)
      (hemitted : st'.emitted = true) (hdone : st'.saw_done = st.saw_done) : Accepted cfg st c st'
  /-- The chunk is held back. -/
  | holds {st' : StreamState} {usage : Option Usage} (hterminal : st.terminal_chunk = none)
      (hfinish : c.finish_reason ≠ none) (hnow : st'.terminal_chunk = some { c with usage })
      (hdelivered : st'.delivered = st.delivered)
      (hjson : cfg.format.isJson = true →
        String.join st'.json_fragments = String.join st.json_fragments ++ c.delta)
      (hemitted : st'.emitted = true) (hdone : st'.saw_done = st.saw_done) : Accepted cfg st c st'

/-- A text at the end of some texts. -/
theorem join_snoc (texts : List String) (text : String) :
    String.join (texts ++ [text]) = String.join texts ++ text := by
  simp

/-- A chunk of usage has no delta and no reason to finish. -/
theorem usageOnly_iff {c : Chunk} : c.usageOnly = true ↔
    c.usage.isSome = true ∧ c.delta = "" ∧ c.tool_calls = none ∧ c.finish_reason = none := by
  simp [Chunk.usageOnly, and_assoc]

/-- A chunk that does not raise is accepted. -/
theorem acceptChunk_ok {c : Chunk} (h : st.acceptChunk cfg body c = .ok st') :
    st.Accepted cfg c st' ∧ st'.resolved_model = st.resolved_model ∧
      st'.completion_id = st.completion_id ∧ st'.completion_created = st.completion_created := by
  unfold StreamState.acceptChunk at h
  rw [except_bind_ok] at h
  obtain ⟨accounting, -, h⟩ := h
  by_cases husage : c.usageOnly = true
  · simp only [husage, if_true] at h
    obtain ⟨-, hdelta, -, hfinish⟩ := usageOnly_iff.mp husage
    cases hterminal : st.terminal_chunk with
    | some terminal =>
      simp only [hterminal] at h
      cases h
      exact ⟨.merges hterminal hfinish rfl rfl rfl rfl rfl, rfl, rfl, rfl⟩
    | none =>
      simp only [hterminal] at h
      cases h
      refine ⟨.delivers hterminal hfinish rfl rfl (fun _ => ?_) rfl rfl, rfl, rfl, rfl⟩
      rw [hdelta, String.append_empty]
      rfl
  · simp only [husage, Bool.false_eq_true, if_false, except_bind_ok, require_ok] at h
    obtain ⟨_, hterminal, streamed_tools, -, h⟩ := h
    rw [Option.isNone_iff_eq_none] at hterminal
    have hjson : cfg.format.isJson = true → String.join (if cfg.format.isJson then
        st.json_fragments ++ [c.delta] else st.json_fragments) =
          String.join st.json_fragments ++ c.delta := by
      intro hformat
      rw [if_pos hformat, join_snoc]
    by_cases hfinish : c.finish_reason.isSome = true
    · simp only [hfinish, if_true] at h
      cases h
      exact ⟨.holds hterminal (Option.isSome_iff_ne_none.mp hfinish) rfl rfl hjson rfl rfl, rfl, rfl, rfl⟩
    · simp only [hfinish, Bool.false_eq_true, if_false] at h
      cases h
      rw [Option.not_isSome_iff_eq_none] at hfinish
      exact ⟨.delivers hterminal hfinish hterminal rfl hjson rfl rfl, rfl, rfl, rfl⟩

/-- What an event does to the state: it is the last one, or a frame of a completion. -/
theorem step_ok (h : st.step cfg data = .ok st') : st.saw_done = false ∧
    (data = "[DONE]" ∧ st' = { st with saw_done := true } ∨
    data ≠ "[DONE]" ∧ ∃ body st₁, frame? cfg data = some body ∧ st.Identified cfg body st₁ ∧
      (st.terminal_chunk ≠ none → choicesOf body = []) ∧
      (wireChunk cfg data = none ∧ st' = st₁ ∨
      ∃ c, wireChunk cfg data = some c ∧ st₁.Accepted cfg c st' ∧
        st'.resolved_model = st₁.resolved_model ∧ st'.completion_id = st₁.completion_id ∧
        st'.completion_created = st₁.completion_created)) := by
  unfold StreamState.step at h
  rw [except_bind_ok] at h
  obtain ⟨_, hdone, h⟩ := h
  rw [require_ok, Bool.not_eq_true'] at hdone
  refine ⟨hdone, ?_⟩
  by_cases hlast : data = "[DONE]"
  · rw [if_pos hlast] at h
    cases h
    exact .inl ⟨hlast, rfl⟩
  · rw [if_neg hlast] at h
    refine .inr ⟨hlast, ?_⟩
    cases hdecoded : cfg.loads data with
    | none =>
      rw [hdecoded] at h
      cases h
    | some decoded =>
      simp only [hdecoded, except_bind_ok, require_ok] at h
      obtain ⟨chunk, hchunk, st₁, hmeasure, st₂, hmodel, st₃, hid, _, hchoice, h⟩ := h
      have hbody : obj? decoded = some ((obj? decoded).getD []) := by
        cases hobj : obj? decoded with
        | none =>
          unfold extractChatChunk at hchunk
          rw [hobj] at hchunk
          cases hchunk
        | some body => rfl
      have hframe : frame? cfg data = some ((obj? decoded).getD []) := by
        unfold frame?
        rw [if_neg hlast, hdecoded, Option.bind_some]
        exact hbody
      have hwire : wireChunk cfg data = chunk := by
        unfold wireChunk
        rw [if_neg hlast, hdecoded, Option.bind_some, hchunk]
      have hidentified := identify_ok hmeasure hmodel hid
      have hterminal := hidentified.rest.2.2.1
      refine ⟨_, st₃, hframe, hidentified, fun hheld => ?_, ?_⟩
      · rw [← hterminal, ← Option.isSome_iff_ne_none] at hheld
        simpa [hheld] using hchoice
      · rw [hwire]
        cases chunk with
        | none =>
          cases h
          exact .inl ⟨rfl, rfl⟩
        | some c =>
          obtain ⟨haccepted, hkeeps⟩ := acceptChunk_ok h
          exact .inr ⟨c, rfl, haccepted, hkeeps⟩

end Steps

/-! ## Runs of one attempt -/

/-- What an attempt has delivered, and the chunk that it holds back. -/
def StreamState.accepted (st : StreamState) : List Chunk := st.delivered ++ st.terminal_chunk.toList

/-- What the state of an attempt says of the events so far. -/
structure Heard (cfg : StreamConfig) (events : List String) (st : StreamState) : Prop where
  order : ∃ ps : List ℕ, ps.Pairwise (· < ·) ∧ (∀ p ∈ ps, p < events.length) ∧
    List.Forall₂ (Carries cfg events) st.accepted ps ∧
    ∀ p ∈ ps.getLast?, st.terminal_chunk ≠ none → NoChoiceAfter cfg events p
  plain : ∀ c ∈ st.delivered, c.finish_reason = none
  held : ∀ c, st.terminal_chunk = some c → c.finish_reason ≠ none
  quiet : st.emitted = false → st.accepted = []
  framed : ∀ data ∈ events, data = "[DONE]" ∨ frame? cfg data ≠ none
  ended : if st.saw_done then ∃ frames, events = frames ++ ["[DONE]"] ∧ "[DONE]" ∉ frames
    else "[DONE]" ∉ events
  completion : OneCompletion cfg events st.resolved_model st.completion_id st.completion_created
  fragments : cfg.format.isJson = true →
    String.join st.json_fragments = String.join (st.accepted.map Chunk.delta)

section Runs

variable {cfg : StreamConfig} {st st' : StreamState} {data : String} {events : List String}

variable {c : Chunk} {p : ℕ} {st₁ : StreamState} {body : Json.Members}

/-- A chunk of an event is still that when there are more events. -/
theorem Carries.append (h : Carries cfg events c p) (more : List String) :
    Carries cfg (events ++ more) c p := by
  obtain ⟨c', hc', hsame⟩ := h
  have hp : p < events.length := by
    by_contra hge
    rw [List.getElem?_eq_none (by omega)] at hc'
    cases hc'
  refine ⟨c', ?_, hsame⟩
  rw [List.getElem?_append_left hp]
  exact hc'

/-- One more event, which has no choice, leaves none after a position. -/
theorem NoChoiceAfter.snoc (h : NoChoiceAfter cfg events p)
    (hdata : ∀ body, frame? cfg data = some body → choicesOf body = []) :
    NoChoiceAfter cfg (events ++ [data]) p := by
  intro j data' body hj hdata' hbody
  by_cases hlt : j < events.length
  · rw [List.getElem?_append_left hlt] at hdata'
    exact h j data' body hj hdata' hbody
  · rw [List.getElem?_append_right (by omega)] at hdata'
    have hmem := List.mem_of_getElem? hdata'
    rw [List.mem_singleton] at hmem
    subst hmem
    exact hdata body hbody

/-- Nothing is after the last event. -/
theorem NoChoiceAfter.last (cfg : StreamConfig) (events : List String) (data : String) :
    NoChoiceAfter cfg (events ++ [data]) events.length := by
  intro j data' body hj hdata' _
  rw [List.getElem?_eq_none (by simp; omega)] at hdata'
  cases hdata'

/-- A completion that a frame goes on with. -/
theorem OneCompletion.snoc (h : OneCompletion cfg events st.resolved_model st.completion_id st.completion_created)
    (hframe : frame? cfg data = some body) (hidentified : st.Identified cfg body st₁) :
    OneCompletion cfg (events ++ [data]) st₁.resolved_model st₁.completion_id st₁.completion_created := by
  obtain ⟨⟨hmodel, hsome, hmodels⟩, ⟨hid, hids⟩, ⟨hcreated, htimes⟩, -⟩ := hidentified
  -- A value that was named before is the one that the frame names.
  have hkept : ∀ {α : Type} {known given : Option α} {v : α}, known = some v →
      (∀ w, given = some w → known = none ∨ known = some w) → (given <|> known) = some v := by
    rintro α known given v rfl hsame
    cases given with
    | none => rfl
    | some w =>
      rcases hsame w rfl with hnone | hsome
      · cases hnone
      · exact hsome.symm
  refine ⟨fun data' hdata' body' hbody' => ?_, fun data' hdata' body' hbody' v hv => ?_,
    fun data' hdata' body' hbody' v hv => ?_⟩
  · rcases List.mem_append.mp hdata' with hold | hnew
    · obtain ⟨hold', hne⟩ := h.models data' hold body' hbody'
      have hsame := hmodels.resolve_left hne
      exact ⟨hold'.trans hsame, hsame ▸ hne⟩
    · rw [List.mem_singleton.mp hnew] at hbody'
      cases hframe.symm.trans hbody'
      exact ⟨hmodel.symm, hmodel ▸ hsome⟩
  · rw [hid]
    rcases List.mem_append.mp hdata' with hold | hnew
    · exact hkept (h.ids data' hold body' hbody' v hv) hids
    · rw [List.mem_singleton.mp hnew] at hbody'
      cases hframe.symm.trans hbody'
      rw [hv]
      rfl
  · rw [hcreated]
    rcases List.mem_append.mp hdata' with hold | hnew
    · exact hkept (h.times data' hold body' hbody' v hv) htimes
    · rw [List.mem_singleton.mp hnew] at hbody'
      cases hframe.symm.trans hbody'
      rw [hv]
      rfl

/-- A frame is not the end of the events. -/
theorem heard_frame (h : Heard cfg events st) (hdone : st.saw_done = false) (hlast : data ≠ "[DONE]")
    (hframe : frame? cfg data = some body) (hidentified : st.Identified cfg body st₁)
    (hchoice : st.terminal_chunk ≠ none → choicesOf body = []) :
    Heard cfg (events ++ [data]) st₁ := by
  obtain ⟨hemitted, hsaw, hterminal, hdelivered, hfragments⟩ := hidentified.rest
  have haccepted : st₁.accepted = st.accepted := by
    unfold StreamState.accepted
    rw [hdelivered, hterminal]
  have hended := h.ended
  rw [hdone, if_neg Bool.false_ne_true] at hended
  obtain ⟨ps, hpairwise, hbound, hcarries, hafter⟩ := h.order
  refine ⟨⟨ps, hpairwise, fun p hp => ?_, ?_, ?_⟩, ?_, ?_, ?_, ?_, ?_, ?_, ?_⟩
  · have := hbound p hp
    rw [List.length_append]
    omega
  · rw [haccepted]
    exact hcarries.imp fun c p hc => hc.append [data]
  · intro p hp hheld
    rw [hterminal] at hheld
    refine (hafter p hp hheld).snoc fun body' hbody' => ?_
    cases hframe.symm.trans hbody'
    exact hchoice hheld
  · rw [hdelivered]
    exact h.plain
  · rw [hterminal]
    exact h.held
  · rw [hemitted, haccepted]
    exact h.quiet
  · intro data' hdata'
    rcases List.mem_append.mp hdata' with hold | hnew
    · exact h.framed data' hold
    · rw [List.mem_singleton.mp hnew, hframe]
      exact .inr (Option.some_ne_none _)
  · rw [hsaw, hdone, if_neg Bool.false_ne_true, List.mem_append, List.mem_singleton]
    rintro (hmem | heq)
    · exact hended hmem
    · exact hlast heq.symm
  · exact h.completion.snoc hframe hidentified
  · rw [hfragments, haccepted]
    exact h.fragments

/-- The last event of the events. -/
theorem heard_done (h : Heard cfg events st) (hdone : st.saw_done = false) :
    Heard cfg (events ++ ["[DONE]"]) { st with saw_done := true } := by
  have hnone : frame? cfg "[DONE]" = none := if_pos rfl
  have hended := h.ended
  rw [hdone, if_neg Bool.false_ne_true] at hended
  obtain ⟨ps, hpairwise, hbound, hcarries, hafter⟩ := h.order
  -- A frame is one of the events before.
  have hbefore : ∀ data ∈ events ++ ["[DONE]"], ∀ body, frame? cfg data = some body →
      data ∈ events := by
    intro data hdata body hbody
    rcases List.mem_append.mp hdata with hold | hnew
    · exact hold
    · rw [List.mem_singleton.mp hnew, hnone] at hbody
      cases hbody
  refine ⟨⟨ps, hpairwise, fun p hp => ?_, hcarries.imp fun c p hc => hc.append _, ?_⟩, h.plain, h.held,
    h.quiet, ?_, ?_, ⟨?_, ?_, ?_⟩, h.fragments⟩
  · have := hbound p hp
    rw [List.length_append]
    omega
  · intro p hp hheld
    refine (hafter p hp hheld).snoc fun body hbody => ?_
    rw [hnone] at hbody
    cases hbody
  · intro data hdata
    rcases List.mem_append.mp hdata with hold | hnew
    · exact h.framed data hold
    · exact .inl (List.mem_singleton.mp hnew)
  · exact ⟨events, rfl, hended⟩
  · exact fun data hdata body hbody => h.completion.models data (hbefore data hdata body hbody) body hbody
  · exact fun data hdata body hbody => h.completion.ids data (hbefore data hdata body hbody) body hbody
  · exact fun data hdata body hbody => h.completion.times data (hbefore data hdata body hbody) body hbody

/-- The last element of related lists is replaced. -/
theorem forall₂_replace_last {α β : Type} {R : α → β → Prop} {l : List α} {a a' : α} {ps : List β}
    (h : List.Forall₂ R (l ++ [a]) ps) (ha : ∀ p, R a p → R a' p) :
    List.Forall₂ R (l ++ [a']) ps := by
  induction l generalizing ps with
  | nil =>
    obtain ⟨p, rest, hp, hrest, rfl⟩ := List.forall₂_cons_left_iff.mp h
    exact .cons (ha p hp) hrest
  | cons b l ih =>
    obtain ⟨p, rest, hp, hrest, rfl⟩ := List.forall₂_cons_left_iff.mp h
    exact .cons hp (ih hrest)

/-- A chunk at the end of what was accepted. -/
theorem order_snoc {accepted : List Chunk} {ps : List ℕ} (hpairwise : ps.Pairwise (· < ·))
    (hbound : ∀ p ∈ ps, p < events.length) (hcarries : List.Forall₂ (Carries cfg events) accepted ps)
    (hc : Carries cfg (events ++ [data]) c events.length) :
    (ps ++ [events.length]).Pairwise (· < ·) ∧
      (∀ p ∈ ps ++ [events.length], p < (events ++ [data]).length) ∧
      List.Forall₂ (Carries cfg (events ++ [data])) (accepted ++ [c]) (ps ++ [events.length]) := by
  refine ⟨?_, fun p hp => ?_, ?_⟩
  · rw [List.pairwise_append]
    refine ⟨hpairwise, List.pairwise_singleton _ _, fun p hp q hq => ?_⟩
    rw [List.mem_singleton.mp hq]
    exact hbound p hp
  · rw [List.length_append]
    rcases List.mem_append.mp hp with hold | hnew
    · have := hbound p hold
      omega
    · rw [List.mem_singleton.mp hnew]
      simp
  · exact List.rel_append (hcarries.imp fun c p hc => hc.append [data]) (.cons hc .nil)

/-- A frame whose chunk is accepted. -/
theorem heard_accept (h : Heard cfg events st) (h₁ : Heard cfg (events ++ [data]) st₁)
    (hidentified : st.Identified cfg body st₁) (hwire : wireChunk cfg data = some c)
    (haccepted : st₁.Accepted cfg c st') (hmodel : st'.resolved_model = st₁.resolved_model)
    (hid : st'.completion_id = st₁.completion_id) (hcreated : st'.completion_created = st₁.completion_created) :
    Heard cfg (events ++ [data]) st' := by
  obtain ⟨-, -, hterminal₁, hdelivered₁, hfragments₁⟩ := hidentified.rest
  have hcompletion := h₁.completion
  rw [← hmodel, ← hid, ← hcreated] at hcompletion
  have hhere : ((events ++ [data])[events.length]?).bind (wireChunk cfg) = some c := by
    rw [List.getElem?_append_right le_rfl, Nat.sub_self]
    exact hwire
  obtain ⟨ps, hpairwise, hbound, hcarries, -⟩ := h.order
  cases haccepted with
  | @merges terminal hheld hfinish hnow hdelivered hjson hemitted hdone =>
    have hbefore : st₁.accepted = st.delivered ++ [terminal] := by
      unfold StreamState.accepted
      rw [hdelivered₁, hheld]
      rfl
    have hafter : st'.accepted = st.delivered ++ [{ terminal with usage := c.usage }] := by
      unfold StreamState.accepted
      rw [hdelivered, hdelivered₁, hnow]
      rfl
    obtain ⟨ps, hpairwise, hbound, hcarries, hafter₁⟩ := h₁.order
    refine ⟨⟨ps, hpairwise, hbound, ?_, ?_⟩, ?_, ?_, ?_, h₁.framed, ?_, hcompletion, fun hformat => ?_⟩
    · rw [hafter]
      rw [hbefore] at hcarries
      refine forall₂_replace_last hcarries fun p hp => ?_
      obtain ⟨c', hc', hsame, -⟩ := hp
      refine ⟨c', hc', ?_, fun hplain => absurd hplain (h₁.held terminal hheld)⟩
      rw [hsame]
    · intro p hp _
      exact hafter₁ p hp (hheld ▸ Option.some_ne_none _)
    · rw [hdelivered]
      exact h₁.plain
    · intro d hd
      rw [hnow] at hd
      cases hd
      exact h₁.held terminal hheld
    · intro hquiet
      rw [hemitted] at hquiet
      cases hquiet
    · rw [hdone]
      exact h₁.ended
    · rw [hjson, h₁.fragments hformat, hbefore, hafter]
      simp
  | delivers hnone hfinish hnow hdelivered hjson hemitted hdone =>
    have hbefore : st.accepted = st.delivered := by
      unfold StreamState.accepted
      rw [← hterminal₁, hnone]
      exact List.append_nil _
    have hafter : st'.accepted = st.delivered ++ [c] := by
      unfold StreamState.accepted
      rw [hdelivered, hdelivered₁, hnow]
      exact List.append_nil _
    have hc : Carries cfg (events ++ [data]) c events.length := ⟨c, hhere, rfl, fun _ => rfl⟩
    rw [hbefore] at hcarries
    obtain ⟨hpairwise', hbound', hcarries'⟩ := order_snoc hpairwise hbound hcarries hc
    refine ⟨⟨_, hpairwise', hbound', hafter ▸ hcarries', fun p _ hheld => absurd hnow hheld⟩, ?_, ?_, ?_,
      h₁.framed, ?_, hcompletion, fun hformat => ?_⟩
    · intro d hd
      rw [hdelivered, hdelivered₁] at hd
      rcases List.mem_append.mp hd with hold | hnew
      · exact h.plain d hold
      · rw [List.mem_singleton.mp hnew]
        exact hfinish
    · intro d hd
      rw [hnow] at hd
      cases hd
    · intro hquiet
      rw [hemitted] at hquiet
      cases hquiet
    · rw [hdone]
      exact h₁.ended
    · rw [hjson hformat, hfragments₁, h.fragments hformat, hbefore, hafter]
      simp
  | @holds usage hnone hfinish hnow hdelivered hjson hemitted hdone =>
    have hbefore : st.accepted = st.delivered := by
      unfold StreamState.accepted
      rw [← hterminal₁, hnone]
      exact List.append_nil _
    have hafter : st'.accepted = st.delivered ++ [{ c with usage }] := by
      unfold StreamState.accepted
      rw [hdelivered, hdelivered₁, hnow]
      rfl
    have hc : Carries cfg (events ++ [data]) { c with usage } events.length :=
      ⟨c, hhere, rfl, fun hplain => absurd hplain hfinish⟩
    rw [hbefore] at hcarries
    obtain ⟨hpairwise', hbound', hcarries'⟩ := order_snoc hpairwise hbound hcarries hc
    refine ⟨⟨_, hpairwise', hbound', hafter ▸ hcarries', fun p hp _ => ?_⟩, ?_, ?_, ?_,
      h₁.framed, ?_, hcompletion, fun hformat => ?_⟩
    · rw [List.getLast?_concat, Option.mem_some_iff] at hp
      subst hp
      exact .last cfg events data
    · rw [hdelivered]
      exact h₁.plain
    · intro d hd
      rw [hnow] at hd
      cases hd
      exact hfinish
    · intro hquiet
      rw [hemitted] at hquiet
      cases hquiet
    · rw [hdone]
      exact h₁.ended
    · rw [hjson hformat, hfragments₁, h.fragments hformat, hbefore, hafter]
      simp

/-- Every event keeps what the state says of the events. -/
theorem heard_step (h : Heard cfg events st) (hstep : st.step cfg data = .ok st') :
    Heard cfg (events ++ [data]) st' := by
  obtain ⟨hdone, ⟨rfl, rfl⟩ | ⟨hlast, body, st₁, hframe, hidentified, hchoice, hchunk⟩⟩ := step_ok hstep
  · exact heard_done h hdone
  · have h₁ := heard_frame h hdone hlast hframe hidentified hchoice
    rcases hchunk with ⟨-, rfl⟩ | ⟨c, hwire, haccepted, hmodel, hid, hcreated⟩
    · exact h₁
    · exact heard_accept h h₁ hidentified hwire haccepted hmodel hid hcreated

/-- Nothing was heard at the start. -/
theorem heard_start : Heard cfg [] StreamState.start := by
  refine ⟨⟨[], .nil, by simp, .nil, by simp⟩, ?_, ?_, fun _ => rfl, by simp, ?_, ⟨by simp, by simp,
    by simp⟩, fun _ => rfl⟩
  · intro c hc
    cases hc
  · intro c hc
    cases hc
  · exact List.not_mem_nil

/-- What an attempt reads is a part of the events, and all of them if none is refused. -/
theorem consume_heard {read events : List String} {e : Option ErrorCode} (h : Heard cfg read st)
    (hconsume : consume cfg st events = (st', e)) :
    ∃ more rest, events = more ++ rest ∧ Heard cfg (read ++ more) st' ∧ (e = none → rest = []) := by
  induction events generalizing st read with
  | nil =>
    cases hconsume
    exact ⟨[], [], rfl, by rw [List.append_nil]; exact h, fun _ => rfl⟩
  | cons data events ih =>
    unfold consume at hconsume
    cases hstep : st.step cfg data with
    | error x =>
      rw [hstep] at hconsume
      cases hconsume
      exact ⟨[], data :: events, rfl, by rw [List.append_nil]; exact h, fun hnone => by cases hnone⟩
    | ok st₁ =>
      rw [hstep] at hconsume
      obtain ⟨more, rest, rfl, hheard, hrest⟩ := ih (heard_step h hstep) hconsume
      refine ⟨data :: more, rest, rfl, ?_, hrest⟩
      rw [List.append_assoc] at hheard
      exact hheard

end Runs

/-! ## What a consumer gets -/

/-- The content is in the format that was asked for. -/
def StreamConfig.FormatHolds (cfg : StreamConfig) (content : String) : Prop :=
  match cfg.format with
  | .text => True
  | .json_object => ∃ members, cfg.loads content = some (.obj members)
  | .json_schema schema => ∃ decoded, cfg.loads content = some decoded ∧
    cfg.validate_instance schema decoded = true

/-- The response is a whole completion, and the chunk at a position ends it: the response ends and is
closed, its last event says so, no frame after the chunk has a choice, the frames name one completion,
and what was delivered is in the format. -/
structure Completed (cfg : StreamConfig) (r : Response) (delivered : List Chunk) (p : ℕ) : Prop where
  closed : r.ending = none ∧ r.closing = none
  ended : ∃ frames, r.events = frames ++ ["[DONE]"] ∧ "[DONE]" ∉ frames ∧ p < frames.length
  alone : NoChoiceAfter cfg r.events p
  completion : ∃ model id created, OneCompletion cfg r.events model id created
  format : cfg.FormatHolds (String.join (delivered.map Chunk.delta))

/-- The chunks are those of events of one response, in their order; a chunk that ends the completion is
the last one, and then the response is whole. -/
structure FromResponse (cfg : StreamConfig) (r : Response) (delivered : List Chunk) : Prop where
  order : ∃ ps : List ℕ, ps.Pairwise (· < ·) ∧ List.Forall₂ (Carries cfg r.events) delivered ps ∧
    ∀ c ∈ delivered.getLast?, c.finish_reason ≠ none → ∃ p ∈ ps.getLast?, Completed cfg r delivered p
  plain : ∀ c ∈ delivered.dropLast, c.finish_reason = none

section Delivered

variable {cfg : StreamConfig} {st : StreamState}

variable {terminal : Chunk} {r : Response} {delivered : List Chunk} {ps : List ℕ}

/-- What was checked at the end of the events. -/
theorem finish_ok (h : st.finish cfg = .ok terminal) :
    st.saw_done = true ∧ st.terminal_chunk = some terminal ∧
      validateResponseFormat cfg (String.join st.json_fragments) = .ok () := by
  unfold StreamState.finish at h
  rw [except_bind_ok] at h
  obtain ⟨_, hdone, h⟩ := h
  rw [require_ok] at hdone
  cases hterminal : st.terminal_chunk with
  | none =>
    rw [hterminal] at h
    cases h
  | some held =>
    simp only [hterminal, except_bind_ok] at h
    obtain ⟨_, -, _, -, _, -, _, -, _, -, _, -, _, hformat, hreturn⟩ := h
    cases hreturn
    exact ⟨hdone, rfl, hformat⟩

/-- A content that was validated is in the format. -/
theorem formatHolds_of_ok {content : String} (h : validateResponseFormat cfg content = .ok ()) :
    cfg.FormatHolds content := by
  unfold validateResponseFormat at h
  unfold StreamConfig.FormatHolds
  cases hformat : cfg.format with
  | text => exact trivial
  | json_object =>
    simp only [hformat, except_bind_ok] at h ⊢
    obtain ⟨_, -, h⟩ := h
    cases hloads : cfg.loads content with
    | none =>
      rw [hloads] at h
      cases h
    | some decoded =>
      simp only [hloads, require_ok] at h
      cases decoded with
      | obj members => exact ⟨members, rfl⟩
      | _ => cases h
  | json_schema schema =>
    simp only [hformat, except_bind_ok] at h ⊢
    obtain ⟨_, -, h⟩ := h
    cases hloads : cfg.loads content with
    | none =>
      rw [hloads] at h
      cases h
    | some decoded =>
      simp only [hloads, require_ok, Bool.and_eq_true] at h
      exact ⟨decoded, rfl, h.2⟩

/-- The chunks of a list have no reason to finish. -/
theorem fromResponse_of_plain (hpairwise : ps.Pairwise (· < ·))
    (hcarries : List.Forall₂ (Carries cfg r.events) delivered ps) (hplain : ∀ c ∈ delivered, c.finish_reason = none) :
    FromResponse cfg r delivered := by
  refine ⟨⟨ps, hpairwise, hcarries, fun c hc hfinish => ?_⟩, fun c hc => ?_⟩
  · exact absurd (hplain c (List.mem_of_mem_getLast? hc)) hfinish
  · exact hplain c (List.mem_of_mem_dropLast hc)

/-- What was delivered of a response, and what is held back. -/
theorem heard_delivered {more rest : List String} (h : Heard cfg more st) (hevents : r.events = more ++ rest) :
    FromResponse cfg r st.delivered ∧ (st.emitted = false → st.delivered = []) := by
  obtain ⟨ps, hpairwise, -, hcarries, -⟩ := h.order
  constructor
  · unfold StreamState.accepted at hcarries
    have hfirst := List.forall₂_take st.delivered.length hcarries
    rw [List.take_left] at hfirst
    refine fromResponse_of_plain (hpairwise.sublist (List.take_sublist st.delivered.length _)) ?_ h.plain
    rw [hevents]
    exact hfirst.imp fun c p hc => hc.append rest
  · intro hquiet
    have hnone := h.quiet hquiet
    unfold StreamState.accepted at hnone
    exact (List.append_eq_nil_iff.mp hnone).1

/-- Every position is that of a chunk. -/
theorem carries_of_mem {events : List String} {p : ℕ} (h : List.Forall₂ (Carries cfg events) delivered ps)
    (hp : p ∈ ps) :
    ∃ c, Carries cfg events c p := by
  induction h with
  | nil => cases hp
  | cons hc hrest ih =>
    rcases List.mem_cons.mp hp with rfl | hmem
    · exact ⟨_, hc⟩
    · exact ih hmem

/-- The events of a response that is whole, with the chunk that ends it. -/
theorem heard_completed (h : Heard cfg r.events st) (hclosed : r.ending = none ∧ r.closing = none)
    (hfinish : st.finish cfg = .ok terminal) :
    FromResponse cfg r (st.delivered ++ [terminal]) ∧ terminal.finish_reason ≠ none := by
  obtain ⟨hdone, hterminal, hformat⟩ := finish_ok hfinish
  have haccepted : st.accepted = st.delivered ++ [terminal] := by
    unfold StreamState.accepted
    rw [hterminal]
    rfl
  have hended := h.ended
  rw [hdone, if_pos rfl] at hended
  obtain ⟨frames, hframes, hnone⟩ := hended
  obtain ⟨ps, hpairwise, hbound, hcarries, hafter⟩ := h.order
  rw [haccepted] at hcarries
  have hheld := h.held terminal hterminal
  refine ⟨⟨⟨ps, hpairwise, hcarries, fun c _ _ => ?_⟩, ?_⟩, hheld⟩
  · have hlength := hcarries.length_eq
    rw [List.length_append, List.length_singleton] at hlength
    obtain ⟨p, hp⟩ : ∃ p, ps.getLast? = some p := by
      cases hlast : ps.getLast? with
      | none =>
        rw [List.getLast?_eq_none_iff.mp hlast] at hlength
        cases hlength
      | some p => exact ⟨p, rfl⟩
    refine ⟨p, hp, hclosed, ⟨frames, hframes, hnone, ?_⟩, ?_, ⟨_, _, _, h.completion⟩, ?_⟩
    · -- The event at the position has a chunk, so it is not the last one.
      have hlt := hbound p (List.mem_of_getLast? hp)
      rw [hframes, List.length_append, List.length_singleton] at hlt
      by_contra hge
      have heq : p = frames.length := by omega
      obtain ⟨c', c'', hc', -⟩ := carries_of_mem hcarries (List.mem_of_getLast? hp)
      rw [hframes, heq, List.getElem?_concat_length, Option.bind_some] at hc'
      cases hc'
    · exact hafter p hp (hterminal ▸ Option.some_ne_none _)
    · by_cases hjson : cfg.format.isJson = true
      · rw [← haccepted, ← h.fragments hjson]
        exact formatHolds_of_ok hformat
      · unfold StreamConfig.FormatHolds
        cases hcfg : cfg.format with
        | text => exact trivial
        | json_object => simp [hcfg, ResponseFormat.isJson] at hjson
        | json_schema schema => simp [hcfg, ResponseFormat.isJson] at hjson
  · intro c hc
    rw [List.dropLast_concat] at hc
    exact h.plain c hc

/-- What an attempt delivers. -/
theorem attempt_delivers {exchange : Exchange} {result : Except ErrorCode Chunk}
    (h : attemptStream cfg exchange = (st, result)) :
    (∀ terminal, result = .ok terminal → ∃ r, exchange = .ok r ∧
      FromResponse cfg r (st.delivered ++ [terminal]) ∧ terminal.finish_reason ≠ none) ∧
    (st.delivered = [] ∨ ∃ r, exchange = .ok r ∧ FromResponse cfg r st.delivered) ∧
    (∀ c ∈ st.delivered, c.finish_reason = none) ∧ (st.emitted = false → st.delivered = []) := by
  have hstart : StreamState.start.delivered = [] := rfl
  cases exchange with
  | error failure =>
    cases h
    refine ⟨fun terminal hok => ?_, .inl hstart, by simp [hstart], fun _ => hstart⟩
    cases hok
  | ok r =>
    obtain ⟨hstate, hresult⟩ : st = (r.read cfg).1 ∧ (∀ terminal, result = .ok terminal →
        r.closing = none ∧ (r.read cfg).2 = .ok terminal) := by
      unfold attemptStream at h
      cases hclosing : r.closing with
      | none =>
        simp only [hclosing] at h
        rw [h]
        exact ⟨rfl, fun terminal hok => ⟨rfl, hok⟩⟩
      | some failure =>
        simp only [hclosing] at h
        cases h
        exact ⟨rfl, fun terminal hok => by cases hok⟩
    unfold Response.read at hstate hresult
    by_cases hstatus : 200 ≤ r.status ∧ r.status ≤ 299
    · rw [if_pos hstatus] at hstate
      simp only [if_pos hstatus] at hresult
      obtain ⟨more, rest, hevents, hheard, hrest⟩ := consume_heard heard_start
        (show consume cfg StreamState.start r.events = (st, _) from Prod.ext hstate.symm rfl)
      rw [List.nil_append] at hheard
      obtain ⟨hfrom, hquiet⟩ := heard_delivered hheard hevents
      refine ⟨fun terminal hok => ?_, .inr ⟨r, rfl, hfrom⟩, hheard.plain, hquiet⟩
      obtain ⟨hclosing, hread⟩ := hresult terminal hok
      cases hrefused : (consume cfg StreamState.start r.events).2 with
      | some e =>
        rw [hrefused] at hread
        cases hread
      | none =>
        cases hending : r.ending with
        | some failure =>
          rw [hrefused, hending] at hread
          cases hread
        | none =>
          have hst : (consume cfg StreamState.start r.events).1 = st := hstate.symm
          simp only [hrefused, hending] at hread
          rw [hst] at hread
          rw [hrest hrefused, List.append_nil] at hevents
          rw [← hevents] at hheard
          exact ⟨r, rfl, heard_completed hheard ⟨hending, hclosing⟩ hread⟩
    · rw [if_neg hstatus] at hstate
      simp only [if_neg hstatus] at hresult
      subst hstate
      refine ⟨fun terminal hok => ?_, .inl hstart, by simp [hstart], fun _ => hstart⟩
      cases (hresult terminal hok).2

/-- What the attempts from one on deliver. -/
theorem streamFrom_delivers (cfg : StreamConfig) (exchanges : ℕ → Exchange)
    (sleeps : ℕ → Option ErrorCode) (remaining attempt : ℕ) :
    ((streamFrom cfg exchanges sleeps remaining attempt).1 = [] ∨
      ∃ k r, attempt ≤ k ∧ k < attempt + remaining ∧ exchanges k = .ok r ∧
        FromResponse cfg r (streamFrom cfg exchanges sleeps remaining attempt).1) ∧
    ((∃ c ∈ (streamFrom cfg exchanges sleeps remaining attempt).1, c.finish_reason ≠ none) ↔
      (streamFrom cfg exchanges sleeps remaining attempt).2 = none) := by
  induction remaining generalizing attempt with
  | zero =>
    refine ⟨.inl rfl, ?_, fun h => by cases h⟩
    rintro ⟨c, hc, -⟩
    cases hc
  | succ remaining ih =>
    unfold streamFrom
    cases hattempt : attemptStream cfg (exchanges attempt) with
    | mk st result =>
      obtain ⟨hok, hdelivered, hplain, hquiet⟩ := attempt_delivers hattempt
      have hnone : ∀ e : ErrorCode, (∃ c ∈ st.delivered, c.finish_reason ≠ none) ↔ some e = none := by
        intro e
        refine ⟨?_, fun h => by cases h⟩
        rintro ⟨c, hc, hfinish⟩
        exact absurd (hplain c hc) hfinish
      have hhere : st.delivered = [] ∨ ∃ k r, attempt ≤ k ∧ k < attempt + (remaining + 1) ∧
          exchanges k = .ok r ∧ FromResponse cfg r st.delivered := by
        refine hdelivered.imp id ?_
        rintro ⟨r, hr, hfrom⟩
        exact ⟨attempt, r, le_rfl, by omega, hr, hfrom⟩
      cases result with
      | ok terminal =>
        obtain ⟨r, hr, hfrom, hfinish⟩ := hok terminal rfl
        refine ⟨.inr ⟨attempt, r, le_rfl, by omega, hr, hfrom⟩, fun _ => rfl, fun _ => ?_⟩
        exact ⟨terminal, List.mem_append_right _ List.mem_cons_self, hfinish⟩
      | error e =>
        simp only
        by_cases hstop : (st.emitted || !e.retryable || remaining == 0) = true
        · rw [if_pos hstop]
          exact ⟨hhere, hnone e⟩
        · rw [if_neg hstop]
          cases sleeps attempt with
          | some e' => exact ⟨hhere, hnone e'⟩
          | none =>
            -- Nothing was delivered, so what comes is what the next attempts deliver.
            have hempty : st.delivered = [] := by
              refine hquiet ?_
              simp only [Bool.or_eq_true, not_or, Bool.not_eq_true] at hstop
              exact hstop.1.1
            simp only [hempty, List.nil_append]
            obtain ⟨hfrom, hend⟩ := ih (attempt + 1)
            refine ⟨hfrom.imp id ?_, hend⟩
            rintro ⟨k, r, hk, hlt, hr, hfrom⟩
            exact ⟨k, r, by omega, by omega, hr, hfrom⟩

end Delivered

/-- **A stream never replays output.** Whatever the transport does in each of the attempts, the chunks
that a consumer gets are those of events of one response, in the order on the wire and each once. At
most the last one ends the completion, and then the response is whole; the iterator ends without an
error exactly if one does. -/
theorem stream_never_replays (cfg : StreamConfig) (max_attempts : ℕ) (exchanges : ℕ → Exchange)
    (sleeps : ℕ → Option ErrorCode) :
    ((chatCompletionStream cfg max_attempts exchanges sleeps).1 = [] ∨
      ∃ attempt r, 1 ≤ attempt ∧ attempt ≤ max_attempts ∧ exchanges attempt = .ok r ∧
        FromResponse cfg r (chatCompletionStream cfg max_attempts exchanges sleeps).1) ∧
    ((∃ c ∈ (chatCompletionStream cfg max_attempts exchanges sleeps).1, c.finish_reason ≠ none) ↔
      (chatCompletionStream cfg max_attempts exchanges sleeps).2 = none) := by
  obtain ⟨hfrom, hend⟩ := streamFrom_delivers cfg exchanges sleeps max_attempts 1
  refine ⟨hfrom.imp id ?_, hend⟩
  rintro ⟨k, r, hk, hlt, hr, hfrom⟩
  exact ⟨k, r, hk, by omega, hr, hfrom⟩

end RickIntelligence.Providers
