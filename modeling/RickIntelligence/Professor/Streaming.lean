import RickIntelligence.Professor.Approval

/-!
# Streamed and plain answers

A provider may hand over a completion at once or cut into chunks. The stream checks its budgets chunk by
chunk (`gather`), a plain answer is checked once; both end in the one contract of completions. Whether a
chunk fits is a matter of the characters so far (`Fits`), so that the stream goes through exactly when the
whole text fits, and then both are given the same text (`stream_agrees`).
-/

namespace RickIntelligence.Professor

open Lib

variable {κ : Type}

/-! ## Chunks of a completion -/

/-- The last chunk ends the completion as it should, and no chunk before it ends it. -/
def endsWithStop : List Chunk → Prop
  | [] => False
  | [chunk] => chunk.finish_reason = some .stop
  | chunk :: rest => chunk.finish_reason = none ∧ endsWithStop rest

/-- The deltas that a stream yields: those that are not empty. -/
def deltasOf (chunks : List Chunk) : List String := (chunks.map (·.delta)).filter (· != "")

/-- The usage that was reported last. -/
def usageOf (usage : Option ℕ) (chunks : List Chunk) : Option ℕ :=
  chunks.foldl (fun u chunk => chunk.usage <|> u) usage

/-- Some chunks are a completion cut into pieces, without calls of tools. -/
structure Cuts (completion : Completion) (chunks : List Chunk) : Prop where
  content : String.join (chunks.map (·.delta)) = completion.content
  model : ∀ chunk ∈ chunks, chunk.model = completion.model
  tools : ∀ chunk ∈ chunks, chunk.tool_indexes = []
  usage : ∀ chunk ∈ chunks, chunk.usage = none ∨ chunk.usage = completion.usage
  reported : completion.usage ≠ none → ∃ chunk ∈ chunks, chunk.usage = completion.usage
  stop : endsWithStop chunks

/-- The number of the characters of a text in pieces. -/
theorem length_join (parts : List String) :
    (String.join parts).length = (parts.map String.length).sum := by
  induction parts with
  | nil => simp
  | cons a l ih => simp [ih]

/-- Empty pieces add nothing to a text. -/
theorem join_filter (parts : List String) :
    String.join (parts.filter (· != "")) = String.join parts := by
  induction parts with
  | nil => rfl
  | cons a l ih =>
    rw [List.filter_cons]
    split
    · simp [ih]
    · next h =>
      have ha : a = "" := by simpa using h
      simp [ih, ha]

/-! ## One chunk -/

section Gather

variable {limits : ProfessorLimits κ} {prompt_tokens : ℕ} {g g' : Gathered} {chunk : Chunk}
  {chunks : List Chunk} {stage : Stage}

/-- A chunk fits into the budgets of a stream. -/
def Fits (limits : ProfessorLimits κ) (prompt_tokens content_chars : ℕ) (chunk : Chunk) : Prop :=
  (∀ total, chunk.usage = some total → total ≤ limits.max_tokens) ∧
    (chunk.delta ≠ "" → content_chars + chunk.delta.length ≤ limits.max_answer_chars + 8 * 140 ∧
      prompt_tokens + (content_chars + chunk.delta.length + 3) / 4 ≤ limits.max_tokens)

/-- What is gathered after one more chunk without calls of tools. -/
def Gathered.advance (g : Gathered) (chunk : Chunk) : Gathered where
  content_parts := if chunk.delta = "" then g.content_parts else g.content_parts ++ [chunk.delta]
  model := chunk.model
  finish_reason := chunk.finish_reason.getD g.finish_reason
  terminal_seen := g.terminal_seen || chunk.finish_reason.isSome
  usage := chunk.usage <|> g.usage
  stream_tool_indexes := g.stream_tool_indexes
  tool_calls := g.tool_calls
  content_chars := g.content_chars + chunk.delta.length

/-- A chunk without calls of tools is taken exactly when it fits. -/
theorem takeChunk_ok (htools : chunk.tool_indexes = []) (hopen : g.terminal_seen = false) :
    takeChunk limits prompt_tokens g chunk = .ok g' ↔
      Fits limits prompt_tokens g.content_chars chunk ∧ g' = g.advance chunk := by
  unfold takeChunk
  simp only [htools, hopen, List.filter_nil, List.dedup_nil, ne_eq, not_true_eq_false, false_and, if_false,
    Bool.false_eq_true, List.append_nil, List.length_nil, Nat.add_zero]
  unfold Fits
  by_cases h1 : chunk.usage.any (fun total => decide (limits.max_tokens < total)) = true
  · rw [if_pos h1]
    obtain ⟨total, ht, hlt⟩ := (Option.any_eq_true _ _).mp h1
    refine iff_of_false (by simp) ?_
    rintro ⟨⟨hle, -⟩, -⟩
    have := hle total ht
    simp at hlt
    omega
  rw [if_neg h1]
  have hle : ∀ total, chunk.usage = some total → total ≤ limits.max_tokens := by
    intro total ht
    rw [ht] at h1
    simpa using h1
  by_cases h2 : ¬chunk.delta = "" ∧ limits.max_answer_chars + 8 * 140 < g.content_chars + chunk.delta.length
  · rw [if_pos h2]
    refine iff_of_false (by simp) ?_
    rintro ⟨⟨-, hfit⟩, -⟩
    have := (hfit h2.1).1
    omega
  rw [if_neg h2]
  by_cases h3 : ¬chunk.delta = "" ∧
      limits.max_tokens < prompt_tokens + (g.content_chars + chunk.delta.length + 3) / 4
  · rw [if_pos h3]
    refine iff_of_false (by simp) ?_
    rintro ⟨⟨-, hfit⟩, -⟩
    have := (hfit h3.1).2
    omega
  rw [if_neg h3, Except.ok.injEq]
  constructor
  · rintro rfl
    refine ⟨⟨hle, fun hd => ⟨?_, ?_⟩⟩, by simp [Gathered.advance, hopen]⟩
    · by_contra hlt
      exact h2 ⟨hd, by omega⟩
    · by_contra hlt
      exact h3 ⟨hd, by omega⟩
  · rintro ⟨-, rfl⟩
    simp [Gathered.advance, hopen]

/-! ## All chunks -/

/-- All chunks fit, one after the other. -/
def AllFit (limits : ProfessorLimits κ) (prompt_tokens : ℕ) : ℕ → List Chunk → Prop
  | _, [] => True
  | content_chars, chunk :: rest => Fits limits prompt_tokens content_chars chunk ∧
    AllFit limits prompt_tokens (content_chars + chunk.delta.length) rest

/-- What is gathered after some chunks that fit. -/
def Gathered.after (g : Gathered) (chunks : List Chunk) : Gathered := chunks.foldl Gathered.advance g

/-- The conditions under which a stream takes every chunk, as long as it is not over. -/
structure Plain (chunks : List Chunk) : Prop where
  valid : ∀ chunk ∈ chunks, chunk.valid = true
  tools : ∀ chunk ∈ chunks, chunk.tool_indexes = []
  stop : endsWithStop chunks

/-- The first of several chunks does not end the completion, and the others go on. -/
theorem Plain.tail {next : Chunk} {rest : List Chunk} (h : Plain (chunk :: next :: rest)) :
    chunk.finish_reason = none ∧ Plain (next :: rest) :=
  ⟨h.stop.1, fun c hc => h.valid c (List.mem_cons_of_mem _ hc),
    fun c hc => h.tools c (List.mem_cons_of_mem _ hc), h.stop.2⟩

/-- **A stream either takes all chunks, and they fit, or it yields some of the first deltas and fails.** -/
theorem gather_plain (limits : ProfessorLimits κ) (prompt_tokens : ℕ) (hplain : Plain chunks)
    (hopen : g.terminal_seen = false) :
    (AllFit limits prompt_tokens g.content_chars chunks ∧
      gather limits prompt_tokens g (chunks.map some) = (g.after chunks, none)) ∨
    (¬ AllFit limits prompt_tokens g.content_chars chunks ∧ ∃ g' stage shown,
      gather limits prompt_tokens g (chunks.map some) = (g', some stage) ∧
      shown <+: deltasOf chunks ∧ g'.content_parts = g.content_parts ++ shown) := by
  induction chunks generalizing g with
  | nil => exact hplain.stop.elim
  | cons chunk rest ih =>
    have hvalid := hplain.valid chunk List.mem_cons_self
    have htools := hplain.tools chunk List.mem_cons_self
    have hfilter : (some chunk).filter (·.valid) = some chunk := by simp [Option.filter, hvalid]
    rw [List.map_cons]
    unfold gather
    rw [hfilter]
    by_cases hfit : Fits limits prompt_tokens g.content_chars chunk
    · have htake : takeChunk limits prompt_tokens g chunk = .ok (g.advance chunk) :=
        (takeChunk_ok htools hopen).mpr ⟨hfit, rfl⟩
      simp only [htake]
      cases rest with
      | nil => exact .inl ⟨⟨hfit, trivial⟩, rfl⟩
      | cons next rest =>
        obtain ⟨hnone, hrest⟩ := hplain.tail
        have hopen' : (g.advance chunk).terminal_seen = false := by simp [Gathered.advance, hopen, hnone]
        rcases ih hrest hopen' with ⟨hall, hgather⟩ | ⟨hnot, g', stage, shown, hgather, hshown, hparts⟩
        · exact .inl ⟨⟨hfit, hall⟩, hgather⟩
        · refine .inr ⟨fun h => hnot h.2, g', stage, ?_⟩
          by_cases hd : chunk.delta = ""
          · refine ⟨shown, hgather, ?_, ?_⟩
            · simpa [deltasOf, hd] using hshown
            · rw [hparts, Gathered.advance, if_pos hd]
          · refine ⟨chunk.delta :: shown, hgather, ?_, ?_⟩
            · have hcons : deltasOf (chunk :: next :: rest) = chunk.delta :: deltasOf (next :: rest) := by
                simp [deltasOf, hd]
              rw [hcons]
              exact List.cons_prefix_cons.mpr ⟨rfl, hshown⟩
            · rw [hparts, Gathered.advance, if_neg hd]
              simp
    · cases htake : takeChunk limits prompt_tokens g chunk with
      | ok g'' => exact absurd ((takeChunk_ok htools hopen).mp htake).1 hfit
      | error stage => exact .inr ⟨fun h => hfit h.1, g, stage, [], by simp only [htake], List.nil_prefix, by simp⟩

/-- The parts after some chunks that fit. -/
theorem after_parts (g : Gathered) (chunks : List Chunk) :
    (g.after chunks).content_parts = g.content_parts ++ deltasOf chunks := by
  unfold Gathered.after
  induction chunks generalizing g with
  | nil => simp [deltasOf]
  | cons chunk rest ih =>
    rw [List.foldl_cons, ih]
    by_cases hd : chunk.delta = ""
    · simp [Gathered.advance, deltasOf, hd]
    · simp [Gathered.advance, deltasOf, hd]

/-- The usage after some chunks that fit. -/
theorem after_usage (g : Gathered) (chunks : List Chunk) :
    (g.after chunks).usage = usageOf g.usage chunks := by
  unfold Gathered.after usageOf
  induction chunks generalizing g with
  | nil => rfl
  | cons chunk rest ih => exact ih (g.advance chunk)

/-- No chunk without calls of tools adds to them. -/
theorem after_tools (g : Gathered) (chunks : List Chunk) :
    (g.after chunks).stream_tool_indexes = g.stream_tool_indexes := by
  unfold Gathered.after
  induction chunks generalizing g with
  | nil => rfl
  | cons chunk rest ih => exact ih (g.advance chunk)

/-- The model and the end of a completion after its chunks. -/
theorem after_end (g : Gathered) {model : String} (hmodel : ∀ chunk ∈ chunks, chunk.model = model)
    (hstop : endsWithStop chunks) :
    (g.after chunks).model = model ∧ (g.after chunks).finish_reason = .stop := by
  unfold Gathered.after
  induction chunks generalizing g with
  | nil => exact hstop.elim
  | cons chunk rest ih =>
    cases rest with
    | nil =>
      have hreason : chunk.finish_reason = some .stop := hstop
      exact ⟨hmodel chunk List.mem_cons_self, by simp [Gathered.advance, hreason]⟩
    | cons next rest =>
      exact ih (g.advance chunk) (fun c hc => hmodel c (List.mem_cons_of_mem _ hc)) hstop.2

variable {usage : Option ℕ} {content_chars : ℕ}

/-- The usage after chunks that report one usage or none. -/
theorem usageOf_cases (u : Option ℕ) (hall : ∀ chunk ∈ chunks, chunk.usage = none ∨ chunk.usage = usage) :
    usageOf u chunks = usage ∨ usageOf u chunks = u ∧ ∀ chunk ∈ chunks, chunk.usage = none := by
  induction chunks generalizing u with
  | nil => exact .inr ⟨rfl, by simp⟩
  | cons chunk rest ih =>
    rcases ih (chunk.usage <|> u) fun c hc => hall c (List.mem_cons_of_mem _ hc) with h | ⟨h, hnone⟩
    · exact .inl h
    · cases hu : chunk.usage with
      | none =>
        rw [hu] at h
        refine .inr ⟨?_, by simpa [hu] using hnone⟩
        show usageOf (chunk.usage <|> u) rest = u
        rw [hu]
        exact h
      | some total =>
        rw [hu] at h
        have husage : usage = some total := by
          rcases hall chunk List.mem_cons_self with h' | h'
          · rw [hu] at h'
            cases h'
          · rw [← h', hu]
        refine .inl ?_
        show usageOf (chunk.usage <|> u) rest = usage
        rw [hu, husage]
        exact h

/-- The usage of a completion in chunks is the one that was reported. -/
theorem usageOf_reported (hall : ∀ chunk ∈ chunks, chunk.usage = none ∨ chunk.usage = usage)
    (hreported : usage ≠ none → ∃ chunk ∈ chunks, chunk.usage = usage) : usageOf none chunks = usage := by
  rcases usageOf_cases none hall with h | ⟨h, hnone⟩
  · exact h
  · rw [h]
    by_contra hne
    obtain ⟨chunk, hmem, hchunk⟩ := hreported (Ne.symm hne)
    rw [hnone chunk hmem] at hchunk
    exact hne hchunk

/-- Chunks fit when the whole of them does. -/
theorem allFit_of_total (husage : ∀ chunk ∈ chunks, ∀ total, chunk.usage = some total → total ≤ limits.max_tokens)
    (hchars : content_chars + (chunks.map (·.delta.length)).sum ≤ limits.max_answer_chars + 8 * 140)
    (htokens : prompt_tokens + (content_chars + (chunks.map (·.delta.length)).sum + 3) / 4 ≤
      limits.max_tokens) : AllFit limits prompt_tokens content_chars chunks := by
  induction chunks generalizing content_chars with
  | nil => trivial
  | cons chunk rest ih =>
    rw [List.map_cons, List.sum_cons] at hchars htokens
    refine ⟨⟨husage chunk List.mem_cons_self, fun _ => ⟨by omega, by omega⟩⟩, ?_⟩
    exact ih (fun c hc => husage c (List.mem_cons_of_mem _ hc)) (by omega) (by omega)

/-- The tokens of chunks that fit are within the budget, as is the usage that they report. -/
theorem total_of_allFit (h : AllFit limits prompt_tokens content_chars chunks) :
    (∀ chunk ∈ chunks, ∀ total, chunk.usage = some total → total ≤ limits.max_tokens) ∧
      (deltasOf chunks ≠ [] → prompt_tokens +
        (content_chars + (chunks.map (·.delta.length)).sum + 3) / 4 ≤ limits.max_tokens) := by
  induction chunks generalizing content_chars with
  | nil => simp [deltasOf]
  | cons chunk rest ih =>
    obtain ⟨husage, htokens⟩ := ih h.2
    refine ⟨?_, ?_⟩
    · intro c hc
      rcases List.mem_cons.mp hc with rfl | hc
      · exact h.1.1
      · exact husage c hc
    · intro hne
      rw [List.map_cons, List.sum_cons]
      by_cases hrest : deltasOf rest = []
      · -- The last delta that is not empty is the first one here.
        have hd : chunk.delta ≠ "" := by
          intro hd
          apply hne
          simpa [deltasOf, hd] using hrest
        have hzero : (rest.map (·.delta.length)).sum = 0 := by
          have hempty : ∀ c ∈ rest, c.delta = "" := by simpa [deltasOf] using hrest
          rw [List.sum_eq_zero]
          intro n hn
          obtain ⟨c, hc, rfl⟩ := List.mem_map.mp hn
          simp [hempty c hc]
        have := (h.1.2 hd).2
        rw [hzero, Nat.add_zero]
        omega
      · have := htokens hrest
        omega

end Gather

/-! ## Responses that can be built -/

section Build

variable {limits : ProfessorLimits κ} {request : ProfessorRequest} {completion : Completion}
  {messages : List ProviderMessage} {evidence : List (TrustedEvidence κ)} {metadata : Json.Members}

/-- One more member. -/
theorem length_putMember_le (name : String) (value : Json) (metadata : Json.Members) :
    (putMember name value metadata).length ≤ metadata.length + 1 := by
  unfold putMember
  split
  · simp
  · simp

/-- Taking a decision back writes at most two members. -/
theorem length_retract_le (reason : String) (metadata : Json.Members) :
    (retract reason metadata).length ≤ metadata.length + 2 := by
  unfold retract
  split
  · have h1 := length_putMember_le "decision_action" (.str "ABSTAIN") metadata
    have h2 := length_putMember_le "decision_reason" (.str reason)
      (putMember "decision_action" (.str "ABSTAIN") metadata)
    omega
  · omega

/-- A response keeps no more facts than there are. -/
theorem length_retrievalDecisionMetadata_le (result : Retrieved) :
    (retrievalDecisionMetadata result).length ≤ 24 := by
  unfold retrievalDecisionMetadata
  split
  · split
    · exact le_trans (List.length_filterMap_le _ _) (by decide)
    · simp
  · simp

/-- A slice of a text that is not empty is not empty. -/
theorem lengthIn_slice {n high : ℕ} {text : String} (hn : 1 ≤ n) (hlow : 1 ≤ text.length)
    (hhigh : text.length ≤ high) : lengthIn 1 high (slice n text) = true := by
  have hlen : text.toList.length = text.length := String.length_toList
  rw [lengthIn, decide_eq_true_iff, slice, String.length_ofList, List.length_take, hlen]
  omega

/-- A response is refused if its evidence is. -/
theorem respond_refused (h : evidenceAccepted evidence = false) (status : EvidenceStatus)
    (answer : String) (citations : List Citation) :
    respond request status answer citations evidence metadata = none := by
  simp [respond, h]

/-- A response is built if its evidence is accepted, and its answer and its metadata are. -/
theorem respond_built (h : evidenceAccepted evidence = true) {status : EvidenceStatus} {answer : String}
    {citations : List Citation} (hanswer : lengthIn 1 1000000 answer = true)
    (hmetadata : metadata.length ≤ 32) :
    ∃ r, respond request status answer citations evidence metadata = some r := by
  simp [respond, h, hanswer, hmetadata]

/-- A failed response is built if its evidence is accepted. -/
theorem failed_built (limits : ProfessorLimits κ) (request : ProfessorRequest)
    (h : evidenceAccepted evidence = true) (hmetadata : metadata.length ≤ 24) (stage : Stage) :
    ∃ r, failed limits request stage evidence metadata = some r := by
  have h1 := length_retract_le "generation_not_completed" metadata
  have h2 := length_putMember_le "failure_stage" (.str stage.text)
    (retract "generation_not_completed" metadata)
  have h3 := length_putMember_le "evidence_count" (countOf evidence)
    (putMember "failure_stage" (.str stage.text) (retract "generation_not_completed" metadata))
  refine respond_built h (lengthIn_slice limits.positive.2.2.2.2.1 ?_ ?_) (by omega)
  · decide
  · decide

/-- The answer of a completion can be carried by a response. -/
theorem lengthIn_cleanAnswer {content : String} (hcontent : content.length ≤ maxContentChars) :
    lengthIn 1 1000000 (cleanAnswer limits (stripList content.toList)) = true := by
  rw [cleanAnswer_take]
  split
  · decide
  · next hne =>
    have hfull := length_fullAnswer_le content
    have hplain : (plainAnswer content).length ≤ content.toList.length :=
      le_trans (length_stripList_le _) (Block.length_sub_le _)
    have hlen : content.toList.length = content.length := String.length_toList
    have hpos := List.length_pos_iff.mpr hne
    have hmax : maxContentChars = 1000000 := rfl
    rw [lengthIn, decide_eq_true_iff, String.length_ofList]
    rw [List.length_take] at hpos ⊢
    omega

/-- The contract of completions gives a response exactly when the evidence is accepted. -/
theorem completionResponse_built (limits : ProfessorLimits κ) (request : ProfessorRequest)
    (messages : List ProviderMessage) (h : evidenceAccepted evidence = true)
    (hmetadata : metadata.length ≤ 24)
    (hcontent : completion.content.length ≤ maxContentChars) (pending : Bool) :
    ∃ r, completionResponse limits request completion messages evidence metadata pending = some r := by
  unfold completionResponse
  split
  · exact failed_built limits request h hmetadata _
  split
  · exact failed_built limits request h hmetadata _
  split
  · exact failed_built limits request h hmetadata _
  cases hc : citationsOf limits completion.content evidence with
  | none =>
    have h1 := length_retract_le "citation_invalid" metadata
    have h2 := length_putMember_le "evidence_count" (countOf evidence)
      (retract "citation_invalid" metadata)
    refine respond_built h ?_ (by omega)
    rw [if_neg (by decide)]
    exact lengthIn_slice limits.positive.2.2.2.2.1 (by decide) (by decide)
  | some p =>
    obtain ⟨hanswer, -⟩ := citationsOf_some hc
    have h1 := length_putMember_le "evidence_count" (countOf evidence) metadata
    have h2 := length_putMember_le "provider_model" (.str (slice 128 completion.model))
      (putMember "evidence_count" (countOf evidence) metadata)
    have h3 := length_putMember_le "finish_reason" (.str completion.finish_reason.text)
      (putMember "provider_model" (.str (slice 128 completion.model))
        (putMember "evidence_count" (countOf evidence) metadata))
    refine respond_built h ?_ (by omega)
    rw [hanswer]
    exact lengthIn_cleanAnswer hcontent

/-- The contract of completions gives no response when the evidence is refused. -/
theorem completionResponse_refused (h : evidenceAccepted evidence = false) (pending : Bool) :
    completionResponse limits request completion messages evidence metadata pending = none := by
  unfold completionResponse failed static
  simp only [respond_refused h]
  split
  · rfl
  split
  · rfl
  split
  · rfl
  split
  · rfl
  · rfl

/-- Spaces at the ends of a completion do not count, as long as it fits with them. -/
theorem completionResponse_strip (limits : ProfessorLimits κ) (request : ProfessorRequest)
    (evidence : List (TrustedEvidence κ)) (metadata : Json.Members)
    (h : completionWithinTokenBudget completion messages limits.max_tokens = true) (pending : Bool) :
    completionWithinTokenBudget { completion with content := strip completion.content } messages
        limits.max_tokens = true ∧
      completionResponse limits request { completion with content := strip completion.content } messages
          evidence metadata pending =
        completionResponse limits request completion messages evidence metadata pending := by
  have hlist : (strip completion.content).toList = stripList completion.content.toList := by
    rw [strip, String.toList_ofList]
  have hlen : (strip completion.content).length ≤ completion.content.length := by
    have := length_stripList_le completion.content.toList
    rw [← hlist, String.length_toList, String.length_toList] at this
    exact this
  have hwithin : completionWithinTokenBudget { completion with content := strip completion.content }
      messages limits.max_tokens = true := by
    unfold completionWithinTokenBudget estimatedTokens at h ⊢
    rw [decide_eq_true_iff] at h ⊢
    dsimp only
    omega
  have hplain : plainAnswer (strip completion.content) = plainAnswer completion.content := by
    unfold plainAnswer
    rw [hlist]
    refine (Block.stripList_sub (b := citationMarker) (by decide) ?_ completion.content.toList).symm
    exact fun o ho => opener_not_space o (by simp [citationMarker] at ho; simp [anyCitationMarker, ho])
  have hcite : citationsOf limits (strip completion.content) evidence =
      citationsOf limits completion.content evidence := by
    unfold citationsOf
    rw [hlist, stripList_stripList]
  refine ⟨hwithin, ?_⟩
  unfold completionResponse
  simp only [hwithin, h, hplain, hcite]

end Build

/-! ## A stream that was taken whole -/

section Whole

variable {professor : ProfessorOrchestrator κ} {request : ProfessorRequest} {completion : Completion}
  {chunks : List Chunk}

/-- The counters of a request that has just come in. -/
def RequestBudget.fresh : RequestBudget := ⟨0, 0, 0⟩

/-- A counter that is below its limit goes up. -/
theorem consume_ok {limit counter count : ℕ} (h : counter + count ≤ limit) :
    consume limit counter count = some (counter + count) :=
  if_neg (by omega)

/-- A fresh request may call the provider. -/
theorem may_call (limits : ProfessorLimits κ) :
    consume limits.max_provider_calls RequestBudget.fresh.provider_calls 1 = some 1 :=
  consume_ok limits.positive.2.2.2.2.2.2.1

variable {evidence : List (TrustedEvidence κ)} {messages : List ProviderMessage} {metadata : Json.Members}

/-- The plain answer to a fresh request is that of the contract of completions. -/
theorem complete_fresh (hvalid : completion.valid = true) (htools : completion.tool_calls = 0) :
    complete professor request .fresh evidence messages metadata (some completion) =
      completionResponse professor.limits request completion messages evidence metadata false := by
  have hcall := may_call professor.limits
  have hnone : consume professor.limits.max_tool_calls RequestBudget.fresh.tool_calls
      completion.tool_calls = some 0 := by
    rw [htools]
    exact consume_ok (Nat.zero_le _)
  have hfilter : (some completion).filter (·.valid) = some completion := by
    simp [Option.filter, hvalid]
  simp only [complete, hcall, hfilter, hnone]

variable {g : Gathered} {raw_chunks : List (Option Chunk)} {limits : ProfessorLimits κ}

/-- The streamed answer to a fresh request whose stream fails. -/
theorem streamChunks_failed {stage : Stage}
    (h : gather professor.limits (promptTokens messages) (.empty .fresh) raw_chunks = (g, some stage)) :
    streamChunks professor request .fresh evidence messages metadata raw_chunks =
      .ending g.content_parts (failed professor.limits request stage evidence metadata) := by
  have hcall := may_call professor.limits
  simp only [streamChunks, hcall, h]

/-- The streamed answer to a fresh request whose stream is taken whole. -/
theorem streamChunks_whole
    (h : gather professor.limits (promptTokens messages) (.empty .fresh) raw_chunks = (g, none)) :
    streamChunks professor request .fresh evidence messages metadata raw_chunks =
      .ending g.content_parts (assemble professor request evidence messages metadata g) := by
  have hcall := may_call professor.limits
  simp only [streamChunks, hcall, h]

/-- The text of the parts of a completion in chunks. -/
theorem Cuts.join_deltas (h : Cuts completion chunks) :
    String.join (deltasOf chunks) = completion.content := by
  rw [deltasOf, join_filter, h.content]

/-- The characters of the chunks are those of the text. -/
theorem Cuts.chars (h : Cuts completion chunks) :
    (chunks.map (·.delta.length)).sum = completion.content.length := by
  rw [← h.content, length_join, List.map_map]
  rfl

/-- A completion that its contract accepts has text, and a model. -/
theorem valid_completion (h : completion.valid = true) (htools : completion.tool_calls = 0) :
    (1 ≤ completion.model.length ∧ completion.model.length ≤ 256) ∧
      completion.content.length ≤ maxContentChars ∧ strip completion.content ≠ "" := by
  simpa [Completion.valid, htools, and_assoc] using h

/-- The chunks of a completion are valid ones. -/
theorem Cuts.plain (h : Cuts completion chunks) (hvalid : completion.valid = true)
    (htools : completion.tool_calls = 0) : Plain chunks := by
  obtain ⟨hmodel, hcontent, -⟩ := valid_completion hvalid htools
  refine ⟨?_, h.tools, h.stop⟩
  intro chunk hmem
  have hle : chunk.delta.length ≤ completion.content.length := by
    rw [← h.chars]
    exact List.single_le_sum (by simp) _ (List.mem_map_of_mem hmem)
  simp only [Chunk.valid, h.model chunk hmem, Bool.and_eq_true, decide_eq_true_iff]
  exact ⟨hmodel, le_trans hle hcontent⟩

/-- Chunks that fit are a text within the budget of tokens. -/
theorem Cuts.within (h : Cuts completion chunks) (hblank : strip completion.content ≠ "")
    (husage : ∀ chunk ∈ chunks, ∀ total, chunk.usage = some total → total ≤ limits.max_tokens)
    (htokens : deltasOf chunks ≠ [] → promptTokens messages + (0 + (chunks.map (·.delta.length)).sum + 3) / 4 ≤ limits.max_tokens) :
    completionWithinTokenBudget completion messages limits.max_tokens = true := by
  have hne : completion.content ≠ "" := by
    intro hnil
    apply hblank
    rw [hnil]
    decide
  have hdeltas : deltasOf chunks ≠ [] := by
    intro hnil
    apply hne
    rw [← h.join_deltas, hnil]
    rfl
  have htotal := htokens hdeltas
  have hpos : 0 < completion.content.length := by
    rw [Nat.pos_iff_ne_zero, ne_eq, String.length_eq_zero_iff]
    exact hne
  have hreported : completion.usage.getD 0 ≤ limits.max_tokens := by
    cases hu : completion.usage with
    | none => simp
    | some total =>
      obtain ⟨chunk, hmem, hchunk⟩ := h.reported (by simp [hu])
      exact husage chunk hmem total (by rw [hchunk, hu])
  rw [h.chars] at htotal
  unfold completionWithinTokenBudget estimatedTokens
  rw [decide_eq_true_iff]
  omega

/-- The chunks of a text fit when it is within the budget of tokens and the allowance of a stream. -/
theorem Cuts.allFit (h : Cuts completion chunks)
    (hwithin : completionWithinTokenBudget completion messages limits.max_tokens = true)
    (hchars : completion.content.length ≤ limits.max_answer_chars + 8 * 140) :
    AllFit limits (promptTokens messages) 0 chunks := by
  unfold completionWithinTokenBudget estimatedTokens at hwithin
  rw [decide_eq_true_iff] at hwithin
  refine allFit_of_total ?_ ?_ ?_
  · intro chunk hmem total htotal
    rcases h.usage chunk hmem with hnone | hsame
    · rw [hnone] at htotal
      cases htotal
    · rw [← hsame, htotal] at hwithin
      simp at hwithin
      omega
  · rw [h.chars]
    omega
  · rw [h.chars]
    omega

/-- The response to a stream that was taken whole is that of the contract of completions to the text. -/
theorem assemble_after (hcuts : Cuts completion chunks) (hvalid : completion.valid = true)
    (htools : completion.tool_calls = 0) (hstop : completion.finish_reason = .stop)
    (hwithin : completionWithinTokenBudget completion messages professor.limits.max_tokens = true) :
    assemble professor request evidence messages metadata ((Gathered.empty .fresh).after chunks) =
      completionResponse professor.limits request completion messages evidence metadata false := by
  obtain ⟨hmodel, hcontent, hblank⟩ := valid_completion hvalid htools
  obtain ⟨hm, hf⟩ := after_end (Gathered.empty .fresh) hcuts.model hcuts.stop
  have hparts : String.join ((Gathered.empty .fresh).after chunks).content_parts = completion.content := by
    rw [after_parts]
    exact hcuts.join_deltas
  have husage : ((Gathered.empty .fresh).after chunks).usage = completion.usage := by
    rw [after_usage]
    exact usageOf_reported hcuts.usage hcuts.reported
  have hindexes : ((Gathered.empty .fresh).after chunks).stream_tool_indexes = [] := after_tools _ _
  have hcompletion : (⟨completion.model, strip completion.content, 0, .stop, completion.usage⟩ : Completion) =
      { completion with content := strip completion.content } := by
    rw [← htools, ← hstop]
  obtain ⟨hwithin', hsame⟩ := completionResponse_strip professor.limits request evidence metadata hwithin false
  have hlen : (strip completion.content).length ≤ maxContentChars := by
    have h := length_stripList_le completion.content.toList
    rw [strip, String.length_ofList]
    rw [String.length_toList] at h
    omega
  have hvalid' : Completion.valid { completion with content := strip completion.content } = true := by
    simp only [Completion.valid, strip_strip, Bool.and_eq_true, decide_eq_true_iff, Bool.or_eq_true,
      bne_iff_ne]
    exact ⟨⟨hmodel, hlen⟩, .inl hblank⟩
  unfold assemble
  simp only [hparts, hm, hf, husage, hindexes, hcompletion]
  rw [if_neg, if_neg, if_neg, ← hsame]
  · rfl
  · rw [hwithin']
    decide
  · rw [hvalid']
    decide
  · rw [not_or]
    refine ⟨hblank, ?_⟩
    intro hnil
    rw [hnil] at hmodel
    simp at hmodel

end Whole

/-! ## Agreement -/

section Agreement

variable [LinearOrder κ] {professor : ProfessorOrchestrator κ} {request : ProfessorRequest}
  {completion : Completion} {chunks : List Chunk}

variable {budget : RequestBudget} {retrieved : Option Retrieved} {evidence : List (TrustedEvidence κ)}
  {messages : List ProviderMessage} {metadata : Json.Members}

/-- A generation that is over before the provider is called has no approved answer. -/
theorem opening_closed {response : Option (ProfessorResponse κ)} {r : ProfessorResponse κ}
    (h : opening professor request budget retrieved = .closed response) (hr : response = some r) :
    r.evidence_status ≠ .approved_evidence := by
  unfold opening at h
  split at h
  · obtain rfl := Opening.closed.inj h
    rw [failed_status hr]
    decide
  · split at h
    · obtain rfl := Opening.closed.inj h
      rw [failed_status hr]
      decide
    · unfold evaluate at h
      dsimp only at h
      split at h
      · obtain rfl := Opening.closed.inj h
        cases hr
      · split at h
        · obtain rfl := Opening.closed.inj h
          rw [static_status hr]
          decide
        · split at h
          · obtain rfl := Opening.closed.inj h
            rw [static_status hr]
            decide
          · split at h
            · obtain rfl := Opening.closed.inj h
              cases hr
            · cases h

/-- A generation that goes on has few metadata. -/
theorem opening_opened (h : opening professor request budget retrieved = .opened evidence messages metadata) :
    metadata.length ≤ 24 := by
  unfold opening at h
  split at h
  · cases h
  · split at h
    · cases h
    · unfold evaluate at h
      dsimp only at h
      split at h
      · cases h
      · split at h
        · cases h
        · split at h
          · cases h
          · split at h
            · cases h
            · obtain ⟨-, -, rfl⟩ := Opening.opened.inj h
              exact length_retrievalDecisionMetadata_le _

/-- A plain answer after an opening that goes on. -/
theorem runGeneration_opened (h : opening professor request budget retrieved = .opened evidence messages metadata)
    (raw_completion : Option Completion) :
    runGeneration professor request budget retrieved raw_completion =
      complete professor request budget evidence messages metadata raw_completion := by
  unfold runGeneration
  rw [h]

/-- A streamed answer after an opening that goes on. -/
theorem streamGeneration_opened
    (h : opening professor request budget retrieved = .opened evidence messages metadata)
    (raw_chunks : List (Option Chunk)) :
    streamGeneration professor request budget retrieved (.streaming raw_chunks) =
      streamChunks professor request budget evidence messages metadata raw_chunks := by
  unfold streamGeneration
  rw [h]

/-- A streamed answer agrees with a plain one. Either building a response raises in both, or the stream
yields some of the first deltas and then exactly one final response: an approved one only after all
deltas, and only the one of the plain answer; and that one whenever the plain answer is approved and the
whole text is within the allowance of a stream. -/
def Agrees (limits : ProfessorLimits κ) (content : String) (deltas : List String)
    (plain : Option (ProfessorResponse κ)) (streamed : Streamed κ) : Prop :=
  (plain = none ∧ ∃ shown, shown <+: deltas ∧ streamed = ⟨shown.map .delta, true⟩) ∨
  ∃ p r shown, plain = some p ∧ streamed = ⟨shown.map .delta ++ [.final r], false⟩ ∧ shown <+: deltas ∧
    (r.evidence_status = .approved_evidence → r = p ∧ shown = deltas) ∧
    (p.evidence_status = .approved_evidence → content.length ≤ limits.max_answer_chars + 8 * 140 → r = p)

/-- **Streamed and plain answers agree.** For every request, all limits, every retrieval result and every
completion that its contract accepts, and every way of cutting it into chunks, the streamed answer agrees
with the plain one. -/
theorem stream_agrees (professor : ProfessorOrchestrator κ) (request : ProfessorRequest)
    (retrieved : Option Retrieved) (hvalid : completion.valid = true)
    (hstop : completion.finish_reason = .stop) (htools : completion.tool_calls = 0)
    (hcuts : Cuts completion chunks) :
    Agrees professor.limits completion.content (deltasOf chunks)
      (runGeneration professor request .fresh retrieved (some completion))
      (streamGeneration professor request .fresh retrieved (.streaming (chunks.map some))) := by
  obtain ⟨-, hcontent, hblank⟩ := valid_completion hvalid htools
  cases hopening : opening professor request .fresh retrieved with
  | closed response =>
    unfold runGeneration streamGeneration
    rw [hopening]
    cases response with
    | none => exact .inl ⟨rfl, [], List.nil_prefix, rfl⟩
    | some r =>
      refine .inr ⟨r, r, [], rfl, rfl, List.nil_prefix, ?_, fun _ _ => rfl⟩
      exact fun happroved => absurd happroved (opening_closed hopening rfl)
  | opened evidence messages metadata =>
    have hmetadata := opening_opened hopening
    rw [runGeneration_opened hopening, streamGeneration_opened hopening, complete_fresh hvalid htools]
    rcases gather_plain (g := .empty .fresh) professor.limits (promptTokens messages)
      (hcuts.plain hvalid htools) rfl with ⟨hfit, hgather⟩ | ⟨hnot, g', stage, shown, hgather, hshown, hparts⟩
    · -- All chunks fit, so both are held to the same contract with the same text.
      obtain ⟨husage, htokens⟩ := total_of_allFit hfit
      have hwithin := hcuts.within hblank husage htokens
      have hstream : streamChunks professor request .fresh evidence messages metadata (chunks.map some) =
          .ending (deltasOf chunks)
            (completionResponse professor.limits request completion messages evidence metadata false) := by
        rw [streamChunks_whole hgather, after_parts, assemble_after hcuts hvalid htools hstop hwithin]
        rfl
      rw [hstream]
      cases hresponse : completionResponse professor.limits request completion messages evidence metadata
          false with
      | none => exact .inl ⟨rfl, _, List.prefix_rfl, rfl⟩
      | some r => exact .inr ⟨r, r, _, rfl, rfl, List.prefix_rfl, fun _ => ⟨rfl, rfl⟩, fun _ _ => rfl⟩
    · have hstream : streamChunks professor request .fresh evidence messages metadata (chunks.map some) =
          .ending shown (failed professor.limits request stage evidence metadata) := by
        rw [streamChunks_failed hgather, hparts]
        rfl
      rw [hstream]
      cases haccepted : evidenceAccepted evidence with
      | false =>
        have hfailed : failed professor.limits request stage evidence metadata = none :=
          respond_refused haccepted _ _ _
        rw [hfailed]
        exact .inl ⟨completionResponse_refused haccepted false, shown, hshown, rfl⟩
      | true =>
        obtain ⟨r, hr⟩ := failed_built professor.limits request haccepted hmetadata stage
        obtain ⟨p, hp⟩ := completionResponse_built professor.limits request messages haccepted
          hmetadata hcontent false
        rw [hr, hp]
        refine .inr ⟨p, r, shown, rfl, rfl, hshown, ?_, ?_⟩
        · intro happroved
          rw [failed_status hr] at happroved
          cases happroved
        · intro happroved hchars
          -- A plain answer that is approved is within the budgets, so all chunks would have fitted.
          obtain ⟨-, -, -, hwithin, -⟩ := completionResponse_approved hp happroved
          exact absurd (hcuts.allFit hwithin hchars) hnot

end Agreement

/-! ### Two streams -/

/-- A Professor whose answers have one character at most. -/
def terse : ProfessorOrchestrator ℕ where
  limits := { defaultLimits with max_answer_chars := 1, max_prompt_chars := 100, positive := by decide }
  scoring := sure

/-- A text of one character that cites its source. -/
def cited : String := "A[cite:e1]"

/-- The same text with spaces after it. -/
def padded : String := String.ofList (cited.toList ++ List.replicate 1200 ' ')

/-- A completion in one chunk. -/
def oneChunk (content : String) : List Chunk := [⟨"model", content, [], some .stop, none⟩]

/-- A completion in one chunk is a way of cutting it. -/
theorem cuts_oneChunk (content : String) : Cuts (completionOf content) (oneChunk content) where
  content := by simp [oneChunk, completionOf]
  model := by simp [oneChunk, completionOf]
  tools := by simp [oneChunk]
  usage := by simp [oneChunk]
  reported := by simp [completionOf]
  stop := rfl

/-- The spaces do not count. -/
theorem strip_padded : strip padded = cited := by
  have hstrip := stripList_append (a := []) (s := cited.toList) (z := List.replicate 1200 ' ') rfl
    (by rw [List.all_eq_true]; intro c hc; rw [List.eq_of_mem_replicate hc]; decide)
  have hcited : stripList cited.toList = cited.toList := by decide +kernel
  rw [List.nil_append] at hstrip
  rw [strip, padded, String.toList_ofList, hstrip, hcited, String.ofList_toList]

/-- The number of the characters. -/
theorem length_padded : padded.length = 1210 := by
  have hcited : cited.toList.length = 10 := by decide
  rw [padded, String.length_ofList, List.length_append, hcited, List.length_replicate]

/-- A short prompt can be built. -/
theorem buildMessages_short (request : ProfessorRequest) (evidence : List (TrustedEvidence κ))
    (limits : ProfessorLimits κ) (h : limits.max_prompt_chars ≤ 100) :
    ∃ messages, buildMessages request evidence limits = some messages ∧ promptTokens messages ≤ 60 := by
  have hpos := limits.positive.2.2.2.1
  have hmax : maxContentChars = 1000000 := rfl
  have hlead : "User request:\n".length = 14 := by decide
  unfold buildMessages
  dsimp only
  generalize (if historyText request.history = "" then _ else _) = sources
  have hquery := length_slice_le (max 1 (limits.max_prompt_chars / 3)) request.query
  have hsystem := length_slice_le (max 1 (limits.max_prompt_chars - ("User request:\n" ++
    slice (max 1 (limits.max_prompt_chars / 3)) request.query).length)) sources
  rw [String.length_append, hlead] at hsystem
  simp only [String.length_append, hlead]
  rw [if_neg (by omega)]
  refine ⟨_, rfl, ?_⟩
  simp only [promptTokens, estimatedTokens, List.map_cons, List.map_nil, List.sum_cons, List.sum_nil,
    String.length_append, hlead]
  omega

/-- The generation of an answer to the request goes on to the provider. -/
theorem opening_terse : ∃ messages, opening terse oneRequest .fresh (some oneResult) =
    .opened oneEvidence messages [] ∧ promptTokens messages ≤ 60 := by
  obtain ⟨messages, hmessages, htokens⟩ := buildMessages_short oneRequest oneEvidence terse.limits
    (by decide)
  have hevidence : trustedEvidence terse.scoring oneRequest.retrieval_context terse.limits
      (retrievedItems oneResult) = some oneEvidence := by decide +kernel
  have hne : oneEvidence ≠ [] := by decide +kernel
  have hbelow : allBelow terse.limits.approved_confidence oneEvidence = false := by decide +kernel
  have hround : consume terse.limits.max_retrieval_rounds RequestBudget.fresh.retrieval_rounds 1 =
      some 1 := by decide
  have hmetadata : retrievalDecisionMetadata oneResult = [] := by
    simp [retrievalDecisionMetadata, oneResult, Json.member?, List.lookup]
  refine ⟨messages, ?_, htokens⟩
  unfold opening evaluate
  simp only [hround, hevidence, if_neg hne, hbelow, hmessages, hmetadata]
  simp

/-- The answer to a text with a few spaces or with none is approved. -/
theorem plain_approved {content : String} (hstrip : strip content = cited) (hlength : content.length ≤ 2000) :
    (runGeneration terse oneRequest .fresh (some oneResult) (some (completionOf content))).map
      (·.evidence_status) = some .approved_evidence := by
  obtain ⟨messages, hopening, htokens⟩ := opening_terse
  have hvalid : (completionOf content).valid = true := by
    have hcited : cited ≠ "" := by decide
    have hmax : content.length ≤ maxContentChars := le_trans hlength (by decide)
    have hmodel : "model".length = 5 := by decide
    simp [Completion.valid, completionOf, hstrip, hcited, hmax, hmodel]
  have hwithin : completionWithinTokenBudget (completionOf content) messages terse.limits.max_tokens =
      true := by
    unfold completionWithinTokenBudget estimatedTokens
    rw [decide_eq_true_iff]
    have hmax : terse.limits.max_tokens = 8192 := rfl
    have hcontent : (completionOf content).content = content := rfl
    have husage : (completionOf content).usage = none := rfl
    rw [hmax, hcontent, husage, Option.getD_none]
    omega
  obtain ⟨hwithin', hsame⟩ := completionResponse_strip terse.limits oneRequest oneEvidence [] hwithin false
  have hcited : ({ completionOf content with content := strip (completionOf content).content } : Completion) =
      completionOf cited := by
    show completionOf (strip content) = _
    rw [hstrip]
  -- The messages matter only to the budget of tokens, so the response is that to an empty prompt.
  have hempty : (completionResponse terse.limits oneRequest (completionOf cited) [] oneEvidence [] false).map
      (·.evidence_status) = some .approved_evidence := by decide +kernel
  have hwithin₀ : completionWithinTokenBudget (completionOf cited) [] terse.limits.max_tokens = true := by
    decide +kernel
  rw [hcited] at hwithin' hsame
  rw [runGeneration_opened hopening, complete_fresh hvalid rfl, ← hsame, ← hempty]
  unfold completionResponse
  rw [hwithin', hwithin₀]

/-- The status of a final event. -/
def Event.status? : Event κ → Option EvidenceStatus
  | delta _ => none
  | final response => some response.evidence_status

/-- A text in one delta that is longer than the allowance is not yielded, and the stream fails. -/
theorem stream_too_long {content : String} (hlong : 1121 < content.length)
    (hlength : content.length ≤ maxContentChars) :
    (streamGeneration terse oneRequest .fresh (some oneResult)
      (.streaming ((oneChunk content).map some))).events.map Event.status? =
        [some .generation_failed] := by
  obtain ⟨messages, hopening, -⟩ := opening_terse
  have hne : content ≠ "" := by
    rintro rfl
    simp at hlong
  have htake : takeChunk terse.limits (promptTokens messages) (.empty .fresh)
      ⟨"model", content, [], some .stop, none⟩ = .error (.exceeded .answer) := by
    have hchars : terse.limits.max_answer_chars + 8 * 140 <
        (Gathered.empty .fresh).content_chars + content.length := by
      have hmax : terse.limits.max_answer_chars = 1 := rfl
      have hzero : (Gathered.empty .fresh).content_chars = 0 := rfl
      rw [hmax, hzero]
      omega
    unfold takeChunk
    dsimp only
    rw [if_neg (by simp [Gathered.empty]), if_neg (by simp), if_neg (by simp), if_pos ⟨hne, hchars⟩]
  have hvalid : (⟨"model", content, [], some .stop, none⟩ : Chunk).valid = true := by
    have hmodel : "model".length = 5 := by decide
    simp [Chunk.valid, hlength, hmodel]
  have hgather : gather terse.limits (promptTokens messages) (.empty .fresh) ((oneChunk content).map some) =
      (.empty .fresh, some (.exceeded .answer)) := by
    simp [oneChunk, gather, Option.filter, hvalid, htake]
  have hbuilt : ∃ r, failed terse.limits oneRequest (.exceeded .answer) oneEvidence [] = some r :=
    failed_built _ _ (by decide +kernel) (Nat.zero_le _) _
  obtain ⟨r, hr⟩ := hbuilt
  have hstatus := failed_status hr
  rw [streamGeneration_opened hopening, streamChunks_failed hgather, hr]
  simp [Streamed.ending, Gathered.empty, Event.status?, hstatus]

/-- The plain answer to a text with many spaces after it is approved, and the streamed one is not; and
without evidence no delta is yielded. -/
theorem stream_allowance :
    (Cuts (completionOf padded) (oneChunk padded) ∧
      (runGeneration terse oneRequest .fresh (some oneResult) (some (completionOf padded))).map
        (·.evidence_status) = some .approved_evidence ∧
      (streamGeneration terse oneRequest .fresh (some oneResult)
        (.streaming ((oneChunk padded).map some))).events.map Event.status? =
          [some .generation_failed]) ∧
    deltasOf (oneChunk cited) = [cited] ∧
      (streamGeneration terse oneRequest .fresh (some (.value (.arr [])))
        (.streaming ((oneChunk cited).map some))).events.map Event.status? = [some .no_evidence] := by
  have hlength := length_padded
  refine ⟨⟨cuts_oneChunk _, plain_approved strip_padded (by omega), stream_too_long (by omega) ?_⟩,
    by decide +kernel, by decide +kernel⟩
  rw [hlength]
  decide

/-- The answer to a short text is the same in both. -/
theorem short_stream_agrees :
    (runGeneration terse oneRequest .fresh (some oneResult) (some (completionOf cited))).map
        (·.evidence_status) = some .approved_evidence ∧
      Agrees terse.limits (completionOf cited).content (deltasOf (oneChunk cited))
        (runGeneration terse oneRequest .fresh (some oneResult) (some (completionOf cited)))
        (streamGeneration terse oneRequest .fresh (some oneResult)
          (.streaming ((oneChunk cited).map some))) :=
  ⟨plain_approved (by decide +kernel) (by decide +kernel), stream_agrees terse oneRequest (some oneResult)
    (by decide +kernel) rfl rfl (cuts_oneChunk cited)⟩

end RickIntelligence.Professor
