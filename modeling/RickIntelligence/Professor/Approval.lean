import RickIntelligence.Professor.Answer

/-!
# What an approved answer carries

An answer is approved when every citation in the text of the completion is one of a trusted item. The
text is judged by its markers as they stand, and the answer is the text without them. Cutting a marker
out of a text may put another one together: `spills` reads a text from bracket to bracket and says when
this happens, and `approved_verified` that nothing else can go wrong.
-/

namespace RickIntelligence.Professor

open Lib

variable {κ : Type}

/-! ## Brackets that are left over -/

/-- Read a text from one closing bracket to the next. A bracket that closes a valid marker goes with the
marker, and the text before it is read on. A bracket that closes a long marker of what has been read goes
with that marker, and what was read before it is shown. Any other bracket is shown with all that was read
before it, and the text spills a marker if an opener of one stands there. -/
def spills (shown read : List Char) : List (List Char) → Bool
  | [] => false
  | [_] => false
  | s :: t :: rest =>
    match citationMarker.cut s with
    | some (pre, _) => spills shown (read ++ pre) (t :: rest)
    | none => match longCitationMarker.cut (read ++ s) with
      | some (pre, _) => spills (shown ++ pre) [] (t :: rest)
      | none => (anyCitationMarker.cut (shown ++ read ++ s)).isSome || spills [] [] (t :: rest)

/-- The text of a completion spills a marker into its answer. -/
def spillsMarker (content : String) : Bool := spills [] [] (splitAt ']' (stripList content.toList))

/-- A marker stands in the text without its valid markers and its long ones if a bracket is left over
that shows one. -/
theorem occurs_iff_spills {shown read : List Char} (hshown : ']' ∉ shown) (hread : ']' ∉ read)
    (t : List Char) :
    anyCitationMarker.Occurs
        (shown ++ sub longCitationMarker.matcher [] (read ++ sub citationMarker.matcher [] t)) ↔
      spills shown read (splitAt ']' t) = true := by
  induction t using segment_induction ']' generalizing shown read with
  | last s hs =>
    have hfree : ']' ∉ read ++ s := by simp [hread, hs]
    rw [Block.sub_last (b := citationMarker) hs, Block.sub_last (b := longCitationMarker) hfree,
      splitAt_last hs]
    refine iff_of_false (Block.not_occurs_last (b := anyCitationMarker) ?_) (by simp [spills])
    show ']' ∉ shown ++ (read ++ s)
    simp [hshown, hread, hs]
  | segment s r hs ih =>
    obtain ⟨t', rest, hsplit⟩ := List.exists_cons_of_ne_nil (splitAt_ne_nil ']' r)
    have hcite := Block.sub_segment (b := citationMarker) hs r
    rw [splitAt_segment hs, hsplit, spills, ← hsplit]
    cases hcut : citationMarker.cut s with
    | some p =>
      -- The bracket goes with a valid marker.
      obtain ⟨o, -, hseg, -⟩ := Block.cut_some hcut
      have hpre : ']' ∉ read ++ p.1 := by
        rw [hseg] at hs
        simp at hs
        simp [hread, hs]
      rw [hcut] at hcite
      rw [show (s ++ ']' :: r) = s ++ citationMarker.close :: r from rfl, hcite, ← List.append_assoc]
      exact ih hshown hpre
    | none =>
      rw [hcut] at hcite
      have hfree : ']' ∉ read ++ s := by simp [hread, hs]
      have hlong := Block.sub_segment (b := longCitationMarker) hfree (sub citationMarker.matcher [] r)
      rw [show (s ++ ']' :: r) = s ++ citationMarker.close :: r from rfl, hcite]
      rw [show read ++ (s ++ citationMarker.close :: sub citationMarker.matcher [] r) =
        (read ++ s) ++ longCitationMarker.close :: sub citationMarker.matcher [] r by
          rw [List.append_assoc]; rfl]
      cases hcut' : longCitationMarker.cut (read ++ s) with
      | some p =>
        -- The bracket goes with a long marker.
        obtain ⟨o, -, hseg, -⟩ := Block.cut_some hcut'
        have hpre : ']' ∉ shown ++ p.1 := by
          rw [hseg] at hfree
          simp at hfree
          simp [hshown, hfree]
        rw [hcut'] at hlong
        rw [hlong, ← List.append_assoc]
        exact ih hpre List.not_mem_nil
      | none =>
        -- The bracket is shown.
        rw [hcut'] at hlong
        have hall : ']' ∉ shown ++ read ++ s := by simp [hshown, hread, hs]
        have hocc := Block.occurs_segment (b := anyCitationMarker) (s := shown ++ read ++ s)
          (r := sub longCitationMarker.matcher [] (sub citationMarker.matcher [] r)) hall
        rw [hlong, show shown ++ (read ++ s ++ longCitationMarker.close ::
            sub longCitationMarker.matcher [] (sub citationMarker.matcher [] r)) =
          shown ++ read ++ s ++ anyCitationMarker.close ::
            sub longCitationMarker.matcher [] (sub citationMarker.matcher [] r) by
              simp only [List.append_assoc]; rfl,
          hocc, ← Block.cut_isSome_iff (b := anyCitationMarker) fun _ => rfl, Bool.or_eq_true]
        exact or_congr_right (ih List.not_mem_nil List.not_mem_nil)

/-! ## The answer -/

/-- The answer before it is shortened. -/
def fullAnswer (raw_answer : List Char) : List Char :=
  stripList (squeeze isBlank ' '
    (sub longCitationMarker.matcher [] (sub citationMarker.matcher [] raw_answer)))

/-- The characters of the openers are no spaces. -/
theorem opener_not_space : ∀ o ∈ anyCitationMarker.openers, ∀ e ∈ o, isSpace e = false := by
  simp [anyCitationMarker, isSpace]

/-- A blank is a space. -/
theorem isSpace_of_isBlank {c : Char} (h : isBlank c = true) : isSpace c = true := by
  unfold isBlank at h
  rw [Bool.or_eq_true, beq_iff_eq, beq_iff_eq] at h
  rcases h with rfl | rfl
  · decide
  · decide

/-- A character that is no space is no blank. -/
theorem isBlank_of_not_isSpace {c : Char} (h : isSpace c = false) : isBlank c = false := by
  by_contra hb
  rw [isSpace_of_isBlank (by simpa using hb)] at h
  cases h

/-- The answer has a marker in it if the text spills one. -/
theorem occurs_fullAnswer (raw_answer : List Char) :
    anyCitationMarker.Occurs (fullAnswer raw_answer) ↔
      spills [] [] (splitAt ']' raw_answer) = true := by
  rw [← occurs_iff_spills List.not_mem_nil List.not_mem_nil]
  unfold fullAnswer
  rw [Block.occurs_stripList (by decide) opener_not_space, occurs_squeeze (by decide) (by decide)]
  · rfl
  · exact fun o ho e he => isBlank_of_not_isSpace (opener_not_space o ho e he)

/-- The answer is no longer than the text without its valid markers. -/
theorem length_fullAnswer_le (content : String) :
    (fullAnswer (stripList content.toList)).length ≤ (plainAnswer content).length := by
  have hspace : ∀ {b : Block}, b.openers ⊆ anyCitationMarker.openers →
      ∀ o ∈ b.openers, ∀ e ∈ o, isSpace e = false :=
    fun hsub o ho => opener_not_space o (hsub ho)
  have hcite := Block.stripList_sub (b := citationMarker) (by decide)
    (hspace (by simp [citationMarker, anyCitationMarker])) content.toList
  generalize hraw : sub citationMarker.matcher [] (stripList content.toList) = raw at hcite
  have hlong := Block.stripList_sub (b := longCitationMarker) (by decide)
    (hspace (by simp [longCitationMarker, anyCitationMarker])) raw
  unfold fullAnswer plainAnswer
  rw [hraw, hcite]
  calc (stripList (squeeze isBlank ' ' (sub longCitationMarker.matcher [] raw))).length
      ≤ (stripList (sub longCitationMarker.matcher [] raw)).length :=
        length_stripList_squeeze_le (fun _ => isSpace_of_isBlank) (by decide) _
    _ = (stripList (sub longCitationMarker.matcher [] (stripList raw))).length := by rw [hlong]
    _ ≤ (sub longCitationMarker.matcher [] (stripList raw)).length := length_stripList_le _
    _ ≤ (stripList raw).length := Block.length_sub_le _

/-- The answer is shortened to the limit. -/
theorem cleanAnswer_take (limits : ProfessorLimits κ) (raw_answer : List Char) :
    cleanAnswer limits raw_answer = if (fullAnswer raw_answer).take limits.max_answer_chars = [] then
      citedAnswer else String.ofList ((fullAnswer raw_answer).take limits.max_answer_chars) := rfl

/-- The answer is not shortened when the text without its valid markers is short enough. -/
theorem cleanAnswer_eq {limits : ProfessorLimits κ} {content : String}
    (h : (plainAnswer content).length ≤ limits.max_answer_chars) :
    cleanAnswer limits (stripList content.toList) =
      if fullAnswer (stripList content.toList) = [] then citedAnswer
      else String.ofList (fullAnswer (stripList content.toList)) := by
  have hlen := le_trans (length_fullAnswer_le content) h
  rw [cleanAnswer_take, List.take_of_length_le hlen]

/-- The fixed answer has no marker. -/
theorem not_occurs_citedAnswer : ¬ anyCitationMarker.Occurs citedAnswer.toList :=
  Block.not_occurs_last (by simp [anyCitationMarker, citedAnswer])

/-- **The answer shows a marker exactly when the text spills one.** -/
theorem occurs_cleanAnswer {limits : ProfessorLimits κ} {content : String}
    (h : (plainAnswer content).length ≤ limits.max_answer_chars) :
    anyCitationMarker.Occurs (cleanAnswer limits (stripList content.toList)).toList ↔
      spillsMarker content = true := by
  have hfull := occurs_fullAnswer (stripList content.toList)
  rw [cleanAnswer_eq h]
  unfold spillsMarker
  rw [← hfull]
  by_cases hnil : fullAnswer (stripList content.toList) = []
  · rw [if_pos hnil, hnil]
    exact iff_of_false not_occurs_citedAnswer
      (Block.not_occurs_last (b := anyCitationMarker) List.not_mem_nil)
  · rw [if_neg hnil, String.toList_ofList]

/-- The answer is no longer than the limit, or the fixed one. -/
theorem length_cleanAnswer (limits : ProfessorLimits κ) (raw_answer : List Char) :
    (cleanAnswer limits raw_answer).length ≤ limits.max_answer_chars ∨
      cleanAnswer limits raw_answer = citedAnswer := by
  rw [cleanAnswer_take]
  split
  · exact .inr rfl
  · refine .inl ?_
    rw [String.length_ofList, List.length_take]
    exact min_le_left _ _

/-! ## The markers of a text -/

/-- The characters of an identifier are no brackets. -/
theorem safeId_no_bracket {id : String} (h : safeId id = true) : '[' ∉ id.toList ∧ ']' ∉ id.toList := by
  have hchars := matchesRun_chars h
  refine ⟨fun hmem => ?_, fun hmem => ?_⟩
  · rcases hchars _ hmem with h | h
    · exact absurd h (by decide)
    · exact absurd h (by decide)
  · rcases hchars _ hmem with h | h
    · exact absurd h (by decide)
    · exact absurd h (by decide)

/-- What stands after the last opening bracket of a text is one thing. -/
theorem last_bracket {x y u v : List Char} (hu : '[' ∉ u) (hv : '[' ∉ v)
    (h : x ++ '[' :: u = y ++ '[' :: v) : u = v := by
  have hrev : u.reverse ++ '[' :: x.reverse = v.reverse ++ '[' :: y.reverse := by
    simpa using congrArg List.reverse h
  obtain ⟨huv, -⟩ := segment_unique (by simpa using hu) (by simpa using hv) hrev
  exact List.reverse_injective huv

/-- A valid marker is one of any kind. -/
theorem cut_any_of_cut {s : List Char} (h : (citationMarker.cut s).isSome = true) :
    (anyCitationMarker.cut s).isSome = true := by
  obtain ⟨⟨pre, body⟩, hp⟩ := Option.isSome_iff_exists.mp h
  obtain ⟨o, ho, rfl, -⟩ := Block.cut_some hp
  refine Block.cut_isSome ?_ rfl
  simp [citationMarker] at ho
  simp [anyCitationMarker, ho]

/-- No text has more valid markers than markers of any kind. -/
theorem length_markers_le (t : List Char) :
    (findall citationMarker.matcher t).length ≤ (findall anyCitationMarker.matcher t).length := by
  induction t using segment_induction ']' with
  | last s hs => simp [Block.findall_last (b := citationMarker) hs]
  | segment s r hs ih =>
    have hc := Block.findall_segment (b := citationMarker) hs r
    have ha := Block.findall_segment (b := anyCitationMarker) hs r
    have hcut := cut_any_of_cut (s := s)
    show (findall citationMarker.matcher (s ++ citationMarker.close :: r)).length ≤
      (findall anyCitationMarker.matcher (s ++ anyCitationMarker.close :: r)).length
    rw [hc, ha]
    cases h : citationMarker.cut s with
    | none => simp; omega
    | some p =>
      obtain ⟨q, hq⟩ := Option.isSome_iff_exists.mp (hcut (by simp [h]))
      simp [hq]
      omega

/-- **The markers of a text that has no others than valid ones**: an identifier that is written in a marker
of either kind is that of a valid marker. -/
theorem mem_markers {t : List Char}
    (hcount : (findall anyCitationMarker.matcher t).length = (findall citationMarker.matcher t).length)
    {o : List Char} (ho : o ∈ anyCitationMarker.openers) {id : String} (hid : safeId id = true)
    (h : o ++ id.toList ++ [']'] <:+: t) : id.toList ∈ findall citationMarker.matcher t := by
  have hclose : ']' ∉ o ++ id.toList := by
    rw [List.mem_append, not_or]
    exact ⟨(anyCitationMarker.plain o ho).2, (safeId_no_bracket hid).2⟩
  induction t using segment_induction ']' with
  | last s hs => exact absurd (h.subset (by simp)) hs
  | segment s r hs ih =>
    have hc := Block.findall_segment (b := citationMarker) hs r
    have ha := Block.findall_segment (b := anyCitationMarker) hs r
    have hle := length_markers_le r
    have hcut := cut_any_of_cut (s := s)
    change (findall anyCitationMarker.matcher (s ++ anyCitationMarker.close :: r)).length =
      (findall citationMarker.matcher (s ++ citationMarker.close :: r)).length at hcount
    show id.toList ∈ findall citationMarker.matcher (s ++ citationMarker.close :: r)
    rw [ha, hc, List.length_append, List.length_append] at hcount
    rw [hc, List.mem_append]
    rcases (infix_close_segment hclose hs).mp h with ⟨x, hx⟩ | h
    · -- The marker ends the segment, which has a marker, so it is a valid one.
      have hany : (anyCitationMarker.cut s).isSome = true := by
        rw [← hx, ← List.append_assoc]
        exact Block.cut_isSome ho rfl
      obtain ⟨q, hq⟩ := Option.isSome_iff_exists.mp hany
      have hsome : (citationMarker.cut s).isSome = true := by
        by_contra hnone
        rw [Option.not_isSome_iff_eq_none.mp hnone, hq] at hcount
        simp at hcount
        omega
      obtain ⟨⟨pre, body⟩, hp⟩ := Option.isSome_iff_exists.mp hsome
      obtain ⟨o', ho', hseg, hok⟩ := Block.cut_some hp
      have hbody : '[' ∉ body := by simpa using (safeId_no_bracket hok).1
      have hid' := (safeId_no_bracket hid).1
      obtain rfl : o' = '[' :: "cite:".toList := by simpa [citationMarker] using ho'
      refine .inl ?_
      rw [hp]
      have hboth : x ++ (o ++ id.toList) = pre ++ '[' :: ("cite:".toList ++ body) := by
        rw [hx, hseg]
        simp
      simp only [anyCitationMarker, List.mem_cons, List.not_mem_nil, or_false] at ho
      rcases ho with rfl | rfl
      · have := last_bracket (u := "cite:".toList ++ id.toList) (by simpa using hid')
          (by simpa using hbody) hboth
        simpa using this
      · have := last_bracket (u := "citation:".toList ++ id.toList) (by simpa using hid')
          (by simpa using hbody) hboth
        simp at this
    · refine .inr (ih ?_ h)
      cases hcs : citationMarker.cut s with
      | none =>
        rw [hcs] at hcount
        simp at hcount
        omega
      | some p =>
        obtain ⟨q, hq⟩ := Option.isSome_iff_exists.mp (hcut (by simp [hcs]))
        rw [hcs, hq] at hcount
        simp at hcount
        omega

/-! ## What is cited -/

/-- The fresh markers are among the markers, were not seen before, and are distinct. -/
theorem freshMarkers_spec (seen markers : List String) :
    (∀ m ∈ freshMarkers seen markers, m ∈ markers ∧ m ∉ seen) ∧ (freshMarkers seen markers).Nodup := by
  induction markers generalizing seen with
  | nil => simp [freshMarkers]
  | cons m rest ih =>
    unfold freshMarkers
    split
    · obtain ⟨hmem, hnodup⟩ := ih seen
      exact ⟨fun m' hm' => ⟨List.mem_cons_of_mem _ (hmem m' hm').1, (hmem m' hm').2⟩, hnodup⟩
    · next hnew =>
      obtain ⟨hmem, hnodup⟩ := ih (m :: seen)
      refine ⟨?_, ?_⟩
      · intro m' hm'
        rcases List.mem_cons.mp hm' with rfl | hm'
        · exact ⟨List.mem_cons_self, by simpa using hnew⟩
        · obtain ⟨h1, h2⟩ := hmem m' hm'
          exact ⟨List.mem_cons_of_mem _ h1, fun h => h2 (List.mem_cons_of_mem _ h)⟩
      · rw [List.nodup_cons]
        exact ⟨fun h => (hmem m h).2 List.mem_cons_self, hnodup⟩

/-- The first marker of a text is fresh. -/
theorem freshMarkers_ne_nil {markers : List String} (h : markers ≠ []) : freshMarkers [] markers ≠ [] := by
  obtain ⟨m, rest, rfl⟩ := List.exists_cons_of_ne_nil h
  simp [freshMarkers]

/-- The item of an id is an item with this id. -/
theorem itemOf_some {evidence : List (TrustedEvidence κ)} {id : String} {e : TrustedEvidence κ}
    (h : itemOf evidence id = some e) : e ∈ evidence ∧ e.evidence_id = id := by
  have hmem := List.mem_of_find?_eq_some h
  have hid := List.find?_some h
  exact ⟨by simpa using hmem, by simpa using hid⟩

/-- The items that some markers name. -/
theorem map_itemOf (evidence : List (TrustedEvidence κ)) {markers : List String}
    (h : ∀ m ∈ markers, (itemOf evidence m).isSome = true) :
    (markers.filterMap (itemOf evidence)).map (·.evidence_id) = markers := by
  induction markers with
  | nil => rfl
  | cons m rest ih =>
    obtain ⟨e, he⟩ := Option.isSome_iff_exists.mp (h m List.mem_cons_self)
    rw [List.filterMap_cons, he, List.map_cons, (itemOf_some he).2,
      ih fun m' hm' => h m' (List.mem_cons_of_mem _ hm')]

section Approved

variable {limits : ProfessorLimits κ} {request : ProfessorRequest} {completion : Completion}
  {messages : List ProviderMessage} {evidence : List (TrustedEvidence κ)} {metadata : Json.Members}
  {content : String}

variable {answer : String} {r : ProfessorResponse κ}

/-- What `_citations` has found when it finds no invalid citation. -/
theorem citationsOf_some {citations : List Citation}
    (h : citationsOf limits content evidence = some (answer, citations)) :
    let raw := stripList content.toList
    answer = cleanAnswer limits raw ∧
      (findall anyCitationMarker.matcher raw).length = (findall citationMarker.matcher raw).length ∧
      (∀ body ∈ findall citationMarker.matcher raw, ∃ e ∈ evidence, e.evidence_id.toList = body) ∧
      ∃ cited : List (TrustedEvidence κ), cited ≠ [] ∧ (cited.map (·.evidence_id)).Nodup ∧
        citations = cited.map (·.citation) ∧ ∀ e ∈ cited, e ∈ evidence := by
  intro raw
  unfold citationsOf at h
  rw [Option.ite_none_left_eq_some] at h
  obtain ⟨hvalid, heq⟩ := h
  rw [not_or, not_or, Decidable.not_not, Bool.not_eq_true, List.any_eq_false] at hvalid
  obtain ⟨hne, hcount, hitems⟩ := hvalid
  have hsome : ∀ m ∈ (findall citationMarker.matcher raw).map String.ofList,
      (itemOf evidence m).isSome = true := by
    intro m hm
    exact Option.isSome_iff_ne_none.mpr (by simpa using hitems m hm)
  obtain ⟨hanswer, hcitations⟩ := Prod.mk.inj (Option.some.inj heq)
  refine ⟨hanswer.symm, by simpa using hcount, ?_, ?_⟩
  · intro body hbody
    obtain ⟨e, he⟩ := Option.isSome_iff_exists.mp (hsome _ (List.mem_map_of_mem hbody))
    exact ⟨e, (itemOf_some he).1, by rw [(itemOf_some he).2, String.toList_ofList]⟩
  · generalize (findall citationMarker.matcher raw).map String.ofList = markers at *
    obtain ⟨hfresh, hnodup⟩ := freshMarkers_spec [] markers
    have hids := map_itemOf evidence fun m hm => hsome m (hfresh m hm).1
    refine ⟨(freshMarkers [] markers).filterMap (itemOf evidence), ?_, ?_, ?_, ?_⟩
    · intro hnil
      rw [hnil, List.map_nil] at hids
      exact freshMarkers_ne_nil hne hids.symm
    · rw [hids]
      exact hnodup
    · rw [← hcitations, List.map_filterMap]
    · intro e he
      obtain ⟨m, -, hm⟩ := List.mem_filterMap.mp he
      exact (itemOf_some hm).1

/-- A response is what it is built of. -/
theorem respond_some {status : EvidenceStatus} {citations : List Citation}
    (h : respond request status answer citations evidence metadata = some r) :
    r = { conversation_id := request.conversation_id, answer, evidence_status := status, citations,
          evidence := evidence.map (·.responseDict), metadata } := by
  unfold respond at h
  rw [Option.ite_none_right_eq_some] at h
  exact (Option.some.inj h.2).symm

/-- A failed response is not approved. -/
theorem failed_status {stage : Stage} (h : failed limits request stage evidence metadata = some r) :
    r.evidence_status = .generation_failed := by
  rw [respond_some h]

/-- A fixed answer has the status that it is given. -/
theorem static_status {status : EvidenceStatus} (h : static limits request status answer evidence metadata = some r) :
    r.evidence_status = status := by
  rw [respond_some h]

/-- What the one contract of completions has found when it approves. -/
theorem completionResponse_approved {pending : Bool}
    (h : completionResponse limits request completion messages evidence metadata pending = some r)
    (happroved : r.evidence_status = .approved_evidence) :
    completion.finish_reason = .stop ∧ completion.tool_calls = 0 ∧ pending = false ∧
      completionWithinTokenBudget completion messages limits.max_tokens = true ∧
      (plainAnswer completion.content).length ≤ limits.max_answer_chars ∧
      citationsOf limits completion.content evidence = some (r.answer, r.citations) ∧
      r.evidence = evidence.map (·.responseDict) := by
  unfold completionResponse at h
  by_cases h1 : completion.finish_reason ≠ .stop ∨ 0 < completion.tool_calls ∨ pending = true
  · rw [if_pos h1] at h
    rw [failed_status h] at happroved
    cases happroved
  rw [if_neg h1] at h
  rw [not_or, not_or, Decidable.not_not, Bool.not_eq_true] at h1
  by_cases h2 : completionWithinTokenBudget completion messages limits.max_tokens = false
  · rw [if_pos h2] at h
    rw [failed_status h] at happroved
    cases happroved
  rw [if_neg h2] at h
  rw [Bool.not_eq_false] at h2
  by_cases h3 : limits.max_answer_chars < (plainAnswer completion.content).length
  · rw [if_pos h3] at h
    rw [failed_status h] at happroved
    cases happroved
  rw [if_neg h3] at h
  cases hc : citationsOf limits completion.content evidence with
  | none =>
    rw [hc] at h
    rw [static_status h] at happroved
    cases happroved
  | some p =>
    rw [hc] at h
    have hr := respond_some h
    refine ⟨h1.1, by omega, h1.2.2, h2, by omega, ?_, ?_⟩
    · rw [hr]
    · rw [hr]

end Approved

/-! ## Approved answers -/

/-- **An approved answer carries only verified citations.** Its citations are those of distinct items of
the evidence, all of the scope of the request; every identifier that a marker of the text writes is that
of an item; the answer shows no marker, and it is no longer than the limit, unless it is the fixed one;
and the evidence has distinct ids, and no more items and characters than the limits allow. -/
structure Verified (context : RetrievalContext) (limits : ProfessorLimits κ)
    (evidence : List (TrustedEvidence κ)) (content : String) (r : ProfessorResponse κ) : Prop where
  citations : ∃ cited : List (TrustedEvidence κ), cited ≠ [] ∧ (cited.map (·.evidence_id)).Nodup ∧
    r.citations = cited.map (·.citation) ∧ ∀ e ∈ cited, e ∈ evidence ∧ InScope context e
  markers : ∀ o ∈ anyCitationMarker.openers, ∀ id, safeId id = true →
    o ++ id.toList ++ [']'] <:+: content.toList → ∃ e ∈ evidence, e.evidence_id = id
  answer : ¬ anyCitationMarker.Occurs r.answer.toList
  answer_length : r.answer.length ≤ limits.max_answer_chars ∨ r.answer = citedAnswer
  evidence_ids : (r.evidence.map (·.evidence_id)).Nodup
  evidence_items : r.evidence.length ≤ limits.max_evidence_items
  evidence_chars : (r.evidence.map (·.text.length)).sum ≤ limits.max_evidence_chars

/-- A marker stands in a text when it stands there without the spaces at its ends. -/
theorem marker_stripList {o : List Char} (ho : o ∈ anyCitationMarker.openers) (id : String)
    {content : List Char} (h : o ++ id.toList ++ [']'] <:+: content) :
    o ++ id.toList ++ [']'] <:+: stripList content := by
  obtain ⟨a, z, hsplit, ha, hz⟩ := exists_stripList content
  obtain ⟨f, o', rfl⟩ := List.exists_cons_of_ne_nil (anyCitationMarker.plain o ho).1
  have hf : isSpace f = false := opener_not_space _ ho f List.mem_cons_self
  rw [hsplit] at h
  have h' := (infix_append_run (p := isSpace) (by decide) hz).mp h
  exact (infix_run_append hf ha).mp h'

/-- **The approved answers that are verified** are those whose completion spills no marker: whatever the
retrieval returned and whatever the limits are, the answer to a text is verified exactly when reading the
text from bracket to bracket leaves no bracket over that shows a marker. -/
theorem approved_verified (scoring : Scoring κ) (result : Retrieved) {limits : ProfessorLimits κ}
    {request : ProfessorRequest} {evidence : List (TrustedEvidence κ)} {completion : Completion}
    {messages : List ProviderMessage} {metadata : Json.Members} {pending : Bool}
    {r : ProfessorResponse κ}
    (hevidence : trustedEvidence scoring request.retrieval_context limits (retrievedItems result) =
      some evidence)
    (h : completionResponse limits request completion messages evidence metadata pending = some r)
    (happroved : r.evidence_status = .approved_evidence) :
    Verified request.retrieval_context limits evidence completion.content r ↔
      spillsMarker completion.content = false := by
  have htrusted := trustedEvidence_trusted hevidence
  obtain ⟨-, -, -, -, hplain, hcite, hev⟩ := completionResponse_approved h happroved
  obtain ⟨hanswer, hcount, hbodies, cited, hne, hnodup, hcitations, hmem⟩ := citationsOf_some hcite
  have hocc := occurs_cleanAnswer hplain
  rw [← hanswer] at hocc
  constructor
  · intro hv
    rw [← Bool.not_eq_true, ← hocc]
    exact hv.answer
  · intro hspill
    refine ⟨⟨cited, hne, hnodup, hcitations, fun e he => ⟨hmem e he, htrusted.scope e (hmem e he)⟩⟩,
      ?_, ?_, ?_, ?_, ?_, ?_⟩
    · intro o ho id hid hinfix
      obtain ⟨e, he, hbody⟩ := hbodies _ (mem_markers hcount ho hid (marker_stripList ho id hinfix))
      exact ⟨e, he, String.toList_inj.mp hbody⟩
    · rw [hocc, hspill]
      exact Bool.false_ne_true
    · rw [hanswer]
      exact length_cleanAnswer limits _
    · rw [hev, List.map_map]
      exact htrusted.ids
    · rw [hev, List.length_map]
      exact htrusted.items
    · rw [hev, List.map_map]
      exact htrusted.chars

/-! ### Two answers -/

/-- The limits of a Professor that is not configured. -/
def defaultLimits : ProfessorLimits ℕ where
  max_evidence_items := 8
  max_evidence_chars := 12000
  max_evidence_item_chars := 4000
  max_prompt_chars := 20000
  max_answer_chars := 8000
  approved_confidence := 50
  max_retrieval_rounds := 1
  max_tool_calls := 0
  max_provider_calls := 1
  max_tokens := 8192
  positive := by decide

/-- A request for what one collection says. -/
def oneRequest : ProfessorRequest where
  conversation_id := "conversation"
  query := "What is the rule?"
  retrieval_context := ⟨"acme", "main", ["handbook"]⟩
  history := []

/-- A retrieval result with one item, which is surely relevant. -/
def oneResult : Retrieved := .value (.obj [("evidence", .arr [.obj [
  ("evidence_id", .str "e1"), ("document_id", .str "d1"), ("chunk_id", .str "c1"),
  ("tenant_id", .str "acme"), ("workspace_id", .str "main"), ("collection_id", .str "handbook"),
  ("text", .str "The rule.")]])])

/-- Scores of an item that is surely relevant, in percent. -/
def sure : Scoring ℕ := fun _ => some ⟨100, 100, 100, 100⟩

/-- The evidence of that item. -/
def oneEvidence : List (TrustedEvidence ℕ) :=
  (trustedEvidence sure oneRequest.retrieval_context defaultLimits (retrievedItems oneResult)).getD []

/-- A completion that ends as it should. -/
def completionOf (content : String) : Completion := ⟨"model", content, 0, .stop, none⟩

/-- An answer whose only marker stands inside another one is approved, and it shows the outer one. -/
theorem nested_marker_shown :
    trustedEvidence sure oneRequest.retrieval_context defaultLimits (retrievedItems oneResult) =
        some oneEvidence ∧
      ∃ r, completionResponse defaultLimits oneRequest (completionOf "[cite:zz[cite:e1]]") []
          oneEvidence [] false = some r ∧
        r.evidence_status = .approved_evidence ∧ r.answer = "[cite:zz]" ∧
        ¬ Verified oneRequest.retrieval_context defaultLimits oneEvidence "[cite:zz[cite:e1]]" r := by
  have hrun : (completionResponse defaultLimits oneRequest (completionOf "[cite:zz[cite:e1]]") []
      oneEvidence [] false).map (fun r => (r.evidence_status, r.answer)) =
        some (.approved_evidence, "[cite:zz]") := by
    decide +kernel
  obtain ⟨r, hr, heq⟩ := Option.map_eq_some_iff.mp hrun
  obtain ⟨hstatus, hanswer⟩ := Prod.mk.inj heq
  refine ⟨by decide +kernel, r, hr, hstatus, hanswer, ?_⟩
  intro hv
  apply hv.answer
  rw [hanswer]
  exact ⟨"[cite:".toList, by simp [anyCitationMarker], "zz".toList, by decide, [], [], by decide⟩

/-- An answer with a marker in its place is verified. -/
theorem cited_answer_verified :
    ∃ r, completionResponse defaultLimits oneRequest (completionOf "It holds.[cite:e1]") []
        oneEvidence [] false = some r ∧
      r.evidence_status = .approved_evidence ∧
      Verified oneRequest.retrieval_context defaultLimits oneEvidence "It holds.[cite:e1]" r := by
  have hrun : (completionResponse defaultLimits oneRequest (completionOf "It holds.[cite:e1]") []
      oneEvidence [] false).map (·.evidence_status) = some .approved_evidence := by
    decide +kernel
  obtain ⟨r, hr, hstatus⟩ := Option.map_eq_some_iff.mp hrun
  refine ⟨r, hr, hstatus, ?_⟩
  exact (approved_verified sure oneResult (by decide +kernel) hr hstatus).mpr
    (by decide +kernel)

end RickIntelligence.Professor
