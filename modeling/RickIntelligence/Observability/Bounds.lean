import RickIntelligence.Observability.Events

/-!
# What an event is charged for

Every part of an event is paid for out of the budget before it is emitted: a walk leaves at most the bytes
that what it returns does not take (`walk_paid`). Of the nodes, it leaves those that what it returns does not
take, but for the values that it has replaced and what it has dropped.
-/

namespace RickIntelligence.Observability

open Lib

/-! ## Walks -/

/-- A walk spends its budget and replaces values. -/
structure Spends (m m' : Meter) : Prop where
  nodes : m'.budget.nodesLeft ≤ m.budget.nodesLeft
  bytes : m'.budget.bytesLeft ≤ m.budget.bytesLeft
  hidden : m.hidden ≤ m'.hidden

/-- A walk that has charged some texts returns exactly when all of them encode. -/
def Logged {α : Type} (m m' : Meter) (r : Except UnicodeEncodeError α) : Prop :=
  ∃ texts, m'.charged = m.charged ++ texts ∧ (r.isOk = true ↔ ∀ text ∈ texts, (encodeText text).isSome = true)

/-- What a part of a walk does: it charges texts and spends, and it leaves `P` when it returns. -/
def Walks {α : Type} (x : MeterProc α) (m : Meter) (P : α → Meter → Prop) : Prop :=
  Proc.Holds x m fun r m' => Logged m m' r ∧ ∀ a, r = .ok a → Spends m m' ∧ P a m'

/-- Spending nothing. -/
theorem Spends.refl (m : Meter) : Spends m m := ⟨le_rfl, le_rfl, le_rfl⟩

/-- Spending twice. -/
theorem Spends.trans {m m' m'' : Meter} (h : Spends m m') (h' : Spends m' m'') : Spends m m'' :=
  ⟨h'.nodes.trans h.nodes, h'.bytes.trans h.bytes, h.hidden.trans h'.hidden⟩

section Rules

variable {α β : Type} {m : Meter} {P : α → Meter → Prop} {Q : β → Meter → Prop}

/-- A returned value charges nothing. -/
theorem walks_pure {a : α} (h : P a m) : Walks (pure a) m P := by
  refine Proc.holds_pure ⟨⟨[], (List.append_nil _).symm, ?_⟩, fun a' heq => ?_⟩
  · exact iff_of_true rfl fun text htext => absurd htext List.not_mem_nil
  · cases heq
    exact ⟨.refl m, h⟩

variable {x : MeterProc α}

/-- A weaker property holds. -/
theorem Walks.imp {P' : α → Meter → Prop} (h : Walks x m P) (hP : ∀ a m', Spends m m' → P a m' → P' a m') :
    Walks x m P' :=
  Proc.Holds.imp h fun _ _ hr => ⟨hr.1, fun a ha => ⟨(hr.2 a ha).1, hP a _ (hr.2 a ha).1 (hr.2 a ha).2⟩⟩

/-- One part of a walk after another. -/
theorem walks_bind {f : α → MeterProc β} (hx : Walks x m P) (hf : ∀ a m', Spends m m' → P a m' → Walks (f a) m' Q) :
    Walks (x >>= f) m Q := by
  apply Proc.holds_bind
  refine Proc.Holds.imp hx fun r m' hr => ?_
  obtain ⟨⟨texts, htexts, hok⟩, hreturn⟩ := hr
  cases r with
  | error e => exact ⟨⟨texts, htexts, hok⟩, nofun⟩
  | ok a =>
    obtain ⟨hspends, hP⟩ := hreturn a rfl
    refine Proc.Holds.imp (hf a m' hspends hP) fun r' m'' hr' => ?_
    obtain ⟨⟨texts', htexts', hok'⟩, hreturn'⟩ := hr'
    refine ⟨⟨texts ++ texts', ?_, ?_⟩, fun b hb => ⟨hspends.trans (hreturn' b hb).1, (hreturn' b hb).2⟩⟩
    · rw [htexts', htexts, List.append_assoc]
    · rw [hok', List.forall_mem_append]
      exact ⟨fun h => ⟨hok.mp rfl, h⟩, fun h => h.2⟩

/-- A mapped part of a walk. -/
theorem walks_map {f : α → β} (hx : Walks x m P) (hf : ∀ a m', Spends m m' → P a m' → Q (f a) m') :
    Walks (f <$> x) m Q := by
  rw [map_eq_pure_bind]
  exact walks_bind hx fun a m' hspends hP => walks_pure (hf a m' hspends hP)

/-- The meter is read. -/
theorem walks_get_bind {f : Meter → MeterProc β} (h : Walks (f m) m Q) : Walks (get >>= f) m Q :=
  Proc.holds_get_bind h

/-- The meter is written, with the same texts. -/
theorem walks_set_bind {m' : Meter} {f : PUnit → MeterProc β} (hcharged : m'.charged = m.charged)
    (hspends : Spends m m') (h : Walks (f ⟨⟩) m' Q) : Walks (set m' >>= f) m Q := by
  apply Proc.holds_set_bind
  refine Proc.Holds.imp h fun r m'' hr => ?_
  obtain ⟨⟨texts, htexts, hok⟩, hreturn⟩ := hr
  exact ⟨⟨texts, by rw [htexts, hcharged], hok⟩, fun b hb => ⟨hspends.trans (hreturn b hb).1, (hreturn b hb).2⟩⟩

end Rules

/-! ## Charges -/

/-- Only bytes are spent. -/
structure SpendsBytes (m m' : Meter) : Prop where
  nodes : m'.budget.nodesLeft = m.budget.nodesLeft
  hidden : m'.hidden = m.hidden
  dropped : m'.dropped = m.dropped

/-- What charging for a text gives: the text, or the marker, paid for, or nothing. -/
def TextPaid (m : Meter) (value : String) (text : Option String) (m' : Meter) : Prop :=
  SpendsBytes m m' ∧ (text = none ∨ ∃ t, text = some t ∧ (t = value ∨ t = truncated) ∧
    jsonBytes t + m'.budget.bytesLeft ≤ m.budget.bytesLeft)

section Charges

variable {m : Meter}

/-- What a charge leaves. -/
theorem charge_some {budget budget' : Budget} {value : String} (h : budget.charge value = some budget') :
    budget'.nodesLeft = budget.nodesLeft ∧ jsonBytes value + budget'.bytesLeft = budget.bytesLeft := by
  unfold Budget.charge at h
  split at h
  · next hle =>
    cases h
    exact ⟨rfl, Nat.add_sub_of_le hle⟩
  · cases h

/-- What the marker leaves. -/
theorem marker_paid (budget : Budget) : budget.marker.2.nodesLeft = budget.nodesLeft ∧
    budget.marker.2.bytesLeft ≤ budget.bytesLeft ∧ (budget.marker.1 = none ∨ ∃ t, budget.marker.1 = some t ∧
      t = truncated ∧ jsonBytes t + budget.marker.2.bytesLeft ≤ budget.bytesLeft) := by
  unfold Budget.marker
  cases hcharge : budget.charge truncated with
  | none => exact ⟨rfl, le_rfl, .inl rfl⟩
  | some budget' =>
    obtain ⟨hnodes, hbytes⟩ := charge_some hcharge
    exact ⟨hnodes, by simp only; omega, .inr ⟨truncated, rfl, rfl, hbytes.le⟩⟩

/-- What charging for a text leaves. -/
theorem text_paid (budget : Budget) (value : String) : (budget.text value).2.nodesLeft = budget.nodesLeft ∧
    (budget.text value).2.bytesLeft ≤ budget.bytesLeft ∧ ((budget.text value).1 = none ∨
      ∃ t, (budget.text value).1 = some t ∧ (t = value ∨ t = truncated) ∧
        jsonBytes t + (budget.text value).2.bytesLeft ≤ budget.bytesLeft) := by
  unfold Budget.text
  cases hcharge : budget.charge value with
  | none =>
    obtain ⟨hnodes, hbytes, hmarker⟩ := marker_paid budget
    refine ⟨hnodes, hbytes, hmarker.imp_right ?_⟩
    rintro ⟨t, ht, heq, hle⟩
    exact ⟨t, ht, .inr heq, hle⟩
  | some budget' =>
    obtain ⟨hnodes, hbytes⟩ := charge_some hcharge
    exact ⟨hnodes, by simp only; omega, .inr ⟨value, rfl, .inl rfl, hbytes.le⟩⟩

/-- `reserve_node` takes a node and its overhead, or nothing is left. -/
theorem reserveNode_walks : Walks reserveNode m fun reserved m' =>
    (reserved = true → m'.budget.nodesLeft + 1 = m.budget.nodesLeft ∧
      m'.budget.bytesLeft + nodeOverheadBytes = m.budget.bytesLeft ∧ m'.hidden = m.hidden ∧ m'.dropped = m.dropped) ∧
    (reserved = false → m' = m ∧ m.budget.exhausted = true) := by
  unfold reserveNode
  apply walks_get_bind
  unfold Budget.reserveNode
  split
  · next hreserve =>
    split at hreserve
    · next hempty =>
      refine walks_pure ⟨nofun, fun _ => ⟨rfl, ?_⟩⟩
      unfold Budget.exhausted
      simpa using hempty
    · cases hreserve
  · next budget hreserve =>
    split at hreserve
    · cases hreserve
    · next hleft =>
      cases hreserve
      unfold nodeOverheadBytes at *
      refine walks_set_bind ?_ ?_ ?_
      · rfl
      · exact ⟨Nat.sub_le _ _, Nat.sub_le _ _, le_rfl⟩
      · refine walks_pure ⟨fun _ => ⟨?_, ?_, rfl, rfl⟩, nofun⟩
        · simp only
          omega
        · simp only
          omega

/-- `text` of a text of the module's own. -/
theorem chargeOwn_walks (value : String) : Walks (chargeOwn value) m (TextPaid m value) := by
  obtain ⟨hnodes, hbytes, hpaid⟩ := text_paid m.budget value
  unfold chargeOwn
  apply walks_get_bind
  refine walks_set_bind ?_ ?_ ?_
  · rfl
  · exact ⟨hnodes.le, hbytes, le_rfl⟩
  · exact walks_pure ⟨⟨hnodes, rfl, rfl⟩, hpaid⟩

/-- `marker`. -/
theorem chargeMarker_walks : Walks chargeMarker m (TextPaid m truncated) := by
  obtain ⟨hnodes, hbytes, hpaid⟩ := marker_paid m.budget
  unfold chargeMarker
  apply walks_get_bind
  refine walks_set_bind ?_ ?_ ?_
  · rfl
  · exact ⟨hnodes.le, hbytes, le_rfl⟩
  · refine walks_pure ⟨⟨hnodes, rfl, rfl⟩, hpaid.imp_right ?_⟩
    rintro ⟨t, ht, heq, hle⟩
    exact ⟨t, ht, .inl heq, hle⟩

/-- `text`: it raises on a text that has no encoding. -/
theorem chargeText_walks (value : PyText) :
    Walks (chargeText value) m fun text m' => ∃ s, TextPaid m s text m' := by
  unfold chargeText
  apply Proc.holds_get_bind
  apply Proc.holds_set_bind
  cases hencode : encodeText value with
  | none =>
    refine Proc.holds_raise ⟨⟨[value], rfl, ?_⟩, nofun⟩
    rw [List.forall_mem_singleton, hencode]
    exact iff_of_false Bool.false_ne_true Bool.false_ne_true
  | some s =>
    have howned : Walks (chargeOwn s) { m with charged := m.charged ++ [value] }
        (TextPaid { m with charged := m.charged ++ [value] } s) := chargeOwn_walks s
    refine Proc.Holds.imp howned fun r m' hr => ?_
    obtain ⟨⟨texts, htexts, hok⟩, hreturn⟩ := hr
    refine ⟨⟨[value] ++ texts, ?_, ?_⟩, fun text htext => ?_⟩
    · rw [htexts, List.append_assoc]
    · rw [hok, List.forall_mem_append, List.forall_mem_singleton, hencode]
      exact ⟨fun h => ⟨rfl, h⟩, fun h => h.2⟩
    · obtain ⟨hspends, hpaid⟩ := hreturn text htext
      exact ⟨⟨hspends.nodes, hspends.bytes, hspends.hidden⟩, s, ⟨hpaid.1.nodes, hpaid.1.hidden, hpaid.1.dropped⟩, hpaid.2⟩

end Charges

/-! ## Sizes -/

section Sizes

/-- A character of a JSON string has no fewer bytes than its own encoding. -/
theorem utf8Size_le_jsonWidth (c : Char) : c.utf8Size ≤ jsonWidth c := by
  have hascii : c.toNat < 0x80 → c.utf8Size = 1 := by
    intro hlt
    rw [Char.utf8Size_eq_one_iff, UInt32.le_iff_toNat_le]
    exact Nat.le_of_lt_succ hlt
  unfold jsonWidth
  split
  · next hescape =>
    have hmem : c ∈ JsonText.shortEscapes.map Prod.fst := by simpa using hescape
    simp only [JsonText.shortEscapes, List.map_cons, List.map_nil, List.mem_cons, List.not_mem_nil, or_false] at hmem
    rcases hmem with rfl | rfl | rfl | rfl | rfl | rfl | rfl <;> decide
  · split
    · rw [hascii (by omega)]
      exact Nat.le_add_left 1 5
    · exact le_rfl

/-- A text without quotes is shorter than the JSON string of it. -/
theorem plainBytes_le (s : String) : plainBytes s + 2 ≤ jsonBytes s := by
  unfold plainBytes jsonBytes
  have hsum := List.sum_le_sum fun c (_ : c ∈ s.toList) => utf8Size_le_jsonWidth c
  omega

variable {result : List (String × Emitted)} {n : ℕ}

/-- A weight that is summed over entries. -/
theorem weight_assign (weight : String × Emitted → ℕ) (key : String) (value : Emitted)
    (hnodup : (result.map Prod.fst).Nodup) :
    ((assign result key value).map weight).sum ≤ (result.map weight).sum + weight (key, value) := by
  unfold assign
  split
  · induction result with
    | nil => exact Nat.zero_le _
    | cons entry rest ih =>
      rw [List.map_cons, List.nodup_cons] at hnodup
      by_cases hkey : entry.1 = key
      · have hrest : rest.map (fun item => if item.1 = key then (key, value) else item) = rest := by
          rw [List.map_congr_left (g := id), List.map_id]
          intro item hitem
          refine if_neg fun heq => hnodup.1 ?_
          rw [hkey, ← heq]
          exact List.mem_map_of_mem hitem
        simp only [List.map_cons, hkey, if_true, hrest, List.sum_cons]
        omega
      · next hany =>
        have hrest : (rest.any fun item => item.1 == key) = true := by
          rw [List.any_cons, Bool.or_eq_true, beq_iff_eq] at hany
          exact hany.resolve_left hkey
        have hih := ih hnodup.2 hrest
        simp only [List.map_cons, if_neg hkey, List.sum_cons]
        omega
  · rw [List.map_append, List.sum_append, List.map_singleton, List.sum_singleton]

/-- An entry that is assigned keeps the keys distinct. -/
theorem nodup_assign (key : String) (value : Emitted) (hnodup : (result.map Prod.fst).Nodup) :
    ((assign result key value).map Prod.fst).Nodup := by
  unfold assign
  split
  · have hkeys : (result.map fun item => if item.1 = key then (key, value) else item).map Prod.fst =
        result.map Prod.fst := by
      rw [List.map_map]
      apply List.map_congr_left
      intro item _
      simp only [Function.comp]
      split
      · next heq => exact heq.symm
      · rfl
    rw [hkeys]
    exact hnodup
  · next hany =>
    rw [List.map_append, List.nodup_append]
    refine ⟨hnodup, List.nodup_singleton _, ?_⟩
    intro k hk k' hk' heq
    rw [List.map_singleton, List.mem_singleton] at hk'
    rw [heq, hk'] at hk
    obtain ⟨item, hitem, hfst⟩ := List.mem_map.mp hk
    exact hany (List.any_eq_true.mpr ⟨item, hitem, beq_iff_eq.mpr hfst⟩)

/-- The values and keys of entries, summed. -/
theorem countEntries_eq (items : List (String × Emitted)) :
    countEntries items = (items.map fun item => 1 + item.2.count).sum := by
  induction items with
  | nil => rfl
  | cons item items ih =>
    obtain ⟨key, value⟩ := item
    rw [countEntries, List.map_cons, List.sum_cons, ih]

/-- The bytes of entries, summed. -/
theorem sizeEntries_eq (items : List (String × Emitted)) :
    sizeEntries items = (items.map fun item => jsonBytes item.1 + 1 + item.2.size + 1).sum := by
  induction items with
  | nil => rfl
  | cons item items ih =>
    obtain ⟨key, value⟩ := item
    rw [sizeEntries, List.map_cons, List.sum_cons, ih]

/-- The depth of entries is that of one of them. -/
theorem depthEntries_le {items : List (String × Emitted)} :
    depthEntries items ≤ n ↔ ∀ item ∈ items, item.2.depth ≤ n := by
  induction items with
  | nil => simp [depthEntries]
  | cons item items ih =>
    obtain ⟨key, value⟩ := item
    rw [depthEntries, max_le_iff, ih, List.forall_mem_cons]

/-- The depth of an entry that is assigned. -/
theorem depth_assign {key : String} {value : Emitted} (hresult : depthEntries result ≤ n) (hvalue : value.depth ≤ n) :
    depthEntries (assign result key value) ≤ n := by
  rw [depthEntries_le] at hresult ⊢
  unfold assign
  split
  · intro item hitem
    obtain ⟨item', hitem', rfl⟩ := List.mem_map.mp hitem
    split
    · exact hvalue
    · exact hresult item' hitem'
  · intro item hitem
    rcases List.mem_append.mp hitem with hmem | hmem
    · exact hresult item hmem
    · rw [List.mem_singleton.mp hmem]
      exact hvalue

/-- The parts of a list that grows at its end. -/
theorem items_append (items : List Emitted) (value : Emitted) :
    countItems (items ++ [value]) = countItems items + value.count ∧
      sizeItems (items ++ [value]) = sizeItems items + (value.size + 1) ∧
      depthItems (items ++ [value]) = max (depthItems items) value.depth := by
  induction items with
  | nil => simp [countItems, sizeItems, depthItems]
  | cons item items ih =>
    obtain ⟨hcount, hsize, hdepth⟩ := ih
    simp only [List.cons_append, countItems, sizeItems, depthItems, hcount, hsize, hdepth]
    refine ⟨by omega, by omega, by rw [max_assoc]⟩

end Sizes

/-! ## What is paid -/

/-- A value that a walk returns is paid for, or nothing is left and nothing was taken. -/
def Paid (levels : ℕ) (m : Meter) (value : Emitted) (m' : Meter) : Prop :=
  (value = .none ∧ m' = m ∧ m.budget.exhausted = true) ∨
    (value.size + 1 + m'.budget.bytesLeft ≤ m.budget.bytesLeft ∧
      value.count + m'.budget.nodesLeft + m'.dropped + m.hidden = m.budget.nodesLeft + m.dropped + m'.hidden ∧
      value.depth ≤ levels)

/-- What the loops of a walk add to a result is paid for. -/
structure AddsPaid (m m' : Meter) (size size' count count' : ℕ) : Prop where
  bytes : size' + m'.budget.bytesLeft ≤ size + m.budget.bytesLeft
  nodes : count' + m'.budget.nodesLeft + m'.dropped + m.hidden = count + m.budget.nodesLeft + m.dropped + m'.hidden

/-- What a loop over entries leaves. -/
def EntriesPaid (levels : ℕ) (result : List (String × Emitted)) (m : Meter) (result' : List (String × Emitted))
    (m' : Meter) : Prop :=
  AddsPaid m m' (sizeEntries result) (sizeEntries result') (countEntries result) (countEntries result') ∧
    (result'.map Prod.fst).Nodup ∧ depthEntries result' ≤ levels

/-- What a loop over items leaves. -/
def ItemsPaid (levels : ℕ) (result : List Emitted) (m : Meter) (result' : List Emitted) (m' : Meter) : Prop :=
  AddsPaid m m' (sizeItems result) (sizeItems result') (countItems result) (countItems result') ∧
    depthItems result' ≤ levels

section Paying

variable {m : Meter}

/-- Nothing that is dropped is lost count of. -/
theorem dropSince_walks {before : Meter} (hspends : Spends before m) :
    Walks (dropSince before) m fun _ m' => m'.budget = m.budget ∧
      m'.budget.nodesLeft + m'.dropped + before.hidden = before.budget.nodesLeft + before.dropped + m'.hidden := by
  unfold dropSince
  apply walks_get_bind
  rw [← bind_pure (set _)]
  refine walks_set_bind ?_ ?_ ?_
  · rfl
  · exact ⟨le_rfl, le_rfl, le_rfl⟩
  · refine walks_pure ⟨rfl, ?_⟩
    have := hspends.nodes
    have := hspends.hidden
    simp only
    omega

/-- A value that is replaced is counted. -/
theorem countHidden_walks : Walks countHidden m fun _ m' =>
    m'.budget = m.budget ∧ m'.hidden = m.hidden + 1 ∧ m'.dropped = m.dropped := by
  unfold countHidden
  apply walks_get_bind
  rw [← bind_pure (set _)]
  refine walks_set_bind ?_ ?_ ?_
  · rfl
  · exact ⟨le_rfl, le_rfl, Nat.le_succ _⟩
  · exact walks_pure ⟨rfl, rfl, rfl⟩

/-- What an entry overwrites is counted as dropped. -/
theorem assignEntry_walks {result : List (String × Emitted)} (key : String) (value : Emitted)
    (hnodup : (result.map Prod.fst).Nodup) : Walks (assignEntry result key value) m fun result' m' =>
      m'.budget = m.budget ∧ m'.hidden = m.hidden ∧ result' = assign result key value ∧
      countEntries result' + m'.dropped = countEntries result + 1 + value.count + m.dropped := by
  unfold assignEntry
  apply walks_get_bind
  refine walks_set_bind ?_ ?_ ?_
  · rfl
  · exact ⟨le_rfl, le_rfl, le_rfl⟩
  · refine walks_pure ⟨rfl, rfl, rfl, ?_⟩
    have hle := weight_assign (fun item => 1 + item.2.count) key value hnodup
    rw [← countEntries_eq, ← countEntries_eq] at hle
    simp only at hle ⊢
    omega

end Paying

/-! ## The walk is paid for -/

section Walking

variable {redactInlineSecrets : PyText → PyText} {m : Meter} {levels : ℕ}

/-- The meter after the node of a value was reserved. -/
structure Reserved (m m' : Meter) : Prop where
  nodes : m'.budget.nodesLeft + 1 = m.budget.nodesLeft
  bytes : m'.budget.bytesLeft + nodeOverheadBytes = m.budget.bytesLeft
  hidden : m'.hidden = m.hidden
  dropped : m'.dropped = m.dropped

variable {m' : Meter} {value : Emitted} {result : List (String × Emitted)}

variable {m'' m₁ : Meter} {result' : List (String × Emitted)} {next : EventValue → MeterProc Emitted} {index : ℕ}

/-- What is charged for a text after its node was reserved pays for it. -/
theorem paid_of_text {value : String} {text : Option String} (hreserved : Reserved m m') (hspends : Spends m' m'')
    (hpaid : TextPaid m' value text m'') : Paid levels m (Emitted.ofText text) m'' := by
  obtain ⟨⟨hnodes, hhidden, hdropped⟩, htext⟩ := hpaid
  have hreservedNodes := hreserved.nodes
  have hreservedBytes := hreserved.bytes
  have hreservedHidden := hreserved.hidden
  have hreservedDropped := hreserved.dropped
  have hless := hspends.bytes
  unfold nodeOverheadBytes at hreservedBytes
  right
  rcases htext with rfl | ⟨t, rfl, -, hle⟩
  · simp only [Emitted.ofText, Emitted.size, Emitted.count, Emitted.depth]
    omega
  · simp only [Emitted.ofText, Emitted.size, Emitted.count, Emitted.depth]
    omega

/-- A value without parts, of few bytes, is paid for by its node. -/
theorem paid_of_small (hreserved : Reserved m m') (hcount : value.count = 1)
    (hsize : value.size + 1 ≤ nodeOverheadBytes) (hdepth : value.depth = 0) : Paid levels m value m' := by
  have hnodes := hreserved.nodes
  have hbytes := hreserved.bytes
  have hhidden := hreserved.hidden
  have hdropped := hreserved.dropped
  refine .inr ⟨?_, ?_, ?_⟩
  · omega
  · omega
  · omega

/-- A number is paid for by the text of it, or that text is emitted in its place. -/
theorem walkNumber_walks {own : Bool} {candidate : String} (hreserved : Reserved m m') (hcount : value.count = 1)
    (hdepth : value.depth = 0) (hsize : own = true → value.size ≤ jsonBytes candidate) :
    Walks (walkNumber own candidate value) m' (Paid levels m) := by
  unfold walkNumber
  refine walks_bind (chargeOwn_walks candidate) fun text m'' hspends hpaid => ?_
  cases text with
  | none => exact walks_pure (paid_of_text hreserved hspends hpaid)
  | some charged =>
    apply walks_pure
    split
    · next hsame =>
      obtain ⟨⟨hnodes, hhidden, hdropped⟩, htext⟩ := hpaid
      obtain ⟨t, ht, -, hle⟩ := htext.resolve_left nofun
      cases ht
      rw [hsame.1] at hle
      have hvalue := hsize hsame.2
      have hreservedNodes := hreserved.nodes
      have hreservedBytes := hreserved.bytes
      have hreservedHidden := hreserved.hidden
      have hreservedDropped := hreserved.dropped
      unfold nodeOverheadBytes at hreservedBytes
      refine .inr ⟨?_, ?_, ?_⟩
      · omega
      · omega
      · omega
    · exact paid_of_text hreserved hspends hpaid

/-- A scalar is paid for. -/
theorem walkScalar_walks (value : EventValue) (hreserved : Reserved m m') :
    Walks (walkScalar redactInlineSecrets value) m' (Paid levels m) := by
  have hmarker : Walks (Emitted.ofText <$> chargeMarker) m' (Paid levels m) :=
    walks_map chargeMarker_walks fun text m'' hspends hpaid => paid_of_text hreserved hspends hpaid
  have hplain : ∀ s, plainBytes s ≤ jsonBytes s := fun s => (Nat.le_add_right _ 2).trans (plainBytes_le s)
  cases value with
  | mapping items => exact hmarker
  | list items => exact hmarker
  | other => exact hmarker
  | none => exact walks_pure (paid_of_small hreserved rfl (by decide) rfl)
  | bool b =>
    refine walks_pure (paid_of_small hreserved rfl ?_ rfl)
    cases b with
    | true => decide
    | false => decide
  | int n =>
    rw [walkScalar]
    split
    · refine walkNumber_walks hreserved ?_ ?_ nofun
      · rfl
      · rfl
    · refine walkNumber_walks hreserved ?_ ?_ fun _ => ?_
      · rfl
      · rfl
      · exact hplain _
  | float f =>
    rw [walkScalar]
    split
    · refine walkNumber_walks hreserved ?_ ?_ fun _ => ?_
      · rfl
      · rfl
      · exact hplain _
    · refine walkNumber_walks hreserved ?_ ?_ nofun
      · rfl
      · rfl
  | str s =>
    rw [walkScalar]
    split
    · exact walks_pure (paid_of_small hreserved rfl (by decide) rfl)
    · refine walks_map (chargeText_walks _) fun text m'' hspends hpaid => ?_
      obtain ⟨t, hpaid⟩ := hpaid
      exact paid_of_text hreserved hspends hpaid

/-- A loop that ends leaves its result. -/
theorem entriesPaid_refl (hnodup : (result.map Prod.fst).Nodup) (hdepth : depthEntries result ≤ levels) :
    EntriesPaid levels result m result m :=
  ⟨⟨le_rfl, by omega⟩, hnodup, hdepth⟩

/-- One part of a loop after another. -/
theorem EntriesPaid.trans {result'' : List (String × Emitted)} (h : EntriesPaid levels result m result' m')
    (h' : EntriesPaid levels result' m' result'' m'') :
    EntriesPaid levels result m result'' m'' := by
  obtain ⟨⟨hbytes, hnodes⟩, -, -⟩ := h
  obtain ⟨⟨hbytes', hnodes'⟩, hnodup, hdepth⟩ := h'
  exact ⟨⟨by omega, by omega⟩, hnodup, hdepth⟩

/-- What is dropped leaves the result. -/
theorem entriesPaid_drop {before : Meter} (hspends : Spends before m)
    (hm' : m'.budget = m.budget ∧ m'.budget.nodesLeft + m'.dropped + before.hidden = before.budget.nodesLeft + before.dropped + m'.hidden)
    (hnodup : (result.map Prod.fst).Nodup) (hdepth : depthEntries result ≤ levels) :
    EntriesPaid levels result before result m' := by
  obtain ⟨hbudget, hnodes⟩ := hm'
  have hbytes := hspends.bytes
  refine ⟨⟨?_, by omega⟩, hnodup, hdepth⟩
  rw [hbudget]
  omega

/-- An entry that is assigned is paid for by its key, its value, and the node of its key; a value that has no
node of its own is counted as replaced. -/
theorem entriesPaid_assign {m₂ : Meter} {key : String} (hnodup : (result.map Prod.fst).Nodup)
    (hdepth : depthEntries result ≤ levels) (hvalue : value.depth ≤ levels)
    (hbytes : jsonBytes key + value.size + 3 + m₁.budget.bytesLeft ≤ m.budget.bytesLeft)
    (hnodes : 1 + value.count + m₁.budget.nodesLeft + m₁.dropped + m.hidden = m.budget.nodesLeft + m.dropped + m₁.hidden)
    (hassign : m₂.budget = m₁.budget ∧ m₂.hidden = m₁.hidden ∧ result' = assign result key value ∧ countEntries result' + m₂.dropped = countEntries result + 1 + value.count + m₁.dropped) :
    EntriesPaid levels result m result' m₂ := by
  obtain ⟨hbudget, hhidden, rfl, hcount⟩ := hassign
  have hsize := weight_assign (fun item => jsonBytes item.1 + 1 + item.2.size + 1) key value hnodup
  rw [← sizeEntries_eq, ← sizeEntries_eq] at hsize
  simp only at hsize
  refine ⟨⟨?_, ?_⟩, nodup_assign key value hnodup, depth_assign hdepth hvalue⟩
  · rw [hbudget]
    omega
  · rw [hbudget, hhidden]
    omega

/-- The loop over entries is paid for, if what it does with a value is. -/
theorem walkEntries_walks (hnext : ∀ value m, Walks (next value) m (Paid levels m))
    (items : List (EventKey × EventValue)) (hnodup : (result.map Prod.fst).Nodup)
    (hdepth : depthEntries result ≤ levels) :
    Walks (walkEntries next index items result) m (EntriesPaid levels result m) := by
  induction items generalizing index result m with
  | nil => exact walks_pure (entriesPaid_refl hnodup hdepth)
  | cons item items ih =>
    obtain ⟨rawKey, rawValue⟩ := item
    rw [walkEntries.eq_def]
    simp only
    split
    · exact walks_pure (entriesPaid_refl hnodup hdepth)
    · split
      · exact ih hnodup hdepth
      · split
        · exact ih hnodup hdepth
        · next key _ =>
          apply walks_get_bind
          refine walks_bind reserveNode_walks fun reserved m₁ hspends₁ hreserve => ?_
          cases reserved with
          | false =>
            rw [(hreserve.2 rfl).1]
            exact walks_pure (entriesPaid_refl hnodup hdepth)
          | true =>
            obtain ⟨hnodes₁, hbytes₁, hhidden₁, hdropped₁⟩ := hreserve.1 rfl
            unfold nodeOverheadBytes at hbytes₁
            refine walks_bind (chargeText_walks key) fun text m₂ hspends₂ hpaid => ?_
            obtain ⟨s, ⟨hnodes₂, hhidden₂, hdropped₂⟩, htext⟩ := hpaid
            have hspends := hspends₁.trans hspends₂
            cases text with
            | none =>
              refine walks_bind (dropSince_walks hspends) fun _ m₃ _ hdrop => ?_
              exact walks_pure (entriesPaid_drop hspends hdrop hnodup hdepth)
            | some name =>
              obtain ⟨t, ht, -, hname⟩ := htext.resolve_left nofun
              cases ht
              simp only
              split
              · refine walks_bind (chargeOwn_walks redacted) fun replaced m₃ hspends₃ hpaid => ?_
                obtain ⟨⟨hnodes₃, hhidden₃, hdropped₃⟩, hreplaced⟩ := hpaid
                cases replaced with
                | none =>
                  refine walks_bind (dropSince_walks (hspends.trans hspends₃)) fun _ m₄ _ hdrop => ?_
                  exact walks_pure (entriesPaid_drop (hspends.trans hspends₃) hdrop hnodup hdepth)
                | some hidden =>
                  obtain ⟨t, ht, -, hhidden⟩ := hreplaced.resolve_left nofun
                  cases ht
                  refine walks_bind countHidden_walks fun _ m₄ _ hcounted => ?_
                  obtain ⟨hbudget₄, hhidden₄, hdropped₄⟩ := hcounted
                  refine walks_bind (assignEntry_walks name (.str hidden) hnodup) fun result' m₅ _ hassign => ?_
                  have hpaid : EntriesPaid levels result m result' m₅ := by
                    refine entriesPaid_assign hnodup hdepth (Nat.zero_le _) ?_ ?_ hassign
                    · rw [hbudget₄]
                      simp only [Emitted.size]
                      omega
                    · rw [hbudget₄]
                      simp only [Emitted.count]
                      omega
                  exact (ih hpaid.2.1 hpaid.2.2).imp fun result'' m₆ _ h => hpaid.trans h
              · refine walks_bind (hnext rawValue m₂) fun value m₃ hspends₃ hpaid => ?_
                apply walks_get_bind
                split
                · refine walks_bind (dropSince_walks (hspends.trans hspends₃)) fun _ m₄ _ hdrop => ?_
                  exact walks_pure (entriesPaid_drop (hspends.trans hspends₃) hdrop hnodup hdepth)
                · next hgoes =>
                  -- A value that took nothing is `None` with nothing left, and the loop has ended there.
                  have hvalue := hpaid.resolve_left fun ⟨hnone, hsame, hexhausted⟩ => by
                    rw [hnone, hsame, hexhausted] at hgoes
                    exact hgoes rfl
                  obtain ⟨hsize, hcount, hlevels⟩ := hvalue
                  refine walks_bind (assignEntry_walks name value hnodup) fun result' m₄ _ hassign => ?_
                  have hpaid : EntriesPaid levels result m result' m₄ :=
                    entriesPaid_assign hnodup hdepth hlevels (by omega) (by omega) hassign
                  exact (ih hpaid.2.1 hpaid.2.2).imp fun result'' m₅ _ h => hpaid.trans h

/-- The loop over items is paid for, if what it does with a value is. -/
theorem walkItems_walks (hnext : ∀ value m, Walks (next value) m (Paid levels m)) (items : List EventValue)
    {result : List Emitted} (hdepth : depthItems result ≤ levels) :
    Walks (walkItems next index items result) m (ItemsPaid levels result m) := by
  have hends : ∀ (m : Meter) (result : List Emitted), depthItems result ≤ levels → ItemsPaid levels result m result m :=
    fun m result h => ⟨⟨le_rfl, by omega⟩, h⟩
  induction items generalizing index result m with
  | nil => exact walks_pure (hends m result hdepth)
  | cons item items ih =>
    rw [walkItems.eq_def]
    simp only
    split
    · exact walks_pure (hends m result hdepth)
    · apply walks_get_bind
      refine walks_bind (hnext item m) fun value m₁ hspends hpaid => ?_
      apply walks_get_bind
      split
      · refine walks_bind (dropSince_walks hspends) fun _ m₂ _ hdrop => ?_
        obtain ⟨hbudget, hnodes⟩ := hdrop
        have hbytes := hspends.bytes
        refine walks_pure ⟨⟨?_, by omega⟩, hdepth⟩
        rw [hbudget]
        omega
      · next hgoes =>
        have hvalue := hpaid.resolve_left fun ⟨hnone, hsame, hexhausted⟩ => by
          rw [hnone, hsame, hexhausted] at hgoes
          exact hgoes rfl
        obtain ⟨hsize, hcount, hlevels⟩ := hvalue
        obtain ⟨hcounts, hsizes, hdepths⟩ := items_append result value
        have hdepth' : depthItems (result ++ [value]) ≤ levels := by
          rw [hdepths]
          exact max_le hdepth hlevels
        refine (ih hdepth').imp fun result' m₂ _ h => ?_
        obtain ⟨⟨hbytes', hnodes'⟩, hresult⟩ := h
        rw [hcounts] at hnodes'
        rw [hsizes] at hbytes'
        exact ⟨⟨by omega, by omega⟩, hresult⟩

/-- A mapping is redacted to a dictionary that is paid for, if its values are. -/
theorem walk_mapping (hnext : ∀ value m, Walks (walk redactInlineSecrets levels value) m (Paid levels m))
    (items : List (EventKey × EventValue)) :
    Walks (walk redactInlineSecrets (levels + 1) (.mapping items)) m fun value m' =>
      Paid (levels + 1) m value m' ∧ (m.budget.exhausted = false → ∃ entries, value = .dict entries) := by
  rw [walk.eq_def]
  simp only
  refine walks_bind reserveNode_walks fun reserved m₁ _ hreserve => ?_
  cases reserved with
  | false =>
    obtain ⟨hsame, hexhausted⟩ := hreserve.2 rfl
    refine walks_pure ⟨.inl ⟨rfl, hsame, hexhausted⟩, fun hleft => ?_⟩
    rw [hexhausted] at hleft
    cases hleft
  | true =>
    obtain ⟨hnodes, hbytes, hhidden, hdropped⟩ := hreserve.1 rfl
    unfold nodeOverheadBytes at hbytes
    refine walks_map (walkEntries_walks hnext items List.nodup_nil (Nat.zero_le _)) fun result m₂ _ h => ?_
    obtain ⟨⟨hbytes', hnodes'⟩, -, hdepth⟩ := h
    simp only [sizeEntries, countEntries] at hbytes' hnodes'
    refine ⟨.inr ⟨?_, ?_, ?_⟩, fun _ => ⟨result, rfl⟩⟩
    · simp only [Emitted.size]
      omega
    · simp only [Emitted.count]
      omega
    · simp only [Emitted.depth]
      omega

/-- A list is redacted to a list that is paid for, if its items are. -/
theorem walk_list (hnext : ∀ value m, Walks (walk redactInlineSecrets levels value) m (Paid levels m))
    (items : List EventValue) (hreserved : Reserved m m₁) :
    Walks (Emitted.list <$> walkItems (walk redactInlineSecrets levels) 0 items []) m₁ (Paid (levels + 1) m) := by
  obtain ⟨hnodes, hbytes, hhidden, hdropped⟩ := hreserved
  unfold nodeOverheadBytes at hbytes
  refine walks_map (walkItems_walks hnext items (Nat.zero_le _)) fun result m₂ _ h => ?_
  obtain ⟨⟨hbytes', hnodes'⟩, hdepth⟩ := h
  simp only [sizeItems, countItems] at hbytes' hnodes'
  refine .inr ⟨?_, ?_, ?_⟩
  · simp only [Emitted.size]
    omega
  · simp only [Emitted.count]
    omega
  · simp only [Emitted.depth]
    omega

/-- A value whose node is reserved first is paid for if the rest is. -/
theorem walk_reserved {value : EventValue} {m : Meter} {rest : MeterProc Emitted}
    (hwalk : walk redactInlineSecrets (levels + 1) value = do
      if !(← reserveNode) then pure .none else rest)
    (hrest : ∀ m₁, Reserved m m₁ → Walks rest m₁ (Paid (levels + 1) m)) :
    Walks (walk redactInlineSecrets (levels + 1) value) m (Paid (levels + 1) m) := by
  rw [hwalk]
  refine walks_bind reserveNode_walks fun reserved m₁ _ hreserve => ?_
  cases reserved with
  | false => exact walks_pure (.inl ⟨rfl, hreserve.2 rfl⟩)
  | true =>
    obtain ⟨hnodes, hbytes, hhidden, hdropped⟩ := hreserve.1 rfl
    exact hrest m₁ ⟨hnodes, hbytes, hhidden, hdropped⟩

/-- What a walk returns is paid for. -/
theorem walk_paid (levels : ℕ) (value : EventValue) (m : Meter) :
    Walks (walk redactInlineSecrets levels value) m (Paid levels m) := by
  induction levels generalizing value m with
  | zero =>
    unfold walk
    refine walks_bind reserveNode_walks fun reserved m₁ _ hreserve => ?_
    cases reserved with
    | false => exact walks_pure (.inl ⟨rfl, hreserve.2 rfl⟩)
    | true =>
      obtain ⟨hnodes, hbytes, hhidden, hdropped⟩ := hreserve.1 rfl
      exact walks_map chargeMarker_walks fun text m₂ hspends hpaid =>
        paid_of_text ⟨hnodes, hbytes, hhidden, hdropped⟩ hspends hpaid
  | succ levels ih =>
    cases value with
    | mapping items => exact (walk_mapping ih items).imp fun _ _ _ h => h.1
    | list items => exact walk_reserved rfl fun m₁ hreserved => walk_list ih items hreserved
    | bool b => exact walk_reserved rfl fun m₁ hreserved => walkScalar_walks _ hreserved
    | none => exact walk_reserved rfl fun m₁ hreserved => walkScalar_walks _ hreserved
    | int n => exact walk_reserved rfl fun m₁ hreserved => walkScalar_walks _ hreserved
    | float f => exact walk_reserved rfl fun m₁ hreserved => walkScalar_walks _ hreserved
    | str s => exact walk_reserved rfl fun m₁ hreserved => walkScalar_walks _ hreserved
    | other => exact walk_reserved rfl fun m₁ hreserved => walkScalar_walks _ hreserved

end Walking

/-! ## Events -/

/-- An event that is emitted and within the bounds. -/
structure Bounded (event : Emitted) : Prop where
  size : event.size ≤ maxEventBytes
  depth : event.depth ≤ maxNesting + 2
  count : event.count ≤ maxEventNodes

/-- The name of an event is not long. -/
theorem jsonBytes_eventName (event_name : Option PyText) : jsonBytes (eventName event_name) ≤ 578 := by
  have hbytes : ∀ s : String, eventNamePattern s = true → jsonBytes s ≤ 578 := by
    intro s hs
    have hlength : s.toList.length ≤ 95 + 1 := (matchesRun_length hs).2
    have hwidth : ∀ w ∈ s.toList.map jsonWidth, w ≤ 6 := by
      intro w hw
      obtain ⟨c, -, rfl⟩ := List.mem_map.mp hw
      have hsize := c.utf8Size_le_four
      unfold jsonWidth
      split
      · omega
      · split
        · exact le_rfl
        · omega
    have hsum := List.sum_le_card_nsmul _ 6 hwidth
    rw [List.length_map, smul_eq_mul] at hsum
    unfold jsonBytes
    omega
  have hdefault : eventNamePattern "event" = true := by decide +kernel
  unfold eventName
  split
  · split
    · next hpattern => exact hbytes _ hpattern
    · exact hbytes _ hdefault
  · exact hbytes _ hdefault

/-- The budget of an event: what the envelope takes, and what is left for the fields. -/
theorem eventBudget_bytes (event_name : Option PyText) :
    (eventBudget (eventName event_name)).bytesLeft + jsonBytes (eventName event_name) +
      (jsonBytes "event" + jsonBytes "fields" + 5) = maxEventBytes := by
  have hname := jsonBytes_eventName event_name
  have hevent : jsonBytes "event" = 7 := by decide +kernel
  have hfields : jsonBytes "fields" = 8 := by decide +kernel
  unfold eventBudget maxEventBytes
  simp only
  omega

/-- The envelope of an event adds its own parts to those of the fields. -/
theorem envelope_parts (name : String) (fields : Emitted) :
    (Emitted.dict [("event", .str name), ("fields", fields)]).size =
        jsonBytes "event" + jsonBytes name + jsonBytes "fields" + fields.size + 5 ∧
      (Emitted.dict [("event", .str name), ("fields", fields)]).depth = 1 + fields.depth ∧
      (Emitted.dict [("event", .str name), ("fields", fields)]).count = 4 + fields.count := by
  refine ⟨?_, ?_, ?_⟩
  · have hname : (Emitted.str name).size = jsonBytes name := rfl
    rw [Emitted.size, sizeEntries, sizeEntries, sizeEntries, hname, List.isEmpty_cons, if_neg Bool.false_ne_true]
    omega
  · have hname : (Emitted.str name).depth = 0 := rfl
    rw [Emitted.depth, depthEntries, depthEntries, depthEntries, hname]
    omega
  · have hname : (Emitted.str name).count = 1 := rfl
    rw [Emitted.count, countEntries, countEntries, countEntries, hname]
    omega

/-- What `safe_event` returns and leaves: it returns exactly when every text that it charges encodes, and
every value and key that it returns is counted, but those that were replaced. -/
theorem safeEvent_walks (redactInlineSecrets : PyText → PyText) (event : List (EventKey × EventValue))
    (event_name : Option PyText) :
    ((safeEventPoints redactInlineSecrets event event_name).1.isOk = true ↔
      ∀ text ∈ (safeEventPoints redactInlineSecrets event event_name).2.charged, (encodeText text).isSome = true) ∧
    ∀ emitted, (safeEventPoints redactInlineSecrets event event_name).1 = .ok emitted →
      emitted.size ≤ maxEventBytes ∧ emitted.depth ≤ maxNesting + 2 ∧
      emitted.count + (safeEventPoints redactInlineSecrets event event_name).2.budget.nodesLeft +
        (safeEventPoints redactInlineSecrets event event_name).2.dropped =
          maxEventNodes + (safeEventPoints redactInlineSecrets event event_name).2.hidden := by
  have hbudget := eventBudget_bytes event_name
  have hname := jsonBytes_eventName event_name
  have hevent : jsonBytes "event" = 7 := by decide +kernel
  have hfields : jsonBytes "fields" = 8 := by decide +kernel
  have hleft : (eventBudget (eventName event_name)).exhausted = false := by
    unfold Budget.exhausted
    rw [Bool.or_eq_false_iff]
    refine ⟨rfl, decide_eq_false ?_⟩
    unfold maxEventBytes at hbudget
    unfold nodeOverheadBytes
    omega
  have hwalk : Walks (do
      let payload ← walk redactInlineSecrets (maxNesting + 1) (.mapping event)
      pure (Emitted.dict [("event", .str (eventName event_name)), ("fields", .dict payload.fields)]))
      ⟨eventBudget (eventName event_name), [], 0, 0⟩ fun emitted m' =>
        emitted.size ≤ maxEventBytes ∧ emitted.depth ≤ maxNesting + 2 ∧
          emitted.count + m'.budget.nodesLeft + m'.dropped = maxEventNodes + m'.hidden := by
    refine walks_bind (walk_mapping (walk_paid _) event) fun payload m' _ hpaid => walks_pure ?_
    obtain ⟨hpaid, hdict⟩ := hpaid
    obtain ⟨entries, rfl⟩ := hdict hleft
    obtain ⟨hsize, hcount, hdepth⟩ := hpaid.resolve_left fun h => nomatch h.1
    have hnodes : (eventBudget (eventName event_name)).nodesLeft = 508 := rfl
    obtain ⟨hsizes, hdepths, hcounts⟩ := envelope_parts (eventName event_name) (.dict entries)
    simp only [Emitted.fields]
    rw [hsizes, hdepths, hcounts]
    simp only at hsize hcount
    unfold maxEventNodes
    refine ⟨by omega, by omega, by omega⟩
  obtain ⟨⟨texts, htexts, hok⟩, hreturn⟩ := hwalk
  refine ⟨?_, fun emitted hemitted => (hreturn emitted hemitted).2⟩
  rw [List.nil_append] at htexts
  unfold safeEventPoints
  rw [hok]
  simp only
  rw [htexts]

/-- What holds of the events that are emitted, and when. -/
structure EmitsBounded (redactInlineSecrets : PyText → PyText) (event : List (EventKey × EventValue))
    (event_name : Option PyText) : Prop where
  bounded_iff : (∃ emitted, (safeEventPoints redactInlineSecrets event event_name).1 = .ok emitted ∧ Bounded emitted) ↔
    (∀ text ∈ (safeEventPoints redactInlineSecrets event event_name).2.charged, (encodeText text).isSome = true) ∧
      (safeEventPoints redactInlineSecrets event event_name).2.hidden ≤
        (safeEventPoints redactInlineSecrets event event_name).2.budget.nodesLeft +
          (safeEventPoints redactInlineSecrets event event_name).2.dropped
  returned : ∀ emitted, (safeEventPoints redactInlineSecrets event event_name).1 = .ok emitted →
    emitted.size ≤ maxEventBytes ∧ emitted.depth ≤ maxNesting + 2

end RickIntelligence.Observability
