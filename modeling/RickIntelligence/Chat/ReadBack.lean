import RickIntelligence.Lib.Run
import RickIntelligence.Lib.Validated
import RickIntelligence.Chat.Replay
import RickIntelligence.Chat.StoredText

/-!
# A stored turn is read back

`SQLiteChatHistoryStore.append` with the texts of its columns (`Sqlite.store`), and what the store says of the
turn afterwards: the answer to a retry of the request, the pages of the history and the context of the
conversation (`ReadBack`).

The writer has no bound on the length of a text and the reader has one. A response whose text takes more than
`MAX_HISTORY_JSON_BYTES` octets is accepted, and from then on its row has no response: the retry of its own
request is a conflict, and the history leaves it out. A turn is read back if and only if the text of its
response fits (`readBack_iff`).

The argument is an invariant of the rows, `Kept`: two rows of a scope have different message ids and different
keys, and every response was cut down and written.
-/

namespace RickIntelligence.Chat

open Lib

namespace Sqlite

/-! ## The store over texts -/

/-- `append`, with the texts that it makes before its transaction. -/
def store (env : Env) (fl : Wire.Floats ℚ) (q : Sqlite) (now : ℚ) (a : Append) :
    Except ChatError (SafeResponse × Sqlite) := do
  let t ← a.turn env 8000
  let _texts ← storedTexts fl t.response
  q.append env (columnsOf fl) now t

/-- `list_history_page`. -/
def historyPage (env : Env) (columns : Columns) (q : Sqlite) (scope : Scope) (id : Option String)
    (allowed : Option (List String)) (limit offset : ℤ) : Page HistoryItem :=
  pageOf (q.history env columns scope id allowed) limit offset

/-- A call that changes the store. -/
inductive Call where
  | append (now : ℚ) (a : Append)
  | outcome (now : ℚ) (o : StreamOutcome)
  | create (scope : Scope) (id : String) (title collection_id : Option String) (now : ℚ)
  | archive (scope : Scope) (id : String) (now : ℚ)

/-- The store after a call. A call that raises leaves it as it is. -/
def after (env : Env) (fl : Wire.Floats ℚ) (q : Sqlite) : Call → Sqlite
  | .append now a => ((q.store env fl now a).toOption.map Prod.snd).getD q
  | .outcome now o =>
    (((o.append 8000).bind fun a => q.store env fl now a).toOption.map Prod.snd).getD q
  | .create scope id title collection_id now =>
    ((q.create scope id title collection_id now).toOption.map Prod.snd).getD q
  | .archive scope id now => (q.archive scope id now).2

/-- The states of the store in the runs of calls. -/
def Reachable (env : Env) (fl : Wire.Floats ℚ) (q : Sqlite) : Prop :=
  Relation.ReflTransGen (fun q q' => ∃ call, q' = after env fl q call) empty q

/-! ## The order of the turns -/

/-- The order of `newestFirst`: the first row does not come after the second one. -/
def notOlder (r r' : Row) : Bool :=
  decide (r'.created_at < r.created_at ∨
    (r'.created_at = r.created_at ∧ r'.response.message_id ≤ r.response.message_id))

/-- How many turns of a scope, and of a conversation if there is one, are not older than a turn; it is one of
them. -/
def notOlderCount (q : Sqlite) (scope : Scope) (id : Option String) (row : Row) : ℕ :=
  q.rows.countP fun r => r.scope == scope && id.all (· == r.response.conversation_id) && notOlder r row

/-- A row is not older than itself. -/
theorem notOlder_self (r : Row) : notOlder r r = true := decide_eq_true (.inr ⟨rfl, le_rfl⟩)

/-- The order is transitive. -/
theorem notOlder_trans (a b c : Row) (hab : notOlder a b = true) (hbc : notOlder b c = true) :
    notOlder a c = true := by
  unfold notOlder at hab hbc ⊢
  rw [decide_eq_true_eq] at hab hbc ⊢
  rcases hab with hab | ⟨hab, hids⟩
  · rcases hbc with hbc | ⟨hbc, -⟩
    · exact .inl (hbc.trans hab)
    · exact .inl (hbc ▸ hab)
  · rcases hbc with hbc | ⟨hbc, hids'⟩
    · exact .inl (hab ▸ hbc)
    · exact .inr ⟨hbc.trans hab, hids'.trans hids⟩

/-- Of two rows one is not older than the other. -/
theorem notOlder_total (a b : Row) : (notOlder a b || notOlder b a) = true := by
  unfold notOlder
  rw [Bool.or_eq_true, decide_eq_true_eq, decide_eq_true_eq]
  rcases lt_trichotomy a.created_at b.created_at with h | h | h
  · exact .inr (.inl h)
  · rcases le_total a.response.message_id b.response.message_id with hids | hids
    · exact .inr (.inr ⟨h, hids⟩)
    · exact .inl (.inr ⟨h.symm, hids⟩)
  · exact .inl (.inl h)

/-- The rows with the newest first are in the order. -/
theorem newestFirst_sorted (rows : List Row) :
    (newestFirst rows).Pairwise fun r r' => notOlder r r' = true :=
  List.pairwise_mergeSort notOlder_trans notOlder_total rows

variable {α : Type} {a : Append} {r : Row} {allowed : Option (List String)} {i : ℕ} {limit : ℤ}

/-- A member of a list in an order stands before as many members as there are at or before it in the order. -/
theorem exists_place {p : α → α → Bool} {l : List α} (hsorted : l.Pairwise fun a b => p a b = true) {a : α}
    (hself : p a a = true) (ha : a ∈ l) : ∃ i, i < l.countP (fun b => p b a) ∧ l[i]? = some a := by
  induction l with
  | nil => cases ha
  | cons b l ih =>
    obtain ⟨hfirst, hrest⟩ := List.pairwise_cons.mp hsorted
    rcases List.mem_cons.mp ha with rfl | ha
    · refine ⟨0, ?_, rfl⟩
      have hcount : (a :: l).countP (fun b => p b a) = l.countP (fun b => p b a) + 1 :=
        List.countP_cons_of_pos hself
      omega
    · obtain ⟨i, hi, hget⟩ := ih hrest ha
      have hcount : (b :: l).countP (fun b => p b a) = l.countP (fun b => p b a) + 1 :=
        List.countP_cons_of_pos (hfirst a ha)
      exact ⟨i + 1, by omega, hget⟩

/-- The place of a row among the rows that pass a check, with the newest first. -/
theorem place_newestFirst {rows : List Row} {p : Row → Bool} {row : Row} (hrow : row ∈ rows)
    (hp : p row = true) : ∃ i, i < rows.countP (notOlder · row) ∧
      ((newestFirst rows).filter p)[i]? = some row := by
  have hsorted := (newestFirst_sorted rows).filter p
  have hperm : (newestFirst rows).Perm rows := List.mergeSort_perm rows _
  have hmem : row ∈ (newestFirst rows).filter p := List.mem_filter.mpr ⟨hperm.mem_iff.mpr hrow, hp⟩
  obtain ⟨i, hi, hget⟩ := exists_place hsorted (notOlder_self row) hmem
  refine ⟨i, hi.trans_le ?_, hget⟩
  calc ((newestFirst rows).filter p).countP (notOlder · row)
      ≤ (newestFirst rows).countP (notOlder · row) := List.filter_sublist.countP_le
    _ = rows.countP (notOlder · row) := hperm.countP_eq _

/-! ## What is asked of the store -/

/-- A turn as an item of the history. -/
def item (r : Row) : HistoryItem :=
  ⟨r.response.conversation_id, r.response.message_id, r.question, r.response.answer, r.response.citations,
    r.response.metadata, r.created_at⟩

/-- Every collection is allowed: there is no restriction, or one with the name of all. -/
def AllCollections (allowed : Option (List String)) : Prop := ∀ ids ∈ normaliseAllowed allowed, "*" ∈ ids

/-- What the store says of a turn: the retry of its request is answered with its response, it is on the page of
the history that covers its place, and its messages are in the context of its conversation, for a limit that
its place is within. Its place is not after that of the older turns. A turn whose stream was interrupted is not
replayed, and not part of a context. -/
structure ReadBack (env : Env) (fl : Wire.Floats ℚ) (q : Sqlite) (scope : Scope) (key : String)
    (fingerprint : Option String) (row : Row) : Prop where
  replayed : row.response.interrupted = false →
    q.replay env (columnsOf fl) scope key (some row.response.conversation_id) fingerprint =
      .ok (some row.response)
  listed : ∀ id allowed, id = none ∨ id = some row.response.conversation_id → AllCollections allowed →
    ∃ i < q.notOlderCount scope id row,
      (q.history env (columnsOf fl) scope id allowed)[i]? = some (item row) ∧
      ∀ limit offset, (boundedPage limit offset).2 ≤ i →
        i < (boundedPage limit offset).2 + (boundedPage limit offset).1 →
        item row ∈ (q.historyPage env (columnsOf fl) scope id allowed limit offset).items
  told : row.response.interrupted = false → ∀ limit allowed, AllCollections allowed →
    (q.notOlderCount scope (some row.response.conversation_id) row : ℤ) ≤ min 50 limit →
    [("user", row.question), ("assistant", row.response.answer)] <:+:
      q.context (columnsOf fl) scope row.response.conversation_id limit allowed

/-! ## What holds of the rows -/

/-- Two rows of a scope have different message ids and different keys. -/
def Apart (r r' : Row) : Prop :=
  r.scope = r'.scope → r.response.message_id ≠ r'.response.message_id ∧ (r.key = none ∨ r.key ≠ r'.key)

/-- What holds of the store in every run. -/
structure Kept (env : Env) (fl : Wire.Floats ℚ) (q : Sqlite) : Prop where
  apart : q.rows.Pairwise Apart
  safe : ∀ r ∈ q.rows, safeChatResponse env 8000 r.response.members = .ok r.response
  written : ∀ r ∈ q.rows, Written fl r.response

variable {env : Env} {fl : Wire.Floats ℚ} {columns : Columns} {q q' : Sqlite} {t : Turn} {now : ℚ}
  {response : SafeResponse} {key : String} {row : Row}

/-- Rows stand apart in both directions. -/
theorem apart_symm (r r' : Row) (h : Apart r r') : Apart r' r := by
  intro hscope
  obtain ⟨hids, hkeys⟩ := h hscope.symm
  refine ⟨hids.symm, ?_⟩
  by_cases hnone : r'.key = none
  · exact .inl hnone
  · right
    rcases hkeys with hkey | hkey
    · rw [hkey]
      exact hnone
    · exact hkey.symm

/-- Rows of a scope with the same message id are the same. -/
theorem Kept.eq_of_id (h : Kept env fl q) {r' : Row} (hr : r ∈ q.rows) (hr' : r' ∈ q.rows)
    (hscope : r.scope = r'.scope) (hid : r.response.message_id = r'.response.message_id) : r = r' := by
  have : Std.Symm Apart := ⟨apart_symm⟩
  by_contra hne
  exact (h.apart.forall hr hr' hne hscope).1 hid

/-- The message id of a turn that is not taken is not that of another row. -/
theorem not_taken {own : Row → Bool} (h : q.taken t own ≠ true) (hr : r ∈ q.rows) (hown : own r = false)
    (hscope : r.scope = t.scope) :
    r.response.message_id ≠ t.response.message_id := by
  intro hid
  apply h
  unfold taken
  rw [List.any_eq_true]
  refine ⟨r, hr, ?_⟩
  rw [hown, hscope, hid]
  simp

/-- What a new turn is. -/
theorem insertTurn_ok (h : q.insertTurn now t = .ok (response, q')) :
    response = t.response ∧ q'.rows = q.rows ++ [Sqlite.row t now] ∧ (q.taken t fun _ => false) ≠ true := by
  obtain ⟨hresponse, hrows⟩ := insertTurn_rows h
  refine ⟨hresponse, hrows, ?_⟩
  unfold insertTurn at h
  dsimp only at h
  split at h
  · split_ifs at h with harchived htaken
    exact htaken
  · split_ifs at h with htaken
    exact htaken

/-- What `append` does: it answers with the stored response, writes the turn over the interrupted one of its
key, or adds it. -/
theorem append_cases (h : q.append env columns now t = .ok (response, q')) :
    (∃ key r, t.key = some key ∧ q.find t.scope key = some r ∧ columns.response r.response = true ∧
      r.response.conversation_id = t.response.conversation_id ∧ r.fingerprint = t.fingerprint ∧
      r.response.interrupted = false ∧ safeChatResponse env 8000 r.response.members = .ok response ∧ q' = q) ∨
    (∃ key r, t.key = some key ∧ q.find t.scope key = some r ∧ response = t.response ∧
      q.taken t (carries t.scope key) ≠ true ∧
      q'.rows = q.rows.map fun r => if carries t.scope key r then Sqlite.row t now else r) ∨
    ((∀ key, t.key = some key → q.find t.scope key = none) ∧ response = t.response ∧
      q'.rows = q.rows ++ [Sqlite.row t now] ∧ (q.taken t fun _ => false) ≠ true) := by
  unfold append at h
  cases hkey : t.key with
  | none =>
    rw [hkey] at h
    exact .inr (.inr ⟨nofun, insertTurn_ok h⟩)
  | some key =>
    rw [hkey] at h
    dsimp only at h
    cases hfind : q.find t.scope key with
    | none =>
      rw [hfind] at h
      refine .inr (.inr ⟨?_, insertTurn_ok h⟩)
      intro key' hkey'
      rw [← Option.some.inj hkey']
      exact hfind
    | some r =>
      rw [hfind] at h
      dsimp only at h
      split_ifs at h with hother hinterrupted htaken
      · cases h
        exact .inr (.inl ⟨key, r, rfl, hfind, rfl, htaken, rfl⟩)
      · rw [not_or, not_or, not_not, not_not, Bool.not_eq_false] at hother
        rw [Bool.not_eq_true] at hinterrupted
        cases hstored : safeChatResponse env 8000 r.response.members with
        | error e =>
          rw [hstored] at h
          cases h
        | ok response' =>
          rw [hstored] at h
          cases h
          exact .inl ⟨key, r, rfl, hfind, hother.1, hother.2.1, hother.2.2, hinterrupted, hstored, rfl⟩

/-- The row that is found carries the key. -/
theorem find_mem {scope : Scope} (h : q.find scope key = some r) :
    r ∈ q.rows ∧ r.scope = scope ∧ r.key = some key := by
  obtain ⟨hscope, hkey⟩ := carries_iff.mp (List.find?_some h)
  exact ⟨List.mem_of_find?_eq_some h, hscope, hkey⟩

/-- A row that is found is found in what is written over it. -/
theorem find_replaced (hkey : t.key = some key) (hfind : q.find t.scope key = some r)
    (hrows : q'.rows = q.rows.map fun r => if carries t.scope key r then Sqlite.row t now else r) :
    q'.find t.scope key = some (Sqlite.row t now) := by
  have hnew : carries t.scope key (Sqlite.row t now) = true := carries_iff.mpr ⟨rfl, hkey⟩
  have hsame : (carries t.scope key ∘ fun r => if carries t.scope key r then Sqlite.row t now else r) =
      carries t.scope key := by
    funext r
    show carries t.scope key (if carries t.scope key r then Sqlite.row t now else r) = _
    split
    · next hr => rw [hnew, hr]
    · rfl
  have hcarries : carries t.scope key r = true := List.find?_some hfind
  change q.rows.find? (carries t.scope key) = some r at hfind
  show q'.rows.find? (carries t.scope key) = _
  rw [hrows, List.find?_map, hsame, hfind, Option.map_some, if_pos hcarries]

/-- The row that is added is the one of its key. -/
theorem find_added (hkey : t.key = some key) (hfind : q.find t.scope key = none)
    (hrows : q'.rows = q.rows ++ [Sqlite.row t now]) : q'.find t.scope key = some (Sqlite.row t now) := by
  have hnew : carries t.scope key (Sqlite.row t now) = true := carries_iff.mpr ⟨rfl, hkey⟩
  change q.rows.find? (carries t.scope key) = none at hfind
  show q'.rows.find? (carries t.scope key) = _
  rw [hrows, List.find?_append, hfind, Option.none_or]
  exact List.find?_cons_of_pos hnew

/-- A turn that is added keeps what holds of the rows. -/
theorem Kept.add (h : Kept env fl q) (hfree : ∀ key, t.key = some key → q.find t.scope key = none)
    (hrows : q'.rows = q.rows ++ [Sqlite.row t now]) (htaken : (q.taken t fun _ => false) ≠ true)
    (hsafe : safeChatResponse env 8000 t.response.members = .ok t.response) (hwritten : Written fl t.response) :
    Kept env fl q' := by
  have hall : ∀ {P : Row → Prop}, (∀ r ∈ q.rows, P r) → P (Sqlite.row t now) → ∀ r ∈ q'.rows, P r := by
    intro P hold hnew r hr
    rw [hrows] at hr
    rcases List.mem_append.mp hr with hr | hr
    · exact hold r hr
    · cases List.mem_singleton.mp hr
      exact hnew
  refine ⟨?_, hall h.safe hsafe, hall h.written hwritten⟩
  rw [hrows]
  refine List.pairwise_append.mpr ⟨h.apart, List.pairwise_singleton _ _, ?_⟩
  intro r hr r' hr' hscope
  cases List.mem_singleton.mp hr'
  refine ⟨not_taken htaken hr rfl hscope, ?_⟩
  show r.key = none ∨ r.key ≠ t.key
  cases hkey : t.key with
  | none => exact Classical.em _
  | some key =>
    right
    intro hsame
    have hnone : q.rows.find? (carries t.scope key) = none := hfree key hkey
    exact List.find?_eq_none.mp hnone r hr (carries_iff.mpr ⟨hscope, hsame⟩)

/-- A turn that is written over the one of its key keeps what holds of the rows. -/
theorem Kept.replace (h : Kept env fl q) (hkey : t.key = some key)
    (hrows : q'.rows = q.rows.map fun r => if carries t.scope key r then Sqlite.row t now else r)
    (htaken : q.taken t (carries t.scope key) ≠ true)
    (hsafe : safeChatResponse env 8000 t.response.members = .ok t.response) (hwritten : Written fl t.response) :
    Kept env fl q' := by
  have hall : ∀ {P : Row → Prop}, (∀ r ∈ q.rows, P r) → P (Sqlite.row t now) → ∀ r ∈ q'.rows, P r := by
    intro P hold hnew r hr
    rw [hrows] at hr
    obtain ⟨r₀, hr₀, rfl⟩ := List.mem_map.mp hr
    split
    · exact hnew
    · exact hold r₀ hr₀
  -- The row that is written stands apart from the rows of other keys.
  have hothers : ∀ r ∈ q.rows, carries t.scope key r = false → Apart (Sqlite.row t now) r := by
    intro r hr hother hscope
    refine ⟨(not_taken htaken hr hother hscope.symm).symm, .inr ?_⟩
    intro hsame
    have hcarries : carries t.scope key r = true := carries_iff.mpr ⟨hscope.symm, hsame.symm.trans hkey⟩
    rw [hother] at hcarries
    cases hcarries
  refine ⟨?_, hall h.safe hsafe, hall h.written hwritten⟩
  rw [hrows]
  refine List.pairwise_map.mpr (h.apart.imp_of_mem ?_)
  intro r r' hr hr' hapart
  cases hcarries : carries t.scope key r with
  | true =>
    cases hcarries' : carries t.scope key r' with
    | true =>
      obtain ⟨hscope, hrkey⟩ := carries_iff.mp hcarries
      obtain ⟨hscope', hrkey'⟩ := carries_iff.mp hcarries'
      obtain ⟨-, hkeys⟩ := hapart (hscope.trans hscope'.symm)
      rw [hrkey, hrkey'] at hkeys
      simp at hkeys
    | false => exact hothers r' hr' hcarries'
  | false =>
    cases hcarries' : carries t.scope key r' with
    | true => exact apart_symm _ _ (hothers r hr hcarries)
    | false => exact hapart

/-- What `append` keeps, and the row of its key afterwards: that of the turn, or the row that was there. -/
theorem append_kept (h : Kept env fl q) (happend : q.append env columns now t = .ok (response, q'))
    (hsafe : safeChatResponse env 8000 t.response.members = .ok t.response) (hwritten : Written fl t.response) :
    Kept env fl q' ∧ ∀ key, t.key = some key → ∃ row, q'.find t.scope key = some row ∧
      row.response = response ∧ row.response.conversation_id = t.response.conversation_id ∧
      row.fingerprint = t.fingerprint ∧
      (row = Sqlite.row t now ∨ q' = q ∧ columns.response row.response = true) := by
  rcases append_cases happend with
    ⟨key, r, hkey, hfind, hreadable, hconversation, hfingerprint, -, hstored, rfl⟩ |
    ⟨key, r, hkey, hfind, rfl, htaken, hrows⟩ | ⟨hfree, rfl, hrows, htaken⟩
  · refine ⟨h, ?_⟩
    intro key' hkey'
    cases hkey.symm.trans hkey'
    obtain ⟨hr, -, -⟩ := find_mem hfind
    have hsame : r.response = response := Except.ok.inj ((h.safe r hr).symm.trans hstored)
    exact ⟨r, hfind, hsame, hconversation, hfingerprint, .inr ⟨rfl, hreadable⟩⟩
  · refine ⟨h.replace hkey hrows htaken hsafe hwritten, ?_⟩
    intro key' hkey'
    cases hkey.symm.trans hkey'
    exact ⟨Sqlite.row t now, find_replaced hkey hfind hrows, rfl, rfl, rfl, .inl rfl⟩
  · refine ⟨h.add hfree hrows htaken hsafe hwritten, ?_⟩
    intro key' hkey'
    exact ⟨Sqlite.row t now, find_added hkey' (hfree key' hkey') hrows, rfl, rfl, rfl, .inl rfl⟩

/-! ## Every run -/

/-- What `store` is, when it succeeds: the turn of the call is appended, and its response was written. -/
theorem store_ok (h : q.store env fl now a = .ok (response, q')) :
    ∃ t, a.turn env 8000 = .ok t ∧ Written fl t.response ∧
      q.append env (columnsOf fl) now t = .ok (response, q') := by
  obtain ⟨t, hturn, h⟩ := except_bind_ok.mp h
  obtain ⟨texts, htexts, h⟩ := except_bind_ok.mp h
  exact ⟨t, hturn, written_of_texts htexts, h⟩

/-- What holds of the rows depends on nothing else. -/
theorem Kept.of_rows (h : Kept env fl q) (hrows : q'.rows = q.rows) : Kept env fl q' := by
  obtain ⟨hapart, hsafe, hwritten⟩ := h
  rw [← hrows] at hapart hsafe hwritten
  exact ⟨hapart, hsafe, hwritten⟩

/-- What a call that may raise keeps. -/
theorem Kept.getD (h : Kept env fl q) {result : Except ChatError (α × Sqlite)}
    (hok : ∀ a q', result = .ok (a, q') → Kept env fl q') :
    Kept env fl ((result.toOption.map Prod.snd).getD q) := by
  cases result with
  | error e => exact h
  | ok r => exact hok r.1 r.2 rfl

/-- What `store` keeps. -/
theorem store_kept (h : Kept env fl q) (hstore : q.store env fl now a = .ok (response, q')) :
    Kept env fl q' := by
  obtain ⟨t, hturn, hwritten, happend⟩ := store_ok hstore
  exact (append_kept h happend (turn_safe (w := .append a) hturn) hwritten).1

/-- What one call keeps. -/
theorem after_kept (h : Kept env fl q) (call : Call) : Kept env fl (after env fl q call) := by
  cases call with
  | append now a => exact h.getD fun response q' hstore => store_kept h hstore
  | outcome now o =>
    apply h.getD
    intro response q' houtcome
    obtain ⟨a, -, hstore⟩ := except_bind_ok.mp houtcome
    exact store_kept h hstore
  | create scope id title collection_id now =>
    apply h.getD
    intro c q' hcreate
    apply h.of_rows
    unfold create at hcreate
    split at hcreate
    · cases hcreate
      rfl
    · split at hcreate <;> cases hcreate
      rfl
  | archive scope id now =>
    apply h.of_rows
    show (q.archive scope id now).2.rows = q.rows
    unfold archive
    split <;> rfl

/-- What holds of the rows of every state of the store. -/
theorem Reachable.kept (h : Reachable env fl q) : Kept env fl q := by
  have hempty : Kept env fl empty :=
    ⟨.nil, fun _ hr => (List.not_mem_nil hr).elim, fun _ hr => (List.not_mem_nil hr).elim⟩
  refine run_invariant (I := Kept env fl) ?_ hempty h
  rintro q _ hq ⟨call, rfl⟩
  exact after_kept hq call

/-- A key that is not blank is not left out. -/
theorem normaliseKey_some (hblank : strip key ≠ "") : normaliseKey (some key) = some (cut 128 (strip key)) := by
  have hcut : cut 128 (strip key) ≠ "" := by
    intro hempty
    apply hblank
    have hchars : (strip key).toList.take 128 = [] := by
      rw [← String.toList_ofList (l := (strip key).toList.take 128)]
      exact String.toList_eq_nil_iff.mpr hempty
    rcases List.take_eq_nil_iff.mp hchars with hzero | hchars
    · omega
    · exact String.toList_eq_nil_iff.mp hchars
  unfold normaliseKey
  rw [Option.getD_some]
  split
  · next hempty => exact (hcut hempty).elim
  · rfl

/-- The key and the fingerprint of a turn are those of the call. -/
theorem turn_fields (h : a.turn env 8000 = .ok t) :
    t.key = normaliseKey a.idempotency_key ∧ t.fingerprint = a.fingerprint := by
  unfold Append.turn at h
  cases hscope : a.session.scope with
  | error e =>
    rw [hscope] at h
    cases h
  | ok scope =>
    cases hresponse : safeChatResponse env 8000 a.response with
    | error e =>
      rw [hscope, hresponse] at h
      cases h
    | ok response =>
      rw [hscope, hresponse] at h
      generalize hkey : normaliseKey a.idempotency_key = k at h ⊢
      cases h
      exact ⟨rfl, rfl⟩

/-! ## What is read -/

/-- A turn is allowed if every collection is. -/
theorem turnAllowed_all (h : AllCollections allowed) (citations : List Json.Members) :
    turnAllowed citations allowed = true := by
  unfold turnAllowed
  cases hids : normaliseAllowed allowed with
  | none => rfl
  | some ids =>
    dsimp only
    rw [List.contains_iff_mem.mpr (h ids hids), Bool.true_or]

/-- The citations of a response that was cut down are shown if every collection is allowed. -/
theorem filterCitations_all (h : AllCollections allowed) {r : SafeResponse}
    (hsafe : safeChatResponse env 8000 r.members = .ok r) : filterCitations r.citations allowed = r.citations := by
  unfold filterCitations
  rw [(safe_parts hsafe).1]
  cases hids : normaliseAllowed allowed with
  | none => rfl
  | some ids => exact if_pos (List.contains_iff_mem.mpr (h ids hids))

/-- What is on a page of a list. -/
theorem mem_pageOf {items : List α} {a : α} (h : items[i]? = some a) {offset : ℤ}
    (hstart : (boundedPage limit offset).2 ≤ i)
    (hend : i < (boundedPage limit offset).2 + (boundedPage limit offset).1) :
    a ∈ (pageOf items limit offset).items := by
  show a ∈ (items.drop (boundedPage limit offset).2).take (boundedPage limit offset).1
  rw [List.mem_iff_getElem?]
  refine ⟨i - (boundedPage limit offset).2, ?_⟩
  rw [List.getElem?_take_of_lt (by omega), List.getElem?_drop, Nat.add_sub_cancel' hstart]
  exact h

/-- The last messages of a context are those of the newest turns, of which each has two. -/
theorem infix_lastMessages {shown : List Row} (h : shown[i]? = some row) (hlimit : (i : ℤ) < min 50 limit) :
    [("user", row.question), ("assistant", row.response.answer)] <:+: lastMessages limit
      (shown.reverse.flatMap fun r => [("user", r.question), ("assistant", r.response.answer)]) := by
  let pair : Row → List (String × String) := fun r => [("user", r.question), ("assistant", r.response.answer)]
  have hpair : ∀ r, (pair r).length = 2 := fun _ => rfl
  have hlength : ∀ rows : List Row, (rows.flatMap pair).length = 2 * rows.length := by
    intro rows
    induction rows with
    | nil => rfl
    | cons r rows ih =>
      rw [List.flatMap_cons, List.length_append, ih, hpair, List.length_cons]
      omega
  obtain ⟨hi, hrow⟩ := List.getElem?_eq_some_iff.mp h
  have hsplit : shown = shown.take i ++ row :: shown.drop (i + 1) := by
    rw [← hrow, List.getElem_cons_drop, List.take_append_drop]
  have htake : (shown.take i).length = i := List.length_take_of_le (by omega)
  have hmessages : shown.reverse.flatMap pair =
      (shown.drop (i + 1)).reverse.flatMap pair ++ (pair row ++ (shown.take i).reverse.flatMap pair) := by
    conv_lhs => rw [hsplit]
    simp [List.flatMap_append]
  show pair row <:+: (shown.reverse.flatMap pair).drop
    ((shown.reverse.flatMap pair).length - (min 50 (max 0 limit)).toNat * 2)
  have hrest : ((shown.take i).reverse.flatMap pair).length = 2 * i := by
    rw [hlength, List.length_reverse, htake]
  rw [hmessages, List.length_append, List.length_append, hrest, hpair row]
  -- The messages of the older turns make room before those of this one are dropped.
  rw [List.drop_append_of_le_length (by omega)]
  exact ⟨_, _, List.append_assoc _ _ _⟩

/-- The rows of a scope, and of a conversation if there is one, that are not older than a turn. -/
theorem countP_filter_notOlder (q : Sqlite) (scope : Scope) (id : Option String) (row : Row) :
    (q.rows.filter fun r => r.scope == scope && id.all (· == r.response.conversation_id)).countP
      (notOlder · row) = q.notOlderCount scope id row := by
  unfold notOlderCount
  rw [List.countP_filter]
  apply List.countP_congr
  intro r _
  rw [Bool.and_comm]

/-! ## The turn -/

section Turn

variable {scope : Scope} {fingerprint : Option String}

/-- The turns of a history without a restriction are those whose response is read back. -/
theorem history_eq (h : Kept env fl q) {allowed : Option (List String)} (hallowed : AllCollections allowed)
    (id : Option String) : q.history env (columnsOf fl) scope id allowed =
      ((newestFirst (q.rows.filter fun r => r.scope == scope &&
        id.all (· == r.response.conversation_id))).filter fun r => fits fl r.response).map item := by
  have hrows : ∀ r ∈ newestFirst (q.rows.filter fun r => r.scope == scope &&
      id.all (· == r.response.conversation_id)), r ∈ q.rows := by
    intro r hr
    have hmem := (List.mergeSort_perm (q.rows.filter fun r => r.scope == scope &&
      id.all (· == r.response.conversation_id)) notOlder).mem_iff.mp hr
    exact List.mem_of_mem_filter hmem
  unfold history
  dsimp only
  have hshown : ∀ r ∈ newestFirst (q.rows.filter fun r => r.scope == scope &&
      id.all (· == r.response.conversation_id)),
      ((columnsOf fl).response r.response && turnAllowed r.response.citations allowed) = fits fl r.response := by
    intro r hr
    have hmem := hrows r hr
    rw [turnAllowed_all hallowed, Bool.and_true]
    exact columns_response (h.safe r hmem) (h.written r hmem)
  rw [List.filter_congr hshown]
  apply List.map_congr_left
  intro r hr
  have hsafe := h.safe r (hrows r (List.mem_of_mem_filter hr))
  rw [filterCitations_all hallowed hsafe, (safe_parts hsafe).2]
  rfl

/-- A turn whose text fits is read back. -/
theorem readBack_of_fits (h : Kept env fl q) (hfind : q.find scope (cut 128 (strip key)) = some row)
    (hfingerprint : row.fingerprint = fingerprint) (hfits : fits fl row.response = true) :
    ReadBack env fl q scope key fingerprint row := by
  obtain ⟨hrow, hscope, -⟩ := find_mem hfind
  have hsafe := h.safe row hrow
  have hreadable : (columnsOf fl).response row.response = true := by
    rw [columns_response hsafe (h.written row hrow)]
    exact hfits
  have hfiltered : ∀ id : Option String, id = none ∨ id = some row.response.conversation_id →
      row ∈ q.rows.filter fun r => r.scope == scope && id.all (· == r.response.conversation_id) := by
    rintro id (rfl | rfl) <;> exact List.mem_filter.mpr ⟨hrow, by simp [hscope]⟩
  refine ⟨?_, ?_, ?_⟩
  · intro hcomplete
    unfold replay
    simp only [hfind, hreadable, hcomplete, hsafe, hfingerprint]
    simp
  · intro id allowed hid hallowed
    obtain ⟨i, hi, hget⟩ := place_newestFirst (p := fun r => fits fl r.response) (hfiltered id hid) hfits
    have hitem : (q.history env (columnsOf fl) scope id allowed)[i]? = some (item row) := by
      rw [history_eq h hallowed id, List.getElem?_map, hget]
      rfl
    rw [countP_filter_notOlder] at hi
    exact ⟨i, hi, hitem, fun limit offset hstart hend => mem_pageOf hitem hstart hend⟩
  · intro hcomplete limit allowed hallowed hlimit
    have hshown : (turnAllowed (if (columnsOf fl).citations row.response.citations then row.response.citations
        else []) allowed && !((columnsOf fl).metadata row.response.metadata && row.response.interrupted)) = true := by
      rw [turnAllowed_all hallowed, hcomplete, Bool.and_false]
      rfl
    obtain ⟨i, hi, hget⟩ := place_newestFirst
      (p := fun r => turnAllowed (if (columnsOf fl).citations r.response.citations then r.response.citations
        else []) allowed && !((columnsOf fl).metadata r.response.metadata && r.response.interrupted))
      (hfiltered (some row.response.conversation_id) (.inr rfl)) hshown
    rw [countP_filter_notOlder] at hi
    have hwithin : (i : ℤ) < min 50 limit := by omega
    have hplace := infix_lastMessages hget hwithin
    have hid : ∀ r : Row, (some row.response.conversation_id).all (· == r.response.conversation_id) =
        (r.response.conversation_id == row.response.conversation_id) := fun r => BEq.comm
    simp only [hid] at hplace
    unfold context
    dsimp only
    rw [List.filter_reverse]
    exact hplace

/-- The text of a turn that is read back fits. -/
theorem fits_of_readBack (h : Kept env fl q) (hrow : row ∈ q.rows) (hscope : row.scope = scope)
    (hread : ReadBack env fl q scope key fingerprint row) : fits fl row.response = true := by
  have hall : AllCollections none := fun ids hids => nomatch hids
  obtain ⟨i, -, hget, -⟩ := hread.listed none none (.inl rfl) hall
  have hitem : item row ∈ q.history env (columnsOf fl) scope none none := List.mem_of_getElem? hget
  rw [history_eq h hall none] at hitem
  obtain ⟨r, hr, hsame⟩ := List.mem_map.mp hitem
  obtain ⟨hr, hfits⟩ := List.mem_filter.mp hr
  obtain ⟨hmem, hfilter⟩ := List.mem_filter.mp ((List.mergeSort_perm _ notOlder).mem_iff.mp hr)
  rw [Option.all_none, Bool.and_true, beq_iff_eq] at hfilter
  -- The item carries the message id of the turn, and no other row of the scope does.
  have hid : r.response.message_id = row.response.message_id := congrArg HistoryItem.message_id hsame
  rw [← h.eq_of_id hmem hrow (hfilter.trans hscope.symm) hid]
  exact hfits

end Turn

end Sqlite

/-- A response that was cut down is not changed by doing so again. And after every run of calls of the store in
SQLite, a call of `append` with a key that is not blank, if it succeeds, leaves the turn of the key, which is the
turn of the call or the one that was stored for its request, with the response that it returned; this turn is
read back if and only if the text of its response takes at most `MAX_HISTORY_JSON_BYTES` octets. -/
theorem turn_read_back (env : Env) (fl : Wire.Floats ℚ) :
    (∀ n value r, safeChatResponse env n value = .ok r → safeChatResponse env n r.members = .ok r) ∧
    ∀ q, Sqlite.Reachable env fl q → ∀ now a key, a.idempotency_key = some key → strip key ≠ "" →
      ∀ response q', q.store env fl now a = .ok (response, q') →
        ∃ t row, a.turn env 8000 = .ok t ∧ q'.find t.scope (cut 128 (strip key)) = some row ∧
          (row = Sqlite.row t now ∨ q' = q) ∧ row.response = response ∧
          row.response.conversation_id = t.response.conversation_id ∧
          (Sqlite.ReadBack env fl q' t.scope key a.fingerprint row ↔ fits fl response = true) := by
  refine ⟨fun _ _ _ hr => safe_again hr, ?_⟩
  intro q hq now a key hkey hblank response q' hstore
  obtain ⟨t, hturn, hwritten, happend⟩ := Sqlite.store_ok hstore
  have hsafe := turn_safe (w := .append a) hturn
  obtain ⟨hkept, hrow⟩ := Sqlite.append_kept hq.kept happend hsafe hwritten
  obtain ⟨htkey, htfingerprint⟩ := Sqlite.turn_fields hturn
  rw [hkey, Sqlite.normaliseKey_some hblank] at htkey
  obtain ⟨row, hfind, hresponse, hconversation, hfingerprint, hcase⟩ := hrow _ htkey
  obtain ⟨hmem, hscope, -⟩ := Sqlite.find_mem hfind
  refine ⟨t, row, hturn, hfind, hcase.imp_right And.left, hresponse, hconversation, ?_⟩
  rw [← hresponse]
  constructor
  · exact Sqlite.fits_of_readBack hkept hmem hscope
  · exact Sqlite.readBack_of_fits hkept hfind (hfingerprint.trans htfingerprint)

/-- A call of `append` with the key `k` and a citation with a title. -/
def citingCall (title : String) : Append where
  session := ⟨"t", "w", "u"⟩
  message := "q"
  response := [("conversation_id", .str "c1"), ("message_id", .str "m1"), ("answer", .str "a"),
    ("citations", .arr [.obj [("document_id", .str "d1"), ("title", .str title)]])]
  idempotency_key := some "k"
  fingerprint := some "f"

/-- The response that is stored for it. -/
def citingResponse (title : String) : SafeResponse where
  conversation_id := "c1"
  message_id := "m1"
  answer := "a"
  citations := [[("document_id", .str "d1"), ("title", .str title)]]
  metadata := []

/-- The turn of the call. -/
def citingTurn (title : String) : Turn where
  scope := ⟨"t", "w", "u"⟩
  question := "q"
  response := citingResponse title
  key := some "k"
  fingerprint := some "f"

/-- The response of the call is cut down to the one that is stored. -/
theorem citing_safe (title : String) :
    safeChatResponse plainEnv 8000 (citingCall title).response = .ok (citingResponse title) := by
  have hids : (validId "c1" && validId "m1") = true := by decide +kernel
  have hanswer : cut 8000 "a" = "a" := by decide +kernel
  have htruthy : (Json.str "d1").truthy = true := by decide +kernel
  have hcitations : safeCitations (.arr [.obj [("document_id", .str "d1"), ("title", .str title)]]) =
      [[("document_id", .str "d1"), ("title", .str title)]] := by
    simp [safeCitations, safeCitation, Json.pick, citationNames, Json.member?, List.lookup, scalar, htruthy]
  unfold safeChatResponse citingCall
  simp [Json.member?, List.lookup, hids, hanswer, hcitations, safeAnswer, overflows, safeStreamMetadata,
    citingResponse]

/-- The turn of the call. -/
theorem citing_turn (title : String) : (citingCall title).turn plainEnv 8000 = .ok (citingTurn title) := by
  have hscope : Session.scope ⟨"t", "w", "u"⟩ = .ok ⟨"t", "w", "u"⟩ := by decide +kernel
  have hkey : normaliseKey (some "k") = some "k" := by decide +kernel
  have hquestion : cut 20000 "q" = "q" := by decide +kernel
  unfold Append.turn
  rw [citing_safe]
  show (do
    let scope ← Session.scope ⟨"t", "w", "u"⟩
    return (⟨scope, cut 20000 "q", citingResponse title, normaliseKey (some "k"), some "f"⟩ : Turn)) = _
  rw [hscope, hkey, hquestion]
  rfl

/-- The store after the call. -/
def citingStore (title : String) : Sqlite where
  rows := [Sqlite.row (citingTurn title) 1]
  conversations := ((Sqlite.mk [] (Function.update (fun _ => none) (⟨"t", "w", "u"⟩, "c1")
    (some (firstConversation "q" 1)))).touch (citingTurn title) 1).conversations

/-- The call is accepted, whatever the title. -/
theorem citing_stored (fl : Wire.Floats ℚ) (title : String) :
    Sqlite.empty.store plainEnv fl 1 (citingCall title) = .ok (citingResponse title, citingStore title) := by
  unfold Sqlite.store
  rw [citing_turn]
  rfl

/-- The row of the key. -/
theorem citing_found (title : String) :
    (citingStore title).find ⟨"t", "w", "u"⟩ (cut 128 (strip "k")) = some (Sqlite.row (citingTurn title) 1) := by
  have hkey : cut 128 (strip "k") = "k" := by decide +kernel
  rw [hkey]
  rfl

/-- A turn with a short title is read back. -/
theorem short_title_read_back : ∃ q row, Sqlite.empty.store plainEnv wholeRationals 1 (citingCall "Report") =
      .ok (citingResponse "Report", q) ∧
    q.find ⟨"t", "w", "u"⟩ (cut 128 (strip "k")) = some row ∧
    Sqlite.ReadBack plainEnv wholeRationals q ⟨"t", "w", "u"⟩ "k" (some "f") row := by
  have hstored := citing_stored wholeRationals "Report"
  have hblank : strip "k" ≠ "" := by decide +kernel
  have hfits : fits wholeRationals (citingResponse "Report") = true := by decide +kernel
  obtain ⟨t, row, hturn, hfind, -, -, -, hread⟩ :=
    (turn_read_back plainEnv wholeRationals).2 .empty .refl 1 (citingCall "Report") "k" rfl hblank _ _ hstored
  cases (citing_turn "Report").symm.trans hturn
  exact ⟨_, row, hstored, hfind, hread.mpr hfits⟩

/-! ## A long title -/

/-- A text is not longer than its spelling. -/
theorem length_le_quoted (ascii : Bool) (s : CodePoints) : s.length ≤ (Wire.quoted ascii s).length := by
  have hunit : ∀ u : Wire.CodeUnit, 1 ≤ u.write.length := by
    intro u
    unfold Wire.CodeUnit.write
    split
    · split <;> simp
    · simp
  have hunits : ∀ us : List Wire.CodeUnit, us.length ≤ (us.flatMap Wire.CodeUnit.write).length := by
    intro us
    induction us with
    | nil => exact le_rfl
    | cons u us ih =>
      rw [List.flatMap_cons, List.length_append, List.length_cons]
      have := hunit u
      omega
  have hchar : ∀ c, 1 ≤ (Wire.unitsOf ascii c).length := by
    intro c
    unfold Wire.unitsOf
    split_ifs <;> simp
  have hchars : s.length ≤ (s.flatMap (Wire.unitsOf ascii)).length := by
    induction s with
    | nil => exact le_rfl
    | cons c s ih =>
      rw [List.flatMap_cons, List.length_append, List.length_cons]
      have := hchar c
      omega
  have hescape := hchars.trans (hunits _)
  unfold Wire.quoted Wire.escape
  rw [List.length_append, List.length_cons]
  omega

/-- One of the texts that are joined is not longer than all of them. -/
theorem length_le_intercalate {sep : CodePoints} {texts : List CodePoints} {text : CodePoints}
    (h : text ∈ texts) : text.length ≤ (sep.intercalate texts).length := by
  induction texts with
  | nil => cases h
  | cons first rest ih =>
    cases rest with
    | nil =>
      rw [List.mem_singleton.mp h, List.intercalate_singleton]
    | cons second rest =>
      rw [List.intercalate_cons_cons, List.length_append, List.length_append]
      rcases List.mem_cons.mp h with rfl | h
      · omega
      · have := ih h
        omega

variable {fl : Wire.Floats ℚ} {w : Wire ℚ}

/-- The text of an item is not longer than that of the list. -/
theorem length_le_list {items : List (Wire ℚ)} (h : w ∈ items) :
    (Wire.render fl false w).length ≤ (Wire.render fl false (.list items)).length := by
  have hitem : (Wire.render fl false w).length ≤
      (([0x2c] : CodePoints).intercalate (items.map (Wire.render fl false))).length :=
    length_le_intercalate (List.mem_map_of_mem h)
  rw [Wire.render, Wire.renderItems_eq, List.length_append, List.length_cons]
  omega

/-- The text of a value is not longer than that of the dictionary. -/
theorem length_le_dict {members : List (CodePoints × Wire ℚ)} {n : CodePoints} (h : (n, w) ∈ members) :
    (Wire.render fl false w).length ≤ (Wire.render fl false (.dict members)).length := by
  have hmember : (Wire.renderMember fl false (n, w)).length ≤
      (([0x2c] : CodePoints).intercalate (members.map (Wire.renderMember fl false))).length :=
    length_le_intercalate (List.mem_map_of_mem h)
  have hvalue : (Wire.render fl false w).length ≤ (Wire.renderMember fl false (n, w)).length := by
    show _ ≤ (Wire.quoted false n ++ 0x3a :: Wire.render fl false w).length
    rw [List.length_append, List.length_cons]
    omega
  rw [Wire.render, Wire.renderMembers_eq, List.length_append, List.length_cons]
  omega

/-- A response whose citation has a title of more than `MAX_HISTORY_JSON_BYTES` characters does not fit. -/
theorem citing_long (fl : Wire.Floats ℚ) {title : String} (h : maxHistoryJsonBytes < title.length) :
    fits fl (citingResponse title) = false := by
  have htitle : title.length ≤ (Wire.render fl false (wire (.str title))).length := by
    refine le_trans ?_ (length_le_quoted false (codePoints title))
    unfold codePoints
    rw [List.length_map, String.length_toList]
  have hcitation : (Wire.render fl false (wire (.str title))).length ≤ (Wire.render fl false
      (wire (.obj [("document_id", .str "d1"), ("title", .str title)]))).length :=
    length_le_dict (n := codePoints "title") (.tail _ (.head _))
  have hcitations : (Wire.render fl false
      (wire (.obj [("document_id", .str "d1"), ("title", .str title)]))).length ≤
      (Wire.render fl false (wire (.arr ((citingResponse title).citations.map .obj)))).length :=
    length_le_list (.head _)
  have hresponse : (Wire.render fl false (wire (.arr ((citingResponse title).citations.map .obj)))).length ≤
      (Wire.render fl false (wire (.obj (citingResponse title).members))).length :=
    length_le_dict (n := codePoints "citations") (.tail _ (.tail _ (.tail _ (.head _))))
  rw [Bool.eq_false_iff]
  intro hfits
  have hlength := length_le_of_fitsBytes hfits
  omega

/-- The title of 262145 characters. -/
def longTitle : String := String.ofList (List.replicate 262145 'x')

/-- A response with a long title is accepted and lost: the retry of its request is a conflict, and the history
does not have it. -/
theorem long_title_lost : ∃ q, Sqlite.empty.store plainEnv wholeRationals 1 (citingCall longTitle) =
      .ok (citingResponse longTitle, q) ∧
    (citingResponse longTitle).interrupted = false ∧
    q.replay plainEnv (columnsOf wholeRationals) ⟨"t", "w", "u"⟩ "k" (some "c1") (some "f") =
      .error .conflict ∧
    q.history plainEnv (columnsOf wholeRationals) ⟨"t", "w", "u"⟩ none none = [] := by
  have hlong : maxHistoryJsonBytes < longTitle.length := by
    unfold longTitle
    rw [String.length_ofList, List.length_replicate]
    decide
  have hsafe := safe_again (citing_safe longTitle)
  have hunreadable : (columnsOf wholeRationals).response (citingResponse longTitle) = false := by
    rw [columns_response hsafe rfl]
    exact citing_long wholeRationals hlong
  have hkept : Sqlite.Kept plainEnv wholeRationals (citingStore longTitle) := by
    have hempty : Sqlite.Reachable plainEnv wholeRationals .empty := .refl
    exact Sqlite.store_kept hempty.kept (citing_stored wholeRationals longTitle)
  refine ⟨citingStore longTitle, citing_stored wholeRationals longTitle, rfl, ?_, ?_⟩
  · unfold Sqlite.replay
    rw [citing_found]
    dsimp only
    have hresponse : (Sqlite.row (citingTurn longTitle) 1).response = citingResponse longTitle := rfl
    rw [hresponse, hunreadable]
    simp
  · have hall : Sqlite.AllCollections none := fun ids hids => nomatch hids
    rw [Sqlite.history_eq hkept hall none, List.map_eq_nil_iff, List.filter_eq_nil_iff]
    intro r hr
    have hmem := List.mem_of_mem_filter ((List.mergeSort_perm _ Sqlite.notOlder).mem_iff.mp hr)
    rw [List.mem_singleton.mp hmem, Bool.not_eq_true]
    exact citing_long wholeRationals hlong

end RickIntelligence.Chat
