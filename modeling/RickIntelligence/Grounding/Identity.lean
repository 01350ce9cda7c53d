import RickIntelligence.Grounding.Validator

/-!
# Identity of evidence

The id of an item is the digest of its fourteen fields as JSON, cut off after 32 digits. Where the digests
of two items do not collide, the items have one id only if they have the same fields: the JSON text can be
read member by member (`canonicalJson_inj`). The scores count as written, so that the two zeros differ.
-/

namespace RickIntelligence.Grounding

open Lib Lib.JsonText

/-! ## JSON text of the fields -/

/-- The double is a number. -/
def Double.IsFinite : Double → Prop
  | .finite _ _ => True
  | _ => False

/-- What is known of `repr` of a double: it is read back as the number, and it is made of digits, a point,
an exponent and signs. -/
structure ReprSpec (repr : Double → List Char) : Prop where
  inj : ∀ x y : Double, x.IsFinite → y.IsFinite → repr x = repr y → x = y
  plain : ∀ x : Double, x.IsFinite → ∀ c ∈ repr x, c.isDigit = true ∨ c ∈ ['.', 'e', '+', '-']

/-- The scores of an item are numbers. -/
structure Provenance.Scored (p : Provenance) : Prop where
  retrieval : p.retrieval_score.IsFinite
  reranking : p.reranking_score.IsFinite

variable {name : String} {x : Double} {args : IssueArgs} {p : Provenance} {env : Env} {n m den den' : ℕ}

/-- A score that is normalised is a number. -/
theorem finiteScore_isFinite {value : Arg} (h : finiteScore name value = .ok x) : x.IsFinite := by
  have hidem : finiteScore name (.float x) = .ok x := finiteScore_idem h
  cases x with
  | finite s m => exact trivial
  | _ => cases hidem

/-- The scores of an item that is normalised are numbers. -/
theorem scored_of_normalise (h : args.normalise = .ok p) :
    p.Scored := by
  simp only [IssueArgs.normalise, except_bind_ok, pure, Except.pure, Except.ok.injEq] at h
  obtain ⟨_, -, _, -, _, -, _, -, _, -, _, -, _, -, _, -, _, -, _, -, _, -, _, -, retrieval_score, h13,
    reranking_score, h14, rfl⟩ := h
  exact ⟨finiteScore_isFinite h13, finiteScore_isFinite h14⟩

/-- Numbers are delimited as they are written. -/
theorem delimited_repr {repr : Double → List Char} (h : ReprSpec repr) :
    Delimited fun x : {x : Double // x.IsFinite} => repr x.1 := by
  apply delimited_of_plain
  · intro x y heq
    exact Subtype.ext (h.inj x.1 y.1 x.2 y.2 heq)
  · intro x c hc hends
    rcases h.plain x.1 x.2 c hc with hdigit | hmem
    · rcases hends with rfl | rfl | rfl <;> cases hdigit
    · rcases hends with rfl | rfl | rfl <;> revert hmem <;> decide

/-- Pages are delimited as they are written. -/
theorem delimited_writePage : Delimited writePage := by
  apply delimited_orNull delimited_toDigits
  intro n hhead
  cases hdigits : Nat.toDigits 10 n with
  | nil =>
    rw [hdigits] at hhead
    cases hhead
  | cons d ds =>
    rw [hdigits, List.head?_cons, Option.some.injEq] at hhead
    have hdigit : d.isDigit = true :=
      Nat.isDigit_of_mem_toDigits (by omega) (by omega) (hdigits ▸ List.mem_cons_self)
    rw [hhead] at hdigit
    cases hdigit

/-- Sections are delimited as they are written. -/
theorem delimited_section : Delimited (orNull quoted) := by
  apply delimited_orNull delimited_quoted
  intro s hhead
  cases hhead

/-- Two items with the same JSON text have the same fields. -/
theorem canonicalJson_inj (hrepr : ReprSpec env.repr) {q : Provenance} (hp : p.Scored) (hq : q.Scored)
    (h : p.canonicalJson env = q.canonicalJson env) : p = q := by
  have htext := fun name => delimited_member delimited_quoted name
  have hpage := fun name => delimited_member delimited_writePage name
  have hscore := fun name => delimited_member (delimited_repr hrepr) name
  unfold Provenance.canonicalJson dumpObject at h
  simp only [List.map_cons, List.map_nil, List.cons_append, List.cons.injEq, true_and] at h
  obtain ⟨h1, h⟩ := joined_cons_inj (htext "checksum") h
  obtain ⟨h2, h⟩ := joined_cons_inj (htext "chunk_id") h
  obtain ⟨h3, h⟩ := joined_cons_inj (htext "collection_id") h
  obtain ⟨h4, h⟩ := joined_cons_inj (htext "document_id") h
  obtain ⟨h5, h⟩ := joined_cons_inj (htext "document_version") h
  obtain ⟨h6, h⟩ := joined_cons_inj (hpage "page_end") h
  obtain ⟨h7, h⟩ := joined_cons_inj (hpage "page_start") h
  obtain ⟨h8, h⟩ := joined_cons_inj (hscore "reranking_score")
    (a := ⟨p.reranking_score, hp.reranking⟩) (b := ⟨q.reranking_score, hq.reranking⟩) h
  obtain ⟨h9, h⟩ := joined_cons_inj (hscore "retrieval_score")
    (a := ⟨p.retrieval_score, hp.retrieval⟩) (b := ⟨q.retrieval_score, hq.retrieval⟩) h
  obtain ⟨h10, h⟩ := joined_cons_inj (delimited_member delimited_section "section") h
  obtain ⟨h11, h⟩ := joined_cons_inj (htext "source") h
  obtain ⟨h12, h⟩ := joined_cons_inj (htext "tenant_id") h
  obtain ⟨h13, h⟩ := joined_cons_inj (htext "text") h
  have h14 := joined_singleton_inj (htext "workspace_id") (.inr (.inl rfl)) h
  rw [Subtype.mk.injEq] at h8 h9
  cases p
  cases q
  simp only [Provenance.mk.injEq]
  exact ⟨h12, h14, h3, h4, h5, h2, h11, h7, h6, h10, h1, h13, h9, h8⟩

/-! ## Ids -/

/-- The part of the digest of a text that goes into an id. -/
def Env.digest (env : Env) (raw : List Char) : List Char := (env.hexdigest raw).take 32

/-- Two issued items whose digests do not collide have one id exactly if they have the same fields. -/
theorem evidence_id_iff (hrepr : ReprSpec env.repr) {args' : IssueArgs} {e e' : Evidence env}
    (h : issue env args = .ok e) (h' : issue env args' = .ok e')
    (hsha : Set.InjOn env.digest {e.val.provenance.canonicalJson env,
      e'.val.provenance.canonicalJson env}) :
    e.val.evidence_id = e'.val.evidence_id ↔ e.val.provenance = e'.val.provenance := by
  obtain ⟨hnormal, -, hid⟩ := issue_ok.mp h
  obtain ⟨hnormal', -, hid'⟩ := issue_ok.mp h'
  rw [hid, hid']
  constructor
  · intro heq
    have hdigest := List.append_cancel_left (String.ofList_injective heq)
    have hjson := hsha (Set.mem_insert _ _) (Set.mem_insert_of_mem _ rfl) hdigest
    exact canonicalJson_inj hrepr (scored_of_normalise hnormal) (scored_of_normalise hnormal') hjson
  · intro heq
    rw [heq]

/-! ## Bundles -/

/-- A field that is a token was one. -/
theorem token_of_tokenField {value v : String} (h : tokenField name value = .ok v) :
    token name (.text value) = .ok v := by
  unfold tokenField at h
  rw [except_bind_ok] at h
  obtain ⟨t, ht, hcheck⟩ := h
  split at hcheck
  · cases hcheck
    exact ht
  · cases hcheck

/-- A bundle that `build_bundle` returns is of the scope that it was asked for. -/
theorem buildBundle_scope {v : EvidenceValidator} {query document_version : Arg} {candidates : List Candidate}
    {scope : ScopeArg} {b : EvidenceBundle env} (h : v.buildBundle query candidates scope document_version = .ok b) :
    scope.resolve = .ok b.scope := by
  simp only [EvidenceValidator.buildBundle, except_bind_ok, mapError_ok] at h
  obtain ⟨items, -, expected, hexpected, hbuild⟩ := h
  obtain ⟨-, htenant, hworkspace, hcollection⟩ := build_ok hbuild
  obtain ⟨h1, h2, h3⟩ := scope_ok.mp expected.accepted
  have htenant' : token "tenant_id" (.text expected.val.tenant_id) = .ok b.val.tenant_id := by
    simpa [EvidenceScope.value] using htenant
  have hworkspace' : token "workspace_id" (.text expected.val.workspace_id) =
      .ok b.val.workspace_id := by
    simpa [EvidenceScope.value] using hworkspace
  have hcollection' : token "collection_id" (.text expected.val.collection_id) =
      .ok b.val.collection_id := by
    simpa [EvidenceScope.value] using hcollection
  -- The scope is normalised, so that building a bundle with it keeps it.
  rw [token_of_tokenField h1, Except.ok.injEq] at htenant'
  rw [token_of_tokenField h2, Except.ok.injEq] at hworkspace'
  rw [token_of_tokenField h3, Except.ok.injEq] at hcollection'
  have hval : expected.val = b.val.scope := by
    unfold BundleRecord.scope
    rw [← htenant', ← hworkspace', ← hcollection']
  have hexpected' : expected = b.scope := Validated.ext hval
  rw [hexpected, hexpected']

/-- Items of a bundle are no more than it may have. -/
theorem length_ids_le (b : EvidenceBundle env) : b.val.ids.length ≤ 100 := by
  unfold BundleRecord.ids
  rw [List.length_map]
  exact b.spec.count

/-- Citations are valid exactly if there are some, none is there twice, and all are of the bundle. -/
theorem validateCitations_valid (b : EvidenceBundle env) (cited : List String) :
    (∃ report, validateCitations (some b) cited = .ok report ∧ report.valid = true) ↔
      cited ≠ [] ∧ cited.Nodup ∧ ∀ id ∈ cited, id ∈ b.val.ids := by
  rw [← citationErrors_eq_nil, validateCitations_eq]
  constructor
  · rintro ⟨report, hreport, hvalid⟩
    split at hreport
    · cases hreport
      exact List.isEmpty_iff.mp hvalid
    · cases hreport
  · intro herrors
    obtain ⟨-, hnodup, hall⟩ := (citationErrors_eq_nil b).mp herrors
    have hlength := (List.Nodup.subperm hnodup hall).length_le
    have hids := length_ids_le b
    rw [if_pos (by omega), herrors]
    exact ⟨_, rfl, rfl⟩

/-! ## Issued evidence and its bundles -/

/-- An excerpt of a source, with a score. -/
def sampleArgs (text : String) (score : Double) : IssueArgs where
  tenant_id := .text "t"
  workspace_id := .text "w"
  collection_id := .text "c"
  document_id := .text "d"
  document_version := .text "v1"
  chunk_id := .text "k"
  source := .text "s.txt"
  checksum := .text "x"
  text := .text text
  page_start := .int 1
  page_end := .none
  section_name := .none
  retrieval_score := .float score
  reranking_score := .float (.finite false 0)

/-- The normalised fields of the excerpt. -/
def sampleProvenance (text : String) (score : Double) : Provenance where
  tenant_id := "t"
  workspace_id := "w"
  collection_id := "c"
  document_id := "d"
  document_version := "v1"
  chunk_id := "k"
  source := "s.txt"
  page_start := some 1
  page_end := none
  section_name := none
  checksum := "x"
  text
  retrieval_score := score
  reranking_score := .finite false 0

/-- The fields are equal, with `==` for the scores. -/
def Provenance.equals (p q : Provenance) : Bool :=
  decide ({ p with retrieval_score := q.retrieval_score, reranking_score := q.reranking_score } = q) &&
    p.retrieval_score.equals q.retrieval_score && p.reranking_score.equals q.reranking_score

/-- What follows the digits of a number: the end of a whole number, or its denominator. -/
def sampleTail (den : ℕ) : List Char := if den = 1 then ['.', '0'] else 'e' :: Nat.toDigits 10 den

/-- `repr` of a double that is a whole number, and a text of its own for every other one. -/
def sampleRepr : Double → List Char
  | .finite s m => (if s then ['-'] else []) ++ (Nat.toDigits 10 m.num ++ sampleTail m.den)
  | .inf _ => "Infinity".toList
  | .nan => "NaN".toList

/-- The digits of a number are digits. -/
theorem isDigit_of_mem {c : Char} (h : c ∈ Nat.toDigits 10 n) : c.isDigit = true :=
  Nat.isDigit_of_mem_toDigits (by omega) (by omega) h

/-- The digits of a number determine it. -/
theorem toDigits_inj (h : Nat.toDigits 10 m = Nat.toDigits 10 n) : m = n := by
  have hvalue := congrArg (Nat.ofDigitChars 10 · 0) h
  simpa only [Nat.ofDigitChars_ten_toDigits] using hvalue

/-- Digits end at what is no digit. -/
theorem toDigits_append_inj (h : Nat.toDigits 10 m ++ sampleTail den = Nat.toDigits 10 n ++ sampleTail den') :
    m = n ∧ sampleTail den = sampleTail den' := by
  have hsplit : ∀ n den : ℕ, (Nat.toDigits 10 n ++ sampleTail den).takeWhile Char.isDigit =
      Nat.toDigits 10 n := by
    intro n den
    rw [List.takeWhile_append_of_pos fun c hc => isDigit_of_mem hc]
    unfold sampleTail
    split <;> simp
  have htake := congrArg (List.takeWhile Char.isDigit) h
  rw [hsplit, hsplit] at htake
  rw [htake] at h
  exact ⟨toDigits_inj htake, List.append_cancel_left h⟩

/-- What follows the digits determines the denominator. -/
theorem sampleTail_inj (h : sampleTail den = sampleTail den') : den = den' := by
  unfold sampleTail at h
  split at h
  · next h1 =>
    split at h
    · next h1' => rw [h1, h1']
    · cases h
  · split at h
    · cases h
    · exact toDigits_inj (List.cons.inj h).2

/-- Different doubles have different texts. -/
theorem sampleRepr_inj {y : Double} (hx : x.IsFinite) (hy : y.IsFinite) (h : sampleRepr x = sampleRepr y) :
    x = y := by
  cases x with
  | nan => cases hx
  | inf s => cases hx
  | finite s m =>
    cases y with
    | nan => cases hy
    | inf t => cases hy
    | finite t n =>
      have hhead : ∀ k den rest, '-' :: rest ≠ Nat.toDigits 10 k ++ sampleTail den := by
        intro k den rest heq
        cases hdigits : Nat.toDigits 10 k with
        | nil => exact Nat.toDigits_ne_nil hdigits
        | cons d ds =>
          rw [hdigits, List.cons_append, List.cons.injEq] at heq
          have hdigit : d.isDigit = true := isDigit_of_mem (hdigits ▸ List.mem_cons_self)
          rw [← heq.1] at hdigit
          cases hdigit
      have hsame : s = t ∧ Nat.toDigits 10 m.num ++ sampleTail m.den =
          Nat.toDigits 10 n.num ++ sampleTail n.den := by
        cases s with
        | false =>
          cases t with
          | false => exact ⟨rfl, h⟩
          | true => exact absurd h.symm (hhead _ _ _)
        | true =>
          cases t with
          | false => exact absurd h (hhead _ _ _)
          | true => exact ⟨rfl, (List.cons.inj h).2⟩
      obtain ⟨hnum, htail⟩ := toDigits_append_inj hsame.2
      rw [hsame.1, NNRat.ext_num_den hnum (sampleTail_inj htail)]

/-- The texts are made of what `repr` writes. -/
theorem sampleRepr_spec : ReprSpec sampleRepr := by
  refine ⟨fun x y => sampleRepr_inj, ?_⟩
  intro x hx c hc
  cases x with
  | nan => cases hx
  | inf s => cases hx
  | finite s m =>
    unfold sampleRepr sampleTail at hc
    rcases List.mem_append.mp hc with hsign | hc
    · right
      cases s with
      | false => cases hsign
      | true =>
        rw [List.mem_singleton.mp hsign]
        decide
    · rcases List.mem_append.mp hc with hdigit | hc
      · exact .inl (isDigit_of_mem hdigit)
      · split at hc
        · rcases List.mem_cons.mp hc with rfl | hc
          · exact .inr (by decide)
          · rw [List.mem_singleton.mp hc]
            exact .inl rfl
        · rcases List.mem_cons.mp hc with rfl | hdigit
          · exact .inr (by decide)
          · exact .inl (isDigit_of_mem hdigit)

/-- The JSON text of the fields of an excerpt. -/
def sampleJson (text : String) : String :=
  "\x7b\"checksum\":\"x\",\"chunk_id\":\"k\",\"collection_id\":\"c\",\"document_id\":\"d\"," ++
    "\"document_version\":\"v1\",\"page_end\":null,\"page_start\":1,\"reranking_score\":0.0," ++
    "\"retrieval_score\":0.0,\"section\":null,\"source\":\"s.txt\",\"tenant_id\":\"t\",\"text\":\"" ++
    text ++ "\",\"workspace_id\":\"w\"\x7d"

/-- The digests of the JSON texts of two excerpts. -/
def sampleEnv : Env where
  sha256 raw i :=
    let digits := if raw = (sampleJson "A fact.").toList then
        "839dba2a8c30111bd2e8b2a6f18d174a2a24b0161a1d3fc90870900298ff78c6".toList
      else "ea6e9af1592d7827f90481c8095f8a383ea440c217746467f6fe1012402d15e6".toList
    Fin.ofNat 16 ((digits[i.val]?.bind hexValue).getD 0)
  repr := sampleRepr

/-- The JSON text of the first excerpt. -/
theorem sample_canonicalJson :
    (sampleProvenance "A fact." (.finite false 0)).canonicalJson sampleEnv =
      (sampleJson "A fact.").toList := by
  unfold sampleJson
  simp only [String.toList_append]
  decide +kernel

/-- The other excerpt has another JSON text, since it is longer. -/
theorem sample_canonicalJson_ne :
    (sampleProvenance "Another." (.finite false 0)).canonicalJson sampleEnv ≠
      (sampleJson "A fact.").toList := by
  have hlength : ((sampleProvenance "Another." (.finite false 0)).canonicalJson sampleEnv).length ≠
      ((sampleProvenance "A fact." (.finite false 0)).canonicalJson sampleEnv).length := by
    decide +kernel
  rw [← sample_canonicalJson]
  intro heq
  exact hlength (congrArg List.length heq)

/-- The first digit of a digest. -/
theorem head_digest (env : Env) (raw : List Char) :
    (env.digest raw).head? = some (hexDigit (env.sha256 raw 0)) := by
  unfold Env.digest Env.hexdigest
  rw [List.ofFn_succ, List.take_succ_cons]
  rfl

end RickIntelligence.Grounding
