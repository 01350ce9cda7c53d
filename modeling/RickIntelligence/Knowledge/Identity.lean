import RickIntelligence.Lib.Text

/-!
# Names of collections

The names that a collection goes by, of `rick_knowledge/identity.py` and `rick_knowledge/fencing.py`.
The canonical collection has two aliases. A modern writer normalises a name and refuses one that is
out of the pattern (`normalizeCollectionId`); the catalog folds the aliases and keeps every other key
as it was installed (`canonicalCatalogId`).
-/

namespace RickIntelligence.Knowledge

open Lib

/-- `CANONICAL_COLLECTION_ID`. -/
def canonicalCollectionId : String := "rag_phase0"

/-- `COLLECTION_ALIASES`. -/
def collectionAliases : List (String × String) :=
  [(canonicalCollectionId, canonicalCollectionId), ("cvg_master_rag", canonicalCollectionId),
    ("rickvet_documents", canonicalCollectionId)]

/-- `x or d` of an optional text. -/
def textOr (d : String) : Option String → String
  | none => d
  | some s => if s = "" then d else s

/-- `[A-Za-z0-9_-]`. -/
def isCollectionChar (c : Char) : Bool := isAlnumAscii c || c == '_' || c == '-'

/-- `_COLLECTION_NAME`. -/
def collectionName : String → Bool := matchesRun isCollectionChar isCollectionChar 63

/-- `COLLECTION_ALIASES.get(name, d)`. -/
def aliasOr (d name : String) : String := (collectionAliases.lookup name).getD d

/-- `normalize_collection_id`. -/
def normalizeCollectionId (collection_id : Option String) : Except String String :=
  let candidate := strip (textOr canonicalCollectionId collection_id)
  if collectionName candidate then .ok (aliasOr candidate candidate)
  else .error "collection_id must use 1-64 letters, numbers, '_' or '-'"

/-- `canonical_catalog_id`. -/
def canonicalCatalogId (collection_id : String) : String :=
  aliasOr collection_id (strip collection_id)

/-- The names of the canonical collection. -/
def aliasNames : List String := collectionAliases.map Prod.fst

/-! ## Aliases -/

/-- A list of pairs with one value has it under each of its keys. -/
theorem lookup_of_const {l : List (String × String)} {v : String} (h : ∀ p ∈ l, p.2 = v)
    (name : String) : l.lookup name = if name ∈ l.map Prod.fst then some v else none := by
  induction l with
  | nil => rfl
  | cons p l ih =>
    obtain ⟨key, value⟩ := p
    have hvalue : value = v := h (key, value) List.mem_cons_self
    have hrest := ih fun q hq => h q (List.mem_cons_of_mem _ hq)
    by_cases hname : name = key
    · simp [List.lookup, hname, hvalue]
    · simp only [List.lookup, beq_false_of_ne hname, hrest, List.map_cons, List.mem_cons, hname,
        false_or]

/-- Every alias is one of the canonical collection. -/
theorem alias_value : ∀ p ∈ collectionAliases, p.2 = canonicalCollectionId := by
  unfold collectionAliases
  simp

/-- An alias is folded into the canonical collection, and another name is kept. -/
theorem aliasOr_eq (d name : String) :
    aliasOr d name = if name ∈ aliasNames then canonicalCollectionId else d := by
  unfold aliasOr
  rw [lookup_of_const alias_value]
  show (if name ∈ aliasNames then some canonicalCollectionId else none).getD d = _
  split <;> rfl

/-- The canonical name is one of the names. -/
theorem canonical_mem : canonicalCollectionId ∈ aliasNames := by
  unfold aliasNames collectionAliases
  simp

/-- The names of the canonical collection are in lower case. -/
theorem lower_alias {name : String} (h : name ∈ aliasNames) : lower name = name := by
  have hall : ∀ n ∈ aliasNames, lower n = n := by decide +kernel
  exact hall name h

/-- `normalize_collection_id` returns the stripped name, with the aliases folded. -/
theorem normalizeCollectionId_ok {c id : String} (hc : c ≠ "") :
    normalizeCollectionId (some c) = .ok id ↔ collectionName (strip c) = true ∧
      id = if strip c ∈ aliasNames then canonicalCollectionId else strip c := by
  unfold normalizeCollectionId textOr
  simp only [if_neg hc, aliasOr_eq]
  split
  · next h => simp [h, eq_comm]
  · next h => simp [h]

end RickIntelligence.Knowledge
