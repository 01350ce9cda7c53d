import RickIntelligence.Authorization.Permissions
import RickIntelligence.Lib.LowerCase

/-!
# Effective permissions

`permission_granted`, on the permissions that `permissions_for_role` resolves. A permission is granted
exactly when it is not removed, and the role or an addition has it, or a wildcard that is not removed
(`permissionGranted_iff`). Resolved permissions are normalised already, so that reading them as a list
of any permissions changes nothing (`mem_normalizePermissions_of_normal`).
-/

namespace RickIntelligence.Authorization

open Lib

/-! ## The check -/

/-- `permission_granted`. -/
def permissionGranted (role : Option String) (permissions : List String) (required : String)
    (authoritative : Bool) : Bool :=
  let required_canonical := permissionAlias required
  let resolved := normalizePermissions permissions
  if resolved.contains "*" then true
  else if resolved.contains required_canonical then true
  else if authoritative then false
  else match role with
    | some role =>
      if resolved.isEmpty then
        let fallback := permissionsForRole (some role) none
        fallback.contains "*" || fallback.contains required_canonical
      else false
    | none => false

/-! ## Normal permissions -/

/-- The alias of an alias. -/
theorem permissionAlias_permissionAlias (s : String) :
    permissionAlias (permissionAlias s) = permissionAlias s := by
  have htargets : ∀ entry ∈ legacyPermissionAliases, permissionAlias entry.2 = entry.2 := by
    decide +kernel
  have halias : permissionAlias s =
      (legacyPermissionAliases.lookup (lower (strip s))).getD (lower (strip s)) := rfl
  cases hl : legacyPermissionAliases.lookup (lower (strip s)) with
  | some target =>
    rw [hl, Option.getD_some] at halias
    obtain ⟨l, r, hlist, -⟩ := List.lookup_eq_some_iff.mp hl
    have hmem : (lower (strip s), target) ∈ legacyPermissionAliases := by
      rw [hlist]
      exact List.mem_append_right l List.mem_cons_self
    have htarget : permissionAlias target = target := htargets (lower (strip s), target) hmem
    rw [halias, htarget]
  | none =>
    rw [hl, Option.getD_none] at halias
    rw [halias]
    unfold permissionAlias
    rw [lower_strip_lower_strip, hl, Option.getD_none]

/-- A permission as `normalize_permissions` leaves it. -/
def Normal (p : String) : Prop := permissionAlias p = p ∧ p ≠ ""

variable {p : String} {permissions : List String}

/-- The permissions of a list, normalised. -/
theorem mem_normalizePermissions :
    p ∈ normalizePermissions permissions ↔ p ≠ "" ∧ ∃ item ∈ permissions, permissionAlias item = p := by
  unfold normalizePermissions
  rw [mem_sortedSet, List.mem_filter, List.mem_map, decide_eq_true_eq]
  exact and_comm

/-- Normalised permissions are normal. -/
theorem normal_of_mem_normalizePermissions (h : p ∈ normalizePermissions permissions) : Normal p := by
  obtain ⟨hne, item, -, rfl⟩ := mem_normalizePermissions.mp h
  exact ⟨permissionAlias_permissionAlias item, hne⟩

/-- Permissions that are normal stay as they are. -/
theorem mem_normalizePermissions_of_normal (h : ∀ item ∈ permissions, Normal item) (p : String) :
    p ∈ normalizePermissions permissions ↔ p ∈ permissions := by
  rw [mem_normalizePermissions]
  constructor
  · rintro ⟨-, item, hitem, rfl⟩
    rw [(h item hitem).1]
    exact hitem
  · intro hp
    exact ⟨(h p hp).2, p, hp, (h p hp).1⟩

/-- The defaults of a role are normal. -/
theorem normal_rolePermissions (role : Role) : ∀ p ∈ rolePermissions role, Normal p := by
  unfold Normal
  cases role <;> decide +kernel

/-- The permissions of the registry are normal, and none of them is the wildcard. -/
theorem normal_canonicalPermissionIds :
    ∀ p ∈ canonicalPermissionIds, Normal p ∧ p ≠ "*" := by
  unfold Normal
  decide +kernel

/-- Overrides are normal. -/
theorem normal_overrideValues {payload : Json.Members} {key : String} (h : p ∈ overrideValues payload key) :
    Normal p := by
  unfold overrideValues at h
  split at h
  · exact normal_of_mem_normalizePermissions h
  · exact normal_of_mem_normalizePermissions h
  · cases h

/-! ## Resolution -/

section Resolution

variable (role : Option String) (overrides : Json.Members)

/-- The additions of resolved overrides: those that are not removed. -/
theorem mem_add (p : String) :
    p ∈ (normalizePermissionOverrides (some (.obj overrides))).add ↔
      p ∈ overrideValues overrides "add" ∧ p ∉ overrideValues overrides "remove" := by
  unfold normalizePermissionOverrides
  simp only [mem_sortedSet, List.mem_filter, decide_eq_true_eq]

/-- The removals of resolved overrides. -/
theorem mem_remove (p : String) :
    p ∈ (normalizePermissionOverrides (some (.obj overrides))).remove ↔
      p ∈ overrideValues overrides "remove" := by
  unfold normalizePermissionOverrides
  simp only [mem_sortedSet]

/-- The defaults of a role, normalised. -/
theorem mem_base (p : String) :
    p ∈ normalizePermissions (rolePermissions (canonicalRole role)) ↔
      p ∈ rolePermissions (canonicalRole role) :=
  mem_normalizePermissions_of_normal (normal_rolePermissions _) p

variable {inAdditions isWildcard isRemoved : Prop}

/-- What is kept of the defaults and of the additions that are not removed. -/
theorem kept_iff {inDefaults : Prop} :
    (inDefaults ∨ inAdditions ∧ ¬ isRemoved) ∧ ¬ isWildcard ∧ ¬ isRemoved ↔
      ¬ isWildcard ∧ ¬ isRemoved ∧ (inDefaults ∨ inAdditions) := by
  tauto

/-- What is kept of the registry and of the additions that are not removed. -/
theorem expanded_iff {inRegistry : Prop} :
    (inRegistry ∨ (inAdditions ∧ ¬ isRemoved) ∧ ¬ isWildcard) ∧ ¬ isRemoved ↔
      ¬ isRemoved ∧ (inRegistry ∨ inAdditions ∧ ¬ isWildcard) := by
  tauto

/-- Where a wildcard comes from that is not removed. -/
def Wildcard : Prop :=
  ("*" ∈ rolePermissions (canonicalRole role) ∨ "*" ∈ overrideValues overrides "add") ∧
    "*" ∉ overrideValues overrides "remove"

/-- Without a wildcard the resolved permissions are the defaults and the additions but for the
removals; with one, those of the registry and the additions but for the removals, or the wildcard if
nothing is removed. -/
theorem mem_permissionsForRole (p : String) :
    p ∈ permissionsForRole role (some (.obj overrides)) ↔
      (¬ Wildcard role overrides ∧ p ≠ "*" ∧ p ∉ overrideValues overrides "remove" ∧
          (p ∈ rolePermissions (canonicalRole role) ∨ p ∈ overrideValues overrides "add")) ∨
        (Wildcard role overrides ∧ (∀ q, q ∉ overrideValues overrides "remove") ∧ p = "*") ∨
        (Wildcard role overrides ∧ (∃ q, q ∈ overrideValues overrides "remove") ∧
          p ∉ overrideValues overrides "remove" ∧
          (p ∈ canonicalPermissionIds ∨ (p ∈ overrideValues overrides "add" ∧ p ≠ "*"))) := by
  unfold Wildcard permissionsForRole
  simp only [mem_base, mem_add, mem_remove]
  by_cases hremoved : "*" ∈ overrideValues overrides "remove"
  · -- A wildcard that is removed leaves the defaults and the additions.
    rw [if_pos hremoved]
    simp only [mem_sortedSet, List.mem_filter, List.mem_append, mem_base, mem_add,
      decide_eq_true_eq, hremoved, not_true_eq_false, and_false, false_and, or_false,
      not_false_eq_true, true_and]
    exact kept_iff
  · rw [if_neg hremoved]
    have hwild : ("*" ∈ rolePermissions (canonicalRole role) ∨
        "*" ∈ overrideValues overrides "add" ∧ "*" ∉ overrideValues overrides "remove") ↔
          ("*" ∈ rolePermissions (canonicalRole role) ∨ "*" ∈ overrideValues overrides "add") := by
      rw [and_iff_left hremoved]
    by_cases hw : "*" ∈ rolePermissions (canonicalRole role) ∨
        "*" ∈ overrideValues overrides "add"
    · rw [if_pos (hwild.mpr hw)]
      have hexplicit : (normalizePermissionOverrides (some (.obj overrides))).remove.filter
          (· ≠ "*") = [] ↔ ∀ q, q ∉ overrideValues overrides "remove" := by
        rw [List.filter_eq_nil_iff]
        simp only [mem_remove, decide_eq_true_eq, not_not]
        constructor
        · intro h q hq
          have hq' := h q hq
          rw [hq'] at hq
          exact hremoved hq
        · intro h q hq
          exact absurd hq (h q)
      by_cases hnone : ∀ q, q ∉ overrideValues overrides "remove"
      · rw [if_pos (hexplicit.mpr hnone), List.mem_singleton]
        simp only [hw, hremoved, hnone, not_false_eq_true, and_true, not_true_eq_false,
          false_and, true_and, false_or, or_false, implies_true, exists_const]
      · -- With something removed, the wildcard is expanded into the registry.
        rw [if_neg fun h => hnone (hexplicit.mp h)]
        have hsome : ∃ q, q ∈ overrideValues overrides "remove" := by
          by_contra hnot
          exact hnone fun q hq => hnot ⟨q, hq⟩
        simp only [mem_sortedSet, List.mem_filter, List.mem_append, mem_add,
          decide_eq_true_eq]
        simp only [hw, hremoved, hsome, hnone, not_false_eq_true, and_true, not_true_eq_false,
          false_and, true_and, false_or]
        exact expanded_iff
    · rw [if_neg fun h => hw (hwild.mp h)]
      simp only [mem_sortedSet, List.mem_filter, List.mem_append, mem_base, mem_add,
        decide_eq_true_eq, hw, false_and, not_false_eq_true, true_and, or_false]
      exact kept_iff

/-- Resolved permissions are normal. -/
theorem normal_permissionsForRole :
    ∀ p ∈ permissionsForRole role (some (.obj overrides)), Normal p := by
  intro p hp
  rcases (mem_permissionsForRole role overrides p).mp hp with
    ⟨-, -, -, hp | hp⟩ | ⟨-, -, rfl⟩ | ⟨-, -, -, hp | ⟨hp, -⟩⟩
  · exact normal_rolePermissions _ p hp
  · exact normal_overrideValues hp
  · unfold Normal
    decide +kernel
  · exact (normal_canonicalPermissionIds p hp).1
  · exact normal_overrideValues hp

end Resolution

/-- An authoritative check looks for the wildcard and for the permission. -/
theorem permissionGranted_authoritative {permissions : List String}
    (h : ∀ p ∈ permissions, Normal p) (required : String) :
    permissionGranted none permissions required true = true ↔
      "*" ∈ permissions ∨ permissionAlias required ∈ permissions := by
  unfold permissionGranted
  simp only [List.contains_iff_mem, mem_normalizePermissions_of_normal h]
  by_cases hstar : "*" ∈ permissions
  · simp [hstar]
  · by_cases hrequired : permissionAlias required ∈ permissions <;> simp [hstar, hrequired]

/-- A permission of the registry, or an alias of one, is granted exactly when it is not removed, and
the role has it or an addition, or there is a wildcard that is not removed. -/
theorem permissionGranted_iff (role : Option String) (overrides : Json.Members) (required : String)
    (h : permissionAlias required ∈ canonicalPermissionIds) :
    permissionGranted none (permissionsForRole role (some (.obj overrides))) required true = true ↔
      permissionAlias required ∉ overrideValues overrides "remove" ∧
        ((permissionAlias required ∈ rolePermissions (canonicalRole role) ∨
            permissionAlias required ∈ overrideValues overrides "add") ∨
          (("*" ∈ rolePermissions (canonicalRole role) ∨ "*" ∈ overrideValues overrides "add") ∧
            "*" ∉ overrideValues overrides "remove")) := by
  rw [permissionGranted_authoritative (normal_permissionsForRole role overrides),
    mem_permissionsForRole, mem_permissionsForRole]
  have hne := (normal_canonicalPermissionIds _ h).2
  have hstar : "*" ∉ canonicalPermissionIds := fun hmem =>
    (normal_canonicalPermissionIds _ hmem).2 rfl
  have hw : Wildcard role overrides ↔ (("*" ∈ rolePermissions (canonicalRole role) ∨
      "*" ∈ overrideValues overrides "add") ∧ "*" ∉ overrideValues overrides "remove") := Iff.rfl
  rw [← hw]
  by_cases hwild : Wildcard role overrides
  · by_cases hnone : ∀ q, q ∉ overrideValues overrides "remove"
    · have hrequired := hnone (permissionAlias required)
      simp [hwild, hnone]
    · have hsome : ∃ q, q ∈ overrideValues overrides "remove" := by
        by_contra hnot
        exact hnone fun q hq => hnot ⟨q, hq⟩
      simp [hwild, hnone, hsome, h, hstar]
  · simp [hwild, hne]

/-- An administrator from whom a permission was removed under an alias, and to whom it was added under
another one, does not have it. -/
theorem permissionGranted_removed :
    ¬ permissionGranted none (permissionsForRole (some "admin") (some (.obj
        [("add", .arr [.str "chat.query", .str "*"]), ("remove", .arr [.str " Search.Execute"])])))
      "documents.query" true = true := by
  intro h
  have hgranted := (permissionGranted_iff _ _ _ (by decide +kernel)).mp h
  exact hgranted.1 (by decide +kernel)

end RickIntelligence.Authorization
