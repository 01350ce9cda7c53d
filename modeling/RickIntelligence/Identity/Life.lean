import RickIntelligence.Identity.Issued

/-!
# The life of a session

A session is valid from its login until it is deleted, and no longer than the configured time after its
last use (`session_alive`).
-/

namespace RickIntelligence.Identity

open Lib

variable {cfg : Config} {s s' s₀ : State} {e : Event} {es : List Event} {t : String} {r r' : Record}

/-- A login opens the session `t` at the time `now`. -/
def Opens (cfg : Config) (t : String) (now : ℚ) (s : State) (e : Event) : Prop :=
  ∃ call result s', e = .login call ∧ call.token = t ∧ call.now = now ∧ login cfg s call = .ok (result, s')

/-- A validation of the session `t` is authenticated and renews it at the time `now`. -/
def Renews (cfg : Config) (t : String) (now : ℚ) (s : State) (e : Event) : Prop :=
  ∃ reads snapshot s', e = .validate (some t) reads ∧ reads.touch = now ∧
    validateSession cfg s (some t) reads = (.ok snapshot, s') ∧ snapshot.authenticated = true

/-- An event of the trace is of the kind, and the session `t` was not deleted after it. -/
def Since (cfg : Config) (s₀ : State) (es : List Event) (t : String) (kind : State → Event → Prop) : Prop :=
  ∃ before e after s, es = before ++ e :: after ∧ execAll (exec cfg) s₀ before = some s ∧ kind s e ∧
    ∀ e' ∈ after, e' ≠ .deleteSession t

/-- The session ends at the configured time after `now`. -/
def Lasts (cfg : Config) (now : ℚ) (r : Record) : Prop :=
  Json.member? "expires_at" r = some (.float (now + cfg.ttl_seconds))

/-- The last event of a trace. -/
theorem Since.last {kind : State → Event → Prop} (h : execAll (exec cfg) s₀ es = some s) (he : kind s e) :
    Since cfg s₀ (es ++ [e]) t kind :=
  ⟨es, e, [], s, rfl, h, he, fun _ hmem => absurd hmem List.not_mem_nil⟩

/-- One more event that does not delete the session. -/
theorem Since.snoc {kind : State → Event → Prop} (h : Since cfg s₀ es t kind) (he : e ≠ .deleteSession t) :
    Since cfg s₀ (es ++ [e]) t kind := by
  obtain ⟨before, first, after, u, rfl, hu, hkind, hafter⟩ := h
  refine ⟨before, first, after ++ [e], u, by simp, hu, hkind, ?_⟩
  intro e' he'
  rcases List.mem_append.mp he' with hmem | hmem
  · exact hafter e' hmem
  · rw [List.mem_singleton.mp hmem]
    exact he

/-- A session that is touched lasts from then. -/
theorem touch_lasts {sessions : AList fun _ : String => Record} {now : ℚ}
    (h : (touch cfg sessions t now).lookup t = some r) : Lasts cfg now r := by
  unfold touch at h
  cases hfound : sessions.lookup t with
  | none =>
    rw [hfound] at h
    exact absurd (hfound.symm.trans h) (by simp)
  | some record =>
    simp only [hfound, AList.lookup_insert, Option.some.injEq] at h
    subst h
    unfold Lasts
    rw [Json.member?_setMember, if_pos rfl]

/-- What a call does to the end of a session: a login opens it, a validation renews it, or it stays. -/
theorem exec_lasts (h : exec cfg s e = some s') (hr : s'.sessions.lookup t = some r') :
    e ≠ .deleteSession t ∧ ((∃ now, Opens cfg t now s e ∧ Lasts cfg now r') ∨
      ∃ r, s.sessions.lookup t = some r ∧ (Json.member? "expires_at" r' = Json.member? "expires_at" r ∨
        ∃ now, Renews cfg t now s e ∧ Lasts cfg now r')) := by
  cases e with
  | login call =>
    refine ⟨by simp, ?_⟩
    simp only [exec] at h
    split at h
    · cases h
    · cases hlogin : login cfg s call with
      | error e =>
        rw [hlogin] at h
        cases h
        exact .inr ⟨r', hr, .inl rfl⟩
      | ok x =>
        rw [hlogin] at h
        cases h
        have hissue := hlogin
        unfold login issueSession at hissue
        simp only [except_bind_ok, pure, Except.pure, Except.ok.injEq] at hissue
        obtain ⟨user, -, -, -, requested, -, tenant, -, -, -, user_id, -, workspace, -, rfl⟩ := hissue
        by_cases ht : t = call.token
        · subst ht
          refine .inl ⟨call.now, ⟨call, _, _, rfl, rfl, rfl, hlogin⟩, ?_⟩
          obtain rfl := Option.some.inj ((AList.lookup_insert _).symm.trans hr)
          unfold Lasts
          rw [Json.member?_merge]
          rfl
        · exact .inr ⟨r', (AList.lookup_insert_ne ht).symm.trans hr, .inl rfl⟩
  | saveUser ref record =>
    cases h
    exact ⟨by simp, .inr ⟨r', hr, .inl rfl⟩⟩
  | validate token reads =>
    refine ⟨by simp, .inr ?_⟩
    cases h
    cases hresult : authenticate cfg s token reads with
    | error stop =>
      simp only [validateSession, hresult] at hr
      exact ⟨r', hr, .inl rfl⟩
    | ok x =>
      obtain ⟨snapshot, s'⟩ := x
      have hvalidate : validateSession cfg s token reads = (.ok snapshot, s') := by
        simp only [validateSession, hresult]
      rw [hvalidate] at hr
      obtain ⟨t', r, user, r₁, rfl, hauth⟩ := authenticate_ok hresult
      by_cases ht : t = t'
      · subst ht
        unfold authenticate at hresult
        simp only [except_bind_ok, pure, Except.pure, Except.ok.injEq, Prod.mk.injEq] at hresult
        obtain ⟨⟨t', record, user'⟩, hlive, ceiling, hceiling, rfl, rfl⟩ := hresult
        cases (liveSession_ok hlive).1
        exact ⟨r, hauth.session, .inr ⟨reads.touch, ⟨reads, _, _, rfl, rfl, hvalidate, rfl⟩, touch_lasts hr⟩⟩
      · exact ⟨r', (hauth.others t ht).symm.trans hr, .inl rfl⟩
  | deleteSession token =>
    cases h
    have hne : t ≠ token := by
      rintro rfl
      simp only [AList.lookup_erase] at hr
      cases hr
    refine ⟨fun heq => hne (Event.deleteSession.inj heq).symm, .inr ⟨r', ?_, .inl rfl⟩⟩
    exact (AList.lookup_erase_ne hne).symm.trans hr

/-- A session that has not ended lasts. -/
theorem Lasts.lt {last now : ℚ} (h : Lasts cfg last r) (hlive : ended r now = .ok false) :
    now < last + cfg.ttl_seconds := by
  unfold ended getD at hlive
  rw [h] at hlive
  split at hlive
  · exact not_le.mp (of_decide_eq_false (Except.ok.inj hlive))
  · exact not_le.mp (of_decide_eq_false (Except.ok.inj hlive))
  · cases hlive

/-- A session that is authenticated is stored and has not ended. -/
theorem validateSession_live {reads : Reads} {snapshot : Snapshot}
    (h : validateSession cfg s (some t) reads = (.ok snapshot, s')) (hauth : snapshot.authenticated = true) :
    ∃ r, s.sessions.lookup t = some r ∧ ended r reads.now = .ok false := by
  unfold validateSession at h
  cases hresult : authenticate cfg s (some t) reads with
  | ok x =>
    unfold authenticate liveSession at hresult
    simp only [except_bind_ok, elim_ok, raising, mapError_ok, raiseFirst_ok] at hresult
    obtain ⟨-, ⟨t', ht, record, hrecord, -, -, isOver, hended, -, hover, -⟩, -⟩ := hresult
    cases (Option.filter_eq_some_iff.mp ht).1
    obtain rfl : isOver = false := hover _ List.mem_cons_self
    exact ⟨record, hrecord, hended⟩
  | error stop =>
    rw [hresult] at h
    cases stop with
    | anonymous =>
      cases h
      cases hauth
    | raised e => cases h

/-- **A session is valid from its login until it is deleted, and no longer than the configured time after its
last use.** In every run, a token that had no session at first is authenticated only if a login issued
it and it was not deleted since; and the last use, that login or a validation that was authenticated, is
less than the configured time ago. -/
theorem session_alive (cfg : Config) (s₀ s s' : State) (es : List Event) (t : String) (reads : Reads)
    (snapshot : Snapshot) (hnew : s₀.sessions.lookup t = none) (hrun : execAll (exec cfg) s₀ es = some s)
    (hvalidate : validateSession cfg s (some t) reads = (.ok snapshot, s'))
    (hauth : snapshot.authenticated = true) :
    (∃ now, Since cfg s₀ es t (Opens cfg t now)) ∧
    ∃ now, Since cfg s₀ es t (fun u e => Opens cfg t now u e ∨ Renews cfg t now u e) ∧
      reads.now < now + cfg.ttl_seconds := by
  have hlife : ∀ r, s.sessions.lookup t = some r → (∃ now, Since cfg s₀ es t (Opens cfg t now)) ∧
      ∃ now, Since cfg s₀ es t (fun u e => Opens cfg t now u e ∨ Renews cfg t now u e) ∧ Lasts cfg now r := by
    refine trace_invariant (I := fun es s => ∀ r, s.sessions.lookup t = some r →
      (∃ now, Since cfg s₀ es t (Opens cfg t now)) ∧
      ∃ now, Since cfg s₀ es t (fun u e => Opens cfg t now u e ∨ Renews cfg t now u e) ∧ Lasts cfg now r)
      (fun r hr => absurd (hnew.symm.trans hr) (by simp)) ?_ hrun
    intro es u e v hu hI he r' hr'
    obtain ⟨hkeeps, ⟨now, hopens, hlasts⟩ | ⟨r, hr, hends⟩⟩ := exec_lasts he hr'
    · exact ⟨⟨now, .last hu hopens⟩, now, .last hu (.inl hopens), hlasts⟩
    · obtain ⟨⟨first, hfirst⟩, last, hlast, hlasts⟩ := hI r hr
      refine ⟨⟨first, hfirst.snoc hkeeps⟩, ?_⟩
      rcases hends with hsame | ⟨now, hrenews, hlasts'⟩
      · exact ⟨last, hlast.snoc hkeeps, hsame.trans hlasts⟩
      · exact ⟨now, .last hu (.inr hrenews), hlasts'⟩
  obtain ⟨r, hr, hlive⟩ := validateSession_live hvalidate hauth
  obtain ⟨hopened, now, hused, hlasts⟩ := hlife r hr
  exact ⟨hopened, now, hused, hlasts.lt hlive⟩

/-- The login of the manager opened the session that is then valid. -/
theorem managerLogin_opens : ∃ es now s snapshot s', execAll (exec tenantConfig) (storeWith plainManager) es = some s ∧
    validateSession tenantConfig s (some "tok") ⟨1, 1, 1⟩ = (.ok snapshot, s') ∧ snapshot.authenticated = true ∧
    Since tenantConfig (storeWith plainManager) es "tok" (Opens tenantConfig "tok" now) := by
  have hrun : ((exec tenantConfig (storeWith plainManager) (.login managerLogin)).any fun s =>
      (validateSession tenantConfig s (some "tok") ⟨1, 1, 1⟩).1.toOption.any (·.authenticated)) = true := by
    decide +kernel
  cases hs : exec tenantConfig (storeWith plainManager) (.login managerLogin) with
  | none =>
    rw [hs] at hrun
    cases hrun
  | some s =>
    rw [hs, Option.any_some] at hrun
    generalize hvalidate : validateSession tenantConfig s (some "tok") ⟨1, 1, 1⟩ = x at hrun
    obtain ⟨result, s'⟩ := x
    cases result with
    | error e => cases hrun
    | ok snapshot =>
      have htrace : execAll (exec tenantConfig) (storeWith plainManager) [.login managerLogin] = some s :=
        Option.bind_eq_some_iff.mpr ⟨s, hs, rfl⟩
      obtain ⟨⟨now, hopens⟩, -⟩ :=
        session_alive tenantConfig _ s s' _ "tok" _ snapshot rfl htrace hvalidate hrun
      exact ⟨_, now, s, snapshot, s', htrace, hvalidate, hrun, hopens⟩

end RickIntelligence.Identity
