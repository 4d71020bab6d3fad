import Cindral.Github.AppAuth

/-!
# Where a served credential comes from

Every exchange with GitHub is on record, so what a call returns can be held against what GitHub
answered: the listing that named the installation, the page that showed a repository, and the reply
that held the token.
-/

namespace Cindral.Github
open Base Action

variable {env : Environment} {s t : Session} {i : Installation} {token : String} {x : ℚ}

/-! ## What the exchanges show -/

/-- One page of the listing, and the entries it holds. -/
def IsPage (bearer : String) (page : Nat) (e : Exchange) (batch : List Json) : Prop :=
  e.sent = ⟨pagePath page, bearer, none⟩ ∧ ∃ found, e.reply = .ok found ∧ batchOf found = .ok batch

/-- The pages from one on, up to the first that is not full. -/
inductive Pages (bearer : String) : Nat → List Exchange → List Json → Prop
  | last {page : Nat} {e : Exchange} {batch : List Json} (read : IsPage bearer page e batch)
      (short : batch.length < perPage) :
      Pages bearer page [e] batch
  | more {page : Nat} {e : Exchange} {batch : List Json} {rest : List Exchange} {entries : List Json}
      (read : IsPage bearer page e batch) (full : ¬ batch.length < perPage)
      (further : Pages bearer (page + 1) rest entries) :
      Pages bearer page (e :: rest) (batch ++ entries)

/-- An entry of the listing that GitHub has not suspended. -/
def Active (entry : Json) : Prop :=
  ∃ fields, entry = .obj fields ∧ getOr fields "suspended_at" .null = .null

/-- One entry of the listing is active, and it describes this installation. -/
def OnlyActive (env : Environment) (i : Installation) (entries : List Json) : Prop :=
  ∃ before entry after, entries = before ++ entry :: after ∧ Active entry ∧
    installationOf env entry = .ok i ∧
    ∀ other ∈ before ++ after, ¬Active other

/-- GitHub answers a mint for the installation with this token. -/
def Mints (i : Installation) (e : Exchange) (token : String) : Prop :=
  e.sent.path = mintPath i ∧ token ≠ "" ∧ ∃ fields, e.reply = .ok (.obj fields) ∧
  getOr fields "token" .null = .str token

/-- GitHub shows the bearer of the token a repository. -/
def Shows (e : Exchange) (token : String) : Prop :=
  e.sent.path = coveragePath ∧ e.sent.bearer = token ∧ ∃ fields repository others,
    e.reply = .ok (.obj fields) ∧
    getOr fields "repositories" (.arr []) = .arr (repository :: others)

/-- The installation selects all repositories, or a token that was minted for it was shown one. -/
inductive Covers (i : Installation) : List Exchange → Prop
  | all (selects : i.selection = "all") : Covers i []
  | some {mint cover : Exchange} {token : String} (minted : Mints i mint token)
      (shown : Shows cover token) :
      Covers i [mint, cover]

/-- The exchanges resolve the installation: the only one that is not suspended, and one that covers
something. -/
structure Resolves (env : Environment) (i : Installation) (exchanges : List Exchange) : Prop where
  parts : ∃ pages rest bearer entries, exchanges = pages ++ rest ∧ Pages bearer 1 pages entries ∧
    OnlyActive env i entries ∧ Covers i rest

def ResolvedIn (env : Environment) (exchanges : List Exchange) (i : Installation) : Prop :=
  ∃ part, part <:+: exchanges ∧ Resolves env i part

/-- The token was minted for the installation, and the expiry on record is an hour after that or
before. -/
def MintedIn (exchanges : List Exchange) (i : Installation) (token : String) (expires : ℚ) : Prop :=
  ∃ e ∈ exchanges, Mints i e token ∧ expires ≤ e.time + 3600

theorem ResolvedIn.append {L : List Exchange} (h : ResolvedIn env L i) (more : List Exchange) :
    ResolvedIn env (L ++ more) i := by
  obtain ⟨part, inside, resolves⟩ := h
  exact ⟨part, inside.trans (List.prefix_append L more).isInfix, resolves⟩

theorem MintedIn.append {L : List Exchange} (h : MintedIn L i token x) (more : List Exchange) :
    MintedIn (L ++ more) i token x := by
  obtain ⟨e, member, minted⟩ := h
  exact ⟨e, List.mem_append_left _ member, minted⟩

/-! ## What each function does -/

/-- A session goes on: the record of exchanges and the readings of the clock only grow. -/
structure Later (s t : Session) (more : List Exchange) : Prop where
  exchanges : t.exchanges = s.exchanges ++ more
  readings : s.readings ≤ t.readings

theorem Later.refl (s : Session) : Later s s [] := ⟨(List.append_nil _).symm, le_refl _⟩

theorem Later.trans {u : Session} {first second : List Exchange} (h : Later s t first)
    (h' : Later t u second) :
    Later s u (first ++ second) :=
  ⟨by rw [h'.exchanges, h.exchanges, List.append_assoc], h.readings.trans h'.readings⟩

def Session.ticked (env : Environment) (s : Session) : Session :=
  { s with readings := s.readings + 1, now := env.clock s.readings }

def Session.told (s : Session) (e : Exchange) : Session := { s with exchanges := s.exchanges ++ [e] }

theorem later_ticked (s : Session) : Later s (s.ticked env) [] :=
  ⟨(List.append_nil _).symm, Nat.le_succ _⟩

theorem later_told (s : Session) (e : Exchange) : Later s (s.told e) [e] := ⟨rfl, le_refl _⟩

theorem ends_readClock : (readClock env).Ends
    (fun r t => r = .ok (env.clock s.readings) ∧ t = s.ticked env) s := ⟨rfl, rfl⟩

theorem ends_appToken : (appToken env).Ends (fun _ t => t = s.ticked env) s := rfl

theorem ends_transport {path bearer : String} {body : Option Json} :
    (transport env path bearer body).Ends
      (fun r t => ∃ e : Exchange, e.sent = ⟨path, bearer, body⟩ ∧ e.reply = r ∧
      e.time = s.now ∧ t = s.told e) s := ⟨_, rfl, rfl, rfl, rfl⟩

/-- What the listing does: it sends its pages, and leaves the caches alone. -/
theorem ends_installationPages {bearer : String} (left page : Nat) (entries : List Json) :
    (installationPages env bearer left page entries).Ends
      (fun r t => t.auth = s.auth ∧ ∃ more, Later s t more ∧
      ∀ found, r = .ok found → ∃ listed, Pages bearer page more listed ∧
        (entries ++ listed).mapM (installationOf env) = .ok found) s := by
  induction left generalizing page entries s with
  | zero => exact ⟨rfl, [], Later.refl s, fun found h => by cases h⟩
  | succ left ih =>
    unfold installationPages
    refine ends_bind ends_transport ?_ ?_
    · rintro reply t ⟨e, sent, replied, -, rfl⟩
      refine ends_lift_bind (fun batch read => ?_) fun error _ => ?_
      · have page_ : IsPage bearer page e batch := ⟨sent, reply, replied, read⟩
        split
        · rename_i short
          exact ⟨rfl, [e], later_told s e, fun found listed => ⟨batch, .last page_ short, listed⟩⟩
        · rename_i full
          refine ends_mono (ih (page + 1) (entries ++ batch)) ?_
          rintro r t ⟨same, more, further, listed⟩
          refine ⟨same, [e] ++ more, (later_told s e).trans further, fun found ok => ?_⟩
          obtain ⟨rest, pages, decoded⟩ := listed found ok
          exact ⟨batch ++ rest, .more page_ full pages, by rwa [← List.append_assoc]⟩
      · exact ⟨rfl, [e], later_told s e, fun found h => by cases h⟩
    · rintro error t ⟨e, -, -, -, rfl⟩
      exact ⟨rfl, [e], later_told s e, fun found h => by cases h⟩

theorem ends_installations :
    (installations env).Ends (fun r t => t.auth = s.auth ∧ ∃ more, Later s t more ∧
    ∀ found, r = .ok found → ∃ bearer entries, Pages bearer 1 more entries ∧
      entries.mapM (installationOf env) = .ok found) s := by
  unfold installations
  refine ends_bind ends_appToken ?_ ?_
  · rintro bearer t rfl
    refine ends_mono (ends_installationPages maxPages 1 []) ?_
    rintro r t ⟨same, more, later, listed⟩
    refine ⟨same, more, (later_ticked s).trans later, fun found ok => ?_⟩
    obtain ⟨entries, pages, decoded⟩ := listed found ok
    exact ⟨bearer, entries, pages, decoded⟩
  · rintro error t rfl
    exact ⟨rfl, [], later_ticked s, fun found h => by cases h⟩

theorem scopedOf_ok {found : List Installation} (h : scopedOf found = .ok i) :
    found.filter Installation.usable = [i] := by
  unfold scopedOf at h
  split at h
  · cases h
  · split at h
    · cases h
    · rename_i single
      obtain rfl := Except.ok.inj h
      exact single
    · cases h

theorem active_iff {entry : Json} (h : installationOf env entry = .ok i) :
    Active entry ↔ i.usable = true := by
  unfold installationOf at h
  split at h
  · rename_i fields
    split at h
    · obtain rfl := Except.ok.inj h
      have read : Active (.obj fields) ↔ getOr fields "suspended_at" .null = .null :=
        ⟨fun ⟨_, same, active⟩ => Json.obj.inj same ▸ active, fun active => ⟨fields, rfl, active⟩⟩
      rw [read, Installation.usable]
      split
      · rename_i active
        exact iff_of_true active rfl
      · rename_i suspended
        exact iff_of_false suspended Bool.false_ne_true
    · cases h
  · cases h

theorem inactive_of_filter_nil {entries : List Json} {found : List Installation}
    (each : List.Forall₂ (fun entry i => installationOf env entry = .ok i) entries found)
    (none_usable : found.filter Installation.usable = []) : ∀ entry ∈ entries, ¬Active entry := by
  intro entry member active
  obtain ⟨i, inside, read⟩ := mapM_ok_of_mem (mapM_ok_iff.mpr each) member
  exact List.filter_eq_nil_iff.mp none_usable i inside ((active_iff read).mp active)

theorem onlyActive {entries : List Json} {found : List Installation}
    (decoded : entries.mapM (installationOf env) = .ok found)
    (only : found.filter Installation.usable = [i]) : OnlyActive env i entries := by
  induction mapM_ok_iff.mp decoded with
  | nil => cases only
  | @cons entry j entries found first later ih =>
    cases usable : j.usable with
    | true =>
      rw [List.filter_cons_of_pos usable] at only
      obtain ⟨rfl, none_usable⟩ := List.cons.inj only
      exact ⟨[], entry, entries, rfl, (active_iff first).mpr usable, first, inactive_of_filter_nil
        later none_usable⟩
    | false =>
      have inactive : ¬Active entry := fun active => by simp [(active_iff first).mp active] at usable
      rw [List.filter_cons_of_neg (by simp [usable])] at only
      obtain ⟨before, chosen, after, rfl, active, described, others⟩ := ih (mapM_ok_iff.mpr later) only
      refine ⟨entry :: before, chosen, after, rfl, active, described, fun other member => ?_⟩
      rcases List.mem_cons.mp member with rfl | member
      · exact inactive
      · exact others other member

theorem mintedOf_ok {reply stated : Json} (h : mintedOf reply = .ok (token, stated)) :
    token ≠ "" ∧ ∃ fields, reply = .obj fields ∧ getOr fields "token" .null = .str token := by
  unfold mintedOf at h
  split at h
  · rename_i fields
    split at h
    · rename_i text named
      split at h
      · cases h
      · rename_i filled
        obtain ⟨rfl, -⟩ := Prod.mk.inj (Except.ok.inj h)
        exact ⟨filled, fields, rfl, named⟩
    · cases h
  · cases h

theorem covered_true {body : Json} (h : covered body = .ok true) :
    ∃ fields repository others, body = .obj fields ∧
    getOr fields "repositories" (.arr []) = .arr (repository :: others) := by
  unfold covered at h
  split at h
  · rename_i fields
    split at h
    · rename_i entries listed
      cases entries with
      | nil => cases h
      | cons repository others => exact ⟨fields, repository, others, rfl, listed⟩
    · cases h
  · cases h

theorem expiry_le (value : Json) (now : ℚ) : expiry env value now ≤ now + 3600 := by
  unfold expiry
  split
  · split
    · exact le_refl _
    · split
      · exact le_refl _
      · exact min_le_right _ _
  · exact le_refl _

/-- How a mint ends: it raises and leaves the caches, or it caches what it returns. -/
def Minted (i : Installation) (auth : AppAuth) (r : Except Raised String) (t : Session)
    (more : List Exchange) : Prop :=
  (∃ e, r = .error e) ∧ t.auth = auth ∨
    ∃ e token expires, r = .ok token ∧ more = [e] ∧ Mints i e token ∧ expires ≤ e.time + 3600 ∧
      t.auth = { auth with token := some token, tokenExpiresAt := expires }

/-- A mint counts the expiry from a reading of the clock that is not later than the mint. -/
theorem ends_mint {now : ℚ} (earlier : now ≤ env.clock s.readings) :
    (mint env i now).Ends (fun r t => ∃ more, Later s t more ∧ Minted i s.auth r t more) s := by
  unfold mint
  refine ends_bind ends_appToken ?_ ?_
  · rintro bearer t rfl
    refine ends_bind ends_transport ?_ ?_
    · rintro reply t ⟨e, sent, replied, time, rfl⟩
      have asked : Later s ((s.ticked env).told e) [e] := (later_ticked s).trans (later_told _ e)
      refine ends_lift_bind (fun minted read => ?_) fun error _ => ?_
      · obtain ⟨token, stated⟩ := minted
        obtain ⟨filled, fields, rfl, named⟩ := mintedOf_ok read
        have mints : Mints i e token := ⟨by rw [sent], filled, fields, replied, named⟩
        have bound : expiry env stated now ≤ e.time + 3600 := by
          rw [time]
          exact (expiry_le stated now).trans (add_le_add earlier (le_refl _))
        exact ⟨[e], ⟨asked.exchanges, asked.readings⟩, Or.inr ⟨e, token, _, rfl, rfl, mints, bound, rfl⟩⟩
      · exact ⟨[e], asked, Or.inl ⟨⟨error, rfl⟩, rfl⟩⟩
    · rintro error t ⟨e, -, -, -, rfl⟩
      exact ⟨[e], (later_ticked s).trans (later_told _ e), Or.inl ⟨⟨error, rfl⟩, rfl⟩⟩
  · rintro error t rfl
    exact ⟨[], later_ticked s, Or.inl ⟨⟨error, rfl⟩, rfl⟩⟩

/-! ## The two functions -/

theorem fresh_without {auth : AppAuth} {now : ℚ} (none : auth.token = none) : auth.fresh now = .none := by
  unfold AppAuth.fresh
  split
  · exact none
  · rfl

theorem fresh_some {auth : AppAuth} {now : ℚ} (h : auth.fresh now = some token) :
    auth.token = some token ∧ now < auth.tokenExpiresAt - tokenRefreshMarginSeconds := by
  unfold AppAuth.fresh at h
  split at h
  · rename_i left
    exact ⟨h, left⟩
  · cases h

theorem ends_installation_cached {depth : Nat} (cached : s.auth.installation = some i) :
    (installation env (depth + 1)).Ends (fun r t => r = .ok i ∧ t = s) s := by
  rw [installation]
  rw [ends_read_bind, cached]
  exact ⟨rfl, rfl⟩

/-- The ways `token` can end: with the cached token, as the installation check ends, or with a mint
after it. -/
theorem ends_token (monotone : Monotone env.clock) {depth : Nat}
    {post : Except Raised String → Session → Prop}
    (cached : ∀ token, s.auth.fresh (env.clock s.readings) = some token → post (.ok token) (s.ticked env))
    (resolved : s.auth.fresh (env.clock s.readings) = none → (installation env depth).Ends (fun r t =>
      (∀ e, r = .error e → post (.error e) t) ∧ ∀ i, r = .ok i → s.readings ≤ t.readings ∧
        (∀ token, t.auth.fresh (env.clock s.readings) = some token → post (.ok token) t) ∧
        (t.auth.fresh (env.clock s.readings) = none → ∀ r' u more, Later t u more →
        Minted i t.auth r' u more → post r' u))
      (s.ticked env)) : (Github.token env (depth + 1)).Ends post s := by
  rw [Github.token]
  refine ends_bind ends_readClock ?_ ?_
  · rintro now t ⟨same, rfl⟩
    obtain rfl := Except.ok.inj same
    rw [ends_read_bind, show (s.ticked env).auth = s.auth from rfl]
    cases fresh : s.auth.fresh (env.clock s.readings) with
    | some token => exact cached token fresh
    | none =>
      refine ends_bind (resolved fresh) ?_ ?_
      · rintro i t ⟨-, ok⟩
        obtain ⟨readings, kept, minted⟩ := ok i rfl
        rw [ends_read_bind]
        cases again : t.auth.fresh (env.clock s.readings) with
        | some token => exact kept token again
        | none =>
          refine ends_mono (ends_mint (monotone readings)) ?_
          rintro r u ⟨more, later, ends⟩
          exact minted again r u more later ends
      · rintro e t ⟨raised, -⟩
        exact raised e rfl
  · rintro e t ⟨other, -⟩
    cases other

/-- The caches hold an installation, and no token but one minted for it. -/
structure Held (exchanges : List Exchange) (auth : AppAuth) (i : Installation) : Prop where
  installation : auth.installation = some i
  token : ∀ token, auth.token = some token → MintedIn exchanges i token auth.tokenExpiresAt

/-- While the installation is checked, `token` finds it cached and mints. -/
theorem ends_token_checking (monotone : Monotone env.clock) {depth : Nat}
    (filled : s.auth = { installation := some i }) :
    (Github.token env (depth + 2)).Ends
    (fun r t => ∃ more, Later s t more ∧ Minted i s.auth r t more) s := by
  have stale (now : ℚ) : s.auth.fresh now = none := fresh_without (by rw [filled])
  refine ends_token monotone (fun token fresh => ?_) fun _ => ?_
  · rw [stale] at fresh
    cases fresh
  · have held : (s.ticked env).auth.installation = some i := by rw [Session.ticked, filled]
    refine ends_mono (ends_installation_cached held) ?_
    rintro r t ⟨rfl, rfl⟩
    refine ⟨fun e h => (by cases h), fun j same => ?_⟩
    obtain rfl := Except.ok.inj same
    refine ⟨Nat.le_succ _, fun token fresh => ?_, fun _ r u more later minted => ?_⟩
    · exact absurd ((stale _).symm.trans fresh) (by rintro ⟨⟩)
    · exact ⟨[] ++ more, (later_ticked s).trans later, minted⟩

/-- What the exchanges of a check show of its installation, and what it leaves in the caches. -/
def Checked (i : Installation) (auth : AppAuth) (more : List Exchange) : Prop :=
  Covers i more ∧ Held more auth i

theorem ends_coversAnything (monotone : Monotone env.clock) {depth : Nat}
    (filled : s.auth = { installation := some i }) :
    (coversAnything env (Github.token env (depth + 2))).Ends
      (fun r t => ∃ more, Later s t more ∧ (r = .ok true → Checked i t.auth more)) s := by
  unfold coversAnything
  refine ends_bind (ends_token_checking monotone filled) ?_ ?_
  · rintro bearer t ⟨more, later, ⟨⟨e, raised⟩, -⟩ | ⟨e, token, expires, ok, rfl, mints, bound, auth⟩⟩
    · cases raised
    · obtain rfl := Except.ok.inj ok
      refine ends_bind ends_transport ?_ ?_
      · rintro body u ⟨cover, sent, replied, -, rfl⟩
        refine ⟨[e] ++ [cover], later.trans (later_told t cover), fun shown => ⟨.some mints ?_, ?_⟩⟩
        · obtain ⟨fields, repository, others, rfl, listed⟩ := covered_true shown
          exact ⟨by rw [sent], by rw [sent], fields, repository, others, replied, listed⟩
        · show Held _ t.auth i
          rw [auth, filled]
          refine ⟨rfl, fun token same => ?_⟩
          obtain rfl := Option.some.inj same
          exact ⟨e, List.mem_cons_self, mints, bound⟩
      · rintro error u ⟨cover, -, -, -, rfl⟩
        exact ⟨[e] ++ [cover], later.trans (later_told t cover), fun h => by cases h⟩
  · rintro error t ⟨more, later, -⟩
    exact ⟨more, later, fun h => by cases h⟩

theorem ends_check (monotone : Monotone env.clock) {depth : Nat}
    (filled : s.auth = { installation := some i }) :
    (check env (Github.token env (depth + 2)) i).Ends
      (fun r t => ∃ more, Later s t more ∧ (r = .ok () → Checked i t.auth more)) s := by
  unfold check
  split
  · rename_i selects
    refine ⟨[], Later.refl s, fun _ => ⟨.all selects, ?_⟩⟩
    show Held [] s.auth i
    rw [filled]
    exact ⟨rfl, fun token none => by cases none⟩
  · refine ends_bind (ends_coversAnything monotone filled) ?_ ?_
    · rintro shown t ⟨more, later, checked⟩
      cases shown with
      | true => exact ⟨more, later, fun _ => checked rfl⟩
      | false => exact ⟨more, later, fun h => by cases h⟩
    · rintro error t ⟨more, later, -⟩
      exact ⟨more, later, fun h => by cases h⟩

theorem ends_guardedCheck (monotone : Monotone env.clock) {depth : Nat}
    (filled : s.auth = { installation := some i }) :
    (rescue (check env (Github.token env (depth + 2)) i) clearCaches).Ends
      (fun r t => ∃ more, Later s t more ∧
      ((∃ e, r = .error e) ∧ t.auth = {} ∨ r = .ok () ∧ Checked i t.auth more)) s := by
  refine ends_rescue (ends_check monotone filled) ?_ ?_
  · rintro ⟨⟩ t ⟨more, later, checked⟩
    exact ⟨more, later, Or.inr ⟨rfl, checked rfl⟩⟩
  · rintro error t ⟨more, later, -⟩
    exact ⟨more, ⟨later.exchanges, later.readings⟩, Or.inl ⟨⟨error, rfl⟩, rfl⟩⟩

/-- An installation that is not cached is resolved, or the call raises and leaves both caches empty. -/
theorem ends_installation (monotone : Monotone env.clock) {depth : Nat} (empty : s.auth = {}) :
    (installation env (depth + 3)).Ends
      (fun r t => ∃ more, Later s t more ∧ ((∃ e, r = .error e) ∧ t.auth = {} ∨
      ∃ i, r = .ok i ∧ Resolves env i more ∧ Held more t.auth i)) s := by
  rw [installation, ends_read_bind, empty]
  refine ends_bind ends_installations ?_ ?_
  · rintro found t ⟨kept, pages, later, listed⟩
    refine ends_lift_bind (fun i only => ?_) fun error _ =>
      ⟨pages, later, Or.inl ⟨⟨error, rfl⟩, kept.trans empty⟩⟩
    have filled : { t.auth with installation := some i } =
      ({ installation := some i } : AppAuth) := by rw [kept, empty]
    refine ends_bind (ends_modify.mpr ⟨rfl, rfl⟩ : (setInstallation i).Ends (fun r u => r = .ok () ∧
      u = { t with auth := { t.auth with installation := some i } }) t) ?_ ?_
    · rintro ⟨⟩ u ⟨-, rfl⟩
      refine ends_bind (ends_guardedCheck monotone filled) ?_ ?_
      · rintro ⟨⟩ u ⟨rest, further, ⟨⟨e, raised⟩, -⟩ | ⟨-, covers, held⟩⟩
        · cases raised
        · obtain ⟨bearer, entries, read, decoded⟩ := listed found rfl
          have resolves : Resolves env i (pages ++ rest) :=
            ⟨pages, rest, bearer, entries, rfl, read, onlyActive decoded (scopedOf_ok only), covers⟩
          refine ⟨pages ++ rest, later.trans ⟨further.exchanges, further.readings⟩,
            Or.inr ⟨i, rfl, resolves, held.installation, ?_⟩⟩
          intro token cached
          obtain ⟨e, member, minted⟩ := held.token token cached
          exact ⟨e, List.mem_append_right _ member, minted⟩
      · rintro error u ⟨rest, further, ⟨-, cleared⟩ | ⟨ok, -⟩⟩
        · exact ⟨pages ++ rest, later.trans ⟨further.exchanges, further.readings⟩,
            Or.inl ⟨⟨error, rfl⟩, cleared⟩⟩
        · cases ok
    · rintro error u ⟨other, -⟩
      cases other
  · rintro error t ⟨kept, pages, later, -⟩
    exact ⟨pages, later, Or.inl ⟨⟨error, rfl⟩, kept.trans empty⟩⟩

/-! ## The recursion -/

theorem installation_cached {depth : Nat} (cached : s.auth.installation = some i) :
    installation env (depth + 1) s = (.ok i, s) := by
  obtain ⟨ok, same⟩ : (installation env (depth + 1) s).1 = .ok i ∧
      (installation env (depth + 1) s).2 = s :=
    ends_installation_cached cached
  exact Prod.ext ok same

theorem token_cached {depth : Nat} (cached : s.auth.installation = some i) :
    Github.token env (depth + 2) s = Github.token env 2 s := by
  rw [Github.token, Github.token]
  refine bind_congr_at fun now t read => bind_congr_at fun session u same => ?_
  obtain ⟨-, rfl⟩ := Prod.mk.inj read
  obtain ⟨ok, rfl⟩ := Prod.mk.inj same
  obtain rfl := Except.ok.inj ok
  cases AppAuth.fresh _ now with
  | some token => rfl
  | none =>
    have held : ∀ n, installation env (n + 1)
        { s with readings := s.readings + 1, now := env.clock s.readings } = (.ok i, _) :=
      fun n => installation_cached cached
    show Action.bind _ _ _ = Action.bind _ _ _
    unfold Action.bind
    rw [held, held]

/-- No call goes deeper than three calls of the two functions below it, so the recursion limit is
never met. -/
theorem installation_depth (depth : Nat) : installation env (depth + 3) = installation env 3 := by
  funext s
  rw [installation, installation]
  refine bind_congr_at fun session t _ => ?_
  cases session.auth.installation with
  | some i => rfl
  | none =>
    refine bind_congr_at fun found t _ => bind_congr_at fun i t _ => bind_congr_at fun _ u filled => ?_
    obtain ⟨-, rfl⟩ := Prod.mk.inj filled
    have same : check env (Github.token env (depth + 2)) i
        { t with auth := { t.auth with installation := some i } } =
        check env (Github.token env 2) i { t with auth := { t.auth with installation := some i } } := by
      unfold check
      split
      · rfl
      · unfold coversAnything
        show Action.bind (Action.bind _ _) _ _ = Action.bind (Action.bind _ _) _ _
        unfold Action.bind
        rw [token_cached (i := i) rfl]
    show Action.bind (rescue _ _) _ _ = Action.bind (rescue _ _) _ _
    unfold Action.bind rescue
    rw [same]

theorem token_depth (depth : Nat) : Github.token env (depth + 4) = Github.token env 4 := by
  rw [Github.token, installation_depth, Github.token]

/-! ## Calls in a row -/

/-- What is cached comes from what was exchanged after a point of the past. -/
def Sound (env : Environment) (past : List Exchange) (s : Session) : Prop :=
  ∃ since, s.exchanges = past ++ since ∧ (s.auth = {} ∨ ∃ i, ResolvedIn env since i ∧ Held since s.auth i)

/-- A call that led from one session to another was right to return what it did, going by the
exchanges since a point of the past: the installation was resolved, and the token was minted for it
in the call, or its recorded expiry leaves more than the margin. -/
inductive Legitimate (env : Environment) (past : List Exchange) (s t : Session) : Served → Prop
  | installation {i : Installation} {since : List Exchange} (exchanged : t.exchanges = past ++ since)
      (resolved : ResolvedIn env since i) : Legitimate env past s t (.installation i)
  | minted {i : Installation} {token : String} {expires : ℚ} {since more : List Exchange}
      (exchanged : t.exchanges = past ++ since) (resolved : ResolvedIn env since i)
      (called : t.exchanges = s.exchanges ++ more)
      (minted : MintedIn more i token expires) : Legitimate env past s t (.token token)
  | kept {i : Installation} {token : String} {expires : ℚ} {since before : List Exchange}
      (exchanged : t.exchanges = past ++ since) (resolved : ResolvedIn env since i)
      (held : s.exchanges = past ++ before)
      (minted : MintedIn before i token expires)
      (left : env.clock s.readings < expires - tokenRefreshMarginSeconds) :
      Legitimate env past s t (.token token)

section Calls
variable {past since more : List Exchange}

theorem Held.append {auth : AppAuth} (h : Held since auth i) (more : List Exchange) :
    Held (since ++ more) auth i :=
  ⟨h.installation, fun token cached => (h.token token cached).append more⟩

/-- A mint for an installation that was resolved keeps the caches sound. -/
theorem sound_minted {r : Except Raised String} (exchanged : s.exchanges = past ++ since)
    (resolved : ResolvedIn env since i)
    (held : Held since s.auth i) (later : Later s t more) (ends : Minted i s.auth r t more) :
    Sound env past t ∧ ∀ token, r = .ok token → ∃ expires, MintedIn more i token expires := by
  have whole : t.exchanges = past ++ (since ++ more) := by
    rw [later.exchanges, exchanged, List.append_assoc]
  rcases ends with ⟨⟨error, rfl⟩, kept⟩ | ⟨e, token, expires, rfl, rfl, mints, bound, auth⟩
  · refine ⟨⟨since ++ more, whole, Or.inr ⟨i, resolved.append more, ?_⟩⟩, fun token h => by cases h⟩
    rw [kept]
    exact held.append more
  · refine ⟨⟨since ++ [e], whole, Or.inr ⟨i, resolved.append [e], ?_, fun cached same => ?_⟩⟩,
      fun returned same => ?_⟩
    · rw [auth]
      exact held.installation
    · rw [auth] at same ⊢
      obtain rfl := Option.some.inj same
      exact ⟨e, List.mem_append_right _ (List.mem_singleton_self e), mints, bound⟩
    · obtain rfl := Except.ok.inj same
      exact ⟨expires, e, List.mem_singleton_self e, mints, bound⟩

theorem ends_installation_sound (monotone : Monotone env.clock) {depth : Nat} (sound : Sound env past s) :
    (installation env (depth + 3)).Ends (fun r t => Sound env past t ∧
      ∀ i, r = .ok i → Legitimate env past s t (.installation i)) s := by
  obtain ⟨since, exchanged, empty | ⟨i, resolved, held⟩⟩ := sound
  · refine ends_mono (ends_installation monotone empty) ?_
    rintro r t ⟨more, later, ends⟩
    have whole : t.exchanges = past ++ (since ++ more) := by
      rw [later.exchanges, exchanged, List.append_assoc]
    rcases ends with ⟨⟨error, rfl⟩, cleared⟩ | ⟨i, rfl, resolves, held⟩
    · exact ⟨⟨_, whole, Or.inl cleared⟩, fun i h => by cases h⟩
    · have resolved : ResolvedIn env (since ++ more) i :=
        ⟨more, (List.suffix_append since more).isInfix, resolves⟩
      refine ⟨⟨_, whole, Or.inr ⟨i, resolved, held.installation, fun token cached => ?_⟩⟩,
        fun j same => ?_⟩
      · obtain ⟨e, member, minted⟩ := held.token token cached
        exact ⟨e, List.mem_append_right _ member, minted⟩
      · obtain rfl := Except.ok.inj same
        exact .installation whole resolved
  · refine ends_mono (ends_installation_cached held.installation) ?_
    rintro r t ⟨rfl, rfl⟩
    refine ⟨⟨since, exchanged, Or.inr ⟨i, resolved, held⟩⟩, fun j same => ?_⟩
    obtain rfl := Except.ok.inj same
    exact .installation exchanged resolved

theorem ends_token_sound (monotone : Monotone env.clock) {depth : Nat} (sound : Sound env past s) :
    (Github.token env (depth + 4)).Ends (fun r t => Sound env past t ∧
      ∀ token, r = .ok token → Legitimate env past s t (.token token)) s := by
  obtain ⟨since, exchanged, empty | ⟨i, resolved, held⟩⟩ := sound
  · have stale (now : ℚ) : s.auth.fresh now = none := fresh_without (by rw [empty])
    refine ends_token monotone (fun token fresh => ?_) fun _ => ?_
    · rw [stale] at fresh
      cases fresh
    · refine ends_mono (ends_installation monotone empty) ?_
      rintro r t ⟨more, later, ends⟩
      have whole : t.exchanges = past ++ (since ++ more) := by
        rw [later.exchanges, ← List.append_assoc, ← exchanged]
        rfl
      rcases ends with ⟨⟨error, rfl⟩, cleared⟩ | ⟨i, rfl, resolves, held⟩
      · refine ⟨fun e _ => ⟨⟨_, whole, Or.inl cleared⟩, fun token h => by cases h⟩, fun i h => by cases h⟩
      · have resolved : ResolvedIn env (since ++ more) i :=
          ⟨more, (List.suffix_append since more).isInfix, resolves⟩
        have holds : Held (since ++ more) t.auth i := by
          refine ⟨held.installation, fun token cached => ?_⟩
          obtain ⟨e, member, minted⟩ := held.token token cached
          exact ⟨e, List.mem_append_right _ member, minted⟩
        refine ⟨fun e h => (by cases h), fun j same => ?_⟩
        obtain rfl := Except.ok.inj same
        refine ⟨(Nat.le_succ _).trans later.readings, fun token fresh => ?_,
          fun _ r u rest further minted => ?_⟩
        · obtain ⟨cached, -⟩ := fresh_some fresh
          refine ⟨⟨_, whole, Or.inr ⟨i, resolved, holds⟩⟩, fun returned same => ?_⟩
          obtain rfl := Except.ok.inj same
          exact .minted whole resolved later.exchanges (held.token _ cached)
        · obtain ⟨sound, served⟩ := sound_minted whole resolved holds further minted
          refine ⟨sound, fun token ok => ?_⟩
          obtain ⟨expires, e, member, mints⟩ := served token ok
          have called : u.exchanges = s.exchanges ++ (more ++ rest) := by
            rw [further.exchanges, later.exchanges, List.append_assoc]
            rfl
          refine .minted (by rw [called, exchanged, List.append_assoc])
            (?_ : ResolvedIn env (since ++ (more ++ rest)) i) called
            ⟨e, List.mem_append_right _ member, mints⟩
          rw [← List.append_assoc]
          exact resolved.append rest
  · refine ends_token monotone (fun token fresh => ?_) fun stale => ?_
    · obtain ⟨cached, left⟩ := fresh_some fresh
      refine ⟨⟨since, exchanged, Or.inr ⟨i, resolved, held⟩⟩, fun returned same => ?_⟩
      obtain rfl := Except.ok.inj same
      exact .kept exchanged resolved exchanged (held.token _ cached) left
    · refine ends_mono (ends_installation_cached held.installation) ?_
      rintro r t ⟨rfl, rfl⟩
      refine ⟨fun e h => (by cases h), fun j same => ?_⟩
      obtain rfl := Except.ok.inj same
      refine ⟨Nat.le_succ _, fun token fresh => absurd (stale.symm.trans fresh)
        (by rintro ⟨⟩), fun _ r u more later minted => ?_⟩
      obtain ⟨sound, served⟩ := sound_minted (s := s.ticked env) exchanged resolved held later minted
      refine ⟨sound, fun token ok => ?_⟩
      obtain ⟨expires, new⟩ := served token ok
      have whole : u.exchanges = past ++ (since ++ more) := by
        rw [later.exchanges, ← List.append_assoc, ← exchanged]
        rfl
      exact .minted whole (resolved.append more) later.exchanges new

end Calls

theorem ends_perform (monotone : Monotone env.clock) (limit : Nat) {past : List Exchange}
    (sound : Sound env past s) (entry : Entry) :
    (perform env limit entry).Ends (fun r t => Sound env past t ∧ ∀ served, r = .ok served →
    Legitimate env past s t served) s := by
  cases entry with
  | installation =>
    refine ends_bind (ends_installation_sound monotone sound) ?_ ?_
    · rintro i t ⟨sound, legitimate⟩
      refine ⟨sound, fun served same => ?_⟩
      obtain rfl := Except.ok.inj same
      exact legitimate i rfl
    · rintro e t ⟨sound, -⟩
      exact ⟨sound, fun served h => by cases h⟩
  | token =>
    refine ends_bind (ends_token_sound monotone sound) ?_ ?_
    · rintro token t ⟨sound, legitimate⟩
      refine ⟨sound, fun served same => ?_⟩
      obtain rfl := Except.ok.inj same
      exact legitimate token rfl
    · rintro e t ⟨sound, -⟩
      exact ⟨sound, fun served h => by cases h⟩

theorem run_sound (monotone : Monotone env.clock) (limit : Nat) {past : List Exchange}
    (sound : Sound env past s)
    (entries : List Entry) : Sound env past (run env limit entries s) := by
  induction entries generalizing s with
  | nil => exact sound
  | cons entry rest ih => exact ih (ends_perform monotone limit sound entry).1

/-- GitHub as it answers for an App installed on selected repositories: the first page of
repositories is refused, and each later one shows a repository. A minute passes between two readings
of the clock. -/
def answering : Environment where
  clock readings := 60 * readings
  transport sent request :=
    if request.path = coveragePath then
      if sent < 3 then .error (.appAuthError s!"GitHub answered 503 for {coveragePath}")
      else .ok (.obj [("repositories", .arr [.obj [("full_name", .str "owner/app")]])])
    else if request.body.isNone then
      .ok (.arr [.obj [("id", .int 7), ("repository_selection", .str "selected"),
      ("suspended_at", .null)]])
    else .ok (.obj [("token", .str "ghs_1"), ("expires_at", .str "2026-01-01T00:30:00Z")])
  mintJwt _ := .ok "header.claims.signature"
  timestamp text := if text = "2026-01-01T00:30:00+00:00" then some 1800 else none
  str value := value.asStr?.getD ""

end Cindral.Github
