import Nidra.Api.Accounts
import Nidra.Lib.History

/-
  This file follows the tokens of the API over a run: where a
  caller who is recognised got the token from, and what a user
  who was deleted or moved can still do.

  Key definitions include:
    * `Genuine`, `Unforged`
    * `Minted.FromLogin`, `Renews`
    * `Traced`
    * `Absent`, `KeepsAbsent`, `CutOff`

  Main declarations:
    * `traced_step`
    * `session_of_principal`
    * `cutOff_step`
    * `cut_off_of_takesAway`
-/

namespace Nidra

namespace Api

namespace Auth

section Sessions

variable {Salt Token : Type}

------------------------------------------------------------
-- What A Token Is Made From
------------------------------------------------------------

/- A token says what one that was handed out says. -/
def Genuine
    (jwt : Jwt Token)
    (cfg : AuthConfig)
    (w : World Salt)
    (token : Token)
    (now : ℚ) : Prop :=
  ∀ claims, jwt.decode token ⌊now⌋ = some claims →
    ∃ m ∈ w.issued, claims = m.claims cfg

/- Only who knows the key can make a token that is accepted. -/
def Unforged
    (jwt : Jwt Token)
    (cfg : AuthConfig)
    (w : World Salt) : Event Salt Token → Prop
  | .refresh token now _ => Genuine jwt cfg w token now
  | .present credentials now =>
      ∀ c ∈ credentials, Genuine jwt cfg w c.token now
  | .register _ _ => True
  | .selectUser _ => True
  | .finishLogin _ _ => True
  | .deleteUser _ => True
  | .moveUser _ _ => True

/- A token was made for a login that was checked. -/
def Minted.FromLogin
    (bcrypt : Bcrypt Salt)
    (m : Minted) : Prop :=
  ∃ password,
    m.source = .login password m.row ∧
      verifyPassword bcrypt password m.row.passwordHash = true

/- When a token expires. -/
def Minted.expiry
    (cfg : AuthConfig)
    (m : Minted) : ℤ :=
  truncate (m.minting.at_ m.type + cfg.ttl m.type)

/- A token was made for a refresh token that was still good. -/
def Renews
    (cfg : AuthConfig)
    (p m : Minted) : Prop :=
  p.type = .refresh ∧
    (∃ now, m.source = .refresh (p.claims cfg) now ∧
      ⌊now⌋ ≤ p.expiry cfg) ∧
    m.row.id = p.row.id ∧ m.row.tenantId = p.row.tenantId

/- Where every token that was handed out comes from. -/
structure Traced
    (rules : TextRules)
    (bcrypt : Bcrypt Salt)
    (cfg : AuthConfig)
    (w : World Salt) : Prop where
  consistent : Consistent rules bcrypt w
  rows :
    ∀ m ∈ w.issued, Recorded bcrypt w.registered w.moves m.row
  origins :
    w.issued.EachAfter
      (fun before m =>
        m.FromLogin bcrypt ∨ ∃ p ∈ before, Renews cfg p m)

variable {rules : TextRules}
variable {bcrypt : Bcrypt Salt}
variable {jwt : Jwt Token}
variable {cfg : AuthConfig}

------------------------------------------------------------
-- What A Token Has Passed
------------------------------------------------------------

theorem decodeToken_eq_ok
    {token : Token}
    {now : ℚ}
    {type : TokenType}
    {claims : Claims}
    (hDecoded : decodeToken jwt token now type = .ok claims) :
    jwt.decode token ⌊now⌋ = some claims ∧
      claims.type = some type.text := by
  unfold decodeToken at hDecoded
  split at hDecoded
  · cases hDecoded
  · rename_i found hFound
    split at hDecoded
    · cases hDecoded
    · rename_i hType
      split at hDecoded
      · cases hDecoded
      · cases hDecoded
        exact ⟨hFound, not_not.mp hType⟩

/- A token of ours was not expired, and is of its own kind. -/
theorem minted_of_decodeToken
    {w : World Salt}
    {token : Token}
    {now : ℚ}
    (hGenuine : Genuine jwt cfg w token now)
    {type : TokenType}
    {claims : Claims}
    (hDecoded : decodeToken jwt token now type = .ok claims) :
    ∃ m ∈ w.issued,
      claims = m.claims cfg ∧ m.type = type ∧
        ⌊now⌋ ≤ m.expiry cfg := by
  rcases decodeToken_eq_ok hDecoded with ⟨hFound, hType⟩
  rcases hGenuine claims hFound with ⟨m, hMem, rfl⟩
  have hFresh :=
    jwt.expiredAt_of_decode token (m.claims cfg) ⌊now⌋ hFound
  refine
    ⟨m, hMem, rfl,
      TokenType.text_injective (Option.some.inj hType), ?_⟩
  exact Int.not_lt.mp (of_decide_eq_false hFresh)

theorem grantOfRefresh_eq_ok
    {tables : Accounts}
    {token : Token}
    {now : ℚ}
    {claims : Claims}
    {row : UserRow}
    (hGrant :
      grantOfRefresh jwt tables token now =
        .ok (claims, row)) :
    decodeToken jwt token now .refresh = .ok claims ∧
      row ∈ tables.users ∧
        Uuid.ofText (claims.sub.getD "") = some row.id ∧
          Uuid.ofText (claims.tenantId.getD "") =
            some row.tenantId := by
  unfold grantOfRefresh at hGrant
  cases hDecoded : decodeToken jwt token now .refresh with
  | error refused =>
      rw [hDecoded] at hGrant
      cases hGrant
  | ok decoded =>
      rw [hDecoded] at hGrant
      dsimp only [bind, Except.bind] at hGrant
      split at hGrant
      · cases hGrant
      · rename_i found hFound
        cases hGrant
        unfold rowOfClaims at hFound
        simp only [Option.bind_eq_bind,
          Option.bind_eq_some_iff] at hFound
        rcases hFound with
          ⟨userId, hUser, tenantId, hTenant, hFind⟩
        have hSame := List.find?_some hFind
        rcases of_decide_eq_true hSame with ⟨rfl, rfl⟩
        exact
          ⟨rfl, List.mem_of_find?_eq_some hFind, hUser,
            hTenant⟩

/- A refresh is only ever refused in one way. -/
theorem eq_badCredentials_of_grantOfRefresh
    {tables : Accounts}
    {token : Token}
    {now : ℚ}
    {refused : Refused}
    (hGrant :
      grantOfRefresh jwt tables token now = .error refused) :
    refused = badCredentials := by
  unfold grantOfRefresh decodeToken at hGrant
  cases hFound : jwt.decode token ⌊now⌋ with
  | none =>
      rw [hFound] at hGrant
      cases hGrant
      rfl
  | some claims =>
      rw [hFound] at hGrant
      dsimp only [bind, Except.bind] at hGrant
      split at hGrant
      · rename_i hRefused
        cases hGrant
        split at hRefused
        · cases hRefused
          rfl
        · split at hRefused
          · cases hRefused
            rfl
          · cases hRefused
      · split at hGrant
        · cases hGrant
          rfl
        · cases hGrant

------------------------------------------------------------
-- Every Token Is Traced
------------------------------------------------------------

/- A pair of tokens is as it should be when each is. -/
theorem eachAfter_mint
    {fits : List Minted → Minted → Prop}
    {w : World Salt}
    (hIssued : w.issued.EachAfter fits)
    {row : UserRow}
    {minting : Minting}
    {source : Source}
    (hFits :
      ∀ type before,
        w.issued ⊆ before →
          fits before ⟨type, row, minting, source⟩) :
    (w.mint row minting source).issued.EachAfter fits := by
  have hFirst :=
    List.eachAfter_concat hIssued
      (hFits .access w.issued (List.Subset.refl _))
  have hBoth :=
    List.eachAfter_concat hFirst
      (hFits .refresh _ (List.subset_append_left _ _))
  rw [List.append_assoc] at hBoth
  exact hBoth

theorem mem_mint
    {w : World Salt}
    {row : UserRow}
    {minting : Minting}
    {source : Source}
    {m : Minted} :
    m ∈ (w.mint row minting source).issued ↔
      m ∈ w.issued ∨
        ∃ type, m = ⟨type, row, minting, source⟩ := by
  constructor
  · intro hMem
    rcases List.mem_append.mp hMem with hOld | hNew
    · exact Or.inl hOld
    · simp only [List.mem_cons, List.not_mem_nil,
        or_false] at hNew
      rcases hNew with rfl | rfl
      · exact Or.inr ⟨.access, rfl⟩
      · exact Or.inr ⟨.refresh, rfl⟩
  · rintro (hOld | ⟨type, rfl⟩)
    · exact List.mem_append_left _ hOld
    · apply List.mem_append_right
      cases type with
      | access => exact List.mem_cons_self
      | refresh =>
          exact
            List.mem_cons_of_mem _ (List.mem_singleton_self _)

/- What a step adds to the history, and what it leaves. -/
theorem recorded_of_step
    {w : World Salt}
    {e : Event Salt Token}
    {row : UserRow}
    (hRow : Recorded bcrypt w.registered w.moves row) :
    Recorded bcrypt
      (w.step rules bcrypt jwt e).registered
      (w.step rules bcrypt jwt e).moves row := by
  have hTurn := step_turn rules bcrypt jwt w e
  revert hTurn
  generalize w.step rules bcrypt jwt e = w'
  intro hTurn
  cases hTurn with
  | idle => exact hRow
  | registered hFree => exact hRow.append
  | selected hRead => exact hRow
  | dismissed call minting => exact hRow
  | loggedIn hCall hVerified => exact hRow
  | refreshed hGrant => exact hRow
  | deleted userId => exact hRow
  | moved userId tenantId => exact hRow.append_moves

/- The token that a refresh is made for, among those before. -/
theorem renews_of_grant
    {w : World Salt}
    {token : Token}
    {now : ℚ}
    (hGenuine : Genuine jwt cfg w token now)
    {claims : Claims}
    {row : UserRow}
    (hGrant :
      grantOfRefresh jwt w.tables token now =
        .ok (claims, row))
    (type : TokenType)
    (minting : Minting) :
    ∃ p ∈ w.issued,
      Renews cfg p
        ⟨type, row, minting, .refresh claims now⟩ := by
  rcases grantOfRefresh_eq_ok hGrant with
    ⟨hDecoded, _, hUser, hTenant⟩
  rcases minted_of_decodeToken hGenuine hDecoded with
    ⟨p, hMem, rfl, hType, hFresh⟩
  have hUser' :
      Uuid.ofText p.row.id.str = some row.id := hUser
  have hTenant' :
      Uuid.ofText p.row.tenantId.str = some row.tenantId :=
    hTenant
  rw [Uuid.ofText_str] at hUser' hTenant'
  exact
    ⟨p, hMem, hType, ⟨now, rfl, hFresh⟩,
      (Option.some.inj hUser').symm,
      (Option.some.inj hTenant').symm⟩

/- A step on a token that is not forged keeps all traces. -/
theorem traced_step
    {w : World Salt}
    {e : Event Salt Token}
    (hTraced : Traced rules bcrypt cfg w)
    (hUnforged : Unforged jwt cfg w e) :
    Traced rules bcrypt cfg (w.step rules bcrypt jwt e) := by
  have hConsistent :
      Consistent rules bcrypt (w.step rules bcrypt jwt e) :=
    consistent_step hTraced.consistent e
  have hOld :
      ∀ m ∈ w.issued,
        Recorded bcrypt
          (w.step rules bcrypt jwt e).registered
          (w.step rules bcrypt jwt e).moves m.row :=
    fun m hMem => recorded_of_step (hTraced.rows m hMem)
  have hTurn := step_turn rules bcrypt jwt w e
  revert hTurn hConsistent hOld
  generalize w.step rules bcrypt jwt e = w'
  intro hConsistent hOld hTurn
  refine ⟨hConsistent, ?_, ?_⟩
  · cases hTurn with
    | idle => exact hOld
    | registered hFree => exact hOld
    | selected hRead => exact hOld
    | dismissed call minting => exact hOld
    | loggedIn hCall hVerified =>
        intro m hMem
        rcases mem_mint.mp hMem with hBefore | ⟨type, rfl⟩
        · exact hOld m hBefore
        · exact
            (hTraced.consistent.read _ hCall _ rfl).1
    | refreshed hGrant =>
        intro m hMem
        rcases mem_mint.mp hMem with hBefore | ⟨type, rfl⟩
        · exact hOld m hBefore
        · exact
            hTraced.consistent.users _
              (grantOfRefresh_eq_ok hGrant).2.1
    | deleted userId => exact hOld
    | moved userId tenantId => exact hOld
  · cases hTurn with
    | idle => exact hTraced.origins
    | registered hFree => exact hTraced.origins
    | selected hRead => exact hTraced.origins
    | dismissed call minting => exact hTraced.origins
    | @loggedIn call minting body row hCall hVerified =>
        apply eachAfter_mint hTraced.origins
        intro type before hBefore
        exact Or.inl ⟨body.password, rfl, hVerified⟩
    | @refreshed token now minting claims row hGrant =>
        apply eachAfter_mint hTraced.origins
        intro type before hBefore
        rcases renews_of_grant hUnforged hGrant type minting
          with ⟨p, hMem, hRenews⟩
        exact Or.inr ⟨p, hBefore hMem, hRenews⟩
    | deleted userId => exact hTraced.origins
    | moved userId tenantId => exact hTraced.origins

theorem traced_start :
    Traced rules bcrypt cfg ({} : World Salt) where
  consistent := consistent_start
  rows := fun _ hMem => absurd hMem List.not_mem_nil
  origins := List.eachAfter_nil

/- Renewing a token does not change whom it stands for. -/
theorem same_of_renewed
    {root m : Minted}
    (hChain : Relation.ReflTransGen (Renews cfg) root m) :
    m.row.id = root.row.id ∧
      m.row.tenantId = root.row.tenantId := by
  induction hChain with
  | refl => exact ⟨rfl, rfl⟩
  | tail hChain hLast ih =>
      exact
        ⟨hLast.2.2.1.trans ih.1, hLast.2.2.2.trans ih.2⟩

/- Rows that were registered have the one role there is. -/
theorem roleText_of_recorded
    {registered : List (RegisterRequest × Drawn Salt)}
    {moves : List (Uuid × Uuid)}
    {row : UserRow}
    (hRow : Recorded bcrypt registered moves row) :
    row.roleText = defaultRole := by
  rcases hRow with ⟨entry, _, hSame, _⟩
  rw [hSame]
  rfl

/- The token of a caller who is let in is one of ours. -/
theorem minted_of_currentPrincipal
    {w : World Salt}
    {credentials : Option (Credentials Token)}
    {now : ℚ}
    (hGenuine :
      ∀ c ∈ credentials, Genuine jwt cfg w c.token now)
    {principal : Principal}
    (hPrincipal :
      currentPrincipal jwt credentials now = .ok principal) :
    ∃ m ∈ w.issued,
      (∃ c ∈ credentials,
        jwt.decode c.token ⌊now⌋ = some (m.claims cfg)) ∧
        m.type = .access ∧ ⌊now⌋ ≤ m.expiry cfg ∧
          principal = principalOf (m.claims cfg) := by
  cases credentials with
  | none => cases hPrincipal
  | some found =>
      unfold currentPrincipal verifyWsToken at hPrincipal
      dsimp only at hPrincipal
      split at hPrincipal
      · cases hPrincipal
      · cases hDecoded :
            decodeToken jwt found.token now .access with
        | error refused =>
            rw [hDecoded] at hPrincipal
            cases hPrincipal
        | ok claims =>
            rw [hDecoded] at hPrincipal
            cases hPrincipal
            have hFound := (decodeToken_eq_ok hDecoded).1
            rcases minted_of_decodeToken (hGenuine found rfl)
                hDecoded with
              ⟨m, hMem, rfl, hType, hFresh⟩
            exact
              ⟨m, hMem, ⟨found, rfl, hFound⟩, hType, hFresh,
                rfl⟩

/-
  Whoever the API recognises, as long as no token is forged,
  presents an access token that was handed out, has not
  expired and goes back, through refresh tokens that had not
  expired when they were traded, to a login. The user of that
  login is one who registered, and its password fits their
  hash; the caller is that user, in the tenant they registered
  with or one they were moved to.
-/
theorem session_of_principal
    (rules : TextRules)
    (bcrypt : Bcrypt Salt)
    (jwt : Jwt Token)
    (cfg : AuthConfig)
    (events : List (Event Salt Token))
    (credentials : Option (Credentials Token))
    (now : ℚ)
    (hUnforged :
      AllAlong (World.step rules bcrypt jwt)
        (Unforged jwt cfg) {}
        (events ++ [.present credentials now]))
    {principal : Principal}
    (hPrincipal :
      currentPrincipal jwt credentials now = .ok principal) :
    let w := World.run rules bcrypt jwt {} events
    ∃ m ∈ w.issued, ∃ root ∈ w.issued,
      ∃ entry ∈ w.registered, ∃ password,
        (∃ c ∈ credentials,
          jwt.decode c.token ⌊now⌋ = some (m.claims cfg)) ∧
        m.type = .access ∧
        ⌊now⌋ ≤ m.expiry cfg ∧
        Relation.ReflTransGen (Renews cfg) root m ∧
        root.source = .login password root.row ∧
        root.row.id = entry.2.userId ∧
        verifyPassword bcrypt password
            (bcrypt.hashpw entry.1.password entry.2.salt) =
          true ∧
        (root.row.tenantId = entry.2.tenantId ∨
          (entry.2.userId, root.row.tenantId) ∈ w.moves) ∧
        principal =
          { userId := entry.2.userId.str
            tenantId := root.row.tenantId.str
            role := defaultRole } := by
  intro w
  rcases allAlong_append.mp hUnforged with ⟨hRun, hLast, _⟩
  have hTraced : Traced rules bcrypt cfg w :=
    AllAlong.invariant (Traced rules bcrypt cfg)
      (fun _ _ => traced_step) traced_start hRun
  rcases minted_of_currentPrincipal hLast hPrincipal with
    ⟨m, hMem, hFound, hType, hFresh, rfl⟩
  rcases List.exists_root_of_eachAfter hTraced.origins hMem
    with ⟨root, hRoot, ⟨password, hLogin, hVerified⟩, hChain⟩
  rcases hTraced.rows root hRoot with
    ⟨entry, hEntry, hRow, hTenant⟩
  rcases same_of_renewed hChain with ⟨hId, hSameTenant⟩
  have hRootId : root.row.id = entry.2.userId := by
    rw [hRow]
    rfl
  have hHash :
      root.row.passwordHash =
        bcrypt.hashpw entry.1.password entry.2.salt := by
    rw [hRow]
    rfl
  refine
    ⟨m, hMem, root, hRoot, entry, hEntry, password, hFound,
      hType, hFresh, hChain, hLogin, hRootId, ?_, ?_, ?_⟩
  · rw [← hHash]
    exact hVerified
  · rw [← hRootId]
    exact hTenant
  · have hRole := roleText_of_recorded (hTraced.rows m hMem)
    unfold principalOf Minted.claims claimsOf
    simp only [Option.getD_some, hRole, hId, hSameTenant,
      hRootId]

end Sessions

------------------------------------------------------------
-- A User Who Logs In And Refreshes
------------------------------------------------------------

/- What was handed out is not forged. -/
theorem genuine_plainJwt
    {cfg : AuthConfig}
    {w : World Unit}
    {m : Minted}
    (hMem : m ∈ w.issued)
    (now : ℚ) :
    Genuine plainJwt cfg w (m.claims cfg) now := by
  intro claims hDecoded
  dsimp only [plainJwt, id] at hDecoded
  split at hDecoded
  · cases hDecoded
  · cases hDecoded
    exact ⟨m, hMem, rfl⟩

def anaRow : UserRow := userOf plainBcrypt anaRequest ⟨7, 9, ()⟩

def anaLogin : LoginRequest :=
  { email := "ana@example.org"
    password := "kingfisher" }

def secondMinting : Minting :=
  { at_ := fun _ => 400
    jti := fun type => type.text ++ "2" }

/- The refresh token of the login, and what it is traded for. -/
def anaRefresh : Minted :=
  ⟨.refresh, anaRow, firstMinting, .login "kingfisher" anaRow⟩

def anaRenewed : Minted :=
  ⟨.access, anaRow, secondMinting,
    .refresh (anaRefresh.claims {}) 400⟩

def anaOnline : World Unit :=
  { tables :=
      { tenants := [⟨7, "Example"⟩]
        users := [anaRow] }
    registered := [(anaRequest, ⟨7, 9, ()⟩)]
    issued :=
      [⟨.access, anaRow, firstMinting,
          .login "kingfisher" anaRow⟩,
        anaRefresh] }

theorem run_anaLogin :
    World.run plainRules plainBcrypt plainJwt {}
        [.register anaRequest ⟨7, 9, ()⟩,
          .selectUser anaLogin,
          .finishLogin 0 firstMinting] =
      anaOnline := rfl

theorem grantOfRefresh_ana :
    grantOfRefresh plainJwt anaOnline.tables
        (anaRefresh.claims {}) 400 =
      .ok (anaRefresh.claims {}, anaRow) := by
  have hFresh :
      ⌊(400 : ℚ)⌋ ≤
        truncate
          (firstMinting.at_ .refresh +
            AuthConfig.ttl {} .refresh) := by
    norm_num [truncate, firstMinting, AuthConfig.ttl]
  have hDecoded :
      decodeToken plainJwt (anaRefresh.claims {}) 400
          .refresh =
        .ok (anaRefresh.claims {}) :=
    decodeToken_encode plainJwt {} .refresh anaRow.id
      anaRow.tenantId anaRow.roleText firstMinting hFresh
  have hUsers :
      (anaOnline.tables.users.map UserRow.id).Nodup :=
    List.nodup_singleton _
  have hFound :
      rowOfClaims anaOnline.tables (anaRefresh.claims {}) =
        some anaRow :=
    rowOfClaims_claimsOf hUsers (List.mem_singleton_self _) {}
      .refresh anaRow.roleText firstMinting
  unfold grantOfRefresh
  rw [hDecoded]
  dsimp only [bind, Except.bind]
  rw [hFound]

theorem step_anaRefresh :
    anaOnline.step plainRules plainBcrypt plainJwt
        (.refresh (anaRefresh.claims {}) 400 secondMinting) =
      anaOnline.mint anaRow secondMinting
        (.refresh (anaRefresh.claims {}) 400) := by
  dsimp only [World.step]
  rw [grantOfRefresh_ana]

def anaEvents : List (Event Unit Claims) :=
  [.register anaRequest ⟨7, 9, ()⟩, .selectUser anaLogin,
    .finishLogin 0 firstMinting] ++
    [.refresh (anaRefresh.claims {}) 400 secondMinting]

def anaCredentials : Credentials Claims :=
  ⟨"Bearer", anaRenewed.claims {}⟩

theorem anaEvents_unforged :
    AllAlong (World.step plainRules plainBcrypt plainJwt)
      (Unforged plainJwt {}) {}
      (anaEvents ++ [.present (some anaCredentials) 500]) := by
  unfold anaEvents
  rw [List.append_assoc, allAlong_append]
  refine ⟨⟨trivial, trivial, trivial, trivial⟩, ?_⟩
  rw [← World.run, run_anaLogin]
  refine ⟨genuine_plainJwt (by simp [anaOnline]) 400, ?_, trivial⟩
  rw [step_anaRefresh]
  rintro credentials ⟨rfl⟩
  apply genuine_plainJwt
  simp [World.mint, anaRenewed]

theorem currentPrincipal_ana :
    currentPrincipal plainJwt (some anaCredentials) 500 =
      .ok
        { userId := Uuid.str 9
          tenantId := Uuid.str 7
          role := defaultRole } := by
  have hFresh :
      ⌊(500 : ℚ)⌋ ≤
        truncate
          (secondMinting.at_ .access +
            AuthConfig.ttl {} .access) := by
    norm_num [truncate, secondMinting, AuthConfig.ttl]
  have hDecoded :
      decodeToken plainJwt anaCredentials.token 500 .access =
        .ok (anaRenewed.claims {}) :=
    decodeToken_encode plainJwt {} .access anaRow.id
      anaRow.tenantId anaRow.roleText secondMinting hFresh
  have hScheme :
      PyText.lower anaCredentials.scheme = "bearer" := by
    decide
  unfold currentPrincipal verifyWsToken
  dsimp only
  rw [if_neg (not_not_intro hScheme), hDecoded]
  rfl

/- The access token that she refreshed is traced to her login. -/
theorem session_of_principal_ana :
    let w :=
      World.run plainRules plainBcrypt plainJwt {} anaEvents
    ∃ m ∈ w.issued, ∃ root ∈ w.issued,
      ∃ entry ∈ w.registered, ∃ password,
        (∃ c ∈ some anaCredentials,
          plainJwt.decode c.token ⌊(500 : ℚ)⌋ =
            some (m.claims {})) ∧
        m.type = .access ∧
        ⌊(500 : ℚ)⌋ ≤ m.expiry {} ∧
        Relation.ReflTransGen (Renews {}) root m ∧
        root.source = .login password root.row ∧
        root.row.id = entry.2.userId ∧
        verifyPassword plainBcrypt password
            (plainBcrypt.hashpw entry.1.password
              entry.2.salt) =
          true ∧
        (root.row.tenantId = entry.2.tenantId ∨
          (entry.2.userId, root.row.tenantId) ∈ w.moves) ∧
        ({ userId := Uuid.str 9
           tenantId := Uuid.str 7
           role := defaultRole } : Principal) =
          { userId := entry.2.userId.str
            tenantId := root.row.tenantId.str
            role := defaultRole } :=
  session_of_principal plainRules plainBcrypt plainJwt {}
    anaEvents (some anaCredentials) 500 anaEvents_unforged
    currentPrincipal_ana

section Gone

variable {Salt Token : Type}
variable {rules : TextRules}
variable {bcrypt : Bcrypt Salt}
variable {jwt : Jwt Token}

------------------------------------------------------------
-- Users Who Are Gone
------------------------------------------------------------

/- No row stands for this user in this tenant. -/
def Absent
    (userId tenantId : Uuid)
    (tables : Accounts) : Prop :=
  ∀ row ∈ tables.users,
    ¬ (row.id = userId ∧ row.tenantId = tenantId)

/- The operator takes a user out of a tenant. -/
inductive TakesAway
    (userId tenantId : Uuid)
    (tables : Accounts) : Event Salt Token → Prop
  | delete : TakesAway userId tenantId tables (.deleteUser userId)
  | move
      {other : TenantRow}
      (hExists : other ∈ tables.tenants)
      (hOther : other.id ≠ tenantId) :
      TakesAway userId tenantId tables
        (.moveUser userId other.id)

/- Nothing puts the user into the tenant again. -/
def KeepsAbsent
    (userId tenantId : Uuid) : Event Salt Token → Prop
  | .register _ drawn =>
      ¬ (drawn.userId = userId ∧ drawn.tenantId = tenantId)
  | .moveUser user tenant =>
      ¬ (user = userId ∧ tenant = tenantId)
  | .selectUser _ => True
  | .finishLogin _ _ => True
  | .refresh _ _ _ => True
  | .present _ _ => True
  | .deleteUser _ => True

/-
  All that the user gets from here on is for logins whose row
  has been read already.
-/
structure CutOff
    (userId tenantId : Uuid)
    (reads : List (LoginRequest × Option UserRow))
    (before : List Minted)
    (w : World Salt) : Prop where
  absent : Absent userId tenantId w.tables
  read :
    ∀ body row,
      (body, some row) ∈ w.inflight →
        row.id = userId ∧ row.tenantId = tenantId →
          (body, some row) ∈ reads
  issued :
    ∃ more, w.issued = before ++ more ∧
      ∀ m ∈ more,
        m.row.id = userId ∧ m.row.tenantId = tenantId →
          ∃ body : LoginRequest,
            (body, some m.row) ∈ reads ∧
              m.source = .login body.password m.row

theorem absent_of_takesAway
    {userId tenantId : Uuid}
    {w : World Salt}
    {e : Event Salt Token}
    (hAway : TakesAway userId tenantId w.tables e) :
    Absent userId tenantId
      (w.step rules bcrypt jwt e).tables := by
  cases hAway with
  | delete =>
      intro row hRow hSame
      exact
        of_decide_eq_true (List.mem_filter.mp hRow).2 hSame.1
  | @move other hExists hOther =>
      have hAny :
          w.tables.tenants.any
              (fun row => row.id = other.id) =
            true :=
        List.any_eq_true.mpr
          ⟨other, hExists, decide_eq_true rfl⟩
      dsimp only [World.step, Accounts.moveUser]
      rw [if_pos hAny]
      intro row hRow hSame
      rcases List.mem_map.mp hRow with ⟨old, _, rfl⟩
      split at hSame
      · exact hOther hSame.2
      · rename_i hNe
        exact hNe hSame.1

/- What is minted for them is for a login that had read. -/
theorem CutOff.mint
    {userId tenantId : Uuid}
    {reads : List (LoginRequest × Option UserRow)}
    {before : List Minted}
    {w : World Salt}
    (hCut : CutOff userId tenantId reads before w)
    {row : UserRow}
    {minting : Minting}
    {source : Source}
    (hSource :
      row.id = userId ∧ row.tenantId = tenantId →
        ∃ body : LoginRequest,
          (body, some row) ∈ reads ∧
            source = .login body.password row) :
    CutOff userId tenantId reads before
      (w.mint row minting source) := by
  rcases hCut.issued with ⟨more, hIssued, hMore⟩
  refine { hCut with issued := ?_ }
  refine
    ⟨more ++ [⟨.access, row, minting, source⟩,
      ⟨.refresh, row, minting, source⟩], ?_, ?_⟩
  · rw [← List.append_assoc, ← hIssued]
    rfl
  · intro m hMem hSame
    rcases List.mem_append.mp hMem with hOld | hNew
    · exact hMore m hOld hSame
    · simp only [List.mem_cons, List.not_mem_nil,
        or_false] at hNew
      rcases hNew with rfl | rfl
      · exact hSource hSame
      · exact hSource hSame

/- A step that does not bring the user back keeps them out. -/
theorem cutOff_step
    {userId tenantId : Uuid}
    {reads : List (LoginRequest × Option UserRow)}
    {before : List Minted}
    {w : World Salt}
    (hCut : CutOff userId tenantId reads before w)
    {e : Event Salt Token}
    (hKeeps : KeepsAbsent userId tenantId e) :
    CutOff userId tenantId reads before
      (w.step rules bcrypt jwt e) := by
  have hErased :
      ∀ call,
        CutOff userId tenantId reads before
          { w with
            inflight := w.inflight.eraseIdx call } :=
    fun call =>
      { hCut with
        read := fun body row hCall =>
          hCut.read body row (List.mem_of_mem_eraseIdx hCall) }
  have hTurn := step_turn rules bcrypt jwt w e
  revert hTurn
  generalize w.step rules bcrypt jwt e = w'
  intro hTurn
  cases hTurn with
  | idle => exact hCut
  | registered hFree =>
      refine { hCut with absent := ?_ }
      intro row hRow
      rw [Accounts.add, List.mem_append,
        List.mem_singleton] at hRow
      rcases hRow with hOld | rfl
      · exact hCut.absent row hOld
      · exact hKeeps
  | selected hRead =>
      refine { hCut with read := ?_ }
      intro body' row hCall hSame
      rw [List.mem_append, List.mem_singleton] at hCall
      rcases hCall with hOld | hNew
      · exact hCut.read body' row hOld hSame
      · cases hNew
        exact
          absurd hSame
            (hCut.absent _ (mem_of_selectUser rules hRead).1)
  | dismissed call minting => exact hErased call
  | @loggedIn call minting body row hCall hVerified =>
      apply (hErased call).mint
      intro hSame
      exact ⟨body, hCut.read body row hCall hSame, rfl⟩
  | refreshed hGrant =>
      apply hCut.mint
      intro hSame
      exact
        absurd hSame
          (hCut.absent _ (grantOfRefresh_eq_ok hGrant).2.1)
  | deleted userId =>
      exact
        { hCut with
          absent := fun row hRow =>
            hCut.absent row (List.filter_sublist.subset hRow) }
  | moved user tenant =>
      refine { hCut with absent := ?_ }
      intro row hRow
      rcases mem_moveUser hRow with
        hOld | ⟨old, hOld, rfl, rfl⟩
      · exact hCut.absent row hOld
      · exact hKeeps

theorem cutOff_run
    {userId tenantId : Uuid}
    {reads : List (LoginRequest × Option UserRow)}
    {before : List Minted}
    {events : List (Event Salt Token)}
    (hKeeps : ∀ e ∈ events, KeepsAbsent userId tenantId e)
    {w : World Salt}
    (hCut : CutOff userId tenantId reads before w) :
    CutOff userId tenantId reads before
      (w.run rules bcrypt jwt events) := by
  induction events generalizing w with
  | nil => exact hCut
  | cons e rest ih =>
      rw [List.forall_mem_cons] at hKeeps
      exact ih hKeeps.2 (cutOff_step hCut hKeeps.1)

/- A refresh token of a user who is not there is refused. -/
theorem refresh_of_absent
    (cfg : AuthConfig)
    {userId tenantId : Uuid}
    {tables : Accounts}
    (hAbsent : Absent userId tenantId tables)
    {token : Token}
    {now : ℚ}
    (minting : Minting)
    (hToken :
      ∀ claims,
        jwt.decode token ⌊now⌋ = some claims →
          claims.sub = some userId.str ∧
            claims.tenantId = some tenantId.str) :
    refresh jwt cfg tables token now minting =
      .error badCredentials := by
  unfold refresh
  cases hGrant : grantOfRefresh jwt tables token now with
  | ok grant =>
      rcases grant with ⟨claims, row⟩
      rcases grantOfRefresh_eq_ok hGrant with
        ⟨hDecoded, hRow, hUser, hTenant⟩
      rcases hToken claims (decodeToken_eq_ok hDecoded).1
        with ⟨hSub, hTid⟩
      rw [hSub, Option.getD_some, Uuid.ofText_str] at hUser
      rw [hTid, Option.getD_some, Uuid.ofText_str] at hTenant
      exact
        absurd
          ⟨(Option.some.inj hUser).symm,
            (Option.some.inj hTenant).symm⟩
          (hAbsent row hRow)
  | error refused =>
      rw [eq_badCredentials_of_grantOfRefresh hGrant]
      rfl

/-
  Once a user is deleted, or moved out of a tenant, and until
  someone puts them there again, no refresh and no login that
  starts later gets a token for that user in that tenant: the
  refresh tokens they hold are refused, their row is not
  found, and each token they still get is for a login whose
  row had been read before.
-/
theorem cut_off_of_takesAway
    (rules : TextRules)
    (bcrypt : Bcrypt Salt)
    (jwt : Jwt Token)
    (cfg : AuthConfig)
    (w : World Salt)
    (userId tenantId : Uuid)
    {e : Event Salt Token}
    (hAway : TakesAway userId tenantId w.tables e)
    {later : List (Event Salt Token)}
    (hKeeps : ∀ e ∈ later, KeepsAbsent userId tenantId e) :
    let w' := World.run rules bcrypt jwt w (e :: later)
    (∃ more, w'.issued = w.issued ++ more ∧
      ∀ m ∈ more,
        m.row.id = userId ∧ m.row.tenantId = tenantId →
          ∃ body : LoginRequest,
            (body, some m.row) ∈ w.inflight ∧
              m.source = .login body.password m.row) ∧
      (∀ email row,
        selectUser rules w'.tables email = .ok (some row) →
          ¬ (row.id = userId ∧ row.tenantId = tenantId)) ∧
      ∀ token now minting,
        (∀ claims,
          jwt.decode token ⌊now⌋ = some claims →
            claims.sub = some userId.str ∧
              claims.tenantId = some tenantId.str) →
          refresh jwt cfg w'.tables token now minting =
            .error badCredentials := by
  intro w'
  have hAbsent :
      Absent userId tenantId
        (w.step rules bcrypt jwt e).tables :=
    absent_of_takesAway hAway
  have hSame :
      (w.step rules bcrypt jwt e).inflight = w.inflight ∧
        (w.step rules bcrypt jwt e).issued = w.issued := by
    cases hAway with
    | delete => exact ⟨rfl, rfl⟩
    | move hExists hOther => exact ⟨rfl, rfl⟩
  have hStart :
      CutOff userId tenantId w.inflight w.issued
        (w.step rules bcrypt jwt e) :=
    { absent := hAbsent
      read := fun body row hCall _ => by
        rw [hSame.1] at hCall
        exact hCall
      issued :=
        ⟨[], by rw [hSame.2, List.append_nil],
          fun _ hMem => absurd hMem List.not_mem_nil⟩ }
  have hCut :
      CutOff userId tenantId w.inflight w.issued w' :=
    cutOff_run hKeeps hStart
  refine ⟨hCut.issued, ?_, ?_⟩
  · intro email row hRead
    exact
      hCut.absent row (mem_of_selectUser rules hRead).1
  · intro token now minting hToken
    exact refresh_of_absent cfg hCut.absent minting hToken

end Gone

/- She is deleted between the two halves of a login. -/
theorem cut_off_of_takesAway_ana :
    let w : World Unit :=
      { anaOnline with inflight := [(anaLogin, some anaRow)] }
    let w' :=
      World.run plainRules plainBcrypt plainJwt w
        [.deleteUser 9, .finishLogin 0 secondMinting]
    (∃ more, w'.issued = w.issued ++ more ∧
      ∀ m ∈ more,
        m.row.id = 9 ∧ m.row.tenantId = 7 →
          ∃ body : LoginRequest,
            (body, some m.row) ∈ w.inflight ∧
              m.source = .login body.password m.row) ∧
      (∀ email row,
        selectUser plainRules w'.tables email =
            .ok (some row) →
          ¬ (row.id = 9 ∧ row.tenantId = 7)) ∧
      ∀ token now minting,
        (∀ claims,
          plainJwt.decode token ⌊now⌋ = some claims →
            claims.sub = some (Uuid.str 9) ∧
              claims.tenantId = some (Uuid.str 7)) →
          refresh plainJwt {} w'.tables token now minting =
            .error badCredentials :=
  cut_off_of_takesAway plainRules plainBcrypt plainJwt {} _ 9 7
    TakesAway.delete (by simp [KeepsAbsent])

end Auth

end Api

end Nidra
