import Nidra.Api.Auth
import Nidra.Lib.Columns
import Nidra.Lib.Folds

/-
  This file runs the routes of the API that know its users,
  in any order, with what an operator may do to the tables in
  between, and proves that the accounts stay sound and that
  whoever registered can log in.

  Key definitions include:
    * `Source`, `Minted`
    * `World`, `Event`, `World.step`, `World.run`
    * `RegisterRequest.Storable`, `KeysFree`
    * `Accounts.Sound`, `Recorded`, `Consistent`

  Main declarations:
    * `register_of_free`, `register_of_not_free`
    * `consistent_step`
    * `accounts_consistent`
    * `login_of_registered`
-/

namespace Nidra

namespace Api

namespace Auth

------------------------------------------------------------
-- Runs
------------------------------------------------------------

/- What a token was made for. -/
inductive Source where
  | login (password : String) (row : UserRow)
  | refresh (parent : Claims) (now : ℚ)

/- A token that was handed out. -/
structure Minted where
  type : TokenType
  row : UserRow
  minting : Minting
  source : Source

def Minted.claims
    (cfg : AuthConfig)
    (m : Minted) : Claims :=
  claimsOf cfg m.type m.row.id m.row.tenantId m.row.roleText
    m.minting

/-
  The tables, the logins whose row has been read, and what has
  happened: the registrations that went through, the moves
  that were asked for, and all tokens that were handed out, in
  order.
-/
structure World (Salt : Type) where
  tables : Accounts := {}
  inflight : List (LoginRequest × Option UserRow) := []
  registered : List (RegisterRequest × Drawn Salt) := []
  moves : List (Uuid × Uuid) := []
  issued : List Minted := []

/-
  What can happen. A login reads a row and checks it later,
  other requests may come between; the last two are done to
  the tables by hand.
-/
inductive Event (Salt Token : Type) where
  | register (body : RegisterRequest) (drawn : Drawn Salt)
  | selectUser (body : LoginRequest)
  | finishLogin (call : ℕ) (minting : Minting)
  | refresh (token : Token) (now : ℚ) (minting : Minting)
  | present
      (credentials : Option (Credentials Token)) (now : ℚ)
  | deleteUser (userId : Uuid)
  | moveUser (userId tenantId : Uuid)

def Accounts.deleteUser
    (tables : Accounts)
    (userId : Uuid) : Accounts :=
  { tables with
    users := tables.users.filter (fun row => row.id ≠ userId) }

/- A user can only be moved to a tenant that exists. -/
def Accounts.moveUser
    (tables : Accounts)
    (userId tenantId : Uuid) : Accounts :=
  if tables.tenants.any (fun row => row.id = tenantId) then
    { tables with
      users :=
        tables.users.map (fun row =>
          if row.id = userId then
            { row with tenantId := tenantId }
          else row) }
  else tables

section Runs

variable {Salt Token : Type}
variable (rules : TextRules)
variable (bcrypt : Bcrypt Salt)
variable (jwt : Jwt Token)
variable (cfg : AuthConfig)

/- Hand out a pair of tokens. -/
def World.mint
    (w : World Salt)
    (row : UserRow)
    (minting : Minting)
    (source : Source) : World Salt :=
  { w with
    issued :=
      w.issued ++
        [⟨.access, row, minting, source⟩,
          ⟨.refresh, row, minting, source⟩] }

def World.step
    (w : World Salt) : Event Salt Token → World Salt
  | .register body drawn =>
      match register rules bcrypt w.tables body drawn with
      | (.error _, tables) => { w with tables := tables }
      | (.ok _, tables) =>
          { w with
            tables := tables
            registered := w.registered ++ [(body, drawn)] }
  | .selectUser body =>
      match selectUser rules w.tables body.email with
      | .error _ => w
      | .ok row =>
          { w with inflight := w.inflight ++ [(body, row)] }
  | .finishLogin call minting =>
      match w.inflight[call]? with
      | none => w
      | some (body, row) =>
          let w' :=
            { w with inflight := w.inflight.eraseIdx call }
          match grantOfLogin bcrypt body row with
          | .error _ => w'
          | .ok row =>
              w'.mint row minting (.login body.password row)
  | .refresh token now minting =>
      match grantOfRefresh jwt w.tables token now with
      | .error _ => w
      | .ok (claims, row) =>
          w.mint row minting (.refresh claims now)
  | .present _ _ => w
  | .deleteUser userId =>
      { w with tables := w.tables.deleteUser userId }
  | .moveUser userId tenantId =>
      { w with
        tables := w.tables.moveUser userId tenantId
        moves := w.moves ++ [(userId, tenantId)] }

def World.run
    (w : World Salt)
    (events : List (Event Salt Token)) : World Salt :=
  events.foldl (World.step rules bcrypt jwt) w

------------------------------------------------------------
-- What the routes do to the tables
------------------------------------------------------------

/- The database can hold what a registration stores. -/
def RegisterRequest.Storable (body : RegisterRequest) : Prop :=
  isStorable body.orgName = true ∧ isStorable body.email = true

/- Neither the ids nor the address of a registration is taken. -/
structure KeysFree
    (tables : Accounts)
    (body : RegisterRequest)
    (drawn : Drawn Salt) : Prop where
  tenantId : ∀ row ∈ tables.tenants, row.id ≠ drawn.tenantId
  userId : ∀ row ∈ tables.users, row.id ≠ drawn.userId
  address :
    ∀ row ∈ tables.users,
      rules.citext row.email ≠ rules.citext body.email

/- The tenant that a registration adds. -/
def tenantOf
    (entry : RegisterRequest × Drawn Salt) : TenantRow :=
  { id := entry.2.tenantId
    name := entry.1.orgName }

def Accounts.add
    (tables : Accounts)
    (body : RegisterRequest)
    (drawn : Drawn Salt) : Accounts :=
  { tenants := tables.tenants ++ [tenantOf (body, drawn)]
    users := tables.users ++ [userOf bcrypt body drawn] }

/- The keys are free where neither insert finds one taken. -/
theorem keysFree_iff
    {tables : Accounts}
    {body : RegisterRequest}
    {drawn : Drawn Salt} :
    KeysFree rules tables body drawn ↔
      ¬ tables.tenants.any
          (fun row => row.id = drawn.tenantId) = true ∧
        ¬ tables.users.any
            (fun row =>
              row.id = (userOf bcrypt body drawn).id ∨
                rules.citext row.email =
                  rules.citext
                    (userOf bcrypt body drawn).email) =
          true := by
  constructor
  · intro hFree
    constructor
    · intro hAny
      rcases List.any_eq_true.mp hAny with ⟨row, hRow, hSame⟩
      exact hFree.tenantId row hRow (of_decide_eq_true hSame)
    · intro hAny
      rcases List.any_eq_true.mp hAny with ⟨row, hRow, hSame⟩
      rcases of_decide_eq_true hSame with hId | hAddress
      · exact hFree.userId row hRow hId
      · exact hFree.address row hRow hAddress
  · rintro ⟨hTenant, hUser⟩
    refine ⟨?_, ?_, ?_⟩
    · intro row hRow hSame
      exact hTenant (List.any_eq_true.mpr
        ⟨row, hRow, decide_eq_true hSame⟩)
    · intro row hRow hSame
      exact hUser (List.any_eq_true.mpr
        ⟨row, hRow, decide_eq_true (Or.inl hSame)⟩)
    · intro row hRow hSame
      exact hUser (List.any_eq_true.mpr
        ⟨row, hRow, decide_eq_true (Or.inr hSame)⟩)

/- A registration that goes through is answered with its ids. -/
theorem register_of_free
    {tables : Accounts}
    {body : RegisterRequest}
    {drawn : Drawn Salt}
    (hStorable : body.Storable)
    (hFree : KeysFree rules tables body drawn) :
    register rules bcrypt tables body drawn =
      (.ok
        { tenantId := drawn.tenantId
          userId := drawn.userId
          email := body.email
          role := defaultRole },
        tables.add bcrypt body drawn) := by
  rcases (keysFree_iff rules bcrypt).mp hFree with
    ⟨hTenant, hUser⟩
  have hEmail :
      isStorable (userOf bcrypt body drawn).email = true :=
    hStorable.2
  unfold register Accounts.insert
  rw [if_neg (not_not_intro hStorable.1), if_neg hTenant,
    if_neg (not_not_intro hEmail), if_neg hUser]
  rfl

/-
  Of any other registration the tables show nothing: a key was
  taken, or a text cannot be held.
-/
theorem register_of_not_free
    {tables : Accounts}
    {body : RegisterRequest}
    {drawn : Drawn Salt}
    (hRefused :
      ¬ (body.Storable ∧ KeysFree rules tables body drawn)) :
    (register rules bcrypt tables body drawn =
          (.error emailTaken, tables) ∧
        ¬ KeysFree rules tables body drawn) ∨
      (register rules bcrypt tables body drawn =
          (.error serverError, tables) ∧
        ¬ body.Storable) := by
  rw [keysFree_iff rules bcrypt] at hRefused ⊢
  unfold register Accounts.insert
  -- The checks in the order of the inserts.
  by_cases hName : isStorable body.orgName = true
  case neg =>
    rw [if_pos hName]
    exact Or.inr ⟨rfl, fun hStorable => hName hStorable.1⟩
  rw [if_neg (not_not_intro hName)]
  by_cases hTenant :
      tables.tenants.any
        (fun row => row.id = drawn.tenantId) = true
  case pos =>
    rw [if_pos hTenant]
    exact Or.inl ⟨rfl, fun hFree => hFree.1 hTenant⟩
  rw [if_neg hTenant]
  by_cases hEmail :
      isStorable (userOf bcrypt body drawn).email = true
  case neg =>
    rw [if_pos hEmail]
    exact Or.inr ⟨rfl, fun hStorable => hEmail hStorable.2⟩
  rw [if_neg (not_not_intro hEmail)]
  by_cases hUser :
      tables.users.any
        (fun row =>
          row.id = (userOf bcrypt body drawn).id ∨
            rules.citext row.email =
              rules.citext (userOf bcrypt body drawn).email) =
        true
  case pos =>
    rw [if_pos hUser]
    exact Or.inl ⟨rfl, fun hFree => hFree.2 hUser⟩
  exact
    absurd ⟨⟨hName, hEmail⟩, hTenant, hUser⟩ hRefused

/- The row that is found for an address has that address. -/
theorem mem_of_selectUser
    {tables : Accounts}
    {email : String}
    {row : UserRow}
    (hRow : selectUser rules tables email = .ok (some row)) :
    row ∈ tables.users ∧
      rules.citext row.email = rules.citext email := by
  unfold selectUser at hRow
  split at hRow
  · cases hRow
  · have hFind := Except.ok.inj hRow
    have hFound := List.find?_some hFind
    exact
      ⟨List.mem_of_find?_eq_some hFind,
        of_decide_eq_true hFound⟩

/- A row that a login is granted is the one it has read. -/
theorem grantOfLogin_eq_ok_iff
    {body : LoginRequest}
    {read : Option UserRow}
    {row : UserRow} :
    grantOfLogin bcrypt body read = .ok row ↔
      read = some row ∧
        verifyPassword bcrypt body.password
            row.passwordHash =
          true := by
  cases read with
  | none => simp [grantOfLogin]
  | some found =>
      unfold grantOfLogin
      dsimp only
      split
      · rename_i hVerified
        constructor
        · intro hOk
          cases hOk
          exact ⟨rfl, hVerified⟩
        · rintro ⟨hRead, _⟩
          cases hRead
          rfl
      · rename_i hVerified
        constructor
        · intro hOk
          cases hOk
        · rintro ⟨hRead, hTrue⟩
          cases hRead
          exact absurd hTrue hVerified

/- What a step does, with what it was allowed by. -/
inductive Turn
    (w : World Salt) : Event Salt Token → World Salt → Prop
  | idle (e : Event Salt Token) : Turn w e w
  | registered
      {body : RegisterRequest}
      {drawn : Drawn Salt}
      (hFree : KeysFree rules w.tables body drawn) :
      Turn w (.register body drawn)
        { w with
          tables := w.tables.add bcrypt body drawn
          registered := w.registered ++ [(body, drawn)] }
  | selected
      {body : LoginRequest}
      {row : Option UserRow}
      (hRead :
        selectUser rules w.tables body.email = .ok row) :
      Turn w (.selectUser body)
        { w with inflight := w.inflight ++ [(body, row)] }
  | dismissed (call : ℕ) (minting : Minting) :
      Turn w (.finishLogin call minting)
        { w with inflight := w.inflight.eraseIdx call }
  | loggedIn
      {call : ℕ}
      {minting : Minting}
      {body : LoginRequest}
      {row : UserRow}
      (hCall : (body, some row) ∈ w.inflight)
      (hVerified :
        verifyPassword bcrypt body.password
            row.passwordHash =
          true) :
      Turn w (.finishLogin call minting)
        (World.mint
          { w with inflight := w.inflight.eraseIdx call }
          row minting (.login body.password row))
  | refreshed
      {token : Token}
      {now : ℚ}
      {minting : Minting}
      {claims : Claims}
      {row : UserRow}
      (hGrant :
        grantOfRefresh jwt w.tables token now =
          .ok (claims, row)) :
      Turn w (.refresh token now minting)
        (w.mint row minting (.refresh claims now))
  | deleted (userId : Uuid) :
      Turn w (.deleteUser userId)
        { w with tables := w.tables.deleteUser userId }
  | moved (userId tenantId : Uuid) :
      Turn w (.moveUser userId tenantId)
        { w with
          tables := w.tables.moveUser userId tenantId
          moves := w.moves ++ [(userId, tenantId)] }

theorem step_turn
    (w : World Salt)
    (e : Event Salt Token) :
    Turn rules bcrypt jwt w e (w.step rules bcrypt jwt e) := by
  cases e with
  | register body drawn =>
      dsimp only [World.step]
      by_cases hBoth :
          body.Storable ∧ KeysFree rules w.tables body drawn
      · rw [register_of_free rules bcrypt hBoth.1 hBoth.2]
        exact Turn.registered hBoth.2
      · rcases register_of_not_free rules bcrypt hBoth with
          ⟨hRefused, _⟩ | ⟨hRefused, _⟩
        · rw [hRefused]
          exact Turn.idle _
        · rw [hRefused]
          exact Turn.idle _
  | selectUser body =>
      dsimp only [World.step]
      cases hRead : selectUser rules w.tables body.email with
      | error refused => exact Turn.idle _
      | ok row => exact Turn.selected hRead
  | finishLogin call minting =>
      dsimp only [World.step]
      cases hCall : w.inflight[call]? with
      | none => exact Turn.idle _
      | some found =>
          rcases found with ⟨body, read⟩
          dsimp only
          cases hGrant : grantOfLogin bcrypt body read with
          | error refused => exact Turn.dismissed call minting
          | ok row =>
              rcases (grantOfLogin_eq_ok_iff bcrypt).mp hGrant
                with ⟨rfl, hVerified⟩
              exact
                Turn.loggedIn (List.mem_of_getElem? hCall)
                  hVerified
  | refresh token now minting =>
      dsimp only [World.step]
      cases hGrant : grantOfRefresh jwt w.tables token now with
      | error refused => exact Turn.idle _
      | ok grant =>
          rcases grant with ⟨claims, row⟩
          exact Turn.refreshed hGrant
  | present credentials now => exact Turn.idle _
  | deleteUser userId => exact Turn.deleted userId
  | moveUser userId tenantId =>
      exact Turn.moved userId tenantId

------------------------------------------------------------
-- Sound Accounts
------------------------------------------------------------

/- The tables keep their keys, and addresses are stored well. -/
structure Accounts.Sound (tables : Accounts) : Prop where
  tenants_nodup : (tables.tenants.map TenantRow.id).Nodup
  users_nodup : (tables.users.map UserRow.id).Nodup
  emails_nodup :
    (tables.users.map
      (fun row => rules.citext row.email)).Nodup
  tenant_exists :
    ∀ row ∈ tables.users,
      ∃ tenant ∈ tables.tenants, tenant.id = row.tenantId
  email_matches :
    ∀ row ∈ tables.users, matchesEmail row.email = true

/-
  A row is that of a registration, but for its tenant when the
  user was moved.
-/
def Recorded
    (registered : List (RegisterRequest × Drawn Salt))
    (moves : List (Uuid × Uuid))
    (row : UserRow) : Prop :=
  ∃ entry ∈ registered,
    row =
        { userOf bcrypt entry.1 entry.2 with
          tenantId := row.tenantId } ∧
      (row.tenantId = entry.2.tenantId ∨
        (row.id, row.tenantId) ∈ moves)

/- What holds of the tables and of the logins under way. -/
structure Consistent (w : World Salt) : Prop where
  sound : w.tables.Sound rules
  tenants : w.tables.tenants = w.registered.map tenantOf
  users :
    ∀ row ∈ w.tables.users,
      Recorded bcrypt w.registered w.moves row
  read :
    ∀ call ∈ w.inflight, ∀ row,
      call.2 = some row →
        Recorded bcrypt w.registered w.moves row ∧
          rules.citext row.email =
            rules.citext call.1.email

variable {rules bcrypt jwt}

theorem Recorded.mono
    {registered registered' :
      List (RegisterRequest × Drawn Salt)}
    {moves moves' : List (Uuid × Uuid)}
    {row : UserRow}
    (hRow : Recorded bcrypt registered moves row)
    (hRegistered : registered ⊆ registered')
    (hMoves : moves ⊆ moves') :
    Recorded bcrypt registered' moves' row := by
  rcases hRow with ⟨entry, hEntry, hSame, hTenant⟩
  exact
    ⟨entry, hRegistered hEntry, hSame,
      hTenant.imp_right (fun hMove => hMoves hMove)⟩

theorem Recorded.append
    {registered more : List (RegisterRequest × Drawn Salt)}
    {moves : List (Uuid × Uuid)}
    {row : UserRow}
    (hRow : Recorded bcrypt registered moves row) :
    Recorded bcrypt (registered ++ more) moves row :=
  hRow.mono (List.subset_append_left _ _) (List.Subset.refl _)

theorem Recorded.append_moves
    {registered : List (RegisterRequest × Drawn Salt)}
    {moves more : List (Uuid × Uuid)}
    {row : UserRow}
    (hRow : Recorded bcrypt registered moves row) :
    Recorded bcrypt registered (moves ++ more) row :=
  hRow.mono (List.Subset.refl _) (List.subset_append_left _ _)

theorem Accounts.Sound.add
    {tables : Accounts}
    {body : RegisterRequest}
    {drawn : Drawn Salt}
    (hSound : tables.Sound rules)
    (hFree : KeysFree rules tables body drawn) :
    (tables.add bcrypt body drawn).Sound rules := by
  exact
    { tenants_nodup :=
        List.nodup_map_concat hSound.tenants_nodup
          hFree.tenantId
      users_nodup :=
        List.nodup_map_concat hSound.users_nodup
          hFree.userId
      emails_nodup :=
        List.nodup_map_concat hSound.emails_nodup
          hFree.address
      tenant_exists := by
        intro row hRow
        rw [Accounts.add, List.mem_append,
          List.mem_singleton] at hRow
        rcases hRow with hOld | rfl
        · rcases hSound.tenant_exists row hOld with
            ⟨found, hFound, hSame⟩
          exact ⟨found, List.mem_append_left _ hFound, hSame⟩
        · exact
            ⟨tenantOf (body, drawn),
              List.mem_append_right _
                (List.mem_singleton_self _),
              rfl⟩
      email_matches := by
        intro row hRow
        rw [Accounts.add, List.mem_append,
          List.mem_singleton] at hRow
        rcases hRow with hOld | rfl
        · exact hSound.email_matches row hOld
        · exact body.email_matches }

theorem Accounts.Sound.deleteUser
    {tables : Accounts}
    (hSound : tables.Sound rules)
    (userId : Uuid) :
    (tables.deleteUser userId).Sound rules := by
  have hSublist :
      (tables.deleteUser userId).users.Sublist
        tables.users :=
    List.filter_sublist
  exact
    { tenants_nodup := hSound.tenants_nodup
      users_nodup :=
        hSound.users_nodup.sublist (hSublist.map _)
      emails_nodup :=
        hSound.emails_nodup.sublist (hSublist.map _)
      tenant_exists := fun row hRow =>
        hSound.tenant_exists row (hSublist.subset hRow)
      email_matches := fun row hRow =>
        hSound.email_matches row (hSublist.subset hRow) }

@[simp] theorem tenants_moveUser
    (tables : Accounts)
    (userId tenantId : Uuid) :
    (tables.moveUser userId tenantId).tenants =
      tables.tenants := by
  unfold Accounts.moveUser
  split
  · rfl
  · rfl

/- A row after a move was there before, or has been moved. -/
theorem mem_moveUser
    {tables : Accounts}
    {userId tenantId : Uuid}
    {row : UserRow}
    (hRow :
      row ∈ (tables.moveUser userId tenantId).users) :
    row ∈ tables.users ∨
      ∃ old ∈ tables.users,
        old.id = userId ∧
          row = { old with tenantId := tenantId } := by
  unfold Accounts.moveUser at hRow
  split at hRow
  · rcases List.mem_map.mp hRow with ⟨old, hOld, rfl⟩
    split
    · rename_i hSame
      exact Or.inr ⟨old, hOld, hSame, rfl⟩
    · exact Or.inl hOld
  · exact Or.inl hRow

theorem map_users_moveUser
    {α : Type}
    {f : UserRow → α}
    (hFrame :
      ∀ row tenantId,
        f { row with tenantId := tenantId } = f row)
    (tables : Accounts)
    (userId tenantId : Uuid) :
    (tables.moveUser userId tenantId).users.map f =
      tables.users.map f := by
  unfold Accounts.moveUser
  split
  · rw [List.map_map]
    apply List.map_congr_left
    intro row _
    dsimp only [Function.comp_apply]
    split
    · exact hFrame row tenantId
    · rfl
  · rfl

theorem Accounts.Sound.moveUser
    {tables : Accounts}
    (hSound : tables.Sound rules)
    (userId tenantId : Uuid) :
    (tables.moveUser userId tenantId).Sound rules := by
  refine
    { tenants_nodup := by
        rw [tenants_moveUser]
        exact hSound.tenants_nodup
      users_nodup := by
        rw [map_users_moveUser (fun _ _ => rfl)]
        exact hSound.users_nodup
      emails_nodup := by
        rw [map_users_moveUser (fun _ _ => rfl)]
        exact hSound.emails_nodup
      tenant_exists := ?_
      email_matches := ?_ }
  · intro row hRow
    rw [tenants_moveUser]
    unfold Accounts.moveUser at hRow
    split at hRow
    · rename_i hExists
      rcases List.mem_map.mp hRow with ⟨old, hOld, rfl⟩
      split
      · -- A move is only made to a tenant that is there.
        rcases List.any_eq_true.mp hExists with
          ⟨tenant, hTenant, hSame⟩
        exact ⟨tenant, hTenant, of_decide_eq_true hSame⟩
      · exact hSound.tenant_exists old hOld
    · exact hSound.tenant_exists row hRow
  · intro row hRow
    rcases mem_moveUser hRow with
      hOld | ⟨old, hOld, _, rfl⟩
    · exact hSound.email_matches row hOld
    · exact hSound.email_matches old hOld

/- A step keeps the accounts consistent. -/
theorem consistent_step
    {w : World Salt}
    (hConsistent : Consistent rules bcrypt w)
    (e : Event Salt Token) :
    Consistent rules bcrypt (w.step rules bcrypt jwt e) := by
  have hErased :
      ∀ call,
        Consistent rules bcrypt
          { w with
            inflight := w.inflight.eraseIdx call } :=
    fun call =>
      { hConsistent with
        read := fun call' hCall =>
          hConsistent.read call'
            (List.mem_of_mem_eraseIdx hCall) }
  have hTurn := step_turn rules bcrypt jwt w e
  revert hTurn
  generalize w.step rules bcrypt jwt e = w'
  intro hTurn
  cases hTurn with
  | idle => exact hConsistent
  | @registered body drawn hFree =>
      exact
        { sound := hConsistent.sound.add hFree
          tenants := by
            rw [Accounts.add, hConsistent.tenants,
              List.map_append]
            rfl
          users := by
            intro row hRow
            rw [Accounts.add, List.mem_append,
              List.mem_singleton] at hRow
            rcases hRow with hOld | rfl
            · exact (hConsistent.users row hOld).append
            · exact
                ⟨(body, drawn), by simp, rfl, Or.inl rfl⟩
          read := fun call hCall row hRow =>
            ⟨(hConsistent.read call hCall row hRow).1.append,
              (hConsistent.read call hCall row hRow).2⟩ }
  | selected hRead =>
      refine { hConsistent with read := ?_ }
      intro call hCall row hRow
      rw [List.mem_append, List.mem_singleton] at hCall
      rcases hCall with hOld | rfl
      · exact hConsistent.read call hOld row hRow
      · dsimp only at hRow
        rw [hRow] at hRead
        rcases mem_of_selectUser rules hRead with
          ⟨hUser, hAddress⟩
        exact ⟨hConsistent.users row hUser, hAddress⟩
  | dismissed call minting => exact hErased call
  | @loggedIn call minting body row hCall hVerified =>
      exact { hErased call with }
  | refreshed hGrant => exact { hConsistent with }
  | deleted userId =>
      exact
        { hConsistent with
          sound := hConsistent.sound.deleteUser userId
          users := fun row hRow =>
            hConsistent.users row
              (List.filter_sublist.subset hRow) }
  | moved userId tenantId =>
      refine
        { sound := hConsistent.sound.moveUser userId tenantId
          tenants := ?_
          users := ?_
          read := fun call hCall row hRow =>
            ⟨(hConsistent.read call hCall row
                hRow).1.append_moves,
              (hConsistent.read call hCall row hRow).2⟩ }
      · rw [tenants_moveUser]
        exact hConsistent.tenants
      · intro row hRow
        rcases mem_moveUser hRow with
          hOld | ⟨old, hOld, rfl, rfl⟩
        · exact (hConsistent.users row hOld).append_moves
        · rcases hConsistent.users old hOld with
            ⟨entry, hEntry, hRecorded, _⟩
          refine ⟨entry, hEntry, ?_, Or.inr (by simp)⟩
          rw [hRecorded]

theorem consistent_start :
    Consistent rules bcrypt ({} : World Salt) where
  sound :=
    { tenants_nodup := List.nodup_nil
      users_nodup := List.nodup_nil
      emails_nodup := List.nodup_nil
      tenant_exists := fun _ hRow => absurd hRow List.not_mem_nil
      email_matches := fun _ hRow =>
        absurd hRow List.not_mem_nil }
  tenants := rfl
  users := fun _ hRow => absurd hRow List.not_mem_nil
  read := fun _ hCall => absurd hCall List.not_mem_nil

theorem consistent_run
    {w : World Salt}
    (hConsistent : Consistent rules bcrypt w)
    (events : List (Event Salt Token)) :
    Consistent rules bcrypt (w.run rules bcrypt jwt events) := by
  induction events generalizing w with
  | nil => exact hConsistent
  | cons e rest ih => exact ih (consistent_step hConsistent e)

/- No request takes a tenant away. -/
theorem tenants_subset_step
    (w : World Salt)
    (e : Event Salt Token) :
    w.tables.tenants ⊆
      (w.step rules bcrypt jwt e).tables.tenants := by
  have hTurn := step_turn rules bcrypt jwt w e
  revert hTurn
  generalize w.step rules bcrypt jwt e = w'
  intro hTurn
  cases hTurn with
  | idle => exact List.Subset.refl _
  | registered hFree => exact List.subset_append_left _ _
  | selected hRead => exact List.Subset.refl _
  | dismissed call minting => exact List.Subset.refl _
  | loggedIn hCall hVerified => exact List.Subset.refl _
  | refreshed hGrant => exact List.Subset.refl _
  | deleted userId => exact List.Subset.refl _
  | moved userId tenantId =>
      dsimp only
      rw [tenants_moveUser]
      exact List.Subset.refl _

theorem tenants_subset_run
    (w : World Salt)
    (events : List (Event Salt Token)) :
    w.tables.tenants ⊆
      (w.run rules bcrypt jwt events).tables.tenants := by
  induction events generalizing w with
  | nil => exact List.Subset.refl _
  | cons e rest ih =>
      exact
        List.Subset.trans (tenants_subset_step w e) (ih _)

/-
  In every run the keys of the tables are kept, each tenant
  is that of one registration, and each user row is that of a
  registration but for a tenant it was moved to. A
  registration adds its tenant, which then stays, and its
  user; or a key is taken, or a text cannot be held, and
  whatever follows goes as if it had not been there.
-/
theorem accounts_consistent
    (rules : TextRules)
    (bcrypt : Bcrypt Salt)
    (jwt : Jwt Token)
    (events : List (Event Salt Token)) :
    let w := World.run rules bcrypt jwt {} events
    Consistent rules bcrypt w ∧
      ∀ (body : RegisterRequest) (drawn : Drawn Salt),
        let e : Event Salt Token := .register body drawn
        (body.Storable → KeysFree rules w.tables body drawn →
          (w.step rules bcrypt jwt e).tables =
              w.tables.add bcrypt body drawn ∧
            ∀ later,
              tenantOf (body, drawn) ∈
                (w.run rules bcrypt jwt
                  (e :: later)).tables.tenants) ∧
        (¬ (body.Storable ∧
              KeysFree rules w.tables body drawn) →
          ((register rules bcrypt w.tables body drawn).1 =
                .error emailTaken ∧
              ¬ KeysFree rules w.tables body drawn ∨
            (register rules bcrypt w.tables body drawn).1 =
                .error serverError ∧
              ¬ body.Storable) ∧
            ∀ later,
              w.run rules bcrypt jwt (e :: later) =
                w.run rules bcrypt jwt later) := by
  intro w
  refine ⟨consistent_run consistent_start events, ?_⟩
  intro body drawn e
  constructor
  · intro hStorable hFree
    have hStep :
        (w.step rules bcrypt jwt e).tables =
          w.tables.add bcrypt body drawn := by
      dsimp only [World.step, e]
      rw [register_of_free rules bcrypt hStorable hFree]
    refine ⟨hStep, ?_⟩
    intro later
    apply tenants_subset_run (w.step rules bcrypt jwt e) later
    rw [hStep]
    exact
      List.mem_append_right _ (List.mem_singleton_self _)
  · intro hRefused
    have hCases := register_of_not_free rules bcrypt hRefused
    have hStep : w.step rules bcrypt jwt e = w := by
      dsimp only [World.step, e]
      rcases hCases with ⟨hSame, _⟩ | ⟨hSame, _⟩
      · rw [hSame]
      · rw [hSame]
    constructor
    · rcases hCases with ⟨hSame, hTaken⟩ | ⟨hSame, hTexts⟩
      · exact Or.inl ⟨congrArg Prod.fst hSame, hTaken⟩
      · exact Or.inr ⟨congrArg Prod.fst hSame, hTexts⟩
    · intro later
      unfold World.run
      rw [List.foldl_cons, hStep]

------------------------------------------------------------
-- Logging In
------------------------------------------------------------

/- The operator leaves a user alone. -/
def LeavesUser
    (userId : Uuid) : Event Salt Token → Prop
  | .deleteUser other => other ≠ userId
  | .moveUser other _ => other ≠ userId
  | .register _ _ => True
  | .selectUser _ => True
  | .finishLogin _ _ => True
  | .refresh _ _ _ => True
  | .present _ _ => True

/- A row stays while its user is left alone. -/
theorem mem_users_step
    {w : World Salt}
    {row : UserRow}
    (hRow : row ∈ w.tables.users)
    {e : Event Salt Token}
    (hLeaves : LeavesUser row.id e) :
    row ∈ (w.step rules bcrypt jwt e).tables.users := by
  have hTurn := step_turn rules bcrypt jwt w e
  revert hTurn
  generalize w.step rules bcrypt jwt e = w'
  intro hTurn
  cases hTurn with
  | idle => exact hRow
  | registered hFree => exact List.mem_append_left _ hRow
  | selected hRead => exact hRow
  | dismissed call minting => exact hRow
  | loggedIn hCall hVerified => exact hRow
  | refreshed hGrant => exact hRow
  | deleted userId =>
      exact List.mem_filter.mpr
        ⟨hRow, decide_eq_true (Ne.symm hLeaves)⟩
  | moved userId tenantId =>
      dsimp only [Accounts.moveUser]
      split
      · exact List.mem_map.mpr
          ⟨row, hRow, if_neg (Ne.symm hLeaves)⟩
      · exact hRow

theorem mem_users_run
    {row : UserRow}
    {events : List (Event Salt Token)}
    (hLeaves : ∀ e ∈ events, LeavesUser row.id e)
    {w : World Salt}
    (hRow : row ∈ w.tables.users) :
    row ∈ (w.run rules bcrypt jwt events).tables.users := by
  induction events generalizing w with
  | nil => exact hRow
  | cons e rest ih =>
      rw [List.forall_mem_cons] at hLeaves
      exact ih hLeaves.2 (mem_users_step hRow hLeaves.1)

/- A sign-up that is accepted keeps what it was given. -/
theorem parse_eq_ok
    {email password orgName : String}
    {body : RegisterRequest}
    (hBody :
      RegisterRequest.parse rules email password orgName =
        .ok body) :
    body.email = normaliseEmail rules email ∧
      body.password = password := by
  unfold RegisterRequest.parse at hBody
  split at hBody
  · rename_i hEmail hPassword hOrgName
    cases hBody
    exact
      ⟨(matches_of_parseEmail hEmail).1,
        (bounds_of_parsePassword hPassword).1⟩
  · cases hBody

theorem str_ne_empty (n : Uuid) : n.str ≠ "" := by
  intro hEmpty
  have hRead := Uuid.ofText_str n
  rw [hEmpty] at hRead
  have hNone : Uuid.ofText "" = none := by decide
  rw [hNone] at hRead
  cases hRead

theorem isSaid_str (n : Uuid) :
    isSaid (some n.str) = true := by
  simp [isSaid, str_ne_empty]

theorem expiredAt_claimsOf
    (cfg : AuthConfig)
    (type : TokenType)
    (userId tenantId : Uuid)
    (role : String)
    (minting : Minting)
    (now : ℤ) :
    (claimsOf cfg type userId tenantId role
        minting).expiredAt now =
      decide (truncate (minting.at_ type + cfg.ttl type) <
        now) := rfl

/- A token is decoded until it expires. -/
theorem decodeToken_encode
    (jwt : Jwt Token)
    (cfg : AuthConfig)
    (type : TokenType)
    (userId tenantId : Uuid)
    (role : String)
    (minting : Minting)
    {now : ℚ}
    (hFresh :
      ⌊now⌋ ≤ truncate (minting.at_ type + cfg.ttl type)) :
    decodeToken jwt
        (jwt.encode
          (claimsOf cfg type userId tenantId role minting))
        now type =
      .ok (claimsOf cfg type userId tenantId role minting) := by
  unfold decodeToken
  rw [jwt.decode_encode, expiredAt_claimsOf,
    decide_eq_false (Int.not_lt.mpr hFresh)]
  rw [if_neg Bool.false_ne_true]
  have hType :
      (claimsOf cfg type userId tenantId role minting).type =
        some type.text := rfl
  have hSaid :
      isSaid (some userId.str) ∧ isSaid (some tenantId.str) :=
    ⟨isSaid_str userId, isSaid_str tenantId⟩
  dsimp only
  rw [if_neg (not_not_intro hType)]
  exact if_neg (not_not_intro hSaid)

theorem rowOfClaims_claimsOf
    {tables : Accounts}
    (hUsers : (tables.users.map UserRow.id).Nodup)
    {row : UserRow}
    (hRow : row ∈ tables.users)
    (cfg : AuthConfig)
    (type : TokenType)
    (role : String)
    (minting : Minting) :
    rowOfClaims tables
        (claimsOf cfg type row.id row.tenantId role minting) =
      some row := by
  unfold rowOfClaims
  simp only [claimsOf, Option.getD_some, Uuid.ofText_str,
    Option.bind_eq_bind, Option.bind_some]
  have hFind := List.find?_of_nodup_map hUsers hRow
  rw [List.find?_eq_some_iff_append] at hFind ⊢
  rcases hFind with ⟨_, before, after, hSplit, hBefore⟩
  refine ⟨by simp, before, after, hSplit, ?_⟩
  intro other hOther
  have hNe := hBefore other hOther
  simp only [Bool.not_eq_true', decide_eq_false_iff_not]
    at hNe ⊢
  exact fun hBoth => hNe hBoth.1

theorem storable_of_registered
    {tables : Accounts}
    {body : RegisterRequest}
    {drawn : Drawn Salt}
    {response : AccountResponse}
    (hRegistered :
      (register rules bcrypt tables body drawn).1 =
        .ok response) :
    body.Storable ∧ KeysFree rules tables body drawn := by
  by_contra hNot
  rcases register_of_not_free rules bcrypt hNot with
    ⟨hRefused, _⟩ | ⟨hRefused, _⟩
  · rw [hRefused] at hRegistered
    cases hRegistered
  · rw [hRefused] at hRegistered
    cases hRegistered

/- The row of a registration is there while it is left alone. -/
theorem mem_users_of_registered
    {events later : List (Event Salt Token)}
    {body : RegisterRequest}
    {drawn : Drawn Salt}
    {response : AccountResponse}
    (hRegistered :
      (register rules bcrypt
          (World.run rules bcrypt jwt {} events).tables body
          drawn).1 =
        .ok response)
    (hLater : ∀ e ∈ later, LeavesUser drawn.userId e) :
    userOf bcrypt body drawn ∈
      (World.run rules bcrypt jwt {}
        (events ++ .register body drawn :: later)).tables.users
      := by
  rcases storable_of_registered hRegistered with
    ⟨hStorable, hFree⟩
  have hStep :
      userOf bcrypt body drawn ∈
        ((World.run rules bcrypt jwt {} events).step rules
          bcrypt jwt (.register body drawn)).tables.users := by
    dsimp only [World.step]
    rw [register_of_free rules bcrypt hStorable hFree]
    exact List.mem_append_right _ (List.mem_singleton_self _)
  have hRun :
      userOf bcrypt body drawn ∈
        (World.run rules bcrypt jwt
          ((World.run rules bcrypt jwt {} events).step rules
            bcrypt jwt (.register body drawn))
          later).tables.users :=
    mem_users_run hLater hStep
  unfold World.run at hRun
  rw [← List.foldl_cons, ← List.foldl_append] at hRun
  exact hRun

/- A row is the one that is found for its address. -/
theorem selectUser_of_mem
    {tables : Accounts}
    (hEmails :
      (tables.users.map
        (fun row => rules.citext row.email)).Nodup)
    {row : UserRow}
    (hRow : row ∈ tables.users)
    (hStorable : isStorable row.email = true)
    {email : String}
    (hSame : rules.citext email = rules.citext row.email) :
    selectUser rules tables email = .ok (some row) := by
  have hSent : isStorable email = true := by
    rw [rules.isStorable_of_citext _ _ hSame]
    exact hStorable
  unfold selectUser
  rw [if_neg (not_not_intro hSent), hSame]
  exact
    congrArg Except.ok (List.find?_of_nodup_map hEmails hRow)

/- An access token stands for its tenant until it expires. -/
theorem currentTenantUuid_tokensFor
    (jwt : Jwt Token)
    (cfg : AuthConfig)
    (row : UserRow)
    (minting : Minting)
    {scheme : String}
    (hScheme : PyText.lower scheme = "bearer")
    {now : ℚ}
    (hFresh :
      ⌊now⌋ ≤
        truncate (minting.at_ .access + cfg.ttl .access)) :
    currentTenantUuid jwt
        (some ⟨scheme,
          (tokensFor jwt cfg row minting).accessToken⟩)
        now =
      .ok row.tenantId := by
  have hDecoded :=
    decodeToken_encode jwt cfg .access row.id row.tenantId
      row.roleText minting hFresh
  unfold currentTenantUuid currentPrincipal
  dsimp only
  rw [if_neg (not_not_intro hScheme)]
  unfold verifyWsToken tokensFor issueTokens
  dsimp only
  rw [hDecoded]
  dsimp only [bind, Except.bind, pure, Except.pure,
    principalOf, claimsOf, Option.getD_some]
  rw [Uuid.ofText_str]

/- A refresh token is traded in until it expires. -/
theorem refresh_tokensFor
    (jwt : Jwt Token)
    (cfg : AuthConfig)
    {tables : Accounts}
    (hUsers : (tables.users.map UserRow.id).Nodup)
    {row : UserRow}
    (hRow : row ∈ tables.users)
    (minting minting' : Minting)
    {now : ℚ}
    (hFresh :
      ⌊now⌋ ≤
        truncate (minting.at_ .refresh + cfg.ttl .refresh)) :
    refresh jwt cfg tables
        (tokensFor jwt cfg row minting).refreshToken now
        minting' =
      .ok (tokensFor jwt cfg row minting') := by
  have hDecoded :=
    decodeToken_encode jwt cfg .refresh row.id row.tenantId
      row.roleText minting hFresh
  have hFound :=
    rowOfClaims_claimsOf hUsers hRow cfg .refresh row.roleText
      minting
  unfold refresh grantOfRefresh tokensFor issueTokens
  dsimp only
  rw [hDecoded]
  dsimp only [bind, Except.bind]
  rw [hFound]
  rfl

/-
  Whoever registered can log in with the same password and
  any spelling of the address that is stored alike, after any
  other requests, unless the operator has touched the user;
  the access token then stands for the registered tenant, and
  the refresh token can be traded for another pair, at once
  or after more requests that leave the user alone, each
  token until it expires.
-/
theorem login_of_registered
    (rules : TextRules)
    (bcrypt : Bcrypt Salt)
    (jwt : Jwt Token)
    (cfg : AuthConfig)
    (events later : List (Event Salt Token))
    {email email' password orgName : String}
    {body : RegisterRequest}
    (hBody :
      RegisterRequest.parse rules email password orgName =
        .ok body)
    {drawn : Drawn Salt}
    {response : AccountResponse}
    (hRegistered :
      (register rules bcrypt
          (World.run rules bcrypt jwt {} events).tables body
          drawn).1 =
        .ok response)
    (hLater : ∀ e ∈ later, LeavesUser drawn.userId e)
    (hEmail :
      rules.citext (normaliseEmail rules email') =
        rules.citext (normaliseEmail rules email))
    (minting : Minting) :
    let w :=
      World.run rules bcrypt jwt {}
        (events ++ .register body drawn :: later)
    let login := LoginRequest.parse rules email' password
    ∃ row pair,
      selectUser rules w.tables login.email = .ok row ∧
      finishLogin bcrypt jwt cfg login row minting =
        .ok pair ∧
      (∀ scheme now,
        PyText.lower scheme = "bearer" →
        ⌊now⌋ ≤
            truncate (minting.at_ .access + cfg.ttl .access) →
          currentTenantUuid jwt
              (some ⟨scheme, pair.accessToken⟩) now =
            .ok drawn.tenantId) ∧
      ∀ more,
        (∀ e ∈ more, LeavesUser drawn.userId e) →
        ∀ now minting',
          ⌊now⌋ ≤
              truncate
                (minting.at_ .refresh + cfg.ttl .refresh) →
            refresh jwt cfg (w.run rules bcrypt jwt more).tables
                pair.refreshToken now minting' =
              .ok
                (issueTokens jwt cfg drawn.userId
                  drawn.tenantId defaultRole minting') := by
  intro w login
  -- The row is inserted, stays, and is the one for its address.
  let row := userOf bcrypt body drawn
  have hRow : row ∈ w.tables.users :=
    mem_users_of_registered hRegistered hLater
  have hConsistent : Consistent rules bcrypt w :=
    consistent_run consistent_start _
  rcases parse_eq_ok hBody with ⟨hAddress, hPassword⟩
  have hSame :
      rules.citext login.email = rules.citext row.email := by
    dsimp only [row, userOf, login, LoginRequest.parse]
    rw [hEmail, hAddress]
  have hSelect :
      selectUser rules w.tables login.email =
        .ok (some row) :=
    selectUser_of_mem hConsistent.sound.emails_nodup hRow
      (storable_of_registered hRegistered).1.2 hSame
  have hGrant :
      grantOfLogin bcrypt login (some row) = .ok row := by
    apply (grantOfLogin_eq_ok_iff bcrypt).mpr
    refine ⟨rfl, ?_⟩
    have hVerified :=
      verifyPassword_hashpw bcrypt body.password_short
        drawn.salt
    rw [hPassword] at hVerified
    dsimp only [row, userOf, login, LoginRequest.parse]
    rw [hPassword]
    exact hVerified
  refine
    ⟨some row, tokensFor jwt cfg row minting, hSelect, ?_, ?_,
      ?_⟩
  · unfold finishLogin
    rw [hGrant]
    rfl
  · intro scheme now hScheme hFresh
    exact
      currentTenantUuid_tokensFor jwt cfg row minting hScheme
        hFresh
  · intro more hMore now minting' hFresh
    have hStays :
        row ∈ (w.run rules bcrypt jwt more).tables.users :=
      mem_users_run hMore hRow
    have hAfter :
        Consistent rules bcrypt (w.run rules bcrypt jwt more) :=
      consistent_run hConsistent more
    exact
      refresh_tokensFor jwt cfg hAfter.sound.users_nodup hStays
        minting minting' hFresh

end Runs

/- A character is NUL in lower case only when it is NUL. -/
theorem lowerChar_eq_nul_iff (c : Char) :
    PyText.lowerChar c = Char.ofNat 0 ↔ c = Char.ofNat 0 := by
  unfold PyText.lowerChar Char.toLower
  constructor
  · intro hNul
    split at hNul
    · exact absurd hNul (by decide)
    · split at hNul
      · rename_i hUpper
        have hVal := congrArg (fun d => d.val.toNat) hNul
        have hLow := UInt32.le_iff_toNat_le.mp hUpper.1
        have hHigh := UInt32.le_iff_toNat_le.mp hUpper.2
        simp [UInt32.toNat_add] at hVal hLow hHigh
        omega
      · exact hNul
  · rintro rfl
    decide

/- Lower case keeps every NUL. -/
theorem isStorable_lower (text : String) :
    isStorable (PyText.lower text) = isStorable text := by
  have hSame :
      Char.ofNat 0 ∈ text.toList.map PyText.lowerChar ↔
        Char.ofNat 0 ∈ text.toList := by
    rw [List.mem_map]
    constructor
    · rintro ⟨c, hMem, hNul⟩
      rw [← (lowerChar_eq_nul_iff c).mp hNul]
      exact hMem
    · intro hMem
      exact ⟨_, hMem, (lowerChar_eq_nul_iff _).mpr rfl⟩
  unfold isStorable PyText.lower
  rw [String.toList_ofList]
  apply congrArg not
  rw [Bool.eq_iff_iff, List.contains_iff_mem,
    List.contains_iff_mem]
  exact hSame

def plainRules : TextRules where
  lower := PyText.lower
  citext := PyText.lower
  isStorable_of_citext := by
    intro text text' hSame
    rw [← isStorable_lower text, hSame, isStorable_lower]

def plainBcrypt : Bcrypt Unit where
  hashpw := fun password _ => "$2b$" ++ password
  checkpw := fun password passwordHash =>
    some (decide (passwordHash = "$2b$" ++ password))
  checkpw_hashpw := by
    intro password salt hShort
    simp

def plainJwt : Jwt Claims where
  encode := id
  decode := fun claims now =>
    if claims.expiredAt now then none else some claims
  decode_encode := fun _ _ => rfl
  expiredAt_of_decode := by
    intro token claims now hDecoded
    split at hDecoded
    · cases hDecoded
    · rename_i hFresh
      cases hDecoded
      exact Bool.eq_false_iff.mpr hFresh

def anaRequest : RegisterRequest :=
  { email := "ana@example.org"
    password := "kingfisher"
    orgName := "Example"
    email_matches := by decide
    password_long := by decide
    password_short := by decide
    orgName_ne := by decide }

def firstMinting : Minting :=
  { at_ := fun _ => 100
    jti := fun type => type.text }

theorem parse_anaRequest :
    RegisterRequest.parse plainRules " Ana@Example.org"
        "kingfisher" "Example " =
      .ok anaRequest := rfl

theorem register_anaRequest :
    (register plainRules plainBcrypt {} anaRequest
        ⟨7, 9, ()⟩).1 =
      .ok ⟨7, 9, "ana@example.org", defaultRole⟩ := rfl

theorem citext_anaEmail :
    plainRules.citext
        (normaliseEmail plainRules "ANA@example.org") =
      plainRules.citext
        (normaliseEmail plainRules " Ana@Example.org") := by
  have hUpper :
      normaliseEmail plainRules "ANA@example.org" =
        "ana@example.org" := rfl
  have hMixed :
      normaliseEmail plainRules " Ana@Example.org" =
        "ana@example.org" := rfl
  rw [hUpper, hMixed]

/- A registered user logs in with another spelling. -/
theorem login_of_registered_ana :
    let w :=
      World.run plainRules plainBcrypt plainJwt {}
        [.register anaRequest ⟨7, 9, ()⟩,
          .refresh
            (claimsOf {} .access 9 7 defaultRole firstMinting)
            100 firstMinting]
    let login :=
      LoginRequest.parse plainRules "ANA@example.org"
        "kingfisher"
    ∃ row pair,
      selectUser plainRules w.tables login.email = .ok row ∧
      finishLogin plainBcrypt plainJwt {} login row
          firstMinting =
        .ok pair ∧
      (∀ scheme now,
        PyText.lower scheme = "bearer" →
        ⌊now⌋ ≤
            truncate
              (firstMinting.at_ .access +
                AuthConfig.ttl {} .access) →
          currentTenantUuid plainJwt
              (some ⟨scheme, pair.accessToken⟩) now =
            .ok 7) ∧
      ∀ more,
        (∀ e ∈ more, LeavesUser 9 e) →
        ∀ now minting',
          ⌊now⌋ ≤
              truncate
                (firstMinting.at_ .refresh +
                  AuthConfig.ttl {} .refresh) →
            refresh plainJwt {}
                (w.run plainRules plainBcrypt plainJwt
                  more).tables
                pair.refreshToken now minting' =
              .ok
                (issueTokens plainJwt {} 9 7 defaultRole
                  minting') :=
  @login_of_registered Unit Claims plainRules plainBcrypt
    plainJwt {} []
    [.refresh
      (claimsOf {} .access 9 7 defaultRole firstMinting)
      100 firstMinting]
    " Ana@Example.org" "ANA@example.org" "kingfisher"
    "Example " anaRequest parse_anaRequest ⟨7, 9, ()⟩
    ⟨7, 9, "ana@example.org", defaultRole⟩
    register_anaRequest (by simp [LeavesUser])
    citext_anaEmail firstMinting

end Auth

end Api

end Nidra
