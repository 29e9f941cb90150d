import SmolNas.App.Login

/-! The requests of one browser. Each is sent with the cookie of the jar, served, and its
response delivered, in steps of their own; rendering a page makes a CSRF token when the
session that came with the request has none. -/

namespace SmolNas.App

open Py Lib

/-- `secrets.token_hex(16)` -/
structure HexToken where
  text : Str
  length : text.length = 32
  digits : text.all (fun c => c.isDigit || 'a' ≤ c && c ≤ 'f') = true

/-- Whether the response is a page: a redirect and the answers of the API are none. -/
def rendersPage (s : Session) (r : Request) (c : Circumstances) (served : Served) : Bool :=
  served.ran &&
    match r.endpoint with
    | .login => !s.isAuthenticated && served.succeeded.isNone
    | .logout => false
    | _ => c.renders

def flashesOnPage (r : Request) (c : Circumstances) : Bool :=
  match r.endpoint with
  | .login => r.method == .post
  | _ => !c.messages.isEmpty

/-- What comes back: the session, whether it is sent as a cookie, and the CSRF token in
the page. -/
structure Response where
  session : Session
  setsCookie : Bool
  page : Option Str

/-- A cookie is sent when the session was touched, if only by a message that is shown at
once. -/
def respond (db : CharData) (env : Env) (attempts : Attempts) (s : Session) (r : Request)
    (c : Circumstances) : Attempts × Response :=
  let result := serve db env attempts s (r, c)
  let renders := rendersPage s r c result.2.2
  (result.1,
    ⟨result.2.1, decide (result.2.1 ≠ s) || renders && flashesOnPage r c,
      if renders then some (result.2.1.csrfToken.getD []) else none⟩)

inductive Exchange where
  | sent (r : Request) (s : Session)
  | served (s : Session) (response : Response)
  | delivered

/-- The session that a request not yet answered in full was sent with. -/
def Exchange.carried : Exchange → Option Session
  | sent _ s => some s
  | served s _ => some s
  | delivered => none

inductive BrowserEvent where
  | send (r : Request)
  | serve (i : Nat) (c : Circumstances) (fresh : HexToken)
  | deliver (i : Nat)

structure Browser where
  jar : Session
  attempts : Attempts
  exchanges : List Exchange
  /-- The tokens of the pages delivered so far. -/
  pages : List Str

namespace Browser

def start (attempts : Attempts) : Browser := ⟨Session.empty, attempts, [], []⟩

def step (db : CharData) (env : Env) (b : Browser) : BrowserEvent → Browser
  | .send r => { b with exchanges := b.exchanges ++ [.sent r b.jar] }
  | .serve i c fresh =>
      match b.exchanges[i]? with
      | some (.sent r s) =>
          let (attempts, response) := respond db env b.attempts s r { c with fresh := fresh.text }
          { b with attempts := attempts, exchanges := b.exchanges.set i (.served s response) }
      | _ => b
  | .deliver i =>
      match b.exchanges[i]? with
      | some (.served _ response) =>
          { b with
            jar := if response.setsCookie then response.session else b.jar
            exchanges := b.exchanges.set i .delivered
            pages := b.pages ++ response.page.toList }
      | _ => b

def run (db : CharData) (env : Env) (b : Browser) (events : List BrowserEvent) : Browser :=
  events.foldl (step db env) b

/-- A request is sent only when every request still under way came with a token. -/
def Waits (b : Browser) : BrowserEvent → Prop
  | .send _ => ∀ x ∈ b.exchanges, ∀ s ∈ x.carried, s.csrfToken.getD [] ≠ []
  | _ => True

def WaitsAlong (db : CharData) (env : Env) : Browser → List BrowserEvent → Prop
  | _, [] => True
  | b, e :: events => b.Waits e ∧ WaitsAlong db env (b.step db env e) events

instance (b : Browser) : (e : BrowserEvent) → Decidable (b.Waits e)
  | .send _ => inferInstanceAs (Decidable (∀ x ∈ b.exchanges, ∀ s ∈ x.carried, _ ≠ _))
  | .serve _ _ _ => isTrue trivial
  | .deliver _ => isTrue trivial

instance decidableWaitsAlong (db : CharData) (env : Env) :
    (b : Browser) → (events : List BrowserEvent) → Decidable (b.WaitsAlong db env events)
  | _, [] => isTrue trivial
  | b, e :: events =>
      have := decidableWaitsAlong db env (b.step db env e) events
      inferInstanceAs (Decidable (_ ∧ _))

/-- Whichever delivered page's form is submitted now, the token in it is accepted. -/
def PagesAccepted (b : Browser) : Prop :=
  ∀ token ∈ b.pages, ∀ r : Request, r.method = .post → r.formToken = some token →
    csrfProtect b.jar r = .pass

end Browser

section Tokens

theorem login_csrf (db : CharData) (env : Env) (r : Request) (c : Circumstances)
    (attempts : Attempts) (s : Session) :
    let result := login db env r c attempts s
    (s.isAuthenticated = false ∧ result.succeeded = none ∧
        result.session.csrfToken = (s.renderPage c.fresh).csrfToken) ∨
      ((!s.isAuthenticated && result.succeeded.isNone) = false ∧
        result.session.csrfToken = s.csrfToken) := by
  dsimp only
  unfold login
  split
  next known => exact .inr ⟨by simp [known], rfl⟩
  next unknown =>
    have anonymous : s.isAuthenticated = false := by simpa using unknown
    split
    · exact .inl ⟨anonymous, rfl, rfl⟩
    dsimp only
    split
    · exact .inl ⟨anonymous, rfl, rfl⟩
    split
    · exact .inl ⟨anonymous, rfl, rfl⟩
    split
    · exact .inr ⟨by simp, rfl⟩
    · split
      · exact .inr ⟨by simp, rfl⟩
      · exact .inl ⟨anonymous, rfl, rfl⟩

theorem serve_csrf (db : CharData) (env : Env) (attempts : Attempts) (s : Session)
    (r : Request) (c : Circumstances) :
    let result := serve db env attempts s (r, c)
    (rendersPage s r c result.2.2 = true ∧
        result.2.1.csrfToken = (s.renderPage c.fresh).csrfToken) ∨
      (rendersPage s r c result.2.2 = false ∧ result.2.1.csrfToken = s.csrfToken) := by
  dsimp only
  rcases serve_cases db env attempts s r c with ⟨messages, same⟩ | ⟨same, -⟩
  · rw [same]
    exact .inr ⟨by simp [rendersPage, refused], rfl⟩
  · rw [same]
    unfold body
    split
    next entry =>
      simp only [rendersPage, entry, Bool.true_and]
      rcases login_csrf db env r c attempts s with ⟨anonymous, failed, token⟩ | ⟨other, token⟩
      · exact .inl ⟨by simp [anonymous, failed], token⟩
      · exact .inr ⟨other, token⟩
    next leave => exact .inr ⟨by simp [rendersPage, leave], rfl⟩
    next entry leave =>
      have view : rendersPage s r c ⟨r.endpoint, true, none⟩ = c.renders := by
        unfold rendersPage
        split
        next same => exact absurd same entry
        next same => exact absurd same leave
        next => rfl
      unfold otherView
      cases renders : c.renders with
      | false => exact .inr ⟨view.trans renders, rfl⟩
      | true => exact .inl ⟨view.trans renders, rfl⟩

variable {db : CharData} {env : Env} {attempts : Attempts} {s : Session} {r : Request}
  {c : Circumstances} {token : Str}

theorem respond_kept (known : s.csrfToken = some token) (nonempty : token ≠ []) :
    (respond db env attempts s r c).2.session.csrfToken = some token ∧
      ∀ shown ∈ (respond db env attempts s r c).2.page, shown = token := by
  have rendered : (s.renderPage c.fresh).csrfToken = some token := by
    simp [Session.renderPage, known, nonempty]
  have same : (serve db env attempts s (r, c)).2.1.csrfToken = some token := by
    rcases serve_csrf db env attempts s r c with ⟨-, made⟩ | ⟨-, left⟩
    · exact made.trans rendered
    · exact left.trans known
  refine ⟨same, ?_⟩
  intro shown member
  simp only [respond, same, Option.getD_some] at member
  split at member
  · exact (Option.mem_some.mp member).symm
  · cases member

/-- A response to a request without a token: no page and no token, or a page with a new
token that is also in the cookie. -/
def Unbound (response : Response) : Prop :=
  (response.page = none ∧ response.session.csrfToken.getD [] = []) ∨
    ∃ fresh : HexToken, response.page = some fresh.text ∧
      response.session.csrfToken = some fresh.text ∧ response.setsCookie = true

theorem HexToken.text_ne_nil (fresh : HexToken) : fresh.text ≠ [] := by
  intro none
  have length := fresh.length
  rw [none] at length
  cases length

theorem respond_unbound (fresh : HexToken) (none : s.csrfToken.getD [] = []) :
    Unbound (respond db env attempts s r { c with fresh := fresh.text }).2 := by
  rcases serve_csrf db env attempts s r { c with fresh := fresh.text } with
    ⟨renders, made⟩ | ⟨renders, left⟩
  · have new : (serve db env attempts s (r, { c with fresh := fresh.text })).2.1.csrfToken =
        some fresh.text := by
      rw [made]
      simp [Session.renderPage, none]
    have changed : (serve db env attempts s (r, { c with fresh := fresh.text })).2.1 ≠ s := by
      intro same
      rw [same] at new
      rw [new] at none
      exact fresh.text_ne_nil none
    refine .inr ⟨fresh, ?_, new, ?_⟩
    · simp only [respond, renders, new, if_true, Option.getD_some]
    · simp only [respond, changed, ne_eq, not_false_eq_true, decide_true, Bool.true_or]
  · refine .inl ⟨?_, ?_⟩
    · simp only [respond, renders, Bool.false_eq_true, if_false]
    · exact (congrArg (Option.getD · []) left).trans none

end Tokens

section Jar

def Exchange.IsUnbound : Exchange → Prop
  | .sent _ s => s.csrfToken.getD [] = []
  | .served s response => s.csrfToken.getD [] = [] ∧ Unbound response
  | .delivered => True

def Exchange.Shares (token : Str) : Exchange → Prop
  | .sent _ s => s.csrfToken = some token
  | .served s response => s.csrfToken = some token ∧
      response.session.csrfToken = some token ∧ ∀ shown ∈ response.page, shown = token
  | .delivered => True

/-- No token yet, and at most one request under way. -/
structure Waiting (b : Browser) : Prop where
  jar : b.jar.csrfToken.getD [] = []
  pages : b.pages = []
  exchanges : ∀ x ∈ b.exchanges, x.IsUnbound
  alone : ∀ (i j : Nat) (x y : Exchange), b.exchanges[i]? = some x → b.exchanges[j]? = some y →
    x.carried ≠ none → y.carried ≠ none → i = j

/-- One token in the jar, in every page and in every request under way. -/
structure Bound (token : HexToken) (b : Browser) : Prop where
  jar : b.jar.csrfToken = some token.text
  pages : ∀ shown ∈ b.pages, shown = token.text
  exchanges : ∀ x ∈ b.exchanges, x.Shares token.text

variable {db : CharData} {env : Env} {b : Browser} {token : HexToken}

theorem bound_step (bound : Bound token b) (e : BrowserEvent) :
    Bound token (b.step db env e) := by
  cases e with
  | send r =>
      refine ⟨bound.jar, bound.pages, ?_⟩
      intro x member
      rcases List.mem_append.mp member with old | new
      · exact bound.exchanges x old
      · rw [List.mem_singleton.mp new]
        exact bound.jar
  | serve i c fresh =>
      unfold Browser.step
      dsimp only
      split
      next r s found =>
        refine ⟨bound.jar, bound.pages, ?_⟩
        intro x member
        rcases List.mem_or_eq_of_mem_set member with old | new
        · exact bound.exchanges x old
        · have known : s.csrfToken = some token.text :=
            bound.exchanges _ (List.mem_of_getElem? found)
          rw [new]
          exact ⟨known, respond_kept known token.text_ne_nil⟩
      next => exact bound
  | deliver i =>
      unfold Browser.step
      dsimp only
      split
      next s response found =>
        have shares : (Exchange.served s response).Shares token.text :=
          bound.exchanges _ (List.mem_of_getElem? found)
        refine ⟨?_, ?_, ?_⟩
        · dsimp only
          split
          · exact shares.2.1
          · exact bound.jar
        · intro shown member
          rcases List.mem_append.mp member with old | new
          · exact bound.pages shown old
          · exact shares.2.2 shown (Option.mem_toList.mp new)
        · intro x member
          rcases List.mem_or_eq_of_mem_set member with old | new
          · exact bound.exchanges x old
          · rw [new]
            trivial
      next => exact bound

theorem waiting_send (waiting : Waiting b) (r : Request) (waits : b.Waits (.send r)) :
    Waiting (b.step db env (.send r)) := by
  have idle (x : Exchange) (member : x ∈ b.exchanges) : x.carried = none := by
    have unbound := waiting.exchanges x member
    cases x with
    | sent r s => exact absurd unbound (waits _ member s rfl)
    | served s response => exact absurd unbound.1 (waits _ member s rfl)
    | delivered => rfl
  have last (i : Nat) (x : Exchange) (found : (b.exchanges ++ [.sent r b.jar])[i]? = some x)
      (busy : x.carried ≠ none) : i = b.exchanges.length := by
    by_contra other
    have inside : i < b.exchanges.length := by
      have bound := (List.getElem?_eq_some_iff.mp found).1
      rw [List.length_append, List.length_singleton] at bound
      omega
    rw [List.getElem?_append_left inside] at found
    exact busy (idle x (List.mem_of_getElem? found))
  refine ⟨waiting.jar, waiting.pages, ?_, ?_⟩
  · intro x member
    rcases List.mem_append.mp member with old | new
    · exact waiting.exchanges x old
    · rw [List.mem_singleton.mp new]
      exact waiting.jar
  · intro i j x y atI atJ busyX busyY
    rw [last i x atI busyX, last j y atJ busyY]

theorem waiting_serve (waiting : Waiting b) (i : Nat) (c : Circumstances) (fresh : HexToken) :
    Waiting (b.step db env (.serve i c fresh)) := by
  unfold Browser.step
  dsimp only
  split
  next r s found =>
    have none : s.csrfToken.getD [] = [] := waiting.exchanges _ (List.mem_of_getElem? found)
    let served : Exchange :=
      .served s (respond db env b.attempts s r { c with fresh := fresh.text }).2
    -- the exchange was under way before, so the others are not
    have before (j : Nat) (x : Exchange) (after : (b.exchanges.set i served)[j]? = some x)
        (busy : x.carried ≠ Option.none) : j = i := by
      by_contra other
      rw [List.getElem?_set_ne (Ne.symm other)] at after
      exact other (waiting.alone j i x _ after found busy (by simp [Exchange.carried]))
    refine ⟨waiting.jar, waiting.pages, ?_, ?_⟩
    · intro x member
      rcases List.mem_or_eq_of_mem_set member with old | new
      · exact waiting.exchanges x old
      · rw [new]
        exact ⟨none, respond_unbound fresh none⟩
    · intro j k x y atJ atK busyX busyY
      rw [before j x atJ busyX, before k y atK busyY]
  next => exact waiting

theorem waiting_deliver (waiting : Waiting b) (i : Nat) :
    Waiting (b.step db env (.deliver i)) ∨ ∃ token, Bound token (b.step db env (.deliver i)) := by
  unfold Browser.step
  dsimp only
  split
  next s response found =>
    have unbound : (Exchange.served s response).IsUnbound :=
      waiting.exchanges _ (List.mem_of_getElem? found)
    have finished (j : Nat) (x : Exchange)
        (after : (b.exchanges.set i .delivered)[j]? = some x) : x.carried = none := by
      by_cases same : j = i
      · subst same
        rw [List.getElem?_set_self (List.getElem?_eq_some_iff.mp found).1] at after
        rw [← Option.some.inj after]
        rfl
      · rw [List.getElem?_set_ne (Ne.symm same)] at after
        by_contra busy
        exact same (waiting.alone j i x _ after found busy (by simp [Exchange.carried]))
    rcases unbound.2 with ⟨page, bare⟩ | ⟨token, page, made, set⟩
    · refine .inl ⟨?_, ?_, ?_, ?_⟩
      · dsimp only
        split
        · exact bare
        · exact waiting.jar
      · simp only [page, waiting.pages, Option.toList_none, List.append_nil]
      · intro x member
        rcases List.mem_or_eq_of_mem_set member with old | new
        · exact waiting.exchanges x old
        · rw [new]
          trivial
      · intro j k x y atJ _ busy _
        exact absurd (finished j x atJ) busy
    · refine .inr ⟨token, ?_, ?_, ?_⟩
      · simp only [set, if_true, made]
      · intro shown member
        simpa [page, waiting.pages] using member
      · intro x member
        rcases List.getElem?_of_mem member with ⟨j, atJ⟩
        have done := finished j x atJ
        cases x with
        | sent r s => cases done
        | served s response => cases done
        | delivered => trivial
  next => exact .inl waiting

theorem kept_step (kept : Waiting b ∨ ∃ token, Bound token b) (e : BrowserEvent)
    (waits : b.Waits e) :
    Waiting (b.step db env e) ∨ ∃ token, Bound token (b.step db env e) := by
  rcases kept with waiting | ⟨token, bound⟩
  · cases e with
    | send r => exact .inl (waiting_send waiting r waits)
    | serve i c fresh => exact .inl (waiting_serve waiting i c fresh)
    | deliver i => exact waiting_deliver waiting i
  · exact .inr ⟨token, bound_step bound e⟩

theorem kept_run (events : List BrowserEvent) (kept : Waiting b ∨ ∃ token, Bound token b)
    (waits : b.WaitsAlong db env events) :
    Waiting (b.run db env events) ∨ ∃ token, Bound token (b.run db env events) := by
  induction events generalizing b with
  | nil => exact kept
  | cons e events ih => exact ih (kept_step kept e waits.1) waits.2

theorem waiting_start (attempts : Attempts) : Waiting (Browser.start attempts) where
  jar := rfl
  pages := rfl
  exchanges _ member := by cases member
  alone _ _ _ _ found := by cases found

theorem HexToken.ascii (fresh : HexToken) : ∀ c ∈ fresh.text, c.toNat < 128 := by
  intro c member
  have digit := List.all_eq_true.mp fresh.digits c member
  simp only [Char.isDigit, Bool.or_eq_true, Bool.and_eq_true, decide_eq_true_eq] at digit
  rcases digit with ⟨_, upper⟩ | ⟨_, upper⟩
  · exact Nat.lt_of_le_of_lt upper (by decide)
  · exact Nat.lt_of_le_of_lt upper (by decide)

theorem csrfProtect_pass {s : Session} {r : Request} (known : s.csrfToken = some token.text)
    (posted : r.formToken = some token.text) : csrfProtect s r = .pass := by
  have sent : requestToken r = token.text := by
    simp [requestToken, posted, token.text_ne_nil]
  have equal : compareDigest token.text token.text = some true := by
    have ascii : (token.text ++ token.text).all (fun c => c.toNat < 128) = true := by
      rw [List.all_append, Bool.and_self, List.all_eq_true]
      intro c member
      exact decide_eq_true (token.ascii c member)
    rw [compareDigest, if_pos ascii]
    simp
  unfold csrfProtect
  split
  · rfl
  · simp only [known, Option.getD_some, sent, token.text_ne_nil, or_self, if_false, equal]

end Jar

/-- In every run of a browser that starts with no cookie and in which each step waits for
the requests without a token, the form of every page delivered so far is accepted. -/
theorem pages_accepted (db : CharData) (env : Env) (attempts : Attempts)
    (events : List BrowserEvent) (waits : (Browser.start attempts).WaitsAlong db env events) :
    ((Browser.start attempts).run db env events).PagesAccepted := by
  intro shown member r _ posted
  rcases kept_run events (.inl (waiting_start attempts)) waits with waiting | ⟨token, bound⟩
  · rw [waiting.pages] at member
    cases member
  · rw [bound.pages shown member] at posted
    exact csrfProtect_pass bound.jar posted

def tokenOf (c : Char) (digit : c.isDigit = true) : HexToken where
  text := List.replicate 32 c
  length := List.length_replicate
  digits := by simp [digit]

def loginPage : Request := ⟨.login, .get, none, false, none, none, none, none⟩

/-- The login page twice, in two tabs that are opened before either page has arrived. -/
def twoTabs : List BrowserEvent :=
  [.send loginPage, .send loginPage, .serve 0 quiet (tokenOf '1' rfl),
    .serve 1 quiet (tokenOf '2' rfl), .deliver 0, .deliver 1]

/-- The cookie of the second page replaces the one that the first page's form needs. -/
theorem first_tab_rejected : ¬∀ (db : CharData) (env : Env) (attempts : Attempts)
    (events : List BrowserEvent), ((Browser.start attempts).run db env events).PagesAccepted := by
  intro all
  have accepted := all .ascii exampleEnv (fun _ => []) twoTabs (tokenOf '1' rfl).text
    (by decide +kernel)
    ⟨.login, .post, some (tokenOf '1' rfl).text, false, none, none, none, none⟩ rfl rfl
  revert accepted
  decide +kernel

/-- The login page; then, from the cookie it set, a login and the page once more at the
same time. -/
def oneTab : List BrowserEvent :=
  [.send loginPage, .serve 0 quiet (tokenOf '1' rfl), .deliver 0,
    .send ⟨.login, .post, some (tokenOf '1' rfl).text, false, none, none, some "dev".toList,
      some "secret".toList⟩,
    .send loginPage, .serve 1 quiet (tokenOf '2' rfl), .serve 2 quiet (tokenOf '3' rfl),
    .deliver 1, .deliver 2]

theorem pages_accepted_one_tab :
    ((Browser.start fun _ => []).run .ascii exampleEnv oneTab).pages.length = 2 ∧
      ((Browser.start fun _ => []).run .ascii exampleEnv oneTab).PagesAccepted := by
  refine ⟨by decide +kernel, pages_accepted .ascii exampleEnv _ oneTab ?_⟩
  decide +kernel

end SmolNas.App
