import TtLedger.Foundations.Guarded
import TtLedger.Foundations.Paging
import TtLedger.Ingest.Client

/-!
# The client and the broker

A broker answers the requests of a client from lists that change between them: at each request every
list may take a step of `R`, then the answer is a refusal, a failure, or the page asked for of the
list as it is (`broker`). Whatever the broker refuses and however often the token is renewed, a
request that returns has the page of the list as it is at its end (`triple_get`), so a loop over the
pages keeps what a reader of a changing list keeps (`triple_pagesFrom`).
-/

namespace TtLedger

open Prog TastyTradeClient

/-! ## The broker -/

/-- The fields of a client, and what the broker lists under each path for each query. -/
structure Session where
  accessToken : Json := .null
  tokenExpiresAt : Option Datetime := none
  items : String → Json.Object → List Json

/-- The body of a page: its items, and how many pages there are. -/
def IsPage (l : List Json) (limit k : ℕ) (body : Json) : Prop :=
  ∃ entries data pagination, ∃ total : ℕ, body = .obj entries ∧
    Json.getD entries "data" (.obj []) = .obj data ∧
    Json.getD data "items" (.arr []) = .arr (page l (k * limit) limit) ∧
    Json.getD entries "pagination" (.obj []) = .obj pagination ∧
    Json.getD pagination "total-pages" (.int 1) = .int total ∧ PageCount l limit total

namespace IsPage

variable {l : List Json} {limit k : ℕ} {body : Json}

theorem pageItems (h : IsPage l limit k body) :
    TastyTradeClient.pageItems body = .ok (page l (k * limit) limit) := by
  obtain ⟨entries, data, pagination, total, rfl, hdata, hitems, -⟩ := h
  show Raises.python ((Json.getD entries "data" (.obj [])).entries >>= _) = _
  rw [hdata]
  show Raises.python (Json.iter (Json.getD data "items" (.arr []))) = _
  rw [hitems]
  rfl

theorem totalPages (h : IsPage l limit k body) :
    ∃ total : ℕ, TastyTradeClient.totalPages body = .ok (.int total) ∧
      PageCount l limit total := by
  obtain ⟨entries, data, pagination, total, rfl, -, -, hpagination, htotal, hcount⟩ := h
  refine ⟨total, ?_, hcount⟩
  show Raises.python ((Json.getD entries "pagination" (.obj [])).entries >>= _) = _
  rw [hpagination]
  show Raises.python (Except.ok (Json.getD pagination "total-pages" (.int 1))) = _
  rw [htotal]
  rfl

end IsPage

/-- A good answer to a request for a page is that page. -/
def Session.Answers (s : Session) (path : String) (params : Json.Object) (resp : HttpResponse) :
    Prop :=
  ∀ body, resp.statusCode < 400 → resp.json = some body → ∀ q (k limit : ℕ), 0 < limit →
    params = q ++ pageParams k limit → IsPage (s.items path q) limit k body

/-- What a call does, when the broker's lists change by `R` between requests. -/
def broker (R : List Json → List Json → Prop) : Meaning RestOp RestOp.Reply ClientError Session
  | .now, s, r, s' => (∃ t, r = .ok t) ∧ s' = s
  | .accessToken, s, r, s' => r = .ok s.accessToken ∧ s' = s
  | .tokenExpiresAt, s, r, s' => r = .ok s.tokenExpiresAt ∧ s' = s
  | .setAccessToken accessToken, s, r, s' => r = .ok () ∧ s' = { s with accessToken }
  | .setTokenExpiresAt t, s, r, s' => r = .ok () ∧ s' = { s with tokenExpiresAt := some t }
  | .post _ _, s, _, s' =>
    ∃ items, (∀ path q, R (s.items path q) (items path q)) ∧ s' = { s with items }
  | .get path params _, s, r, s' =>
    ∃ items, (∀ path q, R (s.items path q) (items path q)) ∧ s' = { s with items } ∧
      ∀ resp, r = .ok resp → s'.Answers path params resp

/-- The lists have changed by `R`. -/
def Session.Later (R : List Json → List Json → Prop) (s s' : Session) : Prop :=
  ∀ path q, R (s.items path q) (s'.items path q)

/-- The lists have changed by `R`, from a session in `P` to another. -/
structure Session.Through (R : List Json → List Json → Prop) (P : Session → Prop)
    (s s' : Session) : Prop where
  lists : Session.Later R s s'
  mem : P s → P s'

namespace Session.Through

variable {R : List Json → List Json → Prop} {P : Session → Prop}

theorem refl [h : Std.Refl R] (s : Session) : Session.Through R P s s := ⟨fun _ _ => h.refl _, id⟩

instance instIsTrans [h : IsTrans _ R] : IsTrans Session (Session.Through R P) where
  trans _ _ _ h₁ h₂ :=
    ⟨fun path q => h.trans _ _ _ (h₁.lists path q) (h₂.lists path q), fun hs => h₂.mem (h₁.mem hs)⟩

end Session.Through

/-! ## Readers -/

/-- An item was listed in a session of `P`. -/
def Listed (R : List Json → List Json → Prop) (P : Session → Prop) (path : String)
    (q : Json.Object) (s₀ : Session) (a : Json) : Prop :=
  ∃ s, P s ∧ R (s₀.items path q) (s.items path q) ∧ a ∈ s.items path q

/-- What a reader has read by a page: what is left stands from there on, and all that was read was
listed in a session of `P`. -/
structure ReadFrom (R : List Json → List Json → Prop) (P : Session → Prop) (path : String)
    (q : Json.Object) (limit : ℕ) (s₀ : Session) (items : List Json) (s : Session) (k : ℕ) :
    Prop where
  later : R (s₀.items path q) (s.items path q)
  mem : P s
  unread : Unread (s₀.items path q) items (s.items path q) (k * limit)
  listed : ∀ a ∈ items, Listed R P path q s₀ a

theorem ReadFrom.step {R : List Json → List Json → Prop} [IsTrans _ R] {P : Session → Prop}
    {path : String} {q : Json.Object} {limit : ℕ} (hR : ∀ l l', R l l' → Recedes l l')
    {s₀ s s' : Session} {items : List Json} {k : ℕ}
    (h : ReadFrom R P path q limit s₀ items s k) (hs : Session.Through R P s s') :
    ReadFrom R P path q limit s₀ (items ++ page (s'.items path q) (k * limit) limit) s'
      (k + 1) where
  later := IsTrans.trans _ _ _ h.later (hs.lists path q)
  mem := hs.mem h.mem
  unread := (h.unread.recedes (hR _ _ (hs.lists path q))).step
  listed a ha := by
    rcases List.mem_append.mp ha with ha | ha
    · exact h.listed a ha
    · exact ⟨s', hs.mem h.mem, IsTrans.trans _ _ _ h.later (hs.lists path q),
        (sublist_page (s'.items path q) (k * limit) limit).subset ha⟩

/-! ## Requests -/

section Requests

variable {R : List Json → List Json → Prop} [hrefl : Std.Refl R] {P : Session → Prop}

/-- One call of the client. -/
theorem later_of_broker {op : RestOp} {s s' : Session} {r : Except ClientError op.Reply}
    (h : broker R op s r s') : Session.Later R s s' := by
  cases op with
  | now | accessToken | tokenExpiresAt =>
    rw [h.2]
    exact fun _ _ => hrefl.refl _
  | setAccessToken token | setTokenExpiresAt t =>
    rw [h.2]
    exact fun _ _ => hrefl.refl _
  | post p json =>
    obtain ⟨items, hitems, rfl⟩ := h
    exact hitems
  | get p params authorization =>
    obtain ⟨items, hitems, rfl, -⟩ := h
    exact hitems

/-- Whatever the client does, the lists change by `R`. -/
theorem triple_client [IsTrans _ R] {α : Type} (p : ClientProg α) (s : Session) :
    Triple ((broker R).within P) (fun _ _ => True) (Session.Through R P) p s fun _ _ => True :=
  Triple.of_calls (P := fun _ => True) .refl
    (fun _ _ _ _ _ h => ⟨later_of_broker h.1, fun _ => h.2⟩) (.any p)

theorem triple_request (path : String) (params : Json.Object) (authorization : String)
    (s : Session) :
    Triple ((broker R).within P) (fun _ _ => True) (Session.Through R P)
      (Http.get path params authorization) s fun resp s' => s'.Answers path params resp := by
  refine Guarded.invoke trivial fun r s' hr =>
    ⟨⟨later_of_broker hr.1, fun _ => hr.2⟩, fun resp hresp => ?_⟩
  obtain ⟨⟨items, -, rfl, hanswers⟩, -⟩ := hr
  exact hanswers resp hresp

variable (c : ClientCodec) (cfg : ClientConfig)

theorem statusCode_of_raiseForError {resp : HttpResponse} (h : raiseForError c resp = .ok ()) :
    resp.statusCode < 400 := by
  unfold raiseForError at h
  split at h
  · assumption
  · -- every other answer raises
    cases hjson : resp.json with
    | none =>
      rw [hjson] at h
      cases h
    | some json =>
      simp only [hjson, Bind.bind, Except.bind] at h
      split at h
      · cases h
      · split at h
        · cases h
        · cases h

variable {path : String} {q : Json.Object} {limit : ℕ}

theorem filter_isGiven (hq : ∀ e ∈ q, isGiven e = true) (k : ℕ) :
    (q ++ pageParams k limit).filter isGiven = q ++ pageParams k limit := by
  refine List.filter_eq_self.mpr fun e he => ?_
  rcases List.mem_append.mp he with he | he
  · exact hq e he
  · rcases List.mem_cons.mp he with rfl | he
    · rfl
    · rw [List.mem_singleton.mp he]
      rfl

variable [IsTrans _ R]

/-- **A request** for a page that returns has the page of the list as it is at its end. -/
theorem triple_get (hq : ∀ e ∈ q, isGiven e = true) (hlimit : 0 < limit) (k : ℕ) (s : Session) :
    Triple ((broker R).within P) (fun _ _ => True) (Session.Through R P)
      (TastyTradeClient.get c cfg path (q ++ pageParams k limit)) s fun body s' =>
        IsPage (s'.items path q) limit k body := by
  have hfinish : ∀ resp (s : Session), s.Answers path (q ++ pageParams k limit) resp →
      Triple ((broker R).within P) (fun _ _ => True) (Session.Through R P)
        (Prog.ofExcept (raiseForError c resp) >>= fun _ => Prog.ofExcept resp.body) s
        fun body s' => IsPage (s'.items path q) limit k body := by
    intro resp s hresp
    refine Triple.bind (Φ := fun _ s' => s' = s ∧ resp.statusCode < 400)
      (Triple.ofExcept (.refl s) fun _ hok => ⟨rfl, statusCode_of_raiseForError c hok⟩)
      fun _ s₁ _ hok => ?_
    obtain ⟨rfl, hstatus⟩ := hok
    refine Triple.ofExcept (.refl s₁) fun body hbody => ?_
    refine hresp body hstatus ?_ q k limit hlimit rfl
    unfold HttpResponse.body at hbody
    split at hbody
    · rename_i hjson
      rw [hjson, Except.ok.inj hbody]
    · cases hbody
  unfold TastyTradeClient.get
  rw [filter_isGiven hq]
  refine (triple_client (ensureToken c cfg) s).bind fun token s₁ _ _ => ?_
  refine (triple_request path _ _ s₁).bind fun resp s₂ _ hresp => ?_
  simp only []
  split
  · -- refused: the request is repeated under a new token
    refine (triple_client (authenticate c cfg) s₂).bind fun _ s₃ _ _ => ?_
    refine (triple_client _ s₃).bind fun token s₄ _ _ => ?_
    exact (triple_request path _ _ s₄).bind fun resp s₅ _ hresp => hfinish resp s₅ hresp
  · exact hfinish resp s₂ hresp

/-! ## Pages -/

/-- The loop stops past the end of the list only. -/
theorem isLastPage_spec {l : List Json} {k total : ℕ} (hlimit : 0 < limit)
    (hcount : PageCount l limit total) {last : Bool}
    (h : isLastPage (page l (k * limit) limit) (k + 1) (.int total) = .ok last) :
    (last = true → l.length ≤ (k + 1) * limit) ∧ (last = false → (k + 1) * limit < l.length) := by
  unfold isLastPage at h
  split at h
  · rename_i hempty
    have hend := (page_eq_nil_iff hlimit).mp (List.isEmpty_iff.mp hempty)
    obtain rfl := Except.ok.inj h
    refine ⟨fun _ => hend.trans (Nat.mul_le_mul_right limit (Nat.le_succ k)), fun hlast => ?_⟩
    cases hlast
  · obtain rfl := Except.ok.inj h
    refine ⟨fun hlast => hcount.length_le ?_, fun hlast => hcount.lt_length ?_ (Nat.succ_pos k)⟩
    · have hle := of_decide_eq_true hlast
      omega
    · have hlt := of_decide_eq_false hlast
      omega

/-- **The loop over the pages** keeps what reading one page keeps, stops at the end of the list, and
runs out of fuel only before it. -/
theorem triple_pagesFrom (hq : ∀ e ∈ q, isGiven e = true) (hlimit : 0 < limit)
    {I : List Json → Session → ℕ → Prop}
    (hread : ∀ items s s' k, I items s k → BeforeEnd (s.items path q) limit k →
      Session.Through R P s s' → I (items ++ page (s'.items path q) (k * limit) limit) s' (k + 1))
    (fuel k : ℕ) (items : List Json) (s : Session) (hI : I items s k)
    (hk : BeforeEnd (s.items path q) limit k) :
    Triple ((broker R).within P) (fun _ _ => True) (Session.Through R P)
      (pagesFrom c cfg path q limit fuel k items) s fun r s' =>
        (∀ read, r = some read → ∃ k', I read s' k' ∧ (s'.items path q).length ≤ k' * limit) ∧
        (r = none → BeforeEnd (s'.items path q) limit (k + fuel)) := by
  induction fuel generalizing k items s with
  | zero =>
    refine Triple.pure (.refl s) ⟨fun read hnone => ?_, fun _ => hk⟩
    cases hnone
  | succ fuel ih =>
    rw [pagesFrom]
    refine (triple_get c cfg hq hlimit k s).bind fun body s₁ h₁ hbody => ?_
    have hitems := hread _ _ _ k hI hk h₁
    obtain ⟨total, htotal, hcount⟩ := hbody.totalPages
    rw [hbody.pageItems, htotal]
    refine Triple.bind (Φ := fun last s' => s' = s₁ ∧
        isLastPage (page (s₁.items path q) (k * limit) limit) (k + 1) (.int total) = .ok last)
      (Triple.ofExcept (.refl s₁) fun last hlast => ⟨rfl, hlast⟩) fun last s₂ _ hlast => ?_
    obtain ⟨rfl, hlast⟩ := hlast
    obtain ⟨hstop, hmore⟩ := isLastPage_spec hlimit hcount hlast
    cases last with
    | true =>
      refine Triple.pure (.refl s₂) ⟨fun read hread => ?_, fun hnone => ?_⟩
      · obtain rfl := Option.some.inj hread
        exact ⟨k + 1, hitems, hstop rfl⟩
      · cases hnone
    | false =>
      refine (ih (k + 1) _ s₂ hitems (Or.inr (hmore rfl))).mono fun r s' _ hr =>
        ⟨hr.1, fun hnone => ?_⟩
      have hfuel := hr.2 hnone
      rwa [Nat.add_right_comm, Nat.add_assoc] at hfuel

/-- **All pages**: a reader of a list whose items do not move toward its front ends with every item
it had at the start, and with items that were listed; its fuel runs out only when the list goes on
after that many pages. -/
theorem triple_getAllPages (hR : ∀ l l', R l l' → Recedes l l')
    (hq : ∀ e ∈ q, isGiven e = true) (hlimit : 0 < limit) (fuel : ℕ) {s : Session} (hs : P s) :
    Triple ((broker R).within P) (fun _ _ => True) (Session.Through R P)
      (getAllPages c cfg fuel path q limit) s fun r s' =>
        (∀ items, r = some items → s.items path q ⊆ items ∧
          ∀ a ∈ items, Listed R P path q s a) ∧
        (r = none → BeforeEnd (s'.items path q) limit fuel) := by
  refine (triple_pagesFrom c cfg hq hlimit (I := ReadFrom R P path q limit s)
    (fun _ _ _ _ h _ hl => h.step hR hl) fuel 0 [] s
    ⟨hrefl.refl _, hs, by simpa using Unread.start _, by simp⟩ (Or.inl rfl)).mono
      fun r s' _ hr => ?_
  refine ⟨fun items hitems => ?_, fun hnone => by simpa using hr.2 hnone⟩
  obtain ⟨k, hread, hend⟩ := hr.1 items hitems
  exact ⟨hread.unread.subset hend, hread.listed⟩

end Requests

/-! ## A broker -/

namespace Session

/-- The page of a list, when its parameters come last; else nothing. -/
def reply (s : Session) (path : String) (params : Json.Object) : HttpResponse :=
  match params.reverse with
  | (_, .int limit) :: (_, .int k) :: q =>
    let l := s.items path q.reverse
    { statusCode := 200
      text := ""
      json := some (.obj [
        ("data", .obj [("items", .arr (page l (k.toNat * limit.toNat) limit.toNat))]),
        ("pagination",
          .obj [("total-pages", .int ((l.length + limit.toNat - 1) / limit.toNat : ℕ))])]) }
  | _ => { statusCode := 200, text := "", json := some (.obj [("data", .obj [])]) }

/-- A broker whose lists take a step at each request, and which refuses some tokens. -/
def serve (turn : List Json → List Json) (refuses : String → Bool) :
    Handler RestOp RestOp.Reply ClientError Session
  | .now, s => (.ok 0, s)
  | .accessToken, s => (.ok s.accessToken, s)
  | .tokenExpiresAt, s => (.ok s.tokenExpiresAt, s)
  | .setAccessToken accessToken, s => (.ok (), { s with accessToken })
  | .setTokenExpiresAt t, s => (.ok (), { s with tokenExpiresAt := some t })
  | .post _ _, s =>
    (.ok { statusCode := 200, text := "", json := some (.obj [("access_token", .str "t")]) },
      { s with items := fun path q => turn (s.items path q) })
  | .get path params authorization, s =>
    let s := { s with items := fun path q => turn (s.items path q) }
    if refuses authorization then
      (.ok { statusCode := 401, text := "", json := none }, s)
    else
      (.ok (s.reply path params), s)

theorem answers_reply (s : Session) (path : String) (params : Json.Object) :
    s.Answers path params (s.reply path params) := by
  intro body _ hbody q k limit hlimit hparams
  have hreverse : params.reverse =
      ("per-page", .int limit) :: ("page-offset", .int k) :: q.reverse := by
    rw [hparams, pageParams, List.reverse_append]
    rfl
  rw [reply, hreverse] at hbody
  simp only [List.reverse_reverse, Int.toNat_natCast] at hbody
  obtain rfl := Option.some.inj hbody
  exact ⟨_, _, _, _, rfl, rfl, rfl, rfl, rfl, .ceil hlimit⟩

section Serve

variable {R : List Json → List Json → Prop} {turn : List Json → List Json}
  {refuses : String → Bool}

theorem broker_serve (hturn : ∀ l, R l (turn l)) {op : RestOp} {s s' : Session}
    {r : Except ClientError op.Reply} (h : serve turn refuses op s = (r, s')) :
    broker R op s r s' := by
  cases op with
  | now =>
    cases h
    exact ⟨⟨0, rfl⟩, rfl⟩
  | accessToken | tokenExpiresAt =>
    cases h
    exact ⟨rfl, rfl⟩
  | setAccessToken token | setTokenExpiresAt t =>
    cases h
    exact ⟨rfl, rfl⟩
  | post p json =>
    cases h
    exact ⟨_, fun _ _ => hturn _, rfl⟩
  | get p params authorization =>
    unfold serve at h
    refine ⟨fun path q => turn (s.items path q), fun _ _ => hturn _, ?_⟩
    dsimp only at h
    split at h
    · obtain ⟨rfl, rfl⟩ := Prod.mk.inj h
      refine ⟨rfl, fun resp hresp body hstatus => ?_⟩
      obtain rfl := Except.ok.inj hresp
      exact absurd hstatus (by decide)
    · obtain ⟨rfl, rfl⟩ := Prod.mk.inj h
      exact ⟨rfl, fun resp hresp => Except.ok.inj hresp ▸ answers_reply _ p params⟩

theorem runs_serve (hturn : ∀ l, R l (turn l)) {α : Type} (p : ClientProg α) (s : Session) :
    Runs (broker R) p s (run (serve turn refuses) p s).1 (run (serve turn refuses) p s).2 :=
  (runs_run (serve turn refuses) p s).mono fun _ _ _ _ => broker_serve hturn

end Serve

end Session

/-- A codec that prints every value alike and reads none. -/
def ClientCodec.plain (text : String) : ClientCodec where
  loads _ := none
  repr _ := text
  decimal _ := none
  fromisoformat _ := none
  float _ := none
  floatOfInt n := some (.finite n)
  int _ := none
  isoformat _ := text
  dateFromisoformat _ := none
  fromtimestamp _ := .error .overflowError

end TtLedger
