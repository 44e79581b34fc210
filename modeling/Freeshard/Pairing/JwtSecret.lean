import Freeshard.Coroutine.TaskRuns
import Freeshard.Service.Pairing

/-! # Tokens stay valid

The first call that needs the JWT secret draws and stores it, in two transactions. If two calls find
none, the second one to store its own replaces a secret that the first may have signed a token with.
As long as no secret that `create_terminal_jwt` has obtained is replaced, every token it has returned
is accepted for as long as its terminal exists. -/

namespace Freeshard.Pairing
open Coroutine Coroutine.Recorded
set_option autoImplicit false

variable {jwt : PyJWT}

/-! ## What a call knows of the secret -/

inductive SecretPhase where
  | idle
  | knows (secret : String)
  /-- The token's `iat` has been read off the clock, the last thing a creation does. -/
  | issued (secret : String) (time : ℤ)
  deriving DecidableEq

/-- The secret it has obtained. -/
def SecretPhase.secret : SecretPhase → Option String
  | .idle => none
  | .knows secret => some secret
  | .issued secret _ => some secret

/-- No call deletes the secret, and only one without a secret stores one. -/
def secretProtocol : Protocol Op Ans Exn SecretPhase where
  allows _ op := op ≠ .removeValue .terminalJwtSecret
  after l op r :=
    match op, r with
    | .getValue .terminalJwtSecret, .ok secret => .knows secret
    | .setValue .terminalJwtSecret secret, .ok _ => .knows secret
    | .now, .ok time =>
      match l with
      | .knows secret => .issued secret time
      | l => l
    | _, _ => l

theorem conforms_ensureJwtSecret : ensureJwtSecret.Conforms secretProtocol .idle
    fun r l => ∀ secret, r = .ok secret → l = .knows secret := by
  refine Prog.Conforms.tryCatch (R := fun r l => (∀ secret, r = .ok secret → l = .knows secret) ∧
    ((∃ e, r = .error e) → l = .idle)) ?_ (fun secret l h => h.1) fun e l h => ?_
  · refine Prog.Conforms.perform nofun fun r => ?_
    cases r with
    | ok found => exact ⟨fun secret hs => by cases hs; rfl, fun ⟨_, he⟩ => by cases he⟩
    | error e => exact ⟨nofun, fun _ => rfl⟩
  · cases e with
    | keyError key =>
      refine Prog.Conforms.bind (R := fun _ _ => True) (Prog.Conforms.perform nofun fun r => trivial)
        (fun drawn l _ => ?_) fun _ _ _ => nofun
      refine Prog.Conforms.bind (R := fun r l => r = .ok () → l = .knows drawn)
        (Prog.Conforms.perform nofun fun r => ?_) (fun u l hl => ?_) fun _ _ _ => nofun
      · rintro rfl
        rfl
      · rintro secret ⟨⟩
        exact hl rfl
    | _ => exact nofun

/-- The token is the one for this terminal, made with the secret known at the time read. -/
def Issues (terminalId : String) (token : jwt.Token) (l : SecretPhase) : Prop :=
  ∃ secret time, l = .issued secret time ∧ token = jwt.encode ⟨terminalId, time / 1000000⟩ secret

theorem conforms_createTerminalJwt (terminalId : String) :
    (createTerminalJwt jwt terminalId).Conforms secretProtocol .idle fun r l =>
      ∀ token, r = .ok token → Issues terminalId token l := by
  refine conforms_ensureJwtSecret.bind (fun secret l hl => ?_) fun _ _ _ => nofun
  obtain rfl := hl secret rfl
  refine Prog.Conforms.bind (R := fun r l => ∀ time, r = .ok time → l = .issued secret time)
    (Prog.Conforms.perform nofun fun r => ?_) (fun time l hl => ?_) fun _ _ _ => nofun
  · rintro time rfl
    rfl
  · obtain rfl := hl time rfl
    rintro token ⟨⟩
    exact ⟨secret, time, rfl, rfl⟩

/-- A creation that ends without an exception has issued a token. -/
def Created (i : Call jwt.Token) (r : Except Exn Unit) (l : SecretPhase) : Prop :=
  ∀ id terminalId, i = .createJwt id terminalId → r = .ok () →
    ∃ token : jwt.Token, Issues terminalId token l

theorem conforms_secretProtocol (settings : Settings) (i : Call jwt.Token) :
    (i.program jwt settings).Conforms secretProtocol .idle (Created i) := by
  have hany : (i.program jwt settings).Conforms secretProtocol .idle fun _ _ => True := by
    refine Prog.Conforms.of_uses (I := fun _ => True) (uses_program settings i)
      (fun op hop l _ => ⟨?_, fun _ => trivial⟩) trivial
    rintro rfl
    cases i <;> cases hop
  cases i with
  | createJwt id terminalId =>
    refine (conforms_createTerminalJwt terminalId).bind (fun token l hl => ?_)
      fun _ _ _ _ _ _ h => by cases h
    rintro _ _ ⟨⟩ -
    exact ⟨token, hl token rfl⟩
  | _ => exact hany.mono fun r l _ id' terminalId' heq => by cases heq

/-! ## What the operations do to the secret -/

theorem Act.setValue_ok {w w' : World} {key : StoreKey} {value : key.Value} {u : Unit}
    (h : Act w (.setValue key value) (.ok u) w') : w' = w.setValue key value := by
  obtain ⟨choice, h⟩ := h
  cases choice with
  | proceed =>
    cases h
    rfl
  | raise e => simp [World.exec, Op.awaited] at h
  | proceedRaise e => simp [World.exec, Op.awaited, World.effect] at h
  | draws text => cases h

theorem Act.jwtSecret {w w' : World} {op : Op} {r : Answer op} (h : Act w op r w') :
    w'.kvStore .terminalJwtSecret = w.kvStore .terminalJwtSecret ∨
      (∃ secret, op = .setValue .terminalJwtSecret secret ∧
        w'.kvStore .terminalJwtSecret = some secret) ∨
      op = .removeValue .terminalJwtSecret := by
  obtain rfl | ⟨r', h⟩ := h.cases
  · exact .inl rfl
  cases op with
  | setValue key value =>
    obtain ⟨-, rfl⟩ : _ ∧ w.setValue key value = w' := by simpa [World.effect] using h
    cases key with
    | pairingCode => exact .inl rfl
    | terminalJwtSecret => exact .inr (.inl ⟨value, rfl, rfl⟩)
  | removeValue key =>
    obtain ⟨-, rfl⟩ : _ ∧ w.removeValue key = w' := by simpa [World.effect] using h
    cases key with
    | pairingCode => exact .inl rfl
    | terminalJwtSecret => exact .inr (.inr rfl)
  | elapse duration =>
    simp only [World.effect] at h
    split at h
    · cases h
      exact .inl rfl
    · cases h
  | randomDigits => cases h
  | tokenUrlsafe => cases h
  | _ =>
    cases h
    exact .inl rfl

/-! ## Secrets obtained by creations -/

/-- The secrets that creations have obtained so far. -/
def learned : Log jwt → List String
  | [] => []
  | ⟨.createJwt _ _, .getValue .terminalJwtSecret, .ok secret, _⟩ :: log => secret :: learned log
  | ⟨.createJwt _ _, .setValue .terminalJwtSecret secret, .ok _, _⟩ :: log =>
    secret :: learned log
  | _ :: log => learned log

/-- No secret that a creation has obtained is replaced. -/
def keepsSecret : Condition Op Ans Exn World (Call jwt.Token) := fun s _ op =>
  match op with
  | .setValue .terminalJwtSecret secret => ∀ known ∈ learned s.log, known = secret
  | _ => True

instance (s : State jwt) (i : Call jwt.Token) (op : Op) : Decidable (keepsSecret s i op) := by
  unfold keepsSecret
  split <;> infer_instance

variable {s : State jwt} {i : Call jwt.Token} {op : Op} {r : Answer op} {w' : World}

theorem learned_subset : learned s.log ⊆ learned (s.next i op r w').log := by
  intro secret hmem
  cases i with
  | createJwt id terminalId =>
    cases op with
    | getValue key =>
      cases key with
      | pairingCode => cases r <;> exact hmem
      | terminalJwtSecret =>
        cases r with
        | ok found => exact List.mem_cons_of_mem _ hmem
        | error e => exact hmem
    | setValue key value =>
      cases key with
      | pairingCode => cases r <;> exact hmem
      | terminalJwtSecret =>
        cases r with
        | ok u => exact List.mem_cons_of_mem _ hmem
        | error e => exact hmem
    | _ => exact hmem
  | _ => exact hmem

theorem mem_learned_next (ha : Act s.world op r w') {secret : String}
    (hmem : secret ∈ learned (s.next i op r w').log) :
    secret ∈ learned s.log ∨ w'.kvStore .terminalJwtSecret = some secret := by
  cases i with
  | createJwt id terminalId =>
    cases op with
    | getValue key =>
      cases key with
      | pairingCode => cases r <;> exact .inl hmem
      | terminalJwtSecret =>
        cases r with
        | ok found =>
          obtain rfl | hmem := List.mem_cons.mp hmem
          · obtain ⟨hfound, rfl⟩ := ha.getValue_ok
            exact .inr hfound
          · exact .inl hmem
        | error e => exact .inl hmem
    | setValue key value =>
      cases key with
      | pairingCode => cases r <;> exact .inl hmem
      | terminalJwtSecret =>
        cases r with
        | ok u =>
          obtain rfl | hmem := List.mem_cons.mp hmem
          · right
            rw [ha.setValue_ok]
            rfl
          · exact .inl hmem
        | error e => exact .inl hmem
    | _ => exact .inl hmem
  | _ => exact .inl hmem

/-! ## Verification -/

/-- The transitions of a shard on which nothing fails. -/
def Undisturbed (w : World) (op : Op) (r : Answer op) (w' : World) : Prop :=
  w.effect op = some (r, w')

/-- `verify_terminal_jwt` accepts the token for this terminal, and changes nothing. -/
def Accepts (w : World) (authorization : Authorization jwt.Token) (terminal : Terminal) : Prop :=
  ∀ r w', Prog.Exec Undisturbed (verifyTerminalJwt jwt (some authorization)) w r w' ↔
    r = .ok terminal ∧ w' = w

theorem exec_ensureJwtSecret {w : World} {secret : String}
    (hsecret : w.kvStore .terminalJwtSecret = some secret) :
    Prog.Exec Undisturbed ensureJwtSecret w (.ok secret) w := by
  have hget : Undisturbed w (.getValue .terminalJwtSecret) (.ok secret) w := by
    rw [Undisturbed, World.effect, hsecret]
    rfl
  exact Prog.Exec.tryCatch (Prog.exec_perform.mpr hget)

theorem accepts {w : World} {secret : String} {payload : Payload} {terminal : Terminal}
    {authorization : Authorization jwt.Token}
    (hsecret : w.kvStore .terminalJwtSecret = some secret)
    (htoken : jwt.decode authorization.token secret = some payload)
    (hterminal : w.terminals payload.sub = some terminal) :
    Accepts w authorization terminal := by
  have hrow : Undisturbed w (.getTerminal payload.sub) (.ok (some terminal)) w := by
    rw [Undisturbed, World.effect, hterminal]
  have hrun : Prog.Exec Undisturbed (verifyTerminalJwt jwt (some authorization)) w (.ok terminal)
      w := by
    refine Prog.Exec.bind (exec_ensureJwtSecret hsecret) ?_
    rw [htoken]
    exact .await hrow (.ret _ _)
  intro r w'
  constructor
  · intro h
    have hunique := hrun.unique (fun _ _ _ _ _ _ h₁ h₂ => by
      simpa using (Option.some.inj (h₁.symm.trans h₂))) h
    exact ⟨hunique.1.symm, hunique.2.symm⟩
  · rintro ⟨rfl, rfl⟩
    exact hrun

theorem not_accepts {w : World} {secret : String} {terminal : Terminal}
    {authorization : Authorization jwt.Token}
    (hsecret : w.kvStore .terminalJwtSecret = some secret)
    (htoken : jwt.decode authorization.token secret = none) :
    ¬Accepts w authorization terminal := by
  have hrun : Prog.Exec Undisturbed (verifyTerminalJwt jwt (some authorization)) w
      (.error (.invalidJwt "")) w := by
    refine Prog.Exec.bind (exec_ensureJwtSecret hsecret) ?_
    rw [htoken]
    exact .raise _ _
  intro h
  cases ((h _ _).mp hrun).1

/-! ## The invariant -/

variable [DecidableEq jwt.Token]

abbrev secretPhase (i : Call jwt.Token) (s : State jwt) : SecretPhase :=
  Recorded.phaseOf (fun _ => secretProtocol) (fun _ => .idle) i s.log

structure Kept (s : State jwt) : Prop where
  stored : ∀ secret ∈ learned s.log, s.world.kvStore .terminalJwtSecret = some secret
  learnt : ∀ id terminalId secret, (secretPhase (.createJwt id terminalId) s).secret = some secret →
    secret ∈ learned s.log

theorem Kept.learnt_step (h : Kept s) (id : ℕ) (terminalId secret : String)
    (hl : (secretPhase (.createJwt id terminalId) (s.next i op r w')).secret = some secret) :
    secret ∈ learned (s.next i op r w').log := by
  have hkept : (secretPhase (.createJwt id terminalId) s).secret = some secret →
      secret ∈ learned (s.next i op r w').log :=
    fun hs => learned_subset (h.learnt id terminalId secret hs)
  by_cases hi : i = .createJwt id terminalId
  · subst hi
    rw [secretPhase, phaseOf_next_self] at hl
    cases op with
    | getValue key =>
      cases key with
      | pairingCode => cases r <;> exact hkept hl
      | terminalJwtSecret =>
        cases r with
        | ok found =>
          obtain rfl : found = secret := Option.some.inj hl
          exact List.mem_cons_self
        | error e => exact hkept hl
    | setValue key value =>
      cases key with
      | pairingCode => cases r <;> exact hkept hl
      | terminalJwtSecret =>
        cases r with
        | ok u =>
          obtain rfl : value = secret := Option.some.inj hl
          exact List.mem_cons_self
        | error e => exact hkept hl
    | now =>
      cases r with
      | ok time =>
        refine hkept ?_
        unfold secretPhase
        cases hphase : Recorded.phaseOf (fun _ => secretProtocol) (fun _ => .idle)
          (.createJwt id terminalId) s.log <;> rw [hphase] at hl <;> exact hl
      | error e => exact hkept hl
    | _ => exact hkept hl
  · rw [secretPhase, phaseOf_next_ne _ _ _ _ (Ne.symm hi)] at hl
    exact hkept hl

theorem Kept.step (h : Kept s) (hallowed : op ≠ .removeValue .terminalJwtSecret)
    (hC : keepsSecret s i op) (ha : Act s.world op r w') : Kept (s.next i op r w') where
  learnt := h.learnt_step
  stored secret hmem := by
    obtain hold | hnew := mem_learned_next ha hmem
    · obtain hsame | ⟨secret', rfl, hset⟩ | hremove := ha.jwtSecret
      · exact hsame.trans (h.stored secret hold)
      · obtain rfl : secret = secret' := hC secret hold
        exact hset
      · exact absurd hremove hallowed
    · exact hnew

/-- `create_terminal_jwt` has returned this token for this terminal. -/
def Returned (s : State jwt) (terminalId : String) (token : jwt.Token) : Prop :=
  ∃ id, Issues terminalId token (secretPhase (.createJwt id terminalId) s)

/-- What a creation that has ended has returned is one of the tokens returned. -/
theorem returned_of_outcome {settings : Settings} {C : Condition Op Ans Exn World (Call jwt.Token)}
    {w : World} {c : Config Op Ans Exn (State jwt) (Call jwt.Token)}
    (hrun : Recorded.Runs (fun _ => Act) C (Call.program jwt settings) w c) {id : ℕ}
    {terminalId : String} (hended : c.outcome (.createJwt id terminalId) = some (.ok ())) :
    ∃ token, Returned c.state terminalId token := by
  obtain ⟨token, hissues⟩ :=
    Recorded.Runs.post (conforms_secretProtocol settings) hrun hended id terminalId rfl rfl
  exact ⟨token, id, hissues⟩

/-- Every token returned so far is accepted, plain or after `Bearer `, if its terminal exists. -/
def TokensAccepted (s : State jwt) : Prop :=
  ∀ terminalId token terminal authorization, Returned s terminalId token →
    s.world.terminals terminalId = some terminal → authorization.token = token →
    Accepts s.world authorization terminal

theorem Kept.tokensAccepted (h : Kept s) : TokensAccepted s := by
  rintro terminalId _ terminal authorization ⟨id, secret, time, hphase, rfl⟩ hterminal hauth
  have hlearnt : secret ∈ learned s.log := by
    refine h.learnt id terminalId secret ?_
    rw [hphase]
    rfl
  have hdecode : jwt.decode authorization.token secret = some ⟨terminalId, time / 1000000⟩ := by
    rw [hauth, jwt.decode_encode, if_pos rfl]
  exact accepts (h.stored secret hlearnt) hdecode hterminal

/-! ## Main results -/

/-- If no secret that a creation has obtained is ever replaced, then in every state reached every
token returned so far is accepted as long as its terminal exists. -/
theorem tokens_accepted {jwt : PyJWT} [DecidableEq jwt.Token] (settings : Settings) (w : World)
    {c : Config Op Ans Exn (State jwt) (Call jwt.Token)}
    (h : Recorded.Runs (fun _ => Act) keepsSecret (Call.program jwt settings) w c) :
    TokensAccepted c.state := by
  have h₀ : Kept (⟨w, []⟩ : State jwt) := {
    stored := fun secret hmem => absurd hmem List.not_mem_nil
    learnt := fun id terminalId secret hl => by cases hl }
  have hinv : Kept c.state := h.invariant (conforms_secretProtocol settings) h₀
    fun i s op r w' hallowed hs hC ha => hs.step hallowed hC ha
  exact hinv.tokensAccepted

/-- A first token, created on a shard without a secret. -/
theorem tokens_accepted_run : ∃ c, Recorded.Runs (fun _ => Act) keepsSecret
    (Call.program PyJWT.symbolic {}) World.fresh c ∧
    (∃ token, Returned c.state "phone" token) ∧ TokensAccepted c.state := by
  obtain ⟨c, hrun, hc, -⟩ := exists_run keepsSecret World.fresh
    (Turn.call (Call.createJwt 0 "phone") [Choice.proceed, .draws "first", .proceed, .proceed])
    (fun c => c.endedIn (.createJwt 0 "phone") (.ok ())) (by decide)
  have hended := Config.outcome_of_endedIn hc
  exact ⟨c, hrun, returned_of_outcome hrun hended, tokens_accepted {} World.fresh hrun⟩

/-- Two terminals are paired at the same time, and the second secret replaces the first. -/
theorem token_rejected : ∃ c, Recorded.Runs (fun _ => Act) anyway
    (Call.program PyJWT.symbolic {}) World.fresh c ∧ c.Quiescent ∧ ¬TokensAccepted c.state := by
  obtain ⟨c, hrun, hc, hq⟩ := exists_run anyway World.fresh
    (Turn.call (Call.insertTerminal 0 ⟨"phone", "T1"⟩) [Choice.proceed] ++
      [Turn.start (.createJwt 0 "phone"), .start (.createJwt 1 "laptop"),
        .fire (.createJwt 0 "phone") .proceed, .fire (.createJwt 1 "laptop") .proceed,
        .fire (.createJwt 0 "phone") (.draws "first"), .fire (.createJwt 0 "phone") .proceed,
        .fire (.createJwt 0 "phone") .proceed,
        .fire (.createJwt 1 "laptop") (.draws "second"), .fire (.createJwt 1 "laptop") .proceed,
        .fire (.createJwt 1 "laptop") .proceed])
    (fun c => c.ended (.insertTerminal 0 ⟨"phone", "T1"⟩) && c.ended (.createJwt 0 "phone") &&
      c.ended (.createJwt 1 "laptop") &&
      secretPhase (.createJwt 0 "phone") c.state == .issued "first" 0 &&
      c.state.world.kvStore .terminalJwtSecret == some "second" &&
      c.state.world.terminals "phone" == some ⟨"phone", "T1"⟩) (by decide)
  simp only [Bool.and_eq_true, beq_iff_eq] at hc
  obtain ⟨⟨⟨⟨⟨hinsert, hfirst⟩, hsecond⟩, hphase⟩, hsecret⟩, hterminal⟩ := hc
  refine ⟨c, hrun, hq ?_, fun h => ?_⟩
  · simp [Turn.call, Turn.name, hinsert, hfirst, hsecond]
  · have haccepts := h "phone" _ _ (.plain _) ⟨0, "first", 0, hphase, rfl⟩ hterminal rfl
    have hdecode : PyJWT.symbolic.decode (⟨"phone", 0⟩, "first") "second" = none := rfl
    exact not_accepts hsecret hdecode haccepts

end Freeshard.Pairing
