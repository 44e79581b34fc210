import Freeshard.Pairing.JwtSecret

/-! # Tokens of terminals that are gone

A token says for which terminal it is, and `verify_terminal_jwt` looks the terminal up. So deleting a terminal revokes
every token that was ever made for it, under whatever secret, although a token itself is never stored. -/

namespace Freeshard.Pairing
open Coroutine Coroutine.Recorded
set_option autoImplicit false

variable {jwt : PyJWT}

/-! ## What a verification has read -/

inductive VerifyPhase where
  | idle
  | knows (secret : String)
  /-- The table has the terminal. -/
  | found (terminalId : String)
  deriving DecidableEq

def VerifyPhase.after (l : VerifyPhase) (op : Op) (r : Answer op) : VerifyPhase :=
  match op, r with
  | .getValue .terminalJwtSecret, .ok secret => .knows secret
  | .setValue .terminalJwtSecret secret, .ok _ => .knows secret
  | .getTerminal terminalId, .ok (some _) => .found terminalId
  | _, _ => l

def verifyProtocol : Protocol Op Ans Exn VerifyPhase where
  allows _ _ := True
  after := VerifyPhase.after

/-- A verification that returns has found the terminal of the token. -/
def Verified (i : Call jwt.Token) (r : Except Exn Unit) (l : VerifyPhase) : Prop :=
  ∀ id authorization, i = .verifyJwt id (some authorization) → r = .ok () →
    ∃ secret payload, jwt.decode authorization.token secret = some payload ∧ l = .found payload.sub

theorem conforms_verifyTerminalJwt (authorization : Authorization jwt.Token) :
    (verifyTerminalJwt jwt (some authorization)).Conforms verifyProtocol .idle fun r l =>
      ∀ terminal, r = .ok terminal →
        ∃ secret payload, jwt.decode authorization.token secret = some payload ∧ l = .found payload.sub := by
  have hsecret : ensureJwtSecret.Conforms verifyProtocol .idle fun _ _ => True := by
    exact Prog.Conforms.of_uses (I := fun _ => True) (Prog.uses_true _)
      (fun _ _ _ _ => ⟨trivial, fun _ => trivial⟩) trivial
  refine hsecret.bind (fun secret l _ => ?_) fun _ _ _ _ h => by cases h
  cases hdecode : jwt.decode authorization.token secret with
  | none => exact fun _ h => by cases h
  | some payload =>
    refine Prog.Conforms.perform_bind trivial (fun found => ?_) fun _ _ h => by cases h
    cases found with
    | none => exact fun _ h => by cases h
    | some terminal => exact fun _ _ => ⟨secret, payload, hdecode, rfl⟩

theorem conforms_verifyProtocol (settings : Settings) (i : Call jwt.Token) :
    (i.program jwt settings).Conforms verifyProtocol .idle (Verified i) := by
  have hany : ∀ {p : Coro Unit}, p.Conforms verifyProtocol .idle fun _ _ => True := fun {p} =>
    Prog.Conforms.of_uses (I := fun _ => True) (Prog.uses_true p)
      (fun _ _ _ _ => ⟨trivial, fun _ => trivial⟩) trivial
  cases i with
  | verifyJwt id authorization =>
    cases authorization with
    | none => exact hany.mono fun r l _ id' authorization' heq => by cases heq
    | some authorization =>
      refine (conforms_verifyTerminalJwt authorization).bind (fun terminal l hl => ?_) fun _ _ _ _ _ _ h => by cases h
      rintro _ _ ⟨⟩ -
      exact hl terminal rfl
  | _ => exact hany.mono fun r l _ id' authorization' heq => by cases heq

/-! ## Terminals that are gone -/

/-- The terminal that an operation has found. -/
def readTerminal (e : Entry Op Ans Exn World (Call jwt.Token)) : Option String :=
  match e with
  | ⟨_, .getTerminal terminalId, .ok (some _), _⟩ => some terminalId
  | _ => none

/-- The terminal has been removed and not been added again. -/
def Gone (terminalId : String) : Log jwt → Prop
  | [] => False
  | e :: log => e.op = .removeTerminal terminalId ∨
      (∀ terminal, e.op = .insertTerminal terminal → terminal.id ≠ terminalId) ∧ Gone terminalId log

theorem gone_append {terminalId : String} {later log : Log jwt} (h : Gone terminalId log)
    (hadded : ∀ e ∈ later, ∀ terminal, e.op = .insertTerminal terminal → terminal.id ≠ terminalId) :
    Gone terminalId (later ++ log) := by
  induction later with
  | nil => exact h
  | cons e later ih =>
    exact .inr ⟨hadded e List.mem_cons_self, ih fun e' he' => hadded e' (List.mem_cons_of_mem _ he')⟩

variable {w w' : World} {op : Op} {r : Answer op} {terminalId : String} {s : State jwt} {i : Call jwt.Token}

theorem Act.removeTerminal {r : Answer (.removeTerminal terminalId)} (h : Act w (.removeTerminal terminalId) r w') :
    w'.terminals terminalId = none := by
  obtain ⟨choice, h⟩ := h
  cases choice with
  | proceed =>
    cases h
    exact Function.update_self ..
  | raise e | proceedRaise e => simp [World.exec, Op.awaited] at h
  | draws text => cases h

theorem Act.terminals (h : Act w op r w') (terminalId : String) : w'.terminals terminalId = w.terminals terminalId ∨
    op = .removeTerminal terminalId ∨ ∃ terminal, op = .insertTerminal terminal ∧ terminal.id = terminalId := by
  obtain rfl | ⟨r', h⟩ := h.cases
  · exact .inl rfl
  cases op with
  | insertTerminal terminal =>
    cases h
    by_cases hid : terminalId = terminal.id
    · exact .inr (.inr ⟨terminal, rfl, hid.symm⟩)
    · exact .inl (Function.update_of_ne hid _ _)
  | removeTerminal id =>
    cases h
    by_cases hid : terminalId = id
    · exact .inr (.inl (hid ▸ rfl))
    · exact .inl (Function.update_of_ne hid _ _)
  | setValue key value =>
    cases h
    cases key <;> exact .inl rfl
  | elapse duration =>
    simp only [World.effect] at h
    split at h
    · cases h
      exact .inl rfl
    · cases h
  | randomDigits | tokenUrlsafe => cases h
  | getValue key | removeValue key | getTerminal id | now =>
    cases h
    exact .inl rfl

theorem Act.getTerminal {terminal : Terminal} (h : Act w (.getTerminal terminalId) (.ok (some terminal)) w') :
    w.terminals terminalId = some terminal := by
  obtain ⟨choice, h⟩ := h
  cases choice with
  | proceed => exact Except.ok.inj (Prod.mk.inj (Option.some.inj h)).1
  | raise e | proceedRaise e => simp [World.exec, Op.awaited, World.effect] at h
  | draws text => cases h

/-! ## Runs -/

/-- No operation has found a terminal that was gone. -/
def FoundPresent (e : Entry Op Ans Exn World (Call jwt.Token)) (log : Log jwt) : Prop :=
  ∀ terminalId, readTerminal e = some terminalId → ¬ Gone terminalId log

structure Present (s : State jwt) : Prop where
  gone : ∀ terminalId, Gone terminalId s.log → s.world.terminals terminalId = none
  found : Throughout FoundPresent s.log

/-- The step lemma. -/
theorem Present.step (h : Present s) (ha : Act s.world op r w') : Present (s.next i op r w') := by
  refine ⟨fun terminalId hgone => ?_, ⟨fun terminalId hread hgone => ?_, h.found⟩⟩
  · rw [next_world]
    by_cases hremove : op = .removeTerminal terminalId
    · subst hremove
      exact ha.removeTerminal
    · obtain hnow | ⟨hadded, hbefore⟩ := hgone
      · exact absurd hnow hremove
      · obtain hsame | hremoved | ⟨terminal, hinsert, hid⟩ := ha.terminals terminalId
        · rw [hsame]
          exact h.gone terminalId hbefore
        · exact absurd hremoved hremove
        · exact absurd hid (hadded terminal hinsert)
  · unfold readTerminal at hread
    split at hread
    · next caller id terminal before heq =>
      cases heq
      obtain rfl := Option.some.inj hread
      have hfound := ha.getTerminal
      rw [h.gone id hgone] at hfound
      cases hfound
    · cases hread

/-- A verification in this phase has read the terminal. -/
theorem read_of_phase [DecidableEq jwt.Token] {log : Log jwt}
    (h : phaseOf (fun _ => verifyProtocol) (fun _ => .idle) i log = .found terminalId) :
    ∃ e ∈ log, e.caller = i ∧ readTerminal e = some terminalId := by
  induction log with
  | nil => cases h
  | cons e log ih =>
    have hbefore : phaseOf (fun _ => verifyProtocol) (fun _ => VerifyPhase.idle) i log = .found terminalId →
        ∃ e' ∈ e :: log, e'.caller = i ∧ readTerminal e' = some terminalId := fun hlog => by
      obtain ⟨e', he', hread⟩ := ih hlog
      exact ⟨e', List.mem_cons_of_mem _ he', hread⟩
    rw [phaseOf] at h
    split at h
    · next hcaller =>
      obtain ⟨caller, op, r, before⟩ := e
      change VerifyPhase.after _ op r = _ at h
      unfold VerifyPhase.after at h
      split at h
      · cases h
      · cases h
      · obtain rfl := VerifyPhase.found.inj h
        exact ⟨_, List.mem_cons_self, hcaller, rfl⟩
      · exact hbefore h
    · exact hbefore h

/-! ## Main result -/

/-- Once a terminal has been removed, and as long as none with its id is added again, no verification that had not read
the table by then accepts a token for it, however the calls are interleaved. -/
theorem tokens_revoked [DecidableEq jwt.Token] {settings : Settings} {C : Condition Op Ans Exn World (Call jwt.Token)}
    {c : Config Op Ans Exn (State jwt) (Call jwt.Token)}
    (hrun : Recorded.Runs (fun _ => Act) C (Call.program jwt settings) w c) {later earlier : Log jwt}
    {e : Entry Op Ans Exn World (Call jwt.Token)} (hlog : c.state.log = later ++ e :: earlier)
    (hremoved : e.op = .removeTerminal terminalId)
    (hadded : ∀ e' ∈ later, ∀ terminal, e'.op = .insertTerminal terminal → terminal.id ≠ terminalId)
    {id : ℕ} {authorization : Authorization jwt.Token} {secret : String} {time : ℤ}
    (htoken : authorization.token = jwt.encode ⟨terminalId, time⟩ secret)
    (hlater : ∀ e' ∈ earlier, e'.caller = .verifyJwt id (some authorization) → readTerminal e' = none) :
    c.outcome (.verifyJwt id (some authorization)) ≠ some (.ok ()) := by
  intro hreturned
  have hpresent : Present c.state := by
    refine Recorded.Runs.invariant (conforms_verifyProtocol settings) ?_ ?_ hrun
    · exact ⟨fun _ h => (by cases h), trivial⟩
    · exact fun i s op r w' _ hs _ ha => hs.step ha
  obtain ⟨secret', payload, hdecode, hphase⟩ :=
    Recorded.Runs.post (conforms_verifyProtocol settings) hrun hreturned id authorization rfl rfl
  rw [htoken, jwt.decode_encode] at hdecode
  split at hdecode
  · obtain rfl := Option.some.inj hdecode
    obtain ⟨e', he', hcaller, hread⟩ := read_of_phase hphase
    rw [hlog] at he'
    obtain hmem | hmem := List.mem_append.mp he'
    · obtain ⟨newer, older, rfl⟩ := List.append_of_mem hmem
      have hfound := hpresent.found
      rw [hlog, List.append_assoc, List.cons_append] at hfound
      refine hfound.of_append terminalId hread (gone_append (.inl hremoved) fun e'' he'' => ?_)
      exact hadded e'' (List.mem_append_right _ (List.mem_cons_of_mem _ he''))
    · obtain rfl | hmem := List.mem_cons.mp hmem
      · unfold readTerminal at hread
        split at hread
        · cases hremoved
        · cases hread
      · rw [hlater e' hmem hcaller] at hread
        cases hread
  · cases hdecode

/-- A phone is paired and removed, and then uses its token. -/
def removalTurns : List (Turn (Call PyJWT.symbolic.Token) Choice) :=
  Turn.call (Call.insertTerminal 0 ⟨"phone", "T1"⟩) [Choice.proceed] ++
  Turn.call (Call.createJwt 0 "phone") [Choice.proceed, .draws "secret", .proceed, .proceed] ++
  Turn.call (Call.removeTerminal 0 "phone") [Choice.proceed] ++
  Turn.call (Call.verifyJwt 0 (some (.bearer (⟨"phone", 0⟩, "secret")))) [Choice.proceed, .proceed]

/-- A token is checked, and its terminal looked for, after the removal of the terminal. -/
def checksRemoved (log : Log PyJWT.symbolic) : Bool :=
  match log with
  | ⟨_, .getTerminal _, _, _⟩ :: ⟨_, .getValue _, _, _⟩ :: ⟨_, .removeTerminal id, _, _⟩ :: earlier =>
    id == "phone" && earlier.all fun e => (readTerminal e).isNone
  | _ => false

theorem tokens_revoked_run : ∃ c, Recorded.Runs (fun _ => Act) anyway (Call.program PyJWT.symbolic {}) World.fresh c ∧
    secretPhase (.createJwt 0 "phone") c.state = .issued "secret" 0 ∧
    c.outcome (.verifyJwt 0 (some (.bearer (⟨"phone", 0⟩, "secret")))) ≠ some (.ok ()) := by
  obtain ⟨c, hrun, hF, -⟩ := exists_run anyway World.fresh removalTurns
    (fun c => secretPhase (.createJwt 0 "phone") c.state == .issued "secret" 0 && checksRemoved c.state.log)
    (by decide +kernel)
  obtain ⟨hissued, hF⟩ := Bool.and_eq_true_iff.mp hF
  refine ⟨c, hrun, eq_of_beq hissued, ?_⟩
  unfold checksRemoved at hF
  split at hF
  · next caller₂ sub r₂ before₂ caller₁ key r₁ before₁ caller id r before earlier hlog =>
    obtain ⟨hid, hearlier⟩ := Bool.and_eq_true_iff.mp hF
    obtain rfl := eq_of_beq hid
    have hsplit : c.state.log = [⟨caller₂, .getTerminal sub, r₂, before₂⟩, ⟨caller₁, .getValue key, r₁, before₁⟩] ++
        ⟨caller, .removeTerminal "phone", r, before⟩ :: earlier := hlog
    refine tokens_revoked hrun hsplit rfl ?_ rfl fun e he _ => ?_
    · intro e he terminal hinsert
      obtain rfl | he := List.mem_cons.mp he
      · cases hinsert
      · obtain rfl := List.mem_singleton.mp he
        cases hinsert
    · exact Option.isNone_iff_eq_none.mp (List.all_eq_true.mp hearlier e he)
  · cases hF

end Freeshard.Pairing
