import Freeshard.Service.Pairing

/-! # Pairing codes are redeemed once

A redemption reads the stored code, checks it, and deletes whatever is stored by then, in two
transactions. Two redemptions that read the same code both succeed, and a code that was issued in
between is deleted unseen. If every deletion finds the code that was read, and finds it in time, no
code is redeemed twice, late, or in place of a newer one. -/

namespace Freeshard.Pairing
open Coroutine Coroutine.Recorded
set_option autoImplicit false

/-! ## What the operations do to the stored code -/

/-- Only `make_pairing_code` stores a code and only `redeem_pairing_code` deletes one. -/
theorem Act.pairingCode {w w' : World} {op : Op} {r : Answer op} (h : Act w op r w') :
    (w'.kvStore .pairingCode = w.kvStore .pairingCode ∧ w'.issued = w.issued) ∨
      (∃ code, op = .setValue .pairingCode code ∧ w'.kvStore .pairingCode = some code ∧
        w'.issued = code :: w.issued) ∨
      (op = .removeValue .pairingCode ∧ w'.kvStore .pairingCode = none ∧
        w'.issued = w.issued) := by
  obtain rfl | ⟨r', h⟩ := h.cases
  · exact .inl ⟨rfl, rfl⟩
  cases op with
  | setValue key value =>
    obtain ⟨-, rfl⟩ : _ ∧ w.setValue key value = w' := by simpa [World.effect] using h
    cases key with
    | pairingCode => exact .inr (.inl ⟨value, rfl, rfl, rfl⟩)
    | terminalJwtSecret => exact .inl ⟨rfl, rfl⟩
  | removeValue key =>
    obtain ⟨-, rfl⟩ : _ ∧ w.removeValue key = w' := by simpa [World.effect] using h
    cases key with
    | pairingCode => exact .inr (.inr ⟨rfl, rfl, rfl⟩)
    | terminalJwtSecret => exact .inl ⟨rfl, rfl⟩
  | elapse duration =>
    simp only [World.effect] at h
    split at h
    · cases h
      exact .inl ⟨rfl, rfl⟩
    · cases h
  | randomDigits => cases h
  | tokenUrlsafe => cases h
  | _ =>
    cases h
    exact .inl ⟨rfl, rfl⟩

/-! ## The course of a redemption -/

section Redemption
variable {jwt : PyJWT}

/-- How far a redemption has come. -/
inductive RedeemPhase where
  | idle
  | read (code : PairingCode)
  | checked (code : PairingCode) (time : ℤ)
  deriving DecidableEq

/-- The code it has read. -/
def RedeemPhase.code : RedeemPhase → Option PairingCode
  | .idle => none
  | .read code => some code
  | .checked code _ => some code

/-- A code is deleted only by a call that was given it and has found it valid. -/
def redeemProtocol (i : Call jwt.Token) : Protocol Op Ans Exn RedeemPhase where
  allows l op :=
    match op with
    | .removeValue .pairingCode => ∃ id code time, i = .redeemCode id code.code ∧
        l = .checked code time ∧ time ≤ code.validUntil
    | _ => True
  after l op r :=
    match op, r with
    | .getValue .pairingCode, .ok code => .read code
    | .now, .ok time =>
      match l with
      | .read code => .checked code time
      | l => l
    | _, _ => l

theorem conforms_redeemPairingCode (id : ℕ) (incomingCode : String) :
    (redeemPairingCode incomingCode).Conforms
      (redeemProtocol (.redeemCode id incomingCode : Call jwt.Token)) .idle fun _ _ => True := by
  refine Prog.Conforms.bind (R := fun r l => ∀ code, r = .ok code → l = .read code) ?_
    (fun code l hl => ?_) fun _ _ _ => trivial
  · refine Prog.Conforms.tryCatch (R := fun r l => ∀ code, r = .ok code → l = .read code) ?_
      (fun code l h => h) fun e l _ => ?_
    · refine Prog.Conforms.perform trivial fun r => ?_
      rintro code rfl
      rfl
    · cases e <;> exact fun _ h => by cases h
  obtain rfl := hl code rfl
  by_cases hcode : code.code = incomingCode
  · subst hcode
    rw [if_neg (not_not.mpr rfl)]
    refine Prog.Conforms.bind (R := fun r l => ∀ time, r = .ok time → l = .checked code time)
      (Prog.Conforms.perform trivial fun r => ?_) (fun time l hl => ?_) fun _ _ _ => trivial
    · rintro time rfl
      rfl
    · obtain rfl := hl time rfl
      by_cases htime : time > code.validUntil
      · rw [if_pos htime]
        trivial
      · rw [if_neg htime]
        refine Prog.Conforms.bind (R := fun _ _ => True) (Prog.Conforms.perform ?_ fun _ => trivial)
          (fun _ _ _ => trivial) fun _ _ _ => trivial
        exact ⟨id, code, time, rfl, rfl, not_lt.mp htime⟩
  · rw [if_pos hcode]
    trivial

theorem conforms_redeemProtocol (settings : Settings) (i : Call jwt.Token) :
    (i.program jwt settings).Conforms (redeemProtocol i) .idle fun _ _ => True := by
  have hothers : (∀ op, i.uses op → op ≠ .removeValue .pairingCode) →
      (i.program jwt settings).Conforms (redeemProtocol i) .idle fun _ _ => True := by
    refine fun hkeeps => Prog.Conforms.of_uses (I := fun _ => True) (uses_program settings i)
      (fun op hop l _ => ⟨?_, fun _ => trivial⟩) trivial
    cases op with
    | removeValue key =>
      cases key with
      | pairingCode => exact absurd rfl (hkeeps _ hop)
      | terminalJwtSecret => trivial
    | _ => trivial
  cases i with
  | redeemCode id incomingCode => exact conforms_redeemPairingCode id incomingCode
  | _ =>
    refine hothers ?_
    rintro op hop rfl
    cases hop

/-! ## Redemptions in the log -/

variable [DecidableEq jwt.Token]

/-- The codes issued when call `i` last read one, latest first; the latest is the one it read. -/
def readOf (i : Call jwt.Token) : Log jwt → Option (List PairingCode)
  | [] => none
  | ⟨j, .getValue .pairingCode, .ok _, before⟩ :: log =>
    if j = i then some before.issued else readOf i log
  | _ :: log => readOf i log

/-- A redemption that succeeded. -/
structure Redemption where
  incomingCode : String
  /-- The codes issued when the redeemed one was read. -/
  read : Option (List PairingCode)
  /-- The codes issued when the stored one was deleted. -/
  issued : List PairingCode
  /-- When it was deleted. -/
  clock : ℤ
  deriving DecidableEq

def redemptions : Log jwt → List Redemption
  | [] => []
  | ⟨.redeemCode id incomingCode, .removeValue .pairingCode, .ok _, before⟩ :: log =>
    ⟨incomingCode, readOf (.redeemCode id incomingCode) log, before.issued, before.clock⟩ ::
      redemptions log
  | _ :: log => redemptions log

/-- The redeemed code is the incoming one, is still the one issued last, and has not run out. -/
def Redemption.Valid (r : Redemption) : Prop :=
  ∃ code older, r.read = some r.issued ∧ r.issued = code :: older ∧ code.code = r.incomingCode ∧
    r.clock < code.validUntil

/-- Every issued code is redeemed at most once, while it is the one issued last and valid. -/
structure OneTime (s : State jwt) : Prop where
  once : ((redemptions s.log).map (·.read)).Nodup
  valid : ∀ r ∈ redemptions s.log, r.Valid

/-- A redemption deletes the very code that it has read, and in time. -/
def undisturbed : Condition Op Ans Exn World (Call jwt.Token) := fun s i op =>
  match i, op with
  | .redeemCode _ _, .removeValue .pairingCode =>
    (s.world.kvStore .pairingCode).isSome = true ∧ readOf i s.log = some s.world.issued ∧
      s.world.issued.head?.all (fun code => decide (s.world.clock < code.validUntil)) = true
  | _, _ => True

instance (s : State jwt) (i : Call jwt.Token) (op : Op) : Decidable (undisturbed s i op) := by
  unfold undisturbed
  split <;> infer_instance

/-! ## The invariant -/

structure Consistent (s : State jwt) : Prop where
  stored : ∀ code, s.world.kvStore .pairingCode = some code → s.world.issued.head? = some code
  reading : ∀ i code, (Recorded.phaseOf redeemProtocol (fun _ => .idle) i s.log).code = some code →
    ∃ read, readOf i s.log = some read ∧ read.head? = some code
  oneTime : OneTime s
  older : ∀ r ∈ redemptions s.log, r.issued.length ≤ s.world.issued.length
  /-- The stored code has not been redeemed. -/
  unspent : (s.world.kvStore .pairingCode).isSome = true →
    ∀ r ∈ redemptions s.log, r.issued.length < s.world.issued.length

variable {s : State jwt} {i : Call jwt.Token} {op : Op} {r : Answer op} {w' : World}

theorem readOf_next_ne {j : Call jwt.Token} (h : i ≠ j) :
    readOf j (s.next i op r w').log = readOf j s.log := by
  cases op with
  | getValue key =>
    cases key with
    | pairingCode =>
      cases r with
      | ok code => exact if_neg h
      | error e => rfl
    | terminalJwtSecret => cases r <;> rfl
  | _ => rfl

theorem redemptions_next (h : op ≠ .removeValue .pairingCode) :
    redemptions (s.next i op r w').log = redemptions s.log := by
  cases op with
  | removeValue key =>
    cases key with
    | pairingCode => exact absurd rfl h
    | terminalJwtSecret => cases i <;> rfl
  | _ => cases i <;> rfl

theorem Consistent.reading_step (h : Consistent s) (ha : Act s.world op r w')
    (j : Call jwt.Token) (code : PairingCode)
    (hl : (Recorded.phaseOf redeemProtocol (fun _ => .idle) j (s.next i op r w').log).code = some code) :
    ∃ read, readOf j (s.next i op r w').log = some read ∧ read.head? = some code := by
  by_cases hj : i = j
  · subst hj
    rw [phaseOf_next_self] at hl
    have hkept : (Recorded.phaseOf redeemProtocol (fun _ => .idle) i s.log).code = some code →
        readOf i (s.next i op r w').log = readOf i s.log →
        ∃ read, readOf i (s.next i op r w').log = some read ∧ read.head? = some code := by
      intro hcode hread
      rw [hread]
      exact h.reading i code hcode
    cases op with
    | getValue key =>
      cases key with
      | pairingCode =>
        cases r with
        | ok found =>
          obtain rfl : found = code := Option.some.inj hl
          exact ⟨s.world.issued, if_pos rfl, h.stored _ ha.getValue_ok.1⟩
        | error e => exact hkept hl rfl
      | terminalJwtSecret => cases r <;> exact hkept hl rfl
    | now =>
      cases r with
      | ok time =>
        refine hkept ?_ rfl
        cases hphase : Recorded.phaseOf redeemProtocol (fun _ => .idle) i s.log <;> rw [hphase] at hl <;>
          exact hl
      | error e => exact hkept hl rfl
    | _ => exact hkept hl rfl
  · rw [phaseOf_next_ne _ _ _ _ (Ne.symm hj)] at hl
    rw [readOf_next_ne hj]
    exact h.reading j code hl

theorem Consistent.remove_step (h : Consistent s) (r : Answer (.removeValue .pairingCode))
    (w' : World)
    (hallowed : (redeemProtocol i).allows (Recorded.phaseOf redeemProtocol (fun _ => .idle) i s.log)
      (.removeValue .pairingCode))
    (hC : undisturbed s i (.removeValue .pairingCode)) :
    (redemptions (s.next i (.removeValue .pairingCode) r w').log = redemptions s.log) ∨
      ∃ new, redemptions (s.next i (.removeValue .pairingCode) r w').log =
        new :: redemptions s.log ∧ new.Valid ∧ new.issued = s.world.issued ∧
        ∀ old ∈ redemptions s.log, old.read ≠ new.read := by
  obtain ⟨id, code, time, rfl, hphase, -⟩ := hallowed
  cases r with
  | error e => exact .inl rfl
  | ok deleted =>
    refine .inr ⟨⟨code.code, _, _, _⟩, rfl, ?_, rfl, ?_⟩
    · obtain ⟨-, hread, hclock⟩ := hC
      obtain ⟨read, hread', hhead⟩ := h.reading _ code (by rw [hphase]; rfl)
      obtain rfl : s.world.issued = read := Option.some.inj (hread.symm.trans hread')
      cases hissued : s.world.issued with
      | nil =>
        rw [hissued] at hhead
        cases hhead
      | cons head older =>
        rw [hissued] at hhead hclock
        obtain rfl : head = code := Option.some.inj hhead
        refine ⟨head, older, ?_, rfl, rfl, by simpa using hclock⟩
        rw [← hissued]
        exact hread
    · intro old hold hsame
      obtain ⟨hstored, hread, -⟩ := hC
      obtain ⟨_, _, hold', -⟩ := h.oneTime.valid old hold
      have hlt := h.unspent hstored old hold
      have hissued : old.issued = s.world.issued :=
        Option.some.inj (hold'.symm.trans (hsame.trans hread))
      rw [hissued] at hlt
      exact lt_irrefl _ hlt

theorem Consistent.step (h : Consistent s)
    (hallowed : (redeemProtocol i).allows (Recorded.phaseOf redeemProtocol (fun _ => .idle) i s.log) op)
    (hC : undisturbed s i op) (ha : Act s.world op r w') : Consistent (s.next i op r w') := by
  have hreading := h.reading_step (i := i) ha
  obtain ⟨hkv, hissued⟩ | ⟨code, rfl, hkv, hissued⟩ | ⟨rfl, hkv, hissued⟩ := ha.pairingCode
  · -- nothing was stored or deleted, so nothing was redeemed either
    have hsame : redemptions (s.next i op r w').log = redemptions s.log := by
      by_cases hop : op = .removeValue .pairingCode
      · subst hop
        cases r with
        | error e => cases i <;> rfl
        | ok found =>
          have hnone : w'.kvStore .pairingCode = none := by
            rw [ha.removeValue_ok]
            rfl
          obtain ⟨_, _, _, rfl, -⟩ := hallowed
          have hstored := hC.1
          rw [← hkv, hnone] at hstored
          cases hstored
      · exact redemptions_next hop
    refine ⟨?_, hreading, ⟨hsame ▸ h.oneTime.once, hsame ▸ h.oneTime.valid⟩, ?_, ?_⟩
    · rw [next_world, hkv, hissued]
      exact h.stored
    · rw [hsame, next_world, hissued]
      exact h.older
    · rw [hsame, next_world, hkv, hissued]
      exact h.unspent
  · have hsame : redemptions (s.next i (.setValue .pairingCode code) r w').log =
        redemptions s.log := redemptions_next nofun
    refine ⟨?_, hreading, ⟨hsame ▸ h.oneTime.once, hsame ▸ h.oneTime.valid⟩, ?_, ?_⟩
    · intro code' hcode'
      rw [next_world, hkv] at hcode'
      rw [next_world, hissued]
      exact hcode'
    · intro old hold
      rw [hsame] at hold
      rw [next_world, hissued, List.length_cons]
      exact (h.older old hold).trans (Nat.le_succ _)
    · intro _ old hold
      rw [hsame] at hold
      rw [next_world, hissued, List.length_cons]
      exact Nat.lt_succ_of_le (h.older old hold)
  · have hstored : ∀ code, w'.kvStore .pairingCode = some code → w'.issued.head? = some code := by
      intro code hcode
      rw [hkv] at hcode
      cases hcode
    have hunspent : (w'.kvStore .pairingCode).isSome = true →
        ∀ r' ∈ redemptions (s.next i (.removeValue .pairingCode) r w').log,
          r'.issued.length < w'.issued.length := by
      intro hsome
      rw [hkv] at hsome
      cases hsome
    obtain hsame | ⟨new, hnew, hvalid, hlatest, hfresh⟩ := h.remove_step r w' hallowed hC
    · refine ⟨hstored, hreading, ⟨hsame ▸ h.oneTime.once, hsame ▸ h.oneTime.valid⟩, ?_, hunspent⟩
      rw [hsame, next_world, hissued]
      exact h.older
    · refine ⟨hstored, hreading, ⟨?_, ?_⟩, ?_, hunspent⟩
      · rw [hnew, List.map_cons, List.nodup_cons]
        refine ⟨fun hmem => ?_, h.oneTime.once⟩
        obtain ⟨old, hold, hread⟩ := List.mem_map.mp hmem
        exact hfresh old hold hread
      · rw [hnew]
        exact List.forall_mem_cons.mpr ⟨hvalid, h.oneTime.valid⟩
      · rw [hnew, next_world, hissued]
        exact List.forall_mem_cons.mpr ⟨hlatest ▸ le_rfl, h.older⟩

theorem consistent_start (kvStore : (key : StoreKey) → Option key.Value)
    (terminals : String → Option Terminal) (clock : ℤ) :
    Consistent (⟨World.start kvStore terminals clock, []⟩ : State jwt) where
  stored code hcode := by
    rw [World.start, show kvStore .pairingCode = some code from hcode]
    rfl
  reading i code hcode := by cases hcode
  oneTime := ⟨List.nodup_nil, fun _ h => by cases h⟩
  older _ h := by cases h
  unspent _ _ h := by cases h

end Redemption

/-! ## Main results -/

/-- If every deletion finds the code that was read and finds it in time, then in every state
reached every issued code has been redeemed at most once, as the one issued last, and in time. -/
theorem redeemed_once {jwt : PyJWT} [DecidableEq jwt.Token] (settings : Settings)
    (kvStore : (key : StoreKey) → Option key.Value) (terminals : String → Option Terminal) (clock : ℤ)
    {c : Config Op Ans Exn (State jwt) (Call jwt.Token)}
    (h : Recorded.Runs (fun _ => Act) undisturbed (Call.program jwt settings)
      (World.start kvStore terminals clock) c) : OneTime c.state := by
  have hinv : Consistent c.state := h.invariant (conforms_redeemProtocol settings)
    (consistent_start kvStore terminals clock) fun i s op r w' hallowed hs hC ha =>
      hs.step hallowed hC ha
  exact hinv.oneTime

/-- A code that is issued and redeemed. -/
theorem redeemed_once_run : ∃ c, Recorded.Runs (fun _ => Act) undisturbed
    (Call.program PyJWT.symbolic {}) (World.start (fun _ => none) (fun _ => none) 0) c ∧
    (redemptions c.state.log).length = 1 ∧ OneTime c.state := by
  obtain ⟨c, hrun, hc, -⟩ := exists_run undisturbed (World.start (fun _ => none) (fun _ => none) 0)
    (Turn.call (Call.makeCode 0 none) [Choice.proceed, .draws "123456", .proceed] ++
      Turn.call (Call.redeemCode 0 "123456") [Choice.proceed, .proceed, .proceed])
    (fun c => (redemptions c.state.log).length == 1) (by decide)
  exact ⟨c, hrun, by simpa using hc, redeemed_once {} (fun _ => none) (fun _ => none) 0 hrun⟩

/-- One code is issued, read by two redemptions, and redeemed by both. -/
theorem redeemed_twice : ∃ c, Recorded.Runs (fun _ => Act) anyway
    (Call.program PyJWT.symbolic {}) World.fresh c ∧ ¬OneTime c.state := by
  obtain ⟨c, hrun, hc, -⟩ := exists_run anyway World.fresh
    (Turn.call (Call.makeCode 0 none) [Choice.proceed, .draws "123456", .proceed] ++
      [Turn.start (.redeemCode 0 "123456"), .start (.redeemCode 1 "123456"),
        .fire (.redeemCode 0 "123456") .proceed, .fire (.redeemCode 1 "123456") .proceed,
        .fire (.redeemCode 0 "123456") .proceed, .fire (.redeemCode 0 "123456") .proceed,
        .fire (.redeemCode 1 "123456") .proceed, .fire (.redeemCode 1 "123456") .proceed])
    (fun c => !decide ((redemptions c.state.log).map Redemption.read).Nodup) (by decide)
  refine ⟨c, hrun, fun h => ?_⟩
  simp [h.once] at hc

end Freeshard.Pairing
