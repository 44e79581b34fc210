import Freeshard.Boot.QueuedRows
import Freeshard.Routing.Config
import Freeshard.Service.Course

/-! # Routers and rows

The configuration is rewritten at the end of a task, the statuses change at its beginning, in its error path
and in the requests. Once the worker has nothing left to do, the apps with a router are the ones whose row
and metadata call for one, provided no step fails that has taken a router's app out of service, or put it back
into service, before the configuration has been brought in line. -/

namespace Freeshard
open Coroutine
set_option autoImplicit false

/-! ## Routers of an app -/

namespace Traefik

/-- The app has a router in the configuration. -/
def Model.HasRouter (model : Model) (name : String) : Prop :=
  (∃ http ∈ model.http, routerKey { name } .HTTPS_443 ∈ http.routers) ∨
    ∃ tcp ∈ model.tcp, ∃ routers ∈ tcp.routers, routerKey { name } .MQTTS_1883 ∈ routers

variable {disableSsl : Bool} {portal : SafeIdentity} {apps : List AppInfo} {name : String}

theorem info_of_routerKey {app : InstalledApp} {ep : Entrypoint} {port : EntrypointPort}
    (hmem : (app, ep) ∈ entrypoints apps) (hkey : routerKey { name } port = routerKey app port) :
    ∃ info ∈ apps, info.installedApp.name = name ∧ info.appMeta.entrypoints ≠ [] := by
  obtain ⟨info, hinfo, rfl, hep⟩ := mem_entrypoints.mp hmem
  exact ⟨info, hinfo, (routerKey_inj hkey).1.symm, List.ne_nil_of_mem hep⟩

theorem compileConfig_hasRouter : (compileConfig disableSsl portal apps).HasRouter name ↔
    ∃ info ∈ apps, info.installedApp.name = name ∧ info.appMeta.entrypoints ≠ [] := by
  constructor
  · rintro (⟨http, hhttp, hkey⟩ | ⟨tcp, htcp, routers, hrouters, hkey⟩)
    · rw [compileConfig_http] at hhttp
      obtain rfl := Option.some.inj hhttp
      obtain ⟨router, h⟩ := Dict.mem_iff_lookup.mp hkey
      obtain ⟨app, ep, hmem, -, hkey, -⟩ | hcore := httpRouter_cases h
      · exact info_of_routerKey hmem hkey
      · exact absurd (coreRouters_names _ (List.mem_map_of_mem hcore)) (routerKey_not_core _ _)
    · rw [compileConfig_tcp] at htcp
      split_ifs at htcp
      · obtain rfl := Option.some.inj htcp
        obtain rfl := Option.some.inj hrouters
        obtain ⟨router, h⟩ := Dict.mem_iff_lookup.mp hkey
        obtain ⟨app, ep, hmem, -, hkey, -⟩ := tcpRouter_cases h
        exact info_of_routerKey hmem hkey
      · cases htcp
  · rintro ⟨info, hinfo, rfl, hne⟩
    obtain ⟨ep, hep⟩ := List.exists_mem_of_ne_nil _ hne
    have hmem : (info.installedApp, ep) ∈ entrypoints apps := mem_entrypoints.mpr ⟨info, hinfo, rfl, hep⟩
    cases hport : ep.entrypointPort with
    | HTTPS_443 =>
      have hkey : routerKey info.installedApp .HTTPS_443 ∈
          (builtHttp disableSsl portal (entrypoints apps)).routers := by
        obtain ⟨_, _, -, -, -, hlookup⟩ := @httpRouter_lookup disableSsl portal _ _ _ hmem hport
        exact Dict.mem_iff_lookup.mpr ⟨_, hlookup⟩
      exact .inl ⟨_, compileConfig_http .., hkey⟩
    | MQTTS_1883 =>
      have hkey : routerKey info.installedApp .MQTTS_1883 ∈
          builtTcpRouters disableSsl portal (entrypoints apps) :=
        Dict.mem_setAll_of_mem (mem_assigned.mpr ⟨_, ep, hmem, hport, rfl, rfl⟩)
      exact .inr ⟨_, compileConfig_tcp.trans (if_pos ⟨info, hinfo, ep, hep, hport⟩), _, rfl, hkey⟩

end Traefik

namespace World
variable (w : World) (name : String)

/-- One of these apps is this one, with an entrypoint. -/
def Listed (infos : List (InstalledApp × AppMeta)) (name : String) : Prop :=
  ∃ info ∈ infos, info.1.name = name ∧ info.2.entrypoints ≠ []

/-- The app has a router in the last written configuration. -/
def Routed : Prop := Listed w.traefikDyn name

/-- The row is in a status with a router. -/
def InService : Prop := ∃ status, w.status name = some status ∧ status ∉ notRoutableStatus

def HasMeta : Prop := (w.getAppMetadata name).isOk = true

/-- Row and metadata call for a router. -/
def Routable : Prop := w.InService name ∧ w.HasMeta name

/-- An uninstall of the app waits in the queue. -/
def Leaving : Prop := ⟨name, .uninstall⟩ ∈ w.taskQueue

/-- Storing the status takes the row into or out of the statuses without a router. -/
def Shifts (status : Status) : Prop :=
  w.status name ≠ none ∧ ¬(w.InService name ↔ status ∉ notRoutableStatus)

instance (infos : List (InstalledApp × AppMeta)) : Decidable (Listed infos name) :=
  inferInstanceAs (Decidable (∃ info ∈ infos, _))

instance : Decidable (w.Routed name) := inferInstanceAs (Decidable (Listed _ _))

theorem inService_iff : w.InService name ↔
    (w.status name).any (fun status => decide (status ∉ notRoutableStatus)) = true := by
  unfold InService
  cases w.status name <;> simp

instance : Decidable (w.InService name) := decidable_of_iff' _ (w.inService_iff name)

instance : Decidable (w.HasMeta name) := inferInstanceAs (Decidable (_ = true))

instance : Decidable (w.Routable name) := inferInstanceAs (Decidable (_ ∧ _))

instance : Decidable (w.Leaving name) := inferInstanceAs (Decidable (_ ∈ w.taskQueue))

instance (status : Status) : Decidable (w.Shifts name status) := inferInstanceAs (Decidable (_ ∧ _))

/-- The configuration that was written last. -/
def traefikConfig (disableSsl : Bool) (portal : SafeIdentity) : Traefik.Model :=
  Traefik.compileConfig disableSsl portal (w.traefikDyn.map fun info => ⟨info.2, info.1⟩)

theorem traefikConfig_hasRouter {w : World} {name : String} {disableSsl : Bool} {portal : SafeIdentity} :
    (w.traefikConfig disableSsl portal).HasRouter name ↔ w.Routed name := by
  rw [traefikConfig, Traefik.compileConfig_hasRouter]
  simp [Routed, Listed]

theorem getAppMetadata_congr {w w' : World} {name : String}
    (h : (w'.appDirs name).bind (·.appMeta) = (w.appDirs name).bind (·.appMeta)) :
    w'.getAppMetadata name = w.getAppMetadata name := by
  unfold getAppMetadata
  cases hdir : w.appDirs name with
  | none =>
    cases hdir' : w'.appDirs name with
    | none => rfl
    | some dir' =>
      have hfile : dir'.appMeta = none := by simpa [hdir, hdir'] using h
      simp [hfile]
  | some dir =>
    cases hdir' : w'.appDirs name with
    | none =>
      have hfile : dir.appMeta = none := by simpa [hdir, hdir', eq_comm] using h
      simp [hfile]
    | some dir' =>
      have hfile : dir'.appMeta = dir.appMeta := by simpa [hdir, hdir'] using h
      simp only [hfile]

end World

/-! ## Runs -/

/-- The request has taken its app's row into or out of the statuses without a router. -/
def Event.shifts (e : Event) : Bool :=
  match e.op with
  | .updateStatus name status => decide (e.before.Shifts name status)
  | _ => false

/-- The request has done so and has yet to enqueue its task. -/
def Pledged (i : Call) (s : State) : Prop :=
  s.phase i = .stored ∧ ∃ e ∈ s.log, e.call = i ∧ e.shifts = true

instance (i : Call) (s : State) : Decidable (Pledged i s) :=
  inferInstanceAs (Decidable (_ ∧ ∃ e ∈ s.log, _))

namespace Env

/-- The queue and the configuration do not fail, metadata that can be read is read, and moving an upload leaves
the metadata alone. -/
def writing : Env := fun s _ op c =>
  match op with
  | .dequeue => c = .proceed
  | .getAppMetadata _ => c = .proceed
  | .writeTraefikDyn _ => c = .proceed
  | .moveUploadedZip name _ =>
    match c with
    | .leaves dir _ => dir.bind (·.appMeta) = (s.world.appDirs name).bind (·.appMeta)
    | _ => True
  | _ => True

/-- What is stored is followed by a configuration, unless the app is to be uninstalled anyway. -/
def inStep (ν : Call → String) : Env := fun s i op c =>
  writing s i op c ∧
  (Pledged i s → (s.world.exec i op c).all (fun rw => rw.1.isOk) = true ∨ s.world.Leaving (ν i)) ∧
  match op with
  | .getAppMetadata name =>
    (s.world.getAppMetadata name).toOption.all (fun appMeta => !appMeta.entrypoints.isEmpty) = true
  | .updateStatus name status =>
    (status = .error → c = .proceed → ¬s.world.Routed name ∨ s.world.Leaving name) ∧
    (i.role.requests = true → s.world.Shifts name status → c.interrupts = true → s.world.Leaving name)
  | .taskDone =>
    match s.course i with
    | .on task leg => leg = .written ∨ leg = .done ∨
        (s.world.Routed task.appName ↔ s.world.Routable task.appName) ∨ s.world.Leaving task.appName
    | .idle => True
  | _ => True

instance (s : State) (i : Call) (op : Op) (c : Choice) : Decidable (writing s i op c) := by
  apply @Op.casesOn (fun op => Decidable (writing s i op c)) op
  case moveUploadedZip =>
    intro name zip
    unfold writing
    refine Choice.casesOn c ?_ (fun e => ?_) (fun e => ?_) (fun exit K => ?_) (fun now => ?_) fun dir e => ?_
    all_goals infer_instance
  all_goals
    intros
    unfold writing
    infer_instance

instance (ν : Call → String) (s : State) (i : Call) (op : Op) (c : Choice) :
    Decidable (inStep ν s i op c) := by
  apply @Op.casesOn (fun op => Decidable (inStep ν s i op c)) op
  case taskDone =>
    unfold inStep
    refine @instDecidableAnd _ _ inferInstance (@instDecidableAnd _ _ inferInstance ?_)
    refine Course.casesOn (s.course i) ?_ fun task leg => ?_
    all_goals infer_instance
  all_goals
    intros
    unfold inStep
    infer_instance

end Env

/-! ## What holds while tasks are outstanding -/

section Invariant
variable {ν : Call → String} {i : Call} {s s' : State} {op : Op} {r : Answer op} {name : String}
  {task : InstallationTask} {P P' : Prop}

/-- The task of a request. -/
def Role.orders : Role → Option TaskType
  | .uninstallRequest => some .uninstall
  | .reinstallRequest => some .reinstall
  | _ => none

/-- The task waits in the queue, or a request is about to enqueue it. -/
def Due (ν : Call → String) (task : InstallationTask) (s : State) : Prop :=
  task ∈ s.world.taskQueue ∨
    ∃ i, Pledged i s ∧ i.role.orders = some task.taskType ∧ ν i = task.appName

/-- An uninstall of the app is due. -/
abbrev Departs (ν : Call → String) (name : String) (s : State) : Prop := Due ν ⟨name, .uninstall⟩ s

/-- A reinstallation of the app is due and its row waits for it. -/
def Returns (ν : Call → String) (name : String) (s : State) : Prop :=
  s.world.status name = some .reinstallationQueued ∧ Due ν ⟨name, .reinstall⟩ s

/-- `P`, whether the app has a router, agrees with its row and metadata, or the app departs. -/
def Firm (ν : Call → String) (P : Prop) (name : String) (s : State) : Prop :=
  (P ↔ s.world.Routable name) ∨ Departs ν name s

/-- `P` agrees, or a task that is due will see to it. -/
def Accord (ν : Call → String) (P : Prop) (name : String) (s : State) : Prop :=
  Firm ν P name s ∨ Returns ν name s

/-- The row is in service, or the app departs. -/
def InPlay (ν : Call → String) (name : String) (s : State) : Prop :=
  s.world.InService name ∨ Departs ν name s

/-- What a step may do to an app that it does not write the files or the routers of. -/
structure Moved (ν : Call → String) (name : String) (s s' : State) : Prop where
  hasMeta : s'.world.HasMeta name ↔ s.world.HasMeta name
  departs : Departs ν name s → Departs ν name s'
  row : Departs ν name s' ∨
    ((s'.world.InService name ↔ s.world.InService name) ∧
      (s.world.status name = some .reinstallationQueued →
        s'.world.status name = some .reinstallationQueued) ∧
      (Returns ν name s → Returns ν name s')) ∨
    (¬s.world.InService name ∧ Returns ν name s')

namespace Moved

theorem routable (h : Moved ν name s s')
    (hservice : s'.world.InService name ↔ s.world.InService name) :
    s'.world.Routable name ↔ s.world.Routable name := and_congr hservice h.hasMeta

theorem accord (h : Moved ν name s s') (ha : Accord ν P name s) : Accord ν P name s' := by
  obtain hdep | ⟨hservice, -, hreturns⟩ | ⟨-, hret⟩ := h.row
  · exact .inl (.inr hdep)
  · obtain (hiff | hdep) | hret := ha
    · exact .inl (.inl (hiff.trans (h.routable hservice).symm))
    · exact .inl (.inr (h.departs hdep))
    · exact .inr (hreturns hret)
  · exact .inr hret

theorem inPlay (h : Moved ν name s s') (ha : InPlay ν name s) : InPlay ν name s' := by
  obtain hdep | ⟨hservice, -⟩ | ⟨hnot, -⟩ := h.row
  · exact .inr hdep
  · exact ha.imp hservice.mpr h.departs
  · exact .inr (h.departs (ha.resolve_left hnot))

theorem firm (h : Moved ν name s s') (hplay : InPlay ν name s) (ha : Firm ν P name s) :
    Firm ν P name s' := by
  obtain hdep | ⟨hservice, -⟩ | ⟨hnot, -⟩ := h.row
  · exact .inr hdep
  · obtain hiff | hdep := ha
    · exact .inl (hiff.trans (h.routable hservice).symm)
    · exact .inr (h.departs hdep)
  · exact .inr (h.departs (hplay.resolve_left hnot))

/-- A row that waits for a reinstallation goes on waiting, unless the app departs. -/
theorem waits (h : Moved ν name s s') (hst : s.world.status name = some .reinstallationQueued) :
    Departs ν name s' ∨ s'.world.status name = some .reinstallationQueued := by
  obtain hdep | ⟨-, hwaits, -⟩ | ⟨-, hret⟩ := h.row
  · exact .inl hdep
  · exact .inr (hwaits hst)
  · exact .inr hret.1

end Moved

/-! ## Steps of the requests -/

theorem Role.eq_of_orders {role : Role} {taskType other : TaskType} (h : role.orders = some taskType)
    (hother : other ∈ role.footprint.enqueues) : other = taskType := by
  cases role <;> cases h <;> simpa [Role.footprint] using hother

/-- A request that has shifted its row keeps to it until its task is in the queue. -/
theorem pledged_step (ha : Act (.inStep ν) i s op r s') (hop : CallAllows (ν i) i.role (s.phase i) op)
    (hrequest : i.role.requests = true) {j : Call} {taskType : TaskType} (hj : Pledged j s)
    (horders : j.role.orders = some taskType) :
    Due ν ⟨ν j, taskType⟩ s' ∨ s.world.Leaving (ν j) := by
  by_cases hji : j = i
  · subst hji
    obtain ⟨c, ⟨-, hpledge, -⟩, he⟩ := ha.inv
    refine (hpledge hj).imp_left fun hok => ?_
    rw [he] at hok
    by_cases henq : ∃ queued, op = .enqueue queued
    · obtain ⟨queued, rfl⟩ := henq
      obtain ⟨happ, htype⟩ := hop.covers
      obtain rfl : queued = ⟨ν j, taskType⟩ := by
        rw [← happ, ← Role.eq_of_orders horders htype]
      have heffect := ha.effect_of_ok rfl hok
      refine .inl ?_
      rw [← (Prod.mk.inj (Option.some.inj heffect)).2]
      exact List.mem_append_right _ (List.mem_singleton_self _)
    · refine .inr ⟨j, ⟨?_, ?_⟩, horders, rfl⟩
      · have hafter : s'.phase j = (protocol (ν j) j.role).after (s.phase j) op r := ha.phase_self
        rw [hafter, after_of_requests hrequest, hj.1]
        exact Phase.afterRequest_stored hok fun task hop => henq ⟨task, hop⟩
      · obtain ⟨e, he, hcall⟩ := hj.2
        exact ⟨e, by rw [ha.log]; exact List.mem_cons_of_mem _ he, hcall⟩
  · refine .inl (.inr ⟨j, ⟨?_, ?_⟩, horders, rfl⟩)
    · exact (ha.phase_other hji).trans hj.1
    · obtain ⟨e, he, hcall⟩ := hj.2
      exact ⟨e, by rw [ha.log]; exact List.mem_cons_of_mem _ he, hcall⟩

theorem leaving_step (ha : Act (.inStep ν) i s op r s') (hop : CallAllows (ν i) i.role (s.phase i) op)
    (h : task ∈ s.world.taskQueue) : task ∈ s'.world.taskQueue := by
  obtain hsame | hpush | - := ha.queueStep
  · rwa [hsame]
  · rw [hpush]
    exact List.mem_append_left _ h
  · exact hop.covers.elim

theorem due_step (ha : Act (.inStep ν) i s op r s') (hop : CallAllows (ν i) i.role (s.phase i) op)
    (hrequest : i.role.requests = true) (h : Due ν task s) :
    Due ν task s' ∨ Departs ν task.appName s' := by
  obtain hmem | ⟨j, hj, horders, happ⟩ := h
  · exact .inl (.inl (leaving_step ha hop hmem))
  · rw [← happ]
    refine (pledged_step ha hop hrequest hj horders).imp (fun hdue => ?_) fun hleaving => ?_
    · rwa [happ] at hdue
    · exact .inl (leaving_step ha hop hleaving)

theorem hasMeta_of_spares (ha : Act (.inStep ν) i s op r s') (hop : op.spares = true) (name : String) :
    s'.world.HasMeta name ↔ s.world.HasMeta name := by
  suffices h : s'.world.getAppMetadata name = s.world.getAppMetadata name by
    rw [World.HasMeta, World.HasMeta, h]
  refine World.getAppMetadata_congr ?_
  by_cases hdir : op.appDir = some name
  · cases op with
    | moveUploadedZip other zip =>
      obtain rfl := Option.some.inj hdir
      obtain ⟨c, ⟨hwriting, -⟩, he⟩ := ha.inv
      have hmoved : ∀ r₀, s.world.effect i (.moveUploadedZip other zip) = some (r₀, s'.world) →
          (s'.world.appDirs other).bind (·.appMeta) = (s.world.appDirs other).bind (·.appMeta) := by
        intro r₀ heffect
        rw [← (Prod.mk.inj (Option.some.inj heffect)).2]
        change (Function.update s.world.appDirs other _ other).bind _ = _
        rw [Function.update_self]
        cases s.world.appDirs other <;> rfl
      cases c with
      | proceed => exact hmoved _ he
      | raise e => rw [← (Prod.mk.inj (Option.some.inj he)).2]
      | proceedRaise e =>
        simp only [World.exec, Option.map_eq_some_iff, Prod.mk.injEq] at he
        obtain ⟨⟨r₀, w'⟩, heffect, -, rfl⟩ := he
        exact hmoved r₀ heffect
      | docker exit stack | clock now => cases he
      | leaves dir e =>
        rw [← (Prod.mk.inj (Option.some.inj he)).2]
        change (Function.update s.world.appDirs other dir other).bind _ = _
        rw [Function.update_self]
        exact hwriting
    | rmtree _ | downloadAppZip _ | extractAppZip _ | unlinkZip _ | renderTemplate _ => cases hop
    | _ => cases hdir
  · rw [ha.frame.appDirs name hdir]

/-- A store that shifts the row is followed by its task, or the app departs. -/
theorem shifted_step {status : Status} {r : Answer (.updateStatus (ν i) status)}
    (ha : Act (.inStep ν) i s (.updateStatus (ν i) status) r s') (hrequest : i.role.requests = true)
    (hshifts : s.world.Shifts (ν i) status)
    (hst : s'.world.status (ν i) = some status) :
    Pledged i s' ∨ s.world.Leaving (ν i) := by
  have hchanged : s'.world ≠ s.world := by
    intro hw
    refine hshifts.2 ?_
    rw [hw] at hst
    unfold World.InService
    rw [hst]
    simp
  obtain ⟨c, ⟨-, -, -, hc⟩, he⟩ := ha.inv
  cases c with
  | proceed =>
    have hlog : ⟨i, .updateStatus (ν i) status, r, s.world⟩ ∈ s'.log := by
      rw [ha.log]
      exact List.mem_cons_self
    refine .inl ⟨?_, _, hlog, rfl, decide_eq_true hshifts⟩
    obtain ⟨hr, hw⟩ := Prod.mk.inj (Option.some.inj he)
    obtain ⟨row, hrow, -⟩ := Option.map_eq_some_iff.mp hst
    have hafter : s'.phase i = (protocol (ν i) i.role).after (s.phase i) _ r := ha.phase_self
    rw [hafter, after_of_requests hrequest, ← hr, hw, hrow]
    rfl
  | raise e => exact absurd (Prod.mk.inj (Option.some.inj he)).2.symm hchanged
  | proceedRaise e => exact .inr (hc hrequest hshifts rfl)
  | docker exit stack | clock now => cases he
  | leaves dir e => cases he

theorem Role.statuses_of_requests {role : Role} {status : Status} (hrequest : role.requests = true)
    (h : status ∈ role.footprint.statuses) :
    (status = .uninstallationQueued ∧ role.orders = some .uninstall) ∨
      (status = .reinstallationQueued ∧ role.orders = some .reinstall) := by
  cases role with
  | uninstallRequest => exact .inl ⟨List.mem_singleton.mp h, rfl⟩
  | reinstallRequest => exact .inr ⟨List.mem_singleton.mp h, rfl⟩
  | installRequest => cases h
  | _ => cases hrequest

theorem World.inService_of_status {w : World} {status : Status} (h : w.status name = some status) :
    w.InService name ↔ status ∉ notRoutableStatus := by
  simp [World.InService, h]

theorem request_moved (ha : Act (.inStep ν) i s op r s') (hop : CallAllows (ν i) i.role (s.phase i) op)
    (hrequest : i.role.requests = true) (hspares : op.spares = true) (name : String) :
    Moved ν name s s' where
  hasMeta := hasMeta_of_spares ha hspares name
  departs h := (due_step ha hop hrequest h).elim id id
  row := by
    have hleaving : s.world.Leaving name → Departs ν name s' := fun h => .inl (leaving_step ha hop h)
    have hsame : (s'.world.InService name ↔ s.world.InService name) →
        (s.world.status name = some .reinstallationQueued →
          s'.world.status name = some .reinstallationQueued) →
        Departs ν name s' ∨ ((s'.world.InService name ↔ s.world.InService name) ∧
          (s.world.status name = some .reinstallationQueued →
            s'.world.status name = some .reinstallationQueued) ∧
          (Returns ν name s → Returns ν name s')) ∨ (¬s.world.InService name ∧ Returns ν name s') := by
      intro hservice hwaits
      by_cases hdep : Departs ν name s'
      · exact .inl hdep
      · refine .inr (.inl ⟨hservice, hwaits, fun hret => ⟨hwaits hret.1, ?_⟩⟩)
        exact (due_step ha hop hrequest hret.2).resolve_right hdep
    obtain hst | ⟨hname, hst⟩ | @⟨status, hrow, hst⟩ | hst := ha.statusStep name
    · refine hsame ?_ fun h => hst.trans h
      rw [World.InService, World.InService, hst]
    · subst hname
      obtain hst' | habsent := ha.inserted_absent
      · refine hsame ?_ fun h => hst'.trans h
        rw [World.InService, World.InService, hst']
      · refine hsame (iff_of_false ?_ ?_) fun h => ?_
        · rw [World.inService_of_status hst, hop.covers.2.1]
          decide
        · simp [World.InService, habsent]
        · rw [habsent] at h
          cases h
    · obtain ⟨rfl, hmem⟩ := hop.covers
      obtain ⟨old, hold⟩ := Option.ne_none_iff_exists'.mp hrow
      have hcases := Role.statuses_of_requests hrequest hmem
      by_cases hshifts : s.world.Shifts (ν i) status
      · obtain hpledged | hleave := shifted_step ha hrequest hshifts hst
        · obtain ⟨rfl, horders⟩ | ⟨rfl, horders⟩ := hcases
          · exact .inl (.inr ⟨i, hpledged, horders, rfl⟩)
          · refine .inr (.inr ⟨fun hservice => hshifts.2 ?_, hst, .inr ⟨i, hpledged, horders, rfl⟩⟩)
            exact iff_of_true hservice (by decide)
        · exact .inl (hleaving hleave)
      · have hiff := not_not.mp (not_and.mp hshifts hrow)
        refine hsame ((World.inService_of_status hst).trans hiff.symm) fun hwaits => ?_
        obtain ⟨rfl, -⟩ | ⟨rfl, -⟩ := hcases
        · rw [World.inService_of_status hwaits] at hiff
          exact absurd (hiff.mp (by decide)) (by decide)
        · exact hst
    · have hremoves : i.role.footprint.removes = false := by cases i.role <;> rfl
      exact absurd hop.covers.2 (ne_true_of_eq_false hremoves)

/-! ## The configuration along a task -/

theorem Accord.congr (hP : P ↔ P') (h : Accord ν P name s) : Accord ν P' name s := by
  rwa [propext hP] at h

/-- Among the apps collected, or still to be looked at and with metadata that can be read. -/
def Gathered (pending : List InstalledApp) (infos : List (InstalledApp × AppMeta)) (w : World)
    (name : String) : Prop :=
  World.Listed infos name ∨ (∃ app ∈ pending, app.name = name) ∧ w.HasMeta name

/-- What the configuration owes to the app of the task; an installing task keeps it in play. -/
def Secured (ν : Call → String) (task : InstallationTask) (P : Prop) (s : State) : Prop :=
  Accord ν P task.appName s ∧
    (task.taskType ≠ .uninstall → InPlay ν task.appName s ∧ Firm ν P task.appName s)

def Leg.Holds (ν : Call → String) (task : InstallationTask) (leg : Leg) (s : State) : Prop :=
  match leg with
  | .taken =>
    task.taskType = .uninstall ∨ Accord ν (s.world.Routed task.appName) task.appName s ∨
      (task.taskType = .reinstall ∧ s.world.status task.appName = some .reinstallationQueued)
  | .unsettled => True
  | .working => task.taskType ≠ .uninstall → InPlay ν task.appName s
  | .listing pending infos =>
    (∀ name, name ≠ task.appName → Accord ν (Gathered pending infos s.world name) name s) ∧
      Secured ν task (Gathered pending infos s.world task.appName) s
  | .written => Secured ν task (s.world.Routed task.appName) s
  | .done => Accord ν (s.world.Routed task.appName) task.appName s

/-- The last written configuration accounts for all apps but the one the worker is at work on. -/
def Course.Holds (ν : Call → String) (l : Course) (s : State) : Prop :=
  match l with
  | .idle => ∀ name, Accord ν (s.world.Routed name) name s
  | .on task leg =>
    (∀ name, name ≠ task.appName → Accord ν (s.world.Routed name) name s) ∧ leg.Holds ν task s

theorem World.routed_congr {w w' : World} (h : w'.traefikDyn = w.traefikDyn) (name : String) :
    w'.Routed name ↔ w.Routed name := by
  rw [World.Routed, World.Routed, h]

theorem Moved.secured (h : Moved ν task.appName s s') (hP : P ↔ P') (hs : Secured ν task P s) :
    Secured ν task P' s' := by
  obtain rfl := propext hP
  refine ⟨h.accord hs.1, fun htype => ?_⟩
  obtain ⟨hplay, hfirm⟩ := hs.2 htype
  exact ⟨h.inPlay hplay, h.firm hplay hfirm⟩

theorem Moved.routed (h : Moved ν name s s') (hdyn : s'.world.traefikDyn = s.world.traefikDyn)
    (ha : Accord ν (s.world.Routed name) name s) : Accord ν (s'.world.Routed name) name s' :=
  (h.accord ha).congr (World.routed_congr hdyn name).symm

theorem Moved.gathered (h : Moved ν name s s') (pending : List InstalledApp)
    (infos : List (InstalledApp × AppMeta)) :
    Gathered pending infos s.world name ↔ Gathered pending infos s'.world name :=
  or_congr Iff.rfl (and_congr Iff.rfl h.hasMeta.symm)

theorem World.hasMeta_congr {w w' : World} (h : w'.appDirs name = w.appDirs name) :
    w'.HasMeta name ↔ w.HasMeta name := by
  have hmeta : w'.getAppMetadata name = w.getAppMetadata name := World.getAppMetadata_congr (by rw [h])
  rw [World.HasMeta, World.HasMeta, hmeta]

/-- Steps that write neither files nor the configuration leave the worker's bookkeeping as it is. -/
theorem Course.Holds.moved {l : Course} (h : l.Holds ν s) (hm : ∀ name, Moved ν name s s')
    (hdyn : s'.world.traefikDyn = s.world.traefikDyn) : l.Holds ν s' := by
  cases l with
  | idle => exact fun name => (hm name).routed hdyn (h name)
  | on task leg =>
    refine ⟨fun name hne => (hm name).routed hdyn (h.1 name hne), ?_⟩
    have hown := hm task.appName
    have hleg := h.2
    cases leg with
    | taken =>
      obtain htype | haccord | ⟨htype, hst⟩ := hleg
      · exact .inl htype
      · exact .inr (.inl (hown.routed hdyn haccord))
      · obtain hdep | hst' := hown.waits hst
        · exact .inr (.inl (.inl (.inr hdep)))
        · exact .inr (.inr ⟨htype, hst'⟩)
    | unsettled => trivial
    | working => exact fun htype => hown.inPlay (hleg htype)
    | listing pending infos =>
      refine ⟨fun name hne => ?_, hown.secured (hown.gathered pending infos) hleg.2⟩
      exact ((hm name).accord (hleg.1 name hne)).congr ((hm name).gathered pending infos)
    | written => exact hown.secured (World.routed_congr hdyn _).symm hleg
    | done => exact hown.routed hdyn hleg

/-! ## Steps of the worker -/

theorem due_of_worker (ha : Act (.inStep ν) i s op r s') (hrole : i.role = .worker)
    (hqueue : task ∈ s.world.taskQueue → task ∈ s'.world.taskQueue) (h : Due ν task s) :
    Due ν task s' := by
  obtain hmem | ⟨j, ⟨hphase, e, he, hcall⟩, horders, happ⟩ := h
  · exact .inl (hqueue hmem)
  · have hji : j ≠ i := by
      rintro rfl
      rw [hrole] at horders
      cases horders
    refine .inr ⟨j, ⟨(ha.phase_other hji).trans hphase, e, ?_, hcall⟩, horders, happ⟩
    rw [ha.log]
    exact List.mem_cons_of_mem _ he

/-- The worker leaves the apps alone whose rows and files it does not write. -/
theorem worker_moved (ha : Act (.inStep ν) i s op r s') (hrole : i.role = .worker)
    (hqueues : op.queues = false) (hrow : op.writesRow name = false) (hdir : op.appDir ≠ some name) :
    Moved ν name s s' := by
  have hst : s'.world.status name = s.world.status name := ha.frame.status name hrow
  have hqueue : s'.world.taskQueue = s.world.taskQueue := ha.frame.taskQueue hqueues
  have hdue : ∀ task, Due ν task s → Due ν task s' := fun task =>
    due_of_worker ha hrole fun hmem => by rwa [hqueue]
  exact {
    hasMeta := World.hasMeta_congr (ha.frame.appDirs name hdir)
    departs := hdue _
    row := by
      refine .inr (.inl ⟨?_, fun h => hst.trans h, fun h => ⟨hst.trans h.1, hdue _ h.2⟩⟩)
      rw [World.InService, World.InService, hst] }

theorem Course.Holds.inert {l : Course} (h : l.Holds ν s) (ha : Act (.inStep ν) i s op r s')
    (hrole : i.role = .worker) (hqueues : op.queues = false) (hrow : ∀ name, op.writesRow name = false)
    (hdir : op.appDir = none) (hwrite : ∀ apps, op ≠ .writeTraefikDyn apps) : l.Holds ν s' := by
  refine h.moved (fun name => worker_moved ha hrole hqueues (hrow name) ?_) (ha.traefikDyn hwrite)
  rw [hdir]
  exact nofun

theorem Leg.Proceeds.others {leg : Leg} (hop : leg.Proceeds task op) (hne : name ≠ task.appName) :
    op.queues = false ∧ op.writesRow name = false ∧ op.appDir ≠ some name := by
  have hupdate : ∀ status, (Op.updateStatus task.appName status).writesRow name = false :=
    fun status => beq_false_of_ne hne.symm
  have hcovers : task.taskType.steady.Covers task.appName op →
      op.queues = false ∧ op.writesRow name = false ∧ op.appDir ≠ some name := by
    intro h
    refine ⟨?_, h.writesRow hne, h.appDir hne⟩
    cases op with
    | enqueue queued =>
      have hmem := h.2
      cases htype : task.taskType <;> rw [htype] at hmem <;> cases hmem
    | dequeue => exact h.elim
    | _ => rfl
  cases leg with
  | taken => obtain ⟨rfl, -⟩ | ⟨rfl, -⟩ := hop <;> exact ⟨rfl, rfl, nofun⟩
  | unsettled =>
    obtain rfl := hop
    exact ⟨rfl, hupdate _, nofun⟩
  | working =>
    obtain rfl | ⟨h, -⟩ | ⟨rfl, -⟩ := hop
    · exact ⟨rfl, rfl, nofun⟩
    · exact hcovers h
    · exact ⟨rfl, hupdate _, nofun⟩
  | listing pending infos =>
    obtain ⟨app, rest, -, rfl⟩ | rfl | ⟨-, rfl⟩ | rfl | ⟨rfl, -⟩ := hop <;> first
      | exact ⟨rfl, rfl, nofun⟩
      | exact ⟨rfl, hupdate _, nofun⟩
  | written =>
    obtain rfl | rfl | ⟨rfl, -⟩ | ⟨rfl, -⟩ := hop <;> first
      | exact ⟨rfl, rfl, nofun⟩
      | exact ⟨rfl, hupdate _, nofun⟩
  | done => obtain rfl | ⟨e, rfl⟩ := hop <;> exact ⟨rfl, rfl, nofun⟩

theorem others_step {leg : Leg} (h : (Course.on task leg).Holds ν s) (ha : Act (.inStep ν) i s op r s')
    (hrole : i.role = .worker) (hop : leg.Proceeds task op) (hwrite : ∀ apps, op ≠ .writeTraefikDyn apps)
    (name : String) (hne : name ≠ task.appName) : Accord ν (s'.world.Routed name) name s' := by
  obtain ⟨hqueues, hrow, hdir⟩ := hop.others hne
  exact (worker_moved ha hrole hqueues hrow hdir).routed (ha.traefikDyn hwrite) (h.1 name hne)

theorem departs_of_leaving (ha : Act (.inStep ν) i s op r s') (hqueues : op.queues = false)
    (h : s.world.Leaving name) : Departs ν name s' := by
  refine .inl ?_
  rw [ha.frame.taskQueue hqueues]
  exact h

/-- `ERROR` is stored for an app without a router, or one that departs. -/
theorem fails_step {leg : Leg} {r : Answer (.updateStatus task.appName .error)}
    (ha : Act (.inStep ν) i s (.updateStatus task.appName .error) r s') (hleg : leg ≠ .unsettled) :
    (leg.after task (.updateStatus task.appName .error) r).Holds ν task s' := by
  obtain ⟨app, rfl, hafter⟩ | hafter := Leg.after_error_cases hleg r
  · rw [hafter]
    obtain hrouted | hleaving := (ha.proceed_of_ok rfl rfl).2.2.1 rfl rfl
    · refine .inl (.inl (iff_of_false ?_ fun h => ?_))
      · rwa [World.routed_congr (ha.traefikDyn nofun)]
      · rw [World.Routable, World.inService_of_status ha.updateStatus_ok] at h
        exact h.1 (by decide)
    · exact .inl (.inr (departs_of_leaving ha rfl hleaving))
  · rw [hafter]
    trivial

theorem taken_step (h : (Course.on task .taken).Holds ν s) (ha : Act (.inStep ν) i s op r s')
    (hrole : i.role = .worker) (hop : Leg.taken.Proceeds task op) :
    (Course.on task (Leg.taken.after task op r)).Holds ν s' := by
  obtain ⟨rfl, htype⟩ | ⟨rfl, htype⟩ := hop
  · have hs' := h.inert ha hrole rfl (fun _ => rfl) rfl nofun
    cases r with
    | error e => exact hs'
    | ok u => exact ⟨hs'.1, fun hne => absurd htype hne⟩
  · have hs' := h.inert ha hrole rfl (fun _ => rfl) rfl nofun
    cases r with
    | error e => exact hs'
    | ok row =>
      refine ⟨hs'.1, ?_⟩
      change (if _ then Leg.unsettled else Leg.done).Holds ν task s'
      split
      · trivial
      · next hst =>
        obtain huninstall | haccord | ⟨hreinstall, hwaits⟩ := hs'.2
        · exact absurd huninstall htype
        · exact haccord
        · rw [ha.frame.status _ rfl, World.status, InstalledApps.status, ← ha.getByName_ok] at hwaits
          rw [hreinstall] at hst
          exact absurd hwaits hst

theorem unsettled_step (h : (Course.on task .unsettled).Holds ν s) (ha : Act (.inStep ν) i s op r s')
    (hrole : i.role = .worker) (hop : Leg.unsettled.Proceeds task op) :
    (Course.on task (Leg.unsettled.after task op r)).Holds ν s' := by
  have hproceeds := hop
  obtain rfl := hop
  refine ⟨others_step h ha hrole hproceeds nofun, ?_⟩
  · have hstays : ∀ (status : Status) (e : Exn),
        Leg.unsettled.after task (.updateStatus task.appName status) (.error e) = .unsettled ∧
        Leg.unsettled.after task (.updateStatus task.appName status) (.ok none) = .unsettled := by
      intro status e
      cases status <;> exact ⟨rfl, rfl⟩
    rcases r with e | (_ | app)
    · rw [(hstays _ e).1]
      trivial
    · rw [(hstays _ .cancelled).2]
      trivial
    · refine fun htype => .inl ⟨_, ha.updateStatus_ok, ?_⟩
      revert htype
      cases task.taskType <;> decide

theorem gathered_rows (w : World) (name : String) :
    Gathered (w.installedApps.rows.filter fun app => app.status ∉ notRoutableStatus) [] w name ↔
      w.Routable name := by
  have hrows : (∃ app ∈ w.installedApps.rows.filter fun app => app.status ∉ notRoutableStatus,
      app.name = name) ↔ w.InService name := by
    constructor
    · rintro ⟨app, happ, rfl⟩
      obtain ⟨hmem, hst⟩ := List.mem_filter.mp happ
      refine ⟨app.status, ?_, of_decide_eq_true hst⟩
      rw [World.status, InstalledApps.status, InstalledApps.mem_rows_iff.mp hmem]
      rfl
    · rintro ⟨status, hrow, hst⟩
      obtain ⟨app, hget, rfl⟩ := Option.map_eq_some_iff.mp hrow
      have hname := InstalledApps.getByName_name hget
      refine ⟨app, List.mem_filter.mpr ⟨?_, decide_eq_true hst⟩, hname⟩
      rw [InstalledApps.mem_rows_iff, hname, hget]
  simp [Gathered, World.Routable, World.Listed, ← hrows]

theorem working_step (h : (Course.on task .working).Holds ν s) (ha : Act (.inStep ν) i s op r s')
    (hrole : i.role = .worker) (hop : Leg.working.Proceeds task op) :
    (Course.on task (Leg.working.after task op r)).Holds ν s' := by
  have hproceeds := hop
  obtain rfl | ⟨hcovers, hlists⟩ | ⟨rfl, htype⟩ := hop
  · have hs' := h.inert ha hrole rfl (fun _ => rfl) rfl fun _ h => by cases h
    cases r with
    | error e => exact hs'
    | ok allApps =>
      obtain ⟨hrows, hw⟩ := Prod.mk.inj (Option.some.inj (ha.effect_of_ok rfl rfl))
      have hgathered : ∀ name, Gathered (allApps.filter fun app => app.status ∉ notRoutableStatus) []
          s'.world name ↔ s'.world.Routable name := by
        rw [← Except.ok.inj hrows, ← hw]
        exact gathered_rows s.world
      exact ⟨hs'.1, fun name _ => .inl (.inl (hgathered name)), .inl (.inl (hgathered _)),
        fun hne => ⟨hs'.2 hne, .inl (hgathered _)⟩⟩
  · rw [Leg.after_steady hcovers hlists]
    have hwrite : ∀ apps, op ≠ .writeTraefikDyn apps := by
      rintro apps rfl
      cases hlists
    refine ⟨others_step h ha hrole hproceeds hwrite, fun htype => ?_⟩
    have hkept : op.queues = false ∧ op.writesRow task.appName = false := by
      have hsteady : task.taskType.steady = { commands := [.unpause, .stop, .down, .upNoStart] } := by
        cases hcase : task.taskType <;> first
          | rfl
          | exact absurd hcase htype
      rw [hsteady] at hcovers
      cases op <;> simp_all [Footprint.Covers, Op.queues, Op.writesRow]
    refine (h.2 htype).imp (fun hservice => ?_) (due_of_worker ha hrole fun hmem => ?_)
    · rwa [World.InService, ha.frame.status _ hkept.2]
    · rwa [ha.frame.taskQueue hkept.1]
  · exact ⟨others_step h ha hrole hproceeds (fun _ h => by cases h), fails_step ha (fun h => by cases h)⟩

theorem listed_append (infos : List (InstalledApp × AppMeta)) (app : InstalledApp) {appMeta : AppMeta}
    (h : appMeta.entrypoints ≠ []) (name : String) :
    World.Listed (infos ++ [(app, appMeta)]) name ↔ World.Listed infos name ∨ app.name = name := by
  simp [World.Listed, or_and_right, exists_or, h]

theorem gathered_read (task : InstallationTask) {app : InstalledApp} (rest : List InstalledApp)
    (infos : List (InstalledApp × AppMeta)) {r : Answer (.getAppMetadata app.name)}
    (ha : Act (.inStep ν) i s (.getAppMetadata app.name) r s') : ∃ infos',
    Leg.after task (.listing (app :: rest) infos) (.getAppMetadata app.name) r = .listing rest infos' ∧
    ∀ name, Gathered (app :: rest) infos s'.world name ↔ Gathered rest infos' s'.world name := by
  obtain ⟨c, ⟨hproceed, -, hentrypoint⟩, he⟩ := ha.inv
  obtain rfl : c = .proceed := hproceed
  obtain ⟨hr, hw⟩ := Prod.mk.inj (Option.some.inj he)
  dsimp only at hentrypoint
  rw [hw] at hr hentrypoint
  cases r with
  | ok appMeta =>
    have hne : appMeta.entrypoints ≠ [] := by
      rw [hr] at hentrypoint
      simpa [Except.toOption] using hentrypoint
    have hmeta : s'.world.HasMeta app.name := by rw [World.HasMeta, hr]; rfl
    refine ⟨_, rfl, fun name => ?_⟩
    unfold Gathered
    rw [listed_append infos app hne]
    constructor
    · rintro (hlisted | ⟨⟨other, hmem, rfl⟩, hother⟩)
      · exact .inl (.inl hlisted)
      · obtain rfl | hmem := List.mem_cons.mp hmem
        · exact .inl (.inr rfl)
        · exact .inr ⟨⟨other, hmem, rfl⟩, hother⟩
    · rintro ((hlisted | rfl) | ⟨⟨other, hmem, rfl⟩, hother⟩)
      · exact .inl hlisted
      · exact .inr ⟨⟨app, List.mem_cons_self, rfl⟩, hmeta⟩
      · exact .inr ⟨⟨other, List.mem_cons_of_mem _ hmem, rfl⟩, hother⟩
  | error e =>
    have hmeta : ¬s'.world.HasMeta app.name := by
      rw [World.HasMeta, hr]
      exact nofun
    refine ⟨infos, rfl, fun name => or_congr Iff.rfl ?_⟩
    constructor
    · rintro ⟨⟨other, hmem, rfl⟩, hother⟩
      obtain rfl | hmem := List.mem_cons.mp hmem
      · exact absurd hother hmeta
      · exact ⟨⟨other, hmem, rfl⟩, hother⟩
    · rintro ⟨⟨other, hmem, rfl⟩, hother⟩
      exact ⟨⟨other, List.mem_cons_of_mem _ hmem, rfl⟩, hother⟩

theorem Secured.congr (hP : P ↔ P') (h : Secured ν task P s) : Secured ν task P' s := by
  rwa [propext hP] at h

theorem listing_step {pending : List InstalledApp} {infos : List (InstalledApp × AppMeta)}
    (h : (Course.on task (.listing pending infos)).Holds ν s) (ha : Act (.inStep ν) i s op r s')
    (hrole : i.role = .worker) (hop : (Leg.listing pending infos).Proceeds task op) :
    (Course.on task ((Leg.listing pending infos).after task op r)).Holds ν s' := by
  have hproceeds := hop
  obtain ⟨app, rest, rfl, rfl⟩ | rfl | ⟨rfl, rfl⟩ | rfl | ⟨rfl, htype⟩ := hop
  · have hs' := h.inert ha hrole rfl (fun _ => rfl) rfl nofun
    obtain ⟨infos', hafter, hgathered⟩ := gathered_read task rest infos ha
    rw [hafter]
    exact ⟨hs'.1, fun name hne => (hs'.2.1 name hne).congr (hgathered name), hs'.2.2.congr (hgathered _)⟩
  · have hs' := h.inert ha hrole rfl (fun _ => rfl) rfl nofun
    cases pending <;> cases r <;> exact hs'
  · have hgathered : ∀ name, Gathered [] infos s'.world name ↔ s'.world.Routed name := by
      obtain ⟨c, ⟨hproceed, -⟩, he⟩ := ha.inv
      obtain rfl : c = .proceed := hproceed
      intro name
      rw [← (Prod.mk.inj (Option.some.inj he)).2]
      simp [Gathered, World.Routed]
    have hmoved : ∀ name, Moved ν name s s' := fun name => worker_moved ha hrole rfl rfl nofun
    have hafter : (Leg.listing [] infos).after task (.writeTraefikDyn infos) r = .written := by
      obtain ⟨c, ⟨hproceed, -⟩, he⟩ := ha.inv
      obtain rfl : c = .proceed := hproceed
      rw [← (Prod.mk.inj (Option.some.inj he)).1]
      rfl
    rw [hafter]
    refine ⟨fun name hne => ?_, (hmoved _).secured ?_ h.2.2⟩
    · exact ((hmoved name).accord (h.2.1 name hne)).congr
        (((hmoved name).gathered [] infos).trans (hgathered name))
    · exact ((hmoved _).gathered [] infos).trans (hgathered _)
  · have hs' := h.inert ha hrole rfl (fun _ => rfl) rfl nofun
    cases pending <;> cases r <;> exact hs'
  · exact ⟨others_step h ha hrole hproceeds nofun, fails_step ha nofun⟩

theorem written_step (h : (Course.on task .written).Holds ν s) (ha : Act (.inStep ν) i s op r s')
    (hrole : i.role = .worker) (hop : Leg.written.Proceeds task op) :
    (Course.on task (Leg.written.after task op r)).Holds ν s' := by
  have hproceeds := hop
  obtain rfl | rfl | ⟨rfl, htype⟩ | ⟨rfl, htype⟩ := hop
  · exact h.inert ha hrole rfl (fun _ => rfl) rfl nofun
  · exact h.inert ha hrole rfl (fun _ => rfl) rfl nofun
  · refine ⟨others_step h ha hrole hproceeds nofun, ?_⟩
    have hafter : Leg.written.after task (.updateStatus task.appName .stopped) r = .written := by
      rcases r with e | (_ | app) <;> rfl
    rw [hafter]
    have hdyn := World.routed_congr (ha.traefikDyn nofun) task.appName
    have hdeparts : Departs ν task.appName s → Departs ν task.appName s' :=
      due_of_worker ha hrole fun hmem => by rwa [ha.frame.taskQueue rfl]
    obtain ⟨hplay, hfirm⟩ := h.2.2 htype
    suffices hs' : InPlay ν task.appName s' ∧ Firm ν (s'.world.Routed task.appName) task.appName s' from
      ⟨.inl hs'.2, fun _ => hs'⟩
    obtain hservice | hdep := hplay
    · have hservice' : s'.world.InService task.appName := by
        obtain hst | - | ⟨-, hst⟩ := ha.statusStep task.appName
        · rwa [World.InService, hst]
        · rw [World.inService_of_status hst]
          decide
      have hmeta := World.hasMeta_congr (ha.frame.appDirs task.appName nofun)
      refine ⟨.inl hservice', hfirm.imp (fun hiff => ?_) hdeparts⟩
      rw [hdyn, hiff]
      exact and_congr (iff_of_true hservice hservice') hmeta.symm
    · exact ⟨.inr (hdeparts hdep), .inr (hdeparts hdep)⟩
  · exact ⟨others_step h ha hrole hproceeds nofun, fails_step ha nofun⟩

theorem done_step (h : (Course.on task .done).Holds ν s) (ha : Act (.inStep ν) i s op r s')
    (hrole : i.role = .worker) (hop : Leg.done.Proceeds task op) :
    (Course.on task (Leg.done.after task op r)).Holds ν s' := by
  obtain rfl | ⟨e, rfl⟩ := hop
  · exact h.inert ha hrole rfl (fun _ => rfl) rfl nofun
  · exact h.inert ha hrole rfl (fun _ => rfl) rfl nofun

theorem Leg.step {leg : Leg} (h : (Course.on task leg).Holds ν s) (ha : Act (.inStep ν) i s op r s')
    (hrole : i.role = .worker) (hop : leg.Proceeds task op) :
    (Course.on task (leg.after task op r)).Holds ν s' := by
  cases leg with
  | taken => exact taken_step h ha hrole hop
  | unsettled => exact unsettled_step h ha hrole hop
  | working => exact working_step h ha hrole hop
  | listing pending infos => exact listing_step h ha hrole hop
  | written => exact written_step h ha hrole hop
  | done => exact done_step h ha hrole hop

theorem finish_step {leg : Leg} {r : Answer .taskDone} (h : (Course.on task leg).Holds ν s)
    (ha : Act (.inStep ν) i s .taskDone r s') (hrole : i.role = .worker)
    (hcourse : s.course i = .on task leg) : Course.idle.Holds ν s' := by
  have hs' : (Course.on task leg).Holds ν s' := h.inert ha hrole rfl (fun _ => rfl) rfl nofun
  intro name
  by_cases hne : name = task.appName
  · subst hne
    obtain ⟨c, ⟨-, -, hdone⟩, -⟩ := ha.inv
    dsimp only at hdone
    rw [hcourse] at hdone
    obtain rfl | rfl | hiff | hleaving := hdone
    · exact hs'.2.1
    · exact hs'.2
    · have hidle : Accord ν (s.world.Routed task.appName) task.appName s := .inl (.inl hiff)
      have hmoved : Moved ν task.appName s s' := worker_moved ha hrole rfl rfl nofun
      exact hmoved.routed (ha.traefikDyn nofun) hidle
    · exact .inl (.inr (departs_of_leaving ha rfl hleaving))
  · exact hs'.1 name hne

theorem dequeue_step {r : Answer .dequeue} (h : Course.idle.Holds ν s)
    (ha : Act (.inStep ν) i s .dequeue r s') (hrole : i.role = .worker) :
    (Course.idle.after .dequeue r).Holds ν s' := by
  obtain ⟨c, ⟨hproceed, -⟩, he⟩ := ha.inv
  obtain rfl : c = .proceed := hproceed
  obtain ⟨task, rfl⟩ : ∃ task, r = .ok task := by
    simp only [World.exec, World.effect] at he
    split at he
    · cases he
    · exact ⟨_, (Prod.mk.inj (Option.some.inj he)).1.symm⟩
  have hpop := ha.dequeue_ok
  have hst : ∀ name, s'.world.status name = s.world.status name := fun name => ha.frame.status name rfl
  have hdue : ∀ other, other ≠ task → Due ν other s → Due ν other s' := by
    intro other hne
    refine due_of_worker ha hrole fun hmem => ?_
    rw [hpop] at hmem
    exact (List.mem_cons.mp hmem).resolve_left hne
  have hfirm : ∀ name, ⟨name, .uninstall⟩ ≠ task → Firm ν (s.world.Routed name) name s →
      Firm ν (s'.world.Routed name) name s' := by
    intro name hne
    refine Or.imp (fun hiff => ?_) (hdue _ hne)
    rw [World.routed_congr (ha.traefikDyn fun _ h => by cases h), hiff]
    refine and_congr ?_ (World.hasMeta_congr (ha.frame.appDirs name fun h => by cases h)).symm
    rw [World.InService, World.InService, hst]
  have hreturns : ∀ name, ⟨name, .reinstall⟩ ≠ task → Returns ν name s → Returns ν name s' :=
    fun name hne hret => ⟨(hst name).trans hret.1, hdue _ hne hret.2⟩
  refine ⟨fun name hne => ?_, ?_⟩
  · have hother : ∀ taskType : TaskType, (⟨name, taskType⟩ : InstallationTask) ≠ task := by
      rintro taskType rfl
      exact hne rfl
    exact (h name).imp (hfirm name (hother _)) (hreturns name (hother _))
  · obtain ⟨name, taskType⟩ := task
    have hown : ∀ other : TaskType, other ≠ taskType →
        (⟨name, other⟩ : InstallationTask) ≠ ⟨name, taskType⟩ := by
      rintro other hne heq
      exact hne (InstallationTask.mk.inj heq).2
    cases taskType with
    | uninstall => exact .inl rfl
    | reinstall =>
      obtain hagrees | hret := h name
      · exact .inr (.inl (.inl (hfirm name (hown _ (by decide)) hagrees)))
      · exact .inr (.inr ⟨rfl, (hst name).trans hret.1⟩)
    | installFromStore | installFromZip =>
      exact .inr (.inl ((h name).imp (hfirm name (hown _ (by decide))) (hreturns name (hown _ (by decide)))))

theorem Course.Holds.step (h : (s.course ⟨.worker, 0⟩).Holds ν s) (ha : Act (.inStep ν) i s op r s')
    (hi : i.role = .worker → i = ⟨.worker, 0⟩) (hrole : i.role ∈ installing)
    (hop : (protocol (ν i) i.role).allows (s.phase i) op)
    (hcourse : (course i.role).allows (s.course i) op) : (s'.course ⟨.worker, 0⟩).Holds ν s' := by
  by_cases hworker : i.role = .worker
  · obtain rfl := hi hworker
    have hafter : s'.course ⟨.worker, 0⟩ = (s.course ⟨.worker, 0⟩).after op r := (course_tracks _).own ha
    have hallows : (s.course ⟨.worker, 0⟩).Allows op := hcourse
    rw [hafter]
    cases hl : s.course ⟨.worker, 0⟩ with
    | idle =>
      rw [hl] at h hallows
      obtain rfl : op = .dequeue := hallows
      exact dequeue_step h ha rfl
    | on task leg =>
      rw [hl] at h hallows
      obtain rfl | hproceeds := hallows
      · exact finish_step h ha rfl hl
      · rw [Course.after_on hproceeds]
        exact Leg.step h ha rfl hproceeds
  · have hrequest : i.role.requests = true := by
      revert hworker hrole
      cases i.role <;> decide
    have hcall := callAllows_of_allows hworker hop
    have hspares := (course_allows_of_ne hworker _ _).mp hcourse
    have hother : s'.course ⟨.worker, 0⟩ = s.course ⟨.worker, 0⟩ :=
      (course_tracks _).other ha fun heq => hworker (by rw [← heq])
    rw [hother]
    refine h.moved (request_moved ha hcall hrequest hspares) (ha.traefikDyn ?_)
    rintro apps rfl
    cases hspares

/-! ## Runs -/

variable {w : World} {c : Config Op Ans Exn State Call}

/-- Requests and one worker, call `i` for the app `ν i`. -/
def Installs (ν : Call → String) (i : Call) (p : Coro Unit) : Prop := StartsOf installing (ν i) i p

theorem installs_tracks (ν : Call → String) : Protocol.Tracks
    (fun i => (protocol (ν i) (Call.role i)).and (course i.role)) (Act (.inStep ν))
    fun i s => (s.phase i, s.course i) :=
  Protocol.Tracks.and ⟨fun ha => (tracks _ _).own ha, fun ha hij => (tracks _ "").other ha hij⟩
    (course_tracks _)

theorem Installs.conforms {p : Coro Unit} (h : Installs ν i p) :
    p.Conforms ((protocol (ν i) i.role).and (course i.role)) (.idle, .idle)
      fun _ l => i.role.EndsIn l.1 ∧ l.2 = .idle := by
  refine h.starts.conforms.and (h.starts.keeps ?_)
  have hrole := h.1
  revert hrole
  cases i.role <;> decide

theorem Course.Holds.reaches (h : Course.idle.Holds ν ⟨w, []⟩)
    (hc : Reaches (Act (.inStep ν)) (Installs ν) (.idle ⟨w, []⟩) c) :
    (c.state.course ⟨.worker, 0⟩).Holds ν c.state := by
  refine Reaches.invariant_allowed (installs_tracks ν) (fun _ _ hp => hp.conforms)
    (I := fun s : State => (s.course ⟨.worker, 0⟩).Holds ν s) (fun i s op r s' hp hop hs ha => ?_) hc
    (Conforming.idle fun _ => rfl) h
  obtain ⟨p, hp⟩ := hp
  exact hs.step ha hp.starts.worker hp.1 hop.1 hop.2

theorem not_pledged (hc : Reaches (Act (.inStep ν)) (Installs ν) (.idle ⟨w, []⟩) c) (hidle : NoRequest c)
    (hrequest : i.role.requests = true) : ¬Pledged i c.state := by
  rintro ⟨hphase, -⟩
  have hends : c.state.phase i = .idle := by
    obtain hfirst | ⟨r, hends, -⟩ := Reaches.conforming_finished (installs_tracks ν)
      (fun _ _ hp => hp.conforms) hc (Conforming.idle fun _ => rfl) (hidle i hrequest)
    · exact (Prod.mk.inj hfirst).1
    · exact hends (Role.lifecycle_of_requests hrequest)
  rw [hphase] at hends
  cases hends

theorem course_idle (hc : Reaches (Act (.inStep ν)) (Installs ν) (.idle ⟨w, []⟩) c) (hworker : WorkerIdle c) :
    c.state.course ⟨.worker, 0⟩ = .idle := by
  have hconf := hc.conforming (installs_tracks ν) (fun _ _ hp => hp.conforms)
    (Conforming.idle fun _ => rfl) ⟨.worker, 0⟩
  cases hp : c.pool ⟨.worker, 0⟩ with
  | none =>
    rw [hp] at hconf
    exact (Prod.mk.inj hconf).2
  | some p =>
    rw [hp] at hconf
    cases p with
    | ret a => exact hconf.2.2
    | raise e => exact hconf.2.2
    | await op next =>
      obtain rfl := hworker op next hp
      have hallows : (c.state.course ⟨.worker, 0⟩).Allows .dequeue := hconf.2.1.2
      cases hl : c.state.course ⟨.worker, 0⟩ with
      | idle => rfl
      | on task leg =>
        rw [hl] at hallows
        exact absurd hallows leg.not_dequeue

end Invariant

/-- Once the worker is idle, its queue is empty and no request is in flight, the apps with a router in the last
written configuration are the apps in service whose metadata can be read. -/
theorem routers_agree {ν : Call → String} {w : World} {c : Config Op Ans Exn State Call}
    {disableSsl : Bool} {portal : SafeIdentity}
    (hw : ∀ name, (w.traefikConfig disableSsl portal).HasRouter name ↔ w.Routable name)
    (hc : Reaches (Act (.inStep ν)) (Installs ν) (.idle ⟨w, []⟩) c) (hidle : NoRequest c)
    (hworker : WorkerIdle c) (hqueue : c.state.world.taskQueue = []) (name : String) :
    (c.state.world.traefikConfig disableSsl portal).HasRouter name ↔ c.state.world.Routable name := by
  have hstart : Course.idle.Holds ν ⟨w, []⟩ := fun name =>
    .inl (.inl (World.traefikConfig_hasRouter.symm.trans (hw name)))
  have hholds := hstart.reaches hc
  rw [course_idle hc hworker] at hholds
  have hdue : ∀ task, ¬Due ν task c.state := by
    rintro task (hmem | ⟨i, hpledged, horders, -⟩)
    · rw [hqueue] at hmem
      cases hmem
    · refine not_pledged hc hidle ?_ hpledged
      cases hrole : i.role <;> rw [hrole] at horders <;> first
        | rfl
        | cases horders
  obtain (hiff | hdeparts) | hreturns := hholds name
  · exact World.traefikConfig_hasRouter.trans hiff
  · exact absurd hdeparts (hdue _)
  · exact absurd hreturns.2 (hdue _)

/-! ## Two runs -/

def notesMeta : AppMeta := { AppMeta.named "notes" with entrypoints := [⟨"notes", 80, .HTTPS_443⟩] }

/-- A shard with one app, its router in the configuration if its status has one. -/
def notesShard (status : Status) : World where
  installedApps := ⟨[⟨"notes", .store, status, none⟩], List.nodup_singleton _⟩
  appDirs := Function.update (fun _ => none) "notes"
    (some { appMeta := some (.accepted notesMeta), template := true, compose := true })
  appStore := Function.update (fun _ => none) "notes"
    (some { appMeta := some (.accepted notesMeta), template := true, compose := true })
  defaultIdentity := some "id"
  traefikDyn := if status ∈ notRoutableStatus then [] else [(⟨"notes", .store, status, none⟩, notesMeta)]

theorem notesShard_agrees (status : Status) (disableSsl : Bool) (portal : SafeIdentity) (name : String) :
    ((notesShard status).traefikConfig disableSsl portal).HasRouter name ↔
      (notesShard status).Routable name := by
  rw [World.traefikConfig_hasRouter]
  by_cases hname : name = "notes"
  · subst hname
    cases status <;> decide
  · have hstatus : (notesShard status).status name = none := by
      simp [World.status, InstalledApps.status, InstalledApps.getByName, notesShard, Ne.symm hname]
    refine iff_of_false ?_ fun h => ?_
    · rintro ⟨info, hinfo, rfl, -⟩
      unfold notesShard at hinfo
      dsimp only at hinfo
      split at hinfo
      · cases hinfo
      · obtain rfl := List.mem_singleton.mp hinfo
        exact hname rfl
    · obtain ⟨_, hst, -⟩ := h.1
      rw [hstatus] at hst
      cases hst

/-- A reinstallation is requested, and the worker processes one task under these choices. -/
def reinstallCues (choices : List Choice) : List Cue :=
  .start ⟨.reinstallRequest, 0⟩ :: Cue.fires ⟨.reinstallRequest, 0⟩ (List.replicate 5 .proceed) ++
    .start ⟨.worker, 0⟩ :: Cue.fires ⟨.worker, 0⟩ choices

/-- Of an app whose last installation has failed. -/
theorem routers_agree_notes : ∃ c,
    Reaches (Act (.inStep fun _ => "notes")) (Installs fun _ => "notes") (.idle ⟨notesShard .error, []⟩) c ∧
    NoRequest c ∧ WorkerIdle c ∧ c.state.world.taskQueue = [] ∧
    c.state.world.status "notes" = some .stopped ∧ c.state.world.Routable "notes" := by
  let portal : SafeIdentity := ⟨"abcdef.example.org", "abcdef", "key"⟩
  let cues := reinstallCues (List.replicate 13 .proceed ++
    .docker (.ok ()) (.single .created) :: List.replicate 7 .proceed)
  obtain ⟨c, hrun, hc, hquiet⟩ := exists_run_config (.inStep fun _ => "notes") installing "notes"
    (notesShard .error) 1 cues (fun c => (cues.all fun cue => c.ended cue.call) &&
      (c.state.world.taskQueue == []) && (c.state.world.status "notes" == some .stopped) &&
      decide (c.state.world.Routed "notes")) (by decide) (by decide)
  simp only [Bool.and_eq_true, beq_iff_eq, decide_eq_true_eq] at hc
  obtain ⟨⟨⟨hended, hqueue⟩, hstatus⟩, hrouted⟩ := hc
  have hq := hquiet hended
  have hidle : NoRequest c := fun i _ => hq i
  have hworker : WorkerIdle c := fun op next h => absurd h (hq _ op next)
  have hagree := routers_agree (notesShard_agrees .error false portal) hrun hidle hworker hqueue "notes"
  exact ⟨c, hrun, hidle, hworker, hqueue, hstatus, hagree.mp (World.traefikConfig_hasRouter.mpr hrouted)⟩

/-- Of a running app; the download fails. -/
theorem routers_disagree : ¬ ∀ (ν : Call → String) (w : World) (c : Config Op Ans Exn State Call)
    (disableSsl : Bool) (portal : SafeIdentity),
    (∀ name, (w.traefikConfig disableSsl portal).HasRouter name ↔ w.Routable name) →
    Reaches (Act .writing) (Installs ν) (.idle ⟨w, []⟩) c → NoRequest c → WorkerIdle c →
    c.state.world.taskQueue = [] → ∀ name,
    (c.state.world.traefikConfig disableSsl portal).HasRouter name ↔ c.state.world.Routable name := by
  intro h
  let portal : SafeIdentity := ⟨"abcdef.example.org", "abcdef", "key"⟩
  let cues := reinstallCues (List.replicate 7 .proceed ++
    .raise (.other "ConnectionError") :: List.replicate 4 .proceed)
  obtain ⟨c, hrun, hc, hquiet⟩ := exists_run_config .writing installing "notes" (notesShard .running) 1
    cues (fun c => (cues.all fun cue => c.ended cue.call) && (c.state.world.taskQueue == []) &&
      decide (c.state.world.Routed "notes") && !decide (c.state.world.Routable "notes"))
    (by decide) (by decide)
  simp only [Bool.and_eq_true, beq_iff_eq, decide_eq_true_eq, Bool.not_eq_true',
    decide_eq_false_iff_not] at hc
  obtain ⟨⟨⟨hended, hqueue⟩, hrouted⟩, hnot⟩ := hc
  have hq := hquiet hended
  have hidle : NoRequest c := fun i _ => hq i
  have hworker : WorkerIdle c := fun op next h => absurd h (hq _ op next)
  have hagree := h (fun _ => "notes") _ c false portal (notesShard_agrees .running false portal) hrun
    hidle hworker hqueue "notes"
  exact hnot (hagree.mp (World.traefikConfig_hasRouter.mpr hrouted))

end Freeshard
